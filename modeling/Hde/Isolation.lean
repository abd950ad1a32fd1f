import Hde.Machines
import Hde.Stream

/-!
Senders do not interfere: calls of `add_chunk` for one sender are answered, and
its buffer ends up, as if nobody else had ever called `add_chunk`
(`senders_isolated`).
-/
namespace Hde.Isolation
open Hde.Text Hde.Dicts Hde.Saves Hde.Stream Hde.Machines
open Hde.Stream.MessageStream

variable {τ : Type*} [Sub τ] [LT τ] [DecidableLT τ]

/-- What concerns a sender: its calls of `add_chunk`, and every `cleanup`. -/
def concerns (sender : Str) : Op τ → Bool
  | .addChunk call => call.sender = sender
  | .cleanup _ => true

/-- A sender's buffer, and the timeout that `cleanup` compares with. -/
def part (sender : Str) (stream : MessageStream τ) : Option (Buffer τ) × τ :=
  (stream.buffers.get? sender, stream.timeout)

theorem isolated (env : Environment) (sender : Str) :
    Isolated (step env) (part sender : MessageStream τ → _) (concerns sender) := by
  constructor
  case silent =>
    intro stream op unseen
    cases op with
    | cleanup now => cases unseen
    | addChunk call =>
      have different : sender ≠ call.sender := by
        rintro rfl
        simp [concerns] at unseen
      simp [step, addChunk_eq, part, Dict.get?_set_of_ne, different]
  case answered =>
    intro stream other op seen same
    obtain ⟨buffers, timeout⟩ := Prod.mk.inj same
    cases op with
    | cleanup now => simp [step, cleanup, part, Dict.get?_filter, buffers, timeout]
    | addChunk call =>
      obtain rfl : call.sender = sender := by simpa [concerns] using seen
      have found : stream.bufferOf call.sender call.chunkBatch call.created =
          other.bufferOf call.sender call.chunkBatch call.created := by
        rw [bufferOf, bufferOf, buffers]
      simp [step, addChunk_eq, part, found, timeout]

/-- Deleting the calls of `add_chunk` for other senders from a run changes neither
    what the calls for a sender return or raise nor the sender's buffer at the
    end. -/
theorem senders_isolated (env : Environment) (stream : MessageStream τ) (ops : List (Op τ)) (sender : Str) :
    (answers (step env) stream ops).filter (fun answer => concerns sender answer.1) =
        answers (step env) stream (ops.filter (concerns sender)) ∧
      (after (step env) stream ops).buffers.get? sender =
        (after (step env) stream (ops.filter (concerns sender))).buffers.get? sender := by
  obtain ⟨answered, viewed⟩ := purge (isolated env sender) ops (rfl : part sender stream = part sender stream)
  exact ⟨answered, (Prod.mk.inj viewed).1⟩

end Hde.Isolation
