import Hde.Machines
import Hde.Stream

/-!
When chunks leave their buffer. The timestamp of a buffer is the clock reading of
its sender's latest call of `add_chunk` (`timestamp_latest`). So a chunk stays until
it is replaced, its message is assembled or a `cleanup` comes too late after that
call, and `cleanup` removes the buffers that it finds late and leaves every other one
as it is (`lost_for_a_reason`).
-/
namespace Hde.Expiry
open Hde.Text Hde.Dicts Hde.Frames Hde.Saves Hde.Stream Hde.Machines
open Hde.Stream.MessageStream

variable {τ : Type*}

/-- The last reading of the clock in a call of `add_chunk` for the sender. -/
def latest (sender : Str) (ops : List (Op τ)) : Option τ :=
  (ops.filterMap fun
    | .addChunk call => if call.sender = sender then some call.updated else none
    | .cleanup _ => none).getLast?

/-- `buffers[sender]["chunks"][k]` is the text. -/
def Buffered (stream : MessageStream τ) (sender : Str) (k : Int) (text : Str) : Prop :=
  ∃ buf, stream.buffers.get? sender = some buf ∧ buf.chunks.get? k = some text

theorem latest_addChunk (sender : Str) (ops : List (Op τ)) (call : AddChunk τ) :
    latest sender (ops ++ [.addChunk call]) = if call.sender = sender then some call.updated else latest sender ops := by
  by_cases own : call.sender = sender <;> simp [latest, own]

theorem latest_cleanup (sender : Str) (ops : List (Op τ)) (now : τ) :
    latest sender (ops ++ [.cleanup now]) = latest sender ops := by
  simp [latest]

variable [Sub τ] [LT τ] [DecidableLT τ]

/-- Why the chunk that a call has brought may be gone after some more operations. -/
inductive Lost (env : Environment) (timeout : τ) (before : List (Op τ)) (call : AddChunk τ) (rest : List (Op τ)) : Prop
  | replaced {other : AddChunk τ} (later : .addChunk other ∈ rest) (own : other.sender = call.sender)
      (number : other.chunkId = call.chunkId)
  | assembled {other : AddChunk τ} {fullMessage : Str} (own : other.sender = call.sender)
      (answered : (.addChunk other, .ok (some fullMessage)) ∈
        answers (step env) (after (step env) (.new timeout) before) (.addChunk call :: rest))
  | expired {first last : List (Op τ)} {now reading : τ} (later : rest = first ++ .cleanup now :: last)
      (read : latest call.sender (before ++ .addChunk call :: first) = some reading) (late : timeout < now - reading)

variable {env : Environment} {timeout : τ}

theorem timeout_after (ops : List (Op τ)) : (after (step env) (.new timeout) ops).timeout = timeout := by
  induction ops using List.reverseRecOn with
  | nil => rfl
  | append_singleton earlier op ih =>
    rw [after_append]
    cases op with
    | addChunk call => simpa [step, addChunk_eq] using ih
    | cleanup now => simpa [step, cleanup] using ih

theorem timestamp_latest (ops : List (Op τ)) {sender : Str} {buf : Buffer τ}
    (found : (after (step env) (.new timeout) ops).buffers.get? sender = some buf) :
    latest sender ops = some buf.timestamp := by
  induction ops using List.reverseRecOn generalizing buf with
  | nil => simp [new] at found
  | append_singleton earlier op ih =>
    rw [after_append, after_cons, after_nil] at found
    cases op with
    | cleanup now => rw [latest_cleanup, ih (found_of_cleanup found)]
    | addChunk call =>
      rw [get?_addChunk] at found
      rw [latest_addChunk]
      split at found
      · next same =>
        subst same
        obtain rfl := Option.some.inj found
        rw [if_pos rfl, Buffer.receive]
      · next other => rw [if_neg (Ne.symm other), ih found]

/-- The call itself leaves its chunk in the buffer. -/
theorem buffered_call (stream : MessageStream τ) (call : AddChunk τ) :
    Buffered (step env stream (.addChunk call)).1 call.sender call.chunkId call.message := by
  refine ⟨(stream.bufferOf call.sender call.chunkBatch call.created).receive call.chunkId call.message call.updated, ?_, ?_⟩
  · rw [get?_addChunk, if_pos rfl]
  · simp [Buffer.receive]

/-- Another call leaves the chunk there unless it brings one with its number. -/
theorem buffered_addChunk {stream : MessageStream τ} {sender : Str} {k : Int} {text : Str}
    (held : Buffered stream sender k text) {other : AddChunk τ} (different : other.sender = sender → other.chunkId ≠ k) :
    Buffered (step env stream (.addChunk other)).1 sender k text := by
  obtain ⟨buf, found, has⟩ := held
  by_cases own : other.sender = sender
  · subst own
    refine ⟨buf.receive other.chunkId other.message other.updated, ?_, ?_⟩
    · rw [get?_addChunk, if_pos rfl, bufferOf, found, Option.getD_some]
    · simpa [Buffer.receive, Dict.get?_set_of_ne _ _ (different rfl).symm] using has
  · refine ⟨buf, ?_, has⟩
    rw [get?_addChunk, if_neg (Ne.symm own), found]

theorem cleanup_get? (ops : List (Op τ)) (now : τ) (sender : Str) :
    ((step env (after (step env) (.new timeout) ops) (.cleanup now)).1).buffers.get? sender =
      ((after (step env) (.new timeout) ops).buffers.get? sender).filter
        fun buf => ¬ timeout < now - buf.timestamp := by
  simp [step, cleanup, Dict.get?_filter, timeout_after]

theorem Lost.append {before rest : List (Op τ)} {call : AddChunk τ} (lost : Lost env timeout before call rest)
    (op : Op τ) : Lost env timeout before call (rest ++ [op]) := by
  cases lost with
  | replaced later own number => exact .replaced (List.mem_append_left _ later) own number
  | @assembled other fullMessage own answered =>
    have still : (.addChunk other, .ok (some fullMessage)) ∈
        answers (step env) (after (step env) (.new timeout) before) (.addChunk call :: (rest ++ [op])) := by
      rw [← List.cons_append, answers_append]
      exact List.mem_append_left _ answered
    exact .assembled own still
  | @expired first last now reading later read late =>
    subst later
    exact .expired (by rw [List.append_assoc, List.cons_append]) read late

theorem buffered_or_lost (before rest : List (Op τ)) (call : AddChunk τ) :
    Buffered (after (step env) (.new timeout) (before ++ .addChunk call :: rest)) call.sender call.chunkId call.message ∨
      Lost env timeout before call rest := by
  induction rest using List.reverseRecOn with
  | nil =>
    rw [after_append]
    exact .inl (buffered_call _ call)
  | append_singleton rest op ih =>
    rcases ih with held | lost
    · rw [← List.cons_append, ← List.append_assoc, after_append]
      cases op with
      | addChunk other =>
        by_cases replaces : other.sender = call.sender ∧ other.chunkId = call.chunkId
        · exact .inr (.replaced (by simp) replaces.1 replaces.2)
        · exact .inl (buffered_addChunk held fun own number => replaces ⟨own, number⟩)
      | cleanup now =>
        obtain ⟨buf, found, has⟩ := held
        have read := timestamp_latest _ found
        by_cases late : timeout < now - buf.timestamp
        · exact .inr (.expired rfl read late)
        · refine .inl ⟨buf, ?_, has⟩
          rw [after_cons, after_nil, cleanup_get?, found]
          simp [late]
    · exact .inr (lost.append op)

/-- After every run a chunk is in its buffer unless it was lost for a stated reason;
    a `cleanup` leaves no buffer whose latest call is too long ago, and every other
    buffer as it was. -/
theorem lost_for_a_reason (env : Environment) (timeout : τ) :
    (∀ (before rest : List (Op τ)) (call : AddChunk τ),
      Buffered (after (step env) (.new timeout) (before ++ .addChunk call :: rest)) call.sender call.chunkId
          call.message ∨
        Lost env timeout before call rest) ∧
    ∀ (ops : List (Op τ)) (now : τ) (sender : Str),
      let stream := after (step env) (.new timeout) ops
      let cleaned := (step env stream (.cleanup now)).1
      (∀ buf, cleaned.buffers.get? sender = some buf →
        ∃ reading, latest sender ops = some reading ∧ ¬ timeout < now - reading) ∧
      ∀ buf, stream.buffers.get? sender = some buf →
        (∀ reading, latest sender ops = some reading → ¬ timeout < now - reading) →
        cleaned.buffers.get? sender = some buf := by
  constructor
  · intro before rest call
    exact buffered_or_lost before rest call
  · intro ops now sender
    constructor
    · intro buf left
      rw [cleanup_get?, Option.filter_eq_some_iff] at left
      exact ⟨buf.timestamp, timestamp_latest ops left.1, of_decide_eq_true left.2⟩
    · intro buf found in_time
      rw [cleanup_get?, found]
      simpa using in_time buf.timestamp (timestamp_latest ops found)

end Hde.Expiry
