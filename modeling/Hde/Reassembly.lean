import Hde.Machines
import Hde.Stream

/-!
Chunks of one message that arrive in any order and any number of times. The
buffer collects them (`collected_run`) and no call before the last missing chunk
returns a message, but the call that brings it raises and leaves the buffer
(`completing_raises`), so no message is ever reassembled (`never_reassembled`).
-/
namespace Hde.Reassembly
open Hde.Text Hde.Dicts Hde.Frames Hde.Saves Hde.Stream Hde.Machines
open Hde.Stream.MessageStream

/-- A call of `add_chunk` that brings chunk `index + 1` of `n`. -/
structure Delivery (τ : Type*) (n : Nat) where
  index : Fin n
  timestamp : Int
  created : τ
  updated : τ

variable {τ : Type*} {texts : List Str}

/-- The call that brings a chunk of a message of these texts. -/
def Delivery.op (sender : Str) (delivery : Delivery τ texts.length) : Op τ :=
  .addChunk ⟨sender, delivery.index + 1, texts.length, texts[delivery.index], delivery.timestamp, delivery.created,
    delivery.updated⟩

def Covers {n : Nat} (calls : List (Delivery τ n)) : Prop := ∀ index, index ∈ calls.map Delivery.index

instance {n : Nat} (calls : List (Delivery τ n)) : Decidable (Covers calls) :=
  inferInstanceAs (Decidable (∀ index, index ∈ calls.map Delivery.index))

theorem not_covers_nil {n : Nat} (some_chunk : 0 < n) : ¬ Covers ([] : List (Delivery τ n)) :=
  fun covers => by simpa using covers ⟨0, some_chunk⟩

theorem Covers.append {n : Nat} {calls : List (Delivery τ n)} (covers : Covers calls) (more : List (Delivery τ n)) :
    Covers (calls ++ more) := by
  intro index
  rw [List.map_append]
  exact List.mem_append_left _ (covers index)

theorem exists_completing {n : Nat} (some_chunk : 0 < n) (calls : List (Delivery τ n)) (covers : Covers calls) :
    ∃ before last rest, calls = before ++ last :: rest ∧ ¬ Covers before ∧ Covers (before ++ [last]) := by
  induction calls using List.reverseRecOn with
  | nil => exact absurd covers (not_covers_nil some_chunk)
  | append_singleton earlier final ih =>
    by_cases already : Covers earlier
    · obtain ⟨before, last, rest, rfl, missing, complete⟩ := ih already
      exact ⟨before, last, rest ++ [final], by simp, missing, complete⟩
    · exact ⟨earlier, final, [], rfl, already, covers⟩

/-- The sender's buffer, or the one that the next call makes, holds the chunks
    brought so far and no others of the message. -/
def Collected (stream : MessageStream τ) (sender : Str) (calls : List (Delivery τ texts.length)) : Prop :=
  ∀ created, (stream.bufferOf sender texts.length created).batch = texts.length ∧
    ∀ index : Fin texts.length, (stream.bufferOf sender texts.length created).chunks.get? (index + 1) =
      if index ∈ calls.map Delivery.index then some texts[index] else none

theorem collected_nil {stream : MessageStream τ} {sender : Str} (fresh : stream.buffers.get? sender = none) :
    Collected stream sender ([] : List (Delivery τ texts.length)) := by
  intro created
  simp [bufferOf, fresh]

theorem complete_iff {stream : MessageStream τ} {sender : Str} {calls : List (Delivery τ texts.length)}
    (collected : Collected stream sender calls) (created : τ) :
    isMessageComplete (stream.bufferOf sender texts.length created).chunks
      (stream.bufferOf sender texts.length created).batch = true ↔ Covers calls := by
  obtain ⟨batch, chunks⟩ := collected created
  have held (index : Fin texts.length) :
      (stream.bufferOf sender texts.length created).chunks.contains (index + 1) = true ↔
        index ∈ calls.map Delivery.index := by
    rw [Dict.contains, chunks index]
    split <;> simp_all
  rw [batch, isMessageComplete_iff]
  constructor
  · intro all index
    exact (held index).mp (all index index.isLt)
  · intro covers i small
    exact (held ⟨i, small⟩).mpr (covers ⟨i, small⟩)

variable [Sub τ] [LT τ] [DecidableLT τ] {env : Environment} {stream : MessageStream τ} {sender : Str}

/-- After a delivery, the buffer is the one before with the chunk received. -/
theorem bufferOf_step (delivery : Delivery τ texts.length) (created : τ) :
    (step env stream (delivery.op sender)).1.bufferOf sender texts.length created =
      (stream.bufferOf sender texts.length delivery.created).receive (delivery.index + 1) texts[delivery.index]
        delivery.updated := by
  simp [Delivery.op, step, addChunk_eq, bufferOf]

theorem buffer_kept (delivery : Delivery τ texts.length) (created : τ) :
    (step env stream (delivery.op sender)).1.buffers.get? sender =
      some ((step env stream (delivery.op sender)).1.bufferOf sender texts.length created) := by
  rw [bufferOf_step]
  simp [Delivery.op, step, addChunk_eq]

theorem collected_step {calls : List (Delivery τ texts.length)} (collected : Collected stream sender calls)
    (delivery : Delivery τ texts.length) :
    Collected (step env stream (delivery.op sender)).1 sender (calls ++ [delivery]) := by
  intro created
  obtain ⟨batch, chunks⟩ := collected delivery.created
  rw [bufferOf_step]
  refine ⟨batch, ?_⟩
  intro index
  simp only [Buffer.receive, Dict.get?_set]
  by_cases same : index = delivery.index
  · subst same
    simp
  · have other : ((index : Nat) : Int) + 1 ≠ delivery.index + 1 := by
      simpa [Fin.ext_iff] using same
    simp [other, chunks index, same]

variable (env stream sender) in
def received (calls : List (Delivery τ texts.length)) : MessageStream τ :=
  after (step env) stream (calls.map (Delivery.op sender))

variable (env stream sender) in
def deliver (calls : List (Delivery τ texts.length)) (last : Delivery τ texts.length) :
    MessageStream τ × Except PyError (Option Str) :=
  step env (received env stream sender calls) (last.op sender)

theorem collected_run (fresh : stream.buffers.get? sender = none) (calls : List (Delivery τ texts.length)) :
    Collected (received env stream sender calls) sender calls := by
  induction calls using List.reverseRecOn with
  | nil => exact collected_nil fresh
  | append_singleton earlier delivery ih =>
    rw [received, List.map_append, after_append]
    exact collected_step ih delivery

theorem answer_step (delivery : Delivery τ texts.length) (created : τ) :
    (step env stream (delivery.op sender)).2 =
      if isMessageComplete ((step env stream (delivery.op sender)).1.bufferOf sender texts.length created).chunks
          ((step env stream (delivery.op sender)).1.bufferOf sender texts.length created).batch then
        .error missingBatch
      else .ok none := by
  rw [bufferOf_step]
  simp only [Delivery.op, step, addChunk_eq]

theorem answer_completing {calls : List (Delivery τ texts.length)} (collected : Collected stream sender calls)
    {delivery : Delivery τ texts.length} (covers : Covers (calls ++ [delivery])) :
    (step env stream (delivery.op sender)).2 = .error missingBatch := by
  rw [answer_step delivery delivery.created,
    if_pos ((complete_iff (collected_step collected delivery) delivery.created).mpr covers)]

theorem answer_incomplete {calls : List (Delivery τ texts.length)} (collected : Collected stream sender calls)
    {delivery : Delivery τ texts.length} (missing : ¬ Covers (calls ++ [delivery])) :
    (step env stream (delivery.op sender)).2 = .ok none := by
  rw [answer_step delivery delivery.created,
    if_neg (mt (complete_iff (collected_step collected delivery) delivery.created).mp missing)]

/-- Until the deliveries are complete, every call returns `None`. -/
theorem answers_incomplete (fresh : stream.buffers.get? sender = none) {calls : List (Delivery τ texts.length)}
    (missing : ¬ Covers calls) :
    ∀ answer ∈ answers (step env) stream (calls.map (Delivery.op sender)), answer.2 = .ok none := by
  rintro ⟨op, answer⟩ member
  obtain ⟨before, rest, split, rfl⟩ := mem_answers member
  obtain ⟨earlier, later, rfl, rfl, more⟩ := List.map_eq_append_iff.mp split
  obtain ⟨delivery, others, rfl, rfl, rfl⟩ := List.map_eq_cons_iff.mp more
  apply answer_incomplete (collected_run fresh earlier)
  intro covers
  apply missing
  have := covers.append others
  simpa using this

/-- The call that completes the message raises, and the buffer stays, with the
    whole message in it. -/
theorem completing_raises (fresh : stream.buffers.get? sender = none) {before : List (Delivery τ texts.length)}
    {last : Delivery τ texts.length} (covers : Covers (before ++ [last])) :
    (deliver env stream sender before last).2 = .error missingBatch ∧
      ∃ buf, (deliver env stream sender before last).1.buffers.get? sender = some buf ∧
        ∀ index : Fin texts.length, buf.chunks.get? (index + 1) = some texts[index] := by
  have collected : Collected (received env stream sender before) sender before := collected_run fresh before
  refine ⟨answer_completing collected covers, _, buffer_kept last last.created, ?_⟩
  intro index
  have after : Collected (deliver env stream sender before last).1 sender (before ++ [last]) :=
    collected_step collected last
  have chunk := (after last.created).2 index
  rwa [if_pos (covers index)] at chunk

/-- Every call before the one that brings the last missing chunk returns `None`,
    and that call returns the message and leaves no buffer for the sender. -/
def Reassembles (env : Environment) (stream : MessageStream τ) (sender : Str) (calls : List (Delivery τ texts.length)) :
    Prop :=
  ∀ before last rest, calls = before ++ last :: rest → ¬ Covers before → Covers (before ++ [last]) →
    (∀ answer ∈ answers (step env) stream (before.map (Delivery.op sender)), answer.2 = .ok none) ∧
      (deliver env stream sender before last).2 = .ok (some texts.flatten) ∧
      (deliver env stream sender before last).1.buffers.get? sender = none

/-- One chunk of a one-chunk message. -/
theorem reassembly_raises : ¬ ∀ (env : Environment) (stream : MessageStream Int) (sender : Str) (texts : List Str)
    (calls : List (Delivery Int texts.length)), 0 < texts.length → stream.buffers.get? sender = none → Covers calls →
      Reassembles env stream sender calls := by
  intro claim
  have reassembles := claim ⟨fun _ => none, fun _ => []⟩ (.new 60) (lit "node") [lit "hello"] [⟨0, 1700000000, 5, 5⟩]
    (by decide) rfl (by decide)
  obtain ⟨-, returned, -⟩ := reassembles [] _ [] rfl (by decide) (by decide)
  cases returned

/-- No message is ever reassembled: in every order, the calls before the last
    missing chunk return `None`, and the call that brings it raises and leaves the
    whole message in the buffer. -/
theorem never_reassembled (env : Environment) (stream : MessageStream τ) (sender : Str)
    (calls : List (Delivery τ texts.length)) (some_chunk : 0 < texts.length)
    (fresh : stream.buffers.get? sender = none) (covers : Covers calls) :
    (∃ before last rest, calls = before ++ last :: rest ∧
      (∀ answer ∈ answers (step env) stream (before.map (Delivery.op sender)), answer.2 = .ok none) ∧
      (deliver env stream sender before last).2 = .error missingBatch ∧
      ∃ buf, (deliver env stream sender before last).1.buffers.get? sender = some buf ∧
        ∀ index : Fin texts.length, buf.chunks.get? (index + 1) = some texts[index]) ∧
    ¬ Reassembles env stream sender calls := by
  obtain ⟨before, last, rest, split, missing, complete⟩ := exists_completing some_chunk calls covers
  refine ⟨⟨before, last, rest, split, answers_incomplete fresh missing, completing_raises fresh complete⟩, ?_⟩
  intro reassembles
  obtain ⟨-, returned, -⟩ := reassembles before last rest split missing complete
  rw [(completing_raises fresh complete).1] at returned
  cases returned

theorem never_reassembled_two : ¬ Reassembles ⟨fun _ => none, fun _ => []⟩ (.new 60) (lit "node")
    ([⟨1, 1700000000, 5, 5⟩, ⟨1, 1700000000, 6, 6⟩, ⟨0, 1700000000, 7, 7⟩] :
      List (Delivery Int [lit "hello ", lit "world"].length)) :=
  (never_reassembled _ _ _ _ (by decide) rfl (by decide)).2

end Hde.Reassembly
