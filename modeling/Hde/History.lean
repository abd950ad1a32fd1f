import Hde.Machines
import Hde.Stream

/-!
Where the contents of a buffer come from. A sender has one buffer, whatever
message a chunk belongs to, so the chunks of two messages can be mixed in it
(`messages_mixed`). What holds is that a buffer has the `chunk_batch` of the call
that made it, and every chunk in it is the last one that this sender has sent
under its number since that call (`buffer_history`).
-/
namespace Hde.History
open Hde.Text Hde.Dicts Hde.Saves Hde.Stream Hde.Machines
open Hde.Stream.MessageStream

variable {τ : Type*}

def chunksFrom (sender : Str) (ops : List (Op τ)) : List (Int × Str) :=
  ops.filterMap fun
    | .addChunk call => if call.sender = sender then some (call.chunkId, call.message) else none
    | .cleanup _ => none

def lastUnder (k : Int) (chunks : List (Int × Str)) : Option Str := chunks.reverse.lookup k

theorem chunksFrom_append (sender : Str) (ops more : List (Op τ)) :
    chunksFrom sender (ops ++ more) = chunksFrom sender ops ++ chunksFrom sender more := by
  simp [chunksFrom]

theorem lastUnder_append (k : Int) (chunks : List (Int × Str)) (id : Int) (text : Str) :
    lastUnder k (chunks ++ [(id, text)]) = if k = id then some text else lastUnder k chunks := by
  by_cases same : k = id
  · simp [lastUnder, same]
  · have other : (k == id) = false := beq_false_of_ne same
    simp [lastUnder, List.lookup_cons, other, same]

/-- The chunks in a sender's buffer were brought by calls with one timestamp and
    the buffer's own batch. -/
def OneMessage (ops : List (Op τ)) (sender : Str) (buf : Buffer τ) : Prop :=
  ∃ timestamp, ∀ k text, buf.chunks.get? k = some text →
    ∃ call, .addChunk call ∈ ops ∧ call.sender = sender ∧ call.chunkId = k ∧ call.message = text ∧
      call.timestamp = timestamp ∧ call.chunkBatch = buf.batch

/-- The calls of the sender of `first` all have its timestamp and its batch. -/
def SameMessage (first : AddChunk τ) (ops : List (Op τ)) : Prop :=
  ∀ call, .addChunk call ∈ ops → call.sender = first.sender →
    call.timestamp = first.timestamp ∧ call.chunkBatch = first.chunkBatch

theorem call_of_lastUnder {sender : Str} {ops : List (Op τ)} {k : Int} {text : Str}
    (last : lastUnder k (chunksFrom sender ops) = some text) :
    ∃ call, .addChunk call ∈ ops ∧ call.sender = sender ∧ call.chunkId = k ∧ call.message = text := by
  obtain ⟨before, after, split, -⟩ := List.lookup_eq_some_iff.mp last
  have member : (k, text) ∈ chunksFrom sender ops := by
    rw [← List.mem_reverse, split]
    simp
  obtain ⟨op, present, brings⟩ := List.mem_filterMap.mp member
  cases op with
  | cleanup now => cases brings
  | addChunk call =>
    by_cases own : call.sender = sender
    · obtain ⟨number, brought⟩ : call.chunkId = k ∧ call.message = text := by simpa [own] using brings
      exact ⟨call, present, own, number, brought⟩
    · simp [own] at brings

/-- A buffer was made by the call `first` and has collected the sender's chunks
    since. -/
structure Since (first : AddChunk τ) (later : List (Op τ)) (sender : Str) (buf : Buffer τ) : Prop where
  own : first.sender = sender
  batch : buf.batch = first.chunkBatch
  chunks : ∀ k, buf.chunks.get? k = lastUnder k (chunksFrom sender (.addChunk first :: later))

theorem Since.append {first : AddChunk τ} {later : List (Op τ)} {sender : Str} {buf : Buffer τ}
    (since : Since first later sender buf) {op : Op τ} (unrelated : chunksFrom sender [op] = []) :
    Since first (later ++ [op]) sender buf := by
  refine ⟨since.own, since.batch, ?_⟩
  intro k
  rw [since.chunks k, ← List.cons_append, chunksFrom_append, unrelated, List.append_nil]

theorem Since.receive {first call : AddChunk τ} {later : List (Op τ)} {buf : Buffer τ}
    (since : Since first later call.sender buf) :
    Since first (later ++ [.addChunk call]) call.sender (buf.receive call.chunkId call.message call.updated) := by
  refine ⟨since.own, since.batch, ?_⟩
  intro k
  have brought : chunksFrom call.sender [.addChunk call] = [(call.chunkId, call.message)] := by simp [chunksFrom]
  rw [← List.cons_append, chunksFrom_append, brought, lastUnder_append, ← since.chunks k]
  exact Dict.get?_set _ _ _ _

theorem since_first (call : AddChunk τ) :
    Since call [] call.sender
      ((⟨call.created, Dict.empty, call.chunkBatch⟩ : Buffer τ).receive call.chunkId call.message call.updated) := by
  refine ⟨rfl, rfl, ?_⟩
  intro k
  have brought : chunksFrom call.sender [.addChunk call] = [] ++ [(call.chunkId, call.message)] := by simp [chunksFrom]
  rw [brought, lastUnder_append]
  simp [Buffer.receive, Dict.get?_set, lastUnder]

variable [Sub τ] [LT τ] [DecidableLT τ]

theorem buffer_since (env : Environment) (timeout : τ) (ops : List (Op τ)) {sender : Str} {buf : Buffer τ}
    (found : (after (step env) (.new timeout) ops).buffers.get? sender = some buf) :
    ∃ before first later, ops = before ++ .addChunk first :: later ∧
      (after (step env) (.new timeout) before).buffers.get? sender = none ∧ Since first later sender buf := by
  induction ops using List.reverseRecOn generalizing buf with
  | nil => simp [after, new] at found
  | append_singleton earlier op ih =>
    rw [after_append, after_cons, after_nil] at found
    cases op with
    | cleanup now =>
      obtain ⟨before, first, later, rfl, fresh, since⟩ := ih (found_of_cleanup found)
      exact ⟨before, first, later ++ [.cleanup now], by simp, fresh, since.append rfl⟩
    | addChunk call =>
      rw [get?_addChunk] at found
      split at found
      · next same =>
        subst same
        obtain rfl := Option.some.inj found
        cases held : (after (step env) (.new timeout) earlier).buffers.get? call.sender with
        | none =>
          refine ⟨earlier, call, [], rfl, held, ?_⟩
          simpa [bufferOf, held] using since_first call
        | some old =>
          obtain ⟨before, first, later, rfl, fresh, since⟩ := ih held
          refine ⟨before, first, later ++ [.addChunk call], by simp, fresh, ?_⟩
          simpa [bufferOf, held] using since.receive
      · next other =>
        obtain ⟨before, first, later, rfl, fresh, since⟩ := ih found
        refine ⟨before, first, later ++ [.addChunk call], by simp, fresh, since.append ?_⟩
        simp [chunksFrom, Ne.symm other]

/-- A second message of a sender goes into the buffer of the first. -/
theorem messages_mixed : ¬ ∀ (env : Environment) (timeout : Int) (ops : List (Op Int)) (sender : Str) (buf : Buffer Int),
    (after (step env) (.new timeout) ops).buffers.get? sender = some buf → OneMessage ops sender buf := by
  intro claim
  obtain ⟨timestamp, held⟩ := claim ⟨fun _ => none, fun _ => []⟩ 60
    [.addChunk ⟨lit "node", 1, 3, lit "a", 10, 0, 0⟩, .addChunk ⟨lit "node", 2, 3, lit "b", 20, 1, 1⟩] (lit "node") _ rfl
  obtain ⟨first, first_member, -, first_id, -, rfl, -⟩ := held 1 (lit "a") rfl
  obtain ⟨second, second_member, -, second_id, -, same, -⟩ := held 2 (lit "b") rfl
  simp only [List.mem_cons, Op.addChunk.injEq, List.not_mem_nil, or_false] at first_member second_member
  rcases first_member with rfl | rfl <;> rcases second_member with rfl | rfl <;> simp at first_id second_id same

/-- A buffer has the batch of the call that made it and, under every number, the
    last chunk that its sender has brought since. So it mixes no messages when all
    these calls have one timestamp and one batch. -/
theorem buffer_history (env : Environment) (timeout : τ) (ops : List (Op τ)) (sender : Str) (buf : Buffer τ)
    (found : (after (step env) (.new timeout) ops).buffers.get? sender = some buf) :
    ∃ before first later, ops = before ++ .addChunk first :: later ∧
      (after (step env) (.new timeout) before).buffers.get? sender = none ∧ Since first later sender buf ∧
      (SameMessage first later → OneMessage ops sender buf) := by
  obtain ⟨before, first, later, rfl, fresh, since⟩ := buffer_since env timeout ops found
  refine ⟨before, first, later, rfl, fresh, since, ?_⟩
  intro same
  refine ⟨first.timestamp, ?_⟩
  intro k text held
  rw [since.chunks k] at held
  obtain ⟨call, member, own, number, brought⟩ := call_of_lastUnder held
  have agrees : call.timestamp = first.timestamp ∧ call.chunkBatch = first.chunkBatch := by
    rcases List.mem_cons.mp member with first_itself | after_first
    · obtain rfl : call = first := by simpa using first_itself
      exact ⟨rfl, rfl⟩
    · exact same call after_first (own.trans since.own.symm)
  exact ⟨call, List.mem_append_right _ member, own, number, brought, agrees.1, agrees.2.trans since.batch.symm⟩

theorem buffer_history_two : OneMessage
    [.addChunk ⟨lit "node", 2, 3, lit "b", 10, 0, 0⟩, .cleanup 30, .addChunk ⟨lit "node", 1, 3, lit "a", 10, 31, 31⟩]
    (lit "node") (⟨31, (Dict.empty.set 2 (lit "b")).set 1 (lit "a"), 3⟩ : Buffer Int) := by
  obtain ⟨before, first, later, split, -, -, unmixed⟩ := buffer_history ⟨fun _ => none, fun _ => []⟩ (60 : Int)
    [.addChunk ⟨lit "node", 2, 3, lit "b", 10, 0, 0⟩, .cleanup 30, .addChunk ⟨lit "node", 1, 3, lit "a", 10, 31, 31⟩]
    (lit "node") ⟨31, (Dict.empty.set 2 (lit "b")).set 1 (lit "a"), 3⟩ rfl
  apply unmixed
  intro call member _
  have alike : ∀ call, Op.addChunk call ∈ before ++ .addChunk first :: later →
      call.timestamp = 10 ∧ call.chunkBatch = 3 := by
    intro call member
    rw [← split] at member
    simp only [List.mem_cons, Op.addChunk.injEq, List.not_mem_nil, or_false, reduceCtorEq, false_or] at member
    rcases member with rfl | rfl <;> exact ⟨rfl, rfl⟩
  obtain ⟨timestamp, batch⟩ := alike call (by simp [member])
  obtain ⟨first_timestamp, first_batch⟩ := alike first (by simp)
  exact ⟨timestamp.trans first_timestamp.symm, batch.trans first_batch.symm⟩

end Hde.History
