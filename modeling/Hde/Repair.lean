import Hde.LastWrites
import Hde.Saves

/-!
`Parser.repair_message`: an incoming chunk is stored under its number, and the message
is complete when all expected chunks are there. With an expected number the answer says
just that, in any order of arrival (`repair_exactly`). Without one the number of chunks
held before the new one stands in for it, which says nothing about gaps unless the chunks
come in order (`no_gap_exactly`).
-/
namespace Hde.Repair
open Hde.Text Hde.Dicts Hde.Frames Hde.Records Hde.Saves Hde.LastWrites

/-- The keys of an incoming chunk that `repair_message` reads. -/
structure Incoming where
  chunkId : Option Int
  message : Option Str
  expectedChunks : Option Int

/-- The value of a key, or its `KeyError`. -/
def item {ν : Type*} (key : Str) : Option ν → Except PyError ν
  | some v => .ok v
  | none => .error (.keyError key)

/-- `Parser.repair_message`. -/
def repairMessage (existingChunks : Dict Int Str) (incomingChunk : Incoming) : Except PyError (Dict Int Str × Bool) := do
  let chunkId ← item (lit "chunk_id") incomingChunk.chunkId
  let messagePart ← item (lit "message") incomingChunk.message
  -- the default is the length before the chunk is stored
  let batchSize := incomingChunk.expectedChunks.getD existingChunks.entries.length
  let existingChunks := existingChunks.set chunkId messagePart
  return (existingChunks, isMessageComplete existingChunks batchSize)

/-- What calls return that are each given the dict of the one before. -/
def repairAll : Dict Int Str → List Incoming → Except PyError (List (Dict Int Str × Bool))
  | _, [] => return []
  | existingChunks, incomingChunk :: rest => do
    let result ← repairMessage existingChunks incomingChunk
    return result :: (← repairAll result.1 rest)

/-- A chunk with its number and text, and the expected number of chunks if it says so. -/
def chunk (expectedChunks : Option Int) (call : Int × Str) : Incoming := ⟨some call.1, some call.2, expectedChunks⟩

/-- The chunks held after some calls. -/
def held (existing : Dict Int Str) (calls : List (Int × Str)) : Dict Int Str :=
  calls.foldl (fun d call => d.set call.1 call.2) existing

theorem held_append (existing : Dict Int Str) (calls : List (Int × Str)) (call : Int × Str) :
    held existing (calls ++ [call]) = (held existing calls).set call.1 call.2 := by
  simp [held]

theorem get?_held (existing : Dict Int Str) (calls : List (Int × Str)) (id : Int) :
    (held existing calls).get? id = (lastValue id calls).or (existing.get? id) := by
  induction calls using List.reverseRecOn with
  | nil => rfl
  | append_singleton calls call ih =>
    rw [held_append, Dict.get?_set, lastValue_append, lastValue_cons, ih]
    by_cases same : id = call.1
    · simp [same]
    · simp [same, Ne.symm same]

theorem contains_held {existing : Dict Int Str} {calls : List (Int × Str)} {id : Int} :
    (held existing calls).contains id = true ↔ existing.contains id = true ∨ id ∈ calls.map Prod.fst := by
  rw [Dict.contains, Dict.contains, get?_held, Option.isSome_or, Bool.or_eq_true, isSome_lastValue]
  exact or_comm

theorem isMessageComplete_int {chunks : Dict Int Str} {n : Int} :
    isMessageComplete chunks n = true ↔ ∀ i, 1 ≤ i → i ≤ n → chunks.contains i = true := by
  simp only [isMessageComplete, List.all_eq_true, List.mem_range]
  constructor
  · intro all i positive bound
    have present := all (i - 1).toNat (by omega)
    rwa [show ((i - 1).toNat : Int) + 1 = i by omega] at present
  · intro all i small
    exact all (i + 1) (by omega) (by omega)

theorem repairMessage_chunk (expected : Option Int) (existing : Dict Int Str) (call : Int × Str) :
    repairMessage existing (chunk expected call) = .ok (existing.set call.1 call.2,
      isMessageComplete (existing.set call.1 call.2) (expected.getD existing.entries.length)) := rfl

/-- The calls return the chunks held after each of them, and whether those are as many as
    expected. -/
theorem repairAll_spec (expected : Option Int) (existing : Dict Int Str) (calls : List (Int × Str)) :
    ∃ results, repairAll existing (calls.map (chunk expected)) = .ok results ∧ results.length = calls.length ∧
      ∀ k < calls.length, results[k]? = some (held existing (calls.take (k + 1)),
        isMessageComplete (held existing (calls.take (k + 1)))
          (expected.getD (held existing (calls.take k)).entries.length)) := by
  induction calls generalizing existing with
  | nil => exact ⟨[], rfl, rfl, fun k small => by cases small⟩
  | cons call rest ih =>
    obtain ⟨results, ran, count, each⟩ := ih (existing.set call.1 call.2)
    refine ⟨(existing.set call.1 call.2,
      isMessageComplete (existing.set call.1 call.2) (expected.getD existing.entries.length)) :: results, ?_, ?_, ?_⟩
    · rw [List.map_cons, repairAll, repairMessage_chunk]
      show (repairAll (existing.set call.1 call.2) (rest.map (chunk expected)) >>= _) = _
      rw [ran]
      rfl
    · rw [List.length_cons, List.length_cons, count]
    · intro k small
      cases k with
      | zero => rfl
      | succ k => exact each k (by simpa using small)

/-! ### With an expected number -/

/-- The numbers from 1 to n. -/
def upTo (n : Int) : List Int := (List.range n.toNat).map fun k : Nat => (k : Int) + 1

theorem mem_upTo {n i : Int} : i ∈ upTo n ↔ 1 ≤ i ∧ i ≤ n := by
  simp only [upTo, List.mem_map, List.mem_range]
  constructor
  · rintro ⟨k, small, rfl⟩
    omega
  · rintro ⟨positive, bound⟩
    exact ⟨(i - 1).toNat, by omega, by omega⟩

theorem nodup_upTo (n : Int) : (upTo n).Nodup := by
  refine List.Nodup.map ?_ List.nodup_range
  intro i j same
  simpa using same

theorem length_upTo (n : Int) : (upTo n).length = n.toNat := by
  simp [upTo]

/-- Fewer ids than expected do not make a message complete. -/
theorem le_length_of_covers {n : Int} {ids : List Int} (covers : ∀ i, 1 ≤ i → i ≤ n → i ∈ ids) :
    n.toNat ≤ ids.length := by
  rw [← length_upTo]
  refine (List.subperm_of_subset (nodup_upTo n) ?_).length_le
  intro i member
  exact covers i (mem_upTo.mp member).1 (mem_upTo.mp member).2

/-- As many distinct ids as expected do. -/
theorem covers_of_nodup {n : Int} {ids : List Int} (distinct : ids.Nodup) (inside : ∀ id ∈ ids, 1 ≤ id ∧ id ≤ n)
    (count : ids.length = n.toNat) : ∀ i, 1 ≤ i → i ≤ n → i ∈ ids := by
  have sub : ids ⊆ upTo n := fun id member => mem_upTo.mpr (inside id member)
  have same : ids.Perm (upTo n) := (List.subperm_of_subset distinct sub).perm_of_length_le (by rw [length_upTo, count])
  intro i positive bound
  exact same.mem_iff.mpr (mem_upTo.mpr ⟨positive, bound⟩)

/-- After every call: whether all expected ids are there, and the last message of each
    id. -/
theorem repair_each (n : Int) (existing : Dict Int Str) (calls : List (Int × Str)) :
    ∃ results, repairAll existing (calls.map (chunk (some n))) = .ok results ∧ results.length = calls.length ∧
      ∀ k after complete, results[k]? = some (after, complete) →
        (complete = true ↔
          ∀ i, 1 ≤ i → i ≤ n → existing.contains i = true ∨ i ∈ (calls.take (k + 1)).map Prod.fst) ∧
        ∀ id, after.get? id = (lastValue id (calls.take (k + 1))).or (existing.get? id) := by
  obtain ⟨results, ran, count, each⟩ := repairAll_spec (some n) existing calls
  refine ⟨results, ran, count, ?_⟩
  intro k after complete found
  have small : k < calls.length := by
    rw [← count]
    exact (List.getElem?_eq_some_iff.mp found).1
  rw [each k small] at found
  obtain ⟨rfl, rfl⟩ := Prod.mk.inj (Option.some.inj found)
  refine ⟨?_, get?_held existing (calls.take (k + 1))⟩
  rw [Option.getD_some, isMessageComplete_int]
  simp only [contains_held]

/-- As many distinct ids as expected, in any order: only the last call reports a
    complete message, and the order does not show in what is held then. -/
theorem repair_any_order {n : Int} (positive : 1 ≤ n) {calls : List (Int × Str)}
    (distinct : (calls.map Prod.fst).Nodup) (inside : ∀ call ∈ calls, 1 ≤ call.1 ∧ call.1 ≤ n)
    (count : (calls.length : Int) = n) :
    ∃ results, repairAll Dict.empty (calls.map (chunk (some n))) = .ok results ∧
      results.map Prod.snd = List.replicate (n.toNat - 1) false ++ [true] ∧
      ∀ last ∈ results.getLast?, ∀ id text, last.1.get? id = some text ↔ (id, text) ∈ calls := by
  obtain ⟨results, ran, length, each⟩ := repair_each n Dict.empty calls
  have flag : ∀ k after complete, results[k]? = some (after, complete) → (complete = true ↔ k + 1 = calls.length) := by
    intro k after complete found
    have small := (List.getElem?_eq_some_iff.mp found).1
    rw [(each k after complete found).1]
    constructor
    · intro all
      have covers : ∀ i, 1 ≤ i → i ≤ n → i ∈ (calls.take (k + 1)).map Prod.fst := by
        intro i positive bound
        exact (all i positive bound).resolve_left (by simp [Dict.contains])
      have enough := le_length_of_covers covers
      rw [List.length_map, List.length_take] at enough
      omega
    · intro last i positive bound
      rw [List.take_of_length_le (by omega)]
      refine .inr (covers_of_nodup distinct ?_ (by rw [List.length_map]; omega) i positive bound)
      intro id member
      obtain ⟨call, source, rfl⟩ := List.mem_map.mp member
      exact inside call source
  refine ⟨results, ran, ?_, ?_⟩
  · apply List.ext_getElem?
    intro k
    rw [List.getElem?_map]
    by_cases small : k < results.length
    · rw [List.getElem?_eq_getElem small, Option.map_some]
      have said := flag k results[k].1 results[k].2 (List.getElem?_eq_getElem small)
      by_cases last : k + 1 = calls.length
      · rw [List.getElem?_append_right (by rw [List.length_replicate]; omega), List.length_replicate,
          show k - (n.toNat - 1) = 0 by omega, said.mpr last]
        rfl
      · rw [List.getElem?_append_left (by rw [List.length_replicate]; omega),
          List.getElem?_replicate_of_lt (by omega)]
        exact congrArg some (Bool.eq_false_iff.mpr (mt said.mp last))
    · rw [List.getElem?_eq_none (by omega), List.getElem?_eq_none (by simp; omega)]
      rfl
  · intro last found id text
    rw [Option.mem_def, List.getLast?_eq_getElem?] at found
    have whole : calls.take (results.length - 1 + 1) = calls := List.take_of_length_le (by omega)
    rw [(each _ last.1 last.2 found).2 id, whole, Dict.get?_empty, Option.or_none]
    exact lastValue_of_nodup distinct

/-- A message is complete exactly when its last missing chunk has arrived, and the order
    of the chunks does not matter. -/
theorem repair_exactly {n : Int} (positive : 1 ≤ n) :
    (∀ (existing : Dict Int Str) (calls : List (Int × Str)),
      ∃ results, repairAll existing (calls.map (chunk (some n))) = .ok results ∧ results.length = calls.length ∧
        ∀ k after complete, results[k]? = some (after, complete) →
          (complete = true ↔
            ∀ i, 1 ≤ i → i ≤ n → existing.contains i = true ∨ i ∈ (calls.take (k + 1)).map Prod.fst) ∧
          ∀ id, after.get? id = (lastValue id (calls.take (k + 1))).or (existing.get? id)) ∧
      ∀ calls : List (Int × Str), (calls.map Prod.fst).Nodup → (∀ call ∈ calls, 1 ≤ call.1 ∧ call.1 ≤ n) →
        (calls.length : Int) = n → ∀ order : List (Int × Str), order.Perm calls →
          ∃ results, repairAll Dict.empty (order.map (chunk (some n))) = .ok results ∧
            results.map Prod.snd = List.replicate (n.toNat - 1) false ++ [true] ∧
            ∀ last ∈ results.getLast?, ∀ id text, last.1.get? id = some text ↔ (id, text) ∈ calls := by
  refine ⟨repair_each n, ?_⟩
  intro calls distinct inside count order perm
  have distinct' : (order.map Prod.fst).Nodup := (perm.map Prod.fst).nodup_iff.mpr distinct
  have inside' : ∀ call ∈ order, 1 ≤ call.1 ∧ call.1 ≤ n := fun call member => inside call (perm.mem_iff.mp member)
  obtain ⟨results, ran, flags, final⟩ := repair_any_order positive distinct' inside' (by rw [perm.length_eq, count])
  refine ⟨results, ran, flags, fun last found id text => ?_⟩
  rw [final last found, perm.mem_iff]

/-- Three chunks, the last one first. -/
theorem repair_exactly_three : ∃ results,
    repairAll Dict.empty ([(3, lit "c"), (1, lit "a"), (2, lit "b")].map (chunk (some 3))) = .ok results ∧
      results.map Prod.snd = [false, false, true] := by
  obtain ⟨results, ran, flags, -⟩ := (repair_exactly (by decide : (1 : Int) ≤ 3)).2
    [(3, lit "c"), (1, lit "a"), (2, lit "b")] (by decide) (by decide) rfl _ (.refl _)
  exact ⟨results, ran, flags⟩

/-! ### Without an expected number -/

/-- The ids held are the numbers from 1 on, without a gap. -/
def Gapless (chunks : Dict Int Str) : Prop := ∀ i, chunks.contains i = true ↔ 1 ≤ i ∧ i ≤ chunks.entries.length

/-- Every id is 1, or at most one above an id before it. -/
def InOrder (ids : List Int) : Prop :=
  ∀ k id, ids[k]? = some id → id = 1 ∨ ∃ earlier ∈ ids.take k, id ≤ earlier + 1

theorem contains_set {chunks : Dict Int Str} {id i : Int} {text : Str} :
    (chunks.set id text).contains i = true ↔ i = id ∨ chunks.contains i = true := by
  rw [Dict.contains, Dict.get?_set]
  by_cases same : i = id
  · simp [same]
  · simp [same, Dict.contains]

theorem length_set (chunks : Dict Int Str) (id : Int) (text : Str) :
    (chunks.set id text).entries.length =
      if chunks.contains id = true then chunks.entries.length else chunks.entries.length + 1 := by
  have present : id ∈ chunks.keys ↔ chunks.contains id = true := mem_keys_iff
  unfold Dict.set
  by_cases known : id ∈ chunks.keys
  · rw [dif_pos known, if_pos (present.mp known)]
    exact List.length_map _
  · rw [dif_neg known, if_neg (mt present.mpr known)]
    exact List.length_append

theorem gapless_empty : Gapless Dict.empty := by
  intro i
  constructor
  · intro present
    cases present
  · rintro ⟨positive, bound⟩
    simp only [Dict.empty, List.length_nil] at bound
    omega

/-- As long as there is no gap, every chunk is reported as complete. -/
theorem complete_of_gapless {chunks : Dict Int Str} (gapless : Gapless chunks) (id : Int) (text : Str) :
    isMessageComplete (chunks.set id text) chunks.entries.length = true := by
  rw [isMessageComplete_int]
  intro i positive bound
  exact contains_set.mpr (.inr ((gapless i).mpr ⟨positive, bound⟩))

/-- A chunk leaves no gap exactly when its number is at most the next one. -/
theorem gapless_set_iff {chunks : Dict Int Str} (gapless : Gapless chunks) {id : Int} (positive : 1 ≤ id) (text : Str) :
    Gapless (chunks.set id text) ↔ id ≤ chunks.entries.length + 1 := by
  by_cases known : chunks.contains id = true
  · have bound := ((gapless id).mp known).2
    refine ⟨fun _ => by omega, fun _ i => ?_⟩
    rw [contains_set, length_set, if_pos known, ← gapless i]
    refine ⟨?_, .inr⟩
    rintro (rfl | present)
    · exact known
    · exact present
  · have fresh : ¬ (1 ≤ id ∧ id ≤ chunks.entries.length) := mt (gapless id).mpr known
    have longer : (chunks.set id text).entries.length = chunks.entries.length + 1 := by rw [length_set, if_neg known]
    constructor
    · intro still
      have bound := ((still id).mp (contains_set.mpr (.inl rfl))).2
      omega
    · intro next i
      rw [contains_set, longer, gapless i]
      omega

/-- What is held without a gap, by the ids that brought it. -/
theorem le_next_iff {calls : List (Int × Str)} (gapless : Gapless (held Dict.empty calls)) {id : Int} (positive : 1 ≤ id) :
    id ≤ (held Dict.empty calls).entries.length + 1 ↔
      id = 1 ∨ ∃ earlier ∈ calls.map Prod.fst, id ≤ earlier + 1 := by
  have delivered : ∀ i, i ∈ calls.map Prod.fst ↔ 1 ≤ i ∧ i ≤ (held Dict.empty calls).entries.length := by
    intro i
    rw [← gapless i, contains_held]
    simp [Dict.contains]
  constructor
  · intro bound
    by_cases first : id = 1
    · exact .inl first
    · exact .inr ⟨id - 1, (delivered _).mpr (by omega), by omega⟩
  · rintro (rfl | ⟨earlier, member, bound⟩)
    · omega
    · have inside := (delivered earlier).mp member
      omega

/-- The k-th chunk is the first one, or at most the next one after a chunk before it. -/
def Follows (calls : List (Int × Str)) (k : Nat) (id : Int) : Prop :=
  id = 1 ∨ ∃ earlier ∈ (calls.take k).map Prod.fst, id ≤ earlier + 1

theorem inOrder_iff {calls : List (Int × Str)} :
    InOrder (calls.map Prod.fst) ↔ ∀ k (small : k < calls.length), Follows calls k calls[k].1 := by
  constructor
  · intro order k small
    rw [Follows, List.map_take]
    exact order k _ (by rw [List.getElem?_map, List.getElem?_eq_getElem small, Option.map_some])
  · intro all k id found
    rw [List.getElem?_map, Option.map_eq_some_iff] at found
    obtain ⟨call, element, rfl⟩ := found
    obtain ⟨small, rfl⟩ := List.getElem?_eq_some_iff.mp element
    rw [← List.map_take]
    exact all k small

theorem held_take_succ {calls : List (Int × Str)} {k : Nat} (small : k < calls.length) :
    held Dict.empty (calls.take (k + 1)) = (held Dict.empty (calls.take k)).set calls[k].1 calls[k].2 := by
  rw [← List.take_append_getElem small, held_append]

/-- One more chunk leaves no gap exactly when it follows those before it. -/
theorem gapless_take_succ {calls : List (Int × Str)} (positive : ∀ call ∈ calls, 1 ≤ call.1) {k : Nat}
    (small : k < calls.length) (gapless : Gapless (held Dict.empty (calls.take k))) :
    Gapless (held Dict.empty (calls.take (k + 1))) ↔ Follows calls k calls[k].1 := by
  have own := positive calls[k] (List.getElem_mem small)
  rw [held_take_succ small, gapless_set_iff gapless own, le_next_iff gapless own]
  rfl

/-- A run from the empty dict reports no message with a gap as complete exactly when its
    chunks come in order. -/
theorem no_gap_exactly {calls : List (Int × Str)} (positive : ∀ call ∈ calls, 1 ≤ call.1) :
    ∃ results, repairAll Dict.empty (calls.map (chunk none)) = .ok results ∧ results.length = calls.length ∧
      ((∀ result ∈ results, result.2 = true → Gapless result.1) ↔ InOrder (calls.map Prod.fst)) := by
  obtain ⟨results, ran, count, each⟩ := repairAll_spec none Dict.empty calls
  refine ⟨results, ran, count, ?_⟩
  rw [inOrder_iff]
  constructor
  · intro sound k small
    -- up to every call nothing is missing, so that it reports completeness
    have gapless : ∀ j, j ≤ calls.length → Gapless (held Dict.empty (calls.take j)) := by
      intro j
      induction j with
      | zero => exact fun _ => gapless_empty
      | succ j ih =>
        intro bound
        have before := ih (by omega)
        refine sound _ (List.mem_of_getElem? (each j bound)) ?_
        rw [held_take_succ bound]
        exact complete_of_gapless before _ _
    exact (gapless_take_succ positive small (gapless k (by omega))).mp (gapless (k + 1) small)
  · intro order
    have gapless : ∀ j, j ≤ calls.length → Gapless (held Dict.empty (calls.take j)) := by
      intro j
      induction j with
      | zero => exact fun _ => gapless_empty
      | succ j ih => exact fun bound => (gapless_take_succ positive bound (ih (by omega))).mpr (order j bound)
    intro result member _
    obtain ⟨k, found⟩ := List.mem_iff_getElem?.mp member
    have small : k < calls.length := by
      rw [← count]
      exact (List.getElem?_eq_some_iff.mp found).1
    rw [each k small] at found
    rw [← Option.some.inj found]
    exact gapless (k + 1) small

/-- Two chunks in order and the first one again. -/
theorem no_gap_exactly_two : ∃ results,
    repairAll Dict.empty ([(1, lit "a"), (2, lit "b"), (1, lit "c")].map (chunk none)) = .ok results ∧
      ∀ result ∈ results, result.2 = true → Gapless result.1 := by
  have positive : ∀ call ∈ [((1 : Int), lit "a"), (2, lit "b"), (1, lit "c")], 1 ≤ call.1 := by decide
  obtain ⟨results, ran, -, sound⟩ := no_gap_exactly positive
  refine ⟨results, ran, sound.mpr ?_⟩
  intro k id found
  match k, found with
  | 0, found => exact .inl (Option.some.inj found).symm
  | 1, found => exact .inr ⟨1, by simp, by simp at found; omega⟩
  | 2, found => exact .inl (Option.some.inj found).symm

/-- The fifth chunk is reported as a complete message. -/
theorem gap_reported : ¬ ∀ (calls : List (Int × Str)) results, (∀ call ∈ calls, 1 ≤ call.1) →
    repairAll Dict.empty (calls.map (chunk none)) = .ok results →
    ∀ result ∈ results, result.2 = true → Gapless result.1 := by
  intro claim
  have gapless := claim [(5, lit "x")] [(Dict.empty.set 5 (lit "x"), true)] (by decide) rfl _ (.head _) rfl
  exact absurd ((gapless 5).mp rfl).2 (by decide)

end Hde.Repair
