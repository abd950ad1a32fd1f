import Hde.Ids

/-!
`Parser.get_batch_chunks`. It takes the entries of `to_send.json` whose key, a chunk id,
is at most the batch number, and does not look at their batch. So it selects the batch
exactly when the two numbers happen to agree in this sense (`selects_exactly`).
-/
namespace Hde.Batches
open Hde.Text Hde.Numerals Hde.JsonText Hde.Files Hde.Ids

/-- `Parser.get_batch_chunks`. -/
def getBatchChunks (python : Python) (disk : Disk) (batch : Int) (path : Str) : Except Failure (List (Str × Json)) := do
  match ← loadJson python disk path with
  | .obj members =>
    let numbered ← members.mapM fun entry => do return (← pyInt python (.str entry.1), entry)
    return (numbered.filter fun entry => entry.1 ≤ batch).map Prod.snd
  | value => throw (noAttribute value (lit "items"))

/-- The entry's `chunk_batch` is the number. -/
def InBatch (batch : Int) (entry : Str × Json) : Prop :=
  ∃ fields, entry.2 = .obj fields ∧ Json.member fields (lit "chunk_batch") = some (.int batch)

/-- What is selected is the batch, and all of it. -/
def Exactly (batch : Int) (members selected : List (Str × Json)) : Prop :=
  ∀ entry, entry ∈ selected ↔ entry ∈ members ∧ InBatch batch entry

/-- The number of a key that is a numeral. -/
def keyOf (entry : Str × Json) : Int := (intOf entry.1).toOption.getD 0

theorem keyOf_numbered {entry : Str × Json} {pair : Int × Int} (numbered : Numbered entry pair) :
    keyOf entry = pair.2 := by
  rw [keyOf, numbered.1]
  rfl

theorem inBatch_iff {entry : Str × Json} {pair : Int × Int} (numbered : Numbered entry pair) {batch : Int} :
    InBatch batch entry ↔ pair.1 = batch := by
  obtain ⟨-, fields, value, own⟩ := numbered
  constructor
  · rintro ⟨others, same, found⟩
    obtain rfl := Json.obj.inj (value.symm.trans same)
    exact Json.int.inj (Option.some.inj (own.symm.trans found))
  · rintro rfl
    exact ⟨fields, value, own⟩

/-- A property of the items that is one of what they are related to. -/
theorem forall_iff_of_forall₂ {α β : Type*} {related : α → β → Prop} {items : List α} {others : List β}
    {P : α → Prop} {Q : β → Prop} (each : List.Forall₂ related items others)
    (same : ∀ item other, related item other → (P item ↔ Q other)) :
    (∀ item ∈ items, P item) ↔ ∀ other ∈ others, Q other := by
  induction each with
  | nil => simp
  | cons first _ ih => rw [List.forall_mem_cons, List.forall_mem_cons, same _ _ first, ih]

variable {python : Python} {disk : Disk} {text : Str} {members : List (Str × Json)} {pairs : List (Int × Int)}

theorem getBatchChunks_eq (read : readText disk toSendPath = .ok text) (loaded : python.loads text = .ok (.obj members))
    (numbered : List.Forall₂ Numbered members pairs) (batch : Int) :
    getBatchChunks python disk batch toSendPath = .ok (members.filter fun entry => keyOf entry ≤ batch) := by
  have load : loadJson python disk toSendPath = .ok (.obj members) := by simp [loadJson, read, loaded]
  have keys : members.mapM (fun entry => do return (← pyInt python (.str entry.1), entry)) =
      .ok (members.map fun entry => (keyOf entry, entry)) := by
    refine mapM_ok ((forall_iff_of_forall₂ (Q := fun _ => True) numbered ?_).mpr fun _ _ => trivial)
    intro entry pair own
    rw [pyInt, keyOf, own.1]
    exact iff_true_intro rfl
  rw [getBatchChunks, load]
  show (members.mapM (fun entry => do return (← pyInt python (.str entry.1), entry)) >>= _) = _
  rw [keys]
  show Except.ok _ = _
  rw [List.filter_map, List.map_map]
  exact congrArg Except.ok (List.map_id _)

/-- For one batch number: the selection is the batch exactly when every key is at most
    that number if and only if its entry is in the batch. It is so for every number only
    when there are no entries. -/
theorem selects_exactly (read : readText disk toSendPath = .ok text) (loaded : python.loads text = .ok (.obj members))
    (numbered : List.Forall₂ Numbered members pairs) :
    (∀ batch, ∃ selected, getBatchChunks python disk batch toSendPath = .ok selected ∧
      (Exactly batch members selected ↔ ∀ pair ∈ pairs, pair.2 ≤ batch ↔ pair.1 = batch)) ∧
    ((∀ batch, ∃ selected, getBatchChunks python disk batch toSendPath = .ok selected ∧
      Exactly batch members selected) ↔ members = []) := by
  have exact_iff : ∀ batch, Exactly batch members (members.filter fun entry => keyOf entry ≤ batch) ↔
      ∀ pair ∈ pairs, pair.2 ≤ batch ↔ pair.1 = batch := by
    intro batch
    have entries : Exactly batch members (members.filter fun entry => keyOf entry ≤ batch) ↔
        ∀ entry ∈ members, (keyOf entry ≤ batch ↔ InBatch batch entry) := by
      simp only [Exactly, List.mem_filter, decide_eq_true_eq, and_congr_right_iff]
    rw [entries]
    refine forall_iff_of_forall₂ numbered ?_
    intro entry pair own
    rw [keyOf_numbered own, inBatch_iff own]
  refine ⟨fun batch => ⟨_, getBatchChunks_eq read loaded numbered batch, exact_iff batch⟩, ?_, ?_⟩
  · intro always
    -- a number above all keys and all batches selects everything, and nothing is in it
    obtain ⟨selected, ran, same⟩ := always (max (Ids.maxDefault (pairs.map Prod.fst)) (Ids.maxDefault (pairs.map Prod.snd)) + 1)
    rw [getBatchChunks_eq read loaded numbered] at ran
    obtain rfl := Except.ok.inj ran
    cases numbered with
    | nil => rfl
    | @cons entry pair members pairs own rest =>
      have agree := (exact_iff _).mp same pair (by simp)
      have batch := le_maxDefault (List.mem_map_of_mem (f := Prod.fst) (List.mem_cons_self (a := pair) (l := pairs)))
      have key := le_maxDefault (List.mem_map_of_mem (f := Prod.snd) (List.mem_cons_self (a := pair) (l := pairs)))
      have above := agree.mp (by omega)
      omega
  · rintro rfl batch
    exact ⟨_, getBatchChunks_eq read loaded numbered batch, by simp [Exactly]⟩

/-- One chunk in batch 1 and one in batch 2. -/
private def twoBatches : List (Str × Json) :=
  [(lit "1", .obj [(lit "chunk_batch", .int 1)]), (lit "2", .obj [(lit "chunk_batch", .int 2)])]

private def twoBatchesText : Str :=
  lit "\x7b\"1\": \x7b\"chunk_batch\": 1\x7d, \"2\": \x7b\"chunk_batch\": 2\x7d\x7d"

private def knowingTwoBatches : Python where
  loads := knowing none [.obj twoBatches]
  truncate := fun _ => .error (typeError [])

private def twoBatchesDisk : Disk := write (fun _ => none) toSendPath (bytes twoBatchesText)

private theorem read_twoBatches : readText twoBatchesDisk toSendPath = .ok twoBatchesText := by
  have decoded : Utf8.decode (bytes twoBatchesText) = some twoBatchesText := decode_bytes (by decide +kernel)
  simp only [readText, twoBatchesDisk, write_self, decoded]
  rfl

private theorem loads_twoBatches : knowingTwoBatches.loads twoBatchesText = .ok (.obj twoBatches) := rfl

private theorem numbered_twoBatches : List.Forall₂ Numbered twoBatches [(1, 1), (2, 2)] :=
  .cons ⟨by decide, _, rfl, rfl⟩ (.cons ⟨by decide, _, rfl, rfl⟩ .nil)

theorem selects_exactly_first : ∃ selected, getBatchChunks knowingTwoBatches twoBatchesDisk 1 toSendPath = .ok selected ∧
    Exactly 1 twoBatches selected := by
  obtain ⟨selected, ran, same⟩ := (selects_exactly read_twoBatches loads_twoBatches numbered_twoBatches).1 1
  exact ⟨selected, ran, same.mpr (by decide)⟩

/-- Asked for batch 2, it returns both. -/
theorem not_selected : ¬ ∀ (python : Python) (disk : Disk) (text : Str) (members : List (Str × Json))
    (pairs : List (Int × Int)), readText disk toSendPath = .ok text → python.loads text = .ok (.obj members) →
    List.Forall₂ Numbered members pairs → ∀ batch selected, getBatchChunks python disk batch toSendPath = .ok selected →
    Exactly batch members selected := by
  intro claim
  have all : getBatchChunks knowingTwoBatches twoBatchesDisk 2 toSendPath = .ok twoBatches := by
    rw [getBatchChunks_eq read_twoBatches loads_twoBatches numbered_twoBatches]
    rfl
  have same := claim _ _ _ _ _ read_twoBatches loads_twoBatches numbered_twoBatches 2 _ all
    (lit "1", .obj [(lit "chunk_batch", .int 1)])
  obtain ⟨-, inside⟩ := same.mp (.head _)
  have first : Numbered (lit "1", .obj [(lit "chunk_batch", .int 1)]) (1, 1) := ⟨by decide, _, rfl, rfl⟩
  have wrong := (inBatch_iff first).mp inside
  exact absurd wrong (by decide)

end Hde.Batches
