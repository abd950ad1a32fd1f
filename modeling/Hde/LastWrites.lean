import Hde.Dicts
import Hde.Records
import Mathlib.Data.List.Dedup
import Mathlib.Data.List.Induction
import Mathlib.Data.List.Sort
import Mathlib.Order.Defs.LinearOrder

/-!
A dict as the writes that made it. It holds the last value that was written under each
key (`get?_written`), so that in the order of the keys its values are those of
`lastInOrder`, and the order of the writes matters only within a key
(`lastInOrder_congr`, `lastInOrder_perm`).
-/
namespace Hde.LastWrites
open Hde.Dicts Hde.Records

variable {κ ν : Type*} [LinearOrder κ]

def written (writes : List (κ × ν)) : Dict κ ν := writes.foldl (fun d write => d.set write.1 write.2) Dict.empty

/-- The distinct keys in ascending order. -/
def sortedKeys (writes : List (κ × ν)) : List κ := (writes.map Prod.fst).dedup.mergeSort (· ≤ ·)

/-- The last value of each key, in the order of the keys. -/
def lastInOrder (writes : List (κ × ν)) : List ν := (sortedKeys writes).filterMap fun k => lastValue k writes

theorem written_append (writes : List (κ × ν)) (k : κ) (v : ν) :
    written (writes ++ [(k, v)]) = (written writes).set k v := by
  simp [written]

/-- Changing the values that are written changes those of the dict. -/
theorem mapValues_written {μ : Type*} (change : ν → μ) (writes : List (κ × ν)) :
    (written writes).mapValues change = written (writes.map fun write => (write.1, change write.2)) := by
  induction writes using List.reverseRecOn with
  | nil => rfl
  | append_singleton writes write ih =>
    rw [List.map_append, List.map_singleton, written_append, written_append, Dict.mapValues_set, ih]

theorem get?_written (writes : List (κ × ν)) (k : κ) : (written writes).get? k = lastValue k writes := by
  induction writes using List.reverseRecOn with
  | nil => rfl
  | append_singleton writes write ih =>
    rw [written_append, Dict.get?_set, lastValue_append, lastValue_cons, ih]
    by_cases same : k = write.1
    · simp [same]
    · simp [same, Ne.symm same]

theorem mem_keys_iff {d : Dict κ ν} {k : κ} : k ∈ d.keys ↔ (d.get? k).isSome := by
  rw [Option.isSome_iff_exists]
  constructor
  · intro member
    obtain ⟨⟨key, v⟩, entry, rfl⟩ := List.mem_map.mp member
    exact ⟨v, Dict.get?_eq_some_iff.mpr entry⟩
  · rintro ⟨v, found⟩
    exact List.mem_map_of_mem (Dict.get?_eq_some_iff.mp found)

theorem isSome_lastValue {writes : List (κ × ν)} {k : κ} : (lastValue k writes).isSome ↔ k ∈ writes.map Prod.fst := by
  rw [lastValue, List.getLast?_isSome]
  constructor
  · intro some_value
    obtain ⟨v, member⟩ := List.exists_mem_of_ne_nil _ some_value
    exact List.mem_map_of_mem (mem_values.mp member)
  · intro member
    obtain ⟨⟨key, v⟩, entry, rfl⟩ := List.mem_map.mp member
    exact List.ne_nil_of_mem (mem_values.mpr entry)

theorem sortedKeys_sorted (writes : List (κ × ν)) : (sortedKeys writes).Pairwise (· ≤ ·) :=
  List.pairwise_mergeSort' (· ≤ ·) _

theorem sortedKeys_perm (writes : List (κ × ν)) : (sortedKeys writes).Perm (writes.map Prod.fst).dedup :=
  List.mergeSort_perm _ _

/-- The keys in ascending order are the only sorted list of them. -/
theorem eq_sortedKeys {writes : List (κ × ν)} {keys : List κ} (sorted : keys.Pairwise (· ≤ ·)) (distinct : keys.Nodup)
    (same : ∀ k, k ∈ keys ↔ k ∈ writes.map Prod.fst) : keys = sortedKeys writes := by
  refine List.Perm.eq_of_pairwise' sorted (sortedKeys_sorted writes) ?_
  refine List.Perm.trans ?_ (sortedKeys_perm writes).symm
  refine (List.perm_ext_iff_of_nodup distinct (List.nodup_dedup _)).mpr ?_
  intro k
  rw [same k, List.mem_dedup]

/-- Sorted by their keys, the entries of a written dict are the last values of its keys. -/
theorem written_inOrder (writes : List (κ × ν)) :
    ((written writes).entries.mergeSort fun a b => a.1 ≤ b.1).map Prod.snd = lastInOrder writes := by
  have keys : ((written writes).entries.mergeSort fun a b => a.1 ≤ b.1).map Prod.fst = sortedKeys writes := by
    rw [List.map_mergeSort (s := fun a b => decide (a ≤ b)) (by simp)]
    refine eq_sortedKeys (List.pairwise_mergeSort' (· ≤ ·) _) ?_ ?_
    · exact (List.mergeSort_perm _ _).nodup_iff.mpr (written writes).distinct
    · intro k
      rw [List.mem_mergeSort]
      show k ∈ (written writes).keys ↔ _
      rw [mem_keys_iff, get?_written, isSome_lastValue]
  rw [lastInOrder, ← keys, List.filterMap_map]
  have found : ∀ entry ∈ (written writes).entries.mergeSort fun a b => decide (a.1 ≤ b.1),
      ((fun k => lastValue k writes) ∘ Prod.fst) entry = some entry.2 := by
    intro entry member
    show lastValue entry.1 writes = some entry.2
    rw [← get?_written]
    exact Dict.get?_eq_some_iff.mpr (List.mem_mergeSort.mp member)
  rw [List.filterMap_congr found, List.filterMap_eq_map']

/-- Writes with the same last value for each key cannot be told apart. -/
theorem lastInOrder_congr {writes others : List (κ × ν)} (same : ∀ k, lastValue k writes = lastValue k others) :
    lastInOrder writes = lastInOrder others := by
  have keys : sortedKeys writes = sortedKeys others := by
    refine eq_sortedKeys (sortedKeys_sorted writes) ((sortedKeys_perm writes).nodup_iff.mpr (List.nodup_dedup _)) ?_
    intro k
    rw [(sortedKeys_perm writes).mem_iff, List.mem_dedup, ← isSome_lastValue, ← isSome_lastValue, same]
  rw [lastInOrder, lastInOrder, keys]
  exact List.filterMap_congr fun k _ => same k

theorem lastValue_of_nodup {writes : List (κ × ν)} (distinct : (writes.map Prod.fst).Nodup) {k : κ} {v : ν} :
    lastValue k writes = some v ↔ (k, v) ∈ writes := by
  refine ⟨lastValue_mem, fun member => ?_⟩
  obtain ⟨w, last⟩ := Option.isSome_iff_exists.mp (isSome_lastValue.mpr (List.mem_map_of_mem (f := Prod.fst) member))
  rw [last]
  have same := List.inj_on_of_nodup_map distinct (lastValue_mem last) member rfl
  rw [(Prod.mk.inj same).2]

/-- Writes under different keys may come in any order. -/
theorem lastInOrder_perm {writes others : List (κ × ν)} (distinct : (writes.map Prod.fst).Nodup)
    (order : others.Perm writes) : lastInOrder others = lastInOrder writes := by
  have distinct' : (others.map Prod.fst).Nodup := (order.map Prod.fst).nodup_iff.mpr distinct
  refine lastInOrder_congr fun k => ?_
  ext v
  rw [lastValue_of_nodup distinct, lastValue_of_nodup distinct', order.mem_iff]

/-- Writes in the order of their keys. -/
theorem lastInOrder_sorted {writes : List (κ × ν)} (ascending : (writes.map Prod.fst).Pairwise (· < ·)) :
    lastInOrder writes = writes.map Prod.snd := by
  have distinct : (writes.map Prod.fst).Nodup := ascending.imp ne_of_lt
  rw [lastInOrder, ← eq_sortedKeys (ascending.imp le_of_lt) distinct fun k => Iff.rfl, List.filterMap_map]
  have found : ∀ write ∈ writes, ((fun k => lastValue k writes) ∘ Prod.fst) write = some write.2 :=
    fun write member => (lastValue_of_nodup distinct).mpr member
  rw [List.filterMap_congr found, List.filterMap_eq_map']

end Hde.LastWrites
