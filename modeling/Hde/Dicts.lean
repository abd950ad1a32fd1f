import Mathlib.Data.List.Nodup

/-!
Insertion-ordered finite maps, as Python's `dict`: setting a present key keeps
its place, a new key goes to the end. Distinctness of the keys is a field, so a
key's value is its only entry (`get?_eq_some_iff`).
-/
namespace Hde.Dicts

/-- A `dict`: its items in insertion order, no key twice. -/
structure Dict (κ ν : Type*) where
  entries : List (κ × ν)
  distinct : (entries.map Prod.fst).Nodup
deriving DecidableEq

namespace Dict
variable {κ ν : Type*}

def empty : Dict κ ν := ⟨[], by simp⟩

def keys (d : Dict κ ν) : List κ := d.entries.map Prod.fst

/-- `{k: v for k, v in d.items() if keep(k, v)}`. -/
def filter (keep : κ → ν → Bool) (d : Dict κ ν) : Dict κ ν :=
  ⟨d.entries.filter fun e => keep e.1 e.2, d.distinct.sublist (List.filter_sublist.map _)⟩

/-- The dict with every value changed. -/
def mapValues {μ : Type*} (change : ν → μ) (d : Dict κ ν) : Dict κ μ :=
  ⟨d.entries.map fun e => (e.1, change e.2), by
    rw [List.map_map]
    exact d.distinct⟩

theorem keys_mapValues {μ : Type*} (change : ν → μ) (d : Dict κ ν) : (d.mapValues change).keys = d.keys := by
  rw [keys, mapValues, List.map_map]
  rfl

variable [DecidableEq κ]

def get? (d : Dict κ ν) (k : κ) : Option ν := d.entries.lookup k

def contains (d : Dict κ ν) (k : κ) : Bool := (d.get? k).isSome

/-- `del d[k]`, and nothing when the key is absent. -/
def erase (d : Dict κ ν) (k : κ) : Dict κ ν := d.filter fun key _ => key ≠ k

theorem get?_eq_some_iff {d : Dict κ ν} {k : κ} {v : ν} : d.get? k = some v ↔ (k, v) ∈ d.entries := by
  obtain ⟨entries, distinct⟩ := d
  simp only [get?]
  induction entries with
  | nil => simp
  | cons e rest ih =>
    obtain ⟨key, value⟩ := e
    obtain ⟨fresh, later⟩ := List.nodup_cons.mp distinct
    by_cases same : k = key
    · subst same
      have absent : (k, v) ∉ rest := fun member => fresh (List.mem_map.mpr ⟨_, member, rfl⟩)
      simp [absent, eq_comm]
    · have other : (k == key) = false := beq_false_of_ne same
      simp only [List.lookup_cons, other, List.mem_cons, Prod.mk.injEq, same, false_and, false_or]
      exact ih later

def set (d : Dict κ ν) (k : κ) (v : ν) : Dict κ ν :=
  if present : k ∈ d.keys then
    ⟨d.entries.map fun e => if e.1 = k then (k, v) else e, by
      have same : Prod.fst ∘ (fun e : κ × ν => if e.1 = k then (k, v) else e) = Prod.fst := by
        funext e
        simp only [Function.comp]
        split
        · next h => exact h.symm
        · rfl
      rw [List.map_map, same]
      exact d.distinct⟩
  else
    ⟨d.entries ++ [(k, v)], by
      rw [List.map_append, List.nodup_append]
      refine ⟨d.distinct, by simp, ?_⟩
      rintro key member _ single rfl
      have same : key = k := by simpa using single
      exact present (same ▸ member)⟩

@[simp] theorem get?_empty (k : κ) : (empty : Dict κ ν).get? k = none := rfl

theorem get?_set (d : Dict κ ν) (k : κ) (v : ν) (other : κ) :
    (d.set k v).get? other = if other = k then some v else d.get? other := by
  ext w
  rw [get?_eq_some_iff]
  unfold set
  split
  · next present =>
    obtain ⟨⟨key, old⟩, member, rfl⟩ := List.mem_map.mp present
    simp only [List.mem_map]
    constructor
    · rintro ⟨e, source, image⟩
      split at image
      · cases image; simp
      · next ne => subst image; simpa [ne] using get?_eq_some_iff.mpr source
    · intro found
      split at found
      · next same => subst same; cases found; exact ⟨_, member, by simp⟩
      · next ne => exact ⟨(other, w), get?_eq_some_iff.mp found, by simp [ne]⟩
  · next absent =>
    simp only [List.mem_append, List.mem_singleton, Prod.mk.injEq]
    by_cases same : other = k
    · subst same
      have missing : (other, w) ∉ d.entries := fun member => absent (List.mem_map.mpr ⟨_, member, rfl⟩)
      simp [missing, eq_comm]
    · simp [same, get?_eq_some_iff]

@[simp] theorem get?_set_self (d : Dict κ ν) (k : κ) (v : ν) : (d.set k v).get? k = some v := by
  simp [get?_set]

theorem get?_set_of_ne (d : Dict κ ν) {k other : κ} (v : ν) (ne : other ≠ k) :
    (d.set k v).get? other = d.get? other := by
  simp [get?_set, ne]

theorem get?_filter (keep : κ → ν → Bool) (d : Dict κ ν) (k : κ) :
    (d.filter keep).get? k = (d.get? k).filter (keep k) := by
  ext v
  rw [get?_eq_some_iff, Option.filter_eq_some_iff, get?_eq_some_iff]
  simp [filter]

theorem mapValues_set {μ : Type*} (change : ν → μ) (d : Dict κ ν) (k : κ) (v : ν) :
    (d.set k v).mapValues change = (d.mapValues change).set k (change v) := by
  by_cases present : k ∈ d.keys
  · have there : k ∈ (d.mapValues change).keys := by rwa [keys_mapValues]
    rw [set, dif_pos present, set, dif_pos there]
    simp only [mapValues, List.map_map, mk.injEq]
    refine List.map_congr_left fun e _ => ?_
    simp only [Function.comp]
    split <;> rfl
  · have absent : k ∉ (d.mapValues change).keys := by rwa [keys_mapValues]
    rw [set, dif_neg present, set, dif_neg absent]
    simp [mapValues]

end Dict
end Hde.Dicts
