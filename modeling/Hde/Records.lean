import Hde.Text

/-!
Delimited records: fields joined by a separator, each a key and a value around
a first marker, with no escaping. A field without a marker is skipped, and of
several fields with one key the last counts. `pairs` reads the fields of a text;
it splits along the separator (`pairs_append`), and a record whose keys and
values are clean reads back as written (`pairs_join`).
-/
namespace Hde.Records
open Hde.Text

section Pairs
variable {α : Type*} {sep mark : α}

/-- A record with the given keys and values. -/
def join (sep mark : α) (fields : List (List α × List α)) : List α :=
  [sep].intercalate (fields.map fun field => field.1 ++ mark :: field.2)

theorem join_cons (first second : List α × List α) (more : List (List α × List α)) :
    join sep mark (first :: second :: more) =
      (first.1 ++ mark :: first.2) ++ sep :: join sep mark (second :: more) := by
  simp [join, List.intercalate]

variable [DecidableEq α]

/-- The key and the value of a field, split at its first marker. -/
def keyValue (mark : α) (field : List α) : Option (List α × List α) :=
  if mark ∈ field then some (partition mark field) else none

/-- The keys and values of the fields of a record, in order. -/
def pairs (sep mark : α) (s : List α) : List (List α × List α) := (s.splitOn sep).filterMap (keyValue mark)

theorem keyValue_append {key : List α} (clean : mark ∉ key) (value : List α) :
    keyValue mark (key ++ mark :: value) = some (key, value) := by
  simp [keyValue, partition_append clean]

theorem pairs_append (s t : List α) : pairs sep mark (s ++ sep :: t) = pairs sep mark s ++ pairs sep mark t := by
  simp [pairs, List.splitOn_append_cons_self]

theorem pairs_field {key value : List α} (clean : mark ∉ key) (whole : sep ∉ key ++ mark :: value) :
    pairs sep mark (key ++ mark :: value) = [(key, value)] := by
  simp [pairs, List.splitOn_eq_singleton whole, keyValue_append clean]

/-- A record is read part by part. -/
theorem pairs_intercalate {parts : List (List α)} (some_part : parts ≠ []) :
    pairs sep mark ([sep].intercalate parts) = parts.flatMap (pairs sep mark) := by
  induction parts with
  | nil => exact absurd rfl some_part
  | cons part more ih =>
    cases more with
    | nil => simp
    | cons next rest =>
      have step : [sep].intercalate (part :: next :: rest) = part ++ sep :: [sep].intercalate (next :: rest) := by
        simp [List.intercalate]
      rw [step, pairs_append, ih (by simp)]
      rfl

theorem keyValue_spec {field key value : List α} (read : keyValue mark field = some (key, value)) :
    field = key ++ mark :: value ∧ mark ∉ key := by
  unfold keyValue at read
  split at read
  · next present =>
    have spec := partition_spec present
    rwa [Option.some_inj.mp read] at spec
  · cases read

theorem not_mem_of_mem_pairs {s : List α} {field : List α × List α} (member : field ∈ pairs sep mark s) :
    sep ∉ field.2 := by
  obtain ⟨part, split, read⟩ := List.mem_filterMap.mp member
  obtain ⟨whole, -⟩ := keyValue_spec read
  intro inside
  exact not_mem_of_mem_splitOn part split (by simp [whole, inside])

/-- A record with clean keys and values reads back as written. -/
theorem pairs_join (apart : sep ≠ mark) {fields : List (List α × List α)} (some_field : fields ≠ [])
    (clean : ∀ field ∈ fields, mark ∉ field.1 ∧ sep ∉ field.1 ∧ sep ∉ field.2) :
    pairs sep mark (join sep mark fields) = fields := by
  have whole : ∀ part ∈ fields.map (fun field => field.1 ++ mark :: field.2), sep ∉ part := by
    intro part member
    obtain ⟨field, source, rfl⟩ := List.mem_map.mp member
    have := clean field source
    simp [this, apart]
  rw [pairs, join, List.splitOn_intercalate sep whole (by simpa using some_field), List.filterMap_map]
  have read : ∀ field ∈ fields, (keyValue mark ∘ fun field => field.1 ++ mark :: field.2) field = some field :=
    fun field member => keyValue_append (clean field member).1 field.2
  rw [List.filterMap_congr read, List.filterMap_some]

/-- A field whose value may have separators: the value ends at the first one,
    and what follows is read as fields of its own. -/
theorem pairs_smuggling (apart : sep ≠ mark) {key : List α} (clean : mark ∉ key) (whole : sep ∉ key)
    (value : List α) :
    pairs sep mark (key ++ mark :: value) =
      (key, (partition sep value).1) :: pairs sep mark (partition sep value).2 := by
  by_cases cut : sep ∈ value
  · obtain ⟨shape, absent⟩ := partition_spec cut
    have moved : key ++ mark :: value =
        (key ++ mark :: (partition sep value).1) ++ sep :: (partition sep value).2 := by
      conv_lhs => rw [shape]
      simp
    rw [moved, pairs_append, pairs_field clean (by simp [whole, apart, absent])]
    rfl
  · rw [partition_absent cut, pairs_field clean (by simp [whole, apart, cut])]
    simp [pairs, keyValue]

end Pairs

section Last
variable {κ ν : Type*} [DecidableEq κ]

def values (key : κ) (fields : List (κ × ν)) : List ν := (fields.filter (·.1 = key)).map Prod.snd

def lastValue (key : κ) (fields : List (κ × ν)) : Option ν := (values key fields).getLast?

@[simp] theorem values_nil (key : κ) : values key ([] : List (κ × ν)) = [] := rfl

theorem values_cons (key : κ) (field : κ × ν) (fields : List (κ × ν)) :
    values key (field :: fields) = if field.1 = key then field.2 :: values key fields else values key fields := by
  by_cases same : field.1 = key <;> simp [values, same]

theorem values_append (key : κ) (fields more : List (κ × ν)) :
    values key (fields ++ more) = values key fields ++ values key more := by
  simp [values]

theorem mem_values {key : κ} {value : ν} {fields : List (κ × ν)} :
    value ∈ values key fields ↔ (key, value) ∈ fields := by
  simp [values]

@[simp] theorem lastValue_nil (key : κ) : lastValue key ([] : List (κ × ν)) = none := rfl

/-- The last field with the key, in the later part if it has one. -/
theorem lastValue_append (key : κ) (fields more : List (κ × ν)) :
    lastValue key (fields ++ more) = (lastValue key more).or (lastValue key fields) := by
  simp [lastValue, values_append, List.getLast?_append]

theorem lastValue_cons (key : κ) (field : κ × ν) (fields : List (κ × ν)) :
    lastValue key (field :: fields) =
      (lastValue key fields).or (if field.1 = key then some field.2 else none) := by
  rw [← List.singleton_append, lastValue_append]
  by_cases same : field.1 = key <;> simp [lastValue, values_cons, same]

theorem lastValue_mem {key : κ} {value : ν} {fields : List (κ × ν)} (last : lastValue key fields = some value) :
    (key, value) ∈ fields :=
  mem_values.mp (List.mem_of_getLast? last)

end Last
end Hde.Records
