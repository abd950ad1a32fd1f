import Hde.Frames

/-!
What `parse_message` accepts, stated without its loop: a text with a `*` whose
last part agrees with the checksum of what comes before (`Accepts`), every
integer field readable and the last `from`, `timestamp` and `chunk_batch`
present and truthy. The loop computes the last value of each key
(`foldlM_parseField`), and so the parser accepts exactly this grammar
(`parseMessage_valid_iff`) and returns the values it describes.
-/
namespace Hde.Grammar
open Hde.Text Hde.Unicode Hde.Numerals Hde.Records Hde.Frames

/-- The fields with a `:` of a payload, in order. -/
def fieldsOf (payload : Str) : List (Str × Str) := pairs bar colon payload

def IntegerKey (key : Str) : Prop := key = lit "timestamp" ∨ key = lit "chunk_batch"

/-- `int` accepts the value of every integer field. -/
def IntegersOk (fields : List (Str × Str)) : Prop :=
  ∀ field ∈ fields, IntegerKey field.1 → ∃ n, intOf field.2 = .ok n

def lastInt (key : Str) (fields : List (Str × Str)) : Option Int :=
  (lastValue key fields).bind fun value => (intOf value).toOption

/-- The frames that `parse_message` accepts. -/
structure Accepts (raw : Str) : Prop where
  delimiter : asterisk ∈ raw
  checksum : upper (rpartition asterisk raw).2 = calculateCrc (rpartition asterisk raw).1
  integers : IntegersOk (fieldsOf (rpartition asterisk raw).1)
  sender : ∃ s, lastValue (lit "from") (fieldsOf (rpartition asterisk raw).1) = some s ∧ s ≠ []
  timestamp : ∃ n, lastInt (lit "timestamp") (fieldsOf (rpartition asterisk raw).1) = some n ∧ n ≠ 0
  batch : ∃ n, lastInt (lit "chunk_batch") (fieldsOf (rpartition asterisk raw).1) = some n ∧ n ≠ 0

def describe (fields : List (Str × Str)) : Parsed where
  from_ := lastValue (lit "from") fields
  timestamp := lastInt (lit "timestamp") fields
  batch := lastInt (lit "chunk_batch") fields
  chunk := (values (lit "message") fields).map (⟨1, ·⟩)

theorem integersOk_cons (field : Str × Str) (fields : List (Str × Str)) :
    IntegersOk (field :: fields) ↔
      (IntegerKey field.1 → ∃ n, intOf field.2 = .ok n) ∧ IntegersOk fields := by
  simp [IntegersOk]

theorem integersOk_append (fields more : List (Str × Str)) :
    IntegersOk (fields ++ more) ↔ IntegersOk fields ∧ IntegersOk more := by
  simp [IntegersOk, or_imp, forall_and]

/-! ### The field loop -/

/-- `result` after the loop has read some fields. -/
def absorb (result : Parsed) (fields : List (Str × Str)) : Parsed :=
  { result with
    from_ := (lastValue (lit "from") fields).or result.from_
    timestamp := (lastInt (lit "timestamp") fields).or result.timestamp
    batch := (lastInt (lit "chunk_batch") fields).or result.batch
    chunk := result.chunk ++ (values (lit "message") fields).map (⟨1, ·⟩) }

private theorem lastInt_cons {key : Str} (integer : IntegerKey key) (field : Str × Str)
    {fields : List (Str × Str)} (ok : IntegersOk fields) :
    lastInt key (field :: fields) = (lastInt key fields).or (lastInt key [field]) := by
  unfold lastInt
  rw [lastValue_cons]
  cases last : lastValue key fields with
  | none => by_cases same : field.1 = key <;> simp [lastValue, values_cons, same]
  | some value =>
    obtain ⟨n, read⟩ := ok _ (lastValue_mem last) integer
    simp [read, Except.toOption]

private theorem absorb_cons (result : Parsed) (field : Str × Str) {fields : List (Str × Str)}
    (ok : IntegersOk fields) : absorb (absorb result [field]) fields = absorb result (field :: fields) := by
  have first : (values (lit "message") (field :: fields)) =
      values (lit "message") [field] ++ values (lit "message") fields := values_append _ [field] fields
  have sender : lastValue (lit "from") (field :: fields) =
      (lastValue (lit "from") fields).or (lastValue (lit "from") [field]) := lastValue_append _ [field] fields
  simp only [absorb, lastInt_cons (.inl rfl) field ok, lastInt_cons (.inr rfl) field ok, first, sender,
    Option.or_assoc, List.map_append, List.append_assoc]

theorem not_marshal {value : Str} (whole : bar ∉ value) : ¬ lit "|c" <:+: value := by
  intro infix_
  exact whole (infix_.subset (by decide : bar ∈ lit "|c"))

/-- A round on a field dispatches on its key. -/
private theorem parseField_pair (result : Parsed) {field key value : Str}
    (read : keyValue colon field = some (key, value)) :
    parseField result field = parseField result (key ++ colon :: value) ∧
      partition colon (key ++ colon :: value) = (key, value) := by
  obtain ⟨rfl, clean⟩ := keyValue_spec read
  exact ⟨rfl, partition_append clean value⟩

theorem parseField_ok {result : Parsed} {field key value : Str}
    (read : keyValue colon field = some (key, value)) (whole : bar ∉ value)
    (ok : IntegerKey key → ∃ n, intOf value = .ok n) :
    parseField result field = .ok (absorb result [(key, value)]) := by
  obtain ⟨shape, parts⟩ := parseField_pair result read
  rw [shape, parseField, if_neg (by simp), parts]
  by_cases sender : key = lit "from"
  · subst sender
    simp [absorb, lastValue, lastInt, values_cons]
  by_cases timestamp : key = lit "timestamp"
  · obtain ⟨n, isInt⟩ := ok (.inl timestamp)
    subst timestamp
    simp [absorb, lastValue, lastInt, values_cons, isInt, Except.toOption]
  by_cases batch : key = lit "chunk_batch"
  · obtain ⟨n, isInt⟩ := ok (.inr batch)
    subst batch
    simp [absorb, lastValue, lastInt, values_cons, isInt, Except.toOption]
  by_cases message : key = lit "message"
  · subst message
    simp [absorb, lastValue, lastInt, values_cons, not_marshal whole]
  · simp [absorb, lastValue, lastInt, values_cons, sender, timestamp, batch, message]

theorem parseField_error (result : Parsed) {field key value : Str}
    (read : keyValue colon field = some (key, value)) (integer : IntegerKey key)
    (bad : ¬ ∃ n, intOf value = .ok n) :
    ∃ failed, parseField result field = .error failed ∧ failed.valid = result.valid ∧ failed.error ≠ none := by
  obtain ⟨shape, parts⟩ := parseField_pair result read
  rw [shape, parseField, if_neg (by simp), parts]
  cases rejected : intOf value with
  | ok n => exact absurd ⟨n, rejected⟩ bad
  | error e =>
    rcases integer with rfl | rfl
    · refine ⟨result.fail (lit "Invalid timestamp format."), ?_, rfl, by simp [Parsed.fail]⟩
      simp [rejected]
    · refine ⟨result.fail (lit "Invalid chunk batch format."), ?_, rfl, by simp [Parsed.fail]⟩
      simp [rejected]

private theorem parseField_skip {result : Parsed} {field : Str} (read : keyValue colon field = none) :
    parseField result field = .ok result := by
  unfold keyValue at read
  split at read
  · cases read
  · next absent => rw [parseField, if_pos absent]

private theorem value_whole {field key value : Str} (read : keyValue colon field = some (key, value))
    (whole : bar ∉ field) : bar ∉ value := by
  obtain ⟨rfl, -⟩ := keyValue_spec read
  intro inside
  exact whole (by simp [inside])

/-- The loop over fields with readable integers computes the last values. -/
theorem foldlM_parseField {parts : List Str} (whole : ∀ part ∈ parts, bar ∉ part) (result : Parsed)
    (ok : IntegersOk (parts.filterMap (keyValue colon))) :
    parts.foldlM parseField result = .ok (absorb result (parts.filterMap (keyValue colon))) := by
  induction parts generalizing result with
  | nil => simp [absorb, lastInt]; rfl
  | cons part rest ih =>
    have wholeRest : ∀ other ∈ rest, bar ∉ other := fun other member => whole other (by simp [member])
    rw [List.foldlM_cons]
    cases read : keyValue colon part with
    | none =>
      rw [List.filterMap_cons_none read] at ok ⊢
      rw [parseField_skip read]
      exact ih wholeRest result ok
    | some field =>
      obtain ⟨key, value⟩ := field
      rw [List.filterMap_cons_some read] at ok ⊢
      obtain ⟨first, later⟩ := (integersOk_cons _ _).mp ok
      have clean : bar ∉ value := value_whole read (whole part (by simp))
      rw [parseField_ok read clean first, ← absorb_cons result (key, value) later]
      exact ih wholeRest _ later

/-- The loop stops with an error at the first integer that `int` rejects. -/
theorem foldlM_parseField_error {parts : List Str} (whole : ∀ part ∈ parts, bar ∉ part) (result : Parsed)
    (bad : ¬ IntegersOk (parts.filterMap (keyValue colon))) :
    ∃ failed, parts.foldlM parseField result = .error failed ∧ failed.valid = result.valid ∧
      failed.error ≠ none := by
  induction parts generalizing result with
  | nil => simp [IntegersOk] at bad
  | cons part rest ih =>
    have wholeRest : ∀ other ∈ rest, bar ∉ other := fun other member => whole other (by simp [member])
    rw [List.foldlM_cons]
    cases read : keyValue colon part with
    | none =>
      rw [List.filterMap_cons_none read] at bad
      rw [parseField_skip read]
      exact ih wholeRest result bad
    | some field =>
      obtain ⟨key, value⟩ := field
      rw [List.filterMap_cons_some read, integersOk_cons] at bad
      by_cases first : IntegerKey key → ∃ n, intOf value = .ok n
      · have clean : bar ∉ value := value_whole read (whole part (by simp))
        rw [parseField_ok read clean first]
        obtain ⟨failed, stopped, valid, error⟩ := ih wholeRest (absorb result [(key, value)])
          (fun later => bad ⟨first, later⟩)
        exact ⟨failed, stopped, valid, error⟩
      · obtain ⟨integer, rejected⟩ := Classical.not_imp.mp first
        obtain ⟨failed, stopped, valid, error⟩ := parseField_error result read integer rejected
        exact ⟨failed, by rw [stopped]; rfl, valid, error⟩

/-! ### The whole parser -/

theorem loop_ok {payload : Str} (ok : IntegersOk (fieldsOf payload)) :
    (payload.splitOn bar).foldlM parseField {} = .ok (describe (fieldsOf payload)) := by
  have empty : ∀ fields, absorb {} fields = describe fields := fun fields => by simp [absorb, describe]
  rw [foldlM_parseField not_mem_of_mem_splitOn {} ok, empty]
  rfl

private theorem falsyText_eq_false (text : Option Str) : falsyText text = false ↔ ∃ s, text = some s ∧ s ≠ [] := by
  cases text <;> simp [falsyText]

private theorem falsyInt_eq_false (number : Option Int) :
    falsyInt number = false ↔ ∃ n, number = some n ∧ n ≠ 0 := by
  cases number <;> simp [falsyInt]

private theorem required_iff (result : Parsed) :
    (falsyText result.from_ || falsyInt result.timestamp || falsyInt result.batch) = false ↔
      (∃ s, result.from_ = some s ∧ s ≠ []) ∧ (∃ n, result.timestamp = some n ∧ n ≠ 0) ∧
        ∃ n, result.batch = some n ∧ n ≠ 0 := by
  simp only [Bool.or_eq_false_iff, falsyText_eq_false, falsyInt_eq_false, and_assoc]

theorem parseMessage_accepted {raw : Str} (accepts : Accepts raw) :
    parseMessage raw = { describe (fieldsOf (rpartition asterisk raw).1) with valid := true } := by
  obtain ⟨delimiter, checksum, integers, sender, timestamp, batch⟩ := accepts
  have required := (required_iff (describe (fieldsOf (rpartition asterisk raw).1))).mpr ⟨sender, timestamp, batch⟩
  rw [parseMessage, if_neg (not_not.mpr delimiter)]
  simp only [ne_eq, checksum, not_true_eq_false, if_false, loop_ok integers, required, Bool.false_eq_true]

theorem parseMessage_rejected {raw : Str} (rejects : ¬ Accepts raw) :
    (parseMessage raw).valid = false ∧ (parseMessage raw).error ≠ none := by
  unfold parseMessage
  by_cases delimiter : asterisk ∈ raw
  swap
  · simp [delimiter, Parsed.fail]
  by_cases checksum : upper (rpartition asterisk raw).2 = calculateCrc (rpartition asterisk raw).1
  swap
  · simp [delimiter, checksum, Parsed.fail]
  simp only [delimiter, not_true_eq_false, if_false, ne_eq, checksum]
  by_cases integers : IntegersOk (fieldsOf (rpartition asterisk raw).1)
  · have missing : (falsyText (describe (fieldsOf (rpartition asterisk raw).1)).from_ ||
        falsyInt (describe (fieldsOf (rpartition asterisk raw).1)).timestamp ||
        falsyInt (describe (fieldsOf (rpartition asterisk raw).1)).batch) = true := by
      by_contra present
      obtain ⟨sender, timestamp, batch⟩ := (required_iff _).mp (Bool.not_eq_true _ ▸ present)
      exact rejects ⟨delimiter, checksum, integers, sender, timestamp, batch⟩
    simp only [loop_ok integers, missing, if_true]
    exact ⟨rfl, by simp [Parsed.fail]⟩
  · have whole : ∀ part ∈ (rpartition asterisk raw).1.splitOn bar, bar ∉ part := not_mem_of_mem_splitOn
    obtain ⟨failed, stopped, valid, error⟩ := foldlM_parseField_error whole {} integers
    rw [stopped]
    exact ⟨valid, error⟩

theorem parseMessage_valid_iff (raw : Str) : (parseMessage raw).valid = true ↔ Accepts raw := by
  constructor
  · intro valid
    by_contra rejects
    rw [(parseMessage_rejected rejects).1] at valid
    cases valid
  · intro accepts
    rw [parseMessage_accepted accepts]

/-- The parser accepts exactly its grammar: an accepted frame gives the last
    `from`, `timestamp` and `chunk_batch` and every `message` as a chunk with
    id 1, no value ever has a chunk marshal, and every other text an error. -/
theorem parseMessage_grammar (raw : Str) :
    ((parseMessage raw).valid = true ↔ Accepts raw) ∧
      (∀ field ∈ fieldsOf (rpartition asterisk raw).1, ¬ lit "|c" <:+: field.2) ∧
      (Accepts raw →
        (parseMessage raw).from_ = lastValue (lit "from") (fieldsOf (rpartition asterisk raw).1) ∧
        (parseMessage raw).timestamp = lastInt (lit "timestamp") (fieldsOf (rpartition asterisk raw).1) ∧
        (parseMessage raw).batch = lastInt (lit "chunk_batch") (fieldsOf (rpartition asterisk raw).1) ∧
        (parseMessage raw).chunk =
          (values (lit "message") (fieldsOf (rpartition asterisk raw).1)).map (⟨1, ·⟩) ∧
        (parseMessage raw).error = none) ∧
      (¬ Accepts raw → (parseMessage raw).error ≠ none) := by
  refine ⟨parseMessage_valid_iff raw, ?_, ?_, fun rejects => (parseMessage_rejected rejects).2⟩
  · intro field member
    exact not_marshal (not_mem_of_mem_pairs member)
  · intro accepts
    rw [parseMessage_accepted accepts]
    exact ⟨rfl, rfl, rfl, rfl, rfl⟩

end Hde.Grammar
