import Hde.RoundTrip

/-!
`Parser.format_message`, which writes a parsed message as a payload again. What the
parser returns has no `|` in its texts, no integer that cannot be written and no chunk
with an id but 1 (`Parseable`), so that the frame of such a payload is read back as the
same record (`reencoded`), whatever the frame looked like that it came from.
-/
namespace Hde.Reencoding
open Hde.Text Hde.Numerals Hde.Records Hde.Frames Hde.Grammar Hde.RoundTrip

def textValue : Option Str → Value
  | none => .none
  | some s => .str s

def intValue : Option Int → Value
  | none => .none
  | some n => .int n

/-- `f"chunk_id:{chunk['id']}|message:{chunk['message']}"`. -/
def formatChunkFields (chunk : Chunk) : Except PyError Str := do
  return lit "chunk_id:" ++ (← (Value.int chunk.id).format) ++ lit "|message:" ++ chunk.message

variable {σ κ : Type*}

/-- `Parser.format_message`, a static method with a parameter `self`. -/
def formatMessage (_self : σ) (parsed : Parsed) (_isChunked : κ) : Except PyError (Option Str) := do
  if ¬ parsed.valid then return none
  let sender ← (textValue parsed.from_).format
  let timestamp ← (intValue parsed.timestamp).format
  let batch ← (intValue parsed.batch).format
  let chunks ← parsed.chunk.mapM formatChunkFields
  let fields := [lit "from:" ++ sender, lit "timestamp:" ++ timestamp, lit "chunk_batch:" ++ batch] ++ chunks
  return some ([bar].intercalate fields)

/-! ### What the parser returns -/

/-- The records that the parser returns as valid. -/
structure Parseable (parsed : Parsed) (sender : Str) (timestamp batch : Int) (messages : List Str) : Prop where
  shape : parsed = ⟨some sender, some timestamp, some batch, messages.map (⟨1, ·⟩), true, none⟩
  named : sender ≠ []
  some_timestamp : timestamp ≠ 0
  some_batch : batch ≠ 0
  whole : bar ∉ sender ∧ ∀ message ∈ messages, bar ∉ message
  fits : WithinLimit timestamp ∧ WithinLimit batch

theorem withinLimit_lastInt {key : Str} {fields : List (Str × Str)} {n : Int} (last : lastInt key fields = some n) :
    WithinLimit n := by
  obtain ⟨text, -, read⟩ := Option.bind_eq_some_iff.mp last
  cases value : intOf text with
  | error e =>
    rw [value] at read
    cases read
  | ok m =>
    rw [value] at read
    cases read
    exact withinLimit_of_intOf value

theorem parseable {raw : Str} (valid : (parseMessage raw).valid = true) :
    ∃ sender timestamp batch messages, Parseable (parseMessage raw) sender timestamp batch messages := by
  have accepts := (parseMessage_valid_iff raw).mp valid
  obtain ⟨sender, last_sender, named⟩ := accepts.sender
  obtain ⟨timestamp, last_timestamp, some_timestamp⟩ := accepts.timestamp
  obtain ⟨batch, last_batch, some_batch⟩ := accepts.batch
  let messages := values (lit "message") (fieldsOf (rpartition asterisk raw).1)
  refine ⟨sender, timestamp, batch, messages, ?_, named, some_timestamp, some_batch, ⟨?_, ?_⟩, ?_⟩
  · rw [parseMessage_accepted accepts, describe, last_sender, last_timestamp, last_batch]
  · exact not_mem_of_mem_pairs (lastValue_mem last_sender)
  · intro message member
    exact not_mem_of_mem_pairs (mem_values.mp member)
  · exact ⟨withinLimit_lastInt last_timestamp, withinLimit_lastInt last_batch⟩

/-! ### Writing it again -/

/-- The part of a payload for a chunk. -/
def chunkPart (message : Str) : Str := (lit "chunk_id" ++ colon :: intText 1) ++ bar :: (lit "message" ++ colon :: message)

/-- The parts of a payload. -/
def partsOf (sender : Str) (timestamp batch : Int) (messages : List Str) : List Str :=
  [lit "from" ++ colon :: sender, lit "timestamp" ++ colon :: intText timestamp,
    lit "chunk_batch" ++ colon :: intText batch] ++ messages.map chunkPart

/-- The fields of a chunk. -/
def chunkFields (message : Str) : List (Str × Str) := [(lit "chunk_id", intText 1), (lit "message", message)]

theorem mapM_formatChunkFields (messages : List Str) :
    (messages.map fun message => (⟨1, message⟩ : Chunk)).mapM formatChunkFields = .ok (messages.map chunkPart) := by
  induction messages with
  | nil => rfl
  | cons message more ih =>
    have first : formatChunkFields ⟨1, message⟩ = .ok (chunkPart message) := rfl
    rw [List.map_cons, List.mapM_cons, first, ih]
    rfl

variable {parsed : Parsed} {sender : Str} {timestamp batch : Int} {messages : List Str}

theorem formatMessage_eq (parseable : Parseable parsed sender timestamp batch messages) (self : σ) (isChunked : κ) :
    formatMessage self parsed isChunked = .ok (some ([bar].intercalate (partsOf sender timestamp batch messages))) := by
  obtain ⟨fitsTimestamp, fitsBatch⟩ := parseable.fits
  rw [parseable.shape, formatMessage]
  simp only [not_true_eq_false, if_false, textValue, intValue, Value.format, strInt, fitsTimestamp, fitsBatch, if_true,
    mapM_formatChunkFields]
  rfl

theorem pairs_chunkPart {message : Str} (whole : bar ∉ message) : pairs bar colon (chunkPart message) = chunkFields message := by
  have keys : (colon ∉ lit "chunk_id" ∧ bar ∉ lit "chunk_id" ++ colon :: intText 1) ∧ colon ∉ lit "message" ∧
      bar ∉ lit "message" ∧ bar ≠ colon := by decide
  obtain ⟨⟨clean, apart⟩, clean', absent, different⟩ := keys
  have second : bar ∉ lit "message" ++ colon :: message := by simp [absent, different, whole]
  rw [chunkPart, pairs_append, pairs_field clean apart, pairs_field clean' second]
  rfl

theorem fieldsOf_payload (parseable : Parseable parsed sender timestamp batch messages) :
    fieldsOf ([bar].intercalate (partsOf sender timestamp batch messages)) =
      [(lit "from", sender), (lit "timestamp", intText timestamp), (lit "chunk_batch", intText batch)] ++
        messages.flatMap chunkFields := by
  have single : ∀ {key value : Str}, colon ∉ key → bar ∉ key → bar ∉ value →
      pairs bar colon (key ++ colon :: value) = [(key, value)] := by
    intro key value clean absent whole
    apply pairs_field clean
    have different : bar ≠ colon := by decide
    simp [absent, different, whole]
  have chunks : (messages.map chunkPart).flatMap (pairs bar colon) = messages.flatMap chunkFields := by
    rw [List.flatMap_map]
    apply List.flatMap_congr
    intro message member
    exact pairs_chunkPart (parseable.whole.2 message member)
  rw [fieldsOf, pairs_intercalate (by simp [partsOf]), partsOf, List.flatMap_append, chunks]
  simp only [List.flatMap_cons, List.flatMap_nil, single (by decide : colon ∉ lit "from") (by decide) parseable.whole.1,
    single (by decide : colon ∉ lit "timestamp") (by decide) (bar_not_mem_intText timestamp),
    single (by decide : colon ∉ lit "chunk_batch") (by decide) (bar_not_mem_intText batch)]
  rfl

/-- The chunks have no field but their own two. -/
theorem values_chunkFields {key : Str} (other : key ≠ lit "chunk_id") (messages : List Str) :
    values key (messages.flatMap chunkFields) = if key = lit "message" then messages else [] := by
  induction messages with
  | nil => simp
  | cons message more ih =>
    rw [List.flatMap_cons, values_append, ih]
    by_cases same : key = lit "message"
    · subst same
      simp [chunkFields, values_cons]
    · simp [chunkFields, values_cons, Ne.symm other, Ne.symm same, same]

theorem describe_payload (parseable : Parseable parsed sender timestamp batch messages) :
    { describe (fieldsOf ([bar].intercalate (partsOf sender timestamp batch messages))) with valid := true } = parsed := by
  have last : ∀ key value : Str, key ≠ lit "chunk_id" → key ≠ lit "message" →
      lastValue key [(lit "from", sender), (lit "timestamp", intText timestamp), (lit "chunk_batch", intText batch)] =
        some value →
      lastValue key ([(lit "from", sender), (lit "timestamp", intText timestamp), (lit "chunk_batch", intText batch)] ++
        messages.flatMap chunkFields) = some value := by
    intro key value not_id not_message found
    have none_later : lastValue key (messages.flatMap chunkFields) = none := by
      simp [lastValue, values_chunkFields not_id, not_message]
    rw [lastValue_append, none_later, found]
    rfl
  have from_ := last (lit "from") sender (by decide) (by decide) (by simp [lastValue, values_cons])
  have stamp := last (lit "timestamp") (intText timestamp) (by decide) (by decide) (by simp [lastValue, values_cons])
  have number := last (lit "chunk_batch") (intText batch) (by decide) (by decide) (by simp [lastValue, values_cons])
  have chunks : values (lit "message") ([(lit "from", sender), (lit "timestamp", intText timestamp),
      (lit "chunk_batch", intText batch)] ++ messages.flatMap chunkFields) = messages := by
    rw [values_append, values_chunkFields (by decide)]
    simp [values_cons]
  rw [parseable.shape, fieldsOf_payload parseable, describe, lastInt, lastInt, from_, stamp, number, chunks]
  simp [intOf_intText parseable.fits.1, intOf_intText parseable.fits.2, Except.toOption]

theorem integersOk_payload (parseable : Parseable parsed sender timestamp batch messages) :
    IntegersOk (fieldsOf ([bar].intercalate (partsOf sender timestamp batch messages))) := by
  have chunks : IntegersOk (messages.flatMap chunkFields) := by
    rintro ⟨key, value⟩ member integer
    obtain ⟨message, -, inside⟩ := List.mem_flatMap.mp member
    simp only [chunkFields, List.mem_cons, Prod.mk.injEq, List.not_mem_nil, or_false] at inside
    rcases inside with ⟨rfl, -⟩ | ⟨rfl, -⟩
    · exact absurd integer (by simp [IntegerKey])
    · exact absurd integer (by simp [IntegerKey])
  rw [fieldsOf_payload parseable, integersOk_append, integersOk_cons, integersOk_cons, integersOk_cons]
  have sender_key : ¬ IntegerKey (lit "from") := by simp [IntegerKey]
  exact ⟨⟨fun integer => absurd integer sender_key, fun _ => ⟨timestamp, intOf_intText parseable.fits.1⟩,
    fun _ => ⟨batch, intOf_intText parseable.fits.2⟩, by simp [IntegersOk]⟩, chunks⟩

/-- Formatting what the parser returned as valid gives a payload whose frame is read
    back as the same record. -/
theorem reencoded {raw : Str} (valid : (parseMessage raw).valid = true) (self : σ) (isChunked : κ) :
    ∃ payload, formatMessage self (parseMessage raw) isChunked = .ok (some payload) ∧
      parseMessage (payload ++ asterisk :: calculateCrc payload) = parseMessage raw := by
  obtain ⟨sender, timestamp, batch, messages, parseable⟩ := parseable valid
  refine ⟨_, formatMessage_eq parseable self isChunked, ?_⟩
  have described := describe_payload parseable
  have accepts : Accepts (framed ([bar].intercalate (partsOf sender timestamp batch messages))) := by
    refine (accepts_framed_iff _).mpr ⟨integersOk_payload parseable, ?_, ?_, ?_⟩
    · exact ⟨sender, by rw [congrArg Parsed.from_ described, parseable.shape], parseable.named⟩
    · exact ⟨timestamp, congrArg Parsed.timestamp (described.trans parseable.shape), parseable.some_timestamp⟩
    · exact ⟨batch, congrArg Parsed.batch (described.trans parseable.shape), parseable.some_batch⟩
  have read := parseMessage_accepted accepts
  rw [rpartition_framed, described] at read
  exact read

/-- A frame with repeated, reordered and unknown fields and an oddly written integer. -/
theorem reencoded_odd :
    let payload := lit "timestamp: +1_0 |x|message:a:b|from:n|hops:2|message:|from:m*|chunk_batch:3"
    let raw := payload ++ asterisk :: calculateCrc payload
    ∃ again, formatMessage () (parseMessage raw) () = .ok (some again) ∧
      parseMessage (again ++ asterisk :: calculateCrc again) = parseMessage raw := by
  intro payload raw
  have valid : (parseMessage raw).valid = true := by decide +kernel
  exact reencoded valid () ()

end Hde.Reencoding
