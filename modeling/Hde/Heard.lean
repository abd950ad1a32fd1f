import Hde.Ids
import Hde.RoundTrip
import Hde.Saves

/-!
`parse_heard_data`, the receive path of `main`. It looks for the fields of a message
in a dict `fields`, which `parse_message` does not make: whatever is valid raises
there, and only what is invalid is answered (`parseHeardData_eq`). So no frame of
`prepare` is read back (`prepared_unread`, `heard_exactly`). The send path looks for the
same dict in what `parse_message` makes of a dict, and never gets there
(`parseSendData_eq`).
-/
namespace Hde.Heard
open Hde.Text Hde.Numerals Hde.Dicts Hde.Frames Hde.JsonText Hde.Files Hde.Saves Hde.Ids Hde.Grammar Hde.RoundTrip

/-- `str` of an exception and `time.time()`, beside what `Parser` takes from Python. -/
structure Host where
  python : Python
  showError : PyError → Str
  now : FloatText

/-! ### The receive path -/

/-- The dict that `parse_message` returns. -/
def resultDict (host : Host) (parsed : Parsed) : Json :=
  .obj [(lit "from", (parsed.from_.map Json.str).getD .null), (lit "timestamp", (parsed.timestamp.map Json.int).getD .null),
    (lit "batch", (parsed.batch.map Json.int).getD .null),
    (lit "chunk", .arr (parsed.chunk.map fun c => .obj [(lit "id", .int c.id), (lit "message", .str c.message)])),
    (lit "valid", .bool parsed.valid),
    (lit "error", match parsed.error with
      | none => .null
      | some (.text s) => .str s
      | some (.strOf e) => .str (host.showError e))]

/-- `value[key]`. -/
def getItem (value : Json) (key : Str) : Except Failure Json :=
  match value with
  | .obj members =>
    match Json.member members key with
    | some item => .ok item
    | none => .error (.raised (.keyError key))
  | .arr _ => .error (typeError (lit "list indices must be integers or slices, not str"))
  | .str _ => .error (typeError (lit "string indices must be integers, not 'str'"))
  | value => .error (typeError (lit "'" ++ typeName value ++ lit "' object is not subscriptable"))

/-- `value.get(key, default)`. -/
def getOr (value : Json) (key : Str) (default : Json) : Except Failure Json :=
  match value with
  | .obj members => .ok ((Json.member members key).getD default)
  | value => .error (noAttribute value (lit "get"))

/-- `marker in message`. -/
def mentions (message : Json) (marker : Str) : Except Failure Bool :=
  match message with
  | .str s => .ok (marker <:+: s)
  | .arr items => .ok (items.any fun item => match item with
    | .str s => s = marker
    | _ => false)
  | .obj members => .ok ((Json.member members marker).isSome)
  | value => .error (typeError (lit "argument of type '" ++ typeName value ++ lit "' is not iterable"))

/-- `len(message.encode('utf-8'))`. -/
def encodedLength (message : Json) : Except Failure Nat :=
  match message with
  | .str s =>
    match Utf8.encode s with
    | .ok encoded => .ok encoded.length
    | .error _ => .error .unicodeEncodeError
  | value => .error (noAttribute value (lit "encode"))

/-- `Parser.is_it_in_batches`. -/
def isItInBatches (message : Json) (maxSize : Int) : Except Failure Bool := do
  if ¬ message.truthy then return false
  if ← (List.range 999).anyM fun i => mentions message (lit "|c" ++ numeral 10 (i + 1) ++ lit "|") then return true
  return maxSize < (← encodedLength message)

/-- `extract_chunk_info`. -/
def extractChunkInfo (chunks : Json) : Except Failure (Json × Json) :=
  if ¬ chunks.truthy then .ok (.int 0, .str [])
  else
    match chunks with
    | .arr (first :: _) => do return (← getOr first (lit "id") (.int 0), ← getOr first (lit "message") (.str []))
    | .arr [] => .ok (.int 0, .str [])
    | .str _ => .error (noAttribute chunks (lit "get"))
    | .obj _ => .error (.raised (.keyError (lit "0")))
    | value => .error (typeError (lit "object of type '" ++ typeName value ++ lit "' has no len()"))

def missingArguments : PyError :=
  .typeError (lit "Parser.reassemble_chunks() missing 2 required positional arguments: 'timestamp' and 'batch'")

/-- `Parser.reassemble_chunks(fields)`, which lacks two arguments. -/
def reassembleFields (_fields : Json) : Except Failure Str := .error (.raised missingArguments)

/-- The two branches of `parse_heard_data`: the id and the text of the chunk. -/
def chunkInfo (parsed chunkData : Json) : Except Failure (Json × Json) := do
  if ← isItInBatches parsed 240 then
    discard (reassembleFields (← getItem parsed (lit "fields")))
    extractChunkInfo chunkData
  else
    return (.int 1, ← getOr (← getItem parsed (lit "fields")) (lit "message") (.str []))

/-- The dict that `parse_heard_data` returns. -/
structure Record where
  sender : Json
  timestamp : Int
  chunkBatch : Json
  chunkId : Json
  chunkMessage : Json

/-- `parse_heard_data`. -/
def parseHeardData (host : Host) (data : Str) : Except Failure (Option Record) := do
  let parsed := resultDict host (parseMessage data)
  if ¬ (← getItem parsed (lit "valid")).truthy then return none
  let chunkData ← getOr (← getItem parsed (lit "fields")) (lit "chunk") .null
  let (chunkId, chunkMessage) ← chunkInfo parsed chunkData
  let sender ← getOr (← getItem parsed (lit "fields")) (lit "from") .null
  let timestamp ← pyInt host.python (← getOr (← getItem parsed (lit "fields")) (lit "timestamp") (.float host.now))
  let chunkBatch ← getOr (← getItem parsed (lit "fields")) (lit "batch") (.int 0)
  return some { sender, timestamp, chunkBatch, chunkId, chunkMessage }

variable {host : Host}

theorem callReassembleChunks_one (env : Environment) (argument : Arg) :
    callReassembleChunks env [argument] = .error missingArguments := rfl

theorem getItem_valid (parsed : Parsed) : getItem (resultDict host parsed) (lit "valid") = .ok (.bool parsed.valid) := rfl

theorem getItem_fields (parsed : Parsed) :
    getItem (resultDict host parsed) (lit "fields") = .error (.raised (.keyError (lit "fields"))) := rfl

/-- What is valid raises, and what is invalid is answered with `None`. -/
theorem parseHeardData_eq (host : Host) (raw : Str) :
    parseHeardData host raw =
      if (parseMessage raw).valid then .error (.raised (.keyError (lit "fields"))) else .ok none := by
  simp only [parseHeardData, getItem_valid, getItem_fields]
  cases (parseMessage raw).valid <;> rfl

/-- The receive path reads the message back that `prepare` wrote. -/
def Undone (host : Host) (data : Dict Str Value) (sender message : Str) (chunkId batch timestamp : Int) : Prop :=
  ∃ raw, prepare data = .ok raw ∧
    parseHeardData host raw = .ok (some ⟨.str sender, timestamp, .int batch, .int chunkId, .str message⟩)

/-- Texts and numbers that a frame can carry. -/
structure Plain (sender message checksum : Str) (chunkId batch timestamp : Int) : Prop where
  named : sender ≠ []
  whole : bar ∉ sender ∧ bar ∉ message ∧ bar ∉ checksum
  positive : 0 < chunkId
  some_batch : batch ≠ 0
  some_timestamp : timestamp ≠ 0

variable {data : Dict Str Value} {sender message checksum : Str} {chunkId batch timestamp : Int}

/-- A prepared frame is valid, and so it raises. -/
theorem prepared_raises (carries : Carries data sender message checksum chunkId batch timestamp)
    (plain : Plain sender message checksum chunkId batch timestamp) {raw : Str} (prepared : prepare data = .ok raw) :
    parseHeardData host raw = .error (.raised (.keyError (lit "fields"))) := by
  obtain ⟨⟨batchFits, timestampFits⟩, rfl⟩ := prepare_ok carries prepared
  obtain ⟨wholeSender, wholeMessage, wholeChecksum⟩ := plain.whole
  have nothing := smuggled_whole wholeMessage
  have readable : IntegersOk (smuggled message) := by simp [nothing, IntegersOk]
  have seen : senderSeen sender message ≠ [] := by simpa [senderSeen, nothing] using plain.named
  rw [parseHeardData_eq, if_pos ((parseMessage_valid_iff _).mpr ((accepts_prepared_iff wholeSender wholeChecksum batchFits
    timestampFits plain.some_batch plain.some_timestamp).mpr ⟨readable, seen⟩))]

private def silentHost : Host where
  python := ⟨fun _ => .error .jsonDecodeError, fun _ => .ok 0⟩
  showError := fun _ => []
  now := ⟨lit "0.5", by decide, by decide⟩

private theorem plain_hello : Plain (lit "node1") (lit "hello") (lit "x") 1 3 5 := by
  constructor <;> decide

/-- The frame of "hello" raises. -/
theorem prepared_unread : ¬ ∀ (host : Host) (data : Dict Str Value) (sender message checksum : Str)
    (chunkId batch timestamp : Int), Carries data sender message checksum chunkId batch timestamp →
      Plain sender message checksum chunkId batch timestamp → (∃ raw, prepare data = .ok raw) →
      Undone host data sender message chunkId batch timestamp := by
  intro claim
  have carries := carries_dataOf (lit "node1") (lit "hello") (lit "x") 1 3 5
  have prepared := prepare_eq carries
  rw [if_pos (by decide)] at prepared
  obtain ⟨raw, written, read⟩ := claim silentHost _ _ _ _ _ _ _ carries plain_hello ⟨_, prepared⟩
  rw [prepared_raises carries plain_hello written] at read
  cases read

/-- No frame of `prepare` is read back, and every invalid text is answered. -/
theorem heard_exactly (host : Host) :
    (∀ {data : Dict Str Value} {sender message checksum : Str} {chunkId batch timestamp : Int},
      Carries data sender message checksum chunkId batch timestamp →
        Plain sender message checksum chunkId batch timestamp →
          ¬ Undone host data sender message chunkId batch timestamp ∧
            ∀ raw, prepare data = .ok raw → parseHeardData host raw = .error (.raised (.keyError (lit "fields")))) ∧
      ∀ raw, (parseMessage raw).valid = false → parseHeardData host raw = .ok none := by
  constructor
  · intro data sender message checksum chunkId batch timestamp carries plain
    constructor
    · rintro ⟨raw, prepared, read⟩
      rw [prepared_raises carries plain prepared] at read
      cases read
    · intro raw prepared
      exact prepared_raises carries plain prepared
  · intro raw invalid
    rw [parseHeardData_eq, invalid]
    rfl

theorem heard_exactly_hello :
    (∃ raw, prepare (dataOf (lit "node1") (lit "hello") (lit "x") 1 3 5) = .ok raw ∧
      parseHeardData silentHost raw = .error (.raised (.keyError (lit "fields")))) ∧
    parseHeardData silentHost (lit "from:node1*00") = .ok none := by
  obtain ⟨raises, answered⟩ := heard_exactly silentHost
  have carries := carries_dataOf (lit "node1") (lit "hello") (lit "x") 1 3 5
  have prepared := prepare_eq carries
  rw [if_pos (by decide)] at prepared
  exact ⟨⟨_, prepared, (raises carries plain_hello).2 _ prepared⟩, answered _ (by decide)⟩

/-! ### What is to be sent -/

/-- `Parser.parse_message` of a dict, which may have the key `*` but cannot be split. -/
def parseMessageDict (raw : List (Str × Json)) : Parsed :=
  let result : Parsed := {}
  if (Json.member raw [asterisk]).isNone then result.fail (lit "CRC delimiter not found.")
  else result.fail (lit "'dict' object has no attribute 'rsplit'")

/-- `parse_send_data`. -/
def parseSendData (host : Host) (data : Json) : Except Failure (Option Json) := do
  print data
  match data with
  | .obj members =>
    let parsed := resultDict host (parseMessageDict members)
    if ¬ (← getItem parsed (lit "valid")).truthy then return none
    let (chunkId, chunkMessage) ← extractChunkInfo (← getOr (← getItem parsed (lit "fields")) (lit "chunk") .null)
    let sender ← getOr (← getItem parsed (lit "fields")) (lit "from") .null
    let checksum ← getOr (← getItem parsed (lit "fields")) (lit "checksum") .null
    let timestamp ← pyInt host.python (← getOr (← getItem parsed (lit "fields")) (lit "timestamp") (.float host.now))
    let chunkBatch ← getOr (← getItem parsed (lit "fields")) (lit "batch") (.int 0)
    return some (.obj [(lit "from", sender), (lit "checksum", checksum), (lit "timestamp", .int timestamp),
      (lit "chunk_batch", chunkBatch), (lit "chunk_id", chunkId), (lit "chunk_message", chunkMessage)])
  | value => return some value

theorem parseMessageDict_invalid (raw : List (Str × Json)) : (parseMessageDict raw).valid = false := by
  unfold parseMessageDict
  split
  · rfl
  · rfl

/-- A dict is never parsed, and anything else comes back as it was, if it can be printed. -/
theorem parseSendData_eq (host : Host) (data : Json) :
    parseSendData host data =
      (print data).map fun _ => match data with
        | .obj _ => none
        | value => some value := by
  unfold parseSendData
  cases print data with
  | error e => rfl
  | ok =>
    cases data with
    | obj members =>
      have invalid : getItem (resultDict host (parseMessageDict members)) (lit "valid") = .ok (.bool false) := by
        rw [getItem_valid, parseMessageDict_invalid]
      simp only [invalid]
      rfl
    | _ => rfl

end Hde.Heard
