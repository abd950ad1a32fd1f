import Hde.Checksums
import Hde.Dicts
import Hde.Numerals
import Hde.Records

/-!
The LoRa frame of `Parser`: `calculate_crc`, `prepare` and `parse_message`. A
frame is a record of `key:value` fields joined by `|`, then `*` and the
exclusive or of the payload's code points in hexadecimal. The parser trusts
what comes before the last `*` once the checksum agrees, skips fields without
`:` and unknown keys, lets a later field overwrite an earlier one and returns
early on an integer that `int` rejects.
-/
namespace Hde.Frames
open Hde.Text Hde.Unicode Hde.Numerals Hde.Checksums Hde.Dicts Hde.Records

def asterisk : CodePoint := CodePoint.ofChar '*'
def bar : CodePoint := CodePoint.ofChar '|'
def colon : CodePoint := CodePoint.ofChar ':'

/-- The exceptions that the modelled calls raise. -/
inductive PyError where
  | keyError (key : Str)
  | typeError (text : Str)
  | valueError (error : ValueError)
deriving DecidableEq

inductive Value where
  | none
  | bool (b : Bool)
  | int (n : Int)
  | str (s : Str)
deriving DecidableEq

def Value.format : Value → Except PyError Str
  | .none => .ok (lit "None")
  | .bool true => .ok (lit "True")
  | .bool false => .ok (lit "False")
  | .int n => (strInt n).mapError .valueError
  | .str s => .ok s

/-! ### Sending -/

/-- `Parser.calculate_crc`. -/
def calculateCrc (payload : Str) : Str := formatX 2 (payload.foldl (xorStep CodePoint.val) 0)

/-- `f"{key}:{data[key]}"`. -/
def formatField (data : Dict Str Value) (key : Str) : Except PyError Str :=
  match data.get? key with
  | none => .error (.keyError key)
  | some value => do return key ++ colon :: (← value.format)

def fieldKeys : List Str :=
  [lit "from", lit "message", lit "checksum", lit "chunk_id", lit "chunk_batch", lit "timestamp"]

/-- `Parser.prepare`. -/
def prepare (data : Dict Str Value) : Except PyError Str := do
  let fields ← fieldKeys.mapM (formatField data)
  let payload := [bar].intercalate fields
  let crc := calculateCrc payload
  return payload ++ asterisk :: crc

/-! ### Receiving -/

structure Chunk where
  id : Int
  message : Str
deriving DecidableEq

/-- `result["error"]`: a text of the parser's own, or `str` of an exception. -/
inductive ErrorText where
  | text (s : Str)
  | strOf (e : PyError)
deriving DecidableEq

/-- The `result` dict of `parse_message`. -/
structure Parsed where
  from_ : Option Str := none
  timestamp : Option Int := none
  batch : Option Int := none
  chunk : List Chunk := []
  valid : Bool := false
  error : Option ErrorText := none
deriving DecidableEq

def Parsed.fail (result : Parsed) (message : Str) : Parsed := { result with error := some (.text message) }

/-- A match of `\|c(\d+)\|([^|]+)` at the head of a text: its two groups. -/
def marshalAt : Str → Option (Str × Str)
  | first :: second :: rest =>
    let digits := rest.takeWhile (fun c => (decimalValue c).isSome)
    match rest.dropWhile (fun c => (decimalValue c).isSome) with
    | third :: tail =>
      let body := tail.takeWhile (· ≠ bar)
      if first = bar ∧ second = CodePoint.ofChar 'c' ∧ digits ≠ [] ∧ third = bar ∧ body ≠ [] then
        some (digits, body)
      else none
    | [] => none
  | _ => none

/-- `re.findall` of that pattern, with `skip` characters of the last match
    still to pass over. -/
def findMarshals : Nat → Str → List (Str × Str)
  | _, [] => []
  | skip + 1, _ :: rest => findMarshals skip rest
  | 0, c :: rest =>
    match marshalAt (c :: rest) with
    | some (digits, body) => (digits, body) :: findMarshals (digits.length + body.length + 2) rest
    | none => findMarshals 0 rest

/-- Appending the chunks of one `message` value; an exception of `int` leaves
    the chunks appended before it. -/
def appendMarshals (result : Parsed) : List (Str × Str) → Except Parsed Parsed
  | [] => .ok result
  | (cid, message) :: rest =>
    match intOf cid with
    | .ok id => appendMarshals { result with chunk := result.chunk ++ [⟨id, message⟩] } rest
    | .error e => .error { result with error := some (.strOf (.valueError e)) }

/-- One round of the field loop: `.error` is an early return. -/
def parseField (result : Parsed) (field : Str) : Except Parsed Parsed :=
  if colon ∉ field then .ok result
  else
    let (key, value) := partition colon field
    if key = lit "from" then .ok { result with from_ := some value }
    else if key = lit "timestamp" then
      match intOf value with
      | .ok n => .ok { result with timestamp := some n }
      | .error _ => .error (result.fail (lit "Invalid timestamp format."))
    else if key = lit "chunk_batch" then
      match intOf value with
      | .ok n => .ok { result with batch := some n }
      | .error _ => .error (result.fail (lit "Invalid chunk batch format."))
    else if key = lit "message" then
      if lit "|c" <:+: value then appendMarshals result (findMarshals 0 value)
      else .ok { result with chunk := result.chunk ++ [⟨1, value⟩] }
    else .ok result

def falsyText (text : Option Str) : Bool := text.getD [] = []

def falsyInt (number : Option Int) : Bool := number.getD 0 = 0

/-- `Parser.parse_message`. -/
def parseMessage (raw : Str) : Parsed :=
  let result : Parsed := {}
  if asterisk ∉ raw then result.fail (lit "CRC delimiter not found.")
  else
    let (payload, crc) := rpartition asterisk raw
    let expectedCrc := calculateCrc payload
    if upper crc ≠ expectedCrc then
      result.fail (lit "CRC mismatch (expected " ++ expectedCrc ++ lit ", got " ++ upper crc ++ lit ")")
    else
      match (payload.splitOn bar).foldlM parseField result with
      | .error result => result
      | .ok result =>
        if falsyText result.from_ || falsyInt result.timestamp || falsyInt result.batch then
          result.fail (lit "Missing required fields.")
        else { result with valid := true }

end Hde.Frames
