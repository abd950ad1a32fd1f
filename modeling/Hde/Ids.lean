import Hde.Files
import Mathlib.Data.List.MinMax

/-!
The id generators of `Parser`. They read `to_send.json` and answer one more than the
largest chunk id, which is a key, and than the largest batch id, which is in a value
(`generateChunkId_eq`, `generateBatchId_eq`), so that what they generate is new to
the file (`nextPair_fresh`).
-/
namespace Hde.Ids
open Hde.Text Hde.Numerals Hde.Frames Hde.JsonText Hde.Files

/-- `json.loads`, and `int` of a `float`. -/
structure Python where
  loads : Loads
  truncate : FloatText → Except Failure Int

def toSendPath : Str := lit "messages/to_send.json"

/-- `Parser._load_json`. -/
def loadJson (python : Python) (disk : Disk) (path : Str) : Except Failure Json :=
  match readText disk path with
  | .error .fileNotFound => .ok (.obj [])
  | .error e => .error e
  | .ok text =>
    match python.loads text with
    | .error .jsonDecodeError => .ok (.obj [])
    | loaded => loaded

def typeError (text : Str) : Failure := .raised (.typeError text)

/-- `int(value)`. -/
def pyInt (python : Python) : Json → Except Failure Int
  | .int n => .ok n
  | .bool b => .ok (if b then 1 else 0)
  | .float x => python.truncate x
  | .str s => (intOf s).mapError fun e => .raised (.valueError e)
  | value => .error (typeError (lit "int() argument must be a string, a bytes-like object or a real number, not '" ++
      typeName value ++ lit "'"))

/-- `for k in chunks`. -/
def iterate : Json → Except Failure (List Json)
  | .obj members => .ok (members.map fun entry => .str entry.1)
  | .arr items => .ok items
  | .str s => .ok (s.map fun c => .str [c])
  | value => .error (typeError (lit "'" ++ typeName value ++ lit "' object is not iterable"))

/-- `chunks.values()`. -/
def valuesOf : Json → Except Failure (List Json)
  | .obj members => .ok (members.map Prod.snd)
  | value => .error (noAttribute value (lit "values"))

/-- `int(v.get("chunk_batch", 0))`. -/
def chunkBatchOf (python : Python) : Json → Except Failure Int
  | .obj members => pyInt python ((Json.member members (lit "chunk_batch")).getD (.int 0))
  | value => .error (noAttribute value (lit "get"))

/-- `max(numbers, default=0)`. -/
def maxDefault (numbers : List Int) : Int := numbers.max?.getD 0

/-- `Parser.last_chunk_id`. -/
def lastChunkId (python : Python) (disk : Disk) : Except Failure Int := do
  let chunks ← loadJson python disk toSendPath
  return maxDefault (← (← iterate chunks).mapM (pyInt python))

/-- `Parser.last_batch_id`. -/
def lastBatchId (python : Python) (disk : Disk) : Except Failure Int := do
  let chunks ← loadJson python disk toSendPath
  return maxDefault (← (← valuesOf chunks).mapM (chunkBatchOf python))

/-- `Parser.generate_batch_id`. -/
def generateBatchId (python : Python) (disk : Disk) : Except Failure Int := do return (← lastBatchId python disk) + 1

/-- `Parser.generate_chunk_id`. -/
def generateChunkId (python : Python) (disk : Disk) : Except Failure Int := do return (← lastChunkId python disk) + 1

/-! ### What they generate -/

/-- An entry of `to_send.json` whose key is a numeral and whose value has an integer
    `chunk_batch`: its batch and its chunk id. -/
def Numbered (entry : Str × Json) (pair : Int × Int) : Prop :=
  intOf entry.1 = .ok pair.2 ∧
    ∃ members, entry.2 = .obj members ∧ Json.member members (lit "chunk_batch") = some (.int pair.1)

/-- `to_send.json` is absent, or an object of such entries. -/
inductive ToSend (python : Python) (disk : Disk) : List (Int × Int) → Prop
  | absent (nothing : disk toSendPath = none) : ToSend python disk []
  | object {text : Str} {members : List (Str × Json)} {pairs : List (Int × Int)}
      (read : readText disk toSendPath = .ok text) (loaded : python.loads text = .ok (.obj members))
      (numbered : List.Forall₂ Numbered members pairs) : ToSend python disk pairs

variable {python : Python} {disk : Disk} {pairs : List (Int × Int)}

theorem ToSend.load (toSend : ToSend python disk pairs) :
    ∃ members, loadJson python disk toSendPath = .ok (.obj members) ∧ List.Forall₂ Numbered members pairs := by
  cases toSend with
  | absent nothing => exact ⟨[], by simp [loadJson, readText, nothing], .nil⟩
  | @object text members _ read loaded numbered => exact ⟨members, by simp [loadJson, read, loaded], numbered⟩

/-- Only `to_send.json` matters. -/
theorem ToSend.congr (toSend : ToSend python disk pairs) {other : Disk} (same : other toSendPath = disk toSendPath) :
    ToSend python other pairs := by
  cases toSend with
  | absent nothing => exact .absent (same.trans nothing)
  | object read loaded numbered => exact .object (by simpa only [readText, same] using read) loaded numbered

theorem loadJson_congr (python : Python) {disk other : Disk} {path : Str} (same : other path = disk path) :
    loadJson python other path = loadJson python disk path := by
  simp only [loadJson, readText, same]

theorem generateChunkId_eq (toSend : ToSend python disk pairs) :
    generateChunkId python disk = .ok (maxDefault (pairs.map Prod.snd) + 1) := by
  obtain ⟨members, loaded, numbered⟩ := toSend.load
  have keys : (members.map fun entry : Str × Json => Json.str entry.1).mapM (pyInt python) = .ok (pairs.map Prod.snd) := by
    refine mapM_forall₂ (List.forall₂_map_left_iff.mpr (List.forall₂_map_right_iff.mpr (numbered.imp ?_)))
    intro entry pair given
    rw [pyInt, given.1]
    rfl
  rw [generateChunkId, lastChunkId, loaded]
  change (do
    let last ← (do return maxDefault (← (members.map fun entry : Str × Json => Json.str entry.1).mapM (pyInt python)))
    return last + 1) = _
  rw [keys]
  rfl

theorem generateBatchId_eq (toSend : ToSend python disk pairs) :
    generateBatchId python disk = .ok (maxDefault (pairs.map Prod.fst) + 1) := by
  obtain ⟨members, loaded, numbered⟩ := toSend.load
  have batches : (members.map Prod.snd).mapM (chunkBatchOf python) = .ok (pairs.map Prod.fst) := by
    refine mapM_forall₂ (List.forall₂_map_left_iff.mpr (List.forall₂_map_right_iff.mpr (numbered.imp ?_)))
    rintro entry pair ⟨-, fields, value, batch⟩
    rw [value, chunkBatchOf, batch]
    rfl
  rw [generateBatchId, lastBatchId, loaded]
  change (do
    let last ← (do return maxDefault (← (members.map Prod.snd).mapM (chunkBatchOf python)))
    return last + 1) = _
  rw [batches]
  rfl

theorem le_maxDefault {numbers : List Int} {n : Int} (member : n ∈ numbers) : n ≤ maxDefault numbers := by
  unfold maxDefault
  cases largest : numbers.max? with
  | none => simp [List.max?_eq_none_iff.mp largest] at member
  | some m => exact (List.max?_eq_some_iff.mp largest).2 n member

/-- The batch and the chunk id that are generated. -/
def nextPair (pairs : List (Int × Int)) : Int × Int :=
  (maxDefault (pairs.map Prod.fst) + 1, maxDefault (pairs.map Prod.snd) + 1)

theorem nextPair_fresh (pairs : List (Int × Int)) : nextPair pairs ∉ pairs := by
  intro member
  have bound := le_maxDefault (List.mem_map_of_mem (f := Prod.fst) member)
  rw [nextPair] at bound
  omega

end Hde.Ids
