import Mathlib.Logic.Function.Basic
import Hde.Frames
import Hde.JsonText
import Hde.Utf8

/-!
The files of a unit: what is at a path, reading a file in text mode, and
`json.loads`, which is a parameter. A value makes the round trip when `loads` undoes
`dumps` on it. The standard output is no file of the model, but a `print` can raise.
-/
namespace Hde.Files
open Hde.Text Hde.Numerals Hde.Frames Hde.Lines Hde.JsonText

/-- The exceptions of the calls that read and write files. -/
inductive Failure
  | raised (error : PyError)
  | attributeError (text : Str)
  | fileNotFound
  | osError
  | unicodeDecodeError
  | unicodeEncodeError
  | jsonDecodeError
deriving DecidableEq

inductive Node
  | directory
  | file (content : List UInt8)
deriving DecidableEq

abbrev Disk := Str → Option Node

def write (disk : Disk) (path : Str) (content : List UInt8) : Disk := Function.update disk path (some (.file content))

/-- `open(path, "r").read()`. -/
def readText (disk : Disk) (path : Str) : Except Failure Str :=
  match disk path with
  | none => .error .fileNotFound
  | some .directory => .error .osError
  | some (.file content) =>
    match Utf8.decode content with
    | none => .error .unicodeDecodeError
    | some text => .ok (universal false text)

/-- `os.makedirs(path, exist_ok=True)`. -/
def makedirs (disk : Disk) (path : Str) : Except Failure Disk :=
  match disk path with
  | none => .ok (Function.update disk path (some .directory))
  | some .directory => .ok disk
  | some (.file _) => .error .osError

/-- What `open(path, "a")` finds at the path. -/
def openAppend (disk : Disk) (path : Str) : Except Failure (List UInt8) :=
  match disk path with
  | none => .ok []
  | some .directory => .error .osError
  | some (.file content) => .ok content

/-- `json.loads`. -/
abbrev Loads := Str → Except Failure Json

/-- The bytes that a text file gets. -/
def bytes (text : Str) : List UInt8 := text.flatMap Utf8.encodeChar

/-- `print` of an f-string with a value in it, to an output in UTF-8. A string is written
    as it is; the representation of any other value escapes what has no encoding, and
    raises where `dumps` does, at an integer of too many digits. -/
def print : Json → Except Failure Unit
  | .str s =>
    match Utf8.encode s with
    | .ok _ => .ok ()
    | .error _ => .error .unicodeEncodeError
  | value =>
    match dumps none value with
    | .ok _ => .ok ()
    | .error e => .error (.raised (.valueError e))

/-- `type(value).__name__`. -/
def typeName : Json → Str
  | .null => lit "NoneType"
  | .bool _ => lit "bool"
  | .int _ => lit "int"
  | .float _ => lit "float"
  | .str _ => lit "str"
  | .arr _ => lit "list"
  | .obj _ => lit "dict"

/-- What `value.name` raises when there is no such attribute. -/
def noAttribute (value : Json) (name : Str) : Failure :=
  .attributeError (lit "'" ++ typeName value ++ lit "' object has no attribute '" ++ name ++ lit "'")

/-- `json.loads` undoes `json.dumps` on this value. -/
def RoundTrips (loads : Loads) (indent : Option Nat) (value : Json) : Prop :=
  ∃ text, dumps indent value = .ok text ∧ loads text = .ok value

/-- A `json.loads` that knows the documents of some values and rejects every other
    text. -/
def knowing (indent : Option Nat) (values : List Json) : Loads := fun s =>
  match values.find? fun value => dumps indent value = .ok (strip s) with
  | some value => .ok value
  | none => .error .jsonDecodeError

@[simp] theorem write_self (disk : Disk) (path : Str) (content : List UInt8) :
    write disk path content path = some (.file content) := by
  simp [write]

theorem write_of_ne (disk : Disk) {path other : Str} (content : List UInt8) (different : other ≠ path) :
    write disk path content other = disk other := by
  simp [write, different]

theorem print_str_iff {s : Str} : print (.str s) = .ok () ↔ ∀ c ∈ s, ¬ Utf8.Surrogate c := by
  simp only [print]
  cases encoded : Utf8.encode s with
  | ok bytes => simpa using (Utf8.encode_eq_ok_iff.mp encoded).1
  | error e =>
    simp only [reduceCtorEq, false_iff]
    intro scalars
    rw [Utf8.encode_eq_ok_iff.mpr ⟨scalars, rfl⟩] at encoded
    cases encoded

theorem print_obj_iff {members : List (Str × Json)} :
    print (.obj members) = .ok () ↔ ∃ text, dumps none (.obj members) = .ok text := by
  simp only [print]
  cases dumps none (.obj members) <;> simp

/-- Making a directory leaves every other path alone. -/
theorem makedirs_of_ne {disk made : Disk} {path other : Str} (ok : makedirs disk path = .ok made)
    (different : other ≠ path) : made other = disk other := by
  unfold makedirs at ok
  split at ok
  · cases ok
    simp [different]
  · cases ok
    rfl
  · cases ok

theorem makedirs_self {disk made : Disk} {path : Str} (ok : makedirs disk path = .ok made) :
    made path = some .directory := by
  unfold makedirs at ok
  split at ok
  · cases ok
    simp
  · next there =>
    cases ok
    exact there
  · cases ok

/-! ### Printed documents in files -/

theorem scalar_of_inside {indent : Option Nat} {c : CodePoint} (inside : Inside indent c) : ¬ Utf8.Surrogate c := by
  have low : c.val < 0x80 := by
    rcases inside with visible | space | ⟨-, rfl⟩
    · exact Nat.lt_of_le_of_lt visible.2 (by omega)
    · omega
    · decide
  unfold Utf8.Surrogate
  omega

theorem inside_ne_return {indent : Option Nat} {c : CodePoint} (inside : Inside indent c) : c ≠ carriageReturn := by
  rintro rfl
  rcases inside with visible | space | ⟨-, same⟩
  · exact absurd visible (by decide)
  · exact absurd space (by decide)
  · exact absurd same (by decide)

theorem inside_ne_lineFeed {c : CodePoint} (inside : Inside none c) : c ≠ lineFeed := by
  rintro rfl
  rcases inside with visible | space | ⟨indented, -⟩
  · exact absurd visible (by decide)
  · exact absurd space (by decide)
  · cases indented

theorem visible_dark {c : CodePoint} (visible : Visible c) : Unicode.isSpace c = false := by
  obtain ⟨low, high⟩ := visible
  simp only [Unicode.isSpace, Bool.or_eq_false_iff, Bool.and_eq_false_iff, decide_eq_false_iff_not, beq_eq_false_iff_ne]
  omega

variable {indent : Option Nat} {text : Str}

theorem strip_printed (printed : Printed indent text) : strip text = text := by
  obtain ⟨⟨first, begins, visible⟩, ⟨last, ends, visible'⟩, -⟩ := printed
  exact strip_eq_self begins ends ⟨visible_dark visible, visible_dark visible'⟩

theorem printed_ne_nil (printed : Printed indent text) : text ≠ [] := by
  rintro rfl
  obtain ⟨⟨first, begins, -⟩, -⟩ := printed
  cases begins

/-- Values that print differently make the round trip through the `json.loads` that
    knows them. -/
theorem roundTrips_knowing {values : List Json} (distinct : (values.map (dumps indent)).Nodup)
    (printable : ∀ value ∈ values, (dumps indent value).isOk = true) :
    ∀ value ∈ values, RoundTrips (knowing indent values) indent value := by
  intro value known
  have prints := printable value known
  cases text : dumps indent value with
  | error e =>
    rw [text] at prints
    cases prints
  | ok document =>
    refine ⟨document, text, ?_⟩
    have stripped : strip document = document := strip_printed (printed text)
    simp only [knowing, stripped]
    cases found : values.find? fun value => dumps indent value = .ok document with
    | none =>
      have missed := List.find?_eq_none.mp found value known
      simp [text] at missed
    | some other =>
      have prints_same : dumps indent other = dumps indent value := by simpa [text] using List.find?_some found
      rw [List.inj_on_of_nodup_map distinct (List.mem_of_find?_eq_some found) known prints_same]

theorem decode_bytes (scalars : ∀ c ∈ text, ¬ Utf8.Surrogate c) : Utf8.decode (bytes text) = some text :=
  Utf8.decode_eq_some_iff.mpr (Utf8.encode_eq_ok_iff.mpr ⟨scalars, rfl⟩)

theorem decode_printed (printed : Printed indent text) : Utf8.decode (bytes text) = some text :=
  decode_bytes fun c member => scalar_of_inside (printed.inside c member)

theorem universal_printed (printed : Printed indent text) : universal false text = text :=
  universal_eq_self fun member => inside_ne_return (printed.inside _ member) rfl

/-- A file with nothing but a printed document is read back as it was printed. -/
theorem readText_printed (printed : Printed indent text) {disk : Disk} {path : Str}
    (there : disk path = some (.file (bytes text))) : readText disk path = .ok text := by
  simp only [readText, there, decode_printed printed, universal_printed printed]

/-- What a printed document is in a file, with whatever comes after it. -/
theorem encode_printed (printed : Printed indent text) {after : Str} (scalars : ∀ c ∈ after, ¬ Utf8.Surrogate c) :
    Utf8.encode (text ++ after) = .ok (bytes (text ++ after)) := by
  refine Utf8.encode_eq_ok_iff.mpr ⟨?_, rfl⟩
  intro c member
  rcases List.mem_append.mp member with inside | later
  · exact scalar_of_inside (printed.inside c inside)
  · exact scalars c later

end Hde.Files
