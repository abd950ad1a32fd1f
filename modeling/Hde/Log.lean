import Hde.Engine
import Hde.Files
import Hde.Saves

/-!
The message log: `save_message_manually` appends one line for each entry, and
`source_messages` decodes every line that is not blank. The log holds some documents
when its lines do (`LogHolds`); saving an entry adds it to them (`logHolds_save`)
and reading gives them all (`sourceMessages_of_logHolds`), so that the log is exact
over any number of saves (`log_appended`).
-/
namespace Hde.Log
open Hde.Text Hde.Unicode Hde.Frames Hde.Lines Hde.JsonText Hde.Files Hde.Saves
open Hde.Engine (Mode)

def logPath : Str := lit "messages/messages.json"

/-- How the append goes: `written` bytes of the line reach the file before it fails. -/
inductive Append
  | succeeds
  | openFails
  | writeFails (written : Nat)
deriving DecidableEq

/-- What the operating system lets `save_message_manually` do. -/
structure Io where
  makedirs : Bool := true
  append : Append := .succeeds
deriving DecidableEq

/-- The `with` block of `save_message_manually`, whose exceptions are caught. -/
def appendLine (append : Append) (disk : Disk) (entry : Json) : Disk :=
  match append, openAppend disk logPath with
  | .openFails, _ => disk
  | _, .error _ => disk
  | outcome, .ok content =>
    match dumps none entry with
    -- the file is open by now, and so it exists
    | .error _ => write disk logPath content
    | .ok text =>
      match Utf8.encode (text ++ [lineFeed]) with
      | .error _ => write disk logPath content
      | .ok line =>
        match outcome with
        | .writeFails written => write disk logPath (content ++ line.take written)
        | _ => write disk logPath (content ++ line)

/-- `save_message_manually`. -/
def saveMessageManually (io : Io) (disk : Disk) (entry : Json) : Except Failure Disk := do
  if ¬ io.makedirs then throw .osError
  let made ← makedirs disk (lit "messages")
  return appendLine io.append made entry

inductive Response
  | listing (lora : Option Mode) (data : List Json)
  | error (text : Str) (status : Nat)

/-- `source_messages`. -/
def sourceMessages (loads : Loads) (disk : Disk) (loraState : Mode) (filename : Str) : Except Failure Response :=
  let path := joinPath (lit "messages") filename
  match disk path with
  | none => .ok (.listing none [])
  | some .directory => .ok (.error (lit "File not found") 404)
  | some (.file _) => do
    let lines := readlines (← readText disk path)
    let messages ← (lines.filter (strip · ≠ [])).mapM fun line => loads (strip line)
    return .listing (some loraState) messages

/-! ### What the log holds -/

/-- Lines without their line breaks, each blank or holding one document, and these
    documents. -/
inductive Documents (loads : Loads) : List Str → List Json → Prop
  | nil : Documents loads [] []
  | blank {line : Str} {lines : List Str} {documents : List Json} (space : ∀ c ∈ line, isSpace c = true)
      (more : Documents loads lines documents) : Documents loads (line :: lines) documents
  | document {line : Str} {lines : List Str} {document : Json} {documents : List Json} (some_text : strip line ≠ [])
      (holds : loads (strip line) = .ok document) (more : Documents loads lines documents) :
      Documents loads (line :: lines) (document :: documents)

/-- The log is absent, or consists of such lines, each ended by a line break. -/
inductive LogHolds (loads : Loads) (disk : Disk) : List Json → Prop
  | absent (nothing : disk logPath = none) : LogHolds loads disk []
  | present {content : List UInt8} {raw : Str} {lines : List Str} {documents : List Json}
      (found : disk logPath = some (.file content)) (decoded : Utf8.decode content = some raw)
      (ended : universal false raw = lines.flatMap (· ++ [lineFeed])) (whole : ∀ line ∈ lines, lineFeed ∉ line)
      (holds : Documents loads lines documents) : LogHolds loads disk documents

variable {loads : Loads}

theorem Documents.append {first second : List Str} {documents more : List Json} (left : Documents loads first documents)
    (right : Documents loads second more) : Documents loads (first ++ second) (documents ++ more) := by
  induction left with
  | nil => exact right
  | blank space _ ih => exact .blank space ih
  | document some_text holds _ ih => exact .document some_text holds ih

/-- Only the log matters to what it holds. -/
theorem LogHolds.congr {disk other : Disk} {documents : List Json} (holds : LogHolds loads disk documents)
    (same : other logPath = disk logPath) : LogHolds loads other documents := by
  cases holds with
  | absent nothing => exact .absent (same.trans nothing)
  | present found decoded ended whole holds => exact .present (same.trans found) decoded ended whole holds

/-- The reader's loop over lines gives their documents. -/
theorem Documents.read {lines : List Str} {documents : List Json} (holds : Documents loads lines documents) :
    ((lines.map (· ++ [lineFeed])).filter (strip · ≠ [])).mapM (fun line => loads (strip line)) = .ok documents := by
  induction holds with
  | nil => rfl
  | blank space _ ih =>
    rw [List.map_cons, List.filter_cons_of_neg, ih]
    simpa [strip_append_lineFeed] using strip_eq_nil_iff.mpr space
  | document some_text holds _ ih =>
    rw [List.map_cons, List.filter_cons_of_pos (by simpa [strip_append_lineFeed] using some_text), List.mapM_cons,
      strip_append_lineFeed, holds, ih]
    rfl

theorem joinPath_log : joinPath (lit "messages") (lit "messages.json") = logPath := by decide +kernel

theorem sourceMessages_of_logHolds {disk : Disk} {documents : List Json} (holds : LogHolds loads disk documents)
    (loraState : Mode) :
    ∃ lora, sourceMessages loads disk loraState (lit "messages.json") = .ok (.listing lora documents) := by
  cases holds with
  | absent nothing => exact ⟨none, by simp [sourceMessages, joinPath_log, nothing]⟩
  | @present content raw lines _ found decoded ended whole holds =>
    refine ⟨some loraState, ?_⟩
    have text : readText disk logPath = .ok (lines.flatMap (· ++ [lineFeed])) := by
      simp [readText, found, decoded, ended]
    simp only [sourceMessages, joinPath_log, found, text]
    change (do
      let messages ← ((readlines (lines.flatMap (· ++ [lineFeed]))).filter (strip · ≠ [])).mapM fun line =>
        loads (strip line)
      return Response.listing (some loraState) messages) = _
    rw [readlines_flatMap whole, holds.read]
    rfl

/-! ### Saving an entry -/

theorem appendLine_of_holds {disk : Disk} {documents : List Json} (holds : LogHolds loads disk documents) {entry : Json}
    (storable : RoundTrips loads none entry) : LogHolds loads (appendLine .succeeds disk entry) (documents ++ [entry]) := by
  obtain ⟨text, printed_text, undone⟩ := storable
  have shape := printed printed_text
  have line : Utf8.encode (text ++ [lineFeed]) = .ok (bytes (text ++ [lineFeed])) :=
    encode_printed shape (by decide)
  have unbroken : lineFeed ∉ text := fun member => inside_ne_lineFeed (shape.inside _ member) rfl
  have one : Documents loads [text] [entry] :=
    .document (by rw [strip_printed shape]; exact printed_ne_nil shape) (by rw [strip_printed shape]; exact undone) .nil
  have alone : universal false (text ++ [lineFeed]) = text ++ [lineFeed] := by
    apply universal_eq_self
    intro member
    rcases List.mem_append.mp member with inside | last
    · exact inside_ne_return (shape.inside _ inside) rfl
    · exact absurd last (by decide)
  have read : Utf8.decode (bytes (text ++ [lineFeed])) = some (text ++ [lineFeed]) :=
    Utf8.decode_eq_some_iff.mpr line
  cases holds with
  | absent nothing =>
    have saved : appendLine .succeeds disk entry logPath =
        some (.file (bytes (text ++ [lineFeed]))) := by
      simp only [appendLine, openAppend, nothing, printed_text, line, List.nil_append, write_self]
    exact .present saved read (by rw [alone]; simp) (by simpa using unbroken) one
  | @present content raw lines _ found decoded ended whole holds =>
    have saved : appendLine .succeeds disk entry logPath =
        some (.file (content ++ bytes (text ++ [lineFeed]))) := by
      simp only [appendLine, openAppend, found, printed_text, line, write_self]
    have grown : Utf8.decode (content ++ bytes (text ++ [lineFeed])) =
        some (raw ++ (text ++ [lineFeed])) := by
      rw [Utf8.decode_encode (Utf8.decode_eq_some_iff.mp decoded), read]
      rfl
    refine .present saved grown ?_ ?_ (holds.append one)
    · obtain ⟨first, begins, visible⟩ := shape.begins
      have head : (text ++ [lineFeed]).head? ≠ some lineFeed := by
        rw [List.head?_append, begins]
        rintro same
        exact absurd (Option.some.inj same ▸ visible) (by decide)
      rw [universal_append head, ended, alone, List.flatMap_append]
      simp
    · simpa [or_imp, forall_and, unbroken] using whole

theorem logHolds_save {disk saved : Disk} {documents : List Json} (holds : LogHolds loads disk documents) {entry : Json}
    (storable : RoundTrips loads none entry) (save : saveMessageManually {} disk entry = .ok saved) :
    LogHolds loads saved (documents ++ [entry]) := by
  simp only [saveMessageManually, not_true_eq_false, if_false] at save
  obtain ⟨after, made, last⟩ := ok_of_bind save
  cases last
  have same : after logPath = disk logPath := makedirs_of_ne made (by decide)
  exact appendLine_of_holds (holds.congr same) storable

/-- Only the log is written. -/
theorem appendLine_cases (append : Append) (disk : Disk) (entry : Json) :
    appendLine append disk entry = disk ∨ ∃ content, appendLine append disk entry = write disk logPath content := by
  unfold appendLine
  split
  · exact .inl rfl
  · exact .inl rfl
  · right
    cases dumps none entry with
    | error e => exact ⟨_, rfl⟩
    | ok text =>
      dsimp only
      split
      · exact ⟨_, rfl⟩
      · split <;> exact ⟨_, rfl⟩

theorem saveMessageManually_of_ne {io : Io} {disk saved : Disk} {entry : Json}
    (save : saveMessageManually io disk entry = .ok saved) {other : Str}
    (different : other ≠ logPath ∧ other ≠ lit "messages") : saved other = disk other := by
  unfold saveMessageManually at save
  split at save
  · cases save
  · obtain ⟨after, made, last⟩ := ok_of_bind save
    cases last
    rw [← makedirs_of_ne made different.2]
    rcases appendLine_cases io.append after entry with same | ⟨content, written⟩
    · rw [same]
    · rw [written, write_of_ne after content different.1]

/-- Whatever the log held, after any number of saves the reader returns that and
    then the saved entries, in order. -/
theorem log_appended {disk saved : Disk} {documents entries : List Json} (initial : LogHolds loads disk documents)
    (storable : ∀ entry ∈ entries, RoundTrips loads none entry)
    (saves : entries.foldlM (saveMessageManually {}) disk = .ok saved) (loraState : Mode) :
    ∃ lora, sourceMessages loads saved loraState (lit "messages.json") = .ok (.listing lora (documents ++ entries)) := by
  refine sourceMessages_of_logHolds ?_ loraState
  induction entries generalizing disk documents with
  | nil =>
    cases saves
    simpa using initial
  | cons entry more ih =>
    rw [List.foldlM_cons] at saves
    obtain ⟨next, first, rest⟩ := ok_of_bind saves
    have held := logHolds_save initial (storable entry (by simp)) first
    simpa using ih held (fun other member => storable other (by simp [member])) rest

theorem log_appended_quoted :
    let old := Json.obj [(lit "from", .str (lit "HDE Team"))]
    let new := Json.obj [(lit "from", .str (lit "a\n\"b\"")), (lit "message", .str (lit "\x7b\x7d\n"))]
    let loads := knowing none [old, new]
    let disk : Disk := fun path => if path = logPath then
      some (.file ((lit " \n\x7b\"from\": \"HDE Team\"\x7d\r\n").flatMap Utf8.encodeChar)) else none
    ∃ saved lora, [new, new].foldlM (saveMessageManually {}) disk = .ok saved ∧
      sourceMessages loads saved .idle (lit "messages.json") = .ok (.listing lora [old, new, new]) := by
  intro old new loads disk
  have initial : LogHolds loads disk [old] := by
    have decoded : Utf8.decode ((lit " \n\x7b\"from\": \"HDE Team\"\x7d\r\n").flatMap Utf8.encodeChar) =
        some (lit " \n\x7b\"from\": \"HDE Team\"\x7d\r\n") := decode_bytes (by decide +kernel)
    have lines : Documents loads [lit " ", lit "\x7b\"from\": \"HDE Team\"\x7d"] [old] :=
      .blank (by decide) (.document (by decide) rfl .nil)
    exact .present rfl decoded (by decide) (by decide) lines
  have storable : ∀ entry ∈ [new, new], RoundTrips loads none entry := by
    have known : ∀ value ∈ [old, new], RoundTrips loads none value := roundTrips_knowing (by decide) (by decide)
    simpa using known new (by simp)
  obtain ⟨lora, read⟩ := log_appended initial storable rfl .idle
  exact ⟨_, lora, rfl, read⟩

end Hde.Log
