import Hde.Requests

/-!
`POST /api/send` and its two stores, the log and the queue of the engine. The entry is
queued before the log is written, the helper that writes the log swallows its
exceptions, and the message is printed after both. So a request is all or nothing
exactly when the line of the entry that it makes, if it makes one, gets into the log and
the message can be printed (`all_or_nothing_exactly`).
-/
namespace Hde.Outcomes
open Hde.Text Hde.Lines Hde.JsonText Hde.Files Hde.Log Hde.Ids Hde.Requests

/-- The response is 200 and says success. -/
def Succeeded (reply : Except Failure Reply) : Prop :=
  ∃ entry, reply = .ok ⟨.obj [(lit "status", .str (lit "success")), (lit "sent", entry)], 200⟩

/-- A file ends with the line of an entry, after what was there before. -/
def Appended (before after : Disk) (entry : Json) : Prop :=
  ∃ content text, openAppend before logPath = .ok content ∧ dumps none entry = .ok text ∧
    after logPath = some (.file (content ++ bytes (text ++ [lineFeed])))

/-- One entry with the sender and the message of the body is in both stores. -/
def Added (server after : Server) (members : List (Str × Json)) (now : Int) : Prop :=
  ∃ batch id, let entry := newEntry (get members (lit "from")) now batch id (get members (lit "message"))
    Appended server.disk after.disk entry ∧ after.queued = server.queued ++ [entry]

/-- Both stores after a successful request, and neither after another one. -/
def AllOrNothing (python : Python) (server : Server) (request : Request) (members : List (Str × Json)) : Prop :=
  (Succeeded (sendMessage python server request).2 →
    Added server (sendMessage python server request).1 members request.now) ∧
  (¬ Succeeded (sendMessage python server request).2 →
    (sendMessage python server request).1.disk logPath = server.disk logPath ∧
      (sendMessage python server request).1.queued = server.queued)

/-- How much of a line gets into the file. -/
def Whole (append : Append) (line : List UInt8) : Prop :=
  match append with
  | .succeeds => True
  | .openFails => False
  | .writeFails written => line.length ≤ written

/-- The directory can be made, the log opened, the entry printed, and its whole line
    written. -/
structure Lands (io : Io) (disk : Disk) (entry : Json) : Prop where
  allowed : io.makedirs = true
  directory : disk (lit "messages") = none ∨ disk (lit "messages") = some .directory
  log : disk logPath ≠ some .directory
  line : ∃ text, dumps none entry = .ok text ∧ Whole io.append (bytes (text ++ [lineFeed]))

variable {python : Python} {server : Server} {request : Request} {members : List (Str × Json)} {disk : Disk} {entry : Json}

theorem makedirs_ok_iff {path : Str} :
    (∃ made, makedirs disk path = .ok made) ↔ disk path = none ∨ disk path = some .directory := by
  unfold makedirs
  cases disk path with
  | none => simp
  | some node => cases node <;> simp

theorem openAppend_ok_iff {content : List UInt8} :
    openAppend disk logPath = .ok content ↔
      (disk logPath = none ∧ content = []) ∨ disk logPath = some (.file content) := by
  unfold openAppend
  cases disk logPath with
  | none => simp [eq_comm]
  | some node => cases node <;> simp

theorem openAppend_returns_iff : (∃ content, openAppend disk logPath = .ok content) ↔ disk logPath ≠ some .directory := by
  unfold openAppend
  cases disk logPath with
  | none => simp
  | some node => cases node <;> simp

/-- What the append leaves in the log, with the log open and the entry printed. -/
theorem appendLine_opened {content : List UInt8} {text : Str} (opened : openAppend disk logPath = .ok content)
    (printed_text : dumps none entry = .ok text) (append : Append) :
    appendLine append disk entry logPath = match append with
      | .openFails => disk logPath
      | .succeeds => some (.file (content ++ bytes (text ++ [lineFeed])))
      | .writeFails written => some (.file (content ++ (bytes (text ++ [lineFeed])).take written)) := by
  have line : Utf8.encode (text ++ [lineFeed]) = .ok (bytes (text ++ [lineFeed])) :=
    encode_printed (printed printed_text) (by decide)
  cases append with
  | openFails => rfl
  | succeeds => simp only [appendLine, opened, printed_text, line, write_self]
  | writeFails written => simp only [appendLine, opened, printed_text, line, write_self]

/-- The line is in the log after the append exactly when all of it was written. -/
theorem appended_iff {content : List UInt8} {text : Str} (opened : openAppend disk logPath = .ok content)
    (printed_text : dumps none entry = .ok text) (append : Append) :
    appendLine append disk entry logPath = some (.file (content ++ bytes (text ++ [lineFeed]))) ↔
      Whole append (bytes (text ++ [lineFeed])) := by
  rw [appendLine_opened opened printed_text]
  cases append with
  | openFails =>
    have some_line : bytes (text ++ [lineFeed]) ≠ [] := by
      rw [bytes, List.flatMap_append]
      exact List.append_ne_nil_of_right_ne_nil _ (by decide)
    simp only [Whole, iff_false]
    rcases openAppend_ok_iff.mp opened with ⟨nothing, -⟩ | found
    · simp [nothing]
    · simpa [found] using some_line
  | succeeds => simp [Whole]
  | writeFails written => simp [Whole, List.take_eq_self_iff]

/-- The entry's line lands exactly when the helper returns and it is there. -/
theorem lands_iff {io : Io} :
    Lands io disk entry ↔ ∃ saved, saveMessageManually io disk entry = .ok saved ∧ Appended disk saved entry := by
  have helper : ∀ {made}, io.makedirs = true → makedirs disk (lit "messages") = .ok made →
      saveMessageManually io disk entry = .ok (appendLine io.append made entry) := by
    intro made allowed ok
    rw [saveMessageManually, if_neg (by simp [allowed])]
    show (makedirs disk (lit "messages") >>= _) = _
    rw [ok]
    rfl
  have opened_after : ∀ {made}, makedirs disk (lit "messages") = .ok made → made logPath = disk logPath :=
    fun ok => makedirs_of_ne ok (by decide)
  constructor
  · rintro ⟨allowed, directory, log, text, printed_text, whole⟩
    obtain ⟨made, ok⟩ := makedirs_ok_iff.mpr directory
    obtain ⟨content, opened⟩ := openAppend_returns_iff.mpr log
    have opened' : openAppend made logPath = .ok content := by rwa [openAppend, opened_after ok]
    exact ⟨_, helper allowed ok, content, text, opened, printed_text, (appended_iff opened' printed_text _).mpr whole⟩
  · rintro ⟨saved, ok, content, text, opened, printed_text, written⟩
    by_cases allowed : io.makedirs = true
    · obtain ⟨made, made_ok⟩ : ∃ made, makedirs disk (lit "messages") = .ok made := by
        rw [saveMessageManually, if_neg (by simp [allowed])] at ok
        obtain ⟨made, made_ok, -⟩ := ok_of_bind ok
        exact ⟨made, made_ok⟩
      obtain rfl := Except.ok.inj ((helper allowed made_ok).symm.trans ok)
      have opened' : openAppend made logPath = .ok content := by rwa [openAppend, opened_after made_ok]
      exact ⟨allowed, makedirs_ok_iff.mp ⟨made, made_ok⟩, openAppend_returns_iff.mp ⟨content, opened⟩, text,
        printed_text, (appended_iff opened' printed_text _).mp written⟩
    · rw [saveMessageManually, if_pos (by simpa using allowed)] at ok
      cases ok

/-- The response with an entry is a success exactly when the entry can be printed. -/
theorem succeeded_success_iff : Succeeded (success entry) ↔ ∃ text, dumps none entry = .ok text := by
  have inside : (∃ text, dumps none (.obj [(lit "status", .str (lit "success")), (lit "sent", entry)]) = .ok text) ↔
      ∃ text, dumps none entry = .ok text := by
    rw [dumps, dumpsAt, ok_map_iff, dumpsMembers_cons_iff, dumpsMembers_cons_iff, dumps, dumpsAt_layout none none 1 0 entry]
    exact ⟨fun parts => parts.2.1, fun own => ⟨⟨_, rfl⟩, own, ⟨_, rfl⟩⟩⟩
  rw [← inside, success, jsonify]
  cases dumps none (.obj [(lit "status", .str (lit "success")), (lit "sent", entry)]) with
  | error e => simp [Succeeded]
  | ok text => exact ⟨fun _ => ⟨text, rfl⟩, fun _ => ⟨entry, rfl⟩⟩

/-- The reply is a success exactly when the message can be printed, and the entry. -/
theorem succeeded_finish_iff {message : Json} :
    Succeeded (finish message entry) ↔ print message = .ok () ∧ ∃ text, dumps none entry = .ok text := by
  rw [← succeeded_success_iff, finish]
  cases print message with
  | error e => exact iff_of_false nofun nofun
  | ok => exact ⟨fun done => ⟨rfl, done⟩, And.right⟩

theorem entryFor_body (body : request.data = .obj members) (made : entryFor python server request = some entry) :
    ∃ batch id, entry = newEntry (get members (lit "from")) request.now batch id (get members (lit "message")) := by
  simp only [entryFor, body] at made
  split at made
  · split at made
    · next batch id ids =>
      split at made
      · exact ⟨batch, id, (Option.some.inj made).symm⟩
      · cases made
    · cases made
  · cases made

/-- A request is all or nothing exactly when the line of the entry that it makes, if any,
    gets into the log and its message can be printed. -/
theorem all_or_nothing_exactly (body : request.data = .obj members) :
    AllOrNothing python server request members ↔
      ∀ entry, entryFor python server request = some entry →
        Lands request.io server.disk entry ∧ print (get members (lit "message")) = .ok () := by
  have text : get members (lit "message") = request.message := by rw [Request.message, body]
  rw [text]
  have done := handled python server request
  rw [AllOrNothing]
  generalize (sendMessage python server request).1 = after at done
  generalize (sendMessage python server request).2 = reply at done
  cases done with
  | refused nothing unsent =>
    refine iff_of_true ⟨?_, fun _ => ⟨rfl, rfl⟩⟩ (by simp [nothing])
    rintro ⟨entry, rfl⟩
    cases unsent
  | @failed entry e made unsaved =>
    refine iff_of_false ?_ ?_
    · rintro ⟨-, untouched⟩
      obtain ⟨-, same⟩ := untouched (by rintro ⟨entry, reply⟩; cases reply)
      simp [Server.queueMessage] at same
    · intro lands
      obtain ⟨saved, ok, -⟩ := lands_iff.mp (lands entry made).1
      rw [unsaved] at ok
      cases ok
  | @saved entry disk made ok =>
    obtain ⟨batch, id, shape⟩ := entryFor_body body made
    constructor
    · rintro ⟨both, neither⟩ other made'
      obtain rfl := Option.some.inj (made.symm.trans made')
      by_cases succeeded : Succeeded (finish request.message entry)
      · obtain ⟨batch', id', appended, queued⟩ := both succeeded
        have same := List.append_cancel_left queued
        rw [← List.singleton_inj.mp same] at appended
        exact ⟨lands_iff.mpr ⟨disk, ok, appended⟩, (succeeded_finish_iff.mp succeeded).1⟩
      · have same := (neither succeeded).2
        simp [Server.queueMessage] at same
    · intro lands
      obtain ⟨landed, shown⟩ := lands entry made
      obtain ⟨saved, ok', appended⟩ := lands_iff.mp landed
      obtain rfl := Except.ok.inj (ok.symm.trans ok')
      obtain ⟨content, text, opened, printed_text, written⟩ := appended
      have succeeded := succeeded_finish_iff.mpr ⟨shown, text, printed_text⟩
      refine ⟨fun _ => ⟨batch, id, ?_⟩, fun failed => absurd succeeded failed⟩
      rw [← shape]
      exact ⟨⟨content, text, opened, printed_text, written⟩, rfl⟩

private def noJson : Python where
  loads := fun _ => .error .jsonDecodeError
  truncate := fun _ => .error (typeError [])

private def emptyUnit : Server := ⟨fun _ => none, lit "FILE_NOT_FOUND", []⟩

private def hiMembers : List (Str × Json) :=
  [(lit "from", .str (lit "node1")), (lit "message", .str (lit "hi")), (lit "checksum", .str (lit "x"))]

private def hiRequest (io : Io) : Request := ⟨.obj hiMembers, 5, io⟩

private def hiEntry : Json := newEntry (.str (lit "node1")) 5 1 1 (.str (lit "hi"))

private theorem entryFor_hi (io : Io) : entryFor noJson emptyUnit (hiRequest io) = some hiEntry := rfl

private theorem hiEntry_printable : ∃ text, dumps none hiEntry = .ok text := ⟨_, rfl⟩

/-- A request for "hi", and nothing fails. -/
theorem all_or_nothing_exactly_hi : AllOrNothing noJson emptyUnit (hiRequest {}) hiMembers := by
  refine (all_or_nothing_exactly rfl).mpr ?_
  intro entry made
  obtain rfl : hiEntry = entry := Option.some.inj ((entryFor_hi {}).symm.trans made)
  obtain ⟨text, printed_text⟩ := hiEntry_printable
  exact ⟨⟨rfl, .inl rfl, nofun, text, printed_text, trivial⟩, rfl⟩

/-- The log cannot be opened: the request succeeds all the same. -/
theorem half_done : ¬ ∀ (python : Python) (server : Server) (request : Request) (members : List (Str × Json)),
    request.data = .obj members → AllOrNothing python server request members := by
  intro claim
  obtain ⟨both, -⟩ := claim noJson emptyUnit (hiRequest { append := .openFails }) hiMembers rfl
  obtain ⟨batch, id, ⟨content, text, -, -, written⟩, -⟩ := both (succeeded_finish_iff.mpr ⟨rfl, hiEntry_printable⟩)
  have untouched : (sendMessage noJson emptyUnit (hiRequest { append := .openFails })).1.disk logPath = none := rfl
  rw [untouched] at written
  cases written

end Hde.Outcomes
