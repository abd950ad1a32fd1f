import Hde.Requests

/-!
The checksum of the message log. `main` computes it when it is loaded and
`get_checksum` keeps answering with that value. An accepted request makes it wrong,
unless the log was there and its new line takes the register of the checksum back to
where it was (`published_exactly`, `checksum_stale`). Nor does a unit learn its user from
that checksum (`from_user_none`).
-/
namespace Hde.Published
open Hde.Text Hde.Unicode Hde.Numerals Hde.Checksums Hde.Lines Hde.JsonText Hde.Files Hde.Log Hde.Ids Hde.Requests Hde.Runs
open Hde.Frames (bar colon)

def polynomial : Nat := 0xEDB88320

/-- The loop of `file_crc32` over the blocks of a file. -/
def crcBlocks (crc : Nat) (rest : List UInt8) : Nat :=
  let chunk := rest.take 4096
  if _ : chunk = [] then crc
  else crcBlocks (chunk.foldl (crcStep polynomial) crc) (rest.drop 4096)
termination_by rest.length
decreasing_by
  next some_bytes =>
    have unread : rest ≠ [] := by
      rintro rfl
      exact some_bytes rfl
    have longer := List.length_pos_iff.mpr unread
    simp only [List.length_drop]
    omega

def fileNotFound : Str := lit "FILE_NOT_FOUND"

/-- `Parser.file_crc32`. -/
def fileCrc32 (disk : Disk) (path : Str) : Except Failure Str :=
  match disk path with
  | none => .ok fileNotFound
  | some .directory => .error .osError
  | some (.file content) => .ok (formatX 8 (crcBlocks 0 content &&& 0xFFFFFFFF))

/-- `Parser.updated_messages_checksum`. -/
def updatedMessagesChecksum (disk : Disk) (path : Str) : Except Failure Str :=
  if disk path = none then .ok fileNotFound else fileCrc32 disk path

/-- The modules being loaded: `parser` makes its directory and `main` computes the
    checksum. -/
def startUp (disk : Disk) : Except Failure Server := do
  let messages ← makedirs disk (lit "messages")
  let saves ← makedirs messages (lit "messages/saves")
  return { disk := saves, checksum := ← updatedMessagesChecksum saves logPath, queued := [] }

/-- `get_checksum`. -/
def getChecksum (server : Server) : Except Failure Reply :=
  jsonify (.obj [(lit "checksum", .str server.checksum)]) 200

/-- What `get_checksum` returns is the checksum of the log as it is. -/
def UpToDate (server : Server) : Prop :=
  ∃ current, updatedMessagesChecksum server.disk logPath = .ok current ∧
    getChecksum server = .ok ⟨.obj [(lit "checksum", .str current)], 200⟩

/-- The operating system lets the request write its line. -/
def WritesSucceed (_ : Server) (request : Request) : Prop := request.io = {}

/-- The register of the checksum after the bytes of a file. -/
def register (content : List UInt8) : Nat := content.foldl (crcStep polynomial) 0

/-- The line of an entry in the log. -/
def logLine (entry : Json) : List UInt8 :=
  match dumps none entry with
  | .ok text => bytes (text ++ [lineFeed])
  | .error _ => []

/-- If the request makes an entry, then the log is there and the entry's line takes
    the register back to where it was. -/
def Harmless (python : Python) (server : Server) (request : Request) : Prop :=
  ∀ entry, entryFor python server request = some entry →
    ∃ content, server.disk logPath = some (.file content) ∧ register (content ++ logLine entry) = register content

/-! ### The checksum of a file -/

theorem crcBlocks_eq (crc : Nat) (content : List UInt8) : crcBlocks crc content = content.foldl (crcStep polynomial) crc := by
  induction crc, content using crcBlocks.induct with
  | case1 crc rest chunk empty =>
    have nothing : rest = [] := by simpa [chunk] using empty
    subst nothing
    simp [crcBlocks]
  | case2 crc rest chunk some_bytes ih =>
    rw [crcBlocks, dif_neg some_bytes, ih, ← List.foldl_append, List.take_append_drop]

theorem register_lt (content : List UInt8) : register content < 2 ^ 32 :=
  foldl_crcStep_lt (by decide) (by decide) (by decide) content

theorem fileCrc32_register {disk : Disk} {path : Str} {content : List UInt8}
    (found : disk path = some (.file content)) : fileCrc32 disk path = .ok (formatX 8 (register content)) := by
  have mask : (0xFFFFFFFF : Nat) = 2 ^ 32 - 1 := by decide
  have whole : crcBlocks 0 content &&& 0xFFFFFFFF = register content := by
    rw [crcBlocks_eq, mask, Nat.and_two_pow_sub_one_eq_mod]
    exact Nat.mod_eq_of_lt (register_lt content)
  simp [fileCrc32, found, whole]

theorem fileCrc32_file {disk : Disk} {path : Str} {content : List UInt8} (found : disk path = some (.file content)) :
    updatedMessagesChecksum disk path = .ok (formatX 8 (register content)) := by
  simp [updatedMessagesChecksum, fileCrc32_register found, found]

theorem updated_absent {disk : Disk} {path : Str} (nothing : disk path = none) :
    updatedMessagesChecksum disk path = .ok fileNotFound := by
  simp [updatedMessagesChecksum, nothing]

theorem formatX_ne_fileNotFound (n : Nat) : formatX 8 n ≠ fileNotFound := by
  intro same
  have member : CodePoint.ofChar '_' ∈ formatX 8 n := by
    rw [same]
    decide
  exact absurd (formatX_hex _ member) (by decide)

theorem upToDate_iff (server : Server) :
    UpToDate server ↔ updatedMessagesChecksum server.disk logPath = .ok server.checksum := by
  have answer : getChecksum server = .ok ⟨.obj [(lit "checksum", .str server.checksum)], 200⟩ := rfl
  simp [UpToDate, answer]

/-! ### What requests do to the log -/

variable {python : Python} {server after : Server} {request : Request} {reply : Except Failure Reply}

/-- Whether there is a log or not, an entry's line comes at its end. -/
theorem appendLine_log {disk : Disk} {content : List UInt8} (opened : openAppend disk logPath = .ok content)
    (entry : Json) : appendLine .succeeds disk entry logPath = some (.file (content ++ logLine entry)) := by
  unfold logLine
  cases text : dumps none entry with
  | error e => simp [appendLine, opened, text]
  | ok document =>
    have line : Utf8.encode (document ++ [lineFeed]) = .ok (bytes (document ++ [lineFeed])) :=
      encode_printed (printed text) (by decide)
    simp only [appendLine, opened, text, line, write_self]

/-- The directory of the messages is there, and the log is no directory. -/
structure Ready (server : Server) : Prop where
  messages : server.disk (lit "messages") = some .directory
  log : server.disk logPath ≠ some .directory

theorem startUp_ready {disk : Disk} (started : startUp disk = .ok server) : Ready server ∧ UpToDate server := by
  obtain ⟨messages, made, rest⟩ := ok_of_bind started
  obtain ⟨saves, more, last⟩ := ok_of_bind rest
  obtain ⟨checksum, sum, same⟩ := ok_of_bind last
  cases same
  refine ⟨⟨?_, ?_⟩, (upToDate_iff _).mpr sum⟩
  · exact (makedirs_of_ne more (by decide)).trans (makedirs_self made)
  · intro directory
    have there : saves logPath = some .directory := directory
    simp [updatedMessagesChecksum, fileCrc32, there] at sum

theorem save_ready (ready : Ready server) (entry : Json) :
    saveMessageManually {} server.disk entry = .ok (appendLine .succeeds server.disk entry) := by
  have made : makedirs server.disk (lit "messages") = .ok server.disk := by simp [makedirs, ready.messages]
  simp only [saveMessageManually, not_true_eq_false, if_false]
  rw [made]
  rfl

/-- A request that may write changes nothing or appends the line of its entry. -/
theorem handled_ready (ready : Ready server) (allowed : request.io = {})
    (done : Handled python server request after reply) :
    (entryFor python server request = none ∧ after = server) ∨
      ∃ entry, entryFor python server request = some entry ∧
        after = { server.queueMessage entry with disk := appendLine .succeeds server.disk entry } := by
  cases done with
  | refused nothing => exact .inl ⟨nothing, rfl⟩
  | failed made unsaved =>
    rw [allowed, save_ready ready] at unsaved
    cases unsaved
  | saved made saved =>
    rw [allowed, save_ready ready] at saved
    obtain rfl := Except.ok.inj saved
    exact .inr ⟨_, made, rfl⟩

theorem Ready.step (ready : Ready server) (allowed : request.io = {})
    (done : Handled python server request after reply) : Ready after := by
  rcases handled_ready ready allowed done with ⟨-, rfl⟩ | ⟨entry, -, rfl⟩
  · exact ready
  · rcases appendLine_cases .succeeds server.disk entry with same | ⟨content, written⟩
    · exact ⟨by simpa [same] using ready.messages, by simpa [same] using ready.log⟩
    · refine ⟨?_, by simp [written]⟩
      simpa [written, write_of_ne _ _ (by decide : lit "messages" ≠ logPath)] using ready.messages

/-- After a request the published checksum is right exactly when it was harmless. -/
theorem upToDate_step (ready : Ready server) (upToDate : UpToDate server) (allowed : request.io = {})
    (done : Handled python server request after reply) : UpToDate after ↔ Harmless python server request := by
  rcases handled_ready ready allowed done with ⟨nothing, rfl⟩ | ⟨entry, made, rfl⟩
  · simp [Harmless, nothing, upToDate]
  · rw [upToDate_iff] at upToDate ⊢
    cases log : server.disk logPath with
    | none =>
      have opened : openAppend server.disk logPath = .ok [] := by simp [openAppend, log]
      have written := fileCrc32_file (appendLine_log opened entry)
      rw [updated_absent log] at upToDate
      have stale : ¬ Harmless python server request := fun harmless => by
        obtain ⟨content, there, -⟩ := harmless entry made
        rw [log] at there
        cases there
      refine iff_of_false ?_ stale
      simp only [written, Server.queueMessage, ← Except.ok.inj upToDate, Except.ok.injEq]
      exact formatX_ne_fileNotFound _
    | some node =>
      cases node with
      | directory => exact absurd log ready.log
      | file content =>
        have opened : openAppend server.disk logPath = .ok content := by simp [openAppend, log]
        have written := fileCrc32_file (appendLine_log opened entry)
        rw [fileCrc32_file log] at upToDate
        simp only [written, Server.queueMessage, ← Except.ok.inj upToDate, Except.ok.injEq,
          (formatX_injective 8).eq_iff, Harmless, made, Option.some.injEq, log, Node.file.injEq]
        simp

theorem upToDate_run {disk : Disk} {replies : List (Except Failure Reply)} {s : Server}
    (started : startUp disk = .ok server)
    (run : Run (step python) (fun s request => WritesSucceed s request ∧ Harmless python s request) server replies s) :
    Ready s ∧ UpToDate s := by
  refine run.invariant (fun _ s => Ready s ∧ UpToDate s) (startUp_ready started) ?_
  rintro _ s request t reply ⟨ready, upToDate⟩ ⟨allowed, harmless⟩ now
  have done := step_handled now
  exact ⟨ready.step allowed done, (upToDate_step ready upToDate allowed done).mpr harmless⟩

theorem ready_run {disk : Disk} {replies : List (Except Failure Reply)} {s : Server}
    (started : startUp disk = .ok server) (run : Run (step python) WritesSucceed server replies s) : Ready s := by
  refine run.invariant (fun _ s => Ready s) (startUp_ready started).1 ?_
  rintro _ s request t reply ready allowed now
  exact ready.step allowed (step_handled now)

private def plainPython : Python := ⟨fun _ => .error .jsonDecodeError, fun _ => .ok 0⟩

private def noteRequest : Request where
  data := .obj [(lit "from", .str (lit "n")), (lit "message", .str (lit "m")), (lit "checksum", .str (lit "x"))]

/-- On an empty disk there is no log, and the request makes an entry. -/
private theorem startUp_empty : ∃ server entry, startUp (fun _ => none) = .ok server ∧ server.disk logPath = none ∧
    entryFor plainPython server noteRequest = some entry := ⟨_, _, rfl, rfl, rfl⟩

/-- Without a log the checksum stays "FILE_NOT_FOUND" when a request has made one. -/
theorem checksum_stale : ¬ ∀ (python : Python) (disk : Disk) (server s : Server) (replies : List (Except Failure Reply)),
    startUp disk = .ok server → Run (step python) WritesSucceed server replies s → UpToDate s := by
  intro claim
  obtain ⟨server, entry, started, nothing, made⟩ := startUp_empty
  obtain ⟨ready, upToDate⟩ := startUp_ready started
  have allowed : WritesSucceed server noteRequest := rfl
  have after := claim plainPython _ server _ _ started (.one allowed rfl)
  have done := handled plainPython server noteRequest
  obtain ⟨content, there, -⟩ := (upToDate_step ready upToDate allowed done).mp after entry made
  rw [nothing] at there
  cases there

/-- The published checksum is right in every state of a run whose requests are all
    harmless, and a request after which it is still right was harmless. -/
theorem published_exactly (python : Python) {disk : Disk} {server : Server} (started : startUp disk = .ok server) :
    (∀ (replies : List (Except Failure Reply)) (s : Server),
      Run (step python) (fun s request => WritesSucceed s request ∧ Harmless python s request) server replies s →
      UpToDate s) ∧
    ∀ (replies : List (Except Failure Reply)) (s t : Server) (request : Request) (reply : Except Failure Reply),
      Run (step python) WritesSucceed server replies s → UpToDate s → WritesSucceed s request →
      step python s request = some (t, reply) → UpToDate t → Harmless python s request := by
  refine ⟨fun replies s run => (upToDate_run started run).2, ?_⟩
  intro replies s t request reply run upToDate allowed now after
  exact (upToDate_step (ready_run started run) upToDate allowed (step_handled now)).mp after

/-- A log whose checksum the line of the request does not change, and no log. -/
theorem published_exactly_note :
    let log : List UInt8 := [198, 81, 80, 231]
    let disk : Disk := fun path => if path = logPath then some (.file log) else none
    (∃ server s replies, startUp disk = .ok server ∧ s.queued ≠ [] ∧
      Run (step plainPython) WritesSucceed server replies s ∧ UpToDate s) ∧
    ∃ server s replies, startUp (fun _ => none) = .ok server ∧ Run (step plainPython) WritesSucceed server replies s ∧
      ¬ UpToDate s := by
  intro log disk
  constructor
  · obtain ⟨server, started, there, made⟩ : ∃ server, startUp disk = .ok server ∧
        server.disk logPath = some (.file log) ∧ entryFor plainPython server noteRequest =
          some (newEntry (.str (lit "n")) 0 1 1 (.str (lit "m"))) := ⟨_, rfl, rfl, rfl⟩
    have same : register (log ++ logLine (newEntry (.str (lit "n")) 0 1 1 (.str (lit "m")))) = register log := by
      decide +kernel
    have harmless : Harmless plainPython server noteRequest := fun entry makes => by
      obtain rfl := Option.some.inj (made.symm.trans makes)
      exact ⟨log, there, same⟩
    have allowed : WritesSucceed server noteRequest := rfl
    refine ⟨server, (sendMessage plainPython server noteRequest).1, _, started, ?_, .one allowed rfl,
      (published_exactly plainPython started).1 _ _ (.one ⟨allowed, harmless⟩ rfl)⟩
    obtain ⟨refused, -⟩ | ⟨entry, -, same⟩ :=
      handled_ready (startUp_ready started).1 allowed (handled plainPython server noteRequest)
    · rw [made] at refused
      cases refused
    · rw [congrArg Server.queued same]
      exact List.append_ne_nil_of_right_ne_nil _ (List.cons_ne_nil entry [])
  · obtain ⟨server, entry, started, nothing, made⟩ := startUp_empty
    have allowed : WritesSucceed server noteRequest := rfl
    refine ⟨server, (sendMessage plainPython server noteRequest).1, _, started, .one allowed rfl, ?_⟩
    intro upToDate
    obtain ⟨content, there, -⟩ := (published_exactly plainPython started).2 [] server _ noteRequest _ .nil
      (startUp_ready started).2 allowed rfl upToDate entry made
    rw [nothing] at there
    cases there

/-! ### The user of the unit -/

/-- `Parser.parse_username`. -/
def parseUsername (checksum : Str) : Option Str :=
  if checksum = [] ∨ bar ∉ checksum then none
  else
    ((checksum.splitOn bar).find? fun part => (lit "user:").isPrefixOf part).map fun part =>
      strip (partition colon part).2

/-- What the docstring of `parse_username` shows: a user, a checksum and perhaps more. -/
theorem parseUsername_written {name : Str} (unbarred : bar ∉ name) (more : Str) :
    parseUsername (lit "user:" ++ name ++ lit "|checksum:" ++ more) = some (strip name) := by
  have clean : bar ∉ lit "user:" ++ name := by
    rw [List.mem_append, not_or]
    exact ⟨by decide, unbarred⟩
  have text : lit "user:" ++ name ++ lit "|checksum:" ++ more =
      (lit "user:" ++ name) ++ bar :: (lit "checksum:" ++ more) := by
    rw [List.append_assoc]
    rfl
  have absent : colon ∉ lit "user" := by decide
  have user : partition colon (lit "user:" ++ name) = (lit "user", name) := partition_append absent name
  have found : ((lit "user:" ++ name ++ bar :: (lit "checksum:" ++ more)).splitOn bar).find?
      (fun part => (lit "user:").isPrefixOf part) = some (lit "user:" ++ name) := by
    rw [List.splitOn_append_cons_self, List.splitOn_eq_singleton clean]
    exact List.find?_cons_of_pos (by simp)
  rw [text, parseUsername, if_neg (by simp), found, Option.map_some, user]

/-- `from_user` of a server that starts: its checksum names no user. -/
theorem from_user_none {disk : Disk} (started : startUp disk = .ok server) : parseUsername server.checksum = none := by
  obtain ⟨messages, made, rest⟩ := ok_of_bind started
  obtain ⟨saves, more, last⟩ := ok_of_bind rest
  obtain ⟨checksum, sum, same⟩ := ok_of_bind last
  cases same
  have unbarred : bar ∉ checksum := by
    unfold updatedMessagesChecksum fileCrc32 at sum
    split at sum
    · cases sum
      decide
    · split at sum <;> cases sum
      · decide
      · exact fun inside => absurd (formatX_hex _ inside) (by decide)
  exact if_pos (.inr unbarred)

end Hde.Published
