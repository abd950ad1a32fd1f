import Hde.Listing
import Hde.Tasks

/-!
Requests to `POST /api/send` whose handlers run at the same time. A handler is cut where
it reads or writes what others may write (`advance`), and the handlers under way take
these steps in any order. A request is decided when no step of another handler can change
its reply; the replies and the files are those of the requests handled one after the
other, in the order in which they were decided (`sends_linearizable`).
-/
namespace Hde.Sending
open Hde.Text Hde.Utf16 Hde.Numerals Hde.Lines Hde.JsonText Hde.Rereading Hde.Files Hde.Loading Hde.Bodies Hde.Page
  Hde.Log Hde.Ids Hde.Requests Hde.Published Hde.Tasks Hde.Runs Hde.Clients Hde.Listing
open Hde.Engine (Mode)

/-! ### The handlers -/

/-- What the handler of a request does next. -/
inductive Stage
  | check
  | batchId (fromField message : Json)
  | chunkId (fromField message : Json) (batch : Int)
  | queue (entry : Json)
  | makedirs (entry : Json)
  | openLog (entry : Json)
  | writeLine (entry : Json)

inductive Handler
  | working (request : Request) (stage : Stage)
  | replying (request : Request) (reply : Except Failure Reply)

/-- The bytes of an entry's line that reach the log once it is open. -/
def lineOf (append : Append) (entry : Json) : List UInt8 :=
  match dumps none entry with
  | .error _ => []
  | .ok text =>
    match Utf8.encode (text ++ [lineFeed]) with
    | .error _ => []
    | .ok line =>
      match append with
      | .writeFails written => line.take written
      | _ => line

/-- `f.write`: the file was opened to append, so that the line comes after what is there
    by now. -/
def writeLine (append : Append) (disk : Disk) (entry : Json) : Disk :=
  match openAppend disk logPath with
  | .error _ => disk
  | .ok content => write disk logPath (content ++ lineOf append entry)

/-- A step of `send_message`. -/
def advance (python : Python) (server : Server) (request : Request) : Stage → Server × Handler
  | .check =>
    match request.data with
    | .obj members =>
      let fromField := get members (lit "from")
      let message := get members (lit "message")
      let checksum := get members (lit "checksum")
      if ¬ fromField.truthy ∨ ¬ message.truthy ∨ ¬ checksum.truthy then (server, .replying request missingFields)
      else (server, .working request (.batchId fromField message))
    | value => (server, .replying request (.error (noAttribute value (lit "get"))))
  | .batchId fromField message =>
    match generateBatchId python server.disk with
    | .error e => (server, .replying request (.error e))
    | .ok batch => (server, .working request (.chunkId fromField message batch))
  | .chunkId fromField message batch =>
    match generateChunkId python server.disk with
    | .error e => (server, .replying request (.error e))
    | .ok id =>
      let entry := newEntry fromField request.now batch id message
      match print entry with
      | .error e => (server, .replying request (.error e))
      | .ok () => (server, .working request (.queue entry))
  | .queue entry => (server.queueMessage entry, .working request (.makedirs entry))
  | .makedirs entry =>
    if ¬ request.io.makedirs then (server, .replying request (.error .osError))
    else
      match Files.makedirs server.disk (lit "messages") with
      | .error e => (server, .replying request (.error e))
      | .ok disk => ({ server with disk := disk }, .working request (.openLog entry))
  | .openLog entry =>
    match request.io.append, openAppend server.disk logPath with
    | .openFails, _ => (server, .replying request (finish request.message entry))
    | _, .error _ => (server, .replying request (finish request.message entry))
    | _, .ok content =>
      ({ server with disk := write server.disk logPath content }, .working request (.writeLine entry))
  | .writeLine entry =>
    ({ server with disk := writeLine request.io.append server.disk entry },
      .replying request (finish request.message entry))

/-- What happens in a step: a request comes in, or its reply is decided. -/
inductive Note
  | received (request : Request)
  | decided (request : Request) (reply : Except Failure Reply)
  | nothing

abbrev Pool := Tasks.Pool Server Handler (Request × Except Failure Reply)

def Handler.note : Handler → Note
  | .working _ _ => .nothing
  | .replying request reply => .decided request reply

def work (python : Python) (server : Server) :
    Handler → Effect Server Handler (Request × Except Failure Reply) × Note
  | .working request stage =>
    let next := advance python server request stage
    (⟨next.1, [next.2], []⟩, next.2.note)
  | .replying request reply => (⟨server, [], [(request, reply)]⟩, .nothing)

inductive Event
  | receive (request : Request)
  | run (i : Nat)

def step (python : Python) (pool : Pool) : Event → Option (Pool × Note)
  | .receive request => some ({ pool with tasks := pool.tasks ++ [.working request .check] }, .received request)
  | .run i => pool.tasks[i]?.map fun handler =>
    let (effect, note) := work python pool.state handler
    ((pool.without i).apply effect, note)

def opened (server : Server) : Pool := ⟨server, [], []⟩

def receipt : Note → Option Request
  | .received request => some request
  | _ => none

def decision : Note → Option (Request × Except Failure Reply)
  | .decided request reply => some (request, reply)
  | _ => none

/-- A request and its reply, handled at once. -/
def Serves (python : Python) (server : Server) (served : Request × Except Failure Reply) (after : Server) : Prop :=
  sendMessage python server served.1 = (after, served.2)

/-- The request of a handler is not decided yet. -/
def undecided : Handler → List Request
  | .working request _ => [request]
  | .replying _ _ => []

/-- A handler has a reply to give. -/
def promised : Handler → List (Request × Except Failure Reply)
  | .working _ _ => []
  | .replying request reply => [(request, reply)]

/-- A handler has queued its entry and may still save it. -/
def unsaved : Handler → List Json
  | .working _ (.makedirs entry) | .working _ (.openLog entry) | .working _ (.writeLine entry) => [entry]
  | _ => []

/-! ### What a step does -/

/-- The request has what an entry takes. -/
def Complete (request : Request) (fromField message : Json) : Prop :=
  ∃ members, request.data = .obj members ∧ ((get members (lit "from")).truthy ∧
    (get members (lit "message")).truthy ∧ (get members (lit "checksum")).truthy) ∧
      fromField = get members (lit "from") ∧ message = get members (lit "message")

/-- A step of a handler. -/
inductive Advanced (python : Python) (server : Server) (request : Request) : Stage → Server → Handler → Prop
  | refused {reply : Except Failure Reply} (unsent : ∀ s, sendMessage python s request = (s, reply)) :
      Advanced python server request .check server (.replying request reply)
  | complete {fromField message : Json} (fields : Complete request fromField message) :
      Advanced python server request .check server (.working request (.batchId fromField message))
  | noBatch {fromField message : Json} {e : Failure} (failed : generateBatchId python server.disk = .error e) :
      Advanced python server request (.batchId fromField message) server (.replying request (.error e))
  | batch {fromField message : Json} {batch : Int} (ok : generateBatchId python server.disk = .ok batch) :
      Advanced python server request (.batchId fromField message) server
        (.working request (.chunkId fromField message batch))
  | noChunk {fromField message : Json} {batch : Int} {e : Failure}
      (failed : generateChunkId python server.disk = .error e) :
      Advanced python server request (.chunkId fromField message batch) server (.replying request (.error e))
  | unprintable {fromField message : Json} {batch id : Int} {e : Failure}
      (ok : generateChunkId python server.disk = .ok id)
      (failed : print (newEntry fromField request.now batch id message) = .error e) :
      Advanced python server request (.chunkId fromField message batch) server (.replying request (.error e))
  | chunk {fromField message : Json} {batch id : Int} (ok : generateChunkId python server.disk = .ok id)
      (printed : print (newEntry fromField request.now batch id message) = .ok ()) :
      Advanced python server request (.chunkId fromField message batch) server
        (.working request (.queue (newEntry fromField request.now batch id message)))
  | queued {entry : Json} :
      Advanced python server request (.queue entry) (server.queueMessage entry) (.working request (.makedirs entry))
  | denied {entry : Json} (failed : request.io.makedirs = false ∨ ∃ content, server.disk (lit "messages") =
        some (.file content)) :
      Advanced python server request (.makedirs entry) server (.replying request (.error .osError))
  | made {entry : Json} {disk : Disk} (permitted : request.io.makedirs = true)
      (ok : Files.makedirs server.disk (lit "messages") = .ok disk) :
      Advanced python server request (.makedirs entry) { server with disk := disk } (.working request (.openLog entry))
  | closed {entry : Json} (failed : request.io.append = .openFails ∨ server.disk logPath = some .directory) :
      Advanced python server request (.openLog entry) server (.replying request (finish request.message entry))
  | opened {entry : Json} {content : List UInt8} (permitted : request.io.append ≠ .openFails)
      (found : openAppend server.disk logPath = .ok content) :
      Advanced python server request (.openLog entry) { server with disk := write server.disk logPath content }
        (.working request (.writeLine entry))
  | written {entry : Json} :
      Advanced python server request (.writeLine entry)
        { server with disk := writeLine request.io.append server.disk entry }
        (.replying request (finish request.message entry))

variable {python : Python} {server after : Server} {request : Request} {disk other : Disk} {entry : Json}

theorem openAppend_error {path : Str} {e : Failure} (failed : openAppend disk path = .error e) :
    disk path = some .directory := by
  unfold openAppend at failed
  split at failed
  · cases failed
  · assumption
  · cases failed

theorem makedirs_error {path : Str} {e : Failure} (failed : Files.makedirs disk path = .error e) :
    e = .osError ∧ ∃ content, disk path = some (.file content) := by
  unfold Files.makedirs at failed
  split at failed
  · cases failed
  · cases failed
  · next content there =>
    cases failed
    exact ⟨rfl, content, there⟩

theorem advance_advanced (python : Python) (server : Server) (request : Request) (stage : Stage) :
    Advanced python server request stage (advance python server request stage).1
      (advance python server request stage).2 := by
  cases stage with
  | check =>
    simp only [advance]
    split
    · next members body =>
      split
      · next incomplete => exact .refused fun s => by simp only [sendMessage, body, if_pos incomplete]
      · next complete =>
        refine .complete ⟨members, body, ?_, rfl, rfl⟩
        simpa only [← not_and_or, not_not] using complete
    · next other =>
      refine .refused fun s => ?_
      unfold sendMessage
      split
      · exact absurd ‹_› (other _)
      · rfl
  | batchId =>
    simp only [advance]
    split
    · exact .noBatch ‹_›
    · exact .batch ‹_›
  | chunkId =>
    simp only [advance]
    split
    · exact .noChunk ‹_›
    · next ok =>
      split
      · exact .unprintable ok ‹_›
      · exact .chunk ok ‹_›
  | queue => exact .queued
  | makedirs =>
    simp only [advance]
    split
    · exact .denied (.inl (by simpa using ‹¬ request.io.makedirs = true›))
    · next permitted =>
      split
      · next failed =>
        obtain ⟨rfl, taken⟩ := makedirs_error failed
        exact .denied (.inr taken)
      · exact .made (not_not.mp permitted) ‹_›
  | openLog =>
    simp only [advance]
    split
    · exact .closed (.inl ‹_›)
    · exact .closed (.inr (openAppend_error ‹_›))
    · exact .opened ‹_› ‹_›
  | writeLine => exact .written

/-! ### The reply of a request that is handled at once -/

theorem entryFor_complete {fromField message : Json} (fields : Complete request fromField message) {batch id : Int}
    (ids : generateIds python server.disk = .ok (batch, id))
    (printed : print (newEntry fromField request.now batch id message) = .ok ()) :
    entryFor python server request = some (newEntry fromField request.now batch id message) := by
  obtain ⟨members, body, complete, rfl, rfl⟩ := fields
  simp only [entryFor, body, if_pos complete, ids, printed]

theorem serves_failed_ids {fromField message : Json} (fields : Complete request fromField message) {e : Failure}
    (failed : generateIds python server.disk = .error e) :
    Serves python server (request, .error e) server := by
  obtain ⟨members, body, ⟨sender, text, sum⟩, -, -⟩ := fields
  simp [Serves, sendMessage, body, sender, text, sum, failed]

theorem serves_unprintable {fromField message : Json} (fields : Complete request fromField message) {batch id : Int}
    (ids : generateIds python server.disk = .ok (batch, id)) {e : Failure}
    (failed : print (newEntry fromField request.now batch id message) = .error e) :
    Serves python server (request, .error e) server := by
  obtain ⟨members, body, ⟨sender, text, sum⟩, rfl, rfl⟩ := fields
  simp [Serves, sendMessage, body, sender, text, sum, ids, failed]

theorem serves_unsaved (made : entryFor python server request = some entry) {e : Failure}
    (unsaved : saveMessageManually request.io server.disk entry = .error e) :
    Serves python server (request, .error e) (server.queueMessage entry) := by
  have done := handled python server request
  unfold Serves
  generalize sendMessage python server request = outcome at done
  obtain ⟨after, reply⟩ := outcome
  cases done with
  | refused nothing => simp [made] at nothing
  | saved own saved => simp [Option.some.inj (made.symm.trans own) ▸ saved] at unsaved
  | failed own failed =>
    cases made.symm.trans own
    cases unsaved.symm.trans failed
    rfl

theorem serves_saved (made : entryFor python server request = some entry)
    (saved : saveMessageManually request.io server.disk entry = .ok disk) :
    Serves python server (request, finish request.message entry) { server.queueMessage entry with disk := disk } := by
  have done := handled python server request
  unfold Serves
  generalize sendMessage python server request = outcome at done
  obtain ⟨after, reply⟩ := outcome
  cases done with
  | refused nothing => simp [made] at nothing
  | failed own unsaved => simp [Option.some.inj (made.symm.trans own) ▸ unsaved] at saved
  | saved own other =>
    cases made.symm.trans own
    cases saved.symm.trans other
    rfl

/-- Opening and then writing the line is what appending it does. -/
theorem appendLine_opened {append : Append} (permitted : append ≠ .openFails) {content : List UInt8}
    (found : openAppend disk logPath = .ok content) :
    appendLine append disk entry = write disk logPath (content ++ lineOf append entry) := by
  unfold appendLine lineOf
  rw [found]
  cases append with
  | openFails => exact absurd rfl permitted
  | succeeds | writeFails =>
    cases dumps none entry with
    | error e => simp
    | ok text => cases encoded : Utf8.encode (text ++ [lineFeed]) <;> simp [encoded]

theorem appendLine_closed {append : Append} (failed : append = .openFails ∨ disk logPath = some .directory) :
    appendLine append disk entry = disk := by
  rcases failed with rfl | taken
  · simp [appendLine]
  · have refused : openAppend disk logPath = .error .osError := by simp [openAppend, taken]
    cases append <;> simp [appendLine, refused]

theorem save_denied (failed : request.io.makedirs = false ∨ ∃ content, disk (lit "messages") = some (.file content)) :
    saveMessageManually request.io disk entry = .error .osError := by
  unfold saveMessageManually
  by_cases permitted : request.io.makedirs
  · obtain ⟨content, taken⟩ := failed.resolve_left (by simp [permitted])
    simp [permitted, makedirs, taken]
  · simp [permitted]
    rfl

theorem save_made {io : Io} {made : Disk} (permitted : io.makedirs = true)
    (ok : makedirs disk (lit "messages") = .ok made) :
    saveMessageManually io disk entry = .ok (appendLine io.append made entry) := by
  simp only [saveMessageManually, permitted, not_true_eq_false, if_false, ok]
  rfl

/-! ### Handlers that run at the same time -/

/-- What the steps of a handler leave of the files. -/
structure Grown (disk after : Disk) : Prop where
  others : ∀ path, path ≠ lit "messages" → path ≠ logPath → after path = disk path
  directory : disk (lit "messages") = some .directory → after (lit "messages") = some .directory
  log : (∃ content, disk logPath = some (.file content)) → ∃ content, after logPath = some (.file content)

/-- What a handler relies on, whatever the others do. -/
def Handler.Relies (python : Python) (server : Server) : Handler → Prop
  | .working _ .check | .replying _ _ => True
  | .working request (.batchId fromField message) => Complete request fromField message
  | .working request (.chunkId fromField message batch) =>
    Complete request fromField message ∧ generateBatchId python server.disk = .ok batch
  | .working request (.queue entry) | .working request (.makedirs entry) =>
    entryFor python server request = some entry
  | .working request (.openLog entry) =>
    entryFor python server request = some entry ∧ request.io.makedirs = true ∧
      server.disk (lit "messages") = some .directory
  | .working request (.writeLine entry) =>
    (entryFor python server request = some entry ∧ request.io.makedirs = true ∧
      server.disk (lit "messages") = some .directory) ∧ request.io.append ≠ .openFails ∧
      ∃ content, server.disk logPath = some (.file content)

def MadeDirectory : Handler → Prop
  | .working _ (.openLog _) | .working _ (.writeLine _) => True
  | _ => False

def OpenedLog : Handler → Prop
  | .working _ (.writeLine _) => True
  | _ => False

theorem made_of_opened {handler : Handler} (opened : OpenedLog handler) : MadeDirectory handler := by
  unfold OpenedLog at opened
  split at opened
  · trivial
  · cases opened

theorem generateBatchId_congr (same : other toSendPath = disk toSendPath) :
    generateBatchId python other = generateBatchId python disk := by
  simp only [generateBatchId, lastBatchId, loadJson_congr python same]

theorem entryFor_congr (same : after.disk toSendPath = server.disk toSendPath) :
    entryFor python after request = entryFor python server request := by
  simp only [entryFor, Clients.generateIds_congr same]

theorem Grown.toSend (grown : Grown disk other) : other toSendPath = disk toSendPath :=
  grown.others _ (by decide) (by decide)

theorem Handler.Relies.grown {handler : Handler} (relies : handler.Relies python server)
    (grown : Grown server.disk after.disk) : handler.Relies python after := by
  have same {request : Request} : entryFor python after request = entryFor python server request :=
    entryFor_congr grown.toSend
  cases handler with
  | replying => trivial
  | working request stage =>
    cases stage with
    | check => trivial
    | batchId => exact relies
    | chunkId => exact ⟨relies.1, (generateBatchId_congr grown.toSend).trans relies.2⟩
    | queue | makedirs => exact same.trans relies
    | openLog => exact ⟨same.trans relies.1, relies.2.1, grown.directory relies.2.2⟩
    | writeLine =>
      exact ⟨⟨same.trans relies.1.1, relies.1.2.1, grown.directory relies.1.2.2⟩, relies.2.1, grown.log relies.2.2⟩

/-- The files of a server that has handled the decided requests: the directory may be
    still to be made, and the log to be created. -/
structure Behind (made created : Prop) (disk other : Disk) : Prop where
  others : ∀ path, path ≠ lit "messages" → path ≠ logPath → disk path = other path
  directory : disk (lit "messages") = other (lit "messages") ∨
    other (lit "messages") = none ∧ disk (lit "messages") = some .directory ∧ made
  log : disk logPath = other logPath ∨ other logPath = none ∧ disk logPath = some (.file []) ∧ created

variable {made created made' created' : Prop}

theorem Behind.imp (behind : Behind made created disk other) (still : made → made') (open_ : created → created') :
    Behind made' created' disk other :=
  ⟨behind.others, behind.directory.imp_right fun ⟨absent, there, held⟩ => ⟨absent, there, still held⟩,
    behind.log.imp_right fun ⟨absent, empty, held⟩ => ⟨absent, empty, open_ held⟩⟩

theorem messages_ne_log : lit "messages" ≠ logPath := by decide

/-- A server that is behind makes the directory that is there already. -/
theorem Behind.catchUp (behind : Behind made created disk other) (there : disk (lit "messages") = some .directory) :
    ∃ next, makedirs other (lit "messages") = .ok next ∧ Behind False created disk next := by
  obtain ⟨next, ok⟩ : ∃ next, makedirs other (lit "messages") = .ok next := by
    rcases behind.directory with same | ⟨absent, -⟩
    · exact ⟨other, by simp [makedirs, ← same, there]⟩
    · exact ⟨Function.update other (lit "messages") (some .directory), by simp only [makedirs, absent]⟩
  have rest : ∀ path, path ≠ lit "messages" → next path = other path := fun path => makedirs_of_ne ok
  refine ⟨next, ok, fun path messages log => ?_, .inl (there.trans (makedirs_self ok).symm), ?_⟩
  · rw [rest path messages]
    exact behind.others path messages log
  · rw [rest _ messages_ne_log.symm]
    exact behind.log

/-- A directory that was made, and a log that was created. -/
theorem Behind.makedirs (behind : Behind made created disk other) {next : Disk}
    (ok : Files.makedirs disk (lit "messages") = .ok next) {made' : Prop} (waited : made') :
    Behind made' created next other := by
  have rest : ∀ path, path ≠ lit "messages" → next path = disk path := fun path => makedirs_of_ne ok
  refine ⟨fun path messages log => (rest path messages).trans (behind.others path messages log), ?_, ?_⟩
  · rw [makedirs_self ok]
    rcases behind.directory with same | ⟨absent, -⟩
    · rw [← same]
      unfold Files.makedirs at ok
      split at ok
      · exact .inr ⟨‹_›, rfl, waited⟩
      · exact .inl (Eq.symm ‹_›)
      · cases ok
    · exact .inr ⟨absent, rfl, waited⟩
  · rw [rest _ messages_ne_log.symm]
    exact behind.log

theorem Behind.openLog (behind : Behind made created disk other) {content : List UInt8}
    (found : openAppend disk logPath = .ok content) {created' : Prop} (waited : created') :
    Behind made created' (write disk logPath content) other := by
  refine ⟨fun path messages log => (write_of_ne _ _ log).trans (behind.others path messages log), ?_, ?_⟩
  · rw [write_of_ne _ _ messages_ne_log]
    exact behind.directory
  · rw [write_self]
    unfold openAppend at found
    rcases behind.log with same | ⟨absent, empty, -⟩
    · rw [same] at found
      split at found
      · cases found
        exact .inr ⟨‹_›, rfl, waited⟩
      · cases found
      · next there =>
        cases found
        exact .inl there.symm
    · rw [empty] at found
      cases found
      exact .inr ⟨absent, rfl, waited⟩

theorem Behind.save_closed (behind : Behind made created disk other) (there : disk (lit "messages") = some .directory)
    {io : Io} (permitted : io.makedirs = true) (failed : io.append = .openFails ∨ disk logPath = some .directory)
    (entry : Json) : ∃ saved, saveMessageManually io other entry = .ok saved ∧ Behind False created disk saved := by
  obtain ⟨next, ok, caught⟩ := behind.catchUp there
  refine ⟨next, ?_, caught⟩
  rw [save_made permitted ok, appendLine_closed]
  refine failed.imp_right fun taken => ?_
  rcases caught.log with same | ⟨-, file, -⟩
  · exact same.symm.trans taken
  · rw [taken] at file
    cases file

theorem Behind.save_written (behind : Behind made created disk other)
    (there : disk (lit "messages") = some .directory) {io : Io} (permitted : io.makedirs = true)
    (opens : io.append ≠ .openFails) (file : ∃ content, disk logPath = some (.file content)) (entry : Json) :
    ∃ saved, saveMessageManually io other entry = .ok saved ∧
      Behind False False (writeLine io.append disk entry) saved := by
  obtain ⟨content, found⟩ := file
  obtain ⟨next, ok, caught⟩ := behind.catchUp there
  have own : openAppend disk logPath = .ok content := by simp only [openAppend, found]
  have opened : openAppend next logPath = .ok content := by
    rcases caught.log with same | ⟨absent, empty, -⟩
    · simp only [openAppend, ← same, found]
    · rw [found] at empty
      cases empty
      simp only [openAppend, absent]
  have line : writeLine io.append disk entry = write disk logPath (content ++ lineOf io.append entry) := by
    simp only [writeLine, own]
  refine ⟨_, save_made permitted ok, ?_⟩
  rw [appendLine_opened opens opened, line]
  refine ⟨fun path messages log => ?_, .inl ?_, .inl (by rw [write_self, write_self])⟩
  · rw [write_of_ne _ _ log, write_of_ne _ _ log]
    exact caught.others path messages log
  · rw [write_of_ne _ _ messages_ne_log, write_of_ne _ _ messages_ne_log]
    rcases caught.directory with same | ⟨-, -, never⟩
    · exact same
    · exact never.elim

/-- A server that has handled the decided requests, next to the handlers. -/
structure Follows (python : Python) (pool : Pool) (s : Server) : Prop where
  checksum : pool.state.checksum = s.checksum
  files : Behind (∃ handler ∈ pool.tasks, MadeDirectory handler) (∃ handler ∈ pool.tasks, OpenedLog handler)
    pool.state.disk s.disk
  handlers : ∀ handler ∈ pool.tasks, handler.Relies python pool.state
  queued : pool.state.queued.Perm (s.queued ++ pool.tasks.flatMap unsaved)

variable {pool : Pool} {s t : Server} {i : Nat} {handler next : Handler}
  {effect : Effect Server Handler (Request × Except Failure Reply)}

theorem Follows.toSend (follows : Follows python pool s) : s.disk toSendPath = pool.state.disk toSendPath :=
  (follows.files.others _ (by decide) (by decide)).symm

/-- After a step the others may still rely on what they did. -/
theorem Follows.handlers_step (follows : Follows python pool s) (grown : Grown pool.state.disk effect.state.disk)
    (relies : ∀ handler ∈ effect.tasks, handler.Relies python effect.state) :
    ∀ handler ∈ ((pool.without i).apply effect).tasks, handler.Relies python effect.state := by
  intro handler member
  rcases mem_tasks_step member with old | new
  · exact (follows.handlers handler old).grown grown
  · exact relies handler new

/-- What was queued stays queued, by the one server and by the other. -/
theorem Follows.queued_step (follows : Follows python pool s) (there : pool.tasks[i]? = some handler)
    (balance : (effect.state.queued ++ (s.queued ++ unsaved handler)).Perm
      (pool.state.queued ++ (t.queued ++ effect.tasks.flatMap unsaved))) :
    ((pool.without i).apply effect).state.queued.Perm
      (t.queued ++ ((pool.without i).apply effect).tasks.flatMap unsaved) := by
  classical
  show effect.state.queued.Perm _
  have passed := due_step unsaved effect there
  have before := follows.queued
  simp only [List.perm_iff_count, List.count_append] at *
  intro entry
  have := passed entry
  have := before entry
  have := balance entry
  omega

/-- A task with some property is there still, unless it is the one that ran. -/
theorem exists_step {held : Handler → Prop} (there : pool.tasks[i]? = some handler)
    (passed : held handler → ∃ next ∈ effect.tasks, held next) (before : ∃ handler ∈ pool.tasks, held handler) :
    ∃ handler ∈ ((pool.without i).apply effect).tasks, held handler := by
  obtain ⟨other, member, holds⟩ := before
  rcases mem_tasks_or there member with rfl | still
  · obtain ⟨next, new, holds⟩ := passed holds
    exact ⟨next, List.mem_append_right _ new, holds⟩
  · exact ⟨other, still, holds⟩

theorem Grown.refl (disk : Disk) : Grown disk disk := ⟨fun _ _ _ => rfl, id, id⟩

theorem grown_makedirs {made : Disk} (ok : makedirs disk (lit "messages") = .ok made) : Grown disk made where
  others _ different _ := makedirs_of_ne ok different
  directory _ := makedirs_self ok
  log := by
    rw [makedirs_of_ne ok messages_ne_log.symm]
    exact id

theorem grown_write (disk : Disk) (content : List UInt8) : Grown disk (write disk logPath content) where
  others _ _ different := write_of_ne disk content different
  directory := by
    rw [write_of_ne _ _ messages_ne_log]
    exact id
  log _ := ⟨content, write_self disk logPath content⟩

theorem grown_writeLine (append : Append) (disk : Disk) (entry : Json) : Grown disk (writeLine append disk entry) := by
  unfold writeLine
  split
  · exact .refl disk
  · exact grown_write disk _

/-- A step that decides nothing: the server that handled the decided requests waits. -/
theorem Follows.wait (follows : Follows python pool s) (there : pool.tasks[i]? = some handler) {after : Server}
    (checksum : after.checksum = pool.state.checksum) (grown : Grown pool.state.disk after.disk)
    (relies : next.Relies python after)
    (queued : (after.queued ++ unsaved handler).Perm (pool.state.queued ++ unsaved next))
    (files : Behind (∃ handler ∈ ((pool.without i).apply ⟨after, [next], []⟩).tasks, MadeDirectory handler)
      (∃ handler ∈ ((pool.without i).apply ⟨after, [next], []⟩).tasks, OpenedLog handler) after.disk s.disk) :
    Follows python ((pool.without i).apply ⟨after, [next], []⟩) s where
  checksum := checksum.trans follows.checksum
  files := files
  handlers := follows.handlers_step grown (by simpa using relies)
  queued := by
    refine follows.queued_step there ?_
    classical
    simp only [List.perm_iff_count, List.count_append, List.flatMap_cons, List.flatMap_nil, List.append_nil] at *
    intro entry
    have := queued entry
    omega

/-- A step that decides a request: the other server handles it. -/
theorem Follows.serve (follows : Follows python pool s) (there : pool.tasks[i]? = some handler)
    (after served : Server) (checksum : after.checksum = pool.state.checksum ∧ served.checksum = s.checksum)
    (grown : Grown pool.state.disk after.disk) {reply : Except Failure Reply}
    (queued : (after.queued ++ (s.queued ++ unsaved handler)).Perm (pool.state.queued ++ served.queued))
    (files : Behind (∃ other ∈ pool.tasks, MadeDirectory other ∧ ¬ MadeDirectory handler)
      (∃ other ∈ pool.tasks, OpenedLog other ∧ ¬ OpenedLog handler) after.disk served.disk) :
    Follows python ((pool.without i).apply ⟨after, [.replying request reply], []⟩) served where
  checksum := checksum.1.trans (follows.checksum.trans checksum.2.symm)
  files := by
    refine files.imp ?_ ?_
    all_goals
      rintro ⟨other, member, holds, free⟩
      exact exists_step there (fun own => absurd own free) ⟨other, member, holds⟩
  handlers := follows.handlers_step grown (by simp [Handler.Relies])
  queued := by
    refine follows.queued_step there ?_
    simpa [unsaved] using queued

/-- What a step of a handler decides, a server that handled the earlier decisions does
    at once. -/
theorem follows_advance (follows : Follows python pool s) {stage : Stage}
    (there : pool.tasks[i]? = some (.working request stage))
    (advanced : Advanced python pool.state request stage after next) :
    (decision next.note = none ∧ Follows python ((pool.without i).apply ⟨after, [next], []⟩) s) ∨
      ∃ op t, decision next.note = some op ∧ Serves python s op t ∧
        Follows python ((pool.without i).apply ⟨after, [next], []⟩) t := by
  have relies := follows.handlers _ (List.mem_of_getElem? there)
  have own : ∀ {entry}, entryFor python pool.state request = some entry → entryFor python s request = some entry :=
    fun made => (entryFor_congr follows.toSend).trans made
  -- outside of its two critical steps a handler is not waited for
  have outside (before : ¬ MadeDirectory (.working request stage)) :
      Behind (∃ other ∈ pool.tasks, MadeDirectory other ∧ ¬ MadeDirectory (.working request stage))
        (∃ other ∈ pool.tasks, OpenedLog other ∧ ¬ OpenedLog (.working request stage)) pool.state.disk s.disk := by
    refine follows.files.imp ?_ ?_
    · rintro ⟨other, member, holds⟩
      exact ⟨other, member, holds, before⟩
    · rintro ⟨other, member, holds⟩
      exact ⟨other, member, holds, fun opened => before (made_of_opened opened)⟩
  have waits (before : ¬ MadeDirectory (.working request stage)) {effect} : Behind
      (∃ other ∈ ((pool.without i).apply effect).tasks, MadeDirectory other)
      (∃ other ∈ ((pool.without i).apply effect).tasks, OpenedLog other) pool.state.disk s.disk := by
    refine (outside before).imp ?_ ?_
    all_goals
      rintro ⟨other, member, holds, free⟩
      exact exists_step there (fun own => absurd own free) ⟨other, member, holds⟩
  cases advanced with
  | refused unsent =>
    exact .inr ⟨_, s, rfl, unsent s, follows.serve there _ s ⟨rfl, rfl⟩ (.refl _) (by simp [unsaved]) (outside id)⟩
  | complete fields => exact .inl ⟨rfl, follows.wait there rfl (.refl _) fields (by simp [unsaved]) (waits id)⟩
  | noBatch failed =>
    refine .inr ⟨_, s, rfl, serves_failed_ids relies ?_, follows.serve there _ s ⟨rfl, rfl⟩ (.refl _)
      (by simp [unsaved]) (outside id)⟩
    rw [generateIds, generateBatchId_congr follows.toSend, failed]
    rfl
  | batch ok => exact .inl ⟨rfl, follows.wait there rfl (.refl _) ⟨relies, ok⟩ (by simp [unsaved]) (waits id)⟩
  | noChunk failed =>
    obtain ⟨fields, batch⟩ := relies
    refine .inr ⟨_, s, rfl, serves_failed_ids fields ((Clients.generateIds_congr follows.toSend).trans ?_),
      follows.serve there _ s ⟨rfl, rfl⟩ (.refl _) (by simp [unsaved]) (outside id)⟩
    rw [generateIds, batch, failed]
    rfl
  | unprintable ok failed =>
    obtain ⟨fields, batch⟩ := relies
    refine .inr ⟨_, s, rfl, serves_unprintable fields ((Clients.generateIds_congr follows.toSend).trans ?_) failed,
      follows.serve there _ s ⟨rfl, rfl⟩ (.refl _) (by simp [unsaved]) (outside id)⟩
    rw [generateIds, batch, ok]
    rfl
  | chunk ok printed =>
    obtain ⟨fields, batch⟩ := relies
    refine .inl ⟨rfl, follows.wait there rfl (.refl _) (entryFor_complete fields ?_ printed) (by simp [unsaved])
      (waits id)⟩
    rw [generateIds, batch, ok]
    rfl
  | queued =>
    exact .inl ⟨rfl, follows.wait there rfl (.refl _) (show Handler.Relies .. from relies)
      (by simp [unsaved, Server.queueMessage]) (waits id)⟩
  | @denied entry failed =>
    have refused : saveMessageManually request.io s.disk entry = .error .osError := by
      refine save_denied (failed.imp_right ?_)
      rintro ⟨content, taken⟩
      refine ⟨content, ?_⟩
      rcases follows.files.directory with same | ⟨-, made, -⟩
      · exact same.symm.trans taken
      · rw [taken] at made
        cases made
    exact .inr ⟨_, _, rfl, serves_unsaved (own relies) refused, follows.serve there _ (s.queueMessage entry)
      ⟨rfl, rfl⟩ (.refl _) (by simp [unsaved, Server.queueMessage]) (outside id)⟩
  | @made entry disk permitted ok =>
    have grown := grown_makedirs ok
    refine .inl ⟨rfl, follows.wait there rfl grown ⟨(entryFor_congr grown.toSend).trans relies, permitted,
      makedirs_self ok⟩ (by simp [unsaved]) ?_⟩
    refine (follows.files.makedirs ok ?_).imp id (exists_step there False.elim)
    exact ⟨_, List.mem_append_right _ (List.mem_singleton_self _), trivial⟩
  | @closed entry failed =>
    obtain ⟨made, permitted, directory⟩ := relies
    obtain ⟨saved, save, files⟩ := follows.files.save_closed directory permitted failed entry
    refine .inr ⟨_, _, rfl, serves_saved (own made) save, follows.serve there pool.state
      { s.queueMessage entry with disk := saved } ⟨rfl, rfl⟩ (.refl _)
      (by simp [unsaved, Server.queueMessage]) (files.imp False.elim ?_)⟩
    rintro ⟨other, member, holds⟩
    exact ⟨other, member, holds, id⟩
  | @opened entry content opens found =>
    have grown := grown_write pool.state.disk content
    obtain ⟨made, permitted, directory⟩ := relies
    refine .inl ⟨rfl, follows.wait there rfl grown ⟨⟨(entryFor_congr grown.toSend).trans made, permitted,
      grown.directory directory⟩, opens, content, write_self pool.state.disk logPath content⟩ (by simp [unsaved]) ?_⟩
    refine (follows.files.openLog found ?_).imp (exists_step there fun _ => ?_) id
    · exact ⟨.working request (.writeLine entry), List.mem_append_right _ (List.mem_singleton_self _), trivial⟩
    · exact ⟨.working request (.writeLine entry), List.mem_singleton_self _, trivial⟩
  | @written entry =>
    obtain ⟨⟨made, permitted, directory⟩, opens, file⟩ := relies
    obtain ⟨saved, save, files⟩ := follows.files.save_written directory permitted opens file entry
    exact .inr ⟨_, _, rfl, serves_saved (own made) save, follows.serve there
      { pool.state with disk := writeLine request.io.append pool.state.disk entry }
      { s.queueMessage entry with disk := saved } ⟨rfl, rfl⟩ (grown_writeLine _ _ _)
      (by simp [unsaved, Server.queueMessage]) (files.imp False.elim False.elim)⟩

theorem step_follows {event : Event} {after : Pool} {note : Note} (done : step python pool event = some (after, note))
    (follows : Follows python pool s) :
    (decision note = none ∧ Follows python after s) ∨
      ∃ op t, decision note = some op ∧ Serves python s op t ∧ Follows python after t := by
  cases event with
  | receive request =>
    cases done
    refine .inl ⟨rfl, follows.checksum, follows.files.imp ?_ ?_, ?_, by simpa [unsaved] using follows.queued⟩
    · exact fun ⟨handler, member, holds⟩ => ⟨handler, List.mem_append_left _ member, holds⟩
    · exact fun ⟨handler, member, holds⟩ => ⟨handler, List.mem_append_left _ member, holds⟩
    · intro handler member
      rcases List.mem_append.mp member with old | new
      · exact follows.handlers handler old
      · rw [List.mem_singleton.mp new]
        trivial
  | run i =>
    obtain ⟨handler, there, rest⟩ := Option.map_eq_some_iff.mp done
    cases handler with
    | working request stage =>
      cases rest
      exact follows_advance follows there (advance_advanced python pool.state request stage)
    | replying request reply =>
      cases rest
      refine .inl ⟨rfl, follows.checksum, follows.files.imp ?_ ?_, follows.handlers_step (.refl _) nofun,
        follows.queued_step there (.refl _)⟩
      all_goals exact exists_step there False.elim

/-- A step receives nothing; what it does to the requests that are not decided, and to
    the replies that are not given. -/
theorem work_balance (python : Python) (server : Server) (handler : Handler) :
    receipt (work python server handler).2 = none ∧
      undecided handler = (decision (work python server handler).2).toList.map Prod.fst ++
        (work python server handler).1.tasks.flatMap undecided ∧
      (work python server handler).1.answers ++ (work python server handler).1.tasks.flatMap promised =
        promised handler ++ (decision (work python server handler).2).toList := by
  cases handler with
  | replying request reply => exact ⟨rfl, rfl, rfl⟩
  | working request stage =>
    have advanced := advance_advanced python server request stage
    simp only [work]
    generalize advance python server request stage = next at advanced ⊢
    obtain ⟨after, handler⟩ := next
    cases advanced <;> exact ⟨rfl, rfl, rfl⟩

variable {allowed : Pool → Event → Prop} {notes : List Note}

/-- Each request that came in is decided once or is not decided yet, and each reply that
    was decided is given once or is not given yet. -/
theorem balanced_run (run : Run (step python) allowed (opened server) notes pool) :
    ((notes.filterMap decision).map Prod.fst ++ pool.tasks.flatMap undecided).Perm (notes.filterMap receipt) ∧
      (pool.answers ++ pool.tasks.flatMap promised).Perm (notes.filterMap decision) := by
  refine run.invariant (fun notes pool => ((notes.filterMap decision).map Prod.fst ++
    pool.tasks.flatMap undecided).Perm (notes.filterMap receipt) ∧ (pool.answers ++ pool.tasks.flatMap promised).Perm
      (notes.filterMap decision)) ⟨.refl _, .refl _⟩ ?_
  rintro notes pool event after note ⟨requests, replies⟩ - done
  cases event with
  | receive request =>
    cases done
    have undecided_yet : [Note.received request].filterMap decision = [] := rfl
    have came : [Note.received request].filterMap receipt = [request] := rfl
    simp only [List.filterMap_append, undecided_yet, came, List.append_nil, List.flatMap_append]
    refine ⟨?_, by simpa [promised] using replies⟩
    rw [← List.append_assoc]
    exact requests.append_right [request]
  | run i =>
    obtain ⟨handler, there, rest⟩ := Option.map_eq_some_iff.mp done
    obtain ⟨silent, own, given⟩ := work_balance python pool.state handler
    generalize work python pool.state handler = worked at rest silent own given
    obtain ⟨effect, last⟩ := worked
    cases rest
    have owed := due_step undecided effect there
    have due := due_step promised effect there
    have received : [note].filterMap receipt = [] := by simpa using silent
    have one : [note].filterMap decision = (decision note).toList := by
      cases decided : decision note <;> simp [decided]
    classical
    simp only [List.filterMap_append, received, one, List.append_nil, List.map_append, List.perm_iff_count,
      List.count_append] at *
    constructor
    · intro item
      have := requests item
      have := owed item
      have := congrArg (List.count item) own
      simp only [List.count_append] at this
      omega
    · intro item
      have := replies item
      have := due item
      have := congrArg (List.count item) given
      simp only [List.count_append] at this
      simp only [Pool.apply, Pool.without, List.count_append] at *
      omega

theorem follows_opened (python : Python) (server : Server) : Follows python (opened server) server :=
  ⟨rfl, ⟨fun _ _ _ => rfl, .inl rfl, .inl rfl⟩, nofun, by simp [opened]⟩

/-- Whatever steps the handlers take in whatever order, the replies and the files are
    those of the requests handled one after the other, in the order in which they were
    decided: after they came in and before they were answered. -/
theorem sends_linearizable (run : Run (step python) allowed (opened server) notes pool) :
    ((notes.filterMap decision).map Prod.fst ++ pool.tasks.flatMap undecided).Perm (notes.filterMap receipt) ∧
      (pool.answers ++ pool.tasks.flatMap promised).Perm (notes.filterMap decision) ∧
      ∃ s, Trace (Serves python) server (notes.filterMap decision) s ∧
        (pool.tasks = [] → pool.state.disk = s.disk ∧ pool.state.queued.Perm s.queued) := by
  obtain ⟨requests, replies⟩ := balanced_run run
  obtain ⟨s, trace, follows⟩ := run.simulated (Follows python) decision (follows_opened python server)
    fun _ _ _ _ _ _ done follows => step_follows done follows
  refine ⟨requests, replies, s, trace, fun finished => ⟨funext fun path => ?_, ?queued⟩⟩
  case queued => simpa [finished] using follows.queued
  by_cases messages : path = lit "messages"
  · subst messages
    exact follows.files.directory.resolve_right (by simp [finished])
  · by_cases log : path = logPath
    · subst log
      exact follows.files.log.resolve_right (by simp [finished])
    · exact follows.files.others path messages log

/-- Two requests, of which the one that was queued last is saved first. -/
def crossing : List Event :=
  [.receive (requestOf (.int 1)), .receive (requestOf (.int 2))] ++ List.replicate 8 (.run 0) ++
    List.replicate 4 (.run 1) ++ List.replicate 4 (.run 0)

theorem sends_linearizable_crossing : ∃ notes pool, Run (step oneBrowser.python) any (opened newServer) notes pool ∧
    ∃ s, Trace (Serves oneBrowser.python) newServer (notes.filterMap decision) s ∧ pool.state.disk = s.disk := by
  have finished : (exec (step oneBrowser.python) (fun _ _ => true) (opened newServer) crossing).map
      (fun ended => ended.2.tasks.length) = some 0 := by decide +kernel
  obtain ⟨⟨notes, pool⟩, executed, none_left⟩ := Option.map_eq_some_iff.mp finished
  have run : Run (step oneBrowser.python) any (opened newServer) notes pool :=
    .of_exec _ (fun _ _ _ => trivial) _ executed
  obtain ⟨-, -, s, trace, finished⟩ := sends_linearizable run
  exact ⟨notes, pool, run, s, trace, (finished (List.length_eq_zero_iff.mp none_left)).1⟩

/-! ### What a page shows meanwhile -/

variable {floats : FloatReading} {truncate : FloatText → Except Failure Int} {documents : List Json}

/-- The requests that come in are orderly. -/
def Orderly (floats : FloatReading) (pool : Pool) : Event → Prop
  | .receive request => Listing.Orderly floats pool.state request
  | .run _ => True

/-- The entries of the requests that were accepted, in the order in which they were
    decided. -/
def accepted (notes : List Note) : List Json := sentEntries ((notes.filterMap decision).map Prod.snd)

/-- The entries that the decided requests have made, in that order. -/
def decidedEntries (python : Python) (server : Server) (notes : List Note) : List Json :=
  (notes.filterMap decision).filterMap fun served => entryFor python server served.1

theorem orderly_received (run : Run (step python) (Orderly floats) (opened server) notes pool) :
    ∀ request ∈ notes.filterMap receipt, ∀ server, Listing.Orderly floats server request := by
  refine run.invariant (fun notes _ => ∀ request ∈ notes.filterMap receipt, ∀ server,
    Listing.Orderly floats server request) nofun ?_
  intro notes pool event after note earlier orderly done request member server
  rw [List.filterMap_append] at member
  rcases List.mem_append.mp member with old | new
  · exact earlier request old server
  · cases event with
    | receive came =>
      cases done
      obtain rfl : request = came := List.mem_singleton.mp new
      exact orderly
    | run i =>
      obtain ⟨handler, -, rest⟩ := Option.map_eq_some_iff.mp done
      have silent := (work_balance python pool.state handler).1
      generalize work python pool.state handler = worked at rest silent
      obtain ⟨effect, last⟩ := worked
      cases rest
      simp [show receipt note = none from silent] at new

theorem run_of_trace {served : List (Request × Except Failure Reply)} (trace : Trace (Serves python) server served s)
    (orderly : ∀ pair ∈ served, ∀ server, Listing.Orderly floats server pair.1) :
    Run (Requests.step python) (Listing.Orderly floats) server (served.map Prod.snd) s := by
  induction trace with
  | nil => exact .nil
  | @snoc served a b op earlier now ih =>
    rw [List.map_append]
    refine .snoc (ih fun pair member => orderly pair (List.mem_append_left _ member))
      (orderly op (by simp) a) ?_
    rw [Requests.step, now]

/-- A log that is behind holds the same documents. -/
theorem Behind.logHolds {loads : Loads} (behind : Behind made created disk other)
    (holds : LogHolds loads other documents) : LogHolds loads disk documents := by
  rcases behind.log with same | ⟨absent, empty, -⟩
  · exact holds.congr same
  · cases holds with
    | absent => exact @LogHolds.present _ _ _ [] [] [] empty rfl rfl nofun .nil
    | present found => simp [absent] at found

/-- Requests that are handled one after the other queue the entries that they make. -/
theorem queued_of_trace {served : List (Request × Except Failure Reply)} (trace : Trace (Serves python) server served s) :
    s.disk toSendPath = server.disk toSendPath ∧
      s.queued = server.queued ++ served.filterMap fun pair => entryFor python server pair.1 := by
  induction trace with
  | nil => exact ⟨rfl, by simp⟩
  | @snoc served a b op earlier now ih =>
    obtain ⟨same, queued⟩ := ih
    have done := handled python a op.1
    rw [now] at done
    have last : [op].filterMap (fun pair => entryFor python server pair.1) = (entryFor python server op.1).toList := by
      cases made : entryFor python server op.1 <;> simp [made]
    refine ⟨done.toSend_file.trans same, ?_⟩
    rw [done.queued_eq, queued, entryFor_congr same, List.filterMap_append, last, List.append_assoc]

/-- The handlers do what the decided requests do one after the other. -/
theorem served_run (run : Run (step python) (Orderly floats) (opened server) notes pool) :
    ∃ s, Follows python pool s ∧ newEntries server s = decidedEntries python server notes ∧
      Run (Requests.step python) (Listing.Orderly floats) server ((notes.filterMap decision).map Prod.snd) s := by
  have requests := (balanced_run run).1
  have orderly := orderly_received run
  obtain ⟨s, trace, follows⟩ := run.simulated (Follows python) decision (follows_opened python server)
    fun _ _ _ _ _ _ done follows => step_follows done follows
  refine ⟨s, follows, newEntries_eq (queued_of_trace trace).2, run_of_trace trace fun pair member => ?_⟩
  exact orderly pair.1 (requests.mem_iff.mp (List.mem_append_left _ (List.mem_map_of_mem member)))

variable {number : Str → FloatText} {loraState : Mode}

/-- While the handlers are under way, an answer gives a page what its script makes of the
    log and of the entries of the decided requests, in the order in which they were
    decided. Accepted are those whose message can be printed, and the requests that were
    told so are among them. -/
theorem sends_listed (ready : Ready server) (ids : IdsPrint floats truncate server)
    (holds : LogHolds (loads floats) server.disk documents)
    (run : Run (step ⟨loads floats, truncate⟩) (Orderly floats) (opened server) notes pool)
    (named : Joined (modeText loraState))
    (finite : ∀ entry ∈ documents ++ decidedEntries ⟨loads floats, truncate⟩ server notes, Finite entry)
    (cookie : JsString) (page : List Element) :
    arrive number cookie (getMessages (loads floats) pool.state.disk loraState (lit "messages.json")) page =
        shownEntries number cookie (documents ++ decidedEntries ⟨loads floats, truncate⟩ server notes) ∧
      accepted notes = (decidedEntries ⟨loads floats, truncate⟩ server notes).filter Printable ∧
      ∀ answer ∈ pool.answers, ∀ entry, sentEntry answer.2 = some entry → entry ∈ accepted notes := by
  obtain ⟨s, follows, entries, served⟩ := served_run run
  have listed := listed_run ready ids holds served
  rw [← entries] at finite ⊢
  refine ⟨arrive_getMessages (follows.files.logHolds listed.log) named (floatsItems_iff.mpr finite) cookie page,
    listed.sent, ?_⟩
  intro answer member entry sent
  have decided := (balanced_run run).2.mem_iff.mp (List.mem_append_left _ member)
  exact List.mem_filterMap.mpr ⟨answer.2, List.mem_map_of_mem decided, sent⟩

/-- Two requests that have just come in. -/
def received : Pool :=
  ⟨newServer, [.working (requestOf (.int 1)) .check, .working (requestOf (.int 2)) .check], []⟩

/-- The request that was queued first is still not saved when the page is read. -/
theorem sends_listed_crossing : ∃ notes pool,
    Run (step oneBrowser.python) (Orderly verbatim) (opened newServer) notes pool ∧ pool.tasks.length = 1 ∧
      arrive oneBrowser.number (oneBrowser.cookie ()) (getMessages (loads verbatim) pool.state.disk .idle
        (lit "messages.json")) [] = [⟨js "<strong>A</strong>: 2", js "messageReceived"⟩] := by
  have first : Orderly verbatim (opened newServer) (.receive (requestOf (.int 1))) :=
    orderly_requestOf (show Settled verbatim (.int 1) from (by decide : WithinLimit 1))
  have second (pool : Pool) : Orderly verbatim pool (.receive (requestOf (.int 2))) :=
    orderly_requestOf (show Settled verbatim (.int 2) from (by decide : WithinLimit 2))
  have came : Run (step oneBrowser.python) (Orderly verbatim) (opened newServer)
      [.received (requestOf (.int 1)), .received (requestOf (.int 2))] received := by
    have one : Run (step oneBrowser.python) (Orderly verbatim) (opened newServer) [.received (requestOf (.int 1))]
        ⟨newServer, [.working (requestOf (.int 1)) .check], []⟩ := .one first rfl
    exact one.snoc (second _) rfl
  have saved : (exec (step oneBrowser.python) (fun _ event => event matches .run _) received
      (List.replicate 8 (.run 0) ++ List.replicate 4 (.run 1))).map
        (fun ended => (ended.2.tasks.length, decidedEntries oneBrowser.python newServer ended.1)) =
          some (1, [newEntry (.str (lit "A")) 1722250340 1 1 (.int 2)]) := rfl
  obtain ⟨⟨notes, pool⟩, executed, ended⟩ := Option.map_eq_some_iff.mp saved
  obtain ⟨left, entries⟩ := Prod.mk.inj ended
  have run := came.trans (Run.of_exec _ (fun _ event => by cases event <;> simp [Orderly]) _ executed)
  have shown : decidedEntries ⟨loads verbatim, oneBrowser.truncate⟩ newServer
      ([.received (requestOf (.int 1)), .received (requestOf (.int 2))] ++ notes) =
        [newEntry (.str (lit "A")) 1722250340 1 1 (.int 2)] := entries
  have finite : ∀ entry ∈ [newEntry (.str (lit "A")) 1722250340 1 1 (.int 2)], Bodies.Finite entry := by
    simp [newEntry, Bodies.Finite, Floats, FloatsItems, FloatsMembers]
  refine ⟨_, pool, run, left, ?_⟩
  refine (sends_listed ready_newServer.1 ready_newServer.2.1 ready_newServer.2.2 run (by decide)
    (by rw [shown]; exact finite) _ _).1.trans ?_
  rw [shown]
  decide +kernel

end Hde.Sending
