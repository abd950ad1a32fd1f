import Hde.Ids
import Hde.Log
import Hde.Provenance

/-!
The handler of `POST /api/send`. What a request does is one of three things
(`handled`): it is refused, it fails after its entry was queued, or its entry is
queued and saved. Even then it may fail, as it prints the message before it replies.
Nothing writes `to_send.json`, so that every accepted request gets
the same ids; they are unique as long as there is one (`ids_unique_iff`,
`ids_repeated`). And an entry is a dict, so that no request transmits a frame
(`never_delivered`, `not_delivered`).
-/
namespace Hde.Requests
open Hde.Text Hde.Frames Hde.JsonText Hde.Files Hde.Log Hde.Ids Hde.Runs

/-- The files, the checksum of the start and the arguments of `queue_message` so far. -/
structure Server where
  disk : Disk
  checksum : Str
  queued : List Json

/-- The body of a response and its status. -/
structure Reply where
  body : Json
  status : Nat

/-- A request: its JSON, when it is handled and what the operating system allows. -/
structure Request where
  data : Json
  now : Int := 0
  io : Io := {}

/-- `jsonify(body), status`, as Flask documents it: it raises what `dumps` raises, and the
    text that it makes is `Page.jsonifyText`. -/
def jsonify (body : Json) (status : Nat) : Except Failure Reply :=
  match dumps none body with
  | .error e => .error (.raised (.valueError e))
  | .ok _ => .ok ⟨body, status⟩

/-- `data.get(key)`. -/
def get (members : List (Str × Json)) (key : Str) : Json := (Json.member members key).getD .null

/-- `new_entry`. -/
def newEntry (fromField : Json) (timestamp batch id : Int) (message : Json) : Json :=
  .obj [(lit "from", fromField), (lit "timestamp", .int timestamp), (lit "chunk_batch", .int batch),
    (lit "chunk", .arr [.obj [(lit "id", .int id), (lit "message", message)]])]

def missingFields : Except Failure Reply := jsonify (.obj [(lit "error", .str (lit "Missing fields"))]) 400

def success (entry : Json) : Except Failure Reply :=
  jsonify (.obj [(lit "status", .str (lit "success")), (lit "sent", entry)]) 200

/-- What follows when the entry was saved: the message is printed and the reply made. -/
def finish (message entry : Json) : Except Failure Reply := do
  print message
  success entry

/-- `lora_engine.queue_message(msg)`, where the same dict has just been printed. -/
def Server.queueMessage (server : Server) (msg : Json) : Server := { server with queued := server.queued ++ [msg] }

/-- The ids of a new entry, in the order in which they are generated. -/
def generateIds (python : Python) (disk : Disk) : Except Failure (Int × Int) := do
  let batch ← generateBatchId python disk
  let id ← generateChunkId python disk
  return (batch, id)

/-- `send_message`. -/
def sendMessage (python : Python) (server : Server) (request : Request) : Server × Except Failure Reply :=
  match request.data with
  | .obj members =>
    let fromField := get members (lit "from")
    let message := get members (lit "message")
    let checksum := get members (lit "checksum")
    if ¬ fromField.truthy ∨ ¬ message.truthy ∨ ¬ checksum.truthy then (server, missingFields)
    else
      match generateIds python server.disk with
      | .error e => (server, .error e)
      | .ok (batch, id) =>
        let entry := newEntry fromField request.now batch id message
        match print entry with
        | .error e => (server, .error e)
        | .ok () =>
          -- from here on printing the entry again cannot raise
          match saveMessageManually request.io server.disk entry with
          | .error e => (server.queueMessage entry, .error e)
          | .ok disk => ({ server.queueMessage entry with disk := disk }, finish message entry)
  | value => (server, .error (noAttribute value (lit "get")))

def step (python : Python) (server : Server) (request : Request) : Option (Server × Except Failure Reply) :=
  some (sendMessage python server request)

/-- The entry that an accepted request has sent. -/
def sentEntry : Except Failure Reply → Option Json
  | .ok reply =>
    match reply.body with
    | .obj members => Json.member members (lit "sent")
    | _ => none
  | .error _ => none

/-- The entry that a request makes, unless it is refused, there are no ids for it or it
    cannot be printed. -/
def entryFor (python : Python) (server : Server) (request : Request) : Option Json :=
  match request.data with
  | .obj members =>
    if (get members (lit "from")).truthy ∧ (get members (lit "message")).truthy ∧ (get members (lit "checksum")).truthy
    then
      match generateIds python server.disk with
      | .ok (batch, id) =>
        let entry := newEntry (get members (lit "from")) request.now batch id (get members (lit "message"))
        match print entry with
        | .ok () => some entry
        | .error _ => none
      | .error _ => none
    else none
  | _ => none

/-- The message that a request brings. -/
def Request.message (request : Request) : Json :=
  match request.data with
  | .obj members => get members (lit "message")
  | _ => .null

/-- What a request does. -/
inductive Handled (python : Python) (server : Server) (request : Request) : Server → Except Failure Reply → Prop
  | refused {reply : Except Failure Reply} (nothing : entryFor python server request = none)
      (unsent : sentEntry reply = none) : Handled python server request server reply
  | failed {entry : Json} {e : Failure} (made : entryFor python server request = some entry)
      (unsaved : saveMessageManually request.io server.disk entry = .error e) :
      Handled python server request (server.queueMessage entry) (.error e)
  | saved {entry : Json} {disk : Disk} (made : entryFor python server request = some entry)
      (saved : saveMessageManually request.io server.disk entry = .ok disk) :
      Handled python server request { server.queueMessage entry with disk := disk } (finish request.message entry)

variable {python : Python} {server : Server} {request : Request}

theorem entryFor_shape {entry : Json} (made : entryFor python server request = some entry) :
    print entry = .ok () ∧ ∃ fromField batch id, generateIds python server.disk = .ok (batch, id) ∧
      entry = newEntry fromField request.now batch id request.message := by
  unfold entryFor at made
  split at made
  · next members body =>
    split at made
    · split at made
      · next batch id ids =>
        dsimp only at made
        split at made
        · next printed =>
          cases made
          exact ⟨printed, _, batch, id, ids, by rw [Request.message, body]⟩
        · cases made
      · cases made
    · cases made
  · cases made

theorem sentEntry_missingFields : sentEntry missingFields = none := rfl

theorem sentEntry_finish {message entry other : Json} (sent : sentEntry (finish message entry) = some other) :
    other = entry := by
  unfold finish success jsonify at sent
  cases printed : print message with
  | error e =>
    rw [printed] at sent
    cases sent
  | ok =>
    rw [printed] at sent
    change sentEntry (match dumps none _ with | .error e => _ | .ok _ => _) = _ at sent
    split at sent
    · cases sent
    · exact (Option.some.inj sent).symm

theorem handled (python : Python) (server : Server) (request : Request) :
    Handled python server request (sendMessage python server request).1 (sendMessage python server request).2 := by
  unfold sendMessage
  split
  · next members body =>
    dsimp only
    split
    · next incomplete =>
      refine .refused ?_ sentEntry_missingFields
      simp only [entryFor, body]
      exact if_neg (by simpa only [← not_and_or] using incomplete)
    · next complete =>
      have fields := not_not.mp (by simpa only [← not_and_or] using complete)
      cases ids : generateIds python server.disk with
      | error e => exact .refused (by simp only [entryFor, body, if_pos fields, ids]) rfl
      | ok pair =>
        dsimp only
        have message : get members (lit "message") = request.message := by rw [Request.message, body]
        cases printed : print (newEntry (get members (lit "from")) request.now pair.1 pair.2
            (get members (lit "message"))) with
        | error e => exact .refused (by simp only [entryFor, body, if_pos fields, ids, printed]) rfl
        | ok =>
          have made : entryFor python server request = some
              (newEntry (get members (lit "from")) request.now pair.1 pair.2 (get members (lit "message"))) := by
            simp only [entryFor, body, if_pos fields, ids, printed]
          dsimp only
          split
          · next unsaved => exact .failed made unsaved
          · next saved =>
            have done := Handled.saved made saved
            rwa [← message] at done
  · next other => exact .refused (by unfold entryFor; split <;> first | exact absurd ‹_› (other _) | rfl) rfl

/-- Whatever becomes of it afterwards, an entry that is made is queued. -/
theorem Handled.queued_eq {after : Server} {reply : Except Failure Reply}
    (done : Handled python server request after reply) :
    after.queued = server.queued ++ (entryFor python server request).toList := by
  cases done with
  | refused nothing => rw [nothing, Option.toList_none, List.append_nil]
  | failed made => rw [made, Option.toList_some, Server.queueMessage]
  | saved made => rw [made, Option.toList_some, Server.queueMessage]

theorem step_handled {after : Server} {reply : Except Failure Reply}
    (now : step python server request = some (after, reply)) : Handled python server request after reply := by
  obtain ⟨rfl, rfl⟩ := Prod.mk.inj (Option.some.inj now)
  exact handled python server request

/-! ### The ids over a run -/

/-- The batch and the chunk id of an entry. -/
def pairOf : Json → Option (Int × Int)
  | .obj members =>
    match Json.member members (lit "chunk_batch"), Json.member members (lit "chunk") with
    | some (.int batch), some (.arr [.obj chunk]) =>
      match Json.member chunk (lit "id") with
      | some (.int id) => some (batch, id)
      | _ => none
    | _, _ => none
  | _ => none

/-- The entries that a run's accepted requests have sent. -/
def sentEntries (replies : List (Except Failure Reply)) : List Json := replies.filterMap sentEntry

/-- The entries have different pairs, and none that is in the file. -/
def Unique (pairs : List (Int × Int)) (entries : List Json) : Prop :=
  (entries.map pairOf).Nodup ∧ ∀ entry ∈ entries, ∀ pair ∈ pairs, pairOf entry ≠ some pair

variable {pairs : List (Int × Int)} {replies : List (Except Failure Reply)} {s : Server}

theorem pairOf_newEntry (fromField : Json) (timestamp batch id : Int) (message : Json) :
    pairOf (newEntry fromField timestamp batch id message) = some (batch, id) := rfl

theorem generateIds_eq (toSend : ToSend python server.disk pairs) :
    generateIds python server.disk = .ok (nextPair pairs) := by
  rw [generateIds, generateBatchId_eq toSend, generateChunkId_eq toSend]
  rfl

variable {after : Server} {reply : Except Failure Reply}

/-- No request writes `to_send.json`. -/
theorem Handled.toSend_file (done : Handled python server request after reply) :
    after.disk toSendPath = server.disk toSendPath := by
  cases done with
  | refused | failed => rfl
  | saved made saved => exact saveMessageManually_of_ne saved (by simp [toSendPath, logPath])

theorem Handled.pairOf_sent (done : Handled python server request after reply) (toSend : ToSend python server.disk pairs)
    {entry : Json} (sent : sentEntry reply = some entry) : pairOf entry = some (nextPair pairs) := by
  cases done with
  | refused nothing unsent =>
    rw [unsent] at sent
    cases sent
  | failed => cases sent
  | saved made saved =>
    obtain ⟨-, fromField, batch, id, ids, rfl⟩ := entryFor_shape made
    rw [sentEntry_finish sent, pairOf_newEntry, ← Except.ok.inj (ids.symm.trans (generateIds_eq toSend))]

/-- A run leaves the file alone and gives every entry the same pair. -/
theorem pairs_run (toSend : ToSend python server.disk pairs) (run : Run (step python) any server replies s) :
    s.disk toSendPath = server.disk toSendPath ∧ ∀ entry ∈ sentEntries replies, pairOf entry = some (nextPair pairs) := by
  refine run.invariant (fun replies s => s.disk toSendPath = server.disk toSendPath ∧
    ∀ entry ∈ sentEntries replies, pairOf entry = some (nextPair pairs)) ⟨rfl, by simp [sentEntries]⟩ ?_
  rintro earlier s request t reply ⟨same, assigned⟩ - now
  have done := step_handled now
  refine ⟨done.toSend_file.trans same, ?_⟩
  intro entry member
  rw [sentEntries, List.filterMap_append, List.mem_append] at member
  rcases member with old | new
  · exact assigned entry old
  · obtain ⟨reply, last, sent⟩ := List.mem_filterMap.mp new
    rw [List.mem_singleton.mp last] at sent
    exact done.pairOf_sent (toSend.congr same) sent

/-- A `json.loads` that knows one `to_send.json`. -/
private def knowingPython : Python where
  loads := knowing none [.obj [(lit "7", .obj [(lit "chunk_batch", .int 3)])]]
  truncate := fun _ => .error (typeError [])

private def helloRequest : Request where
  data := .obj [(lit "from", .str (lit "node1")), (lit "message", .str (lit "hello")), (lit "checksum", .str (lit "x"))]
  now := 1722250340

private def newUnit : Server := ⟨fun _ => none, lit "FILE_NOT_FOUND", []⟩

/-- Two requests and no `to_send.json`: both get batch 1 and chunk id 1. -/
theorem ids_repeated : ¬ ∀ (python : Python) (server : Server) (pairs : List (Int × Int)),
    ToSend python server.disk pairs → ∀ (replies : List (Except Failure Reply)) (s : Server),
      Run (step python) any server replies s → Unique pairs (sentEntries replies) := by
  intro claim
  obtain ⟨replies, s, run, twice⟩ : ∃ replies s, exec (step knowingPython) (fun _ _ => true) newUnit [helloRequest, helloRequest] =
      some (replies, s) ∧ (sentEntries replies).map pairOf = [some (1, 1), some (1, 1)] := ⟨_, _, rfl, rfl⟩
  obtain ⟨distinct, -⟩ := claim knowingPython newUnit [] (.absent rfl) replies s (Run.of_exec _ (fun _ _ _ => trivial) _ run)
  rw [twice] at distinct
  exact absurd distinct (by decide)

/-- The ids of a run are unique exactly when at most one of its requests is accepted. -/
theorem ids_unique_iff (toSend : ToSend python server.disk pairs) (run : Run (step python) any server replies s) :
    Unique pairs (sentEntries replies) ↔ (sentEntries replies).length ≤ 1 := by
  obtain ⟨-, assigned⟩ := pairs_run toSend run
  have all : (sentEntries replies).map pairOf = List.replicate (sentEntries replies).length (some (nextPair pairs)) := by
    refine List.eq_replicate_iff.mpr ⟨by simp, ?_⟩
    intro pair member
    obtain ⟨entry, sent, rfl⟩ := List.mem_map.mp member
    exact assigned entry sent
  rw [Unique, all, List.nodup_replicate]
  constructor
  · exact And.left
  · intro few
    refine ⟨few, ?_⟩
    intro entry sent pair known same
    obtain rfl : nextPair pairs = pair := Option.some.inj ((assigned entry sent).symm.trans same)
    exact nextPair_fresh pairs known

theorem ids_unique_once :
    let toSend := lit "\x7b\"7\": \x7b\"chunk_batch\": 3\x7d\x7d"
    let server : Server := { newUnit with disk := write newUnit.disk toSendPath (bytes toSend) }
    ∃ replies s, Run (step knowingPython) any server replies s ∧ (sentEntries replies).map pairOf = [some (4, 8)] ∧
      Unique [(3, 7)] (sentEntries replies) := by
  intro toSend server
  have object : ToSend knowingPython server.disk [(3, 7)] := by
    have decoded : Utf8.decode (bytes toSend) = some toSend := decode_bytes (by decide +kernel)
    have read : readText server.disk toSendPath = .ok toSend := by
      simp only [readText, server, write_self, decoded]
      rfl
    exact .object read rfl (.cons ⟨by decide, _, rfl, rfl⟩ .nil)
  obtain ⟨replies, s, run, once⟩ : ∃ replies s, exec (step knowingPython) (fun _ _ => true) server [helloRequest] =
      some (replies, s) ∧ (sentEntries replies).map pairOf = [some (4, 8)] := ⟨_, _, rfl, rfl⟩
  have ran : Run (step knowingPython) any server replies s := Run.of_exec _ (fun _ _ _ => trivial) _ run
  have few : (sentEntries replies).length ≤ 1 := by simpa using (congrArg List.length once).le
  exact ⟨replies, s, ran, once, (ids_unique_iff object ran).mpr few⟩

/-! ### What the unit transmits -/

/-- A body with a sender, a message and a checksum, strings that are neither empty
    nor have a bar. -/
structure Asks (members : List (Str × Json)) (sender message checksum : Str) : Prop where
  from_ : Json.member members (lit "from") = some (.str sender)
  text : Json.member members (lit "message") = some (.str message)
  sum : Json.member members (lit "checksum") = some (.str checksum)
  plain : ∀ text ∈ [sender, message, checksum], text ≠ [] ∧ bar ∉ text

/-- A receiver parses the item as this message of this sender. -/
def Readable (item : Json) (sender message : Str) : Prop :=
  ∃ raw, item = .str raw ∧ (parseMessage raw).valid = true ∧ (parseMessage raw).from_ = some sender ∧
    (parseMessage raw).chunk.flatMap Chunk.message = message

/-- The request puts such an item on the queue. -/
def Delivered (python : Python) (server : Server) (request : Request) (sender message : Str) : Prop :=
  ∃ item, (sendMessage python server request).1.queued = server.queued ++ [item] ∧ Readable item sender message

theorem not_readable_newEntry (fromField : Json) (timestamp batch id : Int) (text : Json) (sender message : Str) :
    ¬ Readable (newEntry fromField timestamp batch id text) sender message := by
  rintro ⟨raw, frame, -⟩
  cases frame

/-- What a request queues is no frame. -/
theorem Handled.unreadable (done : Handled python server request after reply) {item : Json}
    (put : after.queued = server.queued ++ [item]) (sender message : Str) : ¬ Readable item sender message := by
  cases done with
  | refused => simp at put
  | @failed entry _ made | @saved entry _ made =>
    obtain ⟨-, fromField, batch, id, -, rfl⟩ := entryFor_shape made
    obtain rfl : newEntry fromField request.now batch id request.message = item := by
      simpa [Server.queueMessage] using put
    exact not_readable_newEntry _ _ _ _ _ sender message

/-- When all that is queued are entries of requests, the radio sends no frame but what
    it has heard. -/
theorem sent_unreadable {κ : Type*} [DecidableEq κ] {events : List (Engine.Event κ Json)}
    {e : Engine.LoRaEngine κ Json} (run : Engine.Run events e)
    (entries : ∀ msg, Provenance.Argument events msg → ∃ python server request,
      (sendMessage python server request).1.queued = server.queued ++ [msg])
    {item : Engine.Item Json} (sent : .radio (.send item) ∈ events) (queued : item.origin = .queued)
    (sender message : Str) : ¬ Readable item.value sender message := by
  obtain ⟨before, after, split⟩ := List.append_of_mem sent
  have source := Provenance.handed_sourced run split rfl (List.mem_singleton_self item)
  rcases source with ⟨-, argument⟩ | ⟨received, -⟩
  · have later : Provenance.Argument events item.value := split ▸ argument.append _
    obtain ⟨python, server, request, put⟩ := entries item.value later
    exact (handled python server request).unreadable put sender message
  · rw [queued] at received
    cases received

/-- The request for "hello" from node1 queues a dict. -/
theorem not_delivered : ¬ ∀ (python : Python) (server : Server) (request : Request) (members : List (Str × Json))
    (sender message checksum : Str), (∃ ids, generateIds python server.disk = .ok ids) → request.data = .obj members →
      Asks members sender message checksum → Delivered python server request sender message := by
  intro claim
  obtain ⟨item, put, readable⟩ := claim knowingPython newUnit helloRequest _ (lit "node1") (lit "hello") (lit "x")
    ⟨(1, 1), rfl⟩ rfl ⟨rfl, rfl, rfl, by decide⟩
  exact (handled knowingPython newUnit helloRequest).unreadable put _ _ readable

theorem queued_of_asks {members : List (Str × Json)} {sender message checksum : Str} {batch id : Int}
    (body : request.data = .obj members) (asks : Asks members sender message checksum)
    (ids : generateIds python server.disk = .ok (batch, id)) :
    let entry := newEntry (.str sender) request.now batch id (.str message)
    (sendMessage python server request).1.queued =
      if print entry = .ok () then server.queued ++ [entry] else server.queued := by
  have truthy : ∀ text ∈ [sender, message, checksum], (Json.str text).truthy = true :=
    fun text member => by simpa [Json.truthy] using (asks.plain text member).1
  have complete : ¬ (¬ (Json.str sender).truthy ∨ ¬ (Json.str message).truthy ∨ ¬ (Json.str checksum).truthy) := by
    simp [truthy]
  simp only [sendMessage, body, get, asks.from_, asks.text, asks.sum, Option.getD_some, if_neg complete, ids]
  cases print (newEntry (.str sender) request.now batch id (.str message)) with
  | error e => rfl
  | ok =>
    dsimp only
    rw [if_pos rfl]
    split <;> rfl

/-- No request is delivered: once it has its ids, what it queues is its entry, if that
    can be printed. -/
theorem never_delivered (python : Python) (server : Server) {request : Request} {members : List (Str × Json)}
    {sender message checksum : Str} (body : request.data = .obj members)
    (asks : Asks members sender message checksum) :
    ¬ Delivered python server request sender message ∧
      ∀ batch id, generateIds python server.disk = .ok (batch, id) →
        let entry := newEntry (.str sender) request.now batch id (.str message)
        (sendMessage python server request).1.queued =
          if print entry = .ok () then server.queued ++ [entry] else server.queued := by
  refine ⟨?_, fun batch id ids => queued_of_asks body asks ids⟩
  rintro ⟨item, put, readable⟩
  exact (handled python server request).unreadable put sender message readable

theorem never_delivered_hello :
    ¬ Delivered knowingPython newUnit helloRequest (lit "node1") (lit "hello") ∧
      (sendMessage knowingPython newUnit helloRequest).1.queued =
        [newEntry (.str (lit "node1")) 1722250340 1 1 (.str (lit "hello"))] := by
  obtain ⟨members, body, asks⟩ : ∃ members, helloRequest.data = .obj members ∧
      Asks members (lit "node1") (lit "hello") (lit "x") := ⟨_, rfl, rfl, rfl, rfl, by decide⟩
  obtain ⟨undelivered, queued⟩ := never_delivered knowingPython newUnit body asks
  exact ⟨undelivered, queued 1 1 rfl⟩

end Hde.Requests
