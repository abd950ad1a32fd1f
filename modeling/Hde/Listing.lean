import Hde.Clients

/-!
Requests with any JSON, and what becomes of the pages. A request stores what it was
given, of whatever type, so that the log holds the entries that were queued one after the
other (`listed_run`) and a page has what its script makes of them. Accepted are those
of them whose message can be printed. A number that is not finite is stored as well: from
then on no page changes any more (`pages_frozen`).
-/
namespace Hde.Listing
open Hde.Text Hde.Utf16 Hde.Numerals Hde.JsonText Hde.Rereading Hde.Files Hde.Loading Hde.Bodies Hde.Page Hde.Log
  Hde.Ids Hde.Requests Hde.Published Hde.Runs Hde.Clients
open Hde.Engine (Mode)

variable {floats : FloatReading} {truncate : FloatText → Except Failure Int} {server after : Server} {request : Request}
  {reply : Except Failure Reply} {documents : List Json}

/-- A request whose JSON is settled, at a time that can be printed, with nothing in the
    way of its line. -/
def Orderly (floats : FloatReading) (_ : Server) (request : Request) : Prop :=
  request.io = {} ∧ Settled floats request.data ∧ WithinLimit request.now

/-- The entries that have been queued since. -/
def newEntries (server s : Server) : List Json := s.queued.drop server.queued.length

/-- The message of an entry. -/
def messageOf : Json → Json
  | .obj members =>
    match Json.member members (lit "chunk") with
    | some (.arr [.obj chunk]) => get chunk (lit "message")
    | _ => .null
  | _ => .null

/-- The handler can print the message: it is no string with a lone surrogate. -/
def Printable (entry : Json) : Prop := print (messageOf entry) = .ok ()

instance : DecidablePred Printable := fun entry => by unfold Printable; infer_instance

/-- The ids of the server can be printed. -/
def IdsPrint (floats : FloatReading) (truncate : FloatText → Except Failure Int) (server : Server) : Prop :=
  ∀ batch id, generateIds ⟨loads floats, truncate⟩ server.disk = .ok (batch, id) → WithinLimit batch ∧ WithinLimit id

theorem messageOf_newEntry (fromField : Json) (timestamp batch id : Int) (message : Json) :
    messageOf (newEntry fromField timestamp batch id message) = message := rfl

theorem newEntries_eq {entries : List Json} {s : Server} (queued : s.queued = server.queued ++ entries) :
    newEntries server s = entries := by
  rw [newEntries, queued, List.drop_left]

theorem settled_get {members : List (Str × Json)} (settled : SettledMembers floats members) (key : Str) :
    Settled floats (get members key) := by
  show Settled floats ((Json.member members key).getD .null)
  cases found : Json.member members key with
  | none => trivial
  | some value =>
    obtain ⟨earlier, later, split, -⟩ := List.lookup_eq_some_iff.mp found
    exact (settledMembers_iff.mp settled (key, value) (by rw [split]; simp)).2

/-- The entry of an orderly request is settled. -/
theorem settled_entryFor (orderly : Orderly floats server request) (ids : IdsPrint floats truncate server) {entry : Json}
    (made : entryFor ⟨loads floats, truncate⟩ server request = some entry) : Settled floats entry := by
  obtain ⟨-, settled, time⟩ := orderly
  unfold entryFor at made
  split at made
  · next members body =>
    rw [body] at settled
    split at made
    · split at made
      · next batch id generated =>
        have fields := settled_newEntry ⟨settled_get settled.2 (lit "from"), settled_get settled.2 (lit "message")⟩
          ⟨time, ids batch id generated⟩
        dsimp only at made
        split at made
        · cases made
          exact fields
        · cases made
      · cases made
    · cases made
  · cases made

/-- An entry that was saved is in the reply exactly if its message can be printed. -/
theorem sentEntry_finish_settled {entry : Json} (settled : Settled floats entry) :
    (sentEntry (finish (messageOf entry) entry)).toList = [entry].filter Printable := by
  rw [finish]
  by_cases prints : Printable entry
  · obtain ⟨text, ok⟩ : ∃ text, dumps none (.obj [(lit "status", .str (lit "success")), (lit "sent", entry)]) = .ok text :=
      dumpsAt_settled 0 (settled_reply settled)
    rw [List.filter_cons_of_pos (by simpa using prints), show print (messageOf entry) = .ok () from prints]
    show (sentEntry (success entry)).toList = [entry]
    simp only [success, jsonify, ok]
    rfl
  · rw [List.filter_cons_of_neg (by simpa using prints)]
    cases printed : print (messageOf entry) with
    | error e => rfl
    | ok => exact absurd printed prints

/-- One request: the log holds its entry too, if it makes one, and the reply has the entry
    if the message can be printed. -/
theorem logHolds_request (ready : Ready server) (ids : IdsPrint floats truncate server)
    (holds : LogHolds (loads floats) server.disk documents) (orderly : Orderly floats server request)
    (done : Handled ⟨loads floats, truncate⟩ server request after reply) :
    let entries := (entryFor ⟨loads floats, truncate⟩ server request).toList
    LogHolds (loads floats) after.disk (documents ++ entries) ∧ (sentEntry reply).toList = entries.filter Printable ∧
      Ready after ∧ IdsPrint floats truncate after := by
  have kept : Ready after ∧ IdsPrint floats truncate after := by
    refine ⟨ready.step orderly.1 done, fun batch id generated => ids batch id ?_⟩
    rw [← generated]
    exact (generateIds_congr done.toSend_file).symm
  cases done with
  | refused nothing unsent =>
    rw [nothing, unsent]
    exact ⟨by simpa using holds, rfl, kept⟩
  | failed made unsaved =>
    rw [orderly.1, save_ready ready] at unsaved
    cases unsaved
  | @saved entry disk made saved =>
    have settled := settled_entryFor orderly ids made
    obtain ⟨-, fromField, batch, id, -, shape⟩ := entryFor_shape made
    have message : messageOf entry = request.message := by rw [shape, messageOf_newEntry]
    rw [orderly.1, save_ready ready] at saved
    cases saved
    rw [made, ← message]
    exact ⟨appendLine_of_holds holds (roundTrips_settled settled), sentEntry_finish_settled settled, kept⟩

variable {replies : List (Except Failure Reply)} {s : Server} {number : Str → FloatText} {loraState : Mode}

/-- The log holds what it held, and then the entries that were queued, each as it was;
    accepted are those whose message can be printed. -/
structure Listed (floats : FloatReading) (truncate : FloatText → Except Failure Int) (server : Server)
    (documents : List Json) (replies : List (Except Failure Reply)) (s : Server) : Prop where
  ready : Ready s
  ids : IdsPrint floats truncate s
  queued : s.queued = server.queued ++ newEntries server s
  log : LogHolds (loads floats) s.disk (documents ++ newEntries server s)
  sent : sentEntries replies = (newEntries server s).filter Printable

theorem Listed.step (listed : Listed floats truncate server documents replies s) (orderly : Orderly floats s request)
    (done : Handled ⟨loads floats, truncate⟩ s request after reply) :
    Listed floats truncate server documents (replies ++ [reply]) after := by
  obtain ⟨grown, own, ready, ids⟩ := logHolds_request listed.ready listed.ids listed.log orderly done
  have queued := done.queued_eq
  rw [listed.queued, List.append_assoc] at queued
  have entries := newEntries_eq queued
  have one : sentEntries [reply] = (sentEntry reply).toList := by
    cases sent : sentEntry reply <;> simp [sentEntries, sent]
  refine ⟨ready, ids, ?_, ?_, ?_⟩
  · rw [entries, queued]
  · rw [entries, ← List.append_assoc]
    exact grown
  · rw [entries, List.filter_append, ← own, ← listed.sent, ← one]
    exact List.filterMap_append

theorem listed_run (ready : Ready server) (ids : IdsPrint floats truncate server)
    (holds : LogHolds (loads floats) server.disk documents)
    (run : Run (Requests.step ⟨loads floats, truncate⟩) (Orderly floats) server replies s) :
    Listed floats truncate server documents replies s := by
  have none_yet : newEntries server server = [] := newEntries_eq (List.append_nil _).symm
  have begins : Listed floats truncate server documents [] server := by
    refine ⟨ready, ids, ?_, ?_, ?_⟩
    · rw [none_yet, List.append_nil]
    · rwa [none_yet, List.append_nil]
    · rewrite [none_yet]
      rfl
  exact run.invariant (Listed floats truncate server documents) begins
    fun _ _ _ _ _ listed orderly now => listed.step orderly (step_handled now)

/-- After a run of requests an answer gives a page all that its script makes of the log
    and of the entries that were queued, in order; those that can be printed are the
    accepted ones. -/
theorem pages_listed (ready : Ready server) (ids : IdsPrint floats truncate server)
    (holds : LogHolds (loads floats) server.disk documents)
    (run : Run (Requests.step ⟨loads floats, truncate⟩) (Orderly floats) server replies s)
    (named : Joined (modeText loraState)) (finite : ∀ entry ∈ documents ++ newEntries server s, Finite entry)
    (cookie : JsString) (page : List Element) :
    arrive number cookie (getMessages (loads floats) s.disk loraState (lit "messages.json")) page =
        shownEntries number cookie (documents ++ newEntries server s) ∧
      sentEntries replies = (newEntries server s).filter Printable := by
  have listed := listed_run ready ids holds run
  exact ⟨arrive_getMessages listed.log named (floatsItems_iff.mpr finite) cookie page, listed.sent⟩

/-- A request from `A`, with a message of some type. -/
def requestOf (message : Json) : Request where
  data := .obj [(lit "from", .str (lit "A")), (lit "message", message), (lit "checksum", .bool true)]
  now := 1722250340

theorem ready_newServer : Ready newServer ∧ IdsPrint verbatim oneBrowser.truncate newServer ∧
    LogHolds (loads verbatim) newServer.disk [] := by
  refine ⟨⟨rfl, nofun⟩, ?_, .absent rfl⟩
  rintro batch id generated
  cases generated
  decide

theorem orderly_requestOf {message : Json} (settled : Settled verbatim message) :
    Orderly verbatim newServer (requestOf message) := by
  have names : [lit "from", lit "message", lit "checksum"].Nodup ∧
      ∀ name ∈ [lit "from", lit "message", lit "checksum", lit "A"], Joined name := by decide
  obtain ⟨keys, joined⟩ := names
  exact ⟨rfl, ⟨keys, joined _ (by simp), joined (lit "A") (by simp), joined _ (by simp), settled, joined _ (by simp),
    trivial, trivial⟩, (by decide : WithinLimit 1722250340)⟩

theorem run_requestOf {message : Json} (orderly : Orderly verbatim newServer (requestOf message)) :
    Run (Requests.step oneBrowser.python) (Orderly verbatim) newServer
      [(sendMessage oneBrowser.python newServer (requestOf message)).2]
      (sendMessage oneBrowser.python newServer (requestOf message)).1 :=
  .one orderly rfl

/-- A message that is a number is shown as JavaScript prints it. -/
theorem pages_listed_number : arrive oneBrowser.number (oneBrowser.cookie ()) (getMessages (loads verbatim)
    (sendMessage oneBrowser.python newServer (requestOf (.int 5))).1.disk .idle (lit "messages.json")) [] =
      [⟨js "<strong>A</strong>: 5", js "messageReceived"⟩] := by
  have orderly := orderly_requestOf (show Settled verbatim (.int 5) from (by decide : WithinLimit 5))
  have logged : [] ++ newEntries newServer (sendMessage oneBrowser.python newServer (requestOf (.int 5))).1 =
      [newEntry (.str (lit "A")) 1722250340 1 1 (.int 5)] := rfl
  have finite : ∀ entry ∈ [newEntry (.str (lit "A")) 1722250340 1 1 (.int 5)], Bodies.Finite entry := by
    simp [newEntry, Bodies.Finite, Floats, FloatsItems, FloatsMembers]
  refine (pages_listed ready_newServer.1 ready_newServer.2.1 ready_newServer.2.2 (run_requestOf orderly) (by decide)
    (logged ▸ finite) _ _).1.trans ?_
  rw [logged]
  decide +kernel

/-- Once an entry was accepted with a number that is not finite, no answer changes a
    page any more, whatever is sent later. -/
theorem pages_frozen (ready : Ready server) (ids : IdsPrint floats truncate server)
    (holds : LogHolds (loads floats) server.disk documents)
    (run : Run (Requests.step ⟨loads floats, truncate⟩) (Orderly floats) server replies s)
    (named : Joined (modeText loraState)) {entry : Json} (accepted : entry ∈ sentEntries replies)
    (infinite : ¬ Finite entry) (cookie : JsString) (page : List Element) :
    arrive number cookie (getMessages (loads floats) s.disk loraState (lit "messages.json")) page = page := by
  have listed := listed_run ready ids holds run
  rw [listed.sent] at accepted
  refine arrive_unbounded listed.log named (fun finite => infinite ?_) cookie page
  exact floatsItems_iff.mp finite entry (List.mem_append_right _ (List.mem_of_mem_filter accepted))

theorem pages_frozen_notANumber : arrive oneBrowser.number (oneBrowser.cookie ()) (getMessages (loads verbatim)
    (sendMessage oneBrowser.python newServer (requestOf (.float notANumber))).1.disk .idle (lit "messages.json"))
      [⟨js "before", js "sent"⟩] = [⟨js "before", js "sent"⟩] := by
  have orderly := orderly_requestOf (show Settled verbatim (.float notANumber) from .inl (.inl rfl))
  have sent : newEntry (.str (lit "A")) 1722250340 1 1 (.float notANumber) ∈
      sentEntries [(sendMessage oneBrowser.python newServer (requestOf (.float notANumber))).2] :=
    List.mem_singleton_self _
  exact pages_frozen ready_newServer.1 ready_newServer.2.1 ready_newServer.2.2 (run_requestOf orderly) (by decide) sent
    (by simp [newEntry, Bodies.Finite, Floats, FloatsItems, FloatsMembers, Unbounded]) _ _

end Hde.Listing
