import Hde.Page
import Hde.Published

/-!
The browsers and the server: what users send, in whatever order the posts arrive, and
what their pages show, in whatever order the polls and the answers pass each other. At
any time a page has an element for each of the first so many messages that were logged,
in that order and with the senders and the texts as they were entered
(`pages_show_logged`): every message once, and none that was not sent. A message with a
lone surrogate is logged as well, but its browser is told that it failed. What was
logged before a poll was made is on the page when its answer comes
(`answers_up_to_date`).
-/
namespace Hde.Clients
open Hde.Text Hde.Utf16 Hde.Numerals Hde.JsonText Hde.Rereading Hde.Files Hde.Loading Hde.Bodies Hde.Cookies Hde.Page
  Hde.Log Hde.Ids Hde.Requests Hde.Published Hde.Runs
open Hde.Engine (Mode)

variable {β : Type}

/-- A click on the send button, as it reaches the server. -/
structure Post (β : Type) where
  browser : β
  sender : JsString
  message : JsString
  checksum : JsString

/-- All the fields are there, as the server asks. -/
def Post.Complete (post : Post β) : Prop := post.sender ≠ [] ∧ post.message ≠ [] ∧ post.checksum ≠ []

instance (post : Post β) : Decidable post.Complete := by unfold Post.Complete; infer_instance

/-- A request for the listing, and how many messages had been logged when it was made. -/
structure Poll (β : Type) where
  browser : β
  known : Nat

inductive Status
  | sending
  | sent
  | loraFailed
deriving DecidableEq

/-- What does not change: the reading of numbers on both sides, and the cookies of the
    browsers, with the user that they name. -/
structure Setting (β : Type) where
  floats : FloatReading
  truncate : FloatText → Except Failure Int
  number : Str → FloatText
  cookie : β → JsString
  user : β → Option JsString
  named : ∀ b, getCookie username (cookie b) = .ok (user b)

def Setting.python (setting : Setting β) : Python := ⟨loads setting.floats, setting.truncate⟩

/-- The server, the messages under way in both directions and the pages. Neither side
    has the list of the complete posts that were handled, and no step looks at it. -/
structure System (β : Type) where
  server : Server
  posts : List (Post β)
  replies : List (Post β × Answer)
  polls : List (Poll β)
  answers : List (Poll β × Answer)
  pages : β → List Element
  status : β → Option Status
  logged : List (JsString × JsString)

inductive Event (β : Type)
  -- `send`, and whether `getChecksum` was answered
  | send (b : β) (sender message : JsString) (online : Bool)
  | handle (i : Nat) (now : Int)
  | settle (i : Nat)
  -- `setInterval(fetchMessages, 5000)`
  | refresh (b : β)
  | serve (i : Nat) (loraState : Mode)
  | arrive (i : Nat)

/-- The units that `trim` takes off. -/
def isJsSpace (u : UInt16) : Bool :=
  (9 ≤ u && u ≤ 13) || u == 32 || u == 0xA0 || u == 0x1680 || (0x2000 ≤ u && u ≤ 0x200A) || u == 0x2028 || u == 0x2029 ||
    u == 0x202F || u == 0x205F || u == 0x3000 || u == 0xFEFF

def answerOf : Except Failure Reply → Answer
  | .error _ => serverError
  | .ok reply =>
    match jsonifyText reply.body with
    | .error _ => serverError
    | .ok text => ⟨reply.status, text⟩

/-- `response.ok`, and the body is one that `response.json()` reads. -/
def succeeded (number : Str → FloatText) (answer : Answer) : Bool :=
  200 ≤ answer.status && answer.status ≤ 299 && (parse number answer.body).isOk

def step [DecidableEq β] (setting : Setting β) (st : System β) : Event β → Option (System β × Unit)
  | .send b sender message online =>
    if message.all isJsSpace then some (st, ())
    else
      let checksum := if online then units st.server.checksum else []
      some ({ st with
        posts := st.posts ++ [⟨b, sender, message, checksum⟩]
        status := Function.update st.status b (some .sending) }, ())
  | .handle i now => do
    let post ← st.posts[i]?
    let left := { st with posts := st.posts.eraseIdx i }
    match loads setting.floats (sendBody post.sender post.message post.checksum) with
    | .error _ => some ({ left with replies := st.replies ++ [(post, ⟨400, []⟩)] }, ())
    | .ok data =>
      let done := sendMessage setting.python st.server { data := data, now := now }
      some ({ left with
        server := done.1
        replies := st.replies ++ [(post, answerOf done.2)]
        logged := if post.Complete then st.logged ++ [(post.sender, post.message)] else st.logged }, ())
  | .settle i => do
    let (post, answer) ← st.replies[i]?
    let left := { st with replies := st.replies.eraseIdx i }
    if succeeded setting.number answer then
      some ({ left with
        status := Function.update st.status post.browser (some .sent)
        polls := st.polls ++ [⟨post.browser, st.logged.length⟩] }, ())
    else some ({ left with status := Function.update st.status post.browser (some .loraFailed) }, ())
  | .refresh b => some ({ st with polls := st.polls ++ [⟨b, st.logged.length⟩] }, ())
  | .serve i loraState => do
    let poll ← st.polls[i]?
    let answer := getMessages (loads setting.floats) st.server.disk loraState (lit "messages.json")
    some ({ st with polls := st.polls.eraseIdx i, answers := st.answers ++ [(poll, answer)] }, ())
  | .arrive i => do
    let (poll, answer) ← st.answers[i]?
    let page := arrive setting.number (setting.cookie poll.browser) answer (st.pages poll.browser)
    some ({ st with
      answers := st.answers.eraseIdx i
      pages := Function.update st.pages poll.browser page }, ())

/-- The clock's numbers can be printed, and so can the name of the state. -/
def Usable (_ : System β) : Event β → Prop
  | .handle _ now => WithinLimit now
  | .serve _ loraState => Joined (modeText loraState)
  | _ => True

instance (st : System β) : DecidablePred (Usable st)
  | .handle _ now => inferInstanceAs (Decidable (WithinLimit now))
  | .serve _ loraState => inferInstanceAs (Decidable (Joined (modeText loraState)))
  | .send _ _ _ _ | .settle _ | .refresh _ | .arrive _ => isTrue trivial

/-- The browsers open their pages. -/
def opened (β : Type) (server : Server) (logged : List (JsString × JsString)) : System β where
  server := server
  posts := []
  replies := []
  polls := []
  answers := []
  pages := fun _ => []
  status := fun _ => none
  logged := logged

/-! ### The entry of a message, and its element -/

/-- The element of a message. -/
def sentElement (fromUser : Option JsString) (sent : JsString × JsString) : Element :=
  ⟨js "<strong>" ++ sent.1 ++ js "</strong>: " ++ sent.2,
    if fromUser = some sent.1 then js "sent" else js "messageReceived"⟩

/-- The entry that a message gets in the log. -/
def Records (sent : JsString × JsString) (entry : Json) : Prop :=
  sent.1 ≠ [] ∧ ∃ now batch id, (WithinLimit now ∧ WithinLimit batch ∧ WithinLimit id) ∧
    entry = newEntry (.str (codePoints sent.1)) now batch id (.str (codePoints sent.2))

variable {floats : FloatReading} {number : Str → FloatText} {sent : JsString × JsString} {entry : Json}

theorem codePoints_ne_nil {s : JsString} (some_text : s ≠ []) : codePoints s ≠ [] := by
  intro empty
  apply some_text
  rw [← units_codePoints s, empty]
  rfl

theorem finite_records (records : Records sent entry) : Finite entry := by
  obtain ⟨-, now, batch, id, -, rfl⟩ := records
  exact ⟨trivial, trivial, trivial, ⟨⟨trivial, trivial, trivial⟩, trivial⟩, trivial⟩

theorem finite_entries {logged : List (JsString × JsString)} {entries : List Json}
    (records : List.Forall₂ Records logged entries) : FloatsItems (fun x => ¬ Unbounded x) entries := by
  induction records with
  | nil => trivial
  | cons first _ ih => exact ⟨finite_records first, ih⟩

theorem settled_newEntry {sender message : Json} {now batch id : Int} (fields : Settled floats sender ∧ Settled floats message)
    (limits : WithinLimit now ∧ WithinLimit batch ∧ WithinLimit id) :
    Settled floats (newEntry sender now batch id message) := by
  have names : [lit "from", lit "timestamp", lit "chunk_batch", lit "chunk"].Nodup ∧ [lit "id", lit "message"].Nodup ∧
      ∀ name ∈ [lit "from", lit "timestamp", lit "chunk_batch", lit "chunk", lit "id", lit "message"], Joined name := by
    decide
  obtain ⟨outer, inner, joined⟩ := names
  exact ⟨outer, joined _ (by simp), fields.1, joined _ (by simp), limits.1, joined _ (by simp), limits.2.1,
    joined _ (by simp), ⟨⟨inner, joined _ (by simp), limits.2.2, joined _ (by simp), fields.2, trivial⟩, trivial⟩,
    trivial⟩

theorem showEntry_records (records : Records sent entry) (fromUser : Option JsString) :
    showEntry fromUser (fetched number entry) = ([sentElement fromUser sent], none) := by
  obtain ⟨named, now, batch, id, -, rfl⟩ := records
  have names : [lit "from", lit "timestamp", lit "chunk_batch", lit "chunk"].Nodup ∧ [lit "id", lit "message"].Nodup := by
    decide
  have sender : property (fetched number (newEntry (.str (codePoints sent.1)) now batch id (.str (codePoints sent.2))))
      (lit "from") = .ok (some (.str (codePoints sent.1))) := property_fetched (by exact names.1) (lit "from")
  have chunk : property (fetched number (newEntry (.str (codePoints sent.1)) now batch id (.str (codePoints sent.2))))
      (lit "chunk") = .ok (some (.arr [fetched number (.obj [(lit "id", .int id),
        (lit "message", .str (codePoints sent.2))])])) := property_fetched (by exact names.1) (lit "chunk")
  have message : property (fetched number (.obj [(lit "id", .int id), (lit "message", .str (codePoints sent.2))]))
      (lit "message") = .ok (some (.str (codePoints sent.2))) := property_fetched (by exact names.2) (lit "message")
  have some_name : falsy (some (.str (codePoints sent.1))) = false := by
    simpa [falsy] using codePoints_ne_nil named
  have opened : openEntry (fetched number (newEntry (.str (codePoints sent.1)) now batch id (.str (codePoints sent.2)))) =
      .ok (.str (codePoints sent.1), [fetched number (.obj [(lit "id", .int id),
        (lit "message", .str (codePoints sent.2))])]) := by
    simp only [openEntry, sender, chunk, orElse, some_name, bind, Except.bind]
    rfl
  have shown : showMessage fromUser (.str (codePoints sent.1)) (fetched number (.obj [(lit "id", .int id),
      (lit "message", .str (codePoints sent.2))])) = .ok (sentElement fromUser sent) := by
    simp only [showMessage, message, textOf, templateText, ownClass, units_codePoints, bind, Except.bind]
    rfl
  rw [showEntry, opened]
  dsimp only
  rw [showChunk, shown, showChunk]

/-- The script shows the entries of messages one after the other. -/
theorem showEntries_records {logged : List (JsString × JsString)} {entries : List Json}
    (records : List.Forall₂ Records logged entries) (fromUser : Option JsString) :
    showEntries fromUser (entries.map (fetched number)) = (logged.map (sentElement fromUser), none) := by
  induction records with
  | nil => rfl
  | cons first _ ih =>
    rw [List.map_cons, showEntries, showEntry_records first]
    dsimp only
    rw [ih]
    rfl

/-- With nothing to parse in the sender and the text, the browser shows them as they were
    entered. -/
theorem texts_sentElement (fromUser : Option JsString) (plain : Plain sent.1 ∧ Plain sent.2) :
    (sentElement fromUser sent).texts = some (sent.1, js ": " ++ sent.2) := by
  have colon : js "</strong>: " = js "</strong>" ++ js ": " := by decide
  have after : Plain (js ": " ++ sent.2) := by
    intro u member
    rcases List.mem_append.mp member with mark | own
    · exact (by decide : Plain (js ": ")) u mark
    · exact plain.2 u own
  rw [sentElement, colon, ← List.append_assoc, List.append_assoc _ (js ": ")]
  exact texts_plain ⟨plain.1, after⟩ _

/-! ### What the server does with a post -/

/-- The members that the server gets of a post. -/
def membersOf (sender message checksum : JsString) : List (Str × Json) :=
  [(lit "from", .str (codePoints sender)), (lit "message", .str (codePoints message)),
    (lit "checksum", .str (codePoints checksum))]

theorem settled_reply (settled : Settled floats entry) :
    Settled floats (.obj [(lit "status", .str (lit "success")), (lit "sent", entry)]) := by
  have names : [lit "status", lit "sent"].Nodup ∧ Joined (lit "status") ∧ Joined (lit "sent") ∧ Joined (lit "success") := by
    decide
  exact ⟨names.1, names.2.1, names.2.2.2, names.2.2.1, settled, trivial⟩

/-- A printed body with finite numbers is one that the browser reads. -/
theorem succeeded_jsonify {body : Json} {status : Nat} (settled : Settled floats body) (finite : Finite body) :
    succeeded number (answerOf (jsonify body status)) = decide (200 ≤ status ∧ status ≤ 299) := by
  obtain ⟨plain, printed⟩ : ∃ text, dumps none body = .ok text := dumpsAt_settled 0 settled
  obtain ⟨text, ok⟩ : ∃ text, dumps (some 2) (sortKeys body) = .ok text := dumpsAt_settled 0 (settled_sortKeys settled)
  have parsed : parse number ([] ++ text ++ [Lines.lineFeed]) = .ok (fetched number body) :=
    parse_dumps (settled_sortKeys settled) (floats_sortKeys.mpr finite) ok white_lineFeed
  rw [List.nil_append] at parsed
  simp only [jsonify, printed, answerOf, jsonifyText, ok, Except.map, succeeded, parsed]
  simp [Except.isOk, Except.toBool]

theorem print_settled {members : List (Str × Json)} (settled : Settled floats (.obj members)) :
    print (.obj members) = .ok () :=
  print_obj_iff.mpr (dumpsAt_settled 0 settled)

/-- The reply to a message that was logged says so if the message can be printed. -/
theorem succeeded_finish {text : Str} (settled : Settled floats entry) (finite : Finite entry) :
    succeeded number (answerOf (finish (.str text) entry)) = true ↔ Scalars text := by
  rw [finish]
  cases printed : print (.str text) with
  | error e =>
    have lone : ¬ Scalars text := fun scalars => by simp [print_str_iff.mpr scalars] at printed
    exact iff_of_false Bool.false_ne_true lone
  | ok =>
    refine iff_of_true ?_ (print_str_iff.mp printed)
    show succeeded number (answerOf (success entry)) = true
    rw [success, succeeded_jsonify (settled_reply settled) ⟨trivial, finite, trivial⟩]
    rfl

theorem succeeded_missingFields : succeeded number (answerOf missingFields) = false := by
  have names : [lit "error"].Nodup ∧ Joined (lit "error") ∧ Joined (lit "Missing fields") := by decide
  have settled : Settled ⟨fun _ => notANumber, fun _ _ => .inl (.inl rfl)⟩ (.obj [(lit "error", .str (lit "Missing fields"))]) :=
    ⟨names.1, names.2.1, names.2.2, trivial⟩
  rw [missingFields, succeeded_jsonify settled ⟨trivial, trivial⟩]
  rfl

variable {python : Python} {server : Server}

/-- A complete post appends its entry, any other changes nothing. -/
theorem sendMessage_post (ready : Ready server) {batch id : Int} (ids : generateIds python server.disk = .ok (batch, id))
    (post : Post β) (now : Int)
    (printed : print (newEntry (.str (codePoints post.sender)) now batch id (.str (codePoints post.message))) = .ok ()) :
    sendMessage python server { data := .obj (membersOf post.sender post.message post.checksum), now := now } =
      if post.Complete then
        let entry := newEntry (.str (codePoints post.sender)) now batch id (.str (codePoints post.message))
        ({ server.queueMessage entry with disk := appendLine .succeeds server.disk entry },
          finish (.str (codePoints post.message)) entry)
      else (server, missingFields) := by
  have text (s : JsString) : ¬ (Json.str (codePoints s)).truthy = true ↔ s = [] := by
    simp only [Json.truthy, decide_eq_true_eq, not_not]
    constructor
    · intro empty
      by_contra some_text
      exact codePoints_ne_nil some_text empty
    · rintro rfl
      rfl
  obtain ⟨_, sender, message, checksum⟩ := post
  have fields : get (membersOf sender message checksum) (lit "from") = .str (codePoints sender) ∧
      get (membersOf sender message checksum) (lit "message") = .str (codePoints message) ∧
      get (membersOf sender message checksum) (lit "checksum") = .str (codePoints checksum) := ⟨rfl, rfl, rfl⟩
  dsimp only at printed
  simp only [sendMessage, fields, text, ids, printed, Post.Complete, ne_eq, ← not_or]
  by_cases missing : sender = [] ∨ message = [] ∨ checksum = []
  · rw [if_pos missing, if_neg (not_not.mpr missing)]
  · rw [if_neg missing, if_pos missing, save_ready ready]

/-- The ids depend on `to_send.json` only. -/
theorem generateIds_congr {disk other : Disk} (same : other toSendPath = disk toSendPath) :
    generateIds python other = generateIds python disk := by
  simp only [generateIds, generateBatchId, generateChunkId, lastBatchId, lastChunkId, loadJson_congr python same]

theorem appendLine_toSend (disk : Disk) (entry : Json) :
    appendLine .succeeds disk entry toSendPath = disk toSendPath := by
  rcases appendLine_cases .succeeds disk entry with same | ⟨content, written⟩
  · rw [same]
  · rw [written, write_of_ne disk content (by decide)]

theorem ready_append (ready : Ready server) (entry : Json) :
    Ready { server.queueMessage entry with disk := appendLine .succeeds server.disk entry } := by
  rcases appendLine_cases .succeeds server.disk entry with same | ⟨content, written⟩
  · exact ⟨by simpa [same] using ready.messages, by simpa [same] using ready.log⟩
  · refine ⟨?_, by simp [written]⟩
    simpa [written, write_of_ne _ _ (by decide : lit "messages" ≠ logPath)] using ready.messages

/-! ### What holds at any time -/

variable {setting : Setting β} {st next : System β}

/-- A page with the elements of the first messages. -/
def shownFirst (setting : Setting β) (b : β) (logged : List (JsString × JsString)) (n : Nat) : List Element :=
  (logged.take n).map (sentElement (setting.user b))

/-- The browser shows the sender and the text of a message, if there is nothing to parse
    in them. -/
def Displays (sent : JsString × JsString) (element : Element) : Prop :=
  Plain sent.1 ∧ Plain sent.2 → element.texts = some (sent.1, js ": " ++ sent.2)

/-- An answer that gives any page of its browser the first messages, at least those that
    had been logged when its poll was made. -/
def ShowsFirst (setting : Setting β) (logged : List (JsString × JsString)) (answer : Poll β × Answer) : Prop :=
  ∃ n, answer.1.known ≤ n ∧ n ≤ logged.length ∧
    ∀ page, arrive setting.number (setting.cookie answer.1.browser) answer.2 page =
      shownFirst setting answer.1.browser logged n

/-- A complete post has been logged, and its browser is told so unless the message has a
    lone surrogate. -/
def Answered (setting : Setting β) (logged : List (JsString × JsString)) (reply : Post β × Answer) : Prop :=
  (reply.1.Complete → (reply.1.sender, reply.1.message) ∈ logged) ∧
    (succeeded setting.number reply.2 = true ↔ reply.1.Complete ∧ Scalars (codePoints reply.1.message))

structure Sound (setting : Setting β) (before : List (JsString × JsString)) (st : System β) : Prop where
  ready : Ready st.server
  ids : ∃ batch id, generateIds setting.python st.server.disk = .ok (batch, id) ∧ WithinLimit batch ∧ WithinLimit id
  earlier : before <+: st.logged
  log : ∃ entries, List.Forall₂ Records st.logged entries ∧ LogHolds (loads setting.floats) st.server.disk entries
  replies : ∀ reply ∈ st.replies, Answered setting st.logged reply
  polls : ∀ poll ∈ st.polls, poll.known ≤ st.logged.length
  answers : ∀ answer ∈ st.answers, ShowsFirst setting st.logged answer
  pages : ∀ b, ∃ n ≤ st.logged.length, st.pages b = shownFirst setting b st.logged n

theorem shownFirst_append {logged more : List (JsString × JsString)} {n : Nat} (inside : n ≤ logged.length) (b : β) :
    shownFirst setting b (logged ++ more) n = shownFirst setting b logged n := by
  rw [shownFirst, shownFirst, List.take_append_of_le_length inside]

theorem displays_of_shownFirst {b : β} {logged : List (JsString × JsString)} {n : Nat} {page : List Element}
    (shows : page = shownFirst setting b logged n) : List.Forall₂ Displays (logged.take n) page := by
  rw [shows, shownFirst, List.forall₂_map_right_iff, List.forall₂_same]
  exact fun sent _ plain => texts_sentElement _ plain

theorem mem_of_mem_eraseIdx {γ : Type} {items : List γ} {i : Nat} {item : γ} (member : item ∈ items.eraseIdx i) :
    item ∈ items :=
  (List.eraseIdx_sublist items i).subset member

/-- An answer that is made now shows all that has been logged. -/
theorem showsFirst_getMessages {before : List (JsString × JsString)} (sound : Sound setting before st) {poll : Poll β}
    (known : poll.known ≤ st.logged.length) {loraState : Mode} (named : Joined (modeText loraState)) :
    ShowsFirst setting st.logged
      (poll, getMessages (loads setting.floats) st.server.disk loraState (lit "messages.json")) := by
  obtain ⟨entries, records, holds⟩ := sound.log
  refine ⟨st.logged.length, known, Nat.le_refl _, fun page => ?_⟩
  rw [arrive_getMessages holds named (finite_entries records), shownEntries, setting.named]
  dsimp only
  rw [showEntries_records records, shownFirst, List.take_length]

variable [DecidableEq β]

/-- A post that has been handled. -/
theorem Sound.handle {before : List (JsString × JsString)} (sound : Sound setting before st) {i : Nat} {now : Int}
    (limit : WithinLimit now) (done : step setting st (.handle i now) = some (next, ())) : Sound setting before next := by
  obtain ⟨post, there, rest⟩ := Option.bind_eq_some_iff.mp done
  obtain ⟨batch, id, ids, limits⟩ := sound.ids
  obtain ⟨entries, records, holds⟩ := sound.log
  have settled : Settled setting.floats
      (newEntry (.str (codePoints post.sender)) now batch id (.str (codePoints post.message))) :=
    settled_newEntry ⟨joined_codePoints _, joined_codePoints _⟩ ⟨limit, limits⟩
  have handled := sendMessage_post sound.ready ids post now (print_settled settled)
  rw [membersOf] at handled
  rw [loads_sendBody] at rest
  dsimp only at rest
  rw [handled] at rest
  by_cases complete : post.Complete
  · rw [if_pos complete, if_pos complete] at rest
    cases rest
    have record : Records (post.sender, post.message)
        (newEntry (.str (codePoints post.sender)) now batch id (.str (codePoints post.message))) :=
      ⟨complete.1, now, batch, id, ⟨limit, limits⟩, rfl⟩
    have longer : st.logged.length ≤ (st.logged ++ [(post.sender, post.message)]).length := by simp
    refine ⟨ready_append sound.ready _, ⟨batch, id, ?_, limits⟩, sound.earlier.trans (List.prefix_append _ _),
      ⟨entries ++ [_], List.rel_append records (.cons record .nil), ?_⟩, ?_, ?_, ?_, ?_⟩
    · rw [← ids]
      exact generateIds_congr (appendLine_toSend _ _)
    · exact appendLine_of_holds holds (roundTrips_settled settled)
    · intro reply member
      rcases List.mem_append.mp member with old | new
      · obtain ⟨listed, told⟩ := sound.replies reply old
        exact ⟨fun whole => List.mem_append_left _ (listed whole), told⟩
      · rw [List.mem_singleton.mp new]
        refine ⟨fun _ => List.mem_append_right _ (List.mem_singleton_self _), ?_⟩
        rw [and_iff_right complete]
        exact succeeded_finish settled (finite_records record)
    · exact fun poll member => (sound.polls poll member).trans longer
    · intro answer member
      obtain ⟨n, known, inside, shows⟩ := sound.answers answer member
      exact ⟨n, known, inside.trans longer, fun page => (shows page).trans (shownFirst_append inside _).symm⟩
    · intro b
      obtain ⟨n, inside, shows⟩ := sound.pages b
      exact ⟨n, inside.trans longer, shows.trans (shownFirst_append inside b).symm⟩
  · rw [if_neg complete, if_neg complete] at rest
    cases rest
    refine { sound with replies := fun reply member => ?_ }
    rcases List.mem_append.mp member with old | new
    · exact sound.replies reply old
    · rw [List.mem_singleton.mp new]
      exact ⟨fun whole => absurd whole complete,
        iff_of_false (by rw [succeeded_missingFields]; exact Bool.false_ne_true) fun whole => complete whole.1⟩

theorem Sound.step {before : List (JsString × JsString)} (sound : Sound setting before st) {event : Event β}
    (usable : Usable st event) (done : step setting st event = some (next, ())) : Sound setting before next := by
  have polls {b : β} : ∀ poll ∈ st.polls ++ [⟨b, st.logged.length⟩], poll.known ≤ st.logged.length := by
    intro poll member
    rcases List.mem_append.mp member with old | new
    · exact sound.polls poll old
    · rw [List.mem_singleton.mp new]
  cases event with
  | send b sender message online =>
    rw [Clients.step] at done
    split at done
    · cases done
      exact sound
    · cases done
      exact { sound with }
  | handle i now => exact sound.handle usable done
  | settle i =>
    obtain ⟨⟨post, answer⟩, there, rest⟩ := Option.bind_eq_some_iff.mp done
    have replies : ∀ reply ∈ st.replies.eraseIdx i, Answered setting st.logged reply := fun reply member =>
      sound.replies reply (mem_of_mem_eraseIdx member)
    dsimp only at rest
    split at rest
    · cases rest
      exact { sound with replies := replies, polls := polls }
    · cases rest
      exact { sound with replies := replies }
  | refresh b =>
    cases done
    exact { sound with polls := polls }
  | serve i loraState =>
    obtain ⟨poll, there, rest⟩ := Option.bind_eq_some_iff.mp done
    cases rest
    have known := sound.polls poll (List.mem_of_getElem? there)
    refine { sound with polls := fun other member => sound.polls other (mem_of_mem_eraseIdx member), answers := ?_ }
    intro answer member
    rcases List.mem_append.mp member with old | new
    · exact sound.answers answer old
    · rw [List.mem_singleton.mp new]
      exact showsFirst_getMessages sound known usable
  | arrive i =>
    obtain ⟨⟨poll, answer⟩, there, rest⟩ := Option.bind_eq_some_iff.mp done
    cases rest
    obtain ⟨n, -, inside, shows⟩ := sound.answers _ (List.mem_of_getElem? there)
    refine { sound with answers := fun other member => sound.answers other (mem_of_mem_eraseIdx member), pages := ?_ }
    intro b
    by_cases own : b = poll.browser
    · subst own
      exact ⟨n, inside, (Function.update_self _ _ _).trans (shows _)⟩
    · obtain ⟨m, below, page⟩ := sound.pages b
      exact ⟨m, below, (Function.update_of_ne own _ _).trans page⟩

/-- What a unit starts with: its files, whose log holds the messages of its last runs,
    and ids that can be printed. -/
structure Started (setting : Setting β) (before : List (JsString × JsString)) (server : Server) : Prop where
  started : ∃ disk, startUp disk = .ok server
  ids : ∃ batch id, generateIds setting.python server.disk = .ok (batch, id) ∧ WithinLimit batch ∧ WithinLimit id
  log : ∃ entries, List.Forall₂ Records before entries ∧ LogHolds (loads setting.floats) server.disk entries

omit [DecidableEq β] in
theorem sound_opened {before : List (JsString × JsString)} {server : Server} (started : Started setting before server) :
    Sound setting before (opened β server before) := by
  obtain ⟨disk, up⟩ := started.started
  exact ⟨(startUp_ready up).1, started.ids, List.prefix_refl _, started.log, nofun, nofun, nofun,
    fun _ => ⟨0, Nat.zero_le _, rfl⟩⟩

theorem sound_run {before : List (JsString × JsString)} {server : Server} (started : Started setting before server)
    {events : List Unit} (run : Run (step setting) Usable (opened β server before) events st) :
    Sound setting before st :=
  run.invariant (fun _ st => Sound setting before st) (sound_opened started)
    fun _ _ _ _ _ sound usable done => sound.step usable done

/-- In every run each page has the elements of the first so many messages that were
    logged, in order and as they were entered. A browser is told that its message was
    sent exactly if the post is complete and the message can be printed, and a complete
    post is logged in any case. -/
theorem pages_show_logged {before : List (JsString × JsString)} {server : Server}
    (started : Started setting before server) {events : List Unit}
    (run : Run (step setting) Usable (opened β server before) events st) :
    before <+: st.logged ∧
      (∀ b, ∃ n ≤ st.logged.length, st.pages b = shownFirst setting b st.logged n ∧
        List.Forall₂ Displays (st.logged.take n) (st.pages b)) ∧
      ∀ reply ∈ st.replies, Answered setting st.logged reply := by
  have sound := sound_run started run
  refine ⟨sound.earlier, fun b => ?_, sound.replies⟩
  obtain ⟨n, inside, shows⟩ := sound.pages b
  exact ⟨n, inside, shows, displays_of_shownFirst shows⟩

def oneBrowser : Setting Unit where
  floats := verbatim
  truncate := fun _ => .error (typeError [])
  number := verbatim.read
  cookie := fun _ => js "theme=dark; username=Zo%C3%AB"
  user := fun _ => some (js "Zoë")
  named := by decide +kernel

/-- What the first start of a unit leaves. -/
def newServer : Server where
  disk := Function.update (Function.update (fun _ => none) (lit "messages") (some .directory)) (lit "messages/saves")
    (some .directory)
  checksum := fileNotFound
  queued := []

theorem started_new : Started oneBrowser [] newServer where
  started := ⟨fun _ => none, rfl⟩
  ids := ⟨1, 1, rfl, by decide, by decide⟩
  log := ⟨[], .nil, .absent rfl⟩

/-- The states of the new unit, with one browser. -/
def after (events : List (Event Unit)) : System Unit :=
  reached (step oneBrowser) (fun st event => decide (Usable st event)) (opened Unit newServer []) events

/-- A message, and a poll before and after it. -/
def hello : List (Event Unit) :=
  [.send () (js "Zoë") (js "hello") true, .refresh (), .serve 0 .idle, .handle 0 1722250340, .refresh (), .serve 0 .idle]

theorem pages_show_logged_hello : [] <+: (after hello).logged ∧ (∀ b, ∃ n ≤ (after hello).logged.length,
    (after hello).pages b = shownFirst oneBrowser b (after hello).logged n ∧
      List.Forall₂ Displays ((after hello).logged.take n) ((after hello).pages b)) ∧
    ∀ reply ∈ (after hello).replies, Answered oneBrowser (after hello).logged reply :=
  have ⟨_, run⟩ : ∃ events, Run (step oneBrowser) Usable (opened Unit newServer []) events (after hello) :=
    run_reached (by decide +kernel)
  pages_show_logged started_new run

/-- When an answer comes, the page has the elements of all the messages that had been
    logged when its poll was made, and perhaps of later ones. -/
theorem answers_up_to_date {before : List (JsString × JsString)} {server : Server}
    (started : Started setting before server) {events : List Unit}
    (run : Run (step setting) Usable (opened β server before) events st) {i : Nat} {poll : Poll β} {answer : Answer}
    (there : st.answers[i]? = some (poll, answer)) (arrived : step setting st (.arrive i) = some (next, ())) :
    ∃ n, poll.known ≤ n ∧ n ≤ next.logged.length ∧
      next.pages poll.browser = shownFirst setting poll.browser next.logged n ∧
        List.Forall₂ Displays (next.logged.take n) (next.pages poll.browser) := by
  have sound := sound_run started run
  obtain ⟨n, known, inside, shows⟩ := sound.answers _ (List.mem_of_getElem? there)
  rw [Clients.step, there] at arrived
  cases arrived
  have page : Function.update st.pages poll.browser
      (arrive setting.number (setting.cookie poll.browser) answer (st.pages poll.browser)) poll.browser =
        shownFirst setting poll.browser st.logged n := (Function.update_self _ _ _).trans (shows _)
  exact ⟨n, known, inside, page, displays_of_shownFirst page⟩

/-- The answer to the poll after the message brings it. -/
theorem answers_up_to_date_hello :
    (step oneBrowser (after hello) (.arrive 1)).map (fun next => next.1.pages ()) =
      some [⟨js "<strong>Zoë</strong>: hello", js "sent"⟩] := by
  obtain ⟨events, run⟩ : ∃ events, Run (step oneBrowser) Usable (opened Unit newServer []) events (after hello) :=
    run_reached (by decide +kernel)
  have known : (after hello).answers.map (·.1.known) = [0, 1] := by decide +kernel
  have logged : (step oneBrowser (after hello) (.arrive 1)).map (·.1.logged) = some [(js "Zoë", js "hello")] := by
    decide +kernel
  generalize after hello = st at run known logged ⊢
  obtain ⟨⟨next, ⟨⟩⟩, arrived, all⟩ := Option.map_eq_some_iff.mp logged
  obtain ⟨⟨poll, answer⟩, there, polled⟩ : ∃ entry, st.answers[1]? = some entry ∧ entry.1.known = 1 := by
    rw [← Option.map_eq_some_iff, ← List.getElem?_map, known]
    rfl
  obtain ⟨n, enough, -, shows, -⟩ := answers_up_to_date started_new run there arrived
  rw [polled] at enough
  rw [all, shownFirst, List.take_of_length_le (by simpa using enough)] at shows
  rw [arrived, Option.map_some]
  refine (congrArg some shows).trans ?_
  show some ([(js "Zoë", js "hello")].map (sentElement (some (js "Zoë")))) = _
  decide +kernel

end Hde.Clients
