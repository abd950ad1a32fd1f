import Hde.Cookies
import Hde.Log

/-!
The page that `fetchMessages` makes of the server's answer. The answer lists the
entries with their keys sorted; the script clears the page, goes through the entries
and appends an element for each message, up to the first exception. If the entries of
the log are settled and finite, the page has all that the script makes of them
(`arrive_getMessages`), and if one of them is not finite, every answer leaves every page
as it is (`arrive_unbounded`). A page is the list of its elements with the HTML that
each was given; what a browser makes of the HTML is `Element.texts` where there is
nothing to parse in the sender and the text.
-/
namespace Hde.Page
open Hde.Text Hde.Utf16 Hde.Numerals Hde.Lines Hde.JsonText Hde.JsonScan Hde.Rereading Hde.Files Hde.Loading
  Hde.Bodies Hde.Cookies Hde.Log
open Hde.Engine (Mode)

/-! ### The answer of the server -/

def KeyLE (a b : Str × Json) : Prop := a.1.map CodePoint.val ≤ b.1.map CodePoint.val

instance : DecidableRel KeyLE := fun _ _ => inferInstanceAs (Decidable (_ ≤ _))

mutual

/-- A value with the members of its objects in the order of their keys: Flask's `jsonify`
    sorts them, as its documentation says. -/
def sortKeys : Json → Json
  | .arr items => .arr (sortItems items)
  | .obj members => .obj ((sortMembers members).insertionSort KeyLE)
  | value => value

def sortItems : List Json → List Json
  | [] => []
  | item :: more => sortKeys item :: sortItems more

def sortMembers : List (Str × Json) → List (Str × Json)
  | [] => []
  | (key, value) :: more => (key, sortKeys value) :: sortMembers more

end

/-- The body of `jsonify(value)` as Flask documents it for debug mode: ASCII with the
    keys sorted, an indentation of two and a newline at the end. -/
def jsonifyText (value : Json) : Except ValueError Str := (dumps (some 2) (sortKeys value)).map (· ++ [lineFeed])

def modeText : Mode → Str
  | .idle => lit "idle"
  | .reset => lit "reset"
  | .transmit => lit "transmit"
  | .receive => lit "receive"
  | .other name _ => name

/-- What `source_messages` gives to `jsonify`, and the status. -/
def responseJson : Response → Json × Nat
  | .listing none data => (.obj [(lit "data", .arr data)], 200)
  | .listing (some lora) data => (.obj [(lit "lora", .str (modeText lora)), (lit "data", .arr data)], 200)
  | .error text status => (.obj [(lit "error", .str text)], status)

structure Answer where
  status : Nat
  body : Str
deriving DecidableEq

/-- The answer to an exception; nobody reads its body. -/
def serverError : Answer := ⟨500, []⟩

/-- `GET /api/messages/<filename>`. -/
def getMessages (loads : Loads) (disk : Disk) (loraState : Mode) (filename : Str) : Answer :=
  match sourceMessages loads disk loraState filename with
  | .error _ => serverError
  | .ok response =>
    match jsonifyText (responseJson response).1 with
    | .error _ => serverError
    | .ok text => ⟨(responseJson response).2, text⟩

/-! ### The values of the script -/

/-- `value.name`, for a name that nothing inherits: `none` is `undefined`. -/
def property (value : Json) (name : Str) : Except JsError (Option Json) :=
  match value with
  | .null => .error .typeError
  | .obj members => .ok (Json.member members name)
  | _ => .ok none

def falsy : Option Json → Bool
  | none => true
  | some .null => true
  | some (.bool b) => ¬ b
  | some (.str s) => s = []
  | some (.int n) => n = 0
  | some (.float x) => x.text = lit "0"
  | some _ => false

/-- `value || other`. -/
def orElse (value : Option Json) (other : Json) : Json := if falsy value then other else value.getD other

/-- What `forEach` goes through: only an array has it. -/
def forEach : Option Json → Except JsError (List Json)
  | some (.arr items) => .ok items
  | _ => .error .typeError

mutual

/-- `String(value)`. -/
def textOf : Json → Except JsError Str
  | .null => .ok (lit "null")
  | .bool b => .ok (if b then lit "true" else lit "false")
  | .int n => .ok (intText n)
  | .float x => .ok x.text
  | .str s => .ok s
  | .arr items => (textsOf items).map (joinTexts (lit ","))
  -- a `toString` of its own is no function
  | .obj members =>
    if (Json.member members (lit "toString")).isSome then .error .typeError else .ok (lit "[object Object]")

/-- The texts that `join` joins. -/
def textsOf : List Json → Except JsError (List Str)
  | [] => .ok []
  | .null :: more => (textsOf more).map ([] :: ·)
  | item :: more => do return (← textOf item) :: (← textsOf more)

end

/-- `${value}`. -/
def templateText : Option Json → Except JsError Str
  | none => .ok (lit "undefined")
  | some value => textOf value

/-! ### `fetchMessages` -/

/-- A message on the page: the HTML that was assigned to it, as the script wrote it. -/
structure Element where
  innerHTML : JsString
  className : JsString
deriving DecidableEq

/-- The HTML parser takes the text as it is: no tag, no character reference, no NUL and
    no carriage return. -/
def Plain (s : JsString) : Prop := ∀ u ∈ s, u ∉ [0x3C, 0x26, 0, 0x0D]

instance : DecidablePred Plain := fun s => List.decidableBAll (fun u => u ∉ [0x3C, 0x26, 0, 0x0D]) s

/-- The text in bold and the text after it that the browser shows for an element. With
    anything else in the HTML it is for the parser to say. -/
def Element.texts (element : Element) : Option (JsString × JsString) :=
  let inside := element.innerHTML.drop (js "<strong>").length
  let bold := inside.takeWhile (· ≠ 0x3C)
  let after := inside.drop (bold ++ js "</strong>").length
  if element.innerHTML = js "<strong>" ++ bold ++ js "</strong>" ++ after ∧ Plain bold ∧ Plain after then some (bold, after)
  else none

theorem texts_plain {bold after : JsString} (plain : Plain bold ∧ Plain after) (className : JsString) :
    (Element.mk (js "<strong>" ++ bold ++ js "</strong>" ++ after) className).texts = some (bold, after) := by
  have inside : (js "<strong>" ++ bold ++ js "</strong>" ++ after).drop (js "<strong>").length =
      bold ++ (js "</strong>" ++ after) := by
    rw [List.append_assoc, List.append_assoc, List.drop_left]
  have open_mark : js "</strong>" = 0x3C :: js "/strong>" := by decide
  have first : (bold ++ (js "</strong>" ++ after)).takeWhile (· ≠ 0x3C) = bold := by
    rw [List.takeWhile_append_of_pos, open_mark, List.cons_append, List.takeWhile_cons_of_neg (by simp), List.append_nil]
    intro u member
    have other : u ≠ 0x3C := fun same => plain.1 u member (by simp [same])
    simpa using other
  simp only [Element.texts, inside, first]
  rw [← List.append_assoc bold, List.drop_left, if_pos ⟨rfl, plain⟩]

def ownClass (sender : Json) (fromUser : Option JsString) : JsString :=
  match sender with
  | .str s => if fromUser = some (units s) then js "sent" else js "messageReceived"
  | _ => js "messageReceived"

/-- The element of one message. -/
def showMessage (fromUser : Option JsString) (sender msg : Json) : Except JsError Element := do
  let senderText ← textOf sender
  let text ← templateText (← property msg (lit "message"))
  return ⟨js "<strong>" ++ units senderText ++ js "</strong>: " ++ units text, ownClass sender fromUser⟩

/-- The elements up to the first exception, if there is one. -/
def showChunk (fromUser : Option JsString) (sender : Json) : List Json → List Element × Option JsError
  | [] => ([], none)
  | msg :: more =>
    match showMessage fromUser sender msg with
    | .error e => ([], some e)
    | .ok element => (element :: (showChunk fromUser sender more).1, (showChunk fromUser sender more).2)

/-- The sender of an entry and its messages. -/
def openEntry (entry : Json) : Except JsError (Json × List Json) := do
  let sender ← property entry (lit "from")
  let chunk ← property entry (lit "chunk")
  return (orElse sender (.str (lit "Unknown")), ← forEach (some (orElse chunk (.arr []))))

def showEntry (fromUser : Option JsString) (entry : Json) : List Element × Option JsError :=
  match openEntry entry with
  | .error e => ([], some e)
  | .ok (sender, chunk) => showChunk fromUser sender chunk

def showEntries (fromUser : Option JsString) : List Json → List Element × Option JsError
  | [] => ([], none)
  | entry :: more =>
    match showEntry fromUser entry with
    | (elements, some e) => (elements, some e)
    | (elements, none) => (elements ++ (showEntries fromUser more).1, (showEntries fromUser more).2)

/-- The page once an answer has come: the elements with the HTML that they are given. -/
def arrive (number : Str → FloatText) (cookie : JsString) (answer : Answer) (page : List Element) : List Element :=
  if ¬ (200 ≤ answer.status ∧ answer.status ≤ 299) then page
  else
    match parse number answer.body with
    | .error _ => page
    -- from here on the page is cleared
    | .ok data =>
      match getCookie username cookie with
      | .error _ => []
      | .ok fromUser =>
        match property data (lit "data") >>= forEach with
        | .error _ => []
        | .ok entries => (showEntries fromUser entries).1

/-! ### What the browser has of an answer -/

variable {floats : FloatReading} {number : Str → FloatText}

theorem sortItems_eq (items : List Json) : sortItems items = items.map sortKeys := by
  induction items with
  | nil => rfl
  | cons item more ih => rw [sortItems, ih, List.map_cons]

theorem sortMembers_eq (members : List (Str × Json)) :
    sortMembers members = members.map fun member => (member.1, sortKeys member.2) := by
  induction members with
  | nil => rfl
  | cons member more ih => rw [sortMembers, ih, List.map_cons]

theorem sortMembers_keys (members : List (Str × Json)) :
    (((sortMembers members).insertionSort KeyLE).map Prod.fst).Perm (members.map Prod.fst) := by
  refine ((List.perm_insertionSort _ _).map Prod.fst).trans ?_
  rw [sortMembers_eq, List.map_map]
  exact List.Perm.refl _

mutual

theorem settled_sortKeys : ∀ {value : Json}, Settled floats value → Settled floats (sortKeys value)
  | .null, settled | .bool _, settled | .int _, settled | .float _, settled | .str _, settled => settled
  | .arr _, settled => settled_sortItems settled
  | .obj members, settled => by
    refine ⟨(sortMembers_keys members).nodup_iff.mpr settled.1, settledMembers_iff.mpr fun entry member => ?_⟩
    exact settledMembers_iff.mp (settled_sortMembers settled.2) entry ((List.mem_insertionSort _).mp member)

theorem settled_sortItems : ∀ {items : List Json}, SettledItems floats items → SettledItems floats (sortItems items)
  | [], _ => trivial
  | _ :: _, settled => ⟨settled_sortKeys settled.1, settled_sortItems settled.2⟩

theorem settled_sortMembers : ∀ {members : List (Str × Json)}, SettledMembers floats members →
    SettledMembers floats (sortMembers members)
  | [], _ => trivial
  | (_, _) :: _, settled => ⟨settled.1, settled_sortKeys settled.2.1, settled_sortMembers settled.2.2⟩

end

mutual

theorem floats_sortKeys {p : FloatText → Prop} : ∀ {value : Json}, Floats p (sortKeys value) ↔ Floats p value
  | .null | .bool _ | .int _ | .float _ | .str _ => Iff.rfl
  | .arr _ => floats_sortItems
  | .obj members => by
    have inner : FloatsMembers p (sortMembers members) ↔ FloatsMembers p members := floats_sortMembers
    rw [sortKeys, Floats, Floats, ← inner, floatsMembers_iff, floatsMembers_iff]
    exact forall_congr' fun entry => by rw [List.mem_insertionSort _]

theorem floats_sortItems {p : FloatText → Prop} : ∀ {items : List Json},
    FloatsItems p (sortItems items) ↔ FloatsItems p items
  | [] => Iff.rfl
  | _ :: _ => and_congr floats_sortKeys floats_sortItems

theorem floats_sortMembers {p : FloatText → Prop} : ∀ {members : List (Str × Json)},
    FloatsMembers p (sortMembers members) ↔ FloatsMembers p members
  | [] => Iff.rfl
  | (_, _) :: _ => and_congr floats_sortKeys floats_sortMembers

end

theorem member_eq_some_iff {members : List (Str × Json)} (distinct : (members.map Prod.fst).Nodup) {key : Str}
    {value : Json} : Json.member members key = some value ↔ (key, value) ∈ members := by
  induction members with
  | nil => simp [Json.member]
  | cons first more ih =>
    obtain ⟨fresh, later⟩ := List.nodup_cons.mp distinct
    rw [Json.member, List.lookup_cons]
    by_cases same : key = first.1
    · subst same
      have absent : (first.1, value) ∉ more := fun inside => fresh (List.mem_map.mpr ⟨_, inside, rfl⟩)
      rw [beq_self_eq_true, List.mem_cons, or_iff_left absent]
      exact ⟨fun found => Prod.ext rfl (Option.some.inj found).symm, fun found => by rw [← found]⟩
    · rw [beq_false_of_ne same, List.mem_cons, or_iff_right fun found => same (congrArg Prod.fst found)]
      exact ih later

/-- What the script has of a value in an answer. -/
def fetched (number : Str → FloatText) (value : Json) : Json := received number (sortKeys value)

theorem fetched_arr (items : List Json) : fetched number (.arr items) = .arr (items.map (fetched number)) := by
  rw [fetched, sortKeys, received, receivedItems_eq, sortItems_eq, List.map_map]
  rfl

/-- The properties of an object are its members, in whatever order they came. -/
theorem property_fetched {members : List (Str × Json)} (distinct : (members.map Prod.fst).Nodup) (name : Str) :
    property (fetched number (.obj members)) name = .ok ((Json.member members name).map (fetched number)) := by
  have shape : fetched number (.obj members) =
      .obj (((sortMembers members).insertionSort KeyLE).map fun member => (member.1, received number member.2)) := by
    rw [fetched, sortKeys, received, receivedMembers_eq]
  have keys : ((((sortMembers members).insertionSort KeyLE).map fun member => (member.1, received number member.2)).map
      Prod.fst).Nodup := by
    rw [List.map_map]
    exact (sortMembers_keys members).nodup_iff.mpr distinct
  rw [shape, property]
  congr 1
  ext value
  rw [member_eq_some_iff keys, Option.map_eq_some_iff]
  simp only [List.mem_map, List.mem_insertionSort _, sortMembers_eq, Prod.exists, Prod.mk.injEq]
  constructor
  · rintro ⟨key, sorted, ⟨key', own, member, rfl, rfl⟩, rfl, rfl⟩
    exact ⟨own, (member_eq_some_iff distinct).mpr member, rfl⟩
  · rintro ⟨own, found, rfl⟩
    exact ⟨name, sortKeys own, ⟨name, own, (member_eq_some_iff distinct).mp found, rfl, rfl⟩, rfl, rfl⟩

/-! ### A log and its pages -/

theorem scalars_universal {s : Str} (scalars : Scalars s) (flag : Bool) : Scalars (universal flag s) := by
  have feed : ¬ Utf8.Surrogate lineFeed := by decide
  induction s generalizing flag with
  | nil => exact nofun
  | cons c rest ih =>
    have later : Scalars rest := fun d member => scalars d (List.mem_cons_of_mem c member)
    have own : ¬ Utf8.Surrogate c := scalars c (by simp)
    rw [universal]
    split
    · exact List.forall_mem_cons.mpr ⟨feed, ih later true⟩
    split
    · exact ih later false
    · exact List.forall_mem_cons.mpr ⟨own, ih later false⟩

theorem settled_documents {lines : List Str} {documents : List Json} (scalars : ∀ line ∈ lines, Scalars line)
    (holds : Documents (loads floats) lines documents) : SettledItems floats documents := by
  induction holds with
  | nil => trivial
  | blank _ _ ih => exact ih fun line member => scalars line (List.mem_cons_of_mem _ member)
  | @document line _ _ _ some_text read _ ih =>
    have stripped : Scalars (strip line) := by
      intro c member
      exact scalars line (by simp) c
        ((List.dropWhile_sublist _).subset ((List.rdropWhile_prefix _ _).subset member))
    exact ⟨settled_loads stripped read, ih fun other member => scalars other (List.mem_cons_of_mem _ member)⟩

/-- What a log holds is settled. -/
theorem settled_of_logHolds {disk : Disk} {documents : List Json} (holds : LogHolds (loads floats) disk documents) :
    SettledItems floats documents := by
  cases holds with
  | absent => trivial
  | @present content raw lines _ found decoded ended whole holds =>
    have scalars := (Utf8.encode_eq_ok_iff.mp (Utf8.decode_eq_some_iff.mp decoded)).1
    refine settled_documents (fun line member c inside => ?_) holds
    refine scalars_universal scalars false c ?_
    rw [ended]
    exact List.mem_flatMap.mpr ⟨line, member, List.mem_append_left _ inside⟩

/-- The elements that the script makes of some entries, with these cookies. -/
def shownEntries (number : Str → FloatText) (cookie : JsString) (documents : List Json) : List Element :=
  match getCookie username cookie with
  | .error _ => []
  | .ok fromUser => (showEntries fromUser (documents.map (fetched number))).1

theorem white_lineFeed : White [] ∧ White [lineFeed] := by
  unfold White
  decide

variable {disk : Disk} {documents : List Json} {loraState : Mode}

theorem lora_of_listing {loads : Loads} {filename : Str} {lora : Option Mode}
    (listing : sourceMessages loads disk loraState filename = .ok (.listing lora documents)) :
    lora = none ∨ lora = some loraState := by
  unfold sourceMessages at listing
  dsimp only at listing
  split at listing
  · cases listing
    exact .inl rfl
  · cases listing
  · obtain ⟨lines, -, read⟩ := ok_of_bind listing
    obtain ⟨messages, -, same⟩ := ok_of_bind read
    cases same
    exact .inr rfl

/-- The object of a listing. -/
theorem responseJson_listing {lora : Option Mode} (known : ∀ mode, lora = some mode → Joined (modeText mode))
    (settled : SettledItems floats documents) :
    ∃ members, responseJson (.listing lora documents) = (.obj members, 200) ∧ Settled floats (.obj members) ∧
      (Finite (.obj members) ↔ FloatsItems (fun x => ¬ Unbounded x) documents) ∧
      Json.member members (lit "data") = some (.arr documents) := by
  have name : Joined (lit "data") ∧ Joined (lit "lora") := by decide
  cases lora with
  | none =>
    refine ⟨_, rfl, ⟨List.nodup_singleton _, name.1, settled, trivial⟩, ?_, rfl⟩
    exact and_iff_left trivial
  | some mode =>
    refine ⟨_, rfl, ⟨(by decide : [lit "lora", lit "data"].Nodup), name.2, known mode rfl, name.1, settled, trivial⟩, ?_, ?_⟩
    · exact (and_iff_right trivial).trans (and_iff_left trivial)
    · rfl

/-- The answer for a log: a printed object whose `data` is what the log holds. -/
theorem getMessages_of_logHolds (holds : LogHolds (loads floats) disk documents) (known : Joined (modeText loraState)) :
    ∃ members text, Settled floats (.obj members) ∧
      (Finite (.obj members) ↔ FloatsItems (fun x => ¬ Unbounded x) documents) ∧
      Json.member members (lit "data") = some (.arr documents) ∧ dumps (some 2) (sortKeys (.obj members)) = .ok text ∧
      getMessages (loads floats) disk loraState (lit "messages.json") = ⟨200, text ++ [lineFeed]⟩ := by
  obtain ⟨lora, listing⟩ := sourceMessages_of_logHolds holds loraState
  have mode : ∀ mode, lora = some mode → Joined (modeText mode) := by
    rintro mode rfl
    rcases lora_of_listing listing with none | same
    · cases none
    · rw [Option.some.inj same]
      exact known
  obtain ⟨members, response, settled, finite, data⟩ := responseJson_listing mode (settled_of_logHolds holds)
  obtain ⟨text, ok⟩ : ∃ text, dumps (some 2) (sortKeys (.obj members)) = .ok text :=
    dumpsAt_settled 0 (settled_sortKeys settled)
  refine ⟨members, text, settled, finite, data, ok, ?_⟩
  simp only [getMessages, listing, response, jsonifyText, ok, Except.map]

/-- A page has all that the script makes of what the log holds. -/
theorem arrive_getMessages (holds : LogHolds (loads floats) disk documents) (known : Joined (modeText loraState))
    (finite : FloatsItems (fun x => ¬ Unbounded x) documents) (cookie : JsString) (page : List Element) :
    arrive number cookie (getMessages (loads floats) disk loraState (lit "messages.json")) page =
      shownEntries number cookie documents := by
  obtain ⟨members, text, settled, finite_iff, data, ok, answer⟩ := getMessages_of_logHolds holds known
  have parsed : parse number ([] ++ text ++ [lineFeed]) = .ok (fetched number (.obj members)) :=
    parse_dumps (settled_sortKeys settled) (floats_sortKeys.mpr (finite_iff.mpr finite)) ok white_lineFeed
  have listed : property (fetched number (.obj members)) (lit "data") >>= forEach = .ok (documents.map (fetched number)) := by
    rw [property_fetched settled.1, data, Option.map_some, fetched_arr]
    rfl
  rw [List.nil_append] at parsed
  rw [answer, arrive, if_neg (by simp), parsed]
  dsimp only
  unfold shownEntries
  rw [listed]

/-- One number that is not finite, anywhere in the log, and no answer changes a page. -/
theorem arrive_unbounded (holds : LogHolds (loads floats) disk documents) (known : Joined (modeText loraState))
    (infinite : ¬ FloatsItems (fun x => ¬ Unbounded x) documents) (cookie : JsString) (page : List Element) :
    arrive number cookie (getMessages (loads floats) disk loraState (lit "messages.json")) page = page := by
  obtain ⟨members, text, settled, finite_iff, data, ok, answer⟩ := getMessages_of_logHolds holds known
  have unparsed : parse number ([] ++ text ++ [lineFeed]) = .error .syntaxError :=
    parse_unbounded (settled_sortKeys settled) (fun finite => infinite (finite_iff.mp (floats_sortKeys.mp finite))) ok
      white_lineFeed
  rw [List.nil_append] at unparsed
  rw [answer, arrive, if_neg (by simp), unparsed]

end Hde.Page
