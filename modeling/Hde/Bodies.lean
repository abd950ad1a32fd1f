import Hde.Loading

/-!
What the browser and the server write to each other: the body of `POST /api/send`, which
`JSON.stringify` prints, and the answers of the server, which `JSON.parse` reads. A
string of the browser is a text of UTF-16 units, of the server one of code points; the
server gets every string of a body as its code points (`loads_sendBody`), and what it
prints comes back as the units of its strings, numbers aside (`parse_dumps`).
-/
namespace Hde.Bodies
open Hde.Text Hde.Utf8 Hde.Utf16 Hde.Numerals Hde.JsonText Hde.JsonScan Hde.Rereading Hde.Files Hde.Loading

/-- A JavaScript string. -/
abbrev JsString := List UInt16

def js (s : String) : JsString := units (lit s)

/-! ### `JSON.stringify` -/

/-- One character of a string: a lone surrogate is escaped, and nothing else that is not
    ASCII. -/
def stringifyChar (c : CodePoint) : Str :=
  if c.val = 0x22 then lit "\\\""
  else if c.val = 0x5C then lit "\\\\"
  else if c.val = 0x08 then lit "\\b"
  else if c.val = 0x0C then lit "\\f"
  else if c.val = 0x0A then lit "\\n"
  else if c.val = 0x0D then lit "\\r"
  else if c.val = 0x09 then lit "\\t"
  else if c.val < 0x20 ∨ Surrogate c then escape c.val
  else [c]

/-- `JSON.stringify(s)`, the pairs of units as characters. -/
def stringify (s : JsString) : Str := lit "\"" ++ (codePoints s).flatMap stringifyChar ++ lit "\""

/-- `JSON.stringify({from, message, checksum})`. -/
def sendBody (sender message checksum : JsString) : Str :=
  lit "\x7b\"from\":" ++ stringify sender ++ lit ",\"message\":" ++ stringify message ++ lit ",\"checksum\":" ++
    stringify checksum ++ lit "\x7d"

variable {ε : Type}

theorem scanString_stringifyChar (c : CodePoint) (rest : Str) :
    ∃ hexed : Bool, (Surrogate c → hexed = true) ∧
      scanString (stringifyChar c ++ rest) = before [(hexed, c)] (scanString rest) := by
  have bound := c.valid
  have code {n : Nat} (value : c.val = n) : c = CodePoint.ofNat n := by
    apply CodePoint.ext
    rw [CodePoint.ofNat_val (by omega), value]
  -- a backslash and a letter, for a control character or one of ASCII
  have short {n : Nat} {text : Str} (letter : CodePoint) (value : c.val = n) (small : n < 0x80)
      (escapes : text = [CodePoint.ofNat 0x5C, letter] ∧ shortEscape letter = some (CodePoint.ofNat n) ∧ letter.val ≠ 0x75) :
      ∃ hexed : Bool, (Surrogate c → hexed = true) ∧
        scanString (text ++ rest) = before [(hexed, c)] (scanString rest) := by
    refine ⟨false, fun surrogate => ?_, ?_⟩
    · have := surrogate.1
      omega
    · rw [code value, escapes.1]
      exact scanString_short escapes.2.1 rest escapes.2.2
  unfold stringifyChar
  split
  · next value => exact short (CodePoint.ofNat 0x22) value (by omega) (by decide)
  split
  · next value => exact short (CodePoint.ofNat 0x5C) value (by omega) (by decide)
  split
  · next value => exact short (CodePoint.ofNat 0x62) value (by omega) (by decide)
  split
  · next value => exact short (CodePoint.ofNat 0x66) value (by omega) (by decide)
  split
  · next value => exact short (CodePoint.ofNat 0x6E) value (by omega) (by decide)
  split
  · next value => exact short (CodePoint.ofNat 0x72) value (by omega) (by decide)
  split
  · next value => exact short (CodePoint.ofNat 0x74) value (by omega) (by decide)
  split
  · next escaped =>
    have small : c.val < 0x10000 := by
      rcases escaped with control | surrogate
      · omega
      · have := surrogate.2
        omega
    refine ⟨true, fun _ => rfl, ?_⟩
    rw [scanString_escape small, ← code rfl]
  · next plain =>
    obtain ⟨visible, scalar⟩ := not_or.mp plain
    exact ⟨false, fun surrogate => absurd surrogate scalar, scanString_plain (by omega) rest⟩

/-- The characters of a printed string are scanned as they are. -/
theorem scanString_stringify (s rest : Str) :
    ∃ scanned, scanString (s.flatMap stringifyChar ++ CodePoint.ofNat 0x22 :: rest) = some (scanned, rest) ∧
      scanned.map Prod.snd = s ∧ ∀ entry ∈ scanned, Surrogate entry.2 → entry.1 = true := by
  induction s with
  | nil =>
    have mark : (CodePoint.ofNat 0x22).val = 0x22 := by decide
    refine ⟨[], ?_, rfl, by simp⟩
    rw [List.flatMap_nil, List.nil_append, scanString.eq_def]
    simp [mark]
  | cons c more ih =>
    obtain ⟨scanned, scans, same, escaped⟩ := ih
    obtain ⟨hexed, surrogates, first⟩ := scanString_stringifyChar c
      (more.flatMap stringifyChar ++ CodePoint.ofNat 0x22 :: rest)
    refine ⟨(hexed, c) :: scanned, ?_, by rw [List.map_cons, same], ?_⟩
    · rw [List.flatMap_cons, List.append_assoc, first, scans]
      rfl
    · intro entry member
      rcases List.mem_cons.mp member with rfl | inside
      · exact surrogates
      · exact escaped entry inside

theorem stringify_append (s : JsString) (rest : Str) :
    stringify s ++ rest =
      CodePoint.ofNat 0x22 :: ((codePoints s).flatMap stringifyChar ++ CodePoint.ofNat 0x22 :: rest) := by
  rw [stringify, (by decide : lit "\"" = [CodePoint.ofNat 0x22])]
  simp

/-- The server gets a string of the browser as its code points. -/
theorem scanValue_stringify (floats : FloatReading) (s : JsString) (rest : Str) (fuel : Nat) :
    scanValue (decoder floats) (fuel + 1) (stringify s ++ rest) = (Except.ok (.str (codePoints s))).map (·, rest) := by
  obtain ⟨scanned, scans, same, escaped⟩ := scanString_stringify (codePoints s) rest
  have mark : (CodePoint.ofNat 0x22).val = 0x22 := by decide
  have read : joinEscapes scanned = codePoints s := by
    rw [joinEscapes_eq escaped, same]
    exact joinPairs_eq_self_iff.mpr (joined_codePoints s)
  rw [stringify_append, scanValue, if_pos mark, scanQuoted, if_pos mark, scans]
  show Except.ok (Json.str (joinEscapes scanned), rest) = _
  rw [read]
  rfl

theorem solid_stringify (s : JsString) (rest : Str) : Solid (stringify s ++ rest) := by
  rw [stringify_append]
  exact solid_mark (by decide) _

theorem expect_quote (reader : Reader ε) (name rest : Str) :
    expect reader 0x7D (quote name ++ rest) = .error reader.invalid := by
  rw [quote, (by decide : lit "\"" = [CodePoint.ofNat 0x22])]
  exact expect_other reader (by decide) _

theorem decoder_name {name : Str} (plain : ∀ c ∈ name, ¬ Surrogate c) (floats : FloatReading) :
    (decoder floats).string (scannedText name) = name :=
  string_settled (joined_of_scalars plain)

/-- The server gets the three strings of a body as their code points. -/
theorem loads_sendBody (floats : FloatReading) (sender message checksum : JsString) :
    loads floats (sendBody sender message checksum) = .ok (.obj [(lit "from", .str (codePoints sender)),
      (lit "message", .str (codePoints message)), (lit "checksum", .str (codePoints checksum))]) := by
  have white : White [] ∧ White [] := ⟨nofun, nofun⟩
  have body : sendBody sender message checksum = CodePoint.ofNat 0x7B :: (quote (lit "from") ++ colon :: ([] ++
      (stringify sender ++ comma :: ([] ++ (quote (lit "message") ++ colon :: ([] ++
      (stringify message ++ comma :: ([] ++ (quote (lit "checksum") ++ colon :: ([] ++
      (stringify checksum ++ ([] ++ closeBrace :: [])))))))))))) := by
    rw [sendBody, (by decide : lit "\x7b\"from\":" = CodePoint.ofNat 0x7B :: (quote (lit "from") ++ [colon])),
      (by decide : lit ",\"message\":" = comma :: (quote (lit "message") ++ [colon])),
      (by decide : lit ",\"checksum\":" = comma :: (quote (lit "checksum") ++ [colon])),
      (by decide : lit "\x7d" = [closeBrace])]
    simp
  -- the members, from the last to the first
  have third (fuel : Nat) := scanMembers_last (lit "checksum") white (solid_stringify checksum ([] ++ closeBrace :: []))
    (scanValue_stringify floats checksum ([] ++ closeBrace :: []) fuel)
  have second (fuel : Nat) := scanMembers_more (lit "message") white
    ⟨solid_stringify message _, solid_quote (lit "checksum") _⟩ (scanValue_stringify floats message _ (fuel + 1)) (third fuel)
  have first (fuel : Nat) := scanMembers_more (lit "from") white
    ⟨solid_stringify sender _, solid_quote (lit "message") _⟩ (scanValue_stringify floats sender _ (fuel + 2)) (second fuel)
  rw [decoder_name (by decide), decoder_name (by decide), decoder_name (by decide)] at first
  obtain ⟨fuel, plenty⟩ : ∃ fuel, enough (sendBody sender message checksum) = fuel + 5 := by
    have long : 4 ≤ 2 * (sendBody sender message checksum).length := by
      rw [body]
      simp
      omega
    exact ⟨2 * (sendBody sender message checksum).length - 4, by unfold enough; omega⟩
  have brace : (CodePoint.ofNat 0x7B).val ≠ 0x22 ∧ (CodePoint.ofNat 0x7B).val ≠ 0x5B ∧ (CodePoint.ofNat 0x7B).val = 0x7B := by
    decide
  have solid : skip (sendBody sender message checksum) = sendBody sender message checksum := by
    rw [body]
    exact skip_solid (solid_mark (by decide) _)
  rw [loads, scan, solid, plenty, body, scanValue, if_neg brace.1, if_neg brace.2.1, if_pos brace.2.2,
    skip_solid (solid_quote _ _), expect_quote]
  dsimp only
  rw [first fuel]
  rfl

/-! ### `JSON.parse` -/

/-- What the script throws. -/
inductive JsError
  | syntaxError
  | typeError
  | uriError
deriving DecidableEq

/-- `JSON.parse`. A number is its `String`, which `number` gives for a numeral; a string
    is the code points of its units. -/
def browser (number : Str → FloatText) : Reader JsError where
  invalid := .syntaxError
  string scanned := joinPairs (scanned.map Prod.snd)
  integer s := .ok (.float (number s))
  fraction s := .ok (.float (number s))
  words := [(lit "null", .null), (lit "true", .bool true), (lit "false", .bool false)]

def parse (number : Str → FloatText) : Str → Except JsError Json := scan (browser number)

mutual

/-- What the browser has of a printed value. -/
def received (number : Str → FloatText) : Json → Json
  | .int n => .float (number (intText n))
  | .float x => .float (number x.text)
  | .arr items => .arr (receivedItems number items)
  | .obj members => .obj (receivedMembers number members)
  | value => value

def receivedItems (number : Str → FloatText) : List Json → List Json
  | [] => []
  | item :: more => received number item :: receivedItems number more

def receivedMembers (number : Str → FloatText) : List (Str × Json) → List (Str × Json)
  | [] => []
  | (key, value) :: more => (key, received number value) :: receivedMembers number more

end

/-- Every `float` of a value is finite. -/
def Finite (value : Json) : Prop := Floats (fun x => ¬ Unbounded x) value

variable {floats : FloatReading} {number : Str → FloatText}

theorem receivedItems_eq (items : List Json) : receivedItems number items = items.map (received number) := by
  induction items with
  | nil => rfl
  | cons item more ih => rw [receivedItems, ih, List.map_cons]

theorem receivedMembers_eq (members : List (Str × Json)) :
    receivedMembers number members = members.map fun member => (member.1, received number member.2) := by
  induction members with
  | nil => rfl
  | cons member more ih => rw [receivedMembers, ih, List.map_cons]

theorem usual_browser (number : Str → FloatText) : Usual (browser number) where
  apart := by
    have apart : ((words.take 3).map Prod.fst).Pairwise fun a b => ¬ a <+: b ∧ ¬ b <+: a := by decide
    exact List.pairwise_map.mp apart
  bare entry member := (usual_decoder ⟨fun _ => notANumber, fun _ _ => .inl (.inl rfl)⟩).bare entry (List.mem_of_mem_take (i := 3) member)
  null := by simp [browser]
  yes := by simp [browser]
  no := by simp [browser]

/-- The words for what is not a finite number are none of JSON. -/
theorem foreign_unbounded {x : FloatText} (unbounded : Unbounded x) : Foreign (browser number) x.text := by
  have bare := ((usual_decoder ⟨fun _ => notANumber, fun _ _ => .inl (.inl rfl)⟩).bare _ (mem_words unbounded))
  refine ⟨bare.1, bare.2, ?_⟩
  have apart : ∀ word ∈ [lit "null", lit "true", lit "false"], ∀ other ∈ [lit "NaN", lit "Infinity", lit "-Infinity"],
      ¬ word <+: other ∧ ¬ other <+: word := by decide
  intro entry member
  refine apart entry.1 ?_ x.text ?_
  · simp only [browser, List.mem_cons, List.not_mem_nil, or_false] at member
    rcases member with rfl | rfl | rfl <;> simp
  · rcases unbounded with rfl | rfl | rfl <;> simp [notANumber, infinity, minusInfinity]

theorem literal_browser {x : FloatText} (canonical : Canonical floats x) : Literal (browser number) x :=
  .inr (canonical.symm.imp And.left foreign_unbounded)

theorem string_browser {s : Str} (joined : Joined s) : (browser number).string (scannedText s) = s := by
  have plain : (scannedText s).map Prod.snd = s.flatMap split := map_scannedText s
  show joinPairs ((scannedText s).map Prod.snd) = s
  rw [plain, joinPairs_split]
  exact joinPairs_eq_self_iff.mpr joined

theorem readFloat_browser {x : FloatText} (canonical : Canonical floats x) :
    readFloat (browser number) x.text =
      if Unbounded x then .error .syntaxError else .ok (.float (number x.text)) := by
  have lookup {s : Str} (foreign : Foreign (browser number) s) : (browser number).words.lookup s = none := by
    rw [List.lookup_eq_none_iff]
    intro entry member
    simp only [bne_iff_ne, ne_eq]
    exact fun same => (foreign.2.2 entry member).2 (same ▸ List.prefix_refl _)
  by_cases unbounded : Unbounded x
  · have foreign : Foreign (browser number) x.text := foreign_unbounded unbounded
    rw [if_pos unbounded, readFloat, lookup foreign]
    dsimp only
    rw [if_neg (by simp [foreign.2.1])]
    rfl
  · obtain ⟨numeral, -⟩ := canonical.resolve_left unbounded
    rw [if_neg unbounded, readFloat, lookup_of_numeral (usual_browser number) numeral]
    dsimp only
    rw [if_pos (numeric_numeral numeral)]
    rfl

mutual

/-- What is printed with finite numbers is read, and nothing else. -/
theorem reread_browser : ∀ {value : Json}, Settled floats value →
    (Finite value → reread (browser number) value = .ok (received number value)) ∧
      (¬ Finite value → reread (browser number) value = .error .syntaxError)
  | .null, _ => ⟨fun _ => rfl, fun infinite => absurd trivial infinite⟩
  | .bool _, _ => ⟨fun _ => rfl, fun infinite => absurd trivial infinite⟩
  | .int _, _ => ⟨fun _ => rfl, fun infinite => absurd trivial infinite⟩
  | .float x, canonical => by
    rw [reread, readFloat_browser canonical]
    exact ⟨fun finite => if_neg finite, fun infinite => if_pos (not_not.mp infinite)⟩
  | .str s, joined => by
    rw [reread, string_browser joined]
    exact ⟨fun _ => rfl, fun infinite => absurd trivial infinite⟩
  | .arr items, settled => by
    obtain ⟨read, unread⟩ := reread_browserItems settled
    refine ⟨fun finite => ?_, fun infinite => ?_⟩
    · rw [reread, read finite]
      rfl
    · rw [reread, unread infinite]
      rfl
  | .obj members, settled => by
    obtain ⟨read, unread⟩ := reread_browserMembers settled.2
    refine ⟨fun finite => ?_, fun infinite => ?_⟩
    · have distinct : ((receivedMembers number members).map Prod.fst).Nodup := by
        rw [receivedMembers_eq, List.map_map]
        exact settled.1
      rw [reread, read finite, Except.map, entries_collected distinct]
      rfl
    · rw [reread, unread infinite]
      rfl

theorem reread_browserItems : ∀ {items : List Json}, SettledItems floats items →
    (FloatsItems (fun x => ¬ Unbounded x) items → rereadItems (browser number) items = .ok (receivedItems number items)) ∧
      (¬ FloatsItems (fun x => ¬ Unbounded x) items → rereadItems (browser number) items = .error .syntaxError)
  | [], _ => ⟨fun _ => rfl, fun infinite => absurd trivial infinite⟩
  | item :: more, settled => by
    obtain ⟨read, unread⟩ := reread_browser settled.1
    obtain ⟨readMore, unreadMore⟩ := reread_browserItems settled.2
    refine ⟨fun finite => ?_, fun infinite => ?_⟩
    · rw [rereadItems, read finite.1, readMore finite.2]
      rfl
    · by_cases first : Finite item
      · rw [rereadItems, read first, unreadMore fun later => infinite ⟨first, later⟩]
        rfl
      · rw [rereadItems, unread first]
        rfl

theorem reread_browserMembers : ∀ {members : List (Str × Json)}, SettledMembers floats members →
    (FloatsMembers (fun x => ¬ Unbounded x) members →
        rereadMembers (browser number) members = .ok (receivedMembers number members)) ∧
      (¬ FloatsMembers (fun x => ¬ Unbounded x) members → rereadMembers (browser number) members = .error .syntaxError)
  | [], _ => ⟨fun _ => rfl, fun infinite => absurd trivial infinite⟩
  | (key, value) :: more, settled => by
    obtain ⟨joined, own, later⟩ := settled
    obtain ⟨read, unread⟩ := reread_browser own
    obtain ⟨readMore, unreadMore⟩ := reread_browserMembers later
    refine ⟨fun finite => ?_, fun infinite => ?_⟩
    · rw [rereadMembers, read finite.1, readMore finite.2, string_browser joined]
      rfl
    · by_cases first : Finite value
      · rw [rereadMembers, read first, unreadMore fun others => infinite ⟨first, others⟩]
        rfl
      · rw [rereadMembers, unread first]
        rfl

end

theorem literals_browser {value : Json} (settled : Settled floats value) : Floats (Literal (browser number)) value :=
  (canonical_of_settled settled).mono fun _ => literal_browser

variable {indent : Option Nat} {value : Json} {text left right : Str}

/-- The browser has what the server has printed, its numbers aside. -/
theorem parse_dumps (settled : Settled floats value) (finite : Finite value) (ok : dumps indent value = .ok text)
    (white : White left ∧ White right) : parse number (left ++ text ++ right) = .ok (received number value) := by
  rw [parse, scan_dumps (usual_browser number) ok (literals_browser settled) white]
  exact (reread_browser settled).1 finite

/-- A document with a number that is not finite is none for the browser. -/
theorem parse_unbounded (settled : Settled floats value) (infinite : ¬ Finite value) (ok : dumps indent value = .ok text)
    (white : White left ∧ White right) : parse number (left ++ text ++ right) = .error .syntaxError := by
  rw [parse, scan_dumps (usual_browser number) ok (literals_browser settled) white]
  exact (reread_browser settled).2 infinite

end Hde.Bodies
