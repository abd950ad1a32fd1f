import Hde.JsonScan

/-!
What a reader makes of a document that `dumps` has printed: the value with its strings,
integers and fractions as the reader has them, in whatever layout it was printed
(`scan_dumps`). The reader knows the bare words of JSON, perhaps others, and no two of
them begin alike.
-/
namespace Hde.Rereading
open Hde.Text Hde.Numerals Hde.JsonText Hde.JsonScan

variable {ε : Type}

/-- Begins like a number. -/
def numeric : Str → Bool
  | [] => true
  | [c] => isDigit c || c.val == 0x2D
  | c :: d :: _ => isDigit c || (c.val == 0x2D && isDigit d)

/-- Begins like a value that is a bare word or a number. -/
def Bare (s : Str) : Prop :=
  ∃ c rest, s = c :: rest ∧ isWhite c = false ∧ c.val ≠ 0x22 ∧ c.val ≠ 0x5B ∧ c.val ≠ 0x5D ∧ c.val ≠ 0x7B

structure Usual (reader : Reader ε) : Prop where
  apart : reader.words.Pairwise fun a b => ¬ a.1 <+: b.1 ∧ ¬ b.1 <+: a.1
  bare : ∀ entry ∈ reader.words, Bare entry.1 ∧ numeric entry.1 = false
  null : (lit "null", Json.null) ∈ reader.words
  yes : (lit "true", Json.bool true) ∈ reader.words
  no : (lit "false", Json.bool false) ∈ reader.words

/-- A number with a fraction or an exponent. -/
def FloatNumeral (s : Str) : Prop :=
  ∃ minus whole fraction exponent, NumberText minus whole fraction exponent ∧
    s = minus ++ whole ++ fraction ++ exponent ∧ ¬ (fraction = [] ∧ exponent = [])

/-- A bare word that is like none of those the reader knows, and not like a number. -/
def Foreign (reader : Reader ε) (s : Str) : Prop :=
  Bare s ∧ numeric s = false ∧ ∀ entry ∈ reader.words, ¬ entry.1 <+: s ∧ ¬ s <+: entry.1

/-- The ways in which a `float` may be printed. -/
def Literal (reader : Reader ε) (x : FloatText) : Prop :=
  x.text ∈ reader.words.map Prod.fst ∨ FloatNumeral x.text ∨ Foreign reader x.text

/-- What the reader makes of a printed `float`. -/
def readFloat (reader : Reader ε) (s : Str) : Except ε Json :=
  match reader.words.lookup s with
  | some value => .ok value
  | none => if numeric s then reader.fraction s else .error reader.invalid

mutual

/-- Every `float` of a value has a property. -/
def Floats (p : FloatText → Prop) : Json → Prop
  | .float x => p x
  | .arr items => FloatsItems p items
  | .obj members => FloatsMembers p members
  | _ => True

def FloatsItems (p : FloatText → Prop) : List Json → Prop
  | [] => True
  | item :: more => Floats p item ∧ FloatsItems p more

def FloatsMembers (p : FloatText → Prop) : List (Str × Json) → Prop
  | [] => True
  | (_, value) :: more => Floats p value ∧ FloatsMembers p more

end

section Mono
variable {p q : FloatText → Prop}

mutual

theorem Floats.mono (imp : ∀ x, p x → q x) : ∀ {value : Json}, Floats p value → Floats q value
  | .null, _ | .bool _, _ | .int _, _ | .str _, _ => trivial
  | .float x, holds => imp x holds
  | .arr _, holds => FloatsItems.mono imp holds
  | .obj _, holds => FloatsMembers.mono imp holds

theorem FloatsItems.mono (imp : ∀ x, p x → q x) : ∀ {items : List Json}, FloatsItems p items → FloatsItems q items
  | [], _ => trivial
  | _ :: _, holds => ⟨Floats.mono imp holds.1, FloatsItems.mono imp holds.2⟩

theorem FloatsMembers.mono (imp : ∀ x, p x → q x) : ∀ {members : List (Str × Json)}, FloatsMembers p members →
    FloatsMembers q members
  | [], _ => trivial
  | (_, _) :: _, holds => ⟨Floats.mono imp holds.1, FloatsMembers.mono imp holds.2⟩

end

theorem floatsItems_iff {items : List Json} : FloatsItems p items ↔ ∀ item ∈ items, Floats p item := by
  induction items with
  | nil => simp [FloatsItems]
  | cons item more ih => simp [FloatsItems, ih]

theorem floatsMembers_iff {members : List (Str × Json)} : FloatsMembers p members ↔ ∀ entry ∈ members, Floats p entry.2 := by
  induction members with
  | nil => simp [FloatsMembers]
  | cons entry more ih => simp [FloatsMembers, ih]

end Mono

mutual

/-- What the reader makes of a printed value. -/
def reread (reader : Reader ε) : Json → Except ε Json
  | .null => .ok .null
  | .bool b => .ok (.bool b)
  | .int n => reader.integer (intText n)
  | .float x => readFloat reader x.text
  | .str s => .ok (.str (reader.string (scannedText s)))
  | .arr items => (rereadItems reader items).map .arr
  | .obj members => (rereadMembers reader members).map fun members => .obj (collected members).entries

def rereadItems (reader : Reader ε) : List Json → Except ε (List Json)
  | [] => .ok []
  | item :: more => do return (← reread reader item) :: (← rereadItems reader more)

def rereadMembers (reader : Reader ε) : List (Str × Json) → Except ε (List (Str × Json))
  | [] => .ok []
  | (key, value) :: more => do
    return (reader.string (scannedText key), ← reread reader value) :: (← rereadMembers reader more)

end

/-! ### Bare values -/

/-- What begins a number begins like one. -/
theorem numeric_prefix {word s : Str} (start : word <+: s) (number : numeric s = true) : numeric word = true := by
  obtain ⟨rest, rfl⟩ := start
  match word with
  | [] => rfl
  | [c] =>
    cases rest with
    | nil => exact number
    | cons d more =>
      simp only [List.cons_append, List.nil_append, numeric, Bool.or_eq_true, Bool.and_eq_true] at number ⊢
      exact number.imp_right And.left
  | c :: d :: more => exact number

variable {reader : Reader ε}

theorem scanWord_of_mem (usual : Usual reader) {word : Str} {value : Json} (known : (word, value) ∈ reader.words)
    (rest : Str) : scanWord reader.words (word ++ rest) = some (value, rest) := by
  obtain ⟨earlier, later, split⟩ := List.append_of_mem known
  have others : ∀ entry ∈ earlier, ¬ entry.1 <+: word ++ rest := by
    intro entry member start
    have apart := usual.apart
    rw [split, List.pairwise_append] at apart
    obtain ⟨left, right⟩ := apart.2.2 entry member (word, value) (by simp)
    rcases List.prefix_or_prefix_of_prefix start (List.prefix_append word rest) with shorter | longer
    · exact left shorter
    · exact right longer
  have skipped : scanWord earlier (word ++ rest) = none := by
    rw [scanWord, List.findSome?_eq_none_iff]
    intro entry member
    exact if_neg (others entry member)
  have onward : scanWord reader.words (word ++ rest) =
      (scanWord earlier (word ++ rest)).or (scanWord ((word, value) :: later) (word ++ rest)) := by
    rw [split]
    exact List.findSome?_append
  rw [onward, skipped, Option.none_or, scanWord, List.findSome?_cons]
  simp

theorem scanWord_of_numeric (usual : Usual reader) {s : Str} (number : numeric s = true) :
    scanWord reader.words s = none := by
  rw [scanWord, List.findSome?_eq_none_iff]
  intro entry member
  refine if_neg fun start => ?_
  have alike := numeric_prefix start number
  rw [(usual.bare entry member).2] at alike
  cases alike

theorem lookup_of_mem (usual : Usual reader) {word : Str} {value : Json} (known : (word, value) ∈ reader.words) :
    reader.words.lookup word = some value := by
  obtain ⟨earlier, later, split⟩ := List.append_of_mem known
  rw [List.lookup_eq_some_iff]
  refine ⟨earlier, later, split, fun entry member => ?_⟩
  have apart := usual.apart
  rw [split, List.pairwise_append] at apart
  have clear := (apart.2.2 entry member (word, value) (by simp)).1
  simp only [bne_iff_ne, ne_eq]
  rintro same
  exact clear (same ▸ List.prefix_refl _)

theorem numeric_numberText {minus whole fraction exponent : Str} (number : NumberText minus whole fraction exponent)
    (rest : Str) : numeric (minus ++ (whole ++ rest)) = true := by
  obtain ⟨c, more, rfl, ⟨-, digits⟩, -⟩ := number.whole
  have digit := digits c (by simp)
  rcases number.minus with rfl | ⟨m, rfl, value⟩
  · rw [List.nil_append, List.cons_append]
    cases more ++ rest <;> simp [numeric, digit]
  · simp [numeric, value, digit]

theorem bare_numberText {minus whole fraction exponent : Str} (number : NumberText minus whole fraction exponent)
    (rest : Str) : Bare (minus ++ (whole ++ rest)) := by
  obtain ⟨c, more, rfl, ⟨-, digits⟩, -⟩ := number.whole
  have digit := digits c (by simp)
  rcases number.minus with rfl | ⟨m, rfl, value⟩
  · refine ⟨c, more ++ rest, rfl, ?_⟩
    simp only [isDigit, Bool.and_eq_true, decide_eq_true_eq] at digit
    simp only [isWhite, Bool.or_eq_false_iff, beq_eq_false_iff_ne]
    omega
  · refine ⟨m, c :: more ++ rest, rfl, ?_⟩
    simp [isWhite, value]

theorem scanValue_bare {s : Str} (bare : Bare s) (fuel : Nat) : scanValue reader (fuel + 1) s = scanBare reader s := by
  obtain ⟨c, rest, rfl, -, quote, bracket, -, brace⟩ := bare
  rw [scanValue, if_neg quote, if_neg bracket, if_neg brace]

theorem scanBare_word (usual : Usual reader) {word : Str} {value : Json} (known : (word, value) ∈ reader.words)
    (rest : Str) : scanBare reader (word ++ rest) = .ok (value, rest) := by
  rw [scanBare, scanWord_of_mem usual known]

theorem bare_append {s : Str} (bare : Bare s) (rest : Str) : Bare (s ++ rest) := by
  obtain ⟨c, more, rfl, clear⟩ := bare
  exact ⟨c, more ++ rest, rfl, clear⟩

theorem intText_parts (n : Int) :
    ∃ minus whole, NumberText minus whole [] [] ∧ intText n = minus ++ whole := by
  unfold intText
  split
  · exact ⟨[CodePoint.ofChar '-'], _, ⟨.inr ⟨_, rfl, by decide⟩, whole_numeral _, .inl rfl, .inl rfl⟩, rfl⟩
  · exact ⟨[], _, ⟨.inl rfl, whole_numeral _, .inl rfl, .inl rfl⟩, rfl⟩

theorem scanBare_int (usual : Usual reader) (n : Int) {rest : Str} (ended : Ends rest) :
    scanBare reader (intText n ++ rest) = (reader.integer (intText n)).map (·, rest) := by
  obtain ⟨minus, whole, number, text⟩ := intText_parts n
  have like : numeric (intText n ++ rest) = true := by
    rw [text, List.append_assoc]
    exact numeric_numberText number rest
  rw [scanBare, scanWord_of_numeric usual like, scanNumber_intText reader n ended]

/-- No bare word reads like a number. -/
theorem lookup_of_numeral (usual : Usual reader) {s : Str} (numeral : FloatNumeral s) : reader.words.lookup s = none := by
  obtain ⟨minus, whole, fraction, exponent, number, text, -⟩ := numeral
  rw [List.lookup_eq_none_iff]
  intro entry member
  simp only [bne_iff_ne, ne_eq]
  rintro same
  have like := numeric_numberText number (fraction ++ exponent)
  have clear := (usual.bare entry member).2
  rw [← same, text, List.append_assoc, List.append_assoc, like] at clear
  cases clear

theorem numeric_numeral {s : Str} (numeral : FloatNumeral s) : numeric s = true := by
  obtain ⟨minus, whole, fraction, exponent, number, text, -⟩ := numeral
  rw [text, List.append_assoc, List.append_assoc]
  exact numeric_numberText number _

/-- What does not begin like a number is none. -/
theorem scanNumber_other {s : Str} (some_text : s ≠ []) (other : numeric s = false) (rest : Str) :
    scanNumber reader (s ++ rest) = .error reader.invalid := by
  have refused {c : CodePoint} {after : Str} (digit : isDigit c = false) : scanWhole (c :: after) = none := by
    have zero : c.val ≠ 48 := fun value => by simp [isDigit, value] at digit
    simp [scanWhole, zero, digit]
  obtain ⟨c, more, rfl⟩ := List.exists_cons_of_ne_nil some_text
  by_cases minus : c.val = 0x2D
  · cases more with
    | nil => simp [numeric, minus] at other
    | cons d after =>
      have digit : isDigit d = false := by
        simp only [numeric, minus, beq_self_eq_true, Bool.true_and, Bool.or_eq_false_iff] at other
        exact other.2
      simp only [scanNumber, List.cons_append, scanMinus, if_pos minus, refused digit]
  · have digit : isDigit c = false := by
      cases more <;> simp_all [numeric]
    simp only [scanNumber, List.cons_append, scanMinus, if_neg minus, refused digit]

theorem scanBare_float (usual : Usual reader) {x : FloatText} (literal : Literal reader x) {rest : Str}
    (ended : Ends rest) : scanBare reader (x.text ++ rest) = (readFloat reader x.text).map (·, rest) := by
  rcases literal with known | numeral | ⟨-, other, unlike⟩
  · obtain ⟨⟨word, value⟩, member, same⟩ := List.mem_map.mp known
    obtain rfl : word = x.text := same
    rw [scanBare_word usual member, readFloat, lookup_of_mem usual member]
    rfl
  · rw [readFloat, lookup_of_numeral usual numeral]
    dsimp only
    rw [if_pos (numeric_numeral numeral)]
    obtain ⟨minus, whole, fraction, exponent, number, text, proper⟩ := numeral
    have shape : x.text ++ rest = minus ++ (whole ++ (fraction ++ (exponent ++ rest))) := by
      simp [text]
    rw [scanBare, shape, scanWord_of_numeric usual (numeric_numberText number _),
      scanNumber_append reader number ended, readNumber, if_neg proper, text]
  · have unknown : reader.words.lookup x.text = none := by
      rw [List.lookup_eq_none_iff]
      intro entry member
      simp only [bne_iff_ne, ne_eq]
      exact fun same => (unlike entry member).2 (same ▸ List.prefix_refl _)
    have unread : scanWord reader.words (x.text ++ rest) = none := by
      rw [scanWord, List.findSome?_eq_none_iff]
      intro entry member
      refine if_neg fun start => ?_
      rcases List.prefix_or_prefix_of_prefix start (List.prefix_append x.text rest) with shorter | longer
      · exact (unlike entry member).1 shorter
      · exact (unlike entry member).2 longer
    rw [scanBare, unread, scanNumber_other x.some_text other, readFloat, unknown]
    dsimp only
    rw [if_neg (by simp [other])]
    rfl

/-! ### Between the values -/

def White (gap : Str) : Prop := ∀ c ∈ gap, isWhite c = true

/-- Begins with something that is not white. -/
def Solid (s : Str) : Prop := ∃ c rest, s = c :: rest ∧ isWhite c = false

theorem skip_solid {s : Str} (solid : Solid s) : skip s = s := by
  obtain ⟨c, rest, rfl, dark⟩ := solid
  simp [skip, dark]

theorem skip_gap {gap s : Str} (white : White gap) (solid : Solid s) : skip (gap ++ s) = s := by
  rw [skip, List.dropWhile_append_of_pos white]
  exact skip_solid solid

theorem white_newline (indent : Option Nat) (level : Nat) : White (newline indent level) := by
  cases indent with
  | none => exact nofun
  | some width =>
    intro c member
    rcases List.mem_cons.mp member with rfl | space
    · decide
    · obtain ⟨-, rfl⟩ := List.mem_replicate.mp space
      decide

theorem separator_eq (indent : Option Nat) (level : Nat) :
    ∃ gap, separator indent level = CodePoint.ofNat 0x2C :: gap ∧ White gap := by
  cases indent with
  | none => exact ⟨[CodePoint.ofNat 0x20], (by decide : lit ", " = _), by unfold White; decide⟩
  | some width => exact ⟨newline (some width) level, rfl, white_newline _ _⟩

private theorem ends_cons {c : CodePoint} {rest : Str}
    (other : isDigit c = false ∧ c.val ≠ 0x2E ∧ c.val ≠ 0x65 ∧ c.val ≠ 0x45) : Ends (c :: rest) := by
  intro d head
  rw [← Option.some.inj head]
  exact other

theorem ends_gap {gap : Str} (white : White gap) {c : CodePoint} {rest : Str} (ended : Ends (c :: rest)) :
    Ends (gap ++ c :: rest) := by
  cases gap with
  | nil => exact ended
  | cons space more =>
    refine ends_cons ?_
    have blank := white space (by simp)
    simp only [isWhite, Bool.or_eq_true, beq_iff_eq] at blank
    simp only [isDigit, Bool.and_eq_false_iff, decide_eq_false_iff_not]
    omega

theorem expect_self (reader : Reader ε) {n : Nat} {c : CodePoint} (value : c.val = n) (rest : Str) :
    expect reader n (c :: rest) = .ok rest := by
  rw [expect, if_pos value]

theorem expect_other (reader : Reader ε) {n : Nat} {c : CodePoint} (value : c.val ≠ n) (rest : Str) :
    expect reader n (c :: rest) = .error reader.invalid := by
  rw [expect, if_neg value]

def comma : CodePoint := CodePoint.ofNat 0x2C
def colon : CodePoint := CodePoint.ofNat 0x3A
def closeBracket : CodePoint := CodePoint.ofNat 0x5D
def closeBrace : CodePoint := CodePoint.ofNat 0x7D

theorem solid_mark {c : CodePoint} (dark : isWhite c = false) (rest : Str) : Solid (c :: rest) := ⟨c, rest, rfl, dark⟩

variable {fuel : Nat}

/-- The last item, and the closing bracket. -/
theorem scanItems_last {s gap rest : Str} {item : Except ε Json} (white : White gap)
    (scans : scanValue reader fuel s = item.map (·, gap ++ closeBracket :: rest)) :
    scanItems reader (fuel + 1) s = (item.map fun value => [value]).map (·, rest) := by
  rw [scanItems, scans]
  cases item with
  | error e => rfl
  | ok value =>
    dsimp only [Except.map, bind, Except.bind]
    rw [skip_gap white (solid_mark (by decide) rest), expect_self reader (by decide)]
    rfl

/-- An item, a comma and more items. -/
theorem scanItems_more {s gap t rest : Str} {item : Except ε Json} {items : Except ε (List Json)} (white : White gap)
    (solid : Solid t) (scans : scanValue reader fuel s = item.map (·, comma :: (gap ++ t)))
    (more : scanItems reader fuel t = items.map (·, rest)) :
    scanItems reader (fuel + 1) s = (do return (← item) :: (← items)).map (·, rest) := by
  rw [scanItems, scans]
  cases item with
  | error e => rfl
  | ok value =>
    dsimp only [Except.map, bind, Except.bind]
    rw [skip_solid (solid_mark (by decide) _), expect_other reader (by decide), expect_self reader (by decide)]
    dsimp only
    rw [skip_gap white solid, more]
    cases items <;> rfl

private theorem scanMembers_value {left t : Str} (key : Str) (white : White left) (solid : Solid t) :
    scanMembers reader (fuel + 1) (quote key ++ colon :: (left ++ t)) = (do
      let (value, after) ← scanValue reader fuel t
      match expect reader 0x7D (skip after) with
      | .ok final => return ([(reader.string (scannedText key), value)], final)
      | .error _ =>
        let more ← expect reader 0x2C (skip after)
        let (members, final) ← scanMembers reader fuel (skip more)
        return ((reader.string (scannedText key), value) :: members, final)) := by
  rw [scanMembers, scanQuoted_quote]
  dsimp only [bind, Except.bind]
  rw [skip_solid (solid_mark (by decide) _), expect_self reader (by decide)]
  dsimp only
  rewrite [skip_gap white solid]
  rfl

/-- The last member, and the closing brace. -/
theorem scanMembers_last {left t gap rest : Str} {item : Except ε Json} (key : Str) (white : White left ∧ White gap)
    (solid : Solid t) (scans : scanValue reader fuel t = item.map (·, gap ++ closeBrace :: rest)) :
    scanMembers reader (fuel + 1) (quote key ++ colon :: (left ++ t)) =
      (item.map fun value => [(reader.string (scannedText key), value)]).map (·, rest) := by
  rw [scanMembers_value key white.1 solid, scans]
  cases item with
  | error e => rfl
  | ok value =>
    dsimp only [Except.map, bind, Except.bind]
    rw [skip_gap white.2 (solid_mark (by decide) rest), expect_self reader (by decide)]
    rfl

/-- A member, a comma and more members. -/
theorem scanMembers_more {left t gap u rest : Str} {item : Except ε Json} {members : Except ε (List (Str × Json))}
    (key : Str) (white : White left ∧ White gap) (solid : Solid t ∧ Solid u)
    (scans : scanValue reader fuel t = item.map (·, comma :: (gap ++ u)))
    (more : scanMembers reader fuel u = members.map (·, rest)) :
    scanMembers reader (fuel + 1) (quote key ++ colon :: (left ++ t)) =
      (do return (reader.string (scannedText key), ← item) :: (← members)).map (·, rest) := by
  rw [scanMembers_value key white.1 solid.1, scans]
  cases item with
  | error e => rfl
  | ok value =>
    dsimp only [Except.map, bind, Except.bind]
    rw [skip_solid (solid_mark (by decide) _), expect_other reader (by decide), expect_self reader (by decide)]
    dsimp only
    rw [skip_gap white.2 solid.2, more]
    cases members <;> rfl

/-! ### How a printed value begins -/

theorem solid_printed {indent : Option Nat} {text : Str} (printed : Printed indent text) (rest : Str) :
    Solid (text ++ rest) := by
  obtain ⟨first, head, low, high⟩ := printed.begins
  cases text with
  | nil => cases head
  | cons c more =>
    obtain rfl : c = first := Option.some.inj head
    refine ⟨c, more ++ rest, rfl, ?_⟩
    simp only [isWhite, Bool.or_eq_false_iff, beq_eq_false_iff_ne]
    omega

theorem bare_literal (usual : Usual reader) {x : FloatText} (literal : Literal reader x) : Bare x.text := by
  rcases literal with known | ⟨minus, whole, fraction, exponent, number, text, -⟩ | foreign
  · obtain ⟨entry, member, same⟩ := List.mem_map.mp known
    rw [← same]
    exact (usual.bare entry member).1
  · rw [text, List.append_assoc, List.append_assoc]
    exact bare_numberText number _
  · exact foreign.1

theorem bare_intText (n : Int) : Bare (intText n) := by
  obtain ⟨minus, whole, number, text⟩ := intText_parts n
  have bare := bare_numberText number []
  rwa [List.append_nil, ← text] at bare

/-- No printed value begins with a closing bracket. -/
theorem unclosed_dumpsAt (usual : Usual reader) {indent : Option Nat} {level : Nat} {value : Json} {text : Str}
    (ok : dumpsAt indent level value = .ok text) (literals : Floats (Literal reader) value) (rest : Str) :
    expect reader 0x5D (text ++ rest) = .error reader.invalid := by
  have of_bare {s : Str} (bare : Bare s) : expect reader 0x5D (s ++ rest) = .error reader.invalid := by
    obtain ⟨c, more, rfl, -, -, -, other, -⟩ := bare
    exact expect_other reader other _
  have of_word {word : Str} {value : Json} (known : (word, value) ∈ reader.words) :
      expect reader 0x5D (word ++ rest) = .error reader.invalid := of_bare (usual.bare _ known).1
  -- brackets, braces and quotation marks
  have of_mark {c : CodePoint} (other : c.val ≠ 0x5D) (s : Str) :
      expect reader 0x5D (([c] ++ s) ++ rest) = .error reader.invalid := expect_other reader other _
  have of_enclose (opening : CodePoint) (other : opening.val ≠ 0x5D) (closing : Str) (texts : List Str) :
      expect reader 0x5D (enclose indent level [opening] closing texts ++ rest) = .error reader.invalid := by
    unfold enclose
    split
    · exact of_mark other closing
    · rw [List.append_assoc [opening], List.append_assoc [opening], List.append_assoc [opening]]
      exact of_mark other _
  cases value with
  | null =>
    cases ok
    exact of_word usual.null
  | bool b =>
    cases b with
    | true =>
      cases ok
      exact of_word usual.yes
    | false =>
      cases ok
      exact of_word usual.no
  | int n =>
    rw [dumpsAt, strInt] at ok
    split at ok
    · cases ok
      exact of_bare (bare_intText n)
    · cases ok
  | float x =>
    cases ok
    exact of_bare (bare_literal usual literals)
  | str s =>
    cases ok
    rw [quote, List.append_assoc (lit "\"")]
    exact of_mark (c := CodePoint.ofChar '"') (by decide) _
  | arr items =>
    obtain ⟨texts, -, rfl⟩ := ok_of_map ok
    exact of_enclose (CodePoint.ofChar '[') (by decide) _ _
  | obj members =>
    obtain ⟨texts, -, rfl⟩ := ok_of_map ok
    exact of_enclose (CodePoint.ofNat 0x7B) (by decide) _ _

/-! ### Scanning what was printed -/

section Law
variable {indent : Option Nat}

theorem joinTexts_append (sep text : Str) (more : List Str) : ∃ rest, joinTexts sep (text :: more) = text ++ rest := by
  cases more with
  | nil => exact ⟨[], (List.append_nil text).symm⟩
  | cons next later => exact ⟨sep ++ joinTexts sep (next :: later), by rw [joinTexts, List.append_assoc]⟩

/-- The texts of some items begin like the first of them. -/
theorem joinTexts_head (sep : Str) {level : Nat} {items : List Json} {texts : List Str}
    (ok : dumpsItems indent level items = .ok texts) (some_item : items ≠ []) :
    ∃ item ∈ items.head?, ∃ text, dumpsAt indent level item = .ok text ∧
      ∃ rest, joinTexts sep texts = text ++ rest := by
  cases items with
  | nil => exact absurd rfl some_item
  | cons item more =>
    rw [dumpsItems] at ok
    obtain ⟨text, first, more_ok⟩ := ok_of_bind ok
    obtain ⟨tail, -, same⟩ := ok_of_bind more_ok
    cases same
    exact ⟨item, rfl, text, first, joinTexts_append sep text tail⟩

theorem joinTexts_member (sep : Str) {level : Nat} {members : List (Str × Json)} {texts : List Str}
    (ok : dumpsMembers indent level members = .ok texts) (some_member : members ≠ []) :
    ∃ key rest, joinTexts sep texts = quote key ++ rest := by
  cases members with
  | nil => exact absurd rfl some_member
  | cons member more =>
    obtain ⟨key, value⟩ := member
    rw [dumpsMembers] at ok
    obtain ⟨text, first, more_ok⟩ := ok_of_bind ok
    obtain ⟨tail, -, same⟩ := ok_of_bind more_ok
    cases same
    obtain ⟨rest, joined⟩ := joinTexts_append sep (quote key ++ lit ": " ++ text) tail
    exact ⟨key, lit ": " ++ text ++ rest, by rw [joined]; simp⟩

theorem solid_quote (key rest : Str) : Solid (quote key ++ rest) := solid_printed (printed_quote key : Printed none (quote key)) rest

theorem enclose_nil (level : Nat) (opening closing : Str) : enclose indent level opening closing [] = opening ++ closing :=
  rfl

/-- The texts between the brackets, with a line break on each side of them. -/
theorem enclose_append {level : Nat} {opening closing : CodePoint} {texts : List Str} (some_text : texts ≠ [])
    (rest : Str) :
    enclose indent level [opening] [closing] texts ++ rest =
      opening :: (newline indent (level + 1) ++ (joinTexts (separator indent (level + 1)) texts ++
        (newline indent level ++ closing :: rest))) := by
  have full : texts.isEmpty = false := by simpa using some_text
  rw [enclose, if_neg (by simp [full])]
  simp

private theorem texts_ne_nil {level : Nat} {items : List Json} {texts : List Str}
    (ok : dumpsItems indent level items = .ok texts) (some_item : items ≠ []) : texts ≠ [] := by
  cases items with
  | nil => exact absurd rfl some_item
  | cons item more =>
    rw [dumpsItems] at ok
    obtain ⟨text, -, more_ok⟩ := ok_of_bind ok
    obtain ⟨tail, -, same⟩ := ok_of_bind more_ok
    cases same
    exact List.cons_ne_nil _ _

private theorem membersTexts_ne_nil {level : Nat} {members : List (Str × Json)} {texts : List Str}
    (ok : dumpsMembers indent level members = .ok texts) (some_member : members ≠ []) : texts ≠ [] := by
  cases members with
  | nil => exact absurd rfl some_member
  | cons member more =>
    rw [dumpsMembers] at ok
    obtain ⟨text, -, more_ok⟩ := ok_of_bind ok
    obtain ⟨tail, -, same⟩ := ok_of_bind more_ok
    cases same
    exact List.cons_ne_nil _ _

/-- An array of some items, once its items scan. -/
theorem scanValue_arr {fuel level : Nat} {texts : List Str} {rest : Str} {items : Except ε (List Json)}
    (some_text : texts ≠ [])
    (begins : ∀ more, Solid (joinTexts (separator indent (level + 1)) texts ++ more) ∧
      expect reader 0x5D (joinTexts (separator indent (level + 1)) texts ++ more) = .error reader.invalid)
    (scans : scanItems reader fuel (joinTexts (separator indent (level + 1)) texts ++
      (newline indent level ++ closeBracket :: rest)) = items.map (·, rest)) :
    scanValue reader (fuel + 1) (enclose indent level (lit "[") (lit "]") texts ++ rest) =
      (items.map Json.arr).map (·, rest) := by
  obtain ⟨solid, opened⟩ := begins (newline indent level ++ closeBracket :: rest)
  have other : (CodePoint.ofNat 0x5B).val ≠ 0x22 := by decide
  have bracket : (CodePoint.ofNat 0x5B).val = 0x5B := by decide
  rw [(by decide : lit "[" = [CodePoint.ofNat 0x5B]), (by decide : lit "]" = [closeBracket]), enclose_append some_text,
    scanValue, if_neg other, if_pos bracket, skip_gap (white_newline _ _) solid, opened]
  dsimp only
  rw [scans]
  cases items <;> rfl

theorem scanValue_obj {fuel level : Nat} {texts : List Str} {rest : Str} {members : Except ε (List (Str × Json))}
    (some_text : texts ≠ []) (begins : ∃ key more, joinTexts (separator indent (level + 1)) texts = quote key ++ more)
    (scans : scanMembers reader fuel (joinTexts (separator indent (level + 1)) texts ++
      (newline indent level ++ closeBrace :: rest)) = members.map (·, rest)) :
    scanValue reader (fuel + 1) (enclose indent level (lit "\x7b") (lit "\x7d") texts ++ rest) =
      (members.map fun members => Json.obj (collected members).entries).map (·, rest) := by
  obtain ⟨key, more, quoted⟩ := begins
  have solid : Solid (joinTexts (separator indent (level + 1)) texts ++ (newline indent level ++ closeBrace :: rest)) := by
    rw [quoted, List.append_assoc]
    exact solid_quote key _
  have opened : expect reader 0x7D (joinTexts (separator indent (level + 1)) texts ++
      (newline indent level ++ closeBrace :: rest)) = .error reader.invalid := by
    rw [quoted, quote, (by decide : lit "\"" = [CodePoint.ofNat 0x22])]
    exact expect_other reader (by decide) _
  have quotation : (CodePoint.ofNat 0x7B).val ≠ 0x22 := by decide
  have bracket : (CodePoint.ofNat 0x7B).val ≠ 0x5B := by decide
  have brace : (CodePoint.ofNat 0x7B).val = 0x7B := by decide
  rw [(by decide : lit "\x7b" = [CodePoint.ofNat 0x7B]), (by decide : lit "\x7d" = [closeBrace]),
    enclose_append some_text, scanValue, if_neg quotation, if_neg bracket, if_pos brace,
    skip_gap (white_newline _ _) solid, opened]
  dsimp only
  rw [scans]
  cases members <;> rfl

private theorem fuel_enclosed {level fuel : Nat} {opening closing : CodePoint} {texts : List Str} {rest : Str}
    (some_text : texts ≠ []) (fuelled : 2 * (enclose indent level [opening] [closing] texts ++ rest).length < fuel + 1) :
    2 * (joinTexts (separator indent (level + 1)) texts ++ (newline indent level ++ closing :: rest)).length + 1 < fuel := by
  rw [enclose_append some_text, List.length_cons, List.length_append] at fuelled
  omega

theorem ends_close {c : CodePoint} (closing : c = closeBracket ∨ c = closeBrace ∨ c = comma) (rest : Str) :
    Ends (c :: rest) := by
  rcases closing with rfl | rfl | rfl
  · exact ends_cons (by decide)
  · exact ends_cons (by decide)
  · exact ends_cons (by decide)

mutual

theorem scanValue_dumpsAt (usual : Usual reader) (level : Nat) : ∀ (value : Json) (text : Str),
    dumpsAt indent level value = .ok text → Floats (Literal reader) value → ∀ rest, Ends rest →
    ∀ fuel, 2 * (text ++ rest).length < fuel →
      scanValue reader fuel (text ++ rest) = (reread reader value).map (·, rest)
  | .null, text, ok, _, rest, _, fuel + 1, _ => by
    cases ok
    rw [scanValue_bare (bare_append (usual.bare _ usual.null).1 rest), scanBare_word usual usual.null]
    rfl
  | .bool true, text, ok, _, rest, _, fuel + 1, _ => by
    cases ok
    rw [scanValue_bare (bare_append (usual.bare _ usual.yes).1 rest), scanBare_word usual usual.yes]
    rfl
  | .bool false, text, ok, _, rest, _, fuel + 1, _ => by
    cases ok
    rw [scanValue_bare (bare_append (usual.bare _ usual.no).1 rest), scanBare_word usual usual.no]
    rfl
  | .int n, text, ok, _, rest, ended, fuel + 1, _ => by
    rw [dumpsAt, strInt] at ok
    split at ok
    · cases ok
      rw [scanValue_bare (bare_append (bare_intText n) rest), scanBare_int usual n ended]
      rfl
    · cases ok
  | .float x, text, ok, literal, rest, ended, fuel + 1, _ => by
    cases ok
    rw [scanValue_bare (bare_append (bare_literal usual literal) rest), scanBare_float usual literal ended]
    rfl
  | .str s, text, ok, _, rest, _, fuel + 1, _ => by
    cases ok
    have quoted := scanQuoted_quote reader s rest
    rw [quote, (by decide : lit "\"" = [CodePoint.ofNat 0x22])] at quoted ⊢
    rw [List.append_assoc, List.append_assoc, List.singleton_append] at quoted ⊢
    rw [scanValue, if_pos (by decide), quoted]
    rfl
  | .arr [], text, ok, _, rest, _, fuel + 1, _ => by
    cases ok
    rw [enclose_nil, (by decide : lit "[" = [CodePoint.ofNat 0x5B]), (by decide : lit "]" = [closeBracket])]
    rw [List.append_assoc, List.singleton_append, List.singleton_append, scanValue, if_neg (by decide),
      if_pos (by decide), skip_solid (solid_mark (by decide) rest), expect_self reader (by decide)]
    rfl
  | .arr (item :: more), text, ok, literals, rest, ended, fuel + 1, fuelled => by
    rw [dumpsAt] at ok
    obtain ⟨texts, parts, rfl⟩ := ok_of_map ok
    have some_item : item :: more ≠ [] := List.cons_ne_nil _ _
    have some_text := texts_ne_nil parts some_item
    rw [reread]
    refine scanValue_arr some_text ?_ ?_
    · intro after
      obtain ⟨first, same, head, first_ok, tail, joined⟩ :=
        joinTexts_head (separator indent (level + 1)) parts some_item
      cases same
      rw [joined, List.append_assoc]
      exact ⟨solid_printed (printed_dumpsAt _ _ _ first_ok) _, unclosed_dumpsAt usual first_ok literals.1 _⟩
    · exact scanItems_dumps usual (level + 1) _ texts parts literals some_item _ rest (white_newline _ _) fuel
        (fuel_enclosed some_text fuelled)
  | .obj [], text, ok, _, rest, _, fuel + 1, _ => by
    cases ok
    rw [enclose_nil, (by decide : lit "\x7b" = [CodePoint.ofNat 0x7B]), (by decide : lit "\x7d" = [closeBrace])]
    rw [List.append_assoc, List.singleton_append, List.singleton_append, scanValue, if_neg (by decide),
      if_neg (by decide), if_pos (by decide), skip_solid (solid_mark (by decide) rest), expect_self reader (by decide)]
    rfl
  | .obj (member :: more), text, ok, literals, rest, ended, fuel + 1, fuelled => by
    rw [dumpsAt] at ok
    obtain ⟨texts, parts, rfl⟩ := ok_of_map ok
    have some_member : member :: more ≠ [] := List.cons_ne_nil _ _
    have some_text := membersTexts_ne_nil parts some_member
    rw [reread]
    refine scanValue_obj some_text (joinTexts_member _ parts some_member) ?_
    exact scanMembers_dumps usual (level + 1) _ texts parts literals some_member _ rest (white_newline _ _) fuel
      (fuel_enclosed some_text fuelled)

theorem scanItems_dumps (usual : Usual reader) (level : Nat) : ∀ (items : List Json) (texts : List Str),
    dumpsItems indent level items = .ok texts → FloatsItems (Literal reader) items → items ≠ [] →
    ∀ gap rest, White gap → ∀ fuel,
      2 * (joinTexts (separator indent level) texts ++ (gap ++ closeBracket :: rest)).length + 1 < fuel →
      scanItems reader fuel (joinTexts (separator indent level) texts ++ (gap ++ closeBracket :: rest)) =
        (rereadItems reader items).map (·, rest)
  | [], _, _, _, some_item, _, _, _, _, _ => absurd rfl some_item
  | item :: more, texts, ok, literals, _, gap, rest, white, fuel + 1, fuelled => by
    rw [dumpsItems] at ok
    obtain ⟨text, first, more_ok⟩ := ok_of_bind ok
    obtain ⟨tail, parts, same⟩ := ok_of_bind more_ok
    cases same
    rw [rereadItems]
    by_cases last : more = []
    · subst last
      cases parts
      have scans := scanValue_dumpsAt usual level item text first literals.1 (gap ++ closeBracket :: rest)
        (ends_gap white (ends_close (.inl rfl) rest)) fuel (by rw [joinTexts] at fuelled; omega)
      rw [joinTexts, scanItems_last white scans, rereadItems]
      cases reread reader item <;> rfl
    · obtain ⟨second, later, rfl⟩ := List.exists_cons_of_ne_nil (texts_ne_nil parts last)
      obtain ⟨space, shape, blank⟩ := separator_eq indent level
      obtain ⟨next, -, head, next_ok, remains, joined⟩ := joinTexts_head (separator indent level) parts last
      have solid : Solid (joinTexts (separator indent level) (second :: later) ++ (gap ++ closeBracket :: rest)) := by
        rw [joined, List.append_assoc]
        exact solid_printed (printed_dumpsAt _ _ _ next_ok) _
      have whole : joinTexts (separator indent level) (text :: second :: later) ++ (gap ++ closeBracket :: rest) =
          text ++ (comma :: (space ++ (joinTexts (separator indent level) (second :: later) ++
            (gap ++ closeBracket :: rest)))) := by
        rw [joinTexts, shape]
        simp [comma]
      rw [whole] at fuelled ⊢
      have scans := scanValue_dumpsAt usual level item text first literals.1
        (comma :: (space ++ (joinTexts (separator indent level) (second :: later) ++ (gap ++ closeBracket :: rest))))
        (ends_close (.inr (.inr rfl)) _) fuel (by omega)
      have others := scanItems_dumps usual level more _ parts literals.2 last gap rest white fuel (by
        rw [List.length_append, List.length_cons, List.length_append] at fuelled
        omega)
      exact scanItems_more blank solid scans others

theorem scanMembers_dumps (usual : Usual reader) (level : Nat) : ∀ (members : List (Str × Json)) (texts : List Str),
    dumpsMembers indent level members = .ok texts → FloatsMembers (Literal reader) members → members ≠ [] →
    ∀ gap rest, White gap → ∀ fuel,
      2 * (joinTexts (separator indent level) texts ++ (gap ++ closeBrace :: rest)).length + 1 < fuel →
      scanMembers reader fuel (joinTexts (separator indent level) texts ++ (gap ++ closeBrace :: rest)) =
        (rereadMembers reader members).map (·, rest)
  | [], _, _, _, some_member, _, _, _, _, _ => absurd rfl some_member
  | (key, value) :: more, texts, ok, literals, _, gap, rest, white, fuel + 1, fuelled => by
    rw [dumpsMembers] at ok
    obtain ⟨text, first, more_ok⟩ := ok_of_bind ok
    obtain ⟨tail, parts, same⟩ := ok_of_bind more_ok
    cases same
    rw [rereadMembers]
    have solid (after : Str) : Solid (text ++ after) := solid_printed (printed_dumpsAt _ _ _ first) after
    have mark : lit ": " = [colon, CodePoint.ofNat 0x20] := by decide
    have space : White [CodePoint.ofNat 0x20] := by
      unfold White
      decide
    by_cases last : more = []
    · subst last
      cases parts
      have whole : joinTexts (separator indent level) [quote key ++ lit ": " ++ text] ++ (gap ++ closeBrace :: rest) =
          quote key ++ colon :: ([CodePoint.ofNat 0x20] ++ (text ++ (gap ++ closeBrace :: rest))) := by
        simp [joinTexts, mark]
      rw [whole] at fuelled ⊢
      have scans := scanValue_dumpsAt usual level value text first literals.1 (gap ++ closeBrace :: rest)
        (ends_gap white (ends_close (.inr (.inl rfl)) rest)) fuel (by
          rw [List.length_append, List.length_cons, List.length_append] at fuelled
          omega)
      rw [scanMembers_last key ⟨space, white⟩ (solid _) scans, rereadMembers]
      cases reread reader value <;> rfl
    · obtain ⟨second, later, rfl⟩ := List.exists_cons_of_ne_nil (membersTexts_ne_nil parts last)
      obtain ⟨between, shape, blank⟩ := separator_eq indent level
      obtain ⟨next, remains, joined⟩ := joinTexts_member (separator indent level) parts last
      have solid' : Solid (joinTexts (separator indent level) (second :: later) ++ (gap ++ closeBrace :: rest)) := by
        rw [joined, List.append_assoc]
        exact solid_quote next _
      have whole : joinTexts (separator indent level) ((quote key ++ lit ": " ++ text) :: second :: later) ++
          (gap ++ closeBrace :: rest) = quote key ++ colon :: ([CodePoint.ofNat 0x20] ++ (text ++ (comma :: (between ++
            (joinTexts (separator indent level) (second :: later) ++ (gap ++ closeBrace :: rest)))))) := by
        rw [joinTexts, shape]
        simp [comma, mark]
      rw [whole] at fuelled ⊢
      have scans := scanValue_dumpsAt usual level value text first literals.1
        (comma :: (between ++ (joinTexts (separator indent level) (second :: later) ++ (gap ++ closeBrace :: rest))))
        (ends_close (.inr (.inr rfl)) _) fuel (by
          simp only [List.length_append, List.length_cons] at fuelled ⊢
          omega)
      have others := scanMembers_dumps usual level more _ parts literals.2 last gap rest white fuel (by
        simp only [List.length_append, List.length_cons] at fuelled ⊢
        omega)
      exact scanMembers_more key ⟨space, blank⟩ ⟨solid _, solid'⟩ scans others

end

/-- Scanning a printed document gives what the reader makes of the value, whatever
    white space is around it. -/
theorem scan_dumps (usual : Usual reader) {value : Json} {text : Str} (ok : dumps indent value = .ok text)
    (literals : Floats (Literal reader) value) {left right : Str} (white : White left ∧ White right) :
    scan reader (left ++ text ++ right) = reread reader value := by
  have ended : Ends right := by
    obtain ⟨-, blank⟩ := white
    cases right with
    | nil => exact nofun
    | cons c more =>
      have space := blank c (by simp)
      simp only [isWhite, Bool.or_eq_true, beq_iff_eq] at space
      refine ends_cons ?_
      simp only [isDigit, Bool.and_eq_false_iff, decide_eq_false_iff_not]
      omega
  have solid := solid_printed (printed ok) right
  have finished : skip right = [] := by
    rw [skip, List.dropWhile_eq_nil_iff]
    exact white.2
  rw [scan, List.append_assoc, skip_gap white.1 solid,
    scanValue_dumpsAt usual 0 value text ok literals right ended (enough (text ++ right)) (Nat.lt_succ_self _)]
  cases reread reader value with
  | error e => rfl
  | ok result =>
    dsimp only [Except.map, bind, Except.bind]
    rw [if_pos finished]
    rfl

end Law
end Hde.Rereading
