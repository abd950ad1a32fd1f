import Hde.Lines
import Hde.Numerals
import Mathlib.Data.List.Forall2

/-!
The values that `json` reads and writes, and `json.dumps`: its default layout on one
line and the layout with an indent. Every character that is not printable ASCII is
escaped, so that a printed document is ASCII, begins and ends with a visible
character, and has no line break but those of an indent (`printed`). `json.loads`
is left to the modules that read: what they need of it is that it undoes `dumps` on
the values at hand (`RoundTrips`).
-/
namespace Hde.JsonText
open Hde.Text Hde.Unicode Hde.Numerals Hde.Lines

def Visible (c : CodePoint) : Prop := 0x21 ≤ c.val ∧ c.val ≤ 0x7E

instance : DecidablePred Visible := fun c => inferInstanceAs (Decidable (0x21 ≤ c.val ∧ c.val ≤ 0x7E))

/-- The `repr` of a `float`. -/
structure FloatText where
  text : Str
  some_text : text ≠ []
  visible : ∀ c ∈ text, Visible c

inductive Json
  | null
  | bool (b : Bool)
  | int (n : Int)
  | float (x : FloatText)
  | str (s : Str)
  | arr (items : List Json)
  | obj (members : List (Str × Json))

namespace Json

/-- `d.get(key)` of a `dict`. -/
def member (members : List (Str × Json)) (key : Str) : Option Json := members.lookup key

/-- `bool(v)`. -/
def truthy : Json → Bool
  | .null => false
  | .bool b => b
  | .int n => n ≠ 0
  | .float x => x.text ∉ [lit "0.0", lit "-0.0"]
  | .str s => s ≠ []
  | .arr items => ¬ items.isEmpty
  | .obj members => ¬ members.isEmpty

end Json

/-! ### Printing -/

def hexDigit (d : Nat) : CodePoint := CodePoint.ofNat (if d < 10 then 48 + d else 87 + d)

/-- `\uXXXX`. -/
def escape (n : Nat) : Str :=
  lit "\\u" ++ [hexDigit (n / 4096 % 16), hexDigit (n / 256 % 16), hexDigit (n / 16 % 16), hexDigit (n % 16)]

/-- One character of a string, with `ensure_ascii`. -/
def quoteChar (c : CodePoint) : Str :=
  if c.val = 0x22 then lit "\\\""
  else if c.val = 0x5C then lit "\\\\"
  else if c.val = 0x0A then lit "\\n"
  else if c.val = 0x0D then lit "\\r"
  else if c.val = 0x09 then lit "\\t"
  else if c.val = 0x0C then lit "\\f"
  else if c.val = 0x08 then lit "\\b"
  else if 0x20 ≤ c.val ∧ c.val ≤ 0x7E then [c]
  else if c.val < 0x10000 then escape c.val
  else escape (0xD800 + (c.val - 0x10000) / 1024) ++ escape (0xDC00 + (c.val - 0x10000) % 1024)

def quote (s : Str) : Str := lit "\"" ++ s.flatMap quoteChar ++ lit "\""

/-- A line break and the spaces of a level, with an indent. -/
def newline (indent : Option Nat) (level : Nat) : Str :=
  match indent with
  | none => []
  | some width => lineFeed :: List.replicate (width * level) (CodePoint.ofNat 32)

def separator (indent : Option Nat) (level : Nat) : Str :=
  match indent with
  | none => lit ", "
  | some _ => lit "," ++ newline indent level

/-- The texts between two separators and the brackets around them. -/
def joinTexts (sep : Str) : List Str → Str
  | [] => []
  | [text] => text
  | text :: next :: more => text ++ sep ++ joinTexts sep (next :: more)

def enclose (indent : Option Nat) (level : Nat) (opening closing : Str) (texts : List Str) : Str :=
  if texts.isEmpty then opening ++ closing
  else opening ++ newline indent (level + 1) ++ joinTexts (separator indent (level + 1)) texts ++ newline indent level ++
    closing

mutual

def dumpsAt (indent : Option Nat) (level : Nat) : Json → Except ValueError Str
  | .null => .ok (lit "null")
  | .bool true => .ok (lit "true")
  | .bool false => .ok (lit "false")
  | .int n => strInt n
  | .float x => .ok x.text
  | .str s => .ok (quote s)
  | .arr items => (dumpsItems indent (level + 1) items).map (enclose indent level (lit "[") (lit "]"))
  | .obj members => (dumpsMembers indent (level + 1) members).map (enclose indent level (lit "\x7b") (lit "\x7d"))

def dumpsItems (indent : Option Nat) (level : Nat) : List Json → Except ValueError (List Str)
  | [] => .ok []
  | item :: more => do return (← dumpsAt indent level item) :: (← dumpsItems indent level more)

def dumpsMembers (indent : Option Nat) (level : Nat) : List (Str × Json) → Except ValueError (List Str)
  | [] => .ok []
  | (key, value) :: more => do
    return (quote key ++ lit ": " ++ (← dumpsAt indent level value)) :: (← dumpsMembers indent level more)

end

/-- `json.dumps(value, indent=indent)`; it raises on an integer that `str` cannot write. -/
def dumps (indent : Option Nat) (value : Json) : Except ValueError Str := dumpsAt indent 0 value

/-! ### What a printed document looks like -/

/-- What goes on after a call has returned. -/
theorem ok_of_bind {ε α β : Type} {first : Except ε α} {next : α → Except ε β} {result : β}
    (ok : first >>= next = .ok result) : ∃ value, first = .ok value ∧ next value = .ok result := by
  cases first with
  | error e => cases ok
  | ok value => exact ⟨value, rfl, ok⟩

theorem ok_of_map {ε α β : Type} {first : Except ε α} {change : α → β} {result : β}
    (ok : first.map change = .ok result) : ∃ value, first = .ok value ∧ change value = result := by
  cases first with
  | error e => cases ok
  | ok value => exact ⟨value, rfl, Except.ok.inj ok⟩

/-- A call on every item that returns on each of them. -/
theorem mapM_forall₂ {ε α β : Type} {call : α → Except ε β} {items : List α} {results : List β}
    (each : List.Forall₂ (fun item result => call item = .ok result) items results) : items.mapM call = .ok results := by
  induction each with
  | nil => rfl
  | cons first _ ih =>
    rw [List.mapM_cons, first, ih]
    rfl

theorem mapM_ok {ε α β : Type} {call : α → Except ε β} {result : α → β} {items : List α}
    (each : ∀ item ∈ items, call item = .ok (result item)) : items.mapM call = .ok (items.map result) :=
  mapM_forall₂ (List.forall₂_map_right_iff.mpr (List.forall₂_same.mpr each))

/-- The characters of a document. -/
def Inside (indent : Option Nat) (c : CodePoint) : Prop :=
  Visible c ∨ c.val = 0x20 ∨ (indent.isSome ∧ c = lineFeed)

structure Printed (indent : Option Nat) (text : Str) : Prop where
  begins : ∃ first, text.head? = some first ∧ Visible first
  ends : ∃ last, text.getLast? = some last ∧ Visible last
  inside : ∀ c ∈ text, Inside indent c

instance (indent : Option Nat) : DecidablePred (Inside indent) :=
  fun c => inferInstanceAs (Decidable (Visible c ∨ c.val = 0x20 ∨ (indent.isSome ∧ c = lineFeed)))

namespace Printed
variable {indent : Option Nat}

theorem append {s t : Str} (first : Printed indent s) {mid : Str} (between : ∀ c ∈ mid, Inside indent c)
    (second : Printed indent t) : Printed indent (s ++ mid ++ t) := by
  obtain ⟨⟨b, head, visible⟩, -, inside⟩ := first
  obtain ⟨-, ⟨e, last, visible'⟩, inside'⟩ := second
  refine ⟨⟨b, by simp [head], visible⟩, ⟨e, by simp [last], visible'⟩, ?_⟩
  simp only [List.mem_append]
  rintro c ((member | member) | member)
  · exact inside c member
  · exact between c member
  · exact inside' c member

theorem of_visible {text : Str} (some_text : text ≠ []) (visible : ∀ c ∈ text, Visible c) : Printed indent text := by
  refine ⟨⟨_, List.head?_eq_some_head some_text, visible _ (List.head_mem some_text)⟩,
    ⟨_, List.getLast?_eq_some_getLast some_text, visible _ (List.getLast_mem some_text)⟩, fun c member => ?_⟩
  exact .inl (visible c member)

end Printed

section Parts
variable {indent : Option Nat}

private theorem visible_hexDigit {d : Nat} (small : d < 16) : Visible (hexDigit d) := by
  have value : (hexDigit d).val = if d < 10 then 48 + d else 87 + d := by
    unfold hexDigit
    rw [CodePoint.ofNat_val]
    split <;> omega
  unfold Visible
  rw [value]
  split <;> omega

private theorem visible_escape {n : Nat} {c : CodePoint} (member : c ∈ escape n) : Visible c := by
  simp only [escape, List.mem_append, List.mem_cons, List.not_mem_nil, or_false] at member
  rcases member with marker | rfl | rfl | rfl | rfl
  · exact (by decide : ∀ c ∈ lit "\\u", Visible c) c marker
  · exact visible_hexDigit (Nat.mod_lt _ (by omega))
  · exact visible_hexDigit (Nat.mod_lt _ (by omega))
  · exact visible_hexDigit (Nat.mod_lt _ (by omega))
  · exact visible_hexDigit (Nat.mod_lt _ (by omega))

private theorem inside_ite {p : Prop} [Decidable p] {s t : Str} (yes : p → ∀ d ∈ s, Inside indent d)
    (no : ∀ d ∈ t, Inside indent d) : ∀ d ∈ (if p then s else t), Inside indent d := by
  by_cases h : p
  · rw [if_pos h]
    exact yes h
  · rw [if_neg h]
    exact no

private theorem inside_quoteChar (c : CodePoint) : ∀ d ∈ quoteChar c, Inside indent d := by
  have seen : ∀ {s : Str}, (∀ d ∈ s, Visible d) → ∀ d ∈ s, Inside indent d :=
    fun visible d member => .inl (visible d member)
  unfold quoteChar
  -- the seven short escapes
  iterate 7 refine inside_ite (fun _ => seen (by decide)) ?_
  refine inside_ite ?_ (inside_ite (fun _ => seen fun d => visible_escape) ?_)
  · intro printable d member
    obtain rfl : d = c := by simpa using member
    unfold Inside Visible
    omega
  · intro d member
    rcases List.mem_append.mp member with high | low
    · exact .inl (visible_escape high)
    · exact .inl (visible_escape low)

theorem printed_quote (s : Str) : Printed indent (quote s) := by
  have mark : Printed indent (lit "\"") := .of_visible (by decide) (by decide)
  refine mark.append ?_ mark
  intro d member
  obtain ⟨c, -, part⟩ := List.mem_flatMap.mp member
  exact inside_quoteChar c d part

theorem printed_intText (n : Int) : Printed indent (intText n) := by
  refine .of_visible ?_ ?_
  · unfold intText
    split
    · simp
    · exact numeral_ne_nil 10 _
  · intro c member
    rcases mem_intText member with rfl | digit
    · decide
    · unfold Visible
      omega

private theorem inside_newline {level : Nat} {c : CodePoint} (member : c ∈ newline indent level) : Inside indent c := by
  cases indent with
  | none => cases member
  | some width =>
    rcases List.mem_cons.mp member with rfl | space
    · exact .inr (.inr ⟨rfl, rfl⟩)
    · obtain ⟨-, rfl⟩ := List.mem_replicate.mp space
      exact .inr (.inl rfl)

private theorem inside_separator {level : Nat} {c : CodePoint} (member : c ∈ separator indent level) :
    Inside indent c := by
  cases indent with
  | none => exact (by decide : ∀ c ∈ lit ", ", Inside none c) c member
  | some width =>
    rcases List.mem_append.mp member with comma | broken
    · exact .inl ((by decide : ∀ c ∈ lit ",", Visible c) c comma)
    · exact inside_newline broken

private theorem inside_joinTexts {level : Nat} {texts : List Str} (printed : ∀ text ∈ texts, Printed indent text)
    {c : CodePoint} (member : c ∈ joinTexts (separator indent level) texts) : Inside indent c := by
  induction texts with
  | nil => cases member
  | cons text more ih =>
    have own := (printed text (by simp)).inside
    cases more with
    | nil => exact own c member
    | cons next rest =>
      rw [joinTexts, List.mem_append, List.mem_append] at member
      rcases member with (here | between) | later
      · exact own c here
      · exact inside_separator between
      · exact ih (fun other inside => printed other (List.mem_cons_of_mem _ inside)) later

theorem printed_enclose {level : Nat} {opening closing : Str} (begins : Printed indent opening)
    (ends : Printed indent closing) {texts : List Str} (printed : ∀ text ∈ texts, Printed indent text) :
    Printed indent (enclose indent level opening closing texts) := by
  unfold enclose
  split
  · have empty : ∀ c ∈ ([] : Str), Inside indent c := by simp
    simpa using begins.append empty ends
  · rw [List.append_assoc opening, List.append_assoc opening]
    refine begins.append ?_ ends
    intro c member
    simp only [List.mem_append] at member
    rcases member with (broken | inner) | broken
    · exact inside_newline broken
    · exact inside_joinTexts printed inner
    · exact inside_newline broken

end Parts

mutual

theorem printed_dumpsAt {indent : Option Nat} (level : Nat) : ∀ (value : Json) (text : Str),
    dumpsAt indent level value = .ok text → Printed indent text
  | .null, text, ok => by
    cases ok
    exact .of_visible (by decide) (by decide)
  | .bool true, text, ok => by
    cases ok
    exact .of_visible (by decide) (by decide)
  | .bool false, text, ok => by
    cases ok
    exact .of_visible (by decide) (by decide)
  | .int n, text, ok => by
    rw [dumpsAt, strInt] at ok
    split at ok
    · cases ok
      exact printed_intText n
    · cases ok
  | .float x, text, ok => by
    cases ok
    exact .of_visible x.some_text x.visible
  | .str s, text, ok => by
    cases ok
    exact printed_quote s
  | .arr items, text, ok => by
    rw [dumpsAt] at ok
    obtain ⟨texts, parts, rfl⟩ := ok_of_map ok
    exact printed_enclose (.of_visible (by decide) (by decide)) (.of_visible (by decide) (by decide))
      (printed_dumpsItems (level + 1) items texts parts)
  | .obj members, text, ok => by
    rw [dumpsAt] at ok
    obtain ⟨texts, parts, rfl⟩ := ok_of_map ok
    exact printed_enclose (.of_visible (by decide) (by decide)) (.of_visible (by decide) (by decide))
      (printed_dumpsMembers (level + 1) members texts parts)

theorem printed_dumpsItems {indent : Option Nat} (level : Nat) : ∀ (items : List Json) (texts : List Str),
    dumpsItems indent level items = .ok texts → ∀ text ∈ texts, Printed indent text
  | [], texts, ok => by
    cases ok
    simp
  | item :: more, texts, ok => by
    rw [dumpsItems] at ok
    obtain ⟨head, first, more_ok⟩ := ok_of_bind ok
    obtain ⟨tail, rest, same⟩ := ok_of_bind more_ok
    cases same
    intro text member
    rcases List.mem_cons.mp member with rfl | later
    · exact printed_dumpsAt level item _ first
    · exact printed_dumpsItems level more tail rest text later

theorem printed_dumpsMembers {indent : Option Nat} (level : Nat) : ∀ (members : List (Str × Json)) (texts : List Str),
    dumpsMembers indent level members = .ok texts → ∀ text ∈ texts, Printed indent text
  | [], texts, ok => by
    cases ok
    simp
  | (key, value) :: more, texts, ok => by
    rw [dumpsMembers] at ok
    obtain ⟨head, first, more_ok⟩ := ok_of_bind ok
    obtain ⟨tail, rest, same⟩ := ok_of_bind more_ok
    cases same
    intro text member
    rcases List.mem_cons.mp member with rfl | later
    · refine (printed_quote key).append ?_ (printed_dumpsAt level value _ first)
      intro c inside
      exact (by decide : ∀ c ∈ lit ": ", Visible c ∨ c.val = 0x20) c inside |>.imp_right .inl
    · exact printed_dumpsMembers level more tail rest text later

end

/-- What `dumps` returns is a printed document. -/
theorem printed {indent : Option Nat} {value : Json} {text : Str} (ok : dumps indent value = .ok text) :
    Printed indent text :=
  printed_dumpsAt 0 value text ok

/-! ### Whether a value can be printed -/

theorem ok_map_iff {ε α β : Type} {first : Except ε α} {change : α → β} :
    (∃ result, first.map change = .ok result) ↔ ∃ value, first = .ok value := by
  constructor
  · rintro ⟨result, ok⟩
    obtain ⟨value, first_ok, -⟩ := ok_of_map ok
    exact ⟨value, first_ok⟩
  · rintro ⟨value, rfl⟩
    exact ⟨change value, rfl⟩

theorem dumpsItems_cons_iff {indent : Option Nat} {level : Nat} {item : Json} {more : List Json} :
    (∃ texts, dumpsItems indent level (item :: more) = .ok texts) ↔
      (∃ text, dumpsAt indent level item = .ok text) ∧ ∃ texts, dumpsItems indent level more = .ok texts := by
  rw [dumpsItems]
  constructor
  · rintro ⟨texts, ok⟩
    obtain ⟨head, first, more_ok⟩ := ok_of_bind ok
    obtain ⟨tail, rest, -⟩ := ok_of_bind more_ok
    exact ⟨⟨head, first⟩, tail, rest⟩
  · rintro ⟨⟨head, first⟩, tail, rest⟩
    rw [first, rest]
    exact ⟨head :: tail, rfl⟩

theorem dumpsMembers_cons_iff {indent : Option Nat} {level : Nat} {key : Str} {value : Json} {more : List (Str × Json)} :
    (∃ texts, dumpsMembers indent level ((key, value) :: more) = .ok texts) ↔
      (∃ text, dumpsAt indent level value = .ok text) ∧ ∃ texts, dumpsMembers indent level more = .ok texts := by
  rw [dumpsMembers]
  constructor
  · rintro ⟨texts, ok⟩
    obtain ⟨head, first, more_ok⟩ := ok_of_bind ok
    obtain ⟨tail, rest, -⟩ := ok_of_bind more_ok
    exact ⟨⟨head, first⟩, tail, rest⟩
  · rintro ⟨⟨head, first⟩, tail, rest⟩
    rw [first, rest]
    exact ⟨(quote key ++ lit ": " ++ head) :: tail, rfl⟩

section Layout
variable (indent other : Option Nat)

mutual

/-- Whether a value can be printed does not depend on the layout. -/
theorem dumpsAt_layout (level depth : Nat) : ∀ value : Json,
    (∃ text, dumpsAt indent level value = .ok text) ↔ ∃ text, dumpsAt other depth value = .ok text
  | .null => ⟨fun _ => ⟨_, rfl⟩, fun _ => ⟨_, rfl⟩⟩
  | .bool true => ⟨fun _ => ⟨_, rfl⟩, fun _ => ⟨_, rfl⟩⟩
  | .bool false => ⟨fun _ => ⟨_, rfl⟩, fun _ => ⟨_, rfl⟩⟩
  | .int _ => Iff.rfl
  | .float _ => ⟨fun _ => ⟨_, rfl⟩, fun _ => ⟨_, rfl⟩⟩
  | .str _ => ⟨fun _ => ⟨_, rfl⟩, fun _ => ⟨_, rfl⟩⟩
  | .arr items => by
    rw [dumpsAt, dumpsAt, ok_map_iff, ok_map_iff]
    exact dumpsItems_layout (level + 1) (depth + 1) items
  | .obj members => by
    rw [dumpsAt, dumpsAt, ok_map_iff, ok_map_iff]
    exact dumpsMembers_layout (level + 1) (depth + 1) members

theorem dumpsItems_layout (level depth : Nat) : ∀ items : List Json,
    (∃ texts, dumpsItems indent level items = .ok texts) ↔ ∃ texts, dumpsItems other depth items = .ok texts
  | [] => ⟨fun _ => ⟨_, rfl⟩, fun _ => ⟨_, rfl⟩⟩
  | item :: more => by
    rw [dumpsItems_cons_iff, dumpsItems_cons_iff, dumpsAt_layout level depth item, dumpsItems_layout level depth more]

theorem dumpsMembers_layout (level depth : Nat) : ∀ members : List (Str × Json),
    (∃ texts, dumpsMembers indent level members = .ok texts) ↔ ∃ texts, dumpsMembers other depth members = .ok texts
  | [] => ⟨fun _ => ⟨_, rfl⟩, fun _ => ⟨_, rfl⟩⟩
  | (key, value) :: more => by
    rw [dumpsMembers_cons_iff, dumpsMembers_cons_iff, dumpsAt_layout level depth value,
      dumpsMembers_layout level depth more]

end

end Layout
end Hde.JsonText
