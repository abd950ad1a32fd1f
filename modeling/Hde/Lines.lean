import Hde.Unicode
import Mathlib.Data.List.DropRight

/-!
Text files as a reader in text mode sees them: every line break comes as `\n`
(`universal`), and `readlines` cuts after each of them. What does not begin with `\n`
is read by itself (`universal_append`), and lines that were written with a `\n` at
their end come back as written (`readlines_flatMap`).
-/
namespace Hde.Lines
open Hde.Text Hde.Unicode

def lineFeed : CodePoint := CodePoint.ofNat 10
def carriageReturn : CodePoint := CodePoint.ofNat 13

/-- Reading with universal newlines: `\r` and `\r\n` become `\n`. The flag says
    that a `\r` came just before. -/
def universal : Bool → Str → Str
  | _, [] => []
  | afterReturn, c :: rest =>
    if c = carriageReturn then lineFeed :: universal true rest
    else if c = lineFeed ∧ afterReturn then universal false rest
    else c :: universal false rest

/-- `f.readlines()`: each line with its `\n`, and the last one perhaps without. -/
def readlines : Str → List Str
  | [] => []
  | c :: rest =>
    if c = lineFeed then [c] :: readlines rest
    else match readlines rest with
      | [] => [[c]]
      | line :: more => (c :: line) :: more

/-- `s.strip()`. -/
def strip (s : Str) : Str := (s.dropWhile isSpace).rdropWhile isSpace

/-! ### Line breaks -/

theorem universal_of_head {s : Str} (head : s.head? ≠ some lineFeed) (flag : Bool) :
    universal flag s = universal false s := by
  cases s with
  | nil => rfl
  | cons c rest =>
    have other : c ≠ lineFeed := by simpa using head
    simp [universal, other]

/-- What does not begin with `\n` is read by itself. -/
theorem universal_append {t : Str} (head : t.head? ≠ some lineFeed) (flag : Bool) (s : Str) :
    universal flag (s ++ t) = universal flag s ++ universal false t := by
  induction s generalizing flag with
  | nil => exact universal_of_head head flag
  | cons c rest ih =>
    rw [List.cons_append, universal, universal]
    split
    · simp [ih]
    split <;> simp [ih]

theorem universal_eq_self {s : Str} (absent : carriageReturn ∉ s) : universal false s = s := by
  induction s with
  | nil => rfl
  | cons c rest ih =>
    have here : c ≠ carriageReturn := fun same => absent (by simp [same])
    have later : carriageReturn ∉ rest := fun member => absent (by simp [member])
    simp [universal, here, ih later]

/-! ### Lines -/

theorem readlines_line {line : Str} (whole : lineFeed ∉ line) (rest : Str) :
    readlines (line ++ lineFeed :: rest) = (line ++ [lineFeed]) :: readlines rest := by
  induction line with
  | nil => simp [readlines]
  | cons c more ih =>
    have here : c ≠ lineFeed := fun same => whole (by simp [same])
    have later : lineFeed ∉ more := fun member => whole (by simp [member])
    simp [readlines, here, ih later]

/-- Lines written with a `\n` at their end come back as written. -/
theorem readlines_flatMap {lines : List Str} (whole : ∀ line ∈ lines, lineFeed ∉ line) :
    readlines (lines.flatMap (· ++ [lineFeed])) = lines.map (· ++ [lineFeed]) := by
  induction lines with
  | nil => rfl
  | cons line more ih =>
    have later : ∀ other ∈ more, lineFeed ∉ other := fun other member => whole other (by simp [member])
    rw [List.flatMap_cons, List.append_assoc, List.singleton_append, readlines_line (whole line (by simp)), ih later,
      List.map_cons]

/-! ### White space -/

theorem strip_eq_nil_iff {s : Str} : strip s = [] ↔ ∀ c ∈ s, isSpace c = true := by
  rw [strip, List.rdropWhile_eq_nil_iff]
  constructor
  · intro rest c member
    by_contra dark
    have kept : s.dropWhile isSpace ≠ [] := by
      simp only [ne_eq, List.dropWhile_eq_nil_iff, not_forall]
      exact ⟨c, member, dark⟩
    have first_dark := List.head_dropWhile_not isSpace kept
    rw [rest _ (List.head_mem kept)] at first_dark
    cases first_dark
  · intro spaces c member
    exact spaces c ((List.dropWhile_sublist isSpace).subset member)

theorem strip_append_lineFeed (s : Str) : strip (s ++ [lineFeed]) = strip s := by
  by_cases blank : ∀ c ∈ s, isSpace c = true
  · have ended : ∀ c ∈ s ++ [lineFeed], isSpace c = true := by
      simp only [List.mem_append, List.mem_singleton]
      rintro c (member | rfl)
      · exact blank c member
      · decide
    rw [strip_eq_nil_iff.mpr blank, strip_eq_nil_iff.mpr ended]
  · have dropped : (s ++ [lineFeed]).dropWhile isSpace = s.dropWhile isSpace ++ [lineFeed] := by
      rw [List.dropWhile_append, if_neg]
      simpa using blank
    rw [strip, dropped, List.rdropWhile_concat_pos _ _ _ (by decide), strip]

/-- A text with no white space at its ends is all that `strip` leaves. -/
theorem strip_eq_self {s : Str} {first last : CodePoint} (begins : s.head? = some first) (ends : s.getLast? = some last)
    (dark : isSpace first = false ∧ isSpace last = false) : strip s = s := by
  obtain ⟨more, rfl⟩ : ∃ more, s = first :: more := by
    cases s with
    | nil => cases begins
    | cons c more => exact ⟨more, by rw [List.head?_cons, Option.some.injEq] at begins; rw [begins]⟩
  have kept : (first :: more).dropWhile isSpace = first :: more := by simp [dark.1]
  rw [strip, kept, List.rdropWhile_eq_self_iff]
  intro some_text
  rw [List.getLast?_eq_some_getLast some_text, Option.some.injEq] at ends
  rw [ends]
  simp [dark.2]

end Hde.Lines
