import Mathlib.Data.List.Basic

/-!
Text as a Python `str` holds it: a sequence of code points, lone surrogates
included. Splitting at the first and at the last occurrence of a separator is
characterised by the only decomposition it can return (`partition_append`,
`rpartition_append`), and splitting everywhere leaves no separator in any part.
-/
namespace Hde.Text

/-- One character of a `str`: a code point, surrogates included. -/
structure CodePoint where
  val : Nat
  valid : val < 0x110000
deriving DecidableEq

/-- A `str`. -/
abbrev Str := List CodePoint

namespace CodePoint

@[ext] theorem ext {a b : CodePoint} (same : a.val = b.val) : a = b := by
  cases a; cases b; cases same; rfl

def ofNat (n : Nat) : CodePoint := if h : n < 0x110000 then ⟨n, h⟩ else ⟨0xFFFD, by decide⟩

theorem ofNat_val {n : Nat} (inside : n < 0x110000) : (ofNat n).val = n := by
  simp [ofNat, inside]

def ofChar (c : Char) : CodePoint := ofNat c.toNat

end CodePoint

/-- A string literal of the source. -/
def lit (s : String) : Str := s.toList.map CodePoint.ofChar

theorem CodePoint.ofChar_injective : Function.Injective CodePoint.ofChar := by
  intro a b same
  have inside : ∀ c : Char, c.toNat < 0x110000 := fun c => by
    rcases c.valid with low | high
    · exact Nat.lt_trans low (by decide)
    · exact high.2
  have values := congrArg CodePoint.val same
  rw [CodePoint.ofChar, CodePoint.ofChar, CodePoint.ofNat_val (inside a), CodePoint.ofNat_val (inside b)] at values
  exact Char.toNat_inj.mp values

@[simp] theorem lit_inj {s t : String} : lit s = lit t ↔ s = t := by
  rw [lit, lit, (List.map_injective_iff.mpr CodePoint.ofChar_injective).eq_iff, String.toList_inj]

section Splitting
variable {α : Type*} [DecidableEq α]

/-- The parts before and after the first separator: `s.split(sep, 1)` of a
    text that has one. -/
def partition (sep : α) (s : List α) : List α × List α :=
  (s.takeWhile (· ≠ sep), (s.dropWhile (· ≠ sep)).tail)

/-- The parts before and after the last separator: `s.rsplit(sep, 1)` of a
    text that has one. -/
def rpartition (sep : α) (s : List α) : List α × List α :=
  ((partition sep s.reverse).2.reverse, (partition sep s.reverse).1.reverse)

private theorem ne_of_absent {sep : α} {s : List α} (absent : sep ∉ s) : ∀ x ∈ s, decide (x ≠ sep) = true := by
  intro x member
  simpa using fun same : x = sep => absent (same ▸ member)

theorem partition_absent {sep : α} {s : List α} (absent : sep ∉ s) : partition sep s = (s, []) := by
  have taken : (s ++ []).takeWhile (· ≠ sep) = s ++ [] := List.takeWhile_append_of_pos (ne_of_absent absent)
  have dropped : (s ++ []).dropWhile (· ≠ sep) = [] := List.dropWhile_append_of_pos (ne_of_absent absent)
  simp only [List.append_nil] at taken dropped
  simp only [partition, taken, dropped, List.tail_nil]

theorem partition_append {sep : α} {before : List α} (absent : sep ∉ before) (after : List α) :
    partition sep (before ++ sep :: after) = (before, after) := by
  simp only [partition, List.takeWhile_append_of_pos (ne_of_absent absent),
    List.dropWhile_append_of_pos (ne_of_absent absent)]
  simp

theorem partition_spec {sep : α} {s : List α} (present : sep ∈ s) :
    s = (partition sep s).1 ++ sep :: (partition sep s).2 ∧ sep ∉ (partition sep s).1 := by
  obtain ⟨before, after, rfl, absent⟩ := List.eq_append_cons_of_mem present
  rw [partition_append absent after]
  exact ⟨rfl, absent⟩

theorem rpartition_absent {sep : α} {s : List α} (absent : sep ∉ s) : rpartition sep s = ([], s) := by
  have absent' : sep ∉ s.reverse := by simpa using absent
  simp [rpartition, partition_absent absent']

theorem rpartition_append {sep : α} {after : List α} (absent : sep ∉ after) (before : List α) :
    rpartition sep (before ++ sep :: after) = (before, after) := by
  have reversed : (before ++ sep :: after).reverse = after.reverse ++ sep :: before.reverse := by simp
  have absent' : sep ∉ after.reverse := by simpa using absent
  simp [rpartition, reversed, partition_append absent' before.reverse]

theorem rpartition_spec {sep : α} {s : List α} (present : sep ∈ s) :
    s = (rpartition sep s).1 ++ sep :: (rpartition sep s).2 ∧ sep ∉ (rpartition sep s).2 := by
  obtain ⟨split, absent⟩ := partition_spec (List.mem_reverse.mpr present)
  refine ⟨?_, by simpa [rpartition] using absent⟩
  have turned := congrArg List.reverse split
  simpa [rpartition] using turned

theorem not_mem_of_mem_splitOn {sep : α} : ∀ {s : List α}, ∀ part ∈ s.splitOn sep, sep ∉ part := by
  intro s
  induction s with
  | nil => simp
  | cons x rest ih =>
    rw [List.splitOn_cons_eq_if_modifyHead]
    by_cases same : x = sep
    · simpa [same] using ih
    · cases parts : rest.splitOn sep with
      | nil => exact absurd parts (List.splitOn_ne_nil sep rest)
      | cons first more =>
        rw [parts] at ih
        intro part member
        simp only [beq_eq_false_iff_ne.mpr same, Bool.false_eq_true, if_false, List.modifyHead_cons,
          List.mem_cons] at member
        rcases member with rfl | later
        · simpa [Ne.symm same] using ih first (by simp)
        · exact ih part (by simp [later])

end Splitting

/-- What begins with a separator does not begin inside a text without one. -/
theorem infix_append_clean {α : Type*} {sep : α} {pattern before after : List α} (clean : sep ∉ before) :
    sep :: pattern <:+: before ++ after ↔ sep :: pattern <:+: after := by
  induction before with
  | nil => rfl
  | cons x rest ih =>
    obtain ⟨other, later⟩ := not_or.mp (mt List.mem_cons.mpr clean)
    rw [List.cons_append, List.infix_cons_iff, ih later, List.cons_prefix_cons]
    simp [other]

end Hde.Text
