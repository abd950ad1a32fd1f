import Hde.Unicode
import Mathlib.Data.Nat.Digits.Lemmas
import Mathlib.Tactic.Ring

/-!
Integers as Python writes and reads them: positional numerals, `format(n, "02X")`,
`str(n)` and `int(s)` with CPython's limit on the digits of a conversion.
A numeral determines its number (`readNumeral_numeral`), so `formatX` is
injective, and `int` undoes `str` on every integer within the limit
(`intOf_intText`).
-/
namespace Hde.Numerals
open Hde.Text Hde.Unicode

/-! ### Positional numerals -/

def digitChar (d : Nat) : CodePoint := CodePoint.ofNat (if d < 10 then 48 + d else 55 + d)

def digitOf (c : CodePoint) : Nat := if c.val < 58 then c.val - 48 else c.val - 55

/-- The digits of a number in a base, most significant first, and `0` for zero. -/
def numeral (base n : Nat) : Str :=
  if n = 0 then [digitChar 0] else (Nat.digits base n).reverse.map digitChar

/-- `format(n, "0wX")`. -/
def formatX (width n : Nat) : Str := (numeral 16 n).leftpad width (digitChar 0)

def readNumeral (base : Nat) (s : Str) : Nat := s.foldl (fun value c => base * value + digitOf c) 0

theorem digitChar_val {d : Nat} (small : d < 36) :
    (digitChar d).val = if d < 10 then 48 + d else 55 + d := by
  unfold digitChar
  rw [CodePoint.ofNat_val]
  split <;> omega

theorem digitOf_digitChar {d : Nat} (small : d < 36) : digitOf (digitChar d) = d := by
  unfold digitOf
  rw [digitChar_val small]
  split <;> split at * <;> omega

theorem digitChar_hex {d : Nat} (small : d < 16) : HexDigit (digitChar d) := by
  unfold HexDigit
  rw [digitChar_val (by omega)]
  split <;> omega

theorem numeral_ne_nil (base n : Nat) : numeral base n ≠ [] := by
  unfold numeral
  split
  · simp
  · next positive => simpa [Nat.digits_ne_nil_iff_ne_zero] using positive

theorem mem_numeral {base n : Nat} (base_large : 1 < base) {c : CodePoint} (member : c ∈ numeral base n) :
    ∃ d < base, c = digitChar d := by
  unfold numeral at member
  split at member
  · exact ⟨0, by omega, by simpa using member⟩
  · simp only [List.map_reverse, List.mem_reverse, List.mem_map] at member
    obtain ⟨d, digit, rfl⟩ := member
    exact ⟨d, Nat.digits_lt_base base_large digit, rfl⟩

private theorem foldl_digitChar (base start : Nat) (ds : List Nat) (small : ∀ d ∈ ds, d < 36) :
    (ds.map digitChar).foldl (fun value c => base * value + digitOf c) start =
      ds.foldl (fun value d => base * value + d) start := by
  induction ds generalizing start with
  | nil => rfl
  | cons d rest ih =>
    simp only [List.map_cons, List.foldl_cons]
    rw [digitOf_digitChar (small d (by simp)), ih _ (fun e member => small e (by simp [member]))]

private theorem foldl_reverse_digits (base : Nat) (ds : List Nat) :
    ds.reverse.foldl (fun value d => base * value + d) 0 = Nat.ofDigits base ds := by
  induction ds with
  | nil => rfl
  | cons d rest ih =>
    simp only [List.reverse_cons, List.foldl_append, ih, List.foldl_cons, List.foldl_nil, Nat.ofDigits_cons]
    ring

theorem readNumeral_numeral {base : Nat} (large : 1 < base) (bound : base ≤ 36) (n : Nat) :
    readNumeral base (numeral base n) = n := by
  unfold readNumeral numeral
  split
  · next same => simp [same, digitOf_digitChar]
  · have small : ∀ d ∈ (Nat.digits base n).reverse, d < 36 := by
      intro d member
      have := Nat.digits_lt_base large (List.mem_reverse.mp member)
      omega
    rw [foldl_digitChar _ _ _ small, foldl_reverse_digits, Nat.ofDigits_digits]

private theorem readNumeral_leftpad (base width : Nat) (s : Str) :
    readNumeral base (s.leftpad width (digitChar 0)) = readNumeral base s := by
  have zeros : ∀ k, (List.replicate k (digitChar 0)).foldl (fun value c => base * value + digitOf c) 0 = 0 := by
    intro k
    induction k with
    | zero => rfl
    | succ k ih => simpa [List.replicate_succ, digitOf_digitChar] using ih
  simp [readNumeral, List.leftpad, List.foldl_append, zeros]

theorem formatX_injective (width : Nat) : Function.Injective (formatX width) := by
  intro m n same
  have read := congrArg (readNumeral 16) same
  simpa only [formatX, readNumeral_leftpad, readNumeral_numeral (by omega : 1 < 16) (by omega)] using read

theorem formatX_hex {width n : Nat} : ∀ c ∈ formatX width n, HexDigit c := by
  intro c member
  simp only [formatX, List.leftpad, List.mem_append, List.mem_replicate] at member
  rcases member with ⟨_, rfl⟩ | member
  · exact digitChar_hex (by omega)
  · obtain ⟨d, small, rfl⟩ := mem_numeral (by omega) member
    exact digitChar_hex small

/-- Two hexadecimal digits, and one more for every further digit of the number:
    the length depends on the number above its low byte only. -/
theorem formatX_length (n : Nat) : (formatX 2 n).length = 2 + (Nat.digits 16 (n / 256)).length := by
  have twice : n / 256 = n / 16 / 16 := by omega
  rw [twice]
  by_cases zero : n = 0
  · simp [zero, formatX, numeral]
  · rw [formatX, List.length_leftpad, numeral, if_neg zero, List.length_map, List.length_reverse,
      Nat.digits_def' (by omega) (by omega : 0 < n), List.length_cons]
    by_cases one : n / 16 = 0
    · simp [one]
    · rw [Nat.digits_def' (by omega) (by omega : 0 < n / 16), List.length_cons]
      omega

/-! ### Integers -/

inductive ValueError where
  | invalidLiteral (s : Str)
  | digitLimit
deriving DecidableEq

/-- CPython's default `sys.int_info.default_max_str_digits`. -/
def maxStrDigits : Nat := 4300

/-- `str(n)` without the limit. -/
def intText (n : Int) : Str :=
  if n < 0 then CodePoint.ofChar '-' :: numeral 10 n.natAbs else numeral 10 n.natAbs

/-- The integers that CPython converts to a `str`. -/
def WithinLimit (n : Int) : Prop := (numeral 10 n.natAbs).length ≤ maxStrDigits

instance (n : Int) : Decidable (WithinLimit n) := inferInstanceAs (Decidable (_ ≤ _))

def strInt (n : Int) : Except ValueError Str :=
  if WithinLimit n then .ok (intText n) else .error .digitLimit

/-- How `int` first rewrites its argument: a decimal digit of any script as its
    ASCII digit and any other whitespace as a space. -/
def toAscii (c : CodePoint) : CodePoint :=
  if c.val < 127 then c
  else if isSpace c then CodePoint.ofChar ' '
  else match decimalValue c with
    | some d => digitChar d
    | none => CodePoint.ofChar '?'

def isAsciiSpace (c : CodePoint) : Bool := (9 ≤ c.val && c.val ≤ 13) || c.val == 32

def splitSign : Str → Bool × Str
  | [] => (false, [])
  | c :: rest =>
    if c = CodePoint.ofChar '-' then (true, rest)
    else if c = CodePoint.ofChar '+' then (false, rest)
    else (false, c :: rest)

/-- The digits at the head, with single underscores between them, and the rest;
    `afterDigit` says whether a digit came just before. -/
def scanDigits : Bool → Str → Option (List Nat × Str)
  | afterDigit, [] => if afterDigit then some ([], []) else none
  | afterDigit, c :: rest =>
    if 48 ≤ c.val ∧ c.val ≤ 57 then
      (scanDigits true rest).map (fun (digits, tail) => ((c.val - 48) :: digits, tail))
    else if c = CodePoint.ofChar '_' then
      if afterDigit then scanDigits false rest else none
    else if afterDigit then some ([], c :: rest) else none

/-- `int(s)`. -/
def intOf (s : Str) : Except ValueError Int :=
  let (negative, unsigned) := splitSign ((s.map toAscii).dropWhile isAsciiSpace)
  match scanDigits false unsigned with
  | none => .error (.invalidLiteral s)
  | some (digits, tail) =>
    if maxStrDigits < digits.length then .error .digitLimit
    else if tail.dropWhile isAsciiSpace = [] then
      let value : Nat := digits.foldl (fun value d => 10 * value + d) 0
      .ok (if negative then -(value : Int) else value)
    else .error (.invalidLiteral s)

/-! ### `int` undoes `str` -/

private def decimals (n : Nat) : List Nat := if n = 0 then [0] else (Nat.digits 10 n).reverse

private theorem numeral_decimals (n : Nat) : numeral 10 n = (decimals n).map digitChar := by
  unfold numeral decimals
  split <;> rfl

private theorem decimals_small {n d : Nat} (member : d ∈ decimals n) : d < 10 := by
  unfold decimals at member
  split at member
  · simp only [List.mem_singleton] at member; omega
  · exact Nat.digits_lt_base (by omega) (List.mem_reverse.mp member)

private theorem decimals_value (n : Nat) :
    (decimals n).foldl (fun value d => 10 * value + d) 0 = n := by
  have small : ∀ d ∈ decimals n, d < 36 := fun d member => by have := decimals_small member; omega
  rw [← foldl_digitChar 10 0 _ small, ← numeral_decimals]
  exact readNumeral_numeral (by omega) (by omega) n

private theorem scanDigits_digits (afterDigit : Bool) (ds : List Nat) (small : ∀ d ∈ ds, d < 10)
    (some_digit : afterDigit = true ∨ ds ≠ []) :
    scanDigits afterDigit (ds.map digitChar) = some (ds, []) := by
  induction ds generalizing afterDigit with
  | nil => simpa [scanDigits] using some_digit
  | cons d rest ih =>
    have below : d < 10 := small d (by simp)
    have value : (digitChar d).val = 48 + d := by rw [digitChar_val (by omega), if_pos below]
    have digit : 48 ≤ (digitChar d).val ∧ (digitChar d).val ≤ 57 := by omega
    have same : 48 + d - 48 = d := by omega
    rw [List.map_cons, scanDigits, if_pos digit, ih true (fun e member => small e (by simp [member])) (.inl rfl)]
    simp [value, same]

/-- A decimal numeral is left alone by the rewriting, by the stripping of
    whitespace and by the search for a sign. -/
private theorem prepared_numeral (n : Nat) :
    (numeral 10 n).map toAscii = numeral 10 n ∧
      (numeral 10 n).dropWhile isAsciiSpace = numeral 10 n ∧ splitSign (numeral 10 n) = (false, numeral 10 n) := by
  have range : ∀ c ∈ numeral 10 n, 48 ≤ c.val ∧ c.val ≤ 57 := by
    intro c member
    obtain ⟨d, small, rfl⟩ := mem_numeral (by omega) member
    rw [digitChar_val (by omega), if_pos small]
    omega
  obtain ⟨c, rest, text⟩ := List.exists_cons_of_ne_nil (numeral_ne_nil 10 n)
  have first := range c (by simp [text])
  refine ⟨?_, ?_, ?_⟩
  · conv_rhs => rw [← List.map_id (numeral 10 n)]
    apply List.map_congr_left
    intro c member
    have := range c member
    rw [toAscii, if_pos (by omega), id]
  · have solid : isAsciiSpace c = false := by simp [isAsciiSpace]; omega
    simp [text, solid]
  · have minus : c ≠ CodePoint.ofChar '-' := by rintro rfl; exact absurd first (by decide)
    have plus : c ≠ CodePoint.ofChar '+' := by rintro rfl; exact absurd first (by decide)
    simp [text, splitSign, minus, plus]

private theorem scanDigits_numeral (n : Nat) : scanDigits false (numeral 10 n) = some (decimals n, []) := by
  rw [numeral_decimals]
  refine scanDigits_digits false _ (fun d member => decimals_small member) (.inr ?_)
  intro none
  exact numeral_ne_nil 10 n (by rw [numeral_decimals, none]; rfl)

/-- `int(str(n))` is `n`. -/
theorem intOf_intText {n : Int} (fits : WithinLimit n) : intOf (intText n) = .ok n := by
  obtain ⟨ascii, unspaced, unsigned⟩ := prepared_numeral n.natAbs
  have short : ¬ maxStrDigits < (decimals n.natAbs).length := by
    have lengths := congrArg List.length (numeral_decimals n.natAbs)
    have limit : (numeral 10 n.natAbs).length ≤ maxStrDigits := fits
    simp only [List.length_map] at lengths
    omega
  by_cases negative : n < 0
  · have minus : toAscii (CodePoint.ofChar '-') = CodePoint.ofChar '-' := by decide
    have solid : isAsciiSpace (CodePoint.ofChar '-') = false := by decide
    have sign : splitSign (((intText n).map toAscii).dropWhile isAsciiSpace) = (true, numeral 10 n.natAbs) := by
      simp [intText, negative, minus, ascii, solid, splitSign]
    simp only [intOf, sign, scanDigits_numeral, if_neg short, decimals_value]
    simp only [List.dropWhile_nil, if_true, Except.ok.injEq]
    omega
  · have sign : splitSign (((intText n).map toAscii).dropWhile isAsciiSpace) = (false, numeral 10 n.natAbs) := by
      simp [intText, negative, ascii, unspaced, unsigned]
    simp only [intOf, sign, scanDigits_numeral, if_neg short, decimals_value]
    simp only [List.dropWhile_nil, if_true, Bool.false_eq_true, if_false, Except.ok.injEq]
    omega

theorem intText_injective : Function.Injective intText := by
  have numerals : ∀ {m n : Nat}, numeral 10 m = numeral 10 n → m = n := by
    intro m n same
    rw [← readNumeral_numeral (by omega : 1 < 10) (by omega) m, same, readNumeral_numeral (by omega) (by omega)]
  have unsigned : ∀ (n : Nat) (rest : Str), numeral 10 n ≠ CodePoint.ofChar '-' :: rest := by
    intro n rest same
    obtain ⟨d, small, minus⟩ := mem_numeral (by omega) (same ▸ List.mem_cons_self : CodePoint.ofChar '-' ∈ numeral 10 n)
    have code := congrArg CodePoint.val minus
    rw [digitChar_val (by omega), if_pos small] at code
    have value : (CodePoint.ofChar '-').val = 45 := by decide
    omega
  intro m n same
  unfold intText at same
  by_cases below : m < 0 <;> by_cases below' : n < 0 <;> simp only [below, below', if_true, if_false] at same
  · have := numerals (List.cons.inj same).2
    omega
  · exact absurd same.symm (unsigned _ _)
  · exact absurd same (unsigned _ _)
  · have := numerals same
    omega

/-! ### What `int` reads can be written -/

private theorem scanDigits_small {afterDigit : Bool} {s tail : Str} {digits : List Nat}
    (scanned : scanDigits afterDigit s = some (digits, tail)) : ∀ d ∈ digits, d < 10 := by
  induction s generalizing afterDigit digits with
  | nil =>
    cases afterDigit with
    | false => cases scanned
    | true =>
      cases scanned
      simp
  | cons c rest ih =>
    rw [scanDigits] at scanned
    split at scanned
    · next digit =>
      obtain ⟨⟨later, remains⟩, more, same⟩ := Option.map_eq_some_iff.mp scanned
      cases same
      intro d member
      rcases List.mem_cons.mp member with rfl | inside
      · omega
      · exact ih more d inside
    split at scanned
    · split at scanned
      · exact ih scanned
      · cases scanned
    split at scanned
    · cases scanned
      simp
    · cases scanned

private theorem foldl_lt {digits : List Nat} (small : ∀ d ∈ digits, d < 10) :
    digits.foldl (fun value d => 10 * value + d) 0 < 10 ^ digits.length := by
  induction digits using List.reverseRecOn with
  | nil => simp
  | append_singleton digits d ih =>
    have before := ih fun e member => small e (by simp [member])
    have last := small d (by simp)
    rw [List.foldl_append, List.foldl_cons, List.foldl_nil, List.length_append, List.length_singleton, pow_succ]
    omega

/-- An integer that `int` has read is one that `str` writes. -/
theorem withinLimit_of_intOf {s : Str} {n : Int} (read : intOf s = .ok n) : WithinLimit n := by
  unfold intOf at read
  generalize splitSign ((s.map toAscii).dropWhile isAsciiSpace) = signed at read
  obtain ⟨negative, unsigned⟩ := signed
  cases scanned : scanDigits false unsigned with
  | none => simp [scanned] at read
  | some parts =>
    obtain ⟨digits, tail⟩ := parts
    simp only [scanned] at read
    split at read
    · cases read
    · next short =>
      split at read
      · have size : n.natAbs = digits.foldl (fun value d => 10 * value + d) 0 := by
          cases read
          cases negative <;> simp
        have bound : n.natAbs < 10 ^ maxStrDigits := by
          rw [size]
          exact Nat.lt_of_lt_of_le (foldl_lt (scanDigits_small scanned)) (Nat.pow_le_pow_right (by omega) (by omega))
        unfold WithinLimit numeral
        split
        · simp [maxStrDigits]
        · rw [List.length_map, List.length_reverse]
          exact (Nat.digits_length_le_iff (by omega) _).mpr bound
      · cases read

theorem withinLimit_mono {m n : Int} (smaller : m.natAbs ≤ n.natAbs) (fits : WithinLimit n) : WithinLimit m := by
  have lengths : ∀ {k l : Nat}, k ≤ l → (numeral 10 k).length ≤ (numeral 10 l).length := by
    intro k l below
    by_cases zero : k = 0
    · rw [zero]
      exact List.length_pos_iff.mpr (numeral_ne_nil 10 l)
    · rw [numeral, numeral, if_neg zero, if_neg (by omega), List.length_map, List.length_map, List.length_reverse,
        List.length_reverse]
      exact Nat.le_length_digits_le 10 k l below
  exact Nat.le_trans (lengths smaller) fits

theorem mem_intText {n : Int} {c : CodePoint} (member : c ∈ intText n) :
    c = CodePoint.ofChar '-' ∨ (48 ≤ c.val ∧ c.val ≤ 57) := by
  have digit : c ∈ numeral 10 n.natAbs → 48 ≤ c.val ∧ c.val ≤ 57 := by
    intro inside
    obtain ⟨d, small, rfl⟩ := mem_numeral (by omega) inside
    rw [digitChar_val (by omega), if_pos small]
    omega
  unfold intText at member
  split at member
  · exact (List.mem_cons.mp member).imp_right digit
  · exact .inr (digit member)

theorem not_mem_intText {c : CodePoint} (minus : c ≠ CodePoint.ofChar '-') (digit : c.val < 48 ∨ 57 < c.val)
    (n : Int) : c ∉ intText n := by
  intro member
  rcases mem_intText member with same | ⟨low, high⟩
  · exact minus same
  · omega

end Hde.Numerals
