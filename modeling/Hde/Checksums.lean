import Mathlib.Data.Nat.Bitwise
import Mathlib.Data.Set.Function
import Mathlib.Logic.Function.Basic

/-!
Checksums that fold a step over a sequence. When the step loses no information
about the running value and none about the next element, replacing one element
always changes the result (`foldl_substitution`): the running values differ
right after the replaced element and no common suffix brings them together.
Exclusive or is such a step. A reflected cyclic redundancy check shifts its register
once for every bit; the register never outgrows the width of the polynomial
(`foldl_crcStep_lt`). A shift is linear in exclusive or, so that some bytes are taken
in by one exclusive or and then shifted through (`foldl_crcStep_word`). It is
injective too when the polynomial uses its whole width, and so a change inside a word
that fits into the register is never lost (`foldl_crcStep_burst`).
-/
namespace Hde.Checksums

section Folding
variable {σ α : Type*} {step : σ → α → σ}

theorem foldl_injective (keeps : ∀ a, Function.Injective fun value => step value a) (s : List α) :
    Function.Injective fun value => s.foldl step value := by
  induction s with
  | nil =>
    intro _ _ same
    exact same
  | cons a rest ih =>
    intro _ _ same
    exact keeps a (ih same)

/-- Replacing one element changes the result. -/
theorem foldl_substitution (keeps : ∀ a, Function.Injective fun value => step value a)
    (reads : ∀ value, Function.Injective (step value)) (start : σ) (before after : List α) {a b : α}
    (different : a ≠ b) :
    (before ++ a :: after).foldl step start ≠ (before ++ b :: after).foldl step start := by
  intro same
  simp only [List.foldl_append, List.foldl_cons] at same
  exact different (reads _ (foldl_injective keeps after same))

end Folding

section Xor
variable {α : Type*} (code : α → Nat)

def xorStep (value : Nat) (a : α) : Nat := value ^^^ code a

theorem xorStep_keeps (a : α) : Function.Injective fun value => xorStep code value a :=
  fun _ _ same => Nat.xor_left_injective same

theorem xorStep_reads (injective : Function.Injective code) (value : Nat) :
    Function.Injective (xorStep code value) :=
  fun _ _ same => injective (Nat.xor_right_injective same)

/-- Codes below `2 ^ k` leave the value above its low `k` bits alone. -/
theorem foldl_xor_high {k : Nat} {s : List α} (small : ∀ a ∈ s, code a < 2 ^ k) (start : Nat) :
    s.foldl (xorStep code) start / 2 ^ k = start / 2 ^ k := by
  induction s generalizing start with
  | nil => rfl
  | cons a rest ih =>
    rw [List.foldl_cons, ih (fun b member => small b (by simp [member])), xorStep, Nat.xor_div_two_pow,
      Nat.div_eq_of_lt (small a (by simp)), Nat.xor_zero]

end Xor

section Crc
variable {width poly : Nat}

/-- One shift of the register. -/
def crcShift (poly value : Nat) : Nat := if value &&& 1 ≠ 0 then (value >>> 1) ^^^ poly else value >>> 1

/-- The register after one more byte. -/
def crcStep (poly value : Nat) (byte : UInt8) : Nat := (crcShift poly)^[8] (value ^^^ byte.toNat)

theorem crcShift_lt (fits : poly < 2 ^ width) {value : Nat} (small : value < 2 ^ width) :
    crcShift poly value < 2 ^ width := by
  have shifted : value >>> 1 < 2 ^ width := Nat.lt_of_le_of_lt (Nat.shiftRight_le value 1) small
  unfold crcShift
  split
  · exact Nat.xor_lt_two_pow shifted fits
  · exact shifted

theorem crcStep_lt (fits : poly < 2 ^ width) (wide : 8 ≤ width) {value : Nat} (small : value < 2 ^ width) (byte : UInt8) :
    crcStep poly value byte < 2 ^ width := by
  have octet : byte.toNat < 2 ^ width := Nat.lt_of_lt_of_le byte.toNat_lt (Nat.pow_le_pow_right (by omega) wide)
  have shifts : ∀ n value, value < 2 ^ width → (crcShift poly)^[n] value < 2 ^ width := by
    intro n
    induction n with
    | zero =>
      intro _ small
      exact small
    | succ n ih =>
      intro value small
      exact ih _ (crcShift_lt fits small)
  exact shifts 8 _ (Nat.xor_lt_two_pow small octet)

theorem foldl_crcStep_lt (fits : poly < 2 ^ width) (wide : 8 ≤ width) {value : Nat} (small : value < 2 ^ width)
    (bytes : List UInt8) : bytes.foldl (crcStep poly) value < 2 ^ width := by
  induction bytes generalizing value with
  | nil => exact small
  | cons byte rest ih => exact ih (crcStep_lt fits wide small byte)

/-! ### Linearity -/

theorem crcShift_eq (poly value : Nat) :
    crcShift poly value = (value >>> 1) ^^^ (if value.testBit 0 then poly else 0) := by
  rw [crcShift, Nat.testBit_zero, Nat.and_one_is_mod]
  rcases Nat.mod_two_eq_zero_or_one value with even | odd
  · simp [even]
  · simp [odd]

theorem crcShift_xor (poly a b : Nat) : crcShift poly (a ^^^ b) = crcShift poly a ^^^ crcShift poly b := by
  rw [crcShift_eq, crcShift_eq, crcShift_eq, Nat.shiftRight_xor_distrib, Nat.testBit_xor]
  cases a.testBit 0 <;> cases b.testBit 0
  · simp
  · simp [Nat.xor_assoc]
  · simp [Nat.xor_right_comm, Nat.xor_assoc, Nat.xor_comm poly]
  · have cancel : (a >>> 1) ^^^ poly ^^^ ((b >>> 1) ^^^ poly) = (a >>> 1) ^^^ (b >>> 1) := by
      rw [Nat.xor_assoc, Nat.xor_comm (b >>> 1), ← Nat.xor_assoc poly, Nat.xor_self, Nat.zero_xor]
    simp [cancel]

theorem iterate_crcShift_xor (poly n a b : Nat) :
    (crcShift poly)^[n] (a ^^^ b) = (crcShift poly)^[n] a ^^^ (crcShift poly)^[n] b := by
  induction n generalizing a b with
  | zero => rfl
  | succ n ih => rw [Function.iterate_succ_apply, crcShift_xor, ih, Function.iterate_succ_apply, Function.iterate_succ_apply]

/-- A value whose low bits are clear only moves down. -/
theorem iterate_crcShift_high (poly n value : Nat) : (crcShift poly)^[n] (value <<< n) = value := by
  induction n generalizing value with
  | zero => rfl
  | succ n ih =>
    have even : (value <<< (n + 1)).testBit 0 = false := by simp
    have moved : value <<< (n + 1) >>> 1 = value <<< n := by
      rw [Nat.shiftLeft_succ, Nat.shiftRight_one, Nat.mul_div_cancel_left _ (by omega)]
    rw [Function.iterate_succ_apply, crcShift_eq, even, moved]
    simpa using ih value

/-- Bytes as one number, the first of them lowest. -/
def word : List UInt8 → Nat
  | [] => 0
  | byte :: rest => byte.toNat ^^^ (word rest <<< 8)

theorem word_lt (bytes : List UInt8) : word bytes < 2 ^ (8 * bytes.length) := by
  induction bytes with
  | nil => exact Nat.one_pos
  | cons byte rest ih =>
    have width : 8 * (rest.length + 1) = 8 * rest.length + 8 := by omega
    rw [word, List.length_cons, width]
    apply Nat.xor_lt_two_pow
    · exact Nat.lt_of_lt_of_le byte.toNat_lt (Nat.pow_le_pow_right (by omega) (by omega))
    · rw [Nat.shiftLeft_eq, Nat.pow_add]
      exact Nat.mul_lt_mul_of_pos_right ih (by omega)

theorem word_injective {bytes others : List UInt8} (lengths : bytes.length = others.length)
    (same : word bytes = word others) : bytes = others := by
  induction bytes generalizing others with
  | nil => exact (List.length_eq_zero_iff.mp lengths.symm).symm
  | cons byte rest ih =>
    cases others with
    | nil => cases lengths
    | cons other more =>
      have low : ∀ (first : UInt8) (high : Nat), (first.toNat ^^^ (high <<< 8)) % 2 ^ 8 = first.toNat := by
        intro first high
        rw [Nat.xor_mod_two_pow, Nat.shiftLeft_eq, Nat.mul_mod_left, Nat.xor_zero]
        exact Nat.mod_eq_of_lt first.toNat_lt
      have high : ∀ (first : UInt8) (high : Nat), (first.toNat ^^^ (high <<< 8)) / 2 ^ 8 = high := by
        intro first high
        rw [Nat.xor_div_two_pow, Nat.shiftLeft_eq, Nat.mul_div_cancel _ (by omega), Nat.div_eq_of_lt first.toNat_lt,
          Nat.zero_xor]
      rw [word, word] at same
      have first : byte.toNat = other.toNat := by rw [← low byte (word rest), same, low]
      have later : word rest = word more := by rw [← high byte (word rest), same, high]
      rw [UInt8.toNat_inj.mp first, ih (by simpa using lengths) later]

/-- Some bytes are one exclusive or and eight shifts for each of them. -/
theorem foldl_crcStep_word (poly value : Nat) (bytes : List UInt8) :
    bytes.foldl (crcStep poly) value = (crcShift poly)^[8 * bytes.length] (value ^^^ word bytes) := by
  induction bytes generalizing value with
  | nil => simp [word]
  | cons byte rest ih =>
    have shifts : 8 * (rest.length + 1) = 8 * rest.length + 8 := by omega
    calc (byte :: rest).foldl (crcStep poly) value
        = (crcShift poly)^[8 * rest.length] ((crcShift poly)^[8] (value ^^^ byte.toNat) ^^^ word rest) := ih _
      _ = (crcShift poly)^[8 * rest.length] ((crcShift poly)^[8] (value ^^^ word (byte :: rest))) := by
          rw [word, ← Nat.xor_assoc, iterate_crcShift_xor poly 8 (value ^^^ byte.toNat), iterate_crcShift_high]
      _ = (crcShift poly)^[8 * (byte :: rest).length] (value ^^^ word (byte :: rest)) := by
          rw [List.length_cons, shifts, Function.iterate_add_apply]

/-! ### Bursts -/

theorem crcShift_injOn (top : poly.testBit (width - 1) = true) : Set.InjOn (crcShift poly) {value | value < 2 ^ width} := by
  intro a small b small' same
  rw [crcShift_eq, crcShift_eq] at same
  have halves : ∀ {value : Nat}, value < 2 ^ width → (value >>> 1).testBit (width - 1) = false := by
    intro value small
    rw [Nat.testBit_shiftRight]
    apply Nat.testBit_lt_two_pow
    exact Nat.lt_of_lt_of_le small (Nat.pow_le_pow_right (by omega) (by omega))
  -- the highest bit tells whether the polynomial was taken in
  have lowest : a.testBit 0 = b.testBit 0 := by
    have highest := congrArg (fun value => value.testBit (width - 1)) same
    simp only [Nat.testBit_xor, halves small, halves small'] at highest
    cases first : a.testBit 0 <;> cases second : b.testBit 0 <;> simp_all
  rw [lowest] at same
  have rest : a / 2 = b / 2 := by simpa [Nat.shiftRight_one] using Nat.xor_left_injective same
  have parity : a % 2 = b % 2 := by
    rw [Nat.testBit_zero, Nat.testBit_zero] at lowest
    have := decide_eq_decide.mp lowest
    omega
  omega

section Whole
variable (fits : poly < 2 ^ width) (top : poly.testBit (width - 1) = true) (wide : 8 ≤ width)
include fits top

theorem iterate_crcShift_injOn (n : Nat) : Set.InjOn (crcShift poly)^[n] {value | value < 2 ^ width} :=
  (crcShift_injOn top).iterate (fun _ small => crcShift_lt fits small) n

include wide

theorem foldl_crcStep_injOn (bytes : List UInt8) :
    Set.InjOn (fun value => bytes.foldl (crcStep poly) value) {value | value < 2 ^ width} := by
  induction bytes with
  | nil =>
    intro _ _ _ _ same
    exact same
  | cons byte rest ih =>
    have octet : byte.toNat < 2 ^ width := Nat.lt_of_lt_of_le byte.toNat_lt (Nat.pow_le_pow_right (by omega) wide)
    intro a small b small' same
    have stepped : crcStep poly a byte = crcStep poly b byte :=
      ih (crcStep_lt fits wide small byte) (crcStep_lt fits wide small' byte) same
    exact Nat.xor_left_injective (iterate_crcShift_injOn fits top 8 (Nat.xor_lt_two_pow small octet)
      (Nat.xor_lt_two_pow small' octet) stepped)

/-- A change inside some consecutive bytes that fit into the register changes it, and
    nothing that comes after them undoes the change. -/
theorem foldl_crcStep_burst {value : Nat} (small : value < 2 ^ width) (before after : List UInt8)
    {burst other : List UInt8} (lengths : burst.length = other.length) (short : 8 * burst.length ≤ width)
    (different : burst ≠ other) :
    (before ++ burst ++ after).foldl (crcStep poly) value ≠ (before ++ other ++ after).foldl (crcStep poly) value := by
  intro same
  simp only [List.foldl_append] at same
  have start : before.foldl (crcStep poly) value < 2 ^ width := foldl_crcStep_lt fits wide small before
  have changed : burst.foldl (crcStep poly) (before.foldl (crcStep poly) value) =
      other.foldl (crcStep poly) (before.foldl (crcStep poly) value) :=
    foldl_crcStep_injOn fits top wide after (foldl_crcStep_lt fits wide start burst)
      (foldl_crcStep_lt fits wide start other) same
  have narrow : ∀ {bytes : List UInt8}, 8 * bytes.length ≤ width →
      before.foldl (crcStep poly) value ^^^ word bytes < 2 ^ width := by
    intro bytes short
    exact Nat.xor_lt_two_pow start (Nat.lt_of_lt_of_le (word_lt bytes) (Nat.pow_le_pow_right (by omega) short))
  rw [foldl_crcStep_word _ _ burst, foldl_crcStep_word _ _ other, lengths] at changed
  have words := Nat.xor_right_injective
    (iterate_crcShift_injOn fits top _ (narrow short) (narrow (lengths ▸ short)) changed)
  exact different (word_injective lengths words)

end Whole
end Crc
end Hde.Checksums
