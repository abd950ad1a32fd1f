import Hde.Checksums
import Mathlib.Algebra.Field.ZMod
import Mathlib.RingTheory.AdjoinRoot
import Mathlib.GroupTheory.OrderOfElement
import Mathlib.Tactic.LinearCombination

/-!
The register of a reflected cyclic redundancy check as a polynomial over two
elements: its lowest bit is the coefficient of the highest degree. A shift multiplies
by `X` modulo the polynomial of the check (`residue_crcShift`), so the register holds
the remainder of the bytes (`foldl_crcStep_remainder`). Modulo that polynomial a
register is determined by its residue (`residue_injOn`), and powers of `X` can be
computed on registers (`residue_power`).
-/
namespace Hde.Remainders
open Hde.Checksums Polynomial

/-! ### Bits as polynomials -/

/-- The polynomial of some bits, the coefficient of the highest degree first. -/
noncomputable def fromHighest : List Bool → (ZMod 2)[X]
  | [] => 0
  | bit :: rest => (if bit then X ^ rest.length else 0) + fromHighest rest

theorem fromHighest_append (first second : List Bool) :
    fromHighest (first ++ second) = fromHighest first * X ^ second.length + fromHighest second := by
  induction first with
  | nil => simp [fromHighest]
  | cons bit rest ih =>
    rw [List.cons_append, fromHighest, fromHighest, ih, List.length_append, pow_add]
    cases bit <;> simp only [Bool.false_eq_true, if_false, if_true] <;> ring

theorem coeff_fromHighest (bits : List Bool) (k : Nat) :
    (fromHighest bits).coeff k = if bits.reverse[k]? = some true then 1 else 0 := by
  induction bits with
  | nil => simp [fromHighest]
  | cons bit rest ih =>
    rw [fromHighest, coeff_add, ih, List.reverse_cons]
    rcases Nat.lt_trichotomy k rest.length with below | rfl | above
    · rw [List.getElem?_append_left (by simpa using below)]
      cases bit <;> simp [coeff_X_pow, Nat.ne_of_lt below]
    · have last : (rest.reverse ++ [bit])[rest.length]? = some bit := by simp
      have none_left : rest.reverse[rest.length]? = none := by simp
      rw [last, none_left]
      cases bit <;> simp
    · have outside : (rest.reverse ++ [bit])[k]? = none := by simpa using above
      have none_left : rest.reverse[k]? = none := by simpa using Nat.le_of_lt above
      rw [outside, none_left]
      cases bit <;> simp [coeff_X_pow, Nat.ne_of_gt above]

theorem degree_fromHighest_lt (bits : List Bool) : (fromHighest bits).degree < bits.length := by
  rw [degree_lt_iff_coeff_zero]
  intro k outside
  have none_left : bits.reverse[k]? = none := by simpa using outside
  simp [coeff_fromHighest, none_left]

/-- The bits of a register, the lowest first. -/
def lowBits (width value : Nat) : List Bool := (List.range width).map value.testBit

@[simp] theorem length_lowBits (width value : Nat) : (lowBits width value).length = width := by
  simp [lowBits]

noncomputable def reflected (width value : Nat) : (ZMod 2)[X] := fromHighest (lowBits width value)

variable {width poly : Nat}

theorem coeff_reflected (value k : Nat) :
    (reflected width value).coeff k = if k < width ∧ value.testBit (width - 1 - k) = true then 1 else 0 := by
  rw [reflected, coeff_fromHighest]
  by_cases inside : k < width
  · have bit : (lowBits width value).reverse[k]? = some (value.testBit (width - 1 - k)) := by
      rw [List.getElem?_reverse (by simpa using inside)]
      simp [lowBits, List.getElem?_range (by omega : width - 1 - k < width)]
    rw [bit]
    simp [inside]
  · have outside : (lowBits width value).reverse[k]? = none := by simpa using inside
    rw [outside]
    simp [inside]

theorem degree_reflected_lt (value : Nat) : (reflected width value).degree < width := by
  simpa [reflected] using degree_fromHighest_lt (lowBits width value)

theorem reflected_xor (a b : Nat) : reflected width (a ^^^ b) = reflected width a + reflected width b := by
  have two : (1 : ZMod 2) + 1 = 0 := by decide
  ext k
  rw [coeff_add, coeff_reflected, coeff_reflected, coeff_reflected, Nat.testBit_xor]
  by_cases inside : k < width
  · cases a.testBit (width - 1 - k) <;> cases b.testBit (width - 1 - k) <;> simp [inside, two]
  · simp [inside]

theorem reflected_zero : reflected width 0 = 0 := by
  ext k
  simp [coeff_reflected]

theorem reflected_injOn : Set.InjOn (reflected width) {value | value < 2 ^ width} := by
  intro a small b small' same
  apply Nat.eq_of_testBit_eq
  intro i
  by_cases inside : i < width
  · have coefficients := congrArg (fun p => p.coeff (width - 1 - i)) same
    have index : width - 1 - (width - 1 - i) = i := by omega
    simp only [coeff_reflected, index, (by omega : width - 1 - i < width), true_and] at coefficients
    have apart : (1 : ZMod 2) ≠ 0 := by decide
    cases first : a.testBit i <;> cases second : b.testBit i <;> simp_all
  · have high : ∀ {value : Nat}, value < 2 ^ width → value.testBit i = false := by
      intro value small
      exact Nat.testBit_lt_two_pow (Nat.lt_of_lt_of_le small (Nat.pow_le_pow_right (by omega) (by omega)))
    rw [high small, high small']

theorem lowBits_succ (width value : Nat) :
    lowBits (width + 1) value = value.testBit 0 :: lowBits width (value >>> 1) := by
  simp [lowBits, List.range_succ_eq_map, Nat.testBit_shiftRight, Function.comp_def, Nat.add_comm 1]

theorem lowBits_append (width value : Nat) : lowBits (width + 1) value = lowBits width value ++ [value.testBit width] := by
  simp [lowBits, List.range_succ]

/-- Moving a register down by one bit. -/
theorem X_mul_reflected {value : Nat} (small : value < 2 ^ width) :
    X * reflected width value = reflected width (value >>> 1) + if value.testBit 0 then X ^ width else 0 := by
  cases width with
  | zero =>
    obtain rfl : value = 0 := by simpa using small
    simp [reflected_zero]
  | succ width =>
    have top : (value >>> 1).testBit width = false := by
      rw [Nat.testBit_shiftRight, Nat.add_comm]
      exact Nat.testBit_lt_two_pow small
    rw [reflected, lowBits_succ, reflected, lowBits_append, fromHighest_append, fromHighest, top, length_lowBits]
    cases value.testBit 0 <;> simp [fromHighest] <;> ring

/-! ### Registers modulo the polynomial of the check -/

/-- The polynomial of a check, whose highest coefficient the register leaves out. -/
noncomputable def modulus (width poly : Nat) : (ZMod 2)[X] := X ^ width + reflected width poly

theorem modulus_monic : (modulus width poly).Monic := monic_X_pow_add (degree_reflected_lt poly)

theorem degree_modulus : (modulus width poly).degree = width :=
  (degree_add_eq_left_of_degree_lt (by rw [degree_X_pow]; exact degree_reflected_lt poly)).trans (degree_X_pow width)

/-- What a register stands for. -/
noncomputable def residue (width poly value : Nat) : AdjoinRoot (modulus width poly) :=
  AdjoinRoot.mk _ (reflected width value)

theorem residue_xor (a b : Nat) : residue width poly (a ^^^ b) = residue width poly a + residue width poly b := by
  simp [residue, reflected_xor]

/-- A shift multiplies by `X`. -/
theorem residue_crcShift {value : Nat} (small : value < 2 ^ width) :
    residue width poly (crcShift poly value) = AdjoinRoot.root _ * residue width poly value := by
  have two : (2 : AdjoinRoot (modulus width poly)) = 0 := by
    have cleared := congrArg (AdjoinRoot.of (modulus width poly)) (by decide : (2 : ZMod 2) = 0)
    rwa [map_ofNat, map_zero] at cleared
  have moved := congrArg (AdjoinRoot.mk (modulus width poly)) (X_mul_reflected small)
  have vanishes : AdjoinRoot.mk (modulus width poly) (X ^ width) + residue width poly poly = 0 := by
    rw [residue, ← map_add]
    exact AdjoinRoot.mk_self
  rw [map_mul, AdjoinRoot.mk_X, map_add] at moved
  rw [crcShift_eq, residue_xor]
  simp only [residue] at vanishes ⊢
  rw [moved]
  cases value.testBit 0 with
  | false => simp [reflected_zero]
  | true =>
    simp only [if_true]
    linear_combination vanishes - two * AdjoinRoot.mk (modulus width poly) (X ^ width)

theorem residue_iterate (fits : poly < 2 ^ width) (n : Nat) {value : Nat} (small : value < 2 ^ width) :
    residue width poly ((crcShift poly)^[n] value) = AdjoinRoot.root _ ^ n * residue width poly value := by
  induction n generalizing value with
  | zero => simp
  | succ n ih =>
    rw [Function.iterate_succ_apply, ih (crcShift_lt fits small), residue_crcShift small]
    ring

theorem residue_injOn : Set.InjOn (residue width poly) {value | value < 2 ^ width} := by
  intro a small b small' same
  apply reflected_injOn small small'
  have divides : modulus width poly ∣ reflected width a - reflected width b := AdjoinRoot.mk_eq_mk.mp same
  have below : (reflected width a - reflected width b).degree < (modulus width poly).degree := by
    rw [degree_modulus]
    exact lt_of_le_of_lt (degree_sub_le _ _) (max_lt (degree_reflected_lt a) (degree_reflected_lt b))
  exact sub_eq_zero.mp (eq_zero_of_dvd_of_degree_lt divides below)

/-! ### The register after some bytes -/

/-- A value of few bits stands high up in the polynomial of a wide register. -/
theorem reflected_narrow {value : Nat} (small : value < 2 ^ width) (more : Nat) :
    reflected (width + more) value = reflected width value * X ^ more := by
  induction more with
  | zero => simp
  | succ more ih =>
    have clear : value.testBit (width + more) = false :=
      Nat.testBit_lt_two_pow (Nat.lt_of_lt_of_le small (Nat.pow_le_pow_right (by omega) (by omega)))
    have longer : width + (more + 1) = width + more + 1 := by omega
    rw [longer, reflected, lowBits_append, fromHighest_append, clear]
    rw [reflected] at ih
    simp only [ih, fromHighest, List.length_singleton, Bool.false_eq_true, if_false, add_zero]
    ring

/-- The bits of some bytes, the lowest of each byte first. -/
def messageBits (content : List UInt8) : List Bool := content.flatMap fun byte => lowBits 8 byte.toNat

noncomputable def message (content : List UInt8) : (ZMod 2)[X] := fromHighest (messageBits content)

theorem length_messageBits (content : List UInt8) : (messageBits content).length = 8 * content.length := by
  simp [messageBits, List.length_flatMap, Nat.mul_comm]

theorem message_cons (byte : UInt8) (rest : List UInt8) :
    message (byte :: rest) = reflected 8 byte.toNat * X ^ (8 * rest.length) + message rest := by
  rw [message, messageBits, List.flatMap_cons, fromHighest_append, ← messageBits, length_messageBits]
  rfl

section Register
variable (fits : poly < 2 ^ width) (wide : 8 ≤ width)
include fits wide

/-- The register stands for what it held before, moved up by the bytes, and the bytes. -/
theorem residue_foldl (content : List UInt8) {value : Nat} (small : value < 2 ^ width) :
    residue width poly (content.foldl (crcStep poly) value) =
      AdjoinRoot.root _ ^ (8 * content.length) * residue width poly value +
        AdjoinRoot.root _ ^ width * AdjoinRoot.mk _ (message content) := by
  induction content generalizing value with
  | nil => simp [message, messageBits, fromHighest]
  | cons byte rest ih =>
    have octet : byte.toNat < 2 ^ width := Nat.lt_of_lt_of_le byte.toNat_lt (Nat.pow_le_pow_right (by omega) wide)
    have narrow : residue width poly byte.toNat =
        AdjoinRoot.mk _ (reflected 8 byte.toNat) * AdjoinRoot.root _ ^ (width - 8) := by
      have split : width = 8 + (width - 8) := by omega
      rw [residue, ← AdjoinRoot.mk_X, ← map_pow, ← map_mul, ← reflected_narrow byte.toNat_lt, ← split]
    have whole : AdjoinRoot.root (modulus width poly) ^ width = AdjoinRoot.root _ ^ 8 * AdjoinRoot.root _ ^ (width - 8) := by
      rw [← pow_add]
      congr 1
      omega
    have stepped : residue width poly (crcStep poly value byte) =
        AdjoinRoot.root _ ^ 8 * (residue width poly value + residue width poly byte.toNat) := by
      rw [crcStep, residue_iterate fits 8 (Nat.xor_lt_two_pow small octet), residue_xor]
    rw [List.foldl_cons, ih (crcStep_lt fits wide small byte), stepped, narrow, message_cons, map_add, map_mul, map_pow,
      AdjoinRoot.mk_X, List.length_cons, whole]
    ring

/-- The register that was clear before the bytes holds their remainder. -/
theorem foldl_crcStep_remainder (content : List UInt8) :
    reflected width (content.foldl (crcStep poly) 0) = (message content * X ^ width) %ₘ modulus width poly := by
  have held := residue_foldl fits wide content (Nat.two_pow_pos width)
  have same : AdjoinRoot.mk (modulus width poly) (reflected width (content.foldl (crcStep poly) 0)) =
      AdjoinRoot.mk _ (message content * X ^ width) := by
    rw [residue, residue, reflected_zero, map_zero, mul_zero, zero_add] at held
    rw [held, map_mul, map_pow, AdjoinRoot.mk_X, mul_comm]
  have remainder := modByMonic_eq_of_dvd_sub modulus_monic (AdjoinRoot.mk_eq_mk.mp same)
  rw [← remainder]
  refine ((modByMonic_eq_self_iff modulus_monic).mpr ?_).symm
  rw [degree_modulus]
  exact degree_reflected_lt _

end Register

/-! ### Powers of `X` -/

/-- The product of a register and the polynomial of some bits. -/
def times (poly value : Nat) (bits : List Bool) : Nat :=
  bits.foldl (fun sum bit => crcShift poly sum ^^^ if bit then value else 0) 0

/-- `X` to the power whose binary digits are given, the highest first. -/
def power (width poly : Nat) (digits : List Bool) : Nat :=
  digits.foldl (fun held digit =>
    let squared := times poly held (lowBits width held)
    if digit then crcShift poly squared else squared) (2 ^ (width - 1))

def exponent (digits : List Bool) : Nat := digits.foldl (fun n digit => 2 * n + if digit then 1 else 0) 0

section Powers
variable (fits : poly < 2 ^ width)
include fits

theorem times_lt {value : Nat} (small : value < 2 ^ width) (bits : List Bool) : times poly value bits < 2 ^ width := by
  induction bits using List.reverseRecOn with
  | nil => exact Nat.two_pow_pos width
  | append_singleton bits bit ih =>
    rw [times, List.foldl_append]
    refine Nat.xor_lt_two_pow (crcShift_lt fits ih) ?_
    cases bit
    · exact Nat.two_pow_pos width
    · exact small

theorem residue_times {value : Nat} (small : value < 2 ^ width) (bits : List Bool) :
    residue width poly (times poly value bits) = AdjoinRoot.mk _ (fromHighest bits) * residue width poly value := by
  induction bits using List.reverseRecOn with
  | nil => simp [times, fromHighest, residue, reflected_zero]
  | append_singleton bits bit ih =>
    have added : times poly value (bits ++ [bit]) = crcShift poly (times poly value bits) ^^^ if bit then value else 0 := by
      simp [times]
    rw [added, residue_xor, residue_crcShift (times_lt fits small bits), ih, fromHighest_append, map_add, map_mul,
      map_pow, AdjoinRoot.mk_X]
    cases bit
    · simp [fromHighest, residue, reflected_zero]
      ring
    · simp [fromHighest]
      ring

omit fits in
theorem residue_one (some_bit : 0 < width) : residue width poly (2 ^ (width - 1)) = 1 := by
  have one : reflected width (2 ^ (width - 1)) = 1 := by
    ext k
    rw [coeff_reflected, coeff_one, Nat.testBit_two_pow]
    by_cases constant : k = 0
    · simp [constant, some_bit]
    · have other : ¬ (k < width ∧ decide (width - 1 = width - 1 - k) = true) := by
        simp only [decide_eq_true_eq]
        omega
      rw [if_neg other, if_neg constant]
  rw [residue, one, map_one]

theorem residue_power (some_bit : 0 < width) (digits : List Bool) :
    power width poly digits < 2 ^ width ∧
      residue width poly (power width poly digits) = AdjoinRoot.root _ ^ exponent digits := by
  induction digits using List.reverseRecOn with
  | nil =>
    refine ⟨Nat.pow_lt_pow_right (by omega) (by omega), ?_⟩
    rw [exponent, List.foldl_nil, pow_zero]
    exact residue_one some_bit
  | append_singleton digits digit ih =>
    obtain ⟨small, held⟩ := ih
    have squared : residue width poly (times poly (power width poly digits) (lowBits width (power width poly digits))) =
        AdjoinRoot.root _ ^ (2 * exponent digits) := by
      rw [residue_times fits small, ← reflected, ← residue, held]
      ring
    have bound := times_lt fits small (lowBits width (power width poly digits))
    have powers : power width poly (digits ++ [digit]) =
        if digit then crcShift poly (times poly (power width poly digits) (lowBits width (power width poly digits)))
        else times poly (power width poly digits) (lowBits width (power width poly digits)) := by
      simp [power]
    have exponents : exponent (digits ++ [digit]) = 2 * exponent digits + if digit then 1 else 0 := by simp [exponent]
    rw [powers, exponents]
    cases digit
    · exact ⟨bound, squared⟩
    · refine ⟨crcShift_lt fits bound, ?_⟩
      simp only [if_true]
      rw [residue_crcShift bound, squared]
      ring

/-- Whether a power of `X` is 1 can be computed. -/
theorem root_pow_eq_one_iff (some_bit : 0 < width) (digits : List Bool) :
    AdjoinRoot.root (modulus width poly) ^ exponent digits = 1 ↔ power width poly digits = 2 ^ (width - 1) := by
  obtain ⟨small, held⟩ := residue_power fits some_bit digits
  have one_small : 2 ^ (width - 1) < 2 ^ width := Nat.pow_lt_pow_right (by omega) (by omega)
  constructor
  · intro one
    apply residue_injOn small one_small
    rw [held, one, residue_one some_bit]
  · intro same
    rw [← held, same, residue_one some_bit]

end Powers
end Hde.Remainders
