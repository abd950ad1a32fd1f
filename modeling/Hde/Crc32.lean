import Hde.Published
import Hde.Remainders
import Mathlib.Tactic.NormNum.Prime

/-!
What `Parser.file_crc32` computes. Its register is the remainder of the file modulo
the polynomial of CRC-32, however the file is read (`fileCrc32_remainder`). The CRC-32
of other programs begins with a register of ones and inverts it at the end; the two
agree on a file exactly when as many shifts as it has bits take the register of ones
back to itself, and since `X` has the order `2 ^ 32 - 1` modulo the polynomial, that is
when the length of the file is a multiple of it (`standard_exactly`).
-/
namespace Hde.Crc32
open Hde.Text Hde.Unicode Hde.Numerals Hde.Checksums Hde.Remainders Hde.Files Hde.Published Polynomial

/-- The loop of `file_crc32` over the blocks that its reads return. -/
def crcReads (crc : Nat) : List (List UInt8) → Nat
  | [] => crc
  | chunk :: reads => if chunk = [] then crc else crcReads (chunk.foldl (crcStep polynomial) crc) reads

/-- The values of `crc` while a byte is taken in. -/
def byteTrace (crc : Nat) (byte : UInt8) : List Nat :=
  (List.range 9).map fun shifts => (crcShift polynomial)^[shifts] (crc ^^^ byte.toNat)

/-- Every value that `crc` takes while bytes are taken in. -/
def crcTrace (crc : Nat) : List UInt8 → List Nat
  | [] => [crc]
  | byte :: rest => crc :: byteTrace crc byte ++ crcTrace (crcStep polynomial crc byte) rest

/-- The polynomial of CRC-32. -/
noncomputable def generator : (ZMod 2)[X] :=
  X ^ 32 + X ^ 26 + X ^ 23 + X ^ 22 + X ^ 16 + X ^ 12 + X ^ 11 + X ^ 10 + X ^ 8 + X ^ 7 + X ^ 5 + X ^ 4 + X ^ 2 + X + 1

/-! ### The remainder -/

theorem crcReads_eq {reads : List (List UInt8)} (some_bytes : ∀ chunk ∈ reads, chunk ≠ []) (crc : Nat) :
    crcReads crc reads = reads.flatten.foldl (crcStep polynomial) crc := by
  induction reads generalizing crc with
  | nil => rfl
  | cons chunk reads ih =>
    rw [crcReads, if_neg (some_bytes chunk (by simp)), ih (fun other member => some_bytes other (by simp [member])),
      List.flatten_cons, List.foldl_append]

theorem iterate_crcShift_lt (shifts : Nat) {crc : Nat} (small : crc < 2 ^ 32) :
    (crcShift polynomial)^[shifts] crc < 2 ^ 32 := by
  induction shifts generalizing crc with
  | zero => exact small
  | succ shifts ih => exact ih (crcShift_lt (by decide) small)

theorem crcTrace_lt (content : List UInt8) {crc : Nat} (small : crc < 2 ^ 32) :
    ∀ value ∈ crcTrace crc content, value < 2 ^ 32 := by
  induction content generalizing crc with
  | nil => simpa [crcTrace] using small
  | cons byte rest ih =>
    have octet : byte.toNat < 2 ^ 32 := Nat.lt_of_lt_of_le byte.toNat_lt (by decide)
    intro value member
    rw [crcTrace, List.cons_append] at member
    rcases List.mem_cons.mp member with rfl | later
    · exact small
    rcases List.mem_append.mp later with inside | after
    · obtain ⟨shifts, -, rfl⟩ := List.mem_map.mp inside
      exact iterate_crcShift_lt shifts (Nat.xor_lt_two_pow small octet)
    · exact ih (crcStep_lt (by decide) (by decide) small byte) value after

theorem modulus_polynomial : modulus 32 polynomial = generator := by
  have bits : lowBits 32 polynomial =
      [false, false, false, false, false, true, false, false, true, true, false, false, false, false, false, true,
       false, false, false, true, true, true, false, true, true, false, true, true, false, true, true, true] := by
    decide
  rw [modulus, reflected, bits, generator]
  simp [fromHighest]
  ring

/-- Eight hexadecimal digits. -/
theorem formatX_eight {value : Nat} (small : value < 2 ^ 32) : (formatX 8 value).length = 8 := by
  have short : (numeral 16 value).length ≤ 8 := by
    unfold numeral
    split
    · simp
    · next positive =>
      rw [List.length_map, List.length_reverse]
      exact (Nat.digits_length_le_iff (by omega) value).mpr (by simpa using small)
  rw [formatX, List.length_leftpad]
  omega

/-- `file_crc32` writes the remainder of the file with eight digits; no way of reading
    the file in blocks changes it, and no value on the way needs more than 32 bits. -/
theorem fileCrc32_remainder {disk : Disk} {path : Str} {content : List UInt8}
    (found : disk path = some (.file content)) :
    ∃ value : Nat, fileCrc32 disk path = .ok (formatX 8 value) ∧ (formatX 8 value).length = 8 ∧ value < 2 ^ 32 ∧
      (∀ i < 32, value.testBit i = true ↔ ((message content * X ^ 32) %ₘ generator).coeff (31 - i) = 1) ∧
      (∀ reads : List (List UInt8), reads.flatten = content → (∀ chunk ∈ reads, chunk ≠ []) →
        crcReads 0 reads &&& 0xFFFFFFFF = value) ∧
      ∀ crc ∈ crcTrace 0 content, crc < 2 ^ 32 := by
  have small := register_lt content
  refine ⟨register content, fileCrc32_register found, formatX_eight small, small, ?_, ?_, crcTrace_lt content (by decide)⟩
  · intro i inside
    rw [← modulus_polynomial, ← foldl_crcStep_remainder (by decide) (by decide), ← register, coeff_reflected]
    have index : 32 - 1 - (31 - i) = i := by omega
    rw [index]
    simp [(by omega : 31 - i < 32)]
  · rintro reads rfl some_bytes
    have mask : (0xFFFFFFFF : Nat) = 2 ^ 32 - 1 := by decide
    rw [crcReads_eq some_bytes, ← register, mask, Nat.and_two_pow_sub_one_eq_mod]
    exact Nat.mod_eq_of_lt small

/-- A disk with one content at every path. -/
private def holding (content : List UInt8) : Disk := fun _ => some (.file content)

/-- A file of one byte. -/
theorem fileCrc32_remainder_byte :
    ∃ value : Nat, fileCrc32 (holding [0x80]) (lit "a") = .ok (formatX 8 value) ∧
      ∀ i < 32, value.testBit i = true ↔ ((message [0x80] * X ^ 32) %ₘ generator).coeff (31 - i) = 1 := by
  have found : holding [0x80] (lit "a") = some (.file [0x80]) := rfl
  obtain ⟨value, written, -, -, bits, -⟩ := fileCrc32_remainder found
  exact ⟨value, written, bits⟩

/-! ### The standard checksum -/

def ones : Nat := 0xFFFFFFFF

/-- CRC-32 as libraries compute it. -/
def standardCrc32 (content : List UInt8) : Nat := content.foldl (crcStep polynomial) ones ^^^ ones

example : standardCrc32 (([0x31, 0x32, 0x33, 0x34, 0x35, 0x36, 0x37, 0x38, 0x39] : List UInt8)) = 0xCBF43926 := by
  decide +kernel

/-- The digits of `(2 ^ 32 - 1) / (2 ^ k + 1)` for `k` a power of two below 32. -/
private def stripes (k : Nat) : List Bool :=
  (List.replicate (16 / k) (List.replicate k false ++ List.replicate k true)).flatten

/-- `X` has the greatest order there can be. -/
theorem orderOf_root : orderOf (AdjoinRoot.root (modulus 32 polynomial)) = 2 ^ 32 - 1 := by
  have fits : polynomial < 2 ^ 32 := by decide
  apply orderOf_eq_of_pow_and_pow_div_prime (by decide)
  · have digits : 2 ^ 32 - 1 = exponent (List.replicate 32 true) := by decide
    rw [digits, root_pow_eq_one_iff fits (by decide)]
    decide +kernel
  · intro p prime divides
    have factors : 2 ^ 32 - 1 = 3 * 5 * 17 * 257 * 65537 := by decide
    have cases_on : p = 3 ∨ p = 5 ∨ p = 17 ∨ p = 257 ∨ p = 65537 := by
      rw [factors] at divides
      simp only [prime.dvd_mul, Nat.prime_dvd_prime_iff_eq prime (by norm_num : Nat.Prime 3),
        Nat.prime_dvd_prime_iff_eq prime (by norm_num : Nat.Prime 5),
        Nat.prime_dvd_prime_iff_eq prime (by norm_num : Nat.Prime 17),
        Nat.prime_dvd_prime_iff_eq prime (by norm_num : Nat.Prime 257),
        Nat.prime_dvd_prime_iff_eq prime (by norm_num : Nat.Prime 65537)] at divides
      simpa only [or_assoc] using divides
    have not_one : ∀ k ∈ [1, 2, 4, 8, 16],
        AdjoinRoot.root (modulus 32 polynomial) ^ ((2 ^ 32 - 1) / (2 ^ k + 1)) ≠ 1 := by
      intro k member
      have digits : (2 ^ 32 - 1) / (2 ^ k + 1) = exponent (stripes k) :=
        (by decide : ∀ k ∈ [1, 2, 4, 8, 16], (2 ^ 32 - 1) / (2 ^ k + 1) = exponent (stripes k)) k member
      rw [digits, ne_eq, root_pow_eq_one_iff fits (by decide)]
      exact (by decide +kernel : ∀ k ∈ [1, 2, 4, 8, 16], power 32 polynomial (stripes k) ≠ 2 ^ 31) k member
    rcases cases_on with rfl | rfl | rfl | rfl | rfl
    · exact not_one 1 (by decide)
    · exact not_one 2 (by decide)
    · exact not_one 4 (by decide)
    · exact not_one 8 (by decide)
    · exact not_one 16 (by decide)

/-- As many shifts as some bytes have bits take the register of ones back to itself. -/
theorem iterate_ones_iff (length : Nat) :
    (crcShift polynomial)^[8 * length] ones = ones ↔ 2 ^ 32 - 1 ∣ length := by
  have fits : polynomial < 2 ^ 32 := by decide
  have small : ones < 2 ^ 32 := by decide
  -- the register of ones is invertible modulo the polynomial
  have invertible : residue 32 polynomial ones * residue 32 polynomial 0xE57248CE = 1 := by
    have product : times polynomial 0xE57248CE (lowBits 32 ones) = 2 ^ (32 - 1) := by decide +kernel
    have whole := residue_times fits (by decide : 0xE57248CE < 2 ^ 32) (lowBits 32 ones)
    rw [product, residue_one (by decide)] at whole
    exact whole.symm
  have bytes : 2 ^ 32 - 1 ∣ 8 * length ↔ 2 ^ 32 - 1 ∣ length :=
    Nat.Coprime.dvd_mul_left (by decide)
  rw [← bytes, ← orderOf_root, orderOf_dvd_iff_pow_eq_one]
  constructor
  · intro same
    have held := residue_iterate fits (8 * length) small
    rw [same] at held
    calc AdjoinRoot.root (modulus 32 polynomial) ^ (8 * length)
        = AdjoinRoot.root _ ^ (8 * length) * residue 32 polynomial ones * residue 32 polynomial 0xE57248CE := by
          rw [mul_assoc, invertible, mul_one]
      _ = 1 := by rw [← held, invertible]
  · intro one
    apply residue_injOn (iterate_crcShift_lt _ small) small
    rw [residue_iterate fits _ small, one, one_mul]

theorem register_eq_standard_iff (content : List UInt8) :
    register content = standardCrc32 content ↔ 2 ^ 32 - 1 ∣ content.length := by
  rw [← iterate_ones_iff, register, standardCrc32, foldl_crcStep_word, foldl_crcStep_word, Nat.zero_xor,
    iterate_crcShift_xor]
  generalize (crcShift polynomial)^[8 * content.length] ones = moved
  generalize (crcShift polynomial)^[8 * content.length] (word content) = held
  constructor
  · intro same
    have cleared := congrArg (held ^^^ ·) same
    simp only [Nat.xor_self] at cleared
    rw [Nat.xor_assoc, Nat.xor_left_comm, ← Nat.xor_assoc held held, Nat.xor_self, Nat.zero_xor] at cleared
    exact Nat.xor_eq_zero_iff.mp cleared.symm
  · rintro rfl
    rw [Nat.xor_right_comm, Nat.xor_self, Nat.zero_xor]

/-- Zeros before the other bytes leave the register clear. -/
theorem register_zeros (zeros : Nat) (content : List UInt8) :
    register (List.replicate zeros 0 ++ content) = register content := by
  have clear : (List.replicate zeros (0 : UInt8)).foldl (crcStep polynomial) 0 = 0 := by
    induction zeros with
    | zero => rfl
    | succ zeros ih => exact ih
  rw [register, List.foldl_append, clear, register]

/-- `file_crc32` is the standard checksum of the content. -/
def Standard (content : List UInt8) : Prop :=
  ∀ (disk : Disk) (path : Str), disk path = some (.file content) →
    fileCrc32 disk path = .ok (formatX 8 (standardCrc32 content))

/-- A file of one zero byte. -/
theorem not_standard : ¬ ∀ content, Standard content := by
  intro claim
  have found : holding [0] (lit "a") = some (.file [0]) := rfl
  have same := claim [0] _ _ found
  rw [fileCrc32_register found] at same
  have registers : register [0] = standardCrc32 [0] := formatX_injective 8 (Except.ok.inj same)
  exact absurd registers (by decide)

/-- `file_crc32` is the standard checksum of exactly the files whose length is a
    multiple of `2 ^ 32 - 1`, and zeros before the content never change it. -/
theorem standard_exactly (content : List UInt8) :
    (Standard content ↔ 2 ^ 32 - 1 ∣ content.length) ∧
      ∀ (zeros : Nat) (disk other : Disk) (path : Str), disk path = some (.file content) →
        other path = some (.file (List.replicate zeros 0 ++ content)) → fileCrc32 other path = fileCrc32 disk path := by
  constructor
  · rw [← register_eq_standard_iff]
    constructor
    · intro standard
      have found : holding content (lit "a") = some (.file content) := rfl
      have same := standard _ _ found
      rw [fileCrc32_register found] at same
      exact formatX_injective 8 (Except.ok.inj same)
    · intro same disk path found
      rw [fileCrc32_register found, same]
  · intro zeros disk other path found padded
    rw [fileCrc32_register found, fileCrc32_register padded, register_zeros]

theorem standard_exactly_empty : Standard [] ∧ ¬ Standard [0] := by
  constructor
  · exact (standard_exactly []).1.mpr (dvd_zero _)
  · intro standard
    exact absurd ((standard_exactly [0]).1.mp standard) (by decide)

end Hde.Crc32
