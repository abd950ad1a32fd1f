import Hde.Text

/-!
UTF-8, as `str.encode` writes it and the strict decoder reads it. A code point
takes one to four bytes, a lone surrogate none: `encode` raises there. The
decoder takes a character off the front when the bytes there are its encoding,
so that what it accepts is what `encode` writes (`decode_eq_some_iff`), and a
text that ends between characters is read before whatever follows it
(`decode_append`).
-/
namespace Hde.Utf8
open Hde.Text

def Surrogate (c : CodePoint) : Prop := 0xD800 ≤ c.val ∧ c.val < 0xE000

instance : DecidablePred Surrogate := fun c => inferInstanceAs (Decidable (0xD800 ≤ c.val ∧ c.val < 0xE000))

/-- The bytes of a code point. -/
def encodeChar (c : CodePoint) : List UInt8 :=
  if c.val < 0x80 then [.ofNat c.val]
  else if c.val < 0x800 then [.ofNat (0xC0 + c.val / 64), .ofNat (0x80 + c.val % 64)]
  else if c.val < 0x10000 then
    [.ofNat (0xE0 + c.val / 4096), .ofNat (0x80 + c.val / 64 % 64), .ofNat (0x80 + c.val % 64)]
  else
    [.ofNat (0xF0 + c.val / 262144), .ofNat (0x80 + c.val / 4096 % 64), .ofNat (0x80 + c.val / 64 % 64),
     .ofNat (0x80 + c.val % 64)]

/-- `UnicodeEncodeError`, with the place of the first surrogate. -/
structure UnicodeEncodeError where
  position : Nat
deriving DecidableEq

/-- `s.encode('utf-8')`. -/
def encode (s : Str) : Except UnicodeEncodeError (List UInt8) :=
  match s.findIdx? (Surrogate ·) with
  | some position => .error ⟨position⟩
  | none => .ok (s.flatMap encodeChar)

/-- The number that the first bytes stand for, whether or not they are well formed. -/
def leading : List UInt8 → Nat
  | [] => 0
  | first :: rest =>
    let tail := fun i => (rest.getD i 0).toNat % 64
    if first.toNat < 0x80 then first.toNat
    else if first.toNat < 0xE0 then first.toNat % 32 * 64 + tail 0
    else if first.toNat < 0xF0 then first.toNat % 16 * 4096 + tail 0 * 64 + tail 1
    else first.toNat % 8 * 262144 + tail 0 * 4096 + tail 1 * 64 + tail 2

/-- The character whose encoding the bytes begin with. -/
def charAt (bytes : List UInt8) : Option CodePoint :=
  let c := CodePoint.ofNat (leading bytes)
  if ¬ Surrogate c ∧ encodeChar c <+: bytes then some c else none

/-- Decoding, with `skip` bytes of the last character still to pass over. -/
def decodeFrom : Nat → List UInt8 → Option Str
  | _, [] => some []
  | skip + 1, _ :: rest => decodeFrom skip rest
  | 0, byte :: rest =>
    match charAt (byte :: rest) with
    | none => none
    | some c => (decodeFrom ((encodeChar c).length - 1) rest).map (c :: ·)

/-- `bytes.decode('utf-8')`: `none` is a `UnicodeDecodeError`. -/
def decode (bytes : List UInt8) : Option Str := decodeFrom 0 bytes

/-! ### One character -/

theorem length_encodeChar (c : CodePoint) : 1 ≤ (encodeChar c).length ∧ (encodeChar c).length ≤ 4 := by
  unfold encodeChar
  split
  · simp
  split
  · simp
  split <;> simp

private theorem leading_encodeChar (c : CodePoint) (rest : List UInt8) : leading (encodeChar c ++ rest) = c.val := by
  have bound := c.valid
  unfold encodeChar
  split
  · next small =>
    have low : c.val % 256 = c.val := by omega
    simp [leading, low, small]
  split
  · next large small =>
    have lead : (0xC0 + c.val / 64) % 256 = 0xC0 + c.val / 64 := by omega
    have tail : (0x80 + c.val % 64) % 256 = 0x80 + c.val % 64 := by omega
    simp only [leading, List.cons_append, List.nil_append, UInt8.toNat_ofNat', Nat.reducePow, lead, List.getD_cons_zero,
      tail]
    rw [if_neg (by omega), if_pos (by omega)]
    omega
  split
  · next large small =>
    have lead : (0xE0 + c.val / 4096) % 256 = 0xE0 + c.val / 4096 := by omega
    have middle : (0x80 + c.val / 64 % 64) % 256 = 0x80 + c.val / 64 % 64 := by omega
    have tail : (0x80 + c.val % 64) % 256 = 0x80 + c.val % 64 := by omega
    simp only [leading, List.cons_append, List.nil_append, UInt8.toNat_ofNat', Nat.reducePow, lead, List.getD_cons_zero,
      List.getD_cons_succ, middle, tail]
    rw [if_neg (by omega), if_neg (by omega), if_pos (by omega)]
    omega
  · next large =>
    have lead : (0xF0 + c.val / 262144) % 256 = 0xF0 + c.val / 262144 := by omega
    have second : (0x80 + c.val / 4096 % 64) % 256 = 0x80 + c.val / 4096 % 64 := by omega
    have third : (0x80 + c.val / 64 % 64) % 256 = 0x80 + c.val / 64 % 64 := by omega
    have tail : (0x80 + c.val % 64) % 256 = 0x80 + c.val % 64 := by omega
    simp only [leading, List.cons_append, List.nil_append, UInt8.toNat_ofNat', Nat.reducePow, lead, List.getD_cons_zero,
      List.getD_cons_succ, second, third, tail]
    rw [if_neg (by omega), if_neg (by omega), if_neg (by omega)]
    omega

theorem charAt_encodeChar {c : CodePoint} (scalar : ¬ Surrogate c) (rest : List UInt8) :
    charAt (encodeChar c ++ rest) = some c := by
  have same : CodePoint.ofNat (leading (encodeChar c ++ rest)) = c := by
    rw [leading_encodeChar]
    exact CodePoint.ext (CodePoint.ofNat_val c.valid)
  simp [charAt, same, scalar]

theorem charAt_eq_some {bytes : List UInt8} {c : CodePoint} (read : charAt bytes = some c) :
    ¬ Surrogate c ∧ encodeChar c <+: bytes := by
  simp only [charAt] at read
  split at read
  · next ok => exact Option.some_inj.mp read ▸ ok
  · cases read

/-! ### Texts -/

theorem encode_eq_ok_iff {s : Str} {bytes : List UInt8} :
    encode s = .ok bytes ↔ (∀ c ∈ s, ¬ Surrogate c) ∧ bytes = s.flatMap encodeChar := by
  unfold encode
  cases found : s.findIdx? (Surrogate ·) with
  | none =>
    have scalars : ∀ c ∈ s, ¬ Surrogate c := by simpa [List.findIdx?_eq_none_iff] using found
    simp only [Except.ok.injEq, eq_comm (a := bytes)]
    exact ⟨fun same => ⟨scalars, same⟩, fun both => both.2⟩
  | some position =>
    simp only [reduceCtorEq, false_iff, not_and]
    intro scalars
    have none_found : s.findIdx? (Surrogate ·) = none := by simpa [List.findIdx?_eq_none_iff] using scalars
    rw [none_found] at found
    cases found

private theorem decodeFrom_skip (first rest : List UInt8) : decodeFrom first.length (first ++ rest) = decode rest := by
  induction first with
  | nil => rfl
  | cons byte more ih => exact ih

theorem decode_encodeChar {c : CodePoint} (scalar : ¬ Surrogate c) (rest : List UInt8) :
    decode (encodeChar c ++ rest) = (decode rest).map (c :: ·) := by
  have read := charAt_encodeChar scalar rest
  cases shape : encodeChar c with
  | nil => exact absurd (length_encodeChar c).1 (by simp [shape])
  | cons byte more =>
    rw [shape, List.cons_append] at read
    rw [List.cons_append, decode, decodeFrom, read]
    simp only [shape, List.length_cons, Nat.add_sub_cancel, decodeFrom_skip]

/-- The characters that some bytes encode come before what the rest decodes to. -/
theorem decode_append {s : Str} (scalars : ∀ c ∈ s, ¬ Surrogate c) (rest : List UInt8) :
    decode (s.flatMap encodeChar ++ rest) = (decode rest).map (s ++ ·) := by
  induction s with
  | nil => simp
  | cons c more ih =>
    rw [List.flatMap_cons, List.append_assoc, decode_encodeChar (scalars c (by simp)),
      ih (fun d member => scalars d (by simp [member])), Option.map_map]
    rfl

theorem decode_encode {s : Str} {bytes : List UInt8} (encoded : encode s = .ok bytes) (rest : List UInt8) :
    decode (bytes ++ rest) = (decode rest).map (s ++ ·) := by
  obtain ⟨scalars, rfl⟩ := encode_eq_ok_iff.mp encoded
  exact decode_append scalars rest

/-- Decoding accepts what encoding writes, and nothing else. -/
theorem decode_eq_some_iff {bytes : List UInt8} {s : Str} : decode bytes = some s ↔ encode s = .ok bytes := by
  constructor
  · intro decoded
    induction size : bytes.length using Nat.strongRecOn generalizing bytes s with
    | ind n ih =>
      cases bytes with
      | nil =>
        obtain rfl : [] = s := by simpa [decode, decodeFrom] using decoded
        rfl
      | cons byte rest =>
        cases read : charAt (byte :: rest) with
        | none => simp [decode, decodeFrom, read] at decoded
        | some c =>
          obtain ⟨scalar, tail, shape⟩ := charAt_eq_some read
          have advanced : decode (byte :: rest) = (decode tail).map (c :: ·) := by
            rw [← shape, decode_encodeChar scalar]
          rw [advanced] at decoded
          obtain ⟨more, later, rfl⟩ := Option.map_eq_some_iff.mp decoded
          have shorter : tail.length < n := by
            have lengths := congrArg List.length shape
            have positive := (length_encodeChar c).1
            simp only [List.length_append] at lengths
            omega
          obtain ⟨scalars, bytesOfTail⟩ := encode_eq_ok_iff.mp (ih _ shorter later rfl)
          refine encode_eq_ok_iff.mpr ⟨?_, ?_⟩
          · simpa [scalar] using scalars
          · rw [List.flatMap_cons, ← bytesOfTail, shape]
  · intro encoded
    simpa [decode, decodeFrom] using decode_encode encoded []

example : encode (lit "é|") = .ok [0xC3, 0xA9, 0x7C] := by decide

end Hde.Utf8
