import Hde.Utf8

/-!
UTF-16: texts of code points against texts of code units. A code point above `0xFFFF`
is two surrogates, and reading joins two surrogates that stand side by side, whoever put
them there. Every text of units is the units of its code points (`units_codePoints`), and
a text of code points comes back with its surrogate pairs joined (`codePoints_units`),
so unchanged if there are none (`joinPairs_eq_self_iff`).
-/
namespace Hde.Utf16
open Hde.Text Hde.Utf8

def High (c : CodePoint) : Prop := 0xD800 ≤ c.val ∧ c.val < 0xDC00

def Low (c : CodePoint) : Prop := 0xDC00 ≤ c.val ∧ c.val < 0xE000

instance : DecidablePred High := fun c => inferInstanceAs (Decidable (0xD800 ≤ c.val ∧ c.val < 0xDC00))

instance : DecidablePred Low := fun c => inferInstanceAs (Decidable (0xDC00 ≤ c.val ∧ c.val < 0xE000))

/-- The code point of two surrogates. -/
def pair (high low : CodePoint) : CodePoint :=
  CodePoint.ofNat (0x10000 + (high.val - 0xD800) * 1024 + (low.val - 0xDC00))

def highOf (c : CodePoint) : CodePoint := CodePoint.ofNat (0xD800 + (c.val - 0x10000) / 1024)

def lowOf (c : CodePoint) : CodePoint := CodePoint.ofNat (0xDC00 + (c.val - 0x10000) % 1024)

/-- A code point as one or two code points that are units. -/
def split (c : CodePoint) : Str := if c.val < 0x10000 then [c] else [highOf c, lowOf c]

/-- Every high surrogate before a low one is joined with it, from left to right. -/
def joinPairs : Str → Str
  | [] => []
  | [c] => [c]
  | c :: next :: rest =>
    if High c ∧ Low next then pair c next :: joinPairs rest else c :: joinPairs (next :: rest)

def ofUnit (u : UInt16) : CodePoint := CodePoint.ofNat u.toNat

def units (s : Str) : List UInt16 := (s.flatMap split).map fun c => .ofNat c.val

def codePoints (us : List UInt16) : Str := joinPairs (us.map ofUnit)

/-- No high surrogate is followed by a low one. -/
def Joined : Str → Prop
  | c :: next :: rest => ¬ (High c ∧ Low next) ∧ Joined (next :: rest)
  | _ => True

def Joined.decide : (s : Str) → Decidable (Joined s)
  | [] => isTrue trivial
  | [_] => isTrue trivial
  | c :: next :: rest =>
    have := Joined.decide (next :: rest)
    inferInstanceAs (Decidable (¬ (High c ∧ Low next) ∧ Joined (next :: rest)))

instance : DecidablePred Joined := Joined.decide

/-! ### One code point -/

theorem pair_val {high low : CodePoint} (first : High high) (second : Low low) :
    (pair high low).val = 0x10000 + (high.val - 0xD800) * 1024 + (low.val - 0xDC00) := by
  obtain ⟨hl, hu⟩ := first
  obtain ⟨ll, lu⟩ := second
  exact CodePoint.ofNat_val (by omega)

theorem highOf_val {c : CodePoint} (astral : 0x10000 ≤ c.val) : (highOf c).val = 0xD800 + (c.val - 0x10000) / 1024 := by
  have bound := c.valid
  exact CodePoint.ofNat_val (by omega)

theorem lowOf_val (c : CodePoint) : (lowOf c).val = 0xDC00 + (c.val - 0x10000) % 1024 :=
  CodePoint.ofNat_val (by omega)

theorem high_highOf {c : CodePoint} (astral : 0x10000 ≤ c.val) : High (highOf c) := by
  have bound := c.valid
  unfold High
  rw [highOf_val astral]
  omega

theorem low_lowOf (c : CodePoint) : Low (lowOf c) := by
  unfold Low
  rw [lowOf_val]
  omega

theorem pair_split {c : CodePoint} (astral : 0x10000 ≤ c.val) : pair (highOf c) (lowOf c) = c := by
  apply CodePoint.ext
  rw [pair_val (high_highOf astral) (low_lowOf c), highOf_val astral, lowOf_val]
  omega

theorem split_pair {high low : CodePoint} (first : High high) (second : Low low) :
    split (pair high low) = [high, low] := by
  have value := pair_val first second
  obtain ⟨hl, hu⟩ := first
  obtain ⟨ll, lu⟩ := second
  have astral : 0x10000 ≤ (pair high low).val := by omega
  have upper : highOf (pair high low) = high := by
    apply CodePoint.ext
    rw [highOf_val astral, value]
    omega
  have lower : lowOf (pair high low) = low := by
    apply CodePoint.ext
    rw [lowOf_val, value]
    omega
  rw [split, if_neg (by omega), upper, lower]

theorem surrogate_iff {c : CodePoint} : Surrogate c ↔ High c ∨ Low c := by
  unfold Surrogate High Low
  omega

theorem pair_scalar {high low : CodePoint} (first : High high) (second : Low low) : ¬ Surrogate (pair high low) := by
  rintro ⟨-, bound⟩
  rw [pair_val first second] at bound
  omega

/-! ### Joining -/

theorem joinPairs_pair {high low : CodePoint} (first : High high) (second : Low low) (rest : Str) :
    joinPairs (high :: low :: rest) = pair high low :: joinPairs rest := by
  rw [joinPairs, if_pos ⟨first, second⟩]

theorem joinPairs_cons {c : CodePoint} {rest : Str} (apart : ∀ next, rest.head? = some next → ¬ (High c ∧ Low next)) :
    joinPairs (c :: rest) = c :: joinPairs rest := by
  cases rest with
  | nil => rfl
  | cons next more => rw [joinPairs, if_neg (apart next rfl)]

/-- The first unit of a text is low only if its first code point is. -/
theorem low_of_split {s : Str} {first : CodePoint} (head : (s.flatMap split).head? = some first) (low : Low first) :
    s.head? = some first := by
  cases s with
  | nil => cases head
  | cons c rest =>
    by_cases small : c.val < 0x10000
    · rw [List.flatMap_cons, split, if_pos small] at head
      exact head
    · rw [List.flatMap_cons, split, if_neg small] at head
      obtain rfl : highOf c = first := Option.some.inj head
      have high := (high_highOf (Nat.not_lt.mp small)).2
      have := low.1
      omega

theorem split_small {c : CodePoint} (small : c.val < 0x10000) : split c = [c] := if_pos small

theorem joinPairs_split (s : Str) : joinPairs (s.flatMap split) = joinPairs s := by
  have astral (c : CodePoint) (large : 0x10000 ≤ c.val) (rest : Str) :
      joinPairs ((c :: rest).flatMap split) = c :: joinPairs (rest.flatMap split) := by
    rw [List.flatMap_cons, split, if_neg (Nat.not_lt.mpr large), List.cons_append, List.singleton_append,
      joinPairs_pair (high_highOf large) (low_lowOf c), pair_split large]
  have single (c : CodePoint) (small : c.val < 0x10000) (rest : Str) :
      (c :: rest).flatMap split = c :: rest.flatMap split := by
    rw [List.flatMap_cons, split_small small, List.singleton_append]
  fun_induction joinPairs s with
  | case1 => rfl
  | case2 c =>
    by_cases small : c.val < 0x10000
    · rw [single c small]
      rfl
    · rw [astral c (Nat.not_lt.mp small)]
      rfl
  | case3 c next rest both ih =>
    have small : c.val < 0x10000 := by have := both.1.2; omega
    have small' : next.val < 0x10000 := by have := both.2.2; omega
    rw [single c small, single next small', joinPairs_pair both.1 both.2, ih]
  | case4 c next rest apart ih =>
    by_cases small : c.val < 0x10000
    · rw [single c small, joinPairs_cons, ih]
      rintro first head ⟨high, low⟩
      have same : some next = some first := low_of_split head low
      exact apart ⟨high, Option.some.inj same ▸ low⟩
    · rw [astral c (Nat.not_lt.mp small), ih]

theorem split_joinPairs {s : Str} (small : ∀ c ∈ s, c.val < 0x10000) : (joinPairs s).flatMap split = s := by
  fun_induction joinPairs s with
  | case1 => rfl
  | case2 c => rw [List.flatMap_singleton, split_small (small c (by simp))]
  | case3 c next rest both ih =>
    rw [List.flatMap_cons, split_pair both.1 both.2, ih fun d member => small d (by simp [member])]
    rfl
  | case4 c next rest apart ih =>
    rw [List.flatMap_cons, split_small (small c (by simp)), ih fun d member => small d (List.mem_cons_of_mem _ member)]
    rfl

/-- The first of the joined code points is the first code point or a joined pair. -/
theorem joinPairs_head {s : Str} {first : CodePoint} (head : (joinPairs s).head? = some first) :
    s.head? = some first ∨ ¬ Surrogate first := by
  fun_cases joinPairs s with
  | case1 => cases head
  | case2 c => exact .inl head
  | case3 c next rest both =>
    rw [joinPairs, if_pos both] at head
    obtain rfl : pair c next = first := Option.some.inj head
    exact .inr (pair_scalar both.1 both.2)
  | case4 c next rest apart =>
    rw [joinPairs, if_neg apart] at head
    exact .inl head

theorem joined_cons {c : CodePoint} {rest : Str} :
    Joined (c :: rest) ↔ (∀ next, rest.head? = some next → ¬ (High c ∧ Low next)) ∧ Joined rest := by
  cases rest with
  | nil => simp [Joined]
  | cons next more => simp [Joined]

theorem joined_joinPairs (s : Str) : Joined (joinPairs s) := by
  fun_induction joinPairs s with
  | case1 => trivial
  | case2 c => trivial
  | case3 c next rest both ih =>
    refine joined_cons.mpr ⟨fun _ _ pairing => ?_, ih⟩
    exact pair_scalar both.1 both.2 (surrogate_iff.mpr (.inl pairing.1))
  | case4 c next rest apart ih =>
    refine joined_cons.mpr ⟨?_, ih⟩
    rintro first head ⟨high, low⟩
    rcases joinPairs_head head with same | scalar
    · have same : next = first := Option.some.inj same
      exact apart ⟨high, same ▸ low⟩
    · exact scalar (surrogate_iff.mpr (.inr low))

theorem joinPairs_eq_self_iff {s : Str} : joinPairs s = s ↔ Joined s := by
  constructor
  · intro same
    rw [← same]
    exact joined_joinPairs s
  · intro joined
    induction s with
    | nil => rfl
    | cons c rest ih =>
      obtain ⟨apart, later⟩ := joined_cons.mp joined
      rw [joinPairs_cons apart, ih later]

theorem joinPairs_idem (s : Str) : joinPairs (joinPairs s) = joinPairs s :=
  joinPairs_eq_self_iff.mpr (joined_joinPairs s)

theorem joined_of_scalars {s : Str} (scalars : ∀ c ∈ s, ¬ Surrogate c) : Joined s := by
  induction s with
  | nil => trivial
  | cons c rest ih =>
    refine joined_cons.mpr ⟨fun _ _ both => ?_, ih fun d member => scalars d (List.mem_cons_of_mem _ member)⟩
    exact scalars c (by simp) (surrogate_iff.mpr (.inl both.1))

/-! ### Units -/

theorem split_val_lt {c d : CodePoint} (member : d ∈ split c) : d.val < 0x10000 := by
  unfold split at member
  split at member
  · next small =>
    obtain rfl : d = c := by simpa using member
    exact small
  · next large =>
    rcases List.mem_pair.mp member with upper | lower
    · have := (high_highOf (Nat.not_lt.mp large)).2
      rw [upper]
      omega
    · have := (low_lowOf c).2
      rw [lower]
      omega

theorem ofUnit_ofNat {c : CodePoint} (small : c.val < 0x10000) : ofUnit (.ofNat c.val) = c := by
  apply CodePoint.ext
  have inside : (UInt16.ofNat c.val).toNat = c.val := by rw [UInt16.toNat_ofNat', Nat.mod_eq_of_lt small]
  rw [ofUnit, inside, CodePoint.ofNat_val c.valid]

theorem ofUnit_val (u : UInt16) : (ofUnit u).val = u.toNat := by
  have bound := u.toNat_lt
  exact CodePoint.ofNat_val (by omega)

/-- A text as its units, as code points. -/
theorem ofUnit_units (s : Str) : (units s).map ofUnit = s.flatMap split := by
  have each : ∀ c ∈ s.flatMap split, (ofUnit ∘ fun c : CodePoint => UInt16.ofNat c.val) c = id c := by
    intro c member
    obtain ⟨whole, -, part⟩ := List.mem_flatMap.mp member
    exact ofUnit_ofNat (split_val_lt part)
  rw [units, List.map_map, List.map_congr_left each, List.map_id]

theorem codePoints_units (s : Str) : codePoints (units s) = joinPairs s := by
  rw [codePoints, ofUnit_units, joinPairs_split]

theorem units_codePoints (us : List UInt16) : units (codePoints us) = us := by
  have small : ∀ c ∈ us.map ofUnit, c.val < 0x10000 := by
    intro c member
    obtain ⟨u, -, rfl⟩ := List.mem_map.mp member
    rw [ofUnit_val]
    exact u.toNat_lt
  have each : ∀ u ∈ us, ((fun c : CodePoint => UInt16.ofNat c.val) ∘ ofUnit) u = id u := by
    intro u _
    rw [Function.comp, ofUnit_val, UInt16.ofNat_toNat, id]
  rw [units, codePoints, split_joinPairs small, List.map_map, List.map_congr_left each, List.map_id]

theorem joined_codePoints (us : List UInt16) : Joined (codePoints us) := joined_joinPairs _

example : units (lit "a😀") = [0x61, 0xD83D, 0xDE00] := by decide

end Hde.Utf16
