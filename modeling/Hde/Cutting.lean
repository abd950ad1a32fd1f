import Mathlib.Data.List.Basic
import Mathlib.Data.List.Induction

/-!
Greedy cutting of a sequence into consecutive pieces that fit: a piece grows as
long as it does. Nothing is lost (`flatten_cut`), and once every single element fits
every piece does and none is empty (`fits_of_mem_cut`, `ne_nil_of_mem_cut`). When the
parts of what fits fit as well, there is no way to cut a sequence into fewer pieces
(`length_cut_le`), and several are made of what does not fit as a whole (`several_iff`). Slices of one size lose nothing either (`flatten_slices`), and are
full but for the last one (`length_of_slice`).
-/
namespace Hde.Cutting

variable {α : Type*} (fits : List α → Bool)

/-- The pieces of what is left, the first of them begun. -/
def cut : List α → List α → List (List α)
  | current, [] => if current.isEmpty then [] else [current]
  | current, a :: rest => if fits (current ++ [a]) then cut (current ++ [a]) rest else current :: cut [a] rest

theorem flatten_cut (current rest : List α) : (cut fits current rest).flatten = current ++ rest := by
  induction rest generalizing current with
  | nil => cases current <;> simp [cut]
  | cons a rest ih =>
    rw [cut]
    split
    · simp [ih]
    · simp [ih]

variable {fits}

theorem ne_nil_of_mem_cut {current rest piece : List α} (single : ∀ a ∈ rest, fits [a] = true)
    (member : piece ∈ cut fits current rest) : piece ≠ [] := by
  induction rest generalizing current with
  | nil =>
    cases current with
    | nil => cases member
    | cons a more => simp_all [cut]
  | cons a rest ih =>
    have later : ∀ b ∈ rest, fits [b] = true := fun b inside => single b (by simp [inside])
    rw [cut] at member
    split at member
    · exact ih later member
    · next full =>
      rcases List.mem_cons.mp member with rfl | after
      · -- a piece that is given up is not empty: its next element fits alone
        rintro rfl
        exact full (single a (by simp))
      · exact ih later after

theorem fits_of_mem_cut {current rest piece : List α} (single : ∀ a ∈ rest, fits [a] = true)
    (begun : current = [] ∨ fits current = true) (member : piece ∈ cut fits current rest) : fits piece = true := by
  induction rest generalizing current with
  | nil =>
    cases current with
    | nil => cases member
    | cons a more =>
      obtain rfl : piece = a :: more := by simpa [cut] using member
      exact begun.resolve_left (List.cons_ne_nil a more)
  | cons a rest ih =>
    have later : ∀ b ∈ rest, fits [b] = true := fun b inside => single b (by simp [inside])
    rw [cut] at member
    split at member
    · next grows => exact ih later (.inr grows) member
    · next full =>
      rcases List.mem_cons.mp member with rfl | after
      · refine begun.resolve_left ?_
        rintro rfl
        exact full (single a (by simp))
      · exact ih later (.inr (single a (by simp))) after

theorem cut_begins {a : α} {begun rest piece : List α} (first : (cut fits (a :: begun) rest)[0]? = some piece) :
    ∃ tail, piece = a :: tail := by
  induction rest generalizing begun with
  | nil => exact ⟨begun, by simpa [cut, eq_comm] using first⟩
  | cons b rest ih =>
    rw [cut] at first
    split at first
    · exact ih first
    · exact ⟨begun, by simpa [eq_comm] using first⟩

/-- A piece is given up because the first element of the next one does not fit. -/
theorem cut_next {current rest piece next : List α} {k : Nat} (here : (cut fits current rest)[k]? = some piece)
    (later : (cut fits current rest)[k + 1]? = some next) :
    ∃ a tail, next = a :: tail ∧ fits (piece ++ [a]) = false := by
  induction rest generalizing current k with
  | nil => cases current <;> simp [cut] at later
  | cons a rest ih =>
    rw [cut] at here later
    split at here
    · next grows =>
      rw [if_pos grows] at later
      exact ih here later
    · next full =>
      rw [if_neg full] at later
      cases k with
      | zero =>
        obtain ⟨tail, rfl⟩ := cut_begins later
        obtain rfl : current = piece := by simpa using here
        exact ⟨a, tail, rfl, by simpa using full⟩
      | succ k => exact ih here later

/-- The last piece fits when the sequence had an element left to add to it. -/
theorem fits_of_single {current rest piece : List α} (some_rest : rest ≠ []) (single : cut fits current rest = [piece]) :
    fits piece = true := by
  induction rest generalizing current with
  | nil => exact absurd rfl some_rest
  | cons a rest ih =>
    rw [cut] at single
    split at single
    · next grows =>
      by_cases more : rest = []
      · subst more
        obtain rfl : current ++ [a] = piece := by simpa [cut] using single
        exact grows
      · exact ih more single
    · -- a piece that is given up is not the only one
      have none_left : cut fits [a] rest = [] := (List.cons.inj single).2
      have lost := flatten_cut fits [a] rest
      rw [none_left] at lost
      cases lost

section Fewest
variable (part : ∀ piece inside : List α, fits piece = true → inside <:+: piece → fits inside = true)
include part

/-- The greedy cut against another one that is `left` short of the end of its piece
    `done ++ left`, with some pieces still to come. It is never two pieces behind, and
    not even one while its own piece began no earlier. -/
private theorem length_cut_ahead (rest current done left : List α) (pieces : List (List α))
    (same : rest = left ++ pieces.flatten) (open_piece : fits (done ++ left) = true)
    (all_fit : ∀ piece ∈ pieces, fits piece = true) :
    (cut fits current rest).length ≤ pieces.length + 2 ∧
      (current <:+ done → (cut fits current rest).length ≤ pieces.length + 1) := by
  induction rest generalizing current done left pieces with
  | nil =>
    have one : (cut fits current []).length ≤ 1 := by cases current <;> simp [cut]
    exact ⟨by omega, fun _ => by omega⟩
  | cons a rest ih =>
    cases left with
    | cons b left =>
      -- the other cut goes on with its piece
      obtain ⟨rfl, goes_on⟩ : a = b ∧ rest = left ++ pieces.flatten := by simpa using same
      have inside : fits ((done ++ [a]) ++ left) = true := by simpa using open_piece
      rw [cut]
      split
      · obtain ⟨behind, ahead⟩ := ih (current ++ [a]) _ _ _ goes_on inside all_fit
        refine ⟨behind, ?_⟩
        rintro ⟨before, rfl⟩
        exact ahead ⟨before, by simp⟩
      · next full =>
        obtain ⟨-, ahead⟩ := ih [a] _ _ _ goes_on inside all_fit
        have next := ahead ⟨done, rfl⟩
        refine ⟨by simpa using next, ?_⟩
        -- a piece that began no earlier has room for what the other one takes
        rintro ⟨before, rfl⟩
        exact absurd (part _ _ open_piece ⟨before, left, by simp⟩) full
    | nil =>
      -- the other cut begins its next piece, after some empty ones
      obtain ⟨empties, left, later, rfl, -, same⟩ := List.flatten_eq_cons_iff.mp same.symm
      have begun : fits ([a] ++ left) = true := all_fit (a :: left) (by simp)
      have later_fit : ∀ piece ∈ later, fits piece = true := fun piece member => all_fit piece (by simp [member])
      have fewer : (empties ++ (a :: left) :: later).length = empties.length + (later.length + 1) := by simp
      rw [cut]
      split
      · obtain ⟨behind, -⟩ := ih (current ++ [a]) _ _ _ same begun later_fit
        exact ⟨by omega, fun _ => by omega⟩
      · obtain ⟨-, ahead⟩ := ih [a] _ _ _ same begun later_fit
        have next := ahead (List.suffix_refl _)
        rw [List.length_cons]
        exact ⟨by omega, fun _ => by omega⟩

/-- No way of cutting into pieces that fit has fewer of them. -/
theorem length_cut_le {s : List α} (single : ∀ a ∈ s, fits [a] = true) {pieces : List (List α)}
    (whole : pieces.flatten = s) (all_fit : ∀ piece ∈ pieces, fits piece = true) :
    (cut fits [] s).length ≤ pieces.length := by
  cases s with
  | nil => simp [cut]
  | cons a rest =>
    obtain ⟨empties, left, later, rfl, -, same⟩ := List.flatten_eq_cons_iff.mp whole
    have later_fit : ∀ piece ∈ later, fits piece = true := fun piece member => all_fit piece (by simp [member])
    have begun : fits ([a] ++ left) = true := all_fit (a :: left) (by simp)
    obtain ⟨-, ahead⟩ := length_cut_ahead part rest [a] _ _ _ same begun later_fit
    have fewest := ahead (List.suffix_refl _)
    rw [cut, List.nil_append, if_pos (single a (by simp))]
    simp only [List.length_append, List.length_cons]
    omega

theorem cut_of_fits {current rest : List α} (some_element : current ++ rest ≠ []) (fit : fits (current ++ rest) = true) :
    cut fits current rest = [current ++ rest] := by
  induction rest generalizing current with
  | nil => cases current <;> simp_all [cut]
  | cons a rest ih =>
    have grows : fits (current ++ [a]) = true := part _ _ fit ⟨[], rest, by simp⟩
    rw [cut, if_pos grows, ih (by simp) (by simpa using fit)]
    simp

/-- A sequence is cut into several pieces exactly when it does not fit as a whole. -/
theorem several_iff {s : List α} (some_element : s ≠ []) : 1 < (cut fits [] s).length ↔ fits s = false := by
  constructor
  · intro several
    by_contra fit
    have fit : fits s = true := by simpa using fit
    have single : cut fits [] s = [s] := cut_of_fits part some_element fit
    rw [single] at several
    exact absurd several (by simp)
  · intro long
    by_contra few
    obtain empty | ⟨piece, single⟩ : cut fits [] s = [] ∨ ∃ piece, cut fits [] s = [piece] := by
      match shape : cut fits [] s with
      | [] => exact .inl rfl
      | [piece] => exact .inr ⟨piece, rfl⟩
      | first :: second :: rest => exact absurd (by rw [shape]; simp) few
    · have lost := flatten_cut fits [] s
      rw [empty] at lost
      exact some_element lost.symm
    · have whole := flatten_cut fits [] s
      rw [single] at whole
      have fit := fits_of_single some_element single
      rw [show piece = s by simpa using whole, long] at fit
      cases fit

end Fewest

section Slices
variable (size : Nat) (s : List α)

/-- The slices of one size, the last of them perhaps shorter. -/
def slices : List (List α) := (List.range ((s.length + size - 1) / size)).map fun k => (s.drop (k * size)).take size

@[simp] theorem length_slices : (slices size s).length = (s.length + size - 1) / size := by
  simp [slices]

theorem getElem?_slices (k : Nat) :
    (slices size s)[k]? = if k < (s.length + size - 1) / size then some ((s.drop (k * size)).take size) else none := by
  by_cases inside : k < (s.length + size - 1) / size
  · simp [slices, inside]
  · simp [slices, inside]

variable {size} {s}

theorem pair_infix_iff {a b : α} : [a, b] <:+: s ↔ ∃ i, s[i]? = some a ∧ s[i + 1]? = some b := by
  rw [List.infix_iff_getElem?]
  constructor
  · rintro ⟨i, -, same⟩
    refine ⟨i, by simpa using same 0 (by simp), ?_⟩
    simpa [Nat.add_comm] using same 1 (by simp)
  · rintro ⟨i, first, second⟩
    have inside : i + 1 < s.length := (List.getElem?_eq_some_iff.mp second).1
    refine ⟨i, by simp only [List.length_cons, List.length_nil]; omega, ?_⟩
    intro k small
    match k with
    | 0 => simpa using first
    | 1 => simpa [Nat.add_comm] using second

/-- Two adjacent elements are in one slice unless the second of them begins a slice. -/
theorem pair_infix_slices (positive : 0 < size) {a b : α} :
    (∃ piece ∈ slices size s, [a, b] <:+: piece) ↔ ∃ i, s[i]? = some a ∧ s[i + 1]? = some b ∧ (i + 1) % size ≠ 0 := by
  constructor
  · rintro ⟨piece, member, pair⟩
    obtain ⟨k, -, rfl⟩ := List.mem_map.mp member
    obtain ⟨j, first, second⟩ := pair_infix_iff.mp pair
    have short : j + 1 < size := by
      by_contra long
      rw [List.getElem?_take_eq_none (by omega)] at second
      cases second
    rw [List.getElem?_take_of_lt (by omega), List.getElem?_drop] at first second
    refine ⟨k * size + j, first, second, ?_⟩
    rw [Nat.add_assoc, Nat.add_comm, Nat.add_mul_mod_self_right, Nat.mod_eq_of_lt short]
    omega
  · rintro ⟨i, first, second, inner⟩
    have inside : i < s.length := (List.getElem?_eq_some_iff.mp first).1
    have whole := Nat.div_add_mod' i size
    have short : i % size + 1 < size := by
      have below := Nat.mod_lt i positive
      by_contra long
      have last : i % size + 1 = size := by omega
      refine inner ?_
      rw [← whole, Nat.add_assoc, last, Nat.add_mod_right, Nat.mul_mod_left]
    have within : i / size < (s.length + size - 1) / size := by
      rw [← Nat.succ_le_iff, Nat.le_div_iff_mul_le positive, Nat.succ_mul]
      omega
    refine ⟨(s.drop (i / size * size)).take size, List.mem_map.mpr ⟨i / size, List.mem_range.mpr within, rfl⟩, ?_⟩
    refine pair_infix_iff.mpr ⟨i % size, ?_, ?_⟩
    · rw [List.getElem?_take_of_lt (by omega), List.getElem?_drop, whole]
      exact first
    · rw [List.getElem?_take_of_lt short, List.getElem?_drop, ← Nat.add_assoc, whole]
      exact second

theorem slices_nil (positive : 0 < size) : slices size ([] : List α) = [] := by
  apply List.eq_nil_of_length_eq_zero
  rw [length_slices, List.length_nil]
  exact Nat.div_eq_of_lt (by omega)

theorem slices_single (some_element : s ≠ []) (fits : s.length ≤ size) : slices size s = [s] := by
  have one : (s.length + size - 1) / size = 1 := by
    have some_length := List.length_pos_iff.mpr some_element
    exact Nat.div_eq_of_lt_le (by omega) (by omega)
  simp [slices, one, List.take_of_length_le fits]

/-- A slice is full unless it is the last one, which is not empty. -/
theorem length_of_slice (positive : 0 < size) {k : Nat} {piece : List α} (slice : (slices size s)[k]? = some piece) :
    1 ≤ piece.length ∧ piece.length ≤ size ∧ (k + 1 < (slices size s).length → piece.length = size) := by
  rw [getElem?_slices] at slice
  by_cases inside : k < (s.length + size - 1) / size
  · rw [if_pos inside] at slice
    obtain rfl := Option.some.inj slice
    have begins : (k + 1) * size ≤ s.length + size - 1 := (Nat.le_div_iff_mul_le positive).mp inside
    rw [Nat.add_mul, Nat.one_mul] at begins
    rw [List.length_take, List.length_drop]
    refine ⟨by omega, by omega, ?_⟩
    intro more
    rw [length_slices] at more
    have next : (k + 2) * size ≤ s.length + size - 1 := (Nat.le_div_iff_mul_le positive).mp more
    rw [Nat.add_mul] at next
    omega
  · rw [if_neg inside] at slice
    cases slice

variable (s)

theorem flatten_slices (positive : 0 < size) : (slices size s).flatten = s := by
  have upTo : ∀ count, ((List.range count).map fun k => (s.drop (k * size)).take size).flatten = s.take (count * size) := by
    intro count
    induction count with
    | zero => simp
    | succ count ih =>
      rw [List.range_succ, List.map_append, List.flatten_append, ih, Nat.add_mul, Nat.one_mul, List.take_add]
      simp
  rw [slices, upTo]
  apply List.take_of_length_le
  have covers := Nat.lt_mul_div_succ (s.length + size - 1) positive
  rw [Nat.mul_add, Nat.mul_one] at covers
  rw [Nat.mul_comm]
  omega

end Slices

section Positions

/-- The place in the whole is in the part at an index: after the parts before it and
    before its own end. -/
def PlacedIn (parts : List (List α)) (place k : Nat) : Prop :=
  (parts.take k).flatten.length ≤ place ∧ place < (parts.take (k + 1)).flatten.length

theorem length_flatten_take_mono (parts : List (List α)) {j k : Nat} (le : j ≤ k) :
    (parts.take j).flatten.length ≤ (parts.take k).flatten.length := by
  obtain ⟨more, rfl⟩ := Nat.exists_eq_add_of_le le
  rw [List.take_add, List.flatten_append, List.length_append]
  omega

/-- Parts are in the order of their places. -/
theorem placedIn_mono {parts : List (List α)} {i j k l : Nat} (le : i ≤ j) (first : PlacedIn parts i k)
    (second : PlacedIn parts j l) : k ≤ l := by
  by_contra later
  have ends := length_flatten_take_mono parts (by omega : l + 1 ≤ k)
  have begins := first.1
  have inside := second.2
  omega

/-- Every place of the whole is in a part. -/
theorem exists_placedIn {parts : List (List α)} {place : Nat} (inside : place < parts.flatten.length) :
    ∃ k, k < parts.length ∧ PlacedIn parts place k := by
  induction parts using List.reverseRecOn with
  | nil => cases inside
  | append_singleton parts last ih =>
    rw [List.flatten_append, List.length_append] at inside
    by_cases earlier : place < parts.flatten.length
    · obtain ⟨k, small, begins, ends⟩ := ih earlier
      refine ⟨k, by rw [List.length_append]; omega, ?_, ?_⟩
      · rwa [List.take_append_of_le_length (by omega)]
      · rwa [List.take_append_of_le_length (by omega)]
    · refine ⟨parts.length, by simp, ?_, ?_⟩
      · rw [List.take_left]
        omega
      · rw [List.take_of_length_le (by simp), List.flatten_append, List.length_append]
        exact inside

end Positions
end Hde.Cutting
