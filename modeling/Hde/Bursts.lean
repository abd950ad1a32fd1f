import Hde.Published

/-!
`Parser.check_crc_diffs`. Two files of one length that differ within four consecutive
bytes have different checksums (`burst_detected`): the burst fits into the register of
the checksum, which loses nothing that fits into it.
-/
namespace Hde.Bursts
open Hde.Text Hde.Numerals Hde.Checksums Hde.Files Hde.Published

/-- `Parser.check_crc_diffs`. -/
def checkCrcDiffs (disk : Disk) (path1 path2 : Str) : Except Failure Bool := do
  let crc1 ← fileCrc32 disk path1
  let crc2 ← fileCrc32 disk path2
  if crc1 = fileNotFound ∨ crc2 = fileNotFound then return false
  return crc1 ≠ crc2

/-- Contents of one length that differ nowhere but from `first` to `first + 3`. -/
structure Burst (first : Nat) (content other : List UInt8) : Prop where
  lengths : content.length = other.length
  near : ∀ i, content[i]? ≠ other[i]? → first ≤ i ∧ i < first + 4

section Windows
variable {first : Nat} {content other : List UInt8}

theorem Burst.before (burst : Burst first content other) : content.take first = other.take first := by
  apply List.ext_getElem?
  intro i
  by_cases early : i < first
  · rw [List.getElem?_take_of_lt early, List.getElem?_take_of_lt early]
    by_contra different
    have := burst.near i different
    omega
  · simp [early]

theorem Burst.after (burst : Burst first content other) : content.drop (first + 4) = other.drop (first + 4) := by
  apply List.ext_getElem?
  intro i
  rw [List.getElem?_drop, List.getElem?_drop]
  by_contra different
  have := burst.near _ different
  omega

/-- A content around its four bytes. -/
theorem window (first : Nat) (content : List UInt8) :
    content = content.take first ++ (content.drop first).take 4 ++ content.drop (first + 4) := by
  rw [List.append_assoc, ← List.drop_drop, List.take_append_drop, List.take_append_drop]

theorem register_burst (burst : Burst first content other) (different : content ≠ other) :
    register content ≠ register other := by
  have lengths : ((content.drop first).take 4).length = ((other.drop first).take 4).length := by
    simp [burst.lengths]
  have short : 8 * ((content.drop first).take 4).length ≤ 32 := by
    have := List.length_take_le 4 (content.drop first)
    omega
  have changed : (content.drop first).take 4 ≠ (other.drop first).take 4 := by
    intro same
    apply different
    rw [window first content, window first other, burst.before, burst.after, same]
  rw [window first content, window first other, ← burst.before, ← burst.after]
  exact foldl_crcStep_burst (by decide) (by decide) (by decide) (by decide) _ _ lengths short changed

end Windows

/-- The checksums of two files tell a burst of up to four bytes. -/
theorem burst_detected {disk : Disk} {path1 path2 : Str} {first : Nat} {content other : List UInt8}
    (found1 : disk path1 = some (.file content)) (found2 : disk path2 = some (.file other))
    (burst : Burst first content other) (different : content ≠ other) :
    ∃ crc1 crc2, fileCrc32 disk path1 = .ok crc1 ∧ fileCrc32 disk path2 = .ok crc2 ∧ crc1 ≠ crc2 ∧
      checkCrcDiffs disk path1 path2 = .ok true := by
  have apart : formatX 8 (register content) ≠ formatX 8 (register other) := by
    intro same
    exact register_burst burst different (formatX_injective 8 same)
  have read1 := fileCrc32_register found1
  have read2 := fileCrc32_register found2
  refine ⟨_, _, read1, read2, apart, ?_⟩
  simp only [checkCrcDiffs, read1, read2, Bind.bind, Except.bind, formatX_ne_fileNotFound, or_self, if_false]
  simp [apart, pure, Except.pure]

/-- A byte in the middle of a file. -/
theorem burst_detected_byte :
    let disk : Disk := fun path =>
      if path = lit "a" then some (.file [1, 2, 3]) else if path = lit "b" then some (.file [1, 7, 3]) else none
    checkCrcDiffs disk (lit "a") (lit "b") = .ok true := by
  intro disk
  have burst : Burst 1 [1, 2, 3] [1, 7, 3] := by
    refine ⟨rfl, ?_⟩
    rintro (_ | _ | _ | i) different
    · exact absurd rfl different
    · omega
    · exact absurd rfl different
    · exact absurd rfl different
  have found1 : disk (lit "a") = some (.file [1, 2, 3]) := rfl
  have found2 : disk (lit "b") = some (.file [1, 7, 3]) := rfl
  obtain ⟨-, -, -, -, -, detected⟩ := burst_detected found1 found2 burst (by decide)
  exact detected

end Hde.Bursts
