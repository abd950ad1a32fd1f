import Hde.RoundTrip

/-!
One corrupted character of a frame of `prepare`, wherever it is. In the payload
it changes the exclusive or. In place of the delimiter it leaves no `*`, or one
of a value, behind which the rest of the payload with its `|` cannot pass for a
checksum. In the checksum it changes the text that is compared, except for the
case of a letter; a `*` there moves the boundary and leaves too few digits, as
the characters it moves are too small to change their number.
-/
namespace Hde.Corruption
open Hde.Text Hde.Unicode Hde.Numerals Hde.Checksums Hde.Dicts Hde.Records Hde.Frames Hde.Grammar Hde.RoundTrip

/-- A checksum letter, past the payload, replaced by its lower case. -/
def CaseSwap (raw before : Str) (a b : CodePoint) : Prop :=
  (rpartition asterisk raw).1.length < before.length ∧ (65 ≤ a.val ∧ a.val ≤ 70) ∧ b.val = a.val + 32

private theorem position {payload crc before after : Str} {a : CodePoint}
    (same : payload ++ asterisk :: crc = before ++ a :: after) :
    (∃ rest, payload = before ++ a :: rest ∧ after = rest ++ asterisk :: crc) ∨
      (before = payload ∧ a = asterisk ∧ after = crc) ∨
      ∃ start, before = payload ++ asterisk :: start ∧ crc = start ++ a :: after := by
  rcases List.append_eq_append_iff.mp same with ⟨part, rfl, tail⟩ | ⟨part, rfl, tail⟩
  · cases part with
    | nil =>
      simp only [List.nil_append, List.cons.injEq] at tail
      exact .inr (.inl ⟨by simp, tail.1.symm, tail.2.symm⟩)
    | cons c start =>
      simp only [List.cons_append, List.cons.injEq] at tail
      obtain ⟨rfl, rfl⟩ := tail
      exact .inr (.inr ⟨start, rfl, rfl⟩)
  · cases part with
    | nil =>
      simp only [List.nil_append, List.cons.injEq] at tail
      exact .inr (.inl ⟨by simp, tail.1, tail.2⟩)
    | cons c rest =>
      simp only [List.cons_append, List.cons.injEq] at tail
      obtain ⟨rfl, rfl⟩ := tail
      exact .inl ⟨rest, rfl, rfl⟩

theorem calculateCrc_substitution (before after : Str) {a b : CodePoint} (different : a ≠ b) :
    calculateCrc (before ++ a :: after) ≠ calculateCrc (before ++ b :: after) := by
  intro same
  exact foldl_substitution (xorStep_keeps CodePoint.val)
    (xorStep_reads CodePoint.val fun _ _ equal => CodePoint.ext equal) 0 before after different
    (formatX_injective 2 same)

theorem calculateCrc_length {more : Str} (small : ∀ c ∈ more, c.val < 256) (payload : Str) :
    (calculateCrc (payload ++ more)).length = (calculateCrc payload).length := by
  have high : ∀ start, more.foldl (xorStep CodePoint.val) start / 2 ^ 8 = start / 2 ^ 8 :=
    foldl_xor_high CodePoint.val small
  rw [show 2 ^ 8 = 256 from rfl] at high
  rw [calculateCrc, calculateCrc, formatX_length, formatX_length, List.foldl_append, high]

theorem hexDigit_small {c : CodePoint} (hex : HexDigit c) : c.val < 256 := by
  rcases hex with digit | letter <;> omega

theorem upper_ne_crc {s payload : Str} (present : bar ∈ s) : upper s ≠ calculateCrc payload := by
  intro same
  have kept : bar ∈ upper s := List.mem_flatMap.mpr ⟨bar, present, by decide +kernel⟩
  exact absurd (calculateCrc_hex payload bar (same ▸ kept)) (by decide)

/-! ### The three places -/

private theorem reject_payload {before rest : Str} {a b : CodePoint} (different : a ≠ b) :
    ¬ Accepts (before ++ b :: rest ++ asterisk :: calculateCrc (before ++ a :: rest)) := by
  rintro ⟨-, checksum, -⟩
  rw [rpartition_append (asterisk_not_mem_crc _), upper_hexDigits (calculateCrc_hex _)] at checksum
  exact calculateCrc_substitution before rest different checksum

/-- Without the delimiter the last `*` of the payload takes its place; a `|`
    always follows it. -/
private theorem reject_delimiter {head tail : Str} {b : CodePoint} (clean : asterisk ∉ tail)
    (different : b ≠ asterisk) :
    ¬ Accepts (head ++ bar :: tail ++ b :: calculateCrc (head ++ bar :: tail)) := by
  rintro ⟨delimiter, checksum, -⟩
  have apart : asterisk ≠ bar := by decide
  have inside : asterisk ∈ head := by
    simpa [clean, different.symm, apart, asterisk_not_mem_crc] using delimiter
  obtain ⟨first, second, rfl, absent⟩ : ∃ first second, head = first ++ asterisk :: second ∧ asterisk ∉ second :=
    ⟨_, _, rpartition_spec inside⟩
  have moved (crc : Str) : first ++ asterisk :: second ++ bar :: tail ++ b :: crc =
      first ++ asterisk :: (second ++ bar :: tail ++ b :: crc) := by simp
  have behind (payload : Str) : asterisk ∉ second ++ bar :: tail ++ b :: calculateCrc payload := by
    simp [absent, clean, different.symm, apart, asterisk_not_mem_crc]
  rw [moved, rpartition_append (behind _)] at checksum
  exact upper_ne_crc (by simp) checksum

/-- A `*` among the digits leaves fewer digits than the longer payload needs. -/
private theorem reject_early_asterisk {payload start after : Str} {a : CodePoint}
    (crc : calculateCrc payload = start ++ a :: after) :
    ¬ Accepts (payload ++ asterisk :: start ++ asterisk :: after) := by
  rintro ⟨-, checksum, -⟩
  have hex : ∀ c ∈ start ++ a :: after, HexDigit c := crc ▸ calculateCrc_hex payload
  have clean : asterisk ∉ after := fun member => absurd (hex asterisk (by simp [member])) (by decide)
  have small : ∀ c ∈ asterisk :: start, c.val < 256 := by
    intro c member
    rcases List.mem_cons.mp member with rfl | inside
    · decide
    · exact hexDigit_small (hex c (by simp [inside]))
  rw [rpartition_append clean, upper_hexDigits fun c member => hex c (by simp [member])] at checksum
  have lengths := congrArg List.length checksum
  rw [calculateCrc_length small, crc] at lengths
  simp at lengths
  omega

private theorem reject_digit {payload start after : Str} {a b : CodePoint}
    (crc : calculateCrc payload = start ++ a :: after) (different : b ≠ a) (other : b ≠ asterisk)
    (notCase : ¬ ((65 ≤ a.val ∧ a.val ≤ 70) ∧ b.val = a.val + 32)) :
    ¬ Accepts (payload ++ asterisk :: (start ++ b :: after)) := by
  rintro ⟨-, checksum, -⟩
  have hex : ∀ c ∈ start ++ a :: after, HexDigit c := crc ▸ calculateCrc_hex payload
  have clean : asterisk ∉ start ++ b :: after := by
    intro member
    simp only [List.mem_append, List.mem_cons, other.symm, false_or] at member
    exact absurd (hex asterisk (by simpa using member.imp_right .inr)) (by decide)
  rw [rpartition_append clean, crc, upper_append, upper_cons,
    upper_hexDigits fun c member => hex c (by simp [member]),
    upper_hexDigits fun c member => hex c (by simp [member])] at checksum
  have image : upperChar b = [a] :=
    List.append_cancel_right (List.append_cancel_left (checksum.trans (by simp : _ = start ++ ([a] ++ after))))
  have letter : HexDigit a := hex a (by simp)
  rcases upperChar_eq_hexDigit letter image with same | ⟨low, shifted⟩
  · exact different same
  · refine notCase ⟨⟨low, ?_⟩, shifted⟩
    rcases letter with digit | range <;> omega

/-! ### Any place -/

private theorem envelope_tail (sender message checksum : Str) (chunkId batch timestamp : Int) :
    ∃ head tail, join bar colon (envelope sender message checksum chunkId batch timestamp) = head ++ bar :: tail ∧
      asterisk ∉ tail := by
  have digits : ∀ n, asterisk ∉ intText n := not_mem_intText (by decide) (by decide)
  refine ⟨(lit "from" ++ colon :: sender) ++ bar :: ((lit "message" ++ colon :: message) ++ bar ::
      (lit "checksum" ++ colon :: checksum)),
    join bar colon [(lit "chunk_id", intText chunkId), (lit "chunk_batch", intText batch),
      (lit "timestamp", intText timestamp)], ?_, ?_⟩
  · simp only [envelope, join_cons, List.append_assoc, List.cons_append]
  · have keys : asterisk ∉ lit "chunk_id" ∧ asterisk ∉ lit "chunk_batch" ∧ asterisk ∉ lit "timestamp" ∧ asterisk ≠ bar ∧
        asterisk ≠ colon := by decide
    simp [join, List.intercalate, keys, digits]

/-- Replacing any one character of a frame makes it invalid, unless it only
    changes the case of a checksum letter. -/
theorem parseMessage_corrupted {data : Dict Str Value} {sender message checksum raw before after : Str}
    {chunkId batch timestamp : Int} {a b : CodePoint}
    (carries : Carries data sender message checksum chunkId batch timestamp) (prepared : prepare data = .ok raw)
    (place : raw = before ++ a :: after) (different : b ≠ a) (notCase : ¬ CaseSwap raw before a b) :
    (parseMessage (before ++ b :: after)).valid = false := by
  refine (parseMessage_rejected ?_).1
  obtain ⟨-, rfl⟩ := prepare_ok carries prepared
  obtain ⟨head, tail, shape, clean⟩ := envelope_tail sender message checksum chunkId batch timestamp
  rw [CaseSwap, rpartition_framed] at notCase
  rcases position place with ⟨rest, payload, rfl⟩ | ⟨rfl, rfl, rfl⟩ | ⟨start, rfl, crc⟩
  · rw [payload, ← List.cons_append, ← List.append_assoc]
    exact reject_payload different.symm
  · rw [shape]
    exact reject_delimiter clean different
  · by_cases delimiter : b = asterisk
    · rw [delimiter]
      exact reject_early_asterisk crc
    · rw [List.append_assoc, List.cons_append]
      refine reject_digit crc different delimiter fun swap => notCase ⟨?_, swap⟩
      simp

theorem parseMessage_corrupted_node :
    (parseMessage (lit "from:n" ++ CodePoint.ofChar '*' ::
      lit "de1|message:hi|checksum:x|chunk_id:1|chunk_batch:3|timestamp:5*6C")).valid = false :=
  parseMessage_corrupted (carries_dataOf (lit "node1") (lit "hi") (lit "x") 1 3 5) (prepare_eq (carries_dataOf ..))
    (by decide +kernel : _ = lit "from:n" ++ CodePoint.ofChar 'o' :: _) (by decide) (by simp [CaseSwap]; decide +kernel)

end Hde.Corruption
