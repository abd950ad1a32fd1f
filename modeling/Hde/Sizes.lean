import Hde.Recognition

/-!
The sizes of what `split_into_chunks` returns, in UTF-8 bytes. The bound is checked on
a body before its header is put in front of it, so the chunks respect it only when the
whole message leaves room for the header of the only chunk (`within_exactly`).
`should_it_be_in_batches` compares the message with the bound in the same way as the
splitter, and says whether there are several chunks (`batches_iff_several`).
-/
namespace Hde.Sizes
open Hde.Text Hde.Numerals Hde.Utf8 Hde.Cutting Hde.Splitting Hde.Recognition

variable {message : Str} {maxSize : Int} {chunks : List Str}

/-- `len(s.encode('utf-8'))` of a text of scalar values. -/
def size (s : Str) : Nat := (s.flatMap encodeChar).length

theorem size_append (s t : Str) : size (s ++ t) = size s + size t := by
  simp [size]

theorem encode_size {s : Str} (scalars : ∀ c ∈ s, ¬ Surrogate c) :
    ∃ bytes, encode s = .ok bytes ∧ bytes.length = size s := ⟨_, encode_eq_ok_iff.mpr ⟨scalars, rfl⟩, rfl⟩

theorem fits_iff {body : Str} : Fits maxSize body = true ↔ (size body : Int) ≤ maxSize := by
  rw [Fits, decide_eq_true_eq, size]

theorem size_formatChunk (chunkId : Int) (body : Str) :
    size (formatChunk chunkId body) = size (formatChunk chunkId []) + size body := by
  rw [← size_append, formatChunk, formatChunk, List.append_nil]

/-- A header has four bytes or more. -/
theorem four_le_header (k : Nat) : 4 ≤ size (formatChunk (1 + k) []) := by
  have digits : 1 ≤ (intText (1 + k)).length := by
    rw [intText, if_neg (by omega)]
    exact List.length_pos_iff.mpr (numeral_ne_nil _ _)
  have encoded := length_le_encoded (formatChunk (1 + k) [])
  have opening : (lit "|c").length = 2 ∧ (lit "|").length = 1 := by decide
  rw [size]
  simp only [formatChunk, List.length_append, List.length_nil] at encoded ⊢
  omega

/-- There are several chunks exactly when the message is longer than the bound, whatever
    the bound is. -/
theorem several_chunks_iff (some_text : message ≠ []) (split : splitIntoChunks message maxSize = .ok chunks) :
    1 < chunks.length ↔ maxSize < size message := by
  obtain ⟨-, rfl⟩ := splitIntoChunks_eq_ok_iff.mp split
  rw [marked, List.length_mapIdx, bodies, several_iff fits_part some_text, ← Bool.not_eq_true, fits_iff]
  omega

/-- The empty message has no chunks. -/
theorem chunks_of_nil (split : splitIntoChunks [] maxSize = .ok chunks) : chunks = [] := by
  obtain ⟨-, rfl⟩ := splitIntoChunks_eq_ok_iff.mp split
  rw [bodies_eq_nil_iff.mpr rfl]
  rfl

/-- A message that fits is a single body. -/
theorem bodies_of_fits (some_text : message ≠ []) (fits : (size message : Int) ≤ maxSize) :
    bodies maxSize message = [message] := cut_of_fits fits_part some_text (fits_iff.mpr fits)

/-! ### The bound and the header -/

def Within (maxSize : Int) (chunk : Str) : Prop := ∃ bytes, encode chunk = .ok bytes ∧ (bytes.length : Int) ≤ maxSize

theorem within_iff {chunk : Str} (scalars : ∀ c ∈ chunk, ¬ Surrogate c) :
    Within maxSize chunk ↔ (size chunk : Int) ≤ maxSize := by
  obtain ⟨bytes, encoded, same⟩ := encode_size scalars
  rw [Within, encoded, ← same]
  exact ⟨fun ⟨_, equal, fits⟩ => (Except.ok.inj equal) ▸ fits, fun fits => ⟨bytes, rfl, fits⟩⟩

/-- A chunk that another one follows is too long: its body is full up to one character. -/
theorem not_within_of_next {k : Nat} {chunk : Str} (split : splitIntoChunks message maxSize = .ok chunks)
    (element : chunks[k]? = some chunk) (more : k + 1 < chunks.length) : ¬ Within maxSize chunk := by
  obtain ⟨body, found, rfl, -, scalars, count⟩ := chunk_spec split element
  obtain ⟨a, tail, -, full⟩ := cut_next found (List.getElem?_eq_getElem (by rw [count] at more; exact more))
  have letter := (length_encodeChar a).2
  have header := four_le_header k
  rw [← Bool.not_eq_true, fits_iff, size_append] at full
  rw [within_iff scalars, size_formatChunk]
  have last : size [a] = (encodeChar a).length := by simp [size]
  omega

/-- The chunks respect the bound exactly when the message is empty or leaves room for
    the header of a single chunk. -/
theorem within_exactly (split : splitIntoChunks message maxSize = .ok chunks)
    (room : ∀ k < chunks.length, (size (formatChunk (1 + k) []) : Int) + 4 ≤ maxSize) :
    (∀ chunk ∈ chunks, Within maxSize chunk) ↔ message = [] ∨ (size message : Int) + 4 ≤ maxSize := by
  obtain ⟨scalars, marks⟩ := splitIntoChunks_eq_ok_iff.mp split
  have header : size (formatChunk 1 []) = 4 := by decide
  by_cases empty : message = []
  · subst empty
    obtain rfl := chunks_of_nil split
    exact ⟨fun _ => .inl rfl, fun _ chunk member => by cases member⟩
  · by_cases fits : (size message : Int) ≤ maxSize
    · have single : chunks = [formatChunk 1 message] := by
        rw [marks, bodies_of_fits empty fits]
        rfl
      have sum := size_formatChunk 1 message
      simp only [single, List.mem_singleton, forall_eq, within_iff (scalars_formatChunk scalars), empty, false_or]
      omega
    · have several := (several_chunks_iff empty split).mpr (by omega)
      have first := List.getElem?_eq_getElem (by omega : 0 < chunks.length)
      have long := not_within_of_next split first several
      constructor
      · intro all
        exact absurd (all _ (List.mem_of_getElem? first)) long
      · rintro (none_left | short)
        · exact absurd none_left empty
        · omega

private theorem room_in_eight {chunk : Str} {k : Nat} (single : k < [chunk].length) :
    (size (formatChunk (1 + k) []) : Int) + 4 ≤ 8 := by
  obtain rfl : k = 0 := by simpa using single
  decide

/-- Four characters in chunks of at most eight bytes. -/
theorem within_exactly_four : Within 8 (lit "|c1|abcd") := by
  have split : splitIntoChunks (lit "abcd") 8 = .ok [lit "|c1|abcd"] := by decide
  exact (within_exactly split fun _ => room_in_eight).mpr (.inr (by decide)) _ (List.mem_singleton.mpr rfl)

/-- Five characters in a chunk of nine bytes. -/
theorem not_within : ¬ ∀ (message : Str) (maxSize : Int) (chunks : List Str),
    splitIntoChunks message maxSize = .ok chunks →
    (∀ k < chunks.length, (size (formatChunk (1 + k) []) : Int) + 4 ≤ maxSize) →
    ∀ chunk ∈ chunks, Within maxSize chunk := by
  intro claim
  have split : splitIntoChunks (lit "abcde") 8 = .ok [lit "|c1|abcde"] := by decide
  have within := claim _ _ _ split (fun _ => room_in_eight) _ (List.mem_singleton.mpr rfl)
  rw [within_iff (by decide)] at within
  exact absurd within (by decide)

/-! ### Whether to send in batches -/

/-- The keys of a batch that `should_it_be_in_batches` reads. -/
structure Batch where
  chunks : Option (List Str)
  message : Option Str

/-- `Parser.should_it_be_in_batches`. -/
def shouldItBeInBatches (batch : Batch) (maxChunkSize : Int) : Except UnicodeEncodeError Bool := do
  let encoded ← (batch.chunks.getD []).mapM encode
  let chunkSize := (encoded.map List.length).sum
  let totalSize := (← encode (batch.message.getD [])).length
  if chunkSize ≤ 0 ∨ totalSize ≤ 0 then return false
  if (totalSize : Int) > maxChunkSize then return true
  return false

theorem mapM_encode {texts : List Str} (scalars : ∀ s ∈ texts, ∀ c ∈ s, ¬ Surrogate c) :
    texts.mapM encode = .ok (texts.map fun s => s.flatMap encodeChar) := by
  induction texts with
  | nil => rfl
  | cons s rest ih =>
    have own : encode s = .ok (s.flatMap encodeChar) := encode_eq_ok_iff.mpr ⟨scalars s (by simp), rfl⟩
    rw [List.mapM_cons, own, ih fun t member => scalars t (by simp [member])]
    rfl

/-- On texts of scalar values: whether there is something in the chunks and in the
    message, and the message is too long. -/
theorem shouldItBeInBatches_eq (scalars : ∀ c ∈ message, ¬ Surrogate c)
    (all_scalars : ∀ chunk ∈ chunks, ∀ c ∈ chunk, ¬ Surrogate c) (maxChunkSize : Int) :
    shouldItBeInBatches ⟨some chunks, some message⟩ maxChunkSize =
      .ok (decide (0 < (chunks.map size).sum ∧ 0 < size message ∧ maxChunkSize < size message)) := by
  have own : encode message = .ok (message.flatMap encodeChar) := encode_eq_ok_iff.mpr ⟨scalars, rfl⟩
  rw [shouldItBeInBatches]
  simp only [Option.getD_some, mapM_encode all_scalars, own]
  show (if ((chunks.map fun s => s.flatMap encodeChar).map List.length).sum ≤ 0 ∨ size message ≤ 0 then Except.ok false
    else if (size message : Int) > maxChunkSize then Except.ok true else Except.ok false) = _
  rw [List.map_map, show List.length ∘ (fun s : Str => s.flatMap encodeChar) = size from rfl]
  by_cases empty : (chunks.map size).sum ≤ 0 ∨ size message ≤ 0
  · rw [if_pos empty, decide_eq_false (by omega)]
  · rw [if_neg empty]
    by_cases long : (size message : Int) > maxChunkSize
    · rw [if_pos long, decide_eq_true (by omega)]
    · rw [if_neg long, decide_eq_false (by omega)]

/-- The decision agrees with the splitter for every message and every bound. -/
theorem batches_iff_several (scalars : ∀ c ∈ message, ¬ Surrogate c) (maxSize : Int) :
    ∃ chunks, splitIntoChunks message maxSize = .ok chunks ∧
      shouldItBeInBatches ⟨some chunks, some message⟩ maxSize = .ok (decide (1 < chunks.length)) := by
  obtain ⟨chunks, split⟩ : ∃ chunks, splitIntoChunks message maxSize = .ok chunks :=
    ⟨_, splitIntoChunks_eq_ok_iff.mpr ⟨scalars, rfl⟩⟩
  have all_scalars : ∀ chunk ∈ chunks, ∀ c ∈ chunk, ¬ Surrogate c := by
    intro chunk member
    obtain ⟨k, element⟩ := List.mem_iff_getElem?.mp member
    obtain ⟨_, _, _, _, own, _⟩ := chunk_spec split element
    exact own
  refine ⟨chunks, split, ?_⟩
  rw [shouldItBeInBatches_eq scalars all_scalars]
  refine congrArg Except.ok (decide_eq_decide.mpr ?_)
  obtain ⟨-, marks⟩ := splitIntoChunks_eq_ok_iff.mp split
  by_cases empty : message = []
  · subst empty
    obtain rfl := chunks_of_nil split
    simp
  · have some_size : 0 < size message := by
      have some_length := List.length_pos_iff.mpr empty
      have encoded := length_le_encoded message
      rw [size]
      omega
    have some_chunk : 0 < (chunks.map size).sum := by
      obtain ⟨body, more, cut⟩ := List.exists_cons_of_ne_nil (mt bodies_eq_nil_iff.mp empty)
      have header := four_le_header 0
      rw [marks, cut, marked_cons, List.map_cons, List.sum_cons, size_formatChunk]
      rw [Nat.cast_zero, add_zero] at header
      omega
    rw [several_chunks_iff empty split]
    exact ⟨fun both => both.2.2, fun long => ⟨some_chunk, some_size, long⟩⟩

/-- Eight bytes in chunks of at most four. -/
theorem batches_iff_several_eight : ∃ chunks, splitIntoChunks (lit "abcdefgh") 4 = .ok chunks ∧
    shouldItBeInBatches ⟨some chunks, some (lit "abcdefgh")⟩ 4 = .ok (decide (1 < chunks.length)) :=
  batches_iff_several (by decide) 4

example : shouldItBeInBatches ⟨none, some (lit "abcdefgh")⟩ 4 = .ok false := by decide

end Hde.Sizes
