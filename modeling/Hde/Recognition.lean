import Hde.Heard
import Hde.Splitting

/-!
`is_it_in_batches` on the chunks of `split_into_chunks`. It looks for the headers with
the numbers from 1 to 999, and the splitter numbers chunks without bound. With a longer
header every full chunk is too long and recognised by that, so that only the last one
can be overlooked (`recognised_exactly`).
-/
namespace Hde.Recognition
open Hde.Text Hde.Numerals Hde.Utf8 Hde.Cutting Hde.Frames Hde.JsonText Hde.RoundTrip Hde.Splitting Hde.Heard

/-- The header of a chunk, with a number that is looked for. -/
def Marked (s : Str) : Prop := ∃ j : Int, 1 ≤ j ∧ j ≤ 999 ∧ formatChunk j [] <:+: s

variable {s : Str} {message : Str} {maxSize : Int}

theorem formatChunk_nil (j : Nat) : formatChunk j [] = lit "|c" ++ numeral 10 j ++ lit "|" := by
  have positive : ¬ (j : Int) < 0 := by omega
  simp [formatChunk, intText, positive]

/-- The search for one of the headers. -/
def headerFound (s : Str) : Bool := (List.range 999).any fun i => lit "|c" ++ numeral 10 (i + 1) ++ lit "|" <:+: s

theorem headerFound_iff : headerFound s = true ↔ Marked s := by
  simp only [headerFound, List.any_eq_true, List.mem_range, decide_eq_true_eq]
  constructor
  · rintro ⟨i, small, inside⟩
    refine ⟨(i + 1 : Nat), by omega, by omega, ?_⟩
    rwa [formatChunk_nil]
  · rintro ⟨j, positive, bound, inside⟩
    obtain ⟨i, rfl⟩ : ∃ i : Nat, j = (i + 1 : Nat) := ⟨(j - 1).toNat, by omega⟩
    rw [formatChunk_nil] at inside
    exact ⟨i, by omega, inside⟩

/-- On a text of scalar values: whether one of the headers is found, and else whether
    the text is too long. -/
theorem isItInBatches_str (some_text : s ≠ []) (scalars : ∀ c ∈ s, ¬ Surrogate c) (maxSize : Int) :
    isItInBatches (.str s) maxSize = .ok (headerFound s || decide (maxSize < (s.flatMap encodeChar).length)) := by
  have measured : encodedLength (.str s) = .ok (s.flatMap encodeChar).length := by
    rw [encodedLength, encode_eq_ok_iff.mpr ⟨scalars, rfl⟩]
  have searched : (List.range 999).anyM (fun i => mentions (.str s) (lit "|c" ++ numeral 10 (i + 1) ++ lit "|")) =
      .ok (headerFound s) := by
    show List.anyM (fun i => pure (decide (lit "|c" ++ numeral 10 (i + 1) ++ lit "|" <:+: s))) _ = _
    rw [List.anyM_pure]
    rfl
  have truthy : ¬ ¬ (Json.str s).truthy = true := by simpa [Json.truthy] using some_text
  rw [isItInBatches, if_neg truthy]
  show (List.anyM _ _ >>= _) = _
  rw [searched]
  cases headerFound s with
  | true => rfl
  | false =>
    show (encodedLength (.str s) >>= _) = _
    rw [measured]
    rfl

/-! ### The chunks of the splitter -/

theorem scalars_formatChunk {chunkId : Int} {body : Str} (scalars : ∀ c ∈ body, ¬ Surrogate c) :
    ∀ c ∈ formatChunk chunkId body, ¬ Surrogate c := by
  intro c member
  simp only [formatChunk, List.mem_append] at member
  rcases member with ((opening | number) | closing) | inside
  · exact (by decide : ∀ c ∈ lit "|c", ¬ Surrogate c) c opening
  · rcases mem_intText number with rfl | digit
    · decide
    · unfold Surrogate
      omega
  · exact (by decide : ∀ c ∈ lit "|", ¬ Surrogate c) c closing
  · exact scalars c inside

theorem length_le_encoded (s : Str) : s.length ≤ (s.flatMap encodeChar).length := by
  induction s with
  | nil => exact Nat.le_refl 0
  | cons c rest ih =>
    have own := (length_encodeChar c).1
    rw [List.flatMap_cons, List.length_append, List.length_cons]
    omega

/-- From the number 1000 on a header has seven characters or more. -/
theorem length_formatChunk_of_large {chunkId : Int} (large : 1000 ≤ chunkId) (body : Str) :
    (body.flatMap encodeChar).length + 7 ≤ ((formatChunk chunkId body).flatMap encodeChar).length := by
  have digits : 4 ≤ (intText chunkId).length := by
    have positive : ¬ chunkId < 0 := by omega
    have some_number : chunkId.natAbs ≠ 0 := by omega
    rw [intText, if_neg positive, numeral, if_neg some_number, List.length_map, List.length_reverse]
    exact (Nat.lt_digits_length_iff (by omega) _).mpr (by omega)
  have encoded := length_le_encoded (lit "|c" ++ intText chunkId ++ lit "|")
  have opening : (lit "|c").length = 2 ∧ (lit "|").length = 1 := by decide
  rw [formatChunk, List.flatMap_append, List.length_append]
  simp only [List.length_append] at encoded
  omega

/-- The header of a chunk occurs at the head of another chunk, or in its body. -/
theorem header_infix_iff {j k : Int} {body : Str} :
    formatChunk j [] <:+: formatChunk k body ↔ j = k ∨ formatChunk j [] <:+: bar :: body := by
  have letter : bar ≠ CodePoint.ofChar 'c' := by decide
  rw [formatChunk_eq j, formatChunk_eq k, List.infix_cons_iff]
  refine or_congr ?_ ?_
  · constructor
    · rintro ⟨after, same⟩
      simp only [List.cons_append, List.cons.injEq, true_and, List.append_assoc, List.nil_append] at same
      have parts := congrArg (partition bar) same
      rw [partition_append (bar_not_mem_intText j), partition_append (bar_not_mem_intText k)] at parts
      exact intText_injective (Prod.mk.inj parts).1
    · rintro rfl
      exact ⟨body, by simp⟩
  · refine infix_append_clean ?_
    simp [letter, bar_not_mem_intText k]

/-- The last chunk, when the recogniser does not look for its number, allows its bytes
    and finds no other header in it. -/
structure Overlooked (chunks : List Str) (maxSize : Int) (k : Nat) (chunk : Str) : Prop where
  last : k + 1 = chunks.length
  large : 1000 ≤ k + 1
  short : ((chunk.flatMap encodeChar).length : Int) ≤ maxSize
  unmarked : ¬ Marked chunk

/-- A chunk of the splitter: a body behind a header. -/
theorem chunk_spec {chunks : List Str} (split : splitIntoChunks message maxSize = .ok chunks) {k : Nat} {chunk : Str}
    (element : chunks[k]? = some chunk) :
    ∃ body, (bodies maxSize message)[k]? = some body ∧ chunk = formatChunk (1 + k) body ∧
      chunk ≠ [] ∧ (∀ c ∈ chunk, ¬ Surrogate c) ∧ chunks.length = (bodies maxSize message).length := by
  obtain ⟨scalars, rfl⟩ := splitIntoChunks_eq_ok_iff.mp split
  obtain ⟨body, found, rfl⟩ := getElem?_marked.mp element
  refine ⟨body, found, rfl, by simp [formatChunk_eq], scalars_formatChunk ?_, by simp [marked]⟩
  intro c inside
  refine scalars c ?_
  rw [← flatten_bodies maxSize message]
  exact List.mem_flatten.mpr ⟨body, List.mem_of_getElem? found, inside⟩

/-- Every chunk but the last one is recognised, whatever its number: it is full, so that
    with a long header it is too long. -/
theorem too_long_of_not_last {k : Nat} {body : Str} (found : (bodies maxSize message)[k]? = some body)
    (more : k + 1 < (bodies maxSize message).length) (large : 1000 ≤ k + 1) :
    maxSize < ((formatChunk (1 + k) body).flatMap encodeChar).length := by
  obtain ⟨a, tail, -, full⟩ := cut_next found (List.getElem?_eq_getElem more)
  have letter := (length_encodeChar a).2
  have header := length_formatChunk_of_large (by omega : (1000 : Int) ≤ 1 + k) body
  simp only [Fits, List.flatMap_append, List.length_append, List.flatMap_singleton, decide_eq_false_iff_not] at full
  omega

/-- The chunks of the splitter are recognised, but for the last one where it is
    overlooked. -/
theorem recognised_exactly {chunks : List Str} (split : splitIntoChunks message maxSize = .ok chunks) {k : Nat}
    {chunk : Str} (element : chunks[k]? = some chunk) :
    (¬ Overlooked chunks maxSize k chunk → isItInBatches (.str chunk) maxSize = .ok true) ∧
      (Overlooked chunks maxSize k chunk → isItInBatches (.str chunk) maxSize = .ok false) := by
  obtain ⟨body, found, rfl, some_text, scalars, count⟩ := chunk_spec split element
  rw [isItInBatches_str some_text scalars]
  constructor
  · intro seen
    by_cases marked : Marked (formatChunk (1 + k) body)
    · rw [headerFound_iff.mpr marked]
      rfl
    · by_cases long : maxSize < ((formatChunk (1 + k) body).flatMap encodeChar).length
      · rw [decide_eq_true long, Bool.or_true]
      · have large : 1000 ≤ k + 1 := by
          by_contra small
          refine marked ⟨1 + k, by omega, by omega, ?_⟩
          exact header_infix_iff.mpr (.inl rfl)
        have inside : k < (bodies maxSize message).length := (List.getElem?_eq_some_iff.mp found).1
        refine absurd ⟨?_, large, by omega, marked⟩ seen
        by_contra more
        exact long (too_long_of_not_last found (by omega) large)
  · rintro ⟨-, -, short, unmarked⟩
    have no_header : headerFound (formatChunk (1 + k) body) = false := by
      rw [← Bool.not_eq_true, headerFound_iff]
      exact unmarked
    have fits : ¬ maxSize < ((formatChunk (1 + k) body).flatMap encodeChar).length := by omega
    rw [no_header, decide_eq_false fits]
    rfl

theorem recognised_exactly_hello : isItInBatches (.str (lit "|c2|world")) 6 = .ok true := by
  have split : splitIntoChunks (lit "hello world") 6 = .ok [lit "|c1|hello ", lit "|c2|world"] := by decide
  have element : [lit "|c1|hello ", lit "|c2|world"][1]? = some (lit "|c2|world") := rfl
  refine (recognised_exactly split element).1 ?_
  rintro ⟨-, large, -, -⟩
  omega

/-- 999 chunks of eight bytes and one of a single byte. -/
def thousand : Str := List.replicate 7993 (CodePoint.ofChar 'a')

theorem thousand_bodies : (bodies 8 thousand)[999]? = some (lit "a") := by decide +kernel

theorem thousand_overlooked : ¬ ∀ (message : Str) (maxSize : Int), 4 ≤ maxSize → ∀ chunks,
    splitIntoChunks message maxSize = .ok chunks → ∀ chunk ∈ chunks, isItInBatches (.str chunk) maxSize = .ok true := by
  intro claim
  have scalars : ∀ c ∈ thousand, ¬ Surrogate c := by
    intro c member
    rw [List.eq_of_mem_replicate member]
    decide
  have element : (marked 1 (bodies 8 thousand))[999]? = some (formatChunk 1000 (lit "a")) :=
    getElem?_marked.mpr ⟨lit "a", thousand_bodies, rfl⟩
  have recognised := claim thousand 8 (by decide) _ (splitIntoChunks_eq_ok_iff.mpr ⟨scalars, rfl⟩) _
    (List.mem_of_getElem? element)
  have unmarked : ¬ Marked (formatChunk 1000 (lit "a")) := by
    rintro ⟨j, positive, bound, inside⟩
    rcases header_infix_iff.mp inside with rfl | inside
    · omega
    · have short := inside.length_le
      have letters : (lit "|c").length = 2 ∧ (lit "|").length = 1 ∧ (lit "a").length = 1 := by decide
      simp only [formatChunk, List.length_append, List.length_cons, List.length_nil] at short
      omega
  have no_header : headerFound (formatChunk 1000 (lit "a")) = false := by
    rw [← Bool.not_eq_true, headerFound_iff]
    exact unmarked
  rw [isItInBatches_str (by decide) (scalars_formatChunk (by decide)), no_header] at recognised
  exact absurd recognised (by decide)

end Hde.Recognition
