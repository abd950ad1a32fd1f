import Hde.Cutting
import Hde.Frames
import Hde.Utf8

/-!
`Parser.split_into_chunks` and `Parser.format_chunk`. The splitter measures a chunk
in UTF-8 bytes before it adds a character, so it raises on a message with a lone
surrogate and cuts every other message greedily into bodies, each behind a marshal
with its number (`splitIntoChunks_eq_ok_iff`). The bodies are as few as there can be
(`split_fewest`).
-/
namespace Hde.Splitting
open Hde.Text Hde.Numerals Hde.Utf8 Hde.Cutting Hde.Frames

/-- `Parser.format_chunk`. -/
def formatChunk (chunkId : Int) (message : Str) : Str := lit "|c" ++ intText chunkId ++ lit "|" ++ message

theorem formatChunk_eq (chunkId : Int) (message : Str) :
    formatChunk chunkId message = bar :: (CodePoint.ofChar 'c' :: intText chunkId ++ bar :: message) := by
  simp [formatChunk, lit, bar]

/-- The first `|` of a chunk is its first character. -/
theorem partition_formatChunk (chunkId : Int) (message : Str) :
    partition bar (formatChunk chunkId message) = ([], CodePoint.ofChar 'c' :: intText chunkId ++ bar :: message) := by
  rw [formatChunk_eq]
  exact partition_append List.not_mem_nil _

/-- The local variables of `split_into_chunks`. -/
structure Locals where
  chunks : List Str := []
  currentChunk : Str := []
  chunkId : Int := 1

/-- One round of the loop over the message. -/
def splitStep (maxSize : Int) (s : Locals) (char : CodePoint) : Except UnicodeEncodeError Locals := do
  let bytes ← encode (s.currentChunk ++ [char])
  if (bytes.length : Int) > maxSize then
    return ⟨s.chunks ++ [formatChunk s.chunkId s.currentChunk], [char], s.chunkId + 1⟩
  else return { s with currentChunk := s.currentChunk ++ [char] }

/-- What is left in `current_chunk` after the loop is the last chunk. -/
def Locals.finish (s : Locals) : List Str :=
  if s.currentChunk ≠ [] then s.chunks ++ [formatChunk s.chunkId s.currentChunk] else s.chunks

/-- `Parser.split_into_chunks`. -/
def splitIntoChunks (message : Str) (maxSize : Int) : Except UnicodeEncodeError (List Str) :=
  (message.foldlM (splitStep maxSize) {}).map Locals.finish

/-! ### The bodies -/

def Fits (maxSize : Int) (body : Str) : Bool := ((body.flatMap encodeChar).length : Int) ≤ maxSize

/-- What the chunks carry. -/
def bodies (maxSize : Int) (message : Str) : List Str := cut (Fits maxSize) [] message

/-- Chunks with the numbers from `first` on. -/
def marked (first : Int) (bodies : List Str) : List Str := bodies.mapIdx fun k body => formatChunk (first + k) body

theorem marked_cons (first : Int) (body : Str) (more : List Str) :
    marked first (body :: more) = formatChunk first body :: marked (first + 1) more := by
  simp only [marked, List.mapIdx_cons, Nat.cast_zero, add_zero, List.cons.injEq, true_and]
  congr 1
  funext k text
  rw [Nat.cast_add, Nat.cast_one, add_assoc, add_comm (1 : Int)]

theorem getElem?_marked {first : Int} {bodies : List Str} {k : Nat} {chunk : Str} :
    (marked first bodies)[k]? = some chunk ↔ ∃ body, bodies[k]? = some body ∧ chunk = formatChunk (first + k) body := by
  rw [marked, List.getElem?_mapIdx, Option.map_eq_some_iff]
  exact exists_congr fun body => and_congr_right fun _ => eq_comm

private theorem encode_scalars {s : Str} (scalars : ∀ c ∈ s, ¬ Surrogate c) :
    encode s = .ok (s.flatMap encodeChar) := encode_eq_ok_iff.mpr ⟨scalars, rfl⟩

/-- The rest of the loop, from any of its states. -/
private theorem splitIntoChunks_from {maxSize : Int} {rest : Str} {s : Locals}
    (begun : ∀ c ∈ s.currentChunk, ¬ Surrogate c) (scalars : ∀ c ∈ rest, ¬ Surrogate c) :
    (rest.foldlM (splitStep maxSize) s).map Locals.finish =
      .ok (s.chunks ++ marked s.chunkId (cut (Fits maxSize) s.currentChunk rest)) := by
  induction rest generalizing s with
  | nil =>
    obtain ⟨chunks, current, number⟩ := s
    cases current with
    | nil => simp [Locals.finish, cut, marked, Except.map, pure, Except.pure]
    | cons c more => simp [Locals.finish, cut, marked, Except.map, pure, Except.pure]
  | cons c rest ih =>
    have later : ∀ d ∈ rest, ¬ Surrogate d := fun d member => scalars d (by simp [member])
    have own : ¬ Surrogate c := scalars c (by simp)
    have grown : ∀ d ∈ s.currentChunk ++ [c], ¬ Surrogate d := by
      simpa [or_imp, forall_and, own] using begun
    have measured : splitStep maxSize s c =
        if Fits maxSize (s.currentChunk ++ [c]) then .ok { s with currentChunk := s.currentChunk ++ [c] }
        else .ok ⟨s.chunks ++ [formatChunk s.chunkId s.currentChunk], [c], s.chunkId + 1⟩ := by
      rw [splitStep, encode_scalars grown]
      by_cases fits : (((s.currentChunk ++ [c]).flatMap encodeChar).length : Int) ≤ maxSize
      · simp only [Fits, fits, decide_true, if_true]
        exact if_neg (by omega)
      · simp only [Fits, fits, decide_false]
        exact if_pos (by omega)
    rw [List.foldlM_cons, measured, cut]
    split
    · exact ih grown later
    · have single : ∀ d ∈ [c], ¬ Surrogate d := by simpa using own
      have next := ih (s := ⟨s.chunks ++ [formatChunk s.chunkId s.currentChunk], [c], s.chunkId + 1⟩) single later
      rw [List.append_assoc, List.singleton_append, ← marked_cons] at next
      exact next

/-- A loop that ends has encoded every character. -/
private theorem scalars_of_foldlM {maxSize : Int} {rest : Str} {s t : Locals}
    (ended : rest.foldlM (splitStep maxSize) s = .ok t) : ∀ c ∈ rest, ¬ Surrogate c := by
  induction rest generalizing s with
  | nil => simp
  | cons c rest ih =>
    rw [List.foldlM_cons] at ended
    cases measured : encode (s.currentChunk ++ [c]) with
    | error e =>
      rw [splitStep, measured] at ended
      cases ended
    | ok bytes =>
      have own : ¬ Surrogate c := (encode_eq_ok_iff.mp measured).1 c (by simp)
      cases stepped : splitStep maxSize s c with
      | error e =>
        rw [stepped] at ended
        cases ended
      | ok next =>
        rw [stepped] at ended
        simpa [own] using ih ended

/-- The splitter raises on a lone surrogate, and otherwise marks the bodies that
    greedy cutting gives. -/
theorem splitIntoChunks_eq_ok_iff {message : Str} {maxSize : Int} {chunks : List Str} :
    splitIntoChunks message maxSize = .ok chunks ↔
      (∀ c ∈ message, ¬ Surrogate c) ∧ chunks = marked 1 (bodies maxSize message) := by
  have split : (∀ c ∈ message, ¬ Surrogate c) →
      splitIntoChunks message maxSize = .ok (marked 1 (bodies maxSize message)) :=
    fun scalars => splitIntoChunks_from (s := {}) (by simp) scalars
  constructor
  · intro ended
    have scalars : ∀ c ∈ message, ¬ Surrogate c := by
      cases loop : message.foldlM (splitStep maxSize) {} with
      | error e =>
        rw [splitIntoChunks, loop] at ended
        cases ended
      | ok t => exact scalars_of_foldlM loop
    rw [split scalars] at ended
    exact ⟨scalars, by cases ended; rfl⟩
  · rintro ⟨scalars, rfl⟩
    exact split scalars

theorem flatten_bodies (maxSize : Int) (message : Str) : (bodies maxSize message).flatten = message :=
  flatten_cut _ _ _

theorem fits_single {maxSize : Int} {c : CodePoint} :
    Fits maxSize [c] = true ↔ ((encodeChar c).length : Int) ≤ maxSize := by
  simp [Fits]

/-- The parts of a body that fits fit as well. -/
theorem fits_part {maxSize : Int} (body inside : Str) (fits : Fits maxSize body = true) (part : inside <:+: body) :
    Fits maxSize inside = true := by
  obtain ⟨before, after, rfl⟩ := part
  simp only [Fits, List.flatMap_append, List.length_append, decide_eq_true_eq] at fits ⊢
  omega

section Bodies
variable {message : Str} {maxSize : Int}

/-- Once every character fits, no body is empty and every body fits. -/
theorem body_spec (room : ∀ c ∈ message, ((encodeChar c).length : Int) ≤ maxSize) {body : Str}
    (member : body ∈ bodies maxSize message) : body ≠ [] ∧ Fits maxSize body = true := by
  have single : ∀ c ∈ message, Fits maxSize [c] = true := fun c inside => fits_single.mpr (room c inside)
  exact ⟨ne_nil_of_mem_cut single member, fits_of_mem_cut single (.inl rfl) member⟩

/-- From four bytes on every character fits. -/
theorem room_of_four (room : 4 ≤ maxSize) : ∀ c ∈ message, ((encodeChar c).length : Int) ≤ maxSize := by
  intro c _
  have short := (length_encodeChar c).2
  omega

theorem body_ne_nil (room : 4 ≤ maxSize) {body : Str} (member : body ∈ bodies maxSize message) : body ≠ [] :=
  (body_spec (room_of_four room) member).1

theorem bodies_eq_nil_iff : bodies maxSize message = [] ↔ message = [] := by
  constructor
  · intro none_left
    rw [← flatten_bodies maxSize message, none_left, List.flatten_nil]
  · rintro rfl
    rfl

/-- A text of scalar values whose characters fit is cut into numbered chunks that
    fit, with nothing lost, and into as few of them as there can be. -/
theorem split_fewest (scalars : ∀ c ∈ message, ¬ Surrogate c)
    (room : ∀ c ∈ message, ((encodeChar c).length : Int) ≤ maxSize) :
    ∃ pieces : List Str,
      splitIntoChunks message maxSize = .ok (pieces.mapIdx fun k body => formatChunk (k + 1) body) ∧
        (∀ body ∈ pieces, body ≠ [] ∧ Fits maxSize body = true) ∧ pieces.flatten = message ∧
        (∀ others : List Str, others.flatten = message → (∀ body ∈ others, Fits maxSize body = true) →
          pieces.length ≤ others.length) ∧
        (pieces.length = 0 ↔ message = []) := by
  refine ⟨bodies maxSize message, ?_, fun body => body_spec room, flatten_bodies maxSize message, ?_, ?_⟩
  · refine splitIntoChunks_eq_ok_iff.mpr ⟨scalars, ?_⟩
    simp only [marked, add_comm]
  · intro others whole all_fit
    have single : ∀ c ∈ message, Fits maxSize [c] = true := fun c inside => fits_single.mpr (room c inside)
    exact length_cut_le fits_part single whole all_fit
  · rw [List.length_eq_zero_iff]
    exact bodies_eq_nil_iff

/-- Four characters of one to four bytes in chunks of four bytes. -/
theorem split_fewest_four : ∃ pieces : List Str,
    splitIntoChunks (lit "aé€😀") 4 = .ok (pieces.mapIdx fun k body => formatChunk (k + 1) body) ∧
      pieces.flatten = lit "aé€😀" ∧
      ∀ others : List Str, others.flatten = lit "aé€😀" → (∀ body ∈ others, Fits 4 body = true) →
        pieces.length ≤ others.length := by
  have scalars : ∀ c ∈ lit "aé€😀", ¬ Surrogate c := by decide
  have room : ∀ c ∈ lit "aé€😀", ((encodeChar c).length : Int) ≤ 4 := by decide
  obtain ⟨pieces, split, -, whole, fewest, -⟩ := split_fewest scalars room
  exact ⟨pieces, split, whole, fewest⟩

end Bodies
end Hde.Splitting
