import Hde.RoundTrip
import Hde.Splitting

/-!
Chunks on the wire. A chunk begins with `|`, the separator of the frame's fields,
so the field `message` of its frame is empty: the receiver's first chunk has the
number 1 and no text (`head_marked`), whatever the chunk carries, and the marshal is
a field without `:`, which the parser skips. So no chunk of any message arrives
(`split_lost`).
-/
namespace Hde.Marshals
open Hde.Text Hde.Dicts Hde.Records Hde.Frames Hde.Grammar Hde.RoundTrip Hde.Utf8 Hde.Splitting

/-- A prepared frame is read back as one chunk with this number and text. -/
def ReadsAs (prepared : Except PyError Str) (id : Int) (message : Str) : Prop :=
  ∃ raw, prepared = .ok raw ∧ (parseMessage raw).valid = true ∧ (parseMessage raw).chunk = [⟨id, message⟩]

/-- The message can be split, and the frame of every chunk is read back as its
    number and its body. -/
def Survives (message sender checksum : Str) (maxSize batch timestamp : Int) : Prop :=
  ∃ chunks, splitIntoChunks message maxSize = .ok chunks ∧
    ∀ (k : Nat) (body : Str), chunks[k]? = some (formatChunk (k + 1) body) →
      ReadsAs (prepare (dataOf sender (formatChunk (k + 1) body) checksum (k + 1) batch timestamp)) (k + 1) body

variable {data : Dict Str Value} {sender body checksum : Str} {id chunkId batch timestamp : Int}

/-- A valid frame of a marked chunk gives an empty chunk first. -/
theorem head_marked (carries : Carries data sender (formatChunk id body) checksum chunkId batch timestamp)
    (wholeSender : bar ∉ sender) (wholeChecksum : bar ∉ checksum) (someBatch : batch ≠ 0)
    (someTimestamp : timestamp ≠ 0) {raw : Str} (prepared : prepare data = .ok raw)
    (valid : (parseMessage raw).valid = true) : (parseMessage raw).chunk.head? = some ⟨1, []⟩ := by
  obtain ⟨⟨batchFits, timestampFits⟩, rfl⟩ := prepare_ok carries prepared
  obtain ⟨readable, named⟩ := (accepts_prepared_iff wholeSender wholeChecksum batchFits timestampFits someBatch
    someTimestamp).mp ((parseMessage_valid_iff _).mp valid)
  rw [parseMessage_prepared wholeSender wholeChecksum batchFits timestampFits someBatch someTimestamp readable named,
    partition_formatChunk]
  simp [values_cons]

theorem not_readsAs (carries : Carries data sender (formatChunk id body) checksum chunkId batch timestamp)
    (wholeSender : bar ∉ sender) (wholeChecksum : bar ∉ checksum) (someBatch : batch ≠ 0)
    (someTimestamp : timestamp ≠ 0) (some_text : body ≠ []) (number : Int) :
    ¬ ReadsAs (prepare data) number body := by
  rintro ⟨raw, prepared, valid, chunk⟩
  have head := head_marked carries wholeSender wholeChecksum someBatch someTimestamp prepared valid
  rw [chunk] at head
  simp only [List.head?_cons, Option.some.injEq, Chunk.mk.injEq] at head
  exact some_text head.2

/-- The elements of a split message: numbered from 1, none of them empty. -/
theorem elements {message : Str} {maxSize : Int} (room : 4 ≤ maxSize) {chunks : List Str}
    (split : splitIntoChunks message maxSize = .ok chunks) {k : Nat} {element : Str}
    (present : chunks[k]? = some element) : ∃ text, element = formatChunk (k + 1) text ∧ text ≠ [] := by
  obtain ⟨-, rfl⟩ := splitIntoChunks_eq_ok_iff.mp split
  obtain ⟨text, found, rfl⟩ := getElem?_marked.mp present
  exact ⟨text, by rw [add_comm], body_ne_nil room (List.mem_of_getElem? found)⟩

theorem chunks_ne_nil {message : Str} {maxSize : Int} (some_message : message ≠ []) {chunks : List Str}
    (split : splitIntoChunks message maxSize = .ok chunks) : chunks ≠ [] := by
  obtain ⟨-, rfl⟩ := splitIntoChunks_eq_ok_iff.mp split
  intro none_left
  have empty : bodies maxSize message = [] := by simpa [marked] using none_left
  exact some_message (bodies_eq_nil_iff.mp empty)

theorem not_split_survives : ¬ ∀ (message sender checksum : Str) (maxSize batch timestamp : Int),
    message ≠ [] → bar ∉ message → 4 ≤ maxSize → sender ≠ [] → bar ∉ sender → checksum ≠ [] → bar ∉ checksum →
    batch ≠ 0 → timestamp ≠ 0 → Survives message sender checksum maxSize batch timestamp := by
  intro claim
  obtain ⟨chunks, split, read⟩ := claim (lit "hello") (lit "node1") (lit "x") 240 3 5 (by decide) (by decide) (by decide)
    (by decide) (by decide) (by decide) (by decide) (by decide) (by decide)
  have single : splitIntoChunks (lit "hello") 240 = .ok [formatChunk 1 (lit "hello")] := by decide +kernel
  rw [single] at split
  cases split
  exact not_readsAs (carries_dataOf ..) (by decide) (by decide) (by decide) (by decide) (by decide) _
    (read 0 (lit "hello") rfl)

/-- No split message survives the wire: the splitter raises, or every one of its
    chunks, of which there is at least one, is lost. -/
theorem split_lost {message sender checksum : Str} {maxSize batch timestamp : Int} (some_message : message ≠ [])
    (room : 4 ≤ maxSize) (wholeSender : bar ∉ sender) (wholeChecksum : bar ∉ checksum) (someBatch : batch ≠ 0)
    (someTimestamp : timestamp ≠ 0) :
    ¬ Survives message sender checksum maxSize batch timestamp ∧
      ∀ chunks, splitIntoChunks message maxSize = .ok chunks → chunks ≠ [] ∧
        ∀ (k : Nat) (element : Str), chunks[k]? = some element →
          ∃ body, element = formatChunk (k + 1) body ∧
            ∀ data, Carries data sender element checksum (k + 1) batch timestamp →
              ¬ ReadsAs (prepare data) (k + 1) body := by
  have lost : ∀ chunks, splitIntoChunks message maxSize = .ok chunks → ∀ (k : Nat) (element : Str),
      chunks[k]? = some element → ∃ body, element = formatChunk (k + 1) body ∧
        ∀ data, Carries data sender element checksum (k + 1) batch timestamp →
          ¬ ReadsAs (prepare data) (k + 1) body := by
    intro chunks split k element present
    obtain ⟨body, rfl, some_text⟩ := elements room split present
    exact ⟨body, rfl, fun data carries =>
      not_readsAs carries wholeSender wholeChecksum someBatch someTimestamp some_text _⟩
  refine ⟨?_, fun chunks split => ⟨chunks_ne_nil some_message split, lost chunks split⟩⟩
  rintro ⟨chunks, split, read⟩
  obtain ⟨first, more, rfl⟩ := List.exists_cons_of_ne_nil (chunks_ne_nil some_message split)
  obtain ⟨body, rfl, unread⟩ := lost _ split 0 first rfl
  exact unread _ (carries_dataOf ..) (read 0 body rfl)

theorem split_lost_hello : ¬ Survives (lit "hé") (lit "node1") (lit "x") 4 3 5 :=
  (split_lost (by decide) (by decide) (by decide) (by decide) (by decide) (by decide)).1

end Hde.Marshals
