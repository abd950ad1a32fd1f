import Hde.Pieces
import Hde.SaveFiles
import Hde.Splitting

/-!
Saving the chunks of a message and putting them together again. The reader takes a text
with `|c` in it for a chunk behind a header and removes what comes before the first `|`
and no more. Of a chunk with a header that is nothing, so that only the empty message is
restored (`split_restores_exactly`); plain pieces are restored as long as no piece looks
like such a chunk and the file can be opened for each (`plain_restores_exactly`).
-/
namespace Hde.Restoring
open Hde.Text Hde.Numerals Hde.Cutting Hde.LastWrites Hde.Machines Hde.Frames Hde.Saves Hde.Files Hde.Splitting
  Hde.Pieces Hde.SaveFiles

/-! ### Chunks under their numbers -/

/-- The saves of chunks under the numbers from 1 on. -/
def numbered (chunks : List Str) : List (Int × Str) := chunks.mapIdx fun k chunk => ((k : Int) + 1, chunk)

/-- A call that saves this text; `opening` is what `open` raises then, by the number of
    the text. -/
def saving (opening : Int → Option Failure) (entry : Int × Str) : SaveCall := ⟨entry.1, entry.2, opening entry.1⟩

/-- In whatever order these saves are made, each of them returns and the message is put
    together from them. -/
def Restores (i : Interpreter) (opening : Int → Option Failure) (disk : Disk) (sender timestamp batch : Arg)
    (saves : List (Int × Str)) (message : Str) : Prop :=
  ∀ order : List (Int × Str), order.Perm saves →
    (∀ call answer, (call, answer) ∈ answers (save i sender timestamp batch) disk (order.map (saving opening)) →
      answer = .ok ()) ∧
    SaveFiles.reassembleChunks i (after (save i sender timestamp batch) disk (order.map (saving opening))) sender
      timestamp batch = .ok message

variable {i : Interpreter} {opening : Int → Option Failure} {disk : Disk} {sender timestamp batch : Arg}
  {chunks : List Str} {message : Str}

theorem numbered_ids (chunks : List Str) : ((numbered chunks).map Prod.fst).Pairwise (· < ·) := by
  rw [List.pairwise_iff_getElem]
  intro j k inside inside' before
  simp only [numbered, List.getElem_map, List.getElem_mapIdx]
  omega

theorem numbered_texts (chunks : List Str) : (numbered chunks).map Prod.snd = chunks := by
  apply List.ext_getElem?
  intro k
  rw [List.getElem?_map, numbered, List.getElem?_mapIdx]
  cases chunks[k]? <;> rfl

theorem inIdOrder_numbered {order : List (Int × Str)} (perm : order.Perm (numbered chunks)) :
    inIdOrder order = chunks.flatMap stripMarshal := by
  have ascending := numbered_ids chunks
  rw [inIdOrder, lastInOrder_perm (ascending.imp ne_of_lt) perm, lastInOrder_sorted ascending, numbered_texts]

/-- The numbers are those from 1 on. -/
theorem numbered_forall {p : Int → Prop} :
    (∀ entry ∈ numbered chunks, p entry.1) ↔ ∀ k : Int, 1 ≤ k → k ≤ chunks.length → p k := by
  constructor
  · intro all k positive short
    obtain ⟨j, place⟩ := Int.eq_ofNat_of_zero_le (by omega : 0 ≤ k - 1)
    obtain rfl : k = j + 1 := by omega
    have inside : j < (numbered chunks).length := by
      simp only [numbered, List.length_mapIdx]
      omega
    have own := all _ (List.getElem_mem inside)
    simpa [numbered] using own
  · intro all entry member
    obtain ⟨j, inside, rfl⟩ := List.mem_iff_getElem.mp member
    have short : j < chunks.length := by simpa [numbered] using inside
    simp only [numbered, List.getElem_mapIdx]
    exact all _ (by omega) (by omega)

/-- The last number is the longest one. -/
theorem numbered_writable : (∀ entry ∈ numbered chunks, WithinLimit entry.1) ↔ WithinLimit chunks.length := by
  rw [numbered_forall (p := WithinLimit)]
  constructor
  · intro writable
    cases count : chunks.length with
    | zero => decide
    | succ k => exact writable _ (by omega) (by omega)
  · exact fun fits k positive short => withinLimit_mono (by omega) fits

theorem landed_saving (order : List (Int × Str)) :
    landed (order.map (saving opening)) = order.filter fun entry => WithinLimit entry.1 ∧ opening entry.1 = none := by
  induction order with
  | nil => rfl
  | cons entry more ih =>
    by_cases fits : WithinLimit entry.1 ∧ opening entry.1 = none
    · simpa [landed, saving, SaveCall.Lands, fits] using ih
    · simpa [landed, saving, SaveCall.Lands, fits] using ih

/-- The message is restored exactly when the path can be formatted, the numbers can be
    written, the file can be opened for each save and the texts without their headers are
    the message. -/
theorem restores_iff (fresh : Fresh i disk sender timestamp batch)
    (undoes : Undoes i.python.loads (numbered chunks)) :
    Restores i opening disk sender timestamp batch (numbered chunks) message ↔
      (∃ path, savePath i sender timestamp batch = .ok path) ∧
        (WithinLimit chunks.length ∧ ∀ entry ∈ numbered chunks, opening entry.1 = none) ∧
          chunks.flatMap stripMarshal = message := by
  have undoes_order : ∀ {order : List (Int × Str)}, order.Perm (numbered chunks) →
      Undoes i.python.loads (landed (order.map (saving opening))) := by
    intro order perm
    rw [landed_saving]
    refine undoes.mono ?_
    intro entry member
    exact perm.mem_iff.mp (List.mem_filter.mp member).1
  have all_land : ∀ {order : List (Int × Str)}, (∀ entry ∈ order, WithinLimit entry.1 ∧ opening entry.1 = none) →
      landed (order.map (saving opening)) = order := by
    intro order lands
    rw [landed_saving]
    exact List.filter_eq_self.mpr fun entry member => decide_eq_true (lands entry member)
  have split : (∀ entry ∈ numbered chunks, WithinLimit entry.1 ∧ opening entry.1 = none) ↔
      WithinLimit chunks.length ∧ ∀ entry ∈ numbered chunks, opening entry.1 = none := by
    rw [← numbered_writable]
    exact forall₂_and
  rw [← split]
  constructor
  · intro restores
    obtain ⟨returned, whole⟩ := restores _ (.refl _)
    have lands : ∀ entry ∈ numbered chunks, WithinLimit entry.1 ∧ opening entry.1 = none := by
      intro entry member
      have called : saving opening entry ∈ (numbered chunks).map (saving opening) := List.mem_map_of_mem member
      rw [← answers_inputs disk ((numbered chunks).map (saving opening))] at called
      obtain ⟨⟨call, answer⟩, given, same⟩ := List.mem_map.mp called
      have landed := ((answer_ok_iff fresh (undoes_order (.refl _)) given).mp (returned call answer given)).1
      obtain rfl : call = saving opening entry := same
      exact landed
    rw [reassembleChunks_after fresh (undoes_order (.refl _)), all_land lands, inIdOrder_numbered (.refl _)] at whole
    cases named : savePath i sender timestamp batch with
    | error e =>
      rw [named] at whole
      cases whole
    | ok path =>
      rw [named] at whole
      exact ⟨⟨path, rfl⟩, lands, Except.ok.inj whole⟩
  · rintro ⟨⟨path, named⟩, lands, rfl⟩ order perm
    have ordered : ∀ entry ∈ order, WithinLimit entry.1 ∧ opening entry.1 = none :=
      fun entry member => lands entry (perm.mem_iff.mp member)
    constructor
    · intro call answer given
      obtain ⟨before, rest, split, -⟩ := mem_answers given
      have called : call ∈ order.map (saving opening) := by simp [split]
      obtain ⟨entry, member, rfl⟩ := List.mem_map.mp called
      exact (answer_ok_iff fresh (undoes_order perm) given).mpr ⟨ordered entry member, path, named⟩
    · rw [reassembleChunks_after fresh (undoes_order perm), all_land ordered, inIdOrder_numbered perm, named]
      rfl

/-! ### Chunks behind a header -/

/-- The chunks of `split_into_chunks`, saved under their numbers, restore the message. -/
def SplitRestores (i : Interpreter) (opening : Int → Option Failure) (disk : Disk) (sender timestamp batch : Arg)
    (message : Str) (maxSize : Int) : Prop :=
  ∃ chunks, splitIntoChunks message maxSize = .ok chunks ∧
    Restores i opening disk sender timestamp batch (numbered chunks) message

/-- Only the first character of the header goes. -/
theorem stripMarshal_formatChunk (chunkId : Int) (body : Str) :
    stripMarshal (formatChunk chunkId body) = CodePoint.ofChar 'c' :: intText chunkId ++ bar :: body := by
  have marked : lit "|c" <:+: formatChunk chunkId body :=
    ⟨[], intText chunkId ++ lit "|" ++ body, by simp [formatChunk]⟩
  rw [stripMarshal, if_pos marked, partition_formatChunk]

/-- What is left of every header makes the text longer. -/
theorem length_marked_stripped (first : Int) (bodies : List Str) :
    bodies.flatten.length + 2 * bodies.length ≤ ((marked first bodies).flatMap stripMarshal).length := by
  induction bodies generalizing first with
  | nil => simp
  | cons body more ih =>
    have later := ih (first + 1)
    rw [marked_cons, List.flatMap_cons, stripMarshal_formatChunk]
    simp only [List.flatten_cons, List.length_append, List.length_cons]
    omega

section Split
variable {maxSize : Int} (fresh : Fresh i disk sender timestamp batch)
  (undoes : ∀ chunks, splitIntoChunks message maxSize = .ok chunks → Undoes i.python.loads (numbered chunks))
include fresh undoes

theorem nil_of_splitRestores (restored : SplitRestores i opening disk sender timestamp batch message maxSize) :
    message = [] ∧ ∃ path, savePath i sender timestamp batch = .ok path := by
  obtain ⟨chunks, split, restores⟩ := restored
  obtain ⟨named, -, whole⟩ := (restores_iff fresh (undoes chunks split)).mp restores
  obtain ⟨-, rfl⟩ := splitIntoChunks_eq_ok_iff.mp split
  refine ⟨?_, named⟩
  have longer := length_marked_stripped 1 (bodies maxSize message)
  rw [whole, flatten_bodies] at longer
  have none_left : bodies maxSize message = [] := List.length_eq_zero_iff.mp (by omega)
  exact bodies_eq_nil_iff.mp none_left

/-- Headers are never removed, so that only the empty message is restored, whether or not
    the file can be opened. -/
theorem split_restores_exactly :
    SplitRestores i opening disk sender timestamp batch message maxSize ↔
      message = [] ∧ ∃ path, savePath i sender timestamp batch = .ok path := by
  refine ⟨nil_of_splitRestores fresh undoes, ?_⟩
  rintro ⟨rfl, named⟩
  have split : splitIntoChunks [] maxSize = .ok [] := rfl
  exact ⟨[], split, (restores_iff fresh (undoes [] split)).mpr ⟨named, ⟨by decide, by simp [numbered]⟩, rfl⟩⟩

end Split

private def hello : List (Int × Str) := [(1, lit "|c1|hello")]

private theorem undoes_hello : ∀ chunks, splitIntoChunks (lit "hello") 240 = .ok chunks →
    Undoes (knowingInterpreter hello).python.loads (numbered chunks) := by
  intro chunks split
  have one : splitIntoChunks (lit "hello") 240 = .ok [lit "|c1|hello"] := by decide +kernel
  obtain rfl : [lit "|c1|hello"] = chunks := Except.ok.inj (one.symm.trans split)
  exact undoes_knowing (by decide +kernel) (by decide +kernel)

/-- A single chunk comes back with most of its header. -/
theorem not_split_restores : ¬ ∀ (i : Interpreter) (disk : Disk) (sender timestamp batch : Arg) (message : Str)
    (maxSize : Int), 4 ≤ maxSize → Fresh i disk sender timestamp batch →
      (∀ chunks, splitIntoChunks message maxSize = .ok chunks → Undoes i.python.loads (numbered chunks)) →
      SplitRestores i (fun _ => none) disk sender timestamp batch message maxSize := by
  intro claim
  have restored := claim (knowingInterpreter hello) (fun _ => none) (.str (lit "node1")) (.int 5) (.int 3) (lit "hello")
    240 (by decide) (fun _ _ => rfl) undoes_hello
  exact absurd (nil_of_splitRestores (fun _ _ => rfl) undoes_hello restored).1 (by decide)

theorem split_restores_exactly_hello :
    ¬ SplitRestores (knowingInterpreter hello) (fun _ => none) (fun _ => none) (.str (lit "node1")) (.int 5) (.int 3)
      (lit "hello") 240 := by
  rw [split_restores_exactly (fun _ _ => rfl) undoes_hello]
  rintro ⟨empty, -⟩
  exact absurd empty (by decide)

/-! ### Plain pieces -/

/-- The saves of pieces under their ids. -/
def pieceSaves (pieces : List Piece) : List (Int × Str) := pieces.map fun piece => (piece.id, piece.text)

/-- The pieces of `chunk_message`, saved under their ids, restore the message. -/
def PlainRestores (i : Interpreter) (opening : Int → Option Failure) (disk : Disk) (sender timestamp batch : Arg)
    (message : Str) (maxLength : Int) : Prop :=
  ∃ pieces, chunkMessage message maxLength = .ok pieces ∧
    Restores i opening disk sender timestamp batch (pieceSaves pieces) message

theorem length_stripMarshal_lt {chunk : Str} (marked : lit "|c" <:+: chunk) :
    (stripMarshal chunk).length < chunk.length := by
  have present : bar ∈ chunk := marked.subset (by decide)
  obtain ⟨shape, -⟩ := partition_spec present
  have whole := congrArg List.length shape
  rw [List.length_append, List.length_cons] at whole
  rw [stripMarshal, if_pos marked]
  omega

theorem length_stripMarshal_le (chunk : Str) : (stripMarshal chunk).length ≤ chunk.length := by
  by_cases marked : lit "|c" <:+: chunk
  · exact Nat.le_of_lt (length_stripMarshal_lt marked)
  · rw [stripMarshal, if_neg marked]

theorem length_stripped_le (texts : List Str) : (texts.flatMap stripMarshal).length ≤ texts.flatten.length := by
  induction texts with
  | nil => exact Nat.le_refl 0
  | cons text more ih =>
    have own := length_stripMarshal_le text
    rw [List.flatMap_cons, List.flatten_cons, List.length_append, List.length_append]
    omega

/-- Nothing is lost exactly if no text is taken for a chunk behind a header. -/
theorem stripped_eq_flatten_iff {texts : List Str} :
    texts.flatMap stripMarshal = texts.flatten ↔ ∀ text ∈ texts, ¬ lit "|c" <:+: text := by
  induction texts with
  | nil => simp
  | cons text more ih =>
    rw [List.flatMap_cons, List.flatten_cons, List.forall_mem_cons, ← ih]
    constructor
    · intro same
      -- neither part can make up for what the other one loses
      have own := length_stripMarshal_le text
      have later := length_stripped_le more
      have lengths := congrArg List.length same
      rw [List.length_append, List.length_append] at lengths
      obtain ⟨-, rest⟩ := List.append_inj same (by omega)
      refine ⟨fun marked => ?_, rest⟩
      have shorter := length_stripMarshal_lt marked
      omega
    · rintro ⟨unmarked, rest⟩
      rw [stripMarshal, if_neg unmarked, rest]

/-- The pieces are the slices under the numbers from 1 on. -/
theorem pieceSaves_slices (size : Nat) (message : Str) :
    pieceSaves ((slices size message).mapIdx fun k text => ⟨k + 1, text⟩) = numbered (slices size message) := by
  apply List.ext_getElem?
  intro k
  rw [pieceSaves, numbered, List.getElem?_map, List.getElem?_mapIdx, List.getElem?_mapIdx]
  cases (slices size message)[k]? <;> rfl

section Plain
variable {maxLength : Int} (positive : 1 ≤ maxLength) (fresh : Fresh i disk sender timestamp batch)
  (undoes : ∀ pieces, chunkMessage message maxLength = .ok pieces → Undoes i.python.loads (pieceSaves pieces))
include positive fresh undoes

theorem plainRestores_iff :
    PlainRestores i opening disk sender timestamp batch message maxLength ↔
      (∃ path, savePath i sender timestamp batch = .ok path) ∧
        (WithinLimit (slices maxLength.toNat message).length ∧
          ∀ entry ∈ numbered (slices maxLength.toNat message), opening entry.1 = none) ∧
            ∀ text ∈ slices maxLength.toNat message, ¬ lit "|c" <:+: text := by
  have cut := chunkMessage_eq positive message
  have undoes_slices := undoes _ cut
  rw [pieceSaves_slices] at undoes_slices
  have restored : PlainRestores i opening disk sender timestamp batch message maxLength ↔
      Restores i opening disk sender timestamp batch (numbered (slices maxLength.toNat message)) message := by
    rw [PlainRestores, cut]
    simp [pieceSaves_slices]
  have some_size : 0 < maxLength.toNat := by omega
  rw [restored, restores_iff fresh undoes_slices, ← stripped_eq_flatten_iff, flatten_slices message some_size]

/-- The message is restored exactly when every `|c` in it lies across the border of two
    pieces, the numbers of the pieces can be written and the file can be opened for each
    piece. -/
theorem plain_restores_exactly :
    PlainRestores i opening disk sender timestamp batch message maxLength ↔
      (∀ j : Nat, message[j]? = some bar → message[j + 1]? = some (CodePoint.ofChar 'c') →
        ((j : Int) + 1) % maxLength = 0) ∧
      WithinLimit ((message.length + maxLength - 1) / maxLength) ∧
        (∃ path, savePath i sender timestamp batch = .ok path) ∧
          ∀ k : Int, 1 ≤ k → k ≤ (message.length + maxLength - 1) / maxLength → opening k = none := by
  rw [plainRestores_iff positive fresh undoes]
  obtain ⟨size, rfl⟩ := Int.eq_ofNat_of_zero_le (by omega : 0 ≤ maxLength)
  have some_size : 0 < size := by omega
  have count : (((slices size message).length : Nat) : Int) = (message.length + (size : Int) - 1) / size := by
    rw [length_slices, Int.natCast_ediv]
    congr 1
    omega
  have unmarked : (∀ text ∈ slices size message, ¬ lit "|c" <:+: text) ↔
      ∀ j : Nat, message[j]? = some bar → message[j + 1]? = some (CodePoint.ofChar 'c') →
        ((j : Int) + 1) % size = 0 := by
    have pair := pair_infix_slices some_size (s := message) (a := bar) (b := CodePoint.ofChar 'c')
    have cast : ∀ j : Nat, ((j : Int) + 1) % size = 0 ↔ (j + 1) % size = 0 := by
      intro j
      norm_cast
    constructor
    · intro none_marked j first second
      by_contra inner
      obtain ⟨text, member, marked⟩ := pair.mpr ⟨j, first, second, mt (cast j).mpr inner⟩
      exact none_marked text member marked
    · intro straddles text member marked
      obtain ⟨j, first, second, inner⟩ := pair.mp ⟨text, member, marked⟩
      exact inner ((cast j).mp (straddles j first second))
  rw [Int.toNat_natCast, unmarked, numbered_forall (p := fun k => opening k = none), count]
  tauto

end Plain

private theorem undoes_pieces {text : Str} {maxLength : Int} {saves : List (Int × Str)}
    (cut : (chunkMessage text maxLength).map pieceSaves = .ok saves)
    (distinct : ((documents saves).map (JsonText.dumps (some 2))).Nodup)
    (printable : ∀ value ∈ documents saves, (JsonText.dumps (some 2) value).isOk = true) :
    ∀ pieces, chunkMessage text maxLength = .ok pieces →
      Undoes (knowingInterpreter saves).python.loads (pieceSaves pieces) := by
  intro pieces made
  rw [made] at cut
  obtain rfl : pieceSaves pieces = saves := Except.ok.inj cut
  exact undoes_knowing distinct printable

/-- A piece of the message that looks like a chunk behind a header loses its beginning. -/
theorem not_plain_restores : ¬ ∀ (i : Interpreter) (disk : Disk) (sender timestamp batch : Arg) (message : Str)
    (maxLength : Int), 1 ≤ maxLength → Fresh i disk sender timestamp batch →
      (∀ pieces, chunkMessage message maxLength = .ok pieces → Undoes i.python.loads (pieceSaves pieces)) →
      PlainRestores i (fun _ => none) disk sender timestamp batch message maxLength := by
  intro claim
  have cut : (chunkMessage (lit "a|cb") 220).map pieceSaves = .ok [(1, lit "a|cb")] := by decide
  have undoes := undoes_pieces cut (by decide +kernel) (by decide +kernel)
  have restored := claim (knowingInterpreter [(1, lit "a|cb")]) (fun _ => none) (.str (lit "node1")) (.int 5) (.int 3)
    (lit "a|cb") 220 (by decide) (fun _ _ => rfl) undoes
  obtain ⟨-, -, unmarked⟩ := (plainRestores_iff (by decide) (fun _ _ => rfl) undoes).mp restored
  exact unmarked (lit "a|cb") (by decide) (by decide)

/-- A `|c` across the border of two pieces. -/
theorem plain_restores_exactly_straddling :
    PlainRestores (knowingInterpreter [(1, lit "ab|"), (2, lit "c")]) (fun _ => none) (fun _ => none)
      (.str (lit "node1")) (.int 5) (.int 3) (lit "ab|c") 3 := by
  have cut : (chunkMessage (lit "ab|c") 3).map pieceSaves = .ok [(1, lit "ab|"), (2, lit "c")] := by decide
  have undoes := undoes_pieces cut (by decide +kernel) (by decide +kernel)
  refine (plain_restores_exactly (by decide) (fun _ _ => rfl) undoes).mpr ⟨?_, by decide, ⟨_, rfl⟩, fun _ _ _ => rfl⟩
  intro j first second
  have short : j < 4 := (List.getElem?_eq_some_iff.mp first).1
  have checked : ∀ k : Nat, k < 4 → (lit "ab|c")[k]? = some bar → (lit "ab|c")[k + 1]? = some (CodePoint.ofChar 'c') →
      ((k : Int) + 1) % 3 = 0 := by decide
  exact checked j short first second

end Hde.Restoring
