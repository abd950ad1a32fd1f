import Hde.Cutting
import Hde.RoundTrip
import Hde.Saves
import Mathlib.Algebra.Order.Floor.Div

/-!
`Parser.chunk_message` and what becomes of its pieces on the wire. `prepare` writes the
number of a piece into the field `chunk_id`, which the parser does not read: every
chunk that it returns has the id 1 (`chunk_id_one`). So the receiver holds one chunk
whatever arrives, and only a message of at most one piece is complete
(`numbers_survive_exactly`).
-/
namespace Hde.Pieces
open Hde.Text Hde.Cutting Hde.Dicts Hde.Frames Hde.Records Hde.Grammar Hde.RoundTrip Hde.Saves

/-- What `range` raises. -/
inductive RangeError where
  | zeroStep
deriving DecidableEq

/-- `range(0, stop, step)`. -/
def rangeTo (stop : Nat) (step : Int) : Except RangeError (List Nat) :=
  if step = 0 then .error .zeroStep
  else if step < 0 then .ok []
  else .ok ((List.range ((stop + step.toNat - 1) / step.toNat)).map fun k => k * step.toNat)

structure Piece where
  id : Int
  text : Str
deriving DecidableEq

/-- `Parser.chunk_message`. -/
def chunkMessage (message : Str) (maxLength : Int) : Except RangeError (List Piece) := do
  let starts ← rangeTo message.length maxLength
  return starts.map fun i : Nat => ⟨(i : Int) / maxLength + 1, (message.drop i).take maxLength.toNat⟩

/-- The slices of the message, numbered from 1. -/
theorem chunkMessage_eq {maxLength : Int} (positive : 1 ≤ maxLength) (message : Str) :
    chunkMessage message maxLength =
      .ok ((slices maxLength.toNat message).mapIdx fun k text => ⟨k + 1, text⟩) := by
  obtain ⟨size, rfl⟩ := Int.eq_ofNat_of_zero_le (by omega : 0 ≤ maxLength)
  have some_step : (size : Int) ≠ 0 := by omega
  have upward : ¬ (size : Int) < 0 := by omega
  have starts : rangeTo message.length size =
      .ok ((List.range ((message.length + size - 1) / size)).map fun k => k * size) := by
    rw [rangeTo, if_neg some_step, if_neg upward, Int.toNat_natCast]
  rw [chunkMessage, starts]
  refine congrArg Except.ok ?_
  apply List.ext_getElem?
  intro k
  rw [List.getElem?_mapIdx, Int.toNat_natCast, getElem?_slices]
  by_cases inside : k < (message.length + size - 1) / size
  · simp [inside, Int.mul_ediv_cancel _ some_step]
  · simp [inside]

example : chunkMessage (lit "abcde") 2 = .ok [⟨1, lit "ab"⟩, ⟨2, lit "cd"⟩, ⟨3, lit "e"⟩] := by decide

/-- The place in the message that the pieces make up is in a piece. -/
def Holds (pieces : List Piece) (place : Nat) (piece : Piece) : Prop :=
  ∃ k, pieces[k]? = some piece ∧ PlacedIn (pieces.map Piece.text) place k

/-- The texts of the pieces are the slices of the message, and their ids count them. -/
theorem pieces_spec {maxLength : Int} (positive : 1 ≤ maxLength) {message : Str} {pieces : List Piece}
    (cut : chunkMessage message maxLength = .ok pieces) :
    pieces.map Piece.text = slices maxLength.toNat message ∧
      ∀ {k : Nat} {piece : Piece}, pieces[k]? = some piece → piece.id = k + 1 := by
  rw [chunkMessage_eq positive] at cut
  obtain rfl := Except.ok.inj cut
  constructor
  · apply List.ext_getElem?
    intro k
    rw [List.getElem?_map, List.getElem?_mapIdx, Option.map_map]
    exact Option.map_id'
  · intro k piece found
    rw [List.getElem?_mapIdx, Option.map_eq_some_iff] at found
    obtain ⟨text, -, rfl⟩ := found
    rfl

/-- The pieces are numbered from 1, as many as are needed, full but for the last one and
    in the order of the message. -/
theorem chunkMessage_exact {maxLength : Int} (positive : 1 ≤ maxLength) (message : Str) :
    ∃ pieces, chunkMessage message maxLength = .ok pieces ∧
      pieces.length = message.length ⌈/⌉ maxLength.toNat ∧
      pieces.map Piece.id = (List.range pieces.length).map (fun k : Nat => (k : Int) + 1) ∧
      (∀ piece ∈ pieces.dropLast, (piece.text.length : Int) = maxLength) ∧
      (∀ piece ∈ pieces.getLast?, 1 ≤ piece.text.length ∧ (piece.text.length : Int) ≤ maxLength) ∧
      pieces.flatMap Piece.text = message ∧
      (∀ place < message.length, ∃ piece, Holds pieces place piece) ∧
      ∀ i j first second, i ≤ j → Holds pieces i first → Holds pieces j second → first.id ≤ second.id := by
  have some_size : 0 < maxLength.toNat := by omega
  have size : (maxLength.toNat : Int) = maxLength := by omega
  obtain ⟨pieces, cut⟩ : ∃ pieces, chunkMessage message maxLength = .ok pieces := ⟨_, chunkMessage_eq positive message⟩
  obtain ⟨texts, numbered⟩ := pieces_spec positive cut
  have count : pieces.length = (slices maxLength.toNat message).length := by rw [← texts, List.length_map]
  have whole : (pieces.map Piece.text).flatten = message := by rw [texts, flatten_slices _ some_size]
  have sliced : ∀ {k : Nat} {piece : Piece}, pieces[k]? = some piece →
      (slices maxLength.toNat message)[k]? = some piece.text := by
    intro k piece found
    rw [← texts, List.getElem?_map, found, Option.map_some]
  refine ⟨pieces, cut, ?_, ?_, ?_, ?_, ?_, ?_, ?_⟩
  · rw [count, length_slices, Nat.ceilDiv_eq_add_pred_div]
  · apply List.ext_getElem?
    intro k
    rw [List.getElem?_map, List.getElem?_map]
    by_cases inside : k < pieces.length
    · rw [List.getElem?_eq_getElem inside, List.getElem?_range inside]
      exact congrArg some (numbered (List.getElem?_eq_getElem inside))
    · rw [List.getElem?_eq_none (by omega), List.getElem?_eq_none (by simpa using inside)]
      rfl
  · intro piece member
    obtain ⟨k, small, rfl⟩ := List.mem_iff_getElem.mp member
    rw [List.length_dropLast] at small
    have found : pieces[k]? = some (pieces.dropLast[k]) := by
      rw [List.getElem_dropLast, List.getElem?_eq_getElem]
    have full := (length_of_slice some_size (sliced found)).2.2 (by omega)
    rw [full, size]
  · intro piece last
    rw [Option.mem_def, List.getLast?_eq_getElem?] at last
    obtain ⟨some_text, short, -⟩ := length_of_slice some_size (sliced last)
    exact ⟨some_text, by omega⟩
  · rw [List.flatMap_def]
    exact whole
  · intro place inside
    rw [← whole] at inside
    obtain ⟨k, small, placed⟩ := exists_placedIn inside
    rw [List.length_map] at small
    exact ⟨pieces[k], k, List.getElem?_eq_getElem small, placed⟩
  · rintro i j first second le ⟨k, found, placed⟩ ⟨l, found', placed'⟩
    have ordered := placedIn_mono le placed placed'
    rw [numbered found, numbered found']
    omega

/-- Five characters in pieces of two. -/
theorem chunkMessage_exact_five : ∃ pieces, chunkMessage (lit "abcde") 2 = .ok pieces ∧
    pieces.length = 3 ∧ pieces.flatMap Piece.text = lit "abcde" := by
  obtain ⟨pieces, cut, count, -, -, -, whole, -⟩ := chunkMessage_exact (by decide : (1 : Int) ≤ 2) (lit "abcde")
  exact ⟨pieces, cut, count, whole⟩

/-! ### The ids that the parser returns -/

/-- The record that the field loop ends with, early or not. -/
def outcome : Except Parsed Parsed → Parsed
  | .ok result => result
  | .error result => result

def OnlyOnes (result : Parsed) : Prop := ∀ chunk ∈ result.chunk, chunk.id = 1

theorem parseField_onlyOnes {result : Parsed} {field : Str} (whole : bar ∉ field) (ones : OnlyOnes result) :
    OnlyOnes (outcome (parseField result field)) := by
  unfold parseField
  split
  · exact ones
  · next present =>
    have value_whole : bar ∉ (partition colon field).2 := by
      obtain ⟨shape, -⟩ := partition_spec (not_not.mp present)
      intro inside
      rw [shape] at whole
      exact whole (by simp [inside])
    simp only
    split
    · exact ones
    split
    · cases Numerals.intOf (partition colon field).2 <;> exact ones
    split
    · cases Numerals.intOf (partition colon field).2 <;> exact ones
    split
    · rw [if_neg (not_marshal value_whole)]
      intro chunk member
      rcases List.mem_append.mp member with old | new
      · exact ones chunk old
      · rw [List.mem_singleton.mp new]
    · exact ones

theorem foldlM_onlyOnes {parts : List Str} (whole : ∀ part ∈ parts, bar ∉ part) {result : Parsed} (ones : OnlyOnes result) :
    OnlyOnes (outcome (parts.foldlM parseField result)) := by
  induction parts generalizing result with
  | nil => exact ones
  | cons part rest ih =>
    have next := parseField_onlyOnes (whole part (by simp)) ones
    rw [List.foldlM_cons]
    cases read : parseField result part with
    | error failed =>
      rw [read] at next
      exact next
    | ok result =>
      rw [read] at next
      exact ih (fun other member => whole other (by simp [member])) next

/-- No chunk that the parser returns, of a valid message or of another one, has an id
    but 1. -/
theorem chunk_id_one (raw : Str) : OnlyOnes (parseMessage raw) := by
  have nothing : ∀ {result : Parsed}, result.chunk = [] → OnlyOnes result := by
    intro result empty chunk member
    rw [empty] at member
    cases member
  unfold parseMessage
  simp only
  split
  · exact nothing rfl
  split
  · exact nothing rfl
  have read : OnlyOnes (outcome (((rpartition asterisk raw).1.splitOn bar).foldlM parseField {})) :=
    foldlM_onlyOnes not_mem_of_mem_splitOn (nothing rfl)
  generalize ((rpartition asterisk raw).1.splitOn bar).foldlM parseField {} = loop at read
  cases loop with
  | error failed => exact read
  | ok result =>
    simp only
    split <;> exact read

/-! ### Pieces on the wire -/

/-- The frame of a piece. -/
def FrameOf (sender : Str) (checksum : Int → Str) (batch timestamp : Int) (piece : Piece) (raw : Str) : Prop :=
  ∃ data, Carries data sender piece.text (checksum piece.id) piece.id batch timestamp ∧ prepare data = .ok raw

/-- Storing the parsed chunks of a frame under their ids. -/
def store (chunks : Dict Int Str) (raw : Str) : Dict Int Str :=
  (parseMessage raw).chunk.foldl (fun chunks chunk => chunks.set chunk.id chunk.message) chunks

def stored (arrived : List Str) : Dict Int Str := arrived.foldl store Dict.empty

/-- The texts in the order of their ids. -/
def textsInOrder (chunks : Dict Int Str) : Str := (chunks.entries.mergeSort fun a b => a.1 ≤ b.1).flatMap Prod.snd

/-- The message is complete and can be put together. -/
def Restored (arrived : List Str) (pieces : Nat) (message : Str) : Prop :=
  isMessageComplete (stored arrived) pieces = true ∧ textsInOrder (stored arrived) = message

theorem store_keys {chunks : Dict Int Str} {raw : Str} {k : Int} (other : k ≠ 1) (absent : chunks.get? k = none) :
    (store chunks raw).get? k = none := by
  have ones := chunk_id_one raw
  rw [store]
  unfold OnlyOnes at ones
  generalize (parseMessage raw).chunk = parsed at ones
  induction parsed generalizing chunks with
  | nil => exact absent
  | cons chunk more ih =>
    have still : (chunks.set chunk.id chunk.message).get? k = none := by
      rw [ones chunk (by simp), Dict.get?_set_of_ne _ _ other]
      exact absent
    exact ih still fun other member => ones other (by simp [member])

/-- Nothing is ever stored under another number than 1. -/
theorem stored_keys (arrived : List Str) {k : Int} (other : k ≠ 1) : (stored arrived).get? k = none := by
  have kept : ∀ {chunks : Dict Int Str}, chunks.get? k = none → (arrived.foldl store chunks).get? k = none := by
    induction arrived with
    | nil =>
      intro chunks absent
      exact absent
    | cons raw rest ih =>
      intro chunks absent
      exact ih (store_keys other absent)
  exact kept rfl

/-- A single piece comes back under the number that it was sent with. -/
theorem stored_single {sender message raw : Str} {checksum : Int → Str} {batch timestamp : Int}
    (frame : FrameOf sender checksum batch timestamp ⟨1, message⟩ raw) (named : sender ≠ [])
    (wholeSender : bar ∉ sender) (wholeMessage : bar ∉ message) (wholeChecksum : bar ∉ checksum 1)
    (someBatch : batch ≠ 0) (someTimestamp : timestamp ≠ 0) : stored [raw] = Dict.empty.set 1 message := by
  obtain ⟨data, carries, prepared⟩ := frame
  obtain ⟨⟨batchFits, timestampFits⟩, rfl⟩ := prepare_ok carries prepared
  have nothing := smuggled_whole wholeMessage
  have seen : senderSeen sender message ≠ [] := by simpa [senderSeen, nothing] using named
  rw [stored, List.foldl_cons, List.foldl_nil, store, parseMessage_prepared wholeSender wholeChecksum batchFits
    timestampFits someBatch someTimestamp (by simp [nothing, IntegersOk]) seen, nothing, partition_absent wholeMessage]
  simp [values_cons]

/-- A message of more than one piece is never complete. -/
theorem not_restored {arrived : List Str} {pieces : Nat} (several : 2 ≤ pieces) (message : Str) :
    ¬ Restored arrived pieces message := by
  rintro ⟨complete, -⟩
  have second := isMessageComplete_iff.mp complete 1 (by omega)
  rw [Dict.contains, stored_keys arrived (by decide)] at second
  cases second

/-- A message of two pieces. -/
theorem number_lost : ¬ ∀ (message sender : Str) (checksum : Int → Str) (maxLength batch timestamp : Int)
    (pieces : List Piece) (raws arrived : List Str), bar ∉ message → 1 ≤ maxLength → sender ≠ [] → bar ∉ sender →
    (∀ k, bar ∉ checksum k) → batch ≠ 0 → timestamp ≠ 0 → chunkMessage message maxLength = .ok pieces →
    List.Forall₂ (FrameOf sender checksum batch timestamp) pieces raws → arrived.Perm raws →
    Restored arrived pieces.length message := by
  intro claim
  obtain ⟨first, prepared, -⟩ := parseMessage_prepare (carries_dataOf (lit "node1") (lit "a") (lit "x") 1 3 5) (by decide)
    (by decide) (by decide) (by decide) (by decide) (by decide) (by decide)
  obtain ⟨second, prepared', -⟩ := parseMessage_prepare (carries_dataOf (lit "node1") (lit "b") (lit "x") 2 3 5) (by decide)
    (by decide) (by decide) (by decide) (by decide) (by decide) (by decide)
  have restored := claim (lit "ab") (lit "node1") (fun _ => lit "x") 1 3 5 [⟨1, lit "a"⟩, ⟨2, lit "b"⟩] [first, second]
    [first, second] (by decide) (by decide) (by decide) (by decide) (fun _ => by decide) (by decide) (by decide) (by decide)
    (.cons ⟨_, carries_dataOf .., prepared⟩ (.cons ⟨_, carries_dataOf .., prepared'⟩ .nil)) (.refl _)
  exact not_restored (by decide) _ restored

/-- A framed message comes back complete, in whatever order its frames arrive, exactly
    when it has at most one piece. -/
theorem numbers_survive_exactly {message sender : Str} {checksum : Int → Str} {maxLength batch timestamp : Int}
    {pieces : List Piece} {raws arrived : List Str} (wholeMessage : bar ∉ message) (positive : 1 ≤ maxLength)
    (named : sender ≠ []) (wholeSender : bar ∉ sender) (someBatch : batch ≠ 0) (someTimestamp : timestamp ≠ 0)
    (cut : chunkMessage message maxLength = .ok pieces)
    (frames : List.Forall₂ (FrameOf sender checksum batch timestamp) pieces raws) (order : arrived.Perm raws) :
    (Restored arrived pieces.length message → (message.length : Int) ≤ maxLength) ∧
      ((∀ k, bar ∉ checksum k) →
        (Restored arrived pieces.length message ↔ (message.length : Int) ≤ maxLength)) := by
  rw [chunkMessage_eq positive] at cut
  obtain rfl := Except.ok.inj cut
  have count : ((slices maxLength.toNat message).mapIdx fun k text => (⟨k + 1, text⟩ : Piece)).length =
      (message.length + maxLength.toNat - 1) / maxLength.toNat := by simp
  have some_size : 0 < maxLength.toNat := by omega
  have short : Restored arrived ((slices maxLength.toNat message).mapIdx fun k text => (⟨k + 1, text⟩ : Piece)).length
      message → (message.length : Int) ≤ maxLength := by
    intro restored
    by_contra long
    refine not_restored ?_ message restored
    rw [count, Nat.le_div_iff_mul_le some_size]
    omega
  refine ⟨short, fun wholeChecksum => ⟨short, ?_⟩⟩
  intro fits
  cases message with
  | nil =>
    rw [slices_nil some_size] at frames ⊢
    cases frames
    rw [order.eq_nil]
    exact ⟨rfl, by simp [textsInOrder, stored, Dict.empty]⟩
  | cons c rest =>
    rw [slices_single (List.cons_ne_nil c rest) (by omega)] at frames ⊢
    obtain ⟨raw, raws, frame, more, rfl⟩ := List.forall₂_cons_left_iff.mp frames
    cases more
    rw [List.perm_singleton.mp order, Restored,
      stored_single frame named wholeSender wholeMessage (wholeChecksum 1) someBatch someTimestamp]
    exact ⟨rfl, by simp [textsInOrder, Dict.set, Dict.empty, Dict.keys]⟩

/-- The frame of a message of one piece. -/
theorem numbers_survive_exactly_one :
    ∃ raw, prepare (dataOf (lit "node1") (lit "hi") (lit "x") 1 3 5) = .ok raw ∧ Restored [raw] 1 (lit "hi") := by
  obtain ⟨raw, prepared, -⟩ := parseMessage_prepare (carries_dataOf (lit "node1") (lit "hi") (lit "x") 1 3 5) (by decide)
    (by decide) (by decide) (by decide) (by decide) (by decide) (by decide)
  have cut : chunkMessage (lit "hi") 220 = .ok [⟨1, lit "hi"⟩] := by decide
  have frames : List.Forall₂ (FrameOf (lit "node1") (fun _ => lit "x") 3 5) [⟨1, lit "hi"⟩] [raw] :=
    .cons ⟨_, carries_dataOf .., prepared⟩ .nil
  obtain ⟨-, restored⟩ := numbers_survive_exactly (by decide) (by decide) (by decide) (by decide) (by decide) (by decide)
    cut frames (.refl _)
  exact ⟨raw, prepared, (restored fun _ => by decide).mpr (by decide)⟩

/-! ### Slices of bytes -/

/-- `Parser.get_chunks`. -/
def getChunks (data : List UInt8) (chunkSize : Int) : Except RangeError (List (List UInt8)) := do
  let starts ← rangeTo data.length chunkSize
  return starts.map fun i => (data.drop i).take chunkSize.toNat

theorem getChunks_eq {chunkSize : Int} (positive : 1 ≤ chunkSize) (data : List UInt8) :
    getChunks data chunkSize = .ok (slices chunkSize.toNat data) := by
  rw [getChunks, rangeTo, if_neg (by omega), if_neg (by omega)]
  refine congrArg Except.ok ?_
  rw [List.map_map]
  rfl

/-- The chunks make up the data; but for a size below 1 there are none, or an error. -/
theorem getChunks_flatten (data : List UInt8) (chunkSize : Int) :
    (∃ chunks, getChunks data chunkSize = .ok chunks ∧ chunks.flatten = data) ↔
      1 ≤ chunkSize ∨ chunkSize < 0 ∧ data = [] := by
  constructor
  · rintro ⟨chunks, cut, whole⟩
    by_contra! wrong
    rw [getChunks, rangeTo] at cut
    by_cases zero : chunkSize = 0
    · rw [if_pos zero] at cut
      cases cut
    · rw [if_neg zero, if_pos (by omega)] at cut
      cases cut
      exact wrong.2 (by omega) whole.symm
  · rintro (positive | ⟨negative, rfl⟩)
    · exact ⟨_, getChunks_eq positive data, flatten_slices data (by omega)⟩
    · refine ⟨[], ?_, rfl⟩
      rw [getChunks, rangeTo, if_neg (by omega), if_pos negative]
      rfl

end Hde.Pieces
