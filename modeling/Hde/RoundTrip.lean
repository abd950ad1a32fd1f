import Hde.Grammar

/-!
What `parse_message` reads from a frame of `prepare`. The checksum has no `*`,
so the payload is found again whatever the values hold (`rpartition_framed`),
and a frame is accepted by its fields alone (`accepts_framed_iff`). Values
without `|` come back as sent (`parseMessage_prepare`). A message with `|`
smuggles fields of its own into the record: they come before `chunk_batch` and
`timestamp`, which therefore stand, but after `from`, which they replace
(`parseMessage_prepared`).
-/
namespace Hde.RoundTrip
open Hde.Text Hde.Unicode Hde.Numerals Hde.Dicts Hde.Records Hde.Frames Hde.Grammar

def framed (payload : Str) : Str := payload ++ asterisk :: calculateCrc payload

theorem calculateCrc_hex (payload : Str) : ∀ c ∈ calculateCrc payload, HexDigit c := formatX_hex

theorem asterisk_not_mem_crc (payload : Str) : asterisk ∉ calculateCrc payload :=
  fun member => absurd (calculateCrc_hex payload asterisk member) (by decide)

theorem rpartition_framed (payload : Str) : rpartition asterisk (framed payload) = (payload, calculateCrc payload) :=
  rpartition_append (asterisk_not_mem_crc payload) payload

theorem accepts_framed_iff (payload : Str) :
    Accepts (framed payload) ↔
      IntegersOk (fieldsOf payload) ∧
        (∃ s, (describe (fieldsOf payload)).from_ = some s ∧ s ≠ []) ∧
        (∃ n, (describe (fieldsOf payload)).timestamp = some n ∧ n ≠ 0) ∧
        ∃ n, (describe (fieldsOf payload)).batch = some n ∧ n ≠ 0 := by
  constructor
  · rintro ⟨-, -, integers, sender, timestamp, batch⟩
    rw [rpartition_framed] at integers sender timestamp batch
    exact ⟨integers, sender, timestamp, batch⟩
  · rintro ⟨integers, sender, timestamp, batch⟩
    refine ⟨by simp [framed], ?_, ?_, ?_, ?_, ?_⟩ <;> rw [rpartition_framed]
    · exact upper_hexDigits (calculateCrc_hex payload)
    · exact integers
    · exact sender
    · exact timestamp
    · exact batch

/-! ### The frames of `prepare` -/

/-- The items of a `data` dict that `prepare` reads. -/
structure Carries (data : Dict Str Value) (sender message checksum : Str) (chunkId batch timestamp : Int) :
    Prop where
  from_ : data.get? (lit "from") = some (.str sender)
  message : data.get? (lit "message") = some (.str message)
  checksum : data.get? (lit "checksum") = some (.str checksum)
  chunkId : data.get? (lit "chunk_id") = some (.int chunkId)
  batch : data.get? (lit "chunk_batch") = some (.int batch)
  timestamp : data.get? (lit "timestamp") = some (.int timestamp)

/-- The fields of a frame of `prepare`. -/
def envelope (sender message checksum : Str) (chunkId batch timestamp : Int) : List (Str × Str) :=
  [(lit "from", sender), (lit "message", message), (lit "checksum", checksum),
   (lit "chunk_id", intText chunkId), (lit "chunk_batch", intText batch), (lit "timestamp", intText timestamp)]

variable {data : Dict Str Value} {sender message checksum : Str} {chunkId batch timestamp : Int}

private theorem formatField_str {key s : Str} (found : data.get? key = some (.str s)) :
    formatField data key = .ok (key ++ colon :: s) := by
  simp only [formatField, found, Value.format]
  rfl

private theorem formatField_int {key : Str} {n : Int} (found : data.get? key = some (.int n)) :
    formatField data key =
      if WithinLimit n then .ok (key ++ colon :: intText n) else .error (.valueError .digitLimit) := by
  simp only [formatField, found, Value.format, strInt]
  split <;> rfl

/-- `prepare` raises `ValueError` beyond the limit on conversions, and frames
    the six fields otherwise. -/
theorem prepare_eq (carries : Carries data sender message checksum chunkId batch timestamp) :
    prepare data =
      if WithinLimit chunkId ∧ WithinLimit batch ∧ WithinLimit timestamp then
        .ok (framed (join bar colon (envelope sender message checksum chunkId batch timestamp)))
      else .error (.valueError .digitLimit) := by
  simp only [prepare, fieldKeys, List.mapM_cons, List.mapM_nil, formatField_str carries.from_,
    formatField_str carries.message, formatField_str carries.checksum, formatField_int carries.chunkId,
    formatField_int carries.batch, formatField_int carries.timestamp]
  by_cases first : WithinLimit chunkId <;> by_cases second : WithinLimit batch <;>
    by_cases third : WithinLimit timestamp <;> simp only [first, second, third] <;> rfl

theorem prepare_ok (carries : Carries data sender message checksum chunkId batch timestamp) {raw : Str}
    (prepared : prepare data = .ok raw) :
    (WithinLimit batch ∧ WithinLimit timestamp) ∧
      raw = framed (join bar colon (envelope sender message checksum chunkId batch timestamp)) := by
  rw [prepare_eq carries] at prepared
  split at prepared
  · next fits => exact ⟨fits.2, by cases prepared; rfl⟩
  · cases prepared

theorem bar_not_mem_intText (n : Int) : bar ∉ intText n := not_mem_intText (by decide) (by decide) n

/-! ### What the fields of a frame are -/

/-- The fields that a message adds to the record: those after its first `|`. -/
def smuggled (message : Str) : List (Str × Str) := fieldsOf (partition bar message).2

private def trailer (checksum : Str) (chunkId batch timestamp : Int) : List (Str × Str) :=
  [(lit "checksum", checksum), (lit "chunk_id", intText chunkId), (lit "chunk_batch", intText batch),
   (lit "timestamp", intText timestamp)]

private theorem fieldsOf_trailer (wholeChecksum : bar ∉ checksum) :
    fieldsOf (join bar colon (trailer checksum chunkId batch timestamp)) =
      trailer checksum chunkId batch timestamp := by
  apply pairs_join (by decide) (by simp [trailer])
  have keys : (colon ∉ lit "checksum" ∧ bar ∉ lit "checksum") ∧ (colon ∉ lit "chunk_id" ∧ bar ∉ lit "chunk_id") ∧
      (colon ∉ lit "chunk_batch" ∧ bar ∉ lit "chunk_batch") ∧
      (colon ∉ lit "timestamp" ∧ bar ∉ lit "timestamp") := by decide
  simp only [trailer, List.mem_cons, List.not_mem_nil, or_false, forall_eq_or_imp, forall_eq]
  exact ⟨⟨keys.1.1, keys.1.2, wholeChecksum⟩, ⟨keys.2.1.1, keys.2.1.2, bar_not_mem_intText _⟩,
    ⟨keys.2.2.1.1, keys.2.2.1.2, bar_not_mem_intText _⟩, ⟨keys.2.2.2.1, keys.2.2.2.2, bar_not_mem_intText _⟩⟩

/-- The fields of a payload: the message's own fields stand between `message`
    and `checksum`. -/
theorem fieldsOf_envelope (wholeSender : bar ∉ sender) (wholeChecksum : bar ∉ checksum) :
    fieldsOf (join bar colon (envelope sender message checksum chunkId batch timestamp)) =
      (lit "from", sender) :: (lit "message", (partition bar message).1) ::
        (smuggled message ++ trailer checksum chunkId batch timestamp) := by
  have head : bar ∉ lit "from" ++ colon :: sender := by
    have fixed : bar ∉ lit "from" ∧ bar ≠ colon := by decide
    simp [fixed, wholeSender]
  have shape : join bar colon (envelope sender message checksum chunkId batch timestamp) =
      (lit "from" ++ colon :: sender) ++ bar :: ((lit "message" ++ colon :: message) ++ bar ::
        join bar colon (trailer checksum chunkId batch timestamp)) := by
    simp only [envelope, trailer, join_cons]
  have trailing : pairs bar colon (join bar colon (trailer checksum chunkId batch timestamp)) =
      trailer checksum chunkId batch timestamp := fieldsOf_trailer wholeChecksum
  rw [shape, fieldsOf, pairs_append, pairs_append, pairs_field (by decide) head,
    pairs_smuggling (by decide) (by decide) (by decide), trailing]
  rfl

/-- The sender that a receiver sees. -/
def senderSeen (sender message : Str) : Str := (lastValue (lit "from") (smuggled message)).getD sender

private theorem lastInt_trailer {key : Str} {n : Int} (fields : List (Str × Str)) (fits : WithinLimit n)
    (last : lastValue key (trailer checksum chunkId batch timestamp) = some (intText n)) :
    lastInt key (fields ++ trailer checksum chunkId batch timestamp) = some n := by
  simp [lastInt, lastValue_append, last, intOf_intText fits, Except.toOption]

theorem describe_envelope (wholeSender : bar ∉ sender) (wholeChecksum : bar ∉ checksum)
    (batchFits : WithinLimit batch) (timestampFits : WithinLimit timestamp) :
    describe (fieldsOf (join bar colon (envelope sender message checksum chunkId batch timestamp))) =
      { from_ := some (senderSeen sender message)
        timestamp := some timestamp
        batch := some batch
        chunk := (values (lit "message") ((lit "message", (partition bar message).1) :: smuggled message)).map
          (⟨1, ·⟩) } := by
  have regroup : (lit "from", sender) :: (lit "message", (partition bar message).1) ::
        (smuggled message ++ trailer checksum chunkId batch timestamp) =
      ((lit "from", sender) :: (lit "message", (partition bar message).1) :: smuggled message) ++
        trailer checksum chunkId batch timestamp := rfl
  have stamp : lastValue (lit "timestamp") (trailer checksum chunkId batch timestamp) = some (intText timestamp) := by
    simp [trailer, lastValue, values_cons]
  have number : lastValue (lit "chunk_batch") (trailer checksum chunkId batch timestamp) = some (intText batch) := by
    simp [trailer, lastValue, values_cons]
  rw [fieldsOf_envelope wholeSender wholeChecksum, regroup, describe, lastInt_trailer _ timestampFits stamp,
    lastInt_trailer _ batchFits number]
  congr 1
  · have silent : lastValue (lit "from") (trailer checksum chunkId batch timestamp) = none := by
      simp [trailer, lastValue, values_cons]
    rw [lastValue_append, silent, lastValue_cons, lastValue_cons, senderSeen]
    cases lastValue (lit "from") (smuggled message) <;> simp
  · simp [values_append, values_cons, trailer]

theorem integersOk_envelope (wholeSender : bar ∉ sender) (wholeChecksum : bar ∉ checksum)
    (batchFits : WithinLimit batch) (timestampFits : WithinLimit timestamp) :
    IntegersOk (fieldsOf (join bar colon (envelope sender message checksum chunkId batch timestamp))) ↔
      IntegersOk (smuggled message) := by
  rw [fieldsOf_envelope wholeSender wholeChecksum, integersOk_cons, integersOk_cons, integersOk_append]
  simp [trailer, IntegerKey, intOf_intText batchFits, intOf_intText timestampFits, IntegersOk]

section Received
variable (wholeSender : bar ∉ sender) (wholeChecksum : bar ∉ checksum) (batchFits : WithinLimit batch)
  (timestampFits : WithinLimit timestamp) (someBatch : batch ≠ 0) (someTimestamp : timestamp ≠ 0)
include wholeSender wholeChecksum batchFits timestampFits someBatch someTimestamp

/-- The frames of `prepare` that a receiver accepts: the message decides. -/
theorem accepts_prepared_iff :
    Accepts (framed (join bar colon (envelope sender message checksum chunkId batch timestamp))) ↔
      IntegersOk (smuggled message) ∧ senderSeen sender message ≠ [] := by
  rw [accepts_framed_iff, integersOk_envelope wholeSender wholeChecksum batchFits timestampFits,
    describe_envelope wholeSender wholeChecksum batchFits timestampFits]
  simp [someBatch, someTimestamp]

theorem parseMessage_prepared (readable : IntegersOk (smuggled message))
    (named : senderSeen sender message ≠ []) :
    parseMessage (framed (join bar colon (envelope sender message checksum chunkId batch timestamp))) =
      { from_ := some (senderSeen sender message)
        timestamp := some timestamp
        batch := some batch
        chunk := (values (lit "message") ((lit "message", (partition bar message).1) :: smuggled message)).map
          (⟨1, ·⟩)
        valid := true } := by
  have accepts : Accepts (framed (join bar colon (envelope sender message checksum chunkId batch timestamp))) :=
    (accepts_prepared_iff wholeSender wholeChecksum batchFits timestampFits someBatch someTimestamp).mpr
      ⟨readable, named⟩
  rw [parseMessage_accepted accepts, rpartition_framed,
    describe_envelope wholeSender wholeChecksum batchFits timestampFits]

end Received

/-! ### Round trip -/

theorem smuggled_whole (whole : bar ∉ message) : smuggled message = [] := by
  rw [smuggled, partition_absent whole]
  simp [fieldsOf, pairs, keyValue]

/-- A frame whose values have no `|` comes back as sent: valid, with the same
    sender, timestamp and batch and the message as its only chunk. -/
theorem parseMessage_prepare (carries : Carries data sender message checksum chunkId batch timestamp)
    (named : sender ≠ []) (wholeSender : bar ∉ sender) (wholeMessage : bar ∉ message)
    (wholeChecksum : bar ∉ checksum) (someBatch : batch ≠ 0) (someTimestamp : timestamp ≠ 0)
    (fits : WithinLimit chunkId ∧ WithinLimit batch ∧ WithinLimit timestamp) :
    ∃ raw, prepare data = .ok raw ∧ (parseMessage raw).valid = true ∧ (parseMessage raw).error = none ∧
      (parseMessage raw).from_ = some sender ∧ (parseMessage raw).timestamp = some timestamp ∧
      (parseMessage raw).batch = some batch ∧ ∃ id, (parseMessage raw).chunk = [⟨id, message⟩] := by
  have nothing := smuggled_whole wholeMessage
  have seen : senderSeen sender message = sender := by simp [senderSeen, nothing]
  refine ⟨_, by rw [prepare_eq carries, if_pos fits], ?_⟩
  rw [parseMessage_prepared wholeSender wholeChecksum fits.2.1 fits.2.2 someBatch someTimestamp
    (by simp [nothing, IntegersOk]) (by rw [seen]; exact named), seen, nothing, partition_absent wholeMessage]
  exact ⟨rfl, rfl, rfl, rfl, rfl, 1, by simp [values_cons]⟩

def dataOf (sender message checksum : Str) (chunkId batch timestamp : Int) : Dict Str Value :=
  (((((Dict.empty.set (lit "from") (.str sender)).set (lit "message") (.str message)).set (lit "checksum")
    (.str checksum)).set (lit "chunk_id") (.int chunkId)).set (lit "chunk_batch") (.int batch)).set
    (lit "timestamp") (.int timestamp)

theorem carries_dataOf (sender message checksum : Str) (chunkId batch timestamp : Int) :
    Carries (dataOf sender message checksum chunkId batch timestamp) sender message checksum chunkId batch
      timestamp := by
  constructor <;> simp [dataOf, Dict.get?_set]

theorem parseMessage_prepare_node :
    ∃ raw, prepare (dataOf (lit "no:de*1") (lit ":Hel*lo:") (lit "é") 1 3 1722250340) = .ok raw ∧
      (parseMessage raw).valid = true ∧ (parseMessage raw).error = none ∧
      (parseMessage raw).from_ = some (lit "no:de*1") ∧ (parseMessage raw).timestamp = some 1722250340 ∧
      (parseMessage raw).batch = some 3 ∧ ∃ id, (parseMessage raw).chunk = [⟨id, lit ":Hel*lo:"⟩] :=
  parseMessage_prepare (carries_dataOf ..) (by decide) (by decide) (by decide) (by decide) (by decide)
    (by decide) (by decide)

/-! ### Messages that write fields -/

def SameEnvelope (p q : Parsed) : Prop :=
  p.valid = q.valid ∧ p.from_ = q.from_ ∧ p.timestamp = q.timestamp ∧ p.batch = q.batch

/-- No message text changes the envelope that a receiver sees. -/
def Unforgeable : Prop :=
  ∀ (data data' : Dict Str Value) (sender message message' checksum : Str) (chunkId batch timestamp : Int)
    (raw raw' : Str),
    Carries data sender message checksum chunkId batch timestamp →
    Carries data' sender message' checksum chunkId batch timestamp →
    message ≠ message' → sender ≠ [] → bar ∉ sender → bar ∉ checksum →
    chunkId ≠ 0 → batch ≠ 0 → timestamp ≠ 0 → prepare data = .ok raw → prepare data' = .ok raw' →
    SameEnvelope (parseMessage raw) (parseMessage raw')

/-- The text `hi|from:eve` makes the receiver see another sender. -/
theorem not_unforgeable : ¬ Unforgeable := by
  intro unforgeable
  have plain := prepare_eq (carries_dataOf (lit "node1") (lit "hi") (lit "x") 1 3 5)
  have forged := prepare_eq (carries_dataOf (lit "node1") (lit "hi|from:eve") (lit "x") 1 3 5)
  rw [if_pos (by decide)] at plain forged
  have same := unforgeable _ _ _ _ _ _ _ _ _ _ _ (carries_dataOf ..) (carries_dataOf ..) (by decide) (by decide)
    (by decide) (by decide) (by decide) (by decide) (by decide) plain forged
  exact absurd same.2.1 (by decide +kernel)

/-- A message whose own fields neither name a sender nor hold an integer that
    `int` rejects. -/
def Harmless (message : Str) : Prop :=
  IntegersOk (smuggled message) ∧ ∀ field ∈ smuggled message, field.1 ≠ lit "from"

private theorem senderSeen_harmless (sender : Str) (harmless : Harmless message) :
    senderSeen sender message = sender := by
  cases own : lastValue (lit "from") (smuggled message) with
  | none => simp [senderSeen, own]
  | some value => exact absurd rfl (harmless.2 _ (lastValue_mem own))

/-- What the message decides of the envelope that a receiver sees: whether the
    frame is accepted and, with a `from` field of its own, the sender. The
    timestamp and the batch stand, and harmless messages decide nothing. -/
theorem sameEnvelope_of_harmless {data' : Dict Str Value} {message' raw raw' : Str}
    (carries : Carries data sender message checksum chunkId batch timestamp)
    (carries' : Carries data' sender message' checksum chunkId batch timestamp)
    (prepared : prepare data = .ok raw) (prepared' : prepare data' = .ok raw') (named : sender ≠ [])
    (wholeSender : bar ∉ sender) (wholeChecksum : bar ∉ checksum) (someBatch : batch ≠ 0)
    (someTimestamp : timestamp ≠ 0) :
    ((parseMessage raw).valid = true ↔ IntegersOk (smuggled message) ∧ senderSeen sender message ≠ []) ∧
      ((parseMessage raw).valid = true → (parseMessage raw).from_ = some (senderSeen sender message) ∧
        (parseMessage raw).timestamp = some timestamp ∧ (parseMessage raw).batch = some batch) ∧
      (Harmless message → Harmless message' →
        (parseMessage raw).valid = true ∧ SameEnvelope (parseMessage raw) (parseMessage raw')) := by
  obtain ⟨⟨batchFits, timestampFits⟩, rfl⟩ := prepare_ok carries prepared
  obtain ⟨-, rfl⟩ := prepare_ok carries' prepared'
  have accepted := parseMessage_valid_iff
    (framed (join bar colon (envelope sender message checksum chunkId batch timestamp)))
  rw [accepts_prepared_iff wholeSender wholeChecksum batchFits timestampFits someBatch someTimestamp] at accepted
  refine ⟨accepted, ?_, ?_⟩
  · intro valid
    obtain ⟨readable, seen⟩ := accepted.mp valid
    rw [parseMessage_prepared wholeSender wholeChecksum batchFits timestampFits someBatch someTimestamp readable seen]
    exact ⟨rfl, rfl, rfl⟩
  · intro harmless harmless'
    have seen := senderSeen_harmless sender harmless
    have seen' := senderSeen_harmless sender harmless'
    rw [parseMessage_prepared wholeSender wholeChecksum batchFits timestampFits someBatch someTimestamp harmless.1
      (by rw [seen]; exact named), parseMessage_prepared wholeSender wholeChecksum batchFits timestampFits someBatch
      someTimestamp harmless'.1 (by rw [seen']; exact named), seen, seen']
    exact ⟨rfl, rfl, rfl, rfl, rfl⟩

theorem sameEnvelope_of_harmless_node :
    ∃ raw raw', prepare (dataOf (lit "node1") (lit "hi") (lit "x") 1 3 5) = .ok raw ∧
      prepare (dataOf (lit "node1") (lit "a|b:*") (lit "x") 1 3 5) = .ok raw' ∧
      (parseMessage raw).valid = true ∧ SameEnvelope (parseMessage raw) (parseMessage raw') := by
  have plain := prepare_eq (carries_dataOf (lit "node1") (lit "hi") (lit "x") 1 3 5)
  have odd := prepare_eq (carries_dataOf (lit "node1") (lit "a|b:*") (lit "x") 1 3 5)
  rw [if_pos (by decide)] at plain odd
  have silent : smuggled (lit "hi") = [] := by decide
  have other : smuggled (lit "a|b:*") = [(lit "b", lit "*")] := by decide
  refine ⟨_, _, plain, odd, (sameEnvelope_of_harmless (carries_dataOf ..) (carries_dataOf ..) plain odd (by decide)
    (by decide) (by decide) (by decide) (by decide)).2.2 ?_ ?_⟩
  · simp [Harmless, silent, IntegersOk]
  · simp [Harmless, other, IntegersOk, IntegerKey]

end Hde.RoundTrip
