import Hde.Heard
import Hde.Reassembly

/-!
`Parser.batch_chunks` and what a receiver makes of it. Its entries cannot be framed
(`batched_unprepared`), and `MessageStream` takes their batch id for the number of
chunks (`batched_answers`).
-/
namespace Hde.Batching
open Hde.Text Hde.Numerals Hde.Dicts Hde.Frames Hde.JsonText Hde.Files Hde.Ids Hde.Saves Hde.Heard Hde.Stream Hde.Machines
open Hde.Stream.MessageStream

/-! ### The entries -/

/-- An entry of `batch_chunks`. -/
structure BatchedChunk where
  from_ : Str
  message : Str
  chunkId : Int
  chunkBatch : Int
  timestamp : Int

structure Batched where
  from_ : Str
  timestamp : Int
  batch : Int
  chunk : List BatchedChunk

/-- `Parser.batch_chunks` at a time. Nothing looks at `batch_size`. -/
def batchChunks (python : Python) (disk : Disk) (timestamp : Int) (chunks : List Str) (_batchSize : Int) (sender : Str) :
    Except Failure Batched := do
  let batchId := (← lastBatchId python disk) + 1
  return {
    from_ := sender
    timestamp := timestamp
    batch := batchId
    chunk := chunks.mapIdx fun i chunk => ⟨sender, chunk, i + 1, batchId, timestamp⟩ }

/-- The dict that an entry is. -/
def BatchedChunk.dict (entry : BatchedChunk) : Dict Str Value :=
  ((((Dict.empty.set (lit "from") (.str entry.from_)).set (lit "message") (.str entry.message)).set (lit "chunk_id")
    (.int entry.chunkId)).set (lit "chunk_batch") (.int entry.chunkBatch)).set (lit "timestamp") (.int entry.timestamp)

variable {python : Python} {disk : Disk} {timestamp : Int} {chunks : List Str} {batchSize : Int} {sender : Str}
  {batched : Batched}

theorem batched_chunk (made : batchChunks python disk timestamp chunks batchSize sender = .ok batched) :
    batched.chunk = chunks.mapIdx fun i chunk => ⟨sender, chunk, i + 1, batched.batch, timestamp⟩ := by
  obtain ⟨last, -, rest⟩ := ok_of_bind made
  cases rest
  rfl

/-- No entry has a checksum, so that `prepare` makes no frame of any. -/
theorem batched_unprepared (entry : BatchedChunk) : prepare entry.dict = .error (.keyError (lit "checksum")) := by
  have sender : formatField entry.dict (lit "from") = .ok (lit "from" ++ colon :: entry.from_) := by
    simp [formatField, BatchedChunk.dict, Dict.get?_set, Value.format]
  have message : formatField entry.dict (lit "message") = .ok (lit "message" ++ colon :: entry.message) := by
    simp [formatField, BatchedChunk.dict, Dict.get?_set, Value.format]
  have checksum : formatField entry.dict (lit "checksum") = .error (.keyError (lit "checksum")) := by
    simp [formatField, BatchedChunk.dict, Dict.get?_set]
  simp only [prepare, fieldKeys, List.mapM_cons, sender, message, checksum]
  rfl

/-- The batch is after every batch in `to_send.json`. -/
theorem batched_fresh {pairs : List (Int × Int)} (toSend : ToSend python disk pairs)
    (made : batchChunks python disk timestamp chunks batchSize sender = .ok batched) :
    ∀ pair ∈ pairs, pair.1 < batched.batch := by
  obtain ⟨last, found, rest⟩ := ok_of_bind made
  cases rest
  have next : generateBatchId python disk = .ok (last + 1) := by
    rw [generateBatchId, found]
    rfl
  rw [generateBatchId_eq toSend] at next
  intro pair member
  have below := le_maxDefault (List.mem_map_of_mem (f := Prod.fst) member)
  have same := Except.ok.inj next
  show pair.1 < last + 1
  omega

/-! ### The receiver's view of a batch -/

/-- A call of `add_chunk` that brings an entry, with the clock readings it takes. -/
structure Arrival (τ : Type*) where
  entry : BatchedChunk
  created : τ
  updated : τ

variable {τ : Type*}

def Arrival.op (arrival : Arrival τ) : Op τ :=
  .addChunk ⟨arrival.entry.from_, arrival.entry.chunkId, arrival.entry.chunkBatch, arrival.entry.message,
    arrival.entry.timestamp, arrival.created, arrival.updated⟩

/-- The ids that have come. -/
def ids (arrivals : List (Arrival τ)) : List Int := arrivals.map fun arrival => arrival.entry.chunkId

/-- The chunks that the receiver waits for: as many as the batch id says. -/
def AllCame (batch : Int) (arrivals : List (Arrival τ)) : Prop := ∀ i < batch.toNat, (i : Int) + 1 ∈ ids arrivals

instance (batch : Int) (arrivals : List (Arrival τ)) : Decidable (AllCame batch arrivals) :=
  inferInstanceAs (Decidable (∀ i < batch.toNat, (i : Int) + 1 ∈ ids arrivals))

/-- The sender's buffer, or the one that the next call makes, waits for so many chunks and
    has those that came. -/
def Gathered (stream : MessageStream τ) (sender : Str) (batch : Int) (arrivals : List (Arrival τ)) : Prop :=
  ∀ created, (stream.bufferOf sender batch created).batch = batch ∧
    ∀ id, (stream.bufferOf sender batch created).chunks.contains id = true ↔ id ∈ ids arrivals

/-- An arrival from this sender's batch. -/
def OfBatch (sender : Str) (batch : Int) (arrival : Arrival τ) : Prop :=
  arrival.entry.from_ = sender ∧ arrival.entry.chunkBatch = batch

variable [Sub τ] [LT τ] [DecidableLT τ] {env : Environment} {stream : MessageStream τ} {batch : Int}
  {arrivals : List (Arrival τ)} {arrival : Arrival τ}

theorem gathered_step (gathered : Gathered stream sender batch arrivals) (own : OfBatch sender batch arrival) :
    Gathered (step env stream arrival.op).1 sender batch (arrivals ++ [arrival]) ∧
      (step env stream arrival.op).2 =
        if AllCame batch (arrivals ++ [arrival]) then .error missingBatch else .ok none := by
  obtain ⟨rfl, rfl⟩ := own
  obtain ⟨waits, came⟩ := gathered arrival.created
  have contains (id : Int) : (((stream.bufferOf arrival.entry.from_ arrival.entry.chunkBatch arrival.created).receive
      arrival.entry.chunkId arrival.entry.message arrival.updated).chunks.contains id = true) ↔
        id ∈ ids (arrivals ++ [arrival]) := by
    simp only [Buffer.receive, Dict.contains, Dict.get?_set, ids, List.map_append, List.mem_append, List.map_cons,
      List.map_nil, List.mem_singleton]
    by_cases same : id = arrival.entry.chunkId
    · simp [same]
    · simpa [same, Dict.contains, ids] using came id
  constructor
  · intro created
    simp only [Arrival.op, step, addChunk_eq, bufferOf, Dict.get?_set, if_true, Option.getD_some]
    exact ⟨waits, contains⟩
  · simp only [Arrival.op, step, addChunk_eq]
    refine if_congr ?_ rfl rfl
    simp only [isMessageComplete, List.all_eq_true, List.mem_range, Buffer.receive, AllCame]
    rw [waits]
    exact forall₂_congr fun i _ => contains (i + 1)

theorem gathered_run (fresh : stream.buffers.get? sender = none)
    (own : ∀ arrival ∈ arrivals, OfBatch sender batch arrival) :
    Gathered (after (step env) stream (arrivals.map Arrival.op)) sender batch arrivals := by
  induction arrivals using List.reverseRecOn with
  | nil =>
    intro created
    simp [bufferOf, fresh, ids, Dict.contains]
  | append_singleton earlier last ih =>
    rw [List.map_append, after_append]
    exact (gathered_step (ih fun arrival member => own arrival (List.mem_append_left _ member))
      (own last (by simp))).1

theorem mem_batched (made : batchChunks python disk timestamp chunks batchSize sender = .ok batched)
    {entry : BatchedChunk} (member : entry ∈ batched.chunk) :
    entry.from_ = sender ∧ entry.chunkBatch = batched.batch ∧ 1 ≤ entry.chunkId ∧ entry.chunkId ≤ chunks.length := by
  rw [batched_chunk made] at member
  obtain ⟨k, small, rfl⟩ := List.mem_iff_getElem.mp member
  rw [List.length_mapIdx] at small
  simp only [List.getElem_mapIdx, true_and]
  omega

/-- Whatever entries of a batch arrive in whatever order, a call is answered with the
    error once the chunks from 1 to the batch id have come, and else with nothing. So a
    batch whose id is greater than the number of its chunks is never complete. -/
theorem batched_answers (made : batchChunks python disk timestamp chunks batchSize sender = .ok batched)
    (fresh : stream.buffers.get? sender = none) (own : ∀ arrival ∈ arrivals, arrival.entry ∈ batched.chunk) :
    (∀ before last rest, arrivals = before ++ last :: rest →
      (step env (after (step env) stream (before.map Arrival.op)) last.op).2 =
        if AllCame batched.batch (before ++ [last]) then .error missingBatch else .ok none) ∧
      ((chunks.length : Int) < batched.batch →
        ∀ answer ∈ answers (step env) stream (arrivals.map Arrival.op), answer.2 = .ok none) := by
  have ofBatch : ∀ arrival ∈ arrivals, OfBatch sender batched.batch arrival := fun arrival member =>
    ⟨(mem_batched made (own arrival member)).1, (mem_batched made (own arrival member)).2.1⟩
  have each : ∀ before last rest, arrivals = before ++ last :: rest →
      (step env (after (step env) stream (before.map Arrival.op)) last.op).2 =
        if AllCame batched.batch (before ++ [last]) then .error missingBatch else .ok none := by
    rintro before last rest rfl
    exact (gathered_step (gathered_run fresh fun arrival member => ofBatch arrival (by simp [member]))
      (ofBatch last (by simp))).2
  refine ⟨each, fun few answer member => ?_⟩
  obtain ⟨op, answer⟩ := answer
  obtain ⟨before, rest, split, rfl⟩ := mem_answers member
  obtain ⟨earlier, later, rfl, rfl, more⟩ := List.map_eq_append_iff.mp split
  obtain ⟨last, others, rfl, rfl, rfl⟩ := List.map_eq_cons_iff.mp more
  refine (each earlier last others rfl).trans (if_neg fun came => ?_)
  -- the last id that the receiver waits for is beyond the chunks
  have beyond := came (batched.batch.toNat - 1) (by omega)
  obtain ⟨arrival, inside, same⟩ := List.mem_map.mp beyond
  have bound := (mem_batched made (own arrival (by
    rcases List.mem_append.mp inside with old | new
    · exact List.mem_append_left _ old
    · rw [List.mem_singleton.mp new]
      simp))).2.2.2
  omega

/-- The third batch of a unit: two chunks, of which the second comes first. -/
def third : Batched where
  from_ := lit "node1"
  timestamp := 1722250340
  batch := 3
  chunk := [⟨lit "node1", lit "a", 1, 3, 1722250340⟩, ⟨lit "node1", lit "b", 2, 3, 1722250340⟩]

def crossed : List (Arrival Int) :=
  [⟨⟨lit "node1", lit "b", 2, 3, 1722250340⟩, 5, 5⟩, ⟨⟨lit "node1", lit "a", 1, 3, 1722250340⟩, 6, 6⟩]

theorem batched_answers_third :
    crossed.length = 2 ∧ ∀ answer ∈ answers (step ⟨fun _ => none, fun _ => []⟩) (.new 60) (crossed.map Arrival.op),
      answer.2 = .ok none := by
  let toSend := lit "\x7b\"7\": \x7b\"chunk_batch\": 2\x7d\x7d"
  let sent : Json := .obj [(lit "7", .obj [(lit "chunk_batch", .int 2)])]
  let python : Python := ⟨knowing none [sent], fun _ => .error (typeError [])⟩
  have made : batchChunks python (write (fun _ => none) toSendPath (bytes toSend)) 1722250340 [lit "a", lit "b"] 2
      (lit "node1") = .ok third := by
    rfl
  have own : ∀ arrival ∈ crossed, arrival.entry ∈ third.chunk := by
    intro arrival member
    simp only [crossed, List.mem_cons, List.not_mem_nil, or_false] at member
    rcases member with rfl | rfl
    · exact .tail _ (.head _)
    · exact .head _
  exact ⟨rfl, (batched_answers made rfl own).2 (by decide)⟩

end Hde.Batching
