import Hde.Saves

/-!
`MessageStream`: the buffers in which chunks wait, one for each sender. A clock
reading is a value of any type with a difference and an order, and every call is
given the readings that it takes.
-/
namespace Hde.Stream
open Hde.Text Hde.Dicts Hde.Frames Hde.Saves

variable {τ : Type*}

structure Buffer (τ : Type*) where
  timestamp : τ
  chunks : Dict Int Str
  batch : Int
deriving DecidableEq

/-- `buf["chunks"][chunk_id] = message` and `buf["timestamp"] = updated`. -/
def Buffer.receive (buf : Buffer τ) (chunkId : Int) (message : Str) (updated : τ) : Buffer τ :=
  { buf with chunks := buf.chunks.set chunkId message, timestamp := updated }

structure MessageStream (τ : Type*) where
  buffers : Dict Str (Buffer τ)
  timeout : τ

namespace MessageStream

/-- `MessageStream(timeout)`. -/
def new (timeout : τ) : MessageStream τ := ⟨Dict.empty, timeout⟩

/-- The buffer that `add_chunk` finds or creates. -/
def bufferOf (stream : MessageStream τ) (sender : Str) (chunkBatch : Int) (created : τ) : Buffer τ :=
  (stream.buffers.get? sender).getD ⟨created, Dict.empty, chunkBatch⟩

/-- `add_chunk`, which reads the clock as `created` when it makes a buffer and then
    as `updated`. Nothing looks at its last argument. A call that raises has
    already changed the buffer. -/
def addChunk (env : Environment) (stream : MessageStream τ) (sender : Str) (chunkId chunkBatch : Int) (message : Str)
    (_timestamp : Int) (created updated : τ) : MessageStream τ × Except PyError (Option Str) :=
  let buf := (stream.bufferOf sender chunkBatch created).receive chunkId message updated
  let kept := { stream with buffers := stream.buffers.set sender buf }
  if isMessageComplete buf.chunks buf.batch then
    match callReassembleChunks env [.dict buf.chunks, .int buf.batch] with
    | .error error => (kept, .error error)
    | .ok fullMessage => ({ kept with buffers := kept.buffers.erase sender }, .ok (some fullMessage))
  else (kept, .ok none)

/-- The call of `reassemble_chunks` in `add_chunk` lacks an argument, so a buffer
    is never deleted there: the call that completes it raises. -/
theorem addChunk_eq (env : Environment) (stream : MessageStream τ) (sender : Str) (chunkId chunkBatch : Int)
    (message : Str) (timestamp : Int) (created updated : τ) :
    stream.addChunk env sender chunkId chunkBatch message timestamp created updated =
      let buf := (stream.bufferOf sender chunkBatch created).receive chunkId message updated
      ({ stream with buffers := stream.buffers.set sender buf },
        if isMessageComplete buf.chunks buf.batch then .error missingBatch else .ok none) := by
  simp only [addChunk, callReassembleChunks]
  split <;> rfl

/-- `cleanup` at the clock reading `now`. -/
def cleanup [Sub τ] [LT τ] [DecidableLT τ] (stream : MessageStream τ) (now : τ) : MessageStream τ :=
  { stream with buffers := stream.buffers.filter fun _ v => ¬ stream.timeout < now - v.timestamp }

end MessageStream

structure AddChunk (τ : Type*) where
  sender : Str
  chunkId : Int
  chunkBatch : Int
  message : Str
  timestamp : Int
  created : τ
  updated : τ
deriving DecidableEq

inductive Op (τ : Type*)
  | addChunk (call : AddChunk τ)
  | cleanup (now : τ)
deriving DecidableEq

def step [Sub τ] [LT τ] [DecidableLT τ] (env : Environment) (stream : MessageStream τ) :
    Op τ → MessageStream τ × Except PyError (Option Str)
  | .addChunk call =>
    stream.addChunk env call.sender call.chunkId call.chunkBatch call.message call.timestamp call.created call.updated
  | .cleanup now => (stream.cleanup now, .ok none)

section Buffers
variable [Sub τ] [LT τ] [DecidableLT τ] {env : Environment} {stream : MessageStream τ} {sender : Str}

/-- A call changes the buffer of its sender. -/
theorem get?_addChunk (call : AddChunk τ) :
    (step env stream (.addChunk call)).1.buffers.get? sender =
      if sender = call.sender then
        some ((stream.bufferOf call.sender call.chunkBatch call.created).receive call.chunkId call.message call.updated)
      else stream.buffers.get? sender := by
  rw [step, MessageStream.addChunk_eq]
  exact Dict.get?_set _ _ _ _

/-- `cleanup` makes no buffer. -/
theorem found_of_cleanup {now : τ} {buf : Buffer τ}
    (found : (step env stream (.cleanup now)).1.buffers.get? sender = some buf) :
    stream.buffers.get? sender = some buf := by
  rw [step, MessageStream.cleanup, Dict.get?_filter, Option.filter_eq_some_iff] at found
  exact found.1

end Buffers

end Hde.Stream
