import Hde.Frames

/-!
`Parser.reassemble_chunks` and `Parser.is_message_complete`. The first reads a
save file named by a sender, a timestamp and a batch; it has three parameters,
and a call with another number of arguments raises before its body runs
(`callReassembleChunks`).
-/
namespace Hde.Saves
open Hde.Text Hde.Numerals Hde.Dicts Hde.Frames

inductive Arg where
  | str (s : Str)
  | int (n : Int)
  | dict (chunks : Dict Int Str)
deriving DecidableEq

structure Environment where
  /-- The JSON object in the file at a path, if there is a file. -/
  saves : Str → Option (Dict Str Str)
  showDict : Dict Int Str → Str

def Arg.format (env : Environment) : Arg → Except PyError Str
  | .str s => .ok s
  | .int n => (strInt n).mapError .valueError
  | .dict chunks => .ok (env.showDict chunks)

/-- `os.path.join` of a path and one more part. -/
def joinPath (path part : Str) : Str :=
  if part.head? = some (CodePoint.ofChar '/') then part
  else if path = [] ∨ path.getLast? = some (CodePoint.ofChar '/') then path ++ part
  else path ++ CodePoint.ofChar '/' :: part

/-- A saved chunk without its `|c<k>|` header, as far as the code strips it:
    everything after the first `|`. -/
def stripMarshal (chunk : Str) : Str := if lit "|c" <:+: chunk then (partition bar chunk).2 else chunk

/-- `Parser.reassemble_chunks`, called with three arguments. -/
def reassembleChunks (env : Environment) (sender timestamp batch : Arg) : Except PyError Str := do
  let fileName := (← sender.format env) ++ lit "_" ++ (← timestamp.format env) ++ lit "_" ++ (← batch.format env) ++
    lit ".json"
  let filePath := joinPath (joinPath (lit "messages") (lit "saves")) fileName
  match env.saves filePath with
  | none => return []
  | some data =>
    let numbered ← data.entries.mapM fun (key, chunk) => do
      return ((← (intOf key).mapError .valueError), chunk)
    return (numbered.mergeSort fun a b => a.1 ≤ b.1).flatMap fun (_, chunk) => stripMarshal chunk

def missingBatch : PyError :=
  .typeError (lit "Parser.reassemble_chunks() missing 1 required positional argument: 'batch'")

/-- A call of `Parser.reassemble_chunks` with positional arguments. -/
def callReassembleChunks (env : Environment) : List Arg → Except PyError Str
  | [sender, timestamp, batch] => reassembleChunks env sender timestamp batch
  | [_, _] => .error missingBatch
  | [_] => .error (.typeError
      (lit "Parser.reassemble_chunks() missing 2 required positional arguments: 'timestamp' and 'batch'"))
  | [] => .error (.typeError
      (lit "Parser.reassemble_chunks() missing 3 required positional arguments: 'sender', 'timestamp', and 'batch'"))
  | arguments => .error (.typeError (lit "Parser.reassemble_chunks() takes 3 positional arguments but " ++
      numeral 10 arguments.length ++ lit " were given"))

/-- `Parser.is_message_complete`. -/
def isMessageComplete (chunks : Dict Int Str) (batchSize : Int) : Bool :=
  (List.range batchSize.toNat).all fun i => chunks.contains (i + 1)

theorem isMessageComplete_iff {chunks : Dict Int Str} {n : Nat} :
    isMessageComplete chunks n = true ↔ ∀ i < n, chunks.contains ((i : Int) + 1) = true := by
  simp [isMessageComplete]

end Hde.Saves
