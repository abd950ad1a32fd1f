import Hde.Heard
import Hde.LastWrites
import Hde.Machines
import Mathlib.Data.List.Permutation
import Mathlib.Data.List.Sublists

/-!
`save_chunk_data` and `reassemble_chunks` on the disk. A save file is an object whose
keys are the texts of the chunk ids, in the order in which the ids were first saved.
On such a file the reader does what it does on a dict of texts
(`reassembleChunks_object`), each save that returns sets one key (`save_spec`), and what
is put together are the last texts in the order of their ids, in whatever order they
came (`reassembles_in_id_order`).
-/
namespace Hde.SaveFiles
open Hde.Text Hde.Numerals Hde.Dicts Hde.Records Hde.LastWrites Hde.Machines Hde.Frames Hde.Saves Hde.JsonText
  Hde.Files Hde.Ids Hde.Heard

/-- What the calls take from Python: beside `json.loads` and `int` of a `float`, the text
    of a dict and what `json.dump` has written to a file when it raises. -/
structure Interpreter where
  python : Python
  showDict : Dict Int Str → Str
  dumped : Json → List UInt8

/-! ### Saving -/

/-- `os.path.join("messages", "saves", f"{sender}_{timestamp}_{batch}.json")`. -/
def savePath (i : Interpreter) (sender timestamp batch : Arg) : Except PyError Str := do
  let env : Environment := ⟨fun _ => none, i.showDict⟩
  let fileName := (← sender.format env) ++ lit "_" ++ (← timestamp.format env) ++ lit "_" ++ (← batch.format env) ++
    lit ".json"
  return joinPath (joinPath (lit "messages") (lit "saves")) fileName

/-- `members[key] = value`. -/
def setMember (members : List (Str × Json)) (key : Str) (value : Json) : List (Str × Json) :=
  if ∃ entry ∈ members, entry.1 = key then members.map fun entry => if entry.1 = key then (key, value) else entry
  else members ++ [(key, value)]

/-- `data[key] = value`. -/
def setItem (data : Json) (key : Str) (value : Json) : Except Failure Json :=
  match data with
  | .obj members => .ok (.obj (setMember members key value))
  | .arr _ => .error (typeError (lit "list indices must be integers or slices, not str"))
  | data => .error (typeError (lit "'" ++ typeName data ++ lit "' object does not support item assignment"))

/-- The dict of the save file, and a new one if there is no file. -/
def loadOrNew (i : Interpreter) (disk : Disk) (path : Str) : Except Failure Json :=
  match disk path with
  | none => .ok (.obj [])
  | some _ => readText disk path >>= i.python.loads

/-- The dict with one more chunk. -/
def savedData (i : Interpreter) (disk : Disk) (path : Str) (chunkId : Int) (message : Str) : Except Failure Json := do
  let data ← loadOrNew i disk path
  let key ← (strInt chunkId).mapError fun e => .raised (.valueError e)
  setItem data key (.str message)

/-- `Parser.save_chunk_data`; `opening` is what `open(file_path, "w")` raises, if it
    raises. -/
def saveChunkData (i : Interpreter) (opening : Option Failure) (disk : Disk) (sender timestamp batch : Arg)
    (chunkId : Int) (message : Str) : Disk × Except Failure Unit :=
  match savePath i sender timestamp batch with
  | .error e => (disk, .error (.raised e))
  | .ok path =>
    match savedData i disk path chunkId message with
    | .error e => (disk, .error e)
    | .ok data =>
      match opening with
      | some failure => (disk, .error failure)
      | none =>
        match dumps (some 2) data with
        | .error e => (write disk path (i.dumped data), .error (.raised (.valueError e)))
        | .ok text => (write disk path (bytes text), .ok ())

/-! ### Reassembling -/

inductive ReassembleError
  | failed (failure : Failure)
  | indexError
deriving DecidableEq

/-- `items[n]`. -/
def itemAt (items : List Json) (n : Int) : Except ReassembleError Json :=
  let position := if n < 0 then items.length + n else n
  match if position < 0 then none else items[position.toNat]? with
  | some item => .ok item
  | none => .error .indexError

/-- `data[key]` for a key that `int` reads. -/
def lookup (data key : Json) : Except ReassembleError Json :=
  match data, key with
  | .arr items, .int n => itemAt items n
  | .arr items, .bool b => itemAt items (if b then 1 else 0)
  | .arr _, key => .error (.failed (typeError (lit "list indices must be integers or slices, not " ++ typeName key)))
  | data, .str key => (getItem data key).mapError .failed
  | data, _ => .error (.failed (typeError (lit "'" ++ typeName data ++ lit "' object is not subscriptable")))

/-- `chunk.split("|", 1)[-1] if "|c" in chunk else chunk`. -/
def unmarked (chunk : Json) : Except Failure Json := do
  if ← mentions chunk (lit "|c") then
    match chunk with
    | .str s => return .str (partition bar s).2
    | chunk => throw (noAttribute chunk (lit "split"))
  else return chunk

/-- `"".join(items)` for items of which `i` have been joined. -/
def joinFrom (i : Nat) : List Json → Except Failure Str
  | [] => .ok []
  | .str s :: more => (joinFrom (i + 1) more).map (s ++ ·)
  | item :: _ =>
    .error (typeError (lit "sequence item " ++ numeral 10 i ++ lit ": expected str instance, " ++ typeName item ++
      lit " found"))

/-- `sorted(data, key=lambda x: int(x))`. -/
def sortedByInt (i : Interpreter) (data : Json) : Except Failure (List Json) := do
  let keys ← iterate data
  let numbered ← keys.mapM fun key => do return ((← pyInt i.python key), key)
  return (numbered.mergeSort fun a b => a.1 ≤ b.1).map Prod.snd

/-- What `reassemble_chunks` makes of the loaded data. -/
def reassembled (i : Interpreter) (data : Json) : Except ReassembleError Str := do
  let keys ← (sortedByInt i data).mapError .failed
  let chunks ← keys.mapM (lookup data)
  let texts ← (chunks.mapM unmarked).mapError .failed
  (joinFrom 0 texts).mapError .failed

/-- `Parser.reassemble_chunks`. -/
def reassembleChunks (i : Interpreter) (disk : Disk) (sender timestamp batch : Arg) : Except ReassembleError Str := do
  let path ← (savePath i sender timestamp batch).mapError fun e => .failed (.raised e)
  match disk path with
  | none => return []
  | some _ => (readText disk path >>= i.python.loads).mapError .failed >>= reassembled i

/-! ### Save files of texts -/

/-- The object of a dict of texts. -/
def object (d : Dict Str Str) : Json := .obj (d.entries.map fun entry => (entry.1, .str entry.2))

variable {i : Interpreter} {disk : Disk} {sender timestamp batch : Arg} {path : Str}

theorem unmarked_str (chunk : Str) : unmarked (.str chunk) = .ok (.str (stripMarshal chunk)) := by
  by_cases marked : lit "|c" <:+: chunk
  · simp only [unmarked, mentions, stripMarshal, marked, decide_true, if_true]
    rfl
  · simp only [unmarked, mentions, stripMarshal, marked, decide_false, if_false]
    rfl

theorem joinFrom_strs (start : Nat) (texts : List Str) : joinFrom start (texts.map .str) = .ok texts.flatten := by
  induction texts generalizing start with
  | nil => rfl
  | cons text more ih =>
    rw [List.map_cons, joinFrom, ih]
    rfl

theorem member_of_mem {entries : List (Str × Str)} (distinct : (entries.map Prod.fst).Nodup) {entry : Str × Str}
    (inside : entry ∈ entries) :
    Json.member (entries.map fun entry => (entry.1, .str entry.2)) entry.1 = some (.str entry.2) := by
  induction entries with
  | nil => cases inside
  | cons first more ih =>
    obtain ⟨fresh, later⟩ := List.nodup_cons.mp distinct
    rw [Json.member, List.map_cons, List.lookup_cons]
    rcases List.mem_cons.mp inside with rfl | behind
    · simp
    · have other : entry.1 ≠ first.1 := by
        intro same
        exact fresh (same ▸ List.mem_map_of_mem behind)
      rw [beq_false_of_ne other]
      exact ih later behind

theorem lookup_object {d : Dict Str Str} {entry : Str × Str} (member : entry ∈ d.entries) :
    lookup (object d) (.str entry.1) = .ok (.str entry.2) := by
  show (getItem (object d) entry.1).mapError _ = _
  rw [object, getItem, member_of_mem d.distinct member]
  rfl

/-- The calls of `int` on the keys, in the two ways of keeping what belongs to them. -/
private theorem numbered_keys (entries : List (Str × Str)) :
    (∃ pairs : List (Int × Str × Str), pairs.map Prod.snd = entries ∧
      (entries.map fun entry => Json.str entry.1).mapM (fun key => do return ((← pyInt i.python key), key)) =
        .ok (pairs.map fun pair => (pair.1, Json.str pair.2.1)) ∧
      entries.mapM (fun (key, chunk) => do return ((← (intOf key).mapError PyError.valueError), chunk)) =
        .ok (pairs.map fun pair => (pair.1, pair.2.2))) ∨
    ∃ e, (entries.map fun entry => Json.str entry.1).mapM (fun key => do return ((← pyInt i.python key), key)) =
        .error (.raised (.valueError e)) ∧
      entries.mapM (fun (key, chunk) => do return ((← (intOf key).mapError PyError.valueError), chunk)) =
        .error (.valueError e) := by
  induction entries with
  | nil => exact .inl ⟨[], rfl, rfl, rfl⟩
  | cons entry more ih =>
    obtain ⟨key, chunk⟩ := entry
    have read : pyInt i.python (.str key) = (intOf key).mapError fun e => .raised (.valueError e) := rfl
    simp only [List.map_cons, List.mapM_cons, read]
    cases intOf key with
    | error e => exact .inr ⟨e, rfl, rfl⟩
    | ok n =>
      rcases ih with ⟨pairs, rfl, keys, chunks⟩ | ⟨e, keys, chunks⟩
      · refine .inl ⟨(n, key, chunk) :: pairs, rfl, ?_, ?_⟩
        · rw [keys]
          rfl
        · rw [chunks]
          rfl
      · refine .inr ⟨e, ?_, ?_⟩
        · rw [keys]
          rfl
        · rw [chunks]
          rfl

/-- The keys in order lead to the texts in order. -/
private theorem reassembled_object (d : Dict Str Str) :
    reassembled i (object d) = ((do
      let numbered ← d.entries.mapM fun (key, chunk) => do return ((← (intOf key).mapError PyError.valueError), chunk)
      return (numbered.mergeSort fun a b => a.1 ≤ b.1).flatMap fun (_, chunk) => stripMarshal chunk) :
        Except PyError Str).mapError fun e => .failed (.raised e) := by
  have keys : iterate (object d) = .ok (d.entries.map fun entry => .str entry.1) := by simp [object, iterate]
  rcases numbered_keys (i := i) d.entries with ⟨pairs, same, numbered, chunks⟩ | ⟨e, numbered, chunks⟩
  · let sorted := pairs.mergeSort fun a b => a.1 ≤ b.1
    have inside : ∀ pair ∈ sorted, pair.2 ∈ d.entries := by
      intro pair member
      rw [← same]
      exact List.mem_map_of_mem (List.mem_mergeSort.mp member)
    have order : sortedByInt i (object d) = .ok (sorted.map fun pair => .str pair.2.1) := by
      rw [sortedByInt, keys]
      show (List.mapM _ _ >>= _ : Except Failure _) = _
      rw [numbered]
      show Except.ok (((pairs.map _).mergeSort _).map Prod.snd) = _
      rw [← List.map_mergeSort (r := fun a b => decide (a.1 ≤ b.1)) (by simp), List.map_map]
      rfl
    have found : (sorted.map fun pair => Json.str pair.2.1).mapM (lookup (object d)) =
        .ok (sorted.map fun pair => .str pair.2.2) := by
      rw [List.mapM_map]
      exact mapM_ok fun pair member => lookup_object (inside pair member)
    have stripped : (sorted.map fun pair => Json.str pair.2.2).mapM unmarked =
        .ok ((sorted.map fun pair => stripMarshal pair.2.2).map .str) := by
      rw [List.mapM_map, List.map_map]
      exact mapM_ok fun pair _ => unmarked_str pair.2.2
    have whole : reassembled i (object d) = .ok (sorted.flatMap fun pair => stripMarshal pair.2.2) := by
      rw [reassembled, order]
      show (List.mapM (lookup (object d)) _ >>= _) = _
      rw [found]
      show ((List.mapM unmarked _).mapError ReassembleError.failed >>= _) = _
      rw [stripped]
      show (joinFrom 0 _).mapError _ = _
      rw [joinFrom_strs, List.flatMap_def]
      rfl
    rw [whole, chunks]
    show _ = Except.ok (((pairs.map _).mergeSort _).flatMap _)
    rw [← List.map_mergeSort (r := fun a b => decide (a.1 ≤ b.1)) (by simp), List.flatMap_map]
  · rw [reassembled, sortedByInt, keys, chunks]
    show ((List.mapM _ _ >>= _ : Except Failure _).mapError _ >>= _) = _
    rw [numbered]
    rfl

private theorem format_congr (env : Environment) (argument : Arg) :
    argument.format ⟨fun _ => none, env.showDict⟩ = argument.format env := by
  cases argument <;> rfl

/-- The reader of a dict of texts, once the path is known. -/
private theorem saves_reassembleChunks (named : savePath i sender timestamp batch = .ok path) (d : Dict Str Str) :
    Saves.reassembleChunks ⟨fun _ => some d, i.showDict⟩ sender timestamp batch = (do
      let numbered ← d.entries.mapM fun (key, chunk) => do return ((← (intOf key).mapError PyError.valueError), chunk)
      return (numbered.mergeSort fun a b => a.1 ≤ b.1).flatMap fun (_, chunk) => stripMarshal chunk) := by
  obtain ⟨s, sent, named⟩ := ok_of_bind named
  obtain ⟨t, timed, named⟩ := ok_of_bind named
  obtain ⟨b, batched, -⟩ := ok_of_bind named
  rw [format_congr ⟨fun _ => some d, i.showDict⟩] at sent timed batched
  rw [Saves.reassembleChunks, sent, timed, batched]
  rfl

theorem reassembleChunks_absent (named : savePath i sender timestamp batch = .ok path) (absent : disk path = none) :
    reassembleChunks i disk sender timestamp batch = .ok [] := by
  rw [reassembleChunks, named]
  show (match disk path with | none => _ | some _ => _) = _
  rw [absent]
  rfl

theorem reassembleChunks_present {node : Node} (named : savePath i sender timestamp batch = .ok path)
    (there : disk path = some node) :
    reassembleChunks i disk sender timestamp batch =
      (readText disk path >>= i.python.loads).mapError .failed >>= reassembled i := by
  rw [reassembleChunks, named]
  show (match disk path with | none => _ | some _ => _) = _
  rw [there]

/-- On a file with an object of texts, `reassemble_chunks` does what it does on the dict
    of these texts. -/
theorem reassembleChunks_object {d : Dict Str Str} {text : Str} (named : savePath i sender timestamp batch = .ok path)
    (read : readText disk path = .ok text) (loaded : i.python.loads text = .ok (object d)) :
    reassembleChunks i disk sender timestamp batch =
      (Saves.reassembleChunks ⟨fun _ => some d, i.showDict⟩ sender timestamp batch).mapError
        fun e => .failed (.raised e) := by
  have there : ∃ node, disk path = some node := by
    cases found : disk path with
    | none => simp [readText, found] at read
    | some node => exact ⟨node, rfl⟩
  obtain ⟨node, there⟩ := there
  rw [saves_reassembleChunks named, ← reassembled_object, reassembleChunks_present named there, read]
  show ((i.python.loads text).mapError ReassembleError.failed >>= _) = _
  rw [loaded]
  rfl

/-! ### Runs of saves -/

/-- The dict under the texts of its ids. -/
def keyed (d : Dict Int Str) : Dict Str Str where
  entries := d.entries.map fun entry => (intText entry.1, entry.2)
  distinct := by
    rw [List.map_map]
    show (d.entries.map (intText ∘ Prod.fst)).Nodup
    rw [← List.map_map]
    exact d.distinct.map intText_injective

/-- What differs from one save to the next. -/
structure SaveCall where
  chunkId : Int
  message : Str
  opening : Option Failure

/-- The id can be written and the file can be opened. -/
def SaveCall.Lands (call : SaveCall) : Prop := WithinLimit call.chunkId ∧ call.opening = none

instance (call : SaveCall) : Decidable call.Lands := inferInstanceAs (Decidable (_ ∧ _))

def save (i : Interpreter) (sender timestamp batch : Arg) (disk : Disk) (call : SaveCall) :
    Disk × Except Failure Unit :=
  saveChunkData i call.opening disk sender timestamp batch call.chunkId call.message

/-- The ids and texts that the calls save. -/
def landed (calls : List SaveCall) : List (Int × Str) :=
  (calls.filter fun call => call.Lands).map fun call => (call.chunkId, call.message)

/-- There is no save file. -/
def Fresh (i : Interpreter) (disk : Disk) (sender timestamp batch : Arg) : Prop :=
  ∀ path, savePath i sender timestamp batch = .ok path → disk path = none

/-- The texts that were saved last, in the order of their ids and without their
    headers. -/
def inIdOrder (saves : List (Int × Str)) : Str := (lastInOrder saves).flatMap stripMarshal

/-- `json.load` undoes `json.dump` on the dicts of these saves. -/
def Undoes (loads : Loads) (saves : List (Int × Str)) : Prop :=
  ∀ d : Dict Int Str, (∀ entry ∈ d.entries, entry ∈ saves) → RoundTrips loads (some 2) (object (keyed d))

/-- What is at the path of the save file after these saves. -/
inductive Saved (disk : Disk) (path : Str) : List (Int × Str) → Prop
  | nothing (absent : disk path = none) : Saved disk path []
  | file {saves : List (Int × Str)} {text : Str} (prints : dumps (some 2) (object (keyed (written saves))) = .ok text)
      (there : disk path = some (.file (bytes text))) : Saved disk path saves

variable {saves : List (Int × Str)}

theorem Undoes.mono {loads : Loads} {more : List (Int × Str)} (undoes : Undoes loads more) (fewer : saves ⊆ more) :
    Undoes loads saves := fun d inside => undoes d fun entry member => fewer (inside entry member)

theorem mem_written {entry : Int × Str} (member : entry ∈ (written saves).entries) : entry ∈ saves := by
  refine lastValue_mem ?_
  rw [← get?_written]
  exact Dict.get?_eq_some_iff.mpr member

theorem setItem_keyed (d : Dict Int Str) (k : Int) (message : Str) :
    setItem (object (keyed d)) (intText k) (.str message) = .ok (object (keyed (d.set k message))) := by
  have keys : (∃ entry ∈ (keyed d).entries.map fun entry => (entry.1, Json.str entry.2), entry.1 = intText k) ↔
      k ∈ d.keys := by
    simp [keyed, Dict.keys, intText_injective.eq_iff]
  show Except.ok (Json.obj (setMember _ _ _)) = _
  rw [setMember]
  by_cases present : k ∈ d.keys
  · have same : ∀ entry : Int × Str, (if intText entry.1 = intText k then (intText k, Json.str message)
        else (intText entry.1, .str entry.2)) =
          (fun entry : Int × Str => (intText entry.1, Json.str entry.2))
            (if entry.1 = k then (k, message) else entry) := by
      intro entry
      by_cases own : entry.1 = k
      · simp [own]
      · simp [own, intText_injective.eq_iff]
    rw [if_pos (keys.mpr present)]
    simp [object, Dict.set, keyed, present, Function.comp_def, same]
  · rw [if_neg (mt keys.mp present)]
    simp [object, Dict.set, keyed, present]

/-- A save file reads back as the dict that was saved. -/
theorem read_saved {text : Str} (prints : dumps (some 2) (object (keyed (written saves))) = .ok text)
    (there : disk path = some (.file (bytes text))) (undoes : Undoes i.python.loads saves) :
    readText disk path = .ok text ∧ i.python.loads text = .ok (object (keyed (written saves))) := by
  obtain ⟨document, prints_too, loaded⟩ := undoes (written saves) fun entry member => mem_written member
  obtain rfl : text = document := Except.ok.inj (prints.symm.trans prints_too)
  exact ⟨readText_printed (printed prints) there, loaded⟩

theorem Saved.load (saved : Saved disk path saves) (undoes : Undoes i.python.loads saves) :
    loadOrNew i disk path = .ok (object (keyed (written saves))) := by
  cases saved with
  | nothing absent =>
    rw [loadOrNew, absent]
    rfl
  | file prints there =>
    obtain ⟨read, loaded⟩ := read_saved prints there undoes
    rw [loadOrNew, there]
    show readText disk path >>= i.python.loads = _
    rw [read]
    exact loaded

theorem savedData_eq (saved : Saved disk path saves) (undoes : Undoes i.python.loads saves) (chunkId : Int)
    (message : Str) :
    savedData i disk path chunkId message =
      if WithinLimit chunkId then .ok (object (keyed (written (saves ++ [(chunkId, message)]))))
      else .error (.raised (.valueError .digitLimit)) := by
  rw [savedData, saved.load undoes, written_append, ← setItem_keyed]
  show ((strInt chunkId).mapError _ >>= _) = _
  rw [strInt]
  by_cases fits : WithinLimit chunkId
  · rw [if_pos fits, if_pos fits]
    rfl
  · rw [if_neg fits, if_neg fits]
    rfl

theorem landed_append (calls more : List SaveCall) : landed (calls ++ more) = landed calls ++ landed more := by
  simp [landed]

/-- One call: it returns if it lands, and then its text is in the file. -/
theorem save_spec (named : savePath i sender timestamp batch = .ok path) (saved : Saved disk path saves)
    (call : SaveCall) (undoes : Undoes i.python.loads (saves ++ landed [call])) :
    ((save i sender timestamp batch disk call).2 = .ok () ↔ call.Lands) ∧
      Saved (save i sender timestamp batch disk call).1 path (saves ++ landed [call]) := by
  obtain ⟨chunkId, message, opening⟩ := call
  have data := savedData_eq saved (undoes.mono (List.subset_append_left saves _)) chunkId message
  have unchanged : ¬ SaveCall.Lands ⟨chunkId, message, opening⟩ →
      saves ++ landed [⟨chunkId, message, opening⟩] = saves := by
    intro fails
    simp [landed, fails]
  simp only [save, saveChunkData, named, data]
  by_cases fits : WithinLimit chunkId
  · cases opening with
    | some failure =>
      have fails : ¬ SaveCall.Lands ⟨chunkId, message, some failure⟩ := by simp [SaveCall.Lands]
      rw [unchanged fails]
      simp only [fits, if_true, fails, iff_false]
      exact ⟨by simp, saved⟩
    | none =>
      have lands : SaveCall.Lands ⟨chunkId, message, none⟩ := ⟨fits, rfl⟩
      have added : landed [⟨chunkId, message, none⟩] = [(chunkId, message)] := by simp [landed, lands]
      rw [added] at undoes ⊢
      obtain ⟨text, prints, -⟩ := undoes (written (saves ++ [(chunkId, message)])) fun entry member =>
        mem_written member
      simp only [fits, if_true, prints, lands]
      exact ⟨trivial, .file prints (write_self _ _ _)⟩
  · have fails : ¬ SaveCall.Lands ⟨chunkId, message, opening⟩ := fun lands => fits lands.1
    rw [unchanged fails]
    simp only [fits, if_false, fails, iff_false]
    exact ⟨by simp, saved⟩

/-- Any sequence of calls, from no save file. -/
theorem saved_after (named : savePath i sender timestamp batch = .ok path) (fresh : disk path = none)
    {calls : List SaveCall} (undoes : Undoes i.python.loads (landed calls)) :
    Saved (after (save i sender timestamp batch) disk calls) path (landed calls) := by
  induction calls using List.reverseRecOn with
  | nil => exact .nothing fresh
  | append_singleton calls call ih =>
    rw [landed_append] at undoes ⊢
    rw [after_append]
    exact (save_spec named (ih (undoes.mono (List.subset_append_left _ _))) call undoes).2

theorem withinLimit_of_mem_landed {calls : List SaveCall} {entry : Int × Str} (member : entry ∈ landed calls) :
    WithinLimit entry.1 := by
  obtain ⟨call, lands, rfl⟩ := List.mem_map.mp member
  have decided := (List.mem_filter.mp lands).2
  exact (of_decide_eq_true decided).1

/-- The dict of a save file in the order of its ids. -/
theorem saves_inIdOrder (named : savePath i sender timestamp batch = .ok path)
    (writable : ∀ entry ∈ saves, WithinLimit entry.1) :
    Saves.reassembleChunks ⟨fun _ => some (keyed (written saves)), i.showDict⟩ sender timestamp batch =
      .ok (inIdOrder saves) := by
  have numbered : (keyed (written saves)).entries.mapM
      (fun (key, chunk) => do return ((← (intOf key).mapError PyError.valueError), chunk)) =
        .ok ((written saves).entries.map id) := by
    rw [keyed, List.mapM_map]
    refine mapM_ok fun entry member => ?_
    show ((intOf (intText entry.1)).mapError _ >>= _) = _
    rw [intOf_intText (writable entry (mem_written member))]
    rfl
  rw [saves_reassembleChunks named, numbered, List.map_id]
  show Except.ok (List.flatMap _ _) = _
  rw [inIdOrder, ← written_inOrder, List.flatMap_map]

/-- What the saves leave in the file is put together in the order of the ids. -/
theorem reassembleChunks_saved (named : savePath i sender timestamp batch = .ok path) (saved : Saved disk path saves)
    (undoes : Undoes i.python.loads saves) (writable : ∀ entry ∈ saves, WithinLimit entry.1) :
    reassembleChunks i disk sender timestamp batch = .ok (inIdOrder saves) := by
  cases saved with
  | nothing absent =>
    rw [reassembleChunks_absent named absent]
    simp [inIdOrder, lastInOrder, sortedKeys]
  | file prints there =>
    obtain ⟨read, loaded⟩ := read_saved prints there undoes
    rw [reassembleChunks_object named read loaded, saves_inIdOrder named writable]
    rfl

section Order
variable (fresh : Fresh i disk sender timestamp batch) {calls : List SaveCall}
  (undoes : Undoes i.python.loads (landed calls))
include fresh undoes

theorem reassembleChunks_after :
    reassembleChunks i (after (save i sender timestamp batch) disk calls) sender timestamp batch =
      ((savePath i sender timestamp batch).map fun _ => inIdOrder (landed calls)).mapError
        fun e => .failed (.raised e) := by
  cases named : savePath i sender timestamp batch with
  | error e =>
    rw [reassembleChunks, named]
    rfl
  | ok path =>
    have saved := saved_after named (fresh path named) undoes
    exact reassembleChunks_saved named saved undoes fun entry member => withinLimit_of_mem_landed member

/-- A call in a run returns exactly if it lands. -/
theorem answer_ok_iff {call : SaveCall} {answer : Except Failure Unit}
    (given : (call, answer) ∈ answers (save i sender timestamp batch) disk calls) :
    answer = .ok () ↔ call.Lands ∧ ∃ path, savePath i sender timestamp batch = .ok path := by
  obtain ⟨before, rest, rfl, rfl⟩ := mem_answers given
  cases named : savePath i sender timestamp batch with
  | error e => simp [save, saveChunkData, named]
  | ok path =>
    rw [landed_append, ← List.singleton_append, landed_append] at undoes
    have saved := saved_after named (fresh path named) (undoes.mono (List.subset_append_left _ _))
    have own : Undoes i.python.loads (landed before ++ landed [call]) := by
      rw [← List.append_assoc] at undoes
      exact undoes.mono (List.subset_append_left _ _)
    simpa using (save_spec named saved call own).1

/-- Whatever is saved in whatever order, the file is put together from the last text of
    each id in the order of the ids; a call returns exactly if its id can be written
    and the file can be opened. -/
theorem reassembles_in_id_order :
    (∀ call answer, (call, answer) ∈ answers (save i sender timestamp batch) disk calls →
      (answer = .ok () ↔ call.Lands ∧ ∃ path, savePath i sender timestamp batch = .ok path)) ∧
    reassembleChunks i (after (save i sender timestamp batch) disk calls) sender timestamp batch =
      ((savePath i sender timestamp batch).map fun _ => inIdOrder (landed calls)).mapError
        (fun e => .failed (.raised e)) ∧
    ∀ others, Undoes i.python.loads (landed others) →
      (∀ k, lastValue k (landed others) = lastValue k (landed calls)) →
        reassembleChunks i (after (save i sender timestamp batch) disk others) sender timestamp batch =
          reassembleChunks i (after (save i sender timestamp batch) disk calls) sender timestamp batch := by
  refine ⟨fun call answer given => answer_ok_iff fresh undoes given, reassembleChunks_after fresh undoes, ?_⟩
  intro others undoes_too same
  have order : inIdOrder (landed others) = inIdOrder (landed calls) := by
    rw [inIdOrder, inIdOrder, lastInOrder_congr same]
  rw [reassembleChunks_after fresh undoes, reassembleChunks_after fresh undoes_too, order]

end Order

/-! ### A `json.load` that knows some saves -/

/-- The objects of the dicts that some of the saves lead to. -/
def documents (saves : List (Int × Str)) : List Json :=
  (saves.sublists'.flatMap List.permutations').map fun entries =>
    .obj (entries.map fun entry => (intText entry.1, .str entry.2))

theorem undoes_knowing (distinct : ((documents saves).map (dumps (some 2))).Nodup)
    (printable : ∀ value ∈ documents saves, (dumps (some 2) value).isOk = true) :
    Undoes (knowing (some 2) (documents saves)) saves := by
  intro d inside
  refine roundTrips_knowing distinct printable _ ?_
  have part : d.entries.Subperm saves := List.subperm_of_subset d.distinct.of_map inside
  obtain ⟨entries, order, sublist⟩ := part
  refine List.mem_map.mpr ⟨d.entries, List.mem_flatMap.mpr ⟨entries, List.mem_sublists'.mpr sublist, ?_⟩, ?_⟩
  · exact List.mem_permutations'.mpr order.symm
  · simp [object, keyed]

def knowingInterpreter (saves : List (Int × Str)) : Interpreter where
  python := ⟨knowing (some 2) (documents saves), fun _ => .ok 0⟩
  showDict := fun _ => []
  dumped := fun _ => []

private def outOfOrder : List SaveCall := [⟨10, lit "b", none⟩, ⟨9, lit "|c9|a", none⟩, ⟨10, lit "c", none⟩]

theorem reassembles_in_id_order_ten :
    reassembleChunks (knowingInterpreter (landed outOfOrder))
      (after (save (knowingInterpreter (landed outOfOrder)) (.str (lit "node1")) (.int 5) (.int 3)) (fun _ => none)
        outOfOrder)
      (.str (lit "node1")) (.int 5) (.int 3) = .ok (lit "c9|ac") := by
  have undoes : Undoes (knowingInterpreter (landed outOfOrder)).python.loads (landed outOfOrder) :=
    undoes_knowing (by decide +kernel) (by decide +kernel)
  have order : lastInOrder (landed outOfOrder) = [lit "|c9|a", lit "c"] := by
    have same : ∀ k, lastValue k (landed outOfOrder) = lastValue k [(9, lit "|c9|a"), (10, lit "c")] := by
      intro k
      have saves : landed outOfOrder = [(10, lit "b"), (9, lit "|c9|a"), (10, lit "c")] := by decide
      rw [saves]
      simp only [lastValue_cons, lastValue_nil]
      by_cases ten : 10 = k <;> simp [ten]
    rw [lastInOrder_congr same, lastInOrder_sorted (by decide)]
    rfl
  refine (reassembles_in_id_order (fun _ _ => rfl) undoes).2.1.trans ?_
  rw [inIdOrder, order]
  decide

end Hde.SaveFiles
