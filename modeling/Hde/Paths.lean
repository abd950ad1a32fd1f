import Hde.SaveFiles

/-!
Where the save files are. A path leads through its segments, from the working directory
or from the root (`located`), and joining two paths is walking the second from where the
first one leads (`located_joinPath`). The name of a save file starts with the sender as
it came, so the file is in the folder to which the sender leads from `messages/saves`
(`located_savePath`). Two save files are apart and in their place exactly when no sender
leaves this folder and the triples do not agree behind the last "/" of the senders
(`separate_exactly`).
-/
namespace Hde.Paths
open Hde.Text Hde.Numerals Hde.JsonText Hde.Files Hde.Saves Hde.SaveFiles

/-! ### Paths -/

def slash : CodePoint := CodePoint.ofChar '/'

/-- One segment of a path: an empty one and "." stay in the folder, and ".." goes up,
    except from the root. -/
def enter (folder : List Str) (segment : Str) : List Str :=
  if segment = [] ∨ segment = lit "." then folder
  else if segment = lit ".." then folder.dropLast
  else folder ++ [segment]

/-- The folder in which a path starts. -/
def start (folder : List Str) (path : Str) : List Str := if path.head? = some slash then [] else folder

/-- `os.path.abspath`, as the segments from the root. -/
def located (cwd : List Str) (path : Str) : List Str := (path.splitOn slash).foldl enter (start cwd path)

/-- The folder that holds what a path leads to when the path is continued without
    another "/". -/
def folderOf (folder : List Str) (path : Str) : List Str :=
  ((rpartition slash path).1.splitOn slash).foldl enter (start folder path)

variable {cwd folder : List Str} {path name segment sender tail : Str}

theorem enter_name (first : segment ≠ []) (here : segment ≠ lit ".") (up : segment ≠ lit "..") :
    enter folder segment = folder ++ [segment] := by
  rw [enter, if_neg (not_or.mpr ⟨first, here⟩), if_neg up]

theorem start_append (some_path : path ≠ []) (tail : Str) : start folder (path ++ tail) = start folder path := by
  obtain ⟨c, rest, rfl⟩ := List.exists_cons_of_ne_nil some_path
  rfl

theorem located_absolute (absolute : path.head? = some slash) : located cwd path = located folder path := by
  rw [located, located, start, start, if_pos absolute, if_pos absolute]

theorem located_relative (relative : path.head? ≠ some slash) :
    located cwd path = (path.splitOn slash).foldl enter cwd := by
  rw [located, start, if_neg relative]

theorem located_joinPath (cwd : List Str) (path name : Str) :
    located cwd (joinPath path name) = located (located cwd path) name := by
  by_cases absolute : name.head? = some slash
  · have joined : joinPath path name = name := if_pos absolute
    rw [joined]
    exact located_absolute absolute
  · rw [located_relative absolute]
    by_cases bare : path = [] ∨ path.getLast? = some slash
    · have joined : joinPath path name = path ++ name := (if_neg absolute).trans (if_pos bare)
      rw [joined]
      rcases bare with rfl | ends
      · exact located_relative absolute
      · obtain ⟨before, rfl⟩ := List.getLast?_eq_some_iff.mp ends
        have whole : (before ++ [slash] ++ name).splitOn slash = before.splitOn slash ++ name.splitOn slash := by
          rw [List.append_assoc]
          exact List.splitOn_append_cons_self before name
        have first : (before ++ [slash]).splitOn slash = before.splitOn slash ++ [[]] :=
          List.splitOn_append_cons_self before []
        rw [located, located, start_append (by simp), whole, first, List.foldl_append, List.foldl_append]
        rfl
    · have joined : joinPath path name = path ++ slash :: name := (if_neg absolute).trans (if_neg bare)
      have whole : (path ++ slash :: name).splitOn slash = path.splitOn slash ++ name.splitOn slash :=
        List.splitOn_append_cons_self path name
      rw [joined, located, start_append (not_or.mp bare).1, whole, List.foldl_append]
      rfl

/-- A path that goes on without another "/" leads to one name in its folder. -/
theorem located_append (clean : slash ∉ tail) (path : Str) :
    located folder (path ++ tail) = enter (folderOf folder path) ((rpartition slash path).2 ++ tail) := by
  have started : start folder (path ++ tail) = start folder path := by
    cases path with
    | cons c rest => rfl
    | nil =>
      have relative : ¬ tail.head? = some slash := fun first => clean (List.mem_of_head? first)
      rw [start, start, List.nil_append, if_neg relative]
      rfl
  rw [located, started, folderOf]
  by_cases inside : slash ∈ path
  · obtain ⟨split, behind⟩ := rpartition_spec inside
    have last : slash ∉ (rpartition slash path).2 ++ tail := by
      simp [behind, clean]
    have parts : (path ++ tail).splitOn slash =
        (rpartition slash path).1.splitOn slash ++ [(rpartition slash path).2 ++ tail] := by
      conv_lhs => rw [split, List.append_assoc, List.cons_append, List.splitOn_append_cons_self]
      rw [List.splitOn_eq_singleton last]
    rw [parts, List.foldl_append]
    rfl
  · have last : slash ∉ path ++ tail := by
      simp [inside, clean]
    rw [List.splitOn_eq_singleton last, rpartition_absent inside]
    rfl

/-! ### Names of save files -/

/-- What stands behind the sender in the name of a save file. -/
def suffix (timestamp batch : Int) : Str := lit "_" ++ intText timestamp ++ lit "_" ++ intText batch ++ lit ".json"

variable {i : Interpreter} {sender' path' : Str} {timestamp batch timestamp' batch' : Int}

theorem slash_not_mem_suffix : slash ∉ suffix timestamp batch := by
  have absent : ∀ n, slash ∉ intText n := not_mem_intText (by decide) (by decide)
  have marks : slash ∉ lit "_" ∧ slash ∉ lit ".json" := by decide
  simp [suffix, absent, marks]

/-- The name of a save file says its sender, timestamp and batch: read from the right. -/
theorem name_injective (same : sender ++ suffix timestamp batch = sender' ++ suffix timestamp' batch') :
    sender = sender' ∧ timestamp = timestamp' ∧ batch = batch' := by
  have absent : ∀ n, CodePoint.ofChar '_' ∉ intText n := not_mem_intText (by decide) (by decide)
  have names : ∀ (s : Str) (t b : Int), s ++ suffix t b =
      ((s ++ CodePoint.ofChar '_' :: intText t) ++ CodePoint.ofChar '_' :: intText b) ++ lit ".json" := by
    intro s t b
    simp only [suffix, List.append_assoc]
    rfl
  rw [names, names] at same
  have whole := List.append_cancel_right same
  have last := congrArg (rpartition (CodePoint.ofChar '_')) whole
  rw [rpartition_append (absent _), rpartition_append (absent _)] at last
  obtain ⟨front, batches⟩ := Prod.mk.inj last
  have first := congrArg (rpartition (CodePoint.ofChar '_')) front
  rw [rpartition_append (absent _), rpartition_append (absent _)] at first
  obtain ⟨senders, timestamps⟩ := Prod.mk.inj first
  exact ⟨senders, intText_injective timestamps, intText_injective batches⟩

theorem savePath_eq (i : Interpreter) (sender : Str) (timestamp batch : Int) :
    savePath i (.str sender) (.int timestamp) (.int batch) =
      if WithinLimit timestamp ∧ WithinLimit batch then
        .ok (joinPath (joinPath (lit "messages") (lit "saves")) (sender ++ suffix timestamp batch))
      else .error (.valueError .digitLimit) := by
  have name : sender ++ lit "_" ++ intText timestamp ++ lit "_" ++ intText batch ++ lit ".json" =
      sender ++ suffix timestamp batch := by
    simp only [suffix, List.append_assoc]
  rw [← name, savePath]
  simp only [Arg.format, strInt]
  by_cases timed : WithinLimit timestamp <;> by_cases batched : WithinLimit batch <;>
    simp only [timed, batched] <;> rfl

theorem path_of_savePath (named : savePath i (.str sender) (.int timestamp) (.int batch) = .ok path) :
    path = joinPath (joinPath (lit "messages") (lit "saves")) (sender ++ suffix timestamp batch) := by
  rw [savePath_eq] at named
  split at named
  · exact (Except.ok.inj named).symm
  · cases named

/-! ### Where they are -/

/-- `SAVE_DIR`. -/
def saveDir (cwd : List Str) : List Str := cwd ++ [lit "messages", lit "saves"]

/-- The path leads to a file directly in the directory of the saves. -/
def Inside (cwd : List Str) (path : Str) : Prop := ∃ name, located cwd path = saveDir cwd ++ [name]

/-- What precedes the last "/" of the sender leads from the directory of the saves back to
    it. -/
def Stays (cwd : List Str) (sender : Str) : Prop := folderOf (saveDir cwd) sender = saveDir cwd

instance (cwd : List Str) (sender : Str) : Decidable (Stays cwd sender) := inferInstanceAs (Decidable (_ = _))

/-- Two files directly in the directory of the saves. -/
structure Separate (cwd : List Str) (path path' : Str) : Prop where
  first : Inside cwd path
  second : Inside cwd path'
  apart : located cwd path ≠ located cwd path'

theorem stays_of_absent (absent : slash ∉ sender) : Stays cwd sender := by
  have relative : ¬ sender.head? = some slash := fun first => absent (List.mem_of_head? first)
  rw [Stays, folderOf, rpartition_absent absent, start, if_neg relative]
  rfl

theorem located_saves (cwd : List Str) : located cwd (joinPath (lit "messages") (lit "saves")) = saveDir cwd := by
  have segments : (joinPath (lit "messages") (lit "saves")).splitOn slash = [lit "messages", lit "saves"] := by
    decide +kernel
  have relative : (joinPath (lit "messages") (lit "saves")).head? ≠ some slash := by decide
  rw [located_relative relative, segments, saveDir]
  show enter (enter cwd (lit "messages")) (lit "saves") = _
  rw [enter_name (by decide) (by decide) (by decide), enter_name (by decide) (by decide) (by decide), List.append_assoc]
  rfl

/-- The file of a triple: a name of its own in the folder to which its sender leads. -/
theorem located_savePath (named : savePath i (.str sender) (.int timestamp) (.int batch) = .ok path) (cwd : List Str) :
    located cwd path = folderOf (saveDir cwd) sender ++ [(rpartition slash sender).2 ++ suffix timestamp batch] := by
  have last : ((rpartition slash sender).2 ++ suffix timestamp batch).getLast? = some (CodePoint.ofChar 'n') := by
    rw [suffix, ← List.append_assoc]
    exact List.getLast?_append_of_ne_nil _ (by decide)
  have differs : ∀ segment : Str, segment.getLast? ≠ some (CodePoint.ofChar 'n') →
      (rpartition slash sender).2 ++ suffix timestamp batch ≠ segment := by
    rintro segment other rfl
    exact other last
  rw [path_of_savePath named, located_joinPath, located_saves, located_append slash_not_mem_suffix,
    enter_name (differs [] (by decide)) (differs (lit ".") (by decide)) (differs (lit "..") (by decide))]

theorem inside_iff (named : savePath i (.str sender) (.int timestamp) (.int batch) = .ok path) :
    Inside cwd path ↔ Stays cwd sender := by
  rw [Inside, located_savePath named cwd, Stays]
  constructor
  · rintro ⟨name, same⟩
    exact (List.append_inj' same rfl).1
  · intro stays
    exact ⟨_, by rw [stays]⟩

/-! ### What the calls touch -/

/-- A save leaves every file but its own as it was. -/
theorem saveChunkData_of_ne {sender timestamp batch : Arg} (named : savePath i sender timestamp batch = .ok path)
    (opening : Option Failure) (disk : Disk) (chunkId : Int) (message : Str) {other : Str}
    (different : other ≠ path) :
    (saveChunkData i opening disk sender timestamp batch chunkId message).1 other = disk other := by
  cases data : savedData i disk path chunkId message with
  | error e => simp only [saveChunkData, named, data]
  | ok value =>
    cases opening with
    | some failure => simp only [saveChunkData, named, data]
    | none =>
      cases printed : dumps (some 2) value with
      | error e =>
        simp only [saveChunkData, named, data, printed]
        exact write_of_ne disk _ different
      | ok text =>
        simp only [saveChunkData, named, data, printed]
        exact write_of_ne disk _ different

/-- What is put together is read from one file. -/
theorem reassembleChunks_congr {sender timestamp batch : Arg} (named : savePath i sender timestamp batch = .ok path)
    {disk disk' : Disk} (same : disk path = disk' path) :
    reassembleChunks i disk sender timestamp batch = reassembleChunks i disk' sender timestamp batch := by
  have text : readText disk path = readText disk' path := by
    rw [readText, readText, same]
  cases found : disk path with
  | none => rw [reassembleChunks_absent named found, reassembleChunks_absent named (same ▸ found)]
  | some node => rw [reassembleChunks_present named found, reassembleChunks_present named (same ▸ found), text]

/-- A chunk of one message does not change what is put together for a message whose file is
    elsewhere. -/
theorem reassembleChunks_undisturbed {cwd : List Str} {sender timestamp batch sender' timestamp' batch' : Arg}
    (first : savePath i sender timestamp batch = .ok path) (second : savePath i sender' timestamp' batch' = .ok path')
    (apart : located cwd path ≠ located cwd path') (opening : Option Failure) (disk : Disk) (chunkId : Int)
    (message : Str) :
    reassembleChunks i (saveChunkData i opening disk sender timestamp batch chunkId message).1 sender' timestamp'
      batch' = reassembleChunks i disk sender' timestamp' batch' := by
  have different : path' ≠ path := by
    rintro rfl
    exact apart rfl
  exact reassembleChunks_congr second (saveChunkData_of_ne first opening disk chunkId message different)

/-! ### Apart and in their place -/

/-- For every working directory, senders, timestamps and batches: the two save files are apart
    and directly in `messages/saves` exactly if both senders stay there and the triples differ
    behind the last "/" of the senders. -/
theorem separate_exactly (cwd : List Str)
    (first : savePath i (.str sender) (.int timestamp) (.int batch) = .ok path)
    (second : savePath i (.str sender') (.int timestamp') (.int batch') = .ok path') :
    Separate cwd path path' ↔ (Stays cwd sender ∧ Stays cwd sender') ∧
      ((rpartition slash sender).2, timestamp, batch) ≠ ((rpartition slash sender').2, timestamp', batch') := by
  constructor
  · rintro ⟨here, there, apart⟩
    have stays := (inside_iff first).mp here
    have stays' := (inside_iff second).mp there
    refine ⟨⟨stays, stays'⟩, ?_⟩
    intro same
    obtain ⟨names, rest⟩ := Prod.mk.inj same
    obtain ⟨rfl, rfl⟩ := Prod.mk.inj rest
    apply apart
    rw [located_savePath first, located_savePath second, names, show folderOf _ sender = _ from stays,
      show folderOf _ sender' = _ from stays']
  · rintro ⟨⟨stays, stays'⟩, different⟩
    refine ⟨(inside_iff first).mpr stays, (inside_iff second).mpr stays', ?_⟩
    intro same
    rw [located_savePath first, located_savePath second] at same
    have names := List.singleton_inj.mp (List.append_inj' same rfl).2
    obtain ⟨last, rfl, rfl⟩ := name_injective names
    exact different (by rw [last])

example : located [] (lit "messages/saves/./node_5_3.json") = located [] (lit "messages/saves/node_5_3.json") := by
  decide +kernel

/-! ### Two senders that stay and one that leaves -/

private def deaf : Interpreter where
  python := ⟨fun _ => .error .jsonDecodeError, fun _ => .error .osError⟩
  showDict := fun _ => []
  dumped := fun _ => []

theorem separate_exactly_two :
    Separate [lit "srv"] (lit "messages/saves/node_1_5_3.json") (lit "messages/saves/node_15_3.json") := by
  have first : savePath deaf (.str (lit "node_1")) (.int 5) (.int 3) = .ok (lit "messages/saves/node_1_5_3.json") := by
    decide +kernel
  have second : savePath deaf (.str (lit "node")) (.int 15) (.int 3) = .ok (lit "messages/saves/node_15_3.json") := by
    decide +kernel
  refine (separate_exactly [lit "srv"] first second).mpr ⟨⟨?_, ?_⟩, by decide⟩
  · exact stays_of_absent (by decide)
  · exact stays_of_absent (by decide)

/-- `../node` leaves the directory. -/
theorem not_separate :
    ¬ ∀ (cwd : List Str) (i : Interpreter) (sender sender' : Str) (timestamp batch timestamp' batch' : Int)
      (path path' : Str), (sender, timestamp, batch) ≠ (sender', timestamp', batch') →
        savePath i (.str sender) (.int timestamp) (.int batch) = .ok path →
        savePath i (.str sender') (.int timestamp') (.int batch') = .ok path' → Separate cwd path path' := by
  intro separate
  have claimed := separate [] deaf (lit "../node") (lit "node") 5 3 5 3 (lit "messages/saves/../node_5_3.json")
    (lit "messages/saves/node_5_3.json") (by decide) (by decide +kernel) (by decide +kernel)
  obtain ⟨name, place⟩ := claimed.first
  have outside : located [] (lit "messages/saves/../node_5_3.json") = [lit "messages", lit "node_5_3.json"] := by
    decide +kernel
  rw [outside] at place
  exact absurd (congrArg List.length place) (by simp [saveDir])

end Hde.Paths
