import Mathlib.Data.List.ReduceOption
import Hde.Log
import Hde.RoundTrip
import Hde.Runs

/-!
Two writers of the message log. `save_message_manually` appends a line to it and
`auto_save_message_async` reads it as one array, replaces what is no JSON by an empty
one and writes the array back. The history stays exact while the second one leaves
the file alone (`history_kept`); each time it writes, the reader finds a single
array in the place of the entries (`history_kept`), and those of the other writer
may be gone (`history_lost`).
-/
namespace Hde.Writers
open Hde.Text Hde.Dicts Hde.Frames Hde.Lines Hde.JsonText Hde.Files Hde.Log

/-- `f.seek(0)`, `f.write(json.dumps(messages))` and `f.truncate()`. -/
def rewrite (disk : Disk) (messages : List Json) : Disk × Except Failure Unit :=
  match dumps none (.arr messages) with
  | .error e => (disk, .error (.raised (.valueError e)))
  | .ok text => (write disk logPath (bytes text), .ok ())

/-- `auto_save_message_async`. -/
def autoSaveMessageAsync (loads : Loads) (disk : Disk) (data : Dict Str Value) : Disk × Except Failure Unit :=
  match makedirs disk (lit "messages") with
  | .error e => (disk, .error e)
  | .ok made =>
    let created := if made logPath = none then write made logPath (bytes (lit "[]")) else made
    match prepare data with
    | .error e => (created, .error (.raised e))
    | .ok mdata =>
      match readText created logPath with
      | .error e => (created, .error e)
      | .ok content =>
        match loads content with
        | .ok (.arr messages) => rewrite created (messages ++ [.str mdata])
        | .ok value => (created, .error (noAttribute value (lit "append")))
        | .error .jsonDecodeError => rewrite created [.str mdata]
        | .error e => (created, .error e)

inductive Save
  | manual (entry : Json)
  | auto (data : Dict Str Value)

/-- A call of one of the two writers, and the entry that it has saved if it returns. -/
def step (loads : Loads) (disk : Disk) : Save → Option (Disk × Option Json)
  | .manual entry =>
    match saveMessageManually {} disk entry with
    | .ok saved => some (saved, some entry)
    | .error _ => some (disk, none)
  | .auto data =>
    match autoSaveMessageAsync loads disk data with
    | (saved, .ok ()) => some (saved, (prepare data).toOption.map .str)
    | (left, .error _) => some (left, none)

/-- The reader returns the saved entries, in order. -/
def Kept (loads : Loads) (disk : Disk) (saved : List Json) : Prop :=
  ∀ loraState, ∃ lora, sourceMessages loads disk loraState (lit "messages.json") = .ok (.listing lora saved)

/-- `auto_save_message_async` finds the file there and raises before it writes:
    its data cannot be prepared, or the file is neither an array nor broken. -/
def Spares (loads : Loads) (disk : Disk) (data : Dict Str Value) : Prop :=
  disk logPath ≠ none ∧
    ((∃ e, prepare data = .error e) ∨
      ∃ content, readText disk logPath = .ok content ∧ loads content ≠ .error .jsonDecodeError ∧
        ∀ messages, loads content ≠ .ok (.arr messages))

/-- The entry that is saved manually makes the round trip; the other writer leaves
    the file alone. -/
def Harmless (loads : Loads) (disk : Disk) : Save → Prop
  | .manual entry => RoundTrips loads none entry
  | .auto data => Spares loads disk data

variable {loads : Loads}

theorem kept_of_logHolds {disk : Disk} {documents : List Json} (holds : LogHolds loads disk documents) :
    Kept loads disk documents := fun loraState => sourceMessages_of_logHolds holds loraState

/-- A spared file is as it was, and nothing is saved. -/
theorem autoSave_spares {disk : Disk} {data : Dict Str Value} (spares : Spares loads disk data) :
    (autoSaveMessageAsync loads disk data).1 logPath = disk logPath ∧
      ∃ e, (autoSaveMessageAsync loads disk data).2 = .error e := by
  obtain ⟨there, reason⟩ := spares
  unfold autoSaveMessageAsync
  cases made : makedirs disk (lit "messages") with
  | error e => exact ⟨rfl, e, rfl⟩
  | ok after =>
    have same : after logPath = disk logPath := makedirs_of_ne made (by decide)
    have kept : (if after logPath = none then write after logPath (bytes (lit "[]")) else after) = after :=
      if_neg (by rwa [same])
    simp only [kept]
    cases prepared : prepare data with
    | error e => exact ⟨same, _, rfl⟩
    | ok mdata =>
      rcases reason with ⟨e, fails⟩ | ⟨content, read, unbroken, no_array⟩
      · rw [prepared] at fails
        cases fails
      · have read_after : readText after logPath = .ok content := by
          rw [← read]
          simp only [readText, same]
        simp only [read_after]
        split
        · next messages found => exact absurd found (no_array messages)
        · exact ⟨same, _, rfl⟩
        · next broken => exact absurd broken unbroken
        · exact ⟨same, _, rfl⟩

/-- What a harmless call saves is added to what the log holds. -/
theorem logHolds_step {disk next : Disk} {saved : List Json} (holds : LogHolds loads disk saved) {call : Save}
    (harmless : Harmless loads disk call) {event : Option Json} (now : step loads disk call = some (next, event)) :
    LogHolds loads next (saved ++ event.toList) := by
  cases call with
  | manual entry =>
    simp only [step] at now
    split at now
    · next after save =>
      simp only [Option.some.injEq, Prod.mk.injEq] at now
      obtain ⟨rfl, rfl⟩ := now
      exact logHolds_save holds harmless save
    · simp only [Option.some.injEq, Prod.mk.injEq] at now
      obtain ⟨rfl, rfl⟩ := now
      simpa using holds
  | auto data =>
    obtain ⟨same, e, raised⟩ := autoSave_spares harmless
    simp only [step] at now
    split at now
    · next after returned => simp [returned] at raised
    · next left _ outcome =>
      simp only [Option.some.injEq, Prod.mk.injEq] at now
      obtain ⟨rfl, rfl⟩ := now
      rw [outcome] at same
      simpa using holds.congr same

/-! ### Writing the array -/

theorem readlines_whole {s : Str} (whole : lineFeed ∉ s) (some_text : s ≠ []) : readlines s = [s] := by
  induction s with
  | nil => exact absurd rfl some_text
  | cons c rest ih =>
    have here : c ≠ lineFeed := fun same => whole (by simp [same])
    have later : lineFeed ∉ rest := fun member => whole (by simp [member])
    cases rest with
    | nil => simp [readlines, here]
    | cons d more => rw [readlines, if_neg here, ih later (by simp)]

/-- The file is one printed array. -/
def IsArray (disk : Disk) (messages : List Json) : Prop :=
  ∃ text, dumps none (.arr messages) = .ok text ∧ disk logPath = some (.file (bytes text))

/-- Of a printed array the reader returns one item, the array. -/
theorem sourceMessages_array {disk : Disk} {messages : List Json} (array : IsArray disk messages)
    (storable : RoundTrips loads none (.arr messages)) (loraState : Engine.Mode) :
    sourceMessages loads disk loraState (lit "messages.json") = .ok (.listing (some loraState) [.arr messages]) := by
  obtain ⟨text, printed_text, found⟩ := array
  obtain ⟨_, same, undone⟩ := storable
  rw [printed_text] at same
  cases same
  have shape := printed printed_text
  have unbroken : lineFeed ∉ text := fun member => inside_ne_lineFeed (shape.inside _ member) rfl
  have read : readText disk logPath = .ok text := readText_printed shape found
  have stripped : strip text = text := strip_printed shape
  have some_text : text ≠ [] := printed_ne_nil shape
  simp only [sourceMessages, joinPath_log, found, read]
  change (do
    let messages ← ((readlines text).filter (strip · ≠ [])).mapM fun line => loads (strip line)
    return Response.listing (some loraState) messages) = _
  rw [readlines_whole unbroken some_text]
  simp only [stripped, some_text, undone, List.filter_cons, List.filter_nil, List.mapM_cons, List.mapM_nil, ne_eq,
    not_false_eq_true, decide_true, if_true]
  rfl

/-- How a call of `auto_save_message_async` ends: it raises and leaves the file as it
    was or newly made, or it leaves one array there and has saved its entry. -/
inductive AutoSaved (disk : Disk) (data : Dict Str Value) : Disk × Except Failure Unit → Prop
  | spared {left : Disk} (e : Failure) (same : left logPath = disk logPath) : AutoSaved disk data (left, .error e)
  | created {left : Disk} (e : Failure) (absent : disk logPath = none) (array : IsArray left []) :
      AutoSaved disk data (left, .error e)
  | saved {after : Disk} {mdata : Str} {messages : List Json} (prepared : prepare data = .ok mdata)
      (array : IsArray after messages) : AutoSaved disk data (after, .ok ())

theorem autoSave_cases (loads : Loads) (disk : Disk) (data : Dict Str Value) :
    AutoSaved disk data (autoSaveMessageAsync loads disk data) := by
  unfold autoSaveMessageAsync
  cases made : makedirs disk (lit "messages") with
  | error e => exact .spared e rfl
  | ok after =>
    have same : after logPath = disk logPath := makedirs_of_ne made (by decide)
    simp only
    generalize shape : (if after logPath = none then write after logPath (bytes (lit "[]")) else after) = created
    have raised : ∀ e, AutoSaved disk data (created, .error e) := by
      intro e
      split at shape
      · next absent =>
        subst shape
        exact .created e (same.symm.trans absent) ⟨lit "[]", rfl, write_self ..⟩
      · subst shape
        exact .spared e same
    cases prepared : prepare data with
    | error e => exact raised _
    | ok mdata =>
      have written : ∀ messages, AutoSaved disk data (rewrite created messages) := by
        intro messages
        unfold rewrite
        cases text : dumps none (.arr messages) with
        | error e => exact raised _
        | ok printed_text => exact .saved prepared ⟨printed_text, text, write_self ..⟩
      simp only
      split
      · exact raised _
      · split
        · exact written _
        · exact raised _
        · exact written _
        · exact raised _

/-- The array is not what has been saved. -/
theorem not_kept_step {disk next : Disk} {saved : List Json} (holds : LogHolds loads disk saved) {data : Dict Str Value}
    {event : Option Json} (now : step loads disk (.auto data) = some (next, event))
    (changed : next logPath ≠ disk logPath) :
    ∃ messages, IsArray next messages ∧
      (RoundTrips loads none (.arr messages) → ¬ Kept loads next (saved ++ event.toList)) := by
  have outcome := autoSave_cases loads disk data
  simp only [step] at now
  generalize autoSaveMessageAsync loads disk data = result at now outcome
  cases outcome with
  | spared e same =>
    simp only [Option.some.injEq, Prod.mk.injEq] at now
    obtain ⟨rfl, -⟩ := now
    exact absurd same changed
  | created e absent array =>
    simp only [Option.some.injEq, Prod.mk.injEq] at now
    obtain ⟨rfl, rfl⟩ := now
    refine ⟨[], array, ?_⟩
    intro storable kept
    obtain ⟨lora, read⟩ := kept .idle
    rw [sourceMessages_array array storable] at read
    cases holds with
    | absent nothing => cases read
    | present found decoded ended whole holds =>
      rw [absent] at found
      cases found
  | @saved after mdata messages prepared array =>
    simp only [Option.some.injEq, Prod.mk.injEq] at now
    obtain ⟨rfl, rfl⟩ := now
    refine ⟨messages, array, ?_⟩
    intro storable kept
    obtain ⟨lora, read⟩ := kept .idle
    rw [sourceMessages_array array storable, prepared] at read
    -- the last item is the array, and the last entry is a frame
    have ends := congrArg List.getLast? (Response.listing.inj (Except.ok.inj read)).2
    simp [Except.toOption] at ends

/-! ### Runs of both writers -/

set_option maxRecDepth 4000 in
/-- Two saved entries are gone once the other writer has saved its own. -/
theorem history_lost :
    let first := Json.obj [(lit "from", .str (lit "a"))]
    let second := Json.obj [(lit "from", .str (lit "b"))]
    let data := RoundTrip.dataOf (lit "c") (lit "hi") (lit "x") 1 1 5
    let frame := Json.str (lit "from:c|message:hi|checksum:x|chunk_id:1|chunk_batch:1|timestamp:5*3C")
    let loads := knowing none [first, second, .arr [], .arr [frame]]
    (∀ value ∈ [first, second, .arr [], .arr [frame]], RoundTrips loads none value) ∧
      ∃ disk, Runs.exec (step loads) (fun _ _ => true) (fun _ => none) [.manual first, .manual second, .auto data] =
          some ([some first, some second, some frame], disk) ∧
        sourceMessages loads disk .idle (lit "messages.json") = .ok (.listing (some .idle) [.arr [frame]]) ∧
        ¬ Kept loads disk [first, second, frame] := by
  intro first second data frame loads
  refine ⟨roundTrips_knowing (by decide) (by decide), ?_⟩
  obtain ⟨disk, run, one⟩ : ∃ disk, Runs.exec (step loads) (fun _ _ => true) (fun _ => none)
      [.manual first, .manual second, .auto data] = some ([some first, some second, some frame], disk) ∧
        sourceMessages loads disk .idle (lit "messages.json") = .ok (.listing (some .idle) [.arr [frame]]) :=
    ⟨_, rfl, rfl⟩
  refine ⟨disk, run, one, ?_⟩
  intro kept
  obtain ⟨lora, read⟩ := kept .idle
  rw [one] at read
  have lengths := congrArg List.length (Response.listing.inj (Except.ok.inj read)).2
  simp at lengths

/-- While the second writer leaves the file alone, the reader returns exactly the
    saved entries. As soon as it changes the file, the reader finds one array there
    and no longer returns them. -/
theorem history_kept {start : Disk} (fresh : start logPath = none) {events : List (Option Json)} {disk : Disk}
    (run : Runs.Run (step loads) (Harmless loads) start events disk) :
    Kept loads disk events.reduceOption ∧
      ∀ (data : Dict Str Value) (next : Disk) (event : Option Json), step loads disk (.auto data) = some (next, event) →
        next logPath ≠ disk logPath → ∃ messages, IsArray next messages ∧
          (RoundTrips loads none (.arr messages) → ¬ Kept loads next (events ++ [event]).reduceOption) := by
  have grown : ∀ (events : List (Option Json)) (event : Option Json),
      (events ++ [event]).reduceOption = events.reduceOption ++ event.toList := by
    intro events event
    cases event <;> simp [List.reduceOption_append]
  have holds : LogHolds loads disk events.reduceOption := by
    refine run.invariant (fun events disk => LogHolds loads disk events.reduceOption) (.absent fresh) ?_
    intro events disk call next event held harmless now
    rw [grown]
    exact logHolds_step held harmless now
  refine ⟨kept_of_logHolds holds, ?_⟩
  intro data next event now changed
  rw [grown]
  exact not_kept_step holds now changed

theorem history_kept_twice :
    let first := Json.obj [(lit "from", .str (lit "a"))]
    let second := Json.obj [(lit "from", .str (lit "b"))]
    ∃ disk, Kept (knowing none [first, second]) disk [first, second] := by
  intro first second
  have known : ∀ value ∈ [first, second], RoundTrips (knowing none [first, second]) none value :=
    roundTrips_knowing (by decide) (by decide)
  let log : Disk := appendLine .succeeds (Function.update (fun _ => none) (lit "messages") (some .directory)) first
  have adds : Harmless (knowing none [first, second]) (fun _ => none) (.manual first) := known first (by simp)
  have added : step (knowing none [first, second]) (fun _ => none) (.manual first) = some (log, some first) := rfl
  -- no data: the second writer raises `KeyError`
  have spares : Harmless (knowing none [first, second]) log (.auto Dict.empty) := ⟨by decide, .inl ⟨_, rfl⟩⟩
  have spared : step (knowing none [first, second]) log (.auto Dict.empty) = some (log, none) := rfl
  have again : Harmless (knowing none [first, second]) log (.manual second) := known second (by simp)
  exact ⟨_, (history_kept rfl (((Runs.Run.one adds added).snoc spares spared).snoc again rfl)).1⟩

end Hde.Writers
