import Hde.Machines
import Hde.Saving

/-!
`MessageStream.save_message` and `save_message_async`, awaited one after another. Both
rewrite the whole file, and open it, which truncates it, only when the timestamp has been
formatted and the file has been read as an array. So an array grows by the new entries in
their order, and every other content is left alone (`entries_kept`).
-/
namespace Hde.Archive
open Hde.Text Hde.Lines Hde.JsonText Hde.Files Hde.Runs Hde.Machines
open Hde.Saving (SaveCall EventLoop newEntry loadMessagesAsync afterRead overwrite)

/-- The interpreter and the platform. -/
structure Host where
  loads : Loads
  /-- The formatted local time, if `time.localtime` takes the timestamp. -/
  localtime : Int → Option Str
  /-- What `json.dump` has written of a value when it raises. -/
  unfinished : Json → Str

inductive Variant
  | sync
  | async
deriving DecidableEq

/-- `load_messages`: `json.load(f)` is `json.loads(f.read())`. -/
def loadMessages (loads : Loads) (file : Option (List UInt8)) : Except Failure Json := loadMessagesAsync loads file

/-- Saving an entry, with what is in the file when printing the list raises. -/
def saveWith (torn : Json → List UInt8) (host : Host) (file : Option (List UInt8)) (call : SaveCall) :
    Option (List UInt8) × Except Failure Json :=
  match host.localtime call.timestamp with
  | none => (file, .error .osError)
  | some timestampHuman =>
    let entry := newEntry call timestampHuman
    match loadMessages host.loads file with
    | .ok (.arr messages) =>
      -- the file is open, and empty, before the list is printed
      match dumps (some 2) (.arr (messages ++ [entry])) with
      | .error e => (some (torn (.arr (messages ++ [entry]))), .error (.raised (.valueError e)))
      | .ok text => (some (bytes text), .ok entry)
    | .ok value => (file, .error (noAttribute value (lit "append")))
    | .error e => (file, .error e)

/-- `save_message`, which prints the list into the file. -/
def saveMessage (host : Host) : Option (List UInt8) → SaveCall → Option (List UInt8) × Except Failure Json :=
  saveWith (fun messages => bytes (host.unfinished messages)) host

/-- `save_message_async` with nothing in between, which prints the list before it writes. -/
def saveMessageAsync (host : Host) : Option (List UInt8) → SaveCall → Option (List UInt8) × Except Failure Json :=
  saveWith (fun _ => []) host

def step (host : Host) (file : Option (List UInt8)) (call : Variant × SaveCall) :
    Option (List UInt8) × Except Failure Json :=
  match call.1 with
  | .sync => saveMessage host file call.2
  | .async => saveMessageAsync host file call.2

/-- The entry of a call, if its timestamp can be formatted. -/
def entryOf (host : Host) (call : Variant × SaveCall) : Option Json :=
  (host.localtime call.2.timestamp).map (newEntry call.2)

def entries (host : Host) (calls : List (Variant × SaveCall)) : List Json := calls.filterMap (entryOf host)

variable {host : Host} {file : Option (List UInt8)} {calls : List (Variant × SaveCall)} {call : Variant × SaveCall}

theorem entries_append (calls : List (Variant × SaveCall)) (call : Variant × SaveCall) :
    entries host (calls ++ [call]) = entries host calls ++ (entryOf host call).toList := by
  rw [entries, List.filterMap_append]
  cases made : entryOf host call with
  | none => simp [entries, made]
  | some entry => simp [entries, made]

/-! ### One call -/

/-- A timestamp out of range is noticed before anything is opened. -/
theorem step_timestamp (outside : entryOf host call = none) (file : Option (List UInt8)) :
    step host file call = (file, .error .osError) := by
  have raises : host.localtime call.2.timestamp = none := Option.map_eq_none_iff.mp outside
  unfold step
  split <;> simp [saveMessage, saveMessageAsync, saveWith, raises]

/-- So is a file that holds no array. -/
theorem step_other (other : ∀ messages, loadMessages host.loads file ≠ .ok (.arr messages)) (call : Variant × SaveCall) :
    ∃ e, step host file call = (file, .error e) := by
  have either : ∀ torn, ∃ e, saveWith torn host file call.2 = (file, .error e) := by
    intro torn
    unfold saveWith
    split
    · exact ⟨_, rfl⟩
    · dsimp only
      split
      · next messages loaded => exact absurd loaded (other messages)
      · exact ⟨_, rfl⟩
      · exact ⟨_, rfl⟩
  unfold step
  split
  · exact either _
  · exact either _

/-- With an array in the file, the call's entry comes at its end. -/
theorem step_array {messages : List Json} {entry : Json} (loaded : loadMessages host.loads file = .ok (.arr messages))
    (made : entryOf host call = some entry) (undone : RoundTrips host.loads (some 2) (.arr (messages ++ [entry]))) :
    (step host file call).2 = .ok entry ∧
      loadMessages host.loads (step host file call).1 = .ok (.arr (messages ++ [entry])) := by
  obtain ⟨timestampHuman, formatted, rfl⟩ := Option.map_eq_some_iff.mp made
  obtain ⟨text, printed_text, read⟩ := undone
  have shape := printed printed_text
  have either : ∀ torn, saveWith torn host file call.2 = (some (bytes text), .ok (newEntry call.2 timestampHuman)) := by
    intro torn
    simp only [saveWith, formatted, loaded, printed_text]
  have saved : step host file call = (some (bytes text), .ok (newEntry call.2 timestampHuman)) := by
    unfold step
    split
    · exact either _
    · exact either _
  rw [saved]
  refine ⟨rfl, ?_⟩
  simp only [loadMessages, loadMessagesAsync, decode_printed shape, universal_printed shape, read]

/-! ### Sequences of calls -/

/-- With an array in the file, all entries come at its end. -/
theorem array_run {initial : List Json} (loaded : loadMessages host.loads file = .ok (.arr initial))
    (undoes : ∀ before, before <+: calls → RoundTrips host.loads (some 2) (.arr (initial ++ entries host before))) :
    loadMessages host.loads (after (step host) file calls) = .ok (.arr (initial ++ entries host calls)) := by
  induction calls using List.reverseRecOn with
  | nil => simpa [entries] using loaded
  | append_singleton calls call ih =>
    have held := ih fun before earlier => undoes before (earlier.trans (List.prefix_append _ _))
    have undone := undoes (calls ++ [call]) (List.prefix_refl _)
    rw [entries_append, ← List.append_assoc] at undone ⊢
    rw [after_append]
    show loadMessages host.loads (step host (after (step host) file calls) call).1 = _
    cases made : entryOf host call with
    | none =>
      rw [step_timestamp made, held]
      simp
    | some entry =>
      rw [made] at undone
      exact (step_array held made undone).2

/-- Anything else in the file stays there, and every call raises. -/
theorem other_run (other : ∀ messages, loadMessages host.loads file ≠ .ok (.arr messages))
    (calls : List (Variant × SaveCall)) : after (step host) file calls = file := by
  induction calls with
  | nil => rfl
  | cons call rest ih =>
    obtain ⟨e, raised⟩ := step_other other call
    rw [after_cons, raised]
    exact ih

/-- The history is append-only, and errors leave it intact. -/
theorem entries_kept (host : Host) (file : Option (List UInt8)) (calls : List (Variant × SaveCall)) :
    (∀ initial, loadMessages host.loads file = .ok (.arr initial) →
      (∀ before, before <+: calls → RoundTrips host.loads (some 2) (.arr (initial ++ entries host before))) →
      loadMessages host.loads (after (step host) file calls) = .ok (.arr (initial ++ entries host calls)) ∧
      loadMessagesAsync host.loads (after (step host) file calls) = .ok (.arr (initial ++ entries host calls)) ∧
      ∀ call result, (call, result) ∈ answers (step host) file calls →
        ∀ entry, entryOf host call = some entry → result = .ok entry) ∧
    ((∀ messages, loadMessages host.loads file ≠ .ok (.arr messages)) →
      after (step host) file calls = file ∧
      ∀ call result, (call, result) ∈ answers (step host) file calls → ∃ e, result = .error e) ∧
    ∀ s call, entryOf host call = none → (step host s call).1 = s ∧ ∃ e, (step host s call).2 = .error e := by
  refine ⟨?_, ?_, ?_⟩
  · intro initial loaded undoes
    refine ⟨array_run loaded undoes, array_run loaded undoes, ?_⟩
    intro call result member entry made
    obtain ⟨before, rest, rfl, rfl⟩ := mem_answers member
    have held : loadMessages host.loads (after (step host) file before) = .ok (.arr (initial ++ entries host before)) :=
      array_run loaded fun earlier first => undoes earlier (first.trans (List.prefix_append _ _))
    have undone := undoes (before ++ [call]) (by simp)
    rw [entries_append, made, ← List.append_assoc] at undone
    exact (step_array held made undone).1
  · intro other
    refine ⟨other_run other calls, ?_⟩
    intro call result member
    obtain ⟨before, rest, rfl, rfl⟩ := mem_answers member
    rw [other_run other before]
    obtain ⟨e, raised⟩ := step_other other call
    exact ⟨e, by rw [raised]⟩
  · intro s call outside
    rw [step_timestamp outside]
    exact ⟨rfl, _, rfl⟩

/-- What a call on the event loop has to write, and what it does awaited. -/
theorem afterRead_cases (host : Host) (file : Option (List UInt8)) (call : SaveCall) :
    (∃ e, afterRead host.loads host.localtime file call = .raised e ∧
      saveMessageAsync host file call = (file, .error e)) ∨
    ∃ messages entry, afterRead host.loads host.localtime file call = .read messages ∧
      saveMessageAsync host file call = match dumps (some 2) (.arr messages) with
        | .error e => (some [], .error (.raised (.valueError e)))
        | .ok text => (some (bytes text), .ok entry) := by
  unfold saveMessageAsync saveWith afterRead loadMessages
  cases host.localtime call.timestamp with
  | none => exact .inl ⟨_, rfl, rfl⟩
  | some timestampHuman =>
    cases loadMessagesAsync host.loads file with
    | error e => exact .inl ⟨_, rfl, rfl⟩
    | ok value =>
      cases value with
      | arr messages => exact .inr ⟨_, _, rfl, rfl⟩
      | null | bool | int | float | str | obj => exact .inl ⟨_, rfl, rfl⟩

/-- An awaited call takes its steps on the event loop with nothing in between. -/
theorem awaited_steps {κ : Type*} [DecidableEq κ] (calls : κ → SaveCall) {s : EventLoop κ} {k : κ}
    (waiting : s.phase k = .waiting) :
    ∃ events t, Run (Saving.saveMessageAsync host.loads host.localtime calls) (fun _ other => other = k) s events t ∧
      t.file = (saveMessageAsync host s.file (calls k)).1 ∧
      t.phase k = match (saveMessageAsync host s.file (calls k)).2 with
        | .ok _ => .finished
        | .error e => .raised e := by
  rcases afterRead_cases host s.file (calls k) with ⟨e, read, result⟩ | ⟨messages, entry, read, result⟩
  · have first : Saving.saveMessageAsync host.loads host.localtime calls s k = some (s.goto k (.raised e), k) := by
      simp only [Saving.saveMessageAsync, waiting, read]
    rw [result]
    exact ⟨[k], _, Run.one rfl first, rfl, Saving.goto_self s k _⟩
  · have first : Saving.saveMessageAsync host.loads host.localtime calls s k = some (s.goto k (.read messages), k) := by
      simp only [Saving.saveMessageAsync, waiting, read]
    obtain ⟨middle, second, empty, place⟩ : ∃ middle,
        Saving.saveMessageAsync host.loads host.localtime calls (s.goto k (.read messages)) k = some (middle, k) ∧
          middle.file = some [] ∧ middle.phase k = .opened messages := by
      simp only [Saving.saveMessageAsync, Saving.goto_self]
      exact ⟨_, rfl, rfl, Saving.goto_self _ k _⟩
    have begun : Run (Saving.saveMessageAsync host.loads host.localtime calls) (fun _ other => other = k) s ([k] ++ [k])
        middle := Run.snoc (Run.one rfl first) rfl second
    cases printed_text : dumps (some 2) (.arr messages) with
    | error e =>
      have third : Saving.saveMessageAsync host.loads host.localtime calls middle k =
          some (middle.goto k (.raised (.raised (.valueError e))), k) := by
        simp only [Saving.saveMessageAsync, place, printed_text]
      rw [result, printed_text]
      exact ⟨_, _, begun.snoc rfl third, empty, Saving.goto_self middle k _⟩
    | ok text =>
      have third : Saving.saveMessageAsync host.loads host.localtime calls middle k =
          some ({ middle with file := some (bytes text) }.goto k .finished, k) := by
        simp only [Saving.saveMessageAsync, place, printed_text, empty, Option.getD_some, overwrite, List.drop_nil,
          List.append_nil]
      rw [result, printed_text]
      exact ⟨_, _, begun.snoc rfl third, rfl, Saving.goto_self _ k _⟩

/-! ### Two calls and one out of range -/

private def knowingHost : Host where
  loads := knowing (some 2) [.arr [], .arr [newEntry ⟨lit "node", lit "a", 5⟩ (lit "1970-01-01T00:00:05")],
    .arr [newEntry ⟨lit "node", lit "a", 5⟩ (lit "1970-01-01T00:00:05"),
      newEntry ⟨lit "node", lit "b", 5⟩ (lit "1970-01-01T00:00:05")]]
  localtime := fun timestamp => if timestamp = 5 then some (lit "1970-01-01T00:00:05") else none
  unfinished := fun _ => []

private def threeCalls : List (Variant × SaveCall) :=
  [(.sync, ⟨lit "node", lit "a", 5⟩), (.sync, ⟨lit "node", lit "c", 10 ^ 30⟩), (.async, ⟨lit "node", lit "b", 5⟩)]

set_option maxRecDepth 4000 in
theorem entries_kept_three :
    loadMessages knowingHost.loads (after (step knowingHost) none threeCalls) =
      .ok (.arr [newEntry ⟨lit "node", lit "a", 5⟩ (lit "1970-01-01T00:00:05"),
        newEntry ⟨lit "node", lit "b", 5⟩ (lit "1970-01-01T00:00:05")]) := by
  have known : ∀ value ∈ [Json.arr [], .arr [newEntry ⟨lit "node", lit "a", 5⟩ (lit "1970-01-01T00:00:05")],
      .arr [newEntry ⟨lit "node", lit "a", 5⟩ (lit "1970-01-01T00:00:05"),
        newEntry ⟨lit "node", lit "b", 5⟩ (lit "1970-01-01T00:00:05")]],
      RoundTrips knowingHost.loads (some 2) value :=
    roundTrips_knowing (by decide +kernel) (by decide +kernel)
  refine ((entries_kept knowingHost none threeCalls).1 [] rfl ?_).1
  intro before earlier
  have bound : before.length ≤ 3 := earlier.length_le
  rw [List.prefix_iff_eq_take.mp earlier]
  match before.length, bound with
  | 0, _ => exact known _ (.head _)
  | 1, _ => exact known _ (.tail _ (.head _))
  | 2, _ => exact known _ (.tail _ (.head _))
  | 3, _ => exact known _ (.tail _ (.tail _ (.head _)))

end Hde.Archive
