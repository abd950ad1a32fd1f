import Hde.Files
import Hde.Runs

/-!
`MessageStream.save_message_async` on one event loop. A call reads the whole file,
appends its entry, opens the file for writing, which truncates it, and writes the
new list from the start of the file; between these steps other calls may take theirs.
A call that reads while another one is between its read and its write misses that
one's entry, or finds the file empty and raises (`update_lost`). When calls do not
overlap so, all of them land (`saves_landed`).
-/
namespace Hde.Saving
open Hde.Text Hde.Frames Hde.Lines Hde.JsonText Hde.Files Hde.Runs

/-- The arguments of a call. -/
structure SaveCall where
  sender : Str
  message : Str
  timestamp : Int

def newEntry (call : SaveCall) (timestampHuman : Str) : Json :=
  .obj [(lit "from", .str call.sender), (lit "message", .str call.message), (lit "timestamp", .int call.timestamp),
    (lit "timestamp_human", .str timestampHuman)]

/-- `load_messages_async`, for what is at `self._path`. -/
def loadMessagesAsync (loads : Loads) (file : Option (List UInt8)) : Except Failure Json :=
  match file with
  | none => .ok (.arr [])
  | some content =>
    match Utf8.decode content with
    | none => .error .unicodeDecodeError
    | some text => loads (universal false text)

/-- Where a call stands: before its read, with the list to write before opening the
    file, and with it before the write. -/
inductive Phase
  | waiting
  | read (messages : List Json)
  | opened (messages : List Json)
  | finished
  | raised (e : Failure)

structure EventLoop (κ : Type*) where
  file : Option (List UInt8)
  phase : κ → Phase

variable {κ : Type*} [DecidableEq κ]

def EventLoop.goto (s : EventLoop κ) (k : κ) (phase : Phase) : EventLoop κ := { s with phase := Function.update s.phase k phase }

/-- What a call has to write once it has read the file; `localtime` is the formatted
    local time, and `none` where `time.localtime` raises. -/
def afterRead (loads : Loads) (localtime : Int → Option Str) (file : Option (List UInt8)) (call : SaveCall) : Phase :=
  match localtime call.timestamp with
  | none => .raised .osError
  | some timestampHuman =>
    match loadMessagesAsync loads file with
    | .ok (.arr messages) => .read (messages ++ [newEntry call timestampHuman])
    | .ok value => .raised (noAttribute value (lit "append"))
    | .error e => .raised e

/-- Writing from the start of a file that other calls may have written to. -/
def overwrite (text content : List UInt8) : List UInt8 := text ++ content.drop text.length

/-- `save_message_async`: the next step of call `k`. -/
def saveMessageAsync (loads : Loads) (localtime : Int → Option Str) (calls : κ → SaveCall) (s : EventLoop κ) (k : κ) :
    Option (EventLoop κ × κ) :=
  match s.phase k with
  | .waiting => some (s.goto k (afterRead loads localtime s.file (calls k)), k)
  | .read messages => some ({ s with file := some [] }.goto k (.opened messages), k)
  | .opened messages =>
    match dumps (some 2) (.arr messages) with
    | .error e => some (s.goto k (.raised (.raised (.valueError e))), k)
    | .ok text =>
      let content := overwrite (bytes text) (s.file.getD [])
      some ({ s with file := some content }.goto k .finished, k)
  | .finished => none
  | .raised _ => none

def start (file : Option (List UInt8)) : EventLoop κ := ⟨file, fun _ => .waiting⟩

/-- A call is between its read and its write. -/
def Phase.Busy : Phase → Prop
  | .read _ => True
  | .opened _ => True
  | _ => False

instance : DecidablePred Phase.Busy
  | .read _ | .opened _ => .isTrue trivial
  | .waiting | .finished | .raised _ => .isFalse id

def entryOf (localtime : Int → Option Str) (call : SaveCall) : Json :=
  newEntry call ((localtime call.timestamp).getD [])

/-- A call reads the file only when no other one is between its read and its write,
    and its timestamp is in the range of `time.localtime`. -/
def Alone (localtime : Int → Option Str) (calls : κ → SaveCall) (s : EventLoop κ) (k : κ) : Prop :=
  s.phase k = .waiting → (∀ other, ¬ (s.phase other).Busy) ∧ (localtime (calls k).timestamp).isSome

/-- The initial list and one entry for each of some calls. -/
def listOf (localtime : Int → Option Str) (calls : κ → SaveCall) (initial : List Json) (order : List κ) : List Json :=
  initial ++ order.map fun k => entryOf localtime (calls k)

/-- The calls have all landed: once none of them is on its way, the file holds the
    initial list and then one entry for each call that has finished. -/
def Landed (loads : Loads) (localtime : Int → Option Str) (calls : κ → SaveCall) (initial : List Json)
    (s : EventLoop κ) : Prop :=
  (∀ k e, s.phase k ≠ .raised e) ∧
    ((∀ k, s.phase k = .waiting ∨ s.phase k = .finished) →
      ∃ order : List κ, order.Nodup ∧ (∀ k, k ∈ order ↔ s.phase k = .finished) ∧
        loadMessagesAsync loads s.file = .ok (.arr (listOf localtime calls initial order)))

section Steps
variable {loads : Loads} {localtime : Int → Option Str} {calls : κ → SaveCall} {initial : List Json}
  {s : EventLoop κ} {k other : κ} {order : List κ}

@[simp] theorem goto_self (s : EventLoop κ) (k : κ) (phase : Phase) : (s.goto k phase).phase k = phase := by
  simp [EventLoop.goto]

theorem goto_of_ne (s : EventLoop κ) (phase : Phase) (different : other ≠ k) :
    (s.goto k phase).phase other = s.phase other := by
  simp [EventLoop.goto, different]

/-- At most one call is on its way, and it carries what the file held and its own
    entry. -/
inductive Turn (loads : Loads) (localtime : Int → Option Str) (calls : κ → SaveCall) (initial : List Json)
    (order : List κ) (s : EventLoop κ) : Prop
  | free (quiet : ∀ k, ¬ (s.phase k).Busy)
      (holds : loadMessagesAsync loads s.file = .ok (.arr (listOf localtime calls initial order)))
  | taken (k : κ) (others : ∀ other, other ≠ k → ¬ (s.phase other).Busy)
      (place : s.phase k = .read (listOf localtime calls initial (order ++ [k])) ∨
        s.phase k = .opened (listOf localtime calls initial (order ++ [k])) ∧ s.file = some [])

/-- The calls in `order` have finished, none has raised, and they take turns. -/
structure InTurn (loads : Loads) (localtime : Int → Option Str) (calls : κ → SaveCall) (initial : List Json)
    (order : List κ) (s : EventLoop κ) : Prop where
  once : order.Nodup
  finished : ∀ k, k ∈ order ↔ s.phase k = .finished
  safe : ∀ k e, s.phase k ≠ .raised e
  turn : Turn loads localtime calls initial order s

/-- A call that is on its way has the turn. -/
theorem Turn.of_busy (turn : Turn loads localtime calls initial order s) (busy : (s.phase k).Busy) :
    (∀ other, other ≠ k → ¬ (s.phase other).Busy) ∧
      (s.phase k = .read (listOf localtime calls initial (order ++ [k])) ∨
        s.phase k = .opened (listOf localtime calls initial (order ++ [k])) ∧ s.file = some []) := by
  cases turn with
  | free quiet holds => exact absurd busy (quiet k)
  | taken holder others place =>
    obtain rfl : k = holder := by
      by_contra different
      exact others k different busy
    exact ⟨others, place⟩

/-- A call moves on without finishing or raising. -/
theorem InTurn.move {phase : Phase} (inTurn : InTurn loads localtime calls initial order s)
    (file : Option (List UInt8)) (begun : s.phase k ≠ .finished) (going : phase.Busy)
    (turn : Turn loads localtime calls initial order ({ s with file := file }.goto k phase)) :
    InTurn loads localtime calls initial order ({ s with file := file }.goto k phase) := by
  have unfinished : phase ≠ .finished := by
    rintro rfl
    exact going
  refine ⟨inTurn.once, ?_, ?_, turn⟩
  · intro other
    by_cases same : other = k
    · subst same
      simp [inTurn.finished, begun, unfinished]
    · rw [goto_of_ne _ phase same]
      exact inTurn.finished other
  · intro other e
    by_cases same : other = k
    · subst same
      rw [goto_self]
      rintro rfl
      exact going
    · rw [goto_of_ne _ phase same]
      exact inTurn.safe other e

theorem inTurn_step (undoes : ∀ order : List κ, order.Nodup →
      RoundTrips loads (some 2) (.arr (listOf localtime calls initial order)))
    (inTurn : InTurn loads localtime calls initial order s) (alone : Alone localtime calls s k) {t : EventLoop κ} {event : κ}
    (now : saveMessageAsync loads localtime calls s k = some (t, event)) :
    ∃ order, InTurn loads localtime calls initial order t := by
  unfold saveMessageAsync at now
  cases here : s.phase k with
  | finished | raised e => simp [here] at now
  | waiting =>
    obtain ⟨quiet, inRange⟩ := alone here
    obtain ⟨timestampHuman, formatted⟩ := Option.isSome_iff_exists.mp inRange
    have holds : loadMessagesAsync loads s.file = .ok (.arr (listOf localtime calls initial order)) := by
      cases inTurn.turn with
      | free _ holds => exact holds
      | taken holder _ place =>
        have busy : (s.phase holder).Busy := by
          rcases place with at_read | ⟨at_open, -⟩
          · simp [at_read, Phase.Busy]
          · simp [at_open, Phase.Busy]
        exact absurd busy (quiet holder)
    have read : afterRead loads localtime s.file (calls k) = .read (listOf localtime calls initial (order ++ [k])) := by
      simp [afterRead, formatted, holds, listOf, entryOf]
    simp only [here, read, Option.some.injEq, Prod.mk.injEq] at now
    obtain ⟨rfl, -⟩ := now
    refine ⟨order, inTurn.move s.file (by simp [here]) trivial (.taken k ?_ (.inl ?_))⟩
    · intro other different
      rw [goto_of_ne _ _ different]
      exact quiet other
    · exact goto_self _ _ _
  | read messages =>
    have busy : (s.phase k).Busy := by simp [here, Phase.Busy]
    obtain ⟨others, place⟩ := inTurn.turn.of_busy busy
    obtain rfl : messages = listOf localtime calls initial (order ++ [k]) := by simpa [here] using place
    simp only [here, Option.some.injEq, Prod.mk.injEq] at now
    obtain ⟨rfl, -⟩ := now
    refine ⟨order, inTurn.move (some []) (by simp [here]) trivial (.taken k ?_ (.inr ⟨?_, rfl⟩))⟩
    · intro other different
      rw [goto_of_ne _ _ different]
      exact others other different
    · exact goto_self _ _ _
  | opened messages =>
    have busy : (s.phase k).Busy := by simp [here, Phase.Busy]
    obtain ⟨others, place⟩ := inTurn.turn.of_busy busy
    obtain ⟨rfl, empty⟩ : messages = listOf localtime calls initial (order ++ [k]) ∧ s.file = some [] := by
      simpa [here] using place
    have fresh : k ∉ order := fun member => by simp [(inTurn.finished k).mp member] at here
    have once : (order ++ [k]).Nodup := by
      refine List.nodup_append.mpr ⟨inTurn.once, by simp, ?_⟩
      rintro other member _ last rfl
      exact fresh (List.mem_singleton.mp last ▸ member)
    obtain ⟨text, printed_text, undone⟩ := undoes _ once
    have shape := printed printed_text
    simp only [here, printed_text, empty, Option.getD_some, overwrite, List.drop_nil, List.append_nil, Option.some.injEq,
      Prod.mk.injEq] at now
    obtain ⟨rfl, -⟩ := now
    refine ⟨order ++ [k], once, ?_, ?_, .free ?_ ?_⟩
    · intro other
      by_cases same : other = k
      · simp [same]
      · simp [same, goto_of_ne _ _ same, inTurn.finished]
    · intro other e
      by_cases same : other = k
      · simp [same]
      · simpa [goto_of_ne _ _ same] using inTurn.safe other e
    · intro other
      by_cases same : other = k
      · simp [same, Phase.Busy]
      · simpa [goto_of_ne _ _ same] using others other same
    · change loadMessagesAsync loads (some (bytes text)) = _
      simp only [loadMessagesAsync, decode_printed shape, universal_printed shape, undone]

end Steps

/-! ### Two calls -/

private def two (k : Bool) : SaveCall := ⟨lit "node", if k then lit "b" else lit "a", 5⟩

private def clock (_ : Int) : Option Str := some (lit "1970-01-01T00:00:05")

private def arrays : List Json :=
  [[], [false], [true], [false, true], [true, false]].map fun order => .arr (listOf clock two [] order)

private theorem orders (order : List Bool) (once : order.Nodup) :
    order ∈ [[], [false], [true], [false, true], [true, false]] := by
  match order with
  | [] => decide
  | [a] => cases a <;> decide
  | [a, b] => revert once; cases a <;> cases b <;> decide
  | a :: b :: c :: rest => exfalso; cases a <;> cases b <;> cases c <;> simp at once

private theorem arrays_undone (order : List Bool) (once : order.Nodup) :
    RoundTrips (knowing (some 2) arrays) (some 2) (.arr (listOf clock two [] order)) := by
  have known : ∀ value ∈ arrays, RoundTrips (knowing (some 2) arrays) (some 2) value :=
    roundTrips_knowing (by decide +kernel) (by decide +kernel)
  exact known _ (List.mem_map_of_mem (orders order once))

set_option maxRecDepth 4000 in
/-- Two calls that both read the absent file before either writes: one entry is
    lost. -/
theorem update_lost : ¬ ∀ (loads : Loads) (localtime : Int → Option Str) (calls : Bool → SaveCall) (initial : List Json)
    (file : Option (List UInt8)), loadMessagesAsync loads file = .ok (.arr initial) →
      (∀ order : List Bool, order.Nodup → RoundTrips loads (some 2) (.arr (listOf localtime calls initial order))) →
      ∀ (events : List Bool) (s : EventLoop Bool),
        Run (saveMessageAsync loads localtime calls) any (start file) events s →
          Landed loads localtime calls initial s := by
  intro claim
  obtain ⟨s, run, ended, one⟩ : ∃ s, exec (saveMessageAsync (knowing (some 2) arrays) clock two) (fun _ _ => true)
      (start none) [false, true, false, false, true, true] = some ([false, true, false, false, true, true], s) ∧
        (∀ k, s.phase k = .finished) ∧
        loadMessagesAsync (knowing (some 2) arrays) s.file = .ok (.arr (listOf clock two [] [true])) :=
    ⟨_, rfl, fun k => by cases k <;> rfl, rfl⟩
  obtain ⟨-, landed⟩ := claim (knowing (some 2) arrays) clock two [] none rfl arrays_undone _ s
    (Run.of_exec _ (fun _ _ _ => trivial) _ run)
  obtain ⟨order, once, finished, holds⟩ := landed fun k => .inr (ended k)
  rw [one] at holds
  have lengths := congrArg List.length (Json.arr.inj (Except.ok.inj holds))
  have both : ∀ k, k ∈ order := fun k => (finished k).mpr (ended k)
  have few : order.length = 1 := by simpa [listOf] using lengths.symm
  obtain ⟨k, rfl⟩ := List.length_eq_one_iff.mp few
  have first := both false
  have second := both true
  simp_all

/-- While every call reads the file with no other one between its read and its
    write, no call raises and all that finish land. -/
theorem saves_landed {loads : Loads} {localtime : Int → Option Str} {calls : κ → SaveCall} {initial : List Json}
    {file : Option (List UInt8)} (holds : loadMessagesAsync loads file = .ok (.arr initial))
    (undoes : ∀ order : List κ, order.Nodup →
      RoundTrips loads (some 2) (.arr (listOf localtime calls initial order)))
    {events : List κ} {s : EventLoop κ}
    (run : Run (saveMessageAsync loads localtime calls) (Alone localtime calls) (start file) events s) :
    Landed loads localtime calls initial s := by
  obtain ⟨order, once, finished, safe, turn⟩ : ∃ order, InTurn loads localtime calls initial order s := by
    refine run.invariant (fun _ s => ∃ order, InTurn loads localtime calls initial order s) ?_ ?_
    · refine ⟨[], List.nodup_nil, fun k => by simp [start], fun k e => by simp [start], .free (fun k => id) ?_⟩
      simpa [listOf, start] using holds
    · rintro _ s k t _ ⟨order, inTurn⟩ alone now
      exact inTurn_step undoes inTurn alone now
  refine ⟨safe, fun ended => ⟨order, once, finished, ?_⟩⟩
  cases turn with
  | free quiet landed => exact landed
  | taken k others place =>
    rcases ended k with at_start | at_end <;> rcases place with at_read | ⟨at_open, -⟩ <;> simp_all

set_option maxRecDepth 4000 in
theorem saves_landed_two :
    ∃ s, Run (saveMessageAsync (knowing (some 2) arrays) clock two) (Alone clock two) (start none)
        [true, true, true, false, false, false] s ∧ Landed (knowing (some 2) arrays) clock two [] s := by
  obtain ⟨s, run⟩ : ∃ s, Run (saveMessageAsync (knowing (some 2) arrays) clock two) (Alone clock two) (start none)
      [true, true, true, false, false, false] s := by
    refine ⟨_, Run.of_exec (fun s k => match s.phase k with
      | .waiting => decide (∀ other, ¬ (s.phase other).Busy)
      | _ => true) (fun s k checked waiting => ?_) [true, true, true, false, false, false] rfl⟩
    rw [waiting] at checked
    exact ⟨of_decide_eq_true checked, rfl⟩
  exact ⟨s, run, saves_landed rfl arrays_undone run⟩

end Hde.Saving
