import Hde.Steps
import Mathlib.Data.Fintype.Basic

/-!
Whether draining the queue waits. `get_messages` asks whether the queue is empty and then
takes an item without a timeout, in two steps. Another thread that takes the last item
between the two leaves it waiting (`waits`), and nothing else does (`never_waits_exactly`).
-/
namespace Hde.Draining
open Hde.Engine
open Hde.Engine.LoRaEngine
open Hde.Steps

variable {κ α : Type*}

/-- In `get_messages`, between the test and the get. -/
def AboutToGet : Call α → Prop
  | .get _ => True
  | _ => False

instance : DecidablePred (AboutToGet : Call α → Prop)
  | .get _ => isTrue trivial
  | .out | .put _ | .setTransmit _ | .readBack _ | .check _ | .setReceive _ | .setState _ | .getState | .empty _ | .stop
  | .join | .reply _ => isFalse id

/-- A call that is about to take an item finds one. -/
def NeverWaits (e : LoRaEngine κ α) : Prop := ∀ k, AboutToGet (e.calls k) → e.queue ≠ []

/-- The step takes the only item of the queue. -/
def TakesLast (e : LoRaEngine κ α) : Action κ α → Prop
  | .work => e.worker = .get ∧ e.queue.length = 1
  | .call k => AboutToGet (e.calls k) ∧ e.queue.length = 1
  | _ => False

/-- No thread takes the only item while another one is between its test and its get. -/
def Careful (e : LoRaEngine κ α) (action : Action κ α) : Prop :=
  TakesLast e action → ∀ k, AboutToGet (e.calls k) → mover action = .caller k

instance [DecidableEq α] (e : LoRaEngine κ α) : (action : Action κ α) → Decidable (TakesLast e action)
  | .work => inferInstanceAs (Decidable (e.worker = .get ∧ e.queue.length = 1))
  | .call k => inferInstanceAs (Decidable (AboutToGet (e.calls k) ∧ e.queue.length = 1))
  | .hear _ | .deliver _ | .enter _ _ => isFalse id

instance [DecidableEq α] [DecidableEq κ] [Fintype κ] (e : LoRaEngine κ α) (action : Action κ α) :
    Decidable (Careful e action) :=
  inferInstanceAs (Decidable (TakesLast e action → ∀ k, AboutToGet (e.calls k) → mover action = .caller k))

variable {e t : LoRaEngine κ α} {event : Event κ α} {action : Action κ α}

theorem not_aboutToGet_first (request : Request α) : ¬ AboutToGet request.first := by
  cases request <;> exact id

variable [DecidableEq κ]

theorem callAt_self (e : LoRaEngine κ α) (k : κ) (place : Call α) : (e.callAt k place).calls k = place := by
  simp [callAt]

theorem callAt_of_ne (e : LoRaEngine κ α) {k other : κ} (place : Call α) (different : other ≠ k) :
    (e.callAt k place).calls other = e.calls other := by
  simp [callAt, different]

/-- A step that leaves a call elsewhere than before its get. -/
theorem not_aboutToGet_of_callAt {k : κ} {place : Call α} {said : Event κ α}
    (now : some (e.callAt k place, said) = some (t, event)) (elsewhere : ¬ AboutToGet place) :
    ¬ AboutToGet (t.calls k) := by
  obtain ⟨rfl, -⟩ := Prod.mk.inj (Option.some.inj now)
  rwa [callAt_self]

/-- A call comes to its get by seeing that the queue is not empty. -/
theorem aboutToGet_call {k : κ} (now : e.call k = some (t, event)) (about : AboutToGet (t.calls k)) : t.queue ≠ [] := by
  cases place : e.calls k with
  | out => simp [call, place] at now
  | empty items =>
    simp only [call, place, Option.some.injEq, Prod.mk.injEq] at now
    obtain ⟨rfl, -⟩ := now
    rw [callAt_self] at about
    intro nothing
    have empty : e.queue = [] := nothing
    simp [empty, AboutToGet] at about
  | get items =>
    cases contents : e.queue with
    | nil => simp [call, place, contents] at now
    | cons item rest =>
      simp only [call, place, contents] at now
      exact absurd about (not_aboutToGet_of_callAt now id)
  | join =>
    simp only [call, place] at now
    split at now
    · exact absurd about (not_aboutToGet_of_callAt now id)
    · cases now
  | check msg =>
    simp only [call, place] at now
    refine absurd about (not_aboutToGet_of_callAt now ?_)
    split <;> exact id
  | _ =>
    simp only [call, place] at now
    exact absurd about (not_aboutToGet_of_callAt now id)

/-- The queue loses its only item by a step that takes it. -/
theorem takesLast_of_emptied (now : step e action = some (t, event)) (some_item : e.queue ≠ []) (emptied : t.queue = []) :
    TakesLast e action := by
  cases moved : mover action with
  | worker =>
    cases step_worker moved now with
    | quiet still => exact absurd (still.queue.symm.trans emptied) some_item
    | received place => simp [goto, enqueue] at emptied
    | sent place => exact absurd emptied some_item
    | @took item rest place first =>
      obtain rfl : rest = [] := emptied
      cases action with
      | enter k request | call k => cases moved
      | hear heard | deliver raw => simp [step, place] at now
      | work => exact ⟨place, by simp [first]⟩
  | caller k =>
    cases step_caller moved now with
    | quiet still => exact absurd (still.queue.symm.trans emptied) some_item
    | queued place => simp [callAt, enqueue] at emptied
    | returned place => exact absurd emptied some_item
    | @collected items rest item place first =>
      obtain rfl : rest = [] := emptied
      obtain rfl := call_of_inside moved now (by simp [place])
      exact ⟨by rw [place]; trivial, by simp [first]⟩

/-- Whoever is about to take an item after a step was so before it, or has just seen
    one. -/
theorem aboutToGet_step {k : κ} (now : step e action = some (t, event)) (about : AboutToGet (t.calls k)) :
    t.queue ≠ [] ∨ (AboutToGet (e.calls k) ∧ mover action ≠ .caller k) := by
  cases moved : mover action with
  | worker =>
    rw [(step_worker moved now).calls] at about
    exact .inr ⟨about, by simp⟩
  | caller mine =>
    by_cases same : k = mine
    · subst same
      cases action with
      | work | hear heard | deliver raw => cases moved
      | call other =>
        obtain rfl : other = k := by simpa [mover] using moved
        exact .inl (aboutToGet_call now about)
      | enter other request =>
        obtain rfl : other = k := by simpa [mover] using moved
        obtain ⟨-, rfl, -⟩ := step_enter now
        rw [callAt_self] at about
        exact absurd about (not_aboutToGet_first request)
    · refine .inr ⟨?_, by simpa using Ne.symm same⟩
      cases step_caller moved now with
      | quiet still => rwa [still.elsewhere k same] at about
      | queued place | collected place first | returned place => rwa [callAt_of_ne _ _ same] at about

theorem neverWaits_step (never : NeverWaits e) (careful : Careful e action) (now : step e action = some (t, event)) :
    NeverWaits t := by
  intro k about emptied
  rcases aboutToGet_step now about with some_item | ⟨before, other⟩
  · exact some_item emptied
  · exact other (careful (takesLast_of_emptied now (never k before) emptied) k before)

/-- A careless step leaves a call waiting. -/
theorem waits_of_careless (now : step e action = some (t, event)) (careless : ¬ Careful e action) : ¬ NeverWaits t := by
  obtain ⟨last, others⟩ := Classical.not_imp.mp careless
  obtain ⟨k, about⟩ := Classical.not_forall.mp others
  obtain ⟨about, other⟩ := Classical.not_imp.mp about
  intro never
  have emptied : t.queue = [] ∧ t.calls k = e.calls k := by
    cases action with
    | hear heard | deliver raw | enter j request => exact absurd last id
    | work =>
      obtain ⟨place, one⟩ := last
      obtain ⟨item, only⟩ := List.length_eq_one_iff.mp one
      simp only [step, work, place, only, Option.some.injEq, Prod.mk.injEq] at now
      obtain ⟨rfl, -⟩ := now
      exact ⟨rfl, rfl⟩
    | call j =>
      obtain ⟨taking, one⟩ := last
      obtain ⟨item, only⟩ := List.length_eq_one_iff.mp one
      have different : k ≠ j := fun same => other (by rw [same]; rfl)
      cases place : e.calls j with
      | get items =>
        simp only [step, call, place, only, Option.some.injEq, Prod.mk.injEq] at now
        obtain ⟨rfl, -⟩ := now
        exact ⟨rfl, callAt_of_ne _ _ different⟩
      | _ => simp [place, AboutToGet] at taking
  exact never k (emptied.2 ▸ about) emptied.1

/-- The methods `get_messages`, `queue_message` and `set_state`. -/
def Listed (_ : LoRaEngine κ α) : Action κ α → Prop
  | .enter _ .getState => False
  | .enter _ .shutdown => False
  | _ => True

/-- Two calls drain one message: the second one waits. -/
theorem waits : ¬ ∀ (events : List (Event Bool Nat)) (e : LoRaEngine Bool Nat),
    Runs.Run step Listed (start Bool Nat) events e → NeverWaits e := by
  intro claim
  obtain ⟨events, e, run, place, nothing⟩ : ∃ events e, Runs.exec step
      (fun _ action => match action with | .enter _ .getState | .enter _ .shutdown => false | _ => true)
      (start Bool Nat) [.enter true (.queueMessage 7), .call true, .enter false .getMessages, .call false, .call true,
        .call true, .call true, .call true, .call true, .enter true .getMessages, .call true, .call true] =
      some (events, e) ∧ e.calls false = .get [] ∧ e.queue = [] := ⟨_, _, rfl, rfl, rfl⟩
  refine claim events e (Runs.Run.of_exec _ ?_ _ run) false (by rw [place]; trivial) nothing
  intro s action checked
  unfold Listed
  split <;> first | exact trivial | cases checked

/-- Draining never waits in a run in which no thread takes the only item while another
    one is about to take it, and every step that does leaves a call waiting. -/
theorem never_waits_exactly :
    (∀ (events : List (Event κ α)) (e : LoRaEngine κ α),
      Runs.Run step Careful (start κ α) events e → NeverWaits e) ∧
    ∀ (events : List (Event κ α)) (e t : LoRaEngine κ α) (action : Action κ α) (event : Event κ α),
      Run events e → step e action = some (t, event) → ¬ Careful e action → ¬ NeverWaits t := by
  constructor
  · intro events e run
    refine run.invariant (fun _ e => NeverWaits e) (fun k about => absurd about id) ?_
    intro _ _ _ _ _ never careful now
    exact neverWaits_step never careful now
  · intro events e t action event _ now careless
    exact waits_of_careless now careless

/-- One call drains a message and does not wait; when a second one has seen the same
    message, it is left waiting. -/
theorem never_waits_exactly_two :
    (∃ (events : List (Event Bool Nat)) (e : LoRaEngine Bool Nat), Runs.Run step Careful (start Bool Nat) events e ∧
      AboutToGet (e.calls true) ∧ NeverWaits e) ∧
      ∃ t : LoRaEngine Bool Nat, ¬ NeverWaits t := by
  obtain ⟨kept, lost⟩ := never_waits_exactly (κ := Bool) (α := Nat)
  constructor
  · obtain ⟨events, e, run, about⟩ : ∃ events e, Runs.exec step (fun e action => decide (Careful e action))
        (start Bool Nat) [.enter false (.queueMessage 7), .call false, .enter true .getMessages, .call true] =
          some (events, e) ∧ AboutToGet (e.calls true) := ⟨_, _, rfl, trivial⟩
    have careful : Runs.Run step Careful (start Bool Nat) events e :=
      Runs.Run.of_exec _ (fun _ _ checked => of_decide_eq_true checked) _ run
    exact ⟨events, e, careful, about, kept events e careful⟩
  · obtain ⟨events, e, run, first, second, item, only⟩ : ∃ events e, Runs.exec step (fun _ _ => true)
        (start Bool Nat) [.enter false (.queueMessage 7), .call false, .call false, .call false, .call false, .call false,
          .call false, .enter true .getMessages, .enter false .getMessages, .call true, .call false] = some (events, e) ∧
          e.calls true = .get [] ∧ e.calls false = .get [] ∧ ∃ item, e.queue = [item] := ⟨_, _, rfl, rfl, rfl, _, rfl⟩
    have careless : ¬ Careful e (.call true) := by
      intro careful
      have mine := careful ⟨by rw [first]; trivial, by rw [only]; rfl⟩ false (by rw [second]; trivial)
      cases mine
    exact ⟨_, lost events e _ (.call true) _ (Runs.Run.of_exec _ (fun _ _ _ => trivial) _ run)
      (by simp only [step, call, first, only]; rfl) careless⟩

end Hde.Draining
