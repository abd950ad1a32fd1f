import Hde.Stranding

/-!
Writes of `state` that the worker discards. A handler ends by writing "idle" or
"receive" whatever has happened since the worker read the state, so that what a
caller writes in between is gone before the worker has read it (`reset_discarded`).
When no caller writes while such a handler is under way nothing is discarded, and
every write that comes then is (`undisturbed_exactly`).
-/
namespace Hde.Overwrites
open Hde.Engine
open Hde.Engine.LoRaEngine
open Hde.Steps Hde.Stranding

variable {κ α : Type*}

/-- Whether a caller has written `state` since the worker last read it, after one more
    event. -/
def disturb (written : Bool) : Event κ α → Bool
  | .read .worker _ => false
  | .wrote (.caller _) _ => true
  | _ => written

def disturbed (events : List (Event κ α)) : Bool := events.foldl disturb false

/-- Whenever the worker writes `state`, no caller has since the worker last read it. -/
def Undisturbed (events : List (Event κ α)) : Prop :=
  ∀ before after mode, events = before ++ .wrote .worker mode :: after → disturbed before = false

/-- The worker has read a state and will write another one at the end of the handler. -/
def handling : Worker α → Bool
  | .reset | .afterReset | .get | .empty | .setModeTx _ | .send _ | .sent | .autoSwitch | .unknown => true
  | _ => false

/-- The next step of the call writes `state`. -/
def writing : Call α → Bool
  | .setTransmit _ | .setReceive _ | .setState _ => true
  | _ => false

/-- A caller writes `state` only while no handler is about to. -/
def Apart (e : LoRaEngine κ α) : Action κ α → Prop
  | .call k => writing (e.calls k) = true → handling e.worker = false
  | _ => True

instance (e : LoRaEngine κ α) : (action : Action κ α) → Decidable (Apart e action)
  | .call k => inferInstanceAs (Decidable (writing (e.calls k) = true → handling e.worker = false))
  | .work | .hear _ | .deliver _ | .enter _ _ => isTrue trivial

/-! ### What a step does to the state -/

/-- An event that neither reads nor writes `state` in a way that matters here. -/
def Neutral : Event κ α → Prop
  | .read .worker _ => False
  | .wrote _ _ => False
  | _ => True

inductive Access (e : LoRaEngine κ α) : Action κ α → Event κ α → LoRaEngine κ α → Prop
  | read {event : Event κ α} {t : LoRaEngine κ α} {mode : Mode} (now : event = .read .worker mode) :
      Access e .work event t
  | overwrote {event : Event κ α} {t : LoRaEngine κ α} {mode : Mode} (now : event = .wrote .worker mode)
      (ends : handling e.worker = true) (done : handling t.worker = false) : Access e .work event t
  | wrote {k : κ} {event : Event κ α} {t : LoRaEngine κ α} {mode : Mode} (now : event = .wrote (.caller k) mode)
      (writes : writing (e.calls k) = true) (same : t.worker = e.worker) : Access e (.call k) event t
  | neither {action : Action κ α} {event : Event κ α} {t : LoRaEngine κ α} (neutral : Neutral event)
      (goes_on : handling t.worker = handling e.worker) : Access e action event t

variable {e t : LoRaEngine κ α} {event : Event κ α} {action : Action κ α}

theorem disturb_neutral (neutral : Neutral event) (written : Bool) : disturb written event = written := by
  cases event with
  | read thread mode => cases thread <;> first | exact absurd neutral id | rfl
  | wrote thread mode => exact absurd neutral id
  | _ => rfl

theorem disturbed_append (events more : List (Event κ α)) :
    disturbed (events ++ more) = more.foldl disturb (disturbed events) := by
  simp [disturbed]

theorem undisturbed_append {events : List (Event κ α)} (undisturbed : Undisturbed events)
    (last : ∀ mode, event = .wrote .worker mode → disturbed events = false) : Undisturbed (events ++ [event]) := by
  intro before after mode split
  rcases Runs.split_snoc split with ⟨rfl, same, rfl⟩ | ⟨front, rfl, inside⟩
  · exact last mode same.symm
  · exact undisturbed before front mode inside

theorem handling_loop (running : Bool) : handling (if running then .readState else .stopped : Worker α) = false := by
  cases running <;> rfl

theorem work_access (now : e.work = some (t, event)) : Access e .work event t := by
  cases place : e.worker with
  | receive | read | stopped => simp [work, place] at now
  | readState =>
    simp only [work, place, Option.some.injEq, Prod.mk.injEq] at now
    exact .read now.2.symm
  | afterReset | empty | autoSwitch | unknown =>
    simp only [work, place, Option.some.injEq, Prod.mk.injEq] at now
    obtain ⟨rfl, rfl⟩ := now
    exact .overwrote rfl (by simp [place, handling]) rfl
  | loop =>
    simp only [work, place, Option.some.injEq, Prod.mk.injEq] at now
    obtain ⟨rfl, rfl⟩ := now
    exact .neither trivial (by rw [place]; exact handling_loop e.running)
  | get =>
    cases contents : e.queue <;>
      simp only [work, place, contents, Option.some.injEq, Prod.mk.injEq] at now <;> obtain ⟨rfl, rfl⟩ := now <;>
      exact .neither trivial (by simp [goto, place, handling])
  | _ =>
    simp only [work, place, Option.some.injEq, Prod.mk.injEq] at now
    obtain ⟨rfl, rfl⟩ := now
    exact .neither trivial (by simp [goto, enqueue, place, handling])

variable [DecidableEq κ]

theorem call_access {k : κ} (now : e.call k = some (t, event)) : Access e (.call k) event t := by
  cases place : e.calls k with
  | out => simp [call, place] at now
  | setTransmit msg | setReceive msg | setState newState =>
    simp only [call, place, Option.some.injEq, Prod.mk.injEq] at now
    obtain ⟨rfl, rfl⟩ := now
    exact .wrote rfl (by simp [place, writing]) rfl
  | get items =>
    cases contents : e.queue with
    | nil => simp [call, place, contents] at now
    | cons item rest =>
      simp only [call, place, contents, Option.some.injEq, Prod.mk.injEq] at now
      obtain ⟨rfl, rfl⟩ := now
      exact .neither trivial rfl
  | join =>
    simp only [call, place] at now
    split at now
    · simp only [Option.some.injEq, Prod.mk.injEq] at now
      obtain ⟨rfl, rfl⟩ := now
      exact .neither trivial rfl
    · cases now
  | _ =>
    simp only [call, place, Option.some.injEq, Prod.mk.injEq] at now
    obtain ⟨rfl, rfl⟩ := now
    exact .neither trivial rfl

theorem step_access (now : step e action = some (t, event)) : Access e action event t := by
  cases action with
  | work => exact work_access now
  | call k => exact call_access now
  | enter k request =>
    obtain ⟨-, rfl, rfl⟩ := step_enter now
    exact .neither trivial rfl
  | hear heard =>
    obtain ⟨place, rfl, rfl⟩ := step_hear now
    exact .neither trivial (by cases heard <;> simp [goto, place, handling])
  | deliver raw =>
    obtain ⟨place, rfl, rfl⟩ := step_deliver now
    exact .neither trivial (by simp [goto, place, handling])

/-! ### Runs in which nothing is discarded -/

/-- Nothing has been discarded, and nothing has been written that the handler under
    way will discard. -/
structure Tidy (events : List (Event κ α)) (e : LoRaEngine κ α) : Prop where
  undisturbed : Undisturbed events
  current : handling e.worker = true → disturbed events = false

theorem tidy_step {events : List (Event κ α)} (tidy : Tidy events e) (apart : Apart e action)
    (now : step e action = some (t, event)) : Tidy (events ++ [event]) t := by
  cases step_access now with
  | read reads =>
    subst reads
    exact ⟨undisturbed_append tidy.undisturbed (fun mode same => by cases same), fun _ => by simp [disturbed_append, disturb]⟩
  | overwrote writes ends done =>
    refine ⟨undisturbed_append tidy.undisturbed fun _ _ => tidy.current ends, ?_⟩
    intro busy
    rw [done] at busy
    cases busy
  | wrote writes writing same =>
    subst writes
    refine ⟨undisturbed_append tidy.undisturbed (fun mode same => by cases same), ?_⟩
    intro busy
    rw [same, apart writing] at busy
    cases busy
  | neither neutral goes_on =>
    refine ⟨undisturbed_append tidy.undisturbed ?_, ?_⟩
    · intro mode same
      subst same
      exact absurd neutral id
    · intro busy
      rw [disturbed_append, List.foldl_cons, disturb_neutral neutral]
      exact tidy.current (goes_on ▸ busy)

theorem tidy_run {events : List (Event κ α)} (run : Runs.Run step Apart (start κ α) events e) : Tidy events e := by
  refine run.invariant Tidy ⟨fun before after mode split => by simp at split, fun busy => by cases busy⟩ ?_
  intro _ _ _ _ _ tidy apart now
  exact tidy_step tidy apart now

/-! ### What a write leads to while a handler is under way -/

/-- A handler goes on without waiting for anyone until it writes the state. -/
theorem handling_step (busy : handling e.worker = true) :
    ∃ t event, step e .work = some (t, event) ∧ ((∃ mode, event = .wrote .worker mode) ∨
      (Neutral event ∧ handling t.worker = true ∧ distance t.worker < distance e.worker)) := by
  cases place : e.worker with
  | afterReset | empty | autoSwitch | unknown => exact ⟨_, _, by simp only [step, work, place]; rfl, .inl ⟨_, rfl⟩⟩
  | get =>
    cases contents : e.queue with
    | nil => exact ⟨_, _, by simp only [step, work, place, contents]; rfl, .inr ⟨by trivial, by rfl, by simp [distance, goto]⟩⟩
    | cons item rest =>
      exact ⟨_, _, by simp only [step, work, place, contents]; rfl, .inr ⟨by trivial, by rfl, by simp [distance]⟩⟩
  | reset | setModeTx message | send message | sent =>
    exact ⟨_, _, by simp only [step, work, place]; rfl, .inr ⟨by trivial, by rfl, by simp [distance, goto]⟩⟩
  | _ => simp [place, handling] at busy

/-- What has been written is discarded by the worker's own steps. -/
theorem discarded {events : List (Event κ α)} (busy : handling e.worker = true) (written : disturbed events = true) :
    ∃ more u, Runs.Run step ByWorker e more u ∧ ¬ Undisturbed (events ++ more) := by
  induction far : distance e.worker using Nat.strongRecOn generalizing e events with
  | ind far ih =>
  subst far
  have mine : ByWorker e .work := rfl
  obtain ⟨t, event, now, ⟨mode, rfl⟩ | ⟨neutral, still, closer⟩⟩ := handling_step busy
  · refine ⟨_, t, Runs.Run.one mine now, ?_⟩
    intro undisturbed
    rw [undisturbed events [] mode rfl] at written
    cases written
  · have kept : disturbed (events ++ [event]) = true := by
      rw [disturbed_append, List.foldl_cons, disturb_neutral neutral]
      exact written
    obtain ⟨more, u, run, lost⟩ := ih _ closer still kept rfl
    exact ⟨event :: more, u, (Runs.Run.one mine now).trans run, by simpa using lost⟩

theorem written_of_not_apart {events : List (Event κ α)} (now : step e action = some (t, event))
    (early : ¬ Apart e action) : handling t.worker = true ∧ disturbed (events ++ [event]) = true := by
  cases action with
  | work | hear heard | deliver raw | enter k request => exact absurd trivial early
  | call k =>
    obtain ⟨writes, busy⟩ := Classical.not_imp.mp early
    have under_way : handling e.worker = true := by simpa using busy
    cases place : e.calls k <;> rw [place] at writes <;> try cases writes
    all_goals
      simp only [step, call, place, Option.some.injEq, Prod.mk.injEq] at now
      obtain ⟨rfl, rfl⟩ := now
      exact ⟨under_way, by simp [disturbed_append, disturb]⟩

/-- A reset that comes while the worker waits for a message to transmit is gone. -/
theorem reset_discarded : ¬ ∀ (events : List (Event Unit Nat)) (e : LoRaEngine Unit Nat),
    Run events e → Undisturbed events := by
  intro claim
  obtain ⟨before, e, run, written⟩ : ∃ before e, Runs.exec step (fun _ _ => true) (start Unit Nat)
      [.enter () (.setState .transmit), .call (), .call (), .work, .work, .enter () (.setState .reset), .call (), .work,
        .work] = some (before ++ [.wrote .worker .idle], e) ∧ disturbed before = true :=
    ⟨[.entered () (.setState .transmit), .wrote (.caller ()) .transmit, .returned () .none, .checked true,
      .read .worker .transmit, .entered () (.setState .reset), .wrote (.caller ()) .reset, .timedOut], _, rfl, rfl⟩
  have undisturbed := claim _ e (Runs.Run.of_exec _ (fun _ _ _ => trivial) _ run)
  rw [undisturbed before [] .idle rfl] at written
  cases written

/-- The worker discards nothing in a run where no caller writes while a handler is
    under way, and each write that comes then is discarded by steps of the worker
    alone. -/
theorem undisturbed_exactly :
    (∀ (events : List (Event κ α)) (e : LoRaEngine κ α),
      Runs.Run step Apart (start κ α) events e → Undisturbed events) ∧
    ∀ (events : List (Event κ α)) (e t : LoRaEngine κ α) (action : Action κ α) (event : Event κ α),
      Run events e → step e action = some (t, event) → ¬ Apart e action →
      ∃ more u, Runs.Run step ByWorker t more u ∧ ¬ Undisturbed (events ++ [event] ++ more) := by
  constructor
  · intro events e run
    exact (tidy_run run).undisturbed
  · intro events e t action event _ now early
    obtain ⟨busy, written⟩ := written_of_not_apart now early
    exact discarded busy written

/-- A reset is carried out when it comes while the worker sleeps, and discarded when
    it comes while the worker waits for a message. -/
theorem undisturbed_exactly_reset :
    (∃ (events : List (Event Unit Nat)) (e : LoRaEngine Unit Nat), .radio .reset ∈ events ∧
      .wrote .worker .idle ∈ events ∧ e.worker = .loop ∧ Undisturbed events) ∧
    ∃ events : List (Event Unit Nat), ¬ Undisturbed events := by
  obtain ⟨kept, lost⟩ := undisturbed_exactly (κ := Unit) (α := Nat)
  constructor
  · obtain ⟨events, e, run, carried, ended, top⟩ : ∃ events e, Runs.exec step
        (fun e action => decide (Apart e action)) (start Unit Nat)
        [.work, .work, .enter () (.setState .reset), .call (), .work, .work, .work, .work, .work] = some (events, e) ∧
          .radio .reset ∈ events ∧ .wrote .worker .idle ∈ events ∧ e.worker = .loop :=
      ⟨[.checked true, .read .worker .idle, .entered () (.setState .reset), .wrote (.caller ()) .reset, .slept,
        .checked true, .read .worker .reset, .radio .reset, .wrote .worker .idle], _, rfl, by simp, by simp, rfl⟩
    exact ⟨events, e, carried, ended, top,
      kept events e (Runs.Run.of_exec _ (fun _ _ checked => of_decide_eq_true checked) _ run)⟩
  · obtain ⟨events, e, run, place, call⟩ : ∃ events e, Runs.exec step (fun _ _ => true) (start Unit Nat)
        [.enter () (.setState .transmit), .call (), .call (), .work, .work, .enter () (.setState .reset)] =
          some (events, e) ∧ e.worker = .get ∧ e.calls () = .setState .reset := ⟨_, _, rfl, rfl, rfl⟩
    obtain ⟨more, u, -, discards⟩ := lost events e _ (.call ()) _ (Runs.Run.of_exec _ (fun _ _ _ => trivial) _ run)
      (by simp only [step, LoRaEngine.call, call]; rfl) (by simp [Apart, place, call, writing, handling])
    exact ⟨_, discards⟩

end Hde.Overwrites
