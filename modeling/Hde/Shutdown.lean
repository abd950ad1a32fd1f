import Hde.Steps

/-!
What the radio sees of the worker, and how the worker ends. In every run the worker
uses the radio in whole exchanges (`radio_orderly`): an item that it takes is sent
before anything else, after the mode was set, and a packet that was heard is read and
put. `shutdown` makes the worker stop after at most seven more steps of its own, none of
which can be stuck (`shutdown_stops`).
-/
namespace Hde.Shutdown
open Hde.Engine Hde.Steps
open Hde.Engine.LoRaEngine

variable {κ α : Type*}

/-- The steps that the worker makes, as opposed to those of the callers. -/
def ofWorker : Event κ α → Bool
  | .checked _ | .timedOut | .radio _ | .slept => true
  | .read thread _ | .wrote thread _ | .put thread _ | .got thread _ =>
    match thread with
    | .worker => true
    | .caller _ => false
  | .tested _ _ | .entered _ _ | .returned _ _ | .stopped _ | .joined _ => false

/-! ### The exchanges with the radio -/

/-- Where an exchange with the radio stands. -/
inductive Line (α : Type*)
  | ready
  | taken (message : Item α)
  | sending (message : Item α)
  | listening
  | heard
  | packet (raw : α)
deriving DecidableEq

/-- What may come next of the worker's takes, puts and radio calls. -/
def follow [DecidableEq α] : Line α → Event κ α → Option (Line α)
  | .ready, .radio .reset => some .ready
  | .ready, .got .worker message => some (.taken message)
  | .taken message, .radio .setModeTx => some (.sending message)
  | .sending message, .radio (.send other) => if other = message then some .ready else none
  | .ready, .radio .setModeRx => some .listening
  | .listening, .radio (.receive heard) => some (if heard then .heard else .ready)
  | .heard, .radio (.read raw) => some (.packet raw)
  | .packet raw, .put .worker item => if item.value = raw ∧ item.origin = .received then some .ready else none
  | _, .radio _ | _, .got .worker _ | _, .put .worker _ => none
  | line, _ => some line

def lineAt : Worker α → Line α
  | .setModeTx message => .taken message
  | .send message => .sending message
  | .receive => .listening
  | .read => .heard
  | .put raw => .packet raw
  | _ => .ready

variable {e t : LoRaEngine κ α} {event : Event κ α} {action : Action κ α} {events more : List (Event κ α)}

theorem lineAt_handler (mode : Mode) : lineAt (handler mode : Worker α) = .ready := by
  cases mode <;> rfl

theorem follow_caller [DecidableEq α] {line : Line α} (other : ofWorker event = false) : follow line event = some line := by
  cases event with
  | checked | timedOut | radio | slept => cases other
  | read thread | wrote thread => cases line <;> rfl
  | put thread | got thread =>
    cases thread with
    | worker => cases other
    | caller k => cases line <;> rfl
  | tested | entered | returned | stopped | joined => cases line <;> rfl

theorem work_follow [DecidableEq α] (now : e.work = some (t, event)) :
    ofWorker event = true ∧ follow (lineAt e.worker) event = some (lineAt t.worker) := by
  cases place : e.worker with
  | receive | read | stopped => simp [work, place] at now
  | get =>
    cases contents : e.queue <;> simp only [work, place, contents, Option.some.injEq, Prod.mk.injEq] at now <;>
      obtain ⟨rfl, rfl⟩ := now <;> exact ⟨rfl, rfl⟩
  | readState =>
    simp only [work, place, Option.some.injEq, Prod.mk.injEq] at now
    obtain ⟨rfl, rfl⟩ := now
    exact ⟨rfl, congrArg some (lineAt_handler _).symm⟩
  | loop =>
    simp only [work, place, Option.some.injEq, Prod.mk.injEq] at now
    obtain ⟨rfl, rfl⟩ := now
    cases e.running <;> exact ⟨rfl, rfl⟩
  | send | put =>
    simp only [work, place, Option.some.injEq, Prod.mk.injEq] at now
    obtain ⟨rfl, rfl⟩ := now
    simp [ofWorker, follow, lineAt, goto, enqueue, next]
  | _ =>
    simp only [work, place, Option.some.injEq, Prod.mk.injEq] at now
    obtain ⟨rfl, rfl⟩ := now
    exact ⟨rfl, rfl⟩

variable [DecidableEq κ]

theorem call_worker {k : κ} (now : e.call k = some (t, event)) : ofWorker event = false ∧ t.worker = e.worker := by
  cases place : e.calls k with
  | out => simp [call, place] at now
  | get items =>
    cases contents : e.queue <;> simp only [call, place, contents] at now
    · cases now
    · cases now
      exact ⟨rfl, rfl⟩
  | join =>
    simp only [call, place] at now
    split at now <;> cases now
    exact ⟨rfl, rfl⟩
  | _ =>
    simp only [call, place, Option.some.injEq, Prod.mk.injEq] at now
    obtain ⟨rfl, rfl⟩ := now
    exact ⟨rfl, rfl⟩

/-- A step is one of the worker, which the protocol allows, or leaves the worker where it is. -/
theorem step_follow [DecidableEq α] (now : step e action = some (t, event)) :
    follow (lineAt e.worker) event = some (lineAt t.worker) ∧
      (ofWorker event = true ∨ ofWorker event = false ∧ t.worker = e.worker) := by
  cases action with
  | work => exact ⟨(work_follow now).2, .inl (work_follow now).1⟩
  | hear heard =>
    obtain ⟨place, rfl, rfl⟩ := step_hear now
    cases heard <;> exact ⟨by simp [place, follow, lineAt, goto], .inl rfl⟩
  | deliver raw =>
    obtain ⟨place, rfl, rfl⟩ := step_deliver now
    exact ⟨by simp [place, follow, lineAt, goto], .inl rfl⟩
  | enter k request =>
    obtain ⟨-, rfl, rfl⟩ := step_enter now
    exact ⟨follow_caller rfl, .inr ⟨rfl, rfl⟩⟩
  | call k =>
    obtain ⟨other, same⟩ := call_worker now
    exact ⟨by rw [follow_caller other, same], .inr ⟨other, same⟩⟩

/-- In every run the worker takes, sends, hears and puts in whole exchanges, one after
    the other, and its place in the code says how far the last one is. -/
theorem radio_orderly [DecidableEq α] (run : Run events e) : events.foldlM follow .ready = some (lineAt e.worker) := by
  refine run.invariant (fun events e => events.foldlM follow .ready = some (lineAt e.worker)) rfl ?_
  rintro earlier e action t event followed - now
  rw [List.foldlM_append, followed]
  simpa using (step_follow now).1

/-- A message that is sent, and the receive mode that the worker goes to. -/
theorem radio_orderly_sent : ∃ (events : List (Event Unit Nat)) (e : LoRaEngine Unit Nat),
    Event.radio (.send ⟨0, .queued, 5⟩) ∈ events ∧ e.worker = .receive ∧
      events.foldlM follow .ready = some (lineAt e.worker) := by
  refine ⟨_, _, ?sent, ?listening, radio_orderly (Runs.Run.of_exec (fun _ _ => true) (fun _ _ _ => trivial)
    [.enter () (.queueMessage 5), .call (), .call (), .work, .work, .work, .work, .work, .work, .work, .work, .work, .work]
    rfl)⟩
  case sent => decide
  case listening => rfl

/-! ### The end of the worker -/

/-- How many steps the worker makes at most before it stops, once `running` is false. -/
def rank : Worker α → Nat
  | .readState => 7
  | .setModeRx | .get => 6
  | .receive | .setModeTx _ => 5
  | .read | .send _ => 4
  | .reset | .put _ | .sent | .unknown => 3
  | .afterReset | .empty | .autoSwitch | .sleep => 2
  | .loop => 1
  | .stopped => 0

theorem rank_le (place : Worker α) : rank place ≤ 7 := by
  cases place <;> simp [rank]

omit [DecidableEq κ] in
theorem rank_handler (mode : Mode) : rank (handler mode : Worker α) < 7 := by
  cases mode <;> simp [handler, rank]

omit [DecidableEq κ] in
/-- A step of the worker brings it nearer to its end. -/
theorem work_rank (now : e.work = some (t, event)) (stopping : e.running = false) : rank t.worker < rank e.worker := by
  cases place : e.worker with
  | receive | read | stopped => simp [work, place] at now
  | get =>
    cases contents : e.queue <;> simp only [work, place, contents, Option.some.injEq, Prod.mk.injEq] at now <;>
      obtain ⟨rfl, rfl⟩ := now <;> simp [rank, goto]
  | readState =>
    simp only [work, place, Option.some.injEq, Prod.mk.injEq] at now
    obtain ⟨rfl, rfl⟩ := now
    exact rank_handler e.state
  | _ =>
    simp only [work, place, Option.some.injEq, Prod.mk.injEq] at now
    obtain ⟨rfl, rfl⟩ := now
    simp [rank, goto, enqueue, stopping]

theorem step_rank (now : step e action = some (t, event)) (stopping : e.running = false) :
    (if ofWorker event then 1 else 0) + rank t.worker ≤ rank e.worker := by
  cases action with
  | work =>
    have nearer := work_rank now stopping
    split <;> omega
  | hear heard =>
    obtain ⟨place, rfl, rfl⟩ := step_hear now
    cases heard <;> simp [place, rank, goto, ofWorker]
  | deliver raw =>
    obtain ⟨place, rfl, rfl⟩ := step_deliver now
    simp [place, rank, goto, ofWorker]
  | enter k request =>
    obtain ⟨-, rfl, rfl⟩ := step_enter now
    simp [ofWorker, callAt]
  | call k =>
    obtain ⟨other, same⟩ := call_worker now
    simp [other, same]

/-- Nobody sets `running` again. -/
theorem call_running {k : κ} (now : e.call k = some (t, event)) (stopping : e.running = false) : t.running = false := by
  cases place : e.calls k with
  | out => simp [call, place] at now
  | get items =>
    cases contents : e.queue <;> simp only [call, place, contents] at now
    · cases now
    · cases now
      exact stopping
  | join =>
    simp only [call, place] at now
    split at now <;> cases now
    exact stopping
  | stop =>
    simp only [call, place, Option.some.injEq, Prod.mk.injEq] at now
    obtain ⟨rfl, rfl⟩ := now
    rfl
  | _ =>
    simp only [call, place, Option.some.injEq, Prod.mk.injEq] at now
    obtain ⟨rfl, rfl⟩ := now
    exact stopping

theorem step_running (now : step e action = some (t, event)) (stopping : e.running = false) : t.running = false := by
  cases moved : mover action with
  | worker => exact (step_worker moved now).running.trans stopping
  | caller k =>
    cases action with
    | work | hear heard | deliver raw => cases moved
    | call other => exact call_running now stopping
    | enter other request =>
      obtain ⟨-, rfl, -⟩ := step_enter now
      exact stopping

theorem running_of_stopped {k : κ} (now : step e action = some (t, .stopped k)) : t.running = false := by
  cases action with
  | work =>
    classical
    cases (work_follow now).1
  | hear heard => cases (step_hear now).2.2
  | deliver raw => cases (step_deliver now).2.2
  | enter j request => cases (step_enter now).2.2
  | call j =>
    simp only [step] at now
    cases place : e.calls j with
    | stop =>
      simp only [call, place, Option.some.injEq, Prod.mk.injEq] at now
      obtain ⟨rfl, -⟩ := now
      rfl
    | get items => cases contents : e.queue <;> simp [call, place, contents] at now
    | join =>
      simp only [call, place] at now
      split at now <;> cases now
    | _ => simp [call, place] at now

/-- `running` is false as soon as a `shutdown` has written it. -/
theorem stopping_run (run : Run events e) {k : κ} (stopped : .stopped k ∈ events) : e.running = false := by
  revert stopped
  refine run.invariant (fun events e => .stopped k ∈ events → e.running = false) nofun ?_
  rintro earlier e action t event before - now stopped
  rcases List.mem_append.mp stopped with old | new
  · exact step_running now (before old)
  · obtain rfl := List.mem_singleton.mp new
    exact running_of_stopped now

/-- A worker that has not stopped can go on, whatever the radio answers it. -/
theorem worker_moves (e : LoRaEngine κ α) (heard : Bool) (raw : α) (going : e.worker ≠ .stopped) :
    ∃ action ∈ [.work, .hear heard, .deliver raw], (step e action).isSome := by
  cases place : e.worker with
  | stopped => exact absurd place going
  | receive => exact ⟨.hear heard, by simp, by simp [step, place]⟩
  | read => exact ⟨.deliver raw, by simp, by simp [step, place]⟩
  | get => exact ⟨.work, by simp, by cases contents : e.queue <;> simp [step, work, place, contents]⟩
  | _ => exact ⟨.work, by simp, by simp [step, work, place]⟩

/-- Once a `shutdown` has written `running`, the worker makes at most seven more steps,
    whatever the callers do, and until it has stopped it can always make one. -/
theorem shutdown_stops (run : Run events e) {k : κ} (stopped : .stopped k ∈ events)
    (later : Runs.Run step Runs.any e more t) (heard : Bool) (raw : α) :
    (more.filter ofWorker).length ≤ 7 ∧
      (t.worker ≠ .stopped → ∃ action ∈ [.work, .hear heard, .deliver raw], (step t action).isSome) := by
  refine ⟨?_, worker_moves t heard raw⟩
  have stopping := stopping_run run stopped
  have both : t.running = false ∧ (more.filter ofWorker).length + rank t.worker ≤ rank e.worker := by
    refine later.invariant (fun more t => t.running = false ∧ (more.filter ofWorker).length + rank t.worker ≤ rank e.worker)
      ⟨stopping, by simp⟩ ?_
    rintro earlier s action u event ⟨ending, bounded⟩ - now
    refine ⟨step_running now ending, ?_⟩
    have nearer := step_rank now ending
    rw [List.filter_append, List.length_append]
    cases own : ofWorker event <;> simp [own] at nearer ⊢ <;> omega
  have := rank_le e.worker
  omega

theorem shutdown_stops_idle : ∃ events more : List (Event Unit Nat), .stopped () ∈ events ∧ .joined () ∈ more ∧
    (more.filter ofWorker).length ≤ 7 := by
  obtain ⟨events, e, first, stopped, more, t, second, joined⟩ : ∃ events e, Runs.exec step (fun _ _ => true)
      (start Unit Nat) [.work, .enter () .shutdown, .call ()] = some (events, e) ∧ .stopped () ∈ events ∧
        ∃ more t, Runs.exec step (fun _ _ => true) e [.work, .work, .work, .call ()] = some (more, t) ∧
          Event.joined () ∈ more := ⟨_, _, rfl, by decide, _, _, rfl, by decide⟩
  exact ⟨events, more, stopped, joined, (shutdown_stops (Runs.Run.of_exec _ (fun _ _ _ => trivial) _ first) stopped
    (Runs.Run.of_exec _ (fun _ _ _ => trivial) _ second) true 0).1⟩

end Hde.Shutdown
