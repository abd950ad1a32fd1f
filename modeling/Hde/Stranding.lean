import Mathlib.Data.Fintype.Basic
import Hde.Custody

/-!
Messages left in `message_queue`. `queue_message` sets the state to "transmit"
and, before it returns, back to "receive", so a message is sent only if the
worker reads the state in between. When the last call returns and the worker has
not come that far, the message can stay for good; when the worker is about to
take it, or has, at every such return, none ever does (`noStranded_exactly`).
-/
namespace Hde.Stranding
open Hde.Engine
open Hde.Engine.LoRaEngine
open Hde.Steps Hde.Custody

variable {κ α : Type*}

/-- No item was put by `queue_message`. -/
def Unqueued (queue : List (Item α)) : Prop := ∀ item ∈ queue, item.origin ≠ .queued

def Quiet (e : LoRaEngine κ α) : Prop := ∀ k, e.calls k = .out

/-- Between calls, a worker at the top of `_loop` that leaves a queued message
    will find the state "transmit". -/
def NoStranded (e : LoRaEngine κ α) : Prop :=
  Quiet e → e.worker = .loop → (∃ item ∈ e.queue, item.origin = .queued) → e.state = .transmit

/-- No queued message is left, or the worker has read "transmit" and is about to
    take the only one. -/
def Committed (e : LoRaEngine κ α) : Prop := Unqueued e.queue ∨ (e.worker = .get ∧ Unqueued e.queue.tail)

/-- The only method called is `queue_message`. -/
def onlyQueue : Action κ α → Bool
  | .enter _ (.queueMessage _) => true
  | .enter _ _ => false
  | _ => true

def Queues (_ : LoRaEngine κ α) (action : Action κ α) : Prop := onlyQueue action = true

def returning : Call α → Bool
  | .reply _ => true
  | _ => false

/-- The step by which the last call in progress returns. -/
def LastReturn (e : LoRaEngine κ α) : Action κ α → Prop
  | .call k => returning (e.calls k) = true ∧ ∀ j, j ≠ k → e.calls j = .out
  | _ => False

/-- The last call in progress returns only once its messages are as good as taken. -/
def Safe (e : LoRaEngine κ α) (action : Action κ α) : Prop := LastReturn e action → Committed e

section
variable [DecidableEq α]

instance (queue : List (Item α)) : Decidable (Unqueued queue) :=
  inferInstanceAs (Decidable (∀ item ∈ queue, item.origin ≠ .queued))

instance (e : LoRaEngine κ α) : Decidable (Committed e) :=
  inferInstanceAs (Decidable (Unqueued e.queue ∨ (e.worker = .get ∧ Unqueued e.queue.tail)))

instance [DecidableEq κ] [Fintype κ] (e : LoRaEngine κ α) : (action : Action κ α) → Decidable (LastReturn e action)
  | .call k => inferInstanceAs (Decidable (returning (e.calls k) = true ∧ ∀ j, j ≠ k → e.calls j = .out))
  | .work | .hear _ | .deliver _ | .enter _ _ => isFalse id

instance [DecidableEq κ] [Fintype κ] (e : LoRaEngine κ α) (action : Action κ α) : Decidable (Safe e action) :=
  inferInstanceAs (Decidable (LastReturn e action → Committed e))

end

/-- The worker moves, the callers do not. -/
def ByWorker (_ : LoRaEngine κ α) (action : Action κ α) : Prop := mover action = .worker

/-- The items that the worker will not have taken when it next comes to the top
    of `_loop`. -/
def leftBehind (e : LoRaEngine κ α) : List (Item α) :=
  match e.worker with
  | .get => e.queue.tail
  | _ => e.queue

theorem leftBehind_eq {e : LoRaEngine κ α} (place : e.worker ≠ .get) : leftBehind e = e.queue := by
  unfold leftBehind
  split
  · next here => exact absurd here place
  · rfl

theorem LastReturn.elim {e : LoRaEngine κ α} {action : Action κ α} (last : LastReturn e action) :
    ∃ k result, action = .call k ∧ e.calls k = .reply result ∧ ∀ j, j ≠ k → e.calls j = .out := by
  cases action with
  | call k =>
    obtain ⟨returns, others⟩ := last
    cases place : e.calls k with
    | reply result => exact ⟨k, result, rfl, place, others⟩
    | _ => simp [place, returning] at returns
  | _ => cases last

theorem noStranded_of_committed {e : LoRaEngine κ α} (kept : Quiet e → Committed e) : NoStranded e := by
  intro quiet top ⟨item, member, queued⟩
  rcases kept quiet with clear | ⟨place, -⟩
  · exact absurd queued (clear item member)
  · simp [top] at place

theorem unqueued_worker {e t : LoRaEngine κ α} {event : Event κ α} (clear : Unqueued e.queue)
    (now : WorkerStep e event t) : Unqueued t.queue := by
  cases now with
  | quiet still => rwa [still.queue]
  | @received raw place =>
    intro item member
    rcases List.mem_append.mp member with old | new
    · exact clear item old
    · obtain rfl : item = e.next .received raw := by simpa using new
      simp [next]
  | took place first =>
    intro item member
    exact clear item (first ▸ List.mem_cons_of_mem _ member)
  | sent place => exact clear

/-- The worker keeps what it is committed to. -/
theorem committed_worker {e t : LoRaEngine κ α} {event : Event κ α} (committed : Committed e)
    (now : WorkerStep e event t) : Committed t := by
  rcases committed with clear | ⟨place, rest⟩
  · exact .inl (unqueued_worker clear now)
  · left
    cases now with
    | quiet still => simp [still.queue, still.waited place, Unqueued]
    | received here | sent here => simp [place] at here
    | took here first => simpa [first] using rest

variable [DecidableEq κ]

section
variable {e t : LoRaEngine κ α} {event : Event κ α} {action : Action κ α}

/-- Between calls the engine is committed, if it was whenever a last call
    returned. -/
theorem committed_step (safe : Safe e action) (kept : Quiet e → Committed e) (now : step e action = some (t, event))
    (quiet : Quiet t) : Committed t := by
  cases moved : mover action with
  | worker =>
    have worked := step_worker moved now
    have before : Quiet e := fun k => by rw [← worked.calls]; exact quiet k
    exact committed_worker (kept before) worked
  | caller k =>
    obtain ⟨result, place, rfl⟩ := (step_caller moved now).outside (quiet k)
    obtain rfl := call_of_inside moved now (by simp [place])
    refine safe ⟨by simp [place, returning], ?_⟩
    intro j different
    simpa [callAt, different] using quiet j

end

/-! ### Where the last return comes too early -/

def InQueueMessage : Call α → Prop
  | .out | .put _ | .setTransmit _ | .readBack _ | .check _ | .setReceive _ | .reply (.queued _) => True
  | _ => False

/-- In `queue_message`, the state set to "transmit" and not yet back. -/
def Pending : Call α → Prop
  | .readBack _ | .check _ | .setReceive _ => True
  | _ => False

/-- What holds while `queue_message` is the only method called: "transmit" is
    never the state unless some call still has to look at it. -/
structure Queueing (e : LoRaEngine κ α) : Prop where
  running : e.running = true
  worker : e.worker ≠ .stopped
  calls : ∀ k, InQueueMessage (e.calls k)
  mode : e.state = .transmit → ∃ k, Pending (e.calls k)

section
variable {e t : LoRaEngine κ α} {event : Event κ α} {action : Action κ α}

/-- A call of `queue_message` goes on, or returns, and sets "transmit" only where
    it still has to look at the state. -/
theorem call_frame {k : κ} (inside : InQueueMessage (e.calls k)) (now : e.call k = some (t, event)) :
    t.running = e.running ∧ t.worker = e.worker ∧ ∃ place, t.calls = Function.update e.calls k place ∧
      InQueueMessage place ∧ (t.state = .transmit → Pending place ∨ (e.state = .transmit ∧ ¬ Pending (e.calls k))) := by
  cases here : e.calls k with
  | out => simp [call, here] at now
  | setState newState | getState | empty items | get items | stop | join => simp [here, InQueueMessage] at inside
  | check msg =>
    simp only [call, here, Option.some.injEq, Prod.mk.injEq] at now
    obtain ⟨rfl, rfl⟩ := now
    refine ⟨rfl, rfl, _, rfl, ?_, fun transmit => .inl ?_⟩
    · split <;> trivial
    · have : e.state = .transmit := transmit
      simp [this, Pending]
  | reply result =>
    simp only [call, here, Option.some.injEq, Prod.mk.injEq] at now
    obtain ⟨rfl, rfl⟩ := now
    exact ⟨rfl, rfl, _, rfl, trivial, fun transmit => .inr ⟨transmit, by simp [Pending]⟩⟩
  | put msg =>
    simp only [call, here, Option.some.injEq, Prod.mk.injEq] at now
    obtain ⟨rfl, rfl⟩ := now
    exact ⟨rfl, rfl, _, rfl, trivial, fun transmit => .inr ⟨transmit, by simp [Pending]⟩⟩
  | setTransmit msg | readBack msg =>
    simp only [call, here, Option.some.injEq, Prod.mk.injEq] at now
    obtain ⟨rfl, rfl⟩ := now
    exact ⟨rfl, rfl, _, rfl, trivial, fun _ => .inl trivial⟩
  | setReceive msg =>
    simp only [call, here, Option.some.injEq, Prod.mk.injEq] at now
    obtain ⟨rfl, rfl⟩ := now
    exact ⟨rfl, rfl, _, rfl, trivial, fun transmit => by simp [callAt] at transmit⟩

theorem queueing_step (only : Queues e action) (queueing : Queueing e) (now : step e action = some (t, event)) :
    Queueing t := by
  cases action with
  | work | hear heard | deliver raw =>
    have worked := step_worker rfl now
    exact ⟨worked.running.trans queueing.running, worked.going queueing.running,
      fun k => worked.calls ▸ queueing.calls k, fun transmit => worked.calls ▸ queueing.mode (worked.mode transmit)⟩
  | enter k request =>
    obtain ⟨msg, rfl⟩ : ∃ msg, request = .queueMessage msg := by
      cases request <;> simp [Queues, onlyQueue] at only ⊢
    obtain ⟨place, rfl, rfl⟩ := step_enter now
    refine ⟨queueing.running, queueing.worker, ?_, ?_⟩
    · intro j
      by_cases same : j = k
      · subst same
        simp [callAt, Request.first, InQueueMessage]
      · simpa [callAt, same] using queueing.calls j
    · intro transmit
      obtain ⟨j, pending⟩ := queueing.mode transmit
      have other : j ≠ k := by
        rintro rfl
        simp [place, Pending] at pending
      exact ⟨j, by simpa [callAt, other] using pending⟩
  | call k =>
    obtain ⟨running, worker, place, calls, inside, mode⟩ := call_frame (queueing.calls k) now
    refine ⟨running ▸ queueing.running, worker ▸ queueing.worker, ?_, ?_⟩
    · intro j
      by_cases same : j = k
      · subst same
        simpa [calls] using inside
      · simpa [calls, same] using queueing.calls j
    · intro transmit
      rcases mode transmit with pending | ⟨before, unpending⟩
      · exact ⟨k, by simpa [calls] using pending⟩
      · obtain ⟨j, pending⟩ := queueing.mode before
        have other : j ≠ k := by
          rintro rfl
          exact unpending pending
        exact ⟨j, by simpa [calls, other] using pending⟩

theorem queueing_run {events : List (Event κ α)} (run : Runs.Run step Queues (start κ α) events e) : Queueing e :=
  run.invariant (fun _ e => Queueing e)
    ⟨rfl, by simp [start], fun _ => by simp [start, InQueueMessage], by simp [start]⟩
    fun _ _ _ _ _ queueing only now => queueing_step only queueing now

end

/-- Between calls, in another state than "transmit", a queued message will stay. -/
structure Lost (e : LoRaEngine κ α) : Prop where
  quiet : Quiet e
  running : e.running = true
  worker : e.worker ≠ .stopped
  mode : e.state ≠ .transmit
  left : ∃ item ∈ leftBehind e, item.origin = .queued

/-- How many operations the worker may need to come to the top of `_loop`. -/
def distance : Worker α → Nat
  | .readState => 6
  | .get | .setModeRx => 5
  | .receive | .setModeTx _ => 4
  | .read | .send _ => 3
  | .put _ | .sent | .reset | .unknown => 2
  | .empty | .autoSwitch | .afterReset | .sleep => 1
  | .loop | .stopped => 0

section
variable {e t : LoRaEngine κ α} {event : Event κ α} {action : Action κ α}

/-- A step of the worker that leaves as much behind and comes nearer to the top. -/
theorem Lost.nearer (lost : Lost e) (action : Action κ α) (byWorker : ByWorker e action)
    (now : step e action = some (t, event)) (left : leftBehind e ⊆ leftBehind t)
    (closer : distance t.worker < distance e.worker) :
    ∃ action t event, ByWorker e action ∧ step e action = some (t, event) ∧ Lost t ∧
      distance t.worker < distance e.worker := by
  have worked := step_worker byWorker now
  obtain ⟨item, member, queued⟩ := lost.left
  have quiet : Quiet t := fun k => worked.calls ▸ lost.quiet k
  exact ⟨action, t, event, byWorker, now, ⟨quiet, worked.running.trans lost.running, worked.going lost.running,
    fun transmit => lost.mode (worked.mode transmit), item, left member, queued⟩, closer⟩

theorem lost_step (lost : Lost e) (below : e.worker ≠ .loop) :
    ∃ action t event, ByWorker e action ∧ step e action = some (t, event) ∧ Lost t ∧
      distance t.worker < distance e.worker := by
  cases place : e.worker with
  | loop => exact absurd place below
  | stopped => exact absurd place lost.worker
  | receive =>
    rw [← place]
    exact lost.nearer (.hear false) rfl (by simp only [step, place]; rfl) (by simp [leftBehind, place, goto])
      (by simp [distance, place, goto])
  | read =>
    obtain ⟨packet, -, -⟩ := lost.left
    rw [← place]
    exact lost.nearer (.deliver packet.value) rfl (by simp only [step, place]; rfl)
      (by simp [leftBehind, place, goto]) (by simp [distance, place, goto])
  | readState =>
    have elsewhere : (handler e.state : Worker α) ≠ .get ∧ distance (handler e.state : Worker α) < 6 := by
      have mode := lost.mode
      cases state : e.state <;> simp_all [handler, distance]
    rw [← place]
    refine lost.nearer .work rfl (by simp only [step, work, place]; rfl) ?_
      (by simpa [distance, place, goto] using elsewhere.2)
    rw [leftBehind_eq (by simp [place]), leftBehind_eq elsewhere.1]
    intro _ member
    exact member
  | get =>
    cases contents : e.queue with
    | nil =>
      obtain ⟨item, member, -⟩ := lost.left
      simp [leftBehind, place, contents] at member
    | cons item rest =>
      rw [← place]
      exact lost.nearer .work rfl (by simp only [step, work, place, contents]; rfl)
        (by simp [leftBehind, place, contents]) (by simp [distance, place])
  | put raw =>
    rw [← place]
    refine lost.nearer .work rfl (by simp only [step, work, place]; rfl) ?_ (by simp [distance, place, goto])
    simp [leftBehind, place, goto, enqueue]
  | _ =>
    rw [← place]
    exact lost.nearer .work rfl (by simp only [step, work, place]; rfl) (by simp [leftBehind, place, goto])
      (by simp [distance, place, goto])

theorem lost_strands (lost : Lost e) : ∃ more u, Runs.Run step ByWorker e more u ∧ ¬ NoStranded u := by
  induction far : distance e.worker using Nat.strongRecOn generalizing e with
  | ind far ih =>
  subst far
  by_cases top : e.worker = .loop
  · refine ⟨[], e, .nil, fun claim => lost.mode (claim lost.quiet top ?_)⟩
    simpa [leftBehind_eq (by simp [top] : e.worker ≠ .get)] using lost.left
  · obtain ⟨action, t, event, byWorker, now, still, closer⟩ := lost_step lost top
    obtain ⟨more, u, run, stranded⟩ := ih _ closer still rfl
    exact ⟨event :: more, u, (Runs.Run.one byWorker now).trans run, stranded⟩

theorem lost_of_early (queueing : Queueing e) (now : step e action = some (t, event)) (early : ¬ Safe e action) :
    Lost t := by
  obtain ⟨last, uncommitted⟩ := Classical.not_imp.mp early
  obtain ⟨k, result, rfl, place, others⟩ := last.elim
  obtain ⟨rfl, -⟩ : e.callAt k .out = t ∧ _ := by simpa [step, call, place] using now
  obtain ⟨present, ahead⟩ := not_or.mp uncommitted
  have quiet : Quiet (e.callAt k .out) := by
    intro j
    by_cases same : j = k
    · subst same
      simp [callAt]
    · simpa [callAt, same] using others j same
  refine ⟨quiet, queueing.running, queueing.worker, ?_, ?_⟩
  · intro transmit
    obtain ⟨j, pending⟩ := queueing.mode transmit
    by_cases same : j = k
    · subst same
      simp [place, Pending] at pending
    · simp [others j same, Pending] at pending
  · by_cases taking : e.worker = .get
    · have behind : ¬ Unqueued e.queue.tail := fun clear => ahead ⟨taking, clear⟩
      simpa [Unqueued, leftBehind, callAt, taking] using behind
    · have elsewhere : (e.callAt k .out).worker ≠ .get := taking
      rw [leftBehind_eq elsewhere]
      simpa [Unqueued, callAt] using present

end

theorem message_stranded : ¬ ∀ (events : List (Event Unit Nat)) (e : LoRaEngine Unit Nat),
    Runs.Run step Queues (start Unit Nat) events e → NoStranded e := by
  intro claim
  have none := claim _ _ (Runs.Run.of_exec (fun _ => onlyQueue) (fun _ _ only => only)
    [.enter () (.queueMessage 5), .call (), .call (), .call (), .call (), .call (), .call ()] rfl)
  have transmit := none (fun _ => rfl) rfl ⟨⟨0, .queued, 5⟩, by decide, rfl⟩
  cases transmit

/-- No message is ever stranded in a run where every last return finds the
    engine committed, and each other last return can strand one by steps of the
    worker alone. -/
theorem noStranded_exactly :
    (∀ (events : List (Event κ α)) (e : LoRaEngine κ α),
      Runs.Run step (fun e action => Queues e action ∧ Safe e action) (start κ α) events e → NoStranded e) ∧
    ∀ (events : List (Event κ α)) (e t : LoRaEngine κ α) (action : Action κ α) (event : Event κ α),
      Runs.Run step Queues (start κ α) events e → step e action = some (t, event) → ¬ Safe e action →
      ∃ more u, Runs.Run step ByWorker t more u ∧ ¬ NoStranded u := by
  constructor
  · intro events e run
    refine noStranded_of_committed (run.invariant (fun _ e => Quiet e → Committed e) ?_ ?_)
    · intro _
      exact .inl (by simp [start, Unqueued])
    · intro _ _ _ _ _ kept allowed now
      exact committed_step allowed.2 kept now
  · intro events e t action event run now early
    exact lost_strands (lost_of_early (queueing_run run) now early)

/-- A message whose call returns with the worker about to take it is not
    stranded; one whose call returns before that is. -/
theorem noStranded_exactly_one :
    (∃ e : LoRaEngine Unit Nat, Quiet e ∧ e.worker = .loop ∧ e.puts = 1 ∧ NoStranded e) ∧
      ∃ u : LoRaEngine Unit Nat, ¬ NoStranded u := by
  constructor
  · refine ⟨_, ?quiet, ?top, ?put, noStranded_exactly.1 _ _ (Runs.Run.of_exec
      (fun e action => decide (onlyQueue action = true ∧ Safe e action)) (fun _ _ checked => of_decide_eq_true checked)
      [.enter () (.queueMessage 5), .call (), .call (), .work, .work, .call (), .call (), .call (), .call (),
        .work, .work, .work, .work, .work] rfl)⟩
    case quiet =>
      intro _
      exact rfl
    case top => rfl
    case put => rfl
  · obtain ⟨-, u, -, stranded⟩ := noStranded_exactly.2 _ _ _ (.call ()) _ (Runs.Run.of_exec
      (fun _ => onlyQueue) (fun _ _ only => only)
      [.enter () (.queueMessage 5), .call (), .call (), .call (), .call (), .call ()] rfl) rfl (by decide)
    exact ⟨u, stranded⟩

end Hde.Stranding
