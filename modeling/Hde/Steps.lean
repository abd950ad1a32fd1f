import Hde.Engine
import Hde.Fifo

/-!
What a step of the engine can do (`step_cases`). A step of the worker puts a
packet, takes an item, sends the one it holds, or leaves every item where it is;
a step of a caller puts its message, takes an item, returns those it holds, or
leaves every item where it is.
-/
namespace Hde.Steps
open Hde.Engine
open Hde.Engine.LoRaEngine

variable {κ α : Type*}

/-- What the worker holds between its get and its send. -/
def held : Worker α → List (Item α)
  | .setModeTx message => [message]
  | .send message => [message]
  | _ => []

/-- What a call of `get_messages` has taken and not yet returned. -/
def inHand : Call α → List (Item α)
  | .empty items => items
  | .get items => items
  | .reply (.messages items) => items
  | _ => []

/-- The operation on the queue that an event is. -/
def queueOp : Event κ α → Option (Fifo.Op (Thread κ) (Item α))
  | .put _ item => some (.put item)
  | .got thread item => some (.get thread item)
  | .radio (.send message) => some (.handOver .worker [message])
  | .returned k (.messages items) => some (.handOver (.caller k) items)
  | _ => none

theorem held_handler (mode : Mode) : held (handler mode : Worker α) = [] := by
  cases mode <;> rfl

theorem handler_ne_put (mode : Mode) (raw : α) : (handler mode : Worker α) ≠ .put raw := by
  cases mode <;> simp [handler]

theorem handler_ne_stopped (mode : Mode) : (handler mode : Worker α) ≠ .stopped := by
  cases mode <;> simp [handler]

theorem inHand_first (request : Request α) : inHand request.first = [] := by
  cases request <;> rfl

theorem first_ne_out (request : Request α) : request.first ≠ .out := by
  cases request <;> simp [Request.first]

/-! ### The worker -/

/-- The worker goes on and no item moves. It never sets "transmit", stops only
    when it may, and comes to a put by reading a packet. -/
structure QuietWork (e : LoRaEngine κ α) (event : Event κ α) (t : LoRaEngine κ α) : Prop where
  silent : queueOp event = none
  queue : t.queue = e.queue
  puts : t.puts = e.puts
  running : t.running = e.running
  calls : t.calls = e.calls
  holds : held t.worker = held e.worker
  mode : t.state = .transmit → e.state = .transmit
  going : e.running = true → t.worker ≠ .stopped
  packet : ∀ raw, t.worker = .put raw → event = .radio (.read raw)
  waited : e.worker = .get → e.queue = []

inductive WorkerStep (e : LoRaEngine κ α) : Event κ α → LoRaEngine κ α → Prop
  | quiet {event : Event κ α} {t : LoRaEngine κ α} (still : QuietWork e event t) : WorkerStep e event t
  | received {raw : α} (place : e.worker = .put raw) :
      WorkerStep e (.put .worker (e.next .received raw)) ((e.enqueue .received raw).goto .sleep)
  | took {item : Item α} {rest : List (Item α)} (place : e.worker = .get) (first : e.queue = item :: rest) :
      WorkerStep e (.got .worker item) { e with queue := rest, worker := .setModeTx item }
  | sent {message : Item α} (place : e.worker = .send message) :
      WorkerStep e (.radio (.send message)) (e.goto .sent)

variable {e t : LoRaEngine κ α} {event : Event κ α}

theorem WorkerStep.calls (now : WorkerStep e event t) : t.calls = e.calls := by
  cases now with
  | quiet still => exact still.calls
  | _ => rfl

theorem WorkerStep.running (now : WorkerStep e event t) : t.running = e.running := by
  cases now with
  | quiet still => exact still.running
  | _ => rfl

theorem WorkerStep.mode (now : WorkerStep e event t) (transmit : t.state = .transmit) : e.state = .transmit := by
  cases now with
  | quiet still => exact still.mode transmit
  | _ => exact transmit

theorem WorkerStep.going (now : WorkerStep e event t) (running : e.running = true) : t.worker ≠ .stopped := by
  cases now with
  | quiet still => exact still.going running
  | _ => simp [goto]

theorem work_cases (now : e.work = some (t, event)) : WorkerStep e event t := by
  cases place : e.worker with
  | receive | read | stopped => simp [work, place] at now
  | put raw =>
    simp only [work, place, Option.some.injEq, Prod.mk.injEq] at now
    obtain ⟨rfl, rfl⟩ := now
    exact .received place
  | send message =>
    simp only [work, place, Option.some.injEq, Prod.mk.injEq] at now
    obtain ⟨rfl, rfl⟩ := now
    exact .sent place
  | get =>
    cases contents : e.queue with
    | nil =>
      simp only [work, place, contents, Option.some.injEq, Prod.mk.injEq] at now
      obtain ⟨rfl, rfl⟩ := now
      exact .quiet (by constructor <;> simp [queueOp, goto, held, place, contents])
    | cons item rest =>
      simp only [work, place, contents, Option.some.injEq, Prod.mk.injEq] at now
      obtain ⟨rfl, rfl⟩ := now
      exact .took place contents
  | readState =>
    simp only [work, place, Option.some.injEq, Prod.mk.injEq] at now
    obtain ⟨rfl, rfl⟩ := now
    refine .quiet ⟨rfl, rfl, rfl, rfl, rfl, ?_, id, fun _ => handler_ne_stopped _,
      fun raw here => absurd here (handler_ne_put _ raw), fun here => by simp [place] at here⟩
    rw [place]
    exact held_handler e.state
  | loop =>
    simp only [work, place, Option.some.injEq, Prod.mk.injEq] at now
    obtain ⟨rfl, rfl⟩ := now
    cases running : e.running <;> exact .quiet (by constructor <;> simp [queueOp, goto, held, place, running])
  | _ =>
    simp only [work, place, Option.some.injEq, Prod.mk.injEq] at now
    obtain ⟨rfl, rfl⟩ := now
    exact .quiet (by constructor <;> simp [queueOp, goto, held, place])

/-! ### The callers -/

variable [DecidableEq κ]

/-- A caller goes on and no item moves. It comes to the put of `queue_message` by
    calling it, and comes out by returning. -/
structure QuietCall (e : LoRaEngine κ α) (k : κ) (event : Event κ α) (t : LoRaEngine κ α) : Prop where
  silent : queueOp event = none
  queue : t.queue = e.queue
  puts : t.puts = e.puts
  worker : t.worker = e.worker
  elsewhere : ∀ other, other ≠ k → t.calls other = e.calls other
  holds : inHand (t.calls k) = inHand (e.calls k)
  argument : ∀ msg, t.calls k = .put msg → event = .entered k (.queueMessage msg)
  outside : t.calls k = .out → ∃ result, e.calls k = .reply result ∧ t = e.callAt k .out

inductive CallStep (e : LoRaEngine κ α) (k : κ) : Event κ α → LoRaEngine κ α → Prop
  | quiet {event : Event κ α} {t : LoRaEngine κ α} (still : QuietCall e k event t) : CallStep e k event t
  | queued {msg : α} (place : e.calls k = .put msg) :
      CallStep e k (.put (.caller k) (e.next .queued msg)) ((e.enqueue .queued msg).callAt k (.setTransmit msg))
  | collected {items rest : List (Item α)} {item : Item α} (place : e.calls k = .get items)
      (first : e.queue = item :: rest) :
      CallStep e k (.got (.caller k) item) ({ e with queue := rest }.callAt k (.empty (items ++ [item])))
  | returned {items : List (Item α)} (place : e.calls k = .reply (.messages items)) :
      CallStep e k (.returned k (.messages items)) (e.callAt k .out)

/-- A caller that has come out has returned. -/
theorem CallStep.outside {k : κ} (now : CallStep e k event t) (out : t.calls k = .out) :
    ∃ result, e.calls k = .reply result ∧ t = e.callAt k .out := by
  cases now with
  | quiet still => exact still.outside out
  | queued place => simp [callAt] at out
  | collected place first => simp [callAt] at out
  | returned place => exact ⟨_, place, rfl⟩

/-- A caller that goes on from `before` to `place`, both inside a method. -/
theorem quiet_inside {k : κ} {before place : Call α} (here : e.calls k = before) (silent : queueOp event = none)
    (queue : t.queue = e.queue) (puts : t.puts = e.puts) (worker : t.worker = e.worker)
    (calls : t.calls = Function.update e.calls k place) (holds : inHand place = inHand before)
    (inside : place ≠ .out ∧ ∀ msg, place ≠ .put msg) : CallStep e k event t := by
  have now : t.calls k = place := by simp [calls]
  refine .quiet ⟨silent, queue, puts, worker, ?_, ?_, ?_, ?_⟩
  · intro other different
    simp [calls, different]
  · rw [now, here, holds]
  · intro msg put
    exact absurd (now.symm.trans put) (inside.2 msg)
  · intro out
    exact absurd (now.symm.trans out) inside.1

theorem call_cases {k : κ} (now : e.call k = some (t, event)) : CallStep e k event t := by
  cases place : e.calls k with
  | out => simp [call, place] at now
  | put msg =>
    simp only [call, place, Option.some.injEq, Prod.mk.injEq] at now
    obtain ⟨rfl, rfl⟩ := now
    exact .queued place
  | check msg | empty items =>
    simp only [call, place, Option.some.injEq, Prod.mk.injEq] at now
    obtain ⟨rfl, rfl⟩ := now
    refine quiet_inside place rfl rfl rfl rfl rfl ?_ ?_ <;> split <;> simp [inHand]
  | get items =>
    cases contents : e.queue with
    | nil => simp [call, place, contents] at now
    | cons item rest =>
      simp only [call, place, contents, Option.some.injEq, Prod.mk.injEq] at now
      obtain ⟨rfl, rfl⟩ := now
      exact .collected place contents
  | join =>
    simp only [call, place] at now
    split at now
    · simp only [Option.some.injEq, Prod.mk.injEq] at now
      obtain ⟨rfl, rfl⟩ := now
      exact quiet_inside place rfl rfl rfl rfl rfl (by simp [inHand]) (by simp)
    · cases now
  | reply result =>
    simp only [call, place, Option.some.injEq, Prod.mk.injEq] at now
    obtain ⟨rfl, rfl⟩ := now
    cases result with
    | messages items => exact .returned place
    | none | queued msg | state mode =>
      exact .quiet ⟨rfl, rfl, rfl, rfl, fun other different => by simp [callAt, different],
        by simp [callAt, inHand, place], fun msg here => by simp [callAt] at here, fun _ => ⟨_, place, rfl⟩⟩
  | setTransmit msg | readBack msg | setReceive msg | setState newState | getState | stop =>
    simp only [call, place, Option.some.injEq, Prod.mk.injEq] at now
    obtain ⟨rfl, rfl⟩ := now
    exact quiet_inside place rfl rfl rfl rfl rfl (by simp [inHand]) (by simp)

/-! ### Any step -/

/-- The thread that an action moves. -/
def mover : Action κ α → Thread κ
  | .work => .worker
  | .hear _ => .worker
  | .deliver _ => .worker
  | .enter k _ => .caller k
  | .call k => .caller k

variable {action : Action κ α}

/-- The radio answers only a worker that asks it. -/
theorem step_hear {heard : Bool} (now : step e (.hear heard) = some (t, event)) :
    e.worker = .receive ∧ t = e.goto (if heard then .read else .sleep) ∧ event = .radio (.receive heard) := by
  simp only [step] at now
  split at now
  · next place =>
    simp only [Option.some.injEq, Prod.mk.injEq] at now
    obtain ⟨rfl, rfl⟩ := now
    exact ⟨place, rfl, rfl⟩
  · cases now

theorem step_deliver {raw : α} (now : step e (.deliver raw) = some (t, event)) :
    e.worker = .read ∧ t = e.goto (.put raw) ∧ event = .radio (.read raw) := by
  simp only [step] at now
  split at now
  · next place =>
    simp only [Option.some.injEq, Prod.mk.injEq] at now
    obtain ⟨rfl, rfl⟩ := now
    exact ⟨place, rfl, rfl⟩
  · cases now

/-- A thread enters a method when it is in none. -/
theorem step_enter {k : κ} {request : Request α} (now : step e (.enter k request) = some (t, event)) :
    e.calls k = .out ∧ t = e.callAt k request.first ∧ event = .entered k request := by
  simp only [step] at now
  split at now
  · next place =>
    simp only [Option.some.injEq, Prod.mk.injEq] at now
    obtain ⟨rfl, rfl⟩ := now
    exact ⟨place, rfl, rfl⟩
  · cases now

/-- A thread that is in a method goes on in it. -/
theorem call_of_inside {k : κ} (moved : mover action = .caller k) (now : step e action = some (t, event))
    (inside : e.calls k ≠ .out) : action = .call k := by
  cases action with
  | work | hear heard | deliver raw => cases moved
  | call other =>
    obtain rfl : other = k := by simpa [mover] using moved
    rfl
  | enter other request =>
    obtain rfl : other = k := by simpa [mover] using moved
    exact absurd (step_enter now).1 inside

theorem step_worker (moved : mover action = .worker) (now : step e action = some (t, event)) :
    WorkerStep e event t := by
  cases action with
  | enter k request | call k => cases moved
  | work => exact work_cases now
  | hear heard =>
    obtain ⟨place, rfl, rfl⟩ := step_hear now
    cases heard <;> exact .quiet (by constructor <;> simp [queueOp, goto, held, place])
  | deliver raw =>
    obtain ⟨place, rfl, rfl⟩ := step_deliver now
    exact .quiet (by constructor <;> simp [queueOp, goto, held, place])

theorem step_caller {k : κ} (moved : mover action = .caller k) (now : step e action = some (t, event)) :
    CallStep e k event t := by
  cases action with
  | work | hear heard | deliver raw => cases moved
  | call other =>
    obtain rfl : other = k := by simpa [mover] using moved
    exact call_cases now
  | enter other request =>
    obtain rfl : other = k := by simpa [mover] using moved
    obtain ⟨place, rfl, rfl⟩ := step_enter now
    have inside : (e.callAt other request.first).calls other = request.first := by simp [callAt]
    refine .quiet ⟨rfl, rfl, rfl, rfl, fun third different => by simp [callAt, different], ?_, ?_, ?_⟩
    · rw [inside, inHand_first, place]
      rfl
    · intro msg put
      cases request <;> simp [callAt, Request.first] at put
      rw [put]
    · intro out
      exact absurd (inside.symm.trans out) (first_ne_out request)

/-- A thread enters a method as it is told to, and the packet that is read is the one
    that was delivered. -/
theorem step_source (now : step e action = some (t, event)) :
    (∀ k request, event = .entered k request → action = .enter k request) ∧
      ∀ raw, event = .radio (.read raw) → action = .deliver raw := by
  cases action with
  | work =>
    cases place : e.worker with
    | get => cases contents : e.queue <;> simp [step, work, place, contents] at now <;> simp [← now.2]
    | receive | read | stopped => simp [step, work, place] at now
    | _ =>
      simp only [step, work, place, Option.some.injEq, Prod.mk.injEq] at now
      simp [← now.2]
  | hear heard => simp [(step_hear now).2.2]
  | deliver other => simp [(step_deliver now).2.2]
  | enter k request => simp [(step_enter now).2.2]
  | call k =>
    cases place : e.calls k with
    | out => simp [step, call, place] at now
    | get => cases contents : e.queue <;> simp [step, call, place, contents] at now; simp [← now.2]
    | join =>
      simp only [step, call, place] at now
      split at now <;> simp at now
      simp [← now.2]
    | _ =>
      simp only [step, call, place, Option.some.injEq, Prod.mk.injEq] at now
      simp [← now.2]

end Hde.Steps
