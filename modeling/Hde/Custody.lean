import Mathlib.Data.List.Basic
import Hde.Steps

/-!
`message_queue` as a first-in first-out queue: every run of the engine is a
sequence of operations on one (`replayed`), where the worker hands an item over
by sending it and a caller of `get_messages` by returning it. No two puts add the
same item (`puts_nodup`).
-/
namespace Hde.Custody
open Hde.Engine
open Hde.Engine.LoRaEngine
open Hde.Steps

variable {κ α : Type*}

def queueOps (events : List (Event κ α)) : List (Fifo.Op (Thread κ) (Item α)) := events.filterMap queueOp

def custody (e : LoRaEngine κ α) : Fifo.Store (Thread κ) (Item α) where
  queue := e.queue
  holds
    | .worker => held e.worker
    | .caller k => inHand (e.calls k)

theorem not_put_of_silent {event : Event κ α} (silent : queueOp event = none) (thread : Thread κ) (item : Item α) :
    event ≠ .put thread item := by
  rintro rfl
  cases silent

theorem held_eq_singleton {worker : Worker α} {item : Item α} (holds : item ∈ held worker) : held worker = [item] := by
  cases worker <;> simp_all [held]

section
variable [DecidableEq κ] {e t : LoRaEngine κ α} {event : Event κ α} {action : Action κ α}

theorem holds_goto (e : LoRaEngine κ α) (place : Worker α) :
    (custody (e.goto place)).holds = Function.update (custody e).holds .worker (held place) := by
  funext thread
  cases thread <;> simp [custody, goto]

theorem holds_goto_same {place : Worker α} (same : held place = held e.worker) :
    (custody (e.goto place)).holds = (custody e).holds := by
  rw [holds_goto, same]
  exact Function.update_eq_self _ _

theorem holds_callAt (e : LoRaEngine κ α) (k : κ) (place : Call α) :
    (custody (e.callAt k place)).holds = Function.update (custody e).holds (.caller k) (inHand place) := by
  funext thread
  cases thread with
  | worker => simp [custody, callAt]
  | caller other => by_cases same : other = k <;> simp [custody, callAt, same]

theorem holds_callAt_same {k : κ} {place : Call α} (same : inHand place = inHand (e.calls k)) :
    (custody (e.callAt k place)).holds = (custody e).holds := by
  rw [holds_callAt, same]
  exact Function.update_eq_self _ _

/-- A step is the operation that its event stands for, or leaves the queue and
    what is held alone. -/
def Refined (e : LoRaEngine κ α) (event : Event κ α) (t : LoRaEngine κ α) : Prop :=
  (queueOp event = none ∧ custody t = custody e) ∨
    ∃ op, queueOp event = some op ∧ Fifo.Apply (custody e) op (custody t)

theorem refined_put {item : Item α} (op : queueOp event = some (.put item)) (queue : t.queue = e.queue ++ [item])
    (holds : (custody t).holds = (custody e).holds) : Refined e event t := by
  refine .inr ⟨_, op, ?_⟩
  have after : custody t = ⟨(custody e).queue ++ [item], (custody e).holds⟩ := Fifo.Store.ext queue holds
  rw [after]
  exact .put item

theorem refined_get {thread : Thread κ} {item : Item α} (op : queueOp event = some (.get thread item))
    (first : e.queue = item :: t.queue)
    (holds : (custody t).holds = Function.update (custody e).holds thread ((custody e).holds thread ++ [item])) :
    Refined e event t := by
  refine .inr ⟨_, op, ?_⟩
  have after : custody t = ⟨t.queue, Function.update (custody e).holds thread ((custody e).holds thread ++ [item])⟩ :=
    Fifo.Store.ext rfl holds
  rw [after]
  exact .get thread first

theorem refined_handOver {thread : Thread κ} {items : List (Item α)}
    (op : queueOp event = some (.handOver thread items)) (all : (custody e).holds thread = items)
    (queue : t.queue = e.queue) (holds : (custody t).holds = Function.update (custody e).holds thread []) :
    Refined e event t := by
  refine .inr ⟨_, op, ?_⟩
  have after : custody t = ⟨(custody e).queue, Function.update (custody e).holds thread []⟩ := Fifo.Store.ext queue holds
  rw [after, ← all]
  exact .handOver thread

theorem worker_refined (now : WorkerStep e event t) : Refined e event t := by
  cases now with
  | quiet still =>
    refine .inl ⟨still.silent, Fifo.Store.ext still.queue (funext fun thread => ?_)⟩
    cases thread with
    | worker => exact still.holds
    | caller k => simp [custody, still.calls]
  | received place => exact refined_put rfl rfl (holds_goto_same (by simp [enqueue, place, held]))
  | @took item rest place first =>
    refine refined_get rfl first ((holds_goto { e with queue := rest } (.setModeTx item)).trans ?_)
    simp [custody, place, held]
  | sent place => exact refined_handOver rfl (by simp [custody, place, held]) rfl (holds_goto e .sent)

theorem caller_refined {k : κ} (now : CallStep e k event t) : Refined e event t := by
  cases now with
  | quiet still =>
    refine .inl ⟨still.silent, Fifo.Store.ext still.queue (funext fun thread => ?_)⟩
    cases thread with
    | worker => simp [custody, still.worker]
    | caller other =>
      by_cases same : other = k
      · subst same
        exact still.holds
      · simp [custody, still.elsewhere other same]
  | queued place => exact refined_put rfl rfl (holds_callAt_same (by simp [enqueue, place, inHand]))
  | @collected items rest item place first =>
    refine refined_get rfl first ((holds_callAt { e with queue := rest } k (.empty (items ++ [item]))).trans ?_)
    simp [custody, place, inHand]
  | returned place => exact refined_handOver rfl (by simp [custody, place, inHand]) rfl (holds_callAt e k .out)

theorem step_refined (now : step e action = some (t, event)) : Refined e event t := by
  cases moved : mover action with
  | worker => exact worker_refined (step_worker moved now)
  | caller k => exact caller_refined (step_caller moved now)

/-! ### Who puts items -/

/-- A step that puts nothing: a thread comes to a put only by a call of
    `queue_message` or by a packet read. -/
structure Putless (e : LoRaEngine κ α) (event : Event κ α) (t : LoRaEngine κ α) : Prop where
  silent : ∀ thread item, event ≠ .put thread item
  puts : t.puts = e.puts
  argument : ∀ k msg, t.calls k = .put msg → e.calls k = .put msg ∨ event = .entered k (.queueMessage msg)
  packet : ∀ raw, t.worker = .put raw → e.worker = .put raw ∨ event = .radio (.read raw)

/-- Only `queue_message` and `_do_receive` put items. -/
inductive PutStep (e : LoRaEngine κ α) : Event κ α → LoRaEngine κ α → Prop
  | queued {k : κ} {msg : α} (place : e.calls k = .put msg) :
      PutStep e (.put (.caller k) (e.next .queued msg)) ((e.enqueue .queued msg).callAt k (.setTransmit msg))
  | received {raw : α} (place : e.worker = .put raw) :
      PutStep e (.put .worker (e.next .received raw)) ((e.enqueue .received raw).goto .sleep)
  | putless {event : Event κ α} {t : LoRaEngine κ α} (without : Putless e event t) : PutStep e event t

theorem worker_puts (now : WorkerStep e event t) : PutStep e event t := by
  cases now with
  | quiet still =>
    exact .putless ⟨not_put_of_silent still.silent, still.puts, fun _ _ here => .inl (still.calls ▸ here),
      fun raw here => .inr (still.packet raw here)⟩
  | received place => exact .received place
  | took place first => exact .putless ⟨by simp, rfl, fun _ _ here => .inl here, by simp⟩
  | sent place => exact .putless ⟨by simp, rfl, fun _ _ here => .inl here, by simp [goto]⟩

theorem putless_caller {k : κ} {place : Call α} (silent : ∀ thread item, event ≠ .put thread item)
    (puts : t.puts = e.puts) (worker : t.worker = e.worker) (calls : t.calls = Function.update e.calls k place)
    (elsewhere : ∀ msg, place ≠ .put msg) : Putless e event t := by
  refine ⟨silent, puts, ?_, fun _ here => .inl (worker ▸ here)⟩
  intro other msg here
  by_cases same : other = k
  · subst same
    simp [calls, elsewhere] at here
  · exact .inl (by simpa [calls, same] using here)

theorem caller_puts {k : κ} (now : CallStep e k event t) : PutStep e event t := by
  cases now with
  | quiet still =>
    refine .putless ⟨not_put_of_silent still.silent, still.puts, ?_,
      fun _ here => .inl (still.worker ▸ here)⟩
    intro other msg here
    by_cases same : other = k
    · subst same
      exact .inr (still.argument msg here)
    · exact .inl (still.elsewhere other same ▸ here)
  | queued place => exact .queued place
  | collected place first => exact .putless (putless_caller (by simp) rfl rfl rfl (by simp))
  | returned place => exact .putless (putless_caller (by simp) rfl rfl rfl (by simp))

theorem step_puts (now : step e action = some (t, event)) : PutStep e event t := by
  cases moved : mover action with
  | worker => exact worker_puts (step_worker moved now)
  | caller k => exact caller_puts (step_caller moved now)

end

/-! ### What a run put, removed and handed over -/

def putItems (events : List (Event κ α)) : List (Item α) :=
  events.filterMap fun
    | .put _ item => some item
    | _ => none

def removedItems (events : List (Event κ α)) : List (Item α) :=
  events.filterMap fun
    | .got _ item => some item
    | _ => none

def sentItems (events : List (Event κ α)) : List (Item α) :=
  events.filterMap fun
    | .radio (.send item) => some item
    | _ => none

def Collected (events : List (Event κ α)) (item : Item α) : Prop := ∃ k, .got (.caller k) item ∈ events

def Returned (events : List (Event κ α)) (item : Item α) : Prop :=
  ∃ k items, .returned k (.messages items) ∈ events ∧ item ∈ items

theorem puts_queueOps (events : List (Event κ α)) : Fifo.puts (queueOps events) = putItems events := by
  rw [Fifo.puts, queueOps, putItems, List.filterMap_filterMap]
  apply List.filterMap_congr
  intro event _
  cases event with
  | radio call => cases call <;> rfl
  | returned k result => cases result <;> rfl
  | _ => rfl

theorem removed_queueOps (events : List (Event κ α)) : Fifo.removed (queueOps events) = removedItems events := by
  rw [Fifo.removed, Fifo.gets, queueOps, removedItems, List.filterMap_filterMap, List.map_filterMap]
  apply List.filterMap_congr
  intro event _
  cases event with
  | radio call => cases call <;> rfl
  | returned k result => cases result <;> rfl
  | _ => rfl

theorem mem_queueOps_get {events : List (Event κ α)} {thread : Thread κ} {item : Item α}
    (took : (thread, item) ∈ Fifo.gets (queueOps events)) : .got thread item ∈ events := by
  simp only [Fifo.gets, queueOps, List.filterMap_filterMap, List.mem_filterMap] at took
  obtain ⟨event, member, took⟩ := took
  cases event with
  | got other x =>
    obtain ⟨rfl, rfl⟩ : other = thread ∧ x = item := by simpa [queueOp] using took
    exact member
  | radio call => cases call <;> simp [queueOp] at took
  | returned k result => cases result <;> simp [queueOp] at took
  | _ => simp [queueOp] at took

variable [DecidableEq κ]

theorem handedOver_worker (events : List (Event κ α)) :
    Fifo.handedOver .worker (queueOps events) = sentItems events := by
  induction events with
  | nil => rfl
  | cons event rest ih =>
    have split : queueOps (event :: rest) = queueOps [event] ++ queueOps rest := List.filterMap_append (l := [event])
    have sent : sentItems (event :: rest) = sentItems [event] ++ sentItems rest := List.filterMap_append (l := [event])
    rw [split, Fifo.handedOver_append, ih, sent]
    congr 1
    cases event with
    | radio call => cases call <;> rfl
    | returned k result => cases result <;> rfl
    | _ => rfl

theorem handedOver_of_returned {events : List (Event κ α)} {item : Item α} (returned : Returned events item) :
    ∃ k, item ∈ Fifo.handedOver (.caller k) (queueOps events) := by
  obtain ⟨k, items, member, inside⟩ := returned
  refine ⟨k, List.mem_flatMap.mpr ⟨.handOver (.caller k) items, ?_, by simpa using inside⟩⟩
  exact List.mem_filterMap.mpr ⟨_, member, rfl⟩

theorem replayed {events : List (Event κ α)} {e : LoRaEngine κ α} (run : Run events e) :
    Fifo.Replay (queueOps events) (custody e) := by
  have started : custody (start κ α) = Fifo.Store.empty :=
    Fifo.Store.ext rfl (funext fun thread => by cases thread <;> rfl)
  have replay := Runs.Run.refines custody queueOp (fun _ _ _ _ _ now => step_refined now) run
  rwa [started] at replay

theorem puts_numbered {events : List (Event κ α)} {e : LoRaEngine κ α} (run : Run events e) :
    (putItems events).map Item.seq = List.range e.puts := by
  refine run.invariant (fun events e => (putItems events).map Item.seq = List.range e.puts) rfl ?_
  intro events s action t event numbered _ now
  rw [putItems, List.filterMap_append, List.map_append, ← putItems, numbered]
  cases step_puts now with
  | queued place => simp [next, enqueue, callAt, List.range_succ]
  | received place => simp [next, enqueue, goto, List.range_succ]
  | putless without =>
    rw [without.puts]
    cases event with
    | put thread item => exact absurd rfl (without.silent thread item)
    | _ => simp

theorem puts_nodup {events : List (Event κ α)} {e : LoRaEngine κ α} (run : Run events e) :
    (Fifo.puts (queueOps events)).Nodup := by
  rw [puts_queueOps]
  apply List.Nodup.of_map Item.seq
  rw [puts_numbered run]
  exact List.nodup_range

/-- Nothing is lost, duplicated or reordered. -/
structure Conserved (events : List (Event κ α)) (e : LoRaEngine κ α) : Prop where
  /-- What was removed, then what is queued, is what was put. -/
  balance : removedItems events ++ e.queue = putItems events
  distinct : (putItems events).Nodup
  sentOnce : (sentItems events).Nodup
  sentInOrder : (sentItems events).Sublist (putItems events)
  sentOrReturned : ∀ item ∈ sentItems events, ¬ Returned events item
  /-- What is neither sent nor collected is the one item that the worker holds. -/
  inFlight : ∀ item ∈ removedItems events, item ∉ sentItems events → ¬ Collected events item → held e.worker = [item]

theorem conserved {events : List (Event κ α)} {e : LoRaEngine κ α} (run : Run events e) : Conserved events e := by
  have replay := replayed run
  have distinct := puts_nodup run
  constructor
  case balance =>
    rw [← removed_queueOps, ← puts_queueOps]
    exact Fifo.accounts replay
  case distinct => rwa [← puts_queueOps]
  case sentOnce =>
    rw [← handedOver_worker]
    exact Fifo.handedOver_nodup distinct replay .worker
  case sentInOrder =>
    rw [← handedOver_worker, ← puts_queueOps]
    exact Fifo.handedOver_sublist replay .worker
  case sentOrReturned =>
    intro item sent returned
    obtain ⟨k, given⟩ := handedOver_of_returned returned
    rw [← handedOver_worker] at sent
    have taken := (Fifo.handedOver_sublist_takenBy replay (.caller k)).subset given
    exact Fifo.handedOver_disjoint distinct replay (by simp) sent taken
  case inFlight =>
    intro item removed unsent uncollected
    rw [← removed_queueOps] at removed
    obtain ⟨⟨thread, item⟩, took, rfl⟩ := List.mem_map.mp removed
    cases thread with
    | caller k => exact absurd ⟨k, mem_queueOps_get took⟩ uncollected
    | worker =>
      have taken := Fifo.mem_takenBy.mpr took
      rw [Fifo.takenBy_eq replay, handedOver_worker, List.mem_append] at taken
      exact held_eq_singleton (taken.resolve_left unsent)

theorem conserved_two : ∃ (events : List (Event Bool Nat)) (e : LoRaEngine Bool Nat),
    sentItems events = [⟨0, .queued, 5⟩] ∧ Returned events ⟨1, .queued, 6⟩ ∧ Conserved events e := by
  refine ⟨_, _, ?sent, ?returned, conserved (Runs.Run.of_exec (fun _ _ => true) (fun _ _ _ => trivial)
    [.enter true (.queueMessage 5), .call true, .call true, .work, .work, .work, .work, .work,
      .call true, .call true, .call true, .call true, .enter false (.queueMessage 6), .call false,
      .enter true .getMessages, .call true, .call true, .call true, .call true]
    rfl)⟩
  case sent => rfl
  case returned => exact ⟨true, [⟨1, .queued, 6⟩], by decide, by decide⟩

end Hde.Custody
