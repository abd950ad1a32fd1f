import Hde.Provenance

/-!
Several units in reach of each other. A unit reads what another one has sent, as the
radio carries it; packets may be lost, heard more than once and heard in any order. Since
a unit puts what it hears on the queue from which it sends, messages go from unit to
unit. Whatever the units do, everything on the air is a message that `queue_message` was
given at some unit, carried from there (`air_relayed`), and a unit sends only once its
own `queue_message` was called, be it only what it has heard (`senders_asked`).
-/
namespace Hde.Network
open Hde.Engine
open Hde.Engine.LoRaEngine
open Hde.Steps Hde.Custody Hde.Provenance

variable {υ κ α : Type*}

structure Units (υ κ α : Type*) where
  engines : υ → LoRaEngine κ α
  -- what was sent so far, and by whom
  air : List (υ × α)

/-- A step of one of the units. -/
structure Move (υ κ α : Type*) where
  unit : υ
  action : Action κ α

def started (υ κ α : Type*) : Units υ κ α := ⟨fun _ => start κ α, []⟩

/-- What an event sends. -/
def transmission : Event κ α → List α
  | .radio (.send message) => [message.value]
  | _ => []

variable [DecidableEq υ] [DecidableEq κ]

def step (net : Units υ κ α) (move : Move υ κ α) : Option (Units υ κ α × (υ × Event κ α)) :=
  ((net.engines move.unit).step move.action).map fun (engine, event) =>
    (⟨Function.update net.engines move.unit engine, net.air ++ (transmission event).map (move.unit, ·)⟩,
      (move.unit, event))

/-- A unit reads a packet only if another one has sent something that arrives as it. -/
def InReach (carries : α → α → Prop) (net : Units υ κ α) (move : Move υ κ α) : Prop :=
  ∀ raw, move.action = .deliver raw → ∃ v value, v ≠ move.unit ∧ (v, value) ∈ net.air ∧ carries value raw

abbrev Run (carries : α → α → Prop) : List (υ × Event κ α) → Units υ κ α → Prop :=
  Runs.Run step (InReach carries) (started υ κ α)

/-- What happens at a unit. -/
def eventsAt (u : υ) (outputs : List (υ × Event κ α)) : List (Event κ α) :=
  (outputs.filter (·.1 = u)).map Prod.snd

/-- A value that `queue_message` was given at a unit, or that was carried there from
    another one. -/
inductive Relayed (asked : υ → α → Prop) (carries : α → α → Prop) : υ → α → Prop
  | own {u : υ} {msg : α} (argument : asked u msg) : Relayed asked carries u msg
  | heard {u v : υ} {value raw : α} (relayed : Relayed asked carries v value) (other : v ≠ u)
      (carried : carries value raw) : Relayed asked carries u raw

/-- What `queue_message` was given at a unit. -/
def Asked (outputs : List (υ × Event κ α)) (u : υ) (msg : α) : Prop := Argument (eventsAt u outputs) msg

variable {carries : α → α → Prop} {outputs more : List (υ × Event κ α)} {net next : Units υ κ α}
  {move : Move υ κ α} {output : υ × Event κ α}

omit [DecidableEq υ] [DecidableEq κ] in
theorem Relayed.imp {asked asked' : υ → α → Prop} (still : ∀ u msg, asked u msg → asked' u msg) {u : υ} {value : α}
    (relayed : Relayed asked carries u value) : Relayed asked' carries u value := by
  induction relayed with
  | own argument => exact .own (still _ _ argument)
  | heard _ other carried ih => exact .heard ih other carried

omit [DecidableEq κ] in
theorem eventsAt_append (u : υ) (outputs more : List (υ × Event κ α)) :
    eventsAt u (outputs ++ more) = eventsAt u outputs ++ eventsAt u more := by
  simp [eventsAt]

omit [DecidableEq κ] in
theorem Asked.append {u : υ} {msg : α} (asked : Asked outputs u msg) (more : List (υ × Event κ α)) :
    Asked (outputs ++ more) u msg := by
  rw [Asked, eventsAt_append]
  exact Argument.append asked _

/-- A step is one of one unit's engine. -/
theorem step_unit (done : step net move = some (next, output)) :
    ∃ engine event, (net.engines move.unit).step move.action = some (engine, event) ∧ output = (move.unit, event) ∧
      next.engines = Function.update net.engines move.unit engine ∧
      next.air = net.air ++ (transmission event).map (move.unit, ·) := by
  obtain ⟨⟨engine, event⟩, now, rest⟩ := Option.map_eq_some_iff.mp done
  cases rest
  exact ⟨engine, event, now, rfl, rfl, rfl⟩

/-- Each unit runs as one that is alone. -/
theorem unit_run (run : Run carries outputs net) (u : υ) : Engine.Run (eventsAt u outputs) (net.engines u) := by
  refine run.invariant (fun outputs net => Engine.Run (eventsAt u outputs) (net.engines u)) .nil ?_
  intro outputs net move next output earlier _ done
  obtain ⟨engine, event, now, rfl, engines, -⟩ := step_unit done
  rw [eventsAt_append, engines]
  by_cases own : move.unit = u
  · subst own
    rw [Function.update_self]
    simpa [eventsAt] using earlier.snoc trivial now
  · rw [Function.update_of_ne (Ne.symm own)]
    simpa [eventsAt, own] using earlier

/-- What is on the air, and what a unit has heard, comes from units that were asked. -/
structure Carried (carries : α → α → Prop) (outputs : List (υ × Event κ α)) (net : Units υ κ α) : Prop where
  air : ∀ sent ∈ net.air, Relayed (Asked outputs) carries sent.1 sent.2
  heard : ∀ u raw, Packet (eventsAt u outputs) raw → Relayed (Asked outputs) carries u raw

theorem Carried.step (carried : Carried carries outputs net) (run : Run carries outputs net)
    (inReach : InReach carries net move) (done : step net move = some (next, output)) :
    Carried carries (outputs ++ [output]) next := by
  have all := run.snoc inReach done
  obtain ⟨engine, event, now, rfl, -, air⟩ := step_unit done
  have still {u : υ} {value : α} (relayed : Relayed (Asked outputs) carries u value) :
      Relayed (Asked (outputs ++ [(move.unit, event)])) carries u value :=
    relayed.imp fun u msg asked => asked.append _
  constructor
  · rintro ⟨u, value⟩ member
    rw [air, List.mem_append] at member
    rcases member with old | new
    · exact still (carried.air _ old)
    · obtain ⟨sent, given, same⟩ := List.mem_map.mp new
      cases same
      cases event with
      | radio call =>
        cases call with
        | send message =>
          obtain rfl : value = message.value := List.mem_singleton.mp given
          have split : eventsAt move.unit (outputs ++ [(move.unit, .radio (.send message))]) =
              eventsAt move.unit outputs ++ .radio (.send message) :: [] := by
            simp [eventsAt]
          have sourced := handed_sourced (unit_run all move.unit) split rfl (List.mem_singleton_self message)
          rcases sourced with ⟨-, argument⟩ | ⟨-, packet⟩
          · exact still (.own argument)
          · exact still (carried.heard _ _ packet)
        | _ => cases given
      | _ => cases given
  · intro u raw packet
    rw [eventsAt_append, Packet, List.mem_append] at packet
    rcases packet with old | new
    · exact still (carried.heard u raw old)
    · obtain ⟨⟨v, last⟩, member, rfl⟩ := List.mem_map.mp new
      obtain ⟨single, same⟩ := List.mem_filter.mp member
      cases List.mem_singleton.mp single
      obtain rfl : move.unit = u := of_decide_eq_true same
      obtain ⟨v, value, other, sent, carries⟩ := inReach raw ((step_source now).2 raw rfl)
      exact still (.heard (carried.air _ sent) other carries)

/-- Everything that is sent is a message that `queue_message` was given at some unit,
    carried from unit to unit. -/
theorem air_relayed (run : Run carries outputs net) :
    ∀ sent ∈ net.air, Relayed (Asked outputs) carries sent.1 sent.2 := by
  have carried : Run carries outputs net ∧ Carried carries outputs net := by
    refine run.invariant (fun outputs net => Run carries outputs net ∧ Carried carries outputs net)
      ⟨.nil, by simp [started], by simp [Packet, eventsAt]⟩ ?_
    rintro outputs net move next output ⟨earlier, carried⟩ inReach done
    exact ⟨earlier.snoc inReach done, carried.step earlier inReach done⟩
  exact carried.2.air

/-! ### Who sends -/

/-- The calls that do not lead to a packet being sent. -/
def Harmless : Call α → Prop
  | .put _ | .setTransmit _ | .setState .transmit => False
  | _ => True

/-- The engine is not about to send anything. -/
structure Silent (e : LoRaEngine κ α) : Prop where
  mode : e.state ≠ .transmit
  worker : e.worker ≠ .get ∧ held e.worker = []
  calls : ∀ k, Harmless (e.calls k)

section Engine
variable {e t : LoRaEngine κ α} {event : Event κ α} {action : Action κ α} {events : List (Event κ α)}

omit [DecidableEq κ] in
theorem silent_work (silent : Silent e) (now : e.work = some (t, event)) : Silent t := by
  cases place : e.worker with
  | receive | read | stopped => simp [work, place] at now
  | get => exact absurd place silent.worker.1
  | setModeTx message | send message =>
    have empty := silent.worker.2
    simp [place, held] at empty
  | readState =>
    simp only [work, place, Option.some.injEq, Prod.mk.injEq] at now
    obtain ⟨rfl, rfl⟩ := now
    refine ⟨silent.mode, ⟨?_, held_handler _⟩, silent.calls⟩
    have mode := silent.mode
    cases state : e.state <;> simp [state, handler, goto] at mode ⊢
  | loop =>
    simp only [work, place, Option.some.injEq, Prod.mk.injEq] at now
    obtain ⟨rfl, rfl⟩ := now
    refine ⟨silent.mode, ?_, silent.calls⟩
    cases e.running <;> simp [goto, held]
  | put raw | afterReset | setModeRx | reset | empty | sent | autoSwitch | unknown | sleep =>
    simp only [work, place, Option.some.injEq, Prod.mk.injEq] at now
    obtain ⟨rfl, rfl⟩ := now
    exact ⟨by simp [goto, enqueue, silent.mode], by simp [goto, held], silent.calls⟩

theorem silent_call {k : κ} (silent : Silent e) (now : e.call k = some (t, event)) : Silent t := by
  have harmless := silent.calls k
  have elsewhere {place : Call α} (free : Harmless place) (j : κ) : Harmless (Function.update e.calls k place j) := by
    by_cases same : j = k
    · subst same
      rwa [Function.update_self]
    · rw [Function.update_of_ne same]
      exact silent.calls j
  cases place : e.calls k with
  | out => simp [call, place] at now
  | put msg | setTransmit msg => simp [place, Harmless] at harmless
  | setState newState =>
    simp only [call, place, Option.some.injEq, Prod.mk.injEq] at now
    obtain ⟨rfl, rfl⟩ := now
    refine ⟨fun transmit => ?_, silent.worker, elsewhere trivial⟩
    obtain rfl : newState = .transmit := transmit
    simp [place, Harmless] at harmless
  | setReceive msg =>
    simp only [call, place, Option.some.injEq, Prod.mk.injEq] at now
    obtain ⟨rfl, rfl⟩ := now
    exact ⟨by simp [callAt], silent.worker, elsewhere trivial⟩
  | check msg | empty items =>
    simp only [call, place, Option.some.injEq, Prod.mk.injEq] at now
    obtain ⟨rfl, rfl⟩ := now
    exact ⟨silent.mode, silent.worker, elsewhere (by split <;> trivial)⟩
  | get items =>
    cases contents : e.queue with
    | nil => simp [call, place, contents] at now
    | cons item rest =>
      simp only [call, place, contents, Option.some.injEq, Prod.mk.injEq] at now
      obtain ⟨rfl, rfl⟩ := now
      exact ⟨silent.mode, silent.worker, elsewhere trivial⟩
  | join =>
    simp only [call, place] at now
    split at now <;> cases now
    exact ⟨silent.mode, silent.worker, elsewhere trivial⟩
  | readBack msg | getState | stop | reply result =>
    simp only [call, place, Option.some.injEq, Prod.mk.injEq] at now
    obtain ⟨rfl, rfl⟩ := now
    exact ⟨silent.mode, silent.worker, elsewhere trivial⟩

/-- An engine stays silent until it is asked to send. -/
theorem silent_step (silent : Silent e) (now : LoRaEngine.step e action = some (t, event))
    (unasked : ∀ k msg, event ≠ .entered k (.queueMessage msg))
    (unset : ∀ k, event ≠ .entered k (.setState .transmit)) :
    Silent t ∧ ∀ item, event ≠ .radio (.send item) := by
  constructor
  · cases action with
    | work => exact silent_work silent now
    | hear heard =>
      obtain ⟨place, rfl, rfl⟩ := step_hear now
      cases heard <;> exact ⟨silent.mode, by simp [goto, held], silent.calls⟩
    | deliver raw =>
      obtain ⟨place, rfl, rfl⟩ := step_deliver now
      exact ⟨silent.mode, by simp [goto, held], silent.calls⟩
    | call k => exact silent_call silent now
    | enter k request =>
      obtain ⟨place, rfl, rfl⟩ := step_enter now
      refine ⟨silent.mode, silent.worker, fun j => ?_⟩
      by_cases same : j = k
      · subst same
        simp only [callAt, Function.update_self]
        cases request with
        | queueMessage msg => exact absurd rfl (unasked j msg)
        | setState newState =>
          cases newState with
          | transmit => exact absurd rfl (unset j)
          | _ => trivial
        | _ => trivial
      · simpa [callAt, same] using silent.calls j
  · rintro item rfl
    cases moved : mover action with
    | worker =>
      cases step_worker moved now with
      | quiet still => simpa [queueOp] using still.silent
      | sent place => simpa [place, held] using silent.worker.2
    | caller k =>
      cases step_caller moved now with
      | quiet still => simpa [queueOp] using still.silent

theorem silent_run (run : Engine.Run events e) (unasked : ∀ msg, ¬ Argument events msg)
    (unset : ∀ k, .entered k (.setState .transmit) ∉ events) : Silent e ∧ ∀ item, .radio (.send item) ∉ events := by
  revert unasked unset
  refine run.invariant (fun events e => (∀ msg, ¬ Argument events msg) →
    (∀ k, .entered k (.setState .transmit) ∉ events) → Silent e ∧ ∀ item, .radio (.send item) ∉ events) ?_ ?_
  · exact fun _ _ => ⟨⟨by simp [start], by simp [start, held], fun _ => trivial⟩, nofun⟩
  · intro events e action t event earlier _ now unasked unset
    obtain ⟨silent, unsent⟩ := earlier (fun msg argument => unasked msg (argument.append _))
      fun k member => unset k (List.mem_append_left _ member)
    have last := silent_step silent now
      (fun k msg same => unasked msg ⟨k, List.mem_append_right _ (List.mem_singleton.mpr same.symm)⟩)
      fun k same => unset k (List.mem_append_right _ (List.mem_singleton.mpr same.symm))
    refine ⟨last.1, fun item member => ?_⟩
    rcases List.mem_append.mp member with old | new
    · exact unsent item old
    · exact last.2 item (List.mem_singleton.mp new).symm

end Engine

/-- What is on the air was sent by the unit it names. -/
theorem sent_of_air (run : Run carries outputs net) {u : υ} {value : α} (sent : (u, value) ∈ net.air) :
    ∃ item, item.value = value ∧ .radio (.send item) ∈ eventsAt u outputs := by
  revert sent
  refine run.invariant (fun outputs net => (u, value) ∈ net.air →
    ∃ item, item.value = value ∧ .radio (.send item) ∈ eventsAt u outputs) (by simp [started]) ?_
  intro outputs net move next output earlier _ done sent
  obtain ⟨engine, event, now, rfl, -, air⟩ := step_unit done
  rw [eventsAt_append]
  rw [air, List.mem_append] at sent
  rcases sent with old | new
  · obtain ⟨item, same, member⟩ := earlier old
    exact ⟨item, same, List.mem_append_left _ member⟩
  · obtain ⟨own, given, same⟩ := List.mem_map.mp new
    cases same
    cases event with
    | radio call =>
      cases call with
      | send message => exact ⟨message, (List.mem_singleton.mp given).symm, by simp [eventsAt]⟩
      | _ => cases given
    | _ => cases given

/-- A unit where nobody sets the state to "transmit" sends only once its own
    `queue_message` was called, be it only what it has heard. -/
theorem senders_asked (run : Run carries outputs net) {u : υ} {value : α} (sent : (u, value) ∈ net.air)
    (unset : ∀ k, .entered k (.setState .transmit) ∉ eventsAt u outputs) : ∃ msg, Asked outputs u msg := by
  by_contra unasked
  obtain ⟨item, -, member⟩ := sent_of_air run sent
  exact (silent_run (unit_run run u) (fun msg argument => unasked ⟨msg, argument⟩) unset).2 item member

/-- The step is in reach, where packets arrive as they were sent. -/
def hears (net : Units Bool Unit Nat) (move : Move Bool Unit Nat) : Bool :=
  match move.action with
  | .deliver raw => net.air.any fun sent => decide (sent.1 ≠ move.unit ∧ sent.2 = raw)
  | _ => true

theorem inReach_of_hears (net : Units Bool Unit Nat) (move : Move Bool Unit Nat) (heard : hears net move = true) :
    InReach (· = ·) net move := by
  intro raw deliver
  rw [hears, deliver] at heard
  obtain ⟨⟨v, value⟩, member, same⟩ := List.any_eq_true.mp heard
  obtain ⟨other, same⟩ := of_decide_eq_true same
  exact ⟨v, value, other, member, same⟩

/-- One unit sends 5, and another, which hears it, sends it again when it is asked for 6. -/
def relay : List (Move Bool Unit Nat) :=
  ([.enter () (.queueMessage 5), .call (), .call (), .work, .work, .work, .work, .work].map (⟨true, ·⟩)) ++
    ([.enter () (.setState .receive), .call (), .call (), .work, .work, .work, .hear true, .deliver 5, .work,
      .enter () (.queueMessage 6), .call (), .call (), .work, .work, .work, .work, .work, .work].map (⟨false, ·⟩))

theorem run_relay : ∃ (outputs : List (Bool × Event Unit Nat)) (net : Units Bool Unit Nat),
    Run (· = ·) outputs net ∧ net.air = [(true, 5), (false, 5)] ∧
      ∀ k, .entered k (.setState .transmit) ∉ eventsAt false outputs := by
  have ran : (Runs.exec step hears (started Bool Unit Nat) relay).map (fun ended => (ended.2.air,
      (eventsAt false ended.1).filter fun event => event = .entered () (.setState .transmit))) =
      some ([(true, 5), (false, 5)], []) := by decide +kernel
  obtain ⟨⟨outputs, net⟩, executed, ended⟩ := Option.map_eq_some_iff.mp ran
  obtain ⟨air, unset⟩ := Prod.mk.inj ended
  refine ⟨outputs, net, .of_exec _ inReach_of_hears _ executed, air, fun k member => ?_⟩
  exact absurd (List.mem_filter.mpr ⟨member, decide_eq_true rfl⟩) (by rw [unset]; simp)

theorem air_relayed_twice : ∃ (outputs : List (Bool × Event Unit Nat)) (net : Units Bool Unit Nat),
    Run (· = ·) outputs net ∧ Relayed (Asked outputs) (· = ·) false 5 := by
  obtain ⟨outputs, net, run, air, -⟩ := run_relay
  exact ⟨outputs, net, run, air_relayed run (false, 5) (by simp [air])⟩

theorem senders_asked_twice : ∃ (outputs : List (Bool × Event Unit Nat)) (net : Units Bool Unit Nat),
    Run (· = ·) outputs net ∧ (false, 5) ∈ net.air ∧ ∃ msg, Asked outputs false msg := by
  obtain ⟨outputs, net, run, air, unset⟩ := run_relay
  have sent : (false, 5) ∈ net.air := by simp [air]
  exact ⟨outputs, net, run, sent, senders_asked run sent unset⟩

end Hde.Network
