import Hde.Custody
import Hde.Sending

/-!
The whole process: the handlers of `POST /api/send`, each in a thread of its own, the
worker of the engine, and the other threads, which look at the engine's state, set it or
shut it down. Nobody calls `get_messages`, so that the worker sends what was put, in that
order and without a gap (`sent_held_queued`). The process is a run of the handlers and a
run of the engine (`sending_run`, `engine_run`), and what the log gains is what the radio
was given or is still to be given (`transmitted_logged`).
-/
namespace Hde.Backend
open Hde.Text Hde.Numerals Hde.JsonText Hde.Files Hde.Loading Hde.Log Hde.Ids Hde.Requests Hde.Published Hde.Tasks
  Hde.Listing
open Hde.Engine (LoRaEngine Item Origin Action Call Worker)
open Hde.Steps (held)
open Hde.Custody (putItems removedItems sentItems)

/-! ### An engine whose messages nobody collects -/

section Engine
open Hde.Engine.LoRaEngine
variable {κ α : Type*}

/-- A thread is in `get_messages`. -/
def Collecting : Call α → Prop
  | .empty _ | .get _ => True
  | _ => False

variable [DecidableEq κ] {e t : LoRaEngine κ α} {event : Engine.Event κ α} {action : Action κ α}
  {events : List (Engine.Event κ α)}

theorem collecting_call {k : κ} (now : e.call k = some (t, event)) (collecting : Collecting (t.calls k)) :
    Collecting (e.calls k) := by
  cases place : e.calls k with
  | empty | get => trivial
  | out => simp [call, place] at now
  | join =>
    simp only [call, place] at now
    split at now <;> cases now
    simp [callAt, Collecting] at collecting
  | check =>
    simp only [call, place, Option.some.injEq, Prod.mk.injEq] at now
    obtain ⟨rfl, rfl⟩ := now
    simp only [callAt, Function.update_self] at collecting
    split at collecting <;> cases collecting
  | _ =>
    simp only [call, place, Option.some.injEq, Prod.mk.injEq] at now
    obtain ⟨rfl, rfl⟩ := now
    simp [callAt, Collecting] at collecting

/-- A thread comes to collect by calling `get_messages`. -/
theorem collecting_step (now : step e action = some (t, event)) {k : κ} (collecting : Collecting (t.calls k)) :
    Collecting (e.calls k) ∨ event = .entered k .getMessages := by
  cases moved : Steps.mover action with
  | worker =>
    rw [(Steps.step_worker moved now).calls] at collecting
    exact .inl collecting
  | caller other =>
    by_cases same : k = other
    · subst same
      cases action with
      | work | hear | deliver => cases moved
      | call third =>
        obtain rfl : third = k := by simpa [Steps.mover] using moved
        exact .inl (collecting_call now collecting)
      | enter third request =>
        obtain rfl : third = k := by simpa [Steps.mover] using moved
        obtain ⟨-, rfl, rfl⟩ := Steps.step_enter now
        cases request <;> simp [callAt, Engine.Request.first, Collecting] at collecting ⊢
    · left
      have elsewhere : t.calls k = e.calls k := by
        cases Steps.step_caller moved now with
        | quiet still => exact still.elsewhere k same
        | _ => simp [callAt, enqueue, same]
      rwa [elsewhere] at collecting

theorem uncollected_run (run : Engine.Run events e) (uncollected : ∀ k, .entered k .getMessages ∉ events) :
    (∀ k, ¬ Collecting (e.calls k)) ∧ ∀ k item, .got (.caller k) item ∉ events := by
  revert uncollected
  refine run.invariant (fun events e => (∀ k, .entered k .getMessages ∉ events) → (∀ k, ¬ Collecting (e.calls k)) ∧
    ∀ k item, .got (.caller k) item ∉ events) (fun _ => ⟨fun _ => id, nofun⟩) ?_
  intro events e action t event earlier _ now uncollected
  obtain ⟨outside, ungot⟩ := earlier fun k member => uncollected k (List.mem_append_left _ member)
  constructor
  · intro k collecting
    rcases collecting_step now collecting with before | entered
    · exact outside k before
    · exact uncollected k (entered ▸ List.mem_append_right _ (List.mem_singleton_self _))
  · intro k item member
    rcases List.mem_append.mp member with old | new
    · exact ungot k item old
    · obtain rfl : event = .got (.caller k) item := (List.mem_singleton.mp new).symm
      cases moved : Steps.mover action with
      | worker =>
        cases Steps.step_worker moved now with
        | quiet still => simpa [Steps.queueOp] using still.silent
      | caller other =>
        cases Steps.step_caller moved now with
        | quiet still => simpa [Steps.queueOp] using still.silent
        | collected place first => exact outside k (by rw [place]; trivial)

/-- When nobody collects messages, the worker sends what was put, in that order: what it
    sent, what it holds and what is queued is what was put. -/
theorem sent_held_queued (run : Engine.Run events e) (uncollected : ∀ k, .entered k .getMessages ∉ events) :
    sentItems events ++ held e.worker ++ e.queue = putItems events := by
  have replay := Custody.replayed run
  have accounts := Fifo.accounts replay
  have taken := Fifo.takenBy_eq replay .worker
  have only : Fifo.takenBy .worker (Custody.queueOps events) = Fifo.removed (Custody.queueOps events) := by
    rw [Fifo.takenBy, Fifo.removed, List.filter_eq_self.mpr]
    rintro ⟨thread, item⟩ took
    cases thread with
    | worker => rfl
    | caller k => exact absurd (Custody.mem_queueOps_get took) ((uncollected_run run uncollected).2 k item)
  rw [← only, taken, Custody.handedOver_worker, Custody.puts_queueOps] at accounts
  exact accounts

/-- A thread that is about to put its message stays so until it puts it. -/
theorem putting_step (now : step e action = some (t, event)) {k : κ} {msg : α} (place : e.calls k = .put msg) :
    t.calls k = .put msg ∨ event = .put (.caller k) (e.next .queued msg) := by
  cases moved : Steps.mover action with
  | worker =>
    rw [(Steps.step_worker moved now).calls]
    exact .inl place
  | caller other =>
    by_cases same : k = other
    · subst same
      obtain rfl := Steps.call_of_inside moved now (by rw [place]; nofun)
      simp only [LoRaEngine.step, call, place, Option.some.injEq, Prod.mk.injEq] at now
      exact .inr now.2.symm
    · left
      rw [← place]
      cases Steps.step_caller moved now with
      | quiet still => exact still.elsewhere k same
      | _ => simp [callAt, enqueue, same]

end Engine

/-! ### The process -/

/-- What the engine transmits: an entry that a handler queued, or the bytes of a packet. -/
inductive Payload
  | entry (entry : Json)
  | packet (raw : List UInt8)

/-- The threads that call the engine: the handlers of `POST /api/send` in the order in
    which their requests came, and others. -/
abbrev Caller := Nat ⊕ Nat

abbrev Pool := Tasks.Pool Server (Nat × Sending.Handler) (Request × Except Failure Reply)

structure Process where
  pool : Pool
  engine : LoRaEngine Caller Payload
  came : Nat

inductive Event
  | receive (request : Request)
  | run (i : Nat)
  | engine (action : Action Caller Payload)

structure Output where
  note : Option Sending.Note := none
  event : Option (Engine.Event Caller Payload) := none

/-- What a handler asks of the engine as it takes its next step. -/
def asks : Sending.Handler → Option Payload
  | .working _ (.queue entry) => some (.entry entry)
  | _ => none

/-- What else the threads call: a handler `get_state`, the others that, `set_state` and
    `shutdown`. -/
def Sanctioned : Action Caller Payload → Bool
  | .enter (.inl _) .getState => true
  | .enter (.inl _) _ => false
  | .enter (.inr _) (.queueMessage _) => false
  | .enter (.inr _) .getMessages => false
  | _ => true

def step (python : Python) (p : Process) : Event → Option (Process × Output)
  | .receive request =>
    let tasks := p.pool.tasks ++ [(p.came, .working request .check)]
    some ({ p with pool := { p.pool with tasks := tasks }, came := p.came + 1 }, { note := some (.received request) })
  | .run i => do
    let (number, handler) ← p.pool.tasks[i]?
    match p.engine.calls (.inl number) with
    | .out =>
      let (effect, note) := Sending.work python p.pool.state handler
      let effect := ⟨effect.state, effect.tasks.map (number, ·), effect.answers⟩
      let pool := (p.pool.without i).apply effect
      match asks handler with
      | none => return ({ p with pool := pool }, { note := some note })
      | some msg =>
        let (engine, event) ← p.engine.step (.enter (.inl number) (.queueMessage msg))
        return ({ p with pool := pool, engine := engine }, { note := some note, event := some event })
    -- the handler is in `queue_message`
    | _ => none
  | .engine action =>
    if Sanctioned action then
      (p.engine.step action).map fun (engine, event) => ({ p with engine := engine }, { event := some event })
    else none

def opened (server : Server) : Process := ⟨⟨server, [], []⟩, Engine.start Caller Payload, 0⟩

/-- What a handler's step leaves, under the handler's number. -/
def numbered (number : Nat) (effect : Effect Server Sending.Handler (Request × Except Failure Reply)) :
    Effect Server (Nat × Sending.Handler) (Request × Except Failure Reply) :=
  ⟨effect.state, effect.tasks.map (number, ·), effect.answers⟩

/-- A step of the process. -/
inductive Stepped (python : Python) (p : Process) : Event → Process → Output → Prop
  | received {request : Request} : Stepped python p (.receive request)
      { p with
        pool := { p.pool with tasks := p.pool.tasks ++ [(p.came, .working request .check)] }
        came := p.came + 1 }
      { note := some (.received request) }
  | moved {i number : Nat} {handler : Sending.Handler} (there : p.pool.tasks[i]? = some (number, handler))
      (outside : p.engine.calls (.inl number) = .out) (unasked : asks handler = none) :
      Stepped python p (.run i)
        { p with pool := (p.pool.without i).apply (numbered number (Sending.work python p.pool.state handler).1) }
        { note := some (Sending.work python p.pool.state handler).2 }
  | queued {i number : Nat} {request : Request} {entry : Json}
      (there : p.pool.tasks[i]? = some (number, .working request (.queue entry)))
      (outside : p.engine.calls (.inl number) = .out) :
      Stepped python p (.run i)
        { p with
          pool := (p.pool.without i).apply (numbered number
            ⟨p.pool.state.queueMessage entry, [.working request (.makedirs entry)], []⟩)
          engine := p.engine.callAt (.inl number) (.put (.entry entry)) }
        { note := some .nothing, event := some (.entered (.inl number) (.queueMessage (.entry entry))) }
  | engine {action : Action Caller Payload} {engine : LoRaEngine Caller Payload} {event : Engine.Event Caller Payload}
      (sanctioned : Sanctioned action = true) (now : p.engine.step action = some (engine, event)) :
      Stepped python p (.engine action) { p with engine := engine } { event := some event }

variable {python : Python} {p after : Process} {event : Event} {output : Output} {outputs : List Output}

theorem step_stepped (done : step python p event = some (after, output)) : Stepped python p event after output := by
  cases event with
  | receive request =>
    cases done
    exact .received
  | run i =>
    obtain ⟨⟨number, handler⟩, there, rest⟩ := Option.bind_eq_some_iff.mp done
    dsimp only at rest
    split at rest
    · next outside =>
      cases asked : asks handler with
      | none =>
        rw [asked] at rest
        cases rest
        exact .moved there outside asked
      | some msg =>
        obtain ⟨request, entry, rfl, rfl⟩ : ∃ request entry, handler = .working request (.queue entry) ∧
            msg = .entry entry := by
          unfold asks at asked
          split at asked
          · exact ⟨_, _, rfl, (Option.some.inj asked).symm⟩
          · cases asked
        rw [asked] at rest
        simp only [LoRaEngine.step, outside, Option.bind_eq_bind, Option.bind_some] at rest
        cases rest
        exact .queued there outside
    · cases rest
  | engine action =>
    rw [step] at done
    split at done
    · next sanctioned =>
      obtain ⟨⟨engine, event⟩, now, rest⟩ := Option.map_eq_some_iff.mp done
      cases rest
      exact .engine sanctioned now
    · cases done

/-! ### The two runs of which it is made -/

def sending (p : Process) : Sending.Pool := ⟨p.pool.state, p.pool.tasks.map Prod.snd, p.pool.answers⟩

def notes (outputs : List Output) : List Sending.Note := outputs.filterMap Output.note

def events (outputs : List Output) : List (Engine.Event Caller Payload) := outputs.filterMap Output.event

/-- The requests that come in are orderly. -/
def Orderly (floats : FloatReading) (p : Process) : Event → Prop
  | .receive request => Listing.Orderly floats p.pool.state request
  | _ => True

theorem sending_step (number : Nat) {i : Nat} (effect : Effect Server Sending.Handler (Request × Except Failure Reply)) :
    sending { p with pool := (p.pool.without i).apply (numbered number effect) } =
      ((sending p).without i).apply effect := by
  simp [sending, Pool.without, Pool.apply, numbered, List.eraseIdx_map]

theorem sending_run {floats : FloatReading} {server : Server}
    (run : Runs.Run (step python) (Orderly floats) (opened server) outputs p) :
    Runs.Run (Sending.step python) (Sending.Orderly floats) (Sending.opened server) (notes outputs) (sending p) := by
  refine run.invariant (fun outputs p => Runs.Run (Sending.step python) (Sending.Orderly floats)
    (Sending.opened server) (notes outputs) (sending p)) .nil ?_
  intro outputs p event after output earlier orderly done
  have there {i number : Nat} {handler : Sending.Handler} (found : p.pool.tasks[i]? = some (number, handler)) :
      Sending.step python (sending p) (.run i) = some (((sending p).without i).apply
        (Sending.work python p.pool.state handler).1, (Sending.work python p.pool.state handler).2) := by
    simp [Sending.step, sending, found]
  rw [notes, List.filterMap_append, ← notes]
  cases step_stepped done with
  | @received request =>
    have permitted : Sending.Orderly floats (sending p) (.receive request) := orderly
    simpa [sending] using earlier.snoc permitted rfl
  | @moved i number handler found outside unasked =>
    have permitted : Sending.Orderly floats (sending p) (.run i) := trivial
    rw [sending_step]
    exact earlier.snoc permitted (there found)
  | @queued i number request entry found outside =>
    have permitted : Sending.Orderly floats (sending p) (.run i) := trivial
    have moved := earlier.snoc permitted (there found)
    rw [← sending_step number] at moved
    exact moved
  | engine sanctioned now => simpa [sending] using earlier

theorem engine_run {allowed : Process → Event → Prop} {server : Server}
    (run : Runs.Run (step python) allowed (opened server) outputs p) : Engine.Run (events outputs) p.engine := by
  refine run.invariant (fun outputs p => Engine.Run (events outputs) p.engine) .nil ?_
  intro outputs p event after output earlier _ done
  rw [events, List.filterMap_append, ← events]
  cases step_stepped done with
  | received | moved => simpa using earlier
  | @queued i number request entry there outside =>
    have entered : p.engine.step (.enter (.inl number) (.queueMessage (.entry entry))) = some (p.engine.callAt
        (.inl number) (.put (.entry entry)), .entered (.inl number) (.queueMessage (.entry entry))) := by
      simp only [LoRaEngine.step, outside, Engine.Request.first]
    exact earlier.snoc trivial entered
  | engine sanctioned now => exact earlier.snoc trivial now

/-! ### What was queued, put and sent -/

def numbers (pool : Pool) : List Nat := pool.tasks.map Prod.fst

theorem sanctioned_entered {e t : LoRaEngine Caller Payload} {action : Action Caller Payload}
    {event : Engine.Event Caller Payload} (sanctioned : Sanctioned action = true)
    (now : e.step action = some (t, event)) (k : Caller) :
    (∀ msg, event ≠ .entered k (.queueMessage msg)) ∧ event ≠ .entered k .getMessages := by
  refine ⟨fun msg same => ?_, fun same => ?_⟩
  all_goals
    obtain rfl := (Steps.step_source now).1 k _ same
    cases k <;> cases sanctioned

theorem work_tasks (python : Python) (server : Server) (handler : Sending.Handler) :
    (Sending.work python server handler).1.tasks.length ≤ 1 := by
  cases handler <;> simp [Sending.work]

/-- The threads that put messages are those of the handlers under way, and no thread
    collects messages. -/
structure Threads (outputs : List Output) (p : Process) : Prop where
  distinct : (numbers p.pool).Nodup
  below : ∀ number ∈ numbers p.pool, number < p.came
  putting : ∀ number msg, p.engine.calls (.inl number) = .put msg → number ∈ numbers p.pool
  others : ∀ k msg, p.engine.calls (.inr k) ≠ .put msg
  uncollected : ∀ k, .entered k .getMessages ∉ events outputs

section Moved
variable {pool : Pool} {i number : Nat} {handler : Sending.Handler}
  {effect : Effect Server Sending.Handler (Request × Except Failure Reply)}

theorem numbers_step (effect : Effect Server Sending.Handler (Request × Except Failure Reply))
    (there : pool.tasks[i]? = some (number, handler)) :
    (numbers ((pool.without i).apply (numbered number effect)) ++ [number]).Perm
      (numbers pool ++ effect.tasks.map fun _ => number) := by
  have passed := due_step (fun task => [task.1]) (numbered number effect) there
  simpa [numbers, numbered, ← List.map_eq_flatMap] using passed

theorem mem_numbers (there : pool.tasks[i]? = some (number, handler)) : number ∈ numbers pool :=
  List.mem_map.mpr ⟨_, List.mem_of_getElem? there, rfl⟩

theorem nodup_numbers_step (there : pool.tasks[i]? = some (number, handler)) (distinct : (numbers pool).Nodup)
    (few : effect.tasks.length ≤ 1) : (numbers ((pool.without i).apply (numbered number effect))).Nodup := by
  have passed := numbers_step effect there
  match tasks : effect.tasks, few with
  | [], _ =>
    rw [tasks, List.map_nil, List.append_nil] at passed
    exact (passed.nodup_iff.mpr distinct).of_append_left
  | [handler], _ =>
    rw [tasks] at passed
    exact ((List.perm_append_right_iff _).mp passed).nodup_iff.mpr distinct

theorem mem_numbers_step (there : pool.tasks[i]? = some (number, handler)) {other : Nat}
    (member : other ∈ numbers ((pool.without i).apply (numbered number effect))) : other ∈ numbers pool := by
  rcases List.mem_append.mp ((numbers_step _ there).mem_iff.mp (List.mem_append_left _ member)) with old | new
  · exact old
  · obtain ⟨-, -, rfl⟩ := List.mem_map.mp new
    exact mem_numbers there

theorem mem_numbers_of_ne (there : pool.tasks[i]? = some (number, handler)) {other : Nat}
    (member : other ∈ numbers pool) (different : other ≠ number) :
    other ∈ numbers ((pool.without i).apply (numbered number effect)) := by
  rcases List.mem_append.mp ((numbers_step _ there).mem_iff.mpr (List.mem_append_left _ member)) with old | new
  · exact old
  · exact absurd (List.mem_singleton.mp new) different

end Moved

theorem Threads.step (threads : Threads outputs p) (done : step python p event = some (after, output)) :
    Threads (outputs ++ [output]) after := by
  have ungot {last : Option (Engine.Event Caller Payload)} {note : Option Sending.Note}
      (other : ∀ k, last ≠ some (.entered k .getMessages)) (k : Caller) :
      .entered k .getMessages ∉ events (outputs ++ [⟨note, last⟩]) := by
    rw [events, List.filterMap_append, List.mem_append]
    rintro (old | new)
    · exact threads.uncollected k old
    · exact other k (by simpa using new)
  cases step_stepped done with
  | received =>
    refine ⟨?_, ?_, fun number msg place => ?_, threads.others, ungot nofun⟩
    · simp only [numbers, List.map_append, List.map_cons, List.map_nil]
      refine List.nodup_append.mpr ⟨threads.distinct, List.nodup_singleton _, ?_⟩
      rintro other member last new rfl
      exact absurd (threads.below _ member) (by simp [List.mem_singleton.mp new])
    · intro number member
      simp only [numbers, List.map_append, List.map_cons, List.map_nil, List.mem_append, List.mem_singleton] at member
      rcases member with old | rfl
      · exact (threads.below number old).trans (Nat.lt_succ_self _)
      · exact Nat.lt_succ_self _
    · rw [numbers, List.map_append]
      exact List.mem_append_left _ (threads.putting number msg place)
  | @moved i number handler there outside unasked =>
    refine ⟨nodup_numbers_step there threads.distinct (work_tasks _ _ _),
      fun other member => threads.below other (mem_numbers_step there member), fun other msg place => ?_,
      threads.others, ungot nofun⟩
    refine mem_numbers_of_ne there (threads.putting other msg place) ?_
    rintro rfl
    rw [outside] at place
    cases place
  | @queued i number request entry there outside =>
    refine ⟨nodup_numbers_step there threads.distinct (Nat.le_refl 1),
      fun other member => threads.below other (mem_numbers_step there member), fun other msg place => ?_, ?_,
      ungot (by simp)⟩
    · by_cases own : other = number
      · subst own
        exact List.mem_map.mpr ⟨_, List.mem_append_right _ (List.mem_singleton_self _), rfl⟩
      · refine mem_numbers_of_ne there (threads.putting other msg ?_) own
        simpa [LoRaEngine.callAt, own] using place
    · intro k msg place
      exact threads.others k msg (by simpa [LoRaEngine.callAt] using place)
  | @engine action engine event sanctioned now =>
    have entered := sanctioned_entered sanctioned now
    have put : ∀ k msg, engine.calls k = .put msg → p.engine.calls k = .put msg := by
      intro k msg place
      cases Custody.step_puts now with
      | @queued other own here =>
        by_cases same : k = other
        · subst same
          simp [LoRaEngine.callAt] at place
        · simpa [LoRaEngine.callAt, LoRaEngine.enqueue, same] using place
      | received => exact place
      | putless without => exact (without.argument k msg place).resolve_right ((entered k).1 msg)
    refine ⟨threads.distinct, threads.below, fun number msg place => threads.putting number msg (put _ msg place),
      fun k msg place => threads.others k msg (put _ msg place), ungot fun k same => ?_⟩
    exact (entered k).2 (Option.some.inj same)

theorem threads_opened (server : Server) : Threads [] (opened server) where
  distinct := List.nodup_nil
  below := by simp [numbers, opened]
  putting := by simp [opened, Engine.start]
  others := by simp [opened, Engine.start]
  uncollected := by simp [events]

theorem events_silent (outputs : List Output) (note : Option Sending.Note) :
    events (outputs ++ [⟨note, none⟩]) = events outputs := by
  simp [events]

theorem events_append (outputs : List Output) (note : Option Sending.Note) (event : Engine.Event Caller Payload) :
    events (outputs ++ [⟨note, some event⟩]) = events outputs ++ [event] := by
  simp [events]

/-- The arguments of `queue_message`. -/
def arguments (events : List (Engine.Event Caller Payload)) : List Payload :=
  events.filterMap fun
    | .entered _ (.queueMessage msg) => some msg
    | _ => none

def ofHandlers (items : List (Item Payload)) : List Payload := (items.filter (·.origin = .queued)).map (·.value)

/-- What a handler is about to put. -/
def pending (engine : LoRaEngine Caller Payload) (number : Nat) : List Payload :=
  match engine.calls (.inl number) with
  | .put msg => [msg]
  | _ => []

/-- What the handlers have queued was put, or is about to be. -/
structure Balanced (server : Server) (outputs : List Output) (p : Process) : Prop where
  threads : Threads outputs p
  queued : p.pool.state.queued.map .entry = server.queued.map .entry ++ arguments (events outputs)
  put : (ofHandlers (putItems (events outputs)) ++ (numbers p.pool).flatMap (pending p.engine)).Perm
    (arguments (events outputs))

theorem queued_work {server : Server} {handler : Sending.Handler} (unasked : asks handler = none) :
    (Sending.work python server handler).1.state.queued = server.queued := by
  cases handler with
  | replying => rfl
  | working request stage =>
    have advanced := Sending.advance_advanced python server request stage
    simp only [Sending.work]
    generalize Sending.advance python server request stage = next at advanced ⊢
    obtain ⟨after, handler⟩ := next
    cases advanced with
    | queued => cases unasked
    | _ => rfl

theorem putItems_append (events more : List (Engine.Event Caller Payload)) :
    putItems (events ++ more) = putItems events ++ putItems more := by
  simp [putItems]

theorem pending_of_ne {engine : LoRaEngine Caller Payload} {number : Nat}
    (other : ∀ msg, engine.calls (.inl number) ≠ .put msg) : pending engine number = [] := by
  unfold pending
  split
  · exact absurd ‹_› (other _)
  · rfl

/-- A step of the engine: a handler that was about to put its message still is, unless it
    has put it. -/
theorem pending_engine {engine : LoRaEngine Caller Payload} {action : Action Caller Payload}
    {event : Engine.Event Caller Payload} (threads : Threads outputs p) (sanctioned : Sanctioned action = true)
    (now : p.engine.step action = some (engine, event)) :
    (ofHandlers (putItems [event]) ++ (numbers p.pool).flatMap (pending engine)).Perm
      ((numbers p.pool).flatMap (pending p.engine)) := by
  cases Custody.step_puts now with
  | @queued k msg place =>
    cases k with
    | inr k => exact absurd place (threads.others k msg)
    | inl number =>
      have member := threads.putting number msg place
      have exchanged := flatMap_exchange threads.distinct member (pending p.engine)
        (pending ((p.engine.enqueue .queued msg).callAt (.inl number) (.setTransmit msg)))
        fun other different => by simp [pending, LoRaEngine.callAt, LoRaEngine.enqueue, different]
      have own : pending p.engine number = [msg] := by simp [pending, place]
      have done : pending ((p.engine.enqueue .queued msg).callAt (.inl number) (.setTransmit msg)) number = [] := by
        simp [pending, LoRaEngine.callAt]
      rw [own, done, List.append_nil] at exchanged
      exact List.perm_append_comm.trans exchanged
  | received => exact .refl _
  | @putless event engine without =>
    have silent : putItems [event] = [] := by
      cases event with
      | put thread item => exact absurd rfl (without.silent thread item)
      | _ => rfl
    rw [silent]
    refine List.Perm.of_eq (List.flatMap_congr fun number _ => ?_)
    by_cases putting : ∃ msg, p.engine.calls (.inl number) = .put msg
    · obtain ⟨msg, place⟩ := putting
      have still := (putting_step now place).resolve_right (without.silent _ _)
      simp only [pending, place, still]
    · have before : ∀ msg, p.engine.calls (.inl number) ≠ .put msg := fun msg place => putting ⟨msg, place⟩
      rw [pending_of_ne before, pending_of_ne fun msg place => ?_]
      rcases without.argument _ msg place with earlier | entered
      · exact before msg earlier
      · exact (sanctioned_entered sanctioned now _).1 msg entered

theorem Balanced.step {server : Server} (balanced : Balanced server outputs p)
    (done : step python p event = some (after, output)) : Balanced server (outputs ++ [output]) after := by
  have threads := balanced.threads.step done
  classical
  cases step_stepped done with
  | received =>
    refine ⟨threads, ?_, ?_⟩
    · rw [events_silent]
      exact balanced.queued
    · have idle : pending p.engine p.came = [] := pending_of_ne fun msg place =>
        Nat.lt_irrefl _ (balanced.threads.below _ (balanced.threads.putting _ msg place))
      rw [events_silent, numbers, List.map_append, List.flatMap_append, ← numbers]
      simpa [idle] using balanced.put
  | @moved i number handler there outside unasked =>
    have moved := numbers_step (Sending.work python p.pool.state handler).1 there
    have idle : pending p.engine number = [] := pending_of_ne fun msg place => by simp [outside] at place
    refine ⟨threads, ?_, ?_⟩
    · rw [events_silent, ← balanced.queued, Pool.apply, numbered, queued_work unasked]
    · have owed := moved.flatMap_right (pending p.engine)
      have none_owed : ((Sending.work python p.pool.state handler).1.tasks.map fun _ => number).flatMap
          (pending p.engine) = [] := by simp [idle]
      rw [List.flatMap_append, List.flatMap_append, none_owed, List.flatMap_singleton, idle, List.append_nil,
        List.append_nil] at owed
      rw [events_silent]
      exact (List.Perm.append_left _ owed).trans balanced.put
  | @queued i number request entry there outside =>
    have moved := numbers_step ⟨p.pool.state.queueMessage entry, [.working request (.makedirs entry)], []⟩ there
    have idle : pending p.engine number = [] := pending_of_ne fun msg place => by simp [outside] at place
    have exchanged := flatMap_exchange balanced.threads.distinct (mem_numbers there) (pending p.engine)
      (pending (p.engine.callAt (.inl number) (.put (.entry entry))))
      fun other different => by simp [pending, LoRaEngine.callAt, different]
    have asked : pending (p.engine.callAt (.inl number) (.put (.entry entry))) number = [.entry entry] := by
      simp [pending, LoRaEngine.callAt]
    have more : arguments (events outputs ++ [.entered (.inl number) (.queueMessage (.entry entry))]) =
        arguments (events outputs) ++ [.entry entry] := by simp [arguments]
    refine ⟨threads, ?_, ?_⟩
    · rw [events_append, more, ← List.append_assoc, ← balanced.queued]
      simp [Pool.apply, numbered, Server.queueMessage]
    · have same := ((List.perm_append_right_iff _).mp moved).flatMap_right
        (pending (p.engine.callAt (.inl number) (.put (.entry entry))))
      rw [idle, asked, List.append_nil] at exchanged
      have unput : putItems (events outputs ++ [.entered (.inl number) (.queueMessage (.entry entry))]) =
          putItems (events outputs) := by simp [putItems]
      rw [events_append, more, unput]
      refine (List.Perm.append_left _ (same.trans exchanged)).trans ?_
      rw [← List.append_assoc]
      exact balanced.put.append_right _
  | @engine action engine event sanctioned now =>
    have same : arguments (events outputs ++ [event]) = arguments (events outputs) := by
      rw [arguments, List.filterMap_append, ← arguments]
      cases event with
      | entered k request =>
        cases request with
        | queueMessage msg => exact absurd rfl ((sanctioned_entered sanctioned now k).1 msg)
        | _ => exact List.append_nil _
      | _ => exact List.append_nil _
    refine ⟨threads, ?_, ?_⟩
    · rw [events_append, same]
      exact balanced.queued
    · rw [events_append, same]
      have passed := pending_engine balanced.threads sanctioned now
      rw [putItems_append, ofHandlers, List.filter_append, List.map_append, ← ofHandlers, ← ofHandlers,
        List.append_assoc]
      exact (List.Perm.append_left _ passed).trans balanced.put

theorem balanced_run {allowed : Process → Event → Prop} {server : Server}
    (run : Runs.Run (step python) allowed (opened server) outputs p) : Balanced server outputs p := by
  have begins : Balanced server [] (opened server) :=
    ⟨threads_opened server, by simp [opened, arguments, events],
      by simp [ofHandlers, putItems, events, numbers, opened, arguments]⟩
  exact run.invariant (Balanced server) begins fun _ _ _ _ _ balanced _ done => balanced.step done

/-! ### The log and the radio -/

variable {floats : FloatReading} {truncate : FloatText → Except Failure Int} {server : Server} {documents : List Json}

/-- What the radio was given of the handlers' entries. -/
def transmitted (outputs : List Output) : List Payload := ofHandlers (sentItems (events outputs))

/-- What it is still to be given: what the worker holds, what is queued, and what is about
    to be put. -/
def waiting (p : Process) : List Payload :=
  ofHandlers (held p.engine.worker ++ p.engine.queue) ++ (numbers p.pool).flatMap (pending p.engine)

/-- In every run of the process the log gains the entries of the decided requests, and
    these, with those that are being saved, are what the radio was given or is still to be
    given: none is lost, and none is sent twice. The accepted entries are those of them
    whose message can be printed. -/
theorem transmitted_logged (ready : Ready server) (ids : IdsPrint floats truncate server)
    (holds : LogHolds (loads floats) server.disk documents) (unqueued : server.queued = [])
    (run : Runs.Run (step ⟨loads floats, truncate⟩) (Orderly floats) (opened server) outputs p) :
    let entries := Sending.decidedEntries ⟨loads floats, truncate⟩ server (notes outputs)
    LogHolds (loads floats) p.pool.state.disk (documents ++ entries) ∧
      (transmitted outputs ++ waiting p).Perm ((entries ++ (sending p).tasks.flatMap Sending.unsaved).map .entry) ∧
      Sending.accepted (notes outputs) = entries.filter Printable := by
  obtain ⟨s, follows, made, served⟩ := Sending.served_run (sending_run run)
  have listed := listed_run ready ids holds served
  rw [← made]
  refine ⟨follows.files.logHolds listed.log, ?_, listed.sent⟩
  have balanced := balanced_run run
  have queued := balanced.queued
  rw [unqueued, List.map_nil, List.nil_append] at queued
  have entries := follows.queued
  rw [listed.queued, unqueued, List.nil_append] at entries
  refine List.Perm.trans ?_ (entries.map Payload.entry)
  rw [show (sending p).state = p.pool.state from rfl, queued]
  refine List.Perm.trans (List.Perm.of_eq ?_) balanced.put
  rw [← sent_held_queued (engine_run run) balanced.threads.uncollected]
  simp [transmitted, waiting, ofHandlers]

/-- One request that has just come in, and the steps by which its handler queues the
    entry, the worker sends it and the handler saves it. -/
def arrived : Process :=
  ⟨⟨Clients.newServer, [(0, .working (requestOf (.int 1)) .check)], []⟩, Engine.start Caller Payload, 1⟩

def delivery : List Event :=
  List.replicate 4 (.run 0) ++ List.replicate 2 (.engine (.call (.inl 0))) ++ List.replicate 5 (.engine .work) ++
    List.replicate 4 (.engine (.call (.inl 0))) ++ List.replicate 4 (.run 0)

theorem transmitted_logged_sent : ∃ outputs p,
    Runs.Run (step Clients.oneBrowser.python) (Orderly verbatim) (opened Clients.newServer) outputs p ∧
      LogHolds (loads verbatim) p.pool.state.disk [newEntry (.str (lit "A")) 1722250340 1 1 (.int 1)] ∧
      transmitted outputs = [.entry (newEntry (.str (lit "A")) 1722250340 1 1 (.int 1))] ∧
      ([Payload.entry (newEntry (.str (lit "A")) 1722250340 1 1 (.int 1))] ++ waiting p).Perm
        [.entry (newEntry (.str (lit "A")) 1722250340 1 1 (.int 1))] := by
  have orderly : Orderly verbatim (opened Clients.newServer) (.receive (requestOf (.int 1))) :=
    orderly_requestOf (show Settled verbatim (.int 1) from (by decide : WithinLimit 1))
  have came : Runs.Run (step Clients.oneBrowser.python) (Orderly verbatim) (opened Clients.newServer)
      [{ note := some (.received (requestOf (.int 1))) }] arrived := .one orderly rfl
  have ran : (Runs.exec (step Clients.oneBrowser.python) (fun _ event => event matches .run _ | .engine _) arrived
      delivery).map (fun ended => (transmitted ended.1,
        Sending.decidedEntries Clients.oneBrowser.python Clients.newServer (notes ended.1),
        (sending ended.2).tasks.flatMap Sending.unsaved)) =
      some ([.entry (newEntry (.str (lit "A")) 1722250340 1 1 (.int 1))],
        [newEntry (.str (lit "A")) 1722250340 1 1 (.int 1)], []) := rfl
  obtain ⟨⟨outputs, p⟩, executed, ended⟩ := Option.map_eq_some_iff.mp ran
  simp only [Prod.mk.injEq] at ended
  obtain ⟨sent, made, saved⟩ := ended
  have run := came.trans (Runs.Run.of_exec _ (fun _ event => by cases event <;> simp [Orderly]) _ executed)
  obtain ⟨logged, balanced, -⟩ := transmitted_logged ready_newServer.1 ready_newServer.2.1 ready_newServer.2.2 rfl run
  have all : Sending.decidedEntries ⟨loads verbatim, Clients.oneBrowser.truncate⟩ Clients.newServer
      (notes ([{ note := some (.received (requestOf (.int 1))) }] ++ outputs)) =
        [newEntry (.str (lit "A")) 1722250340 1 1 (.int 1)] := made
  have given : transmitted ([{ note := some (.received (requestOf (.int 1))) }] ++ outputs) =
      [.entry (newEntry (.str (lit "A")) 1722250340 1 1 (.int 1))] := sent
  rw [all] at logged balanced
  rw [given, saved] at balanced
  exact ⟨_, p, run, logged, given, balanced⟩

end Hde.Backend
