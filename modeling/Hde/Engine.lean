import Mathlib.Logic.Function.Basic
import Hde.Text
import Hde.Runs

/-!
`LoRaEngine`: the worker thread that repeats `_loop` and any number of threads
that call its methods. Every operation on `message_queue`, every access to
`state`, every read of `running` and every radio call is one step; a thread's
place in the code says which operation comes next. A step answers with the
operation that it performed.

The items of the queue carry their place among all puts and who put them. The
code has neither, and no step looks at them.
-/
namespace Hde.Engine
open Hde.Text (Str lit)

/-- The values of `state`. -/
inductive Mode
  | idle
  | reset
  | transmit
  | receive
  | other (name : Str) (unknown : name ∉ [lit "idle", lit "reset", lit "transmit", lit "receive"])
deriving DecidableEq

/-- Who put an item: `queue_message` or `_do_receive`. -/
inductive Origin
  | queued
  | received
deriving DecidableEq

/-- An item of `message_queue`, and which put it was. -/
structure Item (α : Type*) where
  seq : Nat
  origin : Origin
  value : α
deriving DecidableEq

/-- Where the worker stands: before the operation named. -/
inductive Worker (α : Type*)
  -- while self.running
  | loop
  -- state = self.state
  | readState
  -- _do_reset
  | reset
  | afterReset
  -- _do_receive
  | setModeRx
  | receive
  | read
  | put (raw : α)
  -- _do_transmit
  | get
  | empty
  | setModeTx (message : Item α)
  | send (message : Item α)
  | sent
  | autoSwitch
  -- the branch for an unknown state
  | unknown
  -- time.sleep at the end of an iteration
  | sleep
  | stopped
deriving DecidableEq

inductive Request (α : Type*)
  | queueMessage (msg : α)
  | setState (newState : Mode)
  | getState
  | getMessages
  | shutdown
deriving DecidableEq

/-- What a method returns; `queued msg` is `{"status": "queued", "message": msg}`. -/
inductive Reply (α : Type*)
  | none
  | queued (msg : α)
  | state (mode : Mode)
  | messages (items : List (Item α))
deriving DecidableEq

/-- Where a calling thread stands: outside, or before the operation named. -/
inductive Call (α : Type*)
  | out
  -- queue_message
  | put (msg : α)
  | setTransmit (msg : α)
  | readBack (msg : α)
  | check (msg : α)
  | setReceive (msg : α)
  -- set_state and get_state
  | setState (newState : Mode)
  | getState
  -- get_messages
  | empty (items : List (Item α))
  | get (items : List (Item α))
  -- shutdown
  | stop
  | join
  | reply (result : Reply α)
deriving DecidableEq

structure LoRaEngine (κ α : Type*) where
  state : Mode
  queue : List (Item α)
  running : Bool
  worker : Worker α
  calls : κ → Call α
  -- the number of puts so far
  puts : Nat

/-- `LoRaEngine()`, its worker just started. -/
def start (κ α : Type*) : LoRaEngine κ α where
  state := .idle
  queue := []
  running := true
  worker := .loop
  calls := fun _ => .out
  puts := 0

/-- The worker, or one of the callers. -/
inductive Thread (κ : Type*)
  | worker
  | caller (k : κ)
deriving DecidableEq

inductive Radio (α : Type*)
  | reset
  | setModeRx
  | receive (heard : Bool)
  | read (raw : α)
  | setModeTx
  | send (message : Item α)
deriving DecidableEq

inductive Event (κ α : Type*)
  | checked (running : Bool)
  | read (thread : Thread κ) (mode : Mode)
  | wrote (thread : Thread κ) (mode : Mode)
  | put (thread : Thread κ) (item : Item α)
  | got (thread : Thread κ) (item : Item α)
  | timedOut
  | tested (k : κ) (isEmpty : Bool)
  | radio (call : Radio α)
  | slept
  | entered (k : κ) (request : Request α)
  | returned (k : κ) (result : Reply α)
  | stopped (k : κ)
  | joined (k : κ)
deriving DecidableEq

/-- The thread that moves, with the radio's answer or the method called. -/
inductive Action (κ α : Type*)
  | work
  | hear (heard : Bool)
  | deliver (raw : α)
  | enter (k : κ) (request : Request α)
  | call (k : κ)
deriving DecidableEq

variable {κ α : Type*}

def handler : Mode → Worker α
  | .reset => .reset
  | .transmit => .get
  | .receive => .setModeRx
  | .idle => .sleep
  | .other _ _ => .unknown

def Request.first : Request α → Call α
  | .queueMessage msg => .put msg
  | .setState newState => .setState newState
  | .getState => .getState
  | .getMessages => .empty []
  | .shutdown => .stop

namespace LoRaEngine

def next (e : LoRaEngine κ α) (origin : Origin) (value : α) : Item α := ⟨e.puts, origin, value⟩

/-- `message_queue.put` of that item. -/
def enqueue (e : LoRaEngine κ α) (origin : Origin) (value : α) : LoRaEngine κ α :=
  { e with queue := e.queue ++ [e.next origin value], puts := e.puts + 1 }

def goto (e : LoRaEngine κ α) (place : Worker α) : LoRaEngine κ α := { e with worker := place }

/-- The worker's steps, the answers of `lora.receive` and `lora.read` aside. -/
def work (e : LoRaEngine κ α) : Option (LoRaEngine κ α × Event κ α) :=
  match e.worker with
  | .loop => some (e.goto (if e.running then .readState else .stopped), .checked e.running)
  | .readState => some (e.goto (handler e.state), .read .worker e.state)
  | .reset => some (e.goto .afterReset, .radio .reset)
  | .afterReset => some ({ e with state := .idle, worker := .loop }, .wrote .worker .idle)
  | .setModeRx => some (e.goto .receive, .radio .setModeRx)
  | .receive => none
  | .read => none
  | .put raw => some ((e.enqueue .received raw).goto .sleep, .put .worker (e.next .received raw))
  | .get =>
    match e.queue with
    -- the second that `get` waits can only run out on an empty queue
    | [] => some (e.goto .empty, .timedOut)
    | item :: rest => some ({ e with queue := rest, worker := .setModeTx item }, .got .worker item)
  | .empty => some ({ e with state := .idle, worker := .loop }, .wrote .worker .idle)
  | .setModeTx message => some (e.goto (.send message), .radio .setModeTx)
  | .send message => some (e.goto .sent, .radio (.send message))
  | .sent => some (e.goto .autoSwitch, .slept)
  | .autoSwitch => some ({ e with state := .receive, worker := .loop }, .wrote .worker .receive)
  | .unknown => some ({ e with state := .idle, worker := .sleep }, .wrote .worker .idle)
  | .sleep => some (e.goto .loop, .slept)
  | .stopped => none

variable [DecidableEq κ]

def callAt (e : LoRaEngine κ α) (k : κ) (place : Call α) : LoRaEngine κ α :=
  { e with calls := Function.update e.calls k place }

/-- The steps of caller `k` inside a method. -/
def call (e : LoRaEngine κ α) (k : κ) : Option (LoRaEngine κ α × Event κ α) :=
  match e.calls k with
  | .out => none
  | .put msg => some ((e.enqueue .queued msg).callAt k (.setTransmit msg), .put (.caller k) (e.next .queued msg))
  | .setTransmit msg => some ({ e with state := .transmit }.callAt k (.readBack msg), .wrote (.caller k) .transmit)
  | .readBack msg => some (e.callAt k (.check msg), .read (.caller k) e.state)
  | .check msg =>
    some (e.callAt k (if e.state ≠ .receive then .setReceive msg else .reply (.queued msg)),
      .read (.caller k) e.state)
  | .setReceive msg =>
    some ({ e with state := .receive }.callAt k (.reply (.queued msg)), .wrote (.caller k) .receive)
  | .setState newState =>
    some ({ e with state := newState }.callAt k (.reply .none), .wrote (.caller k) newState)
  | .getState => some (e.callAt k (.reply (.state e.state)), .read (.caller k) e.state)
  | .empty items =>
    some (e.callAt k (if e.queue.isEmpty then .reply (.messages items) else .get items), .tested k e.queue.isEmpty)
  | .get items =>
    match e.queue with
    -- `get` without a timeout waits
    | [] => none
    | item :: rest => some ({ e with queue := rest }.callAt k (.empty (items ++ [item])), .got (.caller k) item)
  | .stop => some ({ e with running := false }.callAt k .join, .stopped k)
  | .join =>
    match e.worker with
    | .stopped => some (e.callAt k (.reply .none), .joined k)
    | _ => none
  | .reply result => some (e.callAt k .out, .returned k result)

def step (e : LoRaEngine κ α) : Action κ α → Option (LoRaEngine κ α × Event κ α)
  | .work => e.work
  | .hear heard =>
    match e.worker with
    | .receive => some (e.goto (if heard then .read else .sleep), .radio (.receive heard))
    | _ => none
  | .deliver raw =>
    match e.worker with
    | .read => some (e.goto (.put raw), .radio (.read raw))
    | _ => none
  | .enter k request =>
    match e.calls k with
    | .out => some (e.callAt k request.first, .entered k request)
    | _ => none
  | .call k => e.call k

end LoRaEngine

/-- The runs of a new engine, its steps taken in any order by any threads. -/
abbrev Run [DecidableEq κ] : List (Event κ α) → LoRaEngine κ α → Prop := Runs.Run LoRaEngine.step Runs.any (start κ α)

end Hde.Engine
