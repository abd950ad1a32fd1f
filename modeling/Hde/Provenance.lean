import Hde.Custody

/-!
Where the items come from that the engine sends and returns. There is one queue
for both directions, so a packet that `_do_receive` put can be sent, and a
message that `queue_message` put can be returned (`mixed`). What holds is that
every item sent or returned was the argument of an earlier call of
`queue_message` or a packet that an earlier `lora.read` returned (`sourced`).
-/
namespace Hde.Provenance
open Hde.Engine
open Hde.Engine.LoRaEngine
open Hde.Steps Hde.Custody

variable {κ α : Type*}

def Argument (events : List (Event κ α)) (msg : α) : Prop := ∃ k, .entered k (.queueMessage msg) ∈ events

def Packet (events : List (Event κ α)) (raw : α) : Prop := .radio (.read raw) ∈ events

/-- An item was an argument or a packet, as its origin says. -/
def Sourced (events : List (Event κ α)) (item : Item α) : Prop :=
  (item.origin = .queued ∧ Argument events item.value) ∨ (item.origin = .received ∧ Packet events item.value)

theorem Argument.append {events : List (Event κ α)} {msg : α} (argument : Argument events msg)
    (more : List (Event κ α)) : Argument (events ++ more) msg := by
  obtain ⟨k, member⟩ := argument
  exact ⟨k, List.mem_append_left _ member⟩

theorem Sourced.append {events : List (Event κ α)} {item : Item α} (sourced : Sourced events item)
    (more : List (Event κ α)) : Sourced (events ++ more) item := by
  rcases sourced with ⟨queued, argument⟩ | ⟨received, packet⟩
  · exact .inl ⟨queued, argument.append more⟩
  · exact .inr ⟨received, List.mem_append_left _ packet⟩

/-- Every item put has a source, and so has what a thread is about to put. -/
structure Traced (events : List (Event κ α)) (e : LoRaEngine κ α) : Prop where
  items : ∀ item ∈ putItems events, Sourced events item
  arguments : ∀ k msg, e.calls k = .put msg → Argument events msg
  packets : ∀ raw, e.worker = .put raw → Packet events raw

def SendsArguments (events : List (Event κ α)) : Prop :=
  ∀ before after item, events = before ++ .radio (.send item) :: after → Argument before item.value

def ReturnsPackets (events : List (Event κ α)) : Prop :=
  ∀ before after k items, events = before ++ .returned k (.messages items) :: after →
    ∀ item ∈ items, Packet before item.value

theorem argument_of_sent {events : List (Event κ α)} (sends : SendsArguments events) {item : Item α}
    (sent : .radio (.send item) ∈ events) :
    Argument events item.value := by
  obtain ⟨before, after, split⟩ := List.append_of_mem sent
  rw [split]
  exact (sends before after item split).append _

theorem packet_of_returned {events : List (Event κ α)} (returns : ReturnsPackets events) {k : κ} {items : List (Item α)}
    (returned : .returned k (.messages items) ∈ events) {item : Item α} (member : item ∈ items) :
    Packet events item.value := by
  obtain ⟨before, after, split⟩ := List.append_of_mem returned
  rw [split]
  exact List.mem_append_left _ (returns before after k items split item member)

theorem putItems_append (events more : List (Event κ α)) :
    putItems (events ++ more) = putItems events ++ putItems more := by
  simp [putItems]

variable [DecidableEq κ] {events : List (Event κ α)} {e : LoRaEngine κ α}

theorem traced_step {t : LoRaEngine κ α} {action : Action κ α} {event : Event κ α} (traced : Traced events e)
    (now : step e action = some (t, event)) : Traced (events ++ [event]) t := by
  have older : ∀ item ∈ putItems events, Sourced (events ++ [event]) item :=
    fun item member => (traced.items item member).append _
  cases step_puts now with
  | @queued k msg place =>
    have argument := traced.arguments k msg place
    refine ⟨?_, ?_, fun raw here => List.mem_append_left _ (traced.packets raw here)⟩
    · intro item member
      rw [putItems_append, List.mem_append] at member
      rcases member with old | new
      · exact older item old
      · obtain rfl : item = e.next .queued msg := by simpa [putItems] using new
        exact .inl ⟨rfl, argument.append _⟩
    · intro other arg here
      by_cases same : other = k
      · subst same
        simp [callAt] at here
      · exact (traced.arguments other arg (by simpa [callAt, enqueue, same] using here)).append _
  | @received raw place =>
    have packet := traced.packets raw place
    refine ⟨?_, fun k msg here => (traced.arguments k msg here).append _, fun raw here => by simp [goto] at here⟩
    intro item member
    rw [putItems_append, List.mem_append] at member
    rcases member with old | new
    · exact older item old
    · obtain rfl : item = e.next .received raw := by simpa [putItems] using new
      exact .inr ⟨rfl, List.mem_append_left _ packet⟩
  | putless without =>
    refine ⟨?_, ?_, ?_⟩
    · intro item member
      rw [putItems_append, List.mem_append] at member
      rcases member with old | new
      · exact older item old
      · cases event with
        | put thread added => exact absurd rfl (without.silent thread added)
        | _ => simp [putItems] at new
    · intro k msg here
      rcases without.argument k msg here with before | rfl
      · exact (traced.arguments k msg before).append _
      · exact ⟨k, by simp⟩
    · intro raw here
      rcases without.packet raw here with before | rfl
      · exact List.mem_append_left _ (traced.packets raw before)
      · simp [Packet]

theorem traced_run (run : Run events e) : Traced events e :=
  run.invariant Traced ⟨by simp [putItems], by simp [start], by simp [start]⟩
    fun _ _ _ _ _ traced _ now => traced_step traced now

theorem handed_sourced (run : Run events e) {before after : List (Event κ α)} {event : Event κ α}
    (split : events = before ++ event :: after) {thread : Thread κ} {items : List (Item α)}
    (op : queueOp event = some (.handOver thread items)) {item : Item α} (member : item ∈ items) :
    Sourced before item := by
  obtain ⟨s, action, t, earlier, -, now⟩ := run.at_event split
  rcases step_refined now with ⟨silent, -⟩ | ⟨other, same, applied⟩
  · simp [op] at silent
  · obtain rfl : Fifo.Op.handOver thread items = other := Option.some.inj (op.symm.trans same)
    have holds : item ∈ (custody s).holds thread := by rwa [applied.handed]
    have put : item ∈ putItems before := by
      rw [← puts_queueOps]
      exact Fifo.mem_puts_of_holds (replayed earlier) holds
    exact (traced_run earlier).items item put

/-- A packet can be sent that nobody queued, and a message returned that nobody
    received. -/
theorem mixed :
    (¬ ∀ (events : List (Event Unit Nat)) (e : LoRaEngine Unit Nat), Run events e → SendsArguments events) ∧
    ¬ ∀ (events : List (Event Unit Nat)) (e : LoRaEngine Unit Nat), Run events e → ReturnsPackets events := by
  constructor
  · -- the worker hears 7 in state "receive" and sends it once the state is "transmit"
    intro separate
    have sends := separate _ _ (Runs.Run.of_exec (fun _ _ => true) (fun _ _ _ => trivial)
      [.enter () (.setState .receive), .call (), .call (), .work, .work, .work, .hear true, .deliver 7, .work, .work,
        .enter () (.setState .transmit), .call (), .call (), .work, .work, .work, .work, .work]
      rfl)
    obtain ⟨⟨⟩, member⟩ := argument_of_sent sends (by decide : Event.radio (.send ⟨0, .received, 7⟩) ∈ _)
    exact absurd member (by decide)
  · -- 5 is collected before the worker takes it
    intro separate
    have returns := separate _ _ (Runs.Run.of_exec (fun _ _ => true) (fun _ _ _ => trivial)
      [.enter () (.queueMessage 5), .call (), .call (), .call (), .call (), .call (), .call (),
        .enter () .getMessages, .call (), .call (), .call (), .call ()]
      rfl)
    have packet := packet_of_returned returns (by decide : Event.returned () (.messages [⟨0, .queued, 5⟩]) ∈ _)
      (List.mem_singleton_self _)
    exact absurd packet (by unfold Packet; decide)

structure Origins (events : List (Event κ α)) : Prop where
  sent : ∀ before after item, events = before ++ .radio (.send item) :: after → Sourced before item
  returned : ∀ before after k items, events = before ++ .returned k (.messages items) :: after →
    ∀ item ∈ items, Sourced before item
  /-- Until a packet is read, only arguments are sent. -/
  unread : ∀ before after item, events = before ++ .radio (.send item) :: after → (∀ raw, ¬ Packet before raw) →
    Argument before item.value
  /-- Until a message is queued, only packets are returned. -/
  unqueued : ∀ before after k items, events = before ++ .returned k (.messages items) :: after →
    (∀ msg, ¬ Argument before msg) → ∀ item ∈ items, Packet before item.value

theorem sourced (run : Run events e) : Origins events := by
  have sent : ∀ before after item, events = before ++ .radio (.send item) :: after → Sourced before item :=
    fun _ _ item split => handed_sourced run split rfl (by simp : item ∈ [item])
  have returned : ∀ before after k items, events = before ++ .returned k (.messages items) :: after →
      ∀ item ∈ items, Sourced before item :=
    fun _ _ _ _ split _ member => handed_sourced run split rfl member
  refine ⟨sent, returned, ?_, ?_⟩
  · intro before after item split unread
    rcases sent before after item split with ⟨-, argument⟩ | ⟨-, packet⟩
    · exact argument
    · exact absurd packet (unread _)
  · intro before after k items split unqueued item member
    rcases returned before after k items split item member with ⟨-, argument⟩ | ⟨-, packet⟩
    · exact absurd argument (unqueued _)
    · exact packet

theorem sourced_both_ways : ∃ events : List (Event Unit Nat),
    sentItems events = [⟨0, .queued, 5⟩] ∧ Returned events ⟨1, .received, 7⟩ ∧ Origins events := by
  refine ⟨_, ?sent, ?returned, sourced (Runs.Run.of_exec (fun _ _ => true) (fun _ _ _ => trivial)
    [.enter () (.queueMessage 5), .call (), .call (), .work, .work, .work, .work, .work, .work, .work,
      .call (), .call (), .call (), .work, .work, .work, .hear true, .deliver 7, .work,
      .enter () .getMessages, .call (), .call (), .call (), .call ()]
    rfl)⟩
  case sent => rfl
  case returned => exact ⟨(), [⟨1, .received, 7⟩], by decide, by decide⟩

end Hde.Provenance
