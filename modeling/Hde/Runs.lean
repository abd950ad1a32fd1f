import Mathlib.Logic.Basic

/-!
Runs of a system that answers every input with an event, or refuses it. A run
collects the events of its steps; `allowed` restricts the steps that it may
take. What every step preserves holds after every run (`Run.invariant`), and
every event of a run happened at a step from a state that the events before it
reach (`Run.at_event`). A system whose every step is an operation of an abstract
one, or nothing there, runs as the abstract one does (`Run.refines`); a relation does
where no function gives the abstract state (`Run.simulated`).
-/
namespace Hde.Runs

universe u v w
variable {σ : Type u} {ι : Type v} {ω : Type w}

/-- The runs from `start` whose steps are all allowed: the events so far and
    the state reached. -/
inductive Run (step : σ → ι → Option (σ × ω)) (allowed : σ → ι → Prop) (start : σ) : List ω → σ → Prop
  | nil : Run step allowed start [] start
  | snoc {events : List ω} {s t : σ} {input : ι} {event : ω} (earlier : Run step allowed start events s)
      (permitted : allowed s input) (now : step s input = some (t, event)) :
      Run step allowed start (events ++ [event]) t

def any (_ : σ) (_ : ι) : Prop := True

/-- Where an element stands in a list with one more at its end. -/
theorem split_snoc {events before after : List ω} {last event : ω}
    (split : events ++ [last] = before ++ event :: after) :
    (before = events ∧ event = last ∧ after = []) ∨ ∃ front, after = front ++ [last] ∧ events = before ++ event :: front := by
  rcases List.eq_nil_or_concat after with rfl | ⟨front, final, rfl⟩
  · obtain ⟨same, ends⟩ := List.append_inj' split rfl
    exact .inl ⟨same.symm, (List.singleton_inj.mp ends).symm, rfl⟩
  · have regrouped : events ++ [last] = (before ++ event :: front) ++ [final] := by simpa using split
    obtain ⟨same, ends⟩ := List.append_inj' regrouped rfl
    exact .inr ⟨front, by simp [List.singleton_inj.mp ends], same⟩

namespace Run
variable {step : σ → ι → Option (σ × ω)} {allowed : σ → ι → Prop} {start : σ}

/-- What holds at the start and is preserved by every allowed step holds after
    every run; it may speak of the events so far. -/
theorem invariant (inv : List ω → σ → Prop) (initial : inv [] start)
    (preserved : ∀ events s input t event, inv events s → allowed s input → step s input = some (t, event) →
      inv (events ++ [event]) t)
    {events : List ω} {s : σ} (run : Run step allowed start events s) : inv events s := by
  induction run with
  | nil => exact initial
  | snoc earlier permitted now ih => exact preserved _ _ _ _ _ ih permitted now

theorem one {s t : σ} {input : ι} {event : ω} (permitted : allowed s input) (now : step s input = some (t, event)) :
    Run step allowed s [event] t :=
  .snoc .nil permitted now

theorem trans {events more : List ω} {s t : σ} (first : Run step allowed start events s)
    (second : Run step allowed s more t) : Run step allowed start (events ++ more) t := by
  induction second with
  | nil => simpa using first
  | snoc earlier permitted now ih =>
    rw [← List.append_assoc]
    exact .snoc ih permitted now

/-- Every event of a run was the answer of a step from a state that the events
    before it reach. -/
theorem at_event {events : List ω} {t : σ} (run : Run step allowed start events t) :
    ∀ {before after : List ω} {event : ω}, events = before ++ event :: after →
      ∃ s input s', Run step allowed start before s ∧ allowed s input ∧ step s input = some (s', event) := by
  induction run with
  | nil => intro before after event split; simp at split
  | @snoc events s t input last earlier permitted now ih =>
    intro before after event split
    rcases split_snoc split with ⟨rfl, rfl, rfl⟩ | ⟨front, rfl, inside⟩
    · exact ⟨s, input, t, earlier, permitted, now⟩
    · exact ih inside

end Run

/-- The states of a relation reached from `start` by some operations. -/
inductive Trace {α : Type u} {ο : Type v} (apply : α → ο → α → Prop) (start : α) : List ο → α → Prop
  | nil : Trace apply start [] start
  | snoc {ops : List ο} {a b : α} {op : ο} (earlier : Trace apply start ops a) (now : apply a op b) :
      Trace apply start (ops ++ [op]) b

/-- `view` maps the runs of a system to traces of an abstract one, where an event
    stands for the operation that `label` gives it, if any. -/
theorem Run.refines {step : σ → ι → Option (σ × ω)} {allowed : σ → ι → Prop} {start : σ} {α ο : Type*}
    {apply : α → ο → α → Prop} (view : σ → α) (label : ω → Option ο)
    (simulated : ∀ s input t event, allowed s input → step s input = some (t, event) →
      (label event = none ∧ view t = view s) ∨ ∃ op, label event = some op ∧ apply (view s) op (view t))
    {events : List ω} {s : σ} (run : Run step allowed start events s) :
    Trace apply (view start) (events.filterMap label) (view s) := by
  induction run with
  | nil => exact .nil
  | snoc earlier permitted now ih =>
    rw [List.filterMap_append]
    rcases simulated _ _ _ _ permitted now with ⟨silent, same⟩ | ⟨op, labelled, applied⟩
    · simpa [silent, same] using ih
    · simpa [labelled] using ih.snoc applied

/-- The runs of a system follow traces of an abstract one when each step from a related
    state does what the operation of its event does, or nothing there. -/
theorem Run.simulated {step : σ → ι → Option (σ × ω)} {allowed : σ → ι → Prop} {start : σ} {α ο : Type*}
    {apply : α → ο → α → Prop} {initial : α} (related : σ → α → Prop) (label : ω → Option ο)
    (begins : related start initial)
    (simulates : ∀ s input t event a, allowed s input → step s input = some (t, event) → related s a →
      (label event = none ∧ related t a) ∨ ∃ op b, label event = some op ∧ apply a op b ∧ related t b)
    {events : List ω} {s : σ} (run : Run step allowed start events s) :
    ∃ a, Trace apply initial (events.filterMap label) a ∧ related s a := by
  induction run with
  | nil => exact ⟨initial, .nil, begins⟩
  | @snoc events s t input event earlier permitted now ih =>
    obtain ⟨a, trace, held⟩ := ih
    rw [List.filterMap_append]
    rcases simulates s input t event a permitted now held with ⟨silent, still⟩ | ⟨op, b, labelled, applied, holds⟩
    · exact ⟨a, by simpa [silent] using trace, still⟩
    · exact ⟨b, by simpa [labelled] using trace.snoc applied, holds⟩

def exec (step : σ → ι → Option (σ × ω)) (check : σ → ι → Bool) (start : σ) : List ι → Option (List ω × σ)
  | [] => some ([], start)
  | input :: rest =>
    if check start input then
      match step start input with
      | none => none
      | some (s, event) => (exec step check s rest).map fun (events, t) => (event :: events, t)
    else none

theorem Run.of_exec {step : σ → ι → Option (σ × ω)} {allowed : σ → ι → Prop} (check : σ → ι → Bool)
    (sound : ∀ s input, check s input = true → allowed s input) (inputs : List ι) {start : σ} {events : List ω} {t : σ}
    (executed : exec step check start inputs = some (events, t)) : Run step allowed start events t := by
  induction inputs generalizing start events with
  | nil =>
    simp only [exec, Option.some.injEq, Prod.mk.injEq] at executed
    obtain ⟨rfl, rfl⟩ := executed
    exact .nil
  | cons input rest ih =>
    rw [exec] at executed
    split at executed
    · next checked =>
      split at executed
      · cases executed
      · next s event now =>
        obtain ⟨⟨later, u⟩, run, same⟩ := Option.map_eq_some_iff.mp executed
        simp only [Prod.mk.injEq] at same
        obtain ⟨rfl, rfl⟩ := same
        exact (Run.one (sound start input checked) now).trans (ih run)
    · cases executed

/-- The state that some inputs lead to. -/
def reached (step : σ → ι → Option (σ × ω)) (check : σ → ι → Bool) (start : σ) (inputs : List ι) : σ :=
  ((exec step check start inputs).map Prod.snd).getD start

theorem run_reached {step : σ → ι → Option (σ × ω)} {allowed : σ → ι → Prop} [∀ s, DecidablePred (allowed s)]
    {inputs : List ι} {start : σ}
    (possible : (exec step (fun s input => decide (allowed s input)) start inputs).isSome) :
    ∃ events, Run step allowed start events (reached step (fun s input => decide (allowed s input)) start inputs) := by
  obtain ⟨⟨events, t⟩, executed⟩ := Option.isSome_iff_exists.mp possible
  refine ⟨events, ?_⟩
  rw [reached, executed]
  exact .of_exec _ (fun _ _ checked => of_decide_eq_true checked) inputs executed

end Hde.Runs
