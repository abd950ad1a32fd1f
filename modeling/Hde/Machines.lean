import Mathlib.Data.List.Induction

/-!
Machines that answer every input, and what an observer sees of them who looks at
a part of the state and at the answers to some of the inputs. If the inputs that
he does not see leave his part alone, and those that he sees are answered by his
part, then deleting what he does not see changes nothing for him (`purge`).
-/
namespace Hde.Machines

variable {σ ι ρ υ : Type*}

/-- The state after some inputs. -/
def after (step : σ → ι → σ × ρ) (s : σ) (inputs : List ι) : σ := inputs.foldl (fun s input => (step s input).1) s

def answers (step : σ → ι → σ × ρ) : σ → List ι → List (ι × ρ)
  | _, [] => []
  | s, input :: rest => (input, (step s input).2) :: answers step (step s input).1 rest

variable {step : σ → ι → σ × ρ}

@[simp] theorem after_nil (s : σ) : after step s [] = s := rfl

@[simp] theorem after_cons (s : σ) (input : ι) (rest : List ι) :
    after step s (input :: rest) = after step (step s input).1 rest := rfl

theorem after_append (s : σ) (first second : List ι) :
    after step s (first ++ second) = after step (after step s first) second := by
  simp [after]

theorem answers_append (s : σ) (first second : List ι) :
    answers step s (first ++ second) = answers step s first ++ answers step (after step s first) second := by
  induction first generalizing s with
  | nil => rfl
  | cons input rest ih => simp [answers, ih]

theorem answers_inputs (s : σ) (inputs : List ι) : (answers step s inputs).map Prod.fst = inputs := by
  induction inputs generalizing s with
  | nil => rfl
  | cons input rest ih => simp [answers, ih]

/-- Every answer was given in the state that the inputs before it lead to. -/
theorem mem_answers {s : σ} {inputs : List ι} {input : ι} {answer : ρ}
    (member : (input, answer) ∈ answers step s inputs) :
    ∃ before rest, inputs = before ++ input :: rest ∧ answer = (step (after step s before) input).2 := by
  induction inputs generalizing s with
  | nil => cases member
  | cons first rest ih =>
    rcases List.mem_cons.mp member with same | later
    · obtain ⟨rfl, rfl⟩ := Prod.mk.inj same
      exact ⟨[], rest, rfl, rfl⟩
    · obtain ⟨before, rest, rfl, rfl⟩ := ih later
      exact ⟨first :: before, rest, rfl, rfl⟩

/-- An observer of `view` and of the visible inputs learns nothing of the others. -/
structure Isolated (step : σ → ι → σ × ρ) (view : σ → υ) (visible : ι → Bool) : Prop where
  silent : ∀ s input, visible input = false → view (step s input).1 = view s
  answered : ∀ s t input, visible input = true → view s = view t →
    (step s input).2 = (step t input).2 ∧ view (step s input).1 = view (step t input).1

/-- Without the inputs that an observer does not see, he sees the same. -/
theorem purge {view : σ → υ} {visible : ι → Bool} (isolated : Isolated step view visible) (inputs : List ι) {s t : σ}
    (same : view s = view t) :
    (answers step s inputs).filter (fun answer => visible answer.1) = answers step t (inputs.filter visible) ∧
      view (after step s inputs) = view (after step t (inputs.filter visible)) := by
  induction inputs generalizing s t with
  | nil => exact ⟨rfl, same⟩
  | cons input rest ih =>
    cases seen : visible input with
    | false =>
      obtain ⟨answered, viewed⟩ := ih ((isolated.silent s input seen).trans same)
      exact ⟨by simpa [answers, seen] using answered, by simpa [seen] using viewed⟩
    | true =>
      obtain ⟨agree, next⟩ := isolated.answered s t input seen same
      obtain ⟨answered, viewed⟩ := ih next
      exact ⟨by simpa [answers, seen, agree] using answered, by simpa [seen] using viewed⟩

end Hde.Machines
