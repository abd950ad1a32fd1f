import Hde.Runs
import Mathlib.Data.List.Nodup
import Mathlib.Data.List.Perm.Basic

/-!
Tasks that run in any order: a pool of tasks under way, where a task that is run may
change the state, start tasks and give answers. What a task owes passes to the tasks
and to the answers that it leaves, so that if every task keeps its balance, the whole
pool does (`total_step`).
-/
namespace Hde.Tasks

variable {σ τ α κ : Type*}

structure Pool (σ τ α : Type*) where
  state : σ
  tasks : List τ
  answers : List α

/-- What a task leaves: the state, the tasks it started and the answers it gave. -/
structure Effect (σ τ α : Type*) where
  state : σ
  tasks : List τ
  answers : List α

def Pool.without (pool : Pool σ τ α) (i : Nat) : Pool σ τ α := { pool with tasks := pool.tasks.eraseIdx i }

def Pool.apply (pool : Pool σ τ α) (effect : Effect σ τ α) : Pool σ τ α :=
  ⟨effect.state, pool.tasks ++ effect.tasks, pool.answers ++ effect.answers⟩

variable {due : τ → List κ} {paid : α → List κ} {pool : Pool σ τ α} {effect : Effect σ τ α} {i : Nat} {task : τ}

/-- What the tasks of a pool owe after a step: as before, less the task that ran and
    with those that it started. -/
theorem due_step (due : τ → List κ) (effect : Effect σ τ α) (there : pool.tasks[i]? = some task) :
    (((pool.without i).apply effect).tasks.flatMap due ++ due task).Perm
      (pool.tasks.flatMap due ++ effect.tasks.flatMap due) := by
  obtain ⟨inside, rfl⟩ := List.getElem?_eq_some_iff.mp there
  have taken := (List.getElem_cons_eraseIdx_perm inside).flatMap_right due
  rw [List.flatMap_cons] at taken
  simp only [Pool.apply, Pool.without, List.flatMap_append]
  refine List.perm_append_comm.trans ?_
  rw [← List.append_assoc]
  exact taken.append_right _

/-- What the tasks of a pool owe and what its answers have paid. -/
def total (due : τ → List κ) (paid : α → List κ) (tasks : List τ) (answers : List α) : List κ :=
  answers.flatMap paid ++ tasks.flatMap due

theorem total_append (due : τ → List κ) (paid : α → List κ) (tasks more : List τ) (answers others : List α) :
    (total due paid (tasks ++ more) (answers ++ others)).Perm
      (total due paid tasks answers ++ total due paid more others) := by
  simp only [total, List.flatMap_append, List.append_assoc]
  refine List.Perm.append_left _ ?_
  rw [← List.append_assoc, ← List.append_assoc]
  exact List.perm_append_comm.append_right _

/-- If what a task leaves owes and pays what it owed, the pool is in balance as before. -/
theorem total_step (there : pool.tasks[i]? = some task)
    (balanced : (total due paid effect.tasks effect.answers).Perm (due task)) :
    (total due paid ((pool.without i).apply effect).tasks ((pool.without i).apply effect).answers).Perm
      (total due paid pool.tasks pool.answers) := by
  classical
  have owed := due_step due effect there
  simp only [total, List.perm_iff_count, List.count_append, Pool.apply, Pool.without, List.flatMap_append] at *
  intro item
  have := owed item
  have := balanced item
  omega

theorem mem_tasks_step {other : τ} (member : other ∈ ((pool.without i).apply effect).tasks) :
    other ∈ pool.tasks ∨ other ∈ effect.tasks :=
  (List.mem_append.mp member).imp_left fun old => (List.eraseIdx_sublist _ _).subset old

/-- A task that is there before a step is there after it, unless it is the one that ran. -/
theorem mem_tasks_or {other : τ} (there : pool.tasks[i]? = some task) (member : other ∈ pool.tasks) :
    other = task ∨ other ∈ ((pool.without i).apply effect).tasks := by
  obtain ⟨inside, rfl⟩ := List.getElem?_eq_some_iff.mp there
  rcases List.mem_cons.mp ((List.getElem_cons_eraseIdx_perm inside).mem_iff.mpr member) with same | left
  · exact .inl same
  · exact .inr (List.mem_append_left _ left)

/-- Of a list without repetitions, what its elements owe when one of them changes. -/
theorem flatMap_exchange {keys : List τ} (distinct : keys.Nodup) {key : τ} (member : key ∈ keys)
    (before after : τ → List κ) (elsewhere : ∀ other, other ≠ key → after other = before other) :
    (keys.flatMap after ++ before key).Perm (keys.flatMap before ++ after key) := by
  obtain ⟨front, back, rfl⟩ := List.append_of_mem member
  have different : ∀ other ∈ front ++ back, other ≠ key := by
    have apart := List.nodup_middle.mp distinct
    rintro other inside rfl
    exact (List.nodup_cons.mp apart).1 inside
  have fronts : front.flatMap after = front.flatMap before :=
    List.flatMap_congr fun other inside => elsewhere other (different other (List.mem_append_left _ inside))
  have backs : back.flatMap after = back.flatMap before :=
    List.flatMap_congr fun other inside => elsewhere other (different other (List.mem_append_right _ inside))
  classical
  simp only [List.flatMap_append, List.flatMap_cons, fronts, backs, List.perm_iff_count, List.count_append]
  intro item
  omega

end Hde.Tasks
