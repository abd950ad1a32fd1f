import Mathlib.Data.List.Nodup
import Mathlib.Logic.Function.Basic
import Hde.Runs

/-!
A first-in first-out queue with several takers, seen through the operations on
it. A taker holds what it takes until it hands all of that over. What was taken,
in order, followed by what is left is what was put (`accounts`), and what a taker
took is what it handed over followed by what it holds (`takenBy_eq`). So every
taker hands over a subsequence of what was put (`handedOver_sublist`), and when
the puts are distinct no item is handed over twice (`handedOver_nodup`) or by
two takers (`handedOver_disjoint`).
-/
namespace Hde.Fifo

variable {τ α : Type*}

inductive Op (τ α : Type*) where
  | put (x : α)
  | get (taker : τ) (x : α)
  | handOver (taker : τ) (xs : List α)

def puts (ops : List (Op τ α)) : List α :=
  ops.filterMap fun
    | .put x => some x
    | _ => none

def gets (ops : List (Op τ α)) : List (τ × α) :=
  ops.filterMap fun
    | .get taker x => some (taker, x)
    | _ => none

def removed (ops : List (Op τ α)) : List α := (gets ops).map Prod.snd

@[simp] theorem puts_append (ops more : List (Op τ α)) : puts (ops ++ more) = puts ops ++ puts more := by
  simp [puts]

@[simp] theorem removed_append (ops more : List (Op τ α)) : removed (ops ++ more) = removed ops ++ removed more := by
  simp [removed, gets]

@[ext] structure Store (τ α : Type*) where
  queue : List α
  holds : τ → List α

def Store.empty : Store τ α := ⟨[], fun _ => []⟩

variable [DecidableEq τ]

/-- What an operation changes: only the first item can be taken, and a taker
    hands over all it holds. -/
inductive Apply (s : Store τ α) : Op τ α → Store τ α → Prop
  | put (x : α) : Apply s (.put x) ⟨s.queue ++ [x], s.holds⟩
  | get (taker : τ) {x : α} {rest : List α} (first : s.queue = x :: rest) :
      Apply s (.get taker x) ⟨rest, Function.update s.holds taker (s.holds taker ++ [x])⟩
  | handOver (taker : τ) : Apply s (.handOver taker (s.holds taker)) ⟨s.queue, Function.update s.holds taker []⟩

theorem Apply.handed {s t : Store τ α} {taker : τ} {xs : List α} (now : Apply s (.handOver taker xs) t) :
    s.holds taker = xs := by
  cases now
  rfl

/-- The operations on a new queue, and what they lead to. -/
abbrev Replay : List (Op τ α) → Store τ α → Prop := Runs.Trace Apply Store.empty

def takenBy (taker : τ) (ops : List (Op τ α)) : List α := ((gets ops).filter (·.1 = taker)).map Prod.snd

/-- The items that a taker handed over, in order. -/
def handedOver (taker : τ) (ops : List (Op τ α)) : List α :=
  ops.flatMap fun
    | .handOver other xs => if other = taker then xs else []
    | _ => []

@[simp] theorem takenBy_append (taker : τ) (ops more : List (Op τ α)) :
    takenBy taker (ops ++ more) = takenBy taker ops ++ takenBy taker more := by
  simp [takenBy, gets]

@[simp] theorem handedOver_append (taker : τ) (ops more : List (Op τ α)) :
    handedOver taker (ops ++ more) = handedOver taker ops ++ handedOver taker more := by
  simp [handedOver]

variable {ops : List (Op τ α)} {s : Store τ α}

/-- Taken, then left, is put. -/
theorem accounts (replay : Replay ops s) : removed ops ++ s.queue = puts ops := by
  induction replay with
  | nil => rfl
  | snoc earlier now ih =>
    rw [puts_append, removed_append, ← ih]
    cases now with
    | put x => simp [removed, gets, puts]
    | get taker first => simp [removed, gets, puts, first]
    | handOver taker => simp [removed, gets, puts]

/-- Handed over, then held, is taken. -/
theorem takenBy_eq (replay : Replay ops s) (taker : τ) :
    takenBy taker ops = handedOver taker ops ++ s.holds taker := by
  induction replay with
  | nil => rfl
  | snoc earlier now ih =>
    rw [takenBy_append, handedOver_append, ih]
    cases now with
    | put x => simp [takenBy, gets, handedOver]
    | get other first =>
      by_cases same : taker = other
      · subst same
        simp [takenBy, gets, handedOver]
      · simp [takenBy, gets, handedOver, same, Ne.symm same]
    | handOver other =>
      by_cases same : taker = other
      · subst same
        simp [takenBy, gets, handedOver]
      · simp [takenBy, gets, handedOver, same, Ne.symm same]

theorem takenBy_sublist_removed (taker : τ) (ops : List (Op τ α)) : (takenBy taker ops).Sublist (removed ops) :=
  List.filter_sublist.map _

theorem removed_sublist (replay : Replay ops s) : (removed ops).Sublist (puts ops) := by
  rw [← accounts replay]
  exact List.sublist_append_left _ _

theorem handedOver_sublist_takenBy (replay : Replay ops s) (taker : τ) :
    (handedOver taker ops).Sublist (takenBy taker ops) := by
  rw [takenBy_eq replay]
  exact List.sublist_append_left _ _

theorem handedOver_sublist (replay : Replay ops s) (taker : τ) : (handedOver taker ops).Sublist (puts ops) :=
  (handedOver_sublist_takenBy replay taker).trans
    ((takenBy_sublist_removed taker ops).trans (removed_sublist replay))

theorem mem_takenBy {taker : τ} {x : α} : x ∈ takenBy taker ops ↔ (taker, x) ∈ gets ops := by
  simp [takenBy]

theorem mem_puts_of_holds (replay : Replay ops s) {taker : τ} {x : α} (holds : x ∈ s.holds taker) : x ∈ puts ops := by
  have took : x ∈ takenBy taker ops := by
    rw [takenBy_eq replay]
    exact List.mem_append_right _ holds
  exact (removed_sublist replay).subset ((takenBy_sublist_removed taker ops).subset took)

section Distinct
variable (distinct : (puts ops).Nodup)
include distinct

theorem handedOver_nodup (replay : Replay ops s) (taker : τ) : (handedOver taker ops).Nodup :=
  distinct.sublist (handedOver_sublist replay taker)

theorem takenBy_disjoint (replay : Replay ops s) {first second : τ} (different : first ≠ second) {x : α}
    (taken : x ∈ takenBy first ops) : x ∉ takenBy second ops := by
  intro again
  have once : (removed ops).Nodup := distinct.sublist (removed_sublist replay)
  have same := List.inj_on_of_nodup_map once (mem_takenBy.mp taken) (mem_takenBy.mp again) rfl
  exact different (congrArg Prod.fst same)

theorem handedOver_disjoint (replay : Replay ops s) {first second : τ} (different : first ≠ second) {x : α}
    (given : x ∈ handedOver first ops) : x ∉ takenBy second ops :=
  takenBy_disjoint distinct replay different ((handedOver_sublist_takenBy replay first).subset given)

end Distinct
end Hde.Fifo
