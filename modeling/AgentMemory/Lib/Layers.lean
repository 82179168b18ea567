import Mathlib.Order.Nat
import Mathlib.Data.Nat.Find

/-!
# Layers of a graph

What a breadth-first search visits round by round: the nodes at distance `n` are those to
which the shortest walk from the start has `n` steps. `atDistance_succ` gives the next layer
from the last one and from what has been seen, and after an empty layer all are empty.
-/

namespace Layers

variable {α : Type} (next : α → α → Prop) (start : α → Prop)

/-- There is a walk of `n` steps from the start to the node. -/
inductive Walk : Nat → α → Prop
  | start {v : α} : start v → Walk 0 v
  | step {n : Nat} {u v : α} : Walk n u → next u v → Walk (n + 1) v

/-- The shortest walk to the node has `n` steps. -/
def AtDistance (n : Nat) (v : α) : Prop :=
  Walk next start n v ∧ ∀ m < n, ¬ Walk next start m v

variable {next start}

/-- A node to which there is a walk has a distance no longer than that. -/
theorem exists_atDistance {n : Nat} {v : α} (h : Walk next start n v) :
    ∃ m ≤ n, AtDistance next start m v := by
  classical
  have hsome : ∃ m, Walk next start m v := ⟨n, h⟩
  exact ⟨Nat.find hsome, Nat.find_min' hsome h, Nat.find_spec hsome, fun m hm => Nat.find_min hsome hm⟩

theorem atDistance_zero {v : α} : AtDistance next start 0 v ↔ start v := by
  constructor
  · rintro ⟨⟨hstart⟩, -⟩
    exact hstart
  · intro hstart
    exact ⟨.start hstart, fun m hm => absurd hm m.not_lt_zero⟩

/-- The next layer: the neighbours of the last one that are in no layer yet. -/
theorem atDistance_succ {n : Nat} {v : α} :
    AtDistance next start (n + 1) v ↔
      (∃ u, AtDistance next start n u ∧ next u v) ∧ ∀ m ≤ n, ¬ AtDistance next start m v := by
  constructor
  · rintro ⟨hwalk, hshortest⟩
    refine ⟨?_, fun m hm hv => hshortest m (by omega) hv.1⟩
    cases hwalk with
    | step hu hnext =>
      -- A shorter walk to the neighbour would give one to the node.
      exact ⟨_, ⟨hu, fun m hm hwalk => hshortest (m + 1) (by omega) (hwalk.step hnext)⟩, hnext⟩
  · rintro ⟨⟨u, hu, hnext⟩, hnew⟩
    refine ⟨hu.1.step hnext, fun m hm hwalk => ?_⟩
    obtain ⟨k, hk, hv⟩ := exists_atDistance hwalk
    exact hnew k (by omega) hv

theorem atDistance_unique {m n : Nat} {v : α} (hm : AtDistance next start m v)
    (hn : AtDistance next start n v) : m = n := by
  obtain hlt | heq | hlt := Nat.lt_trichotomy m n
  · exact absurd hm.1 (hn.2 m hlt)
  · exact heq
  · exact absurd hn.1 (hm.2 n hlt)

/-- After an empty layer all are empty. -/
theorem not_atDistance_of_le {m n : Nat} (hempty : ∀ v, ¬ AtDistance next start m v) (hmn : m ≤ n) (v : α) :
    ¬ AtDistance next start n v := by
  induction n, hmn using Nat.le_induction generalizing v with
  | base => exact hempty v
  | succ n _ ih =>
    rw [atDistance_succ]
    rintro ⟨⟨u, hu, -⟩, -⟩
    exact ih u hu

end Layers
