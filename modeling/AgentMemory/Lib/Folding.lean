import Mathlib.Data.Nat.Basic

/-!
# Folded spaces

Points of a space are folded into places, as a plane is rolled into a band. Where every point
can be moved to the representative of its place by a symmetry, a map that keeps distances and
places, being near in the folded space is a relation between places: `near_comm`.
-/

namespace Folding

variable {X Y : Type} (dist : X → X → Nat) (fold : X → Y)

/-- A map of the points that keeps their distances and the places they fold to. -/
structure Symmetry where
  move : X → X
  dist_move : ∀ x y, dist (move x) (move y) = dist x y
  fold_move : ∀ x, fold (move x) = fold x

/-- A symmetry moves the one point to the other. -/
def Aligned (x y : X) : Prop := ∃ g : Symmetry dist fold, g.move x = y

/-- A point that folds to the place lies within a distance. -/
def Near (d : Nat) (x : X) (b : Y) : Prop := ∃ y, dist x y ≤ d ∧ fold y = b

variable {dist fold}

/-- One symmetry after the other. -/
def Symmetry.comp (g h : Symmetry dist fold) : Symmetry dist fold where
  move x := h.move (g.move x)
  dist_move x y := by rw [h.dist_move, g.dist_move]
  fold_move x := by rw [h.fold_move, g.fold_move]

theorem Aligned.trans {x y z : X} (hxy : Aligned dist fold x y) (hyz : Aligned dist fold y z) :
    Aligned dist fold x z := by
  obtain ⟨g, hg⟩ := hxy
  obtain ⟨h, hh⟩ := hyz
  refine ⟨g.comp h, ?_⟩
  rw [← hh, ← hg]
  rfl

theorem near_self (hself : ∀ x, dist x x = 0) (d : Nat) (x : X) : Near dist fold d x (fold x) :=
  ⟨x, by rw [hself]; exact Nat.zero_le d, rfl⟩

theorem Near.mono {d d' : Nat} {x : X} {b : Y} (h : Near dist fold d x b) (hd : d ≤ d') :
    Near dist fold d' x b := by
  obtain ⟨y, hy, hb⟩ := h
  exact ⟨y, Nat.le_trans hy hd, hb⟩

/-- From the representative of a place near another one, that other place is as near. -/
theorem Near.symm {rep : Y → X} (hcomm : ∀ x y, dist x y = dist y x)
    (halign : ∀ x, Aligned dist fold x (rep (fold x))) {d : Nat} {x : X} {b : Y}
    (h : Near dist fold d x b) : Near dist fold d (rep b) (fold x) := by
  obtain ⟨y, hy, hb⟩ := h
  obtain ⟨g, hg⟩ := halign y
  refine ⟨g.move x, ?_, g.fold_move x⟩
  rw [← hb, ← hg, g.dist_move, hcomm]
  exact hy

/-- Of two places, either both are near the other's representative or none is. -/
theorem near_comm {rep : Y → X} (hcomm : ∀ x y, dist x y = dist y x)
    (halign : ∀ x, Aligned dist fold x (rep (fold x))) {d : Nat} {a b : Y}
    (ha : fold (rep a) = a) (hb : fold (rep b) = b) :
    Near dist fold d (rep a) b ↔ Near dist fold d (rep b) a := by
  constructor
  · intro h
    have hback := h.symm hcomm halign
    rwa [ha] at hback
  · intro h
    have hback := h.symm hcomm halign
    rwa [hb] at hback

end Folding
