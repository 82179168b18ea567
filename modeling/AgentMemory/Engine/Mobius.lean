import AgentMemory.Engine.Vault
import AgentMemory.Lib.Folding
import Mathlib.Data.List.Dedup
import Mathlib.Data.Int.Init

/-!
# Möbius neighbourhoods

`neighbors` of `mobius.py`: the addresses within a number of steps on a band that is glued with
a twist along its u axis, mirrored at the edges of its v axis and closed along its w axis. The
band is the space of all integer points folded by `wrap`, and `neighbors_proximity` reads the
neighbourhoods off this: twists, mirrors and turns are symmetries of the folding.
-/

namespace AgentMemory

open Folding PyText

deriving instance DecidableEq for MobiusAddress

/-- `range(-depth, depth + 1)`. -/
def offsets (depth : Nat) : List Int := (List.range (2 * depth + 1)).map fun (k : Nat) => (k : Int) - depth

/-- The order of addresses as tuples. -/
def MobiusAddress.le (a b : MobiusAddress) : Bool :=
  if a.iu ≠ b.iu then a.iu ≤ b.iu
  else if a.iv ≠ b.iv then a.iv ≤ b.iv
  else if a.iw ≠ b.iw then a.iw ≤ b.iw
  else a.region ≤ b.region

namespace MobiusIndex

/-- `_reflect_axis` (`mobius.py:79-86`). -/
def reflectAxis (value : Int) (size : Nat) : Nat :=
  if size ≤ 1 then 0
  else
    let period : Int := 2 * (size - 1)
    let position := value % period
    if size ≤ position then (period - position).toNat else position.toNat

variable (index : MobiusIndex)

/-- `_wrap` (`mobius.py:66-77`). -/
def wrap (iu iv iw : Int) (region : Text) : MobiusAddress :=
  let wraps := iu / index.uSize
  let newV := if wraps % 2 = 0 then iv else index.vSize - 1 - iv
  { iu := (iu % index.uSize).toNat
    iv := reflectAxis newV index.vSize
    iw := (iw % index.wSize).toNat
    region := region }

/-- `neighbors` (`mobius.py:54-64`) with a depth that is not negative. -/
def neighbors (address : MobiusAddress) (depth : Nat) : List MobiusAddress :=
  let items := (offsets depth).flatMap fun du => (offsets depth).flatMap fun dv =>
    (offsets depth).flatMap fun dw =>
      if depth < du.natAbs + dv.natAbs + dw.natAbs then []
      else [index.wrap (address.iu + du) (address.iv + dv) (address.iw + dw) address.region]
  items.dedup.mergeSort MobiusAddress.le

/-- An address on the band. -/
def InRange (a : MobiusAddress) : Prop :=
  a.iu < index.uSize ∧ a.iv < index.vSize ∧ a.iw < index.wSize

/-! ### The v axis -/

theorem reflectAxis_lt {size : Nat} (hsize : 0 < size) (value : Int) :
    reflectAxis value size < size := by
  unfold reflectAxis
  split
  · exact hsize
  · rename_i hlarge
    have hperiod : (0 : Int) < 2 * (size - 1) := by omega
    have hnonneg := Int.emod_nonneg value hperiod.ne'
    have hlt := Int.emod_lt_of_pos value hperiod
    simp only
    split <;> omega

theorem reflectAxis_of_lt {size : Nat} {value : Int} (hvalue : 0 ≤ value) (hlt : value < size) :
    (reflectAxis value size : Int) = value := by
  unfold reflectAxis
  split
  · omega
  · rename_i hlarge
    have hmod : value % (2 * ((size : Int) - 1)) = value := Int.emod_eq_of_lt hvalue (by omega)
    simp only [hmod]
    rw [if_neg (by omega)]
    omega

theorem reflectAxis_add_period (value : Int) (size : Nat) (k : Int) :
    reflectAxis (value + 2 * (size - 1) * k) size = reflectAxis value size := by
  unfold reflectAxis
  simp only [Int.add_mul_emod_self_left]

theorem reflectAxis_neg (value : Int) (size : Nat) :
    reflectAxis (-value) size = reflectAxis value size := by
  unfold reflectAxis
  split
  · rfl
  · rename_i hlarge
    have hperiod : (0 : Int) < 2 * (size - 1) := by omega
    have hnonneg := Int.emod_nonneg value hperiod.ne'
    have hlt := Int.emod_lt_of_pos value hperiod
    have hneg : -value % (2 * ((size : Int) - 1)) =
        if value % (2 * ((size : Int) - 1)) = 0 then 0
        else 2 * (size - 1) - value % (2 * ((size : Int) - 1)) := by
      simp only [Int.neg_emod, Int.dvd_iff_emod_eq_zero]
      split_ifs <;> omega
    simp only [hneg]
    split_ifs <;> omega

/-- A movement along the v axis that keeps distances and how both sides of the band fold. -/
structure Slide (size : Nat) where
  move : Int → Int
  dist_move : ∀ v v', (move v' - move v).natAbs = (v' - v).natAbs
  reflect_move : ∀ v, reflectAxis (move v) size = reflectAxis v size
  mirror_move : ∀ v, reflectAxis (size - 1 - move v) size = reflectAxis (size - 1 - v) size

/-- Moving by a number of periods. -/
def Slide.shift (size : Nat) (k : Int) : Slide size where
  move v := v + 2 * (size - 1) * k
  dist_move v v' := by rw [add_sub_add_right_eq_sub]
  reflect_move v := reflectAxis_add_period v size k
  mirror_move v := by
    rw [← reflectAxis_add_period (size - 1 - v) size (-k)]
    congr 1
    ring

/-- Turning around, and moving by a number of periods. -/
def Slide.flip (size : Nat) (k : Int) : Slide size where
  move v := -v + 2 * (size - 1) * k
  dist_move v v' := by
    rw [add_sub_add_right_eq_sub]
    omega
  reflect_move v := by rw [reflectAxis_add_period, reflectAxis_neg]
  mirror_move v := by
    -- The mirror images of `v` and `-v` lie opposite each other, one period apart.
    rw [← reflectAxis_neg (size - 1 - v), ← reflectAxis_add_period (-(size - 1 - v)) size (1 - k)]
    congr 1
    ring

/-- A band of one place folds everything onto it. -/
def Slide.collapse {size : Nat} (hsize : size ≤ 1) (v : Int) : Slide size where
  move v' := v' - v
  dist_move v' v'' := by rw [sub_sub_sub_cancel_right]
  reflect_move v' := by
    unfold reflectAxis
    rw [if_pos hsize, if_pos hsize]
  mirror_move v' := by
    unfold reflectAxis
    rw [if_pos hsize, if_pos hsize]

/-- Every point of the axis slides to where it folds. -/
theorem exists_slide (size : Nat) (v : Int) : ∃ g : Slide size, g.move v = reflectAxis v size := by
  by_cases hone : size ≤ 1
  · refine ⟨Slide.collapse hone v, ?_⟩
    unfold reflectAxis Slide.collapse
    rw [if_pos hone]
    exact sub_self v
  · have hsplit := Int.emod_add_mul_ediv v (2 * (size - 1))
    have hnonneg := Int.emod_nonneg v (show 2 * ((size : Int) - 1) ≠ 0 by omega)
    have hlt := Int.emod_lt_of_pos v (show 0 < 2 * ((size : Int) - 1) by omega)
    unfold reflectAxis
    rw [if_neg hone]
    by_cases hrange : (size : Int) ≤ v % (2 * (size - 1))
    · refine ⟨Slide.flip size (v / (2 * (size - 1)) + 1), ?_⟩
      simp only [Slide.flip, if_pos hrange, mul_add]
      omega
    · refine ⟨Slide.shift size (-(v / (2 * (size - 1)))), ?_⟩
      simp only [Slide.shift, if_neg hrange, mul_neg]
      omega

/-! ### Symmetries of the band -/

/-- How many steps apart two points are. -/
def steps (p q : Int × Int × Int) : Nat :=
  (q.1 - p.1).natAbs + (q.2.1 - p.2.1).natAbs + (q.2.2 - p.2.2).natAbs

/-- The address that a point has in a region. -/
def wrapPoint (region : Text) (p : Int × Int × Int) : MobiusAddress :=
  index.wrap p.1 p.2.1 p.2.2 region

/-- The point of an address. -/
def point (a : MobiusAddress) : Int × Int × Int := (a.iu, a.iv, a.iw)

variable {index} {region : Text}

/-- Going around the u axis mirrors the v axis where the number of rounds is odd. -/
def twist (index : MobiusIndex) (region : Text) (rounds : Int) :
    Symmetry steps (index.wrapPoint region) where
  move p := (p.1 + rounds * index.uSize, if rounds % 2 = 0 then p.2.1 else index.vSize - 1 - p.2.1, p.2.2)
  dist_move p q := by
    unfold steps
    rw [add_sub_add_right_eq_sub]
    split
    · rfl
    · simp only
      omega
  fold_move p := by
    have hu : (index.uSize : Int) ≠ 0 := by have := index.positive.1; omega
    unfold wrapPoint wrap
    simp only [Int.add_mul_ediv_right _ _ hu, Int.add_mul_emod_self_right]
    congr 2
    split_ifs <;> omega

/-- A slide along the v axis. -/
def slide (region : Text) (g : Slide index.vSize) : Symmetry steps (index.wrapPoint region) where
  move p := (p.1, g.move p.2.1, p.2.2)
  dist_move p q := by
    unfold steps
    rw [g.dist_move]
  fold_move p := by
    unfold wrapPoint wrap
    simp only
    congr 1
    split
    · exact g.reflect_move _
    · exact g.mirror_move _

/-- Going around the w axis. -/
def turn (index : MobiusIndex) (region : Text) (rounds : Int) :
    Symmetry steps (index.wrapPoint region) where
  move p := (p.1, p.2.1, p.2.2 + rounds * index.wSize)
  dist_move p q := by
    unfold steps
    rw [add_sub_add_right_eq_sub]
  fold_move p := by
    unfold wrapPoint wrap
    simp only [Int.add_mul_emod_self_right]

/-- A symmetry moves every point to the point of its address. -/
theorem aligned_point (p : Int × Int × Int) :
    Aligned steps (index.wrapPoint region) p (point (index.wrapPoint region p)) := by
  obtain ⟨hu, -, hw⟩ := index.positive
  obtain ⟨u, v, w⟩ := p
  have htwist : Aligned steps (index.wrapPoint region) (u, v, w) (u % index.uSize,
      if u / index.uSize % 2 = 0 then v else index.vSize - 1 - v, w) := by
    refine ⟨twist index region (-(u / index.uSize)), ?_⟩
    have hround := Int.emod_add_mul_ediv u index.uSize
    simp only [twist, Int.neg_emod_two, neg_mul, Prod.mk.injEq, and_true]
    rw [mul_comm (u / (index.uSize : Int))]
    omega
  refine htwist.trans ?_
  generalize hv : (if u / (index.uSize : Int) % 2 = 0 then v else index.vSize - 1 - v) = v'
  obtain ⟨g, hg⟩ := exists_slide index.vSize v'
  have hslide : Aligned steps (index.wrapPoint region) (u % index.uSize, v', w)
      (u % index.uSize, reflectAxis v' index.vSize, w) := by
    refine ⟨slide region g, ?_⟩
    simp only [slide, hg]
  refine hslide.trans ⟨turn index region (-(w / index.wSize)), ?_⟩
  have hround := Int.emod_add_mul_ediv w index.wSize
  have hnonnegU := Int.emod_nonneg u (show (index.uSize : Int) ≠ 0 by omega)
  have hnonnegW := Int.emod_nonneg w (show (index.wSize : Int) ≠ 0 by omega)
  simp only [turn, point, wrapPoint, wrap, hv, Int.toNat_of_nonneg hnonnegU,
    Int.toNat_of_nonneg hnonnegW, neg_mul, Prod.mk.injEq, true_and]
  rw [mul_comm (w / (index.wSize : Int))]
  omega

/-! ### Neighbourhoods -/

theorem mem_offsets {depth : Nat} {k : Int} : k ∈ offsets depth ↔ k.natAbs ≤ depth := by
  unfold offsets
  rw [List.mem_map]
  constructor
  · intro ⟨n, hn, hk⟩
    have hlt := List.mem_range.mp hn
    omega
  · intro hk
    refine ⟨(k + depth).toNat, List.mem_range.mpr ?_, ?_⟩ <;> omega

/-- The neighbours of an address are the addresses near its point. -/
theorem mem_neighbors {a b : MobiusAddress} {depth : Nat} :
    b ∈ index.neighbors a depth ↔ Near steps (index.wrapPoint a.region) depth (point a) b := by
  unfold neighbors
  simp only [List.mem_mergeSort, List.mem_dedup, List.mem_flatMap, mem_offsets]
  constructor
  · intro ⟨du, _, dv, _, dw, _, hb⟩
    split at hb
    · cases hb
    · rename_i hnear
      refine ⟨(a.iu + du, a.iv + dv, a.iw + dw), ?_, (List.mem_singleton.mp hb).symm⟩
      simp only [steps, point]
      omega
  · intro ⟨⟨u, v, w⟩, hnear, hb⟩
    simp only [steps, point] at hnear
    refine ⟨u - a.iu, by omega, v - a.iv, by omega, w - a.iw, by omega, ?_⟩
    rw [if_neg (by omega), List.mem_singleton, ← hb]
    simp only [wrapPoint, add_sub_cancel]

/-- A point wraps to an address on the band. -/
theorem inRange_wrapPoint (p : Int × Int × Int) : index.InRange (index.wrapPoint region p) := by
  obtain ⟨hu, hv, hw⟩ := index.positive
  have hltU := Int.emod_lt_of_pos p.1 (show (0 : Int) < index.uSize by omega)
  have hltW := Int.emod_lt_of_pos p.2.2 (show (0 : Int) < index.wSize by omega)
  refine ⟨?_, reflectAxis_lt hv _, ?_⟩
  · simp only [wrapPoint, wrap]
    omega
  · simp only [wrapPoint, wrap]
    omega

/-- An address on the band is the address of its point. -/
theorem wrapPoint_point {a : MobiusAddress} (h : index.InRange a) :
    index.wrapPoint a.region (point a) = a := by
  obtain ⟨iu, iv, iw, region⟩ := a
  obtain ⟨hu, hv, hw⟩ := h
  simp only at hu hv hw
  have hreflect := reflectAxis_of_lt (Int.natCast_nonneg iv) (show (iv : Int) < index.vSize by omega)
  have hdiv : (iu : Int) / index.uSize = 0 := Int.ediv_eq_zero_of_lt (by omega) (by omega)
  have hmodU : (iu : Int) % index.uSize = iu := Int.emod_eq_of_lt (by omega) (by omega)
  have hmodW : (iw : Int) % index.wSize = iw := Int.emod_eq_of_lt (by omega) (by omega)
  simp only [wrapPoint, wrap, point, hdiv, hmodU, hmodW, Int.toNat_natCast, Int.zero_emod, if_true]
  congr 1
  omega

theorem inRange_addressFor {F : Type} (py : Python F) (m : MemoryEnvelope F) :
    index.InRange (index.addressFor py m) := by
  obtain ⟨hu, hv, hw⟩ := index.positive
  refine ⟨Nat.mod_lt _ hu, ?_, Nat.mod_lt _ hw⟩
  have hband := Nat.min_le_left (index.vSize - 1) (min (band (regionFor m)) (index.vSize - 1) +
    ((Sha256.digest (Sha256.utf8 (stableJson py (material m)))).getD 4 0).toNat % max 1 (index.vSize / 8))
  simp only [addressFor, regionBand]
  omega

/-- Every envelope has an address on the band, and there the neighbourhoods of every depth are
reflexive, symmetric, growing with the depth, and stay in the region and on the band. -/
theorem neighbors_proximity {F : Type} (py : Python F) (index : MobiusIndex) :
    (∀ m : MemoryEnvelope F, index.InRange (index.addressFor py m)) ∧
      ∀ a depth, index.InRange a →
        (∀ b ∈ index.neighbors a depth, index.InRange b ∧ b.region = a.region) ∧
        a ∈ index.neighbors a depth ∧
        index.neighbors a depth ⊆ index.neighbors a (depth + 1) ∧
        ∀ b, index.InRange b → (b ∈ index.neighbors a depth ↔ a ∈ index.neighbors b depth) := by
  refine ⟨inRange_addressFor py, ?_⟩
  intro a depth ha
  have hregion {a b : MobiusAddress} (hb : b ∈ index.neighbors a depth) : b.region = a.region := by
    obtain ⟨p, -, rfl⟩ := mem_neighbors.mp hb
    rfl
  have hself (p : Int × Int × Int) : steps p p = 0 := by
    unfold steps
    omega
  have hcomm (p q : Int × Int × Int) : steps p q = steps q p := by
    unfold steps
    omega
  refine ⟨?_, ?_, ?_, ?_⟩
  · intro b hb
    refine ⟨?_, hregion hb⟩
    obtain ⟨p, -, rfl⟩ := mem_neighbors.mp hb
    exact inRange_wrapPoint p
  · have hnear : Near steps (index.wrapPoint a.region) depth (point a) _ := near_self hself depth _
    rw [wrapPoint_point ha] at hnear
    exact mem_neighbors.mpr hnear
  · intro b hb
    exact mem_neighbors.mpr ((mem_neighbors.mp hb).mono (Nat.le_succ depth))
  · intro b hb
    by_cases hsame : b.region = a.region
    · have hrep := wrapPoint_point hb
      rw [hsame] at hrep
      rw [mem_neighbors, mem_neighbors, hsame]
      exact near_comm hcomm aligned_point (wrapPoint_point ha) hrep
    · refine iff_of_false (fun hmem => hsame (hregion hmem)) (fun hmem => hsame ?_)
      exact (hregion hmem).symm

/-- A small band. -/
def sampleBand : MobiusIndex := ⟨8, 4, 3, by decide⟩

/-- Across the seam of the u axis the v axis is mirrored, from both sides. -/
theorem neighbors_seam :
    ⟨7, 2, 1, "episodic".toList⟩ ∈ sampleBand.neighbors ⟨0, 1, 1, "episodic".toList⟩ 1 ∧
      ⟨0, 1, 1, "episodic".toList⟩ ∈ sampleBand.neighbors ⟨7, 2, 1, "episodic".toList⟩ 1 := by
  have hleft : ⟨7, 2, 1, "episodic".toList⟩ ∈ sampleBand.neighbors ⟨0, 1, 1, "episodic".toList⟩ 1 :=
    mem_neighbors.mpr ⟨(-1, 1, 1), by decide, by decide⟩
  obtain ⟨-, hnear⟩ := neighbors_proximity samplePython sampleBand
  obtain ⟨-, -, -, hsymm⟩ := hnear ⟨0, 1, 1, "episodic".toList⟩ 1 (by unfold InRange; decide)
  exact ⟨hleft, (hsymm _ (by unfold InRange; decide)).mp hleft⟩

end MobiusIndex

end AgentMemory
