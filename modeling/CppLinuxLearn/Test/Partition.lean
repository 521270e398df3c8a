import CppLinuxLearn.Lib.Window
import Mathlib.Algebra.Group.Int.Defs
import Mathlib.Algebra.Group.Nat.Defs

/-!
# Partitioning in place

The loops that `quickSort.cpp` and `topk.cpp` have in common: two scans towards each other stop at elements on
the wrong side of the pivot, which are swapped, until they meet. The pivot stays at the left end. The scan
from the right goes first, so the element where they meet is not larger than the pivot.
-/

namespace CppLinuxLearn.Test

open Lib Window

/-- The conversion of a size to `int`. -/
def toInt (n : Int) : Int := (BitVec.ofInt 32 n).toInt

/-- The value of an `int` expression; an overflow is undefined. -/
def int (n : Int) : Option Int := if -2 ^ 31 ≤ n ∧ n < 2 ^ 31 then some n else none

theorem toInt_eq {n : Int} (hlo : -2 ^ 31 ≤ n) (hhi : n < 2 ^ 31) : toInt n = n := by
  rw [toInt, BitVec.toInt_ofInt]
  exact Int.bmod_eq_of_le (by omega) (by omega)

theorem int_eq {n : Int} (hlo : -2 ^ 31 ≤ n) (hhi : n < 2 ^ 31) : int n = some n := if_pos ⟨hlo, hhi⟩

theorem int_eq_some {n m : Int} (h : int n = some m) : m = n :=
  (Option.some.inj (Option.ite_none_right_eq_some.1 h).2).symm

/-- One more element than there are indices of the type `int`. -/
def tooLarge : List Int := 1 :: List.replicate (2 ^ 31) 0

theorem toInt_tooLarge : toInt (tooLarge.length - 1) = -2 ^ 31 := by
  have hlen : ((tooLarge.length : Int) - 1) = 2 ^ 31 := by
    rw [tooLarge, List.length_cons, List.length_replicate]
    omega
  rw [hlen]
  decide

section
variable {α : Type} [LinearOrder α]

/-- `while (i < j && p <= nums[j]) j--;` -/
def scanDown (nums : List α) (p : α) (i : Int) : Nat → Int → Option Int
  | 0, _ => none
  | fuel + 1, j =>
    if i < j then do
      let b ← get nums j
      if p ≤ b then scanDown nums p i fuel (j - 1) else some j
    else some j

/-- `while (i < j && nums[i] <= p) i++;` -/
def scanUp (nums : List α) (p : α) (j : Int) : Nat → Int → Option Int
  | 0, _ => none
  | fuel + 1, i =>
    if i < j then do
      let a ← get nums i
      if a ≤ p then scanUp nums p j fuel (i + 1) else some i
    else some i

/-- The loop `while (i < j)`; the vector and `i` after it. -/
def partitionLoop (p : α) : Nat → List α → Int → Int → Option (List α × Int)
  | 0, _, _, _ => none
  | fuel + 1, nums, i, j =>
    if i < j then do
      let j ← scanDown nums p i (fuel + 1) j
      let i ← scanUp nums p j (fuel + 1) i
      let nums ← swap nums i j
      partitionLoop p fuel nums i j
    else some (nums, i)

/-- What both functions do before they recur; the vector, and where the pivot has come to. -/
def partition (fuel : Nat) (nums : List α) (left right : Int) : Option (List α × Int) := do
  let p ← get nums left
  let (nums, i) ← partitionLoop p fuel nums left right
  let nums ← swap nums left i
  some (nums, i)

/-! ## The scans -/

variable {nums : List α} {p : α} {left right i j : Int} {fuel : Nat}

theorem scanDown_spec (nums : List α) (p : α) (h0 : 0 ≤ i) (hij : i ≤ j) (hlt : j < nums.length)
    (hfuel : j - i < fuel) :
    ∃ j', scanDown nums p i fuel j = some j' ∧ i ≤ j' ∧ j' ≤ j ∧ All (p ≤ ·) (j' + 1) j nums ∧
      (i < j' → ∃ b, get nums j' = some b ∧ b < p) := by
  induction fuel generalizing j with
  | zero => omega
  | succ fuel ih =>
    rw [scanDown]
    by_cases hlt' : i < j
    · obtain ⟨b, hb⟩ := exists_get (v := nums) (i := j) (by omega) hlt
      rw [if_pos hlt', hb]
      simp only [Option.bind_eq_bind, Option.bind_some]
      by_cases hpb : p ≤ b
      · obtain ⟨j', hj', hle, hle', hall, hstop⟩ := ih (j := j - 1) (by omega) (by omega) (by omega)
        rw [if_pos hpb]
        refine ⟨j', hj', hle, by omega, fun x c hx hxj hc => ?_, hstop⟩
        by_cases hxj' : x = j
        · subst hxj'
          exact Option.some.inj (hb.symm.trans hc) ▸ hpb
        · exact hall x c hx (by omega) hc
      · rw [if_neg hpb]
        exact ⟨j, rfl, hij, le_rfl, fun x c hx hxj _ => by omega, fun _ => ⟨b, hb, not_le.1 hpb⟩⟩
    · rw [if_neg hlt']
      exact ⟨j, rfl, hij, le_rfl, fun x c hx hxj _ => by omega, fun h => absurd h hlt'⟩

theorem scanUp_spec (nums : List α) (p : α) (h0 : 0 ≤ i) (hij : i ≤ j) (hlt : j < nums.length)
    (hfuel : j - i < fuel) :
    ∃ i', scanUp nums p j fuel i = some i' ∧ i ≤ i' ∧ i' ≤ j ∧ All (· ≤ p) i (i' - 1) nums ∧
      (i' < j → ∃ a, get nums i' = some a ∧ p < a) := by
  induction fuel generalizing i with
  | zero => omega
  | succ fuel ih =>
    rw [scanUp]
    by_cases hlt' : i < j
    · obtain ⟨a, ha⟩ := exists_get (v := nums) h0 (by omega)
      rw [if_pos hlt', ha]
      simp only [Option.bind_eq_bind, Option.bind_some]
      by_cases hap : a ≤ p
      · obtain ⟨i', hi', hle, hle', hall, hstop⟩ := ih (i := i + 1) (by omega) (by omega) (by omega)
        rw [if_pos hap]
        refine ⟨i', hi', by omega, hle', fun x c hx hxi hc => ?_, hstop⟩
        by_cases hxi' : x = i
        · subst hxi'
          exact Option.some.inj (ha.symm.trans hc) ▸ hap
        · exact hall x c (by omega) hxi hc
      · rw [if_neg hap]
        exact ⟨i, rfl, le_rfl, hij, fun x c hx hxi _ => by omega, fun _ => ⟨a, ha, not_le.1 hap⟩⟩
    · rw [if_neg hlt']
      exact ⟨i, rfl, le_rfl, hij, fun x c hx hxi _ => by omega, fun h => absurd h hlt'⟩

/-! ## The loop -/

/-- The pivot is at the left end, no element up to `i` is larger and none behind `j` is smaller. -/
structure Sides (p : α) (left right i j : Int) (nums : List α) : Prop where
  pivot : get nums left = some p
  low : All (· ≤ p) left i nums
  high : All (p ≤ ·) (j + 1) right nums

namespace Sides

variable {w : List α} {a b : α}

theorem scanned {i' j' : Int} (hs : Sides p left right i j nums) (hlow : All (· ≤ p) i (i' - 1) nums)
    (hhigh : All (p ≤ ·) (j' + 1) j nums) : Sides p left right (i' - 1) j' nums := by
  refine ⟨hs.pivot, fun x c hx hxi hc => ?_, fun x c hx hxr hc => ?_⟩
  · by_cases hxi' : x ≤ i
    · exact hs.low x c hx hxi' hc
    · exact hlow x c (by omega) hxi hc
  · by_cases hxj : x ≤ j
    · exact hhigh x c hx hxj hc
    · exact hs.high x c (by omega) hxr hc

theorem congr (hs : Sides p left right i j nums) (hsame : ∀ x, get w x = get nums x) : Sides p left right i j w where
  pivot := (hsame left).trans hs.pivot
  low x c hx hxi hc := hs.low x c hx hxi ((hsame x).symm.trans hc)
  high x c hx hxr hc := hs.high x c hx hxr ((hsame x).symm.trans hc)

theorem met (hs : Sides p left right (i - 1) j nums) (ha : get nums i = some a) (hap : a ≤ p) :
    Sides p left right i j nums := by
  refine ⟨hs.pivot, fun x c hx hxi hc => ?_, hs.high⟩
  by_cases hxi' : x = i
  · subst hxi'
    exact Option.some.inj (ha.symm.trans hc) ▸ hap
  · exact hs.low x c hx (by omega) hc

theorem swapped (hs : Sides p left right (i - 1) j nums) (hleft : left < i) (hij : i < j) (hbp : b ≤ p)
    (hget : ∀ x, get w x = if x = j then some a else if x = i then some b else get nums x) :
    Sides p left right i j w := by
  refine ⟨?_, fun x c hx hxi hc => ?_, fun x c hx hxr hc => ?_⟩
  · rw [hget, if_neg (by omega), if_neg hleft.ne]
    exact hs.pivot
  · rw [hget, if_neg (by omega)] at hc
    by_cases hxi' : x = i
    · rw [if_pos hxi'] at hc
      exact Option.some.inj hc ▸ hbp
    · rw [if_neg hxi'] at hc
      exact hs.low x c hx (by omega) hc
  · rw [hget, if_neg (by omega), if_neg (by omega)] at hc
    exact hs.high x c hx hxr hc

end Sides

/-- The loop ends, and the two sides are all of the window. Each round after the first begins with an
element at `j` that is not too small, and the first with the pivot at `i`, so `j - i` becomes smaller. -/
theorem partitionLoop_spec (h0 : 0 ≤ left) (hlt : right < nums.length) (hli : left ≤ i) (hij : i ≤ j) (hjr : j ≤ right)
    (hs : Sides p left right i j nums) (hfresh : i = left ∨ ∀ b, get nums j = some b → p ≤ b)
    (hfuel : j - i < fuel) :
    ∃ w i', partitionLoop p fuel nums i j = some (w, i') ∧ left ≤ i' ∧ i' ≤ right ∧ Rearranges left right nums w ∧
      Sides p left right i' i' w := by
  induction fuel generalizing nums i j with
  | zero => omega
  | succ fuel ih =>
    rw [partitionLoop]
    by_cases hlt' : i < j
    · obtain ⟨j', hj', hij', hjj', hhigh, hstopj⟩ := scanDown_spec nums p (by omega) hij (by omega) hfuel
      have hfuel' : j' - i < (fuel + 1 : Nat) := by omega
      obtain ⟨i', hi', hii', hij'', hlow, hstopi⟩ := scanUp_spec nums p (by omega) hij' (by omega) hfuel'
      obtain ⟨a, ha⟩ := exists_get (v := nums) (i := i') (by omega) (by omega)
      obtain ⟨b, hb⟩ := exists_get (v := nums) (i := j') (by omega) (by omega)
      have hi'in : left ≤ i' ∧ i' ≤ right := by omega
      have hj'in : left ≤ j' ∧ j' ≤ right := by omega
      obtain ⟨w, hw, hre, hget⟩ := swap_rearranges ha hb hi'in hj'in
      have hscanned := hs.scanned hlow hhigh
      rw [if_pos hlt', hj']
      simp only [Option.bind_eq_bind, Option.bind_some, hi', hw]
      rcases hij''.eq_or_lt with rfl | hapart
      · -- the element where they meet is that at `i`, or the scan from the right has stopped at it
        have hap : a ≤ p := by
          by_cases hstay : i' = i
          · exact hs.low i' a (by omega) (by omega) ha
          · obtain ⟨c, hc, hcp⟩ := hstopj (by omega)
            obtain rfl : c = a := Option.some.inj (hc.symm.trans ha)
            exact hcp.le
        have hsame : ∀ x, get w x = get nums x := by
          intro x
          rw [hget]
          by_cases hx : x = i'
          · rw [if_pos hx, hx, ha]
          · rw [if_neg hx, if_neg hx]
        obtain ⟨fuel', rfl⟩ : ∃ fuel', fuel = fuel' + 1 := ⟨fuel - 1, by omega⟩
        rw [partitionLoop, if_neg (lt_irrefl i')]
        exact ⟨w, i', rfl, hi'in.1, hi'in.2, hre, (hscanned.met ha hap).congr hsame⟩
      · obtain ⟨c, hc, hpc⟩ := hstopi hapart
        obtain ⟨d, hd, hdp⟩ := hstopj (by omega)
        obtain rfl : c = a := Option.some.inj (hc.symm.trans ha)
        obtain rfl : d = b := Option.some.inj (hd.symm.trans hb)
        have hleft : left ≠ i' := by
          rintro rfl
          rw [hs.pivot] at ha
          exact hpc.ne (Option.some.inj ha)
        have hfar : j' - i' < fuel := by
          rcases hfresh with rfl | hfresh
          · omega
          · have hmoved : j' ≠ j := by
              rintro rfl
              exact absurd (hfresh d hb) (not_le.2 hdp)
            omega
        have hsides : Sides p left right i' j' w := hscanned.swapped (by omega) hapart hdp.le hget
        have hnext : ∀ e, get w j' = some e → p ≤ e := by
          intro e he
          rw [hget, if_pos rfl] at he
          exact Option.some.inj he ▸ hpc.le
        obtain ⟨u, i'', hu, hli'', hir'', hre', hsides'⟩ := @ih w i' j' (by rw [hre.length_eq]; exact hlt) hi'in.1
          hapart.le hj'in.2 hsides (.inr hnext) hfar
        exact ⟨u, i'', hu, hli'', hir'', hre.trans hre', hsides'⟩
    · obtain rfl : i = j := by omega
      rw [if_neg hlt']
      exact ⟨nums, i, rfl, hli, hjr, .refl _ _ _, hs⟩

/-- **The partition.** The window is rearranged around the pivot: nothing larger is before it, and nothing
smaller behind it. -/
theorem partition_spec (nums : List α) (h0 : 0 ≤ left) (hle : left ≤ right) (hlt : right < nums.length)
    (hfuel : right - left < fuel) :
    ∃ w i a, partition fuel nums left right = some (w, i) ∧ left ≤ i ∧ i ≤ right ∧ Rearranges left right nums w ∧
      get w i = some a ∧ All (· ≤ a) left (i - 1) w ∧ All (a ≤ ·) (i + 1) right w := by
  obtain ⟨p, hp⟩ := exists_get (v := nums) h0 (by omega)
  have hsides : Sides p left right left right nums := by
    refine ⟨hp, fun x c hx hxl hc => ?_, fun x c hx hxr _ => by omega⟩
    obtain rfl : x = left := by omega
    exact (Option.some.inj (hc.symm.trans hp)).le
  obtain ⟨v, i, hv, hli, hir, hre, hs⟩ := partitionLoop_spec h0 hlt le_rfl hle le_rfl hsides (.inl rfl) hfuel
  have hlen := hre.length_eq
  obtain ⟨a, ha⟩ := exists_get (v := v) (i := i) (by omega) (by omega)
  have hap : a ≤ p := hs.low i a hli le_rfl ha
  have hleft : left ≤ left ∧ left ≤ right := ⟨le_rfl, hle⟩
  obtain ⟨w, hw, hre', hget⟩ := swap_rearranges hs.pivot ha hleft ⟨hli, hir⟩
  have hwi : get w i = some p := by rw [hget, if_pos rfl]
  refine ⟨w, i, p, ?_, hli, hir, hre.trans hre', hwi, fun x c hx hxi hc => ?_, fun x c hx hxr hc => ?_⟩
  · rw [partition, hp]
    simp only [Option.bind_eq_bind, Option.bind_some, hv, hw]
  · rw [hget, if_neg (by omega)] at hc
    by_cases hxl : x = left
    · rw [if_pos hxl] at hc
      exact Option.some.inj hc ▸ hap
    · rw [if_neg hxl] at hc
      exact hs.low x c hx (by omega) hc
  · rw [hget, if_neg (by omega), if_neg (by omega)] at hc
    exact hs.high x c hx hxr hc

/-! ## The frame of any call that returns -/

variable {w : List α} {i' j' : Int}

theorem scanDown_between (h : scanDown nums p i fuel j = some j') (hij : i ≤ j) : i ≤ j' ∧ j' ≤ j := by
  induction fuel generalizing j with
  | zero => cases h
  | succ fuel ih =>
    rw [scanDown] at h
    split at h
    · obtain ⟨b, -, h⟩ := Option.bind_eq_some_iff.1 h
      split at h
      · obtain ⟨hle, hle'⟩ := ih h (by omega)
        omega
      · obtain rfl := Option.some.inj h
        omega
    · obtain rfl := Option.some.inj h
      omega

theorem scanUp_between (h : scanUp nums p j fuel i = some i') (hij : i ≤ j) : i ≤ i' ∧ i' ≤ j := by
  induction fuel generalizing i with
  | zero => cases h
  | succ fuel ih =>
    rw [scanUp] at h
    split at h
    · obtain ⟨a, -, h⟩ := Option.bind_eq_some_iff.1 h
      split at h
      · obtain ⟨hle, hle'⟩ := ih h (by omega)
        omega
      · obtain rfl := Option.some.inj h
        omega
    · obtain rfl := Option.some.inj h
      omega

theorem partitionLoop_frame (h : partitionLoop p fuel nums i j = some (w, i')) (hij : i ≤ j) :
    i ≤ i' ∧ i' ≤ j ∧ ∀ x, ¬ (i ≤ x ∧ x ≤ j) → get w x = get nums x := by
  induction fuel generalizing nums i j with
  | zero => cases h
  | succ fuel ih =>
    rw [partitionLoop] at h
    split at h
    · obtain ⟨j', hj', h⟩ := Option.bind_eq_some_iff.1 h
      obtain ⟨i₁, hi₁, h⟩ := Option.bind_eq_some_iff.1 h
      obtain ⟨v, hv, h⟩ := Option.bind_eq_some_iff.1 h
      obtain ⟨hij', hjj'⟩ := scanDown_between hj' hij
      obtain ⟨hii₁, hij₁⟩ := scanUp_between hi₁ hij'
      obtain ⟨hle, hle', hframe⟩ := ih h hij₁
      refine ⟨by omega, by omega, fun x hx => ?_⟩
      rw [hframe x (by omega), get_swap_of_ne hv (by omega) (by omega)]
    · obtain ⟨rfl, rfl⟩ := Prod.mk.inj (Option.some.inj h)
      exact ⟨le_rfl, hij, fun _ _ => rfl⟩

theorem partition_frame (h : partition fuel nums left right = some (w, i)) (hle : left ≤ right) :
    left ≤ i ∧ i ≤ right ∧ ∀ x, ¬ (left ≤ x ∧ x ≤ right) → get w x = get nums x := by
  obtain ⟨p, -, h⟩ := Option.bind_eq_some_iff.1 h
  obtain ⟨⟨v, i'⟩, hv, h⟩ := Option.bind_eq_some_iff.1 h
  obtain ⟨u, hu, h⟩ := Option.bind_eq_some_iff.1 h
  obtain ⟨rfl, rfl⟩ := Prod.mk.inj (Option.some.inj h)
  obtain ⟨hli, hir, hframe⟩ := partitionLoop_frame hv hle
  refine ⟨hli, hir, fun x hx => ?_⟩
  rw [get_swap_of_ne hu (by omega) (by omega), hframe x hx]

end

end CppLinuxLearn.Test
