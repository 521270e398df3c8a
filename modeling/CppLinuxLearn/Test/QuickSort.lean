import CppLinuxLearn.Test.Partition

/-!
# Quicksort

`quickSort.cpp`. The indices have the type `int`: a vector whose last index is none is not sorted.
-/

namespace CppLinuxLearn.Test

open Lib Window

section
variable {α : Type} [LinearOrder α]

/-- `quickSort(nums, left, right)` -/
def quickSort : Nat → List α → Int → Int → Option (List α)
  | 0, _, _, _ => none
  | fuel + 1, nums, left, right =>
    if left < right then do
      let (nums, i) ← partition (fuel + 1) nums left right
      let last ← int (i - 1)
      let nums ← quickSort fuel nums left last
      let first ← int (i + 1)
      quickSort fuel nums first right
    else some nums

/-- `quickSort(nums, 0, nums.size() - 1)` -/
def sortAll (fuel : Nat) (nums : List α) : Option (List α) := quickSort fuel nums 0 (toInt (nums.length - 1))

variable {nums w : List α} {left right : Int} {fuel : Nat}

theorem quickSort_spec (h0 : 0 ≤ left) (hlt : right < nums.length) (hmax : right < 2 ^ 31 - 1)
    (hfuel : right - left < fuel) (hpos : 0 < fuel) :
    ∃ w, quickSort fuel nums left right = some w ∧ Rearranges left right nums w ∧ SortedIn left right w := by
  induction fuel generalizing nums left right with
  | zero => cases hpos
  | succ fuel ih =>
    rw [quickSort]
    by_cases hle : left < right
    · obtain ⟨v, i, a, hv, hli, hir, hre, ha, hlow, hhigh⟩ := partition_spec nums h0 hle.le hlt hfuel
      have hlen := hre.length_eq
      obtain ⟨u, hu, hre₁, hs₁⟩ := @ih v left (i - 1) h0 (by omega) (by omega) (by omega) (by omega)
      have hlen₁ := hre₁.length_eq
      obtain ⟨w, hw, hre₂, hs₂⟩ := @ih u (i + 1) right (by omega) (by omega) hmax (by omega) (by omega)
      have hbody : quickSort (fuel + 1) nums left right = some w := by
        rw [quickSort, if_pos hle, hv]
        simp only [Option.bind_eq_bind, Option.bind_some]
        rw [int_eq (by omega) (by omega), Option.bind_some, hu, Option.bind_some, int_eq (by omega) (by omega)]
        exact hw
      refine ⟨w, ?_, (hre.trans (hre₁.mono le_rfl (by omega))).trans (hre₂.mono (by omega) le_rfl), ?_⟩
      · rw [quickSort] at hbody
        exact hbody
      · have hpivot : get w i = some a := by
          rw [hre₂.frame i (by omega), hre₁.frame i (by omega), ha]
        refine sortedIn_of_pivot hpivot ?_ ?_ (hre₂.sortedIn_of_apart (by omega) hs₁) hs₂
        · exact hre₂.all_of_apart (by omega) (hre₁.all hlow)
        · exact hre₂.all (hre₁.all_of_apart (by omega) hhigh)
    · rw [if_neg hle]
      refine ⟨nums, rfl, .refl _ _ _, fun x y a b hl hxy hr hx hy => ?_⟩
      obtain rfl : x = y := by omega
      exact (Option.some.inj (hx.symm.trans hy)).le

theorem quickSort_frame (h : quickSort fuel nums left right = some w) {x : Int} (hx : ¬ (left ≤ x ∧ x ≤ right)) :
    get w x = get nums x := by
  induction fuel generalizing nums left right w with
  | zero => cases h
  | succ fuel ih =>
    rw [quickSort] at h
    split at h
    next hle =>
      obtain ⟨⟨v, i⟩, hv, h⟩ := Option.bind_eq_some_iff.1 h
      obtain ⟨last, hlast, h⟩ := Option.bind_eq_some_iff.1 h
      obtain ⟨u, hu, h⟩ := Option.bind_eq_some_iff.1 h
      obtain ⟨first, hfirst, h⟩ := Option.bind_eq_some_iff.1 h
      obtain rfl := int_eq_some hlast
      obtain rfl := int_eq_some hfirst
      obtain ⟨hli, hir, hframe⟩ := partition_frame hv hle.le
      rw [ih h (by omega), ih hu (by omega), hframe x hx]
    next => rw [Option.some.inj h]

end

/-- **Quicksort sorts.** A vector of fewer than `2 ^ 31` elements, of any totally ordered type, becomes a sorted
permutation of itself; and no call, whatever its window, changes an element outside of it. -/
theorem sortAll_sorts {α : Type} [LinearOrder α] (nums : List α) (hlen : nums.length < 2 ^ 31) :
    (∀ fuel, nums.length < fuel → ∃ w, sortAll fuel nums = some w ∧ w.Perm nums ∧ w.Pairwise (· ≤ ·)) ∧
      ∀ fuel (v w : List α) left right, quickSort fuel v left right = some w →
        ∀ x, ¬ (left ≤ x ∧ x ≤ right) → get w x = get v x := by
  refine ⟨fun fuel hfuel => ?_, fun fuel v w left right h x hx => quickSort_frame h hx⟩
  have hspec : ∃ w, quickSort fuel nums 0 (nums.length - 1) = some w ∧ Rearranges 0 (nums.length - 1) nums w ∧
      SortedIn 0 (nums.length - 1) w := quickSort_spec le_rfl (by omega) (by omega) (by omega) (by omega)
  obtain ⟨w, hw, hre, hs⟩ := hspec
  refine ⟨w, ?_, hre.perm, pairwise_of_sortedIn (hre.length_eq ▸ hs)⟩
  rw [sortAll, toInt_eq (by omega) (by omega)]
  exact hw

theorem sortAll_sorts_main :
    (∀ fuel, 3 < fuel → ∃ w, sortAll fuel [3, 0, 1] = some w ∧ w.Perm [3, 0, 1] ∧ w.Pairwise (· ≤ ·)) ∧
      ∀ fuel (v w : List Nat) left right, quickSort fuel v left right = some w →
        ∀ x, ¬ (left ≤ x ∧ x ≤ right) → get w x = get v x :=
  sortAll_sorts [3, 0, 1] (by decide)

example : sortAll 4 [3, 0, 1] = some [0, 1, 3] := by decide

/-- The last index is negative, and nothing is sorted. -/
theorem tooLarge_not_sorted : ¬ tooLarge.Pairwise (· ≤ ·) ∧ ∀ fuel, sortAll (fuel + 1) tooLarge = some tooLarge := by
  refine ⟨fun h => ?_, fun fuel => ?_⟩
  · have hzero : (0 : Int) ∈ List.replicate (2 ^ 31) 0 := List.mem_replicate.2 ⟨(Nat.two_pow_pos 31).ne', rfl⟩
    exact absurd ((List.pairwise_cons.1 h).1 0 hzero) (by decide)
  · rw [sortAll, toInt_tooLarge, quickSort, if_neg (by decide)]

end CppLinuxLearn.Test
