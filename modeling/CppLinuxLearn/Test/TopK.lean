import CppLinuxLearn.Test.Partition

/-!
# The k smallest

`topk.cpp`. Only the side of a partition that has the index `k` is gone into. All before the window are no
larger than all of it and all behind it no smaller, so the elements up to `k` come to be the smallest.
-/

namespace CppLinuxLearn.Test

open Lib Window

/-- `topkhelper(input, k, left, right)` -/
def topkhelper : Nat → List Int → Int → Int → Int → Option (List Int)
  | 0, _, _, _, _ => none
  | fuel + 1, input, k, left, right =>
    if left < right then do
      let (input, i) ← partition (fuel + 1) input left right
      if i < k then
        let first ← int (i + 1)
        topkhelper fuel input k first right
      else if k < i then
        let last ← int (i - 1)
        topkhelper fuel input k left last
      else some input
    else some input

/-- `for (; i < k; i++) ans.push_back(input[i]);` -/
def pushFirst (input : List Int) (k : Int) : Nat → Int → List Int → Option (List Int)
  | 0, _, _ => none
  | fuel + 1, i, ans =>
    if i < k then do
      let a ← get input i
      pushFirst input k fuel (i + 1) (ans ++ [a])
    else some ans

/-- `topK(input, k)`: what is returned, and the vector after it. -/
def topK (fuel : Nat) (input : List Int) (k : Int) : Option (List Int × List Int) := do
  let last ← int (k - 1)
  let input ← topkhelper fuel input last 0 (toInt (input.length - 1))
  let ans ← pushFirst input k fuel 0 []
  some (ans, input)

variable {input w ans : List Int} {k left right i : Int} {fuel : Nat}

/-- No element of the window up to `k` is larger than one behind it. -/
def SplitAt (k left right : Int) (v : List Int) : Prop :=
  ∀ x y a b, left ≤ x → x ≤ k → k < y → y ≤ right → get v x = some a → get v y = some b → a ≤ b

theorem splitAt_of_above {a : Int} (hp : get w i = some a) (hlow : All (· ≤ a) left (i - 1) w)
    (hhigh : All (a ≤ ·) (i + 1) right w) (hik : i < k) (hs : SplitAt k (i + 1) right w) : SplitAt k left right w := by
  intro x y b c hl hxk hky hr hx hy
  by_cases hxi : x ≤ i
  · have hba : b ≤ a := by
      by_cases heq : x = i
      · subst heq
        exact (Option.some.inj (hx.symm.trans hp)).le
      · exact hlow x b hl (by omega) hx
    exact hba.trans (hhigh y c (by omega) hr hy)
  · exact hs x y b c (by omega) hxk hky hr hx hy

theorem splitAt_of_below {a : Int} (hp : get w i = some a) (hlow : All (· ≤ a) left (i - 1) w)
    (hhigh : All (a ≤ ·) (i + 1) right w) (hik : k < i) (hs : SplitAt k left (i - 1) w) : SplitAt k left right w := by
  intro x y b c hl hxk hky hr hx hy
  by_cases hiy : i ≤ y
  · have hac : a ≤ c := by
      by_cases heq : y = i
      · subst heq
        exact (Option.some.inj (hp.symm.trans hy)).le
      · exact hhigh y c (by omega) hr hy
    exact (hlow x b hl (by omega) hx).trans hac
  · exact hs x y b c hl hxk hky (by omega) hx hy

theorem splitAt_of_pivot {a : Int} (hp : get w k = some a) (hlow : All (· ≤ a) left (k - 1) w)
    (hhigh : All (a ≤ ·) (k + 1) right w) : SplitAt k left right w := by
  intro x y b c hl hxk hky hr hx hy
  have hac : a ≤ c := hhigh y c (by omega) hr hy
  by_cases heq : x = k
  · subst heq
    exact (Option.some.inj (hx.symm.trans hp)).le.trans hac
  · exact (hlow x b hl (by omega) hx).trans hac

theorem topkhelper_spec (h0 : 0 ≤ left) (hlt : right < input.length) (hk : k < 2 ^ 31) (hmax : right < 2 ^ 31)
    (hfuel : right - left < fuel) (hpos : 0 < fuel) :
    ∃ w, topkhelper fuel input k left right = some w ∧ Rearranges left right input w ∧ SplitAt k left right w := by
  induction fuel generalizing input left right with
  | zero => cases hpos
  | succ fuel ih =>
    rw [topkhelper]
    by_cases hle : left < right
    · obtain ⟨v, i, a, hv, hli, hir, hre, ha, hlow, hhigh⟩ := partition_spec input h0 hle.le hlt hfuel
      have hlen := hre.length_eq
      rw [if_pos hle, hv]
      simp only [Option.bind_eq_bind, Option.bind_some]
      rcases lt_trichotomy i k with hik | rfl | hki
      · obtain ⟨w, hw, hre', hs⟩ := @ih v (i + 1) right (by omega) (by omega) hmax (by omega) (by omega)
        have hbelow : All (· ≤ a) left (i - 1) w := hre'.all_of_apart (by omega) hlow
        have hpivot : get w i = some a := (hre'.frame i (by omega)).trans ha
        rw [if_pos hik, int_eq (by omega) (by omega), Option.bind_some]
        exact ⟨w, hw, hre.trans (hre'.mono (by omega) le_rfl), splitAt_of_above hpivot hbelow (hre'.all hhigh) hik hs⟩
      · rw [if_neg (lt_irrefl i), if_neg (lt_irrefl i)]
        exact ⟨v, rfl, hre, splitAt_of_pivot ha hlow hhigh⟩
      · obtain ⟨w, hw, hre', hs⟩ := @ih v left (i - 1) h0 (by omega) (by omega) (by omega) (by omega)
        have habove : All (a ≤ ·) (i + 1) right w := hre'.all_of_apart (by omega) hhigh
        have hpivot : get w i = some a := (hre'.frame i (by omega)).trans ha
        rw [if_neg (by omega), if_pos hki, int_eq (by omega) (by omega), Option.bind_some]
        exact ⟨w, hw, hre.trans (hre'.mono le_rfl (by omega)), splitAt_of_below hpivot (hre'.all hlow) habove hki hs⟩
    · rw [if_neg hle]
      exact ⟨input, rfl, .refl _ _ _, fun x y a b hl hxk hky hr _ _ => by omega⟩

theorem pushFirst_eq (h0 : 0 ≤ i) (hik : i ≤ k) (hlt : k ≤ input.length) (hfuel : k - i < fuel) :
    pushFirst input k fuel i ans = some (ans ++ (input.drop i.toNat).take (k - i).toNat) := by
  induction fuel generalizing i ans with
  | zero => omega
  | succ fuel ih =>
    rw [pushFirst]
    by_cases hlt' : i < k
    · have hn : i.toNat < input.length := by omega
      have hget : get input i = some input[i.toNat] := by
        rw [Window.get, if_pos h0, List.getElem?_eq_getElem hn]
      have hrest : (k - i).toNat = (k - (i + 1)).toNat + 1 := by omega
      have hnext : (i + 1).toNat = i.toNat + 1 := by omega
      rw [if_pos hlt', hget]
      simp only [Option.bind_eq_bind, Option.bind_some]
      rw [ih (by omega) (by omega) (by omega), hrest, hnext, List.drop_eq_getElem_cons hn, List.take_succ_cons,
        List.append_assoc, List.singleton_append]
    · have hnone : (k - i).toNat = 0 := by omega
      rw [if_neg hlt', hnone, List.take_zero, List.append_nil]

theorem SplitAt.take_le {n : Nat} (hs : SplitAt (n - 1) 0 (w.length - 1) w) :
    ∀ a ∈ w.take n, ∀ b ∈ w.drop n, a ≤ b := by
  intro a ha b hb
  obtain ⟨x, hx, rfl⟩ := List.mem_take_iff_getElem.1 ha
  obtain ⟨y, hy, rfl⟩ := List.mem_drop_iff_getElem.1 hb
  refine hs x (n + y) _ _ (by omega) (by omega) (by omega) (by omega) ?_ ?_
  · rw [get_natCast, List.getElem?_eq_getElem]
  · rw [← Int.natCast_add, get_natCast, List.getElem?_eq_getElem]

/-- **The k smallest.** For every vector whose size is not more than `2 ^ 31` and every `k` up to its size, what
is returned are the `k` smallest values, and the vector is left as a permutation of itself. -/
theorem topK_smallest (input : List Int) (n : Nat) (hn : n ≤ input.length) (hlen : input.length ≤ 2 ^ 31) (fuel : Nat)
    (hfuel : input.length < fuel) :
    ∃ ans w, topK fuel input n = some (ans, w) ∧ ans.length = n ∧ ans.Perm ((input.mergeSort (· ≤ ·)).take n) ∧
      w.Perm input := by
  have hspec : ∃ w, topkhelper fuel input (n - 1) 0 (input.length - 1) = some w ∧
      Rearranges 0 (input.length - 1) input w ∧ SplitAt (n - 1) 0 (input.length - 1) w :=
    topkhelper_spec le_rfl (by omega) (by omega) (by omega) (by omega) (by omega)
  obtain ⟨w, hw, hre, hs⟩ := hspec
  have hwlen := hre.length_eq
  have hpush : pushFirst w n fuel 0 [] = some (w.take n) := pushFirst_eq le_rfl (by omega) (by omega) (by omega)
  have hlast : int ((n : Int) - 1) = some ((n : Int) - 1) := int_eq (by omega) (by omega)
  refine ⟨w.take n, w, ?_, ?_, ?_, hre.perm⟩
  · rw [topK, toInt_eq (n := input.length - 1) (by omega) (by omega), hlast, Option.bind_eq_bind, Option.bind_some, hw]
    simp only [Option.bind_eq_bind, Option.bind_some, hpush]
  · rw [List.length_take, hwlen, min_eq_left hn]
  · exact take_perm_of_split hre.perm (hwlen ▸ hn) (SplitAt.take_le (hwlen ▸ hs))

theorem topK_smallest_main : ∃ ans w, topK 9 [3, 0, 1, 5, 4, 7, 2, 9] 5 = some (ans, w) ∧ ans.length = 5 ∧
    ans.Perm (([3, 0, 1, 5, 4, 7, 2, 9] : List Int).mergeSort (· ≤ ·) |>.take 5) ∧ w.Perm [3, 0, 1, 5, 4, 7, 2, 9] :=
  topK_smallest [3, 0, 1, 5, 4, 7, 2, 9] 5 (by decide) (by decide) 9 (by decide)

example : (topK 9 [3, 0, 1, 5, 4, 7, 2, 9] 5).map Prod.fst = some [2, 0, 1, 3, 4] := by decide

/-- The last index is negative: the first value is returned, which is the largest. -/
theorem topK_tooLarge : 0 ∈ tooLarge ∧ ∀ fuel, topK (fuel + 2) tooLarge 1 = some ([1], tooLarge) := by
  refine ⟨List.mem_cons_of_mem _ (List.mem_replicate.2 ⟨(Nat.two_pow_pos 31).ne', rfl⟩), fun fuel => ?_⟩
  have hpush : pushFirst tooLarge 1 (fuel + 2) 0 [] = some [1] := rfl
  have hlast : int ((1 : Int) - 1) = some 0 := by decide
  rw [topK, toInt_tooLarge, hlast, Option.bind_eq_bind, Option.bind_some, topkhelper, if_neg (by decide)]
  simp only [Option.bind_eq_bind, Option.bind_some, hpush]

end CppLinuxLearn.Test
