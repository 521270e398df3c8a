import Mathlib.Data.List.Sort

/-!
# Windows of a vector

A vector is accessed by an index that may be anything; outside the vector an access is undefined (`none`).
An algorithm that works in place within a window of indices rearranges the elements of the window and
leaves all others, and what all elements of the window have they have afterwards.
-/

namespace CppLinuxLearn.Lib.Window

variable {α : Type}

/-- `v[i]` -/
def get (v : List α) (i : Int) : Option α := if 0 ≤ i then v[i.toNat]? else none

/-- `swap(v[i], v[j])` -/
def swap (v : List α) (i j : Int) : Option (List α) := do
  let a ← get v i
  let b ← get v j
  some ((v.set i.toNat b).set j.toNat a)

/-- `v[i] = a` -/
def put (v : List α) (i : Int) (a : α) : Option (List α) := do
  let _ ← get v i
  some (v.set i.toNat a)

/-- What lies in the window has the property. -/
def All (P : α → Prop) (left right : Int) (v : List α) : Prop :=
  ∀ x a, left ≤ x → x ≤ right → get v x = some a → P a

/-- The elements of the window were rearranged, and no others. -/
structure Rearranges (left right : Int) (v w : List α) : Prop where
  perm : w.Perm v
  frame : ∀ x, ¬ (left ≤ x ∧ x ≤ right) → get w x = get v x
  within : ∀ x, left ≤ x → x ≤ right → ∃ y, left ≤ y ∧ y ≤ right ∧ get w x = get v y

/-- The window is sorted. -/
def SortedIn [LE α] (left right : Int) (v : List α) : Prop :=
  ∀ x y a b, left ≤ x → x ≤ y → y ≤ right → get v x = some a → get v y = some b → a ≤ b

variable {v w u : List α} {left right i j x : Int} {a b : α} {P Q : α → Prop}

@[simp] theorem get_natCast (v : List α) (n : Nat) : get v n = v[n]? := by
  rw [get, if_pos (Int.natCast_nonneg n), Int.toNat_natCast]

theorem exists_get (h0 : 0 ≤ i) (hlt : i < v.length) : ∃ a, get v i = some a := by
  have hn : i.toNat < v.length := by omega
  refine ⟨v[i.toNat], ?_⟩
  rw [get, if_pos h0, List.getElem?_eq_getElem]

theorem get_eq_some (h : get v i = some a) : 0 ≤ i ∧ v[i.toNat]? = some a :=
  Option.ite_none_right_eq_some.1 h

/-! ## An assignment and a swap -/

theorem get_set (hi : 0 ≤ i) (hlt : i < v.length) (a : α) (x : Int) :
    get (v.set i.toNat a) x = if x = i then some a else get v x := by
  unfold get
  by_cases hx : 0 ≤ x
  · rw [if_pos hx, if_pos hx, List.getElem?_set]
    by_cases hxi : x = i
    · rw [if_pos hxi, if_pos (by omega), if_pos (by omega)]
    · rw [if_neg hxi, if_neg (by omega)]
  · rw [if_neg hx, if_neg hx, if_neg (by omega)]

theorem isSome_get : (get v i).isSome ↔ 0 ≤ i ∧ i < v.length := by
  refine ⟨fun h => ?_, fun h => ?_⟩
  · obtain ⟨a, ha⟩ := Option.isSome_iff_exists.1 h
    obtain ⟨h0, ha⟩ := get_eq_some ha
    have hlt := (List.getElem?_eq_some_iff.1 ha).1
    omega
  · exact Option.isSome_iff_exists.2 (exists_get h.1 h.2)

theorem put_eq (hi : 0 ≤ i) (hlt : i < v.length) (a : α) : put v i a = some (v.set i.toNat a) := by
  obtain ⟨b, hb⟩ := exists_get hi hlt
  rw [put, hb]
  rfl

theorem put_eq_none (h : v.length ≤ i) (a : α) : put v i a = none := by
  have hget : get v i = none := Option.not_isSome_iff_eq_none.1 fun hs => by
    have := (isSome_get.1 hs).2
    omega
  rw [put, hget]
  rfl

theorem swap_eq (ha : get v i = some a) (hb : get v j = some b) :
    ∃ w, swap v i j = some w ∧ w.Perm v ∧
      ∀ x, get w x = if x = j then some a else if x = i then some b else get v x := by
  obtain ⟨hi, hai⟩ := get_eq_some ha
  obtain ⟨hj, hbj⟩ := get_eq_some hb
  obtain ⟨hilt, rfl⟩ := List.getElem?_eq_some_iff.1 hai
  obtain ⟨hjlt, rfl⟩ := List.getElem?_eq_some_iff.1 hbj
  refine ⟨_, ?_, List.set_set_perm hilt hjlt, fun x => ?_⟩
  · rw [swap, ha, hb]
    rfl
  · rw [get_set hj (by rw [List.length_set]; omega), get_set hi (by omega)]

theorem get_swap_of_ne (h : swap v i j = some w) (hi : x ≠ i) (hj : x ≠ j) : get w x = get v x := by
  obtain ⟨a, ha, h⟩ := Option.bind_eq_some_iff.1 h
  obtain ⟨b, hb, h⟩ := Option.bind_eq_some_iff.1 h
  obtain ⟨u, hu, -, hget⟩ := swap_eq ha hb
  rw [swap, ha, hb] at hu
  obtain rfl := Option.some.inj (hu.symm.trans h)
  rw [hget, if_neg hj, if_neg hi]

/-! ## Rearranging a window -/

namespace Rearranges

theorem refl (left right : Int) (v : List α) : Rearranges left right v v :=
  ⟨.refl v, fun _ _ => rfl, fun x hl hr => ⟨x, hl, hr, rfl⟩⟩

theorem trans (h : Rearranges left right v w) (h' : Rearranges left right w u) : Rearranges left right v u where
  perm := h'.perm.trans h.perm
  frame x hx := (h'.frame x hx).trans (h.frame x hx)
  within x hl hr := by
    obtain ⟨y, hly, hry, hy⟩ := h'.within x hl hr
    obtain ⟨z, hlz, hrz, hz⟩ := h.within y hly hry
    exact ⟨z, hlz, hrz, hy.trans hz⟩

theorem mono (h : Rearranges i j v w) (hl : left ≤ i) (hr : j ≤ right) : Rearranges left right v w where
  perm := h.perm
  frame x hx := h.frame x fun hx' => hx ⟨hl.trans hx'.1, hx'.2.trans hr⟩
  within x hlx hrx := by
    by_cases hx : i ≤ x ∧ x ≤ j
    · obtain ⟨y, hy, hy', heq⟩ := h.within x hx.1 hx.2
      exact ⟨y, hl.trans hy, hy'.trans hr, heq⟩
    · exact ⟨x, hlx, hrx, h.frame x hx⟩

theorem length_eq (h : Rearranges left right v w) : w.length = v.length := h.perm.length_eq

theorem all (h : Rearranges left right v w) (hP : All P left right v) : All P left right w := by
  intro x a hl hr hx
  obtain ⟨y, hly, hry, hy⟩ := h.within x hl hr
  exact hP y a hly hry (hy ▸ hx)

theorem all_of_apart (h : Rearranges left right v w) (hapart : j < left ∨ right < i) (hP : All P i j v) :
    All P i j w := by
  intro x a hl hr hx
  rw [h.frame x (by omega)] at hx
  exact hP x a hl hr hx

theorem sortedIn_of_apart [LE α] (h : Rearranges left right v w) (hapart : j < left ∨ right < i)
    (hs : SortedIn i j v) : SortedIn i j w := by
  intro x y a b hl hxy hr hx hy
  rw [h.frame x (by omega)] at hx
  rw [h.frame y (by omega)] at hy
  exact hs x y a b hl hxy hr hx hy

end Rearranges

theorem All.mono (h : All P left right v) (hl : left ≤ i) (hr : j ≤ right) : All P i j v :=
  fun x a hlx hrx hx => h x a (hl.trans hlx) (hrx.trans hr) hx

theorem swap_rearranges (ha : get v i = some a) (hb : get v j = some b) (hi : left ≤ i ∧ i ≤ right)
    (hj : left ≤ j ∧ j ≤ right) : ∃ w, swap v i j = some w ∧ Rearranges left right v w ∧
      ∀ x, get w x = if x = j then some a else if x = i then some b else get v x := by
  obtain ⟨w, hw, hperm, hget⟩ := swap_eq ha hb
  refine ⟨w, hw, ⟨hperm, fun x hx => ?_, fun x hlx hrx => ?_⟩, hget⟩
  · rw [hget, if_neg (by rintro rfl; exact hx hj), if_neg (by rintro rfl; exact hx hi)]
  · rw [hget]
    by_cases hxj : x = j
    · exact ⟨i, hi.1, hi.2, by rw [if_pos hxj, ha]⟩
    · by_cases hxi : x = i
      · exact ⟨j, hj.1, hj.2, by rw [if_neg hxj, if_pos hxi, hb]⟩
      · exact ⟨x, hlx, hrx, by rw [if_neg hxj, if_neg hxi]⟩

/-! ## Sorted windows -/

theorem sortedIn_of_pivot [Preorder α] (hp : get v i = some a) (hlow : All (· ≤ a) left (i - 1) v)
    (hhigh : All (a ≤ ·) (i + 1) right v) (hleft : SortedIn left (i - 1) v) (hright : SortedIn (i + 1) right v) :
    SortedIn left right v := by
  intro x y b c hl hxy hr hx hy
  have hbelow : x ≤ i → b ≤ a := by
    intro hxi
    by_cases heq : x = i
    · subst heq
      exact (Option.some.inj (hx.symm.trans hp)).le
    · exact hlow x b hl (by omega) hx
  have habove : i ≤ y → a ≤ c := by
    intro hiy
    by_cases heq : y = i
    · subst heq
      exact (Option.some.inj (hp.symm.trans hy)).le
    · exact hhigh y c (by omega) hr hy
  by_cases hyi : y < i
  · exact hleft x y b c hl hxy (by omega) hx hy
  · by_cases hxi : i < x
    · exact hright x y b c (by omega) hxy hr hx hy
    · exact (hbelow (by omega)).trans (habove (by omega))

theorem pairwise_of_sortedIn [Preorder α] (h : SortedIn 0 (v.length - 1) v) : v.Pairwise (· ≤ ·) := by
  refine List.pairwise_iff_getElem.2 fun m n hm hn hlt => h m n _ _ (by omega) (by omega) (by omega) ?_ ?_
  · rw [get_natCast, List.getElem?_eq_getElem hm]
  · rw [get_natCast, List.getElem?_eq_getElem hn]

theorem take_perm_of_split [LinearOrder α] {n : Nat} (hperm : w.Perm v) (hn : n ≤ w.length)
    (hs : ∀ a ∈ w.take n, ∀ b ∈ w.drop n, a ≤ b) : (w.take n).Perm ((v.mergeSort (· ≤ ·)).take n) := by
  let low := (w.take n).mergeSort (· ≤ ·)
  let high := (w.drop n).mergeSort (· ≤ ·)
  have hlow : low.Perm (w.take n) := List.mergeSort_perm _ _
  have hhigh : high.Perm (w.drop n) := List.mergeSort_perm _ _
  have hsorted : (low ++ high).Pairwise (· ≤ ·) := by
    refine List.pairwise_append.2 ⟨List.pairwise_mergeSort' _ _, List.pairwise_mergeSort' _ _, fun a ha b hb => ?_⟩
    exact hs a (hlow.mem_iff.1 ha) b (hhigh.mem_iff.1 hb)
  have hall : (low ++ high).Perm (v.mergeSort (· ≤ ·)) := by
    refine (hlow.append hhigh).trans ?_
    rw [List.take_append_drop]
    exact hperm.trans (List.mergeSort_perm _ _).symm
  have hlen : low.length = n := by rw [hlow.length_eq, List.length_take, min_eq_left hn]
  rw [← hall.eq_of_pairwise' hsorted (List.pairwise_mergeSort' _ _), List.take_left' hlen]
  exact hlow.symm

end CppLinuxLearn.Lib.Window
