import Mathlib.Logic.Relation
import Mathlib.Logic.Function.Basic

/-!
# Forests of parents

A partial function names the parent of each node; a root is its own parent. `RootOf` is plain following. If each
node has a root, there is no cycle, and the nodes with one root are a class. Two updates are of interest: to let
a node point to its root changes no root, and to let a root point to another one merges two classes.
-/

namespace CppLinuxLearn.Lib.Forest

section
variable {α : Type} (f : α → Option α)

/-- Following the parents from the node comes to the root. -/
inductive RootOf : α → α → Prop
  | root {x : α} (h : f x = some x) : RootOf x x
  | step {x y r : α} (h : f x = some y) (hne : y ≠ x) (hr : RootOf y r) : RootOf x r

/-- There is no cycle, and no parent that is not a node. -/
def Rooted : Prop := ∀ x, (f x).isSome → ∃ r, RootOf f x r

/-- The two nodes have one root. -/
def Same (x y : α) : Prop := ∃ r, RootOf f x r ∧ RootOf f y r

end

variable {α : Type} {f : α → Option α} {x y z r s t : α}

namespace RootOf

theorem isRoot (h : RootOf f x r) : f r = some r := by
  induction h with
  | root h => exact h
  | step _ _ _ ih => exact ih

theorem isSome (h : RootOf f x r) : (f x).isSome := by
  cases h with
  | root h => exact Option.isSome_iff_exists.2 ⟨_, h⟩
  | step h _ _ => exact Option.isSome_iff_exists.2 ⟨_, h⟩

theorem parent (h : RootOf f x r) (hx : f x = some y) : RootOf f y r := by
  cases h with
  | root h =>
    obtain rfl := Option.some.inj (h.symm.trans hx)
    exact .root h
  | step h _ hr =>
    obtain rfl := Option.some.inj (h.symm.trans hx)
    exact hr

theorem eq_of_isRoot (h : RootOf f x r) (hx : f x = some x) : r = x := by
  cases h with
  | root => rfl
  | step h hne _ => exact absurd (Option.some.inj (h.symm.trans hx)) hne

theorem unique (h : RootOf f x r) (h' : RootOf f x s) : r = s := by
  induction h with
  | root h => exact (h'.eq_of_isRoot h).symm
  | step h _ _ ih => exact ih (h'.parent h)

theorem step_of (hx : f x = some y) (h : RootOf f y r) : RootOf f x r := by
  by_cases heq : y = x
  · subst heq
    exact h
  · exact .step hx heq h

end RootOf

theorem RootOf.same_iff (h : RootOf f x r) (h' : RootOf f y s) : Same f x y ↔ r = s := by
  refine ⟨fun hs => ?_, fun hrs => ⟨r, h, hrs ▸ h'⟩⟩
  obtain ⟨t, ht, ht'⟩ := hs
  exact (h.unique ht).trans (ht'.unique h')

theorem Same.symm (h : Same f x y) : Same f y x := by
  obtain ⟨r, hx, hy⟩ := h
  exact ⟨r, hy, hx⟩

theorem Same.trans (h : Same f x y) (h' : Same f y z) : Same f x z := by
  obtain ⟨r, hx, hy⟩ := h
  obtain ⟨s, hy', hz⟩ := h'
  exact ⟨r, hx, hy.unique hy' ▸ hz⟩

/-! ## Updates that keep the roots -/

theorem Rooted.of_kept {g : α → Option α} (h : Rooted f) (hdom : ∀ y, (g y).isSome → (f y).isSome)
    (hkept : ∀ y s, RootOf f y s → RootOf g y s) : Rooted g := by
  intro y hy
  obtain ⟨s, hs⟩ := h y (hdom y hy)
  exact ⟨s, hkept y s hs⟩

theorem rootOf_iff_of_kept {g : α → Option α} (h : Rooted f) (hdom : ∀ y, (g y).isSome → (f y).isSome)
    (hkept : ∀ y s, RootOf f y s → RootOf g y s) : RootOf g y s ↔ RootOf f y s := by
  refine ⟨fun hg => ?_, hkept y s⟩
  obtain ⟨t, ht⟩ := h y (hdom y hg.isSome)
  exact hg.unique (hkept y t ht) ▸ ht

/-! ## Connectedness -/

/-- The classes are those of the equivalence that the pairs generate. -/
structure Connects (R : α → α → Prop) (f : α → Option α) : Prop where
  rooted : Rooted f
  sound : ∀ {a b}, Same f a b → Relation.EqvGen R a b
  complete : ∀ {a b}, R a b → Same f a b

namespace Connects

variable {R : α → α → Prop}

theorem same_iff (h : Connects R f) {a b : α} (ha : (f a).isSome) : Same f a b ↔ Relation.EqvGen R a b := by
  refine ⟨h.sound, fun hab => ?_⟩
  have hclosed : a = b ∨ Same f a b := by
    clear ha
    induction hab with
    | rel a b hr => exact .inr (h.complete hr)
    | refl a => exact .inl rfl
    | symm a b _ ih => exact ih.imp Eq.symm Same.symm
    | trans a b c _ _ ih ih' =>
      rcases ih with rfl | ih
      · exact ih'
      · rcases ih' with rfl | ih'
        · exact .inr ih
        · exact .inr (ih.trans ih')
  rcases hclosed with rfl | hclosed
  · obtain ⟨r, hr⟩ := h.rooted a ha
    exact ⟨r, hr, hr⟩
  · exact hclosed

theorem congr {g : α → Option α} (h : Connects R f) (hdom : ∀ y, (g y).isSome → (f y).isSome)
    (hkept : ∀ y s, RootOf f y s → RootOf g y s) : Connects R g where
  rooted := h.rooted.of_kept hdom hkept
  sound := by
    rintro a b ⟨r, ha, hb⟩
    exact h.sound ⟨r, (rootOf_iff_of_kept h.rooted hdom hkept).1 ha, (rootOf_iff_of_kept h.rooted hdom hkept).1 hb⟩
  complete hr := by
    obtain ⟨r, ha, hb⟩ := h.complete hr
    exact ⟨r, hkept _ _ ha, hkept _ _ hb⟩

end Connects

variable [DecidableEq α]

/-! ## A node that comes to point to its root -/

theorem RootOf.compress (hx : RootOf f x r) (h : RootOf f y s) : RootOf (Function.update f x (some r)) y s := by
  induction h with
  | @root y h =>
    refine .root ?_
    by_cases heq : y = x
    · subst heq
      rw [Function.update_self, hx.eq_of_isRoot h]
    · rw [Function.update_of_ne heq, h]
  | @step y z s h hne hr ih =>
    by_cases heq : y = x
    · subst heq
      obtain rfl : r = s := hx.unique (.step h hne hr)
      have hry : r ≠ y := by
        rintro rfl
        exact hne (Option.some.inj (h.symm.trans hx.isRoot))
      refine .step (Function.update_self ..) hry (.root ?_)
      rw [Function.update_of_ne hry, hx.isRoot]
    · exact .step ((Function.update_of_ne heq ..).trans h) hne ih

theorem isSome_update (hx : (f x).isSome) : (Function.update f x (some r) y).isSome ↔ (f y).isSome := by
  by_cases heq : y = x
  · subst heq
    rw [Function.update_self]
    exact iff_of_true rfl hx
  · rw [Function.update_of_ne heq]

/-! ## A root that comes to point to another one -/

theorem RootOf.attach (hr : f r = some r) (hs : f s = some s) (h : RootOf f z t) :
    RootOf (Function.update f s (some r)) z (if t = s then r else t) := by
  have hroot : RootOf (Function.update f s (some r)) r r := by
    refine .root ?_
    by_cases heq : r = s
    · rw [heq, Function.update_self]
    · rw [Function.update_of_ne heq, hr]
  induction h with
  | @root z h =>
    by_cases heq : z = s
    · rw [if_pos heq, heq]
      exact .step_of (Function.update_self ..) hroot
    · rw [if_neg heq]
      exact .root ((Function.update_of_ne heq ..).trans h)
  | @step z w t h hne _ ih =>
    have hzs : z ≠ s := by
      rintro rfl
      exact hne (Option.some.inj (h.symm.trans hs))
    exact .step ((Function.update_of_ne hzs ..).trans h) hne ih

theorem Rooted.attach (h : Rooted f) (hr : f r = some r) (hs : f s = some s) :
    Rooted (Function.update f s (some r)) := by
  intro z hz
  obtain ⟨t, ht⟩ := h z ((isSome_update (Option.isSome_iff_exists.2 ⟨s, hs⟩)).1 hz)
  exact ⟨_, ht.attach hr hs⟩

/-- **The classes of `x` and `y` are merged**, and no others. -/
theorem Rooted.same_attach (h : Rooted f) (hx : RootOf f x r) (hy : RootOf f y s) (a b : α) :
    Same (Function.update f s (some r)) a b ↔
      Same f a b ∨ Same f a x ∧ Same f b y ∨ Same f a y ∧ Same f b x := by
  constructor
  · rintro ⟨t, ha, hb⟩
    have hsome : ∀ z, RootOf (Function.update f s (some r)) z t →
        ∃ u, RootOf f z u ∧ (if u = s then r else u) = t := by
      intro z hz
      obtain ⟨u, hu⟩ := h z ((isSome_update (Option.isSome_iff_exists.2 ⟨s, hy.isRoot⟩)).1 hz.isSome)
      exact ⟨u, hu, (hu.attach hx.isRoot hy.isRoot).unique hz⟩
    obtain ⟨u, hu, hut⟩ := hsome a ha
    obtain ⟨v, hv, hvt⟩ := hsome b hb
    rw [hu.same_iff hv, hu.same_iff hx, hv.same_iff hy, hu.same_iff hy, hv.same_iff hx]
    grind
  · have hmerged : ∀ c d, Same f c x → Same f d y → Same (Function.update f s (some r)) c d := by
      rintro c d ⟨t, hc, hx'⟩ ⟨u, hd, hy'⟩
      obtain rfl := hx'.unique hx
      obtain rfl := hy'.unique hy
      have hd' := hd.attach hx.isRoot hy.isRoot
      have hc' := hc.attach hx.isRoot hy.isRoot
      rw [if_pos rfl] at hd'
      rw [ite_eq_right_iff.2 fun _ => rfl] at hc'
      exact ⟨_, hc', hd'⟩
    rintro (⟨t, ha, hb⟩ | ⟨ha, hb⟩ | ⟨ha, hb⟩)
    · exact ⟨_, ha.attach hx.isRoot hy.isRoot, hb.attach hx.isRoot hy.isRoot⟩
    · exact hmerged a b ha hb
    · exact (hmerged b a hb ha).symm

theorem Connects.attach {R : α → α → Prop} (h : Connects R f) (hx : RootOf f x r) (hy : RootOf f y s) :
    Connects (fun a b => R a b ∨ a = x ∧ b = y) (Function.update f s (some r)) where
  rooted := h.rooted.attach hx.isRoot hy.isRoot
  sound := by
    intro a b hab
    have hold : ∀ {c d}, Same f c d → Relation.EqvGen (fun a b => R a b ∨ a = x ∧ b = y) c d :=
      fun hcd => Relation.EqvGen.mono (fun c d hr => Or.inl hr) _ _ (h.sound hcd)
    have hnew : Relation.EqvGen (fun a b => R a b ∨ a = x ∧ b = y) x y := .rel _ _ (.inr ⟨rfl, rfl⟩)
    rcases (h.rooted.same_attach hx hy a b).1 hab with hab | ⟨ha, hb⟩ | ⟨ha, hb⟩
    · exact hold hab
    · exact .trans _ _ _ (hold ha) (.trans _ _ _ hnew (hold hb.symm))
    · exact .trans _ _ _ (hold ha) (.trans _ _ _ (.symm _ _ hnew) (hold hb.symm))
  complete := by
    intro a b hab
    refine (h.rooted.same_attach hx hy a b).2 ?_
    rcases hab with hr | ⟨rfl, rfl⟩
    · exact .inl (h.complete hr)
    · exact .inr (.inl ⟨⟨r, hx, hx⟩, ⟨s, hy, hy⟩⟩)

end CppLinuxLearn.Lib.Forest
