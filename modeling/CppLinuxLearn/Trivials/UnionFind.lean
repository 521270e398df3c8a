import CppLinuxLearn.Lib.Forest
import CppLinuxLearn.Lib.Steps
import CppLinuxLearn.Lib.Window

/-!
# Union and find

`union_find_trivial.cpp`. `vecFat` has the parent of each element; `find` lets every element that it passes
point to the root. Which side of an assignment is evaluated first makes a difference in the constructor only:
`vecFat[i] = i++` either assigns to the element `i` or to the one behind it.
-/

namespace CppLinuxLearn.Trivials.UnionFind

open Lib Window Forest

/-- Which side of an assignment is evaluated first. -/
inductive Order
  | indexFirst
  | valueFirst
deriving DecidableEq

/-- `for (; i < n; vecFat[i] = i++);` -/
def fill (order : Order) (n : Nat) : Nat → Int → List Int → Option (List Int)
  | 0, _, _ => none
  | fuel + 1, i, vecFat =>
    if i < n then do
      let vecFat ←
        match order with
        | .indexFirst => put vecFat i i
        | .valueFirst => put vecFat (i + 1) i
      fill order n fuel (i + 1) vecFat
    else some vecFat

/-- `UnionFindSet(n)` -/
def unionFindSet (order : Order) (n : Nat) : Option (List Int) := fill order n (n + 1) 0 (List.replicate n 0)

/-- `find(u)`: the root, and the vector after the call. -/
def find : Nat → List Int → Int → Option (Int × List Int)
  | 0, _, _ => none
  | fuel + 1, vecFat, u => do
    let parent ← get vecFat u
    if parent = u then some (parent, vecFat)
    else
      let (root, vecFat) ← find fuel vecFat parent
      let vecFat ← put vecFat u root
      some (root, vecFat)

/-- `unionVal(u, v)` -/
def unionVal (order : Order) (fuel : Nat) (vecFat : List Int) (u v : Int) : Option (List Int) :=
  match order with
  | .indexFirst => do
    let (index, vecFat) ← find fuel vecFat v
    let (value, vecFat) ← find fuel vecFat u
    put vecFat index value
  | .valueFirst => do
    let (value, vecFat) ← find fuel vecFat u
    let (index, vecFat) ← find fuel vecFat v
    put vecFat index value

/-- Following the parents, without a change. -/
def follow : Nat → List Int → Int → Option Int
  | 0, _, _ => none
  | fuel + 1, vecFat, u => do
    let parent ← get vecFat u
    if parent = u then some parent else follow fuel vecFat parent

variable {vecFat w x : List Int} {u v r s : Int} {fuel n : Nat} {order : Order}

theorem follow_of_rootOf (h : RootOf (get vecFat) u r) : ∃ N, ∀ fuel, N ≤ fuel → follow fuel vecFat u = some r := by
  induction h with
  | @root u h =>
    refine ⟨1, fun fuel hfuel => ?_⟩
    obtain ⟨fuel, rfl⟩ := Nat.exists_eq_add_of_le' hfuel
    rw [follow, h, Option.bind_eq_bind, Option.bind_some, if_pos rfl]
  | @step u p r h hne _ ih =>
    obtain ⟨N, hN⟩ := ih
    refine ⟨N + 1, fun fuel hfuel => ?_⟩
    obtain ⟨fuel, rfl⟩ := Nat.exists_eq_add_of_le' (Nat.le_of_add_left_le hfuel)
    rw [follow, h, Option.bind_eq_bind, Option.bind_some, if_neg hne]
    exact hN fuel (by omega)

theorem rootOf_of_follow (h : follow fuel vecFat u = some r) : RootOf (get vecFat) u r := by
  induction fuel generalizing u with
  | zero => cases h
  | succ fuel ih =>
    obtain ⟨p, hp, h⟩ := Option.bind_eq_some_iff.1 h
    split at h
    next heq =>
      obtain rfl := Option.some.inj h
      exact heq ▸ .root (heq ▸ hp)
    next hne => exact .step hp hne (ih h)

theorem rooted_of_follow (fuel : Nat) (h : ∀ i < vecFat.length, (follow fuel vecFat i).isSome) :
    Rooted (get vecFat) := by
  intro u hu
  obtain ⟨h0, hlt⟩ := isSome_get.1 hu
  obtain ⟨r, hr⟩ := Option.isSome_iff_exists.1 (h u.toNat (by omega))
  rw [Int.toNat_of_nonneg h0] at hr
  exact ⟨r, rootOf_of_follow hr⟩

/-! ## What `find` leaves -/

/-- The elements are the same, and each has its root. -/
structure Compresses (vecFat w : List Int) : Prop where
  length_eq : w.length = vecFat.length
  kept : ∀ {y s}, RootOf (get vecFat) y s → RootOf (get w) y s

namespace Compresses

theorem refl (vecFat : List Int) : Compresses vecFat vecFat := ⟨rfl, id⟩

theorem trans (h : Compresses vecFat w) (h' : Compresses w x) : Compresses vecFat x :=
  ⟨h'.length_eq.trans h.length_eq, fun hr => h'.kept (h.kept hr)⟩

theorem isSome (h : Compresses vecFat w) {y : Int} (hy : (get w y).isSome) : (get vecFat y).isSome :=
  isSome_get.2 (h.length_eq ▸ isSome_get.1 hy)

end Compresses

theorem get_set_eq_update (h : (get vecFat u).isSome) (r : Int) :
    get (vecFat.set u.toNat r) = Function.update (get vecFat) u (some r) := by
  funext y
  rw [get_set (isSome_get.1 h).1 (isSome_get.1 h).2, Function.update_apply]

theorem put_compresses (h : RootOf (get vecFat) u r) : ∃ w, put vecFat u r = some w ∧ Compresses vecFat w := by
  have hu := isSome_get.1 h.isSome
  refine ⟨_, put_eq hu.1 hu.2 r, List.length_set, fun hs => ?_⟩
  rw [get_set_eq_update h.isSome]
  exact h.compress hs

/-- The call ends with the root. The induction is on the path. -/
theorem find_spec (h : RootOf (get vecFat) u r) :
    ∃ w N, (∀ fuel, N ≤ fuel → find fuel vecFat u = some (r, w)) ∧ Compresses vecFat w := by
  induction h with
  | @root u h =>
    refine ⟨vecFat, 1, fun fuel hfuel => ?_, .refl vecFat⟩
    obtain ⟨fuel, rfl⟩ := Nat.exists_eq_add_of_le' hfuel
    rw [find, h, Option.bind_eq_bind, Option.bind_some, if_pos rfl]
  | @step u p r h hne hr ih =>
    obtain ⟨w, N, hN, hc⟩ := ih
    obtain ⟨x, hx, hc'⟩ := put_compresses (hc.kept (.step h hne hr))
    refine ⟨x, N + 1, fun fuel hfuel => ?_, hc.trans hc'⟩
    obtain ⟨fuel, rfl⟩ := Nat.exists_eq_add_of_le' (Nat.le_of_add_left_le hfuel)
    rw [find, h, Option.bind_eq_bind, Option.bind_some, if_neg hne, hN fuel (by omega)]
    simp only [Option.bind_eq_bind, Option.bind_some, hx]

theorem find_find (hu : RootOf (get vecFat) u r) (hv : RootOf (get vecFat) v s) :
    ∃ y x N, (∀ fuel, N ≤ fuel → find fuel vecFat u = some (r, y) ∧ find fuel y v = some (s, x)) ∧
      Compresses vecFat x := by
  obtain ⟨y, N, hN, hy⟩ := find_spec hu
  obtain ⟨x, M, hM, hx⟩ := find_spec (hy.kept hv)
  exact ⟨y, x, max N M, fun fuel hfuel => ⟨hN fuel (by omega), hM fuel (by omega)⟩, hy.trans hx⟩

theorem put_root (hx : Compresses vecFat x) (hv : RootOf (get vecFat) v s) (r : Int) :
    ∃ w, put x s r = some w ∧ w.length = vecFat.length ∧ get w = Function.update (get x) s (some r) := by
  have hsome : (get x s).isSome := Option.isSome_iff_exists.2 ⟨s, (hx.kept hv).isRoot⟩
  have hs := isSome_get.1 hsome
  refine ⟨_, put_eq hs.1 hs.2 r, ?_, get_set_eq_update hsome r⟩
  rw [List.length_set, hx.length_eq]

/-- Whichever call is first, the root of `v` comes to point to that of `u`. -/
theorem unionVal_spec (order : Order) (hu : RootOf (get vecFat) u r) (hv : RootOf (get vecFat) v s) :
    ∃ w x N, (∀ fuel, N ≤ fuel → unionVal order fuel vecFat u v = some w) ∧ Compresses vecFat x ∧
      w.length = vecFat.length ∧ get w = Function.update (get x) s (some r) := by
  cases order with
  | indexFirst =>
    obtain ⟨y, x, N, hN, hx⟩ := find_find hv hu
    obtain ⟨w, hw, hlen, hget⟩ := put_root hx hv r
    refine ⟨w, x, N, fun fuel hfuel => ?_, hx, hlen, hget⟩
    obtain ⟨hfirst, hsecond⟩ := hN fuel hfuel
    simp only [unionVal, hfirst, hsecond, Option.bind_eq_bind, Option.bind_some, hw]
  | valueFirst =>
    obtain ⟨y, x, N, hN, hx⟩ := find_find hu hv
    obtain ⟨w, hw, hlen, hget⟩ := put_root hx hv r
    refine ⟨w, x, N, fun fuel hfuel => ?_, hx, hlen, hget⟩
    obtain ⟨hfirst, hsecond⟩ := hN fuel hfuel
    simp only [unionVal, hfirst, hsecond, Option.bind_eq_bind, Option.bind_some, hw]

theorem Compresses.rooted (h : Compresses vecFat w) (hroot : Rooted (get vecFat)) : Rooted (get w) :=
  hroot.of_kept (fun _ => h.isSome) fun _ _ => h.kept

theorem Compresses.rootOf_iff (h : Compresses vecFat w) (hroot : Rooted (get vecFat)) (y s : Int) :
    RootOf (get w) y s ↔ RootOf (get vecFat) y s :=
  rootOf_iff_of_kept hroot (fun _ => h.isSome) fun _ _ => h.kept

theorem Compresses.same_iff (h : Compresses vecFat w) (hroot : Rooted (get vecFat)) (a b : Int) :
    Same (get w) a b ↔ Same (get vecFat) a b := by
  simp only [Same, h.rootOf_iff hroot]

/-- **Path compression agrees with following.** Where there is no cycle, `find` ends with the root, leaves no cycle
and every root as it was; and `unionVal` merges the two classes, and no others. -/
theorem find_agrees (vecFat : List Int) (hroot : Rooted (get vecFat)) :
    (∀ u : Int, 0 ≤ u → u < vecFat.length → ∃ r w N,
      (∀ fuel, N ≤ fuel → follow fuel vecFat u = some r ∧ find fuel vecFat u = some (r, w)) ∧
        w.length = vecFat.length ∧ Rooted (get w) ∧ ∀ y s, RootOf (get w) y s ↔ RootOf (get vecFat) y s) ∧
      ∀ order (u v : Int), 0 ≤ u → u < vecFat.length → 0 ≤ v → v < vecFat.length → ∃ w N,
        (∀ fuel, N ≤ fuel → unionVal order fuel vecFat u v = some w) ∧ w.length = vecFat.length ∧ Rooted (get w) ∧
          ∀ a b, Same (get w) a b ↔ Same (get vecFat) a b ∨ Same (get vecFat) a u ∧ Same (get vecFat) b v ∨
            Same (get vecFat) a v ∧ Same (get vecFat) b u := by
  refine ⟨fun u h0 hlt => ?_, fun order u v hu hult hv hvlt => ?_⟩
  · obtain ⟨r, hr⟩ := hroot u (isSome_get.2 ⟨h0, hlt⟩)
    obtain ⟨N, hN⟩ := follow_of_rootOf hr
    obtain ⟨w, M, hM, hc⟩ := find_spec hr
    exact ⟨r, w, max N M, fun fuel hfuel => ⟨hN fuel (by omega), hM fuel (by omega)⟩, hc.length_eq, hc.rooted hroot,
      hc.rootOf_iff hroot⟩
  · obtain ⟨r, hr⟩ := hroot u (isSome_get.2 ⟨hu, hult⟩)
    obtain ⟨s, hs⟩ := hroot v (isSome_get.2 ⟨hv, hvlt⟩)
    obtain ⟨w, x, N, hN, hx, hlen, hget⟩ := unionVal_spec order hr hs
    refine ⟨w, N, hN, hlen, ?_, fun a b => ?_⟩
    · rw [hget]
      exact (hx.rooted hroot).attach (hx.kept hr).isRoot (hx.kept hs).isRoot
    · rw [hget, (hx.rooted hroot).same_attach (hx.kept hr) (hx.kept hs)]
      simp only [hx.same_iff hroot]

theorem find_agrees_chain :
    (∀ u : Int, 0 ≤ u → u < 4 → ∃ r w N,
      (∀ fuel, N ≤ fuel → follow fuel [1, 2, 2, 0] u = some r ∧ find fuel [1, 2, 2, 0] u = some (r, w)) ∧
        w.length = 4 ∧ Rooted (get w) ∧ ∀ y s, RootOf (get w) y s ↔ RootOf (get [1, 2, 2, 0]) y s) ∧
      ∀ order (u v : Int), 0 ≤ u → u < 4 → 0 ≤ v → v < 4 → ∃ w N,
        (∀ fuel, N ≤ fuel → unionVal order fuel [1, 2, 2, 0] u v = some w) ∧ w.length = 4 ∧ Rooted (get w) ∧
          ∀ a b, Same (get w) a b ↔ Same (get [1, 2, 2, 0]) a b ∨
            Same (get [1, 2, 2, 0]) a u ∧ Same (get [1, 2, 2, 0]) b v ∨
            Same (get [1, 2, 2, 0]) a v ∧ Same (get [1, 2, 2, 0]) b u :=
  find_agrees [1, 2, 2, 0] (rooted_of_follow 4 (by decide))

example : find 4 [1, 2, 2, 0] 3 = some (2, [2, 2, 2, 2]) := by decide

/-! ## Runs -/

/-- A call. -/
inductive Call
  | find (u : Int)
  | unionVal (order : Order) (u v : Int)

/-- What a call leaves. -/
def Call.step (fuel : Nat) (vecFat : List Int) : Call → Option (List Int)
  | .find u => (UnionFind.find fuel vecFat u).map Prod.snd
  | .unionVal order u v => UnionFind.unionVal order fuel vecFat u v

/-- The arguments are elements. -/
def Call.Below (n : Nat) : Call → Prop
  | .find u => 0 ≤ u ∧ u < n
  | .unionVal _ u v => (0 ≤ u ∧ u < n) ∧ 0 ≤ v ∧ v < n

/-- The two were united by one of the calls. -/
def united (calls : List Call) (u v : Int) : Prop := ∃ order, Call.unionVal order u v ∈ calls

/-- Any calls on elements are answered, and afterwards `find` tells which elements their unions connect. -/
def Serves (n : Nat) (vecFat : List Int) : Prop :=
  ∀ calls : List Call, (∀ c ∈ calls, c.Below n) →
    ∃ w N, (∀ fuel, N ≤ fuel → Steps.run (Call.step fuel) vecFat calls = some w) ∧
      ∀ a b : Int, 0 ≤ a → a < n → 0 ≤ b → b < n →
        ∃ r s x y M, (∀ fuel, M ≤ fuel → find fuel w a = some (r, x) ∧ find fuel x b = some (s, y)) ∧
          (r = s ↔ Relation.EqvGen (united calls) a b)

/-- The state of a run: as many elements as at the beginning, and the classes that the relation generates. -/
structure Holds (n : Nat) (R : Int → Int → Prop) (vecFat : List Int) : Prop where
  length_eq : vecFat.length = n
  connects : Connects R (get vecFat)

variable {R S : Int → Int → Prop} {calls : List Call}

theorem Holds.rootOf (h : Holds n R vecFat) (h0 : 0 ≤ u) (hlt : u < n) : ∃ r, RootOf (get vecFat) u r :=
  h.connects.rooted u (isSome_get.2 ⟨h0, h.length_eq ▸ hlt⟩)

theorem Holds.of_compresses (h : Holds n R vecFat) (hc : Compresses vecFat w) : Holds n R w where
  length_eq := hc.length_eq.trans h.length_eq
  connects := h.connects.congr (fun _ => hc.isSome) fun _ _ => hc.kept

theorem Holds.step (h : Holds n R vecFat) {c : Call} (hc : c.Below n) :
    ∃ w N, (∀ fuel, N ≤ fuel → c.step fuel vecFat = some w) ∧ Holds n (fun a b => R a b ∨ united [c] a b) w := by
  cases c with
  | find u =>
    obtain ⟨r, hr⟩ := h.rootOf hc.1 hc.2
    obtain ⟨w, N, hN, hw⟩ := find_spec hr
    have hsame : (fun a b => R a b ∨ united [.find u] a b) = R := by
      funext a b
      simp [united]
    refine ⟨w, N, fun fuel hfuel => ?_, ?_⟩
    · rw [Call.step, hN fuel hfuel, Option.map_some]
    · rw [hsame]
      exact h.of_compresses hw
  | unionVal order u v =>
    obtain ⟨r, hr⟩ := h.rootOf hc.1.1 hc.1.2
    obtain ⟨s, hs⟩ := h.rootOf hc.2.1 hc.2.2
    obtain ⟨w, x, N, hN, hx, hlen, hget⟩ := unionVal_spec order hr hs
    have hpair : (fun a b => R a b ∨ united [.unionVal order u v] a b) = fun a b => R a b ∨ a = u ∧ b = v := by
      funext a b
      simp [united]
    refine ⟨w, N, hN, hlen.trans h.length_eq, ?_⟩
    rw [hpair, hget]
    exact (h.of_compresses hx).connects.attach (hx.kept hr) (hx.kept hs)

theorem Holds.run (h : Holds n R vecFat) (hc : ∀ c ∈ calls, c.Below n) :
    ∃ w N, (∀ fuel, N ≤ fuel → Steps.run (Call.step fuel) vecFat calls = some w) ∧
      Holds n (fun a b => R a b ∨ united calls a b) w := by
  induction calls generalizing vecFat R with
  | nil =>
    have hsame : (fun a b => R a b ∨ united [] a b) = R := by
      funext a b
      simp [united]
    refine ⟨vecFat, 0, fun _ _ => rfl, ?_⟩
    rw [hsame]
    exact h
  | cons c cs ih =>
    obtain ⟨x, N, hN, hx⟩ := h.step (hc c List.mem_cons_self)
    obtain ⟨w, M, hM, hw⟩ := ih hx fun d hd => hc d (List.mem_cons_of_mem c hd)
    have hall : (fun a b => (R a b ∨ united [c] a b) ∨ united cs a b) = fun a b => R a b ∨ united (c :: cs) a b := by
      funext a b
      simp only [united, List.mem_cons, List.not_mem_nil, or_false, exists_or, or_assoc]
    refine ⟨w, max N M, fun fuel hfuel => ?_, ?_⟩
    · rw [Steps.run, hN fuel (by omega), Option.bind_some, hM fuel (by omega)]
    · rw [← hall]
      exact hw

/-! ## The constructor -/

theorem fill_indexFirst {i : Int} (hlen : vecFat.length = n) (hfuel : n - i < fuel) (h0 : 0 ≤ i) (hpos : 0 < fuel)
    (hdone : ∀ j : Int, 0 ≤ j → j < i → j < n → get vecFat j = some j) :
    ∃ w, fill .indexFirst n fuel i vecFat = some w ∧ w.length = n ∧ ∀ j : Int, 0 ≤ j → j < n → get w j = some j := by
  induction fuel generalizing i vecFat with
  | zero => cases hpos
  | succ fuel ih =>
    rw [fill]
    by_cases hlt : i < n
    · have hput := put_eq (v := vecFat) h0 (by omega) i
      rw [if_pos hlt]
      simp only [Option.bind_eq_bind, hput, Option.bind_some]
      refine ih (by rw [List.length_set, hlen]) (by omega) (by omega) (by omega) fun j hj hji hjn => ?_
      rw [get_set h0 (by omega)]
      by_cases heq : j = i
      · rw [if_pos heq, heq]
      · rw [if_neg heq]
        exact hdone j hj (by omega) hjn
    · rw [if_neg hlt]
      exact ⟨vecFat, rfl, hlen, fun j hj hjn => hdone j hj (by omega) hjn⟩

theorem fill_valueFirst {i : Int} (hlen : vecFat.length = n) (h0 : 0 ≤ i) (hlt : i < n) :
    fill .valueFirst n fuel i vecFat = none := by
  induction fuel generalizing i vecFat with
  | zero => rfl
  | succ fuel ih =>
    rw [fill, if_pos hlt]
    by_cases hnext : i + 1 < n
    · simp only [Option.bind_eq_bind, put_eq (v := vecFat) (i := i + 1) (by omega) (by omega), Option.bind_some]
      exact ih (by rw [List.length_set, hlen]) (by omega) hnext
    · simp only [Option.bind_eq_bind, put_eq_none (v := vecFat) (i := i + 1) (by omega), Option.bind_none]

theorem holds_of_self (hlen : vecFat.length = n) (hself : ∀ j : Int, 0 ≤ j → j < n → get vecFat j = some j) :
    Holds n (fun _ _ => False) vecFat := by
  have hroot : ∀ j, (get vecFat j).isSome → RootOf (get vecFat) j j := fun j hj => by
    have := isSome_get.1 hj
    exact .root (hself j this.1 (by omega))
  refine ⟨hlen, fun j hj => ⟨j, hroot j hj⟩, ?_, False.elim⟩
  rintro a b ⟨r, ha, hb⟩
  rw [ha.unique (hroot a ha.isSome)] at hb
  rw [hb.unique (hroot b hb.isSome)]
  exact .refl _

theorem Holds.serves (h : Holds n (fun _ _ => False) vecFat) : Serves n vecFat := by
  intro calls hc
  obtain ⟨w, N, hN, hw⟩ := h.run hc
  refine ⟨w, N, hN, fun a b ha han hb hbn => ?_⟩
  obtain ⟨r, hr⟩ := hw.rootOf ha han
  obtain ⟨s, hs⟩ := hw.rootOf hb hbn
  obtain ⟨x, y, M, hM, -⟩ := find_find hr hs
  refine ⟨r, s, x, y, M, hM, ?_⟩
  rw [← hr.same_iff hs, hw.connects.same_iff hr.isSome]
  simp only [false_or]

/-- **The constructor and the calls.** The constructor stays inside the vector and leaves a forest that serves
any calls, exactly if the index is evaluated first or there is no element. -/
theorem unionFindSet_serves (order : Order) (n : Nat) :
    (∃ vecFat, unionFindSet order n = some vecFat ∧ Serves n vecFat) ↔ order = .indexFirst ∨ n = 0 := by
  constructor
  · rintro ⟨vecFat, h, -⟩
    by_contra hnot
    obtain ⟨hfirst, hn⟩ := not_or.1 hnot
    cases order with
    | indexFirst => exact hfirst rfl
    | valueFirst =>
      rw [unionFindSet, fill_valueFirst List.length_replicate le_rfl (by omega)] at h
      cases h
  · rintro (rfl | rfl)
    · have hfill : ∃ w, unionFindSet .indexFirst n = some w ∧ w.length = n ∧
          ∀ j : Int, 0 ≤ j → j < n → get w j = some j :=
        fill_indexFirst List.length_replicate (by omega) le_rfl (by omega) fun j hj hj' _ => by omega
      obtain ⟨w, hw, hlen, hself⟩ := hfill
      exact ⟨w, hw, (holds_of_self hlen hself).serves⟩
    · have hempty : Holds 0 (fun _ _ => False) [] := holds_of_self rfl fun j hj hj' => by omega
      exact ⟨[], by cases order <;> rfl, hempty.serves⟩

/-- One element: the first round assigns behind it. -/
theorem unionFindSet_outside : ¬ ∃ vecFat, unionFindSet .valueFirst 1 = some vecFat ∧ Serves 1 vecFat := by
  rintro ⟨vecFat, h, -⟩
  cases h

end CppLinuxLearn.Trivials.UnionFind
