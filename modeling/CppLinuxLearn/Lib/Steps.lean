import Mathlib.Algebra.Ring.Nat
import Mathlib.Data.List.Basic

/-!
# Runs of a step function, and histories

A system is a partial step function `step : S → A → Option S` over labelled actions; `run` takes a
list of them. `Meets C` says that every step of a run is taken where the condition `C` holds, and
`run_induction` is the invariant rule for such runs. `Throughout P` says that every state of a run has `P`,
and `Reaches P` that some run comes to a state with `P`.
`Always P` is a property of a log of events: each of them is as `P` says, given what was logged
before it. Where a state has a list of threads, a step of one of them changes how many of them have a
property, and what they have together, as it changes that thread.
-/

namespace CppLinuxLearn.Lib.Steps

section
variable {S A : Type} (step : S → A → Option S)

/-- The state after the given actions; `none` if one of them cannot be taken. -/
def run : S → List A → Option S
  | s, [] => some s
  | s, a :: as => (step s a).bind fun t => run t as

/-- Every step of the run is taken in a state, and with an action, that meet `C`. -/
def Meets (C : S → A → Prop) : S → List A → Prop
  | _, [] => True
  | s, a :: as => C s a ∧ ∀ t, step s a = some t → Meets C t as

instance Meets.decidable (C : S → A → Prop) [∀ s a, Decidable (C s a)] :
    ∀ (as : List A) (s : S), Decidable (Meets step C s as)
  | [], _ => .isTrue trivial
  | a :: as, s =>
    match h : step s a with
    | none => decidable_of_iff (C s a) ⟨fun hc => ⟨hc, fun t ht => by rw [h] at ht; cases ht⟩, And.left⟩
    | some t =>
      have := Meets.decidable C as t
      decidable_of_iff (C s a ∧ Meets step C t as)
        ⟨fun hm => ⟨hm.1, fun u hu => Option.some.inj (h.symm.trans hu) ▸ hm.2⟩, fun hm => ⟨hm.1, hm.2 t h⟩⟩

variable {step}

theorem run_cons {s t : S} {a : A} {as : List A} (h : run step s (a :: as) = some t) :
    ∃ u, step s a = some u ∧ run step u as = some t :=
  Option.bind_eq_some_iff.1 h

theorem run_append {s t : S} {as bs : List A} (h : run step s (as ++ bs) = some t) :
    ∃ u, run step s as = some u ∧ run step u bs = some t := by
  induction as generalizing s with
  | nil => exact ⟨s, rfl, h⟩
  | cons a as ih =>
    obtain ⟨v, hv, hrest⟩ := run_cons h
    obtain ⟨u, hu, hbs⟩ := ih hrest
    exact ⟨u, Option.bind_eq_some_iff.2 ⟨v, hv, hu⟩, hbs⟩

theorem run_append_of {s t u : S} {as bs : List A} (h : run step s as = some u) (h' : run step u bs = some t) :
    run step s (as ++ bs) = some t := by
  induction as generalizing s with
  | nil =>
    obtain rfl : s = u := Option.some.inj h
    exact h'
  | cons a as ih =>
    obtain ⟨v, hv, hrest⟩ := run_cons h
    exact Option.bind_eq_some_iff.2 ⟨v, hv, ih hrest⟩

theorem meets_append {C : S → A → Prop} {s : S} {as bs : List A} (h : Meets step C s (as ++ bs)) :
    Meets step C s as ∧ ∀ t, run step s as = some t → Meets step C t bs := by
  induction as generalizing s with
  | nil =>
    refine ⟨trivial, fun t ht => ?_⟩
    obtain rfl : s = t := Option.some.inj ht
    exact h
  | cons a as ih =>
    refine ⟨⟨h.1, fun t ht => (ih (h.2 t ht)).1⟩, fun t ht => ?_⟩
    obtain ⟨u, hu, hrest⟩ := run_cons ht
    exact (ih (h.2 u hu)).2 t hrest

theorem meets_append_of {C : S → A → Prop} {s : S} {as bs : List A} (h : Meets step C s as)
    (h' : ∀ t, run step s as = some t → Meets step C t bs) : Meets step C s (as ++ bs) := by
  induction as generalizing s with
  | nil => exact h' s rfl
  | cons a as ih =>
    exact ⟨h.1, fun u hu => ih (h.2 u hu) fun t ht => h' t (Option.bind_eq_some_iff.2 ⟨u, hu, ht⟩)⟩

/-- An invariant of the steps that meet `C` holds at the end of a run of such steps. -/
theorem run_induction {I : S → Prop} {C : S → A → Prop}
    (hstep : ∀ s a t, I s → C s a → step s a = some t → I t) {as : List A} {s t : S} (hs : I s)
    (hm : Meets step C s as) (h : run step s as = some t) : I t := by
  induction as generalizing s with
  | nil =>
    obtain rfl : s = t := Option.some.inj h
    exact hs
  | cons a as ih =>
    obtain ⟨u, hu, hrest⟩ := run_cons h
    exact ih (hstep s a u hs hm.1 hu) (hm.2 u hu) hrest

theorem meets_of_forall {C : S → A → Prop} {as : List A} (h : ∀ a ∈ as, ∀ s, C s a) (s : S) :
    Meets step C s as := by
  induction as generalizing s with
  | nil => trivial
  | cons a as ih =>
    exact ⟨h a List.mem_cons_self s, fun t _ => ih (fun b hb => h b (List.mem_cons_of_mem a hb)) t⟩

variable (step) in
/-- Some run from the state ends where `P` holds. -/
def Reaches (P : S → Prop) (s : S) : Prop := ∃ as t, run step s as = some t ∧ P t

theorem Reaches.here {P : S → Prop} {s : S} (h : P s) : Reaches step P s := ⟨[], s, rfl, h⟩

theorem Reaches.after {P : S → Prop} {s t : S} {a : A} (h : step s a = some t) (ht : Reaches step P t) :
    Reaches step P s := by
  obtain ⟨as, u, hrun, hu⟩ := ht
  exact ⟨a :: as, u, Option.bind_eq_some_iff.2 ⟨t, h, hrun⟩, hu⟩

/-- Where an invariant of the steps that meet a condition gives another, a run that meets the one meets the
other. -/
theorem meets_of_meets_run {I : S → Prop} {C D : S → A → Prop}
    (hstep : ∀ s a t, I s → C s a → step s a = some t → I t)
    (hD : ∀ s a t, I s → C s a → step s a = some t → D s a) {as : List A} {s t : S} (hs : I s)
    (hm : Meets step C s as) (h : run step s as = some t) : Meets step D s as := by
  induction as generalizing s with
  | nil => trivial
  | cons a as ih =>
    obtain ⟨u, hu, hrest⟩ := run_cons h
    refine ⟨hD s a u hs hm.1 hu, fun v hv => ?_⟩
    obtain rfl : u = v := Option.some.inj (hu.symm.trans hv)
    exact ih (hstep s a u hs hm.1 hu) (hm.2 u hu) hrest

theorem meets_of_run {I : S → Prop} {C : S → A → Prop} (hstep : ∀ s a t, I s → step s a = some t → I t)
    (hC : ∀ s a t, I s → step s a = some t → C s a) {as : List A} {s t : S} (hs : I s)
    (h : run step s as = some t) : Meets step C s as :=
  meets_of_meets_run (fun s a t hs _ ht => hstep s a t hs ht) (fun s a t hs _ ht => hC s a t hs ht) hs
    (meets_of_forall (C := fun _ _ => True) (fun _ _ _ => trivial) s) h

theorem meets_of_meets {I : S → Prop} {C D : S → A → Prop}
    (hstep : ∀ s a t, I s → C s a → step s a = some t → I t) (hD : ∀ s a, I s → C s a → D s a)
    {as : List A} {s : S} (hs : I s) (hm : Meets step C s as) : Meets step D s as := by
  induction as generalizing s with
  | nil => trivial
  | cons a as ih => exact ⟨hD s a hs hm.1, fun t ht => ih (hstep s a t hs hm.1 ht) (hm.2 t ht)⟩

theorem meets_congr {C D : S → A → Prop} (hCD : ∀ s a t, step s a = some t → (C s a ↔ D s a))
    {as : List A} {s t : S} (h : run step s as = some t) : Meets step C s as ↔ Meets step D s as := by
  induction as generalizing s with
  | nil => exact Iff.rfl
  | cons a as ih =>
    obtain ⟨u, hu, hrest⟩ := run_cons h
    refine and_congr (hCD s a u hu) (forall₂_congr fun v hv => ?_)
    obtain rfl : u = v := Option.some.inj (hu.symm.trans hv)
    exact ih hrest

theorem run_invariant {I : S → Prop} (hstep : ∀ s a t, I s → step s a = some t → I t) {as : List A}
    {s t : S} (hs : I s) (h : run step s as = some t) : I t :=
  run_induction (fun s a t hs _ ht => hstep s a t hs ht) hs
    (meets_of_forall (C := fun _ _ => True) (fun _ _ _ => trivial) s) h

/-- Where every step lowers a measure, but for what its action gives back, a run is no longer than the measure and what
its actions give back. -/
theorem length_le_of_measure {I : S → Prop} {m : S → Nat} {c : A → Nat}
    (hstep : ∀ s a t, I s → step s a = some t → I t ∧ m t + 1 ≤ m s + c a) {as : List A} {s t : S} (hs : I s)
    (h : run step s as = some t) : m t + as.length ≤ m s + (as.map c).sum := by
  induction as generalizing s with
  | nil =>
    obtain rfl : s = t := Option.some.inj h
    exact Nat.le_refl _
  | cons a as ih =>
    obtain ⟨u, hu, hrest⟩ := run_cons h
    obtain ⟨hI, hless⟩ := hstep s a u hs hu
    have hle := ih hI hrest
    rw [List.length_cons, List.map_cons, List.sum_cons]
    omega

variable (step) in
/-- Every state of the run has `P`, the first and the last included. -/
def Throughout (P : S → Prop) : S → List A → Prop
  | s, [] => P s
  | s, a :: as => P s ∧ ∀ t, step s a = some t → Throughout P t as

theorem Throughout.head {P : S → Prop} {s : S} {as : List A} (h : Throughout step P s as) : P s := by
  cases as with
  | nil => exact h
  | cons a as => exact h.1

theorem throughout_of_meets {I P : S → Prop} {C : S → A → Prop}
    (hstep : ∀ s a t, I s → C s a → step s a = some t → I t) (hI : ∀ s, I s → P s) {as : List A} {s : S}
    (hs : I s) (hm : Meets step C s as) : Throughout step P s as := by
  induction as generalizing s with
  | nil => exact hI s hs
  | cons a as ih => exact ⟨hI s hs, fun t ht => ih (hstep s a t hs hm.1 ht) (hm.2 t ht)⟩

/-- Where steps that meet `C` keep an invariant, which may count the steps to come, and steps that do not
leave `P`, the states of a run have `P` exactly if its steps meet `C`. -/
theorem throughout_iff_meets_of_length {I : Nat → S → Prop} {P : S → Prop} {C : S → A → Prop}
    (hstep : ∀ n s a t, I (n + 1) s → C s a → step s a = some t → I n t) (hI : ∀ n s, I n s → P s)
    (hC : ∀ n s a t, I (n + 1) s → step s a = some t → P t → C s a) {as : List A} {s t : S}
    (hs : I as.length s) (h : run step s as = some t) : Throughout step P s as ↔ Meets step C s as := by
  induction as generalizing s with
  | nil => exact iff_of_true (hI 0 s hs) trivial
  | cons a as ih =>
    obtain ⟨u, hu, hrest⟩ := run_cons h
    constructor
    · rintro ⟨-, hall⟩
      have hca := hC _ s a u hs hu (hall u hu).head
      refine ⟨hca, fun v hv => ?_⟩
      obtain rfl : u = v := Option.some.inj (hu.symm.trans hv)
      exact (ih (hstep _ s a u hs hca hu) hrest).1 (hall u hu)
    · rintro ⟨hca, hall⟩
      refine ⟨hI _ s hs, fun v hv => ?_⟩
      obtain rfl : u = v := Option.some.inj (hu.symm.trans hv)
      exact (ih (hstep _ s a u hs hca hu) hrest).2 (hall u hu)

theorem throughout_iff_meets {I P : S → Prop} {C : S → A → Prop}
    (hstep : ∀ s a t, I s → C s a → step s a = some t → I t) (hI : ∀ s, I s → P s)
    (hC : ∀ s a t, I s → step s a = some t → P t → C s a) {as : List A} {s t : S} (hs : I s)
    (h : run step s as = some t) : Throughout step P s as ↔ Meets step C s as :=
  throughout_iff_meets_of_length (I := fun _ => I) (fun _ => hstep) (fun _ => hI) (fun _ => hC) hs h

end

/-! ## Histories -/

section
variable {E : Type} (P : List E → E → Prop)

/-- Every event of the log is as `P` says, given the events before it. -/
def Always (log : List E) : Prop := ∀ pre e post, log = pre ++ e :: post → P pre e

theorem always_nil : Always P [] := fun pre e post h => by simp at h

theorem always_concat {log : List E} {e : E} : Always P (log ++ [e]) ↔ Always P log ∧ P log e := by
  constructor
  · intro h
    refine ⟨fun pre d post hlog => h pre d (post ++ [e]) (by simp [hlog]), h log e [] rfl⟩
  · rintro ⟨hlog, he⟩ pre d post h
    rcases List.eq_nil_or_concat post with rfl | ⟨post, f, rfl⟩
    · obtain ⟨rfl, hd⟩ := List.append_inj' h rfl
      obtain rfl : e = d := by simpa using hd
      exact he
    · have h' : log ++ [e] = (pre ++ d :: post) ++ [f] := by simpa using h
      obtain ⟨rfl, -⟩ := List.append_inj' h' rfl
      exact hlog pre d post rfl

end

/-! ## One thread of many -/

section
variable {T : Type} {l : List T} {i : Nat} {a : T}

theorem countP_set_add (h : l[i]? = some a) (p : T → Bool) (b : T) :
    (l.set i b).countP p + (p a).toNat = l.countP p + (p b).toNat := by
  obtain ⟨hi, rfl⟩ := List.getElem?_eq_some_iff.1 h
  have hle : (if p l[i] then 1 else 0) ≤ l.countP p := List.boole_getElem_le_countP hi
  have hnat : ∀ c : Bool, c.toNat = if c then 1 else 0 := by decide
  rw [List.countP_set hi, hnat, hnat]
  omega

theorem sum_map_set_add (h : l[i]? = some a) (f : T → Nat) (b : T) :
    ((l.set i b).map f).sum + f a = (l.map f).sum + f b := by
  induction l generalizing i with
  | nil => cases h
  | cons x l ih =>
    cases i with
    | zero =>
      obtain rfl : x = a := Option.some.inj h
      simp only [List.set_cons_zero, List.map_cons, List.sum_cons]
      omega
    | succ i =>
      have hrest := ih (i := i) h
      simp only [List.set_cons_succ, List.map_cons, List.sum_cons]
      omega

theorem countP_modify_add (h : l[i]? = some a) (p : T → Bool) (f : T → T) :
    (l.modify i f).countP p + (p a).toNat = l.countP p + (p (f a)).toNat := by
  have hset : l.modify i f = l.set i (f a) := by
    rw [List.modify_eq_set_getElem?, h]
    rfl
  rw [hset]
  exact countP_set_add h p (f a)

theorem filterMap_modify_perm {B : Type} (h : l[i]? = some a) (g : T → Option B) (f : T → T) :
    ((g (f a)).toList ++ l.filterMap g).Perm ((g a).toList ++ (l.modify i f).filterMap g) := by
  have hcons : ∀ (x : T) (xs : List T), (x :: xs).filterMap g = (g x).toList ++ xs.filterMap g := by
    intro x xs
    rw [List.filterMap_cons]
    cases g x <;> rfl
  induction l generalizing i with
  | nil => cases h
  | cons x l ih =>
    cases i with
    | zero =>
      obtain rfl : x = a := Option.some.inj h
      rw [List.modify_zero_cons, hcons, hcons]
      exact List.perm_append_comm_assoc _ _ _
    | succ i =>
      rw [List.modify_succ_cons, hcons, hcons]
      refine (List.perm_append_comm_assoc _ _ _).trans ?_
      refine ((ih h).append_left _).trans ?_
      exact List.perm_append_comm_assoc _ _ _

theorem filterMap_eraseIdx {B : Type} {g : T → Option B} (h : l[i]? = some a) (hg : g a = none) :
    (l.eraseIdx i).filterMap g = l.filterMap g := by
  obtain ⟨hi, rfl⟩ := List.getElem?_eq_some_iff.1 h
  rw [List.eraseIdx_eq_take_drop_succ, List.filterMap_append]
  conv_rhs => rw [← List.take_append_drop i l, List.drop_eq_getElem_cons hi, List.filterMap_append,
    List.filterMap_cons_none hg]

end

end CppLinuxLearn.Lib.Steps
