import CppLinuxLearn.Lib.Steps
import Mathlib.Logic.Function.Basic
import Mathlib.Logic.Relation

/-!
# Taking turns with two semaphores

Two parties share a memory and go round a loop of `n` rounds: each waits on a semaphore of its own, makes its
accesses, and posts the semaphore of the other. One semaphore starts with 1 and the other with 0. Whatever the
interleaving, the memory is that of the turns taken one after the other (`Serial.run`); nobody waits for good
(`exists_step`), and where the accesses of a turn come to an end, so does every run (`Bounded.length_le`).
-/

namespace CppLinuxLearn.Lib.Handoff

open Steps

inductive Party
  | first | second
deriving DecidableEq, Repr

def Party.other : Party → Party
  | first => second
  | second => first

theorem Party.other_ne (p : Party) : p.other ≠ p := by cases p <;> decide

theorem Party.forall {P : Party → Prop} : (∀ p, P p) ↔ P first ∧ P second :=
  ⟨fun h => ⟨h _, h _⟩, fun h p => by cases p with | first => exact h.1 | second => exact h.2⟩

instance (P : Party → Prop) [DecidablePred P] : Decidable (∀ p, P p) := decidable_of_iff _ Party.forall.symm

/-- What a turn does to the memory. -/
structure Turns (M : Type) where
  /-- what a party does when it has passed its semaphore -/
  start : Party → M → M
  /-- the next access; `none` at the end of the turn -/
  access : Party → M → Option M

structure State (M : Type) where
  /-- the semaphore that a party waits on -/
  sem : Party → Nat
  /-- the rounds a party has not ended -/
  rounds : Party → Nat
  inside : Party → Bool
  mem : M

inductive Action
  | wait (p : Party)
  | access (p : Party)
  | post (p : Party)
deriving DecidableEq, Repr

/-- Who takes the step. -/
def Action.party : Action → Party
  | wait p | access p | post p => p

variable {M : Type}

/-- A semaphore of 1 for the party that goes first, and of 0 for the other. -/
def init (n : Nat) (m : M) : State M where
  sem
    | .first => 1
    | .second => 0
  rounds _ := n
  inside _ := false
  mem := m

def step (T : Turns M) (s : State M) : Action → Option (State M)
  | .wait p =>
    if s.inside p = false ∧ 0 < s.rounds p ∧ 0 < s.sem p then some { s with
      sem := Function.update s.sem p (s.sem p - 1)
      inside := Function.update s.inside p true
      mem := T.start p s.mem }
    else none
  | .access p =>
    if s.inside p = true then (T.access p s.mem).map fun mem => { s with mem } else none
  | .post p =>
    if s.inside p = true ∧ T.access p s.mem = none then some { s with
      sem := Function.update s.sem p.other (s.sem p.other + 1)
      inside := Function.update s.inside p false
      rounds := Function.update s.rounds p (s.rounds p - 1) }
    else none

/-! ## Turns one after the other -/

variable (T : Turns M)

/-- Accesses of a turn. -/
def Accesses (p : Party) : M → M → Prop := Relation.ReflTransGen fun m m' => T.access p m = some m'

/-- A whole turn. -/
def Turn (p : Party) (m m' : M) : Prop := Accesses T p (T.start p m) m' ∧ T.access p m' = none

/-- `k` times a turn of the first party and then one of the second. -/
def Alternate : Nat → M → M → Prop
  | 0, m, m' => m = m'
  | k + 1, m, m' => ∃ a b, Alternate k m a ∧ Turn T .first a b ∧ Turn T .second b m'

/-- Who is to go on, after `k` rounds of both that have left the memory `a`. -/
inductive Phase (n k : Nat) (a : M) (s : State M) : Prop
  | first (hsem : s.sem .first = 1 ∧ s.sem .second = 0) (hin : s.inside .first = false ∧ s.inside .second = false)
    (hrounds : s.rounds .first = n - k ∧ s.rounds .second = n - k) (hmem : s.mem = a)
  | inFirst (hsem : s.sem .first = 0 ∧ s.sem .second = 0) (hin : s.inside .first = true ∧ s.inside .second = false)
    (hrounds : s.rounds .first = n - k ∧ s.rounds .second = n - k) (hlt : k < n)
    (hmem : Accesses T .first (T.start .first a) s.mem)
  | second (hsem : s.sem .first = 0 ∧ s.sem .second = 1) (hin : s.inside .first = false ∧ s.inside .second = false)
    (hrounds : s.rounds .first = n - k - 1 ∧ s.rounds .second = n - k) (hlt : k < n) (hmem : Turn T .first a s.mem)
  | inSecond (b : M) (hsem : s.sem .first = 0 ∧ s.sem .second = 0)
    (hin : s.inside .first = false ∧ s.inside .second = true)
    (hrounds : s.rounds .first = n - k - 1 ∧ s.rounds .second = n - k) (hlt : k < n) (hturn : Turn T .first a b)
    (hmem : Accesses T .second (T.start .second b) s.mem)

/-- The memory is that of the turns so far, one after the other. -/
def Serial (n : Nat) (m : M) (s : State M) : Prop := ∃ k ≤ n, ∃ a, Alternate T k m a ∧ Phase T n k a s

variable {T} {n : Nat} {m : M} {s t : State M}

theorem serial_init (n : Nat) (m : M) : Serial T n m (init n m) :=
  ⟨0, Nat.zero_le n, m, rfl, .first ⟨rfl, rfl⟩ ⟨rfl, rfl⟩ ⟨rfl, rfl⟩ rfl⟩

theorem Serial.step (h : Serial T n m s) {a : Action} (hstep : step T s a = some t) : Serial T n m t := by
  obtain ⟨k, hk, a₀, halt, hphase⟩ := h
  cases a with
  | wait p =>
    obtain ⟨⟨hout, hleft, hsem⟩, hstep⟩ := Option.ite_none_right_eq_some.1 hstep
    obtain rfl := Option.some.inj hstep
    cases hphase with
    | first hs hi hr hm =>
      cases p with
      | first =>
        refine ⟨k, hk, a₀, halt, .inFirst ?_ ?_ hr (by omega) ?_⟩
        · simp [hs]
        · simp [hi]
        · rw [← hm]
          exact Relation.ReflTransGen.refl
      | second => simp [hs] at hsem
    | inFirst hs => cases p <;> simp [hs] at hsem
    | second hs hi hr hlt hm =>
      cases p with
      | first => simp [hs] at hsem
      | second =>
        refine ⟨k, hk, a₀, halt, .inSecond s.mem ?_ ?_ hr hlt hm Relation.ReflTransGen.refl⟩
        · simp [hs]
        · simp [hi]
    | inSecond b hs => cases p <;> simp [hs] at hsem
  | access p =>
    obtain ⟨hin, hstep⟩ := Option.ite_none_right_eq_some.1 hstep
    obtain ⟨mem, hmem, rfl⟩ := Option.map_eq_some_iff.1 hstep
    cases hphase with
    | first hs hi => cases p <;> simp [hi] at hin
    | inFirst hs hi hr hlt hm =>
      cases p with
      | first => exact ⟨k, hk, a₀, halt, .inFirst hs hi hr hlt (hm.tail hmem)⟩
      | second => simp [hi] at hin
    | second hs hi => cases p <;> simp [hi] at hin
    | inSecond b hs hi hr hlt ht hm =>
      cases p with
      | first => simp [hi] at hin
      | second => exact ⟨k, hk, a₀, halt, .inSecond b hs hi hr hlt ht (hm.tail hmem)⟩
  | post p =>
    obtain ⟨⟨hin, hend⟩, hstep⟩ := Option.ite_none_right_eq_some.1 hstep
    obtain rfl := Option.some.inj hstep
    cases hphase with
    | first hs hi => cases p <;> simp [hi] at hin
    | inFirst hs hi hr hlt hm =>
      cases p with
      | first =>
        refine ⟨k, hk, a₀, halt, .second ?_ ?_ ?_ hlt ⟨hm, hend⟩⟩
        · simp [Party.other, hs]
        · simp [hi]
        · simp [hr]
      | second => simp [hi] at hin
    | second hs hi => cases p <;> simp [hi] at hin
    | inSecond b hs hi hr hlt ht hm =>
      cases p with
      | first => simp [hi] at hin
      | second =>
        refine ⟨k + 1, hlt, s.mem, ⟨a₀, b, halt, ht, hm, hend⟩, .first ?_ ?_ ?_ rfl⟩
        · simp [Party.other, hs]
        · simp [hi]
        · simp [hr, Nat.sub_sub]

/-- **Whatever the interleaving, the memory is that of the turns one after the other.** -/
theorem Serial.run {as : List Action} (h : Serial T n m s) (hrun : Steps.run (Handoff.step T) s as = some t) :
    Serial T n m t :=
  run_invariant (fun _ _ _ hs hstep => hs.step hstep) h hrun

/-- Both parties have ended their loops. -/
def State.Done (s : State M) : Prop := ∀ p, s.rounds p = 0 ∧ s.inside p = false

theorem Serial.alternate (h : Serial T n m s) (hdone : s.Done) : Alternate T n m s.mem := by
  obtain ⟨k, hk, a, halt, hphase⟩ := h
  have hend := hdone .second
  cases hphase with
  | first hs hi hr hm =>
    obtain rfl : k = n := by omega
    rwa [hm]
  | inFirst hs hi hr hlt | second hs hi hr hlt | inSecond b hs hi hr hlt => omega

theorem Serial.alone (h : Serial T n m s) {p : Party} (hp : s.inside p = true) :
    s.inside p.other = false ∧ ∀ q, s.sem q = 0 := by
  obtain ⟨k, hk, a, halt, hphase⟩ := h
  cases hphase with
  | first hs hi | second hs hi => cases p <;> simp [hi] at hp
  | inFirst hs hi =>
    cases p with
    | first => exact ⟨hi.2, fun q => by cases q <;> simp [hs]⟩
    | second => simp [hi] at hp
  | inSecond b hs hi =>
    cases p with
    | first => simp [hi] at hp
    | second => exact ⟨hi.1, fun q => by cases q <;> simp [hs]⟩

/-- **Until both are done somebody can go on.** -/
theorem Serial.exists_step (h : Serial T n m s) (hnot : ¬ s.Done) : ∃ a, (Handoff.step T s a).isSome := by
  -- a party in its turn makes its next access, or it posts
  have hinside : ∀ p, s.inside p = true → ∃ a, (Handoff.step T s a).isSome := by
    intro p hp
    cases haccess : T.access p s.mem with
    | none => exact ⟨.post p, by simp [Handoff.step, hp, haccess]⟩
    | some mem => exact ⟨.access p, by simp [Handoff.step, hp, haccess]⟩
  obtain ⟨k, hk, a, halt, hphase⟩ := h
  cases hphase with
  | first hs hi hr hm =>
    have hlt : k < n := by
      by_contra hge
      refine hnot fun p => ?_
      cases p <;> simp [hi, hr] <;> omega
    exact ⟨.wait .first, by simp [Handoff.step, hs, hi, hr]; omega⟩
  | inFirst hs hi => exact hinside .first hi.1
  | second hs hi hr hlt => exact ⟨.wait .second, by simp [Handoff.step, hs, hi, hr]; omega⟩
  | inSecond b hs hi => exact hinside .second hi.2

/-! ## The end of a run -/

/-- Every turn comes to an end: it makes `bound` accesses at most. -/
structure Bounded (T : Turns M) (bound : Nat) where
  cost : Party → M → Nat
  start : ∀ p m, cost p (T.start p m) ≤ bound
  access : ∀ p m m', T.access p m = some m' → cost p m' < cost p m

/-- What a party has still to do. -/
def Bounded.ahead {bound : Nat} (B : Bounded T bound) (s : State M) (p : Party) : Nat :=
  if s.inside p then (s.rounds p - 1) * (bound + 2) + B.cost p s.mem + 1 else s.rounds p * (bound + 2)

theorem Bounded.step_lt {bound : Nat} (B : Bounded T bound) (h : Serial T n m s) {a : Action}
    (hstep : step T s a = some t) :
    B.ahead t .first + B.ahead t .second < B.ahead s .first + B.ahead s .second := by
  -- one party has less to do, and the other is outside, where the memory does not count
  obtain ⟨p, hless, hrounds, hout, hout'⟩ : ∃ p, B.ahead t p < B.ahead s p ∧ t.rounds p.other = s.rounds p.other ∧
      t.inside p.other = false ∧ s.inside p.other = false := by
    cases a with
    | wait p =>
      obtain ⟨⟨hout, hleft, hsem⟩, hstep⟩ := Option.ite_none_right_eq_some.1 hstep
      obtain rfl := Option.some.inj hstep
      have hother : s.inside p.other = false := by
        by_contra hin
        have := (h.alone (p := p.other) (by simpa using hin)).2 p
        omega
      refine ⟨p, ?_, rfl, by simp [p.other_ne, hother], hother⟩
      have hcost := B.start p s.mem
      obtain ⟨r, hr⟩ : ∃ r, s.rounds p = r + 1 := ⟨s.rounds p - 1, by omega⟩
      simp only [ahead, Function.update_self, if_true, hout, Bool.false_eq_true, if_false, hr, Nat.add_sub_cancel,
        Nat.succ_mul]
      omega
    | access p =>
      obtain ⟨hin, hstep⟩ := Option.ite_none_right_eq_some.1 hstep
      obtain ⟨mem, hmem, rfl⟩ := Option.map_eq_some_iff.1 hstep
      have hother := (h.alone hin).1
      refine ⟨p, ?_, rfl, hother, hother⟩
      have hcost := B.access p s.mem mem hmem
      simp only [ahead, hin, if_true]
      omega
    | post p =>
      obtain ⟨⟨hin, -⟩, hstep⟩ := Option.ite_none_right_eq_some.1 hstep
      obtain rfl := Option.some.inj hstep
      have hother := (h.alone hin).1
      refine ⟨p, ?_, by simp [p.other_ne], by simp [p.other_ne, hother], hother⟩
      simp only [ahead, Function.update_self, hin, Bool.false_eq_true, if_false, if_true]
      omega
  have hsame : B.ahead t p.other = B.ahead s p.other := by simp [ahead, hrounds, hout, hout']
  cases p with
  | first => exact Nat.add_lt_add_of_lt_of_le hless (Nat.le_of_eq hsame)
  | second => exact Nat.add_lt_add_of_le_of_lt (Nat.le_of_eq hsame) hless

/-- **No run goes on for ever.** -/
theorem Bounded.length_le {bound : Nat} (B : Bounded T bound) {as : List Action} (h : Serial T n m s)
    (hrun : run (step T) s as = some t) : as.length ≤ B.ahead s .first + B.ahead s .second := by
  have hle := length_le_of_measure (m := fun s => B.ahead s .first + B.ahead s .second) (c := fun _ => 0)
    (fun _ _ _ hs hstep => ⟨hs.step hstep, B.step_lt hs hstep⟩) h hrun
  rw [List.map_const', List.sum_replicate_nat, Nat.mul_zero] at hle
  omega

end CppLinuxLearn.Lib.Handoff
