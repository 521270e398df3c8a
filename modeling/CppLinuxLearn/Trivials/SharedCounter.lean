import CppLinuxLearn.Lib.Steps
import Mathlib.Data.List.Nodup

/-!
# Counters that two processes share

`ipc_atomic_trivial.cpp`: a parent and its child each increment an `atomic_int` twenty times and then an `int`
twenty times, where an increment is a load and a store. Of the first the processes print every number once. Of the
second increments are lost, and its last value may be anything from 2 to 40.
-/

namespace CppLinuxLearn.Trivials.SharedCounter

open Lib Steps

inductive Process
  | parent
  | child
deriving DecidableEq

def Process.other : Process → Process
  | parent => child
  | child => parent

@[simp] theorem Process.other_ne (p : Process) : p.other ≠ p := by cases p <;> decide

@[simp] theorem Process.ne_other (p : Process) : p ≠ p.other := by cases p <;> decide

@[simp] theorem Process.other_other (p : Process) : p.other.other = p := by cases p <;> rfl

theorem Process.eq_or (p q : Process) : q = p ∨ q = p.other := by cases p <;> cases q <;> decide

inductive Pc
  /-- at the loop over `*a_int` -/
  | atomic
  /-- at the loop over `*n_int` -/
  | numeric
  /-- in `(*n_int)++`, with what was loaded -/
  | store (t : Nat)
  | done
deriving DecidableEq

structure Proc where
  pc : Pc
  i : Nat
  /-- the lines `atomic=%d`, and the lines `numeric=%d` -/
  atomics : List Nat
  numerics : List Nat
deriving DecidableEq

structure Counters where
  a_int : Nat
  n_int : Nat
  procs : Process → Proc

def start : Counters := ⟨0, 0, fun _ => ⟨.atomic, 0, [], []⟩⟩

namespace Counters

variable (s : Counters) (p : Process) (proc : Proc)

def set : Counters := { s with procs := Function.update s.procs p proc }

@[simp] theorem set_a_int : (s.set p proc).a_int = s.a_int := rfl

@[simp] theorem set_n_int : (s.set p proc).n_int = s.n_int := rfl

@[simp] theorem set_procs_self : (s.set p proc).procs p = proc := Function.update_self ..

@[simp] theorem set_procs_other : (s.set p proc).procs p.other = s.procs p.other :=
  Function.update_of_ne p.other_ne ..

end Counters

/-- The next step of a process, where both loops have `n` rounds. A load and a store of an `int` are one step each. -/
def step (n : Nat) (s : Counters) (p : Process) : Option Counters :=
  let proc := s.procs p
  match proc.pc with
  | .atomic =>
    if proc.i < n then
      some ({ s with a_int := s.a_int + 1 }.set p { proc with
        i := proc.i + 1, atomics := proc.atomics ++ [s.a_int] })
    else some (s.set p { proc with pc := .numeric, i := 0 })
  | .numeric =>
    if proc.i < n then some (s.set p { proc with pc := .store s.n_int }) else some (s.set p { proc with pc := .done })
  | .store t =>
    some ({ s with n_int := t + 1 }.set p { proc with
      pc := .numeric, i := proc.i + 1, numerics := proc.numerics ++ [t] })
  | .done => none

def Done (s : Counters) : Prop := ∀ p, (s.procs p).pc = .done

/-! ## The atomic counter -/

/-- The rounds of the first loop that are behind the process. -/
def Proc.added (n : Nat) (proc : Proc) : Nat := if proc.pc = .atomic then proc.i else n

structure Tickets (n : Nat) (s : Counters) : Prop where
  perm : ((s.procs .parent).atomics ++ (s.procs .child).atomics).Perm (List.range s.a_int)
  sorted : ∀ p, (s.procs p).atomics.Pairwise (· < ·)
  below : ∀ p, ∀ t ∈ (s.procs p).atomics, t < s.a_int
  length : ∀ p, (s.procs p).atomics.length = (s.procs p).added n
  round : ∀ p, (s.procs p).i ≤ n

variable {n : Nat} {s t : Counters} {p : Process}

theorem tickets_start (n : Nat) : Tickets n start where
  perm := .refl _
  sorted _ := .nil
  below _ t ht := by cases ht
  length _ := rfl
  round _ := Nat.zero_le n

theorem Tickets.quiet (h : Tickets n s) (proc : Proc) (hatomics : proc.atomics = (s.procs p).atomics)
    (hadded : proc.added n = (s.procs p).added n) (hround : proc.i ≤ n) (m : Nat) :
    Tickets n ({ s with n_int := m }.set p proc) := by
  have hsame : ∀ q, (({ s with n_int := m } : Counters).set p proc).procs q = proc ∧ q = p ∨
      (({ s with n_int := m } : Counters).set p proc).procs q = s.procs q := by
    intro q
    rcases p.eq_or q with rfl | rfl
    · exact .inl ⟨by simp, rfl⟩
    · exact .inr (by simp)
  have hlines : ∀ q, ((({ s with n_int := m } : Counters).set p proc).procs q).atomics = (s.procs q).atomics := by
    intro q
    rcases hsame q with ⟨heq, rfl⟩ | heq
    · rw [heq, hatomics]
    · rw [heq]
  refine ⟨?_, fun q => ?_, fun q => ?_, fun q => ?_, fun q => ?_⟩
  · rw [hlines, hlines]
    exact h.perm
  · rw [hlines]
    exact h.sorted q
  · rw [hlines]
    exact h.below q
  · rw [hlines, h.length]
    rcases hsame q with ⟨heq, rfl⟩ | heq
    · rw [heq, hadded]
    · rw [heq]
  · rcases hsame q with ⟨heq, rfl⟩ | heq
    · rw [heq]
      exact hround
    · rw [heq]
      exact h.round q

theorem Tickets.add (h : Tickets n s) (hpc : (s.procs p).pc = .atomic) (hlt : (s.procs p).i < n) :
    Tickets n ({ s with a_int := s.a_int + 1 }.set p { s.procs p with
      i := (s.procs p).i + 1, atomics := (s.procs p).atomics ++ [s.a_int] }) := by
  refine ⟨?_, fun q => ?_, fun q t ht => ?_, fun q => ?_, fun q => ?_⟩
  · rw [Counters.set_a_int, List.range_succ]
    have hperm := h.perm
    cases p with
    | parent =>
      have hchild := Counters.set_procs_other { s with a_int := s.a_int + 1 } .parent { s.procs .parent with
        i := (s.procs .parent).i + 1, atomics := (s.procs .parent).atomics ++ [s.a_int] }
      dsimp only [Process.other] at hchild
      rw [Counters.set_procs_self, hchild, List.append_assoc]
      refine (List.perm_append_comm.append_left _).trans ?_
      rw [← List.append_assoc]
      exact hperm.append_right _
    | child =>
      have hparent := Counters.set_procs_other { s with a_int := s.a_int + 1 } .child { s.procs .child with
        i := (s.procs .child).i + 1, atomics := (s.procs .child).atomics ++ [s.a_int] }
      dsimp only [Process.other] at hparent
      rw [Counters.set_procs_self, hparent, ← List.append_assoc]
      exact hperm.append_right _
  · rcases p.eq_or q with rfl | rfl
    · rw [Counters.set_procs_self]
      refine List.pairwise_append.2 ⟨h.sorted q, List.pairwise_singleton _ _, fun a ha b hb => ?_⟩
      rw [List.mem_singleton.1 hb]
      exact h.below q a ha
    · rw [Counters.set_procs_other]
      exact h.sorted _
  · rcases p.eq_or q with rfl | rfl
    · rw [Counters.set_procs_self, List.mem_append, List.mem_singleton] at ht
      rcases ht with ht | rfl
      · exact Nat.lt_succ_of_lt (h.below q t ht)
      · exact Nat.lt_succ_self _
    · rw [Counters.set_procs_other] at ht
      exact Nat.lt_succ_of_lt (h.below _ t ht)
  · have hlength := h.length q
    rcases p.eq_or q with rfl | rfl
    · rw [Counters.set_procs_self]
      simp only [Proc.added, hpc, if_true, List.length_append, List.length_singleton] at hlength ⊢
      omega
    · rwa [Counters.set_procs_other]
  · rcases p.eq_or q with rfl | rfl
    · rw [Counters.set_procs_self]
      exact hlt
    · rw [Counters.set_procs_other]
      exact h.round _

/-! ## The other counter -/

/-- How often the process has stored. -/
def Proc.stored (proc : Proc) : Nat := if proc.pc = .atomic then 0 else proc.i

/-- How often both have. -/
def Counters.stores (s : Counters) : Nat := (s.procs .parent).stored + (s.procs .child).stored

/-- Once there was a store the counter is positive, and so is what is loaded behind the first round. -/
structure Ranged (n : Nat) (s : Counters) : Prop where
  upper : s.n_int ≤ s.stores
  loaded : ∀ p t, (s.procs p).pc = .store t → t ≤ s.stores ∧ (s.procs p).i < n ∧ (0 < (s.procs p).i → 0 < t)
  positive : ∀ p, 0 < (s.procs p).stored → 0 < s.n_int
  finished : ∀ p, (s.procs p).pc = .done → (s.procs p).i = n
  last : 2 ≤ n → (∀ p, (s.procs p).stored = n) → 2 ≤ s.n_int

theorem ranged_start (n : Nat) : Ranged n start where
  upper := Nat.zero_le _
  loaded _ _ h := by cases h
  positive _ h := absurd h (Nat.lt_irrefl 0)
  finished _ h := by cases h
  last _ h := by
    have hzero : 0 = n := h .parent
    omega

theorem stores_set (s : Counters) (p : Process) (proc : Proc) :
    (s.set p proc).stores + (s.procs p).stored = s.stores + proc.stored := by
  have hother := s.set_procs_other p proc
  have hself := s.set_procs_self p proc
  cases p with
  | parent =>
    dsimp only [Process.other] at hother
    rw [Counters.stores, Counters.stores, hself, hother]
    omega
  | child =>
    dsimp only [Process.other] at hother
    rw [Counters.stores, Counters.stores, hself, hother]
    omega

theorem Ranged.quiet (h : Ranged n s) (proc : Proc) (hstored : proc.stored = (s.procs p).stored)
    (hloaded : ∀ t, proc.pc = .store t → t = s.n_int ∧ proc.i < n) (hfinished : proc.pc = .done → proc.i = n)
    (a : Nat) : Ranged n ({ s with a_int := a }.set p proc) := by
  have hstores := stores_set { s with a_int := a } p proc
  have hsame : ({ s with a_int := a } : Counters).stores = s.stores := rfl
  have hupper := h.upper
  have heach : ∀ q, ((({ s with a_int := a } : Counters).set p proc).procs q).stored = (s.procs q).stored := by
    intro q
    rcases p.eq_or q with rfl | rfl
    · rw [Counters.set_procs_self, hstored]
    · rw [Counters.set_procs_other]
  dsimp only at hstores
  refine ⟨?_, fun q t ht => ?_, fun q hq => ?_, fun q hq => ?_, fun hn hall => ?_⟩
  · rw [Counters.set_n_int]
    dsimp only
    omega
  · rcases p.eq_or q with rfl | rfl
    · rw [Counters.set_procs_self] at ht ⊢
      obtain ⟨rfl, hlt⟩ := hloaded t ht
      refine ⟨by omega, hlt, fun hpos => h.positive q ?_⟩
      have hpc : proc.pc ≠ .atomic := by
        rw [ht]
        exact nofun
      rwa [← hstored, Proc.stored, if_neg hpc]
    · rw [Counters.set_procs_other] at ht ⊢
      obtain ⟨hle, hrest⟩ := h.loaded _ t ht
      exact ⟨by omega, hrest⟩
  · rw [heach] at hq
    exact h.positive q hq
  · rcases p.eq_or q with rfl | rfl
    · rw [Counters.set_procs_self] at hq ⊢
      exact hfinished hq
    · rw [Counters.set_procs_other] at hq ⊢
      exact h.finished _ hq
  · simp only [heach] at hall
    exact h.last hn hall

theorem Ranged.store (h : Ranged n s) {v : Nat} (hpc : (s.procs p).pc = .store v) (ns : List Nat) :
    Ranged n ({ s with n_int := v + 1 }.set p { s.procs p with
      pc := .numeric, i := (s.procs p).i + 1, numerics := ns }) := by
  obtain ⟨hle, hlt, hpos⟩ := h.loaded p v hpc
  have hold : (s.procs p).stored = (s.procs p).i := by
    rw [Proc.stored, if_neg (by rw [hpc]; exact nofun)]
  have hstores := stores_set { s with n_int := v + 1 } p { s.procs p with
    pc := .numeric, i := (s.procs p).i + 1, numerics := ns }
  have hsame : ({ s with n_int := v + 1 } : Counters).stores = s.stores := rfl
  have hnew : Proc.stored { s.procs p with pc := .numeric, i := (s.procs p).i + 1, numerics := ns } =
    (s.procs p).i + 1 := rfl
  dsimp only at hstores hnew ⊢
  refine ⟨?_, fun q t ht => ?_, fun q _ => Nat.succ_pos v, fun q hq => ?_, fun hn hall => ?_⟩
  · rw [Counters.set_n_int]
    dsimp only
    omega
  · rcases p.eq_or q with rfl | rfl
    · rw [Counters.set_procs_self] at ht
      cases ht
    · rw [Counters.set_procs_other] at ht ⊢
      obtain ⟨hle', hrest⟩ := h.loaded _ t ht
      exact ⟨by omega, hrest⟩
  · rcases p.eq_or q with rfl | rfl
    · rw [Counters.set_procs_self] at hq
      cases hq
    · rw [Counters.set_procs_other] at hq ⊢
      exact h.finished _ hq
  · -- the last store is of a round behind the first
    have hthis := hall p
    rw [Counters.set_procs_self, hnew] at hthis
    have hv := hpos (by omega)
    rw [Counters.set_n_int]
    dsimp only
    omega

/-! ## Runs -/

theorem step_cases (h : step n s p = some t) :
    ((s.procs p).pc = .atomic ∧ (s.procs p).i < n ∧ t = { s with a_int := s.a_int + 1 }.set p { s.procs p with
      i := (s.procs p).i + 1, atomics := (s.procs p).atomics ++ [s.a_int] }) ∨
    ((s.procs p).pc = .atomic ∧ n ≤ (s.procs p).i ∧ t = s.set p { s.procs p with pc := .numeric, i := 0 }) ∨
    ((s.procs p).pc = .numeric ∧ (s.procs p).i < n ∧ t = s.set p { s.procs p with pc := .store s.n_int }) ∨
    ((s.procs p).pc = .numeric ∧ n ≤ (s.procs p).i ∧ t = s.set p { s.procs p with pc := .done }) ∨
    ∃ v, (s.procs p).pc = .store v ∧ t = { s with n_int := v + 1 }.set p { s.procs p with
      pc := .numeric, i := (s.procs p).i + 1, numerics := (s.procs p).numerics ++ [v] } := by
  simp only [step] at h
  split at h
  · rename_i hpc
    split at h
    · rename_i hlt
      exact .inl ⟨hpc, hlt, (Option.some.inj h).symm⟩
    · rename_i hlt
      exact .inr (.inl ⟨hpc, Nat.le_of_not_lt hlt, (Option.some.inj h).symm⟩)
  · rename_i hpc
    split at h
    · rename_i hlt
      exact .inr (.inr (.inl ⟨hpc, hlt, (Option.some.inj h).symm⟩))
    · rename_i hlt
      exact .inr (.inr (.inr (.inl ⟨hpc, Nat.le_of_not_lt hlt, (Option.some.inj h).symm⟩)))
  · rename_i v hpc
    exact .inr (.inr (.inr (.inr ⟨v, hpc, (Option.some.inj h).symm⟩)))
  · cases h

/-- The invariants of the two counters. -/
structure Valid (n : Nat) (s : Counters) : Prop extends Tickets n s, Ranged n s

theorem Valid.step (h : Valid n s) (hstep : step n s p = some t) : Valid n t := by
  have hround := h.round p
  obtain ⟨hpc, hlt, rfl⟩ | ⟨hpc, hle, rfl⟩ | ⟨hpc, hlt, rfl⟩ | ⟨hpc, hle, rfl⟩ | ⟨v, hpc, rfl⟩ := step_cases hstep
  · refine ⟨h.add hpc hlt, h.toRanged.quiet _ ?_ ?_ ?_ _⟩
    · simp [Proc.stored, hpc]
    · simp [hpc]
    · simp [hpc]
  · refine ⟨h.toTickets.quiet { s.procs p with pc := .numeric, i := 0 } rfl ?_ (Nat.zero_le n) s.n_int,
      h.toRanged.quiet _ ?_ ?_ ?_ s.a_int⟩
    · simp only [Proc.added, hpc, reduceCtorEq, if_true, if_false]
      omega
    · simp [Proc.stored, hpc]
    · simp
    · simp
  · refine ⟨h.toTickets.quiet { s.procs p with pc := .store s.n_int } rfl ?_ hround s.n_int,
      h.toRanged.quiet _ ?_ ?_ ?_ s.a_int⟩
    · simp [Proc.added, hpc]
    · simp [Proc.stored, hpc]
    · intro w hw
      exact ⟨(Pc.store.inj hw).symm, hlt⟩
    · simp
  · refine ⟨h.toTickets.quiet { s.procs p with pc := .done } rfl ?_ hround s.n_int,
      h.toRanged.quiet _ ?_ ?_ ?_ s.a_int⟩
    · simp [Proc.added, hpc]
    · simp [Proc.stored, hpc]
    · simp
    · intro _
      exact Nat.le_antisymm hround hle
  · obtain ⟨-, hlt, -⟩ := h.loaded p v hpc
    refine ⟨h.toTickets.quiet { s.procs p with
      pc := .numeric, i := (s.procs p).i + 1, numerics := (s.procs p).numerics ++ [v] } rfl ?_ hlt (v + 1),
      h.toRanged.store hpc _⟩
    simp [Proc.added, hpc]

theorem Valid.start (n : Nat) : Valid n start := ⟨tickets_start n, ranged_start n⟩

theorem valid_run {ps : List Process} (h : run (step n) start ps = some t) : Valid n t :=
  run_invariant (fun _ _ _ hs => hs.step) (Valid.start n) h

theorem Valid.stored_done (h : Valid n s) (hdone : Done s) (p : Process) : (s.procs p).stored = n := by
  rw [← h.finished p (hdone p)]
  simp [Proc.stored, hdone p]

theorem Valid.a_int_done (h : Valid n s) (hdone : Done s) : s.a_int = 2 * n := by
  have hlength : ∀ p, (s.procs p).atomics.length = n := by
    intro p
    rw [h.length]
    simp [Proc.added, hdone p]
  have hperm := h.perm.length_eq
  rw [List.length_append, hlength, hlength, List.length_range] at hperm
  omega

/-- The lines of the first loops: no number is printed twice, none is left out, and those of one process ascend. -/
theorem atomic_once {ps : List Process} (h : run (step n) start ps = some t) :
    ((t.procs .parent).atomics ++ (t.procs .child).atomics).Perm (List.range t.a_int) ∧
      (∀ p, (t.procs p).atomics.Pairwise (· < ·)) ∧ (Done t → t.a_int = 2 * n) :=
  ⟨(valid_run h).perm, (valid_run h).sorted, (valid_run h).a_int_done⟩

/-- The child's round between the parent's load and its store is lost. -/
theorem atomic_once_childFirst : ∃ t, run (step 1) start
    [.child, .parent, .parent, .parent, .child, .child, .child, .child, .parent, .parent] = some t ∧
      t.n_int = 1 ∧ t.a_int = 2 := by
  obtain ⟨t, ht, hdone, hn⟩ : ∃ t, run (step 1) start
      [.child, .parent, .parent, .parent, .child, .child, .child, .child, .parent, .parent] = some t ∧
        Done t ∧ t.n_int = 1 := by
    refine ⟨_, rfl, fun p => ?_, rfl⟩
    cases p <;> rfl
  exact ⟨t, ht, hn, (atomic_once ht).2.2 hdone⟩

/-! ## Which values the other counter may end with -/

/-- A run comes to `s`: there `p` is at `pc` in round `i`, the other process at `pc'` in round `i'`, and the counter
is `v`. -/
structure Stands (n : Nat) (s : Counters) (p : Process) (pc : Pc) (i : Nat) (pc' : Pc) (i' : Nat) (v : Nat) : Prop where
  reached : ∃ ps, run (step n) start ps = some s
  pc : (s.procs p).pc = pc
  i : (s.procs p).i = i
  pc_other : (s.procs p.other).pc = pc'
  i_other : (s.procs p.other).i = i'
  n_int : s.n_int = v

namespace Stands

variable {pc pc' : Pc} {i i' v : Nat}

theorem swap (h : Stands n s p pc i pc' i' v) : Stands n s p.other pc' i' pc i v := by
  obtain ⟨hrun, hpc, hi, hpc', hi', hv⟩ := h
  refine ⟨hrun, hpc', hi', ?_, ?_, hv⟩
  · rwa [Process.other_other]
  · rwa [Process.other_other]

theorem next (h : Stands n s p pc i pc' i' v) (a m : Nat) (proc : Proc)
    (hstep : step n s p = some (({ s with a_int := a, n_int := m }).set p proc)) :
    ∃ t, Stands n t p proc.pc proc.i pc' i' m := by
  obtain ⟨⟨ps, hps⟩, -, -, hpc', hi', -⟩ := h
  refine ⟨({ s with a_int := a, n_int := m }).set p proc, ⟨ps ++ [p], run_append_of hps ?_⟩, ?_, ?_, ?_, ?_, rfl⟩
  · rw [run, hstep]
    rfl
  · rw [Counters.set_procs_self]
  · rw [Counters.set_procs_self]
  · rwa [Counters.set_procs_other]
  · rwa [Counters.set_procs_other]

theorem load (h : Stands n s p .numeric i pc' i' v) (hlt : i < n) : ∃ t, Stands n t p (.store v) i pc' i' v := by
  obtain ⟨-, hpc, rfl, -, -, rfl⟩ := id h
  exact h.next s.a_int s.n_int { s.procs p with pc := .store s.n_int } (by simp [step, hpc, hlt])

theorem store {w : Nat} (h : Stands n s p (.store w) i pc' i' v) :
    ∃ t, Stands n t p .numeric (i + 1) pc' i' (w + 1) := by
  obtain ⟨-, hpc, rfl, -, -, rfl⟩ := id h
  exact h.next s.a_int (w + 1) { s.procs p with
    pc := .numeric, i := (s.procs p).i + 1, numerics := (s.procs p).numerics ++ [w] } (by simp [step, hpc])

theorem leave (h : Stands n s p .numeric n pc' i' v) : ∃ t, Stands n t p .done n pc' i' v := by
  obtain ⟨-, hpc, hi, -, -, rfl⟩ := id h
  obtain ⟨t, ht⟩ := h.next s.a_int s.n_int { s.procs p with pc := .done } (by simp [step, hpc, hi])
  exact ⟨t, hi ▸ ht⟩

theorem numeric (h : Stands n s p .atomic i pc' i' v) (hle : i ≤ n) : ∃ t, Stands n t p .numeric 0 pc' i' v := by
  obtain ⟨k, hk⟩ := Nat.exists_eq_add_of_le hle
  induction k generalizing s i with
  | zero =>
    obtain ⟨-, hpc, rfl, -, -, rfl⟩ := id h
    exact h.next s.a_int s.n_int { s.procs p with pc := .numeric, i := 0 }
      (by simp [step, hpc, show ¬(s.procs p).i < n by omega])
  | succ k ih =>
    obtain ⟨-, hpc, rfl, -, -, rfl⟩ := id h
    obtain ⟨u, hu⟩ := h.next (s.a_int + 1) s.n_int { s.procs p with
      i := (s.procs p).i + 1, atomics := (s.procs p).atomics ++ [s.a_int] }
      (by simp [step, hpc, show (s.procs p).i < n by omega])
    dsimp only at hu
    rw [hpc] at hu
    exact ih hu (by omega) (by omega)

/-- `k` rounds of the second loop, while the other process stands still. -/
theorem rounds (h : Stands n s p .numeric i pc' i' v) (k : Nat) (hle : i + k ≤ n) :
    ∃ t, Stands n t p .numeric (i + k) pc' i' (v + k) := by
  induction k with
  | zero => exact ⟨s, h⟩
  | succ k ih =>
    obtain ⟨t, ht⟩ := ih (by omega)
    obtain ⟨u, hu⟩ := ht.load (by omega)
    exact hu.store

end Stands

theorem stands_start (n : Nat) : Stands n start .parent .atomic 0 .atomic 0 0 := ⟨⟨[], rfl⟩, rfl, rfl, rfl, rfl, rfl⟩

/-- The last value of the second counter is some number from 2 to the number of increments, and it may be each of
these. -/
theorem lost_updates (hn : 2 ≤ n) (v : Nat) :
    Reaches (step n) (fun t => Done t ∧ t.n_int = v) start ↔ 2 ≤ v ∧ v ≤ 2 * n := by
  constructor
  · rintro ⟨ps, t, hrun, hdone, rfl⟩
    have hvalid := valid_run hrun
    have hupper := hvalid.upper
    rw [Counters.stores, hvalid.stored_done hdone, hvalid.stored_done hdone] at hupper
    exact ⟨hvalid.last hn (hvalid.stored_done hdone), by omega⟩
  · rintro ⟨hlower, hupper⟩
    -- first `j` of the rounds, the last of neither process; then each stores over what the other did since its load
    obtain ⟨j, rfl⟩ := Nat.exists_eq_add_of_le' hlower
    obtain ⟨j₁, j₂, rfl, hj₁, hj₂⟩ : ∃ j₁ j₂, j = j₁ + j₂ ∧ j₁ < n ∧ j₂ < n := ⟨min j (n - 1), j - min j (n - 1), by omega⟩
    obtain ⟨s₁, h₁⟩ := (stands_start n).numeric (Nat.zero_le n)
    obtain ⟨s₂, h₂⟩ := h₁.swap.numeric (Nat.zero_le n)
    obtain ⟨s₃, h₃⟩ := h₂.swap.rounds j₁ (by omega)
    obtain ⟨s₄, h₄⟩ := h₃.swap.rounds j₂ (by omega)
    obtain ⟨s₅, h₅⟩ := h₄.swap.load (by omega)
    obtain ⟨s₆, h₆⟩ := h₅.swap.rounds (n - 1 - j₂) (by omega)
    obtain ⟨s₇, h₇⟩ := h₆.swap.store
    obtain ⟨s₈, h₈⟩ := h₇.swap.load (by omega)
    obtain ⟨s₉, h₉⟩ := h₈.swap.rounds (n - 1 - j₁) (by omega)
    obtain ⟨s₁₀, h₁₀⟩ := h₉.swap.store
    rw [show 0 + j₁ + 1 + (n - 1 - j₁) = n by omega, show 0 + j₂ + (n - 1 - j₂) + 1 = n by omega] at h₁₀
    obtain ⟨s₁₁, h₁₁⟩ := h₁₀.swap.leave
    obtain ⟨s₁₂, h₁₂⟩ := h₁₁.swap.leave
    obtain ⟨ps, hps⟩ := h₁₂.reached
    refine ⟨ps, s₁₂, hps, fun p => ?_, ?_⟩
    · cases p with
      | parent => exact h₁₂.pc_other
      | child => exact h₁₂.pc
    · rw [h₁₂.n_int]
      omega

theorem lost_updates_twenty : Reaches (step 20) (fun t => Done t ∧ t.n_int = 2) start :=
  (lost_updates (by decide) 2).2 (by decide)

end CppLinuxLearn.Trivials.SharedCounter
