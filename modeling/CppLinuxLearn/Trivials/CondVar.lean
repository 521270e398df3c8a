import CppLinuxLearn.Lib.Steps
import Mathlib.Data.List.Nodup

/-!
# Producers, a consumer and a condition variable

`cv_trivial.cpp`: `gcount` producers push under the mutex and notify behind it, one consumer takes `gcount` numbers
and waits while the queue is empty, and the main thread waits for their futures. In every interleaving the numbers
are consumed as they were produced, and no notification is lost: as long as the program is not at its end, some
thread can go on.
-/

namespace CppLinuxLearn.Trivials.CondVar

open Lib Steps

inductive Producer
  /-- in `sleep`, or at `mtx.lock()` -/
  | lock
  | push
  | unlock
  /-- at `cv.notify_one()` -/
  | notify
  /-- its future is ready -/
  | ready
deriving DecidableEq

inductive Consumer
  /-- at `while (k)` -/
  | test
  /-- at the lock -/
  | lock
  /-- at `while (gqueue.empty())` -/
  | check
  /-- in `cv.wait` -/
  | waiting
  /-- in `cv.wait`, notified; it needs the mutex again -/
  | woken
  /-- at the end of the block of the lock -/
  | unlock
  /-- its future is ready -/
  | ready
deriving DecidableEq

structure State where
  /-- some thread has the mutex -/
  mtx : Bool
  gqueue : List Nat
  k : Nat
  producers : List Producer
  consumer : Consumer
  /-- the lines `produce: i`, and the lines `consume: i` -/
  produced : List Nat
  consumed : List Nat
  /-- how many futures the main thread has got -/
  got : Nat
deriving DecidableEq

inductive Action
  | producer (i : Nat)
  | consumer
  /-- the consumer leaves its wait without a notification -/
  | spurious
  /-- the main thread gets the next future -/
  | get
deriving DecidableEq

def start (gcount : Nat) : State := ⟨false, [], gcount, List.replicate gcount .lock, .test, [], [], 0⟩

/-- `cv.notify_one()` -/
def Consumer.notified : Consumer → Consumer
  | waiting => woken
  | c => c

def step (gcount : Nat) (s : State) : Action → Option State
  | .producer i =>
    match s.producers[i]? with
    | some .lock =>
      if s.mtx then none else some { s with mtx := true, producers := s.producers.set i .push }
    | some .push => some { s with
        gqueue := s.gqueue ++ [i]
        produced := s.produced ++ [i]
        producers := s.producers.set i .unlock }
    | some .unlock => some { s with mtx := false, producers := s.producers.set i .notify }
    | some .notify => some { s with consumer := s.consumer.notified, producers := s.producers.set i .ready }
    | _ => none
  | .consumer =>
    match s.consumer with
    | .test => some { s with consumer := if s.k = 0 then .ready else .lock }
    | .lock | .woken => if s.mtx then none else some { s with mtx := true, consumer := .check }
    | .check =>
      match s.gqueue with
      | [] => some { s with mtx := false, consumer := .waiting }
      | i :: q => some { s with gqueue := q, consumed := s.consumed ++ [i], k := s.k - 1, consumer := .unlock }
    | .unlock => some { s with mtx := false, consumer := .test }
    | .waiting | .ready => none
  | .spurious => if s.consumer = .waiting then some { s with consumer := .woken } else none
  | .get =>
    if s.got < gcount then
      if s.producers[s.got]? = some .ready then some { s with got := s.got + 1 } else none
    else if s.got = gcount ∧ s.consumer = .ready then some { s with got := s.got + 1 } else none

/-- The main thread has got all futures. -/
def Done (gcount : Nat) (s : State) : Prop := s.got = gcount + 1

instance (gcount : Nat) (s : State) : Decidable (Done gcount s) := inferInstanceAs (Decidable (_ = _))

/-! ## The invariant -/

def Producer.holds : Producer → Bool
  | push | unlock => true
  | _ => false

/-- It has pushed its number. -/
def Producer.pushed : Producer → Bool
  | lock | push => false
  | _ => true

/-- It has still to notify. -/
def Producer.pending : Producer → Bool
  | unlock | notify => true
  | _ => false

def Consumer.holds : Consumer → Bool
  | check | unlock => true
  | _ => false

structure Sound (gcount : Nat) (s : State) : Prop where
  length : s.producers.length = gcount
  mutex : s.producers.countP Producer.holds + s.consumer.holds.toNat = s.mtx.toNat
  fifo : s.produced = s.consumed ++ s.gqueue
  counted : s.k + s.consumed.length = gcount
  pushed : ∀ i, i ∈ s.produced ↔ ∃ p : Producer, s.producers[i]? = some p ∧ p.pushed = true
  nodup : s.produced.Nodup
  /-- who waits with something in the queue will be notified -/
  heard : s.consumer = .waiting →
    s.gqueue = [] ∨ ∃ (i : Nat) (p : Producer), s.producers[i]? = some p ∧ p.pending = true
  more : s.consumer = .lock ∨ s.consumer = .check ∨ s.consumer = .waiting ∨ s.consumer = .woken → 0 < s.k
  last : s.consumer = .ready → s.k = 0
  futures : s.got ≤ gcount + 1
  gotten : ∀ i < s.got, i < gcount → s.producers[i]? = some .ready
  finished : s.got = gcount + 1 → s.consumer = .ready

variable {gcount : Nat} {s t : State}

theorem sound_start (gcount : Nat) : Sound gcount (start gcount) where
  length := List.length_replicate
  mutex := by simp [start, Producer.holds, Consumer.holds, List.countP_replicate]
  fifo := rfl
  counted := by simp [start]
  pushed i := by
    simp only [start, List.not_mem_nil, false_iff, not_exists, not_and]
    intro p hp
    obtain rfl := List.eq_of_mem_replicate (List.mem_of_getElem? hp)
    simp [Producer.pushed]
  nodup := List.nodup_nil
  heard := by simp [start]
  more := by simp [start]
  last := by simp [start]
  futures := Nat.zero_le _
  gotten i hi := absurd hi (Nat.not_lt_zero i)
  finished hgot := by cases hgot

/-! ## A step of a producer -/

theorem exists_set {l : List Producer} {i : Nat} {p : Producer} (h : l[i]? = some p) (p' : Producer)
    (P : Producer → Bool) (j : Nat) : (∃ q, (l.set i p')[j]? = some q ∧ P q = true) ↔
      if j = i then P p' = true else ∃ q, l[j]? = some q ∧ P q = true := by
  by_cases hj : j = i
  · subst hj
    rw [List.getElem?_set_self (List.getElem?_eq_some_iff.1 h).1, if_pos rfl]
    simp
  · rw [List.getElem?_set_ne (Ne.symm hj), if_neg hj]

theorem Sound.setProducer (h : Sound gcount s) {i : Nat} {p : Producer} (p' : Producer)
    (hp : s.producers[i]? = some p) (hne : p ≠ .ready) (hsame : p'.pushed = p.pushed)
    (ht : t.producers = s.producers.set i p') (hqueue : t.gqueue = s.gqueue) (hproduced : t.produced = s.produced)
    (hconsumed : t.consumed = s.consumed) (hk : t.k = s.k)
    (hgot : t.got = s.got)
    (hconsumer : t.consumer = s.consumer ∨ s.consumer = .waiting ∧ t.consumer = .woken)
    (hmutex : p'.holds.toNat + s.mtx.toNat = p.holds.toNat + t.mtx.toNat)
    (hheard : t.consumer = .waiting → p.pending = true → p'.pending = true) : Sound gcount t where
  length := by rw [ht, List.length_set, h.length]
  mutex := by
    have hcount := countP_set_add hp Producer.holds p'
    have hm := h.mutex
    have hholds : t.consumer.holds = s.consumer.holds := by
      rcases hconsumer with heq | ⟨hwait, hwoken⟩
      · rw [heq]
      · rw [hwait, hwoken]
        rfl
    rw [ht, hholds]
    omega
  fifo := by rw [hproduced, hconsumed, hqueue, h.fifo]
  counted := by rw [hk, hconsumed, h.counted]
  pushed j := by
    rw [hproduced, ht, exists_set hp p' Producer.pushed, h.pushed]
    split
    · rename_i hj
      subst hj
      rw [hsame]
      simp [hp]
    · rfl
  nodup := by rw [hproduced]; exact h.nodup
  heard hwait := by
    have hwas : s.consumer = .waiting := by
      rcases hconsumer with heq | ⟨hwait', -⟩
      · rw [← heq, hwait]
      · exact hwait'
    rw [hqueue, ht]
    rcases h.heard hwas with hnil | ⟨j, hj⟩
    · exact .inl hnil
    · refine .inr ⟨j, (exists_set hp p' Producer.pending j).2 ?_⟩
      split
      · rename_i hji
        subst hji
        apply hheard hwait
        obtain ⟨q, hq, hpending⟩ := hj
        obtain rfl := Option.some.inj (hq.symm.trans hp)
        exact hpending
      · exact hj
  more hmore := by
    rw [hk]
    rcases hconsumer with heq | ⟨hwait, -⟩
    · exact h.more (heq ▸ hmore)
    · exact h.more (.inr (.inr (.inl hwait)))
  last hready := by
    rw [hk]
    rcases hconsumer with heq | ⟨-, hwoken⟩
    · exact h.last (heq ▸ hready)
    · rw [hwoken] at hready
      cases hready
  futures := hgot ▸ h.futures
  gotten j hj hlt := by
    rw [hgot] at hj
    have hready := h.gotten j hj hlt
    have hji : i ≠ j := by
      rintro rfl
      exact hne (Option.some.inj (hp.symm.trans hready))
    rw [ht, List.getElem?_set_ne hji, hready]
  finished hfin := by
    rw [hgot] at hfin
    have hready := h.finished hfin
    rcases hconsumer with heq | ⟨hwait, -⟩
    · rw [heq, hready]
    · rw [hready] at hwait
      cases hwait

theorem Sound.producer (h : Sound gcount s) {i : Nat} (hstep : step gcount s (.producer i) = some t) :
    Sound gcount t := by
  simp only [step] at hstep
  split at hstep
  · rename_i hp
    split at hstep
    · cases hstep
    · rename_i hfree
      obtain rfl := Option.some.inj hstep
      refine h.setProducer .push hp nofun rfl rfl rfl rfl rfl rfl rfl (.inl rfl) ?_ nofun
      simp [hfree, Producer.holds]
  · rename_i hp
    obtain rfl := Option.some.inj hstep
    have hnew : i ∉ s.produced := by
      rw [h.pushed]
      rintro ⟨q, hq, hpushed⟩
      obtain rfl := Option.some.inj (hq.symm.trans hp)
      cases hpushed
    have hcount := countP_set_add hp Producer.holds .unlock
    refine ⟨?_, ?_, ?_, h.counted, fun j => ?_, ?_, fun _ => .inr ⟨i, .unlock, ?_, rfl⟩, h.more, h.last, h.futures,
      fun j hj hlt => ?_, h.finished⟩
    · rw [List.length_set, h.length]
    · have hm := h.mutex
      simp only [Producer.holds] at hcount ⊢
      omega
    · rw [h.fifo, List.append_assoc]
    · rw [List.mem_append, List.mem_singleton, exists_set hp .unlock Producer.pushed, h.pushed]
      split
      · simp [*, Producer.pushed]
      · simp [*]
    · exact List.nodup_append_comm.1 (List.nodup_cons.2 ⟨hnew, h.nodup⟩)
    · exact List.getElem?_set_self (List.getElem?_eq_some_iff.1 hp).1
    · have hready := h.gotten j hj hlt
      have hji : i ≠ j := by
        rintro rfl
        cases hp.symm.trans hready
      exact (List.getElem?_set_ne hji).trans hready
  · rename_i hp
    obtain rfl := Option.some.inj hstep
    -- who unlocks had the mutex
    have hlocked : s.mtx = true := by
      have hm := h.mutex
      have hpos := List.countP_pos_iff.2 ⟨_, List.mem_of_getElem? hp, (rfl : Producer.holds .unlock = true)⟩
      by_contra hfree
      rw [Bool.not_eq_true] at hfree
      rw [hfree, Bool.toNat_false] at hm
      omega
    refine h.setProducer .notify hp nofun rfl rfl rfl rfl rfl rfl rfl (.inl rfl) ?_ fun _ _ => rfl
    simp [hlocked, Producer.holds]
  · rename_i hp
    obtain rfl := Option.some.inj hstep
    refine h.setProducer .ready hp nofun rfl rfl rfl rfl rfl rfl rfl ?_ rfl ?_
    · cases hc : s.consumer with
      | waiting => exact .inr ⟨rfl, by simp [Consumer.notified]⟩
      | _ => exact .inl (by simp [Consumer.notified])
    · intro hwait
      cases hc : s.consumer <;> simp [hc, Consumer.notified] at hwait
  · cases hstep

/-! ## The other steps -/

theorem Sound.setConsumer (h : Sound gcount s) (c : Consumer) (mtx : Bool) (hbusy : s.consumer ≠ .ready)
    (hmutex : c.holds.toNat + s.mtx.toNat = s.consumer.holds.toNat + mtx.toNat)
    (hheard : c = .waiting → s.gqueue = [])
    (hmore : c = .lock ∨ c = .check ∨ c = .waiting ∨ c = .woken → 0 < s.k) (hlast : c = .ready → s.k = 0) :
    Sound gcount { s with mtx := mtx, consumer := c } where
  length := h.length
  mutex := by
    have hm := h.mutex
    dsimp only
    omega
  fifo := h.fifo
  counted := h.counted
  pushed := h.pushed
  nodup := h.nodup
  heard hwait := .inl (hheard hwait)
  more := hmore
  last := hlast
  futures := h.futures
  gotten := h.gotten
  finished hfin := absurd (h.finished hfin) hbusy

theorem Sound.consumer (h : Sound gcount s) (hstep : step gcount s .consumer = some t) : Sound gcount t := by
  have hm := h.mutex
  have hmore := h.more
  simp only [step] at hstep
  split at hstep
  · rename_i hc
    obtain rfl := Option.some.inj hstep
    rw [hc] at hmore
    refine h.setConsumer _ s.mtx (by rw [hc]; exact nofun) ?_ ?_ ?_ ?_
    · rw [hc]
      split <;> rfl
    all_goals
      split <;> simp
    all_goals
      omega
  · rename_i hc
    rw [hc] at hm hmore
    split at hstep
    · cases hstep
    · rename_i hfree
      obtain rfl := Option.some.inj hstep
      refine h.setConsumer .check true (by rw [hc]; exact nofun) ?_ nofun (fun _ => hmore (.inl rfl)) nofun
      rw [Bool.not_eq_true] at hfree
      rw [hc, hfree]
      rfl
  · rename_i hc
    rw [hc] at hm hmore
    split at hstep
    · cases hstep
    · rename_i hfree
      obtain rfl := Option.some.inj hstep
      refine h.setConsumer .check true (by rw [hc]; exact nofun) ?_ nofun ?_ nofun
      swap
      · exact fun _ => hmore (.inr (.inr (.inr rfl)))
      rw [Bool.not_eq_true] at hfree
      rw [hc, hfree]
      rfl
  · rename_i hc
    rw [hc] at hm hmore
    -- who looks into the queue has the mutex
    have hlocked : s.mtx = true := by
      by_contra hfree
      rw [Bool.not_eq_true] at hfree
      rw [hfree] at hm
      simp [Consumer.holds] at hm
    have hpos : 0 < s.k := hmore (.inr (.inl rfl))
    split at hstep
    · rename_i hnil
      obtain rfl := Option.some.inj hstep
      refine h.setConsumer .waiting false (by rw [hc]; exact nofun) ?_ (fun _ => hnil) (fun _ => hpos) nofun
      rw [hc, hlocked]
      rfl
    · rename_i i q hq
      obtain rfl := Option.some.inj hstep
      have hcounted := h.counted
      refine ⟨h.length, ?_, ?_, ?_, h.pushed, h.nodup, nofun, by simp, nofun, h.futures, h.gotten, fun hfin => ?_⟩
      · simpa [Consumer.holds] using hm
      · rw [h.fifo, hq, List.append_assoc]
        rfl
      · rw [List.length_append, List.length_singleton]
        dsimp only
        omega
      · cases hc.symm.trans (h.finished hfin)
  · rename_i hc
    rw [hc] at hm
    have hlocked : s.mtx = true := by
      by_contra hfree
      rw [Bool.not_eq_true] at hfree
      rw [hfree] at hm
      simp [Consumer.holds] at hm
    obtain rfl := Option.some.inj hstep
    refine h.setConsumer .test false (by rw [hc]; exact nofun) ?_ nofun (by simp) nofun
    rw [hc, hlocked]
    rfl
  all_goals cases hstep

theorem Sound.step (h : Sound gcount s) {a : Action} (hstep : step gcount s a = some t) : Sound gcount t := by
  cases a with
  | producer i => exact h.producer hstep
  | consumer => exact h.consumer hstep
  | spurious =>
    obtain ⟨hc, hstep⟩ := Option.ite_none_right_eq_some.1 hstep
    obtain rfl := Option.some.inj hstep
    refine h.setConsumer .woken s.mtx (by rw [hc]; exact nofun) ?_ nofun (fun _ => h.more (.inr (.inr (.inl hc)))) nofun
    rw [hc]
    rfl
  | get =>
    have hgot := h.futures
    obtain ⟨hlt, hready, hfin, rfl⟩ : s.got < gcount + 1 ∧ (s.got < gcount → s.producers[s.got]? = some .ready) ∧
        (s.got = gcount → s.consumer = .ready) ∧ t = { s with got := s.got + 1 } := by
      simp only [CondVar.step] at hstep
      split at hstep
      · obtain ⟨hready, hstep⟩ := Option.ite_none_right_eq_some.1 hstep
        exact ⟨by omega, fun _ => hready, by omega, (Option.some.inj hstep).symm⟩
      · obtain ⟨⟨heq, hc⟩, hstep⟩ := Option.ite_none_right_eq_some.1 hstep
        exact ⟨by omega, by omega, fun _ => hc, (Option.some.inj hstep).symm⟩
    refine ⟨h.length, h.mutex, h.fifo, h.counted, h.pushed, h.nodup, h.heard, h.more, h.last, hlt,
      fun i hi hin => ?_, fun heq => hfin (Nat.succ.inj heq)⟩
    rcases Nat.lt_succ_iff_lt_or_eq.1 hi with hi | rfl
    · exact h.gotten i hi hin
    · exact hready hin

theorem sound_run {as : List Action} (h : run (step gcount) (start gcount) as = some s) : Sound gcount s :=
  run_invariant (fun _ _ _ hu => hu.step) (sound_start gcount) h

/-! ## Somebody can go on -/

theorem Sound.mem_produced (h : Sound gcount s) (hall : ∀ p ∈ s.producers, p = .ready) {i : Nat} :
    i ∈ s.produced ↔ i < gcount := by
  rw [h.pushed, ← h.length]
  constructor
  · rintro ⟨p, hp, -⟩
    exact (List.getElem?_eq_some_iff.1 hp).1
  · intro hi
    refine ⟨s.producers[i], List.getElem?_eq_getElem hi, ?_⟩
    rw [hall _ (List.getElem_mem hi)]
    rfl

theorem Sound.produced_perm (h : Sound gcount s) (hall : ∀ p ∈ s.producers, p = .ready) :
    s.produced.Perm (List.range gcount) := by
  rw [List.perm_ext_iff_of_nodup h.nodup List.nodup_range]
  intro i
  rw [h.mem_produced hall, List.mem_range]

theorem Sound.exists_step (h : Sound gcount s) (hdone : ¬ Done gcount s) :
    ∃ a, a ≠ .spurious ∧ (CondVar.step gcount s a).isSome := by
  have hm := h.mutex
  by_cases hbusy : ∃ (i : Nat) (p : Producer), s.producers[i]? = some p ∧ p ≠ .lock ∧ p ≠ .ready
  · obtain ⟨i, p, hp, hlock, hready⟩ := hbusy
    refine ⟨.producer i, nofun, ?_⟩
    cases p with
    | lock => exact absurd rfl hlock
    | ready => exact absurd rfl hready
    | _ => simp [CondVar.step, hp]
  have hidle : ∀ (i : Nat) (p : Producer), s.producers[i]? = some p → p = .lock ∨ p = .ready := by
    intro i p hp
    by_contra hnot
    rw [not_or] at hnot
    exact hbusy ⟨i, p, hp, hnot.1, hnot.2⟩
  -- no producer has the mutex
  have hzero : s.producers.countP Producer.holds = 0 := by
    rw [List.countP_eq_zero]
    intro p hp
    obtain ⟨i, hi⟩ := List.mem_iff_getElem?.1 hp
    rcases hidle i p hi with rfl | rfl <;> simp [Producer.holds]
  by_cases hlock : ∃ i : Nat, s.producers[i]? = some .lock ∧ s.mtx = false
  · obtain ⟨i, hi, hfree⟩ := hlock
    exact ⟨.producer i, nofun, by simp [CondVar.step, hi, hfree]⟩
  -- and the mutex is free unless the consumer has it
  have hfree : s.consumer.holds = false → s.mtx = false := by
    intro hnot
    rw [hzero, hnot] at hm
    cases hb : s.mtx with
    | false => rfl
    | true =>
      rw [hb] at hm
      cases hm
  have hall : s.consumer.holds = false → ∀ p ∈ s.producers, p = .ready := by
    intro hnot p hp
    obtain ⟨i, hi⟩ := List.mem_iff_getElem?.1 hp
    rcases hidle i p hi with rfl | rfl
    · exact absurd ⟨i, hi, hfree hnot⟩ hlock
    · rfl
  have hgot := h.futures
  cases hc : s.consumer with
  | test => exact ⟨.consumer, nofun, by simp [CondVar.step, hc]⟩
  | unlock => exact ⟨.consumer, nofun, by simp [CondVar.step, hc]⟩
  | check =>
    refine ⟨.consumer, nofun, ?_⟩
    simp only [CondVar.step, hc]
    split <;> rfl
  | lock | woken =>
    have hmtx : s.mtx = false := hfree (by rw [hc]; rfl)
    exact ⟨.consumer, nofun, by simp [CondVar.step, hc, hmtx]⟩
  | waiting =>
    -- everything was produced and consumed
    have hready := hall (by rw [hc]; rfl)
    have hnil : s.gqueue = [] := by
      rcases h.heard hc with hnil | ⟨i, p, hp, hpending⟩
      · exact hnil
      · rw [hready p (List.mem_of_getElem? hp)] at hpending
        cases hpending
    have hlength := (h.produced_perm hready).length_eq
    rw [h.fifo, hnil, List.append_nil, List.length_range] at hlength
    have hcounted := h.counted
    have hpos := h.more (.inr (.inr (.inl hc)))
    omega
  | ready =>
    have hready := hall (by rw [hc]; rfl)
    refine ⟨.get, nofun, ?_⟩
    rw [Done] at hdone
    simp only [CondVar.step]
    split
    · rename_i hlt
      have hget : s.producers[s.got]? = some .ready := by
        have hin : s.got < s.producers.length := by rwa [h.length]
        rw [List.getElem?_eq_getElem hin, hready _ (List.getElem_mem hin)]
      rw [if_pos hget]
      rfl
    · rw [if_pos ⟨by omega, hc⟩]
      rfl

/-! ## The end of a run -/

/-- What a producer has still to do, with what its notification makes the consumer do. -/
def Producer.ahead : Producer → Nat
  | lock => 6
  | push => 5
  | unlock => 4
  | notify => 3
  | ready => 0

def Consumer.ahead (k : Nat) : Consumer → Nat
  | unlock => 4 * k + 4
  | test => 4 * k + 3
  | lock | woken => 4 * k + 2
  | check => 4 * k + 1
  | waiting => 4 * k
  | ready => 0

def ahead (gcount : Nat) (s : State) : Nat :=
  (s.producers.map Producer.ahead).sum + s.consumer.ahead s.k + (gcount + 1 - s.got)

/-- A wake-up without a notification is made up for by looking into the queue once more. -/
def Action.extra : Action → Nat
  | spurious => 3
  | _ => 0

theorem ahead_notified (k : Nat) (c : Consumer) : c.notified.ahead k ≤ c.ahead k + 2 := by
  cases c <;> simp [Consumer.notified, Consumer.ahead]

theorem Sound.ahead_lt (h : Sound gcount s) {a : Action} (hstep : CondVar.step gcount s a = some t) :
    ahead gcount t + 1 ≤ ahead gcount s + a.extra := by
  cases a with
  | producer i =>
    simp only [CondVar.step] at hstep
    split at hstep
    · rename_i hp
      split at hstep
      · cases hstep
      · obtain rfl := Option.some.inj hstep
        have hsum := sum_map_set_add hp Producer.ahead .push
        simp only [ahead, Producer.ahead] at hsum ⊢
        omega
    · rename_i hp
      obtain rfl := Option.some.inj hstep
      have hsum := sum_map_set_add hp Producer.ahead .unlock
      simp only [ahead, Producer.ahead] at hsum ⊢
      omega
    · rename_i hp
      obtain rfl := Option.some.inj hstep
      have hsum := sum_map_set_add hp Producer.ahead .notify
      simp only [ahead, Producer.ahead] at hsum ⊢
      omega
    · rename_i hp
      obtain rfl := Option.some.inj hstep
      have hsum := sum_map_set_add hp Producer.ahead .ready
      have hnotified := ahead_notified s.k s.consumer
      simp only [ahead, Producer.ahead] at hsum ⊢
      omega
    · cases hstep
  | consumer =>
    have hmore := h.more
    simp only [CondVar.step] at hstep
    split at hstep
    · rename_i hc
      obtain rfl := Option.some.inj hstep
      simp only [ahead, hc, Action.extra]
      split <;> simp only [Consumer.ahead] <;> omega
    · rename_i hc
      split at hstep
      · cases hstep
      · obtain rfl := Option.some.inj hstep
        simp only [ahead, hc, Consumer.ahead, Action.extra]
        omega
    · rename_i hc
      split at hstep
      · cases hstep
      · obtain rfl := Option.some.inj hstep
        simp only [ahead, hc, Consumer.ahead, Action.extra]
        omega
    · rename_i hc
      split at hstep
      · obtain rfl := Option.some.inj hstep
        simp only [ahead, hc, Consumer.ahead, Action.extra]
        omega
      · obtain rfl := Option.some.inj hstep
        have hpos := hmore (.inr (.inl hc))
        simp only [ahead, hc, Consumer.ahead, Action.extra]
        omega
    · rename_i hc
      obtain rfl := Option.some.inj hstep
      simp only [ahead, hc, Consumer.ahead, Action.extra]
      omega
    all_goals cases hstep
  | spurious =>
    obtain ⟨hc, hstep⟩ := Option.ite_none_right_eq_some.1 hstep
    obtain rfl := Option.some.inj hstep
    simp only [ahead, hc, Consumer.ahead, Action.extra]
    omega
  | get =>
    simp only [CondVar.step] at hstep
    split at hstep
    · obtain ⟨-, hstep⟩ := Option.ite_none_right_eq_some.1 hstep
      obtain rfl := Option.some.inj hstep
      simp only [ahead, Action.extra]
      omega
    · obtain ⟨⟨heq, -⟩, hstep⟩ := Option.ite_none_right_eq_some.1 hstep
      obtain rfl := Option.some.inj hstep
      simp only [ahead, Action.extra]
      omega

theorem ahead_start (gcount : Nat) : ahead gcount (start gcount) = 11 * gcount + 4 := by
  simp only [ahead, start, Producer.ahead, Consumer.ahead, List.map_replicate, List.sum_replicate_nat]
  omega

theorem sum_extra (as : List Action) : (as.map Action.extra).sum = 3 * as.count .spurious := by
  induction as with
  | nil => rfl
  | cons a as ih =>
    rw [List.map_cons, List.sum_cons, ih]
    cases a with
    | spurious =>
      rw [List.count_cons_self, Action.extra]
      omega
    | _ => simp [Action.extra]

/-! ## Runs -/

/-- **Every number is consumed once, in the order of the production**, whatever the interleaving. Nobody waits for
good: as long as the main thread has not got all futures, something other than a wake-up without a notification
can happen, and but for these a run is bounded. -/
theorem all_consumed {as : List Action} (h : run (step gcount) (start gcount) as = some s) :
    s.consumed <+: s.produced ∧ s.produced.Nodup ∧ (∀ i ∈ s.produced, i < gcount) ∧
      (Done gcount s → s.consumed = s.produced ∧ s.consumed.Perm (List.range gcount)) ∧
      (¬ Done gcount s → ∃ a, a ≠ .spurious ∧ (step gcount s a).isSome) ∧
      as.length ≤ 11 * gcount + 4 + 3 * as.count .spurious := by
  have hs := sound_run h
  refine ⟨⟨s.gqueue, hs.fifo.symm⟩, hs.nodup, ?_, ?_, hs.exists_step, ?_⟩
  · intro i hi
    obtain ⟨p, hp, -⟩ := (hs.pushed i).1 hi
    rw [← hs.length]
    exact (List.getElem?_eq_some_iff.1 hp).1
  · intro hdone
    have hready : ∀ p ∈ s.producers, p = .ready := by
      intro p hp
      obtain ⟨i, hi⟩ := List.mem_iff_getElem?.1 hp
      have hlt : i < gcount := by
        rw [← hs.length]
        exact (List.getElem?_eq_some_iff.1 hi).1
      rw [Done] at hdone
      exact Option.some.inj (hi.symm.trans (hs.gotten i (by omega) hlt))
    have hperm := hs.produced_perm hready
    have hlength := hperm.length_eq
    have hcounted := hs.counted
    have hlast := hs.last (hs.finished hdone)
    rw [hs.fifo, List.length_append, List.length_range] at hlength
    have hnil : s.gqueue = [] := List.eq_nil_of_length_eq_zero (by omega)
    have hall : s.consumed = s.produced := by rw [hs.fifo, hnil, List.append_nil]
    exact ⟨hall, hall ▸ hperm⟩
  · have hle := length_le_of_measure (m := ahead gcount) (fun _ _ _ hu hstep => ⟨hu.step hstep, hu.ahead_lt hstep⟩)
      (sound_start gcount) h
    rw [ahead_start, sum_extra] at hle
    omega

/-- The consumer waits for the second producer, and again for the first. -/
def waitsTwice : List Action :=
  [.consumer, .consumer, .consumer] ++ List.replicate 4 (.producer 1) ++ List.replicate 6 .consumer ++
    List.replicate 4 (.producer 0) ++ List.replicate 4 .consumer ++ [.get, .get, .get]

theorem waitsTwice_isSome : (run (step 2) (start 2) waitsTwice).isSome := by decide

def waitedTwice : State := Option.get _ waitsTwice_isSome

theorem all_consumed_waitsTwice : waitedTwice.produced = [1, 0] ∧ Done 2 waitedTwice ∧
    waitedTwice.consumed = waitedTwice.produced ∧ waitedTwice.consumed.Perm (List.range 2) ∧
    waitsTwice.length ≤ 11 * 2 + 4 + 3 * waitsTwice.count .spurious := by
  obtain ⟨-, -, -, hdone, -, hlength⟩ := all_consumed (Option.some_get waitsTwice_isSome).symm
  have hfin : Done 2 waitedTwice := by decide
  obtain ⟨heq, hperm⟩ := hdone hfin
  exact ⟨by decide, hfin, heq, hperm, hlength⟩

end CppLinuxLearn.Trivials.CondVar
