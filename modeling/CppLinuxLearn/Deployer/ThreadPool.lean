import CppLinuxLearn.Lib.Steps

/-!
# The thread pool

`FixedThreaPool`: its workers in `do_work`, the calls of `submit` and the destructor, as one system
of interleaved steps. A step is what a thread does between two points at which another one may come
in: a test of `bStoped`, taking or giving back `mtxTask`, the wait predicate, the block in
`cvTask.wait`, a notification. A task is named by the call of `submit` that made it, and the calls
are numbered in the order in which they begin.
-/

namespace CppLinuxLearn.Deployer

open Lib Steps

/-- Where a worker is in `do_work`. -/
inductive WorkerPc
  /-- at `while (!bStoped)` -/
  | head
  /-- at the lock -/
  | lock
  /-- in `wait`, before the predicate -/
  | test
  /-- in `wait`; the predicate gave `false` -/
  | gap
  | blocked
  /-- in `wait`, notified; it needs the mutex again -/
  | woken
  /-- behind `wait` -/
  | check
  | pop
  | popped (task : Nat)
  /-- outside the block of the lock -/
  | taken (task : Nat)
  | runs (task : Nat)
  | left
deriving DecidableEq

/-- Where a call of `submit` is. -/
inductive CallPc
  | test
  | lock
  | emplace
  | unlock
  | notify
  /-- it has returned the future of its task -/
  | accepted
  /-- it has returned an invalid future -/
  | refused
deriving DecidableEq

/-- Where the destructor is; `alive` before it begins. -/
inductive DtorPc
  | alive
  | notify
  | join
  | joined
deriving DecidableEq

structure FixedThreaPool where
  vecThread : List WorkerPc
  queTask : List Nat
  /-- some thread has the mutex -/
  mtxTask : Bool
  bStoped : Bool
  nIdlThredNum : Int
  calls : List CallPc
  dtor : DtorPc
  /-- the tasks that were run, in the order in which they ended -/
  executed : List Nat
deriving DecidableEq

inductive PoolAction
  /-- the next step of the `i`-th worker -/
  | worker (i : Nat)
  /-- the `i`-th worker leaves its block without a notification -/
  | spurious (i : Nat)
  /-- a thread calls `submit` -/
  | submit
  /-- the next step of the `k`-th call; a notification wakes the `i`-th worker -/
  | caller (k i : Nat)
  /-- the next step of the destructor -/
  | destroy

namespace WorkerPc

def holds : WorkerPc → Bool
  | test | gap | check | pop | popped _ => true
  | _ => false

/-- The task that the worker has and has not ended. -/
def task? : WorkerPc → Option Nat
  | popped x | taken x | runs x => some x
  | _ => none

end WorkerPc

namespace CallPc

def holds : CallPc → Bool
  | emplace | unlock => true
  | _ => false

/-- The task is in the queue, or has been. -/
def emplaced : CallPc → Bool
  | unlock | notify | accepted => true
  | _ => false

end CallPc

namespace FixedThreaPool

/-- The constructor, on a machine with the given `hardware_concurrency`. -/
def new (hardware_threads : Nat) (size : Int) : FixedThreaPool :=
  let size := if size < 1 then 1 else size
  let num_thread := if hardware_threads < size then (hardware_threads : Int) else size
  ⟨List.replicate num_thread.toNat .head, [], false, false, num_thread, [], .alive, []⟩

section
variable (s : FixedThreaPool)

def setWorker (i : Nat) (pc : WorkerPc) : FixedThreaPool :=
  { s with vecThread := s.vecThread.set i pc }

def setCall (k : Nat) (pc : CallPc) : FixedThreaPool :=
  { s with calls := s.calls.set k pc }

/-- `do_work` -/
def do_work (i : Nat) : Option FixedThreaPool :=
  match s.vecThread[i]? with
  | some .head => some (s.setWorker i (if s.bStoped then .left else .lock))
  | some .lock | some .woken =>
    if s.mtxTask then none else some { s.setWorker i .test with mtxTask := true }
  | some .test => some (s.setWorker i (if s.bStoped || !s.queTask.isEmpty then .check else .gap))
  | some .gap => some { s.setWorker i .blocked with mtxTask := false }
  | some .check =>
    if s.bStoped && s.queTask.isEmpty then some { s.setWorker i .left with mtxTask := false }
    else some (s.setWorker i .pop)
  | some .pop =>
    match s.queTask with
    | [] => none
    | x :: xs => some { s.setWorker i (.popped x) with queTask := xs }
  | some (.popped x) => some { s.setWorker i (.taken x) with mtxTask := false }
  | some (.taken x) => some { s.setWorker i (.runs x) with nIdlThredNum := s.nIdlThredNum - 1 }
  | some (.runs x) =>
    some { s.setWorker i .head with
      executed := s.executed ++ [x]
      nIdlThredNum := s.nIdlThredNum + 1 }
  | some .blocked | some .left | none => none

/-- `submit` -/
def submit (k i : Nat) : Option FixedThreaPool :=
  match s.calls[k]? with
  | some .test => some (s.setCall k (if s.bStoped then .refused else .lock))
  | some .lock => if s.mtxTask then none else some { s.setCall k .emplace with mtxTask := true }
  | some .emplace => some { s.setCall k .unlock with queTask := s.queTask ++ [k] }
  | some .unlock => some { s.setCall k .notify with mtxTask := false }
  | some .notify =>
    -- `notify_one` wakes a blocked worker if there is one
    if s.vecThread[i]? = some .blocked then some ((s.setWorker i .woken).setCall k .accepted)
    else if .blocked ∈ s.vecThread then none
    else some (s.setCall k .accepted)
  | some .accepted | some .refused | none => none

def wake : WorkerPc → WorkerPc
  | .blocked => .woken
  | pc => pc

/-- `~FixedThreaPool` -/
def destroy : Option FixedThreaPool :=
  match s.dtor with
  | .alive => some { s with bStoped := true, dtor := .notify }
  | .notify => some { s with vecThread := s.vecThread.map wake, dtor := .join }
  | .join => if ∀ pc ∈ s.vecThread, pc = .left then some { s with dtor := .joined } else none
  | .joined => none

end

/-- A step of a pool that has not been destroyed. -/
def step (s : FixedThreaPool) (a : PoolAction) : Option FixedThreaPool :=
  if s.dtor = .joined then none
  else
    match a with
    | .worker i => s.do_work i
    | .spurious i => if s.vecThread[i]? = some .blocked then some (s.setWorker i .woken) else none
    | .submit => some { s with calls := s.calls ++ [.test] }
    | .caller k i => s.submit k i
    | .destroy => s.destroy

/-! ## What a step needs and does -/

inductive Stepped (s : FixedThreaPool) : PoolAction → FixedThreaPool → Prop
  | leave {i : Nat} (hpc : s.vecThread[i]? = some .head) (hstop : s.bStoped = true) :
    Stepped s (.worker i) (s.setWorker i .left)
  | enter {i : Nat} (hpc : s.vecThread[i]? = some .head) (hstop : s.bStoped = false) :
    Stepped s (.worker i) (s.setWorker i .lock)
  | lock {i : Nat} {pc : WorkerPc} (hpc : s.vecThread[i]? = some pc) (hlock : pc = .lock ∨ pc = .woken)
    (hfree : s.mtxTask = false) :
    Stepped s (.worker i) { s.setWorker i .test with mtxTask := true }
  | pass {i : Nat} (hpc : s.vecThread[i]? = some .test) (hpred : s.bStoped = true ∨ s.queTask ≠ []) :
    Stepped s (.worker i) (s.setWorker i .check)
  | fail {i : Nat} (hpc : s.vecThread[i]? = some .test) (hstop : s.bStoped = false)
    (hque : s.queTask = []) : Stepped s (.worker i) (s.setWorker i .gap)
  | block {i : Nat} (hpc : s.vecThread[i]? = some .gap) :
    Stepped s (.worker i) { s.setWorker i .blocked with mtxTask := false }
  | finish {i : Nat} (hpc : s.vecThread[i]? = some .check) (hstop : s.bStoped = true)
    (hque : s.queTask = []) :
    Stepped s (.worker i) { s.setWorker i .left with mtxTask := false }
  | go {i : Nat} (hpc : s.vecThread[i]? = some .check) (hgo : s.bStoped = true → s.queTask ≠ []) :
    Stepped s (.worker i) (s.setWorker i .pop)
  | pop {i : Nat} (hpc : s.vecThread[i]? = some .pop) {x : Nat} {xs : List Nat}
    (hque : s.queTask = x :: xs) :
    Stepped s (.worker i) { s.setWorker i (.popped x) with queTask := xs }
  | unlock {i x : Nat} (hpc : s.vecThread[i]? = some (.popped x)) :
    Stepped s (.worker i) { s.setWorker i (.taken x) with mtxTask := false }
  | start {i x : Nat} (hpc : s.vecThread[i]? = some (.taken x)) :
    Stepped s (.worker i) { s.setWorker i (.runs x) with nIdlThredNum := s.nIdlThredNum - 1 }
  | done {i x : Nat} (hpc : s.vecThread[i]? = some (.runs x)) :
    Stepped s (.worker i) { s.setWorker i .head with
      executed := s.executed ++ [x]
      nIdlThredNum := s.nIdlThredNum + 1 }
  | spurious {i : Nat} (hpc : s.vecThread[i]? = some .blocked) :
    Stepped s (.spurious i) (s.setWorker i .woken)
  | submit : Stepped s .submit { s with calls := s.calls ++ [.test] }
  | refuse {k i : Nat} (hcall : s.calls[k]? = some .test) (hstop : s.bStoped = true) :
    Stepped s (.caller k i) (s.setCall k .refused)
  | tested {k i : Nat} (hcall : s.calls[k]? = some .test) (hstop : s.bStoped = false) :
    Stepped s (.caller k i) (s.setCall k .lock)
  | acquire {k i : Nat} (hcall : s.calls[k]? = some .lock) (hfree : s.mtxTask = false) :
    Stepped s (.caller k i) { s.setCall k .emplace with mtxTask := true }
  | emplace {k i : Nat} (hcall : s.calls[k]? = some .emplace) :
    Stepped s (.caller k i) { s.setCall k .unlock with queTask := s.queTask ++ [k] }
  | release {k i : Nat} (hcall : s.calls[k]? = some .unlock) :
    Stepped s (.caller k i) { s.setCall k .notify with mtxTask := false }
  | wakeOne {k i : Nat} (hcall : s.calls[k]? = some .notify) (hpc : s.vecThread[i]? = some .blocked) :
    Stepped s (.caller k i) ((s.setWorker i .woken).setCall k .accepted)
  | wakeNone {k i : Nat} (hcall : s.calls[k]? = some .notify) (hnone : .blocked ∉ s.vecThread) :
    Stepped s (.caller k i) (s.setCall k .accepted)
  | store (hdtor : s.dtor = .alive) : Stepped s .destroy { s with bStoped := true, dtor := .notify }
  | notifyAll (hdtor : s.dtor = .notify) :
    Stepped s .destroy { s with vecThread := s.vecThread.map wake, dtor := .join }
  | join (hdtor : s.dtor = .join) (hall : ∀ pc ∈ s.vecThread, pc = .left) :
    Stepped s .destroy { s with dtor := .joined }

theorem do_work_stepped {s t : FixedThreaPool} {i : Nat} (h : s.do_work i = some t) :
    Stepped s (.worker i) t := by
  unfold do_work at h
  split at h
  · rename_i hpc
    cases hstop : s.bStoped <;> rw [hstop] at h <;> obtain rfl := Option.some.inj h
    · exact .enter hpc hstop
    · exact .leave hpc hstop
  · rename_i hpc
    obtain ⟨hfree, h⟩ := Option.ite_none_left_eq_some.1 h
    obtain rfl := Option.some.inj h
    exact .lock hpc (.inl rfl) (by simpa using hfree)
  · rename_i hpc
    obtain ⟨hfree, h⟩ := Option.ite_none_left_eq_some.1 h
    obtain rfl := Option.some.inj h
    exact .lock hpc (.inr rfl) (by simpa using hfree)
  · rename_i hpc
    obtain rfl := Option.some.inj h
    by_cases hpred : s.bStoped = true ∨ s.queTask ≠ []
    · rw [if_pos (by simpa using hpred)]
      exact .pass hpc hpred
    · rw [if_neg (by simpa using hpred)]
      obtain ⟨hstop, hque⟩ := not_or.1 hpred
      exact .fail hpc (by simpa using hstop) (not_not.1 hque)
  · rename_i hpc
    obtain rfl := Option.some.inj h
    exact .block hpc
  · rename_i hpc
    by_cases hleave : s.bStoped = true ∧ s.queTask = []
    · rw [if_pos (by simpa using hleave)] at h
      obtain rfl := Option.some.inj h
      exact .finish hpc hleave.1 hleave.2
    · rw [if_neg (by simpa using hleave)] at h
      obtain rfl := Option.some.inj h
      exact .go hpc fun hstop hque => hleave ⟨hstop, hque⟩
  · rename_i hpc
    split at h
    · cases h
    · rename_i x xs hque
      obtain rfl := Option.some.inj h
      exact .pop hpc hque
  · rename_i x hpc
    obtain rfl := Option.some.inj h
    exact .unlock hpc
  · rename_i x hpc
    obtain rfl := Option.some.inj h
    exact .start hpc
  · rename_i x hpc
    obtain rfl := Option.some.inj h
    exact .done hpc
  all_goals cases h

theorem submit_stepped {s t : FixedThreaPool} {k i : Nat} (h : s.submit k i = some t) :
    Stepped s (.caller k i) t := by
  unfold submit at h
  split at h
  · rename_i hcall
    cases hstop : s.bStoped <;> rw [hstop] at h <;> obtain rfl := Option.some.inj h
    · exact .tested hcall hstop
    · exact .refuse hcall hstop
  · rename_i hcall
    obtain ⟨hfree, h⟩ := Option.ite_none_left_eq_some.1 h
    obtain rfl := Option.some.inj h
    exact .acquire hcall (by simpa using hfree)
  · rename_i hcall
    obtain rfl := Option.some.inj h
    exact .emplace hcall
  · rename_i hcall
    obtain rfl := Option.some.inj h
    exact .release hcall
  · rename_i hcall
    by_cases hpc : s.vecThread[i]? = some .blocked
    · rw [if_pos hpc] at h
      obtain rfl := Option.some.inj h
      exact .wakeOne hcall hpc
    · rw [if_neg hpc] at h
      obtain ⟨hnone, h⟩ := Option.ite_none_left_eq_some.1 h
      obtain rfl := Option.some.inj h
      exact .wakeNone hcall hnone
  all_goals cases h

theorem destroy_stepped {s t : FixedThreaPool} (h : s.destroy = some t) : Stepped s .destroy t := by
  unfold destroy at h
  split at h
  · rename_i hdtor
    obtain rfl := Option.some.inj h
    exact .store hdtor
  · rename_i hdtor
    obtain rfl := Option.some.inj h
    exact .notifyAll hdtor
  · rename_i hdtor
    obtain ⟨hall, h⟩ := Option.ite_none_right_eq_some.1 h
    obtain rfl := Option.some.inj h
    exact .join hdtor hall
  · cases h

theorem step_stepped {s t : FixedThreaPool} {a : PoolAction} (h : step s a = some t) :
    s.dtor ≠ .joined ∧ Stepped s a t := by
  obtain ⟨hdtor, h⟩ := Option.ite_none_left_eq_some.1 h
  refine ⟨hdtor, ?_⟩
  cases a with
  | worker i => exact do_work_stepped h
  | spurious i =>
    obtain ⟨hpc, h⟩ := Option.ite_none_right_eq_some.1 h
    obtain rfl := Option.some.inj h
    exact .spurious hpc
  | submit =>
    obtain rfl := Option.some.inj h
    exact .submit
  | caller k i => exact submit_stepped h
  | destroy => exact destroy_stepped h

/-! ## The mutex -/

/-- The threads that have the mutex. -/
def holders (s : FixedThreaPool) : Nat :=
  s.vecThread.countP WorkerPc.holds + s.calls.countP CallPc.holds

def Exclusive (s : FixedThreaPool) : Prop := s.holders = s.mtxTask.toNat

section
variable {s : FixedThreaPool} {i k : Nat} {pc pc' : WorkerPc} {c c' : CallPc} {b : Bool}

theorem Exclusive.worker (hs : Exclusive s) (hpc : s.vecThread[i]? = some pc)
    (h : s.mtxTask.toNat + pc'.holds.toNat = b.toNat + pc.holds.toNat) :
    (s.setWorker i pc').holders = b.toNat := by
  have hcount := countP_set_add hpc WorkerPc.holds pc'
  simp only [Exclusive, holders, setWorker] at hs ⊢
  omega

theorem Exclusive.call (hs : Exclusive s) (hcall : s.calls[k]? = some c)
    (h : s.mtxTask.toNat + c'.holds.toNat = b.toNat + c.holds.toNat) :
    (s.setCall k c').holders = b.toNat := by
  have hcount := countP_set_add hcall CallPc.holds c'
  simp only [Exclusive, holders, setCall] at hs ⊢
  omega

theorem Exclusive.mtxTask_of_worker (hs : Exclusive s) (hpc : s.vecThread[i]? = some pc)
    (hholds : pc.holds = true) : s.mtxTask = true := by
  have hpos := List.countP_pos_iff.2 ⟨pc, List.mem_of_getElem? hpc, hholds⟩
  simp only [Exclusive, holders] at hs
  cases hm : s.mtxTask
  · rw [hm] at hs
    simp only [Bool.toNat_false] at hs
    omega
  · rfl

theorem Exclusive.mtxTask_of_call (hs : Exclusive s) (hcall : s.calls[k]? = some c)
    (hholds : c.holds = true) : s.mtxTask = true := by
  have hpos := List.countP_pos_iff.2 ⟨c, List.mem_of_getElem? hcall, hholds⟩
  simp only [Exclusive, holders] at hs
  cases hm : s.mtxTask
  · rw [hm] at hs
    simp only [Bool.toNat_false] at hs
    omega
  · rfl

end

theorem countP_map_wake {p : WorkerPc → Bool} (hp : p .woken = p .blocked) (l : List WorkerPc) :
    (l.map wake).countP p = l.countP p := by
  rw [List.countP_map]
  refine congrArg (fun q => List.countP q l) (funext fun pc => ?_)
  cases pc <;> first | rfl | exact hp

theorem Stepped.exclusive {s t : FixedThreaPool} {a : PoolAction} (h : Stepped s a t)
    (hs : Exclusive s) : Exclusive t := by
  cases h with
  | leave hpc | enter hpc | pass hpc | fail hpc | go hpc | pop hpc | start hpc | done hpc
  | spurious hpc => exact hs.worker hpc rfl
  | lock hpc hlock hfree =>
    refine hs.worker (b := true) hpc ?_
    obtain rfl | rfl := hlock <;> rw [hfree] <;> rfl
  | block hpc | finish hpc | unlock hpc =>
    refine hs.worker (b := false) hpc ?_
    rw [hs.mtxTask_of_worker hpc rfl]
    rfl
  | submit =>
    refine Eq.trans ?_ hs
    simp [holders, CallPc.holds]
  | refuse hcall | tested hcall | emplace hcall | wakeNone hcall => exact hs.call hcall rfl
  | acquire hcall hfree =>
    refine hs.call (b := true) hcall ?_
    rw [hfree]
    rfl
  | release hcall =>
    refine hs.call (b := false) hcall ?_
    rw [hs.mtxTask_of_call hcall rfl]
    rfl
  | wakeOne hcall hpc =>
    have hwoken : Exclusive (s.setWorker _ .woken) := hs.worker hpc rfl
    exact hwoken.call hcall rfl
  | store | join => exact hs
  | notifyAll =>
    refine Eq.trans ?_ hs
    simp only [holders]
    rw [countP_map_wake rfl]

/-! ## Where the tasks are -/

def emplaced (s : FixedThreaPool) (x : Nat) : Nat := ((s.calls[x]?).any CallPc.emplaced).toNat

/-- The workers that have the task and have not ended it. -/
def carriers (s : FixedThreaPool) (x : Nat) : Nat := s.vecThread.countP (·.task? == some x)

/-- A task that was put into the queue is there, with a worker, or done; it is never two of these. -/
def Counted (s : FixedThreaPool) : Prop :=
  ∀ x, s.emplaced x = s.executed.count x + s.queTask.count x + s.carriers x

section
variable {s : FixedThreaPool} {i k : Nat} {pc pc' : WorkerPc} {c c' : CallPc}

theorem carriers_setWorker (hpc : s.vecThread[i]? = some pc) (pc' : WorkerPc) (x : Nat) :
    (s.setWorker i pc').carriers x + (pc.task? == some x).toNat =
      s.carriers x + (pc'.task? == some x).toNat :=
  countP_set_add hpc _ pc'

theorem Counted.worker (hs : Counted s) (hpc : s.vecThread[i]? = some pc) (h : pc'.task? = pc.task?) :
    Counted (s.setWorker i pc') := by
  intro x
  have hcarriers := carriers_setWorker hpc pc' x
  have hx := hs x
  rw [h] at hcarriers
  simp only [emplaced, setWorker] at hx hcarriers ⊢
  omega

theorem emplaced_setCall (hcall : s.calls[k]? = some c) (c' : CallPc) (x : Nat) :
    (s.setCall k c').emplaced x = if x = k then c'.emplaced.toNat else s.emplaced x := by
  obtain ⟨hk, -⟩ := List.getElem?_eq_some_iff.1 hcall
  simp only [emplaced, setCall]
  by_cases hx : x = k
  · subst hx
    rw [List.getElem?_set_self hk, if_pos rfl]
    rfl
  · rw [List.getElem?_set_ne (Ne.symm hx), if_neg hx]

theorem Counted.call (hs : Counted s) (hcall : s.calls[k]? = some c) (h : c'.emplaced = c.emplaced) :
    Counted (s.setCall k c') := by
  intro x
  rw [emplaced_setCall hcall]
  by_cases hx : x = k
  · subst hx
    have hx := hs x
    rw [emplaced, hcall] at hx
    rw [if_pos rfl, h]
    exact hx
  · rw [if_neg hx]
    exact hs x

end

theorem Stepped.counted {s t : FixedThreaPool} {a : PoolAction} (h : Stepped s a t) (hs : Counted s) :
    Counted t := by
  cases h with
  | leave hpc | enter hpc | pass hpc | fail hpc | go hpc | block hpc | finish hpc | unlock hpc | start hpc
  | spurious hpc => exact hs.worker hpc rfl
  | lock hpc hlock =>
    obtain rfl | rfl := hlock
    · exact hs.worker hpc rfl
    · exact hs.worker hpc rfl
  | @pop i hpc y ys hque =>
    intro x
    have hcarriers : (s.setWorker i (.popped y)).carriers x = s.carriers x + (y == x).toNat :=
      carriers_setWorker hpc (.popped y) x
    have hx := hs x
    rw [hque, List.count_cons] at hx
    show s.emplaced x = s.executed.count x + ys.count x + (s.setWorker i (.popped y)).carriers x
    cases hxy : y == x <;> rw [hxy] at hx hcarriers <;> simp at hx hcarriers <;> omega
  | @done i y hpc =>
    intro x
    have hcarriers : (s.setWorker i .head).carriers x + (y == x).toNat = s.carriers x :=
      carriers_setWorker hpc .head x
    have hx := hs x
    show s.emplaced x = (s.executed ++ [y]).count x + s.queTask.count x + (s.setWorker i .head).carriers x
    rw [List.count_append, List.count_singleton]
    cases hxy : y == x <;> rw [hxy] at hcarriers <;> simp at hcarriers ⊢ <;> omega
  | submit =>
    intro x
    refine Eq.trans ?_ (hs x)
    simp only [emplaced]
    rcases Nat.lt_trichotomy x s.calls.length with hlt | rfl | hgt
    · rw [List.getElem?_append_left hlt]
    · simp [CallPc.emplaced]
    · rw [List.getElem?_eq_none (by simp; omega), List.getElem?_eq_none (by omega)]
  | refuse hcall | tested hcall | acquire hcall | release hcall | wakeNone hcall =>
    exact hs.call hcall rfl
  | @emplace k i hcall =>
    intro x
    have hx := hs x
    refine (emplaced_setCall hcall .unlock x).trans ?_
    show _ = s.executed.count x + (s.queTask ++ [k]).count x + s.carriers x
    rw [List.count_append]
    by_cases hk : x = k
    · subst hk
      rw [emplaced, hcall] at hx
      simp [CallPc.emplaced] at hx ⊢
      omega
    · rw [if_neg hk, List.count_singleton, if_neg (by simpa using Ne.symm hk)]
      omega
  | wakeOne hcall hpc =>
    have hwoken : Counted (s.setWorker _ .woken) := hs.worker hpc rfl
    exact hwoken.call hcall rfl
  | store | join => exact hs
  | notifyAll =>
    intro x
    refine (hs x).trans ?_
    simp only [carriers]
    rw [countP_map_wake rfl]

/-! ## The ends of the workers -/

def AllLeft (s : FixedThreaPool) : Prop := ∀ pc ∈ s.vecThread, pc = .left

/-- `bStoped` is what the destructor stores first, and no worker leaves before that. -/
structure Stopping (s : FixedThreaPool) : Prop where
  stored : s.bStoped = true ↔ s.dtor ≠ .alive
  left : .left ∈ s.vecThread → s.bStoped = true
  joined : s.dtor = .joined → AllLeft s

theorem not_allLeft_setWorker {s : FixedThreaPool} {i : Nat} {pc pc' : WorkerPc}
    (hpc : s.vecThread[i]? = some pc) (h : pc' ≠ .left) : ¬ AllLeft (s.setWorker i pc') := by
  obtain ⟨hi, -⟩ := List.getElem?_eq_some_iff.1 hpc
  exact fun hall => h (hall pc' (List.mem_set hi pc'))

theorem allLeft_of_map_wake {l : List WorkerPc} (h : ∀ pc ∈ l.map wake, pc = .left) :
    ∀ pc ∈ l, pc = .left := by
  intro pc hpc
  have hwake := h (wake pc) (List.mem_map_of_mem hpc)
  cases pc <;> first | rfl | cases hwake

theorem Stopping.left_setWorker {s : FixedThreaPool} {i : Nat} {pc : WorkerPc} (hs : Stopping s)
    (h : pc = .left → s.bStoped = true) (hleft : .left ∈ (s.setWorker i pc).vecThread) :
    s.bStoped = true := by
  rcases List.mem_or_eq_of_mem_set hleft with hmem | heq
  · exact hs.left hmem
  · exact h heq.symm

theorem Stepped.stopping {s t : FixedThreaPool} {a : PoolAction} (h : Stepped s a t)
    (hdtor : s.dtor ≠ .joined) (hs : Stopping s) : Stopping t := by
  have hjoined : ∀ {P : Prop}, s.dtor = .joined → P := fun h => absurd h hdtor
  cases h with
  | leave hpc hstop | finish hpc hstop =>
    exact ⟨hs.stored, hs.left_setWorker fun _ => hstop, hjoined⟩
  | enter | pass | fail | block | go | pop | unlock | start | done | spurious | lock | wakeOne =>
    exact ⟨hs.stored, hs.left_setWorker nofun, hjoined⟩
  | submit | refuse | tested | acquire | emplace | release | wakeNone =>
    exact ⟨hs.stored, hs.left, hjoined⟩
  | store hdtor => exact ⟨by simp, fun _ => rfl, nofun⟩
  | notifyAll hnotify =>
    refine ⟨hs.stored.trans (by simp [hnotify]), fun hleft => ?_, nofun⟩
    exact hs.stored.2 (by simp [hnotify])
  | join hjoin hall =>
    exact ⟨hs.stored.trans (by simp [hjoin]), hs.left, fun _ => hall⟩

/-! ## No accepted task is lost -/

/-- When the destructor has joined the workers, the task of every call that returned a valid future
was executed exactly once. -/
def Executed (s : FixedThreaPool) : Prop :=
  s.dtor = .joined → ∀ k, s.calls[k]? = some .accepted → s.executed.count k = 1

/-- A worker that leaves because of the test at the head of its loop leaves no task behind that no
other worker would take, and no task comes in after all of them have left. -/
def Drains (s : FixedThreaPool) : PoolAction → Prop
  | .worker i => s.vecThread[i]? = some .head → s.bStoped = true → s.queTask ≠ [] →
    ∃ j < s.vecThread.length, j ≠ i ∧ s.vecThread[j]? ≠ some .left
  | .caller k _ => s.calls[k]? = some .emplace → ¬ AllLeft s
  | _ => True

instance (s : FixedThreaPool) : Decidable (AllLeft s) := inferInstanceAs (Decidable (∀ pc ∈ s.vecThread, _))

instance (s : FixedThreaPool) : (a : PoolAction) → Decidable (Drains s a)
  | .worker _ => inferInstanceAs (Decidable (_ → _ → _ → _))
  | .caller _ _ => inferInstanceAs (Decidable (_ → _))
  | .spurious _ | .submit | .destroy => .isTrue trivial

def Drained (s : FixedThreaPool) : Prop := AllLeft s → s.queTask = []

theorem Stepped.drained {s t : FixedThreaPool} {a : PoolAction} (h : Stepped s a t) (hc : Drains s a)
    (hs : Drained s) : Drained t := by
  cases h with
  | @leave i hpc hstop =>
    intro hall
    by_contra hque
    obtain ⟨j, hlen, hj, hpc'⟩ := hc hpc hstop hque
    have hget : (s.vecThread.set i .left)[j]? = some s.vecThread[j] :=
      (List.getElem?_set_ne (Ne.symm hj)).trans (List.getElem?_eq_getElem hlen)
    refine hpc' ((List.getElem?_eq_getElem hlen).trans (congrArg some ?_))
    exact hall _ (List.mem_of_getElem? hget)
  | finish _ _ hque => exact fun _ => hque
  | enter hpc | lock hpc | pass hpc | fail hpc | block hpc | go hpc | pop hpc | unlock hpc | start hpc
  | done hpc | spurious hpc | wakeOne _ hpc =>
    exact fun hall => absurd hall (not_allLeft_setWorker hpc nofun)
  | submit | refuse | tested | acquire | release | wakeNone | store | join => exact hs
  | emplace hcall => exact fun hall => absurd hall (hc hcall)
  | notifyAll => exact fun hall => hs (allLeft_of_map_wake hall)

/-- What every step keeps. -/
structure Sound (s : FixedThreaPool) : Prop where
  exclusive : Exclusive s
  counted : Counted s
  stopping : Stopping s

theorem sound_new (hardware_threads : Nat) (size : Int) : Sound (new hardware_threads size) := by
  refine ⟨?_, fun x => ?_, by simp [new], fun h => ?_, nofun⟩
  · simp [Exclusive, holders, new, List.countP_replicate, WorkerPc.holds]
  · simp [emplaced, carriers, new, List.countP_replicate, WorkerPc.task?]
  · simp [new] at h

theorem sound_step (s : FixedThreaPool) (a : PoolAction) (t : FixedThreaPool) (hs : Sound s)
    (h : step s a = some t) : Sound t := by
  obtain ⟨hdtor, hstep⟩ := step_stepped h
  exact ⟨hstep.exclusive hs.exclusive, hstep.counted hs.counted, hstep.stopping hdtor hs.stopping⟩

theorem carriers_of_allLeft {s : FixedThreaPool} (h : AllLeft s) (x : Nat) : s.carriers x = 0 := by
  rw [carriers, List.countP_eq_zero]
  intro pc hpc
  rw [h pc hpc]
  exact Bool.false_ne_true

theorem executed_of_drained {s : FixedThreaPool} (hs : Sound s) (hd : Drained s) : Executed s := by
  intro hjoined k hk
  have hall := hs.stopping.joined hjoined
  have hcount := hs.counted k
  rw [emplaced, hk, hd hall, carriers_of_allLeft hall] at hcount
  simpa [CallPc.emplaced] using hcount.symm

/-! ### Where the condition fails, a task can be lost -/

section
variable {s : FixedThreaPool} {x : Nat}

/-- The destructor gets through when all workers have left. -/
theorem reaches_joined {P : FixedThreaPool → Prop} (hs : Stopping s) (hdtor : s.dtor ≠ .joined)
    (hstop : s.bStoped = true) (hall : AllLeft s)
    (hP : ∀ u : FixedThreaPool, u.dtor = .joined → u.calls = s.calls → u.executed = s.executed → P u) :
    Reaches step P s := by
  have hjoin : ∀ u : FixedThreaPool, u.dtor = .join → AllLeft u → u.calls = s.calls →
      u.executed = s.executed → Reaches step P u := by
    intro u hu hallu hcalls hexec
    have hstep : step u .destroy = some { u with dtor := .joined } := by
      rw [step, if_neg (by rw [hu]; nofun)]
      simp only [destroy, hu]
      exact if_pos hallu
    exact .after hstep (.here (hP _ rfl hcalls hexec))
  cases hd : s.dtor with
  | alive => exact absurd hd (hs.stored.1 hstop)
  | notify =>
    have hstep : step s .destroy = some { s with vecThread := s.vecThread.map wake, dtor := .join } := by
      rw [step, if_neg hdtor]
      simp only [destroy, hd]
    refine .after hstep (hjoin _ rfl ?_ rfl rfl)
    intro pc hpc
    obtain ⟨pc', hpc', rfl⟩ := List.mem_map.1 hpc
    rw [hall pc' hpc']
    rfl
  | join => exact hjoin s hd hall rfl rfl
  | joined => exact absurd hd hdtor

theorem reaches_lost (hs : Sound s) (hdtor : s.dtor ≠ .joined) (hstop : s.bStoped = true)
    (hall : AllLeft s) (hx : x ∈ s.queTask) : Reaches step (fun u => ¬ Executed u) s := by
  have hcount := hs.counted x
  have hque := List.count_pos_iff.2 hx
  have hle : s.emplaced x ≤ 1 := Bool.toNat_le _
  have hlost : s.executed.count x ≠ 1 := by omega
  have hdone : ∀ u : FixedThreaPool, Stopping u → u.dtor = s.dtor → u.bStoped = true → AllLeft u →
      u.executed = s.executed → u.calls[x]? = some .accepted → Reaches step (fun u => ¬ Executed u) u := by
    intro u hsu hdu hstopu hallu hexec hcall
    refine reaches_joined hsu (hdu ▸ hdtor) hstopu hallu fun v hv hcalls hexecv h => hlost ?_
    rw [← hexec, ← hexecv]
    exact h hv x (hcalls ▸ hcall)
  have hnotify : ∀ u : FixedThreaPool, Stopping u → u.dtor = s.dtor → u.bStoped = true → AllLeft u →
      u.executed = s.executed → u.calls[x]? = some .notify → Reaches step (fun u => ¬ Executed u) u := by
    intro u hsu hdu hstopu hallu hexec hcall
    obtain ⟨hlen, -⟩ := List.getElem?_eq_some_iff.1 hcall
    have hnone : .blocked ∉ u.vecThread := fun hmem => by cases hallu _ hmem
    have hstep : step u (.caller x 0) = some (u.setCall x .accepted) := by
      rw [step, if_neg (hdu ▸ hdtor)]
      simp only [submit, hcall]
      rw [if_neg fun hget => hnone (List.mem_of_getElem? hget), if_neg hnone]
    exact .after hstep (hdone _ ⟨hsu.1, hsu.2, hsu.3⟩ hdu hstopu hallu hexec (List.getElem?_set_self hlen))
  cases hcall : s.calls[x]? with
  | none =>
    rw [emplaced, hcall] at hcount
    simp at hcount
    omega
  | some c =>
    cases c with
    | unlock =>
      obtain ⟨hlen, -⟩ := List.getElem?_eq_some_iff.1 hcall
      have hstep : step s (.caller x 0) = some { s.setCall x .notify with mtxTask := false } := by
        rw [step, if_neg hdtor]
        simp only [submit, hcall]
      refine .after hstep (hnotify _ ?_ rfl hstop hall rfl (List.getElem?_set_self hlen))
      exact ⟨hs.stopping.1, hs.stopping.2, hs.stopping.3⟩
    | notify => exact hnotify s hs.stopping rfl hstop hall rfl hcall
    | accepted => exact hdone s hs.stopping rfl hstop hall rfl hcall
    | test | lock | emplace | refused =>
      rw [emplaced, hcall] at hcount
      simp [CallPc.emplaced] at hcount
      omega

theorem reaches_of_not_drains {a : PoolAction} {t : FixedThreaPool} (hs : Sound s)
    (hpos : s.vecThread ≠ []) (h : step s a = some t) (hc : ¬ Drains s a) :
    Reaches step (fun u => ¬ Executed u) t := by
  have ht := sound_step s a t hs h
  obtain ⟨hdtor, hstep⟩ := Option.ite_none_left_eq_some.1 h
  cases a with
  | worker i =>
    simp only [Drains, not_forall, not_exists, not_and, not_not] at hc
    obtain ⟨hpc, hstop, hque, hothers⟩ := hc
    obtain ⟨hlen, -⟩ := List.getElem?_eq_some_iff.1 hpc
    obtain ⟨x, hx⟩ := List.exists_mem_of_ne_nil _ hque
    simp only [do_work, hpc, hstop, if_true] at hstep
    obtain rfl := Option.some.inj hstep
    refine reaches_lost ht hdtor hstop (fun pc hmem => ?_) hx
    obtain ⟨j, hj⟩ := List.mem_iff_getElem?.1 hmem
    by_cases hji : j = i
    · subst hji
      have hself : (s.vecThread.set j .left)[j]? = some .left := List.getElem?_set_self hlen
      exact Option.some.inj (hj.symm.trans hself)
    · have hother : (s.vecThread.set i .left)[j]? = s.vecThread[j]? := List.getElem?_set_ne (Ne.symm hji)
      obtain ⟨hlenj, -⟩ := List.getElem?_eq_some_iff.1 (hother.symm.trans hj)
      exact Option.some.inj ((hother.symm.trans hj).symm.trans (hothers j hlenj hji))
  | caller k i =>
    simp only [Drains, Classical.not_imp, not_not] at hc
    obtain ⟨hcall, hall⟩ := hc
    obtain ⟨pc, hmem⟩ := List.exists_mem_of_ne_nil _ hpos
    have hstop := hs.stopping.left (hall pc hmem ▸ hmem)
    simp only [submit, hcall] at hstep
    obtain rfl := Option.some.inj hstep
    exact reaches_lost ht hdtor hstop hall (List.mem_append_right s.queTask (List.mem_singleton_self k))
  | spurious | submit | destroy => exact absurd trivial hc

end

theorem vecThread_ne_nil_step (s : FixedThreaPool) (a : PoolAction) (t : FixedThreaPool)
    (hs : s.vecThread ≠ []) (h : step s a = some t) : t.vecThread ≠ [] := by
  obtain ⟨-, hstep⟩ := step_stepped h
  cases hstep <;> simpa [setWorker, setCall] using hs

theorem vecThread_new {hardware_threads : Nat} (h : 0 < hardware_threads) (size : Int) :
    (new hardware_threads size).vecThread ≠ [] := by
  simp only [new, ne_eq, List.replicate_eq_nil_iff]
  split <;> split <;> omega

/-- If a run of the pool takes only steps that meet the condition, the task of every call that returned
a valid future has been executed exactly once when the destructor has joined the workers. After any
other step a run can lose a task. -/
theorem executed_of_drains {hardware_threads : Nat} (hpos : 0 < hardware_threads) (size : Int) :
    (∀ as s, run step (new hardware_threads size) as = some s →
      Meets step Drains (new hardware_threads size) as → Executed s) ∧
    ∀ as s a t, run step (new hardware_threads size) as = some s → step s a = some t → ¬ Drains s a →
      ∃ bs u, run step t bs = some u ∧ ¬ Executed u := by
  constructor
  · intro as s h hm
    have hsound := run_invariant sound_step (sound_new hardware_threads size) h
    have hdrained := run_induction (fun s a t hs hc ht => (step_stepped ht).2.drained hc hs)
      (fun _ => by simp [new]) hm h
    exact executed_of_drained hsound hdrained
  · intro as s a t h hstep hc
    have hsound := run_invariant sound_step (sound_new hardware_threads size) h
    have hne := run_invariant vecThread_ne_nil_step (vecThread_new hpos size) h
    exact reaches_of_not_drains hsound hne hstep hc

/-- One call of `submit`, from its beginning to its return. -/
def submits (k : Nat) : List PoolAction := .submit :: List.replicate 5 (.caller k 0)

/-- The only worker runs its task to the end and leaves when the destructor has begun. -/
def oneTask : List PoolAction :=
  submits 0 ++ List.replicate 8 (.worker 0) ++ .destroy :: List.replicate 1 (.worker 0) ++ [.destroy, .destroy]

/-- The destructor begins while the only worker runs the first of two tasks. -/
def twoTasks : List PoolAction :=
  submits 0 ++ submits 1 ++ List.replicate 7 (.worker 0) ++ .destroy :: List.replicate 2 (.worker 0) ++
    [.destroy, .destroy]

theorem executed_oneTask :
    Executed ⟨[.left], [], false, true, 1, [.accepted], .joined, [0]⟩ ∧
    ∃ bs u, run step ⟨[.left], [1], false, true, 1, [.accepted, .accepted], .notify, [0]⟩ bs = some u ∧
      ¬ Executed u := by
  obtain ⟨hkeeps, hloses⟩ := executed_of_drains (show 0 < 8 by decide) 1
  refine ⟨hkeeps oneTask _ (by decide +kernel) (by decide +kernel), ?_⟩
  exact hloses (submits 0 ++ submits 1 ++ List.replicate 7 (.worker 0) ++ [.destroy, .worker 0])
    ⟨[.head], [1], false, true, 1, [.accepted, .accepted], .notify, [0]⟩ (.worker 0) _
    (by decide +kernel) (by decide +kernel) (by decide +kernel)

theorem not_executed_twoTasks : ¬ ∀ (hardware_threads : Nat) (size : Int) (as : List PoolAction)
    (s : FixedThreaPool), 0 < hardware_threads → run step (new hardware_threads size) as = some s →
      Executed s := by
  intro h
  have hexec := h 8 1 twoTasks ⟨[.left], [1], false, true, 1, [.accepted, .accepted], .joined, [0]⟩
    (by decide) (by decide +kernel)
  exact absurd (hexec rfl 1 rfl) (by decide)

/-! ## A notification that no worker hears -/

/-- The destructor has issued its notification, and a worker is blocked. -/
def Stuck (s : FixedThreaPool) : Prop :=
  s.bStoped = true ∧ (s.dtor = .join ∨ s.dtor = .joined) ∧ .blocked ∈ s.vecThread

/-- When `notify_all` is issued, no worker stands between a predicate that gave `false` and its block. -/
def Heard (s : FixedThreaPool) : PoolAction → Prop
  | .destroy => s.dtor = .notify → .gap ∉ s.vecThread
  | _ => True

instance (s : FixedThreaPool) : (a : PoolAction) → Decidable (Heard s a)
  | .destroy => inferInstanceAs (Decidable (_ → _))
  | .worker _ | .spurious _ | .submit | .caller _ _ => .isTrue trivial

/-- After the notification no worker is blocked or about to block. -/
def Awake (s : FixedThreaPool) : Prop :=
  s.dtor = .join ∨ s.dtor = .joined → .gap ∉ s.vecThread ∧ .blocked ∉ s.vecThread

theorem Awake.worker {s : FixedThreaPool} {i : Nat} {pc : WorkerPc} (hs : Awake s) (hgap : pc ≠ .gap)
    (hblocked : pc ≠ .blocked) : Awake (s.setWorker i pc) := by
  intro hdtor
  obtain ⟨hnogap, hnoblocked⟩ := hs hdtor
  constructor
  · intro hmem
    exact (List.mem_or_eq_of_mem_set hmem).elim hnogap fun heq => hgap heq.symm
  · intro hmem
    exact (List.mem_or_eq_of_mem_set hmem).elim hnoblocked fun heq => hblocked heq.symm

theorem Stepped.awake {s t : FixedThreaPool} {a : PoolAction} (h : Stepped s a t) (hc : Heard s a)
    (hstopping : Stopping s) (hs : Awake s) : Awake t := by
  cases h with
  | leave | enter | lock | pass | finish | go | pop | unlock | start | done | spurious | wakeOne =>
    exact hs.worker nofun nofun
  | fail _ hstop =>
    -- the predicate can fail only before the destructor begins
    have hnot : s.dtor = .alive := by
      by_contra hne
      rw [hstopping.stored.2 hne] at hstop
      cases hstop
    intro hdtor
    rcases hdtor with hd | hd
    · cases hnot.symm.trans hd
    · cases hnot.symm.trans hd
  | block hpc => exact fun hdtor => absurd (List.mem_of_getElem? hpc) (hs hdtor).1
  | submit | refuse | tested | acquire | emplace | release | wakeNone => exact hs
  | store => exact fun hdtor => hdtor.elim nofun nofun
  | notifyAll hdtor =>
    intro _
    constructor
    · intro hmem
      obtain ⟨pc, hpc, hwake⟩ := List.mem_map.1 hmem
      cases pc <;> cases hwake
      exact hc hdtor hpc
    · intro hmem
      obtain ⟨pc, hpc, hwake⟩ := List.mem_map.1 hmem
      cases pc <;> cases hwake
  | join hdtor => exact fun _ => hs (.inl hdtor)

/-- After a notification that some worker cannot hear, that worker can block. -/
theorem reaches_stuck {s t : FixedThreaPool} {a : PoolAction} (hs : Stopping s) (h : step s a = some t)
    (hc : ¬ Heard s a) : Reaches step Stuck t := by
  obtain ⟨hdtor, hstep⟩ := Option.ite_none_left_eq_some.1 h
  cases a with
  | destroy =>
    simp only [Heard, Classical.not_imp, not_not] at hc
    obtain ⟨hnotify, hgap⟩ := hc
    simp only [destroy, hnotify] at hstep
    obtain rfl := Option.some.inj hstep
    obtain ⟨i, hi⟩ := List.mem_iff_getElem?.1 (List.mem_map_of_mem (f := wake) hgap)
    obtain ⟨hlen, -⟩ := List.getElem?_eq_some_iff.1 hi
    have hblock : step { s with vecThread := s.vecThread.map wake, dtor := .join } (.worker i) =
        some { s with vecThread := (s.vecThread.map wake).set i .blocked, dtor := .join, mtxTask := false } := by
      simp only [step, do_work, hi]
      rfl
    refine .after hblock (.here ⟨hs.stored.2 (by simp [hnotify]), .inl rfl, ?_⟩)
    exact List.mem_set hlen _
  | worker | spurious | submit | caller => exact absurd trivial hc

/-- In a run of the pool that takes only steps that meet the condition, no worker is ever blocked after
`notify_all`; after any other step a run can come to a blocked worker. -/
theorem not_stuck_of_heard (hardware_threads : Nat) (size : Int) :
    (∀ as s, run step (new hardware_threads size) as = some s →
      Meets step Heard (new hardware_threads size) as → ¬ Stuck s) ∧
    ∀ as s a t, run step (new hardware_threads size) as = some s → step s a = some t → ¬ Heard s a →
      ∃ bs u, run step t bs = some u ∧ Stuck u := by
  constructor
  · rintro as s h hm ⟨-, hdtor, hblocked⟩
    have hinv := run_induction (I := fun s => Sound s ∧ Awake s)
      (fun s a t hs hc ht => ⟨sound_step s a t hs.1 ht, (step_stepped ht).2.awake hc hs.1.stopping hs.2⟩)
      ⟨sound_new hardware_threads size, fun hdtor => hdtor.elim nofun nofun⟩ hm h
    exact (hinv.2 hdtor).2 hblocked
  · intro as s a t h hstep hc
    have hsound := run_invariant sound_step (sound_new hardware_threads size) h
    exact reaches_stuck hsound.stopping hstep hc

/-- The only worker has found the predicate `false` when the destructor begins. -/
def inTheGap : List PoolAction := List.replicate 3 (.worker 0) ++ [.destroy]

theorem not_stuck_oneTask :
    ¬ Stuck ⟨[.left], [], false, true, 1, [.accepted], .joined, [0]⟩ ∧
    ∃ bs u, run step ⟨[.gap], [], true, true, 1, [], .join, []⟩ bs = some u ∧ Stuck u := by
  obtain ⟨hkeeps, hloses⟩ := not_stuck_of_heard 8 1
  refine ⟨hkeeps oneTask _ (by decide +kernel) (by decide +kernel), ?_⟩
  exact hloses inTheGap ⟨[.gap], [], true, true, 1, [], .notify, []⟩ .destroy _ (by decide +kernel)
    (by decide +kernel) (by decide +kernel)

theorem stuck_inTheGap : ¬ ∀ (hardware_threads : Nat) (size : Int) (as : List PoolAction)
    (s : FixedThreaPool), 0 < hardware_threads → run step (new hardware_threads size) as = some s →
      ¬ Stuck s := by
  intro h
  exact h 8 1 (inTheGap ++ [.destroy, .worker 0]) ⟨[.blocked], [], false, true, 1, [], .join, []⟩
    (by decide) (by decide +kernel) ⟨rfl, .inl rfl, List.mem_singleton_self _⟩

end FixedThreaPool

end CppLinuxLearn.Deployer
