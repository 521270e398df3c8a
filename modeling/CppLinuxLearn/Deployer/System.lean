import CppLinuxLearn.Deployer.PollLoop
import CppLinuxLearn.Deployer.Task
import CppLinuxLearn.Lib.Steps

/-!
# The service and its workers

The poll thread and the threads of the pool as one system of interleaved steps. The poll thread does
the parts of its iteration one by one, here in any order; a worker takes a task, comes back from the
database and reads the router of the client record, and then sets the cache flag and completes its
message. The answer of a task gets its address in the step `address`.
-/

namespace CppLinuxLearn.Deployer

open Lib Multipart Steps

structure System where
  /-- the poll thread: the service and `m_sockBind` -/
  poll : Proc Service
  /-- the poll thread waits for good or has failed an assertion -/
  halted : Bool
  /-- the tasks whose database operation is under way -/
  running : List Task
  /-- the answers being sent, and whether the cache flag is set before the last frame -/
  sending : List (List (Bytes × Bool) × Bool)
  /-- the messages on their way to `m_sockInprocServer` -/
  inproc : List Msg

/-- The service before its first iteration, with the messages that clients will send. -/
def System.init (env : Env) (queue : List Msg) : System :=
  ⟨⟨Service.init env, ⟨[], queue, []⟩⟩, false, [], [], []⟩

inductive Action
  | refresh (vc : List ManageUser)
  | timer
  | relay
  | readable
  /-- a worker takes the first task of the queue -/
  | take
  /-- the `i`-th running task has its result and reads `client->m_strRouter` -/
  | address (i : Nat) (r : (t : EElementType) → DbResult t)
  /-- the `i`-th answer is completed, on a socket with the given router id -/
  | deliver (i : Nat) (dealer : Bytes)

/-- `client->m_strRouter` of a client whose record exists. -/
def Service.router (s : Service) (u : Str) : Str := ((s.client? u).map DispatcherClient.strRouter).getD []

namespace System
variable (sys : System)

/-- The service. -/
abbrev svc : Service := sys.poll.own

/-- The service after a part of the iteration that reads no message. -/
def modify (f : Service → Service) : System := { sys with poll := ⟨f sys.svc, sys.poll.sock⟩ }

@[simp] theorem svc_modify (f : Service → Service) : (sys.modify f).svc = f sys.svc := rfl
@[simp] theorem running_modify (f : Service → Service) : (sys.modify f).running = sys.running := rfl

end System

/-- One step of the poll thread or of one of `threads` workers. -/
def step (env : Env) (threads : Nat) (sys : System) : Action → Option System
  | .refresh vc => if sys.halted then none else some (sys.modify (checkManagerCache vc))
  | .timer => if sys.halted then none else some (sys.modify (checkTimer env))
  | .relay =>
    match sys.halted, sys.inproc with
    | false, m :: ms => some { sys.modify (relayInproc m) with inproc := ms }
    | _, _ => none
  | .readable =>
    if sys.halted ∨ sys.poll.sock.next = [] then none
    else
      match (onReadable env).run sys.poll with
      | .ok _ p => some { sys with poll := p }
      | .error _ p => some { sys with poll := p, halted := true }
  | .take =>
    match sys.svc.queTask with
    | [] => none
    | t :: ts =>
      if sys.running.length + sys.sending.length < threads then
        some { sys.modify ({ · with queTask := ts }) with running := sys.running ++ [t] }
      else none
  | .address i r =>
    match sys.running[i]? with
    | none => none
    | some t =>
      let addr := sys.svc.router t.client
      some { sys.modify (·.logEvent (.answered t addr)) with
        running := sys.running.eraseIdx i
        sending := sys.sending ++
          [(t.op.answer addr t.requestId (r t.op.type), t.op.storesCache (r t.op.type))] }
  | .deliver i dealer =>
    match sys.sending[i]? with
    | none => none
    | some (frames, stores) =>
      some { sys.modify fun s => { s with bUpdManagerCache := s.bUpdManagerCache || stores } with
        sending := sys.sending.eraseIdx i
        inproc := sys.inproc ++ (assemble [] frames).map fun fs => ⟨dealer, fs⟩ }

/-! ## Some messages -/

/-- A row of `ManageUser` with the given name. -/
def managerNamed (name : String) : ManageUser :=
  ⟨strcpy (Vector.replicate 64 0) (text name), Vector.replicate 64 0⟩

/-- The message of a client at router `r` under the identity `u`. -/
def clientMsg (r u : String) (cmd : ECommandType) (frames : List Bytes) : Msg :=
  ⟨text r, text u :: bytes cmd.toInt :: frames⟩

/-- A login and a query after it. -/
def loginThenQuery : List Msg :=
  [clientMsg "r1" "amy" .TLogin [bytes (7 : CInt)],
    clientMsg "r1" "amy" .TQuery [bytes (8 : CInt), bytes EElementType.TManageUser.toInt]]

/-! ## What a step does to the service -/

/-- The client records, the log and the waiting tasks are as they were. -/
structure SameClients (s s' : Service) : Prop where
  mapClients : s'.mapClients = s.mapClients
  log : s'.log = s.log
  queTask : s'.queTask ⊆ s.queTask
  sent : s.sent <+: s'.sent

theorem sameClients_checkManagerCache (vc : List ManageUser) (s : Service) :
    SameClients s (checkManagerCache vc s) := by
  unfold checkManagerCache
  split <;> exact ⟨rfl, rfl, List.Subset.refl _, List.prefix_rfl⟩

theorem sameClients_relayInproc (m : Msg) (s : Service) : SameClients s (relayInproc m s) := by
  rw [relayInproc_eq]
  exact ⟨rfl, rfl, List.Subset.refl _, List.prefix_append _ _⟩

/-- The effect of a step on the service. -/
inductive Effect (env : Env) (running : List Task) (s : Service) : Service → Prop
  | same {s' : Service} (h : SameClients s s') : Effect env running s s'
  | timer : Effect env running s (checkTimer env s)
  | handled {s' : Service} (h : Handled env s s') : Effect env running s s'
  | answered {t : Task} (ht : t ∈ running) :
    Effect env running s (s.logEvent (.answered t (s.router t.client)))

theorem step_effect {env : Env} {threads : Nat} {sys sys' : System} {a : Action}
    (h : step env threads sys a = some sys') : Effect env sys.running sys.svc sys'.svc := by
  cases a with
  | refresh vc =>
    obtain ⟨-, h⟩ := Option.ite_none_left_eq_some.1 h
    obtain rfl := Option.some.inj h
    exact .same (sameClients_checkManagerCache vc sys.svc)
  | timer =>
    obtain ⟨-, h⟩ := Option.ite_none_left_eq_some.1 h
    obtain rfl := Option.some.inj h
    exact .timer
  | relay =>
    simp only [step] at h
    split at h
    · obtain rfl := Option.some.inj h
      exact .same (sameClients_relayInproc _ sys.svc)
    · cases h
  | readable =>
    obtain ⟨-, h⟩ := Option.ite_none_left_eq_some.1 h
    have hh := onReadable_handled env sys.poll
    cases hr : (onReadable env).run sys.poll <;> rw [hr] at h hh <;> obtain rfl := Option.some.inj h <;>
      exact .handled hh
  | take =>
    simp only [step] at h
    split at h
    · cases h
    · rename_i t ts hq
      obtain ⟨-, h⟩ := Option.ite_none_right_eq_some.1 h
      obtain rfl := Option.some.inj h
      refine .same ⟨rfl, rfl, fun x hx => ?_, List.prefix_rfl⟩
      rw [hq]
      exact List.mem_cons_of_mem t hx
  | address i r =>
    simp only [step] at h
    split at h
    · cases h
    · rename_i t ht
      obtain rfl := Option.some.inj h
      exact .answered (List.mem_of_getElem? ht)
  | deliver i dealer =>
    simp only [step] at h
    split at h
    · cases h
    · obtain rfl := Option.some.inj h
      exact .same ⟨rfl, rfl, List.Subset.refl _, List.prefix_rfl⟩

theorem step_running {env : Env} {threads : Nat} {sys sys' : System} {a : Action}
    (h : step env threads sys a = some sys') {t : Task} (ht : t ∈ sys'.running) :
    t ∈ sys.running ∨ t ∈ sys.svc.queTask := by
  cases a with
  | refresh vc =>
    obtain ⟨-, h⟩ := Option.ite_none_left_eq_some.1 h
    obtain rfl := Option.some.inj h
    exact .inl ht
  | timer =>
    obtain ⟨-, h⟩ := Option.ite_none_left_eq_some.1 h
    obtain rfl := Option.some.inj h
    exact .inl ht
  | relay =>
    simp only [step] at h
    split at h
    · obtain rfl := Option.some.inj h
      exact .inl ht
    · cases h
  | readable =>
    obtain ⟨-, h⟩ := Option.ite_none_left_eq_some.1 h
    split at h <;> obtain rfl := Option.some.inj h <;> exact .inl ht
  | take =>
    simp only [step] at h
    split at h
    · cases h
    · rename_i t' ts hq
      obtain ⟨-, h⟩ := Option.ite_none_right_eq_some.1 h
      obtain rfl := Option.some.inj h
      rcases List.mem_append.1 ht with ht | ht
      · exact .inl ht
      · rw [hq, List.mem_singleton.1 ht]
        exact .inr List.mem_cons_self
  | address i r =>
    simp only [step] at h
    split at h
    · cases h
    · obtain rfl := Option.some.inj h
      exact .inl (List.mem_of_mem_eraseIdx ht)
  | deliver i dealer =>
    simp only [step] at h
    split at h
    · cases h
    · obtain rfl := Option.some.inj h
      exact .inl ht

/-! ## The poll loop is a run of the system -/

/-- The steps of an iteration of `pollFunc`. -/
def Turn.actions (t : Turn) : List Action :=
  [.refresh t.vc, .timer] ++ (if t.inproc.isSome then [.relay] else []) ++
    if t.readable then [.readable] else []

/-- An iteration that finds the flag and the messages as they stand is a run of its steps. -/
theorem pollIter_run {env : Env} (threads : Nat) {sys : System} {t : Turn} (hh : sys.halted = false)
    (hs : t.stored = false) (hi : t.inproc = sys.inproc.head?)
    (hr : t.readable = true → sys.poll.sock.next ≠ []) :
    ∃ sys', run (step env threads) sys t.actions = some sys' ∧
      sys'.poll = final ((pollIter env t).run sys.poll) := by
  obtain ⟨⟨s, k⟩, halted, running, sending, inproc⟩ := sys
  obtain ⟨stored, vc, im, readable⟩ := t
  simp only at hh hs hi hr
  subst hh hs hi
  simp only [pollIter, prelude, Bool.or_false, EStateM.run_bind, run_modifyOwn, Turn.actions]
  have hread : ∀ s' : Service, readable = true → ∃ sys',
      step env threads ⟨⟨s', k⟩, false, running, sending, inproc.tail⟩ .readable = some sys' ∧
        sys'.poll = final ((onReadable env).run ⟨s', k⟩) := by
    intro s' hreadable
    have hk := hr hreadable
    simp only [step, hk, Bool.false_eq_true, false_or, if_false]
    cases (onReadable env).run ⟨s', k⟩ <;> exact ⟨_, rfl, rfl⟩
  cases inproc with
  | nil =>
    cases readable with
    | false => exact ⟨_, rfl, rfl⟩
    | true =>
      obtain ⟨sys', hstep, hp⟩ := hread _ rfl
      exact ⟨sys', congrArg (Option.bind · some) hstep, hp⟩
  | cons m ms =>
    cases readable with
    | false => exact ⟨_, rfl, rfl⟩
    | true =>
      obtain ⟨sys', hstep, hp⟩ := hread _ rfl
      exact ⟨sys', congrArg (Option.bind · some) hstep, hp⟩

end CppLinuxLearn.Deployer
