import CppLinuxLearn.Deployer.Pool

/-!
# The order of the database operations

Requests become tasks in the order in which they are read, and the pool takes the tasks in this order.
The operations of the tasks that were taken are then run one by one, in the order in which their
threads get `m_mtxSqlite`, and nothing makes this the order of the requests. The operations of a client
are in order with one thread, and in every run in which no thread takes a task of the client while an
earlier one still waits for the mutex (`applied_in_order`).
-/

namespace CppLinuxLearn.Deployer

open Lib Multipart Steps

/-! ## Requests and tasks -/

/-- The operation and the request id of the task that a request becomes. -/
def Request.task (env : Env) : Request → Option (TaskOp × CInt)
  | query reqid eletype fs =>
    (EElementType.ofInt? eletype).map fun t => (.onQryBySql t (queryText env.beyond eletype fs) eletype, reqid)
  | delByCol reqid eletype fs =>
    (EElementType.ofInt? eletype).map fun t => (.onDelBySql t (deleteText env.beyond eletype fs) eletype, reqid)
  | byObjects op reqid t objVec => some (.onByObjects op t objVec, reqid)
  | _ => none

/-- The client, the operation and the request id of a request that becomes a task. -/
def Event.request (env : Env) : Event → Option (Str × TaskOp × CInt)
  | parsed u req => (req.task env).map (u, ·)
  | _ => none

def Task.request (task : Task) : Str × TaskOp × CInt := (task.client, task.op, task.requestId)

/-- The thread waits for `m_mtxSqlite`. -/
def Worker.waits (x : Worker) : Bool :=
  match x.stage with
  | .taken => true
  | _ => false

theorem Worker.busy_of_waits {x : Worker} (h : x.waits = true) : x.busy = true := by
  obtain ⟨task, stage⟩ := x
  cases stage with
  | taken => rfl
  | _ => cases h

theorem queTask_handleCmd (env : Env) (c : DispatcherClient) (req : Request) (s : Service) :
    (handleCmd env c req s).queTask =
      s.queTask ++ (req.task env).toList.map fun p => ⟨c.strIdentify, p.1, p.2, c.strRouter⟩ := by
  have hnone : s.queTask = s.queTask ++ [] := (List.append_nil _).symm
  cases req with
  | query reqid eletype fs =>
    rw [handleCmd, submitSql, Request.task]
    cases EElementType.ofInt? eletype with
    | none => exact hnone
    | some t => rfl
  | delByCol reqid eletype fs =>
    rw [handleCmd, submitSql, Request.task]
    cases EElementType.ofInt? eletype with
    | none => exact hnone
    | some t => rfl
  | login reqid =>
    rw [handleCmd, onReqLogin]
    split <;> exact hnone
  | byObjects op reqid t objVec =>
    rw [handleCmd]
    split <;> rfl
  | logout | keepAlive | skipped => exact hnone

theorem request_handleCmd (env : Env) (c : DispatcherClient) (req : Request) (s : Service) :
    (handleCmd env c req s).log.filterMap (Event.request env) = s.log.filterMap (Event.request env) := by
  have hlog : ∀ e, Event.request env e = none →
      (s.log ++ [e]).filterMap (Event.request env) = s.log.filterMap (Event.request env) := by
    intro e he
    rw [List.filterMap_append, List.filterMap_cons_none he, List.filterMap_nil, List.append_nil]
  cases req with
  | login reqid =>
    rw [handleCmd, onReqLogin]
    split
    · rfl
    · exact hlog _ rfl
  | logout reqid => exact hlog _ rfl
  | query => rw [handleCmd, submitSql]; split <;> rfl
  | delByCol => rw [handleCmd, submitSql]; split <;> rfl
  | byObjects => rw [handleCmd]; split <;> rfl
  | keepAlive | skipped => rfl

/-- The tasks that come in are those of the requests that are read. -/
def Receives (env : Env) (s s' : Service) : Prop :=
  ∃ ts, s'.queTask = s.queTask ++ ts ∧
    s'.log.filterMap (Event.request env) =
      s.log.filterMap (Event.request env) ++ ts.map Task.request

theorem receives_of_log {env : Env} {s s' : Service} (hque : s'.queTask = s.queTask)
    (es : List Event) (hlog : s'.log = s.log ++ es) (hes : ∀ e ∈ es, e.request env = none) :
    Receives env s s' := by
  refine ⟨[], by rw [hque, List.append_nil], ?_⟩
  rw [hlog, List.filterMap_append, List.filterMap_eq_nil_iff.2 hes]
  rfl

theorem Handled.receives {env : Env} {s s' : Service} (h : Handled env s s') : Receives env s s' := by
  have hfind : ∀ u, (findClient env u s).queTask = s.queTask := by
    intro u
    unfold findClient
    split <;> rfl
  have hnone : ∀ e, e ∈ ([] : List Event) → e.request env = none := nofun
  have hlog : ∀ {l : List Event}, l = l ++ [] := (List.append_nil _).symm
  cases h with
  | unread => exact receives_of_log rfl [] hlog hnone
  | unreadFound u => exact receives_of_log (hfind u) [] ((log_findClient env u s).trans hlog) hnone
  | identifyErr r rsp => exact receives_of_log rfl [] hlog hnone
  | rejected r u rsp => exact receives_of_log (hfind u) [] ((log_findClient env u s).trans hlog) hnone
  | @reached r u cmd c =>
    refine receives_of_log (hfind u) [.reached c.strIdentify r cmd] ?_ (by simp [Event.request])
    exact congrArg (· ++ [Event.reached c.strIdentify r cmd]) (log_findClient env u s)
  | @ran r u cmd c hv hc req =>
    refine ⟨(req.task env).toList.map fun p => ⟨c.strIdentify, p.1, p.2, r⟩, ?_, ?_⟩
    · rw [queTask_handleCmd]
      exact congrArg (· ++ _) (hfind u)
    · rw [request_handleCmd, Service.log_logEvent, reach, Service.log_logEvent, log_touchClient,
        log_findClient, List.append_assoc, List.filterMap_append]
      refine congrArg (_ ++ ·) ?_
      rw [List.singleton_append, List.filterMap_cons_none rfl, List.map_map]
      cases hreq : req.task env with
      | none => exact List.filterMap_cons_none (by rw [Event.request, hreq]; rfl)
      | some p => exact List.filterMap_cons_some (by rw [Event.request, hreq]; rfl)

namespace Live

/-! ## The tasks received -/

/-- The tasks of the requests so far, in the order in which they came. -/
def received (s : Live) : List Task := s.workers.map Worker.task ++ s.svc.queTask

/-- The database operations of a run: which worker ran its task, and what SQLite did. -/
def execs : List LiveAction → List (Nat × Sqlite)
  | [] => []
  | .exec i q :: as => (i, q) :: execs as
  | _ :: as => execs as

/-- Every task that came has run its database operation. -/
structure Drained (s : Live) : Prop where
  queued : s.svc.queTask = []
  executed : ∀ x ∈ s.workers, x.waits = false

section
variable {w : World} {s t : Live} {a : LiveAction}

theorem map_task_setStage {i : Nat} {task : Task} {stage stage' : Stage task.op.type}
    (hw : s.workers[i]? = some ⟨task, stage⟩) :
    (s.setStage i task stage').workers.map Worker.task = s.workers.map Worker.task := by
  obtain ⟨pre, post, hworkers, -, hset⟩ := split_setStage hw stage'
  rw [hset, hworkers, List.map_append, List.map_append]
  rfl

theorem request_checkTimer (env : Env) (s : Service) :
    (checkTimer env s).log.filterMap (Event.request env) = s.log.filterMap (Event.request env) := by
  have hclient : ∀ tnow s u, (katimeClient env tnow s u).log.filterMap (Event.request env) =
      s.log.filterMap (Event.request env) := by
    intro tnow s u
    unfold katimeClient
    split
    · rfl
    · split
      · rw [Service.log_logEvent, Service.log_modifyClient, List.filterMap_append,
          List.filterMap_cons_none rfl, List.filterMap_nil, List.append_nil]
      · rfl
  exact checkTimer_keeps (P := fun s' => s'.log.filterMap (Event.request env) =
    s.log.filterMap (Event.request env)) (fun _ _ _ h => h) (fun tnow s' u h => (hclient tnow s' u).trans h) rfl

theorem log_relayMsg (dealer : Bytes) (frames : List (Bytes × Bool)) (s : Service) :
    (relayMsg dealer frames s).log = s.log := by
  rw [relayMsg_eq]

theorem step_received (h : Stepped w s a t) : ∃ ts, t.received = s.received ++ ts ∧
    t.svc.log.filterMap (Event.request w.toEnv) =
      s.svc.log.filterMap (Event.request w.toEnv) ++ ts.map Task.request := by
  have hsame : t.received = s.received →
      t.svc.log.filterMap (Event.request w.toEnv) = s.svc.log.filterMap (Event.request w.toEnv) →
      ∃ ts, t.received = s.received ++ ts ∧ t.svc.log.filterMap (Event.request w.toEnv) =
        s.svc.log.filterMap (Event.request w.toEnv) ++ ts.map Task.request := by
    intro h h'
    exact ⟨[], by rw [h, List.append_nil], by rw [h', List.map_nil, List.append_nil]⟩
  have hhandled : t.workers = s.workers → Handled w.toEnv s.svc t.svc →
      ∃ ts, t.received = s.received ++ ts ∧ t.svc.log.filterMap (Event.request w.toEnv) =
        s.svc.log.filterMap (Event.request w.toEnv) ++ ts.map Task.request := by
    intro hworkers hh
    obtain ⟨ts, hque, hlog⟩ := hh.receives
    exact ⟨ts, by rw [received, hworkers, hque, ← List.append_assoc]; rfl, hlog⟩
  cases h with
  | checkSet | checkUnset | query | replace | noRelay | noHandle => exact hsame rfl rfl
  | timer hpc =>
    refine hsame ?_ (request_checkTimer w.toEnv s.svc)
    exact congrArg (_ ++ ·) (sameCache_checkTimer w.toEnv s.svc).queTask
  | @relay hpc i dealer task frames hw =>
    refine hsame ?_ (congrArg _ (log_relayMsg dealer frames s.svc))
    exact congrArg₂ (· ++ ·) (map_task_setStage (s := s) hw)
      (sameCache_relayMsg dealer frames s.svc).queTask
  | handle hpc hnext hrun => exact hhandled rfl (handled_of_run hrun)
  | handleStop hpc hnext hrun => exact hhandled rfl (handled_of_run hrun)
  | @take task ts hque hfree =>
    refine hsame ?_ rfl
    rw [received, received, hque, List.map_append, List.append_assoc]
    rfl
  | exec hw hx => exact hsame (congrArg (· ++ _) (map_task_setStage hw)) rfl
  | @address i task res qryObjs hw =>
    refine hsame (congrArg (· ++ _) (map_task_setStage (s := s) hw)) ?_
    exact (List.filterMap_append ..).trans (List.append_nil _)
  | store hw => exact hsame (congrArg (· ++ _) (map_task_setStage (s := s) hw)) rfl
  | send hw => exact hsame (congrArg (· ++ _) (map_task_setStage hw)) rfl

theorem received_run {db : Database} {queue : List Msg} {as : List LiveAction}
    (h : run (Live.step w) (init w db queue) as = some t) :
    t.received.map Task.request = t.svc.log.filterMap (Event.request w.toEnv) := by
  refine run_invariant (I := fun s => s.received.map Task.request =
    s.svc.log.filterMap (Event.request w.toEnv)) ?_ rfl h
  intro s a t hs ht
  obtain ⟨ts, hts, hlog⟩ := step_received (step_stepped ht)
  rw [hts, hlog, List.map_append, hs]

end

/-! ## One by one -/

section
variable (w : World)

/-- The database operations of the tasks, one after the other. -/
def oneByOne : List (Task × Sqlite) → Database → Option Database
  | [], db => some db
  | (task, q) :: ops, db => (task.op.exec w q db).bind fun x => oneByOne ops x.db

variable {w} {s t : Live} {a : LiveAction}

theorem task_step (h : Stepped w s a t) {i : Nat} {task : Task}
    (hi : (s.workers.map Worker.task)[i]? = some task) : (t.workers.map Worker.task)[i]? = some task := by
  have hset : ∀ {k : Nat} {task' : Task} {stage stage' : Stage task'.op.type},
      s.workers[k]? = some ⟨task', stage⟩ →
        ((s.setStage k task' stage').workers.map Worker.task)[i]? = some task := by
    intro k task' stage stage' hw
    rwa [map_task_setStage hw]
  cases h with
  | checkSet | checkUnset | query | replace | timer | noRelay | handle | handleStop | noHandle =>
    exact hi
  | take =>
    have hlt := (List.getElem?_eq_some_iff.1 hi).1
    rw [List.map_append, List.getElem?_append_left hlt, hi]
  | relay hpc hw => exact hset hw
  | exec hw hx => exact hset hw
  | address hw => exact hset hw
  | store hw => exact hset hw
  | send hw => exact hset hw

theorem task_run {as : List LiveAction} (h : run (Live.step w) s as = some t) {i : Nat} {task : Task}
    (hi : (s.workers.map Worker.task)[i]? = some task) : (t.workers.map Worker.task)[i]? = some task :=
  run_invariant (I := fun s => (s.workers.map Worker.task)[i]? = some task)
    (fun _ _ _ hs ht => task_step (step_stepped ht) hs) hi h

theorem db_step (h : Stepped w s a t) (ha : ∀ i q, a ≠ .exec i q) : t.db = s.db := by
  cases h with
  | exec => exact absurd rfl (ha _ _)
  | _ => rfl

/-- **The operations are run one by one**, in the order in which the threads get the mutex. -/
theorem run_oneByOne {as : List LiveAction} (h : run (Live.step w) s as = some t) :
    ∃ ops, ops.map (some ·.1) = (execs as).map (fun p => (t.workers.map Worker.task)[p.1]?) ∧
      ops.map Prod.snd = (execs as).map Prod.snd ∧ oneByOne w ops s.db = some t.db := by
  induction as generalizing s with
  | nil =>
    obtain rfl : s = t := Option.some.inj h
    exact ⟨[], rfl, rfl, rfl⟩
  | cons a as ih =>
    obtain ⟨u, hu, hrest⟩ := run_cons h
    obtain ⟨ops, htasks, hqs, hdb⟩ := ih hrest
    cases a with
    | exec i q =>
      cases step_stepped hu with
      | @exec i q task hw x hx =>
        have hi : (s.workers.map Worker.task)[i]? = some task := by rw [List.getElem?_map, hw]; rfl
        refine ⟨(task, q) :: ops, ?_, congrArg (q :: ·) hqs, ?_⟩
        · rw [execs, List.map_cons, List.map_cons, htasks, task_run h hi]
        · exact Option.bind_eq_some_iff.2 ⟨x, hx, hdb⟩
    | _ => exact ⟨ops, htasks, hqs, db_step (step_stepped hu) nofun ▸ hdb⟩

/-! ## In order -/

/-- The task at this place of the list is one of the client `u`. -/
def isOf (u : Str) (ts : List Task) (i : Nat) : Bool := (ts[i]?).any fun task => task.client = u

/-- The places of the tasks of the client `u`, in the order in which they were received. -/
def places (u : Str) (ts : List Task) : List Nat := (List.range ts.length).filter (isOf u ts)

/-- The places of the tasks of the client `u` that the run has executed, in the order in which it did. -/
def turns (u : Str) (ts : List Task) (as : List LiveAction) : List Nat :=
  ((execs as).map Prod.fst).filter (isOf u ts)

/-- A thread takes a task of the client `u` when none of those before still waits for the mutex. -/
def OneAtATime (u : Str) (s : Live) : LiveAction → Prop
  | .take => ∀ task ts, s.svc.queTask = task :: ts → task.client = u →
    ∀ x ∈ s.workers, x.task.client = u → x.waits = false
  | _ => True

/-- A task of the client `u` gets the mutex when none of its tasks that came before still waits for it. -/
def InTurn (u : Str) (s : Live) : LiveAction → Prop
  | .exec i _ => ∀ x, s.workers[i]? = some x → x.task.client = u →
    ∀ j y, j < i → s.workers[j]? = some y → y.task.client = u → y.waits = false
  | _ => True

variable {u : Str}

theorem isOf_append {ts ts' : List Task} {i : Nat} (hi : i < ts.length) : isOf u (ts ++ ts') i = isOf u ts i := by
  rw [isOf, isOf, List.getElem?_append_left hi]

theorem isOf_eq_true {ts : List Task} {i : Nat} :
    isOf u ts i = true ↔ ∃ task, ts[i]? = some task ∧ task.client = u := by
  simp [isOf, Option.any_eq_true]

theorem mem_places {ts : List Task} {i : Nat} : i ∈ places u ts ↔ isOf u ts i = true := by
  rw [places, List.mem_filter, List.mem_range]
  refine and_iff_right_of_imp fun h => ?_
  obtain ⟨task, hi, -⟩ := isOf_eq_true.1 h
  exact (List.getElem?_eq_some_iff.1 hi).1

theorem places_begin (ts ts' : List Task) : places u ts <+: places u (ts ++ ts') := by
  have hsame : (List.range ts.length).filter (isOf u (ts ++ ts')) = places u ts :=
    List.filter_congr fun i hi => isOf_append (List.mem_range.1 hi)
  rw [← hsame, places, List.length_append, List.range_add, List.filter_append]
  exact List.prefix_append ..

/-- In a list that goes up, what has come with everything before it is a prefix. -/
theorem concat_prefix_of_next {es l : List Nat} {k : Nat} (h : es <+: l) (hl : l.Pairwise (· < ·)) (hk : k ∈ l)
    (hnew : k ∉ es) (hbefore : ∀ j ∈ l, j < k → j ∈ es) : es ++ [k] <+: l := by
  obtain ⟨rest, rfl⟩ := h
  cases rest with
  | nil => exact absurd (by simpa using hk) hnew
  | cons j rest =>
    have hup := List.pairwise_append.1 hl
    have hj : j ∉ es := fun hmem => Nat.lt_irrefl j (hup.2.2 j hmem j List.mem_cons_self)
    have hle : k ≤ j := by
      by_contra hlt
      exact hj (hbefore j (by simp) (by omega))
    obtain rfl : k = j := by
      rcases List.mem_append.1 hk with hk | hk
      · exact absurd hk hnew
      · rcases List.mem_cons.1 hk with rfl | hk
        · rfl
        · have hlt := (List.pairwise_cons.1 hup.2.1).1 k hk
          omega
    exact ⟨rest, by simp⟩

theorem getElem?_setStage {i k : Nat} {x y : Worker} {task : Task} {stage : Stage task.op.type}
    (hw : s.workers[k]? = some y) (hi : (s.setStage k task stage).workers[i]? = some x) :
    i = k ∧ x = ⟨task, stage⟩ ∨ i ≠ k ∧ s.workers[i]? = some x := by
  rw [setStage, List.getElem?_set] at hi
  split at hi
  · rename_i hki
    rw [if_pos (List.getElem?_eq_some_iff.1 hw).1] at hi
    exact .inl ⟨hki.symm, (Option.some.inj hi).symm⟩
  · rename_i hki
    exact .inr ⟨Ne.symm hki, hi⟩

/-- Of the client `u`, the tasks `es` have run, which are its first ones, and no other of those taken. -/
structure RanInTurn (u : Str) (es : List Nat) (s : Live) : Prop where
  first : es <+: places u (s.workers.map Worker.task)
  waits : ∀ i x, s.workers[i]? = some x → x.task.client = u → (x.waits = true ↔ i ∉ es)

theorem isOf_worker {i : Nat} {x : Worker} (hi : s.workers[i]? = some x) :
    isOf u (s.workers.map Worker.task) i = true ↔ x.task.client = u := by
  rw [isOf_eq_true, List.getElem?_map, hi]
  simp

theorem ranInTurn_step {es : List Nat} (hs : s.RanInTurn u es) (hc : s.InTurn u a) (h : Stepped w s a t) :
    t.RanInTurn u (es ++ turns u (s.workers.map Worker.task) [a]) := by
  have hsame : s.RanInTurn u (es ++ []) := by rwa [List.append_nil]
  -- a worker goes on, and it had run its task before
  have hset : ∀ {k : Nat} {task : Task} {stage stage' : Stage task.op.type}, s.workers[k]? = some ⟨task, stage⟩ →
      Worker.waits ⟨task, stage⟩ = false → Worker.waits ⟨task, stage'⟩ = false →
        (s.setStage k task stage').RanInTurn u (es ++ []) := by
    intro k task stage stage' hw hold hnew
    rw [List.append_nil]
    refine ⟨by rw [map_task_setStage hw]; exact hs.first, fun i x hi hx => ?_⟩
    rcases getElem?_setStage hw hi with ⟨rfl, rfl⟩ | ⟨-, hi⟩
    · rw [hnew, ← hold]
      exact hs.waits i _ hw hx
    · exact hs.waits i x hi hx
  cases h with
  | checkSet | checkUnset | query | replace | timer | noRelay | handle | handleStop | noHandle =>
    exact ⟨hsame.first, hsame.waits⟩
  | @relay hpc i dealer task frames hw =>
    have hnext : (s.setStage i task .relayed).RanInTurn u (es ++ []) := hset hw rfl rfl
    exact ⟨hnext.first, hnext.waits⟩
  | @address i task res qryObjs hw =>
    have hnext : (s.setStage i task (.addressed (task.op.answer (s.svc.router task.client) task.requestId
        ⟨res, qryObjs, s.sqlite_error_msg i⟩) (task.op.storesCache ⟨res, qryObjs, s.sqlite_error_msg i⟩))).RanInTurn u
        (es ++ []) := hset hw rfl rfl
    exact ⟨hnext.first, hnext.waits⟩
  | @store i task frames stores hw =>
    have hnext : (s.setStage i task (.stored frames)).RanInTurn u (es ++ []) := hset hw rfl rfl
    exact ⟨hnext.first, hnext.waits⟩
  | send hw => exact hset hw rfl rfl
  | @take task ts hque hfree =>
    obtain ⟨hfirst, hwaits⟩ := hsame
    refine ⟨hfirst.trans ?_, fun i x hi hx => ?_⟩
    · rw [List.map_append]
      exact places_begin ..
    · rcases Nat.lt_or_ge i s.workers.length with hlt | hge
      · exact hwaits i x ((List.getElem?_append_left hlt).symm.trans hi) hx
      · -- the new task has not run
        have hnew : i ∉ es ++ turns u (s.workers.map Worker.task) [.take] := by
          intro hmem
          obtain ⟨task', htask, -⟩ := isOf_eq_true.1 (mem_places.1 (hfirst.subset hmem))
          have := (List.getElem?_eq_some_iff.1 htask).1
          rw [List.length_map] at this
          omega
        rw [List.getElem?_append_right hge, List.getElem?_singleton] at hi
        split at hi
        · obtain rfl := Option.some.inj hi
          exact iff_of_true rfl hnew
        · cases hi
  | @exec k q task hw x hx =>
    have htasks : (s.setStage k task (.executed x.res x.qryObjs)).workers.map Worker.task =
        s.workers.map Worker.task := map_task_setStage hw
    by_cases hu : task.client = u
    · have hk : isOf u (s.workers.map Worker.task) k = true := (isOf_worker hw).2 hu
      have hturns : turns u (s.workers.map Worker.task) [.exec k q] = [k] := by
        simp [turns, execs, hk]
      have hnew : k ∉ es := (hs.waits k _ hw hu).1 rfl
      rw [hturns]
      refine ⟨?_, fun i y hi hy => ?_⟩
      · have hbegin : es ++ [k] <+: places u (s.workers.map Worker.task) := by
          refine concat_prefix_of_next hs.first (List.Pairwise.filter _ List.pairwise_lt_range)
            (mem_places.2 hk) hnew ?_
          intro j hj hlt
          obtain ⟨task', htask, hclient⟩ := isOf_eq_true.1 (mem_places.1 hj)
          rw [List.getElem?_map] at htask
          obtain ⟨y, hy, rfl⟩ := Option.map_eq_some_iff.1 htask
          have hran := hc _ hw hu j y hlt hy hclient
          by_contra hmem
          rw [(hs.waits j y hy hclient).2 hmem] at hran
          cases hran
        rwa [← htasks] at hbegin
      · rcases getElem?_setStage (s := s) hw hi with ⟨rfl, rfl⟩ | ⟨hne, hi⟩
        · exact iff_of_false nofun (by simp)
        · rw [hs.waits i y hi hy]
          simp [hne]
    · have hk : isOf u (s.workers.map Worker.task) k = false := by
        rw [Bool.eq_false_iff, ne_eq, isOf_worker hw]
        exact hu
      have hturns : turns u (s.workers.map Worker.task) [.exec k q] = [] := by
        simp [turns, execs, hk]
      rw [hturns, List.append_nil]
      refine ⟨?_, fun i y hi hy => ?_⟩
      · have hfirst := hs.first
        rwa [← htasks] at hfirst
      · rcases getElem?_setStage (s := s) hw hi with ⟨rfl, rfl⟩ | ⟨-, hi⟩
        · exact absurd hy hu
        · exact hs.waits i y hi hy

theorem execs_cons (a : LiveAction) (as : List LiveAction) : execs (a :: as) = execs [a] ++ execs as := by
  cases a <;> rfl

theorem turns_cons (u : Str) (ts : List Task) (a : LiveAction) (as : List LiveAction) :
    turns u ts (a :: as) = turns u ts [a] ++ turns u ts as := by
  rw [turns, execs_cons, List.map_append, List.filter_append]
  rfl

theorem turns_step {ts : List Task} (h : Stepped w s a t)
    (hts : ∀ (i : Nat) (task : Task), (s.workers.map Worker.task)[i]? = some task → ts[i]? = some task) :
    turns u ts [a] = turns u (s.workers.map Worker.task) [a] := by
  cases h with
  | @exec i q task hw x hx =>
    have hi : (s.workers.map Worker.task)[i]? = some task := by rw [List.getElem?_map, hw]; rfl
    have hsame : isOf u ts i = isOf u (s.workers.map Worker.task) i := by rw [isOf, isOf, hi, hts i task hi]
    simp only [turns, execs, List.map_cons, List.map_nil, List.filter_cons, List.filter_nil, hsame]
  | _ => rfl

theorem ranInTurn_run {as : List LiveAction} {es : List Nat} {ts : List Task} (hs : s.RanInTurn u es)
    (hm : Meets (Live.step w) (InTurn u) s as) (h : run (Live.step w) s as = some t)
    (hts : ∀ (i : Nat) (task : Task), (t.workers.map Worker.task)[i]? = some task → ts[i]? = some task) :
    t.RanInTurn u (es ++ turns u ts as) := by
  induction as generalizing s es with
  | nil =>
    obtain rfl : s = t := Option.some.inj h
    rwa [turns, execs, List.map_nil, List.filter_nil, List.append_nil]
  | cons a as ih =>
    obtain ⟨v, hv, hrest⟩ := run_cons h
    have hstep := step_stepped hv
    have hturns : turns u ts [a] = turns u (s.workers.map Worker.task) [a] :=
      turns_step hstep fun i task hi => hts i task (task_run h hi)
    have hnext := ih (ranInTurn_step hs hm.1 hstep) (hm.2 v hv) hrest
    rwa [turns_cons, hturns, ← List.append_assoc]

/-! ### When they are in turn -/

/-- At most one task of the client `u` waits for the mutex. -/
def OneWaits (u : Str) (s : Live) : Prop :=
  ∀ (i j : Nat) (x y : Worker), s.workers[i]? = some x → s.workers[j]? = some y → x.task.client = u →
    y.task.client = u → x.waits = true → y.waits = true → i = j

theorem oneWaits_step (hs : s.OneWaits u) (hc : s.OneAtATime u a) (h : Stepped w s a t) : t.OneWaits u := by
  -- a worker that goes on does not wait
  have hset : ∀ {k : Nat} {task : Task} {stage stage' : Stage task.op.type}, s.workers[k]? = some ⟨task, stage⟩ →
      Worker.waits ⟨task, stage'⟩ = false → (s.setStage k task stage').OneWaits u := by
    intro k task stage stage' hk hnew i j x y hi hj hx hy hxw hyw
    have hback : ∀ {i : Nat} {x : Worker}, (s.setStage k task stage').workers[i]? = some x → x.waits = true →
        s.workers[i]? = some x := by
      intro i x hi hx
      rcases getElem?_setStage hk hi with ⟨-, rfl⟩ | ⟨-, hi⟩
      · rw [hnew] at hx
        cases hx
      · exact hi
    exact hs i j x y (hback hi hxw) (hback hj hyw) hx hy hxw hyw
  cases h with
  | checkSet | checkUnset | query | replace | timer | noRelay | handle | handleStop | noHandle => exact hs
  | relay hpc hk => exact hset hk rfl
  | exec hk hx => exact hset hk rfl
  | address hk => exact hset hk rfl
  | store hk => exact hset hk rfl
  | send hk => exact hset hk rfl
  | @take task ts hque hfree =>
    have hlast : ∀ {i : Nat} {x : Worker}, (s.workers ++ [⟨task, .taken⟩])[i]? = some x →
        s.workers[i]? = some x ∨ i = s.workers.length ∧ x = ⟨task, .taken⟩ := by
      intro i x hi
      rcases Nat.lt_or_ge i s.workers.length with hlt | hge
      · exact .inl ((List.getElem?_append_left hlt).symm.trans hi)
      · rw [List.getElem?_append_right hge, List.getElem?_singleton] at hi
        split at hi
        · exact .inr ⟨by omega, (Option.some.inj hi).symm⟩
        · cases hi
    intro i j x y hi hj hx hy hxw hyw
    rcases hlast hi with hi | ⟨rfl, rfl⟩ <;> rcases hlast hj with hj | ⟨rfl, rfl⟩
    · exact hs i j x y hi hj hx hy hxw hyw
    · rw [hc task ts hque hy x (List.mem_of_getElem? hi) hx] at hxw
      cases hxw
    · rw [hc task ts hque hx y (List.mem_of_getElem? hj) hy] at hyw
      cases hyw
    · rfl

theorem inTurn_of_oneWaits (hs : s.OneWaits u) (h : Stepped w s a t) : s.InTurn u a := by
  cases h with
  | exec hk hx =>
    intro x hkx hu j y hj hjy hyu
    refine Bool.eq_false_iff.2 fun hwaits => ?_
    obtain rfl := Option.some.inj (hk.symm.trans hkx)
    exact Nat.ne_of_lt hj (hs j _ y _ hjy hk hyu hu hwaits rfl)
  | _ => trivial

theorem oneAtATime_of_step (hone : w.threads ≤ 1) (h : Stepped w s a t) : s.OneAtATime u a := by
  cases h with
  | take hque hfree =>
    intro _ _ _ _ x hx _
    have hnone := List.countP_eq_zero.1 (Nat.lt_one_iff.1 (lt_of_lt_of_le hfree hone)) x hx
    exact Bool.eq_false_iff.2 fun hwaits => hnone (Worker.busy_of_waits hwaits)
  | _ => trivial

theorem getElem?_workers_init {db : Database} {queue : List Msg} (i : Nat) :
    (init w db queue).workers[i]? = none := List.getElem?_nil

theorem meets_inTurn {db : Database} {queue : List Msg} {as : List LiveAction}
    (h : run (Live.step w) (init w db queue) as = some t)
    (hcond : w.threads ≤ 1 ∨ Meets (Live.step w) (OneAtATime u) (init w db queue) as ∨
      Meets (Live.step w) (InTurn u) (init w db queue) as) : Meets (Live.step w) (InTurn u) (init w db queue) as := by
  have hinit : (init w db queue).OneWaits u := by
    intro i j x y hi
    rw [getElem?_workers_init] at hi
    cases hi
  have hturn : Meets (Live.step w) (OneAtATime u) (init w db queue) as →
      Meets (Live.step w) (InTurn u) (init w db queue) as := by
    intro hm
    have hstarted : ∀ s a v, s.OneWaits u → s.OneAtATime u a → Live.step w s a = some v → v.OneWaits u :=
      fun _ _ _ hs hc hv => oneWaits_step hs hc (step_stepped hv)
    exact meets_of_meets_run hstarted (fun _ _ _ hs _ hv => inTurn_of_oneWaits hs (step_stepped hv)) hinit hm h
  rcases hcond with hone | hm | hm
  · have hsteps : ∀ s a v, True → Live.step w s a = some v → s.OneAtATime u a :=
      fun _ _ _ _ hv => oneAtATime_of_step hone (step_stepped hv)
    exact hturn (meets_of_run (I := fun _ => True) (fun _ _ _ _ _ => trivial) hsteps trivial h)
  · exact hturn hm
  · exact hm

/-! ## The order of receipt -/

theorem zip_eq_of_getElem? {α β : Type} {ps : List (α × β)} {xs : List α} {ys : List β}
    (hsnd : ps.map Prod.snd = ys) (hfst : ∀ (i : Nat) (p : α × β), ps[i]? = some p → xs[i]? = some p.1) :
    xs.zip ys = ps := by
  subst hsnd
  induction ps generalizing xs with
  | nil => exact List.zip_nil_right
  | cons p ps ih =>
    cases xs with
    | nil => cases hfst 0 p rfl
    | cons x xs =>
      obtain rfl : x = p.1 := Option.some.inj (hfst 0 p rfl)
      rw [List.map_cons, List.zip_cons_cons, ih fun i q hq => hfst (i + 1) q hq]

theorem eq_of_prefix_of_subset {l l' : List Nat} (h : l <+: l') (hnodup : l'.Nodup) (hsub : l' ⊆ l) : l = l' := by
  obtain ⟨rest, rfl⟩ := h
  cases rest with
  | nil => exact (List.append_nil l).symm
  | cons a rest =>
    have hmem : a ∈ l := hsub (by simp)
    exact absurd hmem fun hmem => (List.nodup_append.1 hnodup).2.2 a hmem a List.mem_cons_self rfl

theorem turns_begin {db : Database} {queue : List Msg} {as : List LiveAction}
    (h : run (Live.step w) (init w db queue) as = some t)
    (hm : Meets (Live.step w) (InTurn u) (init w db queue) as) :
    turns u t.received as <+: places u t.received ∧ (t.Drained → turns u t.received as = places u t.received) := by
  have hinit : (init w db queue).RanInTurn u [] := by
    refine ⟨List.nil_prefix, fun i x hi => ?_⟩
    rw [getElem?_workers_init] at hi
    cases hi
  have hran : t.RanInTurn u (turns u t.received as) := by
    refine ranInTurn_run hinit hm h fun i task hi => ?_
    rw [received, List.getElem?_append_left (List.getElem?_eq_some_iff.1 hi).1, hi]
  have hbegin : turns u t.received as <+: places u t.received := hran.first.trans (places_begin ..)
  refine ⟨hbegin, fun hd => eq_of_prefix_of_subset hbegin ?_ fun i hi => ?_⟩
  · exact List.Nodup.filter _ List.nodup_range
  · -- every task of the client has run
    obtain ⟨task, htask, hu⟩ := isOf_eq_true.1 (mem_places.1 hi)
    rw [received, hd.queued, List.append_nil, List.getElem?_map] at htask
    obtain ⟨x, hx, rfl⟩ := Option.map_eq_some_iff.1 htask
    have hwaits := hd.executed x (List.mem_of_getElem? hx)
    by_contra hmem
    rw [(hran.waits i x hx hu).2 hmem] at hwaits
    cases hwaits

/-- The operations in the order of the mutex, with the tasks by their places among those received. -/
theorem applied_in_turn {db : Database} {queue : List Msg} {as : List LiveAction}
    (h : run (Live.step w) (init w db queue) as = some t) : ∃ ops,
      ops.map (some ·.1) = (execs as).map (fun p => t.received[p.1]?) ∧ ops.map Prod.snd = (execs as).map Prod.snd ∧
        oneByOne w ops db = some t.db := by
  obtain ⟨ops, htasks, hqs, hdb⟩ := run_oneByOne h
  refine ⟨ops, htasks.trans (List.map_congr_left fun p hp => ?_), hqs, hdb⟩
  have hmem : (t.workers.map Worker.task)[p.1]? ∈ ops.map (some ·.1) := htasks ▸ List.mem_map_of_mem hp
  obtain ⟨e, -, he⟩ := List.mem_map.1 hmem
  rw [received, List.getElem?_append_left (List.getElem?_eq_some_iff.1 he.symm).1]

end

/-! ## A deletion and an insertion -/

/-- `amy` logs in, deletes `bob` and inserts him. -/
def replaceBob : List Msg :=
  [clientMsg "r1" "amy" .TLogin [bytes (7 : CInt)],
    clientMsg "r1" "amy" .TDelete [bytes (8 : CInt), bytes EElementType.TManageUser.toInt,
      bytes (managerNamed "bob")],
    clientMsg "r1" "amy" .TInsert [bytes (9 : CInt), bytes EElementType.TManageUser.toInt,
      bytes (managerNamed "bob")]]

/-- The messages are handled. -/
def replaceBobRead : List LiveAction :=
  [.check, .query, .replace, .timer, .noRelay, .handle, .check, .timer, .noRelay, .handle,
    .check, .timer, .noRelay, .handle]

def oneThread : World := { plainWorld with threads := 1 }

/-- The one thread runs the deletion and then the insertion. -/
def oneAfterOther : List LiveAction :=
  replaceBobRead ++ [.take, .exec 0 allSucceeds, .address 0, .store 0, .send 0, .take, .exec 1 allSucceeds]

theorem oneAfterOther_isSome : (run (step oneThread) (init oneThread (managersNamed ["amy"]) replaceBob)
    oneAfterOther).isSome := by
  decide +kernel

/-- `bob` is deleted and then inserted. -/
def replacedBob : Live := Option.get _ oneAfterOther_isSome

theorem drained_replacedBob : replacedBob.Drained := by
  refine ⟨?_, ?_⟩ <;> decide +kernel

theorem client_of_mem_replacedBob : ∀ task ∈ replacedBob.received, task.client = text "amy" := by
  decide +kernel

/-- Two threads take the tasks, and the second is the first to get the mutex. -/
def insertFirst : List LiveAction :=
  replaceBobRead ++ [.take, .take, .exec 1 allSucceeds, .exec 0 allSucceeds]

theorem insertFirst_isSome : (run (step plainWorld) (init plainWorld (managersNamed ["amy"]) replaceBob)
    insertFirst).isSome := by
  decide +kernel

/-- `bob` is inserted and then deleted. -/
def swappedBob : Live := Option.get _ insertFirst_isSome

end Live

end CppLinuxLearn.Deployer
