import CppLinuxLearn.Deployer.System
import CppLinuxLearn.Deployer.StoreRead
import Mathlib.Logic.Function.Basic

/-!
# The poll thread, the pool and the database

The service with its database as one system of interleaved steps. The poll thread goes through its
iteration with a program counter; a thread of the pool takes the first task of the queue, runs its
database operation under `m_mtxSqlite`, reads the router of the client, stores the cache flag and
completes its message, in this order. `Stepped` says once what each step needs and does.

A worker is a task that was taken, and stays in the list, in the order of the taking, with how far it
has come.
-/

namespace CppLinuxLearn.Deployer

open Lib Multipart Steps

/-! ## Database operations -/

/-- What surrounds the service. -/
structure World extends Env, Reader where
  /-- the rows that a text `select * from <table of t> where ..` gives; `none` if SQLite makes no
  statement of it -/
  selects : EElementType → Str → Database → Option (List Row)
  /-- the rows that a text `delete from <table of t> where ..` takes -/
  deletes : EElementType → Str → Option (Row → Bool)
  /-- the threads of the pool -/
  threads : Nat
  /-- what the thread that takes the `i`-th task has in its `sqlite_error_msg` from the tasks before -/
  leftover : Nat → Str

section
variable (w : World)

/-- `delBySql`, for a text that deletes from the table of `t`. -/
def delBySql (q : Sqlite) (t : EElementType) (sql : Str) (db : Database) : Called :=
  if sql.length = 0 then ⟨0, some [], db⟩
  else
    let c := Conn.opened db
    match (if q.prepared then w.deletes t sql else none) with
    | some hit =>
      let c := beginTransaction c
      if q.stepOk 0 then
        let n := (c.cur.rows t).countP hit
        let c := { c with cur := c.cur.setRows t ((c.cur.rows t).filter fun r => !hit r) }
        ⟨n, some [], (commitTransaction c).committed⟩
      else ⟨SQLITEDATABASE_ERROR, some q.errmsg, (rollbackTransaction c).committed⟩
    | none => ⟨SQLITEDATABASE_ERROR, some q.errmsg, c.committed⟩

/-- What a task has from its database operation, and what the operation leaves. -/
structure Executed (t : EElementType) where
  res : Int
  qryObjs : List t.Struct
  /-- `StaticDefines::sqlite_error_msg`, if it was set -/
  errmsg : Option Str
  db : Database

def Called.executed (t : EElementType) (c : Called) : Executed t := ⟨c.res, [], c.errmsg, c.db⟩

/-- The part of a task under `m_mtxSqlite`; `none` is undefined behaviour. -/
def TaskOp.exec (q : Sqlite) (db : Database) : (op : TaskOp) → Option (Executed op.type)
  | .onQryBySql t sql _ =>
    (qryRows w.toReader q t (w.selects t sql db)).map fun objs =>
      ⟨0, objs, some (if q.prepared && (w.selects t sql db).isSome then [] else q.errmsg), db⟩
  | .onDelBySql t sql _ => some ((delBySql w q t sql db).executed t)
  | .onByObjects op t objVec => some (((byObjects q op t).call q objVec db).executed t)

/-- The query of `updManagerCache`, when it succeeds. -/
def World.managers (db : Database) : Option (List ManageUser) :=
  (w.scan (db.rows .TManageUser)).mapM (w.fetch .TManageUser)

end

theorem qryBySql_managers (w : World) {V : Type} (e : Engine V) (he : e.toReader = w.toReader) {q : Sqlite}
    (hq : q.Answers) (db : Database) :
    qryBySql e q .TManageUser (text "select * from ManageUser where 1=1") db = w.managers db := by
  have hread : Sql.readSql isColumn (text "select * from ManageUser where 1=1") =
      Sql.readSql isColumn (selectAll .TManageUser) := by decide +kernel
  have hselect := e.select_selectAll .TManageUser db
  rw [Engine.select, ← hread] at hselect
  rw [qryBySql, Engine.select, hselect, qryRows, if_pos hq.1, he]
  simp only [q.stepped_of_answers hq]
  rfl

/-! ## The system -/

/-- How far a task has come. -/
inductive Stage (t : EElementType)
  /-- taken from the queue -/
  | taken
  /-- the database operation is done -/
  | executed (res : Int) (qryObjs : List t.Struct)
  /-- the first frame is sent; `stores` says whether the flag will be stored before the last one -/
  | addressed (frames : List (Bytes × Bool)) (stores : Bool)
  | stored (frames : List (Bytes × Bool))
  /-- the message is complete -/
  | sent (frames : List (Bytes × Bool))
  /-- the poll thread has passed the message on -/
  | relayed

structure Worker where
  task : Task
  stage : Stage task.op.type

/-- The thread is still with its task. -/
def Worker.busy (x : Worker) : Bool :=
  match x.stage with
  | .sent _ | .relayed => false
  | _ => true

/-- Where the poll thread is in its iteration. -/
inductive PollPc
  /-- at `compare_exchange_strong` -/
  | check
  /-- in `updManagerCache`, before the query -/
  | query
  /-- in `updManagerCache`, with the rows -/
  | replace (vc : List ManageUser)
  | timer
  | relay
  | handle
  /-- it waits for good or has failed an assertion -/
  | halted
deriving DecidableEq

structure Live where
  poll : Proc Service
  pc : PollPc
  db : Database
  /-- `thread_local`: what the thread of each worker has in its own -/
  sqlite_error_msg : Nat → Str
  workers : List Worker

inductive LiveAction
  /-- `m_bUpdManagerCache.compare_exchange_strong` -/
  | check
  | query
  | replace
  | timer
  /-- the message of the `i`-th worker, on a socket with the given router id, is passed on -/
  | relay (i : Nat) (dealer : Bytes)
  /-- no message of a worker is there -/
  | noRelay
  | handle
  | noHandle
  /-- a thread takes the first task of the queue -/
  | take
  /-- the `i`-th worker gets `m_mtxSqlite` and runs its database operation -/
  | exec (i : Nat) (q : Sqlite)
  /-- it reads `client->m_strRouter` -/
  | address (i : Nat)
  /-- `storeCacheBool` -/
  | store (i : Nat)
  | send (i : Nat)

namespace Live

/-- The service before its first iteration. -/
def init (w : World) (db : Database) (queue : List Msg) : Live :=
  ⟨⟨Service.init w.toEnv, ⟨[], queue, []⟩⟩, .check, db, w.leftover, []⟩

section
variable (s : Live)

abbrev svc : Service := s.poll.own

def modify (f : Service → Service) : Live := { s with poll := ⟨f s.svc, s.poll.sock⟩ }

def setStage (i : Nat) (task : Task) (stage : Stage task.op.type) : Live :=
  { s with workers := s.workers.set i ⟨task, stage⟩ }

end

/-- A complete message of a worker comes in and is passed on. -/
def relayMsg (dealer : Bytes) (frames : List (Bytes × Bool)) (s : Service) : Service :=
  (assemble [] frames).foldl (fun s fs => relayInproc ⟨dealer, fs⟩ s) s

theorem relayMsg_eq (dealer : Bytes) (frames : List (Bytes × Bool)) (s : Service) :
    relayMsg dealer frames s = { s with sent := s.sent ++ (assemble [] frames).flatMap flagged } := by
  unfold relayMsg
  induction assemble [] frames generalizing s with
  | nil => simp
  | cons fs ms ih =>
    refine (ih _).trans ?_
    simp [relayInproc_eq]

def step (w : World) (s : Live) : LiveAction → Option Live
  | .check =>
    if s.pc = .check then
      if s.svc.bUpdManagerCache then
        some { s.modify ({ · with bUpdManagerCache := false }) with pc := .query }
      else some { s with pc := .timer }
    else none
  | .query => if s.pc = .query then (w.managers s.db).map fun vc => { s with pc := .replace vc } else none
  | .replace =>
    match s.pc with
    | .replace vc => some { s.modify (updManagerCache vc) with pc := .timer }
    | _ => none
  | .timer => if s.pc = .timer then some { s.modify (checkTimer w.toEnv) with pc := .relay } else none
  | .relay i dealer =>
    match s.pc, s.workers[i]? with
    | .relay, some ⟨task, .sent frames⟩ =>
      some { (s.modify (relayMsg dealer frames)).setStage i task .relayed with pc := .handle }
    | _, _ => none
  | .noRelay => if s.pc = .relay then some { s with pc := .handle } else none
  | .handle =>
    if s.pc = .handle ∧ s.poll.sock.next ≠ [] then
      match (onReadable w.toEnv).run s.poll with
      | .ok _ p => some { s with poll := p, pc := .check }
      | .error _ p => some { s with poll := p, pc := .halted }
    else none
  | .noHandle => if s.pc = .handle then some { s with pc := .check } else none
  | .take =>
    match s.svc.queTask with
    | [] => none
    | task :: ts =>
      if s.workers.countP Worker.busy < w.threads then
        some { s.modify ({ · with queTask := ts }) with workers := s.workers ++ [⟨task, .taken⟩] }
      else none
  | .exec i q =>
    match s.workers[i]? with
    | some ⟨task, .taken⟩ =>
      (task.op.exec w q s.db).map fun x =>
        { s.setStage i task (.executed x.res x.qryObjs) with
          db := x.db
          sqlite_error_msg := Function.update s.sqlite_error_msg i (x.errmsg.getD (s.sqlite_error_msg i)) }
    | _ => none
  | .address i =>
    match s.workers[i]? with
    | some ⟨task, .executed res qryObjs⟩ =>
      let r : DbResult task.op.type := ⟨res, qryObjs, s.sqlite_error_msg i⟩
      let addr := s.svc.router task.client
      some ((s.modify (·.logEvent (.answered task addr))).setStage i task
        (.addressed (task.op.answer addr task.requestId r) (task.op.storesCache r)))
    | _ => none
  | .store i =>
    match s.workers[i]? with
    | some ⟨task, .addressed frames stores⟩ =>
      some ((s.modify fun svc =>
        { svc with bUpdManagerCache := svc.bUpdManagerCache || stores }).setStage i task (.stored frames))
    | _ => none
  | .send i =>
    match s.workers[i]? with
    | some ⟨task, .stored frames⟩ => some (s.setStage i task (.sent frames))
    | _ => none

theorem split_setStage {s : Live} {i : Nat} {task : Task} {stage : Stage task.op.type}
    (hw : s.workers[i]? = some ⟨task, stage⟩) (stage' : Stage task.op.type) :
    ∃ pre post, s.workers = pre ++ ⟨task, stage⟩ :: post ∧ pre.length = i ∧
      (s.setStage i task stage').workers = pre ++ ⟨task, stage'⟩ :: post := by
  obtain ⟨hi, hget⟩ := List.getElem?_eq_some_iff.1 hw
  obtain ⟨pre, post, hworkers, hlen, hset⟩ : ∃ pre post, s.workers = pre ++ s.workers[i] :: post ∧
    pre.length = i ∧ s.workers.set i ⟨task, stage'⟩ = pre ++ ⟨task, stage'⟩ :: post := List.exists_of_set hi
  rw [hget] at hworkers
  exact ⟨pre, post, hworkers, hlen, hset⟩

/-! ## What a step needs and does -/

inductive Stepped (w : World) (s : Live) : LiveAction → Live → Prop
  | checkSet (hpc : s.pc = .check) (hflag : s.svc.bUpdManagerCache = true) :
    Stepped w s .check { s.modify ({ · with bUpdManagerCache := false }) with pc := .query }
  | checkUnset (hpc : s.pc = .check) (hflag : s.svc.bUpdManagerCache = false) :
    Stepped w s .check { s with pc := .timer }
  | query (hpc : s.pc = .query) {vc : List ManageUser} (hvc : w.managers s.db = some vc) :
    Stepped w s .query { s with pc := .replace vc }
  | replace {vc : List ManageUser} (hpc : s.pc = .replace vc) :
    Stepped w s .replace { s.modify (updManagerCache vc) with pc := .timer }
  | timer (hpc : s.pc = .timer) :
    Stepped w s .timer { s.modify (checkTimer w.toEnv) with pc := .relay }
  | relay (hpc : s.pc = .relay) {i : Nat} {dealer : Bytes} {task : Task} {frames : List (Bytes × Bool)}
    (hw : s.workers[i]? = some ⟨task, .sent frames⟩) :
    Stepped w s (.relay i dealer)
      { (s.modify (relayMsg dealer frames)).setStage i task .relayed with pc := .handle }
  | noRelay (hpc : s.pc = .relay) : Stepped w s .noRelay { s with pc := .handle }
  | handle (hpc : s.pc = .handle) (hnext : s.poll.sock.next ≠ []) {p : Proc Service}
    (hrun : (onReadable w.toEnv).run s.poll = .ok () p) :
    Stepped w s .handle { s with poll := p, pc := .check }
  | handleStop (hpc : s.pc = .handle) (hnext : s.poll.sock.next ≠ []) {e : Stop} {p : Proc Service}
    (hrun : (onReadable w.toEnv).run s.poll = .error e p) :
    Stepped w s .handle { s with poll := p, pc := .halted }
  | noHandle (hpc : s.pc = .handle) : Stepped w s .noHandle { s with pc := .check }
  | take {task : Task} {ts : List Task} (hque : s.svc.queTask = task :: ts)
    (hfree : s.workers.countP Worker.busy < w.threads) :
    Stepped w s .take
      { s.modify ({ · with queTask := ts }) with workers := s.workers ++ [⟨task, .taken⟩] }
  | exec {i : Nat} {q : Sqlite} {task : Task} (hw : s.workers[i]? = some ⟨task, .taken⟩)
    {x : Executed task.op.type} (hx : task.op.exec w q s.db = some x) :
    Stepped w s (.exec i q)
      { s.setStage i task (.executed x.res x.qryObjs) with
        db := x.db
        sqlite_error_msg := Function.update s.sqlite_error_msg i (x.errmsg.getD (s.sqlite_error_msg i)) }
  | address {i : Nat} {task : Task} {res : Int} {qryObjs : List task.op.type.Struct}
    (hw : s.workers[i]? = some ⟨task, .executed res qryObjs⟩) :
    Stepped w s (.address i)
      ((s.modify (·.logEvent (.answered task (s.svc.router task.client)))).setStage i task
        (.addressed (task.op.answer (s.svc.router task.client) task.requestId
          ⟨res, qryObjs, s.sqlite_error_msg i⟩) (task.op.storesCache ⟨res, qryObjs, s.sqlite_error_msg i⟩)))
  | store {i : Nat} {task : Task} {frames : List (Bytes × Bool)} {stores : Bool}
    (hw : s.workers[i]? = some ⟨task, .addressed frames stores⟩) :
    Stepped w s (.store i)
      ((s.modify fun svc =>
        { svc with bUpdManagerCache := svc.bUpdManagerCache || stores }).setStage i task (.stored frames))
  | send {i : Nat} {task : Task} {frames : List (Bytes × Bool)}
    (hw : s.workers[i]? = some ⟨task, .stored frames⟩) :
    Stepped w s (.send i) (s.setStage i task (.sent frames))

theorem step_stepped {w : World} {s t : Live} {a : LiveAction} (h : step w s a = some t) :
    Stepped w s a t := by
  cases a with
  | check =>
    obtain ⟨hpc, h⟩ := Option.ite_none_right_eq_some.1 h
    by_cases hflag : s.svc.bUpdManagerCache = true
    · rw [if_pos hflag] at h
      obtain rfl := Option.some.inj h
      exact .checkSet hpc hflag
    · rw [if_neg hflag] at h
      obtain rfl := Option.some.inj h
      exact .checkUnset hpc (by simpa using hflag)
  | query =>
    obtain ⟨hpc, h⟩ := Option.ite_none_right_eq_some.1 h
    obtain ⟨vc, hvc, rfl⟩ := Option.map_eq_some_iff.1 h
    exact .query hpc hvc
  | replace =>
    simp only [step] at h
    split at h
    · rename_i vc hpc
      obtain rfl := Option.some.inj h
      exact .replace hpc
    · cases h
  | timer =>
    obtain ⟨hpc, h⟩ := Option.ite_none_right_eq_some.1 h
    obtain rfl := Option.some.inj h
    exact .timer hpc
  | relay i dealer =>
    simp only [step] at h
    split at h
    · rename_i task frames hpc hw
      obtain rfl := Option.some.inj h
      exact .relay hpc hw
    · cases h
  | noRelay =>
    obtain ⟨hpc, h⟩ := Option.ite_none_right_eq_some.1 h
    obtain rfl := Option.some.inj h
    exact .noRelay hpc
  | handle =>
    obtain ⟨⟨hpc, hnext⟩, h⟩ := Option.ite_none_right_eq_some.1 h
    cases hrun : (onReadable w.toEnv).run s.poll <;> rw [hrun] at h <;> obtain rfl := Option.some.inj h
    · exact .handle hpc hnext hrun
    · exact .handleStop hpc hnext hrun
  | noHandle =>
    obtain ⟨hpc, h⟩ := Option.ite_none_right_eq_some.1 h
    obtain rfl := Option.some.inj h
    exact .noHandle hpc
  | take =>
    simp only [step] at h
    split at h
    · cases h
    · rename_i task ts hque
      obtain ⟨hfree, h⟩ := Option.ite_none_right_eq_some.1 h
      obtain rfl := Option.some.inj h
      exact .take hque hfree
  | exec i q =>
    simp only [step] at h
    split at h
    · rename_i task hw
      obtain ⟨x, hx, rfl⟩ := Option.map_eq_some_iff.1 h
      exact .exec hw hx
    · cases h
  | address i =>
    simp only [step] at h
    split at h
    · rename_i task res qryObjs hw
      obtain rfl := Option.some.inj h
      exact .address hw
    · cases h
  | store i =>
    simp only [step] at h
    split at h
    · rename_i task frames stores hw
      obtain rfl := Option.some.inj h
      exact .store hw
    · cases h
  | send i =>
    simp only [step] at h
    split at h
    · rename_i task frames hw
      obtain rfl := Option.some.inj h
      exact .send hw
    · cases h

end Live

/-! ## The cache, its flag and the queue -/

/-- The manager cache, its flag and the waiting tasks are as they were. -/
structure SameCache (s s' : Service) : Prop where
  setManagerCache : s'.setManagerCache = s.setManagerCache
  bUpdManagerCache : s'.bUpdManagerCache = s.bUpdManagerCache
  queTask : s'.queTask = s.queTask

theorem SameCache.refl (s : Service) : SameCache s s := ⟨rfl, rfl, rfl⟩

theorem SameCache.trans {s₁ s₂ s₃ : Service} (h : SameCache s₁ s₂) (h' : SameCache s₂ s₃) :
    SameCache s₁ s₃ :=
  ⟨h'.1.trans h.1, h'.2.trans h.2, h'.3.trans h.3⟩

theorem sameCache_checkTimer (env : Env) (s : Service) : SameCache s (checkTimer env s) := by
  have hclient : ∀ tnow s u, SameCache s (katimeClient env tnow s u) := by
    intro tnow s u
    unfold katimeClient
    split
    · exact .refl s
    · split <;> exact ⟨rfl, rfl, rfl⟩
  have hclock : ∀ (s' : Service) readings trigtime, SameCache s s' →
      SameCache s { s' with readings := readings, trigtime := trigtime } := fun _ _ _ h => ⟨h.1, h.2, h.3⟩
  exact checkTimer_keeps hclock (fun tnow s' u h => h.trans (hclient tnow s' u)) (.refl s)

theorem sameCache_relayMsg (dealer : Bytes) (frames : List (Bytes × Bool)) (s : Service) :
    SameCache s (Live.relayMsg dealer frames s) := by
  rw [Live.relayMsg_eq]
  exact ⟨rfl, rfl, rfl⟩

/-- The cache is as it was, the flag is not taken back, and tasks have only come behind those that
wait. -/
structure Submits (s s' : Service) : Prop where
  setManagerCache : s'.setManagerCache = s.setManagerCache
  bUpdManagerCache : s.bUpdManagerCache = true → s'.bUpdManagerCache = true
  queTask : ∃ ts, s'.queTask = s.queTask ++ ts

theorem SameCache.submits {s s' : Service} (h : SameCache s s') : Submits s s' :=
  ⟨h.1, h.2.trans, [], by rw [h.3, List.append_nil]⟩

theorem Submits.of_sameCache {s₁ s₂ s₃ : Service} (h : SameCache s₁ s₂) (h' : Submits s₂ s₃) :
    Submits s₁ s₃ :=
  ⟨h'.1.trans h.1, fun hf => h'.2 (h.2.trans hf), h.3 ▸ h'.3⟩

theorem submits_submitSql (env : Env) (c : DispatcherClient) (verb : String) (mk : EElementType → TaskOp)
    (reqid eletype : CInt) (fs : List ColumnFilter) (s : Service) :
    Submits s (submitSql env c verb mk reqid eletype fs s) := by
  unfold submitSql
  split
  · exact ⟨rfl, id, _, rfl⟩
  · exact SameCache.submits ⟨rfl, rfl, rfl⟩

theorem submits_handleCmd (env : Env) (c : DispatcherClient) (req : Request) (s : Service) :
    Submits s (handleCmd env c req s) := by
  cases req with
  | query => exact submits_submitSql ..
  | delByCol => exact submits_submitSql ..
  | login reqid =>
    refine SameCache.submits ?_
    rw [handleCmd, onReqLogin]
    split <;> exact ⟨rfl, rfl, rfl⟩
  | byObjects op reqid t objVec =>
    rw [handleCmd]
    split
    · exact ⟨rfl, fun _ => rfl, _, rfl⟩
    · exact ⟨rfl, id, _, rfl⟩
  | _ => exact SameCache.submits ⟨rfl, rfl, rfl⟩

theorem Handled.submits {env : Env} {s s' : Service} (h : Handled env s s') : Submits s s' := by
  have hfind : ∀ u, SameCache s (findClient env u s) := by
    intro u
    unfold findClient
    split
    · exact .refl s
    · exact ⟨rfl, rfl, rfl⟩
  cases h with
  | unread => exact (SameCache.refl s).submits
  | unreadFound u => exact (hfind u).submits
  | identifyErr r rsp => exact SameCache.submits ⟨rfl, rfl, rfl⟩
  | rejected r u rsp => exact .of_sameCache (hfind u) (SameCache.submits ⟨rfl, rfl, rfl⟩)
  | @reached r u cmd c => exact .of_sameCache (hfind u) (SameCache.submits ⟨rfl, rfl, rfl⟩)
  | @ran r u cmd c hv hc req =>
    have hreach : SameCache s ((reach env r u cmd c s).logEvent (.parsed c.strIdentify req)) := by
      have hlogged : SameCache (findClient env u s)
        ((reach env r u cmd c s).logEvent (.parsed c.strIdentify req)) := ⟨rfl, rfl, rfl⟩
      exact (hfind u).trans hlogged
    exact .of_sameCache hreach (submits_handleCmd ..)

/-! ## A plain world -/

/-- Rows are read in the order of their insertion, and the pool has four threads. -/
def plainWorld : World where
  toEnv := default
  toReader := plainEngine.toReader
  selects _ := plainEngine.select
  deletes t sql :=
    match Sql.readSql isColumn sql with
    | some ⟨.delete, table, cond⟩ =>
      if Sql.lower (text t.table) = Sql.lower table then some fun r => cond.picks (rowMeaning t r) else none
    | _ => none
  threads := 4
  leftover _ := []

/-- The table `ManageUser` holds the given names. -/
def managersNamed (names : List String) : Database :=
  ⟨names.map fun name => EElementType.row .TManageUser (managerNamed name), [], [], [], []⟩

end CppLinuxLearn.Deployer
