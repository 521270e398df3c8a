import CppLinuxLearn.Deployer.Expiry
import CppLinuxLearn.Deployer.Filters
import CppLinuxLearn.Deployer.Linear
import CppLinuxLearn.Deployer.RequestFormat
import CppLinuxLearn.Deployer.ResponseFormat

/-!
# From the call to its callbacks

A manager calls a request function; the frames come to the service, the poll thread makes a task of them, a
worker runs it and answers, the poll thread passes the answer on, and `recvHandle` makes the callbacks of it.
Between these steps any others may come. The callbacks are those of the rows that passed the filters when the
operation was run, and tell of a success only if every element was applied, else what SQLite told.
-/

namespace CppLinuxLearn.Deployer

open Lib Multipart Steps

/-! ## The callbacks -/

/-- What goes out on `m_sockBind` for the manager makes these callbacks, with any receiver that is at the
beginning of a message. -/
def Makes (m : DispatcherManager) (out : List (Bytes × Bool)) (calls : List Call) : Prop :=
  ∀ env, m.stateMachine = .StatInit → ∃ m', recvMessages env m ((assemble [] out).map List.tail) = some (m', calls) ∧
    m'.stateMachine = .StatInit

theorem makes_flagged (m : DispatcherManager) (router : Str) (msg : ServerMsg) :
    Makes m ((assemble [] (flagged (router :: msg.frames))).flatMap flagged) (msg.calls m.strIdentity) := by
  intro env hm
  have hone : assemble [] (flagged (router :: msg.frames)) = [router :: msg.frames] := by
    simpa [assemble] using assemble_flagged [] (List.cons_ne_nil router msg.frames) []
  obtain ⟨m', hrecv, hinit⟩ := recvMessages_frames env m hm [msg]
  refine ⟨m', ?_, hinit⟩
  rw [hone, List.flatMap_singleton, hone]
  simpa using hrecv

/-- The text of the answer to a batch that succeeds. -/
def DbOp.success : DbOp → String
  | ins => "Insert Successfully"
  | upd => "Update Successfully"
  | del => "Delete Successfully"

/-- The callback for a batch. -/
def DbOp.callback : DbOp → OnRsp
  | ins => .OnRspInsert
  | upd => .OnRspUpdate
  | del => .OnRspDelete

theorem makes_onOp (m : DispatcherManager) (router : Str) {cmd : ECommandType} {f : OnRsp}
    (hf : expectedOnRsp cmd.toInt = f) (msg : String) (id : CInt) (res : Int) (err : Str) :
    Makes m ((assemble [] (onOp cmd msg router id res err)).flatMap flagged)
      [.onRsp f (rspOp cmd msg id res err) id] := by
  have hmakes := makes_flagged m router (.plain (rspOp cmd msg id res err))
  have hcmd : (rspOp cmd msg id res err).CmdType = cmd.toInt := by
    unfold rspOp
    split <;> rfl
  have hid : (rspOp cmd msg id res err).RequestID = id := by
    unfold rspOp
    split <;> rfl
  simp only [ServerMsg.calls, hcmd, hid, hf] at hmakes
  exact hmakes

theorem errorID_rspOp (cmd : ECommandType) (msg : String) (id : CInt) (res : Int) (err : Str) :
    (rspOp cmd msg id res err).ErrorID = EResponseErrType.TSuccess.toInt ↔ 0 ≤ res := by
  unfold rspOp
  split
  · have hne : EResponseErrType.TDbError.toInt ≠ EResponseErrType.TSuccess.toInt := by decide
    exact iff_of_false hne (by omega)
  · exact iff_of_true rfl (by omega)

namespace Live

section
variable {w : World} {s t u : Live} {a : LiveAction} {i : Nat} {task : Task} {x : Result}

/-! ## The task of the call -/

/-- A call that the service accepts becomes a task. -/
theorem handle_call {rq : ManagerReq} {op : TaskOp} {id : CInt} (hop : rq.request.task w.toEnv = some (op, id))
    (hlogin : LoginInv s.svc) (hpc : s.pc = .handle) {m : DispatcherManager}
    (hret : (rq.call m).ret = ERROR_SUCCESS) (hm : (rq.call m).manager = m) {dealer r : Str} {q : List Msg}
    {o : List (Bytes × Nat)} (hsock : s.poll.sock = ⟨[], deliver dealer r (rq.call m).frames ++ q, o⟩)
    (hknown : s.svc.identifyUser m.strIdentity = true)
    (hsession : session s.svc.log m.strIdentity = some r) :
    ∃ t, s.step w .handle = some t ∧ t.poll.sock = ⟨[], q, o⟩ ∧
      t.received = s.received ++ [⟨m.strIdentity, op, id, r⟩] := by
  have hmsg : deliver dealer r (rq.call m).frames = [⟨r, m.strIdentity :: bytes rq.cmd.toInt :: rq.payload⟩] := by
    rw [frames_call hret, hm, deliver_flagged _ _ (by simp)]
  have hsame : ∀ r', session s.svc.log m.strIdentity = some r' → r' = r := by
    intro r' hr'
    exact Option.some.inj (hr'.symm.trans hsession)
  have hv : verdict s.svc r m.strIdentity rq.cmd.toInt = .accepted :=
    verdict_of_session hlogin hknown hsame fun _ => hsession
  obtain ⟨c, hc, haccept⟩ := run_acceptCmd w.toEnv r m.strIdentity rq.cmd.toInt s.svc ⟨rq.payload, q, o⟩
  have hid : c.strIdentify = m.strIdentity := strIdentify_of_findClient hlogin hc
  have hpoll : s.poll = ⟨s.svc, s.poll.sock⟩ := rfl
  have hrun : (onReadable w.toEnv).run s.poll = .ok () ⟨handleCmd w.toEnv
      (c.touched w.toEnv (findClient w.toEnv m.strIdentity s.svc) r) rq.request
      ((reach w.toEnv r m.strIdentity rq.cmd.toInt c s.svc).logEvent (.parsed c.strIdentify rq.request)),
      ⟨[], q, o⟩⟩ := by
    rw [hpoll, hsock, hmsg, List.cons_append, List.nil_append]
    refine run_onReadable_ok w.toEnv s.svc r m.strIdentity rq.payload q o rq.cmd.toInt _ [] ?_
    simp only [EStateM.run_bind, run_dispatch, hv, haccept, onRecvCmd, run_modifyOwn, run_recvCmd_payload]
    rfl
  have hnext : s.poll.sock.next ≠ [] := by
    rw [hsock, hmsg]
    exact List.cons_ne_nil _ _
  have hstep : s.step w .handle = some { s with
      poll := ⟨handleCmd w.toEnv (c.touched w.toEnv (findClient w.toEnv m.strIdentity s.svc) r) rq.request
        ((reach w.toEnv r m.strIdentity rq.cmd.toInt c s.svc).logEvent (.parsed c.strIdentify rq.request)),
        ⟨[], q, o⟩⟩
      pc := .check } := by
    simp only [Live.step]
    rw [if_pos ⟨hpc, hnext⟩, hrun]
  have hfind : (findClient w.toEnv m.strIdentity s.svc).queTask = s.svc.queTask := by
    unfold findClient
    split <;> rfl
  refine ⟨_, hstep, rfl, ?_⟩
  rw [received, received]
  dsimp only [Live.svc]
  rw [queTask_handleCmd, hop, Option.toList_some, List.map_singleton, ← List.append_assoc]
  refine congrArg₂ (· ++ ·) (congrArg (_ ++ ·) hfind) ?_
  rw [← hid]
  rfl

theorem getElem?_received {as : List LiveAction} (h : run (Live.step w) s as = some t)
    (hi : s.received[i]? = some task) : t.received[i]? = some task := by
  refine run_invariant (I := fun s => s.received[i]? = some task) (fun s a t hs ht => ?_) hi h
  obtain ⟨ts, hts, -⟩ := step_received (step_stepped ht)
  rw [hts, List.getElem?_append_left (List.getElem?_eq_some_iff.1 hs).1, hs]

/-! ## Its answer -/

/-- The worker has run its task with this result, and what it has of an answer is that of the result. -/
def Bears (i : Nat) (task : Task) (x : Result) (s : Live) : Prop :=
  ∃ y, s.workers[i]? = some y ∧ y.task = task ∧ y.waits = false ∧
    Explained (s.sqlite_error_msg i) [(i, task, x)] i y

theorem Bears.of_set {stage stage' : Stage task.op.type} {text : Str} (hw : s.workers[i]? = some ⟨task, stage⟩)
    (hworkers : t.workers = (s.setStage i task stage').workers) (htext : t.sqlite_error_msg i = text)
    (hwaits : Worker.waits ⟨task, stage'⟩ = false)
    (hnew : Explained text [(i, task, x)] i ⟨task, stage'⟩) : Bears i task x t := by
  subst htext
  refine ⟨⟨task, stage'⟩, ?_, rfl, hwaits, hnew⟩
  rw [hworkers]
  exact List.getElem?_set_self (List.getElem?_eq_some_iff.1 hw).1

theorem Bears.step (hs : Bears i task x s) (h : s.step w a = some t) : Bears i task x t := by
  obtain ⟨y, hy, htask, hran, hexp⟩ := hs
  -- a step that leaves the worker and the text of its thread
  have hstay : t.workers[i]? = some y → t.sqlite_error_msg i = s.sqlite_error_msg i → Bears i task x t := by
    intro hworker htext
    exact ⟨y, hworker, htask, hran, htext ▸ hexp⟩
  cases step_stepped h with
  | checkSet | checkUnset | query | replace | timer | noRelay | handle | handleStop | noHandle =>
    exact hstay hy rfl
  | take => exact hstay ((List.getElem?_append_left (List.getElem?_eq_some_iff.1 hy).1).trans hy) rfl
  | @exec j q task' hw z hz =>
    by_cases hji : j = i
    · subst hji
      obtain rfl := Option.some.inj (hw.symm.trans hy)
      cases hran
    · refine hstay ((List.getElem?_set_ne hji).trans hy) ?_
      exact Function.update_of_ne (Ne.symm hji) ..
  | @relay hpc j dealer task' frames hw =>
    by_cases hji : j = i
    · subst hji
      obtain rfl := Option.some.inj (hw.symm.trans hy)
      subst htask
      exact .of_set hw rfl rfl rfl trivial
    · exact hstay ((List.getElem?_set_ne hji).trans hy) rfl
  | @address j task' res qryObjs hw =>
    by_cases hji : j = i
    · subst hji
      obtain rfl := Option.some.inj (hw.symm.trans hy)
      subst htask
      obtain ⟨z, hmem, hframes⟩ := hexp
      exact .of_set hw rfl rfl rfl ⟨z, hmem, _, hframes _⟩
    · exact hstay ((List.getElem?_set_ne hji).trans hy) rfl
  | @store j task' frames stores hw =>
    by_cases hji : j = i
    · subst hji
      obtain rfl := Option.some.inj (hw.symm.trans hy)
      subst htask
      exact .of_set hw rfl rfl rfl hexp
    · exact hstay ((List.getElem?_set_ne hji).trans hy) rfl
  | @send j task' frames hw =>
    by_cases hji : j = i
    · subst hji
      obtain rfl := Option.some.inj (hw.symm.trans hy)
      subst htask
      exact .of_set hw rfl rfl rfl hexp
    · exact hstay ((List.getElem?_set_ne hji).trans hy) rfl

theorem exec_inv {q : Sqlite} (h : s.step w (.exec i q) = some t) : ∃ task y,
    s.workers[i]? = some ⟨task, .taken⟩ ∧ task.op.exec w q s.db = some y ∧ t.db = y.db ∧
      Bears i task (task.result q y) t := by
  cases step_stepped h with
  | @exec i q task hw y hy =>
    refine ⟨task, y, hw, hy, rfl, .of_set hw rfl rfl rfl ?_⟩
    refine ⟨_, List.mem_singleton_self _, fun addr => ?_⟩
    dsimp only
    rw [Function.update_self]
    exact answer_getD hy addr task.requestId _

theorem relay_inv {dealer : Bytes} (h : s.step w (.relay i dealer) = some t) : ∃ task frames,
    s.workers[i]? = some ⟨task, .sent frames⟩ ∧
      t.svc.sent = s.svc.sent ++ (assemble [] frames).flatMap flagged := by
  cases step_stepped h with
  | @relay hpc i dealer task frames hw =>
    exact ⟨task, frames, hw, congrArg Service.sent (relayMsg_eq dealer frames s.svc)⟩

/-- **What a task is answered.** Its operation is run on the database of that moment, and the answer that is passed on
later is that of the operation. -/
theorem task_answered {s₁ s₂ : Live} {as as' : List LiveAction} {q : Sqlite} {dealer : Bytes}
    (hi : s.received[i]? = some task) (hrun : run (Live.step w) s as = some u)
    (hexec : u.step w (.exec i q) = some s₁) (hrun' : run (Live.step w) s₁ as' = some s₂)
    (hrelay : s₂.step w (.relay i dealer) = some t) :
    ∃ y addr, task.op.exec w q u.db = some y ∧ s₁.db = y.db ∧ t.svc.sent = s₂.svc.sent ++
      (assemble [] (task.op.answer addr task.requestId ⟨y.res, y.qryObjs, y.errmsg.getD []⟩)).flatMap flagged := by
  have hreceived := getElem?_received hrun hi
  obtain ⟨task', y, hw, hy, hdb, hbears⟩ := exec_inv hexec
  obtain rfl : task' = task := by
    rw [received, List.getElem?_append_left (by simpa using (List.getElem?_eq_some_iff.1 hw).1),
      List.getElem?_map, hw] at hreceived
    exact Option.some.inj hreceived
  obtain ⟨z, hz, htask, -, hexp⟩ :=
    run_invariant (I := Bears i task' (task'.result q y)) (fun _ _ _ hs hstep => hs.step hstep) hbears hrun'
  obtain ⟨task'', frames, hw', hsent⟩ := relay_inv hrelay
  obtain rfl := Option.some.inj (hw'.symm.trans hz)
  obtain ⟨x', hmem, addr, rfl⟩ := hexp
  obtain ⟨-, rfl⟩ : task'' = task' ∧ x' = _ := by simpa using hmem
  exact ⟨y, addr, hy, hdb, hsent⟩

end

/-! ## Round trips -/

section
variable {V : Type} {w : World} {e : Engine V} {t : EElementType} {db : Database} {queue : List Msg}
  {as : List LiveAction} {s : Live} {m : DispatcherManager} {id : CInt} {dealer r : Str}
  {rest : List Msg} {o : List (Bytes × Nat)}

end

/-! ## A query, a deletion and an insertion -/

def amyAndWeb : Database :=
  ⟨[EElementType.row .TManageUser (managerNamed "amy")],
    [EElementType.row .TServerConfig (server "web" "10.0.0.6" 80)], [], [], []⟩

/-- `amy` logs in and calls. -/
def loginThen (rq : ManagerReq) : List Msg :=
  clientMsg "r1" "amy" .TLogin [bytes (7 : CInt)] :: deliver [] (text "r1") (rq.call amyManager).frames

/-- The login is handled. -/
def loginRead : List LiveAction :=
  [.check, .query, .replace, .timer, .noRelay, .handle, .check, .timer, .noRelay]

def asksForWeb : ManagerReq := .qryByColumnFilter (filtersOf [webFilter]) EElementType.TServerConfig.toInt 8

def deletesWeb : ManagerReq := .delByColumnFilter (filtersOf [webFilter]) EElementType.TServerConfig.toInt 9

def insertsDb : ManagerReq := .insUpdDel .ins .TServerConfig [server "db" "10.0.0.7" 22] 9

/-- Amy's call is what the service reads next. -/
def calling (rq : ManagerReq) : Option Live :=
  run (step plainWorld) (init plainWorld amyAndWeb (loginThen rq)) loginRead

theorem calling_isSome : (calling asksForWeb).isSome ∧ (calling deletesWeb).isSome ∧ (calling insertsDb).isSome := by
  decide +kernel

def asking : Live := Option.get _ calling_isSome.1

def deleting : Live := Option.get _ calling_isSome.2.1

def inserting : Live := Option.get _ calling_isSome.2.2

theorem calling_asks : calling asksForWeb = some asking :=
  (Option.some_get calling_isSome.1).symm

theorem calling_deletes : calling deletesWeb = some deleting :=
  (Option.some_get calling_isSome.2.1).symm

theorem calling_inserts : calling insertsDb = some inserting :=
  (Option.some_get calling_isSome.2.2).symm

/-- The first step of the service with the call, then the task is run, answered and passed on. -/
def answering : List LiveAction :=
  [.handle, .take, .exec 0 allSucceeds, .address 0, .store 0, .send 0, .check, .timer, .relay 0 []]

theorem answering_isSome : (run (step plainWorld) asking answering).isSome ∧
    (run (step plainWorld) deleting answering).isSome ∧ (run (step plainWorld) inserting answering).isSome := by
  decide +kernel

theorem exists_answering {w : World} {s : Live} (h : (run (step w) s answering).isSome) : ∃ s₀ u s₁ s₂ v,
    s.step w .handle = some s₀ ∧ run (step w) s₀ [.take] = some u ∧ u.db = s.db ∧
      u.step w (.exec 0 allSucceeds) = some s₁ ∧
      run (step w) s₁ [.address 0, .store 0, .send 0, .check, .timer] = some s₂ ∧
      s₂.step w (.relay 0 []) = some v := by
  obtain ⟨v, hv⟩ := Option.isSome_iff_exists.1 h
  obtain ⟨s₀, h₀, hv⟩ := run_cons hv
  obtain ⟨u, hu, hv⟩ := run_append (show run (step w) s₀ ([.take] ++ _) = some v from hv)
  obtain ⟨s₁, h₁, hv⟩ := run_cons hv
  obtain ⟨s₂, h₂, hv⟩ := run_append
    (show run (step w) s₁ ([.address 0, .store 0, .send 0, .check, .timer] ++ _) = some v from hv)
  obtain ⟨v', hrelay, -⟩ := run_cons hv
  obtain ⟨u', hu', hnil⟩ := run_cons hu
  obtain rfl : u' = u := Option.some.inj hnil
  have htake : u'.db = s₀.db := db_step (step_stepped hu') (by intro i q h; cases h)
  have hhandle : s₀.db = s.db := db_step (step_stepped h₀) (by intro i q h; cases h)
  have hdb := htake.trans hhandle
  exact ⟨s₀, u', s₁, s₂, v', h₀, hu, hdb, h₁, h₂, hrelay⟩

theorem asking_ready : asking.pc = .handle ∧ asking.poll.sock = ⟨[], deliver [] (text "r1")
      (amyManager.ReqQryByColumnFilter (filtersOf [webFilter]) EElementType.TServerConfig.toInt 8).frames ++ [], []⟩ ∧
    asking.svc.identifyUser amyManager.strIdentity = true ∧
    session asking.svc.log amyManager.strIdentity = some (text "r1") ∧ asking.received.length = 0 := by
  decide +kernel

theorem deleting_ready : deleting.pc = .handle ∧ deleting.poll.sock = ⟨[], deliver [] (text "r1")
      (amyManager.ReqDelByColumnFilter (filtersOf [webFilter]) EElementType.TServerConfig.toInt 9).frames ++ [], []⟩ ∧
    deleting.svc.identifyUser amyManager.strIdentity = true ∧
    session deleting.svc.log amyManager.strIdentity = some (text "r1") ∧ deleting.received.length = 0 := by
  decide +kernel

theorem inserting_ready : inserting.pc = .handle ∧ inserting.poll.sock = ⟨[], deliver [] (text "r1")
      (amyManager.ReqInsUpdDelByEletype [server "db" "10.0.0.7" 22] EElementType.TServerConfig.toInt 9
        DbOp.ins.cmd).frames ++ [], []⟩ ∧
    inserting.svc.identifyUser amyManager.strIdentity = true ∧
    session inserting.svc.log amyManager.strIdentity = some (text "r1") ∧ inserting.received.length = 0 := by
  decide +kernel

end Live

end CppLinuxLearn.Deployer
