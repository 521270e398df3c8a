import CppLinuxLearn.Deployer.AllOrNothing
import CppLinuxLearn.Deployer.SqlText
import CppLinuxLearn.Lib.Multipart
import Mathlib.Tactic.Tauto

/-!
# The service

`DispatcherService`: the poll thread that reads client messages frame by frame from `m_sockBind`,
keeps the login state of every manager, answers what it can itself and hands the rest to the thread
pool. The frames a command reads are a program of their own (`recvCmd`), which does not look at the
state of the service; `handleCmd` is what is then done with them.

`Service.log` and `Task.origin` are history: they are written along the way and never read.
-/

namespace CppLinuxLearn.Deployer

open Lib Multipart

/-- What the poll thread meets outside its own text. -/
structure Env where
  /-- the byte behind the end of a frame -/
  past : Bytes → Nat → UInt8
  /-- the content of a `ReqResponse::ErrMsg` that is not initialised -/
  uninit : CharArray 64
  /-- what `AllTableNames` gives outside its bounds -/
  beyond : CInt → Str
  /-- the successive values of `SYSTEM_CLOCK::now()`, in nanoseconds -/
  clock : Nat → Int
deriving Inhabited

/-! ## Messages from clients -/

/-- The frames of a command, read and put together. -/
inductive Request
  | login (reqid : CInt)
  | logout (reqid : CInt)
  | keepAlive
  | query (reqid eletype : CInt) (colFilterVec : List ColumnFilter)
  | delByCol (reqid eletype : CInt) (colFilterVec : List ColumnFilter)
  | byObjects (op : DbOp) (reqid : CInt) (t : EElementType) (objVec : List t.Struct)
  /-- nothing comes of the message -/
  | skipped
deriving DecidableEq

section
variable {σ : Type} (env : Env)

/-- `memcpy(&x, message.data(), sizeof(T))` -/
def copyPod (T : Type) [Pod T] (f : Bytes) : Rd σ T := do
  return ofBytes (← copyOut env.past f (Pod.size T))

/-- `recvPodObject<T>` -/
def recvPodObject (T : Type) [Pod T] : Rd σ T := do
  let message ← recv
  assertThat (message.length == Pod.size T)
  copyPod env T message

/-- `recvVecObject<T>` -/
def recvVecObject (T : Type) [Pod T] : Rd σ (List T) :=
  whileMore do
    let message ← recv
    copyPod env T message

/-- The loop of `TQuery` and `TDelByCol` over the column filters. -/
def recvColumnFilters : Rd σ (List ColumnFilter) :=
  whileMore (recvPair ColumnFilter.mk)

/-- `skipRemainMFrame`, and the loop at `skip_label`. -/
def skipRemainMFrame : Rd σ Unit := do
  let _ ← whileMore recv
  return ()

/-- The inner `switch` of `TInsert`, `TDelete` and `TUpdate`, over the element type. -/
def recvElements (op : DbOp) (reqid eletype : CInt) : Rd σ Request :=
  match EElementType.ofInt? eletype with
  | some t => do
    let objVec ← recvVecObject env t.Struct
    return .byObjects op reqid t objVec
  | none => do
    skipRemainMFrame
    return .skipped

/-- `TInsert`, `TDelete` and `TUpdate`: the request id, the element type and the elements. -/
def recvObjects (op : DbOp) : Rd σ Request := do
  let reqid ← recvPodObject env CInt
  let eletype ← recvPodObject env CInt
  recvElements env op reqid eletype

/-- `TQuery` and `TDelByCol`: the request id, the element type and the filters. -/
def recvFiltered (mk : CInt → CInt → List ColumnFilter → Request) : Rd σ Request := do
  let reqid ← recvPodObject env CInt
  let eletype ← recvPodObject env CInt
  let colFilterVec ← recvColumnFilters
  return mk reqid eletype colFilterVec

/-- The frames `onRecvCmd` reads, by command. -/
def recvCmd (cmd : CInt) : Rd σ Request :=
  match ECommandType.ofInt? cmd with
  | some .TLogin => return .login (← recvPodObject env CInt)
  | some .TLogout => return .logout (← recvPodObject env CInt)
  | some .TKeepAlive => return .keepAlive
  | some .TQuery => recvFiltered env .query
  | some .TDelByCol => recvFiltered env .delByCol
  | some .TInsert => recvObjects env .ins
  | some .TDelete => recvObjects env .del
  | some .TUpdate => recvObjects env .upd
  | some .TDeploy | some .TExecute | some .TFinish | some .TNullCmd | none => do
    skipRemainMFrame
    return .skipped

/-! ### What the readers give -/

/-- The value a `memcpy` from the frame `f` gives. -/
def podAt (T : Type) [Pod T] (f : Bytes) : T :=
  ofBytes ((List.range (Pod.size T)).map fun i => f.getD i (env.past f i))

/-- The copy from `f` is longer than `f`. -/
def overread (T : Type) [Pod T] (f : Bytes) : List (Bytes × Nat) :=
  if f.length < Pod.size T then [(f, Pod.size T)] else []

variable (T : Type) [Pod T] (s : σ) (f : Bytes) (fs : List Bytes) (q : List Msg) (o : List (Bytes × Nat))

@[simp] theorem podAt_bytes (x : T) : podAt env T (bytes x) = x := by
  rw [podAt, copied_eq_take _ _ (by simp), List.take_of_length_le (by simp), ofBytes_bytes]

@[simp] theorem overread_bytes (x : T) : overread T (bytes x) = [] := by simp [overread]

theorem run_copyPod :
    (copyPod env T f).run ⟨s, ⟨fs, q, o⟩⟩ = .ok (podAt env T f) ⟨s, ⟨fs, q, o ++ overread T f⟩⟩ := by
  simp only [copyPod, EStateM.run_bind, EStateM.run_pure]
  simp only [EStateM.run, copyOut, podAt, overread]
  split <;> simp

theorem run_recvPodObject (h : f.length = Pod.size T) :
    (recvPodObject env T).run ⟨s, ⟨f :: fs, q, o⟩⟩ = .ok (podAt env T f) ⟨s, ⟨fs, q, o⟩⟩ := by
  simp [recvPodObject, EStateM.run_bind, h, run_copyPod, overread]

theorem run_recvPodObject_aborts (h : f.length ≠ Pod.size T) :
    (recvPodObject env T).run ⟨s, ⟨f :: fs, q, o⟩⟩ = .error .aborted ⟨s, ⟨fs, q, o⟩⟩ := by
  simp [recvPodObject, EStateM.run_bind, show (f.length == Pod.size T) = false by simpa using h]

theorem run_recvVecObject :
    (recvVecObject env T).run ⟨s, ⟨fs, q, o⟩⟩ =
      .ok (fs.map (podAt env T)) ⟨s, ⟨[], q, o ++ fs.flatMap (overread T)⟩⟩ :=
  run_whileMore_each s fs q o fun f fs o => by
    simp only [EStateM.run_bind, run_recv_cons, run_copyPod]

theorem run_recvColumnFilters (cs : List ColumnFilter) :
    recvColumnFilters.run ⟨s, ⟨cs.flatMap fun c => [c.ColName, c.ColVal], q, o⟩⟩ =
      .ok cs ⟨s, ⟨[], q, o⟩⟩ := by
  have := run_whileMore_pairs s q o ColumnFilter.mk (cs.map fun c => (c.ColName, c.ColVal))
  simpa [recvColumnFilters, List.flatMap_map, Function.comp_def] using this

theorem run_skipRemainMFrame :
    skipRemainMFrame.run ⟨s, ⟨fs, q, o⟩⟩ = .ok () ⟨s, ⟨[], q, o⟩⟩ := by
  have hrecv : ∀ f fs o, (recv : Rd σ Bytes).run ⟨s, ⟨f :: fs, q, o⟩⟩ =
      .ok (id f) ⟨s, ⟨fs, q, o ++ (fun _ => []) f⟩⟩ := by simp
  simp only [skipRemainMFrame, EStateM.run_bind, run_whileMore_each s fs q o hrecv, EStateM.run_pure]
  simp

end

/-! ### What the readers keep -/

section
variable {σ : Type} {R : Proc σ → Proc σ → Prop} (hR : ReadOrder R) (env : Env)
include hR

theorem along_copyPod (T : Type) [Pod T] (f : Bytes) : Along R (copyPod env T f) :=
  along_bind hR (hR.copyOut _ _ _) fun _ => along_pure hR _

theorem along_recvPodObject (T : Type) [Pod T] : Along R (recvPodObject env T) :=
  along_bind hR hR.recv fun _ => along_bind hR (along_assertThat hR _) fun _ =>
    along_copyPod hR env T _

theorem along_recvVecObject (T : Type) [Pod T] : Along R (recvVecObject env T) :=
  along_whileMore hR (along_bind hR hR.recv fun _ => along_copyPod hR env T _)

theorem along_recvColumnFilters : Along R recvColumnFilters :=
  along_whileMore hR (along_recvPair hR _)

theorem along_skipRemainMFrame : Along R skipRemainMFrame :=
  along_bind hR (along_whileMore hR hR.recv) fun _ => along_pure hR _

omit hR in
theorem skipRemainMFrame_done {p p' : Proc σ} {a : Unit} (h : skipRemainMFrame.run p = .ok a p') :
    p'.sock.cur = [] := by
  obtain ⟨fs, p₁, hloop, hpure⟩ := run_bind_ok h
  obtain ⟨-, rfl⟩ := EStateM.Result.ok.inj hpure
  exact whileMore_done eats_recv hloop

theorem along_recvElements (op : DbOp) (reqid eletype : CInt) :
    Along R (recvElements env op reqid eletype) := by
  unfold recvElements
  split
  · exact along_bind hR (along_recvVecObject hR env _) fun _ => along_pure hR _
  · exact along_bind hR (along_skipRemainMFrame hR) fun _ => along_pure hR _

theorem along_recvCmd (cmd : CInt) : Along R (recvCmd env cmd) := by
  have hid : Along R (recvPodObject env CInt) := along_recvPodObject hR env CInt
  have hskip : Along R (do skipRemainMFrame; return Request.skipped) :=
    along_bind hR (along_skipRemainMFrame hR) fun _ => along_pure hR _
  have hlogin : ∀ mk : CInt → Request, Along R (do return mk (← recvPodObject env CInt)) :=
    fun mk => along_bind hR hid fun _ => along_pure hR _
  have hfilters : ∀ mk, Along R (recvFiltered env mk) := fun mk =>
    along_bind hR hid fun _ => along_bind hR hid fun _ =>
      along_bind hR (along_recvColumnFilters hR) fun _ => along_pure hR _
  have hobjects : ∀ op, Along R (recvObjects env op) := fun op =>
    along_bind hR hid fun _ => along_bind hR hid (along_recvElements hR env op _)
  unfold recvCmd
  match ECommandType.ofInt? cmd with
  | some .TLogin | some .TLogout => exact hlogin _
  | some .TQuery | some .TDelByCol => exact hfilters _
  | some .TInsert | some .TDelete | some .TUpdate => exact hobjects _
  | some .TKeepAlive => exact along_pure hR _
  | some .TDeploy | some .TExecute | some .TFinish | some .TNullCmd | none => exact hskip

end

theorem cmd_of_recvCmd_login {σ : Type} {env : Env} {cmd reqid : CInt} {p p' : Proc σ}
    (h : (recvCmd env cmd).run p = .ok (.login reqid) p') : cmd = ECommandType.TLogin.toInt := by
  have hfilters : ∀ mk : CInt → CInt → List ColumnFilter → Request,
      (∀ id t fs, mk id t fs ≠ .login reqid) → (recvFiltered env mk).run p ≠ .ok (.login reqid) p' := by
    intro mk hmk h
    obtain ⟨id, p₁, -, h⟩ := run_bind_ok h
    obtain ⟨t, p₂, -, h⟩ := run_bind_ok h
    obtain ⟨fs, p₃, -, h⟩ := run_bind_ok h
    exact hmk id t fs (EStateM.Result.ok.inj h).1
  have hobjects : ∀ op, (recvObjects env op).run p ≠ .ok (.login reqid) p' := by
    intro op h
    obtain ⟨id, p₁, -, h⟩ := run_bind_ok h
    obtain ⟨t, p₂, -, h⟩ := run_bind_ok h
    unfold recvElements at h
    split at h
    · obtain ⟨xs, p₃, -, h⟩ := run_bind_ok h
      cases (EStateM.Result.ok.inj h).1
    · obtain ⟨_, p₃, -, h⟩ := run_bind_ok h
      cases (EStateM.Result.ok.inj h).1
  unfold recvCmd at h
  split at h
  · exact ECommandType.ofInt?_eq_some ‹_›
  · obtain ⟨id, p₁, -, h⟩ := run_bind_ok h
    cases (EStateM.Result.ok.inj h).1
  · cases (EStateM.Result.ok.inj h).1
  · exact absurd h (hfilters _ (by simp))
  · exact absurd h (hfilters _ (by simp))
  · exact absurd h (hobjects _)
  · exact absurd h (hobjects _)
  · exact absurd h (hobjects _)
  all_goals
    obtain ⟨_, p₁, -, h⟩ := run_bind_ok h
    cases (EStateM.Result.ok.inj h).1

/-! ## State -/

structure DispatcherClient where
  strRouter : Str
  strIdentify : Str
  tLastWrite : Int
  tLastRead : Int
  bLogin : Bool
deriving DecidableEq, Repr

/-- The functions bound by `threadPool.submit`, with their arguments. -/
inductive TaskOp
  | onQryBySql (t : EElementType) (sql : Str) (eletype : CInt)
  | onDelBySql (t : EElementType) (sql : Str) (eletype : CInt)
  | onByObjects (op : DbOp) (t : EElementType) (objVec : List t.Struct)
deriving DecidableEq

structure Task where
  /-- the identity whose client record is shared with the task -/
  client : Str
  op : TaskOp
  requestId : CInt
  /-- history: the router the request came from -/
  origin : Str
deriving DecidableEq

/-- What happened to a manager, in order. -/
inductive Event
  /-- `onRecvCmd` is called for a message of identity `u` from router `r` -/
  | reached (u r : Str) (cmd : CInt)
  /-- the frames of the command are read -/
  | parsed (u : Str) (req : Request)
  /-- a login is answered `TSuccess` -/
  | loggedIn (u r : Str)
  | loggedOut (u : Str)
  /-- `katimeHandle` resets the login flag -/
  | expired (u : Str)
  /-- a task sends its answer to router `addr` -/
  | answered (task : Task) (addr : Str)
deriving DecidableEq

structure Service where
  mapClients : List (Str × DispatcherClient)
  setManagerCache : List Str
  bUpdManagerCache : Bool
  /-- `m_timerKA.trigtime` -/
  trigtime : Int
  /-- the tasks submitted to the pool and not yet taken by a worker -/
  queTask : List Task
  /-- the frames sent on `m_sockBind`, each with its `ZMQ_SNDMORE` flag -/
  sent : List (Bytes × Bool)
  /-- how often the clock has been read -/
  readings : Nat
  faults : List Fault
  log : List Event

/-- `m_timerKA`'s period, `10000` milliseconds -/
def timerPeriod : Int := 10000 * 1000000

/-- `DispatcherService::DispatcherService`; the timer member reads the clock, and then the timer
that is assigned to it does. -/
def Service.init (env : Env) : Service where
  mapClients := []
  setManagerCache := []
  bUpdManagerCache := true
  trigtime := env.clock 1 + timerPeriod
  queTask := []
  sent := []
  readings := 2
  faults := []
  log := []

namespace Service
variable (s : Service)

/-- `SYSTEM_CLOCK::now()` -/
def now (env : Env) : Int := env.clock s.readings

def readClock : Service := { s with readings := s.readings + 1 }

/-- `m_mapClients.find` -/
def client? (u : Str) : Option DispatcherClient := s.mapClients.lookup u

/-- Change the record of a client. -/
def modifyClient (u : Str) (f : DispatcherClient → DispatcherClient) : Service :=
  { s with mapClients := s.mapClients.map fun p => if p.1 = u then (p.1, f p.2) else p }

/-- `m_mapClients[u] = new DispatcherClient`, its identity set. -/
def addClient (env : Env) (u : Str) : Service :=
  let c : DispatcherClient := ⟨[], u, s.now env, s.now env, false⟩
  { s.readClock with mapClients := s.mapClients ++ [(u, c)] }

/-- `innerSendMsg` -/
def innerSendMsg (data : Bytes) (bMore : Bool) : Service := { s with sent := s.sent ++ [(data, bMore)] }

/-- The three frames of an answer: router, message pattern, response. -/
def answer (router : Str) (rsp : ReqResponse) : Service :=
  ((s.innerSendMsg router true).innerSendMsg (bytes STCMsgPattern.TPassiveResponse.toInt)
    true).innerSendMsg (bytes rsp) false

/-- `threadPool.submit` -/
def submit (t : Task) : Service := { s with queTask := s.queTask ++ [t] }

def logEvent (e : Event) : Service := { s with log := s.log ++ [e] }

/-- `identifyUser` -/
def identifyUser (u : Str) : Bool := s.setManagerCache.contains u

variable (u v r : Str) (f : DispatcherClient → DispatcherClient) (e : Event) (t : Task) (rsp : ReqResponse)

@[simp] theorem client?_readClock : s.readClock.client? u = s.client? u := rfl
@[simp] theorem client?_innerSendMsg (data : Bytes) (b : Bool) :
    (s.innerSendMsg data b).client? u = s.client? u := rfl
@[simp] theorem client?_answer : (s.answer r rsp).client? u = s.client? u := rfl
@[simp] theorem client?_submit : (s.submit t).client? u = s.client? u := rfl
@[simp] theorem client?_logEvent : (s.logEvent e).client? u = s.client? u := rfl

@[simp] theorem log_readClock : s.readClock.log = s.log := rfl
@[simp] theorem log_modifyClient : (s.modifyClient u f).log = s.log := rfl
@[simp] theorem log_addClient (env : Env) : (s.addClient env u).log = s.log := rfl
@[simp] theorem log_innerSendMsg (data : Bytes) (b : Bool) : (s.innerSendMsg data b).log = s.log := rfl
@[simp] theorem log_answer : (s.answer r rsp).log = s.log := rfl
@[simp] theorem log_submit : (s.submit t).log = s.log := rfl
@[simp] theorem log_logEvent : (s.logEvent e).log = s.log ++ [e] := rfl

theorem sent_innerSendMsg (data : Bytes) (b : Bool) :
    (s.innerSendMsg data b).sent = s.sent ++ [(data, b)] := rfl

theorem answer_eq : s.answer r rsp = { s with sent := s.sent ++
    [(r, true), (bytes STCMsgPattern.TPassiveResponse.toInt, true), (bytes rsp, false)] } := by
  simp only [answer, innerSendMsg, List.append_assoc, List.cons_append, List.nil_append]

theorem sent_answer : (s.answer r rsp).sent =
    s.sent ++ [(r, true), (bytes STCMsgPattern.TPassiveResponse.toInt, true), (bytes rsp, false)] := by
  rw [answer_eq]

theorem client?_modifyClient :
    (s.modifyClient u f).client? v = if v = u then (s.client? v).map f else s.client? v := by
  simp only [modifyClient, client?]
  induction s.mapClients with
  | nil => simp
  | cons p ps ih =>
    obtain ⟨k, c⟩ := p
    have hkey : (if k = u then (k, f c) else (k, c)) = (k, if k = u then f c else c) := by
      split <;> rfl
    rw [List.map_cons, hkey, List.lookup_cons, List.lookup_cons, ih]
    by_cases hk : v = k
    · subst hk
      by_cases hv : v = u <;> simp [hv]
    · have hb : (v == k) = false := by simpa using hk
      simp only [hb]

@[simp] theorem client?_modifyClient_self :
    (s.modifyClient u f).client? u = (s.client? u).map f := by
  rw [client?_modifyClient, if_pos rfl]

theorem client?_addClient (env : Env) :
    (s.addClient env u).client? v =
      (s.client? v).or (if v = u then some ⟨[], u, s.now env, s.now env, false⟩ else none) := by
  simp only [addClient, client?, readClock, List.lookup_append, List.lookup_cons, List.lookup_nil]
  by_cases h : v = u
  · simp [h]
  · have hb : (v == u) = false := by simpa using h
    simp [h, hb]

end Service

section
variable (env : Env)

/-- A response whose error text is `strcpy`ed into an uninitialised structure. -/
def mkResponse (err : EResponseErrType) (msg : String) (reqid cmd : CInt) : ReqResponse :=
  ⟨err.toInt, strcpy env.uninit (text msg), reqid, cmd⟩

/-! ## Commands -/

/-- `onReqLogin`, after the request id is read. -/
def onReqLogin (c : DispatcherClient) (reqid : CInt) (s : Service) : Service :=
  if c.bLogin then
    s.answer c.strRouter
      (mkResponse env .TReplicatedLogin "Replicated Login" reqid ECommandType.TLogin.toInt)
  else
    ((s.modifyClient c.strIdentify fun c => { c with bLogin := true }).answer c.strRouter
      (mkResponse env .TSuccess "Login Successfully" reqid ECommandType.TLogin.toInt)).logEvent
      (.loggedIn c.strIdentify c.strRouter)

/-- `onReqLogout`, after the request id is read. -/
def onReqLogout (c : DispatcherClient) (reqid : CInt) (s : Service) : Service :=
  ((s.modifyClient c.strIdentify fun c => { c with bLogin := false }).answer c.strRouter
    (mkResponse env .TSuccess "Logout Successfully" reqid ECommandType.TLogout.toInt)).logEvent
    (.loggedOut c.strIdentify)

/-- `onKeepAlive` -/
def onKeepAlive (c : DispatcherClient) (s : Service) : Service :=
  s.readClock.modifyClient c.strIdentify fun c => { c with tLastRead := s.now env }

/-- `TQuery` and `TDelByCol`: build the text and submit the task of the element type. -/
def submitSql (c : DispatcherClient) (verb : String) (mk : EElementType → TaskOp)
    (reqid eletype : CInt) (fs : List ColumnFilter) (s : Service) : Service :=
  let s := { s with faults := s.faults ++ sqlFaults verb env.beyond eletype fs }
  match EElementType.ofInt? eletype with
  | some t => s.submit ⟨c.strIdentify, mk t, reqid, c.strRouter⟩
  | none => s

/-- What `onRecvCmd` does with the frames of a command for the client `c`. -/
def handleCmd (c : DispatcherClient) (req : Request) (s : Service) : Service :=
  match req with
  | .login reqid => onReqLogin env c reqid s
  | .logout reqid => onReqLogout env c reqid s
  | .keepAlive => onKeepAlive env c s
  | .query reqid eletype fs =>
    submitSql env c "select * from "
      (fun t => .onQryBySql t (queryText env.beyond eletype fs) eletype) reqid eletype fs s
  | .delByCol reqid eletype fs =>
    submitSql env c "delete from "
      (fun t => .onDelBySql t (deleteText env.beyond eletype fs) eletype) reqid eletype fs s
  | .byObjects op reqid t objVec =>
    -- only an insertion of managers sets the flag before the task has run
    let s := if op = .ins ∧ t = .TManageUser then { s with bUpdManagerCache := true } else s
    s.submit ⟨c.strIdentify, .onByObjects op t objVec, reqid, c.strRouter⟩
  | .skipped => s

/-- `onRecvCmd` -/
def onRecvCmd (cmd : CInt) (c : DispatcherClient) : Rd Service Unit := do
  modifyOwn (·.logEvent (.reached c.strIdentify c.strRouter cmd))
  let req ← recvCmd env cmd
  modifyOwn fun s => handleCmd env c req (s.logEvent (.parsed c.strIdentify req))

/-! ## A message of a client -/

/-- `if (more) recvPodObject(message, reqid)`, and 0 without it. -/
def recvReqidIfMore : Rd Service CInt := do
  if ← rcvmore then recvPodObject env CInt else return 0

/-- The same, without the size check: the branch of a message whose identity is not known. -/
def recvRequestidIfMore : Rd Service CInt := do
  if ← rcvmore then copyPod env CInt (← recv) else return 0

/-- The branch of a message whose identity is not known. -/
def rejectIdentity (strRouter : Str) (cmd : CInt) : Rd Service Unit := do
  let requestid ← recvRequestidIfMore env
  modifyOwn (·.answer strRouter (mkResponse env .TIdentifyErr "Identify Error" requestid cmd))

/-- The other two rejections. -/
def rejectLogin (err : EResponseErrType) (msg : String) (strRouter : Str) (cmd : CInt) :
    Rd Service Unit := do
  let reqid ← recvReqidIfMore env
  modifyOwn (·.answer strRouter (mkResponse env err msg reqid cmd))

/-- The checks of `pollFunc` on a message. -/
inductive Verdict
  | identifyErr
  | noLogin
  | multiLogin
  | accepted
deriving DecidableEq, Repr

/-- The checks, on the client record found or made for the identity. -/
def verdict (s : Service) (strRouter strIdentity : Str) (cmd : CInt) : Verdict :=
  if !s.identifyUser strIdentity then .identifyErr
  else
    let c := (s.client? strIdentity).getD ⟨[], strIdentity, 0, 0, false⟩
    if !c.bLogin ∧ cmd ≠ ECommandType.TLogin.toInt ∧ cmd ≠ ECommandType.TKeepAlive.toInt then .noLogin
    else if c.bLogin ∧ c.strRouter ≠ strRouter then .multiLogin
    else .accepted

/-- Find the client of a known identity, or make one. -/
def findClient (strIdentity : Str) (s : Service) : Service :=
  if (s.client? strIdentity).isSome then s else s.addClient env strIdentity

theorem client?_findClient (u : Str) (s : Service) : ((findClient env u s).client? u).isSome := by
  unfold findClient
  split
  · assumption
  · simp [Service.client?_addClient]

@[simp] theorem log_findClient (u : Str) (s : Service) : (findClient env u s).log = s.log := by
  unfold findClient
  split <;> rfl

theorem findClient_sent (u : Str) (s : Service) :
    (findClient env u s).sent = s.sent ∧ (findClient env u s).queTask = s.queTask := by
  unfold findClient
  split <;> exact ⟨rfl, rfl⟩

/-- A message is accepted from an identity that is not logged in only if it is a login or a
keep-alive, and otherwise only from the router of the record. -/
theorem verdict_accepted {r u : Str} {cmd : CInt} {s : Service} {c : DispatcherClient}
    (h : verdict s r u cmd = .accepted) (hc : (findClient env u s).client? u = some c) :
    (c.bLogin = true ∨ cmd = ECommandType.TLogin.toInt ∨ cmd = ECommandType.TKeepAlive.toInt) ∧
      (c.bLogin = true → c.strRouter = r) := by
  obtain ⟨d, hd, hb, hr⟩ : ∃ d, (s.client? u).getD ⟨[], u, 0, 0, false⟩ = d ∧
      d.bLogin = c.bLogin ∧ d.strRouter = c.strRouter := by
    refine ⟨_, rfl, ?_⟩
    unfold findClient at hc
    cases hu : s.client? u with
    | none =>
      simp only [hu, Option.isSome_none, Bool.false_eq_true, if_false, Service.client?_addClient,
        if_true, Option.none_or] at hc
      obtain rfl := Option.some.inj hc
      exact ⟨rfl, rfl⟩
    | some d =>
      simp only [hu, Option.isSome_some, if_true] at hc
      obtain rfl := Option.some.inj hc
      exact ⟨rfl, rfl⟩
  unfold verdict at h
  split at h
  · cases h
  · simp only [hd, hb, hr] at h
    split at h
    · cases h
    · split at h
      · cases h
      · rename_i h₁ h₂
        refine ⟨?_, fun hlogin => ?_⟩
        · by_cases hlogin : c.bLogin = true
          · exact .inl hlogin
          · simp only [hlogin, Bool.not_false, true_and, not_and, not_not] at h₁
            tauto
        · by_contra hne
          exact h₂ ⟨hlogin, hne⟩

/-- The client takes over the router and the time of an accepted message. -/
def touchClient (strRouter strIdentity : Str) (s : Service) : Service :=
  s.readClock.modifyClient strIdentity fun c => { c with strRouter := strRouter, tLastRead := s.now env }

@[simp] theorem log_touchClient (r u : Str) (s : Service) : (touchClient env r u s).log = s.log := rfl

/-- An accepted message: the client record is brought up to date and the command is run. -/
def acceptCmd (strRouter strIdentity : Str) (cmd : CInt) : Rd Service Unit := do
  modifyOwn (touchClient env strRouter strIdentity)
  let s ← own
  match s.client? strIdentity with
  | some c => onRecvCmd env cmd c
  | none => return ()

/-- What follows the first three frames, up to `skip_label`. -/
def dispatch (strRouter strIdentity : Str) (cmd : CInt) : Rd Service Unit := do
  let s ← own
  match verdict s strRouter strIdentity cmd with
  | .identifyErr => rejectIdentity env strRouter cmd
  | v =>
    modifyOwn (findClient env strIdentity)
    match v with
    | .noLogin => rejectLogin env .TNoLogin "No-Login Error" strRouter cmd
    | .multiLogin => rejectLogin env .TMultiLogin "Multi-Login Error" strRouter cmd
    | _ => acceptCmd env strRouter strIdentity cmd

section
variable {R : Proc Service → Proc Service → Prop} (hR : ReadOrder R)
include hR

theorem along_recvReqidIfMore : Along R (recvReqidIfMore env) :=
  along_bind hR (along_rcvmore hR) fun _ => along_ite _ (along_recvPodObject hR env CInt)
    (along_pure hR _)

theorem along_recvRequestidIfMore : Along R (recvRequestidIfMore env) :=
  along_bind hR (along_rcvmore hR) fun _ => along_ite _
    (along_bind hR hR.recv fun _ => along_copyPod hR env CInt _) (along_pure hR _)

end

theorem run_dispatch (r u : Str) (cmd : CInt) (s : Service) (k : Rcv) :
    (dispatch env r u cmd).run ⟨s, k⟩ =
      match verdict s r u cmd with
      | .identifyErr => (rejectIdentity env r cmd).run ⟨s, k⟩
      | .noLogin => (rejectLogin env .TNoLogin "No-Login Error" r cmd).run ⟨findClient env u s, k⟩
      | .multiLogin =>
        (rejectLogin env .TMultiLogin "Multi-Login Error" r cmd).run ⟨findClient env u s, k⟩
      | .accepted => (acceptCmd env r u cmd).run ⟨findClient env u s, k⟩ := by
  rw [dispatch, EStateM.run_bind, run_own]
  simp only
  cases verdict s r u cmd <;> rfl

/-- An accepted message comes to `onRecvCmd` with the record that has just been brought up to date. -/
theorem run_acceptCmd (r u : Str) (cmd : CInt) (s : Service) (k : Rcv) :
    ∃ c, (findClient env u s).client? u = some c ∧
      (acceptCmd env r u cmd).run ⟨findClient env u s, k⟩ =
        (onRecvCmd env cmd { c with strRouter := r, tLastRead := (findClient env u s).now env }).run
          ⟨touchClient env r u (findClient env u s), k⟩ := by
  obtain ⟨c, hc⟩ := Option.isSome_iff_exists.1 (client?_findClient env u s)
  refine ⟨c, hc, ?_⟩
  simp only [acceptCmd, EStateM.run_bind, run_modifyOwn, run_own, touchClient,
    Service.client?_modifyClient_self, Service.client?_readClock, hc, Option.map_some]

theorem forward_dispatch (r u : Str) (cmd : CInt) : Forward (dispatch env r u cmd) := by
  have hR : ReadOrder (@Ahead Service) := ahead_readOrder
  have hreject : ∀ err msg, Forward (rejectLogin env err msg r cmd) := fun err msg =>
    along_bind hR (along_recvReqidIfMore env hR) fun _ => forward_modifyOwn _
  have hcmd : ∀ c, Forward (onRecvCmd env cmd c) := fun c =>
    along_bind hR (forward_modifyOwn _) fun _ =>
      along_bind hR (along_recvCmd hR env cmd) fun _ => forward_modifyOwn _
  rintro ⟨s, k⟩
  rw [run_dispatch]
  cases verdict s r u cmd with
  | identifyErr =>
    exact along_bind hR (along_recvRequestidIfMore env hR) (fun _ => forward_modifyOwn _) ⟨s, k⟩
  | noLogin => exact hreject _ _ ⟨findClient env u s, k⟩
  | multiLogin => exact hreject _ _ ⟨findClient env u s, k⟩
  | accepted =>
    obtain ⟨c, -, hrun⟩ := run_acceptCmd env r u cmd s k
    simp only [hrun]
    exact hcmd _ ⟨touchClient env r u (findClient env u s), k⟩

/-- `if (items[1].revents & ZMQ_POLLIN)`: one message of a client. -/
def onReadable : Rd Service Unit := do
  let strRouter ← recv
  let strIdentity ← recv
  let cmd ← copyPod env CInt (← recv)
  dispatch env strRouter strIdentity cmd
  skipRemainMFrame

theorem forward_dispatch_skip (r u : Str) (cmd : CInt) :
    Forward (dispatch env r u cmd >>= fun _ => skipRemainMFrame) :=
  along_bind ahead_readOrder (forward_dispatch env r u cmd) fun _ => along_skipRemainMFrame ahead_readOrder

theorem forward_copyPod_dispatch (r u f : Str) :
    Forward (copyPod env CInt f >>= fun cmd => dispatch env r u cmd >>= fun _ => skipRemainMFrame) :=
  along_bind ahead_readOrder (along_copyPod ahead_readOrder env CInt f) (forward_dispatch_skip env r u)

theorem forward_onReadable : Forward (onReadable env) := by
  have hR : ReadOrder (@Ahead Service) := ahead_readOrder
  exact along_bind hR hR.recv fun r => along_bind hR hR.recv fun u => along_bind hR hR.recv fun f =>
    forward_copyPod_dispatch env r u f

section
variable (s : Service) (r u : Str) (fs : List Bytes) (q : List Msg) (o : List (Bytes × Nat))

theorem run_onReadable_dispatch (f : Str) :
    (onReadable env).run ⟨s, ⟨[], ⟨r, u :: f :: fs⟩ :: q, o⟩⟩ =
      (dispatch env r u (podAt env CInt f) >>= fun _ => skipRemainMFrame).run
        ⟨s, ⟨fs, q, o ++ overread CInt f⟩⟩ := by
  simp only [onReadable, EStateM.run_bind, run_recv_next, run_recv_cons, run_copyPod]

theorem run_onReadable_ok (cmd : CInt) (s' : Service) (fs' : List Bytes)
    (h : (dispatch env r u cmd).run ⟨s, ⟨fs, q, o⟩⟩ = .ok () ⟨s', ⟨fs', q, o⟩⟩) :
    (onReadable env).run ⟨s, ⟨[], ⟨r, u :: bytes cmd :: fs⟩ :: q, o⟩⟩ = .ok () ⟨s', ⟨[], q, o⟩⟩ := by
  rw [run_onReadable_dispatch, podAt_bytes, overread_bytes, List.append_nil, EStateM.run_bind, h]
  exact run_skipRemainMFrame s' fs' q o

end

end

end CppLinuxLearn.Deployer
