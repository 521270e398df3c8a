import CppLinuxLearn.Deployer.Service

/-!
# The manager

`DispatcherManager` and its `AsyncZmqApi`: the requests it sends, frame by frame, and the automaton
that takes the frames of the service and makes the callbacks. Loop counters are unbounded: a vector
has fewer than `2 ^ 31` elements.
-/

namespace CppLinuxLearn.Deployer

open Lib Multipart

structure DispatcherManager where
  strIdentity : Str
  /-- `azmqApi.IsConnected()` -/
  connected : Bool
  stateMachine : EMsgRecvState
  msgPattern : CInt
  reqRsp : ReqResponse
  recvCmd : CInt
  recvEleType : CInt
deriving DecidableEq

/-! ## Requests -/

def ERROR_SUCCESS : Int := 0
def ERROR_NOCONNECT : Int := -1
def ERROR_PARAMETER : Int := -2

/-- What a request function leaves: its value, the manager, and the frames it sends with their
more-flags. -/
structure Requested where
  ret : Int
  manager : DispatcherManager
  frames : List (Bytes × Bool)

/-- `azmqApi.Send(sock, data, len, bLast)` -/
def send (data : Bytes) (bLast : Bool) : Bytes × Bool := (data, !bLast)

namespace DispatcherManager
variable (m : DispatcherManager)

/-- A request that is refused. -/
def refuse (ret : Int) : Requested := ⟨ret, m, []⟩

def ReqLogin (strid : Str) (nRequestId : CInt) : Requested :=
  if strid = [] then m.refuse ERROR_PARAMETER
  else if !m.connected then m.refuse ERROR_NOCONNECT
  else
    ⟨ERROR_SUCCESS, { m with strIdentity := strid },
      [send strid false, send (bytes ECommandType.TLogin.toInt) false, send (bytes nRequestId) true]⟩

def ReqLogout (nRequestId : CInt) : Requested :=
  if !m.connected then m.refuse ERROR_NOCONNECT
  else
    ⟨ERROR_SUCCESS, m, [send m.strIdentity false, send (bytes ECommandType.TLogout.toInt) false,
      send (bytes nRequestId) true]⟩

/-- `ReqQryByColumnFilter` and `ReqDelByColumnFilter`, but for their command. -/
def reqByColumnFilter (cmd : ECommandType) (filterVec : List ColumnFilter) (eleType nRequestId : CInt) :
    Requested :=
  if !m.connected then m.refuse ERROR_NOCONNECT
  else
    let n := filterVec.length
    ⟨ERROR_SUCCESS, m,
      [send m.strIdentity false, send (bytes cmd.toInt) false, send (bytes nRequestId) false,
          send (bytes eleType) (n == 0)] ++
        (filterVec.mapIdx fun i f => [send f.ColName false, send f.ColVal (i == n - 1)]).flatten⟩

def ReqQryByColumnFilter := m.reqByColumnFilter .TQuery

def ReqDelByColumnFilter := m.reqByColumnFilter .TDelByCol

def ReqInsUpdDelByEletype {T : Type} [Pod T] (eleVec : List T) (eleType nRequestId : CInt)
    (cmd : ECommandType) : Requested :=
  if eleVec.length = 0 then m.refuse ERROR_PARAMETER
  else if !m.connected then m.refuse ERROR_NOCONNECT
  else
    let n := eleVec.length
    ⟨ERROR_SUCCESS, m,
      [send m.strIdentity false, send (bytes cmd.toInt) false, send (bytes nRequestId) false,
          send (bytes eleType) false] ++
        eleVec.mapIdx fun i x => send (bytes x) (i == n - 1)⟩

/-- `cmd₀` is what `cmd` holds when no case of the `switch` sets it. -/
def ReqDeployExecuteFinish (depGrpVec : List DeployGroup) (nRequestId actType cmd₀ : CInt) : Requested :=
  if !m.connected then m.refuse ERROR_NOCONNECT
  else
    let cmd := if actType = 0 then ECommandType.TDeploy.toInt
      else if actType = 1 then ECommandType.TExecute.toInt
      else if actType = 2 then ECommandType.TFinish.toInt else cmd₀
    let n := depGrpVec.length
    ⟨ERROR_SUCCESS, m,
      [send m.strIdentity false, send (bytes cmd) false, send (bytes nRequestId) false,
          send (bytes EElementType.TDeployGroup.toInt) (n == 0)] ++
        depGrpVec.mapIdx fun i x => send (bytes x) (i == n - 1)⟩

end DispatcherManager

/-! ## Responses -/

/-- The callbacks for a response without elements. -/
inductive OnRsp
  | OnRspCommon | OnRspLogin | OnRspLogout | OnRspDeploy | OnRspFinish | OnRspInsert | OnRspUpdate
  | OnRspDelete
deriving DecidableEq, Repr

/-- What `recvHandle` makes happen. -/
inductive Call
  /-- the `OnRspQry` function of an element type; `none` is a null pointer -/
  | onRspQry (t : EElementType) (pRsp : ReqResponse) (p : Option t.Struct) (nRequestId : CInt)
    (bLast : Bool)
  | onRsp (f : OnRsp) (pRsp : ReqResponse) (nRequestId : CInt)
  /-- the frames sent in answer to a keep-alive push -/
  | keepAlive (frames : List (Bytes × Bool))
deriving DecidableEq

/-- The callback that `onReqRsp` chooses for a response without elements. -/
def onRspFor (cmd : CInt) : OnRsp :=
  match ECommandType.ofInt? cmd with
  | some .TLogin => .OnRspLogin
  | some .TLogout => .OnRspLogout
  | some .TDeploy => .OnRspDeploy
  | some .TFinish => .OnRspFinish
  | some .TInsert => .OnRspInsert
  | some .TDelete => .OnRspDelete
  | some .TDelByCol => .OnRspDelete
  | some .TUpdate => .OnRspUpdate
  | _ => .OnRspCommon

/-- `onReqRsp(reqRsp)` -/
def onReqRsp (reqRsp : ReqResponse) : List Call :=
  [.onRsp (onRspFor reqRsp.CmdType) reqRsp reqRsp.RequestID]

/-- `onReqRsp(reqRsp, nEleType, data, len, bLast)`; the structure is read where the pointer points. -/
def onReqRspEle (env : Env) (reqRsp : ReqResponse) (nEleType : CInt) (data : Option Bytes)
    (bLast : Bool) : List Call :=
  match ECommandType.ofInt? reqRsp.CmdType, EElementType.ofInt? nEleType with
  | some .TQuery, some t =>
    [.onRspQry t reqRsp (data.map (podAt env t.Struct)) reqRsp.RequestID bLast]
  | _, _ => []

/-- `onMsgPush(cmd)` -/
def onMsgPush (strIdentity : Str) (cmd : CInt) : List Call :=
  match ECommandType.ofInt? cmd with
  | some .TKeepAlive =>
    [.keepAlive [send strIdentity false, send (bytes ECommandType.TKeepAlive.toInt) true]]
  | _ => []

section
variable (env : Env)

/-- `recvHandle`; `none` is a failed assertion. -/
def recvHandle (m : DispatcherManager) (data : Bytes) (bLast : Bool) :
    Option (DispatcherManager × List Call) :=
  match m.stateMachine with
  | .StatInit =>
    if data.length ≠ Pod.size CInt then none
    else
      let m := { m with msgPattern := ofBytes data }
      some (if bLast then m else { m with stateMachine := .StatGetPattern }, [])
  | .StatGetPattern =>
    if m.msgPattern = STCMsgPattern.TPassiveResponse.toInt then
      if data.length ≠ Pod.size ReqResponse then none
      else
        let m := { m with reqRsp := ofBytes data }
        if bLast then some ({ m with stateMachine := .StatInit }, onReqRsp m.reqRsp)
        else some ({ m with stateMachine := .StatGetRsp }, [])
    else
      if data.length ≠ Pod.size CInt then none
      else
        let m := { m with recvCmd := ofBytes data }
        if bLast then some ({ m with stateMachine := .StatInit }, onMsgPush m.strIdentity m.recvCmd)
        else some ({ m with stateMachine := .StatGetCmd }, [])
  | .StatGetCmd =>
    if data.length ≠ Pod.size CInt then none
    else
      let m := { m with recvEleType := ofBytes data }
      -- `onMsgPush` with an element does nothing
      some ({ m with stateMachine := if bLast then .StatInit else .StatGetEleType }, [])
  | .StatGetRsp =>
    if data.length ≠ Pod.size CInt then none
    else
      let m := { m with recvEleType := ofBytes data }
      if bLast then
        some ({ m with stateMachine := .StatInit }, onReqRspEle env m.reqRsp m.recvEleType none bLast)
      else some ({ m with stateMachine := .StatGetEleType }, [])
  | .StatGetEleType =>
    let m := if bLast then { m with stateMachine := .StatInit } else m
    if m.msgPattern = STCMsgPattern.TPassiveResponse.toInt then
      some (m, onReqRspEle env m.reqRsp m.recvEleType (some data) bLast)
    else some (m, [])

/-- Frames handed to `m_funcRecv` one after the other, as `AsyncZmqApi::pollFunc` receives them. -/
def recvFrames (m : DispatcherManager) : List (Bytes × Bool) → Option (DispatcherManager × List Call)
  | [] => some (m, [])
  | (data, more) :: fs => do
    let (m, cs) ← recvHandle env m data (!more)
    let (m, ds) ← recvFrames m fs
    return (m, cs ++ ds)

/-- The messages of the service, in the order they come. -/
def recvMessages (m : DispatcherManager) : List (List Bytes) → Option (DispatcherManager × List Call)
  | [] => some (m, [])
  | fs :: ms => do
    let (m, cs) ← recvFrames env m (flagged fs)
    let (m, ds) ← recvMessages m ms
    return (m, cs ++ ds)

end

/-! ## Transport -/

/-- The messages that frames sent on a `DEALER` socket make at a `ROUTER` socket, which puts the id
of the sender in front. -/
def arrive (router : Bytes) (frames : List (Bytes × Bool)) : List Msg :=
  (assemble [] frames).map fun fs => ⟨router, fs⟩

/-- The first half of `AsyncZmqApi::pollFunc`, and of `DispatcherService::pollFunc`: what is sent on
the outer socket for a message on the inner one. -/
def relayed (m : Msg) : List (Bytes × Bool) :=
  (final ((relay fun f more out => out ++ [(f, more)]).run ⟨[], ⟨[], [m], []⟩⟩)).own

/-- What comes of frames sent on the inner socket of the manager at `m_sockBind` of the service. -/
def deliver (dealer router : Bytes) (frames : List (Bytes × Bool)) : List Msg :=
  arrive router ((arrive dealer frames).flatMap relayed)

theorem relayed_eq {m : Msg} (h : m.rest ≠ []) : relayed m = flagged m.rest := by
  have hemit : ∀ (fs : List (Bytes × Bool)) (out : List (Bytes × Bool)),
      emitAll (fun f more out => out ++ [(f, more)]) fs out = out ++ fs := by
    intro fs
    induction fs with
    | nil => simp [emitAll]
    | cons f fs ih =>
      intro out
      exact (ih (out ++ [f])).trans (List.append_assoc _ _ _)
  rw [relayed, run_relay _ _ _ _ m h]
  exact hemit _ []

theorem deliver_flagged (dealer router : Bytes) {fs : List Bytes} (h : fs ≠ []) :
    deliver dealer router (flagged fs) = [⟨router, fs⟩] := by
  have hone : assemble [] (flagged fs) = [fs] := by
    simpa [assemble] using assemble_flagged [] h []
  simp [deliver, arrive, hone, relayed_eq (m := ⟨dealer, fs⟩) h]

end CppLinuxLearn.Deployer
