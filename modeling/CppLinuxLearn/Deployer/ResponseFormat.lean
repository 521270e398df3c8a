import CppLinuxLearn.Deployer.Manager
import CppLinuxLearn.Deployer.PollLoop
import CppLinuxLearn.Deployer.Task

/-!
# Responses make the callbacks they should

The messages of the service to one manager, as `onQryBySql`, `innerSendMsg` and `katimeHandle` send
them, and the automaton `recvHandle` at the other end: a run over any sequence of them makes the
callbacks of each message in turn and ends in `StatInit` (`recvMessages_sent`).
-/

namespace CppLinuxLearn.Deployer

open Lib Multipart

/-! ## What is expected -/

/-- The commands with a callback of their own for a response without elements, under their numbers on the wire:
login, logout, insertion, the two deletions, update, deployment and its end. -/
def ownCallbacks : List (CInt × OnRsp) :=
  [(1, .OnRspLogin), (2, .OnRspLogout), (5, .OnRspInsert), (6, .OnRspDelete), (7, .OnRspDelete), (8, .OnRspUpdate),
    (9, .OnRspDeploy), (11, .OnRspFinish)]

/-- The callback that is expected for a response without elements. -/
def expectedOnRsp (cmdType : CInt) : OnRsp := (ownCallbacks.lookup cmdType).getD .OnRspCommon

theorem onRspFor_eq (cmd : CInt) : onRspFor cmd = expectedOnRsp cmd := by
  cases hk : ECommandType.ofInt? cmd with
  | some k =>
    obtain rfl := ECommandType.ofInt?_eq_some hk
    cases k <;> rfl
  | none =>
    have hcommands : ∀ p ∈ ownCallbacks, ∃ k ∈ ECommandType.all, k.toInt = p.1 := by decide
    have hnone : ownCallbacks.lookup cmd = none := by
      rw [List.lookup_eq_none_iff]
      intro p hp
      obtain ⟨k, hmem, htoInt⟩ := hcommands p hp
      have hne := List.find?_eq_none.1 hk k hmem
      rw [htoInt, decide_eq_true_eq] at hne
      exact bne_iff_ne.2 (Ne.symm hne)
    rw [onRspFor, hk, expectedOnRsp, hnone]
    rfl

/-- A message of the service to a manager. -/
inductive ServerMsg
  /-- the answer of `onQryBySql`, sent by a worker on a socket with the given router id -/
  | query (dealer : Bytes) (t : EElementType) (requestId : CInt) (r : DbResult t)
  /-- a response without elements -/
  | plain (rsp : ReqResponse)
  /-- the push of `katimeHandle` -/
  | keepAlive

namespace ServerMsg

/-- The frames that go out on `m_sockBind` for the client at `router`. -/
def sent (router : Str) : ServerMsg → List (Bytes × Bool)
  | query dealer t requestId r =>
    (arrive dealer (onQryBySql t router t.toInt requestId r)).flatMap relayed
  | plain rsp =>
    [(router, true), (bytes STCMsgPattern.TPassiveResponse.toInt, true), (bytes rsp, false)]
  | keepAlive =>
    [(router, true), (bytes STCMsgPattern.TActivePush.toInt, true),
      (bytes ECommandType.TKeepAlive.toInt, false)]

/-- The callbacks the message should make at a manager with the given identity. -/
def calls (strIdentity : Str) : ServerMsg → List Call
  | query _ t requestId r =>
    match r.qryObjs with
    | [] => [.onRspQry t (rspQry requestId r) none requestId true]
    | xs => xs.mapIdx fun i x =>
        .onRspQry t (rspQry requestId r) (some x) requestId (decide (i + 1 = xs.length))
  | plain rsp => [.onRsp (expectedOnRsp rsp.CmdType) rsp rsp.RequestID]
  | keepAlive =>
    [.keepAlive (flagged [strIdentity, bytes ECommandType.TKeepAlive.toInt])]

/-- The frames the manager receives: the socket of the service takes the address off. -/
def frames : ServerMsg → List Bytes
  | query _ t requestId r =>
    bytes STCMsgPattern.TPassiveResponse.toInt :: bytes (rspQry requestId r) :: bytes t.toInt ::
      r.qryObjs.map bytes
  | plain rsp => [bytes STCMsgPattern.TPassiveResponse.toInt, bytes rsp]
  | keepAlive => [bytes STCMsgPattern.TActivePush.toInt, bytes ECommandType.TKeepAlive.toInt]

end ServerMsg

/-! ## Sending -/

theorem flags_elements {t : EElementType} (xs : List t.Struct) :
    (xs.mapIdx fun i x => (bytes x, decide (i < xs.length - 1))) = flagged (xs.map bytes) := by
  rw [flagged_eq_mapIdx]
  refine List.ext_getElem (by simp) fun i hi _ => ?_
  have hlt : i < xs.length := by simpa using hi
  simp only [List.getElem_mapIdx, List.getElem_map, List.length_map, Prod.mk.injEq, decide_eq_decide,
    true_and]
  omega

theorem onQryBySql_eq_flagged {t : EElementType} (router : Str) (eletype requestId : CInt)
    (r : DbResult t) : onQryBySql t router eletype requestId r =
      flagged (router :: bytes STCMsgPattern.TPassiveResponse.toInt :: bytes (rspQry requestId r) ::
        bytes eletype :: r.qryObjs.map bytes) := by
  rw [onQryBySql, flags_elements]
  cases hx : r.qryObjs with
  | nil => rfl
  | cons x xs =>
    have hne : (x :: xs).map bytes ≠ [] := by simp
    exact (flagged_append [router, bytes STCMsgPattern.TPassiveResponse.toInt,
      bytes (rspQry requestId r), bytes eletype] hne).symm

theorem relayed_arrive (dealer : Bytes) {fs : List Bytes} (h : fs ≠ []) :
    (arrive dealer (flagged fs)).flatMap relayed = flagged fs := by
  have hone : assemble [] (flagged fs) = [fs] := by
    simpa [assemble] using assemble_flagged [] h []
  simp [arrive, hone, relayed_eq (m := ⟨dealer, fs⟩) h]

theorem sent_eq_flagged (router : Str) (msg : ServerMsg) :
    msg.sent router = flagged (router :: msg.frames) := by
  cases msg with
  | query dealer t requestId r =>
    rw [ServerMsg.sent, onQryBySql_eq_flagged]
    exact relayed_arrive dealer (List.cons_ne_nil _ _)
  | plain rsp => rfl
  | keepAlive => rfl

theorem sent_answer (s : Service) (router : Str) (rsp : ReqResponse) :
    (s.answer router rsp).sent = s.sent ++ (ServerMsg.plain rsp).sent router :=
  Service.sent_answer s router rsp

theorem relayed_onOp (dealer router : Str) (cmd : ECommandType) (msg : String) (requestId : CInt)
    (res : Int) (err : Str) :
    (arrive dealer (onOp cmd msg router requestId res err)).flatMap relayed =
      (ServerMsg.plain (rspOp cmd msg requestId res err)).sent router :=
  relayed_arrive dealer (List.cons_ne_nil router
    [bytes STCMsgPattern.TPassiveResponse.toInt, bytes (rspOp cmd msg requestId res err)])

theorem sent_katimeClient (env : Env) (tnow : Int) (s : Service) (u : Str) (c : DispatcherClient)
    (hc : s.client? u = some c) (hread : ¬ c.tLastRead + 60 * 1000000000 < tnow) :
    (katimeClient env tnow s u).sent = s.sent ++ ServerMsg.keepAlive.sent c.strRouter := by
  simp only [katimeClient, hc, if_neg hread]
  simp [Service.innerSendMsg, ServerMsg.sent, Service.modifyClient, Service.readClock]

/-! ## Receiving -/

section
variable (env : Env)

theorem recvFrames_cons {m m' : DispatcherManager} {data : Bytes} {more : Bool} {cs : List Call}
    (h : recvHandle env m data (!more) = some (m', cs)) (fs : List (Bytes × Bool)) :
    recvFrames env m ((data, more) :: fs) =
      (recvFrames env m' fs).map fun p => (p.1, cs ++ p.2) := by
  cases hr : recvFrames env m' fs <;> simp [recvFrames, h, hr]

theorem recvFrames_elements {t : EElementType} {m : DispatcherManager} (xs : List t.Struct)
    (hne : xs ≠ []) (hs : m.stateMachine = .StatGetEleType)
    (hp : m.msgPattern = STCMsgPattern.TPassiveResponse.toInt)
    (hc : m.reqRsp.CmdType = ECommandType.TQuery.toInt) (ht : m.recvEleType = t.toInt) :
    recvFrames env m (flagged (xs.map bytes)) = some ({ m with stateMachine := .StatInit },
      (flagged xs).map fun p => .onRspQry t m.reqRsp (some p.1) m.reqRsp.RequestID (!p.2)) := by
  have hone : ∀ (x : t.Struct) (more : Bool), recvHandle env m (bytes x) (!more) =
      some (if more then m else { m with stateMachine := .StatInit },
        [.onRspQry t m.reqRsp (some x) m.reqRsp.RequestID (!more)]) := by
    intro x more
    cases more <;> simp [recvHandle, hs, hp, onReqRspEle, hc, ht]
  induction xs with
  | nil => exact absurd rfl hne
  | cons x xs ih =>
    cases xs with
    | nil => exact recvFrames_cons env (hone x false) []
    | cons y ys =>
      have hrest := ih (List.cons_ne_nil y ys)
      rw [List.map_cons] at hrest
      rw [List.map_cons, List.map_cons, flagged, recvFrames_cons env (hone x true), if_pos rfl, hrest]
      rfl

theorem calls_elements {α : Type} (f : α → Bool → Call) (xs : List α) :
    ((flagged xs).map fun p => f p.1 (!p.2)) =
      xs.mapIdx fun i x => f x (decide (i + 1 = xs.length)) := by
  rw [flagged_eq_mapIdx]
  refine List.ext_getElem (by simp) fun i hi _ => ?_
  have hlt : i < xs.length := by simpa using hi
  have hlast : (!decide (i + 1 < xs.length)) = decide (i + 1 = xs.length) := by
    rw [Bool.eq_iff_iff]
    simp
    omega
  simp only [List.getElem_map, List.getElem_mapIdx, hlast]

/-- One message from `StatInit` makes its callbacks and comes back to `StatInit`. -/
theorem recvFrames_message (m : DispatcherManager) (hm : m.stateMachine = .StatInit)
    (msg : ServerMsg) : ∃ m', recvFrames env m (flagged msg.frames) = some (m', msg.calls m.strIdentity) ∧
      m'.stateMachine = .StatInit ∧ m'.strIdentity = m.strIdentity := by
  cases msg with
  | query dealer t requestId r =>
    have hid : (rspQry requestId r).RequestID = requestId := by
      unfold rspQry
      split <;> rfl
    have hcmd : (rspQry requestId r).CmdType = ECommandType.TQuery.toInt := by
      unfold rspQry
      split <;> rfl
    simp only [ServerMsg.frames, ServerMsg.calls]
    cases hx : r.qryObjs with
    | nil =>
      refine ⟨{ m with
        msgPattern := STCMsgPattern.TPassiveResponse.toInt
        reqRsp := rspQry requestId r
        recvEleType := t.toInt }, ?_, hm, rfl⟩
      simp [flagged, recvFrames, recvHandle, hm, onReqRspEle, hcmd, hid]
    | cons x xs =>
      -- the three frames in front bring the automaton to the elements
      have hhead : ∀ fs, recvFrames env m ((bytes STCMsgPattern.TPassiveResponse.toInt, true) ::
          (bytes (rspQry requestId r), true) :: (bytes t.toInt, true) :: fs) =
          recvFrames env { m with
            stateMachine := .StatGetEleType
            msgPattern := STCMsgPattern.TPassiveResponse.toInt
            reqRsp := rspQry requestId r
            recvEleType := t.toInt } fs := by
        intro fs
        simp [recvFrames, recvHandle, hm]
      have hne : (x :: xs).map bytes ≠ [] := by simp
      have hflags := flagged_append [bytes STCMsgPattern.TPassiveResponse.toInt,
        bytes (rspQry requestId r), bytes t.toInt] hne
      refine ⟨{ m with
        stateMachine := .StatInit
        msgPattern := STCMsgPattern.TPassiveResponse.toInt
        reqRsp := rspQry requestId r
        recvEleType := t.toInt }, ?_, rfl, rfl⟩
      rw [show ∀ fs : List Bytes, bytes STCMsgPattern.TPassiveResponse.toInt ::
        bytes (rspQry requestId r) :: bytes t.toInt :: fs = [bytes STCMsgPattern.TPassiveResponse.toInt,
          bytes (rspQry requestId r), bytes t.toInt] ++ fs from fun _ => rfl, hflags]
      refine (hhead _).trans ((recvFrames_elements env (x :: xs) (List.cons_ne_nil x xs) rfl rfl hcmd
        rfl).trans ?_)
      rw [hid]
      exact congrArg (fun cs => some (_, cs)) (calls_elements
        (fun x bLast => Call.onRspQry t (rspQry requestId r) (some x) requestId bLast) (x :: xs))
  | plain rsp =>
    refine ⟨{ m with msgPattern := STCMsgPattern.TPassiveResponse.toInt, reqRsp := rsp }, ?_, hm, rfl⟩
    simp [ServerMsg.frames, flagged, recvFrames, recvHandle, hm, ServerMsg.calls, onReqRsp, onRspFor_eq]
  | keepAlive =>
    refine ⟨{ m with
      msgPattern := STCMsgPattern.TActivePush.toInt
      recvCmd := ECommandType.TKeepAlive.toInt }, ?_, hm, rfl⟩
    have hne : STCMsgPattern.TActivePush.toInt ≠ STCMsgPattern.TPassiveResponse.toInt := by decide
    simp [ServerMsg.frames, flagged, recvFrames, recvHandle, hm, ServerMsg.calls, onMsgPush, hne, send]

theorem recvMessages_frames (m : DispatcherManager) (hm : m.stateMachine = .StatInit)
    (msgs : List ServerMsg) : ∃ m', recvMessages env m (msgs.map ServerMsg.frames) =
        some (m', msgs.flatMap (ServerMsg.calls m.strIdentity)) ∧ m'.stateMachine = .StatInit := by
  induction msgs generalizing m with
  | nil => exact ⟨m, rfl, hm⟩
  | cons msg msgs ih =>
    obtain ⟨m₁, h₁, hs₁, hid⟩ := recvFrames_message env m hm msg
    obtain ⟨m₂, h₂, hs₂⟩ := ih m₁ hs₁
    refine ⟨m₂, ?_, hs₂⟩
    rw [hid] at h₂
    simp [recvMessages, h₁, h₂]

/-- **The callbacks are those of the messages, one after the other.** Whatever the service sends to a
manager, in any order, the frames received make the callbacks of the messages in turn; after every
`k` of them the automaton is back in `StatInit`. -/
theorem recvMessages_sent (m : DispatcherManager) (router : Str) (msgs : List ServerMsg) (k : Nat) :
    ∃ m', recvMessages env { m with stateMachine := .StatInit }
        (((assemble [] (msgs.flatMap (ServerMsg.sent router))).map List.tail).take k) =
          some (m', (msgs.take k).flatMap (ServerMsg.calls m.strIdentity)) ∧
      m'.stateMachine = .StatInit := by
  have hmsgs : (assemble [] (msgs.flatMap (ServerMsg.sent router))).map List.tail =
      msgs.map ServerMsg.frames := by
    have hsent : ServerMsg.sent router = fun msg => flagged (router :: msg.frames) :=
      funext (sent_eq_flagged router)
    have h := assemble_flatMap_flagged (msgs.map fun msg => router :: msg.frames) (by simp)
    rw [List.flatMap_map] at h
    rw [hsent, h, List.map_map]
    rfl
  rw [hmsgs, ← List.map_take]
  exact recvMessages_frames env { m with stateMachine := .StatInit } rfl (msgs.take k)

end

end CppLinuxLearn.Deployer
