import CppLinuxLearn.Deployer.Order
import CppLinuxLearn.Deployer.RequestFormat
import CppLinuxLearn.Deployer.ResponseFormat

/-!
# One answer for each request

What managers send is calls of request functions and answers to keep-alive pushes. A call is answered
by the poll thread, or it becomes a task and the answer is relayed when the task is done, so the
responses sent and the tasks still owing one are together a rearrangement of the calls handled. The
rejections answer every message, also one that is no request: a rejected keep-alive has a response
with the request id 0.
-/

namespace CppLinuxLearn.Deployer

open Lib Multipart Steps

/-! ## What managers send -/

namespace ManagerReq

def nRequestId : ManagerReq → CInt
  | login _ id | logout id | qryByColumnFilter _ _ id | delByColumnFilter _ _ id
  | insUpdDel _ _ _ id => id

/-- The element type of a query or a deletion by column is that of a structure. -/
def typed : ManagerReq → Bool
  | qryByColumnFilter _ eleType _ | delByColumnFilter _ eleType _ => (EElementType.ofInt? eleType).isSome
  | _ => true

theorem payload_eq (rq : ManagerReq) : rq.payload = bytes rq.nRequestId :: rq.payload.tail := by
  cases rq <;> rfl

theorem cmd_ne_keepAlive (rq : ManagerReq) : rq.cmd ≠ .TKeepAlive := by
  cases rq with
  | insUpdDel op t eleVec id => cases op <;> nofun
  | _ => nofun

end ManagerReq

/-- A message of a manager: of a call that returns `ERROR_SUCCESS`, or of its answer to a push. -/
inductive Issued
  | call (m : DispatcherManager) (rq : ManagerReq) (dealer r : Bytes)
    (success : (rq.call m).ret = ERROR_SUCCESS) (typed : rq.typed = true)
  | keepAlive (m : DispatcherManager) (dealer r : Bytes)

namespace Issued

/-- What comes of it at `m_sockBind`. -/
def delivered : Issued → List Msg
  | call m rq dealer r _ _ => deliver dealer r (rq.call m).frames
  | keepAlive m dealer r =>
    deliver dealer r [send m.strIdentity false, send (bytes ECommandType.TKeepAlive.toInt) true]

def message : Issued → Msg
  | call m rq _ r _ _ => ⟨r, (rq.call m).manager.strIdentity :: bytes rq.cmd.toInt :: rq.payload⟩
  | keepAlive m _ r => ⟨r, [m.strIdentity, bytes ECommandType.TKeepAlive.toInt]⟩

theorem delivered_eq (c : Issued) : c.delivered = [c.message] := by
  cases c with
  | call m rq dealer r success typed =>
    rw [delivered, frames_call success]
    exact deliver_flagged dealer r (List.cons_ne_nil _ _)
  | keepAlive m dealer r =>
    exact deliver_flagged dealer r (List.cons_ne_nil m.strIdentity [bytes ECommandType.TKeepAlive.toInt])

/-- Request id and command of a call. -/
def key : Issued → Option (CInt × CInt)
  | call _ rq _ _ _ _ => some (rq.nRequestId, rq.cmd.toInt)
  | keepAlive _ _ _ => none

def isKeepAlive : Issued → Bool
  | call _ _ _ _ _ _ => false
  | keepAlive _ _ _ => true

end Issued

/-! ## What the service sends -/

def ReqResponse.key (rsp : ReqResponse) : CInt × CInt := (rsp.RequestID, rsp.CmdType)

/-- The response is about a keep-alive. -/
def ReqResponse.isKeepAlive (rsp : ReqResponse) : Bool := rsp.CmdType = ECommandType.TKeepAlive.toInt

/-- The response in a message on `m_sockBind`, behind its router and its pattern. -/
def response? : List Bytes → Option ReqResponse
  | _ :: pattern :: rsp :: _ =>
    if pattern = bytes STCMsgPattern.TPassiveResponse.toInt then some (ofBytes rsp) else none
  | _ => none

/-- The responses sent. -/
def Service.responses (s : Service) : List ReqResponse := (assemble [] s.sent).filterMap response?

/-- The request id that a callback completes. -/
def Call.completes : Call → Option CInt
  | onRspQry _ _ _ nRequestId bLast => if bLast then some nRequestId else none
  | onRsp _ _ nRequestId => some nRequestId
  | keepAlive _ => none

namespace ServerMsg

def response : ServerMsg → Option ReqResponse
  | query _ _ requestId r => some (rspQry requestId r)
  | plain rsp => some rsp
  | keepAlive => none

theorem response?_frames (router : Str) (msg : ServerMsg) :
    response? (router :: msg.frames) = msg.response := by
  cases msg with
  | query dealer t requestId r => simp [frames, response?, response]
  | plain rsp => simp [frames, response?, response]
  | keepAlive => rfl

theorem completes_calls (strIdentity : Str) (msg : ServerMsg) :
    (msg.calls strIdentity).filterMap Call.completes = msg.response.toList.map ReqResponse.RequestID := by
  cases msg with
  | query dealer t requestId r =>
    have hid : (rspQry requestId r).RequestID = requestId := by
      unfold rspQry
      split <;> rfl
    have hlast : ∀ xs : List t.Struct, xs ≠ [] →
        ((flagged xs).map fun p => Call.onRspQry t (rspQry requestId r) (some p.1) requestId
          (!p.2)).filterMap Call.completes = [requestId] := by
      intro xs
      induction xs with
      | nil => exact fun hne => absurd rfl hne
      | cons x xs ih =>
        intro _
        cases xs with
        | nil => rfl
        | cons y ys => exact ih (List.cons_ne_nil y ys)
    rw [response, Option.toList_some, List.map_singleton, hid, calls]
    cases hx : r.qryObjs with
    | nil => rfl
    | cons x xs =>
      have hcalls := calls_elements
        (fun x bLast => Call.onRspQry t (rspQry requestId r) (some x) requestId bLast) (x :: xs)
      exact (congrArg (List.filterMap Call.completes) hcalls).symm.trans (hlast _ (List.cons_ne_nil x xs))
  | plain rsp => rfl
  | keepAlive => rfl

end ServerMsg

/-- The service has sent the given messages, each to its router. -/
def Sends (s s' : Service) (out : List (Str × ServerMsg)) : Prop :=
  s'.sent = s.sent ++ out.flatMap fun p => p.2.sent p.1

theorem Sends.refl (s : Service) : Sends s s [] := (List.append_nil _).symm

theorem Sends.trans {s₁ s₂ s₃ : Service} {out out' : List (Str × ServerMsg)} (h : Sends s₁ s₂ out)
    (h' : Sends s₂ s₃ out') : Sends s₁ s₃ (out ++ out') := by
  rw [Sends, h', h, List.flatMap_append, List.append_assoc]

theorem sends_katimeClient (env : Env) (tnow : Int) (s : Service) (u : Str) :
    ∃ out, Sends s (katimeClient env tnow s u) out ∧ ∀ p ∈ out, p.2 = .keepAlive := by
  cases hc : s.client? u with
  | none =>
    refine ⟨[], ?_, nofun⟩
    rw [katimeClient, hc]
    exact Sends.refl s
  | some c =>
    by_cases hread : c.tLastRead + 60 * 1000000000 < tnow
    · refine ⟨[], ?_, nofun⟩
      simp only [katimeClient, hc, if_pos hread]
      exact Sends.refl s
    · refine ⟨[(c.strRouter, .keepAlive)], ?_, by simp⟩
      rw [Sends, sent_katimeClient env tnow s u c hc hread, List.flatMap_singleton]

theorem sends_checkTimer (env : Env) (s : Service) :
    ∃ out, Sends s (checkTimer env s) out ∧ ∀ p ∈ out, p.2 = .keepAlive := by
  refine checkTimer_keeps (P := fun s' => ∃ out, Sends s s' out ∧ ∀ p ∈ out, p.2 = .keepAlive)
    (fun _ _ _ h => h) ?_ ⟨[], Sends.refl s, nofun⟩
  rintro tnow s' u ⟨out, hout, hpush⟩
  obtain ⟨out', hout', hpush'⟩ := sends_katimeClient env tnow s' u
  refine ⟨out ++ out', hout.trans hout', fun p hp => ?_⟩
  exact (List.mem_append.1 hp).elim (hpush p) (hpush' p)

/-! ### The answer of a task -/

def TaskOp.cmd : TaskOp → ECommandType
  | onQryBySql _ _ _ => .TQuery
  | onDelBySql _ _ _ => .TDelByCol
  | onByObjects op _ _ => op.cmd

theorem TaskOp.cmd_ne_keepAlive (op : TaskOp) : op.cmd ≠ .TKeepAlive := by
  cases op with
  | onByObjects op t objVec => cases op <;> nofun
  | _ => nofun

def Task.key (task : Task) : CInt × CInt := (task.requestId, task.op.cmd.toInt)

/-- The element type that a query sends with its rows is theirs. -/
def TaskOp.Typed : TaskOp → Prop
  | onQryBySql t _ eletype => eletype = t.toInt
  | _ => True

theorem relayed_answer {op : TaskOp} (hop : op.Typed) (dealer router : Str) (requestId : CInt)
    (r : DbResult op.type) : ∃ msg : ServerMsg,
      (arrive dealer (op.answer router requestId r)).flatMap relayed = msg.sent router ∧
        ∃ rsp, msg.response = some rsp ∧ rsp.key = (requestId, op.cmd.toInt) := by
  cases op with
  | onQryBySql t sql eletype =>
    obtain rfl : eletype = t.toInt := hop
    refine ⟨.query dealer t requestId r, rfl, rspQry requestId r, rfl, ?_⟩
    unfold rspQry
    split <;> rfl
  | onDelBySql t sql eletype =>
    refine ⟨.plain _, relayed_onOp dealer router _ _ _ _ _, _, rfl, ?_⟩
    unfold rspOp
    split <;> rfl
  | onByObjects op t objVec =>
    cases op <;> refine ⟨.plain _, relayed_onOp dealer router _ _ _ _ _, _, rfl, ?_⟩ <;> unfold rspOp <;>
      split <;> rfl

theorem sent_relayMsg (dealer : Bytes) (frames : List (Bytes × Bool)) (s : Service) :
    (Live.relayMsg dealer frames s).sent = s.sent ++ (arrive dealer frames).flatMap relayed := by
  have hrelayed : (fun fs => relayed ⟨dealer, fs⟩) = (flagged : List Bytes → List (Bytes × Bool)) := by
    funext fs
    cases fs with
    | nil => rfl
    | cons f fs => exact relayed_eq (List.cons_ne_nil f fs)
  rw [Live.relayMsg_eq, arrive, List.flatMap_map, hrelayed]

/-! ## The handling of a message -/

/-- A request is answered, or its task is submitted. -/
inductive Serves (key : CInt × CInt) (s s' : Service) : Prop
  | answered {router : Str} {rsp : ReqResponse} (hsent : Sends s s' [(router, .plain rsp)])
    (hque : s'.queTask = s.queTask) (hkey : rsp.key = key)
  | submitted {task : Task} (hsent : s'.sent = s.sent) (hque : s'.queTask = s.queTask ++ [task])
    (hkey : task.key = key)

theorem Serves.of_eq {key : CInt × CInt} {s₁ s₂ s₃ : Service} (h : Serves key s₂ s₃)
    (hsent : s₂.sent = s₁.sent) (hque : s₂.queTask = s₁.queTask) : Serves key s₁ s₃ := by
  cases h with
  | answered h₁ h₂ hkey => exact .answered (by rwa [Sends, ← hsent]) (h₂.trans hque) hkey
  | submitted h₁ h₂ hkey => exact .submitted (h₁.trans hsent) (hque ▸ h₂) hkey

theorem sends_answer (s : Service) (router : Str) (rsp : ReqResponse) :
    Sends s (s.answer router rsp) [(router, .plain rsp)] := by
  rw [Sends, sent_answer, List.flatMap_singleton]

theorem serves_handleCmd (env : Env) (c : DispatcherClient) (rq : ManagerReq) (htyped : rq.typed = true)
    (s : Service) : Serves (rq.nRequestId, rq.cmd.toInt) s (handleCmd env c rq.request s) := by
  cases rq with
  | login strid id =>
    rw [ManagerReq.request, handleCmd, onReqLogin]
    split
    · exact .answered (sends_answer s _ _) rfl rfl
    · exact .answered (sends_answer (s.modifyClient c.strIdentify _) _ _) rfl rfl
  | logout id => exact .answered (sends_answer (s.modifyClient c.strIdentify _) _ _) rfl rfl
  | qryByColumnFilter fs eleType id =>
    obtain ⟨t, ht⟩ := Option.isSome_iff_exists.1 htyped
    rw [ManagerReq.request, handleCmd, submitSql, ht]
    exact .submitted rfl rfl rfl
  | delByColumnFilter fs eleType id =>
    obtain ⟨t, ht⟩ := Option.isSome_iff_exists.1 htyped
    rw [ManagerReq.request, handleCmd, submitSql, ht]
    exact .submitted rfl rfl rfl
  | insUpdDel op t eleVec id =>
    rw [ManagerReq.request, handleCmd]
    split <;> exact .submitted rfl rfl rfl

section
variable (env : Env) (r u : Str) (s : Service) (q : List Msg) (o : List (Bytes × Nat))

/-- **A call is answered once**: the handling of its message comes to the end of the message, and has
answered it or submitted its task, whatever the state of the service. -/
theorem run_onReadable_call {rq : ManagerReq} (htyped : rq.typed = true) : ∃ s',
    (onReadable env).run ⟨s, ⟨[], ⟨r, u :: bytes rq.cmd.toInt :: rq.payload⟩ :: q, o⟩⟩ =
      .ok () ⟨s', ⟨[], q, o⟩⟩ ∧ Serves (rq.nRequestId, rq.cmd.toInt) s s' := by
  have hhead := run_onReadable_ok env s r u rq.payload q o rq.cmd.toInt
  have hanswer : ∀ err msg (s' : Service), s'.sent = s.sent → s'.queTask = s.queTask →
      Serves (rq.nRequestId, rq.cmd.toInt) s
        (s'.answer r (mkResponse env err msg rq.nRequestId rq.cmd.toInt)) := by
    intro err msg s' hsent hque
    exact Serves.of_eq (.answered (sends_answer s' r _) rfl rfl) hsent hque
  obtain ⟨hsent, hque⟩ := findClient_sent env u s
  have hreject : ∀ err msg, (rejectLogin env err msg r rq.cmd.toInt).run
      ⟨findClient env u s, ⟨rq.payload, q, o⟩⟩ =
        .ok () ⟨(findClient env u s).answer r
          (mkResponse env err msg rq.nRequestId rq.cmd.toInt), ⟨rq.payload.tail, q, o⟩⟩ := by
    intro err msg
    rw [rq.payload_eq]
    simp only [rejectLogin, recvReqidIfMore, EStateM.run_bind, run_rcvmore, List.isEmpty_cons,
      Bool.not_false, if_true, run_recvPodObject env CInt _ _ _ q o (length_bytes rq.nRequestId),
      podAt_bytes, run_modifyOwn, List.tail_cons]
  cases hv : verdict s r u rq.cmd.toInt with
  | identifyErr =>
    refine ⟨_, hhead _ rq.payload.tail ?_, hanswer .TIdentifyErr "Identify Error" s rfl rfl⟩
    rw [run_dispatch, hv, rq.payload_eq]
    simp only [rejectIdentity, recvRequestidIfMore, EStateM.run_bind, run_rcvmore, List.isEmpty_cons,
      Bool.not_false, if_true, run_recv_cons, run_copyPod, podAt_bytes, overread_bytes, List.append_nil,
      run_modifyOwn, List.tail_cons]
  | noLogin =>
    refine ⟨_, hhead _ rq.payload.tail ?_, hanswer .TNoLogin "No-Login Error" _ hsent hque⟩
    rw [run_dispatch, hv]
    exact hreject _ _
  | multiLogin =>
    refine ⟨_, hhead _ rq.payload.tail ?_, hanswer .TMultiLogin "Multi-Login Error" _ hsent hque⟩
    rw [run_dispatch, hv]
    exact hreject _ _
  | accepted =>
    obtain ⟨c, hc, hrun⟩ := run_acceptCmd env r u rq.cmd.toInt s ⟨rq.payload, q, o⟩
    have hserves : Serves (rq.nRequestId, rq.cmd.toInt) s
        (handleCmd env (c.touched env (findClient env u s) r) rq.request
          ((reach env r u rq.cmd.toInt c s).logEvent (.parsed c.strIdentify rq.request))) :=
      Serves.of_eq (serves_handleCmd env _ rq htyped _) hsent hque
    refine ⟨_, hhead _ [] ?_, hserves⟩
    rw [run_dispatch, hv]
    simp only [hrun, onRecvCmd, EStateM.run_bind, run_modifyOwn, run_recvCmd_payload]
    rfl

omit env q o in
theorem verdict_keepAlive : verdict s r u ECommandType.TKeepAlive.toInt ≠ .noLogin := by
  unfold verdict
  split
  · nofun
  · rw [if_neg (fun h => h.2.2 rfl)]
    split <;> nofun

theorem run_onReadable_keepAlive : ∃ s',
    (onReadable env).run ⟨s, ⟨[], ⟨r, [u, bytes ECommandType.TKeepAlive.toInt]⟩ :: q, o⟩⟩ =
      .ok () ⟨s', ⟨[], q, o⟩⟩ ∧ s'.queTask = s.queTask ∧
      (s'.sent = s.sent ∨ ∃ err msg, (err = .TIdentifyErr ∨ err = .TMultiLogin) ∧
        Sends s s' [(r, .plain (mkResponse env err msg 0 ECommandType.TKeepAlive.toInt))]) := by
  have hhead := fun s' => run_onReadable_ok env s r u [] q o ECommandType.TKeepAlive.toInt s' []
  obtain ⟨hsent, hque⟩ := findClient_sent env u s
  cases hv : verdict s r u ECommandType.TKeepAlive.toInt with
  | identifyErr =>
    have hrun : (dispatch env r u ECommandType.TKeepAlive.toInt).run ⟨s, ⟨[], q, o⟩⟩ =
        .ok () ⟨s.answer r (mkResponse env .TIdentifyErr "Identify Error" 0 ECommandType.TKeepAlive.toInt),
          ⟨[], q, o⟩⟩ := by
      rw [run_dispatch, hv]
      rfl
    exact ⟨_, hhead _ hrun, rfl, .inr ⟨.TIdentifyErr, "Identify Error", .inl rfl, sends_answer s r _⟩⟩
  | noLogin => exact absurd hv (verdict_keepAlive r u s)
  | multiLogin =>
    have hrun : (dispatch env r u ECommandType.TKeepAlive.toInt).run ⟨s, ⟨[], q, o⟩⟩ =
        .ok () ⟨(findClient env u s).answer r
          (mkResponse env .TMultiLogin "Multi-Login Error" 0 ECommandType.TKeepAlive.toInt), ⟨[], q, o⟩⟩ := by
      rw [run_dispatch, hv]
      rfl
    have hsends := sends_answer (findClient env u s) r
      (mkResponse env .TMultiLogin "Multi-Login Error" 0 ECommandType.TKeepAlive.toInt)
    rw [Sends, hsent] at hsends
    exact ⟨_, hhead _ hrun, hque, .inr ⟨.TMultiLogin, "Multi-Login Error", .inr rfl, hsends⟩⟩
  | accepted =>
    obtain ⟨c, hc, haccept⟩ := run_acceptCmd env r u ECommandType.TKeepAlive.toInt s ⟨[], q, o⟩
    have hrun : (dispatch env r u ECommandType.TKeepAlive.toInt).run ⟨s, ⟨[], q, o⟩⟩ =
        .ok () ⟨onKeepAlive env (c.touched env (findClient env u s) r)
          ((reach env r u ECommandType.TKeepAlive.toInt c s).logEvent (.parsed c.strIdentify .keepAlive)),
          ⟨[], q, o⟩⟩ := by
      rw [run_dispatch, hv]
      exact haccept
    exact ⟨_, hhead _ hrun, hque, .inl hsent⟩

end

/-! ## The tasks that owe an answer -/

/-- The task of a worker whose answer has not been relayed. -/
def Worker.owed (x : Worker) : Option Task :=
  match x.stage with
  | .relayed => none
  | _ => some x.task

/-- The frames under way are those of an answer of the task. -/
def Worker.Framed (x : Worker) : Prop :=
  match x.stage with
  | .addressed frames _ | .stored frames | .sent frames =>
    ∃ router r, frames = x.task.op.answer router x.task.requestId r
  | _ => True

namespace Live

/-- The tasks whose answers have not been relayed. -/
def pending (s : Live) : List Task := s.workers.filterMap Worker.owed ++ s.svc.queTask

section
variable {w : World} {s t : Live} {a : LiveAction}

theorem owed_setStage {i : Nat} {task : Task} {stage stage' : Stage task.op.type}
    (hw : s.workers[i]? = some ⟨task, stage⟩)
    (howed : Worker.owed ⟨task, stage'⟩ = Worker.owed ⟨task, stage⟩) :
    (s.setStage i task stage').workers.filterMap Worker.owed = s.workers.filterMap Worker.owed := by
  obtain ⟨pre, post, hworkers, -, hset⟩ := split_setStage hw stage'
  rw [hset, hworkers, List.filterMap_append, List.filterMap_append, List.filterMap_cons,
    List.filterMap_cons, howed]

theorem owed_relayed {i : Nat} {task : Task} {frames : List (Bytes × Bool)}
    (hw : s.workers[i]? = some ⟨task, .sent frames⟩) :
    (s.workers.filterMap Worker.owed).Perm
      (task :: (s.setStage i task .relayed).workers.filterMap Worker.owed) := by
  obtain ⟨pre, post, hworkers, -, hset⟩ := split_setStage hw .relayed
  rw [hset, hworkers, List.filterMap_append, List.filterMap_append]
  exact List.perm_middle

theorem framed_step (hs : ∀ x ∈ s.workers, x.Framed) (h : Stepped w s a t) : ∀ x ∈ t.workers, x.Framed := by
  have hset : ∀ {i : Nat} {task : Task} {stage : Stage task.op.type}, Worker.Framed ⟨task, stage⟩ →
      ∀ x ∈ (s.setStage i task stage).workers, x.Framed := by
    intro i task stage hframed x hx
    rcases List.mem_or_eq_of_mem_set hx with hx | rfl
    · exact hs x hx
    · exact hframed
  cases h with
  | checkSet | checkUnset | query | replace | timer | noRelay | handle | handleStop | noHandle =>
    exact hs
  | relay hpc hw => exact hset trivial
  | take hque hfree =>
    intro x hx
    rcases List.mem_append.1 hx with hx | hx
    · exact hs x hx
    · obtain rfl := List.mem_singleton.1 hx
      trivial
  | exec hw hx => exact hset trivial
  | address hw => exact hset ⟨_, _, rfl⟩
  | store hw =>
    have hframed := hs _ (List.mem_of_getElem? hw)
    exact hset hframed
  | send hw =>
    have hframed := hs _ (List.mem_of_getElem? hw)
    exact hset hframed

theorem typed_of_received (h : s.received.map Task.request = s.svc.log.filterMap (Event.request w.toEnv)) :
    ∀ task ∈ s.received, task.op.Typed := by
  intro task htask
  have hmem : task.request ∈ s.svc.log.filterMap (Event.request w.toEnv) := by
    rw [← h]
    exact List.mem_map_of_mem htask
  obtain ⟨e, -, he⟩ := List.mem_filterMap.1 hmem
  cases e with
  | parsed u req =>
    obtain ⟨⟨op, id⟩, hop, heq⟩ := Option.map_eq_some_iff.1 he
    obtain rfl : op = task.op := congrArg (·.2.1) heq
    cases req with
    | query reqid eletype fs =>
      obtain ⟨t, ht, heq⟩ := Option.map_eq_some_iff.1 hop
      have hop : .onQryBySql t (queryText w.beyond eletype fs) eletype = task.op := congrArg Prod.fst heq
      rw [← hop]
      exact EElementType.ofInt?_eq_some ht
    | delByCol reqid eletype fs =>
      obtain ⟨t, ht, heq⟩ := Option.map_eq_some_iff.1 hop
      have hop : .onDelBySql t (deleteText w.beyond eletype fs) eletype = task.op := congrArg Prod.fst heq
      rw [← hop]
      trivial
    | byObjects op reqid t objVec =>
      have hop : .onByObjects op t objVec = task.op := congrArg Prod.fst (Option.some.inj hop)
      rw [← hop]
      trivial
    | _ => cases hop
  | _ => cases he

/-! ## The balance -/

/-- The responses among the messages sent. -/
def responsesOf (out : List (Str × ServerMsg)) : List ReqResponse := out.filterMap fun p => p.2.response

/-- A response to a keep-alive names no request and rejects it. -/
def Unasked (rsp : ReqResponse) : Prop :=
  rsp.RequestID = 0 ∧
    (rsp.ErrorID = EResponseErrType.TIdentifyErr.toInt ∨ rsp.ErrorID = EResponseErrType.TMultiLogin.toInt)

/-- Of the messages `issued` the service has handled those of `done`, and has sent `out`. -/
structure Balanced (issued : List Issued) (s : Live) (out : List (Str × ServerMsg))
    (done left : List Issued) : Prop where
  issued_eq : issued = done ++ left
  cur : s.poll.sock.cur = []
  next : s.poll.sock.next = left.map Issued.message
  polling : s.pc ≠ .halted
  sent : s.svc.sent = out.flatMap fun p => p.2.sent p.1
  keys : (((responsesOf out).filter fun rsp => !rsp.isKeepAlive).map ReqResponse.key ++
    s.pending.map Task.key).Perm (done.filterMap Issued.key)
  unasked : ∀ rsp ∈ responsesOf out, rsp.isKeepAlive = true → Unasked rsp
  count : ((responsesOf out).filter ReqResponse.isKeepAlive).length ≤ (done.filter Issued.isKeepAlive).length

/-- A step sends the messages `out'` and handles those of `cs`. -/
structure Handles (s t : Live) (out' : List (Str × ServerMsg)) (cs left' : List Issued) : Prop where
  cur : t.poll.sock.cur = []
  next : t.poll.sock.next = left'.map Issued.message
  polling : t.pc ≠ .halted
  sent : Sends s.svc t.svc out'
  keys : (((responsesOf out').filter fun rsp => !rsp.isKeepAlive).map ReqResponse.key ++
    t.pending.map Task.key).Perm (s.pending.map Task.key ++ cs.filterMap Issued.key)
  unasked : ∀ rsp ∈ responsesOf out', rsp.isKeepAlive = true → Unasked rsp
  count : ((responsesOf out').filter ReqResponse.isKeepAlive).length ≤ (cs.filter Issued.isKeepAlive).length

theorem Balanced.handles {issued done cs left' : List Issued} {out out' : List (Str × ServerMsg)}
    (hs : Balanced issued s out done (cs ++ left')) (h : Handles s t out' cs left') :
    Balanced issued t (out ++ out') (done ++ cs) left' where
  issued_eq := by rw [hs.issued_eq, List.append_assoc]
  cur := h.cur
  next := h.next
  polling := h.polling
  sent := by rw [h.sent, hs.sent, List.flatMap_append]
  keys := by
    rw [responsesOf, List.filterMap_append, List.filter_append, List.map_append, List.append_assoc,
      List.filterMap_append]
    refine (h.keys.append_left _).trans ?_
    rw [← List.append_assoc]
    exact hs.keys.append_right _
  unasked := by
    intro rsp hrsp
    rw [responsesOf, List.filterMap_append] at hrsp
    exact (List.mem_append.1 hrsp).elim (hs.unasked rsp) (h.unasked rsp)
  count := by
    rw [responsesOf, List.filterMap_append, List.filter_append, List.filter_append, List.length_append,
      List.length_append]
    exact Nat.add_le_add hs.count h.count

theorem handles_quiet {out' : List (Str × ServerMsg)} {left : List Issued} (hcur : s.poll.sock.cur = [])
    (hnext : s.poll.sock.next = left.map Issued.message) (hsock : t.poll.sock = s.poll.sock)
    (hpc : t.pc ≠ .halted) (hsent : Sends s.svc t.svc out') (hout : responsesOf out' = [])
    (hpending : t.pending = s.pending) : Handles s t out' [] left where
  cur := by rw [hsock, hcur]
  next := by rw [hsock, hnext]
  polling := hpc
  sent := hsent
  keys := by simp [hout, hpending]
  unasked := by simp [hout]
  count := by simp [hout]

theorem handles_answered {router : Str} {msg : ServerMsg} {rsp : ReqResponse} {id : CInt}
    {cmd : ECommandType} {cs left' : List Issued} (hcur : t.poll.sock.cur = [])
    (hnext : t.poll.sock.next = left'.map Issued.message) (hpc : t.pc ≠ .halted)
    (hsent : Sends s.svc t.svc [(router, msg)]) (hrsp : msg.response = some rsp)
    (hkey : rsp.key = (id, cmd.toInt)) (hcmd : cmd ≠ .TKeepAlive)
    (hkeys : ((id, cmd.toInt) :: t.pending.map Task.key).Perm
      (s.pending.map Task.key ++ cs.filterMap Issued.key)) :
    Handles s t [(router, msg)] cs left' := by
  have hout : responsesOf [(router, msg)] = [rsp] := List.filterMap_cons_some hrsp
  have hka : rsp.isKeepAlive = false := by
    have hcmdType : rsp.CmdType = cmd.toInt := congrArg Prod.snd hkey
    rw [ReqResponse.isKeepAlive, hcmdType]
    exact decide_eq_false fun h => hcmd (ECommandType.toInt_injective h)
  refine ⟨hcur, hnext, hpc, hsent, ?_, ?_, ?_⟩
  · simpa [hout, hka, hkey] using hkeys
  · simp [hout, hka]
  · simp [hout, hka]

/-- The handling of the first message. -/
theorem handles_onReadable {issued done left : List Issued} {out : List (Str × ServerMsg)}
    (hs : Balanced issued s out done left) (hnext : s.poll.sock.next ≠ []) :
    ∃ (p : Proc Service) (out' : List (Str × ServerMsg)) (c : Issued) (left' : List Issued),
      left = c :: left' ∧ (onReadable w.toEnv).run s.poll = .ok () p ∧
        Handles s { s with poll := p, pc := .check } out' [c] left' := by
  cases left with
  | nil => exact absurd hs.next hnext
  | cons c left' =>
    have hpoll : s.poll = ⟨s.svc, ⟨[], c.message :: left'.map Issued.message, s.poll.sock.overreads⟩⟩ := by
      rw [← hs.cur, ← List.map_cons (f := Issued.message), ← hs.next]
    cases c with
    | call m rq dealer r success typed =>
      obtain ⟨s', hrun, hserves⟩ := run_onReadable_call w.toEnv r (rq.call m).manager.strIdentity s.svc
        (left'.map Issued.message) s.poll.sock.overreads typed
      have hrun := (congrArg (onReadable w.toEnv).run hpoll).trans hrun
      cases hserves with
      | @answered router rsp hsent hque hkey =>
        refine ⟨_, _, _, left', rfl, hrun,
          handles_answered rfl rfl nofun hsent rfl hkey rq.cmd_ne_keepAlive ?_⟩
        rw [pending, hque]
        exact (List.perm_append_singleton (rq.nRequestId, rq.cmd.toInt) _).symm
      | @submitted task hsent hque hkey =>
        refine ⟨_, [], _, left', rfl, hrun, rfl, rfl, nofun, ?_, ?_, nofun, Nat.zero_le _⟩
        · exact hsent.trans (Sends.refl s.svc)
        · rw [pending, pending, hque, ← List.append_assoc, List.map_append, List.map_singleton, hkey]
          exact List.Perm.refl _
    | keepAlive m dealer r =>
      obtain ⟨s', hrun, hque, hsent⟩ := run_onReadable_keepAlive w.toEnv r m.strIdentity s.svc
        (left'.map Issued.message) s.poll.sock.overreads
      have hrun := (congrArg (onReadable w.toEnv).run hpoll).trans hrun
      rcases hsent with hsent | ⟨err, msg, herr, hsent⟩
      · refine ⟨_, [], _, left', rfl, hrun, rfl, rfl, nofun, ?_, ?_, nofun, Nat.zero_le _⟩
        · exact hsent.trans (Sends.refl s.svc)
        · rw [pending, pending, hque]
          exact List.Perm.of_eq (List.append_nil _).symm
      · refine ⟨_, _, _, left', rfl, hrun, rfl, rfl, nofun, hsent, ?_, ?_, ?_⟩
        · rw [pending, pending, hque]
          exact List.Perm.of_eq (List.append_nil _).symm
        · intro rsp hrsp hka
          obtain rfl := List.mem_singleton.1 hrsp
          exact ⟨rfl, herr.imp (congrArg EResponseErrType.toInt) (congrArg EResponseErrType.toInt)⟩
        · exact Nat.le_refl 1

theorem step_handles {issued done left : List Issued} {out : List (Str × ServerMsg)}
    (hs : Balanced issued s out done left) (hframed : ∀ x ∈ s.workers, x.Framed)
    (htyped : ∀ task ∈ s.received, task.op.Typed) (h : Stepped w s a t) :
    ∃ out' cs left', left = cs ++ left' ∧ Handles s t out' cs left' := by
  have hquiet : t.poll.sock = s.poll.sock → t.pc ≠ .halted → t.svc.sent = s.svc.sent →
      t.pending = s.pending → ∃ out' cs left', left = cs ++ left' ∧ Handles s t out' cs left' := by
    intro hsock hpc hsent hpending
    exact ⟨[], [], left, rfl, handles_quiet hs.cur hs.next hsock hpc
      (hsent.trans (Sends.refl s.svc)) rfl hpending⟩
  have hstage : ∀ {i : Nat} {task : Task} {stage stage' : Stage task.op.type},
      s.workers[i]? = some ⟨task, stage⟩ → Worker.owed ⟨task, stage'⟩ = Worker.owed ⟨task, stage⟩ →
      (s.setStage i task stage').workers.filterMap Worker.owed ++ s.svc.queTask = s.pending :=
    fun hw howed => congrArg (· ++ _) (owed_setStage hw howed)
  cases h with
  | checkSet | checkUnset | query | replace | noRelay | noHandle => exact hquiet rfl nofun rfl rfl
  | timer hpc =>
    obtain ⟨out', hsent, hpush⟩ := sends_checkTimer w.toEnv s.svc
    have hout : responsesOf out' = [] := by
      refine List.filterMap_eq_nil_iff.2 fun p hp => ?_
      rw [hpush p hp, ServerMsg.response]
    refine ⟨out', [], left, rfl, handles_quiet hs.cur hs.next rfl nofun hsent hout ?_⟩
    exact congrArg (_ ++ ·) (sameCache_checkTimer w.toEnv s.svc).queTask
  | @relay hpc i dealer task frames hw =>
    have hmem : (⟨task, .sent frames⟩ : Worker) ∈ s.workers := List.mem_of_getElem? hw
    have hreceived : task ∈ s.received := List.mem_append_left _ (List.mem_map.2 ⟨_, hmem, rfl⟩)
    obtain ⟨router, r, hframes⟩ := hframed _ hmem
    have hframes : frames = task.op.answer router task.requestId r := hframes
    obtain ⟨msg, hmsg, rsp, hrsp, hkey⟩ := relayed_answer (htyped task hreceived) dealer router task.requestId r
    refine ⟨[(router, msg)], [], left, rfl, handles_answered (s := s) hs.cur hs.next nofun ?_ hrsp hkey
      task.op.cmd_ne_keepAlive ?_⟩
    · rw [Sends, List.flatMap_singleton, ← hmsg, ← hframes]
      exact sent_relayMsg dealer frames s.svc
    · have hque := (sameCache_relayMsg dealer frames s.svc).queTask
      have howed := ((owed_relayed hw).append_right s.svc.queTask).map Task.key
      rw [List.filterMap_nil, List.append_nil]
      refine List.Perm.trans (List.Perm.of_eq ?_) howed.symm
      exact congrArg (fun q => (task :: ((s.setStage i task .relayed).workers.filterMap Worker.owed ++ q)).map
        Task.key) hque
  | handle hpc hnext hrun =>
    obtain ⟨p, out', c, left', hleft, hp, hh⟩ := handles_onReadable hs hnext
    rw [hrun] at hp
    obtain rfl := congrArg final hp
    exact ⟨out', [c], left', hleft, hh⟩
  | handleStop hpc hnext hrun =>
    obtain ⟨p, out', c, left', hleft, hp, hh⟩ := handles_onReadable hs hnext
    rw [hrun] at hp
    cases hp
  | @take task ts hque hfree =>
    refine hquiet rfl hs.polling rfl ?_
    rw [pending, pending, hque, List.filterMap_append, List.append_assoc]
    rfl
  | exec hw hx => exact hquiet rfl hs.polling rfl (hstage hw rfl)
  | address hw => exact hquiet rfl hs.polling rfl (hstage hw rfl)
  | store hw => exact hquiet rfl hs.polling rfl (hstage hw rfl)
  | send hw => exact hquiet rfl hs.polling rfl (hstage hw rfl)

theorem balanced_run {issued : List Issued} {db : Database} {as : List LiveAction}
    (h : run (Live.step w) (init w db (issued.flatMap Issued.delivered)) as = some t) :
    ∃ out done left, Balanced issued t out done left := by
  have hdelivered : ∀ cs : List Issued, cs.flatMap Issued.delivered = cs.map Issued.message := by
    intro cs
    induction cs with
    | nil => rfl
    | cons c cs ih => rw [List.flatMap_cons, ih, c.delivered_eq, List.map_cons, List.singleton_append]
  refine (run_invariant (I := fun s => (∃ out done left, Balanced issued s out done left) ∧
    (∀ x ∈ s.workers, x.Framed) ∧
    s.received.map Task.request = s.svc.log.filterMap (Event.request w.toEnv)) ?_ ?_ h).1
  · rintro s a t ⟨⟨out, done, left, hs⟩, hframed, hreceived⟩ ht
    have ht := step_stepped ht
    obtain ⟨out', cs, left', rfl, hh⟩ := step_handles hs hframed (typed_of_received hreceived) ht
    obtain ⟨ts, hts, hlog⟩ := step_received ht
    refine ⟨⟨_, _, _, hs.handles hh⟩, framed_step hframed ht, ?_⟩
    rw [hts, hlog, List.map_append, hreceived]
  · refine ⟨⟨[], [], issued, rfl, rfl, hdelivered issued, nofun, rfl, List.Perm.refl _, nofun, le_refl _⟩,
      fun x hx => ?_, rfl⟩
    cases hx

theorem assemble_sent (out : List (Str × ServerMsg)) :
    assemble [] (out.flatMap fun p => p.2.sent p.1) = out.map fun p => p.1 :: p.2.frames := by
  have hsent : (fun p : Str × ServerMsg => p.2.sent p.1) = fun p => flagged (p.1 :: p.2.frames) :=
    funext fun p => sent_eq_flagged p.1 p.2
  have hne : ∀ fs ∈ out.map (fun p => p.1 :: p.2.frames), fs ≠ [] := by
    rintro fs hfs rfl
    obtain ⟨p, -, hp⟩ := List.mem_map.1 hfs
    cases hp
  have h := assemble_flatMap_flagged _ hne
  rw [List.flatMap_map] at h
  rw [hsent, h]

theorem Balanced.responses_eq {issued done left : List Issued} {out : List (Str × ServerMsg)}
    (hs : Balanced issued s out done left) : s.svc.responses = responsesOf out := by
  rw [Service.responses, hs.sent, assemble_sent, List.filterMap_map]
  exact List.filterMap_congr fun p _ => ServerMsg.response?_frames p.1 p.2

/-- The answers, when the messages of `done` have been handled. -/
structure Answered (w : World) (s : Live) (done : List Issued) : Prop where
  /-- each request has one response, with its request id and command, or its task still owes it -/
  once : ((s.svc.responses.filter fun rsp => !rsp.isKeepAlive).map ReqResponse.key ++
    s.pending.map Task.key).Perm (done.filterMap Issued.key)
  /-- the other responses reject keep-alives -/
  unasked : ∀ rsp ∈ s.svc.responses, rsp.isKeepAlive = true → Unasked rsp
  count : (s.svc.responses.filter ReqResponse.isKeepAlive).length ≤ (done.filter Issued.isKeepAlive).length
  /-- a manager completes the request of a response once, and none for a push -/
  completes : ∀ fs ∈ assemble [] s.svc.sent, ∀ m : DispatcherManager, m.stateMachine = .StatInit →
    ∃ m' cs, recvFrames w.toEnv m (flagged fs.tail) = some (m', cs) ∧ m'.stateMachine = .StatInit ∧
      cs.filterMap Call.completes = (response? fs).toList.map ReqResponse.RequestID

end

/-! ## Two logins -/

def amyLogsIn (r : String) (id : CInt) : Issued :=
  .call amyManager (.login (text "amy") id) [] (text r) rfl rfl

/-- She logs in and inserts `bob`. -/
def insertBob : List Issued :=
  [amyLogsIn "r1" 7, .call amyManager amyInserts [] (text "r1") rfl rfl]

/-- The task is done and its message passed on. -/
def insertBobDone : List LiveAction :=
  [.check, .query, .replace, .timer, .noRelay, .handle, .check, .timer, .noRelay, .handle, .take,
    .exec 0 allSucceeds, .address 0, .store 0, .send 0, .check, .query, .replace, .timer, .relay 0 []]

theorem insertBobDone_isSome : (run (step plainWorld)
    (init plainWorld (managersNamed ["amy"]) (insertBob.flatMap Issued.delivered)) insertBobDone).isSome := by
  decide +kernel

def bobInserted : Live := Option.get _ insertBobDone_isSome

/-- Two seconds go by between readings of the clock. -/
def slowWorld : World := { plainWorld with clock := fun n => n * 2000000000 }

/-- A logout and a login from elsewhere; the first place answers the push that it had between them. -/
def secondPlace : List Issued :=
  [amyLogsIn "r1" 7, .call amyManager (.logout 8) [] (text "r1") rfl rfl, amyLogsIn "r2" 9,
    .keepAlive amyManager [] (text "r1")]

/-- Until the second login is to be handled. -/
def firstPlace : List LiveAction :=
  [.check, .query, .replace, .timer, .noRelay, .handle, .check, .timer, .noRelay, .handle, .check, .timer,
    .noRelay]

def bothPlaces : List LiveAction := firstPlace ++ [.handle, .check, .timer, .noRelay, .handle]

theorem firstPlace_isSome : (run (step slowWorld)
    (init slowWorld (managersNamed ["amy"]) (secondPlace.flatMap Issued.delivered)) firstPlace).isSome := by
  decide +kernel

theorem bothPlaces_isSome : (run (step slowWorld)
    (init slowWorld (managersNamed ["amy"]) (secondPlace.flatMap Issued.delivered)) bothPlaces).isSome := by
  decide +kernel

def pushed : Live := Option.get _ firstPlace_isSome

def movedOn : Live := Option.get _ bothPlaces_isSome

end Live

end CppLinuxLearn.Deployer
