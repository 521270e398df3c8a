import CppLinuxLearn.Deployer.Manager
import CppLinuxLearn.Lib.Steps

/-!
# Who the manager says it is

Every message of a manager begins with `m_strIdentity`, and this is set when a login is asked for. The
answer is handed to a callback that does nothing with it: so a message carries the identity of the last
login that was asked for, whatever the answer.
-/

namespace CppLinuxLearn.Deployer

open Lib Steps

/-! ## Runs of a manager -/

inductive ManagerEvent
  /-- a login request was sent -/
  | login (strid : Str) (nRequestId : CInt)
  /-- another message was sent -/
  | sent (frames : List (Bytes × Bool))
  | called (c : Call)
deriving DecidableEq

structure ManagerRun where
  manager : DispatcherManager
  log : List ManagerEvent

inductive ManagerAction
  | ReqLogin (strid : Str) (nRequestId : CInt)
  | ReqLogout (nRequestId : CInt)
  | ReqQryByColumnFilter (filterVec : List ColumnFilter) (eleType nRequestId : CInt)
  | ReqDelByColumnFilter (filterVec : List ColumnFilter) (eleType nRequestId : CInt)
  | ReqInsUpdDelByEletype (t : EElementType) (eleVec : List t.Struct) (eleType nRequestId : CInt)
    (cmd : ECommandType)
  | ReqDeployExecuteFinish (depGrpVec : List DeployGroup) (nRequestId actType cmd₀ : CInt)
  | on_event_connected
  | on_event_disconnected
  | recvHandle (data : Bytes) (bLast : Bool)

def Call.event : Call → ManagerEvent
  | keepAlive frames => .sent frames
  | c => .called c

namespace ManagerRun

/-- The members that have no initial value are those of `m`. -/
def new (m : DispatcherManager) : ManagerRun :=
  ⟨{ m with strIdentity := [], connected := false, stateMachine := .StatInit,
            recvCmd := ECommandType.TNullCmd.toInt }, []⟩

def requested (s : ManagerRun) (r : Requested) : ManagerRun :=
  ⟨r.manager, s.log ++ if r.frames = [] then [] else [.sent r.frames]⟩

def step (env : Env) (s : ManagerRun) : ManagerAction → Option ManagerRun
  | .ReqLogin strid id =>
    let r := s.manager.ReqLogin strid id
    some ⟨r.manager, s.log ++ if r.ret = ERROR_SUCCESS then [.login strid id] else []⟩
  | .ReqLogout id => some (s.requested (s.manager.ReqLogout id))
  | .ReqQryByColumnFilter fs eleType id => some (s.requested (s.manager.ReqQryByColumnFilter fs eleType id))
  | .ReqDelByColumnFilter fs eleType id => some (s.requested (s.manager.ReqDelByColumnFilter fs eleType id))
  | .ReqInsUpdDelByEletype _ xs eleType id cmd =>
    some (s.requested (s.manager.ReqInsUpdDelByEletype xs eleType id cmd))
  | .ReqDeployExecuteFinish xs id actType cmd₀ =>
    some (s.requested (s.manager.ReqDeployExecuteFinish xs id actType cmd₀))
  | .on_event_connected => some { s with manager := { s.manager with connected := true } }
  | .on_event_disconnected => some { s with manager := { s.manager with connected := false } }
  | .recvHandle data bLast =>
    (recvHandle env s.manager data bLast).map fun p => ⟨p.1, s.log ++ p.2.map Call.event⟩

end ManagerRun

/-! ## Identities -/

/-- The message begins with this identity. -/
def Carries (u : Str) (frames : List (Bytes × Bool)) : Prop := frames.head? = some (u, true)

instance (u : Str) (frames : List (Bytes × Bool)) : Decidable (Carries u frames) :=
  inferInstanceAs (Decidable (_ = _))

/-- The identity of the last login that was asked for. -/
def asked (log : List ManagerEvent) : Option Str :=
  log.foldl (fun u e => match e with | .login v _ => some v | _ => u) none

/-- The identity of the last login that succeeded, if no logout has succeeded since. The requests are
known by their ids. -/
def granted (log : List ManagerEvent) : Option Str :=
  (log.foldl (fun p e => match e with
    | .login v id => ((id, v) :: p.1, p.2)
    | .called (.onRsp .OnRspLogin rsp id) =>
      if rsp.ErrorID = EResponseErrType.TSuccess.toInt then (p.1, p.1.lookup id) else p
    | .called (.onRsp .OnRspLogout rsp _) =>
      if rsp.ErrorID = EResponseErrType.TSuccess.toInt then (p.1, none) else p
    | _ => p) (([] : List (CInt × Str)), none)).2

/-- The event is a message that begins with this identity, or none that is sent. -/
def ManagerEvent.Says (u : Str) : ManagerEvent → Prop
  | login _ _ => False
  | sent frames => Carries u frames
  | called _ => True

section
variable {env : Env} {m m' : DispatcherManager} {s t : ManagerRun} {u : Str}

/-- Nothing but a login changes the identity, and what is sent carries it. -/
structure Requested.Keeps (r : Requested) (u : Str) : Prop where
  identity : r.manager.strIdentity = u
  carries : r.frames ≠ [] → Carries u r.frames

theorem keeps_refuse (ret : Int) : (m.refuse ret).Keeps m.strIdentity := ⟨rfl, fun h => absurd rfl h⟩

theorem keeps_send (fs : List (Bytes × Bool)) :
    (⟨ERROR_SUCCESS, m, send m.strIdentity false :: fs⟩ : Requested).Keeps m.strIdentity :=
  ⟨rfl, fun _ => rfl⟩

theorem keeps_logout (id : CInt) : (m.ReqLogout id).Keeps m.strIdentity := by
  unfold DispatcherManager.ReqLogout
  split
  · exact keeps_refuse _
  · exact keeps_send _

theorem keeps_byColumnFilter (cmd : ECommandType) (fs : List ColumnFilter) (eleType id : CInt) :
    (m.reqByColumnFilter cmd fs eleType id).Keeps m.strIdentity := by
  unfold DispatcherManager.reqByColumnFilter
  split
  · exact keeps_refuse _
  · exact keeps_send _

theorem keeps_insUpdDel {T : Type} [Pod T] (xs : List T) (eleType id : CInt) (cmd : ECommandType) :
    (m.ReqInsUpdDelByEletype xs eleType id cmd).Keeps m.strIdentity := by
  unfold DispatcherManager.ReqInsUpdDelByEletype
  split
  · exact keeps_refuse _
  · split
    · exact keeps_refuse _
    · exact keeps_send _

theorem keeps_deploy (xs : List DeployGroup) (id actType cmd₀ : CInt) :
    (m.ReqDeployExecuteFinish xs id actType cmd₀).Keeps m.strIdentity := by
  unfold DispatcherManager.ReqDeployExecuteFinish
  split
  · exact keeps_refuse _
  · exact keeps_send _

theorem says_onMsgPush (u : Str) (cmd : CInt) : ∀ c ∈ onMsgPush u cmd, c.event.Says u := by
  intro c hc
  unfold onMsgPush at hc
  split at hc
  · rw [List.mem_singleton.1 hc]
    exact (rfl : Carries u (send u false :: _))
  · cases hc

theorem says_onReqRspEle (u : Str) (rsp : ReqResponse) (eleType : CInt) (data : Option Bytes) (bLast : Bool) :
    ∀ c ∈ onReqRspEle env rsp eleType data bLast, c.event.Says u := by
  intro c hc
  unfold onReqRspEle at hc
  split at hc
  · rw [List.mem_singleton.1 hc]
    exact trivial
  · cases hc

theorem keeps_recvHandle {data : Bytes} {bLast : Bool} {cs : List Call}
    (h : recvHandle env m data bLast = some (m', cs)) :
    m'.strIdentity = m.strIdentity ∧ m'.connected = m.connected ∧ ∀ c ∈ cs, c.event.Says m.strIdentity := by
  unfold recvHandle at h
  split at h
  · obtain ⟨-, h⟩ := Option.ite_none_left_eq_some.1 h
    cases h
    exact ⟨by split <;> rfl, by split <;> rfl, List.forall_mem_nil _⟩
  · split at h
    · obtain ⟨-, h⟩ := Option.ite_none_left_eq_some.1 h
      split at h
      · cases h
        refine ⟨rfl, rfl, fun c hc => ?_⟩
        rw [List.mem_singleton.1 hc]
        exact trivial
      · cases h
        exact ⟨rfl, rfl, List.forall_mem_nil _⟩
    · obtain ⟨-, h⟩ := Option.ite_none_left_eq_some.1 h
      split at h
      · cases h
        exact ⟨rfl, rfl, says_onMsgPush m.strIdentity _⟩
      · cases h
        exact ⟨rfl, rfl, List.forall_mem_nil _⟩
  · obtain ⟨-, h⟩ := Option.ite_none_left_eq_some.1 h
    cases h
    exact ⟨rfl, rfl, List.forall_mem_nil _⟩
  · obtain ⟨-, h⟩ := Option.ite_none_left_eq_some.1 h
    split at h
    · cases h
      exact ⟨rfl, rfl, says_onReqRspEle m.strIdentity _ _ _ _⟩
    · cases h
      exact ⟨rfl, rfl, List.forall_mem_nil _⟩
  · have hkeep : (if bLast then { m with stateMachine := .StatInit } else m).strIdentity = m.strIdentity := by
      split <;> rfl
    have hconn : (if bLast then { m with stateMachine := .StatInit } else m).connected = m.connected := by
      split <;> rfl
    simp only at h
    generalize (if bLast then { m with stateMachine := .StatInit } else m) = m₁ at hkeep hconn h
    split at h
    · cases h
      exact ⟨hkeep, hconn, says_onReqRspEle m.strIdentity _ _ _ _⟩
    · cases h
      exact ⟨hkeep, hconn, List.forall_mem_nil _⟩

/-! ## The invariant -/

/-- The manager has the identity that was asked for last, and each message carried what was asked for
before it. -/
structure ManagerRun.Asked (s : ManagerRun) : Prop where
  identity : s.manager.strIdentity = (asked s.log).getD []
  carries : Always (fun pre e => ∀ frames, e = .sent frames → Carries ((asked pre).getD []) frames) s.log

theorem asked_append {es : List ManagerEvent} (hes : ∀ v id, .login v id ∉ es) (log : List ManagerEvent) :
    asked (log ++ es) = asked log := by
  unfold asked
  rw [List.foldl_append]
  generalize List.foldl _ none log = u
  induction es generalizing u with
  | nil => rfl
  | cons e es ih =>
    have hes' := fun v id h => hes v id (List.mem_cons_of_mem e h)
    cases e with
    | login v id => exact absurd List.mem_cons_self (hes v id)
    | sent frames => exact ih hes' u
    | called c => exact ih hes' u

theorem ManagerRun.Asked.extend {m' : DispatcherManager} (hs : s.Asked) {es : List ManagerEvent}
    (hm : m'.strIdentity = s.manager.strIdentity) (hes : ∀ e ∈ es, e.Says s.manager.strIdentity) :
    ManagerRun.Asked ⟨m', s.log ++ es⟩ := by
  have hnone : ∀ v id, .login v id ∉ es := fun v id h => hes _ h
  refine ⟨hm.trans (hs.identity.trans (congrArg (·.getD []) (asked_append hnone _).symm)), ?_⟩
  induction es using List.reverseRecOn with
  | nil => exact (List.append_nil s.log).symm ▸ hs.carries
  | append_singleton es e ih =>
    have hes' := fun e' he' => hes e' (List.mem_append_left _ he')
    have hnone' : ∀ v id, .login v id ∉ es := fun v id h => hnone v id (List.mem_append_left _ h)
    rw [← List.append_assoc, always_concat]
    refine ⟨ih hes' hnone', ?_⟩
    rintro frames rfl
    rw [asked_append hnone', ← hs.identity]
    exact hes (.sent frames) (List.mem_append_right _ (List.mem_singleton_self _))

theorem ManagerRun.Asked.requested (hs : s.Asked) {r : Requested} (hr : r.Keeps s.manager.strIdentity) :
    (s.requested r).Asked := by
  refine hs.extend hr.identity fun e he => ?_
  split at he
  · cases he
  · rename_i hne
    exact List.mem_singleton.1 he ▸ hr.carries hne

theorem ManagerRun.Asked.step {a : ManagerAction} (hs : s.Asked) (h : s.step env a = some t) : t.Asked := by
  cases a with
  | ReqLogin strid id =>
    cases h
    unfold DispatcherManager.ReqLogin
    split
    · exact hs.extend rfl nofun
    · split
      · exact hs.extend rfl nofun
      · rw [if_pos rfl]
        refine ⟨?_, (always_concat _).2 ⟨hs.carries, nofun⟩⟩
        rw [asked, List.foldl_append]
        rfl
  | ReqLogout id =>
    obtain rfl := Option.some.inj h
    exact hs.requested (keeps_logout id)
  | ReqQryByColumnFilter fs eleType id =>
    obtain rfl := Option.some.inj h
    exact hs.requested (keeps_byColumnFilter .TQuery fs eleType id)
  | ReqDelByColumnFilter fs eleType id =>
    obtain rfl := Option.some.inj h
    exact hs.requested (keeps_byColumnFilter .TDelByCol fs eleType id)
  | ReqInsUpdDelByEletype ty xs eleType id cmd =>
    obtain rfl := Option.some.inj h
    exact hs.requested (keeps_insUpdDel xs eleType id cmd)
  | ReqDeployExecuteFinish xs id actType cmd₀ =>
    obtain rfl := Option.some.inj h
    exact hs.requested (keeps_deploy xs id actType cmd₀)
  | on_event_connected | on_event_disconnected =>
    obtain rfl := Option.some.inj h
    exact ⟨hs.identity, hs.carries⟩
  | recvHandle data bLast =>
    obtain ⟨⟨m', cs⟩, hrecv, h⟩ := Option.map_eq_some_iff.1 h
    obtain ⟨hm, -, hcs⟩ := keeps_recvHandle hrecv
    refine h ▸ hs.extend hm fun e he => ?_
    obtain ⟨c, hc, rfl⟩ := List.mem_map.1 he
    exact hcs c hc

theorem asked_login {pre mid : List ManagerEvent} {id : CInt} (hmid : ∀ v k, .login v k ∉ mid) :
    asked (pre ++ .login u id :: mid) = some u := by
  have hone : asked (pre ++ [.login u id]) = some u := by
    rw [asked, List.foldl_append]
    rfl
  rw [← List.singleton_append, ← List.append_assoc, asked_append hmid, hone]

end

namespace ManagerRun

theorem asked_new (m : DispatcherManager) : (new m).Asked := ⟨rfl, always_nil _⟩

/-- **What is sent carries the identity that was asked for last**, whatever is answered, pushed and
asked in between. -/
theorem carries_asked {env : Env} {m : DispatcherManager} {as : List ManagerAction} {s : ManagerRun}
    (h : run (step env) (new m) as = some s) {pre mid post : List ManagerEvent} {u : Str} {id : CInt}
    {frames : List (Bytes × Bool)} (hlog : s.log = pre ++ .login u id :: mid ++ .sent frames :: post)
    (hmid : ∀ v k, .login v k ∉ mid) : Carries u frames := by
  have hs : s.Asked := run_invariant (fun _ _ _ hs ht => hs.step ht) (asked_new m) h
  have hsent := hs.carries _ _ post hlog frames rfl
  rwa [asked_login hmid] at hsent

/-- A manager whose members all have values. -/
def someManager : DispatcherManager := ⟨[], false, .StatInit, 0, ⟨0, Vector.replicate 64 0, 0, 0⟩, 0, 0⟩

/-- The frames of a response without elements. -/
def response (err : EResponseErrType) (id : CInt) (cmd : ECommandType) : List ManagerAction :=
  [.recvHandle (bytes STCMsgPattern.TPassiveResponse.toInt) false,
    .recvHandle (bytes (⟨err.toInt, Vector.replicate 64 0, id, cmd.toInt⟩ : ReqResponse)) true]

/-- She logs in and answers a push. -/
def amyAnswers : List ManagerAction :=
  .on_event_connected :: .ReqLogin (text "amy") 1 :: response .TSuccess 1 .TLogin ++
    [.recvHandle (bytes STCMsgPattern.TActivePush.toInt) false,
      .recvHandle (bytes ECommandType.TKeepAlive.toInt) true]

theorem amyAnswers_log : (run (step default) (new someManager) amyAnswers).map log = some
    [.login (text "amy") 1,
      .called (.onRsp .OnRspLogin ⟨0, Vector.replicate 64 0, 1, ECommandType.TLogin.toInt⟩ 1),
      .sent [send (text "amy") false, send (bytes ECommandType.TKeepAlive.toInt) true]] := by
  decide +kernel

theorem carries_asked_amyAnswers : ∃ s frames, run (step default) (new someManager) amyAnswers = some s ∧
    s.log.getLast? = some (.sent frames) ∧ Carries (text "amy") frames := by
  obtain ⟨s, h, hlog⟩ := Option.map_eq_some_iff.1 amyAnswers_log
  have hsplit : s.log = [] ++ .login (text "amy") 1 :: [_] ++ .sent _ :: [] := hlog
  refine ⟨s, _, h, hlog ▸ rfl, carries_asked h hsplit ?_⟩
  exact fun _ _ hmem => nomatch List.mem_singleton.1 hmem

/-- `amy` is logged in, `bob` is refused, and a logout is asked for. -/
def bobRefused : List ManagerAction :=
  .on_event_connected :: .ReqLogin (text "amy") 1 :: response .TSuccess 1 .TLogin ++
    .ReqLogin (text "bob") 2 :: response .TIdentifyErr 2 .TLogin ++ [.ReqLogout 3]

theorem bobRefused_runs : (run (step default) (new someManager) bobRefused).map
    (fun s => (granted s.log.dropLast, s.log.getLast?)) = some (some (text "amy"),
      some (.sent [send (text "bob") false, send (bytes ECommandType.TLogout.toInt) false,
        send (bytes (3 : CInt)) true])) := by
  decide +kernel

theorem bobRefused_not_granted : ∃ s, run (step default) (new someManager) bobRefused = some s ∧
    ¬ Always (fun pre e => ∀ u frames, granted pre = some u → e = .sent frames → Carries u frames) s.log := by
  obtain ⟨s, h, hfields⟩ := Option.map_eq_some_iff.1 bobRefused_runs
  rw [Prod.mk.injEq] at hfields
  refine ⟨s, h, fun hall => ?_⟩
  have hlast := (List.dropLast_append_getLast? _ hfields.2).symm
  have hcarries := hall _ _ [] hlast _ _ hfields.1 rfl
  exact absurd hcarries (by decide +kernel)

end ManagerRun

end CppLinuxLearn.Deployer
