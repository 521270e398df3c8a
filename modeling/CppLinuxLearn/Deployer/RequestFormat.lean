import CppLinuxLearn.Deployer.Address
import CppLinuxLearn.Deployer.Manager

/-!
# Requests are read as they were sent

The frames of each request function of the manager make up one message, and `recvCmd` reads from it
the arguments of the call, to the last frame. `request_parsed` puts this at both ends of the
connection: in every reachable state, a request of a known client with the session it needs comes out
of `pollFunc` as it went in.
-/

namespace CppLinuxLearn.Deployer

open Lib Multipart Steps

/-! ## The calls -/

/-- A call of a request function, with its arguments. -/
inductive ManagerReq
  | login (strid : Str) (nRequestId : CInt)
  | logout (nRequestId : CInt)
  | qryByColumnFilter (filterVec : List ColumnFilter) (eleType nRequestId : CInt)
  | delByColumnFilter (filterVec : List ColumnFilter) (eleType nRequestId : CInt)
  | insUpdDel (op : DbOp) (t : EElementType) (eleVec : List t.Struct) (nRequestId : CInt)

/-- The command of a batch. -/
def DbOp.cmd : DbOp → ECommandType
  | ins => .TInsert
  | upd => .TUpdate
  | del => .TDelete

namespace ManagerReq

/-- The call is made. -/
def call (m : DispatcherManager) : ManagerReq → Requested
  | login strid id => m.ReqLogin strid id
  | logout id => m.ReqLogout id
  | qryByColumnFilter fs eleType id => m.ReqQryByColumnFilter fs eleType id
  | delByColumnFilter fs eleType id => m.ReqDelByColumnFilter fs eleType id
  | insUpdDel op t eleVec id => m.ReqInsUpdDelByEletype eleVec t.toInt id op.cmd

/-- The command of a call. -/
def cmd : ManagerReq → ECommandType
  | login _ _ => .TLogin
  | logout _ => .TLogout
  | qryByColumnFilter _ _ _ => .TQuery
  | delByColumnFilter _ _ _ => .TDelByCol
  | insUpdDel op _ _ _ => op.cmd

/-- The arguments of a call, as the service should have them. -/
def request : ManagerReq → Request
  | login _ id => .login id
  | logout id => .logout id
  | qryByColumnFilter fs eleType id => .query id eleType fs
  | delByColumnFilter fs eleType id => .delByCol id eleType fs
  | insUpdDel op t eleVec id => .byObjects op id t eleVec

/-- The frames behind the command. -/
def payload : ManagerReq → List Bytes
  | login _ id | logout id => [bytes id]
  | qryByColumnFilter fs eleType id | delByColumnFilter fs eleType id =>
    bytes id :: bytes eleType :: fs.flatMap fun f => [f.ColName, f.ColVal]
  | insUpdDel _ t eleVec id => bytes id :: bytes t.toInt :: eleVec.map bytes

/-- What the request functions ask of their arguments: the identity of a login and the vector of a batch are not
empty. -/
def NonEmpty : ManagerReq → Prop
  | login strid _ => strid ≠ []
  | insUpdDel _ _ eleVec _ => eleVec ≠ []
  | _ => True

theorem ret_call {m : DispatcherManager} {rq : ManagerReq} (hconn : m.connected = true) (hne : rq.NonEmpty) :
    (rq.call m).ret = ERROR_SUCCESS := by
  cases rq with
  | login strid id => simp [call, DispatcherManager.ReqLogin, show strid ≠ [] from hne, hconn]
  | insUpdDel op t eleVec id => simp [call, DispatcherManager.ReqInsUpdDelByEletype, show eleVec ≠ [] from hne, hconn]
  | logout id => simp [call, DispatcherManager.ReqLogout, hconn]
  | qryByColumnFilter fs eleType id =>
    simp [call, DispatcherManager.ReqQryByColumnFilter, DispatcherManager.reqByColumnFilter, hconn]
  | delByColumnFilter fs eleType id =>
    simp [call, DispatcherManager.ReqDelByColumnFilter, DispatcherManager.reqByColumnFilter, hconn]

end ManagerReq

/-! ## Sending -/

theorem more_eq {i n : Nat} (h : i < n) : (!(i == n - 1)) = decide (i + 1 < n) := by
  rw [Bool.eq_iff_iff]
  simp
  omega

theorem flags_byColumnFilter (fs : List ColumnFilter) :
    (fs.mapIdx fun i f => [send f.ColName false, send f.ColVal (i == fs.length - 1)]).flatten =
      flagged (fs.flatMap fun f => [f.ColName, f.ColVal]) := by
  have hpairs := flagged_pairs (fs.map fun f => (f.ColName, f.ColVal))
  rw [List.flatMap_map] at hpairs
  rw [hpairs]
  congr 1
  refine List.ext_getElem (by simp) fun i hi _ => ?_
  have hlt : i < fs.length := by simpa using hi
  simp [send, more_eq hlt]

theorem flags_objects {T : Type} [Pod T] (xs : List T) :
    (xs.mapIdx fun i x => send (bytes x) (i == xs.length - 1)) = flagged (xs.map bytes) := by
  rw [flagged_eq_mapIdx]
  refine List.ext_getElem (by simp) fun i hi _ => ?_
  have hlt : i < xs.length := by simpa using hi
  simp [send, more_eq hlt]

section
variable {m : DispatcherManager}

theorem frames_login {strid : Str} {id : CInt} (h : (m.ReqLogin strid id).ret = ERROR_SUCCESS) :
    (m.ReqLogin strid id).manager.strIdentity = strid ∧
      (m.ReqLogin strid id).frames = flagged [strid, bytes ECommandType.TLogin.toInt, bytes id] := by
  unfold DispatcherManager.ReqLogin at h ⊢
  split at h
  · cases h
  · split at h
    · cases h
    · rename_i hs hc
      rw [if_neg hs, if_neg hc]
      exact ⟨rfl, rfl⟩

theorem frames_logout {id : CInt} (h : (m.ReqLogout id).ret = ERROR_SUCCESS) :
    (m.ReqLogout id).manager = m ∧
      (m.ReqLogout id).frames = flagged [m.strIdentity, bytes ECommandType.TLogout.toInt, bytes id] := by
  unfold DispatcherManager.ReqLogout at h ⊢
  split at h
  · cases h
  · rename_i hc
    rw [if_neg hc]
    exact ⟨rfl, rfl⟩

theorem frames_byColumnFilter {cmd : ECommandType} {fs : List ColumnFilter} {eleType id : CInt}
    (h : (m.reqByColumnFilter cmd fs eleType id).ret = ERROR_SUCCESS) :
    (m.reqByColumnFilter cmd fs eleType id).manager = m ∧
      (m.reqByColumnFilter cmd fs eleType id).frames =
        flagged (m.strIdentity :: bytes cmd.toInt :: bytes id :: bytes eleType ::
          fs.flatMap fun f => [f.ColName, f.ColVal]) := by
  unfold DispatcherManager.reqByColumnFilter at h ⊢
  split at h
  · cases h
  · rename_i hc
    rw [if_neg hc]
    refine ⟨rfl, ?_⟩
    simp only [flags_byColumnFilter]
    cases fs with
    | nil => rfl
    | cons f fs =>
      have hne : ((f :: fs).flatMap fun f => [f.ColName, f.ColVal]) ≠ [] := by simp
      exact (flagged_append [m.strIdentity, bytes cmd.toInt, bytes id, bytes eleType] hne).symm

theorem frames_objects {T : Type} [Pod T] {xs : List T} {eleType id : CInt} {cmd : ECommandType}
    (h : (m.ReqInsUpdDelByEletype xs eleType id cmd).ret = ERROR_SUCCESS) :
    (m.ReqInsUpdDelByEletype xs eleType id cmd).manager = m ∧
      (m.ReqInsUpdDelByEletype xs eleType id cmd).frames =
        flagged (m.strIdentity :: bytes cmd.toInt :: bytes id :: bytes eleType :: xs.map bytes) := by
  unfold DispatcherManager.ReqInsUpdDelByEletype at h ⊢
  split at h
  · cases h
  · split at h
    · cases h
    · rename_i hx hc
      rw [if_neg hx, if_neg hc]
      have hne : xs.map bytes ≠ [] := by simpa using hx
      refine ⟨rfl, ?_⟩
      simp only [flags_objects]
      exact (flagged_append [m.strIdentity, bytes cmd.toInt, bytes id, bytes eleType] hne).symm

end

/-- **The frames of a call that succeeds make up one message**: identity, command, payload. -/
theorem frames_call {m : DispatcherManager} {rq : ManagerReq} (h : (rq.call m).ret = ERROR_SUCCESS) :
    (rq.call m).frames =
      flagged ((rq.call m).manager.strIdentity :: bytes rq.cmd.toInt :: rq.payload) := by
  cases rq with
  | login strid id =>
    obtain ⟨hm, hf⟩ := frames_login h
    exact hf.trans (by rw [ManagerReq.call, hm]; rfl)
  | logout id =>
    obtain ⟨hm, hf⟩ := frames_logout h
    exact hf.trans (by rw [ManagerReq.call, hm]; rfl)
  | qryByColumnFilter fs eleType id =>
    obtain ⟨hm, hf⟩ := frames_byColumnFilter h
    exact hf.trans (by rw [ManagerReq.call, DispatcherManager.ReqQryByColumnFilter, hm]; rfl)
  | delByColumnFilter fs eleType id =>
    obtain ⟨hm, hf⟩ := frames_byColumnFilter h
    exact hf.trans (by rw [ManagerReq.call, DispatcherManager.ReqDelByColumnFilter, hm]; rfl)
  | insUpdDel op t eleVec id =>
    obtain ⟨hm, hf⟩ := frames_objects h
    exact hf.trans (by rw [ManagerReq.call, hm]; rfl)

/-! ## Receiving -/

theorem run_recvCmd_payload (env : Env) (rq : ManagerReq) {σ : Type} (s : σ) (q : List Msg)
    (o : List (Bytes × Nat)) :
    (recvCmd env rq.cmd.toInt).run ⟨s, ⟨rq.payload, q, o⟩⟩ = .ok rq.request ⟨s, ⟨[], q, o⟩⟩ := by
  have hid : ∀ (x : CInt) fs, (recvPodObject env CInt).run ⟨s, ⟨bytes x :: fs, q, o⟩⟩ =
      .ok x ⟨s, ⟨fs, q, o⟩⟩ := fun x fs => by
    rw [run_recvPodObject env CInt s (bytes x) fs q o (length_bytes x), podAt_bytes]
  cases rq with
  | login strid id =>
    simp only [ManagerReq.cmd, recvCmd, ECommandType.ofInt?_toInt, ManagerReq.payload,
      EStateM.run_bind, hid, EStateM.run_pure, ManagerReq.request]
  | logout id =>
    simp only [ManagerReq.cmd, recvCmd, ECommandType.ofInt?_toInt, ManagerReq.payload,
      EStateM.run_bind, hid, EStateM.run_pure, ManagerReq.request]
  | qryByColumnFilter fs eleType id =>
    simp only [ManagerReq.cmd, recvCmd, ECommandType.ofInt?_toInt, ManagerReq.payload, recvFiltered,
      EStateM.run_bind, hid, run_recvColumnFilters, EStateM.run_pure, ManagerReq.request]
  | delByColumnFilter fs eleType id =>
    simp only [ManagerReq.cmd, recvCmd, ECommandType.ofInt?_toInt, ManagerReq.payload, recvFiltered,
      EStateM.run_bind, hid, run_recvColumnFilters, EStateM.run_pure, ManagerReq.request]
  | insUpdDel op t eleVec id =>
    have hobjs : (recvObjects env op).run ⟨s, ⟨bytes id :: bytes t.toInt :: eleVec.map bytes, q, o⟩⟩ =
        .ok (.byObjects op id t eleVec) ⟨s, ⟨[], q, o⟩⟩ := by
      simp only [recvObjects, EStateM.run_bind, hid, recvElements, EElementType.ofInt?_toInt,
        run_recvVecObject, EStateM.run_pure]
      simp [Function.comp_def]
    cases op <;> exact hobjs

/-- A message of a known identity is accepted if its session, if any, is from the same router, and is
there when the command needs it. -/
theorem verdict_of_session {s : Service} (hi : LoginInv s) {r u : Str} {cmd : CInt}
    (hu : s.identifyUser u = true) (hr : ∀ r', session s.log u = some r' → r' = r)
    (hc : cmd ≠ ECommandType.TLogin.toInt → session s.log u = some r) :
    verdict s r u cmd = .accepted := by
  rw [hi.session u] at hr hc
  simp only [verdict, hu, Bool.not_true, Bool.false_eq_true, if_false]
  cases hcl : s.client? u with
  | none =>
    have hlogin : cmd = ECommandType.TLogin.toInt := by
      by_contra hne
      simpa [hcl] using hc hne
    simp [hlogin]
  | some c =>
    simp only [hcl, Option.bind_some, DispatcherClient.session] at hr hc
    cases hb : c.bLogin with
    | true =>
      have hrouter := hr c.strRouter (by simp [hb])
      simp [hb, hrouter]
    | false =>
      have hlogin : cmd = ECommandType.TLogin.toInt := by
        by_contra hne
        simpa [hb] using hc hne
      simp [hb, hlogin]

/-- **A request is parsed back to what was asked.** In every reachable state of the service: a call of a
connected manager whose identity is known and, but for a login, logged in from this router, succeeds; its
frames arrive as one message; `recvCmd` reads the arguments of the call from it and leaves no frame; and the
iteration hands identity, command and arguments to `onRecvCmd` and stops at the next message. -/
theorem request_parsed (env : Env) (threads : Nat) (queue : List Msg) (as : List Action)
    (sys : System) (hrun : run (step env threads) (System.init env queue) as = some sys)
    (m : DispatcherManager) (rq : ManagerReq) (hconn : m.connected = true) (hne : rq.NonEmpty)
    (dealer r u : Str) (hu : (rq.call m).manager.strIdentity = u)
    (hknown : sys.svc.identifyUser u = true)
    (hr : ∀ r', session sys.svc.log u = some r' → r' = r)
    (hlogin : rq.cmd ≠ .TLogin → session sys.svc.log u = some r)
    (q : List Msg) (o : List (Bytes × Nat)) :
    (rq.call m).ret = ERROR_SUCCESS ∧
      ∃ payload, deliver dealer r (rq.call m).frames = [⟨r, u :: bytes rq.cmd.toInt :: payload⟩] ∧
      (∀ s : Service, (recvCmd env rq.cmd.toInt).run ⟨s, ⟨payload, q, o⟩⟩ =
        .ok rq.request ⟨s, ⟨[], q, o⟩⟩) ∧
      ∃ s es, (onReadable env).run ⟨sys.svc, ⟨[], deliver dealer r (rq.call m).frames ++ q, o⟩⟩ =
          .ok () ⟨s, ⟨[], q, o⟩⟩ ∧
        s.log = sys.svc.log ++ .reached u r rq.cmd.toInt :: .parsed u rq.request :: es := by
  have hi : LoginInv sys.svc := loginInv_run hrun
  have hret : (rq.call m).ret = ERROR_SUCCESS := ManagerReq.ret_call hconn hne
  have hmsg : deliver dealer r (rq.call m).frames =
      [⟨r, u :: bytes rq.cmd.toInt :: rq.payload⟩] := by
    rw [frames_call hret, hu, deliver_flagged _ _ (by simp)]
  refine ⟨hret, rq.payload, hmsg, fun s => run_recvCmd_payload env rq s q o, ?_⟩
  have hv : verdict sys.svc r u rq.cmd.toInt = .accepted :=
    verdict_of_session hi hknown hr fun hne => hlogin fun h => hne (congrArg _ h)
  obtain ⟨c, hc, haccept⟩ := run_acceptCmd env r u rq.cmd.toInt sys.svc ⟨rq.payload, q, o⟩
  have hid : c.strIdentify = u := (hi.findClient u).identify u c hc
  obtain ⟨es, hes, -⟩ := (SameRouters.handleCmd (c.touched env (findClient env u sys.svc) r)
    rq.request ((reach env r u rq.cmd.toInt c sys.svc).logEvent
      (.parsed c.strIdentify rq.request))).log
  refine ⟨handleCmd env (c.touched env (findClient env u sys.svc) r) rq.request
    ((reach env r u rq.cmd.toInt c sys.svc).logEvent (.parsed c.strIdentify rq.request)), es, ?_, ?_⟩
  · rw [hmsg, List.cons_append, List.nil_append]
    refine run_onReadable_ok env sys.svc r u rq.payload q o rq.cmd.toInt _ [] ?_
    simp only [EStateM.run_bind, run_dispatch, hv, haccept, onRecvCmd, run_modifyOwn, run_recvCmd_payload]
    rfl
  · rw [hes]
    simp [reach, hid]

/-- A manager logged in as `amy`, whose receiver has seen nothing yet. -/
def amyManager : DispatcherManager :=
  ⟨text "amy", true, .StatInit, 0, ⟨0, Vector.replicate 64 0, 0, 0⟩, 0, 0⟩

/-- She asks with a filter and an empty one, and she inserts a row. -/
def amyQueries : ManagerReq :=
  .qryByColumnFilter [⟨text "ManagerName", text "bob"⟩, ⟨[], []⟩] EElementType.TManageUser.toInt 8

def amyInserts : ManagerReq := .insUpdDel .ins .TManageUser [managerNamed "bob"] 8

theorem amyLogin_isSome : (run (step default 4) (System.init default loginThenQuery)
    [.refresh [managerNamed "amy"], .readable]).isSome := by decide +kernel

/-- The service after her login. -/
def amyLoggedIn : System := Option.get _ amyLogin_isSome

/-- Her call succeeds and is handed to `onRecvCmd` with its arguments. -/
def HandedOver (rq : ManagerReq) : Prop :=
  (rq.call amyManager).ret = ERROR_SUCCESS ∧ ∃ s es, (onReadable default).run
    ⟨amyLoggedIn.svc, ⟨[], deliver [] (text "r1") (rq.call amyManager).frames ++ [], []⟩⟩ =
      .ok () ⟨s, ⟨[], [], []⟩⟩ ∧
    s.log = amyLoggedIn.svc.log ++ .reached (text "amy") (text "r1") rq.cmd.toInt ::
      .parsed (text "amy") rq.request :: es

theorem request_parsed_amy : HandedOver (.login (text "amy") 8) ∧ HandedOver (.logout 8) ∧ HandedOver amyQueries ∧
    HandedOver (.delByColumnFilter [] EElementType.TServerConfig.toInt 8) ∧ HandedOver amyInserts := by
  have hs : session amyLoggedIn.svc.log (text "amy") = some (text "r1") := by decide +kernel
  have hrun := (Option.some_get amyLogin_isSome).symm
  have hknown : amyLoggedIn.svc.identifyUser (text "amy") = true := by decide +kernel
  have hparsed : ∀ rq : ManagerReq, rq.NonEmpty → (rq.call amyManager).manager.strIdentity = text "amy" →
      HandedOver rq := by
    intro rq hne hu
    obtain ⟨hret, _, _, _, h⟩ := request_parsed default 4 loginThenQuery _ amyLoggedIn hrun amyManager rq rfl hne []
      (text "r1") (text "amy") hu hknown (by simp [hs]) (fun _ => hs) [] []
    exact ⟨hret, h⟩
  have hname : text "amy" ≠ [] := by decide
  exact ⟨hparsed _ hname rfl, hparsed _ trivial rfl, hparsed _ trivial rfl, hparsed _ trivial rfl,
    hparsed _ (List.cons_ne_nil _ _) rfl⟩

end CppLinuxLearn.Deployer
