import CppLinuxLearn.Deployer.Answers
import CppLinuxLearn.Lib.TwoRuns

/-!
# What makes no difference to the service

A client record without a session counts for its router only, the time of the last push for nothing,
and neither do the messages that have not been read. `Related` says that two services agree in all the
rest, up to the answers each has given; the handling of a message and the timer keep it, when the clock
shows the same at the places where the value is kept. As the timer reads the clock once for each record
that it pushes to, these need not be readings with the same number.
-/

namespace CppLinuxLearn.Deployer

open Lib Multipart

/-- The same surroundings under another clock. -/
def Env.withClock (env : Env) (clock : Nat → Int) : Env := { env with clock := clock }

/-! ## What is read of a message -/

section
variable {σ : Type} {q q' : List Msg} {E R : σ → σ → Prop} (env : Env) (clock : Nat → Int)

theorem beside_copyPod (T : Type) [Pod T] (f : Bytes) :
    Beside q q' E R R (copyPod env T f) (copyPod (env.withClock clock) T f) :=
  beside_bind (beside_copyOut env.past f _) fun _ => beside_pure _

variable (hE : ∀ s s', R s s' → E s s') (hq : q = [] → q' = [])
include hE hq

theorem beside_recvPodObject (T : Type) [Pod T] :
    Beside q q' E R R (recvPodObject env T) (recvPodObject (env.withClock clock) T) :=
  beside_bind (beside_recv hE hq) fun _ => beside_bind (beside_assertThat hE _) fun _ =>
    beside_copyPod env clock T _

theorem beside_recvVecObject (T : Type) [Pod T] :
    Beside q q' E R R (recvVecObject env T) (recvVecObject (env.withClock clock) T) := by
  have heats : ∀ env : Env, Eats (recv >>= fun f => copyPod env T f : Rd σ T) := fun env =>
    eats_recv_bind fun f => along_copyPod fewer_readOrder env T f
  exact beside_whileMore (beside_bind (beside_recv hE hq) fun _ => beside_copyPod env clock T _)
    (heats env) (heats (env.withClock clock))

theorem beside_recvColumnFilters : Beside q q' E R R recvColumnFilters recvColumnFilters := by
  have heats : Eats (recvPair ColumnFilter.mk : Rd σ ColumnFilter) := eats_recv_bind fun _ =>
    along_bind fewer_readOrder fewer_readOrder.recv fun _ => along_pure fewer_readOrder _
  exact beside_whileMore (beside_recvPair hE hq _) heats heats

theorem beside_skipRemainMFrame : Beside q q' E R R skipRemainMFrame skipRemainMFrame :=
  beside_bind (beside_whileMore (beside_recv hE hq) eats_recv eats_recv) fun _ => beside_pure _

theorem beside_recvElements (op : DbOp) (reqid eletype : CInt) :
    Beside q q' E R R (recvElements env op reqid eletype)
      (recvElements (env.withClock clock) op reqid eletype) := by
  unfold recvElements
  split
  · exact beside_bind (beside_recvVecObject env clock hE hq _) fun _ => beside_pure _
  · exact beside_bind (beside_skipRemainMFrame hE hq) fun _ => beside_pure _

theorem beside_recvCmd (cmd : CInt) :
    Beside q q' E R R (recvCmd env cmd) (recvCmd (env.withClock clock) cmd) := by
  have hid : Beside q q' E R R (recvPodObject env CInt) (recvPodObject (env.withClock clock) CInt) :=
    beside_recvPodObject env clock hE hq CInt
  have hskip : Beside q q' E R R (do skipRemainMFrame; return Request.skipped)
      (do skipRemainMFrame; return Request.skipped) :=
    beside_bind (beside_skipRemainMFrame hE hq) fun _ => beside_pure _
  have hlogin : ∀ mk : CInt → Request, Beside q q' E R R (do return mk (← recvPodObject env CInt))
      (do return mk (← recvPodObject (env.withClock clock) CInt)) := fun mk =>
    beside_bind hid fun _ => beside_pure _
  have hfilters : ∀ mk, Beside q q' E R R (recvFiltered env mk) (recvFiltered (env.withClock clock) mk) :=
    fun mk => beside_bind hid fun _ => beside_bind hid fun _ =>
      beside_bind (beside_recvColumnFilters hE hq) fun _ => beside_pure _
  have hobjects : ∀ op, Beside q q' E R R (recvObjects env op) (recvObjects (env.withClock clock) op) :=
    fun op => beside_bind hid fun _ => beside_bind hid fun _ =>
      beside_recvElements env clock hE hq op _ _
  unfold recvCmd
  match ECommandType.ofInt? cmd with
  | some .TLogin | some .TLogout => exact hlogin _
  | some .TQuery | some .TDelByCol => exact hfilters _
  | some .TInsert | some .TDelete | some .TUpdate => exact hobjects _
  | some .TKeepAlive => exact beside_pure _
  | some .TDeploy | some .TExecute | some .TFinish | some .TNullCmd | none => exact hskip

end

section
variable {q q' : List Msg} {E R : Service → Service → Prop} (env : Env) (clock : Nat → Int)
  (hE : ∀ s s', R s s' → E s s') (hq : q = [] → q' = [])
include hE hq

theorem beside_recvReqidIfMore :
    Beside q q' E R R (recvReqidIfMore env) (recvReqidIfMore (env.withClock clock)) :=
  beside_bind beside_rcvmore fun _ =>
    beside_ite _ (beside_recvPodObject env clock hE hq CInt) (beside_pure _)

theorem beside_recvRequestidIfMore :
    Beside q q' E R R (recvRequestidIfMore env) (recvRequestidIfMore (env.withClock clock)) :=
  beside_bind beside_rcvmore fun _ => beside_ite _
    (beside_bind (beside_recv hE hq) fun _ => beside_copyPod env clock CInt _) (beside_pure _)

end

/-! ## Answers -/

/-- A message of the service to a manager that has a response in it. -/
def isAnswer (fs : List Bytes) : Bool := (response? fs).isSome

/-- The answers sent, with their routers and all their frames. -/
def Service.answers (s : Service) : List (List Bytes) := (assemble [] s.sent).filter isAnswer

/-- Whole messages were sent, and these are the answers among them. -/
def Tells (fs : List (Bytes × Bool)) (as : List (List Bytes)) : Prop :=
  ∃ ms : List (List Bytes), (∀ m ∈ ms, m ≠ []) ∧ fs = ms.flatMap flagged ∧ ms.filter isAnswer = as

theorem Tells.nil : Tells [] [] := ⟨[], nofun, rfl, rfl⟩

theorem Tells.append {fs gs : List (Bytes × Bool)} {as bs : List (List Bytes)} (h : Tells fs as)
    (h' : Tells gs bs) : Tells (fs ++ gs) (as ++ bs) := by
  obtain ⟨ms, hms, rfl, rfl⟩ := h
  obtain ⟨ns, hns, rfl, rfl⟩ := h'
  refine ⟨ms ++ ns, fun m hm => (List.mem_append.1 hm).elim (hms m) (hns m), ?_, ?_⟩
  · rw [List.flatMap_append]
  · rw [List.filter_append]

theorem answers_of_tells {s : Service} {as : List (List Bytes)} (h : Tells s.sent as) : s.answers = as := by
  obtain ⟨ms, hms, hsent, rfl⟩ := h
  rw [Service.answers, hsent, assemble_flatMap_flagged ms hms]

theorem tells_sent (router : Str) (msg : ServerMsg) :
    Tells (msg.sent router) (if msg.response.isSome then [router :: msg.frames] else []) := by
  refine ⟨[router :: msg.frames], by simp, ?_, ?_⟩
  · rw [List.flatMap_singleton, sent_eq_flagged]
  · rw [List.filter_singleton, isAnswer, ServerMsg.response?_frames, cond_eq_ite]

theorem tells_pushes {out : List (Str × ServerMsg)} (h : ∀ p ∈ out, p.2 = .keepAlive) :
    Tells (out.flatMap fun p => p.2.sent p.1) [] := by
  induction out with
  | nil => exact .nil
  | cons p out ih =>
    have hp := tells_sent p.1 p.2
    rw [h p List.mem_cons_self] at hp
    have hrest := ih fun p hp => h p (List.mem_cons_of_mem _ hp)
    rw [List.flatMap_cons, h p List.mem_cons_self]
    exact hp.append hrest

theorem ne_nil_of_mem_assemble {acc : List Bytes} {fs : List (Bytes × Bool)} :
    ∀ m ∈ assemble acc fs, m ≠ [] := by
  induction fs generalizing acc with
  | nil => exact nofun
  | cons f fs ih =>
    obtain ⟨f, more⟩ := f
    intro m hm
    cases more with
    | true => exact ih m hm
    | false =>
      rcases List.mem_cons.1 hm with rfl | hm
      · simp
      · exact ih m hm

/-! ## What the records of clients do -/

/-- The time that must have passed for the session of the record to end; none without a session. -/
def DispatcherClient.expiry (c : DispatcherClient) : Option Int :=
  if c.bLogin then some (c.tLastRead + 60 * 1000000000) else none

/-- When the session of an identity expires. -/
def Service.expiry (s : Service) (u : Str) : Option Int := (s.client? u).bind DispatcherClient.expiry

/-- Every record is that of its key. -/
def Service.Identified (s : Service) : Prop := ∀ u c, s.client? u = some c → c.strIdentify = u

/-- The services agree in all that the handling of messages, the timer and the tasks make use of: a
record without a session counts for its router only, and a record without both is as good as none. -/
structure Alike (s s' : Service) : Prop where
  router : ∀ u, s'.router u = s.router u
  expiry : ∀ u, s'.expiry u = s.expiry u
  identify : s.Identified
  identify' : s'.Identified
  setManagerCache : s'.setManagerCache = s.setManagerCache
  bUpdManagerCache : s'.bUpdManagerCache = s.bUpdManagerCache
  trigtime : s'.trigtime = s.trigtime
  queTask : s'.queTask = s.queTask

namespace Alike
variable {s s' s'' : Service}

theorem symm (h : Alike s s') : Alike s' s where
  router u := (h.router u).symm
  expiry u := (h.expiry u).symm
  identify := h.identify'
  identify' := h.identify
  setManagerCache := h.setManagerCache.symm
  bUpdManagerCache := h.bUpdManagerCache.symm
  trigtime := h.trigtime.symm
  queTask := h.queTask.symm

theorem trans (h : Alike s s') (h' : Alike s' s'') : Alike s s'' where
  router u := (h'.router u).trans (h.router u)
  expiry u := (h'.expiry u).trans (h.expiry u)
  identify := h.identify
  identify' := h'.identify'
  setManagerCache := h'.setManagerCache.trans h.setManagerCache
  bUpdManagerCache := h'.bUpdManagerCache.trans h.bUpdManagerCache
  trigtime := h'.trigtime.trans h.trigtime
  queTask := h'.queTask.trans h.queTask

theorem refl (h : s.Identified) : Alike s s :=
  ⟨fun _ => rfl, fun _ => rfl, h, h, rfl, rfl, rfl, rfl⟩

theorem findClient (env : Env) (u : Str) (h : s.Identified) :
    Alike s (findClient env u s) := by
  unfold Deployer.findClient
  split
  · exact refl h
  · rename_i hnone
    have hu : s.client? u = none := by simpa using hnone
    have hview : ∀ v, (s.addClient env u).client? v = s.client? v ∨
        v = u ∧ (s.addClient env u).client? v = some ⟨[], u, s.now env, s.now env, false⟩ := by
      intro v
      rw [Service.client?_addClient]
      by_cases hv : v = u
      · subst hv
        simp [hu]
      · simp [hv]
    refine ⟨fun v => ?_, fun v => ?_, h, fun v c hc => ?_, rfl, rfl, rfl, rfl⟩
    · rcases hview v with hv | ⟨rfl, hv⟩
      · rw [Service.router, hv, Service.router]
      · rw [Service.router, hv, Service.router, hu]
        rfl
    · rcases hview v with hv | ⟨rfl, hv⟩
      · rw [Service.expiry, hv, Service.expiry]
      · rw [Service.expiry, hv, Service.expiry, hu]
        rfl
    · rcases hview v with hv | ⟨rfl, hv⟩
      · exact h v c (hv ▸ hc)
      · rw [hv] at hc
        obtain rfl := Option.some.inj hc
        rfl

theorem modifyClient (h : Alike s s') {u : Str} {f f' : DispatcherClient → DispatcherClient}
    {c c' : DispatcherClient} (hc : s.client? u = some c) (hc' : s'.client? u = some c')
    (hid : (f c).strIdentify = u) (hid' : (f' c').strIdentify = u)
    (hrouter : (f' c').strRouter = (f c).strRouter) (hexpiry : (f' c').expiry = (f c).expiry) :
    Alike (s.modifyClient u f) (s'.modifyClient u f') := by
  have hview : ∀ v, ((s.modifyClient u f).client? v = s.client? v ∧
      (s'.modifyClient u f').client? v = s'.client? v) ∨
      v = u ∧ (s.modifyClient u f).client? v = some (f c) ∧
        (s'.modifyClient u f').client? v = some (f' c') := by
    intro v
    rw [Service.client?_modifyClient, Service.client?_modifyClient]
    by_cases hv : v = u
    · subst hv
      simp [hc, hc']
    · simp [hv]
  refine ⟨fun v => ?_, fun v => ?_, fun v d hd => ?_, fun v d hd => ?_, h.setManagerCache,
    h.bUpdManagerCache, h.trigtime, h.queTask⟩
  · rcases hview v with ⟨hv, hv'⟩ | ⟨rfl, hv, hv'⟩
    · rw [Service.router, Service.router, hv, hv']
      exact h.router v
    · simp [Service.router, hv, hv', hrouter]
  · rcases hview v with ⟨hv, hv'⟩ | ⟨rfl, hv, hv'⟩
    · rw [Service.expiry, Service.expiry, hv, hv']
      exact h.expiry v
    · simp [Service.expiry, hv, hv', hexpiry]
  · rcases hview v with ⟨hv, -⟩ | ⟨rfl, hv, -⟩
    · exact h.identify v d (hv ▸ hd)
    · rwa [← Option.some.inj (hv.symm.trans hd)]
  · rcases hview v with ⟨-, hv⟩ | ⟨rfl, -, hv⟩
    · exact h.identify' v d (hv ▸ hd)
    · rwa [← Option.some.inj (hv.symm.trans hd)]

end Alike

/-- The services are alike, and after `A` on the one side and `A'` on the other they have given the
same answers. -/
structure Related (A A' : List (List Bytes)) (s s' : Service) : Prop extends Alike s s' where
  sent : ∃ B, Tells s.sent (A ++ B) ∧ Tells s'.sent (A' ++ B)

section
variable {A A' : List (List Bytes)} {s s' t t' : Service}

theorem Related.sends (h : Related A A' s s') (ht : Alike t t') {fs fs' : List (Bytes × Bool)}
    {as : List (List Bytes)} (hsent : t.sent = s.sent ++ fs) (hfs : Tells fs as)
    (hsent' : t'.sent = s'.sent ++ fs') (hfs' : Tells fs' as) : Related A A' t t' := by
  obtain ⟨B, hB, hB'⟩ := h.sent
  refine ⟨ht, B ++ as, ?_, ?_⟩
  · rw [hsent, ← List.append_assoc]
    exact hB.append hfs
  · rw [hsent', ← List.append_assoc]
    exact hB'.append hfs'

theorem Related.quiet (h : Related A A' s s') (ht : Alike t t') (hsent : t.sent = s.sent)
    (hsent' : t'.sent = s'.sent) : Related A A' t t' :=
  ⟨ht, by rw [hsent, hsent']; exact h.sent⟩

theorem Related.answer (h : Related A A' s s') (ht : Alike t t') (hsent : t.sent = s.sent)
    (hsent' : t'.sent = s'.sent) (router : Str) (rsp : ReqResponse) :
    Related A A' (t.answer router rsp) (t'.answer router rsp) := by
  have hanswer : Alike (t.answer router rsp) (t'.answer router rsp) := { ht with }
  refine h.sends hanswer ?_ (tells_sent router (.plain rsp)) ?_ (tells_sent router (.plain rsp))
  · rw [sent_answer, hsent]
  · rw [sent_answer, hsent']

/-- A command is entered on both sides with the records `d` and `d'` of `u`. -/
structure Entered (A A' : List (List Bytes)) (u : Str) (d d' : DispatcherClient) (s s' : Service) : Prop
    extends Related A A' s s' where
  client : s.client? u = some d
  client' : s'.client? u = some d'
  same : d' = { d with tLastWrite := d'.tLastWrite }

namespace Entered
variable {u : Str} {d d' : DispatcherClient} (env : Env) (clock : Nat → Int)

theorem logEvent (h : Entered A A' u d d' s s') (e e' : Event) :
    Entered A A' u d d' (s.logEvent e) (s'.logEvent e') := { h with }

theorem change (h : Entered A A' u d d' s s') {f : DispatcherClient → DispatcherClient}
    (hid : (f d).strIdentify = d.strIdentify)
    (hf : f { d with tLastWrite := d'.tLastWrite } = { f d with tLastWrite := d'.tLastWrite }) :
    Alike (s.modifyClient d.strIdentify f) (s'.modifyClient d.strIdentify f) := by
  have hu := h.identify u d h.client
  rw [hu]
  apply h.modifyClient h.client h.client' (hid.trans hu) <;> rw [h.same, hf]
  · exact hid.trans hu
  · rfl

theorem onReqLogin (h : Entered A A' u d d' s s') (reqid : CInt) :
    Related A A' (onReqLogin env d reqid s) (onReqLogin (env.withClock clock) d' reqid s') := by
  have hin : Alike (s.modifyClient d.strIdentify fun c => { c with bLogin := true })
      (s'.modifyClient d.strIdentify fun c => { c with bLogin := true }) := h.change rfl rfl
  rw [h.same]
  unfold Deployer.onReqLogin
  split
  · exact h.toRelated.answer h.toAlike rfl rfl _ _
  · exact { h.toRelated.answer hin rfl rfl _ _ with }

theorem onReqLogout (h : Entered A A' u d d' s s') (reqid : CInt) :
    Related A A' (onReqLogout env d reqid s) (onReqLogout (env.withClock clock) d' reqid s') := by
  have hout : Alike (s.modifyClient d.strIdentify fun c => { c with bLogin := false })
      (s'.modifyClient d.strIdentify fun c => { c with bLogin := false }) := h.change rfl rfl
  rw [h.same]
  exact { h.toRelated.answer hout rfl rfl _ _ with }

theorem onKeepAlive (h : Entered A A' u d d' s s') (hnow : s'.now (env.withClock clock) = s.now env) :
    Related A A' (onKeepAlive env d s) (onKeepAlive (env.withClock clock) d' s') := by
  have htouch : Alike (s.modifyClient d.strIdentify fun c => { c with tLastRead := s.now env })
      (s'.modifyClient d.strIdentify fun c => { c with tLastRead := s.now env }) := h.change rfl rfl
  rw [h.same]
  unfold Deployer.onKeepAlive
  rw [hnow]
  exact h.toRelated.quiet { htouch with } rfl rfl

theorem submitSql (h : Entered A A' u d d' s s') (verb : String) (mk : EElementType → TaskOp)
    (reqid eletype : CInt) (fs : List ColumnFilter) :
    Related A A' (submitSql env d verb mk reqid eletype fs s)
      (submitSql (env.withClock clock) d' verb mk reqid eletype fs s') := by
  rw [h.same]
  unfold Deployer.submitSql
  split
  · simp only
    refine h.toRelated.quiet ?_ rfl rfl
    exact { h.toAlike with queTask := congrArg (· ++ [_]) h.queTask }
  · exact h.toRelated.quiet { h.toAlike with } rfl rfl

/-- **A command does the same on both sides.** -/
theorem handleCmd (h : Entered A A' u d d' s s') (hnow : s'.now (env.withClock clock) = s.now env)
    (req : Request) :
    Related A A' (handleCmd env d req s) (handleCmd (env.withClock clock) d' req s') := by
  cases req with
  | login reqid => exact h.onReqLogin env clock reqid
  | logout reqid => exact h.onReqLogout env clock reqid
  | keepAlive => exact h.onKeepAlive env clock hnow
  | query reqid eletype fs => exact h.submitSql env clock _ _ reqid eletype fs
  | delByCol reqid eletype fs => exact h.submitSql env clock _ _ reqid eletype fs
  | byObjects op reqid t objVec =>
    rw [h.same]
    unfold Deployer.handleCmd
    simp only
    split
    · exact h.toRelated.quiet
        { h.toAlike with bUpdManagerCache := rfl, queTask := congrArg (· ++ [_]) h.queTask } rfl rfl
    · exact h.toRelated.quiet { h.toAlike with queTask := congrArg (· ++ [_]) h.queTask } rfl rfl
  | skipped => exact h.toRelated

end Entered

/-! ## A message -/

theorem verdict_eq (r u : Str) (cmd : CInt) : verdict s r u cmd =
    if !s.identifyUser u then .identifyErr
    else if s.expiry u = none ∧ cmd ≠ ECommandType.TLogin.toInt ∧ cmd ≠ ECommandType.TKeepAlive.toInt then
      .noLogin
    else if s.expiry u ≠ none ∧ s.router u ≠ r then .multiLogin
    else .accepted := by
  unfold verdict Service.expiry Service.router
  cases s.client? u with
  | none => simp
  | some c => cases hlogin : c.bLogin <;> simp [DispatcherClient.expiry, hlogin]

theorem Alike.verdict (h : Alike s s') (r u : Str) (cmd : CInt) :
    verdict s' r u cmd = verdict s r u cmd := by
  rw [verdict_eq, verdict_eq, h.expiry, h.router, Service.identifyUser, Service.identifyUser,
    h.setManagerCache]

theorem bLogin_eq_isSome (c : DispatcherClient) : c.bLogin = c.expiry.isSome := by
  unfold DispatcherClient.expiry
  cases c.bLogin <;> rfl

theorem Related.findClient (h : Related A A' s s') (env env' : Env) (u : Str) :
    Related A A' (findClient env u s) (findClient env' u s') :=
  h.quiet (((Alike.findClient env u h.identify).symm.trans h.toAlike).trans
    (Alike.findClient env' u h.identify')) (findClient_sent env u s).1 (findClient_sent env' u s').1

theorem Related.touchClient (h : Related A A' s s') {env env' : Env} {r u : Str} {c c' : DispatcherClient}
    (hc : s.client? u = some c) (hc' : s'.client? u = some c') (hnow : s'.now env' = s.now env) :
    Entered A A' u { c with strRouter := r, tLastRead := s.now env }
      { c' with strRouter := r, tLastRead := s'.now env' } (touchClient env r u s) (touchClient env' r u s') := by
  have hlogin : c'.bLogin = c.bLogin := by
    have hexpiry := h.expiry u
    rw [Service.expiry, Service.expiry, hc, hc'] at hexpiry
    rw [bLogin_eq_isSome, bLogin_eq_isSome]
    exact congrArg Option.isSome hexpiry
  have hid := h.identify u c hc
  have hid' := h.identify' u c' hc'
  have hlike : Alike (Deployer.touchClient env r u s) (Deployer.touchClient env' r u s') := by
    have hread : Alike s.readClock s'.readClock := { h.toAlike with }
    apply hread.modifyClient hc hc' hid hid' rfl
    simp only [DispatcherClient.expiry, hlogin, hnow]
  refine ⟨h.quiet hlike rfl rfl, ?_, ?_, ?_⟩
  · rw [Deployer.touchClient, Service.client?_modifyClient_self, Service.client?_readClock, hc]
    rfl
  · rw [Deployer.touchClient, Service.client?_modifyClient_self, Service.client?_readClock, hc']
    rfl
  · rw [hnow, hlogin, hid, hid']

section
variable {q q' : List Msg} (hq : q = [] → q' = []) (env : Env) (clock : Nat → Int)
include hq

theorem beside_rejectIdentity (r : Str) (cmd : CInt) :
    Beside q q' (Related A A') (Related A A') (Related A A') (rejectIdentity env r cmd)
      (rejectIdentity (env.withClock clock) r cmd) :=
  beside_bind (beside_recvRequestidIfMore env clock (fun _ _ h => h) hq) fun _ =>
    beside_modifyOwn fun _ _ h => h.answer h.toAlike rfl rfl _ _

theorem beside_rejectLogin (err : EResponseErrType) (msg : String) (r : Str) (cmd : CInt) :
    Beside q q' (Related A A') (Related A A') (Related A A') (rejectLogin env err msg r cmd)
      (rejectLogin (env.withClock clock) err msg r cmd) :=
  beside_bind (beside_recvReqidIfMore env clock (fun _ _ h => h) hq) fun _ =>
    beside_modifyOwn fun _ _ h => h.answer h.toAlike rfl rfl _ _

theorem beside_onRecvCmd (u : Str) (cmd : CInt) (d d' : DispatcherClient) :
    Beside q q' (Related A A')
      (fun s s' => Entered A A' u d d' s s' ∧ s'.now (env.withClock clock) = s.now env) (Related A A')
      (onRecvCmd env cmd d) (onRecvCmd (env.withClock clock) cmd d') := by
  let R := fun s s' : Service => Entered A A' u d d' s s' ∧ s'.now (env.withClock clock) = s.now env
  have hlog : ∀ e e', Beside q q' (Related A A') R R (modifyOwn (·.logEvent e)) (modifyOwn (·.logEvent e')) :=
    fun e e' => beside_modifyOwn fun _ _ h => ⟨h.1.logEvent e e', h.2⟩
  have hrecv : Beside q q' (Related A A') R R (recvCmd env cmd) (recvCmd (env.withClock clock) cmd) :=
    beside_recvCmd env clock (fun _ _ h => h.1.toRelated) hq cmd
  exact beside_bind (hlog _ _) fun _ => beside_bind hrecv fun req =>
    beside_modifyOwn fun _ _ h => (h.1.logEvent _ _).handleCmd env clock h.2 req

theorem paired_dispatch (h : Related A A' s s') {k k' : Rcv} (hsock : Apart q q' k k') (r u : Str)
    (cmd : CInt) (htime : ∀ n, clock ((findClient (env.withClock clock) u s').readings + n) =
      env.clock ((findClient env u s).readings + n))
    (hleaves : Leaves q ((dispatch env r u cmd).run ⟨s, k⟩)) :
    Paired q q' (Related A A') (Related A A') ((dispatch env r u cmd).run ⟨s, k⟩)
      ((dispatch (env.withClock clock) r u cmd).run ⟨s', k'⟩) := by
  have hfound := h.findClient env (env.withClock clock) u
  rw [run_dispatch] at hleaves ⊢
  rw [run_dispatch, h.verdict]
  cases hv : verdict s r u cmd with
  | identifyErr =>
    simp only [hv] at hleaves ⊢
    exact (beside_rejectIdentity hq env clock r cmd).paired ⟨s, k⟩ ⟨s', k'⟩ h hsock hleaves
  | noLogin =>
    simp only [hv] at hleaves ⊢
    exact (beside_rejectLogin hq env clock _ _ r cmd).paired ⟨_, k⟩ ⟨_, k'⟩ hfound hsock hleaves
  | multiLogin =>
    simp only [hv] at hleaves ⊢
    exact (beside_rejectLogin hq env clock _ _ r cmd).paired ⟨_, k⟩ ⟨_, k'⟩ hfound hsock hleaves
  | accepted =>
    simp only [hv] at hleaves ⊢
    obtain ⟨c, hc, hrun⟩ := run_acceptCmd env r u cmd s k
    obtain ⟨c', hc', hrun'⟩ := run_acceptCmd (env.withClock clock) r u cmd s' k'
    rw [hrun] at hleaves ⊢
    rw [hrun']
    have hnow : (findClient (env.withClock clock) u s').now (env.withClock clock) =
        (findClient env u s).now env := htime 0
    have hentered := hfound.touchClient (r := r) hc hc' hnow
    exact (beside_onRecvCmd hq env clock u cmd _ _).paired ⟨_, k⟩ ⟨_, k'⟩ ⟨hentered, htime 1⟩ hsock hleaves

/-- **A message does the same on both sides**, if the clock shows the same once the record of its
identity is there. -/
theorem paired_onReadable (h : Related A A' s s') {k k' : Rcv} (hsock : Apart q q' k k')
    (htime : ∀ u, k.frames[1]? = some u → k'.frames[1]? = some u → ∀ n,
      clock ((findClient (env.withClock clock) u s').readings + n) =
        env.clock ((findClient env u s).readings + n))
    (hleaves : Leaves q ((onReadable env).run ⟨s, k⟩)) :
    Paired q q' (Related A A') (Related A A') ((onReadable env).run ⟨s, k⟩)
      ((onReadable (env.withClock clock)).run ⟨s', k'⟩) := by
  have hR : ReadOrder (@Ahead Service) := ahead_readOrder
  have hE : ∀ t t', Related A A' t t' → Related A A' t t' := fun _ _ ht => ht
  refine paired_bind (fun r => along_bind hR hR.recv fun u => along_bind hR hR.recv fun f =>
    forward_copyPod_dispatch env r u f) hleaves (paired_recv hE hq h hsock) ?_
  rintro r ⟨t, k₁⟩ ⟨t', k₁'⟩ hrun₁ hrun₁' ⟨rfl, rfl⟩ hsock₁ hleaves₁
  refine paired_bind (fun u => along_bind hR hR.recv fun f => forward_copyPod_dispatch env r u f) hleaves₁
    (paired_recv hE hq h hsock₁) ?_
  rintro u ⟨t, k₂⟩ ⟨t', k₂'⟩ hrun₂ hrun₂' ⟨rfl, rfl⟩ hsock₂ hleaves₂
  have hidentity : ∀ {p p₁ p₂ : Proc Service}, recv.run p = .ok r p₁ → recv.run p₁ = .ok u p₂ →
      p.sock.frames[1]? = some u := by
    intro p p₁ p₂ h₁ h₂
    rw [frames_of_recv h₁, frames_of_recv h₂]
    rfl
  refine paired_bind (fun f => forward_copyPod_dispatch env r u f) hleaves₂ (paired_recv hE hq h hsock₂) ?_
  rintro f ⟨t, k₃⟩ ⟨t', k₃'⟩ - - ⟨rfl, rfl⟩ hsock₃ hleaves₃
  have hcopy : Beside q q' (Related A A') (fun o o' => o = t ∧ o' = t') (fun o o' => o = t ∧ o' = t')
      (copyPod env CInt f) (copyPod (env.withClock clock) CInt f) := beside_copyPod env clock CInt f
  refine paired_bind (fun cmd => forward_dispatch_skip env r u cmd) hleaves₃
    (hcopy.paired ⟨t, k₃⟩ ⟨t', k₃'⟩ ⟨rfl, rfl⟩ hsock₃) ?_
  rintro cmd ⟨t, k₄⟩ ⟨t', k₄'⟩ - - ⟨rfl, rfl⟩ hsock₄ hleaves₄
  have htime := htime u (hidentity hrun₁ hrun₂) (hidentity hrun₁' hrun₂')
  exact paired_bind (fun _ => along_skipRemainMFrame hR) hleaves₄
    (paired_dispatch hq env clock h hsock₄ r u cmd htime) fun _ t t' _ _ hown =>
      (beside_skipRemainMFrame hE hq).paired t t' hown

end

/-! ## The timer -/

/-- The record of the identity is pushed to when the timer finds it. -/
def Service.alive (s : Service) (tnow : Int) (u : Str) : Bool :=
  (s.client? u).any fun c => !decide (c.tLastRead + 60 * 1000000000 < tnow)

/-- How many pushes the timer sends. -/
def Service.live (s : Service) (tnow : Int) : Nat := (s.mapClients.map Prod.fst).countP (s.alive tnow)

theorem client?_katimeClient (env : Env) (tnow : Int) (s : Service) (u v : Str) :
    (katimeClient env tnow s u).client? v = if v = u then (s.client? u).map fun c =>
      if c.tLastRead + 60 * 1000000000 < tnow then { c with bLogin := false }
      else { c with tLastWrite := s.now env } else s.client? v := by
  cases hc : s.client? u with
  | none =>
    simp only [katimeClient, hc, Option.map_none]
    split
    · subst v
      exact hc
    · rfl
  | some c =>
    by_cases hread : c.tLastRead + 60 * 1000000000 < tnow
    · simp only [katimeClient, hc, if_pos hread, Service.client?_logEvent, Service.client?_modifyClient,
        Option.map_some]
      split <;> simp [*]
    · simp only [katimeClient, hc, if_neg hread, Service.client?_innerSendMsg, Service.client?_modifyClient,
        Service.client?_readClock, Option.map_some]
      split <;> simp [*]

/-- The walk of the timer over the records of `us`. -/
structure Walked (tnow : Int) (us : List Str) (s t : Service) : Prop where
  router : ∀ u, t.router u = s.router u
  /-- the sessions that have expired are ended, and the others left alone -/
  expiry : ∀ u, t.expiry u = if u ∈ us then (s.expiry u).filter (fun T => decide (tnow ≤ T)) else s.expiry u
  identify : s.Identified → t.Identified
  alive : ∀ u, t.alive tnow u = s.alive tnow u
  readings : t.readings = s.readings + us.countP (s.alive tnow)

theorem expiry_filter (tnow lastWrite : Int) (c : DispatcherClient) :
    (if c.tLastRead + 60 * 1000000000 < tnow then { c with bLogin := false }
      else { c with tLastWrite := lastWrite } : DispatcherClient).expiry =
        c.expiry.filter fun T => decide (tnow ≤ T) := by
  unfold DispatcherClient.expiry
  split
  · cases c.bLogin with
    | false => rfl
    | true =>
      simp [Option.filter]
      omega
  · cases c.bLogin with
    | false => rfl
    | true =>
      simp [Option.filter]
      omega

theorem walked_katimeClient (env : Env) (tnow : Int) (s : Service) (u : Str) :
    Walked tnow [u] s (katimeClient env tnow s u) := by
  have hview : ∀ v, ((katimeClient env tnow s u).client? v = s.client? v ∧ (v ≠ u ∨ s.client? v = none)) ∨
      v = u ∧ ∃ c, s.client? u = some c ∧ (katimeClient env tnow s u).client? v = some
        (if c.tLastRead + 60 * 1000000000 < tnow then { c with bLogin := false }
          else { c with tLastWrite := s.now env }) := by
    intro v
    rw [client?_katimeClient]
    by_cases hv : v = u
    · subst hv
      cases hc : s.client? v <;> simp
    · simp [hv]
  refine ⟨fun v => ?_, fun v => ?_, fun h v c hc => ?_, fun v => ?_, ?_⟩
  · rcases hview v with ⟨hv, -⟩ | ⟨rfl, c, hc, hv⟩
    · rw [Service.router, hv, Service.router]
    · rw [Service.router, hv, Service.router, hc]
      split <;> rfl
  · rcases hview v with ⟨hv, hne⟩ | ⟨rfl, c, hc, hv⟩
    · rw [Service.expiry, hv, Service.expiry]
      rcases hne with hne | hnone
      · simp [hne]
      · simp [hnone]
    · rw [Service.expiry, hv, Service.expiry, hc, Option.bind_some, Option.bind_some, expiry_filter]
      simp
  · rcases hview v with ⟨hv, -⟩ | ⟨rfl, d, hd, hv⟩
    · exact h v c (hv ▸ hc)
    · rw [hv] at hc
      obtain rfl := Option.some.inj hc
      have hid := h v d hd
      split <;> exact hid
  · rcases hview v with ⟨hv, -⟩ | ⟨rfl, c, hc, hv⟩
    · rw [Service.alive, hv, Service.alive]
    · rw [Service.alive, hv, Service.alive, hc]
      split <;> rfl
  · rw [List.countP_singleton, Service.alive]
    cases hc : s.client? u with
    | none => simp [katimeClient, hc]
    | some c =>
      by_cases hread : c.tLastRead + 60 * 1000000000 < tnow
      · simp only [katimeClient, hc, if_pos hread]
        simp [Service.logEvent, Service.modifyClient]
        omega
      · simp only [katimeClient, hc, if_neg hread]
        simp [Service.innerSendMsg, Service.modifyClient, Service.readClock]
        omega

theorem walked_foldl (env : Env) (tnow : Int) (us : List Str) (s : Service) :
    Walked tnow us s (us.foldl (katimeClient env tnow) s) := by
  induction us generalizing s with
  | nil => exact ⟨fun _ => rfl, fun _ => by simp, fun h => h, fun _ => rfl, rfl⟩
  | cons u us ih =>
    have hone := walked_katimeClient env tnow s u
    have hrest := ih (katimeClient env tnow s u)
    have halive : (katimeClient env tnow s u).alive tnow = s.alive tnow := funext hone.alive
    refine ⟨fun v => ?_, fun v => ?_, fun h => ?_, fun v => ?_, ?_⟩
    · exact (hrest.router v).trans (hone.router v)
    · rw [List.foldl_cons, hrest.expiry, hone.expiry]
      by_cases hv : v = u <;> by_cases hmem : v ∈ us <;> simp [hv, hmem, Option.filter_filter]
    · exact hrest.identify (hone.identify h)
    · exact (hrest.alive v).trans (hone.alive v)
    · rw [List.foldl_cons, hrest.readings, hone.readings, halive]
      simp only [List.countP_cons, List.countP_nil]
      omega

theorem expiry_of_not_mem {u : Str} (h : u ∉ s.mapClients.map Prod.fst) : s.expiry u = none := by
  have hnone : s.client? u = none := by
    apply List.lookup_eq_none_iff.2
    intro p hp
    have hne : u ≠ p.1 := fun hu => h (hu ▸ List.mem_map_of_mem hp)
    simpa using hne
  rw [Service.expiry, hnone, Option.bind_none]

/-- **The timer ends the sessions that have expired**, and sets itself anew. -/
theorem checkTimer_due {env : Env} (hdue : s.trigtime ≤ s.now env) :
    (∀ u, (checkTimer env s).router u = s.router u) ∧
      (∀ u, (checkTimer env s).expiry u =
        (s.expiry u).filter fun T => decide (env.clock (s.readings + 1) ≤ T)) ∧
      (s.Identified → (checkTimer env s).Identified) ∧
      (checkTimer env s).trigtime =
        env.clock (s.readings + 2 + s.live (env.clock (s.readings + 1))) + timerPeriod := by
  have hwalk := walked_foldl env (env.clock (s.readings + 1)) (s.mapClients.map Prod.fst)
    s.readClock.readClock
  unfold checkTimer
  rw [if_pos hdue]
  refine ⟨hwalk.router, fun u => (hwalk.expiry u).trans ?_, hwalk.identify, ?_⟩
  · split
    · rfl
    · rename_i hu
      have hnone : s.readClock.readClock.expiry u = none := expiry_of_not_mem hu
      have hnone' : s.expiry u = none := hnone
      rw [hnone, hnone']
      rfl
  · exact congrArg (fun n => env.clock n + timerPeriod) hwalk.readings

theorem Related.checkTimer (h : Related A A' s s') (env : Env) (clock : Nat → Int)
    (htimeout : clock s'.readings = env.clock s.readings)
    (hkatime : clock (s'.readings + 1) = env.clock (s.readings + 1))
    (hrecount : clock (s'.readings + 2 + s'.live (env.clock (s.readings + 1))) =
      env.clock (s.readings + 2 + s.live (env.clock (s.readings + 1)))) :
    Related A A' (checkTimer env s) (checkTimer (env.withClock clock) s') := by
  have hcache := sameCache_checkTimer env s
  have hcache' := sameCache_checkTimer (env.withClock clock) s'
  obtain ⟨out, hout, hpush⟩ := sends_checkTimer env s
  obtain ⟨out', hout', hpush'⟩ := sends_checkTimer (env.withClock clock) s'
  refine h.sends ?_ hout (tells_pushes hpush) hout' (tells_pushes hpush')
  have hfield : ∀ {α : Type} {f : Service → α}, f s' = f s → f (Deployer.checkTimer env s) = f s →
      f (Deployer.checkTimer (env.withClock clock) s') = f s' →
        f (Deployer.checkTimer (env.withClock clock) s') = f (Deployer.checkTimer env s) :=
    fun hs ht ht' => ht'.trans (hs.trans ht.symm)
  have hset := hfield h.setManagerCache hcache.setManagerCache hcache'.setManagerCache
  have hflag := hfield h.bUpdManagerCache hcache.bUpdManagerCache hcache'.bUpdManagerCache
  have hque := hfield h.queTask hcache.queTask hcache'.queTask
  have hnow : s'.now (env.withClock clock) = s.now env := htimeout
  by_cases hdue : s.trigtime ≤ s.now env
  · have hdue' : s'.trigtime ≤ s'.now (env.withClock clock) := by rwa [h.trigtime, hnow]
    obtain ⟨hrouter, hexpiry, hid, htrig⟩ := checkTimer_due hdue
    obtain ⟨hrouter', hexpiry', hid', htrig'⟩ := checkTimer_due hdue'
    have hkatime' : (env.withClock clock).clock (s'.readings + 1) = env.clock (s.readings + 1) := hkatime
    rw [hkatime'] at hexpiry' htrig'
    refine ⟨fun u => ?_, fun u => ?_, hid h.identify, hid' h.identify', hset, hflag, ?_, hque⟩
    · rw [hrouter, hrouter', h.router]
    · rw [hexpiry, hexpiry', h.expiry]
    · rw [htrig, htrig']
      exact congrArg (· + timerPeriod) hrecount
  · have hdue' : ¬ s'.trigtime ≤ s'.now (env.withClock clock) := by rwa [h.trigtime, hnow]
    unfold Deployer.checkTimer
    rw [if_neg hdue, if_neg hdue']
    exact { h.toAlike with }

end

end CppLinuxLearn.Deployer
