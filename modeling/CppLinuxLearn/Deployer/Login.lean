import CppLinuxLearn.Deployer.System

/-!
# Logins

The log of a service tells who is logged in from where: `session log u` is the router of the last
login of `u` that no logout and no expiry has ended. The client records agree with it at all times
(`LoginInv`), and so a command that is neither a login nor a keep-alive reaches `onRecvCmd` only from
the router of a running session, and a login succeeds only where there is none.
What is logged is what was read and answered (`Written`): each login of the log has its own answer among
the frames sent, and a logout that has been read is over before anything else happens.
-/

namespace CppLinuxLearn.Deployer

open Lib Multipart Steps

/-! ## Sessions -/

def sessionStep (u : Str) (o : Option Str) : Event → Option Str
  | .loggedIn v r => if v = u then some r else o
  | .loggedOut v => if v = u then none else o
  | .expired v => if v = u then none else o
  | _ => o

/-- The router that the identity `u` is logged in from. -/
def session (log : List Event) (u : Str) : Option Str := log.foldl (sessionStep u) none

@[simp] theorem session_concat (log : List Event) (e : Event) (u : Str) :
    session (log ++ [e]) u = sessionStep u (session log u) e := by
  simp [session]

/-- The event ends the session of `u` from `r`, if there is one. -/
def Closes (u r : Str) (e : Event) : Prop :=
  e = .loggedOut u ∨ e = .expired u ∨ ∃ r', r' ≠ r ∧ e = .loggedIn u r'

theorem exists_of_session {log : List Event} {u r : Str} (h : session log u = some r) :
    ∃ a b, log = a ++ .loggedIn u r :: b ∧ ∀ e ∈ b, ¬ Closes u r e := by
  induction log using List.reverseRecOn with
  | nil => cases h
  | append_singleton log e ih =>
    have hold : session log u = some r → ¬ Closes u r e →
        ∃ a b, log ++ [e] = a ++ .loggedIn u r :: b ∧ ∀ e ∈ b, ¬ Closes u r e := by
      intro hs he
      obtain ⟨a, b, rfl, hb⟩ := ih hs
      refine ⟨a, b ++ [e], by simp, fun d hd => ?_⟩
      rcases List.mem_append.1 hd with hd | hd
      · exact hb d hd
      · rwa [List.mem_singleton.1 hd]
    rw [session_concat] at h
    cases e with
    | loggedIn v r' =>
      simp only [sessionStep] at h
      split at h
      · rename_i hv
        obtain rfl := Option.some.inj h
        exact ⟨log, [], by rw [hv], by simp⟩
      · rename_i hv
        exact hold h (by simp [Closes, hv])
    | loggedOut v =>
      simp only [sessionStep] at h
      split at h
      · cases h
      · rename_i hv
        exact hold h (by simp [Closes, hv])
    | expired v =>
      simp only [sessionStep] at h
      split at h
      · cases h
      · rename_i hv
        exact hold h (by simp [Closes, hv])
    | reached v r' cmd => exact hold h (by simp [Closes])
    | parsed v req => exact hold h (by simp [Closes])
    | answered t addr => exact hold h (by simp [Closes])

theorem exists_end_of_session_none {a b : List Event} {u r : Str}
    (h : session (a ++ .loggedIn u r :: b) u = none) : .loggedOut u ∈ b ∨ .expired u ∈ b := by
  induction b using List.reverseRecOn with
  | nil => simp [session, sessionStep] at h
  | append_singleton b e ih =>
    rw [show a ++ Event.loggedIn u r :: (b ++ [e]) = (a ++ Event.loggedIn u r :: b) ++ [e] by simp,
      session_concat] at h
    have hold : session (a ++ .loggedIn u r :: b) u = none →
        .loggedOut u ∈ b ++ [e] ∨ .expired u ∈ b ++ [e] := fun h =>
      (ih h).imp (List.mem_append_left _) (List.mem_append_left _)
    cases e with
    | loggedIn v r' =>
      simp only [sessionStep] at h
      split at h
      · cases h
      · exact hold h
    | loggedOut v =>
      simp only [sessionStep] at h
      split at h
      · rename_i hv
        exact .inl (by simp [hv])
      · exact hold h
    | expired v =>
      simp only [sessionStep] at h
      split at h
      · rename_i hv
        exact .inr (by simp [hv])
      · exact hold h
    | reached v r' cmd => exact hold h
    | parsed v req => exact hold h
    | answered t addr => exact hold h

/-! ## The invariant -/

/-- The router a client record says its identity is logged in from. -/
def DispatcherClient.session (c : DispatcherClient) : Option Str :=
  if c.bLogin then some c.strRouter else none

/-- What the log has to say when an event is added to it. -/
def Admitted (pre : List Event) : Event → Prop
  | .reached u r cmd =>
    cmd ≠ ECommandType.TLogin.toInt → cmd ≠ ECommandType.TKeepAlive.toInt → session pre u = some r
  | .loggedIn u _ => session pre u = none
  | _ => True

/-- The records and the log tell of the same sessions. -/
structure LoginInv (s : Service) : Prop where
  identify : ∀ u c, s.client? u = some c → c.strIdentify = u
  session : ∀ u, session s.log u = (s.client? u).bind DispatcherClient.session
  admitted : Always Admitted s.log

namespace LoginInv
variable {env : Env} {s s' : Service}

theorem congr (h : LoginInv s) (hc : ∀ u, s'.client? u = s.client? u) (hl : s'.log = s.log) :
    LoginInv s' where
  identify u c hu := h.identify u c (by rwa [← hc u])
  session u := by rw [hl, hc u, h.session u]
  admitted := hl ▸ h.admitted

theorem modifyClient (h : LoginInv s) {u : Str} {f : DispatcherClient → DispatcherClient}
    (hid : ∀ c, (f c).strIdentify = c.strIdentify)
    (hs : ∀ c, s.client? u = some c → (f c).session = c.session) : LoginInv (s.modifyClient u f) where
  identify v c hv := by
    rw [Service.client?_modifyClient] at hv
    split at hv
    · obtain ⟨d, hd, rfl⟩ := Option.map_eq_some_iff.1 hv
      rw [hid, h.identify v d hd]
    · exact h.identify v c hv
  session v := by
    rw [Service.log_modifyClient, h.session v, Service.client?_modifyClient]
    split
    · subst v
      cases hc : s.client? u with
      | none => rfl
      | some c => exact (hs c hc).symm
    · rfl
  admitted := h.admitted

theorem modifyClient_logEvent (h : LoginInv s) {u : Str} {f : DispatcherClient → DispatcherClient}
    {e : Event} (hid : ∀ c, (f c).strIdentify = c.strIdentify) (he : Admitted s.log e)
    (hs : ∀ c, s.client? u = some c → sessionStep u c.session e = (f c).session)
    (hnone : s.client? u = none → sessionStep u none e = none)
    (hother : ∀ v o, v ≠ u → sessionStep v o e = o) :
    LoginInv ((s.modifyClient u f).logEvent e) where
  identify v c hv := by
    rw [Service.client?_logEvent, Service.client?_modifyClient] at hv
    split at hv
    · obtain ⟨d, hd, rfl⟩ := Option.map_eq_some_iff.1 hv
      rw [hid, h.identify v d hd]
    · exact h.identify v c hv
  session v := by
    rw [Service.log_logEvent, Service.log_modifyClient, session_concat, h.session v,
      Service.client?_logEvent, Service.client?_modifyClient]
    split
    · subst v
      cases hc : s.client? u with
      | none => exact hnone hc
      | some c => exact hs c hc
    · exact hother v _ ‹_›
  admitted := (always_concat _).2 ⟨h.admitted, he⟩

theorem logEvent (h : LoginInv s) {e : Event} (he : Admitted s.log e)
    (hs : ∀ u o, sessionStep u o e = o) : LoginInv (s.logEvent e) where
  identify := h.identify
  session u := by rw [Service.log_logEvent, session_concat, hs, h.session u]; rfl
  admitted := (always_concat _).2 ⟨h.admitted, he⟩

theorem init : LoginInv (Service.init env) where
  identify u c h := by cases h
  session u := rfl
  admitted := always_nil _

/-! ## The steps keep it -/

theorem findClient (h : LoginInv s) (u : Str) : LoginInv (findClient env u s) := by
  unfold Deployer.findClient
  split
  · exact h
  · rename_i hu
    have hnone : s.client? u = none := by simpa using hu
    refine ⟨fun v c hv => ?_, fun v => ?_, h.admitted⟩
    · rw [Service.client?_addClient] at hv
      by_cases hvu : v = u
      · subst v
        rw [hnone, if_pos rfl] at hv
        obtain rfl := Option.some.inj hv
        rfl
      · rw [if_neg hvu, Option.or_none] at hv
        exact h.identify v c hv
    · rw [Service.log_addClient, h.session v, Service.client?_addClient]
      by_cases hvu : v = u
      · subst v
        rw [hnone, if_pos rfl]
        rfl
      · rw [if_neg hvu, Option.or_none]

theorem katimeClient (h : LoginInv s) (tnow : Int) (u : Str) : LoginInv (katimeClient env tnow s u) := by
  unfold Deployer.katimeClient
  cases hc : s.client? u with
  | none => exact h
  | some c =>
    simp only
    split
    · exact h.modifyClient_logEvent (fun _ => rfl) trivial
        (fun c _ => by simp [sessionStep, DispatcherClient.session]) (fun hn => by simp [sessionStep])
        fun v o hv => by simp [sessionStep, hv.symm]
    · have hread : LoginInv s.readClock := h.congr (fun _ => rfl) rfl
      have hwrite : LoginInv (s.readClock.modifyClient u fun c => { c with tLastWrite := s.now env }) :=
        hread.modifyClient (fun _ => rfl) fun _ _ => rfl
      exact hwrite.congr (fun _ => rfl) rfl

theorem checkTimer (h : LoginInv s) : LoginInv (checkTimer env s) := by
  have hclock : ∀ (s : Service) readings trigtime, LoginInv s →
      LoginInv { s with readings := readings, trigtime := trigtime } :=
    fun _ _ _ h => h.congr (fun _ => rfl) rfl
  exact checkTimer_keeps hclock (fun tnow _ u h => h.katimeClient tnow u) h

/-- An accepted message: a running session is from its router, so taking over the router does not
change it; without one, only a login and a keep-alive are accepted. -/
theorem reach (h : LoginInv s) {r u : Str} {cmd : CInt} {c : DispatcherClient}
    (hv : verdict s r u cmd = .accepted) (hc : (Deployer.findClient env u s).client? u = some c) :
    LoginInv (reach env r u cmd c s) := by
  obtain ⟨hlogin, hrouter⟩ := verdict_accepted env hv hc
  have hf : LoginInv (Deployer.findClient env u s) := h.findClient u
  have hsession : Deployer.session (Deployer.findClient env u s).log u = c.session := by
    rw [hf.session u, hc, Option.bind_some]
  have htouch : LoginInv (touchClient env r u (Deployer.findClient env u s)) := by
    have hread : LoginInv (Deployer.findClient env u s).readClock := hf.congr (fun _ => rfl) rfl
    refine hread.modifyClient (fun _ => rfl) fun d hd => ?_
    obtain rfl : c = d := Option.some.inj (hc.symm.trans hd)
    -- a session is from this router already
    have hsame : (if c.bLogin then some r else none) = c.session :=
      if_ctx_congr Iff.rfl (fun hb => congrArg some (hrouter hb).symm) fun _ => rfl
    exact hsame
  refine htouch.logEvent (fun h₁ h₂ => ?_) fun _ _ => rfl
  have hb : c.bLogin = true := by simpa [h₁, h₂] using hlogin
  rw [hf.identify u c hc]
  exact hsession.trans (by simp [DispatcherClient.session, hb, hrouter hb])

theorem onReqLogin (h : LoginInv s) {c : DispatcherClient} (hc : s.client? c.strIdentify = some c)
    (reqid : CInt) : LoginInv (onReqLogin env c reqid s) := by
  unfold Deployer.onReqLogin
  split
  · exact h.congr (fun _ => rfl) rfl
  · rename_i hb
    have hadm : Admitted s.log (.loggedIn c.strIdentify c.strRouter) := by
      simp [Admitted, h.session, hc, DispatcherClient.session, hb]
    have hlogin : LoginInv ((s.modifyClient c.strIdentify fun c => { c with bLogin := true }).logEvent
        (.loggedIn c.strIdentify c.strRouter)) := by
      refine h.modifyClient_logEvent (fun _ => rfl) hadm (fun d hd => ?_) (fun hn => ?_)
        fun v o hv => by simp [sessionStep, hv.symm]
      · obtain rfl : c = d := Option.some.inj (hc.symm.trans hd)
        simp [sessionStep, DispatcherClient.session]
      · rw [hc] at hn
        cases hn
    exact hlogin.congr (fun _ => rfl) rfl

theorem onReqLogout (h : LoginInv s) (c : DispatcherClient) (reqid : CInt) :
    LoginInv (onReqLogout env c reqid s) := by
  have hlogout : LoginInv ((s.modifyClient c.strIdentify fun c => { c with bLogin := false }).logEvent
      (.loggedOut c.strIdentify)) :=
    h.modifyClient_logEvent (fun _ => rfl) trivial
      (fun d _ => by simp [sessionStep, DispatcherClient.session]) (fun hn => by simp [sessionStep])
      fun v o hv => by simp [sessionStep, hv.symm]
  exact hlogout.congr (fun _ => rfl) rfl

theorem onKeepAlive (h : LoginInv s) (c : DispatcherClient) : LoginInv (onKeepAlive env c s) := by
  have hread : LoginInv s.readClock := h.congr (fun _ => rfl) rfl
  exact hread.modifyClient (fun _ => rfl) fun _ _ => rfl

theorem handleCmd (h : LoginInv s) {c : DispatcherClient} (hc : s.client? c.strIdentify = some c)
    (req : Request) : LoginInv (handleCmd env c req s) := by
  cases req with
  | login reqid => exact h.onReqLogin hc reqid
  | logout reqid => exact h.onReqLogout c reqid
  | keepAlive => exact h.onKeepAlive c
  | query reqid eletype fs =>
    simp only [Deployer.handleCmd, submitSql]
    split <;> exact h.congr (fun _ => rfl) rfl
  | delByCol reqid eletype fs =>
    simp only [Deployer.handleCmd, submitSql]
    split <;> exact h.congr (fun _ => rfl) rfl
  | byObjects op reqid t objVec =>
    simp only [Deployer.handleCmd]
    split <;> exact h.congr (fun _ => rfl) rfl
  | skipped => exact h

theorem handled (h : LoginInv s) (hs : Handled env s s') : LoginInv s' := by
  cases hs with
  | unread => exact h
  | unreadFound u => exact h.findClient u
  | identifyErr r rsp => exact h.congr (fun _ => rfl) rfl
  | rejected r u rsp => exact (h.findClient u).congr (fun _ => rfl) rfl
  | reached hv hc => exact h.reach hv hc
  | @ran r u cmd c hv hc req hread =>
    have hid : c.strIdentify = u := (h.findClient u).identify u c hc
    have hparsed := (h.reach hv hc).logEvent (e := .parsed c.strIdentify req) trivial fun _ _ => rfl
    refine hparsed.handleCmd ?_ req
    rw [Service.client?_logEvent, Deployer.reach, Service.client?_logEvent, touchClient,
      DispatcherClient.touched, hid, Service.client?_modifyClient_self, Service.client?_readClock, hc,
      Option.map_some, hid]

theorem effect {running : List Task} (h : LoginInv s) (hs : Effect env running s s') :
    LoginInv s' := by
  cases hs with
  | same hs => exact h.congr (fun u => congrArg (List.lookup u) hs.mapClients) hs.log
  | timer => exact h.checkTimer
  | handled hs => exact h.handled hs
  | answered ht => exact h.logEvent trivial fun _ _ => rfl

end LoginInv

/-- **Every reachable state has the login invariant.** -/
theorem loginInv_run {env : Env} {threads : Nat} {queue : List Msg} {as : List Action} {sys : System}
    (h : run (step env threads) (System.init env queue) as = some sys) : LoginInv sys.svc :=
  run_invariant (I := fun sys => LoginInv sys.svc) (fun _ _ _ hi hs => hi.effect (step_effect hs))
    LoginInv.init h

/-! ## What is logged is what was read and answered -/

/-- The frames tell the router `r` that a login has succeeded. -/
def AnswersLogin (r : Str) (frames : List (Bytes × Bool)) : Prop :=
  ∃ rsp : ReqResponse, rsp.ErrorID = EResponseErrType.TSuccess.toInt ∧
    rsp.CmdType = ECommandType.TLogin.toInt ∧
    frames = [(r, true), (bytes STCMsgPattern.TPassiveResponse.toInt, true), (bytes rsp, false)]

/-- The routers that the logins of a log came from, in order. -/
def loginRouters (log : List Event) : List Str :=
  log.filterMap fun | .loggedIn _ r => some r | _ => none

/-- The events of one step and the frames sent in it. -/
inductive Told : List Event → List (Bytes × Bool) → Prop
  | other {es : List Event} {out : List (Bytes × Bool)} (hlogin : ∀ u r, .loggedIn u r ∉ es)
      (hlogout : ∀ u reqid, .parsed u (.logout reqid) ∉ es) : Told es out
  | login {u r : Str} {reqid : CInt} {out : List (Bytes × Bool)} (hout : AnswersLogin r out) :
    Told [.reached u r ECommandType.TLogin.toInt, .parsed u (.login reqid), .loggedIn u r] out
  | logout {u r : Str} {cmd reqid : CInt} {out : List (Bytes × Bool)} :
    Told [.reached u r cmd, .parsed u (.logout reqid), .loggedOut u] out

/-- The log and the frames sent, put together from what single steps tell. -/
inductive Written : List Event → List (Bytes × Bool) → Prop
  | nil : Written [] []
  | step {log es : List Event} {sent out : List (Bytes × Bool)} (h : Written log sent) (ht : Told es out) :
    Written (log ++ es) (sent ++ out)

/-- What a step tells. -/
def Logs (s s' : Service) : Prop :=
  ∃ es out, s'.log = s.log ++ es ∧ s'.sent = s.sent ++ out ∧ Told es out

section
variable {env : Env} {s s' : Service}

theorem logs_checkTimer : Logs s (checkTimer env s) := by
  have hkeeps : ∃ es, (checkTimer env s).log = s.log ++ es ∧ s.sent <+: (checkTimer env s).sent ∧
      ∀ e ∈ es, ∃ u, e = .expired u := by
    refine checkTimer_keeps (P := fun s' => ∃ es, s'.log = s.log ++ es ∧ s.sent <+: s'.sent ∧
      ∀ e ∈ es, ∃ u, e = .expired u) (fun _ _ _ h => h) ?_ ⟨[], by simp, List.prefix_rfl, by simp⟩
    rintro tnow s' u ⟨es, hlog, hsent, hes⟩
    unfold katimeClient
    split
    · exact ⟨es, hlog, hsent, hes⟩
    · split
      · refine ⟨es ++ [.expired u], ?_, hsent, fun e he => ?_⟩
        · rw [Service.log_logEvent, Service.log_modifyClient, hlog, List.append_assoc]
        · exact (List.mem_append.1 he).elim (hes e) fun he => ⟨u, List.mem_singleton.1 he⟩
      · refine ⟨es, hlog, hsent.trans ?_, hes⟩
        simp only [Service.sent_innerSendMsg, List.append_assoc]
        exact List.prefix_append _ _
  obtain ⟨es, hlog, ⟨out, hsent⟩, hes⟩ := hkeeps
  refine ⟨es, out, hlog, hsent.symm, .other (fun u r h => ?_) fun u reqid h => ?_⟩ <;>
    obtain ⟨v, hv⟩ := hes _ h <;> cases hv

theorem logs_ran {r u : Str} {cmd : CInt} {c : DispatcherClient} {req : Request}
    (hread : ∃ p p' : Proc Service, (recvCmd env cmd).run p = .ok req p') :
    Logs s (handleCmd env (c.touched env (findClient env u s) r) req
      ((reach env r u cmd c s).logEvent (.parsed c.strIdentify req))) := by
  have hsent : ((reach env r u cmd c s).logEvent (.parsed c.strIdentify req)).sent = s.sent :=
    (findClient_sent env u s).1
  have hlog : ((reach env r u cmd c s).logEvent (.parsed c.strIdentify req)).log =
      s.log ++ [.reached c.strIdentify r cmd, .parsed c.strIdentify req] := by
    simp [reach]
  generalize (reach env r u cmd c s).logEvent (.parsed c.strIdentify req) = s₁ at hsent hlog ⊢
  have hother : ∀ s' : Service, (∀ id, req ≠ .logout id) → s'.log = s₁.log → s₁.sent <+: s'.sent →
      Logs s s' := by
    rintro s' hreq hs' ⟨out, hout⟩
    refine ⟨_, out, hs'.trans hlog, by rw [← hout, hsent], .other (by simp) fun v id h => ?_⟩
    simp only [List.mem_cons, List.not_mem_nil, or_false, reduceCtorEq, false_or, Event.parsed.injEq] at h
    exact hreq id h.2.symm
  cases req with
  | login reqid =>
    obtain ⟨p, p', hrun⟩ := hread
    obtain rfl := cmd_of_recvCmd_login hrun
    rw [handleCmd, onReqLogin]
    split
    · exact hother _ (by simp) rfl (Service.sent_answer s₁ _ _ ▸ List.prefix_append _ _)
    · refine ⟨[_, .parsed c.strIdentify (.login reqid), .loggedIn c.strIdentify r], _, ?_, ?_,
        .login ⟨mkResponse env .TSuccess "Login Successfully" reqid _, rfl, rfl, rfl⟩⟩
      · rw [Service.log_logEvent, Service.log_answer, Service.log_modifyClient, hlog, List.append_assoc]
        rfl
      · exact (Service.sent_answer (s₁.modifyClient _ _) _ _).trans (congrArg (· ++ _) hsent)
  | logout reqid =>
    have hout := (Service.sent_answer (s₁.modifyClient c.strIdentify fun c => { c with bLogin := false }) r
      (mkResponse env .TSuccess "Logout Successfully" reqid ECommandType.TLogout.toInt)).trans
        (congrArg (· ++ _) hsent)
    refine ⟨[.reached c.strIdentify r cmd, .parsed c.strIdentify (.logout reqid),
      .loggedOut c.strIdentify], _, ?_, hout, .logout⟩
    rw [handleCmd, onReqLogout, Service.log_logEvent, Service.log_answer, Service.log_modifyClient,
      hlog, List.append_assoc]
    rfl
  | keepAlive => exact hother _ (by simp) rfl List.prefix_rfl
  | query reqid eletype fs | delByCol reqid eletype fs =>
    simp only [handleCmd, submitSql]
    split <;> exact hother _ (by simp) rfl List.prefix_rfl
  | byObjects op reqid t objVec =>
    simp only [handleCmd]
    split <;> exact hother _ (by simp) rfl List.prefix_rfl
  | skipped => exact hother _ (by simp) rfl List.prefix_rfl

theorem Handled.logs (h : Handled env s s') : Logs s s' := by
  have hother : ∀ es out, s'.log = s.log ++ es → s'.sent = s.sent ++ out →
      (∀ u r, .loggedIn u r ∉ es) → (∀ u reqid, .parsed u (.logout reqid) ∉ es) → Logs s s' :=
    fun es out hlog hsent h₁ h₂ => ⟨es, out, hlog, hsent, .other h₁ h₂⟩
  have hfound : ∀ u, (findClient env u s).sent = s.sent := fun u => (findClient_sent env u s).1
  cases h with
  | unread => exact hother [] [] (by simp) (by simp) (by simp) (by simp)
  | unreadFound u => exact hother [] [] (by simp) (by simp [hfound]) (by simp) (by simp)
  | identifyErr r rsp =>
    exact hother [] _ (by simp) (Service.sent_answer s r rsp) (by simp) (by simp)
  | rejected r u rsp =>
    have hsent := Service.sent_answer (findClient env u s) r rsp
    exact hother [] _ (by simp) (hsent.trans (by rw [hfound])) (by simp) (by simp)
  | @reached r u cmd c hv hc =>
    have hsent : (reach env r u cmd c s).sent = s.sent := hfound u
    exact hother [.reached c.strIdentify r cmd] [] (by simp [reach]) (by simp [hsent]) (by simp) (by simp)
  | ran hv hc req hread => exact logs_ran hread

theorem Effect.logs {running : List Task} (h : Effect env running s s') : Logs s s' := by
  cases h with
  | same hs =>
    obtain ⟨out, hout⟩ := hs.sent
    exact ⟨[], out, by simp [hs.log], hout.symm, .other (by simp) (by simp)⟩
  | timer => exact logs_checkTimer
  | handled hs => exact hs.logs
  | @answered t ht =>
    exact ⟨[.answered t (s.router t.client)], [], rfl, by simp [Service.logEvent], .other (by simp) (by simp)⟩

end

theorem written_run {env : Env} {threads : Nat} {queue : List Msg} {as : List Action} {sys : System}
    (h : run (step env threads) (System.init env queue) as = some sys) :
    Written sys.svc.log sys.svc.sent := by
  refine run_invariant (I := fun sys => Written sys.svc.log sys.svc.sent) (fun s a t hi hs => ?_) .nil h
  obtain ⟨es, out, hlog, hsent, ht⟩ := (step_effect hs).logs
  rw [hlog, hsent]
  exact hi.step ht

namespace Written
variable {log : List Event} {sent : List (Bytes × Bool)}

theorem answers (h : Written log sent) :
    ∃ answers, List.Forall₂ AnswersLogin (loginRouters log) answers ∧ answers.flatten.Sublist sent := by
  induction h with
  | nil => exact ⟨[], .nil, List.Sublist.refl _⟩
  | @step log es sent out h ht ih =>
    obtain ⟨answers, hanswers, hsub⟩ := ih
    have hnone : loginRouters es = [] → ∃ answers, List.Forall₂ AnswersLogin (loginRouters (log ++ es)) answers ∧
        answers.flatten.Sublist (sent ++ out) := fun hes =>
      ⟨answers, by rwa [loginRouters, List.filterMap_append, ← loginRouters, ← loginRouters, hes, List.append_nil],
        hsub.trans (List.sublist_append_left _ _)⟩
    cases ht with
    | other hlogin hlogout =>
      refine hnone (List.filterMap_eq_nil_iff.2 fun e he => ?_)
      split
      · exact absurd he (hlogin _ _)
      · rfl
    | logout => exact hnone rfl
    | @login u r reqid out hout =>
      refine ⟨answers ++ [out], ?_, ?_⟩
      · rw [loginRouters, List.filterMap_append]
        exact List.rel_append hanswers (.cons hout .nil)
      · rw [List.flatten_append, List.flatten_singleton]
        exact hsub.append (List.Sublist.refl _)

/-- An event was logged by a step. -/
theorem exists_told (h : Written log sent) {pre post : List Event} {e : Event} (hlog : log = pre ++ e :: post) :
    ∃ log₁ es₁ es₂ out log₂, Told (es₁ ++ e :: es₂) out ∧ pre = log₁ ++ es₁ ∧ post = es₂ ++ log₂ := by
  induction h generalizing post with
  | nil => simp at hlog
  | @step log es sent out h ht ih =>
    rcases List.append_eq_append_iff.1 hlog with ⟨es₁, rfl, rfl⟩ | ⟨l, rfl, hl⟩
    · exact ⟨log, es₁, post, out, [], ht, rfl, by simp⟩
    · cases l with
      | nil =>
        obtain rfl : es = e :: post := hl.symm
        exact ⟨pre, [], post, out, [], ht, by simp, by simp⟩
      | cons e' l =>
        obtain ⟨rfl, rfl⟩ : e = e' ∧ post = l ++ es := by simpa using hl
        obtain ⟨log₁, es₁, es₂, out', log₂, ht', hpre, rfl⟩ := ih rfl
        exact ⟨log₁, es₁, es₂, out', log₂ ++ es, ht', hpre, by simp⟩

/-- A login follows its reading. -/
theorem of_loggedIn (h : Written log sent) {pre post : List Event} {u r : Str}
    (hlog : log = pre ++ .loggedIn u r :: post) : ∃ a reqid,
      pre = a ++ [.reached u r ECommandType.TLogin.toInt, .parsed u (.login reqid)] := by
  obtain ⟨log₁, es₁, es₂, out, log₂, ht, rfl, -⟩ := h.exists_told hlog
  generalize hes : es₁ ++ Event.loggedIn u r :: es₂ = es at ht
  have hmem : Event.loggedIn u r ∈ es := hes ▸ List.mem_append_right _ List.mem_cons_self
  cases ht with
  | other hlogin hlogout => exact absurd hmem (hlogin u r)
  | logout => simp at hmem
  | @login u' r' reqid out hout =>
    obtain ⟨rfl, rfl⟩ : u = u' ∧ r = r' := by simpa using hmem
    refine ⟨log₁, reqid, congrArg (log₁ ++ ·) ?_⟩
    -- the login is the last event of its step
    match es₁, hes with
    | [_, _], hes =>
      injection hes with h₁ hes
      injection hes with h₂ hes
      rw [h₁, h₂]
    | [], hes => simp at hes
    | [_], hes => simp at hes
    | [_, _, _], hes => simp at hes
    | _ :: _ :: _ :: _ :: _, hes => simp at hes

theorem of_logout (h : Written log sent) {pre post : List Event} {u : Str} {reqid : CInt}
    (hlog : log = pre ++ .parsed u (.logout reqid) :: post) : ∃ b, post = .loggedOut u :: b := by
  obtain ⟨log₁, es₁, es₂, out, log₂, ht, -, rfl⟩ := h.exists_told hlog
  generalize hes : es₁ ++ Event.parsed u (.logout reqid) :: es₂ = es at ht
  have hmem : Event.parsed u (.logout reqid) ∈ es := hes ▸ List.mem_append_right _ List.mem_cons_self
  cases ht with
  | other hlogin hlogout => exact absurd hmem (hlogout u reqid)
  | login => simp at hmem
  | logout =>
    match es₁, hes with
    | [_], hes =>
      injection hes with h₁ hes
      injection hes with h₂ hes
      obtain rfl := (Event.parsed.inj h₂).1
      exact ⟨log₂, by rw [hes]; rfl⟩
    | [], hes => simp at hes
    | [_, _], hes => simp at hes
    | _ :: _ :: _ :: _, hes => simp at hes

end Written

/-- The event ends the session of `u` from `r`, if there is one, or is the reading of its logout. -/
def Ends (u r : Str) (e : Event) : Prop := Closes u r e ∨ ∃ reqid, e = .parsed u (.logout reqid)

/-- **A command reaches `onRecvCmd` only within a session of its router.** In every run, whatever the
messages, the clock and the order of the steps: before a command other than a login or a keep-alive
is run for `u` from `r` there is a login of `u` from `r`, since which no logout of `u` has been read, and
`u` has not logged out, expired or logged in from another router. A login was read as a `TLogin` of its
identity from its router, and each has its own answer with `TSuccess` to that router among the frames
sent; between two logins of `u` it has logged out or expired. -/
theorem reached_loggedIn (env : Env) (threads : Nat) (queue : List Msg) (as : List Action)
    (sys : System) (h : run (step env threads) (System.init env queue) as = some sys) :
    (∀ pre u r cmd post, sys.svc.log = pre ++ .reached u r cmd :: post →
      cmd ≠ ECommandType.TLogin.toInt → cmd ≠ ECommandType.TKeepAlive.toInt →
      ∃ a b, pre = a ++ .loggedIn u r :: b ∧ ∀ e ∈ b, ¬ Ends u r e) ∧
    (∀ pre u r post, sys.svc.log = pre ++ .loggedIn u r :: post → ∃ a reqid,
      pre = a ++ [.reached u r ECommandType.TLogin.toInt, .parsed u (.login reqid)]) ∧
    (∃ answers, List.Forall₂ AnswersLogin (loginRouters sys.svc.log) answers ∧
      answers.flatten.Sublist sys.svc.sent) ∧
    ∀ a u r b r' c, sys.svc.log = a ++ .loggedIn u r :: b ++ .loggedIn u r' :: c →
      .loggedOut u ∈ b ∨ .expired u ∈ b := by
  have hinv := loginInv_run h
  have hwritten := written_run h
  refine ⟨fun pre u r cmd post hlog h₁ h₂ => ?_, fun pre u r post hlog => hwritten.of_loggedIn hlog,
    hwritten.answers, fun a u r b r' c hlog => ?_⟩
  · obtain ⟨a, b, rfl, hb⟩ := exists_of_session (hinv.admitted pre _ post hlog h₁ h₂)
    refine ⟨a, b, rfl, fun e he => ?_⟩
    rintro (hcloses | ⟨reqid, rfl⟩)
    · exact hb e he hcloses
    · -- the logout would be over before the command
      obtain ⟨b₁, b₂, rfl⟩ := List.append_of_mem he
      have hread : sys.svc.log = (a ++ .loggedIn u r :: b₁) ++
          .parsed u (.logout reqid) :: (b₂ ++ .reached u r cmd :: post) := by
        rw [hlog]
        simp
      obtain ⟨b₃, hb₃⟩ := hwritten.of_logout hread
      cases b₂ with
      | nil => cases hb₃
      | cons e' b₂ =>
        obtain rfl := (List.cons.inj hb₃).1
        exact hb (.loggedOut u) (by simp) (.inl rfl)
  · exact exists_end_of_session_none (hinv.admitted _ _ c hlog)

theorem loginThenQuery_isSome : (run (step default 4) (System.init default loginThenQuery)
    [.refresh [managerNamed "amy"], .readable, .readable]).isSome := by decide +kernel

/-- A query after a login. -/
theorem reached_loggedIn_query : ∃ a b,
    [.reached (text "amy") (text "r1") ECommandType.TLogin.toInt,
        .parsed (text "amy") (.login 7), .loggedIn (text "amy") (text "r1")] =
      a ++ Event.loggedIn (text "amy") (text "r1") :: b ∧
      ∀ e ∈ b, ¬ Ends (text "amy") (text "r1") e :=
  (reached_loggedIn default 4 loginThenQuery _ _ (Option.some_get loginThenQuery_isSome).symm).1 _ _ _
    ECommandType.TQuery.toInt [.parsed (text "amy") (.query 8 0 [])] (by decide +kernel) (by decide)
    (by decide)

end CppLinuxLearn.Deployer
