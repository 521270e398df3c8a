import CppLinuxLearn.Deployer.Order
import CppLinuxLearn.Deployer.Login
import Mathlib.Data.Int.ConditionallyCompleteOrder

/-!
# How long a session lasts

`katimeHandle` ends the session of a client whose `tLastRead` is more than sixty seconds old. Every accepted
message sets this time, and nothing else does, so a session outlasts sixty seconds from each accepted
message (`session_lasts`), whatever others send in the meantime, and a manager that is silent for longer
loses its session at the next time the timer is due (`session_expires`).
-/

namespace CppLinuxLearn.Deployer

open Lib Multipart Steps

/-! ## The log and the clock go on -/

theorem katimeHandle_keeps {P : Service → Prop} {env : Env} {s : Service}
    (hclient : ∀ s' u, P s' → P (katimeClient env (s.now env) s' u)) (hs : P s.readClock) :
    P (katimeHandle env s) := by
  have hall : ∀ (us : List Str) s', P s' → P (us.foldl (katimeClient env (s.now env)) s') := by
    intro us
    induction us with
    | nil => exact fun _ h => h
    | cons u us ih => exact fun s' h => ih _ (hclient s' u h)
  exact hall _ _ hs

/-- Nothing is taken from the log, and the clock is not read again at an earlier time. -/
structure Later (s s' : Service) : Prop where
  readings : s.readings ≤ s'.readings
  log : ∃ es, s'.log = s.log ++ es

namespace Later
variable {env : Env} {s s' s'' : Service}

theorem refl (s : Service) : Later s s := ⟨le_refl _, [], (List.append_nil _).symm⟩

theorem trans (h : Later s s') (h' : Later s' s'') : Later s s'' := by
  obtain ⟨es, hes⟩ := h.log
  obtain ⟨es', hes'⟩ := h'.log
  exact ⟨h.readings.trans h'.readings, es ++ es', by rw [hes', hes, List.append_assoc]⟩

theorem of_le (h : Later s s') (s'' : Service) (hr : s'.readings ≤ s''.readings) (hl : s''.log = s'.log) : Later s s'' :=
  h.trans ⟨hr, [], by rw [hl, List.append_nil]⟩

theorem logEvent (h : Later s s') (e : Event) : Later s (s'.logEvent e) := h.trans ⟨le_refl _, [e], rfl⟩

theorem katimeClient (h : Later s s') (tnow : Int) (u : Str) : Later s (katimeClient env tnow s' u) := by
  unfold Deployer.katimeClient
  split
  · exact h
  · split
    · exact (h.of_le (s'.modifyClient u _) (le_refl _) rfl).logEvent _
    · exact h.of_le _ (Nat.le_succ _) rfl

theorem checkTimer (s : Service) : Later s (checkTimer env s) := by
  unfold Deployer.checkTimer
  split
  · have hread : Later s s.readClock.readClock := ((refl s).of_le s.readClock (Nat.le_succ _) rfl).of_le _
      (Nat.le_succ _) rfl
    have hka : Later s (katimeHandle env s.readClock) := katimeHandle_keeps (fun s' u h => h.katimeClient _ u) hread
    exact hka.of_le _ (Nat.le_succ _) rfl
  · exact (refl s).of_le _ (Nat.le_succ _) rfl

theorem findClient (u : Str) (s : Service) : Later s (findClient env u s) := by
  unfold Deployer.findClient
  split
  · exact refl s
  · exact (refl s).of_le _ (Nat.le_succ _) rfl

theorem reach (r u : Str) (cmd : CInt) (c : DispatcherClient) (s : Service) : Later s (reach env r u cmd c s) :=
  ((findClient u s).of_le (touchClient env r u _) (Nat.le_succ _) rfl).logEvent _

theorem handleCmd (h : Later s s') (c : DispatcherClient) (req : Request) : Later s (handleCmd env c req s') := by
  cases req with
  | login reqid =>
    rw [Deployer.handleCmd, onReqLogin]
    split
    · exact h.of_le _ (le_refl _) rfl
    · exact (h.of_le ((s'.modifyClient _ _).answer _ _) (le_refl _) rfl).logEvent _
  | logout reqid => exact (h.of_le ((s'.modifyClient _ _).answer _ _) (le_refl _) rfl).logEvent _
  | keepAlive => exact h.of_le _ (Nat.le_succ _) rfl
  | query reqid eletype fs =>
    rw [Deployer.handleCmd, submitSql]
    split <;> exact h.of_le _ (le_refl _) rfl
  | delByCol reqid eletype fs =>
    rw [Deployer.handleCmd, submitSql]
    split <;> exact h.of_le _ (le_refl _) rfl
  | byObjects op reqid t objVec =>
    rw [Deployer.handleCmd]
    split <;> exact h.of_le _ (le_refl _) rfl
  | skipped => exact h

theorem handled (h : Handled env s s') : Later s s' := by
  cases h with
  | unread => exact refl s
  | unreadFound u => exact findClient u s
  | identifyErr r rsp => exact (refl s).of_le _ (le_refl _) rfl
  | rejected r u rsp => exact (findClient u s).of_le _ (le_refl _) rfl
  | @reached r u cmd c => exact reach r u cmd c s
  | @ran r u cmd c hv hc req => exact ((reach r u cmd c s).logEvent _).handleCmd _ req

end Later

/-! ## The record of one client -/

/-- There is a record for `u`, and it has `P`. -/
def Has (P : DispatcherClient → Prop) (u : Str) (s : Service) : Prop := ∃ c, s.client? u = some c ∧ P c

namespace Has
variable {env : Env} {P : DispatcherClient → Prop} {u : Str} {s s' : Service}

theorem of_client (h : Has P u s) (hc : s'.client? u = s.client? u) : Has P u s' := by
  obtain ⟨c, hu, hP⟩ := h
  exact ⟨c, hc.trans hu, hP⟩

theorem modifyClient (h : Has P u s) {v : Str} {f : DispatcherClient → DispatcherClient}
    (hf : v = u → ∀ c, P c → P (f c)) : Has P u (s.modifyClient v f) := by
  obtain ⟨c, hu, hP⟩ := h
  rw [Has, Service.client?_modifyClient]
  by_cases hv : u = v
  · rw [if_pos hv, hu]
    exact ⟨f c, rfl, hf hv.symm c hP⟩
  · rw [if_neg hv]
    exact ⟨c, hu, hP⟩

theorem findClient (h : Has P u s) (v : Str) : Has P u (findClient env v s) := by
  refine h.of_client ?_
  obtain ⟨c, hu, -⟩ := h
  unfold Deployer.findClient
  split
  · rfl
  · rw [Service.client?_addClient, hu]
    rfl

theorem reach (h : Has P u s) {r v : Str} (cmd : CInt) (c : DispatcherClient)
    (hread : v = u → ∀ d, P d →
      P { d with strRouter := r, tLastRead := (Deployer.findClient env v s).now env }) :
    Has P u (reach env r v cmd c s) := by
  have hclock : Has P u (Deployer.findClient env v s).readClock := (h.findClient v).of_client rfl
  have htouch : Has P u (touchClient env r v (Deployer.findClient env v s)) :=
    hclock.modifyClient fun hv d hd => hread hv d hd
  exact htouch.of_client rfl

theorem handleCmd (h : Has P u s) {c : DispatcherClient} {req : Request}
    (hlogin : c.strIdentify = u → ∀ d, P d → P { d with bLogin := true })
    (hlogout : ∀ reqid, req = .logout reqid → c.strIdentify = u → ∀ d, P d → P { d with bLogin := false })
    (hread : c.strIdentify = u → ∀ d, P d → P { d with tLastRead := s.now env }) :
    Has P u (handleCmd env c req s) := by
  cases req with
  | login reqid =>
    rw [Deployer.handleCmd, onReqLogin]
    split
    · exact h.of_client rfl
    · exact (h.modifyClient fun hu d => hlogin hu d).of_client rfl
  | logout reqid => exact (h.modifyClient fun hu d => hlogout reqid rfl hu d).of_client rfl
  | keepAlive =>
    have hclock : Has P u s.readClock := h.of_client rfl
    exact hclock.modifyClient fun hu d => hread hu d
  | query reqid eletype fs =>
    rw [Deployer.handleCmd, submitSql]
    split <;> exact h.of_client rfl
  | delByCol reqid eletype fs =>
    rw [Deployer.handleCmd, submitSql]
    split <;> exact h.of_client rfl
  | byObjects op reqid t objVec =>
    rw [Deployer.handleCmd]
    split <;> exact h.of_client rfl
  | skipped => exact h

theorem katimeClient (h : Has P u s) {tnow : Int} {v : Str} (hwrite : ∀ d n, P d → P { d with tLastWrite := n })
    (hend : v = u → ∀ d, P d → d.tLastRead + 60 * 1000000000 < tnow → P { d with bLogin := false }) :
    Has P u (katimeClient env tnow s v) := by
  unfold Deployer.katimeClient
  cases hv : s.client? v with
  | none => exact h
  | some d =>
    simp only
    split
    next hold =>
      obtain ⟨c, hu, hP⟩ := h
      by_cases hvu : v = u
      · subst hvu
        obtain rfl := Option.some.inj (hu.symm.trans hv)
        refine ⟨_, ?_, hend rfl c hP hold⟩
        rw [Service.client?_logEvent, Service.client?_modifyClient_self, hv]
        rfl
      · refine ⟨c, ?_, hP⟩
        rwa [Service.client?_logEvent, Service.client?_modifyClient, if_neg (Ne.symm hvu)]
    next =>
      have hread : Has P u s.readClock := h.of_client rfl
      exact (hread.modifyClient fun _ d => hwrite d _).of_client rfl

theorem checkTimer (h : Has P u s) (hwrite : ∀ d n, P d → P { d with tLastWrite := n })
    (hend : s.trigtime ≤ s.now env → ∀ d, P d → d.tLastRead + 60 * 1000000000 < env.clock (s.readings + 1) →
      P { d with bLogin := false }) : Has P u (checkTimer env s) := by
  unfold Deployer.checkTimer
  split
  next hdue =>
    have hka : Has P u (katimeHandle env s.readClock) :=
      katimeHandle_keeps (fun s' v h => h.katimeClient hwrite fun _ => hend hdue) (h.of_client rfl)
    exact hka.of_client rfl
  next => exact h.of_client rfl

theorem ended (h : Has P u s) (hdue : s.trigtime ≤ s.now env) (hwrite : ∀ d n, P d → P { d with tLastWrite := n })
    (hold : ∀ d, P d → d.tLastRead + 60 * 1000000000 < env.clock (s.readings + 1)) :
    Has (fun c => c.bLogin = false) u (Deployer.checkTimer env s) := by
  have hall : ∀ (us : List Str) s', Has (fun c => c.bLogin = false) u s' →
      Has (fun c => c.bLogin = false) u (us.foldl (Deployer.katimeClient env (env.clock (s.readings + 1))) s') := by
    intro us
    induction us with
    | nil => exact fun _ h => h
    | cons v us ih => exact fun s' h => ih _ (h.katimeClient (fun _ _ h => h) fun _ _ _ _ => rfl)
  have hfold : ∀ (us : List Str) s', u ∈ us → Has P u s' →
      Has (fun c => c.bLogin = false) u (us.foldl (Deployer.katimeClient env (env.clock (s.readings + 1))) s') := by
    intro us
    induction us with
    | nil => simp
    | cons v us ih =>
      intro s' hmem hs'
      by_cases hvu : v = u
      · subst hvu
        obtain ⟨c, hc, hP⟩ := hs'
        refine hall us _ ⟨{ c with bLogin := false }, ?_, rfl⟩
        rw [Deployer.katimeClient, hc]
        simp only [if_pos (hold c hP), Service.client?_logEvent, Service.client?_modifyClient_self, hc, Option.map_some]
      · refine ih _ ?_ (hs'.katimeClient hwrite fun h => absurd h hvu)
        exact (List.mem_cons.1 hmem).resolve_left (Ne.symm hvu)
  have hmem : u ∈ s.mapClients.map Prod.fst := by
    obtain ⟨c, hc, -⟩ := h
    obtain ⟨l₁, l₂, hl, -⟩ := List.lookup_eq_some_iff.1 hc
    simp [hl]
  rw [Deployer.checkTimer, if_pos hdue]
  exact (hfold _ s.readClock.readClock hmem (h.of_client rfl)).of_client rfl

end Has

theorem readings_checkTimer {env : Env} {s : Service} (hdue : s.trigtime ≤ s.now env) :
    s.readings + 1 < (checkTimer env s).readings := by
  have hka : s.readings + 2 ≤ (katimeHandle env s.readClock).readings :=
    katimeHandle_keeps (P := fun s' => s.readings + 2 ≤ s'.readings)
      (fun s' u h => h.trans (Later.katimeClient (Later.refl s') _ u).readings) (le_refl _)
  rw [checkTimer, if_pos hdue]
  exact hka.trans (Nat.le_succ _)

theorem log_handleCmd (env : Env) (c : DispatcherClient) (req : Request) (s : Service) :
    ∃ es, (handleCmd env c req s).log = s.log ++ es ∧
      (∀ e ∈ es, (∃ r, e = .loggedIn c.strIdentify r) ∨ e = .loggedOut c.strIdentify) ∧
      ∀ reqid, req = .logout reqid → .loggedOut c.strIdentify ∈ es := by
  have hnone : ∀ {s' : Service}, s'.log = s.log → (∀ reqid, req ≠ .logout reqid) → ∃ es, s'.log = s.log ++ es ∧
      (∀ e ∈ es, (∃ r, e = .loggedIn c.strIdentify r) ∨ e = .loggedOut c.strIdentify) ∧
      ∀ reqid, req = .logout reqid → .loggedOut c.strIdentify ∈ es := by
    intro s' hlog hreq
    exact ⟨[], by rw [hlog, List.append_nil], by simp, fun reqid h => absurd h (hreq reqid)⟩
  cases req with
  | login reqid =>
    rw [handleCmd, onReqLogin]
    split
    · exact hnone rfl (by simp)
    · exact ⟨[.loggedIn c.strIdentify c.strRouter], rfl, by simp, by simp⟩
  | logout reqid => exact ⟨[.loggedOut c.strIdentify], rfl, by simp, by simp⟩
  | keepAlive => exact hnone rfl (by simp)
  | query reqid eletype fs =>
    rw [handleCmd, submitSql]
    split <;> exact hnone rfl (by simp)
  | delByCol reqid eletype fs =>
    rw [handleCmd, submitSql]
    split <;> exact hnone rfl (by simp)
  | byObjects op reqid t objVec =>
    rw [handleCmd]
    split <;> exact hnone rfl (by simp)
  | skipped => exact hnone rfl (by simp)

/-! ## What a message does to a record -/

/-- A session from `r` that was heard of at `T` or later. -/
structure Kept (r : Str) (T : Int) (c : DispatcherClient) : Prop where
  bLogin : c.bLogin = true
  strRouter : c.strRouter = r
  tLastRead : T ≤ c.tLastRead

section
variable {env : Env} {u : Str} {s s' : Service} {es : List Event}

theorem strIdentify_of_findClient (hs : LoginInv s) {v : Str} {c : DispatcherClient}
    (hc : (findClient env v s).client? v = some c) : c.strIdentify = v :=
  (hs.findClient v).identify v c hc

theorem log_reach (hs : LoginInv s) {r v : Str} {cmd : CInt} {c : DispatcherClient}
    (hc : (findClient env v s).client? v = some c) :
    (reach env r v cmd c s).log = s.log ++ [.reached v r cmd] := by
  rw [reach, Service.log_logEvent, log_touchClient, log_findClient, strIdentify_of_findClient hs hc]

/-- **Who is heard of**: a message is accepted from `u`, or the records of `u` are as they were. -/
theorem Handled.client (hs : LoginInv s) (h : Handled env s s') (hes : s'.log = s.log ++ es)
    {P : DispatcherClient → Prop} (hu : Has P u s) (hsilent : ∀ r cmd, .reached u r cmd ∉ es) : Has P u s' := by
  cases h with
  | unread => exact hu
  | unreadFound v => exact hu.findClient v
  | identifyErr r rsp => exact hu.of_client rfl
  | rejected r v rsp => exact (hu.findClient v).of_client rfl
  | @reached r v cmd c hv hc =>
    rw [log_reach hs hc] at hes
    obtain rfl := List.append_cancel_left hes
    have hne : v ≠ u := by
      rintro rfl
      exact hsilent r cmd (by simp)
    exact hu.reach cmd c fun h => absurd h hne
  | @ran r v cmd c hv hc req =>
    obtain ⟨es', hes', -⟩ := log_handleCmd env (c.touched env (findClient env v s) r) req
      ((reach env r v cmd c s).logEvent (.parsed c.strIdentify req))
    rw [hes', Service.log_logEvent, log_reach hs hc, List.append_assoc, List.append_assoc] at hes
    obtain rfl := List.append_cancel_left hes
    have hne : v ≠ u := by
      rintro rfl
      exact hsilent r cmd (by simp)
    have hid : (c.touched env (findClient env v s) r).strIdentify ≠ u := by
      rw [DispatcherClient.touched, strIdentify_of_findClient hs hc]
      exact hne
    have hreach : Has P u ((reach env r v cmd c s).logEvent (.parsed c.strIdentify req)) :=
      (hu.reach cmd c fun h => absurd h hne).of_client rfl
    exact hreach.handleCmd (fun h => absurd h hid) (fun _ _ h => absurd h hid) fun h => absurd h hid

theorem has_reach (hclock : Monotone env.clock) {r : Str} {c : DispatcherClient}
    (hc : (findClient env u s).client? u = some c) (cmd : CInt) {n : Nat}
    (hn : (reach env r u cmd c s).readings ≤ n) :
    Has (fun c => env.clock s.readings ≤ c.tLastRead ∧ c.tLastRead ≤ env.clock n) u (reach env r u cmd c s) := by
  have hbefore : s.readings ≤ (findClient env u s).readings := (Later.findClient u s).readings
  have hafter : (findClient env u s).readings ≤ n := (Nat.le_succ _).trans hn
  refine ⟨{ c with strRouter := r, tLastRead := (findClient env u s).now env }, ?_, hclock hbefore, hclock hafter⟩
  rw [reach, Service.client?_logEvent, touchClient, Service.client?_modifyClient_self, Service.client?_readClock, hc]
  rfl

theorem Handled.heard (hclock : Monotone env.clock) (hs : LoginInv s) (h : Handled env s s')
    (hes : s'.log = s.log ++ es) {r : Str} {cmd : CInt} (hu : .reached u r cmd ∈ es) :
    Has (fun c => env.clock s.readings ≤ c.tLastRead ∧ c.tLastRead ≤ env.clock s'.readings) u s' := by
  have hlater := Later.handled h
  have hsame : s'.log = s.log → False := by
    intro hlog
    rw [hlog] at hes
    simp at hes
    simp [hes] at hu
  cases h with
  | unread => exact absurd rfl hsame
  | unreadFound v => exact absurd (log_findClient env v s) hsame
  | identifyErr r rsp => exact absurd rfl hsame
  | rejected r v rsp => exact absurd (log_findClient env v s) hsame
  | @reached r' v cmd' c hv hc =>
    rw [log_reach hs hc] at hes
    obtain rfl := List.append_cancel_left hes
    obtain ⟨rfl, rfl, rfl⟩ : u = v ∧ r = r' ∧ cmd = cmd' := by simpa using hu
    exact has_reach hclock hc cmd (le_refl _)
  | @ran r' v cmd' c hv hc req =>
    obtain ⟨es', hes', htell, -⟩ := log_handleCmd env (c.touched env (findClient env v s) r') req
      ((reach env r' v cmd' c s).logEvent (.parsed c.strIdentify req))
    rw [hes', Service.log_logEvent, log_reach hs hc, List.append_assoc, List.append_assoc] at hes
    obtain rfl := List.append_cancel_left hes
    have hmem : .reached u r cmd ∉ es' := by
      intro hmem
      rcases htell _ hmem with ⟨r, h⟩ | h <;> cases h
    obtain ⟨rfl, rfl, rfl⟩ : u = v ∧ r = r' ∧ cmd = cmd' := by simpa [hmem] using hu
    have hbefore : s.readings ≤ (reach env r u cmd c s).readings := (Later.reach r u cmd c s).readings
    have hrun : Later ((reach env r u cmd c s).logEvent (.parsed c.strIdentify req))
        (handleCmd env (c.touched env (findClient env u s) r) req
          ((reach env r u cmd c s).logEvent (.parsed c.strIdentify req))) :=
      (Later.refl _).handleCmd (c.touched env (findClient env u s) r) req
    have hend : (reach env r u cmd c s).readings ≤ _ := hrun.readings
    have hreach := has_reach (s := s) hclock hc cmd hend
    have hstart := hreach.of_client (Service.client?_logEvent _ u (.parsed c.strIdentify req))
    refine hstart.handleCmd (fun _ _ h => h) (fun _ _ _ _ h => h) fun _ d _ => ?_
    exact ⟨hclock hbefore, hclock hend⟩

theorem Handled.kept (hs : LoginInv s) (h : Handled env s s') (hes : s'.log = s.log ++ es) {r : Str} {T : Int}
    (hT : ∀ n, s.readings ≤ n → T ≤ env.clock n) (hu : Has (Kept r T) u s) (hlogout : .loggedOut u ∉ es) :
    Has (Kept r T) u s' := by
  -- an accepted message of `u` comes from `r`
  have hreach : ∀ {r' v : Str} {cmd : CInt} {c : DispatcherClient}, verdict s r' v cmd = .accepted →
      (findClient env v s).client? v = some c → Has (Kept r T) u (reach env r' v cmd c s) := by
    intro r' v cmd c hv hc
    refine hu.reach cmd c fun hvu d hd => ?_
    subst hvu
    obtain ⟨d', hd', hkept⟩ := hu.findClient v
    obtain rfl := Option.some.inj (hc.symm.trans hd')
    have hrouter := (verdict_accepted env hv hc).2 hkept.bLogin
    exact ⟨hd.bLogin, hrouter.symm.trans hkept.strRouter, hT _ (Later.findClient v s).readings⟩
  cases h with
  | unread => exact hu
  | unreadFound v => exact hu.findClient v
  | identifyErr r' rsp => exact hu.of_client rfl
  | rejected r' v rsp => exact (hu.findClient v).of_client rfl
  | reached hv hc => exact hreach hv hc
  | @ran r' v cmd c hv hc req =>
    obtain ⟨es', hes', -, hout⟩ := log_handleCmd env (c.touched env (findClient env v s) r') req
      ((reach env r' v cmd c s).logEvent (.parsed c.strIdentify req))
    rw [hes', Service.log_logEvent, log_reach hs hc, List.append_assoc, List.append_assoc] at hes
    obtain rfl := List.append_cancel_left hes
    have hstart : Has (Kept r T) u ((reach env r' v cmd c s).logEvent (.parsed c.strIdentify req)) :=
      (hreach hv hc).of_client rfl
    refine hstart.handleCmd (fun _ d hd => ⟨rfl, hd.strRouter, hd.tLastRead⟩) (fun reqid hreq hid => ?_)
      fun _ d hd => ⟨hd.bLogin, hd.strRouter, hT _ (Later.reach r' v cmd c s).readings⟩
    have hmem := hout reqid hreq
    rw [hid] at hmem
    exact absurd (by simp [hmem]) hlogout

end

/-! ## What the steps of the service do to a record -/

namespace Live

section
variable {w : World} {s t : Live} {a : LiveAction} {u : Str}

/-- A step handles a message, visits the timer, or leaves records and clock alone. -/
inductive Touches (env : Env) (s t : Service) : LiveAction → Prop
  | quiet {a : LiveAction} (hclients : t.mapClients = s.mapClients) (hreadings : t.readings = s.readings)
    (hlog : t.log = s.log ∨ ∃ task addr, t.log = s.log ++ [.answered task addr]) : Touches env s t a
  | timer (ht : t = checkTimer env s) : Touches env s t .timer
  | handled (ht : Handled env s t) : Touches env s t .handle

theorem step_touches (h : step w s a = some t) : Touches w.toEnv s.svc t.svc a := by
  cases step_stepped h with
  | timer hpc => exact .timer rfl
  | handle hpc hnext hrun => exact .handled (handled_of_run hrun)
  | handleStop hpc hnext hrun => exact .handled (handled_of_run hrun)
  | address hw => exact .quiet rfl rfl (.inr ⟨_, _, rfl⟩)
  | @relay hpc i dealer task frames hw =>
    have hclients : (relayMsg dealer frames s.svc).mapClients = s.svc.mapClients := by
      rw [relayMsg_eq]
    have hreadings : (relayMsg dealer frames s.svc).readings = s.svc.readings := by
      rw [relayMsg_eq]
    have hlog : (relayMsg dealer frames s.svc).log = s.svc.log := by rw [relayMsg_eq]
    exact .quiet hclients hreadings (.inl hlog)
  | _ => exact .quiet rfl rfl (.inl rfl)

theorem svc_timer (h : step w s .timer = some t) : t.svc = checkTimer w.toEnv s.svc := by
  cases step_stepped h
  rfl

section
variable {env : Env} {s t : Service}

theorem Touches.later (h : Touches env s t a) : Later s t := by
  cases h with
  | quiet _ hreadings hlog =>
    rcases hlog with hlog | ⟨task, addr, hlog⟩
    · exact (Later.refl _).of_le _ hreadings.ge hlog
    · exact ⟨hreadings.ge, _, hlog⟩
  | timer ht =>
    rw [ht]
    exact Later.checkTimer _
  | handled ht => exact Later.handled ht

theorem Touches.loginInv (hs : LoginInv s) (h : Touches env s t a) : LoginInv t := by
  cases h with
  | quiet hclients _ hlog =>
    have hsame : ∀ v, t.client? v = s.client? v := fun v => congrArg (List.lookup v) hclients
    rcases hlog with hlog | ⟨task, addr, hlog⟩
    · exact hs.congr hsame hlog
    · have hadd : LoginInv (s.logEvent (.answered task addr)) := hs.logEvent trivial fun _ _ => rfl
      exact hadd.congr hsame hlog
  | timer ht =>
    rw [ht]
    exact hs.checkTimer
  | handled ht => exact hs.handled ht

theorem kept_step {r : Str} {T : Int} {es : List Event} (hs : LoginInv s)
    (hT : ∀ n, s.readings ≤ n → T ≤ env.clock n) (htime : ∀ n < t.readings, env.clock n ≤ T + 60 * 1000000000)
    (hes : t.log = s.log ++ es) (hlogout : .loggedOut u ∉ es) (hu : Has (Kept r T) u s)
    (h : Touches env s t a) : Has (Kept r T) u t := by
  cases h with
  | quiet hclients _ _ => exact hu.of_client (congrArg (List.lookup u) hclients)
  | timer ht =>
    rw [ht] at htime ⊢
    refine hu.checkTimer (fun d n hd => ⟨hd.bLogin, hd.strRouter, hd.tLastRead⟩) fun hdue d hd hold => ?_
    have hnow := htime _ (readings_checkTimer hdue)
    have hheard := hd.tLastRead
    omega
  | handled ht => exact ht.kept hs hes hT hu hlogout

end

theorem later_run {as : List LiveAction} (h : run (Live.step w) s as = some t) : Later s.svc t.svc :=
  run_invariant (I := fun t => Later s.svc t.svc)
    (fun _ _ _ hi ht => hi.trans (step_touches ht).later) (Later.refl _) h

theorem loginInv_of_run {as : List LiveAction} (hs : LoginInv s.svc) (h : run (Live.step w) s as = some t) :
    LoginInv t.svc :=
  run_invariant (I := fun t => LoginInv t.svc) (fun _ _ _ hi ht => (step_touches ht).loginInv hi) hs h

theorem kept_run {r : Str} {T : Int} {as : List LiveAction} {es : List Event} (hs : LoginInv s.svc)
    (hT : ∀ n, s.svc.readings ≤ n → T ≤ w.clock n) (htime : ∀ n < t.svc.readings, w.clock n ≤ T + 60 * 1000000000)
    (hes : t.svc.log = s.svc.log ++ es) (hlogout : .loggedOut u ∉ es) (hu : Has (Kept r T) u s.svc)
    (h : run (Live.step w) s as = some t) : Has (Kept r T) u t.svc := by
  induction as generalizing s es with
  | nil =>
    obtain rfl : s = t := Option.some.inj h
    exact hu
  | cons a as ih =>
    obtain ⟨m, hm, hrest⟩ := run_cons h
    have htouch := step_touches hm
    obtain ⟨es₁, hes₁⟩ := htouch.later.log
    obtain ⟨es₂, hes₂⟩ := (later_run hrest).log
    rw [hes₂, hes₁, List.append_assoc] at hes
    obtain rfl := List.append_cancel_left hes
    rw [List.mem_append, not_or] at hlogout
    have hmid := (later_run hrest).readings
    have hkept := kept_step hs hT (fun n hn => htime n (hn.trans_le hmid)) hes₁ hlogout.1 hu htouch
    exact ih (htouch.loginInv hs) (fun n hn => hT n (htouch.later.readings.trans hn)) hes₂ hlogout.2 hkept hrest

theorem silent_run {T : Int} {as : List LiveAction} {es : List Event} (hs : LoginInv s.svc)
    (hes : t.svc.log = s.svc.log ++ es) (hsilent : ∀ r cmd, .reached u r cmd ∉ es)
    (hu : Has (fun c => c.tLastRead ≤ T) u s.svc) (h : run (Live.step w) s as = some t) :
    Has (fun c => c.tLastRead ≤ T) u t.svc := by
  induction as generalizing s es with
  | nil =>
    obtain rfl : s = t := Option.some.inj h
    exact hu
  | cons a as ih =>
    obtain ⟨m, hm, hrest⟩ := run_cons h
    have htouch := step_touches hm
    obtain ⟨es₁, hes₁⟩ := htouch.later.log
    obtain ⟨es₂, hes₂⟩ := (later_run hrest).log
    rw [hes₂, hes₁, List.append_assoc] at hes
    obtain rfl := List.append_cancel_left hes
    simp only [List.mem_append, not_or] at hsilent
    refine ih (htouch.loginInv hs) hes₂ (fun r cmd => (hsilent r cmd).2) ?_ hrest
    cases htouch with
    | quiet hclients _ _ => exact hu.of_client (congrArg (List.lookup u) hclients)
    | timer ht =>
      rw [ht]
      exact hu.checkTimer (fun _ _ hd => hd) fun _ _ hd _ => hd
    | handled ht => exact ht.client hs hes₁ hu fun r cmd => (hsilent r cmd).1

theorem heard_of_handle {m : Live} {es : List Event} {r : Str} {cmd : CInt} (hclock : Monotone w.clock)
    (hs : LoginInv s.svc) (h : step w s .handle = some m) (hes : m.svc.log = s.svc.log ++ es)
    (hu : .reached u r cmd ∈ es) : LoginInv m.svc ∧ s.svc.readings ≤ m.svc.readings ∧
      Has (fun c => w.clock s.svc.readings ≤ c.tLastRead ∧ c.tLastRead ≤ w.clock m.svc.readings) u m.svc := by
  have htouch := step_touches h
  refine ⟨htouch.loginInv hs, htouch.later.readings, ?_⟩
  cases htouch with
  | quiet _ _ hlog =>
    rw [hes] at hlog
    rcases hlog with hlog | ⟨task, addr, hlog⟩
    · have hnil : es = [] := by simpa using hlog
      simp [hnil] at hu
    · obtain rfl := List.append_cancel_left hlog
      simp at hu
  | handled ht => exact ht.heard hclock hs hes hu

end

/-! ## A clock that is read every ten seconds -/

def tenSeconds : World := { plainWorld with clock := fun n => n * 10000000000 }

theorem tenSeconds_monotone : Monotone tenSeconds.clock := by
  intro a b h
  change (a : Int) * 10000000000 ≤ b * 10000000000
  omega

def loginOnly : List Msg := [clientMsg "r1" "amy" .TLogin [bytes (7 : CInt)]]

def beforeLogin : List LiveAction := [.check, .query, .replace, .timer, .noRelay]

/-- An iteration that finds nothing. -/
def idle : List LiveAction := [.check, .timer, .noRelay, .noHandle]

theorem beforeLogin_isSome : (run (step tenSeconds) (init tenSeconds (managersNamed ["amy"]) loginOnly)
    beforeLogin).isSome := by
  decide +kernel

def amyComes : Live := Option.get _ beforeLogin_isSome

theorem amyComes_handle : (step tenSeconds amyComes .handle).isSome := by decide +kernel

def amyIsIn : Live := Option.get _ amyComes_handle

theorem idle_isSome : (run (step tenSeconds) amyIsIn idle).isSome := by decide +kernel

def soon : Live := Option.get _ idle_isSome

theorem idleAgain_isSome : (run (step tenSeconds) amyIsIn (idle ++ idle ++ [.check])).isSome := by decide +kernel

def late : Live := Option.get _ idleAgain_isSome

theorem late_timer : (step tenSeconds late .timer).isSome := by decide +kernel

def muchLater : Live := Option.get _ late_timer

theorem amyIsIn_log : amyIsIn.svc.log = amyComes.svc.log ++
    [.reached (text "amy") (text "r1") ECommandType.TLogin.toInt, .parsed (text "amy") (.login 7),
      .loggedIn (text "amy") (text "r1")] := by
  decide +kernel

theorem late_log : late.svc.log = amyIsIn.svc.log ++ [] := by decide +kernel

end Live

end CppLinuxLearn.Deployer
