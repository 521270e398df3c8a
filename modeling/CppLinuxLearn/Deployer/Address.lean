import CppLinuxLearn.Deployer.Login

/-!
# Where answers go

A task answers to the router that the record of its client holds when the task reads it, and the
record follows every message that is accepted for the identity. So an answer goes to the router its
request came from exactly when, at that moment, the last accepted message of the identity came from
there (`answered_iff`); a logout and a login from elsewhere in between turn it away.
-/

namespace CppLinuxLearn.Deployer

open Lib Multipart Steps

def reachedStep (u : Str) (o : Option Str) : Event → Option Str
  | .reached v r _ => if v = u then some r else o
  | _ => o

/-- The router of the last message accepted for the identity `u`. -/
def lastReached (log : List Event) (u : Str) : Option Str := log.foldl (reachedStep u) none

@[simp] theorem lastReached_concat (log : List Event) (e : Event) (u : Str) :
    lastReached (log ++ [e]) u = reachedStep u (lastReached log u) e := by
  simp [lastReached]

theorem lastReached_of_mem {log : List Event} {u r : Str} {cmd : CInt}
    (h : .reached u r cmd ∈ log) : ∃ r', lastReached log u = some r' := by
  induction log using List.reverseRecOn with
  | nil => cases h
  | append_singleton log e ih =>
    rw [lastReached_concat]
    rcases List.mem_append.1 h with h | h
    · obtain ⟨r', hr'⟩ := ih h
      rw [hr']
      cases e with
      | reached v r'' cmd => by_cases hv : v = u <;> simp [reachedStep, hv]
      | _ => exact ⟨r', rfl⟩
    · rw [← List.mem_singleton.1 h]
      exact ⟨r, by simp [reachedStep]⟩

/-! ## The invariant -/

/-- The request of the task was received from the router the task remembers. -/
def Received (log : List Event) (t : Task) : Prop := ∃ cmd, .reached t.client t.origin cmd ∈ log

/-- What the log says of an answer. -/
def Addressed (pre : List Event) : Event → Prop
  | .answered t addr =>
    Received pre t ∧ (addr = t.origin ↔ lastReached pre t.client = some t.origin)
  | _ => True

/-- The records hold the routers of the last accepted messages, and tasks come from messages. -/
structure AddressInv (s : Service) : Prop where
  router : ∀ u r, lastReached s.log u = some r → s.router u = r
  received : ∀ t ∈ s.queTask, Received s.log t
  addressed : Always Addressed s.log

/-- The event is neither the receipt of a request nor an answer. -/
def Neutral (e : Event) : Prop := (∀ u o, reachedStep u o e = o) ∧ ∀ pre, Addressed pre e

theorem neutral_expired (u : Str) : Neutral (.expired u) := ⟨fun _ _ => rfl, fun _ => trivial⟩

theorem neutral_parsed (u : Str) (req : Request) : Neutral (.parsed u req) :=
  ⟨fun _ _ => rfl, fun _ => trivial⟩

theorem neutral_loggedIn (u r : Str) : Neutral (.loggedIn u r) := ⟨fun _ _ => rfl, fun _ => trivial⟩

theorem neutral_loggedOut (u : Str) : Neutral (.loggedOut u) := ⟨fun _ _ => rfl, fun _ => trivial⟩

/-- The routers are as they were, the log grows by neutral events, the new tasks are among `new`. -/
structure SameRouters (new : Task → Prop) (s s' : Service) : Prop where
  router : ∀ u, s'.router u = s.router u
  log : ∃ es, s'.log = s.log ++ es ∧ ∀ e ∈ es, Neutral e
  queTask : ∀ t ∈ s'.queTask, t ∈ s.queTask ∨ new t

theorem Received.append {log : List Event} {t : Task} (h : Received log t) (es : List Event) :
    Received (log ++ es) t := h.imp fun _ => List.mem_append_left es

theorem AddressInv.of_sameRouters {s s' : Service} {new : Task → Prop} (h : AddressInv s)
    (hs : SameRouters new s s') (hnew : ∀ t, new t → Received s.log t) : AddressInv s' := by
  obtain ⟨es, hlog, hes⟩ := hs.log
  suffices hgrow : (∀ u, lastReached (s.log ++ es) u = lastReached s.log u) ∧
      Always Addressed (s.log ++ es) by
    refine ⟨fun u r hr => ?_, fun t ht => ?_, hlog ▸ hgrow.2⟩
    · rw [hlog, hgrow.1] at hr
      rw [hs.router, h.router u r hr]
    · rw [hlog]
      rcases hs.queTask t ht with ht | ht
      · exact (h.received t ht).append es
      · exact (hnew t ht).append es
  clear hlog
  induction es using List.reverseRecOn with
  | nil => simpa using h.addressed
  | append_singleton es e ih =>
    obtain ⟨hlast, hadd⟩ := ih fun d hd => hes d (List.mem_append_left _ hd)
    have he := hes e (by simp)
    rw [← List.append_assoc]
    refine ⟨fun u => ?_, (always_concat _).2 ⟨hadd, he.2 _⟩⟩
    rw [lastReached_concat, he.1, hlast]

namespace SameRouters
variable {env : Env} {new : Task → Prop} {s s' s'' : Service}

theorem refl (s : Service) : SameRouters new s s :=
  ⟨fun _ => rfl, ⟨[], by simp⟩, fun _ ht => .inl ht⟩

theorem trans (h₁ : SameRouters new s s') (h₂ : SameRouters new s' s'') : SameRouters new s s'' := by
  obtain ⟨es₁, hl₁, he₁⟩ := h₁.log
  obtain ⟨es₂, hl₂, he₂⟩ := h₂.log
  refine ⟨fun u => (h₂.router u).trans (h₁.router u), ⟨es₁ ++ es₂, ?_, ?_⟩, fun t ht => ?_⟩
  · rw [hl₂, hl₁, List.append_assoc]
  · exact fun e he => (List.mem_append.1 he).elim (he₁ e) (he₂ e)
  · exact (h₂.queTask t ht).elim (h₁.queTask t) .inr

theorem of_eq (hc : s'.mapClients = s.mapClients) (hl : s'.log = s.log)
    (hq : s'.queTask ⊆ s.queTask) : SameRouters new s s' where
  router u := by simp only [Service.router, Service.client?, hc]
  log := ⟨[], by simp [hl]⟩
  queTask t ht := .inl (hq ht)

section
variable (h : SameRouters new s s')
include h

theorem readClock : SameRouters new s s'.readClock := h.trans (of_eq rfl rfl (List.Subset.refl _))

theorem innerSendMsg (data : Bytes) (b : Bool) : SameRouters new s (s'.innerSendMsg data b) :=
  h.trans (of_eq rfl rfl (List.Subset.refl _))

theorem answer (r : Str) (rsp : ReqResponse) : SameRouters new s (s'.answer r rsp) :=
  h.trans (of_eq rfl rfl (List.Subset.refl _))

theorem logEvent {e : Event} (he : Neutral e) : SameRouters new s (s'.logEvent e) :=
  h.trans ⟨fun _ => rfl, ⟨[e], rfl, fun d hd => by rwa [List.mem_singleton.1 hd]⟩, fun _ => .inl⟩

theorem submit {t : Task} (ht : new t) : SameRouters new s (s'.submit t) := by
  refine h.trans ⟨fun _ => rfl, ⟨[], by simp⟩, fun t' ht' => ?_⟩
  rcases List.mem_append.1 ht' with hm | hm
  · exact .inl hm
  · exact .inr (List.mem_singleton.1 hm ▸ ht)

theorem modifyClient (u : Str) {f : DispatcherClient → DispatcherClient}
    (hf : ∀ c, (f c).strRouter = c.strRouter) : SameRouters new s (s'.modifyClient u f) := by
  refine h.trans ⟨fun v => ?_, ⟨[], by simp⟩, fun _ => .inl⟩
  rw [Service.router, Service.router, Service.client?_modifyClient]
  split
  · cases hc : s'.client? v with
    | none => rfl
    | some c => exact hf c
  · rfl

end

theorem findClient (u : Str) : SameRouters new s (findClient env u s) := by
  unfold Deployer.findClient
  split
  · exact refl s
  · rename_i hu
    have hnone : s.client? u = none := by simpa using hu
    refine ⟨fun v => ?_, ⟨[], by simp⟩, fun _ => .inl⟩
    rw [Service.router, Service.router, Service.client?_addClient]
    by_cases hvu : v = u
    · subst v
      rw [hnone, if_pos rfl]
      rfl
    · rw [if_neg hvu, Option.or_none]

theorem noTask_findClient (s : Service) (u : Str) :
    SameRouters (fun _ => False) s (Deployer.findClient env u s) := findClient u

theorem checkTimer (s : Service) : SameRouters new s (checkTimer env s) := by
  have hclient : ∀ tnow s u, SameRouters new s (katimeClient env tnow s u) := by
    intro tnow s u
    unfold katimeClient
    split
    · exact refl s
    · split
      · exact logEvent (modifyClient (refl s) u fun _ => by rfl) (neutral_expired u)
      · refine innerSendMsg (innerSendMsg (innerSendMsg ?_ _ _) _ _) _ _
        exact modifyClient (readClock (refl s)) u fun _ => rfl
  have hclock : ∀ (s' : Service) readings trigtime, SameRouters new s s' →
      SameRouters new s { s' with readings := readings, trigtime := trigtime } :=
    fun _ _ _ h => h.trans (of_eq rfl rfl (List.Subset.refl _))
  exact checkTimer_keeps hclock (fun tnow s' u h => h.trans (hclient tnow s' u)) (refl s)

/-- Handling a command leaves the routers alone, and a task it submits remembers the router. -/
theorem handleCmd (c : DispatcherClient) (req : Request) (s : Service) :
    SameRouters (fun t => t.client = c.strIdentify ∧ t.origin = c.strRouter) s
      (handleCmd env c req s) := by
  have hsql : ∀ verb mk reqid eletype fs,
      SameRouters (fun t => t.client = c.strIdentify ∧ t.origin = c.strRouter) s
        (submitSql env c verb mk reqid eletype fs s) := by
    intro verb mk reqid eletype fs
    unfold submitSql
    simp only
    split
    · refine submit ?_ ⟨rfl, rfl⟩
      exact of_eq rfl rfl (List.Subset.refl s.queTask)
    · exact of_eq rfl rfl (List.Subset.refl _)
  cases req with
  | login reqid =>
    simp only [Deployer.handleCmd, onReqLogin]
    split
    · exact (refl s).answer _ _
    · exact logEvent (answer (modifyClient (refl s) _ fun _ => by rfl) _ _) (neutral_loggedIn _ _)
  | logout reqid =>
    exact logEvent (answer (modifyClient (refl s) _ fun _ => by rfl) _ _) (neutral_loggedOut _)
  | keepAlive =>
    simp only [Deployer.handleCmd, onKeepAlive]
    exact modifyClient (readClock (refl s)) _ fun _ => by rfl
  | query reqid eletype fs => exact hsql _ _ _ _ _
  | delByCol reqid eletype fs => exact hsql _ _ _ _ _
  | byObjects op reqid t objVec =>
    simp only [Deployer.handleCmd]
    refine submit ?_ ⟨rfl, rfl⟩
    split
    · exact of_eq rfl rfl (List.Subset.refl _)
    · exact refl s
  | skipped => exact refl s

end SameRouters

namespace AddressInv
variable {env : Env} {s s' : Service}

theorem init : AddressInv (Service.init env) where
  router u r h := by cases h
  received t h := by cases h
  addressed := always_nil _

theorem reach (h : AddressInv s) (hl : LoginInv s) {r u : Str} {c : DispatcherClient} (cmd : CInt)
    (hc : (findClient env u s).client? u = some c) : AddressInv (reach env r u cmd c s) := by
  have hf : AddressInv (findClient env u s) :=
    h.of_sameRouters (SameRouters.noTask_findClient s u) fun _ ht => ht.elim
  have hid : c.strIdentify = u := (hl.findClient u).identify u c hc
  refine ⟨fun v r' hr => ?_, fun t ht => (hf.received t ht).append _, ?_⟩
  · rw [Deployer.reach, Service.log_logEvent, lastReached_concat, hid] at hr
    rw [Deployer.reach, Service.router, Service.client?_logEvent, touchClient,
      Service.client?_modifyClient]
    by_cases hv : v = u
    · subst v
      obtain rfl : r = r' := by simpa [reachedStep] using hr
      rw [if_pos rfl, Service.client?_readClock, hc]
      rfl
    · rw [if_neg hv]
      refine hf.router v r' ?_
      simpa [reachedStep, Ne.symm hv, touchClient] using hr
  · exact (always_concat _).2 ⟨hf.addressed, trivial⟩

theorem handled (h : AddressInv s) (hl : LoginInv s) (hs : Handled env s s') : AddressInv s' := by
  have hno : ∀ (s : Service) (t : Task), False → Received s.log t := fun _ _ ht => ht.elim
  cases hs with
  | unread => exact h
  | unreadFound u => exact h.of_sameRouters (.findClient u) (hno s)
  | identifyErr r rsp => exact h.of_sameRouters ((SameRouters.refl s).answer r rsp) (hno s)
  | rejected r u rsp => exact h.of_sameRouters ((SameRouters.findClient u).answer r rsp) (hno s)
  | reached hv hc => exact h.reach hl _ hc
  | @ran r u cmd c hv hc req =>
    have hparsed := (h.reach hl cmd hc (r := r)).of_sameRouters
      ((SameRouters.refl _).logEvent (neutral_parsed c.strIdentify req)) (hno _)
    refine hparsed.of_sameRouters (.handleCmd _ req _) fun t ht => ⟨cmd, ?_⟩
    obtain ⟨hclient, horigin⟩ := ht
    rw [hclient, horigin]
    simp [Deployer.reach, DispatcherClient.touched]

theorem answered (h : AddressInv s) {t : Task} (ht : Received s.log t) :
    AddressInv (s.logEvent (.answered t (s.router t.client))) := by
  refine ⟨fun u r hr => ?_, fun t' ht' => (h.received t' ht').append _, ?_⟩
  · rw [Service.log_logEvent, lastReached_concat] at hr
    exact h.router u r hr
  · obtain ⟨cmd, hmem⟩ := ht
    obtain ⟨r, hr⟩ := lastReached_of_mem hmem
    refine (always_concat _).2 ⟨h.addressed, ⟨cmd, hmem⟩, ?_⟩
    rw [h.router t.client r hr, hr, Option.some_inj]

theorem effect {running : List Task} (h : AddressInv s) (hl : LoginInv s)
    (hr : ∀ t ∈ running, Received s.log t) (hs : Effect env running s s') : AddressInv s' := by
  have hno : ∀ t : Task, False → Received s.log t := fun _ ht => ht.elim
  cases hs with
  | same hs => exact h.of_sameRouters (.of_eq hs.mapClients hs.log hs.queTask) hno
  | timer => exact h.of_sameRouters (.checkTimer s) hno
  | handled hs => exact h.handled hl hs
  | answered ht => exact h.answered (hr _ ht)

end AddressInv

/-! ## Runs -/

theorem SameRouters.log_grows {new : Task → Prop} {s s' : Service} (h : SameRouters new s s') :
    s.log <+: s'.log := by
  obtain ⟨es, hlog, -⟩ := h.log
  exact ⟨es, hlog.symm⟩

theorem Effect.log_grows {env : Env} {running : List Task} {s s' : Service}
    (h : Effect env running s s') : s.log <+: s'.log := by
  have hfind : ∀ u, s.log <+: (findClient env u s).log := fun u =>
    (SameRouters.noTask_findClient s u).log_grows
  have hreach : ∀ r u cmd c, s.log <+: (reach env r u cmd c s).log := fun r u cmd c =>
    (hfind u).trans (List.prefix_append _ _)
  cases h with
  | same hs => exact hs.log ▸ List.prefix_rfl
  | timer =>
    have hs : SameRouters (fun _ => False) s (checkTimer env s) := .checkTimer s
    exact hs.log_grows
  | answered ht => exact List.prefix_append _ _
  | handled hs =>
    cases hs with
    | unread => exact List.prefix_rfl
    | unreadFound u => exact hfind u
    | identifyErr r rsp => exact List.prefix_rfl
    | rejected r u rsp => exact hfind u
    | reached hv hc => exact hreach _ _ _ _
    | @ran r u cmd c hv hc req =>
      have hparsed : s.log <+: ((reach env r u cmd c s).logEvent (.parsed c.strIdentify req)).log :=
        (hreach r u cmd c).trans (List.prefix_append _ _)
      exact hparsed.trans (SameRouters.handleCmd _ req _).log_grows

/-- What holds of a system in every run. -/
structure SystemInv (sys : System) : Prop where
  login : LoginInv sys.svc
  address : AddressInv sys.svc
  running : ∀ t ∈ sys.running, Received sys.svc.log t

theorem systemInv_step {env : Env} {threads : Nat} {sys sys' : System} {a : Action}
    (hi : SystemInv sys) (h : step env threads sys a = some sys') : SystemInv sys' where
  login := hi.login.effect (step_effect h)
  address := hi.address.effect hi.login hi.running (step_effect h)
  running t ht := by
    have hold : Received sys.svc.log t :=
      (step_running h ht).elim (hi.running t) (hi.address.received t)
    obtain ⟨es, hlog⟩ := (step_effect h).log_grows
    exact hlog ▸ hold.append es

theorem systemInv_run {env : Env} {threads : Nat} {queue : List Msg} {as : List Action} {sys : System}
    (h : run (step env threads) (System.init env queue) as = some sys) : SystemInv sys :=
  run_invariant (fun _ _ _ hi hs => systemInv_step hi hs)
    ⟨LoginInv.init, AddressInv.init, fun t ht => by cases ht⟩ h

/-- **An answer goes to the router of its request iff the identity was last heard from there.** In
every run, of every answer: its request was received before, and the address is the router it came
from if and only if the last message accepted for the identity, when the task read the record, came
from that router. -/
theorem answered_iff (env : Env) (threads : Nat) (queue : List Msg) (as : List Action) (sys : System)
    (h : run (step env threads) (System.init env queue) as = some sys) (pre : List Event) (t : Task)
    (addr : Str) (post : List Event) (hlog : sys.svc.log = pre ++ .answered t addr :: post) :
    (∃ cmd, .reached t.client t.origin cmd ∈ pre) ∧
      (addr = t.origin ↔ lastReached pre t.client = some t.origin) :=
  (systemInv_run h).address.addressed pre _ post hlog

/-- A query of `amy` at `r1`, who logs out and in again at `r2` before the answer. -/
def queryThenMove : List Msg :=
  loginThenQuery ++ [clientMsg "r1" "amy" .TLogout [bytes (9 : CInt)],
    clientMsg "r2" "amy" .TLogin [bytes (10 : CInt)]]

/-- The task of that query. -/
def queryTask : Task :=
  ⟨text "amy", .onQryBySql .TManageUser (text "select * from ManageUser where 1=1;") 0, 8, text "r1"⟩

/-- The task is taken and answered after `n` messages. -/
def answerAfter (n : Nat) : List Action :=
  .refresh [managerNamed "amy"] :: List.replicate n .readable ++ [.take, .address 0 fun _ => default]

theorem answerAfter_isSome :
    (run (step default 4) (System.init default loginThenQuery) (answerAfter 2)).isSome := by
  decide +kernel

/-- An answer while the session of the query lasts. -/
theorem answered_iff_query : (∃ cmd, Event.reached (text "amy") (text "r1") cmd ∈
    ((run (step default 4) (System.init default loginThenQuery) (answerAfter 2)).get
      answerAfter_isSome).svc.log.take 5) ∧
      (text "r1" = queryTask.origin ↔ lastReached
        (((run (step default 4) (System.init default loginThenQuery) (answerAfter 2)).get
          answerAfter_isSome).svc.log.take 5) (text "amy") = some queryTask.origin) :=
  answered_iff default 4 loginThenQuery (answerAfter 2) _ (Option.some_get answerAfter_isSome).symm _
    queryTask (text "r1") [] (by decide +kernel)

theorem answerMoved_isSome :
    (run (step default 4) (System.init default queryThenMove) (answerAfter 4)).isSome := by
  decide +kernel

/-- The answer to a query from `r1` is sent to `r2`. -/
theorem answered_elsewhere : ¬ ∀ sys pre t addr post,
    run (step default 4) (System.init default queryThenMove) (answerAfter 4) = some sys →
      sys.svc.log = pre ++ .answered t addr :: post → addr = t.origin := fun h => by
  have haddr : text "r2" = queryTask.origin :=
    h _ (((run (step default 4) (System.init default queryThenMove) (answerAfter 4)).get
      answerMoved_isSome).svc.log.take 11) queryTask _ [] (Option.some_get answerMoved_isSome).symm
      (by decide +kernel)
  revert haddr
  decide

end CppLinuxLearn.Deployer
