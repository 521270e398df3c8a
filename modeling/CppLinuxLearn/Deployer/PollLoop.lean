import CppLinuxLearn.Deployer.Service

/-!
# The poll loop

`pollFunc`: one iteration refreshes the manager cache, runs the keep-alive timer, relays a message
of a worker and handles a message of a client, each of them only when it is due. `onReadable_cases`
says once what the handling of a client message can do to the service; the results about runs use
nothing else of it.
-/

namespace CppLinuxLearn.Deployer

open Lib Multipart

section
variable (env : Env)

/-! ## Before a client message is read -/

/-- `updManagerCache`, on what the query of `ManageUser` gives. -/
def updManagerCache (vc : List ManageUser) (s : Service) : Service :=
  { s with setManagerCache := vc.map fun m => cstr (bytes m.ManagerName) }

/-- `if (m_bUpdManagerCache.compare_exchange_strong(bTrue, false))` -/
def checkManagerCache (vc : List ManageUser) (s : Service) : Service :=
  if s.bUpdManagerCache then updManagerCache vc { s with bUpdManagerCache := false } else s

/-- `katimeHandle`, for one client. -/
def katimeClient (tnow : Int) (s : Service) (u : Str) : Service :=
  match s.client? u with
  | none => s
  | some c =>
    if c.tLastRead + 60 * 1000000000 < tnow then
      (s.modifyClient u fun c => { c with bLogin := false }).logEvent (.expired u)
    else
      (((s.readClock.modifyClient u fun c => { c with tLastWrite := s.now env }).innerSendMsg
        c.strRouter true).innerSendMsg (bytes STCMsgPattern.TActivePush.toInt) true).innerSendMsg
        (bytes ECommandType.TKeepAlive.toInt) false

/-- `katimeHandle`; the map is walked in the order of its entries. -/
def katimeHandle (s : Service) : Service :=
  (s.mapClients.map Prod.fst).foldl (katimeClient env (s.now env)) s.readClock

/-- `m_timerKA.recount()` -/
def recount (s : Service) : Service := { s.readClock with trigtime := s.now env + timerPeriod }

/-- `if (m_timerKA.timeout(tnow))` -/
def checkTimer (s : Service) : Service :=
  if s.trigtime ≤ s.now env then recount env (katimeHandle env s.readClock) else s.readClock

/-- `if (items[0].revents & ZMQ_POLLIN)`: the message `m` of a worker is passed on. -/
def relayInproc (m : Msg) (s : Service) : Service :=
  (final ((relay fun f more s => s.innerSendMsg f more).run ⟨s, ⟨[], [m], []⟩⟩)).own

/-! ## The loop -/

/-- What an iteration finds. -/
structure Turn where
  /-- a worker has set `m_bUpdManagerCache` -/
  stored : Bool
  /-- the rows of `ManageUser` -/
  vc : List ManageUser
  /-- the message waiting on `m_sockInprocServer` -/
  inproc : Option Msg
  /-- `m_sockBind` has been found readable -/
  readable : Bool
deriving Inhabited

/-- The part of an iteration that comes before the message of a client. -/
def prelude (t : Turn) (s : Service) : Service :=
  let s := { s with bUpdManagerCache := s.bUpdManagerCache || t.stored }
  let s := checkTimer env (checkManagerCache t.vc s)
  match t.inproc with
  | some m => relayInproc m s
  | none => s

/-- One iteration of `pollFunc`. -/
def pollIter (t : Turn) : Rd Service Unit := do
  modifyOwn (prelude env t)
  if t.readable then onReadable env else return ()

/-- An iteration: what it found, the state before it and its outcome. -/
abbrev Iteration := Turn × Proc Service × Outcome Service Unit

/-- The iterations of `pollFunc` over `turns`, up to the first that does not come to its end. -/
def iterations : List Turn → Proc Service → List Iteration
  | [], _ => []
  | t :: ts, p =>
    (t, p, (pollIter env t).run p) ::
      match (pollIter env t).run p with
      | .ok _ p' => iterations ts p'
      | .error _ _ => []

end

/-! ## The timer and the messages of workers -/

/-- What the clock and the visit of a client keep, the timer keeps. -/
theorem checkTimer_keeps {P : Service → Prop} {env : Env}
    (hclock : ∀ s readings trigtime, P s → P { s with readings := readings, trigtime := trigtime })
    (hclient : ∀ tnow s u, P s → P (katimeClient env tnow s u)) {s : Service} (hs : P s) :
    P (checkTimer env s) := by
  have hread : ∀ s, P s → P s.readClock := fun s h => hclock s (s.readings + 1) s.trigtime h
  have hall : ∀ tnow (us : List Str) s, P s → P (us.foldl (katimeClient env tnow) s) := by
    intro tnow us
    induction us with
    | nil => exact fun _ h => h
    | cons u us ih => exact fun s h => ih _ (hclient tnow s u h)
  unfold checkTimer
  split
  · have hka : P (katimeHandle env s.readClock) := hall _ _ _ (hread _ (hread _ hs))
    exact hclock (katimeHandle env s.readClock) _ _ hka
  · exact hread _ hs

theorem emitAll_innerSendMsg (ps : List (Bytes × Bool)) (s : Service) :
    emitAll (fun f more (s : Service) => s.innerSendMsg f more) ps s = { s with sent := s.sent ++ ps } := by
  induction ps generalizing s with
  | nil => simp [emitAll]
  | cons p ps ih =>
    refine (ih (s.innerSendMsg p.1 p.2)).trans ?_
    simp [Service.innerSendMsg]

theorem relayInproc_eq (m : Msg) (s : Service) :
    relayInproc m s = { s with sent := s.sent ++ flagged m.rest } := by
  obtain ⟨r, fs⟩ := m
  cases fs with
  | nil =>
    rw [flagged, List.append_nil]
    rfl
  | cons f fs =>
    rw [relayInproc, run_relay _ s [] [] ⟨r, f :: fs⟩ (List.cons_ne_nil f fs)]
    exact emitAll_innerSendMsg _ s

/-! ## What the handling of a message does to the service -/

/-- The record `c` of a client whose message from router `r` is accepted in the state `s`. -/
def DispatcherClient.touched (env : Env) (s : Service) (r : Str) (c : DispatcherClient) :
    DispatcherClient := { c with strRouter := r, tLastRead := s.now env }

/-- The service when `onRecvCmd` is entered. -/
def reach (env : Env) (r u : Str) (cmd : CInt) (c : DispatcherClient) (s : Service) : Service :=
  (touchClient env r u (findClient env u s)).logEvent (.reached c.strIdentify r cmd)

/-- The states that the handling of one message can leave. -/
inductive Handled (env : Env) (s : Service) : Service → Prop
  /-- the message ended before its command, or a rejection while its request id was read -/
  | unread : Handled env s s
  | unreadFound (u : Str) : Handled env s (findClient env u s)
  | identifyErr (r : Str) (rsp : ReqResponse) : Handled env s (s.answer r rsp)
  | rejected (r u : Str) (rsp : ReqResponse) : Handled env s ((findClient env u s).answer r rsp)
  /-- the frames of an accepted command did not come or failed a check -/
  | reached {r u : Str} {cmd : CInt} {c : DispatcherClient} (hv : verdict s r u cmd = .accepted)
      (hc : (findClient env u s).client? u = some c) : Handled env s (reach env r u cmd c s)
  | ran {r u : Str} {cmd : CInt} {c : DispatcherClient} (hv : verdict s r u cmd = .accepted)
      (hc : (findClient env u s).client? u = some c) (req : Request)
      (hread : ∃ p p' : Proc Service, (recvCmd env cmd).run p = .ok req p') :
      Handled env s (handleCmd env (c.touched env (findClient env u s) r) req
        ((reach env r u cmd c s).logEvent (.parsed c.strIdentify req)))

section
variable (env : Env)

theorem dispatch_handled (r u : Str) (cmd : CInt) (s : Service) (k : Rcv) :
    Handled env s (final ((dispatch env r u cmd).run ⟨s, k⟩)).own := by
  have hR : ReadOrder (@SameOwn Service) := sameOwn_readOrder
  have hreject : ∀ err msg, Handled env s
      (final ((rejectLogin env err msg r cmd).run ⟨findClient env u s, k⟩)).own := fun err msg =>
    own_bind_of_sameOwn (along_recvReqidIfMore env hR) k (.unreadFound u) fun _ _ _ => .rejected r u _
  rw [run_dispatch]
  cases hv : verdict s r u cmd with
  | identifyErr =>
    exact own_bind_of_sameOwn (along_recvRequestidIfMore env hR) k .unread fun _ _ _ => .identifyErr r _
  | noLogin => exact hreject _ _
  | multiLogin => exact hreject _ _
  | accepted =>
    obtain ⟨c, hc, hrun⟩ := run_acceptCmd env r u cmd s k
    simp only [hrun, onRecvCmd, EStateM.run_bind (modifyOwn _), run_modifyOwn]
    exact own_bind_of_sameOwn (along_recvCmd hR env cmd) k (.reached hv hc) fun req _ hread =>
      .ran hv hc req ⟨_, _, hread⟩

/-- **What a message can do**: whatever its frames, `onReadable` leaves one of the states `Handled`. -/
theorem onReadable_handled (p : Proc Service) :
    Handled env p.own (final ((onReadable env).run p)).own := by
  have hR : ReadOrder (@SameOwn Service) := sameOwn_readOrder
  obtain ⟨s, k⟩ := p
  refine own_bind_of_sameOwn hR.recv k .unread fun r k _ => ?_
  refine own_bind_of_sameOwn hR.recv k .unread fun u k _ => ?_
  refine own_bind_of_sameOwn hR.recv k .unread fun f k _ => ?_
  refine own_bind_of_sameOwn (along_copyPod hR env CInt f) k .unread fun cmd k _ => ?_
  rw [own_final_bind fun _ => along_skipRemainMFrame hR]
  exact dispatch_handled env r u cmd s k

theorem onReadable_cur {env : Env} {p p' : Proc Service} {a : Unit} (h : (onReadable env).run p = .ok a p') :
    p'.sock.cur = [] := by
  obtain ⟨strRouter, p₁, -, h⟩ := run_bind_ok h
  obtain ⟨strIdentity, p₂, -, h⟩ := run_bind_ok h
  obtain ⟨f, p₃, -, h⟩ := run_bind_ok h
  obtain ⟨cmd, p₄, -, h⟩ := run_bind_ok h
  obtain ⟨_, p₅, -, h⟩ := run_bind_ok h
  exact skipRemainMFrame_done h

theorem handled_of_run {env : Env} {p : Proc Service} {r : Outcome Service Unit}
    (h : (onReadable env).run p = r) : Handled env p.own (final r).own :=
  h ▸ onReadable_handled env p

end

end CppLinuxLearn.Deployer
