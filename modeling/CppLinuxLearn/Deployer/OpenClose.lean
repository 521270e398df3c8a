import CppLinuxLearn.Deployer.AsyncZmqApi

/-!
# Requests after the manager is closed

`m_bTcpConnected` is written for events that the poll loop reads, and by nothing else: at its end
`pollFunc` resets `m_bInitConnect` and `m_bPolling`. So after `CloseAsyncApi` the flag is what the last
event made of it. Where this was a connect, a request is accepted, and goes out when the manager is opened
again.
-/

namespace CppLinuxLearn.Deployer

open Lib Steps Multipart

/-- The parameters pass the checks of the request function. -/
def ManagerAction.Valid : ManagerAction → Prop
  | .ReqLogin strid _ => strid ≠ []
  | .ReqInsUpdDelByEletype _ xs .. => xs ≠ []
  | _ => True

namespace ManagerProcess

/-- After a `CloseAsyncApi`, when no poll thread is running, the manager is not connected and every request
is refused, and nothing is sent that was accepted at such a time. -/
structure RefusesClosed (s : ManagerProcess) : Prop where
  connected : s.Quiet → s.manager.connected = false
  requests : s.Quiet → ∀ (a : ManagerAction) (r : Requested), a.Valid → a.requested s.manager = some r →
    r.ret = ERROR_NOCONNECT ∧ (s.request r).inproc = s.inproc
  sent : ∀ q ∈ s.sent, q.whileClosed = false

/-- The last event that was read is not a connect when the last poll thread ends after a `CloseAsyncApi`, or
when a `CloseAsyncApi` returns with no thread left. -/
def EndsDisconnected (s : ManagerProcess) : ProcessAction → Prop
  | .poll i => s.threads[i]? = some .clearPolling → s.closed = true →
    (∀ x ∈ s.threads.set i .finished, x = .finished) → s.handled.getLast? ≠ some true
  | .control => s.calling = .joining true → (∀ x ∈ s.threads, x = .finished) → s.handled.getLast? ≠ some true
  | _ => True

/-- The invariant: the flag is what the last event made of it. -/
structure Tracked (s : ManagerProcess) : Prop where
  flag : s.manager.connected = s.handled.getLast?.getD false
  quiet : s.Quiet → s.manager.connected = false
  queued : ∀ q ∈ s.inproc, q.whileClosed = false
  sent : ∀ q ∈ s.sent, q.whileClosed = false

end ManagerProcess

/-! ## Requests -/

section
variable {env : Env} {m m' : DispatcherManager} {a : ManagerAction} {r : Requested}

/-- No request changes the flag, and one without a connection is refused. -/
structure Requested.Guarded (r : Requested) (m : DispatcherManager) (valid : Prop) : Prop where
  connected : r.manager.connected = m.connected
  refused : m.connected = false → r.frames = [] ∧ (valid → r.ret = ERROR_NOCONNECT)

theorem guarded_isConnected (valid : Prop) (h : r.manager.connected = m.connected) :
    (if !m.connected then m.refuse ERROR_NOCONNECT else r).Guarded m valid := by
  cases hconn : m.connected with
  | false => exact ⟨rfl, fun _ => ⟨rfl, fun _ => rfl⟩⟩
  | true => exact ⟨h, fun hdisc => absurd (hconn.symm.trans hdisc) nofun⟩

theorem guarded_parameter {bad : Prop} [Decidable bad] {valid : Prop} (h : r.Guarded m valid) (hvalid : valid → ¬ bad) :
    (if bad then m.refuse ERROR_PARAMETER else r).Guarded m valid := by
  split
  · rename_i hbad
    exact ⟨rfl, fun _ => ⟨rfl, fun hv => absurd hbad (hvalid hv)⟩⟩
  · exact h

theorem guarded_requested (h : a.requested m = some r) : r.Guarded m a.Valid := by
  cases a with
  | ReqLogin strid nRequestId =>
    obtain rfl := Option.some.inj h
    exact guarded_parameter (guarded_isConnected _ rfl) id
  | ReqInsUpdDelByEletype t xs eleType id cmd =>
    obtain rfl := Option.some.inj h
    exact guarded_parameter (guarded_isConnected _ rfl) fun hv hlen => hv (List.length_eq_zero_iff.1 hlen)
  | ReqLogout | ReqQryByColumnFilter | ReqDelByColumnFilter | ReqDeployExecuteFinish =>
    obtain rfl := Option.some.inj h
    exact guarded_isConnected _ rfl
  | on_event_connected | on_event_disconnected | recvHandle => cases h

theorem connected_recvFrames {fs : List (Bytes × Bool)} {cs : List Call}
    (h : recvFrames env m fs = some (m', cs)) : m'.connected = m.connected := by
  induction fs generalizing m cs with
  | nil =>
    obtain ⟨rfl, -⟩ := Prod.mk.inj (Option.some.inj h)
    rfl
  | cons f fs ih =>
    obtain ⟨⟨m₁, cs₁⟩, h₁, h⟩ := Option.bind_eq_some_iff.1 h
    obtain ⟨⟨m₂, cs₂⟩, h₂, h⟩ := Option.bind_eq_some_iff.1 h
    obtain ⟨rfl, -⟩ := Prod.mk.inj (Option.some.inj h)
    exact (ih h₂).trans (keeps_recvHandle h₁).2.1

theorem posted_open {c : Call} {q : Posted} (h : c.posted = some q) : q.whileClosed = false := by
  cases c with
  | keepAlive frames =>
    obtain rfl := Option.some.inj h
    rfl
  | onRspQry | onRsp => cases h

end

/-! ## Steps -/

namespace ManagerProcess

section
variable {env : Env} {s t : ManagerProcess} {a : ProcessAction}

theorem Tracked.moved (h : s.Tracked) (hm : s.Moved env t) :
    t.manager.connected = t.handled.getLast?.getD false ∧ (∀ q ∈ t.inproc, q.whileClosed = false) ∧
      ∀ q ∈ t.sent, q.whileClosed = false := by
  cases hm with
  | same hmanager hhandled hinproc hsent =>
    rw [hmanager, hhandled, hinproc, hsent]
    exact ⟨h.flag, h.queued, h.sent⟩
  | event b hmanager hhandled hinproc hsent =>
    rw [hmanager, hhandled, hinproc, hsent]
    exact ⟨by simp, h.queued, h.sent⟩
  | relayed q hmanager hhandled hinproc hsent =>
    obtain ⟨hfirst, hrest⟩ := List.forall_mem_cons.1 (hinproc ▸ h.queued)
    rw [hmanager, hhandled, hsent]
    exact ⟨h.flag, hrest, List.forall_mem_append.2 ⟨h.sent, List.forall_mem_singleton.2 hfirst⟩⟩
  | received fs calls hrecv hhandled hinproc hsent =>
    rw [hhandled, hinproc, hsent]
    refine ⟨(connected_recvFrames hrecv).trans h.flag, List.forall_mem_append.2 ⟨h.queued, ?_⟩, h.sent⟩
    intro q hq
    obtain ⟨c, -, hc⟩ := List.mem_filterMap.1 hq
    exact posted_open hc

theorem Tracked.disconnected (h : s.Tracked) (hlast : s.handled.getLast? ≠ some true) : s.manager.connected = false := by
  rw [h.flag]
  cases hget : s.handled.getLast? with
  | none => rfl
  | some b => exact Bool.eq_false_of_not_eq_true fun hb => hlast (by rw [hget, ← hb]; rfl)

theorem Tracked.last (h : s.Tracked) (hconn : s.manager.connected = false) : s.handled.getLast? ≠ some true := by
  intro hlast
  rw [h.flag, hlast] at hconn
  cases hconn

theorem Tracked.poll {i : Nat} {x : PollFunc} (h : s.Tracked) (hends : s.EndsDisconnected (.poll i))
    (hx : s.threads[i]? = some x) (ht : s.pollFunc env i x = some t) : t.Tracked := by
  obtain ⟨hflag, hqueued, hsent⟩ := h.moved (moved_pollFunc ht)
  refine ⟨hflag, ?_, hqueued, hsent⟩
  obtain ⟨x', hp⟩ := polled_pollFunc ht
  rintro ⟨hclosed, hfin⟩
  rw [hp.closed] at hclosed
  rw [hp.threads] at hfin
  obtain rfl := hfin x' (List.mem_set (List.getElem?_eq_some_iff.1 hx).1 x')
  obtain rfl := hp.ends rfl
  obtain rfl := Option.some.inj ht
  exact h.disconnected (hends hx hclosed hfin)

theorem Tracked.control (h : s.Tracked) (hends : s.EndsDisconnected .control) (ht : s.control = some t) : t.Tracked := by
  rw [ManagerProcess.control] at ht
  split at ht
  · cases ht
  · obtain rfl := Option.some.inj ht
    exact ⟨h.flag, h.quiet, h.queued, h.sent⟩
  · obtain rfl := Option.some.inj ht
    exact ⟨h.flag, h.quiet, h.queued, h.sent⟩
  · obtain rfl := Option.some.inj ht
    exact ⟨h.flag, h.quiet, h.queued, h.sent⟩
  · -- a thread that is created has not finished
    have hcreated : ¬ ∀ x ∈ s.threads ++ [PollFunc.entry], x = .finished := fun hfin => by
      cases hfin .entry (by simp)
    split at ht
    · obtain rfl := Option.some.inj ht
      exact ⟨h.flag, h.quiet, h.queued, h.sent⟩
    · split at ht <;> obtain rfl := Option.some.inj ht
      · exact ⟨h.flag, fun hq => absurd hq.2 hcreated, h.queued, h.sent⟩
      · exact ⟨h.flag, fun hq => absurd hq.2 hcreated, h.queued, h.sent⟩
  · rename_i closes hcall
    have hquiet : (s.closed || closes) = true → (∀ x ∈ s.threads, x = .finished) → s.manager.connected = false := by
      intro hclosed hfin
      cases closes with
      | false => exact h.quiet ⟨by simpa using hclosed, hfin⟩
      | true => exact h.disconnected (hends hcall hfin)
    split at ht
    · obtain rfl := Option.some.inj ht
      exact ⟨h.flag, fun hq => hquiet hq.1 hq.2, h.queued, h.sent⟩
    · obtain ⟨-, ht⟩ := Option.ite_none_right_eq_some.1 ht
      obtain rfl := Option.some.inj ht
      exact ⟨h.flag, fun hq => hquiet hq.1 hq.2, h.queued, h.sent⟩

theorem inproc_request {m : ManagerAction} {r : Requested} (hr : m.requested s.manager = some r)
    (hconn : s.manager.connected = false) : (s.request r).inproc = s.inproc := by
  have hframes := ((guarded_requested hr).refused hconn).1
  rw [request, if_pos hframes]
  exact List.append_nil s.inproc

theorem Tracked.request {m : ManagerAction} {r : Requested} (h : s.Tracked) (hr : m.requested s.manager = some r) :
    (s.request r).Tracked := by
  have hguard := guarded_requested hr
  refine ⟨hguard.connected.trans h.flag, fun hq => hguard.connected.trans (h.quiet hq), ?_, h.sent⟩
  by_cases hquiet : s.Quiet
  · rw [inproc_request hr (h.quiet hquiet)]
    exact h.queued
  · refine List.forall_mem_append.2 ⟨h.queued, ?_⟩
    split
    · exact nofun
    · exact List.forall_mem_singleton.2 (decide_eq_false hquiet)

theorem Tracked.step (h : s.Tracked) (hends : s.EndsDisconnected a) (ht : s.step env a = some t) : t.Tracked := by
  obtain ⟨-, ht⟩ := Option.ite_none_right_eq_some.1 ht
  cases a with
  | control => exact h.control hends ht
  | poll i =>
    obtain ⟨x, hx, ht⟩ := Option.bind_eq_some_iff.1 ht
    exact h.poll hends hx ht
  | request a =>
    obtain ⟨r, hr, rfl⟩ := Option.map_eq_some_iff.1 ht
    exact h.request hr
  | throws =>
    obtain rfl := throws_eq ht
    exact ⟨h.flag, h.quiet, h.queued, h.sent⟩
  | event b | arrive f fs =>
    obtain rfl := Option.some.inj ht
    exact ⟨h.flag, h.quiet, h.queued, h.sent⟩
  | OpenAsyncApi =>
    obtain ⟨-, ht⟩ := Option.ite_none_right_eq_some.1 ht
    obtain rfl := Option.some.inj ht
    rw [Connect]
    split
    · exact ⟨h.flag, h.quiet, h.queued, h.sent⟩
    · split
      · exact h
      · exact ⟨h.flag, h.quiet, h.queued, h.sent⟩
  | RegistServerAddr | CloseAsyncApi | Start | Stop | Join =>
    obtain ⟨-, ht⟩ := Option.ite_none_right_eq_some.1 ht
    obtain rfl := Option.some.inj ht
    exact ⟨h.flag, h.quiet, h.queued, h.sent⟩

theorem Tracked.refusesClosed (h : s.Tracked) : s.RefusesClosed := by
  refine ⟨h.quiet, fun hquiet a r hvalid hr => ?_, h.sent⟩
  have hconn := h.quiet hquiet
  exact ⟨((guarded_requested hr).refused hconn).2 hvalid, inproc_request hr hconn⟩

theorem RefusesClosed.endsDisconnected (hs : s.Tracked) (ht : s.step env a = some t) (h : t.RefusesClosed) :
    s.EndsDisconnected a := by
  obtain ⟨-, ht⟩ := Option.ite_none_right_eq_some.1 ht
  cases a with
  | poll i =>
    intro hx hclosed hfin
    obtain ⟨x, hx', ht⟩ := Option.bind_eq_some_iff.1 ht
    obtain rfl := Option.some.inj (hx.symm.trans hx')
    obtain rfl := Option.some.inj ht
    exact hs.last (h.connected ⟨hclosed, hfin⟩)
  | control =>
    intro hcall hfin
    simp only [ManagerProcess.control, hcall] at ht
    split at ht
    · obtain rfl := Option.some.inj ht
      exact hs.last (h.connected ⟨Bool.or_true _, hfin⟩)
    · obtain ⟨-, ht⟩ := Option.ite_none_right_eq_some.1 ht
      obtain rfl := Option.some.inj ht
      exact hs.last (h.connected ⟨Bool.or_true _, hfin⟩)
  | _ => trivial

theorem tracked_new (m : DispatcherManager) : (new m).Tracked := ⟨rfl, fun _ => rfl, nofun, nofun⟩

/-- **In every run, a closed manager without a poll thread is not connected, refuses every request, and
sends none later that it accepted at such a time, exactly if the last event that was read is not a connect
whenever it comes to be closed.** -/
theorem refusesClosed_iff {m : DispatcherManager} {as : List ProcessAction} {t : ManagerProcess}
    (h : run (step env) (new m) as = some t) :
    Throughout (step env) RefusesClosed (new m) as ↔ Meets (step env) EndsDisconnected (new m) as :=
  throughout_iff_meets (I := Tracked) (fun _ _ _ hs ha ht => hs.step ha ht) (fun _ hs => hs.refusesClosed)
    (fun _ _ _ hs ht htr => htr.endsDisconnected hs ht) (tracked_new m) h

end

/-- The server is connected, and gone before the manager is closed. -/
def goneBefore : List ProcessAction :=
  openings ++ .event true :: List.replicate 5 (.poll 0) ++ .event false :: closing ++ [.request (.ReqLogout 7)]

theorem goneBefore_runs : (run (step default) (new ManagerRun.someManager) goneBefore).isSome = true := by
  decide +kernel

theorem refusesClosed_iff_goneBefore :
    Throughout (step default) RefusesClosed (new ManagerRun.someManager) goneBefore ↔
      Meets (step default) EndsDisconnected (new ManagerRun.someManager) goneBefore := by
  obtain ⟨t, ht⟩ := Option.isSome_iff_exists.1 goneBefore_runs
  exact refusesClosed_iff ht

instance (s : ManagerProcess) : (a : ProcessAction) → Decidable (s.EndsDisconnected a)
  | .poll _ => inferInstanceAs (Decidable (_ → _ → _ → _ ≠ _))
  | .control => inferInstanceAs (Decidable (_ → _ → _ ≠ _))
  | .RegistServerAddr _ | .OpenAsyncApi | .CloseAsyncApi | .Start | .Stop | .Join | .throws | .request _ | .event _
  | .arrive .. => .isTrue trivial

example : Meets (step default) EndsDisconnected (new ManagerRun.someManager) goneBefore := by
  decide +kernel

/-- The manager is closed while it is connected, a logout is asked for, and it is opened again. -/
def askedClosed : List ProcessAction :=
  openings ++ .event true :: closing ++ .request (.ReqLogout 7) ::
    [.OpenAsyncApi, .control, .control, .control, .control] ++ List.replicate 6 (.poll 1)

/-- The logout goes out on the later connection. -/
theorem askedClosed_not_refused : ∃ t, run (step default) (new ManagerRun.someManager) askedClosed = some t ∧
    t.sent = [⟨[send [] false, send (bytes ECommandType.TLogout.toInt) false, send (bytes (7 : CInt)) true], true⟩] ∧
      ¬ t.RefusesClosed := by
  have hrun : (run (step default) (new ManagerRun.someManager) askedClosed).map (·.sent) =
      some [⟨[send [] false, send (bytes ECommandType.TLogout.toInt) false, send (bytes (7 : CInt)) true], true⟩] := by
    decide +kernel
  obtain ⟨t, ht, hsent⟩ := Option.map_eq_some_iff.1 hrun
  refine ⟨t, ht, hsent, fun h => ?_⟩
  have hopen := h.sent
  rw [hsent] at hopen
  exact absurd (hopen _ List.mem_cons_self) (by decide)

end ManagerProcess

end CppLinuxLearn.Deployer
