import CppLinuxLearn.Deployer.Alike
import CppLinuxLearn.Deployer.Boundary

/-!
# Rejected messages

A message that is answered `TIdentifyErr`, `TNoLogin` or `TMultiLogin` leaves the answer and perhaps a
record of a client that is not logged in. `Twin` goes along two runs of the service and its pool, one
with the message among those to come and one without it; a step of the one is taken in the other with
the same times (`stepAt`), and at the message itself the other waits.
-/

namespace CppLinuxLearn.Deployer

open Lib Multipart Steps

def World.withClock (w : World) (clock : Nat → Int) : World := { w with clock := clock }

/-! ## The instants of a step -/

/-- What the clock is read for in a step. -/
inductive Reading
  | timeout
  /-- at the beginning of `katimeHandle` -/
  | katime
  /-- for the `k`-th push -/
  | lastWrite (k : Nat)
  | recount
  /-- for a new record -/
  | created
  /-- for the record of an accepted message, and once more by `onKeepAlive` -/
  | touched (k : Nat)
deriving DecidableEq

/-- The times that a step finds. -/
abbrev Instants := Reading → Int

namespace Live

/-- How many records are made for the message that comes next. -/
def fresh (s : Live) : Nat :=
  match s.poll.sock.frames[1]? with
  | some u => if (s.svc.client? u).isSome then 0 else 1
  | none => 0

/-- What the `k`-th reading in a step is for. -/
def reading (s : Live) (i : Instants) : LiveAction → Nat → Reading
  | .timer, 0 => .timeout
  | .timer, 1 => .katime
  | .timer, k + 2 => if k = s.svc.live (i .katime) then .recount else .lastWrite k
  | _, k => if k < s.fresh then .created else .touched (k - s.fresh)

/-- The clock that shows the given times in the next step. -/
def clockAt (w : World) (s : Live) (a : LiveAction) (i : Instants) (n : Nat) : Int :=
  if n < s.svc.readings then w.clock n else i (s.reading i a (n - s.svc.readings))

/-- A step at given times. -/
def stepAt (w : World) (s : Live) (p : LiveAction × Instants) : Option Live :=
  step (w.withClock (s.clockAt w p.1 p.2)) s p.1

/-- The times that the clock of `w` shows in the next step. -/
def instants (w : World) (s : Live) : Instants
  | .timeout => w.clock s.svc.readings
  | .katime => w.clock (s.svc.readings + 1)
  | .lastWrite k => w.clock (s.svc.readings + 2 + k)
  | .recount => w.clock (s.svc.readings + 2 + s.svc.live (w.clock (s.svc.readings + 1)))
  | .created => w.clock s.svc.readings
  | .touched k => w.clock (s.svc.readings + s.fresh + k)

/-- The steps of a run, each with the times that it finds. -/
def stamped (w : World) : Live → List LiveAction → List (LiveAction × Instants)
  | _, [] => []
  | s, a :: as =>
    (a, s.instants w) ::
      match step w s a with
      | some t => stamped w t as
      | none => []

theorem fresh_le_one (s : Live) : s.fresh ≤ 1 := by
  unfold fresh
  split
  · split <;> omega
  · omega

theorem clockAt_instants (w : World) (s : Live) (a : LiveAction) :
    s.clockAt w a (s.instants w) = w.clock := by
  funext n
  unfold clockAt
  split
  · rfl
  · rename_i hn
    obtain ⟨k, rfl⟩ : ∃ k, n = s.svc.readings + k := ⟨n - s.svc.readings, by omega⟩
    rw [Nat.add_sub_cancel_left]
    have hother : (s.instants w) (if k < s.fresh then .created else .touched (k - s.fresh)) =
        w.clock (s.svc.readings + k) := by
      have hfresh := s.fresh_le_one
      split
      · obtain rfl : k = 0 := by omega
        rfl
      · exact congrArg w.clock (by omega)
    cases a with
    | timer =>
      match k with
      | 0 => rfl
      | 1 => rfl
      | k + 2 =>
        simp only [reading]
        split
        · rename_i hk
          subst hk
          exact congrArg w.clock (by rw [Nat.add_assoc, Nat.add_comm 2]; rfl)
        · exact congrArg w.clock (by omega)
    | _ => exact hother

/-- **A step is a step at the times that it finds.** -/
theorem stepAt_instants (w : World) (s : Live) (a : LiveAction) :
    stepAt w s (a, s.instants w) = step w s a := by
  unfold stepAt
  rw [clockAt_instants]
  rfl

theorem run_stamped {w : World} {s t : Live} {as : List LiveAction} (h : run (step w) s as = some t) :
    run (stepAt w) s (stamped w s as) = some t := by
  induction as generalizing s with
  | nil => exact h
  | cons a as ih =>
    obtain ⟨u, hu, hrest⟩ := run_cons h
    refine Option.bind_eq_some_iff.2 ⟨u, (stepAt_instants w s a).trans hu, ?_⟩
    rw [hu]
    exact ih hrest

/-! ## Two runs -/

/-- The systems differ in the messages `q` and `q'` to come, in the answers `A` and `A'` given, and in
what makes no difference. -/
structure Twin (q q' : List Msg) (A A' : List (List Bytes)) (s s' : Live) : Prop where
  svc : Related A A' s.svc s'.svc
  sock : Apart q q' s.poll.sock s'.poll.sock
  cur : s.pc ≠ .halted → s.poll.sock.cur = []
  pc : s'.pc = s.pc
  db : s'.db = s.db
  sqlite_error_msg : s'.sqlite_error_msg = s.sqlite_error_msg
  workers : s'.workers = s.workers

section
variable {q q' : List Msg} {A A' : List (List Bytes)} {w : World} {s s' t : Live}

theorem readings_findClient (env : Env) (u : Str) (s : Service) :
    (findClient env u s).readings = s.readings + if (s.client? u).isSome then 0 else 1 := by
  unfold findClient
  split <;> rfl

theorem clockAt_touched {a : LiveAction} (ha : a ≠ .timer) (i : Instants) {u : Str}
    (hu : s.poll.sock.frames[1]? = some u) (env : Env) (n : Nat) :
    s.clockAt w a i ((findClient env u s.svc).readings + n) = i (.touched n) := by
  have hfresh : (findClient env u s.svc).readings = s.svc.readings + s.fresh := by
    rw [readings_findClient, fresh, hu]
  have hread : s.reading i a (s.fresh + n) = .touched n := by
    have hother : (if s.fresh + n < s.fresh then Reading.created else .touched (s.fresh + n - s.fresh)) =
        .touched n := by
      rw [if_neg (by omega), Nat.add_sub_cancel_left]
    cases a with
    | timer => exact absurd rfl ha
    | _ => exact hother
  rw [hfresh, clockAt, if_neg (by omega), Nat.add_assoc, Nat.add_sub_cancel_left, hread]

theorem clockAt_timer (i : Instants) (k : Nat) :
    s.clockAt w .timer i (s.svc.readings + k) = i (s.reading i .timer k) := by
  rw [clockAt, if_neg (by omega), Nat.add_sub_cancel_left]

theorem Twin.timer (h : Twin q q' A A' s s') :
    Related A A' (checkTimer w.toEnv s.svc)
      (checkTimer (w.toEnv.withClock (s'.clockAt w .timer (s.instants w))) s'.svc) := by
  refine h.svc.checkTimer w.toEnv _ (clockAt_timer _ 0) (clockAt_timer _ 1) ?_
  have hread : s'.reading (s.instants w) .timer (2 + s'.svc.live (w.clock (s.svc.readings + 1))) =
      .recount := by
    rw [Nat.add_comm]
    exact if_pos rfl
  rw [Nat.add_assoc, clockAt_timer, hread]
  rfl

theorem Twin.readable (hq : q = [] → q' = []) (h : Twin q q' A A' s s')
    (hleaves : Leaves q ((onReadable w.toEnv).run s.poll)) :
    Paired q q' (Related A A') (Related A A') ((onReadable w.toEnv).run s.poll)
      ((onReadable (w.toEnv.withClock (s'.clockAt w .handle (s.instants w)))).run s'.poll) := by
  refine paired_onReadable hq w.toEnv _ h.svc h.sock (fun u hu hu' n => ?_) hleaves
  have htouched := clockAt_touched (w := w) (a := LiveAction.handle) nofun (s.instants w) hu' w.toEnv n
  rw [readings_findClient] at htouched ⊢
  refine htouched.trans (congrArg w.clock ?_)
  rw [readings_findClient, fresh, hu]

/-- If the message that is handled is none of `q`, there is one on the other side. -/
theorem Twin.next (h : Twin q q' A A' s s') (hcur : s.poll.sock.cur = []) (hnext : s.poll.sock.next ≠ [])
    (hleaves : Leaves q ((onReadable w.toEnv).run s.poll)) : s'.poll.sock.next ≠ [] := by
  obtain ⟨-, ms, hms, hms'⟩ := h.sock
  cases ms with
  | cons m ms => simp [hms']
  | nil =>
    have hpoll : s.poll = ⟨s.svc, ⟨[], q, s.poll.sock.overreads⟩⟩ := by
      rw [← hcur, ← List.nil_append q, ← hms]
    have hR : ReadOrder (@Ahead Service) := ahead_readOrder
    have hfirst := (leaves_of_bind (fun r => along_bind hR hR.recv fun u => along_bind hR hR.recv fun f =>
      forward_copyPod_dispatch w.toEnv r u f) hleaves).1
    rw [hpoll] at hfirst
    cases q with
    | nil => exact absurd hms hnext
    | cons m q =>
      have hlt : q.length + 1 ≤ q.length := hfirst
      omega

theorem onReadable_withClock (clock : Nat → Int) :
    onReadable (w.withClock clock).toEnv = onReadable (w.toEnv.withClock clock) := rfl

theorem Twin.poll (h : Twin q q' A A' s s') (hrunning : s.pc ≠ .halted) (f f' : Service → Service)
    (hsvc : Related A A' (f s.svc) (f' s'.svc)) (pc : PollPc) :
    Twin q q' A A' { s.modify f with pc := pc } { s'.modify f' with pc := pc } :=
  ⟨hsvc, h.sock, fun _ => h.cur hrunning, rfl, h.db, h.sqlite_error_msg, h.workers⟩

theorem Twin.stage (h : Twin q q' A A' s s') (f f' : Service → Service)
    (hsvc : Related A A' (f s.svc) (f' s'.svc)) (i : Nat) (task : Task) (stage : Stage task.op.type) :
    Twin q q' A A' ((s.modify f).setStage i task stage) ((s'.modify f').setStage i task stage) :=
  ⟨hsvc, h.sock, h.cur, h.pc, h.db, h.sqlite_error_msg, congrArg (List.set · i _) h.workers⟩

theorem Twin.worker (h : Twin q q' A A' s s') {i : Nat} {x : Worker} (hw : s.workers[i]? = some x) :
    s'.workers[i]? = some x := by
  rw [h.workers, hw]

/-- **A step is taken on both sides**, at the same times. -/
theorem Twin.follows (hq : q = [] → q' = []) (h : Twin q q' A A' s s') {a : LiveAction}
    (ht : step w s a = some t) (hleft : q.length ≤ t.poll.sock.next.length) :
    ∃ t', stepAt w s' (a, s.instants w) = some t' ∧ Twin q q' A A' t t' := by
  have hrunning : ∀ {pc : PollPc}, s.pc = pc → pc ≠ .halted → s.pc ≠ .halted := fun hpc hne => hpc ▸ hne
  unfold stepAt
  cases step_stepped ht with
  | checkSet hpc hflag =>
    have hflag' : s'.svc.bUpdManagerCache = true := h.svc.bUpdManagerCache.trans hflag
    refine ⟨_, by rw [step, if_pos (h.pc.trans hpc), if_pos hflag'], h.poll (hrunning hpc (by simp)) _ _ ?_ _⟩
    exact h.svc.quiet { h.svc.toAlike with bUpdManagerCache := rfl } rfl rfl
  | checkUnset hpc hflag =>
    have hflag' : s'.svc.bUpdManagerCache = false := h.svc.bUpdManagerCache.trans hflag
    refine ⟨_, by rw [step, if_pos (h.pc.trans hpc), hflag']; rfl, ?_⟩
    exact h.poll (hrunning hpc (by simp)) id id h.svc _
  | @query hpc vc hvc =>
    have hvc' : ∀ clock, (w.withClock clock).managers s'.db = some vc := fun _ => h.db ▸ hvc
    refine ⟨_, by rw [step, if_pos (h.pc.trans hpc), hvc']; rfl, ?_⟩
    exact h.poll (hrunning hpc (by simp)) id id h.svc _
  | @replace vc hpc =>
    refine ⟨_, by simp only [step, h.pc.trans hpc]; rfl, h.poll (hrunning hpc (by simp)) _ _ ?_ _⟩
    exact h.svc.quiet { h.svc.toAlike with setManagerCache := rfl } rfl rfl
  | timer hpc =>
    exact ⟨_, if_pos (h.pc.trans hpc), h.poll (hrunning hpc (by simp)) _ _ h.timer _⟩
  | @relay hpc i dealer task frames hw =>
    refine ⟨_, by simp only [step, h.pc.trans hpc, h.worker hw]; rfl, ?_⟩
    have hrelay : Related A A' (relayMsg dealer frames s.svc) (relayMsg dealer frames s'.svc) := by
      have hfs : Tells ((assemble [] frames).flatMap flagged) ((assemble [] frames).filter isAnswer) :=
        ⟨_, ne_nil_of_mem_assemble, rfl, rfl⟩
      refine h.svc.sends ?_ (congrArg Service.sent (relayMsg_eq dealer frames s.svc)) hfs
        (congrArg Service.sent (relayMsg_eq dealer frames s'.svc)) hfs
      rw [relayMsg_eq, relayMsg_eq]
      exact { h.svc.toAlike with }
    exact (h.poll (hrunning hpc (by simp)) _ _ hrelay .handle).stage id id hrelay i task .relayed
  | noRelay hpc =>
    refine ⟨_, if_pos (h.pc.trans hpc), ?_⟩
    exact h.poll (hrunning hpc (by simp)) id id h.svc _
  | @handle hpc hnext p hrun =>
    have hleaves : Leaves q ((onReadable w.toEnv).run s.poll) := by rwa [Leaves, hrun]
    have hnext' := h.next (h.cur (hrunning hpc (by simp))) hnext hleaves
    have hpaired := h.readable hq hleaves
    rw [hrun] at hpaired
    obtain ⟨p', hrun', hown, hsock⟩ := hpaired.of_ok
    refine ⟨{ s' with poll := p', pc := .check }, ?_, ?_⟩
    · exact (if_pos ⟨h.pc.trans hpc, hnext'⟩).trans (by rw [onReadable_withClock, hrun'])
    · exact ⟨hown, hsock, fun _ => onReadable_cur hrun, rfl, h.db, h.sqlite_error_msg, h.workers⟩
  | @handleStop hpc hnext e p hrun =>
    have hleaves : Leaves q ((onReadable w.toEnv).run s.poll) := by rwa [Leaves, hrun]
    have hnext' := h.next (h.cur (hrunning hpc (by simp))) hnext hleaves
    have hpaired := h.readable hq hleaves
    rw [hrun] at hpaired
    obtain ⟨p', hrun', hown, hsock⟩ := hpaired.of_error
    refine ⟨{ s' with poll := p', pc := .halted }, ?_, ?_⟩
    · exact (if_pos ⟨h.pc.trans hpc, hnext'⟩).trans (by rw [onReadable_withClock, hrun'])
    · exact ⟨hown, hsock, fun hne => absurd rfl hne, rfl, h.db, h.sqlite_error_msg, h.workers⟩
  | noHandle hpc =>
    refine ⟨_, if_pos (h.pc.trans hpc), ?_⟩
    exact h.poll (hrunning hpc (by simp)) id id h.svc _
  | @take task ts hque hfree =>
    have hque' : s'.svc.queTask = task :: ts := h.svc.queTask.trans hque
    have hfree' : s'.workers.countP Worker.busy < w.threads := h.workers ▸ hfree
    refine ⟨_, by simp only [step, hque']; exact if_pos hfree', ?_⟩
    exact ⟨h.svc.quiet { h.svc.toAlike with queTask := rfl } rfl rfl, h.sock, h.cur, h.pc, h.db,
      h.sqlite_error_msg, congrArg (· ++ [_]) h.workers⟩
  | @exec i q task hw x hx =>
    have hx' : ∀ clock, task.op.exec (w.withClock clock) q s'.db = some x := fun _ => h.db ▸ hx
    refine ⟨_, by simp only [step, h.worker hw, hx', Option.map_some]; rfl, ?_⟩
    exact ⟨h.svc, h.sock, h.cur, h.pc, rfl,
      congrArg (fun f => Function.update f i (x.errmsg.getD (f i))) h.sqlite_error_msg,
      congrArg (List.set · i _) h.workers⟩
  | @address i task res qryObjs hw =>
    refine ⟨_, by simp only [step, h.worker hw, h.svc.router, h.sqlite_error_msg]; rfl, ?_⟩
    exact h.stage _ _ (h.svc.quiet { h.svc.toAlike with } rfl rfl) i task _
  | @store i task frames stores hw =>
    refine ⟨_, by simp only [step, h.worker hw]; rfl, h.stage _ _ (h.svc.quiet ?_ rfl rfl) i task _⟩
    exact { h.svc.toAlike with bUpdManagerCache := congrArg (· || stores) h.svc.bUpdManagerCache }
  | @send i task frames hw =>
    refine ⟨_, by simp only [step, h.worker hw]; rfl, ?_⟩
    exact h.stage id id h.svc i task _

theorem step_next {a : LiveAction} (h : step w s a = some t) : t.poll.sock.next <:+ s.poll.sock.next := by
  have hread := forward_onReadable w.toEnv s.poll
  cases step_stepped h with
  | handle hpc hnext hrun => rwa [hrun] at hread
  | handleStop hpc hnext hrun => rwa [hrun] at hread
  | _ => exact List.suffix_rfl

theorem run_next {as : List LiveAction} (h : run (step w) s as = some t) :
    t.poll.sock.next <:+ s.poll.sock.next :=
  run_invariant (I := fun u : Live => u.poll.sock.next <:+ s.poll.sock.next)
    (fun _ _ _ hs ht => (step_next ht).trans hs) List.suffix_rfl h

/-- **A run is taken on both sides**, each step at the same times. -/
theorem Twin.run_follows (hq : q = [] → q' = []) {as : List LiveAction} (h : Twin q q' A A' s s')
    (ht : run (step w) s as = some t) (hleft : q.length ≤ t.poll.sock.next.length) :
    ∃ t', run (stepAt w) s' (stamped w s as) = some t' ∧ Twin q q' A A' t t' := by
  induction as generalizing s s' with
  | nil =>
    obtain rfl : s = t := Option.some.inj ht
    exact ⟨s', rfl, h⟩
  | cons a as ih =>
    obtain ⟨u, hu, hrest⟩ := run_cons ht
    obtain ⟨u', hu', htwin⟩ := h.follows hq hu (hleft.trans (run_next hrest).length_le)
    obtain ⟨t', ht', htwin'⟩ := ih htwin hrest
    refine ⟨t', Option.bind_eq_some_iff.2 ⟨u', hu', ?_⟩, htwin'⟩
    rw [hu]
    exact ht'

theorem twin_init (db : Database) (ms : List Msg) :
    Twin q q' [] [] (init w db (ms ++ q)) (init w db (ms ++ q')) := by
  have hnone : (Service.init w.toEnv).Identified := nofun
  exact ⟨⟨Alike.refl hnone, [], Tells.nil, Tells.nil⟩, ⟨rfl, ms, rfl, rfl⟩, fun _ => rfl, rfl, rfl, rfl, rfl⟩

end

end Live

/-! ## A rejection -/

/-- The response tells of a message that was rejected. -/
def ReqResponse.Rejects (rsp : ReqResponse) : Prop :=
  rsp.ErrorID = EResponseErrType.TIdentifyErr.toInt ∨ rsp.ErrorID = EResponseErrType.TNoLogin.toInt ∨
    rsp.ErrorID = EResponseErrType.TMultiLogin.toInt

section
variable (env : Env) (s : Service)

theorem sent_handleCmd (c : DispatcherClient) (req : Request) : ∃ fs as,
    (handleCmd env c req s).sent = s.sent ++ fs ∧ Tells fs as ∧
      ∀ a ∈ as, ∀ rsp, response? a = some rsp → ¬ rsp.Rejects := by
  have hanswer : ∀ (t : Service) (err : EResponseErrType) (msg : String) (reqid cmd : CInt),
      t.sent = s.sent → err = .TSuccess ∨ err = .TReplicatedLogin →
      ∃ fs as, (t.answer c.strRouter (mkResponse env err msg reqid cmd)).sent = s.sent ++ fs ∧ Tells fs as ∧
        ∀ a ∈ as, ∀ rsp, response? a = some rsp → ¬ rsp.Rejects := by
    intro t err msg reqid cmd ht herr
    refine ⟨_, _, by rw [sent_answer, ht], tells_sent _ _, fun a ha rsp hrsp => ?_⟩
    obtain rfl := List.mem_singleton.1 ha
    rw [ServerMsg.response?_frames] at hrsp
    obtain rfl := Option.some.inj hrsp
    have hne : ¬ (err.toInt = EResponseErrType.TIdentifyErr.toInt ∨ err.toInt = EResponseErrType.TNoLogin.toInt ∨
        err.toInt = EResponseErrType.TMultiLogin.toInt) := by
      rcases herr with rfl | rfl <;> decide
    exact hne
  have hnone : ∀ t : Service, t.sent = s.sent → ∃ fs as, t.sent = s.sent ++ fs ∧ Tells fs as ∧
      ∀ a ∈ as, ∀ rsp, response? a = some rsp → ¬ rsp.Rejects :=
    fun t ht => ⟨[], [], by rw [ht, List.append_nil], .nil, nofun⟩
  cases req with
  | login reqid =>
    rw [handleCmd, onReqLogin]
    split
    · exact hanswer s _ _ _ _ rfl (.inr rfl)
    · exact hanswer (s.modifyClient _ _) _ _ _ _ rfl (.inl rfl)
  | logout reqid => exact hanswer (s.modifyClient _ _) _ _ _ _ rfl (.inl rfl)
  | keepAlive => exact hnone _ rfl
  | query reqid eletype fs | delByCol reqid eletype fs =>
    apply hnone
    rw [handleCmd, submitSql]
    split <;> rfl
  | byObjects op reqid t objVec =>
    apply hnone
    rw [handleCmd]
    split <;> rfl
  | skipped => exact hnone _ rfl

theorem run_reject {x : Rd Service CInt} (hx : Along SameOwn x) (g : CInt → Service → Service) (k : Rcv) :
    (∃ e k', (x >>= fun a => modifyOwn (g a)).run ⟨s, k⟩ = .error e ⟨s, k'⟩) ∨
      ∃ a k', (x >>= fun a => modifyOwn (g a)).run ⟨s, k⟩ = .ok () ⟨g a s, k'⟩ := by
  have hown := hx ⟨s, k⟩
  rw [EStateM.run_bind]
  cases hrun : x.run ⟨s, k⟩ with
  | error e t =>
    rw [hrun] at hown
    obtain ⟨t, k'⟩ := t
    obtain rfl : t = s := hown
    exact .inl ⟨e, k', rfl⟩
  | ok a t =>
    rw [hrun] at hown
    obtain ⟨t, k'⟩ := t
    obtain rfl : t = s := hown
    exact .inr ⟨a, k', rfl⟩

theorem run_dispatch_rejected (hid : s.Identified) {r u : Str} {cmd : CInt}
    (hv : verdict s r u cmd ≠ .accepted) (k : Rcv) : ∃ t, Alike s t ∧ t.sent = s.sent ∧
      ((∃ e k', (dispatch env r u cmd).run ⟨s, k⟩ = .error e ⟨t, k'⟩) ∨
        ∃ rsp k', (dispatch env r u cmd).run ⟨s, k⟩ = .ok () ⟨t.answer r rsp, k'⟩) := by
  have hR : ReadOrder (@SameOwn Service) := sameOwn_readOrder
  have hfound := Alike.findClient env u hid
  have hreject : ∀ err msg,
      (∃ e k', (rejectLogin env err msg r cmd).run ⟨findClient env u s, k⟩ = .error e ⟨findClient env u s, k'⟩) ∨
        ∃ rsp k', (rejectLogin env err msg r cmd).run ⟨findClient env u s, k⟩ =
          .ok () ⟨(findClient env u s).answer r rsp, k'⟩ := by
    intro err msg
    refine (run_reject _ (along_recvReqidIfMore env hR) _ k).imp id ?_
    rintro ⟨reqid, k', hrun⟩
    exact ⟨_, k', hrun⟩
  rw [run_dispatch]
  cases hverdict : verdict s r u cmd with
  | identifyErr =>
    refine ⟨s, Alike.refl hid, rfl, (run_reject _ (along_recvRequestidIfMore env hR) _ k).imp id ?_⟩
    rintro ⟨requestid, k', hrun⟩
    exact ⟨_, k', hrun⟩
  | noLogin => exact ⟨_, hfound, (findClient_sent env u s).1, hreject _ _⟩
  | multiLogin => exact ⟨_, hfound, (findClient_sent env u s).1, hreject _ _⟩
  | accepted => exact absurd hverdict hv

theorem sent_dispatch_accepted {r u : Str} {cmd : CInt} (hv : verdict s r u cmd = .accepted) (k : Rcv) :
    ∃ fs as, (final ((dispatch env r u cmd).run ⟨s, k⟩)).own.sent = s.sent ++ fs ∧ Tells fs as ∧
      ∀ a ∈ as, ∀ rsp, response? a = some rsp → ¬ rsp.Rejects := by
  have hR : ReadOrder (@SameOwn Service) := sameOwn_readOrder
  obtain ⟨c, hc, hrun⟩ := run_acceptCmd env r u cmd s k
  have hsent := (findClient_sent env u s).1
  rw [run_dispatch, hv]
  simp only [hrun, onRecvCmd, EStateM.run_bind (modifyOwn _), run_modifyOwn]
  refine own_bind_of_sameOwn (P := fun t : Service => ∃ fs as, t.sent = s.sent ++ fs ∧ Tells fs as ∧
    ∀ a ∈ as, ∀ rsp, response? a = some rsp → ¬ rsp.Rejects) (along_recvCmd hR env cmd) k
    ⟨[], [], ?_, .nil, by simp⟩ fun req k' _ => ?_
  · exact hsent.trans (List.append_nil _).symm
  · obtain ⟨fs, as, hfs, htells, hnot⟩ := sent_handleCmd env
      ((touchClient env r u (findClient env u s)).logEvent (.reached c.strIdentify r cmd) |>.logEvent
        (.parsed c.strIdentify req)) { c with strRouter := r, tLastRead := (findClient env u s).now env } req
    exact ⟨fs, as, hfs.trans (congrArg (· ++ fs) hsent), htells, hnot⟩

section
variable (r u f : Str) (fs : List Bytes) (q : List Msg) (o : List (Bytes × Nat))

theorem run_onReadable_rejected (hid : s.Identified) (hv : verdict s r u (podAt env CInt f) ≠ .accepted) :
    ∃ t, Alike s t ∧ t.sent = s.sent ∧
      ((∃ e k', (onReadable env).run ⟨s, ⟨[], ⟨r, u :: f :: fs⟩ :: q, o⟩⟩ = .error e ⟨t, k'⟩) ∨
        ∃ rsp o', (onReadable env).run ⟨s, ⟨[], ⟨r, u :: f :: fs⟩ :: q, o⟩⟩ =
          .ok () ⟨t.answer r rsp, ⟨[], q, o'⟩⟩) := by
  have hwithin := (within_dispatch env s fs q (o ++ overread CInt f) r u _).2 fun h => absurd h hv
  obtain ⟨t, hlike, ht, ⟨e, k', hrun⟩ | ⟨rsp, ⟨cur, next, o'⟩, hrun⟩⟩ :=
    run_dispatch_rejected env s hid hv ⟨fs, q, o ++ overread CInt f⟩
  · refine ⟨t, hlike, ht, .inl ⟨e, k', ?_⟩⟩
    rw [run_onReadable_dispatch, EStateM.run_bind, hrun]
  · rw [hrun] at hwithin
    obtain rfl : next = q := hwithin
    refine ⟨t, hlike, ht, .inr ⟨rsp, o', ?_⟩⟩
    rw [run_onReadable_dispatch, EStateM.run_bind, hrun]
    exact run_skipRemainMFrame (t.answer r rsp) cur next o'

theorem sent_onReadable_accepted (hv : verdict s r u (podAt env CInt f) = .accepted) :
    ∃ gs as, (final ((onReadable env).run ⟨s, ⟨[], ⟨r, u :: f :: fs⟩ :: q, o⟩⟩)).own.sent = s.sent ++ gs ∧
      Tells gs as ∧ ∀ a ∈ as, ∀ rsp, response? a = some rsp → ¬ rsp.Rejects := by
  rw [run_onReadable_dispatch, own_final_bind fun _ => along_skipRemainMFrame sameOwn_readOrder]
  exact sent_dispatch_accepted env s hv _

variable {s r u f}

/-- **A rejection**: if the answer to a message is one, the service has done nothing else, but for a
record, and the message is gone. -/
theorem run_onReadable_rejects {as : List (List Bytes)} {a : List Bytes} {rsp : ReqResponse}
    (hid : s.Identified) (hsent : Tells s.sent as)
    (hanswer : (final ((onReadable env).run ⟨s, ⟨[], ⟨r, u :: f :: fs⟩ :: q, o⟩⟩)).own.answers = as ++ [a])
    (hrsp : response? a = some rsp) (hrej : rsp.Rejects) : ∃ t o', Alike s t ∧ Tells t.sent (as ++ [a]) ∧
      (onReadable env).run ⟨s, ⟨[], ⟨r, u :: f :: fs⟩ :: q, o⟩⟩ = .ok () ⟨t, ⟨[], q, o'⟩⟩ := by
  by_cases hv : verdict s r u (podAt env CInt f) = .accepted
  · obtain ⟨gs, bs, hgs, htells, hnot⟩ := sent_onReadable_accepted env s r u f fs q o hv
    have hafter := answers_of_tells (hgs ▸ hsent.append htells)
    have hbs : bs = [a] := List.append_cancel_left (hafter.symm.trans hanswer)
    exact absurd hrej (hnot a (by simp [hbs]) rsp hrsp)
  · obtain ⟨t, hlike, ht, ⟨e, k', hrun⟩ | ⟨rsp', o', hrun⟩⟩ :=
      run_onReadable_rejected env s r u f fs q o hid hv
    · -- it has stopped and answered nothing
      have hafter : t.answers = as := answers_of_tells (ht ▸ hsent)
      rw [hrun] at hanswer
      simp [final, hafter] at hanswer
    · have htells : Tells (t.answer r rsp').sent (as ++ [r :: (ServerMsg.plain rsp').frames]) := by
        rw [sent_answer, ht]
        exact hsent.append (tells_sent r (.plain rsp'))
      rw [hrun] at hanswer
      have hlast := (answers_of_tells htells).symm.trans hanswer
      exact ⟨t.answer r rsp', o', { hlike with }, hlast ▸ htells, hrun⟩

end

end

namespace Live

section
variable {w : World} {s s₁ : Live} {m : Msg} {rest : List Msg}

theorem step_rejected {as : List (List Bytes)} {a : List Bytes} {rsp : ReqResponse}
    (hid : s.svc.Identified) (hsent : Tells s.svc.sent as) (hcur : s.poll.sock.cur = [])
    (hnext : s.poll.sock.next = m :: rest) (hm : 2 ≤ m.rest.length) (hstep : step w s .handle = some s₁)
    (hanswer : s₁.svc.answers = s.svc.answers ++ [a]) (hrsp : response? a = some rsp) (hrej : rsp.Rejects) :
    Alike s.svc s₁.svc ∧ Tells s₁.svc.sent (as ++ [a]) ∧ s₁.poll.sock.cur = [] ∧ s₁.poll.sock.next = rest ∧
      s₁ = { s with poll := s₁.poll, pc := .check } := by
  obtain ⟨r, m⟩ := m
  obtain ⟨u, f, fs, rfl⟩ : ∃ u f fs, m = u :: f :: fs := by
    match m, hm with
    | u :: f :: fs, _ => exact ⟨u, f, fs, rfl⟩
  have hpoll : s.poll = ⟨s.svc, ⟨[], ⟨r, u :: f :: fs⟩ :: rest, s.poll.sock.overreads⟩⟩ := by
    rw [← hcur, ← hnext]
  have hs₁ : s₁.svc = (final ((onReadable w.toEnv).run s.poll)).own := by
    cases step_stepped hstep with
    | handle hpc hne hrun => rw [hrun, final]
    | handleStop hpc hne hrun => rw [hrun, final]
  rw [answers_of_tells hsent, hs₁, hpoll] at hanswer
  obtain ⟨t, o', hlike, htells, hrun⟩ := run_onReadable_rejects w.toEnv fs rest _ hid hsent hanswer hrsp hrej
  rw [← hpoll] at hrun
  cases step_stepped hstep with
  | handle hpc hne hrun' =>
    obtain ⟨-, rfl⟩ := EStateM.Result.ok.inj (hrun.symm.trans hrun')
    exact ⟨hlike, htells, rfl, rfl, rfl⟩
  | handleStop hpc hne hrun' => cases hrun.symm.trans hrun'

/-! ## A run without the message -/

/-- Between the ends `t` and `t'` of two runs there is one answer more on the one side, given after `A`. -/
structure Unaffected (A : List (List Bytes)) (a : List Bytes) (t t' : Live) : Prop where
  answers : ∃ B, t.svc.answers = A ++ a :: B ∧ t'.svc.answers = A ++ B
  /-- the tasks submitted and not yet taken -/
  queTask : t'.svc.queTask = t.svc.queTask
  /-- the tasks taken, and how far they have come -/
  workers : t'.workers = t.workers
  expiry : ∀ u, t'.svc.expiry u = t.svc.expiry u

theorem Twin.unaffected {A : List (List Bytes)} {a : List Bytes} {t t' : Live}
    (h : Twin [] [] (A ++ [a]) A t t') : Unaffected A a t t' := by
  obtain ⟨B, hB, hB'⟩ := h.svc.sent
  refine ⟨⟨B, ?_, answers_of_tells hB'⟩, h.svc.queTask, h.workers, h.svc.expiry⟩
  rw [answers_of_tells hB, List.append_assoc, List.singleton_append]

theorem Twin.rejected {s' : Live} {A : List (List Bytes)} {a : List Bytes} {rsp : ReqResponse}
    (h : Twin (m :: rest) rest [] [] s s') (hA : s.svc.answers = A) (hnext : s.poll.sock.next = m :: rest)
    (hm : 2 ≤ m.rest.length) (hstep : step w s .handle = some s₁)
    (hanswer : s₁.svc.answers = s.svc.answers ++ [a]) (hrsp : response? a = some rsp) (hrej : rsp.Rejects)
    (i : Instants) : ∃ s₁', stepAt w s' (.noHandle, i) = some s₁' ∧ Twin [] [] (A ++ [a]) A s₁ s₁' := by
  have hpc : s.pc = .handle := (Option.ite_none_right_eq_some.1 hstep).1.1
  have hcur := h.cur (by rw [hpc]; nofun)
  obtain ⟨B, hB, hB'⟩ := h.svc.sent
  rw [List.nil_append] at hB hB'
  obtain rfl : B = A := (answers_of_tells hB).symm.trans hA
  obtain ⟨hlike, htells, hcur₁, hnext₁, hs₁⟩ :=
    step_rejected h.svc.identify hB hcur hnext hm hstep hanswer hrsp hrej
  obtain ⟨hcur', ms, hms, hms'⟩ := h.sock
  have hnil : ms = [] := by
    rw [hnext] at hms
    exact List.self_eq_append_left.1 hms
  rw [hnil, List.nil_append] at hms'
  refine ⟨{ s' with pc := .check }, if_pos (h.pc.trans hpc), ?_⟩
  rw [hs₁]
  refine ⟨⟨hlike.symm.trans h.svc.toAlike, [], ?_, ?_⟩, ?_, fun _ => hcur₁, rfl, h.db, h.sqlite_error_msg,
    h.workers⟩
  · rwa [List.append_nil]
  · rwa [List.append_nil]
  · exact apart_nil.2 ⟨hcur'.trans (hcur.trans hcur₁.symm), hms'.trans hnext₁.symm⟩

end

def amyHere : Msg := clientMsg "r1" "amy" .TLogin [bytes (7 : CInt)]

/-- Somebody tries to log her out from another router. -/
def amyElsewhere : Msg := clientMsg "r2" "amy" .TLogout [bytes (8 : CInt)]

def amyAsks : Msg := clientMsg "r1" "amy" .TQuery [bytes (9 : CInt), bytes EElementType.TManageUser.toInt]

def undisturbed : Live := init plainWorld (managersNamed ["amy"]) ([amyHere] ++ [amyAsks])

def disturbed : Live := init plainWorld (managersNamed ["amy"]) ([amyHere] ++ amyElsewhere :: [amyAsks])

def untilElsewhere : List LiveAction :=
  [.check, .query, .replace, .timer, .noRelay, .handle, .check, .timer, .noRelay]

def behindElsewhere : List LiveAction := [.check, .timer, .noRelay, .handle]

theorem untilElsewhere_isSome : (run (step plainWorld) disturbed untilElsewhere).isSome := by
  decide +kernel

def atElsewhere : Live := Option.get _ untilElsewhere_isSome

theorem pastElsewhere_isSome : (step plainWorld atElsewhere .handle).isSome := by
  decide +kernel

def pastElsewhere : Live := Option.get _ pastElsewhere_isSome

theorem behindElsewhere_isSome : (run (step plainWorld) pastElsewhere behindElsewhere).isSome := by
  decide +kernel

def amyAsked : Live := Option.get _ behindElsewhere_isSome

def elsewhereRejected : ReqResponse :=
  mkResponse plainWorld.toEnv .TMultiLogin "Multi-Login Error" 8 ECommandType.TLogout.toInt

end Live

end CppLinuxLearn.Deployer
