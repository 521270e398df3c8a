import CppLinuxLearn.Deployer.PollLoop

/-!
# Message boundaries

An iteration of `pollFunc` that handles a client message should read the frames of that message and
no others. The rejections and the loops ask for `ZMQ_RCVMORE` before every frame, and `skip_label`
drops what is left; but the command frame, the request id of a login or a logout, the first two
frames of a request and the value of a column filter are received without asking. `MessageFits`
says, from the frames of a message and the state it meets, that none of these is missing;
`iterations_oneMessage_iff` says that a run stays on message boundaries exactly when all its
messages fit.
-/

namespace CppLinuxLearn.Deployer

open Lib Multipart

/-! ## The frames a command takes for granted -/

/-- `TInsert`, `TDelete` and `TUpdate`: a request id and, if its size is right, one frame more. -/
def ObjectsFit : List Bytes → Prop
  | [] => False
  | reqid :: fs => reqid.length = Pod.size CInt → fs ≠ []

/-- `TQuery` and `TDelByCol`: the same, and the filters in pairs. -/
def FiltersFit : List Bytes → Prop
  | [] => False
  | [reqid] => reqid.length ≠ Pod.size CInt
  | reqid :: eletype :: fs =>
    reqid.length = Pod.size CInt → eletype.length = Pod.size CInt → Even fs.length

/-- The frames behind the command frame are enough for what `onRecvCmd` receives unasked. -/
def CommandFits (cmd : CInt) (fs : List Bytes) : Prop :=
  match ECommandType.ofInt? cmd with
  | some .TLogin | some .TLogout => fs ≠ []
  | some .TQuery | some .TDelByCol => FiltersFit fs
  | some .TInsert | some .TDelete | some .TUpdate => ObjectsFit fs
  | _ => True

/-- A message has an identity and a command and, if it is accepted, what the command needs. -/
def MessageFits (env : Env) (s : Service) (m : Msg) : Prop :=
  match m.rest with
  | strIdentity :: cmdFrame :: fs =>
    verdict s m.head strIdentity (podAt env CInt cmdFrame) = .accepted →
      CommandFits (podAt env CInt cmdFrame) fs
  | _ => False

/-! ## What the commands read -/

section
variable {σ : Type} (env : Env)


variable (s : σ) (fs : List Bytes) (q : List Msg) (o : List (Bytes × Nat))

/-- A size-checked read: a missing frame is taken from the next message, a frame of the wrong size
ends the program. -/
theorem within_recvPodObject_bind {T α : Type} [Pod T] {g : T → Rd σ α} (hg : ∀ a, Forward (g a)) :
    Within q ((recvPodObject env T >>= g).run ⟨s, ⟨fs, q, o⟩⟩) ↔
      ∃ f fs', fs = f :: fs' ∧
        (f.length = Pod.size T → Within q ((g (podAt env T f)).run ⟨s, ⟨fs', q, o⟩⟩)) := by
  have hR : ReadOrder (@Ahead σ) := ahead_readOrder
  cases fs with
  | nil =>
    have hread : ¬ Within q ((recvPodObject env T).run ⟨s, ⟨[], q, o⟩⟩) :=
      not_within_recv s q o fun _ => along_bind hR (along_assertThat hR _) fun _ =>
        along_copyPod hR env T _
    refine iff_of_false ?_ (by simp)
    exact not_within_bind (p := ⟨s, ⟨[], q, o⟩⟩) (along_recvPodObject hR env T) hg hread
  | cons f fs =>
    rw [EStateM.run_bind]
    by_cases hf : f.length = Pod.size T
    · simp [run_recvPodObject env T s f fs q o hf, hf]
    · simp [run_recvPodObject_aborts env T s f fs q o hf, hf, Within]

theorem within_recvColumnFilters :
    Within q (recvColumnFilters.run ⟨s, ⟨fs, q, o⟩⟩) ↔ Even fs.length := by
  obtain ⟨ps, rfl | ⟨f, rfl⟩⟩ := exists_pairs fs
  · rw [recvColumnFilters, run_whileMore_pairs, length_flatMap_pair]
    exact iff_of_true rfl (even_two_mul _)
  · refine iff_of_false (not_within_whileMore_pairs s f q o _ ps) ?_
    rw [List.length_append, length_flatMap_pair, List.length_singleton]
    exact Nat.not_even_two_mul_add_one _

theorem within_login (mk : CInt → Request) :
    Within q ((do return mk (← recvPodObject env CInt)).run ⟨s, ⟨fs, q, o⟩⟩) ↔ fs ≠ [] := by
  rw [within_recvPodObject_bind env s fs q o fun _ => along_pure ahead_readOrder _]
  cases fs with
  | nil => simp
  | cons f fs => simp [Within]

theorem within_recvFiltered (mk : CInt → CInt → List ColumnFilter → Request) :
    Within q ((recvFiltered env mk).run ⟨s, ⟨fs, q, o⟩⟩) ↔ FiltersFit fs := by
  have hR : ReadOrder (@Ahead σ) := ahead_readOrder
  have hloop : ∀ reqid eletype, Forward (recvColumnFilters >>= fun cs => pure (mk reqid eletype cs) :
      Rd σ Request) := fun _ _ => along_bind hR (along_recvColumnFilters hR) fun _ => along_pure hR _
  have hend : ∀ reqid eletype (gs : List Bytes), Within q ((recvColumnFilters >>= fun cs =>
      pure (mk reqid eletype cs)).run ⟨s, ⟨gs, q, o⟩⟩) ↔ Even gs.length := by
    intro reqid eletype gs
    rw [within_bind_pure, within_recvColumnFilters]
  rw [recvFiltered, within_recvPodObject_bind env s fs q o fun _ =>
    along_bind hR (along_recvPodObject hR env CInt) (hloop _)]
  simp only [within_recvPodObject_bind env s _ q o (hloop _), hend]
  match fs with
  | [] => simp [FiltersFit]
  | [f] => simp [FiltersFit]
  | f :: g :: fs => simp [FiltersFit]

theorem within_recvElements (op : DbOp) (reqid eletype : CInt) :
    Within q ((recvElements env op reqid eletype).run ⟨s, ⟨fs, q, o⟩⟩) := by
  unfold recvElements
  split
  · rw [within_bind_pure, run_recvVecObject]
    rfl
  · rw [within_bind_pure, run_skipRemainMFrame]
    rfl

theorem within_recvObjects (op : DbOp) :
    Within q ((recvObjects env op).run ⟨s, ⟨fs, q, o⟩⟩) ↔ ObjectsFit fs := by
  have hR : ReadOrder (@Ahead σ) := ahead_readOrder
  have hrest : ∀ reqid eletype (gs : List Bytes),
      Within q ((recvElements env op reqid eletype).run ⟨s, ⟨gs, q, o⟩⟩) := fun reqid eletype gs =>
    within_recvElements env s gs q o op reqid eletype
  rw [show recvObjects env op = (recvPodObject env CInt >>= fun reqid =>
      recvPodObject env CInt >>= recvElements env op reqid : Rd σ Request) from rfl,
    within_recvPodObject_bind env s fs q o fun _ =>
      along_bind hR (along_recvPodObject hR env CInt) (along_recvElements hR env op _)]
  simp only [within_recvPodObject_bind env s _ q o (along_recvElements hR env op _), hrest]
  match fs with
  | [] => simp [ObjectsFit]
  | [f] => simp [ObjectsFit]
  | f :: g :: fs => simp [ObjectsFit]

/-- A command stays within its message exactly when the message has what it takes for granted. -/
theorem within_recvCmd (cmd : CInt) :
    Within q ((recvCmd env cmd).run ⟨s, ⟨fs, q, o⟩⟩) ↔ CommandFits cmd fs := by
  have hskip : Within q ((do skipRemainMFrame; return Request.skipped).run ⟨s, ⟨fs, q, o⟩⟩) := by
    rw [within_bind_pure, run_skipRemainMFrame]
    rfl
  unfold recvCmd CommandFits
  match ECommandType.ofInt? cmd with
  | some .TLogin | some .TLogout => exact within_login env s fs q o _
  | some .TQuery | some .TDelByCol => exact within_recvFiltered env s fs q o _
  | some .TInsert | some .TDelete | some .TUpdate => exact within_recvObjects env s fs q o _
  | some .TKeepAlive => exact iff_of_true rfl trivial
  | some .TDeploy | some .TExecute | some .TFinish | some .TNullCmd | none =>
    exact iff_of_true hskip trivial

end

/-! ## One message -/

section
variable (env : Env) (s : Service) (fs : List Bytes) (q : List Msg) (o : List (Bytes × Nat))

theorem within_rejectIdentity (r : Str) (cmd : CInt) :
    Within q ((rejectIdentity env r cmd).run ⟨s, ⟨fs, q, o⟩⟩) := by
  cases fs with
  | nil => rfl
  | cons f fs =>
    simp [rejectIdentity, recvRequestidIfMore, EStateM.run_bind, run_copyPod, Within]

theorem within_rejectLogin (err : EResponseErrType) (msg : String) (r : Str) (cmd : CInt) :
    Within q ((rejectLogin env err msg r cmd).run ⟨s, ⟨fs, q, o⟩⟩) := by
  cases fs with
  | nil => rfl
  | cons f fs =>
    by_cases hf : f.length = Pod.size CInt
    · simp [rejectLogin, recvReqidIfMore, EStateM.run_bind, run_recvPodObject, hf, Within]
    · simp [rejectLogin, recvReqidIfMore, EStateM.run_bind, run_recvPodObject_aborts, hf, Within]

theorem within_onRecvCmd (cmd : CInt) (c : DispatcherClient) :
    Within q ((onRecvCmd env cmd c).run ⟨s, ⟨fs, q, o⟩⟩) ↔ CommandFits cmd fs := by
  rw [onRecvCmd, EStateM.run_bind, run_modifyOwn]
  exact (within_bind_modifyOwn q _).trans (within_recvCmd env _ fs q o cmd)

theorem within_dispatch (r u : Str) (cmd : CInt) :
    Within q ((dispatch env r u cmd).run ⟨s, ⟨fs, q, o⟩⟩) ↔
      (verdict s r u cmd = .accepted → CommandFits cmd fs) := by
  rw [run_dispatch]
  cases verdict s r u cmd with
  | identifyErr => exact iff_of_true (within_rejectIdentity env s fs q o r cmd) (by simp)
  | noLogin => exact iff_of_true (within_rejectLogin env _ fs q o _ _ r cmd) (by simp)
  | multiLogin => exact iff_of_true (within_rejectLogin env _ fs q o _ _ r cmd) (by simp)
  | accepted =>
    obtain ⟨c, -, hrun⟩ := run_acceptCmd env r u cmd s ⟨fs, q, o⟩
    simp only [hrun, forall_const]
    exact within_onRecvCmd env _ fs q o cmd _

theorem within_bind_skipRemainMFrame {x : Rd Service Unit} (p : Proc Service) :
    Within q ((x >>= fun _ => skipRemainMFrame).run p) ↔ Within q (x.run p) := by
  rw [EStateM.run_bind]
  cases x.run p with
  | error e t => cases e <;> rfl
  | ok a t =>
    obtain ⟨s, fs, next, o⟩ := t
    simp only [run_skipRemainMFrame, Within]

/-- One message is handled within its frames exactly when it fits. -/
theorem within_onReadable (m : Msg) :
    Within q ((onReadable env).run ⟨s, ⟨[], m :: q, o⟩⟩) ↔ MessageFits env s m := by
  have hR : ReadOrder (@Ahead Service) := ahead_readOrder
  have hcmd := forward_copyPod_dispatch env
  obtain ⟨r, rest⟩ := m
  unfold MessageFits
  match rest with
  | [] =>
    rw [onReadable, EStateM.run_bind, run_recv_next]
    exact iff_of_false (not_within_recv s q o fun u => along_bind hR hR.recv fun f => hcmd r u f) id
  | [u] =>
    rw [onReadable, EStateM.run_bind, run_recv_next]
    exact iff_of_false (not_within_recv s q o fun f => hcmd r u f) id
  | u :: cmdFrame :: fs =>
    rw [run_onReadable_dispatch]
    exact (within_bind_skipRemainMFrame q _).trans (within_dispatch env s fs q _ r u _)

end

/-! ## Runs -/

/-- The iteration has handled a message, and its frames are the ones that were read; a failed
assertion ends the process, but not by reading on. -/
def OneMessage (x : Iteration) : Prop :=
  match x.1.readable, x.2.1.sock.next with
  | true, _ :: q => Within q x.2.2 ∧ ∀ p', x.2.2 = .ok () p' → p'.sock.cur = []
  | _, _ => True

/-- The message that the iteration handles fits the state it meets. -/
def Fitting (env : Env) (x : Iteration) : Prop :=
  match x.1.readable, x.2.1.sock.next with
  | true, m :: _ => MessageFits env (prelude env x.1 x.2.1.own) m
  | _, _ => True

theorem pollIter_cur (env : Env) (t : Turn) {p p' : Proc Service} {u : Unit} (h : p.sock.cur = [])
    (hr : (pollIter env t).run p = .ok u p') : p'.sock.cur = [] := by
  rw [pollIter, EStateM.run_bind, run_modifyOwn] at hr
  cases ht : t.readable with
  | false =>
    simp only [ht] at hr
    obtain ⟨-, rfl⟩ := EStateM.Result.ok.inj hr
    exact h
  | true =>
    simp only [ht, if_true] at hr
    exact onReadable_cur hr

/-- **An iteration handles exactly one message iff its message fits.** -/
theorem pollIter_oneMessage_iff (env : Env) (t : Turn) (p : Proc Service) (h : p.sock.cur = []) :
    OneMessage (t, p, (pollIter env t).run p) ↔ Fitting env (t, p, (pollIter env t).run p) := by
  obtain ⟨s, fs, next, o⟩ := p
  obtain rfl : fs = [] := h
  unfold OneMessage Fitting
  cases hr : t.readable with
  | false => rfl
  | true =>
    cases next with
    | nil => rfl
    | cons m q =>
      have hrun : (pollIter env t).run ⟨s, ⟨[], m :: q, o⟩⟩ =
          (onReadable env).run ⟨prelude env t s, ⟨[], m :: q, o⟩⟩ := by
        simp only [pollIter, EStateM.run_bind, run_modifyOwn, hr, if_true]
      simp only [hrun, within_onReadable]
      exact and_iff_left fun p' => onReadable_cur

/-- **A run keeps to message boundaries iff its messages fit**: from a boundary, every iteration that
handles a message consumes exactly its frames if and only if every message handled has the frames its
command takes for granted. -/
theorem iterations_oneMessage_iff (env : Env) (turns : List Turn) (s : Service) (queue : List Msg)
    (o : List (Bytes × Nat)) :
    (∀ x ∈ iterations env turns ⟨s, ⟨[], queue, o⟩⟩, OneMessage x) ↔
      ∀ x ∈ iterations env turns ⟨s, ⟨[], queue, o⟩⟩, Fitting env x := by
  suffices hrun : ∀ (turns : List Turn) (p : Proc Service), p.sock.cur = [] →
      ((∀ x ∈ iterations env turns p, OneMessage x) ↔ ∀ x ∈ iterations env turns p, Fitting env x) from
    hrun turns ⟨s, ⟨[], queue, o⟩⟩ rfl
  intro turns
  induction turns with
  | nil => intro p _; simp [iterations]
  | cons t ts ih =>
    intro p hp
    rw [iterations, List.forall_mem_cons, List.forall_mem_cons, pollIter_oneMessage_iff env t p hp]
    refine and_congr_right fun _ => ?_
    cases hr : (pollIter env t).run p with
    | error e p' => simp
    | ok u p' => exact ih p' (pollIter_cur env t hp hr)

/-- A message that ends with the identity takes its command from the router id of the next one. -/
theorem iterations_not_oneMessage :
    ¬ ∀ x ∈ iterations default [{ (default : Turn) with readable := true }]
      ⟨Service.init default, ⟨[], [⟨text "r1", [text "bob"]⟩,
        ⟨text "r2", [text "amy", bytes ECommandType.TLogin.toInt, bytes (7 : CInt)]⟩], []⟩⟩,
      OneMessage x := fun h => by
  have hw := (h _ List.mem_cons_self).1
  revert hw
  decide

end CppLinuxLearn.Deployer
