import CppLinuxLearn.Deployer.Identity

/-!
# The automaton at the end of a message

`recvHandle` carries four fields from frame to frame, and a message may end in any of its states. In each
state only the fields that the message itself has set are still read (`Agrees`), and the last frame
leads back to `StatInit`: so what the frames of a message are handed to is a function of these frames.
-/

namespace CppLinuxLearn.Deployer

open Lib Multipart

/-- A function that `recvHandle` calls, with its arguments. -/
inductive Handling
  | onReqRsp (reqRsp : ReqResponse)
  | onReqRspEle (reqRsp : ReqResponse) (nEleType : CInt) (data : Option Bytes) (bLast : Bool)
  | onMsgPush (cmd : CInt)
  | onMsgPushEle (cmd nEleType : CInt) (data : Option Bytes) (bLast : Bool)
deriving DecidableEq

/-- The callbacks it makes. -/
def Handling.calls (env : Env) (strIdentity : Str) : Handling → List Call
  | onReqRsp reqRsp => Deployer.onReqRsp reqRsp
  | onReqRspEle reqRsp nEleType data bLast => Deployer.onReqRspEle env reqRsp nEleType data bLast
  | onMsgPush cmd => Deployer.onMsgPush strIdentity cmd
  | onMsgPushEle _ _ _ _ => []

/-- `recvHandle`, up to the calls it makes. -/
def handle (m : DispatcherManager) (data : Bytes) (bLast : Bool) :
    Option (DispatcherManager × List Handling) :=
  match m.stateMachine with
  | .StatInit =>
    if data.length ≠ Pod.size CInt then none
    else some ({ m with
      msgPattern := ofBytes data
      stateMachine := if bLast then .StatInit else .StatGetPattern }, [])
  | .StatGetPattern =>
    if m.msgPattern = STCMsgPattern.TPassiveResponse.toInt then
      if data.length ≠ Pod.size ReqResponse then none
      else some ({ m with
        reqRsp := ofBytes data
        stateMachine := if bLast then .StatInit else .StatGetRsp },
        if bLast then [.onReqRsp (ofBytes data)] else [])
    else
      if data.length ≠ Pod.size CInt then none
      else some ({ m with
        recvCmd := ofBytes data
        stateMachine := if bLast then .StatInit else .StatGetCmd },
        if bLast then [.onMsgPush (ofBytes data)] else [])
  | .StatGetCmd =>
    if data.length ≠ Pod.size CInt then none
    else some ({ m with
      recvEleType := ofBytes data
      stateMachine := if bLast then .StatInit else .StatGetEleType },
      if bLast then [.onMsgPushEle m.recvCmd (ofBytes data) none bLast] else [])
  | .StatGetRsp =>
    if data.length ≠ Pod.size CInt then none
    else some ({ m with
      recvEleType := ofBytes data
      stateMachine := if bLast then .StatInit else .StatGetEleType },
      if bLast then [.onReqRspEle m.reqRsp (ofBytes data) none bLast] else [])
  | .StatGetEleType =>
    some ({ m with stateMachine := if bLast then .StatInit else .StatGetEleType },
      if m.msgPattern = STCMsgPattern.TPassiveResponse.toInt then
        [.onReqRspEle m.reqRsp m.recvEleType (some data) bLast]
      else [.onMsgPushEle m.recvCmd m.recvEleType (some data) bLast])

/-- What the frames of a message are handed to, one after the other. -/
def handleFrames (m : DispatcherManager) : List (Bytes × Bool) → Option (DispatcherManager × List Handling)
  | [] => some (m, [])
  | (data, more) :: fs => do
    let (m, hs) ← handle m data (!more)
    let (m, hs') ← handleFrames m fs
    return (m, hs ++ hs')

/-- In their state, two managers agree on what is still read of the frames before. -/
def Agrees (m m₀ : DispatcherManager) : Prop :=
  m₀.stateMachine = m.stateMachine ∧
    match m.stateMachine with
    | .StatInit => True
    | .StatGetPattern => m₀.msgPattern = m.msgPattern
    | .StatGetCmd => m₀.msgPattern = m.msgPattern ∧ m.msgPattern ≠ STCMsgPattern.TPassiveResponse.toInt ∧
      m₀.recvCmd = m.recvCmd
    | .StatGetRsp => m₀.msgPattern = m.msgPattern ∧ m.msgPattern = STCMsgPattern.TPassiveResponse.toInt ∧
      m₀.reqRsp = m.reqRsp
    | .StatGetEleType => m₀.msgPattern = m.msgPattern ∧ m₀.recvEleType = m.recvEleType ∧
      if m.msgPattern = STCMsgPattern.TPassiveResponse.toInt then m₀.reqRsp = m.reqRsp
      else m₀.recvCmd = m.recvCmd

section
variable {env : Env} {m m₀ m' : DispatcherManager} {data : Bytes} {bLast : Bool} {cs : List Call}

theorem agrees_init (hm : m.stateMachine = .StatInit) (hm₀ : m₀.stateMachine = .StatInit) : Agrees m m₀ := by
  refine ⟨hm₀.trans hm.symm, ?_⟩
  rw [hm]
  trivial

/-! ## A frame -/

theorem recvHandle_eq (env : Env) (m : DispatcherManager) (data : Bytes) (bLast : Bool) :
    recvHandle env m data bLast =
      (handle m data bLast).map fun p => (p.1, p.2.flatMap (Handling.calls env m.strIdentity)) := by
  have hself : ∀ state, m.stateMachine = state → { m with stateMachine := state } = m := by
    rintro state rfl
    rfl
  unfold recvHandle handle
  cases hstate : m.stateMachine with
  | StatInit =>
    simp only
    split
    · rfl
    · cases bLast
      · rfl
      · simp
  | StatGetPattern =>
    simp only
    split <;> split <;> cases bLast <;> first | rfl | simp [Handling.calls]
  | StatGetCmd =>
    simp only
    split <;> cases bLast <;> rfl
  | StatGetRsp =>
    simp only
    split <;> cases bLast <;> first | rfl | simp [Handling.calls]
  | StatGetEleType =>
    cases bLast
    · simp only [Bool.false_eq_true, if_false, hself _ hstate, Option.map_some]
      split <;> simp only [List.flatMap_singleton, Handling.calls]
    · simp only [if_true, Option.map_some]
      split <;> simp only [List.flatMap_singleton, Handling.calls]

theorem stateMachine_of_last {p : DispatcherManager × List Handling} (h : handle m data true = some p) :
    p.1.stateMachine = .StatInit := by
  unfold handle at h
  cases hstate : m.stateMachine <;> rw [hstate] at h
  case StatGetPattern =>
    simp only at h
    split at h
    · obtain ⟨-, h⟩ := Option.ite_none_left_eq_some.1 h
      cases h
      rfl
    · obtain ⟨-, h⟩ := Option.ite_none_left_eq_some.1 h
      cases h
      rfl
  case StatGetEleType =>
    cases h
    rfl
  all_goals
    obtain ⟨-, h⟩ := Option.ite_none_left_eq_some.1 h
    cases h
    rfl

theorem Agrees.handle {hs : List Handling} (h : Agrees m m₀)
    (hm : handle m data bLast = some (m', hs)) :
    ∃ m₀', handle m₀ data bLast = some (m₀', hs) ∧ Agrees m' m₀' := by
  obtain ⟨hstate₀, h⟩ := h
  unfold Deployer.handle at hm ⊢
  rw [hstate₀]
  cases hstate : m.stateMachine <;> rw [hstate] at hm h <;> simp only at hm h ⊢
  case StatInit =>
    obtain ⟨hlen, hm⟩ := Option.ite_none_left_eq_some.1 hm
    cases hm
    refine ⟨_, if_neg hlen, rfl, ?_⟩
    cases bLast
    · rfl
    · trivial
  case StatGetPattern =>
    rw [h]
    split at hm <;> rename_i hp <;> obtain ⟨hlen, hm⟩ := Option.ite_none_left_eq_some.1 hm <;> cases hm
    · rw [if_pos hp]
      refine ⟨_, if_neg hlen, rfl, ?_⟩
      cases bLast
      · exact ⟨rfl, hp, rfl⟩
      · trivial
    · rw [if_neg hp]
      refine ⟨_, if_neg hlen, rfl, ?_⟩
      cases bLast
      · exact ⟨rfl, hp, rfl⟩
      · trivial
  case StatGetCmd =>
    obtain ⟨hpattern, hp, hcmd⟩ := h
    obtain ⟨hlen, hm⟩ := Option.ite_none_left_eq_some.1 hm
    cases hm
    rw [hcmd]
    refine ⟨_, if_neg hlen, rfl, ?_⟩
    cases bLast
    · exact ⟨hpattern, rfl, (if_neg hp).mpr rfl⟩
    · trivial
  case StatGetRsp =>
    obtain ⟨hpattern, hp, hrsp⟩ := h
    obtain ⟨hlen, hm⟩ := Option.ite_none_left_eq_some.1 hm
    cases hm
    rw [hrsp]
    refine ⟨_, if_neg hlen, rfl, ?_⟩
    cases bLast
    · exact ⟨hpattern, rfl, (if_pos hp).mpr rfl⟩
    · trivial
  case StatGetEleType =>
    obtain ⟨hpattern, hele, hrest⟩ := h
    cases hm
    rw [hpattern, hele]
    by_cases hp : m.msgPattern = STCMsgPattern.TPassiveResponse.toInt
    · rw [if_pos hp] at hrest
      rw [if_pos hp, if_pos hp, hrest]
      refine ⟨_, rfl, rfl, ?_⟩
      cases bLast
      · exact ⟨rfl, rfl, (if_pos hp).mpr rfl⟩
      · trivial
    · rw [if_neg hp] at hrest
      rw [if_neg hp, if_neg hp, hrest]
      refine ⟨_, rfl, rfl, ?_⟩
      cases bLast
      · exact ⟨rfl, rfl, (if_neg hp).mpr rfl⟩
      · trivial

/-! ## A message -/

theorem recvFrames_eq (env : Env) (m : DispatcherManager) (fs : List (Bytes × Bool)) :
    recvFrames env m fs =
      (handleFrames m fs).map fun p => (p.1, p.2.flatMap (Handling.calls env m.strIdentity)) := by
  induction fs generalizing m with
  | nil => rfl
  | cons f fs ih =>
    obtain ⟨data, more⟩ := f
    rw [recvFrames, handleFrames]
    cases hone : handle m data (!more) with
    | none =>
      have hrecv : recvHandle env m data (!more) = none := by
        rw [recvHandle_eq, hone]
        rfl
      rw [hrecv]
      rfl
    | some p =>
      obtain ⟨m₁, hs⟩ := p
      have hrecv : recvHandle env m data (!more) =
          some (m₁, hs.flatMap (Handling.calls env m.strIdentity)) := by
        rw [recvHandle_eq, hone]
        rfl
      have hid := (keeps_recvHandle hrecv).1
      rw [hrecv]
      show (recvFrames env m₁ fs).bind _ = Option.map _ ((handleFrames m₁ fs).bind _)
      rw [ih, hid]
      cases handleFrames m₁ fs with
      | none => rfl
      | some q => exact congrArg (fun cs => some (q.1, cs)) List.flatMap_append.symm

/-- A message whose frames pass the assertions ends in `StatInit`, and managers that agree hand its frames
to the same. -/
theorem handleFrames_flagged {fs : List Bytes} (hne : fs ≠ []) {hs : List Handling} (h : Agrees m m₀)
    (hm : handleFrames m (flagged fs) = some (m', hs)) :
    m'.stateMachine = .StatInit ∧ ∃ m₀', handleFrames m₀ (flagged fs) = some (m₀', hs) := by
  induction fs generalizing m m₀ hs with
  | nil => exact absurd rfl hne
  | cons f fs ih =>
    cases fs with
    | nil =>
      obtain ⟨p, hp, hm⟩ := Option.bind_eq_some_iff.1 hm
      obtain ⟨rfl, rfl⟩ := Prod.mk.inj (Option.some.inj hm)
      obtain ⟨m₀', hp₀, -⟩ := h.handle hp
      exact ⟨stateMachine_of_last hp, m₀', Option.bind_eq_some_iff.2 ⟨_, hp₀, rfl⟩⟩
    | cons g fs =>
      obtain ⟨p, hp, hm⟩ := Option.bind_eq_some_iff.1 hm
      obtain ⟨q, hq, hm⟩ := Option.bind_eq_some_iff.1 hm
      obtain ⟨rfl, rfl⟩ := Prod.mk.inj (Option.some.inj hm)
      obtain ⟨m₁, hp₀, hagrees⟩ := h.handle hp
      obtain ⟨hinit, m₀', hq₀⟩ := ih (List.cons_ne_nil g fs) hagrees hq
      refine ⟨hinit, m₀', Option.bind_eq_some_iff.2 ⟨_, hp₀, Option.bind_eq_some_iff.2 ⟨_, hq₀, rfl⟩⟩⟩

/-- What the frames of a message are handed to, by a manager that begins with it. -/
def messageHandlings (m : DispatcherManager) (fs : List Bytes) : Option (List Handling) :=
  (handleFrames m (flagged fs)).map Prod.snd

theorem strIdentity_recvFrames {fs : List (Bytes × Bool)} (h : recvFrames env m fs = some (m', cs)) :
    m'.strIdentity = m.strIdentity := by
  induction fs generalizing m cs with
  | nil =>
    obtain ⟨rfl, -⟩ := Prod.mk.inj (Option.some.inj h)
    rfl
  | cons f fs ih =>
    obtain ⟨p, hp, h⟩ := Option.bind_eq_some_iff.1 h
    obtain ⟨q, hq, h⟩ := Option.bind_eq_some_iff.1 h
    obtain ⟨rfl, -⟩ := Prod.mk.inj (Option.some.inj h)
    exact (ih hq).trans (keeps_recvHandle hp).1

/-- **Resynchronisation.** Over any sequence of messages whose frames pass the assertions, the automaton is
in `StatInit` after each of them, and what the frames of a message are handed to, with all arguments, is
what any manager hands them to that begins with this message: the callbacks are those of the messages
one after the other, whatever `msgPattern`, `reqRsp`, `recvCmd` and `recvEleType` hold. -/
theorem recvMessages_resync (hm : m.stateMachine = .StatInit) {ms : List (List Bytes)}
    (hne : ∀ fs ∈ ms, fs ≠ []) (h : recvMessages env m ms = some (m', cs)) :
    (∀ k, ∃ m'' cs', recvMessages env m (ms.take k) = some (m'', cs') ∧ m''.stateMachine = .StatInit) ∧
      ∃ hss : List (List Handling),
        cs = hss.flatten.flatMap (Handling.calls env m.strIdentity) ∧
        ∀ m₀ : DispatcherManager, m₀.stateMachine = .StatInit → ms.mapM (messageHandlings m₀) = some hss := by
  induction ms generalizing m cs with
  | nil =>
    obtain ⟨rfl, rfl⟩ := Prod.mk.inj (Option.some.inj h)
    exact ⟨fun k => ⟨m, [], by rw [List.take_nil]; rfl, hm⟩, [], rfl, fun _ _ => rfl⟩
  | cons fs ms ih =>
    obtain ⟨p, hp, h⟩ := Option.bind_eq_some_iff.1 h
    obtain ⟨q, hq, h⟩ := Option.bind_eq_some_iff.1 h
    obtain ⟨rfl, rfl⟩ := Prod.mk.inj (Option.some.inj h)
    have hid := strIdentity_recvFrames hp
    have hframes := hp
    rw [recvFrames_eq] at hframes
    obtain ⟨⟨m₁, hs⟩, hone, rfl⟩ := Option.map_eq_some_iff.1 hframes
    have hfs := hne fs List.mem_cons_self
    have hagain : ∀ m₀ : DispatcherManager, m₀.stateMachine = .StatInit →
        m₁.stateMachine = .StatInit ∧ ∃ m₀', handleFrames m₀ (flagged fs) = some (m₀', hs) :=
      fun m₀ hm₀ => handleFrames_flagged hfs (agrees_init hm hm₀) hone
    have hinit := (hagain m hm).1
    obtain ⟨hall, hss, hcs, hothers⟩ := ih hinit (fun gs hgs => hne gs (List.mem_cons_of_mem fs hgs)) hq
    refine ⟨fun k => ?_, hs :: hss, ?_, fun m₀ hm₀ => ?_⟩
    · cases k with
      | zero => exact ⟨m, [], rfl, hm⟩
      | succ k =>
        obtain ⟨m'', cs', hrest, hend⟩ := hall k
        exact ⟨m'', _, Option.bind_eq_some_iff.2 ⟨_, hp, Option.bind_eq_some_iff.2 ⟨_, hrest, rfl⟩⟩, hend⟩
    · rw [List.flatten_cons, List.flatMap_append]
      exact congrArg (_ ++ ·) (hid ▸ hcs)
    · obtain ⟨m₀', hfirst⟩ := (hagain m₀ hm₀).2
      have hmessage : messageHandlings m₀ fs = some hs := Option.map_eq_some_iff.2 ⟨_, hfirst, rfl⟩
      rw [List.mapM_cons, hmessage, hothers m₀ hm₀]
      rfl

end

/-- A message of one frame, a response that ends behind its element type, and a push. -/
def cutMessages : List (List Bytes) :=
  [[bytes (7 : CInt)],
    [bytes STCMsgPattern.TPassiveResponse.toInt,
      bytes (⟨0, Vector.replicate 64 0, 1, ECommandType.TQuery.toInt⟩ : ReqResponse),
      bytes EElementType.TServerConfig.toInt],
    [bytes STCMsgPattern.TActivePush.toInt, bytes ECommandType.TKeepAlive.toInt]]

theorem cutMessages_isSome :
    (recvMessages default ManagerRun.someManager cutMessages).isSome = true := by
  decide +kernel

theorem recvMessages_resync_cutMessages :
    (∀ k, ∃ m'' cs', recvMessages default ManagerRun.someManager (cutMessages.take k) = some (m'', cs') ∧
        m''.stateMachine = .StatInit) ∧
      ∃ hss : List (List Handling),
        ((recvMessages default ManagerRun.someManager cutMessages).get cutMessages_isSome).2 =
          hss.flatten.flatMap (Handling.calls default []) ∧
        ∀ m₀ : DispatcherManager, m₀.stateMachine = .StatInit →
          cutMessages.mapM (messageHandlings m₀) = some hss :=
  recvMessages_resync (m := ManagerRun.someManager) rfl (by decide +kernel)
    (Option.some_get cutMessages_isSome).symm

end CppLinuxLearn.Deployer
