import CppLinuxLearn.Solcom.Post

/-!
# The ring between the posting threads and the loop

User threads and the loop thread itself (with its heartbeats) post into one ring, and the loop passes
its elements to `uv_write`. The steps are the calls of `allocate`, the encoding into the slot and
`tailForward` of each post, and the callbacks of the loop; there is one connection and no write
error. The ring has one producer: a post that starts while another is under way gets the same slot.
As long as posts do not overlap, and the head counter does not wrap, what is written is at any time
what was posted first, in order.
-/

namespace CppLinuxLearn.Solcom

open Lib Steps

inductive Thread
  | user (n : Nat)
  | loop
deriving DecidableEq, Repr

/-- A call of `postMsg` that has a slot. -/
structure Call where
  msg : ISerializable
  requestID : CInt
  reqRtn : EPkgReqRtnType
  slot : Nat
  encoded : Bool

def Call.package (c : Call) : Bytes := packageOf c.msg c.requestID c.reqRtn

structure Client where
  sendCache : CachedBuffer CByteArray
  bReqWritereqBusy : Bool
  /-- the slot of the buffer that was passed to `uv_write` last -/
  req_uvbuf : Option Nat
  /-- the call each thread is in -/
  call : Thread → Option Call
  /-- the packages of the calls that returned `ERR_SUCCESS` -/
  posted : List Bytes
  /-- what was passed to `uv_write` -/
  written : List Bytes

inductive QueueAction
  /-- `PostRequest` of a user thread, up to `allocate` -/
  | PostRequest (n : Nat) (msg : ISerializable) (requestID : CInt)
  /-- `PushMessage` of a user thread, up to `allocate` -/
  | PushMessage (n : Nat) (msg : ISerializable)
  /-- `sendHeartbeat`, up to `allocate` -/
  | sendHeartbeat
  | encode (t : Thread) (junk : Nat → UInt8)
  | tailForward (t : Thread)
  /-- the write of `idle_cb` -/
  | idle_cb
  /-- with a status that is no error -/
  | req_write_cb

/-- A `HeartbeatCommand`; `dataSize()` is the size of the object. -/
def heartbeat : Message where
  appends := [[ERequestType.TypeReq_Heartbeat.toByte]]
  dataSize := 16
  body_ne_nil := by decide
  length_le := by decide
  dataSize_lt := by decide

namespace Client

def new (junk : Nat → Nat → UInt8) : Client :=
  ⟨.new 128 fun i => .new (junk i) 1424, false, none, fun _ => none, [], []⟩

/-- `postMsg` up to `allocate`; without a slot it returns `ERR_NO_BUFFER`. -/
def allocate (t : Thread) (msg : ISerializable) (requestID : CInt) (reqRtn : EPkgReqRtnType) (s : Client) :
    Option Client :=
  match s.call t, s.sendCache.allocate with
  | some _, _ => none
  | none, none => some s
  | none, some i => some { s with
      call := Function.update s.call t (some ⟨msg, requestID, reqRtn, i, false⟩) }

def step (s : Client) : QueueAction → Option Client
  | .PostRequest n msg requestID => s.allocate (.user n) msg requestID .Type_Req
  | .PushMessage n msg => s.allocate (.user n) msg 0 .Type_Rtn
  | .sendHeartbeat => s.allocate .loop heartbeat.toISerializable 0 .Type_Req
  | .encode t junk =>
    match s.call t with
    | none => none
    | some c =>
      if c.encoded then none
      else do
        let byteArr ← s.sendCache.elements[c.slot]?
        let byteArr ← Solcom.encode junk c.msg c.requestID c.reqRtn byteArr
        some { s with
          sendCache := s.sendCache.set c.slot byteArr
          call := Function.update s.call t (some { c with encoded := true }) }
  | .tailForward t =>
    match s.call t with
    | none => none
    | some c =>
      if c.encoded then some { s with
        sendCache := s.sendCache.tailForward.2
        call := Function.update s.call t none
        posted := s.posted ++ [c.package] }
      else none
  | .idle_cb =>
    if (s.call .loop).isSome then none
    else if !s.sendCache.isEmpty && !s.bReqWritereqBusy then
      match s.sendCache.current with
      | none => some s
      | some i => do
        let byteArr ← s.sendCache.elements[i]?
        some { s with
          bReqWritereqBusy := true
          req_uvbuf := some i
          written := s.written ++ [byteArr.filled] }
    else some s
  | .req_write_cb =>
    if (s.call .loop).isSome || !s.bReqWritereqBusy then none
    else some { s with sendCache := s.sendCache.headForward.2, bReqWritereqBusy := false }

/-- Nothing is written that was not posted, and nothing twice; when no call is under way and the ring
is empty, all that was posted has been written. -/
structure Delivered (s : Client) : Prop where
  subperm : s.written.Subperm s.posted
  perm : (∀ t, s.call t = none) → s.sendCache.isEmpty = true → s.written.Perm s.posted

/-- A post that gets a slot starts while no other is under way, and the head counter does not wrap. -/
def Alone (s : Client) : QueueAction → Prop
  | .PostRequest _ _ _ | .PushMessage _ _ | .sendHeartbeat =>
    s.sendCache.allocate = none ∨ ∀ t, s.call t = none
  | .req_write_cb => s.sendCache.nHead ≠ BitVec.allOnes 64
  | _ => True

/-- A post that gets a slot starts while no other is under way. -/
def Apart (s : Client) : QueueAction → Prop
  | .PostRequest _ _ _ | .PushMessage _ _ | .sendHeartbeat =>
    s.sendCache.allocate = none ∨ ∀ t, s.call t = none
  | _ => True

/-! ## The invariant -/

/-- The live slots hold what was posted last, and `p` packages have been written and taken off. -/
structure Queued (s : Client) (p : Nat) : Prop where
  ring : s.sendCache.Between p s.posted.length
  slots : ∀ b ∈ s.sendCache.elements, IsSlot b
  live : ∀ j, p ≤ j → j < s.posted.length →
    (s.sendCache.elements[j % s.sendCache.capacity]?).map CByteArray.filled = s.posted[j]?
  written : s.written = s.posted.take (if s.bReqWritereqBusy then p + 1 else p)
  busy : s.bReqWritereqBusy = true → p < s.posted.length
  uvbuf : s.bReqWritereqBusy = true → s.req_uvbuf = some (p % s.sendCache.capacity)
  slot : ∀ t c, s.call t = some c → c.slot = s.posted.length % s.sendCache.capacity ∧
    s.posted.length ≠ p + s.sendCache.capacity
  encoded : ∀ t c, s.call t = some c → c.encoded = true →
    (s.sendCache.elements[c.slot]?).map CByteArray.filled = some c.package
  alone : ∀ t u, s.call t ≠ none → s.call u ≠ none → t = u

theorem queued_new (junk : Nat → Nat → UInt8) : (new junk).Queued 0 where
  ring := CachedBuffer.between_new _
  slots b hb := by
    obtain ⟨i, -, rfl⟩ := List.mem_map.1 hb
    exact isSlot_new (junk i)
  live j _ hj := absurd hj (Nat.not_lt_zero j)
  written := rfl
  busy h := by cases h
  uvbuf h := by cases h
  slot t c h := by cases h
  encoded t c h := by cases h
  alone t u h := absurd rfl h

theorem Queued.delivered {s : Client} {p : Nat} (h : s.Queued p) : s.Delivered where
  subperm := by
    rw [h.written]
    exact (List.take_sublist _ _).subperm
  perm _ hempty := by
    have hp := h.ring.isEmpty_iff.1 hempty
    have hidle : s.bReqWritereqBusy = false := by
      by_contra hb
      have := h.busy (by simpa using hb)
      omega
    rw [h.written, hidle, if_neg (by decide), hp, List.take_length]

/-! ## The steps -/

theorem update_eq_some {call : Thread → Option Call} {th u : Thread} {c d : Call}
    (hother : ∀ v, v ≠ th → call v = none) (hu : Function.update call th (some c) u = some d) :
    u = th ∧ d = c := by
  by_cases hut : u = th
  · subst hut
    rw [Function.update_self, Option.some.injEq] at hu
    exact ⟨rfl, hu.symm⟩
  · rw [Function.update_of_ne hut, hother u hut] at hu
    cases hu

theorem update_alone {call : Thread → Option Call} {th : Thread} {c : Call}
    (hother : ∀ v, v ≠ th → call v = none) (u v : Thread)
    (hu : Function.update call th (some c) u ≠ none) (hv : Function.update call th (some c) v ≠ none) :
    u = v := by
  obtain ⟨d, hd⟩ := Option.ne_none_iff_exists'.1 hu
  obtain ⟨e, he⟩ := Option.ne_none_iff_exists'.1 hv
  rw [(update_eq_some hother hd).1, (update_eq_some hother he).1]

section
variable {s t : Client} {p : Nat} (h : s.Queued p)
include h

theorem Queued.allocate {th : Thread} {msg : ISerializable} {requestID : CInt} {reqRtn : EPkgReqRtnType}
    (halone : s.sendCache.allocate = none ∨ ∀ u, s.call u = none)
    (hs : s.allocate th msg requestID reqRtn = some t) : t.Queued p := by
  rw [Client.allocate] at hs
  cases hcall : s.call th with
  | some c => simp [hcall] at hs
  | none =>
    cases hal : s.sendCache.allocate with
    | none =>
      simp only [hcall, hal, Option.some.injEq] at hs
      exact hs ▸ h
    | some i =>
      have hnone : ∀ u, s.call u = none := halone.resolve_left (by simp [hal])
      simp only [hcall, hal, Option.some.injEq] at hs
      subst hs
      have hroom : s.posted.length ≠ p + s.sendCache.capacity := by
        intro hfull
        rw [h.ring.allocate_eq, if_pos hfull] at hal
        cases hal
      rw [h.ring.allocate_eq, if_neg hroom, Option.some.injEq] at hal
      have hother : ∀ u, u ≠ th → s.call u = none := fun u _ => hnone u
      refine { h with slot := ?_, encoded := ?_, alone := update_alone hother }
      · intro u c hu
        rw [(update_eq_some hother hu).2]
        exact ⟨hal.symm, hroom⟩
      · intro u c hu henc
        rw [(update_eq_some hother hu).2] at henc
        cases henc

theorem Queued.encode {th : Thread} {junk : Nat → UInt8} (hs : s.step (.encode th junk) = some t) :
    t.Queued p := by
  rw [Client.step] at hs
  cases hcall : s.call th with
  | none => simp [hcall] at hs
  | some c =>
    obtain ⟨hslot, hroom⟩ := h.slot th c hcall
    have hle := h.ring.le
    have hmax := h.ring.room
    have hlt : c.slot < s.sendCache.elements.length := by
      rw [hslot]
      exact h.ring.toSized.lt_length _
    have hget := List.getElem?_eq_getElem hlt
    have hb := h.slots _ (List.getElem_mem hlt)
    generalize s.sendCache.elements[c.slot] = b at hget hb
    cases hdone : c.encoded with
    | true => simp [hcall, hdone] at hs
    | false =>
      simp only [hcall, hdone, hget, Bool.false_eq_true, if_false, Option.bind_eq_bind, Option.bind_some] at hs
      obtain ⟨b', henc, hs⟩ := Option.bind_eq_some_iff.1 hs
      obtain ⟨hb', hfilled⟩ := encode_some hb henc
      obtain rfl := Option.some.inj hs
      have hother : ∀ u, u ≠ th → s.call u = none := by
        intro u hu
        by_contra hne
        exact hu (h.alone u th hne (by simp [hcall]))
      refine ⟨h.ring.set _ _, ?_, ?_, h.written, h.busy, h.uvbuf, ?_, ?_, update_alone hother⟩
      · intro x hx
        rcases List.mem_or_eq_of_mem_set hx with hx | rfl
        · exact h.slots x hx
        · exact hb'
      · intro j hj hj'
        have hj'' : j < s.posted.length := hj'
        have hne : c.slot ≠ j % s.sendCache.capacity := by
          rw [hslot]
          exact (Ring.mod_ne_mod hj'' (by omega)).symm
        show ((s.sendCache.elements.set c.slot b')[j % s.sendCache.capacity]?).map _ = _
        rw [List.getElem?_set_ne hne]
        exact h.live j hj hj'
      · intro u d hu
        rw [(update_eq_some hother hu).2]
        exact ⟨hslot, hroom⟩
      · intro u d hu _
        rw [(update_eq_some hother hu).2]
        show ((s.sendCache.elements.set c.slot b')[c.slot]?).map _ = _
        rw [List.getElem?_set_self hlt, Option.map_some, hfilled]
        rfl

theorem Queued.call_tailForward {th : Thread} (hs : s.step (.tailForward th) = some t) (u : Thread) :
    t.call u = none := by
  rw [Client.step] at hs
  cases hcall : s.call th with
  | none => simp [hcall] at hs
  | some c =>
    simp only [hcall] at hs
    obtain ⟨-, hs⟩ := Option.ite_none_right_eq_some.1 hs
    obtain rfl := Option.some.inj hs
    change Function.update s.call th none u = none
    by_cases hut : u = th
    · rw [hut, Function.update_self]
    · rw [Function.update_of_ne hut]
      by_contra hne
      exact hut (h.alone u th hne (by simp [hcall]))

theorem Queued.tailForward {th : Thread} (hs : s.step (.tailForward th) = some t) : t.Queued p := by
  have hnone := h.call_tailForward hs
  rw [Client.step] at hs
  cases hcall : s.call th with
  | none => simp [hcall] at hs
  | some c =>
    cases hdone : c.encoded with
    | false => simp [hcall, hdone] at hs
    | true =>
      simp only [hcall, hdone, if_true, Option.some.injEq] at hs
      subst hs
      obtain ⟨hslot, hroom⟩ := h.slot th c hcall
      obtain ⟨hring, hcap⟩ := h.ring.tailForward hroom
      have helements := CachedBuffer.elements_tailForward s.sendCache
      have hle := h.ring.le
      have hlen : (s.posted ++ [c.package]).length = s.posted.length + 1 := by simp
      refine ⟨?_, ?_, ?_, ?_, ?_, ?_, ?_, ?_, ?_⟩
      · show s.sendCache.tailForward.2.Between p (s.posted ++ [c.package]).length
        rw [hlen]
        exact hring
      · intro b hb
        exact h.slots b (helements ▸ hb)
      · intro j hj hj'
        show (s.sendCache.tailForward.2.elements[j % s.sendCache.tailForward.2.capacity]?).map _ =
          (s.posted ++ [c.package])[j]?
        rw [helements, hcap]
        have hj'' : j < s.posted.length + 1 := hlen ▸ hj'
        rcases Nat.lt_succ_iff_lt_or_eq.1 hj'' with hlt | heq
        · rw [List.getElem?_append_left hlt]
          exact h.live j hj hlt
        · rw [heq, List.getElem?_concat_length, ← hslot]
          exact h.encoded th c hcall hdone
      · show s.written = (s.posted ++ [c.package]).take _
        rw [h.written, List.take_append_of_le_length]
        split
        · exact h.busy ‹_›
        · exact hle
      · intro hb
        have := h.busy hb
        show p < (s.posted ++ [c.package]).length
        omega
      · intro hb
        show s.req_uvbuf = some (p % s.sendCache.tailForward.2.capacity)
        rw [hcap]
        exact h.uvbuf hb
      · intro u d hu
        cases (hnone u).symm.trans hu
      · intro u d hu
        cases (hnone u).symm.trans hu
      · intro u v hu
        exact absurd (hnone u) hu

theorem Queued.idle_cb (hs : s.step .idle_cb = some t) : t.Queued p := by
  rw [Client.step] at hs
  by_cases hloop : (s.call .loop).isSome = true
  · rw [if_pos hloop] at hs
    cases hs
  rw [if_neg hloop] at hs
  by_cases hwrite : (!s.sendCache.isEmpty && !s.bReqWritereqBusy) = true
  · rw [if_pos hwrite] at hs
    obtain ⟨hempty, hidle⟩ : s.sendCache.isEmpty = false ∧ s.bReqWritereqBusy = false := by
      simpa using hwrite
    have hne : p ≠ s.posted.length := fun he => by
      rw [h.ring.isEmpty_iff.2 he] at hempty
      cases hempty
    have hlt : p < s.posted.length := by
      have := h.ring.le
      omega
    have hcur := h.ring.current_eq
    rw [if_neg hne] at hcur
    have hlive := h.live p le_rfl hlt
    have hget := List.getElem?_eq_getElem (h.ring.toSized.lt_length p)
    rw [hget, Option.map_some, List.getElem?_eq_getElem hlt, Option.some.injEq] at hlive
    simp only [hcur, hget, Option.bind_eq_bind, Option.bind_some, Option.some.injEq, hlive] at hs
    subst hs
    refine { h with written := ?_, busy := fun _ => hlt, uvbuf := fun _ => rfl }
    show s.written ++ [s.posted[p]] = s.posted.take (p + 1)
    rw [h.written, hidle, if_neg (by decide), List.take_append_getElem]
  · rw [if_neg hwrite, Option.some.injEq] at hs
    exact hs ▸ h

theorem Queued.req_write_cb (hwrap : s.sendCache.nHead ≠ BitVec.allOnes 64)
    (hs : s.step .req_write_cb = some t) : t.Queued (p + 1) := by
  rw [Client.step] at hs
  by_cases hno : ((s.call .loop).isSome || !s.bReqWritereqBusy) = true
  · rw [if_pos hno] at hs
    cases hs
  rw [if_neg hno, Option.some.injEq] at hs
  subst hs
  obtain ⟨-, hbusy⟩ : s.call .loop = none ∧ s.bReqWritereqBusy = true := by
    simpa using hno
  have hlt := h.busy hbusy
  have hmax := h.ring.room
  obtain ⟨hring, hcap⟩ := h.ring.headForward (by omega) hwrap
  have helements := CachedBuffer.elements_headForward s.sendCache
  refine ⟨hring, ?_, ?_, ?_, ?_, ?_, ?_, ?_, h.alone⟩
  · intro b hb
    exact h.slots b (helements ▸ hb)
  · intro j hj hj'
    show (s.sendCache.headForward.2.elements[j % s.sendCache.headForward.2.capacity]?).map _ = _
    rw [helements, hcap]
    exact h.live j (by omega) hj'
  · have hwritten := h.written
    rw [hbusy, if_pos rfl] at hwritten
    exact hwritten
  · intro hb
    cases hb
  · intro hb
    cases hb
  · intro u c hu
    obtain ⟨hslot, hroom⟩ := h.slot u c hu
    show c.slot = s.posted.length % s.sendCache.headForward.2.capacity ∧
      s.posted.length ≠ p + 1 + s.sendCache.headForward.2.capacity
    rw [hcap]
    exact ⟨hslot, by omega⟩
  · intro u c hu henc
    show (s.sendCache.headForward.2.elements[c.slot]?).map _ = _
    rw [helements]
    exact h.encoded u c hu henc

/-- Every step that meets the condition keeps the queue. -/
theorem Queued.step {a : QueueAction} (ha : s.Alone a) (hs : s.step a = some t) : ∃ q, t.Queued q := by
  cases a with
  | PostRequest n msg requestID => exact ⟨p, h.allocate ha hs⟩
  | PushMessage n msg => exact ⟨p, h.allocate ha hs⟩
  | sendHeartbeat => exact ⟨p, h.allocate ha hs⟩
  | encode th junk => exact ⟨p, h.encode hs⟩
  | tailForward th => exact ⟨p, h.tailForward hs⟩
  | idle_cb => exact ⟨p, h.idle_cb hs⟩
  | req_write_cb => exact ⟨p + 1, h.req_write_cb ha hs⟩

end

/-! ## Runs -/

theorem posted_allocate {s t : Client} {th : Thread} {msg : ISerializable} {requestID : CInt}
    {reqRtn : EPkgReqRtnType} (h : s.allocate th msg requestID reqRtn = some t) : t.posted = s.posted := by
  rw [allocate] at h
  split at h
  · cases h
  · cases h
    rfl
  · cases h
    rfl

theorem posted_step {s t : Client} {a : QueueAction} (h : s.step a = some t) : s.posted <+: t.posted := by
  cases a with
  | PostRequest | PushMessage | sendHeartbeat => exact (posted_allocate h).symm ▸ List.prefix_rfl
  | encode th junk =>
    simp only [step] at h
    split at h
    · cases h
    · obtain ⟨-, h⟩ := Option.ite_none_left_eq_some.1 h
      obtain ⟨b, -, h⟩ := Option.bind_eq_some_iff.1 h
      obtain ⟨b', -, h⟩ := Option.bind_eq_some_iff.1 h
      obtain rfl := Option.some.inj h
      exact List.prefix_rfl
  | tailForward th =>
    simp only [step] at h
    split at h
    · cases h
    · obtain ⟨-, h⟩ := Option.ite_none_right_eq_some.1 h
      obtain rfl := Option.some.inj h
      exact List.prefix_append _ _
  | idle_cb =>
    obtain ⟨-, h⟩ := Option.ite_none_left_eq_some.1 h
    split at h
    · split at h
      · cases h
        exact List.prefix_rfl
      · obtain ⟨b, -, h⟩ := Option.bind_eq_some_iff.1 h
        obtain rfl := Option.some.inj h
        exact List.prefix_rfl
    · cases h
      exact List.prefix_rfl
  | req_write_cb =>
    obtain ⟨-, h⟩ := Option.ite_none_left_eq_some.1 h
    obtain rfl := Option.some.inj h
    exact List.prefix_rfl

theorem Queued.nHead_ne {s : Client} {p : Nat} (h : s.Queued p) (hbusy : s.bReqWritereqBusy = true)
    (hlt : s.posted.length < 2 ^ 64) : s.sendCache.nHead ≠ BitVec.allOnes 64 := by
  have hp := h.busy hbusy
  intro heq
  have hnat := congrArg BitVec.toNat (h.ring.head.symm.trans heq)
  rw [BitVec.toNat_ofNat, BitVec.toNat_allOnes, Nat.mod_eq_of_lt (by omega)] at hnat
  omega

/-- The head counter does not wrap where posts do not overlap and are fewer than `2 ^ 64`. -/
theorem meets_alone {as : List QueueAction} {s t : Client} {p : Nat} (hs : s.Queued p)
    (hm : Meets step Apart s as) (h : run step s as = some t) (hlt : t.posted.length < 2 ^ 64) :
    Meets step Alone s as := by
  induction as generalizing s p with
  | nil => trivial
  | cons a as ih =>
    obtain ⟨u, hu, hrest⟩ := run_cons h
    have hgrows : s.posted <+: t.posted :=
      (posted_step hu).trans <| run_invariant (I := fun v => u.posted <+: v.posted)
        (fun v a w hv hw => hv.trans (posted_step hw)) List.prefix_rfl hrest
    have halone : s.Alone a := by
      cases a with
      | req_write_cb =>
        obtain ⟨hbusy, -⟩ := Option.ite_none_left_eq_some.1 hu
        have hle := hgrows.length_le
        exact hs.nHead_ne (by simp at hbusy; exact hbusy.2) (by omega)
      | PostRequest | PushMessage | sendHeartbeat => exact hm.1
      | encode | tailForward | idle_cb => trivial
    obtain ⟨q, hq⟩ := hs.step halone hu
    refine ⟨halone, fun v hv => ?_⟩
    obtain rfl : u = v := Option.some.inj (hu.symm.trans hv)
    exact ih hq (hm.2 u hu) hrest

theorem queued_of_alone {as : List QueueAction} {s t : Client} {p : Nat} (hs : s.Queued p)
    (hm : Meets step Alone s as) (h : run step s as = some t) : ∃ q, t.Queued q := by
  refine run_induction (I := fun s => ∃ p, s.Queued p) ?_ ⟨p, hs⟩ hm h
  rintro s a u ⟨p, hp⟩ ha hu
  exact hp.step ha hu

/-- **In every run in which posts do not overlap and the head counter does not wrap, what is posted
is written, once and with its own bytes.** -/
theorem delivered_of_alone {junk : Nat → Nat → UInt8} {as : List QueueAction} {t : Client}
    (hm : Meets step Alone (new junk) as) (h : run step (new junk) as = some t) : t.Delivered := by
  obtain ⟨p, hp⟩ := queued_of_alone (queued_new junk) hm h
  exact hp.delivered

/-- A message of one byte. -/
def noneMessage : Message where
  appends := [[ERequestType.TypeReq_None.toByte]]
  dataSize := 16
  body_ne_nil := by decide
  length_le := by decide
  dataSize_lt := by decide

/-- One request, posted. -/
def onePost : List QueueAction :=
  [.PostRequest 0 noneMessage.toISerializable 7, .encode (.user 0) fun _ => 0, .tailForward (.user 0)]

/-- Another thread posts, and the loop writes the request meanwhile and then the second message. -/
def twoPosts : List QueueAction :=
  onePost ++ [.PushMessage 1 noneMessage.toISerializable, .idle_cb, .encode (.user 1) fun _ => 0, .req_write_cb,
    .tailForward (.user 1), .idle_cb, .req_write_cb]

theorem twoPosts_runs : ((run step (new fun _ _ => 0) twoPosts).map fun t =>
    (t.written, t.posted.length, t.sendCache.isEmpty)) =
      some ([packageOf noneMessage.toISerializable 7 .Type_Req,
        packageOf noneMessage.toISerializable 0 .Type_Rtn], 2, true) := by
  decide +kernel

theorem call_onePost {t : Client} (h : run step (new fun _ _ => 0) onePost = some t) (u : Thread) :
    t.call u = none := by
  have hsplit : onePost = [.PostRequest 0 noneMessage.toISerializable 7, .encode (.user 0) fun _ => 0] ++
      [.tailForward (.user 0)] := rfl
  rw [hsplit] at h
  obtain ⟨s, hs, hlast⟩ := run_append h
  obtain ⟨t', ht', hnil⟩ := run_cons hlast
  obtain rfl : t' = t := Option.some.inj hnil
  have hmeets : Meets step Alone (new fun _ _ => 0) [.PostRequest 0 noneMessage.toISerializable 7,
      .encode (.user 0) fun _ => 0] := by
    simp only [Meets, Alone, implies_true, and_true]
    exact .inr fun _ => rfl
  obtain ⟨p, hp⟩ := queued_of_alone (queued_new _) hmeets hs
  exact hp.call_tailForward ht' u

theorem meets_twoPosts : Meets step Apart (new fun _ _ => 0) twoPosts := by
  refine meets_append_of ?_ fun t ht => ?_
  · simp only [onePost, Meets, Apart, implies_true, and_true]
    exact .inr fun _ => rfl
  · simp only [Meets, Apart, implies_true, and_true]
    exact .inr (call_onePost ht)

theorem delivered_of_alone_twoPosts : ∃ t, run step (new fun _ _ => 0) twoPosts = some t ∧
    t.sendCache.isEmpty = true ∧ t.Delivered := by
  obtain ⟨t, ht, hlog⟩ := Option.map_eq_some_iff.1 twoPosts_runs
  obtain ⟨-, hlen, hempty⟩ : t.written = _ ∧ t.posted.length = 2 ∧ t.sendCache.isEmpty = true := by
    simpa only [Prod.mk.injEq] using hlog
  have hmeets := meets_alone (queued_new _) meets_twoPosts ht (by rw [hlen]; decide)
  exact ⟨t, ht, hempty, delivered_of_alone hmeets ht⟩

/-- The loop posts a heartbeat while a user thread is between `encode` and `tailForward`. -/
def overlap : List QueueAction :=
  [.PostRequest 0 noneMessage.toISerializable 7, .encode (.user 0) fun _ => 0, .sendHeartbeat,
    .encode .loop fun _ => 0, .tailForward .loop, .tailForward (.user 0), .idle_cb, .req_write_cb,
    .idle_cb, .req_write_cb]

theorem overlap_runs : (run step (new fun _ _ => 0) overlap).map (fun t => (t.posted, t.written)) =
    some ([packageOf heartbeat.toISerializable 0 .Type_Req,
      packageOf noneMessage.toISerializable 7 .Type_Req],
      [packageOf heartbeat.toISerializable 0 .Type_Req, []]) := by
  decide +kernel

/-- The request, for which `postMsg` returned success, is lost: the heartbeat is in its slot, and an
empty buffer is written in its place. -/
theorem overlap_not_delivered :
    ∃ t, run step (new fun _ _ => 0) overlap = some t ∧ ¬ t.Delivered := by
  obtain ⟨t, ht, hlog⟩ := Option.map_eq_some_iff.1 overlap_runs
  refine ⟨t, ht, fun hd => ?_⟩
  rw [Prod.mk.injEq] at hlog
  have hmem : [] ∈ t.posted := hd.subperm.subset (by rw [hlog.2]; decide)
  rw [hlog.1] at hmem
  exact absurd hmem (by decide +kernel)

/-! ## In order -/

/-- What was written is the first that was posted, in order, and all of it when the ring is empty; no
call has the slot of a write that is under way. -/
structure InOrder (s : Client) : Prop where
  initial : s.written <+: s.posted
  all : s.sendCache.isEmpty = true → s.written = s.posted
  free : s.bReqWritereqBusy = true → ∀ t c, s.call t = some c → s.req_uvbuf ≠ some c.slot

theorem Queued.inOrder {s : Client} {p : Nat} (h : s.Queued p) : s.InOrder where
  initial := by
    rw [h.written]
    exact List.take_prefix _ _
  all hempty := by
    have hp := h.ring.isEmpty_iff.1 hempty
    have hidle : ¬ s.bReqWritereqBusy = true := fun hb => by
      have := h.busy hb
      omega
    rw [h.written, if_neg hidle, hp, List.take_length]
  free hbusy t c hc := by
    obtain ⟨hslot, hroom⟩ := h.slot t c hc
    have hlt := h.busy hbusy
    have hmax := h.ring.room
    rw [h.uvbuf hbusy, hslot, Ne, Option.some.injEq]
    exact Ring.mod_ne_mod hlt (by omega)

theorem queued_of_apart {as : List QueueAction} {s t : Client} {p : Nat} (hs : s.Queued p)
    (hm : Meets step Apart s as) (h : run step s as = some t) (hlt : t.posted.length < 2 ^ 64) :
    ∃ q, t.Queued q :=
  queued_of_alone hs (meets_alone hs hm h hlt) h

/-- **In every run in which posts do not overlap the packages are written in the order of the posts,
and no slot is encoded into while its buffer is being written.** -/
theorem inOrder_of_apart {junk : Nat → Nat → UInt8} {as : List QueueAction} {t : Client}
    (hm : Meets step Apart (new junk) as) (h : run step (new junk) as = some t)
    (hlt : t.posted.length < 2 ^ 64) : t.InOrder := by
  obtain ⟨p, hp⟩ := queued_of_apart (queued_new junk) hm h hlt
  exact hp.inOrder

theorem inOrder_of_apart_twoPosts : ∃ t, run step (new fun _ _ => 0) twoPosts = some t ∧
    t.written = [packageOf noneMessage.toISerializable 7 .Type_Req,
      packageOf noneMessage.toISerializable 0 .Type_Rtn] ∧ t.sendCache.isEmpty = true ∧ t.InOrder := by
  obtain ⟨t, ht, hlog⟩ := Option.map_eq_some_iff.1 twoPosts_runs
  obtain ⟨hwritten, hlen, hempty⟩ : t.written = _ ∧ t.posted.length = 2 ∧ t.sendCache.isEmpty = true := by
    simpa only [Prod.mk.injEq] using hlog
  exact ⟨t, ht, hwritten, hempty, inOrder_of_apart meets_twoPosts ht (by rw [hlen]; decide)⟩

end Client

end CppLinuxLearn.Solcom
