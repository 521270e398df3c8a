import CppLinuxLearn.Solcom.PostWait
import CppLinuxLearn.Solcom.Recover
import CppLinuxLearn.Solcom.SendQueue
import CppLinuxLearn.Solcom.StaleBytes

/-!
# From `PostRequest` to the work queue

A client, the server's end of its connection and the bytes between them. User threads and the loop of the
client post commands, the loop writes them, the bytes come in pieces of any size that `alloc_cb` allows,
and the server hands every complete package to `uv_queue_work`. While posts do not overlap, the commands
that are handed over are those that were posted, with their ids and kinds, in order; the server never comes
down; and the callbacks alone can bring over whatever was posted.
-/

namespace CppLinuxLearn.Solcom

open Lib Steps

/-! ## Commands that come back -/

/-- `nType` is what the constructor of the class has set. -/
def Command.Typed : Command → Prop
  | .HeartbeatCommand nType => Pod.bytes nType = [ERequestType.TypeReq_Heartbeat.toByte]
  | .TestCommand nType _ _ _ => Pod.bytes nType = [ERequestType.TypeReq_TestCmd.toByte]

theorem Command.Typed.commandClass {cmd : Command} (h : cmd.Typed) :
    ∃ c : CommandClass, cmd.serialized.body.head?.bind CreateObject = some c ∧
      cmd.serialized.body.length = c.fields.sum ∧ c.ofBytes cmd.serialized.body = cmd := by
  cases cmd with
  | HeartbeatCommand nType =>
    have hbody : (serialized (.HeartbeatCommand nType)).body = Pod.bytes nType := List.append_nil _
    refine ⟨.HeartbeatCommand, ?_, by simp [hbody]; rfl, ?_⟩
    · rw [hbody, show Pod.bytes nType = _ from h]
      rfl
    · rw [hbody, CommandClass.ofBytes, ofBytes_bytes]
  | TestCommand nType strData dbData intData =>
    have hbody : (serialized (.TestCommand nType strData dbData intData)).body =
        Pod.bytes (nType, strData, dbData, intData) := by
      simp [serialized, ISerializable.body, Pod.bytes]
    refine ⟨.TestCommand, ?_, by simp [hbody]; rfl, ?_⟩
    · simp [serialized, ISerializable.body, show Pod.bytes nType = _ from h]
      rfl
    · rw [hbody]
      simp only [CommandClass.ofBytes, ofBytes_bytes]

/-- A message that is a command. -/
def ISerializable.IsCommand (msg : ISerializable) : Prop := ∃ cmd : Command, cmd.Typed ∧ cmd.serialized = msg

theorem isCommand_heartbeat : heartbeat.toISerializable.IsCommand :=
  ⟨.HeartbeatCommand 1, rfl, rfl⟩

theorem ISerializable.IsCommand.body {msg : ISerializable} (h : msg.IsCommand) :
    Receiver.server.Knows msg.body ∧ msg.body ≠ [] ∧ msg.body.length < 2 ^ 16 := by
  obtain ⟨cmd, htyped, rfl⟩ := h
  obtain ⟨c, hc, hlen, -⟩ := htyped.commandClass
  have hsum : 0 < c.fields.sum ∧ c.fields.sum ≤ 45 := by cases c <;> decide
  refine ⟨?_, List.ne_nil_of_length_pos (by omega), by omega⟩
  obtain ⟨objType, hobj, hc⟩ := Option.bind_eq_some_iff.1 hc
  rw [Receiver.Knows, hobj, Option.some.injEq, Option.some.injEq]
  by_contra hnot
  cases hc.symm.trans (getCachedObj_eq_none.2 (not_or.1 hnot).2)

theorem receive_serialized {s s' : RecvState} {part : Bytes} {rd : Read} {hs : List Handed} {cmd : Command}
    (h : Receiving s part) (hne : rd.data ≠ []) (hneed : rd.data.length ≤ framing.need part)
    (hframe : framing.IsFrame (part ++ rd.data)) (htyped : cmd.Typed)
    (hbody : (part ++ rd.data).drop 12 = cmd.serialized.body)
    (hr : Receiver.server.receive s rd = some (s', hs)) : hs.map Handed.cmd = [some cmd] := by
  obtain ⟨hhead, hall⟩ := Framing.need_of_isFrame hneed hframe
  rw [framing_headLen] at hhead
  have hstat : s.recvStat = .Type_RecvBody := by rw [h.stat, if_neg (by omega)]
  have hn : (rd.data.length : Int) = s.nNeedRead := by rw [h.need, hall]
  obtain ⟨c, hc, hlen, hcmd⟩ := htyped.commandClass
  obtain ⟨b, hholds, -, hdec⟩ := decodeBody_eq h hne hhead hall (hbody ▸ hc)
  -- the fields are the body
  have hfields : (b.pCharArr.drop 12).take c.fields.sum = cmd.serialized.body := by
    have hsplit : b.pCharArr = (part ++ rd.data) ++ b.pCharArr.drop (part ++ rd.data).length := by
      conv_lhs => rw [← List.take_append_drop (part ++ rd.data).length b.pCharArr, hholds.content]
    have hle : 12 ≤ (part ++ rd.data).length := by simp; omega
    rw [hsplit, List.drop_append_of_le_length hle, hbody, ← hlen, List.take_left]
  have hcmds := receive_decodeBody hne hstat hn
  rw [hr, hdec, hfields, hcmd] at hcmds
  exact (Prod.mk.inj (Option.some.inj hcmds)).1

/-! ## The two ends -/

/-- A client, the server's end of its connection, and what is between them. -/
structure Link where
  client : Client
  /-- the calls that returned `ERR_SUCCESS` -/
  calls : List Call
  /-- what the server has read -/
  arrived : Bytes
  server : RecvState
  /-- the commands that were queued for `work_cb` -/
  handed : List Handed

inductive LinkAction
  | client (a : QueueAction)
  | read_cb (rd : Read)

/-- The message that is posted. -/
def QueueAction.message : QueueAction → Option ISerializable
  | .PostRequest _ msg _ | .PushMessage _ msg => some msg
  | .sendHeartbeat => some heartbeat.toISerializable
  | _ => none

/-- The call that `tailForward` ends. -/
def Client.returns (s : Client) : QueueAction → List Call
  | .tailForward t => (s.call t).toList
  | _ => []

namespace Link

def new (junk : Nat → Nat → UInt8) (junk' : Nat → UInt8) : Link := ⟨.new junk, [], [], .new junk', []⟩

/-- What was written and has not been read. -/
def inFlight (s : Link) : Bytes := s.client.written.flatten.drop s.arrived.length

/-- Bytes come in order, and no more of them than `alloc_cb` allowed. -/
def Offers (s : Link) (rd : Read) : Prop :=
  rd.data ≠ [] ∧ rd.data <+: s.inFlight ∧ rd.data.length ≤ s.server.alloc_cb.1

instance (s : Link) (rd : Read) : Decidable (s.Offers rd) := inferInstanceAs (Decidable (_ ∧ _))

def step (s : Link) : LinkAction → Option Link
  | .client a => do
    let client ← s.client.step a
    some { s with client, calls := s.calls ++ s.client.returns a }
  | .read_cb rd =>
    if s.Offers rd then do
      let (server, hs) ← Receiver.server.receive s.server rd
      some { s with arrived := s.arrived ++ rd.data, server, handed := s.handed ++ hs }
    else none

/-- What is posted are commands, and a post starts while no other is under way. -/
def Sends (s : Link) : LinkAction → Prop
  | .client a => s.client.Apart a ∧ ∀ msg ∈ a.message, msg.IsCommand
  | .read_cb _ => True

/-- The callbacks of the two loops, and what is left of a `sendHeartbeat` that is under way. -/
def IsCallback : LinkAction → Prop
  | .client .idle_cb | .client .req_write_cb | .client (.encode .loop _) | .client (.tailForward .loop) |
    .read_cb _ => True
  | _ => False

theorem IsCallback.sends {a : LinkAction} (h : IsCallback a) (s : Link) : s.Sends a := by
  cases a with
  | read_cb rd => trivial
  | client a => cases a <;> first | exact ⟨trivial, by simp [QueueAction.message]⟩ | exact h.elim

end Link

/-- What is handed over is the command of the call, with its id and its kind. -/
structure Handed.Carries (o : Handed) (c : Call) : Prop where
  requestID : o.pkghead.requestID.setWidth 32 = c.requestID
  reqRtnType : o.pkghead.reqRtnType = BitVec.ofNat 8 c.reqRtn.toNat
  cmd : o.cmd.map Command.serialized = some c.msg

/-! ## The package of a call -/

section
variable {c : Call} (h : c.msg.IsCommand)
include h

theorem Call.packed : Filled.Packed ⟨c.package, c.requestID, c.reqRtn, c.msg.body⟩ :=
  ⟨h.body.2.1, rfl⟩

theorem Call.isFrame : framing.IsFrame c.package := (Call.packed h).isFrame h.body.2.2

theorem Call.drop_package : c.package.drop 12 = c.msg.body := (Call.packed h).drop_buffer

end

theorem Call.cut_package (c : Call) : cut c.package = (headOf c.msg c.requestID c.reqRtn, c.msg.body) := by
  rw [cut, Call.package, packageOf, List.take_append_of_le_length (by simp), List.take_of_length_le (by simp),
    List.drop_append_of_le_length (by simp), List.drop_of_length_le (by simp), List.nil_append, ofBytes_bytes]

/-- A frame that was handed over: its head, its body, and its command if it is one. -/
structure Handed.Of (o : Handed) (q : Bytes) : Prop where
  pair : o.pair = cut q
  cmd : ∀ cmd : Command, cmd.Typed → q.drop 12 = cmd.serialized.body → o.cmd = some cmd

theorem Handed.Of.carries {o : Handed} {c : Call} (h : o.Of c.package) (hc : c.msg.IsCommand) : o.Carries c := by
  have hpair := h.pair.trans c.cut_package
  have hhead : o.pkghead = headOf c.msg c.requestID c.reqRtn := (Prod.mk.inj hpair).1
  obtain ⟨cmd, htyped, hmsg⟩ := hc
  have hcmd := h.cmd cmd htyped (by rw [Call.drop_package ⟨cmd, htyped, hmsg⟩, hmsg])
  refine ⟨?_, by rw [hhead]; rfl, by rw [hcmd, Option.map_some, hmsg]⟩
  rw [hhead]
  exact setWidth_signExtend c.requestID

/-! ## The receiving end -/

/-- `cs` was read: what is complete was handed over, and what is open is in the buffer. -/
structure Received (server : RecvState) (handed : List Handed) (cs : List Bytes) : Prop where
  fits : framing.Fits [] cs
  receiving : Receiving server (framing.feedAll [] cs).1
  handed : List.Forall₂ Handed.Of handed (framing.feedAll [] cs).2

theorem received_new (junk : Nat → UInt8) : Received (Receiver.server.fresh junk) [] [] :=
  ⟨trivial, receiving_fresh .server junk, .nil⟩

theorem feedAll_concat (cs : List Bytes) (c : Bytes) : framing.feedAll [] (cs ++ [c]) =
    ((framing.feed (framing.feedAll [] cs).1 c).1,
      (framing.feedAll [] cs).2 ++ (framing.feed (framing.feedAll [] cs).1 c).2) := by
  rw [Framing.feedAll_append]
  simp [Framing.feedAll]

section
variable {server : RecvState} {handed : List Handed} {cs : List Bytes} {rd : Read}

theorem Received.le_need (h : Received server handed cs) (hle : rd.data.length ≤ server.alloc_cb.1) :
    rd.data.length ≤ framing.need (framing.feedAll [] cs).1 := by
  have hle : (rd.data.length : Int) ≤ server.nNeedRead := hle
  rw [h.receiving.need] at hle
  omega

theorem Received.fits_concat (h : Received server handed cs) (hne : rd.data ≠ [])
    (hle : rd.data.length ≤ server.alloc_cb.1) : framing.Fits [] (cs ++ [rd.data]) :=
  Framing.fits_append.2 ⟨h.fits, hne, h.le_need hle, trivial⟩

theorem Received.read (h : Received server handed cs) (hne : rd.data ≠ []) (hle : rd.data.length ≤ server.alloc_cb.1)
    (hknows : ∀ q ∈ (framing.feedAll [] (cs ++ [rd.data])).2, Receiver.server.Knows (q.drop 12)) :
    ∃ server' hs, Receiver.server.receive server rd = some (server', hs) ∧
      Received server' (handed ++ hs) (cs ++ [rd.data]) := by
  have hneed := h.le_need hle
  have hfits := h.fits_concat hne hle
  rw [feedAll_concat] at hknows
  obtain ⟨server', hs, hr, hpair, hrec⟩ := (receive_feed .server h.receiving hne hneed).1 fun q hq =>
    hknows q (List.mem_append_right _ hq)
  refine ⟨server', hs, hr, hfits, by rw [feedAll_concat]; exact hrec, ?_⟩
  rw [feedAll_concat]
  apply List.rel_append h.handed
  rw [Framing.feed] at hpair ⊢
  split at hpair
  · rename_i hframe
    rw [if_pos hframe]
    obtain ⟨o, rfl⟩ := List.length_eq_one_iff.1 (by simpa using congrArg List.length hpair)
    refine .cons ⟨by simpa using hpair, fun cmd htyped hbody => ?_⟩ .nil
    have hcmd := receive_serialized h.receiving hne hneed hframe htyped hbody hr
    simpa using hcmd
  · rename_i hopen
    rw [if_neg hopen, List.map_eq_nil_iff.1 hpair]
    exact .nil

end

section
variable {server : RecvState} {handed : List Handed} {cs : List Bytes} {calls : List Call}

theorem knows_of_packages (hcalls : ∀ c ∈ calls, c.msg.IsCommand) (hfits : framing.Fits [] cs)
    (hcs : cs.flatten <+: (calls.map Call.package).flatten) :
    ∀ q ∈ (framing.feedAll [] cs).2, Receiver.server.Knows (q.drop 12) := by
  obtain ⟨first, hfirst, heq, -⟩ := Framing.feedAll_map (fun c hc => Call.isFrame (hcalls c hc)) hfits hcs
  intro q hq
  rw [heq] at hq
  obtain ⟨c, hc, rfl⟩ := List.mem_map.1 hq
  have hcommand := hcalls c (hfirst.subset hc)
  rw [Call.drop_package hcommand]
  exact hcommand.body.1

theorem Received.read_packages (h : Received server handed cs) (hcalls : ∀ c ∈ calls, c.msg.IsCommand) {rd : Read}
    (hne : rd.data ≠ []) (hle : rd.data.length ≤ server.alloc_cb.1)
    (hcs : cs.flatten ++ rd.data <+: (calls.map Call.package).flatten) :
    ∃ server' hs, Receiver.server.receive server rd = some (server', hs) ∧
      Received server' (handed ++ hs) (cs ++ [rd.data]) := by
  have hflat : (cs ++ [rd.data]).flatten = cs.flatten ++ rd.data := by simp
  exact h.read hne hle (knows_of_packages hcalls (h.fits_concat hne hle) (hflat ▸ hcs))

/-- What was handed over are the commands of the first calls, and of all of them once all is read. -/
theorem Received.carries (h : Received server handed cs) (hcalls : ∀ c ∈ calls, c.msg.IsCommand)
    (hcs : cs.flatten <+: (calls.map Call.package).flatten) :
    List.Forall₂ Handed.Carries handed (calls.take handed.length) ∧
      (cs.flatten = (calls.map Call.package).flatten → handed.length = calls.length) := by
  obtain ⟨first, hfirst, heq, hwhole⟩ := Framing.feedAll_map (fun c hc => Call.isFrame (hcalls c hc)) h.fits hcs
  have hall := h.handed
  rw [heq, List.forall₂_map_right_iff] at hall
  rw [hall.length_eq, ← List.prefix_iff_eq_take.1 hfirst]
  have hboth := (List.forall₂_and_left _ _).2 ⟨fun c hc => hcalls c (hfirst.subset hc), hall.flip⟩
  exact ⟨(hboth.imp fun c o hco => hco.2.carries hco.1).flip, fun heq => congrArg List.length (hwhole heq)⟩

end

/-! ## The sending end -/

namespace Client
variable {s t : Client}

theorem step_calls {a : QueueAction} (h : s.step a = some t) :
    t.posted = s.posted ++ (s.returns a).map Call.package ∧ s.written <+: t.written ∧
      ∀ u c, t.call u = some c → (∃ d, s.call u = some d ∧ d.msg = c.msg) ∨ a.message = some c.msg := by
  have hupdate : ∀ {th : Thread} {o : Option Call} {u : Thread} {c : Call},
      Function.update s.call th o u = some c → u = th ∧ o = some c ∨ s.call u = some c := by
    intro th o u c hu
    by_cases hut : u = th
    · subst hut
      rw [Function.update_self] at hu
      exact .inl ⟨rfl, hu⟩
    · rw [Function.update_of_ne hut] at hu
      exact .inr hu
  have hallocate : ∀ {th : Thread} {msg : ISerializable} {requestID : CInt} {reqRtn : EPkgReqRtnType},
      s.allocate th msg requestID reqRtn = some t → t.posted = s.posted ∧ t.written = s.written ∧
        ∀ u c, t.call u = some c → (∃ d, s.call u = some d ∧ d.msg = c.msg) ∨ msg = c.msg := by
    intro th msg requestID reqRtn h
    rw [Client.allocate] at h
    split at h
    · cases h
    · cases h
      exact ⟨rfl, rfl, fun u c hu => .inl ⟨c, hu, rfl⟩⟩
    · cases h
      refine ⟨rfl, rfl, fun u c hu => ?_⟩
      rcases hupdate hu with ⟨-, hc⟩ | hu
      · exact .inr (Option.some.inj hc ▸ rfl)
      · exact .inl ⟨c, hu, rfl⟩
  cases a with
  | PostRequest n msg requestID | PushMessage n msg | sendHeartbeat =>
    obtain ⟨hposted, hwritten, hcall⟩ := hallocate h
    refine ⟨by simp [hposted, returns], hwritten ▸ List.prefix_rfl, fun u c hu => ?_⟩
    exact (hcall u c hu).imp_right (congrArg some)
  | encode th junk =>
    simp only [step] at h
    split at h
    · cases h
    · rename_i c hc
      obtain ⟨-, h⟩ := Option.ite_none_left_eq_some.1 h
      obtain ⟨b, -, h⟩ := Option.bind_eq_some_iff.1 h
      obtain ⟨b', -, h⟩ := Option.bind_eq_some_iff.1 h
      obtain rfl := Option.some.inj h
      refine ⟨by simp [returns], List.prefix_rfl, fun u d hu => .inl ?_⟩
      rcases hupdate hu with ⟨rfl, hd⟩ | hu
      · exact ⟨c, hc, Option.some.inj hd ▸ rfl⟩
      · exact ⟨d, hu, rfl⟩
  | tailForward th =>
    simp only [step] at h
    split at h
    · cases h
    · rename_i c hc
      obtain ⟨-, h⟩ := Option.ite_none_right_eq_some.1 h
      obtain rfl := Option.some.inj h
      refine ⟨by simp [returns, hc], List.prefix_rfl, fun u d hu => .inl ?_⟩
      rcases hupdate hu with ⟨-, hd⟩ | hu
      · cases hd
      · exact ⟨d, hu, rfl⟩
  | idle_cb =>
    obtain ⟨-, h⟩ := Option.ite_none_left_eq_some.1 h
    have hkeep : s.posted = s.posted ++ (s.returns .idle_cb).map Call.package := by simp [returns]
    have hcalls : ∀ u c, s.call u = some c →
        (∃ d, s.call u = some d ∧ d.msg = c.msg) ∨ QueueAction.idle_cb.message = some c.msg :=
      fun u c hu => .inl ⟨c, hu, rfl⟩
    split at h
    · split at h
      · cases h
        exact ⟨hkeep, List.prefix_rfl, hcalls⟩
      · obtain ⟨b, -, h⟩ := Option.bind_eq_some_iff.1 h
        obtain rfl := Option.some.inj h
        exact ⟨hkeep, List.prefix_append _ _, hcalls⟩
    · cases h
      exact ⟨hkeep, List.prefix_rfl, hcalls⟩
  | req_write_cb =>
    obtain ⟨-, h⟩ := Option.ite_none_left_eq_some.1 h
    obtain rfl := Option.some.inj h
    exact ⟨by simp [returns], List.prefix_rfl, fun u c hu => .inl ⟨c, hu, rfl⟩⟩

theorem Queued.step_apart {p : Nat} (h : s.Queued p) {a : QueueAction} (ha : s.Apart a)
    (hlt : s.posted.length < 2 ^ 64) (hs : s.step a = some t) : ∃ q, t.Queued q := by
  refine h.step ?_ hs
  cases a with
  | PostRequest | PushMessage | sendHeartbeat => exact ha
  | encode | tailForward | idle_cb => trivial
  | req_write_cb =>
    obtain ⟨hbusy, -⟩ := Option.ite_none_left_eq_some.1 hs
    simp at hbusy
    exact h.nHead_ne hbusy.2 hlt

theorem Queued.idle_cb_isSome {p : Nat} (h : s.Queued p) (hloop : s.call .loop = none)
    (hwaits : s.sendCache.isEmpty = false) (hidle : s.bReqWritereqBusy = false) :
    ∃ t, s.step .idle_cb = some t ∧ t.bReqWritereqBusy = true ∧ t.posted = s.posted ∧ t.call = s.call := by
  have hne : p ≠ s.posted.length := by
    intro heq
    rw [h.ring.isEmpty_iff.2 heq] at hwaits
    cases hwaits
  have hcur := h.ring.current_eq
  rw [if_neg hne] at hcur
  have hget := List.getElem?_eq_getElem (h.ring.toSized.lt_length p)
  rw [Client.step]
  simp only [hloop, hwaits, hidle, hcur, hget, Option.isSome_none, Bool.false_eq_true, if_false, Bool.not_false,
    Bool.and_true, if_true, Option.bind_eq_bind, Option.bind_some]
  exact ⟨_, rfl, rfl, rfl, rfl⟩

theorem Queued.flush {p : Nat} (h : s.Queued p) (hloop : s.call .loop = none) (hlt : s.posted.length < 2 ^ 64) :
    ∃ as t, (∀ a ∈ as, a = QueueAction.idle_cb ∨ a = QueueAction.req_write_cb) ∧ run Client.step s as = some t ∧
      t.sendCache.isEmpty = true := by
  -- every write that is started and every write that ends brings the loop nearer to its end
  obtain ⟨n, hn⟩ : ∃ n, 2 * (s.posted.length - p) + (if s.bReqWritereqBusy then 0 else 1) = n := ⟨_, rfl⟩
  induction n using Nat.strong_induction_on generalizing s p with
  | _ n ih =>
    cases hempty : s.sendCache.isEmpty with
    | true => exact ⟨[], s, by simp, rfl, hempty⟩
    | false =>
      cases hbusy : s.bReqWritereqBusy with
      | false =>
        obtain ⟨u, hu, hubusy, huposted, hucall⟩ := h.idle_cb_isSome hloop hempty hbusy
        have hdown : 2 * (u.posted.length - p) + (if u.bReqWritereqBusy then 0 else 1) < n := by
          rw [huposted, hubusy, ← hn, hbusy]
          simp
        obtain ⟨as, t, has, ht, htempty⟩ := ih _ hdown (h.idle_cb hu) (by rw [hucall, hloop]) (huposted ▸ hlt) rfl
        refine ⟨.idle_cb :: as, t, ?_, Option.bind_eq_some_iff.2 ⟨u, hu, ht⟩, htempty⟩
        exact List.forall_mem_cons.2 ⟨.inl rfl, has⟩
      | true =>
        have hlive := h.busy hbusy
        obtain ⟨u, hu⟩ : ∃ u, s.step .req_write_cb = some u := by
          simp [Client.step, hloop, hbusy]
        obtain ⟨-, heq⟩ := Option.ite_none_left_eq_some.1 hu
        have hdown : 2 * (u.posted.length - (p + 1)) + (if u.bReqWritereqBusy then 0 else 1) < n := by
          rw [← hn, hbusy, ← Option.some.inj heq]
          simp
          omega
        have hnext := h.req_write_cb (h.nHead_ne hbusy hlt) hu
        obtain ⟨as, t, has, ht, htempty⟩ := ih _ hdown hnext (by rw [← Option.some.inj heq]; exact hloop)
          (by rw [← Option.some.inj heq]; exact hlt) rfl
        refine ⟨.req_write_cb :: as, t, ?_, Option.bind_eq_some_iff.2 ⟨u, hu, ht⟩, htempty⟩
        exact List.forall_mem_cons.2 ⟨.inr rfl, has⟩

end Client

/-! ## Both ends -/

namespace Link
variable {s t : Link}

/-- What is read was written before, and what is written was posted; all of it are packages of commands. -/
structure Linked (s : Link) : Prop where
  queued : ∃ p, s.client.Queued p
  posted : s.client.posted = s.calls.map Call.package
  commands : ∀ c ∈ s.calls, c.msg.IsCommand
  underWay : ∀ u c, s.client.call u = some c → c.msg.IsCommand
  received : ∃ cs, Received s.server s.handed cs ∧ cs.flatten = s.arrived
  arrived : s.arrived <+: s.client.written.flatten

theorem linked_new (junk : Nat → Nat → UInt8) (junk' : Nat → UInt8) : (new junk junk').Linked where
  queued := ⟨0, Client.queued_new junk⟩
  posted := rfl
  commands c hc := absurd hc List.not_mem_nil
  underWay u c hc := by cases hc
  received := ⟨[], received_new junk', rfl⟩
  arrived := List.nil_prefix

namespace Linked
variable (h : s.Linked)
include h

theorem written_flatten : s.client.written.flatten <+: (s.calls.map Call.package).flatten := by
  obtain ⟨p, hp⟩ := h.queued
  obtain ⟨more, hmore⟩ := hp.inOrder.initial
  rw [← h.posted, ← hmore, List.flatten_append]
  exact List.prefix_append _ _

theorem read {rd : Read} (hrd : s.Offers rd) : ∃ t, s.step (.read_cb rd) = some t ∧ t.Linked ∧
    t.calls = s.calls ∧ t.client = s.client ∧ t.arrived = s.arrived ++ rd.data := by
  obtain ⟨cs, hrec, hcs⟩ := h.received
  obtain ⟨rest, hrest⟩ := h.arrived
  obtain ⟨hne, hpre, hle⟩ := id hrd
  have harrived : s.arrived ++ rd.data <+: s.client.written.flatten := by
    rw [inFlight, ← hrest, List.drop_left] at hpre
    rw [← hrest]
    exact (List.prefix_append_right_inj _).2 hpre
  obtain ⟨server, hs, hr, hrec'⟩ :=
    hrec.read_packages h.commands hne hle (hcs ▸ harrived.trans h.written_flatten)
  refine ⟨{ s with arrived := s.arrived ++ rd.data, server := server, handed := s.handed ++ hs }, ?_, ?_,
    rfl, rfl, rfl⟩
  · rw [step, if_pos hrd, hr]
    rfl
  · exact ⟨h.queued, h.posted, h.commands, h.underWay, ⟨_, hrec', by simp [hcs]⟩, harrived⟩

theorem carries : List.Forall₂ Handed.Carries s.handed (s.calls.take s.handed.length) := by
  obtain ⟨cs, hrec, hcs⟩ := h.received
  exact (hrec.carries h.commands (hcs ▸ h.arrived.trans h.written_flatten)).1

theorem complete (hempty : s.client.sendCache.isEmpty = true) (hflight : s.inFlight = []) :
    s.handed.length = s.calls.length := by
  obtain ⟨p, hp⟩ := h.queued
  obtain ⟨cs, hrec, hcs⟩ := h.received
  have harrived : s.arrived = s.client.written.flatten := by
    have hle := List.drop_eq_nil_iff.1 hflight
    exact h.arrived.eq_of_length_le hle
  rw [hp.inOrder.all hempty, h.posted] at harrived
  exact (hrec.carries h.commands (hcs ▸ h.arrived.trans h.written_flatten)).2 (hcs.trans harrived)

end Linked

theorem Linked.step (h : s.Linked) {a : LinkAction} (ha : s.Sends a) (hlt : s.client.posted.length < 2 ^ 64)
    (hs : s.step a = some t) : t.Linked := by
  cases a with
  | read_cb rd =>
    obtain ⟨hrd, -⟩ := Option.ite_none_right_eq_some.1 hs
    obtain ⟨u, hu, hlinked, -⟩ := h.read hrd
    obtain rfl := Option.some.inj (hu.symm.trans hs)
    exact hlinked
  | client a =>
    obtain ⟨hapart, hmsg⟩ := ha
    obtain ⟨client, hclient, hs⟩ := Option.bind_eq_some_iff.1 hs
    obtain rfl := Option.some.inj hs
    obtain ⟨p, hp⟩ := h.queued
    obtain ⟨hposted, hwritten, hcalls⟩ := Client.step_calls hclient
    refine ⟨hp.step_apart hapart hlt hclient, ?_, ?_, ?_, h.received, ?_⟩
    · simp [hposted, h.posted]
    · intro c hc
      rcases List.mem_append.1 hc with hc | hc
      · exact h.commands c hc
      · cases a with
        | tailForward th => exact h.underWay th c (Option.mem_toList.1 hc)
        | _ => cases hc
    · intro u c hu
      rcases hcalls u c hu with ⟨d, hd, hdc⟩ | hc
      · exact hdc ▸ h.underWay u d hd
      · exact hmsg _ hc
    · obtain ⟨more, hmore⟩ := hwritten
      refine h.arrived.trans ?_
      show _ <+: client.written.flatten
      rw [← hmore, List.flatten_append]
      exact List.prefix_append _ _

/-! ## Runs -/

theorem posted_step {a : LinkAction} (hs : s.step a = some t) : s.client.posted <+: t.client.posted := by
  cases a with
  | client a =>
    obtain ⟨client, hclient, hs⟩ := Option.bind_eq_some_iff.1 hs
    obtain rfl := Option.some.inj hs
    exact Client.posted_step hclient
  | read_cb rd =>
    obtain ⟨-, hs⟩ := Option.ite_none_right_eq_some.1 hs
    obtain ⟨p, -, hs⟩ := Option.bind_eq_some_iff.1 hs
    obtain rfl := Option.some.inj hs
    exact List.prefix_rfl

theorem posted_of_run {junk : Nat → Nat → UInt8} {junk' : Nat → UInt8} {as : List LinkAction}
    (h : run step (new junk junk') as = some s) : s.client.posted = s.calls.map Call.package := by
  refine run_invariant (I := fun u => u.client.posted = u.calls.map Call.package) ?_ rfl h
  intro u a v hu hv
  cases a with
  | client a =>
    obtain ⟨client, hclient, hv⟩ := Option.bind_eq_some_iff.1 hv
    obtain rfl := Option.some.inj hv
    simp [(Client.step_calls hclient).1, hu]
  | read_cb rd =>
    obtain ⟨-, hv⟩ := Option.ite_none_right_eq_some.1 hv
    obtain ⟨p, -, hv⟩ := Option.bind_eq_some_iff.1 hv
    obtain rfl := Option.some.inj hv
    exact hu

theorem linked_of_run {as : List LinkAction} (h : s.Linked) (hm : Meets step Sends s as) (hr : run step s as = some t)
    (hlt : t.client.posted.length < 2 ^ 64) : t.Linked := by
  induction as generalizing s with
  | nil =>
    obtain rfl : s = t := Option.some.inj hr
    exact h
  | cons a as ih =>
    obtain ⟨u, hu, hrest⟩ := run_cons hr
    have hgrows : s.client.posted <+: t.client.posted :=
      (posted_step hu).trans <| run_invariant (I := fun v => u.client.posted <+: v.client.posted)
        (fun v a w hv hw => hv.trans (posted_step hw)) List.prefix_rfl hrest
    have hle := hgrows.length_le
    exact ih (h.step hm.1 (by omega) hu) (hm.2 u hu) hrest

/-- **In every run in which posts do not overlap, the commands that come to the work queue are those that were
posted, in order, and all of them once nothing is on the way; and no read brings the server down.** -/
theorem commands_carried {junk : Nat → Nat → UInt8} {junk' : Nat → UInt8} {as : List LinkAction}
    (hm : Meets step Sends (new junk junk') as) (h : run step (new junk junk') as = some s)
    (hlt : s.calls.length < 2 ^ 64) :
    List.Forall₂ Handed.Carries s.handed (s.calls.take s.handed.length) ∧
      (s.client.sendCache.isEmpty = true → s.inFlight = [] → s.handed.length = s.calls.length) ∧
      ∀ rd, s.Offers rd → (s.step (.read_cb rd)).isSome := by
  have hlen : s.client.posted.length < 2 ^ 64 := by rwa [posted_of_run h, List.length_map]
  have hs := linked_of_run (linked_new junk junk') hm h hlen
  refine ⟨hs.carries, hs.complete, fun rd hrd => ?_⟩
  obtain ⟨t, ht, -⟩ := hs.read hrd
  rw [ht]
  rfl

/-- A `TestCommand` that a user thread posts. -/
def greeting : Command := .TestCommand 2 (strcpy (Vector.replicate 32 0) (text "Test Message")) 0 7

theorem isCommand_greeting : greeting.serialized.IsCommand := ⟨greeting, rfl, rfl⟩

def postGreeting : List LinkAction :=
  [.client (.PostRequest 0 greeting.serialized 5), .client (.encode (.user 0) fun _ => 0),
    .client (.tailForward (.user 0))]

/-- It is written, and read in two pieces. -/
def greet : List LinkAction :=
  postGreeting ++ [.client .idle_cb, .read_cb ⟨(packageOf greeting.serialized 5 .Type_Req).take 12, fun _ => 0⟩,
    .read_cb ⟨(packageOf greeting.serialized 5 .Type_Req).drop 12, fun _ => 0⟩, .client .req_write_cb]

def start : Link := new (fun _ _ => 0) fun _ => 0

theorem greet_isSome : (run step start greet).isSome := by decide +kernel

def greeted : Link := Option.get _ greet_isSome

theorem meets_postGreeting {as : List LinkAction} (h : ∀ a ∈ as, IsCallback a) :
    Meets step Sends start (postGreeting ++ as) := by
  have hrest : ∀ t, Meets step Sends t as := meets_of_forall fun a ha => (h a ha).sends
  simp only [postGreeting, List.cons_append, List.nil_append, Meets, Sends, Client.Apart, QueueAction.message,
    Option.mem_def, Option.some.injEq, forall_eq', reduceCtorEq, false_implies, implies_true, and_self, true_and]
  exact ⟨⟨.inr fun _ => rfl, isCommand_greeting⟩, fun _ _ _ _ _ _ => hrest _⟩

theorem greeted_calls : greeted.calls.length = 1 ∧ greeted.handed.length = 1 ∧ greeted.inFlight = [] := by
  decide +kernel

theorem commands_carried_greeted : greeted.handed.length = 1 ∧
    List.Forall₂ Handed.Carries greeted.handed (greeted.calls.take greeted.handed.length) ∧
    ∀ rd, greeted.Offers rd → (greeted.step (.read_cb rd)).isSome := by
  have hmeets : Meets step Sends start greet := meets_postGreeting fun a ha => by
    simp only [List.mem_cons, List.not_mem_nil, or_false] at ha
    rcases ha with rfl | rfl | rfl | rfl <;> trivial
  have hlen : greeted.calls.length < 2 ^ 64 := by
    rw [greeted_calls.1]
    decide
  obtain ⟨hcarries, -, hreads⟩ := commands_carried hmeets (Option.some_get greet_isSome).symm hlen
  exact ⟨greeted_calls.2.1, hcarries, hreads⟩

/-! ## All of it comes over -/

theorem run_client {as : List QueueAction} {client : Client} (has : ∀ a ∈ as, a = .idle_cb ∨ a = .req_write_cb)
    (h : run Client.step s.client as = some client) :
    run step s (as.map .client) = some { s with client } := by
  induction as generalizing s with
  | nil =>
    obtain rfl : s.client = client := Option.some.inj h
    rfl
  | cons a as ih =>
    obtain ⟨u, hu, hrest⟩ := run_cons h
    obtain ⟨ha, has⟩ := List.forall_mem_cons.1 has
    have hreturns : s.client.returns a = [] := by rcases ha with rfl | rfl <;> rfl
    have hstep : s.step (.client a) = some { s with client := u } := by
      rw [step, hu]
      simp [hreturns]
    exact Option.bind_eq_some_iff.2 ⟨_, hstep, ih has hrest⟩

theorem Linked.offers (h : s.Linked) {b : UInt8} {rest : Bytes} (hflight : s.inFlight = b :: rest)
    (junk : Nat → UInt8) : s.Offers ⟨[b], junk⟩ := by
  refine ⟨List.cons_ne_nil _ _, by rw [hflight]; exact ⟨rest, rfl⟩, ?_⟩
  obtain ⟨cs, hrec, hcs⟩ := h.received
  obtain ⟨first, ⟨later, hlater⟩, heq, -⟩ := Framing.feedAll_map (fun c hc => Call.isFrame (h.commands c hc)) hrec.fits
    (hcs ▸ h.arrived.trans h.written_flatten)
  obtain ⟨way, hway⟩ := h.arrived
  obtain ⟨more, hmore⟩ := h.written_flatten
  have hway' : way = b :: rest := by rw [← hflight, inFlight, ← hway, List.drop_left]
  -- the open part and what comes start the packages that are left
  have hsplit : (framing.feedAll [] cs).1 ++ (b :: rest ++ more) = (later.map Call.package).flatten := by
    have hpart := Framing.feedAll_flatten framing [] cs
    rw [List.nil_append, hcs, heq] at hpart
    rw [← hlater, List.map_append, List.flatten_append, ← hway, ← hpart, hway', List.append_assoc, List.append_assoc,
      List.append_cancel_left_eq] at hmore
    exact hmore
  cases later with
  | nil =>
    have hnil := congrArg List.length hsplit
    simp at hnil
  | cons c later =>
    have hc : c.msg.IsCommand := h.commands c (by rw [← hlater]; simp)
    obtain ⟨-, hnot, hopen⟩ := Framing.feedAll_open hrec.fits Framing.notOver_nil Framing.not_isFrame_nil
    have hneed := Framing.need_pos (Call.isFrame hc) ⟨_, hsplit⟩ hnot hopen
    show ((1 : Nat) : Int) ≤ s.server.nNeedRead
    rw [hrec.receiving.need]
    omega

theorem Linked.readAll (h : s.Linked) : ∃ (rds : List Read) (t : Link), run Link.step s (rds.map .read_cb) = some t ∧
    t.Linked ∧ t.calls = s.calls ∧ t.client = s.client ∧ t.inFlight = [] := by
  obtain ⟨n, hn⟩ : ∃ n, s.inFlight.length = n := ⟨_, rfl⟩
  induction n generalizing s with
  | zero => exact ⟨[], s, rfl, h, rfl, rfl, List.length_eq_zero_iff.1 hn⟩
  | succ n ih =>
    cases hflight : s.inFlight with
    | nil => simp [hflight] at hn
    | cons b rest =>
      obtain ⟨u, hu, hlinked, hcalls, hclient, harrived⟩ := h.read (h.offers hflight fun _ => 0)
      have hleft : u.inFlight.length = n := by
        rw [inFlight, List.length_drop] at hn ⊢
        rw [hclient, harrived, List.length_append, List.length_singleton]
        omega
      obtain ⟨rds, t, ht, hlinked', hcalls', hclient', hdone⟩ := ih hlinked hleft
      exact ⟨_ :: rds, t, Option.bind_eq_some_iff.2 ⟨u, hu, ht⟩, hlinked', hcalls'.trans hcalls,
        hclient'.trans hclient, hdone⟩

theorem Linked.exists_encode (h : s.Linked) {c : Call} (hcall : s.client.call .loop = some c)
    (hnot : c.encoded = false) (junk : Nat → UInt8) : ∃ client, s.client.step (.encode .loop junk) = some client ∧
      client.posted = s.client.posted ∧ client.call .loop = some { c with encoded := true } := by
  obtain ⟨p, hp⟩ := h.queued
  obtain ⟨hslot, -⟩ := hp.slot .loop c hcall
  have hlt : c.slot < s.client.sendCache.elements.length := by
    rw [hslot]
    exact hp.ring.toSized.lt_length _
  have hget := List.getElem?_eq_getElem hlt
  obtain ⟨cmd, -, hcmd⟩ := h.underWay .loop c hcall
  obtain ⟨b, hb⟩ := encode_serialized (hp.slots _ (List.getElem_mem hlt)) junk cmd c.requestID c.reqRtn
  rw [hcmd] at hb
  rw [Client.step]
  simp only [hcall, hnot, hget, hb, Bool.false_eq_true, if_false, Option.bind_eq_bind, Option.bind_some]
  exact ⟨_, rfl, rfl, by simp⟩

/-- The loop comes to the end of a `sendHeartbeat` that is under way. -/
theorem Linked.loopReturns (h : s.Linked) (hlt : s.calls.length + 1 < 2 ^ 64) :
    ∃ bs t, (∀ b ∈ bs, IsCallback b) ∧ run Link.step s bs = some t ∧ t.Linked ∧ s.calls <+: t.calls ∧
      t.calls.length ≤ s.calls.length + 1 ∧ t.client.call .loop = none := by
  have hlen : s.client.posted.length < 2 ^ 64 := by
    rw [h.posted, List.length_map]
    omega
  cases hcall : s.client.call .loop with
  | none => exact ⟨[], s, by simp, rfl, h, List.prefix_rfl, by omega, hcall⟩
  | some c =>
    obtain ⟨bs, u, hbs, hu, hlinked, hcalls, d, hd, hdone⟩ : ∃ bs u, (∀ b ∈ bs, IsCallback b) ∧
        run Link.step s bs = some u ∧ u.Linked ∧ u.calls = s.calls ∧
          ∃ d, u.client.call .loop = some d ∧ d.encoded = true := by
      cases hdone : c.encoded with
      | true => exact ⟨[], s, by simp, rfl, h, rfl, c, hcall, hdone⟩
      | false =>
        obtain ⟨client, hclient, -, hnext⟩ := h.exists_encode hcall hdone fun _ => 0
        have hstep : s.step (.client (.encode .loop fun _ => 0)) = some { s with client } := by
          rw [Link.step, hclient]
          simp [Client.returns]
        refine ⟨[.client (.encode .loop fun _ => 0)], { s with client }, by simp [IsCallback], ?_, ?_, rfl, _, hnext, rfl⟩
        · rw [run, hstep]
          rfl
        · have hcallback : IsCallback (.client (.encode .loop fun _ => 0)) := trivial
          exact h.step (hcallback.sends s) hlen hstep
    have hend : u.step (.client (.tailForward .loop)) = some { u with
        client := { u.client with
          sendCache := u.client.sendCache.tailForward.2
          call := Function.update u.client.call .loop none
          posted := u.client.posted ++ [d.package] }
        calls := u.calls ++ [d] } := by
      rw [Link.step, Client.step]
      simp only [hd, hdone, if_true, Client.returns, Option.toList_some]
      rfl
    refine ⟨bs ++ [.client (.tailForward .loop)], _, ?_, run_append_of hu (by rw [run, hend]; rfl), ?_, ?_, ?_, ?_⟩
    · intro b hb
      rcases List.mem_append.1 hb with hb | hb
      · exact hbs b hb
      · obtain rfl := List.mem_singleton.1 hb
        trivial
    · have hcallback : IsCallback (.client (.tailForward .loop)) := trivial
      refine hlinked.step (hcallback.sends u) ?_ hend
      rw [hlinked.posted, List.length_map, hcalls]
      omega
    · rw [← hcalls]
      exact List.prefix_append ..
    · simp [hcalls]
    · simp

theorem call_of_run_tailForward {as : List LinkAction} {th : Thread} (hs : s.Linked)
    (hm : Meets step Sends s (as ++ [.client (.tailForward th)]))
    (h : run step s (as ++ [.client (.tailForward th)]) = some t) (hlt : t.client.posted.length < 2 ^ 64) (u : Thread) :
    t.client.call u = none := by
  obtain ⟨v, hv, hlast⟩ := run_append h
  obtain ⟨t', ht', hnil⟩ := run_cons hlast
  obtain rfl : t' = t := Option.some.inj hnil
  have hle := (posted_step ht').length_le
  obtain ⟨p, hp⟩ := (linked_of_run hs (meets_append hm).1 hv (by omega)).queued
  obtain ⟨client, hclient, heq⟩ := Option.bind_eq_some_iff.1 ht'
  rw [← Option.some.inj heq]
  exact hp.call_tailForward hclient u

theorem postGreeting_isSome : (run step start postGreeting).isSome := by decide +kernel

/-- The greeting is posted. -/
def posted : Link := Option.get _ postGreeting_isSome

theorem meets_greeting : Meets step Sends start postGreeting := by
  rw [← List.append_nil postGreeting]
  exact meets_postGreeting (by simp)

theorem run_postGreeting : run step start postGreeting = some posted :=
  (Option.some_get postGreeting_isSome).symm

theorem posted_call (t : Thread) : posted.client.call t = none := by
  have hlen : posted.client.posted.length < 2 ^ 64 := by decide +kernel
  have hsplit : postGreeting = postGreeting.dropLast ++ [.client (.tailForward (.user 0))] := rfl
  have hmeets := meets_greeting
  have hrun := run_postGreeting
  rw [hsplit] at hmeets hrun
  exact call_of_run_tailForward (linked_new _ _) hmeets hrun hlen t

/-- The loop has begun a heartbeat behind the greeting. -/
def greetAndBeat : List LinkAction := postGreeting ++ [.client .sendHeartbeat]

theorem greetAndBeat_isSome : (run step start greetAndBeat).isSome := by decide +kernel

def beating : Link := Option.get _ greetAndBeat_isSome

theorem beating_calls : beating.calls.length = 1 ∧ beating.handed = [] ∧ (beating.client.call .loop).isSome := by
  decide +kernel

end Link

end CppLinuxLearn.Solcom
