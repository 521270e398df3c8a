import CppLinuxLearn.Solcom.Capacity
import CppLinuxLearn.Solcom.ConnServer

/-!
# Where the network writes

`alloc_cb` offers the place behind the right pointer, for as many bytes as are needed. It lies in the
block in every state of either end, whatever is received: a block is never smaller than the one the
constructor takes, and where this is too small for a body the block that is there when the body is
received was taken for it.
-/

namespace CppLinuxLearn.Solcom

open Lib Steps

/-- The bytes that `alloc_cb` offers lie in the block. -/
def RecvState.Offered (s : RecvState) : Prop :=
  0 ≤ s.alloc_cb.2 ∧ 0 ≤ s.alloc_cb.1 ∧ s.alloc_cb.2 + s.alloc_cb.1 ≤ s.recvBuffer.CharArray.length

/-- The invariant: there is room for what is needed, and a head that is waited for ends at its size. -/
structure Roomy (s : RecvState) : Prop where
  left : s.recvBuffer.nLeft = 0
  right : 0 ≤ s.recvBuffer.nRight
  need : 0 ≤ s.nNeedRead
  room : s.recvBuffer.nRight + s.nNeedRead ≤ s.recvBuffer.pCharArr.length
  slot : IsSlot s.recvBuffer
  head : s.recvStat = .Type_RecvHead → s.recvBuffer.nRight + s.nNeedRead = 12

theorem Roomy.offered {s : RecvState} (h : Roomy s) : s.Offered := ⟨h.right, h.need, h.room⟩

theorem roomy_init {b : CByteArray} (hb : IsSlot b) (stat : ERecvStatType) :
    Roomy ⟨b.Init, stat, PackageHeadLen⟩ := by
  have hcap := hb.capacity
  have hroom := hb.room
  refine ⟨rfl, le_rfl, Int.natCast_nonneg _, ?_, ⟨hcap, hroom⟩, fun _ => rfl⟩
  show (0 : Int) + (12 : Nat) ≤ b.pCharArr.length
  omega

theorem roomy_new (junk : Nat → UInt8) : Roomy (.new junk) := by
  have h := roomy_init (isSlot_new junk) .Type_RecvHead
  rw [RecvState.new]
  rw [CByteArray.new_default] at h ⊢
  generalize Block.alloc junk 1424 = block at h ⊢
  exact h

/-! ## One read -/

theorem intercepts_eq_some {ns : List Nat} {b b' : CByteArray} {d : Bytes} (h : intercepts ns b = some (d, b')) :
    b' = { b with nLeft := b.nLeft + ns.sum } := by
  induction ns generalizing b d with
  | nil =>
    cases h
    simp
  | cons n ns ih =>
    obtain ⟨⟨d₁, b₁⟩, hhead, h⟩ := Option.bind_eq_some_iff.1 h
    obtain ⟨data, -, hhead⟩ := Option.bind_eq_some_iff.1 hhead
    obtain ⟨rfl, rfl⟩ := Prod.mk.inj (Option.some.inj hhead)
    obtain ⟨⟨d₂, b₂⟩, hrest, h⟩ := Option.bind_eq_some_iff.1 h
    obtain ⟨rfl, rfl⟩ := Prod.mk.inj (Option.some.inj h)
    rw [ih hrest, List.sum_cons, Nat.cast_add, Int.add_assoc]

theorem deserialize_eq_some {c : CommandClass} {cmd : Command} {b b' : CByteArray}
    (h : c.Deserialize b = some (cmd, b')) : b' = { b with nLeft := b.nLeft + c.fields.sum } := by
  obtain ⟨⟨d, b₁⟩, hint, h⟩ := Option.bind_eq_some_iff.1 h
  cases h
  exact intercepts_eq_some hint

theorem handle_eq_some {r : Receiver} {b b' : CByteArray} {cmd : Option Command} (h : r.handle b = some (cmd, b')) :
    ∃ nLeft, b' = { b with nLeft := nLeft } := by
  by_cases hr : r = .client false
  · subst hr
    cases h
    exact ⟨b.nLeft, rfl⟩
  · rw [handle_eq_reqHandle hr, SolcomApi.reqHandle, if_pos rfl] at h
    obtain ⟨objType, -, h⟩ := Option.bind_eq_some_iff.1 h
    obtain ⟨c, -, h⟩ := Option.bind_eq_some_iff.1 h
    obtain ⟨⟨cmd', b₁⟩, hdec, h⟩ := Option.bind_eq_some_iff.1 h
    cases h
    exact ⟨_, deserialize_eq_some hdec⟩

theorem handle_slot (r : Receiver) {b b' : CByteArray} {cmd : Option Command} (hb : IsSlot b)
    (h : r.handle b = some (cmd, b')) : IsSlot b' := by
  obtain ⟨nLeft, rfl⟩ := handle_eq_some h
  exact ⟨hb.capacity, hb.room⟩

theorem makeRoom_eq_some {b b' : CByteArray} {junk : Nat → UInt8} {n : Nat} (hb : IsSlot b)
    (hn : n + 12 < 2 ^ 31) (h : b.makeRoom junk n = some b') :
    ∃ pCharArr, b' = { b with pCharArr := pCharArr } ∧ n + 12 ≤ pCharArr.length ∧ 1424 ≤ pCharArr.length := by
  have hcap := hb.capacity
  have hroom := hb.room
  have hcast : (n : Int) + PackageHeadLen = (n + 12 : Nat) := rfl
  rw [CByteArray.makeRoom, hcast, toInt_eq hn] at h
  by_cases hlt : b.Capacity < (n + 12 : Nat)
  · rw [if_pos hlt] at h
    have hlt : b.nCapacity < (n + 12 : Nat) := hlt
    obtain ⟨pNewArr, rfl, hlen⟩ := CByteArray.reallocate_eq_some hlt h
    exact ⟨pNewArr, rfl, by omega, by omega⟩
  · rw [if_neg hlt] at h
    have hlt : ¬ b.nCapacity < (n + 12 : Nat) := hlt
    exact ⟨b.pCharArr, (Option.some.inj h).symm, by omega, by omega⟩

theorem complete_roomy (r : Receiver) {s s' : RecvState} {junk : Nat → UInt8} {b : CByteArray} {hs : List Handed}
    (hleft : b.nLeft = 0) (hb : IsSlot b) (hhead : s.recvStat = .Type_RecvHead → b.nRight = 12)
    (h : r.complete junk s b = some (s', hs)) : Roomy s' := by
  obtain ⟨⟨pkghead, b₁⟩, hdec, h⟩ := Option.bind_eq_some_iff.1 h
  obtain ⟨⟨d, b₂⟩, hint, hdec⟩ := Option.bind_eq_some_iff.1 hdec
  obtain ⟨data, -, hint⟩ := Option.bind_eq_some_iff.1 hint
  obtain ⟨rfl, rfl⟩ := Prod.mk.inj (Option.some.inj hint)
  obtain ⟨rfl, rfl⟩ := Prod.mk.inj (Option.some.inj hdec)
  dsimp only at h
  split at h
  · rename_i hstat
    obtain ⟨b₃, hmake, h⟩ := Option.bind_eq_some_iff.1 h
    cases h
    have hsmall : (ofBytes data : PackageHeadField).pkgBodyLen.toNat < 2 ^ 16 := BitVec.isLt _
    have hint : (ofBytes data : PackageHeadField).pkgBodyLen.toNat + 12 < 2 ^ 31 := by omega
    have hslot : IsSlot (CByteArray.LeftBackward PackageHeadLen { b with nLeft := b.nLeft + PackageHeadLen }) :=
      ⟨hb.capacity, hb.room⟩
    obtain ⟨pCharArr, rfl, hbody, hmin⟩ := makeRoom_eq_some hslot hint hmake
    have hright := hhead hstat
    refine ⟨?_, ?_, Int.natCast_nonneg _, ?_, ⟨hb.capacity, ?_⟩, nofun⟩
    · show b.nLeft + PackageHeadLen - PackageHeadLen = 0
      omega
    · show 0 ≤ b.nRight
      omega
    · show b.nRight + (ofBytes data : PackageHeadField).pkgBodyLen.toNat ≤ (pCharArr.length : Int)
      omega
    · show b.nCapacity ≤ (pCharArr.length : Int)
      have := hb.capacity
      omega
  · obtain ⟨⟨cmd, buf⟩, hhandle, h⟩ := Option.bind_eq_some_iff.1 h
    cases h
    have hslot : IsSlot { b with nLeft := b.nLeft + PackageHeadLen } := ⟨hb.capacity, hb.room⟩
    exact roomy_init (handle_slot r hslot hhandle) .Type_RecvHead

theorem Roomy.receive {r : Receiver} {s s' : RecvState} {rd : Read} {hs : List Handed} (h : Roomy s)
    (hlen : (rd.data.length : Int) ≤ s.alloc_cb.1) (hr : r.receive s rd = some (s', hs)) : Roomy s' := by
  obtain ⟨pCharArr, hstore, hr⟩ := Option.bind_eq_some_iff.1 hr
  have hsize : pCharArr.length = s.recvBuffer.pCharArr.length := Block.length_of_store hstore
  have hslot : IsSlot { s.recvBuffer with pCharArr } := ⟨h.slot.capacity, hsize ▸ h.slot.room⟩
  have hlen : (rd.data.length : Int) ≤ s.nNeedRead := hlen
  have hright := h.right
  have hneed := h.need
  have hroom := h.room
  by_cases hn : 0 < rd.data.length
  · rw [read_cb_eq r rd.junk hn] at hr
    split at hr
    · rename_i hall
      have hall : (rd.data.length : Int) = s.nNeedRead := hall
      refine complete_roomy r (b := CByteArray.RightForward rd.data.length { s.recvBuffer with pCharArr })
        h.left ⟨hslot.capacity, hslot.room⟩ (fun hstat => ?_) hr
      have hhead := h.head hstat
      show s.recvBuffer.nRight + rd.data.length = 12
      omega
    · cases hr
      refine ⟨h.left, ?_, ?_, ?_, ⟨hslot.capacity, hslot.room⟩, fun hstat => ?_⟩
      · show 0 ≤ s.recvBuffer.nRight + rd.data.length
        omega
      · show 0 ≤ s.nNeedRead - rd.data.length
        omega
      · show s.recvBuffer.nRight + rd.data.length + (s.nNeedRead - rd.data.length) ≤ (pCharArr.length : Int)
        omega
      · have hhead := h.head hstat
        show s.recvBuffer.nRight + rd.data.length + (s.nNeedRead - rd.data.length) = 12
        omega
  · have hzero : rd.data.length = 0 := by omega
    have hsame : r.read_cb rd.junk 0 { s with recvBuffer := { s.recvBuffer with pCharArr } } =
        some ({ s with recvBuffer := { s.recvBuffer with pCharArr } }, []) := by
      cases r <;> rfl
    rw [hzero, hsame] at hr
    cases hr
    refine ⟨h.left, h.right, h.need, ?_, hslot, h.head⟩
    show s.recvBuffer.nRight + s.nNeedRead ≤ (pCharArr.length : Int)
    omega

/-! ## The server -/

namespace Server

/-- The receive states of all clients. -/
def recvStates (s : Server) : List RecvState := s.clients.map (·.toRecvState)

section
variable {s : Server} {i : Nat}

theorem recvStates_modifyClient {f : SolConnClient → SolConnClient}
    (hf : ∀ c, (f c).toRecvState = c.toRecvState) : (s.modifyClient i f).recvStates = s.recvStates := by
  refine List.ext_getElem? fun j => ?_
  rw [recvStates, modifyClient, recvStates, List.getElem?_map, List.getElem?_map, List.getElem?_modify]
  cases s.clients[j]? with
  | none => rfl
  | some c =>
    show some (if i = j then f c else c).toRecvState = some c.toRecvState
    split
    · rw [hf]
    · rfl

theorem recvStates_closeClient (s : Server) (i : Nat) : (s.closeClient i).recvStates = s.recvStates := by
  unfold closeClient
  split
  · exact recvStates_modifyClient (f := fun c => { c with bConnected := false }) fun _ => rfl
  · rfl

theorem recvStates_closeAll (s : Server) (is : List Nat) : (s.closeAll is).recvStates = s.recvStates := by
  induction is generalizing s with
  | nil => rfl
  | cons i is ih => exact (ih (s.closeClient i)).trans (recvStates_closeClient s i)

theorem recvStates_req_write_cb (status : Int) (tnow : BitVec 64) :
    (s.req_write_cb i status tnow).recvStates = s.recvStates := by
  have hinit := recvStates_modifyClient (s := s) (i := i)
    (f := fun c => { c with reqBuffer := (c.reqBuffer.1.Init, false) }) fun _ => rfl
  unfold req_write_cb
  split
  · split
    · exact (recvStates_closeClient _ i).trans hinit
    · exact hinit
  · exact (recvStates_modifyClient (f := fun c => { c with lastWrite := tnow }) fun _ => rfl).trans hinit

theorem recvStates_idle_cb (s : Server) : s.idle_cb.recvStates = s.recvStates := by
  obtain ⟨writes, listWevent, hwrite, -⟩ := writeHandle_spec s
  unfold idle_cb
  simp only [hwrite]
  split
  · exact recvStates_closeAll _ _
  · rfl

theorem recvStates_workStep {t : Server} {n : Nat} {msg : ISerializable} {junk : Nat → UInt8}
    (h : s.workStep n msg junk = some t) : t.recvStates = s.recvStates := by
  obtain ⟨task, client, -, -, hstep⟩ := workStep_cases h
  cases hstep with
  | setting => exact recvStates_modifyClient (f := fun c => { c with reqBuffer := (c.reqBuffer.1, true) }) fun _ => rfl
  | encoding _ byteArr =>
    exact recvStates_modifyClient (f := fun c => { c with reqBuffer := (byteArr, c.reqBuffer.2) }) fun _ => rfl
  | _ => rfl

theorem step_recvStates {t : Server} {a : ServerAction} (h : s.step a = some t) :
    t.recvStates = s.recvStates ∨ (∃ junk, t.recvStates = s.recvStates ++ [.new junk]) ∨
      ∃ (i : Nat) (c : SolConnClient) (rd : Read) (p : RecvState × List Handed), s.clients[i]? = some c ∧
        (rd.data.length : Int) ≤ c.alloc_cb.1 ∧ Receiver.receive .server c.toRecvState rd = some p ∧
        t.recvStates = s.recvStates.modify i fun _ => p.1 := by
  cases a with
  | Start =>
    obtain ⟨-, h⟩ := Option.ite_none_left_eq_some.1 h
    obtain rfl := Option.some.inj h
    exact .inl rfl
  | Stop =>
    obtain rfl := Option.some.inj h
    exact .inl rfl
  | connect_cb accepted strKey tnow junk junk' =>
    obtain ⟨-, h⟩ := Option.ite_none_right_eq_some.1 h
    obtain rfl := Option.some.inj h
    refine .inr (.inl ⟨junk, ?_⟩)
    unfold connect_cb
    split
    · dsimp only
      split <;> simp [recvStates]
    · simp [recvStates]
  | read_cb i rd tnow =>
    obtain ⟨⟨-, -, hany⟩, h⟩ := Option.ite_none_right_eq_some.1 h
    obtain ⟨c, hc, h⟩ := Option.bind_eq_some_iff.1 h
    obtain ⟨p, hp, h⟩ := Option.bind_eq_some_iff.1 h
    obtain rfl := Option.some.inj h
    rw [hc, Option.any_some, decide_eq_true_eq] at hany
    refine .inr (.inr ⟨i, c, rd, p, hc, hany, hp, ?_⟩)
    refine List.ext_getElem? fun j => ?_
    show ((s.clients.modify i _).map _)[j]? = _
    rw [List.getElem?_map, List.getElem?_modify, List.getElem?_modify, recvStates, List.getElem?_map]
    cases s.clients[j]? with
    | none => rfl
    | some c =>
      show some (if i = j then _ else c).toRecvState = some (if i = j then p.1 else c.toRecvState)
      split <;> rfl
  | read_error i nread =>
    obtain ⟨-, h⟩ := Option.ite_none_right_eq_some.1 h
    obtain rfl := Option.some.inj h
    unfold read_error
    split
    · exact .inl (recvStates_closeClient s i)
    · exact .inl rfl
  | req_write_cb i status tnow =>
    obtain ⟨-, h⟩ := Option.ite_none_right_eq_some.1 h
    obtain rfl := Option.some.inj h
    exact .inl (recvStates_req_write_cb status tnow)
  | closed i =>
    obtain ⟨-, h⟩ := Option.ite_none_right_eq_some.1 h
    obtain rfl := Option.some.inj h
    exact .inl rfl
  | hbt_timer_cb tnow =>
    obtain ⟨-, h⟩ := Option.ite_none_right_eq_some.1 h
    obtain rfl := Option.some.inj h
    exact .inl (recvStates_closeAll s _)
  | idle_cb =>
    obtain ⟨-, h⟩ := Option.ite_none_right_eq_some.1 h
    obtain rfl := Option.some.inj h
    exact .inl (recvStates_idle_cb s)
  | work_cb n msg junk => exact .inl (recvStates_workStep h)
  | after_work_cb n =>
    obtain ⟨-, h⟩ := Option.ite_none_right_eq_some.1 h
    obtain rfl := Option.some.inj h
    exact .inl rfl

/-- There is room for what any client needs. -/
def AllRoomy (s : Server) : Prop := ∀ r ∈ s.recvStates, Roomy r

theorem AllRoomy.step {t : Server} {a : ServerAction} (hs : s.AllRoomy) (h : s.step a = some t) : t.AllRoomy := by
  intro r hr
  rcases step_recvStates h with heq | ⟨junk, heq⟩ | ⟨i, c, rd, p, hc, hlen, hp, heq⟩ <;> rw [heq] at hr
  · exact hs r hr
  · rcases List.mem_append.1 hr with hr | hr
    · exact hs r hr
    · rw [List.mem_singleton.1 hr]
      exact roomy_new junk
  · obtain ⟨j, hj⟩ := List.mem_iff_getElem?.1 hr
    rw [List.getElem?_modify] at hj
    obtain ⟨r', hr', hj⟩ := Option.map_eq_some_iff.1 hj
    split at hj
    · rw [← hj]
      have hmem : c.toRecvState ∈ s.recvStates := List.mem_map.2 ⟨c, List.mem_of_getElem? hc, rfl⟩
      exact (hs _ hmem).receive hlen hp
    · rw [← hj]
      exact hs r' (List.mem_of_getElem? hr')

end

end Server

/-! ## The client -/

namespace Connection

/-- There is room in every state, also on a connection that begins between a head and its body. -/
theorem roomy_step {s t : Connection} {a : UvAction} (hs : Roomy s.toRecvState) (h : s.step a = some t) :
    Roomy t.toRecvState := by
  cases step_effect h with
  | quiet hq => exact hq.recv ▸ hs
  | connected hpos hrecv => exact hrecv ▸ roomy_init hs.slot s.recvStat
  | read hconn hlen hread =>
    obtain ⟨p, hp, rfl⟩ := Option.map_eq_some_iff.1 hread
    exact hs.receive hlen hp
  | written hne hrecv => exact hrecv ▸ hs
  | idle hidle =>
    obtain ⟨sendCache, lastWrite, b, calls, connecting, idle, hb, rfl⟩ := idle_cb_eq hidle
    rw [writeReq]
    split
    · exact hs
    · split <;> exact hs

end Connection

/-- **In every state that a server or a client can reach, over any number of connections and whatever is
received, what `alloc_cb` offers lies in the block of the receive buffer.** -/
theorem offered_of_run :
    (∀ (as : List ServerAction) (t : Server), run Server.step .new as = some t →
      ∀ c ∈ t.clients, c.toRecvState.Offered) ∧
    ∀ (junk : Nat → Nat → UInt8) (solcomSpi : Bool) (servAddr : Bytes) (as : List UvAction) (t : Connection),
      run Connection.step (.new junk solcomSpi servAddr) as = some t → t.toRecvState.Offered := by
  constructor
  · intro as t h c hc
    have hall : t.AllRoomy := run_invariant (fun _ _ _ hs ht => hs.step ht) (fun r hr => by cases hr) h
    exact (hall _ (List.mem_map.2 ⟨c, hc, rfl⟩)).offered
  · intro junk solcomSpi servAddr as t h
    have hnew : Roomy (Connection.new junk solcomSpi servAddr).toRecvState := roomy_new (junk 128)
    have hroomy := run_invariant (I := fun s : Connection => Roomy s.toRecvState)
      (fun _ _ _ hs ht => Connection.roomy_step hs ht) hnew h
    exact hroomy.offered

/-- The head of a large package, part of its body, and a second client. -/
def largeHead : List ServerAction :=
  [.connect_cb true (text "10.0.0.1:4000") 0 (fun _ => 0) fun _ => 0,
    .read_cb 0 ⟨Pod.bytes (⟨1, 0, 2000, 7⟩ : PackageHeadField), fun _ => 0⟩ 1, .read_cb 0 ⟨[2, 0, 0], fun _ => 0⟩ 1,
    .connect_cb true (text "10.0.0.2:4000") 2 (fun _ => 0) fun _ => 0]

theorem largeHead_runs : (run Server.step .new largeHead).isSome = true := by
  decide +kernel

theorem offered_of_run_largeHead : ∃ t, run Server.step .new largeHead = some t ∧
    ∀ c ∈ t.clients, c.toRecvState.Offered := by
  obtain ⟨t, ht⟩ := Option.isSome_iff_exists.1 largeHead_runs
  exact ⟨t, ht, offered_of_run.1 largeHead t ht⟩

end CppLinuxLearn.Solcom
