import CppLinuxLearn.Solcom.Capacity
import CppLinuxLearn.Solcom.PostWait

/-!
# The size of a message

`ISerializable::dataSize` is the size of the base class, whatever the class of the message is. A message of a class
that inherits it asks for no room: it fits where the block is large enough as it is, from the constructor or from an
earlier message that had a size of its own.
-/

namespace CppLinuxLearn.Solcom

open Lib Steps

/-- `ISerializable::dataSize()`, the `sizeof(*this)` of a pointer to the virtual functions and a byte. -/
def ISerializable.sizeofThis : Int := 16

/-- A message that was put into a buffer, and what its call used. -/
structure Posted where
  junk : Nat → UInt8
  msg : ISerializable
  requestID : CInt
  reqRtn : EPkgReqRtnType

/-- Both `postMsg` build the package in the buffer in the same way. -/
def Posted.step (b : CByteArray) (p : Posted) : Option CByteArray := encode p.junk p.msg p.requestID p.reqRtn b

/-- The check of the capacity, which stays that of the constructor, leads to a new block. -/
def Asks (n : Int) : Prop := 1424 < n + PackageHeadLen ∧ 1424 < toInt (n + PackageHeadLen)

instance (n : Int) : Decidable (Asks n) := inferInstanceAs (Decidable (_ ∧ _))

/-- The size of the block after the messages. -/
def blockSize (earlier : List Posted) : Nat :=
  earlier.foldl (fun size p =>
    if Asks p.msg.dataSize then (toInt (p.msg.dataSize + PackageHeadLen)).toNat else size) 1424

/-- `SolConnClient::postMsg` for any message: what is returned, and the buffer. -/
def SolConnClient.postMsg (live : Bool) (second : Nat → Bool) (fuel : Nat) (p : Posted) (timeout : CInt)
    (byteArr : CByteArray) : Option (Int × CByteArray) :=
  if live then do
    let k ← waitLoop second timeout 0 fuel 0
    if second (k + 1) then some (-1, byteArr)
    else do
      let byteArr ← p.step byteArr
      some (0, byteArr)
  else some (-2, byteArr)

variable {b b' : CByteArray} {earlier : List Posted} {p : Posted}

theorem PostCall.map_ret_postMsg (c : PostCall) (junk : Nat → UInt8) (second : Nat → Bool) (fuel : Nat) :
    (c.postMsg junk second fuel).map PostReturn.ret =
      (SolConnClient.postMsg c.live second fuel ⟨junk, c.msg.serialized, c.requestID, c.reqRtn⟩ c.timeout
        c.byteArr).map Prod.fst := by
  rw [PostCall.postMsg, SolConnClient.postMsg]
  cases c.live with
  | false => rfl
  | true =>
    simp only [if_true, Option.bind_eq_bind]
    cases waitLoop second c.timeout 0 fuel 0 with
    | none => rfl
    | some k =>
      simp only [Option.bind_some]
      cases second (k + 1) with
      | true => rfl
      | false =>
        simp only [Bool.false_eq_true, if_false, Posted.step]
        cases encode junk c.msg.serialized c.requestID c.reqRtn c.byteArr <;> rfl

/-! ## The block -/

theorem CByteArray.length_append {data : Bytes} (h : b.Append data = some b') :
    b'.pCharArr.length = b.pCharArr.length := by
  obtain ⟨block, hstore, h⟩ := Option.bind_eq_some_iff.1 h
  obtain rfl := Option.some.inj h
  exact Block.length_of_store hstore

theorem ISerializable.length_serialize (msg : ISerializable) (h : msg.Serialize b = some b') :
    b'.pCharArr.length = b.pCharArr.length := by
  rw [Serialize] at h
  generalize msg.appends = ds at h
  induction ds generalizing b with
  | nil =>
    obtain rfl := Option.some.inj h
    rfl
  | cons d ds ih =>
    obtain ⟨b₁, hb₁, hrest⟩ := Option.bind_eq_some_iff.1 h
    exact (ih hrest).trans (CByteArray.length_append hb₁)

theorem length_makeRoom (hb : IsSlot b) {junk : Nat → UInt8} {n : Int} (h : b.Init.makeRoom junk n = some b') :
    b'.pCharArr.length = if Asks n then (toInt (n + PackageHeadLen)).toNat else b.pCharArr.length := by
  have hcap : b.Init.nCapacity = 1424 := hb.capacity
  have hsame : b.Init.pCharArr.length = b.pCharArr.length := rfl
  by_cases hask : Asks n
  · have hgrow : b.Init.nCapacity < toInt (n + PackageHeadLen) := by
      rw [hcap]
      exact hask.2
    rw [CByteArray.makeRoom, CByteArray.Capacity, hcap, if_pos hask.1] at h
    obtain ⟨block, rfl, hlen⟩ := CByteArray.reallocate_eq_some hgrow h
    rw [if_pos hask]
    exact hlen
  · have hkeep : b.Init.makeRoom junk n = some b.Init := by
      rw [CByteArray.makeRoom, CByteArray.Reallocate, CByteArray.Capacity, hcap]
      by_cases hlt : 1424 < n + PackageHeadLen
      · rw [if_pos hlt, if_neg fun hgt => hask ⟨hlt, hgt⟩]
      · rw [if_neg hlt]
    obtain rfl := Option.some.inj (hkeep.symm.trans h)
    rw [if_neg hask, hsame]

theorem length_step (hb : IsSlot b) (h : p.step b = some b') :
    b'.pCharArr.length =
      if Asks p.msg.dataSize then (toInt (p.msg.dataSize + PackageHeadLen)).toNat else b.pCharArr.length := by
  obtain ⟨b₁, hmake, h⟩ := Option.bind_eq_some_iff.1 h
  obtain ⟨b₂, hbody, h⟩ := Option.bind_eq_some_iff.1 h
  obtain ⟨block, hstore, h⟩ := Option.bind_eq_some_iff.1 h
  obtain rfl := Option.some.inj h
  rw [← length_makeRoom hb hmake]
  have hserialized := ISerializable.length_serialize p.msg hbody
  exact (Block.length_of_store hstore).trans hserialized

theorem CByteArray.length_new (junk : Nat → UInt8) : (CByteArray.new junk 1424).pCharArr.length = 1424 := by
  have hnew := CByteArray.new_default junk
  have hlen : (Block.alloc junk 1424).length = 1424 := Block.length_alloc junk 1424
  generalize Block.alloc junk 1424 = block at hnew hlen
  rw [hnew]
  exact hlen

/-- After any messages the buffer has the capacity of the constructor and the block of the last request. -/
theorem run_posted {junk : Nat → UInt8} (h : run Posted.step (.new junk 1424) earlier = some b) :
    IsSlot b ∧ b.pCharArr.length = blockSize earlier := by
  have hnew := CByteArray.length_new junk
  have hslot := isSlot_new junk
  rw [blockSize]
  generalize hsize : (1424 : Nat) = size at hnew ⊢
  clear hsize
  generalize CByteArray.new junk 1424 = b₀ at h hnew hslot
  induction earlier generalizing b₀ size with
  | nil =>
    obtain rfl := Option.some.inj h
    exact ⟨hslot, hnew⟩
  | cons p earlier ih =>
    obtain ⟨b₁, hb₁, hrest⟩ := run_cons h
    refine ih _ b₁ hrest ?_ (encode_some hslot hb₁).1
    rw [length_step hslot hb₁, hnew]

theorem not_asks_sizeofThis : ¬ Asks ISerializable.sizeofThis := by decide

/-- **The bytes and the head stay inside the block exactly if they fit in the block as it is.** -/
theorem isSome_step (hb : IsSlot b) (hsize : p.msg.dataSize = ISerializable.sizeofThis) :
    (p.step b).isSome ↔ p.msg.body.length + 12 ≤ b.pCharArr.length := by
  obtain ⟨b₁, hb₁, hholds, hleft, hcap⟩ := makeRoom_slot hb p.junk p.msg.dataSize
  obtain ⟨hyes, hno⟩ := encode_of_makeRoom hb₁ hholds hleft hcap p.requestID p.reqRtn
  have hlen := length_makeRoom hb hb₁
  rw [hsize, if_neg not_asks_sizeofThis] at hlen
  rw [hlen] at hyes hno
  constructor
  · intro h
    by_contra hroom
    rw [Posted.step, hno hroom] at h
    cases h
  · intro h
    obtain ⟨b', hb', -⟩ := hyes h
    exact Option.isSome_iff_exists.2 ⟨b', hb'⟩

/-! ## Both functions -/

theorem isSome_postMsg {s : SendState} {i : Nat} (hconn : s.bConnected = true) (hal : s.sendCache.allocate = some i)
    (hb : s.sendCache.elements[i]? = some b) :
    (postMsg p.junk p.msg p.requestID p.reqRtn s).isSome = (p.step b).isSome := by
  rw [postMsg, hconn, hal]
  simp only [Bool.not_true, Bool.false_eq_true, if_false, hb, Option.bind_eq_bind, Option.bind_some, Posted.step]
  cases encode p.junk p.msg p.requestID p.reqRtn b <;> rfl

theorem isSome_postMsg_client {second : Nat → Bool} {fuel k : Nat} {timeout : CInt}
    (hwait : waitLoop second timeout 0 fuel 0 = some k) (hclear : second (k + 1) = false) :
    (SolConnClient.postMsg true second fuel p timeout b).isSome = (p.step b).isSome := by
  rw [SolConnClient.postMsg, hwait]
  simp only [if_true, Option.bind_eq_bind, Option.bind_some, hclear, Bool.false_eq_true, if_false]
  cases p.step b <;> rfl

/-- **No write outside the block.** For a message that inherits `dataSize` and any earlier messages through the same
buffer, both `postMsg` stay inside the block exactly if the head and the bytes fit in what the constructor or the last
larger request of an earlier message has allocated. -/
theorem postMsg_inside_iff {junk : Nat → UInt8} {earlier : List Posted} {b : CByteArray}
    (hrun : run Posted.step (.new junk 1424) earlier = some b) (p : Posted)
    (hsize : p.msg.dataSize = ISerializable.sizeofThis) :
    (∀ (s : SendState) i, s.bConnected = true → s.sendCache.allocate = some i → s.sendCache.elements[i]? = some b →
      ((postMsg p.junk p.msg p.requestID p.reqRtn s).isSome ↔ p.msg.body.length + 12 ≤ blockSize earlier)) ∧
    ∀ second fuel k timeout, waitLoop second timeout 0 fuel 0 = some k → second (k + 1) = false →
      ((SolConnClient.postMsg true second fuel p timeout b).isSome ↔ p.msg.body.length + 12 ≤ blockSize earlier) := by
  obtain ⟨hslot, hlen⟩ := run_posted hrun
  have hstep := isSome_step hslot hsize
  rw [hlen] at hstep
  refine ⟨fun s i hconn hal hb => ?_, fun second fuel k timeout hwait hclear => ?_⟩
  · rw [isSome_postMsg hconn hal hb]
    exact hstep
  · rw [isSome_postMsg_client hwait hclear]
    exact hstep

/-- A command that appends its type and a text of `n` characters. -/
def textCommand (n : Nat) : Posted := ⟨fun _ => 0, ⟨[[2], List.replicate n 0x61], 16⟩, 0, .Type_Req⟩

theorem length_textCommand (n : Nat) : (textCommand n).msg.body.length = n + 1 := by
  simp [ISerializable.body, textCommand]

/-- A command of a class with a `dataSize` of its own, more than the constructor has allocated. -/
def largeCommand : Posted := ⟨fun _ => 0, ⟨[[2]], 2000⟩, 0, .Type_Req⟩

theorem largeCommand_isSome : (run Posted.step (.new (fun _ => 0) 1424) [largeCommand]).isSome := by decide +kernel

/-- Behind a message that had the block enlarged, 1413 bytes have room. -/
theorem postMsg_inside_iff_large : ∃ b, run Posted.step (.new (fun _ => 0) 1424) [largeCommand] = some b ∧
    (∀ (s : SendState) i, s.bConnected = true → s.sendCache.allocate = some i → s.sendCache.elements[i]? = some b →
      ((postMsg (fun _ => 0) (textCommand 1412).msg 0 .Type_Req s).isSome ↔ 1413 + 12 ≤ 2012)) ∧
    ∀ second fuel k timeout, waitLoop second timeout 0 fuel 0 = some k → second (k + 1) = false →
      ((SolConnClient.postMsg true second fuel (textCommand 1412) timeout b).isSome ↔ 1413 + 12 ≤ 2012) := by
  obtain ⟨b, hb⟩ := Option.isSome_iff_exists.1 largeCommand_isSome
  have hsize : blockSize [largeCommand] = 2012 := by decide
  have hinside := postMsg_inside_iff hb (textCommand 1412) rfl
  rw [length_textCommand, hsize] at hinside
  exact ⟨b, hb, hinside⟩

/-- 1413 bytes for a new buffer: the write leaves the block by a byte. -/
theorem textCommand_outside : (textCommand 1412).msg.dataSize = ISerializable.sizeofThis ∧
    (textCommand 1412).msg.body.length = 1413 ∧
      postMsg (fun _ => 0) (textCommand 1412).msg 0 .Type_Req ⟨true, .new 1 fun _ => .new (fun _ => 0) 1424⟩ = none := by
  have hlen : (textCommand 1412).msg.body.length = 1413 := length_textCommand 1412
  have hslot := isSlot_new fun _ => 0
  have hblock := CByteArray.length_new fun _ => 0
  refine ⟨rfl, hlen, ?_⟩
  have hstep : ¬ ((textCommand 1412).step (.new (fun _ => 0) 1424)).isSome := by
    rw [isSome_step hslot rfl, hlen, hblock]
    omega
  rw [← isSome_postMsg (p := textCommand 1412) (s := ⟨true, .new 1 fun _ => .new (fun _ => 0) 1424⟩) (i := 0) rfl rfl rfl]
    at hstep
  exact Option.not_isSome_iff_eq_none.1 hstep

end CppLinuxLearn.Solcom
