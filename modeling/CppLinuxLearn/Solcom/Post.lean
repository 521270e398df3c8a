import CppLinuxLearn.Lib.Steps
import CppLinuxLearn.Solcom.CachedBuffer
import CppLinuxLearn.Solcom.Package

/-!
# Posting a message

`SolcomApi::postMsg`: a slot of the ring is taken, the message is encoded into it behind the space
for the head, the head is put in front, and the tail goes on.
-/

namespace CppLinuxLearn.Solcom

open Lib Steps

def ERR_SUCCESS : Int := 0
def ERR_NETWORK : Int := -1
def ERR_NO_BUFFER : Int := -2

/-! ## Messages -/

/-- What `postMsg` uses of an `ISerializable`. -/
structure ISerializable where
  /-- the bytes of each `Append` that `Serialize` makes -/
  appends : List Bytes
  dataSize : Int

def ISerializable.Serialize (msg : ISerializable) (dstByteArray : CByteArray) : Option CByteArray :=
  msg.appends.foldlM (fun b d => b.Append d) dstByteArray

/-- All that `Serialize` appends. -/
def ISerializable.body (msg : ISerializable) : Bytes := msg.appends.flatten

/-- A message that appends something, and whose `dataSize()`, an `int`, is large enough. -/
structure Message extends ISerializable where
  body_ne_nil : toISerializable.body ≠ []
  length_le : toISerializable.body.length ≤ dataSize
  dataSize_lt : dataSize < 2 ^ 31

def encodeSerializeObj (objSerializable : ISerializable) (byteArr : CByteArray) : Option CByteArray :=
  objSerializable.Serialize byteArr

/-! ## `postMsg` -/

/-- `postMsg` between `allocate` and `tailForward`: the package is built in the slot. -/
def encode (junk : Nat → UInt8) (msg : ISerializable) (requestID : CInt) (reqRtn : EPkgReqRtnType)
    (byteArr : CByteArray) : Option CByteArray := do
  let byteArr ← byteArr.Init.makeRoom junk msg.dataSize
  let pkghead : PackageHeadField := ⟨0, BitVec.ofNat 8 reqRtn.toNat, 0, requestID.signExtend 64⟩
  let byteArr := (byteArr.RightForward PackageHeadLen).LeftForward PackageHeadLen
  let byteArr ← encodeSerializeObj msg byteArr
  let pkghead := { pkghead with pkgBodyLen := BitVec.ofInt 16 (byteArr.RightPos - PackageHeadLen) }
  byteArr.Prepend (Pod.bytes pkghead)

/-- What `postMsg` and the callbacks of the loop share. -/
structure SendState where
  bConnected : Bool
  sendCache : CachedBuffer CByteArray

def postMsg (junk : Nat → UInt8) (msg : ISerializable) (requestID : CInt) (reqRtn : EPkgReqRtnType)
    (s : SendState) : Option (Int × SendState) :=
  if !s.bConnected then some (ERR_NETWORK, s)
  else match s.sendCache.allocate with
    | some i => do
      let byteArr ← s.sendCache.elements[i]?
      let byteArr ← encode junk msg requestID reqRtn byteArr
      some (ERR_SUCCESS, { s with sendCache := (s.sendCache.set i byteArr).tailForward.2 })
    | none => some (ERR_NO_BUFFER, s)

/-- `uv_buf_init(CharArray(), RightPos())` -/
def CByteArray.filled (b : CByteArray) : Bytes := b.CharArray.take b.RightPos.toNat

/-! ## The package -/

/-- The head of the package; the length is cut to 16 bits. -/
def headOf (msg : ISerializable) (requestID : CInt) (reqRtn : EPkgReqRtnType) : PackageHeadField :=
  ⟨0, BitVec.ofNat 8 reqRtn.toNat, BitVec.ofNat 16 msg.body.length, requestID.signExtend 64⟩

def packageOf (msg : ISerializable) (requestID : CInt) (reqRtn : EPkgReqRtnType) : Bytes :=
  Pod.bytes (headOf msg requestID reqRtn) ++ msg.body

/-- A slot as every slot is: the capacity is that of the constructor, and the block is no smaller. -/
structure IsSlot (b : CByteArray) : Prop where
  capacity : b.nCapacity = 1424
  room : b.nCapacity ≤ b.pCharArr.length

theorem isSlot_new (junk : Nat → UInt8) : IsSlot (.new junk 1424) := by
  have hnew := CByteArray.new_default junk
  have hlen : (Block.alloc junk 1424).length = 1424 := Block.length_alloc _ _
  generalize Block.alloc junk 1424 = block at hnew hlen
  rw [hnew]
  refine ⟨rfl, ?_⟩
  show (1424 : Int) ≤ block.length
  omega

/-- The head and the body fit in the block there will be: a new one, unless its size is no `int`. -/
def Room (msg : ISerializable) (b : CByteArray) : Prop :=
  msg.dataSize + 12 < 2 ^ 31 ∨ msg.body.length + 12 ≤ b.pCharArr.length

theorem CByteArray.Holds.filled {b : CByteArray} {content : Bytes} (h : b.Holds content) :
    b.filled = content := by
  rw [CByteArray.filled, CByteArray.RightPos, h.right, Int.toNat_natCast]
  exact h.content

theorem toInt_neg {n : Int} (hlo : 2 ^ 31 ≤ n) (hhi : n < 2 ^ 31 + 12) : toInt n < 0 := by
  rw [toInt, BitVec.toInt_ofInt, Int.bmod_def]
  split <;> omega

theorem encode_of_makeRoom {b b₁ : CByteArray} {msg : ISerializable} {junk : Nat → UInt8}
    (hb₁ : b.Init.makeRoom junk msg.dataSize = some b₁) (hh₁ : b₁.Holds []) (hl₁ : b₁.nLeft = 0)
    (hc₁ : b₁.nCapacity = 1424) (requestID : CInt) (reqRtn : EPkgReqRtnType) :
    (msg.body.length + 12 ≤ b₁.pCharArr.length →
      ∃ b', encode junk msg requestID reqRtn b = some b' ∧ IsSlot b' ∧
        b'.filled = packageOf msg requestID reqRtn) ∧
    (¬ msg.body.length + 12 ≤ b₁.pCharArr.length → encode junk msg requestID reqRtn b = none) := by
  have hlen₁ := hh₁.room
  -- the space for the head
  have hfront : (b₁.pCharArr.take 12).length = 12 := by
    rw [List.length_take]
    omega
  have hh₂ : ((b₁.RightForward PackageHeadLen).LeftForward PackageHeadLen).Holds
      (b₁.pCharArr.take 12) := by
    refine ⟨hlen₁, ?_, ?_⟩
    · show b₁.nRight + PackageHeadLen = _
      rw [hh₁.right, hfront]
      rfl
    · rw [hfront]
      rfl
  have hl₂ : ((b₁.RightForward PackageHeadLen).LeftForward PackageHeadLen).nLeft = 12 := by
    show b₁.nLeft + PackageHeadLen = _
    rw [hl₁]
    rfl
  rw [encode, hb₁]
  simp only [Option.bind_eq_bind, Option.bind_some, encodeSerializeObj, ISerializable.Serialize]
  constructor
  · intro h
    obtain ⟨b₃, hb₃, hh₃, hl₃, hc₃, hlen₃⟩ := hh₂.appendAll msg.appends (by
      rw [hfront, Nat.add_comm]
      exact h)
    have hbody : BitVec.ofInt 16 (b₃.RightPos - PackageHeadLen) = BitVec.ofNat 16 msg.body.length := by
      have hright : b₃.RightPos - PackageHeadLen = (msg.body.length : Int) := by
        have hlen : msg.body.length = msg.appends.flatten.length := rfl
        show b₃.nRight - (12 : Nat) = _
        rw [hh₃.right, List.length_append, hfront, hlen]
        omega
      rw [hright]
      rfl
    obtain ⟨b₄, hb₄, hh₄, -, hc₄, -⟩ := hh₃.prepend
      (Pod.bytes (headOf msg requestID reqRtn))
      (by rw [hl₃, hl₂, hfront]; rfl) (by rw [hfront, length_bytes, size_head])
    rw [hb₃]
    simp only [Option.bind_some, hbody]
    exact ⟨b₄, hb₄, ⟨hc₄.trans (hc₃.trans hc₁), hh₄.room⟩, hh₄.filled⟩
  · intro h
    have hnone := hh₂.appendAll_eq_none msg.appends (by
      rw [hfront, Nat.add_comm]
      exact not_le.1 h)
    rw [hnone]
    rfl

theorem makeRoom_slot {b : CByteArray} (hb : IsSlot b) (junk : Nat → UInt8) (n : Int) :
    ∃ b', b.Init.makeRoom junk n = some b' ∧ b'.Holds [] ∧ b'.nLeft = 0 ∧ b'.nCapacity = 1424 := by
  have hinit : b.Init.Holds [] := CByteArray.holds_init hb.room
  have hcap : b.Init.nCapacity = 1424 := hb.capacity
  have hkeep : ∃ b', some b.Init = some b' ∧ b'.Holds [] ∧ b'.nLeft = 0 ∧ b'.nCapacity = 1424 :=
    ⟨b.Init, rfl, hinit, rfl, hcap⟩
  rw [CByteArray.makeRoom]
  by_cases hlt : b.Init.Capacity < n + PackageHeadLen
  · rw [if_pos hlt]
    by_cases hgt : toInt (n + PackageHeadLen) > b.Init.nCapacity
    · obtain ⟨m, hm⟩ : ∃ m : Nat, toInt (n + PackageHeadLen) = m :=
        ⟨(toInt (n + PackageHeadLen)).toNat, by omega⟩
      rw [hm] at hgt ⊢
      obtain ⟨b', hb', hholds, hleft, hcap', -⟩ := hinit.reallocate rfl junk hgt (Nat.zero_le _)
      exact ⟨b', hb', hholds, hleft, hcap'.trans hcap⟩
    · rw [CByteArray.Reallocate, if_neg hgt]
      exact hkeep
  · rw [if_neg hlt]
    exact hkeep

/-- An encoding that stays inside the block leaves the package in the slot, for any message. -/
theorem encode_some {b b' : CByteArray} (hb : IsSlot b) {msg : ISerializable} {junk : Nat → UInt8}
    {requestID : CInt} {reqRtn : EPkgReqRtnType} (h : encode junk msg requestID reqRtn b = some b') :
    IsSlot b' ∧ b'.filled = packageOf msg requestID reqRtn := by
  obtain ⟨b₁, hb₁, hh₁, hl₁, hc₁⟩ := makeRoom_slot hb junk msg.dataSize
  obtain ⟨hyes, hno⟩ := encode_of_makeRoom hb₁ hh₁ hl₁ hc₁ requestID reqRtn
  by_cases hr : msg.body.length + 12 ≤ b₁.pCharArr.length
  · obtain ⟨b'', henc, hslot, hfilled⟩ := hyes hr
    obtain rfl := Option.some.inj (henc.symm.trans h)
    exact ⟨hslot, hfilled⟩
  · rw [hno hr] at h
    cases h

section
variable {b : CByteArray} (hb : IsSlot b) (msg : Message) (junk : Nat → UInt8)
include hb

theorem makeRoom_init : ∃ b', b.Init.makeRoom junk msg.dataSize = some b' ∧ b'.Holds [] ∧
    b'.nLeft = 0 ∧ b'.nCapacity = 1424 ∧
    (Room msg.toISerializable b ↔ msg.body.length + 12 ≤ b'.pCharArr.length) := by
  have hle := msg.length_le
  have hlt := msg.dataSize_lt
  have hinit : b.Init.Holds [] := CByteArray.holds_init hb.room
  obtain ⟨n, hn⟩ : ∃ n : Nat, msg.dataSize = n := ⟨msg.dataSize.toNat, by omega⟩
  rw [hn] at hle hlt
  rw [Room, hn]
  by_cases hsmall : n + 12 < 2 ^ 31
  · obtain ⟨b', hb', hholds, hleft, hcap, hroom⟩ := hinit.makeRoom rfl (Nat.zero_le _) junk hsmall
    refine ⟨b', hb', hholds, hleft, hcap.trans hb.capacity, iff_of_true (.inl ?_) ?_⟩ <;> omega
  · have hneg : toInt (n + PackageHeadLen) < 0 := by
      refine toInt_neg ?_ ?_ <;> rw [packageHeadLen_eq] <;> omega
    have hcap : b.Init.nCapacity = 1424 := hb.capacity
    have hnot : ¬ toInt (n + PackageHeadLen) > b.Init.nCapacity := by omega
    have hkeep : b.Init.makeRoom junk n = some b.Init := by
      rw [CByteArray.makeRoom, CByteArray.Reallocate, if_neg hnot, ite_self]
    refine ⟨b.Init, hkeep, hinit, rfl, hb.capacity, ?_⟩
    rw [or_iff_right (by omega)]
    rfl

/-- **Where there is room the slot holds the package, and else `postMsg` writes out of the block.** -/
theorem encode_eq (requestID : CInt) (reqRtn : EPkgReqRtnType) :
    (Room msg.toISerializable b →
      ∃ b', encode junk msg.toISerializable requestID reqRtn b = some b' ∧ IsSlot b' ∧
        b'.filled = packageOf msg.toISerializable requestID reqRtn) ∧
    (¬ Room msg.toISerializable b →
      encode junk msg.toISerializable requestID reqRtn b = none) := by
  obtain ⟨b₁, hb₁, hh₁, hl₁, hc₁, hroom⟩ := makeRoom_init hb msg junk
  rw [hroom]
  exact encode_of_makeRoom hb₁ hh₁ hl₁ hc₁ requestID reqRtn

end

end CppLinuxLearn.Solcom
