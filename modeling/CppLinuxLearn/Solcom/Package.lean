import CppLinuxLearn.Lib.Framing
import CppLinuxLearn.Solcom.ByteArray

/-!
# Packages and commands

`CommonStruct.h`, `PackageCodec.h`, `ISerializable.h`, `SillyCommand.h` and the two ways to get the
command object for a type byte. The head is packed to one byte: 12 bytes without padding.
-/

namespace CppLinuxLearn.Solcom

open Lib

/-- `int` -/
abbrev CInt := BitVec 32

/-! ## The head -/

structure PackageHeadField where
  versionID : BitVec 8
  reqRtnType : BitVec 8
  pkgBodyLen : BitVec 16
  requestID : BitVec 64
deriving DecidableEq

instance : Pod PackageHeadField :=
  Pod.via (fun x => (x.versionID, x.reqRtnType, x.pkgBodyLen, x.requestID))
    (fun p => ⟨p.1, p.2.1, p.2.2.1, p.2.2.2⟩) fun _ => rfl

def PackageHeadLen : Nat := Pod.size PackageHeadField

@[simp] theorem size_head : Pod.size PackageHeadField = 12 := rfl

@[simp] theorem packageHeadLen_eq : PackageHeadLen = 12 := rfl

/-- The conversion of a size to `int`. -/
def toInt (n : Int) : Int := (BitVec.ofInt 32 n).toInt

theorem toInt_eq {n : Nat} (h : n < 2 ^ 31) : toInt n = n := by
  rw [toInt, BitVec.toInt_ofInt]
  exact Int.bmod_eq_of_le (by omega) (by omega)

/-- `if (Capacity() < n + PackageHeadLen) Reallocate(n + PackageHeadLen)` -/
def CByteArray.makeRoom (junk : Nat → UInt8) (n : Int) (b : CByteArray) : Option CByteArray :=
  if b.Capacity < n + PackageHeadLen then b.Reallocate junk (toInt (n + PackageHeadLen)) else some b

theorem CByteArray.Holds.makeRoom {b : CByteArray} {q : Bytes} (h : b.Holds q) (hleft : b.nLeft = 0)
    (hq : q.length ≤ 12) (junk : Nat → UInt8) {n : Nat} (hn : n + 12 < 2 ^ 31) :
    ∃ b', b.makeRoom junk n = some b' ∧ b'.Holds q ∧ b'.nLeft = 0 ∧ b'.nCapacity = b.nCapacity ∧
      n + 12 ≤ b'.pCharArr.length := by
  have hcast : (n : Int) + PackageHeadLen = (n + 12 : Nat) := rfl
  rw [CByteArray.makeRoom, hcast, toInt_eq hn]
  by_cases hlt : b.nCapacity < (n + 12 : Nat)
  · obtain ⟨b', hb', hholds, hleft', hcap, hlen⟩ := h.reallocate hleft junk hlt (by omega)
    exact ⟨b', (if_pos hlt).trans hb', hholds, hleft', hcap, hlen.ge⟩
  · have hroom := h.room
    exact ⟨b, if_neg hlt, h, hleft, rfl, by omega⟩

/-- request and push -/
inductive EPkgReqRtnType
  | Type_Req | Type_Rtn
deriving DecidableEq, Repr

def EPkgReqRtnType.toNat : EPkgReqRtnType → Nat
  | Type_Req => 0
  | Type_Rtn => 1

/-- what the receiver waits for -/
inductive ERecvStatType
  | Type_RecvHead | Type_RecvBody
deriving DecidableEq, Repr

/-- A head and as many bytes as it says, at least one. -/
structure Package where
  head : PackageHeadField
  body : Bytes
  length_body : body.length = head.pkgBodyLen.toNat
  body_ne_nil : body ≠ []

def Package.bytes (p : Package) : Bytes := Pod.bytes p.head ++ p.body

/-- How packages are cut from a stream. -/
def framing : Framing where
  headLen := PackageHeadLen
  bodyLen hd := (ofBytes hd : PackageHeadField).pkgBodyLen.toNat
  headLen_pos := by decide

@[simp] theorem framing_headLen : framing.headLen = 12 := rfl

theorem Package.take_bytes (p : Package) : p.bytes.take 12 = Pod.bytes p.head := by
  rw [Package.bytes, List.take_append_of_le_length (by simp), List.take_of_length_le (by simp)]

theorem Package.drop_bytes (p : Package) : p.bytes.drop 12 = p.body := by
  rw [Package.bytes, List.drop_append_of_le_length (by simp), List.drop_of_length_le (by simp),
    List.nil_append]

theorem framing_bodyLen (h : PackageHeadField) :
    framing.bodyLen (Pod.bytes h) = h.pkgBodyLen.toNat := by
  show (ofBytes (Pod.bytes h) : PackageHeadField).pkgBodyLen.toNat = _
  rw [ofBytes_bytes]

theorem Package.isFrame (p : Package) : framing.IsFrame p.bytes := by
  have hpos := List.length_pos_iff.2 p.body_ne_nil
  rw [Framing.IsFrame, framing_headLen, p.take_bytes, framing_bodyLen, ← p.length_body]
  refine ⟨?_, hpos, ?_⟩ <;> simp [Package.bytes]

/-! ## Commands -/

inductive ERequestType
  | TypeReq_None | TypeReq_Heartbeat | TypeReq_TestCmd
deriving DecidableEq, Repr

def ERequestType.toByte : ERequestType → UInt8
  | TypeReq_None => 0
  | TypeReq_Heartbeat => 1
  | TypeReq_TestCmd => 2

/-- `HeartbeatCommand` and `TestCommand` with their fields; `double` is given by its bits. -/
inductive Command
  | HeartbeatCommand (nType : BitVec 8)
  | TestCommand (nType : BitVec 8) (strData : CharArray 32) (dbData : BitVec 64) (intData : CInt)
deriving DecidableEq

/-- The classes that derive from `ISerializable`. -/
inductive CommandClass
  | HeartbeatCommand
  | TestCommand
deriving DecidableEq, Repr

/-- `SerializableCache::GetCachedObj`; `none` is `nullptr`. Every field of the cached object is
overwritten by what is decoded into it. -/
def GetCachedObj (objType : UInt8) : Option CommandClass :=
  if objType = ERequestType.TypeReq_Heartbeat.toByte then some .HeartbeatCommand
  else if objType = ERequestType.TypeReq_TestCmd.toByte then some .TestCommand
  else none

/-- `SerializableFactory::CreateObject`; `none` is `nullptr`. -/
def CreateObject (objType : UInt8) : Option CommandClass :=
  if objType = ERequestType.TypeReq_Heartbeat.toByte then some .HeartbeatCommand
  else if objType = ERequestType.TypeReq_TestCmd.toByte then some .TestCommand
  else none

/-- The sizes of the fields in the order they are taken. -/
def CommandClass.fields : CommandClass → List Nat
  | HeartbeatCommand => [1]
  | TestCommand => [1, 32, 8, 4]

/-- `HeadIntercept` one field after the other, however long the body is. -/
def intercepts : List Nat → CByteArray → Option (Bytes × CByteArray)
  | [], b => some ([], b)
  | n :: ns, b => do
    let (d, b) ← b.HeadIntercept n
    let (ds, b) ← intercepts ns b
    some (d ++ ds, b)

/-- The object with the given fields. -/
def CommandClass.ofBytes (d : Bytes) : CommandClass → Command
  | HeartbeatCommand => .HeartbeatCommand (Lib.ofBytes d)
  | TestCommand =>
    let p : BitVec 8 × CharArray 32 × BitVec 64 × CInt := Lib.ofBytes d
    .TestCommand p.1 p.2.1 p.2.2.1 p.2.2.2

/-- `Deserialize` -/
def CommandClass.Deserialize (c : CommandClass) (srcByteArray : CByteArray) :
    Option (Command × CByteArray) := do
  let (d, b) ← intercepts c.fields srcByteArray
  some (c.ofBytes d, b)

/-! ## `PackageCodec` -/

def decodeHead (byteArr : CByteArray) : Option (PackageHeadField × CByteArray) := do
  let (d, b) ← byteArr.HeadIntercept PackageHeadLen
  some (ofBytes d, b)

def decodeSerializeObj (obj : CommandClass) (byteArr : CByteArray) : Option (Command × CByteArray) :=
  obj.Deserialize byteArr

end CppLinuxLearn.Solcom
