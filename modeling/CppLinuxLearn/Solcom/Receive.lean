import CppLinuxLearn.Solcom.Package

/-!
# The receive callbacks

`SolcomApi::alloc_cb`, `read_cb` and `reqHandle`, and those of `SolConnServer`. Data arrives where
`alloc_cb` said and as much of it as it allowed at most. The two ends keep the same three fields;
they differ in where the head is decoded and in what is done with a complete body.
-/

namespace CppLinuxLearn.Solcom

open Lib

/-- The receive state of a `SolcomApi`, and of a `SolConnClient` of the server. -/
structure RecvState where
  recvBuffer : CByteArray
  recvStat : ERecvStatType
  nNeedRead : Int

/-- What is handed over: the head, the body behind it, and the command made of it if there is any. -/
structure Handed where
  pkghead : PackageHeadField
  body : Bytes
  cmd : Option Command
deriving DecidableEq

/-- One read: the bytes that arrived, and what newly allocated memory would hold. -/
structure Read where
  data : Bytes
  junk : Nat → UInt8

/-- The receive state of a new `SolcomApi`, or of a new `SolConnClient`. -/
def RecvState.new (junk : Nat → UInt8) : RecvState := ⟨.new junk 1424, .Type_RecvHead, PackageHeadLen⟩

/-- The receive part of `connect_cb`. -/
def RecvState.connect_cb (s : RecvState) : RecvState :=
  { s with recvBuffer := s.recvBuffer.Init, nNeedRead := PackageHeadLen }

/-- `alloc_cb`: how many bytes may arrive, and their place in the buffer. -/
def RecvState.alloc_cb (s : RecvState) : Int × Int := (s.nNeedRead, s.recvBuffer.RightPos)

/-- A complete head: the next read may be as long as the body. -/
def RecvState.onHead (junk : Nat → UInt8) (s : RecvState) (pkghead : PackageHeadField)
    (recvBuffer : CByteArray) : Option (RecvState × List Handed) := do
  let nNeedRead : Int := pkghead.pkgBodyLen.toNat
  let recvBuffer := recvBuffer.LeftBackward PackageHeadLen
  let recvBuffer ← recvBuffer.makeRoom junk nNeedRead
  some ({ s with recvBuffer, recvStat := .Type_RecvBody, nNeedRead }, [])

/-! ## The client -/

namespace SolcomApi

/-- `reqHandle`; without a spi nothing is done. A null object is dereferenced (`none`). -/
def reqHandle (solcomSpi : Bool) (inStream : CByteArray) : Option (Option Command × CByteArray) :=
  if solcomSpi then do
    let objType ← Block.load inStream.CharArray inStream.LeftPos 1
    let pCmdObj ← GetCachedObj (objType.headD 0)
    let (cmd, inStream) ← decodeSerializeObj pCmdObj inStream
    some (some cmd, inStream)
  else some (none, inStream)

/-- `read_cb` for a read that is no error. -/
def read_cb (solcomSpi : Bool) (junk : Nat → UInt8) (nread : Nat) (s : RecvState) :
    Option (RecvState × List Handed) :=
  if 0 < nread then
    let recvBuffer := s.recvBuffer.RightForward nread
    if nread = s.nNeedRead then do
      let (pkghead, recvBuffer) ← decodeHead recvBuffer
      if s.recvStat = .Type_RecvHead then s.onHead junk pkghead recvBuffer
      else
        let (cmd, inStream) ← reqHandle solcomSpi recvBuffer
        some (⟨inStream.Init, .Type_RecvHead, PackageHeadLen⟩, [⟨pkghead, recvBuffer.window, cmd⟩])
    else some ({ s with recvBuffer, nNeedRead := s.nNeedRead - nread }, [])
  else some (s, [])

end SolcomApi

/-! ## The server -/

namespace SolConnServer

/-- The command of a complete body. A null object is dereferenced (`none`). -/
def cmdHandle (recvBuffer : CByteArray) : Option (Option Command × CByteArray) := do
  let objType ← Block.load recvBuffer.CharArray recvBuffer.LeftPos 1
  let cmd ← CreateObject (objType.headD 0)
  let (cmd, recvBuffer) ← decodeSerializeObj cmd recvBuffer
  some (some cmd, recvBuffer)

/-- `read_cb` for a read that is no error. -/
def read_cb (junk : Nat → UInt8) (nread : Nat) (s : RecvState) : Option (RecvState × List Handed) :=
  if 0 < nread then
    let recvBuffer := s.recvBuffer.RightForward nread
    if nread = s.nNeedRead then
      if s.recvStat = .Type_RecvHead then do
        let (pkghead, recvBuffer) ← decodeHead recvBuffer
        s.onHead junk pkghead recvBuffer
      else do
        let (pkghead, recvBuffer) ← decodeHead recvBuffer
        let (cmd, buf) ← cmdHandle recvBuffer
        some (⟨buf.Init, .Type_RecvHead, PackageHeadLen⟩, [⟨pkghead, recvBuffer.window, cmd⟩])
    else some ({ s with recvBuffer, nNeedRead := s.nNeedRead - nread }, [])
  else some (s, [])

end SolConnServer

end CppLinuxLearn.Solcom
