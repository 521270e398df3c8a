import CppLinuxLearn.Lib.Bytes

/-!
# The structures and constants shared by service and manager

`CommonStruct.h` and `CommonStruct.cpp`: the table elements, the response header, the enumerations
that travel as `int`, and the table names. The structures are packed to four bytes and have no
padding, so the memory image of each is that of its fields in order.
-/

namespace CppLinuxLearn.Deployer

open Lib

/-- `int` -/
abbrev CInt := BitVec 32

/-- `std::string` -/
abbrev Str := Bytes

/-! ## Table elements -/

structure ManageUser where
  ManagerName : CharArray 64
  ManagerPasswd : CharArray 64
deriving DecidableEq

structure ServerConfig where
  ServerName : CharArray 64
  ServerIP : CharArray 64
  ServerPort : CInt
deriving DecidableEq

structure StrategyConfig where
  ConfigName : CharArray 64
  PlatformName : CharArray 128
  StragetyName : CharArray 128
  SrcRootDir : CharArray 256
  ManagerName : CharArray 64
deriving DecidableEq

structure DeployConfig where
  ConfigName : CharArray 64
  ServerName : CharArray 64
  UserName : CharArray 64
  UserPasswd : CharArray 64
  DstRootDir : CharArray 256
  ExeUser : CharArray 64
  ManagerName : CharArray 64
deriving DecidableEq

structure DeployGroup where
  GroupName : CharArray 64
  StragetyConfig : CharArray 64
  DeployConfig : CharArray 64
  ManagerName : CharArray 64
deriving DecidableEq

instance : Pod ManageUser :=
  Pod.via (fun x => (x.ManagerName, x.ManagerPasswd)) (fun p => ⟨p.1, p.2⟩) fun _ => rfl

instance : Pod ServerConfig :=
  Pod.via (fun x => (x.ServerName, x.ServerIP, x.ServerPort)) (fun p => ⟨p.1, p.2.1, p.2.2⟩)
    fun _ => rfl

instance : Pod StrategyConfig :=
  Pod.via (fun x => (x.ConfigName, x.PlatformName, x.StragetyName, x.SrcRootDir, x.ManagerName))
    (fun p => ⟨p.1, p.2.1, p.2.2.1, p.2.2.2.1, p.2.2.2.2⟩) fun _ => rfl

instance : Pod DeployConfig :=
  Pod.via (fun x => (x.ConfigName, x.ServerName, x.UserName, x.UserPasswd, x.DstRootDir, x.ExeUser,
      x.ManagerName))
    (fun p => ⟨p.1, p.2.1, p.2.2.1, p.2.2.2.1, p.2.2.2.2.1, p.2.2.2.2.2.1, p.2.2.2.2.2.2⟩) fun _ => rfl

instance : Pod DeployGroup :=
  Pod.via (fun x => (x.GroupName, x.StragetyConfig, x.DeployConfig, x.ManagerName))
    (fun p => ⟨p.1, p.2.1, p.2.2.1, p.2.2.2⟩) fun _ => rfl

/-! ## Responses -/

/-- `CommResponse` and the two fields `ReqResponse` adds to it. -/
structure ReqResponse where
  ErrorID : CInt
  ErrMsg : CharArray 64
  RequestID : CInt
  CmdType : CInt
deriving DecidableEq

instance : Pod ReqResponse :=
  Pod.via (fun x => (x.ErrorID, x.ErrMsg, x.RequestID, x.CmdType))
    (fun p => ⟨p.1, p.2.1, p.2.2.1, p.2.2.2⟩) fun _ => rfl

/-! ## Enumerations -/

inductive ECommandType
  | TNullCmd | TLogin | TLogout | TKeepAlive | TQuery | TInsert | TDelete | TDelByCol | TUpdate
  | TDeploy | TExecute | TFinish
deriving DecidableEq, Repr

inductive EElementType
  | TManageUser | TServerConfig | TStrategyConfig | TDeployConfig | TDeployGroup
deriving DecidableEq, Repr

/-- server to client message pattern -/
inductive STCMsgPattern
  | TPassiveResponse | TActivePush
deriving DecidableEq, Repr

/-- `ReqResponse.ErrorID` -/
inductive EResponseErrType
  | TSuccess | TReplicatedLogin | TIdentifyErr | TNoLogin | TMultiLogin | TDbError | TSshError
deriving DecidableEq, Repr

/-- The state of the frame receiver. -/
inductive EMsgRecvState
  | StatInit | StatGetPattern | StatGetCmd | StatGetRsp | StatGetEleType
deriving DecidableEq, Repr

def ECommandType.toInt : ECommandType → CInt
  | TNullCmd => 0
  | TLogin => 1
  | TLogout => 2
  | TKeepAlive => 3
  | TQuery => 4
  | TInsert => 5
  | TDelete => 6
  | TDelByCol => 7
  | TUpdate => 8
  | TDeploy => 9
  | TExecute => 10
  | TFinish => 11

def EElementType.toInt : EElementType → CInt
  | TManageUser => 0
  | TServerConfig => 1
  | TStrategyConfig => 2
  | TDeployConfig => 3
  | TDeployGroup => 4

def STCMsgPattern.toInt : STCMsgPattern → CInt
  | TPassiveResponse => 0
  | TActivePush => 1

def EResponseErrType.toInt : EResponseErrType → CInt
  | TSuccess => 0
  | TReplicatedLogin => 1
  | TIdentifyErr => 2
  | TNoLogin => 3
  | TMultiLogin => 4
  | TDbError => 5
  | TSshError => 6

def ECommandType.all : List ECommandType :=
  [TNullCmd, TLogin, TLogout, TKeepAlive, TQuery, TInsert, TDelete, TDelByCol, TUpdate, TDeploy,
    TExecute, TFinish]

def EElementType.all : List EElementType :=
  [TManageUser, TServerConfig, TStrategyConfig, TDeployConfig, TDeployGroup]

/-- The enumerator a `switch` over an `int` goes to; `none` is its `default`. -/
def ECommandType.ofInt? (c : CInt) : Option ECommandType := all.find? fun k => k.toInt = c

/-- The enumerator a `switch` over an `int` goes to; `none` is its `default`. -/
def EElementType.ofInt? (c : CInt) : Option EElementType := all.find? fun k => k.toInt = c

@[simp] theorem ECommandType.ofInt?_toInt (k : ECommandType) : ofInt? k.toInt = some k := by
  cases k <;> rfl

@[simp] theorem EElementType.ofInt?_toInt (t : EElementType) : ofInt? t.toInt = some t := by
  cases t <;> rfl

theorem ECommandType.ofInt?_eq_some {c : CInt} {k : ECommandType} (h : ofInt? c = some k) :
    c = k.toInt := by
  have := List.find?_some h
  simpa using (of_decide_eq_true this).symm

theorem EElementType.ofInt?_eq_some {c : CInt} {t : EElementType} (h : ofInt? c = some t) :
    c = t.toInt := by
  have := List.find?_some h
  simpa using (of_decide_eq_true this).symm

theorem ECommandType.toInt_injective : Function.Injective ECommandType.toInt := fun a b h => by
  simpa using congrArg ofInt? h

theorem EElementType.toInt_injective : Function.Injective EElementType.toInt := fun a b h => by
  simpa using congrArg ofInt? h

/-! ## Element types and their structures -/

/-- The structure that goes with an element type. -/
abbrev EElementType.Struct : EElementType → Type
  | TManageUser => ManageUser
  | TServerConfig => ServerConfig
  | TStrategyConfig => StrategyConfig
  | TDeployConfig => DeployConfig
  | TDeployGroup => DeployGroup

instance instPodStruct : (t : EElementType) → Pod t.Struct
  | .TManageUser => inferInstanceAs (Pod ManageUser)
  | .TServerConfig => inferInstanceAs (Pod ServerConfig)
  | .TStrategyConfig => inferInstanceAs (Pod StrategyConfig)
  | .TDeployConfig => inferInstanceAs (Pod DeployConfig)
  | .TDeployGroup => inferInstanceAs (Pod DeployGroup)

instance instDecidableEqStruct : (t : EElementType) → DecidableEq t.Struct
  | .TManageUser => inferInstanceAs (DecidableEq ManageUser)
  | .TServerConfig => inferInstanceAs (DecidableEq ServerConfig)
  | .TStrategyConfig => inferInstanceAs (DecidableEq StrategyConfig)
  | .TDeployConfig => inferInstanceAs (DecidableEq DeployConfig)
  | .TDeployGroup => inferInstanceAs (DecidableEq DeployGroup)

/-- The table of an element type. -/
def EElementType.table : EElementType → String
  | TManageUser => "ManageUser"
  | TServerConfig => "ServerConfig"
  | TStrategyConfig => "StrategyConfig"
  | TDeployConfig => "DeployConfig"
  | TDeployGroup => "DeployGroup"

/-- `StaticDefines::AllTableNames` -/
def AllTableNames : List String :=
  ["ManageUser", "ServerConfig", "StrategyConfig", "DeployConfig", "DeployGroup"]

theorem allTableNames_toInt (t : EElementType) : AllTableNames[t.toInt.toNat]? = some t.table := by
  cases t <;> rfl

/-- `ColumnFilter` -/
structure ColumnFilter where
  ColName : Str
  ColVal : Str
deriving DecidableEq, Repr

end CppLinuxLearn.Deployer
