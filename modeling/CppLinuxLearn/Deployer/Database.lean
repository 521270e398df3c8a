import CppLinuxLearn.Deployer.CommonStruct
import CppLinuxLearn.Lib.Transaction

/-!
# The database operations of the service

`SQLiteDatabase.cpp`, `dbopmacros.h` and `dboperatefunc.cpp`. The content of `ATDConfig.db` is five
tables of rows; a prepared statement is given by its table and the columns its placeholders stand
for. What SQLite does is a parameter: `Sqlite` says whether a statement is prepared and which steps
succeed, so that a statement over all `Sqlite` is one over every pattern of failures.
-/

namespace CppLinuxLearn.Deployer

open Lib

/-! ## Tables and statements -/

/-- A stored or bound value. -/
inductive Value
  | null
  | integer (n : CInt)
  | text (s : Str)
deriving DecidableEq, Repr

/-- `=` of SQL: `null` equals nothing. -/
def Value.eq (a b : Value) : Bool := a != .null && a == b

/-- The values of a row, in the order of the columns of its table. -/
abbrev Row := List Value

/-- The columns of the tables of `ATDConfig.db`. -/
def EElementType.columns : EElementType → List String
  | TManageUser => ["ManagerName", "ManagerPasswd"]
  | TServerConfig => ["ServerName", "ServerIP", "ServerPort"]
  | TStrategyConfig => ["ConfigName", "PlatformName", "StragetyName", "SrcRootDir", "ManagerName"]
  | TDeployConfig =>
    ["ConfigName", "ServerName", "UserName", "UserPasswd", "DstRootDir", "ExeUser", "ManagerName"]
  | TDeployGroup => ["GroupName", "StragetyConfig", "DeployConfig", "ManagerName"]

/-- The content of the database. -/
structure Database where
  ManageUser : List Row
  ServerConfig : List Row
  StrategyConfig : List Row
  DeployConfig : List Row
  DeployGroup : List Row
deriving DecidableEq, Repr

/-- The rows of a table. -/
def Database.rows (db : Database) : EElementType → List Row
  | .TManageUser => db.ManageUser
  | .TServerConfig => db.ServerConfig
  | .TStrategyConfig => db.StrategyConfig
  | .TDeployConfig => db.DeployConfig
  | .TDeployGroup => db.DeployGroup

/-- Put other rows in a table. -/
def Database.setRows (db : Database) : EElementType → List Row → Database
  | .TManageUser, rs => { db with ManageUser := rs }
  | .TServerConfig, rs => { db with ServerConfig := rs }
  | .TStrategyConfig, rs => { db with StrategyConfig := rs }
  | .TDeployConfig, rs => { db with DeployConfig := rs }
  | .TDeployGroup, rs => { db with DeployGroup := rs }

@[simp] theorem Database.rows_setRows (db : Database) (t : EElementType) (rs : List Row) :
    (db.setRows t rs).rows t = rs := by
  cases t <;> rfl

@[simp] theorem Database.rows_setRows_ne (db : Database) {t u : EElementType} (rs : List Row)
    (h : u ≠ t) : (db.setRows t rs).rows u = db.rows u := by
  cases t <;> cases u <;> first | rfl | exact absurd rfl h

/-- A statement whose placeholders stand for the listed columns, in order. -/
inductive Stmt
  /-- `insert into t(cols) values(?, ..)` -/
  | insert (t : EElementType) (cols : List String)
  /-- `update t set sets = ? .. where keys = ? ..` -/
  | update (t : EElementType) (sets keys : List String)
  /-- `delete from t where keys = ? ..` -/
  | delete (t : EElementType) (keys : List String)
deriving DecidableEq, Repr

/-- The statement names columns its table has; otherwise `sqlite3_prepare_v2` gives no statement. -/
def Stmt.compiles : Stmt → Bool
  | insert t cols => cols.all (t.columns.contains ·)
  | update t sets keys => (sets ++ keys).all (t.columns.contains ·)
  | delete t keys => keys.all (t.columns.contains ·)

/-- The value of a column in a row. -/
def EElementType.value (t : EElementType) (r : Row) (col : String) : Value :=
  r.getD (t.columns.idxOf col) .null

/-- `k1 = ? and k2 = ? ..` with the given parameters. -/
def EElementType.holds (t : EElementType) (keys : List String) (ps : List Value) (r : Row) : Bool :=
  (keys.zipIdx).all fun (k, i) => (t.value r k).eq (ps.getD i .null)

/-- The row with the columns `sets` replaced by the parameters; of a column that is set twice the
last parameter stays. -/
def EElementType.assign (t : EElementType) (sets : List String) (ps : List Value) (r : Row) : Row :=
  (sets.zipIdx).foldl (fun r (s, i) => r.set (t.columns.idxOf s) (ps.getD i .null)) r

/-- One successful `sqlite3_step` with the given parameters: the new content, and
`sqlite3_changes`. -/
def Stmt.exec (s : Stmt) (ps : List Value) (db : Database) : Nat × Database :=
  match s with
  | insert t cols =>
    let row := t.assign cols ps (t.columns.map fun _ => .null)
    (1, db.setRows t (db.rows t ++ [row]))
  | update t sets keys =>
    let hit := t.holds keys (ps.drop sets.length)
    ((db.rows t).countP hit,
      db.setRows t ((db.rows t).map fun r => if hit r then t.assign sets ps r else r))
  | delete t keys =>
    let hit := t.holds keys ps
    ((db.rows t).countP hit, db.setRows t ((db.rows t).filter fun r => !hit r))

/-! ## SQLite and the connection -/

/-- What SQLite does during one call. -/
structure Sqlite where
  /-- the database opens and a well-formed statement is prepared -/
  prepared : Bool
  /-- the step for the element at this position of the vector returns `SQLITE_DONE` -/
  stepOk : Nat → Bool
  /-- `sqlite3_errmsg` after a failure -/
  errmsg : Str
  /-- the memory behind a character array of an element, which a text without NUL runs into -/
  behind : Nat → String → Bytes

/-- `SQLiteDatabase::beginTransaction`, its result dropped. -/
def beginTransaction {δ : Type} (c : Conn δ) : Conn δ := c.begin?.getD c

/-- `SQLiteDatabase::commitTransaction`, its result dropped. -/
def commitTransaction {δ : Type} (c : Conn δ) : Conn δ := c.commit?.getD c

/-- `SQLiteDatabase::rollbackTransaction`, its result dropped. -/
def rollbackTransaction {δ : Type} (c : Conn δ) : Conn δ := c.rollback?.getD c

def SQLITEDATABASE_ERROR : Int := -1

/-- What a call leaves behind: its value, `StaticDefines::sqlite_error_msg` if it was set, and the
content of the database. -/
structure Called where
  res : Int
  errmsg : Option Str
  db : Database
deriving DecidableEq, Repr

/-- `SQLiteStatement::isValid` -/
def Sqlite.isValid (q : Sqlite) (s : Stmt) : Bool := q.prepared && s.compiles

section
variable {T : Type}

/-- `executeInsert` and `executeUpdateDelete`, for the element at position `i`: the number of
changed rows, or nothing when the step fails. -/
def execute (q : Sqlite) (s : Stmt) (bind : Nat → T → List Value) (i : Nat) (x : T) (db : Database) :
    Option (Int × Database) :=
  if q.stepOk i then
    let (n, db') := s.exec (bind i x) db
    some (n, db')
  else none

/-- The end of all three loops: the error text, `rollback` or `commit`, and `close`. -/
def Sqlite.endTransaction (q : Sqlite) : Option Int × Conn Database → Called
  | (none, c) => ⟨SQLITEDATABASE_ERROR, some q.errmsg, (rollbackTransaction c).committed⟩
  | (some res, c) => ⟨res, none, (commitTransaction c).committed⟩

/-- What `InsertByVector` and `UpdateByVector` have in common, which is all but the name of the
function that steps: no transaction is begun. -/
def autocommitByVector (q : Sqlite) (s : Stmt) (bind : Nat → T → List Value) (objVec : List T)
    (db : Database) : Called :=
  if objVec.length = 0 then ⟨0, none, db⟩
  else
    let c := Conn.opened db
    if q.isValid s then
      q.endTransaction (Conn.batch (execute q s bind) 0 objVec 0 c)
    else ⟨SQLITEDATABASE_ERROR, some q.errmsg, c.committed⟩

/-- `InsertByVector(sql, objVec, ...)` -/
def InsertByVector (q : Sqlite) (s : Stmt) (bind : Nat → T → List Value) (objVec : List T)
    (db : Database) : Called := autocommitByVector q s bind objVec db

/-- `UpdateByVector(sql, objVec, ...)` -/
def UpdateByVector (q : Sqlite) (s : Stmt) (bind : Nat → T → List Value) (objVec : List T)
    (db : Database) : Called := autocommitByVector q s bind objVec db

/-- `DeleteByVector(sql, objVec, ...)` -/
def DeleteByVector (q : Sqlite) (s : Stmt) (bind : Nat → T → List Value) (objVec : List T)
    (db : Database) : Called :=
  if objVec.length = 0 then ⟨0, none, db⟩
  else
    let c := Conn.opened db
    if q.isValid s then
      q.endTransaction (Conn.batch (execute q s bind) 0 objVec 0 (beginTransaction c))
    else ⟨SQLITEDATABASE_ERROR, some q.errmsg, c.committed⟩

/-- Which of the three loops a function is an instance of. -/
inductive VectorLoop
  | insert
  | update
  | delete
deriving DecidableEq, Repr

/-- The arguments of such an instance: the statement and, for the element at a position, the fields
bound to its placeholders. -/
structure Batch (T : Type) where
  loop : VectorLoop
  stmt : Stmt
  bind : Nat → T → List Value

/-- Run the function on a vector. -/
def Batch.call (b : Batch T) (q : Sqlite) (objVec : List T) (db : Database) : Called :=
  match b.loop with
  | .insert => InsertByVector q b.stmt b.bind objVec db
  | .update => UpdateByVector q b.stmt b.bind objVec db
  | .delete => DeleteByVector q b.stmt b.bind objVec db

end

/-! ## The operations of each table -/

/-- `bindString(k, objVec[i].arg)`: the array up to its NUL, or on into what lies behind it. -/
def Sqlite.str (q : Sqlite) (i : Nat) (col : String) {n : Nat} (a : CharArray n) : Value :=
  .text (cstr (a.toList ++ q.behind i col))

section
variable (q : Sqlite)

def delManagerUser : Batch ManageUser where
  loop := .delete
  stmt := .delete .TManageUser ["ManagerName"]
  bind i x := [q.str i "ManagerName" x.ManagerName]

def delServerConfig : Batch ServerConfig where
  loop := .delete
  stmt := .delete .TServerConfig ["ServerName"]
  bind i x := [q.str i "ServerName" x.ServerName]

def delStrategyConfig : Batch StrategyConfig where
  loop := .delete
  stmt := .delete .TStrategyConfig ["ConfigName", "ManagerName"]
  bind i x := [q.str i "ConfigName" x.ConfigName, q.str i "ManagerName" x.ManagerName]

def delDeployConfig : Batch DeployConfig where
  loop := .delete
  stmt := .delete .TDeployConfig ["ConfigName", "ManagerName"]
  bind i x := [q.str i "ConfigName" x.ConfigName, q.str i "ManagerName" x.ManagerName]

def delDeployGroup : Batch DeployGroup where
  loop := .delete
  stmt := .delete .TDeployGroup ["GroupName", "ManagerName"]
  bind i x := [q.str i "GroupName" x.GroupName, q.str i "ManagerName" x.ManagerName]

def insManagerUser : Batch ManageUser where
  loop := .insert
  stmt := .insert .TManageUser ["ManagerName", "ManagerPasswd"]
  bind i x := [q.str i "ManagerName" x.ManagerName, q.str i "ManagerPasswd" x.ManagerPasswd]

def insServerConfig : Batch ServerConfig where
  loop := .insert
  stmt := .insert .TServerConfig ["ServerName", "ServerIP", "ServerPort"]
  bind i x := [q.str i "ServerName" x.ServerName, q.str i "ServerIP" x.ServerIP,
    .integer x.ServerPort]

def insStrategyConfig : Batch StrategyConfig where
  loop := .insert
  stmt := .insert .TStrategyConfig
    ["ConfigName", "PlatformName", "StragetyName", "SrcRootDir", "ManagerName"]
  bind i x := [q.str i "ConfigName" x.ConfigName, q.str i "PlatformName" x.PlatformName,
    q.str i "StragetyName" x.StragetyName, q.str i "SrcRootDir" x.SrcRootDir,
    q.str i "ManagerName" x.ManagerName]

def insDeployConfig : Batch DeployConfig where
  loop := .insert
  stmt := .insert .TDeployConfig
    ["ConfigName", "ServerName", "UserName", "UserPasswd", "DstRootDir", "ExeUser", "ManagerName"]
  bind i x := [q.str i "ConfigName" x.ConfigName, q.str i "ServerName" x.ServerName,
    q.str i "UserName" x.UserName, q.str i "UserPasswd" x.UserPasswd,
    q.str i "DstRootDir" x.DstRootDir, q.str i "ExeUser" x.ExeUser,
    q.str i "ManagerName" x.ManagerName]

def insDeployGroup : Batch DeployGroup where
  loop := .insert
  stmt := .insert .TDeployGroup ["GroupName", "StragetyConfig", "DeployConfig", "ManagerName"]
  bind i x := [q.str i "GroupName" x.GroupName, q.str i "StragetyConfig" x.StragetyConfig,
    q.str i "DeployConfig" x.DeployConfig, q.str i "ManagerName" x.ManagerName]

def updManagerUser : Batch ManageUser where
  loop := .update
  stmt := .update .TManageUser ["ManagerName", "ManagerPasswd"] ["ManagerName"]
  bind i x := [q.str i "ManagerName" x.ManagerName, q.str i "ManagerPasswd" x.ManagerPasswd,
    q.str i "ManagerName" x.ManagerName]

def updServerConfig : Batch ServerConfig where
  loop := .update
  stmt := .update .TServerConfig ["ServerIP", "ServerPort"] ["ServerName"]
  bind i x := [q.str i "ServerIP" x.ServerIP, .integer x.ServerPort,
    q.str i "ServerName" x.ServerName]

def updStrategyConfig : Batch StrategyConfig where
  loop := .update
  stmt := .update .TStrategyConfig ["PlatformName", "StragetyName", "SrcRootDir", "ManagerName"]
    ["ConfigName", "ManagerName"]
  bind i x := [q.str i "PlatformName" x.PlatformName, q.str i "StragetyName" x.StragetyName,
    q.str i "SrcRootDir" x.SrcRootDir, q.str i "ManagerName" x.ManagerName,
    q.str i "ConfigName" x.ConfigName, q.str i "ManagerName" x.ManagerName]

def updDeployConfig : Batch DeployConfig where
  loop := .update
  stmt := .update .TDeployConfig
    ["ServerName", "UserName", "UserPasswd", "DstRootDir", "ExeUser", "ManagerName"]
    ["ConfigName", "ManagerName"]
  bind i x := [q.str i "ServerName" x.ServerName, q.str i "UserName" x.UserName,
    q.str i "UserPasswd" x.UserPasswd, q.str i "DstRootDir" x.DstRootDir,
    q.str i "ExeUser" x.ExeUser, q.str i "ManagerName" x.ManagerName,
    q.str i "ConfigName" x.ConfigName, q.str i "ManagerName" x.ManagerName]

/-- The statement is `update DeployConfig set StragetyConfig=?, ..`, run by `InsertByVector`. -/
def updDeployGroup : Batch DeployGroup where
  loop := .insert
  stmt := .update .TDeployConfig ["StragetyConfig", "DeployConfig", "ManagerName"]
    ["GroupName", "ManagerName"]
  bind i x := [q.str i "StragetyConfig" x.StragetyConfig, q.str i "DeployConfig" x.DeployConfig,
    q.str i "ManagerName" x.ManagerName, q.str i "GroupName" x.GroupName,
    q.str i "ManagerName" x.ManagerName]

def delByObjects : (t : EElementType) → Batch t.Struct
  | .TManageUser => delManagerUser q
  | .TServerConfig => delServerConfig q
  | .TStrategyConfig => delStrategyConfig q
  | .TDeployConfig => delDeployConfig q
  | .TDeployGroup => delDeployGroup q

def insByObjects : (t : EElementType) → Batch t.Struct
  | .TManageUser => insManagerUser q
  | .TServerConfig => insServerConfig q
  | .TStrategyConfig => insStrategyConfig q
  | .TDeployConfig => insDeployConfig q
  | .TDeployGroup => insDeployGroup q

def updByObjects : (t : EElementType) → Batch t.Struct
  | .TManageUser => updManagerUser q
  | .TServerConfig => updServerConfig q
  | .TStrategyConfig => updStrategyConfig q
  | .TDeployConfig => updDeployConfig q
  | .TDeployGroup => updDeployGroup q

end

end CppLinuxLearn.Deployer
