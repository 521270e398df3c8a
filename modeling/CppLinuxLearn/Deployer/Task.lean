import CppLinuxLearn.Deployer.Service

/-!
# The tasks of the worker pool

`onQryBySql`, `onDelBySql`, `onInsByObjects`, `onDelByObjects` and `onUpdByObjects`: what a worker
sends once the database operation of its task has come back. `DbResult` is what the operation left.
-/

namespace CppLinuxLearn.Deployer

open Lib

/-- What a database operation leaves to its task. -/
structure DbResult (t : EElementType) where
  /-- the value of a batch or of a deletion -/
  res : Int
  /-- the rows of a query -/
  qryObjs : List t.Struct
  /-- `StaticDefines::sqlite_error_msg` -/
  sqlite_error_msg : Str
deriving Inhabited

/-- A response after `memset(&rsp, 0, sizeof(rsp))`, with the text of a success. -/
def rspSuccess (msg : String) (requestId : CInt) (cmd : ECommandType) : ReqResponse :=
  ⟨EResponseErrType.TSuccess.toInt, strcpy (Vector.replicate 64 0) (text msg), requestId, cmd.toInt⟩

/-- A response after `memset(&rsp, 0, sizeof(rsp))`, with the text of the database. -/
def rspDbError (msg : Str) (requestId : CInt) (cmd : ECommandType) : ReqResponse :=
  ⟨EResponseErrType.TDbError.toInt, strncpy (Vector.replicate 64 0) msg 63, requestId, cmd.toInt⟩

/-- The response of `onQryBySql`. -/
def rspQry {t : EElementType} (requestId : CInt) (r : DbResult t) : ReqResponse :=
  if r.sqlite_error_msg = [] then rspSuccess "Query Successfully" requestId .TQuery
  else rspDbError r.sqlite_error_msg requestId .TQuery

/-- `onQryBySql`, sending to the router `strRouter`. -/
def onQryBySql (t : EElementType) (strRouter : Str) (eletype requestId : CInt) (r : DbResult t) :
    List (Bytes × Bool) :=
  [(strRouter, true), (bytes STCMsgPattern.TPassiveResponse.toInt, true),
      (bytes (rspQry requestId r), true), (bytes eletype, decide (0 < r.qryObjs.length))] ++
    r.qryObjs.mapIdx fun i x => (bytes x, decide (i < r.qryObjs.length - 1))

/-- The response of a task that changes the database. -/
def rspOp (cmd : ECommandType) (msg : String) (requestId : CInt) (res : Int) (err : Str) :
    ReqResponse :=
  if res < 0 then rspDbError err requestId cmd else rspSuccess msg requestId cmd

/-- The four tasks that change the database, but for their command and their text. -/
def onOp (cmd : ECommandType) (msg : String) (strRouter : Str) (requestId : CInt) (res : Int)
    (err : Str) : List (Bytes × Bool) :=
  [(strRouter, true), (bytes STCMsgPattern.TPassiveResponse.toInt, true),
    (bytes (rspOp cmd msg requestId res err), false)]

def onDelBySql := onOp .TDelByCol "Delete Successfully"

def onInsByObjects := onOp .TInsert "Insert Successfully"

def onDelByObjects := onOp .TDelete "Delete Successfully"

def onUpdByObjects := onOp .TUpdate "Update Successfully"

/-- The element type a task is about. -/
def TaskOp.type : TaskOp → EElementType
  | onQryBySql t _ _ | onDelBySql t _ _ | onByObjects _ t _ => t

/-- The frames a task sends, to the router `strRouter`. -/
def TaskOp.answer (op : TaskOp) (strRouter : Str) (requestId : CInt) (r : DbResult op.type) :
    List (Bytes × Bool) :=
  match op with
  | onQryBySql t _ eletype => Deployer.onQryBySql t strRouter eletype requestId r
  | onDelBySql _ _ _ => Deployer.onDelBySql strRouter requestId r.res r.sqlite_error_msg
  | onByObjects .ins _ _ => onInsByObjects strRouter requestId r.res r.sqlite_error_msg
  | onByObjects .del _ _ => onDelByObjects strRouter requestId r.res r.sqlite_error_msg
  | onByObjects .upd _ _ => onUpdByObjects strRouter requestId r.res r.sqlite_error_msg

/-- `storeCacheBool<T>(true)` is reached and does something. -/
def TaskOp.storesCache (op : TaskOp) (r : DbResult op.type) : Bool :=
  match op with
  | onQryBySql _ _ _ => false
  | onDelBySql t _ _ | onByObjects _ t _ => decide (t = .TManageUser ∧ 0 ≤ r.res)

end CppLinuxLearn.Deployer
