import CppLinuxLearn.Deployer.AllOrNothing

/-!
# The handles of an operation

Each operation opens a connection of its own and prepares one statement on it, and calls `close()`
while the statement is still there; behind that the destructors of statement and connection run, in
this order. The operations are given here by the calls that they make of SQLite, and `Handles` follows
what becomes of the connection and the statement. `freedOnce_iff` says when both are freed once and
not used any more: where there is no statement, the first `close()` does free the connection, and the
destructor closes it again, because `close()` leaves `m_pDb` as it is.
-/

namespace CppLinuxLearn.Deployer

open Lib

/-! ## Calls -/

/-- A call of SQLite, on the connection or the statement of the operation. -/
inductive SqliteCall
  /-- `given` says whether there is a connection, which is also the case after most failures -/
  | sqlite3_open (given : Bool)
  /-- `given` says whether there is a statement -/
  | sqlite3_prepare_v2 (given : Bool)
  | sqlite3_exec
  | sqlite3_errmsg
  | sqlite3_errcode
  | sqlite3_changes
  | sqlite3_bind
  | sqlite3_step
  | sqlite3_reset
  | sqlite3_column
  | sqlite3_finalize
  | sqlite3_close
deriving DecidableEq, Repr

/-- What has become of the two handles. -/
structure Handles where
  /-- how often the connection has been freed; `none` if there is no connection -/
  db : Option Nat
  /-- how often the statement has been finalized; `none` if there is no statement -/
  stmt : Option Nat
  /-- the calls on a connection or a statement that was gone -/
  late : Nat
deriving DecidableEq, Repr

namespace Handles

/-- The connection has been freed. -/
def closed (h : Handles) : Bool := h.db.any (0 < ·)

/-- A call that frees nothing. -/
def use (h : Handles) (gone : Bool) : Handles := if gone then { h with late := h.late + 1 } else h

def call (h : Handles) : SqliteCall → Handles
  | .sqlite3_open given => { h with db := if given then some 0 else none }
  | .sqlite3_prepare_v2 given => { h.use h.closed with stmt := if given then some 0 else none }
  | .sqlite3_exec | .sqlite3_errmsg | .sqlite3_errcode | .sqlite3_changes => h.use h.closed
  | .sqlite3_bind | .sqlite3_step | .sqlite3_reset | .sqlite3_column =>
    h.use (h.closed || h.stmt.any (0 < ·))
  | .sqlite3_finalize =>
    -- nothing happens to a null statement
    match h.stmt with
    | none => h
    | some n => { h.use (h.closed || 0 < n) with stmt := some (n + 1) }
  | .sqlite3_close =>
    match h.db with
    | none => h
    -- `SQLITE_BUSY` while there is a statement
    | some n => if h.stmt = some 0 then h.use h.closed else { h.use h.closed with db := some (n + 1) }

def run (cs : List SqliteCall) : Handles := cs.foldl call ⟨none, none, 0⟩

end Handles

/-- Connection and statement, where there are any, have been freed once, and no call came too late. -/
def FreedOnce (cs : List SqliteCall) : Prop :=
  (∀ n, (Handles.run cs).db = some n → n = 1) ∧ (∀ n, (Handles.run cs).stmt = some n → n = 1) ∧
    (Handles.run cs).late = 0

/-! ## The operations -/

/-- What SQLite gives. -/
structure Outcomes extends Sqlite where
  /-- `sqlite3_open` gives a connection -/
  opens : Bool
  /-- the text is that of a statement -/
  compiles : Str → Bool
  /-- how often the step of a query returns `SQLITE_ROW` -/
  rows : Nat

section
variable (o : Outcomes)

/-- `if (m_pDb) sqlite3_close(m_pDb)`, which `SQLiteDatabase::close` and its destructor both are. -/
def closeCalls : List SqliteCall := if o.opens then [.sqlite3_close] else []

/-- The scope of `db` and `stmt`: `valid` says whether `sqlite3_prepare_v2` gives a statement, and
`body` is what the operation does with it. -/
def scopeCalls (valid : Bool) (body : List SqliteCall) : List SqliteCall :=
  .sqlite3_open o.opens :: .sqlite3_prepare_v2 valid ::
    (body ++ closeCalls o ++ .sqlite3_finalize :: closeCalls o)

/-- `executeInsert` and `executeUpdateDelete` -/
def executeCalls (ok : Bool) : List SqliteCall :=
  if ok then [.sqlite3_step, .sqlite3_changes] else [.sqlite3_step]

/-- The loop of the three macros; `failed` is what they do when a step has failed. -/
def loopCalls {T : Type} (bind : Nat → T → List Value) (failed : List SqliteCall) :
    Nat → List T → List SqliteCall
  | _, [] => []
  | i, x :: xs =>
    (bind i x).map (fun _ => .sqlite3_bind) ++ executeCalls (o.stepOk i) ++
      if o.stepOk i then .sqlite3_reset :: loopCalls bind failed (i + 1) xs else failed

/-- `InsertByVector`, `UpdateByVector` and `DeleteByVector` -/
def batchCalls {T : Type} (b : Batch T) (objVec : List T) : List SqliteCall :=
  let valid := o.opens && o.isValid b.stmt
  if objVec.length = 0 then []
  else
    scopeCalls o valid <|
      if valid then
        match b.loop with
        | .insert =>
          loopCalls o b.bind [.sqlite3_errcode, .sqlite3_errmsg, .sqlite3_errmsg] 0 objVec ++
            [.sqlite3_exec]
        | .update => loopCalls o b.bind [.sqlite3_errmsg] 0 objVec ++ [.sqlite3_exec]
        | .delete =>
          .sqlite3_exec :: (loopCalls o b.bind [.sqlite3_errmsg] 0 objVec ++ [.sqlite3_exec])
      else [.sqlite3_errmsg]

/-- `qryManageUserBySql` and its siblings: every row has its columns read. -/
def qryBySqlCalls (t : EElementType) (sql : Str) : List SqliteCall :=
  let valid := o.opens && o.prepared && o.compiles sql
  scopeCalls o valid <|
    if valid then
      .sqlite3_exec ::
        ((List.replicate o.rows (.sqlite3_step :: t.columns.map fun _ => .sqlite3_column)).flatten ++
          [.sqlite3_step, .sqlite3_exec])
    else [.sqlite3_errmsg]

def delBySqlCalls (sql : Str) : List SqliteCall :=
  let valid := o.opens && o.prepared && o.compiles sql
  if sql.length = 0 then []
  else
    scopeCalls o valid <|
      if valid then
        .sqlite3_exec :: (executeCalls (o.stepOk 0) ++
          (if o.stepOk 0 then [] else [.sqlite3_errmsg]) ++ [.sqlite3_exec])
      else [.sqlite3_errmsg]

end

/-- The operations of the service on its database. -/
inductive DbCall
  | qryBySql (t : EElementType) (sql : Str)
  | delBySql (sql : Str)
  | byObjects (op : DbOp) (t : EElementType) (objVec : List t.Struct)

def DbCall.calls (o : Outcomes) : DbCall → List SqliteCall
  | qryBySql t sql => qryBySqlCalls o t sql
  | delBySql sql => delBySqlCalls o sql
  | byObjects op t objVec => batchCalls o (Deployer.byObjects o.toSqlite op t) objVec

/-- The operation returns before it opens the database. -/
def DbCall.idle : DbCall → Prop
  | qryBySql _ _ => False
  | delBySql sql => sql = []
  | byObjects _ _ objVec => objVec = []

/-- There is a statement for the text of the operation. -/
def DbCall.prepared (o : Outcomes) : DbCall → Bool
  | qryBySql _ sql | delBySql sql => o.prepared && o.compiles sql
  | byObjects op t _ => o.isValid (Deployer.byObjects o.toSqlite op t).stmt

/-! ## What becomes of the handles -/

/-- A call that neither makes nor frees a handle. -/
def SqliteCall.isUse : SqliteCall → Bool
  | sqlite3_open _ | sqlite3_prepare_v2 _ | sqlite3_finalize | sqlite3_close => false
  | _ => true

theorem Handles.call_use {h : Handles} (hdb : h.closed = false) (hstmt : h.stmt.any (0 < ·) = false)
    {c : SqliteCall} (hc : c.isUse = true) : h.call c = h := by
  cases c with
  | sqlite3_open _ => cases hc
  | sqlite3_prepare_v2 _ => cases hc
  | sqlite3_finalize => cases hc
  | sqlite3_close => cases hc
  | _ => simp only [Handles.call, Handles.use, hdb, hstmt, Bool.or_false, Bool.false_eq_true, if_false]

theorem Handles.foldl_use {h : Handles} (hdb : h.closed = false) (hstmt : h.stmt.any (0 < ·) = false)
    {cs : List SqliteCall} (hcs : ∀ c ∈ cs, c.isUse = true) : cs.foldl Handles.call h = h := by
  induction cs with
  | nil => rfl
  | cons c cs ih =>
    rw [List.foldl_cons, h.call_use hdb hstmt (hcs c List.mem_cons_self)]
    exact ih fun d hd => hcs d (List.mem_cons_of_mem c hd)

/-- **A scope frees its handles once exactly if it has no connection, or a statement.** -/
theorem freedOnce_scopeCalls (o : Outcomes) {valid : Bool} (hvalid : valid = true → o.opens = true)
    {body : List SqliteCall} (hbody : ∀ c ∈ body, c.isUse = true) :
    FreedOnce (scopeCalls o valid body) ↔ o.opens = false ∨ valid = true := by
  have hrun : Handles.run (scopeCalls o valid body) =
      (closeCalls o ++ .sqlite3_finalize :: closeCalls o).foldl Handles.call
        ⟨if o.opens then some 0 else none, if valid then some 0 else none, 0⟩ := by
    have hstart : ∀ given : Bool, (if given then some 0 else none : Option Nat).any (0 < ·) = false := by
      rintro (_ | _) <;> rfl
    have hclosed : Handles.closed ⟨if o.opens then some 0 else none, none, 0⟩ = false := hstart o.opens
    rw [Handles.run, scopeCalls, List.foldl_cons, List.foldl_cons, List.append_assoc, List.foldl_append]
    simp only [Handles.call, Handles.use, hclosed, Bool.false_eq_true, if_false]
    have huse : Handles.closed ⟨if o.opens then some 0 else none, if valid then some 0 else none, 0⟩ =
        false := hstart o.opens
    rw [Handles.foldl_use huse (hstart valid) hbody]
  rw [FreedOnce, hrun, closeCalls]
  cases ho : o.opens with
  | false =>
    obtain rfl : valid = false := by
      by_contra hv
      rw [hvalid (by simpa using hv)] at ho
      cases ho
    simp [Handles.call]
  | true => cases valid <;> simp [Handles.call, Handles.use, Handles.closed]

theorem isUse_executeCalls (ok : Bool) : ∀ c ∈ executeCalls ok, c.isUse = true := by
  cases ok <;> decide

theorem isUse_loopCalls {T : Type} (o : Outcomes) (bind : Nat → T → List Value)
    {failed : List SqliteCall} (hfailed : ∀ c ∈ failed, c.isUse = true) (objVec : List T) :
    ∀ i, ∀ c ∈ loopCalls o bind failed i objVec, c.isUse = true := by
  induction objVec with
  | nil => exact fun _ _ => nofun
  | cons x xs ih =>
    intro i c hc
    rw [loopCalls, List.append_assoc, List.mem_append, List.mem_append] at hc
    rcases hc with hc | hc | hc
    · obtain ⟨_, -, rfl⟩ := List.mem_map.1 hc
      rfl
    · exact isUse_executeCalls (o.stepOk i) c hc
    · split at hc
      · rcases List.mem_cons.1 hc with rfl | hc
        · rfl
        · exact ih (i + 1) c hc
      · exact hfailed c hc

theorem freedOnce_batchCalls {T : Type} (o : Outcomes) (b : Batch T) (objVec : List T) :
    FreedOnce (batchCalls o b objVec) ↔
      objVec = [] ∨ o.opens = false ∨ o.isValid b.stmt = true := by
  have hloop : ∀ failed : List SqliteCall, (∀ c ∈ failed, c.isUse = true) →
      ∀ c ∈ loopCalls o b.bind failed 0 objVec ++ [.sqlite3_exec], c.isUse = true := by
    intro failed hfailed c hc
    rcases List.mem_append.1 hc with hc | hc
    · exact isUse_loopCalls o b.bind hfailed objVec 0 c hc
    · rw [List.mem_singleton.1 hc]
      rfl
  by_cases hne : objVec = []
  · rw [hne, batchCalls]
    exact iff_of_true ⟨nofun, nofun, rfl⟩ (.inl rfl)
  · rw [batchCalls, if_neg (by rwa [List.length_eq_zero_iff]), freedOnce_scopeCalls]
    · rw [Bool.and_eq_true, or_iff_right hne]
      cases o.opens <;> simp
    · exact fun h => (Bool.and_eq_true_iff.1 h).1
    · intro c hc
      split at hc
      · split at hc
        · exact hloop _ (by decide) c hc
        · exact hloop _ (by decide) c hc
        · rcases List.mem_cons.1 hc with rfl | hc
          · rfl
          · exact hloop _ (by decide) c hc
      · rw [List.mem_singleton.1 hc]
        rfl

/-- The update of `DeployGroup` is prepared for another table, which lacks its columns: no vector but
the empty one is handled without harm. -/
theorem updDeployGroup_not_freedOnce (o : Outcomes) (hopens : o.opens = true) {objVec : List DeployGroup}
    (hne : objVec ≠ []) : ¬ FreedOnce (batchCalls o (updDeployGroup o.toSqlite) objVec) := by
  have hvalid : o.isValid (updDeployGroup o.toSqlite).stmt = false := by
    have hcompiles : (Stmt.update .TDeployConfig ["StragetyConfig", "DeployConfig", "ManagerName"]
        ["GroupName", "ManagerName"]).compiles = false := by decide
    exact (congrArg (o.prepared && ·) hcompiles).trans (Bool.and_false _)
  rw [freedOnce_batchCalls, hopens, hvalid]
  simp [hne]

theorem freedOnce_qryBySqlCalls (o : Outcomes) (t : EElementType) (sql : Str) :
    FreedOnce (qryBySqlCalls o t sql) ↔ o.opens = false ∨ (o.prepared && o.compiles sql) = true := by
  rw [qryBySqlCalls, freedOnce_scopeCalls]
  · rw [Bool.and_assoc]
    cases o.opens <;> simp
  · exact fun h => (Bool.and_eq_true_iff.1 (Bool.and_eq_true_iff.1 h).1).1
  · intro c hc
    split at hc
    · rcases List.mem_cons.1 hc with rfl | hc
      · rfl
      · rcases List.mem_append.1 hc with hc | hc
        · obtain ⟨row, hrow, hc⟩ := List.mem_flatten.1 hc
          rw [List.eq_of_mem_replicate hrow] at hc
          rcases List.mem_cons.1 hc with rfl | hc
          · rfl
          · obtain ⟨_, -, rfl⟩ := List.mem_map.1 hc
            rfl
        · have hend : ∀ d ∈ [SqliteCall.sqlite3_step, .sqlite3_exec], d.isUse = true := by decide
          exact hend c hc
    · rw [List.mem_singleton.1 hc]
      rfl

theorem freedOnce_delBySqlCalls (o : Outcomes) (sql : Str) :
    FreedOnce (delBySqlCalls o sql) ↔
      sql = [] ∨ o.opens = false ∨ (o.prepared && o.compiles sql) = true := by
  by_cases hne : sql = []
  · rw [hne, delBySqlCalls]
    exact iff_of_true ⟨nofun, nofun, rfl⟩ (.inl rfl)
  · rw [delBySqlCalls, if_neg (by rwa [List.length_eq_zero_iff]), freedOnce_scopeCalls]
    · rw [Bool.and_assoc, or_iff_right hne]
      cases o.opens <;> simp
    · exact fun h => (Bool.and_eq_true_iff.1 (Bool.and_eq_true_iff.1 h).1).1
    · intro c hc
      split at hc
      · revert c
        cases o.stepOk 0 <;> decide
      · rw [List.mem_singleton.1 hc]
        rfl

/-- **An operation frees its connection and its statement once, and uses neither afterwards, exactly
if it opens no connection or has a statement.** -/
theorem freedOnce_iff (o : Outcomes) (op : DbCall) :
    FreedOnce (op.calls o) ↔ op.idle ∨ o.opens = false ∨ op.prepared o = true := by
  cases op with
  | qryBySql t sql => exact (freedOnce_qryBySqlCalls o t sql).trans (or_iff_right id).symm
  | delBySql sql => exact freedOnce_delBySqlCalls o sql
  | byObjects op t objVec => exact freedOnce_batchCalls o _ objVec

/-- A query on a column that is not there, for which SQLite gives no statement: `close()` and the
destructor of `db` both free the connection. -/
theorem qryBySql_not_freedOnce :
    ¬ FreedOnce ((DbCall.qryBySql .TManageUser (text "select * from ManageUser where 1=1 and Nme='x';")).calls
      ⟨⟨true, fun _ => true, text "no such column: Nme", fun _ _ => []⟩, true, fun _ => false, 0⟩) :=
  fun h => absurd h.2.2 (by decide)

end CppLinuxLearn.Deployer
