import CppLinuxLearn.Deployer.AllOrNothing
import CppLinuxLearn.Deployer.ReadBack
import Mathlib.Data.List.Perm.Basic

/-!
# Storing and reading

The five query functions read the columns of a row by number and copy them into the fields of a
structure; the five insertions bind the fields of a structure by position. `stored_then_read` says
that they are inverse: what an insertion has stored is what a query of the whole table gives more than
before, and other tables are not concerned.
-/

namespace CppLinuxLearn.Deployer

open Lib Lib.Sql

/-! ## Queries -/

/-- How SQLite reads a table: the order in which its rows are visited, and how a column is converted
that is not of the type it is asked for. -/
structure Reader where
  scan : List Row → List Row
  scan_perm : ∀ rs, (scan rs).Perm rs
  intText : CInt → Str
  textInt : Str → CInt

/-- How SQLite answers a query: also what conditions mean in a row. -/
structure Engine (V : Type) extends Reader where
  meaning : EElementType → Row → Meaning V

section
variable (e : Reader)

/-- `getString`: a null pointer is no `std::string`. -/
def Reader.getString (r : Row) (nCol : Nat) : Option Str :=
  match r.getD nCol .null with
  | .null => none
  | .integer n => some (cstr (e.intText n))
  | .text s => some (cstr s)

def Reader.getInteger (r : Row) (nCol : Nat) : CInt :=
  match r.getD nCol .null with
  | .null => 0
  | .integer n => n
  | .text s => e.textInt s

/-- `strcpy(x.F, resultSet.getString(nCol).c_str())` behind `memset`; a text that is longer than the
field is written behind it. -/
def Reader.field {n : Nat} (r : Row) (nCol : Nat) : Option (CharArray n) := do
  let s ← e.getString r nCol
  if s.length < n then some (strcpy (Vector.replicate n 0) s) else none

/-- The body of the loop of `qryManageUserBySql`. -/
def Reader.ManageUser (r : Row) : Option ManageUser := do
  return { ManagerName := ← e.field r 0, ManagerPasswd := ← e.field r 1 }

def Reader.ServerConfig (r : Row) : Option ServerConfig := do
  return { ServerName := ← e.field r 0, ServerIP := ← e.field r 1, ServerPort := e.getInteger r 2 }

def Reader.StrategyConfig (r : Row) : Option StrategyConfig := do
  return { ConfigName := ← e.field r 0, PlatformName := ← e.field r 1, StragetyName := ← e.field r 2,
           SrcRootDir := ← e.field r 3, ManagerName := ← e.field r 4 }

def Reader.DeployConfig (r : Row) : Option DeployConfig := do
  return { ConfigName := ← e.field r 0, ServerName := ← e.field r 1, UserName := ← e.field r 2,
           UserPasswd := ← e.field r 3, DstRootDir := ← e.field r 4, ExeUser := ← e.field r 5,
           ManagerName := ← e.field r 6 }

def Reader.DeployGroup (r : Row) : Option DeployGroup := do
  return { GroupName := ← e.field r 0, StragetyConfig := ← e.field r 1, DeployConfig := ← e.field r 2,
           ManagerName := ← e.field r 3 }

def Reader.fetch : (t : EElementType) → Row → Option t.Struct
  | .TManageUser => e.ManageUser
  | .TServerConfig => e.ServerConfig
  | .TStrategyConfig => e.StrategyConfig
  | .TDeployConfig => e.DeployConfig
  | .TDeployGroup => e.DeployGroup

/-- The rows up to the first step that fails: `next()` takes a failure for the end. -/
def Sqlite.stepped (q : Sqlite) (rows : List Row) : List Row :=
  (rows.zipIdx.takeWhile fun p => q.stepOk p.2).map Prod.fst

/-- The vector that a query function returns, from the rows of its statement, if there is one; `none`
is undefined behaviour. -/
def qryRows (q : Sqlite) (t : EElementType) (rows : Option (List Row)) : Option (List t.Struct) :=
  match (if q.prepared then rows else none) with
  | some rows => (q.stepped rows).mapM (e.fetch t)
  | none => some []

end

section
variable {V : Type} (e : Engine V)

/-- The rows that a query gives, in the order of the visit; `none` if there is no statement for the
text. -/
def Engine.select (sql : Str) (db : Database) : Option (List Row) :=
  match readSql isColumn sql with
  | some ⟨.select, table, cond⟩ =>
    (EElementType.all.find? fun t => lower (text t.table) = lower table).map fun t =>
      (e.scan (db.rows t)).filter fun r => cond.picks (e.meaning t r)
  | _ => none

/-- `qryManageUserBySql` and its siblings. -/
def qryBySql (q : Sqlite) (t : EElementType) (sql : Str) (db : Database) : Option (List t.Struct) :=
  qryRows e.toReader q t (e.select sql db)

end

/-- `select * from <table> where 1=1;` -/
def selectAll (t : EElementType) : Str := text ("select * from " ++ t.table ++ " where 1=1;")

/-- Every call of SQLite succeeds. -/
def Sqlite.Answers (q : Sqlite) : Prop := q.prepared = true ∧ ∀ i, q.stepOk i = true

/-! ## Elements and rows -/

/-- The fields of an element, as C strings and integers, in the order of the columns. -/
def EElementType.row : (t : EElementType) → t.Struct → Row
  | .TManageUser, x => [.text (cstr x.ManagerName.toList), .text (cstr x.ManagerPasswd.toList)]
  | .TServerConfig, x =>
    [.text (cstr x.ServerName.toList), .text (cstr x.ServerIP.toList), .integer x.ServerPort]
  | .TStrategyConfig, x =>
    [.text (cstr x.ConfigName.toList), .text (cstr x.PlatformName.toList),
      .text (cstr x.StragetyName.toList), .text (cstr x.SrcRootDir.toList),
      .text (cstr x.ManagerName.toList)]
  | .TDeployConfig, x =>
    [.text (cstr x.ConfigName.toList), .text (cstr x.ServerName.toList), .text (cstr x.UserName.toList),
      .text (cstr x.UserPasswd.toList), .text (cstr x.DstRootDir.toList),
      .text (cstr x.ExeUser.toList), .text (cstr x.ManagerName.toList)]
  | .TDeployGroup, x =>
    [.text (cstr x.GroupName.toList), .text (cstr x.StragetyConfig.toList),
      .text (cstr x.DeployConfig.toList), .text (cstr x.ManagerName.toList)]

/-- Every character field has its NUL. -/
def EElementType.Terminated : (t : EElementType) → t.Struct → Prop
  | .TManageUser, x => 0 ∈ x.ManagerName.toList ∧ 0 ∈ x.ManagerPasswd.toList
  | .TServerConfig, x => 0 ∈ x.ServerName.toList ∧ 0 ∈ x.ServerIP.toList
  | .TStrategyConfig, x =>
    0 ∈ x.ConfigName.toList ∧ 0 ∈ x.PlatformName.toList ∧ 0 ∈ x.StragetyName.toList ∧
      0 ∈ x.SrcRootDir.toList ∧ 0 ∈ x.ManagerName.toList
  | .TDeployConfig, x =>
    0 ∈ x.ConfigName.toList ∧ 0 ∈ x.ServerName.toList ∧ 0 ∈ x.UserName.toList ∧
      0 ∈ x.UserPasswd.toList ∧ 0 ∈ x.DstRootDir.toList ∧ 0 ∈ x.ExeUser.toList ∧
      0 ∈ x.ManagerName.toList
  | .TDeployGroup, x =>
    0 ∈ x.GroupName.toList ∧ 0 ∈ x.StragetyConfig.toList ∧ 0 ∈ x.DeployConfig.toList ∧
      0 ∈ x.ManagerName.toList

theorem Sqlite.str_of_mem (q : Sqlite) (i : Nat) (col : String) {n : Nat} {a : CharArray n}
    (h : (0 : UInt8) ∈ a.toList) : q.str i col a = .text (cstr a.toList) :=
  congrArg Value.text (cstr_append_of_mem h _)

theorem bind_insByObjects (q : Sqlite) (t : EElementType) (i : Nat) {x : t.Struct}
    (hx : t.Terminated x) : (insByObjects q t).bind i x = t.row x := by
  cases t with
  | TManageUser =>
    obtain ⟨h₁, h₂⟩ := hx
    simp only [insByObjects, insManagerUser, q.str_of_mem i _ h₁, q.str_of_mem i _ h₂,
      EElementType.row]
  | TServerConfig =>
    obtain ⟨h₁, h₂⟩ := hx
    simp only [insByObjects, insServerConfig, q.str_of_mem i _ h₁, q.str_of_mem i _ h₂,
      EElementType.row]
  | TStrategyConfig =>
    obtain ⟨h₁, h₂, h₃, h₄, h₅⟩ := hx
    simp only [insByObjects, insStrategyConfig, q.str_of_mem i _ h₁, q.str_of_mem i _ h₂,
      q.str_of_mem i _ h₃, q.str_of_mem i _ h₄, q.str_of_mem i _ h₅, EElementType.row]
  | TDeployConfig =>
    obtain ⟨h₁, h₂, h₃, h₄, h₅, h₆, h₇⟩ := hx
    simp only [insByObjects, insDeployConfig, q.str_of_mem i _ h₁, q.str_of_mem i _ h₂,
      q.str_of_mem i _ h₃, q.str_of_mem i _ h₄, q.str_of_mem i _ h₅, q.str_of_mem i _ h₆,
      q.str_of_mem i _ h₇, EElementType.row]
  | TDeployGroup =>
    obtain ⟨h₁, h₂, h₃, h₄⟩ := hx
    simp only [insByObjects, insDeployGroup, q.str_of_mem i _ h₁, q.str_of_mem i _ h₂,
      q.str_of_mem i _ h₃, q.str_of_mem i _ h₄, EElementType.row]

theorem exec_insByObjects (q : Sqlite) (t : EElementType) (i : Nat) (x : t.Struct) (db : Database) :
    ((insByObjects q t).stmt.exec ((insByObjects q t).bind i x) db).2 =
      db.setRows t (db.rows t ++ [(insByObjects q t).bind i x]) := by
  cases t <;> rfl

theorem Database.setRows_setRows (db : Database) (t : EElementType) (rs rs' : List Row) :
    (db.setRows t rs).setRows t rs' = db.setRows t rs' := by
  cases t <;> rfl

theorem Database.setRows_rows (db : Database) (t : EElementType) : db.setRows t (db.rows t) = db := by
  cases t <;> rfl

theorem applyAll_insByObjects (q : Sqlite) (t : EElementType) (objVec : List t.Struct) :
    ∀ (i : Nat) (db : Database), (∀ x ∈ objVec, t.Terminated x) →
      (insByObjects q t).applyAll i objVec db = db.setRows t (db.rows t ++ objVec.map t.row) := by
  induction objVec with
  | nil => intro i db _; rw [Batch.applyAll, List.map_nil, List.append_nil, db.setRows_rows]
  | cons x xs ih =>
    intro i db hterm
    have hx := hterm x List.mem_cons_self
    rw [Batch.applyAll, exec_insByObjects, bind_insByObjects q t i hx,
      ih (i + 1) _ fun y hy => hterm y (List.mem_cons_of_mem x hy), Database.rows_setRows,
      Database.setRows_setRows, List.append_assoc]
    rfl

/-- **An insertion that returns no error has stored its vector.** -/
theorem insByObjects_stored {q : Sqlite} {t : EElementType} {objVec : List t.Struct} {db : Database}
    (hterm : ∀ x ∈ objVec, t.Terminated x) (hres : 0 ≤ ((insByObjects q t).call q objVec db).res) :
    ((insByObjects q t).call q objVec db).db = db.setRows t (db.rows t ++ objVec.map t.row) := by
  cases call_ended (insByObjects q t) q objVec db with
  | empty hnil _ hdb => rw [hdb, hnil, List.map_nil, List.append_nil, db.setRows_rows]
  | invalid _ hneg => omega
  | failed _ _ hneg => omega
  | done _ _ hdb => exact hdb.trans (applyAll_insByObjects q t objVec 0 db hterm)

/-! ## Reading back -/

section
variable (e : Reader)

theorem Reader.field_text (r : Row) (nCol : Nat) {n : Nat} {a : CharArray n}
    (h : (0 : UInt8) ∈ a.toList) (hr : r.getD nCol .null = .text (cstr a.toList)) :
    ∃ b : CharArray n, e.field r nCol = some b ∧ cstr b.toList = cstr a.toList := by
  have hzero := zero_not_mem_cstr a.toList
  have hlt : (cstr a.toList).length < n := (length_cstr_lt h).trans_eq a.length_toList
  refine ⟨strcpy (Vector.replicate n 0) (cstr a.toList), ?_, cstr_strcpy hzero hlt⟩
  rw [field, getString, hr]
  simp only [cstr_of_not_mem hzero]
  exact if_pos hlt

/-- The row of an element is read as that element. -/
theorem Reader.fetch_row (t : EElementType) {x : t.Struct} (hx : t.Terminated x) :
    ∃ y, e.fetch t (t.row x) = some y ∧ t.row y = t.row x := by
  cases t with
  | TManageUser =>
    obtain ⟨h₁, h₂⟩ := hx
    obtain ⟨b₁, e₁, r₁⟩ := e.field_text (EElementType.row .TManageUser x) 0 h₁ rfl
    obtain ⟨b₂, e₂, r₂⟩ := e.field_text (EElementType.row .TManageUser x) 1 h₂ rfl
    refine ⟨⟨b₁, b₂⟩, ?_, ?_⟩
    · simp only [fetch, ManageUser, e₁, e₂]
      rfl
    · simp only [EElementType.row, r₁, r₂]
  | TServerConfig =>
    obtain ⟨h₁, h₂⟩ := hx
    obtain ⟨b₁, e₁, r₁⟩ := e.field_text (EElementType.row .TServerConfig x) 0 h₁ rfl
    obtain ⟨b₂, e₂, r₂⟩ := e.field_text (EElementType.row .TServerConfig x) 1 h₂ rfl
    refine ⟨⟨b₁, b₂, x.ServerPort⟩, ?_, ?_⟩
    · simp only [fetch, ServerConfig, e₁, e₂]
      rfl
    · simp only [EElementType.row, r₁, r₂]
  | TStrategyConfig =>
    obtain ⟨h₁, h₂, h₃, h₄, h₅⟩ := hx
    obtain ⟨b₁, e₁, r₁⟩ := e.field_text (EElementType.row .TStrategyConfig x) 0 h₁ rfl
    obtain ⟨b₂, e₂, r₂⟩ := e.field_text (EElementType.row .TStrategyConfig x) 1 h₂ rfl
    obtain ⟨b₃, e₃, r₃⟩ := e.field_text (EElementType.row .TStrategyConfig x) 2 h₃ rfl
    obtain ⟨b₄, e₄, r₄⟩ := e.field_text (EElementType.row .TStrategyConfig x) 3 h₄ rfl
    obtain ⟨b₅, e₅, r₅⟩ := e.field_text (EElementType.row .TStrategyConfig x) 4 h₅ rfl
    refine ⟨⟨b₁, b₂, b₃, b₄, b₅⟩, ?_, ?_⟩
    · simp only [fetch, StrategyConfig, e₁, e₂, e₃, e₄, e₅]
      rfl
    · simp only [EElementType.row, r₁, r₂, r₃, r₄, r₅]
  | TDeployConfig =>
    obtain ⟨h₁, h₂, h₃, h₄, h₅, h₆, h₇⟩ := hx
    obtain ⟨b₁, e₁, r₁⟩ := e.field_text (EElementType.row .TDeployConfig x) 0 h₁ rfl
    obtain ⟨b₂, e₂, r₂⟩ := e.field_text (EElementType.row .TDeployConfig x) 1 h₂ rfl
    obtain ⟨b₃, e₃, r₃⟩ := e.field_text (EElementType.row .TDeployConfig x) 2 h₃ rfl
    obtain ⟨b₄, e₄, r₄⟩ := e.field_text (EElementType.row .TDeployConfig x) 3 h₄ rfl
    obtain ⟨b₅, e₅, r₅⟩ := e.field_text (EElementType.row .TDeployConfig x) 4 h₅ rfl
    obtain ⟨b₆, e₆, r₆⟩ := e.field_text (EElementType.row .TDeployConfig x) 5 h₆ rfl
    obtain ⟨b₇, e₇, r₇⟩ := e.field_text (EElementType.row .TDeployConfig x) 6 h₇ rfl
    refine ⟨⟨b₁, b₂, b₃, b₄, b₅, b₆, b₇⟩, ?_, ?_⟩
    · simp only [fetch, DeployConfig, e₁, e₂, e₃, e₄, e₅, e₆, e₇]
      rfl
    · simp only [EElementType.row, r₁, r₂, r₃, r₄, r₅, r₆, r₇]
  | TDeployGroup =>
    obtain ⟨h₁, h₂, h₃, h₄⟩ := hx
    obtain ⟨b₁, e₁, r₁⟩ := e.field_text (EElementType.row .TDeployGroup x) 0 h₁ rfl
    obtain ⟨b₂, e₂, r₂⟩ := e.field_text (EElementType.row .TDeployGroup x) 1 h₂ rfl
    obtain ⟨b₃, e₃, r₃⟩ := e.field_text (EElementType.row .TDeployGroup x) 2 h₃ rfl
    obtain ⟨b₄, e₄, r₄⟩ := e.field_text (EElementType.row .TDeployGroup x) 3 h₄ rfl
    refine ⟨⟨b₁, b₂, b₃, b₄⟩, ?_, ?_⟩
    · simp only [fetch, DeployGroup, e₁, e₂, e₃, e₄]
      rfl
    · simp only [EElementType.row, r₁, r₂, r₃, r₄]

end

section
variable {V : Type} (e : Engine V)

theorem find?_table (t : EElementType) :
    EElementType.all.find? (fun u => lower (text u.table) = lower (text t.table)) = some t := by
  cases t <;> decide +kernel

theorem Engine.select_selectAll (t : EElementType) (db : Database) :
    e.select (selectAll t) db = some (e.scan (db.rows t)) := by
  have hread : readSql isColumn (selectAll t) = some ⟨.select, text t.table, one⟩ := by
    cases t <;> decide +kernel
  have hone : ∀ r, one.picks (e.meaning t r) = true := fun r => (e.meaning t r).holds_eq_number _
  rw [select, hread]
  simp only [find?_table, Option.map_some, hone, List.filter_true]

theorem Sqlite.stepped_of_answers {q : Sqlite} (hq : q.Answers) (rows : List Row) :
    q.stepped rows = rows := by
  have hall : rows.zipIdx.takeWhile (fun p => q.stepOk p.2) = rows.zipIdx :=
    List.takeWhile_eq_self_iff.2 fun p _ => hq.2 p.2
  rw [stepped, hall, List.zipIdx_map_fst]

theorem qryBySql_selectAll {q : Sqlite} (hq : q.Answers) (t : EElementType) (db : Database) :
    qryBySql e q t (selectAll t) db = (e.scan (db.rows t)).mapM (e.fetch t) := by
  rw [qryBySql, qryRows, if_pos hq.1, e.select_selectAll]
  simp only [q.stepped_of_answers hq]

end

theorem mapM_eq_some_iff {α β : Type} {f : α → Option β} {l : List α} {bs : List β} :
    l.mapM f = some bs ↔ List.Forall₂ (fun a b => f a = some b) l bs := by
  induction l generalizing bs with
  | nil => cases bs <;> simp
  | cons a l ih =>
    rw [List.mapM_cons, List.forall₂_cons_left_iff]
    constructor
    · intro h
      obtain ⟨b, hb, h⟩ := Option.bind_eq_some_iff.1 h
      obtain ⟨cs, hcs, h⟩ := Option.bind_eq_some_iff.1 h
      exact ⟨b, cs, hb, ih.1 hcs, (Option.some.inj h).symm⟩
    · rintro ⟨b, cs, hb, hcs, rfl⟩
      exact Option.bind_eq_some_iff.2 ⟨b, hb, Option.bind_eq_some_iff.2 ⟨cs, ih.2 hcs, rfl⟩⟩

theorem mapM_perm {α β : Type} {f : α → Option β} {l l' : List α} (h : l.Perm l') {bs : List β}
    (hl : l.mapM f = some bs) : ∃ bs', l'.mapM f = some bs' ∧ bs'.Perm bs := by
  obtain ⟨bs', hbs, hperm⟩ := List.perm_comp_forall₂ h.symm (mapM_eq_some_iff.1 hl)
  exact ⟨bs', mapM_eq_some_iff.2 hbs, hperm⟩

theorem Reader.fetch_rows (e : Reader) (t : EElementType) {objVec : List t.Struct}
    (hterm : ∀ x ∈ objVec, t.Terminated x) :
    ∃ ys, (objVec.map t.row).mapM (e.fetch t) = some ys ∧ ys.map t.row = objVec.map t.row := by
  induction objVec with
  | nil => exact ⟨[], rfl, rfl⟩
  | cons x xs ih =>
    obtain ⟨y, hy, hrow⟩ := e.fetch_row t (hterm x List.mem_cons_self)
    obtain ⟨ys, hys, hrows⟩ := ih fun z hz => hterm z (List.mem_cons_of_mem x hz)
    refine ⟨y :: ys, ?_, ?_⟩
    · rw [List.map_cons, List.mapM_cons, hy, hys]
      rfl
    · rw [List.map_cons, List.map_cons, hrow, hrows]

section
variable {V : Type} (e : Engine V)

/-- **Storing then reading**: an insertion that returns no error adds its vector, field for field, to
what a query of the whole table gives, and leaves the queries of other tables as they are. -/
theorem stored_then_read {q before after : Sqlite} {t : EElementType} {objVec : List t.Struct}
    {db : Database} (hbefore : before.Answers) (hafter : after.Answers)
    (hterm : ∀ x ∈ objVec, t.Terminated x) (hres : 0 ≤ ((insByObjects q t).call q objVec db).res) :
    (∀ xs, qryBySql e before t (selectAll t) db = some xs →
      ∃ ys, qryBySql e after t (selectAll t) ((insByObjects q t).call q objVec db).db = some ys ∧
        (ys.map t.row).Perm ((xs ++ objVec).map t.row)) ∧
    ∀ u, u ≠ t → qryBySql e after u (selectAll u) ((insByObjects q t).call q objVec db).db =
      qryBySql e before u (selectAll u) db := by
  rw [insByObjects_stored hterm hres]
  refine ⟨fun xs hxs => ?_, fun u hu => ?_⟩
  · rw [qryBySql_selectAll e hbefore] at hxs
    rw [qryBySql_selectAll e hafter, Database.rows_setRows]
    obtain ⟨old, hold, hperm⟩ := mapM_perm (e.scan_perm (db.rows t)) hxs
    obtain ⟨new, hnew, hrows⟩ := e.fetch_rows t hterm
    have hboth : (db.rows t ++ objVec.map t.row).mapM (e.fetch t) = some (old ++ new) := by
      rw [List.mapM_append, hold, hnew]
      rfl
    obtain ⟨ys, hys, hall⟩ := mapM_perm (e.scan_perm (db.rows t ++ objVec.map t.row)).symm hboth
    refine ⟨ys, hys, (hall.map t.row).trans ?_⟩
    rw [List.map_append, List.map_append, hrows]
    exact (hperm.map t.row).append_right _
  · rw [qryBySql_selectAll e hbefore, qryBySql_selectAll e hafter, Database.rows_setRows_ne db _ hu]

end

/-- What the parts of a condition mean in a row of the table, with numbers for truth values. -/
def rowMeaning (t : EElementType) (r : Row) : Meaning Value where
  column s := r.getD (t.columns.findIdx fun c => lower (text c) = lower s) .null
  literal s := .text s
  number s := .integer (s.foldl (fun n c => 10 * n + BitVec.ofNat 32 (c.toNat - 0x30)) 0)
  eq a b := .integer (if a.eq b then 1 else 0)
  and a b := .integer (if a = .integer 1 ∧ b = .integer 1 then 1 else 0)
  or a b := .integer (if a = .integer 1 ∨ b = .integer 1 then 1 else 0)
  holds v := v = .integer 1
  holds_and a b := by by_cases ha : a = .integer 1 <;> by_cases hb : b = .integer 1 <;> simp [ha, hb]
  holds_or a b := by by_cases ha : a = .integer 1 <;> by_cases hb : b = .integer 1 <;> simp [ha, hb]
  holds_eq_literal s := by simp [Value.eq]
  holds_eq_number s := by simp [Value.eq]

/-- Rows in the order of their insertion. -/
def plainEngine : Engine Value where
  meaning := rowMeaning
  scan := id
  scan_perm := List.Perm.refl
  intText n := text (toString n.toInt)
  textInt s := BitVec.ofNat 32 ((s.takeWhile isDigit).foldl (fun n c => 10 * n + (c.toNat - 0x30)) 0)

def allSucceeds : Sqlite := ⟨true, fun _ => true, [], fun _ _ => []⟩

def server (name ip : String) (port : CInt) : ServerConfig :=
  ⟨strcpy (Vector.replicate 64 0) (text name), strcpy (Vector.replicate 64 0) (text ip), port⟩

def webServer : Database :=
  ⟨[], [EElementType.row .TServerConfig (server "web" "10.0.0.6" 80)], [], [], []⟩

theorem qryBySql_webServer : qryBySql plainEngine allSucceeds .TServerConfig (selectAll .TServerConfig) webServer =
    some [server "web" "10.0.0.6" 80] := by
  have hanswers : allSucceeds.Answers := ⟨rfl, fun _ => rfl⟩
  rw [qryBySql_selectAll plainEngine hanswers]
  decide +kernel

theorem stored_then_read_server :
    (∃ ys, qryBySql plainEngine allSucceeds .TServerConfig (selectAll .TServerConfig)
        ((insByObjects allSucceeds .TServerConfig).call allSucceeds [server "db" "10.0.0.7" 22]
          webServer).db = some ys ∧
      (ys.map (EElementType.row .TServerConfig)).Perm
        ([server "web" "10.0.0.6" 80, server "db" "10.0.0.7" 22].map (EElementType.row .TServerConfig))) ∧
    ∀ u, u ≠ .TServerConfig → qryBySql plainEngine allSucceeds u (selectAll u)
        ((insByObjects allSucceeds .TServerConfig).call allSucceeds [server "db" "10.0.0.7" 22]
          webServer).db =
      qryBySql plainEngine allSucceeds u (selectAll u) webServer := by
  have hres : 0 ≤ ((insByObjects allSucceeds .TServerConfig).call allSucceeds [server "db" "10.0.0.7" 22]
      webServer).res := by decide +kernel
  have hanswers : allSucceeds.Answers := ⟨rfl, fun _ => rfl⟩
  obtain ⟨hread, hothers⟩ := stored_then_read plainEngine hanswers hanswers (fun x hx => by
    rw [List.mem_singleton.1 hx]
    exact ⟨by decide +kernel, by decide +kernel⟩) hres
  exact ⟨hread _ qryBySql_webServer, hothers⟩

end CppLinuxLearn.Deployer
