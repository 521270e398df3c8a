import CppLinuxLearn.Deployer.Order

/-!
# Column filters

`TQuery` and `TDelByCol` make a text of their filters, SQLite reads it, and the rows are picked. From the
filters to the rows: where the values are plain, a query gives the rows that pass all of them, and a
deletion takes these rows and no other, so that what one request has deleted no later one finds.
-/

namespace CppLinuxLearn.Deployer

open Lib Lib.Sql

section
variable {V : Type}

/-- The row passes every filter. -/
def Engine.passes (e : Engine V) (t : EElementType) (fs : List (FittingFilter t)) (r : Row) : Bool :=
  fs.all fun f => (e.meaning t r).holds
    ((e.meaning t r).eq ((e.meaning t r).column f.ColName) ((e.meaning t r).literal f.ColVal))

/-- The rows that a text `delete from <table of t> where ..` takes. -/
def Engine.hits (e : Engine V) (t : EElementType) (sql : Str) : Option (Row → Bool) :=
  match readSql isColumn sql with
  | some ⟨.delete, table, cond⟩ =>
    if lower (text t.table) = lower table then some fun r => cond.picks (e.meaning t r) else none
  | _ => none

/-- The filters of a request. -/
def filtersOf {t : EElementType} (fs : List (FittingFilter t)) : List ColumnFilter := fs.map (·.toColumnFilter)

/-- SQLite answers the queries and deletions of the world as the engine does, where their filters have
plain values. -/
structure World.Backed (w : World) (e : Engine V) : Prop where
  toReader : e.toReader = w.toReader
  selects : ∀ (t : EElementType) (fs : List (FittingFilter t)), (∀ f ∈ fs, Plain t f.ColVal) → ∀ db,
    w.selects t (queryText w.beyond t.toInt (filtersOf fs)) db =
      e.select (queryText w.beyond t.toInt (filtersOf fs)) db
  deletes : ∀ (t : EElementType) (fs : List (FittingFilter t)), (∀ f ∈ fs, Plain t f.ColVal) →
    w.deletes t (deleteText w.beyond t.toInt (filtersOf fs)) = e.hits t (deleteText w.beyond t.toInt (filtersOf fs))

theorem plainWorld_backed : plainWorld.Backed plainEngine := ⟨rfl, fun _ _ _ _ => rfl, fun _ _ _ => rfl⟩

variable {e : Engine V} {t : EElementType} {fs : List (FittingFilter t)}

theorem readsBack_of_plain (hplain : ∀ f ∈ fs, Plain t f.ColVal) : ReadsBack t fs := by
  have hconj : conjunction (fs.map (·.toColumnFilter)) = (joined .and none one).ands (fs.map (·.test)) := by
    rw [conjunction, List.map_map]
    rfl
  intro beyond
  rw [readSql_queryText, readSql_deleteText, hconj, (readRest_tailText fs none one).2 hplain]
  exact ⟨rfl, rfl⟩

theorem picks_filters (r : Row) : (conjunction (filtersOf fs)).picks (e.meaning t r) = e.passes t fs r := by
  rw [picks_conjunction, filtersOf, List.all_map]
  rfl

theorem Engine.select_queryText (hplain : ∀ f ∈ fs, Plain t f.ColVal) (beyond : CInt → Str) (db : Database) :
    e.select (queryText beyond t.toInt (filtersOf fs)) db = some ((e.scan (db.rows t)).filter (e.passes t fs)) := by
  have hread := (readsBack_of_plain hplain beyond).1
  rw [select, filtersOf, hread]
  simp only [find?_table, Option.map_some]
  congr 2
  funext r
  exact picks_filters r

theorem Engine.hits_deleteText (hplain : ∀ f ∈ fs, Plain t f.ColVal) (beyond : CInt → Str) :
    e.hits t (deleteText beyond t.toInt (filtersOf fs)) = some (e.passes t fs) := by
  have hread := (readsBack_of_plain hplain beyond).2
  rw [hits, filtersOf, hread]
  simp only [if_true]
  congr 1
  funext r
  exact picks_filters r

/-! ## The tasks -/

/-- The task of a query by filters. -/
def queryOp (w : World) (t : EElementType) (fs : List (FittingFilter t)) : TaskOp :=
  .onQryBySql t (queryText w.beyond t.toInt (filtersOf fs)) t.toInt

/-- The task of a deletion by filters. -/
def delByColOp (w : World) (t : EElementType) (fs : List (FittingFilter t)) : TaskOp :=
  .onDelBySql t (deleteText w.beyond t.toInt (filtersOf fs)) t.toInt

variable {w : World}

theorem task_filters (w : World) (reqid : CInt) (fs : List (FittingFilter t)) :
    (Request.query reqid t.toInt (filtersOf fs)).task w.toEnv = some (queryOp w t fs, reqid) ∧
      (Request.delByCol reqid t.toInt (filtersOf fs)).task w.toEnv = some (delByColOp w t fs, reqid) := by
  simp [Request.task, queryOp, delByColOp]

theorem exec_queryOp (hw : w.Backed e) (hplain : ∀ f ∈ fs, Plain t f.ColVal) {q : Sqlite} (hq : q.Answers)
    (db : Database) : (queryOp w t fs).exec w q db =
      (((w.scan (db.rows t)).filter (e.passes t fs)).mapM (w.fetch t)).map fun objs => ⟨0, objs, some [], db⟩ := by
  have hselect := (hw.selects t fs hplain db).trans (Engine.select_queryText hplain w.beyond db)
  rw [hw.toReader] at hselect
  change (qryRows w.toReader q t (w.selects t _ db)).map _ = _
  rw [hselect, qryRows, if_pos hq.1]
  simp only [q.stepped_of_answers hq, hq.1, Option.isSome_some, Bool.and_self, if_true]
  rfl

/-- A deletion that does not fail takes the rows that pass; one that fails takes none. -/
theorem exec_delByColOp (hw : w.Backed e) (hplain : ∀ f ∈ fs, Plain t f.ColVal) (q : Sqlite) (db : Database) :
    ∃ x, (delByColOp w t fs).exec w q db = some x ∧ (x.res < 0 ∧ x.db = db ∨
      x.res = (db.rows t).countP (e.passes t fs) ∧
        x.db = db.setRows t ((db.rows t).filter fun r => !e.passes t fs r)) := by
  have htext : e.hits t (deleteText w.beyond t.toInt (filtersOf fs)) = some (e.passes t fs) :=
    Engine.hits_deleteText hplain w.beyond
  have hhits := (hw.deletes t fs hplain).trans htext
  have hne : (deleteText w.beyond t.toInt (filtersOf fs)).length ≠ 0 := by
    intro hlen
    have hnone : e.hits t [] = none := rfl
    rw [List.length_eq_zero_iff.1 hlen, hnone] at htext
    cases htext
  refine ⟨_, rfl, ?_⟩
  simp only [Called.executed, delBySql, if_neg hne, hhits]
  cases hprepared : q.prepared with
  | false =>
    left
    simp [SQLITEDATABASE_ERROR]
    rfl
  | true =>
    cases hstep : q.stepOk 0 with
    | false =>
      left
      simp [SQLITEDATABASE_ERROR]
      rfl
    | true =>
      right
      simp
      exact ⟨rfl, rfl⟩

theorem passes_mono {gs : List (FittingFilter t)} (hsub : fs ⊆ gs) {r : Row} (h : e.passes t gs r = true) :
    e.passes t fs r = true := by
  rw [Engine.passes, List.all_eq_true] at h ⊢
  intro f hf
  exact h f (hsub hf)

/-- **What one request deletes no later one finds.** A deletion by filters that does not fail leaves the other
tables, returns how many rows passed, and a query by filters then gives the rows of before that pass its own
filters and not those of the deletion. -/
theorem queried_after_deletion (hw : w.Backed e) {fs gs : List (FittingFilter t)} (hfs : ∀ f ∈ fs, Plain t f.ColVal)
    (hgs : ∀ f ∈ gs, Plain t f.ColVal) {q q' : Sqlite} {db : Database} {x y : Executed t}
    (hx : (delByColOp w t fs).exec w q db = some x) (hres : 0 ≤ x.res) (hq' : q'.Answers)
    (hy : (queryOp w t gs).exec w q' x.db = some y) :
    x.res = (db.rows t).countP (e.passes t fs) ∧ (∀ u, u ≠ t → x.db.rows u = db.rows u) ∧
      (∃ rows, rows.Perm ((db.rows t).filter fun r => e.passes t gs r && !e.passes t fs r) ∧
        List.Forall₂ (fun r obj => w.fetch t r = some obj) rows y.qryObjs) ∧
      (fs ⊆ gs → y.qryObjs = []) := by
  obtain ⟨x', hx', hend⟩ := exec_delByColOp hw hfs q db
  obtain rfl : x' = x := Option.some.inj (hx'.symm.trans hx)
  rcases hend with ⟨hneg, -⟩ | ⟨hcount, hdb⟩
  · omega
  rw [exec_queryOp hw hgs hq', hdb, Database.rows_setRows] at hy
  obtain ⟨objs, hobjs, rfl⟩ := Option.map_eq_some_iff.1 hy
  have hrows := mapM_eq_some_iff.1 hobjs
  have hperm : ((w.scan ((db.rows t).filter fun r => !e.passes t fs r)).filter (e.passes t gs)).Perm
      ((db.rows t).filter fun r => e.passes t gs r && !e.passes t fs r) := by
    refine ((w.scan_perm _).filter _).trans ?_
    rw [List.filter_filter]
  refine ⟨hcount, fun u hu => ?_, ⟨_, hperm, hrows⟩, fun hsub => ?_⟩
  · rw [hdb, Database.rows_setRows_ne db _ hu]
  · -- no row passes the filters of the query and not those of the deletion
    have hnil : ((db.rows t).filter fun r => e.passes t gs r && !e.passes t fs r) = [] := by
      rw [List.filter_eq_nil_iff]
      intro r _ hr
      obtain ⟨hpass, hnot⟩ := Bool.and_eq_true_iff.1 hr
      rw [passes_mono hsub hpass] at hnot
      cases hnot
    rw [hnil, List.perm_nil] at hperm
    rw [hperm, List.forall₂_nil_left_iff] at hrows
    exact hrows

end

/-! ## Two servers -/

/-- `ServerName` is to be the given name. -/
def serverNamed (name : String) (hfits : Fits (clauseText ⟨text "ServerName", text name⟩)) :
    FittingFilter .TServerConfig where
  ColName := text "ServerName"
  ColVal := text name
  column := by decide
  fits := hfits

def webFilter : FittingFilter .TServerConfig := serverNamed "web" (by decide)

def twoServers : Database :=
  ⟨[], [EElementType.row .TServerConfig (server "web" "10.0.0.6" 80),
    EElementType.row .TServerConfig (server "db" "10.0.0.7" 22)], [], [], []⟩

theorem deleteWeb_isSome : ((delByColOp plainWorld .TServerConfig [webFilter]).exec plainWorld allSucceeds
    twoServers).isSome := by
  decide +kernel

def webDeleted : Executed .TServerConfig := Option.get _ deleteWeb_isSome

theorem queryWeb_isSome : ((queryOp plainWorld .TServerConfig [webFilter]).exec plainWorld allSucceeds
    webDeleted.db).isSome := by
  decide +kernel

def webQueried : Executed .TServerConfig := Option.get _ queryWeb_isSome

/-- `web` is deleted, and a query for it gives nothing. -/
theorem queried_after_deletion_web :
    webDeleted.res = (twoServers.rows .TServerConfig).countP (plainEngine.passes .TServerConfig [webFilter]) ∧
      (∀ u, u ≠ .TServerConfig → webDeleted.db.rows u = twoServers.rows u) ∧
      (∃ rows, rows.Perm ((twoServers.rows .TServerConfig).filter fun r =>
          plainEngine.passes .TServerConfig [webFilter] r && !plainEngine.passes .TServerConfig [webFilter] r) ∧
        List.Forall₂ (fun r obj => plainWorld.fetch .TServerConfig r = some obj) rows webQueried.qryObjs) ∧
      ([webFilter] ⊆ [webFilter] → webQueried.qryObjs = []) := by
  have hplain : ∀ f ∈ [webFilter], Plain .TServerConfig f.ColVal := by decide +kernel
  exact queried_after_deletion plainWorld_backed hplain hplain (Option.some_get deleteWeb_isSome).symm
    (by decide +kernel) ⟨rfl, fun _ => rfl⟩ (Option.some_get queryWeb_isSome).symm

end CppLinuxLearn.Deployer
