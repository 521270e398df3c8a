import CppLinuxLearn.Deployer.Pool

/-!
# The names of the managers

The column `ManagerName` of `ManageUser` as C strings, which is what the manager cache holds, and what
the database operations do to it: a deletion takes names away, an update keeps them, and an insertion
adds those of its vector up to the first step that fails.
-/

namespace CppLinuxLearn.Deployer

open Lib Multipart Steps

/-- The names of the managers in the table. -/
def Reader.names (e : Reader) (db : Database) : List Str := db.ManageUser.filterMap (e.getString · 0)

/-- The name that is bound for the element at position `i` of a vector. -/
def boundName (q : Sqlite) (i : Nat) (x : ManageUser) : Str :=
  cstr (x.ManagerName.toList ++ q.behind i "ManagerName")

/-- The task may change the rows of `ManageUser`. -/
def TaskOp.changesManagers : TaskOp → Bool
  | onQryBySql _ _ _ => false
  | onDelBySql t _ _ | onByObjects _ t _ => t = .TManageUser

/-- The task is a deletion from `ManageUser`. -/
def TaskOp.deletesManagers : TaskOp → Bool
  | onDelBySql t _ _ | onByObjects .del t _ => t = .TManageUser
  | _ => false

theorem TaskOp.changesManagers_of_deletes {op : TaskOp} (h : op.deletesManagers = true) :
    op.changesManagers = true := by
  unfold deletesManagers at h
  split at h
  · exact h
  · exact h
  · cases h

/-- The task is an insertion, and `u` is the name of one of its managers. -/
def TaskOp.InsertsName (q : Sqlite) (u : Str) : TaskOp → Prop
  | onByObjects .ins .TManageUser objVec => ∃ j x, objVec[j]? = some x ∧ boundName q j x = u
  | _ => False

/-- If the task is an insertion of managers of which a step fails, those before it had names that are
in the table. -/
def TaskOp.FailsClean (e : Reader) (q : Sqlite) (db : Database) : TaskOp → Prop
  | onByObjects .ins .TManageUser objVec =>
    q.isValid (insManagerUser q).stmt = true → ∀ k, FirstFailure q objVec.length k →
      ∀ j x, j < k → objVec[j]? = some x → boundName q j x ∈ e.names db
  | _ => True

theorem TaskOp.failsClean_of_stepOk (e : Reader) {q : Sqlite} (hq : ∀ i, q.stepOk i = true)
    (db : Database) (op : TaskOp) : op.FailsClean e q db := by
  unfold FailsClean
  split
  · intro _ k hk
    rw [FirstFailure, hq k] at hk
    cases hk.2.1
  · trivial

/-! ## Reading the names -/

section
variable (e : Reader)

theorem Reader.field_name {r : Row} {nCol n : Nat} {a : CharArray n} (h : e.field r nCol = some a) :
    e.getString r nCol = some (cstr (bytes a)) := by
  obtain ⟨s, hs, h⟩ := Option.bind_eq_some_iff.1 h
  obtain ⟨hlt, h⟩ := Option.ite_none_right_eq_some.1 h
  have hzero : (0 : UInt8) ∉ s := by
    rw [getString] at hs
    split at hs
    · cases hs
    · exact Option.some.inj hs ▸ zero_not_mem_cstr _
    · exact Option.some.inj hs ▸ zero_not_mem_cstr _
  rw [hs, ← Option.some.inj h]
  exact congrArg some (cstr_strcpy hzero hlt).symm

theorem World.managers_names {w : World} {db : Database} {vc : List ManageUser}
    (h : w.managers db = some vc) (u : Str) :
    u ∈ (vc.map fun m => cstr (bytes m.ManagerName)) ↔ u ∈ w.names db := by
  have hpairs : List.Forall₂ (fun r m => w.getString r 0 = some (cstr (bytes m.ManagerName)))
      (w.scan db.ManageUser) vc := by
    refine (mapM_eq_some_iff.1 h).imp fun r m hm => ?_
    obtain ⟨name, hname, hm⟩ := Option.bind_eq_some_iff.1 hm
    obtain ⟨passwd, -, hm⟩ := Option.bind_eq_some_iff.1 hm
    obtain rfl := Option.some.inj hm
    exact w.field_name hname
  have hscan : (w.scan db.ManageUser).filterMap (w.getString · 0) =
      vc.map fun m => cstr (bytes m.ManagerName) := by
    generalize w.scan db.ManageUser = rs at hpairs
    clear h
    induction hpairs with
    | nil => rfl
    | cons hr _ ih => rw [List.filterMap_cons_some (f := (w.getString · 0)) hr, List.map_cons, ih]
  rw [← hscan]
  exact ((w.scan_perm db.ManageUser).filterMap _).mem_iff

/-! ## What the operations do to the names -/

theorem names_insert (q : Sqlite) (i : Nat) (x : ManageUser) (db : Database) :
    e.names ((insManagerUser q).stmt.exec ((insManagerUser q).bind i x) db).2 =
      e.names db ++ [boundName q i x] := by
  have hrows : ((insManagerUser q).stmt.exec ((insManagerUser q).bind i x) db).2.ManageUser =
      db.ManageUser ++ [(insManagerUser q).bind i x] :=
    congrArg Database.ManageUser (exec_insByObjects q .TManageUser i x db)
  have hname : e.getString ((insManagerUser q).bind i x) 0 = some (boundName q i x) :=
    congrArg some (cstr_of_not_mem (zero_not_mem_cstr _))
  rw [Reader.names, hrows, List.filterMap_append, List.filterMap_cons_some (f := (e.getString · 0)) hname]
  rfl

theorem names_update (q : Sqlite) (i : Nat) (x : ManageUser) (db : Database) :
    e.names ((updManagerUser q).stmt.exec ((updManagerUser q).bind i x) db).2 = e.names db := by
  have hrow : ∀ r : Row, e.getString (if EElementType.TManageUser.holds ["ManagerName"]
        [q.str i "ManagerName" x.ManagerName] r
      then EElementType.TManageUser.assign ["ManagerName", "ManagerPasswd"]
        ((updManagerUser q).bind i x) r else r) 0 = e.getString r 0 := by
    intro r
    split
    · rename_i hhit
      have hidx : EElementType.TManageUser.columns.idxOf "ManagerName" = 0 := rfl
      obtain ⟨-, heq⟩ : r.getD 0 .null ≠ .null ∧ r.getD 0 .null = q.str i "ManagerName" x.ManagerName := by
        simpa [EElementType.holds, Value.eq, EElementType.value, hidx] using hhit
      cases r with
      | nil => cases heq
      | cons v r =>
        have hv : v = q.str i "ManagerName" x.ManagerName := heq
        rw [hv]
        rfl
    · rfl
  have hrows : ((updManagerUser q).stmt.exec ((updManagerUser q).bind i x) db).2.ManageUser =
      db.ManageUser.map fun r => if EElementType.TManageUser.holds ["ManagerName"]
          [q.str i "ManagerName" x.ManagerName] r
        then EElementType.TManageUser.assign ["ManagerName", "ManagerPasswd"]
          ((updManagerUser q).bind i x) r else r := rfl
  rw [Reader.names, hrows, List.filterMap_map]
  exact congrArg (List.filterMap · db.ManageUser) (funext hrow)

theorem names_filter {db db' : Database} {p : Row → Bool} (h : db'.ManageUser = db.ManageUser.filter p) :
    ∀ u ∈ e.names db', u ∈ e.names db := by
  intro u hu
  obtain ⟨r, hr, hname⟩ := List.mem_filterMap.1 hu
  rw [h] at hr
  exact List.mem_filterMap.2 ⟨r, (List.mem_filter.1 hr).1, hname⟩

theorem names_delete (q : Sqlite) (i : Nat) (x : ManageUser) (db : Database) :
    ∀ u ∈ e.names ((delManagerUser q).stmt.exec ((delManagerUser q).bind i x) db).2, u ∈ e.names db :=
  names_filter e rfl

theorem applyAll_keeps {T : Type} {b : Batch T} {P : Database → Prop} :
    ∀ (objVec : List T) (i : Nat) (db : Database),
      (∀ j x db, objVec[j]? = some x → P db → P (b.stmt.exec (b.bind (i + j) x) db).2) → P db →
        P (b.applyAll i objVec db) := by
  intro objVec
  induction objVec with
  | nil => exact fun _ _ _ hdb => hdb
  | cons x xs ih =>
    intro i db hstep hdb
    refine ih (i + 1) _ (fun j y db hy => ?_) (hstep 0 x db rfl hdb)
    have hnext := hstep (j + 1) y db hy
    rwa [show i + (j + 1) = i + 1 + j by omega] at hnext

/-- The element at a position is bound: there is a statement, and no step before it fails. -/
def Sqlite.Binds {T : Type} (q : Sqlite) (b : Batch T) (i : Nat) : Prop :=
  q.isValid b.stmt = true ∧ ∀ j < i, q.stepOk j = true

theorem call_keeps_of_binds {T : Type} {b : Batch T} {q : Sqlite} {P : Database → Prop} {objVec : List T}
    {db : Database} (hstep : ∀ j x db, objVec[j]? = some x → q.Binds b j → P db →
      P (b.stmt.exec (b.bind j x) db).2) (hdb : P db) : P (b.call q objVec db).db := by
  cases hvalid : q.isValid b.stmt with
  | false => rwa [call_of_not_valid b hvalid]
  | true =>
    have hall : ∀ k, (∀ j < k, q.stepOk j = true) → P (b.applyAll 0 (objVec.take k) db) := by
      refine fun k hok => applyAll_keeps _ 0 db (fun j x db hx => ?_) hdb
      obtain ⟨hlt, -⟩ := List.getElem?_eq_some_iff.1 hx
      have hj : j < k := Nat.lt_of_lt_of_le hlt (List.length_take_le k objVec)
      rw [List.getElem?_take_of_lt hj] at hx
      rw [Nat.zero_add]
      exact hstep j x db hx ⟨hvalid, fun i hi => hok i (hi.trans hj)⟩
    cases call_ended b q objVec db with
    | empty _ _ h => rwa [h]
    | invalid _ _ h => rwa [h]
    | @failed k _ hk _ h =>
      rw [h]
      split
      · exact hdb
      · exact hall k hk.2.2
    | done hok _ h =>
      have hwhole := hall objVec.length hok
      rw [List.take_length] at hwhole
      rwa [h]

theorem call_keeps {T : Type} {b : Batch T} {q : Sqlite} {P : Database → Prop} {objVec : List T}
    {db : Database}
    (hstep : ∀ j x db, objVec[j]? = some x → P db → P (b.stmt.exec (b.bind j x) db).2) (hdb : P db) :
    P (b.call q objVec db).db :=
  call_keeps_of_binds (fun j x db hx _ => hstep j x db hx) hdb

theorem exec_ManageUser (q : Sqlite) (op : DbOp) {t : EElementType} (ht : t ≠ .TManageUser) (i : Nat)
    (x : t.Struct) (db : Database) :
    ((byObjects q op t).stmt.exec ((byObjects q op t).bind i x) db).2.ManageUser = db.ManageUser := by
  cases op <;> cases t <;> first | rfl | exact absurd rfl ht

theorem delBySql_db (w : World) (q : Sqlite) (t : EElementType) (sql : Str) (db : Database) :
    (delBySql w q t sql db).db = db ∨
      0 ≤ (delBySql w q t sql db).res ∧ ∃ p : Row → Bool,
        (delBySql w q t sql db).db = db.setRows t ((db.rows t).filter p) := by
  unfold delBySql
  split
  · exact .inl rfl
  · split
    · split
      · exact .inr ⟨Int.natCast_nonneg _, _, rfl⟩
      · exact .inl rfl
    · exact .inl rfl

end

/-! ## What a task does to the names -/

section
variable {w : World} {q : Sqlite} {db : Database} {op : TaskOp} {x : Executed op.type}

theorem TaskOp.exec_keeps {P : Database → Prop} (hx : op.exec w q db = some x) (hdb : P db)
    (hdel : ∀ t sql eletype p, op = .onDelBySql t sql eletype →
      P (db.setRows t ((db.rows t).filter p)))
    (hstep : ∀ o t objVec, op = .onByObjects o t objVec → ∀ j y db, objVec[j]? = some y → P db →
      P ((byObjects q o t).stmt.exec ((byObjects q o t).bind j y) db).2) : P x.db := by
  cases op with
  | onQryBySql t sql eletype =>
    obtain ⟨objs, -, rfl⟩ := Option.map_eq_some_iff.1 hx
    exact hdb
  | onDelBySql t sql eletype =>
    obtain rfl := Option.some.inj hx
    change P (delBySql w q t sql db).db
    rcases delBySql_db w q t sql db with h | ⟨-, p, h⟩
    · rwa [h]
    · rw [h]
      exact hdel t sql eletype p rfl
  | onByObjects o t objVec =>
    obtain rfl := Option.some.inj hx
    exact call_keeps (hstep o t objVec rfl) hdb

/-- A name that is there after a task was there before it, or the task inserts it. -/
theorem TaskOp.names_exec (hx : op.exec w q db = some x) :
    ∀ u ∈ w.names x.db, u ∈ w.names db ∨ op.InsertsName q u := by
  refine op.exec_keeps (P := fun d => ∀ u ∈ w.names d, u ∈ w.names db ∨ op.InsertsName q u) hx
    (fun _ => .inl) (fun t sql eletype p _ u hu => ?_) ?_
  · refine .inl ?_
    by_cases ht : t = .TManageUser
    · subst ht
      exact names_filter w.toReader rfl u hu
    · have hsame : (db.setRows t ((db.rows t).filter p)).ManageUser = db.ManageUser :=
        db.rows_setRows_ne _ (Ne.symm ht)
      rwa [Reader.names, hsame] at hu
  · rintro o t objVec rfl j y db' hy hall u hu
    by_cases ht : t = .TManageUser
    · subst ht
      cases o with
      | ins =>
        have hu : u ∈ w.names db' ++ [boundName q j y] := names_insert w.toReader q j y db' ▸ hu
        rcases List.mem_append.1 hu with hu | hu
        · exact hall u hu
        · exact .inr ⟨j, y, hy, (List.mem_singleton.1 hu).symm⟩
      | upd => exact hall u (names_update w.toReader q j y db' ▸ hu)
      | del => exact hall u (names_delete w.toReader q j y db' u hu)
    · refine hall u ?_
      rwa [Reader.names, exec_ManageUser q o ht j y db'] at hu

theorem TaskOp.exec_of_not_changesManagers (hx : op.exec w q db = some x)
    (hop : op.changesManagers = false) : x.db.ManageUser = db.ManageUser := by
  have hne : ∀ t sql eletype, op = .onDelBySql t sql eletype → t ≠ .TManageUser := by
    rintro t sql eletype rfl
    exact of_decide_eq_false hop
  refine op.exec_keeps (P := fun d => d.ManageUser = db.ManageUser) hx rfl ?_ ?_
  · rintro t sql eletype p h
    exact db.rows_setRows_ne _ (Ne.symm (hne t sql eletype h))
  · rintro o t objVec rfl j y db' - hdb'
    exact (exec_ManageUser q o (of_decide_eq_false hop) j y db').trans hdb'

theorem names_applyAll_ins (e : Reader) (q : Sqlite) :
    ∀ (objVec : List ManageUser) (i : Nat) (db : Database),
      e.names ((insManagerUser q).applyAll i objVec db) =
        e.names db ++ objVec.mapIdx fun j y => boundName q (i + j) y := by
  intro objVec
  induction objVec with
  | nil => exact fun _ db => (List.append_nil _).symm
  | cons y ys ih =>
    intro i db
    rw [Batch.applyAll, ih, names_insert, List.mapIdx_cons, List.append_assoc, List.singleton_append]
    simp only [Nat.add_zero, Nat.add_assoc, Nat.add_comm 1]

theorem TaskOp.names_of_failed (hx : op.exec w q db = some x) (hres : x.res < 0)
    (hclean : op.FailsClean w.toReader q db) : ∀ u, u ∈ w.names x.db ↔ u ∈ w.names db := by
  cases hop : op.changesManagers with
  | false =>
    intro u
    rw [Reader.names, exec_of_not_changesManagers hx hop, Reader.names]
  | true =>
    cases op with
    | onQryBySql => cases hop
    | onDelBySql t sql eletype =>
      obtain rfl := Option.some.inj hx
      rcases delBySql_db w q t sql db with h | ⟨hnonneg, -⟩
      · exact fun u => iff_of_eq (congrArg (u ∈ w.names ·) h)
      · exact absurd hres (not_lt.2 hnonneg)
    | onByObjects o t objVec =>
      obtain rfl : t = .TManageUser := of_decide_eq_true hop
      obtain rfl := Option.some.inj hx
      have hsame : ∀ {r : Called}, r.db = db → ∀ u, u ∈ w.names r.db ↔ u ∈ w.names db := by
        rintro r rfl u
        rfl
      cases call_ended (byObjects q o .TManageUser) q objVec db with
      | empty _ _ hdb => exact hsame hdb
      | invalid _ _ hdb => exact hsame hdb
      | done _ hnonneg _ => exact absurd hres (not_lt.2 hnonneg)
      | @failed k hvalid hk _ hdb =>
        cases o with
        | del => exact hsame hdb
        | upd =>
          intro u
          have hkeeps : w.names ((byObjects q .upd .TManageUser).call q objVec db).db = w.names db :=
            call_keeps (P := fun d => w.names d = w.names db)
              (fun j y d _ hd => (names_update w.toReader q j y d).trans hd) rfl
          exact iff_of_eq (congrArg (u ∈ ·) hkeeps)
        | ins =>
          have hnames : w.names ((byObjects q .ins .TManageUser).call q objVec db).db =
              w.names db ++ (objVec.take k).mapIdx fun j y => boundName q (0 + j) y :=
            (congrArg w.names hdb).trans (names_applyAll_ins w.toReader q (objVec.take k) 0 db)
          intro u
          refine ⟨fun hu => ?_, fun hu => hnames ▸ List.mem_append_left _ hu⟩
          rcases List.mem_append.1 (hnames ▸ hu : u ∈ w.names db ++ _) with hu | hu
          · exact hu
          · obtain ⟨j, hj, rfl⟩ := List.mem_mapIdx.1 hu
            have hlt : j < k := lt_of_lt_of_le hj (List.length_take_le k objVec)
            rw [Nat.zero_add]
            exact hclean hvalid k hk j _ hlt (by rw [List.getElem_take, List.getElem?_eq_getElem])

end

end CppLinuxLearn.Deployer
