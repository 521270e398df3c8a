import CppLinuxLearn.Deployer.Filters
import CppLinuxLearn.Deployer.ManagerNames
import CppLinuxLearn.Deployer.Updates

/-!
# The bounds of the character fields

`recvVecObject` takes the elements of a vector from the frames as they are. `bindString` reads a field up
to its NUL, wherever that is, and a query copies what is stored with `strcpy`. Both stay in the
fields if every element that is bound has its fields terminated and every query gives rows of its own
table, as those with plain values do; a `union` in a filter gives others.
-/

namespace CppLinuxLearn.Deployer

open Lib Steps

/-! ## Fields -/

/-- The character fields of an element, under their columns. -/
def EElementType.charFields : (t : EElementType) → t.Struct → List (String × Bytes)
  | .TManageUser, x =>
    [("ManagerName", x.ManagerName.toList), ("ManagerPasswd", x.ManagerPasswd.toList)]
  | .TServerConfig, x => [("ServerName", x.ServerName.toList), ("ServerIP", x.ServerIP.toList)]
  | .TStrategyConfig, x =>
    [("ConfigName", x.ConfigName.toList), ("PlatformName", x.PlatformName.toList),
      ("StragetyName", x.StragetyName.toList), ("SrcRootDir", x.SrcRootDir.toList),
      ("ManagerName", x.ManagerName.toList)]
  | .TDeployConfig, x =>
    [("ConfigName", x.ConfigName.toList), ("ServerName", x.ServerName.toList), ("UserName", x.UserName.toList),
      ("UserPasswd", x.UserPasswd.toList), ("DstRootDir", x.DstRootDir.toList),
      ("ExeUser", x.ExeUser.toList), ("ManagerName", x.ManagerName.toList)]
  | .TDeployGroup, x =>
    [("GroupName", x.GroupName.toList), ("StragetyConfig", x.StragetyConfig.toList),
      ("DeployConfig", x.DeployConfig.toList), ("ManagerName", x.ManagerName.toList)]

theorem terminated_iff (t : EElementType) (x : t.Struct) : t.Terminated x ↔ ∀ f ∈ t.charFields x, 0 ∈ f.2 := by
  cases t <;> simp [EElementType.Terminated, EElementType.charFields]

/-- The text that is read for a field ends, with its NUL, in the field. -/
def Sqlite.Within (q : Sqlite) (i : Nat) (f : String × Bytes) : Prop :=
  (cstr (f.2 ++ q.behind i f.1)).length < f.2.length

theorem Sqlite.within_iff (q : Sqlite) (i : Nat) (f : String × Bytes) : q.Within i f ↔ 0 ∈ f.2 := by
  constructor
  · intro h
    by_contra hzero
    have hon : cstr (f.2 ++ q.behind i f.1) = f.2 ++ cstr (q.behind i f.1) :=
      List.takeWhile_append_of_pos (List.takeWhile_eq_self_iff.1 (cstr_of_not_mem hzero))
    rw [Sqlite.Within, hon, List.length_append] at h
    omega
  · intro h
    rw [Sqlite.Within, cstr_append_of_mem h]
    exact length_cstr_lt h

/-- The columns of the character fields, with the sizes of the fields. -/
def EElementType.charColumns : EElementType → List (Nat × Nat)
  | TManageUser => [(0, 64), (1, 64)]
  | TServerConfig => [(0, 64), (1, 64)]
  | TStrategyConfig => [(0, 64), (1, 128), (2, 128), (3, 256), (4, 64)]
  | TDeployConfig => [(0, 64), (1, 64), (2, 64), (3, 64), (4, 256), (5, 64), (6, 64)]
  | TDeployGroup => [(0, 64), (1, 64), (2, 64), (3, 64)]

section
variable (e : Reader)

/-- The stored value is copied into a field of `n` bytes. -/
def Reader.Copies (v : Value) (n : Nat) : Prop := ∃ s, e.getString [v] 0 = some s ∧ s.length < n

theorem Reader.isSome_field (r : Row) (nCol n : Nat) :
    (e.field r nCol : Option (CharArray n)).isSome = true ↔ e.Copies (r.getD nCol .null) n := by
  have hget : e.getString [r.getD nCol .null] 0 = e.getString r nCol := rfl
  rw [Copies, hget, field]
  cases e.getString r nCol with
  | none => simp
  | some s =>
    by_cases hlt : s.length < n <;> simp [hlt]

theorem any_const {α : Type} (o : Option α) (b : Bool) : o.any (fun _ => b) = (o.isSome && b) := by
  cases o <;> simp

theorem Reader.isSome_fetch (t : EElementType) (r : Row) :
    (e.fetch t r).isSome = true ↔ ∀ p ∈ t.charColumns, e.Copies (r.getD p.1 .null) p.2 := by
  cases t <;> simp [EElementType.charColumns, fetch, Reader.ManageUser, Reader.ServerConfig,
    Reader.StrategyConfig, Reader.DeployConfig, Reader.DeployGroup, any_const, Option.isSome_bind,
    e.isSome_field]

/-- Every row of the database can be fetched. -/
def Reader.Stored (db : Database) : Prop := ∀ t, ∀ r ∈ db.rows t, (e.fetch t r).isSome = true

end

/-! ## What a step stores -/

section
variable {e : Reader} {q : Sqlite} {t : EElementType} {db : Database}

theorem Reader.Stored.setRows (h : e.Stored db) {rs : List Row} (hrs : ∀ r ∈ rs, (e.fetch t r).isSome = true) :
    e.Stored (db.setRows t rs) := by
  intro u r hr
  by_cases hu : u = t
  · subst hu
    rw [Database.rows_setRows] at hr
    exact hrs r hr
  · rw [Database.rows_setRows_ne db rs hu] at hr
    exact h u r hr

theorem Reader.Stored.filter (h : e.Stored db) (p : Row → Bool) :
    e.Stored (db.setRows t ((db.rows t).filter p)) :=
  h.setRows fun r hr => h t r (List.mem_filter.1 hr).1

theorem getD_fillRow_cases (keys : List String) (field : String → Value) (cols : List String) (n : Nat) (r : Row) :
    (fillRow keys field cols r).getD n .null = r.getD n .null ∨
      ∃ c, cols[n]? = some c ∧ (fillRow keys field cols r).getD n .null = field c := by
  induction cols generalizing n r with
  | nil => exact .inl rfl
  | cons d cols ih =>
    cases r with
    | nil => exact .inl rfl
    | cons v r =>
      cases n with
      | zero =>
        rw [fillRow]
        split
        · exact .inl rfl
        · exact .inr ⟨d, rfl, rfl⟩
      | succ n => exact ih n r

theorem getD_filled (i : Nat) {x : t.Struct} (hx : t.Terminated x) (n : Nat) (r : Row) :
    (filled q t (x, i) r).getD n .null = r.getD n .null ∨
      (filled q t (x, i) r).getD n .null = (t.row x).getD n .null := by
  rcases getD_fillRow_cases t.keys (fieldOf q t i x) t.columns n r with h | ⟨c, hc, h⟩
  · exact .inl h
  · have hnodup : t.columns.Nodup := by cases t <;> decide
    obtain ⟨hn, rfl⟩ := List.getElem?_eq_some_iff.1 hc
    refine .inr (h.trans ?_)
    rw [fieldOf, hnodup.idxOf_getElem n hn, bind_insByObjects q t i hx]

theorem isSome_fetch_filled (i : Nat) {x : t.Struct} (hx : t.Terminated x) {r : Row}
    (hr : (e.fetch t r).isSome = true) : (e.fetch t (filled q t (x, i) r)).isSome = true := by
  obtain ⟨y, hy, -⟩ := e.fetch_row t hx
  have hrow : (e.fetch t (t.row x)).isSome = true := Option.isSome_iff_exists.2 ⟨y, hy⟩
  rw [e.isSome_fetch] at hr hrow ⊢
  intro p hp
  rcases getD_filled (q := q) i hx p.1 r with h | h
  · rw [h]
    exact hr p hp
  · rw [h]
    exact hrow p hp

theorem Reader.Stored.exec (h : e.Stored db) {op : DbOp} {i : Nat} {x : t.Struct}
    (hx : op ≠ .del → t.Terminated x) (hvalid : q.isValid (byObjects q op t).stmt = true) :
    e.Stored ((byObjects q op t).stmt.exec ((byObjects q op t).bind i x) db).2 := by
  cases op with
  | ins =>
    have hterm := hx (by decide)
    have hexec := exec_insByObjects q t i x db
    rw [bind_insByObjects q t i hterm] at hexec
    rw [byObjects, bind_insByObjects q t i hterm, hexec]
    refine h.setRows fun r hr => ?_
    rcases List.mem_append.1 hr with hr | hr
    · exact h t r hr
    · obtain rfl := List.mem_singleton.1 hr
      obtain ⟨y, hy, -⟩ := e.fetch_row t hterm
      exact Option.isSome_iff_exists.2 ⟨y, hy⟩
  | upd =>
    have ht := ne_group_of_valid q hvalid
    rw [byObjects, exec_updByObjects q ht]
    refine h.setRows fun r' hr' => ?_
    obtain ⟨r, hr, rfl⟩ := List.mem_map.1 hr'
    split
    · exact isSome_fetch_filled i (hx (by decide)) (h t r hr)
    · exact h t r hr
  | del =>
    rw [byObjects, stmt_delByObjects]
    exact h.filter _

end

/-! ## Runs -/

/-- What a client has done to the database: the elements are the frames behind the element type. -/
inductive DbRequest
  | elements (op : DbOp) (t : EElementType) (frames : List Bytes)
  | query (t : EElementType) (colFilterVec : List ColumnFilter)
  | delByCol (t : EElementType) (colFilterVec : List ColumnFilter)

section
variable (w : World)

/-- The task of the request. -/
def DbRequest.op : DbRequest → TaskOp
  | elements op t frames => .onByObjects op t (frames.map (podAt w.toEnv t.Struct))
  | query t fs => .onQryBySql t (queryText w.beyond t.toInt fs) t.toInt
  | delByCol t fs => .onDelBySql t (deleteText w.beyond t.toInt fs) t.toInt

/-- The request with what SQLite does meanwhile; `none` if a text is copied over the end of a field. -/
def DbRequest.next (db : Database) (a : Sqlite × DbRequest) : Option Database :=
  ((a.2.op w).exec w a.1 db).map fun x => x.db

/-- The elements that the request inserts or updates with, as far as it gets, are as `P` says. -/
def DbRequest.EachBound (P : (t : EElementType) → Nat → t.Struct → Prop) (q : Sqlite) : DbRequest → Prop
  | elements op t frames => op ≠ .del → ∀ i x, (frames.map (podAt w.toEnv t.Struct))[i]? = some x →
      q.Binds (byObjects q op t) i → P t i x
  | _ => True

/-- Each character field is read in its array, and every text is copied into its field if those were that
the database held before. -/
structure FieldsWithin (db : Database) (as : List (Sqlite × DbRequest)) : Prop where
  reads : ∀ a ∈ as, a.2.EachBound w (fun t i x => ∀ f ∈ t.charFields x, a.1.Within i f) a.1
  copies : w.Stored db → (run (DbRequest.next w) db as).isSome = true

/-- A query gives rows of its table. -/
def DbRequest.GivesOwn (db : Database) : DbRequest → Prop
  | query t fs => ∀ rows, w.selects t (queryText w.beyond t.toInt fs) db = some rows → ∀ r ∈ rows, r ∈ db.rows t
  | _ => True

/-- The filters of a query name columns and have plain values. -/
def DbRequest.HasPlainFilters : DbRequest → Prop
  | query t fs => ∃ gs : List (FittingFilter t), fs = filtersOf gs ∧ ∀ g ∈ gs, Plain t g.ColVal
  | _ => True

/-- The fields of what the request inserts or updates are terminated. -/
def DbRequest.TerminatesFields (a : Sqlite × DbRequest) : Prop :=
  a.2.EachBound w (fun t _ x => t.Terminated x) a.1

end

theorem mapM_isSome {α β : Type} {f : α → Option β} {l : List α} (h : ∀ a ∈ l, (f a).isSome = true) :
    (l.mapM f).isSome = true := by
  induction l with
  | nil => rfl
  | cons a l ih =>
    obtain ⟨b, hb⟩ := Option.isSome_iff_exists.1 (h a List.mem_cons_self)
    obtain ⟨bs, hbs⟩ := Option.isSome_iff_exists.1 (ih fun c hc => h c (List.mem_cons_of_mem a hc))
    rw [List.mapM_cons, hb, hbs]
    rfl

section
variable {w : World}

theorem DbRequest.next_stored {db : Database} (h : w.Stored db) {a : Sqlite × DbRequest}
    (ha : TerminatesFields w a) (hown : a.2.GivesOwn w db) : ∃ db', next w db a = some db' ∧ w.Stored db' := by
  obtain ⟨q, a⟩ := a
  cases a with
  | elements op t frames =>
    exact ⟨_, rfl, call_keeps_of_binds (fun j x db hx hb hdb => hdb.exec (fun hop => ha hop j x hx hb) hb.1) h⟩
  | delByCol t fs =>
    refine ⟨_, rfl, ?_⟩
    change w.Stored (delBySql w q t _ db).db
    rcases delBySql_db w q t (deleteText w.beyond t.toInt fs) db with hsame | ⟨-, p, hrows⟩
    · rwa [hsame]
    · rw [hrows]
      exact h.filter p
  | query t fs =>
    have hrows : (qryRows w.toReader q t (w.selects t (queryText w.beyond t.toInt fs) db)).isSome = true := by
      rw [qryRows]
      split
      next rows hsel =>
        obtain ⟨-, hsel⟩ := Option.ite_none_right_eq_some.1 hsel
        refine mapM_isSome fun r hr => h t r (hown rows hsel r ?_)
        obtain ⟨p, hp, rfl⟩ := List.mem_map.1 hr
        exact List.fst_mem_of_mem_zipIdx ((List.takeWhile_subset _) hp)
      next => rfl
    obtain ⟨objs, hobjs⟩ := Option.isSome_iff_exists.1 hrows
    refine ⟨db, ?_, h⟩
    rw [next, DbRequest.op, TaskOp.exec, hobjs]
    rfl

theorem DbRequest.givesOwn_of_plain {V : Type} {e : Engine V} (hw : w.Backed e) {a : DbRequest}
    (ha : a.HasPlainFilters) (db : Database) : a.GivesOwn w db := by
  cases a with
  | elements | delByCol => trivial
  | query t fs =>
    obtain ⟨gs, rfl, hplain⟩ := ha
    intro rows h r hr
    rw [hw.selects t gs hplain, Engine.select_queryText hplain] at h
    obtain rfl := Option.some.inj h
    exact (e.scan_perm _).subset (List.mem_filter.1 hr).1

theorem reads_iff (a : Sqlite × DbRequest) :
    a.2.EachBound w (fun t i x => ∀ f ∈ t.charFields x, a.1.Within i f) a.1 ↔ DbRequest.TerminatesFields w a := by
  obtain ⟨q, a⟩ := a
  cases a <;> simp only [DbRequest.TerminatesFields, DbRequest.EachBound, q.within_iff, terminated_iff]

theorem isSome_run_of_terminated {db : Database} {as : List (Sqlite × DbRequest)} (hdb : w.Stored db)
    (hterm : ∀ a ∈ as, DbRequest.TerminatesFields w a)
    (hm : Meets (DbRequest.next w) (fun db a => a.2.GivesOwn w db) db as) :
    (run (DbRequest.next w) db as).isSome = true := by
  induction as generalizing db with
  | nil => rfl
  | cons a as ih =>
    obtain ⟨db', hnext, hdb'⟩ := DbRequest.next_stored hdb (hterm a List.mem_cons_self) hm.1
    rw [run, hnext]
    exact ih hdb' (fun b hb => hterm b (List.mem_cons_of_mem a hb)) (hm.2 db' hnext)

/-- **The bounds of the fields.** In a run of requests each character field that is inserted or updated is
read in its array, and each stored text is copied into its field by later queries, if in every element that is
bound every character field has its NUL and every query gives rows of its table. The first is also necessary,
and where all queries have plain filters it is all that is needed. -/
theorem fieldsWithin_iff {V : Type} {e : Engine V} (db : Database) (as : List (Sqlite × DbRequest)) :
    (FieldsWithin w db as → ∀ a ∈ as, DbRequest.TerminatesFields w a) ∧
      (Meets (DbRequest.next w) (fun db a => a.2.GivesOwn w db) db as →
        (∀ a ∈ as, DbRequest.TerminatesFields w a) → FieldsWithin w db as) ∧
      (w.Backed e → (∀ a ∈ as, a.2.HasPlainFilters) →
        (FieldsWithin w db as ↔ ∀ a ∈ as, DbRequest.TerminatesFields w a)) := by
  have hterm : FieldsWithin w db as → ∀ a ∈ as, DbRequest.TerminatesFields w a :=
    fun h a ha => (reads_iff a).1 (h.reads a ha)
  have hwithin : Meets (DbRequest.next w) (fun db a => a.2.GivesOwn w db) db as →
      (∀ a ∈ as, DbRequest.TerminatesFields w a) → FieldsWithin w db as := fun hm hall =>
    ⟨fun a ha => (reads_iff a).2 (hall a ha), fun hdb => isSome_run_of_terminated hdb hall hm⟩
  refine ⟨hterm, hwithin, fun hw hplain => ⟨hterm, hwithin ?_⟩⟩
  exact meets_of_forall (fun a ha db => DbRequest.givesOwn_of_plain hw (hplain a ha) db) db

end

/-! ## A field without its NUL -/

/-- A manager is added and all managers are asked for. -/
def addThenAsk (x : ManageUser) : List (Sqlite × DbRequest) :=
  [(allSucceeds, .elements .ins .TManageUser [bytes x]), (allSucceeds, .query .TManageUser [])]

theorem plainFilters_addThenAsk (x : ManageUser) : ∀ a ∈ addThenAsk x, a.2.HasPlainFilters := by
  intro a ha
  rcases List.mem_cons.1 ha with rfl | ha
  · trivial
  · obtain rfl := List.mem_singleton.1 ha
    exact ⟨[], rfl, nofun⟩

theorem terminates_addThenAsk : ∀ a ∈ addThenAsk (managerNamed "amy"), DbRequest.TerminatesFields plainWorld a := by
  intro a ha
  rcases List.mem_cons.1 ha with rfl | ha
  · intro _ i x hx _
    have hmem : x ∈ [managerNamed "amy"] := by simpa using List.mem_of_getElem? hx
    obtain rfl := List.mem_singleton.1 hmem
    exact ⟨by decide +kernel, by decide +kernel⟩
  · obtain rfl := List.mem_singleton.1 ha
    trivial

theorem fieldsWithin_iff_amy : FieldsWithin plainWorld (managersNamed []) (addThenAsk (managerNamed "amy")) ∧
    (FieldsWithin plainWorld (managersNamed []) (addThenAsk (managerNamed "amy")) ↔
      ∀ a ∈ addThenAsk (managerNamed "amy"), DbRequest.TerminatesFields plainWorld a) := by
  have hplain := plainFilters_addThenAsk (managerNamed "amy")
  have hown : Meets (DbRequest.next plainWorld) (fun db a => a.2.GivesOwn plainWorld db) (managersNamed [])
      (addThenAsk (managerNamed "amy")) :=
    meets_of_forall (fun a ha db => DbRequest.givesOwn_of_plain plainWorld_backed (hplain a ha) db) (managersNamed [])
  obtain ⟨-, hwithin, hiff⟩ := fieldsWithin_iff (w := plainWorld) (e := plainEngine) (managersNamed [])
    (addThenAsk (managerNamed "amy"))
  exact ⟨hwithin hown terminates_addThenAsk, hiff plainWorld_backed hplain⟩

/-- A name of 64 characters is read on behind the field. -/
def endless : ManageUser := ⟨Vector.replicate 64 0x41, Vector.replicate 64 0⟩

theorem addThenAsk_not_fieldsWithin : ¬ FieldsWithin plainWorld (managersNamed []) (addThenAsk endless) := by
  intro h
  have hrun : (run (DbRequest.next plainWorld) (managersNamed []) (addThenAsk endless)).isSome = false := by
    decide +kernel
  have hstored : plainWorld.Stored (managersNamed []) := fun t r hr => by cases t <;> cases hr
  rw [h.copies hstored] at hrun
  cases hrun

end CppLinuxLearn.Deployer
