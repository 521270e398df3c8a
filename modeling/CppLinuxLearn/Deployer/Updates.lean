import CppLinuxLearn.Deployer.StoreRead

/-!
# What an update changes

`updByObjects` over a vector in which every step succeeds: in the table of the vector, each row that has the
keys of some element gets the other fields of the last such element. The statement of `updDeployGroup`
names the table `DeployConfig` and columns that it does not have, so there is no statement for it.
-/

namespace CppLinuxLearn.Deployer

open Lib

/-- The columns by which `delByObjects` finds its rows. -/
def EElementType.keys : EElementType → List String
  | TManageUser => ["ManagerName"]
  | TServerConfig => ["ServerName"]
  | TStrategyConfig => ["ConfigName", "ManagerName"]
  | TDeployConfig => ["ConfigName", "ManagerName"]
  | TDeployGroup => ["GroupName", "ManagerName"]

theorem stmt_delByObjects (q : Sqlite) (t : EElementType) : (delByObjects q t).stmt = .delete t t.keys := by
  cases t <;> rfl

/-! ## Rows and elements -/

/-- The row with the columns that are no keys replaced. -/
def fillRow (keys : List String) (field : String → Value) : List String → Row → Row
  | c :: cols, v :: r => (if c ∈ keys then v else field c) :: fillRow keys field cols r
  | _, r => r

section
variable (q : Sqlite) (t : EElementType)

/-- The row has the keys of the element at position `i`. -/
def hasKeys (i : Nat) (x : t.Struct) (r : Row) : Bool := t.holds t.keys ((delByObjects q t).bind i x) r

/-- The field of the element at position `i` that is stored in a column. -/
def fieldOf (i : Nat) (x : t.Struct) (col : String) : Value :=
  ((insByObjects q t).bind i x).getD (t.columns.idxOf col) .null

/-- The row with the fields of the element, its keys as they were. -/
def filled (p : t.Struct × Nat) (r : Row) : Row := fillRow t.keys (fieldOf q t p.2 p.1) t.columns r

/-- The last element of the vector that has the keys of the row, and its position. -/
def lastFor (objVec : List t.Struct) (r : Row) : Option (t.Struct × Nat) :=
  (objVec.zipIdx.filter fun p => hasKeys q t p.2 p.1 r).getLast?

/-- The row after the update. -/
def updated (objVec : List t.Struct) (r : Row) : Row := (lastFor q t objVec r).elim r fun p => filled q t p r

/-- The row has the fields of the element already. -/
def HasFields (p : t.Struct × Nat) (r : Row) : Prop :=
  ∀ c v, (c, v) ∈ t.columns.zip r → c ∉ t.keys → v = fieldOf q t p.2 p.1 c

/-- Only the table of the vector is changed, and there the rows with the keys of an element. -/
structure Updates (objVec : List t.Struct) (db db' : Database) : Prop where
  table : db'.rows t = (db.rows t).map (updated q t objVec)
  others : ∀ u, u ≠ t → db'.rows u = db.rows u

end

theorem getD_fillRow {keys : List String} (field : String → Value) {cols : List String} {n : Nat} {c : String}
    (hc : cols[n]? = some c) (hkey : c ∈ keys) (r : Row) :
    (fillRow keys field cols r).getD n .null = r.getD n .null := by
  induction cols generalizing n r with
  | nil => cases hc
  | cons d cols ih =>
    cases r with
    | nil => rfl
    | cons v r =>
      cases n with
      | zero =>
        obtain rfl := Option.some.inj hc
        rw [fillRow, if_pos hkey]
        rfl
      | succ n => exact ih hc r

theorem fillRow_fillRow (keys : List String) (f g : String → Value) (cols : List String) (r : Row) :
    fillRow keys f cols (fillRow keys g cols r) = fillRow keys f cols r := by
  induction cols generalizing r with
  | nil => rfl
  | cons c cols ih =>
    cases r with
    | nil => rfl
    | cons v r =>
      rw [fillRow, fillRow, fillRow, ih]
      split <;> rfl

theorem fillRow_eq_self_iff (keys : List String) (field : String → Value) (cols : List String) (r : Row) :
    fillRow keys field cols r = r ↔ ∀ c v, (c, v) ∈ cols.zip r → c ∉ keys → v = field c := by
  induction cols generalizing r with
  | nil => simp [fillRow]
  | cons d cols ih =>
    cases r with
    | nil => simp [fillRow]
    | cons w r =>
      rw [fillRow, List.cons.injEq, ih, List.zip_cons_cons]
      constructor
      · rintro ⟨hhead, hrest⟩ c v hmem hkey
        rcases List.mem_cons.1 hmem with heq | hmem
        · obtain ⟨rfl, rfl⟩ := Prod.mk.inj heq
          rw [if_neg hkey] at hhead
          exact hhead.symm
        · exact hrest c v hmem hkey
      · refine fun h => ⟨?_, fun c v hmem => h c v (List.mem_cons_of_mem _ hmem)⟩
        split
        next => rfl
        next hkey => exact (h d w List.mem_cons_self hkey).symm

section
variable {q : Sqlite} {t : EElementType}

theorem value_filled (p : t.Struct × Nat) (r : Row) {k : String} (hk : k ∈ t.keys) :
    t.value (filled q t p r) k = t.value r k := by
  have hcol : k ∈ t.columns := by
    cases t <;> revert k <;> decide
  exact getD_fillRow _ (List.getElem?_idxOf hcol) hk r

theorem hasKeys_filled (i : Nat) (x : t.Struct) (p : t.Struct × Nat) (r : Row) :
    hasKeys q t i x (filled q t p r) = hasKeys q t i x r := by
  rw [hasKeys, hasKeys, EElementType.holds, EElementType.holds, Bool.eq_iff_iff, List.all_eq_true, List.all_eq_true]
  refine forall₂_congr fun ⟨k, j⟩ hmem => ?_
  simp only [value_filled p r (List.fst_mem_of_mem_zipIdx hmem)]

theorem filled_filled (p p' : t.Struct × Nat) (r : Row) : filled q t p (filled q t p' r) = filled q t p r :=
  fillRow_fillRow ..

end

theorem foldl_eq_last {α β : Type} {m : α → β → Bool} {g : α → β → β} (hm : ∀ p p' r, m p (g p' r) = m p r)
    (hg : ∀ p p' r, g p (g p' r) = g p r) (l : List α) (r : β) :
    l.foldl (fun r p => if m p r then g p r else r) r = ((l.filter (m · r)).getLast?).elim r (g · r) := by
  induction l generalizing r with
  | nil => rfl
  | cons p l ih =>
    rw [List.foldl_cons, ih]
    by_cases hp : m p r = true
    · simp only [if_pos hp, hm, hg]
      rw [List.filter_cons_of_pos (p := (m · r)) hp, List.getLast?_cons]
      cases (l.filter (m · r)).getLast? <;> rfl
    · simp only [if_neg hp]
      rw [List.filter_cons_of_neg (p := (m · r)) hp]

/-! ## The statements -/

theorem eq_of_eq {a b : Value} (h : a.eq b = true) : a = b :=
  eq_of_beq (Bool.and_eq_true_iff.1 h).2

theorem holds_one {t : EElementType} {k : String} {p : Value} {ps : List Value} {r : Row}
    (h : t.holds [k] (p :: ps) r = true) : (t.value r k).eq p = true := by
  simpa [EElementType.holds] using h

theorem holds_two {t : EElementType} {k l : String} {p p' : Value} {ps : List Value} {r : Row}
    (h : t.holds [k, l] (p :: p' :: ps) r = true) : (t.value r k).eq p = true ∧ (t.value r l).eq p' = true := by
  simpa [EElementType.holds] using h

/-- The columns that the statement of an update sets. -/
def EElementType.sets : EElementType → List String
  | TManageUser => ["ManagerName", "ManagerPasswd"]
  | TServerConfig => ["ServerIP", "ServerPort"]
  | TStrategyConfig => ["PlatformName", "StragetyName", "SrcRootDir", "ManagerName"]
  | TDeployConfig => ["ServerName", "UserName", "UserPasswd", "DstRootDir", "ExeUser", "ManagerName"]
  | TDeployGroup => ["StragetyConfig", "DeployConfig", "ManagerName"]

section
variable (q : Sqlite) {t : EElementType}

theorem ne_group_of_valid (h : q.isValid (updByObjects q t).stmt = true) : t ≠ .TDeployGroup := by
  rintro rfl
  exact Bool.false_ne_true (Bool.and_eq_true_iff.1 h).2

theorem stmt_updByObjects (ht : t ≠ .TDeployGroup) : (updByObjects q t).stmt = .update t t.sets t.keys := by
  cases t <;> first | rfl | exact absurd rfl ht

theorem drop_bind_updByObjects (i : Nat) (x : t.Struct) :
    ((updByObjects q t).bind i x).drop t.sets.length = (delByObjects q t).bind i x := by
  cases t <;> rfl

/-- A row with the keys of the element gets its other fields; where a key is set, it is set to what it is. -/
theorem assign_eq_filled (ht : t ≠ .TDeployGroup) {i : Nat} {x : t.Struct} {r : Row} (h : hasKeys q t i x r = true) :
    t.assign t.sets ((updByObjects q t).bind i x) r = filled q t (x, i) r := by
  cases t with
  | TManageUser =>
    have hname := holds_one h
    match r with
    | [] => cases hname
    | [a] =>
      obtain rfl : a = _ := eq_of_eq hname
      rfl
    | a :: b :: r =>
      obtain rfl : a = _ := eq_of_eq hname
      rfl
  | TServerConfig =>
    have hname := holds_one h
    match r with
    | [] => cases hname
    | [a] =>
      obtain rfl : a = _ := eq_of_eq hname
      rfl
    | [a, b] =>
      obtain rfl : a = _ := eq_of_eq hname
      rfl
    | a :: b :: c :: r =>
      obtain rfl : a = _ := eq_of_eq hname
      rfl
  | TStrategyConfig =>
    obtain ⟨hname, hmanager⟩ := holds_two h
    match r with
    | [] | [_] | [_, _] | [_, _, _] | [_, _, _, _] => cases hmanager
    | a :: b :: c :: d :: m :: r =>
      obtain rfl : a = _ := eq_of_eq hname
      obtain rfl : m = _ := eq_of_eq hmanager
      rfl
  | TDeployConfig =>
    obtain ⟨hname, hmanager⟩ := holds_two h
    match r with
    | [] | [_] | [_, _] | [_, _, _] | [_, _, _, _] | [_, _, _, _, _] | [_, _, _, _, _, _] => cases hmanager
    | a :: b :: c :: d :: f :: g :: m :: r =>
      obtain rfl : a = _ := eq_of_eq hname
      obtain rfl : m = _ := eq_of_eq hmanager
      rfl
  | TDeployGroup => exact absurd rfl ht

theorem exec_updByObjects (ht : t ≠ .TDeployGroup) (i : Nat) (x : t.Struct) (db : Database) :
    ((updByObjects q t).stmt.exec ((updByObjects q t).bind i x) db).2 =
      db.setRows t ((db.rows t).map fun r => if hasKeys q t i x r then filled q t (x, i) r else r) := by
  rw [stmt_updByObjects q ht]
  refine congrArg (db.setRows t) (List.map_congr_left fun r _ => ?_)
  rw [drop_bind_updByObjects]
  change (if hasKeys q t i x r then _ else r) = _
  split
  next h => exact assign_eq_filled q ht h
  next => rfl

theorem applyAll_updByObjects (ht : t ≠ .TDeployGroup) (objVec : List t.Struct) : ∀ (i : Nat) (db : Database),
    (updByObjects q t).applyAll i objVec db = db.setRows t ((db.rows t).map fun r =>
      (objVec.zipIdx i).foldl (fun r p => if hasKeys q t p.2 p.1 r then filled q t p r else r) r) := by
  induction objVec with
  | nil =>
    intro i db
    rw [Batch.applyAll, List.zipIdx_nil]
    simp only [List.foldl_nil, List.map_id']
    exact (db.setRows_rows t).symm
  | cons x xs ih =>
    intro i db
    rw [Batch.applyAll, exec_updByObjects q ht, ih, Database.rows_setRows, Database.setRows_setRows, List.map_map]
    rfl

/-- The last element with the keys of a row decides. -/
theorem foldl_eq_updated (objVec : List t.Struct) (r : Row) :
    (objVec.zipIdx).foldl (fun r p => if hasKeys q t p.2 p.1 r then filled q t p r else r) r =
      updated q t objVec r :=
  foldl_eq_last (m := fun p r => hasKeys q t p.2 p.1 r) (fun p p' r => hasKeys_filled p.2 p.1 p' r)
    (fun p p' r => filled_filled p p' r) objVec.zipIdx r

theorem updates_setRows (objVec : List t.Struct) (db : Database) :
    Updates q t objVec db (db.setRows t ((db.rows t).map (updated q t objVec))) :=
  ⟨db.rows_setRows t _, fun _ hu => db.rows_setRows_ne _ hu⟩

theorem updated_eq_self_iff (objVec : List t.Struct) (r : Row) :
    updated q t objVec r = r ↔ ∀ p ∈ lastFor q t objVec r, HasFields q t p r := by
  rw [updated]
  cases lastFor q t objVec r with
  | none => exact iff_of_true rfl fun p hp => by cases hp
  | some p =>
    refine (fillRow_eq_self_iff ..).trans ⟨fun h p' hp' => ?_, fun h => h p rfl⟩
    obtain rfl := Option.some.inj hp'
    exact h

theorem updates_self_iff (objVec : List t.Struct) (db : Database) :
    Updates q t objVec db db ↔ ∀ r ∈ db.rows t, ∀ p ∈ lastFor q t objVec r, HasFields q t p r := by
  have hmap : (db.rows t).map (updated q t objVec) = db.rows t ↔ ∀ r ∈ db.rows t, updated q t objVec r = r := by
    simpa using List.map_inj_left (l := db.rows t) (f := updated q t objVec) (g := id)
  simp only [← updated_eq_self_iff]
  rw [← hmap]
  exact ⟨fun h => h.table.symm, fun h => ⟨h.symm, fun _ _ => rfl⟩⟩

end

/-- **What an update changes.** Where every step succeeds, only the rows of the table with the keys of an
element are changed, and each gets the fields of the last such element, exactly if the elements are no
groups, or every group has the fields of the last element with its keys before. -/
theorem updByObjects_updates_iff {q : Sqlite} (hq : q.Answers) (t : EElementType) (objVec : List t.Struct)
    (db : Database) :
    Updates q t objVec db ((updByObjects q t).call q objVec db).db ↔
      (t = .TDeployGroup → ∀ r ∈ db.rows t, ∀ p ∈ lastFor q t objVec r, HasFields q t p r) := by
  by_cases ht : t = .TDeployGroup
  · have hvalid : q.isValid (updByObjects q t).stmt = false :=
      Bool.eq_false_of_not_eq_true fun h => ne_group_of_valid q h ht
    rw [call_of_not_valid _ hvalid, updates_self_iff, imp_iff_right ht]
  · refine iff_of_true ?_ fun h => absurd h ht
    have hdone : ((updByObjects q t).call q objVec db).db = (updByObjects q t).applyAll 0 objVec db := by
      cases call_ended (updByObjects q t) q objVec db with
      | empty hnil _ hdb => rw [hdb, hnil, Batch.applyAll]
      | invalid hvalid =>
        rw [Sqlite.isValid, hq.1, stmt_updByObjects q ht] at hvalid
        cases t <;> cases hvalid
      | failed _ hk =>
        rw [FirstFailure, hq.2] at hk
        cases hk.2.1
      | done _ _ hdb => exact hdb
    rw [hdone, applyAll_updByObjects q ht]
    simp only [foldl_eq_updated]
    exact updates_setRows q objVec db

theorem updByObjects_updates_iff_server :
    Updates allSucceeds .TServerConfig [server "db" "10.0.0.7" 22, server "web" "10.0.0.8" 443] webServer
      ((updByObjects allSucceeds .TServerConfig).call allSucceeds
        [server "db" "10.0.0.7" 22, server "web" "10.0.0.8" 443] webServer).db :=
  (updByObjects_updates_iff ⟨rfl, fun _ => rfl⟩ .TServerConfig _ webServer).2 fun h => by cases h

def group (name strategy deploy manager : String) : DeployGroup :=
  ⟨strcpy (Vector.replicate 64 0) (text name), strcpy (Vector.replicate 64 0) (text strategy),
    strcpy (Vector.replicate 64 0) (text deploy), strcpy (Vector.replicate 64 0) (text manager)⟩

def oneGroup : Database := ⟨[], [], [], [], [EElementType.row .TDeployGroup (group "g" "s1" "d1" "root")]⟩

/-- The strategy of a group is to be another; nothing changes. -/
theorem updDeployGroup_not_updates :
    ¬ Updates allSucceeds .TDeployGroup [group "g" "s2" "d1" "root"] oneGroup
      ((updByObjects allSucceeds .TDeployGroup).call allSucceeds [group "g" "s2" "d1" "root"] oneGroup).db :=
  fun h => absurd h.table (by decide +kernel)

end CppLinuxLearn.Deployer
