import CppLinuxLearn.Deployer.StoreRead
import CppLinuxLearn.Deployer.Updates

/-!
# Deletions by objects

`delByObjects` takes the rows that have the keys of an object of its vector, and leaves everything alone if
it fails. It undoes an insertion of the same vector exactly if none of the keys was there before.
-/

namespace CppLinuxLearn.Deployer

open Lib

/-- The row has the keys of the object. -/
def EElementType.keyed (t : EElementType) (x : t.Struct) (r : Row) : Bool :=
  t.keys.all fun k => t.value r k = t.value (t.row x) k

theorem eq_iff_of_ne_null {a b : Value} (hb : b ≠ .null) : a.eq b = true ↔ a = b := by
  constructor
  · exact eq_of_eq
  · rintro rfl
    simp [Value.eq, hb]

theorem holds_map (t : EElementType) (keys : List String) (f : String → Value) (r : Row) :
    t.holds keys (keys.map f) r = true ↔ ∀ k ∈ keys, (t.value r k).eq (f k) = true := by
  simp only [EElementType.holds, List.all_eq_true]
  constructor
  · intro h k hk
    obtain ⟨i, hi⟩ := List.mem_iff_getElem?.1 hk
    have hat := h (k, i) (List.mem_zipIdx_iff_getElem?.2 hi)
    simpa [List.getD_eq_getElem?_getD, hi] using hat
  · rintro h ⟨k, i⟩ hki
    have hi := List.mem_zipIdx_iff_getElem?.1 hki
    simpa [List.getD_eq_getElem?_getD, hi] using h k (List.mem_of_getElem? hi)

section
variable (q : Sqlite) {t : EElementType}

theorem bind_delByObjects (i : Nat) {x : t.Struct} (hx : t.Terminated x) :
    (delByObjects q t).bind i x = t.keys.map (t.value (t.row x)) := by
  cases t with
  | TManageUser =>
    obtain ⟨h, -⟩ := hx
    simp only [delByObjects, delManagerUser, q.str_of_mem i _ h]
    rfl
  | TServerConfig =>
    obtain ⟨h, -⟩ := hx
    simp only [delByObjects, delServerConfig, q.str_of_mem i _ h]
    rfl
  | TStrategyConfig =>
    obtain ⟨h, -, -, -, h'⟩ := hx
    simp only [delByObjects, delStrategyConfig, q.str_of_mem i _ h, q.str_of_mem i _ h']
    rfl
  | TDeployConfig =>
    obtain ⟨h, -, -, -, -, -, h'⟩ := hx
    simp only [delByObjects, delDeployConfig, q.str_of_mem i _ h, q.str_of_mem i _ h']
    rfl
  | TDeployGroup =>
    obtain ⟨h, -, -, h'⟩ := hx
    simp only [delByObjects, delDeployGroup, q.str_of_mem i _ h, q.str_of_mem i _ h']
    rfl

theorem key_ne_null (x : t.Struct) : ∀ k ∈ t.keys, t.value (t.row x) k ≠ .null := by
  cases t <;> intro k hk <;> simp only [EElementType.keys, List.mem_cons, List.not_mem_nil, or_false] at hk
  case TManageUser | TServerConfig =>
    subst hk
    exact nofun
  all_goals
    rcases hk with rfl | rfl <;> exact nofun

theorem hasKeys_eq_keyed (i : Nat) {x : t.Struct} (hx : t.Terminated x) (r : Row) :
    hasKeys q t i x r = t.keyed x r := by
  rw [Bool.eq_iff_iff, hasKeys, bind_delByObjects q i hx, holds_map, EElementType.keyed, List.all_eq_true]
  apply forall₂_congr
  intro k hk
  rw [eq_iff_of_ne_null (key_ne_null x k hk), decide_eq_true_eq]

theorem keyed_row (x : t.Struct) : t.keyed x (t.row x) = true := by
  simp [EElementType.keyed]

theorem applyAll_delByObjects (objVec : List t.Struct) : ∀ (i : Nat) (db : Database),
    (∀ x ∈ objVec, t.Terminated x) → (delByObjects q t).applyAll i objVec db =
      db.setRows t ((db.rows t).filter fun r => !objVec.any fun x => t.keyed x r) := by
  induction objVec with
  | nil =>
    intro i db _
    simp [Batch.applyAll, db.setRows_rows t]
  | cons x xs ih =>
    intro i db hterm
    have hx := hterm x List.mem_cons_self
    have hexec : ((delByObjects q t).stmt.exec ((delByObjects q t).bind i x) db).2 =
        db.setRows t ((db.rows t).filter fun r => !t.keyed x r) := by
      rw [stmt_delByObjects]
      change db.setRows t ((db.rows t).filter fun r => !hasKeys q t i x r) = _
      simp only [hasKeys_eq_keyed q i hx]
    rw [Batch.applyAll, hexec, ih (i + 1) _ fun y hy => hterm y (List.mem_cons_of_mem x hy), Database.rows_setRows,
      Database.setRows_setRows, List.filter_filter]
    simp only [List.any_cons, Bool.not_or, Bool.and_comm]

/-- **What a deletion takes**: the rows with the keys of an object, or nothing if it fails. -/
theorem delByObjects_deletes {objVec : List t.Struct} (hterm : ∀ x ∈ objVec, t.Terminated x) (db : Database) :
    ((delByObjects q t).call q objVec db).res < 0 ∧ ((delByObjects q t).call q objVec db).db = db ∨
      0 ≤ ((delByObjects q t).call q objVec db).res ∧ ((delByObjects q t).call q objVec db).db =
        db.setRows t ((db.rows t).filter fun r => !objVec.any fun x => t.keyed x r) := by
  have hloop : (delByObjects q t).loop = .delete := (byObjects_loop q .del t).2 rfl
  cases call_ended (delByObjects q t) q objVec db with
  | empty hnil hres hdb =>
    right
    refine ⟨hres.ge, ?_⟩
    rw [hdb, hnil]
    simp [db.setRows_rows t]
  | invalid _ hres hdb => exact .inl ⟨by omega, hdb⟩
  | failed _ _ hres hdb =>
    rw [if_pos hloop] at hdb
    exact .inl ⟨by omega, hdb⟩
  | done _ hres hdb => exact .inr ⟨hres, hdb.trans (applyAll_delByObjects q objVec 0 db hterm)⟩

end

theorem Database.setRows_eq_self_iff (db : Database) (t : EElementType) (rs : List Row) :
    db.setRows t rs = db ↔ rs = db.rows t := by
  constructor
  · intro h
    rw [← congrArg (·.rows t) h, Database.rows_setRows]
  · rintro rfl
    exact db.setRows_rows t

/-- **Deleting what was inserted.** Where neither fails, the database is as before exactly if no row had the keys
of one of the objects. -/
theorem inserted_then_deleted_iff {q q' : Sqlite} {t : EElementType} {objVec : List t.Struct} {db : Database}
    (hterm : ∀ x ∈ objVec, t.Terminated x) (hins : 0 ≤ ((insByObjects q t).call q objVec db).res)
    (hdel : 0 ≤ ((delByObjects q' t).call q' objVec ((insByObjects q t).call q objVec db).db).res) :
    ((delByObjects q' t).call q' objVec ((insByObjects q t).call q objVec db).db).db = db ↔
      ∀ r ∈ db.rows t, ∀ x ∈ objVec, t.keyed x r = false := by
  have hstored := insByObjects_stored hterm hins
  rcases delByObjects_deletes q' hterm ((insByObjects q t).call q objVec db).db with ⟨hneg, -⟩ | ⟨-, hdb⟩
  · omega
  -- what was inserted has its own keys
  have hnew : (objVec.map t.row).filter (fun r => !objVec.any fun x => t.keyed x r) = [] := by
    rw [List.filter_eq_nil_iff]
    intro r hr
    obtain ⟨x, hx, rfl⟩ := List.mem_map.1 hr
    have hany : (objVec.any fun y => t.keyed y (t.row x)) = true := List.any_eq_true.2 ⟨x, hx, keyed_row x⟩
    simp [hany]
  rw [hdb, hstored, Database.rows_setRows, Database.setRows_setRows, List.filter_append, hnew, List.append_nil,
    Database.setRows_eq_self_iff, List.filter_eq_self]
  simp

/-- A server is inserted and deleted again beside another. -/
theorem inserted_then_deleted_iff_server :
    ((delByObjects allSucceeds .TServerConfig).call allSucceeds [server "db" "10.0.0.7" 22]
        ((insByObjects allSucceeds .TServerConfig).call allSucceeds [server "db" "10.0.0.7" 22] webServer).db).db =
        webServer ↔
      ∀ r ∈ webServer.rows .TServerConfig, ∀ x ∈ [server "db" "10.0.0.7" 22],
        EElementType.keyed .TServerConfig x r = false := by
  apply inserted_then_deleted_iff
  · intro x hx
    rw [List.mem_singleton.1 hx]
    exact ⟨by decide +kernel, by decide +kernel⟩
  · decide +kernel
  · decide +kernel

end CppLinuxLearn.Deployer
