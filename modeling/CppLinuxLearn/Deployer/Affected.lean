import CppLinuxLearn.Deployer.Updates

/-!
# What a call over a vector returns

`insByObjects`, `updByObjects` and `delByObjects` are to return the number of affected rows. The variable
for the status of a step is also the result of the call, so what they return is the count of the last
element.
-/

namespace CppLinuxLearn.Deployer

open Lib

section
variable {T : Type}

/-- The rows changed by the step for each element of a vector, from position `i` on. -/
def Batch.changes (b : Batch T) : Nat → List T → Database → List Nat
  | _, [], _ => []
  | i, x :: xs, db =>
    (b.stmt.exec (b.bind i x) db).1 :: b.changes (i + 1) xs (b.stmt.exec (b.bind i x) db).2

/-- A call that succeeds returns the number of all rows that it has changed. -/
def ReturnsTotal (b : Batch T) (objVec : List T) (db : Database) (r : Called) : Prop :=
  0 ≤ r.res → r.res = (b.changes 0 objVec db).sum

instance (b : Batch T) (objVec : List T) (db : Database) (r : Called) : Decidable (ReturnsTotal b objVec db r) :=
  inferInstanceAs (Decidable (_ → _))

theorem exec_of_zero {s : Stmt} {ps : List Value} {db : Database} (h : (s.exec ps db).1 = 0) :
    (s.exec ps db).2 = db := by
  cases s with
  | insert t cols => cases h
  | update t sets keys =>
    have hmiss : ∀ r ∈ db.rows t, ¬ t.holds keys (ps.drop sets.length) r = true := List.countP_eq_zero.1 h
    have hrows : (db.rows t).map (fun r =>
        if t.holds keys (ps.drop sets.length) r then t.assign sets ps r else r) = db.rows t :=
      (List.map_congr_left fun r hr => if_neg (hmiss r hr)).trans (List.map_id' _)
    exact (congrArg (db.setRows t) hrows).trans (db.setRows_rows t)
  | delete t keys =>
    have hmiss : ∀ r ∈ db.rows t, ¬ t.holds keys ps r = true := List.countP_eq_zero.1 h
    have hrows : (db.rows t).filter (fun r => !t.holds keys ps r) = db.rows t :=
      List.filter_eq_self.2 fun r hr => by simpa using hmiss r hr
    exact (congrArg (db.setRows t) hrows).trans (db.setRows_rows t)

theorem batch_value (q : Sqlite) (b : Batch T) (xs : List T) : ∀ (i r : Nat) (c : Conn Database),
    (∀ j < xs.length, q.stepOk (i + j) = true) →
      (Conn.batch (execute q b.stmt b.bind) i xs (r : Int) c).1 =
        some (((b.changes i xs c.cur).getLast?.getD r : Nat) : Int) := by
  induction xs with
  | nil => exact fun i r c _ => rfl
  | cons x xs ih =>
    intro i r c hok
    have h0 : q.stepOk i = true := hok 0 (by simp)
    have hrest : ∀ j < xs.length, q.stepOk (i + 1 + j) = true := fun j hj => by
      have := hok (j + 1) (by simpa using hj)
      rwa [show i + 1 + j = i + (j + 1) by omega]
    have hlast := ih (i + 1) (b.stmt.exec (b.bind i x) c.cur).1
      { c with cur := (b.stmt.exec (b.bind i x) c.cur).2 } hrest
    rw [Batch.changes, List.getLast?_cons, Option.getD_some]
    simp only [Conn.batch, execute_of_ok b h0]
    exact hlast

theorem getLast_eq_sum_iff (l : List Nat) : l.getLast?.getD 0 = l.sum ↔ ∀ n ∈ l.dropLast, n = 0 := by
  rcases List.eq_nil_or_concat l with rfl | ⟨l, n, rfl⟩
  · simp
  · rw [List.concat_eq_append, List.getLast?_concat, List.dropLast_concat, Option.getD_some, List.sum_append,
      List.sum_singleton, ← List.sum_eq_zero_iff_forall_eq_nat]
    omega

theorem changes_dropLast_iff (b : Batch T) (xs : List T) : ∀ (i : Nat) (db : Database),
    (∀ n ∈ (b.changes i xs db).dropLast, n = 0) ↔
      ∀ j x, j + 1 < xs.length → xs[j]? = some x → (b.stmt.exec (b.bind (i + j) x) db).1 = 0 := by
  induction xs with
  | nil => exact fun i db => iff_of_true (List.forall_mem_nil _) (fun j x hj => absurd hj (Nat.not_lt_zero _))
  | cons x xs ih =>
    intro i db
    cases xs with
    | nil => exact iff_of_true (List.forall_mem_nil _) (fun j y hj => absurd hj (by simp))
    | cons y ys =>
      have hcons : (b.changes i (x :: y :: ys) db).dropLast =
          (b.stmt.exec (b.bind i x) db).1 ::
            (b.changes (i + 1) (y :: ys) (b.stmt.exec (b.bind i x) db).2).dropLast :=
        List.dropLast_cons_of_ne_nil (List.cons_ne_nil _ _)
      rw [hcons, List.forall_mem_cons, ih]
      constructor
      · rintro ⟨hzero, hrest⟩ j z hj hz
        rw [exec_of_zero hzero] at hrest
        cases j with
        | zero =>
          obtain rfl := Option.some.inj hz
          exact hzero
        | succ j =>
          have := hrest j z (by simpa using hj) hz
          rwa [show i + (j + 1) = i + 1 + j by omega]
      · intro h
        have hzero : (b.stmt.exec (b.bind i x) db).1 = 0 := h 0 x (by simp) rfl
        refine ⟨hzero, fun j z hj hz => ?_⟩
        rw [exec_of_zero hzero]
        have := h (j + 1) z (by simpa using hj) hz
        rwa [show i + (j + 1) = i + 1 + j by omega] at this

theorem call_value (b : Batch T) {q : Sqlite} (objVec : List T) (db : Database)
    (hvalid : q.isValid b.stmt = true) (hok : ∀ j < objVec.length, q.stepOk j = true) :
    (b.call q objVec db).res = ((b.changes 0 objVec db).getLast?.getD 0 : Nat) := by
  by_cases hne : objVec.length = 0
  · obtain rfl := List.eq_nil_of_length_eq_zero hne
    unfold Batch.call InsertByVector UpdateByVector DeleteByVector autocommitByVector
    split <;> rfl
  · obtain ⟨c, hcall, hcur, -⟩ := call_eq_endTransaction b db hne hvalid
    have hvalue := batch_value q b objVec 0 0 c fun j hj => (congrArg q.stepOk (Nat.zero_add j)).trans (hok j hj)
    rw [hcall, ← hcur]
    exact (endTransaction_some hvalue).1

theorem returnsTotal_of_not_valid (b : Batch T) {q : Sqlite} (objVec : List T) (db : Database)
    (hvalid : q.isValid b.stmt = false) : ReturnsTotal b objVec db (b.call q objVec db) := by
  intro hres
  by_cases hne : objVec.length = 0
  · obtain rfl := List.eq_nil_of_length_eq_zero hne
    unfold Batch.call InsertByVector UpdateByVector DeleteByVector autocommitByVector
    split <;> rfl
  · rw [call_of_not_valid_res b hvalid objVec db hne] at hres
    omega

theorem returnsTotal_of_failure (b : Batch T) {q : Sqlite} {objVec : List T} (db : Database)
    (hvalid : q.isValid b.stmt = true) {k : Nat} (hk : FirstFailure q objVec.length k) :
    ReturnsTotal b objVec db (b.call q objVec db) := by
  intro hres
  have hne : objVec.length ≠ 0 := Nat.ne_of_gt (Nat.zero_lt_of_lt hk.1)
  obtain ⟨c, hcall, -, -⟩ := call_eq_endTransaction b db hne hvalid
  rw [hcall, (endTransaction_of_failure q b hk).1] at hres
  omega

theorem returnsTotal_iff_of_ok (b : Batch T) {q : Sqlite} (objVec : List T) (db : Database)
    (hvalid : q.isValid b.stmt = true) (hok : ∀ j < objVec.length, q.stepOk j = true) :
    ReturnsTotal b objVec db (b.call q objVec db) ↔
      ∀ i x, i + 1 < objVec.length → objVec[i]? = some x → (b.stmt.exec (b.bind i x) db).1 = 0 := by
  have hdrop := changes_dropLast_iff b objVec 0 db
  simp only [Nat.zero_add] at hdrop
  rw [ReturnsTotal, call_value b objVec db hvalid hok, ← hdrop, ← getLast_eq_sum_iff, Nat.cast_inj]
  exact ⟨fun h => h (Int.natCast_nonneg _), fun h _ => h⟩

end

/-- The element at position `i` is inserted, or there is a row with its keys. -/
def Finds (q : Sqlite) (op : DbOp) (t : EElementType) (i : Nat) (x : t.Struct) (db : Database) : Prop :=
  op = .ins ∨ ∃ r ∈ db.rows t, hasKeys q t i x r = true

instance (q : Sqlite) (op : DbOp) (t : EElementType) (i : Nat) (x : t.Struct) (db : Database) :
    Decidable (Finds q op t i x db) :=
  inferInstanceAs (Decidable (_ ∨ ∃ r ∈ _, _))

theorem exec_eq_zero_iff {q : Sqlite} {op : DbOp} {t : EElementType}
    (hvalid : q.isValid (byObjects q op t).stmt = true) (i : Nat) (x : t.Struct) (db : Database) :
    ((byObjects q op t).stmt.exec ((byObjects q op t).bind i x) db).1 = 0 ↔ ¬ Finds q op t i x db := by
  have hcount : (db.rows t).countP (hasKeys q t i x) = 0 ↔ ¬ ∃ r ∈ db.rows t, hasKeys q t i x r = true := by
    rw [List.countP_eq_zero]
    push Not
    rfl
  cases op with
  | ins =>
    have hone : ((insByObjects q t).stmt.exec ((insByObjects q t).bind i x) db).1 ≠ 0 := by
      cases t <;> exact Nat.one_ne_zero
    exact iff_of_false hone (not_not.2 (.inl rfl))
  | upd =>
    have ht := ne_group_of_valid q hvalid
    rw [Finds, or_iff_right (by decide), ← hcount, byObjects, stmt_updByObjects q ht]
    change (db.rows t).countP (t.holds t.keys (((updByObjects q t).bind i x).drop t.sets.length)) = 0 ↔ _
    rw [drop_bind_updByObjects]
    rfl
  | del =>
    rw [Finds, or_iff_right (by decide), ← hcount, byObjects, stmt_delByObjects]
    rfl

/-- **What a call returns.** It is the number of rows affected by the whole call, if it succeeds, exactly if
it does not succeed, or at most one element is inserted, or no row has had the keys of an element before the
last that is updated or deleted. -/
theorem byObjects_returnsTotal_iff (q : Sqlite) (op : DbOp) (t : EElementType) (objVec : List t.Struct)
    (db : Database) :
    ReturnsTotal (byObjects q op t) objVec db ((byObjects q op t).call q objVec db) ↔
      q.isValid (byObjects q op t).stmt = false ∨ (∃ k, FirstFailure q objVec.length k) ∨
        ∀ i x, i + 1 < objVec.length → objVec[i]? = some x → ¬ Finds q op t i x db := by
  cases hvalid : q.isValid (byObjects q op t).stmt with
  | false => exact iff_of_true (returnsTotal_of_not_valid _ objVec db hvalid) (.inl rfl)
  | true =>
    rcases firstFailure_or_ok q objVec.length with ⟨k, hk⟩ | hok
    · exact iff_of_true (returnsTotal_of_failure _ db hvalid hk) (.inr (.inl ⟨k, hk⟩))
    · have hnone : ¬ ∃ k, FirstFailure q objVec.length k := by
        rintro ⟨k, hlt, hfail, -⟩
        rw [hok k hlt] at hfail
        cases hfail
      rw [or_iff_right (by decide), or_iff_right hnone, returnsTotal_iff_of_ok _ objVec db hvalid hok]
      simp only [exec_eq_zero_iff hvalid]

/-- Two servers are inserted, and the call returns that one row is affected. -/
theorem insByObjects_not_returnsTotal :
    ¬ ReturnsTotal (byObjects allSucceeds .ins .TServerConfig) [server "db" "10.0.0.7" 22, server "dns" "10.0.0.8" 53]
      webServer ((byObjects allSucceeds .ins .TServerConfig).call allSucceeds
        [server "db" "10.0.0.7" 22, server "dns" "10.0.0.8" 53] webServer) := by
  decide +kernel

end CppLinuxLearn.Deployer
