import CppLinuxLearn.Deployer.Database

/-!
# When a batch is all or nothing

`insByObjects`, `updByObjects` and `delByObjects` return `-1` when a step fails. The deletions run in
a transaction, so a failed one leaves the database alone; the insertions and updates begin none, so
their `rollback` is an error and every element before the failing one stays applied.
`byObjects_allOrNothing_iff` says exactly when that shows.
-/

namespace CppLinuxLearn.Deployer

open Lib

/-- The three families of functions over a vector. -/
inductive DbOp
  | ins
  | upd
  | del
deriving DecidableEq, Repr

/-- `insByObjects<T>`, `updByObjects<T>` or `delByObjects<T>`. -/
def byObjects (q : Sqlite) : DbOp → (t : EElementType) → Batch t.Struct
  | .ins => insByObjects q
  | .upd => updByObjects q
  | .del => delByObjects q

section
variable {T : Type}

/-- The content after the elements of a vector, from position `i` on, have been applied in order. -/
def Batch.applyAll (b : Batch T) : Nat → List T → Database → Database
  | _, [], db => db
  | i, x :: xs, db => b.applyAll (i + 1) xs (b.stmt.exec (b.bind i x) db).2

/-- `-1` means that nothing has changed, a non-negative value that every element was applied. -/
def AllOrNothing (b : Batch T) (objVec : List T) (db : Database) (r : Called) : Prop :=
  (r.res = -1 → r.db = db) ∧ (0 ≤ r.res → r.db = b.applyAll 0 objVec db)

instance (b : Batch T) (objVec : List T) (db : Database) (r : Called) :
    Decidable (AllOrNothing b objVec db r) :=
  inferInstanceAs (Decidable (_ ∧ _))

/-- The step at position `k` is the first of `n` that fails. -/
def FirstFailure (q : Sqlite) (n k : Nat) : Prop :=
  k < n ∧ q.stepOk k = false ∧ ∀ j < k, q.stepOk j = true

/-! ## The loop -/

theorem FirstFailure.unique {q : Sqlite} {n j k : Nat} (hk : FirstFailure q n k)
    (hj : FirstFailure q n j) : k = j := by
  rcases Nat.lt_trichotomy k j with hlt | heq | hgt
  · have := hj.2.2 k hlt
    rw [hk.2.1] at this
    cases this
  · exact heq
  · have := hk.2.2 j hgt
    rw [hj.2.1] at this
    cases this

theorem firstFailure_or_ok (q : Sqlite) (n : Nat) :
    (∃ k, FirstFailure q n k) ∨ ∀ j < n, q.stepOk j = true := by
  by_cases h : ∃ k, k < n ∧ q.stepOk k = false
  · refine Or.inl ⟨Nat.find h, (Nat.find_spec h).1, (Nat.find_spec h).2, fun j hj => ?_⟩
    have hlt : j < n := hj.trans (Nat.find_spec h).1
    simpa [hlt] using Nat.find_min h hj
  · push Not at h
    exact Or.inr fun j hj => by simpa using h j hj

theorem execute_of_ok {q : Sqlite} (b : Batch T) {i : Nat} (h : q.stepOk i = true) (x : T)
    (db : Database) :
    execute q b.stmt b.bind i x db =
      some (((b.stmt.exec (b.bind i x) db).1 : Int), (b.stmt.exec (b.bind i x) db).2) := by
  rw [execute, if_pos h]

theorem execute_of_not_ok {q : Sqlite} (b : Batch T) {i : Nat} (h : q.stepOk i = false) (x : T)
    (db : Database) : execute q b.stmt b.bind i x db = none := by
  rw [execute, if_neg (by simp [h])]

theorem batch_of_ok (q : Sqlite) (b : Batch T) : ∀ (xs : List T) (i : Nat) (r : Int) (c : Conn Database),
    0 ≤ r → (∀ j < xs.length, q.stepOk (i + j) = true) →
      (∃ n, 0 ≤ n ∧ (Conn.batch (execute q b.stmt b.bind) i xs r c).1 = some n) ∧
        Conn.applied (execute q b.stmt b.bind) i xs c.cur = b.applyAll i xs c.cur := by
  intro xs
  induction xs with
  | nil => intro i r c hr _; exact ⟨⟨r, hr, rfl⟩, rfl⟩
  | cons x xs ih =>
    intro i r c _ hok
    have h0 : q.stepOk i = true := hok 0 (by simp)
    have hrest : ∀ j < xs.length, q.stepOk (i + 1 + j) = true := fun j hj => by
      have := hok (j + 1) (by simpa using hj)
      rwa [show i + 1 + j = i + (j + 1) by omega]
    simp only [Conn.batch, Conn.applied, Batch.applyAll, execute_of_ok b h0]
    exact ih (i + 1) _ { c with cur := (b.stmt.exec (b.bind i x) c.cur).2 } (Int.natCast_nonneg _) hrest

theorem batch_of_failure (q : Sqlite) (b : Batch T) :
    ∀ (xs : List T) (i k : Nat) (r : Int) (c : Conn Database), k < xs.length →
      q.stepOk (i + k) = false → (∀ j < k, q.stepOk (i + j) = true) →
      (Conn.batch (execute q b.stmt b.bind) i xs r c).1 = none ∧
        Conn.applied (execute q b.stmt b.bind) i xs c.cur = b.applyAll i (xs.take k) c.cur := by
  intro xs
  induction xs with
  | nil => intro i k r c hk; simp at hk
  | cons x xs ih =>
    intro i k r c hk hfail hok
    cases k with
    | zero =>
      simp only [Conn.batch, Conn.applied, execute_of_not_ok b (show q.stepOk i = false from hfail)]
      exact ⟨trivial, rfl⟩
    | succ k =>
      have h0 : q.stepOk i = true := hok 0 (by omega)
      have hrest : ∀ j < k, q.stepOk (i + 1 + j) = true := fun j hj => by
        have := hok (j + 1) (by omega)
        rwa [show i + 1 + j = i + (j + 1) by omega]
      simp only [Conn.batch, Conn.applied, Batch.applyAll, List.take_succ_cons, execute_of_ok b h0]
      exact ih (i + 1) k _ { c with cur := (b.stmt.exec (b.bind i x) c.cur).2 } (by simpa using hk)
        (by rwa [show i + 1 + k = i + (k + 1) by omega]) hrest

/-! ## The three functions -/

theorem endTransaction_none {q : Sqlite} {p : Option Int × Conn Database} (h : p.1 = none) :
    (q.endTransaction p).res = -1 ∧
      (q.endTransaction p).db = (rollbackTransaction p.2).committed := by
  obtain ⟨res, c⟩ := p
  cases h
  exact ⟨rfl, rfl⟩

theorem endTransaction_some {q : Sqlite} {p : Option Int × Conn Database} {n : Int}
    (h : p.1 = some n) :
    (q.endTransaction p).res = n ∧ (q.endTransaction p).db = (commitTransaction p.2).committed := by
  obtain ⟨res, c⟩ := p
  cases h
  exact ⟨rfl, rfl⟩

/-- What the loops do when no step fails, in a transaction or not. -/
theorem endTransaction_of_ok (q : Sqlite) (b : Batch T) {objVec : List T} {c : Conn Database}
    (hok : ∀ j < objVec.length, q.stepOk j = true) :
    0 ≤ (q.endTransaction (Conn.batch (execute q b.stmt b.bind) 0 objVec 0 c)).res ∧
      (q.endTransaction (Conn.batch (execute q b.stmt b.bind) 0 objVec 0 c)).db =
        b.applyAll 0 objVec c.cur := by
  obtain ⟨⟨n, hn, hres⟩, happ⟩ := batch_of_ok q b objVec 0 0 c (le_refl 0)
    (fun j hj => by rw [Nat.zero_add]; exact hok j hj)
  obtain ⟨hr, hdb⟩ := endTransaction_some (q := q) hres
  exact ⟨hr ▸ hn, by rw [hdb, commitTransaction, Conn.committed_commit_batch, happ]⟩

theorem endTransaction_of_failure (q : Sqlite) (b : Batch T) {objVec : List T} {k : Nat}
    {c : Conn Database} (hk : FirstFailure q objVec.length k) :
    (q.endTransaction (Conn.batch (execute q b.stmt b.bind) 0 objVec 0 c)).res = -1 ∧
      (q.endTransaction (Conn.batch (execute q b.stmt b.bind) 0 objVec 0 c)).db =
        c.saved.getD (b.applyAll 0 (objVec.take k) c.cur) := by
  obtain ⟨hlt, hfail, hok⟩ := hk
  obtain ⟨hres, happ⟩ := batch_of_failure q b objVec 0 k 0 c hlt (by rwa [Nat.zero_add])
    (fun j hj => by rw [Nat.zero_add]; exact hok j hj)
  obtain ⟨hr, hdb⟩ := endTransaction_none (q := q) hres
  exact ⟨hr, by rw [hdb, rollbackTransaction, Conn.committed_rollback_batch, happ]⟩

theorem call_of_not_valid (b : Batch T) {q : Sqlite} (hv : q.isValid b.stmt = false)
    (objVec : List T) (db : Database) : (b.call q objVec db).db = db := by
  unfold Batch.call InsertByVector UpdateByVector DeleteByVector autocommitByVector
  split <;> split <;> simp [hv, Conn.opened, Conn.committed]

theorem call_of_not_valid_res (b : Batch T) {q : Sqlite} (hv : q.isValid b.stmt = false)
    (objVec : List T) (db : Database) (hne : objVec.length ≠ 0) :
    (b.call q objVec db).res = -1 := by
  unfold Batch.call InsertByVector UpdateByVector DeleteByVector autocommitByVector
  split <;> simp [hv, hne, SQLITEDATABASE_ERROR]

/-- How a call over a vector can end. -/
inductive Ended (b : Batch T) (q : Sqlite) (objVec : List T) (db : Database) (r : Called) : Prop
  | empty (hnil : objVec = []) (hres : r.res = 0) (hdb : r.db = db)
  | invalid (hvalid : q.isValid b.stmt = false) (hres : r.res = -1) (hdb : r.db = db)
  | failed {k : Nat} (hvalid : q.isValid b.stmt = true) (hk : FirstFailure q objVec.length k)
    (hres : r.res = -1)
    (hdb : r.db = if b.loop = .delete then db else b.applyAll 0 (objVec.take k) db)
  | done (hok : ∀ j < objVec.length, q.stepOk j = true) (hres : 0 ≤ r.res)
    (hdb : r.db = b.applyAll 0 objVec db)

theorem call_eq_endTransaction (b : Batch T) {q : Sqlite} {objVec : List T} (db : Database)
    (hne : objVec.length ≠ 0) (hvalid : q.isValid b.stmt = true) : ∃ c : Conn Database, b.call q objVec db =
      q.endTransaction (Conn.batch (execute q b.stmt b.bind) 0 objVec 0 c) ∧ c.cur = db ∧
        c.saved = if b.loop = .delete then some db else none := by
  unfold Batch.call InsertByVector UpdateByVector DeleteByVector autocommitByVector
  cases b.loop
  · exact ⟨Conn.opened db, by simp [hne, hvalid], rfl, rfl⟩
  · exact ⟨Conn.opened db, by simp [hne, hvalid], rfl, rfl⟩
  · exact ⟨beginTransaction (Conn.opened db), by simp [hne, hvalid], rfl, rfl⟩

theorem call_ended (b : Batch T) (q : Sqlite) (objVec : List T) (db : Database) :
    Ended b q objVec db (b.call q objVec db) := by
  by_cases hne : objVec.length = 0
  · obtain rfl := List.eq_nil_of_length_eq_zero hne
    have hcall : b.call q [] db = ⟨0, none, db⟩ := by
      unfold Batch.call InsertByVector UpdateByVector DeleteByVector autocommitByVector
      split <;> rfl
    rw [hcall]
    exact .empty rfl rfl rfl
  by_cases hvalid : q.isValid b.stmt = true
  swap
  · rw [Bool.not_eq_true] at hvalid
    exact .invalid hvalid (call_of_not_valid_res b hvalid objVec db hne)
      (call_of_not_valid b hvalid objVec db)
  obtain ⟨c, hcall, hcur, hsaved⟩ := call_eq_endTransaction b db hne hvalid
  rw [hcall]
  rcases firstFailure_or_ok q objVec.length with ⟨k, hk⟩ | hok
  · obtain ⟨hres, hdb⟩ := endTransaction_of_failure q b hk (c := c)
    refine .failed hvalid hk hres ?_
    rw [hdb, hsaved, hcur]
    split <;> rfl
  · obtain ⟨hres, hdb⟩ := endTransaction_of_ok q b hok (c := c)
    exact .done hok hres (hcur ▸ hdb)

end

theorem byObjects_loop (q : Sqlite) (op : DbOp) (t : EElementType) :
    (byObjects q op t).loop = .delete ↔ op = .del := by
  cases op <;> cases t <;> simp [byObjects, insByObjects, updByObjects, delByObjects, insManagerUser,
    insServerConfig, insStrategyConfig, insDeployConfig, insDeployGroup, updManagerUser,
    updServerConfig, updStrategyConfig, updDeployConfig, updDeployGroup, delManagerUser,
    delServerConfig, delStrategyConfig, delDeployConfig, delDeployGroup]

/-- **All or nothing.** A call over a vector leaves the database alone when it returns `-1` and has
applied every element when it does not, exactly if it deletes, or its statement is not valid, or the
elements before the first failing step change nothing. -/
theorem byObjects_allOrNothing_iff (q : Sqlite) (op : DbOp) (t : EElementType)
    (objVec : List t.Struct) (db : Database) :
    AllOrNothing (byObjects q op t) objVec db ((byObjects q op t).call q objVec db) ↔
      op = .del ∨ q.isValid (byObjects q op t).stmt = false ∨
        ∀ k, FirstFailure q objVec.length k →
          (byObjects q op t).applyAll 0 (objVec.take k) db = db := by
  rw [← byObjects_loop q op t]
  generalize byObjects q op t = b
  cases call_ended b q objVec db with
  | empty hnil hres hdb =>
    subst hnil
    refine iff_of_true ⟨fun _ => hdb, fun _ => hdb⟩ (.inr (.inr fun k hk => ?_))
    exact absurd hk.1 (Nat.not_lt_zero k)
  | invalid hvalid hres hdb =>
    exact iff_of_true ⟨fun _ => hdb, fun h => by omega⟩ (.inr (.inl hvalid))
  | @failed k hvalid hk hres hdb =>
    constructor
    · rintro ⟨h, -⟩
      by_cases hl : b.loop = .delete
      · exact .inl hl
      · rw [if_neg hl] at hdb
        refine .inr (.inr fun j hj => ?_)
        rw [hk.unique hj] at hdb
        exact hdb.symm.trans (h hres)
    · intro h
      refine ⟨fun _ => ?_, fun hn => by omega⟩
      by_cases hl : b.loop = .delete
      · rwa [if_pos hl] at hdb
      · rw [if_neg hl] at hdb
        rcases h with h | h | h
        · exact absurd h hl
        · rw [hvalid] at h
          cases h
        · exact hdb.trans (h k hk)
  | done hok hres hdb =>
    refine iff_of_true ⟨fun h => by omega, fun _ => hdb⟩ (.inr (.inr fun k hk => ?_))
    have := hok k hk.1
    rw [hk.2.1] at this
    cases this

/-- Two managers are inserted into an empty table and the second step fails: the call returns `-1`
and the first manager is there. -/
theorem insByObjects_not_allOrNothing :
    ¬ AllOrNothing
      (byObjects ⟨true, fun i => i == 0, text "UNIQUE constraint failed", fun _ _ => []⟩ .ins
        .TManageUser)
      [⟨strcpy (Vector.replicate 64 0) (text "a"), Vector.replicate 64 0⟩,
        ⟨strcpy (Vector.replicate 64 0) (text "b"), Vector.replicate 64 0⟩]
      ⟨[], [], [], [], []⟩
      ((byObjects ⟨true, fun i => i == 0, text "UNIQUE constraint failed", fun _ _ => []⟩ .ins
        .TManageUser).call ⟨true, fun i => i == 0, text "UNIQUE constraint failed", fun _ _ => []⟩
        [⟨strcpy (Vector.replicate 64 0) (text "a"), Vector.replicate 64 0⟩,
          ⟨strcpy (Vector.replicate 64 0) (text "b"), Vector.replicate 64 0⟩]
        ⟨[], [], [], [], []⟩) := by
  decide +kernel

end CppLinuxLearn.Deployer
