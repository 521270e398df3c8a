import Mathlib.Data.List.Basic

/-!
# Statements, transactions and autocommit

A connection to a store with contents `δ`. Outside a transaction every step is committed by itself;
inside one the content at `begin` is kept until `commit` drops it or `rollback` goes back to it.
`Conn.committed` is what another connection sees, and what is left when this one is closed.

`Conn.batch` runs one step for every element of a list and stops at the first that fails. What is
left after it and a `rollback` depends on whether a transaction was open
(`committed_rollback_batch`); what is left after it and a `commit` does not
(`committed_commit_batch`).
-/

namespace CppLinuxLearn.Lib

/-- A connection: the content it sees, and the content at `begin` while a transaction is open. -/
structure Conn (δ : Type*) where
  cur : δ
  saved : Option δ

namespace Conn
variable {δ α ρ : Type*}

/-- A fresh connection has no transaction open. -/
def opened (d : δ) : Conn δ := ⟨d, none⟩

/-- What is left of the content when the connection is closed. -/
def committed (c : Conn δ) : δ := c.saved.getD c.cur

/-- `begin`; an error inside a transaction. -/
def begin? (c : Conn δ) : Option (Conn δ) := if c.saved.isSome then none else some ⟨c.cur, some c.cur⟩

/-- `commit`; an error outside a transaction. -/
def commit? (c : Conn δ) : Option (Conn δ) := c.saved.map fun _ => ⟨c.cur, none⟩

/-- `rollback`; an error outside a transaction. -/
def rollback? (c : Conn δ) : Option (Conn δ) := c.saved.map fun d => ⟨d, none⟩

/-- One step for every element from position `i` on, until one fails. The value is that of the last
step, `r` if there is none. -/
def batch (step : Nat → α → δ → Option (ρ × δ)) : Nat → List α → ρ → Conn δ → Option ρ × Conn δ
  | _, [], r, c => (some r, c)
  | i, x :: xs, _, c =>
    match step i x c.cur with
    | some (r, d) => batch step (i + 1) xs r { c with cur := d }
    | none => (none, c)

/-- The content after the steps of `xs` that come before the first failing one. -/
def applied (step : Nat → α → δ → Option (ρ × δ)) : Nat → List α → δ → δ
  | _, [], d => d
  | i, x :: xs, d =>
    match step i x d with
    | some (_, d') => applied step (i + 1) xs d'
    | none => d

section
variable (step : Nat → α → δ → Option (ρ × δ))

theorem batch_saved (xs : List α) : ∀ (i : Nat) (r : ρ) (c : Conn δ),
    (batch step i xs r c).2.saved = c.saved := by
  induction xs with
  | nil => intro i r c; rfl
  | cons x xs ih =>
    intro i r c
    rw [batch]
    cases step i x c.cur with
    | none => rfl
    | some p => exact ih _ _ _

theorem batch_cur (xs : List α) : ∀ (i : Nat) (r : ρ) (c : Conn δ),
    (batch step i xs r c).2.cur = applied step i xs c.cur := by
  induction xs with
  | nil => intro i r c; rfl
  | cons x xs ih =>
    intro i r c
    rw [batch, applied]
    cases step i x c.cur with
    | none => rfl
    | some p => exact ih _ _ _

/-- A failed batch and its `rollback`: inside a transaction the content at `begin` is back, without
one the `rollback` is an error and the steps before the failure stay. -/
theorem committed_rollback_batch (xs : List α) (i : Nat) (r : ρ) (c : Conn δ) :
    ((batch step i xs r c).2.rollback?.getD (batch step i xs r c).2).committed =
      c.saved.getD (applied step i xs c.cur) := by
  rw [rollback?, batch_saved]
  cases hs : c.saved with
  | none => simp [committed, batch_saved, batch_cur, hs]
  | some d => simp [committed]

theorem committed_commit_batch (xs : List α) (i : Nat) (r : ρ) (c : Conn δ) :
    ((batch step i xs r c).2.commit?.getD (batch step i xs r c).2).committed =
      applied step i xs c.cur := by
  rw [commit?, batch_saved]
  cases hs : c.saved with
  | none => simp [committed, batch_saved, batch_cur, hs]
  | some d => simp [committed, batch_cur]

end

end Conn

end CppLinuxLearn.Lib
