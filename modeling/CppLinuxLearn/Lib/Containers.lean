import Mathlib.Data.BitVec
import Mathlib.Data.List.Nodup
import Mathlib.Data.Nat.ModEq

/-!
# Containers

`drive` runs a machine that gives an answer to every operation; two machines in a simulation relation
give the same answers. `Fifo T cap` is the queue of at most `cap` elements: what it has taken is what it
has given, followed by what it holds. A double-ended queue takes and gives runs of elements at both ends.

The positions of a ring are counted without bound; a machine counter holds them modulo `2 ^ w`, and a slot
is the position modulo the size of the ring, a power of two. Within a window that is not larger than the
ring, counters and slots tell positions apart. An association list with distinct keys is a map: what is
found under a key is what is stored with it.
-/

namespace CppLinuxLearn.Lib

/-! ## Machines that answer -/

section
variable {S S' O A : Type}

/-- The answers to the operations, and the state after them. -/
def drive (f : S → O → A × S) : S → List O → List A × S
  | s, [] => ([], s)
  | s, o :: os => ((f s o).1 :: (drive f (f s o).2 os).1, (drive f (f s o).2 os).2)

theorem drive_simulates {f : S → O → A × S} {g : S' → O → A × S'} {R : S → S' → Prop}
    (hstep : ∀ s s' o, R s s' → (f s o).1 = (g s' o).1 ∧ R (f s o).2 (g s' o).2) {s : S} {s' : S'}
    (h : R s s') (os : List O) :
    (drive f s os).1 = (drive g s' os).1 ∧ R (drive f s os).2 (drive g s' os).2 := by
  induction os generalizing s s' with
  | nil => exact ⟨rfl, h⟩
  | cons o os ih =>
    obtain ⟨hanswer, hnext⟩ := hstep s s' o h
    obtain ⟨hanswers, hlast⟩ := ih hnext
    exact ⟨congrArg₂ List.cons hanswer hanswers, hlast⟩

end

/-! ## The bounded queue -/

/-- A queue of at most `cap` elements. -/
structure Fifo (T : Type) (cap : Nat) where
  contents : List T
  length_le : contents.length ≤ cap

namespace Fifo

inductive Op (T : Type)
  | push (x : T)
  | pop

inductive Answer (T : Type)
  /-- the element that was taken; `none` if there was no room -/
  | took (x : Option T)
  /-- the element that was given; `none` if there was none -/
  | gave (x : Option T)

variable {T : Type} {cap : Nat}

def empty : Fifo T cap := ⟨[], Nat.zero_le cap⟩

def step (q : Fifo T cap) : Op T → Answer T × Fifo T cap
  | .push x =>
    if h : q.contents.length < cap then (.took (some x), ⟨q.contents ++ [x], by rw [List.length_append]; exact h⟩)
    else (.took none, q)
  | .pop => (.gave q.contents.head?, ⟨q.contents.tail, by have := q.length_le; simp; omega⟩)

def Answer.taken? : Answer T → Option T
  | took x => x
  | gave _ => none

def Answer.given? : Answer T → Option T
  | took _ => none
  | gave x => x

theorem step_history (q : Fifo T cap) (o : Op T) :
    q.contents ++ (q.step o).1.taken?.toList = (q.step o).1.given?.toList ++ (q.step o).2.contents := by
  cases o with
  | push x =>
    rw [step]
    split
    · rfl
    · exact List.append_nil _
  | pop =>
    simp only [step, Answer.taken?, Answer.given?]
    cases q.contents with
    | nil => rfl
    | cons x xs => exact List.append_nil _

theorem drive_history (q : Fifo T cap) (os : List (Op T)) :
    q.contents ++ (drive step q os).1.filterMap Answer.taken? =
      (drive step q os).1.filterMap Answer.given? ++ (drive step q os).2.contents := by
  induction os generalizing q with
  | nil => exact List.append_nil _
  | cons o os ih =>
    have hcons : ∀ (f : Answer T → Option T) a as,
        (a :: as).filterMap f = (f a).toList ++ as.filterMap f := by
      intro f a as
      rw [List.filterMap_cons]
      cases f a <;> rfl
    simp only [drive, hcons]
    rw [← List.append_assoc, step_history, List.append_assoc, ih, List.append_assoc]

end Fifo

/-! ## Double-ended queues -/

namespace Deque

variable {T : Type}

inductive Op (T : Type)
  | pushBack (xs : List T)
  | pushFront (xs : List T)
  | popFront (n : Nat)
  | popBack (n : Nat)

/-- What is given, and what is left. -/
def step (q : List T) : Op T → List T × List T
  | .pushBack xs => ([], q ++ xs)
  | .pushFront xs => ([], xs ++ q)
  | .popFront n => (q.take n, q.drop n)
  | .popBack n => (q.drop (q.length - n), q.take (q.length - n))

theorem popBack_pushBack (q xs : List T) : step (q ++ xs) (.popBack xs.length) = (xs, q) := by
  have hlen : (q ++ xs).length - xs.length = q.length := by
    rw [List.length_append]
    omega
  rw [step, hlen, List.drop_left, List.take_left]

theorem popFront_pushFront (q xs : List T) : step (xs ++ q) (.popFront xs.length) = (xs, q) := by
  rw [step, List.drop_left, List.take_left]

end Deque

/-! ## Positions of a ring -/

namespace Ring

/-- Positions less than `2 ^ w` apart have different counters. -/
theorem ofNat_eq_ofNat_iff {w a b : Nat} (hle : a ≤ b) (hlt : b - a < 2 ^ w) :
    BitVec.ofNat w a = BitVec.ofNat w b ↔ a = b := by
  constructor
  · intro h
    have hmod : a % 2 ^ w = b % 2 ^ w := by simpa using congrArg BitVec.toNat h
    have hdvd : 2 ^ w ∣ b - a := (Nat.modEq_iff_dvd' hle).1 hmod
    have hzero := Nat.eq_zero_of_dvd_of_lt hdvd hlt
    omega
  · rintro rfl
    rfl

theorem toNat_and_mask {w e : Nat} (he : e ≤ w) (k : Nat) :
    (BitVec.ofNat w k &&& BitVec.ofNat w (2 ^ e - 1)).toNat = k % 2 ^ e := by
  have hle : 2 ^ e ≤ 2 ^ w := Nat.pow_le_pow_right (by decide) he
  have hpos := Nat.two_pow_pos e
  have hmask : (2 ^ e - 1) % 2 ^ w = 2 ^ e - 1 := Nat.mod_eq_of_lt (by omega)
  rw [BitVec.toNat_and, BitVec.toNat_ofNat, BitVec.toNat_ofNat, hmask, Nat.and_two_pow_sub_one_eq_mod,
    Nat.mod_mod_of_dvd _ (Nat.pow_dvd_pow 2 he)]

theorem mod_ne_mod {m a b : Nat} (hlt : a < b) (hwin : b - a < m) : a % m ≠ b % m := by
  intro h
  have hdvd : m ∣ b - a := (Nat.modEq_iff_dvd' hlt.le).1 h
  have hzero := Nat.eq_zero_of_dvd_of_lt hdvd hwin
  omega

end Ring

/-! ## Association lists with distinct keys -/

namespace Assoc

variable {K V : Type} [BEq K] [LawfulBEq K] {l : List (K × V)} {k : K} {v : V}

theorem lookup_of_mem (h : (l.map Prod.fst).Nodup) (hm : (k, v) ∈ l) : l.lookup k = some v := by
  induction l with
  | nil => cases hm
  | cons p l ih =>
    obtain ⟨k', v'⟩ := p
    rw [List.map_cons, List.nodup_cons] at h
    rcases List.mem_cons.1 hm with heq | hm
    · cases heq
      exact List.lookup_cons_self
    · have hne : k ≠ k' := fun heq => h.1 (List.mem_map.2 ⟨(k, v), hm, heq⟩)
      rw [List.lookup_cons, beq_false_of_ne hne]
      exact ih h.2 hm

theorem mem_of_lookup (h : l.lookup k = some v) : (k, v) ∈ l := by
  obtain ⟨pre, post, hl, -⟩ := List.lookup_eq_some_iff.1 h
  rw [hl]
  exact List.mem_append_right _ List.mem_cons_self

theorem nodup_concat (h : (l.map Prod.fst).Nodup) (hnone : l.lookup k = none) (v : V) :
    ((l ++ [(k, v)]).map Prod.fst).Nodup := by
  rw [List.map_append, List.nodup_append]
  refine ⟨h, List.nodup_singleton _, ?_⟩
  rintro k₁ hk₁ k₂ hk₂ rfl
  obtain ⟨⟨k₂, v₂⟩, hmem, rfl⟩ := List.mem_map.1 hk₁
  cases List.mem_singleton.1 hk₂
  rw [lookup_of_mem h hmem] at hnone
  cases hnone

end Assoc

end CppLinuxLearn.Lib
