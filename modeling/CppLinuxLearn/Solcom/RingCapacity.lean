import CppLinuxLearn.Solcom.RingQueue
import Mathlib.Order.Bounds.Basic

/-!
# The capacity of a ring

The constructor of `CachedBuffer` counts the bits of the requested capacity and shifts it to zero thereby, so the
test for rounding up compares with zero: the capacity is the requested one rounded down to a power of two.
-/

namespace CppLinuxLearn.Solcom.CachedBuffer

open Lib

variable {T : Type} {cap fuel : Nat} {fresh : Nat → T} {c : CachedBuffer T}

/-- Pushes one after the other, all of which are taken. -/
def pushAll (c : CachedBuffer T) : List T → Option (CachedBuffer T)
  | [] => some c
  | x :: xs =>
    match c.push x with
    | (.took (some _), c) => c.pushAll xs
    | _ => none

/-- The constructor's loop ends, and the capacity is the requested one rounded up to a power of two. -/
structure RoundsUp (cap : Nat) (fresh : Nat → T) : Prop where
  ends : cap >>> bitLoop 32 cap = 0 ∧ ∀ fuel, 32 ≤ fuel → bitLoop fuel cap = bitLoop 32 cap
  least : IsLeast {p | (∃ e, p = 2 ^ e) ∧ cap ≤ p} (new cap fresh).capacity
  mask : ∀ n : BitVec 64, (new cap fresh).slot n = n.toNat % (new cap fresh).capacity
  holds : ∀ xs : List T, xs.length ≤ cap → ((new cap fresh).pushAll xs).isSome

/-! ## The loop -/

theorem bitLoop_eq (hpos : 0 < cap) (hlt : cap < 2 ^ fuel) : bitLoop fuel cap = cap.log2 + 1 := by
  induction fuel generalizing cap with
  | zero => omega
  | succ fuel ih =>
    rw [bitLoop, if_neg hpos.ne', Nat.shiftRight_one, Nat.log2_def]
    by_cases htwo : 2 ≤ cap
    · rw [if_pos htwo, ih (by omega) (by omega)]
    · have hzero : cap / 2 = 0 := by omega
      have hdone : bitLoop fuel 0 = 0 := by cases fuel <;> rfl
      rw [if_neg htwo, hzero, hdone]

theorem capacity_new_eq (hpos : 0 < cap) (hlt : cap < 2 ^ 32) (fresh : Nat → T) :
    (new cap fresh).capacity = 2 ^ cap.log2 := by
  simp only [new, bitLoop_eq hpos hlt, Nat.not_lt_zero, if_false, Nat.add_sub_cancel, Nat.succ_ne_zero]

theorem isGreatest_capacity (hpos : 0 < cap) (hlt : cap < 2 ^ 32) (fresh : Nat → T) :
    IsGreatest {p | (∃ e, p = 2 ^ e) ∧ p ≤ cap} (new cap fresh).capacity := by
  rw [capacity_new_eq hpos hlt]
  refine ⟨⟨⟨_, rfl⟩, Nat.log2_self_le hpos.ne'⟩, ?_⟩
  rintro p ⟨⟨e, rfl⟩, hle⟩
  exact Nat.pow_le_pow_right (by decide) ((Nat.le_log2 hpos.ne').2 hle)

/-! ## The pushes -/

theorem Carries.pushAll {p : Nat} {ys : List T} (h : c.Carries p ys) {xs : List T}
    (hroom : ys.length + xs.length ≤ c.capacity) : (c.pushAll xs).isSome := by
  induction xs generalizing c ys with
  | nil => rfl
  | cons x xs ih =>
    rw [List.length_cons] at hroom
    obtain ⟨hanswer, hcarries, hcap⟩ := h.push (by omega) x
    have hpush : c.push x = (.took (some x), (c.push x).2) := Prod.ext hanswer rfl
    rw [CachedBuffer.pushAll, hpush]
    exact ih hcarries (by rw [List.length_append, List.length_singleton, hcap]; omega)

theorem carries_new (hpos : 0 < cap) (hlt : cap < 2 ^ 31) (fresh : Nat → T) : (new cap fresh).Carries 0 [] :=
  ⟨span_new hpos hlt fresh, fun j hj => absurd hj (Nat.not_lt_zero j)⟩

/-- **The capacity is rounded up exactly if it is a power of two.** -/
theorem roundsUp_iff (h1 : 1 ≤ cap) (h30 : cap ≤ 2 ^ 30) (fresh : Nat → T) : RoundsUp cap fresh ↔ ∃ e, cap = 2 ^ e := by
  have hlt : cap < 2 ^ 31 := h30.trans_lt (by decide)
  have hdown := isGreatest_capacity h1 (hlt.trans (by decide)) fresh
  constructor
  · intro h
    obtain ⟨⟨e, he⟩, hle⟩ := h.least.1
    exact ⟨e, (hle.antisymm hdown.1.2).trans he⟩
  · rintro ⟨e, rfl⟩
    have hcap : (new (2 ^ e) fresh).capacity = 2 ^ e := hdown.1.2.antisymm (hdown.2 ⟨⟨e, rfl⟩, le_rfl⟩)
    have hsized := (span_new h1 hlt fresh).toSized
    refine ⟨⟨?_, fun fuel hfuel => ?_⟩, ⟨⟨⟨e, hcap⟩, hcap.ge⟩, ?_⟩, fun n => ?_, fun xs hxs => ?_⟩
    · rw [bitLoop_eq h1 (hlt.trans (by decide)), Nat.shiftRight_eq_div_pow]
      exact Nat.div_eq_of_lt Nat.lt_log2_self
    · have hmore : 2 ^ e < 2 ^ fuel := hlt.trans (Nat.pow_lt_pow_right (by decide) (by omega))
      rw [bitLoop_eq h1 hmore, bitLoop_eq h1 (hlt.trans (by decide))]
    · rintro p ⟨-, hp⟩
      exact hcap.trans_le hp
    · have hslot := hsized.slot_eq n.toNat
      rwa [BitVec.ofNat_toNat, BitVec.setWidth_eq] at hslot
    · exact (carries_new h1 hlt fresh).pushAll (by rw [hcap, List.length_nil, Nat.zero_add]; exact hxs)

theorem roundsUp_iff_four : RoundsUp 4 (fun _ => 0) ↔ ∃ e, 4 = 2 ^ e :=
  roundsUp_iff (by decide) (by decide) fun _ => 0

/-- A ring for three elements has two. -/
theorem three_not_roundsUp : ¬ RoundsUp 3 (fun _ => 0) := by
  intro h
  exact absurd h.least.1.2 (by decide)

end CppLinuxLearn.Solcom.CachedBuffer
