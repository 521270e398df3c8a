import CppLinuxLearn.Lib.Steps
import CppLinuxLearn.Solcom.ByteDeque

/-!
# The capacity of a byte array

`Reallocate` takes a block of the new size and leaves `nCapacity` as it was. From then on the capacity is
not the size of the block, and a later request that is larger than the one and smaller than the other
gives a smaller block, into which more bytes may be copied than it has.
-/

namespace CppLinuxLearn.Solcom

open Lib Steps

inductive ArrayAction
  | Init
  | Reallocate (junk : Nat → UInt8) (newCap : Int)
  | LeftForward (nSize : Int)
  | LeftBackward (nSize : Int)
  | RightForward (nSize : Int)
  | RightBackward (nSize : Int)
  | Append (data : Bytes)

namespace CByteArray

/-- The pointers are inside the block that is allocated. -/
def within (b : CByteArray) : Option CByteArray := if Inside b.CharArray.length b.pos then some b else none

/-- Pointers are moved inside the block, and appends stay inside it. -/
def step (b : CByteArray) : ArrayAction → Option CByteArray
  | .Init => some b.Init
  | .Reallocate junk newCap => b.Reallocate junk newCap
  | .LeftForward nSize => (b.LeftForward nSize).within
  | .LeftBackward nSize => (b.LeftBackward nSize).within
  | .RightForward nSize => (b.RightForward nSize).within
  | .RightBackward nSize => (b.RightBackward nSize).within
  | .Append data => b.Append data

/-- The capacity is the number of bytes that are allocated. -/
def Allocated (b : CByteArray) : Prop := b.Capacity = b.CharArray.length

/-- A reallocation copies inside both blocks, leaves one that is no smaller, and keeps the pointers and
the bytes between them. -/
def Preserves (b : CByteArray) : ArrayAction → Prop
  | .Reallocate junk newCap => ∃ t, b.Reallocate junk newCap = some t ∧
    b.CharArray.length ≤ t.CharArray.length ∧ t.pos = b.pos ∧ t.window = b.window
  | _ => True

/-- A reallocation asks for no more than the capacity. -/
def AsksNoMore (b : CByteArray) : ArrayAction → Prop
  | .Reallocate _ newCap => newCap ≤ b.Capacity
  | _ => True

instance (b : CByteArray) (a : ArrayAction) : Decidable (AsksNoMore b a) := by
  cases a <;> unfold AsksNoMore <;> infer_instance

/-! ## One reallocation -/

section
variable {b t : CByteArray} {junk : Nat → UInt8} {newCap : Int}

theorem reallocate_eq_some (hgrow : b.nCapacity < newCap) (h : b.Reallocate junk newCap = some t) :
    ∃ pNewArr, t = { b with pCharArr := pNewArr } ∧ pNewArr.length = newCap.toNat := by
  rw [Reallocate, if_pos hgrow] at h
  obtain ⟨-, h⟩ := Option.ite_none_left_eq_some.1 h
  obtain ⟨d, -, h⟩ := Option.bind_eq_some_iff.1 h
  obtain ⟨pNewArr, hstore, h⟩ := Option.bind_eq_some_iff.1 h
  exact ⟨pNewArr, (Option.some.inj h).symm, (Block.length_of_store hstore).trans (Block.length_alloc junk _)⟩

/-- What lies between the pointers is copied where it fits in the new block, and else the copy leaves
it. -/
theorem reallocate_spec (hin : Inside b.pCharArr.length b.pos) (hcap : 0 ≤ b.nCapacity)
    (hgrow : b.nCapacity < newCap) :
    (b.nRight ≤ newCap → ∃ t, b.Reallocate junk newCap = some t ∧ t.pos = b.pos ∧ t.window = b.window) ∧
      (newCap < b.nRight → b.Reallocate junk newCap = none) := by
  obtain ⟨hleft, hle, hright⟩ := hin
  simp only [pos] at hleft hle hright
  obtain ⟨l, hl⟩ := Int.eq_ofNat_of_zero_le hleft
  obtain ⟨n, hn⟩ : ∃ n : Nat, b.nRight = l + n := ⟨(b.nRight - b.nLeft).toNat, by omega⟩
  obtain ⟨m, hm⟩ := Int.eq_ofNat_of_zero_le (hcap.trans hgrow.le)
  have hsub : (b.nRight - b.nLeft).toNat = n := by omega
  have hload : Block.load b.pCharArr b.nLeft n = some b.window := by
    rw [hl, Block.load_eq (by omega), window, hsub, hl, Int.toNat_natCast]
  have hlen : b.window.length = n := by
    rw [window, hsub, hl, Int.toNat_natCast, List.length_take, List.length_drop]
    omega
  have heq : b.Reallocate junk newCap = (Block.store (Block.alloc junk m) l b.window).bind fun pNewArr =>
      some { b with pCharArr := pNewArr } := by
    rw [Reallocate, if_pos hgrow, if_neg (by omega), hsub, hload, hl, hm, Int.toNat_natCast]
    rfl
  have hsize : (Block.alloc junk m).length = m := Block.length_alloc junk m
  constructor
  · intro hfits
    have hroom : l + b.window.length ≤ (Block.alloc junk m).length := by omega
    rw [heq, Block.store_eq hroom]
    refine ⟨_, rfl, rfl, ?_⟩
    have hslice := Block.slice_overwrite_right (b := Block.alloc junk m) (d := b.window) (le_refl l) (by omega)
    have htotal : l + b.window.length - l = n := by omega
    rw [htotal, Nat.sub_self, List.take_zero, List.nil_append] at hslice
    show ((Block.overwrite (Block.alloc junk m) l b.window).drop b.nLeft.toNat).take _ = b.window
    rw [hsub, hl, Int.toNat_natCast, hslice]
  · intro hout
    rw [heq, Block.store_eq_none (by omega)]
    rfl

end

/-! ## Histories -/

section
variable {b t : CByteArray} {a : ArrayAction}

theorem Allocated.within (h : b.Allocated) (ht : b.within = some t) : t.Allocated := by
  obtain ⟨-, ht⟩ := Option.ite_none_right_eq_some.1 ht
  exact Option.some.inj ht ▸ h

theorem Allocated.step (h : b.Allocated) (ha : b.AsksNoMore a) (ht : b.step a = some t) : t.Allocated := by
  cases a with
  | Init => exact Option.some.inj ht ▸ h
  | Reallocate junk newCap =>
    have hsame : b.Reallocate junk newCap = some b := if_neg (not_lt.2 ha)
    exact Option.some.inj (hsame.symm.trans ht) ▸ h
  | LeftForward nSize => exact Allocated.within (b := b.LeftForward nSize) h ht
  | LeftBackward nSize => exact Allocated.within (b := b.LeftBackward nSize) h ht
  | RightForward nSize => exact Allocated.within (b := b.RightForward nSize) h ht
  | RightBackward nSize => exact Allocated.within (b := b.RightBackward nSize) h ht
  | Append data =>
    obtain ⟨pCharArr, hstore, ht⟩ := Option.bind_eq_some_iff.1 ht
    obtain rfl := Option.some.inj ht
    exact h.trans (congrArg Nat.cast (Block.length_of_store hstore).symm)

theorem AsksNoMore.preserves (ha : b.AsksNoMore a) : b.Preserves a := by
  cases a with
  | Reallocate junk newCap => exact ⟨b, if_neg (not_lt.2 ha), le_rfl, rfl, rfl⟩
  | _ => trivial

theorem Preserves.asksNoMore (h : b.Preserves a) (hb : b.Allocated)
    (hnext : ∀ t, b.step a = some t → t.Allocated) : b.AsksNoMore a := by
  cases a with
  | Reallocate junk newCap =>
    obtain ⟨t, ht, hle, -, -⟩ := h
    by_contra hgrow
    have hgrow : b.nCapacity < newCap := not_le.1 hgrow
    obtain ⟨pNewArr, rfl, hlen⟩ := reallocate_eq_some hgrow ht
    have hb : b.nCapacity = b.pCharArr.length := hb
    have halloc : b.nCapacity = pNewArr.length := hnext _ ht
    omega
  | _ => trivial

end

/-- **In every history of an array, the capacity is the size of the block and every reallocation keeps
what it is to keep exactly if none asks for more than the capacity.** -/
theorem allocated_iff (junk : Nat → UInt8) (nCap : Int) (as : List ArrayAction) :
    (Throughout step Allocated (new junk nCap) as ∧ Meets step Preserves (new junk nCap) as) ↔
      Meets step AsksNoMore (new junk nCap) as := by
  have hnew : (new junk nCap).Allocated := by
    have hcap : 0 ≤ (new junk nCap).nCapacity := by
      simp only [new]
      split <;> omega
    show (new junk nCap).nCapacity = ((Block.alloc junk (new junk nCap).nCapacity.toNat).length : Int)
    rw [Block.length_alloc, Int.toNat_of_nonneg hcap]
  generalize new junk nCap = b at hnew
  induction as generalizing b with
  | nil => exact iff_of_true ⟨hnew, trivial⟩ trivial
  | cons a as ih =>
    constructor
    · rintro ⟨⟨-, hall⟩, hpres, hrest⟩
      have ha := hpres.asksNoMore hnew fun t ht => (hall t ht).head
      exact ⟨ha, fun t ht => (ih t (hnew.step ha ht)).1 ⟨hall t ht, hrest t ht⟩⟩
    · rintro ⟨ha, hrest⟩
      have hnext := fun t ht => (ih t (hnew.step ha ht)).2 (hrest t ht)
      exact ⟨⟨hnew, fun t ht => (hnext t ht).1⟩, ha.preserves, fun t ht => (hnext t ht).2⟩

/-- A large request, and more bytes than the next request is for. -/
def large : List ArrayAction := [.Reallocate (fun _ => 0) 2000, .RightForward 1724]

theorem large_runs : (run step (new (fun _ => 0) 1424) large).map (fun b =>
    (b.nCapacity, b.pCharArr.length, b.nLeft, b.nRight)) = some (1424, 2000, 0, 1724) := by
  decide +kernel

/-- The capacity is not the size of the block, and a request for 1500 bytes copies 1724 into them. -/
theorem large_not_allocated : ∃ b, run step (new (fun _ => 0) 1424) large = some b ∧ ¬ b.Allocated ∧
    ¬ b.Preserves (.Reallocate (fun _ => 0) 1500) := by
  obtain ⟨b, hb, hfields⟩ := Option.map_eq_some_iff.1 large_runs
  simp only [Prod.mk.injEq] at hfields
  obtain ⟨hcap, hlen, hleft, hright⟩ := hfields
  refine ⟨b, hb, fun halloc => ?_, ?_⟩
  · have halloc : b.nCapacity = b.pCharArr.length := halloc
    omega
  · rintro ⟨t, ht, -⟩
    have hin : Inside b.pCharArr.length b.pos := by
      simp only [Inside, pos]
      omega
    have hgrow : b.nCapacity < 1500 := by omega
    have hnone : b.Reallocate (fun _ => 0) 1500 = none :=
      (reallocate_spec hin (by omega) hgrow).2 (by omega)
    rw [hnone] at ht
    cases ht

end CByteArray

end CppLinuxLearn.Solcom
