import CppLinuxLearn.Lib.Containers

/-!
# The ring of cached elements

`CachedBuffer.h`. The counters have 64 bits and wrap; a slot is a counter masked by the capacity.
-/

namespace CppLinuxLearn.Solcom

open Lib

structure CachedBuffer (T : Type) where
  elements : List T
  capacity : Nat
  nHead : BitVec 64
  nCurrent : BitVec 64
  nTail : BitVec 64

namespace CachedBuffer
variable {T : Type}

/-- `while (cap) { n++; cap >>= 1; }`; a positive `int` is zero after at most 31 shifts. -/
def bitLoop : Nat → Nat → Nat
  | 0, _ => 0
  | fuel + 1, cap => if cap = 0 then 0 else bitLoop fuel (cap >>> 1) + 1

/-- The constructor; the loop has made `cap` zero when it is compared with the capacity. For a `cap` of zero `1` is
shifted by -1, which is undefined; such a ring has no slot here. -/
def new (cap : Nat) (fresh : Nat → T) : CachedBuffer T :=
  let n := bitLoop 32 cap
  let capacity := if n = 0 then 0 else 2 ^ (n - 1)
  let capacity := if capacity < 0 then capacity * 2 else capacity
  ⟨(List.range capacity).map fresh, capacity, 0, 0, -1⟩

def isEmpty (c : CachedBuffer T) : Bool := c.nTail + 1 == c.nHead

def isFull (c : CachedBuffer T) : Bool := c.nTail + 1 - BitVec.ofNat 64 c.capacity == c.nHead

/-- `n & (capacity - 1)` -/
def slot (c : CachedBuffer T) (n : BitVec 64) : Nat := (n &&& BitVec.ofNat 64 (c.capacity - 1)).toNat

/-- The slot of the element that is returned. -/
def allocate (c : CachedBuffer T) : Option Nat := if c.isFull then none else some (c.slot (c.nTail + 1))

def headForward (c : CachedBuffer T) : Bool × CachedBuffer T :=
  if c.isEmpty then (false, c)
  else
    let nHead := c.nHead + 1
    (true, { c with nHead, nCurrent := if c.nCurrent < nHead then nHead else c.nCurrent })

/-- Move the `nCurrent` position forward one step. -/
def currentForward (c : CachedBuffer T) : Bool × CachedBuffer T :=
  if c.nTail < c.nCurrent then (false, c) else (true, { c with nCurrent := c.nCurrent + 1 })

def tailForward (c : CachedBuffer T) : Bool × CachedBuffer T :=
  if c.isFull then (false, c) else (true, { c with nTail := c.nTail + 1 })

/-- The slot of the element that is returned. -/
def front (c : CachedBuffer T) : Option Nat := if c.isEmpty then none else some (c.slot c.nHead)

/-- The slot of the element that is returned. -/
def current (c : CachedBuffer T) : Option Nat := if c.isEmpty then none else some (c.slot c.nCurrent)

/-- `*p = x` for the pointer to a slot -/
def set (c : CachedBuffer T) (i : Nat) (x : T) : CachedBuffer T :=
  { c with elements := c.elements.set i x }

/-- There is an element in each of the slots. -/
structure Sized (c : CachedBuffer T) : Prop where
  size : ∃ e ≤ 30, c.capacity = 2 ^ e
  length : c.elements.length = c.capacity

/-! ## The ring between two positions -/

/-- `k` elements were pushed and `p` of them popped. -/
structure Span (c : CachedBuffer T) (p k : Nat) : Prop extends c.Sized where
  head : c.nHead = BitVec.ofNat 64 p
  tail : c.nTail + 1 = BitVec.ofNat 64 k
  le : p ≤ k
  room : k ≤ p + c.capacity

/-- `k` elements were pushed and `p` of them popped, and `nCurrent` is at the head. -/
structure Between (c : CachedBuffer T) (p k : Nat) : Prop extends c.Sized where
  head : c.nHead = BitVec.ofNat 64 p
  tail : c.nTail + 1 = BitVec.ofNat 64 k
  current : c.nCurrent = c.nHead
  le : p ≤ k
  room : k ≤ p + c.capacity

theorem Between.span {c : CachedBuffer T} {p k : Nat} (h : c.Between p k) : c.Span p k :=
  ⟨h.toSized, h.head, h.tail, h.le, h.room⟩

variable {c : CachedBuffer T} {p k : Nat}

theorem between_new (fresh : Nat → T) : (new 128 fresh).Between 0 0 where
  head := rfl
  tail := by
    show (-1 : BitVec 64) + 1 = 0
    decide
  current := rfl
  le := le_rfl
  room := Nat.zero_le _
  size := ⟨7, by decide, rfl⟩
  length := by simp [new]

theorem bitLoop_le {n : Nat} : ∀ {fuel cap : Nat}, cap < 2 ^ n → bitLoop fuel cap ≤ n := by
  induction n with
  | zero =>
    intro fuel cap h
    obtain rfl : cap = 0 := by simpa using h
    cases fuel <;> exact Nat.le_refl 0
  | succ n ih =>
    intro fuel cap h
    cases fuel with
    | zero => exact Nat.zero_le _
    | succ fuel =>
      rw [bitLoop]
      split
      · exact Nat.zero_le _
      · have hhalf : cap >>> 1 < 2 ^ n := by
          rw [Nat.shiftRight_eq_div_pow, pow_one]
          omega
        exact Nat.succ_le_succ (ih hhalf)

theorem bitLoop_ne_zero {cap : Nat} (hpos : 0 < cap) : bitLoop 32 cap ≠ 0 := by
  rw [bitLoop, if_neg hpos.ne']
  exact Nat.succ_ne_zero _

theorem span_new {cap : Nat} (hpos : 0 < cap) (hcap : cap < 2 ^ 31) (fresh : Nat → T) :
    (new cap fresh).Span 0 0 where
  size := ⟨bitLoop 32 cap - 1, Nat.sub_le_sub_right (bitLoop_le hcap) 1, by simp [new, bitLoop_ne_zero hpos]⟩
  length := by simp [new]
  head := rfl
  tail := by
    show (-1 : BitVec 64) + 1 = 0
    decide
  le := le_rfl
  room := Nat.zero_le _

namespace Sized

theorem capacity_pos (h : c.Sized) : 0 < c.capacity := by
  obtain ⟨e, -, he⟩ := h.size
  rw [he]
  exact Nat.two_pow_pos e

theorem capacity_lt (h : c.Sized) : c.capacity < 2 ^ 31 := by
  obtain ⟨e, hle, he⟩ := h.size
  have := Nat.pow_le_pow_right (n := 2) (by decide) hle
  omega

theorem slot_eq (h : c.Sized) (n : Nat) : c.slot (BitVec.ofNat 64 n) = n % c.capacity := by
  obtain ⟨e, hle, he⟩ := h.size
  rw [slot, he]
  exact Ring.toNat_and_mask (by omega) n

theorem lt_length (h : c.Sized) (n : Nat) : n % c.capacity < c.elements.length := by
  rw [h.length]
  exact Nat.mod_lt _ h.capacity_pos

theorem slot_lt (h : c.Sized) (n : BitVec 64) : c.slot n < c.elements.length := by
  have hslot := h.slot_eq n.toNat
  rw [BitVec.ofNat_toNat, BitVec.setWidth_eq] at hslot
  rw [hslot]
  exact h.lt_length n.toNat

theorem allocate_lt (h : c.Sized) {i : Nat} (hi : c.allocate = some i) : i < c.elements.length := by
  rw [allocate] at hi
  split at hi
  · cases hi
  · cases hi
    exact h.slot_lt _

theorem set (h : c.Sized) (i : Nat) (x : T) : (c.set i x).Sized where
  size := h.size
  length := by rw [CachedBuffer.set, List.length_set, h.length]

theorem tailForward (h : c.Sized) : c.tailForward.2.Sized := by
  rw [CachedBuffer.tailForward]
  split
  · exact h
  · exact ⟨h.size, h.length⟩

theorem headForward (h : c.Sized) : c.headForward.2.Sized := by
  rw [CachedBuffer.headForward]
  split
  · exact h
  · exact ⟨h.size, h.length⟩

end Sized

theorem elements_tailForward (c : CachedBuffer T) : c.tailForward.2.elements = c.elements := by
  rw [tailForward]
  split <;> rfl

theorem elements_headForward (c : CachedBuffer T) : c.headForward.2.elements = c.elements := by
  rw [headForward]
  split <;> rfl

namespace Span

theorem isEmpty_iff (h : c.Span p k) : c.isEmpty = true ↔ p = k := by
  have hroom := h.room
  have hcap := h.toSized.capacity_lt
  rw [isEmpty, h.tail, h.head, beq_iff_eq, eq_comm]
  exact Ring.ofNat_eq_ofNat_iff h.le (by omega)

theorem isFull_iff (h : c.Span p k) : c.isFull = true ↔ k = p + c.capacity := by
  have hle := h.le
  have hroom := h.room
  have hcap := h.toSized.capacity_lt
  rw [isFull, h.tail, h.head, beq_iff_eq, BitVec.sub_eq_iff_eq_add, ← BitVec.ofNat_add]
  exact Ring.ofNat_eq_ofNat_iff hroom (by omega)

theorem allocate_eq (h : c.Span p k) :
    c.allocate = if k = p + c.capacity then none else some (k % c.capacity) := by
  rw [allocate, h.tail, h.toSized.slot_eq]
  simp only [h.isFull_iff]

theorem front_eq (h : c.Span p k) : c.front = if p = k then none else some (p % c.capacity) := by
  rw [front, h.head, h.toSized.slot_eq]
  simp only [h.isEmpty_iff]

theorem moved (h : c.Span p k) (n : BitVec 64) : Span { c with nCurrent := n } p k :=
  ⟨⟨h.size, h.length⟩, h.head, h.tail, h.le, h.room⟩

theorem set (h : c.Span p k) (i : Nat) (x : T) : (c.set i x).Span p k :=
  ⟨h.toSized.set i x, h.head, h.tail, h.le, h.room⟩

theorem tailForward (h : c.Span p k) (hfull : k ≠ p + c.capacity) :
    c.tailForward.1 = true ∧ c.tailForward.2.Span p (k + 1) ∧ c.tailForward.2.capacity = c.capacity := by
  have hnot : ¬ c.isFull = true := fun hf => hfull (h.isFull_iff.1 hf)
  have heq : c.tailForward = (true, { c with nTail := c.nTail + 1 }) := by
    rw [CachedBuffer.tailForward, if_neg hnot]
  have hle := h.le
  have hroom := h.room
  rw [heq]
  refine ⟨rfl, ⟨⟨h.size, h.length⟩, h.head, ?_, by omega, ?_⟩, rfl⟩
  · show c.nTail + 1 + 1 = _
    rw [h.tail, BitVec.ofNat_add]
    rfl
  · show k + 1 ≤ p + c.capacity
    omega

theorem headForward (h : c.Span p k) (hne : p ≠ k) :
    c.headForward.1 = true ∧ c.headForward.2.Span (p + 1) k ∧ c.headForward.2.capacity = c.capacity := by
  have hnot : ¬ c.isEmpty = true := fun he => hne (h.isEmpty_iff.1 he)
  rw [CachedBuffer.headForward, if_neg hnot]
  have hle := h.le
  have hroom := h.room
  refine ⟨rfl, ⟨⟨h.size, h.length⟩, ?_, h.tail, by omega, ?_⟩, rfl⟩
  · show c.nHead + 1 = _
    rw [h.head, BitVec.ofNat_add]
    rfl
  · show k ≤ p + 1 + c.capacity
    omega

end Span

namespace Between

theorem isEmpty_iff (h : c.Between p k) : c.isEmpty = true ↔ p = k := h.span.isEmpty_iff

theorem allocate_eq (h : c.Between p k) :
    c.allocate = if k = p + c.capacity then none else some (k % c.capacity) := h.span.allocate_eq

theorem current_eq (h : c.Between p k) : c.current = if p = k then none else some (p % c.capacity) := by
  rw [CachedBuffer.current, h.current, h.head, h.toSized.slot_eq]
  simp only [h.isEmpty_iff]

theorem set (h : c.Between p k) (i : Nat) (x : T) : (c.set i x).Between p k where
  toSized := h.toSized.set i x
  head := h.head
  tail := h.tail
  current := h.current
  le := h.le
  room := h.room

theorem tailForward (h : c.Between p k) (hfull : k ≠ p + c.capacity) :
    c.tailForward.2.Between p (k + 1) ∧ c.tailForward.2.capacity = c.capacity := by
  obtain ⟨-, hspan, hcap⟩ := h.span.tailForward hfull
  refine ⟨⟨hspan.toSized, hspan.head, hspan.tail, ?_, hspan.le, hspan.room⟩, hcap⟩
  rw [CachedBuffer.tailForward]
  split <;> exact h.current

theorem headForward (h : c.Between p k) (hne : p ≠ k) (hwrap : c.nHead ≠ BitVec.allOnes 64) :
    c.headForward.2.Between (p + 1) k ∧ c.headForward.2.capacity = c.capacity := by
  have hnot : ¬ c.isEmpty = true := fun he => hne (h.isEmpty_iff.1 he)
  have hlt : c.nHead < c.nHead + 1 := by
    have hmax : c.nHead.toNat ≠ 2 ^ 64 - 1 := by
      intro heq
      exact hwrap (BitVec.eq_of_toNat_eq (by rw [heq, BitVec.toNat_allOnes]))
    have hbound := c.nHead.isLt
    have hone : (1 : BitVec 64).toNat = 1 := rfl
    rw [BitVec.lt_def, BitVec.toNat_add, hone]
    omega
  obtain ⟨-, hspan, hcap⟩ := h.span.headForward hne
  refine ⟨⟨hspan.toSized, hspan.head, hspan.tail, ?_, hspan.le, hspan.room⟩, hcap⟩
  rw [CachedBuffer.headForward, if_neg hnot, h.current]
  exact if_pos hlt

end Between

end CachedBuffer

end CppLinuxLearn.Solcom
