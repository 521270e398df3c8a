import CppLinuxLearn.Lib.Bytes

/-!
# Blocks of memory

An allocated block is the list of its bytes. Loads and stores go by an offset that may be anything;
outside the block they are undefined (`none`).
-/

namespace CppLinuxLearn.Lib.Block

/-- `new char[n]`; `junk` is what the memory happens to hold. -/
def alloc (junk : Nat → UInt8) (n : Nat) : Bytes := (List.range n).map junk

/-- The `n` bytes at an offset. -/
def load (b : Bytes) (p : Int) (n : Nat) : Option Bytes :=
  if 0 ≤ p ∧ p + n ≤ b.length then some ((b.drop p.toNat).take n) else none

/-- Other bytes over those at an offset. -/
def overwrite (b : Bytes) (p : Nat) (d : Bytes) : Bytes := b.take p ++ d ++ b.drop (p + d.length)

def store (b : Bytes) (p : Int) (d : Bytes) : Option Bytes :=
  if 0 ≤ p ∧ p + d.length ≤ b.length then some (overwrite b p.toNat d) else none

@[simp] theorem length_alloc (junk : Nat → UInt8) (n : Nat) : (alloc junk n).length = n := by
  simp [alloc]

theorem load_eq {b : Bytes} {p n : Nat} (h : p + n ≤ b.length) :
    load b p n = some ((b.drop p).take n) := by
  have hin : (0 : Int) ≤ p ∧ (p : Int) + n ≤ b.length := by omega
  rw [load, if_pos hin, Int.toNat_natCast]

theorem store_eq {b d : Bytes} {p : Nat} (h : p + d.length ≤ b.length) :
    store b p d = some (overwrite b p d) := by
  have hin : (0 : Int) ≤ p ∧ (p : Int) + d.length ≤ b.length := by omega
  rw [store, if_pos hin, Int.toNat_natCast]

theorem store_eq_none {b d : Bytes} {p : Nat} (h : b.length < p + d.length) : store b p d = none := by
  have hout : ¬ ((0 : Int) ≤ p ∧ (p : Int) + d.length ≤ b.length) := by omega
  rw [store, if_neg hout]

theorem length_overwrite {b d : Bytes} {p : Nat} (h : p + d.length ≤ b.length) :
    (overwrite b p d).length = b.length := by
  simp only [overwrite, List.length_append, List.length_take, List.length_drop]
  omega

theorem length_of_store {b b' d : Bytes} {p : Int} (h : store b p d = some b') : b'.length = b.length := by
  obtain ⟨hin, h⟩ := Option.ite_none_right_eq_some.1 h
  obtain rfl := Option.some.inj h
  exact length_overwrite (by omega)

theorem take_overwrite {b d : Bytes} {p : Nat} (h : p ≤ b.length) :
    (overwrite b p d).take (p + d.length) = b.take p ++ d := by
  have hlen : (b.take p ++ d).length = p + d.length := by
    rw [List.length_append, List.length_take, Nat.min_eq_left h]
  rw [overwrite, List.take_append_of_le_length (by omega), List.take_of_length_le (by omega)]

theorem drop_overwrite {b d : Bytes} {p : Nat} (h : p ≤ b.length) :
    (overwrite b p d).drop (p + d.length) = b.drop (p + d.length) := by
  have hlen : (b.take p ++ d).length = p + d.length := by
    rw [List.length_append, List.length_take, Nat.min_eq_left h]
  rw [overwrite, ← hlen, List.drop_left]

theorem getElem?_overwrite_of_le {b d : Bytes} {p i : Nat} (h : p + d.length ≤ b.length) (hi : p + d.length ≤ i) :
    (overwrite b p d)[i]? = b[i]? := by
  have hlen : (b.take p ++ d).length = p + d.length := by
    rw [List.length_append, List.length_take, Nat.min_eq_left (by omega)]
  rw [overwrite, List.getElem?_append_right (by omega), hlen, List.getElem?_drop, Nat.add_sub_cancel' hi]

theorem getElem?_overwrite_of_lt {b d : Bytes} {p i : Nat} (h : p ≤ b.length) (hi : i < d.length) :
    (overwrite b p d)[p + i]? = d[i]? := by
  have hlen : (b.take p).length = p := by rw [List.length_take, Nat.min_eq_left h]
  rw [overwrite, List.append_assoc, List.getElem?_append_right (by omega), hlen, Nat.add_sub_cancel_left,
    List.getElem?_append_left hi]

theorem getElem?_slice {b : Bytes} {l n k : Nat} (h : k < n) : ((b.drop l).take n)[k]? = b[l + k]? := by
  rw [List.getElem?_take_of_lt h, List.getElem?_drop]

theorem slice_overwrite_right {b d : Bytes} {l r : Nat} (hl : l ≤ r) (hr : r ≤ b.length) :
    ((overwrite b r d).drop l).take (r + d.length - l) = (b.drop l).take (r - l) ++ d := by
  have hlen : ((b.take r).drop l).length = r - l := by
    rw [List.length_drop, List.length_take, Nat.min_eq_left hr]
  have hsplit : r + d.length - l = ((b.take r).drop l).length + d.length := by omega
  rw [overwrite, List.append_assoc, List.drop_append_of_le_length (by rw [List.length_take]; omega), hsplit,
    List.take_length_add_append, List.take_left, List.drop_take]

theorem slice_overwrite_left {b d : Bytes} {p r : Nat} (hp : p + d.length ≤ r) (hr : r ≤ b.length) :
    ((overwrite b p d).drop p).take (r - p) =
      d ++ (b.drop (p + d.length)).take (r - (p + d.length)) := by
  have hlen : (b.take p).length = p := by
    rw [List.length_take]
    omega
  have hdrop : (overwrite b p d).drop p = d ++ b.drop (p + d.length) := by
    rw [overwrite, List.append_assoc, List.drop_left' hlen]
  have hsplit : r - p = d.length + (r - (p + d.length)) := by omega
  rw [hdrop, hsplit, List.take_length_add_append]

end CppLinuxLearn.Lib.Block
