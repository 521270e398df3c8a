import CppLinuxLearn.Lib.Containers
import CppLinuxLearn.Solcom.ByteArray

/-!
# The byte array as a queue with two ends

The bytes between the pointers under any sequence of the eight functions that put bytes at an end or
take them. What the array form of `TailIntercept` copies is one element, whatever the count is; for
every other call the bytes are a queue with two ends.
-/

namespace CppLinuxLearn.Solcom

open Lib

/-- A call of one of the eight functions. -/
inductive DequeCall
  | Append (data : Bytes)
  | AppendArray (e : Elements)
  | Prepend (data : Bytes)
  | PrependArray (e : Elements)
  | HeadIntercept (sizeofT : SizeOf)
  | HeadInterceptArray (sizeofT : SizeOf) (nSize : Nat)
  | TailIntercept (sizeofT : SizeOf)
  | TailInterceptArray (sizeofT : SizeOf) (nSize : Nat)

namespace DequeCall

/-- What the call is to do with the queue. -/
def op : DequeCall → Deque.Op UInt8
  | Append data => .pushBack data
  | AppendArray e => .pushBack e.pArray
  | Prepend data => .pushFront data
  | PrependArray e => .pushFront e.pArray
  | HeadIntercept sizeofT => .popFront sizeofT
  | HeadInterceptArray sizeofT nSize => .popFront (sizeofT * nSize)
  | TailIntercept sizeofT => .popBack sizeofT
  | TailInterceptArray sizeofT nSize => .popBack (sizeofT * nSize)

/-- The call on the array: the bytes that are copied out, and the array after it. -/
def exec (b : CByteArray) : DequeCall → Option (Bytes × CByteArray)
  | Append data => (b.Append data).map ([], ·)
  | AppendArray e => (b.AppendArray e).map ([], ·)
  | Prepend data => (b.Prepend data).map ([], ·)
  | PrependArray e => (b.PrependArray e).map ([], ·)
  | HeadIntercept sizeofT => b.HeadIntercept sizeofT
  | HeadInterceptArray sizeofT nSize => b.HeadInterceptArray sizeofT nSize
  | TailIntercept sizeofT => b.TailIntercept sizeofT
  | TailInterceptArray sizeofT nSize => b.TailInterceptArray sizeofT nSize

/-- All bytes that leave the queue are copied out. -/
def CopiesAll : DequeCall → Prop
  | TailInterceptArray _ nSize => nSize = 1
  | _ => True

instance (c : DequeCall) : Decidable c.CopiesAll := by
  cases c <;> unfold CopiesAll <;> infer_instance

end DequeCall

/-- The left and the right pointer after an operation. -/
def movedBy (p : Int × Int) : Deque.Op UInt8 → Int × Int
  | .pushBack xs => (p.1, p.2 + xs.length)
  | .pushFront xs => (p.1 - xs.length, p.2)
  | .popFront n => (p.1 + n, p.2)
  | .popBack n => (p.1, p.2 - n)

/-- `0 <= nLeft <= nRight <= capacity` -/
def Inside (cap : Int) (p : Int × Int) : Prop := 0 ≤ p.1 ∧ p.1 ≤ p.2 ∧ p.2 ≤ cap

instance (cap : Int) (p : Int × Int) : Decidable (Inside cap p) := inferInstanceAs (Decidable (_ ∧ _))

/-- The pointers stay inside the capacity after every call. -/
def StaysInside (cap : Int) : Int × Int → List DequeCall → Prop
  | _, [] => True
  | p, c :: cs => Inside cap (movedBy p c.op) ∧ StaysInside cap (movedBy p c.op) cs

instance StaysInside.decidable (cap : Int) :
    ∀ (cs : List DequeCall) (p : Int × Int), Decidable (StaysInside cap p cs)
  | [], _ => .isTrue trivial
  | c :: cs, p =>
    have := StaysInside.decidable cap cs (movedBy p c.op)
    inferInstanceAs (Decidable (_ ∧ _))

namespace CByteArray

/-- `nLeft` and `nRight` -/
def pos (b : CByteArray) : Int × Int := (b.nLeft, b.nRight)

/-- The pointers are inside the capacity, and the block is no smaller than that. -/
structure Valid (b : CByteArray) : Prop where
  inside : Inside b.nCapacity b.pos
  room : b.nCapacity ≤ b.pCharArr.length

/-- Every call does to the bytes between the pointers what it is to do with the queue, and copies out
what leaves it. -/
def RefinesDeque : CByteArray → List DequeCall → Prop
  | _, [] => True
  | b, c :: cs => ∃ b', c.exec b = some ((Deque.step b.window c.op).1, b') ∧
      b'.window = (Deque.step b.window c.op).2 ∧ b'.pos = movedBy b.pos c.op ∧ b'.RefinesDeque cs

/-! ## One call -/

/-- What a call leaves: the bytes between the pointers, the pointers, and a valid array. -/
structure Became (b : CByteArray) (op : Deque.Op UInt8) (b' : CByteArray) : Prop where
  window : b'.window = (Deque.step b.window op).2
  pos : b'.pos = movedBy b.pos op
  capacity : b'.nCapacity = b.nCapacity
  room : b'.pCharArr.length = b.pCharArr.length

theorem Became.valid {b b' : CByteArray} {op : Deque.Op UInt8} (h : Became b op b') (hb : b.Valid)
    (hin : Inside b.nCapacity (movedBy b.pos op)) : b'.Valid := by
  refine ⟨?_, ?_⟩
  · rw [h.capacity, h.pos]
    exact hin
  · rw [h.capacity, h.room]
    exact hb.room

theorem Valid.exists_nat {b : CByteArray} (hb : b.Valid) : ∃ l r : Nat, b.nLeft = l ∧ b.nRight = r ∧ l ≤ r ∧
    r ≤ b.pCharArr.length ∧ b.window = (b.pCharArr.drop l).take (r - l) ∧ b.window.length = r - l := by
  obtain ⟨hl, hle, hr⟩ := hb.inside
  have hroom := hb.room
  simp only [pos] at hl hle hr
  have hwindow : b.window = (b.pCharArr.drop b.nLeft.toNat).take (b.nRight.toNat - b.nLeft.toNat) := by
    have hsub : (b.nRight - b.nLeft).toNat = b.nRight.toNat - b.nLeft.toNat := by omega
    rw [window, hsub]
  refine ⟨b.nLeft.toNat, b.nRight.toNat, by omega, by omega, by omega, by omega, hwindow, ?_⟩
  rw [hwindow, List.length_take, List.length_drop]
  omega

section
variable {b : CByteArray}

theorem Valid.append (hb : b.Valid) {data : Bytes} (hin : Inside b.nCapacity (movedBy b.pos (.pushBack data))) :
    ∃ b', b.Append data = some b' ∧ Became b (.pushBack data) b' := by
  obtain ⟨l, r, hl, hr, hle, -, hwindow, -⟩ := hb.exists_nat
  obtain ⟨-, -, hcap⟩ := hin
  have hroom := hb.room
  have hfits : r + data.length ≤ b.pCharArr.length := by
    simp only [movedBy, pos, hr] at hcap
    omega
  have hstore : Block.store b.pCharArr b.nRight data = some (Block.overwrite b.pCharArr r data) := by
    rw [hr]
    exact Block.store_eq hfits
  refine ⟨{ b with
      pCharArr := Block.overwrite b.pCharArr r data
      nRight := b.nRight + data.length }, ?_, ?_, rfl, rfl, Block.length_overwrite hfits⟩
  · rw [Append, hstore]
    rfl
  · have hsub : (b.nRight + data.length - b.nLeft).toNat = r + data.length - l := by omega
    show ((Block.overwrite b.pCharArr r data).drop b.nLeft.toNat).take _ = b.window ++ data
    rw [hsub, hl, Int.toNat_natCast, Block.slice_overwrite_right hle (by omega), hwindow]

theorem Valid.prepend (hb : b.Valid) {data : Bytes} (hin : Inside b.nCapacity (movedBy b.pos (.pushFront data))) :
    ∃ b', b.Prepend data = some b' ∧ Became b (.pushFront data) b' := by
  obtain ⟨l, r, hl, hr, hle, hlen, hwindow, -⟩ := hb.exists_nat
  obtain ⟨hpos, -, -⟩ := hin
  simp only [movedBy, pos, hl] at hpos
  obtain ⟨p, hp⟩ : ∃ p, l = p + data.length := ⟨l - data.length, by omega⟩
  have hleft : b.nLeft - data.length = (p : Int) := by omega
  have hfits : p + data.length ≤ b.pCharArr.length := by omega
  have hstore : Block.store b.pCharArr (b.nLeft - data.length) data =
      some (Block.overwrite b.pCharArr p data) := by
    rw [hleft]
    exact Block.store_eq hfits
  refine ⟨{ b with
      pCharArr := Block.overwrite b.pCharArr p data
      nLeft := b.nLeft - data.length }, ?_, ?_, rfl, rfl, Block.length_overwrite hfits⟩
  · rw [Prepend, hstore]
    rfl
  · have hsub : (b.nRight - (p : Int)).toNat = r - p := by omega
    show ((Block.overwrite b.pCharArr p data).drop (b.nLeft - data.length).toNat).take
      (b.nRight - (b.nLeft - data.length)).toNat = data ++ b.window
    rw [hleft, hsub, Int.toNat_natCast, Block.slice_overwrite_left (by omega) hlen, hwindow, hp]

theorem Valid.headIntercept (hb : b.Valid) {n : Nat} (hin : Inside b.nCapacity (movedBy b.pos (.popFront n))) :
    Block.load b.pCharArr b.nLeft n = some (Deque.step b.window (.popFront n)).1 ∧
      Became b (.popFront n) { b with nLeft := b.nLeft + n } := by
  obtain ⟨l, r, hl, hr, hle, hlen, hwindow, -⟩ := hb.exists_nat
  obtain ⟨-, hpop, -⟩ := hin
  simp only [movedBy, pos, hl, hr] at hpop
  have hfits : l + n ≤ b.pCharArr.length := by omega
  refine ⟨?_, ?_, rfl, rfl, rfl⟩
  · rw [hl, Block.load_eq hfits, Deque.step, hwindow, List.take_take, Nat.min_eq_left (by omega)]
  · have hsub : (b.nRight - (b.nLeft + n)).toNat = r - l - n := by omega
    have hdrop : (b.nLeft + n).toNat = l + n := by omega
    show (b.pCharArr.drop (b.nLeft + n).toNat).take _ = b.window.drop n
    rw [hsub, hdrop, hwindow, List.drop_take, List.drop_drop]

theorem Valid.tailIntercept (hb : b.Valid) {n : Nat} (hin : Inside b.nCapacity (movedBy b.pos (.popBack n))) :
    Block.load b.pCharArr (b.nRight - n) n = some (Deque.step b.window (.popBack n)).1 ∧
      Became b (.popBack n) { b with nRight := b.nRight - n } := by
  obtain ⟨l, r, hl, hr, hle, hlen, hwindow, hsize⟩ := hb.exists_nat
  obtain ⟨-, hpop, -⟩ := hin
  simp only [movedBy, pos, hl, hr] at hpop
  have hright : b.nRight - n = ((r - n : Nat) : Int) := by omega
  have hfits : r - n + n ≤ b.pCharArr.length := by omega
  refine ⟨?_, ?_, rfl, rfl, rfl⟩
  · have hstart : l + (r - l - n) = r - n := by omega
    have hrest : r - l - (r - l - n) = n := by omega
    rw [hright, Block.load_eq hfits, Deque.step, hsize, hwindow, List.drop_take, List.drop_drop, hstart, hrest]
  · have hsub : (b.nRight - n - b.nLeft).toNat = r - l - n := by omega
    show (b.pCharArr.drop b.nLeft.toNat).take _ = b.window.take (b.window.length - n)
    rw [hsub, hsize, hl, Int.toNat_natCast, hwindow, List.take_take, Nat.min_eq_left (by omega)]

theorem appendArray_eq (e : Elements) (b : CByteArray) : b.AppendArray e = b.Append e.pArray := by
  rw [AppendArray, Append, e.length_pArray]

theorem prependArray_eq (e : Elements) (b : CByteArray) : b.PrependArray e = b.Prepend e.pArray := by
  rw [PrependArray, Prepend, e.length_pArray]

theorem length_tailInterceptArray {sizeofT : SizeOf} {nSize : Nat} {out : Bytes} {b' : CByteArray}
    (h : b.TailInterceptArray sizeofT nSize = some (out, b')) : out.length = sizeofT := by
  obtain ⟨data, hload, h⟩ := Option.bind_eq_some_iff.1 h
  cases h
  rw [Block.load] at hload
  obtain ⟨hin, hload⟩ := Option.ite_none_right_eq_some.1 hload
  cases hload
  rw [List.length_take, List.length_drop]
  omega

end

/-! ## Sequences of calls -/

section
variable {b : CByteArray} {c : DequeCall}

/-- A call that copies all is an operation on the queue. -/
theorem Valid.exec (hb : b.Valid) (hin : Inside b.nCapacity (movedBy b.pos c.op)) (hc : c.CopiesAll) :
    ∃ b', c.exec b = some ((Deque.step b.window c.op).1, b') ∧ Became b c.op b' := by
  have hput : ∀ {put : Option CByteArray} {op : Deque.Op UInt8}, (∃ b', put = some b' ∧ Became b op b') →
      ∃ b', put.map (([] : Bytes), ·) = some ([], b') ∧ Became b op b' := by
    rintro put op ⟨b', rfl, h⟩
    exact ⟨b', rfl, h⟩
  cases c with
  | Append data => exact hput (hb.append hin)
  | AppendArray e => exact hput (appendArray_eq e b ▸ hb.append hin)
  | Prepend data => exact hput (hb.prepend hin)
  | PrependArray e => exact hput (prependArray_eq e b ▸ hb.prepend hin)
  | HeadIntercept sizeofT =>
    obtain ⟨hload, hbecame⟩ := hb.headIntercept hin
    exact ⟨_, Option.bind_eq_some_iff.2 ⟨_, hload, rfl⟩, hbecame⟩
  | HeadInterceptArray sizeofT nSize =>
    obtain ⟨hload, hbecame⟩ := hb.headIntercept hin
    exact ⟨_, Option.bind_eq_some_iff.2 ⟨_, hload, rfl⟩, hbecame⟩
  | TailIntercept sizeofT =>
    obtain ⟨hload, hbecame⟩ := hb.tailIntercept hin
    exact ⟨_, Option.bind_eq_some_iff.2 ⟨_, hload, rfl⟩, hbecame⟩
  | TailInterceptArray sizeofT nSize =>
    obtain rfl : nSize = 1 := hc
    simp only [DequeCall.op, Nat.mul_one] at hin ⊢
    obtain ⟨hload, hbecame⟩ := hb.tailIntercept hin
    refine ⟨_, Option.bind_eq_some_iff.2 ⟨_, ?_, rfl⟩, ?_⟩ <;> simp only [Nat.mul_one]
    · exact hload
    · exact hbecame

theorem Valid.copiesAll (hb : b.Valid) (hin : Inside b.nCapacity (movedBy b.pos c.op)) {b' : CByteArray}
    (h : c.exec b = some ((Deque.step b.window c.op).1, b')) : c.CopiesAll := by
  cases c with
  | TailInterceptArray sizeofT nSize =>
    obtain ⟨l, r, hl, hr, hle, -, -, hsize⟩ := hb.exists_nat
    obtain ⟨-, hpop, -⟩ := hin
    simp only [DequeCall.op, movedBy, pos, hl, hr] at hpop
    have hout := length_tailInterceptArray h
    simp only [DequeCall.op, Deque.step, List.length_drop, hsize] at hout
    have hmul : (sizeofT : Nat) * nSize = sizeofT * 1 := by omega
    exact Nat.eq_of_mul_eq_mul_left sizeofT.2 hmul
  | _ => trivial

end

/-- **While the pointers stay inside the capacity, the bytes between them are a queue with two ends
exactly if every array form of `TailIntercept` is called for one element.** -/
theorem refinesDeque_iff {b : CByteArray} (hb : b.Valid) {cs : List DequeCall}
    (h : StaysInside b.nCapacity b.pos cs) : b.RefinesDeque cs ↔ ∀ c ∈ cs, c.CopiesAll := by
  induction cs generalizing b with
  | nil => exact iff_of_true trivial nofun
  | cons c cs ih =>
    obtain ⟨hin, hrest⟩ := h
    rw [List.forall_mem_cons]
    constructor
    · rintro ⟨b', hexec, -, -, hcs⟩
      have hc := hb.copiesAll hin hexec
      obtain ⟨b'', hexec', hbecame⟩ := hb.exec hin hc
      rw [hexec] at hexec'
      cases hexec'
      rw [← hbecame.capacity, ← hbecame.pos] at hrest
      exact ⟨hc, (ih (hbecame.valid hb hin) hrest).1 hcs⟩
    · rintro ⟨hc, hcs⟩
      obtain ⟨b', hexec, hbecame⟩ := hb.exec hin hc
      rw [← hbecame.capacity, ← hbecame.pos] at hrest
      exact ⟨b', hexec, hbecame.window, hbecame.pos, (ih (hbecame.valid hb hin) hrest).2 hcs⟩

theorem valid_new (junk : Nat → UInt8) (nCap : Int) : (new junk nCap).Valid := by
  refine ⟨⟨le_rfl, le_rfl, ?_⟩, ?_⟩
  · simp only [new, pos]
    split <;> omega
  · simp only [new, Block.length_alloc]
    exact Int.self_le_toNat _

/-- Two elements of two bytes. -/
def twoElements : Elements := ⟨⟨2, by decide⟩, 2, [1, 2, 3, 4], rfl⟩

/-- Calls of every kind, the last for one element at the back. -/
def bothEnds : List DequeCall :=
  [.Append [7], .AppendArray twoElements, .HeadInterceptArray ⟨1, by decide⟩ 4, .Prepend [5, 6],
    .HeadIntercept ⟨2, by decide⟩, .PrependArray twoElements, .TailIntercept ⟨1, by decide⟩,
    .TailInterceptArray ⟨4, by decide⟩ 1]

theorem refinesDeque_iff_bothEnds : (new (fun _ => 0) 1424).RefinesDeque bothEnds ↔
    ∀ c ∈ bothEnds, c.CopiesAll :=
  refinesDeque_iff (valid_new _ _) (by decide)

/-- Two elements are put at the back and taken from there: two of the four bytes are copied. -/
theorem twoElements_not_refinesDeque :
    StaysInside (new (fun _ => 0) 1424).nCapacity (new (fun _ => 0) 1424).pos
      [.AppendArray twoElements, .TailInterceptArray ⟨2, by decide⟩ 2] ∧
    ¬ (new (fun _ => 0) 1424).RefinesDeque [.AppendArray twoElements, .TailInterceptArray ⟨2, by decide⟩ 2] := by
  refine ⟨by decide, ?_⟩
  rintro ⟨b, hexec, hwindow, hpos, b', htail, -⟩
  have hout := length_tailInterceptArray htail
  have hwin : b.window = [1, 2, 3, 4] := by
    rw [hwindow, window, new_default]
    rfl
  rw [hwin] at hout
  exact absurd hout (by decide)

/-! ## There and back -/

section
variable {b : CByteArray} (hb : b.Valid) (e : Elements)
include hb

theorem Valid.appendArray_tailInterceptArray_iff (hin : Inside b.nCapacity (movedBy b.pos (.pushBack e.pArray))) :
    (∃ b₁ b₂, b.AppendArray e = some b₁ ∧ b₁.TailInterceptArray e.sizeofT e.nSize = some (e.pArray, b₂) ∧
      b₂.pos = b.pos) ↔ e.nSize = 1 := by
  obtain ⟨b₁, happ, hbecame⟩ := hb.append hin
  rw [← appendArray_eq] at happ
  constructor
  · rintro ⟨b₁', b₂, happ', htail, -⟩
    have hout := length_tailInterceptArray htail
    rw [e.length_pArray] at hout
    exact Nat.eq_of_mul_eq_mul_left e.sizeofT.2 (hout.trans (Nat.mul_one _).symm)
  · intro hone
    have hlen : e.pArray.length = e.sizeofT := by rw [e.length_pArray, hone, Nat.mul_one]
    have hpos : movedBy b₁.pos (.popBack e.pArray.length) = b.pos := by
      rw [hbecame.pos]
      simp [movedBy]
    have hin₁ : Inside b₁.nCapacity (movedBy b₁.pos (.popBack e.pArray.length)) := by
      rw [hpos, hbecame.capacity]
      exact hb.inside
    obtain ⟨b₂, htail, hbecame₂⟩ := (hbecame.valid hb hin).exec
      (c := .TailInterceptArray e.sizeofT e.nSize) (by rwa [DequeCall.op, ← e.length_pArray]) hone
    rw [DequeCall.op, ← e.length_pArray] at htail hbecame₂
    rw [hbecame.window, Deque.step, Deque.popBack_pushBack] at htail
    exact ⟨b₁, b₂, happ, htail, hbecame₂.pos.trans hpos⟩

theorem Valid.prependArray_headInterceptArray (hin : Inside b.nCapacity (movedBy b.pos (.pushFront e.pArray))) :
    ∃ b₁ b₂, b.PrependArray e = some b₁ ∧ b₁.HeadInterceptArray e.sizeofT e.nSize = some (e.pArray, b₂) ∧
      b₂.pos = b.pos := by
  obtain ⟨b₁, hpre, hbecame⟩ := hb.prepend hin
  rw [← prependArray_eq] at hpre
  have hpos : movedBy b₁.pos (.popFront e.pArray.length) = b.pos := by
    rw [hbecame.pos]
    simp [movedBy]
  have hin₁ : Inside b₁.nCapacity (movedBy b₁.pos (.popFront e.pArray.length)) := by
    rw [hpos, hbecame.capacity]
    exact hb.inside
  obtain ⟨b₂, hhead, hbecame₂⟩ := (hbecame.valid hb hin).exec
    (c := .HeadInterceptArray e.sizeofT e.nSize) (by rwa [DequeCall.op, ← e.length_pArray]) trivial
  rw [DequeCall.op, ← e.length_pArray] at hhead hbecame₂
  rw [hbecame.window, Deque.step, Deque.popFront_pushFront] at hhead
  exact ⟨b₁, b₂, hpre, hhead, hbecame₂.pos.trans hpos⟩

end

end CByteArray

end CppLinuxLearn.Solcom
