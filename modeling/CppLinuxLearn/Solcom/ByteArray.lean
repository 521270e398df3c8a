import CppLinuxLearn.Lib.Block

/-!
# The byte array with a left and a right pointer

`CByteArray.h`. The pointers are moved and the bytes copied without a check, so a copy that leaves
the block is undefined (`none`).
-/

namespace CppLinuxLearn.Solcom

open Lib

/-- `sizeof(T)` -/
abbrev SizeOf := { n : Nat // 0 < n }

/-- `const T *pArray` and `int nSize`: as many elements, by their bytes. -/
structure Elements where
  sizeofT : SizeOf
  nSize : Nat
  pArray : Bytes
  length_pArray : pArray.length = sizeofT * nSize

structure CByteArray where
  /-- the block that is allocated -/
  pCharArr : Bytes
  nCapacity : Int
  nRight : Int
  nLeft : Int

namespace CByteArray

/-- `CByteArray(int nCap)` -/
def new (junk : Nat → UInt8) (nCap : Int) : CByteArray :=
  let nCapacity := if nCap > 1424 then nCap else 1424
  ⟨Block.alloc junk nCapacity.toNat, nCapacity, 0, 0⟩

def CharArray (b : CByteArray) : Bytes := b.pCharArr

def Capacity (b : CByteArray) : Int := b.nCapacity

def LeftPos (b : CByteArray) : Int := b.nLeft

def RightPos (b : CByteArray) : Int := b.nRight

def Init (b : CByteArray) : CByteArray := { b with nLeft := 0, nRight := 0 }

/-- The capacity stays what it was. -/
def Reallocate (junk : Nat → UInt8) (newCap : Int) (b : CByteArray) : Option CByteArray :=
  if newCap > b.nCapacity then
    if b.nRight < b.nLeft then none
    else do
      let d ← Block.load b.pCharArr b.nLeft (b.nRight - b.nLeft).toNat
      let pNewArr ← Block.store (Block.alloc junk newCap.toNat) b.nLeft d
      some { b with pCharArr := pNewArr }
  else some b

def LeftForward (nSize : Int) (b : CByteArray) : CByteArray := { b with nLeft := b.nLeft + nSize }

def LeftBackward (nSize : Int) (b : CByteArray) : CByteArray := { b with nLeft := b.nLeft - nSize }

def RightForward (nSize : Int) (b : CByteArray) : CByteArray := { b with nRight := b.nRight + nSize }

def RightBackward (nSize : Int) (b : CByteArray) : CByteArray := { b with nRight := b.nRight - nSize }

def Append (data : Bytes) (b : CByteArray) : Option CByteArray := do
  let pCharArr ← Block.store b.pCharArr b.nRight data
  some { b with pCharArr := pCharArr, nRight := b.nRight + data.length }

def AppendArray (e : Elements) (b : CByteArray) : Option CByteArray := do
  let pCharArr ← Block.store b.pCharArr b.nRight e.pArray
  some { b with pCharArr := pCharArr, nRight := b.nRight + (e.sizeofT * e.nSize : Nat) }

def Prepend (data : Bytes) (b : CByteArray) : Option CByteArray := do
  let nLeft := b.nLeft - data.length
  let pCharArr ← Block.store b.pCharArr nLeft data
  some { b with pCharArr := pCharArr, nLeft := nLeft }

def PrependArray (e : Elements) (b : CByteArray) : Option CByteArray := do
  let nLeft := b.nLeft - (e.sizeofT * e.nSize : Nat)
  let pCharArr ← Block.store b.pCharArr nLeft e.pArray
  some { b with pCharArr := pCharArr, nLeft := nLeft }

def HeadIntercept (nSize : Nat) (b : CByteArray) : Option (Bytes × CByteArray) := do
  let data ← Block.load b.pCharArr b.nLeft nSize
  some (data, { b with nLeft := b.nLeft + nSize })

def HeadInterceptArray (sizeofT : SizeOf) (nSize : Nat) (b : CByteArray) : Option (Bytes × CByteArray) := do
  let data ← Block.load b.pCharArr b.nLeft (sizeofT * nSize)
  some (data, { b with nLeft := b.nLeft + (sizeofT * nSize : Nat) })

def TailIntercept (sizeofT : SizeOf) (b : CByteArray) : Option (Bytes × CByteArray) := do
  let nRight := b.nRight - (sizeofT : Nat)
  let data ← Block.load b.pCharArr nRight sizeofT
  some (data, { b with nRight := nRight })

/-- One element is copied, whatever `nSize` is. -/
def TailInterceptArray (sizeofT : SizeOf) (nSize : Nat) (b : CByteArray) : Option (Bytes × CByteArray) := do
  let nRight := b.nRight - (sizeofT * nSize : Nat)
  let data ← Block.load b.pCharArr nRight sizeofT
  some (data, { b with nRight := nRight })

/-- The bytes of `[nLeft, nRight)`. -/
def window (b : CByteArray) : Bytes :=
  (b.pCharArr.drop b.nLeft.toNat).take (b.nRight - b.nLeft).toNat

theorem new_default (junk : Nat → UInt8) : new junk 1424 = ⟨Block.alloc junk 1424, 1424, 0, 0⟩ := by
  simp only [new, gt_iff_lt, lt_self_iff_false, if_false, Int.reduceToNat]

/-! ## An array whose content starts the block -/

/-- The right pointer is behind `content`, which starts the block; the block is at least as large as
the capacity says. -/
structure Holds (b : CByteArray) (content : Bytes) : Prop where
  room : b.nCapacity ≤ b.pCharArr.length
  right : b.nRight = content.length
  content : b.pCharArr.take content.length = content

variable {b : CByteArray} {content : Bytes}

theorem Holds.length_le (h : b.Holds content) : content.length ≤ b.pCharArr.length := by
  have := congrArg List.length h.content
  rw [List.length_take] at this
  omega

theorem holds_init (h : b.nCapacity ≤ b.pCharArr.length) : b.Init.Holds [] := ⟨h, rfl, rfl⟩

theorem Holds.append (h : b.Holds content) (data : Bytes)
    (hroom : content.length + data.length ≤ b.pCharArr.length) :
    ∃ b', b.Append data = some b' ∧ b'.Holds (content ++ data) ∧ b'.nLeft = b.nLeft ∧
      b'.nCapacity = b.nCapacity ∧ b'.pCharArr.length = b.pCharArr.length := by
  have hstore : Block.store b.pCharArr b.nRight data =
      some (Block.overwrite b.pCharArr content.length data) := by
    rw [h.right]
    exact Block.store_eq hroom
  have hlen := Block.length_overwrite hroom
  refine ⟨{ b with
      pCharArr := Block.overwrite b.pCharArr content.length data
      nRight := b.nRight + data.length }, ?_, ⟨?_, ?_, ?_⟩, rfl, rfl, hlen⟩
  · rw [Append, hstore]
    rfl
  · rw [hlen]
    exact h.room
  · simp [h.right]
  · rw [List.length_append, Block.take_overwrite h.length_le, h.content]

theorem Holds.append_eq_none (h : b.Holds content) {data : Bytes}
    (hroom : b.pCharArr.length < content.length + data.length) : b.Append data = none := by
  have hstore : Block.store b.pCharArr b.nRight data = none := by
    rw [h.right]
    exact Block.store_eq_none hroom
  rw [Append, hstore]
  rfl

theorem Holds.reallocate (h : b.Holds content) (hleft : b.nLeft = 0) (junk : Nat → UInt8)
    {newCap : Nat} (hcap : b.nCapacity < newCap) (hroom : content.length ≤ newCap) :
    ∃ b', b.Reallocate junk newCap = some b' ∧ b'.Holds content ∧ b'.nLeft = 0 ∧
      b'.nCapacity = b.nCapacity ∧ b'.pCharArr.length = newCap := by
  have hload : Block.load b.pCharArr b.nLeft (b.nRight - b.nLeft).toNat = some content := by
    have hn : (b.nRight - b.nLeft).toNat = content.length := by
      rw [h.right, hleft]
      omega
    have hle : 0 + content.length ≤ b.pCharArr.length := by
      have := h.length_le
      omega
    have heq := Block.load_eq hle
    rw [List.drop_zero, h.content] at heq
    rw [hn, hleft]
    exact heq
  have hle : 0 + content.length ≤ (Block.alloc junk newCap).length := by
    rw [Block.length_alloc]
    omega
  have hstore : Block.store (Block.alloc junk (Int.toNat newCap)) b.nLeft content =
      some (Block.overwrite (Block.alloc junk newCap) 0 content) := by
    rw [hleft, Int.toNat_natCast]
    exact Block.store_eq hle
  have hnot : ¬ b.nRight < b.nLeft := by
    rw [h.right, hleft]
    omega
  have hlen := Block.length_overwrite hle
  refine ⟨{ b with pCharArr := Block.overwrite (Block.alloc junk newCap) 0 content }, ?_,
    ⟨?_, h.right, ?_⟩, hleft, rfl, ?_⟩
  · rw [Reallocate, if_pos hcap, if_neg hnot, hload]
    simp only [Option.bind_eq_bind, Option.bind_some]
    rw [hstore]
    rfl
  · show b.nCapacity ≤ _
    rw [hlen, Block.length_alloc]
    omega
  · have htake := Block.take_overwrite (b := Block.alloc junk newCap) (d := content) (Nat.zero_le _)
    simpa using htake
  · rw [hlen, Block.length_alloc]

theorem Holds.headIntercept (h : b.Holds content) (hleft : b.nLeft = 0) {n : Nat}
    (hn : n ≤ content.length) :
    b.HeadIntercept n = some (content.take n, { b with nLeft := n }) := by
  have hle : 0 + n ≤ b.pCharArr.length := by
    have := h.length_le
    omega
  have hload := Block.load_eq hle
  have htake : (b.pCharArr.drop 0).take n = content.take n := by
    rw [List.drop_zero, ← h.content, List.take_take, Nat.min_eq_left hn]
  rw [HeadIntercept, hleft]
  rw [htake] at hload
  simp only [Nat.cast_zero] at hload
  rw [hload]
  simp

theorem Holds.window (h : b.Holds content) {n : Nat} (hn : n ≤ content.length) :
    ({ b with nLeft := n } : CByteArray).window = content.drop n := by
  have hsub : (b.nRight - (n : Int)).toNat = content.length - n := by
    rw [h.right]
    omega
  show (b.pCharArr.drop (n : Int).toNat).take (b.nRight - (n : Int)).toNat = _
  rw [hsub, Int.toNat_natCast, ← List.drop_take, h.content]

theorem Holds.appendAll (h : b.Holds content) (ds : List Bytes)
    (hroom : content.length + ds.flatten.length ≤ b.pCharArr.length) :
    ∃ b', ds.foldlM (fun b d => b.Append d) b = some b' ∧ b'.Holds (content ++ ds.flatten) ∧
      b'.nLeft = b.nLeft ∧ b'.nCapacity = b.nCapacity ∧
      b'.pCharArr.length = b.pCharArr.length := by
  induction ds generalizing b content with
  | nil => exact ⟨b, rfl, by simpa using h, rfl, rfl, rfl⟩
  | cons d ds ih =>
    rw [List.flatten_cons, List.length_append] at hroom
    obtain ⟨b₁, hb₁, hh₁, hl₁, hc₁, hn₁⟩ := h.append d (by omega)
    obtain ⟨b₂, hb₂, hh₂, hl₂, hc₂, hn₂⟩ := ih hh₁ (by rw [List.length_append]; omega)
    rw [List.append_assoc] at hh₂
    refine ⟨b₂, ?_, hh₂, hl₂.trans hl₁, hc₂.trans hc₁, hn₂.trans hn₁⟩
    simp [List.foldlM_cons, hb₁, hb₂]

theorem Holds.appendAll_eq_none (h : b.Holds content) (ds : List Bytes)
    (hroom : b.pCharArr.length < content.length + ds.flatten.length) :
    ds.foldlM (fun b d => b.Append d) b = none := by
  induction ds generalizing b content with
  | nil =>
    have := h.length_le
    simp only [List.flatten_nil, List.length_nil] at hroom
    omega
  | cons d ds ih =>
    rw [List.flatten_cons, List.length_append] at hroom
    rw [List.foldlM_cons, Option.bind_eq_bind]
    by_cases hd : content.length + d.length ≤ b.pCharArr.length
    · obtain ⟨b₁, hb₁, hh₁, -, -, hn₁⟩ := h.append d hd
      rw [hb₁]
      exact ih hh₁ (by rw [hn₁, List.length_append]; omega)
    · rw [h.append_eq_none (by omega)]
      rfl

theorem Holds.prepend {front rest : Bytes} (h : b.Holds (front ++ rest)) (data : Bytes)
    (hleft : b.nLeft = front.length) (hdata : data.length = front.length) :
    ∃ b', b.Prepend data = some b' ∧ b'.Holds (data ++ rest) ∧ b'.nLeft = 0 ∧
      b'.nCapacity = b.nCapacity ∧ b'.pCharArr.length = b.pCharArr.length := by
  have hlen := h.length_le
  rw [List.length_append] at hlen
  have hle : 0 + data.length ≤ b.pCharArr.length := by omega
  have hzero : b.nLeft - data.length = (0 : Nat) := by
    rw [hleft, hdata]
    omega
  have hstore : Block.store b.pCharArr (b.nLeft - data.length) data =
      some (Block.overwrite b.pCharArr 0 data) := by
    rw [hzero]
    exact Block.store_eq hle
  have hsize := Block.length_overwrite hle
  refine ⟨{ b with pCharArr := Block.overwrite b.pCharArr 0 data, nLeft := b.nLeft - data.length },
    ?_, ⟨?_, ?_, ?_⟩, hzero, rfl, hsize⟩
  · rw [Prepend, hstore]
    rfl
  · show b.nCapacity ≤ _
    rw [hsize]
    exact h.room
  · rw [List.length_append, hdata, ← List.length_append]
    exact h.right
  · -- the rest lies behind the head, where nothing was written
    have hcontent := h.content
    rw [List.length_append, List.take_add] at hcontent
    have hrest : (b.pCharArr.drop front.length).take rest.length = rest :=
      (List.append_inj hcontent (by rw [List.length_take]; omega)).2
    have htake := Block.take_overwrite (b := b.pCharArr) (d := data) (Nat.zero_le _)
    have hdrop := Block.drop_overwrite (b := b.pCharArr) (d := data) (Nat.zero_le _)
    rw [Nat.zero_add] at htake hdrop
    show (Block.overwrite b.pCharArr 0 data).take (data ++ rest).length = _
    rw [List.length_append, List.take_add, htake, hdrop, hdata, hrest]
    simp

end CByteArray

end CppLinuxLearn.Solcom
