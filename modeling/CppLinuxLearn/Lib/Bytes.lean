import Mathlib.Data.Nat.Digits.Lemmas
import Mathlib.Data.List.TakeWhile
import Mathlib.Data.List.GetD

/-!
# Plain old data and its bytes

The memory image of a value that is copied with `memcpy`: `Pod T` says how many bytes a `T` takes
and how it is laid out, little-endian and without padding. Integers are `BitVec (8 * w)`, character
arrays are vectors of bytes, and structures are built from their fields with `Pod.prod` and
`Pod.via`.
-/

namespace CppLinuxLearn.Lib

/-- A run of bytes: a string, a frame, the content of a buffer. -/
abbrev Bytes := List UInt8

/-! ## Little-endian numbers -/

/-- The `w` low bytes of `n`, least significant first. -/
def leBytes : Nat → Nat → Bytes
  | 0, _ => []
  | w + 1, n => UInt8.ofNat (n % 256) :: leBytes w (n / 256)

/-- The number whose little-endian bytes are `bs`. -/
def leNat (bs : Bytes) : Nat := Nat.ofDigits 256 (bs.map UInt8.toNat)

@[simp] theorem length_leBytes (w n : Nat) : (leBytes w n).length = w := by
  induction w generalizing n with
  | zero => rfl
  | succ w ih => rw [leBytes, List.length_cons, ih]

theorem leNat_cons (b : UInt8) (bs : Bytes) : leNat (b :: bs) = b.toNat + 256 * leNat bs := by
  simp [leNat, Nat.ofDigits_cons]

theorem leNat_leBytes (w n : Nat) : leNat (leBytes w n) = n % 256 ^ w := by
  induction w generalizing n with
  | zero => simp [leBytes, leNat, Nat.mod_one]
  | succ w ih =>
    have hb : (UInt8.ofNat (n % 256)).toNat = n % 256 := by simp
    rw [leBytes, leNat_cons, hb, ih, pow_succ', Nat.mod_mul]

theorem lt_of_mem_toNat {bs : Bytes} : ∀ d ∈ bs.map UInt8.toNat, d < 256 := by
  intro d hd
  obtain ⟨b, -, rfl⟩ := List.mem_map.1 hd
  exact b.toNat_lt

theorem leNat_lt (bs : Bytes) : leNat bs < 256 ^ bs.length := by
  have hdigits : ∀ d ∈ bs.map UInt8.toNat, d < 256 := lt_of_mem_toNat
  have h := Nat.ofDigits_lt_base_pow_length (by decide) hdigits
  rwa [List.length_map] at h

theorem leNat_inj {as bs : Bytes} (hlen : as.length = bs.length) (h : leNat as = leNat bs) : as = bs := by
  have hmap := Nat.ofDigits_inj_of_len_eq (by decide) (by simpa using hlen) lt_of_mem_toNat lt_of_mem_toNat h
  exact List.map_injective_iff.2 (fun _ _ => UInt8.toNat.inj) hmap

/-! ## Plain old data -/

/-- A type whose values are copied byte by byte. -/
class Pod (T : Type) where
  /-- `sizeof(T)` -/
  size : Nat
  /-- The memory image of a value. -/
  bytes : T → Bytes
  /-- The value whose memory image starts the given bytes. -/
  ofBytes : Bytes → T
  length_bytes : ∀ x, (bytes x).length = size
  ofBytes_append : ∀ x rest, ofBytes (bytes x ++ rest) = x

export Pod (bytes ofBytes)

section
variable {S T U : Type}

@[simp] theorem length_bytes [Pod T] (x : T) : (bytes x).length = Pod.size T := Pod.length_bytes x

@[simp] theorem ofBytes_append [Pod T] (x : T) (rest : Bytes) : ofBytes (bytes x ++ rest) = x :=
  Pod.ofBytes_append x rest

@[simp] theorem ofBytes_bytes [Pod T] (x : T) : ofBytes (bytes x) = x := by
  simpa using ofBytes_append x []

/-- Two fields one after the other. -/
instance Pod.prod [Pod S] [Pod T] : Pod (S × T) where
  size := Pod.size S + Pod.size T
  bytes p := bytes p.1 ++ bytes p.2
  ofBytes l := (ofBytes l, ofBytes (l.drop (Pod.size S)))
  length_bytes p := by simp
  ofBytes_append p rest := by
    rw [List.append_assoc, ofBytes_append, List.drop_append_of_le_length (by simp),
      List.drop_of_length_le (by simp), List.nil_append, ofBytes_append]

/-- A structure whose fields, in order, are those of the tuple `S`. -/
@[reducible] def Pod.via [Pod S] (fields : U → S) (mk : S → U) (h : ∀ x, mk (fields x) = x) : Pod U where
  size := Pod.size S
  bytes x := bytes (fields x)
  ofBytes l := mk (ofBytes l)
  length_bytes x := by simp
  ofBytes_append x rest := by rw [ofBytes_append, h]

end

/-- An unsigned or two's complement integer of `w` bytes. -/
@[reducible] def Pod.int (w : Nat) : Pod (BitVec (8 * w)) where
  size := w
  bytes x := leBytes w x.toNat
  ofBytes l := BitVec.ofNat _ (leNat (l.take w))
  length_bytes x := length_leBytes w _
  ofBytes_append x rest := by
    have hx : x.toNat < 256 ^ w := by
      have := x.isLt
      rwa [pow_mul] at this
    rw [List.take_append_of_le_length (by simp), List.take_of_length_le (by simp), leNat_leBytes,
      Nat.mod_eq_of_lt hx, BitVec.ofNat_toNat, BitVec.setWidth_eq]

theorem Pod.int_ofBytes_inj {w : Nat} {l l' : Bytes} (hl : w ≤ l.length) (hl' : w ≤ l'.length)
    (h : (Pod.int w).ofBytes l = (Pod.int w).ofBytes l') : l.take w = l'.take w := by
  have hlen : (l.take w).length = w := by rw [List.length_take, Nat.min_eq_left hl]
  have hlen' : (l'.take w).length = w := by rw [List.length_take, Nat.min_eq_left hl']
  have hlt := leNat_lt (l.take w)
  have hlt' := leNat_lt (l'.take w)
  rw [hlen] at hlt
  rw [hlen'] at hlt'
  have hpow : (256 : Nat) ^ w = 2 ^ (8 * w) := by
    rw [pow_mul]
    norm_num
  have h : BitVec.ofNat (8 * w) (leNat (l.take w)) = BitVec.ofNat (8 * w) (leNat (l'.take w)) := h
  have hnat := congrArg BitVec.toNat h
  rw [BitVec.toNat_ofNat, BitVec.toNat_ofNat] at hnat
  rw [← hpow, Nat.mod_eq_of_lt hlt, Nat.mod_eq_of_lt hlt'] at hnat
  exact leNat_inj (hlen.trans hlen'.symm) hnat

instance : Pod (BitVec 8) := Pod.int 1
instance : Pod (BitVec 16) := Pod.int 2
instance : Pod (BitVec 32) := Pod.int 4
instance : Pod (BitVec 64) := Pod.int 8

/-- `char a[n]` -/
abbrev CharArray (n : Nat) := Vector UInt8 n

instance (n : Nat) : Pod (CharArray n) where
  size := n
  bytes v := v.toList
  ofBytes l := Vector.ofFn fun i => l.getD i 0
  length_bytes v := by simp
  ofBytes_append v rest := by
    ext i hi
    simp [List.getD_eq_getElem?_getD, List.getElem?_append]

/-! ## C strings -/

/-- The text a `char *` denotes: what comes before the first NUL. -/
def cstr (bs : Bytes) : Bytes := bs.takeWhile (· ≠ 0)

theorem cstr_append_zero {s : Bytes} (h : (0 : UInt8) ∉ s) (rest : Bytes) : cstr (s ++ 0 :: rest) = s := by
  induction s with
  | nil => simp [cstr]
  | cons c s ih =>
    rw [List.mem_cons, not_or] at h
    have hc : c ≠ 0 := Ne.symm h.1
    rw [cstr, List.cons_append, List.takeWhile_cons, if_pos (decide_eq_true hc)]
    exact congrArg (c :: ·) (ih h.2)

theorem cstr_of_not_mem {s : Bytes} (h : (0 : UInt8) ∉ s) : cstr s = s :=
  List.takeWhile_eq_self_iff.2 fun c hc => by
    simp only [ne_eq, decide_eq_true_eq]
    rintro rfl
    exact h hc

theorem zero_not_mem_cstr (s : Bytes) : (0 : UInt8) ∉ cstr s := fun h => by
  have := List.mem_takeWhile_imp h
  simp at this

theorem length_cstr_lt {s : Bytes} (h : (0 : UInt8) ∈ s) : (cstr s).length < s.length := by
  have hle : cstr s <+: s := List.takeWhile_prefix _
  refine hle.length_le.lt_of_ne fun heq => zero_not_mem_cstr s ?_
  rwa [hle.eq_of_length heq]

theorem cstr_append_of_mem {s : Bytes} (h : (0 : UInt8) ∈ s) (rest : Bytes) :
    cstr (s ++ rest) = cstr s := by
  induction s with
  | nil => cases h
  | cons b s ih =>
    rw [cstr, cstr, List.cons_append]
    by_cases hb : b = 0
    · rw [List.takeWhile_cons_of_neg (by simpa using hb), List.takeWhile_cons_of_neg (by simpa using hb)]
    · rw [List.takeWhile_cons_of_pos (by simpa using hb), List.takeWhile_cons_of_pos (by simpa using hb)]
      exact congrArg (b :: ·) (ih ((List.mem_cons.1 h).resolve_left (Ne.symm hb)))

theorem cstr_next {read s : Bytes} (h : read <+: cstr s) :
    (∀ c, s[read.length]? = some c → c ≠ 0 → read ++ [c] <+: cstr s) ∧
      (s[read.length]? = none ∨ s[read.length]? = some 0 → read = cstr s) := by
  induction read generalizing s with
  | nil =>
    cases s with
    | nil => simp [cstr]
    | cons b s =>
      constructor
      · intro c hc hne
        obtain rfl : b = c := by simpa using hc
        simp [cstr, hne]
      · intro hend
        obtain rfl : b = 0 := by simpa using hend
        simp [cstr]
  | cons a read ih =>
    cases s with
    | nil => simp [cstr] at h
    | cons b s =>
      have hb : b ≠ 0 := by
        rintro rfl
        simp [cstr] at h
      have hcons : cstr (b :: s) = b :: cstr s := by simp [cstr, hb]
      rw [hcons, List.cons_prefix_cons] at h
      obtain ⟨rfl, hread⟩ := h
      obtain ⟨hmore, hend⟩ := ih hread
      rw [hcons]
      refine ⟨fun c hc hne => ?_, fun hstop => ?_⟩
      · exact List.cons_prefix_cons.2 ⟨rfl, hmore c (by simpa using hc) hne⟩
      · rw [hend (by simpa using hstop)]

/-- `strcpy(dst, s)`: the text and its NUL over the first bytes of `dst`. -/
def strcpy {n : Nat} (dst : CharArray n) (s : Bytes) : CharArray n :=
  Vector.ofFn fun i => (cstr s ++ [0]).getD i dst[i]

theorem cstr_strcpy {n : Nat} {s : Bytes} (h : (0 : UInt8) ∉ s) (hlt : s.length < n) :
    cstr (strcpy (Vector.replicate n 0) s).toList = s := by
  have hlist : (strcpy (Vector.replicate n 0) s).toList =
      s ++ 0 :: List.replicate (n - s.length - 1) 0 := by
    refine List.ext_getElem ?_ fun i hi hi' => ?_
    · rw [Vector.length_toList, List.length_append, List.length_cons, List.length_replicate]
      omega
    · simp only [Vector.getElem_toList, strcpy, Vector.getElem_ofFn, cstr_of_not_mem h,
        Fin.getElem_fin, Vector.getElem_replicate]
      rcases Nat.lt_or_ge i s.length with hlt | hge
      · rw [List.getElem_append_left hlt, List.getD_append _ _ _ _ hlt, List.getD_eq_getElem _ _ hlt]
      · rw [List.getElem_append_right hge, List.getD_append_right _ _ _ _ hge, List.getElem_cons]
        split
        · rename_i h0
          rw [h0]
          rfl
        · rename_i h0
          have hend : [(0 : UInt8)].length ≤ i - s.length := Nat.pos_of_ne_zero h0
          rw [List.getElem_replicate, List.getD_eq_default _ _ hend]
  rw [hlist, cstr_append_zero h]

/-- `strncpy(dst, s, k)`: the first `k` bytes of the text, filled up with NULs. -/
def strncpy {n : Nat} (dst : CharArray n) (s : Bytes) (k : Nat) : CharArray n :=
  Vector.ofFn fun i => if i < k then (cstr s).getD i 0 else dst[i]

/-- An ASCII text literal. -/
def text (s : String) : Bytes := s.toList.map fun c => UInt8.ofNat c.toNat

end CppLinuxLearn.Lib
