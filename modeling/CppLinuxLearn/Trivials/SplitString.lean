import CppLinuxLearn.Trivials.SplitMdFile

/-!
# Splitting a string

`splitString` of `splitMdFile.cpp` for a delimiter of any length. It looks for the first character that is one of
the delimiter's and goes on behind it by the length of the delimiter.
-/

namespace CppLinuxLearn.Trivials.SplitString

open Lib

/-- `srcstr.find_first_of(delimiter, pos)`; `none` for `npos` -/
def find_first_of (srcstr delimiter : Bytes) (pos : Nat) : Option Nat :=
  ((srcstr.drop pos).findIdx? delimiter.contains).map (pos + ·)

/-- `srcstr.substr(pos, n)`, without `n` up to the end; it throws if the position is out of range. -/
def substr (srcstr : Bytes) (pos : Nat) (n : Option Nat) : Option Bytes :=
  if pos ≤ srcstr.length then
    match n with
    | none => some (srcstr.drop pos)
    | some n => some ((srcstr.drop pos).take n)
  else none

theorem find_first_of_eq_some {srcstr delimiter : Bytes} {pos rpos : Nat}
    (h : find_first_of srcstr delimiter pos = some rpos) :
    pos ≤ rpos ∧ rpos < srcstr.length ∧ 0 < delimiter.length := by
  obtain ⟨i, hi, rfl⟩ := Option.map_eq_some_iff.1 h
  obtain ⟨hlt, hmem, -⟩ := List.findIdx?_eq_some_iff_getElem.1 hi
  have hpos := List.length_pos_of_mem (List.contains_iff_mem.1 hmem)
  rw [List.length_drop] at hlt
  omega

/-- The loop of `splitString`. -/
def splitLoop (srcstr delimiter : Bytes) (lpos : Nat) : Option (List Bytes) :=
  match _h : find_first_of srcstr delimiter lpos with
  | none => do
    let piece ← substr srcstr lpos none
    some [piece]
  | some rpos => do
    let piece ← substr srcstr lpos (some (rpos - lpos))
    let pieces ← splitLoop srcstr delimiter (rpos + delimiter.length)
    some (piece :: pieces)
termination_by srcstr.length - lpos
decreasing_by
  have := find_first_of_eq_some ‹_›
  omega

/-- `splitString(srcstr, delimiter)` -/
def splitString (srcstr delimiter : Bytes) : Option (List Bytes) := splitLoop srcstr delimiter 0

/-- Wherever a character of the delimiter is, it is in a whole delimiter. -/
inductive Whole (delimiter : Bytes) : Bytes → Prop
  | nil : Whole delimiter []
  | char {c : UInt8} {rest : Bytes} (hc : c ∉ delimiter) (h : Whole delimiter rest) : Whole delimiter (c :: rest)
  | delimiter {rest : Bytes} (h : Whole delimiter rest) : Whole delimiter (delimiter ++ rest)

variable {srcstr d rest : Bytes} {lpos : Nat} {pieces : List Bytes} {c : UInt8}

/-! ## From character to character -/

theorem splitLoop_of_none (h : find_first_of srcstr d lpos = none) :
    splitLoop srcstr d lpos = (substr srcstr lpos none).map ([·]) := by
  rw [splitLoop]
  split
  · exact (Option.map_eq_bind ..).symm
  next rpos h' => exact absurd (h.symm.trans h') (Option.some_ne_none rpos).symm

theorem splitLoop_of_some {rpos : Nat} (h : find_first_of srcstr d lpos = some rpos) :
    splitLoop srcstr d lpos = (substr srcstr lpos (some (rpos - lpos))).bind fun piece =>
      (splitLoop srcstr d (rpos + d.length)).map (piece :: ·) := by
  rw [splitLoop]
  split
  next h' => exact absurd (h'.symm.trans h) (Option.some_ne_none rpos).symm
  next rpos' h' =>
    obtain rfl : rpos = rpos' := Option.some.inj (h.symm.trans h')
    simp only [Option.bind_eq_bind, Option.map_eq_bind]
    rfl

theorem splitLoop_beyond (hlt : srcstr.length < lpos) : splitLoop srcstr d lpos = none := by
  have hsub : substr srcstr lpos none = none := if_neg (not_le.2 hlt)
  have hfind : find_first_of srcstr d lpos = none := by
    rw [find_first_of, List.drop_eq_nil_of_le hlt.le]
    rfl
  rw [splitLoop_of_none hfind, hsub]
  rfl

theorem splitLoop_end : splitLoop srcstr d srcstr.length = some [[]] := by
  have hfind : find_first_of srcstr d srcstr.length = none := by
    rw [find_first_of, List.drop_length]
    rfl
  rw [splitLoop_of_none hfind, substr, if_pos le_rfl, List.drop_length]
  rfl

theorem lt_of_drop (hrest : srcstr.drop lpos = c :: rest) : lpos < srcstr.length := by
  by_contra hle
  rw [List.drop_eq_nil_of_le (not_lt.1 hle)] at hrest
  cases hrest

theorem drop_succ (hrest : srcstr.drop lpos = c :: rest) : srcstr.drop (lpos + 1) = rest := by
  rw [← List.drop_drop, hrest]
  rfl

theorem splitLoop_delimiter (hrest : srcstr.drop lpos = c :: rest) (hc : c ∈ d) :
    splitLoop srcstr d lpos = (splitLoop srcstr d (lpos + d.length)).map ([] :: ·) := by
  have hfind : find_first_of srcstr d lpos = some lpos := by
    rw [find_first_of, hrest, List.findIdx?_cons, if_pos (List.contains_iff_mem.2 hc)]
    rfl
  rw [splitLoop_of_some hfind, substr, if_pos (lt_of_drop hrest).le, Nat.sub_self]
  rfl

theorem splitLoop_char (hrest : srcstr.drop lpos = c :: rest) (hc : c ∉ d) :
    splitLoop srcstr d lpos = (splitLoop srcstr d (lpos + 1)).map (List.modifyHead (c :: ·)) := by
  have hlt := lt_of_drop hrest
  have hnext := drop_succ hrest
  have hfind : find_first_of srcstr d lpos = find_first_of srcstr d (lpos + 1) := by
    rw [find_first_of, find_first_of, hrest, hnext, List.findIdx?_cons, if_neg (by simpa using hc), Option.map_map]
    congr 1
    funext i
    simp only [Function.comp_apply]
    omega
  cases h : find_first_of srcstr d (lpos + 1) with
  | none =>
    rw [splitLoop_of_none (hfind.trans h), splitLoop_of_none h, substr, substr, if_pos hlt.le,
      if_pos (Nat.succ_le_of_lt hlt), hrest, hnext]
    rfl
  | some rpos =>
    have hsucc : rpos - lpos = (rpos - (lpos + 1)) + 1 := by
      have := find_first_of_eq_some h
      omega
    rw [splitLoop_of_some (hfind.trans h), splitLoop_of_some h, substr, substr, if_pos hlt.le,
      if_pos (Nat.succ_le_of_lt hlt), hrest, hnext, hsucc]
    simp only [List.take_succ_cons, Option.bind_some, Option.map_map]
    rfl

/-! ## The pieces -/

/-- No piece has a character of the delimiter. The induction is on what is left of the string. -/
theorem not_mem_of_splitLoop (hd : d ≠ []) (h : splitLoop srcstr d lpos = some pieces) :
    ∀ p ∈ pieces, ∀ c ∈ p, c ∉ d := by
  have hpos : 0 < d.length := List.length_pos_iff.2 hd
  induction hn : srcstr.length - lpos using Nat.strong_induction_on generalizing lpos pieces with
  | _ n ih =>
    cases hrest : srcstr.drop lpos with
    | nil =>
      rcases (List.drop_eq_nil_iff.1 hrest).lt_or_eq with hlt | rfl
      · rw [splitLoop_beyond hlt] at h
        cases h
      · rw [splitLoop_end] at h
        obtain rfl := Option.some.inj h
        exact List.forall_mem_singleton.2 (List.forall_mem_nil _)
    | cons c rest =>
      have hlt := lt_of_drop hrest
      by_cases hc : c ∈ d
      · rw [splitLoop_delimiter hrest hc] at h
        obtain ⟨ps, hps, rfl⟩ := Option.map_eq_some_iff.1 h
        exact List.forall_mem_cons.2 ⟨List.forall_mem_nil _, ih _ (by omega) hps rfl⟩
      · rw [splitLoop_char hrest hc] at h
        obtain ⟨ps, hps, rfl⟩ := Option.map_eq_some_iff.1 h
        have hall := ih _ (by omega) hps rfl
        cases ps with
        | nil => exact List.forall_mem_nil _
        | cons p ps =>
          obtain ⟨hp, hrest⟩ := List.forall_mem_cons.1 hall
          exact List.forall_mem_cons.2 ⟨List.forall_mem_cons.2 ⟨hc, hp⟩, hrest⟩

/-- A string that consists of whole delimiters and other characters is split, and its pieces joined are the string. -/
theorem splitLoop_of_whole (hd : d ≠ []) (hle : lpos ≤ srcstr.length) (h : Whole d rest)
    (hrest : srcstr.drop lpos = rest) :
    ∃ p ps, splitLoop srcstr d lpos = some (p :: ps) ∧ d.intercalate (p :: ps) = rest := by
  induction h generalizing lpos with
  | nil =>
    obtain rfl : lpos = srcstr.length := hle.antisymm (List.drop_eq_nil_iff.1 hrest)
    exact ⟨[], [], splitLoop_end, List.intercalate_singleton⟩
  | @char c rest hc _ ih =>
    obtain ⟨p, ps, hps, hjoin⟩ := ih (lt_of_drop hrest) (drop_succ hrest)
    refine ⟨c :: p, ps, ?_, ?_⟩
    · rw [splitLoop_char hrest hc, hps]
      rfl
    · rw [List.intercalate_cons_cons_left, hjoin]
  | @delimiter rest _ ih =>
    obtain ⟨b, d', hbd⟩ := List.exists_cons_of_ne_nil hd
    have hnext : srcstr.drop (lpos + d.length) = rest := by rw [← List.drop_drop, hrest, List.drop_left]
    have hfits : lpos + d.length ≤ srcstr.length := by
      have hlen := congrArg List.length hrest
      rw [List.length_drop, List.length_append] at hlen
      omega
    obtain ⟨p, ps, hps, hjoin⟩ := ih hfits hnext
    have hhead : srcstr.drop lpos = b :: (d' ++ rest) := by rw [hrest, hbd, List.cons_append]
    refine ⟨[], p :: ps, ?_, ?_⟩
    · rw [splitLoop_delimiter hhead (hbd ▸ List.mem_cons_self), hps]
      rfl
    · rw [List.intercalate_cons_cons, hjoin, List.nil_append]

theorem Whole.append {p : Bytes} (hp : ∀ c ∈ p, c ∉ d) (h : Whole d rest) : Whole d (p ++ rest) := by
  induction p with
  | nil => exact h
  | cons c p ih =>
    obtain ⟨hc, hp⟩ := List.forall_mem_cons.1 hp
    exact .char hc (ih hp)

theorem whole_intercalate (h : ∀ p ∈ pieces, ∀ c ∈ p, c ∉ d) : Whole d (d.intercalate pieces) := by
  induction pieces with
  | nil => exact .nil
  | cons p ps ih =>
    obtain ⟨hp, hps⟩ := List.forall_mem_cons.1 h
    cases ps with
    | nil =>
      rw [List.intercalate_singleton, ← List.append_nil p]
      exact .append hp .nil
    | cons q qs =>
      rw [List.intercalate_cons_cons, List.append_assoc]
      exact .append hp (.delimiter (ih hps))

/-- **Splitting and joining.** For a delimiter that is not empty, the pieces exist, joined with the delimiter are the
string, and none has the delimiter in it, exactly if the characters of the delimiter are in the string in whole
delimiters only. -/
theorem splitString_iff (srcstr d : Bytes) (hd : d ≠ []) :
    (∃ pieces, splitString srcstr d = some pieces ∧ d.intercalate pieces = srcstr ∧ ∀ p ∈ pieces, ¬ d <:+: p) ↔
      Whole d srcstr := by
  constructor
  · rintro ⟨pieces, h, hjoin, -⟩
    rw [← hjoin]
    exact whole_intercalate (not_mem_of_splitLoop hd h)
  · intro h
    obtain ⟨p, ps, hps, hjoin⟩ := splitLoop_of_whole hd (Nat.zero_le _) h List.drop_zero
    refine ⟨p :: ps, hps, hjoin, fun q hq hin => ?_⟩
    obtain ⟨c, d', hcd⟩ := List.exists_cons_of_ne_nil hd
    have hc : c ∈ d := hcd ▸ List.mem_cons_self
    exact not_mem_of_splitLoop hd hps q hq c (hin.subset hc) hc

theorem splitString_iff_commaSpace : ∃ pieces, splitString (text "CU, 1") (text ", ") = some pieces ∧
    (text ", ").intercalate pieces = text "CU, 1" ∧ ∀ p ∈ pieces, ¬ text ", " <:+: p := by
  have hend : Whole (text ", ") (text "1") := .char (by decide) .nil
  have hrest : Whole (text ", ") (text ", 1") := .delimiter hend
  exact (splitString_iff (text "CU, 1") (text ", ") (by decide)).2 (.char (by decide) (.char (by decide) hrest))

/-- The comma is one of the characters of the delimiter, and the character behind it is lost. -/
theorem splitString_loses : ¬ ∃ pieces, splitString (text "a,b") (text ",;") = some pieces ∧
    (text ",;").intercalate pieces = text "a,b" ∧ ∀ p ∈ pieces, ¬ text ",;" <:+: p := by
  have hend : splitLoop (text "a,b") (text ",;") 3 = some [[]] := splitLoop_end
  have hcomma : splitLoop (text "a,b") (text ",;") 1 = some [[], []] := by
    rw [splitLoop_delimiter (c := 0x2c) rfl (by decide)]
    exact congrArg (Option.map ([] :: ·)) hend
  have hall : splitString (text "a,b") (text ",;") = some [text "a", []] := by
    rw [splitString, splitLoop_char (c := 0x61) rfl (by decide)]
    exact congrArg (Option.map (List.modifyHead (0x61 :: ·))) hcomma
  rintro ⟨pieces, h, hjoin, -⟩
  obtain rfl := Option.some.inj (hall.symm.trans h)
  exact absurd hjoin (by decide)

/-! ## A delimiter of one character -/

theorem whole_singleton (b : UInt8) (srcstr : Bytes) : Whole [b] srcstr := by
  induction srcstr with
  | nil => exact .nil
  | cons c rest ih =>
    by_cases hc : c = b
    · subst hc
      exact .delimiter ih
    · exact .char (by simpa using hc) ih

theorem splitString_singleton (srcstr : Bytes) (b : UInt8) :
    splitString srcstr [b] = some (Trivials.splitString srcstr b) := by
  obtain ⟨p, ps, hps, hjoin⟩ := splitLoop_of_whole (List.cons_ne_nil b []) (Nat.zero_le _) (whole_singleton b srcstr)
    List.drop_zero
  have hfree : ∀ q ∈ p :: ps, b ∉ q := fun q hq hb =>
    not_mem_of_splitLoop (List.cons_ne_nil b []) hps q hq b hb List.mem_cons_self
  rw [splitString, hps, Trivials.splitString, ← hjoin, List.splitOn_intercalate b hfree (List.cons_ne_nil p ps)]

end CppLinuxLearn.Trivials.SplitString
