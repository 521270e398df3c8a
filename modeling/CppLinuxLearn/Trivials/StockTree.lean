import CppLinuxLearn.Lib.Bytes
import Mathlib.Logic.Function.Basic

/-!
# The tree of stock codes

`stock_tree_trivial.cpp`. A code is the path to a node that has a value; the node at the end of a shorter or a
longer code is another one. The length of a code is held by an `int`, and a code of the length `0` sets no value.
-/

namespace CppLinuxLearn.Trivials.StockTree

open Lib

/-- A node; without children and value it is new. -/
inductive StockPrefixNode
  | mk (children : Fin 10 → Option StockPrefixNode) (realVal : Option Bytes)

namespace StockPrefixNode

def children : StockPrefixNode → Fin 10 → Option StockPrefixNode
  | mk children _ => children

def realVal : StockPrefixNode → Option Bytes
  | mk _ realVal => realVal

/-- `new StockPrefixNode` -/
def new : StockPrefixNode := mk (fun _ => none) none

end StockPrefixNode

open StockPrefixNode

/-- The index `*p - '0'`; any other is out of range. -/
def index (c : UInt8) : Option (Fin 10) :=
  if h : 48 ≤ c.toNat ∧ c.toNat < 58 then some ⟨c.toNat - 48, by omega⟩ else none

/-- `find` from the given node on, with the characters up to the terminator. -/
def find (node : StockPrefixNode) : Bytes → Option Bool
  | [] => some node.realVal.isSome
  | c :: p => do
    let k ← index c
    match node.children k with
    | some node => find node p
    | none => some false

/-- `int slen = p - code;` -/
def slen (code : Bytes) : Int := (BitVec.ofNat 32 code.length).toInt

/-- What `insert` does at the end of the code; `new char[slen]` throws for a negative length. -/
def setVal (node : StockPrefixNode) (code : Bytes) : Option StockPrefixNode :=
  if slen code = 0 then some node
  else if slen code < 0 then none
  else some (.mk node.children (some (code.take (slen code).toNat)))

/-- `insert(code)` from the given node on, where `p` is left of the code. -/
def insertFrom (code : Bytes) (node : StockPrefixNode) : Bytes → Option StockPrefixNode
  | [] => setVal node code
  | c :: p => do
    let k ← index c
    let child ← insertFrom code ((node.children k).getD new) p
    some (.mk (Function.update node.children k (some child)) node.realVal)

/-- `insert(code)` -/
def insert (head : StockPrefixNode) (code : Bytes) : Option StockPrefixNode := insertFrom code head code

/-- `gStockMap[code] = true` -/
def mapInsert (gStockMap : Bytes → Option Bool) (code : Bytes) : Bytes → Option Bool :=
  Function.update gStockMap code (some true)

/-- The string has only digits. -/
def Digits (code : Bytes) : Prop := ∀ c ∈ code, 48 ≤ c.toNat ∧ c.toNat < 58

instance (code : Bytes) : Decidable (Digits code) := List.decidableBAll _ code

variable {node head : StockPrefixNode} {code p q : Bytes} {c d : UInt8}

/-! ## One insertion -/

theorem Digits.index_eq (h : Digits (c :: p)) : ∃ k, index c = some k :=
  ⟨_, dif_pos (h c List.mem_cons_self)⟩

theorem Digits.tail (h : Digits (c :: p)) : Digits p := fun d hd => h d (List.mem_cons_of_mem c hd)

theorem index_inj {k : Fin 10} (hc : index c = some k) (hd : index d = some k) : c = d := by
  obtain ⟨hc', hck⟩ := Option.dite_none_right_eq_some.1 hc
  obtain ⟨hd', hdk⟩ := Option.dite_none_right_eq_some.1 hd
  have heq := congrArg Fin.val (Option.some.inj (hck.trans hdk.symm))
  exact UInt8.toNat.inj (by simp only at heq; omega)

theorem find_new (h : Digits p) : find new p = some false := by
  cases p with
  | nil => rfl
  | cons c p =>
    obtain ⟨k, hk⟩ := h.index_eq
    rw [find, hk]
    rfl

theorem find_cons {k : Fin 10} (hk : index c = some k) (h : Digits p) :
    find node (c :: p) = find ((node.children k).getD new) p := by
  rw [find, hk]
  cases hchild : node.children k with
  | none => simp only [Option.bind_eq_bind, Option.bind_some, hchild, Option.getD_none, find_new h]
  | some child => simp only [Option.bind_eq_bind, Option.bind_some, hchild, Option.getD_some]

theorem slen_eq (h : code.length < 2 ^ 31) : slen code = code.length := by
  have hmod : (BitVec.ofNat 32 code.length).toNat = code.length := by
    rw [BitVec.toNat_ofNat, Nat.mod_eq_of_lt (by omega)]
  rw [slen, BitVec.toInt_eq_toNat_of_lt (by omega), hmod]

theorem insertFrom_spec (node : StockPrefixNode) (hlen : 0 ≤ slen code) (hp : Digits p) :
    ∃ node', insertFrom code node p = some node' ∧
      ∀ q, Digits q → find node' q = if q = p ∧ slen code ≠ 0 then some true else find node q := by
  induction p generalizing node with
  | nil =>
    by_cases hcode : slen code = 0
    · exact ⟨node, if_pos hcode, fun q _ => (if_neg fun h => h.2 hcode).symm⟩
    · refine ⟨.mk node.children (some (code.take (slen code).toNat)), ?_, fun q hq => ?_⟩
      · rw [insertFrom, setVal, if_neg hcode, if_neg (by omega)]
      · cases q with
        | nil => exact (if_pos ⟨rfl, hcode⟩).symm
        | cons d q => exact (if_neg fun h => List.cons_ne_nil d q h.1).symm
  | cons c p ih =>
    obtain ⟨k, hk⟩ := hp.index_eq
    obtain ⟨child, hchild, hfind⟩ := ih ((node.children k).getD new) hp.tail
    refine ⟨.mk (Function.update node.children k (some child)) node.realVal, ?_, fun q hq => ?_⟩
    · rw [insertFrom, hk]
      simp only [Option.bind_eq_bind, Option.bind_some, hchild]
    · cases q with
      | nil => exact (if_neg fun h => List.cons_ne_nil c p h.1.symm).symm
      | cons d q =>
        obtain ⟨l, hl⟩ := hq.index_eq
        rw [find_cons hl hq.tail, find_cons hl hq.tail]
        by_cases hkl : l = k
        · subst hkl
          obtain rfl := index_inj hk hl
          simp only [children, Function.update_self, Option.getD_some, hfind q hq.tail, List.cons.injEq, true_and]
        · have hne : d ≠ c := by
            rintro rfl
            exact hkl (Option.some.inj (hl.symm.trans hk))
          rw [if_neg fun h => hne (List.cons.inj h.1).1]
          simp only [children, Function.update_of_ne hkl]

/-! ## A history of insertions -/

/-- What is found are the codes. -/
def Stores (codes : List Bytes) (head : StockPrefixNode) : Prop :=
  ∀ c, Digits c → ∃ found, find head c = some found ∧ (found = true ↔ c ≠ [] ∧ c ∈ codes)

variable {codes : List Bytes}

theorem stores_new : Stores [] new := fun _ hc =>
  ⟨false, find_new hc, iff_of_false Bool.false_ne_true fun h => List.not_mem_nil h.2⟩

theorem Stores.insert (h : Stores codes head) (hcode : Digits code) (hlen : code.length < 2 ^ 31) :
    ∃ head', insert head code = some head' ∧ Stores (codes ++ [code]) head' := by
  have hslen := slen_eq hlen
  obtain ⟨head', hhead, hfind⟩ := insertFrom_spec head (hslen ▸ Int.natCast_nonneg code.length) hcode
  refine ⟨head', hhead, fun c hc => ?_⟩
  have hmem : c ∈ codes ++ [code] ↔ c ∈ codes ∨ c = code := by rw [List.mem_append, List.mem_singleton]
  obtain ⟨found, hfound, hiff⟩ := h c hc
  rw [hfind c hc, hmem]
  by_cases heq : c = code
  · subst heq
    by_cases hne : c = []
    · subst hne
      rw [if_neg fun h => h.2 rfl]
      exact ⟨found, hfound, hiff.trans (iff_of_false (fun h => h.1 rfl) fun h => h.1 rfl)⟩
    · have hpos := List.length_pos_iff.2 hne
      rw [if_pos ⟨rfl, by omega⟩]
      exact ⟨true, rfl, iff_of_true rfl ⟨hne, .inr rfl⟩⟩
  · rw [if_neg fun h => heq h.1]
    refine ⟨found, hfound, ?_⟩
    simpa only [heq, or_false] using hiff

theorem Stores.insertAll (h : Stores codes head) {more : List Bytes}
    (hmore : ∀ code ∈ more, Digits code ∧ code.length < 2 ^ 31) :
    ∃ head', more.foldlM StockTree.insert head = some head' ∧ Stores (codes ++ more) head' := by
  induction more generalizing codes head with
  | nil => exact ⟨head, rfl, by rwa [List.append_nil]⟩
  | cons code more ih =>
    obtain ⟨⟨hcode, hlen⟩, hmore⟩ := List.forall_mem_cons.1 hmore
    obtain ⟨next, hnext, hstores⟩ := h.insert hcode hlen
    obtain ⟨head', hhead, hstores'⟩ := ih hstores hmore
    refine ⟨head', ?_, by rwa [List.append_assoc] at hstores'⟩
    rw [List.foldlM_cons, hnext]
    exact hhead

theorem isSome_foldl_mapInsert (m : Bytes → Option Bool) (c : Bytes) :
    (codes.foldl mapInsert m c).isSome ↔ (m c).isSome ∨ c ∈ codes := by
  induction codes generalizing m with
  | nil => simp
  | cons code codes ih =>
    rw [List.foldl_cons, ih, List.mem_cons]
    by_cases heq : c = code
    · subst heq
      simp [mapInsert]
    · simp [mapInsert, heq]

/-- **The tree is a set of codes.** After any insertions of strings of digits, each shorter than `2 ^ 31`, a code is
found exactly if it is not empty and was inserted, which for any other than the empty one is the answer of the map. -/
theorem find_inserted (codes : List Bytes) (h : ∀ code ∈ codes, Digits code ∧ code.length < 2 ^ 31) :
    ∃ head, codes.foldlM insert new = some head ∧ ∀ c, Digits c →
      find head c = some (decide (c ≠ [] ∧ c ∈ codes)) ∧
        (c ≠ [] → find head c = some (codes.foldl mapInsert (fun _ => none) c).isSome) := by
  obtain ⟨head, hhead, hstores⟩ := stores_new.insertAll h
  refine ⟨head, hhead, fun c hc => ?_⟩
  obtain ⟨found, hfound, hiff⟩ := hstores c hc
  rw [List.nil_append] at hiff
  rw [hfound, Option.some_inj, Option.some_inj]
  refine ⟨Bool.eq_iff_iff.2 (hiff.trans decide_eq_true_iff.symm), fun hne => Bool.eq_iff_iff.2 ?_⟩
  rw [hiff, isSome_foldl_mapInsert]
  exact ⟨fun h => .inr h.2, fun h => ⟨hne, h.resolve_left Bool.false_ne_true⟩⟩

theorem find_inserted_two :
    ∃ head, [text "600519", text "6005"].foldlM insert new = some head ∧ ∀ c, Digits c →
      find head c = some (decide (c ≠ [] ∧ c ∈ [text "600519", text "6005"])) ∧
        (c ≠ [] → find head c = some ([text "600519", text "6005"].foldl mapInsert (fun _ => none) c).isSome) :=
  find_inserted [text "600519", text "6005"] (by decide)

/-- The length of a code of `2 ^ 32` digits becomes `0`. -/
def tooLong : Bytes := List.replicate (2 ^ 32) 0x30

theorem slen_tooLong : slen tooLong = 0 := by
  rw [slen, tooLong, List.length_replicate]
  decide

/-- The empty code is in the map and not in the tree, and a code of `2 ^ 32` digits is not found. -/
theorem find_of_slen_zero : insert new [] = some new ∧ find new [] = some false ∧
    (mapInsert (fun _ => none) [] []).isSome = true ∧
      ∃ head, insert new tooLong = some head ∧ find head tooLong = some false := by
  have hdigits : Digits tooLong := fun c hc => by
    obtain rfl := List.eq_of_mem_replicate hc
    decide
  obtain ⟨head, hhead, hfind⟩ := insertFrom_spec new slen_tooLong.ge hdigits
  refine ⟨rfl, rfl, rfl, head, hhead, ?_⟩
  rw [hfind tooLong hdigits, if_neg fun h => h.2 slen_tooLong, find_new hdigits]

end CppLinuxLearn.Trivials.StockTree
