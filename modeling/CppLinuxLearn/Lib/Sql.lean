import CppLinuxLearn.Lib.Bytes

/-!
# Reading a statement text back

The lexical rules of SQLite and as much of its grammar as a conjunction of tests needs: `select`
and `delete` over one table, whose condition is made of columns, literals, `=`, `and` and `or`.
What lies outside this fragment is not read (`none`). Which names are columns of a table is a
parameter; it must not hold of a reserved word.
-/

namespace CppLinuxLearn.Lib.Sql

/-! ## Tokens -/

inductive Token
  /-- an identifier or a keyword -/
  | word (s : Bytes)
  /-- an identifier in brackets or backquotes -/
  | name (s : Bytes)
  /-- an identifier in double quotes; a text literal where no column has this name -/
  | dquoted (s : Bytes)
  /-- a text literal -/
  | literal (s : Bytes)
  | number (s : Bytes)
  | equals
  | star
  | semicolon
  | other
deriving DecidableEq, Repr

def isSpace (c : UInt8) : Bool := c = 0x20 || 0x09 ≤ c && c ≤ 0x0d && c ≠ 0x0b

def isDigit (c : UInt8) : Bool := 0x30 ≤ c && c ≤ 0x39

def isLetter (c : UInt8) : Bool := 0x41 ≤ c && c ≤ 0x5a || 0x61 ≤ c && c ≤ 0x7a

/-- The first byte of an identifier: a letter, `_`, or not ASCII. -/
def isIdStart (c : UInt8) : Bool := isLetter c || c = 0x5f || 0x80 ≤ c

/-- A further byte of an identifier. -/
def isIdChar (c : UInt8) : Bool := isIdStart c || isDigit c || c = 0x24

/-- `"` -/
def dquote : UInt8 := 0x22

/-! ## The lexer

An automaton over the bytes; a mode is what the bytes since the last token can still become. -/

inductive Mode
  | start
  | word (s : Bytes)
  | number (s : Bytes)
  | quoted (d : UInt8) (s : Bytes)
  /-- after a quote that ends the token unless the next byte doubles it -/
  | closing (d : UInt8) (s : Bytes)
  | bracket (s : Bytes)
  | equals
  | minus
  | slash
  | line
  | block
  | blockStar

/-- The token between two quotes `d`. -/
def quoteToken (d : UInt8) (s : Bytes) : Token :=
  if d = 0x27 then .literal s else if d = dquote then .dquoted s else .name s

/-- The first byte of a token. -/
def enter (c : UInt8) : List Token × Mode :=
  if isSpace c then ([], .start)
  else if isIdStart c then ([], .word [c])
  else if isDigit c then ([], .number [c])
  else if c = dquote ∨ c = 0x27 ∨ c = 0x60 then ([], .quoted c [])
  else if c = 0x5b then ([], .bracket [])
  else if c = 0x3d then ([], .equals)
  else if c = 0x2d then ([], .minus)
  else if c = 0x2f then ([], .slash)
  else if c = 0x2a then ([.star], .start)
  else if c = 0x3b then ([.semicolon], .start)
  else ([.other], .start)

/-- A token that ended before `c`. -/
def after (t : Token) (c : UInt8) : List Token × Mode := (t :: (enter c).1, (enter c).2)

def Mode.step : Mode → UInt8 → List Token × Mode
  | start, c => enter c
  | word s, c => if isIdChar c then ([], word (s ++ [c])) else after (.word s) c
  | number s, c =>
    if isDigit c then ([], number (s ++ [c]))
    -- fractions, exponents and hexadecimal numbers are not read
    else if isIdChar c ∨ c = 0x2e then ([.other], start)
    else after (.number s) c
  | quoted d s, c => if c = d then ([], closing d s) else ([], quoted d (s ++ [c]))
  | closing d s, c => if c = d then ([], quoted d (s ++ [d])) else after (quoteToken d s) c
  | bracket s, c => if c = 0x5d then ([.name s], start) else ([], bracket (s ++ [c]))
  | equals, c => if c = 0x3d then ([.equals], start) else after .equals c
  | minus, c => if c = 0x2d then ([], line) else after .other c
  | slash, c => if c = 0x2a then ([], block) else after .other c
  | line, c => ([], if c = 0x0a then start else line)
  | block, c => ([], if c = 0x2a then blockStar else block)
  | blockStar, c => ([], if c = 0x2f then start else if c = 0x2a then blockStar else block)

/-- The end of the text. -/
def Mode.finish : Mode → List Token
  | start | line | block | blockStar => []
  | word s => [.word s]
  | number s => [.number s]
  | closing d s => [quoteToken d s]
  | equals => [.equals]
  | quoted _ _ | bracket _ | minus | slash => [.other]

def lexFrom (m : Mode) : Bytes → List Token
  | [] => m.finish
  | c :: s => (m.step c).1 ++ lexFrom (m.step c).2 s

def lex (s : Bytes) : List Token := lexFrom .start s

theorem lexFrom_after {m : Mode} {c : UInt8} {t : Token} (h : m.step c = after t c) (s : Bytes) :
    lexFrom m (c :: s) = t :: lexFrom .start (c :: s) := by
  rw [lexFrom, h, lexFrom]
  rfl

theorem lexFrom_word {w : Bytes} (hw : ∀ c ∈ w, isIdChar c = true) {c : UInt8} (hc : isIdChar c = false)
    (p s : Bytes) : lexFrom (.word p) (w ++ c :: s) = .word (p ++ w) :: lexFrom .start (c :: s) := by
  induction w generalizing p with
  | nil =>
    rw [List.nil_append, List.append_nil]
    exact lexFrom_after (by simp [Mode.step, hc]) s
  | cons b w ih =>
    have hb : isIdChar b = true := hw b List.mem_cons_self
    have htail := ih (fun x hx => hw x (List.mem_cons_of_mem _ hx)) (p ++ [b])
    rw [List.append_assoc, List.singleton_append] at htail
    simpa [lexFrom, Mode.step, hb] using htail

/-- A run of bytes that is read as one word. -/
def IsWord (w : Bytes) : Prop :=
  ∃ b v, w = b :: v ∧ isIdStart b = true ∧ ∀ c ∈ v, isIdChar c = true

theorem isSpace_of_isIdStart {c : UInt8} (h : isIdStart c = true) : isSpace c = false := by
  revert h
  simp only [isIdStart, isLetter, isSpace, Bool.or_eq_true, Bool.and_eq_true, decide_eq_true_eq,
    Bool.or_eq_false_iff, Bool.and_eq_false_iff, decide_eq_false_iff_not, ne_eq, UInt8.le_iff_toNat_le,
    ← UInt8.toNat_inj, UInt8.reduceToNat]
  omega

theorem lex_word {w : Bytes} (hw : IsWord w) {c : UInt8} (hc : isIdChar c = false) (s : Bytes) :
    lex (w ++ c :: s) = .word w :: lex (c :: s) := by
  obtain ⟨b, v, rfl, hb, hv⟩ := hw
  have hstep : Mode.start.step b = ([], .word [b]) := by
    simp [Mode.step, enter, hb, isSpace_of_isIdStart hb]
  have htail := lexFrom_word hv hc [b] s
  rw [lex, List.cons_append, lexFrom, hstep, List.nil_append, htail]
  rfl

/-! ## Quoted tokens -/

/-- What a quoted token holds and what follows it: it ends at the first quote that is not doubled. -/
def unquote (d : UInt8) : Bytes → Option (Bytes × Bytes)
  | [] => none
  | [c] => if c = d then some ([], []) else none
  | c :: b :: s =>
    if c = d then
      if b = d then (unquote d s).map fun p => (d :: p.1, p.2) else some ([], b :: s)
    else (unquote d (b :: s)).map fun p => (c :: p.1, p.2)

theorem lexFrom_quoted (d : UInt8) (p s : Bytes) :
    lexFrom (.quoted d p) s = match unquote d s with
      | some (w, r) => quoteToken d (p ++ w) :: lex r
      | none => [.other] := by
  fun_induction unquote d s generalizing p with
  | case1 => rfl
  | case2 => simp [lexFrom, Mode.step, Mode.finish, lex]
  | case3 c hc => simp [lexFrom, Mode.step, Mode.finish, hc]
  | case4 s ih =>
    -- a doubled quote
    have h := ih (p ++ [d])
    simp only [lexFrom, Mode.step, if_true, List.nil_append, h]
    cases unquote d s <;> simp
  | case5 b s hb =>
    have hstep : (Mode.closing d p).step b = after (quoteToken d p) b := by simp [Mode.step, hb]
    have h := lexFrom_after hstep s
    rw [lexFrom]
    simp only [Mode.step, if_true, List.nil_append, List.append_nil]
    exact h
  | case6 c b s hc ih =>
    have h := ih (p ++ [c])
    rw [lexFrom]
    simp only [Mode.step, if_neg hc, List.nil_append, h]
    cases unquote d (b :: s) <;> simp

theorem unquote_plain {d : UInt8} {v : Bytes} (hv : d ∉ v) {b : UInt8} (hb : b ≠ d) (s : Bytes) :
    unquote d (v ++ d :: b :: s) = some (v, b :: s) := by
  induction v with
  | nil => simp [unquote, hb]
  | cons c v ih =>
    rw [List.mem_cons, not_or] at hv
    have hc : c ≠ d := fun h => hv.1 h.symm
    have htail := ih hv.2
    cases v with
    | nil => simp [unquote, hc, hb]
    | cons x v => simpa [unquote, hc] using htail

theorem unquote_subset {d : UInt8} {s w r : Bytes} (h : unquote d s = some (w, r)) : w ⊆ s := by
  fun_induction unquote d s generalizing w r with
  | case1 => cases h
  | case2 =>
    cases h
    exact List.nil_subset _
  | case3 => cases h
  | case4 s ih =>
    obtain ⟨⟨w', r'⟩, hp, he⟩ := Option.map_eq_some_iff.1 h
    cases he
    exact List.cons_subset_cons _ (List.subset_cons_of_subset _ (ih hp))
  | case5 b s hb =>
    cases h
    exact List.nil_subset _
  | case6 c b s hc ih =>
    obtain ⟨⟨w', r'⟩, hp, he⟩ := Option.map_eq_some_iff.1 h
    cases he
    exact List.cons_subset_cons _ (ih hp)

/-- What is read from `v`, a quote and a byte that is no quote never starts with a quote more than
`v`: the quotes that are doubled only get fewer. -/
theorem unquote_ne_replicate {d : UInt8} {b : UInt8} (hb : b ≠ d) (s v : Bytes) (n : Nat) (r : Bytes) :
    unquote d (v ++ d :: b :: s) ≠ some (List.replicate (n + 1) d ++ v, r) := by
  induction hk : v.length using Nat.strong_induction_on generalizing v n r with
  | _ k ih =>
    intro h
    match v, hk with
    | [], _ => simp [unquote, hb] at h
    | [c], _ =>
      by_cases hc : c = d
      · subst hc
        -- the quote of `v` doubles the closing one, and the token goes on with `b`
        cases s with
        | nil => simp [unquote, hb] at h
        | cons x s =>
          simp only [List.cons_append, List.nil_append, unquote, if_true, if_neg hb,
            Option.map_map, Option.map_eq_some_iff, List.replicate_succ] at h
          obtain ⟨p, -, he⟩ := h
          simp only [Function.comp_apply, Prod.mk.injEq, List.cons.injEq, true_and] at he
          cases n with
          | zero => exact hb (by simpa using (congrArg List.head? he.1))
          | succ n => exact hb (by simpa [List.replicate_succ] using (congrArg List.head? he.1))
      · simp [unquote, hc, hb, List.replicate_succ] at h
    | c :: x :: v, hk =>
      by_cases hc : c = d
      · by_cases hx : x = d
        · subst hc hx
          simp only [List.cons_append, unquote, if_true, Option.map_eq_some_iff,
            List.replicate_succ, Prod.mk.injEq, List.cons.injEq, true_and] at h
          obtain ⟨p, hp, he, -⟩ := h
          have hlen : v.length < k := by
            simp only [List.length_cons] at hk
            omega
          refine ih v.length hlen v (n + 1) p.2 rfl ?_
          rw [hp]
          congr 1
          refine Prod.ext ?_ rfl
          rw [he, List.replicate_succ', List.replicate_succ']
          simp
        · simp [unquote, hc, hx, List.replicate_succ] at h
      · simp only [List.cons_append, unquote, if_neg hc, Option.map_eq_some_iff,
          List.replicate_succ, Prod.mk.injEq, List.cons.injEq] at h
        obtain ⟨p, -, ⟨he, -⟩, -⟩ := h
        exact hc he

theorem unquote_ne {d : UInt8} {v : Bytes} (hv : d ∈ v) {b : UInt8} (hb : b ≠ d) (s r : Bytes) :
    unquote d (v ++ d :: b :: s) ≠ some (v, r) := by
  induction v with
  | nil => cases hv
  | cons c v ih =>
    intro h
    by_cases hc : c = d
    · -- the first quote of the text ends the token or is halved
      subst hc
      cases v with
      | nil =>
        cases s <;> simp [unquote, hb] at h
      | cons x v =>
        by_cases hx : x = c
        · subst hx
          simp only [List.cons_append, unquote, if_true, Option.map_eq_some_iff, Prod.mk.injEq,
            List.cons.injEq, true_and] at h
          obtain ⟨⟨w, r'⟩, hp, rfl, -⟩ := h
          exact unquote_ne_replicate hb s v 0 r' hp
        · simp [unquote, hx] at h
    · have hmem : d ∈ v := (List.mem_cons.1 hv).resolve_left fun h => hc h.symm
      cases v with
      | nil => cases hmem
      | cons x v =>
        simp only [List.cons_append, unquote, if_neg hc, Option.map_eq_some_iff, Prod.mk.injEq,
          List.cons.injEq, true_and] at h
        obtain ⟨⟨w, r'⟩, hp, rfl, rfl⟩ := h
        exact ih hmem hp

/-! ## Conditions -/

inductive Expr
  | column (s : Bytes)
  | literal (s : Bytes)
  | number (s : Bytes)
  | eq (a b : Expr)
  | and (a b : Expr)
  | or (a b : Expr)
deriving DecidableEq, Repr

/-- What the parts of a condition stand for in one row, and which values make a row be picked. -/
structure Meaning (V : Type) where
  column : Bytes → V
  literal : Bytes → V
  number : Bytes → V
  eq : V → V → V
  and : V → V → V
  or : V → V → V
  holds : V → Bool
  holds_and : ∀ a b, holds (and a b) = (holds a && holds b)
  holds_or : ∀ a b, holds (or a b) = (holds a || holds b)
  holds_eq_literal : ∀ s, holds (eq (literal s) (literal s)) = true
  holds_eq_number : ∀ s, holds (eq (number s) (number s)) = true

section
variable {V : Type} (M : Meaning V)

def Expr.value : Expr → V
  | column s => M.column s
  | literal s => M.literal s
  | number s => M.number s
  | eq a b => M.eq a.value b.value
  | and a b => M.and a.value b.value
  | or a b => M.or a.value b.value

/-- The row is picked. -/
def Expr.picks (e : Expr) : Bool := M.holds (e.value M)

/-- `e and t1 and t2 ..` -/
def Expr.ands (e : Expr) (ts : List Expr) : Expr := ts.foldl .and e

theorem Expr.picks_ands (e : Expr) (ts : List Expr) :
    (e.ands ts).picks M = (e.picks M && ts.all fun t => t.picks M) := by
  induction ts generalizing e with
  | nil => simp [ands]
  | cons t ts ih =>
    have hand : (Expr.and e t).picks M = (e.picks M && t.picks M) := M.holds_and _ _
    have htail := ih (.and e t)
    rw [hand, Bool.and_assoc] at htail
    exact htail

end

/-- The operands of the outermost `and`s, first to last. -/
def Expr.conjuncts : Expr → List Expr
  | and a b => a.conjuncts ++ [b]
  | e => [e]

theorem Expr.conjuncts_ands (e : Expr) (ts : List Expr) :
    (e.ands ts).conjuncts = e.conjuncts ++ ts := by
  induction ts generalizing e with
  | nil => simp [ands]
  | cons t ts ih =>
    have htail := ih (.and e t)
    rw [conjuncts, List.append_assoc, List.singleton_append] at htail
    exact htail

/-! ## The reader -/

section
variable (isColumn : Bytes → Bool)

/-- An operand of `=`. -/
def operand : Token → Option Expr
  | .dquoted s => some (if isColumn s then .column s else .literal s)
  | .literal s => some (.literal s)
  | .number s => some (.number s)
  | .word s | .name s => if isColumn s then some (.column s) else none
  | _ => none

def lowerByte (c : UInt8) : UInt8 := if 0x41 ≤ c ∧ c ≤ 0x5a then c + 0x20 else c

/-- Lower case, as names and keywords are compared. -/
def lower (s : Bytes) : Bytes := s.map lowerByte

theorem isLetter_lowerByte (c : UInt8) : isLetter (lowerByte c) = isLetter c := by
  by_cases h : 0x41 ≤ c ∧ c ≤ 0x5a
  · have hlower : lowerByte c = c + 0x20 := if_pos h
    have h20 : (0x20 : UInt8).toNat = 32 := rfl
    simp only [UInt8.le_iff_toNat_le, UInt8.reduceToNat] at h
    have hadd : (c + 0x20).toNat = c.toNat + 32 := by
      rw [UInt8.toNat_add, h20]
      omega
    rw [hlower]
    simp only [isLetter, UInt8.le_iff_toNat_le, hadd, UInt8.reduceToNat]
    grind
  · rw [lowerByte, if_neg h]

theorem isLetter_of_lower {s w : Bytes} (h : lower s = lower w) (hw : ∀ c ∈ w, isLetter c = true) :
    ∀ c ∈ s, isLetter c = true := by
  intro c hc
  have hmem : lowerByte c ∈ lower w := h ▸ List.mem_map_of_mem hc
  obtain ⟨b, hb, hbc⟩ := List.mem_map.1 hmem
  rw [← isLetter_lowerByte, ← hbc, isLetter_lowerByte]
  exact hw b hb

theorem isWord_of_isLetter {s : Bytes} (hs : s ≠ []) (h : ∀ c ∈ s, isLetter c = true) : IsWord s := by
  obtain ⟨b, v, rfl⟩ := List.exists_cons_of_ne_nil hs
  refine ⟨b, v, rfl, ?_, fun c hc => ?_⟩
  · simp [isIdStart, h b List.mem_cons_self]
  · simp [isIdChar, isIdStart, h c (List.mem_cons_of_mem _ hc)]

def Token.isKeyword (k : String) : Token → Bool
  | word s => lower s = text k
  | _ => false

/-- An optional left side before an operator. -/
def joined (op : Expr → Expr → Expr) (l : Option Expr) (e : Expr) : Expr := l.elim e fun a => op a e

/-- The rest of a condition: `o` stands before an `or`, `a` before an `and`, and `c` is a chain of
`=`. A semicolon ends the statement, and what follows it is not read. -/
def readRest (o a : Option Expr) (c : Expr) : List Token → Option Expr
  | [] => some (joined .or o (joined .and a c))
  | [k] => if k = .semicolon then some (joined .or o (joined .and a c)) else none
  | k :: t :: ts =>
    if k = .semicolon then some (joined .or o (joined .and a c))
    else match operand isColumn t with
      | none => none
      | some e =>
        if k.isKeyword "and" then readRest o (some (joined .and a c)) e ts
        else if k.isKeyword "or" then readRest (some (joined .or o (joined .and a c))) none e ts
        else if k = .equals then readRest o a (.eq c e) ts
        else none

/-- A condition. -/
def readCondition : List Token → Option Expr
  | t :: ts => (operand isColumn t).bind fun e => readRest isColumn none none e ts
  | [] => none

/-- A chain of `=` that starts with `c`. -/
inductive Extends (c : Expr) : Expr → Prop
  | refl : Extends c c
  | eq {d : Expr} (e : Expr) : Extends c d → Extends c (.eq d e)

theorem Extends.trans {c d e : Expr} (h : Extends c d) (h' : Extends d e) : Extends c e := by
  induction h' with
  | refl => exact h
  | eq x _ ih => exact .eq x ih

theorem joined_of_isSome {l : Option Expr} (hl : l.isSome = true) (op : Expr → Expr → Expr) (e : Expr) :
    ∃ x, joined op l e = op x e := by
  obtain ⟨x, rfl⟩ := Option.isSome_iff_exists.1 hl
  exact ⟨x, rfl⟩

theorem readRest_or {o a : Option Expr} {c e : Expr} {ts : List Token}
    (h : readRest isColumn o a c ts = some e) (ho : o.isSome = true) : ∃ y z, e = .or y z := by
  fun_induction readRest isColumn o a c ts with
  | case1 o a c | case2 o a c | case4 o a c =>
    obtain ⟨x, hx⟩ := joined_of_isSome ho .or (joined .and a c)
    exact ⟨x, joined .and a c, by rw [← Option.some.inj h, hx]⟩
  | case6 o a c k t ts _ x _ _ ih => exact ih h ho
  | case7 o a c k t ts _ x _ _ _ ih => exact ih h rfl
  | case8 o a c t ts _ x _ _ _ ih => exact ih h ho
  | _ => cases h

/-- **A condition that is read either is an `or` at the top, or its conjuncts start with those
before the reader and with a chain of `=` that starts where the reader stands.** -/
theorem readRest_conjuncts {a : Option Expr} {c e : Expr} {ts : List Token}
    (h : readRest isColumn none a c ts = some e) :
    (∃ y z, e = .or y z) ∨
      ∃ d, Extends c d ∧ (joined .and a d).conjuncts <+: e.conjuncts := by
  generalize ho : (none : Option Expr) = o at h
  fun_induction readRest isColumn o a c ts with
  | case1 o a c | case2 o a c | case4 o a c =>
    subst ho
    refine .inr ⟨c, .refl, ?_⟩
    rw [← Option.some.inj h]
    exact List.prefix_rfl
  | case6 o a c k t ts _ x _ _ ih =>
    -- after an `and` the chain is complete
    refine (ih ho h).imp_right ?_
    rintro ⟨d, -, hd⟩
    exact ⟨c, .refl, List.IsPrefix.trans (List.prefix_append _ _) hd⟩
  | case7 o a c k t ts _ x _ _ _ ih => exact .inl (readRest_or isColumn h rfl)
  | case8 o a c t ts _ x _ _ _ ih =>
    refine (ih ho h).imp_right ?_
    rintro ⟨d, hext, hd⟩
    exact ⟨d, Extends.trans (.eq _ .refl) hext, hd⟩
  | _ => cases h

theorem readRest_test (o a : Option Expr) (c : Expr) {k l t : Token} {x y : Expr} (ts : List Token)
    (hk : k.isKeyword "and" = true) (hsemi : k ≠ .semicolon) (hl : operand isColumn l = some x)
    (ht : operand isColumn t = some y) :
    readRest isColumn o a c (k :: l :: .equals :: t :: ts) =
      readRest isColumn o (some (joined .and a c)) (.eq x y) ts := by
  have hand : Token.equals.isKeyword "and" = false := rfl
  have hor : Token.equals.isKeyword "or" = false := rfl
  simp [readRest, hk, hsemi, hl, ht, hand, hor]

theorem readRest_other (o a : Option Expr) (c : Expr) {k l : Token} {x : Expr}
    (hk : k.isKeyword "and" = true) (hsemi : k ≠ .semicolon) (hl : operand isColumn l = some x) :
    readRest isColumn o a c [k, l, .equals, .other] = none := by
  have hother : operand isColumn .other = none := rfl
  simp [readRest, hk, hsemi, hl, hother]

/-- Where the conjunction of the right tests is read, the test the reader stands at is the right
one. -/
theorem readRest_test_eq {a : Expr} {s : Bytes} {y z : Expr} {ts : List Token} {rest : List Expr}
    (h : readRest isColumn none (some a) (.eq (.column s) y) ts =
      some ((Expr.and a (.eq (.column s) z)).ands rest)) : y = z := by
  obtain ⟨x, y', hor⟩ | ⟨d, hext, hd⟩ := readRest_conjuncts isColumn h
  · have hc := Expr.conjuncts_ands (Expr.and a (.eq (.column s) z)) rest
    rw [hor] at hc
    have hlen := congrArg List.length hc
    simp only [Expr.conjuncts, List.length_append, List.length_singleton] at hlen
    have ha : a.conjuncts ≠ [] := by cases a <;> simp [Expr.conjuncts]
    have := List.length_pos_iff.2 ha
    omega
  · rw [Expr.conjuncts_ands] at hd
    simp only [joined, Option.elim, Expr.conjuncts, List.append_assoc, List.singleton_append,
      List.prefix_append_right_inj] at hd
    obtain ⟨hhead, -⟩ := List.cons_prefix_cons.1 hd
    subst hhead
    cases hext with
    | refl => rfl
    | eq _ h' => cases h'

end

/-! ## Statements -/

inductive Verb
  | select
  | delete
deriving DecidableEq, Repr

/-- `select * from table where cond` or `delete from table where cond` -/
structure Statement where
  verb : Verb
  table : Bytes
  cond : Expr
deriving DecidableEq, Repr

/-- The first statement of a text; `isColumn t` are the columns of the table `t`. -/
def readStatement (isColumn : Bytes → Bytes → Bool) : List Token → Option Statement
  | v :: .star :: f :: .word t :: w :: ts =>
    if v.isKeyword "select" && f.isKeyword "from" && w.isKeyword "where" then
      (readCondition (isColumn t) ts).map (⟨.select, t, ·⟩)
    else none
  | v :: f :: .word t :: w :: ts =>
    if v.isKeyword "delete" && f.isKeyword "from" && w.isKeyword "where" then
      (readCondition (isColumn t) ts).map (⟨.delete, t, ·⟩)
    else none
  | _ => none

def readSql (isColumn : Bytes → Bytes → Bool) (s : Bytes) : Option Statement :=
  readStatement isColumn (lex s)

end CppLinuxLearn.Lib.Sql
