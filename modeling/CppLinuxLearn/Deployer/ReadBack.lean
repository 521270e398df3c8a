import CppLinuxLearn.Deployer.SqlText
import CppLinuxLearn.Deployer.Database
import CppLinuxLearn.Lib.Sql

/-!
# The statement text read back

`onRecvCmd`, cases `TQuery` and `TDelByCol`: column values come from the client and are put between
double quotes as they are. The text is the conjunction of the given tests exactly when no value has
a double quote or a NUL in it or is the name of a column.
-/

namespace CppLinuxLearn.Deployer

open Lib Lib.Sql

/-! ## Columns and filters -/

/-- The name is that of a column of the table. -/
def EElementType.hasColumn (t : EElementType) (s : Bytes) : Bool :=
  t.columns.any fun c => lower (text c) = lower s

/-- The name is one of SQLite's for the row number. -/
def isRowid (s : Bytes) : Bool := ["rowid", "oid", "_rowid_"].any fun c => text c = lower s

/-- The names of columns in `ATDConfig.db`. -/
def isColumn (table s : Bytes) : Bool :=
  EElementType.all.any fun t => lower (text t.table) = lower table && (t.hasColumn s || isRowid s)

theorem isColumn_table (t : EElementType) (s : Bytes) :
    isColumn (text t.table) s = (t.hasColumn s || isRowid s) := by
  have hne : ∀ u ∈ EElementType.all, lower (text u.table) = lower (text t.table) ↔ u = t := by
    cases t <;> decide
  have hmem : t ∈ EElementType.all := by cases t <;> decide
  rw [isColumn, Bool.eq_iff_iff, List.any_eq_true]
  constructor
  · rintro ⟨u, hu, h⟩
    rw [Bool.and_eq_true, decide_eq_true_eq, hne u hu] at h
    obtain ⟨rfl, h⟩ := h
    exact h
  · intro h
    exact ⟨t, hmem, by simp [h]⟩

theorem EElementType.isLetter_of_hasColumn {t : EElementType} {s : Bytes} (h : t.hasColumn s = true) :
    s ≠ [] ∧ ∀ c ∈ s, isLetter c = true := by
  have hcols : ∀ c ∈ t.columns, text c ≠ [] ∧ ∀ b ∈ text c, isLetter b = true := by
    cases t <;> decide +kernel
  rw [hasColumn, List.any_eq_true] at h
  obtain ⟨c, hc, hs⟩ := h
  have hlower : lower s = lower (text c) := (of_decide_eq_true hs).symm
  refine ⟨?_, isLetter_of_lower hlower (hcols c hc).2⟩
  rintro rfl
  have hnil := congrArg List.length hlower
  simp only [lower, List.map_nil, List.length_nil, List.length_map] at hnil
  exact (hcols c hc).1 (List.length_eq_zero_iff.1 hnil.symm)

/-- A filter on a column of the table whose clause fits the buffer. -/
structure FittingFilter (t : EElementType) extends ColumnFilter where
  column : t.hasColumn ColName = true
  fits : Fits (clauseText toColumnFilter)

section
variable {t : EElementType}

/-- The test `column = value`. -/
def ColumnFilter.test (f : ColumnFilter) : Expr := .eq (.column f.ColName) (.literal f.ColVal)

/-- `1=1` -/
def one : Expr := .eq (.number (text "1")) (.number (text "1"))

/-- `1=1 and column = value and ..` -/
def conjunction (fs : List ColumnFilter) : Expr := one.ands (fs.map ColumnFilter.test)

theorem picks_conjunction {V : Type} (M : Meaning V) (fs : List ColumnFilter) :
    (conjunction fs).picks M = fs.all fun f => M.holds (M.eq (M.column f.ColName) (M.literal f.ColVal)) := by
  have hone : one.picks M = true := M.holds_eq_number _
  rw [conjunction, Expr.picks_ands, hone, Bool.true_and, List.all_map]
  rfl

/-- Both texts made of the filters are read as the conjunction of their tests. -/
def ReadsBack (t : EElementType) (fs : List (FittingFilter t)) : Prop :=
  ∀ beyond,
    readSql isColumn (queryText beyond t.toInt (fs.map (·.toColumnFilter))) =
      some ⟨.select, text t.table, conjunction (fs.map (·.toColumnFilter))⟩ ∧
    readSql isColumn (deleteText beyond t.toInt (fs.map (·.toColumnFilter))) =
      some ⟨.delete, text t.table, conjunction (fs.map (·.toColumnFilter))⟩

/-- Between double quotes the value stands for itself. -/
def Plain (t : EElementType) (v : Str) : Prop :=
  dquote ∉ v ∧ 0 ∉ v ∧ isColumn (text t.table) v = false

instance (v : Str) : Decidable (Plain t v) := inferInstanceAs (Decidable (_ ∧ _))

/-! ## The tokens of the text -/

theorem FittingFilter.cstr_ColName (f : FittingFilter t) : cstr f.ColName = f.ColName := by
  refine cstr_of_not_mem fun h => ?_
  have := (EElementType.isLetter_of_hasColumn f.column).2 0 h
  exact absurd this (by decide)

theorem lex_clauseText (f : FittingFilter t) (s : Bytes) :
    lex (clauseText f.toColumnFilter ++ s) =
      .word (text "and") :: .word f.ColName :: .equals ::
        lexFrom (.quoted dquote []) (cstr f.ColVal ++ dquote :: s) := by
  obtain ⟨hne, hletter⟩ := EElementType.isLetter_of_hasColumn f.column
  have hand : ∀ r, lex (text " and " ++ r) = .word (text "and") :: lex r := fun _ => rfl
  have hname := lex_word (isWord_of_isLetter hne hletter) (c := 0x3d) (by decide)
  have heq : ∀ r, lex (0x3d :: dquote :: r) = .equals :: lexFrom (.quoted dquote []) r := fun _ => rfl
  have hopen : text "=\"" = [0x3d, dquote] := rfl
  have hclose : text "\"" = [dquote] := rfl
  rw [clauseText, f.cstr_ColName, hopen, hclose]
  simp only [List.append_assoc, List.cons_append, List.nil_append]
  rw [hand, hname, heq]

/-- The clauses and the semicolon. -/
def tailText (fs : List ColumnFilter) : Str := fs.flatMap clauseText ++ text ";"

theorem tailText_cons (f : ColumnFilter) (fs : List ColumnFilter) :
    tailText (f :: fs) = clauseText f ++ tailText fs := by
  rw [tailText, List.flatMap_cons, List.append_assoc, ← tailText]

theorem tailText_head (fs : List ColumnFilter) :
    ∃ b r, tailText fs = b :: r ∧ (b = 0x20 ∨ b = 0x3b) := by
  cases fs with
  | nil => exact ⟨0x3b, [], rfl, .inr rfl⟩
  | cons f fs =>
    have hand : text " and " = 0x20 :: text "and " := rfl
    have happ : tailText (f :: fs) = text " and " ++ (cstr f.ColName ++ (text "=\"" ++
        (cstr f.ColVal ++ (text "\"" ++ tailText fs)))) := by
      rw [tailText_cons, clauseText]
      simp only [List.append_assoc]
    exact ⟨0x20, _, by rw [happ, hand, List.cons_append], .inl rfl⟩

theorem zero_not_mem_tailText (fs : List (FittingFilter t)) :
    0 ∉ tailText (fs.map (·.toColumnFilter)) := by
  induction fs with
  | nil =>
    have hsemi : 0 ∉ tailText [] := by decide
    exact hsemi
  | cons f fs ih =>
    have hand : 0 ∉ text " and " := by decide
    have heq : 0 ∉ text "=\"" := by decide
    have hq : 0 ∉ text "\"" := by decide
    have hval := zero_not_mem_cstr f.ColVal
    have hname := zero_not_mem_cstr f.ColName
    rw [List.map_cons, tailText_cons, clauseText]
    simp only [List.mem_append, not_or]
    exact ⟨⟨⟨⟨⟨hand, hname⟩, heq⟩, hval⟩, hq⟩, ih⟩

/-! ## The condition -/

theorem not_mem_of_unquote {v : Str} {b : UInt8} {s r : Bytes} (hb : b ≠ dquote)
    (hs : 0 ∉ b :: s) (h : unquote dquote (cstr v ++ dquote :: b :: s) = some (v, r)) :
    dquote ∉ v ∧ 0 ∉ v := by
  have hzero : 0 ∉ v := by
    intro hv
    have hmem := unquote_subset h hv
    rcases List.mem_append.1 hmem with h0 | h0
    · exact zero_not_mem_cstr v h0
    · rcases List.mem_cons.1 h0 with h0 | h0
      · cases h0
      · exact hs h0
  refine ⟨fun hq => ?_, hzero⟩
  rw [cstr_of_not_mem hzero] at h
  exact unquote_ne hq hb s r h

/-- From any point on, the clauses are read as the conjunction of their tests exactly when all the
values are plain. -/
theorem readRest_tailText (fs : List (FittingFilter t)) (a : Option Expr) (c : Expr) :
    readRest (isColumn (text t.table)) none a c (lex (tailText (fs.map (·.toColumnFilter)))) =
        some ((joined .and a c).ands (fs.map (·.test))) ↔
      ∀ f ∈ fs, Plain t f.ColVal := by
  induction fs generalizing a c with
  | nil =>
    have hlex : lex (tailText []) = [.semicolon] := rfl
    simp [hlex, readRest, joined, Expr.ands]
  | cons f fs ih =>
    obtain ⟨b, r, htail, hb⟩ := tailText_head (fs.map (·.toColumnFilter))
    have hbq : b ≠ dquote := by rcases hb with rfl | rfl <;> decide
    have hcol : operand (isColumn (text t.table)) (.word f.ColName) = some (.column f.ColName) := by
      simp [operand, isColumn_table, f.column]
    -- the reader after the token of the value, whatever it holds
    have hstep (w : Bytes) (ts : List Token) :
        readRest (isColumn (text t.table)) none a c
            (.word (text "and") :: .word f.ColName :: .equals :: .dquoted w :: ts) =
          readRest (isColumn (text t.table)) none (some (joined .and a c))
            (.eq (.column f.ColName)
              (if isColumn (text t.table) w then .column w else .literal w)) ts :=
      readRest_test _ none a c ts (by decide) (by decide) hcol rfl
    have hquote (w : Bytes) : quoteToken dquote ([] ++ w) = .dquoted w := rfl
    rw [List.map_cons, tailText_cons, lex_clauseText, htail, lexFrom_quoted, List.map_cons,
      List.forall_mem_cons]
    by_cases hp : Plain t f.ColVal
    · -- the value is read back, and the reader goes on behind it
      obtain ⟨hq, hz, hnc⟩ := id hp
      have hrest := ih (some (joined .and a c)) f.test
      rw [htail] at hrest
      rw [cstr_of_not_mem hz, unquote_plain hq hbq]
      simp only [hquote, hstep, hnc, Bool.false_eq_true, if_false]
      rw [and_iff_right hp, ← hrest]
      rfl
    · refine iff_of_false (fun h => ?_) fun h => hp h.1
      cases hu : unquote dquote (cstr f.ColVal ++ dquote :: b :: r) with
      | none =>
        -- the token does not end
        have hother : readRest (isColumn (text t.table)) none a c
            [.word (text "and"), .word f.ColName, .equals, .other] = none :=
          readRest_other _ none a c (by decide) (by decide) hcol
        simp only [hu, hother, reduceCtorEq] at h
      | some p =>
        obtain ⟨w, s⟩ := p
        simp only [hu, hquote, hstep] at h
        have hval := readRest_test_eq _ h
        cases hnc : isColumn (text t.table) w with
        | true => simp [hnc] at hval
        | false =>
          simp only [hnc, Bool.false_eq_true, if_false, Expr.literal.injEq] at hval
          subst hval
          have hzero := zero_not_mem_tailText fs
          rw [htail] at hzero
          obtain ⟨hq, hz⟩ := not_mem_of_unquote hbq hzero hu
          exact hp ⟨hq, hz, hnc⟩

/-! ## The statement -/

theorem lex_table (t : EElementType) (fs : List ColumnFilter) :
    lex (cstr (text t.table) ++ (text " where 1=1" ++ tailText fs)) =
      .word (text t.table) :: .word (text "where") :: .number (text "1") :: .equals ::
        .number (text "1") :: lex (tailText fs) := by
  have hcstr : cstr (text t.table) = text t.table := by cases t <;> decide
  have hword : IsWord (text t.table) := isWord_of_isLetter (by cases t <;> decide) (by cases t <;> decide +kernel)
  have hblank : text " where 1=1" = 0x20 :: text "where 1=1" := rfl
  have htable := lex_word hword (c := 0x20) (by decide) (text "where 1=1" ++ tailText fs)
  have hwhere : lex (0x20 :: (text "where 1=1" ++ tailText fs)) =
      .word (text "where") :: .number (text "1") :: .equals :: .number (text "1") ::
        lex (tailText fs) := by
    obtain ⟨b, r, htail, hb⟩ := tailText_head fs
    rw [htail]
    rcases hb with rfl | rfl <;> rfl
  rw [hcstr, hblank, List.cons_append, htable, hwhere]

theorem readSql_sqlText (v : Verb) (verb : String) (ts : List Token)
    (hlex : ∀ s, lex (text verb ++ s) = ts ++ lex s)
    (hread : ∀ us, readStatement isColumn (ts ++ .word (text t.table) :: .word (text "where") :: us) =
      (readCondition (isColumn (text t.table)) us).map (⟨v, text t.table, ·⟩))
    (fs : List ColumnFilter) :
    readSql isColumn (sqlText (headText verb (text t.table)) fs) =
      (readRest (isColumn (text t.table)) none none one (lex (tailText fs))).map
        (⟨v, text t.table, ·⟩) := by
  have happ : sqlText (headText verb (text t.table)) fs =
      text verb ++ (cstr (text t.table) ++ (text " where 1=1" ++ tailText fs)) := by
    rw [sqlText, headText, tailText]
    simp only [List.append_assoc]
  rw [readSql, happ, hlex, lex_table, hread]
  rfl

theorem readSql_queryText (beyond : CInt → Str) (fs : List ColumnFilter) :
    readSql isColumn (queryText beyond t.toInt fs) =
      (readRest (isColumn (text t.table)) none none one (lex (tailText fs))).map
        (⟨.select, text t.table, ·⟩) := by
  rw [queryText, tableName_toInt]
  exact readSql_sqlText .select _ [.word (text "select"), .star, .word (text "from")]
    (fun _ => rfl) (fun _ => rfl) fs

theorem readSql_deleteText (beyond : CInt → Str) (fs : List ColumnFilter) :
    readSql isColumn (deleteText beyond t.toInt fs) =
      (readRest (isColumn (text t.table)) none none one (lex (tailText fs))).map
        (⟨.delete, text t.table, ·⟩) := by
  rw [deleteText, tableName_toInt]
  exact readSql_sqlText .delete _ [.word (text "delete"), .word (text "from")]
    (fun _ => rfl) (fun _ => rfl) fs

/-- **The texts made of a list of filters are read as the conjunction of its tests exactly when every
value is plain.** -/
theorem readsBack_iff (fs : List (FittingFilter t)) :
    ReadsBack t fs ↔ ∀ f ∈ fs, Plain t f.ColVal := by
  have htail := readRest_tailText fs none one
  have hconj : conjunction (fs.map (·.toColumnFilter)) =
      (joined .and none one).ands (fs.map (·.test)) := by
    rw [conjunction, List.map_map]
    rfl
  have hinj (v : Verb) : Function.Injective (Statement.mk v (text t.table)) := fun _ _ h => by
    cases h
    rfl
  rw [← htail, ← hconj]
  constructor
  · intro h
    have hq := (h fun _ => []).1
    rw [readSql_queryText, Option.map_eq_some_iff] at hq
    obtain ⟨e, he, hst⟩ := hq
    rw [he, hinj .select hst]
  · intro h beyond
    rw [readSql_queryText, readSql_deleteText, h]
    exact ⟨rfl, rfl⟩

theorem ReadsBack.picks {fs : List (FittingFilter t)} (h : ReadsBack t fs) (beyond : CInt → Str)
    {st : Statement} (hst : readSql isColumn (queryText beyond t.toInt (fs.map (·.toColumnFilter))) =
      some st ∨ readSql isColumn (deleteText beyond t.toInt (fs.map (·.toColumnFilter))) = some st)
    {V : Type} (M : Meaning V) :
    st.cond.picks M = fs.all fun f => M.holds (M.eq (M.column f.ColName) (M.literal f.ColVal)) := by
  have hcond : st.cond = conjunction (fs.map (·.toColumnFilter)) := by
    obtain ⟨hq, hd⟩ := h beyond
    rcases hst with hst | hst
    · rw [hq] at hst
      cases hst
      rfl
    · rw [hd] at hst
      cases hst
      rfl
  rw [hcond, picks_conjunction, List.all_map]
  rfl

end

/-! ## A value that is read as more than a value -/

/-- `ManagerName` is to be `x" or "1"="1`. -/
def orFilter : FittingFilter .TManageUser where
  ColName := text "ManagerName"
  ColVal := text "x\" or \"1\"=\"1"
  column := by decide
  fits := by decide

/-- The deletion by this filter is read as one that takes every row of the table. -/
theorem orFilter_not_readsBack :
    ¬ ReadsBack .TManageUser [orFilter] ∧
      ∃ st, readSql isColumn (deleteText (fun _ => []) EElementType.TManageUser.toInt
          [orFilter.toColumnFilter]) = some st ∧
        ∀ (V : Type) (M : Meaning V), st.cond.picks M = true := by
  have hread : readSql isColumn (deleteText (fun _ => []) EElementType.TManageUser.toInt
      [orFilter.toColumnFilter]) = some ⟨.delete, text "ManageUser",
        .or (.and one (.eq (.column (text "ManagerName")) (.literal (text "x"))))
          (.eq (.literal (text "1")) (.literal (text "1")))⟩ := by
    decide +kernel
  refine ⟨fun h => ?_, _, hread, fun V M => ?_⟩
  · have hconj := (h fun _ => []).2
    rw [List.map_singleton, hread] at hconj
    exact absurd hconj (by decide)
  · have hone := M.holds_eq_literal (text "1")
    rw [Expr.picks, Expr.value, M.holds_or, Expr.value, Expr.value, hone, Bool.or_true]

end CppLinuxLearn.Deployer
