import CppLinuxLearn.Deployer.SqlText

/-!
# The buffer of the statement text

`onRecvCmd`, cases `TQuery` and `TDelByCol`: the head and each clause go through `char ch[64]`, with
no check of their length. `SqlText` has the whole text; here it is built as the code does it, up to the first
`sprintf` that writes behind the buffer.
-/

namespace CppLinuxLearn.Deployer

open Lib

/-- `sprintf(ch, ..)` for the given text; `none` if it writes behind `ch`. -/
def sprintf (ch : CharArray chSize) (s : Str) : Option (CharArray chSize) :=
  if Fits s then some (strcpy ch s) else none

/-- `memset(ch, 0, sizeof(ch))` -/
def zeroed : CharArray chSize := Vector.replicate chSize 0

/-- The loop over the filters, behind the text so far. -/
def addClauses : List ColumnFilter → Str → Option Str
  | [], sql => some sql
  | f :: colFilterVec, sql => do
    let ch ← sprintf zeroed (clauseText f)
    addClauses colFilterVec (sql ++ cstr ch.toList)

/-- The text that `onRecvCmd` puts together. -/
def buildSql (verb : String) (beyond : CInt → Str) (eletype : CInt) (colFilterVec : List ColumnFilter) :
    Option Str := do
  let ch ← sprintf zeroed (headText verb (tableName beyond eletype))
  let sql ← addClauses colFilterVec (cstr ch.toList)
  return sql ++ text ";"

/-- Both texts are built in the buffer, and they are the whole texts. -/
structure Built (beyond : CInt → Str) (t : EElementType) (colFilterVec : List ColumnFilter) : Prop where
  query : buildSql "select * from " beyond t.toInt colFilterVec = some (queryText beyond t.toInt colFilterVec)
  delByCol : buildSql "delete from " beyond t.toInt colFilterVec = some (deleteText beyond t.toInt colFilterVec)

/-! ## One text -/

theorem sprintf_eq_some_iff {s : Str} (hs : (0 : UInt8) ∉ s) (r : Str) :
    (sprintf zeroed s).map (fun ch => cstr ch.toList) = some r ↔ Fits s ∧ r = s := by
  rw [sprintf]
  split
  next hfits =>
    have hcopy : cstr (strcpy zeroed s).toList = s := cstr_strcpy hs hfits
    rw [Option.map_some, hcopy, Option.some_inj, and_iff_right hfits, eq_comm]
  next hfits => simp [hfits]

theorem zero_not_mem_clauseText (f : ColumnFilter) : (0 : UInt8) ∉ clauseText f := by
  have hand : (0 : UInt8) ∉ text " and " := by decide
  have heq : (0 : UInt8) ∉ text "=\"" := by decide
  have hquote : (0 : UInt8) ∉ text "\"" := by decide
  simp only [clauseText, List.mem_append, not_or]
  exact ⟨⟨⟨⟨hand, zero_not_mem_cstr _⟩, heq⟩, zero_not_mem_cstr _⟩, hquote⟩

theorem fits_clauseText_iff (f : ColumnFilter) :
    Fits (clauseText f) ↔ (cstr f.ColName).length + (cstr f.ColVal).length ≤ 55 := by
  have hand : (text " and ").length = 5 := by decide
  have heq : (text "=\"").length = 2 := by decide
  have hquote : (text "\"").length = 1 := by decide
  simp only [Fits, clauseText, List.length_append, hand, heq, hquote, chSize]
  omega

theorem fits_headText {verb : String} (hverb : verb ∈ ["select * from ", "delete from "]) (beyond : CInt → Str)
    (t : EElementType) : Fits (headText verb (tableName beyond t.toInt)) ∧
      (0 : UInt8) ∉ headText verb (tableName beyond t.toInt) := by
  rw [tableName_toInt]
  revert verb
  cases t <;> decide +kernel

/-! ## The whole text -/

theorem addClauses_eq_some_iff (fs : List ColumnFilter) (sql r : Str) :
    addClauses fs sql = some r ↔ (∀ f ∈ fs, Fits (clauseText f)) ∧ r = sql ++ fs.flatMap clauseText := by
  induction fs generalizing sql with
  | nil => simp [addClauses, eq_comm]
  | cons f fs ih =>
    have hch := sprintf_eq_some_iff (zero_not_mem_clauseText f)
    rw [addClauses, List.forall_mem_cons, List.flatMap_cons, ← List.append_assoc]
    cases hput : sprintf zeroed (clauseText f) with
    | none =>
      have hfits : ¬ Fits (clauseText f) := fun h => by simpa [hput] using (hch (clauseText f)).2 ⟨h, rfl⟩
      simp [hfits]
    | some ch =>
      obtain ⟨hfits, htext⟩ := (hch (cstr ch.toList)).1 (congrArg _ hput)
      rw [and_iff_right hfits, ← htext]
      exact ih _

theorem buildSql_eq_some_iff {verb : String} (hverb : verb ∈ ["select * from ", "delete from "])
    (beyond : CInt → Str) (t : EElementType) (fs : List ColumnFilter) :
    buildSql verb beyond t.toInt fs = some (sqlText (headText verb (tableName beyond t.toInt)) fs) ↔
      ∀ f ∈ fs, Fits (clauseText f) := by
  obtain ⟨hfits, hzero⟩ := fits_headText hverb beyond t
  have hcopy : cstr (strcpy zeroed (headText verb (tableName beyond t.toInt))).toList = _ := cstr_strcpy hzero hfits
  have hhead : sprintf zeroed (headText verb (tableName beyond t.toInt)) = some _ := if_pos hfits
  have hclauses := addClauses_eq_some_iff fs (headText verb (tableName beyond t.toInt))
  have hbuild : buildSql verb beyond t.toInt fs =
      (addClauses fs (headText verb (tableName beyond t.toInt))).map (· ++ text ";") := by
    rw [buildSql, hhead, Option.bind_eq_bind, Option.bind_some, hcopy]
    cases addClauses fs (headText verb (tableName beyond t.toInt)) <;> rfl
  rw [hbuild, sqlText, Option.map_eq_some_iff]
  constructor
  · rintro ⟨sql, hsql, -⟩
    exact ((hclauses sql).1 hsql).1
  · exact fun h => ⟨_, (hclauses _).2 ⟨h, rfl⟩, rfl⟩

theorem sqlFaults_eq_nil_iff {verb : String} (hverb : verb ∈ ["select * from ", "delete from "])
    (beyond : CInt → Str) (t : EElementType) (fs : List ColumnFilter) : sqlFaults verb beyond t.toInt fs = [] ↔
      buildSql verb beyond t.toInt fs = some (sqlText (headText verb (tableName beyond t.toInt)) fs) := by
  have hindex : t.toInt.toNat < AllTableNames.length := by cases t <;> decide
  have hhead := (fits_headText hverb beyond t).1
  rw [buildSql_eq_some_iff hverb, sqlFaults, if_pos hindex, List.nil_append, List.map_eq_nil_iff, List.filter_eq_nil_iff,
    List.forall_mem_cons, List.forall_mem_map]
  simpa using fun _ => tableName_toInt beyond t ▸ hhead

/-- **The text is built whole.** Every `sprintf` of a query and of a deletion by columns stays in the buffer,
and the text is the head and one clause for each filter in order, exactly if name and value of each filter
have at most 55 characters together. -/
theorem built_iff (beyond : CInt → Str) (t : EElementType) (colFilterVec : List ColumnFilter) :
    Built beyond t colFilterVec ↔
      ∀ f ∈ colFilterVec, (cstr f.ColName).length + (cstr f.ColVal).length ≤ 55 := by
  have hquery := buildSql_eq_some_iff List.mem_cons_self beyond t colFilterVec
  have hdel := buildSql_eq_some_iff (List.mem_cons_of_mem _ List.mem_cons_self) beyond t colFilterVec
  simp only [fits_clauseText_iff] at hquery hdel
  exact ⟨fun h => hquery.1 h.query, fun h => ⟨hquery.2 h, hdel.2 h⟩⟩

/-- A filter on a directory of 128 characters, half of what its column holds. -/
theorem srcRootDir_not_built : ¬ Built (fun _ => []) .TStrategyConfig
    [⟨text "SrcRootDir", List.replicate 128 0x61⟩] := by
  intro h
  have hnone : buildSql "select * from " (fun _ => []) EElementType.TStrategyConfig.toInt
      [⟨text "SrcRootDir", List.replicate 128 0x61⟩] = none := by decide +kernel
  rw [h.query] at hnone
  cases hnone

end CppLinuxLearn.Deployer
