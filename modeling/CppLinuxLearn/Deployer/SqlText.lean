import CppLinuxLearn.Deployer.CommonStruct

/-!
# The statement text of a query and of a deletion by columns

`onRecvCmd`, cases `TQuery` and `TDelByCol`: the text is put together with `sprintf` in a buffer of
64 bytes, one clause at a time. A text that does not fit is undefined behaviour in the source; here
the whole text is kept and the overflow is a `Fault`.
-/

namespace CppLinuxLearn.Deployer

open Lib

/-- `sizeof(ch)` -/
def chSize : Nat := 64

/-- What the language leaves undefined and the code does not guard against. -/
inductive Fault
  /-- `AllTableNames` is indexed outside its five entries -/
  | tableIndex (eletype : CInt)
  /-- `sprintf` writes more than `sizeof(ch)` bytes -/
  | overflow (s : Str)
deriving DecidableEq, Repr

/-- `StaticDefines::AllTableNames[eletype]`; `beyond` is what lies around the array. -/
def tableName (beyond : CInt → Str) (eletype : CInt) : Str :=
  match AllTableNames[eletype.toNat]? with
  | some s => text s
  | none => beyond eletype

@[simp] theorem tableName_toInt (beyond : CInt → Str) (t : EElementType) :
    tableName beyond t.toInt = text t.table := by
  rw [tableName, allTableNames_toInt]

/-- `sprintf(ch, "<verb>%s where 1=1", table)` -/
def headText (verb : String) (table : Str) : Str := text verb ++ cstr table ++ text " where 1=1"

/-- `sprintf(ch, " and %s=\"%s\"", ColName, ColVal)` -/
def clauseText (f : ColumnFilter) : Str :=
  text " and " ++ cstr f.ColName ++ text "=\"" ++ cstr f.ColVal ++ text "\""

/-- The statement: the head, the clauses in order, and a semicolon. -/
def sqlText (head : Str) (fs : List ColumnFilter) : Str :=
  head ++ fs.flatMap clauseText ++ text ";"

/-- The text built for `TQuery`. -/
def queryText (beyond : CInt → Str) (eletype : CInt) (fs : List ColumnFilter) : Str :=
  sqlText (headText "select * from " (tableName beyond eletype)) fs

/-- The text built for `TDelByCol`. -/
def deleteText (beyond : CInt → Str) (eletype : CInt) (fs : List ColumnFilter) : Str :=
  sqlText (headText "delete from " (tableName beyond eletype)) fs

/-- The text and its terminator fit in the buffer. -/
def Fits (s : Str) : Prop := s.length + 1 ≤ chSize

instance (s : Str) : Decidable (Fits s) := inferInstanceAs (Decidable (_ ≤ _))

/-- What goes wrong while the text is built. -/
def sqlFaults (verb : String) (beyond : CInt → Str) (eletype : CInt) (fs : List ColumnFilter) :
    List Fault :=
  (if eletype.toNat < AllTableNames.length then [] else [.tableIndex eletype]) ++
    ((headText verb (tableName beyond eletype) :: fs.map clauseText).filter fun s => ¬ Fits s).map
      .overflow

end CppLinuxLearn.Deployer
