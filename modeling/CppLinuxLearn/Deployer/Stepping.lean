import CppLinuxLearn.Deployer.Task
import CppLinuxLearn.Deployer.StoreRead

/-!
# A query, step by step

The loop of a query function over the results of `sqlite3_step`. `next()` is true for a row and false for
anything else, so an error ends the loop as the last row does; and the message string that decides on
the response is set only where there is no statement.
-/

namespace CppLinuxLearn.Deployer

open Lib

def SQLITE_ROW : Int := 100
def SQLITE_DONE : Int := 101
def SQLITE_BUSY : Int := 5

/-- What a call of `sqlite3_step` returns, and the row at which the statement then is. -/
structure StepResult where
  code : Int
  row : Row

/-- What SQLite does with the text of a query. -/
structure Query where
  /-- the database opens and there is a statement for the text -/
  isValid : Bool
  /-- `sqlite3_errmsg` if there is none -/
  errmsg : Str
  /-- what the calls of `sqlite3_step` return, one after the other -/
  steps : List StepResult

/-- `while (resultSet.next())`; `none` if the results are used up, or the body is undefined for a row. -/
def fetchLoop {T : Type} (body : Row → Option T) : List StepResult → Option (List T)
  | [] => none
  | r :: rs =>
    if r.code = SQLITE_ROW then do
      let x ← body r.row
      let xs ← fetchLoop body rs
      return x :: xs
    else some []

/-- `qryDataBySql<T>(sql)`: the vector, and the message that `QryBegin` leaves. -/
def qryDataBySql (e : Reader) (sqlite : Str → Query) (t : EElementType) (sql : Str) : Option (DbResult t) :=
  let q := sqlite sql
  if q.isValid then (fetchLoop (e.fetch t) q.steps).map fun objs => ⟨0, objs, []⟩
  else some ⟨0, [], q.errmsg⟩

namespace Query

/-- The code of the first result that is no row. -/
def endCode (q : Query) : Option Int := (q.steps.find? fun r => r.code ≠ SQLITE_ROW).map (·.code)

/-- The response says of a query whether it has delivered every row. -/
structure Honest (q : Query) (rsp : ReqResponse) : Prop where
  success : rsp.ErrorID = EResponseErrType.TSuccess.toInt → q.isValid = true ∧ q.endCode = some SQLITE_DONE
  invalid : q.isValid = false → rsp.ErrorID = EResponseErrType.TDbError.toInt
  failed : q.isValid = true → ∀ c, q.endCode = some c → c ≠ SQLITE_DONE →
    rsp.ErrorID = EResponseErrType.TDbError.toInt

/-- Stepping a statement ends with the last row, and where there is no statement SQLite has a message. -/
def Clean (q : Query) : Prop :=
  if q.isValid then q.endCode = some SQLITE_DONE else q.errmsg ≠ []

instance (q : Query) : Decidable q.Clean :=
  inferInstanceAs (Decidable (if q.isValid then q.endCode = some SQLITE_DONE else q.errmsg ≠ []))

end Query

theorem errorID_rspQry {t : EElementType} (requestId : CInt) (r : DbResult t) :
    (rspQry requestId r).ErrorID =
      if r.sqlite_error_msg = [] then EResponseErrType.TSuccess.toInt else EResponseErrType.TDbError.toInt := by
  rw [rspQry]
  split <;> rfl

/-- **The response to a query says whether every row was delivered exactly if the stepping of its
statement ends with `SQLITE_DONE`, or there is no statement and SQLite has a message.** -/
theorem qryDataBySql_honest_iff {e : Reader} {sqlite : Str → Query} {t : EElementType} {sql : Str}
    (requestId : CInt) {r : DbResult t} (h : qryDataBySql e sqlite t sql = some r) :
    (sqlite sql).Honest (rspQry requestId r) ↔ (sqlite sql).Clean := by
  have hne : EResponseErrType.TSuccess.toInt ≠ EResponseErrType.TDbError.toInt := by decide
  rw [qryDataBySql] at h
  rw [Query.Clean]
  cases hvalid : (sqlite sql).isValid with
  | true =>
    rw [hvalid, if_pos rfl] at h
    obtain ⟨objs, -, rfl⟩ := Option.map_eq_some_iff.1 h
    have hid := errorID_rspQry requestId (⟨0, objs, []⟩ : DbResult t)
    rw [if_pos rfl] at hid ⊢
    constructor
    · exact fun hh => (hh.success hid).2
    · intro hdone
      refine ⟨fun _ => ⟨hvalid, hdone⟩, fun hf => ?_, fun _ c hc hnot => ?_⟩
      · rw [hvalid] at hf
        cases hf
      · exact absurd (Option.some.inj (hc.symm.trans hdone)) hnot
  | false =>
    rw [hvalid] at h
    obtain rfl := Option.some.inj h
    have hid := errorID_rspQry requestId (⟨0, [], (sqlite sql).errmsg⟩ : DbResult t)
    rw [if_neg Bool.false_ne_true]
    constructor
    · intro hh hmsg
      rw [if_pos hmsg, hh.invalid hvalid] at hid
      exact hne hid.symm
    · intro hmsg
      rw [if_neg hmsg] at hid
      refine ⟨fun hs => absurd (hs.symm.trans hid) hne, fun _ => hid, fun hv => ?_⟩
      rw [hvalid] at hv
      cases hv

/-- The servers of a query that comes to its end, and of one that finds the database busy after a row. -/
def serverQuery (code : Int) : Query :=
  ⟨true, [], [⟨SQLITE_ROW, EElementType.row .TServerConfig (server "web" "10.0.0.6" 80)⟩, ⟨code, []⟩]⟩

theorem serverQuery_isSome (code : Int) (h : code ≠ SQLITE_ROW) :
    (qryDataBySql plainEngine.toReader (fun _ => serverQuery code) .TServerConfig
      (selectAll .TServerConfig)).isSome = true := by
  have hfetch : (plainEngine.toReader.fetch .TServerConfig
      (EElementType.row .TServerConfig (server "web" "10.0.0.6" 80))).isSome = true := by decide +kernel
  obtain ⟨x, hx⟩ := Option.isSome_iff_exists.1 hfetch
  have hend : fetchLoop (plainEngine.toReader.fetch .TServerConfig) [⟨code, []⟩] = some [] := if_neg h
  have hloop : fetchLoop (plainEngine.toReader.fetch .TServerConfig) (serverQuery code).steps = some [x] := by
    rw [serverQuery, fetchLoop, if_pos rfl, hx, hend]
    rfl
  rw [qryDataBySql, hloop]
  rfl

theorem qryDataBySql_honest_iff_serverQuery :
    (serverQuery SQLITE_DONE).Honest (rspQry 7 ((qryDataBySql plainEngine.toReader
        (fun _ => serverQuery SQLITE_DONE) .TServerConfig (selectAll .TServerConfig)).get
          (serverQuery_isSome SQLITE_DONE (by decide)))) ↔ (serverQuery SQLITE_DONE).Clean :=
  @qryDataBySql_honest_iff _ (fun _ => serverQuery SQLITE_DONE) _ _ 7 _
    (Option.some_get (serverQuery_isSome SQLITE_DONE (by decide))).symm

example : (serverQuery SQLITE_DONE).Clean := by decide

/-- The first server is delivered and the second is not, and the response is a success. -/
theorem serverQuery_not_honest :
    ¬ (serverQuery SQLITE_BUSY).Honest (rspQry 7 ((qryDataBySql plainEngine.toReader
        (fun _ => serverQuery SQLITE_BUSY) .TServerConfig (selectAll .TServerConfig)).get
          (serverQuery_isSome SQLITE_BUSY (by decide)))) := by
  intro h
  have hend : (serverQuery SQLITE_BUSY).endCode = some SQLITE_BUSY := by decide
  have hfailed := h.failed rfl _ hend (by decide)
  rw [errorID_rspQry] at hfailed
  exact absurd hfailed (by decide +kernel)

/-! ## The results of a statement that may fail -/

/-- What the steps of a statement with the given rows return. -/
def Sqlite.results (q : Sqlite) (rows : List Row) : List StepResult :=
  (rows.zipIdx.map fun p => ⟨if q.stepOk p.2 then SQLITE_ROW else SQLITE_BUSY, p.1⟩) ++
    [⟨if q.stepOk rows.length then SQLITE_DONE else SQLITE_BUSY, []⟩]

theorem fetchLoop_zipIdx {T : Type} (body : Row → Option T) (q : Sqlite) {last : StepResult}
    (hlast : last.code ≠ SQLITE_ROW) (rows : List Row) : ∀ i,
    fetchLoop body (((rows.zipIdx i).map fun p =>
        ⟨if q.stepOk p.2 then SQLITE_ROW else SQLITE_BUSY, p.1⟩) ++ [last]) =
      (((rows.zipIdx i).takeWhile fun p => q.stepOk p.2).map Prod.fst).mapM body := by
  induction rows with
  | nil => exact fun i => if_neg hlast
  | cons r rows ih =>
    intro i
    rw [List.zipIdx_cons, List.map_cons, List.cons_append, fetchLoop]
    cases hok : q.stepOk i with
    | true =>
      rw [List.takeWhile_cons_of_pos (by simpa using hok), List.map_cons, List.mapM_cons, ← ih (i + 1)]
      rfl
    | false =>
      rw [List.takeWhile_cons_of_neg (by simp [hok])]
      exact if_neg (show (if false = true then SQLITE_ROW else SQLITE_BUSY) ≠ SQLITE_ROW by decide)

theorem qryRows_eq_fetchLoop (e : Reader) {q : Sqlite} (hq : q.prepared = true) (t : EElementType)
    (rows : List Row) : qryRows e q t (some rows) = fetchLoop (e.fetch t) (q.results rows) := by
  have hlast : (⟨if q.stepOk rows.length then SQLITE_DONE else SQLITE_BUSY, []⟩ : StepResult).code ≠ SQLITE_ROW := by
    dsimp only
    split <;> decide
  rw [qryRows, if_pos hq]
  exact (fetchLoop_zipIdx (e.fetch t) q hlast rows 0).symm

end CppLinuxLearn.Deployer
