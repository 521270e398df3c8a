import CppLinuxLearn.Deployer.ManagerNames
import CppLinuxLearn.Deployer.Stepping

/-!
# A refresh of the manager cache that fails

`updManagerCache`: the flag is cleared before the query, the set is emptied before it is filled, and nothing
asks whether the query has succeeded. Where it fails the cache holds the managers of the rows before the
failure, and it is refreshed again only because of a change of the managers.
-/

namespace CppLinuxLearn.Deployer

open Lib Multipart

namespace Query
variable (q : Query)

/-- There is no statement, or its steps end with something else than `SQLITE_DONE`. -/
def Fails : Prop := q.isValid = false ∨ ∃ c, q.endCode = some c ∧ c ≠ SQLITE_DONE

/-- The rows before the end or the failure. -/
def delivered : List Row :=
  if q.isValid then (q.steps.takeWhile fun r => r.code = SQLITE_ROW).map (·.row) else []

end Query

/-- `updManagerCache` with the exchange of the flag before it; `stored` says whether the flag is stored by a
task meanwhile. `none` is undefined behaviour. -/
def refresh (e : Reader) (q : Query) (stored : Bool) (s : Service) : Option Service :=
  (qryDataBySql e (fun _ => q) .TManageUser (text "select * from ManageUser where 1=1")).map fun r =>
    updManagerCache r.qryObjs { s with bUpdManagerCache := stored }

section
variable (env : Env)

/-- The part of an iteration that comes after the refresh. -/
def pollRest (t : Turn) : Rd Service Unit := do
  modifyOwn fun s =>
    match t.inproc with
    | some m => relayInproc m (checkTimer env s)
    | none => checkTimer env s
  if t.readable then onReadable env else return ()

/-- The iteration refreshes the cache. -/
def Iteration.Refreshes (it : Iteration) : Prop := it.1.stored = true ∨ it.2.1.own.bUpdManagerCache = true

/-- Whatever the loop finds after the refresh, it comes to another one. -/
def RefreshesAgain (p : Proc Service) : Prop :=
  ∃ n, ∀ t ts p', (pollRest env t).run p = .ok () p' → n ≤ ts.length →
    ∃ it ∈ iterations env ts p', Iteration.Refreshes it

/-- Who is identified is the same after the refresh, and it is not the last. -/
structure ChangesNothing (s : Service) (p : Proc Service) : Prop where
  identifyUser : ∀ u, p.own.identifyUser u = s.identifyUser u
  again : RefreshesAgain env p

end

/-! ## The names in the cache -/

theorem mem_names_fetchLoop {e : Reader} {steps : List StepResult} {vc : List ManageUser}
    (h : fetchLoop (e.fetch .TManageUser) steps = some vc) (u : Str) :
    u ∈ (vc.map fun m => cstr (bytes m.ManagerName)) ↔
      ∃ r ∈ (steps.takeWhile fun r => r.code = SQLITE_ROW).map (·.row), e.getString r 0 = some u := by
  induction steps generalizing vc with
  | nil => cases h
  | cons r steps ih =>
    rw [fetchLoop] at h
    split at h
    next hrow =>
      obtain ⟨m, hm, h⟩ := Option.bind_eq_some_iff.1 h
      obtain ⟨ms, hms, h⟩ := Option.bind_eq_some_iff.1 h
      obtain rfl := Option.some.inj h
      obtain ⟨name, hname, hm⟩ := Option.bind_eq_some_iff.1 hm
      obtain ⟨passwd, -, hm⟩ := Option.bind_eq_some_iff.1 hm
      obtain rfl := Option.some.inj hm
      have hget := e.field_name hname
      rw [List.takeWhile_cons_of_pos (by simpa using hrow), List.map_cons, List.map_cons, List.mem_cons,
        List.exists_mem_cons_iff, ih hms, hget, Option.some_inj, eq_comm]
    next hrow =>
      obtain rfl := Option.some.inj h
      rw [List.takeWhile_cons_of_neg (by simpa using hrow)]
      simp

theorem names_refresh {e : Reader} {q : Query} {stored : Bool} {s s' : Service}
    (h : refresh e q stored s = some s') : s'.bUpdManagerCache = stored ∧
      ∀ u, u ∈ s'.setManagerCache ↔ ∃ r ∈ q.delivered, e.getString r 0 = some u := by
  obtain ⟨r, hr, rfl⟩ := Option.map_eq_some_iff.1 h
  refine ⟨rfl, fun u => ?_⟩
  rw [qryDataBySql] at hr
  rw [Query.delivered]
  cases hvalid : q.isValid with
  | true =>
    rw [hvalid, if_pos rfl] at hr
    obtain ⟨vc, hvc, rfl⟩ := Option.map_eq_some_iff.1 hr
    exact mem_names_fetchLoop hvc u
  | false =>
    rw [hvalid] at hr
    obtain rfl := Option.some.inj hr
    simp [updManagerCache]

theorem refresh_of_answers (w : World) {q : Sqlite} (hq : q.Answers) (db : Database) (stored : Bool) (s : Service) :
    refresh w.toReader ⟨true, [], q.results (w.scan (db.rows .TManageUser))⟩ stored s =
      (w.managers db).map fun vc => updManagerCache vc { s with bUpdManagerCache := stored } := by
  have hrows := qryRows_eq_fetchLoop w.toReader hq.1 .TManageUser (w.scan (db.rows .TManageUser))
  rw [qryRows, if_pos hq.1] at hrows
  simp only [q.stepped_of_answers hq] at hrows
  rw [refresh, qryDataBySql, if_pos rfl, ← hrows, Option.map_map]
  rfl

/-! ## The iterations after the refresh -/

section
variable {env : Env}

theorem sameCache_beforeMessage (env : Env) (t : Turn) (s : Service) : SameCache s
    (match t.inproc with
    | some m => relayInproc m (checkTimer env s)
    | none => checkTimer env s) := by
  have htimer := sameCache_checkTimer env s
  cases t.inproc with
  | none => exact htimer
  | some m =>
    simp only [relayInproc_eq]
    exact htimer.trans ⟨rfl, rfl, rfl⟩

theorem flag_pollRest {t : Turn} {p p' : Proc Service} {a : Unit} (h : (pollRest env t).run p = .ok a p')
    (hp : p.own.bUpdManagerCache = true) : p'.own.bUpdManagerCache = true := by
  rw [pollRest, EStateM.run_bind, run_modifyOwn] at h
  have hbefore := (sameCache_beforeMessage env t p.own).bUpdManagerCache.trans hp
  cases hread : t.readable with
  | true =>
    simp only [hread, if_true] at h
    have hhandled := handled_of_run h
    exact hhandled.submits.bUpdManagerCache hbefore
  | false =>
    simp only [hread, Bool.false_eq_true, if_false, EStateM.run_pure] at h
    cases h
    exact hbefore

theorem run_pollIter (t : Turn) (p : Proc Service) : (pollIter env t).run p = (pollRest env t).run
    ⟨checkManagerCache t.vc { p.own with bUpdManagerCache := p.own.bUpdManagerCache || t.stored }, p.sock⟩ := rfl

/-- An iteration that finds nothing. -/
def quiet : Turn := ⟨false, [], none, false⟩

theorem run_pollRest_quiet (p : Proc Service) :
    (pollRest env quiet).run p = .ok () ⟨checkTimer env p.own, p.sock⟩ := rfl

theorem run_pollIter_quiet {p : Proc Service} (hp : p.own.bUpdManagerCache = false) :
    (pollIter env quiet).run p = .ok () ⟨checkTimer env p.own, p.sock⟩ := by
  obtain ⟨⟨_, _, flag, _, _, _, _, _, _⟩, k⟩ := p
  obtain rfl : flag = false := hp
  rfl

theorem flag_checkTimer {s : Service} (hs : s.bUpdManagerCache = false) :
    (checkTimer env s).bUpdManagerCache = false :=
  (sameCache_checkTimer env s).bUpdManagerCache.trans hs

theorem not_refreshes_quiet (n : Nat) {p : Proc Service} (hp : p.own.bUpdManagerCache = false) :
    ∀ it ∈ iterations env (List.replicate n quiet) p, ¬ Iteration.Refreshes it := by
  induction n generalizing p with
  | zero => exact List.forall_mem_nil _
  | succ n ih =>
    rw [List.replicate_succ, iterations, run_pollIter_quiet hp, List.forall_mem_cons]
    refine ⟨?_, ih (flag_checkTimer hp)⟩
    rintro (h | h)
    · cases h
    · rw [hp] at h
      cases h

theorem refreshesAgain_iff (env : Env) (p : Proc Service) : RefreshesAgain env p ↔ p.own.bUpdManagerCache = true := by
  constructor
  · rintro ⟨n, hn⟩
    by_contra hflag
    rw [Bool.not_eq_true] at hflag
    obtain ⟨it, hit, hrefresh⟩ := hn quiet (List.replicate n quiet) _ (run_pollRest_quiet p) (by simp)
    exact not_refreshes_quiet n (flag_checkTimer hflag) it hit hrefresh
  · intro hflag
    refine ⟨1, fun t ts p' hrun hlen => ?_⟩
    cases ts with
    | nil => cases hlen
    | cons t' ts => exact ⟨_, List.mem_cons_self, .inr (flag_pollRest hrun hflag)⟩

end

theorem Service.identifyUser_iff (s : Service) (u : Str) : s.identifyUser u = true ↔ u ∈ s.setManagerCache :=
  List.contains_iff_mem

/-- **A refresh that fails.** It leaves those who are identified as they were and is repeated exactly if a
task has stored the flag during it and the rows before the failure name the managers of the cache. -/
theorem failedRefresh_changesNothing_iff (w : World) {q : Query} {stored : Bool} {s s' : Service}
    (h : refresh w.toReader q stored s = some s') (k : Rcv) :
    (q.Fails → ChangesNothing w.toEnv s ⟨s', k⟩) ↔
      (q.Fails → stored = true ∧ ∀ u, u ∈ s.setManagerCache ↔ ∃ r ∈ q.delivered, w.getString r 0 = some u) := by
  obtain ⟨hflag, hnames⟩ := names_refresh h
  refine imp_congr_right fun _ => ?_
  have hagain := refreshesAgain_iff w.toEnv ⟨s', k⟩
  constructor
  · intro hc
    refine ⟨hflag ▸ hagain.1 hc.again, fun u => ?_⟩
    rw [← hnames, ← s.identifyUser_iff, ← s'.identifyUser_iff, hc.identifyUser u]
  · rintro ⟨hstored, hsame⟩
    refine ⟨fun u => ?_, hagain.2 (hflag.trans hstored)⟩
    rw [Bool.eq_iff_iff, Service.identifyUser_iff, Service.identifyUser_iff, hsame, ← hnames]

/-- Amy is in the cache, and the refresh delivers her and then finds the database busy. -/
def amyThenBusy : Query :=
  ⟨true, [], [⟨SQLITE_ROW, EElementType.row .TManageUser (managerNamed "amy")⟩, ⟨SQLITE_BUSY, []⟩]⟩

def knowsAmy : Service := { Service.init plainWorld.toEnv with setManagerCache := [text "amy"] }

theorem isSome_refresh_amyThenBusy :
    (refresh plainWorld.toReader amyThenBusy true knowsAmy).isSome = true := by decide +kernel

theorem failedRefresh_changesNothing_iff_amyThenBusy :
    amyThenBusy.Fails ∧ ChangesNothing plainWorld.toEnv knowsAmy
      ⟨(refresh plainWorld.toReader amyThenBusy true knowsAmy).get isSome_refresh_amyThenBusy, ⟨[], [], []⟩⟩ := by
  have hrefresh := (Option.some_get isSome_refresh_amyThenBusy).symm
  have hfails : amyThenBusy.Fails := .inr ⟨SQLITE_BUSY, by decide, by decide⟩
  refine ⟨hfails, (failedRefresh_changesNothing_iff plainWorld hrefresh _).2 (fun _ => ⟨rfl, fun u => ?_⟩) hfails⟩
  have hrows : amyThenBusy.delivered = [EElementType.row .TManageUser (managerNamed "amy")] := rfl
  have hname : plainWorld.getString (EElementType.row .TManageUser (managerNamed "amy")) 0 = some (text "amy") := by
    decide +kernel
  simp [hrows, hname, knowsAmy, eq_comm]

/-- The database cannot be opened. -/
def unopened : Query := ⟨false, text "unable to open database file", []⟩

/-- Nobody is identified after a refresh without the database. -/
theorem refresh_not_changesNothing :
    ¬ (unopened.Fails → ChangesNothing plainWorld.toEnv knowsAmy
      ⟨(refresh plainWorld.toReader unopened false knowsAmy).get rfl, ⟨[], [], []⟩⟩) :=
  fun h => absurd ((h (.inl rfl)).identifyUser (text "amy")) (by decide +kernel)

end CppLinuxLearn.Deployer
