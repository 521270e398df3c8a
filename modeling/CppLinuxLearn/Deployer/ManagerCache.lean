import CppLinuxLearn.Deployer.ManagerNames

/-!
# The manager cache

`m_setManagerCache` against the table `ManageUser`, over every interleaving. A task stores the flag
between its database operation and its answer, and the poll thread resets the flag before it reads the
table. So a refresh is due, or the cache is what the table holds, as long as every task that changes
the table stores the flag. `InsertByVector` begins no transaction: an insertion that fails midway
leaves the rows before the failing one, and stores no flag.
-/

namespace CppLinuxLearn.Deployer

open Lib Multipart Steps

/-- The thread has changed the managers and has yet to store the flag. -/
def Worker.willStore (x : Worker) : Bool :=
  match x.stage with
  | .executed res _ => x.task.op.changesManagers && decide (0 ≤ res)
  | .addressed _ stores => x.task.op.changesManagers && stores
  | _ => false

theorem Worker.busy_of_willStore {x : Worker} (h : x.willStore = true) :
    x.busy = true ∧ x.task.op.changesManagers = true := by
  obtain ⟨task, stage⟩ := x
  cases stage with
  | executed res qryObjs => exact ⟨rfl, (Bool.and_eq_true_iff.1 h).1⟩
  | addressed frames stores => exact ⟨rfl, (Bool.and_eq_true_iff.1 h).1⟩
  | _ => cases h

/-- The thread has come back from a deletion of managers, without an error. -/
def Worker.hasDeleted (x : Worker) : Bool :=
  match x.stage with
  | .executed res _ => x.task.op.deletesManagers && decide (0 ≤ res)
  | _ => false

/-- The answer has been passed on to the client. -/
def Worker.isRelayed (x : Worker) : Bool :=
  match x.stage with
  | .relayed => true
  | _ => false

theorem Worker.willStore_of_hasDeleted {x : Worker} (h : x.hasDeleted = true) : x.willStore = true := by
  obtain ⟨task, stage⟩ := x
  cases stage with
  | executed res qryObjs =>
    obtain ⟨hop, hres⟩ := Bool.and_eq_true_iff.1 h
    exact Bool.and_eq_true_iff.2 ⟨TaskOp.changesManagers_of_deletes hop, hres⟩
  | _ => cases h

theorem Worker.willStore_of_isRelayed {x : Worker} (h : x.isRelayed = true) : x.willStore = false := by
  obtain ⟨task, stage⟩ := x
  cases stage with
  | relayed => rfl
  | _ => cases h

theorem TaskOp.storesCache_eq (op : TaskOp) (r : DbResult op.type) :
    op.storesCache r = (op.changesManagers && decide (0 ≤ r.res)) := by
  cases op with
  | onQryBySql => rfl
  | onDelBySql => exact Bool.decide_and _ _
  | onByObjects => exact Bool.decide_and _ _

namespace Live

/-- The poll thread is in `updManagerCache`. -/
def refreshing (s : Live) : Bool :=
  match s.pc with
  | .query | .replace _ => true
  | _ => false

/-- What the cache will be once the poll thread is out of `updManagerCache`. -/
def coming (w : World) (s : Live) : List Str :=
  match s.pc with
  | .query => w.names s.db
  | .replace vc => vc.map fun m => cstr (bytes m.ManagerName)
  | _ => s.svc.setManagerCache

/-- The poll thread will read the table again. -/
def RefreshDue (s : Live) : Prop :=
  s.svc.bUpdManagerCache = true ∨ ∃ (i : Nat) (x : Worker), s.workers[i]? = some x ∧ x.willStore = true

/-! ## A step -/

section
variable {w : World} {s t : Live} {a : LiveAction}

theorem coming_of_pc (h : s.refreshing = false) : s.coming w = s.svc.setManagerCache := by
  unfold refreshing at h
  unfold coming
  cases hpc : s.pc <;> rw [hpc] at h <;> first | rfl | cases h

theorem coming_query (h : s.pc = .query) : s.coming w = w.names s.db := by
  rw [coming, h]

theorem coming_replace {vc : List ManageUser} (h : s.pc = .replace vc) :
    s.coming w = vc.map fun m => cstr (bytes m.ManagerName) := by
  rw [coming, h]

theorem coming_congr (hpc : t.pc = s.pc) (hdb : s.pc = .query → t.db = s.db)
    (hcache : t.svc.setManagerCache = s.svc.setManagerCache) : t.coming w = s.coming w := by
  unfold coming
  rw [hpc, hcache]
  cases h : s.pc with
  | query => exact congrArg w.names (hdb h)
  | _ => rfl

theorem getElem?_setStage_ne {i k : Nat} {task : Task} {stage : Stage task.op.type} (h : i ≠ k) :
    (s.setStage i task stage).workers[k]? = s.workers[k]? :=
  List.getElem?_set_ne h

theorem getElem?_setStage_self {i : Nat} {x : Worker} {task : Task} {stage : Stage task.op.type}
    (h : s.workers[i]? = some x) : (s.setStage i task stage).workers[i]? = some ⟨task, stage⟩ :=
  List.getElem?_set_self (List.getElem?_eq_some_iff.1 h).1

theorem step_willStore (h : Stepped w s a t) {k : Nat} {x : Worker} (hk : s.workers[k]? = some x)
    (hx : x.willStore = true) :
    t.svc.bUpdManagerCache = true ∨ ∃ y, t.workers[k]? = some y ∧ y.willStore = true := by
  -- the other threads are where they were, and this one is at none of the stages that are left
  have hother : ∀ {i : Nat} {task : Task} {stage stage' : Stage task.op.type},
      s.workers[i]? = some ⟨task, stage⟩ → (Worker.willStore ⟨task, stage⟩ = true →
        Worker.willStore ⟨task, stage'⟩ = true) →
      ∃ y, (s.setStage i task stage').workers[k]? = some y ∧ y.willStore = true := by
    intro i task stage stage' hi hkept
    by_cases hik : i = k
    · subst hik
      obtain rfl := Option.some.inj (hi.symm.trans hk)
      exact ⟨_, getElem?_setStage_self hi, hkept hx⟩
    · exact ⟨x, (getElem?_setStage_ne hik).trans hk, hx⟩
  cases h with
  | checkSet | checkUnset | query | replace | timer | noRelay | handle | handleStop | noHandle =>
    exact .inr ⟨x, hk, hx⟩
  | take hque hfree => exact .inr ⟨x, (List.getElem?_append_left (List.getElem?_eq_some_iff.1 hk).1).trans hk, hx⟩
  | relay hpc hw => exact .inr (hother hw nofun)
  | exec hw hexec => exact .inr (hother hw nofun)
  | send hw => exact .inr (hother hw nofun)
  | @address i task res qryObjs hw =>
    refine .inr (hother hw fun hstores => ?_)
    obtain ⟨hop, hres⟩ := Bool.and_eq_true_iff.1 hstores
    have hcache : task.op.storesCache ⟨res, qryObjs, s.sqlite_error_msg i⟩ = true := by
      rw [TaskOp.storesCache_eq, hop]
      exact hres
    exact Bool.and_eq_true_iff.2 ⟨hop, hcache⟩
  | @store i task frames stores hw =>
    by_cases hik : i = k
    · subst hik
      obtain rfl := Option.some.inj (hw.symm.trans hk)
      refine .inl ?_
      change (s.svc.bUpdManagerCache || stores) = true
      rw [(Bool.and_eq_true_iff.1 hx).2, Bool.or_true]
    · exact .inr ⟨x, (getElem?_setStage_ne hik).trans hk, hx⟩

/-- What a step does to the cache and the table. -/
inductive CacheStep (w : World) (s : Live) : LiveAction → Live → Prop
  | same {a : LiveAction} {t : Live} (hdb : t.db = s.db) (hcoming : ∀ u, u ∈ t.coming w ↔ u ∈ s.coming w)
    (hflag : s.svc.bUpdManagerCache = true → t.svc.bUpdManagerCache = true) : CacheStep w s a t
  /-- the refresh begins -/
  | begun {t : Live} (hdb : t.db = s.db) (hcoming : t.coming w = w.names t.db) : CacheStep w s .check t
  | executed {i : Nat} {q : Sqlite} {t : Live} {task : Task} (hw : s.workers[i]? = some ⟨task, .taken⟩)
    {x : Executed task.op.type} (hx : task.op.exec w q s.db = some x) (hdb : t.db = x.db)
    (hcoming : t.coming w = w.names t.db ∨ s.pc ≠ .query ∧ t.coming w = s.coming w)
    (hflag : t.svc.bUpdManagerCache = s.svc.bUpdManagerCache)
    (hstage : t.workers[i]? = some ⟨task, .executed x.res x.qryObjs⟩) : CacheStep w s (.exec i q) t

theorem step_cache (h : Stepped w s a t) : CacheStep w s a t := by
  -- a step outside `updManagerCache` that does what the handling of a message may do
  have hoff : ∀ {a : LiveAction} {t : Live}, s.refreshing = false → t.refreshing = false → t.db = s.db →
      Submits s.svc t.svc → CacheStep w s a t := by
    intro a t hs ht hdb hsub
    refine .same hdb (fun u => ?_) hsub.bUpdManagerCache
    rw [coming_of_pc hs, coming_of_pc ht, hsub.setManagerCache]
  -- a step of a worker that leaves the database
  have hworker : ∀ {a : LiveAction} {t : Live}, t.pc = s.pc → t.db = s.db → Submits s.svc t.svc →
      CacheStep w s a t := by
    intro a t hpc hdb hsub
    refine .same hdb (fun u => ?_) hsub.bUpdManagerCache
    rw [coming_congr hpc (fun _ => hdb) hsub.setManagerCache]
  have hidle : ∀ pc, s.pc = pc → (match pc with | .query | .replace _ => true | _ => false) = false →
      s.refreshing = false := by
    rintro pc rfl hpc
    exact hpc
  cases h with
  | checkSet hpc hflag => exact .begun rfl rfl
  | checkUnset hpc hflag => exact hoff (hidle _ hpc rfl) rfl rfl (SameCache.refl _).submits
  | @query hpc vc hvc =>
    refine .same rfl (fun u => ?_) id
    rw [coming_query hpc]
    exact w.managers_names hvc u
  | @replace vc hpc =>
    refine .same rfl (fun u => ?_) id
    rw [coming_replace hpc]
    rfl
  | timer hpc => exact hoff (hidle _ hpc rfl) rfl rfl (sameCache_checkTimer w.toEnv s.svc).submits
  | @relay hpc i dealer task frames hw =>
    exact hoff (hidle _ hpc rfl) rfl rfl (sameCache_relayMsg dealer frames s.svc).submits
  | noRelay hpc => exact hoff (hidle _ hpc rfl) rfl rfl (SameCache.refl _).submits
  | handle hpc hnext hrun => exact hoff (hidle _ hpc rfl) rfl rfl (handled_of_run hrun).submits
  | handleStop hpc hnext hrun => exact hoff (hidle _ hpc rfl) rfl rfl (handled_of_run hrun).submits
  | noHandle hpc => exact hoff (hidle _ hpc rfl) rfl rfl (SameCache.refl _).submits
  | take hque hfree => exact .same rfl (fun _ => .rfl) id
  | @exec i q task hw x hx =>
    refine .executed hw hx rfl ?_ rfl (getElem?_setStage_self hw)
    by_cases hpc : s.pc = .query
    · exact .inl (coming_query hpc)
    · exact .inr ⟨hpc, coming_congr rfl (fun h => absurd h hpc) rfl⟩
  | address hw => exact hworker rfl rfl (SameCache.submits ⟨rfl, rfl, rfl⟩)
  | store hw =>
    refine hworker rfl rfl ⟨rfl, fun hflag => ?_, [], (List.append_nil _).symm⟩
    exact Bool.or_eq_true_iff.2 (.inl hflag)
  | send hw => exact hworker rfl rfl (SameCache.refl _).submits

end

/-! ## Coherence -/

/-- The flag is down, the poll thread is not in `updManagerCache`, and no task that may change the
managers is waiting or running. -/
structure Quiet (s : Live) : Prop where
  polling : s.refreshing = false
  flag : s.svc.bUpdManagerCache = false
  queued : ∀ task ∈ s.svc.queTask, task.op.changesManagers = false
  running : ∀ x ∈ s.workers, x.busy = true → x.task.op.changesManagers = false

/-- In a quiet state the cache holds the names in the table. -/
def Coherent (w : World) (s : Live) : Prop :=
  s.Quiet → ∀ u, u ∈ s.svc.setManagerCache ↔ u ∈ w.names s.db

/-- An insertion of managers fails only when its rows are already named in the table, or while the
table is still to be read again. -/
def ExecClean (w : World) (s : Live) : LiveAction → Prop
  | .exec i q => s.pc = .query ∨ s.RefreshDue ∨
      ∀ task, s.workers[i]? = some ⟨task, .taken⟩ → task.op.FailsClean w.toReader q s.db
  | _ => True

/-- The table is to be read again, or what the cache comes to is what it holds. -/
def Fresh (w : World) (s : Live) : Prop :=
  s.RefreshDue ∨ ∀ u, u ∈ s.coming w ↔ u ∈ w.names s.db

section
variable {w : World} {s t : Live} {a : LiveAction}

theorem Fresh.coherent (h : s.Fresh w) : s.Coherent w := by
  intro hq u
  rcases h with (hflag | ⟨i, x, hi, hx⟩) | hcoming
  · rw [hq.flag] at hflag
    cases hflag
  · obtain ⟨hbusy, hop⟩ := Worker.busy_of_willStore hx
    rw [hq.running x (List.mem_of_getElem? hi) hbusy] at hop
    cases hop
  · rw [← coming_of_pc hq.polling]
    exact hcoming u

theorem refreshDue_step (h : Stepped w s a t)
    (hflag : s.svc.bUpdManagerCache = true → t.svc.bUpdManagerCache = true) (hs : s.RefreshDue) :
    t.RefreshDue := by
  rcases hs with hs | ⟨i, x, hi, hx⟩
  · exact .inl (hflag hs)
  · exact (step_willStore h hi hx).imp_right fun ⟨y, hy, hstores⟩ => ⟨i, y, hy, hstores⟩

theorem Fresh.step (hs : s.Fresh w) (hc : s.ExecClean w a) (h : Stepped w s a t) : t.Fresh w := by
  cases step_cache h with
  | same hdb hcoming hflag =>
    rcases hs with hs | hs
    · exact .inl (refreshDue_step h hflag hs)
    · exact .inr fun u => by rw [hcoming, hdb, hs]
  | begun hdb hcoming => exact .inr fun u => by rw [hcoming]
  | @executed i q t task hw x hx hdb hcoming hflag hstage =>
    rcases hcoming with hcoming | ⟨hpc, hcoming⟩
    · exact .inr fun u => by rw [hcoming]
    by_cases hdue : s.RefreshDue
    · exact .inl (refreshDue_step h (hflag.trans ·) hdue)
    -- the cache comes to what the table held, and the task has left the names as they were or will
    -- store the flag
    have hold : ∀ u, u ∈ t.coming w ↔ u ∈ w.names s.db := by
      rw [hcoming]
      exact hs.resolve_left hdue
    rw [Fresh, hdb]
    cases hop : task.op.changesManagers with
    | false =>
      have hsame := TaskOp.exec_of_not_changesManagers hx hop
      exact .inr fun u => by rw [hold, Reader.names, Reader.names, hsame]
    | true =>
      rcases lt_or_ge x.res 0 with hneg | hpos
      · have hclean := (hc.resolve_left hpc).resolve_left hdue task hw
        exact .inr fun u => by rw [hold, TaskOp.names_of_failed hx hneg hclean]
      · refine .inl (.inr ⟨i, _, hstage, ?_⟩)
        exact Bool.and_eq_true_iff.2 ⟨hop, decide_eq_true hpos⟩

/-- **Coherence**: in every state of every run whose failing insertions of managers leave nothing new,
or fail while the table is still to be read again, the cache holds the names in the table once the
flag is down and no task on the managers is left. -/
theorem coherent_of_run {db : Database} {queue : List Msg} {as : List LiveAction}
    (hm : Meets (Live.step w) (ExecClean w) (init w db queue) as)
    (h : run (Live.step w) (init w db queue) as = some t) : t.Coherent w := by
  have hinit : (init w db queue).Fresh w := .inl (.inl rfl)
  have hfresh : t.Fresh w :=
    run_induction (fun s a t hs hc ht => hs.step hc (step_stepped ht)) hinit hm h
  exact hfresh.coherent

end

/-- `amy` logs in, and inserts `bob` and `cal`. -/
def insertTwo : List Msg :=
  [clientMsg "r1" "amy" .TLogin [bytes (7 : CInt)],
    clientMsg "r1" "amy" .TInsert [bytes (8 : CInt), bytes EElementType.TManageUser.toInt,
      bytes (managerNamed "bob"), bytes (managerNamed "cal")]]

/-- Both messages are handled, and the flag of the insertion is consumed before its task runs. -/
def insertEarly (q : Sqlite) : List LiveAction :=
  [.check, .query, .replace, .timer, .noRelay, .handle, .check, .timer, .noRelay, .handle,
    .check, .query, .replace, .timer, .noRelay, .noHandle, .take, .exec 0 q, .address 0, .store 0, .send 0]

theorem insertEarly_isSome :
    (run (step plainWorld) (init plainWorld (managersNamed ["amy"]) insertTwo)
      (insertEarly allSucceeds)).isSome := by
  decide +kernel

theorem coherent_of_run_insertEarly :
    ((run (step plainWorld) (init plainWorld (managersNamed ["amy"]) insertTwo)
      (insertEarly allSucceeds)).get insertEarly_isSome).Coherent plainWorld := by
  refine coherent_of_run ?_ (Option.some_get insertEarly_isSome).symm
  refine meets_of_forall (fun a ha s => ?_) _
  cases a with
  | exec i q =>
    obtain ⟨-, rfl⟩ : i = 0 ∧ q = allSucceeds := by simpa [insertEarly] using ha
    exact .inr (.inr fun task _ => task.op.failsClean_of_stepOk _ (fun _ => rfl) s.db)
  | _ => trivial

/-- The second of the two rows fails. -/
def secondFails : Sqlite := ⟨true, fun i => i == 0, text "database is locked", fun _ _ => []⟩

theorem insertHalf_isSome :
    (run (step plainWorld) (init plainWorld (managersNamed ["amy"]) insertTwo)
      (insertEarly secondFails)).isSome := by
  decide +kernel

/-- `bob` is in the table, the task is over, and the cache will not learn of it. -/
theorem insertHalf_not_coherent :
    ¬ ((run (step plainWorld) (init plainWorld (managersNamed ["amy"]) insertTwo)
      (insertEarly secondFails)).get insertHalf_isSome).Coherent plainWorld := by
  intro h
  have hbob := (h ⟨by decide +kernel, by decide +kernel, by decide +kernel, by decide +kernel⟩
    (text "bob")).2 (by decide +kernel)
  exact absurd hbob (by decide +kernel)

/-! ## Revocation -/

/-- The action does not bring `u` into the table. -/
def NoInsert (w : World) (u : Str) (s : Live) (a : LiveAction) : Prop :=
  ∀ t, step w s a = some t → u ∈ w.names t.db → u ∈ w.names s.db

/-- The manager is neither in the table nor in what the cache comes to. -/
structure Gone (w : World) (u : Str) (s : Live) : Prop where
  table : u ∉ w.names s.db
  cache : u ∉ s.coming w

section
variable {w : World} {s t : Live} {a : LiveAction} {u : Str}

theorem noInsert_of_not_insertsName (h : ∀ i q task, a = .exec i q → s.workers[i]? = some ⟨task, .taken⟩ →
    ¬ task.op.InsertsName q u) : s.NoInsert w u a := by
  intro t ht hu
  cases step_cache (step_stepped ht) with
  | same hdb => rwa [hdb] at hu
  | begun hdb => rwa [hdb] at hu
  | @executed i q t task hw x hx hdb =>
    rw [hdb] at hu
    exact (TaskOp.names_exec hx u hu).resolve_right (h i q task rfl hw)

theorem flag_or_notMem_step (hs : u ∉ w.names s.db) (hc : s.NoInsert w u a) (h : Live.step w s a = some t)
    (hu : s.svc.bUpdManagerCache = true ∨ u ∉ s.coming w) :
    t.svc.bUpdManagerCache = true ∨ u ∉ t.coming w := by
  have hnames : u ∉ w.names t.db := fun hmem => hs (hc t h hmem)
  cases step_cache (step_stepped h) with
  | same hdb hcoming hflag => exact hu.imp hflag fun hu => by rwa [hcoming]
  | begun hdb hcoming => exact .inr (hcoming ▸ hnames)
  | executed hw hx hdb hcoming hflag hstage =>
    rcases hcoming with hcoming | ⟨-, hcoming⟩
    · exact .inr (hcoming ▸ hnames)
    · exact hu.imp (hflag.trans ·) fun hu => by rwa [hcoming]

theorem Gone.step (hs : s.Gone w u) (hc : s.NoInsert w u a) (h : Live.step w s a = some t) : t.Gone w u := by
  have hnames : u ∉ w.names t.db := fun hmem => hs.table (hc t h hmem)
  refine ⟨hnames, ?_⟩
  cases step_cache (step_stepped h) with
  | same hdb hcoming => rw [hcoming]; exact hs.cache
  | begun hdb hcoming => exact hcoming ▸ hnames
  | executed hw hx hdb hcoming =>
    rcases hcoming with hcoming | ⟨-, hcoming⟩
    · exact hcoming ▸ hnames
    · exact hcoming ▸ hs.cache

theorem gone_of_check (hs : u ∉ w.names s.db) (hu : s.svc.bUpdManagerCache = true ∨ u ∉ s.coming w)
    (h : Stepped w s .check t) : t.Gone w u := by
  cases h with
  | checkSet hpc hflag => exact ⟨hs, hs⟩
  | checkUnset hpc hflag =>
    have hrefreshing : s.refreshing = false := by rw [refreshing, hpc]
    rw [hflag, coming_of_pc hrefreshing] at hu
    exact ⟨hs, hu.resolve_left nofun⟩

theorem gone_of_run {as : List LiveAction} (hs : u ∉ w.names s.db)
    (hu : s.svc.bUpdManagerCache = true ∨ u ∉ s.coming w) (hins : Meets (Live.step w) (NoInsert w u) s as)
    (hcheck : .check ∈ as) (h : run (Live.step w) s as = some t) : t.Gone w u := by
  obtain ⟨before, after, rfl⟩ := List.append_of_mem hcheck
  obtain ⟨s', hs', hrest⟩ := run_append h
  obtain ⟨t', ht', hafter⟩ := run_cons hrest
  obtain ⟨hbefore, hins'⟩ := meets_append hins
  obtain ⟨hnames, hdue⟩ : u ∉ w.names s'.db ∧ (s'.svc.bUpdManagerCache = true ∨ u ∉ s'.coming w) :=
    run_induction (I := fun s => u ∉ w.names s.db ∧ (s.svc.bUpdManagerCache = true ∨ u ∉ s.coming w))
      (fun s a t hs hc ht => ⟨fun hmem => hs.1 (hc t ht hmem), flag_or_notMem_step hs.1 hc ht hs.2⟩)
      ⟨hs, hu⟩ hbefore hs'
  have hgone : t'.Gone w u := gone_of_check hnames hdue (step_stepped ht')
  exact run_induction (fun s a t hs hc ht => hs.step hc ht) hgone
    ((hins' s' hs').2 t' ht') hafter

/-- The thread that has removed `u` stores the flag before its answer is relayed; until then it will,
and after that the flag is up or the refresh has begun. -/
theorem due_of_relayed {as : List LiveAction} {k : Nat} {x : Worker} (hs : u ∉ w.names s.db)
    (hk : s.workers[k]? = some x) (hx : x.willStore = true) (hins : Meets (Live.step w) (NoInsert w u) s as)
    (h : run (Live.step w) s as = some t) (hrelayed : ((t.workers[k]?).any Worker.isRelayed) = true) :
    u ∉ w.names t.db ∧ (t.svc.bUpdManagerCache = true ∨ u ∉ t.coming w) := by
  obtain ⟨hnames, hdue⟩ : u ∉ w.names t.db ∧
      ((∃ x, t.workers[k]? = some x ∧ x.willStore = true) ∨
        (t.svc.bUpdManagerCache = true ∨ u ∉ t.coming w)) := by
    refine run_induction (I := fun s => u ∉ w.names s.db ∧
      ((∃ x, s.workers[k]? = some x ∧ x.willStore = true) ∨
        (s.svc.bUpdManagerCache = true ∨ u ∉ s.coming w))) ?_ ⟨hs, .inl ⟨x, hk, hx⟩⟩ hins h
    rintro s a t ⟨hs, hdue⟩ hc ht
    refine ⟨fun hmem => hs (hc t ht hmem), ?_⟩
    rcases hdue with ⟨x, hx, hxs⟩ | hdue
    · exact (step_willStore (step_stepped ht) hx hxs).symm.imp_right .inl
    · exact .inr (flag_or_notMem_step hs hc ht hdue)
  refine ⟨hnames, hdue.resolve_left fun ⟨y, hy, hstores⟩ => ?_⟩
  obtain ⟨z, hz, hsent⟩ := (Option.any_eq_true _ _).1 hrelayed
  obtain rfl := Option.some.inj (hz.symm.trans hy)
  rw [Worker.willStore_of_isRelayed hsent] at hstores
  cases hstores

end

/-! ### What a message of a manager that is gone does -/

theorem run_dispatch_unknown (env : Env) (r : Str) (cmd : CInt) {u : Str} {s : Service}
    (hu : s.identifyUser u = false) (k : Rcv) :
    ∃ reqid k', (dispatch env r u cmd).run ⟨s, k⟩ =
      .ok () ⟨s.answer r (mkResponse env .TIdentifyErr "Identify Error" reqid cmd), k'⟩ := by
  have hverdict : verdict s r u cmd = .identifyErr := by
    rw [verdict, hu]
    rfl
  obtain ⟨fs, q, o⟩ := k
  rw [run_dispatch, hverdict]
  cases fs with
  | nil => exact ⟨_, _, rfl⟩
  | cons f fs =>
    simp only [rejectIdentity, recvRequestidIfMore, EStateM.run_bind, run_rcvmore, List.isEmpty_cons,
      Bool.not_false, if_true, run_recv_cons, run_copyPod, run_modifyOwn]
    exact ⟨_, _, rfl⟩

/-- Unless the message ends behind its identity and no other follows, it is rejected. -/
theorem run_onReadable_unknown (env : Env) (r : Str) (fs : List Bytes) {u : Str} {s : Service}
    (hu : s.identifyUser u = false) (q : List Msg) (o : List (Bytes × Nat)) :
    (∃ reqid cmd, (final ((onReadable env).run ⟨s, ⟨[], ⟨r, u :: fs⟩ :: q, o⟩⟩)).own =
        s.answer r (mkResponse env .TIdentifyErr "Identify Error" reqid cmd)) ∨
      fs = [] ∧ q = [] ∧ (final ((onReadable env).run ⟨s, ⟨[], ⟨r, u :: fs⟩ :: q, o⟩⟩)).own = s := by
  -- once a frame has come for the command
  have hcmd : ∀ (f : Bytes) (fs : List Bytes) (q : List Msg), ∃ reqid cmd,
      (final ((do
        let cmd ← copyPod env CInt f
        dispatch env r u cmd
        skipRemainMFrame : Rd Service Unit).run ⟨s, ⟨fs, q, o⟩⟩)).own =
        s.answer r (mkResponse env .TIdentifyErr "Identify Error" reqid cmd) := by
    intro f fs q
    obtain ⟨reqid, ⟨fs', q', o'⟩, hrun⟩ := run_dispatch_unknown env r (podAt env CInt f) hu
      ⟨fs, q, o ++ overread CInt f⟩
    refine ⟨reqid, podAt env CInt f, ?_⟩
    simp only [EStateM.run_bind, run_copyPod, hrun, run_skipRemainMFrame]
    rfl
  cases fs with
  | cons f fs => exact .inl (hcmd f fs q)
  | nil =>
    cases q with
    | cons m q => exact .inl (hcmd m.head m.rest q)
    | nil => exact .inr ⟨rfl, rfl, rfl⟩

/-- A message is read from its beginning. -/
def Whole (s : Live) : Prop := s.pc = .halted ∨ s.poll.sock.cur = []

theorem whole_step {w : World} (s : Live) (a : LiveAction) (t : Live) (hs : s.Whole)
    (h : step w s a = some t) : t.Whole := by
  cases step_stepped h with
  | handle hpc hnext hrun => exact .inr (onReadable_cur hrun)
  | handleStop hpc hnext hrun => exact .inl rfl
  | checkSet hpc | checkUnset hpc | query hpc | replace hpc | timer hpc | relay hpc | noRelay hpc
  | noHandle hpc =>
    refine .inr (hs.resolve_left fun hhalted => ?_)
    rw [hpc] at hhalted
    cases hhalted
  | take | exec | address | store | send => exact hs

theorem handle_unknown {w : World} {s t : Live} {r u : Bytes} {fs : List Bytes} {ms : List Msg}
    (hu : s.svc.identifyUser u = false) (hwhole : s.Whole)
    (hmsg : s.poll.sock.next = ⟨r, u :: fs⟩ :: ms) (ht : step w s .handle = some t) :
    (∃ reqid cmd, t.svc =
        s.svc.answer r (mkResponse w.toEnv .TIdentifyErr "Identify Error" reqid cmd)) ∨
      fs = [] ∧ ms = [] ∧ t.svc = s.svc := by
  have hpc : s.pc = .handle := (Option.ite_none_right_eq_some.1 ht).1.1
  obtain ⟨⟨svc, ⟨cur, next, o⟩⟩, pc, db, msg, workers⟩ := s
  obtain rfl : pc = .handle := hpc
  obtain rfl : cur = [] := hwhole.resolve_left nofun
  obtain rfl : next = ⟨r, u :: fs⟩ :: ms := hmsg
  have hown : t.svc =
      (final ((onReadable w.toEnv).run ⟨svc, ⟨[], ⟨r, u :: fs⟩ :: ms, o⟩⟩)).own := by
    cases step_stepped ht with
    | handle _ _ hrun => exact congrArg (fun r => (final r).own) hrun.symm
    | handleStop _ _ hrun => exact congrArg (fun r => (final r).own) hrun.symm
  rw [hown]
  exact run_onReadable_unknown w.toEnv r fs hu ms o

/-- The thread of the `k`-th worker runs a deletion of managers that succeeds and leaves no `u`. -/
structure Deletes (w : World) (u : Str) (k : Nat) (s t : Live) : Prop where
  step : ∃ q, Live.step w s (.exec k q) = some t
  succeeds : ((t.workers[k]?).any Worker.hasDeleted) = true
  gone : u ∉ w.names t.db

/-- The frames tell the router `r` that the identity of its message is not known. -/
def Refuses (r : Str) (frames : List (Bytes × Bool)) : Prop :=
  ∃ rsp : ReqResponse, rsp.ErrorID = EResponseErrType.TIdentifyErr.toInt ∧
    frames = [(r, true), (bytes STCMsgPattern.TPassiveResponse.toInt, true), (bytes rsp, false)]

/-- **Revocation**: when the answer of a deletion that has removed `u` has been relayed and a later
iteration has begun, and nothing has brought `u` into the table again, a message of `u` is rejected: three
frames are sent, and nothing else changes in the service. -/
theorem revoked {w : World} {db : Database} {queue : List Msg} {before during after : List LiveAction}
    {s₀ s₁ s₂ s₃ t : Live} {k : Nat} {u : Str} (h₀ : run (step w) (init w db queue) before = some s₀)
    (hdel : Deletes w u k s₀ s₁) (h₂ : run (step w) s₁ during = some s₂)
    (hrelayed : ((s₂.workers[k]?).any Worker.isRelayed) = true)
    (h₃ : run (step w) s₂ after = some s₃) (hcheck : .check ∈ after)
    (hins : Meets (step w) (NoInsert w u) s₁ (during ++ after)) {r : Bytes} {fs : List Bytes}
    {ms : List Msg} (hmsg : s₃.poll.sock.next = ⟨r, u :: fs⟩ :: ms)
    (ht : step w s₃ .handle = some t) :
    t.svc.queTask = s₃.svc.queTask ∧
      ((∃ frames, Refuses r frames ∧ t.svc = { s₃.svc with sent := s₃.svc.sent ++ frames }) ∨
        fs = [] ∧ ms = [] ∧ t.svc = s₃.svc) := by
  obtain ⟨hduring, hafter⟩ := meets_append hins
  obtain ⟨x, hk, hdeleted⟩ := (Option.any_eq_true _ _).1 hdel.succeeds
  obtain ⟨hnames, hdue⟩ :=
    due_of_relayed hdel.gone hk (Worker.willStore_of_hasDeleted hdeleted) hduring h₂ hrelayed
  have hgone : s₃.Gone w u := gone_of_run hnames hdue (hafter s₂ h₂) hcheck h₃
  have hunknown : s₃.svc.identifyUser u = false := by
    have hpc : s₃.pc = .handle := (Option.ite_none_right_eq_some.1 ht).1.1
    have hcache := hgone.cache
    rw [coming_of_pc (by rw [refreshing, hpc])] at hcache
    exact Bool.eq_false_iff.2 fun h => hcache (List.contains_iff_mem.1 h)
  -- the message is read from its beginning
  obtain ⟨q, hexec⟩ := hdel.step
  have hwhole : s₁.Whole := whole_step s₀ _ s₁ (run_invariant whole_step (.inr rfl) h₀) hexec
  rcases handle_unknown hunknown (run_invariant whole_step (run_invariant whole_step hwhole h₂) h₃) hmsg ht with
    ⟨reqid, cmd, h⟩ | ⟨hfs, hms, h⟩
  · refine ⟨by rw [h]; rfl, .inl ⟨_, ⟨mkResponse w.toEnv .TIdentifyErr "Identify Error" reqid cmd, rfl, rfl⟩, ?_⟩⟩
    rw [h, Service.answer_eq]
  · exact ⟨by rw [h], .inr ⟨hfs, hms, h⟩⟩

/-- `amy` logs in and deletes `bob`, who logs in then. -/
def deleteBob : List Msg :=
  [clientMsg "r1" "amy" .TLogin [bytes (7 : CInt)],
    clientMsg "r1" "amy" .TDelete [bytes (8 : CInt), bytes EElementType.TManageUser.toInt,
      bytes (managerNamed "bob")],
    clientMsg "r2" "bob" .TLogin [bytes (9 : CInt)]]

/-- The task is taken. -/
def bobListed : Option Live :=
  run (step plainWorld) (init plainWorld (managersNamed ["amy", "bob"]) deleteBob)
    [.check, .query, .replace, .timer, .noRelay, .handle, .check, .timer, .noRelay, .handle, .take]

def bobDeleted : Option Live := bobListed.bind (step plainWorld · (.exec 0 allSucceeds))

/-- The answer is relayed with the flag up. -/
def bobRevoked : Option Live :=
  bobDeleted.bind (run (step plainWorld) · [.check, .timer, .address 0, .store 0, .send 0, .relay 0 []])

def bobBack : Option Live :=
  bobRevoked.bind (run (step plainWorld) · [.noHandle, .check, .query, .replace, .timer, .noRelay])

theorem revoked_deleteBob : ∃ s t, bobBack = some s ∧ step plainWorld s .handle = some t ∧
    t.svc.queTask = s.svc.queTask ∧
      ((∃ frames, Refuses (text "r2") frames ∧ t.svc = { s.svc with sent := s.svc.sent ++ frames }) ∨
        [bytes ECommandType.TLogin.toInt, bytes (9 : CInt)] = [] ∧ ([] : List Msg) = [] ∧
          t.svc = s.svc) := by
  have hhandled : bobBack.any (fun s => (step plainWorld s .handle).isSome) = true := by decide +kernel
  obtain ⟨s₃, h₃, hsome⟩ := (Option.any_eq_true _ _).1 hhandled
  obtain ⟨t, ht⟩ := Option.isSome_iff_exists.1 hsome
  refine ⟨s₃, t, h₃, ht, ?_⟩
  obtain ⟨s₂, h₂, hback⟩ := Option.bind_eq_some_iff.1 h₃
  obtain ⟨s₁, h₁, hrevoked⟩ := Option.bind_eq_some_iff.1 h₂
  obtain ⟨s₀, h₀, hdeleted⟩ := Option.bind_eq_some_iff.1 h₁
  -- what is known of the states on the way
  have hdel : bobDeleted.all (fun s => ((s.workers[0]?).any Worker.hasDeleted) &&
      decide (text "bob" ∉ plainWorld.names s.db)) = true := by decide +kernel
  have hsent : bobRevoked.all (fun s => (s.workers[0]?).any Worker.isRelayed) = true := by
    decide +kernel
  have hmsg : bobBack.all (fun s => s.poll.sock.next = [clientMsg "r2" "bob" .TLogin [bytes (9 : CInt)]]) =
      true := by decide +kernel
  rw [h₁, Option.all_some, Bool.and_eq_true] at hdel
  rw [h₂] at hsent
  rw [h₃] at hmsg
  refine revoked h₀ ⟨⟨allSucceeds, hdeleted⟩, hdel.1, of_decide_eq_true hdel.2⟩ hrevoked hsent hback
    (by simp) (meets_of_forall (fun a ha s => ?_) _) (of_decide_eq_true hmsg) ht
  refine noInsert_of_not_insertsName fun i q task h => ?_
  rw [h] at ha
  simp at ha

end Live

end CppLinuxLearn.Deployer
