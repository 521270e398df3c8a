import CppLinuxLearn.Deployer.Order
import CppLinuxLearn.Lib.Linearizable

/-!
# The service as one object

Managers see requests that go in and answers that come out, while the pool runs several tasks at a time.
The history of every run is linearizable: the operations on the database can be put in one order, that of
`m_mtxSqlite`, in which each answer is that of its operation, and an operation whose request was read
after the answer of another had been passed on comes behind it. The error texts are part of this, as each
thread has its own.
-/

namespace CppLinuxLearn.Deployer

open Lib Multipart Steps History

/-! ## The text that an answer has -/

theorem errmsg_call {T : Type} (b : Batch T) (q : Sqlite) (objVec : List T) (db : Database)
    (hres : (b.call q objVec db).res < 0) : (b.call q objVec db).errmsg = some q.errmsg := by
  by_cases hne : objVec.length = 0
  · obtain rfl := List.eq_nil_of_length_eq_zero hne
    have hzero : (b.call q [] db).res = 0 := by
      unfold Batch.call InsertByVector UpdateByVector DeleteByVector autocommitByVector
      split <;> rfl
    omega
  by_cases hvalid : q.isValid b.stmt = true
  · obtain ⟨c, hcall, -⟩ := call_eq_endTransaction b db hne hvalid
    rcases firstFailure_or_ok q objVec.length with ⟨k, hlt, hfail, hok⟩ | hok
    · obtain ⟨hnone, -⟩ := batch_of_failure q b objVec 0 k 0 c hlt (by rwa [Nat.zero_add])
        fun j hj => by rw [Nat.zero_add]; exact hok j hj
      rw [hcall]
      generalize Conn.batch (execute q b.stmt b.bind) 0 objVec 0 c = p at hnone
      obtain ⟨res, c'⟩ := p
      obtain rfl : res = none := hnone
      rfl
    · have hnonneg := (endTransaction_of_ok q b hok (c := c)).1
      rw [← hcall] at hnonneg
      omega
  · unfold Batch.call InsertByVector UpdateByVector DeleteByVector autocommitByVector
    split <;> simp [hvalid, hne]

theorem errmsg_delBySql {w : World} {q : Sqlite} {t : EElementType} {sql : Str} {db : Database}
    (hres : (delBySql w q t sql db).res < 0) : (delBySql w q t sql db).errmsg = some q.errmsg := by
  unfold delBySql at hres ⊢
  grind

theorem rspOp_getD {cmd : ECommandType} {msg : String} {id : CInt} {res : Int} {errmsg : Option Str} {text : Str}
    (h : res < 0 → errmsg = some text) (text' : Str) :
    rspOp cmd msg id res (errmsg.getD text') = rspOp cmd msg id res text := by
  unfold rspOp
  split
  · rename_i hres
    rw [h hres]
    rfl
  · rfl

theorem answer_getD {w : World} {q : Sqlite} {op : TaskOp} {db : Database} {x : Executed op.type}
    (hx : op.exec w q db = some x) (addr : Str) (id : CInt) (text : Str) :
    op.answer addr id ⟨x.res, x.qryObjs, x.errmsg.getD text⟩ =
      op.answer addr id ⟨x.res, x.qryObjs, x.errmsg.getD []⟩ := by
  cases op with
  | onQryBySql t sql eletype =>
    obtain ⟨objs, -, rfl⟩ := Option.map_eq_some_iff.1 hx
    rfl
  | onDelBySql t sql eletype =>
    obtain rfl := Option.some.inj hx
    have hsome : (delBySql w q t sql db).errmsg.isSome = true := by
      unfold delBySql
      grind
    obtain ⟨msg, hmsg⟩ := Option.isSome_iff_exists.1 hsome
    simp only [Called.executed, hmsg, Option.getD_some]
  | onByObjects op t objVec =>
    obtain rfl := Option.some.inj hx
    have herr := errmsg_call (byObjects q op t) q objVec db
    have hsame : ∀ (cmd : ECommandType) (msg : String), onOp cmd msg addr id
        ((byObjects q op t).call q objVec db).res (((byObjects q op t).call q objVec db).errmsg.getD text) =
        onOp cmd msg addr id ((byObjects q op t).call q objVec db).res
          (((byObjects q op t).call q objVec db).errmsg.getD []) := by
      intro cmd msg
      rw [onOp, onOp, rspOp_getD herr, rspOp_getD herr]
    cases op <;> exact hsame _ _

/-! ## The object -/

/-- How an operation went: what SQLite did, and the answer, for a router. -/
structure Result where
  sqlite : Sqlite
  frames : Str → List (Bytes × Bool)

def Task.result (task : Task) (q : Sqlite) (x : Executed task.op.type) : Result :=
  ⟨q, fun addr => task.op.answer addr task.requestId ⟨x.res, x.qryObjs, x.errmsg.getD []⟩⟩

/-- The operation of the task is run on the database. -/
def Task.effect (w : World) (task : Task) (x : Result) (d d' : Database) : Prop :=
  ∃ y, task.op.exec w x.sqlite d = some y ∧ d' = y.db ∧ x = task.result x.sqlite y

/-- The service, one task at a time. -/
def serviceObject (w : World) : Object Task Result (List (Bytes × Bool)) Database where
  effect := Task.effect w
  shows _ x v := ∃ addr, v = x.frames addr

namespace Live

/-! ## The history of a run -/

/-- The tasks of requests, numbered from `n` on. -/
def calls : Nat → List Task → List (Ev Task (List (Bytes × Bool)))
  | _, [] => []
  | n, task :: ts => .call n task :: calls (n + 1) ts

/-- The answer that is passed on. -/
def returns (s : Live) : LiveAction → List (Ev Task (List (Bytes × Bool)))
  | .relay i _ =>
    match s.workers[i]? with
    | some ⟨_, .sent frames⟩ => [.ret i frames]
    | _ => []
  | _ => []

/-- What managers see of a run: the requests that become tasks, in the order in which they are read, and
the answers of the tasks. -/
def history (w : World) : Live → List LiveAction → List (Ev Task (List (Bytes × Bool)))
  | _, [] => []
  | s, a :: as =>
    match step w s a with
    | some t =>
      calls s.received.length (t.received.drop s.received.length) ++ returns s a ++ history w t as
    | none => []

/-! ## The order of the operations explains it -/

/-- What a worker has is explained by the operations `lin`; `text` is what its thread has now. -/
def Explained (text : Str) (lin : List (Nat × Task × Result)) (i : Nat) : Worker → Prop
  | ⟨task, .executed res qryObjs⟩ =>
    ∃ x, (i, task, x) ∈ lin ∧ ∀ addr, task.op.answer addr task.requestId ⟨res, qryObjs, text⟩ = x.frames addr
  | ⟨task, .addressed frames _⟩ | ⟨task, .stored frames⟩ | ⟨task, .sent frames⟩ =>
    ∃ x, (i, task, x) ∈ lin ∧ ∃ addr, frames = x.frames addr
  | ⟨_, .taken⟩ | ⟨_, .relayed⟩ => True

/-- The operations `lin` are those that have been run, as `ops` says. -/
structure Linked (w : World) (d : Database) (hist : List (Ev Task (List (Bytes × Bool))))
    (ops : List (Nat × Sqlite)) (lin : List (Nat × Task × Result)) (s : Live) : Prop where
  ops_eq : lin.map (fun e => (e.1, e.2.2.sqlite)) = ops
  linearizes : Linearizes (serviceObject w) d s.db hist lin
  called : ∀ i task, Ev.call i task ∈ hist ↔ s.received[i]? = some task
  ran : ∀ i ∈ lin.map Prod.fst, ∃ x, s.workers[i]? = some x ∧ x.waits = false
  explained : ∀ i x, s.workers[i]? = some x → Explained (s.sqlite_error_msg i) lin i x

section
variable {w : World} {d : Database} {hist : List (Ev Task (List (Bytes × Bool)))} {ops : List (Nat × Sqlite)}
  {lin : List (Nat × Task × Result)} {s t : Live} {a : LiveAction}

theorem Explained.mono {text : Str} {lin' : List (Nat × Task × Result)} (hlin : lin ⊆ lin') {i : Nat} {x : Worker}
    (h : Explained text lin i x) : Explained text lin' i x := by
  obtain ⟨task, stage⟩ := x
  cases stage with
  | taken | relayed => trivial
  | executed res qryObjs =>
    obtain ⟨y, hmem, hframes⟩ := h
    exact ⟨y, hlin hmem, hframes⟩
  | addressed | stored | sent =>
    obtain ⟨y, hmem, hshows⟩ := h
    exact ⟨y, hlin hmem, hshows⟩

theorem Linked.lt_length (hs : Linked w d hist ops lin s) {i : Nat} (hi : i ∈ lin.map Prod.fst) :
    i < s.workers.length := by
  obtain ⟨x, hx, -⟩ := hs.ran i hi
  exact (List.getElem?_eq_some_iff.1 hx).1

theorem received_setStage {s t : Live} {i : Nat} {task : Task} {stage stage' : Stage task.op.type}
    (hw : s.workers[i]? = some ⟨task, stage⟩) (hworkers : t.workers = (s.setStage i task stage').workers)
    (hque : t.svc.queTask = s.svc.queTask) : t.received = s.received := by
  rw [received, hworkers, hque, map_task_setStage hw]
  rfl

theorem mem_calls {n j : Nat} {task : Task} {ts : List Task} :
    Ev.call j task ∈ calls n ts ↔ n ≤ j ∧ ts[j - n]? = some task := by
  induction ts generalizing n with
  | nil => simp [calls]
  | cons task' ts ih =>
    rw [calls, List.mem_cons, ih, Ev.call.injEq]
    rcases Nat.lt_trichotomy j n with hlt | rfl | hgt
    · omega
    · simp [eq_comm]
    · have hpos : j - n = (j - (n + 1)) + 1 := by omega
      rw [hpos, List.getElem?_cons_succ]
      constructor
      · rintro (⟨heq, -⟩ | ⟨-, h⟩)
        · omega
        · exact ⟨by omega, h⟩
      · exact fun h => .inr ⟨hgt, h.2⟩

theorem linearizes_calls {obj : Object Task Result (List (Bytes × Bool)) Database} {d' : Database} {n : Nat}
    (h : Linearizes obj d d' hist lin) (hn : ∀ j task, Ev.call j task ∈ hist → j < n) (ts : List Task) :
    Linearizes obj d d' (hist ++ calls n ts) lin := by
  induction ts generalizing n hist with
  | nil => rwa [calls, List.append_nil]
  | cons task ts ih =>
    have hcall := h.call (fun op hmem => Nat.lt_irrefl n (hn n op hmem)) task
    have hrest := ih (n := n + 1) hcall fun j task' hj => by
      rcases List.mem_append.1 hj with hj | hj
      · exact Nat.lt_succ_of_lt (hn j task' hj)
      · obtain ⟨rfl, -⟩ : j = n ∧ task' = task := by simpa using hj
        exact Nat.lt_succ_self j
    rwa [List.append_assoc] at hrest

theorem Linked.receive (hs : Linked w d hist ops lin s) (hworkers : t.workers = s.workers)
    (hdb : t.db = s.db) (htexts : t.sqlite_error_msg = s.sqlite_error_msg) {ts : List Task}
    (hts : t.received = s.received ++ ts) :
    Linked w d (hist ++ calls s.received.length ts) ops lin t := by
  have hlt : ∀ j task, Ev.call j task ∈ hist → j < s.received.length := by
    intro j task hj
    exact (List.getElem?_eq_some_iff.1 ((hs.called j task).1 hj)).1
  refine ⟨hs.ops_eq, ?_, fun i task => ?_, ?_, fun i x hi => ?_⟩
  · rw [hdb]
    exact linearizes_calls hs.linearizes hlt ts
  · rw [hts, List.mem_append, hs.called, mem_calls]
    rcases Nat.lt_or_ge i s.received.length with hi | hi
    · rw [List.getElem?_append_left hi]
      exact or_iff_left fun h => absurd h.1 (Nat.not_le.2 hi)
    · rw [List.getElem?_append_right hi, and_iff_right hi, List.getElem?_eq_none hi]
      exact or_iff_right nofun
  · rw [hworkers]
    exact hs.ran
  · rw [hworkers] at hi
    rw [htexts]
    exact hs.explained i x hi

theorem Linked.setStage (hs : Linked w d hist ops lin s) {hist' : List (Ev Task (List (Bytes × Bool)))}
    {i : Nat} {task : Task} {stage stage' : Stage task.op.type} (hw : s.workers[i]? = some ⟨task, stage⟩)
    (hworkers : t.workers = (s.setStage i task stage').workers) (hdb : t.db = s.db)
    (htexts : t.sqlite_error_msg = s.sqlite_error_msg) (hreceived : t.received = s.received)
    (hhist : Linearizes (serviceObject w) d s.db hist' lin)
    (hcalls : ∀ j task', Ev.call j task' ∈ hist' ↔ Ev.call j task' ∈ hist)
    (hnew : Explained (s.sqlite_error_msg i) lin i ⟨task, stage'⟩)
    (hwaits : Worker.waits ⟨task, stage'⟩ = false) : Linked w d hist' ops lin t := by
  refine ⟨hs.ops_eq, by rwa [hdb], fun j task' => ?_, fun j hj => ?_, fun j x hj => ?_⟩
  · rw [hcalls, hreceived]
    exact hs.called j task'
  · obtain ⟨x, hx, hran⟩ := hs.ran j hj
    rw [hworkers]
    by_cases hji : j = i
    · subst hji
      refine ⟨_, List.getElem?_set_self (List.getElem?_eq_some_iff.1 hw).1, hwaits⟩
    · refine ⟨x, ?_, hran⟩
      exact (List.getElem?_set_ne (Ne.symm hji)).trans hx
  · rw [hworkers] at hj
    rw [htexts]
    rcases getElem?_setStage hw hj with ⟨rfl, rfl⟩ | ⟨-, hj⟩
    · exact hnew
    · exact hs.explained j x hj

theorem linked_step (hs : Linked w d hist ops lin s) (h : step w s a = some t) :
    ∃ lin', Linked w d
      (hist ++ (calls s.received.length (t.received.drop s.received.length) ++ returns s a))
      (ops ++ execs [a]) lin' t := by
  have hstep := step_stepped h
  obtain ⟨ts, hts, -⟩ := step_received hstep
  have hdrop : t.received.drop s.received.length = ts := by rw [hts, List.drop_left]
  have hquiet : returns s a = [] → execs [a] = [] → t.workers = s.workers → t.db = s.db →
      t.sqlite_error_msg = s.sqlite_error_msg → ∃ lin', Linked w d
        (hist ++ (calls s.received.length (t.received.drop s.received.length) ++ returns s a))
        (ops ++ execs [a]) lin' t := by
    intro hret hops hworkers hdb htexts
    rw [hdrop, hret, hops, List.append_nil, List.append_nil]
    exact ⟨lin, hs.receive hworkers hdb htexts hts⟩
  -- a step of a worker brings no request
  have hnone : t.received = s.received →
      calls s.received.length (t.received.drop s.received.length) = [] := by
    intro heq
    rw [heq, List.drop_length]
    rfl
  have hstay : t.received = s.received → returns s a = [] →
      (∃ lin', Linked w d hist (ops ++ execs [a]) lin' t) → ∃ lin', Linked w d
        (hist ++ (calls s.received.length (t.received.drop s.received.length) ++ returns s a))
        (ops ++ execs [a]) lin' t := by
    intro heq hret hlin
    rwa [hnone heq, hret, List.append_nil, List.append_nil]
  have hops : execs [a] = [] → ops ++ execs [a] = ops := by
    intro hexecs
    rw [hexecs, List.append_nil]
  cases hstep with
  | checkSet | checkUnset | query | replace | timer | noRelay | handle | handleStop | noHandle =>
    exact hquiet rfl rfl rfl rfl rfl
  | @relay hpc i dealer task frames hw =>
    have hreceived := received_setStage (s := s)
      (t := (s.modify (relayMsg dealer frames)).setStage i task .relayed) hw rfl
      (sameCache_relayMsg dealer frames s.svc).queTask
    obtain ⟨x, hmem, hshows⟩ := hs.explained i _ hw
    have hw' : s.workers[i]? = some ⟨task, .sent frames⟩ := hw
    have hret : returns s (.relay i dealer) = [.ret i frames] := by simp only [returns, hw']
    refine ⟨lin, ?_⟩
    rw [hnone hreceived, hret, List.nil_append, hops rfl]
    exact hs.setStage hw rfl rfl rfl hreceived (hs.linearizes.ret hmem hshows)
      (fun j task' => by simp) trivial rfl
  | @take task ts' hque hfree =>
    have hque : s.svc.queTask = task :: ts' := hque
    have hreceived : (s.workers ++ [(⟨task, .taken⟩ : Worker)]).map Worker.task ++ ts' = s.received := by
      rw [received, hque, List.map_append, List.append_assoc]
      rfl
    refine hstay hreceived rfl ⟨lin, hs.ops_eq.trans (hops rfl).symm, hs.linearizes, fun i task' => ?_, fun i hi => ?_,
      fun i x hi => ?_⟩
    · rw [hs.called, ← hreceived]
      rfl
    · obtain ⟨x, hx, hran⟩ := hs.ran i hi
      exact ⟨x, (List.getElem?_append_left (hs.lt_length hi)).trans hx, hran⟩
    · change Explained (s.sqlite_error_msg i) lin i x
      rcases Nat.lt_or_ge i s.workers.length with hlt | hge
      · exact hs.explained i x ((List.getElem?_append_left hlt).symm.trans hi)
      · have hi : (s.workers ++ [⟨task, .taken⟩])[i]? = some x := hi
        rw [List.getElem?_append_right hge, List.getElem?_singleton] at hi
        split at hi
        · obtain rfl := Option.some.inj hi
          trivial
        · cases hi
  | @exec i q task hw x hx =>
    have hreceived := received_setStage (s := s)
      (t := s.setStage i task (.executed x.res x.qryObjs)) hw rfl rfl
    have hlt : i < s.workers.length := (List.getElem?_eq_some_iff.1 hw).1
    -- the task is the `i`-th that was called, and has not been run
    have hcall : Ev.call i task ∈ hist := by
      have hw' : s.workers[i]? = some ⟨task, .taken⟩ := hw
      rw [hs.called, received, List.getElem?_append_left (by simpa using hlt), List.getElem?_map, hw']
      rfl
    have hnot : i ∉ lin.map Prod.fst := by
      intro hmem
      obtain ⟨y, hy, hran⟩ := hs.ran i hmem
      obtain rfl := Option.some.inj (hw.symm.trans hy)
      cases hran
    have heffect : Task.effect w task (task.result q x) s.db x.db := ⟨x, hx, rfl, rfl⟩
    refine hstay hreceived rfl ⟨lin ++ [(i, task, task.result q x)], ?_, hs.linearizes.effect hcall hnot heffect,
      fun j task' => ?_, fun j hj => ?_, fun j y hj => ?_⟩
    · rw [List.map_append, hs.ops_eq]
      rfl
    · rw [hs.called, ← hreceived]
      rfl
    · by_cases hji : j = i
      · subst hji
        exact ⟨_, List.getElem?_set_self hlt, rfl⟩
      · have hold : j ∈ lin.map Prod.fst := by simpa [hji] using hj
        obtain ⟨y, hy, hran⟩ := hs.ran j hold
        exact ⟨y, (List.getElem?_set_ne (Ne.symm hji)).trans hy, hran⟩
    · rcases getElem?_setStage (s := s) hw hj with ⟨rfl, rfl⟩ | ⟨hji, hj⟩
      · refine ⟨_, List.mem_append_right _ (List.mem_singleton_self _), fun addr => ?_⟩
        dsimp only
        rw [Function.update_self]
        exact answer_getD hx addr task.requestId _
      · apply Explained.mono (List.subset_append_left lin _)
        dsimp only
        rw [Function.update_of_ne hji]
        exact hs.explained j y hj
  | @address i task res qryObjs hw =>
    have hreceived := received_setStage (s := s) (t := s.setStage i task (.addressed (task.op.answer
      (s.svc.router task.client) task.requestId ⟨res, qryObjs, s.sqlite_error_msg i⟩)
      (task.op.storesCache ⟨res, qryObjs, s.sqlite_error_msg i⟩))) hw rfl rfl
    obtain ⟨x, hmem, hframes⟩ := hs.explained i _ hw
    rw [hops rfl] at hstay ⊢
    refine hstay hreceived rfl ⟨lin, hs.setStage hw rfl rfl rfl hreceived hs.linearizes (fun _ _ => .rfl)
      ⟨x, hmem, _, hframes _⟩ rfl⟩
  | @store i task frames stores hw =>
    have hreceived := received_setStage (s := s) (t := s.setStage i task (.stored frames)) hw rfl rfl
    have hold := hs.explained i _ hw
    rw [hops rfl] at hstay ⊢
    exact hstay hreceived rfl ⟨lin, hs.setStage hw rfl rfl rfl hreceived hs.linearizes (fun _ _ => .rfl)
      hold rfl⟩
  | @send i task frames hw =>
    have hreceived := received_setStage (s := s) (t := s.setStage i task (.sent frames)) hw rfl rfl
    have hold := hs.explained i _ hw
    rw [hops rfl] at hstay ⊢
    exact hstay hreceived rfl ⟨lin, hs.setStage hw rfl rfl rfl hreceived hs.linearizes (fun _ _ => .rfl)
      hold rfl⟩

theorem linked_run {as : List LiveAction} (hs : Linked w d hist ops lin s) (h : run (Live.step w) s as = some t) :
    ∃ lin', Linked w d (hist ++ history w s as) (ops ++ execs as) lin' t := by
  induction as generalizing s hist ops lin with
  | nil =>
    obtain rfl : s = t := Option.some.inj h
    refine ⟨lin, ?_⟩
    rwa [history, execs, List.append_nil, List.append_nil]
  | cons a as ih =>
    obtain ⟨u, hu, hrest⟩ := run_cons h
    obtain ⟨lin', hlin'⟩ := linked_step hs hu
    obtain ⟨lin'', hlin''⟩ := ih hlin' hrest
    refine ⟨lin'', ?_⟩
    rw [history, hu, execs_cons]
    rwa [List.append_assoc, List.append_assoc ops] at hlin''

theorem linked_init (w : World) (db : Database) (queue : List Msg) :
    Linked w db [] [] [] (init w db queue) := by
  refine ⟨rfl, .nil _ _, ?_, ?_, ?_⟩
  · intro i task
    have hnil : (init w db queue).received = [] := rfl
    simp [hnil]
  · simp
  · intro i x hi
    have hi : (Live.init w db queue).workers[i]? = some x := hi
    rw [getElem?_workers_init] at hi
    cases hi

end

/-! ## A deletion and an insertion -/

/-- The insertion is run first and is the first to be answered. -/
def bothAnswered : List LiveAction :=
  insertFirst ++ [.address 1, .address 0, .store 1, .send 1, .store 0, .send 0, .check, .query, .replace, .timer,
    .relay 1 [], .noHandle, .check, .timer, .relay 0 []]

theorem bothAnswered_isSome : (run (step plainWorld) (init plainWorld (managersNamed ["amy"]) replaceBob)
    bothAnswered).isSome := by
  decide +kernel

def bothDone : Live := Option.get _ bothAnswered_isSome

end Live

end CppLinuxLearn.Deployer
