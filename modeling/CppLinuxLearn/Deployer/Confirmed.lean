import CppLinuxLearn.Deployer.Filters
import CppLinuxLearn.Deployer.Linear
import CppLinuxLearn.Deployer.ManagerNames
import CppLinuxLearn.Deployer.Updates

/-!
# What has been confirmed

A manager that has the answer of its insertion can rely on it: as long as nothing of the table is deleted
or updated, every query that is read after the answer was passed on gives the objects again that pass its
filters, whoever asks, with any number of threads. And what a deletion by filters has taken stays away as
long as nothing is inserted or updated.
-/

namespace CppLinuxLearn.Deployer

open Lib Multipart Steps History

/-- The operation leaves the rows of the table `u` in it. -/
def TaskOp.Keeps (u : EElementType) : TaskOp → Prop
  | .onQryBySql _ _ _ => True
  | .onDelBySql t _ _ => t ≠ u
  | .onByObjects op t _ => op = .ins ∨ t ≠ u

instance (u : EElementType) (op : TaskOp) : Decidable (op.Keeps u) := by
  cases op <;> unfold TaskOp.Keeps <;> infer_instance

theorem rows_exec_byObjects {q : Sqlite} {op : DbOp} {t u : EElementType}
    (hvalid : q.isValid (byObjects q op t).stmt = true) (hu : t ≠ u) (ps : List Value) (db : Database) :
    ((byObjects q op t).stmt.exec ps db).2.rows u = db.rows u := by
  have hset : ∀ rs, (db.setRows t rs).rows u = db.rows u := fun rs => db.rows_setRows_ne rs (Ne.symm hu)
  cases op with
  | ins => cases t <;> exact hset _
  | del => cases t <;> exact hset _
  | upd =>
    have ht := ne_group_of_valid q hvalid
    rw [byObjects, stmt_updByObjects q ht]
    exact hset _

theorem TaskOp.Keeps.exec {w : World} {q : Sqlite} {u : EElementType} {op : TaskOp} (hop : op.Keeps u)
    {db : Database} {x : Executed op.type} (hx : op.exec w q db = some x) : db.rows u ⊆ x.db.rows u := by
  cases op with
  | onQryBySql t sql eletype =>
    obtain ⟨objs, -, rfl⟩ := Option.map_eq_some_iff.1 hx
    exact List.Subset.refl _
  | onDelBySql t sql eletype =>
    obtain rfl := Option.some.inj hx
    change _ ⊆ (delBySql w q t sql db).db.rows u
    rcases delBySql_db w q t sql db with h | ⟨-, p, h⟩
    · rw [h]
      exact List.Subset.refl _
    · rw [h, Database.rows_setRows_ne db _ (Ne.symm hop)]
      exact List.Subset.refl _
  | onByObjects op t objVec =>
    obtain rfl := Option.some.inj hx
    refine call_keeps_of_binds (P := fun d => db.rows u ⊆ d.rows u) (fun j y d hy hb hd => ?_) (List.Subset.refl _)
    by_cases ht : t = u
    · -- an insertion adds a row
      subst ht
      obtain rfl := hop.resolve_right fun h => h rfl
      rw [byObjects, exec_insByObjects, Database.rows_setRows]
      exact List.subset_append_of_subset_left _ hd
    · rwa [rows_exec_byObjects hb.1 ht]

/-- The operation brings no row into the table `u`. -/
def TaskOp.AddsNothing (u : EElementType) : TaskOp → Prop
  | .onQryBySql _ _ _ | .onDelBySql _ _ _ => True
  | .onByObjects op t _ => op = .del ∨ t ≠ u

instance (u : EElementType) (op : TaskOp) : Decidable (op.AddsNothing u) := by
  cases op <;> unfold TaskOp.AddsNothing <;> infer_instance

theorem TaskOp.AddsNothing.exec {w : World} {q : Sqlite} {u : EElementType} {op : TaskOp} (hop : op.AddsNothing u)
    {db : Database} {x : Executed op.type} (hx : op.exec w q db = some x) : x.db.rows u ⊆ db.rows u := by
  cases op with
  | onQryBySql t sql eletype =>
    obtain ⟨objs, -, rfl⟩ := Option.map_eq_some_iff.1 hx
    exact List.Subset.refl _
  | onDelBySql t sql eletype =>
    obtain rfl := Option.some.inj hx
    change (delBySql w q t sql db).db.rows u ⊆ _
    rcases delBySql_db w q t sql db with h | ⟨-, p, h⟩
    · rw [h]
      exact List.Subset.refl _
    · rw [h]
      by_cases ht : u = t
      · subst ht
        rw [Database.rows_setRows]
        exact List.filter_sublist.subset
      · rw [Database.rows_setRows_ne db _ ht]
        exact List.Subset.refl _
  | onByObjects op t objVec =>
    obtain rfl := Option.some.inj hx
    refine call_keeps_of_binds (P := fun d => d.rows u ⊆ db.rows u) (fun j y d hy hb hd => ?_) (List.Subset.refl _)
    by_cases ht : t = u
    · -- a deletion filters the rows
      subst ht
      obtain rfl := hop.resolve_right fun h => h rfl
      refine List.Subset.trans ?_ hd
      rw [byObjects]
      cases t <;> exact List.filter_sublist.subset
    · rwa [rows_exec_byObjects hb.1 ht]

theorem res_nonneg_of_success {msg msg' : String} {id : CInt} {res : Int} {err : Str} {cmd : ECommandType}
    (h : rspOp cmd msg id res err = rspSuccess msg' id cmd) : 0 ≤ res := by
  by_contra hneg
  rw [rspOp, if_pos (by omega)] at h
  have hcode : EResponseErrType.TDbError.toInt = EResponseErrType.TSuccess.toInt := congrArg ReqResponse.ErrorID h
  exact absurd hcode (by decide)

theorem exists_of_forall₂ {α β : Type} {R : α → β → Prop} {l : List α} {bs : List β} (h : List.Forall₂ R l bs)
    {a : α} (ha : a ∈ l) : ∃ b ∈ bs, R a b := by
  induction h with
  | nil => simp at ha
  | cons hab _ ih =>
    rcases List.mem_cons.1 ha with rfl | ha
    · exact ⟨_, List.mem_cons_self, hab⟩
    · obtain ⟨b, hb, hR⟩ := ih ha
      exact ⟨b, List.mem_cons_of_mem _ hb, hR⟩

namespace Live

/-- The answer says that the command succeeded. -/
def Confirms (cmd : ECommandType) (msg : String) (id : CInt) (frames : List (Bytes × Bool)) : Prop :=
  ∃ router, frames = [(router, true), (bytes STCMsgPattern.TPassiveResponse.toInt, true),
    (bytes (rspSuccess msg id cmd), false)]

theorem Confirms.res {cmd : ECommandType} {msg : String} {id : CInt} {addr : Str} {res : Int} {err : Str}
    (h : Confirms cmd msg id (onOp cmd msg addr id res err)) : 0 ≤ res := by
  obtain ⟨router, hframes⟩ := h
  have hbytes : bytes (rspOp cmd msg id res err) = bytes (rspSuccess msg id cmd) :=
    congrArg (fun fs => (fs.getD 2 ([], true)).1) hframes
  have hrsp := congrArg (ofBytes (T := ReqResponse)) hbytes
  rw [ofBytes_bytes, ofBytes_bytes] at hrsp
  exact res_nonneg_of_success hrsp

section
variable {V : Type} {w : World} {e : Engine V} {t : Live} {db : Database} {queue : List Msg}
  {as : List LiveAction} {i j : Nat} {frames frames' : List (Bytes × Bool)}

/-- A request that is read after another was answered: its operation finds what the other has left, and what the
requests of the run have made of it. -/
theorem read_after (h : run (Live.step w) (init w db queue) as = some t) {task task' : Task}
    (hcall : Ev.call i task ∈ history w (init w db queue) as)
    (hafter : [Ev.ret i frames, Ev.call j task'].Sublist (history w (init w db queue) as))
    (hret : Ev.ret j frames' ∈ history w (init w db queue) as) :
    ∃ q d y addr q' d' y' addr', task.op.exec w q d = some y ∧ frames = (task.result q y).frames addr ∧
      (∀ P : Database → Prop, (∀ task ∈ t.received, ∀ q d x, task.op.exec w q d = some x → P d → P x.db) →
        P y.db → P d') ∧
      (j, q') ∈ execs as ∧ task'.op.exec w q' d' = some y' ∧ frames' = (task'.result q' y').frames addr' := by
  obtain ⟨lin, hlinked⟩ := linked_run (linked_init w db queue) h
  rw [List.nil_append, List.nil_append] at hlinked
  obtain ⟨x, d₁, d₂, es, x', d₃, d₄, ⟨y, hy, rfl, hx⟩, ⟨addr, rfl⟩, hmid, hes, ⟨y', hy', -, hx'⟩, ⟨addr', rfl⟩, hmem⟩ :=
    hlinked.linearizes.between hcall hafter hret
  refine ⟨x.sqlite, d₁, y, addr, x'.sqlite, d₃, y', addr', hy, by rw [← hx], fun P hP hd => ?_, ?_, hy', by rw [← hx']⟩
  · refine hmid.keeps (P := P) (fun op z hz m m' heffect hm => ?_) hd
    obtain ⟨y'', hy'', rfl, -⟩ := heffect
    obtain ⟨k, hk⟩ := hes _ hz
    exact hP op (List.mem_of_getElem? ((hlinked.called k op).1 hk)) _ _ _ hy'' hm
  · rw [← hlinked.ops_eq]
    exact List.mem_map_of_mem hmem

end

/-! ## Two servers -/

def bothManagers : Database :=
  ⟨[EElementType.row .TManageUser (managerNamed "amy"), EElementType.row .TManageUser (managerNamed "bob")],
    [EElementType.row .TServerConfig (server "web" "10.0.0.6" 80)], [], [], []⟩

/-- `amy` logs in and has the frames read, and `bob` logs in and asks for all servers. -/
def thenAskedFor (cmd : ECommandType) (frames : List Bytes) : List Msg :=
  [clientMsg "r1" "amy" .TLogin [bytes (7 : CInt)], clientMsg "r2" "bob" .TLogin [bytes (3 : CInt)],
    clientMsg "r1" "amy" cmd (bytes (8 : CInt) :: bytes EElementType.TServerConfig.toInt :: frames),
    clientMsg "r2" "bob" .TQuery [bytes (4 : CInt), bytes EElementType.TServerConfig.toInt]]

def insertsServer : Live :=
  init plainWorld bothManagers (thenAskedFor .TInsert [bytes (server "db" "10.0.0.7" 22)])

def deletesServer : Live :=
  init plainWorld bothManagers (thenAskedFor .TDelByCol [text "ServerName", text "web"])

/-- The query is read after the answer of the request before it has been passed on. -/
def thenQuery : List LiveAction :=
  [.check, .query, .replace, .timer, .noRelay, .handle, .check, .timer, .noRelay, .handle, .check, .timer, .noRelay,
    .handle, .take, .exec 0 allSucceeds, .address 0, .store 0, .send 0, .check, .timer, .relay 0 [], .handle, .take,
    .exec 1 allSucceeds, .address 1, .store 1, .send 1, .check, .timer, .relay 1 []]

theorem answers_of_thenQuery {j : Nat} (q : Sqlite) (hq : (j, q) ∈ execs thenQuery) : q.Answers := by
  have hexecs : execs thenQuery = [(0, allSucceeds), (1, allSucceeds)] := rfl
  rw [hexecs] at hq
  simp only [List.mem_cons, Prod.mk.injEq, List.not_mem_nil, or_false] at hq
  obtain ⟨-, rfl⟩ | ⟨-, rfl⟩ := hq <;> exact ⟨rfl, fun _ => rfl⟩

/-- What `bob` is answered. -/
def answered (objs : List ServerConfig) : List (Bytes × Bool) :=
  onQryBySql .TServerConfig (text "r2") EElementType.TServerConfig.toInt 4 ⟨0, objs, []⟩

theorem insertsServer_isSome : (run (step plainWorld) insertsServer thenQuery).isSome := by decide +kernel

def serverInserted : Live := Option.get _ insertsServer_isSome

theorem insertsServer_history : history plainWorld insertsServer thenQuery =
    [.call 0 ⟨text "amy", .onByObjects .ins .TServerConfig [server "db" "10.0.0.7" 22], 8, text "r1"⟩,
      .ret 0 (onInsByObjects (text "r1") 8 1 []),
      .call 1 ⟨text "bob", queryOp plainWorld .TServerConfig [], 4, text "r2"⟩,
      .ret 1 (answered [server "web" "10.0.0.6" 80, server "db" "10.0.0.7" 22])] := by
  decide +kernel

theorem insertsServer_keeps : ∀ task ∈ serverInserted.received, task.op.Keeps .TServerConfig := by decide +kernel

theorem deletesServer_isSome : (run (step plainWorld) deletesServer thenQuery).isSome := by decide +kernel

def serverDeleted : Live := Option.get _ deletesServer_isSome

theorem deletesServer_history : history plainWorld deletesServer thenQuery =
    [.call 0 ⟨text "amy", delByColOp plainWorld .TServerConfig [webFilter], 8, text "r1"⟩,
      .ret 0 (onDelBySql (text "r1") 8 1 []),
      .call 1 ⟨text "bob", queryOp plainWorld .TServerConfig [], 4, text "r2"⟩,
      .ret 1 (answered [])] := by
  decide +kernel

theorem deletesServer_adds : ∀ task ∈ serverDeleted.received, task.op.AddsNothing .TServerConfig := by
  decide +kernel

end Live

end CppLinuxLearn.Deployer
