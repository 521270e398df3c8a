import CppLinuxLearn.Lib.Steps
import CppLinuxLearn.Solcom.Connection

/-!
# The clients of the server

`SolConnServer` with any number of clients. The loop accepts, reads, writes, runs its timer and its
idle callback and completes closes, and the threads of the pool run the tasks that reads have queued.
A client is an object of its own: the `i`-th that is made is known by `i`. Tasks, the two write lists,
writes and closes keep pointers to clients, and `hbt_timer_cb` deletes a client that was idle for
long, whoever points to it.
-/

namespace CppLinuxLearn.Solcom

open Lib Steps

def UV_ECANCELED : Int := -125

structure SolConnClient extends RecvState where
  bConnected : Bool
  lastRead : BitVec 64
  lastWrite : BitVec 64
  objKey : Bytes
  /-- the package to be written, and whether there is one -/
  reqBuffer : CByteArray × Bool

/-- How far the work of a task has come: `SolConnClient::postMsg`, which both commands end in. -/
inductive TaskStat
  | queued
  /-- in the loop that waits for `reqBuffer.second` -/
  | waiting
  /-- behind that loop, at the test that returns -1 -/
  | testing
  | setting
  | encoding
  | registering
  | done
deriving DecidableEq, Repr

structure CommandTask where
  client : Nat
  cmd : Option Command
  stat : TaskStat

structure Server where
  /-- all clients that were ever made -/
  clients : List SolConnClient
  /-- those that `hbt_timer_cb` has deleted -/
  deleted : List Nat
  mapConnClient : List (Bytes × Nat)
  listWevent : List Nat
  listWeventBck : List Nat
  bStop : Bool
  /-- the tasks whose `after_work_cb` has not run -/
  tasks : List CommandTask
  /-- calls of `uv_write` whose callback has not run -/
  writes : List Nat
  /-- calls of `uv_close` that have not completed -/
  closing : List Nat
  /-- the thread is in `uv_run` -/
  running : Bool

inductive ServerAction
  | Start
  | Stop
  /-- `accepted` says whether `uv_accept` succeeds; `strKey` is the address of the peer -/
  | connect_cb (accepted : Bool) (strKey : Bytes) (tnow : BitVec 64) (junk junk' : Nat → UInt8)
  | read_cb (i : Nat) (rd : Read) (tnow : BitVec 64)
  /-- `read_cb` with an error -/
  | read_error (i : Nat) (nread : Int)
  | req_write_cb (i : Nat) (status : Int) (tnow : BitVec 64)
  /-- a close completes, after the callbacks of the writes on the handle -/
  | closed (i : Nat)
  | hbt_timer_cb (tnow : BitVec 64)
  | idle_cb
  /-- the `t`-th task goes on in its thread; `msg` is the command it answers with -/
  | work_cb (t : Nat) (msg : ISerializable) (junk : Nat → UInt8)
  | after_work_cb (t : Nat)

namespace Server

/-- `loopFunction` has come to `uv_run`. -/
def new : Server := ⟨[], [], [], [], [], false, [], [], [], true⟩

section
variable (s : Server)

def modifyClient (i : Nat) (f : SolConnClient → SolConnClient) : Server :=
  { s with clients := s.clients.modify i f }

/-- `client->bConnected` -/
def connected (i : Nat) : Bool := (s.clients[i]?).any (·.bConnected)

/-- A handle that is closed is not closed again. -/
def closeClient (i : Nat) : Server :=
  if s.connected i then
    { s.modifyClient i fun c => { c with bConnected := false } with closing := s.closing ++ [i] }
  else s

/-- `closeClient`, one client after the other. -/
def closeAll (is : List Nat) : Server := is.foldl closeClient s

/-! ## The callbacks -/

def connect_cb (accepted : Bool) (strKey : Bytes) (tnow : BitVec 64) (junk junk' : Nat → UInt8) :
    Server :=
  let client : SolConnClient :=
    { RecvState.new junk with
      bConnected := accepted
      lastRead := tnow
      lastWrite := tnow
      objKey := strKey
      reqBuffer := (.new junk' 1424, false) }
  let ptrClient := s.clients.length
  let s := { s with clients := s.clients ++ [client] }
  if accepted then
    -- `insert` leaves an entry that is there
    if (s.mapConnClient.lookup strKey).isSome then s
    else { s with mapConnClient := s.mapConnClient ++ [(strKey, ptrClient)] }
  else { s with closing := s.closing ++ [ptrClient] }

/-- `read_cb` for a read that is no error; a complete body is a task. -/
def read_cb (i : Nat) (rd : Read) (tnow : BitVec 64) : Option Server := do
  let client ← s.clients[i]?
  let p ← Receiver.receive .server client.toRecvState rd
  some { s.modifyClient i fun c => { c with toRecvState := p.1, lastRead := tnow } with
    tasks := s.tasks ++ p.2.map fun o => ⟨i, o.cmd, .queued⟩ }

/-- `read_cb` for an error. -/
def read_error (i : Nat) (nread : Int) : Server := if nread ≠ UV_ECANCELED then s.closeClient i else s

def req_write_cb (i : Nat) (status : Int) (tnow : BitVec 64) : Server :=
  let s := s.modifyClient i fun c => { c with reqBuffer := (c.reqBuffer.1.Init, false) }
  if status < 0 then if status ≠ UV_ECANCELED then s.closeClient i else s
  else s.modifyClient i fun c => { c with lastWrite := tnow }

/-- Both times are too long ago, in unsigned arithmetic. -/
def expired (nowTime : BitVec 64) (i : Nat) : Bool :=
  (s.clients[i]?).any fun c => MAX_IDLE_INTERVAL.toNat < (nowTime - c.lastRead).toNat &&
    MAX_IDLE_INTERVAL.toNat < (nowTime - c.lastWrite).toNat

/-- The loop treats one client after the other, and what it does to one does not concern the next. -/
def hbt_timer_cb (nowTime : BitVec 64) : Server :=
  let gone := (s.mapConnClient.map Prod.snd).filter (s.expired nowTime)
  { s.closeAll gone with
    deleted := s.deleted ++ gone
    mapConnClient := s.mapConnClient.filter fun p => !s.expired nowTime p.2 }

/-- `uv_write`, for a client that is connected. -/
def writeClient (i : Nat) : Server := if s.connected i then { s with writes := s.writes ++ [i] } else s

def writeHandle : Server :=
  let s := { s with listWevent := s.listWeventBck, listWeventBck := s.listWevent }
  let s := s.listWeventBck.foldl writeClient s
  { s with listWeventBck := [] }

def idle_cb : Server :=
  let s := s.writeHandle
  if s.bStop then
    let s := { s with listWevent := [], listWeventBck := [] }
    { s.closeAll (s.mapConnClient.map Prod.snd) with running := false }
  else s

/-! ## The work of a task -/

def setStat (t : Nat) (stat : TaskStat) : Server :=
  { s with tasks := s.tasks.modify t fun task => { task with stat := stat } }

/-- The next step of a task: `work_cb`, and in it `CmdHandle` and `postMsg`. The wait does not end
while `reqBuffer.second` is set. -/
def workStep (t : Nat) (msg : ISerializable) (junk : Nat → UInt8) : Option Server := do
  let task ← s.tasks[t]?
  let client ← s.clients[task.client]?
  match task.stat with
  | .queued => some (s.setStat t (if client.bConnected && !s.bStop then .waiting else .done))
  | .waiting => if client.reqBuffer.2 then none else some (s.setStat t .testing)
  | .testing => some (s.setStat t (if client.reqBuffer.2 then .done else .setting))
  | .setting =>
    some ((s.modifyClient task.client fun c => { c with reqBuffer := (c.reqBuffer.1, true) }).setStat t
      .encoding)
  | .encoding => do
    let byteArr ← encode junk msg 0 .Type_Req client.reqBuffer.1
    some ((s.modifyClient task.client fun c => { c with reqBuffer := (byteArr, c.reqBuffer.2) }).setStat
      t .registering)
  | .registering => some { s.setStat t .done with listWevent := s.listWevent ++ [task.client] }
  | .done => none

end

def step (s : Server) : ServerAction → Option Server
  | .Start => if s.running then none else some { s with bStop := false, running := true }
  | .Stop => some { s with bStop := true }
  | .connect_cb accepted strKey tnow junk junk' =>
    if s.running then some (s.connect_cb accepted strKey tnow junk junk') else none
  | .read_cb i rd tnow =>
    if s.running ∧ s.connected i ∧ (s.clients[i]?).any (fun c => (rd.data.length : Int) ≤ c.alloc_cb.1)
    then s.read_cb i rd tnow else none
  | .read_error i nread => if s.running ∧ s.connected i then some (s.read_error i nread) else none
  | .req_write_cb i status tnow =>
    if i ∈ s.writes then some ({ s with writes := s.writes.erase i }.req_write_cb i status tnow)
    else none
  | .closed i =>
    if i ∈ s.closing ∧ i ∉ s.writes then some { s with closing := s.closing.erase i } else none
  | .hbt_timer_cb tnow => if s.running then some (s.hbt_timer_cb tnow) else none
  | .idle_cb => if s.running then some s.idle_cb else none
  | .work_cb t msg junk => s.workStep t msg junk
  | .after_work_cb t =>
    if s.running ∧ (s.tasks[t]?).any (·.stat = .done) then some { s with tasks := s.tasks.eraseIdx t }
    else none

/-- What a step of a task does, by the state of the task. -/
inductive WorkStep (s : Server) (t : Nat) (msg : ISerializable) (junk : Nat → UInt8) (task : CommandTask)
    (client : SolConnClient) : Server → Prop
  | queued (hstat : task.stat = .queued) :
    WorkStep s t msg junk task client (s.setStat t (if client.bConnected && !s.bStop then .waiting else .done))
  | waiting (hstat : task.stat = .waiting) (hclear : client.reqBuffer.2 = false) :
    WorkStep s t msg junk task client (s.setStat t .testing)
  | testing (hstat : task.stat = .testing) :
    WorkStep s t msg junk task client (s.setStat t (if client.reqBuffer.2 then .done else .setting))
  | setting (hstat : task.stat = .setting) :
    WorkStep s t msg junk task client
      ((s.modifyClient task.client fun c => { c with reqBuffer := (c.reqBuffer.1, true) }).setStat t .encoding)
  | encoding (hstat : task.stat = .encoding) (byteArr : CByteArray)
    (henc : encode junk msg 0 .Type_Req client.reqBuffer.1 = some byteArr) :
    WorkStep s t msg junk task client
      ((s.modifyClient task.client fun c => { c with reqBuffer := (byteArr, c.reqBuffer.2) }).setStat t .registering)
  | registering (hstat : task.stat = .registering) :
    WorkStep s t msg junk task client { s.setStat t .done with listWevent := s.listWevent ++ [task.client] }

theorem workStep_cases {s u : Server} {t : Nat} {msg : ISerializable} {junk : Nat → UInt8}
    (h : s.workStep t msg junk = some u) : ∃ task client, s.tasks[t]? = some task ∧
      s.clients[task.client]? = some client ∧ WorkStep s t msg junk task client u := by
  obtain ⟨task, htask, h⟩ := Option.bind_eq_some_iff.1 h
  obtain ⟨client, hclient, h⟩ := Option.bind_eq_some_iff.1 h
  refine ⟨task, client, htask, hclient, ?_⟩
  cases hstat : task.stat <;> rw [hstat] at h
  case queued =>
    obtain rfl := Option.some.inj h
    exact .queued hstat
  case waiting =>
    obtain ⟨hclear, h⟩ := Option.ite_none_left_eq_some.1 h
    obtain rfl := Option.some.inj h
    exact .waiting hstat (Bool.eq_false_of_not_eq_true hclear)
  case testing =>
    obtain rfl := Option.some.inj h
    exact .testing hstat
  case setting =>
    obtain rfl := Option.some.inj h
    exact .setting hstat
  case encoding =>
    obtain ⟨byteArr, henc, h⟩ := Option.bind_eq_some_iff.1 h
    obtain rfl := Option.some.inj h
    exact .encoding hstat byteArr henc
  case registering =>
    obtain rfl := Option.some.inj h
    exact .registering hstat
  case done => cases h

/-! ## Pointers to clients -/

/-- The clients that unfinished tasks, write lists, writes and closes point to. -/
def refs (s : Server) : List Nat :=
  (s.tasks.filter (·.stat ≠ .done)).map (·.client) ++ s.listWevent ++ s.listWeventBck ++ s.writes ++
    s.closing

/-- No pointer is to a deleted client. -/
def NoDangling (s : Server) : Prop := ∀ i ∈ s.refs, i ∉ s.deleted

/-- What the timer deletes is closed, and nothing points to it. -/
def Released (s : Server) : ServerAction → Prop
  | .hbt_timer_cb tnow => ∀ i ∈ s.mapConnClient.map Prod.snd, s.expired tnow i = true →
    s.connected i = false ∧ i ∉ s.refs
  | _ => True

theorem mem_refs {s : Server} {i : Nat} :
    i ∈ s.refs ↔ (∃ task ∈ s.tasks, task.stat ≠ .done ∧ task.client = i) ∨ i ∈ s.listWevent ∨
      i ∈ s.listWeventBck ∨ i ∈ s.writes ∨ i ∈ s.closing := by
  simp only [refs, List.mem_append, List.mem_map, List.mem_filter, decide_eq_true_eq, or_assoc, and_assoc]

section
variable {s : Server} {i : Nat}

theorem mem_refs_of_task {task : CommandTask} (h : task ∈ s.tasks) (hstat : task.stat ≠ .done) :
    task.client ∈ s.refs := mem_refs.2 (.inl ⟨task, h, hstat, rfl⟩)

theorem mem_refs_of_listWevent (h : i ∈ s.listWevent) : i ∈ s.refs := mem_refs.2 (.inr (.inl h))

theorem mem_refs_of_listWeventBck (h : i ∈ s.listWeventBck) : i ∈ s.refs := mem_refs.2 (.inr (.inr (.inl h)))

theorem mem_refs_of_writes (h : i ∈ s.writes) : i ∈ s.refs := mem_refs.2 (.inr (.inr (.inr (.inl h))))

theorem mem_refs_of_closing (h : i ∈ s.closing) : i ∈ s.refs := mem_refs.2 (.inr (.inr (.inr (.inr h))))

end

/-- The invariant: deleted clients are closed, not in the map, and not pointed to. -/
structure Sound (s : Server) : Prop where
  refs : s.NoDangling
  closed : ∀ i ∈ s.deleted, s.connected i = false
  map : ∀ i ∈ s.mapConnClient.map Prod.snd, i ∉ s.deleted
  lt : ∀ i ∈ s.deleted, i < s.clients.length

theorem sound_new : new.Sound := ⟨nofun, nofun, nofun, nofun⟩

/-- A step that deletes nothing keeps the invariant if its new pointers are to clients that are still
there. -/
theorem Sound.of_le {s t : Server} (h : s.Sound) (hdel : t.deleted = s.deleted)
    (hrefs : ∀ i ∈ t.refs, i ∈ s.refs ∨ i ∉ s.deleted)
    (hconn : ∀ i, i < s.clients.length → t.connected i = true → s.connected i = true)
    (hmap : ∀ i ∈ t.mapConnClient.map Prod.snd, i ∈ s.mapConnClient.map Prod.snd ∨ i ∉ s.deleted)
    (hlen : s.clients.length ≤ t.clients.length) : t.Sound := by
  refine ⟨fun i hi => ?_, ?_, fun i hi => ?_, ?_⟩
  · rw [hdel]
    exact (hrefs i hi).elim (h.refs i) id
  · rw [hdel]
    intro i hi
    by_contra hne
    have := hconn i (h.lt i hi) (by simpa using hne)
    rw [h.closed i hi] at this
    cases this
  · rw [hdel]
    exact (hmap i hi).elim (h.map i) id
  · rw [hdel]
    exact fun i hi => (h.lt i hi).trans_le hlen

theorem Sound.not_mem_of_connected {s : Server} (h : s.Sound) {i : Nat} (hi : s.connected i = true) :
    i ∉ s.deleted := fun hd => by
  rw [h.closed i hd] at hi
  cases hi

/-! ## What the parts of a step change -/

theorem connected_modifyClient (s : Server) (i j : Nat) (f : SolConnClient → SolConnClient) :
    (s.modifyClient i f).connected j =
      if i = j then (s.clients[j]?).any fun c => (f c).bConnected else s.connected j := by
  rw [connected, modifyClient]
  by_cases hij : i = j
  · rw [hij, if_pos rfl, List.getElem?_modify_eq]
    cases s.clients[j]? <;> rfl
  · rw [if_neg hij, List.getElem?_modify_ne f _ hij]
    rfl

theorem connected_modifyClient_of_eq (s : Server) (i j : Nat) {f : SolConnClient → SolConnClient}
    (hf : ∀ c, (f c).bConnected = c.bConnected) : (s.modifyClient i f).connected j = s.connected j := by
  rw [connected_modifyClient]
  simp only [hf]
  exact ite_self _

theorem closeClient_spec (s : Server) (i : Nat) : ∃ clients closing,
    s.closeClient i = { s with clients := clients, closing := closing } ∧
    clients.length = s.clients.length ∧
    (∀ j, (s.closeClient i).connected j = true ↔ s.connected j = true ∧ j ≠ i) ∧
    ∀ j, j ∈ closing ↔ j ∈ s.closing ∨ j = i ∧ s.connected j = true := by
  by_cases hc : s.connected i = true
  · have hclose : s.closeClient i =
        { s.modifyClient i fun c => { c with bConnected := false } with closing := s.closing ++ [i] } :=
      if_pos hc
    refine ⟨_, _, hclose, List.length_modify .., fun j => ?_, fun j => ?_⟩
    · have hmod := connected_modifyClient s i j fun c => { c with bConnected := false }
      have hj : (s.closeClient i).connected j = _ := (congrArg (connected · j) hclose).trans hmod
      rw [hj]
      by_cases hij : i = j
      · rw [if_pos hij]
        cases s.clients[j]? <;> simp [hij]
      · rw [if_neg hij, and_iff_left (Ne.symm hij)]
    · rw [List.mem_append, List.mem_singleton]
      exact or_congr_right ⟨fun hj => ⟨hj, hj ▸ hc⟩, And.left⟩
  · have hclose : s.closeClient i = s := if_neg hc
    have hne : ∀ j, s.connected j = true → j ≠ i := fun j hj hji => hc (hji ▸ hj)
    refine ⟨s.clients, s.closing, hclose, rfl, fun j => ?_, fun j => ?_⟩
    · rw [hclose]
      exact (and_iff_left_of_imp (hne j)).symm
    · exact (or_iff_left fun hj => hne j hj.2 hj.1).symm

theorem closeAll_spec (s : Server) (is : List Nat) : ∃ clients closing,
    s.closeAll is = { s with clients := clients, closing := closing } ∧
    clients.length = s.clients.length ∧
    (∀ j, (s.closeAll is).connected j = true ↔ s.connected j = true ∧ j ∉ is) ∧
    ∀ j, j ∈ closing ↔ j ∈ s.closing ∨ j ∈ is ∧ s.connected j = true := by
  induction is generalizing s with
  | nil => exact ⟨s.clients, s.closing, rfl, rfl, fun j => by simp [closeAll], fun j => by simp⟩
  | cons i is ih =>
    obtain ⟨cl, co, hone, hlen, hconn, hclosing⟩ := closeClient_spec s i
    obtain ⟨cl', co', hall, hlen', hconn', hclosing'⟩ := ih (s.closeClient i)
    have hco : (s.closeClient i).closing = co := by rw [hone]
    refine ⟨cl', co', hall.trans (by rw [hone]), ?_, fun j => ?_, fun j => ?_⟩
    · rw [hlen', hone, hlen]
    · rw [List.mem_cons, not_or, ← and_assoc, ← hconn j]
      exact hconn' j
    · rw [hclosing', hco, hclosing, hconn, List.mem_cons]
      tauto

theorem writeClient_spec (s : Server) (i : Nat) : ∃ writes, s.writeClient i = { s with writes := writes } ∧
    ∀ j ∈ writes, j ∈ s.writes ∨ j = i ∧ s.connected i = true := by
  rw [writeClient]
  split
  next hconn => exact ⟨_, rfl, fun j hj => (List.mem_append.1 hj).imp_right fun hj => ⟨List.mem_singleton.1 hj, hconn⟩⟩
  next => exact ⟨s.writes, rfl, fun j hj => .inl hj⟩

theorem foldl_writeClient (s : Server) (is : List Nat) : ∃ writes,
    is.foldl writeClient s = { s with writes := writes } ∧ ∀ j ∈ writes, j ∈ s.writes ∨ j ∈ is := by
  induction is generalizing s with
  | nil => exact ⟨s.writes, rfl, fun j hj => .inl hj⟩
  | cons i is ih =>
    obtain ⟨ws, hone, hws⟩ := writeClient_spec s i
    obtain ⟨ws', hall, hws'⟩ := ih (s.writeClient i)
    refine ⟨ws', hall.trans (by rw [hone]), fun j hj => ?_⟩
    rcases hws' j hj with hj | hj
    · rw [hone] at hj
      exact (hws j hj).imp_right fun h => List.mem_cons.2 (.inl h.1)
    · exact .inr (List.mem_cons_of_mem i hj)

theorem writeHandle_spec (s : Server) : ∃ writes listWevent,
    s.writeHandle = { s with writes := writes, listWevent := listWevent, listWeventBck := [] } ∧
    (∀ j ∈ writes, j ∈ s.writes ∨ j ∈ s.listWevent) ∧ ∀ j ∈ listWevent, j ∈ s.listWeventBck := by
  obtain ⟨ws, hall, hws⟩ := foldl_writeClient
    { s with listWevent := s.listWeventBck, listWeventBck := s.listWevent } s.listWevent
  refine ⟨ws, s.listWeventBck, ?_, hws, fun j hj => hj⟩
  rw [writeHandle]
  simp only [hall]

theorem mem_setStat {s : Server} {t : Nat} {stat : TaskStat} {task' : CommandTask}
    (h : task' ∈ (s.setStat t stat).tasks) :
    task' ∈ s.tasks ∨ ∃ task, s.tasks[t]? = some task ∧ task'.client = task.client := by
  obtain ⟨n, hn⟩ := List.mem_iff_getElem?.1 h
  by_cases htn : t = n
  · rw [setStat, htn, List.getElem?_modify_eq] at hn
    obtain ⟨task, htask, rfl⟩ := Option.map_eq_some_iff.1 hn
    exact .inr ⟨task, htn ▸ htask, rfl⟩
  · rw [setStat, List.getElem?_modify_ne _ _ htn] at hn
    exact .inl (List.mem_of_getElem? hn)

theorem refs_setStat {s : Server} {t : Nat} {task : CommandTask} (htask : s.tasks[t]? = some task)
    (hstat : task.stat ≠ .done) (stat : TaskStat) : ∀ i ∈ (s.setStat t stat).refs, i ∈ s.refs := by
  intro i hi
  rw [mem_refs] at hi ⊢
  refine hi.imp_left ?_
  rintro ⟨task', hmem, hstat', rfl⟩
  rcases mem_setStat hmem with hmem | ⟨u, hu, hclient⟩
  · exact ⟨task', hmem, hstat', rfl⟩
  · obtain rfl : task = u := Option.some.inj (htask.symm.trans hu)
    exact ⟨task, List.mem_of_getElem? htask, hstat, hclient.symm⟩

theorem refs_closing {s : Server} {clients : List SolConnClient} {closing : List Nat} {j : Nat}
    (hj : j ∈ refs { s with clients := clients, closing := closing }) : j ∈ s.refs ∨ j ∈ closing := by
  rcases mem_refs.1 hj with ⟨task, hmem, hstat, rfl⟩ | hj | hj | hj | hj
  · exact .inl (mem_refs_of_task hmem hstat)
  · exact .inl (mem_refs_of_listWevent hj)
  · exact .inl (mem_refs_of_listWeventBck hj)
  · exact .inl (mem_refs_of_writes hj)
  · exact .inr hj

/-! ## The steps -/

theorem Sound.closeAll {s : Server} (h : s.Sound) {is : List Nat} (his : ∀ i ∈ is, i ∉ s.deleted) :
    (s.closeAll is).Sound := by
  obtain ⟨clients, closing, heq, hlen, hconn, hclosing⟩ := closeAll_spec s is
  refine h.of_le (by rw [heq]) (fun j hj => ?_) (fun j _ hj => ((hconn j).1 hj).1)
    (fun j hj => .inl (by rwa [heq] at hj)) (by rw [heq]; exact hlen.ge)
  rw [heq] at hj
  rcases refs_closing hj with hj | hj
  · exact .inl hj
  · rcases (hclosing j).1 hj with hj | ⟨hj, -⟩
    · exact .inl (mem_refs_of_closing hj)
    · exact .inr (his j hj)

theorem Sound.closeClient {s : Server} (h : s.Sound) {i : Nat} (hi : i ∉ s.deleted) :
    (s.closeClient i).Sound := by
  have his : ∀ j ∈ [i], j ∉ s.deleted := fun _ hj => List.mem_singleton.1 hj ▸ hi
  exact h.closeAll his

theorem Sound.modifyClient {s : Server} (h : s.Sound) (i : Nat) {f : SolConnClient → SolConnClient}
    (hf : ∀ c, (f c).bConnected = c.bConnected) : (s.modifyClient i f).Sound :=
  h.of_le rfl (fun _ hj => .inl hj)
    (fun j _ hj => by rwa [connected_modifyClient_of_eq s i j hf] at hj) (fun _ hj => .inl hj)
    (List.length_modify ..).ge

theorem Sound.of_subset {s : Server} (h : s.Sound) {tasks : List CommandTask} {writes closing : List Nat}
    (htasks : ∀ task ∈ tasks, task ∈ s.tasks) (hwrites : ∀ i ∈ writes, i ∈ s.writes)
    (hclosing : ∀ i ∈ closing, i ∈ s.closing) :
    Sound { s with tasks := tasks, writes := writes, closing := closing } := by
  refine h.of_le rfl (fun j hj => .inl ?_) (fun _ _ hj => hj) (fun _ hj => .inl hj) le_rfl
  rcases mem_refs.1 hj with ⟨task, hmem, hstat, rfl⟩ | hj | hj | hj | hj
  · exact mem_refs_of_task (htasks task hmem) hstat
  · exact mem_refs_of_listWevent hj
  · exact mem_refs_of_listWeventBck hj
  · exact mem_refs_of_writes (hwrites j hj)
  · exact mem_refs_of_closing (hclosing j hj)

theorem Sound.connect_cb {s : Server} (h : s.Sound) (accepted : Bool) (strKey : Bytes) (tnow : BitVec 64)
    (junk junk' : Nat → UInt8) : (s.connect_cb accepted strKey tnow junk junk').Sound := by
  have hnew : s.clients.length ∉ s.deleted := fun hmem => (h.lt _ hmem).false
  have hold : ∀ client : SolConnClient, ∀ i, i < s.clients.length →
      ((s.clients ++ [client])[i]?).any (·.bConnected) = s.connected i := by
    intro client i hi
    rw [List.getElem?_append_left hi, connected]
  have hlen : ∀ client : SolConnClient, s.clients.length ≤ (s.clients ++ [client]).length := by
    intro client
    rw [List.length_append]
    exact Nat.le_add_right ..
  unfold Server.connect_cb
  split
  · dsimp only
    split
    · exact h.of_le rfl (fun _ hj => .inl hj) (fun i hi hc => (hold _ i hi).symm.trans hc)
        (fun _ hj => .inl hj) (hlen _)
    · refine h.of_le rfl (fun _ hj => .inl hj) (fun i hi hc => (hold _ i hi).symm.trans hc)
        (fun j hj => ?_) (hlen _)
      rw [List.map_append, List.mem_append, List.map_singleton, List.mem_singleton] at hj
      rcases hj with hj | rfl
      · exact .inl hj
      · exact .inr hnew
  · refine h.of_le rfl (fun j hj => ?_) (fun i hi hc => (hold _ i hi).symm.trans hc)
      (fun _ hj => .inl hj) (hlen _)
    rcases refs_closing hj with hj | hj
    · exact .inl hj
    · rcases List.mem_append.1 hj with hj | hj
      · exact .inl (mem_refs_of_closing hj)
      · exact .inr (List.mem_singleton.1 hj ▸ hnew)

theorem Sound.read_cb {s t : Server} (h : s.Sound) {i : Nat} {rd : Read} {tnow : BitVec 64}
    (hconn : s.connected i = true) (ht : s.read_cb i rd tnow = some t) : t.Sound := by
  obtain ⟨client, -, ht⟩ := Option.bind_eq_some_iff.1 ht
  obtain ⟨p, -, ht⟩ := Option.bind_eq_some_iff.1 ht
  obtain rfl := Option.some.inj ht
  have hi := h.not_mem_of_connected hconn
  have hmod := h.modifyClient i (f := fun c => { c with toRecvState := p.1, lastRead := tnow })
    fun _ => rfl
  refine hmod.of_le rfl (fun j hj => ?_) (fun _ _ hj => hj) (fun _ hj => .inl hj) le_rfl
  rcases mem_refs.1 hj with ⟨task, hmem, hstat, rfl⟩ | hj
  · rcases List.mem_append.1 hmem with hmem | hmem
    · exact .inl (mem_refs_of_task hmem hstat)
    · obtain ⟨o, -, rfl⟩ := List.mem_map.1 hmem
      exact .inr hi
  · exact .inl (mem_refs.2 (.inr hj))

theorem Sound.req_write_cb {s : Server} (h : s.Sound) {i : Nat} (hi : i ∉ s.deleted) (status : Int)
    (tnow : BitVec 64) : (s.req_write_cb i status tnow).Sound := by
  have hinit := h.modifyClient i
    (f := fun c => { c with reqBuffer := (c.reqBuffer.1.Init, false) }) fun _ => rfl
  unfold Server.req_write_cb
  split
  · split
    · exact hinit.closeClient hi
    · exact hinit
  · exact hinit.modifyClient i fun _ => rfl

theorem Sound.writeHandle {s : Server} (h : s.Sound) : s.writeHandle.Sound := by
  obtain ⟨writes, listWevent, heq, hwrites, hlist⟩ := writeHandle_spec s
  rw [heq]
  refine h.of_le rfl (fun j hj => .inl ?_) (fun _ _ hj => hj) (fun _ hj => .inl hj) le_rfl
  rcases mem_refs.1 hj with ⟨task, hmem, hstat, rfl⟩ | hj | hj | hj | hj
  · exact mem_refs_of_task hmem hstat
  · exact mem_refs_of_listWeventBck (hlist j hj)
  · cases hj
  · exact (hwrites j hj).elim mem_refs_of_writes mem_refs_of_listWevent
  · exact mem_refs_of_closing hj

theorem Sound.idle_cb {s : Server} (h : s.Sound) : s.idle_cb.Sound := by
  have hwrite := h.writeHandle
  unfold Server.idle_cb
  dsimp only
  split
  · have hclear : Sound { s.writeHandle with listWevent := [], listWeventBck := [] } := by
      refine hwrite.of_le rfl (fun j hj => .inl ?_) (fun _ _ hj => hj) (fun _ hj => .inl hj) le_rfl
      rcases mem_refs.1 hj with ⟨task, hmem, hstat, rfl⟩ | hj | hj | hj | hj
      · exact mem_refs_of_task hmem hstat
      · cases hj
      · cases hj
      · exact mem_refs_of_writes hj
      · exact mem_refs_of_closing hj
    have hclose := hclear.closeAll hclear.map
    exact hclose.of_le rfl (fun _ hj => .inl hj) (fun _ _ hj => hj) (fun _ hj => .inl hj) le_rfl
  · exact hwrite

theorem Sound.workStep {s t : Server} {n : Nat} {msg : ISerializable} {junk : Nat → UInt8} (h : s.Sound)
    (ht : s.workStep n msg junk = some t) : t.Sound := by
  obtain ⟨task, client, htask, -, hstep⟩ := workStep_cases ht
  have hset : ∀ {u : Server}, u.Sound → u.tasks = s.tasks → task.stat ≠ .done → ∀ stat,
      (u.setStat n stat).Sound := by
    intro u hu htasks hstat stat
    have hrefs := refs_setStat (htasks ▸ htask) hstat stat
    exact hu.of_le rfl (fun j hj => .inl (hrefs j hj)) (fun _ _ hj => hj) (fun _ hj => .inl hj) le_rfl
  cases hstep with
  | queued hstat => exact hset h rfl (hstat.trans_ne nofun) _
  | waiting hstat => exact hset h rfl (hstat.trans_ne nofun) _
  | testing hstat => exact hset h rfl (hstat.trans_ne nofun) _
  | setting hstat =>
    have hmod := h.modifyClient task.client
      (f := fun c => { c with reqBuffer := (c.reqBuffer.1, true) }) fun _ => rfl
    exact hset hmod rfl (hstat.trans_ne nofun) _
  | encoding hstat byteArr =>
    have hmod := h.modifyClient task.client
      (f := fun c => { c with reqBuffer := (byteArr, c.reqBuffer.2) }) fun _ => rfl
    exact hset hmod rfl (hstat.trans_ne nofun) _
  | registering hstat =>
    have hclient : task.client ∈ s.refs :=
      mem_refs_of_task (List.mem_of_getElem? htask) (hstat.trans_ne nofun)
    have hdone := hset h rfl (hstat.trans_ne nofun) .done
    refine hdone.of_le rfl (fun j hj => ?_) (fun _ _ hj => hj) (fun _ hj => .inl hj) le_rfl
    rcases mem_refs.1 hj with ⟨task', hmem, hstat', rfl⟩ | hj | hj
    · exact .inl (mem_refs_of_task hmem hstat')
    · rcases List.mem_append.1 hj with hj | hj
      · exact .inl (mem_refs_of_listWevent hj)
      · exact .inr (List.mem_singleton.1 hj ▸ h.refs _ hclient)
    · exact .inl (mem_refs.2 (.inr (.inr hj)))

theorem hbt_timer_cb_spec (s : Server) (tnow : BitVec 64) : ∃ clients closing,
    s.hbt_timer_cb tnow = { s with
      clients := clients
      closing := closing
      deleted := s.deleted ++ (s.mapConnClient.map Prod.snd).filter (s.expired tnow)
      mapConnClient := s.mapConnClient.filter fun p => !s.expired tnow p.2 } ∧
    clients.length = s.clients.length ∧
    (∀ j, (s.hbt_timer_cb tnow).connected j = true ↔
      s.connected j = true ∧ j ∉ (s.mapConnClient.map Prod.snd).filter (s.expired tnow)) ∧
    ∀ j, j ∈ closing ↔
      j ∈ s.closing ∨ j ∈ (s.mapConnClient.map Prod.snd).filter (s.expired tnow) ∧ s.connected j = true := by
  obtain ⟨clients, closing, heq, hlen, hconn, hclosing⟩ :=
    closeAll_spec s ((s.mapConnClient.map Prod.snd).filter (s.expired tnow))
  refine ⟨clients, closing, ?_, hlen, hconn, hclosing⟩
  rw [hbt_timer_cb]
  simp only [heq]

theorem Sound.hbt_timer_cb {s : Server} {tnow : BitVec 64} (h : s.Sound)
    (ha : s.Released (.hbt_timer_cb tnow)) : (s.hbt_timer_cb tnow).Sound := by
  obtain ⟨clients, closing, heq, hlen, hconn, hclosing⟩ := hbt_timer_cb_spec s tnow
  have hgone : ∀ j ∈ (s.mapConnClient.map Prod.snd).filter (s.expired tnow),
      s.connected j = false ∧ j ∉ s.refs :=
    fun j hj => ha j (List.mem_filter.1 hj).1 (List.mem_filter.1 hj).2
  have hrefs : ∀ j ∈ (s.hbt_timer_cb tnow).refs, j ∈ s.refs := by
    intro j hj
    rw [heq] at hj
    rcases mem_refs.1 hj with ⟨task, hmem, hstat, rfl⟩ | hj | hj | hj | hj
    · exact mem_refs_of_task hmem hstat
    · exact mem_refs_of_listWevent hj
    · exact mem_refs_of_listWeventBck hj
    · exact mem_refs_of_writes hj
    · rcases (hclosing j).1 hj with hj | ⟨hj, hc⟩
      · exact mem_refs_of_closing hj
      · rw [(hgone j hj).1] at hc
        cases hc
  have hdel : (s.hbt_timer_cb tnow).deleted =
      s.deleted ++ (s.mapConnClient.map Prod.snd).filter (s.expired tnow) := by rw [heq]
  refine ⟨fun j hj => ?_, fun j hj => ?_, fun j hj => ?_, fun j hj => ?_⟩
  · rw [hdel, List.mem_append, not_or]
    exact ⟨h.refs j (hrefs j hj), fun hmem => (hgone j hmem).2 (hrefs j hj)⟩
  · rw [← Bool.not_eq_true, hconn]
    rintro ⟨hc, hnot⟩
    rw [hdel, List.mem_append] at hj
    exact hj.elim (h.not_mem_of_connected hc) hnot
  · have hmap : (s.hbt_timer_cb tnow).mapConnClient =
        s.mapConnClient.filter fun p => !s.expired tnow p.2 := by rw [heq]
    rw [hmap] at hj
    obtain ⟨p, hp, rfl⟩ := List.mem_map.1 hj
    obtain ⟨hp, hlive⟩ := List.mem_filter.1 hp
    rw [hdel, List.mem_append, not_or]
    refine ⟨h.map _ (List.mem_map_of_mem hp), fun hmem => ?_⟩
    rw [(List.mem_filter.1 hmem).2] at hlive
    cases hlive
  · rw [heq]
    simp only [hlen]
    rw [hdel] at hj
    rcases List.mem_append.1 hj with hj | hj
    · exact h.lt j hj
    · have hexp := (List.mem_filter.1 hj).2
      by_contra hge
      rw [expired, List.getElem?_eq_none (not_lt.1 hge)] at hexp
      cases hexp

theorem Sound.step {s t : Server} {a : ServerAction} (h : s.Sound) (ha : s.Released a)
    (ht : s.step a = some t) : t.Sound := by
  cases a with
  | Start =>
    obtain ⟨-, ht⟩ := Option.ite_none_left_eq_some.1 ht
    obtain rfl := Option.some.inj ht
    exact ⟨h.refs, h.closed, h.map, h.lt⟩
  | Stop =>
    obtain rfl := Option.some.inj ht
    exact ⟨h.refs, h.closed, h.map, h.lt⟩
  | connect_cb accepted strKey tnow junk junk' =>
    obtain ⟨-, ht⟩ := Option.ite_none_right_eq_some.1 ht
    obtain rfl := Option.some.inj ht
    exact h.connect_cb accepted strKey tnow junk junk'
  | read_cb i rd tnow =>
    obtain ⟨⟨-, hconn, -⟩, ht⟩ := Option.ite_none_right_eq_some.1 ht
    exact h.read_cb hconn ht
  | read_error i nread =>
    obtain ⟨⟨-, hconn⟩, ht⟩ := Option.ite_none_right_eq_some.1 ht
    obtain rfl := Option.some.inj ht
    unfold Server.read_error
    split
    · exact h.closeClient (h.not_mem_of_connected hconn)
    · exact h
  | req_write_cb i status tnow =>
    obtain ⟨hmem, ht⟩ := Option.ite_none_right_eq_some.1 ht
    obtain rfl := Option.some.inj ht
    have hi : i ∉ s.deleted := h.refs i (mem_refs_of_writes hmem)
    have hrest : ({ s with writes := s.writes.erase i } : Server).Sound :=
      h.of_subset (fun _ hj => hj) (fun _ => List.mem_of_mem_erase) (fun _ hj => hj)
    exact hrest.req_write_cb hi status tnow
  | closed i =>
    obtain ⟨-, ht⟩ := Option.ite_none_right_eq_some.1 ht
    obtain rfl := Option.some.inj ht
    exact h.of_subset (fun _ hj => hj) (fun _ hj => hj) (fun _ => List.mem_of_mem_erase)
  | hbt_timer_cb tnow =>
    obtain ⟨-, ht⟩ := Option.ite_none_right_eq_some.1 ht
    obtain rfl := Option.some.inj ht
    exact h.hbt_timer_cb ha
  | idle_cb =>
    obtain ⟨-, ht⟩ := Option.ite_none_right_eq_some.1 ht
    obtain rfl := Option.some.inj ht
    exact h.idle_cb
  | work_cb n msg junk => exact h.workStep ht
  | after_work_cb n =>
    obtain ⟨-, ht⟩ := Option.ite_none_right_eq_some.1 ht
    obtain rfl := Option.some.inj ht
    exact h.of_subset (fun _ => List.mem_of_mem_eraseIdx) (fun _ hj => hj) (fun _ hj => hj)

/-- A tick leaves no pointer to a deleted client only if what it deletes is released. -/
theorem released_of_noDangling {s t : Server} {a : ServerAction} (ht : s.step a = some t)
    (htr : t.NoDangling) : s.Released a := by
  cases a with
  | hbt_timer_cb tnow =>
    obtain ⟨-, ht⟩ := Option.ite_none_right_eq_some.1 ht
    obtain rfl := Option.some.inj ht
    obtain ⟨clients, closing, heq, -, -, hclosing⟩ := hbt_timer_cb_spec s tnow
    intro i hi hexp
    have hgone := List.mem_filter.2 ⟨hi, hexp⟩
    have hdel : i ∈ (s.hbt_timer_cb tnow).deleted := by
      rw [heq]
      exact List.mem_append_right _ hgone
    have hnot : i ∉ (s.hbt_timer_cb tnow).refs := fun hmem => htr i hmem hdel
    rw [heq] at hnot
    refine ⟨Bool.not_eq_true _ ▸ fun hc => hnot ?_, fun hmem => hnot ?_⟩
    · exact mem_refs_of_closing ((hclosing i).2 (.inr ⟨hgone, hc⟩))
    · rcases mem_refs.1 hmem with ⟨task, htask, hstat, rfl⟩ | hj | hj | hj | hj
      · exact mem_refs_of_task htask hstat
      · exact mem_refs_of_listWevent hj
      · exact mem_refs_of_listWeventBck hj
      · exact mem_refs_of_writes hj
      · exact mem_refs_of_closing ((hclosing i).2 (.inl hj))
  | _ => trivial

/-- **In every run, with any number of clients, no pointer is to a deleted client in any state exactly
if every tick deletes only clients that are closed and that nothing points to.** -/
theorem noDangling_iff {as : List ServerAction} {t : Server} (h : run step new as = some t) :
    Throughout step NoDangling new as ↔ Meets step Released new as :=
  throughout_iff_meets (I := Sound) (fun _ _ _ hs ha ht => hs.step ha ht) (fun _ hs => hs.refs)
    (fun _ _ _ _ ht htr => released_of_noDangling ht htr) sound_new h

/-- A client comes and goes, and a tick deletes it long after. -/
def comesAndGoes : List ServerAction :=
  [.connect_cb true (text "127.0.0.1:4000") 0 (fun _ => 0) (fun _ => 0), .read_error 0 (-4095),
    .closed 0, .hbt_timer_cb 101]

theorem comesAndGoes_runs : (run step new comesAndGoes).isSome = true := by
  decide +kernel

theorem noDangling_iff_comesAndGoes :
    Throughout step NoDangling new comesAndGoes ↔ Meets step Released new comesAndGoes := by
  obtain ⟨t, ht⟩ := Option.isSome_iff_exists.1 comesAndGoes_runs
  exact noDangling_iff ht

/-- A client that sends nothing is deleted by the tick that asks for its close. -/
def silent : List ServerAction :=
  [.connect_cb true (text "127.0.0.1:4000") 0 (fun _ => 0) (fun _ => 0), .hbt_timer_cb 101]

theorem silent_runs : (run step new silent).map (fun t => (t.closing, t.deleted)) = some ([0], [0]) := by
  decide +kernel

theorem silent_not_noDangling : ∃ t, run step new silent = some t ∧ ¬ t.NoDangling := by
  obtain ⟨t, ht, hfields⟩ := Option.map_eq_some_iff.1 silent_runs
  simp only [Prod.mk.injEq] at hfields
  refine ⟨t, ht, fun hc => hc 0 (mem_refs_of_closing ?_) ?_⟩
  · rw [hfields.1]
    exact List.mem_singleton_self 0
  · rw [hfields.2]
    exact List.mem_singleton_self 0

end Server

end CppLinuxLearn.Solcom
