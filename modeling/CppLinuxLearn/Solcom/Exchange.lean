import CppLinuxLearn.Solcom.Link
import CppLinuxLearn.Solcom.ReqBuffer

/-!
# From a command to its answer

A `SolcomApi` and its client object in a `SolConnServer`, both ways. What comes over is handled by tasks of the
pool, in any order; each answers through the one `reqBuffer` of the client object, the loop of the server writes,
and `SolcomApi` reads what was written and calls `OnRecvMsg`. The server has other clients meanwhile. While posts
of the `SolcomApi` do not overlap, and no two tasks find the buffer free together, every command that was posted
is answered once, and `OnRecvMsg` gets the answers whole and in the order in which they were given; or `postMsg`
has returned an error for it, which takes a client that was closed, a server that was stopped, or another task
between the two tests of the buffer.
-/

namespace CppLinuxLearn.Solcom

open Lib Steps

/-- A new `TestCommand`: the array beyond the text and the numbers are arbitrary. -/
def newTestCommand (r : CharArray 32 × BitVec 64 × CInt) : Command :=
  .TestCommand 2 (strcpy r.1 (text "Test Message")) r.2.1 r.2.2

/-- What `CmdHandle` posts. The type of a command is the byte its class was chosen by. What `Print` puts on the
console is left out; what a new `TestCommand` prints fits its buffer. -/
def SolConnClient.CmdHandle (r : CharArray 32 × BitVec 64 × CInt) : Command → Command
  | .HeartbeatCommand _ => .HeartbeatCommand 1
  | .TestCommand .. => newTestCommand r

/-- The message is what the command is answered with. -/
def Replies (cmd : Option Command) (msg : ISerializable) : Prop :=
  ∃ c r, cmd = some c ∧ msg = (SolConnClient.CmdHandle r c).serialized

/-- What the task of a read answers; a read makes one task at most. -/
def reply (r : CharArray 32 × BitVec 64 × CInt) (hs : List Handed) : ISerializable :=
  (((hs.head?.bind Handed.cmd).map (SolConnClient.CmdHandle r)).getD (newTestCommand r)).serialized

namespace Posting
variable (i : Nat) (s : Posting)

/-- The commands whose tasks are not done. -/
def pending : List (Option Command) :=
  s.server.tasks.filterMap fun task => if task.client = i ∧ task.stat ≠ .done then some task.cmd else none

/-- The call of `postMsg` for the client that returns 0 in this step: the command and the answer. -/
def answers : PostingAction → List (Option Command × ISerializable)
  | .work_cb n _ =>
    match s.server.tasks[n]?, s.msgs[n]? with
    | some task, some msg => if task.client = i ∧ task.stat = .registering then [(task.cmd, msg)] else []
    | _, _ => []
  | _ => []

/-- The call that returns an error: the task was not at its end, and is done. -/
def refusals (t : Posting) : PostingAction → List (Option Command)
  | .work_cb n _ =>
    match s.server.tasks[n]?, t.server.tasks[n]? with
    | some task, some task' =>
      if task.client = i ∧ task.stat ≠ .registering ∧ task'.stat = .done then [task.cmd] else []
    | _, _ => []
  | _ => []

/-- The server reads from the client. -/
def readsFrom : PostingAction → Bool
  | .read_cb j _ _ _ => j = i
  | _ => false

/-- A call of `postMsg` for the client begins while it is connected and the server has not been stopped, and nobody
takes the buffer between its two tests. -/
def Admits : PostingAction → Prop
  | .work_cb n _ => ∀ task, s.server.tasks[n]? = some task → task.client = i →
    (task.stat = .queued → s.server.connected i = true ∧ s.server.bStop = false) ∧
      (task.stat = .testing → s.server.flagged i = false)
  | _ => True

end Posting

/-! ## Both ends -/

/-- A `SolcomApi` with a spi, the server, and what is between the two. -/
structure Exchange where
  client : Client
  /-- the calls that returned `ERR_SUCCESS` -/
  calls : List Call
  /-- what the server has read -/
  arrived : Bytes
  /-- the commands that were queued for `work_cb` -/
  handed : List Handed
  server : Posting
  /-- the commands that were answered, with the answers -/
  answered : List (Option Command × ISerializable)
  /-- the commands for which `postMsg` returned an error -/
  refused : List (Option Command)
  api : RecvState
  /-- what the client has read -/
  back : Bytes
  /-- the calls of `OnRecvMsg` -/
  received : List Handed

inductive ExchangeAction
  | client (a : QueueAction)
  /-- a step of the server that does not read from the client -/
  | server (a : PostingAction)
  /-- the server reads from the client; `r` is for the answer -/
  | request (rd : Read) (tnow : BitVec 64) (r : CharArray 32 × BitVec 64 × CInt)
  /-- the client reads -/
  | answer (rd : Read)

namespace Exchange

/-- The connection is new at both ends. -/
def new (junk : Nat → Nat → UInt8) (junk' : Nat → UInt8) (server : Posting) : Exchange :=
  ⟨.new junk, [], [], [], server, [], [], Receiver.fresh junk' (.client true), [], []⟩

section
variable (i : Nat) (s : Exchange)

/-- The way to the server. -/
def link? : Option Link :=
  (s.server.server.recvStates[i]?).map fun r => ⟨s.client, s.calls, s.arrived, r, s.handed⟩

/-- What the server has written for the client. -/
def written : Bytes := (Posting.packages i s.server.written).flatten

/-- Bytes come in order, and no more of them than `alloc_cb` allowed. -/
def Offers (rd : Read) : Prop :=
  rd.data ≠ [] ∧ rd.data <+: (s.written i).drop s.back.length ∧ rd.data.length ≤ s.api.alloc_cb.1

instance (rd : Read) : Decidable (s.Offers i rd) := inferInstanceAs (Decidable (_ ∧ _))

def step : ExchangeAction → Option Exchange
  | .client a => do
    let client ← s.client.step a
    some { s with client, calls := s.calls ++ s.client.returns a }
  | .server a =>
    if Posting.readsFrom i a then none
    else do
      let server ← s.server.step a
      some { s with
        server
        answered := s.answered ++ s.server.answers i a
        refused := s.refused ++ s.server.refusals i server a }
  | .request rd tnow r => do
    let link ← s.link? i
    if link.Offers rd then do
      let (_, hs) ← Receiver.server.receive link.server rd
      let server ← s.server.step (.read_cb i rd tnow (reply r hs))
      some { s with arrived := s.arrived ++ rd.data, handed := s.handed ++ hs, server }
    else none
  | .answer rd =>
    if s.Offers i rd then do
      let (api, hs) ← Receiver.receive (.client true) s.api rd
      some { s with api, back := s.back ++ rd.data, received := s.received ++ hs }
    else none

/-- Posts of the client are commands and do not overlap, no two tasks find its buffer free together, and the
server does not delete it. -/
def Sends : ExchangeAction → Prop
  | .client a => s.client.Apart a ∧ ∀ msg ∈ a.message, msg.IsCommand
  | .server a => s.server.Apart i a ∧
    match a with
    | .server (.hbt_timer_cb tnow) => s.server.server.expired tnow i = false
    | _ => True
  | .request .. | .answer _ => True

/-- Moreover, each call of `postMsg` for the client is admitted. -/
def Serves (a : ExchangeAction) : Prop :=
  s.Sends i a ∧ match a with
    | .server a => s.server.Admits i a
    | _ => True

/-- Nothing is under way: all that was posted was read and handled, and all answers were read. -/
structure Quiet : Prop where
  connected : s.server.server.connected i = true
  empty : s.client.sendCache.isEmpty = true
  arrived : s.arrived = s.client.written.flatten
  handled : s.server.pending i = []
  registered : s.server.registered i = 0
  back : s.back = s.written i

end

end Exchange

/-! ## The steps of the server -/

namespace Server
variable {s t : Server} {i : Nat}

theorem recvStates_connect_cb (s : Server) (accepted : Bool) (strKey : Bytes) (tnow : BitVec 64)
    (junk junk' : Nat → UInt8) :
    (s.connect_cb accepted strKey tnow junk junk').recvStates = s.recvStates ++ [.new junk] := by
  unfold connect_cb
  split
  · dsimp only
    split <;> simp [recvStates]
  · simp [recvStates]

theorem recvStates_step {a : ServerAction} (h : s.step a = some t) (ha : ∀ j rd tnow, a ≠ .read_cb j rd tnow) :
    s.recvStates <+: t.recvStates := by
  have hsame : ∀ u : Server, u.recvStates = s.recvStates → s.recvStates <+: u.recvStates := by
    intro u hu
    rw [hu]
  cases a with
  | read_cb j rd tnow => exact absurd rfl (ha j rd tnow)
  | Start =>
    obtain ⟨-, h⟩ := Option.ite_none_left_eq_some.1 h
    obtain rfl := Option.some.inj h
    exact hsame _ rfl
  | Stop =>
    obtain rfl := Option.some.inj h
    exact hsame _ rfl
  | connect_cb accepted strKey tnow junk junk' =>
    obtain ⟨-, h⟩ := Option.ite_none_right_eq_some.1 h
    obtain rfl := Option.some.inj h
    rw [recvStates_connect_cb]
    exact List.prefix_append _ _
  | read_error j nread =>
    obtain ⟨-, h⟩ := Option.ite_none_right_eq_some.1 h
    obtain rfl := Option.some.inj h
    unfold read_error
    split
    · exact hsame _ (recvStates_closeClient s j)
    · exact hsame _ rfl
  | req_write_cb j status tnow =>
    obtain ⟨-, h⟩ := Option.ite_none_right_eq_some.1 h
    obtain rfl := Option.some.inj h
    exact hsame _ (recvStates_req_write_cb status tnow)
  | closed j =>
    obtain ⟨-, h⟩ := Option.ite_none_right_eq_some.1 h
    obtain rfl := Option.some.inj h
    exact hsame _ rfl
  | hbt_timer_cb tnow =>
    obtain ⟨-, h⟩ := Option.ite_none_right_eq_some.1 h
    obtain rfl := Option.some.inj h
    exact hsame _ (recvStates_closeAll s _)
  | idle_cb =>
    obtain ⟨-, h⟩ := Option.ite_none_right_eq_some.1 h
    obtain rfl := Option.some.inj h
    exact hsame _ (recvStates_idle_cb s)
  | work_cb n msg junk => exact hsame _ (recvStates_workStep h)
  | after_work_cb n =>
    obtain ⟨-, h⟩ := Option.ite_none_right_eq_some.1 h
    obtain rfl := Option.some.inj h
    exact hsame _ rfl

end Server

namespace Posting
variable {i : Nat} {s t : Posting}

theorem server_inv {a : ServerAction} (h : s.step (.server a) = some t) : ∃ server, s.server.step a = some server ∧
    (∀ j rd tnow, a ≠ .read_cb j rd tnow) ∧ t = { s with server } := by
  have hread : ∀ j rd tnow, a ≠ .read_cb j rd tnow := by
    rintro j rd tnow rfl
    cases h
  cases a with
  | read_cb | work_cb | after_work_cb | idle_cb => cases h
  | Start =>
    obtain ⟨server, hserver, rfl⟩ := Option.map_eq_some_iff.1 h
    exact ⟨server, hserver, hread, rfl⟩
  | Stop =>
    obtain rfl := Option.some.inj h
    exact ⟨_, rfl, hread, rfl⟩
  | _ =>
    obtain ⟨-, h⟩ := Option.ite_none_left_eq_some.1 h
    obtain ⟨server, hserver, rfl⟩ := Option.map_eq_some_iff.1 h
    exact ⟨server, hserver, hread, rfl⟩

theorem tasks_server {a : ServerAction} (h : s.step (.server a) = some t) :
    ∃ server, t = { s with server } ∧ server.tasks = s.server.tasks := by
  obtain ⟨server, rfl, hs | ⟨accepted, strKey, tnow, junk, junk', -, rfl⟩ | ⟨status, tnow, -, rfl⟩⟩ :=
    server_cases (i := 0) h
  · exact ⟨server, rfl, hs.tasks⟩
  · refine ⟨_, rfl, ?_⟩
    rcases s.server.connect_cb_spec 0 accepted strKey tnow junk junk' with hs | ⟨-, htasks, -⟩
    · exact hs.tasks
    · exact htasks
  · exact ⟨_, rfl, (sameSide_req_write_cb (i := 0) _ 0 status tnow).tasks⟩

theorem read_cb_inv {j : Nat} {rd : Read} {tnow : BitVec 64} {msg : ISerializable}
    (h : s.step (.read_cb j rd tnow msg) = some t) : ∃ c r hs, s.server.clients[j]? = some c ∧
      Receiver.server.receive c.toRecvState rd = some (r, hs) ∧
      t.server.tasks = s.server.tasks ++ hs.map (fun o => ⟨j, o.cmd, .queued⟩) ∧
      t.msgs = s.msgs ++ List.replicate hs.length msg ∧ t.posted = s.posted ∧ t.written = s.written ∧
      t.server.recvStates = s.server.recvStates.modify j fun _ => r := by
  obtain ⟨-, h⟩ := Option.ite_none_left_eq_some.1 h
  obtain ⟨server, hserver, rfl⟩ := Option.map_eq_some_iff.1 h
  obtain ⟨-, hserver⟩ := Option.ite_none_right_eq_some.1 hserver
  obtain ⟨c, hc, hserver⟩ := Option.bind_eq_some_iff.1 hserver
  obtain ⟨⟨r, hs⟩, hr, hserver⟩ := Option.bind_eq_some_iff.1 hserver
  obtain rfl := Option.some.inj hserver
  refine ⟨c, r, hs, hc, hr, rfl, ?_, rfl, rfl, ?_⟩
  · simp
  · refine List.ext_getElem? fun k => ?_
    simp only [Server.recvStates, Server.modifyClient, List.getElem?_map, List.getElem?_modify]
    cases s.server.clients[k]? with
    | none => rfl
    | some d =>
      simp only [Option.map_some]
      split <;> rfl

theorem work_cb_inv {n : Nat} {junk : Nat → UInt8} (h : s.step (.work_cb n junk) = some t) : ∃ task msg stat,
    s.server.tasks[n]? = some task ∧ s.msgs[n]? = some msg ∧ task.stat ≠ .done ∧
      (stat = .done ↔ task.stat = .registering ∨
        task.stat = .queued ∧ ¬ (s.server.connected task.client = true ∧ s.server.bStop = false) ∨
        task.stat = .testing ∧ s.server.flagged task.client = true) ∧
      t.server.tasks = s.server.tasks.modify n (fun task => { task with stat }) ∧ t.msgs = s.msgs ∧
      t.posted = s.posted ++ (if task.stat = .registering then [(task.client, packageOf msg 0 .Type_Req)] else []) ∧
      t.written = s.written ∧ t.server.recvStates = s.server.recvStates := by
  obtain ⟨task, htask, h⟩ := Option.bind_eq_some_iff.1 h
  obtain ⟨msg, hmsg, h⟩ := Option.bind_eq_some_iff.1 h
  obtain ⟨server, hserver, h⟩ := Option.bind_eq_some_iff.1 h
  obtain rfl := Option.some.inj h
  have hrecv := Server.recvStates_workStep hserver
  have hposted : (if task.stat = .registering then s.posted ++ [(task.client, packageOf msg 0 .Type_Req)]
      else s.posted) =
      s.posted ++ (if task.stat = .registering then [(task.client, packageOf msg 0 .Type_Req)] else []) := by
    split
    · rfl
    · rw [List.append_nil]
  obtain ⟨task', client, htask', hclient, hstep⟩ := Server.workStep_cases hserver
  obtain rfl : task = task' := Option.some.inj (htask.symm.trans htask')
  have hconn : s.server.connected task.client = client.bConnected := by
    rw [Server.connected, hclient]
    rfl
  have hflag : s.server.flagged task.client = client.reqBuffer.2 := by
    rw [Server.flagged, Server.buffer?, hclient]
    rfl
  obtain ⟨stat, hnot, hdone, htasks⟩ : ∃ stat, task.stat ≠ .done ∧ (stat = .done ↔ task.stat = .registering ∨
      task.stat = .queued ∧ ¬ (s.server.connected task.client = true ∧ s.server.bStop = false) ∨
      task.stat = .testing ∧ s.server.flagged task.client = true) ∧
      server.tasks = s.server.tasks.modify n fun task => { task with stat } := by
    rw [hconn, hflag]
    cases hstep with
    | registering hstat => exact ⟨.done, by simp [hstat], by simp [hstat], rfl⟩
    | queued hstat =>
      refine ⟨_, by simp [hstat], ?_, rfl⟩
      cases client.bConnected <;> cases s.server.bStop <;> simp [hstat]
    | testing hstat =>
      refine ⟨_, by simp [hstat], ?_, rfl⟩
      cases client.reqBuffer.2 <;> simp [hstat]
    | waiting hstat | setting hstat | encoding hstat => exact ⟨_, by simp [hstat], by simp [hstat], rfl⟩
  exact ⟨task, msg, stat, htask, hmsg, hnot, hdone, htasks, rfl, hposted, rfl, hrecv⟩

theorem after_work_cb_inv {n : Nat} (h : s.step (.after_work_cb n) = some t) : ∃ task,
    s.server.tasks[n]? = some task ∧ task.stat = .done ∧
      t = { s with server := { s.server with tasks := s.server.tasks.eraseIdx n }, msgs := s.msgs.eraseIdx n } := by
  obtain ⟨-, h⟩ := Option.ite_none_left_eq_some.1 h
  obtain ⟨server, hserver, rfl⟩ := Option.map_eq_some_iff.1 h
  obtain ⟨⟨-, hdone⟩, hserver⟩ := Option.ite_none_right_eq_some.1 hserver
  obtain rfl := Option.some.inj hserver
  obtain ⟨task, htask, hstat⟩ := (Option.any_eq_true ..).1 hdone
  exact ⟨task, htask, of_decide_eq_true hstat, rfl⟩

theorem swap_inv (h : s.step .swap = some t) : ∃ server it, t = { s with server, it } ∧
    server.tasks = s.server.tasks ∧ server.recvStates = s.server.recvStates := by
  obtain ⟨-, h⟩ := Option.ite_none_left_eq_some.1 h
  obtain rfl := Option.some.inj h
  exact ⟨_, _, rfl, rfl, rfl⟩

theorem idle_rest_inv (h : s.step .idle_rest = some t) : ∃ server it, t = { s with server, it } ∧
    server.tasks = s.server.tasks ∧ server.recvStates = s.server.recvStates := by
  simp only [Posting.step] at h
  split at h
  · obtain rfl := Option.some.inj h
    refine ⟨_, _, rfl, (sameSide_idleRest s.server 0).tasks, ?_⟩
    rw [Server.idleRest]
    split
    · exact Server.recvStates_closeAll _ _
    · rfl
  · cases h

theorem uv_write_inv (h : s.step .uv_write = some t) : ∃ j is b server,
    s.server.buffer? j = some b ∧ t = { s with
      server
      it := some is
      written := if s.server.connected j then s.written ++ [(j, b.1.filled)] else s.written } ∧
    server.tasks = s.server.tasks ∧ server.clients = s.server.clients := by
  simp only [Posting.step] at h
  split at h
  · rename_i j is hit
    obtain ⟨b, hb, h⟩ := Option.bind_eq_some_iff.1 h
    obtain rfl := Option.some.inj h
    obtain ⟨writes, hone, -⟩ := Server.writeClient_spec s.server j
    exact ⟨j, is, b, _, hb, rfl, by rw [hone], by rw [hone]⟩
  · cases h

theorem step_cases {a : PostingAction} (h : s.step a = some t) :
    (∃ j rd tnow msg, a = .read_cb j rd tnow msg) ∨ (∃ n junk, a = .work_cb n junk) ∨ (∃ n, a = .after_work_cb n) ∨
      t.server.tasks = s.server.tasks ∧ t.msgs = s.msgs ∧ t.posted = s.posted ∧
        ∀ i, s.answers i a = [] ∧ s.refusals i t a = [] := by
  cases a with
  | read_cb j rd tnow msg => exact .inl ⟨j, rd, tnow, msg, rfl⟩
  | work_cb n junk => exact .inr (.inl ⟨n, junk, rfl⟩)
  | after_work_cb n => exact .inr (.inr (.inl ⟨n, rfl⟩))
  | server a =>
    obtain ⟨server, rfl, htasks⟩ := tasks_server h
    exact .inr (.inr (.inr ⟨htasks, rfl, rfl, fun _ => ⟨rfl, rfl⟩⟩))
  | swap =>
    obtain ⟨_, _, rfl, htasks, -⟩ := swap_inv h
    exact .inr (.inr (.inr ⟨htasks, rfl, rfl, fun _ => ⟨rfl, rfl⟩⟩))
  | uv_write =>
    obtain ⟨_, _, _, _, -, rfl, htasks, -⟩ := uv_write_inv h
    exact .inr (.inr (.inr ⟨htasks, rfl, rfl, fun _ => ⟨rfl, rfl⟩⟩))
  | idle_rest =>
    obtain ⟨_, _, rfl, htasks, -⟩ := idle_rest_inv h
    exact .inr (.inr (.inr ⟨htasks, rfl, rfl, fun _ => ⟨rfl, rfl⟩⟩))

/-! ## The client's tasks -/

theorem recvStates_step {a : PostingAction} (ha : readsFrom i a = false) (h : s.step a = some t) {r : RecvState}
    (hr : s.server.recvStates[i]? = some r) : t.server.recvStates[i]? = some r := by
  have hsame : t.server.recvStates = s.server.recvStates → t.server.recvStates[i]? = some r := by
    intro heq
    rw [heq, hr]
  cases a with
  | server a =>
    obtain ⟨server, hserver, hread, rfl⟩ := server_inv h
    obtain ⟨more, hmore⟩ := Server.recvStates_step hserver hread
    show server.recvStates[i]? = some r
    rw [← hmore, List.getElem?_append_left (List.getElem?_eq_some_iff.1 hr).1, hr]
  | read_cb j rd tnow msg =>
    obtain ⟨_, _, _, -, -, -, -, -, -, hrecv⟩ := read_cb_inv h
    have hj : j ≠ i := of_decide_eq_false ha
    rw [hrecv, List.getElem?_modify_ne _ _ hj, hr]
  | work_cb n junk =>
    obtain ⟨_, _, _, -, -, -, -, -, -, -, -, hrecv⟩ := work_cb_inv h
    exact hsame hrecv
  | after_work_cb n =>
    obtain ⟨_, -, -, rfl⟩ := after_work_cb_inv h
    exact hsame rfl
  | swap =>
    obtain ⟨_, _, rfl, -, hrecv⟩ := swap_inv h
    exact hsame hrecv
  | uv_write =>
    obtain ⟨_, _, _, _, -, rfl, -, hclients⟩ := uv_write_inv h
    exact hsame (congrArg (List.map _) hclients)
  | idle_rest =>
    obtain ⟨_, _, rfl, -, hrecv⟩ := idle_rest_inv h
    exact hsame hrecv

theorem pending_congr (h : t.server.tasks = s.server.tasks) : t.pending i = s.pending i := by
  rw [pending, pending, h]

theorem pending_append {j : Nat} {hs : List Handed}
    (h : t.server.tasks = s.server.tasks ++ hs.map fun o => ⟨j, o.cmd, .queued⟩) :
    t.pending i = s.pending i ++ if j = i then hs.map Handed.cmd else [] := by
  rw [pending, h, List.filterMap_append, ← pending]
  congr 1
  rw [List.filterMap_map]
  split
  · rename_i hj
    simp [hj]
  · rename_i hj
    simp [hj]

theorem pending_step {a : PostingAction} (ha : readsFrom i a = false) (h : s.step a = some t) :
    (s.pending i).Perm (t.pending i ++ ((s.answers i a).map Prod.fst ++ s.refusals i t a)) := by
  have hsame : t.pending i = s.pending i → s.answers i a = [] → s.refusals i t a = [] →
      (s.pending i).Perm (t.pending i ++ ((s.answers i a).map Prod.fst ++ s.refusals i t a)) := by
    intro hpending hanswers hrefusals
    rw [hpending, hanswers, hrefusals, List.map_nil, List.append_nil, List.append_nil]
  rcases step_cases h with ⟨j, rd, tnow, msg, rfl⟩ | ⟨n, junk, rfl⟩ | ⟨n, rfl⟩ | ⟨htasks, -, -, hnone⟩
  · obtain ⟨_, _, _, -, -, htasks, -⟩ := read_cb_inv h
    have hj : j ≠ i := of_decide_eq_false ha
    refine hsame ?_ rfl rfl
    rw [pending_append htasks, if_neg hj, List.append_nil]
  · obtain ⟨task, msg, stat, htask, hmsg, hnot, hend, htasks, -⟩ := work_cb_inv h
    have hnext : t.server.tasks[n]? = some { task with stat } := by
      rw [htasks, List.getElem?_modify_eq, htask]
      rfl
    have hperm := filterMap_modify_perm htask
      (fun task : CommandTask => if task.client = i ∧ task.stat ≠ .done then some task.cmd else none)
      fun task => { task with stat }
    rw [← htasks] at hperm
    simp only [answers, refusals, htask, hmsg, hnext]
    by_cases hi : task.client = i
    · by_cases hdone : stat = .done
      · -- the call returns
        have hone : (s.pending i).Perm (task.cmd :: t.pending i) := by simpa [pending, hi, hnot, hdone] using hperm
        refine hone.trans ((List.perm_append_singleton _ _).symm.trans ?_)
        by_cases hreg : task.stat = .registering <;> simp [hi, hreg, hdone]
      · have hreg : task.stat ≠ .registering := fun hreg => hdone (hend.2 (.inl hreg))
        have hcons : (task.cmd :: s.pending i).Perm (task.cmd :: t.pending i) := by
          simpa [pending, hi, hnot, hdone] using hperm
        simpa [hreg, hdone] using hcons.cons_inv
    · simpa [pending, hi] using hperm
  · obtain ⟨task, htask, hstat, rfl⟩ := after_work_cb_inv h
    refine hsame (filterMap_eraseIdx htask ?_) rfl rfl
    rw [if_neg fun hand => hand.2 hstat]
  · exact hsame (pending_congr htasks) (hnone i).1 (hnone i).2

theorem refusals_eq_nil {a : PostingAction} (ha : s.Admits i a) (h : s.step a = some t) : s.refusals i t a = [] := by
  rcases step_cases h with ⟨j, rd, tnow, msg, rfl⟩ | ⟨n, junk, rfl⟩ | ⟨n, rfl⟩ | ⟨-, -, -, hnone⟩
  · rfl
  · obtain ⟨task, msg, stat, htask, -, -, hend, htasks, -⟩ := work_cb_inv h
    have hnext : t.server.tasks[n]? = some { task with stat } := by
      rw [htasks, List.getElem?_modify_eq, htask]
      rfl
    simp only [refusals, htask, hnext]
    refine if_neg ?_
    rintro ⟨rfl, hreg, hdone⟩
    obtain ⟨hqueued, htesting⟩ := ha task htask rfl
    rcases hend.1 hdone with hstat | ⟨hstat, hnot⟩ | ⟨hstat, hset⟩
    · exact hreg hstat
    · exact hnot (hqueued hstat)
    · rw [htesting hstat] at hset
      cases hset
  · rfl
  · exact (hnone i).2

theorem posted_step {a : PostingAction} (h : s.step a = some t) : packages i t.posted =
    packages i s.posted ++ (s.answers i a).map fun p => packageOf p.2 0 .Type_Req := by
  have hsame : t.posted = s.posted → s.answers i a = [] → packages i t.posted =
      packages i s.posted ++ (s.answers i a).map fun p => packageOf p.2 0 .Type_Req := by
    intro hposted hanswers
    rw [hposted, hanswers, List.map_nil, List.append_nil]
  rcases step_cases h with ⟨j, rd, tnow, msg, rfl⟩ | ⟨n, junk, rfl⟩ | ⟨n, rfl⟩ | ⟨-, -, hposted, hnone⟩
  · obtain ⟨_, _, _, -, -, -, -, hposted, -⟩ := read_cb_inv h
    exact hsame hposted rfl
  · obtain ⟨task, msg, stat, htask, hmsg, -, -, -, -, hposted, -⟩ := work_cb_inv h
    rw [hposted, packages_append]
    congr 1
    simp only [answers, htask, hmsg]
    by_cases hreg : task.stat = .registering <;> by_cases hi : task.client = i <;> simp [packages, hreg, hi]
  · obtain ⟨_, -, -, rfl⟩ := after_work_cb_inv h
    exact hsame rfl rfl
  · exact hsame hposted (hnone i).1

theorem written_step {a : PostingAction} (h : s.step a = some t) :
    packages i t.written = packages i s.written ∨
      t.server.connected i = true ∧ packages i s.written <+: packages i t.written := by
  cases a with
  | server a =>
    obtain ⟨server, rfl, -⟩ := tasks_server h
    exact .inl rfl
  | read_cb j rd tnow msg =>
    obtain ⟨_, _, _, -, -, -, -, -, hwritten, -⟩ := read_cb_inv h
    exact .inl (congrArg _ hwritten)
  | work_cb n junk =>
    obtain ⟨_, _, _, -, -, -, -, -, -, -, hwritten, -⟩ := work_cb_inv h
    exact .inl (congrArg _ hwritten)
  | after_work_cb n =>
    obtain ⟨_, -, -, rfl⟩ := after_work_cb_inv h
    exact .inl rfl
  | swap =>
    obtain ⟨_, _, rfl, -⟩ := swap_inv h
    exact .inl rfl
  | idle_rest =>
    obtain ⟨_, _, rfl, -⟩ := idle_rest_inv h
    exact .inl rfl
  | uv_write =>
    obtain ⟨j, is, b, server, -, rfl, -, hclients⟩ := uv_write_inv h
    dsimp only
    split
    · rename_i hconn
      rw [packages_concat]
      by_cases hj : j = i
      · refine .inr ⟨?_, List.prefix_append _ _⟩
        rw [Server.connected, hclients, ← hj]
        exact hconn
      · rw [if_neg hj, List.append_nil]
        exact .inl rfl
    · exact .inl rfl

/-- What the tasks of the client answer are replies to their commands. -/
def Replied (i : Nat) (s : Posting) : Prop := ∀ (n : Nat) (task : CommandTask) (msg : ISerializable),
  s.server.tasks[n]? = some task → s.msgs[n]? = some msg → task.client = i → Replies task.cmd msg

theorem Replied.answers (h : s.Replied i) {a : PostingAction} : ∀ p ∈ s.answers i a, Replies p.1 p.2 := by
  intro p hp
  cases a with
  | work_cb n junk =>
    simp only [Posting.answers] at hp
    split at hp
    · rename_i task msg htask hmsg
      split at hp
      · rename_i hand
        obtain rfl := List.mem_singleton.1 hp
        exact h n task msg htask hmsg hand.1
      · cases hp
    · cases hp
  | _ => cases hp

theorem Replied.append (h : s.Replied i) (hlen : s.msgs.length = s.server.tasks.length) {j : Nat} {hs : List Handed}
    {msg : ISerializable} (htasks : t.server.tasks = s.server.tasks ++ hs.map fun o => ⟨j, o.cmd, .queued⟩)
    (hmsgs : t.msgs = s.msgs ++ List.replicate hs.length msg) (hnew : j = i → ∀ o ∈ hs, Replies o.cmd msg) :
    t.Replied i := by
  intro n task m htask hm hi
  rw [htasks] at htask
  rw [hmsgs] at hm
  by_cases hn : n < s.server.tasks.length
  · rw [List.getElem?_append_left hn] at htask
    rw [List.getElem?_append_left (by omega)] at hm
    exact h n task m htask hm hi
  · rw [List.getElem?_append_right (by omega)] at htask hm
    obtain ⟨o, ho, rfl⟩ := List.mem_map.1 (List.mem_of_getElem? htask)
    obtain ⟨-, rfl⟩ := List.mem_replicate.1 (List.mem_of_getElem? hm)
    exact hnew hi o ho

theorem Replied.step (h : s.Replied i) (hlen : s.msgs.length = s.server.tasks.length) {a : PostingAction}
    (ha : readsFrom i a = false) (hstep : s.step a = some t) : t.Replied i := by
  rcases step_cases hstep with ⟨j, rd, tnow, msg, rfl⟩ | ⟨n, junk, rfl⟩ | ⟨n, rfl⟩ | ⟨htasks, hmsgs, -⟩
  · obtain ⟨_, _, _, -, -, htasks, hmsgs, -⟩ := read_cb_inv hstep
    exact h.append hlen htasks hmsgs fun hj => absurd hj (of_decide_eq_false ha)
  · obtain ⟨task, msg, stat, -, -, -, -, htasks, hmsgs, -⟩ := work_cb_inv hstep
    intro k task' m hk hm hi
    rw [htasks, List.getElem?_modify] at hk
    rw [hmsgs] at hm
    obtain ⟨x, hx, rfl⟩ := Option.map_eq_some_iff.1 hk
    have hclient : x.client = i := by
      split at hi <;> exact hi
    have hreplies := h k x m hx hm hclient
    split <;> exact hreplies
  · obtain ⟨task, -, -, rfl⟩ := after_work_cb_inv hstep
    intro k task' m hk hm hi
    dsimp only at hk hm
    rw [List.getElem?_eraseIdx] at hk hm
    split at hk
    · rw [if_pos ‹_›] at hm
      exact h k task' m hk hm hi
    · rw [if_neg ‹_›] at hm
      exact h (k + 1) task' m hk hm hi
  · intro n task msg htask hmsg
    exact h n task msg (htasks ▸ htask) (hmsgs ▸ hmsg)

end Posting

/-! ## One read -/

theorem length_receive {r : Receiver} {s s' : RecvState} {rd : Read} {hs : List Handed} (hne : rd.data ≠ [])
    (h : r.receive s rd = some (s', hs)) : hs.length ≤ 1 := by
  obtain ⟨pCharArr, -, h⟩ := Option.bind_eq_some_iff.1 h
  rw [read_cb_eq r rd.junk (List.length_pos_iff.2 hne)] at h
  split at h
  · obtain ⟨⟨pkghead, b⟩, -, h⟩ := Option.bind_eq_some_iff.1 h
    dsimp only at h
    split at h
    · obtain ⟨b', -, h⟩ := Option.bind_eq_some_iff.1 h
      obtain ⟨-, rfl⟩ := Prod.mk.inj (Option.some.inj h)
      simp
    · obtain ⟨⟨cmd, buf⟩, -, h⟩ := Option.bind_eq_some_iff.1 h
      obtain ⟨-, rfl⟩ := Prod.mk.inj (Option.some.inj h)
      simp
  · obtain ⟨-, rfl⟩ := Prod.mk.inj (Option.some.inj h)
    simp

theorem receive_client (s : RecvState) {rd : Read} (hne : rd.data ≠ []) :
    Receiver.receive (.client true) s rd = Receiver.receive .server s rd := by
  have hread : ∀ s, Receiver.read_cb (.client true) rd.junk rd.data.length s =
      Receiver.read_cb .server rd.junk rd.data.length s := by
    intro s
    rw [read_cb_eq _ _ (List.length_pos_iff.2 hne), read_cb_eq _ _ (List.length_pos_iff.2 hne)]
    rfl
  simp only [Receiver.receive, hread]

theorem replies_reply {hs : List Handed} (r : CharArray 32 × BitVec 64 × CInt) (hlen : hs.length ≤ 1)
    (hcmd : ∀ o ∈ hs, o.cmd.isSome) : ∀ o ∈ hs, Replies o.cmd (reply r hs) := by
  intro o ho
  obtain ⟨o', rfl⟩ := List.length_eq_one_iff.1 (Nat.le_antisymm hlen (List.length_pos_of_mem ho))
  obtain rfl := List.mem_singleton.1 ho
  obtain ⟨c, hc⟩ := Option.isSome_iff_exists.1 (hcmd o ho)
  exact ⟨c, r, hc, by simp [reply, hc]⟩

theorem Handed.Carries.isSome {o : Handed} {c : Call} (h : o.Carries c) : o.cmd.isSome := by
  obtain ⟨cmd, hcmd, -⟩ := Option.map_eq_some_iff.1 h.cmd
  rw [hcmd]
  rfl

theorem Replies.isCommand {cmd : Option Command} {msg : ISerializable} (h : Replies cmd msg) : msg.IsCommand := by
  obtain ⟨c, r, -, rfl⟩ := h
  cases c with
  | HeartbeatCommand nType => exact ⟨.HeartbeatCommand 1, rfl, rfl⟩
  | TestCommand => exact ⟨newTestCommand r, rfl, rfl⟩

namespace Exchange
variable {i : Nat} {s t : Exchange}

theorem step_cases {a : ExchangeAction} (h : s.step i a = some t) :
    (∃ b client, a = .client b ∧ s.client.step b = some client ∧
      t = { s with client, calls := s.calls ++ s.client.returns b }) ∨
    (∃ b server, a = .server b ∧ Posting.readsFrom i b = false ∧ s.server.step b = some server ∧ t = { s with
      server
      answered := s.answered ++ s.server.answers i b
      refused := s.refused ++ s.server.refusals i server b }) ∨
    (∃ rd tnow r link v hs server, a = .request rd tnow r ∧ s.link? i = some link ∧ link.Offers rd ∧
      Receiver.server.receive link.server rd = some (v, hs) ∧
      s.server.step (.read_cb i rd tnow (reply r hs)) = some server ∧
      t = { s with arrived := s.arrived ++ rd.data, handed := s.handed ++ hs, server }) ∨
    ∃ rd api hs, a = .answer rd ∧ s.Offers i rd ∧
      t = { s with api, back := s.back ++ rd.data, received := s.received ++ hs } := by
  cases a with
  | client b =>
    obtain ⟨client, hclient, h⟩ := Option.bind_eq_some_iff.1 h
    exact .inl ⟨b, client, rfl, hclient, (Option.some.inj h).symm⟩
  | server b =>
    obtain ⟨hread, h⟩ := Option.ite_none_left_eq_some.1 h
    obtain ⟨server, hserver, h⟩ := Option.bind_eq_some_iff.1 h
    exact .inr (.inl ⟨b, server, rfl, Bool.eq_false_of_not_eq_true hread, hserver, (Option.some.inj h).symm⟩)
  | request rd tnow r =>
    obtain ⟨link, hlink, h⟩ := Option.bind_eq_some_iff.1 h
    obtain ⟨hoffers, h⟩ := Option.ite_none_right_eq_some.1 h
    obtain ⟨⟨v, hs⟩, hrecv, h⟩ := Option.bind_eq_some_iff.1 h
    obtain ⟨server, hserver, h⟩ := Option.bind_eq_some_iff.1 h
    exact .inr (.inr (.inl
      ⟨rd, tnow, r, link, v, hs, server, rfl, hlink, hoffers, hrecv, hserver, (Option.some.inj h).symm⟩))
  | answer rd =>
    obtain ⟨hoffers, h⟩ := Option.ite_none_right_eq_some.1 h
    obtain ⟨⟨api, hs⟩, -, h⟩ := Option.bind_eq_some_iff.1 h
    exact .inr (.inr (.inr ⟨rd, api, hs, rfl, hoffers, (Option.some.inj h).symm⟩))

/-! ## The invariant -/

/-- The arguments of `postMsg` for an answer: the request id is 0, whatever that of the command was. -/
def answerCall (p : Option Command × ISerializable) : Call := ⟨p.2, 0, .Type_Req, 0, true⟩

/-- Commands come over as over a `Link`; each is pending, answered or refused; the answers are what is posted for the
client, what is written was posted, and what the client has read was written. -/
structure Sound (i : Nat) (s : Exchange) : Prop where
  link : ∃ r, s.server.server.recvStates[i]? = some r ∧ Link.Linked ⟨s.client, s.calls, s.arrived, r, s.handed⟩
  guarded : s.server.Guarded i
  replied : s.server.Replied i
  answered : ∀ p ∈ s.answered, Replies p.1 p.2
  accounted : (s.handed.map Handed.cmd).Perm (s.server.pending i ++ (s.answered.map Prod.fst ++ s.refused))
  posted : Posting.packages i s.server.posted = (s.answered.map answerCall).map Call.package
  written : Posting.packages i s.server.written <+: Posting.packages i s.server.posted
  received : ∃ cs, Received s.api s.received cs ∧ cs.flatten = s.back
  back : s.back <+: s.written i

namespace Sound
variable (h : s.Sound i)
include h

theorem commands : ∀ c ∈ s.answered.map answerCall, c.msg.IsCommand := by
  intro c hc
  obtain ⟨p, hp, rfl⟩ := List.mem_map.1 hc
  exact (h.answered p hp).isCommand

theorem written_flatten : s.written i <+: ((s.answered.map answerCall).map Call.package).flatten := by
  rw [← h.posted]
  exact h.written.flatten

theorem answer {rd : Read} (hrd : s.Offers i rd) : ∃ t, s.step i (.answer rd) = some t ∧ t.Sound i := by
  obtain ⟨cs, hrec, hcs⟩ := h.received
  obtain ⟨rest, hrest⟩ := h.back
  obtain ⟨hne, hpre, hle⟩ := id hrd
  have hback : s.back ++ rd.data <+: s.written i := by
    rw [← hrest, List.drop_left] at hpre
    rw [← hrest]
    exact (List.prefix_append_right_inj _).2 hpre
  obtain ⟨api, hs, hr, hrec'⟩ := hrec.read_packages h.commands hne hle (hcs ▸ hback.trans h.written_flatten)
  refine ⟨{ s with api, back := s.back ++ rd.data, received := s.received ++ hs }, ?_, ?_⟩
  · rw [step, if_pos hrd, receive_client s.api hne, hr]
    rfl
  · exact { h with
      received := ⟨_, hrec', by simp [hcs]⟩
      back := hback }

theorem server {a : PostingAction} (ha : Posting.readsFrom i a = false) (hapart : s.server.Apart i a) {server : Posting}
    (hs : s.server.step a = some server) : Sound i { s with
      server
      answered := s.answered ++ s.server.answers i a
      refused := s.refused ++ s.server.refusals i server a } := by
  obtain ⟨r, hr, hlinked⟩ := h.link
  have hguarded := (h.guarded.step hapart hs).1
  have hposted := Posting.posted_step (i := i) hs
  have hgrows : Posting.packages i s.server.written <+: Posting.packages i server.written ∧
      Posting.packages i server.written <+: Posting.packages i server.posted := by
    rcases Posting.written_step (i := i) hs with heq | ⟨hconn, hmore⟩
    · rw [heq, hposted]
      exact ⟨List.prefix_rfl, h.written.trans (List.prefix_append _ _)⟩
    · obtain ⟨c, hc, -⟩ := (Option.any_eq_true ..).1 hconn
      have hlog := hguarded.log hconn c.reqBuffer (by rw [Server.buffer?, hc, Option.map_some])
      refine ⟨hmore, ?_⟩
      rw [hlog]
      exact List.prefix_append _ _
  refine ⟨⟨r, Posting.recvStates_step ha hs hr, hlinked⟩, hguarded, h.replied.step h.guarded.len ha hs, ?_, ?_, ?_,
    hgrows.2, h.received, h.back.trans hgrows.1.flatten⟩
  · exact fun p hp => (List.mem_append.1 hp).elim (h.answered p) (h.replied.answers p)
  · -- what was pending is pending, answered or refused
    have hmoved := (Posting.pending_step ha hs).append_right (s.answered.map Prod.fst ++ s.refused)
    refine h.accounted.trans (hmoved.trans ?_)
    dsimp only
    rw [List.map_append, List.append_assoc]
    refine List.Perm.append_left _ (List.perm_append_comm.trans ?_)
    simp only [List.append_assoc]
    exact (List.perm_append_comm_assoc _ _ _).append_left _
  · dsimp only
    rw [hposted, h.posted, List.map_append, List.map_append, List.map_map (l := s.server.answers i a)]
    rfl

theorem linked {link : Link} (hlink : s.link? i = some link) : ∃ v, s.server.server.recvStates[i]? = some v ∧
    ⟨s.client, s.calls, s.arrived, v, s.handed⟩ = link ∧ link.Linked := by
  obtain ⟨v, hv, hlinked⟩ := h.link
  rw [link?, hv] at hlink
  obtain rfl := Option.some.inj hlink
  exact ⟨v, hv, rfl, hlinked⟩

theorem request {rd : Read} {tnow : BitVec 64} {r : CharArray 32 × BitVec 64 × CInt} {link : Link} {v' : RecvState}
    {hs' : List Handed} {server : Posting} (hlink : s.link? i = some link) (hoffers : link.Offers rd)
    (hrecv : Receiver.server.receive link.server rd = some (v', hs'))
    (hserver : s.server.step (.read_cb i rd tnow (reply r hs')) = some server) :
    Sound i { s with arrived := s.arrived ++ rd.data, handed := s.handed ++ hs', server } := by
  obtain ⟨v, hv, rfl, hlinked⟩ := h.linked hlink
  -- the link takes the same step
  obtain ⟨link', hstep, hlinked', -⟩ := hlinked.read hoffers
  have hlink' : Link.step ⟨s.client, s.calls, s.arrived, v, s.handed⟩ (.read_cb rd) =
      some ⟨s.client, s.calls, s.arrived ++ rd.data, v', s.handed ++ hs'⟩ := by
    rw [Link.step, if_pos hoffers]
    dsimp only
    rw [hrecv]
    rfl
  obtain rfl := Option.some.inj (hstep.symm.trans hlink')
  obtain ⟨c, v'', hs'', hc, hrecv', htasks, hmsgs, hposted, hwritten, hstates⟩ := Posting.read_cb_inv hserver
  have hcv : c.toRecvState = v := by
    rw [Server.recvStates, List.getElem?_map, hc] at hv
    exact Option.some.inj hv
  obtain ⟨rfl, rfl⟩ := Prod.mk.inj (Option.some.inj (hrecv'.symm.trans (hcv ▸ hrecv)))
  have hcmd : ∀ o ∈ s.handed ++ hs'', o.cmd.isSome :=
    ((List.forall₂_and_left _ _).1 (hlinked'.carries.imp fun o c hc => ⟨hc.isSome, hc⟩)).1
  have hguarded := (h.guarded.step (a := .read_cb i rd tnow _) trivial hserver).1
  refine ⟨⟨v'', ?_, hlinked'⟩, hguarded, ?_, h.answered, ?_, ?_, ?_, h.received, ?_⟩
  · show server.server.recvStates[i]? = some v''
    rw [hstates, List.getElem?_modify_eq, hv]
    rfl
  · exact h.replied.append h.guarded.len htasks hmsgs fun _ =>
      replies_reply r (length_receive hoffers.1 hrecv) fun o ho => hcmd o (List.mem_append_right _ ho)
  · show ((s.handed ++ hs'').map Handed.cmd).Perm (server.pending i ++ _)
    rw [Posting.pending_append htasks, if_pos rfl, List.map_append, List.append_assoc]
    refine (h.accounted.append_right _).trans ?_
    rw [List.append_assoc]
    exact List.perm_append_comm.append_left _
  · show Posting.packages i server.posted = _
    rw [hposted]
    exact h.posted
  · show Posting.packages i server.written <+: Posting.packages i server.posted
    rw [hposted, hwritten]
    exact h.written
  · show s.back <+: (Posting.packages i server.written).flatten
    rw [hwritten]
    exact h.back

theorem request_isSome {link : Link} (hlink : s.link? i = some link) {rd : Read} (hrd : link.Offers rd)
    (hrunning : s.server.server.running = true) (hconn : s.server.server.connected i = true)
    (hit : s.server.it = none) (tnow : BitVec 64) (r : CharArray 32 × BitVec 64 × CInt) :
    (s.step i (.request rd tnow r)).isSome := by
  obtain ⟨v, hv, rfl, hlinked⟩ := h.linked hlink
  rw [Server.recvStates, List.getElem?_map] at hv
  obtain ⟨c, hc, rfl⟩ := Option.map_eq_some_iff.1 hv
  obtain ⟨link', hstep, -⟩ := hlinked.read hrd
  rw [Link.step, if_pos hrd] at hstep
  obtain ⟨⟨v', hs'⟩, hrecv, -⟩ := Option.bind_eq_some_iff.1 hstep
  obtain ⟨server, hserver⟩ : ∃ server, s.server.step (.read_cb i rd tnow (reply r hs')) = some server := by
    have hroom : (s.server.server.clients[i]?).any fun c => (rd.data.length : Int) ≤ c.alloc_cb.1 := by
      rw [hc, Option.any_some]
      exact decide_eq_true hrd.2.2
    dsimp only at hrecv
    rw [Posting.step, hit, if_neg (by simp), Server.step, if_pos ⟨hrunning, hconn, hroom⟩, Server.read_cb, hc,
      Option.bind_eq_bind, Option.bind_some, hrecv]
    exact ⟨_, rfl⟩
  rw [Exchange.step, hlink, Option.bind_eq_bind, Option.bind_some, if_pos hrd]
  dsimp only at hrecv ⊢
  rw [hrecv, Option.bind_eq_bind, Option.bind_some, hserver]
  rfl

theorem step {a : ExchangeAction} (ha : s.Sends i a) (hlt : s.client.posted.length < 2 ^ 64)
    (hs : s.step i a = some t) : t.Sound i := by
  obtain ⟨b, client, rfl, hclient, rfl⟩ | ⟨b, server, rfl, hread, hserver, rfl⟩ |
    ⟨rd, tnow, r, link, v, hs', server, rfl, hlink, hoffers, hrecv, hserver, rfl⟩ | ⟨rd, api, hs', rfl, hrd, -⟩ :=
      step_cases hs
  · obtain ⟨r, hr, hlinked⟩ := h.link
    have hlink : Link.step ⟨s.client, s.calls, s.arrived, r, s.handed⟩ (.client b) =
        some ⟨client, s.calls ++ s.client.returns b, s.arrived, r, s.handed⟩ := by
      rw [Link.step]
      dsimp only
      rw [hclient]
      rfl
    exact { h with link := ⟨r, hr, hlinked.step (a := .client b) ha hlt hlink⟩ }
  · exact h.server hread ha.1 hserver
  · exact h.request hlink hoffers hrecv hserver
  · obtain ⟨u, hu, hsound⟩ := h.answer hrd
    obtain rfl := Option.some.inj (hu.symm.trans hs)
    exact hsound

/-- When nothing is under way, all calls have come to an end, and all answers are received. -/
theorem complete (hquiet : s.Quiet i) : s.handed.length = s.calls.length ∧ s.received.length = s.answered.length := by
  obtain ⟨r, -, hlinked⟩ := h.link
  obtain ⟨cs, hrec, hcs⟩ := h.received
  constructor
  · refine hlinked.complete hquiet.empty ?_
    rw [Link.inFlight, hquiet.arrived, List.drop_length]
  · obtain ⟨c, hc, -⟩ := (Option.any_eq_true ..).1 hquiet.connected
    have hlog := h.guarded.log hquiet.connected c.reqBuffer (by rw [Server.buffer?, hc, Option.map_some])
    rw [hquiet.registered, List.replicate_zero, List.append_nil, h.posted] at hlog
    have hall : cs.flatten = ((s.answered.map answerCall).map Call.package).flatten := by
      rw [hcs, hquiet.back, Exchange.written, hlog]
    have hlen := (hrec.carries h.commands (hcs ▸ h.back.trans h.written_flatten)).2 hall
    rwa [List.length_map] at hlen

end Sound

/-! ## Runs -/

theorem sound_new {p q : Posting} {strKey : Bytes} {tnow : BitVec 64} {junk junk' : Nat → UInt8}
    (hp : p.Guarded p.server.clients.length)
    (hq : p.step (.server (.connect_cb true strKey tnow junk junk')) = some q) (junk₁ : Nat → Nat → UInt8)
    (junk₂ : Nat → UInt8) : (new junk₁ junk₂ q).Sound p.server.clients.length := by
  have hguarded := (hp.step (a := .server _) trivial hq).1
  have hnone : p.server.buffer? p.server.clients.length = none := by
    rw [Server.buffer?, List.getElem?_eq_none le_rfl, Option.map_none]
  obtain ⟨hposted, hwritten⟩ := hp.absent hnone
  obtain ⟨server, hserver, -, rfl⟩ := Posting.server_inv hq
  have htasks : server.tasks = p.server.tasks := by
    obtain ⟨server', heq, htasks⟩ := Posting.tasks_server hq
    exact (congrArg (fun p : Posting => p.server.tasks) heq).trans htasks
  have hstates : server.recvStates[p.server.clients.length]? = some (RecvState.new junk) := by
    obtain ⟨-, hserver⟩ := Option.ite_none_right_eq_some.1 hserver
    obtain rfl := Option.some.inj hserver
    have hlen : p.server.clients.length = p.server.recvStates.length := by simp [Server.recvStates]
    rw [Server.recvStates_connect_cb, hlen, List.getElem?_concat_length]
  -- nobody works for the client yet
  have hother : ∀ task ∈ server.tasks, task.client ≠ p.server.clients.length := by
    intro task htask
    have hknown := hp.known task (htasks ▸ htask)
    omega
  have hreceived : Received (Receiver.fresh junk₂ (.client true)) [] [] := ⟨trivial, receiving_fresh _ junk₂, .nil⟩
  have hlinked := Link.linked_new junk₁ junk
  refine ⟨⟨_, hstates, hlinked⟩, hguarded, ?_, ?_, ?_, hposted, ?_, ⟨[], hreceived, rfl⟩, List.nil_prefix⟩
  · intro n task msg htask _ hclient
    exact absurd hclient (hother task (List.mem_of_getElem? htask))
  · intro x hx
    cases hx
  · have hpending : Posting.pending p.server.clients.length { p with server } = [] := by
      rw [Posting.pending, List.filterMap_eq_nil_iff]
      exact fun task htask => if_neg fun hand => hother task htask hand.1
    show List.Perm [] (Posting.pending _ { p with server } ++ ([] ++ []))
    rw [hpending]
    rfl
  · show Posting.packages _ p.written <+: Posting.packages _ p.posted
    rw [hwritten]
    exact List.nil_prefix

theorem posted_step {a : ExchangeAction} (hs : s.step i a = some t) : s.client.posted <+: t.client.posted := by
  obtain ⟨b, client, rfl, hclient, rfl⟩ | ⟨b, server, rfl, -, -, rfl⟩ |
    ⟨rd, tnow, r, link, v, hs, server, rfl, -, -, -, -, rfl⟩ | ⟨rd, api, hs, rfl, -, rfl⟩ := step_cases hs
  · exact Client.posted_step hclient
  · exact List.prefix_rfl
  · exact List.prefix_rfl
  · exact List.prefix_rfl

theorem sound_of_run {as : List ExchangeAction} (h : s.Sound i) (hm : Meets (step i) (Sends i) s as)
    (hr : run (step i) s as = some t) (hlt : t.client.posted.length < 2 ^ 64) : t.Sound i := by
  induction as generalizing s with
  | nil =>
    obtain rfl : s = t := Option.some.inj hr
    exact h
  | cons a as ih =>
    obtain ⟨u, hu, hrest⟩ := run_cons hr
    have hgrows : s.client.posted <+: t.client.posted :=
      (posted_step hu).trans <| run_invariant (I := fun v => u.client.posted <+: v.client.posted)
        (fun v a w hv hw => hv.trans (posted_step hw)) List.prefix_rfl hrest
    have hle := hgrows.length_le
    exact ih (h.step hm.1 (by omega) hu) (hm.2 u hu) hrest

/-! ## A client that is not there yet -/

theorem length_le_step {p q : Posting} {a : PostingAction} (h : p.step a = some q) :
    p.server.recvStates.length ≤ q.server.recvStates.length := by
  by_cases ha : Posting.readsFrom (p.server.recvStates.length - 1) a = true
  · cases a with
    | read_cb j rd tnow msg =>
      obtain ⟨_, _, _, -, -, -, -, -, -, hstates⟩ := Posting.read_cb_inv h
      rw [hstates, List.length_modify]
    | _ => cases ha
  · by_contra hlt
    have hlast : p.server.recvStates.length - 1 < p.server.recvStates.length := by omega
    have hnext := Posting.recvStates_step (Bool.eq_false_of_not_eq_true ha) h (List.getElem?_eq_getElem hlast)
    have hless := (List.getElem?_eq_some_iff.1 hnext).1
    omega

theorem apart_of_absent {p : Posting} (h : p.Guarded i) (hi : p.server.recvStates.length ≤ i) (a : PostingAction) :
    p.Apart i a := by
  rw [Server.recvStates, List.length_map] at hi
  cases a with
  | work_cb n junk =>
    intro task htask hclient
    have hknown := h.known task (List.mem_of_getElem? htask)
    omega
  | idle_rest =>
    intro _ hmem
    have hfree : p.server.flagged i = false := by
      rw [Server.flagged, Server.buffer?, List.getElem?_eq_none hi, Option.map_none, Option.any_none]
    have hzero := (h.flag hfree).1
    have hpos := List.count_pos_iff.2 hmem
    rw [Posting.registered] at hzero
    omega
  | _ => trivial

theorem guarded_of_run {p : Posting} {bs : List PostingAction} (h : run Posting.step Posting.new bs = some p)
    (hi : p.server.recvStates.length ≤ i) : p.Guarded i := by
  refine run_invariant (I := fun p => p.server.recvStates.length ≤ i → p.Guarded i) ?_
    (fun _ => Posting.guarded_new i) h hi
  intro p a q hp hq hlen
  have hle := (length_le_step hq).trans hlen
  exact ((hp hle).step (apart_of_absent (hp hle) hle a) hq).1

theorem sound_of_accepted {p q : Posting} {bs : List PostingAction} {strKey : Bytes} {tnow : BitVec 64}
    {junk junk' junk₂ : Nat → UInt8} {junk₁ : Nat → Nat → UInt8} {as : List ExchangeAction}
    (hp : run Posting.step Posting.new bs = some p)
    (hq : p.step (.server (.connect_cb true strKey tnow junk junk')) = some q)
    (hm : Meets (step p.server.clients.length) (Sends p.server.clients.length) (new junk₁ junk₂ q) as)
    (h : run (step p.server.clients.length) (new junk₁ junk₂ q) as = some s)
    (hlt : s.client.posted.length < 2 ^ 64) : s.Sound p.server.clients.length := by
  have hlen : p.server.recvStates.length = p.server.clients.length := List.length_map _
  have hguarded := guarded_of_run hp hlen.le
  exact sound_of_run (sound_new hguarded hq junk₁ junk₂) hm h hlt

theorem refused_step {a : ExchangeAction} (ha : s.Serves i a) (hs : s.step i a = some t) : t.refused = s.refused := by
  obtain ⟨b, client, rfl, -, rfl⟩ | ⟨b, server, rfl, -, hserver, rfl⟩ |
    ⟨rd, tnow, r, link, v, hs, server, rfl, -, -, -, -, rfl⟩ | ⟨rd, api, hs, rfl, -, rfl⟩ := step_cases hs
  · rfl
  · dsimp only
    rw [Posting.refusals_eq_nil ha.2 hserver, List.append_nil]
  · rfl
  · rfl

/-- How the commands and their answers come over. -/
structure Answered (i : Nat) (s : Exchange) : Prop where
  /-- what was handed over are the commands that were posted, in order -/
  carried : List.Forall₂ Handed.Carries s.handed (s.calls.take s.handed.length)
  /-- each of them is pending, was answered or was refused -/
  accounted : (s.handed.map Handed.cmd).Perm (s.server.pending i ++ (s.answered.map Prod.fst ++ s.refused))
  replies : ∀ p ∈ s.answered, Replies p.1 p.2
  /-- `OnRecvMsg` gets the answers in the order in which they were given -/
  received : List.Forall₂ Handed.Carries s.received ((s.answered.map answerCall).take s.received.length)
  complete : s.Quiet i → s.handed.length = s.calls.length ∧ s.received.length = s.answered.length
  /-- no read brings the client down -/
  reads : ∀ rd, s.Offers i rd → (s.step i (.answer rd)).isSome
  /-- and none the server, as long as its loop is there to read -/
  requests : s.server.server.running = true → s.server.server.connected i = true → s.server.it = none →
    ∀ link rd tnow r, s.link? i = some link → link.Offers rd → (s.step i (.request rd tnow r)).isSome

/-- The server accepts its first client. -/
def accepts : PostingAction := .server (.connect_cb true (text "127.0.0.1:4000") 0 (fun _ => 0) fun _ => 0)

theorem accepts_isSome : (Posting.new.step accepts).isSome := by decide +kernel

def accepted : Posting := Option.get _ accepts_isSome

def posts : ExchangeAction := .client (.PostRequest 0 Link.greeting.serialized 5)

/-- The numbers of the answer. -/
def numbers : CharArray 32 × BitVec 64 × CInt := (Vector.replicate 32 0, 0, 7)

/-- The request goes to the server, a task answers it, and the client reads the answer. -/
def goesRound : List ExchangeAction :=
  let asked := packageOf Link.greeting.serialized 5 .Type_Req
  let replied := packageOf (newTestCommand numbers).serialized 0 .Type_Req
  [.client (.encode (.user 0) fun _ => 0), .client (.tailForward (.user 0)), .client .idle_cb,
      .request ⟨asked.take 12, fun _ => 0⟩ 0 numbers, .request ⟨asked.drop 12, fun _ => 0⟩ 0 numbers,
      .client .req_write_cb] ++
    List.replicate 6 (.server (.work_cb 0 fun _ => 0)) ++
    [.server .swap, .server .uv_write, .server .idle_rest, .server (.server (.req_write_cb 0 0 1)),
      .answer ⟨replied.take 12, fun _ => 0⟩, .answer ⟨replied.drop 12, fun _ => 0⟩]

def start : Exchange := new (fun _ _ => 0) (fun _ => 0) accepted

theorem round_isSome : (run (step 0) start (posts :: goesRound)).isSome := by decide +kernel

def rounded : Exchange := Option.get _ round_isSome

instance (i : Nat) (s : Posting) : (a : PostingAction) → Decidable (Posting.Admits i s a)
  | .work_cb n _ => decidable_of_iff (∀ task ∈ s.server.tasks[n]?, task.client = i →
      (task.stat = .queued → s.server.connected i = true ∧ s.server.bStop = false) ∧
        (task.stat = .testing → s.server.flagged i = false)) Iff.rfl
  | .server _ | .read_cb .. | .after_work_cb _ | .swap | .uv_write | .idle_rest => .isTrue trivial

/-- A step that posts nothing, keeps the tasks apart, and has their calls admitted. -/
def Goes (s : Exchange) : ExchangeAction → Prop
  | .client (.encode ..) | .client (.tailForward _) | .client .idle_cb | .client .req_write_cb => True
  | .server (.server (.hbt_timer_cb _)) | .client _ => False
  | .server a => s.server.Apart 0 a ∧ s.server.Admits 0 a
  | .request .. | .answer _ => True

instance (s : Exchange) : (a : ExchangeAction) → Decidable (s.Goes a)
  | .client (.encode ..) | .client (.tailForward _) | .client .idle_cb | .client .req_write_cb => .isTrue trivial
  | .client (.PostRequest ..) | .client (.PushMessage ..) | .client .sendHeartbeat => .isFalse id
  | .server (.server (.hbt_timer_cb _)) => .isFalse id
  | .server (.server .Start) | .server (.server .Stop) | .server (.server (.connect_cb ..))
  | .server (.server (.read_cb ..)) | .server (.server (.read_error ..)) | .server (.server (.req_write_cb ..))
  | .server (.server (.closed _)) | .server (.server .idle_cb) | .server (.server (.work_cb ..))
  | .server (.server (.after_work_cb _)) => .isTrue ⟨trivial, trivial⟩
  | .server (.read_cb ..) | .server (.after_work_cb _) | .server .swap | .server .uv_write =>
    .isTrue ⟨trivial, trivial⟩
  | .server (.work_cb n junk) =>
    inferInstanceAs (Decidable (s.server.Apart 0 (.work_cb n junk) ∧ s.server.Admits 0 (.work_cb n junk)))
  | .server .idle_rest => inferInstanceAs (Decidable (s.server.Apart 0 .idle_rest ∧ s.server.Admits 0 .idle_rest))
  | .request .. | .answer _ => .isTrue trivial

theorem Goes.serves {a : ExchangeAction} (h : s.Goes a) : s.Serves 0 a := by
  cases a with
  | client a => cases a <;> first | exact h.elim | exact ⟨⟨trivial, by simp [QueueAction.message]⟩, trivial⟩
  | server a =>
    cases a with
    | server a => cases a <;> first | exact h.elim | exact ⟨⟨trivial, trivial⟩, trivial⟩
    | _ => exact ⟨⟨h.1, trivial⟩, h.2⟩
  | _ => exact ⟨trivial, trivial⟩

theorem posted_isSome : (start.step 0 posts).isSome := by decide +kernel

theorem goes_goesRound : Meets (step 0) Goes (Option.get _ posted_isSome) goesRound := by decide +kernel

theorem rounded_counts : rounded.handed.length = 1 ∧ rounded.answered.length = 1 ∧ rounded.received.length = 1 ∧
    rounded.client.posted.length = 1 := by
  decide +kernel

theorem quiet_rounded : rounded.Quiet 0 where
  connected := by decide +kernel
  empty := by decide +kernel
  arrived := by decide +kernel
  handled := List.isEmpty_iff.1 (by decide +kernel)
  registered := by decide +kernel
  back := by decide +kernel

theorem serves_round : Meets (step 0) (Serves 0) start (posts :: goesRound) := by
  refine ⟨⟨⟨.inr fun _ => rfl, ?_⟩, trivial⟩, fun t ht => ?_⟩
  · intro msg hmsg
    obtain rfl := Option.some.inj hmsg
    exact Link.isCommand_greeting
  · obtain rfl : Option.get _ posted_isSome = t := Option.some.inj ((Option.some_get posted_isSome).trans ht)
    exact meets_of_meets (I := fun _ => True) (fun _ _ _ _ _ _ => trivial) (fun _ _ _ h => h.serves) trivial
      goes_goesRound

theorem run_nil : run Posting.step Posting.new [] = some Posting.new := rfl

theorem posted_rounded : rounded.client.posted.length < 2 ^ 64 := by
  rw [rounded_counts.2.2.2]
  decide

end Exchange

end CppLinuxLearn.Solcom
