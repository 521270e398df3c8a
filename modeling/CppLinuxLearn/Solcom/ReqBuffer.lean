import CppLinuxLearn.Solcom.ClientMap

/-!
# One package at a time for a client

The tasks of the pool that post for a client of the server, and the loop that writes for them. The
client has one `reqBuffer`, and a flag that says it is taken. `postMsg` tests the flag and sets it in two
steps, so two tasks can both find it free. In runs where this does not happen, a package that is
registered or being written is alone and is not touched, and each one that was posted is written once.

`writeHandle` is taken apart: the tasks go on while the loop is in it.
-/

namespace CppLinuxLearn.Solcom

open Lib Steps

structure Posting where
  server : Server
  /-- what each task answers with -/
  msgs : List ISerializable
  /-- in the loop of `writeHandle`: the clients of `listWeventBck` that are ahead -/
  it : Option (List Nat)
  /-- the packages of the calls of `postMsg` that returned 0, with their clients -/
  posted : List (Nat × Bytes)
  /-- what was passed to `uv_write` -/
  written : List (Nat × Bytes)

inductive PostingAction
  /-- `Start`, `Stop`, or a callback of the loop that is none of those below -/
  | server (a : ServerAction)
  /-- `msg` answers the command, if there is one -/
  | read_cb (i : Nat) (rd : Read) (tnow : BitVec 64) (msg : ISerializable)
  | work_cb (t : Nat) (junk : Nat → UInt8)
  | after_work_cb (t : Nat)
  /-- `idle_cb` calls `writeHandle`, which swaps the lists -/
  | swap
  /-- the next client of `listWeventBck` -/
  | uv_write
  /-- the rest of `writeHandle` and of `idle_cb` -/
  | idle_rest

namespace Server
variable (s : Server)

def buffer? (i : Nat) : Option (CByteArray × Bool) := (s.clients[i]?).map (·.reqBuffer)

/-- `client->reqBuffer.second` -/
def flagged (i : Nat) : Bool := (s.buffer? i).any (·.2)

/-- What comes after the loop of `writeHandle`. -/
def idleRest : Server :=
  let s := { s with listWeventBck := [] }
  if s.bStop then
    let s := { s with listWevent := [], listWeventBck := [] }
    { s.closeAll (s.mapConnClient.map Prod.snd) with running := false }
  else s

end Server

namespace Posting

def new : Posting := ⟨.new, [], none, [], []⟩

section
variable (s : Posting)

/-- The call of `postMsg` returns 0 behind `WeventCtl`. -/
def work_cb (t : Nat) (junk : Nat → UInt8) : Option Posting := do
  let task ← s.server.tasks[t]?
  let msg ← s.msgs[t]?
  let server ← s.server.workStep t msg junk
  some { s with
    server := server
    posted := if task.stat = .registering then s.posted ++ [(task.client, packageOf msg 0 .Type_Req)]
      else s.posted }

def uv_write (i : Nat) (is : List Nat) : Option Posting := do
  let byteArr ← s.server.buffer? i
  some { s with
    server := s.server.writeClient i
    it := some is
    written := if s.server.connected i then s.written ++ [(i, byteArr.1.filled)] else s.written }

def step : PostingAction → Option Posting
  | .server a => match a with
    | .read_cb _ _ _ | .work_cb _ _ _ | .after_work_cb _ | .idle_cb => none
    | .Start | .Stop => (s.server.step a).map fun server => { s with server := server }
    | a => if s.it.isSome then none else (s.server.step a).map fun server => { s with server := server }
  | .read_cb i rd tnow msg =>
    if s.it.isSome then none
    else (s.server.step (.read_cb i rd tnow)).map fun server => { s with
      server := server
      msgs := s.msgs ++ List.replicate (server.tasks.length - s.server.tasks.length) msg }
  | .work_cb t junk => s.work_cb t junk
  | .after_work_cb t =>
    if s.it.isSome then none
    else (s.server.step (.after_work_cb t)).map fun server => { s with
      server := server
      msgs := s.msgs.eraseIdx t }
  | .swap =>
    if s.it.isSome || !s.server.running then none
    else some { s with
      server := { s.server with
        listWevent := s.server.listWeventBck
        listWeventBck := s.server.listWevent }
      it := some s.server.listWevent }
  | .uv_write => match s.it with
    | some (i :: is) => s.uv_write i is
    | _ => none
  | .idle_rest => match s.it with
    | some [] => some { s with server := s.server.idleRest, it := none }
    | _ => none

end

/-! ## One call of `idle_cb` -/

theorem run_uv_write {s : Posting} {is : List Nat} (hit : s.it = some is)
    (hknown : ∀ j ∈ is, (s.server.buffer? j).isSome) : ∃ t,
    run step s (List.replicate is.length .uv_write) = some t ∧
      t.server = is.foldl Server.writeClient s.server ∧ t.it = some [] := by
  induction is generalizing s with
  | nil => exact ⟨s, rfl, rfl, hit⟩
  | cons j is ih =>
    obtain ⟨b, hb⟩ := Option.isSome_iff_exists.1 (hknown j List.mem_cons_self)
    obtain ⟨u, hu, hserver, hit'⟩ : ∃ u, s.step .uv_write = some u ∧
        u.server = s.server.writeClient j ∧ u.it = some is := by
      refine ⟨{ s with
        server := s.server.writeClient j
        it := some is
        written := if s.server.connected j then s.written ++ [(j, b.1.filled)] else s.written }, ?_, rfl, rfl⟩
      rw [step, hit]
      simp only [uv_write, hb, Option.bind_eq_bind, Option.bind_some]
    have hclients : u.server.clients = s.server.clients := by
      rw [hserver]
      unfold Server.writeClient
      split <;> rfl
    obtain ⟨t, ht, hall, hdone⟩ := ih hit' fun k hk => by
      rw [Server.buffer?, hclients]
      exact hknown k (List.mem_cons_of_mem j hk)
    exact ⟨t, Option.bind_eq_some_iff.2 ⟨u, hu, ht⟩, by rw [hall, hserver, List.foldl_cons], hdone⟩

theorem run_idle_cb {s : Posting} (hrun : s.server.running = true) (hit : s.it = none)
    (hknown : ∀ j ∈ s.server.listWevent, (s.server.buffer? j).isSome) : ∃ t,
    run step s (.swap :: List.replicate s.server.listWevent.length .uv_write ++ [.idle_rest]) = some t ∧
      t.server = s.server.idle_cb := by
  have hswap : s.step .swap = some { s with
      server := { s.server with
        listWevent := s.server.listWeventBck
        listWeventBck := s.server.listWevent }
      it := some s.server.listWevent } := by
    rw [step, hit, hrun]
    rfl
  obtain ⟨u, hu, hserver, hdone⟩ := run_uv_write (s := { s with
      server := { s.server with
        listWevent := s.server.listWeventBck
        listWeventBck := s.server.listWevent }
      it := some s.server.listWevent }) rfl hknown
  have hrest : u.step .idle_rest = some { u with server := u.server.idleRest, it := none } := by
    rw [step, hdone]
  refine ⟨{ u with server := u.server.idleRest, it := none }, ?_, ?_⟩
  · refine Option.bind_eq_some_iff.2 ⟨_, hswap, run_append_of hu ?_⟩
    exact Option.bind_eq_some_iff.2 ⟨_, hrest, rfl⟩
  · rw [hserver]
    rfl

/-! ## One package at a time -/

/-- The task is in `postMsg` for the client, and has found the flag free. -/
def works (i : Nat) (task : CommandTask) : Bool :=
  task.client = i && (task.stat = .setting || task.stat = .encoding || task.stat = .registering)

def working (s : Posting) (i : Nat) : Nat := s.server.tasks.countP (works i)

/-- The registrations of the client: in `listWevent`, or ahead in `listWeventBck`. -/
def registered (s : Posting) (i : Nat) : Nat := s.server.listWevent.count i + (s.it.getD []).count i

/-- A registration or a write of the client exists. -/
def Holds (s : Posting) (i : Nat) : Prop := 0 < s.registered i + s.server.writes.count i

/-- The packages in the log that are for the client. -/
def packages (i : Nat) (log : List (Nat × Bytes)) : List Bytes :=
  log.filterMap fun p => if p.1 = i then some p.2 else none

/-- There is one registration or one write at most, and as long as the client is connected, what is not
registered any more has been written, each package once and in order. -/
structure OnePackage (i : Nat) (s : Posting) : Prop where
  one : s.registered i + s.server.writes.count i ≤ 1
  delivered : s.server.connected i = true → s.registered i = 0 → packages i s.posted = packages i s.written

/-- The step does not change the content of the buffer while a registration or a write exists. -/
def Untouched (i : Nat) (s : Posting) (a : PostingAction) : Prop :=
  ∀ t, s.step a = some t → s.Holds i → t.Holds i →
    (t.server.buffer? i).map Prod.fst = (s.server.buffer? i).map Prod.fst

/-- A task that finds the flag free does not do so between another's test and its setting of the flag;
and no registration is dropped when the loop stops, unless the client is closed then. -/
def Apart (i : Nat) (s : Posting) : PostingAction → Prop
  | .work_cb t _ => ∀ task, s.server.tasks[t]? = some task → task.client = i → task.stat = .testing →
    s.server.flagged i = false → ∀ task' ∈ s.server.tasks, task'.client = i → task'.stat ≠ .setting
  | .idle_rest => s.server.bStop = true → i ∈ s.server.listWevent →
    i ∈ s.server.mapConnClient.map Prod.snd
  | _ => True

/-- The invariant for a client. A call that has set the flag, a registration or a write is alone, and
the buffer then holds the package that was posted last. -/
structure Guarded (i : Nat) (s : Posting) : Prop where
  len : s.msgs.length = s.server.tasks.length
  bck : s.it = none → s.server.listWeventBck = []
  known : ∀ task ∈ s.server.tasks, task.client < s.server.clients.length
  one : s.working i + s.registered i + s.server.writes.count i ≤ 1
  flag : s.server.flagged i = false → s.registered i = 0 ∧ s.server.writes.count i = 0 ∧
    ∀ task ∈ s.server.tasks, task.client = i → task.stat ≠ .encoding ∧ task.stat ≠ .registering
  slot : ∀ b, s.server.buffer? i = some b → IsSlot b.1
  package : ∀ (n : Nat) (task : CommandTask) (msg : ISerializable) (b : CByteArray × Bool),
    s.server.tasks[n]? = some task → s.msgs[n]? = some msg → task.client = i →
    task.stat = .registering → s.server.buffer? i = some b → b.1.filled = packageOf msg 0 .Type_Req
  log : s.server.connected i = true → ∀ b, s.server.buffer? i = some b →
    packages i s.posted = packages i s.written ++ List.replicate (s.registered i) b.1.filled
  absent : s.server.buffer? i = none → packages i s.posted = [] ∧ packages i s.written = []

end Posting

/-! ## What does not concern the client's writes -/

namespace Server

section
variable {s t u : Server} {i j : Nat}

/-- The tasks, the lists, and the writes and the buffer of the client are as before, and it has not
become connected. -/
structure SameSide (i : Nat) (s t : Server) : Prop where
  tasks : t.tasks = s.tasks
  listWevent : t.listWevent = s.listWevent
  listWeventBck : t.listWeventBck = s.listWeventBck
  writes : t.writes.count i = s.writes.count i
  length : s.clients.length ≤ t.clients.length
  buffer : t.buffer? i = s.buffer? i
  connected : t.connected i = true → s.connected i = true

theorem SameSide.refl (s : Server) : SameSide i s s := ⟨rfl, rfl, rfl, rfl, le_rfl, rfl, id⟩

theorem SameSide.trans (h : SameSide i s t) (h' : SameSide i t u) : SameSide i s u :=
  ⟨h'.tasks.trans h.tasks, h'.listWevent.trans h.listWevent, h'.listWeventBck.trans h.listWeventBck,
    h'.writes.trans h.writes, h.length.trans h'.length, h'.buffer.trans h.buffer,
    fun hc => h.connected (h'.connected hc)⟩

theorem buffer?_modifyClient (f : SolConnClient → SolConnClient) : (s.modifyClient j f).buffer? i =
    if j = i then (s.clients[i]?).map fun c => (f c).reqBuffer else s.buffer? i := by
  rw [buffer?, modifyClient]
  by_cases hji : j = i
  · rw [hji, if_pos rfl, List.getElem?_modify_eq]
    cases s.clients[i]? <;> rfl
  · rw [if_neg hji, List.getElem?_modify_ne f _ hji]
    rfl

theorem buffer?_modifyClient_self {f : SolConnClient → SolConnClient}
    {g : CByteArray × Bool → CByteArray × Bool} (hf : ∀ c, (f c).reqBuffer = g c.reqBuffer) :
    (s.modifyClient i f).buffer? i = (s.buffer? i).map g := by
  rw [buffer?_modifyClient, if_pos rfl, buffer?, Option.map_map]
  exact congrArg (Option.map · _) (funext hf)

theorem buffer?_modifyClient_of_eq {f : SolConnClient → SolConnClient}
    (hf : ∀ c, (f c).reqBuffer = c.reqBuffer) : (s.modifyClient j f).buffer? i = s.buffer? i := by
  rw [buffer?_modifyClient]
  simp only [hf]
  exact ite_self _

theorem sameSide_modifyClient {f : SolConnClient → SolConnClient} (hf : ∀ c, (f c).reqBuffer = c.reqBuffer)
    (hconn : ∀ c, (f c).bConnected = true → c.bConnected = true) : SameSide i s (s.modifyClient j f) := by
  refine ⟨rfl, rfl, rfl, rfl, (List.length_modify ..).ge, buffer?_modifyClient_of_eq hf, fun hc => ?_⟩
  rw [connected_modifyClient] at hc
  split at hc
  · obtain ⟨c, hget, hc⟩ := (Option.any_eq_true ..).1 hc
    exact (Option.any_eq_true ..).2 ⟨c, hget, hconn c hc⟩
  · exact hc

theorem sameSide_closeClient (s : Server) (i j : Nat) : SameSide i s (s.closeClient j) := by
  unfold closeClient
  split
  · have h : SameSide i s (s.modifyClient j fun c => { c with bConnected := false }) :=
      sameSide_modifyClient (fun _ => rfl) fun _ hc => absurd hc Bool.false_ne_true
    exact ⟨h.tasks, h.listWevent, h.listWeventBck, h.writes, h.length, h.buffer, h.connected⟩
  · exact .refl s

theorem sameSide_closeAll (s : Server) (i : Nat) (js : List Nat) : SameSide i s (s.closeAll js) := by
  induction js generalizing s with
  | nil => exact .refl s
  | cons j js ih => exact (sameSide_closeClient s i j).trans (ih (s.closeClient j))

theorem sameSide_hbt_timer_cb (s : Server) (i : Nat) (tnow : BitVec 64) :
    SameSide i s (s.hbt_timer_cb tnow) := by
  have h := sameSide_closeAll s i ((s.mapConnClient.map Prod.snd).filter (s.expired tnow))
  exact ⟨h.tasks, h.listWevent, h.listWeventBck, h.writes, h.length, h.buffer, h.connected⟩

theorem connect_cb_spec (s : Server) (i : Nat) (accepted : Bool) (strKey : Bytes) (tnow : BitVec 64)
    (junk junk' : Nat → UInt8) :
    SameSide i s (s.connect_cb accepted strKey tnow junk junk') ∨
      s.buffer? i = none ∧ (s.connect_cb accepted strKey tnow junk junk').tasks = s.tasks ∧
        (s.connect_cb accepted strKey tnow junk junk').listWevent = s.listWevent ∧
        (s.connect_cb accepted strKey tnow junk junk').listWeventBck = s.listWeventBck ∧
        (s.connect_cb accepted strKey tnow junk junk').writes = s.writes ∧
        s.clients.length ≤ (s.connect_cb accepted strKey tnow junk junk').clients.length ∧
        (s.connect_cb accepted strKey tnow junk junk').buffer? i = some (.new junk' 1424, false) := by
  obtain ⟨client, mapConnClient, closing, heq, hbuf⟩ : ∃ client mapConnClient closing,
      s.connect_cb accepted strKey tnow junk junk' = { s with
        clients := s.clients ++ [client]
        mapConnClient := mapConnClient
        closing := closing } ∧ client.reqBuffer = (.new junk' 1424, false) := by
    unfold Server.connect_cb
    split
    · dsimp only
      split
      · exact ⟨_, _, _, rfl, rfl⟩
      · exact ⟨_, _, _, rfl, rfl⟩
    · exact ⟨_, _, _, rfl, rfl⟩
  have hlen : s.clients.length ≤ (s.clients ++ [client]).length := by
    rw [List.length_append]
    exact Nat.le_add_right ..
  rw [heq]
  by_cases hi : i = s.clients.length
  · refine .inr ⟨?_, rfl, rfl, rfl, rfl, hlen, ?_⟩
    · rw [buffer?, hi, List.getElem?_eq_none le_rfl]
      rfl
    · rw [buffer?, hi]
      show ((s.clients ++ [client])[s.clients.length]?).map _ = _
      rw [List.getElem?_concat_length, Option.map_some, hbuf]
  · have hget : (s.clients ++ [client])[i]? = s.clients[i]? := by
      rcases Nat.lt_or_gt_of_ne hi with hlt | hgt
      · exact List.getElem?_append_left hlt
      · rw [List.getElem?_eq_none (by simp; omega), List.getElem?_eq_none hgt.le]
    refine .inl ⟨rfl, rfl, rfl, rfl, hlen, congrArg (Option.map _) hget, fun hc => ?_⟩
    exact (congrArg (Option.any _) hget).symm.trans hc

end

end Server

namespace Posting

section
variable {s t : Posting} {i : Nat}

theorem packages_append (i : Nat) (log log' : List (Nat × Bytes)) :
    packages i (log ++ log') = packages i log ++ packages i log' := List.filterMap_append

theorem packages_concat (i j : Nat) (log : List (Nat × Bytes)) (b : Bytes) :
    packages i (log ++ [(j, b)]) = packages i log ++ if j = i then [b] else [] := by
  rw [packages_append]
  by_cases hji : j = i <;> simp [packages, hji]

theorem guarded_new (i : Nat) : new.Guarded i where
  len := rfl
  bck _ := rfl
  known := nofun
  one := Nat.zero_le 1
  flag _ := ⟨rfl, rfl, nofun⟩
  slot := nofun
  package _ _ _ _ htask := by cases htask
  log := nofun
  absent _ := ⟨rfl, rfl⟩

theorem Guarded.onePackage (h : s.Guarded i) : OnePackage i s where
  one := by
    have := h.one
    omega
  delivered hconn hnone := by
    obtain ⟨c, hc, -⟩ := (Option.any_eq_true ..).1 hconn
    have hlog := h.log hconn c.reqBuffer (by rw [Server.buffer?, hc, Option.map_some])
    rwa [hnone, List.replicate_zero, List.append_nil] at hlog

theorem Guarded.same {server : Server} (h : s.Guarded i) (hs : Server.SameSide i s.server server) :
    Guarded i { s with server := server } := by
  have hwork : Posting.working { s with server := server } i = s.working i := by
    show server.tasks.countP _ = _
    rw [hs.tasks]
    rfl
  have hreg : Posting.registered { s with server := server } i = s.registered i := by
    show server.listWevent.count i + _ = _
    rw [hs.listWevent]
    rfl
  have hflag : server.flagged i = s.server.flagged i := congrArg (Option.any _) hs.buffer
  refine ⟨h.len.trans (congrArg _ hs.tasks).symm, fun hit => hs.listWeventBck.trans (h.bck hit), ?_, ?_, ?_,
    ?_, ?_, fun hc b hb => ?_, fun hb => h.absent (hs.buffer ▸ hb)⟩
  · intro task htask
    exact (h.known task (hs.tasks ▸ htask)).trans_le hs.length
  · show Posting.working _ i + Posting.registered _ i + server.writes.count i ≤ 1
    rw [hwork, hreg, hs.writes]
    exact h.one
  · intro hf
    obtain ⟨hr, hw, htasks⟩ := h.flag (hflag ▸ hf)
    exact ⟨hreg.trans hr, hs.writes.trans hw, fun task htask => htasks task (hs.tasks ▸ htask)⟩
  · intro b hb
    exact h.slot b (hs.buffer ▸ hb)
  · intro n task msg b htask hmsg hclient hstat hb
    exact h.package n task msg b (hs.tasks ▸ htask) hmsg hclient hstat (hs.buffer ▸ hb)
  · rw [hreg]
    exact h.log (hs.connected hc) b (hs.buffer ▸ hb)

theorem Guarded.connect_cb (h : s.Guarded i) (accepted : Bool) (strKey : Bytes) (tnow : BitVec 64)
    (junk junk' : Nat → UInt8) :
    Guarded i { s with server := s.server.connect_cb accepted strKey tnow junk junk' } := by
  rcases s.server.connect_cb_spec i accepted strKey tnow junk junk' with
    hs | ⟨hnone, htasks, hlist, hbck, hwrites, hlen, hbuf⟩
  · exact h.same hs
  generalize s.server.connect_cb accepted strKey tnow junk junk' = server at htasks hlist hbck hwrites hlen hbuf
  have hfree : s.server.flagged i = false := by rw [Server.flagged, hnone, Option.any_none]
  obtain ⟨hr, hw, hstats⟩ := h.flag hfree
  obtain ⟨hposted, hwritten⟩ := h.absent hnone
  have hreg : Posting.registered { s with server := server } i = 0 := by
    show server.listWevent.count i + _ = 0
    rw [hlist]
    exact hr
  refine ⟨h.len.trans (congrArg _ htasks).symm, fun hit => hbck.trans (h.bck hit), ?_, ?_, ?_, ?_, ?_,
    fun _ b hb => ?_, fun hb => ?_⟩
  · intro task htask
    exact (h.known task (htasks ▸ htask)).trans_le hlen
  · show server.tasks.countP _ + Posting.registered _ i + server.writes.count i ≤ 1
    rw [htasks, hreg, hwrites, ← hr]
    exact h.one
  · intro _
    exact ⟨hreg, (congrArg (List.count i) hwrites).trans hw, fun task htask => hstats task (htasks ▸ htask)⟩
  · intro b hb
    rw [← Option.some.inj (hbuf.symm.trans hb)]
    exact isSlot_new junk'
  · intro n task msg b htask hmsg hclient hstat
    exact absurd hstat (hstats task (htasks ▸ List.mem_of_getElem? htask) hclient).2
  · rw [hreg]
    show packages i s.posted = packages i s.written ++ _
    rw [hposted, hwritten]
    rfl
  · exact absurd (hbuf.symm.trans hb) nofun

theorem Guarded.req_write_cb (h : s.Guarded i) (hmem : i ∈ s.server.writes) : Guarded i { s with
    server := Server.modifyClient { s.server with writes := s.server.writes.erase i } i
      fun c => { c with reqBuffer := (c.reqBuffer.1.Init, false) } } := by
  have hpos : 0 < s.server.writes.count i := List.count_pos_iff.2 hmem
  have hone := h.one
  have hreg : s.registered i = 0 := by omega
  have hwrites : (s.server.writes.erase i).count i = 0 := by
    rw [List.count_erase_self]
    omega
  have hidle : ∀ task ∈ s.server.tasks, ¬ works i task = true := by
    rw [← List.countP_eq_zero]
    show s.working i = 0
    omega
  have hbuf := Server.buffer?_modifyClient_self (s := { s.server with writes := s.server.writes.erase i })
    (i := i) (f := fun c => { c with reqBuffer := (c.reqBuffer.1.Init, false) })
    (g := fun b => (b.1.Init, false)) fun _ => rfl
  have hconn := Server.connected_modifyClient_of_eq { s.server with writes := s.server.writes.erase i } i i
    (f := fun c => { c with reqBuffer := (c.reqBuffer.1.Init, false) }) fun _ => rfl
  have hstat : ∀ task ∈ s.server.tasks, task.client = i → task.stat ≠ .encoding ∧ task.stat ≠ .registering := by
    intro task htask hclient
    have hnot := hidle task htask
    constructor <;> intro hstat <;> simp [works, hclient, hstat] at hnot
  refine ⟨h.len, h.bck, ?_, ?_, fun _ => ⟨hreg, hwrites, hstat⟩, ?_, ?_, fun hc b hb => ?_, fun hb => ?_⟩
  · intro task htask
    exact (h.known task htask).trans_le (List.length_modify ..).ge
  · show s.working i + s.registered i + (s.server.writes.erase i).count i ≤ 1
    omega
  · intro b hb
    obtain ⟨b', hb', rfl⟩ := Option.map_eq_some_iff.1 (hbuf.symm.trans hb)
    exact ⟨(h.slot b' hb').capacity, (h.slot b' hb').room⟩
  · intro n task msg b htask _ hclient hreg
    exact absurd hreg (hstat task (List.mem_of_getElem? htask) hclient).2
  · obtain ⟨b', hb', -⟩ := Option.map_eq_some_iff.1 (hbuf.symm.trans hb)
    have hlog := h.log (hconn.symm.trans hc) b' hb'
    show packages i s.posted = packages i s.written ++ List.replicate (s.registered i) _
    rw [hreg] at hlog ⊢
    exact hlog
  · exact h.absent (Option.map_eq_none_iff.1 (hbuf.symm.trans hb))

theorem Guarded.queue (h : s.Guarded i) {tasks : List CommandTask} (hstat : ∀ task ∈ tasks, task.stat = .queued)
    (hknown : ∀ task ∈ tasks, task.client < s.server.clients.length) (msg : ISerializable) :
    Guarded i { s with
      server := { s.server with tasks := s.server.tasks ++ tasks }
      msgs := s.msgs ++ List.replicate tasks.length msg } := by
  have hidle : tasks.countP (works i) = 0 := by
    rw [List.countP_eq_zero]
    intro task htask
    simp [works, hstat task htask]
  refine ⟨?_, h.bck, ?_, ?_, fun hf => ?_, h.slot, ?_, h.log, h.absent⟩
  · rw [List.length_append, List.length_append, List.length_replicate, h.len]
  · intro task htask
    exact (List.mem_append.1 htask).elim (h.known task) (hknown task)
  · show (s.server.tasks ++ tasks).countP (works i) + s.registered i + s.server.writes.count i ≤ 1
    rw [List.countP_append, hidle]
    exact h.one
  · obtain ⟨hr, hw, hold⟩ := h.flag hf
    refine ⟨hr, hw, fun task htask hclient => ?_⟩
    rcases List.mem_append.1 htask with htask | htask
    · exact hold task htask hclient
    · rw [hstat task htask]
      exact ⟨nofun, nofun⟩
  · intro n task m b htask hm hclient hreg hb
    rcases Nat.lt_or_ge n s.server.tasks.length with hlt | hge
    · rw [List.getElem?_append_left hlt] at htask
      rw [List.getElem?_append_left (h.len ▸ hlt)] at hm
      exact h.package n task m b htask hm hclient hreg hb
    · rw [List.getElem?_append_right hge] at htask
      rw [hstat task (List.mem_of_getElem? htask)] at hreg
      cases hreg

theorem Guarded.eraseTask (h : s.Guarded i) (n : Nat) : Guarded i { s with
    server := { s.server with tasks := s.server.tasks.eraseIdx n }
    msgs := s.msgs.eraseIdx n } := by
  refine ⟨?_, h.bck, fun task htask => h.known task (List.mem_of_mem_eraseIdx htask), ?_, fun hf => ?_,
    h.slot, ?_, h.log, h.absent⟩
  · rw [List.length_eraseIdx, List.length_eraseIdx, h.len]
  · have hle := (List.eraseIdx_sublist s.server.tasks n).countP_le (p := works i)
    have hone : s.server.tasks.countP (works i) + s.registered i + s.server.writes.count i ≤ 1 := h.one
    show (s.server.tasks.eraseIdx n).countP (works i) + s.registered i + s.server.writes.count i ≤ 1
    omega
  · obtain ⟨hr, hw, hold⟩ := h.flag hf
    exact ⟨hr, hw, fun task htask => hold task (List.mem_of_mem_eraseIdx htask)⟩
  · intro k task m b htask hm hclient hreg hb
    rw [List.getElem?_eraseIdx] at htask hm
    split at htask
    · rw [if_pos ‹_›] at hm
      exact h.package k task m b htask hm hclient hreg hb
    · rw [if_neg ‹_›] at hm
      exact h.package (k + 1) task m b htask hm hclient hreg hb

/-! ## The tasks -/

theorem getElem?_setStat {server : Server} {n k : Nat} {task x : CommandTask} {stat : TaskStat}
    (htask : server.tasks[n]? = some task) (hx : (server.setStat n stat).tasks[k]? = some x) :
    n ≠ k ∧ server.tasks[k]? = some x ∨ n = k ∧ x = { task with stat := stat } := by
  by_cases hnk : n = k
  · rw [Server.setStat, ← hnk, List.getElem?_modify_eq, htask] at hx
    exact .inr ⟨hnk, (Option.some.inj hx).symm⟩
  · rw [Server.setStat, List.getElem?_modify_ne _ _ hnk] at hx
    exact .inl ⟨hnk, hx⟩

theorem known_setStat {server : Server} {n : Nat} {task : CommandTask} {stat : TaskStat} {m : Nat}
    (htask : server.tasks[n]? = some task) (h : ∀ x ∈ server.tasks, x.client < m) :
    ∀ x ∈ (server.setStat n stat).tasks, x.client < m := by
  intro x hx
  obtain ⟨k, hk⟩ := List.mem_iff_getElem?.1 hx
  rcases getElem?_setStat htask hk with ⟨-, hk⟩ | ⟨-, rfl⟩
  · exact h x (List.mem_of_getElem? hk)
  · exact h task (List.mem_of_getElem? htask)

theorem works_eq_false {task : CommandTask} (h : task.client = i → task.stat ≠ .setting ∧
    task.stat ≠ .encoding ∧ task.stat ≠ .registering) : works i task = false := by
  by_cases hi : task.client = i
  · obtain ⟨h₁, h₂, h₃⟩ := h hi
    simp [works, h₁, h₂, h₃]
  · simp [works, hi]

theorem of_works_eq_false {task : CommandTask} (h : works i task = false) (hi : task.client = i) :
    task.stat ≠ .setting ∧ task.stat ≠ .encoding ∧ task.stat ≠ .registering := by
  simpa [works, hi, and_assoc] using h

theorem works_done (i : Nat) (task : CommandTask) : works i { task with stat := .done } = false := by
  simp [works]

theorem Guarded.moved (h : s.Guarded i) {n : Nat} {task : CommandTask} (stat : TaskStat)
    (htask : s.server.tasks[n]? = some task) (hold : works i task = false)
    (hnew : works i { task with stat := stat } = false) : Guarded i { s with
    server := s.server.setStat n stat } := by
  have hcount := countP_modify_add htask (works i) fun task => { task with stat := stat }
  rw [hold, hnew, Bool.toNat_false] at hcount
  have hone : s.server.tasks.countP (works i) + s.registered i + s.server.writes.count i ≤ 1 := h.one
  refine ⟨h.len.trans (List.length_modify ..).symm, h.bck, known_setStat htask h.known, ?_, fun hf => ?_,
    h.slot, fun k x msg b hx hm hclient hstat hb => ?_, h.log, h.absent⟩
  · show (s.server.tasks.modify n _).countP (works i) + s.registered i + s.server.writes.count i ≤ 1
    omega
  · obtain ⟨hr, hw, hstats⟩ := h.flag hf
    refine ⟨hr, hw, fun x hx hclient => ?_⟩
    obtain ⟨k, hk⟩ := List.mem_iff_getElem?.1 hx
    rcases getElem?_setStat htask hk with ⟨-, hk⟩ | ⟨-, rfl⟩
    · exact hstats x (List.mem_of_getElem? hk) hclient
    · exact (of_works_eq_false hnew hclient).2
  · rcases getElem?_setStat htask hx with ⟨-, hk⟩ | ⟨-, rfl⟩
    · exact h.package k x msg b hk hm hclient hstat hb
    · exact absurd hstat (of_works_eq_false hnew hclient).2.2

theorem Guarded.pass (h : s.Guarded i) {n : Nat} {task : CommandTask} (htask : s.server.tasks[n]? = some task)
    (hfree : s.server.flagged i = false)
    (hapart : ∀ task' ∈ s.server.tasks, task'.client = i → task'.stat ≠ .setting) :
    Guarded i { s with server := s.server.setStat n .setting } := by
  obtain ⟨hr, hw, hstats⟩ := h.flag hfree
  have hidle : s.server.tasks.countP (works i) = 0 := by
    rw [List.countP_eq_zero]
    intro x hx
    rw [works_eq_false fun hi => ⟨hapart x hx hi, hstats x hx hi⟩]
    exact Bool.false_ne_true
  have hcount := countP_modify_add htask (works i) fun task => { task with stat := .setting }
  have hnot : ∀ x ∈ (s.server.setStat n .setting).tasks, x.client = i →
      x.stat ≠ .encoding ∧ x.stat ≠ .registering := by
    intro x hx hi
    obtain ⟨k, hk⟩ := List.mem_iff_getElem?.1 hx
    rcases getElem?_setStat htask hk with ⟨-, hk⟩ | ⟨-, rfl⟩
    · exact hstats x (List.mem_of_getElem? hk) hi
    · exact ⟨nofun, nofun⟩
  refine ⟨h.len.trans (List.length_modify ..).symm, h.bck, known_setStat htask h.known, ?_,
    fun _ => ⟨hr, hw, hnot⟩, h.slot, ?_, h.log, h.absent⟩
  · show (s.server.tasks.modify n _).countP (works i) + s.registered i + s.server.writes.count i ≤ 1
    have hle := Bool.toNat_le (works i { task with stat := .setting })
    omega
  · intro k x msg b hx _ hi hreg
    exact absurd hreg (hnot x (List.mem_of_getElem? hx) hi).2

/-- The task at work is alone: nobody else is, and nothing is registered or being written. -/
theorem Guarded.alone (h : s.Guarded i) {n : Nat} {task : CommandTask} (htask : s.server.tasks[n]? = some task)
    (hworks : works i task = true) : s.server.tasks.countP (works i) = 1 ∧ s.registered i = 0 ∧
      s.server.writes.count i = 0 ∧
      ∀ (k : Nat) (x : CommandTask), n ≠ k → s.server.tasks[k]? = some x → works i x = false := by
  have hone : s.server.tasks.countP (works i) + s.registered i + s.server.writes.count i ≤ 1 := h.one
  have hpos : 0 < s.server.tasks.countP (works i) :=
    List.countP_pos_iff.2 ⟨task, List.mem_of_getElem? htask, hworks⟩
  refine ⟨by omega, by omega, by omega, fun k x hnk hx => ?_⟩
  have hcount := countP_modify_add htask (works i) fun task => { task with stat := .done }
  rw [hworks, works_done, Bool.toNat_false, Bool.toNat_true] at hcount
  have hzero : (s.server.tasks.modify n fun task => { task with stat := .done }).countP (works i) = 0 := by omega
  have hmem : x ∈ s.server.tasks.modify n fun task => { task with stat := .done } :=
    List.mem_of_getElem? ((List.getElem?_modify_ne _ _ hnk).trans hx)
  exact Bool.eq_false_iff.2 (List.countP_eq_zero.1 hzero x hmem)

theorem Guarded.build (h : s.Guarded i) {n : Nat} {task : CommandTask} {stat : TaskStat}
    {g : CByteArray × Bool → CByteArray × Bool} {b : CByteArray × Bool}
    (htask : s.server.tasks[n]? = some task) (hworks : works i task = true) (hclient : task.client = i)
    (hb : s.server.buffer? i = some b) (hstat : stat = .encoding ∨ stat = .registering)
    (hset : (g b).2 = true) (hslot : IsSlot (g b).1)
    (hpkg : stat = .registering → ∀ msg, s.msgs[n]? = some msg →
      (g b).1.filled = packageOf msg 0 .Type_Req) : Guarded i { s with
    server := (s.server.modifyClient i fun c => { c with reqBuffer := g c.reqBuffer }).setStat n stat } := by
  obtain ⟨hcountP, hr, hw, hothers⟩ := h.alone htask hworks
  have hbuf : ((s.server.modifyClient i fun c => { c with reqBuffer := g c.reqBuffer }).setStat n
      stat).buffer? i = some (g b) := by
    have hself := Server.buffer?_modifyClient_self (s := s.server) (i := i)
      (f := fun c => { c with reqBuffer := g c.reqBuffer }) (g := g) fun _ => rfl
    exact hself.trans (congrArg (Option.map g) hb)
  have hconn := Server.connected_modifyClient_of_eq s.server i i
    (f := fun c => { c with reqBuffer := g c.reqBuffer }) fun _ => rfl
  have hcount := countP_modify_add htask (works i) fun task => { task with stat := stat }
  have hnew : works i { task with stat := stat } = true := by
    rcases hstat with rfl | rfl <;> simp [works, hclient]
  rw [hworks, hnew] at hcount
  refine ⟨h.len.trans (List.length_modify ..).symm, h.bck, known_setStat htask fun x hx => ?_, ?_, fun hf => ?_,
    fun b' hb' => ?_, fun k x msg b' hx hm hi hreg hb' => ?_, fun hc b' hb' => ?_, fun hb' => ?_⟩
  · exact (h.known x hx).trans_le (List.length_modify ..).ge
  · show (s.server.tasks.modify n _).countP (works i) + s.registered i + s.server.writes.count i ≤ 1
    omega
  · rw [Server.flagged, hbuf, Option.any_some, hset] at hf
    cases hf
  · obtain rfl : g b = b' := Option.some.inj (hbuf.symm.trans hb')
    exact hslot
  · obtain rfl : g b = b' := Option.some.inj (hbuf.symm.trans hb')
    rcases getElem?_setStat htask hx with ⟨hnk, hk⟩ | ⟨rfl, rfl⟩
    · exact absurd hreg (of_works_eq_false (hothers k x hnk hk) hi).2.2
    · exact hpkg hreg msg hm
  · have hlog := h.log (hconn.symm.trans hc) b hb
    show packages i s.posted = packages i s.written ++ List.replicate (s.registered i) _
    rw [hr] at hlog ⊢
    exact hlog
  · exact absurd (hbuf.symm.trans hb') nofun

theorem Guarded.register (h : s.Guarded i) {n : Nat} {task : CommandTask} {msg : ISerializable}
    (htask : s.server.tasks[n]? = some task) (hclient : task.client = i) (hstat : task.stat = .registering)
    (hmsg : s.msgs[n]? = some msg) : Guarded i { s with
    server := { s.server.setStat n .done with listWevent := s.server.listWevent ++ [i] }
    posted := s.posted ++ [(i, packageOf msg 0 .Type_Req)] } := by
  have hworks : works i task = true := by simp [works, hclient, hstat]
  obtain ⟨hcountP, hr, hw, hothers⟩ := h.alone htask hworks
  have hmem := List.mem_of_getElem? htask
  have hcount := countP_modify_add htask (works i) fun task => { task with stat := .done }
  rw [hworks, works_done, Bool.toNat_false, Bool.toNat_true] at hcount
  have hreg : Posting.registered { s with
      server := { s.server.setStat n .done with listWevent := s.server.listWevent ++ [i] }
      posted := s.posted ++ [(i, packageOf msg 0 .Type_Req)] } i = 1 := by
    have hzero : s.server.listWevent.count i + (s.it.getD []).count i = 0 := hr
    show (s.server.listWevent ++ [i]).count i + (s.it.getD []).count i = 1
    rw [List.count_append, List.count_singleton_self]
    omega
  refine ⟨h.len.trans (List.length_modify ..).symm, h.bck, known_setStat htask h.known, ?_, fun hf => ?_,
    h.slot, fun k x msg' b hx hm hi hreg' hb => ?_, fun hc b hb => ?_, fun hb => ?_⟩
  · show (s.server.tasks.modify n _).countP (works i) + Posting.registered _ i + s.server.writes.count i ≤ 1
    rw [hreg]
    omega
  · exact absurd hstat ((h.flag hf).2.2 task hmem hclient).2
  · rcases getElem?_setStat htask hx with ⟨-, hk⟩ | ⟨-, rfl⟩
    · exact h.package k x msg' b hk hm hi hreg' hb
    · cases hreg'
  · have hlog := h.log hc b hb
    rw [hr, List.replicate_zero, List.append_nil] at hlog
    rw [hreg, packages_concat, if_pos rfl, hlog, List.replicate_one,
      h.package n task msg b htask hmsg hclient hstat hb]
  · have hnone : s.server.clients[i]? = none := Option.map_eq_none_iff.1 hb
    exact absurd (h.known task hmem) (not_lt.2 (hclient ▸ List.getElem?_eq_none_iff.1 hnone))

theorem Guarded.registerOther (h : s.Guarded i) {j : Nat} (hj : j ≠ i) (p : Bytes) : Guarded i { s with
    server := { s.server with listWevent := s.server.listWevent ++ [j] }
    posted := s.posted ++ [(j, p)] } := by
  have hreg : Posting.registered { s with
      server := { s.server with listWevent := s.server.listWevent ++ [j] }
      posted := s.posted ++ [(j, p)] } i = s.registered i := by
    show (s.server.listWevent ++ [j]).count i + (s.it.getD []).count i = _
    rw [List.count_append, List.count_singleton, beq_false_of_ne hj]
    rfl
  have hposted : packages i (s.posted ++ [(j, p)]) = packages i s.posted := by
    rw [packages_concat, if_neg hj, List.append_nil]
  refine ⟨h.len, h.bck, h.known, ?_, fun hf => ?_, h.slot, h.package, fun hc b hb => ?_, fun hb => ?_⟩
  · show s.working i + Posting.registered _ i + s.server.writes.count i ≤ 1
    rw [hreg]
    exact h.one
  · rw [hreg]
    exact h.flag hf
  · rw [hreg]
    exact hposted.trans (h.log hc b hb)
  · exact ⟨hposted.trans (h.absent hb).1, (h.absent hb).2⟩

theorem Guarded.work_cb (h : s.Guarded i) {n : Nat} {junk : Nat → UInt8} (hapart : Apart i s (.work_cb n junk))
    (ht : s.work_cb n junk = some t) : t.Guarded i := by
  obtain ⟨task, htask, ht⟩ := Option.bind_eq_some_iff.1 ht
  obtain ⟨msg, hmsg, ht⟩ := Option.bind_eq_some_iff.1 ht
  obtain ⟨server, hserver, ht⟩ := Option.bind_eq_some_iff.1 ht
  obtain rfl := Option.some.inj ht
  obtain ⟨task', client, htask', hclient, hstep⟩ := Server.workStep_cases hserver
  obtain rfl : task = task' := Option.some.inj (htask.symm.trans htask')
  have hidle : ∀ st : TaskStat, st ≠ .setting ∧ st ≠ .encoding ∧ st ≠ .registering →
      works i { task with stat := st } = false := fun st hst => works_eq_false fun _ => hst
  have hbuf : task.client = i → s.server.buffer? i = some client.reqBuffer := fun hi => by
    rw [Server.buffer?, ← hi, hclient, Option.map_some]
  have hflagged : task.client = i → s.server.flagged i = client.reqBuffer.2 := fun hi => by
    rw [Server.flagged, hbuf hi, Option.any_some]
  -- a change of another client's buffer
  have hother : ∀ (g : SolConnClient → SolConnClient), (∀ c, (g c).bConnected = c.bConnected) →
      task.client ≠ i → Guarded i { s with server := s.server.modifyClient task.client g } := by
    intro g hg hne
    refine h.same ⟨rfl, rfl, rfl, rfl, (List.length_modify ..).ge, ?_, fun hc => ?_⟩
    · rw [Server.buffer?_modifyClient, if_neg hne]
    · rwa [Server.connected_modifyClient_of_eq _ _ _ hg] at hc
  cases hstep with
  | queued hstat =>
    rw [hstat]
    refine h.moved _ htask (works_eq_false fun _ => by rw [hstat]; exact ⟨nofun, nofun, nofun⟩) ?_
    split <;> exact hidle _ ⟨nofun, nofun, nofun⟩
  | waiting hstat =>
    rw [hstat]
    exact h.moved _ htask (works_eq_false fun _ => by rw [hstat]; exact ⟨nofun, nofun, nofun⟩)
      (hidle _ ⟨nofun, nofun, nofun⟩)
  | testing hstat =>
    rw [hstat]
    have hold : works i task = false := works_eq_false fun _ => by rw [hstat]; exact ⟨nofun, nofun, nofun⟩
    by_cases hi : task.client = i
    · cases hf : client.reqBuffer.2 with
      | true => exact h.moved .done htask hold (hidle _ ⟨nofun, nofun, nofun⟩)
      | false =>
        have hfree : s.server.flagged i = false := (hflagged hi).trans hf
        exact h.pass htask hfree (hapart task htask hi hstat hfree)
    · exact h.moved _ htask hold (works_eq_false fun hi' => absurd hi' hi)
  | setting hstat =>
    rw [hstat]
    by_cases hi : task.client = i
    · have hworks : works i task = true := by simp [works, hi, hstat]
      rw [hi]
      have hslot := h.slot _ (hbuf hi)
      exact h.build (g := fun b => (b.1, true)) htask hworks hi (hbuf hi) (.inl rfl) rfl hslot nofun
    · exact (hother (fun c => { c with reqBuffer := (c.reqBuffer.1, true) }) (fun _ => rfl) hi).moved
        .encoding htask (works_eq_false fun hi' => absurd hi' hi)
        (works_eq_false fun hi' => absurd hi' hi)
  | encoding hstat byteArr henc =>
    rw [hstat]
    by_cases hi : task.client = i
    · have hworks : works i task = true := by simp [works, hi, hstat]
      obtain ⟨hslot, hfilled⟩ := encode_some (h.slot _ (hbuf hi)) henc
      have hset : client.reqBuffer.2 = true := by
        by_contra hf
        have hfree : s.server.flagged i = false := (hflagged hi).trans (Bool.eq_false_of_not_eq_true hf)
        exact ((h.flag hfree).2.2 task (List.mem_of_getElem? htask) hi).1 hstat
      rw [hi]
      refine h.build (g := fun b => (byteArr, b.2)) htask hworks hi (hbuf hi) (.inr rfl) hset hslot ?_
      intro _ msg' hmsg'
      obtain rfl : msg = msg' := Option.some.inj (hmsg.symm.trans hmsg')
      exact hfilled
    · exact (hother (fun c => { c with reqBuffer := (byteArr, c.reqBuffer.2) }) (fun _ => rfl) hi).moved
        .registering htask (works_eq_false fun hi' => absurd hi' hi)
        (works_eq_false fun hi' => absurd hi' hi)
  | registering hstat =>
    rw [hstat]
    by_cases hi : task.client = i
    · rw [if_pos rfl, hi]
      exact h.register htask hi hstat hmsg
    · rw [if_pos rfl]
      exact (h.moved .done htask (works_eq_false fun hi' => absurd hi' hi)
        (works_eq_false fun hi' => absurd hi' hi)).registerOther hi _

/-! ## The loop -/

theorem Guarded.swap (h : s.Guarded i) (hit : s.it = none) : Guarded i { s with
    server := { s.server with listWevent := s.server.listWeventBck, listWeventBck := s.server.listWevent }
    it := some s.server.listWevent } := by
  have hreg : s.registered i = s.server.listWeventBck.count i + s.server.listWevent.count i := by
    rw [registered, hit, h.bck hit]
    exact Nat.add_comm _ _
  refine ⟨h.len, nofun, h.known, ?_, fun hf => ?_, h.slot, h.package, fun hc b hb => ?_, h.absent⟩
  · show s.working i + (s.server.listWeventBck.count i + s.server.listWevent.count i) + _ ≤ 1
    rw [← hreg]
    exact h.one
  · obtain ⟨hr, hrest⟩ := h.flag hf
    exact ⟨hreg.symm.trans hr, hrest⟩
  · have hlog := h.log hc b hb
    rw [hreg] at hlog
    exact hlog

theorem Guarded.uv_write (h : s.Guarded i) {j : Nat} {is : List Nat} (hit : s.it = some (j :: is))
    (ht : s.uv_write j is = some t) : t.Guarded i := by
  obtain ⟨b, hb, ht⟩ := Option.bind_eq_some_iff.1 ht
  obtain rfl := Option.some.inj ht
  have hone := h.one
  have hreg : s.registered i = s.server.listWevent.count i + (is.count i + if j = i then 1 else 0) := by
    rw [registered, hit, Option.getD_some, List.count_cons]
    simp only [beq_iff_eq]
  unfold Server.writeClient
  split
  · rename_i hconn
    have hwrites : (s.server.writes ++ [j]).count i = s.server.writes.count i + if j = i then 1 else 0 := by
      rw [List.count_append, List.count_singleton]
      simp only [beq_iff_eq]
    refine ⟨h.len, nofun, h.known, ?_, fun hf => ?_, h.slot, h.package, fun hc b' hb' => ?_, fun hb' => ?_⟩
    · show s.working i + (s.server.listWevent.count i + is.count i) + (s.server.writes ++ [j]).count i ≤ 1
      rw [hwrites]
      omega
    · obtain ⟨hr, hw, hstats⟩ := h.flag hf
      refine ⟨?_, ?_, hstats⟩
      · show s.server.listWevent.count i + is.count i = 0
        omega
      · show (s.server.writes ++ [j]).count i = 0
        rw [hwrites]
        omega
    · have hlog := h.log hc b' hb'
      show packages i s.posted = packages i (s.written ++ [(j, b.1.filled)]) ++
        List.replicate (s.server.listWevent.count i + is.count i) b'.1.filled
      rw [packages_concat, hlog, hreg]
      by_cases hji : j = i
      · subst hji
        obtain rfl : b = b' := Option.some.inj (hb.symm.trans hb')
        have hzero : s.server.listWevent.count j + is.count j = 0 := by
          rw [if_pos rfl] at hreg
          omega
        rw [if_pos rfl, if_pos rfl, ← Nat.add_assoc, hzero, List.replicate_zero, List.append_nil,
          Nat.zero_add, List.replicate_one]
      · rw [if_neg hji, if_neg hji, List.append_nil, Nat.add_zero]
    · obtain ⟨hp, hw⟩ := h.absent hb'
      have hji : j ≠ i := fun hji => absurd ((hji ▸ hb).symm.trans hb') nofun
      show packages i s.posted = [] ∧ packages i (s.written ++ [(j, b.1.filled)]) = []
      rw [packages_concat, if_neg hji, hw]
      exact ⟨hp, rfl⟩
  · rename_i hconn
    refine ⟨h.len, nofun, h.known, ?_, fun hf => ?_, h.slot, h.package, fun hc b' hb' => ?_, h.absent⟩
    · show s.working i + (s.server.listWevent.count i + is.count i) + s.server.writes.count i ≤ 1
      omega
    · obtain ⟨hr, hw, hstats⟩ := h.flag hf
      refine ⟨?_, hw, hstats⟩
      show s.server.listWevent.count i + is.count i = 0
      omega
    · have hji : j ≠ i := fun hji => hconn (hji ▸ hc)
      have hlog := h.log hc b' hb'
      rw [hreg, if_neg hji, Nat.add_zero] at hlog
      exact hlog

theorem Guarded.idle_rest (h : s.Guarded i) (hit : s.it = some []) (hapart : Apart i s .idle_rest) :
    Guarded i { s with server := s.server.idleRest, it := none } := by
  have hreg : s.registered i = s.server.listWevent.count i := by
    rw [registered, hit]
    rfl
  have hone := h.one
  by_cases hstop : s.server.bStop = true
  · have hs := Server.sameSide_closeAll { s.server with listWevent := [], listWeventBck := [] } i
      (s.server.mapConnClient.map Prod.snd)
    obtain ⟨-, -, -, -, hconn, -⟩ := Server.closeAll_spec
      { s.server with listWevent := [], listWeventBck := [] } (s.server.mapConnClient.map Prod.snd)
    have hrest : s.server.idleRest = { Server.closeAll { s.server with listWevent := [], listWeventBck := [] }
        (s.server.mapConnClient.map Prod.snd) with running := false } := if_pos hstop
    rw [hrest]
    clear hrest
    generalize Server.closeAll { s.server with listWevent := [], listWeventBck := [] }
      (s.server.mapConnClient.map Prod.snd) = server at hs hconn
    have hzero : Posting.registered { s with server := { server with running := false }, it := none } i = 0 := by
      show server.listWevent.count i + 0 = 0
      rw [hs.listWevent]
      rfl
    refine ⟨h.len.trans (congrArg _ hs.tasks).symm, fun _ => hs.listWeventBck, fun x hx => ?_, ?_, fun hf => ?_,
      fun b hb => h.slot b (hs.buffer ▸ hb), ?_, fun hc b hb => ?_, fun hb => h.absent (hs.buffer ▸ hb)⟩
    · exact (h.known x (hs.tasks ▸ hx)).trans_le hs.length
    · show server.tasks.countP (works i) + Posting.registered _ i + server.writes.count i ≤ 1
      have hone' : s.server.tasks.countP (works i) + s.registered i + s.server.writes.count i ≤ 1 := hone
      rw [hzero, hs.tasks, hs.writes]
      show s.server.tasks.countP (works i) + 0 + s.server.writes.count i ≤ 1
      omega
    · have hflag : server.flagged i = s.server.flagged i := congrArg (Option.any _) hs.buffer
      obtain ⟨-, hw, hstats⟩ := h.flag (hflag ▸ hf)
      exact ⟨hzero, hs.writes.trans hw, fun x hx => hstats x (hs.tasks ▸ hx)⟩
    · intro n task msg b htask hmsg hclient hstat hb
      exact h.package n task msg b (hs.tasks ▸ htask) hmsg hclient hstat (hs.buffer ▸ hb)
    · obtain ⟨hc, hnot⟩ := (hconn i).1 hc
      have hnone : s.server.listWevent.count i = 0 := List.count_eq_zero.2 fun hmem => hnot (hapart hstop hmem)
      have hlog := h.log hc b (hs.buffer ▸ hb)
      rw [hreg, hnone] at hlog
      rw [hzero]
      exact hlog
  · have hrest : s.server.idleRest = { s.server with listWeventBck := [] } := if_neg hstop
    rw [hrest]
    have hreg' : s.registered i = s.server.listWevent.count i + 0 := hreg
    refine ⟨h.len, fun _ => rfl, h.known, ?_, fun hf => ?_, h.slot, h.package, fun hc b hb => ?_, h.absent⟩
    · show s.working i + (s.server.listWevent.count i + 0) + s.server.writes.count i ≤ 1
      omega
    · obtain ⟨hr, hrest⟩ := h.flag hf
      exact ⟨hreg'.symm.trans hr, hrest⟩
    · have hlog := h.log hc b hb
      rw [hreg'] at hlog
      exact hlog

/-! ## The steps -/

theorem sameSide_req_write_cb (server : Server) (j : Nat) (status : Int) (tnow : BitVec 64) :
    Server.SameSide i (server.modifyClient j fun c => { c with reqBuffer := (c.reqBuffer.1.Init, false) })
      (server.req_write_cb j status tnow) := by
  unfold Server.req_write_cb
  split
  · split
    · exact Server.sameSide_closeClient _ i j
    · exact .refl _
  · exact Server.sameSide_modifyClient (fun _ => rfl) fun _ => id

/-- What `Start`, `Stop` and the callbacks of the loop that are not taken apart do: nothing that concerns
the client, unless it is made or its write completes. -/
theorem server_cases {a : ServerAction} (ht : s.step (.server a) = some t) :
    ∃ server, t = { s with server := server } ∧ (Server.SameSide i s.server server ∨
      (∃ accepted strKey tnow junk junk', s.server.buffer? i = none ∧
        server = s.server.connect_cb accepted strKey tnow junk junk') ∨
      ∃ status tnow, i ∈ s.server.writes ∧
        server = Server.req_write_cb { s.server with writes := s.server.writes.erase i } i status tnow) := by
  cases a with
  | read_cb | work_cb | after_work_cb | idle_cb => cases ht
  | Start =>
    obtain ⟨server, hserver, rfl⟩ := Option.map_eq_some_iff.1 ht
    obtain ⟨-, hserver⟩ := Option.ite_none_left_eq_some.1 hserver
    exact ⟨server, rfl, .inl (Option.some.inj hserver ▸ ⟨rfl, rfl, rfl, rfl, le_rfl, rfl, id⟩)⟩
  | Stop =>
    obtain rfl := Option.some.inj ht
    exact ⟨_, rfl, .inl ⟨rfl, rfl, rfl, rfl, le_rfl, rfl, id⟩⟩
  | connect_cb accepted strKey tnow junk junk' =>
    obtain ⟨-, ht⟩ := Option.ite_none_left_eq_some.1 ht
    obtain ⟨server, hserver, rfl⟩ := Option.map_eq_some_iff.1 ht
    obtain ⟨-, hserver⟩ := Option.ite_none_right_eq_some.1 hserver
    obtain rfl := Option.some.inj hserver
    rcases s.server.connect_cb_spec i accepted strKey tnow junk junk' with hs | ⟨hnone, -⟩
    · exact ⟨_, rfl, .inl hs⟩
    · exact ⟨_, rfl, .inr (.inl ⟨_, _, _, _, _, hnone, rfl⟩)⟩
  | read_error j nread =>
    obtain ⟨-, ht⟩ := Option.ite_none_left_eq_some.1 ht
    obtain ⟨server, hserver, rfl⟩ := Option.map_eq_some_iff.1 ht
    obtain ⟨-, hserver⟩ := Option.ite_none_right_eq_some.1 hserver
    refine ⟨server, rfl, .inl (Option.some.inj hserver ▸ ?_)⟩
    unfold Server.read_error
    split
    · exact Server.sameSide_closeClient _ i j
    · exact .refl _
  | req_write_cb j status tnow =>
    obtain ⟨-, ht⟩ := Option.ite_none_left_eq_some.1 ht
    obtain ⟨server, hserver, rfl⟩ := Option.map_eq_some_iff.1 ht
    obtain ⟨hmem, hserver⟩ := Option.ite_none_right_eq_some.1 hserver
    obtain rfl := Option.some.inj hserver
    by_cases hji : j = i
    · subst hji
      exact ⟨_, rfl, .inr (.inr ⟨status, tnow, hmem, rfl⟩)⟩
    · have hother : Server.SameSide i s.server (Server.modifyClient
          { s.server with writes := s.server.writes.erase j } j
          fun c => { c with reqBuffer := (c.reqBuffer.1.Init, false) }) := by
        refine ⟨rfl, rfl, rfl, List.count_erase_of_ne (Ne.symm hji), (List.length_modify ..).ge, ?_, fun hc => ?_⟩
        · rw [Server.buffer?_modifyClient, if_neg hji]
          rfl
        · exact (Server.connected_modifyClient_of_eq { s.server with writes := s.server.writes.erase j } j i
            (f := fun c => { c with reqBuffer := (c.reqBuffer.1.Init, false) }) fun _ => rfl).symm.trans hc
      exact ⟨_, rfl, .inl (hother.trans (sameSide_req_write_cb (i := i) _ j status tnow))⟩
  | closed j =>
    obtain ⟨-, ht⟩ := Option.ite_none_left_eq_some.1 ht
    obtain ⟨server, hserver, rfl⟩ := Option.map_eq_some_iff.1 ht
    obtain ⟨-, hserver⟩ := Option.ite_none_right_eq_some.1 hserver
    exact ⟨server, rfl, .inl (Option.some.inj hserver ▸ ⟨rfl, rfl, rfl, rfl, le_rfl, rfl, id⟩)⟩
  | hbt_timer_cb tnow =>
    obtain ⟨-, ht⟩ := Option.ite_none_left_eq_some.1 ht
    obtain ⟨server, hserver, rfl⟩ := Option.map_eq_some_iff.1 ht
    obtain ⟨-, hserver⟩ := Option.ite_none_right_eq_some.1 hserver
    exact ⟨server, rfl, .inl (Option.some.inj hserver ▸ Server.sameSide_hbt_timer_cb _ i tnow)⟩

theorem Guarded.server (h : s.Guarded i) {a : ServerAction} (ht : s.step (.server a) = some t) :
    t.Guarded i ∧ (t.server.buffer? i = s.server.buffer? i ∨ ¬ t.Holds i) := by
  have hidle : ∀ u : Posting, u.Guarded i → u.server.flagged i = false → ¬ u.Holds i := by
    intro u hu hf
    obtain ⟨hr, hw, -⟩ := hu.flag hf
    simp [Holds, hr, hw]
  obtain ⟨server, rfl, hs | ⟨accepted, strKey, tnow, junk, junk', -, rfl⟩ | ⟨status, tnow, hmem, rfl⟩⟩ :=
    server_cases (i := i) ht
  · exact ⟨h.same hs, .inl hs.buffer⟩
  · have hnew := h.connect_cb accepted strKey tnow junk junk'
    refine ⟨hnew, ?_⟩
    rcases s.server.connect_cb_spec i accepted strKey tnow junk junk' with hs | ⟨-, -, -, -, -, -, hbuf⟩
    · exact .inl hs.buffer
    · exact .inr (hidle _ hnew (by rw [Server.flagged, hbuf]; rfl))
  · have hrest := sameSide_req_write_cb (i := i) { s.server with writes := s.server.writes.erase i } i status tnow
    have hdone := (h.req_write_cb hmem).same hrest
    refine ⟨hdone, .inr (hidle _ hdone ?_)⟩
    have hself := Server.buffer?_modifyClient_self
      (s := { s.server with writes := s.server.writes.erase i }) (i := i)
      (f := fun c => { c with reqBuffer := (c.reqBuffer.1.Init, false) })
      (g := fun b => (b.1.Init, false)) fun _ => rfl
    rw [Server.flagged, hrest.buffer.trans hself, Option.any_map]
    exact Option.any_false ..

theorem Guarded.read_cb (h : s.Guarded i) {j : Nat} {rd : Read} {tnow : BitVec 64} {msg : ISerializable}
    (ht : s.step (.read_cb j rd tnow msg) = some t) :
    t.Guarded i ∧ t.server.buffer? i = s.server.buffer? i := by
  obtain ⟨-, ht⟩ := Option.ite_none_left_eq_some.1 ht
  obtain ⟨server, hserver, rfl⟩ := Option.map_eq_some_iff.1 ht
  obtain ⟨⟨-, hconn, -⟩, hserver⟩ := Option.ite_none_right_eq_some.1 hserver
  obtain ⟨client, hclient, hserver⟩ := Option.bind_eq_some_iff.1 hserver
  obtain ⟨p, -, hserver⟩ := Option.bind_eq_some_iff.1 hserver
  obtain rfl := Option.some.inj hserver
  have hsame : Server.SameSide i s.server (s.server.modifyClient j fun c =>
      { c with toRecvState := p.1, lastRead := tnow }) := Server.sameSide_modifyClient (fun _ => rfl) fun _ => id
  have hlen : (s.server.tasks ++ p.2.map fun o => (⟨j, o.cmd, .queued⟩ : CommandTask)).length -
      s.server.tasks.length = (p.2.map fun o => (⟨j, o.cmd, .queued⟩ : CommandTask)).length := by
    rw [List.length_append]
    omega
  refine ⟨?_, hsame.buffer⟩
  simp only [hlen]
  refine (h.same hsame).queue (fun task htask => ?_) (fun task htask => ?_) msg
  · obtain ⟨o, -, rfl⟩ := List.mem_map.1 htask
    rfl
  · obtain ⟨o, -, rfl⟩ := List.mem_map.1 htask
    exact (List.getElem?_eq_some_iff.1 hclient).1.trans_le (List.length_modify ..).ge

theorem Guarded.buffer_work_cb (h : s.Guarded i) {n : Nat} {junk : Nat → UInt8}
    (ht : s.work_cb n junk = some t) :
    (t.server.buffer? i).map Prod.fst = (s.server.buffer? i).map Prod.fst ∨ ¬ s.Holds i := by
  obtain ⟨task, htask, ht⟩ := Option.bind_eq_some_iff.1 ht
  obtain ⟨msg, -, ht⟩ := Option.bind_eq_some_iff.1 ht
  obtain ⟨server, hserver, ht⟩ := Option.bind_eq_some_iff.1 ht
  obtain rfl := Option.some.inj ht
  obtain ⟨task', client, htask', hclient, hstep⟩ := Server.workStep_cases hserver
  obtain rfl : task = task' := Option.some.inj (htask.symm.trans htask')
  have halone : task.client = i → task.stat = .setting ∨ task.stat = .encoding → ¬ s.Holds i := by
    intro hi hstat
    obtain ⟨-, hr, hw, -⟩ := h.alone htask (by rcases hstat with hstat | hstat <;> simp [works, hi, hstat])
    simp [Holds, hr, hw]
  have hother : ∀ f : SolConnClient → SolConnClient, task.client ≠ i →
      ((s.server.modifyClient task.client f).buffer? i).map Prod.fst = (s.server.buffer? i).map Prod.fst := by
    intro f hne
    rw [Server.buffer?_modifyClient, if_neg hne]
  cases hstep with
  | setting hstat =>
    by_cases hi : task.client = i
    · exact .inr (halone hi (.inl hstat))
    · exact .inl (hother _ hi)
  | encoding hstat =>
    by_cases hi : task.client = i
    · exact .inr (halone hi (.inr hstat))
    · exact .inl (hother _ hi)
  | _ => exact .inl rfl

theorem sameSide_idleRest (server : Server) (i : Nat) :
    Server.SameSide i { server with listWevent := [], listWeventBck := [] }
      { server.idleRest with listWevent := [], listWeventBck := [] } := by
  rw [Server.idleRest]
  split
  · have hs := Server.sameSide_closeAll { server with listWevent := [], listWeventBck := [] } i
      (server.mapConnClient.map Prod.snd)
    exact ⟨hs.tasks, rfl, rfl, hs.writes, hs.length, hs.buffer, hs.connected⟩
  · exact .refl _

/-- What one step does, with the invariant. -/
theorem Guarded.step {a : PostingAction} (h : s.Guarded i) (hapart : Apart i s a) (ht : s.step a = some t) :
    t.Guarded i ∧ ((t.server.buffer? i).map Prod.fst = (s.server.buffer? i).map Prod.fst ∨
      ¬ s.Holds i ∨ ¬ t.Holds i) := by
  cases a with
  | server a =>
    obtain ⟨hguard, hbuf⟩ := h.server ht
    exact ⟨hguard, hbuf.imp (congrArg _) .inr⟩
  | read_cb j rd tnow msg =>
    obtain ⟨hguard, hbuf⟩ := h.read_cb ht
    exact ⟨hguard, .inl (congrArg _ hbuf)⟩
  | work_cb n junk => exact ⟨h.work_cb hapart ht, (h.buffer_work_cb ht).imp id .inl⟩
  | after_work_cb n =>
    obtain ⟨-, ht⟩ := Option.ite_none_left_eq_some.1 ht
    obtain ⟨server, hserver, rfl⟩ := Option.map_eq_some_iff.1 ht
    obtain ⟨-, hserver⟩ := Option.ite_none_right_eq_some.1 hserver
    obtain rfl := Option.some.inj hserver
    exact ⟨h.eraseTask n, .inl rfl⟩
  | swap =>
    obtain ⟨hit, ht⟩ := Option.ite_none_left_eq_some.1 ht
    obtain rfl := Option.some.inj ht
    rw [Bool.or_eq_true, not_or, Option.not_isSome_iff_eq_none] at hit
    exact ⟨h.swap hit.1, .inl rfl⟩
  | uv_write =>
    have ht' := ht
    simp only [Posting.step] at ht'
    split at ht'
    · rename_i j is hit
      refine ⟨h.uv_write hit ht', .inl ?_⟩
      obtain ⟨b, -, ht'⟩ := Option.bind_eq_some_iff.1 ht'
      obtain rfl := Option.some.inj ht'
      obtain ⟨writes, hone, -⟩ := Server.writeClient_spec s.server j
      show ((s.server.writeClient j).buffer? i).map _ = _
      rw [hone]
      rfl
    · cases ht'
  | idle_rest =>
    simp only [Posting.step] at ht
    split at ht
    · rename_i hit
      obtain rfl := Option.some.inj ht
      exact ⟨h.idle_rest hit hapart, .inl (congrArg _ (sameSide_idleRest _ i).buffer)⟩
    · cases ht

end

/-- **For every client: in a run in which no two tasks find its flag free together, there is one
registration or write of it at most, the buffer is not touched while there is one, and all that was
posted is written once.** -/
theorem onePackage_of_apart {i : Nat} {as : List PostingAction} (hm : Meets step (Apart i) new as) :
    Throughout step (OnePackage i) new as ∧ Meets step (Untouched i) new as := by
  have hstep : ∀ s a t, Guarded i s → Apart i s a → step s a = some t → Guarded i t :=
    fun s a t hs ha ht => (hs.step ha ht).1
  refine ⟨throughout_of_meets hstep (fun s hs => hs.onePackage) (guarded_new i) hm,
    meets_of_meets hstep (fun s a hs ha t ht hold hnew => ?_) (guarded_new i) hm⟩
  exact (hs.step ha ht).2.resolve_right fun hor => hor.elim (· hold) (· hnew)

instance (i : Nat) (s : Posting) : (a : PostingAction) → Decidable (Apart i s a)
  | .work_cb t _ => decidable_of_iff (∀ task ∈ s.server.tasks[t]?, task.client = i → task.stat = .testing →
      s.server.flagged i = false → ∀ task' ∈ s.server.tasks, task'.client = i → task'.stat ≠ .setting) Iff.rfl
  | .idle_rest => inferInstanceAs (Decidable
      (s.server.bStop = true → i ∈ s.server.listWevent → i ∈ s.server.mapConnClient.map Prod.snd))
  | .server _ | .read_cb .. | .after_work_cb _ | .swap | .uv_write => .isTrue trivial

/-- A `TestCommand` as the server answers it; the numbers are random. -/
def testCommand : ISerializable where
  appends := [[ERequestType.TypeReq_TestCmd.toByte], text "Test Message" ++ List.replicate 20 0,
    [0, 0, 0, 0, 0, 0, 0x24, 0x40], [7, 0, 0, 0]]
  dataSize := 16

/-- A client sends a heartbeat and a test command, and each becomes a task. -/
def twoCommands : List PostingAction :=
  [.server (.connect_cb true (text "127.0.0.1:4000") 0 (fun _ => 0) (fun _ => 0)),
    .read_cb 0 ⟨[0, 0, 1, 0, 0, 0, 0, 0, 0, 0, 0, 0], fun _ => 0⟩ 0 heartbeat.toISerializable,
    .read_cb 0 ⟨[ERequestType.TypeReq_Heartbeat.toByte], fun _ => 0⟩ 0 heartbeat.toISerializable,
    .read_cb 0 ⟨[0, 0, 45, 0, 0, 0, 0, 0, 0, 0, 0, 0], fun _ => 0⟩ 0 testCommand,
    .read_cb 0 ⟨ERequestType.TypeReq_TestCmd.toByte :: List.replicate 44 0, fun _ => 0⟩ 0 testCommand]

/-- A task takes so many steps. -/
def goesOn (n k : Nat) : List PostingAction := List.replicate k (.work_cb n fun _ => 0)

/-- The second task waits until the write of the first completes. -/
def oneByOne : List PostingAction :=
  twoCommands ++ goesOn 0 6 ++ goesOn 1 1 ++
    [.swap, .uv_write, .idle_rest, .server (.req_write_cb 0 0 1)] ++ goesOn 1 5 ++
    [.swap, .uv_write, .idle_rest, .server (.req_write_cb 0 0 2)]

example : (run step new oneByOne).map written = some
    [(0, packageOf heartbeat.toISerializable 0 .Type_Req), (0, packageOf testCommand 0 .Type_Req)] := by
  decide +kernel

theorem onePackage_of_apart_oneByOne :
    Throughout step (OnePackage 0) new oneByOne ∧ Meets step (Untouched 0) new oneByOne :=
  onePackage_of_apart (by decide +kernel)

/-- Both tasks find the flag free before one sets it. -/
def together : List PostingAction :=
  twoCommands ++ goesOn 0 3 ++ goesOn 1 3 ++ goesOn 0 3 ++ goesOn 1 3 ++
    [.swap, .uv_write, .uv_write, .idle_rest]

theorem together_written : (run step new together).map (fun t => (t.server.writes, t.posted, t.written)) = some
    ([0, 0], [(0, packageOf heartbeat.toISerializable 0 .Type_Req), (0, packageOf testCommand 0 .Type_Req)],
      [(0, packageOf testCommand 0 .Type_Req), (0, packageOf testCommand 0 .Type_Req)]) := by
  decide +kernel

/-- The heartbeat is not written, and there are two writes. -/
theorem together_not_onePackage : ∃ t, run step new together = some t ∧ ¬ OnePackage 0 t := by
  obtain ⟨t, ht, hfields⟩ := Option.map_eq_some_iff.1 together_written
  rw [Prod.mk.injEq] at hfields
  refine ⟨t, ht, fun hone => ?_⟩
  have hle := hone.one
  rw [hfields.1] at hle
  have htwo : ([0, 0] : List Nat).count 0 = 2 := rfl
  omega

end Posting

end CppLinuxLearn.Solcom
