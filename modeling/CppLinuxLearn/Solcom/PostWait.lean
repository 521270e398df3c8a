import CppLinuxLearn.Solcom.ReqBuffer

/-!
# The wait of `SolConnClient::postMsg`

The loop waits for `reqBuffer.second` as long as `ncouts < timeout`, and nothing counts `ncouts` up.
Where the timeout is positive only the flag ends the loop; and where the client is disconnected between
its registration and `writeHandle`, nobody clears the flag.
-/

namespace CppLinuxLearn.Solcom

open Lib Steps

/-- What the commands append. `dataSize()` is `sizeof(ISerializable)` for both of them. -/
def Command.serialized : Command → ISerializable
  | .HeartbeatCommand nType => ⟨[Pod.bytes nType], 16⟩
  | .TestCommand nType strData dbData intData =>
    ⟨[Pod.bytes nType, Pod.bytes strData, Pod.bytes dbData, Pod.bytes intData], 16⟩

/-- A call of `postMsg`: what it uses of the client, and its arguments. -/
structure PostCall where
  bConnected : Bool
  /-- `bStop` of the server, if the pointer to it is set -/
  pServer : Option Bool
  /-- `reqBuffer.first` -/
  byteArr : CByteArray
  isSlot : IsSlot byteArr
  msg : Command
  timeout : CInt
  requestID : CInt
  reqRtn : EPkgReqRtnType

structure PostReturn where
  ret : Int
  /-- how often the loop has slept -/
  slept : Nat
  /-- the buffer that was filled, flagged and registered -/
  posted : Option CByteArray

/-- The loop that waits. `second k` is what the `k`-th test of `reqBuffer.second` finds; `none` where the
loop has not ended after so many tests. -/
def waitLoop (second : Nat → Bool) (timeout ncouts : CInt) : Nat → Nat → Option Nat
  | 0, _ => none
  | fuel + 1, k => if second k && ncouts.slt timeout then waitLoop second timeout ncouts fuel (k + 1) else some k

namespace PostCall

/-- `bConnected && pServer && !pServer->bStop` -/
def live (c : PostCall) : Bool := c.bConnected && c.pServer.any fun bStop => !bStop

def postMsg (c : PostCall) (junk : Nat → UInt8) (second : Nat → Bool) (fuel : Nat) : Option PostReturn :=
  if c.live then do
    let k ← waitLoop second c.timeout 0 fuel 0
    if second (k + 1) then some ⟨-1, k, none⟩
    else do
      let byteArr ← encode junk c.msg.serialized c.requestID c.reqRtn c.byteArr
      some ⟨0, k, some byteArr⟩
  else some ⟨-2, 0, none⟩

/-- The call returns after `timeout` rounds at most, and -1 if the test behind the loop finds the flag. -/
def Returns (c : PostCall) (junk : Nat → UInt8) (second : Nat → Bool) : Prop :=
  ∃ fuel r, c.postMsg junk second fuel = some r ∧ r.slept ≤ c.timeout.toInt.toNat ∧
    (r.ret = 0 ∨ r.ret = -1 ∨ r.ret = -2) ∧ (r.ret = -1 ↔ c.live = true ∧ second (r.slept + 1) = true)

end PostCall

/-! ## The loop -/

section
variable {second : Nat → Bool} {timeout ncouts : CInt}

theorem waitLoop_of_le (h : ¬ ncouts.slt timeout) (fuel k : Nat) :
    waitLoop second timeout ncouts (fuel + 1) k = some k := by
  rw [waitLoop, Bool.eq_false_of_not_eq_true h, Bool.and_false]
  rfl

theorem waitLoop_eq_some (h : ncouts.slt timeout) {fuel k n : Nat}
    (hn : waitLoop second timeout ncouts fuel k = some n) : second n = false := by
  induction fuel generalizing k with
  | zero => cases hn
  | succ fuel ih =>
    rw [waitLoop, h, Bool.and_true] at hn
    split at hn
    · exact ih hn
    · rename_i hclear
      obtain rfl := Option.some.inj hn
      exact Bool.eq_false_of_not_eq_true hclear

theorem waitLoop_of_clear (h : ncouts.slt timeout) {k m : Nat} (hset : ∀ j < m, second (k + j) = true)
    (hclear : second (k + m) = false) : waitLoop second timeout ncouts (m + 1) k = some (k + m) := by
  induction m generalizing k with
  | zero =>
    rw [waitLoop, ← Nat.add_zero k, hclear]
    rfl
  | succ m ih =>
    have hk := hset 0 (Nat.zero_lt_succ m)
    have hnext : k + (m + 1) = k + 1 + m := by omega
    rw [Nat.add_zero] at hk
    rw [hnext] at hclear ⊢
    rw [waitLoop, hk, h]
    refine ih (fun j hj => ?_) hclear
    have hj := hset (j + 1) (by omega)
    rwa [← Nat.add_assoc, Nat.add_right_comm] at hj

theorem waitLoop_first (h : ncouts.slt timeout) {n : Nat} (hclear : second n = false) :
    ∃ k ≤ n, waitLoop second timeout ncouts (k + 1) 0 = some k := by
  have hex : ∃ k, second k = false := ⟨n, hclear⟩
  have hset : ∀ j < Nat.find hex, second (0 + j) = true := by
    intro j hj
    rw [Nat.zero_add]
    exact Bool.eq_true_of_not_eq_false (Nat.find_min hex hj)
  have hspec := Nat.find_spec hex
  rw [← Nat.zero_add (Nat.find hex)] at hspec
  have hwait := waitLoop_of_clear h hset hspec
  rw [Nat.zero_add] at hwait
  exact ⟨_, Nat.find_min' hex hclear, hwait⟩

end

/-! ## The call -/

theorem encode_serialized {b : CByteArray} (hb : IsSlot b) (junk : Nat → UInt8) (cmd : Command) (requestID : CInt)
    (reqRtn : EPkgReqRtnType) : ∃ b', encode junk cmd.serialized requestID reqRtn b = some b' := by
  obtain ⟨b₁, hb₁, hholds, hleft, hcap⟩ := makeRoom_slot hb junk cmd.serialized.dataSize
  have hbody : cmd.serialized.body.length ≤ 45 := by
    cases cmd <;> simp [ISerializable.body, Command.serialized] <;> decide
  have hroom := hholds.room
  rw [hcap] at hroom
  obtain ⟨hyes, -⟩ := encode_of_makeRoom hb₁ hholds hleft hcap requestID reqRtn
  obtain ⟨b', hb', -⟩ := hyes (by omega)
  exact ⟨b', hb'⟩

namespace PostCall

variable (c : PostCall) (junk : Nat → UInt8) (second : Nat → Bool)

theorem postMsg_of_waitLoop {fuel k : Nat} (hlive : c.live = true)
    (hwait : waitLoop second c.timeout 0 fuel 0 = some k) :
    ∃ r, c.postMsg junk second fuel = some r ∧ r.slept = k ∧ (r.ret = 0 ∨ r.ret = -1) ∧
      (r.ret = -1 ↔ second (k + 1) = true) := by
  rw [postMsg, hlive, if_pos rfl, hwait, Option.bind_eq_bind, Option.bind_some]
  cases hset : second (k + 1) with
  | true => exact ⟨_, rfl, rfl, .inr rfl, iff_of_true rfl rfl⟩
  | false =>
    obtain ⟨b, hb⟩ := encode_serialized c.isSlot junk c.msg c.requestID c.reqRtn
    refine ⟨⟨0, k, some b⟩, ?_, rfl, .inl rfl, iff_of_false (fun h => ?_) Bool.false_ne_true⟩
    · rw [hb]
      rfl
    · have h : (0 : Int) = -1 := h
      omega

theorem slt_timeout : (0 : CInt).slt c.timeout = true ↔ 0 < c.timeout.toInt := by
  rw [BitVec.slt_iff_toInt_lt]
  rfl

/-- **The call returns in time exactly if it does not come to the loop, or the timeout is not positive, or
one of the first `timeout` + 1 tests finds the flag to be clear.** -/
theorem returns_iff : c.Returns junk second ↔ c.live = false ∨ c.timeout.toInt ≤ 0 ∨
    ∃ k ≤ c.timeout.toInt.toNat, second k = false := by
  cases hlive : c.live with
  | false =>
    refine iff_of_true ⟨0, ⟨-2, 0, none⟩, ?_, Nat.zero_le _, .inr (.inr rfl), ?_⟩ (.inl rfl)
    · rw [postMsg, hlive]
      rfl
    · rw [hlive]
      exact iff_of_false (by decide) fun h => Bool.false_ne_true h.1
  | true =>
    rw [or_iff_right (fun h => Bool.false_ne_true h.symm)]
    constructor
    · rintro ⟨fuel, r, hr, hslept, -⟩
      by_cases hpos : 0 < c.timeout.toInt
      · have hr' := hr
        rw [postMsg, hlive, if_pos rfl] at hr'
        obtain ⟨k, hwait, -⟩ := Option.bind_eq_some_iff.1 hr'
        obtain ⟨r', hr', hk, -⟩ := c.postMsg_of_waitLoop junk second hlive hwait
        obtain rfl := Option.some.inj (hr'.symm.trans hr)
        rw [hk] at hslept
        exact .inr ⟨k, hslept, waitLoop_eq_some (c.slt_timeout.2 hpos) hwait⟩
      · exact .inl (not_lt.1 hpos)
    · intro h
      obtain ⟨fuel, k, hwait, hk⟩ : ∃ fuel k, waitLoop second c.timeout 0 fuel 0 = some k ∧
          k ≤ c.timeout.toInt.toNat := by
        by_cases hpos : 0 < c.timeout.toInt
        · obtain ⟨n, hn, hclear⟩ := h.resolve_left (not_le.2 hpos)
          obtain ⟨k, hk, hwait⟩ := waitLoop_first (c.slt_timeout.2 hpos) hclear
          exact ⟨_, k, hwait, hk.trans hn⟩
        · exact ⟨1, 0, waitLoop_of_le (fun hlt => hpos (c.slt_timeout.1 hlt)) 0 0, Nat.zero_le _⟩
      obtain ⟨r, hr, rfl, hret, hiff⟩ := c.postMsg_of_waitLoop junk second hlive hwait
      refine ⟨fuel, r, hr, hk, hret.imp_right .inl, ?_⟩
      rw [hiff, and_iff_right hlive]

theorem postMsg_eq_none (hlive : c.live = true) (hpos : 0 < c.timeout.toInt) (hset : ∀ k, second k = true) (fuel : Nat) :
    c.postMsg junk second fuel = none := by
  rw [postMsg, hlive, if_pos rfl, Option.bind_eq_bind, Option.bind_eq_none_iff]
  intro k hwait
  have hclear := waitLoop_eq_some (c.slt_timeout.2 hpos) hwait
  rw [hset k] at hclear
  cases hclear

end PostCall

/-- A heartbeat that is posted as `CmdHandle` posts it. -/
def heartbeatCall : PostCall where
  bConnected := true
  pServer := some false
  byteArr := .new (fun _ => 0) 1424
  isSlot := isSlot_new _
  msg := .HeartbeatCommand 1
  timeout := 1
  requestID := 0
  reqRtn := .Type_Req

/-- With a flag that stays set it neither returns in time nor at all. -/
theorem heartbeatCall_not_returns : ¬ heartbeatCall.Returns (fun _ => 0) (fun _ => true) ∧
    ∀ fuel, heartbeatCall.postMsg (fun _ => 0) (fun _ => true) fuel = none := by
  have hnone := heartbeatCall.postMsg_eq_none (fun _ => 0) (fun _ => true) rfl (by decide) fun _ => rfl
  refine ⟨?_, hnone⟩
  rintro ⟨fuel, r, hr, -⟩
  rw [hnone fuel] at hr
  cases hr

/-! ## A flag that nobody clears -/

namespace Posting

/-- A task is in the wait for a client that is disconnected, flagged, and not being written. -/
structure Waits (i : Nat) (s : Posting) : Prop where
  flagged : s.server.flagged i = true
  disconnected : s.server.connected i = false
  notWritten : i ∉ s.server.writes
  task : ∃ task ∈ s.server.tasks, task.client = i ∧ task.stat = .waiting

section
variable {s t : Posting} {i : Nat}

theorem Waits.of (h : s.Waits i) (hflag : s.server.flagged i = true → t.server.flagged i = true)
    (hconn : t.server.connected i = true → s.server.connected i = true)
    (hwrites : i ∈ t.server.writes → i ∈ s.server.writes)
    (htasks : ∀ task ∈ s.server.tasks, task.client = i → task.stat = .waiting → task ∈ t.server.tasks) : t.Waits i := by
  obtain ⟨task, hmem, hclient, hstat⟩ := h.task
  refine ⟨hflag h.flagged, Bool.eq_false_of_not_eq_true fun hc => ?_, fun hw => h.notWritten (hwrites hw),
    task, htasks task hmem hclient hstat, hclient, hstat⟩
  have hc := hconn hc
  rw [h.disconnected] at hc
  cases hc

theorem Waits.sameSide (h : s.Waits i) (hs : Server.SameSide i s.server t.server) : t.Waits i := by
  refine h.of (fun hf => ?_) hs.connected (fun hw => ?_) fun task hmem _ _ => ?_
  · rwa [Server.flagged, hs.buffer]
  · rwa [← List.one_le_count_iff, hs.writes, List.one_le_count_iff] at hw
  · rwa [hs.tasks]

/-- What a step of a task leaves: the writes, the connections and the flags that are set; and a task that
waits goes on only where the flag is clear. -/
theorem workStep_spec {server u : Server} {n : Nat} {msg : ISerializable} {junk : Nat → UInt8}
    (h : server.workStep n msg junk = some u) : ∃ task stat, server.tasks[n]? = some task ∧
      u.tasks = (server.setStat n stat).tasks ∧ u.writes = server.writes ∧ u.connected i = server.connected i ∧
      (server.flagged i = true → u.flagged i = true) ∧
      (task.stat = .waiting → server.flagged task.client = false) := by
  obtain ⟨task, client, htask, hclient, hstep⟩ := Server.workStep_cases h
  -- a change of the buffer of the task's client
  have hbuffer : ∀ (f : SolConnClient → SolConnClient) (stat : TaskStat), (∀ c, (f c).bConnected = c.bConnected) →
      (∀ c, c.reqBuffer.2 = true → (f c).reqBuffer.2 = true) →
      ((server.modifyClient task.client f).setStat n stat).connected i = server.connected i ∧
        (server.flagged i = true → ((server.modifyClient task.client f).setStat n stat).flagged i = true) := by
    intro f stat hconn hflag
    refine ⟨Server.connected_modifyClient_of_eq server task.client i hconn, fun hset => ?_⟩
    show ((server.modifyClient task.client f).buffer? i).any (·.2) = true
    rw [Server.buffer?_modifyClient]
    split
    · obtain ⟨b, hb, hset⟩ := (Option.any_eq_true ..).1 hset
      obtain ⟨c, hc, rfl⟩ := Option.map_eq_some_iff.1 hb
      rw [hc]
      exact hflag c hset
    · exact hset
  have hnot : ∀ {stat : TaskStat}, task.stat = stat → stat ≠ .waiting → task.stat = .waiting →
      server.flagged task.client = false := fun hstat hne hw => absurd (hstat.symm.trans hw) hne
  cases hstep with
  | queued hstat => exact ⟨task, _, htask, rfl, rfl, rfl, id, hnot hstat (by decide)⟩
  | waiting hstat hclear =>
    refine ⟨task, _, htask, rfl, rfl, rfl, id, fun _ => ?_⟩
    rw [Server.flagged, Server.buffer?, hclient]
    exact hclear
  | testing hstat => exact ⟨task, _, htask, rfl, rfl, rfl, id, hnot hstat (by decide)⟩
  | setting hstat =>
    obtain ⟨hconn, hflag⟩ := hbuffer (fun c => { c with reqBuffer := (c.reqBuffer.1, true) }) .encoding
      (fun _ => rfl) fun _ _ => rfl
    exact ⟨task, _, htask, rfl, rfl, hconn, hflag, hnot hstat (by decide)⟩
  | encoding hstat byteArr =>
    obtain ⟨hconn, hflag⟩ := hbuffer (fun c => { c with reqBuffer := (byteArr, c.reqBuffer.2) }) .registering
      (fun _ => rfl) fun _ => id
    exact ⟨task, _, htask, rfl, rfl, hconn, hflag, hnot hstat (by decide)⟩
  | registering hstat => exact ⟨task, _, htask, rfl, rfl, rfl, id, hnot hstat (by decide)⟩

theorem mem_setStat {server : Server} {n : Nat} {task task' : CommandTask} {stat : TaskStat}
    (htask : server.tasks[n]? = some task) (hmem : task' ∈ server.tasks)
    (hne : task'.stat ≠ task.stat ∨ task'.client ≠ task.client) :
    task' ∈ (server.setStat n stat).tasks := by
  obtain ⟨k, hk⟩ := List.mem_iff_getElem?.1 hmem
  have hnk : n ≠ k := by
    rintro rfl
    obtain rfl := Option.some.inj (htask.symm.trans hk)
    exact hne.elim (· rfl) (· rfl)
  refine List.mem_of_getElem? (i := k) ?_
  rw [Server.setStat, List.getElem?_modify_ne _ _ hnk]
  exact hk

theorem Waits.server {a : ServerAction} (h : s.Waits i) (ht : s.step (.server a) = some t) : t.Waits i := by
  obtain ⟨server, rfl, hs | ⟨_, _, _, _, _, hnone, -⟩ | ⟨_, _, hmem, -⟩⟩ := server_cases (i := i) ht
  · exact h.sameSide hs
  · have hflag := h.flagged
    rw [Server.flagged, hnone] at hflag
    cases hflag
  · exact absurd hmem h.notWritten

theorem Waits.read_cb {j : Nat} {rd : Read} {tnow : BitVec 64} {msg : ISerializable} (h : s.Waits i)
    (ht : s.step (.read_cb j rd tnow msg) = some t) : t.Waits i := by
  obtain ⟨-, ht⟩ := Option.ite_none_left_eq_some.1 ht
  obtain ⟨server, hserver, rfl⟩ := Option.map_eq_some_iff.1 ht
  obtain ⟨-, hserver⟩ := Option.ite_none_right_eq_some.1 hserver
  obtain ⟨client, -, hserver⟩ := Option.bind_eq_some_iff.1 hserver
  obtain ⟨p, -, hserver⟩ := Option.bind_eq_some_iff.1 hserver
  obtain rfl := Option.some.inj hserver
  have hs : Server.SameSide i s.server (s.server.modifyClient j fun c =>
      { c with toRecvState := p.1, lastRead := tnow }) := Server.sameSide_modifyClient (fun _ => rfl) fun _ => id
  have hsame := Waits.sameSide (t := { s with server := s.server.modifyClient j fun c =>
      { c with toRecvState := p.1, lastRead := tnow } }) h hs
  exact hsame.of id id id fun task hmem _ _ => List.mem_append_left _ hmem

theorem Waits.work_cb {n : Nat} {junk : Nat → UInt8} (h : s.Waits i) (ht : s.step (.work_cb n junk) = some t) :
    t.Waits i := by
  obtain ⟨task', htask', ht⟩ := Option.bind_eq_some_iff.1 ht
  obtain ⟨msg, -, ht⟩ := Option.bind_eq_some_iff.1 ht
  obtain ⟨server, hserver, ht⟩ := Option.bind_eq_some_iff.1 ht
  obtain rfl := Option.some.inj ht
  obtain ⟨task, stat, htask, htasks, hwrites, hconn, hflag, hwait⟩ := workStep_spec (i := i) hserver
  refine h.of hflag (fun hc => hconn.symm.trans hc) (fun hw => hwrites ▸ hw) fun x hx hclient hstat => ?_
  rw [htasks]
  refine mem_setStat htask hx ?_
  by_contra hboth
  rw [not_or, not_ne_iff, not_ne_iff] at hboth
  have hclear := hwait (hboth.1.symm.trans hstat)
  rw [← hboth.2, hclient, h.flagged] at hclear
  cases hclear

theorem Waits.after_work_cb {n : Nat} (h : s.Waits i) (ht : s.step (.after_work_cb n) = some t) : t.Waits i := by
  obtain ⟨-, ht⟩ := Option.ite_none_left_eq_some.1 ht
  obtain ⟨server, hserver, rfl⟩ := Option.map_eq_some_iff.1 ht
  obtain ⟨⟨-, hdone⟩, hserver⟩ := Option.ite_none_right_eq_some.1 hserver
  obtain rfl := Option.some.inj hserver
  refine h.of id id id fun task hmem _ hstat => ?_
  obtain ⟨k, hk⟩ := List.mem_iff_getElem?.1 hmem
  refine List.mem_eraseIdx_iff_getElem?.2 ⟨k, ?_, hk⟩
  rintro rfl
  rw [hk, Option.any_some, hstat] at hdone
  cases hdone

theorem Waits.uv_write (h : s.Waits i) (ht : s.step .uv_write = some t) : t.Waits i := by
  simp only [Posting.step] at ht
  split at ht
  next j is hit =>
    obtain ⟨b, -, ht⟩ := Option.bind_eq_some_iff.1 ht
    obtain rfl := Option.some.inj ht
    obtain ⟨writes, hone, hwrites⟩ := Server.writeClient_spec s.server j
    have hnot : i ∈ writes → i ∈ s.server.writes := fun hmem => (hwrites i hmem).resolve_right fun hconn => by
      rw [← hconn.1, h.disconnected] at hconn
      cases hconn.2
    rw [hone]
    exact h.of id id hnot fun _ hmem _ _ => hmem
  next => cases ht

theorem Waits.idle_rest (h : s.Waits i) (ht : s.step .idle_rest = some t) : t.Waits i := by
  simp only [Posting.step] at ht
  split at ht
  next =>
    obtain rfl := Option.some.inj ht
    have hidle : Waits i { s with server := { s.server with listWevent := [], listWeventBck := [] } } :=
      h.of id id id fun _ hmem _ _ => hmem
    exact (hidle.sameSide (t := { s with server := { s.server.idleRest with listWevent := [], listWeventBck := [] } })
      (sameSide_idleRest s.server i)).of id id id fun _ hmem _ _ => hmem
  next => cases ht

/-- **Nothing that the loop or another task does ends the wait.** -/
theorem waits_step {a : PostingAction} (h : s.Waits i) (ht : s.step a = some t) : t.Waits i := by
  cases a with
  | server a => exact h.server ht
  | read_cb j rd tnow msg => exact h.read_cb ht
  | work_cb n junk => exact h.work_cb ht
  | after_work_cb n => exact h.after_work_cb ht
  | swap =>
    obtain ⟨-, ht⟩ := Option.ite_none_left_eq_some.1 ht
    obtain rfl := Option.some.inj ht
    exact h.of id id id fun _ hmem _ _ => hmem
  | uv_write => exact h.uv_write ht
  | idle_rest => exact h.idle_rest ht

/-- In every continuation of the run a call still waits. -/
theorem waits_run {as : List PostingAction} (h : s.Waits i) (ht : run step s as = some t) : t.Waits i :=
  run_invariant (fun _ _ _ hs hstep => waits_step hs hstep) h ht

end

/-- The first task has posted its heartbeat and the second is in the wait, when a read error closes the
client. -/
def closedMeanwhile : List PostingAction :=
  twoCommands ++ goesOn 0 6 ++ goesOn 1 1 ++ [.server (.read_error 0 (-104))]

theorem closedMeanwhile_waits {as : List PostingAction} {t : Posting} (ht : run step new (closedMeanwhile ++ as) = some t) :
    t.Waits 0 := by
  have hreach : (run step new closedMeanwhile).map (fun s => (s.server.flagged 0, s.server.connected 0, s.server.writes,
      s.server.tasks.map fun task => (task.client, task.stat))) =
        some (true, false, [], [(0, .done), (0, .waiting)]) := by
    decide +kernel
  obtain ⟨s, hs, hrest⟩ := run_append ht
  rw [hs, Option.map_some, Option.some.injEq] at hreach
  simp only [Prod.mk.injEq] at hreach
  obtain ⟨hflag, hconn, hwrites, htasks⟩ := hreach
  refine waits_run ⟨hflag, hconn, ?_, ?_⟩ hrest
  · rw [hwrites]
    exact List.not_mem_nil
  · have hmem : (0, TaskStat.waiting) ∈ s.server.tasks.map fun task => (task.client, task.stat) := by
      rw [htasks]
      decide
    obtain ⟨task, htask, heq⟩ := List.mem_map.1 hmem
    exact ⟨task, htask, (Prod.mk.inj heq).1, (Prod.mk.inj heq).2⟩

end Posting

end CppLinuxLearn.Solcom
