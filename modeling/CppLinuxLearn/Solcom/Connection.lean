import CppLinuxLearn.Solcom.SendQueue
import CppLinuxLearn.Solcom.Reassembly

/-!
# The connection of a client

`SolcomApi` over any number of connections. The loop calls `connect_cb`, `read_cb`, `req_write_cb`,
the timer callbacks and `idle_cb` in any order and with any status, each of them only where libuv has
a reason to: a connect or a write that is outstanding, an armed timer, reading that is on. User
threads post between them.

Two things are left over when a connection breaks. A write callback with an error does not clear
`bReqWritereqBusy`, and then nothing is ever written again. And `connect_cb` resets the buffer and
`nNeedRead` but not `recvStat`, so that the first head of a new connection is taken for a body where
the old one ended between a head and its body.
-/

namespace CppLinuxLearn.Solcom

open Lib Steps

def MAX_WRITE_IDLE_INTERVAL : Int := 3
def MAX_IDLE_INTERVAL : Int := 100

/-- A call to the registered `SolcomSpi`. -/
inductive SpiCall
  | OnConnect
  | OnDisconnect
deriving DecidableEq, Repr

/-- A `SolcomApi` whose loop runs, and what the loop has to do for it. -/
structure Connection extends SendState, RecvState where
  /-- a `SolcomSpi` is registered -/
  solcomSpi : Bool
  bStop : Bool
  bAutoReconn : Bool
  servAddr : Bytes
  lastRead : Int
  lastWrite : Int
  bReqWritereqBusy : Bool
  /-- calls of `uv_tcp_connect` whose callback has not run -/
  connecting : Nat
  /-- calls of `uv_write` on `req_writereq` whose callback has not run; a connected handle takes them -/
  writing : Nat
  idleHandle : Bool
  recnTimerHandle : Bool
  initTimerHandle : Bool
  spiCalls : List SpiCall
  /-- what was read on the current connection -/
  received : List Bytes

inductive UvAction
  /-- of a user thread, and likewise the next three -/
  | PostRequest (msg : ISerializable) (requestID : CInt) (junk : Nat → UInt8)
  | PushMessage (msg : ISerializable) (junk : Nat → UInt8)
  | Stop
  | SetAutoReconnect (recon : Bool)
  | connect_cb (status : Int)
  /-- `read_cb` with the size of the data, which may be zero -/
  | read_cb (rd : Read) (tnow : Int)
  /-- `read_cb` with an error -/
  | read_error
  | req_write_cb (status : Int) (tnow : Int)
  /-- `r` is what `uv_tcp_connect` returns -/
  | reconn_timer_cb (r : Int)
  | init_timer_cb (r : Int)
  | idle_cb (tnow r : Int) (junk : Nat → UInt8)

namespace Connection

/-- `loopFunction` has started the idle handle and the first timer. -/
def new (junk : Nat → Nat → UInt8) (solcomSpi : Bool) (servAddr : Bytes) : Connection where
  bConnected := false
  sendCache := .new 128 fun i => .new (junk i) 1424
  toRecvState := .new (junk 128)
  solcomSpi := solcomSpi
  bStop := false
  bAutoReconn := true
  servAddr := servAddr
  lastRead := 0
  lastWrite := 0
  bReqWritereqBusy := false
  connecting := 0
  writing := 0
  idleHandle := true
  recnTimerHandle := false
  initTimerHandle := true
  spiCalls := []
  received := []

/-- A callback of the spi, if there is one. -/
def onSpi (c : SpiCall) (s : Connection) : Connection :=
  if s.solcomSpi then { s with spiCalls := s.spiCalls ++ [c] } else s

/-- `uv_close`, if there is a connection, ends its reads. -/
def closeConnection (s : Connection) : Connection := { s with bConnected := false }.onSpi .OnDisconnect

/-- `r` is what `uv_tcp_connect` returns. -/
def connectServer (r : Int) (s : Connection) : Connection :=
  if s.servAddr.headD 0 = 0 then s
  else if r < 0 then s else { s with connecting := s.connecting + 1 }

/-- `if (bAutoReconn && !bStop) uv_timer_start(&recnTimerHandle, ..)` -/
def startReconnTimer (s : Connection) : Connection :=
  if s.bAutoReconn && !s.bStop then { s with recnTimerHandle := true } else s

def post (junk : Nat → UInt8) (msg : ISerializable) (requestID : CInt) (reqRtn : EPkgReqRtnType)
    (s : Connection) : Option Connection :=
  (postMsg junk msg requestID reqRtn s.toSendState).map fun p =>
    { s with toSendState := p.2 }

def sendHeartbeat (junk : Nat → UInt8) (s : Connection) : Option Connection :=
  s.post junk heartbeat.toISerializable 0 .Type_Req

/-! ## The callbacks -/

def connect_cb (status : Int) (s : Connection) : Connection :=
  if status < 0 then (s.onSpi .OnDisconnect).startReconnTimer
  else
    { s with
      bConnected := true
      toRecvState := s.toRecvState.connect_cb
      idleHandle := true
      received := [] }.onSpi .OnConnect

/-- `read_cb` for a read that is no error; the data is where `alloc_cb` said. -/
def read_cb (rd : Read) (tnow : Int) (s : Connection) : Option Connection :=
  (Receiver.receive (.client s.solcomSpi) s.toRecvState rd).map fun p =>
    { s with
      toRecvState := p.1
      lastRead := tnow
      received := if rd.data = [] then s.received else s.received ++ [rd.data] }

/-- `read_cb` for an error. -/
def read_error (s : Connection) : Connection := s.closeConnection.startReconnTimer

def req_write_cb (status tnow : Int) (s : Connection) : Connection :=
  if status < 0 then s.closeConnection.startReconnTimer
  else { s with
    sendCache := s.sendCache.headForward.2
    bReqWritereqBusy := false
    lastWrite := tnow }

def reconn_timer_cb (r : Int) (s : Connection) : Connection :=
  if s.bConnected then s else s.connectServer r

def init_timer_cb (r : Int) (s : Connection) : Connection := s.connectServer r

/-- The write of `idle_cb`. -/
def writeReq (s : Connection) : Connection :=
  if s.bReqWritereqBusy || s.sendCache.current.isNone then s
  else { s with bReqWritereqBusy := true, writing := s.writing + 1 }

/-- The keep-alive of `idle_cb`. -/
def beat (junk : Nat → UInt8) (tnow : Int) (s : Connection) : Option Connection :=
  if tnow - s.lastWrite > MAX_WRITE_IDLE_INTERVAL then
    (s.sendHeartbeat junk).map fun s => { s with lastWrite := tnow }
  else some s

/-- The check of `idle_cb` for a peer that is silent; it looks at `lastWrite`. -/
def checkIdle (tnow r : Int) (s : Connection) : Connection :=
  if tnow - s.lastWrite > MAX_IDLE_INTERVAL then
    let s := s.closeConnection
    if s.bAutoReconn && !s.bStop then s.connectServer r else s
  else s

/-- The end of `idle_cb`. -/
def idleStop (bIdleStop : Bool) (s : Connection) : Connection :=
  if s.bStop && bIdleStop then { s with idleHandle := false }.closeConnection else s

def idle_cb (junk : Nat → UInt8) (tnow r : Int) (s : Connection) : Option Connection :=
  let bIdleStop := !s.bConnected || s.sendCache.isEmpty
  let s := if bIdleStop then s else s.writeReq
  (if s.bConnected && !s.bStop then (s.beat junk tnow).map (checkIdle tnow r) else some s).map
    (idleStop bIdleStop)

/-- A user thread posts, or the loop runs a callback. -/
def step (s : Connection) : UvAction → Option Connection
  | .PostRequest msg requestID junk => s.post junk msg requestID .Type_Req
  | .PushMessage msg junk => s.post junk msg 0 .Type_Rtn
  | .Stop => some { s with bStop := true }
  | .SetAutoReconnect recon => some { s with bAutoReconn := recon }
  | .connect_cb status =>
    if s.connecting = 0 then none
    else some ({ s with connecting := s.connecting - 1 }.connect_cb status)
  | .read_cb rd tnow =>
    if s.bConnected ∧ (rd.data.length : Int) ≤ s.alloc_cb.1 then s.read_cb rd tnow else none
  | .read_error => if s.bConnected then some s.read_error else none
  | .req_write_cb status tnow =>
    if s.writing = 0 then none
    else some ({ s with writing := s.writing - 1 }.req_write_cb status tnow)
  | .reconn_timer_cb r =>
    if s.recnTimerHandle then some ({ s with recnTimerHandle := false }.reconn_timer_cb r) else none
  | .init_timer_cb r =>
    if s.initTimerHandle then some ({ s with initTimerHandle := false }.init_timer_cb r) else none
  | .idle_cb tnow r junk => if s.idleHandle then s.idle_cb junk tnow r else none

/-! ## What the parts of a callback change -/

theorem onSpi_eq (c : SpiCall) (s : Connection) : ∃ calls, s.onSpi c = { s with spiCalls := calls } := by
  rw [onSpi]
  split
  · exact ⟨_, rfl⟩
  · exact ⟨s.spiCalls, rfl⟩

theorem closeConnection_eq (s : Connection) :
    ∃ calls, s.closeConnection = { s with bConnected := false, spiCalls := calls } := by
  obtain ⟨calls, h⟩ := onSpi_eq .OnDisconnect { s with bConnected := false }
  exact ⟨calls, h⟩

theorem connectServer_eq (r : Int) (s : Connection) :
    ∃ n, s.connectServer r = { s with connecting := n } := by
  rw [connectServer]
  split
  · exact ⟨s.connecting, rfl⟩
  · split
    · exact ⟨s.connecting, rfl⟩
    · exact ⟨_, rfl⟩

theorem startReconnTimer_eq (s : Connection) :
    ∃ armed, s.startReconnTimer = { s with recnTimerHandle := armed } := by
  rw [startReconnTimer]
  split
  · exact ⟨true, rfl⟩
  · exact ⟨s.recnTimerHandle, rfl⟩

theorem close_eq (s : Connection) :
    ∃ calls armed, s.closeConnection.startReconnTimer =
      { s with bConnected := false, spiCalls := calls, recnTimerHandle := armed } := by
  obtain ⟨calls, h⟩ := closeConnection_eq s
  obtain ⟨armed, h'⟩ := startReconnTimer_eq s.closeConnection
  exact ⟨calls, armed, by rw [h', h]⟩

theorem connect_cb_neg {status : Int} (hs : status < 0) (s : Connection) :
    ∃ calls armed, s.connect_cb status = { s with spiCalls := calls, recnTimerHandle := armed } := by
  obtain ⟨calls, hspi⟩ := onSpi_eq .OnDisconnect s
  obtain ⟨armed, htimer⟩ := startReconnTimer_eq { s with spiCalls := calls }
  exact ⟨calls, armed, by rw [connect_cb, if_pos hs, hspi, htimer]⟩

theorem connect_cb_nonneg {status : Int} (hs : 0 ≤ status) (s : Connection) :
    ∃ calls, s.connect_cb status = { s with
      bConnected := true
      toRecvState := s.toRecvState.connect_cb
      idleHandle := true
      spiCalls := calls
      received := [] } := by
  obtain ⟨calls, hspi⟩ := onSpi_eq .OnConnect { s with
    bConnected := true
    toRecvState := s.toRecvState.connect_cb
    idleHandle := true
    received := [] }
  exact ⟨calls, by rw [connect_cb, if_neg (not_lt.2 hs), hspi]⟩

theorem post_eq {junk : Nat → UInt8} {msg : ISerializable} {requestID : CInt} {reqRtn : EPkgReqRtnType}
    {s t : Connection} (h : s.post junk msg requestID reqRtn = some t) :
    ∃ sendCache, t = { s with sendCache := sendCache } := by
  obtain ⟨⟨res, u⟩, hp, rfl⟩ := Option.map_eq_some_iff.1 h
  suffices hu : u.bConnected = s.bConnected from ⟨u.sendCache, by rw [← hu]⟩
  rw [postMsg] at hp
  split at hp
  · cases hp
    rfl
  · split at hp
    · simp only [Option.bind_eq_bind, Option.bind_eq_some_iff] at hp
      obtain ⟨b, -, b', -, hp⟩ := hp
      cases hp
      rfl
    · cases hp
      rfl

theorem beat_eq {junk : Nat → UInt8} {tnow : Int} {s t : Connection} (h : s.beat junk tnow = some t) :
    ∃ sendCache lastWrite, t = { s with sendCache := sendCache, lastWrite := lastWrite } := by
  rw [beat] at h
  split at h
  · obtain ⟨u, hu, rfl⟩ := Option.map_eq_some_iff.1 h
    obtain ⟨sendCache, rfl⟩ := post_eq hu
    exact ⟨sendCache, tnow, rfl⟩
  · cases h
    exact ⟨s.sendCache, s.lastWrite, rfl⟩

theorem checkIdle_eq (tnow r : Int) (s : Connection) :
    ∃ bConnected calls connecting, (bConnected = true → s.bConnected = true) ∧
      s.checkIdle tnow r = { s with
        bConnected := bConnected
        spiCalls := calls
        connecting := connecting } := by
  rw [checkIdle]
  split
  · obtain ⟨calls, hclose⟩ := closeConnection_eq s
    simp only [hclose]
    split
    · obtain ⟨n, hconn⟩ := connectServer_eq r
        { s with bConnected := false, spiCalls := calls }
      rw [hconn]
      exact ⟨false, calls, n, nofun, rfl⟩
    · exact ⟨false, calls, s.connecting, nofun, rfl⟩
  · exact ⟨s.bConnected, s.spiCalls, s.connecting, id, rfl⟩

theorem idleStop_eq (bIdleStop : Bool) (s : Connection) :
    ∃ bConnected calls idle,
      (bConnected = true → s.bConnected = true ∧ idle = s.idleHandle) ∧
      s.idleStop bIdleStop = { s with
        bConnected := bConnected
        spiCalls := calls
        idleHandle := idle } := by
  rw [idleStop]
  split
  · obtain ⟨calls, hclose⟩ := closeConnection_eq { s with idleHandle := false }
    exact ⟨false, calls, false, nofun, hclose⟩
  · exact ⟨s.bConnected, s.spiCalls, s.idleHandle, fun h => ⟨h, rfl⟩, rfl⟩

theorem idle_cb_eq {junk : Nat → UInt8} {tnow r : Int} {s t : Connection}
    (h : s.idle_cb junk tnow r = some t) :
    ∃ sendCache lastWrite bConnected calls connecting idle,
      (bConnected = true → s.bConnected = true ∧ idle = s.idleHandle) ∧
      t = { if !s.bConnected || s.sendCache.isEmpty then s else s.writeReq with
        sendCache := sendCache
        lastWrite := lastWrite
        bConnected := bConnected
        spiCalls := calls
        connecting := connecting
        idleHandle := idle } := by
  obtain ⟨u, hu, rfl⟩ := Option.map_eq_some_iff.1 h
  have hwrite : (if !s.bConnected || s.sendCache.isEmpty then s else s.writeReq).bConnected =
        s.bConnected ∧
      (if !s.bConnected || s.sendCache.isEmpty then s else s.writeReq).idleHandle = s.idleHandle := by
    rw [writeReq]
    split
    · exact ⟨rfl, rfl⟩
    · split <;> exact ⟨rfl, rfl⟩
  generalize (if !s.bConnected || s.sendCache.isEmpty then s else s.writeReq) = v at hu hwrite ⊢
  obtain ⟨hconn, hidle⟩ := hwrite
  obtain ⟨sendCache, lastWrite, b, calls, connecting, hb, rfl⟩ :
      ∃ sendCache lastWrite bConnected calls connecting,
      (bConnected = true → v.bConnected = true) ∧ u = { v with
        sendCache := sendCache
        lastWrite := lastWrite
        bConnected := bConnected
        spiCalls := calls
        connecting := connecting } := by
    split at hu
    · obtain ⟨w, hw, rfl⟩ := Option.map_eq_some_iff.1 hu
      obtain ⟨sendCache, lastWrite, rfl⟩ := beat_eq hw
      obtain ⟨b, calls, connecting, hb, hcheck⟩ :=
        checkIdle_eq tnow r { v with sendCache := sendCache, lastWrite := lastWrite }
      exact ⟨sendCache, lastWrite, b, calls, connecting, hb, hcheck⟩
    · obtain rfl := Option.some.inj hu
      exact ⟨v.sendCache, v.lastWrite, v.bConnected, v.spiCalls, v.connecting, id, rfl⟩
  obtain ⟨b', calls', idle, hb', hstop⟩ :=
    idleStop_eq (!s.bConnected || s.sendCache.isEmpty) { v with
      sendCache := sendCache
      lastWrite := lastWrite
      bConnected := b
      spiCalls := calls
      connecting := connecting }
  refine ⟨sendCache, lastWrite, b', calls', connecting, idle, fun h => ?_, hstop⟩
  obtain ⟨h, hi⟩ := hb' h
  exact ⟨hconn ▸ hb h, hi.trans hidle⟩

/-- The receive state and the writes are as they were, and no connection is new. -/
structure Quiet (s t : Connection) : Prop where
  recv : t.toRecvState = s.toRecvState
  received : t.received = s.received
  busy : t.bReqWritereqBusy = s.bReqWritereqBusy
  writing : t.writing = s.writing
  connected : t.bConnected = true → s.bConnected = true
  idle : t.idleHandle = s.idleHandle

/-- What a step does to the receive state and the writes. -/
inductive Effect (s : Connection) : UvAction → Connection → Prop
  | quiet {a : UvAction} {t : Connection} (h : Quiet s t) : Effect s a t
  | connected {status : Int} {t : Connection} (hpos : 0 ≤ status)
    (hrecv : t.toRecvState = s.toRecvState.connect_cb) (hreceived : t.received = [])
    (hbusy : t.bReqWritereqBusy = s.bReqWritereqBusy) (hwriting : t.writing = s.writing)
    (hconn : t.bConnected = true) (hidle : t.idleHandle = true) : Effect s (.connect_cb status) t
  | read {rd : Read} {tnow : Int} {t : Connection} (hconn : s.bConnected = true)
    (hlen : (rd.data.length : Int) ≤ s.alloc_cb.1) (h : s.read_cb rd tnow = some t) :
    Effect s (.read_cb rd tnow) t
  | written {status tnow : Int} {t : Connection} (hne : s.writing ≠ 0)
    (hrecv : t.toRecvState = s.toRecvState) (hreceived : t.received = s.received)
    (hbusy : t.bReqWritereqBusy = (s.bReqWritereqBusy && decide (status < 0)))
    (hwriting : t.writing = s.writing - 1) (hconn : t.bConnected = true → s.bConnected = true)
    (hidle : t.idleHandle = s.idleHandle) : Effect s (.req_write_cb status tnow) t
  | idle {tnow r : Int} {junk : Nat → UInt8} {t : Connection} (h : s.idle_cb junk tnow r = some t) :
    Effect s (.idle_cb tnow r junk) t

theorem step_effect {s t : Connection} {a : UvAction} (ht : s.step a = some t) : Effect s a t := by
  cases a with
  | PostRequest msg requestID junk =>
    obtain ⟨sendCache, rfl⟩ := post_eq ht
    exact .quiet ⟨rfl, rfl, rfl, rfl, id, rfl⟩
  | PushMessage msg junk =>
    obtain ⟨sendCache, rfl⟩ := post_eq ht
    exact .quiet ⟨rfl, rfl, rfl, rfl, id, rfl⟩
  | Stop =>
    cases ht
    exact .quiet ⟨rfl, rfl, rfl, rfl, id, rfl⟩
  | SetAutoReconnect recon =>
    cases ht
    exact .quiet ⟨rfl, rfl, rfl, rfl, id, rfl⟩
  | connect_cb status =>
    obtain ⟨-, ht⟩ := Option.ite_none_left_eq_some.1 ht
    obtain rfl := Option.some.inj ht
    rcases lt_or_ge status 0 with hneg | hpos
    · obtain ⟨calls, armed, hcb⟩ := connect_cb_neg hneg { s with connecting := s.connecting - 1 }
      rw [hcb]
      exact .quiet ⟨rfl, rfl, rfl, rfl, id, rfl⟩
    · obtain ⟨calls, hcb⟩ := connect_cb_nonneg hpos { s with connecting := s.connecting - 1 }
      rw [hcb]
      exact .connected hpos rfl rfl rfl rfl rfl rfl
  | read_cb rd tnow =>
    obtain ⟨⟨hconn, hlen⟩, ht⟩ := Option.ite_none_right_eq_some.1 ht
    exact .read hconn hlen ht
  | read_error =>
    obtain ⟨-, ht⟩ := Option.ite_none_right_eq_some.1 ht
    obtain rfl := Option.some.inj ht
    obtain ⟨calls, armed, hclose⟩ := close_eq s
    rw [read_error, hclose]
    exact .quiet ⟨rfl, rfl, rfl, rfl, nofun, rfl⟩
  | req_write_cb status tnow =>
    obtain ⟨hne, ht⟩ := Option.ite_none_left_eq_some.1 ht
    obtain rfl := Option.some.inj ht
    obtain ⟨calls, armed, hclose⟩ := close_eq { s with writing := s.writing - 1 }
    rw [req_write_cb, hclose]
    split
    · rename_i hneg
      refine .written hne rfl rfl ?_ rfl nofun rfl
      rw [decide_eq_true hneg, Bool.and_true]
    · rename_i hpos
      refine .written hne rfl rfl ?_ rfl id rfl
      rw [decide_eq_false hpos, Bool.and_false]
  | reconn_timer_cb r =>
    obtain ⟨-, ht⟩ := Option.ite_none_right_eq_some.1 ht
    obtain rfl := Option.some.inj ht
    obtain ⟨n, hconn⟩ := connectServer_eq r { s with recnTimerHandle := false }
    rw [reconn_timer_cb, hconn]
    split <;> exact .quiet ⟨rfl, rfl, rfl, rfl, id, rfl⟩
  | init_timer_cb r =>
    obtain ⟨-, ht⟩ := Option.ite_none_right_eq_some.1 ht
    obtain rfl := Option.some.inj ht
    obtain ⟨n, hconn⟩ := connectServer_eq r { s with initTimerHandle := false }
    rw [init_timer_cb, hconn]
    exact .quiet ⟨rfl, rfl, rfl, rfl, id, rfl⟩
  | idle_cb tnow r junk =>
    obtain ⟨-, ht⟩ := Option.ite_none_right_eq_some.1 ht
    exact .idle ht

/-! ## The busy flag -/

/-- The flag is up exactly while a write is outstanding, and a connected client that has something to
send and no write outstanding writes at the next `idle_cb`, which the loop will call. -/
structure WriteTracked (s : Connection) : Prop where
  busy : s.bReqWritereqBusy = true ↔ s.writing = 1
  writing_le : s.writing ≤ 1
  next : s.bConnected = true → s.sendCache.isEmpty = false → s.writing = 0 →
    s.idleHandle = true ∧ ∀ tnow r junk t, s.step (.idle_cb tnow r junk) = some t → t.writing = 1

/-- No write fails, and none is cancelled by a close. -/
def WriteSucceeds (_ : Connection) : UvAction → Prop
  | .req_write_cb status _ => 0 ≤ status
  | _ => True

/-- The flag and the writes, and `idle_cb` is called while the client is connected. -/
structure Writing (s : Connection) : Prop where
  busy : s.bReqWritereqBusy = true ↔ s.writing = 1
  writing_le : s.writing ≤ 1
  idle : s.bConnected = true → s.idleHandle = true

theorem current_isNone (c : CachedBuffer CByteArray) : c.current.isNone = c.isEmpty := by
  rw [CachedBuffer.current]
  cases c.isEmpty <;> rfl

theorem writeReq_eq {s : Connection} (h : s.Writing) (hsend : s.sendCache.isEmpty = false) :
    s.writeReq = { s with bReqWritereqBusy := true, writing := 1 } := by
  have hcur := current_isNone s.sendCache
  rw [hsend] at hcur
  rw [writeReq, hcur, Bool.or_false]
  cases hbusy : s.bReqWritereqBusy with
  | true =>
    have hone := h.busy.1 hbusy
    rw [if_pos rfl, ← hbusy, ← hone]
  | false =>
    have hzero : s.writing = 0 := by
      have hne : s.writing ≠ 1 := fun h1 => by
        rw [h.busy.2 h1] at hbusy
        cases hbusy
      have := h.writing_le
      omega
    rw [if_neg (by decide), hzero]

theorem Writing.idle_cb {junk : Nat → UInt8} {tnow r : Int} {s t : Connection} (h : s.Writing)
    (ht : s.idle_cb junk tnow r = some t) :
    t.Writing ∧ (s.bConnected = true → s.sendCache.isEmpty = false → t.writing = 1) := by
  obtain ⟨sendCache, lastWrite, b, calls, connecting, idle, hb, rfl⟩ := idle_cb_eq ht
  have hidle : b = true → idle = true := fun hbt => by
    obtain ⟨hconn, hi⟩ := hb hbt
    rw [hi, h.idle hconn]
  by_cases hstop : (!s.bConnected || s.sendCache.isEmpty) = true
  · rw [if_pos hstop]
    refine ⟨⟨h.busy, h.writing_le, hidle⟩, fun hconn hsend => ?_⟩
    rw [hconn, hsend] at hstop
    cases hstop
  · obtain ⟨-, hsend⟩ : s.bConnected = true ∧ s.sendCache.isEmpty = false := by simpa using hstop
    rw [if_neg hstop, writeReq_eq h hsend]
    exact ⟨⟨iff_of_true rfl rfl, le_rfl, hidle⟩, fun _ _ => rfl⟩

theorem Writing.tracked {s : Connection} (h : s.Writing) : s.WriteTracked where
  busy := h.busy
  writing_le := h.writing_le
  next hconn hsend _ := by
    refine ⟨h.idle hconn, fun tnow r junk t ht => ?_⟩
    rw [step, if_pos (h.idle hconn)] at ht
    exact (h.idle_cb ht).2 hconn hsend

theorem writing_new (junk : Nat → Nat → UInt8) (solcomSpi : Bool) (servAddr : Bytes) :
    (new junk solcomSpi servAddr).Writing where
  busy := iff_of_false nofun nofun
  writing_le := Nat.zero_le 1
  idle := nofun

/-- Every step in which no write fails keeps the flag and the writes together. -/
theorem Writing.step {s t : Connection} {a : UvAction} (h : s.Writing) (ha : s.WriteSucceeds a)
    (ht : s.step a = some t) : t.Writing := by
  cases step_effect ht with
  | quiet hq =>
    refine ⟨?_, hq.writing.trans_le h.writing_le, fun hconn => hq.idle.trans (h.idle (hq.connected hconn))⟩
    rw [hq.busy, hq.writing]
    exact h.busy
  | connected hpos hrecv hreceived hbusy hwriting hconn hidle =>
    refine ⟨?_, hwriting.trans_le h.writing_le, fun _ => hidle⟩
    rw [hbusy, hwriting]
    exact h.busy
  | read hconn hlen hread =>
    obtain ⟨p, -, rfl⟩ := Option.map_eq_some_iff.1 hread
    exact ⟨h.busy, h.writing_le, h.idle⟩
  | written hne hrecv hreceived hbusy hwriting hconn hidle =>
    have hle := h.writing_le
    rw [decide_eq_false (not_lt.2 ha), Bool.and_false] at hbusy
    refine ⟨?_, by omega, fun hc => hidle.trans (h.idle (hconn hc))⟩
    rw [hbusy, hwriting]
    exact iff_of_false nofun (by omega)
  | idle hidle => exact (h.idle_cb hidle).1

theorem Writing.succeeds {s t : Connection} {a : UvAction} (h : s.Writing) (ht : s.step a = some t)
    (htr : t.WriteTracked) : s.WriteSucceeds a := by
  cases a with
  | req_write_cb status tnow =>
    obtain ⟨hpos, ht⟩ := Option.ite_none_left_eq_some.1 ht
    obtain rfl := Option.some.inj ht
    by_contra hneg
    have hneg : status < 0 := not_le.1 hneg
    have hle := h.writing_le
    have hone : s.writing = 1 := by omega
    obtain ⟨calls, armed, hclose⟩ := close_eq { s with writing := s.writing - 1 }
    rw [req_write_cb, if_pos hneg, hclose] at htr
    have hzero : s.writing - 1 = 1 := htr.busy.1 (h.busy.2 hone)
    omega
  | _ => trivial

/-- **In every run, over any number of connections, the flag stands for the outstanding write in all
states exactly if no write fails.** -/
theorem writeTracked_iff {junk : Nat → Nat → UInt8} {solcomSpi : Bool} {servAddr : Bytes}
    {as : List UvAction} {t : Connection} (h : run step (new junk solcomSpi servAddr) as = some t) :
    Throughout step WriteTracked (new junk solcomSpi servAddr) as ↔
      Meets step WriteSucceeds (new junk solcomSpi servAddr) as :=
  throughout_iff_meets (I := Writing) (fun _ _ _ hs ha ht => hs.step ha ht) (fun _ hs => hs.tracked)
    (fun _ _ _ hs ht htr => hs.succeeds ht htr) (writing_new junk solcomSpi servAddr) h

/-- A connection, a request, and its write. -/
def oneWrite : List UvAction :=
  [.init_timer_cb 0, .connect_cb 0, .PostRequest Client.noneMessage.toISerializable 7 fun _ => 0, .idle_cb 1 0 fun _ => 0,
    .req_write_cb 0 1]

theorem oneWrite_runs :
    (run step (new (fun _ _ => 0) true (text "127.0.0.1")) oneWrite).isSome = true := by
  decide +kernel

theorem writeTracked_iff_oneWrite :
    Throughout step WriteTracked (new (fun _ _ => 0) true (text "127.0.0.1")) oneWrite ↔
      Meets step WriteSucceeds (new (fun _ _ => 0) true (text "127.0.0.1")) oneWrite := by
  obtain ⟨t, ht⟩ := Option.isSome_iff_exists.1 oneWrite_runs
  exact writeTracked_iff ht

/-- The write of a request fails with `EPIPE`, and the client connects again. -/
def brokenPipe : List UvAction :=
  [.init_timer_cb 0, .connect_cb 0, .PostRequest Client.noneMessage.toISerializable 7 fun _ => 0, .idle_cb 1 0 fun _ => 0,
    .req_write_cb (-32) 1, .reconn_timer_cb 0, .connect_cb 0, .idle_cb 2 0 fun _ => 0]

theorem brokenPipe_runs :
    (run step (new (fun _ _ => 0) true (text "127.0.0.1")) brokenPipe).map (fun t =>
      (t.bConnected, t.sendCache.isEmpty, t.writing, t.bReqWritereqBusy)) =
      some (true, false, 0, true) := by
  decide +kernel

/-- The client is connected and the request is still in the ring, but no write is outstanding and the
flag keeps `idle_cb` from making one. -/
theorem brokenPipe_not_writeTracked :
    ∃ t, run step (new (fun _ _ => 0) true (text "127.0.0.1")) brokenPipe = some t ∧
      t.bConnected = true ∧ t.sendCache.isEmpty = false ∧ ¬ t.WriteTracked := by
  obtain ⟨t, ht, hfields⟩ := Option.map_eq_some_iff.1 brokenPipe_runs
  simp only [Prod.mk.injEq] at hfields
  obtain ⟨hconn, hsend, hwriting, hbusy⟩ := hfields
  refine ⟨t, ht, hconn, hsend, fun htr => ?_⟩
  have hone := htr.busy.1 hbusy
  omega

/-! ## The receive state -/

/-- The head at the start of the receive buffer. -/
def head (s : Connection) : PackageHeadField := ofBytes (s.recvBuffer.CharArray.take PackageHeadLen)

/-- The receive state is that of the bytes read on this connection: the buffer holds the package that
is open, and `nNeedRead` is what its head, or its body, lacks. -/
structure Consistent (s : Connection) : Prop where
  head : s.recvStat = .Type_RecvHead → s.recvBuffer.RightPos + s.nNeedRead = PackageHeadLen
  body : s.recvStat = .Type_RecvBody →
    s.recvBuffer.RightPos + s.nNeedRead = PackageHeadLen + s.head.pkgBodyLen.toNat
  filled : s.recvBuffer.filled = (framing.feedAll [] s.received).1
  first : s.received.flatten.length < PackageHeadLen →
    s.recvStat = .Type_RecvHead ∧ s.recvBuffer.filled = s.received.flatten

/-- A connection is established while a head is waited for. -/
def FreshHead (s : Connection) : UvAction → Prop
  | .connect_cb status => 0 ≤ status → s.recvStat = .Type_RecvHead
  | _ => True

/-- The receive buffer is sound, and on a connection it holds the open package. -/
structure Open (s : Connection) : Prop where
  buffer : IsSlot s.recvBuffer
  receiving : s.bConnected = true → Receiving s.toRecvState (framing.feedAll [] s.received).1
  notOver : s.bConnected = true → framing.NotOver (framing.feedAll [] s.received).1
  first : s.bConnected = true → s.received.flatten.length < 12 →
    (framing.feedAll [] s.received).1 = s.received.flatten

theorem Open.consistent {s : Connection} (h : s.Open) (hconn : s.bConnected = true) : s.Consistent := by
  have hrec := h.receiving hconn
  have hnot := (h.notOver hconn).length_add_need
  have hfirst := h.first hconn
  obtain ⟨part, hpart⟩ : ∃ part, (framing.feedAll [] s.received).1 = part := ⟨_, rfl⟩
  rw [hpart] at hrec hnot hfirst
  have hfilled : s.recvBuffer.filled = part := hrec.holds.filled
  have hstat := hrec.stat
  have hsum : s.recvBuffer.RightPos + s.nNeedRead = (part.length + framing.need part : Nat) := by
    rw [hrec.need, CByteArray.RightPos, hrec.holds.right, Nat.cast_add]
  rw [hnot, framing_headLen] at hsum
  refine ⟨fun hs => ?_, fun hs => ?_, hfilled.trans hpart.symm, fun hlt => ?_⟩
  · have hshort : part.length < 12 := by
      by_contra hlong
      rw [hstat, if_neg hlong] at hs
      cases hs
    rw [hsum, if_pos hshort, packageHeadLen_eq]
  · have hlong : ¬ part.length < 12 := by
      intro hshort
      rw [hstat, if_pos hshort] at hs
      cases hs
    have htake : s.recvBuffer.CharArray.take PackageHeadLen = part.take 12 := by
      rw [← hrec.holds.content, List.take_take, Nat.min_eq_left (by omega)]
      rfl
    have hbody : framing.bodyLen (part.take 12) = s.head.pkgBodyLen.toNat := by
      rw [Connection.head, htake]
      rfl
    rw [hsum, if_neg hlong, hbody, packageHeadLen_eq, Nat.cast_add]
  · rw [packageHeadLen_eq] at hlt
    have heq := hfirst hlt
    refine ⟨?_, hfilled.trans heq⟩
    rw [hstat, heq, if_pos hlt]

theorem receiving_connect_cb {s : RecvState} (hb : IsSlot s.recvBuffer) (hs : s.recvStat = .Type_RecvHead) :
    Receiving s.connect_cb [] := by
  have hneed : framing.need [] = 12 := rfl
  have hcap := hb.capacity
  have hroom := hb.room
  refine ⟨CByteArray.holds_init hb.room, hcap, rfl, hs, rfl, ?_⟩
  show ([] : Bytes).length + framing.need [] ≤ s.recvBuffer.pCharArr.length
  rw [hneed, List.length_nil]
  omega

theorem Open.connect_cb {s : Connection} (h : s.Open) (hs : s.recvStat = .Type_RecvHead) {t : Connection}
    (hrecv : t.toRecvState = s.toRecvState.connect_cb) (hreceived : t.received = []) : t.Open := by
  have hrec := receiving_connect_cb h.buffer hs
  rw [← hrecv] at hrec
  refine ⟨⟨hrec.capacity, hrec.holds.room⟩, fun _ => ?_, fun _ => ?_, fun _ _ => ?_⟩ <;> rw [hreceived]
  · exact hrec
  · exact Framing.notOver_nil
  · rfl

theorem Open.of_eq {s t : Connection} (h : s.Open) (hrecv : t.toRecvState = s.toRecvState)
    (hreceived : t.received = s.received) (hconn : t.bConnected = true → s.bConnected = true) :
    t.Open := by
  have hbuffer : t.recvBuffer = s.recvBuffer := congrArg RecvState.recvBuffer hrecv
  refine ⟨hbuffer ▸ h.buffer, ?_, ?_, ?_⟩
  · rw [hrecv, hreceived]
    exact fun hc => h.receiving (hconn hc)
  · rw [hreceived]
    exact fun hc => h.notOver (hconn hc)
  · rw [hreceived]
    exact fun hc => h.first (hconn hc)

theorem receive_nil {r : Receiver} {s : RecvState} {part : Bytes} {rd : Read} (h : Receiving s part)
    (hd : rd.data = []) : r.receive s rd = some (s, []) := by
  have hroom : part.length + rd.data.length ≤ s.recvBuffer.pCharArr.length := by
    rw [hd]
    exact h.holds.length_le
  have hstore : Block.store s.recvBuffer.CharArray s.alloc_cb.2 rd.data = some s.recvBuffer.pCharArr := by
    have hpos : s.alloc_cb.2 = (part.length : Int) := h.holds.right
    rw [hpos, CByteArray.CharArray, Block.store_eq hroom, hd, Block.overwrite, List.append_nil,
      List.length_nil, Nat.add_zero, List.take_append_drop]
  rw [Receiver.receive, hstore, hd]
  cases r <;> rfl

theorem Open.read_cb {s t : Connection} {rd : Read} {tnow : Int} (h : s.Open)
    (hconn : s.bConnected = true) (hlen : (rd.data.length : Int) ≤ s.alloc_cb.1)
    (ht : s.read_cb rd tnow = some t) : t.Open := by
  obtain ⟨p, hp, rfl⟩ := Option.map_eq_some_iff.1 ht
  have hrec := h.receiving hconn
  by_cases hd : rd.data = []
  · rw [receive_nil hrec hd, Option.some.injEq] at hp
    subst hp
    simp only [if_pos hd]
    exact h.of_eq rfl rfl id
  · have hneed : rd.data.length ≤ framing.need (framing.feedAll [] s.received).1 := by
      have := hrec.need
      have hle : (rd.data.length : Int) ≤ s.nNeedRead := hlen
      omega
    obtain ⟨hknown, hunknown⟩ := receive_feed (.client s.solcomSpi) hrec hd hneed
    obtain ⟨s', hs, hrecv, -, hrec'⟩ := hknown (by
      by_contra hnot
      push Not at hnot
      rw [hunknown hnot] at hp
      cases hp)
    rw [hrecv, Option.some.injEq] at hp
    subst hp
    have hfeed : (framing.feedAll [] (s.received ++ [rd.data])).1 =
        (framing.feed (framing.feedAll [] s.received).1 rd.data).1 := by
      rw [Framing.feedAll_append]
      rfl
    simp only [if_neg hd]
    refine ⟨⟨hrec'.capacity, hrec'.holds.room⟩, fun _ => ?_, fun _ => ?_, fun _ hlt => ?_⟩
    · rw [hfeed]
      exact hrec'
    · rw [hfeed]
      exact (h.notOver hconn).feed hneed
    · rw [List.flatten_concat, List.length_append] at hlt
      have hfirst := h.first hconn (by omega)
      have hpart : (framing.feedAll [] s.received).1.length < 12 := by
        rw [hfirst]
        omega
      have hshort : rd.data.length < framing.need (framing.feedAll [] s.received).1 := by
        rw [Framing.need, framing_headLen, if_pos hpart, hfirst]
        omega
      rw [hfeed, (Framing.feed_lt hshort).1, hfirst, List.flatten_concat]

theorem open_new (junk : Nat → Nat → UInt8) (solcomSpi : Bool) (servAddr : Bytes) :
    (new junk solcomSpi servAddr).Open :=
  ⟨isSlot_new (junk 128), nofun, nofun, nofun⟩

/-- Every step in which no connection is established between a head and its body keeps the receive
state with what was read. -/
theorem Open.step {s t : Connection} {a : UvAction} (h : s.Open) (ha : s.FreshHead a)
    (ht : s.step a = some t) : t.Open := by
  cases step_effect ht with
  | quiet hq => exact h.of_eq hq.recv hq.received hq.connected
  | connected hpos hrecv hreceived hbusy hwriting hconn hidle => exact h.connect_cb (ha hpos) hrecv hreceived
  | read hconn hlen hread => exact h.read_cb hconn hlen hread
  | written hne hrecv hreceived hbusy hwriting hconn hidle => exact h.of_eq hrecv hreceived hconn
  | idle hidle =>
    obtain ⟨sendCache, lastWrite, b, calls, connecting, idle, hb, rfl⟩ := idle_cb_eq hidle
    rw [writeReq]
    split
    · exact h.of_eq rfl rfl fun hc => (hb hc).1
    · split <;> exact h.of_eq rfl rfl fun hc => (hb hc).1

/-- A connection established between a head and its body takes its first head for the body. -/
theorem Consistent.freshHead {s t : Connection} {a : UvAction} (ht : s.step a = some t)
    (htr : t.bConnected = true → t.Consistent) : s.FreshHead a := by
  cases a with
  | connect_cb status =>
    intro hpos
    obtain ⟨-, ht⟩ := Option.ite_none_left_eq_some.1 ht
    obtain rfl := Option.some.inj ht
    obtain ⟨calls, hcb⟩ := connect_cb_nonneg hpos { s with connecting := s.connecting - 1 }
    rw [hcb] at htr
    have hnone : ([] : List Bytes).flatten.length < PackageHeadLen := by decide
    exact ((htr rfl).first hnone).1
  | _ => trivial

/-- **In every run, over any number of connections, the receive state is that of the connection in
all states exactly if none is established between a head and its body.** -/
theorem consistent_iff {junk : Nat → Nat → UInt8} {solcomSpi : Bool} {servAddr : Bytes}
    {as : List UvAction} {t : Connection} (h : run step (new junk solcomSpi servAddr) as = some t) :
    Throughout step (fun s => s.bConnected = true → s.Consistent) (new junk solcomSpi servAddr) as ↔
      Meets step FreshHead (new junk solcomSpi servAddr) as :=
  throughout_iff_meets (I := Open) (fun _ _ _ hs ha ht => hs.step ha ht) (fun _ hs => hs.consistent)
    (fun _ _ _ _ ht htr => Consistent.freshHead ht htr) (open_new junk solcomSpi servAddr) h

/-- A connection, and a heartbeat read in two pieces. -/
def twoReads : List UvAction :=
  [.init_timer_cb 0, .connect_cb 0, .read_cb ⟨[0, 0, 1, 0, 0], fun _ => 0⟩ 1,
    .read_cb ⟨[0, 0, 0, 0, 0, 0, 0], fun _ => 0⟩ 1,
    .read_cb ⟨[ERequestType.TypeReq_Heartbeat.toByte], fun _ => 0⟩ 1]

theorem twoReads_runs :
    (run step (new (fun _ _ => 0) true (text "127.0.0.1")) twoReads).isSome = true := by
  decide +kernel

theorem consistent_iff_twoReads :
    Throughout step (fun s => s.bConnected = true → s.Consistent)
        (new (fun _ _ => 0) true (text "127.0.0.1")) twoReads ↔
      Meets step FreshHead (new (fun _ _ => 0) true (text "127.0.0.1")) twoReads := by
  obtain ⟨t, ht⟩ := Option.isSome_iff_exists.1 twoReads_runs
  exact consistent_iff ht

/-- The peer goes away behind a head, and the client connects again. -/
def cutBehindHead : List UvAction :=
  [.init_timer_cb 0, .connect_cb 0, .read_cb ⟨[0, 0, 5, 0, 0, 0, 0, 0, 0, 0, 0, 0], fun _ => 0⟩ 1,
    .read_error, .reconn_timer_cb 0, .connect_cb 0]

theorem cutBehindHead_runs :
    (run step (new (fun _ _ => 0) true (text "127.0.0.1")) cutBehindHead).map (fun t =>
      (t.bConnected, t.recvStat, t.recvBuffer.RightPos + t.nNeedRead, t.head.pkgBodyLen.toNat)) =
      some (true, ERecvStatType.Type_RecvBody, 12, 5) := by
  decide +kernel

/-- Nothing has been read on the new connection, and a body is waited for. -/
theorem cutBehindHead_not_consistent :
    ∃ t, run step (new (fun _ _ => 0) true (text "127.0.0.1")) cutBehindHead = some t ∧
      t.bConnected = true ∧ ¬ t.Consistent := by
  obtain ⟨t, ht, hfields⟩ := Option.map_eq_some_iff.1 cutBehindHead_runs
  simp only [Prod.mk.injEq] at hfields
  obtain ⟨hconn, hstat, hsum, hbody⟩ := hfields
  refine ⟨t, ht, hconn, fun hc => ?_⟩
  have := hc.body hstat
  rw [hsum, hbody, packageHeadLen_eq] at this
  omega

end Connection

end CppLinuxLearn.Solcom
