import CppLinuxLearn.Solcom.Reconnect

/-!
# The notifications of a lost connection

`closeConnection` closes the handle where there is a connection, and calls `OnDisconnect` in any case. It
is called again for a connection that is closed where a write was outstanding, whose callback gets an
error, and by `idle_cb` where the client is stopped. A ledger says which calls each established connection
has got.
-/

namespace CppLinuxLearn.Solcom

open Lib Steps

/-- An established connection, and the calls of `OnDisconnect` that no failed attempt accounts for, from
its establishment to that of the next. -/
structure Established where
  closed : Bool
  onDisconnects : Nat
deriving DecidableEq

structure Ledger extends SolcomApi where
  /-- the latest first -/
  established : List Established
  /-- such calls before any connection was established -/
  others : Nat

namespace ApiAction

/-- A connect attempt fails. -/
def fails : ApiAction → Bool
  | .uv (.connect_cb status) => status < 0
  | _ => false

/-- A connection is established. -/
def establishes : ApiAction → Bool
  | .uv (.connect_cb status) => 0 ≤ status
  | _ => false

end ApiAction

namespace Ledger

def new (junk : Nat → Nat → UInt8) (servAddr : Bytes) : Ledger := ⟨.new junk true servAddr, [], 0⟩

/-- What the step to `t` adds to the ledger. -/
def book (s : Ledger) (a : ApiAction) (t : SolcomApi) : Ledger :=
  let calls := (t.spiCalls.drop s.spiCalls.length).count .OnDisconnect
  if a.fails then ⟨t, s.established, s.others⟩
  else if a.establishes then ⟨t, ⟨false, calls⟩ :: s.established, s.others⟩
  else match s.established with
    | [] => ⟨t, [], s.others + calls⟩
    | e :: es => ⟨t, ⟨e.closed || s.bConnected && !t.bConnected, e.onDisconnects + calls⟩ :: es, s.others⟩

def step (s : Ledger) (a : ApiAction) : Option Ledger := (s.toSolcomApi.step a).map (s.book a)

/-- Each established connection has got one call if it was closed and else none, and every other call comes
from an attempt that failed. -/
def Once (s : Ledger) : Prop :=
  s.others = 0 ∧ ∀ e ∈ s.established, e.onDisconnects = if e.closed then 1 else 0

/-- A write fails, or `idle_cb` of a stopped client is called, only while there is a connection. -/
def WhileConnected (s : Ledger) : ApiAction → Prop
  | .uv (.req_write_cb status _) => status < 0 → s.bConnected = true
  | .uv (.idle_cb ..) | .idle_cb_refused .. => s.bStop = true → s.bConnected = true
  | _ => True

/-- The invariant: the latest connection is closed where the client is not connected. -/
structure Booked (s : Ledger) : Prop where
  spi : s.solcomSpi = true
  once : s.Once
  latest : (s.established = [] ∧ s.bConnected = false) ∨
    ∃ e es, s.established = e :: es ∧ e.closed = !s.bConnected

end Ledger

/-! ## What a step notifies of -/

namespace Connection

/-- The step appends these calls and leaves the client connected or not. -/
structure Notes (s t : Connection) (calls : List SpiCall) (bConnected : Bool) : Prop where
  spi : t.solcomSpi = true
  calls : t.spiCalls = s.spiCalls ++ calls
  connected : t.bConnected = bConnected

variable {s t : Connection}

theorem notes_onSpi (hspi : s.solcomSpi = true) (c : SpiCall) : Notes s (s.onSpi c) [c] s.bConnected := by
  rw [onSpi, if_pos hspi]
  exact ⟨hspi, rfl, rfl⟩

theorem notes_closeConnection (hspi : s.solcomSpi = true) : Notes s s.closeConnection [.OnDisconnect] false := by
  rw [closeConnection, onSpi, if_pos hspi]
  exact ⟨hspi, rfl, rfl⟩

theorem Notes.startReconnTimer {calls : List SpiCall} {b : Bool} (h : Notes s t calls b) :
    Notes s t.startReconnTimer calls b := by
  obtain ⟨armed, heq⟩ := startReconnTimer_eq t
  rw [heq]
  exact ⟨h.spi, h.calls, h.connected⟩

theorem notes_of_eq (hspi : t.solcomSpi = true) (hcalls : t.spiCalls = s.spiCalls) (hconn : t.bConnected = s.bConnected) :
    Notes s t [] s.bConnected := ⟨hspi, by rw [hcalls, List.append_nil], hconn⟩

theorem notes_connectServer (hspi : s.solcomSpi = true) (r : Int) : Notes s (s.connectServer r) [] s.bConnected := by
  obtain ⟨n, heq⟩ := connectServer_eq r s
  rw [heq]
  exact notes_of_eq hspi rfl rfl

theorem notes_connect_cb (hspi : s.solcomSpi = true) {status : Int} (ht : s.step (.connect_cb status) = some t) :
    (status < 0 → Notes s t [.OnDisconnect] s.bConnected) ∧ (0 ≤ status → Notes s t [.OnConnect] true) := by
  obtain ⟨-, ht⟩ := Option.ite_none_left_eq_some.1 ht
  obtain rfl := Option.some.inj ht
  constructor
  · intro hneg
    rw [connect_cb, if_pos hneg]
    have hcall := notes_onSpi (s := { s with connecting := s.connecting - 1 }) hspi .OnDisconnect
    exact Notes.startReconnTimer ⟨hcall.spi, hcall.calls, hcall.connected⟩
  · intro hpos
    rw [connect_cb, if_neg (not_lt.2 hpos), onSpi, if_pos hspi]
    exact ⟨hspi, rfl, rfl⟩

theorem notes_idleStop (hspi : s.solcomSpi = true) (hstop : s.bStop = true) (bIdleStop : Bool) :
    if bIdleStop then Notes s (s.idleStop bIdleStop) [.OnDisconnect] false
    else Notes s (s.idleStop bIdleStop) [] s.bConnected := by
  cases bIdleStop with
  | true =>
    have hidle : s.idleStop true = closeConnection { s with idleHandle := false } := if_pos (by rw [hstop]; rfl)
    have hclose := notes_closeConnection (s := { s with idleHandle := false }) hspi
    rw [if_pos rfl, hidle]
    exact ⟨hclose.spi, hclose.calls, hclose.connected⟩
  | false =>
    have hidle : s.idleStop false = s := if_neg (by simp)
    rw [if_neg Bool.false_ne_true, hidle]
    exact notes_of_eq hspi rfl rfl

theorem notes_idle_cb (hspi : s.solcomSpi = true) {junk : Nat → UInt8} {tnow r : Int}
    (ht : s.idle_cb junk tnow r = some t) :
    if s.bStop && (!s.bConnected || s.sendCache.isEmpty) then Notes s t [.OnDisconnect] false
    else Notes s t [] s.bConnected := by
  cases hstop : s.bStop with
  | false =>
    obtain ⟨sendCache, lastWrite, busy, writing, rfl⟩ := idle_cb_running hstop ht
    exact notes_of_eq hspi rfl rfl
  | true =>
    obtain ⟨busy, writing, rfl⟩ := idle_cb_stopped hstop ht
    have hidle := notes_idleStop (s := { s with bReqWritereqBusy := busy, writing := writing }) hspi hstop
      (!s.bConnected || s.sendCache.isEmpty)
    rw [Bool.true_and]
    split at hidle
    · rename_i hempty
      rw [if_pos hempty]
      exact ⟨hidle.spi, hidle.calls, hidle.connected⟩
    · rename_i hsend
      rw [if_neg hsend]
      exact ⟨hidle.spi, hidle.calls, hidle.connected⟩

/-- The action calls `closeConnection`. -/
def closes (s : Connection) : UvAction → Bool
  | .read_error => true
  | .req_write_cb status _ => status < 0
  | .idle_cb .. => s.bStop && (!s.bConnected || s.sendCache.isEmpty)
  | _ => false

theorem notes_step (hspi : s.solcomSpi = true) {a : UvAction} (ha : ∀ status, a ≠ .connect_cb status)
    (ht : s.step a = some t) : if s.closes a then Notes s t [.OnDisconnect] false else Notes s t [] s.bConnected := by
  cases a with
  | PostRequest msg requestID junk | PushMessage msg junk =>
    obtain ⟨sendCache, rfl⟩ := post_eq ht
    exact notes_of_eq hspi rfl rfl
  | Stop | SetAutoReconnect recon =>
    obtain rfl := Option.some.inj ht
    exact notes_of_eq hspi rfl rfl
  | connect_cb status => exact absurd rfl (ha status)
  | read_cb rd tnow =>
    obtain ⟨-, ht⟩ := Option.ite_none_right_eq_some.1 ht
    obtain ⟨p, -, rfl⟩ := Option.map_eq_some_iff.1 ht
    exact notes_of_eq hspi rfl rfl
  | read_error =>
    obtain ⟨-, ht⟩ := Option.ite_none_right_eq_some.1 ht
    obtain rfl := Option.some.inj ht
    exact (notes_closeConnection hspi).startReconnTimer
  | req_write_cb status tnow =>
    obtain ⟨-, ht⟩ := Option.ite_none_left_eq_some.1 ht
    obtain rfl := Option.some.inj ht
    rw [req_write_cb, closes]
    by_cases hneg : status < 0
    · have hclose := notes_closeConnection (s := { s with writing := s.writing - 1 }) hspi
      rw [if_pos hneg, if_pos (decide_eq_true hneg)]
      exact Notes.startReconnTimer ⟨hclose.spi, hclose.calls, hclose.connected⟩
    · rw [if_neg hneg, if_neg (by simpa using hneg)]
      exact notes_of_eq hspi rfl rfl
  | reconn_timer_cb r =>
    obtain ⟨-, ht⟩ := Option.ite_none_right_eq_some.1 ht
    obtain rfl := Option.some.inj ht
    show Notes s (reconn_timer_cb r { s with recnTimerHandle := false }) [] s.bConnected
    rw [reconn_timer_cb]
    split
    · exact notes_of_eq hspi rfl rfl
    · have hconn := notes_connectServer (s := { s with recnTimerHandle := false }) hspi r
      exact ⟨hconn.spi, hconn.calls, hconn.connected⟩
  | init_timer_cb r =>
    obtain ⟨-, ht⟩ := Option.ite_none_right_eq_some.1 ht
    obtain rfl := Option.some.inj ht
    have hconn := notes_connectServer (s := { s with initTimerHandle := false }) hspi r
    exact ⟨hconn.spi, hconn.calls, hconn.connected⟩
  | idle_cb tnow r junk =>
    obtain ⟨-, ht⟩ := Option.ite_none_right_eq_some.1 ht
    exact notes_idle_cb hspi ht

end Connection

namespace Ledger

/-- The action calls `closeConnection`. -/
def closes (s : Ledger) : ApiAction → Bool
  | .uv a => s.toConnection.closes a
  | .idle_cb_refused tnow r junk => s.toConnection.closes (.idle_cb tnow r junk)
  | _ => false

variable {s t : Ledger}

/-- What a step that neither fails an attempt nor establishes a connection does to the ledger. -/
theorem step_spec (hspi : s.solcomSpi = true) {a : ApiAction} (hfail : a.fails = false) (hest : a.establishes = false)
    (ht : s.step a = some t) : t.solcomSpi = true ∧ t.bConnected = (s.bConnected && !s.closes a) ∧
      match s.established with
      | [] => t.established = [] ∧ t.others = s.others + if s.closes a then 1 else 0
      | e :: es => t.others = s.others ∧ t.established =
        ⟨e.closed || s.bConnected && s.closes a, e.onDisconnects + if s.closes a then 1 else 0⟩ :: es := by
  obtain ⟨u, hu, rfl⟩ := Option.map_eq_some_iff.1 ht
  have hnotes : if s.closes a then s.toConnection.Notes u.toConnection [.OnDisconnect] false
      else s.toConnection.Notes u.toConnection [] s.bConnected := by
    cases a with
    | RegistServer pAddr =>
      obtain rfl := Option.some.inj hu
      exact Connection.notes_of_eq hspi rfl rfl
    | Start =>
      obtain ⟨-, hu⟩ := Option.ite_none_right_eq_some.1 hu
      obtain rfl := Option.some.inj hu
      exact Connection.notes_of_eq hspi rfl rfl
    | uv a =>
      obtain ⟨v, hv, rfl⟩ := Option.map_eq_some_iff.1 hu
      refine Connection.notes_step hspi ?_ hv
      rintro status rfl
      simp only [ApiAction.fails, ApiAction.establishes, decide_eq_false_iff_not] at hfail hest
      omega
    | idle_cb_refused tnow r junk =>
      obtain ⟨v, hv, rfl⟩ := Option.map_eq_some_iff.1 hu
      have hidle := Connection.notes_step hspi (fun status h => by cases h) hv
      rw [closes]
      split at hidle
      · rename_i hclose
        rw [if_pos hclose]
        exact ⟨hidle.spi, hidle.calls, hidle.connected⟩
      · rename_i hclose
        rw [if_neg hclose]
        exact ⟨hidle.spi, hidle.calls, hidle.connected⟩
  have hcount : (u.spiCalls.drop s.spiCalls.length).count .OnDisconnect = if s.closes a then 1 else 0 := by
    split at hnotes
    · rename_i hclose
      rw [hnotes.calls, List.drop_left, if_pos hclose]
      rfl
    · rename_i hclose
      rw [hnotes.calls, List.drop_left, if_neg hclose]
      rfl
  have hconn : u.solcomSpi = true ∧ u.bConnected = (s.bConnected && !s.closes a) := by
    cases hclose : s.closes a with
    | true =>
      rw [hclose, if_pos rfl] at hnotes
      exact ⟨hnotes.spi, by rw [hnotes.connected, Bool.not_true, Bool.and_false]⟩
    | false =>
      rw [hclose, if_neg Bool.false_ne_true] at hnotes
      exact ⟨hnotes.spi, by rw [hnotes.connected, Bool.not_false, Bool.and_true]⟩
  have hclosed : (s.bConnected && !u.bConnected) = (s.bConnected && s.closes a) := by
    rw [hconn.2]
    cases s.bConnected <;> simp
  rw [book, hfail, hest, hcount, hclosed]
  cases hes : s.established with
  | nil => exact ⟨hconn.1, hconn.2, rfl, rfl⟩
  | cons e es => exact ⟨hconn.1, hconn.2, rfl, rfl⟩

theorem closes_connected {a : ApiAction} (ha : s.WhileConnected a) (ht : s.step a = some t) (hclose : s.closes a = true) :
    s.bConnected = true := by
  obtain ⟨u, hu, -⟩ := Option.map_eq_some_iff.1 ht
  have hidle : (s.bStop = true → s.bConnected = true) → (s.bStop && (!s.bConnected || s.sendCache.isEmpty)) = true →
      s.bConnected = true := fun hs hc => hs (Bool.and_eq_true_iff.1 hc).1
  cases a with
  | RegistServer | Start => cases hclose
  | idle_cb_refused => exact hidle ha hclose
  | uv a =>
    obtain ⟨v, hv, -⟩ := Option.map_eq_some_iff.1 hu
    cases a with
    | read_error => exact (Option.ite_none_right_eq_some.1 hv).1
    | req_write_cb status tnow => exact ha (of_decide_eq_true hclose)
    | idle_cb => exact hidle ha hclose
    | _ => cases hclose

theorem whileConnected_of_closes {a : ApiAction} (h : s.closes a = true → s.bConnected = true) : s.WhileConnected a := by
  have hidle : ((s.bStop && (!s.bConnected || s.sendCache.isEmpty)) = true → s.bConnected = true) → s.bStop = true →
      s.bConnected = true := by
    intro hs hstop
    by_contra hconn
    exact hconn (hs (by simp [hstop, hconn]))
  cases a with
  | RegistServer | Start => trivial
  | idle_cb_refused => exact hidle h
  | uv a =>
    cases a with
    | req_write_cb status tnow => exact fun hneg => h (decide_eq_true hneg)
    | idle_cb => exact hidle h
    | _ => trivial

theorem booked_new (junk : Nat → Nat → UInt8) (servAddr : Bytes) : (new junk servAddr).Booked :=
  ⟨rfl, ⟨rfl, nofun⟩, .inl ⟨rfl, rfl⟩⟩

theorem Booked.attempt (h : s.Booked) {status : Int} (ht : s.step (.uv (.connect_cb status)) = some t) : t.Booked := by
  obtain ⟨u, hu, rfl⟩ := Option.map_eq_some_iff.1 ht
  obtain ⟨v, hv, rfl⟩ := Option.map_eq_some_iff.1 hu
  obtain ⟨hneg, hpos⟩ := Connection.notes_connect_cb h.spi hv
  rw [book]
  by_cases hstatus : status < 0
  · obtain ⟨hspi, -, hconn⟩ := hneg hstatus
    have hfails : ApiAction.fails (.uv (.connect_cb status)) = true := decide_eq_true hstatus
    rw [if_pos hfails]
    refine ⟨hspi, h.once, ?_⟩
    show (s.established = [] ∧ v.bConnected = false) ∨ ∃ e es, s.established = e :: es ∧ e.closed = !v.bConnected
    rw [hconn]
    exact h.latest
  · obtain ⟨hspi, hcalls, hconn⟩ := hpos (not_lt.1 hstatus)
    have hcount : (v.spiCalls.drop s.spiCalls.length).count .OnDisconnect = 0 := by
      rw [hcalls, List.drop_left]
      rfl
    have hfails : ¬ ApiAction.fails (.uv (.connect_cb status)) = true := by simpa [ApiAction.fails] using hstatus
    have hest : ApiAction.establishes (.uv (.connect_cb status)) = true := decide_eq_true (not_lt.1 hstatus)
    rw [if_neg hfails, if_pos hest]
    refine ⟨hspi, ⟨h.once.1, ?_⟩, .inr ⟨_, _, rfl, ?_⟩⟩
    · intro e he
      rcases List.mem_cons.1 he with rfl | he
      · exact hcount
      · exact h.once.2 e he
    · show false = !v.bConnected
      rw [hconn]
      rfl

theorem not_attempt {a : ApiAction} (h : ∀ status, a ≠ .uv (.connect_cb status)) :
    a.fails = false ∧ a.establishes = false := by
  unfold ApiAction.fails ApiAction.establishes
  constructor
  · split
    · exact absurd rfl (h _)
    · rfl
  · split
    · exact absurd rfl (h _)
    · rfl

/-- Where `closeConnection` is called only while there is a connection, the latest one gets the call. -/
theorem Booked.step {a : ApiAction} (h : s.Booked) (ha : s.WhileConnected a) (ht : s.step a = some t) : t.Booked := by
  by_cases hconnect : ∃ status, a = .uv (.connect_cb status)
  · obtain ⟨status, rfl⟩ := hconnect
    exact h.attempt ht
  obtain ⟨hfail, hest⟩ := not_attempt fun status heq => hconnect ⟨status, heq⟩
  obtain ⟨hspi, hconn, hledger⟩ := step_spec h.spi hfail hest ht
  have hclose := closes_connected ha ht
  obtain ⟨hothers, honce⟩ := h.once
  rcases h.latest with ⟨hes, hdisc⟩ | ⟨e, es, hes, hclosed⟩
  · rw [hes] at hledger
    obtain ⟨hnil, hcount⟩ := hledger
    have hkeep : s.closes a = false := Bool.eq_false_of_not_eq_true fun hc => by
      have hc := hclose hc
      rw [hdisc] at hc
      cases hc
    rw [hkeep, hothers] at hcount
    refine ⟨hspi, ⟨hcount, by rw [hnil]; exact nofun⟩, .inl ⟨hnil, ?_⟩⟩
    rw [hconn, hdisc, Bool.false_and]
  · rw [hes] at hledger honce
    obtain ⟨hsame, hcons⟩ := hledger
    have hfirst := honce e List.mem_cons_self
    have hrest : ∀ x ∈ es, x.onDisconnects = if x.closed then 1 else 0 := fun x hx => honce x (List.mem_cons_of_mem e hx)
    refine ⟨hspi, ⟨hsame.trans hothers, ?_⟩, .inr ⟨_, es, hcons, ?_⟩⟩
    · rw [hcons]
      refine List.forall_mem_cons.2 ⟨?_, hrest⟩
      cases hc : s.closes a with
      | true =>
        rw [hclose hc] at hclosed
        rw [hfirst, hclosed, hclose hc]
        rfl
      | false =>
        rw [hfirst, Bool.and_false, Bool.or_false]
        rfl
    · rw [hconn, hclosed]
      cases s.bConnected <;> cases s.closes a <;> rfl

theorem Once.whileConnected {a : ApiAction} (h : s.Booked) (ht : s.step a = some t) (htr : t.Once) : s.WhileConnected a := by
  by_cases hconnect : ∃ status, a = .uv (.connect_cb status)
  · obtain ⟨status, rfl⟩ := hconnect
    trivial
  obtain ⟨hfail, hest⟩ := not_attempt fun status heq => hconnect ⟨status, heq⟩
  obtain ⟨-, -, hledger⟩ := step_spec h.spi hfail hest ht
  obtain ⟨hothers, honce⟩ := h.once
  refine whileConnected_of_closes fun hclose => ?_
  by_contra hdisc
  have hdisc : s.bConnected = false := Bool.eq_false_of_not_eq_true hdisc
  rw [hclose, hdisc] at hledger
  rcases h.latest with ⟨hes, -⟩ | ⟨e, es, hes, hclosed⟩
  · rw [hes] at hledger
    have hcount := hledger.2
    rw [hothers, htr.1] at hcount
    cases hcount
  · rw [hes] at hledger honce
    have hfirst := honce e List.mem_cons_self
    rw [hclosed, hdisc] at hfirst
    have htwo := htr.2
    rw [hledger.2] at htwo
    have htwo := htwo _ List.mem_cons_self
    rw [hclosed, hdisc, hfirst] at htwo
    cases htwo

instance (s : Ledger) : (a : ApiAction) → Decidable (WhileConnected s a)
  | .uv (.req_write_cb ..) | .uv (.idle_cb ..) | .idle_cb_refused .. => inferInstanceAs (Decidable (_ → _))
  | .RegistServer _ | .Start | .uv (.PostRequest ..) | .uv (.PushMessage ..) | .uv .Stop | .uv (.SetAutoReconnect _)
  | .uv (.connect_cb _) | .uv (.read_cb ..) | .uv .read_error | .uv (.reconn_timer_cb _) | .uv (.init_timer_cb _) =>
    .isTrue trivial

/-- **In every run of a client with a spi, each closed connection has got one notification and no other has,
and all others are of failed attempts, exactly if no write fails and no `idle_cb` finds the client stopped
when there is no connection.** -/
theorem once_iff {junk : Nat → Nat → UInt8} {servAddr : Bytes} {as : List ApiAction} {t : Ledger}
    (h : run step (new junk servAddr) as = some t) :
    Throughout step Once (new junk servAddr) as ↔ Meets step WhileConnected (new junk servAddr) as :=
  throughout_iff_meets (I := Booked) (fun _ _ _ hs ha ht => hs.step ha ht) (fun _ hs => hs.once)
    (fun _ _ _ hs ht htr => htr.whileConnected hs ht) (booked_new junk servAddr) h

/-- A failed attempt, a connection that a read error ends, and one that is stopped. -/
def twoConnections : List ApiAction :=
  [.uv (.init_timer_cb 0), .uv (.connect_cb (-111)), .uv (.reconn_timer_cb 0), .uv (.connect_cb 0), .uv .read_error,
    .uv (.reconn_timer_cb 0), .uv (.connect_cb 0), .uv .Stop, .uv (.idle_cb 1 0 fun _ => 0)]

theorem twoConnections_runs : (run step (new (fun _ _ => 0) (text "127.0.0.1")) twoConnections).isSome = true := by
  decide +kernel

theorem once_iff_twoConnections : Throughout step Once (new (fun _ _ => 0) (text "127.0.0.1")) twoConnections ↔
    Meets step WhileConnected (new (fun _ _ => 0) (text "127.0.0.1")) twoConnections := by
  obtain ⟨t, ht⟩ := Option.isSome_iff_exists.1 twoConnections_runs
  exact once_iff ht

example : Meets step WhileConnected (new (fun _ _ => 0) (text "127.0.0.1")) twoConnections := by
  decide +kernel

/-- A read error while a write is outstanding, which is then cancelled. -/
def cancelled : List ApiAction :=
  [.uv (.init_timer_cb 0), .uv (.connect_cb 0), .uv (.PostRequest Client.noneMessage.toISerializable 7 fun _ => 0),
    .uv (.idle_cb 1 0 fun _ => 0), .uv .read_error, .uv (.req_write_cb (-125) 1)]

/-- The one connection gets two calls. -/
theorem cancelled_not_once : ∃ t, run step (new (fun _ _ => 0) (text "127.0.0.1")) cancelled = some t ∧
    t.spiCalls = [.OnConnect, .OnDisconnect, .OnDisconnect] ∧ ¬ t.Once := by
  have hrun : (run step (new (fun _ _ => 0) (text "127.0.0.1")) cancelled).map (fun t => (t.spiCalls, t.established)) =
      some ([.OnConnect, .OnDisconnect, .OnDisconnect], [⟨true, 2⟩]) := by
    decide +kernel
  obtain ⟨t, ht, hfields⟩ := Option.map_eq_some_iff.1 hrun
  obtain ⟨hcalls, hes⟩ := Prod.mk.inj hfields
  refine ⟨t, ht, hcalls, fun honce => ?_⟩
  have htwo := honce.2
  rw [hes] at htwo
  exact absurd (htwo _ List.mem_cons_self) (by decide)

end Ledger

end CppLinuxLearn.Solcom
