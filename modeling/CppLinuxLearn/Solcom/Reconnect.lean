import CppLinuxLearn.Solcom.IdleCheck

/-!
# A client that goes on trying

A `SolcomApi` over any number of starts of its loop. Every callback that loses the connection arms the
reconnect timer, and `connect_cb` does so for an attempt that fails. `connectServer` does not where
`uv_tcp_connect` returns an error at once: it prints the error, and nothing is left that would try again.
-/

namespace CppLinuxLearn.Solcom

open Lib Steps

structure SolcomApi extends Connection where
  /-- `uv_tcp_connect` has been called -/
  attempted : Bool

inductive ApiAction
  | RegistServer (pAddr : Bytes)
  /-- a new thread for the loop, where the one before has ended and was joined -/
  | Start
  /-- an action of the loop or of another user thread -/
  | uv (a : UvAction)
  /-- `idle_cb`, and `uv_write` returns an error at once: there is no callback for it -/
  | idle_cb_refused (tnow r : Int) (junk : Nat → UInt8)

namespace Connection

/-- The thread of the loop has come to its end: nothing is active. -/
def ended (s : Connection) : Bool :=
  s.bStop && !s.bConnected && s.connecting == 0 && s.writing == 0 && !s.idleHandle && !s.recnTimerHandle &&
    !s.initTimerHandle

/-- `loopFunction` of a new thread, up to `uv_run`. -/
def start (s : Connection) : Connection :=
  { s with bStop := false, idleHandle := true, initTimerHandle := true, lastRead := 0, lastWrite := 0 }

/-- The callback calls `uv_tcp_connect`. `idle_cb` does so only for a client that was connected. -/
def calls (s : Connection) : UvAction → Bool
  | .reconn_timer_cb _ => !s.bConnected && s.servAddr.headD 0 ≠ 0
  | .init_timer_cb _ => s.servAddr.headD 0 ≠ 0
  | _ => false

/-- `bAutoReconn && !bStop`, and an address is registered. -/
def Wanted (s : Connection) : Prop := s.bAutoReconn = true ∧ s.bStop = false ∧ s.servAddr.headD 0 ≠ 0

/-- There is a connection, or something is left that will lead to one or to another attempt. -/
def Trying (s : Connection) : Prop :=
  s.bConnected = true ∨ 0 < s.connecting ∨ s.initTimerHandle = true ∨ s.recnTimerHandle = true

end Connection

namespace SolcomApi

def new (junk : Nat → Nat → UInt8) (solcomSpi : Bool) (servAddr : Bytes) : SolcomApi :=
  ⟨.new junk solcomSpi servAddr, false⟩

def step (s : SolcomApi) : ApiAction → Option SolcomApi
  | .RegistServer pAddr => some { s with servAddr := pAddr }
  | .Start => if s.ended then some { s with toConnection := s.toConnection.start } else none
  | .uv a => (s.toConnection.step a).map fun t => ⟨t, s.attempted || s.calls a⟩
  | .idle_cb_refused tnow r junk =>
    (s.toConnection.step (.idle_cb tnow r junk)).map fun t => ⟨{ t with writing := s.writing }, s.attempted⟩

/-- After the first attempt, a client that is to reconnect is connected or goes on trying. -/
def NotStuck (s : SolcomApi) : Prop := s.attempted = true → s.Wanted → s.Trying

/-- An attempt that `uv_tcp_connect` refuses at once is not the only thing that is left, and nobody asks
for reconnection, or registers an address, when nothing is left. -/
def KeepsTrying (s : SolcomApi) : ApiAction → Prop
  | .RegistServer pAddr => s.attempted = true → s.bAutoReconn = true → s.bStop = false → pAddr.headD 0 ≠ 0 → s.Trying
  | .uv (.SetAutoReconnect recon) =>
    s.attempted = true → recon = true → s.bStop = false → s.servAddr.headD 0 ≠ 0 → s.Trying
  | .uv (.init_timer_cb r) => r < 0 → s.Wanted → Connection.Trying { s.toConnection with initTimerHandle := false }
  | .uv (.reconn_timer_cb r) => r < 0 → s.Wanted → Connection.Trying { s.toConnection with recnTimerHandle := false }
  | _ => True

end SolcomApi

/-! ## The callbacks -/

namespace Connection

variable {s t : Connection}

theorem trying_startReconnTimer (s : Connection) (h : s.startReconnTimer.Wanted) : s.startReconnTimer.Trying := by
  obtain ⟨armed, heq⟩ := startReconnTimer_eq s
  obtain ⟨hauto, hstop, -⟩ := h
  rw [heq] at hauto hstop
  have hauto : s.bAutoReconn = true := hauto
  have hstop : s.bStop = false := hstop
  rw [startReconnTimer, if_pos (by rw [hauto, hstop]; rfl)]
  exact .inr (.inr (.inr rfl))

theorem trying_connectServer {r : Int} (hr : 0 ≤ r) (h : (s.connectServer r).Wanted) : (s.connectServer r).Trying := by
  obtain ⟨n, heq⟩ := connectServer_eq r s
  obtain ⟨-, -, haddr⟩ := h
  rw [heq] at haddr
  have haddr : s.servAddr.headD 0 ≠ 0 := haddr
  rw [connectServer, if_neg haddr, if_neg (not_lt.2 hr)]
  exact .inr (.inl (Nat.succ_pos _))

theorem connectServer_of_neg {r : Int} (hr : r < 0) : s.connectServer r = s := by
  rw [connectServer, if_pos hr, ite_self]

theorem trying_attempt {r : Int} (h : r < 0 → s.Wanted → s.Trying) (hwant : (s.connectServer r).Wanted) :
    (s.connectServer r).Trying := by
  rcases lt_or_ge r 0 with hneg | hpos
  · rw [connectServer_of_neg hneg] at hwant ⊢
    exact h hneg hwant
  · exact trying_connectServer hpos hwant

theorem idle_cb_settings {junk : Nat → UInt8} {tnow r : Int} (h : s.idle_cb junk tnow r = some t) :
    t.bAutoReconn = s.bAutoReconn ∧ t.bStop = s.bStop ∧ t.servAddr = s.servAddr := by
  obtain ⟨sendCache, lastWrite, b, calls, connecting, idle, -, rfl⟩ := idle_cb_eq h
  rw [writeReq]
  split
  · exact ⟨rfl, rfl, rfl⟩
  · split <;> exact ⟨rfl, rfl, rfl⟩

theorem trying_idle_cb {junk : Nat → UInt8} {tnow r : Int} (h : s.idle_cb junk tnow r = some t)
    (hs : s.Wanted → s.Trying) (hwant : t.Wanted) : t.Trying := by
  obtain ⟨hauto, hstop, haddr⟩ := idle_cb_settings h
  rw [Wanted, hauto, hstop, haddr] at hwant
  obtain ⟨sendCache, lastWrite, busy, writing, rfl⟩ := idle_cb_running hwant.2.1 h
  exact hs hwant

end Connection

namespace SolcomApi

variable {s t : SolcomApi}

theorem NotStuck.same {u : Connection} {a : UvAction} (h : s.NotStuck) (hcalls : s.calls a = false)
    (htry : u.Trying = s.toConnection.Trying) (hwant : u.Wanted = s.toConnection.Wanted) :
    SolcomApi.NotStuck ⟨u, s.attempted || s.calls a⟩ := by
  intro hatt hw
  rw [hcalls, Bool.or_false] at hatt
  exact htry.symm ▸ h hatt (hwant ▸ hw)

theorem NotStuck.uv {u : Connection} {a : UvAction} (h : s.NotStuck) (ha : s.KeepsTrying (.uv a))
    (hu : s.toConnection.step a = some u) : SolcomApi.NotStuck ⟨u, s.attempted || s.calls a⟩ := by
  cases a with
  | PostRequest msg requestID junk =>
    obtain ⟨sendCache, rfl⟩ := Connection.post_eq hu
    exact h.same rfl rfl rfl
  | PushMessage msg junk =>
    obtain ⟨sendCache, rfl⟩ := Connection.post_eq hu
    exact h.same rfl rfl rfl
  | Stop =>
    obtain rfl := Option.some.inj hu
    exact fun _ hwant => absurd hwant.2.1 (by simp)
  | SetAutoReconnect recon =>
    obtain rfl := Option.some.inj hu
    intro hatt hwant
    have hatt : s.attempted = true := by simpa [Connection.calls] using hatt
    exact ha hatt hwant.1 hwant.2.1 hwant.2.2
  | connect_cb status =>
    obtain ⟨-, hu⟩ := Option.ite_none_left_eq_some.1 hu
    obtain rfl := Option.some.inj hu
    rcases lt_or_ge status 0 with hneg | hpos
    · rw [Connection.connect_cb, if_pos hneg]
      exact fun _ hwant => Connection.trying_startReconnTimer _ hwant
    · obtain ⟨calls, hcb⟩ := Connection.connect_cb_nonneg hpos { s.toConnection with connecting := s.connecting - 1 }
      rw [hcb]
      exact fun _ _ => .inl rfl
  | read_cb rd tnow =>
    obtain ⟨⟨hconn, -⟩, hu⟩ := Option.ite_none_right_eq_some.1 hu
    obtain ⟨p, -, rfl⟩ := Option.map_eq_some_iff.1 hu
    exact h.same rfl rfl rfl
  | read_error =>
    obtain ⟨-, hu⟩ := Option.ite_none_right_eq_some.1 hu
    obtain rfl := Option.some.inj hu
    exact fun _ hwant => Connection.trying_startReconnTimer _ hwant
  | req_write_cb status tnow =>
    obtain ⟨-, hu⟩ := Option.ite_none_left_eq_some.1 hu
    obtain rfl := Option.some.inj hu
    rcases lt_or_ge status 0 with hneg | hpos
    · rw [Connection.req_write_cb, if_pos hneg]
      exact fun _ hwant => Connection.trying_startReconnTimer _ hwant
    · rw [Connection.req_write_cb, if_neg (not_lt.2 hpos)]
      exact h.same rfl rfl rfl
  | reconn_timer_cb r =>
    obtain ⟨-, hu⟩ := Option.ite_none_right_eq_some.1 hu
    obtain rfl := Option.some.inj hu
    rw [Connection.reconn_timer_cb]
    split
    next hconn => exact fun _ _ => .inl hconn
    next => exact fun _ hwant => Connection.trying_attempt (fun hr hw => ha hr hw) hwant
  | init_timer_cb r =>
    obtain ⟨-, hu⟩ := Option.ite_none_right_eq_some.1 hu
    obtain rfl := Option.some.inj hu
    exact fun _ hwant => Connection.trying_attempt (fun hr hw => ha hr hw) hwant
  | idle_cb tnow r junk =>
    obtain ⟨-, hu⟩ := Option.ite_none_right_eq_some.1 hu
    intro hatt hwant
    have hatt : s.attempted = true := by simpa [Connection.calls] using hatt
    exact Connection.trying_idle_cb hu (h hatt) hwant

/-- Every step keeps a client from being stuck, if it is not one of those that the condition is about. -/
theorem NotStuck.step {a : ApiAction} (h : s.NotStuck) (ha : s.KeepsTrying a) (ht : s.step a = some t) : t.NotStuck := by
  cases a with
  | RegistServer pAddr =>
    obtain rfl := Option.some.inj ht
    exact fun hatt hwant => ha hatt hwant.1 hwant.2.1 hwant.2.2
  | Start =>
    obtain ⟨-, ht⟩ := Option.ite_none_right_eq_some.1 ht
    obtain rfl := Option.some.inj ht
    exact fun _ _ => .inr (.inr (.inl rfl))
  | idle_cb_refused tnow r junk =>
    obtain ⟨u, hu, rfl⟩ := Option.map_eq_some_iff.1 ht
    obtain ⟨-, hu⟩ := Option.ite_none_right_eq_some.1 hu
    intro hatt hwant
    have htry : u.Trying := Connection.trying_idle_cb hu (h hatt) hwant
    exact htry
  | uv a =>
    obtain ⟨u, hu, rfl⟩ := Option.map_eq_some_iff.1 ht
    exact h.uv ha hu

theorem NotStuck.keepsTrying {a : ApiAction} (ht : s.step a = some t) (h : t.NotStuck) : s.KeepsTrying a := by
  cases a with
  | RegistServer pAddr =>
    obtain rfl := Option.some.inj ht
    exact fun hatt hauto hstop haddr => h hatt ⟨hauto, hstop, haddr⟩
  | Start | idle_cb_refused => trivial
  | uv a =>
    obtain ⟨u, hu, rfl⟩ := Option.map_eq_some_iff.1 ht
    cases a with
    | SetAutoReconnect recon =>
      obtain rfl := Option.some.inj hu
      intro hatt hrecon hstop haddr
      exact h (by rw [hatt]; rfl) ⟨hrecon, hstop, haddr⟩
    | reconn_timer_cb r =>
      obtain ⟨-, hu⟩ := Option.ite_none_right_eq_some.1 hu
      obtain rfl := Option.some.inj hu
      intro hneg hwant
      rw [Connection.reconn_timer_cb, Connection.connectServer_of_neg hneg, ite_self] at h
      cases hconn : s.bConnected with
      | true => exact .inl hconn
      | false =>
        have hcalls : s.calls (.reconn_timer_cb r) = true := by
          rw [Connection.calls, hconn]
          simpa using hwant.2.2
        exact h (by rw [hcalls, Bool.or_true]) hwant
    | init_timer_cb r =>
      obtain ⟨-, hu⟩ := Option.ite_none_right_eq_some.1 hu
      obtain rfl := Option.some.inj hu
      intro hneg hwant
      rw [Connection.init_timer_cb, Connection.connectServer_of_neg hneg] at h
      have hcalls : s.calls (.init_timer_cb r) = true := by
        rw [Connection.calls]
        simpa using hwant.2.2
      exact h (by rw [hcalls, Bool.or_true]) hwant
    | _ => trivial

instance (s : Connection) : Decidable s.Wanted := inferInstanceAs (Decidable (_ ∧ _))

instance (s : Connection) : Decidable s.Trying := inferInstanceAs (Decidable (_ ∨ _))

instance (s : SolcomApi) : (a : ApiAction) → Decidable (KeepsTrying s a)
  | .RegistServer _ => inferInstanceAs (Decidable (_ → _ → _ → _ → _))
  | .uv (.SetAutoReconnect _) => inferInstanceAs (Decidable (_ → _ → _ → _ → _))
  | .uv (.init_timer_cb _) | .uv (.reconn_timer_cb _) => inferInstanceAs (Decidable (_ → _ → _))
  | .Start | .idle_cb_refused .. | .uv (.PostRequest ..) | .uv (.PushMessage ..) | .uv .Stop | .uv (.connect_cb _)
  | .uv (.read_cb ..) | .uv .read_error | .uv (.req_write_cb ..) | .uv (.idle_cb ..) => .isTrue trivial

/-- **In every run, whatever is reported to it, the client is never stuck exactly if no attempt is refused
at once, and reconnection and an address are not asked for, when nothing else is left.** -/
theorem notStuck_iff {junk : Nat → Nat → UInt8} {solcomSpi : Bool} {servAddr : Bytes} {as : List ApiAction}
    {t : SolcomApi} (h : run step (new junk solcomSpi servAddr) as = some t) :
    Throughout step NotStuck (new junk solcomSpi servAddr) as ↔ Meets step KeepsTrying (new junk solcomSpi servAddr) as := by
  have hnew : (new junk solcomSpi servAddr).NotStuck := fun hatt => absurd hatt Bool.false_ne_true
  exact throughout_iff_meets (I := NotStuck) (fun _ _ _ hs ha ht => hs.step ha ht) (fun _ hs => hs)
    (fun _ _ _ _ ht htr => htr.keepsTrying ht) hnew h

/-- An attempt that fails, one that does not, a read error, a second server, and a restart. -/
def tries : List ApiAction :=
  [.uv (.init_timer_cb 0), .uv (.connect_cb (-111)), .uv (.reconn_timer_cb 0), .uv (.connect_cb 0),
    .uv .read_error, .RegistServer (text "127.0.0.2"), .uv (.reconn_timer_cb 0), .uv .Stop,
    .uv (.connect_cb (-111)), .uv (.idle_cb 1 0 fun _ => 0), .Start, .uv (.init_timer_cb 0)]

theorem tries_runs : (run step (new (fun _ _ => 0) true (text "127.0.0.1")) tries).isSome = true := by
  decide +kernel

theorem notStuck_iff_tries : Throughout step NotStuck (new (fun _ _ => 0) true (text "127.0.0.1")) tries ↔
    Meets step KeepsTrying (new (fun _ _ => 0) true (text "127.0.0.1")) tries := by
  obtain ⟨t, ht⟩ := Option.isSome_iff_exists.1 tries_runs
  exact notStuck_iff ht

example : Meets step KeepsTrying (new (fun _ _ => 0) true (text "127.0.0.1")) tries := by
  decide +kernel

/-- `uv_tcp_connect` refuses the first attempt at once, with `ENETUNREACH`. -/
def refused : List ApiAction := [.uv (.init_timer_cb (-101))]

theorem refused_stuck : ∃ t, run step (new (fun _ _ => 0) true (text "127.0.0.1")) refused = some t ∧ ¬ t.NotStuck := by
  have hrun : (run step (new (fun _ _ => 0) true (text "127.0.0.1")) refused).map (fun t =>
      (t.attempted, decide t.Wanted, decide t.Trying)) = some (true, true, false) := by
    decide +kernel
  obtain ⟨t, ht, hfields⟩ := Option.map_eq_some_iff.1 hrun
  simp only [Prod.mk.injEq, decide_eq_true_eq, decide_eq_false_iff_not] at hfields
  exact ⟨t, ht, fun h => hfields.2.2 (h hfields.1 hfields.2.1)⟩

end SolcomApi

end CppLinuxLearn.Solcom
