import CppLinuxLearn.Solcom.Connection

/-!
# The check for a silent peer

The callbacks of a client with a clock that does not go back. `idle_cb` is to close a connection on
which nothing was read for `MAX_IDLE_INTERVAL` seconds, but what it looks at is `lastWrite`, which its
own heartbeat has just set: no connection is ever closed by the check.
-/

namespace CppLinuxLearn.Solcom

open Lib Steps

/-- An action of the loop or of a user thread, and when it is. -/
structure TimedAction where
  tnow : Int
  action : UvAction

/-- What the callback reads from the clock is the time. -/
def TimedAction.act (a : TimedAction) : UvAction :=
  match a.action with
  | .read_cb rd _ => .read_cb rd a.tnow
  | .req_write_cb status _ => .req_write_cb status a.tnow
  | .idle_cb _ r junk => .idle_cb a.tnow r junk
  | action => action

structure TimedConnection extends Connection where
  /-- the last reading of the clock -/
  now : Int
  /-- history: the time of the last `connect_cb` without an error -/
  established : Int
  /-- history: the time of the last `read_cb` with data; `read_cb` sets `lastRead` without any, too -/
  lastData : Int

namespace TimedConnection

def new (junk : Nat → Nat → UInt8) (solcomSpi : Bool) (servAddr : Bytes) : TimedConnection :=
  ⟨.new junk solcomSpi servAddr, 0, 0, 0⟩

def step (s : TimedConnection) (a : TimedAction) : Option TimedConnection :=
  if s.now ≤ a.tnow then
    (s.toConnection.step a.act).map fun t =>
      { t with
        now := a.tnow
        established := match a.action with
          | .connect_cb status => if status < 0 then s.established else a.tnow
          | _ => s.established
        lastData := match a.action with
          | .read_cb rd _ => if rd.data = [] then s.lastData else a.tnow
          | _ => s.lastData }
  else none

/-- After `idle_cb` of a client that was connected and not stopped, the connection is closed, or the
later of its establishment and its last read of any data is not long ago. -/
def Noticed (s : TimedConnection) (a : TimedAction) : Prop :=
  match a.action with
  | .idle_cb _ _ _ => s.bConnected = true → s.bStop = false → ∀ t, s.step a = some t →
    t.bConnected = false ∨ a.tnow - max s.established s.lastData ≤ MAX_IDLE_INTERVAL
  | _ => True

/-- When `idle_cb` finds a client connected and not stopped, the peer has not been silent for long. -/
def PeerTalks (s : TimedConnection) (a : TimedAction) : Prop :=
  match a.action with
  | .idle_cb _ _ _ => s.bConnected = true → s.bStop = false →
    a.tnow - max s.established s.lastData ≤ MAX_IDLE_INTERVAL
  | _ => True

instance (s : TimedConnection) : (a : TimedAction) → Decidable (PeerTalks s a)
  | ⟨_, .idle_cb _ _ _⟩ => inferInstanceAs (Decidable (_ → _ → _))
  | ⟨_, .PostRequest ..⟩ | ⟨_, .PushMessage ..⟩ | ⟨_, .Stop⟩ | ⟨_, .SetAutoReconnect _⟩ | ⟨_, .connect_cb _⟩
  | ⟨_, .read_cb ..⟩ | ⟨_, .read_error⟩ | ⟨_, .req_write_cb ..⟩ | ⟨_, .reconn_timer_cb _⟩
  | ⟨_, .init_timer_cb _⟩ => .isTrue trivial

end TimedConnection

namespace Connection

theorem lastWrite_beat {junk : Nat → UInt8} {tnow : Int} {s t : Connection} (h : s.beat junk tnow = some t) :
    tnow - t.lastWrite ≤ MAX_WRITE_IDLE_INTERVAL := by
  rw [beat] at h
  split at h
  · obtain ⟨u, -, rfl⟩ := Option.map_eq_some_iff.1 h
    show tnow - tnow ≤ 3
    omega
  · obtain rfl := Option.some.inj h
    omega

theorem idle_write_eq (bIdleStop : Bool) (s : Connection) : ∃ busy writing,
    (if bIdleStop then s else s.writeReq) = { s with bReqWritereqBusy := busy, writing := writing } := by
  rw [writeReq]
  split
  · exact ⟨s.bReqWritereqBusy, s.writing, rfl⟩
  · split
    · exact ⟨s.bReqWritereqBusy, s.writing, rfl⟩
    · exact ⟨true, s.writing + 1, rfl⟩

theorem idle_cb_running {junk : Nat → UInt8} {tnow r : Int} {s t : Connection} (hstop : s.bStop = false)
    (h : s.idle_cb junk tnow r = some t) : ∃ sendCache lastWrite busy writing, t = { s with
      sendCache := sendCache
      lastWrite := lastWrite
      bReqWritereqBusy := busy
      writing := writing } := by
  obtain ⟨u, hu, rfl⟩ := Option.map_eq_some_iff.1 h
  obtain ⟨busy, writing, hwrite⟩ := idle_write_eq (!s.bConnected || s.sendCache.isEmpty) s
  rw [hwrite] at hu
  suffices hkeep : ∃ sendCache lastWrite, u = { s with
      sendCache := sendCache
      lastWrite := lastWrite
      bReqWritereqBusy := busy
      writing := writing } by
    obtain ⟨sendCache, lastWrite, rfl⟩ := hkeep
    refine ⟨sendCache, lastWrite, busy, writing, ?_⟩
    rw [idleStop, if_neg (by simp [hstop])]
  split at hu
  · obtain ⟨w, hw, rfl⟩ := Option.map_eq_some_iff.1 hu
    have hlast := lastWrite_beat hw
    obtain ⟨sendCache, lastWrite, rfl⟩ := beat_eq hw
    have hle : MAX_WRITE_IDLE_INTERVAL ≤ MAX_IDLE_INTERVAL := by decide
    exact ⟨sendCache, lastWrite, if_neg (by omega)⟩
  · exact ⟨s.sendCache, s.lastWrite, (Option.some.inj hu).symm⟩

theorem connected_idle_cb {junk : Nat → UInt8} {tnow r : Int} {s t : Connection} (hconn : s.bConnected = true)
    (hstop : s.bStop = false) (h : s.idle_cb junk tnow r = some t) : t.bConnected = true := by
  obtain ⟨sendCache, lastWrite, busy, writing, rfl⟩ := idle_cb_running hstop h
  exact hconn

theorem idle_cb_stopped {junk : Nat → UInt8} {tnow r : Int} {s t : Connection} (hstop : s.bStop = true)
    (h : s.idle_cb junk tnow r = some t) : ∃ busy writing,
      t = idleStop (!s.bConnected || s.sendCache.isEmpty) { s with bReqWritereqBusy := busy, writing := writing } := by
  obtain ⟨u, hu, rfl⟩ := Option.map_eq_some_iff.1 h
  obtain ⟨busy, writing, hwrite⟩ := idle_write_eq (!s.bConnected || s.sendCache.isEmpty) s
  rw [hwrite] at hu
  rw [if_neg (by simp [hstop])] at hu
  exact ⟨busy, writing, by rw [Option.some.inj hu]⟩

end Connection

namespace TimedConnection

theorem noticed_iff_peerTalks (s : TimedConnection) (a : TimedAction) (t : TimedConnection)
    (h : s.step a = some t) : Noticed s a ↔ PeerTalks s a := by
  obtain ⟨tnow, action⟩ := a
  cases action with
  | idle_cb tnow' r junk =>
    refine forall₂_congr fun hconn hstop => ?_
    constructor
    · intro hnoticed
      refine (hnoticed t h).resolve_left ?_
      obtain ⟨-, h⟩ := Option.ite_none_right_eq_some.1 h
      obtain ⟨u, hu, rfl⟩ := Option.map_eq_some_iff.1 h
      obtain ⟨-, hu⟩ := Option.ite_none_right_eq_some.1 hu
      rw [Connection.connected_idle_cb hconn hstop hu]
      decide
    · exact fun htalks _ _ => .inr htalks
  | _ => exact Iff.rfl

/-- **In every run of a client with any readings of a clock that does not go back, a silent peer is
noticed at every `idle_cb` exactly if no `idle_cb` finds one.** -/
theorem noticed_iff {junk : Nat → Nat → UInt8} {solcomSpi : Bool} {servAddr : Bytes} {as : List TimedAction}
    {t : TimedConnection} (h : run step (new junk solcomSpi servAddr) as = some t) :
    Meets step Noticed (new junk solcomSpi servAddr) as ↔
      Meets step PeerTalks (new junk solcomSpi servAddr) as :=
  meets_congr noticed_iff_peerTalks h

/-- The peer sends something after a minute; a later `read_cb` finds nothing to read. -/
def talks : List TimedAction :=
  [⟨0, .init_timer_cb 0⟩, ⟨1, .connect_cb 0⟩, ⟨61, .read_cb ⟨[0, 0, 1], fun _ => 0⟩ 0⟩,
    ⟨129, .read_cb ⟨[], fun _ => 0⟩ 0⟩, ⟨130, .idle_cb 0 0 fun _ => 0⟩]

theorem talks_runs : (run step (new (fun _ _ => 0) true (text "127.0.0.1")) talks).isSome = true := by
  decide +kernel

theorem noticed_iff_talks :
    Meets step Noticed (new (fun _ _ => 0) true (text "127.0.0.1")) talks ↔
      Meets step PeerTalks (new (fun _ _ => 0) true (text "127.0.0.1")) talks := by
  obtain ⟨t, ht⟩ := Option.isSome_iff_exists.1 talks_runs
  exact noticed_iff ht

/-- Nothing is ever read. -/
def dead : List TimedAction :=
  [⟨0, .init_timer_cb 0⟩, ⟨1, .connect_cb 0⟩, ⟨102, .idle_cb 0 0 fun _ => 0⟩]

theorem dead_runs : (run step (new (fun _ _ => 0) true (text "127.0.0.1")) dead).isSome = true := by
  decide +kernel

theorem dead_not_noticed : (run step (new (fun _ _ => 0) true (text "127.0.0.1")) dead).isSome = true ∧
    ¬ Meets step Noticed (new (fun _ _ => 0) true (text "127.0.0.1")) dead := by
  obtain ⟨t, ht⟩ := Option.isSome_iff_exists.1 dead_runs
  refine ⟨dead_runs, fun h => ?_⟩
  rw [meets_congr noticed_iff_peerTalks ht] at h
  exact absurd h (by decide +kernel)

end TimedConnection

end CppLinuxLearn.Solcom
