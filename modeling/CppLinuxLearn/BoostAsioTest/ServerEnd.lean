import Mathlib.Order.Nat
import CppLinuxLearn.Lib.Containers
import CppLinuxLearn.Lib.Steps

/-!
# The ids of the clients

`ServerEnd` of `boostAsioTest`. The handlers of accepts, reads, writes and the heart-beat timer are
called in any order and with any error. A client is an object of its own: the `i`-th that is made is
known by `i`. Its id is given back when its socket is closed, but of the handlers that close sockets
only that of the timer also takes the client out of `clientMap`, and a handler that is called late gives
the id of a closed client back once more.
-/

namespace CppLinuxLearn.BoostAsioTest

open Lib Steps

structure Client where
  /-- `sock` is open -/
  sock : Bool
  nHbtCount : Nat
  nId : Nat
deriving DecidableEq

structure ServerEnd where
  /-- all clients that were ever made; as long as those with an open socket are in the map, none of these
  is destroyed -/
  clients : List Client
  clientMap : List (Nat × Option Nat)
  nMaxCliId : Nat
  avaIdSet : List Nat
  /-- the client of the accept whose handler has not been called -/
  accepting : Option Nat
  /-- the clients of the reads whose handler has not been called -/
  reads : List Nat
  writes : List Nat
  /-- no exception has left `ioService.run` -/
  running : Bool
deriving DecidableEq

inductive ReadResult
  /-- `beat` says whether the buffer is "Heart Beat", `endpoint` whether the peer is still known -/
  | data (beat endpoint : Bool)
  | empty
  | interrupted
  | error

inductive WriteResult
  | ok
  | broken_pipe
  | error

inductive Completion
  | acceptHandler (err endpoint : Bool)
  | readHandler (i : Nat) (res : ReadResult)
  | writeHandler (i : Nat) (res : WriteResult)
  | deadlineTimerHandle

namespace ServerEnd

section
variable (s : ServerEnd)

def createClientId : Nat × ServerEnd :=
  match s.avaIdSet.min? with
  | none => (s.nMaxCliId + 1, { s with nMaxCliId := s.nMaxCliId + 1 })
  | some id => (id, { s with avaIdSet := s.avaIdSet.erase id })

def asyncAccept : ServerEnd :=
  let p := s.createClientId
  { p.2 with
    clients := s.clients ++ [⟨false, 0, p.1⟩]
    accepting := some s.clients.length }

/-- `sock.close(); avaIdSet.insert(nId);` -/
def recycle (i : Nat) (c : Client) : ServerEnd :=
  { s with
    clients := s.clients.set i { c with sock := false }
    avaIdSet := s.avaIdSet.insert c.nId }

def acceptHandler (err endpoint : Bool) : Option ServerEnd := do
  let p ← s.accepting
  let c ← s.clients[p]?
  if err then
    some { s with
      accepting := none
      avaIdSet := s.avaIdSet.insert c.nId
      clientMap := s.clientMap.filter fun e => e.1 ≠ c.nId }
  else
    let s := { s with
      accepting := none
      clients := s.clients.set p { c with sock := true }
      -- `insert` leaves an entry that is there
      clientMap := if (s.clientMap.lookup c.nId).isSome then s.clientMap
        else s.clientMap ++ [(c.nId, some p)] }
    -- `remote_endpoint` throws if the peer has gone
    if endpoint then some { s with reads := s.reads ++ [p] }.asyncAccept
    else some { s with running := false }

def readHandler (i : Nat) (res : ReadResult) : Option ServerEnd := do
  let c ← s.clients[i]?
  match res with
  | .data beat endpoint =>
    if c.sock && endpoint then
      some { s with clients := s.clients.set i { c with nHbtCount := if beat then 0 else c.nHbtCount } }
    else some { s with running := false }
  | .empty | .interrupted => some s
  | .error => some (s.recycle i c)

def writeHandler (i : Nat) (res : WriteResult) : Option ServerEnd := do
  let c ← s.clients[i]?
  match res with
  | .ok => some { s with reads := s.reads ++ [i] }
  | .broken_pipe => some (s.recycle i c)
  | .error => some s

/-- One turn of the loop of `deadlineTimerHandle`. -/
def beat (e : Nat × Option Nat) : ServerEnd :=
  match e.2 with
  | none => s
  | some i =>
    match s.clients[i]? with
    | none => s
    | some c =>
      let c := { c with nHbtCount := c.nHbtCount + 1 }
      if 5 < c.nHbtCount then
        { s.recycle i c with clientMap := s.clientMap.map fun e' => if e' = e then (e.1, none) else e' }
      else { s with clients := s.clients.set i c, writes := s.writes ++ [i] }

def deadlineTimerHandle : ServerEnd := s.clientMap.foldl beat s

end

def new : ServerEnd := asyncAccept ⟨[], [], 0, [], none, [], [], true⟩

def step (s : ServerEnd) (a : Completion) : Option ServerEnd :=
  if s.running then
    match a with
    | .acceptHandler err endpoint => s.acceptHandler err endpoint
    | .readHandler i res => if i ∈ s.reads then { s with reads := s.reads.erase i }.readHandler i res else none
    | .writeHandler i res =>
      if i ∈ s.writes then { s with writes := s.writes.erase i }.writeHandler i res else none
    | .deadlineTimerHandle => some s.deadlineTimerHandle
  else none

/-! ## Who has an id -/

/-- The client has the id `x`, and its socket is open or it is the one of the pending accept. -/
def Has (s : ServerEnd) (i x : Nat) : Prop :=
  ∃ c, s.clients[i]? = some c ∧ c.nId = x ∧ (c.sock = true ∨ s.accepting = some i)

/-- No id is had twice, none that is had is available, and the map leads from the id of an open client
to this client. -/
structure WellNumbered (s : ServerEnd) : Prop where
  distinct : ∀ i j x, s.Has i x → s.Has j x → i = j
  free : ∀ i x, s.Has i x → x ∉ s.avaIdSet
  mapped : ∀ (i : Nat) (c : Client), s.clients[i]? = some c → c.sock = true → s.clientMap.lookup c.nId = some (some i)

/-- Nobody else has the id of the client. -/
def GivesBack (s : ServerEnd) (i : Nat) : Prop :=
  ∀ c, s.clients[i]? = some c → ∀ j, s.Has j c.nId → j = i

/-- An id is given back only for a client that is alone in having it, and nothing is stored under the
id of a client that is accepted. -/
def Clean (s : ServerEnd) : Completion → Prop
  | .acceptHandler err _ => err = false → ∀ p c, s.accepting = some p → s.clients[p]? = some c →
    s.clientMap.lookup c.nId = none
  | .readHandler i .error | .writeHandler i .broken_pipe => s.GivesBack i
  | .deadlineTimerHandle => ∀ k i c, (k, some i) ∈ s.clientMap → s.clients[i]? = some c →
    5 < c.nHbtCount + 1 → s.GivesBack i
  | _ => True

instance (s : ServerEnd) (i x : Nat) : Decidable (s.Has i x) :=
  decidable_of_iff (∃ c ∈ s.clients[i]?, c.nId = x ∧ (c.sock = true ∨ s.accepting = some i)) Iff.rfl

instance (s : ServerEnd) (i : Nat) : Decidable (s.GivesBack i) :=
  decidable_of_iff (∀ c ∈ s.clients[i]?, ∀ j ∈ List.range s.clients.length, s.Has j c.nId → j = i)
    (forall₂_congr fun _ _ => forall_congr' fun _ => ⟨fun h hj =>
      h (List.mem_range.2 (List.getElem?_eq_some_iff.1 hj.choose_spec.1).1) hj, fun h _ => h⟩)

instance (s : ServerEnd) : (a : Completion) → Decidable (s.Clean a)
  | .acceptHandler err _ => decidable_of_iff (err = false → ∀ p ∈ s.accepting, ∀ c ∈ s.clients[p]?,
      s.clientMap.lookup c.nId = none)
      ⟨fun h herr p c hp hc => h herr p hp c hc, fun h herr p hp c hc => h herr p c hp hc⟩
  | .readHandler i .error | .writeHandler i .broken_pipe => inferInstanceAs (Decidable (s.GivesBack i))
  | .deadlineTimerHandle => decidable_of_iff (∀ e ∈ s.clientMap, ∀ i ∈ e.2, ∀ c ∈ s.clients[i]?,
      5 < c.nHbtCount + 1 → s.GivesBack i)
      ⟨fun h k i c hki hc => h (k, some i) hki i rfl c hc, fun h e he i hi c hc =>
        h e.1 i c (show (e.1, some i) ∈ s.clientMap from hi ▸ he) hc⟩
  | .readHandler _ (.data _ _) | .readHandler _ .empty | .readHandler _ .interrupted
  | .writeHandler _ .ok | .writeHandler _ .error => .isTrue trivial

/-- The invariant. The client of the pending accept has no socket yet, and nothing but the accept knows
it. -/
structure Sound (s : ServerEnd) : Prop extends s.WellNumbered where
  le : ∀ (i : Nat) (c : Client), s.clients[i]? = some c → c.nId ≤ s.nMaxCliId
  available : ∀ x ∈ s.avaIdSet, x ≤ s.nMaxCliId
  nodup : s.avaIdSet.Nodup
  keys : (s.clientMap.map Prod.fst).Nodup
  key : ∀ k i, (k, some i) ∈ s.clientMap → ∃ c : Client, s.clients[i]? = some c ∧ c.nId = k
  known : ∀ i, i ∈ s.reads ∨ i ∈ s.writes → i < s.clients.length
  pending : ∀ p, s.accepting = some p → (∃ c : Client, s.clients[p]? = some c ∧ c.sock = false) ∧
    (∀ k, (k, some p) ∉ s.clientMap) ∧ p ∉ s.reads ∧ p ∉ s.writes

section
variable {s : ServerEnd} {i j x : Nat} {c c' : Client}

theorem getElem?_set_some {l : List Client} (h : (l.set i c')[j]? = some c) :
    j = i ∧ c = c' ∨ j ≠ i ∧ l[j]? = some c := by
  by_cases hji : j = i
  · subst hji
    rw [List.getElem?_set] at h
    rw [if_pos rfl] at h
    obtain ⟨-, h⟩ := Option.ite_none_right_eq_some.1 h
    exact .inl ⟨rfl, (Option.some.inj h).symm⟩
  · rw [List.getElem?_set_ne (Ne.symm hji)] at h
    exact .inr ⟨hji, h⟩

theorem getElem?_set_self' {l : List Client} (c' : Client) (h : l[i]? = some c) : (l.set i c')[i]? = some c' :=
  List.getElem?_set_self (List.getElem?_eq_some_iff.1 h).1

theorem Sound.key_set (hs : s.Sound) {c' : Client} (hc : s.clients[i]? = some c) (hid : c'.nId = c.nId) {k : Nat}
    (hj : (k, some j) ∈ s.clientMap) : ∃ d : Client, (s.clients.set i c')[j]? = some d ∧ d.nId = k := by
  obtain ⟨d, hd, hk⟩ := hs.key k j hj
  by_cases hji : j = i
  · subst hji
    obtain rfl : c = d := Option.some.inj (hc.symm.trans hd)
    exact ⟨c', getElem?_set_self' _ hc, hid.trans hk⟩
  · exact ⟨d, (List.getElem?_set_ne (Ne.symm hji)).trans hd, hk⟩

theorem Sound.set (hs : s.Sound) (c' : Client) (hc : s.clients[i]? = some c) (hid : c'.nId = c.nId)
    (hsock : c'.sock = c.sock) : Sound { s with clients := s.clients.set i c' } := by
  have hget : ∀ (j : Nat) (d : Client), (s.clients.set i c')[j]? = some d →
      ∃ d' : Client, s.clients[j]? = some d' ∧ d.nId = d'.nId ∧ d.sock = d'.sock := by
    intro j d hd
    rcases getElem?_set_some hd with ⟨rfl, rfl⟩ | ⟨-, hd⟩
    · exact ⟨c, hc, hid, hsock⟩
    · exact ⟨d, hd, rfl, rfl⟩
  have hhas : ∀ j x, Has { s with clients := s.clients.set i c' } j x → s.Has j x := by
    rintro j x ⟨d, hd, rfl, hopen⟩
    obtain ⟨d', hd', hid', hsock'⟩ := hget j d hd
    exact ⟨d', hd', hid'.symm, hsock' ▸ hopen⟩
  refine ⟨⟨fun j k x hj hk => hs.distinct j k x (hhas j x hj) (hhas k x hk),
    fun j x hj => hs.free j x (hhas j x hj), fun j d hd hopen => ?_⟩, fun j d hd => ?_, hs.available,
    hs.nodup, hs.keys, fun k j hj => ?_, fun j hj => ?_, fun p hp => ?_⟩
  · obtain ⟨d', hd', hid', hsock'⟩ := hget j d hd
    rw [hid']
    exact hs.mapped j d' hd' (hsock' ▸ hopen)
  · obtain ⟨d', hd', hid', -⟩ := hget j d hd
    exact hid' ▸ hs.le j d' hd'
  · exact hs.key_set hc hid hj
  · show j < (s.clients.set i _).length
    rw [List.length_set]
    exact hs.known j hj
  · obtain ⟨⟨d, hd, hclosed⟩, hrest⟩ := hs.pending p hp
    refine ⟨?_, hrest⟩
    by_cases hpi : p = i
    · subst hpi
      obtain rfl : c = d := Option.some.inj (hc.symm.trans hd)
      exact ⟨c', getElem?_set_self' _ hc, hsock.trans hclosed⟩
    · exact ⟨d, (List.getElem?_set_ne (Ne.symm hpi)).trans hd, hclosed⟩

theorem has_recycle (hacc : s.accepting ≠ some i) :
    (s.recycle i c').Has j x ↔ s.Has j x ∧ j ≠ i := by
  constructor
  · rintro ⟨d, hd, rfl, hopen⟩
    rcases getElem?_set_some hd with ⟨rfl, rfl⟩ | ⟨hji, hd⟩
    · exact (hopen.resolve_left Bool.false_ne_true |> hacc).elim
    · exact ⟨⟨d, hd, rfl, hopen⟩, hji⟩
  · rintro ⟨⟨d, hd, hx, hopen⟩, hji⟩
    exact ⟨d, (List.getElem?_set_ne (Ne.symm hji)).trans hd, hx, hopen⟩

theorem Sound.recycle (hs : s.Sound) (c' : Client) (hc : s.clients[i]? = some c) (hid : c'.nId = c.nId)
    (hacc : s.accepting ≠ some i) (hback : s.GivesBack i) : (s.recycle i c').Sound := by
  have hhas : ∀ j x, (s.recycle i c').Has j x → s.Has j x ∧ j ≠ i := fun j x => (has_recycle hacc).1
  refine ⟨⟨fun j k x hj hk => hs.distinct j k x (hhas j x hj).1 (hhas k x hk).1, fun j x hj => ?_,
    fun j d hd hopen => ?_⟩, fun j d hd => ?_, fun x hx => ?_, hs.nodup.insert, hs.keys, fun k j hj => ?_,
    fun j hj => ?_, fun p hp => ?_⟩
  · obtain ⟨hj, hji⟩ := hhas j x hj
    intro hmem
    rcases List.mem_insert_iff.1 hmem with rfl | hmem
    · exact hji (hback c hc j (hid ▸ hj))
    · exact hs.free j x hj hmem
  · rcases getElem?_set_some hd with ⟨rfl, rfl⟩ | ⟨-, hd⟩
    · cases hopen
    · exact hs.mapped j d hd hopen
  · rcases getElem?_set_some hd with ⟨rfl, rfl⟩ | ⟨-, hd⟩
    · exact hid ▸ hs.le j c hc
    · exact hs.le j d hd
  · rcases List.mem_insert_iff.1 hx with rfl | hx
    · exact hid ▸ hs.le i c hc
    · exact hs.available x hx
  · exact hs.key_set hc (show ({ c' with sock := false } : Client).nId = c.nId from hid) hj
  · show j < (s.clients.set i _).length
    rw [List.length_set]
    exact hs.known j hj
  · obtain ⟨⟨d, hd, hclosed⟩, hrest⟩ := hs.pending p hp
    have hpi : p ≠ i := fun h => hacc (h ▸ hp)
    exact ⟨⟨d, (List.getElem?_set_ne (Ne.symm hpi)).trans hd, hclosed⟩, hrest⟩

/-! ## The pending accept -/

theorem Sound.createClientId (hs : s.Sound) :
    s.createClientId.1 ∉ s.createClientId.2.avaIdSet ∧ (∀ j, ¬ s.Has j s.createClientId.1) ∧
      s.createClientId.1 ≤ s.createClientId.2.nMaxCliId ∧ s.nMaxCliId ≤ s.createClientId.2.nMaxCliId ∧
      s.createClientId.2.avaIdSet.Sublist s.avaIdSet := by
  rw [ServerEnd.createClientId]
  split
  · rename_i hnone
    rw [List.min?_eq_none_iff] at hnone
    refine ⟨?_, ?_, le_rfl, Nat.le_succ _, List.Sublist.refl _⟩
    · rw [hnone]
      exact List.not_mem_nil
    · rintro j ⟨d, hd, hx, -⟩
      have hle := hs.le j d hd
      simp only at hx
      omega
  · rename_i id hmin
    have hmem := List.min?_mem hmin
    exact ⟨fun h => (hs.nodup.mem_erase_iff.1 h).1 rfl, fun j hj => hs.free j id hj hmem,
      hs.available id hmem, le_rfl, List.erase_sublist⟩

theorem asyncAccept_same (s : ServerEnd) : s.asyncAccept.clientMap = s.clientMap ∧
    s.asyncAccept.reads = s.reads ∧ s.asyncAccept.writes = s.writes := by
  rw [ServerEnd.asyncAccept, ServerEnd.createClientId]
  split <;> exact ⟨rfl, rfl, rfl⟩

theorem Sound.asyncAccept (hs : s.Sound) : s.asyncAccept.Sound := by
  obtain ⟨hnew, hnobody, hle, hmax, hsub⟩ := hs.createClientId
  obtain ⟨hmap, hreads, hwrites⟩ := asyncAccept_same s
  have hget : ∀ (j : Nat) (d : Client), s.asyncAccept.clients[j]? = some d →
      j < s.clients.length ∧ s.clients[j]? = some d ∨
        j = s.clients.length ∧ d = ⟨false, 0, s.createClientId.1⟩ := by
    intro j d hd
    have hd' : (s.clients ++ [(⟨false, 0, s.createClientId.1⟩ : Client)])[j]? = some d := hd
    rcases Nat.lt_trichotomy j s.clients.length with hlt | rfl | hgt
    · rw [List.getElem?_append_left hlt] at hd'
      exact .inl ⟨hlt, hd'⟩
    · rw [List.getElem?_concat_length] at hd'
      exact .inr ⟨rfl, (Option.some.inj hd').symm⟩
    · rw [List.getElem?_eq_none (by simp; omega)] at hd'
      cases hd'
  have hhas : ∀ j x, s.asyncAccept.Has j x →
      s.Has j x ∨ j = s.clients.length ∧ x = s.createClientId.1 := by
    rintro j x ⟨d, hd, rfl, hopen⟩
    rcases hget j d hd with ⟨hlt, hd⟩ | ⟨rfl, rfl⟩
    · refine .inl ⟨d, hd, rfl, .inl (hopen.resolve_right fun h => ?_)⟩
      have := Option.some.inj h
      omega
    · exact .inr ⟨rfl, rfl⟩
  refine ⟨⟨fun j k x hj hk => ?_, fun j x hj => ?_, fun j d hd hopen => ?_⟩, fun j d hd => ?_,
    fun x hx => (hs.available x (hsub.subset hx)).trans hmax, hs.nodup.sublist hsub, hmap ▸ hs.keys,
    fun k j hj => ?_, fun j hj => ?_, fun p hp => ?_⟩
  · rcases hhas j x hj with hj | ⟨rfl, hx⟩ <;> rcases hhas k x hk with hk | ⟨rfl, hx'⟩
    · exact hs.distinct j k x hj hk
    · exact absurd (hx' ▸ hj) (hnobody j)
    · exact absurd (hx ▸ hk) (hnobody k)
    · rfl
  · rcases hhas j x hj with hj | ⟨rfl, rfl⟩
    · exact fun hmem => hs.free j x hj (hsub.subset hmem)
    · exact hnew
  · rcases hget j d hd with ⟨-, hd⟩ | ⟨rfl, rfl⟩
    · exact (congrArg (List.lookup d.nId) hmap).trans (hs.mapped j d hd hopen)
    · cases hopen
  · rcases hget j d hd with ⟨-, hd⟩ | ⟨rfl, rfl⟩
    · exact (hs.le j d hd).trans hmax
    · exact hle
  · obtain ⟨d, hd, hk⟩ := hs.key k j (hmap ▸ hj)
    refine ⟨d, ?_, hk⟩
    exact (List.getElem?_append_left (List.getElem?_eq_some_iff.1 hd).1).trans hd
  · have hlt := hs.known j (hj.imp (hreads ▸ ·) (hwrites ▸ ·))
    show j < (s.clients ++ [_]).length
    rw [List.length_append]
    omega
  · obtain rfl : s.clients.length = p := Option.some.inj hp
    refine ⟨⟨_, List.getElem?_concat_length .., rfl⟩, fun k hk => ?_, fun hr => ?_, fun hw => ?_⟩
    · obtain ⟨d, hd, -⟩ := hs.key k _ (hmap ▸ hk)
      rw [List.getElem?_eq_none le_rfl] at hd
      cases hd
    · exact (Nat.lt_irrefl _ (hs.known _ (.inl (hreads ▸ hr)))).elim
    · exact (Nat.lt_irrefl _ (hs.known _ (.inr (hwrites ▸ hw)))).elim

theorem sound_new : new.Sound := by
  refine Sound.asyncAccept ⟨⟨?_, ?_, ?_⟩, ?_, nofun, List.nodup_nil, List.nodup_nil, nofun, ?_, nofun⟩
  · rintro i j x ⟨c, hc, -⟩
    cases hc
  · rintro i x ⟨c, hc, -⟩
    cases hc
  · intro i c hc
    cases hc
  · intro i c hc
    cases hc
  · intro i hi
    rcases hi with hi | hi <;> cases hi

/-! ## The handlers -/

theorem Sound.acceptFailed (hs : s.Sound) (hacc : s.accepting = some i) (hc : s.clients[i]? = some c) :
    Sound { s with
      accepting := none
      avaIdSet := s.avaIdSet.insert c.nId
      clientMap := s.clientMap.filter fun e => e.1 ≠ c.nId } := by
  obtain ⟨⟨c', hc', hclosed⟩, hmap, -, -⟩ := hs.pending i hacc
  obtain rfl : c = c' := Option.some.inj (hc.symm.trans hc')
  have hhad : s.Has i c.nId := ⟨c, hc, rfl, .inr hacc⟩
  have hhas : ∀ (j x : Nat) (d : Client), s.clients[j]? = some d → d.nId = x → d.sock = true →
      s.Has j x ∧ x ≠ c.nId := by
    rintro j x d hd rfl hopen
    have hj : s.Has j d.nId := ⟨d, hd, rfl, .inl hopen⟩
    refine ⟨hj, fun heq => ?_⟩
    obtain rfl := hs.distinct j i c.nId (heq ▸ hj) hhad
    obtain rfl : c = d := Option.some.inj (hc.symm.trans hd)
    rw [hclosed] at hopen
    cases hopen
  refine ⟨⟨?_, ?_, fun j d hd hopen => ?_⟩, hs.le, fun x hx => ?_, hs.nodup.insert,
    hs.keys.sublist (List.filter_sublist.map _), fun k j hj => hs.key k j (List.mem_filter.1 hj).1,
    hs.known, nofun⟩
  · rintro j k x ⟨d, hd, hx, hopen⟩ ⟨e, he, hx', hopen'⟩
    exact hs.distinct j k x (hhas j x d hd hx (hopen.resolve_right nofun)).1
      (hhas k x e he hx' (hopen'.resolve_right nofun)).1
  · rintro j x ⟨d, hd, hx, hopen⟩ hmem
    obtain ⟨hj, hne⟩ := hhas j x d hd hx (hopen.resolve_right nofun)
    exact (List.mem_insert_iff.1 hmem).elim hne (hs.free j x hj)
  · obtain ⟨-, hne⟩ := hhas j d.nId d hd rfl hopen
    have hmem := Assoc.mem_of_lookup (hs.mapped j d hd hopen)
    exact Assoc.lookup_of_mem (hs.keys.sublist (List.filter_sublist.map _))
      (List.mem_filter.2 ⟨hmem, by simpa using hne⟩)
  · rcases List.mem_insert_iff.1 hx with rfl | hx
    · exact hs.le i c hc
    · exact hs.available x hx

theorem Sound.accepted (hs : s.Sound) (hacc : s.accepting = some i) (hc : s.clients[i]? = some c)
    (hnone : s.clientMap.lookup c.nId = none) :
    Sound { s with
      accepting := none
      clients := s.clients.set i { c with sock := true }
      clientMap := s.clientMap ++ [(c.nId, some i)] } := by
  have hget : ∀ (j : Nat) (d : Client), (s.clients.set i { c with sock := true })[j]? = some d →
      ∃ d' : Client, s.clients[j]? = some d' ∧ d.nId = d'.nId ∧
        (d.sock = true → d'.sock = true ∨ s.accepting = some j) := by
    intro j d hd
    rcases getElem?_set_some hd with ⟨rfl, rfl⟩ | ⟨-, hd⟩
    · exact ⟨c, hc, rfl, fun _ => .inr hacc⟩
    · exact ⟨d, hd, rfl, .inl⟩
  have hhas : ∀ j x, Has { s with
      accepting := none
      clients := s.clients.set i { c with sock := true }
      clientMap := s.clientMap ++ [(c.nId, some i)] } j x → s.Has j x := by
    rintro j x ⟨d, hd, rfl, hopen⟩
    obtain ⟨d', hd', hid, hopen'⟩ := hget j d hd
    exact ⟨d', hd', hid.symm, hopen' (hopen.resolve_right nofun)⟩
  refine ⟨⟨fun j k x hj hk => hs.distinct j k x (hhas j x hj) (hhas k x hk),
    fun j x hj => hs.free j x (hhas j x hj), fun j d hd hopen => ?_⟩, fun j d hd => ?_, hs.available,
    hs.nodup, Assoc.nodup_concat hs.keys hnone _, fun k j hj => ?_, fun j hj => ?_, nofun⟩
  · have hkeys := Assoc.nodup_concat hs.keys hnone (some i)
    rcases getElem?_set_some hd with ⟨rfl, rfl⟩ | ⟨-, hd⟩
    · exact Assoc.lookup_of_mem hkeys (List.mem_append_right _ (List.mem_singleton_self _))
    · have hmem := Assoc.mem_of_lookup (hs.mapped j d hd hopen)
      exact Assoc.lookup_of_mem hkeys (List.mem_append_left _ hmem)
  · obtain ⟨d', hd', hid, -⟩ := hget j d hd
    exact hid ▸ hs.le j d' hd'
  · by_cases hji : j = i
    · subst hji
      refine ⟨_, getElem?_set_self' _ hc, ?_⟩
      rcases List.mem_append.1 hj with hj | hj
      · exact absurd hj ((hs.pending j hacc).2.1 k)
      · cases List.mem_singleton.1 hj
        rfl
    · rcases List.mem_append.1 hj with hj | hj
      · obtain ⟨d, hd, hk⟩ := hs.key k j hj
        exact ⟨d, (List.getElem?_set_ne (Ne.symm hji)).trans hd, hk⟩
      · cases List.mem_singleton.1 hj
        exact absurd rfl hji
  · show j < (s.clients.set i _).length
    rw [List.length_set]
    exact hs.known j hj

theorem Sound.ops (hs : s.Sound) {reads writes : List Nat}
    (hops : ∀ j, j ∈ reads ∨ j ∈ writes → j < s.clients.length ∧ s.accepting ≠ some j) :
    Sound { s with reads := reads, writes := writes } := by
  refine ⟨⟨hs.distinct, hs.free, hs.mapped⟩, hs.le, hs.available, hs.nodup, hs.keys, hs.key,
    fun j hj => (hops j hj).1, fun p hp => ?_⟩
  obtain ⟨hclosed, hmap, -, -⟩ := hs.pending p hp
  exact ⟨hclosed, hmap, fun h => (hops p (.inl h)).2 hp, fun h => (hops p (.inr h)).2 hp⟩

theorem Sound.stop (hs : s.Sound) : Sound { s with running := false } :=
  ⟨⟨hs.distinct, hs.free, hs.mapped⟩, hs.le, hs.available, hs.nodup, hs.keys, hs.key, hs.known, hs.pending⟩

theorem Sound.not_accepting (hs : s.Sound) (hi : i ∈ s.reads ∨ i ∈ s.writes) : s.accepting ≠ some i :=
  fun hacc => hi.elim (hs.pending i hacc).2.2.1 (hs.pending i hacc).2.2.2

theorem Sound.acceptHandler {t : ServerEnd} {err endpoint : Bool} (hs : s.Sound)
    (hclean : s.Clean (.acceptHandler err endpoint)) (h : s.acceptHandler err endpoint = some t) : t.Sound := by
  simp only [ServerEnd.acceptHandler, Option.bind_eq_bind, Option.bind_eq_some_iff] at h
  obtain ⟨p, hp, c, hc, h⟩ := h
  cases err with
  | true =>
    rw [if_pos rfl] at h
    exact Option.some.inj h ▸ hs.acceptFailed hp hc
  | false =>
    have hnone := hclean rfl p c hp hc
    rw [if_neg Bool.false_ne_true, hnone] at h
    have hs' := hs.accepted hp hc hnone
    cases endpoint with
    | false => exact Option.some.inj h ▸ hs'.stop
    | true =>
      have hlt : p < s.clients.length := (List.getElem?_eq_some_iff.1 hc).1
      refine Option.some.inj h ▸ Sound.asyncAccept (hs'.ops fun j hj => ⟨?_, nofun⟩)
      rcases hj with hj | hj
      · rcases List.mem_append.1 hj with hj | hj
        · exact hs'.known j (.inl hj)
        · rw [List.mem_singleton.1 hj]
          exact (List.length_set ..).symm ▸ hlt
      · exact hs'.known j (.inr hj)

theorem Sound.readHandler {t : ServerEnd} {res : ReadResult} (hs : s.Sound) (hacc : s.accepting ≠ some i)
    (hclean : s.Clean (.readHandler i res)) (h : s.readHandler i res = some t) : t.Sound := by
  obtain ⟨c, hc, h⟩ := Option.bind_eq_some_iff.1 h
  cases res with
  | data beat endpoint =>
    simp only at h
    split at h
    · exact Option.some.inj h ▸ hs.set _ hc rfl rfl
    · exact Option.some.inj h ▸ hs.stop
  | empty => exact Option.some.inj h ▸ hs
  | interrupted => exact Option.some.inj h ▸ hs
  | error => exact Option.some.inj h ▸ hs.recycle _ hc rfl hacc hclean

theorem Sound.writeHandler {t : ServerEnd} {res : WriteResult} (hs : s.Sound) (hacc : s.accepting ≠ some i)
    (hclean : s.Clean (.writeHandler i res)) (h : s.writeHandler i res = some t) : t.Sound := by
  obtain ⟨c, hc, h⟩ := Option.bind_eq_some_iff.1 h
  cases res with
  | ok =>
    refine Option.some.inj h ▸ hs.ops fun j hj => ?_
    by_cases hji : j = i
    · exact hji ▸ ⟨(List.getElem?_eq_some_iff.1 hc).1, hacc⟩
    · have hj : j ∈ s.reads ∨ j ∈ s.writes := by simpa [hji] using hj
      exact ⟨hs.known j hj, hs.not_accepting hj⟩
  | broken_pipe => exact Option.some.inj h ▸ hs.recycle _ hc rfl hacc hclean
  | error => exact Option.some.inj h ▸ hs

/-! ## The timer -/

theorem beat_spec (s : ServerEnd) (e : Nat × Option Nat) : (s.beat e).accepting = s.accepting ∧
    (∀ j, e.2 ≠ some j → (s.beat e).clients[j]? = s.clients[j]?) ∧ s.avaIdSet ⊆ (s.beat e).avaIdSet ∧
    (∀ e' ∈ s.clientMap, e' ≠ e → e' ∈ (s.beat e).clientMap) ∧
    ∀ j x, (s.beat e).Has j x → s.Has j x := by
  obtain ⟨k, _ | i⟩ := e
  · exact ⟨rfl, fun _ _ => rfl, List.Subset.refl _, fun _ he' _ => he', fun _ _ => id⟩
  cases hc : s.clients[i]? with
  | none =>
    have hbeat : s.beat (k, some i) = s := by simp only [beat, hc]
    rw [hbeat]
    exact ⟨rfl, fun _ _ => rfl, List.Subset.refl _, fun _ he' _ => he', fun _ _ => id⟩
  | some c =>
    have hother : ∀ (c' : Client) (j : Nat), some i ≠ some j → (s.clients.set i c')[j]? = s.clients[j]? :=
      fun c' j hj => List.getElem?_set_ne fun h => hj (congrArg some h)
    simp only [beat, hc]
    split
    · refine ⟨rfl, hother _, fun x hx => List.mem_insert_of_mem hx, fun e' he' hne => ?_, ?_⟩
      · exact List.mem_map.2 ⟨e', he', if_neg hne⟩
      · rintro j x ⟨d, hd, rfl, hopen⟩
        rcases getElem?_set_some hd with ⟨rfl, rfl⟩ | ⟨-, hd⟩
        · exact ⟨c, hc, rfl, .inr (hopen.resolve_left Bool.false_ne_true)⟩
        · exact ⟨d, hd, rfl, hopen⟩
    · refine ⟨rfl, hother _, List.Subset.refl _, fun _ he' _ => he', ?_⟩
      rintro j x ⟨d, hd, rfl, hopen⟩
      rcases getElem?_set_some hd with ⟨rfl, rfl⟩ | ⟨-, hd⟩
      · exact ⟨c, hc, rfl, hopen⟩
      · exact ⟨d, hd, rfl, hopen⟩

theorem Sound.forget {k : Nat} (hs : s.Sound) (hc : s.clients[i]? = some c) (hclosed : c.sock = false) :
    Sound { s with clientMap := s.clientMap.map fun e' => if e' = (k, some i) then (k, none) else e' } := by
  have hmap : (s.clientMap.map fun e' => if e' = (k, some i) then (k, none) else e').map Prod.fst =
      s.clientMap.map Prod.fst := by
    rw [List.map_map]
    refine List.map_congr_left fun e _ => ?_
    show (if e = (k, some i) then (k, none) else e).1 = e.1
    split
    · rename_i he
      rw [he]
    · rfl
  have hkept : ∀ k' j, (k', some j) ∈ (s.clientMap.map fun e' => if e' = (k, some i) then (k, none) else e') →
      (k', some j) ∈ s.clientMap := by
    intro k' j hj
    obtain ⟨e, he, heq⟩ := List.mem_map.1 hj
    split at heq
    · cases heq
    · exact heq ▸ he
  refine ⟨⟨hs.distinct, hs.free, fun j d hd hopen => ?_⟩, hs.le, hs.available, hs.nodup, hmap ▸ hs.keys,
    fun k' j hj => hs.key k' j (hkept k' j hj), hs.known, fun p hp => ?_⟩
  · have hmem := Assoc.mem_of_lookup (hs.mapped j d hd hopen)
    refine Assoc.lookup_of_mem (hmap ▸ hs.keys) (List.mem_map.2 ⟨_, hmem, if_neg fun heq => ?_⟩)
    obtain rfl : j = i := by simpa using congrArg Prod.snd heq
    obtain rfl : c = d := Option.some.inj (hc.symm.trans hd)
    rw [hclosed] at hopen
    cases hopen
  · obtain ⟨hp', hmap', hops⟩ := hs.pending p hp
    exact ⟨hp', fun k' hk' => hmap' k' (hkept k' p hk'), hops⟩

theorem Sound.beat {k : Nat} (hs : s.Sound) (hmem : (k, some i) ∈ s.clientMap) (hc : s.clients[i]? = some c)
    (hback : 5 < c.nHbtCount + 1 → s.GivesBack i) : (s.beat (k, some i)).Sound := by
  have hacc : s.accepting ≠ some i := fun hacc => (hs.pending i hacc).2.1 k hmem
  simp only [ServerEnd.beat, hc]
  split
  · rename_i hlt
    exact (hs.recycle { c with nHbtCount := c.nHbtCount + 1 } hc rfl hacc (hback hlt)).forget
      (getElem?_set_self' _ hc) rfl
  · refine (hs.set { c with nHbtCount := c.nHbtCount + 1 } hc rfl rfl).ops fun j hj => ?_
    rw [List.length_set]
    rcases hj with hj | hj
    · exact ⟨hs.known j (.inl hj), hs.not_accepting (.inl hj)⟩
    · rcases List.mem_append.1 hj with hj | hj
      · exact ⟨hs.known j (.inr hj), hs.not_accepting (.inr hj)⟩
      · rw [List.mem_singleton.1 hj]
        exact ⟨(List.getElem?_eq_some_iff.1 hc).1, hacc⟩

theorem foldl_beat_spec (es : List (Nat × Option Nat)) (s : ServerEnd) :
    (es.foldl ServerEnd.beat s).accepting = s.accepting ∧
      (∀ j, (∀ e ∈ es, e.2 ≠ some j) → (es.foldl ServerEnd.beat s).clients[j]? = s.clients[j]?) ∧
      s.avaIdSet ⊆ (es.foldl ServerEnd.beat s).avaIdSet := by
  induction es generalizing s with
  | nil => exact ⟨rfl, fun _ _ => rfl, List.Subset.refl _⟩
  | cons e es ih =>
    obtain ⟨hacc, hclients, hava, -, -⟩ := beat_spec s e
    obtain ⟨hacc', hclients', hava'⟩ := ih (s.beat e)
    refine ⟨hacc'.trans hacc, fun j hj => ?_, List.Subset.trans hava hava'⟩
    rw [List.forall_mem_cons] at hj
    exact (hclients' j hj.2).trans (hclients j hj.1)

/-- Induction on the entries that are still ahead. They are distinct, and what earlier turns do does not
touch their clients. -/
theorem Sound.foldl_beat {es : List (Nat × Option Nat)} (hs : s.Sound) (hnd : es.Nodup)
    (hmem : ∀ e ∈ es, e ∈ s.clientMap)
    (hback : ∀ k i c, (k, some i) ∈ es → s.clients[i]? = some c → 5 < c.nHbtCount + 1 → s.GivesBack i) :
    (es.foldl ServerEnd.beat s).Sound := by
  induction es generalizing s with
  | nil => exact hs
  | cons e es ih =>
    rw [List.nodup_cons] at hnd
    obtain ⟨-, hclients, -, hstay, hhas⟩ := beat_spec s e
    have hmem' : ∀ e' ∈ es, e' ∈ (s.beat e).clientMap := fun e' he' =>
      hstay e' (hmem e' (List.mem_cons_of_mem _ he')) fun heq => hnd.1 (heq ▸ he')
    have hother : ∀ k i, (k, some i) ∈ es → e.2 ≠ some i := by
      rintro k i hki heq
      obtain ⟨k', o⟩ := e
      cases heq
      obtain ⟨d, hd, hk⟩ := hs.key k i (hmem _ (List.mem_cons_of_mem _ hki))
      obtain ⟨d', hd', hk'⟩ := hs.key k' i (hmem _ List.mem_cons_self)
      obtain rfl : d = d' := Option.some.inj (hd.symm.trans hd')
      exact hnd.1 (hk'.symm.trans hk ▸ hki)
    have hs' : (s.beat e).Sound := by
      obtain ⟨k, _ | i⟩ := e
      · exact hs
      · have hki := hmem _ List.mem_cons_self
        obtain ⟨c, hc, -⟩ := hs.key k i hki
        exact hs.beat hki hc (hback k i c List.mem_cons_self hc)
    refine ih hs' hnd.2 hmem' fun k i c hki hc hlt d hd j hj => ?_
    rw [hclients i (hother k i hki)] at hc hd
    exact hback k i c (List.mem_cons_of_mem _ hki) hc hlt d hd j (hhas j _ hj)

theorem Sound.step {t : ServerEnd} {a : Completion} (hs : s.Sound) (hclean : s.Clean a)
    (h : step s a = some t) : t.Sound := by
  obtain ⟨-, h⟩ := Option.ite_none_right_eq_some.1 h
  cases a with
  | acceptHandler err endpoint => exact hs.acceptHandler hclean h
  | readHandler i res =>
    obtain ⟨hi, h⟩ := Option.ite_none_right_eq_some.1 h
    have hs' : Sound { s with reads := s.reads.erase i } := hs.ops fun j hj =>
      have hj := hj.imp List.mem_of_mem_erase id
      ⟨hs.known j hj, hs.not_accepting hj⟩
    exact hs'.readHandler (hs.not_accepting (.inl hi)) hclean h
  | writeHandler i res =>
    obtain ⟨hi, h⟩ := Option.ite_none_right_eq_some.1 h
    have hs' : Sound { s with writes := s.writes.erase i } := hs.ops fun j hj =>
      have hj := hj.imp id List.mem_of_mem_erase
      ⟨hs.known j hj, hs.not_accepting hj⟩
    exact hs'.writeHandler (hs.not_accepting (.inr hi)) hclean h
  | deadlineTimerHandle =>
    exact Option.some.inj h ▸ hs.foldl_beat (List.Nodup.of_map _ hs.keys) (fun _ => id) hclean

/-! ## Where the ids go wrong -/

theorem givesBack_of_recycle (hc : s.clients[i]? = some c) (hacc : s.accepting ≠ some i)
    (ht : (s.recycle i c).WellNumbered) : s.GivesBack i := by
  rintro d hd j hj
  obtain rfl : c = d := Option.some.inj (hc.symm.trans hd)
  by_contra hji
  exact ht.free j c.nId ((has_recycle hacc).2 ⟨hj, hji⟩) (List.mem_insert_iff.2 (.inl rfl))

theorem clean_of_acceptHandler {t : ServerEnd} {endpoint : Bool} (hs : s.Sound)
    (h : s.acceptHandler false endpoint = some t) (ht : t.WellNumbered) :
    s.Clean (.acceptHandler false endpoint) := by
  rintro - p c hp hc
  rw [Option.eq_none_iff_forall_ne_some]
  rintro o hlookup
  simp only [ServerEnd.acceptHandler, hp, hc, hlookup, Option.bind_eq_bind, Option.bind_some,
    Option.isSome_some, if_true, Bool.false_eq_true, if_false] at h
  -- the accepted client is in its place, and the map as it was
  have hafter : t.clients[p]? = some { c with sock := true } ∧ t.clientMap = s.clientMap := by
    have hself := getElem?_set_self' { c with sock := true } hc
    cases endpoint with
    | false => exact Option.some.inj h ▸ ⟨hself, rfl⟩
    | true =>
      rw [if_pos rfl] at h
      obtain rfl := Option.some.inj h
      have hlt := (List.getElem?_eq_some_iff.1 hself).1
      exact ⟨(List.getElem?_append_left hlt).trans hself, (asyncAccept_same _).1⟩
  have hfound := hafter.2 ▸ ht.mapped p _ hafter.1 rfl
  exact (hs.pending p hp).2.1 c.nId (Assoc.mem_of_lookup hfound)

theorem avaIdSet_beat {k : Nat} (hc : s.clients[i]? = some c) (hlt : 5 < c.nHbtCount + 1) :
    c.nId ∈ (s.beat (k, some i)).avaIdSet := by
  simp only [ServerEnd.beat, hc, if_pos hlt]
  exact List.mem_insert_iff.2 (.inl rfl)

/-- The client that is closed by the timer is in the map, so the other one that has its id is the one of
the pending accept, which the timer does not know. -/
theorem clean_of_deadlineTimerHandle (hs : s.Sound) (ht : s.deadlineTimerHandle.WellNumbered) :
    s.Clean .deadlineTimerHandle := by
  rintro k i c hki hc hlt d hd j ⟨d', hd', hid, hopen⟩
  obtain rfl : c = d := Option.some.inj (hc.symm.trans hd)
  have hkey : ∀ k', (k', some i) ∈ s.clientMap → c.nId = k' := by
    intro k' hk'
    obtain ⟨e, he, hk⟩ := hs.key k' i hk'
    obtain rfl : c = e := Option.some.inj (hc.symm.trans he)
    exact hk
  rcases hopen with hopen | hacc
  · have hj := hs.mapped j d' hd' hopen
    rw [hid, hkey k hki, Assoc.lookup_of_mem hs.keys hki] at hj
    exact (Option.some.inj (Option.some.inj hj)).symm
  · exfalso
    obtain ⟨hacc', hclients, -⟩ := foldl_beat_spec s.clientMap s
    refine ht.free j c.nId ⟨d', (hclients j fun e he heq => ?_).trans hd', hid, .inr (hacc'.trans hacc)⟩ ?_
    · obtain ⟨k', o⟩ := e
      cases heq
      exact (hs.pending j hacc).2.1 k' he
    · obtain ⟨pre, post, hsplit⟩ := List.append_of_mem hki
      have hnd := List.Nodup.of_map _ hs.keys
      rw [hsplit, List.nodup_middle, List.nodup_cons] at hnd
      have hc' : (pre.foldl ServerEnd.beat s).clients[i]? = some c := by
        refine ((foldl_beat_spec pre s).2.1 i fun e he heq => ?_).trans hc
        obtain ⟨k', o⟩ := e
        cases heq
        have hk' := hkey k' (hsplit ▸ List.mem_append_left _ he)
        exact hnd.1 (List.mem_append_left _ (hkey k hki ▸ hk' ▸ he))
      rw [deadlineTimerHandle, hsplit, List.foldl_append, List.foldl_cons]
      exact (foldl_beat_spec post _).2.2 (avaIdSet_beat hc' hlt)

theorem clean_of_wellNumbered {t : ServerEnd} {a : Completion} (hs : s.Sound) (h : step s a = some t)
    (ht : t.WellNumbered) : s.Clean a := by
  obtain ⟨-, h⟩ := Option.ite_none_right_eq_some.1 h
  cases a with
  | acceptHandler err endpoint =>
    cases err with
    | true => exact nofun
    | false => exact clean_of_acceptHandler hs h ht
  | readHandler i res =>
    cases res with
    | error =>
      obtain ⟨hi, h⟩ := Option.ite_none_right_eq_some.1 h
      obtain ⟨c, hc, h⟩ := Option.bind_eq_some_iff.1 h
      exact givesBack_of_recycle (s := { s with reads := s.reads.erase i }) hc (hs.not_accepting (.inl hi))
        (Option.some.inj h ▸ ht)
    | _ => trivial
  | writeHandler i res =>
    cases res with
    | broken_pipe =>
      obtain ⟨hi, h⟩ := Option.ite_none_right_eq_some.1 h
      obtain ⟨c, hc, h⟩ := Option.bind_eq_some_iff.1 h
      exact givesBack_of_recycle (s := { s with writes := s.writes.erase i }) hc (hs.not_accepting (.inr hi))
        (Option.some.inj h ▸ ht)
    | _ => trivial
  | deadlineTimerHandle => exact clean_of_deadlineTimerHandle hs (Option.some.inj h ▸ ht)

end

/-- The ids are right all along a run exactly if each id is given back by the only client that has it,
and each accepted client finds no other under its id. -/
theorem wellNumbered_iff {as : List Completion} {t : ServerEnd} (h : run step new as = some t) :
    Throughout step WellNumbered new as ↔ Meets step Clean new as :=
  throughout_iff_meets (I := Sound) (fun _ _ _ hs hclean ht => hs.step hclean ht)
    (fun _ hs => hs.toWellNumbered) (fun _ _ _ hs ht hwell => clean_of_wellNumbered hs ht hwell) sound_new h

/-- Two clients come, the second closes, and the next accept fails. -/
def twoClients : List Completion :=
  [.acceptHandler false true, .deadlineTimerHandle, .acceptHandler false true,
    .readHandler 0 (.data true true), .writeHandler 0 .ok, .readHandler 1 .error, .deadlineTimerHandle,
    .acceptHandler true false]

theorem twoClients_runs : (run step new twoClients).isSome = true := by decide +kernel

theorem wellNumbered_twoClients : Throughout step WellNumbered new twoClients := by
  obtain ⟨t, ht⟩ := Option.isSome_iff_exists.1 twoClients_runs
  exact (wellNumbered_iff ht).2 (by decide +kernel)

/-- The first client is closed by a read error, and the third gets its id while the map still leads from
it to the first. -/
def stale : List Completion :=
  [.acceptHandler false true, .readHandler 0 .error, .acceptHandler false true, .acceptHandler false true]

theorem stale_runs : (run step new stale).map (fun t => (t.clients[2]?, t.clientMap.lookup 1)) =
    some (some ⟨true, 0, 1⟩, some (some 0)) := by
  decide +kernel

theorem stale_not_wellNumbered : ∃ t, run step new stale = some t ∧ ¬ t.WellNumbered := by
  obtain ⟨t, ht, hfields⟩ := Option.map_eq_some_iff.1 stale_runs
  rw [Prod.mk.injEq] at hfields
  refine ⟨t, ht, fun hw => ?_⟩
  have hmapped := hw.mapped 2 _ hfields.1 rfl
  rw [hfields.2] at hmapped
  cases hmapped

end ServerEnd

end CppLinuxLearn.BoostAsioTest
