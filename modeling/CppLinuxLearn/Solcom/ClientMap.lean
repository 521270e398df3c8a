import CppLinuxLearn.Lib.Containers
import CppLinuxLearn.Solcom.ConnServer

/-!
# The clients in the map

`mapConnClient` is all that the idle check and the stop branch go through. A client that is closed
stays in it until `hbt_timer_cb` finds it idle for long, and `insert` leaves such an entry in place when
a new connection has the same address. As long as no accepted connection has an address that is in the
map, every client with a connection is found there under its own key.
-/

namespace CppLinuxLearn.Solcom

open Lib Steps

namespace Server

/-- `client->objKey` -/
def key? (s : Server) (i : Nat) : Option Bytes := (s.clients[i]?).map (·.objKey)

/-- Every client with a connection is the one stored under its key, so that the idle check closes it
when it is idle, and the stop branch in any case. -/
structure Mapped (s : Server) : Prop where
  stored : ∀ i, s.connected i = true → ((s.key? i).bind fun k => s.mapConnClient.lookup k) = some i
  checked : ∀ tnow i, s.connected i = true → s.expired tnow i = true →
    (s.hbt_timer_cb tnow).connected i = false
  stopped : s.bStop = true → ∀ i, s.idle_cb.connected i = false

/-- Nothing is stored under the address of a connection that is accepted. -/
def FreshKey (s : Server) : ServerAction → Prop
  | .connect_cb accepted strKey _ _ _ => accepted = true → s.mapConnClient.lookup strKey = none
  | _ => True

/-- The invariant: entries are under the keys of their clients, no key twice, and the clients with a
connection are among them. -/
structure Keyed (s : Server) : Prop where
  key : ∀ k i, (k, i) ∈ s.mapConnClient → s.key? i = some k
  nodup : (s.mapConnClient.map Prod.fst).Nodup
  live : ∀ i, s.connected i = true → ∃ k, (k, i) ∈ s.mapConnClient

theorem keyed_new : new.Keyed := ⟨nofun, List.nodup_nil, nofun⟩

theorem key?_lt {s : Server} {i : Nat} {k : Bytes} (h : s.key? i = some k) : i < s.clients.length := by
  by_contra hge
  rw [key?, List.getElem?_eq_none (not_lt.1 hge)] at h
  cases h

theorem Keyed.mapped {s : Server} (h : s.Keyed) : s.Mapped where
  stored i hi := by
    obtain ⟨k, hk⟩ := h.live i hi
    rw [h.key k i hk, Option.bind_some]
    exact Assoc.lookup_of_mem h.nodup hk
  checked tnow i hi hexp := by
    obtain ⟨k, hk⟩ := h.live i hi
    obtain ⟨-, -, -, -, hconn, -⟩ := hbt_timer_cb_spec s tnow
    rw [← Bool.not_eq_true, hconn]
    exact fun hc => hc.2 (List.mem_filter.2 ⟨List.mem_map_of_mem hk, hexp⟩)
  stopped hstop i := by
    obtain ⟨writes, listWevent, hwrite, -, -⟩ := writeHandle_spec s
    have hidle : s.idle_cb.connected i = Server.connected (closeAll
        { s with writes := writes, listWevent := [], listWeventBck := [] } (s.mapConnClient.map Prod.snd)) i := by
      unfold idle_cb
      simp only [hwrite, hstop, if_true]
      rfl
    obtain ⟨-, -, -, -, hconn, -⟩ := closeAll_spec
      { s with writes := writes, listWevent := [], listWeventBck := [] } (s.mapConnClient.map Prod.snd)
    rw [hidle, ← Bool.not_eq_true, hconn]
    rintro ⟨hc, hnot⟩
    obtain ⟨k, hk⟩ := h.live i hc
    exact hnot (List.mem_map_of_mem hk)

/-! ## What the steps leave alone -/

/-- Nothing is connected that was not, and the map and the keys are as they were. -/
structure SameMap (s t : Server) : Prop where
  map : t.mapConnClient = s.mapConnClient
  key : ∀ i, t.key? i = s.key? i
  live : ∀ i, t.connected i = true → s.connected i = true

theorem SameMap.refl (s : Server) : SameMap s s := ⟨rfl, fun _ => rfl, fun _ h => h⟩

theorem SameMap.trans {s t u : Server} (h : SameMap s t) (h' : SameMap t u) : SameMap s u :=
  ⟨h'.map.trans h.map, fun i => (h'.key i).trans (h.key i), fun i hi => h.live i (h'.live i hi)⟩

theorem Keyed.of_sameMap {s t : Server} (hs : s.Keyed) (h : SameMap s t) : t.Keyed where
  key k i hi := (h.key i).trans (hs.key k i (h.map ▸ hi))
  nodup := h.map ▸ hs.nodup
  live i hi := h.map ▸ hs.live i (h.live i hi)

theorem key?_modifyClient (s : Server) (i j : Nat) {f : SolConnClient → SolConnClient}
    (hf : ∀ c, (f c).objKey = c.objKey) : (s.modifyClient i f).key? j = s.key? j := by
  rw [key?, modifyClient, key?]
  by_cases hij : i = j
  · rw [hij, List.getElem?_modify_eq]
    cases s.clients[j]? <;> simp [hf]
  · rw [List.getElem?_modify_ne f _ hij]

theorem sameMap_modifyClient (s : Server) (i : Nat) {f : SolConnClient → SolConnClient}
    (hkey : ∀ c, (f c).objKey = c.objKey) (hconn : ∀ c, (f c).bConnected = c.bConnected) :
    SameMap s (s.modifyClient i f) :=
  ⟨rfl, fun j => key?_modifyClient s i j hkey, fun j hj => by rwa [connected_modifyClient_of_eq s i j hconn] at hj⟩

theorem sameMap_closeClient (s : Server) (i : Nat) : SameMap s (s.closeClient i) := by
  obtain ⟨clients, closing, heq, -, hconn, -⟩ := closeClient_spec s i
  refine ⟨by rw [heq], fun j => ?_, fun j hj => ((hconn j).1 hj).1⟩
  rw [closeClient]
  split
  · exact key?_modifyClient s i j fun _ => rfl
  · rfl

theorem sameMap_closeAll (s : Server) (is : List Nat) : SameMap s (s.closeAll is) := by
  induction is generalizing s with
  | nil => exact .refl s
  | cons i is ih => exact (sameMap_closeClient s i).trans (ih _)

theorem sameMap_writeHandle (s : Server) : SameMap s s.writeHandle := by
  obtain ⟨writes, listWevent, heq, -, -⟩ := writeHandle_spec s
  rw [heq]
  exact ⟨rfl, fun _ => rfl, fun _ h => h⟩

theorem sameMap_req_write_cb (s : Server) (i : Nat) (status : Int) (tnow : BitVec 64) :
    SameMap s (s.req_write_cb i status tnow) := by
  have hinit := sameMap_modifyClient s i (f := fun c => { c with reqBuffer := (c.reqBuffer.1.Init, false) })
    (fun _ => rfl) fun _ => rfl
  unfold req_write_cb
  split
  · split
    · exact hinit.trans (sameMap_closeClient _ i)
    · exact hinit
  · exact hinit.trans (sameMap_modifyClient _ i (fun _ => rfl) fun _ => rfl)

theorem sameMap_idle_cb (s : Server) : SameMap s s.idle_cb := by
  have hwrite := sameMap_writeHandle s
  unfold idle_cb
  dsimp only
  split
  · have hclear : SameMap s { s.writeHandle with listWevent := [], listWeventBck := [] } :=
      ⟨hwrite.map, hwrite.key, hwrite.live⟩
    have hclose := hclear.trans (sameMap_closeAll _ (s.writeHandle.mapConnClient.map Prod.snd))
    exact ⟨hclose.map, hclose.key, hclose.live⟩
  · exact hwrite

theorem sameMap_workStep {s t : Server} {n : Nat} {msg : ISerializable} {junk : Nat → UInt8}
    (h : s.workStep n msg junk = some t) : SameMap s t := by
  obtain ⟨task, client, -, -, hstep⟩ := workStep_cases h
  cases hstep with
  | setting =>
    have hmod := sameMap_modifyClient s task.client
      (f := fun c => { c with reqBuffer := (c.reqBuffer.1, true) }) (fun _ => rfl) fun _ => rfl
    exact ⟨hmod.map, hmod.key, hmod.live⟩
  | encoding _ byteArr =>
    have hmod := sameMap_modifyClient s task.client
      (f := fun c => { c with reqBuffer := (byteArr, c.reqBuffer.2) }) (fun _ => rfl) fun _ => rfl
    exact ⟨hmod.map, hmod.key, hmod.live⟩
  | _ => exact ⟨rfl, fun _ => rfl, fun _ h => h⟩

/-! ## The invariant -/

theorem Keyed.connect_cb {s : Server} (hs : s.Keyed) {accepted : Bool} {strKey : Bytes} {tnow : BitVec 64}
    {junk junk' : Nat → UInt8} (hfresh : accepted = true → s.mapConnClient.lookup strKey = none) :
    (s.connect_cb accepted strKey tnow junk junk').Keyed := by
  have hkey : ∀ (client : SolConnClient) i k, s.key? i = some k →
      ((s.clients ++ [client])[i]?).map (·.objKey) = some k := by
    intro client i k hk
    rw [List.getElem?_append_left (key?_lt hk)]
    exact hk
  have hold : ∀ (client : SolConnClient) i, i ≠ s.clients.length →
      ((s.clients ++ [client])[i]?).any (·.bConnected) = true → s.connected i = true := by
    intro client i hne hi
    rcases Nat.lt_or_gt_of_ne hne with hlt | hgt
    · rwa [List.getElem?_append_left hlt] at hi
    · rw [List.getElem?_eq_none (by simp; omega)] at hi
      cases hi
  unfold Server.connect_cb
  cases accepted with
  | true =>
    have hnone := hfresh rfl
    simp only [if_true, hnone, Option.isSome_none, Bool.false_eq_true, if_false]
    refine ⟨fun k i hi => ?_, ?_, fun i hi => ?_⟩
    · rcases List.mem_append.1 hi with hi | hi
      · exact hkey _ i k (hs.key k i hi)
      · cases List.mem_singleton.1 hi
        simp [key?]
    · exact Assoc.nodup_concat hs.nodup hnone _
    · by_cases hne : i = s.clients.length
      · subst hne
        exact ⟨strKey, List.mem_append_right _ (List.mem_singleton_self _)⟩
      · obtain ⟨k, hk⟩ := hs.live i (hold _ i hne hi)
        exact ⟨k, List.mem_append_left _ hk⟩
  | false =>
    simp only [Bool.false_eq_true, if_false]
    refine ⟨fun k i hi => hkey _ i k (hs.key k i hi), hs.nodup, fun i hi => ?_⟩
    by_cases hne : i = s.clients.length
    · subst hne
      simp [connected] at hi
    · exact hs.live i (hold _ i hne hi)

theorem Keyed.hbt_timer_cb {s : Server} (hs : s.Keyed) (tnow : BitVec 64) : (s.hbt_timer_cb tnow).Keyed := by
  obtain ⟨clients, closing, heq, -, hconn, -⟩ := hbt_timer_cb_spec s tnow
  have hsame := sameMap_closeAll s ((s.mapConnClient.map Prod.snd).filter (s.expired tnow))
  have hmap : (s.hbt_timer_cb tnow).mapConnClient =
      s.mapConnClient.filter fun p => !s.expired tnow p.2 := by rw [heq]
  refine ⟨fun k i hi => ?_, ?_, fun i hi => ?_⟩
  · rw [hmap] at hi
    exact (hsame.key i).trans (hs.key k i (List.mem_filter.1 hi).1)
  · rw [hmap]
    exact hs.nodup.sublist (List.filter_sublist.map _)
  · obtain ⟨hc, hnot⟩ := (hconn i).1 hi
    obtain ⟨k, hk⟩ := hs.live i hc
    rw [hmap]
    refine ⟨k, List.mem_filter.2 ⟨hk, ?_⟩⟩
    by_contra hexp
    exact hnot (List.mem_filter.2 ⟨List.mem_map_of_mem hk, by simpa using hexp⟩)

theorem Keyed.step {s t : Server} {a : ServerAction} (hs : s.Keyed) (ha : s.FreshKey a)
    (ht : s.step a = some t) : t.Keyed := by
  cases a with
  | connect_cb accepted strKey tnow junk junk' =>
    obtain ⟨-, ht⟩ := Option.ite_none_right_eq_some.1 ht
    obtain rfl := Option.some.inj ht
    exact hs.connect_cb ha
  | hbt_timer_cb tnow =>
    obtain ⟨-, ht⟩ := Option.ite_none_right_eq_some.1 ht
    obtain rfl := Option.some.inj ht
    exact hs.hbt_timer_cb tnow
  | Start =>
    obtain ⟨-, ht⟩ := Option.ite_none_left_eq_some.1 ht
    obtain rfl := Option.some.inj ht
    exact ⟨hs.key, hs.nodup, hs.live⟩
  | Stop =>
    obtain rfl := Option.some.inj ht
    exact ⟨hs.key, hs.nodup, hs.live⟩
  | read_cb i rd tnow =>
    obtain ⟨-, ht⟩ := Option.ite_none_right_eq_some.1 ht
    obtain ⟨client, -, ht⟩ := Option.bind_eq_some_iff.1 ht
    obtain ⟨p, -, ht⟩ := Option.bind_eq_some_iff.1 ht
    obtain rfl := Option.some.inj ht
    have hmod := hs.of_sameMap (sameMap_modifyClient s i
      (f := fun c => { c with toRecvState := p.1, lastRead := tnow }) (fun _ => rfl) fun _ => rfl)
    exact ⟨hmod.key, hmod.nodup, hmod.live⟩
  | read_error i nread =>
    obtain ⟨-, ht⟩ := Option.ite_none_right_eq_some.1 ht
    obtain rfl := Option.some.inj ht
    unfold Server.read_error
    split
    · exact hs.of_sameMap (sameMap_closeClient s i)
    · exact hs
  | req_write_cb i status tnow =>
    obtain ⟨-, ht⟩ := Option.ite_none_right_eq_some.1 ht
    obtain rfl := Option.some.inj ht
    have hrest : Keyed { s with writes := s.writes.erase i } := ⟨hs.key, hs.nodup, hs.live⟩
    exact hrest.of_sameMap (sameMap_req_write_cb _ i status tnow)
  | closed i =>
    obtain ⟨-, ht⟩ := Option.ite_none_right_eq_some.1 ht
    obtain rfl := Option.some.inj ht
    exact ⟨hs.key, hs.nodup, hs.live⟩
  | idle_cb =>
    obtain ⟨-, ht⟩ := Option.ite_none_right_eq_some.1 ht
    obtain rfl := Option.some.inj ht
    exact hs.of_sameMap (sameMap_idle_cb s)
  | work_cb n msg junk => exact hs.of_sameMap (sameMap_workStep ht)
  | after_work_cb n =>
    obtain ⟨-, ht⟩ := Option.ite_none_right_eq_some.1 ht
    obtain rfl := Option.some.inj ht
    exact ⟨hs.key, hs.nodup, hs.live⟩

theorem freshKey_of_mapped {s t : Server} {a : ServerAction} (hs : s.Keyed) (ht : s.step a = some t)
    (htm : t.Mapped) : s.FreshKey a := by
  cases a with
  | connect_cb accepted strKey tnow junk junk' =>
    rintro rfl
    obtain ⟨-, ht⟩ := Option.ite_none_right_eq_some.1 ht
    obtain rfl := Option.some.inj ht
    by_contra hsome
    obtain ⟨i, hi⟩ := Option.ne_none_iff_exists'.1 hsome
    have hlt := key?_lt (hs.key strKey i (Assoc.mem_of_lookup hi))
    have hstored := htm.stored s.clients.length
    simp [Server.connect_cb, connected, key?, hi] at hstored
    omega
  | _ => trivial

/-- **In every run, with any number of clients, every client with a connection is the one stored under
its key in every state exactly if no accepted connection has an address that is in the map.** -/
theorem mapped_iff {as : List ServerAction} {t : Server} (h : run step new as = some t) :
    Throughout step Mapped new as ↔ Meets step FreshKey new as :=
  throughout_iff_meets (I := Keyed) (fun _ _ _ hs ha ht => hs.step ha ht) (fun _ hs => hs.mapped)
    (fun _ _ _ hs ht htm => freshKey_of_mapped hs ht htm) keyed_new h

theorem mapped_iff_comesAndGoes :
    Throughout step Mapped new comesAndGoes ↔ Meets step FreshKey new comesAndGoes := by
  obtain ⟨t, ht⟩ := Option.isSome_iff_exists.1 comesAndGoes_runs
  exact mapped_iff ht

/-- A client goes, and its address comes again before the tick that would delete it. -/
def comesAgain : List ServerAction :=
  [.connect_cb true (text "127.0.0.1:4000") 0 (fun _ => 0) (fun _ => 0), .read_error 0 (-4095),
    .connect_cb true (text "127.0.0.1:4000") 1 (fun _ => 0) (fun _ => 0)]

theorem comesAgain_runs : (run step new comesAgain).map (fun t =>
    (t.connected 1, (t.key? 1).bind fun k => t.mapConnClient.lookup k)) = some (true, some 0) := by
  decide +kernel

theorem comesAgain_not_mapped : ∃ t, run step new comesAgain = some t ∧ ¬ t.Mapped := by
  obtain ⟨t, ht, hfields⟩ := Option.map_eq_some_iff.1 comesAgain_runs
  rw [Prod.mk.injEq] at hfields
  refine ⟨t, ht, fun hm => ?_⟩
  have hstored := hm.stored 1 hfields.1
  rw [hfields.2] at hstored
  cases hstored

end Server

end CppLinuxLearn.Solcom
