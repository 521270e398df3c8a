import CppLinuxLearn.Solcom.Reassembly

/-!
# The object for a type byte

A body is decoded into an object that is looked up by its first byte. For a byte that is the type of no
command the look-up gives a null pointer, and neither end tests for it.
-/

namespace CppLinuxLearn.Solcom

open Lib

namespace Receiver

/-- `SerializableCache::GetCachedObj` and `SerializableFactory::CreateObject` -/
def lookup : Receiver → UInt8 → Option CommandClass
  | client _ => GetCachedObj
  | server => CreateObject

/-- The object that `read_cb` gets for the body that this read completes; `some none` is a null pointer.
A client without a spi gets none. -/
def object? (r : Receiver) (s : RecvState) (rd : Read) : Option (Option CommandClass) :=
  if r ≠ client false ∧ rd.data ≠ [] ∧ rd.data.length = s.nNeedRead ∧ s.recvStat = .Type_RecvBody then do
    let pCharArr ← Block.store s.recvBuffer.CharArray s.alloc_cb.2 rd.data
    let (_, inStream) ← decodeHead (CByteArray.RightForward rd.data.length { s.recvBuffer with pCharArr })
    let objType ← Block.load inStream.CharArray inStream.LeftPos 1
    some (r.lookup (objType.headD 0))
  else none

/-- No read completes a body for which the object is a null pointer. -/
def NeverNull (r : Receiver) (s : RecvState) : List Read → Prop
  | [] => True
  | rd :: rds => r.object? s rd ≠ some none ∧ ∀ s' hs, r.receive s rd = some (s', hs) → NeverNull r s' rds

instance NeverNull.decidable (r : Receiver) : ∀ (rds : List Read) (s : RecvState), Decidable (r.NeverNull s rds)
  | [], _ => .isTrue trivial
  | rd :: rds, s =>
    match h : r.receive s rd with
    | none => decidable_of_iff (r.object? s rd ≠ some none)
        ⟨fun ho => ⟨ho, fun s' hs heq => by rw [h] at heq; cases heq⟩, And.left⟩
    | some p =>
      have := NeverNull.decidable r rds p.1
      decidable_of_iff (r.object? s rd ≠ some none ∧ r.NeverNull p.1 rds)
        ⟨fun hn => ⟨hn.1, fun s' hs heq => by cases h.symm.trans heq; exact hn.2⟩,
          fun hn => ⟨hn.1, hn.2 p.1 p.2 h⟩⟩

instance Admissible.decidable (r : Receiver) : ∀ (rds : List Read) (s : RecvState), Decidable (r.Admissible s rds)
  | [], _ => .isTrue trivial
  | rd :: rds, s =>
    match h : r.receive s rd with
    | none => decidable_of_iff (rd.data ≠ [] ∧ rd.data.length ≤ s.alloc_cb.1)
        ⟨fun hr => ⟨hr.1, hr.2, fun s' hs heq => by rw [h] at heq; cases heq⟩, fun hr => ⟨hr.1, hr.2.1⟩⟩
    | some p =>
      have := Admissible.decidable r rds p.1
      decidable_of_iff (rd.data ≠ [] ∧ rd.data.length ≤ s.alloc_cb.1 ∧ r.Admissible p.1 rds)
        ⟨fun hr => ⟨hr.1, hr.2.1, fun s' hs heq => by cases h.symm.trans heq; exact hr.2.2⟩,
          fun hr => ⟨hr.1, hr.2.1, hr.2.2 p.1 p.2 h⟩⟩

end Receiver

theorem lookup_eq (r : Receiver) : r.lookup = GetCachedObj := by
  cases r <;> rfl

theorem receive_of_null {r : Receiver} {s : RecvState} {rd : Read} (h : r.object? s rd = some none) :
    r.receive s rd = none := by
  obtain ⟨⟨hr, hne, hn, hstat⟩, h⟩ := Option.ite_none_right_eq_some.1 h
  obtain ⟨pCharArr, hstore, h⟩ := Option.bind_eq_some_iff.1 h
  obtain ⟨⟨pkghead, b⟩, hdec, h⟩ := Option.bind_eq_some_iff.1 h
  obtain ⟨objType, hload, h⟩ := Option.bind_eq_some_iff.1 h
  have hnull : GetCachedObj (objType.headD 0) = none := lookup_eq r ▸ Option.some.inj h
  have hhandle : r.handle b = none := by
    rw [handle_eq_reqHandle hr, SolcomApi.reqHandle, if_pos rfl]
    show (Block.load b.CharArray b.LeftPos 1 >>= _) = _
    rw [hload]
    show (GetCachedObj (objType.headD 0) >>= _) = _
    rw [hnull]
    rfl
  rw [Receiver.receive]
  show (Block.store s.recvBuffer.CharArray s.alloc_cb.2 rd.data >>= _) = _
  rw [hstore]
  show r.read_cb rd.junk rd.data.length { s with recvBuffer := { s.recvBuffer with pCharArr } } = none
  rw [read_cb_eq r rd.junk (List.length_pos_iff.2 hne), if_pos hn, Receiver.complete]
  show (decodeHead _ >>= _) = _
  rw [hdec]
  show (if s.recvStat = .Type_RecvHead then _ else (r.handle b >>= _)) = _
  rw [hstat, if_neg (by decide), hhandle]
  rfl

section
variable {s : RecvState} {part : Bytes}

theorem object?_body {r : Receiver} (hr : r ≠ .client false) {rd : Read} (h : Receiving s part)
    (hne : rd.data ≠ []) (hhead : 12 ≤ part.length) (hall : rd.data.length = framing.need part) :
    ∃ c, ((part ++ rd.data).drop 12).head? = some c ∧ r.object? s rd = some (GetCachedObj c) := by
  have hroom : part.length + rd.data.length ≤ s.recvBuffer.pCharArr.length := by
    have := h.room
    omega
  obtain ⟨b, happ, hholds, hleft, -, -⟩ := h.holds.append rd.data hroom
  rw [CByteArray.Append, Option.bind_eq_bind, Option.bind_eq_some_iff] at happ
  obtain ⟨pCharArr, hstore, hb⟩ := happ
  have hpos := List.length_pos_iff.2 hne
  have hlen : 12 < (part ++ rd.data).length := by
    rw [List.length_append]
    omega
  obtain ⟨c, hc, hload⟩ := load_body hholds hlen
  have hstat : s.recvStat = .Type_RecvBody := by rw [h.stat, if_neg (by omega)]
  have hn : (rd.data.length : Int) = s.nNeedRead := by rw [h.need, hall]
  have hdec := decodeHead_eq hholds (hleft.trans h.left) hlen.le
  cases hb
  refine ⟨c, hc, ?_⟩
  rw [Receiver.object?, if_pos ⟨hr, hne, hn, hstat⟩]
  show (Block.store s.recvBuffer.pCharArr s.recvBuffer.nRight rd.data >>= _) = _
  rw [hstore, lookup_eq]
  show (decodeHead _ >>= _) = _
  rw [CByteArray.RightForward, hdec]
  show (Block.load pCharArr 12 1 >>= _) = _
  rw [hload]
  rfl

theorem object?_ne_null_iff (r : Receiver) {rd : Read} (h : Receiving s part) (hne : rd.data ≠ [])
    (hneed : rd.data.length ≤ framing.need part) :
    r.object? s rd ≠ some none ↔ ∀ q ∈ (framing.feed part rd.data).2, r.Knows (q.drop 12) := by
  by_cases hr : r = .client false
  · have hnone : r.object? s rd = none := if_neg fun h => h.1 hr
    rw [hnone]
    exact iff_of_true nofun fun q _ => .inl hr
  rcases hneed.lt_or_eq with hlt | hall
  · have hnone : r.object? s rd = none := by
      refine if_neg fun hc => ?_
      have hn := hc.2.2.1
      rw [h.need] at hn
      omega
    rw [hnone, (Framing.feed_lt hlt).1]
    exact iff_of_true nofun nofun
  · by_cases hhead : part.length < 12
    · have hnone : r.object? s rd = none := by
        refine if_neg fun hc => ?_
        have hstat := hc.2.2.2
        rw [h.stat, if_pos hhead] at hstat
        cases hstat
      rw [hnone, (Framing.feed_head (F := framing) hhead hall).1]
      exact iff_of_true nofun nofun
    · rw [not_lt] at hhead
      obtain ⟨c, hc, hobj⟩ := object?_body hr h hne hhead hall
      obtain ⟨hfeed, -⟩ := Framing.feed_body (F := framing) hhead hall hne
      rw [hobj, hfeed, ne_eq, Option.some.injEq, getCachedObj_eq_none, not_not, List.forall_mem_singleton,
        Receiver.Knows, hc, Option.some.injEq, Option.some.injEq, or_iff_right hr]

/-- Along a run, null pointers are got exactly for the bodies that are not known. -/
theorem neverNull_feedAll (r : Receiver) {rds : List Read} (h : Receiving s part) (hadm : r.Admissible s rds) :
    r.NeverNull s rds ↔ ∀ q ∈ (framing.feedAll part (dataOf rds)).2, r.Knows (q.drop 12) := by
  induction rds generalizing s part with
  | nil => exact iff_of_true trivial nofun
  | cons rd rds ih =>
    obtain ⟨hne, hlen, hadm⟩ := hadm
    have hneed : rd.data.length ≤ framing.need part := by
      have hle : (rd.data.length : Int) ≤ s.nNeedRead := hlen
      rw [h.need] at hle
      omega
    have hobj := object?_ne_null_iff r h hne hneed
    have hmem : ∀ q, q ∈ (framing.feedAll part (dataOf (rd :: rds))).2 ↔ q ∈ (framing.feed part rd.data).2 ∨
        q ∈ (framing.feedAll (framing.feed part rd.data).1 (dataOf rds)).2 := fun q => List.mem_append
    constructor
    · rintro ⟨hnull, hrest⟩ q hq
      obtain ⟨s', hs, hs', -, hrec⟩ := (receive_feed r h hne hneed).1 (hobj.1 hnull)
      exact ((hmem q).1 hq).elim (hobj.1 hnull q) ((ih hrec (hadm s' hs hs')).1 (hrest s' hs hs') q)
    · intro hall
      have hknown := fun q hq => hall q ((hmem q).2 (.inl hq))
      obtain ⟨s', hs, hs', -, hrec⟩ := (receive_feed r h hne hneed).1 hknown
      refine ⟨hobj.2 hknown, fun t ht heq => ?_⟩
      cases hs'.symm.trans heq
      exact (ih hrec (hadm s' hs hs')).2 fun q hq => hall q ((hmem q).2 (.inr hq))

end

/-- **Whatever bytes are received in whatever pieces, no null pointer is dereferenced exactly if every
complete body begins with the type of a command.** -/
theorem neverNull_iff (r : Receiver) (junk : Nat → UInt8) {rds : List Read}
    (hadm : r.Admissible (r.fresh junk) rds) : r.NeverNull (r.fresh junk) rds ↔
      ∀ f ∈ framing.frames (dataOf rds).flatten, r.Knows (f.drop PackageHeadLen) := by
  have hrec := receiving_fresh r junk
  rw [neverNull_feedAll r hrec hadm]
  rcases receiveAll_feedAll r hrec hadm with ⟨hfit, -⟩ | ⟨before, after, hsplit, hfit, q, hq, hunknown⟩
  · rw [Framing.feedAll_frames hfit]
    exact Iff.rfl
  · -- the run ends at a body that is not known, and this is a frame of the stream
    refine iff_of_false (fun h => hunknown (h q ?_)) fun h => hunknown (h q ?_)
    · rw [hsplit, dataOf, List.map_append, Framing.feedAll_append]
      exact List.mem_append_left _ hq
    · obtain ⟨fuel, heq⟩ := Framing.frames_append hfit (dataOf after).flatten
      rw [hsplit, flatten_dataOf_append, heq]
      exact List.mem_append_left _ hq

/-- A heartbeat and the start of another package, in three pieces. -/
def heartbeatReads : List Read :=
  [⟨[1, 0, 1, 0], fun _ => 0⟩, ⟨[0, 0, 0, 0, 0, 0, 0, 0], fun _ => 0⟩,
    ⟨[ERequestType.TypeReq_Heartbeat.toByte], fun _ => 0⟩, ⟨[1, 0], fun _ => 0⟩]

theorem neverNull_iff_heartbeatReads :
    Receiver.server.NeverNull (Receiver.server.fresh fun _ => 0) heartbeatReads ↔
      ∀ f ∈ framing.frames (dataOf heartbeatReads).flatten, Receiver.server.Knows (f.drop PackageHeadLen) :=
  neverNull_iff .server (fun _ => 0) (by decide +kernel)

/-- A body that is the byte 0 gives either end a null pointer. -/
theorem nonePackage_null : (Receiver.server.Admissible (Receiver.server.fresh fun _ => 0) (wholeReads [nonePackage]) ∧
      ¬ Receiver.server.NeverNull (Receiver.server.fresh fun _ => 0) (wholeReads [nonePackage])) ∧
    (Receiver.client true).Admissible ((Receiver.client true).fresh fun _ => 0) (wholeReads [nonePackage]) ∧
      ¬ (Receiver.client true).NeverNull ((Receiver.client true).fresh fun _ => 0) (wholeReads [nonePackage]) := by
  decide +kernel

end CppLinuxLearn.Solcom
