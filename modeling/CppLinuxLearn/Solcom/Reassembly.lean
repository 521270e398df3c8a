import CppLinuxLearn.Solcom.Receive

/-!
# Reassembly of packages

Both receive callbacks cut the stream into packages in the same way, whatever the cuts between the
reads. The one thing that stops them is a body whose first byte is not that of a command: the object
for it is null, and it is dereferenced. A client without a spi never asks for the object.
-/

namespace CppLinuxLearn.Solcom

open Lib

/-! ## The two ends -/

inductive Receiver
  | client (solcomSpi : Bool)
  | server
deriving DecidableEq, Repr

namespace Receiver

/-- A client that has just connected for the first time; a client the server has just accepted. -/
def fresh (junk : Nat → UInt8) : Receiver → RecvState
  | client _ => (RecvState.new junk).connect_cb
  | server => RecvState.new junk

def read_cb : Receiver → (Nat → UInt8) → Nat → RecvState → Option (RecvState × List Handed)
  | client solcomSpi => SolcomApi.read_cb solcomSpi
  | server => SolConnServer.read_cb

/-- What is done with a complete body. -/
def handle : Receiver → CByteArray → Option (Option Command × CByteArray)
  | client solcomSpi => SolcomApi.reqHandle solcomSpi
  | server => SolConnServer.cmdHandle

/-- The data is put where `alloc_cb` said, and `read_cb` is called. -/
def receive (r : Receiver) (s : RecvState) (rd : Read) : Option (RecvState × List Handed) := do
  let pCharArr ← Block.store s.recvBuffer.CharArray s.alloc_cb.2 rd.data
  r.read_cb rd.junk rd.data.length { s with recvBuffer := { s.recvBuffer with pCharArr } }

def receiveAll (r : Receiver) (s : RecvState) : List Read → Option (RecvState × List Handed)
  | [] => some (s, [])
  | rd :: rds => do
    let (s, hs) ← r.receive s rd
    let (s, hs') ← receiveAll r s rds
    some (s, hs ++ hs')

/-- No read is empty or longer than `alloc_cb` allowed. -/
def Admissible (r : Receiver) (s : RecvState) : List Read → Prop
  | [] => True
  | rd :: rds => rd.data ≠ [] ∧ rd.data.length ≤ s.alloc_cb.1 ∧
    ∀ s' hs, r.receive s rd = some (s', hs) → Admissible r s' rds

/-- The object for the body is not asked for, or it is there. -/
def Knows (r : Receiver) (body : Bytes) : Prop :=
  r = client false ∨ body.head? = some ERequestType.TypeReq_Heartbeat.toByte ∨
    body.head? = some ERequestType.TypeReq_TestCmd.toByte

end Receiver

/-- A complete head or body. -/
def Receiver.complete (r : Receiver) (junk : Nat → UInt8) (s : RecvState) (recvBuffer : CByteArray) :
    Option (RecvState × List Handed) := do
  let (pkghead, recvBuffer) ← decodeHead recvBuffer
  if s.recvStat = .Type_RecvHead then s.onHead junk pkghead recvBuffer
  else
    let (cmd, buf) ← r.handle recvBuffer
    some (⟨buf.Init, .Type_RecvHead, PackageHeadLen⟩, [⟨pkghead, recvBuffer.window, cmd⟩])

theorem read_cb_eq (r : Receiver) (junk : Nat → UInt8) {nread : Nat} (hn : 0 < nread) (s : RecvState) :
    r.read_cb junk nread s =
      if nread = s.nNeedRead then r.complete junk s (s.recvBuffer.RightForward nread)
      else some ({ s with
        recvBuffer := s.recvBuffer.RightForward nread
        nNeedRead := s.nNeedRead - nread }, []) := by
  cases r with
  | client solcomSpi =>
    simp only [Receiver.read_cb, SolcomApi.read_cb, if_pos hn]
    rfl
  | server =>
    simp only [Receiver.read_cb, SolConnServer.read_cb, Receiver.complete, if_pos hn]
    by_cases hstat : s.recvStat = .Type_RecvHead
    · simp only [hstat, if_true]
    · simp only [hstat, if_false]
      rfl

/-! ## The invariant -/

/-- `part` is the open package: it starts the buffer, and there is room for what it needs. -/
structure Receiving (s : RecvState) (part : Bytes) : Prop where
  holds : s.recvBuffer.Holds part
  capacity : s.recvBuffer.nCapacity = 1424
  left : s.recvBuffer.nLeft = 0
  stat : s.recvStat = if part.length < 12 then .Type_RecvHead else .Type_RecvBody
  need : s.nNeedRead = framing.need part
  room : part.length + framing.need part ≤ s.recvBuffer.pCharArr.length

/-- An empty buffer and the wait for a head. -/
structure AtRest (s : RecvState) : Prop where
  left : s.recvBuffer.nLeft = 0
  right : s.recvBuffer.nRight = 0
  stat : s.recvStat = .Type_RecvHead
  need : s.nNeedRead = PackageHeadLen

theorem Receiving.atRest {s : RecvState} (h : Receiving s []) : AtRest s :=
  ⟨h.left, h.holds.right, h.stat, h.need⟩

theorem receiving_fresh (r : Receiver) (junk : Nat → UInt8) : Receiving (r.fresh junk) [] := by
  have hnew := CByteArray.new_default junk
  have hlen : (Block.alloc junk 1424).length = 1424 := Block.length_alloc _ _
  generalize Block.alloc junk 1424 = block at hnew hlen
  have hfresh : r.fresh junk = ⟨⟨block, 1424, 0, 0⟩, .Type_RecvHead, PackageHeadLen⟩ := by
    cases r with
    | client solcomSpi =>
      simp only [Receiver.fresh, RecvState.connect_cb, RecvState.new, hnew]
      rfl
    | server => simp only [Receiver.fresh, RecvState.new, hnew]
  have hneed : framing.need [] = 12 := rfl
  rw [hfresh]
  refine ⟨⟨?_, rfl, rfl⟩, rfl, rfl, rfl, rfl, ?_⟩
  · show (1424 : Int) ≤ block.length
    omega
  · show ([] : Bytes).length + framing.need [] ≤ block.length
    rw [hneed, List.length_nil]
    omega

theorem intercepts_eq (ns : List Nat) (b : CByteArray) (hleft : 0 ≤ b.nLeft)
    (hroom : b.nLeft + ns.sum ≤ b.pCharArr.length) :
    intercepts ns b = some ((b.pCharArr.drop b.nLeft.toNat).take ns.sum, { b with nLeft := b.nLeft + ns.sum }) := by
  induction ns generalizing b with
  | nil => simp [intercepts]
  | cons n ns ih =>
    rw [List.sum_cons, Nat.cast_add] at hroom
    have hload : Block.load b.pCharArr b.nLeft n = some ((b.pCharArr.drop b.nLeft.toNat).take n) :=
      if_pos ⟨hleft, by omega⟩
    have hleft' : 0 ≤ b.nLeft + n := by omega
    have hroom' : b.nLeft + n + ns.sum ≤ b.pCharArr.length := by omega
    have hrest := ih { b with nLeft := b.nLeft + n } hleft' hroom'
    have hmove : (b.nLeft + n).toNat = b.nLeft.toNat + n := by omega
    rw [intercepts, CByteArray.HeadIntercept, hload]
    simp only [Option.bind_eq_bind, Option.bind_some, hrest]
    rw [hmove, ← List.drop_drop, List.sum_cons, List.take_add, Nat.cast_add, Int.add_assoc]

/-! ## A complete body -/

theorem getCachedObj_eq_none {c : UInt8} :
    GetCachedObj c = none ↔ ¬ (c = ERequestType.TypeReq_Heartbeat.toByte ∨
      c = ERequestType.TypeReq_TestCmd.toByte) := by
  rw [GetCachedObj]
  split
  · rename_i hheartbeat
    exact iff_of_false (Option.some_ne_none _) fun h => h (.inl hheartbeat)
  · rename_i hheartbeat
    split
    · rename_i htest
      exact iff_of_false (Option.some_ne_none _) fun h => h (.inr htest)
    · rename_i htest
      exact iff_of_true rfl (not_or.2 ⟨hheartbeat, htest⟩)

theorem handle_eq_reqHandle {r : Receiver} (hr : r ≠ .client false) : r.handle = SolcomApi.reqHandle true := by
  cases r with
  | server => rfl
  | client solcomSpi =>
    cases solcomSpi with
    | true => rfl
    | false => exact absurd rfl hr

section
variable {b : CByteArray} {q : Bytes}

theorem load_body (h : b.Holds q) (hlen : 12 < q.length) :
    ∃ c, (q.drop 12).head? = some c ∧ Block.load b.pCharArr 12 1 = some [c] := by
  obtain ⟨c, rest, hbody⟩ : ∃ c rest, q.drop 12 = c :: rest := by
    refine List.exists_cons_of_ne_nil fun hnil => ?_
    have := congrArg List.length hnil
    rw [List.length_drop, List.length_nil] at this
    omega
  have hsplit : b.pCharArr = q ++ b.pCharArr.drop q.length := by
    conv_lhs => rw [← List.take_append_drop q.length b.pCharArr, h.content]
  have hdrop : b.pCharArr.drop 12 = c :: rest ++ b.pCharArr.drop q.length := by
    conv_lhs => rw [hsplit]
    rw [List.drop_append_of_le_length (by omega), hbody]
  have hle : 12 + 1 ≤ b.pCharArr.length := by
    have := h.length_le
    omega
  have hload := Block.load_eq hle
  rw [hdrop] at hload
  exact ⟨c, by rw [hbody]; rfl, hload⟩

theorem deserialize_eq (c : CommandClass) (h : b.Holds q) (hcap : b.nCapacity = 1424) :
    c.Deserialize { b with nLeft := 12 } = some (c.ofBytes ((b.pCharArr.drop 12).take c.fields.sum),
      { b with nLeft := 12 + c.fields.sum }) := by
  have hsum : c.fields.sum ≤ 45 := by cases c <;> decide
  have h12 : (0 : Int) ≤ 12 := by omega
  have hroom : (12 : Int) + c.fields.sum ≤ b.pCharArr.length := by
    have := h.room
    omega
  rw [CommandClass.Deserialize, intercepts_eq c.fields { b with nLeft := 12 } h12 hroom]
  rfl

/-- **A complete body is handled exactly when the object for it is not asked for or is there.** -/
theorem handle_body (r : Receiver) (h : b.Holds q) (hcap : b.nCapacity = 1424) (hlen : 12 < q.length) :
    (r.Knows (q.drop 12) → ∃ cmd b', r.handle { b with nLeft := 12 } = some (cmd, b') ∧
      b'.pCharArr = b.pCharArr ∧ b'.nCapacity = 1424) ∧
    (¬ r.Knows (q.drop 12) → r.handle { b with nLeft := 12 } = none) := by
  obtain ⟨c, hc, hload⟩ := load_body h hlen
  by_cases hr : r = .client false
  · subst hr
    exact ⟨fun _ => ⟨none, { b with nLeft := 12 }, rfl, rfl, hcap⟩, fun hk => absurd (.inl rfl) hk⟩
  · have hhandle : r.handle { b with nLeft := 12 } = (do
        let pCmdObj ← GetCachedObj c
        let p ← decodeSerializeObj pCmdObj { b with nLeft := 12 }
        some (some p.1, p.2)) := by
      rw [handle_eq_reqHandle hr, SolcomApi.reqHandle, if_pos rfl]
      show (Block.load b.pCharArr 12 1 >>= _) = _
      rw [hload]
      rfl
    have hknows : r.Knows (q.drop 12) ↔ (c = ERequestType.TypeReq_Heartbeat.toByte ∨
        c = ERequestType.TypeReq_TestCmd.toByte) := by
      rw [Receiver.Knows, hc]
      simp [hr]
    rw [hknows, hhandle]
    cases hobj : GetCachedObj c with
    | none => exact ⟨fun hk => absurd hk (getCachedObj_eq_none.1 hobj), fun _ => rfl⟩
    | some obj =>
      have hdec := deserialize_eq obj h hcap
      refine ⟨fun _ => ⟨some (obj.ofBytes ((b.pCharArr.drop 12).take obj.fields.sum)),
        { b with nLeft := 12 + obj.fields.sum }, ?_, rfl, hcap⟩, fun hk => ?_⟩
      · simp only [Option.bind_eq_bind, Option.bind_some, decodeSerializeObj, hdec]
      · rw [getCachedObj_eq_none.2 hk] at hobj
        cases hobj

end

/-! ## One read -/

/-- The head and the body handed over. -/
def Handed.pair (o : Handed) : PackageHeadField × Bytes := (o.pkghead, o.body)

/-- The head and the body of a whole package. -/
def cut (q : Bytes) : PackageHeadField × Bytes := (ofBytes (q.take 12), q.drop 12)

section
variable {s : RecvState} {part : Bytes}

theorem receive_eq (r : Receiver) (rd : Read) (h : Receiving s part) (hne : rd.data ≠ [])
    (hneed : rd.data.length ≤ framing.need part) :
    ∃ b : CByteArray, b.Holds (part ++ rd.data) ∧ b.nLeft = 0 ∧ b.nCapacity = 1424 ∧
      b.pCharArr.length = s.recvBuffer.pCharArr.length ∧
      r.receive s rd =
        if rd.data.length = s.nNeedRead then r.complete rd.junk s b
        else some (⟨b, s.recvStat, s.nNeedRead - rd.data.length⟩, []) := by
  have hroom : part.length + rd.data.length ≤ s.recvBuffer.pCharArr.length := by
    have := h.room
    omega
  obtain ⟨b, happ, hholds, hleft, hcap, hlen⟩ := h.holds.append rd.data hroom
  rw [CByteArray.Append, Option.bind_eq_bind, Option.bind_eq_some_iff] at happ
  obtain ⟨pCharArr, hstore, hb⟩ := happ
  refine ⟨b, hholds, hleft.trans h.left, hcap.trans h.capacity, hlen, ?_⟩
  have hread := read_cb_eq r rd.junk (List.length_pos_iff.2 hne)
    { s with recvBuffer := { s.recvBuffer with pCharArr } }
  cases hb
  rw [Receiver.receive]
  show (Block.store s.recvBuffer.pCharArr s.recvBuffer.nRight rd.data >>= _) = _
  rw [hstore]
  exact hread

theorem receive_lt (r : Receiver) (rd : Read) (h : Receiving s part) (hne : rd.data ≠ [])
    (hlt : rd.data.length < framing.need part) :
    ∃ s', r.receive s rd = some (s', []) ∧ Receiving s' (part ++ rd.data) := by
  obtain ⟨b, hholds, hleft, hcap, hlen, heq⟩ := receive_eq r rd h hne (Nat.le_of_lt hlt)
  obtain ⟨-, hneed, hhead⟩ := Framing.feed_lt hlt
  rw [framing_headLen] at hhead
  have hnot : ¬ (rd.data.length : Int) = s.nNeedRead := by
    rw [h.need]
    omega
  rw [if_neg hnot] at heq
  refine ⟨_, heq, hholds, hcap, hleft, ?_, ?_, ?_⟩
  · show s.recvStat = _
    rw [h.stat]
    simp only [hhead]
  · show s.nNeedRead - rd.data.length = _
    rw [h.need, hneed]
    omega
  · have := h.room
    show (part ++ rd.data).length + framing.need (part ++ rd.data) ≤ b.pCharArr.length
    rw [hneed, hlen, List.length_append]
    omega

theorem decodeHead_eq {b : CByteArray} {q : Bytes} (h : b.Holds q) (hleft : b.nLeft = 0)
    (hlen : 12 ≤ q.length) :
    decodeHead b = some (ofBytes (q.take 12), { b with nLeft := 12 }) := by
  rw [decodeHead, packageHeadLen_eq, h.headIntercept hleft hlen]
  rfl

theorem receive_head (r : Receiver) (rd : Read) (h : Receiving s part) (hne : rd.data ≠ [])
    (hhead : part.length < 12) (hall : rd.data.length = framing.need part) :
    ∃ s', r.receive s rd = some (s', []) ∧ Receiving s' (part ++ rd.data) := by
  obtain ⟨b, hholds, hleft, hcap, -, heq⟩ := receive_eq r rd h hne hall.le
  obtain ⟨-, hq, hneed⟩ := Framing.feed_head (F := framing) hhead hall
  rw [framing_headLen] at hq
  have hstat : s.recvStat = .Type_RecvHead := by rw [h.stat, if_pos hhead]
  have hn : (rd.data.length : Int) = s.nNeedRead := by rw [h.need, hall]
  have hback : CByteArray.LeftBackward PackageHeadLen { b with nLeft := 12 } = b := by
    have hzero : ({ b with nLeft := 0 } : CByteArray) = b := by rw [← hleft]
    exact hzero
  have hsmall : framing.bodyLen (part ++ rd.data) < 2 ^ 16 := BitVec.isLt _
  obtain ⟨b', hb', hholds', hleft', hcap', hroom'⟩ :=
    hholds.makeRoom hleft hq.le rd.junk (n := framing.bodyLen (part ++ rd.data)) (by omega)
  have hcomplete : r.complete rd.junk s b =
      some (⟨b', .Type_RecvBody, framing.bodyLen (part ++ rd.data)⟩, []) := by
    rw [Receiver.complete, decodeHead_eq hholds hleft hq.ge, List.take_of_length_le hq.le]
    simp only [Option.bind_eq_bind, Option.bind_some, hstat, if_true, RecvState.onHead, hback]
    show (b.makeRoom rd.junk (framing.bodyLen (part ++ rd.data))).bind _ = _
    rw [hb']
    rfl
  rw [if_pos hn, hcomplete] at heq
  refine ⟨_, heq, hholds', hcap'.trans hcap, hleft', ?_, ?_, ?_⟩
  · rw [if_neg (by omega)]
  · rw [hneed]
  · rw [hneed, hq, Nat.add_comm]
    exact hroom'

theorem receive_body (r : Receiver) (rd : Read) (h : Receiving s part) (hne : rd.data ≠ [])
    (hhead : 12 ≤ part.length) (hall : rd.data.length = framing.need part) :
    (r.Knows ((part ++ rd.data).drop 12) → ∃ s' o, r.receive s rd = some (s', [o]) ∧
      o.pair = cut (part ++ rd.data) ∧ Receiving s' []) ∧
    (¬ r.Knows ((part ++ rd.data).drop 12) → r.receive s rd = none) := by
  obtain ⟨b, hholds, hleft, hcap, -, heq⟩ := receive_eq r rd h hne hall.le
  have hpos := List.length_pos_iff.2 hne
  have hlen : 12 < (part ++ rd.data).length := by
    rw [List.length_append]
    omega
  have hstat : ¬ s.recvStat = .Type_RecvHead := by
    rw [h.stat, if_neg (by omega)]
    decide
  have hn : (rd.data.length : Int) = s.nNeedRead := by rw [h.need, hall]
  have hwindow : ({ b with nLeft := 12 } : CByteArray).window = (part ++ rd.data).drop 12 :=
    hholds.window hlen.le
  have hcomplete : r.complete rd.junk s b = (r.handle { b with nLeft := 12 }).bind fun p =>
      some (⟨p.2.Init, .Type_RecvHead, PackageHeadLen⟩,
        [⟨(cut (part ++ rd.data)).1, (cut (part ++ rd.data)).2, p.1⟩]) := by
    rw [Receiver.complete, decodeHead_eq hholds hleft hlen.le]
    simp only [Option.bind_eq_bind, Option.bind_some, hstat, if_false, hwindow]
    rfl
  rw [if_pos hn, hcomplete] at heq
  obtain ⟨hknown, hunknown⟩ := handle_body r hholds hcap hlen
  constructor
  · intro hk
    obtain ⟨cmd, b', hhandle, harr, hcap'⟩ := hknown hk
    rw [hhandle] at heq
    have hroom : (1424 : Int) ≤ b'.pCharArr.length := by
      have := hholds.room
      rw [harr]
      omega
    refine ⟨_, _, heq, rfl, ⟨?_, rfl, rfl⟩, hcap', rfl, rfl, rfl, ?_⟩
    · show b'.nCapacity ≤ _
      rw [hcap']
      exact hroom
    · show 0 + framing.need [] ≤ b'.pCharArr.length
      have hneed : framing.need [] = 12 := rfl
      omega
  · intro hk
    rw [heq, hunknown hk]
    rfl

end

/-! ## Runs -/

/-- One read, as a step of the cutting of the stream. -/
theorem receive_feed (r : Receiver) {s : RecvState} {part : Bytes} {rd : Read} (h : Receiving s part)
    (hne : rd.data ≠ []) (hneed : rd.data.length ≤ framing.need part) :
    ((∀ q ∈ (framing.feed part rd.data).2, r.Knows (q.drop 12)) →
      ∃ s' hs, r.receive s rd = some (s', hs) ∧
        hs.map Handed.pair = (framing.feed part rd.data).2.map cut ∧
        Receiving s' (framing.feed part rd.data).1) ∧
    ((∃ q ∈ (framing.feed part rd.data).2, ¬ r.Knows (q.drop 12)) → r.receive s rd = none) := by
  rcases hneed.lt_or_eq with hlt | hall
  · obtain ⟨hfeed, -, -⟩ := Framing.feed_lt hlt
    obtain ⟨s', hs', hrec⟩ := receive_lt r rd h hne hlt
    rw [hfeed]
    exact ⟨fun _ => ⟨s', [], hs', rfl, hrec⟩, by simp⟩
  · by_cases hhead : part.length < 12
    · obtain ⟨hfeed, -, -⟩ := Framing.feed_head (F := framing) hhead hall
      obtain ⟨s', hs', hrec⟩ := receive_head r rd h hne hhead hall
      rw [hfeed]
      exact ⟨fun _ => ⟨s', [], hs', rfl, hrec⟩, by simp⟩
    · rw [not_lt] at hhead
      obtain ⟨hfeed, -⟩ := Framing.feed_body (F := framing) hhead hall hne
      obtain ⟨hknown, hunknown⟩ := receive_body r rd h hne hhead hall
      rw [hfeed]
      simp only [List.mem_singleton, exists_eq_left]
      refine ⟨fun hk => ?_, hunknown⟩
      obtain ⟨s', o, hs', ho, hrec⟩ := hknown (hk _ rfl)
      exact ⟨s', [o], hs', by rw [List.map_singleton, ho, List.map_singleton], hrec⟩

/-- The data of some reads, one after the other. -/
abbrev dataOf (rds : List Read) : List Bytes := rds.map (·.data)

theorem flatten_dataOf_append (b a : List Read) :
    (dataOf (b ++ a)).flatten = (dataOf b).flatten ++ (dataOf a).flatten := by
  rw [dataOf, List.map_append, List.flatten_append]

/-- A run cuts the stream and hands over what it cuts, unless it comes to a body it does not know. -/
theorem receiveAll_feedAll (r : Receiver) {s : RecvState} {part : Bytes} {rds : List Read}
    (h : Receiving s part) (hadm : r.Admissible s rds) :
    (framing.Fits part (dataOf rds) ∧ ∃ s' hs, r.receiveAll s rds = some (s', hs) ∧
      hs.map Handed.pair = (framing.feedAll part (dataOf rds)).2.map cut ∧
      Receiving s' (framing.feedAll part (dataOf rds)).1) ∨
    ∃ before after, rds = before ++ after ∧ framing.Fits part (dataOf before) ∧
      ∃ q ∈ (framing.feedAll part (dataOf before)).2, ¬ r.Knows (q.drop 12) := by
  induction rds generalizing s part with
  | nil => exact .inl ⟨trivial, s, [], rfl, rfl, h⟩
  | cons rd rds ih =>
    obtain ⟨hne, hlen, hadm⟩ := hadm
    have hneed : rd.data.length ≤ framing.need part := by
      have hle : (rd.data.length : Int) ≤ s.nNeedRead := hlen
      rw [h.need] at hle
      omega
    obtain ⟨hstep, -⟩ := receive_feed r h hne hneed
    by_cases hk : ∀ q ∈ (framing.feed part rd.data).2, r.Knows (q.drop 12)
    · obtain ⟨s', hs, hs', hpair, hrec⟩ := hstep hk
      rcases ih hrec (hadm s' hs hs') with ⟨hfit, s'', hs₂, hrun, hpair₂, hrec₂⟩ |
        ⟨before, after, hsplit, hfit, q, hq, hunknown⟩
      · refine .inl ⟨⟨hne, hneed, hfit⟩, s'', hs ++ hs₂, ?_, ?_, hrec₂⟩
        · rw [Receiver.receiveAll, hs']
          simp only [Option.bind_eq_bind, Option.bind_some, hrun]
        · rw [List.map_append, hpair, hpair₂, ← List.map_append]
          rfl
      · refine .inr ⟨rd :: before, after, by rw [hsplit]; rfl, ⟨hne, hneed, hfit⟩, q, ?_, hunknown⟩
        exact List.mem_append_right _ hq
    · push Not at hk
      obtain ⟨q, hq, hunknown⟩ := hk
      exact .inr ⟨[rd], rds, rfl, ⟨hne, hneed, trivial⟩, q, List.mem_append_left _ hq, hunknown⟩

theorem admissible_append_left {r : Receiver} {s : RecvState} {before after : List Read}
    (h : r.Admissible s (before ++ after)) : r.Admissible s before := by
  induction before generalizing s with
  | nil => trivial
  | cons rd before ih =>
    obtain ⟨hne, hlen, hrest⟩ := h
    exact ⟨hne, hlen, fun s' hs hs' => ih (hrest s' hs hs')⟩

/-- **Reassembly does not depend on the cuts.** Over every admissible way to cut the stream of the
packages into reads, after any number of reads the packages whose last byte has arrived have been
handed over, in order; and after all of them the receiver is at rest. -/
def Reassembles (r : Receiver) (ps : List Package) : Prop :=
  ∀ junk rds, (dataOf rds).flatten = ps.flatMap Package.bytes → r.Admissible (r.fresh junk) rds →
    ∀ before after, rds = before ++ after →
      ∃ s hs, r.receiveAll (r.fresh junk) before = some (s, hs) ∧
        hs.map Handed.pair =
          (Framing.arrived (fun p => p.bytes.length) ps (dataOf before).flatten.length).map
            (fun p => (p.head, p.body)) ∧
        (after = [] → AtRest s)

theorem cut_bytes (p : Package) : cut p.bytes = (p.head, p.body) := by
  rw [cut, p.take_bytes, p.drop_bytes, ofBytes_bytes]

theorem isFrame_of_mem {ps : List Package} : ∀ f ∈ ps.map Package.bytes, framing.IsFrame f := by
  intro f hf
  obtain ⟨p, -, rfl⟩ := List.mem_map.1 hf
  exact p.isFrame

theorem receiveAll_of_knows (r : Receiver) {ps : List Package} (h : ∀ p ∈ ps, r.Knows p.body) {junk : Nat → UInt8}
    {before after : List Read} (hstream : (dataOf (before ++ after)).flatten = ps.flatMap Package.bytes)
    (hadm : r.Admissible (r.fresh junk) (before ++ after)) :
    framing.Fits [] (dataOf before) ∧ ∃ s hs, r.receiveAll (r.fresh junk) before = some (s, hs) ∧
      hs.map Handed.pair =
        (Framing.arrived (fun p => p.bytes.length) ps (dataOf before).flatten.length).map (fun p => (p.head, p.body)) ∧
      Receiving s (framing.feedAll [] (dataOf before)).1 := by
  have hflat : (ps.map Package.bytes).flatten = ps.flatMap Package.bytes := List.flatMap_def.symm
  -- whatever starts the reads starts the stream
  have hinit : ∀ b a, before ++ after = b ++ a → (dataOf b).flatten <+: (ps.map Package.bytes).flatten := by
    intro b a hba
    rw [hflat, ← hstream, hba, flatten_dataOf_append]
    exact List.prefix_append _ _
  have hcut : ∀ b a, before ++ after = b ++ a → framing.Fits [] (dataOf b) →
      (framing.feedAll [] (dataOf b)).2 =
        (Framing.arrived (fun p => p.bytes.length) ps (dataOf b).flatten.length).map Package.bytes := by
    intro b a hba hfit
    have harr := Framing.feedAll_arrived isFrame_of_mem (Framing.inside_nil isFrame_of_mem) hfit (hinit b a hba)
    rwa [List.nil_append, Framing.arrived_map] at harr
  rcases receiveAll_feedAll r (receiving_fresh r junk) (admissible_append_left hadm) with
    ⟨hfit, s, hs, hrun, hpair, hrec⟩ | ⟨b, a, hba, hfit, q, hq, hunknown⟩
  · rw [hcut before after rfl hfit, List.map_map] at hpair
    refine ⟨hfit, s, hs, hrun, ?_, hrec⟩
    rw [hpair]
    exact List.map_congr_left fun p _ => cut_bytes p
  · -- every frame that is cut off is one of the packages
    rw [hcut b (a ++ after) (by rw [hba, List.append_assoc]) hfit] at hq
    obtain ⟨p, hp, rfl⟩ := List.mem_map.1 hq
    rw [p.drop_bytes] at hunknown
    exact absurd (h p (Framing.mem_of_mem_arrived hp)) hunknown

theorem reassembles_of_knows (r : Receiver) {ps : List Package} (h : ∀ p ∈ ps, r.Knows p.body) :
    Reassembles r ps := by
  rintro junk rds hstream hadm before after rfl
  obtain ⟨hfit, s, hs, hrun, hpair, hrec⟩ := receiveAll_of_knows r h hstream hadm
  refine ⟨s, hs, hrun, hpair, ?_⟩
  rintro rfl
  rw [List.append_nil, List.flatMap_def] at hstream
  rw [Framing.feedAll_whole isFrame_of_mem hfit hstream] at hrec
  exact hrec.atRest

/-! ## A body that is not known -/

/-- The reads that take a head, and then its body. -/
def wholeReads (ps : List Package) : List Read :=
  ps.flatMap fun p => [⟨Pod.bytes p.head, fun _ => 0⟩, ⟨p.body, fun _ => 0⟩]

theorem flatten_wholeReads (ps : List Package) :
    (dataOf (wholeReads ps)).flatten = ps.flatMap Package.bytes := by
  induction ps with
  | nil => rfl
  | cons p ps ih =>
    rw [wholeReads, List.flatMap_cons, flatten_dataOf_append, ← wholeReads, ih, List.flatMap_cons]
    simp [Package.bytes]

theorem bytes_head_ne_nil (h : PackageHeadField) : Pod.bytes h ≠ [] := by
  refine List.ne_nil_of_length_pos ?_
  rw [length_bytes, size_head]
  omega

theorem Package.need_head (p : Package) : p.body.length = framing.need (Pod.bytes p.head) := by
  rw [Framing.need, framing_headLen, if_neg (by simp), List.take_of_length_le (by simp), framing_bodyLen,
    length_bytes, size_head, p.length_body]
  omega

theorem receive_packageHead (r : Receiver) {s : RecvState} (hs : Receiving s []) (p : Package) :
    ∃ s', r.receive s ⟨Pod.bytes p.head, fun _ => 0⟩ = some (s', []) ∧ Receiving s' (Pod.bytes p.head) :=
  receive_head r ⟨Pod.bytes p.head, fun _ => 0⟩ hs (bytes_head_ne_nil p.head) (by decide) (length_bytes _)

theorem receive_packageBody (r : Receiver) {s : RecvState} {p : Package} (hs : Receiving s (Pod.bytes p.head)) :
    (r.Knows p.body → ∃ s' o, r.receive s ⟨p.body, fun _ => 0⟩ = some (s', [o]) ∧ Receiving s' []) ∧
    (¬ r.Knows p.body → r.receive s ⟨p.body, fun _ => 0⟩ = none) := by
  have hdrop : (Pod.bytes p.head ++ p.body).drop 12 = p.body := p.drop_bytes
  obtain ⟨hknown, hunknown⟩ :=
    receive_body r ⟨p.body, fun _ => 0⟩ hs p.body_ne_nil (length_bytes p.head).ge p.need_head
  simp only [hdrop] at hknown hunknown
  refine ⟨fun hk => ?_, hunknown⟩
  obtain ⟨s', o, hs', -, hrec⟩ := hknown hk
  exact ⟨s', o, hs', hrec⟩

theorem admissible_wholeReads (r : Receiver) (ps : List Package) {s : RecvState} (hs : Receiving s []) :
    r.Admissible s (wholeReads ps) := by
  induction ps generalizing s with
  | nil => trivial
  | cons p ps ih =>
    obtain ⟨s₁, hs₁, hrec₁⟩ := receive_packageHead r hs p
    obtain ⟨hknown, hunknown⟩ := receive_packageBody r hrec₁
    refine ⟨bytes_head_ne_nil p.head, ?_, fun s' hs' heq => ?_⟩
    · show ((Pod.bytes p.head).length : Int) ≤ s.nNeedRead
      rw [hs.need, length_bytes]
      rfl
    cases hs₁.symm.trans heq
    refine ⟨p.body_ne_nil, ?_, fun s'' hs'' heq' => ?_⟩
    · show (p.body.length : Int) ≤ s₁.nNeedRead
      rw [hrec₁.need, p.need_head]
    by_cases hk : r.Knows p.body
    · obtain ⟨s₂, o, hs₂, hrec₂⟩ := hknown hk
      cases hs₂.symm.trans heq'
      exact ih hrec₂
    · cases (hunknown hk).symm.trans heq'

theorem receiveAll_wholeReads (r : Receiver) {ps : List Package} (h : ∃ p ∈ ps, ¬ r.Knows p.body)
    {s : RecvState} (hs : Receiving s []) : r.receiveAll s (wholeReads ps) = none := by
  induction ps generalizing s with
  | nil =>
    obtain ⟨p, hp, -⟩ := h
    cases hp
  | cons p ps ih =>
    have hread : wholeReads (p :: ps) =
        ⟨Pod.bytes p.head, fun _ => 0⟩ :: ⟨p.body, fun _ => 0⟩ :: wholeReads ps := rfl
    obtain ⟨s₁, hs₁, hrec₁⟩ := receive_packageHead r hs p
    obtain ⟨hknown, hunknown⟩ := receive_packageBody r hrec₁
    rw [hread]
    by_cases hk : r.Knows p.body
    · obtain ⟨s₂, o, hs₂, hrec₂⟩ := hknown hk
      have hrest : ∃ p ∈ ps, ¬ r.Knows p.body := by
        obtain ⟨x, hx, hxk⟩ := h
        rcases List.mem_cons.1 hx with rfl | hx
        · exact absurd hk hxk
        · exact ⟨x, hx, hxk⟩
      simp [Receiver.receiveAll, hs₁, hs₂, ih hrest hrec₂]
    · simp [Receiver.receiveAll, hs₁, hunknown hk]

theorem not_reassembles (r : Receiver) {ps : List Package} (h : ∃ p ∈ ps, ¬ r.Knows p.body) :
    ¬ Reassembles r ps := by
  intro hre
  have hrec := receiving_fresh r fun _ => 0
  have hnone := receiveAll_wholeReads r h hrec
  obtain ⟨s, hs, hrun, -⟩ := hre (fun _ => 0) (wholeReads ps) (flatten_wholeReads ps)
    (admissible_wholeReads r ps hrec) (wholeReads ps) [] (List.append_nil _).symm
  rw [hnone] at hrun
  cases hrun

/-- **Both ends reassemble the stream, whatever the cuts, exactly when every body is known.** -/
theorem reassembles_iff (r : Receiver) (ps : List Package) :
    Reassembles r ps ↔ ∀ p ∈ ps, r.Knows p.body := by
  refine ⟨fun h => ?_, reassembles_of_knows r⟩
  by_contra hnot
  push Not at hnot
  exact not_reassembles r hnot h

/-- A package whose body is the byte 0, the type of no command. -/
def nonePackage : Package where
  head := ⟨1, 0, 1, 0⟩
  body := [ERequestType.TypeReq_None.toByte]
  length_body := rfl
  body_ne_nil := by decide

/-- The server, and a client with a spi, go down on it. -/
theorem nonePackage_not_reassembles :
    ¬ Reassembles .server [nonePackage] ∧ ¬ Reassembles (.client true) [nonePackage] := by
  constructor
  · refine not_reassembles _ ⟨nonePackage, List.mem_singleton_self _, ?_⟩
    simp [Receiver.Knows, nonePackage, ERequestType.toByte]
  · refine not_reassembles _ ⟨nonePackage, List.mem_singleton_self _, ?_⟩
    simp [Receiver.Knows, nonePackage, ERequestType.toByte]

end CppLinuxLearn.Solcom
