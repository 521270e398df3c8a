import CppLinuxLearn.Solcom.RecvRange

/-!
# What a command is decoded from

`Deserialize` takes the fields of a command from the receive buffer, however long the body is. Where
the body is shorter than the fields, the rest of them is what was received earlier, and the left
pointer goes beyond the right one.
-/

namespace CppLinuxLearn.Solcom

open Lib

/-- `read_cb` for a read that completes a body: the command, and the buffer it was decoded from. -/
def SolConnServer.decodeBody (rd : Read) (s : RecvState) : Option (Option Command × CByteArray) := do
  let pCharArr ← Block.store s.recvBuffer.CharArray s.alloc_cb.2 rd.data
  let recvBuffer := ({ s.recvBuffer with pCharArr } : CByteArray).RightForward rd.data.length
  let (_, recvBuffer) ← decodeHead recvBuffer
  SolConnServer.cmdHandle recvBuffer

/-- A way to come to a package: what fresh memory holds, the packages before it on the connection,
and the reads, of which the last completes it. -/
structure History (p : Package) where
  junk : Nat → UInt8
  earlier : List Package
  known : ∀ q ∈ earlier, Receiver.server.Knows q.body
  before : List Read
  last : Read
  stream : (dataOf (before ++ [last])).flatten = (earlier ++ [p]).flatMap Package.bytes
  admissible : Receiver.server.Admissible (Receiver.server.fresh junk) (before ++ [last])

/-- The command that is handed to the work queue, and the buffer behind its decoding. -/
def History.decoded {p : Package} (h : History p) : Option (Option Command × CByteArray) := do
  let (s, _) ← Receiver.server.receiveAll (Receiver.server.fresh h.junk) h.before
  SolConnServer.decodeBody h.last s

/-- After any two histories the package gives the same command. -/
def SameCommand (p : Package) : Prop :=
  ∀ h₁ h₂ : History p, ∃ cmd b₁ b₂, h₁.decoded = some (some cmd, b₁) ∧ h₂.decoded = some (some cmd, b₂)

/-- After any history the left pointer is not beyond the right one. -/
def LeftInside (p : Package) : Prop :=
  ∀ (h : History p) cmd b, h.decoded = some (cmd, b) → b.LeftPos ≤ b.RightPos

/-! ## What a read writes -/

theorem receive_pCharArr {r : Receiver} {s s' : RecvState} {part : Bytes} {rd : Read} {hs : List Handed}
    (h : Receiving s part) (hne : rd.data ≠ []) (hr : r.receive s rd = some (s', hs)) (hsmall : s'.nNeedRead ≤ 1412) :
    s'.recvBuffer.pCharArr = Block.overwrite s.recvBuffer.pCharArr part.length rd.data := by
  obtain ⟨pCharArr, hstore, hr⟩ := Option.bind_eq_some_iff.1 hr
  have hover : Block.overwrite s.recvBuffer.pCharArr part.length rd.data = pCharArr := by
    obtain ⟨-, hstore⟩ := Option.ite_none_right_eq_some.1 hstore
    have hright : s.alloc_cb.2.toNat = part.length := by
      show s.recvBuffer.nRight.toNat = _
      rw [h.holds.right, Int.toNat_natCast]
    rw [← Option.some.inj hstore, hright]
    rfl
  rw [hover]
  rw [read_cb_eq r rd.junk (List.length_pos_iff.2 hne)] at hr
  split at hr
  · obtain ⟨⟨pkghead, b₁⟩, hdec, hr⟩ := Option.bind_eq_some_iff.1 hr
    obtain ⟨⟨d, b₂⟩, hint, hdec⟩ := Option.bind_eq_some_iff.1 hdec
    obtain ⟨data, -, hint⟩ := Option.bind_eq_some_iff.1 hint
    obtain ⟨rfl, rfl⟩ := Prod.mk.inj (Option.some.inj hint)
    obtain ⟨rfl, rfl⟩ := Prod.mk.inj (Option.some.inj hdec)
    dsimp only at hr
    split at hr
    · -- the block is large enough for the body
      obtain ⟨b₃, hmake, hr⟩ := Option.bind_eq_some_iff.1 hr
      obtain ⟨rfl, rfl⟩ := Prod.mk.inj (Option.some.inj hr)
      have hfits : ¬ s.recvBuffer.nCapacity <
          ((ofBytes data : PackageHeadField).pkgBodyLen.toNat : Int) + PackageHeadLen := by
        have hsmall : ((ofBytes data : PackageHeadField).pkgBodyLen.toNat : Int) ≤ 1412 := hsmall
        rw [h.capacity, packageHeadLen_eq]
        omega
      cases (if_neg hfits).symm.trans hmake
      rfl
    · obtain ⟨⟨cmd, buf⟩, hhandle, hr⟩ := Option.bind_eq_some_iff.1 hr
      obtain ⟨rfl, rfl⟩ := Prod.mk.inj (Option.some.inj hr)
      obtain ⟨nLeft, rfl⟩ := handle_eq_some hhandle
      rfl
  · cases hr
    rfl

/-! ## The read that completes a body -/

theorem receive_decodeBody {s : RecvState} {rd : Read} (hne : rd.data ≠ []) (hstat : s.recvStat = .Type_RecvBody)
    (hn : (rd.data.length : Int) = s.nNeedRead) :
    (Receiver.server.receive s rd).map (fun p => (p.2.map Handed.cmd, p.1.recvBuffer)) =
      (SolConnServer.decodeBody rd s).map fun p => ([p.1], p.2.Init) := by
  rw [Receiver.receive, SolConnServer.decodeBody]
  show Option.map _ (Block.store s.recvBuffer.CharArray s.alloc_cb.2 rd.data >>= _) =
    Option.map _ (Block.store s.recvBuffer.CharArray s.alloc_cb.2 rd.data >>= _)
  cases Block.store s.recvBuffer.CharArray s.alloc_cb.2 rd.data with
  | none => rfl
  | some pCharArr =>
    simp only [Option.bind_eq_bind, Option.bind_some]
    rw [read_cb_eq _ _ (List.length_pos_iff.2 hne), if_pos hn, Receiver.complete]
    cases decodeHead (({ s.recvBuffer with pCharArr } : CByteArray).RightForward rd.data.length) with
    | none => rfl
    | some p =>
      simp only [Option.bind_eq_bind, Option.bind_some, hstat]
      rw [if_neg (by decide)]
      show Option.map _ (SolConnServer.cmdHandle p.2 >>= _) = Option.map _ (SolConnServer.cmdHandle p.2)
      cases SolConnServer.cmdHandle p.2 with
      | none => rfl
      | some c => rfl

theorem decodeBody_eq {s : RecvState} {part : Bytes} {rd : Read} {c : CommandClass} (h : Receiving s part)
    (hne : rd.data ≠ []) (hhead : 12 ≤ part.length) (hall : rd.data.length = framing.need part)
    (hc : ((part ++ rd.data).drop 12).head?.bind CreateObject = some c) :
    ∃ b : CByteArray, b.Holds (part ++ rd.data) ∧
      b.pCharArr = Block.overwrite s.recvBuffer.pCharArr part.length rd.data ∧
      SolConnServer.decodeBody rd s = some (some (c.ofBytes ((b.pCharArr.drop 12).take c.fields.sum)),
        { b with nLeft := 12 + c.fields.sum }) := by
  have hroom : part.length + rd.data.length ≤ s.recvBuffer.pCharArr.length := by
    have := h.room
    omega
  obtain ⟨b, happ, hholds, hleft, hcap, -⟩ := h.holds.append rd.data hroom
  have hstore : Block.store s.recvBuffer.pCharArr s.recvBuffer.nRight rd.data =
      some (Block.overwrite s.recvBuffer.pCharArr part.length rd.data) := by
    rw [h.holds.right]
    exact Block.store_eq hroom
  rw [CByteArray.Append, hstore] at happ
  have hb := Option.some.inj happ
  have hpos := List.length_pos_iff.2 hne
  have hlen : 12 < (part ++ rd.data).length := by
    rw [List.length_append]
    omega
  obtain ⟨objType, hobj, hload⟩ := load_body hholds hlen
  rw [hobj, Option.bind_some] at hc
  refine ⟨b, hholds, by rw [← hb], ?_⟩
  rw [SolConnServer.decodeBody]
  show (Block.store s.recvBuffer.pCharArr s.recvBuffer.nRight rd.data >>= _) = _
  rw [hstore]
  simp only [Option.bind_eq_bind, Option.bind_some]
  have hforward : CByteArray.RightForward rd.data.length
      { s.recvBuffer with pCharArr := Block.overwrite s.recvBuffer.pCharArr part.length rd.data } = b := hb
  rw [hforward, decodeHead_eq hholds (hleft.trans h.left) hlen.le, Option.bind_some, SolConnServer.cmdHandle]
  show (Block.load b.pCharArr 12 1 >>= _) = _
  rw [hload]
  show (CreateObject objType >>= _) = _
  rw [hc]
  simp only [Option.bind_eq_bind, Option.bind_some, decodeSerializeObj, deserialize_eq c hholds (hcap.trans h.capacity)]

theorem History.decoded_of_receiveAll {p : Package} (h : History p) {s : RecvState} {hs : List Handed}
    (hrun : Receiver.server.receiveAll (Receiver.server.fresh h.junk) h.before = some (s, hs)) :
    h.decoded = SolConnServer.decodeBody h.last s := by
  rw [History.decoded, hrun]
  rfl

theorem History.reaches {p : Package} (h : History p) (hp : Receiver.server.Knows p.body) :
    ∃ s hs part, Receiver.server.receiveAll (Receiver.server.fresh h.junk) h.before = some (s, hs) ∧
      Receiving s part ∧ part ++ h.last.data = p.bytes ∧ h.last.data ≠ [] ∧ 12 ≤ part.length ∧
      h.last.data.length = framing.need part := by
  have hknown : ∀ q ∈ h.earlier ++ [p], Receiver.server.Knows q.body := by
    intro q hq
    rcases List.mem_append.1 hq with hq | hq
    · exact h.known q hq
    · rwa [List.mem_singleton.1 hq]
  obtain ⟨-, s, hs, hrun, -, hrec⟩ := receiveAll_of_knows .server hknown h.stream h.admissible
  have hstream := h.stream
  have hadm := h.admissible
  rw [← List.append_nil (h.before ++ [h.last])] at hstream hadm
  obtain ⟨hfit, -⟩ := receiveAll_of_knows .server hknown hstream hadm
  rw [dataOf, List.map_append] at hfit
  obtain ⟨-, hne, -⟩ := Framing.fits_append.1 hfit
  have hframes : ∀ f ∈ (h.earlier ++ [p]).map Package.bytes, framing.IsFrame f := isFrame_of_mem
  have hflat := h.stream
  rw [List.flatMap_def, List.map_append, List.map_singleton] at hflat
  rw [List.map_append, List.map_singleton] at hframes
  rw [dataOf, List.map_append] at hflat
  obtain ⟨hlast, hhead, hneed⟩ := Framing.feedAll_last hframes hfit hflat
  exact ⟨s, hs, _, hrun, hrec, hlast, hne, hhead, hneed⟩

section
variable {p : Package} {c : CommandClass}

theorem knows_of_createObject (hc : p.body.head?.bind CreateObject = some c) : Receiver.server.Knows p.body := by
  obtain ⟨objType, hobj, hc⟩ := Option.bind_eq_some_iff.1 hc
  rw [Receiver.Knows, hobj, Option.some.injEq, Option.some.injEq]
  by_contra hnot
  have hnone := getCachedObj_eq_none.2 (not_or.1 hnot).2
  cases hc.symm.trans hnone

theorem History.decoded_eq (h : History p) (hc : p.body.head?.bind CreateObject = some c) :
    ∃ b : CByteArray, b.Holds p.bytes ∧
      h.decoded = some (some (c.ofBytes ((b.pCharArr.drop 12).take c.fields.sum)),
        { b with nLeft := 12 + c.fields.sum }) := by
  obtain ⟨s, hs, part, hrun, hrec, hpart, hne, hhead, hall⟩ := h.reaches (knows_of_createObject hc)
  rw [← p.drop_bytes, ← hpart] at hc
  obtain ⟨b, hholds, -, hdec⟩ := decodeBody_eq hrec hne hhead hall hc
  rw [hpart] at hholds
  exact ⟨b, hholds, (h.decoded_of_receiveAll hrun).trans hdec⟩

theorem take_fields {b : CByteArray} (h : b.Holds p.bytes) {n : Nat} (hn : n ≤ p.body.length) :
    (b.pCharArr.drop 12).take n = p.body.take n := by
  have hsplit : b.pCharArr = p.bytes ++ b.pCharArr.drop p.bytes.length := by
    conv_lhs => rw [← List.take_append_drop p.bytes.length b.pCharArr, h.content]
  have hlen : 12 ≤ p.bytes.length := by simp [Package.bytes]
  rw [hsplit, List.drop_append_of_le_length hlen, p.drop_bytes, List.take_append_of_le_length hn]

theorem sameCommand_of_le (hc : p.body.head?.bind CreateObject = some c) (hle : c.fields.sum ≤ p.body.length) :
    SameCommand p := by
  intro h₁ h₂
  obtain ⟨b₁, hholds₁, hdec₁⟩ := h₁.decoded_eq hc
  obtain ⟨b₂, hholds₂, hdec₂⟩ := h₂.decoded_eq hc
  rw [take_fields hholds₁ hle] at hdec₁
  rw [take_fields hholds₂ hle] at hdec₂
  exact ⟨_, _, _, hdec₁, hdec₂⟩

end

/-! ## Bodies that are too short -/

/-- Some packages read as heads and bodies, and then the package likewise. -/
def History.whole (earlier : List Package) (known : ∀ q ∈ earlier, Receiver.server.Knows q.body) (p : Package) :
    History p where
  junk := fun _ => 0
  earlier := earlier
  known := known
  before := wholeReads earlier ++ [⟨Pod.bytes p.head, fun _ => 0⟩]
  last := ⟨p.body, fun _ => 0⟩
  stream := by
    rw [List.append_assoc, ← flatten_wholeReads]
    simp [wholeReads]
  admissible := by
    have hreads : wholeReads earlier ++ [⟨Pod.bytes p.head, fun _ => 0⟩] ++ [⟨p.body, fun _ => 0⟩] =
        wholeReads (earlier ++ [p]) := by simp [wholeReads]
    rw [hreads]
    exact admissible_wholeReads .server _ (receiving_fresh .server _)

theorem leftInside_iff {p : Package} {c : CommandClass} (hc : p.body.head?.bind CreateObject = some c) :
    LeftInside p ↔ c.fields.sum ≤ p.body.length := by
  have hlen : p.bytes.length = 12 + p.body.length := by simp [Package.bytes]
  constructor
  · intro h
    obtain ⟨b, hholds, hdec⟩ := (History.whole [] (List.forall_mem_nil _) p).decoded_eq hc
    have hle : (12 : Int) + c.fields.sum ≤ b.nRight := h _ _ _ hdec
    rw [hholds.right, hlen] at hle
    omega
  · intro hle h cmd b hb
    obtain ⟨b', hholds, hdec⟩ := h.decoded_eq hc
    cases hdec.symm.trans hb
    show (12 : Int) + c.fields.sum ≤ b'.nRight
    rw [hholds.right, hlen]
    omega

/-- A `TestCommand` of which every byte behind the type is `x`. -/
def filledPackage (x : UInt8) : Package where
  head := ⟨1, 0, 45, 0⟩
  body := ERequestType.TypeReq_TestCmd.toByte :: List.replicate 44 x
  length_body := by simp
  body_ne_nil := List.cons_ne_nil _ _

theorem filledPackage_known (x : UInt8) : ∀ q ∈ [filledPackage x], Receiver.server.Knows q.body := by
  intro q hq
  rw [List.mem_singleton.1 hq]
  exact .inr (.inr rfl)

theorem filled_stays (x : UInt8) {p : Package} (hshort : p.body.length < 45) :
    ∃ s hs, Receiver.server.receiveAll (Receiver.server.fresh fun _ => 0)
        (wholeReads [filledPackage x] ++ [⟨Pod.bytes p.head, fun _ => 0⟩]) = some (s, hs) ∧
      Receiving s (Pod.bytes p.head) ∧ s.recvBuffer.pCharArr[56]? = some x := by
  obtain ⟨s₁, hs₁, hrec₁⟩ := receive_packageHead .server (receiving_fresh .server fun _ => 0) (filledPackage x)
  obtain ⟨hknown, -⟩ := receive_packageBody .server hrec₁
  obtain ⟨s₂, o, hs₂, hrec₂⟩ := hknown (filledPackage_known x _ (List.mem_singleton_self _))
  obtain ⟨s₃, hs₃, hrec₃⟩ := receive_packageHead .server hrec₂ p
  refine ⟨s₃, [o], ?_, hrec₃, ?_⟩
  · show Receiver.server.receiveAll _ [⟨Pod.bytes (filledPackage x).head, fun _ => 0⟩,
      ⟨(filledPackage x).body, fun _ => 0⟩, ⟨Pod.bytes p.head, fun _ => 0⟩] = _
    simp [Receiver.receiveAll, hs₁, hs₂, hs₃]
  have hsmall₂ : s₂.nNeedRead ≤ 1412 := by
    rw [hrec₂.need]
    decide
  have hsmall₃ : s₃.nNeedRead ≤ 1412 := by
    rw [hrec₃.need, ← p.need_head]
    omega
  have harr₂ := receive_pCharArr hrec₁ (filledPackage x).body_ne_nil hs₂ hsmall₂
  have harr₃ := receive_pCharArr hrec₂ (bytes_head_ne_nil p.head) hs₃ hsmall₃
  have hlen₂ := hrec₂.holds.room
  rw [hrec₂.capacity] at hlen₂
  have hlen₁ := hrec₁.holds.length_le
  have hbody : (filledPackage x).body[44]? = some x := by simp [filledPackage]
  have hhead : (Pod.bytes (filledPackage x).head).length = 12 := length_bytes _
  rw [harr₃, Block.getElem?_overwrite_of_le, harr₂, ← hbody, hhead]
  · exact Block.getElem?_overwrite_of_lt (i := 44) (by omega) (by simp [filledPackage])
  · show 0 + (Pod.bytes p.head).length ≤ _
    rw [length_bytes, size_head]
    omega
  · show 0 + (Pod.bytes p.head).length ≤ _
    rw [length_bytes, size_head]
    omega

theorem decoded_filled (x : UInt8) {p : Package} (hc : p.body.head?.bind CreateObject = some .TestCommand)
    (hshort : p.body.length < 45) :
    ∃ d b, (History.whole [filledPackage x] (filledPackage_known x) p).decoded =
      some (some (CommandClass.TestCommand.ofBytes d), b) ∧ d.length = 45 ∧ d[44]? = some x := by
  obtain ⟨s, hs, hrun, hrec, hstale⟩ := filled_stays x hshort
  have hdrop : (Pod.bytes p.head ++ p.body).drop 12 = p.body := p.drop_bytes
  rw [← hdrop] at hc
  have hhead : 12 ≤ (Pod.bytes p.head).length := (length_bytes p.head).ge
  let rd : Read := ⟨p.body, fun _ => 0⟩
  have hne : rd.data ≠ [] := p.body_ne_nil
  obtain ⟨b, -, harr, hdec⟩ := decodeBody_eq hrec hne hhead p.need_head hc
  have hroom := hrec.holds.room
  rw [hrec.capacity] at hroom
  have hwritten : (Pod.bytes p.head).length + p.body.length ≤ 56 := by
    rw [length_bytes, size_head]
    omega
  have hlen : b.pCharArr.length = s.recvBuffer.pCharArr.length := by
    rw [harr]
    refine Block.length_overwrite ?_
    show (Pod.bytes p.head).length + p.body.length ≤ _
    omega
  have hlast : b.pCharArr[56]? = some x := by
    rw [harr, Block.getElem?_overwrite_of_le ?_ hwritten]
    · exact hstale
    · show (Pod.bytes p.head).length + p.body.length ≤ _
      omega
  have hdecoded := (History.whole [filledPackage x] (filledPackage_known x) p).decoded_of_receiveAll hrun
  refine ⟨_, _, hdecoded.trans hdec, ?_, ?_⟩
  · show ((b.pCharArr.drop 12).take 45).length = 45
    rw [List.length_take, List.length_drop]
    omega
  · have hlt : 44 < 45 := by decide
    exact (Block.getElem?_slice hlt).trans hlast

theorem ofBytes_testCommand_inj {d d' : Bytes} (hd : d.length = 45) (hd' : d'.length = 45)
    (h : CommandClass.TestCommand.ofBytes d = CommandClass.TestCommand.ofBytes d') : d[44]? = d'[44]? := by
  injection h with htype hstr hdb hint
  have hint : (Pod.int 4).ofBytes (((d.drop 1).drop 32).drop 8) = (Pod.int 4).ofBytes (((d'.drop 1).drop 32).drop 8) :=
    hint
  have hslice := Pod.int_ofBytes_inj (by simp [hd]) (by simp [hd']) hint
  rw [List.drop_drop, List.drop_drop, List.drop_drop, List.drop_drop] at hslice
  have hlt : 3 < 4 := by decide
  exact (Block.getElem?_slice hlt).symm.trans ((congrArg (·[3]?) hslice).trans (Block.getElem?_slice hlt))

theorem sameCommand_iff {p : Package} {c : CommandClass} (hc : p.body.head?.bind CreateObject = some c) :
    SameCommand p ↔ c.fields.sum ≤ p.body.length := by
  refine ⟨fun h => ?_, sameCommand_of_le hc⟩
  by_contra hshort
  rw [not_le] at hshort
  cases c with
  | HeartbeatCommand =>
    have hpos := List.length_pos_iff.2 p.body_ne_nil
    have hlt : p.body.length < 1 := hshort
    omega
  | TestCommand =>
    obtain ⟨d₀, b₀, hdec₀, hlen₀, hlast₀⟩ := decoded_filled 0 hc hshort
    obtain ⟨d₁, b₁, hdec₁, hlen₁, hlast₁⟩ := decoded_filled 1 hc hshort
    obtain ⟨cmd, b₀', b₁', h₀, h₁⟩ := h (.whole [filledPackage 0] (filledPackage_known 0) p)
      (.whole [filledPackage 1] (filledPackage_known 1) p)
    have hcmd₀ := (Prod.mk.inj (Option.some.inj (hdec₀.symm.trans h₀))).1
    have hcmd₁ := (Prod.mk.inj (Option.some.inj (hdec₁.symm.trans h₁))).1
    have hcmd := Option.some.inj (hcmd₀.trans hcmd₁.symm)
    have hlast := ofBytes_testCommand_inj hlen₀ hlen₁ hcmd
    rw [hlast₀, hlast₁] at hlast
    exact absurd (Option.some.inj hlast) (by decide)

/-- **The command depends on its package alone, and the left pointer stays behind the right one,
exactly when the body is as long as the fields of the command.** -/
theorem dependsOnPackage_iff {p : Package} {c : CommandClass} (hc : p.body.head?.bind CreateObject = some c) :
    (SameCommand p ↔ c.fields.sum ≤ p.body.length) ∧ (LeftInside p ↔ c.fields.sum ≤ p.body.length) :=
  ⟨sameCommand_iff hc, leftInside_iff hc⟩

theorem dependsOnPackage_iff_filled :
    (SameCommand (filledPackage 0) ↔ 45 ≤ (filledPackage 0).body.length) ∧
      (LeftInside (filledPackage 0) ↔ 45 ≤ (filledPackage 0).body.length) :=
  dependsOnPackage_iff (p := filledPackage 0) (c := .TestCommand) rfl

/-- A `TestCommand` of which only the type is sent. -/
def typeOnlyPackage : Package where
  head := ⟨1, 0, 1, 0⟩
  body := [ERequestType.TypeReq_TestCmd.toByte]
  length_body := rfl
  body_ne_nil := by decide

theorem typeOnly_decoded :
    ((History.whole [filledPackage 0] (filledPackage_known 0) typeOnlyPackage).decoded.map
        fun p => (p.1, p.2.LeftPos, p.2.RightPos)) =
      some (some (.TestCommand 2 (Vector.replicate 32 0) 0 0), 57, 13) ∧
    ((History.whole [filledPackage 1] (filledPackage_known 1) typeOnlyPackage).decoded.map
        fun p => (p.1, p.2.LeftPos, p.2.RightPos)) =
      some (some (.TestCommand 2 (Vector.replicate 32 1) 0x0101010101010101 0x01010101), 57, 13) := by
  decide +kernel

theorem typeOnly_not_dependsOnPackage : ¬ SameCommand typeOnlyPackage ∧ ¬ LeftInside typeOnlyPackage := by
  obtain ⟨h₀, h₁⟩ := typeOnly_decoded
  constructor
  · intro h
    obtain ⟨cmd, b₀, b₁, hdec₀, hdec₁⟩ := h (.whole [filledPackage 0] (filledPackage_known 0) typeOnlyPackage)
      (.whole [filledPackage 1] (filledPackage_known 1) typeOnlyPackage)
    rw [hdec₀] at h₀
    rw [hdec₁] at h₁
    have hcmd := (Prod.mk.inj (Option.some.inj h₀)).1.symm.trans (Prod.mk.inj (Option.some.inj h₁)).1
    exact absurd hcmd (by decide)
  · intro h
    obtain ⟨⟨cmd, b⟩, hdec, heq⟩ := Option.map_eq_some_iff.1 h₀
    have hle := h _ _ _ hdec
    obtain ⟨-, hleft, hright⟩ : cmd = _ ∧ b.LeftPos = 57 ∧ b.RightPos = 13 := by simpa using heq
    omega

end CppLinuxLearn.Solcom
