import CppLinuxLearn.Solcom.Post

/-!
# What the peer reads back

The buffers that successful calls of `postMsg` fill, one after the other, are parsed by head and
length. The length field has 16 bits: the messages come back exactly when no accepted body has
65536 bytes or more and each one had room in its slot.
-/

namespace CppLinuxLearn.Solcom

open Lib Steps

/-- What a call that returned `ERR_SUCCESS` was given, and the buffer it filled. -/
structure Filled where
  buffer : Bytes
  requestID : CInt
  reqRtn : EPkgReqRtnType
  body : Bytes

/-- A `SolcomApi` with the buffers its calls of `postMsg` have filled. -/
structure Sender extends SendState where
  filled : List Filled

inductive SendAction
  | post (junk : Nat → UInt8) (msg : Message) (requestID : CInt) (reqRtn : EPkgReqRtnType)
  /-- `req_write_cb`: a package has been written -/
  | written
  /-- the connection comes up or goes down -/
  | connected (bConnected : Bool)

namespace Sender

/-- `SolcomApi()`; `junk i` is what the memory of the slot `i` holds. -/
def new (junk : Nat → Nat → UInt8) : Sender :=
  ⟨⟨false, .new 128 fun i => .new (junk i) 1424⟩, []⟩

/-- The buffer of the slot that `allocate` gives out in `s`, after the call. -/
def bufferAfter (s : Sender) (s' : SendState) : Bytes :=
  (s.sendCache.allocate.bind fun i => s'.sendCache.elements[i]?).elim [] CByteArray.filled

def step (s : Sender) : SendAction → Option Sender
  | .post junk msg requestID reqRtn => do
    let (res, s') ← postMsg junk msg.toISerializable requestID reqRtn s.toSendState
    let f : Filled := ⟨s.bufferAfter s', requestID, reqRtn, msg.body⟩
    some ⟨s', if res = ERR_SUCCESS then s.filled ++ [f] else s.filled⟩
  | .written => some { s with sendCache := s.sendCache.headForward.2 }
  | .connected bConnected => some { s with bConnected }

end Sender

/-! ## Reading back -/

/-- What the peer takes from a package: the request id as an `int`, the kind, and the body. -/
def readPackage (p : Bytes × Bytes) : CInt × BitVec 8 × Bytes :=
  ((ofBytes p.1 : PackageHeadField).requestID.setWidth 32, (ofBytes p.1 : PackageHeadField).reqRtnType,
    p.2)

/-- The stream parsed by head and `pkgBodyLen` body bytes. -/
def recover (stream : Bytes) : Option (List (CInt × BitVec 8 × Bytes)) :=
  (framing.split stream).map (List.map readPackage)

def Filled.posted (f : Filled) : CInt × BitVec 8 × Bytes :=
  (f.requestID, BitVec.ofNat 8 f.reqRtn.toNat, f.body)

/-- The peer recovers what was posted. -/
def Sender.Recovered (s : Sender) : Prop :=
  recover (s.filled.flatMap (·.buffer)) = some (s.filled.map Filled.posted)

/-- The buffer holds the package of the message. -/
structure Filled.Packed (f : Filled) : Prop where
  body_ne_nil : f.body ≠ []
  buffer : f.buffer = Pod.bytes (⟨0, BitVec.ofNat 8 f.reqRtn.toNat, BitVec.ofNat 16 f.body.length,
    f.requestID.signExtend 64⟩ : PackageHeadField) ++ f.body

/-- The length of the body fits in its field. -/
def Filled.Small (f : Filled) : Prop := f.body.length < 2 ^ 16

theorem setWidth_signExtend (x : CInt) : (x.signExtend 64).setWidth 32 = x := by
  refine BitVec.eq_of_getLsbD_eq fun i hi => ?_
  have hlt : i < 64 := by omega
  rw [BitVec.getLsbD_setWidth, BitVec.getLsbD_signExtend]
  simp only [hi, hlt, decide_true, Bool.true_and, if_true]

namespace Filled.Packed
variable {f : Filled} (h : f.Packed)
include h

theorem take_buffer : f.buffer.take 12 = Pod.bytes (⟨0, BitVec.ofNat 8 f.reqRtn.toNat,
    BitVec.ofNat 16 f.body.length, f.requestID.signExtend 64⟩ : PackageHeadField) := by
  rw [h.buffer, List.take_append_of_le_length (by simp), List.take_of_length_le (by simp)]

theorem drop_buffer : f.buffer.drop 12 = f.body := by
  rw [h.buffer, List.drop_append_of_le_length (by simp), List.drop_of_length_le (by simp),
    List.nil_append]

theorem length_buffer : f.buffer.length = 12 + f.body.length := by
  rw [h.buffer, List.length_append, length_bytes, size_head]

theorem bodyLen : framing.bodyLen (f.buffer.take 12) = f.body.length % 2 ^ 16 := by
  rw [h.take_buffer, framing_bodyLen, BitVec.toNat_ofNat]

theorem isFrame (hs : f.Small) : framing.IsFrame f.buffer := by
  have hpos := List.length_pos_iff.2 h.body_ne_nil
  have hmod : f.body.length % 2 ^ 16 = f.body.length := Nat.mod_eq_of_lt hs
  rw [Framing.IsFrame, framing_headLen, h.bodyLen, h.length_buffer, hmod]
  omega

theorem readPackage : readPackage (f.buffer.take 12, f.buffer.drop 12) = f.posted := by
  rw [Solcom.readPackage, h.take_buffer, h.drop_buffer, ofBytes_bytes]
  refine Prod.ext ?_ rfl
  exact setWidth_signExtend f.requestID

end Filled.Packed

theorem recover_append {fs : List Filled} (h : ∀ f ∈ fs, f.Packed ∧ f.Small) (s : Bytes) :
    recover (fs.flatMap (·.buffer) ++ s) = (recover s).map (fs.map Filled.posted ++ ·) := by
  have hframes : ∀ b ∈ fs.map (·.buffer), framing.IsFrame b := by
    intro b hb
    obtain ⟨f, hf, rfl⟩ := List.mem_map.1 hb
    exact (h f hf).1.isFrame (h f hf).2
  have hsplit := Framing.split_flatten_append hframes s
  have hread : ((fs.map (·.buffer)).map fun b => (b.take 12, b.drop 12)).map readPackage =
      fs.map Filled.posted := by
    rw [List.map_map, List.map_map]
    exact List.map_congr_left fun f hf => (h f hf).1.readPackage
  rw [recover, List.flatMap_def, hsplit, Option.map_map, recover, Option.map_map]
  congr 1
  funext l
  simp only [Function.comp_apply, List.map_append, framing_headLen, hread]

theorem recover_eq {fs : List Filled} (h : ∀ f ∈ fs, f.Packed ∧ f.Small) :
    recover (fs.flatMap (·.buffer)) = some (fs.map Filled.posted) := by
  have happ := recover_append h []
  rw [List.append_nil] at happ
  rw [happ]
  simp [recover, Framing.split, Framing.splitFrom_nil]

theorem recover_ne (fs more : List Filled) {f : Filled} (h : ∀ f ∈ fs, f.Packed ∧ f.Small)
    (hf : f.Packed) (hbig : ¬ f.Small) :
    recover ((fs ++ f :: more).flatMap (·.buffer)) ≠ some ((fs ++ f :: more).map Filled.posted) := by
  intro heq
  rw [List.flatMap_append, recover_append h, Option.map_eq_some_iff] at heq
  obtain ⟨l, hl, heq⟩ := heq
  rw [List.map_append, List.append_cancel_left_eq, List.map_cons] at heq
  subst heq
  rw [recover, Option.map_eq_some_iff] at hl
  obtain ⟨ps, hps, hmap⟩ := hl
  cases ps with
  | nil => cases hmap
  | cons p ps =>
    obtain ⟨hhead, hlen⟩ := Framing.split_eq_cons (h := p.1) (b := p.2) hps
    have hbody : p.2 = f.body := congrArg (·.2.2) (List.cons.inj hmap).1
    have htake : p.1 = f.buffer.take 12 := by
      rw [hhead, List.flatMap_cons, framing_headLen, List.take_append_of_le_length]
      rw [hf.length_buffer]
      omega
    rw [htake, hf.bodyLen, hbody] at hlen
    rw [Filled.Small] at hbig
    omega

/-! ## Runs -/

/-- Each slot is as every slot is. -/
structure Sender.Slots (s : Sender) : Prop where
  sized : s.sendCache.Sized
  slots : ∀ b ∈ s.sendCache.elements, IsSlot b

theorem Sender.slots_new (junk : Nat → Nat → UInt8) : (Sender.new junk).Slots where
  sized := (CachedBuffer.between_new _).toSized
  slots b hb := by
    obtain ⟨i, -, rfl⟩ := List.mem_map.1 hb
    exact isSlot_new (junk i)

/-- A call that is accepted: there is a connection and a slot. -/
structure Sender.Accepts (s : Sender) (i : Nat) (b : CByteArray) : Prop where
  connected : s.bConnected = true
  allocate : s.sendCache.allocate = some i
  slot : s.sendCache.elements[i]? = some b

/-- An accepted message whose length fits in its field, and for which there is room in the slot. -/
def Framed (s : Sender) : SendAction → Prop
  | .post _ msg _ _ => ∀ i b, s.Accepts i b → msg.body.length < 2 ^ 16 ∧ Room msg.toISerializable b
  | _ => True

section
variable {s : Sender} (h : s.Slots)
include h

theorem step_post (junk : Nat → UInt8) (msg : Message) (requestID : CInt) (reqRtn : EPkgReqRtnType) :
    ((∀ i b, ¬ s.Accepts i b) ∧ s.step (.post junk msg requestID reqRtn) = some s) ∨
    ∃ i b, s.Accepts i b ∧
      (Room msg.toISerializable b → ∃ s' : Sender, s.step (.post junk msg requestID reqRtn) = some s' ∧
        s'.Slots ∧ s'.filled = s.filled ++
          [⟨packageOf msg.toISerializable requestID reqRtn, requestID, reqRtn, msg.body⟩]) ∧
      (¬ Room msg.toISerializable b → s.step (.post junk msg requestID reqRtn) = none) := by
  cases hconn : s.bConnected with
  | false =>
    refine .inl ⟨fun i b ha => ?_, ?_⟩
    · rw [ha.connected] at hconn
      cases hconn
    · simp [Sender.step, postMsg, hconn, ERR_NETWORK, ERR_SUCCESS]
  | true =>
    cases hal : s.sendCache.allocate with
    | none =>
      refine .inl ⟨fun i b ha => ?_, ?_⟩
      · rw [ha.allocate] at hal
        cases hal
      · simp [Sender.step, postMsg, hconn, hal, ERR_NO_BUFFER, ERR_SUCCESS]
    | some i =>
      have hi := h.sized.allocate_lt hal
      have hb := List.getElem?_eq_getElem hi
      refine .inr ⟨i, s.sendCache.elements[i], ⟨hconn, hal, hb⟩, ?_⟩
      have hslot := h.slots _ (List.getElem_mem hi)
      generalize s.sendCache.elements[i] = b at hb hslot
      obtain ⟨hroom, hnone⟩ := encode_eq hslot msg junk requestID reqRtn
      constructor
      · intro hr
        obtain ⟨b', henc, hslot', hfilled⟩ := hroom hr
        have hpost : postMsg junk msg.toISerializable requestID reqRtn s.toSendState =
            some (ERR_SUCCESS, { s.toSendState with
              sendCache := (s.sendCache.set i b').tailForward.2 }) := by
          simp [postMsg, hconn, hal, hb, henc]
        have helements : (s.sendCache.set i b').tailForward.2.elements =
            s.sendCache.elements.set i b' := CachedBuffer.elements_tailForward _
        have hbuffer : s.bufferAfter { s.toSendState with
            sendCache := (s.sendCache.set i b').tailForward.2 } =
              packageOf msg.toISerializable requestID reqRtn := by
          rw [Sender.bufferAfter, hal, Option.bind_some, helements, List.getElem?_set_self hi,
            ← hfilled]
          rfl
        refine ⟨_, by rw [Sender.step, hpost]; rfl, ⟨?_, ?_⟩, ?_⟩
        · exact (h.sized.set i b').tailForward
        · intro c hc
          rw [helements] at hc
          rcases List.mem_or_eq_of_mem_set hc with hc | rfl
          · exact h.slots c hc
          · exact hslot'
        · simp only [if_true, hbuffer]
      · intro hr
        simp [Sender.step, postMsg, hconn, hal, hb, hnone hr]

/-- A step that meets the condition keeps what was filled readable. -/
theorem step_framed (hgood : ∀ f ∈ s.filled, f.Packed ∧ f.Small) {a : SendAction}
    (ha : Framed s a) :
    ∃ s', s.step a = some s' ∧ s'.Slots ∧ ∀ f ∈ s'.filled, f.Packed ∧ f.Small := by
  cases a with
  | post junk msg requestID reqRtn =>
    rcases step_post h junk msg requestID reqRtn with ⟨-, heq⟩ | ⟨i, b, hacc, hroom, -⟩
    · exact ⟨s, heq, h, hgood⟩
    · obtain ⟨hsmall, hr⟩ := ha i b hacc
      obtain ⟨s', heq, hslots, hfilled⟩ := hroom hr
      refine ⟨s', heq, hslots, fun f hf => ?_⟩
      rw [hfilled] at hf
      rcases List.mem_append.1 hf with hf | hf
      · exact hgood f hf
      · rw [List.mem_singleton.1 hf]
        exact ⟨⟨msg.body_ne_nil, rfl⟩, hsmall⟩
  | written =>
    refine ⟨_, rfl, ⟨h.sized.headForward, fun b hb => ?_⟩, hgood⟩
    exact h.slots b (CachedBuffer.elements_headForward s.sendCache ▸ hb)
  | connected bConnected => exact ⟨_, rfl, ⟨h.sized, h.slots⟩, hgood⟩

theorem filled_step {a : SendAction} {s' : Sender} (heq : s.step a = some s') :
    s'.Slots ∧ s.filled <+: s'.filled := by
  cases a with
  | post junk msg requestID reqRtn =>
    rcases step_post h junk msg requestID reqRtn with ⟨-, heq'⟩ | ⟨i, b, -, hroom, hnone⟩
    · rw [heq] at heq'
      cases heq'
      exact ⟨h, List.prefix_rfl⟩
    · by_cases hr : Room msg.toISerializable b
      · obtain ⟨t, heq', hslots, hfilled⟩ := hroom hr
        rw [heq] at heq'
        cases heq'
        rw [hfilled]
        exact ⟨hslots, List.prefix_append _ _⟩
      · rw [hnone hr] at heq
        cases heq
  | written =>
    cases heq
    refine ⟨⟨h.sized.headForward, fun b hb => ?_⟩, List.prefix_rfl⟩
    exact h.slots b (CachedBuffer.elements_headForward s.sendCache ▸ hb)
  | connected bConnected =>
    cases heq
    exact ⟨⟨h.sized, h.slots⟩, List.prefix_rfl⟩

end

theorem filled_run {s t : Sender} (h : s.Slots) {as : List SendAction}
    (hrun : run Sender.step s as = some t) : s.filled <+: t.filled := by
  have hinv : t.Slots ∧ s.filled <+: t.filled :=
    run_invariant (I := fun u => u.Slots ∧ s.filled <+: u.filled)
      (fun u a v hu hv => ⟨(filled_step hu.1 hv).1, hu.2.trans (filled_step hu.1 hv).2⟩)
      ⟨h, List.prefix_rfl⟩ hrun
  exact hinv.2

/-- A step that does not meet the condition is undefined, or what it fills is never read back. -/
theorem not_recovered_of_not_framed {s : Sender} (h : s.Slots)
    (hgood : ∀ f ∈ s.filled, f.Packed ∧ f.Small) {a : SendAction} (ha : ¬ Framed s a)
    {as : List SendAction} {t : Sender} (hrun : run Sender.step s (a :: as) = some t) :
    ¬ t.Recovered := by
  cases a with
  | written => exact absurd trivial ha
  | connected bConnected => exact absurd trivial ha
  | post junk msg requestID reqRtn =>
    obtain ⟨u, hu, hrest⟩ := run_cons hrun
    rcases step_post h junk msg requestID reqRtn with ⟨hno, -⟩ | ⟨i, b, hacc, hroom, hnone⟩
    · exact absurd (fun i b hb => absurd hb (hno i b)) ha
    · by_cases hr : Room msg.toISerializable b
      · obtain ⟨v, hv, hslots, hfilled⟩ := hroom hr
        rw [hu] at hv
        cases hv
        have hbig : ¬ msg.body.length < 2 ^ 16 := by
          intro hsmall
          refine ha fun j c hc => ?_
          have hj : j = i := Option.some.inj (hc.allocate.symm.trans hacc.allocate)
          subst hj
          have hcb : c = b := Option.some.inj (hc.slot.symm.trans hacc.slot)
          subst hcb
          exact ⟨hsmall, hr⟩
        obtain ⟨more, hmore⟩ := filled_run hslots hrest
        rw [hfilled, List.append_assoc] at hmore
        rw [Sender.Recovered, ← hmore]
        exact recover_ne s.filled more hgood ⟨msg.body_ne_nil, rfl⟩ hbig
      · rw [hnone hr] at hu
        cases hu

theorem recovered_iff_meets {s : Sender} (h : s.Slots) (hgood : ∀ f ∈ s.filled, f.Packed ∧ f.Small)
    (as : List SendAction) :
    (∃ t, run Sender.step s as = some t ∧ t.Recovered) ↔ Meets Sender.step Framed s as := by
  induction as generalizing s with
  | nil =>
    refine iff_of_true ⟨s, rfl, ?_⟩ trivial
    exact recover_eq hgood
  | cons a as ih =>
    by_cases ha : Framed s a
    · obtain ⟨s', heq, hslots, hgood'⟩ := step_framed h hgood ha
      have htail := ih hslots hgood'
      simp only [run, Meets, heq, Option.bind_some, Option.some.injEq, forall_eq', ha, true_and]
      exact htail
    · refine iff_of_false ?_ fun hm => ha hm.1
      rintro ⟨t, hrun, hrec⟩
      exact not_recovered_of_not_framed h hgood ha hrun hrec

/-- **What `postMsg` accepts comes back, in order, exactly in the runs in which every accepted body
has less than 65536 bytes and room in its slot.** -/
theorem recovered_iff (junk : Nat → Nat → UInt8) (as : List SendAction) :
    (∃ t, run Sender.step (Sender.new junk) as = some t ∧ t.Recovered) ↔
      Meets Sender.step Framed (Sender.new junk) as :=
  recovered_iff_meets (Sender.slots_new junk) (fun _ hf => absurd hf List.not_mem_nil) as

/-- A message of `n` equal bytes. -/
def constMessage (n : Nat) (hpos : n ≠ 0) (hlt : n < 2 ^ 31) : Message where
  appends := [List.replicate n 2]
  dataSize := n
  body_ne_nil := by simpa [ISerializable.body] using hpos
  length_le := by simp [ISerializable.body]
  dataSize_lt := by omega

theorem length_constMessage (n : Nat) (hpos : n ≠ 0) (hlt : n < 2 ^ 31) :
    (constMessage n hpos hlt).body.length = n := by
  simp [constMessage, ISerializable.body]

theorem accepts_new (junk : Nat → Nat → UInt8) :
    ∃ i b, Sender.Accepts { Sender.new junk with bConnected := true } i b := by
  have hb := CachedBuffer.between_new fun i => CByteArray.new (junk i) 1424
  have hpos := hb.toSized.capacity_pos
  have hal := hb.allocate_eq
  rw [if_neg (by omega)] at hal
  exact ⟨_, _, rfl, hal, List.getElem?_eq_getElem (hb.toSized.allocate_lt hal)⟩

theorem post_not_recovered {s : Sender} (hs : Sender.Slots { s with bConnected := true })
    (hnil : s.filled = []) {i : Nat} {b : CByteArray}
    (hacc : Sender.Accepts { s with bConnected := true } i b) (junk : Nat → UInt8) {msg : Message}
    (hroom : msg.dataSize + 12 < 2 ^ 31) (hbig : ¬ msg.body.length < 2 ^ 16) (requestID : CInt)
    (reqRtn : EPkgReqRtnType) :
    ∃ t, run Sender.step s [.connected true, .post junk msg requestID reqRtn] = some t ∧
      t.filled.length = 1 ∧ ¬ t.Recovered := by
  rcases step_post hs junk msg requestID reqRtn with ⟨hno, -⟩ | ⟨j, c, -, hstep, -⟩
  · exact absurd hacc (hno i b)
  · obtain ⟨t, ht, -, hfilled⟩ := hstep (.inl hroom)
    have hone : t.filled =
        [⟨packageOf msg.toISerializable requestID reqRtn, requestID, reqRtn, msg.body⟩] := by
      rw [hfilled, hnil, List.nil_append]
    refine ⟨t, ?_, by rw [hone, List.length_singleton], ?_⟩
    · show (Sender.step { s with bConnected := true } _).bind _ = _
      rw [ht]
      rfl
    · rw [Sender.Recovered, hone]
      exact recover_ne [] [] (by simp) ⟨msg.body_ne_nil, rfl⟩ hbig

/-- A message of 65536 bytes is accepted, and its head says that no byte follows. -/
theorem longMessage_not_recovered :
    ∃ t, run Sender.step (Sender.new fun _ _ => 0) [.connected true,
        .post (fun _ => 0) (constMessage 65536 (by decide) (by decide)) 7 .Type_Req] = some t ∧
      t.filled.length = 1 ∧ ¬ t.Recovered := by
  have hslots := Sender.slots_new fun _ _ => 0
  have hnil : (Sender.new fun _ _ => 0).filled = [] := rfl
  obtain ⟨i, b, hacc⟩ := accepts_new fun _ _ => 0
  have hroom : (constMessage 65536 (by decide) (by decide)).dataSize + 12 < 2 ^ 31 := by
    rw [constMessage]
    decide
  have hbig : ¬ (constMessage 65536 (by decide) (by decide)).body.length < 2 ^ 16 := by
    rw [length_constMessage]
    decide
  exact post_not_recovered ⟨hslots.sized, hslots.slots⟩ hnil hacc _ hroom hbig 7 .Type_Req

end CppLinuxLearn.Solcom
