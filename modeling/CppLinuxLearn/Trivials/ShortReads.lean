import CppLinuxLearn.Trivials.SplitMdFile

/-!
# Short reads and writes on a pipe

The pipe of an instrument in `splitMdFile.cpp`, call by call: `fixwrite` and `fixread` go on until the whole buffer is
written or read, or a call does nothing, and then return what was done so far. The parent does not look at what
`fixwrite` returns; the child goes on with a length or a line of which a part has come.
-/

namespace CppLinuxLearn.Trivials.ShortReads

open Lib Steps

/-- A record: the length as an `int`, and the line. -/
abbrev Record := BitVec 32 × Bytes

def recordOf (line : Bytes) : Record := (BitVec.ofNat 32 line.length, line)

/-- Where the parent is: which bytes `fixwrite` has not written yet. -/
inductive Writer
  | idle
  /-- of the length of a line -/
  | length (rest line : Bytes)
  /-- of the line -/
  | line (rest : Bytes)
deriving DecidableEq

/-- Where the child is: which bytes `fixread` has read. -/
inductive Reader
  /-- of a length -/
  | length (got : Bytes)
  /-- of a line with the length `n`, into `rbuf` -/
  | line (n : BitVec 32) (rbuf : Bytes)
  /-- the child has returned -/
  | ended
  /-- more is read than `rbuf` has room for -/
  | overrun
deriving DecidableEq

structure Channel where
  /-- the lines to come, the last of which is the end -/
  lines : List Bytes
  writer : Writer
  /-- what the pipe has accepted and not given out -/
  pipe : Bytes
  reader : Reader
  /-- what the parent has begun to write -/
  encoded : List Record
  /-- what the child has taken for a record -/
  decoded : List Record
deriving DecidableEq

inductive Action
  /-- the parent takes the next line -/
  | take
  /-- `write` accepts so many bytes -/
  | write (k : Nat)
  /-- `write` accepts nothing, or would block -/
  | noWrite
  /-- `read` gives so many bytes -/
  | read (k : Nat)
  /-- `read` gives nothing, or would block; `junk` is what `n` holds behind what was read of it -/
  | noRead (junk : Bytes)

namespace Channel

/-- `fixwrite(_pipe[1], (char *)line.c_str(), line.length())`; for no bytes nothing is called. -/
def writeLine (c : Channel) (line : Bytes) : Channel :=
  { c with writer := if line = [] then .idle else .line line }

/-- `n = fixread(_pipe[0], rbuf, n)`; for no bytes nothing is called, and a negative count is an error (`EINVAL`) on
which the child returns. -/
def readLine (c : Channel) (n : BitVec 32) : Channel :=
  { c with reader := if n = 0 then .length [] else if n.toInt < 0 then .ended else .line n [] }

/-- `if (n > 0)`; a buffer that is full has no terminator of its own. -/
def handle (c : Channel) (n : BitVec 32) (rbuf : Bytes) : Channel :=
  { c with
    decoded := c.decoded ++ [(n, rbuf)]
    reader := if 512 ≤ rbuf.length ∧ 0 ∉ rbuf then .overrun else if isEnd rbuf then .ended else .length [] }

/-- Some bytes of a line have come. -/
def received (c : Channel) (n : BitVec 32) (rbuf : Bytes) : Channel :=
  if 512 < rbuf.length then { c with reader := .overrun }
  else if (rbuf.length : Int) = n.toInt then c.handle n rbuf
  else { c with reader := .line n rbuf }

def step (c : Channel) : Action → Option Channel
  | .take =>
    match c.writer, c.lines with
    | .idle, line :: lines => some { c with
        lines := lines
        writer := .length (bytes (BitVec.ofNat 32 line.length)) line
        encoded := c.encoded ++ [recordOf line] }
    | _, _ => none
  | .write k =>
    match c.writer with
    | .idle => none
    | .length rest line =>
      if 0 < k ∧ k ≤ rest.length then
        let c := { c with pipe := c.pipe ++ rest.take k, writer := .length (rest.drop k) line }
        some (if k = rest.length then c.writeLine line else c)
      else none
    | .line rest =>
      if 0 < k ∧ k ≤ rest.length then
        some { c with pipe := c.pipe ++ rest.take k, writer := if k = rest.length then .idle else .line (rest.drop k) }
      else none
  | .noWrite =>
    match c.writer with
    | .idle => none
    | .length _ line => some (c.writeLine line)
    | .line _ => some { c with writer := .idle }
  | .read k =>
    if 0 < k ∧ k ≤ c.pipe.length then
      let taken := c.pipe.take k
      let rest := { c with pipe := c.pipe.drop k }
      match c.reader with
      | .length got =>
        if got.length + k < 4 then some { rest with reader := .length (got ++ taken) }
        else if got.length + k = 4 then some (rest.readLine (ofBytes (got ++ taken)))
        else none
      | .line n rbuf => if rbuf.length + k ≤ n.toInt then some (rest.received n (rbuf ++ taken)) else none
      | _ => none
    else none
  | .noRead junk =>
    match c.reader with
    | .length got => some (if got = [] then c else c.readLine (ofBytes (got ++ junk)))
    | .line n rbuf => some (if rbuf = [] then { c with reader := .length [] } else c.handle n rbuf)
    | _ => none

/-- The parent with the lines of an instrument; a line without a name is not written. -/
def init (data : List Bytes) : Channel :=
  ⟨(data.filter fun line => strIns line ≠ []) ++ [text "end"], .idle, [], .length [], [], []⟩

/-- Everything is written, and everything accepted is read or the child has returned. -/
structure Complete (c : Channel) : Prop where
  lines : c.lines = []
  writer : c.writer = .idle
  pipe : c.pipe = [] ∨ c.reader = .ended

/-- What the child has taken for records are the records from the first one on, and at the end all of them. -/
structure Decodes (c : Channel) : Prop where
  inside : c.reader ≠ .overrun
  decoded : c.decoded <+: c.encoded
  all : c.Complete → c.decoded = c.encoded

/-- No write does nothing, and no read once a byte of the record has come. -/
def Uncut (c : Channel) : Action → Prop
  | .noWrite => False
  | .noRead _ => c.reader = .length []
  | _ => True

instance (c : Channel) : ∀ a, Decidable (Uncut c a)
  | .noWrite => inferInstanceAs (Decidable False)
  | .noRead _ => inferInstanceAs (Decidable (_ = _))
  | .take => inferInstanceAs (Decidable True)
  | .write _ => inferInstanceAs (Decidable True)
  | .read _ => inferInstanceAs (Decidable True)

end Channel

/-! ## The bytes between the parent and the child -/

/-- A line that has a terminator in `rbuf`. -/
def Terminated (line : Bytes) : Prop := line.length < 512 ∨ line.length = 512 ∧ 0 ∈ line

instance (line : Bytes) : Decidable (Terminated line) := inferInstanceAs (Decidable (_ ∨ _))

/-- What is not yet written of the records that the parent has begun. -/
def Writer.unwritten : Writer → Bytes
  | .idle => []
  | .length rest behind => rest ++ behind
  | .line rest => rest

/-- What is read of the records that the child has not taken. -/
def Reader.untaken : Reader → Bytes
  | .length got => got
  | .line n rbuf => bytes n ++ rbuf
  | _ => []

/-- A length or a line of which a part is to come; or there is nothing to come. -/
def Reader.Awaits (coming : List Bytes) : Reader → Prop
  | .length got => got.length < 4
  | .line n rbuf => (rbuf.length : Int) < n.toInt
  | .ended => coming = []
  | .overrun => False

/-- The lines `sent` are those that the child has taken, those between the parent and the child, and those to come. -/
structure Inv (sent done between : List Bytes) (c : Channel) : Prop where
  sent : sent = done ++ (between ++ c.lines)
  encoded : c.encoded = (done ++ between).map recordOf
  decoded : c.decoded = done.map recordOf
  stream : c.reader.untaken ++ (c.pipe ++ c.writer.unwritten) = between.flatMap fixwrite
  reader : c.reader.Awaits (between ++ c.lines)

section
variable {sent done between : List Bytes} {c t : Channel}

theorem Terminated.length_le {line : Bytes} (h : Terminated line) : line.length ≤ 512 := by
  rcases h with h | ⟨h, -⟩ <;> omega

theorem Terminated.toInt_length {line : Bytes} (h : Terminated line) :
    (BitVec.ofNat 32 line.length).toInt = line.length := by
  have hle := h.length_le
  rw [BitVec.toInt_eq_toNat_of_lt, BitVec.toNat_ofNat, Nat.mod_eq_of_lt (by omega)]
  rw [BitVec.toNat_ofNat, Nat.mod_eq_of_lt (by omega)]
  omega

theorem stream_head {p rest : Bytes} (hp : p.length = 4) (h : p ++ rest = between.flatMap fixwrite) :
    ∃ r behind, between = r :: behind ∧ p = bytes (BitVec.ofNat 32 r.length) ∧
      rest = r ++ behind.flatMap fixwrite := by
  cases between with
  | nil =>
    obtain ⟨rfl, -⟩ := List.append_eq_nil_iff.1 h
    cases hp
  | cons r behind =>
    rw [List.flatMap_cons, fixwrite, List.append_assoc] at h
    have hsize : (bytes (BitVec.ofNat 32 r.length)).length = 4 := length_bytes _
    obtain ⟨hlen, hrest⟩ := List.append_inj h (hp.trans hsize.symm)
    exact ⟨r, behind, rfl, hlen, hrest⟩

theorem end_last {data done rest : List Bytes} {r : Bytes} (hdata : ∀ line ∈ data, isEnd line = false)
    (h : data ++ [text "end"] = done ++ r :: rest) (hr : isEnd r = true) : rest = [] := by
  rcases List.eq_nil_or_concat rest with rfl | ⟨before, last, rfl⟩
  · rfl
  · have hsplit : data ++ [text "end"] = (done ++ r :: before) ++ [last] := by
      rw [h, List.concat_eq_append, List.append_assoc, List.cons_append]
    have hmem : r ∈ data := by
      rw [(List.append_inj' hsplit rfl).1]
      exact List.mem_append_right _ List.mem_cons_self
    exact absurd ((hdata r hmem).symm.trans hr) Bool.false_ne_true

/-! ## Calls -/

theorem unwritten_line (line : Bytes) : (if line = [] then Writer.idle else .line line).unwritten = line := by
  split
  next hline => exact hline.symm
  next => rfl

theorem step_write {k : Nat} (h : c.step (.write k) = some t) :
    ∃ writer pipe, t = { c with writer := writer, pipe := pipe } ∧
      pipe ++ writer.unwritten = c.pipe ++ c.writer.unwritten := by
  rw [Channel.step] at h
  cases hw : c.writer with
  | idle =>
    rw [hw] at h
    cases h
  | length rest line =>
    simp only [hw] at h
    obtain ⟨⟨-, hk⟩, h⟩ := Option.ite_none_right_eq_some.1 h
    obtain rfl := Option.some.inj h
    have hmoved : c.pipe ++ rest.take k ++ (rest.drop k ++ line) = c.pipe ++ (rest ++ line) := by
      rw [List.append_assoc, ← List.append_assoc _ _ line, List.take_append_drop]
    split
    next hall =>
      refine ⟨_, c.pipe ++ rest.take k, rfl, ?_⟩
      rw [unwritten_line, hall, List.take_length, List.append_assoc]
      rfl
    next => exact ⟨_, _, rfl, hmoved⟩
  | line rest =>
    simp only [hw] at h
    obtain ⟨⟨-, hk⟩, h⟩ := Option.ite_none_right_eq_some.1 h
    obtain rfl := Option.some.inj h
    refine ⟨_, _, rfl, ?_⟩
    split
    next hall =>
      rw [hall, List.take_length]
      exact List.append_nil _
    next =>
      change c.pipe ++ rest.take k ++ rest.drop k = c.pipe ++ rest
      rw [List.append_assoc, List.take_append_drop]

theorem Inv.take (hI : Inv sent done between c) (h : c.step .take = some t) :
    ∃ line, Inv sent done (between ++ [line]) t := by
  rw [Channel.step] at h
  split at h
  next line lines hw hlines =>
    obtain rfl := Option.some.inj h
    have hcoming : between ++ [line] ++ lines = between ++ c.lines := by rw [hlines, List.append_assoc]; rfl
    refine ⟨line, ?_, ?_, hI.decoded, ?_, ?_⟩
    · rw [hcoming]
      exact hI.sent
    · rw [← List.append_assoc, List.map_append, ← hI.encoded]
      rfl
    · have hstream := hI.stream
      rw [hw, Writer.unwritten, List.append_nil] at hstream
      rw [List.flatMap_append, ← hstream, List.flatMap_singleton, List.append_assoc]
      rfl
    · rw [hcoming]
      exact hI.reader
  next => cases h

theorem Inv.write {k : Nat} (hI : Inv sent done between c) (h : c.step (.write k) = some t) :
    Inv sent done between t := by
  obtain ⟨writer, pipe, rfl, hmoved⟩ := step_write h
  refine ⟨hI.sent, hI.encoded, hI.decoded, ?_, hI.reader⟩
  rw [← hI.stream, ← hmoved]

theorem Inv.readLine (hI : Inv sent done between c) (hsent : ∀ r ∈ sent, r ≠ [] ∧ Terminated r) {p pipe : Bytes}
    (hp : p.length = 4) (hmoved : p ++ pipe = c.reader.untaken ++ c.pipe) :
    Inv sent done between ({ c with pipe := pipe }.readLine (ofBytes p)) := by
  have hstream := hI.stream
  rw [← List.append_assoc, ← hmoved, List.append_assoc] at hstream
  obtain ⟨r, behind, rfl, rfl, -⟩ := stream_head hp hstream
  obtain ⟨hne, hr⟩ := hsent r (by simp [hI.sent])
  have hpos := List.length_pos_iff.2 hne
  have hlen := hr.toInt_length
  have hn : BitVec.ofNat 32 r.length ≠ 0 := by
    intro h0
    rw [h0] at hlen
    change (0 : Int) = r.length at hlen
    omega
  rw [ofBytes_bytes, Channel.readLine, if_neg hn, if_neg (by omega)]
  refine ⟨hI.sent, hI.encoded, hI.decoded, ?_, ?_⟩
  · rw [Reader.untaken, List.append_nil]
    exact hstream
  · rw [Reader.Awaits, hlen]
    exact Int.natCast_pos.2 hpos

theorem Inv.received {data : List Bytes} (hI : Inv (data ++ [text "end"]) done between c)
    (hdata : ∀ line ∈ data, isEnd line = false) (hsent : ∀ r ∈ data ++ [text "end"], r ≠ [] ∧ Terminated r)
    {n : BitVec 32} {rbuf pipe : Bytes} (hn : (rbuf.length : Int) ≤ n.toInt)
    (hmoved : bytes n ++ rbuf ++ pipe = c.reader.untaken ++ c.pipe) :
    ∃ done between, Inv (data ++ [text "end"]) done between ({ c with pipe := pipe }.received n rbuf) := by
  have hstream : bytes n ++ rbuf ++ (pipe ++ c.writer.unwritten) = between.flatMap fixwrite := by
    rw [← List.append_assoc, hmoved, List.append_assoc]
    exact hI.stream
  have hsize : (bytes n).length = 4 := length_bytes n
  obtain ⟨r, behind, rfl, hlen, hline⟩ := stream_head hsize ((List.append_assoc _ _ _).symm.trans hstream)
  obtain ⟨-, hr⟩ := hsent r (by simp [hI.sent])
  obtain rfl : n = BitVec.ofNat 32 r.length := by
    rw [← ofBytes_bytes n, hlen, ofBytes_bytes]
  rw [hr.toInt_length] at hn
  have hle := hr.length_le
  rw [Channel.received, if_neg (by omega), hr.toInt_length]
  split
  next hall =>
    obtain ⟨rfl, hrest⟩ := List.append_inj hline (Int.natCast_inj.1 hall)
    have hfits : ¬ (512 ≤ rbuf.length ∧ 0 ∉ rbuf) := by
      rcases hr with hr | ⟨-, hr⟩
      · omega
      · exact fun h => h.2 hr
    refine ⟨done ++ [rbuf], behind, ?_, ?_, ?_, ?_, ?_⟩
    · rw [hI.sent, List.append_assoc]
      rfl
    · rw [List.append_assoc]
      exact hI.encoded
    · rw [List.map_append, ← hI.decoded]
      rfl
    · rw [Channel.handle, if_neg hfits, ← hrest]
      split <;> rfl
    · rw [Channel.handle, if_neg hfits]
      split
      next hend => exact end_last hdata hI.sent hend
      next => exact Nat.succ_pos 3
  next hpart =>
    refine ⟨done, r :: behind, hI.sent, hI.encoded, hI.decoded, hstream, ?_⟩
    rw [Reader.Awaits, hr.toInt_length]
    omega

theorem Inv.read {data : List Bytes} {k : Nat} (hI : Inv (data ++ [text "end"]) done between c)
    (hdata : ∀ line ∈ data, isEnd line = false) (hsent : ∀ r ∈ data ++ [text "end"], r ≠ [] ∧ Terminated r)
    (h : c.step (.read k) = some t) : ∃ done between, Inv (data ++ [text "end"]) done between t := by
  rw [Channel.step] at h
  obtain ⟨⟨-, hk⟩, h⟩ := Option.ite_none_right_eq_some.1 h
  have htaken : (c.pipe.take k).length = k := List.length_take_of_le hk
  have hmoved : ∀ got : Bytes, got ++ c.pipe.take k ++ c.pipe.drop k = got ++ c.pipe := fun got => by
    rw [List.append_assoc, List.take_append_drop]
  cases hr : c.reader with
  | length got =>
    simp only [hr] at h
    split at h
    next hpart =>
      obtain rfl := Option.some.inj h
      refine ⟨done, between, hI.sent, hI.encoded, hI.decoded, ?_, ?_⟩
      · rw [← hI.stream, hr, ← List.append_assoc]
        exact (congrArg (· ++ c.writer.unwritten) (hmoved got)).trans (List.append_assoc _ _ _)
      · rw [Reader.Awaits, List.length_append, htaken]
        exact hpart
    next =>
      obtain ⟨hall, h⟩ := Option.ite_none_right_eq_some.1 h
      obtain rfl := Option.some.inj h
      have hlen : (got ++ c.pipe.take k).length = 4 := by rw [List.length_append, htaken, hall]
      exact ⟨done, between, hI.readLine hsent hlen (by rw [hmoved, hr]; rfl)⟩
  | line n rbuf =>
    simp only [hr] at h
    obtain ⟨hn, h⟩ := Option.ite_none_right_eq_some.1 h
    obtain rfl := Option.some.inj h
    refine hI.received hdata hsent ?_ (by rw [← List.append_assoc, hmoved, hr]; rfl)
    rw [List.length_append, htaken]
    exact hn
  | ended =>
    rw [hr] at h
    cases h
  | overrun =>
    rw [hr] at h
    cases h

theorem inv_step {data : List Bytes} (hdata : ∀ line ∈ data, isEnd line = false)
    (hsent : ∀ r ∈ data ++ [text "end"], r ≠ [] ∧ Terminated r) (c : Channel) (a : Action) (t : Channel)
    (hI : ∃ done between, Inv (data ++ [text "end"]) done between c) (hcut : c.Uncut a) (h : c.step a = some t) :
    ∃ done between, Inv (data ++ [text "end"]) done between t := by
  obtain ⟨done, between, hI⟩ := hI
  cases a with
  | take =>
    obtain ⟨line, ht⟩ := hI.take h
    exact ⟨done, between ++ [line], ht⟩
  | write k => exact ⟨done, between, hI.write h⟩
  | noWrite => exact hcut.elim
  | read k => exact hI.read hdata hsent h
  | noRead junk =>
    rw [Channel.step, show c.reader = .length [] from hcut] at h
    obtain rfl := Option.some.inj h
    exact ⟨done, between, hI⟩

theorem inv_init (data : List Bytes) :
    Inv ((data.filter fun line => strIns line ≠ []) ++ [text "end"]) [] [] (.init data) :=
  ⟨rfl, rfl, rfl, rfl, Nat.succ_pos 3⟩

theorem Inv.between_eq_nil (hI : Inv sent done between c) (hsent : ∀ r ∈ sent, r ≠ [] ∧ Terminated r)
    (hc : c.Complete) : between = [] := by
  have hawaits := hI.reader
  have hstream := hI.stream
  rw [hc.writer, Writer.unwritten, List.append_nil] at hstream
  rcases hc.pipe with hpipe | hended
  · rw [hpipe, List.append_nil] at hstream
    cases hr : c.reader with
    | length got =>
      rw [hr, Reader.Awaits] at hawaits
      rw [hr, Reader.untaken] at hstream
      cases between with
      | nil => rfl
      | cons r behind =>
        have hlen := congrArg List.length hstream
        rw [List.flatMap_cons, List.length_append, length_fixwrite] at hlen
        omega
    | line n rbuf =>
      rw [hr, Reader.Awaits] at hawaits
      rw [hr, Reader.untaken] at hstream
      obtain ⟨r, behind, rfl, hlen, rfl⟩ := stream_head (length_bytes n) hstream
      obtain ⟨-, hterm⟩ := hsent r (by simp [hI.sent])
      rw [← ofBytes_bytes n, hlen, ofBytes_bytes, hterm.toInt_length, List.length_append] at hawaits
      omega
    | ended =>
      rw [hr] at hawaits
      exact (List.append_eq_nil_iff.1 hawaits).1
    | overrun =>
      rw [hr] at hawaits
      exact hawaits.elim
  · rw [hended] at hawaits
    exact (List.append_eq_nil_iff.1 hawaits).1

theorem Inv.decodes (hI : Inv sent done between c) (hsent : ∀ r ∈ sent, r ≠ [] ∧ Terminated r) : c.Decodes := by
  refine ⟨fun hover => ?_, ?_, fun hc => ?_⟩
  · have hawaits := hI.reader
    rw [hover] at hawaits
    exact hawaits
  · rw [hI.decoded, hI.encoded, List.map_append]
    exact List.prefix_append _ _
  · rw [hI.decoded, hI.encoded, hI.between_eq_nil hsent hc, List.append_nil]

end

/-! ## The records that are decoded -/

/-- As long as no call does nothing in the middle of a record, the child takes the records that the parent wrote. -/
theorem decodes_of_uncut {data : List Bytes}
    (hdata : ∀ line ∈ data, strIns line ≠ [] → Terminated line ∧ isEnd line = false) {as : List Action} {t : Channel}
    (hrun : run Channel.step (.init data) as = some t) (hmeets : Meets Channel.step Channel.Uncut (.init data) as) :
    t.Decodes := by
  have hfilter : ∀ line ∈ data.filter fun line => strIns line ≠ [], line ∈ data ∧ strIns line ≠ [] := by
    intro line hline
    obtain ⟨hmem, hins⟩ := List.mem_filter.1 hline
    exact ⟨hmem, of_decide_eq_true hins⟩
  have hno : ∀ line ∈ data.filter fun line => strIns line ≠ [], isEnd line = false := fun line hline =>
    (hdata line (hfilter line hline).1 (hfilter line hline).2).2
  have hsent : ∀ r ∈ (data.filter fun line => strIns line ≠ []) ++ [text "end"], r ≠ [] ∧ Terminated r := by
    intro r hr
    rcases List.mem_append.1 hr with hr | hr
    · obtain ⟨hmem, hins⟩ := hfilter r hr
      refine ⟨?_, (hdata r hmem hins).1⟩
      rintro rfl
      exact hins rfl
    · obtain rfl := List.mem_singleton.1 hr
      decide
  obtain ⟨done, between, hI⟩ := run_induction (inv_step hno hsent) ⟨[], [], inv_init data⟩ hmeets hrun
  exact hI.decodes hsent

/-- A line and the end, where each call does a part of what is asked for, or its last byte. -/
def partly : List Action :=
  [.noRead [], .take, .write 3, .read 2, .read 1, .write 1, .read 1, .write 2, .read 1, .write 2, .read 3,
    .take, .write 4, .read 4, .write 1, .read 1, .write 2, .read 2]

theorem decodes_of_uncut_partly :
    ∃ t, run Channel.step (.init [text "CU,1"]) partly = some t ∧ t.Complete ∧ t.Decodes := by
  have hmeets : Meets Channel.step Channel.Uncut (.init [text "CU,1"]) partly := by decide
  exact ⟨_, rfl, ⟨rfl, rfl, .inl rfl⟩, decodes_of_uncut (by decide) rfl hmeets⟩

/-- The child reads between the two writes of the parent: the length is lost, and the line is read as a length. -/
def betweenWrites : List Action :=
  [.take, .write 4, .read 4, .noRead [], .write 4, .read 4, .take, .write 4, .write 3, .read 7, .noRead []]

theorem betweenWrites_not_decodes :
    ∃ t, run Channel.step (.init [text "CU,1"]) betweenWrites = some t ∧ t.Complete ∧ ¬ t.Decodes := by
  refine ⟨_, rfl, ⟨rfl, rfl, .inl rfl⟩, fun h => ?_⟩
  have hprefix := h.decoded
  revert hprefix
  decide

end CppLinuxLearn.Trivials.ShortReads
