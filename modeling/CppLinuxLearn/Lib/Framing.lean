import CppLinuxLearn.Lib.Bytes

/-!
# Frames in a byte stream

A frame is a head of fixed size, which says how many bytes follow it, and these bytes. A receiver
that never takes more than the open head or body needs hands over, whatever the cuts, exactly the
frames that have arrived; and a stream of frames is read back by head and length.
-/

namespace CppLinuxLearn.Lib

/-- The size of a head, and how many bytes a head says will follow it. -/
structure Framing where
  headLen : Nat
  bodyLen : Bytes → Nat
  headLen_pos : 0 < headLen

namespace Framing

variable (F : Framing)

/-- A whole frame with a body that is not empty. -/
def IsFrame (f : Bytes) : Prop :=
  F.headLen ≤ f.length ∧ 0 < F.bodyLen (f.take F.headLen) ∧
    f.length = F.headLen + F.bodyLen (f.take F.headLen)

instance (f : Bytes) : Decidable (F.IsFrame f) := inferInstanceAs (Decidable (_ ∧ _))

/-! ## Reassembly -/

/-- What an open frame lacks until its head, or the whole of it, is complete. -/
def need (part : Bytes) : Nat :=
  if part.length < F.headLen then F.headLen - part.length
  else F.headLen + F.bodyLen (part.take F.headLen) - part.length

/-- Some more bytes of an open frame: the frame that is open now, and the one that is complete. -/
def feed (part chunk : Bytes) : Bytes × List Bytes :=
  if F.IsFrame (part ++ chunk) then ([], [part ++ chunk]) else (part ++ chunk, [])

def feedAll (part : Bytes) : List Bytes → Bytes × List Bytes
  | [] => (part, [])
  | c :: cs => ((feedAll (F.feed part c).1 cs).1, (F.feed part c).2 ++ (feedAll (F.feed part c).1 cs).2)

/-- No chunk is empty or has more than was needed. -/
def Fits (part : Bytes) : List Bytes → Prop
  | [] => True
  | c :: cs => c ≠ [] ∧ c.length ≤ F.need part ∧ Fits (F.feed part c).1 cs

section
variable {F} {part chunk : Bytes}

theorem feed_lt (h : chunk.length < F.need part) :
    F.feed part chunk = (part ++ chunk, []) ∧
      F.need (part ++ chunk) = F.need part - chunk.length ∧
      ((part ++ chunk).length < F.headLen ↔ part.length < F.headLen) := by
  rw [need] at h
  by_cases hhead : part.length < F.headLen
  · rw [if_pos hhead] at h
    have hlt : (part ++ chunk).length < F.headLen := by
      rw [List.length_append]
      omega
    have hopen : ¬ F.IsFrame (part ++ chunk) := fun hf => by
      have := hf.1
      omega
    refine ⟨by rw [feed, if_neg hopen], ?_, iff_of_true hlt hhead⟩
    rw [need, if_pos hlt, need, if_pos hhead, List.length_append]
    omega
  · rw [if_neg hhead] at h
    have hlt : ¬ (part ++ chunk).length < F.headLen := by
      rw [List.length_append]
      omega
    have htake : (part ++ chunk).take F.headLen = part.take F.headLen :=
      List.take_append_of_le_length (by omega)
    have hopen : ¬ F.IsFrame (part ++ chunk) := by
      rintro ⟨-, -, hlen⟩
      rw [htake, List.length_append] at hlen
      omega
    refine ⟨by rw [feed, if_neg hopen], ?_, iff_of_false hlt hhead⟩
    rw [need, if_neg hlt, need, if_neg hhead, htake, List.length_append]
    omega

theorem feed_head (hhead : part.length < F.headLen) (h : chunk.length = F.need part) :
    F.feed part chunk = (part ++ chunk, []) ∧ (part ++ chunk).length = F.headLen ∧
      F.need (part ++ chunk) = F.bodyLen (part ++ chunk) := by
  rw [need, if_pos hhead] at h
  have hlen : (part ++ chunk).length = F.headLen := by
    rw [List.length_append]
    omega
  have htake : (part ++ chunk).take F.headLen = part ++ chunk :=
    List.take_of_length_le (by omega)
  have hopen : ¬ F.IsFrame (part ++ chunk) := by
    rintro ⟨-, hpos, heq⟩
    omega
  refine ⟨by rw [feed, if_neg hopen], hlen, ?_⟩
  rw [need, if_neg (by omega), htake]
  omega

theorem feed_body (hhead : F.headLen ≤ part.length) (h : chunk.length = F.need part)
    (hne : chunk ≠ []) : F.feed part chunk = ([], [part ++ chunk]) ∧ F.IsFrame (part ++ chunk) := by
  have hpos := List.length_pos_iff.2 hne
  rw [need, if_neg (by omega)] at h
  have htake : (part ++ chunk).take F.headLen = part.take F.headLen :=
    List.take_append_of_le_length hhead
  have hframe : F.IsFrame (part ++ chunk) := by
    rw [IsFrame, htake, List.length_append]
    omega
  exact ⟨by rw [feed, if_pos hframe], hframe⟩

variable (F) in
/-- The part is no longer than its head, if it is there, says. -/
def NotOver (part : Bytes) : Prop :=
  F.headLen ≤ part.length → part.length ≤ F.headLen + F.bodyLen (part.take F.headLen)

theorem notOver_nil : F.NotOver [] := fun h => absurd h (Nat.not_le.2 F.headLen_pos)

theorem NotOver.feed (hpart : F.NotOver part) (h : chunk.length ≤ F.need part) :
    F.NotOver (F.feed part chunk).1 := by
  rw [Framing.feed]
  split
  · exact notOver_nil
  · intro hhead
    rw [List.length_append] at hhead ⊢
    rw [need] at h
    split at h
    · omega
    · have hle : F.headLen ≤ part.length := by omega
      have := hpart hle
      rw [List.take_append_of_le_length hle]
      omega

/-- What is there and what is needed make a head, or a whole frame. -/
theorem NotOver.length_add_need (hpart : F.NotOver part) :
    part.length + F.need part =
      if part.length < F.headLen then F.headLen else F.headLen + F.bodyLen (part.take F.headLen) := by
  rw [need]
  split
  · omega
  · have := hpart (by omega)
    omega

end

/-- The items of a stream whose last byte is among the first `n`. -/
def arrived {T : Type} (size : T → Nat) : List T → Nat → List T
  | [], _ => []
  | x :: xs, n => if size x ≤ n then x :: arrived size xs (n - size x) else []

theorem arrived_map {S T : Type} (g : S → T) (size : T → Nat) (xs : List S) (n : Nat) :
    arrived size (xs.map g) n = (arrived (fun x => size (g x)) xs n).map g := by
  induction xs generalizing n with
  | nil => rfl
  | cons x xs ih =>
    rw [List.map_cons, arrived, arrived, ih]
    split <;> rfl

theorem mem_of_mem_arrived {T : Type} {size : T → Nat} {xs : List T} {n : Nat} {x : T}
    (h : x ∈ arrived size xs n) : x ∈ xs := by
  induction xs generalizing n with
  | nil => cases h
  | cons y ys ih =>
    rw [arrived] at h
    split at h
    · rcases List.mem_cons.1 h with rfl | h
      · exact List.mem_cons_self
      · exact List.mem_cons_of_mem _ (ih h)
    · cases h

theorem arrived_flatten (fs : List Bytes) : arrived List.length fs fs.flatten.length = fs := by
  induction fs with
  | nil => rfl
  | cons f fs ih =>
    have hle : f.length ≤ (f :: fs).flatten.length := by simp
    have hsub : (f :: fs).flatten.length - f.length = fs.flatten.length := by simp
    rw [arrived, if_pos hle, hsub, ih]

theorem feedAll_flatten (part : Bytes) (cs : List Bytes) :
    (F.feedAll part cs).2.flatten ++ (F.feedAll part cs).1 = part ++ cs.flatten := by
  induction cs generalizing part with
  | nil => simp [feedAll]
  | cons c cs ih =>
    have hfeed : (F.feed part c).2.flatten ++ (F.feed part c).1 = part ++ c := by
      rw [feed]
      split <;> simp
    rw [feedAll, List.flatten_append, List.append_assoc, ih, ← List.append_assoc, hfeed,
      List.append_assoc, List.flatten_cons]

/-- `part` is a proper initial part of the first of the frames. -/
def Inside (part : Bytes) : List Bytes → Prop
  | [] => part = []
  | f :: _ => part <+: f ∧ part.length < f.length

variable {F}

theorem inside_nil {fs : List Bytes} (hfs : ∀ f ∈ fs, F.IsFrame f) : Inside [] fs := by
  cases fs with
  | nil => rfl
  | cons f fs =>
    obtain ⟨-, hpos, hlen⟩ := hfs f List.mem_cons_self
    refine ⟨List.nil_prefix, ?_⟩
    rw [List.length_nil]
    omega

theorem not_isFrame_of_prefix {f q : Bytes} (hf : F.IsFrame f) (hq : q <+: f)
    (hlt : q.length < f.length) : ¬ F.IsFrame q := by
  rintro ⟨hhead, -, hlen⟩
  obtain ⟨r, rfl⟩ := hq
  have htake : (q ++ r).take F.headLen = q.take F.headLen := List.take_append_of_le_length hhead
  have := hf.2.2
  rw [htake] at this
  omega

theorem need_le {f q : Bytes} (hf : F.IsFrame f) (hq : q <+: f) : q.length + F.need q ≤ f.length ∨
    q.length = f.length := by
  obtain ⟨r, rfl⟩ := hq
  obtain ⟨hhead, -, hlen⟩ := hf
  rw [need]
  split
  · left
    omega
  · have htake : (q ++ r).take F.headLen = q.take F.headLen := List.take_append_of_le_length (by omega)
    rw [htake] at hlen
    have hsum : (q ++ r).length = q.length + r.length := List.length_append
    omega

/-- **Whatever the cuts, the frames handed over are those that have arrived.** -/
theorem feedAll_arrived {part : Bytes} {cs fs : List Bytes} (hfs : ∀ f ∈ fs, F.IsFrame f)
    (hin : Inside part fs) (hfit : F.Fits part cs) (hcs : part ++ cs.flatten <+: fs.flatten) :
    (F.feedAll part cs).2 = arrived List.length fs (part ++ cs.flatten).length := by
  induction cs generalizing part fs with
  | nil =>
    cases fs with
    | nil => rfl
    | cons f fs =>
      have hlt : ¬ f.length ≤ part.length := by
        have := hin.2
        omega
      simp [feedAll, arrived, hlt]
  | cons c cs ih =>
    obtain ⟨hne, hneed, hfit⟩ := hfit
    have hc : 0 < c.length := List.length_pos_iff.2 hne
    cases fs with
    | nil =>
      have := hcs.length_le
      simp only [List.flatten_cons, List.length_append, List.flatten_nil, List.length_nil] at this
      omega
    | cons f fs =>
      obtain ⟨hpre, hlt⟩ := hin
      have hf := hfs f List.mem_cons_self
      have hle : (part ++ c).length ≤ f.length := by
        have := need_le hf hpre
        rw [List.length_append]
        omega
      have hq : part ++ c <+: f := by
        have h1 : part ++ c <+: (f :: fs).flatten := by
          refine List.IsPrefix.trans ?_ hcs
          rw [List.flatten_cons, ← List.append_assoc]
          exact List.prefix_append _ _
        exact List.prefix_of_prefix_length_le h1 (List.prefix_append _ _) hle
      rw [List.flatten_cons, ← List.append_assoc] at hcs ⊢
      by_cases heq : (part ++ c).length = f.length
      · -- the frame is complete
        have hwhole := hq.eq_of_length heq
        have hfeed : F.feed part c = ([], [f]) := by rw [feed, hwhole, if_pos hf]
        rw [hfeed] at hfit
        rw [hwhole] at hcs ⊢
        have htail := ih (fun g hg => hfs g (List.mem_cons_of_mem _ hg))
          (inside_nil fun g hg => hfs g (List.mem_cons_of_mem _ hg)) hfit
          ((List.prefix_append_right_inj f).1 hcs)
        have hlen : f.length ≤ (f ++ cs.flatten).length := by simp
        rw [feedAll, hfeed, htail, arrived, if_pos hlen]
        simp
      · have hopen := not_isFrame_of_prefix hf hq (by omega)
        have hfeed : F.feed part c = (part ++ c, []) := by rw [feed, if_neg hopen]
        rw [hfeed] at hfit
        have htail := ih hfs ⟨hq, by omega⟩ hfit hcs
        rw [feedAll, hfeed, htail, List.nil_append]

theorem arrived_prefix {T : Type} (size : T → Nat) (xs : List T) (n : Nat) : arrived size xs n <+: xs := by
  induction xs generalizing n with
  | nil => exact List.nil_prefix
  | cons x xs ih =>
    rw [arrived]
    split
    · exact (List.prefix_cons_inj x).2 (ih _)
    · exact List.nil_prefix

theorem feedAll_map {T : Type} {f : T → Bytes} {xs : List T} (hxs : ∀ x ∈ xs, F.IsFrame (f x)) {cs : List Bytes}
    (hfit : F.Fits [] cs) (hcs : cs.flatten <+: (xs.map f).flatten) : ∃ first, first <+: xs ∧
      (F.feedAll [] cs).2 = first.map f ∧ (cs.flatten = (xs.map f).flatten → first = xs) := by
  have hframes : ∀ g ∈ xs.map f, F.IsFrame g := by
    intro g hg
    obtain ⟨x, hx, rfl⟩ := List.mem_map.1 hg
    exact hxs x hx
  have hout := feedAll_arrived hframes (inside_nil hframes) hfit hcs
  rw [List.nil_append, arrived_map] at hout
  have hfirst : arrived (fun x => (f x).length) xs cs.flatten.length <+: xs := arrived_prefix _ _ _
  refine ⟨_, hfirst, hout, fun hall => ?_⟩
  have hwhole := arrived_flatten (xs.map f)
  rw [← hall, arrived_map] at hwhole
  have hlen := congrArg List.length hwhole
  rw [List.length_map, List.length_map] at hlen
  exact hfirst.eq_of_length hlen

theorem need_pos {part f s : Bytes} (hf : F.IsFrame f) (hpre : part <+: f ++ s) (hnot : F.NotOver part)
    (hopen : ¬ F.IsFrame part) : 0 < F.need part := by
  rw [need]
  split
  · omega
  · rename_i hhead
    rw [not_lt] at hhead
    obtain ⟨hle, hpos, hlen⟩ := hf
    have htake : part.take F.headLen = f.take F.headLen := by
      obtain ⟨r, hr⟩ := hpre
      have h := congrArg (List.take F.headLen) hr
      rwa [List.take_append_of_le_length hhead, List.take_append_of_le_length hle] at h
    have hover := hnot hhead
    rw [htake] at hover ⊢
    by_contra hneed
    exact hopen ⟨hhead, by rw [htake]; exact hpos, by rw [htake]; omega⟩

theorem feedAll_whole {cs fs : List Bytes} (hfs : ∀ f ∈ fs, F.IsFrame f) (hfit : F.Fits [] cs)
    (hcs : cs.flatten = fs.flatten) : F.feedAll [] cs = ([], fs) := by
  have hout := feedAll_arrived hfs (inside_nil hfs) hfit (by rw [List.nil_append, hcs])
  rw [List.nil_append, hcs, arrived_flatten] at hout
  have hflat := F.feedAll_flatten [] cs
  rw [hout, List.nil_append, hcs] at hflat
  exact Prod.ext (List.append_right_eq_self.1 hflat) hout

theorem feedAll_append (part : Bytes) (cs ds : List Bytes) :
    F.feedAll part (cs ++ ds) = ((F.feedAll (F.feedAll part cs).1 ds).1,
      (F.feedAll part cs).2 ++ (F.feedAll (F.feedAll part cs).1 ds).2) := by
  induction cs generalizing part with
  | nil => simp [feedAll]
  | cons c cs ih => simp [feedAll, ih]

theorem fits_append {part : Bytes} {cs ds : List Bytes} :
    F.Fits part (cs ++ ds) ↔ F.Fits part cs ∧ F.Fits (F.feedAll part cs).1 ds := by
  induction cs generalizing part with
  | nil => simp [Fits, feedAll]
  | cons c cs ih => simp [Fits, feedAll, ih, and_assoc]

theorem need_of_isFrame {part chunk : Bytes} (hneed : chunk.length ≤ F.need part) (hframe : F.IsFrame (part ++ chunk)) :
    F.headLen ≤ part.length ∧ chunk.length = F.need part := by
  rcases hneed.lt_or_eq with hlt | hall
  · obtain ⟨hfeed, -, -⟩ := feed_lt hlt
    rw [feed, if_pos hframe] at hfeed
    cases (Prod.mk.inj hfeed).2
  · refine ⟨?_, hall⟩
    by_contra hhead
    obtain ⟨hfeed, -, -⟩ := feed_head (not_le.1 hhead) hall
    rw [feed, if_pos hframe] at hfeed
    cases (Prod.mk.inj hfeed).2

theorem feedAll_last {cs fs : List Bytes} {c f : Bytes} (hfs : ∀ g ∈ fs ++ [f], F.IsFrame g)
    (hfit : F.Fits [] (cs ++ [c])) (hcs : (cs ++ [c]).flatten = (fs ++ [f]).flatten) :
    (F.feedAll [] cs).1 ++ c = f ∧ F.headLen ≤ (F.feedAll [] cs).1.length ∧ c.length = F.need (F.feedAll [] cs).1 := by
  have hwhole := feedAll_whole hfs hfit hcs
  obtain ⟨-, hne, hneed, -⟩ := fits_append.1 hfit
  rw [feedAll_append] at hwhole
  obtain ⟨hrest, hout⟩ := Prod.mk.inj hwhole
  simp only [feedAll, List.append_nil] at hrest hout
  rw [feed] at hrest hout
  by_cases hframe : F.IsFrame ((F.feedAll [] cs).1 ++ c)
  · rw [if_pos hframe] at hout
    exact ⟨(List.append_singleton_inj.1 hout).2, need_of_isFrame hneed hframe⟩
  · -- else the last chunk would stay open
    rw [if_neg hframe] at hrest
    exact absurd (List.append_eq_nil_iff.1 hrest).2 hne

/-! ## The frames of a stream -/

variable (F) in
/-- Cut the frames that start the stream, at most `fuel` of them, up to a head that says nothing follows. -/
def framesFrom : Nat → Bytes → List Bytes
  | 0, _ => []
  | fuel + 1, s =>
    let n := F.headLen + F.bodyLen (s.take F.headLen)
    if F.headLen < n ∧ n ≤ s.length then s.take n :: framesFrom fuel (s.drop n) else []

variable (F) in
/-- The complete frames that start the stream. -/
def frames (s : Bytes) : List Bytes := F.framesFrom s.length s

theorem framesFrom_frame {f : Bytes} (hf : F.IsFrame f) (fuel : Nat) (s : Bytes) :
    F.framesFrom (fuel + 1) (f ++ s) = f :: F.framesFrom fuel s := by
  obtain ⟨hhead, hpos, hlen⟩ := hf
  have htake : (f ++ s).take F.headLen = f.take F.headLen := List.take_append_of_le_length hhead
  have hin : F.headLen < F.headLen + F.bodyLen (f.take F.headLen) ∧
      F.headLen + F.bodyLen (f.take F.headLen) ≤ (f ++ s).length := by
    rw [List.length_append]
    omega
  rw [framesFrom, htake, if_pos hin, ← hlen, List.take_left, List.drop_left]

theorem framesFrom_open {part : Bytes} (hnot : F.NotOver part) (hopen : ¬ F.IsFrame part) (fuel : Nat) :
    F.framesFrom fuel part = [] := by
  cases fuel with
  | zero => rfl
  | succ fuel =>
    refine if_neg ?_
    rintro ⟨hpos, hle⟩
    have hhead : F.headLen ≤ part.length := by omega
    have := hnot hhead
    exact hopen ⟨hhead, by omega, by omega⟩

theorem framesFrom_append {fs : List Bytes} (hfs : ∀ f ∈ fs, F.IsFrame f) {fuel : Nat} (hfuel : fs.length ≤ fuel)
    (s : Bytes) : F.framesFrom fuel (fs.flatten ++ s) = fs ++ F.framesFrom (fuel - fs.length) s := by
  induction fs generalizing fuel with
  | nil => rfl
  | cons f fs ih =>
    obtain ⟨fuel, rfl⟩ : ∃ m, fuel = m + 1 := ⟨fuel - 1, by rw [List.length_cons] at hfuel; omega⟩
    rw [List.flatten_cons, List.append_assoc, framesFrom_frame (hfs f List.mem_cons_self),
      ih (fun g hg => hfs g (List.mem_cons_of_mem _ hg)) (Nat.le_of_succ_le_succ hfuel), List.length_cons,
      Nat.add_sub_add_right, List.cons_append]

theorem length_le_flatten {fs : List Bytes} (hfs : ∀ f ∈ fs, F.IsFrame f) : fs.length ≤ fs.flatten.length := by
  induction fs with
  | nil => exact Nat.zero_le _
  | cons f fs ih =>
    obtain ⟨hhead, -, -⟩ := hfs f List.mem_cons_self
    have hpos := F.headLen_pos
    have := ih fun g hg => hfs g (List.mem_cons_of_mem _ hg)
    rw [List.length_cons, List.flatten_cons, List.length_append]
    omega

theorem not_isFrame_nil : ¬ F.IsFrame [] := fun h => absurd h.1 (Nat.not_le.2 F.headLen_pos)

/-- What is handed over is frames, and what is left is open. -/
theorem feedAll_open {part : Bytes} {cs : List Bytes} (hfit : F.Fits part cs) (hnot : F.NotOver part)
    (hopen : ¬ F.IsFrame part) : (∀ f ∈ (F.feedAll part cs).2, F.IsFrame f) ∧
      F.NotOver (F.feedAll part cs).1 ∧ ¬ F.IsFrame (F.feedAll part cs).1 := by
  induction cs generalizing part with
  | nil => exact ⟨nofun, hnot, hopen⟩
  | cons c cs ih =>
    obtain ⟨-, hneed, hfit⟩ := hfit
    have hstep : (∀ f ∈ (F.feed part c).2, F.IsFrame f) ∧ ¬ F.IsFrame (F.feed part c).1 := by
      rw [feed]
      split
      · rename_i hframe
        exact ⟨fun f hf => List.mem_singleton.1 hf ▸ hframe, not_isFrame_nil⟩
      · rename_i hframe
        exact ⟨nofun, hframe⟩
    obtain ⟨hfs, hrest⟩ := ih hfit (hnot.feed hneed) hstep.2
    exact ⟨fun f hf => (List.mem_append.1 hf).elim (hstep.1 f) (hfs f), hrest⟩

theorem frames_append {cs : List Bytes} (hfit : F.Fits [] cs) (s : Bytes) :
    ∃ fuel, F.frames (cs.flatten ++ s) = (F.feedAll [] cs).2 ++ F.framesFrom fuel ((F.feedAll [] cs).1 ++ s) := by
  obtain ⟨hfs, -, -⟩ := feedAll_open hfit notOver_nil not_isFrame_nil
  have hflat := F.feedAll_flatten [] cs
  rw [List.nil_append] at hflat
  have hle : (F.feedAll [] cs).2.length ≤ (cs.flatten ++ s).length := by
    have := length_le_flatten hfs
    rw [← hflat, List.length_append, List.length_append]
    omega
  refine ⟨(cs.flatten ++ s).length - (F.feedAll [] cs).2.length, ?_⟩
  rw [← framesFrom_append hfs hle, ← List.append_assoc, hflat]
  rfl

/-- **Whatever the cuts, what is handed over is the frames of the stream.** -/
theorem feedAll_frames {cs : List Bytes} (hfit : F.Fits [] cs) : (F.feedAll [] cs).2 = F.frames cs.flatten := by
  obtain ⟨-, hnot, hopen⟩ := feedAll_open hfit notOver_nil not_isFrame_nil
  obtain ⟨fuel, heq⟩ := frames_append hfit []
  rw [List.append_nil, List.append_nil, framesFrom_open hnot hopen, List.append_nil] at heq
  exact heq.symm

/-! ## Reading a stream back -/

variable (F)

/-- Cut a stream by head and length, at most `fuel` times; `none` where it ends inside a frame. -/
def splitFrom (fuel : Nat) (s : Bytes) : Option (List (Bytes × Bytes)) :=
  match fuel, s with
  | _, [] => some []
  | 0, _ => none
  | fuel + 1, s =>
    let body := s.drop F.headLen
    let n := F.bodyLen (s.take F.headLen)
    if F.headLen ≤ s.length ∧ n ≤ body.length then
      (splitFrom fuel (body.drop n)).map ((s.take F.headLen, body.take n) :: ·)
    else none

/-- The heads and bodies of a stream; no stream has more frames than bytes. -/
def split (s : Bytes) : Option (List (Bytes × Bytes)) := F.splitFrom s.length s

variable {F}

theorem splitFrom_succ {fuel : Nat} {s : Bytes} (hs : s ≠ []) :
    F.splitFrom (fuel + 1) s =
      if F.headLen ≤ s.length ∧ F.bodyLen (s.take F.headLen) ≤ (s.drop F.headLen).length then
        (F.splitFrom fuel ((s.drop F.headLen).drop (F.bodyLen (s.take F.headLen)))).map
          ((s.take F.headLen, (s.drop F.headLen).take (F.bodyLen (s.take F.headLen))) :: ·)
      else none := by
  rw [splitFrom]
  exact hs

theorem splitFrom_nil (fuel : Nat) : F.splitFrom fuel [] = some [] := by
  cases fuel <;> rfl

theorem splitFrom_eq_split {fuel : Nat} {s : Bytes} (h : s.length ≤ fuel) :
    F.splitFrom fuel s = F.split s := by
  induction hk : s.length using Nat.strong_induction_on generalizing s fuel with
  | _ k ih =>
    by_cases hs : s = []
    · rw [hs, split, splitFrom_nil, splitFrom_nil]
    · have hpos := List.length_pos_iff.2 hs
      obtain ⟨fuel, rfl⟩ : ∃ m, fuel = m + 1 := ⟨fuel - 1, by omega⟩
      obtain ⟨m, hm⟩ : ∃ m, s.length = m + 1 := ⟨s.length - 1, by omega⟩
      have hlen : ∀ n, ((s.drop F.headLen).drop n).length < s.length := by
        intro n
        have := F.headLen_pos
        simp only [List.length_drop]
        omega
      have hrest (n j : Nat) (hj : s.length ≤ j + 1) : F.splitFrom j ((s.drop F.headLen).drop n) =
          F.split ((s.drop F.headLen).drop n) := by
        have := hlen n
        exact ih _ (hk ▸ hlen n) (by omega) rfl
      rw [split, hm, splitFrom_succ hs, splitFrom_succ hs, hrest _ fuel h, hrest _ m hm.le]

theorem split_frame {f : Bytes} (hf : F.IsFrame f) (s : Bytes) :
    F.split (f ++ s) = (F.split s).map ((f.take F.headLen, f.drop F.headLen) :: ·) := by
  obtain ⟨hhead, hpos, hlen⟩ := hf
  obtain ⟨m, hm⟩ : ∃ m, (f ++ s).length = m + 1 :=
    ⟨(f ++ s).length - 1, by rw [List.length_append]; omega⟩
  have hne : f ++ s ≠ [] := by
    intro h
    rw [h] at hm
    cases hm
  have htake : (f ++ s).take F.headLen = f.take F.headLen := List.take_append_of_le_length hhead
  have hdrop : (f ++ s).drop F.headLen = f.drop F.headLen ++ s := List.drop_append_of_le_length hhead
  have hbody : (f.drop F.headLen).length = F.bodyLen (f.take F.headLen) := by
    rw [List.length_drop]
    omega
  have hle : F.headLen ≤ (f ++ s).length ∧
      F.bodyLen (f.take F.headLen) ≤ (f.drop F.headLen ++ s).length := by
    simp only [List.length_append, hbody]
    omega
  have hs : s.length ≤ m := by
    rw [List.length_append] at hm
    omega
  rw [split, hm, splitFrom_succ hne, htake, hdrop, if_pos hle, ← hbody, List.drop_left, List.take_left,
    splitFrom_eq_split hs]

theorem split_flatten_append {fs : List Bytes} (hfs : ∀ f ∈ fs, F.IsFrame f) (s : Bytes) :
    F.split (fs.flatten ++ s) =
      (F.split s).map ((fs.map fun f => (f.take F.headLen, f.drop F.headLen)) ++ ·) := by
  induction fs with
  | nil => simp
  | cons f fs ih =>
    have htail := ih fun g hg => hfs g (List.mem_cons_of_mem _ hg)
    rw [List.flatten_cons, List.append_assoc, split_frame (hfs f List.mem_cons_self), htail,
      Option.map_map]
    rfl

theorem split_eq_cons {s h b : Bytes} {l : List (Bytes × Bytes)} (heq : F.split s = some ((h, b) :: l)) :
    h = s.take F.headLen ∧ b.length = F.bodyLen h := by
  by_cases hs : s = []
  · rw [hs, split, splitFrom_nil] at heq
    cases heq
  · have hpos := List.length_pos_iff.2 hs
    obtain ⟨m, hm⟩ : ∃ m, s.length = m + 1 := ⟨s.length - 1, by omega⟩
    rw [split, hm, splitFrom_succ hs] at heq
    split at heq
    · obtain ⟨l', -, hcons⟩ := Option.map_eq_some_iff.1 heq
      cases hcons
      refine ⟨rfl, ?_⟩
      rw [List.length_take]
      omega
    · cases heq

end Framing

end CppLinuxLearn.Lib
