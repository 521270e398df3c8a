import CppLinuxLearn.Lib.Multipart

/-!
# The echo server

`ZmqServerEnd.cpp` of `zmqnet`. A round of `pollFunction` reads three frames, for the router id, the client id and
the data, whether they are of one message or not, and sends the data back. A frame is received into an array of
65536 bytes; what is copied out of the array is as long as the frame was. Each message has a round of its own exactly
if all but the last have three frames and the last no more (`apart_iff`).
-/

namespace CppLinuxLearn.ZmqTest

open Lib Multipart

/-- What the thread has of its own. The client that is made for a client id comes into no map. -/
structure ZmqServerEnd where
  recvarr : Bytes
  /-- the router ids, and the data behind them -/
  sent : List (Bytes × Bytes)

/-- `zmq_recv(zmqsocket, recvarr, 65536, 0)`: a frame is cut, and its whole size is returned, as an `int`. -/
def zmq_recv : Rd ZmqServerEnd Nat := do
  let f ← recv
  modifyOwn fun s => { s with recvarr := f.take 65536 ++ s.recvarr.drop f.length }
  return min f.length (2 ^ 31 - 1)

section
variable (past : Bytes → Nat → UInt8)

/-- `string(recvarr, nrecv)` -/
def string (nrecv : Nat) : Rd ZmqServerEnd Bytes := do
  let s ← own
  copyOut past s.recvarr nrecv

def Send (routerid : Bytes) (len : Nat) : Rd ZmqServerEnd Unit := do
  let data ← string past len
  modifyOwn fun s => { s with sent := s.sent ++ [(routerid, data)] }

/-- The data is printed and sent back. -/
def MsgHandle (routerid : Bytes) (nlen : Nat) : Rd ZmqServerEnd Unit := do
  let _ ← string past nlen
  Send past routerid nlen

/-- A round of the loop. -/
def pollRound : Rd ZmqServerEnd Unit := do
  let nrecv ← zmq_recv
  let routerid ← string past nrecv
  let nrecv ← zmq_recv
  let _ ← string past nrecv
  let nrecv ← zmq_recv
  MsgHandle past routerid nrecv

/-- So many rounds of `pollFunction`. -/
def pollFunction : Nat → Rd ZmqServerEnd Unit
  | 0 => pure ()
  | n + 1 => do
    pollRound past
    pollFunction n

end

/-- The server, when the messages have come. -/
def start (q : List Msg) : Proc ZmqServerEnd := ⟨⟨List.replicate 65536 0, []⟩, ⟨[], q, []⟩⟩

/-- Every message is handled as a unit, by a round of its own. -/
structure Apart (past : Bytes → Nat → UInt8) (q : List Msg) : Prop where
  /-- nothing is read outside of the array -/
  inside : ∀ n, (final ((pollFunction past n).run (start q))).sock.overreads = []
  /-- a round begins with each message; it takes this message and no other frame, and sends one with three frames
  back -/
  units : ∀ q₁ m q₂, q = q₁ ++ m :: q₂ → ∃ n s, (pollFunction past n).run (start q) = .ok () ⟨s, ⟨[], m :: q₂, []⟩⟩ ∧
    (∀ t k, (pollRound past).run ⟨s, ⟨[], m :: q₂, []⟩⟩ = .ok () ⟨t, k⟩ → k = ⟨[], q₂, []⟩) ∧
    ∀ r c d, m = ⟨r, [c, d]⟩ → ∃ t, (pollRound past).run ⟨s, ⟨[], m :: q₂, []⟩⟩ = .ok () ⟨t, ⟨[], q₂, []⟩⟩ ∧
      t.sent = s.sent ++ [(r, d)]

variable {past : Bytes → Nat → UInt8} {s : ZmqServerEnd} {f : Bytes} {k k' : Rcv}

/-! ## A frame -/

/-- The array has the size that it was allocated with. -/
def Sized (s : ZmqServerEnd) : Prop := s.recvarr.length = 65536

/-- `recvarr` after a frame. -/
def ZmqServerEnd.filled (s : ZmqServerEnd) (f : Bytes) : ZmqServerEnd :=
  { s with recvarr := f.take 65536 ++ s.recvarr.drop f.length }

theorem Sized.filled (h : Sized s) (f : Bytes) : Sized (s.filled f) := by
  have h : s.recvarr.length = 65536 := h
  show (f.take 65536 ++ s.recvarr.drop f.length).length = 65536
  rw [List.length_append, List.length_take, List.length_drop]
  omega

/-- The frame that comes next, and the receiver behind it. -/
inductive Next : Rcv → Bytes → Rcv → Prop
  | cons (f : Bytes) (fs : List Bytes) (q : List Msg) (o : List (Bytes × Nat)) : Next ⟨f :: fs, q, o⟩ f ⟨fs, q, o⟩
  | msg (m : Msg) (q : List Msg) (o : List (Bytes × Nat)) : Next ⟨[], m :: q, o⟩ m.head ⟨m.rest, q, o⟩

theorem run_zmq_recv (h : Next k f k') :
    zmq_recv.run ⟨s, k⟩ = .ok (min f.length (2 ^ 31 - 1)) ⟨s.filled f, k'⟩ := by
  cases h <;> rfl

theorem run_string (n : Nat) (k : Rcv) : (string past n).run ⟨s, k⟩ =
    .ok ((List.range n).map fun i => s.recvarr.getD i (past s.recvarr i))
      ⟨s, { k with overreads := if s.recvarr.length < n then k.overreads ++ [(s.recvarr, n)] else k.overreads }⟩ := rfl

theorem run_string_filled (hs : Sized s) (hf : f.length ≤ 65536) (k : Rcv) :
    (string past (min f.length (2 ^ 31 - 1))).run ⟨s.filled f, k⟩ = .ok f ⟨s.filled f, k⟩ := by
  have hsize : (s.filled f).recvarr.length = 65536 := hs.filled f
  have hmin : min f.length (2 ^ 31 - 1) = f.length := by omega
  have htake : (s.filled f).recvarr.take f.length = f := by
    show (f.take 65536 ++ s.recvarr.drop f.length).take f.length = f
    rw [List.take_of_length_le hf, List.take_left]
  rw [run_string, hmin, if_neg (by omega), copied_eq_take _ _ (by omega), htake]

theorem overreads_string (past : Bytes → Nat → UInt8) (hs : Sized s) (hf : 65536 < f.length) (k : Rcv) :
    (final ((string past (min f.length (2 ^ 31 - 1))).run ⟨s.filled f, k⟩)).sock.overreads ≠ [] := by
  have hsize : (s.filled f).recvarr.length = 65536 := hs.filled f
  rw [run_string, if_pos (by omega)]
  exact List.append_ne_nil_of_right_ne_nil _ (List.cons_ne_nil _ _)

/-- The frames that are still to be read. -/
def frames (k : Rcv) : List Bytes := k.cur ++ k.next.flatMap Msg.frames

theorem Next.frames_eq (h : Next k f k') : frames k = f :: frames k' := by
  cases h <;> rfl

theorem Next.overreads_eq (h : Next k f k') : k'.overreads = k.overreads := by
  cases h <;> rfl

theorem frames_eq_nil_or (k : Rcv) : frames k = [] ∨ ∃ f k', Next k f k' := by
  obtain ⟨cur, next, o⟩ := k
  cases cur with
  | cons f fs => exact .inr ⟨f, _, .cons f fs next o⟩
  | nil =>
    cases next with
    | nil => exact .inl rfl
    | cons m q => exact .inr ⟨m.head, _, .msg m q o⟩

theorem run_zmq_recv_none (h : frames k = []) : zmq_recv.run ⟨s, k⟩ = .error .blocked ⟨s, k⟩ := by
  obtain ⟨cur, next, o⟩ := k
  obtain ⟨rfl, hnext⟩ := List.append_eq_nil_iff.1 h
  cases next with
  | nil => rfl
  | cons m q => cases hnext

/-! ## What only logs, and what takes frames -/

theorem along_string {R : Proc ZmqServerEnd → Proc ZmqServerEnd → Prop} (hR : ReadOrder R) (n : Nat) :
    Along R (string past n) :=
  along_bind hR (fun p => hR.refl p) fun s => hR.copyOut past s.recvarr n

theorem logs_modifyOwn (g : ZmqServerEnd → ZmqServerEnd) : Along Logs (modifyOwn g) := fun _ => List.prefix_rfl

theorem logs_zmq_recv : Along Logs zmq_recv :=
  along_bind logs_readOrder logs_readOrder.recv fun _ =>
    along_bind logs_readOrder (logs_modifyOwn _) fun _ => along_pure logs_readOrder _

theorem logs_msgHandle (routerid : Bytes) (n : Nat) : Along Logs (MsgHandle past routerid n) :=
  along_bind logs_readOrder (along_string logs_readOrder n) fun _ =>
    along_bind logs_readOrder (along_string logs_readOrder n) fun _ => logs_modifyOwn _

theorem logs_pollRound : Along Logs (pollRound past) :=
  along_bind logs_readOrder logs_zmq_recv fun _ => along_bind logs_readOrder (along_string logs_readOrder _) fun _ =>
    along_bind logs_readOrder logs_zmq_recv fun _ => along_bind logs_readOrder (along_string logs_readOrder _) fun _ =>
      along_bind logs_readOrder logs_zmq_recv fun _ => logs_msgHandle _ _

theorem logs_pollFunction (past : Bytes → Nat → UInt8) (n : Nat) : Along Logs (pollFunction past n) := by
  induction n with
  | zero => exact along_pure logs_readOrder ()
  | succ n ih => exact along_bind logs_readOrder logs_pollRound fun _ => ih

theorem takes_zmq_recv : Takes 1 zmq_recv :=
  takes_bind takes_recv fun _ => takes_bind (takes_modifyOwn _) fun _ => takes_pure _

theorem takes_string (n : Nat) : Takes 0 (string past n) := takes_bind takes_own fun _ => takes_copyOut _ _ _

theorem takes_pollRound : Takes 3 (pollRound past) :=
  takes_bind takes_zmq_recv fun _ => takes_bind (takes_string _) fun _ => takes_bind takes_zmq_recv fun _ =>
    takes_bind (takes_string _) fun _ => takes_bind takes_zmq_recv fun _ => takes_bind (takes_string _) fun _ =>
      takes_bind (takes_string _) fun _ => takes_modifyOwn _

theorem takes_pollFunction (n : Nat) : Takes (n * 3) (pollFunction past n) := by
  induction n with
  | zero => exact (Nat.zero_mul 3).symm ▸ takes_pure ()
  | succ n ih =>
    rw [Nat.succ_mul, Nat.add_comm]
    exact takes_bind takes_pollRound fun _ => ih

/-! ## A round -/

/-- A frame is received and read out of the array: there is none, or it fits, or it is read beyond the array. -/
theorem read_cases (past : Bytes → Nat → UInt8) {α : Type} {g : Nat → Bytes → Rd ZmqServerEnd α}
    (hg : ∀ n a, Along Logs (g n a)) (hs : Sized s) (k : Rcv) :
    (frames k = [] ∧ (zmq_recv >>= fun n => string past n >>= g n).run ⟨s, k⟩ = .error .blocked ⟨s, k⟩) ∨
    (∃ f k', Next k f k' ∧ f.length ≤ 65536 ∧ (zmq_recv >>= fun n => string past n >>= g n).run ⟨s, k⟩ =
      (g (min f.length (2 ^ 31 - 1)) f).run ⟨s.filled f, k'⟩) ∨
    ∃ f k', Next k f k' ∧ ¬ f.length ≤ 65536 ∧
      (final ((zmq_recv >>= fun n => string past n >>= g n).run ⟨s, k⟩)).sock.overreads ≠ [] := by
  rcases frames_eq_nil_or k with hnil | ⟨f, k', h⟩
  · refine .inl ⟨hnil, ?_⟩
    rw [EStateM.run_bind, run_zmq_recv_none hnil]
  · have hrecv : (zmq_recv >>= fun n => string past n >>= g n).run ⟨s, k⟩ =
        (string past (min f.length (2 ^ 31 - 1)) >>= g (min f.length (2 ^ 31 - 1))).run ⟨s.filled f, k'⟩ := by
      rw [EStateM.run_bind, run_zmq_recv h]
    rw [hrecv]
    by_cases hf : f.length ≤ 65536
    · refine .inr (.inl ⟨f, k', h, hf, ?_⟩)
      rw [EStateM.run_bind, run_string_filled hs hf]
    · have hne := overreads_string past hs (not_le.1 hf) k'
      exact .inr (.inr ⟨f, k', h, hf, overreads_bind_ne_nil hne (hg _)⟩)

/-- A round behind the client id. -/
def dataRound (past : Bytes → Nat → UInt8) (routerid : Bytes) : Rd ZmqServerEnd Unit := do
  let nrecv ← zmq_recv
  MsgHandle past routerid nrecv

/-- A round behind the router id. -/
def clientRound (past : Bytes → Nat → UInt8) (routerid : Bytes) : Rd ZmqServerEnd Unit := do
  let nrecv ← zmq_recv
  let _ ← string past nrecv
  dataRound past routerid

theorem logs_dataRound (past : Bytes → Nat → UInt8) (routerid : Bytes) : Along Logs (dataRound past routerid) :=
  along_bind logs_readOrder logs_zmq_recv fun _ => logs_msgHandle routerid _

theorem logs_clientRound (past : Bytes → Nat → UInt8) (routerid : Bytes) : Along Logs (clientRound past routerid) :=
  along_bind logs_readOrder logs_zmq_recv fun _ => along_bind logs_readOrder (along_string logs_readOrder _) fun _ =>
    logs_dataRound past routerid

theorem run_send {routerid : Bytes} (hs : Sized s) (hf : f.length ≤ 65536) :
    (Send past routerid (min f.length (2 ^ 31 - 1))).run ⟨s.filled f, k⟩ =
      .ok () ⟨{ s.filled f with sent := s.sent ++ [(routerid, f)] }, k⟩ := by
  rw [Send, EStateM.run_bind, run_string_filled hs hf]
  rfl

/-- What a round does: it takes three frames that fit and sends the third one back to the first, or it comes to the end
of the frames, or it reads beyond the array. -/
theorem pollRound_cases (past : Bytes → Nat → UInt8) (hs : Sized s) (k : Rcv) :
    (∃ a b c k' t, frames k = a :: b :: c :: frames k' ∧ k'.overreads = k.overreads ∧
      (a.length ≤ 65536 ∧ b.length ≤ 65536 ∧ c.length ≤ 65536) ∧
      (pollRound past).run ⟨s, k⟩ = .ok () ⟨t, k'⟩ ∧ Sized t) ∨
    ((∀ f ∈ frames k, f.length ≤ 65536) ∧ ∃ t k', (pollRound past).run ⟨s, k⟩ = .error .blocked ⟨t, k'⟩ ∧
      k'.overreads = k.overreads) ∨
    (∃ f ∈ frames k, ¬ f.length ≤ 65536) ∧ (final ((pollRound past).run ⟨s, k⟩)).sock.overreads ≠ [] := by
  have hround : pollRound past = zmq_recv >>= fun n => string past n >>= clientRound past := rfl
  rw [hround]
  rcases read_cases past (fun _ => logs_clientRound past) hs k with
    ⟨hnil, hrun⟩ | ⟨a, k₁, h₁, ha, hrun⟩ | ⟨a, k₁, h₁, ha, hne⟩
  · exact .inr (.inl ⟨hnil ▸ List.forall_mem_nil _, s, k, hrun, rfl⟩)
  · have hsa := hs.filled a
    have hclient : clientRound past a = zmq_recv >>= fun n => string past n >>= fun _ => dataRound past a := rfl
    rw [hrun, h₁.frames_eq, ← h₁.overreads_eq, hclient]
    rcases read_cases past (fun _ _ => logs_dataRound past a) hsa k₁ with
      ⟨hnil, hrun₁⟩ | ⟨b, k₂, h₂, hb, hrun₁⟩ | ⟨b, k₂, h₂, hb, hne⟩
    · exact .inr (.inl ⟨hnil ▸ List.forall_mem_singleton.2 ha, _, k₁, hrun₁, rfl⟩)
    · have hsb := hsa.filled b
      have hdata : dataRound past a = zmq_recv >>= fun n => string past n >>= fun _ => Send past a n := rfl
      have hlogs : ∀ n, Along Logs (Send past a n) := fun n =>
        along_bind logs_readOrder (along_string logs_readOrder n) fun _ => logs_modifyOwn _
      rw [hrun₁, h₂.frames_eq, ← h₂.overreads_eq, hdata]
      rcases read_cases past (fun n _ => hlogs n) hsb k₂ with
        ⟨hnil, hrun₂⟩ | ⟨c, k₃, h₃, hc, hrun₂⟩ | ⟨c, k₃, h₃, hc, hne⟩
      · refine .inr (.inl ⟨?_, _, k₂, hrun₂, rfl⟩)
        rw [hnil]
        exact List.forall_mem_cons.2 ⟨ha, List.forall_mem_singleton.2 hb⟩
      · rw [hrun₂, h₃.frames_eq, ← h₃.overreads_eq]
        exact .inl ⟨a, b, c, k₃, _, rfl, rfl, ⟨ha, hb, hc⟩, run_send hsb hc, hsb.filled c⟩
      · exact .inr (.inr ⟨⟨c, by simp [h₃.frames_eq], hc⟩, hne⟩)
    · exact .inr (.inr ⟨⟨b, by simp [h₂.frames_eq], hb⟩, hne⟩)
  · exact .inr (.inr ⟨⟨a, by simp [h₁.frames_eq], ha⟩, hne⟩)

theorem run_pollRound (past : Bytes → Nat → UInt8) (hs : Sized s) {a b c : Bytes} {k₁ k₂ k₃ : Rcv} (h₁ : Next k a k₁)
    (h₂ : Next k₁ b k₂) (h₃ : Next k₂ c k₃) (ha : a.length ≤ 65536) (hb : b.length ≤ 65536) (hc : c.length ≤ 65536) :
    ∃ t, (pollRound past).run ⟨s, k⟩ = .ok () ⟨t, k₃⟩ ∧ Sized t ∧ t.sent = s.sent ++ [(a, c)] := by
  have hsa := hs.filled a
  have hsb := hsa.filled b
  refine ⟨{ ((s.filled a).filled b).filled c with sent := s.sent ++ [(a, c)] }, ?_, hsb.filled c, rfl⟩
  simp only [pollRound, MsgHandle, EStateM.run_bind, run_zmq_recv h₁, run_zmq_recv h₂, run_zmq_recv h₃,
    run_string_filled hs ha, run_string_filled hsa hb, run_string_filled hsb hc, run_send hsb hc]
  rfl

/-! ## The loop -/

theorem frames_eq_three {m : Msg} (h : m.frames.length = 3) : ∃ r c d, m = ⟨r, [c, d]⟩ := by
  obtain ⟨r, rest⟩ := m
  rw [Msg.frames, List.length_cons] at h
  rcases rest with _ | ⟨c, _ | ⟨d, _ | ⟨e, rest⟩⟩⟩
  · cases h
  · cases h
  · exact ⟨r, c, d, rfl⟩
  · simp only [List.length_cons] at h
    omega

theorem run_pollFunction_messages (past : Bytes → Nat → UInt8) (q : List Msg) (o : List (Bytes × Nat)) {ms : List Msg}
    (hs : Sized s) (hthree : ∀ m ∈ ms, m.frames.length = 3) (hfit : ∀ m ∈ ms, ∀ f ∈ m.frames, f.length ≤ 65536) :
    ∃ t, (pollFunction past ms.length).run ⟨s, ⟨[], ms ++ q, o⟩⟩ = .ok () ⟨t, ⟨[], q, o⟩⟩ ∧ Sized t := by
  induction ms generalizing s with
  | nil => exact ⟨s, rfl, hs⟩
  | cons m ms ih =>
    obtain ⟨hm, hms⟩ := List.forall_mem_cons.1 hthree
    obtain ⟨hmfit, hmsfit⟩ := List.forall_mem_cons.1 hfit
    obtain ⟨r, c, d, rfl⟩ := frames_eq_three hm
    simp only [Msg.frames, List.forall_mem_cons] at hmfit
    obtain ⟨hr, hc, hd, -⟩ := hmfit
    obtain ⟨t, hround, ht, -⟩ := run_pollRound past hs (.msg ⟨r, [c, d]⟩ (ms ++ q) o) (.cons c [d] (ms ++ q) o)
      (.cons d [] (ms ++ q) o) hr hc hd
    obtain ⟨u, hrest, hu⟩ := ih ht hms hmsfit
    refine ⟨u, ?_, hu⟩
    rw [List.length_cons, pollFunction, EStateM.run_bind, List.cons_append, hround]
    exact hrest

theorem sized_pollFunction {n : Nat} {t : ZmqServerEnd} (hs : Sized s) (hfit : ∀ f ∈ frames k, f.length ≤ 65536)
    (h : (pollFunction past n).run ⟨s, k⟩ = .ok () ⟨t, k'⟩) : Sized t := by
  induction n generalizing s k with
  | zero =>
    cases h
    exact hs
  | succ n ih =>
    rw [pollFunction, EStateM.run_bind] at h
    rcases pollRound_cases past hs k with ⟨a, b, c, k₁, u, hframes, -, -, hrun, hu⟩ | ⟨-, u, k₁, hrun, -⟩ |
      ⟨⟨f, hf, hlong⟩, -⟩
    · rw [hrun] at h
      exact ih hu (fun f hf => hfit f (by simp [hframes, hf])) h
    · rw [hrun] at h
      cases h
    · exact absurd (hfit f hf) hlong

theorem overreads_pollFunction (past : Bytes → Nat → UInt8) (n : Nat) (hs : Sized s) {k : Rcv}
    (hfit : ∀ f ∈ frames k, f.length ≤ 65536) :
    (final ((pollFunction past n).run ⟨s, k⟩)).sock.overreads = k.overreads := by
  induction n generalizing s k with
  | zero => rfl
  | succ n ih =>
    rw [pollFunction, EStateM.run_bind]
    rcases pollRound_cases past hs k with ⟨a, b, c, k', t, hframes, hsame, -, hrun, ht⟩ | ⟨-, t, k', hrun, hsame⟩ |
      ⟨⟨f, hf, hlong⟩, -⟩
    · rw [hrun, ← hsame]
      exact ih ht fun f hf => hfit f (by simp [hframes, hf])
    · rw [hrun]
      exact hsame
    · exact absurd (hfit f hf) hlong

theorem fits_of_overreads {past : Bytes → Nat → UInt8} {n : Nat} (hs : Sized s) {k : Rcv} (hn : (frames k).length ≤ n)
    (h : (final ((pollFunction past n).run ⟨s, k⟩)).sock.overreads = []) : ∀ f ∈ frames k, f.length ≤ 65536 := by
  induction n generalizing s k with
  | zero =>
    rw [List.eq_nil_of_length_eq_zero (Nat.le_zero.1 hn)]
    exact List.forall_mem_nil _
  | succ n ih =>
    have hlogs := logs_pollFunction past n
    rcases pollRound_cases past hs k with ⟨a, b, c, k', t, hframes, -, ⟨ha, hb, hc⟩, hrun, ht⟩ | ⟨hfit, -⟩ | ⟨-, hne⟩
    · rw [pollFunction, EStateM.run_bind, hrun] at h
      rw [hframes] at hn ⊢
      simp only [List.length_cons] at hn
      simp only [List.forall_mem_cons]
      exact ⟨ha, hb, hc, ih ht (by omega) h⟩
    · exact hfit
    · exact absurd h (overreads_bind_ne_nil hne fun _ => hlogs)

/-! ## The messages -/

theorem sized_start (q : List Msg) : Sized (start q).own := List.length_replicate

theorem left_cons (m : Msg) (q : List Msg) (o : List (Bytes × Nat)) :
    Rcv.left ⟨[], m :: q, o⟩ = m.frames.length + Rcv.left ⟨[], q, o⟩ := by
  simp only [Rcv.left, List.length_nil, List.map_cons, List.sum_cons, Nat.zero_add]

/-- Where a round begins with a message, the frames before it are a multiple of three. -/
theorem Apart.left_start {q q₁ q₂ : List Msg} {m : Msg} (h : Apart past q) (hq : q = q₁ ++ m :: q₂) :
    ∃ n, (start q).sock.left = n * 3 + Rcv.left ⟨[], m :: q₂, []⟩ := by
  obtain ⟨n, s, hrun, -⟩ := h.units q₁ m q₂ hq
  exact ⟨n, takes_pollFunction n _ _ _ hrun⟩

theorem Apart.length_le {q : List Msg} (h : Apart past q) (hfit : ∀ m ∈ q, ∀ f ∈ m.frames, f.length ≤ 65536) {m : Msg}
    (hm : m ∈ q) : m.frames.length ≤ 3 := by
  obtain ⟨q₁, q₂, hq⟩ := List.append_of_mem hm
  obtain ⟨n, s, hrun, hone, -⟩ := h.units q₁ m q₂ hq
  have hs : Sized s := by
    refine sized_pollFunction (sized_start q) (fun f hf => ?_) hrun
    obtain ⟨m', hm', hf⟩ := List.mem_flatMap.1 hf
    exact hfit m' hm' f hf
  by_contra hlong
  obtain ⟨a, rest⟩ := m
  have hmfit := hfit _ hm
  rcases rest with _ | ⟨b, _ | ⟨c, _ | ⟨d, rest⟩⟩⟩
  · exact hlong (by simp [Msg.frames])
  · exact hlong (by simp [Msg.frames])
  · exact hlong (by simp [Msg.frames])
  · simp only [Msg.frames, List.forall_mem_cons] at hmfit
    obtain ⟨ha, hb, hc, -⟩ := hmfit
    obtain ⟨t, hround, -⟩ := run_pollRound past hs (.msg ⟨a, b :: c :: d :: rest⟩ q₂ []) (.cons b (c :: d :: rest) q₂ [])
      (.cons c (d :: rest) q₂ []) ha hb hc
    cases hone t _ hround

/-- **The messages are handled apart** exactly if each but the last has three frames and the last no more, and no frame
is longer than the array. -/
theorem apart_iff (past : Bytes → Nat → UInt8) (q : List Msg) : Apart past q ↔
    (∀ m ∈ q.dropLast, m.frames.length = 3) ∧ ∀ m ∈ q, m.frames.length ≤ 3 ∧ ∀ f ∈ m.frames, f.length ≤ 65536 := by
  constructor
  · intro h
    have hfit : ∀ m ∈ q, ∀ f ∈ m.frames, f.length ≤ 65536 := fun m hm f hf =>
      fits_of_overreads (sized_start q) le_rfl (h.inside _) f (List.mem_flatMap.2 ⟨m, hm, hf⟩)
    refine ⟨fun m hm => ?_, fun m hm => ⟨h.length_le hfit hm, hfit m hm⟩⟩
    obtain ⟨q₁, l, hl⟩ := List.append_of_mem hm
    have hne : q ≠ [] := by
      rintro rfl
      cases hm
    have hq : q = q₁ ++ m :: (l ++ [q.getLast hne]) := by
      rw [← List.cons_append, ← List.append_assoc, ← hl, List.dropLast_concat_getLast]
    obtain ⟨m', q₂, hrest⟩ := List.exists_cons_of_ne_nil (List.append_ne_nil_of_right_ne_nil l (List.cons_ne_nil _ _))
    rw [hrest] at hq
    -- both rounds that begin with a message begin behind three frames each
    obtain ⟨n, hn⟩ := h.left_start hq
    have hq' : q = q₁ ++ [m] ++ m' :: q₂ := hq.trans (List.append_cons ..)
    obtain ⟨n', hn'⟩ := h.left_start hq'
    rw [left_cons] at hn
    have hle := h.length_le hfit (List.dropLast_subset q hm)
    have hpos : 0 < m.frames.length := Nat.succ_pos _
    omega
  · rintro ⟨hthree, hall⟩
    refine ⟨fun n => ?_, ?_⟩
    · refine overreads_pollFunction past n (sized_start q) fun f hf => ?_
      obtain ⟨m, hm, hf⟩ := List.mem_flatMap.1 hf
      exact (hall m hm).2 f hf
    · rintro q₁ m q₂ rfl
      have hbefore : ∀ m' ∈ q₁, m' ∈ (q₁ ++ m :: q₂).dropLast := fun m' hm' => by
        rw [List.dropLast_append_of_ne_nil (List.cons_ne_nil m q₂)]
        exact List.mem_append_left _ hm'
      obtain ⟨s, hrun, hs⟩ := run_pollFunction_messages past (m :: q₂) [] (sized_start (q₁ ++ m :: q₂))
        (fun m' hm' => hthree m' (hbefore m' hm')) fun m' hm' => (hall m' (List.mem_append_left _ hm')).2
      obtain ⟨hle, hfit⟩ := hall m (List.mem_append_right q₁ List.mem_cons_self)
      have hecho : ∀ r c d, m = ⟨r, [c, d]⟩ → ∃ t, (pollRound past).run ⟨s, ⟨[], m :: q₂, []⟩⟩ =
          .ok () ⟨t, ⟨[], q₂, []⟩⟩ ∧ t.sent = s.sent ++ [(r, d)] := by
        rintro r c d rfl
        simp only [Msg.frames, List.forall_mem_cons] at hfit
        obtain ⟨hr, hc, hd, -⟩ := hfit
        obtain ⟨t, hround, -, hsent⟩ := run_pollRound past hs (.msg ⟨r, [c, d]⟩ q₂ []) (.cons c [d] q₂ [])
          (.cons d [] q₂ []) hr hc hd
        exact ⟨t, hround, hsent⟩
      refine ⟨q₁.length, s, hrun, fun t k hround => ?_, hecho⟩
      by_cases hlen : m.frames.length = 3
      · obtain ⟨r, c, d, hm⟩ := frames_eq_three hlen
        obtain ⟨t', hround', -⟩ := hecho r c d hm
        cases hround.symm.trans hround'
        rfl
      · -- the last message has fewer frames, and the round does not come to its end
        have hlast : q₂ = [] := by
          by_contra hne
          refine hlen (hthree m ?_)
          rw [List.dropLast_append_of_ne_nil (List.cons_ne_nil m q₂), List.dropLast_cons_of_ne_nil hne]
          exact List.mem_append_right _ List.mem_cons_self
        have hleft := takes_pollRound _ _ _ hround
        have hnone : Rcv.left ⟨[], [], []⟩ = 0 := rfl
        rw [hlast, left_cons, hnone] at hleft
        omega

/-- A message without a client id, and one as the clients send them. -/
def withoutClientid : List Msg := [⟨text "A", [text "hi"]⟩, ⟨text "B", [text "b", text "data"]⟩]

/-- The first client is sent the router id of the second, and the data of the second is not sent back. -/
theorem withoutClientid_not_apart : ¬ Apart (fun _ _ => 0) withoutClientid ∧
    ∃ t, (pollRound fun _ _ => 0).run (start withoutClientid) = .ok () ⟨t, ⟨[text "b", text "data"], [], []⟩⟩ ∧
      t.sent = [(text "A", text "B")] := by
  constructor
  · intro h
    have hq : withoutClientid = [⟨text "A", [text "hi"]⟩] ++ ⟨text "B", [text "b", text "data"]⟩ :: [] := rfl
    obtain ⟨n, hn⟩ := h.left_start hq
    have hfive : (start withoutClientid).sock.left = 5 := rfl
    rw [hfive, left_cons] at hn
    have hthree : (Msg.frames ⟨text "B", [text "b", text "data"]⟩).length = 3 := rfl
    have hnone : Rcv.left ⟨[], [], []⟩ = 0 := rfl
    omega
  · obtain ⟨t, hrun, -, hsent⟩ := run_pollRound (fun _ _ => 0) (sized_start withoutClientid)
      (.msg ⟨text "A", [text "hi"]⟩ [⟨text "B", [text "b", text "data"]⟩] []) (.cons (text "hi") [] _ [])
      (.msg ⟨text "B", [text "b", text "data"]⟩ [] []) (by decide) (by decide) (by decide)
    exact ⟨t, hrun, hsent⟩

end CppLinuxLearn.ZmqTest
