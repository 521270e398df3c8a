import CppLinuxLearn.Lib.Bytes
import Mathlib.Data.List.Infix

/-!
# Reading multipart messages frame by frame

The receiving end of a message socket that hands out one frame at a time, and programs over it. A
program `Rd σ α` has a state `σ` of its own; it may ask for the next frame (`recv`), ask whether the
frame read last is followed by another one of its message (`rcvmore`), copy bytes out of a frame and
fail an assertion.

What a program does to its process is followed by `Along R x`, for any preorder `R` that receiving
and copying respect: the rules are those of the monad. `recv` does not stop at the end of a message.
`Within q r` says of an outcome `r` that the messages `q` behind the one being read were left alone;
as no program puts a message back (`Forward`), one that has run over the end of its message is not
`Within` any more (`not_within_recv`).

The sending side is a list of frames with their more-flags; `assemble` is the messages they make up,
and `relay` is the loop that passes a message on from one socket to another.
-/

namespace CppLinuxLearn.Lib.Multipart

/-- A multipart message: a first frame and what follows it. -/
structure Msg where
  head : Bytes
  rest : List Bytes
deriving DecidableEq, Repr, Inhabited

/-- The frames of a message. -/
def Msg.frames (m : Msg) : List Bytes := m.head :: m.rest

/-- The receiving end of a socket. -/
structure Rcv where
  /-- the frames still to come of the message being read -/
  cur : List Bytes
  /-- the messages behind it -/
  next : List Msg
  /-- the copies so far that asked for more bytes than their frame holds -/
  overreads : List (Bytes × Nat)
deriving DecidableEq, Repr

/-- Why a program did not come to its end. -/
inductive Stop
  /-- it waits for a frame of a message that has not come -/
  | blocked
  /-- an assertion failed -/
  | aborted
deriving DecidableEq, Repr

/-- What a program works on: its own state and the socket. -/
structure Proc (σ : Type) where
  own : σ
  sock : Rcv

/-- A program that reads from a socket. -/
abbrev Rd (σ : Type) := EStateM Stop (Proc σ)

/-- The outcome of such a program. -/
abbrev Outcome (σ : Type) := EStateM.Result Stop (Proc σ)

section
variable {σ α β : Type}

/-- The next frame, of the message being read or, after its last one, of the next message. -/
def recv : Rd σ Bytes := fun p =>
  match p.sock.cur, p.sock.next with
  | f :: fs, _ => .ok f { p with sock.cur := fs }
  | [], m :: ms => .ok m.head { p with sock.cur := m.rest, sock.next := ms }
  | [], [] => .error .blocked p

/-- `getsockopt(ZMQ_RCVMORE)` -/
def rcvmore : Rd σ Bool := fun p => .ok (!p.sock.cur.isEmpty) p

/-- `assert(b)` -/
def assertThat (b : Bool) : Rd σ Unit := fun p => if b then .ok () p else .error .aborted p

/-- `memcpy(dst, f.data(), n)`; `past f i` is the byte found at `i` when the frame has no such byte. -/
def copyOut (past : Bytes → Nat → UInt8) (f : Bytes) (n : Nat) : Rd σ Bytes := fun p =>
  .ok ((List.range n).map fun i => f.getD i (past f i))
    { p with sock.overreads := if f.length < n then p.sock.overreads ++ [(f, n)] else p.sock.overreads }

/-- The program's own state. -/
def own : Rd σ σ := fun p => .ok p.own p

/-- Change the program's own state. -/
def modifyOwn (f : σ → σ) : Rd σ Unit := fun p => .ok () { p with own := f p.own }

/-- Two frames, put together. -/
def recvPair (g : Bytes → Bytes → α) : Rd σ α := do
  let a ← recv
  let b ← recv
  return g a b

/-- The frames that can still be read. -/
def Rcv.left (s : Rcv) : Nat := s.cur.length + (s.next.map fun m => m.frames.length).sum

/-- At most `n` rounds of `while (rcvmore) body`, the values of `body` in order. -/
def whileMoreN (body : Rd σ α) : Nat → Rd σ (List α)
  | 0 => pure []
  | n + 1 => do
    if ← rcvmore then
      let a ← body
      let as ← whileMoreN body n
      return a :: as
    else
      return []

/-- `while (rcvmore) body`. Every round reads a frame, so there are not more rounds than frames
(`whileMore_done`). -/
def whileMore (body : Rd σ α) : Rd σ (List α) := fun p => whileMoreN body p.sock.left p

/-! ## Evaluation -/

variable (s : σ) (f : Bytes) (fs : List Bytes) (m : Msg) (q : List Msg) (o : List (Bytes × Nat))

@[simp] theorem run_recv_cons : (recv : Rd σ Bytes).run ⟨s, ⟨f :: fs, q, o⟩⟩ = .ok f ⟨s, ⟨fs, q, o⟩⟩ := rfl

@[simp] theorem run_recv_next :
    (recv : Rd σ Bytes).run ⟨s, ⟨[], m :: q, o⟩⟩ = .ok m.head ⟨s, ⟨m.rest, q, o⟩⟩ := rfl

@[simp] theorem run_recv_none :
    (recv : Rd σ Bytes).run ⟨s, ⟨[], [], o⟩⟩ = .error .blocked ⟨s, ⟨[], [], o⟩⟩ := rfl

@[simp] theorem run_rcvmore (p : Proc σ) : rcvmore.run p = .ok (!p.sock.cur.isEmpty) p := rfl

@[simp] theorem run_assertThat_true (p : Proc σ) : (assertThat true).run p = .ok () p := rfl

@[simp] theorem run_assertThat_false (p : Proc σ) :
    (assertThat false).run p = .error .aborted p := rfl

@[simp] theorem run_own (p : Proc σ) : own.run p = .ok p.own p := rfl

@[simp] theorem run_modifyOwn (g : σ → σ) (p : Proc σ) :
    (modifyOwn g).run p = .ok () ⟨g p.own, p.sock⟩ := rfl

theorem run_bind_ok {x : Rd σ α} {g : α → Rd σ β} {p p' : Proc σ} {b : β}
    (h : (x >>= g).run p = .ok b p') : ∃ a p₁, x.run p = .ok a p₁ ∧ (g a).run p₁ = .ok b p' := by
  rw [EStateM.run_bind] at h
  cases hx : x.run p with
  | error e p₁ =>
    rw [hx] at h
    cases h
  | ok a p₁ =>
    rw [hx] at h
    exact ⟨a, p₁, rfl, h⟩

theorem run_recvPair (g : Bytes → Bytes → α) (f₁ f₂ : Bytes) :
    (recvPair g).run ⟨s, ⟨f₁ :: f₂ :: fs, q, o⟩⟩ = .ok (g f₁ f₂) ⟨s, ⟨fs, q, o⟩⟩ := rfl

theorem copied_eq_take (past : Bytes → Nat → UInt8) {n : Nat} (h : n ≤ f.length) :
    (List.range n).map (fun i => f.getD i (past f i)) = f.take n := by
  apply List.ext_getElem?
  intro i
  rcases Nat.lt_or_ge i n with hi | hi
  · simp [hi, show i < f.length by omega]
  · simp [hi]

theorem run_whileMoreN_nil (body : Rd σ α) (n : Nat) :
    (whileMoreN body n).run ⟨s, ⟨[], q, o⟩⟩ = .ok [] ⟨s, ⟨[], q, o⟩⟩ := by
  cases n <;> rfl

theorem run_whileMoreN_cons (body : Rd σ α) (n : Nat) :
    (whileMoreN body (n + 1)).run ⟨s, ⟨f :: fs, q, o⟩⟩ =
      (body >>= fun a => whileMoreN body n >>= fun as => pure (a :: as)).run
        ⟨s, ⟨f :: fs, q, o⟩⟩ := rfl

/-- A loop whose body takes one frame goes through the message to its end. -/
theorem run_whileMore_each {body : Rd σ α} {g : Bytes → α} {log : Bytes → List (Bytes × Nat)}
    (hbody : ∀ f fs o, body.run ⟨s, ⟨f :: fs, q, o⟩⟩ = .ok (g f) ⟨s, ⟨fs, q, o ++ log f⟩⟩) :
    (whileMore body).run ⟨s, ⟨fs, q, o⟩⟩ = .ok (fs.map g) ⟨s, ⟨[], q, o ++ fs.flatMap log⟩⟩ := by
  have hN : ∀ (fs : List Bytes) (n : Nat) (o : List (Bytes × Nat)), fs.length ≤ n →
      (whileMoreN body n).run ⟨s, ⟨fs, q, o⟩⟩ =
        .ok (fs.map g) ⟨s, ⟨[], q, o ++ fs.flatMap log⟩⟩ := by
    intro fs
    induction fs with
    | nil => intro n o _; simp [run_whileMoreN_nil]
    | cons f fs ih =>
      intro n o hn
      obtain ⟨n, rfl⟩ : ∃ k, n = k + 1 := ⟨n - 1, by simp at hn; omega⟩
      have hrest := ih n (o ++ log f) (by simp at hn; omega)
      simp only [run_whileMoreN_cons, EStateM.run_bind, hbody, hrest, EStateM.run_pure,
        List.map_cons, List.flatMap_cons, List.append_assoc]
  exact hN fs _ o (by simp [Rcv.left])

theorem length_flatMap_pair (ps : List (Bytes × Bytes)) :
    (ps.flatMap fun p => [p.1, p.2]).length = 2 * ps.length := by
  induction ps with
  | nil => rfl
  | cons p ps ih => simp [ih]; omega

theorem exists_pairs (fs : List Bytes) : ∃ ps : List (Bytes × Bytes),
    (fs = ps.flatMap fun p => [p.1, p.2]) ∨ ∃ f, fs = (ps.flatMap fun p => [p.1, p.2]) ++ [f] := by
  match fs with
  | [] => exact ⟨[], .inl rfl⟩
  | [f] => exact ⟨[], .inr ⟨f, rfl⟩⟩
  | f :: g :: fs =>
    obtain ⟨ps, h | ⟨e, h⟩⟩ := exists_pairs fs
    · exact ⟨(f, g) :: ps, .inl (by simp [h])⟩
    · exact ⟨(f, g) :: ps, .inr ⟨e, by simp [h]⟩⟩

theorem run_whileMore_pairs (g : Bytes → Bytes → α) (ps : List (Bytes × Bytes)) :
    (whileMore (recvPair g)).run ⟨s, ⟨ps.flatMap fun p => [p.1, p.2], q, o⟩⟩ =
      .ok (ps.map fun p => g p.1 p.2) ⟨s, ⟨[], q, o⟩⟩ := by
  have hN : ∀ (ps : List (Bytes × Bytes)) (n : Nat), ps.length ≤ n →
      (whileMoreN (recvPair g) n).run ⟨s, ⟨ps.flatMap fun p => [p.1, p.2], q, o⟩⟩ =
        .ok (ps.map fun p => g p.1 p.2) ⟨s, ⟨[], q, o⟩⟩ := by
    intro ps
    induction ps with
    | nil => intro n _; simp [run_whileMoreN_nil]
    | cons p ps ih =>
      intro n hn
      obtain ⟨n, rfl⟩ : ∃ k, n = k + 1 := ⟨n - 1, by simp at hn; omega⟩
      have hrest := ih n (by simp at hn; omega)
      simp only [List.flatMap_cons, List.cons_append, List.nil_append] at hrest ⊢
      simp only [run_whileMoreN_cons, EStateM.run_bind, run_recvPair, hrest, EStateM.run_pure,
        List.map_cons]
  refine hN ps _ ?_
  simp only [Rcv.left, length_flatMap_pair]
  omega

/-! ## What a program keeps, step by step -/

/-- The state a program ended in. -/
def final : Outcome σ α → Proc σ
  | .ok _ p => p
  | .error _ p => p

/-- Every run relates the state it starts in to the state it ends in. -/
def Along (R : Proc σ → Proc σ → Prop) (x : Rd σ α) : Prop := ∀ p, R p (final (x.run p))

/-- A preorder that receiving a frame and copying from one respect. -/
structure ReadOrder (R : Proc σ → Proc σ → Prop) : Prop where
  refl : ∀ p, R p p
  trans : ∀ {p₁ p₂ p₃}, R p₁ p₂ → R p₂ p₃ → R p₁ p₃
  recv : Along R recv
  copyOut : ∀ past f n, Along R (copyOut past f n)

section
variable {R : Proc σ → Proc σ → Prop} (hR : ReadOrder R)
include hR

theorem along_pure (a : α) : Along R (pure a : Rd σ α) := fun p => hR.refl p

theorem along_rcvmore : Along R rcvmore := fun p => hR.refl p

theorem along_assertThat (b : Bool) : Along R (assertThat b) := fun p => by
  cases b <;> exact hR.refl p

theorem along_bind {x : Rd σ α} {g : α → Rd σ β} (hx : Along R x) (hg : ∀ a, Along R (g a)) :
    Along R (x >>= g) := by
  intro p
  have hp := hx p
  rw [EStateM.run_bind]
  cases h : x.run p with
  | error e t => rw [h] at hp; exact hp
  | ok a t => rw [h] at hp; exact hR.trans hp (hg a t)

omit hR in
theorem along_ite (b : Prop) [Decidable b] {x y : Rd σ α} (hx : Along R x) (hy : Along R y) :
    Along R (if b then x else y) := by
  split
  · exact hx
  · exact hy

theorem along_whileMoreN {body : Rd σ α} (hb : Along R body) (n : Nat) :
    Along R (whileMoreN body n) := by
  induction n with
  | zero => exact along_pure hR []
  | succ n ih =>
    exact along_bind hR (along_rcvmore hR) fun more => along_ite _
      (along_bind hR hb fun a => along_bind hR ih fun as => along_pure hR _) (along_pure hR [])

theorem along_whileMore {body : Rd σ α} (hb : Along R body) : Along R (whileMore body) :=
  fun p => along_whileMoreN hR hb p.sock.left p

theorem along_recvPair (g : Bytes → Bytes → α) : Along R (recvPair g) :=
  along_bind hR hR.recv fun _ => along_bind hR hR.recv fun _ => along_pure hR _

end

/-- The own state is as it was. -/
def SameOwn (p p' : Proc σ) : Prop := p'.own = p.own

theorem sameOwn_readOrder : ReadOrder (@SameOwn σ) where
  refl _ := rfl
  trans h₁ h₂ := h₂.trans h₁
  recv := by
    rintro ⟨s, cur, next, o⟩
    cases cur <;> cases next <;> rfl
  copyOut _ _ _ _ := rfl

/-- A program that begins by reading stops there or goes on with the own state as it was. -/
theorem own_bind_of_sameOwn {P : σ → Prop} {x : Rd σ α} {g : α → Rd σ β} (hx : Along SameOwn x)
    {s : σ} (k : Rcv) (hs : P s)
    (hg : ∀ a k', x.run ⟨s, k⟩ = .ok a ⟨s, k'⟩ → P (final ((g a).run ⟨s, k'⟩)).own) :
    P (final ((x >>= g).run ⟨s, k⟩)).own := by
  have hp := hx ⟨s, k⟩
  rw [EStateM.run_bind]
  cases h : x.run ⟨s, k⟩ with
  | error e t =>
    rw [h] at hp
    obtain ⟨t, k'⟩ := t
    obtain rfl : t = s := hp
    exact hs
  | ok a t =>
    rw [h] at hp
    obtain ⟨t, k'⟩ := t
    obtain rfl : t = s := hp
    exact hg a k' h

theorem own_final_bind {x : Rd σ α} {g : α → Rd σ β} (hg : ∀ a, Along SameOwn (g a)) (p : Proc σ) :
    (final ((x >>= g).run p)).own = (final (x.run p)).own := by
  rw [EStateM.run_bind]
  cases x.run p with
  | error e t => rfl
  | ok a t => exact hg a t

/-- The messages behind the one being read are among those that were. -/
def Ahead (p p' : Proc σ) : Prop := p'.sock.next <:+ p.sock.next

theorem ahead_readOrder : ReadOrder (@Ahead σ) where
  refl _ := List.suffix_rfl
  trans h₁ h₂ := h₂.trans h₁
  recv := by
    rintro ⟨s, cur, next, o⟩
    cases cur with
    | cons f fs => exact List.suffix_rfl
    | nil =>
      cases next with
      | nil => exact List.suffix_rfl
      | cons m q => exact List.suffix_cons m q
  copyOut _ _ _ _ := List.suffix_rfl

/-- The program takes messages from the front only. -/
abbrev Forward (x : Rd σ α) : Prop := Along Ahead x

theorem forward_modifyOwn (g : σ → σ) : Forward (modifyOwn g) := fun _ => List.suffix_rfl

/-- There are no more frames to read than there were. -/
def Fewer (p p' : Proc σ) : Prop := p'.sock.left ≤ p.sock.left

theorem fewer_readOrder : ReadOrder (@Fewer σ) where
  refl _ := le_refl _
  trans h₁ h₂ := le_trans h₂ h₁
  recv := by
    rintro ⟨s, cur, next, o⟩
    cases cur with
    | cons f fs => simp [Fewer, final, Rcv.left]
    | nil => cases next <;> simp [Fewer, final, Rcv.left, Msg.frames]
  copyOut _ _ _ _ := le_refl _

/-- What was logged of the copies stays. -/
def Logs (p p' : Proc σ) : Prop := p.sock.overreads <+: p'.sock.overreads

theorem logs_readOrder : ReadOrder (@Logs σ) where
  refl _ := List.prefix_rfl
  trans h₁ h₂ := h₁.trans h₂
  recv := by
    rintro ⟨s, cur, next, o⟩
    cases cur <;> cases next <;> exact List.prefix_rfl
  copyOut past f n := by
    rintro ⟨s, cur, next, o⟩
    show o <+: if f.length < n then o ++ [(f, n)] else o
    split
    · exact List.prefix_append o _
    · exact List.prefix_rfl

theorem overreads_bind_ne_nil {x : Rd σ α} {g : α → Rd σ β} {p : Proc σ}
    (hne : (final (x.run p)).sock.overreads ≠ []) (hg : ∀ a, Along Logs (g a)) :
    (final ((x >>= g).run p)).sock.overreads ≠ [] := by
  rw [EStateM.run_bind]
  cases hx : x.run p with
  | error e p₁ =>
    rw [hx] at hne
    exact hne
  | ok a p₁ =>
    rw [hx] at hne
    exact fun hnil => hne (List.prefix_nil.1 (hnil ▸ hg a p₁))

/-! ## How many frames a program takes -/

/-- Whenever it comes to its end, the program has taken so many frames. -/
def Takes (n : Nat) (x : Rd σ α) : Prop := ∀ p a p', x.run p = .ok a p' → p.sock.left = n + p'.sock.left

theorem takes_of_same {x : Rd σ α} (h : ∀ p a p', x.run p = .ok a p' → p'.sock.left = p.sock.left) : Takes 0 x :=
  fun p a p' hx => by rw [h p a p' hx, Nat.zero_add]

theorem takes_bind {n m : Nat} {x : Rd σ α} {g : α → Rd σ β} (hx : Takes n x) (hg : ∀ a, Takes m (g a)) :
    Takes (n + m) (x >>= g) := by
  intro p b p' h
  obtain ⟨a, p₁, h₁, h₂⟩ := run_bind_ok h
  rw [hx p a p₁ h₁, hg a p₁ b p' h₂, Nat.add_assoc]

theorem takes_pure (a : α) : Takes 0 (pure a : Rd σ α) :=
  takes_of_same fun p _ p' h => by
    obtain ⟨-, rfl⟩ := EStateM.Result.ok.inj h
    rfl

theorem takes_own : Takes 0 (own : Rd σ σ) :=
  takes_of_same fun p _ p' h => by
    obtain ⟨-, rfl⟩ := EStateM.Result.ok.inj h
    rfl

theorem takes_modifyOwn (g : σ → σ) : Takes 0 (modifyOwn g) :=
  takes_of_same fun p _ p' h => by
    obtain ⟨-, rfl⟩ := EStateM.Result.ok.inj h
    rfl

theorem takes_copyOut (past : Bytes → Nat → UInt8) (f : Bytes) (n : Nat) : Takes 0 (copyOut past f n : Rd σ Bytes) :=
  takes_of_same fun p _ p' h => by
    obtain ⟨-, rfl⟩ := EStateM.Result.ok.inj h
    rfl

theorem takes_recv : Takes 1 (recv : Rd σ Bytes) := by
  rintro ⟨s, cur, next, o⟩ f p' h
  cases cur with
  | cons f fs =>
    obtain ⟨-, rfl⟩ := EStateM.Result.ok.inj h
    simp only [Rcv.left, List.length_cons]
    omega
  | nil =>
    cases next with
    | nil => cases h
    | cons m q =>
      obtain ⟨-, rfl⟩ := EStateM.Result.ok.inj h
      simp only [Rcv.left, Msg.frames, List.length_nil, List.map_cons, List.sum_cons, List.length_cons]
      omega

/-! ## The loop ends for want of a frame, not of rounds -/

/-- The program reads at least one frame whenever it comes to its end. -/
def Eats (x : Rd σ α) : Prop := ∀ p a p', x.run p = .ok a p' → p'.sock.left < p.sock.left

theorem eats_recv_bind {g : Bytes → Rd σ α} (hg : ∀ f, Along Fewer (g f)) : Eats (recv >>= g) := by
  rintro ⟨s, cur, next, o⟩ a p' h
  obtain ⟨f, p₁, hrecv, h⟩ := run_bind_ok h
  have hle : p'.sock.left ≤ p₁.sock.left := by
    have hg := hg f p₁
    rwa [h] at hg
  refine hle.trans_lt ?_
  cases cur with
  | cons f fs =>
    obtain ⟨-, rfl⟩ := EStateM.Result.ok.inj hrecv
    simp [Rcv.left]
  | nil =>
    cases next with
    | nil => cases hrecv
    | cons m q =>
      obtain ⟨-, rfl⟩ := EStateM.Result.ok.inj hrecv
      simp [Rcv.left, Msg.frames]

theorem eats_recv : Eats (recv : Rd σ Bytes) := by
  have h : Eats (recv >>= (pure : Bytes → Rd σ Bytes)) :=
    eats_recv_bind fun f => along_pure fewer_readOrder f
  rwa [bind_pure] at h

theorem whileMoreN_done {body : Rd σ α} (hb : Eats body) :
    ∀ (n : Nat) (p : Proc σ) (as : List α) (p' : Proc σ), p.sock.left ≤ n →
      (whileMoreN body n).run p = .ok as p' → p'.sock.cur = [] := by
  intro n
  induction n with
  | zero =>
    intro p as p' hp h
    obtain ⟨-, rfl⟩ := EStateM.Result.ok.inj h
    exact List.eq_nil_of_length_eq_zero (by simp only [Rcv.left] at hp; omega)
  | succ n ih =>
    intro p as p' hp h
    obtain ⟨s, cur, q, o⟩ := p
    cases cur with
    | nil =>
      rw [run_whileMoreN_nil] at h
      obtain ⟨-, rfl⟩ := EStateM.Result.ok.inj h
      rfl
    | cons f fs =>
      rw [run_whileMoreN_cons] at h
      obtain ⟨a, t, hx, h⟩ := run_bind_ok h
      obtain ⟨bs, u, hy, h⟩ := run_bind_ok h
      obtain ⟨-, rfl⟩ := EStateM.Result.ok.inj h
      have hlt := hb _ a t hx
      exact ih t bs _ (by simp only at hlt hp; omega) hy

/-- Whenever the loop comes to its end, RCVMORE is off: the bound on the rounds is never met. -/
theorem whileMore_done {body : Rd σ α} (hb : Eats body) {p p' : Proc σ} {as : List α}
    (h : (whileMore body).run p = .ok as p') : p'.sock.cur = [] :=
  whileMoreN_done hb _ p as p' (le_refl _) h

/-! ## Staying within a message -/

/-- The messages `q` behind the one being read were left alone, and none was waited for. -/
def Within (q : List Msg) : Outcome σ α → Prop
  | .ok _ p => p.sock.next = q
  | .error .aborted p => p.sock.next = q
  | .error .blocked _ => False

instance (q : List Msg) : (r : Outcome σ α) → Decidable (Within q r)
  | .ok _ p => inferInstanceAs (Decidable (p.sock.next = q))
  | .error .aborted p => inferInstanceAs (Decidable (p.sock.next = q))
  | .error .blocked _ => inferInstanceAs (Decidable False)

theorem not_within_of_lt {x : Rd σ α} (hx : Forward x) {q : List Msg} {p : Proc σ}
    (h : p.sock.next.length < q.length) : ¬ Within q (x.run p) := by
  intro hw
  have hlen := (hx p).length_le
  cases hr : x.run p with
  | ok a t =>
    rw [hr] at hw hlen
    simp only [Within] at hw
    simp only [final, hw] at hlen
    omega
  | error e t =>
    rw [hr] at hw hlen
    cases e with
    | blocked => exact hw
    | aborted =>
      simp only [Within] at hw
      simp only [final, hw] at hlen
      omega

theorem not_within_recv {g : Bytes → Rd σ α} (hg : ∀ a, Forward (g a)) :
    ¬ Within q ((recv >>= g).run ⟨s, ⟨[], q, o⟩⟩) := by
  cases q with
  | nil => simp [Within]
  | cons m q =>
    rw [EStateM.run_bind, run_recv_next]
    exact not_within_of_lt (hg _) (by simp)

theorem not_within_bind {x : Rd σ α} {g : α → Rd σ β} (hx : Forward x) (hg : ∀ a, Forward (g a))
    {p : Proc σ} (h : ¬ Within p.sock.next (x.run p)) : ¬ Within p.sock.next ((x >>= g).run p) := by
  have hp := hx p
  rw [EStateM.run_bind]
  cases hr : x.run p with
  | error e t => rw [hr] at h; cases e <;> exact h
  | ok a t =>
    rw [hr] at h hp
    refine not_within_of_lt (hg a) (lt_of_le_of_ne hp.length_le fun hlen => h ?_)
    exact hp.eq_of_length hlen

theorem within_bind_pure {x : Rd σ α} {g : α → β} (p : Proc σ) :
    Within q ((x >>= fun a => pure (g a)).run p) ↔ Within q (x.run p) := by
  rw [EStateM.run_bind]
  cases x.run p with
  | ok a t => rfl
  | error e t => cases e <;> rfl

theorem within_bind_modifyOwn {x : Rd σ α} {g : α → σ → σ} (p : Proc σ) :
    Within q ((x >>= fun a => modifyOwn (g a)).run p) ↔ Within q (x.run p) := by
  rw [EStateM.run_bind]
  cases x.run p with
  | ok a t => rfl
  | error e t => cases e <;> rfl

theorem not_within_whileMore_pairs (g : Bytes → Bytes → α) (ps : List (Bytes × Bytes)) :
    ¬ Within q ((whileMore (recvPair g)).run
      ⟨s, ⟨(ps.flatMap fun p => [p.1, p.2]) ++ [f], q, o⟩⟩) := by
  have hN : ∀ (ps : List (Bytes × Bytes)) (n : Nat), ps.length < n →
      ¬ Within q ((whileMoreN (recvPair g) n).run
        ⟨s, ⟨(ps.flatMap fun p => [p.1, p.2]) ++ [f], q, o⟩⟩) := by
    intro ps
    induction ps with
    | nil =>
      intro n hn
      obtain ⟨n, rfl⟩ : ∃ k, n = k + 1 := ⟨n - 1, by simp at hn; omega⟩
      have hpair : ¬ Within q ((recvPair g).run ⟨s, ⟨[f], q, o⟩⟩) :=
        not_within_recv s q o fun b => along_pure ahead_readOrder (g f b)
      have hloop : ∀ a, Forward (whileMoreN (recvPair g) n >>= fun as => pure (a :: as) : Rd σ _) :=
        fun a => along_bind ahead_readOrder
          (along_whileMoreN ahead_readOrder (along_recvPair ahead_readOrder g) n)
          fun _ => along_pure ahead_readOrder _
      exact not_within_bind (p := ⟨s, ⟨[f], q, o⟩⟩) (along_recvPair ahead_readOrder g) hloop hpair
    | cons p ps ih =>
      intro n hn hw
      obtain ⟨n, rfl⟩ : ∃ k, n = k + 1 := ⟨n - 1, by simp at hn; omega⟩
      refine ih n (by simp at hn; omega) ?_
      simp only [List.flatMap_cons, List.cons_append, List.nil_append, run_whileMoreN_cons,
        EStateM.run_bind, run_recvPair] at hw
      cases hr : (whileMoreN (recvPair g) n).run
          ⟨s, ⟨(ps.flatMap fun p => [p.1, p.2]) ++ [f], q, o⟩⟩ with
      | ok as t => simpa only [hr, EStateM.run_pure, Within] using hw
      | error e t => simpa only [hr] using hw
  refine hN ps _ ?_
  simp only [Rcv.left, List.length_append, length_flatMap_pair, List.length_singleton]
  omega

end

/-! ## Ending without an overread -/

/-- The program came to its end, with `P` of its value and its state, and `o` are the copies that were
too long. -/
def Ends {σ α : Type} (P : α → σ → Prop) (o : List (Bytes × Nat)) : Outcome σ α → Prop
  | .ok a p => P a p.own ∧ p.sock.overreads = o
  | .error _ _ => False

section
variable {σ α β : Type} {o : List (Bytes × Nat)}

theorem ends_bind_modifyOwn {P : Unit → σ → Prop} {x : Rd σ α} {g : α → σ → σ} (p : Proc σ) :
    Ends P o ((x >>= fun a => modifyOwn (g a)).run p) ↔
      Ends (fun a s => P () (g a s)) o (x.run p) := by
  rw [EStateM.run_bind]
  cases x.run p <;> rfl

theorem ends_bind_pure {P : β → σ → Prop} {x : Rd σ α} {g : α → β} (p : Proc σ) :
    Ends P o ((x >>= fun a => pure (g a)).run p) ↔ Ends (fun a s => P (g a) s) o (x.run p) := by
  rw [EStateM.run_bind]
  cases x.run p <;> rfl

theorem ends_of_sameOwn {P : α → σ → Prop} {x : Rd σ α} (hx : Along SameOwn x) (p : Proc σ) :
    Ends P o (x.run p) ↔ Ends (fun a _ => P a p.own) o (x.run p) := by
  have hown := hx p
  cases hr : x.run p with
  | error e t => rfl
  | ok a t =>
    rw [hr] at hown
    obtain hown : t.own = p.own := hown
    rw [Ends, Ends, hown]

end

/-! ## Sending and relaying -/

/-- The parts of a message as they are sent, each with its more-flag. -/
def flagged {α : Type} : List α → List (α × Bool)
  | [] => []
  | [f] => [(f, false)]
  | f :: g :: fs => (f, true) :: flagged (g :: fs)

theorem flagged_eq_mapIdx {α : Type} (fs : List α) :
    flagged fs = fs.mapIdx fun i f => (f, decide (i + 1 < fs.length)) := by
  induction fs with
  | nil => rfl
  | cons f fs ih =>
    cases fs with
    | nil => rfl
    | cons g fs => simp [flagged, ih, List.mapIdx_cons]

theorem flagged_append (fs : List Bytes) {gs : List Bytes} (h : gs ≠ []) :
    flagged (fs ++ gs) = fs.map (·, true) ++ flagged gs := by
  induction fs with
  | nil => rfl
  | cons f fs ih =>
    obtain ⟨g, rest, hg⟩ := List.exists_cons_of_ne_nil (List.append_ne_nil_of_right_ne_nil fs h)
    rw [List.cons_append, hg, flagged, ← hg, ih]
    rfl

theorem flagged_pairs (ps : List (Bytes × Bytes)) :
    flagged (ps.flatMap fun p => [p.1, p.2]) =
      (ps.mapIdx fun i p => [(p.1, true), (p.2, decide (i + 1 < ps.length))]).flatten := by
  induction ps with
  | nil => rfl
  | cons p ps ih =>
    cases ps with
    | nil => rfl
    | cons p' ps =>
      rw [List.flatMap_cons, flagged_append _ (by simp), ih]
      simp [List.mapIdx_cons]

/-- The messages that frames sent one by one make up; `acc` holds the frames of the one begun. -/
def assemble (acc : List Bytes) : List (Bytes × Bool) → List (List Bytes)
  | [] => []
  | (f, true) :: fs => assemble (acc ++ [f]) fs
  | (f, false) :: fs => (acc ++ [f]) :: assemble [] fs

theorem assemble_flagged (acc : List Bytes) {fs : List Bytes} (h : fs ≠ []) (more : List (Bytes × Bool)) :
    assemble acc (flagged fs ++ more) = (acc ++ fs) :: assemble [] more := by
  induction fs generalizing acc with
  | nil => exact absurd rfl h
  | cons f fs ih =>
    cases fs with
    | nil => rfl
    | cons g fs =>
      simp only [flagged, List.cons_append, assemble, ih _ (List.cons_ne_nil g fs), List.append_assoc,
        List.nil_append]

theorem assemble_flatMap_flagged (ms : List (List Bytes)) (h : ∀ m ∈ ms, m ≠ []) :
    assemble [] (ms.flatMap flagged) = ms := by
  induction ms with
  | nil => rfl
  | cons m ms ih =>
    rw [List.flatMap_cons, assemble_flagged [] (h m (by simp)), List.nil_append,
      ih fun m' hm => h m' (List.mem_cons_of_mem m hm)]

section
variable {σ : Type} (emit : Bytes → Bool → σ → σ)

/-- Receive a frame and pass it on with its more-flag. -/
def relayFrame : Rd σ Unit := do
  let message ← recv
  let more ← rcvmore
  modifyOwn (emit message more)

/-- Skip the router id, then `do relayFrame while (more)`. -/
def relay : Rd σ Unit := do
  let _ ← recv
  relayFrame emit
  let _ ← whileMore (relayFrame emit)
  return ()

/-- Pass on the given frames. -/
def emitAll (fs : List (Bytes × Bool)) (s : σ) : σ := fs.foldl (fun s p => emit p.1 p.2 s) s

variable (s : σ) (f : Bytes) (fs : List Bytes) (q : List Msg) (o : List (Bytes × Nat))

theorem run_relayFrame :
    (relayFrame emit).run ⟨s, ⟨f :: fs, q, o⟩⟩ = .ok () ⟨emit f (!fs.isEmpty) s, ⟨fs, q, o⟩⟩ := rfl

theorem run_whileMore_relayFrame :
    ∃ us, (whileMore (relayFrame emit)).run ⟨s, ⟨fs, q, o⟩⟩ =
      .ok us ⟨emitAll emit (flagged fs) s, ⟨[], q, o⟩⟩ := by
  have hN : ∀ (fs : List Bytes) (n : Nat) (s : σ), fs.length ≤ n →
      ∃ us, (whileMoreN (relayFrame emit) n).run ⟨s, ⟨fs, q, o⟩⟩ =
        .ok us ⟨emitAll emit (flagged fs) s, ⟨[], q, o⟩⟩ := by
    intro fs
    induction fs with
    | nil => intro n s _; exact ⟨[], run_whileMoreN_nil s q o _ n⟩
    | cons f fs ih =>
      intro n s hn
      obtain ⟨n, rfl⟩ : ∃ k, n = k + 1 := ⟨n - 1, by simp at hn; omega⟩
      obtain ⟨us, hus⟩ := ih n (emit f (!fs.isEmpty) s) (by simp at hn; omega)
      refine ⟨() :: us, ?_⟩
      simp only [run_whileMoreN_cons, EStateM.run_bind, run_relayFrame, hus, EStateM.run_pure]
      cases fs <;> rfl
  exact hN fs _ s (by simp [Rcv.left])

/-- **A message is relayed whole**: the frames behind the router id, with the flags they came with. -/
theorem run_relay (m : Msg) (h : m.rest ≠ []) :
    (relay emit).run ⟨s, ⟨[], m :: q, o⟩⟩ =
      .ok () ⟨emitAll emit (flagged m.rest) s, ⟨[], q, o⟩⟩ := by
  obtain ⟨r, rest⟩ := m
  cases rest with
  | nil => exact absurd rfl h
  | cons f fs =>
    obtain ⟨us, hus⟩ := run_whileMore_relayFrame emit (emit f (!fs.isEmpty) s) fs q o
    simp only [relay, EStateM.run_bind, run_recv_next, run_relayFrame, hus, EStateM.run_pure]
    cases fs <;> rfl

end

end CppLinuxLearn.Lib.Multipart
