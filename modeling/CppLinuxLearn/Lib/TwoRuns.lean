import CppLinuxLearn.Lib.Multipart

/-!
# Two runs side by side

A program that leaves the messages `q` alone does the same when other messages `q'` stand in their
place, and a program that only reads does the same whatever its own state is. `Beside` says both of a
pair of programs: from own states that `R` relates, over sockets that are `Apart` by `q` and `q'`, the
second ends as the first does, with the same value and with own states that `S` relates (`E` if they
stop), unless the first takes a message of `q`. The rules are those of the monad.
-/

namespace CppLinuxLearn.Lib.Multipart

/-- The frames that can still be read, in order. -/
def Rcv.frames (k : Rcv) : List Bytes := k.cur ++ k.next.flatMap Msg.frames

theorem frames_of_recv {σ : Type} {p p' : Proc σ} {f : Bytes} (h : recv.run p = .ok f p') :
    p.sock.frames = f :: p'.sock.frames := by
  obtain ⟨s, cur, next, o⟩ := p
  cases cur with
  | cons g fs =>
    obtain ⟨rfl, rfl⟩ := EStateM.Result.ok.inj h
    rfl
  | nil =>
    cases next with
    | cons m ms =>
      obtain ⟨rfl, rfl⟩ := EStateM.Result.ok.inj h
      rfl
    | nil => cases h

/-- The sockets agree but for what comes last: `q` on the one and `q'` on the other. -/
def Apart (q q' : List Msg) (k k' : Rcv) : Prop :=
  k'.cur = k.cur ∧ ∃ ms, k.next = ms ++ q ∧ k'.next = ms ++ q'

theorem apart_nil {k k' : Rcv} : Apart [] [] k k' ↔ k'.cur = k.cur ∧ k'.next = k.next := by
  simp [Apart, eq_comm]

section
variable {σ α β : Type} (q q' : List Msg) (E R S T : σ → σ → Prop)

/-- Outcomes of one kind with one value, the own states related and the sockets apart. -/
inductive Paired : Outcome σ α → Outcome σ α → Prop
  | ok {a : α} {p p' : Proc σ} (hown : S p.own p'.own) (hsock : Apart q q' p.sock p'.sock) :
    Paired (.ok a p) (.ok a p')
  | error {e : Stop} {p p' : Proc σ} (hown : E p.own p'.own) (hsock : Apart q q' p.sock p'.sock) :
    Paired (.error e p) (.error e p')

variable {q q' E S} in
theorem Paired.of_ok {a : α} {p : Proc σ} {r' : Outcome σ α} (h : Paired q q' E S (.ok a p) r') :
    ∃ p', r' = .ok a p' ∧ S p.own p'.own ∧ Apart q q' p.sock p'.sock := by
  cases h with
  | ok hown hsock => exact ⟨_, rfl, hown, hsock⟩

variable {q q' E S} in
theorem Paired.of_error {e : Stop} {p : Proc σ} {r' : Outcome σ α} (h : Paired q q' E S (.error e p) r') :
    ∃ p', r' = .error e p' ∧ E p.own p'.own ∧ Apart q q' p.sock p'.sock := by
  cases h with
  | error hown hsock => exact ⟨_, rfl, hown, hsock⟩

/-- No message of `q` was taken. -/
def Leaves (r : Outcome σ α) : Prop := q.length ≤ (final r).sock.next.length

/-- As long as no message of `q` is taken, the second program does what the first does. -/
structure Beside (x x' : Rd σ α) : Prop where
  forward : Forward x
  paired : ∀ p p', R p.own p'.own → Apart q q' p.sock p'.sock → Leaves q (x.run p) →
    Paired q q' E S (x.run p) (x'.run p')

variable {q q' E R S T}

theorem leaves_of_bind {x : Rd σ α} {g : α → Rd σ β} (hg : ∀ a, Forward (g a)) {p : Proc σ}
    (h : Leaves q ((x >>= g).run p)) :
    Leaves q (x.run p) ∧ ∀ a t, x.run p = .ok a t → Leaves q ((g a).run t) := by
  unfold Leaves at h ⊢
  rw [EStateM.run_bind] at h
  cases hx : x.run p with
  | error e t =>
    rw [hx] at h
    exact ⟨h, nofun⟩
  | ok a t =>
    rw [hx] at h
    refine ⟨h.trans (hg a t).length_le, fun b u hbu => ?_⟩
    obtain ⟨rfl, rfl⟩ := EStateM.Result.ok.inj hbu
    exact h

theorem paired_bind {x x' : Rd σ α} {g g' : α → Rd σ β} {p p' : Proc σ} (hg : ∀ a, Forward (g a))
    (hleaves : Leaves q ((x >>= g).run p))
    (hx : Leaves q (x.run p) → Paired q q' E S (x.run p) (x'.run p'))
    (hgs : ∀ a t t', x.run p = .ok a t → x'.run p' = .ok a t' → S t.own t'.own → Apart q q' t.sock t'.sock →
      Leaves q ((g a).run t) → Paired q q' E T ((g a).run t) ((g' a).run t')) :
    Paired q q' E T ((x >>= g).run p) ((x' >>= g').run p') := by
  obtain ⟨hfirst, hrest⟩ := leaves_of_bind hg hleaves
  have hx := hx hfirst
  rw [EStateM.run_bind, EStateM.run_bind]
  cases hrun : x.run p with
  | error e t =>
    rw [hrun] at hx
    obtain ⟨t', hrun', hown, hsock⟩ := hx.of_error
    rw [hrun']
    exact .error hown hsock
  | ok a t =>
    rw [hrun] at hx
    obtain ⟨t', hrun', hown, hsock⟩ := hx.of_ok
    rw [hrun']
    exact hgs a t t' hrun hrun' hown hsock (hrest a t hrun)

theorem beside_bind {x x' : Rd σ α} {g g' : α → Rd σ β} (hx : Beside q q' E R S x x')
    (hg : ∀ a, Beside q q' E S T (g a) (g' a)) : Beside q q' E R T (x >>= g) (x' >>= g') where
  forward := along_bind ahead_readOrder hx.forward fun a => (hg a).forward
  paired p p' hown hsock hleaves :=
    paired_bind (fun a => (hg a).forward) hleaves (hx.paired p p' hown hsock) fun a t t' _ _ =>
      (hg a).paired t t'

theorem beside_pure (a : α) : Beside q q' E R R (pure a) (pure a) where
  forward := along_pure ahead_readOrder a
  paired _ _ hown hsock _ := .ok hown hsock

theorem beside_modifyOwn {f f' : σ → σ} (h : ∀ s s', R s s' → S (f s) (f' s')) :
    Beside q q' E R S (modifyOwn f) (modifyOwn f') where
  forward := forward_modifyOwn f
  paired _ _ hown hsock _ := .ok (h _ _ hown) hsock

theorem beside_rcvmore : Beside q q' E R R rcvmore rcvmore where
  forward := along_rcvmore ahead_readOrder
  paired p p' hown hsock _ := by
    rw [run_rcvmore, run_rcvmore, hsock.1]
    exact .ok hown hsock

theorem beside_copyOut (past : Bytes → Nat → UInt8) (f : Bytes) (n : Nat) :
    Beside q q' E R R (copyOut past f n) (copyOut past f n) where
  forward := ahead_readOrder.copyOut past f n
  paired _ _ hown hsock _ := .ok hown hsock

theorem beside_ite (b : Prop) [Decidable b] {x x' y y' : Rd σ α} (hx : Beside q q' E R S x x')
    (hy : Beside q q' E R S y y') : Beside q q' E R S (if b then x else y) (if b then x' else y') := by
  split
  · exact hx
  · exact hy

section
variable (hE : ∀ s s', R s s' → E s s')
include hE

theorem beside_assertThat (b : Bool) : Beside q q' E R R (assertThat b) (assertThat b) where
  forward := along_assertThat ahead_readOrder b
  paired _ _ hown hsock _ := by
    cases b with
    | true => exact .ok hown hsock
    | false => exact .error (hE _ _ hown) hsock

variable (hq : q = [] → q' = [])
include hq

theorem paired_recv {s s' : σ} {k k' : Rcv} (hown : R s s') (hsock : Apart q q' k k')
    (hleaves : Leaves q ((recv : Rd σ Bytes).run ⟨s, k⟩)) :
    Paired q q' E (fun t t' => t = s ∧ t' = s') ((recv : Rd σ Bytes).run ⟨s, k⟩) (recv.run ⟨s', k'⟩) := by
  obtain ⟨cur, next, o⟩ := k
  obtain ⟨cur', next', o'⟩ := k'
  obtain ⟨hcur, ms, hnext, hnext'⟩ := hsock
  simp only at hcur hnext hnext'
  subst hcur hnext hnext'
  cases cur' with
  | cons f fs => exact .ok ⟨rfl, rfl⟩ ⟨rfl, ms, rfl, rfl⟩
  | nil =>
    cases ms with
    | cons m ms => exact .ok ⟨rfl, rfl⟩ ⟨rfl, ms, rfl, rfl⟩
    | nil =>
      cases q with
      | nil =>
        rw [hq rfl]
        exact .error (hE _ _ hown) ⟨rfl, [], rfl, rfl⟩
      | cons m q =>
        have hlt : q.length + 1 ≤ q.length := hleaves
        omega

theorem beside_recv : Beside q q' E R R recv recv where
  forward := ahead_readOrder.recv
  paired p p' hown hsock hleaves := by
    have hrecv := paired_recv hE hq hown hsock hleaves
    revert hrecv
    generalize (recv : Rd σ Bytes).run p = r
    generalize (recv : Rd σ Bytes).run p' = r'
    intro hrecv
    cases hrecv with
    | ok hs hsock => exact .ok (by rwa [hs.1, hs.2]) hsock
    | error hown hsock => exact .error hown hsock

theorem beside_recvPair (g : Bytes → Bytes → α) : Beside q q' E R R (recvPair g) (recvPair g) :=
  beside_bind (beside_recv hE hq) fun _ => beside_bind (beside_recv hE hq) fun _ => beside_pure _

omit hE hq in
/-- Bounds that are large enough do not matter, so that the two loops may have different ones. -/
theorem paired_whileMoreN {body body' : Rd σ α} (hb : Beside q q' E R R body body') (he : Eats body)
    (he' : Eats body') : ∀ (n n' : Nat) (p p' : Proc σ), p.sock.left ≤ n → p'.sock.left ≤ n' →
      R p.own p'.own → Apart q q' p.sock p'.sock → Leaves q ((whileMoreN body n).run p) →
      Paired q q' E R ((whileMoreN body n).run p) ((whileMoreN body' n').run p') := by
  intro n
  induction n with
  | zero =>
    rintro n' ⟨s, cur, next, o⟩ ⟨s', cur', next', o'⟩ hn - hown hsock -
    obtain rfl : cur' = cur := hsock.1
    obtain rfl : cur' = [] := List.eq_nil_of_length_eq_zero (by simp only [Rcv.left] at hn; omega)
    rw [run_whileMoreN_nil, run_whileMoreN_nil]
    exact .ok hown hsock
  | succ n ih =>
    rintro n' ⟨s, cur, next, o⟩ ⟨s', cur', next', o'⟩ hn hn' hown hsock hleaves
    obtain rfl : cur' = cur := hsock.1
    cases cur' with
    | nil =>
      rw [run_whileMoreN_nil, run_whileMoreN_nil]
      exact .ok hown hsock
    | cons f fs =>
      obtain ⟨n', rfl⟩ : ∃ k, n' = k + 1 := ⟨n' - 1, by simp [Rcv.left] at hn'; omega⟩
      rw [run_whileMoreN_cons] at hleaves ⊢
      rw [run_whileMoreN_cons]
      have hloop : Forward (whileMoreN body n) := along_whileMoreN ahead_readOrder hb.forward n
      have hpure : ∀ (a : α) as, Forward (pure (a :: as) : Rd σ (List α)) := fun _ _ =>
        along_pure ahead_readOrder _
      refine paired_bind (fun a => along_bind ahead_readOrder hloop (hpure a)) hleaves
        (hb.paired _ _ hown hsock) fun a t t' hrun hrun' ht hsock' hleaves' => ?_
      have hlt := he _ a t hrun
      have hlt' := he' _ a t' hrun'
      exact paired_bind (hpure a) hleaves' (ih n' t t' (by omega) (by omega) ht hsock')
        fun as u u' _ _ hu hsock'' _ => .ok hu hsock''

omit hE hq in
theorem beside_whileMore {body body' : Rd σ α} (hb : Beside q q' E R R body body') (he : Eats body)
    (he' : Eats body') : Beside q q' E R R (whileMore body) (whileMore body') where
  forward := along_whileMore ahead_readOrder hb.forward
  paired p p' hown hsock hleaves :=
    paired_whileMoreN hb he he' _ _ p p' (le_refl _) (le_refl _) hown hsock hleaves

end

end

end CppLinuxLearn.Lib.Multipart
