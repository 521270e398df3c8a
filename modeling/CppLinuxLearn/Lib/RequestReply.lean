import Mathlib.Data.List.Basic
import Mathlib.Logic.Function.Basic

/-!
# Requests and replies

Clients that ask one question at a time, and what is on the way between them and the servers: requests and
replies, each with the client it belongs to, in no order. However they are relayed, every client gets the answer
to each of its questions once and in the order of the questions (`Sound`).
-/

namespace CppLinuxLearn.Lib.RequestReply

structure State (I Q A : Type) where
  /-- the questions of a client that were answered -/
  rounds : I → Nat
  waiting : I → Bool
  got : I → List A
  requests : List (I × Q)
  replies : List (I × A)

section
variable {I Q A : Type} [DecidableEq I] (question : I → Nat → Q) (answer : Q → A)

def init : State I Q A := ⟨fun _ => 0, fun _ => false, fun _ => [], [], []⟩

inductive Step (s : State I Q A) : State I Q A → Prop
  /-- something goes on its way -/
  | relay {requests : List (I × Q)} {replies : List (I × A)} (hrequests : requests.Perm s.requests)
    (hreplies : replies.Perm s.replies) : Step s { s with requests, replies }
  | ask (c : I) (hidle : s.waiting c = false) : Step s { s with
      waiting := Function.update s.waiting c true
      requests := (c, question c (s.rounds c)) :: s.requests }
  | serve (c : I) (q : Q) (rest : List (I × Q)) (hrequest : s.requests.Perm ((c, q) :: rest)) : Step s { s with
      requests := rest
      replies := (c, answer q) :: s.replies }
  | receive (c : I) (a : A) (rest : List (I × A)) (hreply : s.replies.Perm ((c, a) :: rest)) : Step s { s with
      rounds := Function.update s.rounds c (s.rounds c + 1)
      waiting := Function.update s.waiting c false
      got := Function.update s.got c (s.got c ++ [a])
      replies := rest }

/-- Of the client. -/
def isOf {B : Type} (c : I) (p : I × B) : Bool := decide (p.1 = c)

/-- What a client got are the answers to its questions, and what is on the way is its current question or the
answer to it, once. -/
structure Sound (s : State I Q A) : Prop where
  got : ∀ c, s.got c = (List.range (s.rounds c)).map fun i => answer (question c i)
  request : ∀ p ∈ s.requests, p.2 = question p.1 (s.rounds p.1)
  reply : ∀ p ∈ s.replies, p.2 = answer (question p.1 (s.rounds p.1))
  once : ∀ c, s.requests.countP (isOf c) + s.replies.countP (isOf c) = (s.waiting c).toNat

variable {question answer} {s t : State I Q A}

theorem sound_init : Sound question answer (init : State I Q A) :=
  ⟨fun _ => rfl, by simp [init], by simp [init], fun _ => rfl⟩

theorem Sound.pending (h : Sound question answer s) {c : I} (hc : s.waiting c = true) :
    (∃ q, (c, q) ∈ s.requests) ∨ ∃ a, (c, a) ∈ s.replies := by
  have honce := h.once c
  rw [hc] at honce
  by_cases hpos : 0 < s.requests.countP (isOf c)
  · obtain ⟨⟨d, q⟩, hmem, hd⟩ := List.countP_pos_iff.1 hpos
    obtain rfl : d = c := by simpa [isOf] using hd
    exact .inl ⟨q, hmem⟩
  · have hpos : 0 < s.replies.countP (isOf c) := by
      simp at honce
      omega
    obtain ⟨⟨d, a⟩, hmem, hd⟩ := List.countP_pos_iff.1 hpos
    obtain rfl : d = c := by simpa [isOf] using hd
    exact .inr ⟨a, hmem⟩

theorem Sound.waits (h : Sound question answer s) {c : I}
    (hc : (∃ q, (c, q) ∈ s.requests) ∨ ∃ a, (c, a) ∈ s.replies) : s.waiting c = true := by
  have honce := h.once c
  cases hw : s.waiting c with
  | true => rfl
  | false =>
    rw [hw] at honce
    simp only [Bool.toNat_false, Nat.add_eq_zero_iff, List.countP_eq_zero] at honce
    rcases hc with ⟨q, hq⟩ | ⟨a, ha⟩
    · exact absurd (decide_eq_true rfl) (honce.1 _ hq)
    · exact absurd (decide_eq_true rfl) (honce.2 _ ha)

theorem Sound.step (h : Sound question answer s) (hstep : Step question answer s t) : Sound question answer t := by
  cases hstep with
  | relay hrequests hreplies =>
    refine ⟨h.got, fun p hp => h.request p (hrequests.subset hp), fun p hp => h.reply p (hreplies.subset hp), ?_⟩
    intro c
    rw [hrequests.countP_eq, hreplies.countP_eq]
    exact h.once c
  | ask c hidle =>
    refine ⟨h.got, List.forall_mem_cons.2 ⟨rfl, h.request⟩, h.reply, fun d => ?_⟩
    have honce := h.once d
    by_cases hd : d = c
    · subst hd
      have hsame : isOf d (d, question d (s.rounds d)) = true := decide_eq_true rfl
      rw [hidle, Bool.toNat_false] at honce
      dsimp only
      rw [List.countP_cons_of_pos hsame, Function.update_self, Bool.toNat_true]
      omega
    · have hnot : ¬ isOf d (c, question c (s.rounds c)) = true := fun h => hd (of_decide_eq_true h).symm
      dsimp only
      rw [List.countP_cons_of_neg hnot, Function.update_of_ne hd]
      exact honce
  | serve c q rest hrequest =>
    have hmem : (c, q) ∈ s.requests := hrequest.symm.subset List.mem_cons_self
    refine ⟨h.got, fun p hp => h.request p (hrequest.symm.subset (List.mem_cons_of_mem _ hp)),
      List.forall_mem_cons.2 ⟨congrArg answer (h.request _ hmem), h.reply⟩, fun d => ?_⟩
    have honce := h.once d
    rw [hrequest.countP_eq, List.countP_cons] at honce
    have hsame : isOf d (c, answer q) = isOf d (c, q) := rfl
    show rest.countP (isOf d) + (_ :: s.replies).countP (isOf d) = _
    rw [List.countP_cons, hsame, ← honce]
    omega
  | receive c a rest hreply =>
    have hmem : (c, a) ∈ s.replies := hreply.symm.subset List.mem_cons_self
    -- nothing else of the client is on the way
    have honce : ∀ d, s.requests.countP (isOf d) + (rest.countP (isOf d) + if isOf d (c, a) then 1 else 0) =
        (s.waiting d).toNat := by
      intro d
      have := h.once d
      rwa [hreply.countP_eq, List.countP_cons] at this
    have hnone : s.requests.countP (isOf c) = 0 ∧ rest.countP (isOf c) = 0 := by
      have hc := honce c
      have hle := Bool.toNat_le (s.waiting c)
      simp only [isOf, decide_true, if_true] at hc ⊢
      omega
    have hother : ∀ {B : Type} {l : List (I × B)}, l.countP (isOf c) = 0 → ∀ p ∈ l, p.1 ≠ c := by
      intro B l hl p hp
      simpa [isOf] using List.countP_eq_zero.1 hl p hp
    refine ⟨fun d => ?_, fun p hp => ?_, fun p hp => ?_, fun d => ?_⟩
    · by_cases hd : d = c
      · subst hd
        have ha : a = answer (question d (s.rounds d)) := h.reply _ hmem
        simp only [Function.update_self, List.range_succ, List.map_append, List.map_singleton, h.got d, ha]
      · simpa only [Function.update_of_ne hd] using h.got d
    · dsimp only
      rw [Function.update_of_ne (hother hnone.1 p hp)]
      exact h.request p hp
    · dsimp only
      rw [Function.update_of_ne (hother hnone.2 p hp)]
      exact h.reply p (hreply.symm.subset (List.mem_cons_of_mem _ hp))
    · by_cases hd : d = c
      · subst hd
        dsimp only
        rw [hnone.1, hnone.2, Function.update_self, Bool.toNat_false]
      · have hnot : ¬ isOf d (c, a) = true := fun h => hd (of_decide_eq_true h).symm
        have hd' := honce d
        rw [if_neg hnot, Nat.add_zero] at hd'
        dsimp only
        rw [hd', Function.update_of_ne hd]

end

end CppLinuxLearn.Lib.RequestReply
