import CppLinuxLearn.Lib.Steps
import CppLinuxLearn.Solcom.CachedBuffer

/-!
# The read cursor of a ring

`nCurrent` is to stay between the head and the place behind the tail. Its guard compares it with
`nTail`, which is the largest number before the first push, so on a new ring the cursor runs away from
the tail; and `current` looks at the head and the tail only, so a cursor that has come to the place
behind the tail gives the slot of an element that is not there.
-/

namespace CppLinuxLearn.Solcom

open Lib Steps

inductive RingCall
  | allocate
  | tailForward
  | headForward
  | currentForward
deriving DecidableEq, Repr

/-- A ring, and the slots of the elements that were pushed and are not popped. -/
structure LiveRing (T : Type) where
  ring : CachedBuffer T
  live : List Nat

namespace LiveRing
variable {T : Type}

def new (cap : Nat) (fresh : Nat → T) : LiveRing T := ⟨.new cap fresh, []⟩

/-- The slot that is pushed is the one that `allocate` gives. -/
def step (s : LiveRing T) : RingCall → Option (LiveRing T)
  | .allocate => some s
  | .tailForward =>
    some ⟨s.ring.tailForward.2,
      if s.ring.tailForward.1 then s.live ++ [s.ring.slot (s.ring.nTail + 1)] else s.live⟩
  | .headForward =>
    some ⟨s.ring.headForward.2, if s.ring.headForward.1 then s.live.tail else s.live⟩
  | .currentForward => some ⟨s.ring.currentForward.2, s.live⟩

/-- The cursor is in the live window, and what `current` gives is live. -/
structure InWindow (s : LiveRing T) : Prop where
  le : s.ring.nHead ≤ s.ring.nCurrent
  le_tail : s.ring.nCurrent ≤ s.ring.nTail + 1
  live : ∀ i, s.ring.current = some i → i ∈ s.live

/-- The cursor moves once something was pushed, and comes behind the last element only in a full ring,
where it is left alone until the ring is empty. -/
def Follows (s : LiveRing T) : RingCall → Prop
  | .currentForward => s.ring.nTail + 1 ≠ 0 ∧ (s.ring.nCurrent = s.ring.nTail → s.ring.isFull = true)
  | .headForward => s.ring.isFull = true → s.ring.nCurrent = s.ring.nTail + 1 → s.ring.capacity = 1
  | _ => True

instance (s : LiveRing T) : (a : RingCall) → Decidable (s.Follows a)
  | .currentForward => inferInstanceAs (Decidable (_ ∧ (_ → _)))
  | .headForward => inferInstanceAs (Decidable (_ → _ → _))
  | .allocate | .tailForward => .isTrue trivial

/-- `k` elements were pushed and `p` of them popped, the cursor is at `j`, and there are `n` calls to
come. -/
structure At (s : LiveRing T) (p j k n : Nat) : Prop where
  span : s.ring.Span p k
  current : s.ring.nCurrent = BitVec.ofNat 64 j
  le : p ≤ j
  le_tail : j ≤ k
  calls : k + n < 2 ^ 63
  live : s.live = (List.range' p (k - p)).map (· % s.ring.capacity)

/-- The cursor is behind the last element only if the ring is empty or full. -/
def Good (n : Nat) (s : LiveRing T) : Prop :=
  ∃ p j k, s.At p j k n ∧ (j = k → p = k ∨ k = p + s.ring.capacity)

section
variable {s : LiveRing T} {p j k n : Nat}

namespace At

theorem mem_live (h : s.At p j k n) {i : Nat} :
    i ∈ s.live ↔ ∃ m, p ≤ m ∧ m < k ∧ m % s.ring.capacity = i := by
  have hle := h.span.le
  rw [h.live, List.mem_map]
  refine exists_congr fun m => ?_
  rw [List.mem_range'_1, and_assoc, Nat.add_sub_cancel' hle]

theorem toNat_current (h : s.At p j k n) : s.ring.nCurrent.toNat = j := by
  have := h.calls
  have := h.le_tail
  rw [h.current, BitVec.toNat_ofNat, Nat.mod_eq_of_lt (by omega)]

theorem toNat_tail (h : s.At p j k n) : (s.ring.nTail + 1).toNat = k := by
  have := h.calls
  rw [h.span.tail, BitVec.toNat_ofNat, Nat.mod_eq_of_lt (by omega)]

theorem toNat_head (h : s.At p j k n) : s.ring.nHead.toNat = p := by
  have := h.calls
  have := h.span.le
  rw [h.span.head, BitVec.toNat_ofNat, Nat.mod_eq_of_lt (by omega)]

theorem toNat_tail_succ (h : s.At p j k n) : (s.ring.nTail.toNat + 1) % 2 ^ 64 = k :=
  (BitVec.toNat_add s.ring.nTail 1).symm.trans h.toNat_tail

theorem tail_lt_current_iff (h : s.At p j k n) : s.ring.nTail < s.ring.nCurrent ↔ k ≠ 0 ∧ j = k := by
  have htail := h.toNat_tail_succ
  have hle := h.le_tail
  have hcalls := h.calls
  have hbound := s.ring.nTail.isLt
  rw [BitVec.lt_def, h.toNat_current]
  omega

theorem tail_succ_eq_zero_iff (h : s.At p j k n) : s.ring.nTail + 1 = 0 ↔ k = 0 := by
  rw [← BitVec.toNat_inj, h.toNat_tail]
  rfl

theorem current_eq_tail_succ_iff (h : s.At p j k n) : s.ring.nCurrent = s.ring.nTail + 1 ↔ j = k := by
  rw [← BitVec.toNat_inj, h.toNat_tail, h.toNat_current]

theorem current_eq_tail_iff (h : s.At p j k n) : s.ring.nCurrent = s.ring.nTail ↔ j + 1 = k := by
  have htail := h.toNat_tail_succ
  have hle := h.le_tail
  have hcalls := h.calls
  have hbound := s.ring.nTail.isLt
  rw [← BitVec.toNat_inj, h.toNat_current]
  omega

theorem current_eq (h : s.At p j k n) :
    s.ring.current = if p = k then none else some (j % s.ring.capacity) := by
  rw [CachedBuffer.current, h.current, h.span.toSized.slot_eq]
  simp only [h.span.isEmpty_iff]

theorem mem_live_tail_iff (h : s.At p j k n) (hne : p ≠ k) :
    k % s.ring.capacity ∈ s.live ↔ k = p + s.ring.capacity := by
  have hle := h.span.le
  have hroom := h.span.room
  rw [h.mem_live]
  constructor
  · rintro ⟨m, hpm, hmk, hmod⟩
    by_contra hlt
    exact Ring.mod_ne_mod hmk (by omega) hmod
  · intro hk
    exact ⟨p, le_rfl, by omega, by rw [hk, Nat.add_mod_right]⟩

theorem inWindow (h : s.At p j k n) (hend : j = k → p = k ∨ k = p + s.ring.capacity) : s.InWindow where
  le := by
    rw [BitVec.le_def, h.toNat_head, h.toNat_current]
    exact h.le
  le_tail := by
    rw [BitVec.le_def, h.toNat_tail, h.toNat_current]
    exact h.le_tail
  live := by
    intro i hi
    rw [h.current_eq] at hi
    split at hi
    · cases hi
    · rename_i hne
      obtain rfl := Option.some.inj hi
      by_cases hj : j = k
      · rw [hj, h.mem_live_tail_iff hne]
        exact (hend hj).resolve_left hne
      · have hle := h.le_tail
        exact h.mem_live.2 ⟨j, h.le, by omega, rfl⟩

theorem full_of_inWindow (h : s.At p j k n) (hw : s.InWindow) (hj : j = k) (hne : p ≠ k) :
    k = p + s.ring.capacity := by
  refine (h.mem_live_tail_iff hne).1 (hw.live _ ?_)
  rw [h.current_eq, if_neg hne, hj]

end At

/-! ## The calls -/

theorem good_new {cap : Nat} (hpos : 1 ≤ cap) (hcap : cap < 2 ^ 31) (fresh : Nat → T) (hn : n < 2 ^ 63) :
    Good n (new cap fresh) := by
  refine ⟨0, 0, 0, ⟨CachedBuffer.span_new hpos hcap fresh, rfl, le_rfl, le_rfl, ?_, rfl⟩, fun _ => .inl rfl⟩
  rwa [Nat.zero_add]

theorem Good.mono (h : Good (n + 1) s) : Good n s := by
  obtain ⟨p, j, k, hat, hend⟩ := h
  have hcalls := hat.calls
  exact ⟨p, j, k, { hat with calls := by omega }, hend⟩

theorem Good.tailForward {t : LiveRing T} (h : Good (n + 1) s) (ht : s.step .tailForward = some t) :
    Good n t := by
  by_cases hfull : s.ring.isFull = true
  · have hsame : s.ring.tailForward = (false, s.ring) := if_pos hfull
    rw [step, hsame] at ht
    obtain rfl := Option.some.inj ht
    exact h.mono
  obtain ⟨p, j, k, hat, hend⟩ := h
  have hne : k ≠ p + s.ring.capacity := fun hk => hfull (hat.span.isFull_iff.2 hk)
  obtain ⟨htrue, hspan, hcap⟩ := hat.span.tailForward hne
  rw [step, htrue, if_pos rfl] at ht
  obtain rfl := Option.some.inj ht
  have hcurrent : s.ring.tailForward.2.nCurrent = s.ring.nCurrent := by
    rw [CachedBuffer.tailForward, if_neg hfull]
  have hle := hat.span.le
  have htail := hat.le_tail
  have hcalls := hat.calls
  refine ⟨p, j, k + 1, ⟨hspan, hcurrent.trans hat.current, hat.le, by omega, by omega, ?_⟩, by omega⟩
  show s.live ++ [s.ring.slot (s.ring.nTail + 1)] = _
  rw [hat.span.tail, hat.span.toSized.slot_eq, hat.live, hcap, Nat.sub_add_comm hle, List.range'_concat,
    List.map_append, List.map_singleton, Nat.one_mul, Nat.add_sub_cancel' hle]

theorem At.headForward {t : LiveRing T} (h : s.At p j k (n + 1)) (hne : p ≠ k)
    (ht : s.step .headForward = some t) :
    t.At (p + 1) (max j (p + 1)) k n ∧ t.ring.capacity = s.ring.capacity := by
  have hempty : ¬ s.ring.isEmpty = true := fun he => hne (h.span.isEmpty_iff.1 he)
  obtain ⟨htrue, hspan, hcap⟩ := h.span.headForward hne
  rw [step, htrue, if_pos rfl] at ht
  obtain rfl := Option.some.inj ht
  have hle := h.span.le
  have hcalls := h.calls
  have htail := h.le_tail
  have hhead : (s.ring.nHead + 1).toNat = p + 1 := by
    have hone : (1 : BitVec 64).toNat = 1 := rfl
    rw [BitVec.toNat_add, h.toNat_head, hone, Nat.mod_eq_of_lt (by omega)]
  have hcurrent : s.ring.headForward.2.nCurrent = BitVec.ofNat 64 (max j (p + 1)) := by
    rw [CachedBuffer.headForward, if_neg hempty]
    simp only [BitVec.lt_def, hhead, h.toNat_current]
    by_cases hlt : j < p + 1
    · rw [if_pos hlt, Nat.max_eq_right (by omega), h.span.head, BitVec.ofNat_add]
      rfl
    · rw [if_neg hlt, Nat.max_eq_left (by omega), h.current]
  refine ⟨⟨hspan, hcurrent, Nat.le_max_right .., by omega, by omega, ?_⟩, hcap⟩
  obtain ⟨m, hm⟩ : ∃ m, k - p = m + 1 := ⟨k - p - 1, by omega⟩
  show s.live.tail = _
  rw [h.live, hcap, hm, List.range'_succ, List.map_cons, List.tail_cons, show k - (p + 1) = m by omega]

theorem Good.headForward {t : LiveRing T} (h : Good (n + 1) s) (hc : s.Follows .headForward)
    (ht : s.step .headForward = some t) : Good n t := by
  obtain ⟨p, j, k, hat, hend⟩ := id h
  by_cases hne : p = k
  · have hsame : s.ring.headForward = (false, s.ring) := if_pos (hat.span.isEmpty_iff.2 hne)
    rw [step, hsame] at ht
    obtain rfl := Option.some.inj ht
    exact h.mono
  have hle := hat.le_tail
  have hspan := hat.span.le
  refine ⟨p + 1, max j (p + 1), k, (hat.headForward hne ht).1, fun hmax => .inl ?_⟩
  -- a cursor that was behind the last element already was so in a full ring
  by_cases hj : j = k
  · have hk := (hend hj).resolve_left hne
    have hone := hc (hat.span.isFull_iff.2 hk) (hat.current_eq_tail_succ_iff.2 hj)
    omega
  · omega

theorem step_currentForward (hlt : ¬ s.ring.nTail < s.ring.nCurrent) :
    s.step .currentForward = some ⟨{ s.ring with nCurrent := s.ring.nCurrent + 1 }, s.live⟩ := by
  have hmoved : s.ring.currentForward = (true, { s.ring with nCurrent := s.ring.nCurrent + 1 }) := if_neg hlt
  rw [step, hmoved]

theorem At.currentForward {t : LiveRing T} (h : s.At p j k (n + 1)) (hjk : j ≠ k)
    (ht : s.step .currentForward = some t) :
    t.At p (j + 1) k n ∧ t.ring.capacity = s.ring.capacity := by
  have hlt : ¬ s.ring.nTail < s.ring.nCurrent := fun hlt => hjk (h.tail_lt_current_iff.1 hlt).2
  rw [step_currentForward hlt] at ht
  obtain rfl := Option.some.inj ht
  have hle := h.le
  have htail := h.le_tail
  have hcalls := h.calls
  refine ⟨⟨h.span.moved _, ?_, by omega, by omega, by omega, h.live⟩, rfl⟩
  show s.ring.nCurrent + 1 = _
  rw [h.current, BitVec.ofNat_add]
  rfl

theorem Good.currentForward {t : LiveRing T} (h : Good (n + 1) s) (hc : s.Follows .currentForward)
    (ht : s.step .currentForward = some t) : Good n t := by
  obtain ⟨p, j, k, hat, hend⟩ := id h
  have hpushed : k ≠ 0 := fun hk => hc.1 (hat.tail_succ_eq_zero_iff.2 hk)
  by_cases hjk : j = k
  · have hsame : s.ring.currentForward = (false, s.ring) :=
      if_pos (hat.tail_lt_current_iff.2 ⟨hpushed, hjk⟩)
    rw [step, hsame] at ht
    obtain rfl := Option.some.inj ht
    exact h.mono
  obtain ⟨hafter, hcap⟩ := hat.currentForward hjk ht
  refine ⟨p, j + 1, k, hafter, fun hj => .inr ?_⟩
  rw [hcap]
  exact hat.span.isFull_iff.1 (hc.2 (hat.current_eq_tail_iff.2 hj))

theorem Good.after {t : LiveRing T} {a : RingCall} (h : Good (n + 1) s) (hc : s.Follows a)
    (ht : s.step a = some t) : Good n t := by
  cases a with
  | allocate =>
    obtain rfl := Option.some.inj ht
    exact h.mono
  | tailForward => exact h.tailForward ht
  | headForward => exact h.headForward hc ht
  | currentForward => exact h.currentForward hc ht

/-- A call after which the cursor is in the window was one that `Follows` allows. -/
theorem Good.follows {t : LiveRing T} {a : RingCall} (h : Good (n + 1) s) (ht : s.step a = some t)
    (hw : t.InWindow) : s.Follows a := by
  obtain ⟨p, j, k, hat, -⟩ := h
  have hle := hat.le
  have htail := hat.le_tail
  have hpos := hat.span.toSized.capacity_pos
  cases a with
  | allocate => trivial
  | tailForward => trivial
  | headForward =>
    intro hfull hcurrent
    have hk := hat.span.isFull_iff.1 hfull
    have hj := hat.current_eq_tail_succ_iff.1 hcurrent
    obtain ⟨hafter, hcap⟩ := hat.headForward (by omega) ht
    by_contra hone
    have := hafter.full_of_inWindow hw (by omega) (by omega)
    omega
  | currentForward =>
    constructor
    · -- before the first push the cursor would come behind a tail that is at its place
      intro hzero
      have hk := hat.tail_succ_eq_zero_iff.1 hzero
      have hlt : ¬ s.ring.nTail < s.ring.nCurrent := fun hlt => (hat.tail_lt_current_iff.1 hlt).1 hk
      rw [step_currentForward hlt] at ht
      obtain rfl := Option.some.inj ht
      have hcursor : s.ring.nCurrent + 1 ≤ s.ring.nTail + 1 := hw.le_tail
      rw [hzero, hat.current, show j = 0 by omega] at hcursor
      exact absurd hcursor (by decide)
    · intro hcurrent
      have hj := hat.current_eq_tail_iff.1 hcurrent
      obtain ⟨hafter, hcap⟩ := hat.currentForward (by omega) ht
      have := hafter.full_of_inWindow hw hj (by omega)
      exact hat.span.isFull_iff.2 (by omega)

/-- **The cursor.** On a ring of any capacity, in every run of fewer than `2 ^ 63` calls, the cursor is in
the live window and `current` gives null or a live slot in every state exactly if the cursor is moved
only after a push, and comes behind the last element only in a full ring, on which then no pop follows
unless it is that of its only element. -/
theorem inWindow_iff {cap : Nat} (hpos : 1 ≤ cap) (hcap : cap < 2 ^ 31) (fresh : Nat → T) {as : List RingCall}
    {t : LiveRing T} (h : run step (new cap fresh) as = some t) (hlen : as.length < 2 ^ 63) :
    Throughout step InWindow (new cap fresh) as ↔ Meets step Follows (new cap fresh) as :=
  throughout_iff_meets_of_length (I := Good) (fun _ _ _ _ hs hc ht => hs.after hc ht)
    (fun _ _ ⟨_, _, _, hat, hend⟩ => hat.inWindow hend) (fun _ _ _ _ hs ht hw => hs.follows ht hw)
    (good_new hpos hcap fresh hlen) h

end

/-- Two elements are pushed, the cursor moves to the second, and both are popped. -/
def readsAlong : List RingCall :=
  [.allocate, .tailForward, .allocate, .tailForward, .currentForward, .headForward, .headForward]

theorem readsAlong_isSome : (run step (new 128 id) readsAlong).isSome = true := by
  decide +kernel

theorem inWindow_iff_readsAlong :
    Throughout step InWindow (new 128 id) readsAlong ↔ Meets step Follows (new 128 id) readsAlong :=
  inWindow_iff (by decide) (by decide) id (Option.some_get readsAlong_isSome).symm (by decide)

example : Meets step Follows (new 128 id) readsAlong := by decide +kernel

/-- The cursor of a new ring comes behind the tail at once, and a cursor at the last element comes to a
slot that was never pushed. -/
theorem not_inWindow :
    ¬ Throughout step InWindow (new 128 id) [.currentForward] ∧
      ¬ Throughout step InWindow (new 128 id) [.tailForward, .currentForward] := by
  constructor
  · rintro ⟨-, hall⟩
    have hw : InWindow ⟨(CachedBuffer.new 128 id).currentForward.2, []⟩ := hall _ rfl
    exact absurd hw.le_tail (by decide +kernel)
  · rintro ⟨-, hall⟩
    have hw : InWindow ⟨(CachedBuffer.new 128 id).tailForward.2.currentForward.2, [0]⟩ :=
      (hall _ rfl).2 _ rfl
    exact absurd (hw.live 1 (by decide +kernel)) (by decide)

end LiveRing

end CppLinuxLearn.Solcom
