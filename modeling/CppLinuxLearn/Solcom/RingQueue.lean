import CppLinuxLearn.Lib.Containers
import CppLinuxLearn.Solcom.CachedBuffer

/-!
# The ring is a bounded queue

A push is `allocate`, the write into the slot and `tailForward`, a pop is `front` and `headForward`.
Driven by any pushes and pops, a `CachedBuffer` answers as the queue of its capacity does. Positions
count without bound while the counters wrap, so the sequence may be of any length.
-/

namespace CppLinuxLearn.Solcom

open Lib

namespace CachedBuffer
variable {T : Type}

def push (c : CachedBuffer T) (x : T) : Fifo.Answer T × CachedBuffer T :=
  match c.allocate with
  | none => (.took none, c.tailForward.2)
  | some i =>
    let c := c.set i x
    (.took (if c.tailForward.1 then some x else none), c.tailForward.2)

def pop (c : CachedBuffer T) : Fifo.Answer T × CachedBuffer T :=
  (.gave (c.front.bind (c.elements[·]?)), c.headForward.2)

def exec (c : CachedBuffer T) : Fifo.Op T → Fifo.Answer T × CachedBuffer T
  | .push x => c.push x
  | .pop => c.pop

/-- The slots of the first `n` positions from the head on. -/
def live (c : CachedBuffer T) (n : Nat) : List Nat :=
  (List.range n).map fun j => c.slot (c.nHead + BitVec.ofNat 64 j)

/-- What the functions of the ring return is what they should for a queue with these contents. -/
structure Shows (c : CachedBuffer T) (xs : List T) : Prop where
  allocate_none : c.allocate = none ↔ xs.length = c.capacity
  allocate_free : ∀ i, c.allocate = some i → i < c.elements.length ∧ i ∉ c.live xs.length
  live : (c.live xs.length).map (c.elements[·]?) = xs.map some
  front : c.front.bind (c.elements[·]?) = xs.head?
  front_none : c.front = none ↔ xs = []
  tailForward : c.tailForward.1 = false ↔ xs.length = c.capacity
  headForward : c.headForward.1 = false ↔ xs = []

/-! ## The constructor -/

theorem bitLoop_two_pow {fuel e : Nat} (h : e < fuel) : bitLoop fuel (2 ^ e) = e + 1 := by
  induction fuel generalizing e with
  | zero => omega
  | succ fuel ih =>
    have hpos := Nat.two_pow_pos e
    rw [bitLoop, if_neg (by omega)]
    cases e with
    | zero =>
      cases fuel <;> rfl
    | succ e =>
      have hhalf : 2 ^ (e + 1) >>> 1 = 2 ^ e := by
        rw [Nat.shiftRight_one, Nat.pow_succ, Nat.mul_div_cancel _ (by decide)]
      rw [hhalf, ih (by omega)]

theorem capacity_new {e : Nat} (he : e ≤ 30) (fresh : Nat → T) : (new (2 ^ e) fresh).capacity = 2 ^ e := by
  simp [new, bitLoop_two_pow (show e < 32 by omega)]

/-! ## The contents -/

/-- The queue is in the ring, from position `p` on. -/
structure Carries (c : CachedBuffer T) (p : Nat) (xs : List T) : Prop extends c.Span p (p + xs.length) where
  get : ∀ j < xs.length, c.elements[(p + j) % c.capacity]? = xs[j]?

variable {c : CachedBuffer T} {p : Nat} {xs : List T}

theorem Carries.mem_live (h : c.Carries p xs) {i : Nat} :
    i ∈ c.live xs.length ↔ ∃ j < xs.length, (p + j) % c.capacity = i := by
  simp only [live, h.head, ← BitVec.ofNat_add, h.toSized.slot_eq, List.mem_map, List.mem_range]

theorem Carries.front (h : c.Carries p xs) : c.front.bind (c.elements[·]?) = xs.head? := by
  rw [h.toSpan.front_eq]
  cases xs with
  | nil => simp
  | cons x xs =>
    rw [if_neg (by simp), Option.bind_some]
    exact h.get 0 (by simp)

theorem Carries.shows (h : c.Carries p xs) : c.Shows xs where
  allocate_none := by
    rw [h.toSpan.allocate_eq]
    simp
  allocate_free i hi := by
    rw [h.toSpan.allocate_eq] at hi
    obtain ⟨hfull, hi⟩ := Option.ite_none_left_eq_some.1 hi
    cases hi
    have hroom := h.room
    refine ⟨h.toSized.lt_length _, fun hmem => ?_⟩
    obtain ⟨j, hj, heq⟩ := h.mem_live.1 hmem
    exact Ring.mod_ne_mod (by omega) (by omega) heq
  live := by
    refine List.ext_getElem (by simp [CachedBuffer.live]) fun j hj _ => ?_
    have hlen : j < xs.length := by simpa [CachedBuffer.live] using hj
    have hget := h.get j hlen
    simp only [CachedBuffer.live, List.map_map, List.getElem_map, List.getElem_range, Function.comp_apply, h.head,
      ← BitVec.ofNat_add, h.toSized.slot_eq, hget, List.getElem?_eq_getElem hlen]
  front := h.front
  front_none := by
    rw [h.toSpan.front_eq]
    simp
  tailForward := by
    have hfull := h.toSpan.isFull_iff
    rw [CachedBuffer.tailForward]
    split
    · rename_i hf
      exact iff_of_true rfl (by have := hfull.1 hf; omega)
    · rename_i hf
      exact iff_of_false (by simp) fun hlen => hf (hfull.2 (by omega))
  headForward := by
    have hempty := h.toSpan.isEmpty_iff
    rw [CachedBuffer.headForward]
    split
    · rename_i he
      exact iff_of_true rfl (List.eq_nil_of_length_eq_zero (by have := hempty.1 he; omega))
    · rename_i he
      exact iff_of_false (by simp) fun hnil => he (hempty.2 (by simp [hnil]))

theorem Carries.push_full (h : c.Carries p xs) (hfull : xs.length = c.capacity) (x : T) :
    c.push x = (.took none, c) := by
  have hnone := h.shows.allocate_none.2 hfull
  have hisFull : c.isFull = true := h.toSpan.isFull_iff.2 (by omega)
  rw [push, hnone]
  simp only [CachedBuffer.tailForward, hisFull, if_true]

theorem Carries.push (h : c.Carries p xs) (hroom : xs.length ≠ c.capacity) (x : T) :
    (c.push x).1 = .took (some x) ∧ (c.push x).2.Carries p (xs ++ [x]) ∧
      (c.push x).2.capacity = c.capacity := by
  have hmax := h.room
  have hal := h.toSpan.allocate_eq
  rw [if_neg (by omega)] at hal
  have hset := h.toSpan.set ((p + xs.length) % c.capacity) x
  obtain ⟨hok, hspan, hcap⟩ := hset.tailForward (by simp only [CachedBuffer.set]; omega)
  have helements := elements_tailForward (c.set ((p + xs.length) % c.capacity) x)
  rw [CachedBuffer.push, hal]
  simp only [hok, if_true, true_and]
  refine ⟨⟨?_, fun j hj => ?_⟩, hcap⟩
  · rw [List.length_append]
    exact hspan
  · rw [helements, hcap]
    show (c.elements.set ((p + xs.length) % c.capacity) x)[(p + j) % c.capacity]? = _
    have hj' : j < xs.length + 1 := by simpa using hj
    rcases Nat.lt_succ_iff_lt_or_eq.1 hj' with hlt | rfl
    · rw [List.getElem?_set_ne (Ring.mod_ne_mod (by omega) (by omega)).symm, List.getElem?_append_left hlt]
      exact h.get j hlt
    · rw [List.getElem?_set_self (h.toSized.lt_length _), List.getElem?_concat_length]

theorem Carries.pop (h : c.Carries p xs) :
    c.pop.1 = .gave xs.head? ∧ (∃ q, c.pop.2.Carries q xs.tail) ∧ c.pop.2.capacity = c.capacity := by
  refine ⟨congrArg Fifo.Answer.gave h.front, ?_⟩
  have helements := elements_headForward c
  cases xs with
  | nil =>
    have hempty : c.isEmpty = true := h.toSpan.isEmpty_iff.2 rfl
    have hpop : c.pop.2 = c := by
      simp only [CachedBuffer.pop, CachedBuffer.headForward, hempty, if_true]
    rw [hpop]
    exact ⟨⟨p, h⟩, rfl⟩
  | cons x xs =>
    obtain ⟨-, hspan, hcap⟩ := h.toSpan.headForward (by simp)
    have hlen : p + (x :: xs).length = p + 1 + xs.length := by
      rw [List.length_cons]
      omega
    refine ⟨⟨p + 1, ?_, fun j hj => ?_⟩, hcap⟩
    · rw [hlen] at hspan
      exact hspan
    · show c.headForward.2.elements[(p + 1 + j) % c.headForward.2.capacity]? = _
      rw [helements, hcap]
      have hget := h.get (j + 1) (by simpa using hj)
      rw [List.getElem?_cons_succ, Nat.add_comm j 1, ← Nat.add_assoc] at hget
      exact hget

/-! ## The refinement -/

/-- The ring carries the contents of the queue, and has its capacity. -/
def Refines {cap : Nat} (c : CachedBuffer T) (q : Fifo T cap) : Prop :=
  c.capacity = cap ∧ ∃ p, c.Carries p q.contents

theorem refines_exec {cap : Nat} (c : CachedBuffer T) (q : Fifo T cap) (o : Fifo.Op T) (h : c.Refines q) :
    (c.exec o).1 = (q.step o).1 ∧ (c.exec o).2.Refines (q.step o).2 := by
  obtain ⟨hcap, p, hp⟩ := h
  cases o with
  | push x =>
    have hle := q.length_le
    rw [Fifo.step, exec]
    split
    · obtain ⟨hanswer, hcarries, hcap'⟩ := hp.push (by omega) x
      exact ⟨hanswer, hcap'.trans hcap, p, hcarries⟩
    · rw [hp.push_full (by omega)]
      exact ⟨rfl, hcap, p, hp⟩
  | pop =>
    obtain ⟨hanswer, hcarries, hcap'⟩ := hp.pop
    exact ⟨hanswer, hcap'.trans hcap, hcarries⟩

/-- A ring of any power-of-two capacity, driven from its construction by any pushes and pops, answers
as the bounded queue does, its functions show the contents of that queue, and the elements come out in
the order in which they went in. -/
theorem refines_fifo {e : Nat} (he : e ≤ 30) (fresh : Nat → T) (ops : List (Fifo.Op T)) :
    let ran := drive exec (new (2 ^ e) fresh) ops
    let spec := drive Fifo.step (.empty : Fifo T (2 ^ e)) ops
    ran.1 = spec.1 ∧ ran.2.capacity = 2 ^ e ∧ ran.2.Shows spec.2.contents ∧
      ran.1.filterMap Fifo.Answer.taken? = ran.1.filterMap Fifo.Answer.given? ++ spec.2.contents := by
  have hcap : 2 ^ e < 2 ^ 31 := Nat.pow_lt_pow_right (by decide) (by omega)
  have hnew : (new (2 ^ e) fresh).Refines (.empty : Fifo T (2 ^ e)) :=
    ⟨capacity_new he fresh, 0, span_new (Nat.two_pow_pos e) hcap fresh, nofun⟩
  obtain ⟨hanswers, hcap, p, hp⟩ := drive_simulates refines_exec hnew ops
  have hhistory := Fifo.drive_history (.empty : Fifo T (2 ^ e)) ops
  rw [← hanswers] at hhistory
  exact ⟨hanswers, hcap, hp.shows, hhistory⟩

theorem refines_fifo_overfull :
    (drive exec (new 2 fun _ => 0) [.push 5, .push 6, .push 7, .pop, .pop, .pop]).1 =
      [.took (some 5), .took (some 6), .took none, .gave (some 5), .gave (some 6), .gave none] := by
  obtain ⟨hanswers, -⟩ := refines_fifo (e := 1) (by decide) (fun _ => 0)
    [.push 5, .push 6, .push 7, .pop, .pop, .pop]
  exact hanswers

end CachedBuffer

end CppLinuxLearn.Solcom
