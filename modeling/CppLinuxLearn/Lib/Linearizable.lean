import Mathlib.Data.List.Nodup

/-!
# Linearizable histories

What the clients of a shared object see is a history of calls and returns. `Linearizes` says that some
operations, put in one order, explain it: each of them was called, run one after the other they take the
object from its first state to its last, whatever was returned is what they show, and an operation that
was called after another had returned comes behind it.

A system is shown to be linearizable along its steps: a call may come at any time (`call`), an operation
takes its effect once, after its call (`effect`), and returns after its effect (`ret`).
-/

namespace CppLinuxLearn.Lib.History

/-- A sequential object: which result an operation may have and what it makes of the state, and what a
client may then be shown. -/
structure Object (O X V D : Type) where
  effect : O → X → D → D → Prop
  shows : O → X → V → Prop

/-- What the clients see; the operations are numbered. -/
inductive Ev (O V : Type)
  | call (i : Nat) (op : O)
  | ret (i : Nat) (v : V)
deriving DecidableEq

section
variable {O X V D : Type} {obj : Object O X V D}

/-- The operations, one after the other. -/
def Object.Sequential (obj : Object O X V D) : List (O × X) → D → D → Prop
  | [], d, d' => d = d'
  | (op, x) :: es, d, d' => ∃ m, obj.effect op x d m ∧ obj.Sequential es m d'

theorem Object.sequential_concat {es : List (O × X)} {op : O} {x : X} {d d' d'' : D}
    (h : obj.Sequential es d d') (he : obj.effect op x d' d'') : obj.Sequential (es ++ [(op, x)]) d d'' := by
  induction es generalizing d with
  | nil =>
    obtain rfl : d = d' := h
    exact ⟨d'', he, rfl⟩
  | cons e es ih =>
    obtain ⟨m, hm, hrest⟩ := h
    exact ⟨m, hm, ih hrest⟩

/-- The operations `lin`, in this order, explain the history. -/
structure Linearizes (obj : Object O X V D) (d d' : D) (hist : List (Ev O V)) (lin : List (Nat × O × X)) :
    Prop where
  numbered : ∀ i op op', Ev.call i op ∈ hist → Ev.call i op' ∈ hist → op = op'
  sequential : obj.Sequential (lin.map Prod.snd) d d'
  /-- no operation takes effect twice -/
  once : (lin.map Prod.fst).Nodup
  called : ∀ i op x, (i, op, x) ∈ lin → Ev.call i op ∈ hist
  returned : ∀ i v, Ev.ret i v ∈ hist → ∃ op x, (i, op, x) ∈ lin ∧ obj.shows op x v
  /-- the order of operations that do not overlap is that of the history -/
  realTime : ∀ i v j op, [Ev.ret i v, Ev.call j op].Sublist hist → j ∈ lin.map Prod.fst →
    [i, j].Sublist (lin.map Prod.fst)

theorem sublist_concat {α : Type} {a b c : α} {l : List α} (h : [a, b].Sublist (l ++ [c])) :
    [a, b].Sublist l ∨ a ∈ l ∧ b = c := by
  obtain ⟨l₁, l₂, hab, h₁, h₂⟩ := List.sublist_append_iff.1 h
  rcases List.sublist_singleton.1 h₂ with rfl | rfl
  · left
    rw [List.append_nil] at hab
    rwa [hab]
  · right
    have hsplit : [a] ++ [b] = l₁ ++ [c] := hab
    obtain ⟨rfl, hb⟩ := List.append_inj' hsplit rfl
    exact ⟨List.singleton_sublist.1 h₁, List.singleton_inj.1 hb⟩

namespace Linearizes

variable {d d' d'' : D} {hist : List (Ev O V)} {lin : List (Nat × O × X)} {i : Nat} {op : O} {x : X} {v : V}

theorem nil (obj : Object O X V D) (d : D) : Linearizes obj d d [] [] := by
  refine ⟨?_, rfl, List.nodup_nil, ?_, ?_, ?_⟩
  · simp
  · simp
  · simp
  · simp

theorem mem_fst (hx : (i, op, x) ∈ lin) : i ∈ lin.map Prod.fst := List.mem_map_of_mem hx

theorem call (h : Linearizes obj d d' hist lin) (hi : ∀ op', Ev.call i op' ∉ hist) (op : O) :
    Linearizes obj d d' (hist ++ [.call i op]) lin := by
  have hmem : ∀ {j op'}, Ev.call j op' ∈ hist ++ [Ev.call i op] → Ev.call j op' ∈ hist ∨ j = i ∧ op' = op := by
    intro j op' hj
    simpa using hj
  refine ⟨?_, h.sequential, h.once, ?_, ?_, ?_⟩
  · intro j op₁ op₂ h₁ h₂
    rcases hmem h₁ with h₁ | ⟨hj, h₁⟩ <;> rcases hmem h₂ with h₂ | ⟨hj', h₂⟩
    · exact h.numbered j op₁ op₂ h₁ h₂
    · exact absurd (hj' ▸ h₁) (hi op₁)
    · exact absurd (hj ▸ h₂) (hi op₂)
    · exact h₁.trans h₂.symm
  · intro j op' x hx
    exact List.mem_append_left _ (h.called j op' x hx)
  · intro j v hv
    rcases List.mem_append.1 hv with hv | hv
    · exact h.returned j v hv
    · simp at hv
  · intro j v k op' hsub hk
    rcases sublist_concat hsub with hsub | ⟨-, heq⟩
    · exact h.realTime j v k op' hsub hk
    · -- it has taken no effect yet
      obtain ⟨rfl, -⟩ := Ev.call.inj heq
      obtain ⟨⟨_, op'', x⟩, hx, rfl⟩ := List.mem_map.1 hk
      exact absurd (h.called _ op'' x hx) (hi op'')

theorem effect (h : Linearizes obj d d' hist lin) (hcall : Ev.call i op ∈ hist) (hi : i ∉ lin.map Prod.fst)
    (he : obj.effect op x d' d'') : Linearizes obj d d'' hist (lin ++ [(i, op, x)]) := by
  have hfst : (lin ++ [(i, op, x)]).map Prod.fst = lin.map Prod.fst ++ [i] := by simp
  refine ⟨h.numbered, ?_, ?_, ?_, ?_, ?_⟩
  · rw [List.map_append]
    exact Object.sequential_concat h.sequential he
  · rw [hfst]
    apply List.Nodup.append h.once (List.nodup_singleton i)
    simpa using hi
  · intro j op' x' hx
    rcases List.mem_append.1 hx with hx | hx
    · exact h.called j op' x' hx
    · obtain ⟨rfl, rfl, rfl⟩ : j = i ∧ op' = op ∧ x' = x := by simpa using hx
      exact hcall
  · intro j v hv
    obtain ⟨op', x', hx, hs⟩ := h.returned j v hv
    exact ⟨op', x', List.mem_append_left _ hx, hs⟩
  · intro j v k op' hsub hk
    rw [hfst] at hk ⊢
    rcases List.mem_append.1 hk with hk | hk
    · exact (h.realTime j v k op' hsub hk).trans (List.sublist_append_left _ _)
    · -- what has returned has taken its effect before
      have hret : Ev.ret j v ∈ hist := hsub.subset List.mem_cons_self
      obtain ⟨op'', x', hx, -⟩ := h.returned j v hret
      obtain rfl : k = i := List.mem_singleton.1 hk
      exact List.Sublist.append (List.singleton_sublist.2 (mem_fst hx)) (List.Sublist.refl [k])

theorem ret (h : Linearizes obj d d' hist lin) (hx : (i, op, x) ∈ lin) (hs : obj.shows op x v) :
    Linearizes obj d d' (hist ++ [.ret i v]) lin := by
  refine ⟨?_, h.sequential, h.once, ?_, ?_, ?_⟩
  · intro j op₁ op₂ h₁ h₂
    exact h.numbered j op₁ op₂ (by simpa using h₁) (by simpa using h₂)
  · intro j op' x' hx'
    exact List.mem_append_left _ (h.called j op' x' hx')
  · intro j v' hv
    rcases List.mem_append.1 hv with hv | hv
    · exact h.returned j v' hv
    · obtain ⟨rfl, rfl⟩ : j = i ∧ v' = v := by simpa using hv
      exact ⟨op, x, hx, hs⟩
  · intro j v' k op' hsub hk
    rcases sublist_concat hsub with hsub | ⟨-, heq⟩
    · exact h.realTime j v' k op' hsub hk
    · cases heq

end Linearizes

/-! ## What a linearizable history tells a client -/

theorem Object.sequential_append {es es' : List (O × X)} {d d' : D} (h : obj.Sequential (es ++ es') d d') :
    ∃ m, obj.Sequential es d m ∧ obj.Sequential es' m d' := by
  induction es generalizing d with
  | nil => exact ⟨d, rfl, h⟩
  | cons e es ih =>
    obtain ⟨m, hm, hrest⟩ := h
    obtain ⟨m', hes, hes'⟩ := ih hrest
    exact ⟨m', ⟨m, hm, hes⟩, hes'⟩

theorem Object.Sequential.keeps {P : D → Prop} {es : List (O × X)} {d d' : D} (h : obj.Sequential es d d')
    (hes : ∀ op x, (op, x) ∈ es → ∀ m m', obj.effect op x m m' → P m → P m') (hd : P d) : P d' := by
  induction es generalizing d with
  | nil =>
    obtain rfl : d = d' := h
    exact hd
  | cons e es ih =>
    obtain ⟨m, hm, hrest⟩ := h
    have hmid := hes e.1 e.2 List.mem_cons_self d m hm hd
    exact ih hrest (fun op x hx => hes op x (List.mem_cons_of_mem e hx)) hmid

theorem Linearizes.unique {d d' : D} {hist : List (Ev O V)} {lin : List (Nat × O × X)}
    (h : Linearizes obj d d' hist lin) {i : Nat} {op op' : O} {x x' : X} (hx : (i, op, x) ∈ lin)
    (hx' : (i, op', x') ∈ lin) : op = op' ∧ x = x' := by
  have heq := List.inj_on_of_nodup_map h.once hx hx' rfl
  simpa using heq

/-- An operation that returned before another was called takes its effect in a state from which the
effect of the other is still to come. -/
theorem Linearizes.split {d d' : D} {hist : List (Ev O V)} {lin : List (Nat × O × X)}
    (h : Linearizes obj d d' hist lin) {i j : Nat} {v : V} {op : O} {x : X}
    (hsub : [Ev.ret i v, Ev.call j op].Sublist hist) (hj : (j, op, x) ∈ lin) :
    ∃ pre post, lin = pre ++ (j, op, x) :: post ∧ i ∈ pre.map Prod.fst := by
  obtain ⟨pre, post, rfl⟩ := List.append_of_mem hj
  refine ⟨pre, post, rfl, ?_⟩
  have horder := h.realTime i v j op hsub (List.mem_map_of_mem hj)
  have hnodup := h.once
  rw [List.map_append, List.map_cons] at horder hnodup
  obtain ⟨l₁, l₂, hsplit, h₁, h₂⟩ := List.sublist_append_iff.1 horder
  cases l₁ with
  | nil =>
    -- both would be in the part that starts with `j`
    rw [List.nil_append] at hsplit
    rw [← hsplit] at h₂
    have hnot := (List.nodup_cons.1 (List.nodup_append.1 hnodup).2.1).1
    rcases List.cons_sublist_cons'.1 h₂ with hsub | ⟨-, hsub⟩
    · exact absurd (hsub.subset (by simp)) hnot
    · exact absurd (List.singleton_sublist.1 hsub) hnot
  | cons k l₁ =>
    obtain ⟨rfl, -⟩ := List.cons_eq_cons.1 hsplit
    exact h₁.subset List.mem_cons_self

/-- An operation that was called after another had returned finds what this one has left, and what the operations
between them have made of it. -/
theorem Linearizes.between {d d' : D} {hist : List (Ev O V)} {lin : List (Nat × O × X)}
    (h : Linearizes obj d d' hist lin) {i j : Nat} {op op' : O} {v v' : V} (hcall : Ev.call i op ∈ hist)
    (hafter : [Ev.ret i v, Ev.call j op'].Sublist hist) (hret : Ev.ret j v' ∈ hist) :
    ∃ x d₁ d₂ es x' d₃ d₄, obj.effect op x d₁ d₂ ∧ obj.shows op x v ∧ obj.Sequential es d₂ d₃ ∧
      (∀ e ∈ es, ∃ k, Ev.call k e.1 ∈ hist) ∧ obj.effect op' x' d₃ d₄ ∧ obj.shows op' x' v' ∧ (j, op', x') ∈ lin := by
  have hcalled : Ev.call j op' ∈ hist := hafter.subset (by simp)
  have hreturned : Ev.ret i v ∈ hist := hafter.subset (by simp)
  obtain ⟨op₂, x', hx', hshows'⟩ := h.returned j v' hret
  obtain rfl := h.numbered j _ _ (h.called j op₂ x' hx') hcalled
  obtain ⟨before, after, hsplit, hi⟩ := h.split hafter hx'
  obtain ⟨⟨k, op₁, x⟩, hx, hk⟩ := List.mem_map.1 hi
  obtain rfl : k = i := hk
  have hbefore : before ⊆ lin := by
    rw [hsplit]
    exact List.subset_append_left before _
  have hmem := hbefore hx
  obtain rfl := h.numbered k _ _ (h.called k op₁ x hmem) hcall
  obtain ⟨op₁', y, hy, hshows⟩ := h.returned k v hreturned
  obtain ⟨rfl, rfl⟩ := h.unique hmem hy
  obtain ⟨pre, mid, rfl⟩ := List.append_of_mem hx
  -- the states between them
  have hseq := h.sequential
  rw [hsplit] at hseq
  simp only [List.map_append, List.map_cons] at hseq
  obtain ⟨d₃, hseq, d₄, heffect', -⟩ := Object.sequential_append hseq
  obtain ⟨d₁, -, d₂, heffect, hmid⟩ := Object.sequential_append hseq
  refine ⟨x, d₁, d₂, _, x', d₃, d₄, heffect, hshows, hmid, fun e he => ?_, heffect', hshows', hx'⟩
  obtain ⟨⟨l, op, z⟩, hl, rfl⟩ := List.mem_map.1 he
  exact ⟨l, h.called l op z (hbefore (List.mem_append_right _ (List.mem_cons_of_mem _ hl)))⟩

end

end CppLinuxLearn.Lib.History
