import CppLinuxLearn.Lib.Bytes
import CppLinuxLearn.Lib.Handoff

/-!
# Shared memory under two semaphores

`shmWrite.cpp` and `shmRead.cpp`, of `shm_named_sem_sync` and of `shm_anony_sem_sync`. The writer reads ten words
into the shared record, each with an age; the reader prints the record ten times. `semw`, which the writer waits
on, starts with 1, and `semr` with 0. The records are stored and printed byte by byte.

Both processes open the named semaphores, and the first of them creates them. The anonymous ones lie in the
shared memory; they are set to their first values by both processes, and destroyed by each right behind its loop,
whether the other still uses them or not.
-/

namespace CppLinuxLearn.ShmSemSync

open Lib Steps Handoff

/-- A word of the input that fits in `char name[len]`. -/
structure Word (len : Nat) where
  chars : Bytes
  nul : (0 : UInt8) ∉ chars
  fits : chars.length < len

/-- A line of the reader's output. -/
inductive Line
  | name (text : Bytes)
  | age (age : Int)
deriving DecidableEq, Repr

inductive Writing
  /-- `cin >> pUserInfo->name`: the bytes that are still to be stored, and where -/
  | name (pos : Nat) (rest : Bytes)
  | done

inductive Reading
  /-- `cout << pUserInfo->name`: the bytes that were read -/
  | name (read : Bytes)
  | age
  | done

/-- The shared record with what the two processes have of their own. -/
structure Shm (len : Nat) where
  name : CharArray len
  age : Int
  /-- the words that `cin` still has -/
  input : List (Word len)
  /-- `n` of the writer -/
  n : Nat
  writing : Writing
  reading : Reading
  /-- what the reader has printed -/
  lines : List Line

variable {len : Nat}

/-- `n--` and the next word of `cin`. -/
def Shm.readsWord (m : Shm len) : Shm len :=
  { m with
    n := m.n - 1
    input := m.input.tail
    writing := .name 0 (m.input.head?.elim [] fun w => w.chars ++ [0]) }

/-- The next byte of the name, and then `age = 20 - n`. -/
def Shm.stores (m : Shm len) : Option (Shm len) :=
  match m.writing with
  | .name pos (c :: rest) => some { m with
    name := m.name.setIfInBounds pos c
    writing := .name (pos + 1) rest }
  | .name _ [] => some { m with age := 20 - m.n, writing := .done }
  | .done => none

/-- The next byte of the name, up to its NUL, and then the age. -/
def Shm.prints (m : Shm len) : Option (Shm len) :=
  match m.reading with
  | .name read =>
    match m.name[read.length]? with
    | none => some { m with reading := .age, lines := m.lines ++ [.name read] }
    | some c =>
      if c = 0 then some { m with reading := .age, lines := m.lines ++ [.name read] }
      else some { m with reading := .name (read ++ [c]) }
  | .age => some { m with reading := .done, lines := m.lines ++ [.age m.age] }
  | .done => none

/-- The writer is the first to go. -/
def turns (len : Nat) : Turns (Shm len) where
  start
    | .first => Shm.readsWord
    | .second => fun m => { m with reading := .name [] }
  access
    | .first => Shm.stores
    | .second => Shm.prints

/-! ## The two processes -/

/-- How the processes come to the semaphores. -/
inductive Kind
  /-- `sem_open` with `O_CREAT` -/
  | named
  /-- `sem_init` -/
  | anonymous
deriving DecidableEq, Repr

structure Processes (len : Nat) where
  /-- whether the semaphore on which a process waits is there -/
  created : Party → Bool
  /-- how many of the two semaphores a process has opened -/
  opened : Party → Nat
  loops : Handoff.State (Shm len)
  /-- whether the semaphore on which a process waits was destroyed -/
  destroyed : Party → Bool
  /-- how many of the two semaphores a process has destroyed -/
  closed : Party → Nat

inductive ProcessAction
  /-- the next `sem_open`, or `sem_init` -/
  | sem_open (p : Party)
  | loop (a : Action)
  /-- the next `sem_destroy`, behind the loop -/
  | sem_destroy (p : Party)

/-- The first value of a semaphore. -/
def first : Party → Nat
  | .first => 1
  | .second => 0

namespace Processes

/-- The two processes before they come to their semaphores; a segment that was there keeps its bytes. -/
def start (input : List (Word len)) (name : CharArray len) (age : Int) : Processes len where
  created _ := false
  opened _ := 0
  loops := { init 10 ⟨name, age, input, 10, .done, .done, []⟩ with sem := fun _ => 0 }
  destroyed _ := false
  closed _ := 0

/-- `sem_open` leaves a semaphore that is there as it is; `sem_init` does not. -/
def create (k : Kind) (q : Party) (s : Processes len) : Processes len :=
  if k = .named ∧ s.created q = true then s
  else { s with
    created := Function.update s.created q true
    loops := { s.loops with sem := Function.update s.loops.sem q (first q) }
    destroyed := Function.update s.destroyed q false }

/-- `semr` is destroyed first, on which the reader waits. -/
def destroys (s : Processes len) (p : Party) : Party := if s.closed p = 0 then .second else .first

/-- A process closes what it opened by a name, which the other does not see. -/
def step (k : Kind) (s : Processes len) : ProcessAction → Option (Processes len)
  | .sem_open p =>
    match s.opened p with
    | 0 =>
      let s := s.create k .second
      some { s with opened := Function.update s.opened p 1 }
    | 1 =>
      let s := s.create k .first
      some { s with opened := Function.update s.opened p 2 }
    | _ => none
  | .loop a =>
    if s.opened a.party = 2 then
      (Handoff.step (turns len) s.loops a).map fun loops => { s with loops }
    else none
  | .sem_destroy p =>
    if k = .anonymous ∧ s.opened p = 2 ∧ s.loops.rounds p = 0 ∧ s.loops.inside p = false ∧ s.closed p < 2 then
      some { s with
        destroyed := Function.update s.destroyed (s.destroys p) true
        closed := Function.update s.closed p (s.closed p + 1) }
    else none

/-- A semaphore is set before any of the processes has come to its loop. It is destroyed when nobody has still to
wait on it, and nobody waits on it, posts it or destroys it afterwards. -/
def Careful (s : Processes len) : ProcessAction → Prop
  | .sem_open _ => ∀ q, s.loops.inside q = false ∧ s.loops.rounds q = 10
  | .loop (.wait p) => s.destroyed p = false
  | .loop (.post p) => s.destroyed p.other = false
  | .loop (.access _) => True
  | .sem_destroy p => s.destroyed (s.destroys p) = false ∧ (s.loops.inside (s.destroys p) = true ∧
    s.loops.rounds (s.destroys p) = 1 ∨ s.loops.rounds (s.destroys p) = 0)

instance (s : Processes len) : (a : ProcessAction) → Decidable (s.Careful a)
  | .sem_open _ => inferInstanceAs (Decidable (∀ q, s.loops.inside q = false ∧ s.loops.rounds q = 10))
  | .loop (.wait p) => inferInstanceAs (Decidable (s.destroyed p = false))
  | .loop (.post p) => inferInstanceAs (Decidable (s.destroyed p.other = false))
  | .loop (.access _) => inferInstanceAs (Decidable True)
  | .sem_destroy p => inferInstanceAs (Decidable (s.destroyed (s.destroys p) = false ∧
    (s.loops.inside (s.destroys p) = true ∧ s.loops.rounds (s.destroys p) = 1 ∨ s.loops.rounds (s.destroys p) = 0)))

end Processes

/-! ## The turn of the writer -/

variable {a m m' : Shm len}

/-- The word is in the record as far as it is stored. -/
structure Stored (w : Word len) (a m : Shm len) : Prop where
  input : m.input = a.input
  n : m.n = a.n
  lines : m.lines = a.lines
  writing : match m.writing with
    | .name pos rest => pos ≤ len ∧ m.name.toList.take pos ++ rest = w.chars ++ [0]
    | .done => m.name.toList.take (w.chars.length + 1) = w.chars ++ [0] ∧ m.age = 20 - m.n

theorem Stored.access {w : Word len} (h : Stored w a m) (hacc : m.stores = some m') : Stored w a m' := by
  have hw := h.writing
  have hfits := w.fits
  rw [Shm.stores] at hacc
  split at hacc
  · rename_i pos c rest hpc
    rw [hpc] at hw
    obtain rfl := Option.some.inj hacc
    obtain ⟨hpos, hbytes⟩ := hw
    have hlen := congrArg List.length hbytes
    simp only [List.length_append, List.length_take, List.length_cons, List.length_nil, Vector.length_toList] at hlen
    refine ⟨h.input, h.n, h.lines, by omega, ?_⟩
    rw [Vector.toList_setIfInBounds, List.take_add_one, List.take_set_of_le le_rfl,
      List.getElem?_set_self (by simp; omega)]
    simpa using hbytes
  · rename_i pos hpc
    rw [hpc] at hw
    obtain rfl := Option.some.inj hacc
    obtain ⟨hpos, hbytes⟩ := hw
    rw [List.append_nil] at hbytes
    have hlen := congrArg List.length hbytes
    simp only [List.length_append, List.length_take, List.length_cons, List.length_nil, Vector.length_toList] at hlen
    obtain rfl : pos = w.chars.length + 1 := by omega
    exact ⟨h.input, h.n, h.lines, hbytes, rfl⟩
  · cases hacc

theorem Stored.accesses {w : Word len} (h : Stored w a m) (hacc : Accesses (turns len) .first m m') :
    Stored w a m' := by
  induction hacc with
  | refl => exact h
  | tail _ hstep ih => exact ih.access hstep

theorem stored_start {w : Word len} {ws : List (Word len)} (h : a.input = w :: ws) :
    Stored w a.readsWord a.readsWord := by
  refine ⟨rfl, rfl, rfl, ?_⟩
  simp [Shm.readsWord, h]

theorem turn_first {w : Word len} {ws : List (Word len)} (h : a.input = w :: ws) (hturn : Turn (turns len) .first a m) :
    m.input = ws ∧ m.n = a.n - 1 ∧ m.lines = a.lines ∧ cstr m.name.toList = w.chars ∧
      m.age = 20 - (a.n - 1 : Nat) := by
  obtain ⟨hacc, hend⟩ := hturn
  have hstored := (stored_start h).accesses hacc
  have hw := hstored.writing
  cases hpc : m.writing with
  | name pos rest => cases rest <;> simp [turns, Shm.stores, hpc] at hend
  | done =>
    rw [hpc] at hw
    have hname : m.name.toList = w.chars ++ 0 :: m.name.toList.drop (w.chars.length + 1) := by
      conv_lhs => rw [← List.take_append_drop (w.chars.length + 1) m.name.toList, hw.1]
      simp
    refine ⟨?_, hstored.n, hstored.lines, ?_, ?_⟩
    · rw [hstored.input]
      simp [Shm.readsWord, h]
    · rw [hname, cstr_append_zero w.nul]
    · rw [hw.2, hstored.n]
      rfl

/-! ## The turn of the reader -/

/-- The record is printed as far as it is read. -/
structure Shown (a m : Shm len) : Prop where
  input : m.input = a.input
  n : m.n = a.n
  name : m.name = a.name
  age : m.age = a.age
  reading : match m.reading with
    | .name read => read <+: cstr a.name.toList ∧ m.lines = a.lines
    | .age => m.lines = a.lines ++ [.name (cstr a.name.toList)]
    | .done => m.lines = a.lines ++ [.name (cstr a.name.toList), .age a.age]

theorem Shown.access (h : Shown a m) (hacc : m.prints = some m') : Shown a m' := by
  have hr := h.reading
  rw [Shm.prints] at hacc
  split at hacc
  · rename_i read hpc
    rw [hpc] at hr
    obtain ⟨hread, hlines⟩ := hr
    obtain ⟨hmore, hstop⟩ := cstr_next hread
    rw [Vector.getElem?_toList, ← h.name] at hmore hstop
    split at hacc
    · rename_i hnone
      obtain rfl := Option.some.inj hacc
      refine ⟨h.input, h.n, h.name, h.age, ?_⟩
      simp [hlines, hstop (.inl hnone), h.name]
    · rename_i c hsome
      split at hacc
      · rename_i hzero
        obtain rfl := Option.some.inj hacc
        refine ⟨h.input, h.n, h.name, h.age, ?_⟩
        simp [hlines, hstop (.inr (hzero ▸ hsome)), h.name]
      · rename_i hne
        obtain rfl := Option.some.inj hacc
        refine ⟨h.input, h.n, h.name, h.age, ?_, hlines⟩
        have := hmore c hsome hne
        rwa [h.name] at this
  · rename_i hpc
    rw [hpc] at hr
    obtain rfl := Option.some.inj hacc
    refine ⟨h.input, h.n, h.name, h.age, ?_⟩
    simp [hr, h.age]
  · cases hacc

theorem Shown.accesses (h : Shown a m) (hacc : Accesses (turns len) .second m m') : Shown a m' := by
  induction hacc with
  | refl => exact h
  | tail _ hstep ih => exact ih.access hstep

theorem shown_start (a : Shm len) : Shown a ((turns len).start .second a) :=
  ⟨rfl, rfl, rfl, rfl, List.nil_prefix, rfl⟩

theorem turn_second (hturn : Turn (turns len) .second a m) :
    m.input = a.input ∧ m.n = a.n ∧ m.lines = a.lines ++ [.name (cstr a.name.toList), .age a.age] := by
  obtain ⟨hacc, hend⟩ := hturn
  have hshown := (shown_start a).accesses hacc
  have hr := hshown.reading
  cases hpc : m.reading with
  | name read =>
    simp only [turns, Shm.prints, hpc] at hend
    split at hend
    · cases hend
    · split at hend <;> cases hend
  | age => simp [turns, Shm.prints, hpc] at hend
  | done =>
    rw [hpc] at hr
    exact ⟨hshown.input, hshown.n, hr⟩

/-! ## The rounds -/

/-- The lines of the words that come while `n` counts down. -/
def records : Nat → List (Word len) → List Line
  | _, [] => []
  | n, w :: ws => .name w.chars :: .age (20 - (n - 1 : Nat)) :: records (n - 1) ws

theorem records_append (n : Nat) (ws ws' : List (Word len)) :
    records n (ws ++ ws') = records n ws ++ records (n - ws.length) ws' := by
  induction ws generalizing n with
  | nil => rfl
  | cons w ws ih =>
    rw [List.cons_append, records, ih, records, List.length_cons, Nat.sub_sub, Nat.add_comm 1]
    rfl

theorem alternate_records {k : Nat} (h : Alternate (turns len) k a m) (hk : k ≤ a.input.length) :
    m.input = a.input.drop k ∧ m.n = a.n - k ∧ m.lines = a.lines ++ records a.n (a.input.take k) := by
  induction k generalizing m with
  | zero =>
    obtain rfl : a = m := h
    simp [records]
  | succ k ih =>
    obtain ⟨b, c, halt, hfirst, hsecond⟩ := h
    obtain ⟨hinput, hn, hlines⟩ := ih halt (by omega)
    obtain ⟨w, hw⟩ : ∃ w, a.input[k]? = some w := ⟨_, List.getElem?_eq_getElem hk⟩
    have hcons : b.input = w :: a.input.drop (k + 1) := by
      obtain ⟨_, rfl⟩ := List.getElem?_eq_some_iff.1 hw
      rw [hinput, List.drop_eq_getElem_cons hk]
    obtain ⟨hinput', hn', hlines', hname, hage⟩ := turn_first hcons hfirst
    obtain ⟨hinput'', hn'', hlines''⟩ := turn_second hsecond
    refine ⟨hinput''.trans hinput', by omega, ?_⟩
    rw [hlines'', hlines', hlines, hname, hage, hn, List.take_add_one, hw, records_append, List.length_take,
      Nat.min_eq_left (by omega), List.append_assoc]
    rfl

/-- At any time the lines are those of the first records; a record is printed only when it is complete. -/
theorem lines_of_serial {k : Nat} {s : Handoff.State (Shm len)} (h : Serial (turns len) k a s)
    (hk : k ≤ a.input.length) (hnil : a.lines = []) : s.mem.lines <+: records a.n (a.input.take k) := by
  obtain ⟨j, hj, b, halt, hphase⟩ := h
  obtain ⟨hinput, hn, hlines⟩ := alternate_records halt (by omega)
  rw [hnil, List.nil_append] at hlines
  -- the lines of whole rounds
  have hwhole : ∀ i ≤ k, records a.n (a.input.take i) <+: records a.n (a.input.take k) := by
    intro i hi
    have hsplit : a.input.take k = a.input.take i ++ (a.input.take k).drop i := by
      conv_lhs => rw [← List.take_append_drop i (a.input.take k), List.take_take, Nat.min_eq_left hi]
    rw [hsplit, records_append]
    exact List.prefix_append _ _
  have hword : j < k → ∃ w, b.input = w :: a.input.drop (j + 1) ∧
      records a.n (a.input.take (j + 1)) =
        b.lines ++ [.name w.chars, .age (20 - (b.n - 1 : Nat))] := by
    intro hlt
    have hlt' : j < a.input.length := by omega
    refine ⟨a.input[j], by rw [hinput, List.drop_eq_getElem_cons hlt'], ?_⟩
    rw [List.take_add_one, List.getElem?_eq_getElem hlt', records_append, List.length_take,
      Nat.min_eq_left (by omega), hlines, hn]
    rfl
  cases hphase with
  | first hs hi hr hm => rw [hm, hlines]; exact hwhole j hj
  | inFirst hs hi hr hlt hm =>
    obtain ⟨w, hcons, -⟩ := hword hlt
    rw [((stored_start hcons).accesses hm).lines]
    show b.lines <+: _
    rw [hlines]
    exact hwhole j hj
  | second hs hi hr hlt hm =>
    obtain ⟨w, hcons, -⟩ := hword hlt
    rw [(turn_first hcons hm).2.2.1, hlines]
    exact hwhole j hj
  | inSecond c hs hi hr hlt hturn hm =>
    obtain ⟨w, hcons, hnext⟩ := hword hlt
    obtain ⟨-, -, hkeep, hname, hage⟩ := turn_first hcons hturn
    have hread := ((shown_start c).accesses hm).reading
    rw [hname, hage, hkeep] at hread
    refine List.IsPrefix.trans ?_ (hnext ▸ hwhole (j + 1) hlt)
    cases hpc : s.mem.reading with
    | name read =>
      rw [hpc] at hread
      rw [hread.2]
      exact List.prefix_append _ _
    | age =>
      rw [hpc] at hread
      rw [hread]
      exact ⟨[.age (20 - (b.n - 1 : Nat))], by simp⟩
    | done =>
      rw [hpc] at hread
      rw [hread]

/-- A turn makes no more accesses than the name has bytes, and two more. -/
def bounded (len : Nat) : Bounded (turns len) (len + 2) where
  cost
    | .first, m => match m.writing with
      | .name _ rest => rest.length + 1
      | .done => 0
    | .second, m => match m.reading with
      | .name read => len - read.length + 2
      | .age => 1
      | .done => 0
  start p m := by
    cases p with
    | first =>
      show (m.input.head?.elim [] fun w => w.chars ++ [0]).length + 1 ≤ len + 2
      cases m.input with
      | nil => simp
      | cons w ws =>
        have := w.fits
        simp
        omega
    | second => exact Nat.le_refl _
  access p m m' h := by
    cases p with
    | first =>
      change m.stores = some m' at h
      rw [Shm.stores] at h
      split at h <;> cases h <;> simp_all
    | second =>
      change m.prints = some m' at h
      rw [Shm.prints] at h
      split at h
      · rename_i read hpc
        split at h
        · cases h
          simp [hpc]
        · rename_i c hsome
          have hlt : read.length < len := by
            obtain ⟨hlt, -⟩ := Vector.getElem?_eq_some_iff.1 hsome
            exact hlt
          split at h
          · cases h
            simp [hpc]
          · cases h
            simp [hpc]
            omega
      · rename_i hpc
        cases h
        simp [hpc]
      · cases h

/-! ## The processes -/

namespace Processes
variable {k : Kind} {s t : Processes len}

/-- The loops as if the semaphores had been there from the beginning. -/
def asLoops (s : Processes len) : Handoff.State (Shm len) :=
  { s.loops with sem := fun q => if s.created q then s.loops.sem q else first q }

/-- A process that goes through its loop has both semaphores. -/
def Opened (s : Processes len) : Prop :=
  ∀ p, (1 ≤ s.opened p → s.created .second = true) ∧ (2 ≤ s.opened p → s.created .first = true)

theorem asLoops_create {q : Party} (h : k = .named ∨ s.asLoops.sem q = first q) :
    (s.create k q).asLoops = s.asLoops := by
  rw [create]
  split
  · rfl
  · rename_i hnot
    have hsem : s.asLoops.sem q = first q := by
      rcases h with h | h
      · simp_all [asLoops]
      · exact h
    simp only [asLoops] at hsem ⊢
    congr 1
    funext p
    by_cases hp : p = q
    · subst hp
      simp only [Function.update_self, if_true]
      exact hsem.symm
    · simp only [Function.update_of_ne hp]

/-- The actions of the loops. -/
def loopActions : List ProcessAction → List Action
  | [] => []
  | .sem_open _ :: as | .sem_destroy _ :: as => loopActions as
  | .loop a :: as => a :: loopActions as

theorem opened_create {q : Party} (h : s.Opened) : (s.create k q).Opened ∧ (s.create k q).created q = true ∧
    (s.create k q).opened = s.opened ∧ (s.create k q).loops.mem = s.loops.mem := by
  rw [create]
  split
  · rename_i hyes
    exact ⟨h, hyes.2, rfl, rfl⟩
  · refine ⟨fun p => ⟨fun hp => ?_, fun hp => ?_⟩, by simp, rfl, rfl⟩
    · have := (h p).1 hp
      cases q <;> simp [this]
    · have := (h p).2 hp
      cases q <;> simp [this]

/-- Opening does not show in the loops, and the loops are those of two semaphores that were there. -/
theorem asLoops_step {a : ProcessAction} (h : s.Opened)
    (hearly : k = .named ∨ s.asLoops.sem = first ∨ ∀ p, a ≠ .sem_open p) (hs : s.step k a = some t) :
    t.Opened ∧ run (Handoff.step (turns len)) s.asLoops (loopActions [a]) = some t.asLoops := by
  cases a with
  | sem_open p =>
    have hset : ∀ q, (s.create k q).asLoops = s.asLoops := by
      intro q
      apply asLoops_create
      rcases hearly with hk | hsem | hne
      · exact .inl hk
      · exact .inr (by rw [hsem])
      · exact absurd rfl (hne p)
    simp only [step] at hs
    split at hs
    · rename_i hzero
      obtain rfl := Option.some.inj hs
      obtain ⟨hopen, hcreated, hopened, -⟩ := opened_create (k := k) (q := .second) h
      refine ⟨fun p' => ⟨fun hp => hcreated, fun hp => ?_⟩, congrArg some (hset .second).symm⟩
      by_cases hpp : p' = p
      · subst hpp
        simp at hp
      · simp only [Function.update_of_ne hpp] at hp
        exact (hopen p').2 hp
    · rename_i hone
      obtain rfl := Option.some.inj hs
      obtain ⟨hopen, hcreated, hopened, -⟩ := opened_create (k := k) (q := .first) h
      refine ⟨fun p' => ⟨fun hp => ?_, fun hp => hcreated⟩, congrArg some (hset .first).symm⟩
      by_cases hpp : p' = p
      · exact (hopen p).1 (by rw [hopened]; omega)
      · simp only [Function.update_of_ne hpp] at hp
        exact (hopen p').1 hp
    · cases hs
  | loop a =>
    obtain ⟨hboth, hs⟩ := Option.ite_none_right_eq_some.1 hs
    obtain ⟨loops, hloops, rfl⟩ := Option.map_eq_some_iff.1 hs
    have hcreated : ∀ q, s.created q = true := by
      intro q
      cases q with
      | first => exact (h a.party).2 (by omega)
      | second => exact (h a.party).1 (by omega)
    have hsame : s.asLoops = s.loops := by simp [asLoops, hcreated]
    have hsame' : ({ s with loops } : Processes len).asLoops = loops := by simp [asLoops, hcreated]
    refine ⟨h, ?_⟩
    rw [hsame, hsame']
    exact Option.bind_eq_some_iff.2 ⟨loops, hloops, rfl⟩
  | sem_destroy p =>
    obtain ⟨-, hs⟩ := Option.ite_none_right_eq_some.1 hs
    obtain rfl := Option.some.inj hs
    exact ⟨h, rfl⟩

theorem sem_of_early {n : Nat} {m : Shm len} {q : Party} (h : Serial (turns len) n m s.asLoops)
    (hearly : ∀ q, s.loops.inside q = false ∧ s.loops.rounds q = n) : s.asLoops.sem q = first q := by
  obtain ⟨j, hj, b, halt, hphase⟩ := h
  have hin : ∀ q, s.asLoops.inside q = false := fun q => (hearly q).1
  have hrounds : ∀ q, s.asLoops.rounds q = n := fun q => (hearly q).2
  cases hphase with
  | first hs => cases q <;> simp [hs, first]
  | inFirst hs hi | inSecond b hs hi => simp [hin] at hi
  | second hs hi hr hlt =>
    rw [hrounds] at hr
    omega

/-- What a run of the processes is to their loops. -/
structure Synced (m : Shm len) (s : Processes len) : Prop where
  opened : s.Opened
  serial : Serial (turns len) 10 m s.asLoops

theorem synced_start (input : List (Word len)) (name : CharArray len) (age : Int) :
    Synced ⟨name, age, input, 10, .done, .done, []⟩ (start input name age) where
  opened p := ⟨fun h => absurd h (by simp [start]), fun h => absurd h (by simp [start])⟩
  serial := by
    have hinit : (start input name age).asLoops = init 10 ⟨name, age, input, 10, .done, .done, []⟩ := by
      simp only [asLoops, start, Bool.false_eq_true, if_false, init]
      congr 1
    rw [hinit]
    exact serial_init _ _

theorem Synced.step {m : Shm len} (h : Synced m s) {a : ProcessAction} (ha : k = .named ∨ s.Careful a)
    (hs : s.step k a = some t) : Synced m t := by
  have hearly : k = .named ∨ s.asLoops.sem = first ∨ ∀ p, a ≠ .sem_open p := by
    rcases ha with hk | ha
    · exact .inl hk
    · cases a with
      | sem_open p => exact .inr (.inl (funext fun q => sem_of_early h.serial ha))
      | loop | sem_destroy => exact .inr (.inr nofun)
  obtain ⟨hopened, hrun⟩ := asLoops_step h.opened hearly hs
  exact ⟨hopened, h.serial.run hrun⟩

/-- Both processes have gone through their loops. -/
def Done (s : Processes len) : Prop := s.loops.Done

/-- What the reader has printed. -/
def lines (s : Processes len) : List Line := s.loops.mem.lines

theorem Synced.lines {input : List (Word len)} {name : CharArray len} {age : Int}
    (h : Synced ⟨name, age, input, 10, .done, .done, []⟩ s) (hinput : 10 ≤ input.length) :
    s.lines <+: records 10 (input.take 10) ∧ (s.Done → s.lines = records 10 (input.take 10)) := by
  refine ⟨lines_of_serial h.serial hinput rfl, fun hdone => ?_⟩
  obtain ⟨-, -, hlines⟩ := alternate_records (h.serial.alternate (s := s.asLoops) hdone) hinput
  exact hlines

theorem Synced.exists_step {m : Shm len} (h : Synced m s) (hle : ∀ p, s.opened p ≤ 2) (hnot : ¬ s.Done) :
    ∃ a, (s.step k a).isSome := by
  by_cases hopen : ∀ p, s.opened p = 2
  · have hsame : s.asLoops = s.loops := by
      have hcreated : ∀ q, s.created q = true := by
        intro q
        cases q with
        | first => exact (h.opened .first).2 (hopen .first).ge
        | second => exact (h.opened .first).1 (by rw [hopen]; omega)
      simp [asLoops, hcreated]
    obtain ⟨a, ha⟩ := h.serial.exists_step (by rwa [hsame])
    rw [hsame] at ha
    exact ⟨.loop a, by simp [Processes.step, hopen, ha]⟩
  · obtain ⟨p, hp⟩ := not_forall.1 hopen
    have := hle p
    refine ⟨.sem_open p, ?_⟩
    obtain hzero | hone : s.opened p = 0 ∨ s.opened p = 1 := by omega
    · simp [Processes.step, hzero]
    · simp [Processes.step, hone]

/-! ## Runs -/

theorem opened_step {a : ProcessAction} (hs : s.step .named a = some t) (h : ∀ p, s.opened p ≤ 2) :
    (∀ p, t.opened p ≤ 2) ∧ 1 + (s.opened .first + s.opened .second) =
      (loopActions [a]).length + (t.opened .first + t.opened .second) := by
  cases a with
  | loop a =>
    obtain ⟨-, hs⟩ := Option.ite_none_right_eq_some.1 hs
    obtain ⟨loops, -, rfl⟩ := Option.map_eq_some_iff.1 hs
    exact ⟨h, rfl⟩
  | sem_destroy p => cases hs
  | sem_open p =>
    have hkeep : ∀ q, (s.create .named q).opened = s.opened := by
      intro q
      rw [create]
      split <;> rfl
    simp only [step] at hs
    split at hs
    · rename_i hzero
      obtain rfl := Option.some.inj hs
      simp only [hkeep, loopActions, List.length_nil]
      refine ⟨fun q => ?_, by cases p <;> simp [hzero, Nat.add_comm]⟩
      have := h q
      by_cases hq : q = p <;> simp [hq]
      omega
    · rename_i hone
      obtain rfl := Option.some.inj hs
      simp only [hkeep, loopActions, List.length_nil]
      refine ⟨fun q => ?_, by cases p <;> simp [hone] <;> omega⟩
      have := h q
      by_cases hq : q = p <;> simp [hq]
      omega
    · cases hs

theorem length_run {as : List ProcessAction} (hs : run (step .named) s as = some t) (h : ∀ p, s.opened p ≤ 2) :
    (∀ p, t.opened p ≤ 2) ∧ as.length + (s.opened .first + s.opened .second) =
      (loopActions as).length + (t.opened .first + t.opened .second) := by
  induction as generalizing s with
  | nil =>
    obtain rfl : s = t := Option.some.inj hs
    exact ⟨h, rfl⟩
  | cons a as ih =>
    obtain ⟨u, hu, hrest⟩ := run_cons hs
    obtain ⟨hle, hone⟩ := opened_step hu h
    obtain ⟨hle', hmany⟩ := ih hrest hle
    have hcons : (loopActions (a :: as)).length = (loopActions [a]).length + (loopActions as).length := by
      cases a <;> simp [loopActions, Nat.add_comm]
    refine ⟨hle', ?_⟩
    rw [List.length_cons]
    omega

theorem loops_of_run {as : List ProcessAction} (h : s.Opened) (hs : run (step .named) s as = some t) :
    run (Handoff.step (turns len)) s.asLoops (loopActions as) = some t.asLoops := by
  induction as generalizing s with
  | nil =>
    obtain rfl : s = t := Option.some.inj hs
    rfl
  | cons a as ih =>
    obtain ⟨u, hu, hrest⟩ := run_cons hs
    obtain ⟨hopened, hone⟩ := asLoops_step h (.inl rfl) hu
    have hsplit : loopActions (a :: as) = loopActions [a] ++ loopActions as := by cases a <;> rfl
    rw [hsplit]
    exact run_append_of hone (ih hopened hrest)

variable {input : List (Word len)} {name : CharArray len} {age : Int} {as : List ProcessAction}

/-- **With named semaphores the reader prints the ten records, each once, whole and in order, whatever the
interleaving and whoever starts first; nobody waits for good, and both processes come to their ends.** -/
theorem records_printed (hinput : 10 ≤ input.length) (h : run (step .named) (start input name age) as = some s) :
    s.lines <+: records 10 (input.take 10) ∧ (s.Done → s.lines = records 10 (input.take 10)) ∧
      (¬ s.Done → ∃ a, (s.step .named a).isSome) ∧ as.length ≤ 20 * (len + 4) + 4 := by
  have hs : Synced _ s := run_invariant (fun _ _ _ hu hstep => hu.step (.inl rfl) hstep)
    (synced_start input name age) h
  obtain ⟨hle, hlen⟩ := length_run h fun p => Nat.zero_le 2
  obtain ⟨hlines, hdone⟩ := hs.lines hinput
  refine ⟨hlines, hdone, hs.exists_step hle, ?_⟩
  have hstart := synced_start input name age
  have hloops := (bounded len).length_le hstart.serial (loops_of_run hstart.opened h)
  have hahead : (bounded len).ahead (start input name age).asLoops .first +
      (bounded len).ahead (start input name age).asLoops .second = 20 * (len + 4) := by
    simp only [Bounded.ahead, asLoops, start, init, Bool.false_eq_true, if_false]
    omega
  have hfirst := hle .first
  have hsecond := hle .second
  omega

/-- Ten words of two letters. -/
def tenWords : List (Word 64) :=
  ⟨text "ab", by decide, by decide⟩ :: List.replicate 9 ⟨text "cd", by decide, by decide⟩

def openAll : List ProcessAction :=
  [.sem_open .first, .sem_open .first, .sem_open .second, .sem_open .second]

def firstTurn : List ProcessAction :=
  [.loop (.wait .first), .loop (.access .first), .loop (.access .first), .loop (.access .first),
    .loop (.access .first), .loop (.post .first)]

def secondTurn : List ProcessAction :=
  [.loop (.wait .second), .loop (.access .second), .loop (.access .second), .loop (.access .second),
    .loop (.access .second), .loop (.post .second)]

def empty : Processes 64 := start tenWords (Vector.replicate 64 0) 0

theorem oneRound_isSome : (run (step .named) empty (openAll ++ firstTurn ++ secondTurn)).isSome := by
  decide +kernel

def oneRound : Processes 64 := Option.get _ oneRound_isSome

theorem oneRound_lines : oneRound.lines = [.name (text "ab"), .age 11] := by decide +kernel

theorem records_printed_oneRound : oneRound.lines = [.name (text "ab"), .age 11] ∧
    oneRound.lines <+: records 10 (tenWords.take 10) ∧
    (¬ oneRound.Done → ∃ a, (oneRound.step .named a).isSome) := by
  obtain ⟨hlines, -, hstep, -⟩ := records_printed (by decide) (Option.some_get oneRound_isSome).symm
  exact ⟨oneRound_lines, hlines, hstep⟩

/-- The reader prints the last age when the writer has destroyed `semr`, and posts `semw` before that is destroyed. -/
def allRounds : List ProcessAction :=
  openAll ++ (List.replicate 9 (firstTurn ++ secondTurn)).flatten ++ firstTurn ++ secondTurn.take 2 ++
    [.sem_destroy .first] ++ secondTurn.drop 2 ++ [.sem_destroy .first]

theorem allRounds_isSome : (run (step .anonymous) empty allRounds).isSome := by decide +kernel

def ended : Processes 64 := Option.get _ allRounds_isSome

theorem ended_done : ended.Done := by
  have hloops : ∀ p, ended.loops.rounds p = 0 ∧ ended.loops.inside p = false := by decide +kernel
  exact hloops

/-- A process that sets them later lets both in: the reader prints a record that was never entered. -/
example : (run (step .anonymous) (start tenWords (Vector.replicate 64 0) 0)
    ([.sem_open .first, .sem_open .first, .loop (.wait .first), .sem_open .second, .sem_open .second] ++
      firstTurn.drop 1 ++ [.loop (.wait .first), .loop (.access .first)] ++ secondTurn)).map lines =
    some [.name (text "cb"), .age 11] := by
  decide +kernel

end Processes

end CppLinuxLearn.ShmSemSync
