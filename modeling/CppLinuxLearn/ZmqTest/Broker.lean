import CppLinuxLearn.Lib.Bytes
import CppLinuxLearn.Lib.RequestReply
import CppLinuxLearn.Lib.Steps

/-!
# Requests through the broker

`reqrepclient.cpp`, `reqrepbroker.cpp` and `reqrepworker.cpp`: any number of clients with a REQ socket, the broker
between a ROUTER and a DEALER socket, and any number of workers with a REP socket. ROUTER puts the identity of the
client in front of a message, and takes it off again to find the client; REQ puts an empty frame in front; REP
keeps everything up to the empty frame and puts it in front of the reply. Messages come in any order, DEALER gives
a message to any worker, and the broker passes a message on frame by frame.
-/

namespace CppLinuxLearn.ZmqTest

open Lib Steps

/-! ## The texts -/

/-- `%d` of a number that is not negative. -/
def decimal (i : Nat) : Bytes := (Nat.toDigits 10 i).map fun c => UInt8.ofNat c.toNat

/-- `sprintf(sendstr, "Hello_%d", i)` -/
def hello (i : Nat) : Bytes := text "Hello_" ++ decimal i

def world (i : Nat) : Bytes := text "World_" ++ decimal i

/-- `zmq_recv(…, recvstr, 31, 0)` into 32 bytes that were set to 0. -/
def recvstr (body : Bytes) : Bytes := body.take 31 ++ List.replicate (32 - min 31 body.length) 0

def isdigit (c : UInt8) : Bool := 48 ≤ c && c ≤ 57

/-- What a worker sends for what it received: `sprintf(sendstr, "World_%s", recvstr + i)`, with the first digit
at `i`. A text that does not fit in 32 bytes is written out of them (`none`). -/
def sendstr (body : Bytes) : Option Bytes :=
  let recvstr := recvstr body
  let i := (recvstr.take 31).findIdx isdigit
  let sendstr := text "World_" ++ cstr (recvstr.drop i)
  if sendstr.length < 32 then some sendstr else none

theorem sendstr_hello : ∀ i < 10, sendstr (hello i) = some (world i) := by decide +kernel

theorem recvstr_world : ∀ i < 10, cstr (recvstr (world i)) = world i := by decide +kernel

/-! ## The processes -/

structure Client where
  /-- the counter of the loop -/
  i : Nat
  /-- it is between `zmq_send` and `zmq_recv` -/
  waiting : Bool
  /-- what it has printed behind "recv data: " -/
  printed : List Bytes

/-- Where the loop of the broker is. -/
inductive Broker
  | poll
  /-- at the loop over a message of the frontend; whether the backend is ready too -/
  | frontend (back : Bool)
  /-- in it: the frames that were not received, and those that were sent with `ZMQ_SNDMORE` -/
  | relayFront (left sent : List Bytes) (back : Bool)
  | backend
  | relayBack (left sent : List Bytes)

/-- A worker between `zmq_recv` and `zmq_send`. -/
structure Serving where
  worker : Nat
  /-- what REP keeps of the request -/
  envelope : List Bytes
  sendstr : Bytes

structure System where
  clients : Bytes → Client
  /-- what the frontend has to receive -/
  frontIn : List (List Bytes)
  broker : Broker
  /-- what was sent to each worker -/
  queued : List (Nat × List Bytes)
  serving : List Serving
  /-- what the backend has to receive -/
  backIn : List (List Bytes)
  /-- what was sent to each client -/
  delivered : List (Bytes × List Bytes)

inductive BrokerAction
  /-- of a client -/
  | zmq_send (c : Bytes)
  | zmq_recv (k : Nat)
  /-- `zmq::poll` returns with these items ready -/
  | poll (front back : Bool)
  /-- the broker comes to the `k`-th message of the socket -/
  | message (k : Nat)
  /-- and passes on a frame of it; the last one completes the message, for the given worker -/
  | frame (w : Nat)
  /-- a worker receives its message, the `k`-th of all -/
  | serve (k : Nat)
  | reply (k : Nat)

namespace System

def start : System := ⟨fun _ => ⟨0, false, []⟩, [], .poll, [], [], [], []⟩

/-- `ids` are the identities of the clients, and the workers are counted from 0. -/
def step (ids : List Bytes) (workers : Nat) (s : System) : BrokerAction → Option System
  | .zmq_send c =>
    if ids.contains c ∧ (s.clients c).waiting = false ∧ (s.clients c).i < 10 then some { s with
      clients := Function.update s.clients c { s.clients c with waiting := true }
      frontIn := s.frontIn ++ [[c, [], hello (s.clients c).i]] }
    else none
  | .zmq_recv k =>
    match s.delivered[k]? with
    | some (c, [[], body]) =>
      if (s.clients c).waiting = true then some { s with
        clients := Function.update s.clients c
          ⟨(s.clients c).i + 1, false, (s.clients c).printed ++ [cstr (recvstr body)]⟩
        delivered := s.delivered.eraseIdx k }
      else none
    | _ => none
  | .poll front back =>
    match s.broker with
    | .poll =>
      if (front = true → s.frontIn ≠ []) ∧ (back = true → s.backIn ≠ []) then
        if front then some { s with broker := .frontend back }
        else if back then some { s with broker := .backend }
        else none
      else none
    | _ => none
  | .message k =>
    match s.broker with
    | .frontend back => (s.frontIn[k]?).map fun m =>
      { s with frontIn := s.frontIn.eraseIdx k, broker := .relayFront m [] back }
    | .backend => (s.backIn[k]?).map fun m =>
      { s with backIn := s.backIn.eraseIdx k, broker := .relayBack m [] }
    | _ => none
  | .frame w =>
    match s.broker with
    | .relayFront (f :: g :: left) sent back => some { s with broker := .relayFront (g :: left) (sent ++ [f]) back }
    | .relayFront [f] sent back =>
      if w < workers then some { s with
        queued := s.queued ++ [(w, sent ++ [f])]
        broker := if back then .backend else .poll }
      else none
    | .relayBack (f :: g :: left) sent => some { s with broker := .relayBack (g :: left) (sent ++ [f]) }
    | .relayBack [f] sent =>
      match sent ++ [f] with
      | c :: m => some { s with
        -- what is for nobody is dropped
        delivered := if ids.contains c then s.delivered ++ [(c, m)] else s.delivered
        broker := .poll }
      | [] => none
    | _ => none
  | .serve k =>
    match s.queued[k]? with
    | none => none
    | some (w, m) =>
      if ∀ v ∈ s.serving, v.worker ≠ w then do
        let body ← (m.dropWhile (· ≠ []))[1]?
        let reply ← sendstr body
        some { s with
          queued := s.queued.eraseIdx k
          serving := s.serving ++ [⟨w, m.takeWhile (· ≠ []) ++ [[]], reply⟩] }
      else none
  | .reply k => (s.serving[k]?).map fun v => { s with
      serving := s.serving.eraseIdx k
      backIn := s.backIn ++ [v.envelope ++ [v.sendstr]] }

/-! ## What is on the way -/

/-- A message with the identity of its client. -/
def parse : List Bytes → Option (Bytes × Bytes)
  | [c, [], body] => some (c, body)
  | _ => none

theorem parse_eq_some {m : List Bytes} {c body : Bytes} : parse m = some (c, body) ↔ m = [c, [], body] := by
  constructor
  · intro h
    unfold parse at h
    split at h
    · obtain ⟨rfl, rfl⟩ := Prod.mk.inj (Option.some.inj h)
      rfl
    · cases h
  · rintro rfl
    rfl

end System

/-- The request that the broker is passing on. -/
def Broker.front : Broker → List (List Bytes)
  | relayFront left sent _ => [sent ++ left]
  | _ => []

/-- The reply that it is passing on. -/
def Broker.back : Broker → List (List Bytes)
  | relayBack left sent => [sent ++ left]
  | _ => []

namespace System

def requests (s : System) : List (List Bytes) := s.frontIn ++ s.broker.front ++ s.queued.map Prod.snd

def responses (s : System) : List (List Bytes) :=
  s.serving.map (fun v => v.envelope ++ [v.sendstr]) ++ s.broker.back ++ s.backIn ++
    s.delivered.map fun p => p.1 :: p.2

/-- What the broker goes on to is there. -/
def Ready (s : System) : Prop :=
  match s.broker with
  | .poll => True
  | .frontend back => s.frontIn ≠ [] ∧ (back = true → s.backIn ≠ [])
  | .relayFront left _ back => left ≠ [] ∧ (back = true → s.backIn ≠ [])
  | .backend => s.backIn ≠ []
  | .relayBack left _ => left ≠ []

/-- A worker sends its reply for every request that comes. -/
def answer (body : Bytes) : Bytes := (sendstr body).getD []

theorem answer_hello {i : Nat} (h : i < 10) : answer (hello i) = world i := by
  rw [answer, sendstr_hello i h]
  rfl

/-- What a state is to the clients. -/
structure Refines (ids : List Bytes) (s : System) (a : RequestReply.State Bytes Bytes Bytes) : Prop where
  rounds : ∀ c, a.rounds c = (s.clients c).i
  waiting : ∀ c, a.waiting c = (s.clients c).waiting
  got : ∀ c, a.got c = (s.clients c).printed
  requests : (s.requests.map parse).Perm (a.requests.map some)
  replies : (s.responses.map parse).Perm (a.replies.map some)
  sound : RequestReply.Sound (fun _ i => hello i) answer a
  ready : s.Ready
  client : ∀ c, (s.clients c).i ≤ 10 ∧ ((s.clients c).waiting = true → c ∈ ids ∧ (s.clients c).i < 10)

variable {ids : List Bytes} {workers : Nat} {s t : System} {a : RequestReply.State Bytes Bytes Bytes}

theorem refines_start : Refines ids start RequestReply.init where
  rounds _ := rfl
  waiting _ := rfl
  got _ := rfl
  requests := .refl _
  replies := .refl _
  sound := RequestReply.sound_init
  ready := trivial
  client c := ⟨Nat.zero_le _, fun h => by cases h⟩

theorem perm_eraseIdx {T : Type} {l : List T} {k : Nat} {x : T} (h : l[k]? = some x) :
    l.Perm (x :: l.eraseIdx k) := by
  obtain ⟨hk, rfl⟩ := List.getElem?_eq_some_iff.1 h
  exact (List.getElem_cons_eraseIdx_perm hk).symm

section
variable (h : Refines ids s a)
include h

theorem Refines.request {m : List Bytes} (hm : m ∈ s.requests) :
    ∃ c ∈ ids, m = [c, [], hello (s.clients c).i] ∧ (s.clients c).waiting = true ∧ (s.clients c).i < 10 ∧
      (c, hello (s.clients c).i) ∈ a.requests := by
  have hmem := h.requests.subset (List.mem_map_of_mem hm)
  obtain ⟨⟨c, q⟩, hp, heq⟩ := List.mem_map.1 hmem
  have hq : q = hello (s.clients c).i := by
    rw [← h.rounds c]
    exact h.sound.request _ hp
  subst hq
  have hwaits := h.sound.waits (.inl ⟨_, hp⟩)
  rw [h.waiting] at hwaits
  obtain ⟨hc, hlt⟩ := (h.client c).2 hwaits
  exact ⟨c, hc, parse_eq_some.1 heq.symm, hwaits, hlt, hp⟩

theorem Refines.response {m : List Bytes} (hm : m ∈ s.responses) :
    ∃ c ∈ ids, m = [c, [], world (s.clients c).i] ∧ (s.clients c).waiting = true ∧ (s.clients c).i < 10 ∧
      (c, world (s.clients c).i) ∈ a.replies := by
  have hmem := h.replies.subset (List.mem_map_of_mem hm)
  obtain ⟨⟨c, b⟩, hp, heq⟩ := List.mem_map.1 hmem
  have hwaits := h.sound.waits (.inr ⟨_, hp⟩)
  rw [h.waiting] at hwaits
  obtain ⟨hc, hlt⟩ := (h.client c).2 hwaits
  have hb : b = world (s.clients c).i := by
    rw [← answer_hello hlt, ← h.rounds c]
    exact h.sound.reply _ hp
  subst hb
  exact ⟨c, hc, parse_eq_some.1 heq.symm, hwaits, hlt, hp⟩

theorem Refines.relayed (hclients : t.clients = s.clients) (hrequests : t.requests.Perm s.requests)
    (hresponses : t.responses.Perm s.responses) (hready : t.Ready) : Refines ids t a where
  rounds c := by rw [hclients, h.rounds]
  waiting c := by rw [hclients, h.waiting]
  got c := by rw [hclients, h.got]
  requests := (hrequests.map parse).trans h.requests
  replies := (hresponses.map parse).trans h.replies
  sound := h.sound
  ready := hready
  client c := by
    rw [hclients]
    exact h.client c

theorem Refines.zmq_send {c : Bytes} (hs : s.step ids workers (.zmq_send c) = some t) : ∃ b, Refines ids t b := by
  obtain ⟨⟨hmem, hidle, hlt⟩, hs⟩ := Option.ite_none_right_eq_some.1 hs
  have hc : c ∈ ids := List.contains_iff_mem.1 hmem
  obtain rfl := Option.some.inj hs
  have hwait : a.waiting c = false := by rw [h.waiting, hidle]
  refine ⟨{ a with
    waiting := Function.update a.waiting c true
    requests := (c, hello (a.rounds c)) :: a.requests },
    ?_, ?_, ?_, ?_, h.replies, h.sound.step (.ask c hwait), ?_, ?_⟩
  · intro d
    by_cases hd : d = c
    · subst hd
      simp [h.rounds]
    · simp [hd, h.rounds]
  · intro d
    by_cases hd : d = c
    · subst hd
      simp
    · simp [hd, h.waiting]
  · intro d
    by_cases hd : d = c
    · subst hd
      simp [h.got]
    · simp [hd, h.got]
  · have hnew : parse [c, [], hello (s.clients c).i] = some (c, hello (a.rounds c)) := by rw [h.rounds]; rfl
    have hperm := h.requests
    simp only [System.requests, List.map_append, List.append_assoc] at hperm
    simp only [System.requests, List.map_append, List.append_assoc, List.map_cons, hnew, List.cons_append,
      List.nil_append]
    exact List.perm_middle.trans (hperm.cons _)
  · have hready := h.ready
    rw [Ready] at hready ⊢
    cases hb : s.broker with
    | frontend back =>
      rw [hb] at hready
      exact ⟨by simp, hready.2⟩
    | poll | relayFront | backend | relayBack =>
      rw [hb] at hready
      exact hready
  · intro d
    by_cases hd : d = c
    · subst hd
      simp [hc, hlt, hlt.le]
    · simpa [hd] using h.client d

theorem Refines.zmq_recv {k : Nat} (hs : s.step ids workers (.zmq_recv k) = some t) : ∃ b, Refines ids t b := by
  rw [System.step] at hs
  split at hs
  · rename_i c body hk
    obtain ⟨hwaits, hs⟩ := Option.ite_none_right_eq_some.1 hs
    obtain rfl := Option.some.inj hs
    have hmem : [c, [], body] ∈ s.responses :=
      List.mem_append_right _ (List.mem_map.2 ⟨_, List.mem_of_getElem? hk, rfl⟩)
    obtain ⟨d, hd, hm, -, hlt, hreply⟩ := h.response hmem
    obtain ⟨rfl, rfl⟩ : c = d ∧ body = world (s.clients d).i := by simpa using hm
    refine ⟨{ a with
      rounds := Function.update a.rounds c (a.rounds c + 1)
      waiting := Function.update a.waiting c false
      got := Function.update a.got c (a.got c ++ [world (s.clients c).i])
      replies := a.replies.erase (c, world (s.clients c).i) },
      ?_, ?_, ?_, h.requests, ?_, h.sound.step (.receive c _ _ (List.perm_cons_erase hreply)), h.ready, ?_⟩
    · intro e
      by_cases he : e = c
      · subst he
        simp [h.rounds]
      · simp [he, h.rounds]
    · intro e
      by_cases he : e = c
      · subst he
        simp
      · simp [he, h.waiting]
    · intro e
      by_cases he : e = c
      · subst he
        simp [h.got, recvstr_world _ hlt]
      · simp [he, h.got]
    · have hout : (s.responses.map parse).Perm (some (c, world (s.clients c).i) ::
          ({ s with
            clients := Function.update s.clients c
              ⟨(s.clients c).i + 1, false, (s.clients c).printed ++ [cstr (recvstr (world (s.clients c).i))]⟩
            delivered := s.delivered.eraseIdx k } : System).responses.map parse) := by
        have hperm := ((perm_eraseIdx hk).map fun p => p.1 :: p.2).map parse
        simp only [System.responses, List.map_append]
        exact (hperm.append_left _).trans List.perm_middle
      have hin := (List.perm_cons_erase hreply).map some
      exact (hout.symm.trans (h.replies.trans hin)).cons_inv
    · intro e
      by_cases he : e = c
      · subst he
        simp
        omega
      · simpa [he] using h.client e
  · cases hs

theorem Refines.poll {front back : Bool} (hs : s.step ids workers (.poll front back) = some t) : Refines ids t a := by
  rw [System.step] at hs
  split at hs
  · rename_i hb
    obtain ⟨⟨hfront, hback⟩, hs⟩ := Option.ite_none_right_eq_some.1 hs
    have hsame : ∀ b : Broker, b.front = [] → b.back = [] → Ready { s with broker := b } →
        Refines ids { s with broker := b } a := by
      intro b hbf hbb hready
      refine h.relayed rfl ?_ ?_ hready
      · rw [System.requests, System.requests, hb, hbf]
        exact .refl _
      · rw [System.responses, System.responses, hb, hbb]
        exact .refl _
    split at hs
    · rename_i hyes
      obtain rfl := Option.some.inj hs
      exact hsame _ rfl rfl ⟨hfront hyes, hback⟩
    · obtain ⟨hyes, hs⟩ := Option.ite_none_right_eq_some.1 hs
      obtain rfl := Option.some.inj hs
      exact hsame _ rfl rfl (hback hyes)
  · cases hs

theorem Refines.message {k : Nat} (hs : s.step ids workers (.message k) = some t) : Refines ids t a := by
  have hready := h.ready
  rw [Ready] at hready
  rw [System.step] at hs
  split at hs
  · rename_i back hb
    obtain ⟨m, hk, rfl⟩ := Option.map_eq_some_iff.1 hs
    have hm : m ∈ s.requests := by simp [System.requests, List.mem_of_getElem? hk]
    obtain ⟨c, -, rfl, -⟩ := h.request hm
    rw [hb] at hready
    refine h.relayed rfl ?_ ?_ ⟨List.cons_ne_nil _ _, hready.2⟩
    · have hperm := (perm_eraseIdx hk).symm
      simp only [System.requests, hb, Broker.front, List.append_assoc, List.nil_append, List.cons_append]
      refine List.perm_middle.trans ?_
      rw [← List.cons_append]
      exact hperm.append_right _
    · simp [System.responses, hb, Broker.back]
  · rename_i hb
    obtain ⟨m, hk, rfl⟩ := Option.map_eq_some_iff.1 hs
    have hm : m ∈ s.responses := by simp [System.responses, List.mem_of_getElem? hk]
    obtain ⟨c, -, rfl, -⟩ := h.response hm
    refine h.relayed rfl ?_ ?_ (List.cons_ne_nil _ _)
    · simp [System.requests, hb, Broker.front]
    · have hperm := (perm_eraseIdx hk).symm
      simp only [System.responses, hb, Broker.back, List.append_assoc, List.nil_append, List.cons_append]
      rw [← List.cons_append]
      exact (hperm.append_right _).append_left _
  · cases hs

theorem Refines.frame {w : Nat} (hs : s.step ids workers (.frame w) = some t) : Refines ids t a := by
  have hready := h.ready
  rw [Ready] at hready
  rw [System.step] at hs
  split at hs
  · rename_i f g left sent back hb
    obtain rfl := Option.some.inj hs
    rw [hb] at hready
    refine h.relayed rfl ?_ ?_ ⟨List.cons_ne_nil _ _, hready.2⟩
    · simp [System.requests, hb, Broker.front]
    · simp [System.responses, hb, Broker.back]
  · -- the message is complete
    rename_i f sent back hb
    obtain ⟨-, hs⟩ := Option.ite_none_right_eq_some.1 hs
    obtain rfl := Option.some.inj hs
    rw [hb] at hready
    refine h.relayed rfl ?_ ?_ ?_
    · have hfront : (if back then Broker.backend else Broker.poll).front = [] := by cases back <;> rfl
      rw [System.requests, System.requests, hb, hfront, List.map_append, List.append_nil, List.append_assoc]
      exact List.perm_append_comm.append_left _
    · have hback : (if back then Broker.backend else Broker.poll).back = [] := by cases back <;> rfl
      rw [System.responses, System.responses, hb, hback]
      exact .refl _
    · cases back with
      | false => trivial
      | true => exact hready.2 rfl
  · rename_i f g left sent hb
    obtain rfl := Option.some.inj hs
    refine h.relayed rfl ?_ ?_ (List.cons_ne_nil _ _)
    · simp [System.requests, hb, Broker.front]
    · simp [System.responses, hb, Broker.back]
  · rename_i f sent hb
    have hm : sent ++ [f] ∈ s.responses := by simp [System.responses, hb, Broker.back]
    obtain ⟨c, hc, heq, -⟩ := h.response hm
    simp only [heq, if_pos (List.contains_iff_mem.2 hc), Option.some.injEq] at hs
    subst hs
    refine h.relayed rfl ?_ ?_ trivial
    · simp [System.requests, hb, Broker.front]
    · simp only [System.responses, hb, Broker.back, heq, List.map_append, List.map_cons, List.map_nil,
        List.append_assoc, List.nil_append]
      refine List.Perm.append_left _ ?_
      rw [← List.append_assoc, ← List.append_assoc]
      exact List.perm_append_comm
  · cases hs

theorem Refines.serve (hids : ∀ c ∈ ids, c ≠ []) {k : Nat} (hs : s.step ids workers (.serve k) = some t) :
    ∃ b, Refines ids t b := by
  rw [System.step] at hs
  split at hs
  · cases hs
  · rename_i w m hk
    obtain ⟨hfree, hs⟩ := Option.ite_none_right_eq_some.1 hs
    have hm : m ∈ s.requests :=
      List.mem_append_right _ (List.mem_map.2 ⟨_, List.mem_of_getElem? hk, rfl⟩)
    obtain ⟨c, hc, rfl, -, hlt, hrequest⟩ := h.request hm
    have hne := hids c hc
    simp [hne, sendstr_hello _ hlt] at hs
    subst hs
    refine ⟨{ a with
      requests := a.requests.erase (c, hello (s.clients c).i)
      replies := (c, answer (hello (s.clients c).i)) :: a.replies },
      h.rounds, h.waiting, h.got, ?_, ?_, h.sound.step (.serve c _ _ (List.perm_cons_erase hrequest)), h.ready,
      h.client⟩
    · have hout : (s.requests.map parse).Perm (some (c, hello (s.clients c).i) ::
          ((s.frontIn ++ s.broker.front ++ (s.queued.eraseIdx k).map Prod.snd).map parse)) := by
        have hperm := ((perm_eraseIdx hk).map Prod.snd).map parse
        simp only [System.requests, List.map_append]
        exact (hperm.append_left _).trans List.perm_middle
      have hin := (List.perm_cons_erase hrequest).map some
      exact (hout.symm.trans (h.requests.trans hin)).cons_inv
    · have hperm := h.replies
      simp only [System.responses, List.map_append, List.append_assoc] at hperm
      simp only [System.responses, List.map_append, List.append_assoc, List.map_cons, List.map_nil,
        List.cons_append, List.nil_append, answer_hello hlt]
      exact List.perm_middle.trans (hperm.cons _)

theorem Refines.reply {k : Nat} (hs : s.step ids workers (.reply k) = some t) : Refines ids t a := by
  obtain ⟨v, hk, rfl⟩ := Option.map_eq_some_iff.1 hs
  refine h.relayed rfl (.refl _) ?_ ?_
  · have hperm := ((perm_eraseIdx hk).map fun v => v.envelope ++ [v.sendstr]).symm
    have hmove : ∀ (x : List Bytes) (A B C D : List (List Bytes)), (x :: A).Perm D →
        (A ++ B ++ (C ++ [x])).Perm (D ++ B ++ C) := by
      intro x A B C D hD
      rw [← List.append_assoc]
      refine List.perm_append_comm.trans ?_
      rw [List.singleton_append, ← List.cons_append, ← List.cons_append]
      exact (hD.append_right B).append_right C
    exact (hmove _ _ _ _ _ hperm).append_right _
  · have hready := h.ready
    rw [Ready] at hready ⊢
    cases hb : s.broker with
    | poll => trivial
    | frontend back | relayFront left sent back =>
      rw [hb] at hready
      exact ⟨hready.1, by simp⟩
    | backend => simp
    | relayBack left sent =>
      rw [hb] at hready
      exact hready

theorem Refines.step (hids : ∀ c ∈ ids, c ≠ []) {act : BrokerAction} (hs : s.step ids workers act = some t) :
    ∃ b, Refines ids t b := by
  cases act with
  | zmq_send c => exact h.zmq_send hs
  | zmq_recv k => exact h.zmq_recv hs
  | poll front back => exact ⟨a, h.poll hs⟩
  | message k => exact ⟨a, h.message hs⟩
  | frame w => exact ⟨a, h.frame hs⟩
  | serve k => exact h.serve hids hs
  | reply k => exact ⟨a, h.reply hs⟩

/-! ## Nobody waits for good -/

theorem Refines.exists_serve (hids : ∀ c ∈ ids, c ≠ []) {p : Nat × List Bytes} {rest : List (Nat × List Bytes)}
    (hserving : s.serving = []) (hqueued : s.queued = p :: rest) : (s.step ids workers (.serve 0)).isSome := by
  have hm : p.2 ∈ s.requests :=
    List.mem_append_right _ (List.mem_map.2 ⟨p, by rw [hqueued]; exact List.mem_cons_self, rfl⟩)
  obtain ⟨c, hc, heq, -, hlt, -⟩ := h.request hm
  obtain ⟨w, m⟩ := p
  obtain rfl : m = _ := heq
  have hne := hids c hc
  simp [System.step, hqueued, hserving, hne, sendstr_hello _ hlt]

theorem Refines.exists_recv {p : Bytes × List Bytes} {rest : List (Bytes × List Bytes)}
    (hdelivered : s.delivered = p :: rest) : (s.step ids workers (.zmq_recv 0)).isSome := by
  have hm : p.1 :: p.2 ∈ s.responses :=
    List.mem_append_right _ (List.mem_map.2 ⟨p, by rw [hdelivered]; exact List.mem_cons_self, rfl⟩)
  obtain ⟨c, hc, heq, hwaits, -⟩ := h.response hm
  obtain ⟨d, m⟩ := p
  obtain ⟨rfl, rfl⟩ : d = c ∧ m = [[], world (s.clients c).i] := by simpa using heq
  simp [System.step, hdelivered, hwaits]

theorem Refines.idle (hrequests : s.requests = []) (hresponses : s.responses = []) (c : Bytes) :
    (s.clients c).waiting = false := by
  by_contra hwaits
  rw [Bool.not_eq_false, ← h.waiting] at hwaits
  have hempty : ∀ {l : List (Bytes × Bytes)}, ([] : List (Option (Bytes × Bytes))).Perm (l.map some) → l = [] :=
    fun hperm => List.map_eq_nil_iff.1 hperm.nil_eq.symm
  have hr := h.requests
  have ha := h.replies
  rw [hrequests, List.map_nil] at hr
  rw [hresponses, List.map_nil] at ha
  rcases h.sound.pending hwaits with ⟨q, hq⟩ | ⟨b, hb⟩
  · rw [hempty hr] at hq
    cases hq
  · rw [hempty ha] at hb
    cases hb

theorem Refines.exists_step (hids : ∀ c ∈ ids, c ≠ []) (hworkers : 0 < workers)
    (hnot : ∃ c ∈ ids, (s.clients c).i < 10) : ∃ act, (s.step ids workers act).isSome := by
  have hready := h.ready
  rw [Ready] at hready
  cases hb : s.broker with
  | frontend back =>
    rw [hb] at hready
    obtain ⟨m, rest, hcons⟩ := List.exists_cons_of_ne_nil hready.1
    exact ⟨.message 0, by simp [System.step, hb, hcons]⟩
  | backend =>
    rw [hb] at hready
    obtain ⟨m, rest, hcons⟩ := List.exists_cons_of_ne_nil hready
    exact ⟨.message 0, by simp [System.step, hb, hcons]⟩
  | relayFront left sent back =>
    rw [hb] at hready
    refine ⟨.frame 0, ?_⟩
    match left with
    | [] => exact absurd rfl hready.1
    | [f] => simp [System.step, hb, hworkers]
    | f :: g :: left => simp [System.step, hb]
  | relayBack left sent =>
    rw [hb] at hready
    refine ⟨.frame 0, ?_⟩
    match left with
    | [] => exact absurd rfl hready
    | [f] =>
      have hne := List.append_ne_nil_of_right_ne_nil sent (List.cons_ne_nil f [])
      obtain ⟨c, m, hcons⟩ := List.exists_cons_of_ne_nil hne
      simp [System.step, hb, hcons]
    | f :: g :: left => simp [System.step, hb]
  | poll =>
    by_cases hfront : s.frontIn = []
    · by_cases hback : s.backIn = []
      · cases hserving : s.serving with
        | cons v rest => exact ⟨.reply 0, by simp [System.step, hserving]⟩
        | nil =>
          cases hqueued : s.queued with
          | cons p rest => exact ⟨.serve 0, h.exists_serve hids hserving hqueued⟩
          | nil =>
            cases hdelivered : s.delivered with
            | cons p rest => exact ⟨.zmq_recv 0, h.exists_recv hdelivered⟩
            | nil =>
              -- nothing is on its way
              obtain ⟨c, hc, hlt⟩ := hnot
              have hidle := h.idle (by simp [System.requests, hfront, hb, Broker.front, hqueued])
                (by simp [System.responses, hserving, hb, Broker.back, hback, hdelivered]) c
              exact ⟨.zmq_send c, by simp [System.step, hc, hidle, hlt]⟩
      · exact ⟨.poll false true, by simp [System.step, hb, hback]⟩
    · exact ⟨.poll true false, by simp [System.step, hb, hfront]⟩

end

/-! ## Runs -/

theorem refines_of_run (hids : ∀ c ∈ ids, c ≠ []) {as : List BrokerAction}
    (h : run (step ids workers) start as = some s) : ∃ a, Refines ids s a :=
  run_invariant (I := fun s => ∃ a, Refines ids s a) (fun _ _ _ ⟨_, hu⟩ hs => hu.step hids hs)
    ⟨RequestReply.init, refines_start⟩ h

/-- **However many clients and workers there are, and whoever goes on, every client prints the replies to its own
requests, each once and in order; and while a client has requests to send, somebody can go on.** -/
theorem replies_in_order (hids : ∀ c ∈ ids, c ≠ []) {as : List BrokerAction}
    (h : run (step ids workers) start as = some s) :
    (∀ c, (s.clients c).printed = (List.range (s.clients c).i).map world) ∧
      (0 < workers → (∃ c ∈ ids, (s.clients c).i < 10) → ∃ act, (s.step ids workers act).isSome) := by
  obtain ⟨a, ha⟩ := refines_of_run hids h
  refine ⟨fun c => ?_, ha.exists_step hids⟩
  rw [← ha.got, ha.sound.got, ha.rounds]
  refine List.map_congr_left fun i hi => answer_hello ?_
  have hlt := List.mem_range.1 hi
  have hle := (ha.client c).1
  omega

/-- Two clients, and two workers that get a request each and answer the other way round. -/
def twoClients : List BrokerAction :=
  [.zmq_send [1], .zmq_send [2], .poll true false, .message 1, .frame 0, .frame 0, .frame 1, .poll true false,
    .message 0, .frame 0, .frame 0, .frame 0, .serve 1, .serve 0, .reply 0, .reply 0, .poll false true, .message 1,
    .frame 0, .frame 0, .frame 0, .poll false true, .message 0, .frame 0, .frame 0, .frame 0, .zmq_recv 1,
    .zmq_recv 0, .zmq_send [2]]

theorem twoClients_isSome : (run (step [[1], [2]] 2) start twoClients).isSome := by decide +kernel

def twice : System := Option.get _ twoClients_isSome

theorem twice_i : (twice.clients [1]).i = 1 ∧ (twice.clients [2]).i = 1 := by decide +kernel

theorem replies_in_order_twice : (twice.clients [1]).printed = [world 0] ∧ (twice.clients [2]).printed = [world 0] ∧
    ∃ act, (twice.step [[1], [2]] 2 act).isSome := by
  obtain ⟨hprinted, hstep⟩ := replies_in_order (by decide) (Option.some_get twoClients_isSome).symm
  refine ⟨(hprinted [1]).trans ?_, (hprinted [2]).trans ?_, hstep (by decide) ⟨[1], by decide, ?_⟩⟩
  · show (List.range (twice.clients [1]).i).map world = _
    rw [twice_i.1]
    rfl
  · show (List.range (twice.clients [2]).i).map world = _
    rw [twice_i.2]
    rfl
  · show (twice.clients [1]).i < 10
    rw [twice_i.1]
    decide

end System

end CppLinuxLearn.ZmqTest
