import Mathlib.Data.List.Infix
import Mathlib.Data.List.Nodup
import Mathlib.Logic.Function.Basic
import Khala.Library.Runs

/-!
# Dealers and routers

Clients that talk to servers over the DEALER and ROUTER sockets of ZeroMQ. A client opens numbered
connections to addresses. What it sends on a connection comes to the server at the address with one
more frame in front, the identity by which the server's router knows the connection, and a message
that a server hands to its router goes to the connection that the first frame names, without that
frame. Each leg keeps the order of the messages and may lose any of them. A dealer sends nothing for
a message without frames, and a router nothing for one that has an identity only.

A `Party` is any transition system that sends and receives. `Net.system` lets all the parties and
the network take their steps in any interleaving, and `Net.requests_sublist`, `Net.replies_sublist`
and their counterparts for legs without a loss say what its runs do to the messages.
-/

namespace Routing

open Transitions System

/-! ## Parties -/

/-- A system that sends `Out`s and receives `In`s. Between the step that takes a message from a
socket and the one that gives it to the listener it is in the system's hands. -/
structure Party (Out In : Type) where
  State : Type
  Label : Type
  system : System State Label
  /-- What was sent, in order. -/
  sent : State → List Out
  /-- The message that a step takes from a socket. -/
  taken? : Label → Option In
  /-- The message that a step gives to the listener. -/
  listened? : Label → Option In
  /-- The messages that were taken and not yet given to the listener. -/
  held : State → List In
  held_init : held system.init = []
  sent_step : ∀ {s l t}, system.step s l t → sent s <+: sent t
  given : ∀ {s l t}, system.step s l t →
    held s ++ (taken? l).toList = (listened? l).toList ++ held t

/-- A party that sends and receives over numbered connections to addresses. A message is received
with the number and with the address of its connection. -/
structure Client (F A : Type) extends Party (ℕ × List F) (ℕ × A × List F) where
  /-- The connections that were opened, each with its address. -/
  connections : State → List (ℕ × A)
  connections_step : ∀ {s l t}, system.step s l t → connections s <+: connections t
  nodup : ∀ {s}, system.Reachable s → ((connections s).map Prod.fst).Nodup
  mem_connections : ∀ {s l t n a msg}, system.Reachable s → system.step s l t →
    taken? l = some (n, a, msg) → (n, a) ∈ connections s

/-- A party that sends and receives over one router. -/
abbrev Server (F : Type) := Party (List F) (List F)

/-- The messages with frames that were sent on a connection. -/
def messagesOn {F : Type} (n : ℕ) (sent : List (ℕ × List F)) : List (List F) :=
  sent.filterMap fun x => if x.1 = n ∧ x.2 ≠ [] then some x.2 else none

/-- Nothing was sent on a connection if nothing was sent. -/
@[simp] theorem messagesOn_nil {F : Type} (n : ℕ) :
    messagesOn n ([] : List (ℕ × List F)) = [] := rfl

/-- A message that a dealer sends has a frame. -/
theorem ne_nil_of_mem_messagesOn {F : Type} {n : ℕ} {sent : List (ℕ × List F)} {msg : List F}
    (h : msg ∈ messagesOn n sent) : msg ≠ [] := by
  obtain ⟨x, -, hx⟩ := List.mem_filterMap.mp h
  split_ifs at hx with hne
  exact Option.some.inj hx ▸ hne.2

/-- What is sent later comes after what was sent. -/
theorem messagesOn_prefix {F : Type} {n : ℕ} {sent sent' : List (ℕ × List F)}
    (h : sent <+: sent') : messagesOn n sent <+: messagesOn n sent' :=
  h.filterMap _

/-- The messages that were received from a connection. -/
def receivedOn {F A : Type} (n : ℕ) (received : List (ℕ × A × List F)) : List (List F) :=
  received.filterMap fun x => if x.1 = n then some x.2.2 else none

/-- What is received later comes after what was received. -/
@[simp] theorem receivedOn_append {F A : Type} (n : ℕ)
    (received received' : List (ℕ × A × List F)) :
    receivedOn n (received ++ received') = receivedOn n received ++ receivedOn n received' :=
  List.filterMap_append

/-! ## The network -/

/-- Clients and servers, and what is between them. -/
structure Net (F A ι κ : Type) where
  client : ι → Client F A
  server : κ → Server F
  /-- The server at an address. -/
  serverAt : A → Option κ
  /-- The connection that a server's router knows by an identity. A connection may have several, one
  after the other. -/
  owner? : κ → F → Option (ι × ℕ)

namespace Net

variable {F A ι κ : Type} (N : Net F A ι κ)

/-- The parties, and the messages between them. -/
structure State where
  client : ∀ c, (N.client c).State
  server : ∀ σ, (N.server σ).State
  /-- How many of the messages of a client's connection have left it. -/
  left : ι → ℕ → ℕ
  /-- The messages that wait at a server's router. -/
  arrived : κ → List (List F)
  /-- How many of the messages that a server sent have left its router. -/
  routed : κ → ℕ
  /-- The messages that wait at a client's connection. -/
  inbox : ι → ℕ → List (List F)

/-- What can happen. -/
inductive Label
  /-- A client does something. -/
  | client (c : ι) (l : (N.client c).Label)
  /-- A server does something. -/
  | server (σ : κ) (l : (N.server σ).Label)
  /-- The next message of a client's connection arrives at a server. -/
  | deliver (c : ι) (n : ℕ) (σ : κ)
  /-- It is lost. -/
  | lose (c : ι) (n : ℕ)
  /-- The next message that a server sent arrives at a client's connection. -/
  | route (σ : κ) (c : ι) (n : ℕ)
  /-- It is lost. -/
  | drop (σ : κ) (msg : List F)

variable {N}

/-- The client's connection leads to the server. -/
def State.Leads (s : N.State) (c : ι) (n : ℕ) (σ : κ) : Prop :=
  ∃ a, (n, a) ∈ (N.client c).connections (s.client c) ∧ N.serverAt a = some σ

/-- What a client has sent on a connection. -/
def State.requests (s : N.State) (c : ι) (n : ℕ) : List (List F) :=
  messagesOn n ((N.client c).sent (s.client c))

variable [DecidableEq ι]

/-- What a router makes of a message: the rest of it, if the first frame is an identity of the
connection and more follows. -/
def body? (N : Net F A ι κ) (σ : κ) (c : ι) (n : ℕ) : List F → Option (List F)
  | [] => none
  | f :: msg => if N.owner? σ f = some (c, n) ∧ msg ≠ [] then some msg else none

/-- The messages of a list that are from a connection, or to it. -/
def bodies (N : Net F A ι κ) (σ : κ) (c : ι) (n : ℕ) (msgs : List (List F)) : List (List F) :=
  msgs.filterMap (N.body? σ c n)

/-- No messages have no bodies. -/
@[simp] theorem bodies_nil (σ : κ) (c : ι) (n : ℕ) : N.bodies σ c n [] = [] := rfl

/-- The bodies of later messages come later. -/
@[simp] theorem bodies_append (σ : κ) (c : ι) (n : ℕ) (msgs msgs' : List (List F)) :
    N.bodies σ c n (msgs ++ msgs') = N.bodies σ c n msgs ++ N.bodies σ c n msgs' :=
  List.filterMap_append

/-- The body of one message. -/
@[simp] theorem bodies_singleton (σ : κ) (c : ι) (n : ℕ) (msg : List F) :
    N.bodies σ c n [msg] = (N.body? σ c n msg).toList := by
  cases h : N.body? σ c n msg <;> simp [bodies, h]

/-- A message has a body if an identity of the connection is in front of it, and it is not empty. -/
theorem body?_eq_some_iff {σ : κ} {c : ι} {n : ℕ} {msg body : List F} :
    N.body? σ c n msg = some body ↔
      ∃ f, msg = f :: body ∧ N.owner? σ f = some (c, n) ∧ body ≠ [] := by
  cases msg with
  | nil => simp [body?]
  | cons f msg =>
    rw [body?, Option.ite_none_right_eq_some, Option.some.injEq]
    constructor
    · rintro ⟨⟨howner, hne⟩, rfl⟩
      exact ⟨f, rfl, howner, hne⟩
    · rintro ⟨_, ⟨⟩, howner, hne⟩
      exact ⟨⟨howner, hne⟩, rfl⟩

/-- A message with an identity of a connection is from that one, or to it, and no other. -/
theorem body?_of_owner {σ : κ} {c c' : ι} {n n' : ℕ} {f : F} {msg : List F} (hne : msg ≠ [])
    (howner : N.owner? σ f = some (c', n')) :
    N.body? σ c n (f :: msg) = if c' = c ∧ n' = n then some msg else none := by
  simp [body?, howner, hne]

/-- The messages that have left a connection. -/
def State.departed (s : N.State) (c : ι) (n : ℕ) : List (List F) :=
  (s.requests c n).take (s.left c n)

/-- What a server has sent to a connection. -/
def State.replies (s : N.State) (σ : κ) (c : ι) (n : ℕ) : List (List F) :=
  N.bodies σ c n ((N.server σ).sent (s.server σ))

/-- The messages to a connection that have left the router. -/
def State.returned (s : N.State) (σ : κ) (c : ι) (n : ℕ) : List (List F) :=
  N.bodies σ c n (((N.server σ).sent (s.server σ)).take (s.routed σ))

/-- Changes the value at one connection. -/
def set {α : Type} (g : ι → ℕ → α) (c : ι) (n : ℕ) (a : α) : ι → ℕ → α :=
  Function.update g c (Function.update (g c) n a)

/-- The value at the connection that was set. -/
@[simp] theorem set_self {α : Type} (g : ι → ℕ → α) (c : ι) (n : ℕ) (a : α) :
    set g c n a c n = a := by
  simp [set]

/-- The values at the other connections stay. -/
theorem set_of_ne {α : Type} {g : ι → ℕ → α} {c c' : ι} {n n' : ℕ} {a : α}
    (h : ¬ (c = c' ∧ n = n')) : set g c n a c' n' = g c' n' := by
  by_cases hc : c = c'
  · subst hc
    rw [set, Function.update_self, Function.update_of_ne fun hn => h ⟨rfl, hn.symm⟩]
  · rw [set, Function.update_of_ne (Ne.symm hc)]

/-- The next message of a connection leaves it. -/
theorem departed_succ {s : N.State} {c' : ι} {n' : ℕ} {msg : List F}
    (hget : (s.requests c' n')[s.left c' n']? = some msg) (c : ι) (n : ℕ) :
    State.departed { s with left := set s.left c' n' (s.left c' n' + 1) } c n =
      s.departed c n ++ if c' = c ∧ n' = n then [msg] else [] := by
  by_cases heq : c' = c ∧ n' = n
  · obtain ⟨rfl, rfl⟩ := heq
    simp only [State.departed, set_self, List.take_add_one, and_self, if_true]
    exact congrArg (_ ++ Option.toList ·) hget
  · simp only [State.departed, set_of_ne heq, heq, if_false, List.append_nil]
    rfl

variable [DecidableEq κ]

/-- One step. -/
inductive Step : N.State → N.Label → N.State → Prop
  | client {s : N.State} {c l t} : (N.client c).system.step (s.client c) l t →
      (N.client c).taken? l = none →
      Step s (.client c l) { s with client := Function.update s.client c t }
  | take {s : N.State} {c l t n a msg rest} : (N.client c).system.step (s.client c) l t →
      (N.client c).taken? l = some (n, a, msg) → s.inbox c n = msg :: rest →
      Step s (.client c l)
        { s with
          client := Function.update s.client c t
          inbox := set s.inbox c n rest }
  | server {s : N.State} {σ l t} : (N.server σ).system.step (s.server σ) l t →
      (N.server σ).taken? l = none →
      Step s (.server σ l) { s with server := Function.update s.server σ t }
  | accept {s : N.State} {σ l t msg rest} : (N.server σ).system.step (s.server σ) l t →
      (N.server σ).taken? l = some msg → s.arrived σ = msg :: rest →
      Step s (.server σ l)
        { s with
          server := Function.update s.server σ t
          arrived := Function.update s.arrived σ rest }
  | deliver {s : N.State} {c n σ} (msg f) : (s.requests c n)[s.left c n]? = some msg →
      s.Leads c n σ → N.owner? σ f = some (c, n) →
      Step s (.deliver c n σ)
        { s with
          left := set s.left c n (s.left c n + 1)
          arrived := Function.update s.arrived σ (s.arrived σ ++ [f :: msg]) }
  | lose {s : N.State} {c n} : s.left c n < (s.requests c n).length →
      Step s (.lose c n) { s with left := set s.left c n (s.left c n + 1) }
  | route {s : N.State} {σ c n} (msg body) :
      ((N.server σ).sent (s.server σ))[s.routed σ]? = some msg →
      N.body? σ c n msg = some body → s.Leads c n σ →
      Step s (.route σ c n)
        { s with
          routed := Function.update s.routed σ (s.routed σ + 1)
          inbox := set s.inbox c n (s.inbox c n ++ [body]) }
  | drop {s : N.State} {σ} (msg) : ((N.server σ).sent (s.server σ))[s.routed σ]? = some msg →
      Step s (.drop σ msg) { s with routed := Function.update s.routed σ (s.routed σ + 1) }

/-- All the parties, from their beginnings on. -/
def system (N : Net F A ι κ) : System N.State N.Label where
  init :=
    { client := fun c => (N.client c).system.init
      server := fun σ => (N.server σ).system.init
      left := fun _ _ => 0
      arrived := fun _ => []
      routed := fun _ => 0
      inbox := fun _ _ => [] }
  step := Step

/-! ## What the parties receive -/

/-- What a client takes from its connections in a step. -/
def Label.taken? (c : ι) : N.Label → Option (ℕ × A × List F)
  | .client c' l => if c' = c then (N.client c').taken? l else none
  | _ => none

/-- What a client's listener is given in a step. -/
def Label.listened? (c : ι) : N.Label → Option (ℕ × A × List F)
  | .client c' l => if c' = c then (N.client c').listened? l else none
  | _ => none

/-- What a server takes from its router in a step. -/
def Label.accepted? (σ : κ) : N.Label → Option (List F)
  | .server σ' l => if σ' = σ then (N.server σ').taken? l else none
  | _ => none

/-- What a server's listener is given in a step. -/
def Label.heard? (σ : κ) : N.Label → Option (List F)
  | .server σ' l => if σ' = σ then (N.server σ').listened? l else none
  | _ => none

section Runs

variable {tr : List (N.State × N.Label)} {s t : N.State} {l : N.Label} {c : ι} {n : ℕ} {σ : κ}

/-- A client does something of its own in a step, or nothing. -/
theorem Step.client_cases (hs : Step s l t) (c : ι) :
    (∃ l', l = .client c l' ∧ (N.client c).system.step (s.client c) l' (t.client c)) ∨
      (l.taken? c = none ∧ l.listened? c = none ∧ t.client c = s.client c) := by
  cases hs with
  | @client c' l' t' hstep | @take c' l' t' _ _ _ _ hstep =>
    by_cases hc : c' = c
    · subst hc
      exact .inl ⟨l', rfl, by simpa using hstep⟩
    · exact .inr ⟨if_neg hc, if_neg hc, Function.update_of_ne (Ne.symm hc) _ _⟩
  | _ => exact .inr ⟨rfl, rfl, rfl⟩

/-- A server does something of its own in a step, or nothing. -/
theorem Step.server_cases (hs : Step s l t) (σ : κ) :
    (∃ l', l = .server σ l' ∧ (N.server σ).system.step (s.server σ) l' (t.server σ)) ∨
      (l.accepted? σ = none ∧ l.heard? σ = none ∧ t.server σ = s.server σ) := by
  cases hs with
  | @server σ' l' t' hstep | @accept σ' l' t' _ _ hstep =>
    by_cases hσ : σ' = σ
    · subst hσ
      exact .inl ⟨l', rfl, by simpa using hstep⟩
    · exact .inr ⟨if_neg hσ, if_neg hσ, Function.update_of_ne (Ne.symm hσ) _ _⟩
  | _ => exact .inr ⟨rfl, rfl, rfl⟩

/-- Each client is in a state that it can reach by itself. -/
theorem reachable_client (h : N.system.Run tr s) (c : ι) :
    (N.client c).system.Reachable (s.client c) := by
  refine h.invariant (I := fun s => (N.client c).system.Reachable (s.client c)) ⟨[], .init⟩
    fun {s l t} hr hs => ?_
  obtain ⟨l', -, hstep⟩ | ⟨-, -, heq⟩ := Step.client_cases hs c
  · exact hr.step hstep
  · exact heq ▸ hr

/-- A client's listener is given what the client takes, in order. -/
theorem taken_eq (h : N.system.Run tr s) (c : ι) :
    observed (Label.taken? c) tr =
      observed (Label.listened? c) tr ++ (N.client c).held (s.client c) := by
  induction h with
  | init => exact (N.client c).held_init.symm
  | step _ hs ih =>
    rw [observed_append, observed_append, ih, List.append_assoc, List.append_assoc]
    congr 1
    obtain ⟨l', rfl, hstep⟩ | ⟨htaken, hlistened, heq⟩ := Step.client_cases hs c
    · simpa [Label.taken?, Label.listened?] using (N.client c).given hstep
    · simp [htaken, hlistened, heq]

/-- A server's listener is given what the server takes, in order. -/
theorem accepted_eq (h : N.system.Run tr s) (σ : κ) :
    observed (Label.accepted? σ) tr =
      observed (Label.heard? σ) tr ++ (N.server σ).held (s.server σ) := by
  induction h with
  | init => exact (N.server σ).held_init.symm
  | step _ hs ih =>
    rw [observed_append, observed_append, ih, List.append_assoc, List.append_assoc]
    congr 1
    obtain ⟨l', rfl, hstep⟩ | ⟨haccepted, hheard, heq⟩ := Step.server_cases hs σ
    · simpa [Label.accepted?, Label.heard?] using (N.server σ).given hstep
    · simp [haccepted, hheard, heq]

/-! ## The legs -/

/-- What is before a position of a list stays there when the list grows. -/
theorem take_of_prefix {α : Type} {l l' : List α} (h : l <+: l') {k : ℕ} (hk : k ≤ l.length) :
    l'.take k = l.take k := by
  obtain ⟨r, rfl⟩ := h
  exact List.take_append_of_le_length hk

/-- A client keeps its connections in a step. -/
theorem Step.connections (hs : Step s l t) (c : ι) :
    (N.client c).connections (s.client c) <+: (N.client c).connections (t.client c) := by
  obtain ⟨l', -, hstep⟩ | ⟨-, -, heq⟩ := hs.client_cases c
  · exact (N.client c).connections_step hstep
  · rw [heq]

/-- No connection is led elsewhere. -/
theorem Step.leads (hs : Step s l t) (h : s.Leads c n σ) : t.Leads c n σ := by
  obtain ⟨a, ha, hserver⟩ := h
  exact ⟨a, (hs.connections c).subset ha, hserver⟩

/-- A client takes back nothing that it sent. -/
theorem Step.requests (hs : Step s l t) (c : ι) (n : ℕ) : s.requests c n <+: t.requests c n := by
  obtain ⟨l', -, hstep⟩ | ⟨-, -, heq⟩ := hs.client_cases c
  · exact messagesOn_prefix ((N.client c).sent_step hstep)
  · rw [State.requests, State.requests, heq]

/-- A server takes back nothing that it sent. -/
theorem Step.sent (hs : Step s l t) (σ : κ) :
    (N.server σ).sent (s.server σ) <+: (N.server σ).sent (t.server σ) := by
  obtain ⟨l', -, hstep⟩ | ⟨-, -, heq⟩ := hs.server_cases σ
  · exact (N.server σ).sent_step hstep
  · rw [heq]

/-- Only messages that were sent leave a connection. -/
theorem left_le (h : N.system.Run tr s) (c : ι) (n : ℕ) :
    s.left c n ≤ (s.requests c n).length := by
  refine h.invariant (I := fun s => s.left c n ≤ (s.requests c n).length) (Nat.zero_le _)
    fun {s l t} hle hs => ?_
  have hgrow := (hs.requests c n).length_le
  -- A message leaves a connection only if there is one.
  have hnext : ∀ {c' n'}, s.left c' n' < (s.requests c' n').length →
      set s.left c' n' (s.left c' n' + 1) c n ≤ (s.requests c n).length := by
    intro c' n' hlt
    by_cases heq : c' = c ∧ n' = n
    · obtain ⟨rfl, rfl⟩ := heq
      rwa [set_self]
    · rwa [set_of_ne heq]
  cases hs with
  | deliver _ _ hget => exact hnext (List.getElem?_eq_some_iff.mp hget).1
  | lose hlt => exact hnext hlt
  | _ => exact hle.trans hgrow

/-- Only messages that were sent leave a router. -/
theorem routed_le (h : N.system.Run tr s) (σ : κ) :
    s.routed σ ≤ ((N.server σ).sent (s.server σ)).length := by
  refine h.invariant (I := fun s => s.routed σ ≤ ((N.server σ).sent (s.server σ)).length)
    (Nat.zero_le _) fun {s l t} hle hs => ?_
  have hgrow := (hs.sent σ).length_le
  have hnext : ∀ {σ'}, s.routed σ' < ((N.server σ').sent (s.server σ')).length →
      Function.update s.routed σ' (s.routed σ' + 1) σ ≤
        ((N.server σ).sent (s.server σ)).length := by
    intro σ' hlt
    by_cases hσ : σ = σ'
    · subst hσ
      rwa [Function.update_self]
    · rwa [Function.update_of_ne hσ]
  cases hs with
  | route _ _ hget | drop _ hget => exact hnext (List.getElem?_eq_some_iff.mp hget).1
  | _ => exact hle.trans hgrow

/-- The next message that a server sent leaves its router. -/
theorem returned_succ {σ' : κ} {msg : List F}
    (hget : ((N.server σ').sent (s.server σ'))[s.routed σ']? = some msg) (σ : κ) (c : ι) (n : ℕ) :
    State.returned { s with routed := Function.update s.routed σ' (s.routed σ' + 1) } σ c n =
      s.returned σ c n ++ if σ' = σ then (N.body? σ c n msg).toList else [] := by
  obtain rfl | hσ := eq_or_ne σ' σ
  · simp [State.returned, List.take_add_one, hget]
  · simp [State.returned, hσ, Function.update_of_ne hσ.symm]

/-- What a step does to the messages that wait at a router. One that arrives goes last: it is from a
connection that leads there, and was the next one to leave that connection. -/
theorem Step.arrived (hs : Step s l t) (σ : κ) : ∃ new,
    s.arrived σ ++ new = (l.accepted? σ).toList ++ t.arrived σ ∧
    (∀ msg ∈ new, ∃ c n body, N.body? σ c n msg = some body ∧ s.Leads c n σ) ∧
    ∀ c n, s.left c n ≤ (s.requests c n).length → ∃ gone,
      t.departed c n = s.departed c n ++ gone ∧ (N.bodies σ c n new).Sublist gone ∧
      (l ≠ .lose c n → (∀ σ', s.Leads c n σ' → σ' = σ) → N.bodies σ c n new = gone) := by
  have hkeep : ∀ c n, s.left c n ≤ (s.requests c n).length → t.left c n = s.left c n →
      t.departed c n = s.departed c n := fun c n hle heq => by
    rw [State.departed, State.departed, heq, take_of_prefix (hs.requests c n) hle]
  cases hs with
  | @server σ' l' t' _ htaken =>
    refine ⟨[], ?_, nofun, fun c n hle => ⟨[], by simpa using hkeep c n hle rfl, .refl _,
      fun _ _ => rfl⟩⟩
    by_cases hσ : σ' = σ <;> simp [Label.accepted?, hσ, htaken]
  | @accept σ' l' t' msg rest _ htaken harrived =>
    refine ⟨[], ?_, nofun, fun c n hle => ⟨[], by simpa using hkeep c n hle rfl, .refl _,
      fun _ _ => rfl⟩⟩
    by_cases hσ : σ' = σ
    · subst hσ
      simp [Label.accepted?, htaken, harrived]
    · simp [Label.accepted?, hσ, Function.update_of_ne (Ne.symm hσ)]
  | @deliver c' n' σ' msg f hget hleads howner =>
    have hne : msg ≠ [] := ne_nil_of_mem_messagesOn (List.mem_of_getElem? hget)
    have hbody : ∀ c n, N.body? σ' c n (f :: msg) = if c' = c ∧ n' = n then some msg else none :=
      fun c n => body?_of_owner hne howner
    refine ⟨if σ' = σ then [f :: msg] else [], ?_, fun x hx => ?_, fun c n _ =>
      ⟨_, departed_succ hget c n, ?_, fun _ hunique => ?_⟩⟩
    · by_cases hσ : σ' = σ
      · subst hσ
        simp [Label.accepted?]
      · simp [Label.accepted?, hσ, Function.update_of_ne (Ne.symm hσ)]
    · split_ifs at hx with hσ
      · obtain rfl := List.mem_singleton.mp hx
        subst hσ
        exact ⟨c', n', msg, by simp [hbody], hleads⟩
      · cases hx
    · by_cases hσ : σ' = σ
      · subst hσ
        by_cases heq : c' = c ∧ n' = n <;> simp [hbody, heq]
      · simp [hσ]
    · by_cases heq : c' = c ∧ n' = n
      · obtain ⟨rfl, rfl⟩ := heq
        obtain rfl := hunique σ' hleads
        simp [hbody]
      · by_cases hσ : σ' = σ
        · subst hσ
          simp [hbody, heq]
        · simp [hσ, heq]
  | @lose c' n' hlt =>
    refine ⟨[], by simp [Label.accepted?], nofun, fun c n _ =>
      ⟨_, departed_succ (List.getElem?_eq_getElem hlt) c n, List.nil_sublist _, fun hl _ => ?_⟩⟩
    rw [if_neg]
    · rfl
    · rintro ⟨rfl, rfl⟩
      exact hl rfl
  | _ =>
    exact ⟨[], by simp [Label.accepted?], nofun, fun c n hle =>
      ⟨[], by simpa using hkeep c n hle rfl, .refl _, fun _ _ => rfl⟩⟩

/-- What a step does to the messages that wait at a connection. One that arrives goes last: the
connection leads to a server, and it was the next one to leave that server's router. -/
theorem Step.inbox (hs : Step s l t) (c : ι) (n : ℕ) : ∃ new,
    s.inbox c n ++ new = receivedOn n (l.taken? c).toList ++ t.inbox c n ∧
    (new ≠ [] → ∃ σ, s.Leads c n σ) ∧
    ∀ σ, s.routed σ ≤ ((N.server σ).sent (s.server σ)).length →
      (∀ σ', s.Leads c n σ' → σ' = σ) → ∃ gone,
      t.returned σ c n = s.returned σ c n ++ gone ∧ new.Sublist gone ∧
      ((∀ msg, l = .drop σ msg → N.body? σ c n msg = none) → new = gone) := by
  have hkeep : ∀ σ, s.routed σ ≤ ((N.server σ).sent (s.server σ)).length →
      t.routed σ = s.routed σ → t.returned σ c n = s.returned σ c n := fun σ hle heq => by
    rw [State.returned, State.returned, heq, take_of_prefix (hs.sent σ) hle]
  cases hs with
  | @client c' l' t' _ htaken =>
    refine ⟨[], ?_, (absurd rfl ·), fun σ hle _ => ⟨[], by simpa using hkeep σ hle rfl, .refl _,
      fun _ => rfl⟩⟩
    by_cases hc : c' = c <;> simp [Label.taken?, hc, htaken, receivedOn]
  | @take c' l' t' n' a msg rest _ htaken hinbox =>
    refine ⟨[], ?_, (absurd rfl ·), fun σ hle _ => ⟨[], by simpa using hkeep σ hle rfl, .refl _,
      fun _ => rfl⟩⟩
    by_cases hc : c' = c
    · subst hc
      by_cases hn : n' = n
      · subst hn
        simp [Label.taken?, htaken, hinbox, receivedOn]
      · simp [Label.taken?, htaken, receivedOn, hn, set_of_ne]
    · simp [Label.taken?, hc, receivedOn, set_of_ne]
  | @route σ' c' n' msg body hget hbody hleads =>
    obtain ⟨f, rfl, howner, hne⟩ := body?_eq_some_iff.mp hbody
    have hbody := body?_of_owner (c := c) (n := n) hne howner
    refine ⟨if c' = c ∧ n' = n then [body] else [], ?_, fun hnew => ?_, fun σ _ hunique => ?_⟩
    · by_cases hconn : c' = c ∧ n' = n
      · obtain ⟨rfl, rfl⟩ := hconn
        simp [Label.taken?, receivedOn]
      · simp [Label.taken?, receivedOn, hconn, set_of_ne]
    · split_ifs at hnew with hconn
      · obtain ⟨rfl, rfl⟩ := hconn
        exact ⟨σ', hleads⟩
      · exact absurd rfl hnew
    -- The router sends the message to the connection only if it is the connection's router.
    have heq : (if c' = c ∧ n' = n then [body] else []) =
        if σ' = σ then (N.body? σ c n (f :: body)).toList else [] := by
      by_cases hconn : c' = c ∧ n' = n
      · obtain ⟨rfl, rfl⟩ := hconn
        obtain rfl := hunique σ' hleads
        simp [hbody]
      · by_cases hσ : σ' = σ
        · subst hσ
          simp [hbody, hconn]
        · simp [hσ, hconn]
    exact ⟨_, returned_succ hget σ c n, heq ▸ .refl _, fun _ => heq⟩
  | @drop σ' msg hget =>
    refine ⟨[], by simp [Label.taken?, receivedOn], (absurd rfl ·), fun σ _ _ =>
      ⟨_, returned_succ hget σ c n, List.nil_sublist _, fun hl => ?_⟩⟩
    by_cases hσ : σ' = σ
    · subst hσ
      simp [hl msg rfl]
    · simp [hσ]
  | _ =>
    exact ⟨[], by simp [Label.taken?, receivedOn], (absurd rfl ·), fun σ hle _ =>
      ⟨[], by simpa using hkeep σ hle rfl, .refl _, fun _ => rfl⟩⟩

/-! ## Runs -/

/-- A connection leads to one server. -/
theorem leads_unique (h : N.system.Run tr s) {σ' : κ} (hleads : s.Leads c n σ)
    (hleads' : s.Leads c n σ') : σ' = σ := by
  obtain ⟨a, ha, hserver⟩ := hleads
  obtain ⟨a', ha', hserver'⟩ := hleads'
  have hnodup := (N.client c).nodup (reachable_client h c)
  obtain rfl : a' = a :=
    congrArg Prod.snd (List.inj_on_of_nodup_map hnodup ha' ha rfl)
  exact Option.some.inj (hserver'.symm.trans hserver)

/-- A client takes messages from its own connections, and with their addresses. -/
theorem mem_connections_of_taken (h : N.system.Run tr s) (c : ι) :
    ∀ x ∈ observed (Label.taken? c) tr,
      (x.1, x.2.1) ∈ (N.client c).connections (s.client c) := by
  induction h with
  | init => exact nofun
  | @step tr s t l hr hs ih =>
    rw [observed_append]
    refine List.forall_mem_append.mpr ⟨fun x hx => (hs.connections c).subset (ih x hx), ?_⟩
    obtain ⟨l', rfl, hstep⟩ | ⟨htaken, -, -⟩ := Step.client_cases hs c
    · rintro ⟨n, a, msg⟩ hx
      have htaken : (N.client c).taken? l' = some (n, a, msg) := by
        simpa [Label.taken?] using hx
      exact (hs.connections c).subset
        ((N.client c).mem_connections (reachable_client hr c) hstep htaken)
    · simp [htaken]

/-- Every message that comes to a server is from a connection that leads there. -/
theorem exists_body (h : N.system.Run tr s) (σ : κ) :
    ∀ msg ∈ observed (Label.accepted? σ) tr ++ s.arrived σ,
      ∃ c n body, N.body? σ c n msg = some body ∧ s.Leads c n σ := by
  induction h with
  | init => exact nofun
  | @step tr s t l hr hs ih =>
    obtain ⟨new, harrived, hnew, -⟩ := Step.arrived hs σ
    rw [observed_append, List.append_assoc, ← harrived, ← List.append_assoc]
    refine List.forall_mem_append.mpr ⟨fun msg hmsg => ?_, fun msg hmsg => ?_⟩
    · obtain ⟨c, n, body, hbody, hleads⟩ := ih msg hmsg
      exact ⟨c, n, body, hbody, Step.leads hs hleads⟩
    · obtain ⟨c, n, body, hbody, hleads⟩ := hnew msg hmsg
      exact ⟨c, n, body, hbody, Step.leads hs hleads⟩

/-- Messages come only to a connection that leads to a server. -/
theorem exists_leads (h : N.system.Run tr s) (c : ι) (n : ℕ)
    (hne : receivedOn n (observed (Label.taken? c) tr) ++ s.inbox c n ≠ []) :
    ∃ σ, s.Leads c n σ := by
  induction h with
  | init => exact absurd rfl hne
  | @step tr s t l hr hs ih =>
    obtain ⟨new, hinbox, hnew, -⟩ := Step.inbox hs c n
    rw [observed_append, receivedOn_append, List.append_assoc, ← hinbox, ← List.append_assoc,
      ne_eq, List.append_eq_nil_iff, not_and_or] at hne
    obtain ⟨σ, hleads⟩ := hne.elim ih hnew
    exact ⟨σ, Step.leads hs hleads⟩

/-- What has come to a server from a connection left that connection, in the same order. Without a
loss it is all that left it, if the connection leads to the server. -/
theorem arrived_sublist (h : N.system.Run tr s) (σ : κ) (c : ι) (n : ℕ) :
    (N.bodies σ c n (observed (Label.accepted? σ) tr ++ s.arrived σ)).Sublist (s.departed c n) ∧
      ((∀ a ∈ tr, a.2 ≠ .lose c n) → (∀ σ', s.Leads c n σ' → σ' = σ) →
        N.bodies σ c n (observed (Label.accepted? σ) tr ++ s.arrived σ) = s.departed c n) := by
  induction h with
  | init => exact ⟨List.nil_sublist _, fun _ _ => by simp [State.departed, system]⟩
  | @step tr s t l hr hs ih =>
    obtain ⟨new, harrived, -, hconn⟩ := Step.arrived hs σ
    obtain ⟨gone, hdeparted, hsub, heq⟩ := hconn c n (left_le hr c n)
    rw [observed_append, List.append_assoc, ← harrived, ← List.append_assoc, bodies_append,
      hdeparted]
    refine ⟨ih.1.append hsub, fun hlose hunique => ?_⟩
    have hunique' : ∀ σ', s.Leads c n σ' → σ' = σ := fun σ' hleads =>
      hunique σ' (Step.leads hs hleads)
    rw [ih.2 (fun a ha => hlose a (List.mem_append_left _ ha)) hunique',
      heq (hlose (s, l) (by simp)) hunique']

/-- What has come to a connection was sent to it by the server that it leads to, in the same order.
Without a loss it is all that the server sent to it and that left the router. -/
theorem inbox_sublist (h : N.system.Run tr s) (hunique : ∀ σ', s.Leads c n σ' → σ' = σ) :
    (receivedOn n (observed (Label.taken? c) tr) ++ s.inbox c n).Sublist (s.returned σ c n) ∧
      ((∀ a ∈ tr, ∀ msg, a.2 = .drop σ msg → N.body? σ c n msg = none) →
        receivedOn n (observed (Label.taken? c) tr) ++ s.inbox c n = s.returned σ c n) := by
  induction h with
  | init => exact ⟨List.nil_sublist _, fun _ => by simp [State.returned, system, receivedOn]⟩
  | @step tr s t l hr hs ih =>
    have ih := ih fun σ' hleads => hunique σ' (Step.leads hs hleads)
    obtain ⟨new, hinbox, -, hserver⟩ := Step.inbox hs c n
    obtain ⟨gone, hreturned, hsub, heq⟩ := hserver σ (routed_le hr σ) fun σ' hleads =>
      hunique σ' (Step.leads hs hleads)
    rw [observed_append, receivedOn_append, List.append_assoc, ← hinbox, ← List.append_assoc,
      hreturned]
    refine ⟨ih.1.append hsub, fun hdrop => ?_⟩
    rw [ih.2 fun a ha => hdrop a (List.mem_append_left _ ha), heq (hdrop (s, l) (by simp))]

/-- What a server's listener is given from a connection was sent on it, in the same order. -/
theorem requests_sublist (h : N.system.Run tr s) (σ : κ) (c : ι) (n : ℕ) :
    (N.bodies σ c n (observed (Label.heard? σ) tr)).Sublist (s.requests c n) := by
  have harrived := (arrived_sublist h σ c n).1
  rw [accepted_eq h, List.append_assoc, bodies_append] at harrived
  exact ((List.sublist_append_left _ _).trans harrived).trans (List.take_sublist _ _)

/-- Without a loss each message that was sent on a connection was given to the listener of the
server that it leads to, waits there, or has not left the connection. -/
theorem requests_eq (h : N.system.Run tr s) (hleads : s.Leads c n σ)
    (hlose : ∀ a ∈ tr, a.2 ≠ .lose c n) :
    s.requests c n = N.bodies σ c n (observed (Label.heard? σ) tr) ++
      N.bodies σ c n ((N.server σ).held (s.server σ) ++ s.arrived σ) ++
      (s.requests c n).drop (s.left c n) := by
  have harrived := (arrived_sublist h σ c n).2 hlose fun σ' => leads_unique h hleads
  rw [accepted_eq h, List.append_assoc, bodies_append] at harrived
  rw [harrived, State.departed, List.take_append_drop]

/-- What a client's listener is given from a connection was sent to it by the server that it leads
to, in the same order. -/
theorem replies_sublist (h : N.system.Run tr s) (hleads : s.Leads c n σ) :
    (receivedOn n (observed (Label.listened? c) tr)).Sublist (s.replies σ c n) := by
  have hinbox := (inbox_sublist h fun σ' => leads_unique h hleads).1
  rw [taken_eq h, receivedOn_append, List.append_assoc] at hinbox
  exact ((List.sublist_append_left _ _).trans hinbox).trans
    ((List.take_sublist _ _).filterMap _)

/-- A client's listener is given a message only from a server, which is the one at the address that
comes with the message. -/
theorem exists_server (h : N.system.Run tr s) (c : ι) :
    ∀ x ∈ observed (Label.listened? c) tr, ∃ σ, N.serverAt x.2.1 = some σ ∧ s.Leads c x.1 σ := by
  intro x hx
  have hx : x ∈ observed (Label.taken? c) tr := taken_eq h c ▸ List.mem_append_left _ hx
  have hmem : x.2.2 ∈ receivedOn x.1 (observed (Label.taken? c) tr) :=
    List.mem_filterMap.mpr ⟨x, hx, if_pos rfl⟩
  obtain ⟨σ, a, ha, hserver⟩ := exists_leads h c x.1
    (List.append_ne_nil_of_left_ne_nil (List.ne_nil_of_mem hmem) _)
  have hconn := mem_connections_of_taken h c x hx
  have hnodup := (N.client c).nodup (reachable_client h c)
  obtain rfl : a = x.2.1 := congrArg Prod.snd (List.inj_on_of_nodup_map hnodup ha hconn rfl)
  exact ⟨σ, hserver, x.2.1, ha, hserver⟩

/-- Without a loss each message that the server sent to a connection was given to the client's
listener, waits there, or has not left the router. -/
theorem replies_eq (h : N.system.Run tr s) (hleads : s.Leads c n σ)
    (hdrop : ∀ a ∈ tr, ∀ msg, a.2 = .drop σ msg → N.body? σ c n msg = none) :
    s.replies σ c n = receivedOn n (observed (Label.listened? c) tr) ++
      (receivedOn n ((N.client c).held (s.client c)) ++ s.inbox c n) ++
      N.bodies σ c n (((N.server σ).sent (s.server σ)).drop (s.routed σ)) := by
  have hinbox := (inbox_sublist h fun σ' => leads_unique h hleads).2 hdrop
  rw [taken_eq h, receivedOn_append, List.append_assoc] at hinbox
  rw [hinbox, State.returned, ← bodies_append, List.take_append_drop]
  rfl

/-- If what a server sends to a connection answers what its listener hears from it, in order, then
what the client's listener is given answers what the client sent, in order. -/
theorem answers_sublist (h : N.system.Run tr s) (hleads : s.Leads c n σ)
    {answer : List F → List F}
    (hanswers : (s.replies σ c n).Sublist
      ((N.bodies σ c n (observed (Label.heard? σ) tr)).map answer)) :
    (receivedOn n (observed (Label.listened? c) tr)).Sublist ((s.requests c n).map answer) :=
  ((replies_sublist h hleads).trans hanswers).trans ((requests_sublist h σ c n).map answer)

/-- Without a loss the client's listener is given the answers to the first messages that the client
sent, if the server answers the first that it hears. -/
theorem answers_prefix (h : N.system.Run tr s) (hleads : s.Leads c n σ)
    (hlose : ∀ a ∈ tr, a.2 ≠ .lose c n)
    (hdrop : ∀ a ∈ tr, ∀ msg, a.2 = .drop σ msg → N.body? σ c n msg = none)
    {answer : List F → List F}
    (hanswers : s.replies σ c n <+: (N.bodies σ c n (observed (Label.heard? σ) tr)).map answer) :
    receivedOn n (observed (Label.listened? c) tr) <+: (s.requests c n).map answer := by
  have hreplies : receivedOn n (observed (Label.listened? c) tr) <+: s.replies σ c n := by
    rw [replies_eq h hleads hdrop, List.append_assoc]
    exact List.prefix_append _ _
  have hrequests : N.bodies σ c n (observed (Label.heard? σ) tr) <+: s.requests c n := by
    rw [requests_eq h hleads hlose, List.append_assoc]
    exact List.prefix_append _ _
  exact (hreplies.trans hanswers).trans (hrequests.map answer)

end Runs

end Net

end Routing
