import Khala.Js.Loop
import Khala.Zmq.Client.Sources
import Khala.Zmq.Messages

/-!
# Clients and servers together

Client loops and server loops on any platforms, joined by the dealers and routers of ZeroMQ. Each
loop is taken whole, with its threads, timers and user code, and only what it hands to its sockets
and reads from them meets the others. `requests_arrive` and `replies_arrive` say that a server's
listener hears what a client sent, and the client's listener what the server sent back, from its own
connection, with the address and the state of that connection, and in order. `answers_arrive` puts
the two together.
-/

namespace Khala

open Transitions System

/-! ## The threaded servers -/

/-- The messages that were handed to the router. -/
def ServerLoopScope.routerMessages (scope : ServerLoopScope) : List ZmqMsg :=
  (scope.context.sent.filter fun x => x.1 = ServerLoopScope.initial.backwardSocket).map Prod.snd

/-- A call takes no message back that was handed to the router. -/
theorem ServerLoopScope.routerMessages_prefix_call (c : ServerCall) (scope : ServerLoopScope) :
    scope.routerMessages <+: (call c scope).routerMessages := by
  obtain ⟨msg⟩ := c
  have hsent : scope.context.sent <+: (call (.sendMessage msg) scope).context.sent :=
    List.prefix_append _ _
  exact (hsent.filter _).map _

/-- A server's loop job as a party. -/
def LoopJob.server {Block : Type} (J : LoopJob Block) (Thread : Type) (K : ℕ∞)
    (sent : J.Scope → List ZmqMsg) (hsent : ∀ c scope, sent scope <+: sent (J.call c scope)) :
    Routing.Server Frame where
  State := State J Thread
  Label := Label J Thread
  system := J.system Thread K
  sent s := (sent s.scope).map ZmqMsg.frames
  taken? l := l.received?.map fun x => x.2.frames
  listened? l := l.listened?.map fun x => x.2.frames
  held s := s.pc.received?.toList.map fun x => x.2.frames
  held_init := rfl
  sent_step hs := by
    cases hs with
    | call c => exact (hsent c _).map _
    | _ => exact List.prefix_refl _
  given hs := by
    simpa [Option.toList_map] using congrArg (List.map fun x => x.2.frames) (Step.given hs)

/-! ## The loops on JS -/

namespace Js

variable {Block S : Type}

/-- What happens in a step, with the message if one arrives. -/
inductive Event (J : Loop) (Block : Type)
  | message (source : J.Source) (msg : ZmqMsg)
  | other (l : Label J Block)

/-- One step. -/
inductive EventStep {J : Loop} : State J Block → Event J Block → State J Block → Prop
  | message {s t source} (msg) : Step s (.message source) t → EventStep s (.message source msg) t
  | other {s t l} : Step s l t → (∀ source, l ≠ .message source) → EventStep s (.other l) t

/-- The message that arrives. -/
def Event.message? {J : Loop} : Event J Block → Option (J.Source × ZmqMsg)
  | .message source msg => some (source, msg)
  | .other _ => none

/-- The loop `J` from its creation on, with the messages that arrive. -/
def Loop.eventSystem (J : Loop) (Block : Type) : System (State J Block) (Event J Block) where
  init := (J.system Block).init
  step := EventStep

/-- What a step does to the scope. -/
theorem Step.scope_cases {J : Loop} {s t : State J Block} {l : Label J Block} (hs : Step s l t) :
    t.scope = s.scope ∨ t.scope = J.closeSockets s.scope ∨ J.bound s.scope = some t.scope ∨
      ∃ c, t.scope = J.call c s.scope := by
  cases hs with
  | stopSafe => exact .inr (.inl rfl)
  | bound _ hbound => exact .inr (.inr (.inl hbound))
  | call c => exact .inr (.inr (.inr ⟨c, rfl⟩))
  | _ => exact .inl rfl

/-- What a step with its message does to the scope. -/
theorem EventStep.scope_cases {J : Loop} {s t : State J Block} {e : Event J Block}
    (hs : EventStep s e t) : t.scope = s.scope ∨ t.scope = J.closeSockets s.scope ∨
      J.bound s.scope = some t.scope ∨ ∃ c, t.scope = J.call c s.scope := by
  cases hs with
  | message _ hs | other hs => exact hs.scope_cases

/-! ### The client -/

namespace ClientLoopScope

/-- The handler that a call makes for the socket that it opens. -/
def creation? (c : ClientCall S) (scope : ClientLoopScope S) : Option (ForwardSource S) :=
  match c with
  | .remove _ => none
  | .sendMessage address _ opening =>
    match scope.forwardSockets.get? address, opening.connects, opening.socketState with
    | none, true, some state =>
      some ⟨scope.context.opened, address, ⟨scope.context.opened, state⟩⟩
    | _, _, _ => none

/-- What a call does: nothing that was sent is taken back, and a socket is opened if a handler is
made, which is registered. -/
theorem call_cases (c : ClientCall S) (scope : ClientLoopScope S) :
    scope.context.opened ≤ (call c scope).context.opened ∧
    scope.context.sent <+: (call c scope).context.sent ∧
    (call c scope).handlers = scope.handlers ++ (creation? c scope).toList ∧
    ∀ x, creation? c scope = some x → x.socket = scope.context.opened ∧
      x.entry.socket = x.socket ∧ (call c scope).context.opened = scope.context.opened + 1 := by
  cases c with
  | remove address =>
    cases hget : scope.forwardSockets.get? address <;>
      simp [call, remove, hget, creation?, ZmqContext.close]
  | sendMessage address msg opening =>
    cases hget : scope.forwardSockets.get? address with
    | some entry => simp [call, sendMessage_of_get? hget, creation?, hget, ZmqContext.sendTo]
    | none =>
      cases hconnects : opening.connects with
      | false =>
        simp [call, sendMessage, hget, createAndConnectDealer, hconnects, creation?,
          ZmqContext.openSocket]
      | true =>
        cases hstate : opening.socketState with
        | none =>
          simp [call, sendMessage, hget, createAndConnectDealer, hconnects, hstate, creation?,
            ZmqContext.openSocket]
        | some state =>
          simp [call, sendMessage, hget, createAndConnectDealer, hconnects, hstate, creation?,
            ZmqContext.openSocket, ZmqContext.sendTo]

/-- `stopSafe` sends nothing. -/
theorem sent_closeSockets (scope : ClientLoopScope S) :
    scope.closeSockets.context.sent = scope.context.sent := by
  simp only [closeSockets]
  generalize scope.context = context
  induction scope.forwardSockets.values generalizing context with
  | nil => rfl
  | cons entry entries ih => exact ih (context.close entry.socket)

end ClientLoopScope

/-- A step of the client keeps what was sent and the handlers, and no two of these are for one
socket. -/
theorem EventStep.client {s t : State (clientLoop S) Block} {e : Event (clientLoop S) Block}
    (hs : EventStep s e t) :
    (ClientLoopScope.context s.scope).sent <+: (ClientLoopScope.context t.scope).sent ∧
    ClientLoopScope.handlers s.scope <+: ClientLoopScope.handlers t.scope ∧
    (Handlers (ClientLoopScope.handlers s.scope) (ClientLoopScope.context s.scope).opened →
      Handlers (ClientLoopScope.handlers t.scope) (ClientLoopScope.context t.scope).opened) := by
  obtain heq | heq | heq | ⟨c, heq⟩ := hs.scope_cases
  · rw [heq]
    exact ⟨List.prefix_refl _, List.prefix_refl _, id⟩
  · rw [heq]
    refine ⟨(ClientLoopScope.sent_closeSockets s.scope).symm ▸ List.prefix_refl _,
      List.prefix_refl _, fun h => ?_⟩
    have hopened := (ClientLoopScope.context_closeSockets s.scope).1
    exact hopened.symm ▸ h
  · cases heq
  · rw [heq]
    obtain ⟨hle, hsent, hhandlers, hnew⟩ := ClientLoopScope.call_cases c s.scope
    have hhandlers : ClientLoopScope.handlers ((clientLoop S).call c s.scope) = _ := hhandlers
    rw [hhandlers]
    exact ⟨hsent, List.prefix_append _ _, fun h => h.append hle hnew⟩

/-- No two handlers of a client are for one socket. -/
theorem handlers_of_reachable {s : State (clientLoop S) Block}
    (h : ((clientLoop S).eventSystem Block).Reachable s) :
    Handlers (ClientLoopScope.handlers s.scope) (ClientLoopScope.context s.scope).opened := by
  obtain ⟨tr, hr⟩ := h
  exact hr.invariant (I := fun s : State (clientLoop S) Block =>
    Handlers (ClientLoopScope.handlers s.scope) (ClientLoopScope.context s.scope).opened)
    (.nil _) fun h hs => (EventStep.client hs).2.2 h

/-- What the listener is given with a message. -/
def given (x : ForwardSource S × ZmqMsg) : ℕ × ForwardSource S × List Frame :=
  (x.1.socket, x.1, x.2.frames)

variable (Block S) in
/-- The client as a party. -/
def client : Routing.Client Frame (ForwardSource S) where
  State := State (clientLoop S) Block
  Label := Event (clientLoop S) Block
  system := (clientLoop S).eventSystem Block
  sent s := (ClientLoopScope.context s.scope).sent.map fun x => (x.1, x.2.frames)
  taken? e := e.message?.map given
  listened? e := e.message?.map given
  held _ := []
  held_init := rfl
  sent_step hs := hs.client.1.map _
  given _ := by simp
  connections s := (ClientLoopScope.handlers s.scope).map fun x => (x.socket, x)
  connections_step hs := hs.client.2.1.map _
  nodup h := by
    simpa [Function.comp_def] using (handlers_of_reachable h).nodup
  mem_connections {s e t n x msg} _ hs htaken := by
    cases hs with
    | other => cases htaken
    | @message _ source msg' hs =>
      have htaken : some (given (source, msg')) = some (n, x, msg) := htaken
      cases htaken
      cases hs with
      | message _ hdelivers => exact List.mem_map_of_mem (f := fun x => (x.socket, x)) hdelivers.1

/-! ### The server -/

variable (Block) in
/-- The server as a party. -/
def server (webSocket : Bool) (address : String) : Routing.Server Frame where
  State := State (serverLoop webSocket address) Block
  Label := Event (serverLoop webSocket address) Block
  system := (serverLoop webSocket address).eventSystem Block
  sent s := (ServerLoopScope.sent s.scope).map ZmqMsg.frames
  taken? e := e.message?.map fun x => x.2.frames
  listened? e := e.message?.map fun x => x.2.frames
  held _ := []
  held_init := rfl
  sent_step {s e t} hs := by
    refine List.IsPrefix.map _ ?_
    obtain heq | heq | heq | ⟨⟨msg⟩, heq⟩ := hs.scope_cases
    · rw [heq]
    · rw [heq]
      exact List.prefix_refl _
    · have hbound : (if s.scope.backwardSocket.bindFinished then none
          else some { s.scope with backwardSocket := s.scope.backwardSocket.bindCallback }) =
          some t.scope := heq
      split_ifs at hbound
      rw [← Option.some.inj hbound]
    · rw [heq]
      exact List.prefix_append _ _
  given _ := by simp

end Js

/-! ## The loops together -/

/-- A client loop on one of the platforms, with the size of its pipe. -/
inductive ClientKind
  | jvm (K : ℕ∞)
  | native (K : ℕ∞)
  | js

/-- A server loop on one of the platforms, with the size of its pipe. -/
inductive ServerKind
  | jvm (K : ℕ∞)
  | native (K : ℕ∞)
  | js (webSocket : Bool) (address : String)

/-- The platform of a client loop. -/
def ClientKind.platform : ClientKind → Platform
  | .jvm _ => .jvm
  | .native _ => .native
  | .js => .js

/-- The platform of a server loop. -/
def ServerKind.platform : ServerKind → Platform
  | .jvm _ => .jvm
  | .native _ => .native
  | .js _ _ => .js

variable (Block S Thread : Type)

/-- The client loop of a kind. -/
def ClientKind.client : ClientKind → Routing.Client Frame (ForwardSource S)
  | .jvm K => (Jvm.forwardSockets Block S).client Thread K
  | .native K => (Native.forwardSockets Block S).client Thread K
  | .js => Js.client Block S

/-- The server loop of a kind. -/
def ServerKind.server : ServerKind → Routing.Server Frame
  | .jvm K => (Jvm.serverLoopJob Block).server Thread K ServerLoopScope.routerMessages
      ServerLoopScope.routerMessages_prefix_call
  | .native K => (Native.serverLoopJob Block).server Thread K ServerLoopScope.routerMessages
      ServerLoopScope.routerMessages_prefix_call
  | .js webSocket address => Js.server Block webSocket address

/-- Client loops and server loops, and how their sockets meet. -/
structure Loops (ι κ : Type) where
  client : ι → ClientKind
  server : κ → ServerKind
  /-- The server whose router is bound to an address. -/
  serverAt : String → Option κ
  /-- The forward socket that a server's router knows by an identity. -/
  owner? : κ → Frame → Option (ι × ℕ)

variable {ι κ : Type}

/-- The network of the loops. -/
def Loops.net (loops : Loops ι κ) : Routing.Net Frame (ForwardSource S) ι κ where
  client c := (loops.client c).client Block S Thread
  server σ := (loops.server σ).server Block Thread
  serverAt x := loops.serverAt x.address
  owner? := loops.owner?

section Runs

open Routing Routing.Net

variable {Block S Thread} [DecidableEq ι] [DecidableEq κ] {loops : Loops ι κ}
  {tr : List ((loops.net Block S Thread).State × (loops.net Block S Thread).Label)}
  {s : (loops.net Block S Thread).State}

/-- What a run makes of the messages to a server. -/
structure RequestsArrive (N : Net Frame (ForwardSource S) ι κ) (tr : List (N.State × N.Label))
    (s : N.State) (σ : κ) : Prop where
  /-- What the listener hears from a forward socket was sent on it, once each and in order. -/
  order : ∀ c n, (N.bodies σ c n (observed (Net.Label.heard? σ) tr)).Sublist (s.requests c n)
  /-- It hears nothing but what comes from forward sockets that are connected to the server. -/
  origin : ∀ msg ∈ observed (Net.Label.heard? σ) tr, ∃ c n body,
    N.body? σ c n msg = some body ∧ s.Leads c n σ
  /-- If the network loses none of them, then all the messages that were sent on the socket were
  heard, or they wait in the loop thread's hands, at the router, or at the socket. -/
  complete : ∀ c n, s.Leads c n σ → (∀ a ∈ tr, a.2 ≠ .lose c n) →
    s.requests c n = N.bodies σ c n (observed (Net.Label.heard? σ) tr) ++
      N.bodies σ c n ((N.server σ).held (s.server σ) ++ s.arrived σ) ++
      (s.requests c n).drop (s.left c n)

/-- In every run of clients and servers on any platforms a server's listener hears what the clients
sent to the server. -/
theorem requests_arrive (h : (loops.net Block S Thread).system.Run tr s) (σ : κ) :
    RequestsArrive (loops.net Block S Thread) tr s σ where
  order := requests_sublist h σ
  origin msg hmsg := exists_body h σ msg (by
    rw [accepted_eq h, List.append_assoc]
    exact List.mem_append_left _ hmsg)
  complete _ _ := requests_eq h

/-- What a run makes of the messages to a client. -/
structure RepliesArrive (N : Net Frame (ForwardSource S) ι κ) (tr : List (N.State × N.Label))
    (s : N.State) (c : ι) : Prop where
  /-- With a message the listener is given the forward socket that it was read from, and the address
  and the state that the socket was opened with. -/
  handler : ∀ x ∈ observed (Net.Label.listened? c) tr,
    (x.1, x.2.1) ∈ (N.client c).connections (s.client c) ∧ x.2.1.socket = x.1 ∧
      x.2.1.entry.socket = x.1
  /-- No socket was opened twice. -/
  opened_once : (((N.client c).connections (s.client c)).map Prod.fst).Nodup
  /-- The message is from the server at this address. -/
  origin : ∀ x ∈ observed (Net.Label.listened? c) tr, ∃ σ,
    N.serverAt x.2.1 = some σ ∧ s.Leads c x.1 σ
  /-- What the listener is given from a socket the server sent to that socket, once each and in
  order. -/
  order : ∀ n σ, s.Leads c n σ →
    (receivedOn n (observed (Net.Label.listened? c) tr)).Sublist (s.replies σ c n)
  /-- If the network loses none of them, then all the messages that the server sent to the socket
  were given to the listener, or they wait in the loop thread's hands, at the socket, or at the
  router. -/
  complete : ∀ n σ, s.Leads c n σ →
    (∀ a ∈ tr, ∀ msg, a.2 = .drop σ msg → N.body? σ c n msg = none) →
    s.replies σ c n = receivedOn n (observed (Net.Label.listened? c) tr) ++
      (receivedOn n ((N.client c).held (s.client c)) ++ s.inbox c n) ++
      N.bodies σ c n (((N.server σ).sent (s.server σ)).drop (s.routed σ))

/-- A client's forward sockets are listed by their numbers. -/
theorem ClientKind.socket_eq (kind : ClientKind) {u : (kind.client Block S Thread).State}
    (h : (kind.client Block S Thread).system.Reachable u) :
    ∀ x ∈ (kind.client Block S Thread).connections u,
      x.2.socket = x.1 ∧ x.2.entry.socket = x.1 := by
  intro x hx
  cases kind with
  | jvm K | native K =>
    obtain ⟨y, hy, rfl⟩ := List.mem_map.mp hx
    exact ⟨rfl, (ForwardSockets.opened_of_reachable h).socket_eq y hy⟩
  | js =>
    obtain ⟨y, hy, rfl⟩ := List.mem_map.mp hx
    exact ⟨rfl, (Js.handlers_of_reachable h).socket_eq y hy⟩

/-- In every run of clients and servers on any platforms a client's listener is given what the
servers sent to the client. -/
theorem replies_arrive (h : (loops.net Block S Thread).system.Run tr s) (c : ι) :
    RepliesArrive (loops.net Block S Thread) tr s c where
  handler x hx := by
    have hconn := mem_connections_of_taken h c x (taken_eq h c ▸ List.mem_append_left _ hx)
    exact ⟨hconn, (loops.client c).socket_eq (reachable_client h c) _ hconn⟩
  opened_once := (Net.client _ c).nodup (reachable_client h c)
  origin := exists_server h c
  order _ _ := replies_sublist h
  complete _ _ := replies_eq h

/-! ## Calls and answers -/

/-- The messages are the answers of `serve` to these requests, as a client reads them that builds
its messages on one platform and has its server on another. -/
def Answer (codec : StringCodec) (client server : Platform) (serve : List Content → List Content)
    (msgs : List (List Frame)) (requests : List (List Content)) : Prop :=
  List.Forall₂ (fun msg contents =>
    let answer := serve (contents.map (Content.received codec client server))
    ZmqMsg.popAll codec client answer ⟨msg⟩ =
      some (answer.map (Content.received codec server client), .new)) msgs requests

/-- The frames that a server sends back for `serve` are read as its answers. -/
theorem answer_map (codec : StringCodec) (client server : Platform)
    (serve : List Content → List Content) (requests : List (List Content)) :
    Answer codec client server serve (requests.map fun contents =>
      (buildMsg codec server (serve (contents.map (Content.received codec client server)))).frames)
      requests := by
  induction requests with
  | nil => exact .nil
  | cons contents requests ih => exact .cons (popAll_buildMsg codec server client _) ih

/-- A client has sent requests to a server, which pops them, and sends what `serve` makes of each
back to where it came from. In every run on any platforms, whatever their string conversions are,
the client's listener is given the answers to some of the requests in the order of these, and to the
first ones if the network loses nothing between the two. -/
theorem answers_arrive (h : (loops.net Block S Thread).system.Run tr s) {c : ι} {n : ℕ} {σ : κ}
    (hleads : s.Leads c n σ) (codec : StringCodec) (serve : List Content → List Content)
    (requests : List (List Content))
    (hrequests : s.requests c n = requests.map fun contents =>
      (buildMsg codec (loops.client c).platform contents).frames)
    (answer : List Frame → List Frame)
    (hanswer : ∀ contents ∈ requests, ∀ heard,
      (buildMsg codec (loops.client c).platform contents).popAll codec (loops.server σ).platform
        contents = some (heard, .new) →
      answer (buildMsg codec (loops.client c).platform contents).frames =
        (buildMsg codec (loops.server σ).platform (serve heard)).frames)
    (hanswers : s.replies σ c n <+:
      ((loops.net Block S Thread).bodies σ c n (observed (Net.Label.heard? σ) tr)).map answer) :
    (∃ answered, answered.Sublist requests ∧
      Answer codec (loops.client c).platform (loops.server σ).platform serve
        (receivedOn n (observed (Net.Label.listened? c) tr)) answered) ∧
    ((∀ a ∈ tr, a.2 ≠ .lose c n) →
      (∀ a ∈ tr, ∀ msg, a.2 = .drop σ msg →
        (loops.net Block S Thread).body? σ c n msg = none) →
      ∃ answered, answered <+: requests ∧
        Answer codec (loops.client c).platform (loops.server σ).platform serve
          (receivedOn n (observed (Net.Label.listened? c) tr)) answered) := by
  -- The answer to a request is made of what the server reads of it.
  have hmap : (s.requests c n).map answer = requests.map fun contents =>
      (buildMsg codec (loops.server σ).platform (serve (contents.map
        (Content.received codec (loops.client c).platform (loops.server σ).platform)))).frames := by
    rw [hrequests, List.map_map]
    exact List.map_congr_left fun contents hcontents =>
      hanswer contents hcontents _ (popAll_buildMsg codec _ _ contents)
  constructor
  · have hsub := answers_sublist h hleads hanswers.sublist
    rw [hmap, List.sublist_map_iff] at hsub
    obtain ⟨answered, hanswered, heq⟩ := hsub
    exact ⟨answered, hanswered, heq ▸ answer_map codec _ _ serve answered⟩
  · intro hlose hdrop
    have hpre := answers_prefix h hleads hlose hdrop hanswers
    rw [hmap, List.prefix_map_iff] at hpre
    obtain ⟨answered, hanswered, heq⟩ := hpre
    exact ⟨answered, hanswered, heq ▸ answer_map codec _ _ serve answered⟩

end Runs

/-! ## An echo -/

/-- A client on JS, and a native server whose pipe holds one message. -/
def sampleLoops : Loops Unit Unit where
  client _ := .js
  server _ := .native 1
  serverAt _ := some ()
  owner? _ f := if f = [7] then some ((), 0) else none

/-- The client's one forward socket. -/
def sampleSource : ForwardSource Unit := ⟨0, "a", ⟨0, ()⟩⟩

/-- The network of the two. -/
abbrev sampleNet : Routing.Net Frame (ForwardSource Unit) Unit Unit :=
  sampleLoops.net Unit Unit Unit

/-- The client sends two messages, and the server sends something back for each. -/
theorem exists_exchange (f f' g g' : Frame) : ∃ tr s, sampleNet.system.Run tr s ∧
    s.Leads () 0 () ∧ s.requests () 0 = [[f], [f']] ∧ s.replies () () 0 = [[g], [g']] ∧
    sampleNet.bodies () () 0 (observed (Routing.Net.Label.heard? ()) tr) = [[f], [f']] ∧
    Routing.receivedOn 0 (observed (Routing.Net.Label.listened? ()) tr) = [[g], [g']] ∧
    (∀ a ∈ tr, a.2 ≠ .lose () 0) ∧ ∀ a ∈ tr, ∀ msg, a.2 ≠ .drop () msg := by
  let client : Js.Event (Js.clientLoop Unit) Unit → sampleNet.Label := fun e => .client () e
  let server : Label (Native.serverLoopJob Unit) Unit → sampleNet.Label := fun l => .server () l
  have hrouter : [Watched.socket ()].Sublist serverSockets := List.sublist_cons_self _ _
  have hpong : Watched.pong ∉ [Watched.socket ()] := by simp
  have hleads : (sampleSource.socket, sampleSource) ∈ [(0, sampleSource)] :=
    List.mem_singleton_self _
  -- The client opens a forward socket, and sends both messages on it.
  have h₁ := (System.Run.init (S := sampleNet.system)).step (l := client (.other (.invokeSafe ())))
    (.client (.other (.invokeSafe ()) nofun) rfl)
  have h₂ := h₁.step (l := client (.other (.call (.sendMessage "a" ⟨[f]⟩ ⟨true, some (), true⟩))))
    (.client (.other (.call _ Nat.one_pos) nofun) rfl)
  have h₃ := h₂.step (l := client (.other (.call (.sendMessage "a" ⟨[f']⟩ ⟨true, some (), true⟩))))
    (.client (.other (.call _ Nat.one_pos) nofun) rfl)
  have h₄ := h₃.step (l := client (.other .return)) (.client (.other (.return Nat.one_pos) nofun)
    rfl)
  have h₅ := h₄.step (l := Routing.Net.Label.deliver () 0 ()) (.deliver [f] [7] rfl
    ⟨sampleSource, hleads, rfl⟩ rfl)
  have h₆ := h₅.step (l := Routing.Net.Label.deliver () 0 ()) (.deliver [f'] [7] rfl
    ⟨sampleSource, hleads, rfl⟩ rfl)
  -- The server hears the first one in a pass of its own,
  have h₇ := h₆.step (l := server (.readClock 0)) (.server (.readClock 0 rfl rfl) rfl)
  have h₈ := h₇.step (l := server .enterPoll) (.server (.enterPoll rfl (.inl rfl)) rfl)
  have h₉ := h₈.step (l := server (.wake [.socket ()]))
    (.server (.wake _ rfl (by decide) hrouter fun h => absurd h hpong) rfl)
  have h₁₀ := h₉.step (l := server (.recv () ⟨[[7], f]⟩)) (.accept (.recv _ rfl) rfl rfl)
  have h₁₁ := h₁₀.step (l := server (.listen () ⟨[[7], f]⟩)) (.server (.listen rfl) rfl)
  have h₁₂ := h₁₁.step (l := server (.call (.sendMessage ⟨[[7], g]⟩))) (.server (.call _ rfl) rfl)
  have h₁₃ := h₁₂.step (l := server .return) (.server (.return rfl) rfl)
  have h₁₄ := h₁₃.step (l := server .endPass) (.server (.endPass rfl) rfl)
  -- and so the second one.
  have h₁₅ := h₁₄.step (l := server (.readClock 0)) (.server (.readClock 0 rfl rfl) rfl)
  have h₁₆ := h₁₅.step (l := server .enterPoll) (.server (.enterPoll rfl (.inl rfl)) rfl)
  have h₁₇ := h₁₆.step (l := server (.wake [.socket ()]))
    (.server (.wake _ rfl (by decide) hrouter fun h => absurd h hpong) rfl)
  have h₁₈ := h₁₇.step (l := server (.recv () ⟨[[7], f']⟩)) (.accept (.recv _ rfl) rfl rfl)
  have h₁₉ := h₁₈.step (l := server (.listen () ⟨[[7], f']⟩)) (.server (.listen rfl) rfl)
  have h₂₀ := h₁₉.step (l := server (.call (.sendMessage ⟨[[7], g']⟩))) (.server (.call _ rfl) rfl)
  -- The client's listener is given what came back.
  have h₂₁ := h₂₀.step (l := Routing.Net.Label.route () () 0) (.route [[7], g] [g] rfl rfl
    ⟨sampleSource, hleads, rfl⟩)
  have h₂₂ := h₂₁.step (l := Routing.Net.Label.route () () 0) (.route [[7], g'] [g'] rfl rfl
    ⟨sampleSource, hleads, rfl⟩)
  have h₂₃ := h₂₂.step (l := client (.message sampleSource ⟨[g]⟩))
    (.take (.message _ (.message rfl ⟨List.mem_singleton_self _, List.not_mem_nil⟩)) rfl rfl)
  have h₂₄ := h₂₃.step (l := client (.other .return)) (.client (.other (.return Nat.one_pos) nofun)
    rfl)
  have h₂₅ := h₂₄.step (l := client (.message sampleSource ⟨[g']⟩))
    (.take (.message _ (.message rfl ⟨List.mem_singleton_self _, List.not_mem_nil⟩)) rfl rfl)
  refine ⟨_, _, h₂₅, ⟨sampleSource, hleads, rfl⟩, rfl, rfl, ?_, ?_, ?_, ?_⟩
  · simp only [List.nil_append, List.cons_append]
    rfl
  · simp only [List.nil_append, List.cons_append]
    rfl
  · simp [client, server]
  · simp [client, server]

/-- The server's listener hears the bytes. -/
theorem requests_arrive_echo : ∃ tr s, sampleNet.system.Run tr s ∧
    sampleNet.bodies () () 0 (observed (Routing.Net.Label.heard? ()) tr) = [[[1]], [[2]]] ∧
    RequestsArrive sampleNet tr s () := by
  obtain ⟨tr, s, h, -, -, -, hheard, -⟩ := exists_exchange [1] [2] [1] [2]
  exact ⟨tr, s, h, hheard, requests_arrive h ()⟩

/-- The client's listener is given the bytes. -/
theorem replies_arrive_echo : ∃ tr s, sampleNet.system.Run tr s ∧
    Routing.receivedOn 0 (observed (Routing.Net.Label.listened? ()) tr) = [[[1]], [[2]]] ∧
    RepliesArrive sampleNet tr s () := by
  obtain ⟨tr, s, h, -, -, -, -, hlistened, -⟩ := exists_exchange [1] [2] [1] [2]
  exact ⟨tr, s, h, hlistened, replies_arrive h ()⟩

/-- A server that sends back the string of each request. Of the second one a native server reads the
part before U+0000. -/
theorem answers_arrive_echo : ∃ tr s, sampleNet.system.Run tr s ∧
    (Routing.receivedOn 0 (observed (Routing.Net.Label.listened? ()) tr)).length = 2 ∧
    ∃ answered, answered <+: [[Content.string "ab"], [Content.string "a\x00b"]] ∧
      Answer (utf8Codec fun _ => "") .js .native id
        (Routing.receivedOn 0 (observed (Routing.Net.Label.listened? ()) tr)) answered := by
  let codec := utf8Codec fun _ => ""
  let echo : Frame → Frame := fun frame => codec.encode .native (codec.decode .native frame)
  obtain ⟨tr, s, h, hleads, hrequests, hreplies, hheard, hlistened, hlose, hdrop⟩ :=
    exists_exchange (codec.encode .js "ab") (codec.encode .js "a\x00b")
      (echo (codec.encode .js "ab")) (echo (codec.encode .js "a\x00b"))
  refine ⟨tr, s, h, congrArg List.length hlistened, (answers_arrive h hleads codec id
    [[.string "ab"], [.string "a\x00b"]] hrequests (List.map echo) ?_ ?_).2 hlose
    fun a ha msg heq => absurd heq (hdrop a ha msg)⟩
  · intro contents hmem heard hpop
    rw [popAll_buildMsg] at hpop
    obtain ⟨rfl, -⟩ := Prod.mk.inj (Option.some.inj hpop)
    obtain rfl | rfl : contents = [.string "ab"] ∨ contents = [.string "a\x00b"] := by
      simpa using hmem
    · rfl
    · rfl
  · rw [hreplies, hheard]
    exact List.prefix_refl _

end Khala
