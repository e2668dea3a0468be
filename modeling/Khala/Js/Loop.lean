import Khala.Js.Socket
import Khala.Zmq.Jobs

/-!
# The loops on JS

On JS there is no loop thread: `invokeSafe` runs the block at once, `invokeAfterTimeout` hands it to
`setTimeout`, and the listener is a handler of the wrapped socket's `message` event. `Loop` holds
what `ClientLoop` and `ServerLoop` do differently.

The engine runs one callback at a time, so a timer or a message handler starts only when no code of
the loop's user is on the stack. Of the wrapped socket it is assumed that it emits no message after
its `close` was called.
-/

namespace Khala.Js

/-- What the two loops do differently. -/
structure Loop where
  /-- What the loop's scope holds besides `isStopped`. -/
  Scope : Type
  /-- The calls of the scope that user code can make, `invokeAfterTimeout` apart. -/
  Call : Type
  /-- The sockets whose messages go to the listener. -/
  Source : Type
  /-- The scope that the loop is created with. -/
  initialScope : Scope
  /-- What a call of the scope does to it, whether or not the call throws in the end. -/
  call : Call → Scope → Scope
  /-- What `stopSafe` does to the scope besides setting `isStopped`. -/
  closeSockets : Scope → Scope
  /-- What a bind callback that is outstanding does. -/
  bound : Scope → Option Scope
  /-- The handler of the socket is registered, and the wrapped socket was not closed. -/
  Delivers : Scope → Source → Prop

/-- The state of a loop on JS. -/
structure State (J : Loop) (Block : Type) where
  /-- How many calls of user code are on the stack. -/
  depth : ℕ
  /-- What `setTimeout` was given and has not run yet. -/
  timers : List (Int64 × Block)
  isStopped : Bool
  scope : J.Scope

/-- What can happen. -/
inductive Label (J : Loop) (Block : Type)
  /-- `invokeSafe` is called and starts its block. -/
  | invokeSafe (block : Block)
  /-- `stopSafe` is called and returns. -/
  | stopSafe
  /-- A timer fires and starts its block. -/
  | fire (timeoutMillis : Int64) (block : Block)
  /-- A message arrives and starts the listener. -/
  | message (source : J.Source)
  /-- A bind callback runs. -/
  | bound
  /-- User code calls the scope. -/
  | call (c : J.Call)
  /-- User code calls `invokeAfterTimeout`. -/
  | invokeAfterTimeout (timeoutMillis : Int64) (block : Block)
  /-- User code returns. -/
  | return

section Machine

variable {J : Loop} {Block : Type}

/-- One step. Blocks and listeners are run by the code that calls them, so user code can call
`invokeSafe` and `stopSafe` from within. -/
inductive Step : State J Block → Label J Block → State J Block → Prop
  | invokeSafe {s} (block) : Step s (.invokeSafe block) { s with depth := s.depth + 1 }
  | stopSafe {s} :
      Step s .stopSafe { s with isStopped := true, scope := J.closeSockets s.scope }
  | fire {s} (before after) {timeoutMillis block} : s.depth = 0 →
      s.timers = before ++ (timeoutMillis, block) :: after →
      Step s (.fire timeoutMillis block) { s with timers := before ++ after, depth := 1 }
  | message {s source} : s.depth = 0 → J.Delivers s.scope source →
      Step s (.message source) { s with depth := 1 }
  | bound {s scope} : s.depth = 0 → J.bound s.scope = some scope →
      Step s .bound { s with scope }
  | call {s} (c) : 0 < s.depth → Step s (.call c) { s with scope := J.call c s.scope }
  | invokeAfterTimeout {s} (timeoutMillis block) : 0 < s.depth →
      Step s (.invokeAfterTimeout timeoutMillis block)
        { s with timers := s.timers ++ [(timeoutMillis, block)] }
  | return {s} : 0 < s.depth → Step s .return { s with depth := s.depth - 1 }

/-- The loop `J` from its creation on. -/
def Loop.system (J : Loop) (Block : Type) :
    Transitions.System (State J Block) (Label J Block) where
  init := ⟨0, [], false, J.initialScope⟩
  step := Step

end Machine

/-! ## The client -/

/-- `ClientLoopScope`. The sockets are only connected, so that `ZmqSocket.close` is the wrapped
socket's (`ZmqSocket.raw_iterate_close`). -/
structure ClientLoopScope (S : Type) where
  forwardSockets : LinkedHashMap String (SocketWithState S)
  /-- The handlers that were registered for the `message` events of the wrapped sockets. -/
  handlers : List (ForwardSource S)
  context : ZmqContext

namespace ClientLoopScope

variable {S : Type}

/-- The scope that the loop is created with. -/
def initial : ClientLoopScope S := ⟨.empty, [], .initial⟩

/-- `sendMessage`. -/
def sendMessage (address : String) (msg : ZmqMsg) (opening : Opening S)
    (scope : ClientLoopScope S) : Outcome × ClientLoopScope S :=
  match scope.forwardSockets.get? address with
  | some entry => (.returned, { scope with context := scope.context.sendTo entry.socket msg })
  | none =>
    match createAndConnectDealer opening.connects scope.context with
    | (none, context) => (.threw, { scope with context })
    | (some newSocket, context) =>
      match opening.socketState with
      | none => (.threw, { scope with context })
      | some newSocketState =>
        let entry := ⟨newSocket, newSocketState⟩
        (.returned,
          { forwardSockets := scope.forwardSockets.put address entry
            handlers := scope.handlers ++ [⟨newSocket, address, entry⟩]
            context := context.sendTo newSocket msg })

/-- `remove`. -/
def remove (address : String) (scope : ClientLoopScope S) : ClientLoopScope S :=
  match scope.forwardSockets.get? address with
  | none => scope
  | some entry =>
    { scope with
      forwardSockets := scope.forwardSockets.remove address
      context := scope.context.close entry.socket }

/-- What a call of user code does to the scope. -/
def call : ClientCall S → ClientLoopScope S → ClientLoopScope S
  | .sendMessage address msg opening, scope => (scope.sendMessage address msg opening).2
  | .remove address, scope => scope.remove address

/-- What `stopSafe` does with the sockets: it closes those of the map and leaves the map as it is.
-/
def closeSockets (scope : ClientLoopScope S) : ClientLoopScope S :=
  { scope with
    context := scope.forwardSockets.values.foldl (fun context e => context.close e.socket)
      scope.context }

variable {scope : ClientLoopScope S} {address : String} {entry : SocketWithState S}

/-- `sendMessage` to an address that has a socket. -/
theorem sendMessage_of_get? (h : scope.forwardSockets.get? address = some entry) (msg : ZmqMsg)
    (opening : Opening S) : scope.sendMessage address msg opening =
      (.returned, { scope with context := scope.context.sendTo entry.socket msg }) := by
  simp [sendMessage, h]

/-- `sendMessage` that throws leaves a socket behind. -/
theorem sendMessage_of_not_succeeds (h : scope.forwardSockets.get? address = none) (msg : ZmqMsg)
    {opening : Opening S} (hopening : ¬ opening.Succeeds .js) :
    scope.sendMessage address msg opening =
      (.threw, { scope with context := scope.context.openSocket.2 }) := by
  cases hconnects : opening.connects with
  | false => simp [sendMessage, h, createAndConnectDealer, hconnects]
  | true =>
    have hstate : opening.socketState = none := by
      simpa [Opening.Succeeds, hconnects] using hopening
    simp [sendMessage, h, createAndConnectDealer, hconnects, hstate]

/-- `sendMessage` to a new address. -/
theorem exists_sendMessage (h : scope.forwardSockets.get? address = none) (msg : ZmqMsg)
    {opening : Opening S} (hopening : opening.Succeeds .js) : ∃ state,
    scope.sendMessage address msg opening =
      (.returned,
        { forwardSockets := scope.forwardSockets.put address ⟨scope.context.opened, state⟩
          handlers := scope.handlers ++
            [⟨scope.context.opened, address, ⟨scope.context.opened, state⟩⟩]
          context := scope.context.openSocket.2.sendTo scope.context.opened msg }) := by
  obtain ⟨state, hstate⟩ := Option.ne_none_iff_exists'.mp hopening.2
  have hconnects : opening.connects = true := hopening.1 (by decide)
  exact ⟨state, by simp [sendMessage, h, createAndConnectDealer, hconnects, hstate,
    ZmqContext.openSocket]⟩

/-- `stopSafe` opens nothing and closes the sockets of the map. -/
theorem context_closeSockets (scope : ClientLoopScope S) :
    scope.closeSockets.context.opened = scope.context.opened ∧
      scope.closeSockets.context.closed =
        scope.context.closed ++ scope.forwardSockets.values.map SocketWithState.socket := by
  simp only [closeSockets]
  generalize scope.context = context
  induction scope.forwardSockets.values generalizing context with
  | nil => simp
  | cons entry entries ih =>
    obtain ⟨hopened, hclosed⟩ := ih (context.close entry.socket)
    exact ⟨hopened, by simp [hclosed]⟩

end ClientLoopScope

/-- `ClientLoop`. -/
def clientLoop (S : Type) : Loop where
  Scope := ClientLoopScope S
  Call := ClientCall S
  Source := ForwardSource S
  initialScope := .initial
  call := ClientLoopScope.call
  closeSockets := ClientLoopScope.closeSockets
  bound _ := none
  Delivers scope source := source ∈ scope.handlers ∧ source.socket ∉ scope.context.closed

/-! ## The server -/

/-- `ServerLoopScope`. -/
structure ServerLoopScope where
  backwardSocket : ZmqSocket
  /-- The messages that were handed to the router. -/
  sent : List ZmqMsg

namespace ServerLoopScope

/-- The scope that the loop is created with, its router bound to the address. -/
def initial (webSocket : Bool) (address : String) : ServerLoopScope :=
  ⟨(ZmqSocket.new webSocket).bind address, []⟩

/-- `sendMessage`. -/
def sendMessage (msg : ZmqMsg) (scope : ServerLoopScope) : ServerLoopScope :=
  { scope with sent := scope.sent ++ [msg] }

/-- What a call of user code does to the scope. -/
def call : ServerCall → ServerLoopScope → ServerLoopScope
  | .sendMessage msg, scope => scope.sendMessage msg

end ServerLoopScope

/-- `ServerLoop`. -/
def serverLoop (webSocket : Bool) (address : String) : Loop where
  Scope := ServerLoopScope
  Call := ServerCall
  Source := Unit
  initialScope := .initial webSocket address
  call := ServerLoopScope.call
  closeSockets scope := { scope with backwardSocket := scope.backwardSocket.close }
  bound scope :=
    if scope.backwardSocket.bindFinished then none
    else some { scope with backwardSocket := scope.backwardSocket.bindCallback }
  Delivers scope _ := .close ∉ scope.backwardSocket.raw

end Khala.Js
