import Khala.Library.LinkedHashMap
import Khala.Zmq.Loop

/-!
# The client's scope

`ClientLoopScope` of the JVM and native targets, as far as its sockets go: `sendMessage` opens a
socket for an address that has none, and `remove` closes it. The socket that was opened first is the
pong socket of the loop job.

`sendMessage` can throw at three places, and what was done before stays done: connecting a new
socket throws on the JVM and on JS (the native binding drops the return code of `zmq_connect`),
`socketStateProducer` is user code, and JeroMQ's `register` can fail. `Opening` says how these go
in one call.
-/

namespace Khala

/-- Whether a call returns or throws. -/
inductive Outcome
  | returned
  | threw
  deriving DecidableEq

/-- `SocketWithState`. -/
structure SocketWithState (S : Type) where
  socket : ℕ
  state : S

/-- How the calls go that `sendMessage` makes for a new socket. -/
structure Opening (S : Type) where
  /-- Connecting the socket succeeds. -/
  connects : Bool
  /-- What `socketStateProducer` returns; it throws for `none`. -/
  socketState : Option S
  /-- Registering the socket with the poller succeeds. -/
  registers : Bool

/-- The new socket is put into the map: nothing has thrown before. The native `connect` does not
throw. -/
def Opening.Succeeds {S : Type} (platform : Platform) (opening : Opening S) : Prop :=
  (platform ≠ .native → opening.connects = true) ∧ opening.socketState ≠ none

/-- The calls of a client scope that user code can make, `invokeAfterTimeout` apart. -/
inductive ClientCall (S : Type)
  | sendMessage (address : String) (msg : ZmqMsg) (opening : Opening S)
  | remove (address : String)

/-- The pong socket, which the loop job opens first. -/
def pongSocket : ℕ := ZmqContext.initial.openSocket.1

/-- The context when the loop job has opened its pong socket. -/
def ZmqContext.withPong : ZmqContext := ZmqContext.initial.openSocket.2

/-- `createAndConnectDealer` of the JVM and of JS: a socket whose connect throws stays open. -/
def createAndConnectDealer (connects : Bool) (context : ZmqContext) : Option ℕ × ZmqContext :=
  let (socket, context) := context.openSocket
  (if connects then some socket else none, context)

/-- What the loop knows when it reads from a client's socket: the socket that is read, and the
address and the entry that the listener is called with. -/
structure ForwardSource (S : Type) where
  /-- The socket that is read. -/
  socket : ℕ
  address : String
  /-- The listener's `forwardSocket` and `socketState`. -/
  entry : SocketWithState S

namespace Native

variable {S : Type}

/-- `ClientLoopScope` of the native targets. -/
structure ClientLoopScope (S : Type) where
  forwardSockets : LinkedHashMap String (SocketWithState S)
  context : ZmqContext

namespace ClientLoopScope

/-- The scope that `clientLoopJob` starts with. -/
def initial : ClientLoopScope S := ⟨.empty, .withPong⟩

/-- `sendMessage`. -/
def sendMessage (address : String) (msg : ZmqMsg) (opening : Opening S)
    (scope : ClientLoopScope S) : Outcome × ClientLoopScope S :=
  match scope.forwardSockets.get? address with
  | some entry => (.returned, { scope with context := scope.context.sendTo entry.socket msg })
  | none =>
    let (newSocket, context) := scope.context.openSocket
    match opening.socketState with
    | none => (.threw, { scope with context })
    | some state =>
      (.returned,
        { forwardSockets := scope.forwardSockets.put address ⟨newSocket, state⟩
          context := context.sendTo newSocket msg })

/-- `remove`. -/
def remove (address : String) (scope : ClientLoopScope S) : ClientLoopScope S :=
  match scope.forwardSockets.get? address with
  | none => scope
  | some entry =>
    { forwardSockets := scope.forwardSockets.remove address
      context := scope.context.close entry.socket }

/-- What a call of user code does to the scope. -/
def call : ClientCall S → ClientLoopScope S → ClientLoopScope S
  | .sendMessage address msg opening, scope => (scope.sendMessage address msg opening).2
  | .remove address, scope => scope.remove address

variable {scope : ClientLoopScope S} {address : String} {entry : SocketWithState S}

/-- `remove` takes the address out of the map. -/
@[simp] theorem forwardSockets_remove (address : String) (scope : ClientLoopScope S) :
    (scope.remove address).forwardSockets = scope.forwardSockets.remove address := by
  cases h : scope.forwardSockets.get? address with
  | none => simp [remove, h, LinkedHashMap.remove_of_get?_eq_none]
  | some entry => simp [remove, h]

/-- `sendMessage` to an address that has a socket. -/
theorem sendMessage_of_get? (h : scope.forwardSockets.get? address = some entry) (msg : ZmqMsg)
    (opening : Opening S) : scope.sendMessage address msg opening =
      (.returned, { scope with context := scope.context.sendTo entry.socket msg }) := by
  simp [sendMessage, h]

/-- `sendMessage` that throws leaves a socket behind. -/
theorem sendMessage_of_not_succeeds (h : scope.forwardSockets.get? address = none) (msg : ZmqMsg)
    {opening : Opening S} (hopening : ¬ opening.Succeeds .native) :
    scope.sendMessage address msg opening =
      (.threw, { scope with context := scope.context.openSocket.2 }) := by
  have hstate : opening.socketState = none := by simpa [Opening.Succeeds] using hopening
  simp [sendMessage, h, hstate]

/-- `sendMessage` to a new address. -/
theorem exists_sendMessage (h : scope.forwardSockets.get? address = none) (msg : ZmqMsg)
    {opening : Opening S} (hopening : opening.Succeeds .native) : ∃ state,
    scope.sendMessage address msg opening =
      (.returned,
        { forwardSockets := scope.forwardSockets.put address ⟨scope.context.opened, state⟩
          context := scope.context.openSocket.2.sendTo scope.context.opened msg }) := by
  obtain ⟨state, hstate⟩ := Option.ne_none_iff_exists'.mp hopening.2
  exact ⟨state, by simp [sendMessage, h, hstate, ZmqContext.openSocket]⟩

/-- `sendMessage` keeps the entries of the map. -/
theorem get?_sendMessage (h : scope.forwardSockets.get? address = some entry) (address' : String)
    (msg : ZmqMsg) (opening : Opening S) :
    (scope.sendMessage address' msg opening).2.forwardSockets.get? address = some entry := by
  cases hget : scope.forwardSockets.get? address' with
  | some entry' => rw [sendMessage_of_get? hget]; exact h
  | none =>
    by_cases hopening : opening.Succeeds .native
    · obtain ⟨state, hsend⟩ := exists_sendMessage hget msg hopening
      have hne : address ≠ address' := by
        rintro rfl
        simp [h] at hget
      simp [hsend, hne, h]
    · rw [sendMessage_of_not_succeeds hget msg hopening]
      exact h

end ClientLoopScope

/-- The sockets that `clientLoopJob` gives to `poll`: the pong socket, and those of
`forwardSocketsList`. -/
def allSocketsList (forwardSocketsList : List (String × SocketWithState S)) : List ℕ :=
  pongSocket :: forwardSocketsList.map fun e => e.2.socket

/-- What `clientLoopJob` does with a message of the socket at index `i` of the list. -/
def onMsg (forwardSocketsList : List (String × SocketWithState S)) (i : ℕ) :
    Option (Watched (ForwardSource S)) :=
  if i = 0 then some .pong
  else do
    let socket ← (allSocketsList forwardSocketsList)[i]?
    let (address, entry) ← forwardSocketsList[i - 1]?
    return .socket ⟨socket, address, entry⟩

/-- What `poll` hands over when the sockets at the indices `ready` are readable. It goes through the
whole list once, from the front. -/
def handedOver (forwardSocketsList : List (String × SocketWithState S)) (ready : ℕ → Bool) :
    List (Watched (ForwardSource S)) :=
  ((List.range (allSocketsList forwardSocketsList).length).filter ready).filterMap
    (onMsg forwardSocketsList)

/-- The sockets that `poll` watches, as the handlers see them. -/
def watched (forwardSocketsList : List (String × SocketWithState S)) :
    List (Watched (ForwardSource S)) :=
  .pong :: forwardSocketsList.map fun e => .socket ⟨e.2.socket, e.1, e.2⟩

/-- The index that `onMsg` subtracts one from is in range, and the socket that is read is the one
that the listener is given. -/
theorem onMsg_eq_getElem? (forwardSocketsList : List (String × SocketWithState S)) (i : ℕ) :
    onMsg forwardSocketsList i = (watched forwardSocketsList)[i]? := by
  cases i with
  | zero => rfl
  | succ i =>
    cases h : forwardSocketsList[i]? with
    | none => simp [onMsg, watched, allSocketsList, h]
    | some e => simp [onMsg, watched, allSocketsList, h]

/-- Looking up every index of a list gives the list back. -/
theorem filterMap_getElem?_range {α : Type} (l : List α) :
    (List.range l.length).filterMap (fun i => l[i]?) = l := by
  induction l with
  | nil => rfl
  | cons a l ih => simpa [List.range_succ_eq_map, List.filterMap_map, Function.comp_def] using ih

/-- `poll` hands over some of the watched sockets, in their order. -/
theorem handedOver_sublist (forwardSocketsList : List (String × SocketWithState S))
    (ready : ℕ → Bool) : (handedOver forwardSocketsList ready).Sublist
      (watched forwardSocketsList) := by
  have hlen : (allSocketsList forwardSocketsList).length = (watched forwardSocketsList).length := by
    simp [allSocketsList, watched]
  have hall : (List.range (watched forwardSocketsList).length).filterMap
      (onMsg forwardSocketsList) = watched forwardSocketsList := by
    rw [funext (onMsg_eq_getElem? forwardSocketsList), filterMap_getElem?_range]
  rw [← hall, handedOver, hlen]
  exact List.filter_sublist.filterMap _

/-- The pong socket is watched once. -/
theorem countP_isPong_watched (forwardSocketsList : List (String × SocketWithState S)) :
    (watched forwardSocketsList).countP Watched.isPong = 1 := by
  simp [watched, List.countP_cons, Watched.isPong, List.countP_map, Function.comp_def]

end Native

namespace Jvm

variable {S : Type}

/-- An object that `ZPoller` takes as a key: JeroMQ's own socket, or the `ZmqSocket` around it.
They are different objects, and a socket has one wrapper. -/
inductive PollerKey
  | socket (n : ℕ)
  | zmqSocket (n : ℕ)
  deriving DecidableEq

/-- `ZPoller`: the registered objects and their handlers. -/
structure ZPoller (S : Type) where
  items : LinkedHashMap PollerKey (Watched (ForwardSource S))
  /-- Only the pong socket is registered with the pong socket's handler. -/
  eq_pong : ∀ key, items.get? key = some .pong → key = .socket pongSocket

namespace ZPoller

/-- The poller with the pong socket registered, as the loop job starts with it. -/
def initial : ZPoller S where
  items := LinkedHashMap.empty.put (.socket pongSocket) .pong
  eq_pong key h := by
    by_contra hne
    simp [hne] at h

/-- `register` of a forward socket with its handler. -/
def register (key : PollerKey) (source : ForwardSource S) (poller : ZPoller S) : ZPoller S where
  items := poller.items.put key (.socket source)
  eq_pong key' h := by
    rw [LinkedHashMap.get?_put] at h
    split_ifs at h
    · simp at h
    · exact poller.eq_pong key' h

/-- `unregister`, which does nothing for an object that is not registered. -/
def unregister (key : PollerKey) (poller : ZPoller S) : ZPoller S where
  items := poller.items.remove key
  eq_pong key' h := by
    rw [LinkedHashMap.get?_remove] at h
    split_ifs at h
    exact poller.eq_pong key' h

end ZPoller

/-- `ClientLoopScope` of the JVM. -/
structure ClientLoopScope (S : Type) where
  poller : ZPoller S
  forwardSockets : LinkedHashMap String (SocketWithState S)
  context : ZmqContext

namespace ClientLoopScope

/-- The scope that `clientLoopJob` starts with. -/
def initial : ClientLoopScope S := ⟨.initial, .empty, .withPong⟩

/-- `sendMessage`. -/
def sendMessage (address : String) (msg : ZmqMsg) (opening : Opening S)
    (scope : ClientLoopScope S) : Outcome × ClientLoopScope S :=
  match scope.forwardSockets.get? address with
  | some entry => (.returned, { scope with context := scope.context.sendTo entry.socket msg })
  | none =>
    match createAndConnectDealer opening.connects scope.context with
    | (none, context) => (.threw, { scope with context })
    | (some newSocket, context) =>
      match opening.socketState with
      | none => (.threw, { scope with context })
      | some newSocketState =>
        let entry := ⟨newSocket, newSocketState⟩
        let forwardSockets := scope.forwardSockets.put address entry
        if opening.registers then
          (.returned,
            { poller := scope.poller.register (.socket newSocket) ⟨newSocket, address, entry⟩
              forwardSockets
              context := context.sendTo newSocket msg })
        else (.threw, { scope with forwardSockets, context })

/-- `remove`, which gives the wrapper to `unregister`. -/
def remove (address : String) (scope : ClientLoopScope S) : ClientLoopScope S :=
  match scope.forwardSockets.get? address with
  | none => scope
  | some entry =>
    { poller := scope.poller.unregister (.zmqSocket entry.socket)
      forwardSockets := scope.forwardSockets.remove address
      context := scope.context.close entry.socket }

/-- What a call of user code does to the scope. -/
def call : ClientCall S → ClientLoopScope S → ClientLoopScope S
  | .sendMessage address msg opening, scope => (scope.sendMessage address msg opening).2
  | .remove address, scope => scope.remove address

variable {scope : ClientLoopScope S} {address : String} {entry : SocketWithState S}

/-- `sendMessage` to an address that has a socket. -/
theorem sendMessage_of_get? (h : scope.forwardSockets.get? address = some entry) (msg : ZmqMsg)
    (opening : Opening S) : scope.sendMessage address msg opening =
      (.returned, { scope with context := scope.context.sendTo entry.socket msg }) := by
  simp [sendMessage, h]

/-- `sendMessage` that throws before it has put the new socket into the map leaves it behind. -/
theorem sendMessage_of_not_succeeds (h : scope.forwardSockets.get? address = none) (msg : ZmqMsg)
    {opening : Opening S} (hopening : ¬ opening.Succeeds .jvm) :
    scope.sendMessage address msg opening =
      (.threw, { scope with context := scope.context.openSocket.2 }) := by
  cases hconnects : opening.connects with
  | false => simp [sendMessage, h, createAndConnectDealer, hconnects]
  | true =>
    have hstate : opening.socketState = none := by
      simpa [Opening.Succeeds, hconnects] using hopening
    simp [sendMessage, h, createAndConnectDealer, hconnects, hstate]

/-- `sendMessage` to a new address. -/
theorem exists_sendMessage (h : scope.forwardSockets.get? address = none) (msg : ZmqMsg)
    {opening : Opening S} (hopening : opening.Succeeds .jvm)
    (hregisters : opening.registers = true) :
    ∃ state, scope.sendMessage address msg opening =
      (.returned,
        { poller := scope.poller.register (.socket scope.context.opened)
            ⟨scope.context.opened, address, ⟨scope.context.opened, state⟩⟩
          forwardSockets := scope.forwardSockets.put address ⟨scope.context.opened, state⟩
          context := scope.context.openSocket.2.sendTo scope.context.opened msg }) := by
  obtain ⟨state, hstate⟩ := Option.ne_none_iff_exists'.mp hopening.2
  have hconnects : opening.connects = true := hopening.1 (by decide)
  exact ⟨state, by simp [sendMessage, h, createAndConnectDealer, hconnects, hstate, hregisters,
    ZmqContext.openSocket]⟩

/-- `sendMessage` to a new address that the poller refuses: the socket is in the map. -/
theorem exists_sendMessage_of_not_registers (h : scope.forwardSockets.get? address = none)
    (msg : ZmqMsg) {opening : Opening S} (hopening : opening.Succeeds .jvm)
    (hregisters : opening.registers = false) : ∃ state,
    scope.sendMessage address msg opening =
      (.threw,
        { poller := scope.poller
          forwardSockets := scope.forwardSockets.put address ⟨scope.context.opened, state⟩
          context := scope.context.openSocket.2 }) := by
  obtain ⟨state, hstate⟩ := Option.ne_none_iff_exists'.mp hopening.2
  have hconnects : opening.connects = true := hopening.1 (by decide)
  exact ⟨state, by simp [sendMessage, h, createAndConnectDealer, hconnects, hstate, hregisters,
    ZmqContext.openSocket]⟩

end ClientLoopScope

/-- What `poll` can hand over: the handlers of some of the registered objects, in any order. -/
def HandedOver (poller : ZPoller S) (ready : List (Watched (ForwardSource S))) : Prop :=
  ∃ keys : List PollerKey, keys.Nodup ∧ keys.filterMap poller.items.get? = ready

/-- The pong socket is handed over at most once. -/
theorem countP_isPong_le_one {poller : ZPoller S} {ready : List (Watched (ForwardSource S))}
    (h : HandedOver poller ready) : ready.countP Watched.isPong ≤ 1 := by
  obtain ⟨keys, hnodup, rfl⟩ := h
  calc (keys.filterMap poller.items.get?).countP Watched.isPong
      ≤ keys.countP (· = .socket pongSocket) := by
        rw [List.countP_filterMap]
        refine List.countP_mono_left fun key _ hkey => ?_
        -- The handler of the pong socket is registered under the pong socket only.
        cases hget : poller.items.get? key with
        | none => simp [hget] at hkey
        | some handler =>
          cases handler with
          | pong => simp [poller.eq_pong key hget]
          | socket source => simp [hget, Watched.isPong] at hkey
    _ ≤ 1 := List.nodup_iff_count_le_one.mp hnodup (.socket pongSocket)

end Jvm

end Khala
