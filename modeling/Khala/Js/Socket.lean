import Mathlib.Logic.Function.Iterate
import Khala.Zmq.Bindings

/-!
# Sockets on JS

`ZmqSocket` of the node target wraps a socket of zeromq.js, or of jszmq for WebSocket addresses. A
bind of the former finishes later, by a callback, and until then binds are queued and `close` is put
off. The browser's `ZmqSocket` has only WebSocket sockets and is this one with `webSocket` set.

`raw` lists the calls that reach the wrapped socket. Whether such a call throws makes no difference
to the wrapper in `close`, which catches it; a `connect` that throws is seen by its caller.
-/

namespace Khala.Js

/-- A call of the wrapped socket. -/
inductive RawCall
  | connect (address : String)
  | bind (address : String)
  | close
  deriving DecidableEq

/-- `ZmqSocket`, with the calls that have reached the wrapped socket. -/
structure ZmqSocket where
  webSocket : Bool
  bindFinished : Bool
  bindQueue : List String
  shouldClose : Bool
  isClosed : Bool
  raw : List RawCall
  deriving DecidableEq

namespace ZmqSocket

/-- The constructor. -/
def new (webSocket : Bool) : ZmqSocket := ⟨webSocket, true, [], false, false, []⟩

/-- `connect`. -/
def connect (address : String) (socket : ZmqSocket) : ZmqSocket :=
  if socket.isClosed then socket else { socket with raw := socket.raw ++ [.connect address] }

/-- `bind`. -/
def bind (address : String) (socket : ZmqSocket) : ZmqSocket :=
  if socket.isClosed then socket
  else if !socket.bindFinished then { socket with bindQueue := socket.bindQueue ++ [address] }
  else if !socket.webSocket then
    { socket with bindFinished := false, raw := socket.raw ++ [.bind address] }
  else { socket with bindFinished := true, raw := socket.raw ++ [.bind address] }

/-- `close`. -/
def close (socket : ZmqSocket) : ZmqSocket :=
  if socket.isClosed then socket
  else if !socket.bindFinished then { socket with shouldClose := true }
  else { socket with shouldClose := false, raw := socket.raw ++ [.close] }

/-- The callback that `bind` gives to the wrapped socket. -/
def bindCallback (socket : ZmqSocket) : ZmqSocket :=
  let socket := { socket with bindFinished := true }
  match socket.bindQueue with
  | address :: rest => { socket with bindQueue := rest }.bind address
  | [] => if socket.shouldClose then socket.close else socket

section Calls

variable {socket : ZmqSocket} (address : String)

/-- `connect` of an open socket calls the library. -/
theorem connect_of_open (hopen : socket.isClosed = false) :
    socket.connect address = { socket with raw := socket.raw ++ [.connect address] } := by
  simp [connect, hopen]

/-- A bind that need not wait has finished only if the socket is a WebSocket one. -/
theorem bind_of_finished (hopen : socket.isClosed = false)
    (hfinished : socket.bindFinished = true) : socket.bind address =
      { socket with bindFinished := socket.webSocket, raw := socket.raw ++ [.bind address] } := by
  unfold bind
  cases socket.webSocket <;> simp [hopen, hfinished]

/-- `bind` while another one is under way only puts the address off. -/
theorem bind_of_not_finished (hopen : socket.isClosed = false)
    (hfinished : socket.bindFinished = false) :
    socket.bind address = { socket with bindQueue := socket.bindQueue ++ [address] } := by
  simp [bind, hopen, hfinished]

/-- `close` of a socket without a bind under way calls the library. -/
theorem close_of_finished (hopen : socket.isClosed = false)
    (hfinished : socket.bindFinished = true) :
    socket.close = { socket with shouldClose := false, raw := socket.raw ++ [.close] } := by
  simp [close, hopen, hfinished]

/-- `close` while a bind is under way only makes a note of it. -/
theorem close_of_not_finished (hopen : socket.isClosed = false)
    (hfinished : socket.bindFinished = false) :
    socket.close = { socket with shouldClose := true } := by
  simp [close, hopen, hfinished]

/-- A callback comes to the next bind of the queue. -/
theorem bindCallback_of_cons {rest : List String} (hopen : socket.isClosed = false)
    (hqueue : socket.bindQueue = address :: rest) : socket.bindCallback =
      { socket with
        bindFinished := socket.webSocket
        bindQueue := rest
        raw := socket.raw ++ [.bind address] } := by
  unfold bindCallback
  rw [hqueue]
  exact bind_of_finished address hopen rfl

/-- The callback of the last bind comes to the close that was put off. -/
theorem bindCallback_of_nil (hopen : socket.isClosed = false) (hqueue : socket.bindQueue = []) :
    socket.bindCallback =
      if socket.shouldClose then
        { socket with bindFinished := true, shouldClose := false, raw := socket.raw ++ [.close] }
      else { socket with bindFinished := true } := by
  unfold bindCallback
  rw [hqueue]
  cases socket.shouldClose <;> simp [close, hopen]

end Calls

/-- Nothing ever sets `isClosed`, so a socket that was only connected hands every `close` on to the
wrapped socket. -/
theorem raw_iterate_close {socket : ZmqSocket} (hopen : socket.isClosed = false)
    (hbind : socket.bindFinished = true) (n : ℕ) :
    (close^[n] socket).raw = socket.raw ++ List.replicate n .close := by
  induction n generalizing socket with
  | zero => simp
  | succ n ih =>
    have hclose := close_of_finished hopen hbind
    rw [Function.iterate_succ_apply, ih (by rw [hclose]; exact hopen) (by rw [hclose]; exact hbind),
      hclose, List.replicate_succ, List.append_assoc, List.singleton_append]

/-- No operation sets `isClosed`, and none takes back a call of the wrapped socket. -/
theorem bind_keeps (address : String) (socket : ZmqSocket) :
    (socket.bind address).isClosed = socket.isClosed ∧
      socket.raw <+: (socket.bind address).raw := by
  unfold bind
  split_ifs <;> simp

/-- `close` leaves `isClosed` alone, and takes no call back. -/
theorem close_keeps (socket : ZmqSocket) :
    socket.close.isClosed = socket.isClosed ∧ socket.raw <+: socket.close.raw := by
  unfold close
  split_ifs <;> simp

/-- The callback of a bind leaves `isClosed` alone, and takes no call back. -/
theorem bindCallback_keeps (socket : ZmqSocket) :
    socket.bindCallback.isClosed = socket.isClosed ∧ socket.raw <+: socket.bindCallback.raw := by
  unfold bindCallback
  cases hqueue : socket.bindQueue with
  | nil =>
    dsimp only
    split_ifs
    · exact close_keeps _
    · exact ⟨rfl, List.prefix_refl _⟩
  | cons address rest =>
    dsimp only
    exact bind_keeps address _

end ZmqSocket

end Khala.Js
