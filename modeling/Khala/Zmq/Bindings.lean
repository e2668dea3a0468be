import Mathlib.Data.Nat.Notation
import Mathlib.Data.List.Basic

/-!
# The ZeroMQ bindings

What the loops use of `zmq/bindings`: multipart messages, and the sockets that `ZmqContext` opens.
A socket is the number of the call that opened it, so that no two sockets share a number. The
context records every `close` that is called on a socket and every message that is handed to one.

`ZmqMsg.send` of the three platforms hands the frames to the library's own send. That call sends
nothing when the message has no frames: the vendored `czmq/zmsg.h` says so of `zmsg_send`, and
JeroMQ's `ZMsg.send` returns at once.
-/

namespace Khala

/-- The platforms that the library is built for. -/
inductive Platform
  | jvm
  | native
  | js
  deriving DecidableEq

/-- The bytes of one frame. -/
abbrev Frame := List UInt8

/-- The bytes up to the first NUL: what a C function sees of a string that it is given. -/
def cString (bytes : List UInt8) : List UInt8 := bytes.takeWhile (· ≠ 0)

/-- How the libraries under `ZmqMsg` convert strings: JeroMQ's `ZMsg`, czmq's `zmsg_addstr` and
`zmsg_popstr` with `toKString`, and node's `Buffer`. -/
structure StringCodec where
  /-- The frame that `addString` makes of a string. -/
  encode : Platform → String → Frame
  /-- The string that `popString` makes of a frame. -/
  decode : Platform → Frame → String

/-- The JVM and JS convert by UTF-8 in both directions. The native targets go through C strings. -/
structure StringCodec.Lawful (codec : StringCodec) : Prop where
  encode_utf8 : ∀ platform ≠ .native, ∀ str, codec.encode platform str = str.toUTF8.toList
  decode_utf8 : ∀ platform ≠ .native, ∀ str, codec.decode platform str.toUTF8.toList = str
  /-- `zmsg_addstr` adds the bytes up to the first NUL. -/
  encode_native : ∀ str, codec.encode .native str = cString str.toUTF8.toList
  /-- `toKString` reads the bytes up to the first NUL. -/
  decode_native : ∀ frame str, cString frame = str.toUTF8.toList → codec.decode .native frame = str

/-- The empty string has no bytes. -/
theorem StringCodec.Lawful.encode_empty {codec : StringCodec} (h : codec.Lawful)
    (platform : Platform) : codec.encode platform "" = [] := by
  have hempty : "".toUTF8.toList = [] := by
    rw [ByteArray.toList, ByteArray.toList.loop]
    rfl
  by_cases hnative : platform = .native
  · rw [hnative, h.encode_native, hempty]
    rfl
  · rw [h.encode_utf8 platform hnative, hempty]

/-- `ZmqMsg`: a multipart message. -/
structure ZmqMsg where
  /-- The frames, the first one at the front. -/
  frames : List Frame
  deriving DecidableEq

namespace ZmqMsg

/-- The constructor `ZmqMsg()`: a message with no frames. -/
def new : ZmqMsg := ⟨[]⟩

/-- `addBytes`. -/
def addBytes (msg : ZmqMsg) (bytes : Frame) : ZmqMsg := ⟨msg.frames ++ [bytes]⟩

/-- `addString`. -/
def addString (codec : StringCodec) (platform : Platform) (msg : ZmqMsg) (str : String) : ZmqMsg :=
  msg.addBytes (codec.encode platform str)

/-- `popBytes`, which throws when the message has no more frames. -/
def popBytes (msg : ZmqMsg) : Option (Frame × ZmqMsg) :=
  match msg.frames with
  | [] => none
  | frame :: frames => some (frame, ⟨frames⟩)

/-- `popString`, which throws when the message has no more frames. -/
def popString (codec : StringCodec) (platform : Platform) (msg : ZmqMsg) :
    Option (String × ZmqMsg) :=
  msg.popBytes.map fun (frame, msg) => (codec.decode platform frame, msg)

/-- `send` into a pipe whose messages are `pipe`, the oldest first. -/
def send (msg : ZmqMsg) (pipe : List ZmqMsg) : List ZmqMsg :=
  if msg.frames = [] then pipe else pipe ++ [msg]

/-- A message to which bytes were added has a frame. -/
@[simp] theorem frames_addBytes_ne_nil (msg : ZmqMsg) (bytes : Frame) :
    (msg.addBytes bytes).frames ≠ [] := by
  simp [addBytes]

end ZmqMsg

/-- The sockets that `ZmqContext` opens for one client, and what was done with them. -/
structure ZmqContext where
  /-- How many sockets were opened: they are `0`, …, `opened - 1`. -/
  opened : ℕ
  /-- The sockets that `close` was called on, in the order of the calls. -/
  closed : List ℕ
  /-- The messages that were handed to sockets, in the order of the calls. -/
  sent : List (ℕ × ZmqMsg)

namespace ZmqContext

/-- A context before any socket is opened. -/
def initial : ZmqContext := ⟨0, [], []⟩

/-- Opens a socket. -/
def openSocket (context : ZmqContext) : ℕ × ZmqContext :=
  (context.opened, { context with opened := context.opened + 1 })

/-- `close` of a socket. -/
def close (socket : ℕ) (context : ZmqContext) : ZmqContext :=
  { context with closed := context.closed ++ [socket] }

/-- Hands a message to a socket. -/
def sendTo (socket : ℕ) (msg : ZmqMsg) (context : ZmqContext) : ZmqContext :=
  { context with sent := context.sent ++ [(socket, msg)] }

/-- Opening a socket is counted. -/
@[simp] theorem opened_openSocket (context : ZmqContext) :
    context.openSocket.2.opened = context.opened + 1 := rfl

/-- Opening a socket closes none. -/
@[simp] theorem closed_openSocket (context : ZmqContext) :
    context.openSocket.2.closed = context.closed := rfl

/-- Closing a socket opens none. -/
@[simp] theorem opened_close (socket : ℕ) (context : ZmqContext) :
    (context.close socket).opened = context.opened := rfl

/-- Closing a socket is recorded. -/
@[simp] theorem closed_close (socket : ℕ) (context : ZmqContext) :
    (context.close socket).closed = context.closed ++ [socket] := rfl

/-- Sending a message opens no socket. -/
@[simp] theorem opened_sendTo (socket : ℕ) (msg : ZmqMsg) (context : ZmqContext) :
    (context.sendTo socket msg).opened = context.opened := rfl

/-- Sending a message closes no socket. -/
@[simp] theorem closed_sendTo (socket : ℕ) (msg : ZmqMsg) (context : ZmqContext) :
    (context.sendTo socket msg).closed = context.closed := rfl

end ZmqContext

end Khala
