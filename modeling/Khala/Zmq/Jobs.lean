import Khala.Zmq.Client.Scope
import Khala.Zmq.PriorityQueue

/-!
# The four loop jobs

`clientLoopJob` and `serverLoopJob` of the JVM and native targets, as instances of `LoopJob`. The
native jobs poll without a timeout and hand the ready sockets over in the order of their list; the
JVM jobs poll for a second at most and hand them over in the order of JeroMQ's registry, of which
nothing is assumed. The native targets keep the scheduled blocks in `PriorityQueue.kt`, the JVM in
`java.util.PriorityQueue`, of which only the contract is assumed.
-/

namespace Khala

variable (Block S : Type)

instance : Std.TransCmp (@ScheduledBlock.compareTo Block) :=
  inferInstanceAs (Std.TransCmp (compareOn ScheduledBlock.scheduleTimeMillis))

instance : Std.Total fun a b : ScheduledBlock Block => (a.compareTo b).isLE where
  total a b := by
    have hle := Int64.le_total a.scheduleTimeMillis b.scheduleTimeMillis
    simpa [ScheduledBlock.compareTo, Std.isLE_compare] using hle

instance : IsTrans (ScheduledBlock Block) fun a b => (a.compareTo b).isLE where
  trans _ _ _ hab hbc := Std.TransCmp.isLE_trans hab hbc

/-- `java.util.PriorityQueue` of the scheduled blocks. -/
abbrev Jvm.priorityQueue : MinQueue (ScheduledBlock Block) fun a b => (a.compareTo b).isLE :=
  .bag

/-- The native `PriorityQueue` of the scheduled blocks. -/
abbrev Native.priorityQueue : MinQueue (ScheduledBlock Block) fun a b => (a.compareTo b).isLE :=
  Native.SortedQueue.minQueue ScheduledBlock.compareTo

/-- `clientLoopJob` of the JVM. -/
def Jvm.clientLoopJob : LoopJob Block where
  platform := .jvm
  Scope := Jvm.ClientLoopScope S
  Call := ClientCall S
  Source := ForwardSource S
  initialScope := .initial
  call := Jvm.ClientLoopScope.call
  HandsOver scope := Jvm.HandedOver scope.poller
  IsClosed scope source := source.socket ∈ scope.context.closed
  pollTimeout := some 1000
  timers := Jvm.priorityQueue Block
  pong_once := Jvm.countP_isPong_le_one

/-- `clientLoopJob` of the native targets. `forwardSockets` does not change between the line that
takes the snapshot `forwardSocketsList` and the end of the wait. -/
def Native.clientLoopJob : LoopJob Block where
  platform := .native
  Scope := Native.ClientLoopScope S
  Call := ClientCall S
  Source := ForwardSource S
  initialScope := .initial
  call := Native.ClientLoopScope.call
  HandsOver scope ready := ∃ readable : ℕ → Bool,
    Native.handedOver scope.forwardSockets.toList readable = ready
  IsClosed scope source := source.socket ∈ scope.context.closed
  pollTimeout := none
  timers := Native.priorityQueue Block
  pong_once := by
    rintro scope ready ⟨readable, rfl⟩
    exact ((Native.handedOver_sublist _ _).countP_le).trans_eq (Native.countP_isPong_watched _)

/-- The call of a server scope that user code can make, `invokeAfterTimeout` apart. -/
inductive ServerCall
  | sendMessage (msg : ZmqMsg)

/-- `ServerLoopScope` of the JVM and native targets. -/
structure ServerLoopScope where
  backwardSocket : ℕ
  context : ZmqContext

namespace ServerLoopScope

/-- The scope that `serverLoopJob` starts with: the second socket is the router. -/
def initial : ServerLoopScope where
  backwardSocket := ZmqContext.withPong.openSocket.1
  context := ZmqContext.withPong.openSocket.2

/-- `sendMessage`. -/
def sendMessage (msg : ZmqMsg) (scope : ServerLoopScope) : ServerLoopScope :=
  { scope with context := scope.context.sendTo scope.backwardSocket msg }

/-- What a call of user code does to the scope. -/
def call : ServerCall → ServerLoopScope → ServerLoopScope
  | .sendMessage msg, scope => scope.sendMessage msg

end ServerLoopScope

/-- The sockets that a server loop watches: the pong socket, and the router. -/
def serverSockets : List (Watched Unit) := [.pong, .socket ()]

/-- `serverLoopJob` of the JVM. -/
def Jvm.serverLoopJob : LoopJob Block where
  platform := .jvm
  Scope := ServerLoopScope
  Call := ServerCall
  Source := Unit
  initialScope := .initial
  call := ServerLoopScope.call
  HandsOver _ ready := ready.Subperm serverSockets
  IsClosed scope _ := scope.backwardSocket ∈ scope.context.closed
  pollTimeout := some 1000
  timers := Jvm.priorityQueue Block
  pong_once h := h.countP_le _

/-- `serverLoopJob` of the native targets. -/
def Native.serverLoopJob : LoopJob Block where
  platform := .native
  Scope := ServerLoopScope
  Call := ServerCall
  Source := Unit
  initialScope := .initial
  call := ServerLoopScope.call
  HandsOver _ ready := ready.Sublist serverSockets
  IsClosed scope _ := scope.backwardSocket ∈ scope.context.closed
  pollTimeout := none
  timers := Native.priorityQueue Block
  pong_once h := h.countP_le

/-- The copies of the loop. -/
inductive Variant
  | jvmClient
  | jvmServer
  | nativeClient
  | nativeServer
  deriving DecidableEq

/-- The target that a variant is built for. -/
def Variant.platform : Variant → Platform
  | .jvmClient => .jvm
  | .jvmServer => .jvm
  | .nativeClient => .native
  | .nativeServer => .native

/-- The loop job of a variant. -/
def Variant.job : Variant → LoopJob Block
  | .jvmClient => Jvm.clientLoopJob Block S
  | .jvmServer => Jvm.serverLoopJob Block
  | .nativeClient => Native.clientLoopJob Block S
  | .nativeServer => Native.serverLoopJob Block

/-- The JVM loops wait in `poll` for a second at most, the native ones without end. -/
theorem Variant.pollTimeout_job (variant : Variant) :
    variant.platform = .jvm ∧ (variant.job Block S).pollTimeout = some 1000 ∨
      variant.platform ≠ .jvm ∧ (variant.job Block S).pollTimeout = none := by
  cases variant
  case jvmClient | jvmServer => exact .inl ⟨rfl, rfl⟩
  case nativeClient | nativeServer => exact .inr ⟨by decide, rfl⟩

end Khala
