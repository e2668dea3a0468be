import Mathlib.Data.ENat.Basic
import Khala.Library.MinQueue
import Khala.Library.Runs
import Khala.Zmq.Bindings

/-!
# The threaded loop

`ClientLoop` and `ServerLoop` of the JVM and native targets are one design in four copies: a loop
thread runs `clientLoopJob` or `serverLoopJob`, and the other threads reach it through a queue in an
`IsolateState` and a pair of inproc sockets. `invokeSafe` and `stopSafe` put a query into the queue
and send a message to the ping socket, both within one access section; the loop polls the pong
socket with its other sockets, and for each message that it reads there takes one query from the
queue.

`LoopJob` holds what the four copies do differently, and `Step` is the design: the steps of the
calling threads, of the thread that runs the access sections, and of the loop thread, in any
interleaving. The code that the loop calls (blocks, timer blocks and listeners) is the user's. It
makes any number of calls of the scope, of `invokeSafe` and of `stopSafe` and then returns.

Of the libraries it is assumed that `IsolateState` runs one access section at a time and fails an
access after `dispose`, that the messages of the inproc pair arrive once each and in order, and that
a send to the ping socket blocks while `K` messages are unread. `K` may be `⊤`.
-/

namespace Khala

/-- `ClientLoopQuery` and `ServerLoopQuery`. -/
inductive Query (Block : Type)
  | invokeQuery (block : Block)
  | stopQuery

/-- A socket that `poll` watches: the pong socket, or one whose messages go to the listener. -/
inductive Watched (Source : Type)
  | pong
  | socket (source : Source)

/-- Whether a watched socket is the pong socket. -/
def Watched.isPong {Source : Type} : Watched Source → Bool
  | .pong => true
  | .socket _ => false

/-- `ClientScheduledBlock` and `ServerScheduledBlock`. -/
structure ScheduledBlock (Block : Type) where
  /-- The clock reading from which the block is due. -/
  scheduleTimeMillis : Int64
  block : Block

/-- `compareTo` of the scheduled blocks: by their times. -/
def ScheduledBlock.compareTo {Block : Type} (a b : ScheduledBlock Block) : Ordering :=
  compare a.scheduleTimeMillis b.scheduleTimeMillis

/-- What the copies of the loop do differently. -/
structure LoopJob (Block : Type) where
  /-- The target that the copy is built for. -/
  platform : Platform
  /-- What the loop's scope holds besides the timers. -/
  Scope : Type
  /-- The calls of the scope that user code can make, `invokeAfterTimeout` apart. -/
  Call : Type
  /-- The sockets other than the pong socket that `poll` watches. -/
  Source : Type
  /-- The scope that the job starts with. -/
  initialScope : Scope
  /-- What a call of the scope does to it, whether or not the call throws in the end. -/
  call : Call → Scope → Scope
  /-- `HandsOver scope ready`: with this scope `poll` can hand over the sockets `ready` to their
  handlers, in this order. -/
  HandsOver : Scope → List (Watched Source) → Prop
  /-- A receive from a socket that was closed may fail. -/
  IsClosed : Scope → Source → Prop
  /-- How long `poll` waits for a ready socket, in milliseconds; without end for `none`. -/
  pollTimeout : Option ℕ
  /-- The queue of the scheduled blocks. -/
  timers : MinQueue (ScheduledBlock Block) fun a b => (a.compareTo b).isLE
  /-- The pong socket is handed over at most once in a pass. -/
  pong_once : ∀ {scope ready}, HandsOver scope ready → ready.countP Watched.isPong ≤ 1

/-- Who calls: the loop thread, from within user code, or another thread. -/
inductive Caller (Thread : Type)
  | loop
  | thread (t : Thread)

/-- The body of an access section: that of `invokeSafe` and `stopSafe`, or `handlePongSocket`'s. -/
inductive Section (Block : Type)
  | enqueue (query : Query Block)
  | removeFirst

/-- A call of `access` whose section has not begun. -/
structure Access (Block Thread : Type) where
  caller : Caller Thread
  body : Section Block

/-- How far the one call of `stopSafe` is. -/
inductive StopPhase (Thread : Type)
  | notCalled
  /-- The caller waits for its access section. -/
  | calling (caller : Caller Thread)
  /-- The access has returned, and `dispose` comes next. -/
  | accessed (caller : Caller Thread)
  | returned

/-- Where the loop job goes on when the user code that it called returns. -/
inductive Resume (Source : Type)
  /-- In the timer pass, whose clock reading is `currentTime`. -/
  | timers (currentTime : Int64)
  /-- In `poll`, with these sockets still to be handed over. -/
  | pass (ready : List (Watched Source))

/-- Why the loop thread died. -/
inductive Failure
  /-- `handlePongSocket`'s access failed because the queue was disposed. -/
  | disposedQueue
  /-- `removeFirst` was called on an empty queue. -/
  | emptyQueue
  /-- User code let the failure of its own access through. -/
  | userCode
  /-- A receive failed, and `!!` threw. -/
  | receive

/-- Where the loop thread is. -/
inductive Pc (Block Source : Type)
  /-- At the test of `while (!isStopped)`. -/
  | top
  /-- In the loop over the scheduled blocks. -/
  | timers (currentTime : Int64)
  /-- Waiting in `poll`, after a timer pass with this clock reading. -/
  | polling (currentTime : Int64)
  /-- In `poll`, which has these ready sockets still to hand over. -/
  | pass (ready : List (Watched Source))
  /-- In `handlePongSocket`, waiting for the access section that removes a query. -/
  | handlePong (ready : List (Watched Source))
  /-- In `handlePongSocket`, with the query that was removed. -/
  | removed (query : Query Block) (ready : List (Watched Source))
  /-- In the handler of another socket, with the message that was read from it. -/
  | received (source : Source) (msg : ZmqMsg) (ready : List (Watched Source))
  /-- In user code. -/
  | user (resume : Resume Source)
  /-- In user code, waiting in `invokeSafe` or `stopSafe`. -/
  | blocked (resume : Resume Source)
  | exited
  | failed (why : Failure)

/-- The control point at which the loop job goes on. -/
def Resume.pc {Block Source : Type} : Resume Source → Pc Block Source
  | .timers currentTime => .timers currentTime
  | .pass ready => .pass ready

/-- The loop thread does not die when user code returns. -/
theorem Resume.pc_ne_failed {Block Source : Type} (resume : Resume Source) (why : Failure) :
    (resume.pc : Pc Block Source) ≠ .failed why := by
  cases resume <;> simp [pc]

/-- The loop job does not end when user code returns. -/
theorem Resume.pc_ne_exited {Block Source : Type} (resume : Resume Source) :
    (resume.pc : Pc Block Source) ≠ .exited := by
  cases resume <;> simp [pc]

section Machine

variable {Block : Type}

/-- The message that the section of `invokeSafe` or `stopSafe` sends: `invokeSafe` adds an empty
string to it, which comes to a frame without bytes, `stopSafe` does not. -/
def Query.message : Query Block → ZmqMsg
  | .invokeQuery _ => ZmqMsg.new.addBytes []
  | .stopQuery => ZmqMsg.new

/-- The message of `invokeSafe` is built by `addString("")`. -/
theorem Query.message_invokeQuery {codec : StringCodec} (h : codec.Lawful) (platform : Platform)
    (block : Block) :
    (Query.invokeQuery block).message = ZmqMsg.new.addString codec platform "" :=
  (congrArg ZmqMsg.new.addBytes (h.encode_empty platform)).symm

/-- The state of a loop and of everyone who calls it. -/
structure State (J : LoopJob Block) (Thread : Type) where
  /-- The isolated queue. -/
  queue : List (Query Block)
  /-- Whether the `IsolateState` was disposed. -/
  disposed : Bool
  /-- The accesses whose sections have not begun. -/
  waiting : List (Access Block Thread)
  /-- The section now running, which has put the query into the queue and comes to its send. -/
  sending : Option (Caller Thread × Query Block)
  /-- The messages that the pong socket has not read. -/
  pipe : List ZmqMsg
  stopSafe : StopPhase Thread
  pc : Pc Block J.Source
  isStopped : Bool
  scheduledBlocks : J.timers.Queue
  scope : J.Scope

/-- What can happen. -/
inductive Label (J : LoopJob Block) (Thread : Type)
  /-- `invokeSafe` is called. -/
  | invokeSafe (caller : Caller Thread) (block : Block)
  /-- `stopSafe` is called. -/
  | stopSafe (caller : Caller Thread)
  /-- An access section begins. -/
  | access (caller : Caller Thread) (body : Section Block)
  /-- The section that runs sends its message and ends. -/
  | send (caller : Caller Thread) (query : Query Block)
  /-- An access fails after `dispose`; user code may catch the failure. -/
  | refuse (caller : Caller Thread) (body : Section Block) (caught : Bool)
  /-- `stopSafe` disposes the `IsolateState` and returns. -/
  | dispose (caller : Caller Thread)
  /-- The loop job ends. -/
  | exit
  /-- A round of the loop job begins with this clock reading. -/
  | readClock (now : Int64)
  /-- A scheduled block is polled and started. -/
  | runTimer (block : ScheduledBlock Block)
  /-- The timer pass ends, and `poll` is called. -/
  | enterPoll
  /-- The wait in `poll` ends with no socket ready. -/
  | timeout
  /-- The wait in `poll` ends with these sockets ready. -/
  | wake (ready : List (Watched J.Source))
  /-- `poll` returns. -/
  | endPass
  /-- A message of the pong socket is read, and `handlePongSocket` is called. -/
  | recvPing
  /-- `handlePongSocket` acts on the query that it removed. -/
  | deliver (query : Query Block)
  /-- A message of another socket is read. -/
  | recv (source : J.Source) (msg : ZmqMsg)
  /-- The listener is started with a message that was read. -/
  | listen (source : J.Source) (msg : ZmqMsg)
  /-- A receive from another socket fails. -/
  | recvFails (source : J.Source)
  /-- User code calls the scope. -/
  | call (c : J.Call)
  /-- User code calls `invokeAfterTimeout` when the clock reads `now`. -/
  | invokeAfterTimeout (now timeoutMillis : Int64) (block : Block)
  /-- User code returns. -/
  | return

variable {J : LoopJob Block} {Thread : Type}

/-- The state in which the loop job starts, with the inproc sockets connected. -/
def State.initial (J : LoopJob Block) (Thread : Type) : State J Thread where
  queue := []
  disposed := false
  waiting := []
  sending := none
  pipe := []
  stopSafe := .notCalled
  pc := .top
  isStopped := false
  scheduledBlocks := J.timers.empty
  scope := J.initialScope

/-- The scheduled blocks. -/
def State.scheduled (s : State J Thread) : List (ScheduledBlock Block) :=
  J.timers.toList s.scheduledBlocks

/-- No block is scheduled exactly if the queue says so. -/
theorem State.scheduled_eq_nil_iff {s : State J Thread} :
    s.scheduled = [] ↔ J.timers.isNotEmpty s.scheduledBlocks = false := by
  rw [← Bool.not_eq_true, J.timers.isNotEmpty_iff, not_not, State.scheduled]

/-- A thread that is inside `invokeSafe` or `stopSafe`. -/
def State.Busy (s : State J Thread) (t : Thread) : Prop :=
  (∃ body, ⟨.thread t, body⟩ ∈ s.waiting) ∨ (∃ query, s.sending = some (.thread t, query)) ∨
    s.stopSafe = .accessed (.thread t)

/-- One step. The rules follow the source line by line; a premise on `pc` says which line of the
loop job is at. -/
inductive Step (K : ℕ∞) : State J Thread → Label J Thread → State J Thread → Prop
  -- `isolatedQueue.access { … }` of `invokeSafe` and `stopSafe`: the caller waits.
  | invokeSafe {s} (t block) : ¬ s.Busy t →
      Step K s (.invokeSafe (.thread t) block)
        { s with waiting := s.waiting ++ [⟨.thread t, .enqueue (.invokeQuery block)⟩] }
  | invokeSafeLoop {s resume} (block) : s.pc = .user resume →
      Step K s (.invokeSafe .loop block)
        { s with waiting := s.waiting ++ [⟨.loop, .enqueue (.invokeQuery block)⟩]
                 pc := .blocked resume }
  | stopSafe {s} (t) : s.stopSafe = .notCalled → ¬ s.Busy t →
      Step K s (.stopSafe (.thread t))
        { s with waiting := s.waiting ++ [⟨.thread t, .enqueue .stopQuery⟩]
                 stopSafe := .calling (.thread t) }
  | stopSafeLoop {s resume} : s.stopSafe = .notCalled → s.pc = .user resume →
      Step K s (.stopSafe .loop)
        { s with waiting := s.waiting ++ [⟨.loop, .enqueue .stopQuery⟩]
                 stopSafe := .calling .loop
                 pc := .blocked resume }
  -- `it.queue.addLast(…)`
  | addLast {s} (before after) {caller query} : s.disposed = false → s.sending = none →
      s.waiting = before ++ ⟨caller, .enqueue query⟩ :: after →
      Step K s (.access caller (.enqueue query))
        { s with waiting := before ++ after
                 queue := s.queue ++ [query]
                 sending := some (caller, query) }
  -- `m.send(it.pingSocket)` of `invokeSafe`, which waits while the pipe is full
  | sendPing {s t block} : s.sending = some (.thread t, .invokeQuery block) →
      (s.pipe.length : ℕ∞) < K →
      Step K s (.send (.thread t) (.invokeQuery block))
        { s with pipe := (Query.invokeQuery block).message.send s.pipe
                 sending := none }
  | sendPingLoop {s resume block} : s.sending = some (.loop, .invokeQuery block) →
      s.pc = .blocked resume → (s.pipe.length : ℕ∞) < K →
      Step K s (.send .loop (.invokeQuery block))
        { s with pipe := (Query.invokeQuery block).message.send s.pipe
                 sending := none
                 pc := .user resume }
  -- `ZmqMsg().send(it.pingSocket)` of `stopSafe`
  | sendStop {s caller} : s.sending = some (caller, .stopQuery) →
      Step K s (.send caller .stopQuery)
        { s with pipe := (Query.stopQuery : Query Block).message.send s.pipe
                 sending := none
                 stopSafe := .accessed caller }
  -- `isolatedQueue.dispose()`
  | dispose {s t} : s.stopSafe = .accessed (.thread t) → s.sending = none →
      Step K s (.dispose (.thread t)) { s with disposed := true, stopSafe := .returned }
  | disposeLoop {s resume} : s.stopSafe = .accessed .loop → s.sending = none →
      s.pc = .blocked resume →
      Step K s (.dispose .loop)
        { s with disposed := true, stopSafe := .returned, pc := .user resume }
  -- an access after `dispose`
  | refuse {s} (before after) {t body} (caught) : s.disposed = true →
      s.waiting = before ++ ⟨.thread t, body⟩ :: after →
      Step K s (.refuse (.thread t) body caught) { s with waiting := before ++ after }
  | refuseUser {s} (before after) {query resume} (caught) : s.disposed = true →
      s.waiting = before ++ ⟨.loop, .enqueue query⟩ :: after → s.pc = .blocked resume →
      Step K s (.refuse .loop (.enqueue query) caught)
        { s with waiting := before ++ after
                 pc := if caught then .user resume else .failed .userCode }
  | refusePong {s} (before after) {ready} (caught) : s.disposed = true →
      s.waiting = before ++ ⟨.loop, .removeFirst⟩ :: after → s.pc = .handlePong ready →
      Step K s (.refuse .loop .removeFirst caught)
        { s with waiting := before ++ after, pc := .failed .disposedQueue }
  -- `while (!isStopped)`
  | exit {s} : s.pc = .top → s.isStopped = true → Step K s .exit { s with pc := .exited }
  | readClock {s} (now) : s.pc = .top → s.isStopped = false →
      Step K s (.readClock now) { s with pc := .timers now }
  -- `while (scheduledBlocks.isNotEmpty())`, with the time of the block that `peek` returns
  | runTimer {s currentTime head block rest} : s.pc = .timers currentTime →
      J.timers.isNotEmpty s.scheduledBlocks = true → J.timers.Peek s.scheduledBlocks head →
      head.scheduleTimeMillis ≤ currentTime → J.timers.Poll s.scheduledBlocks block rest →
      Step K s (.runTimer block)
        { s with scheduledBlocks := rest, pc := .user (.timers currentTime) }
  | enterPoll {s currentTime} : s.pc = .timers currentTime →
      (J.timers.isNotEmpty s.scheduledBlocks = false ∨
        ∃ head, J.timers.Peek s.scheduledBlocks head ∧ currentTime < head.scheduleTimeMillis) →
      Step K s .enterPoll { s with pc := .polling currentTime }
  -- `poll`
  | timeout {s currentTime ms} : s.pc = .polling currentTime → J.pollTimeout = some ms →
      s.pipe = [] → Step K s .timeout { s with pc := .pass [] }
  | wake {s currentTime} (ready) : s.pc = .polling currentTime → ready ≠ [] →
      J.HandsOver s.scope ready → (.pong ∈ ready → s.pipe ≠ []) →
      Step K s (.wake ready) { s with pc := .pass ready }
  | endPass {s} : s.pc = .pass [] → Step K s .endPass { s with pc := .top }
  | recv {s source} (msg) {ready} : s.pc = .pass (.socket source :: ready) →
      Step K s (.recv source msg) { s with pc := .received source msg ready }
  | listen {s source msg ready} : s.pc = .received source msg ready →
      Step K s (.listen source msg) { s with pc := .user (.pass ready) }
  | recvFails {s source ready} : s.pc = .pass (.socket source :: ready) →
      J.IsClosed s.scope source →
      Step K s (.recvFails source) { s with pc := .failed .receive }
  -- `handlePongSocket`
  | recvPing {s ready msg rest} : s.pc = .pass (.pong :: ready) → s.pipe = msg :: rest →
      Step K s .recvPing
        { s with pipe := rest
                 waiting := s.waiting ++ [⟨.loop, .removeFirst⟩]
                 pc := .handlePong ready }
  | removeFirst {s} (before after) {ready query rest} : s.disposed = false → s.sending = none →
      s.waiting = before ++ ⟨.loop, .removeFirst⟩ :: after → s.pc = .handlePong ready →
      s.queue = query :: rest →
      Step K s (.access .loop .removeFirst)
        { s with waiting := before ++ after, queue := rest, pc := .removed query ready }
  | removeFirstEmpty {s} (before after) {ready} : s.disposed = false → s.sending = none →
      s.waiting = before ++ ⟨.loop, .removeFirst⟩ :: after → s.pc = .handlePong ready →
      s.queue = [] →
      Step K s (.access .loop .removeFirst)
        { s with waiting := before ++ after, pc := .failed .emptyQueue }
  | runBlock {s block ready} : s.pc = .removed (.invokeQuery block) ready →
      Step K s (.deliver (.invokeQuery block)) { s with pc := .user (.pass ready) }
  | stop {s ready} : s.pc = .removed .stopQuery ready →
      Step K s (.deliver .stopQuery) { s with isStopped := true, pc := .pass ready }
  -- user code
  | call {s resume} (c) : s.pc = .user resume →
      Step K s (.call c) { s with scope := J.call c s.scope }
  | invokeAfterTimeout {s resume} (now timeoutMillis block) : s.pc = .user resume →
      Step K s (.invokeAfterTimeout now timeoutMillis block)
        { s with scheduledBlocks := J.timers.add ⟨now + timeoutMillis, block⟩ s.scheduledBlocks }
  | return {s resume} : s.pc = .user resume → Step K s .return { s with pc := resume.pc }

/-- The loop `J` with a pipe that holds `K` messages, called by the threads `Thread`. -/
def LoopJob.system (J : LoopJob Block) (Thread : Type) (K : ℕ∞) :
    Transitions.System (State J Thread) (Label J Thread) where
  init := State.initial J Thread
  step := Step K

end Machine

end Khala
