import Mathlib
import Khala.Zmq.Jobs

/-!
# The loops of a process

All loops of a process have one `ZmqContext`: each takes the next number of its `loopCounter`, binds
its ping socket to an inproc address made of the number, waits in an empty `access` until that has
been done, and starts its loop job, which connects the pong socket to the same address. In the same
context a server's loop job binds its router, and a client's calls of `sendMessage` connect forward
sockets, all to addresses that user code names. Pings go through the context by their addresses: a
loop reads those of another one if the addresses are the same, a router that took the address keeps
the ping socket from being bound, and a forward socket that is connected to it gets some of the
pings.

`loops_independent` says that none of this happens, in whatever order the loops are constructed and
run, as long as the counter, an `Int`, does not come round and user code names no address
`inproc://LOOP_WORKER_n`: what each loop does is a run of that loop by itself, as `Loop.lean` has
it, with the two sockets connected from the start. No ping socket is ever closed.
-/

namespace Khala

open Transitions

/-- `"inproc://LOOP_WORKER_$loopId"`. -/
def workerAddress (loopId : Int32) : String := s!"inproc://LOOP_WORKER_{loopId}"

/-- A loop of a process: its loop job, and the addresses that user code names to it. -/
structure Member (Block : Type) where
  job : LoopJob Block
  /-- The address that the loop job binds a router to, if it is a server's. -/
  backwardRouterBindAddress : Option String
  /-- The address that a call of the scope connects a new socket to. -/
  connects : job.Call → job.Scope → Option String

/-- The address that `sendMessage` connects a new socket to. -/
def ClientCall.connects {S : Type} (forwardSockets : LinkedHashMap String (SocketWithState S)) :
    ClientCall S → Option String
  | .sendMessage address _ opening =>
    if (forwardSockets.get? address).isNone && opening.connects then some address else none
  | .remove _ => none

/-- How far the construction of a loop is. -/
inductive Stage
  | absent
  /-- The loop has its `loopId`, and the producer of its `IsolateState` comes to bind the ping
  socket. -/
  | counted
  /-- The producer has returned, so that `access { }` comes next. -/
  | produced
  /-- The constructor has thrown. -/
  | failed
  /-- `access { }` has returned and the loop job is started, which comes to connect its pong
  socket. -/
  | started
  /-- The loop job of a server comes to bind its router. -/
  | connected
  /-- The loop job has thrown there. -/
  | died
  | running

/-- The producer of a loop's `IsolateState` has returned. -/
def Stage.IsBound : Stage → Prop
  | .produced => True
  | .started => True
  | .connected => True
  | .died => True
  | .running => True
  | _ => False

/-- The constructor of a loop has returned. -/
def Stage.IsStarted : Stage → Prop
  | .started => True
  | .connected => True
  | .died => True
  | .running => True
  | _ => False

/-- The pong socket of a loop is connected. -/
def Stage.IsConnected : Stage → Prop
  | .connected => True
  | .died => True
  | .running => True
  | _ => False

/-- A socket that is bound: the ping socket of a loop, or its router. -/
inductive Bound
  | ping (i : ℕ)
  | router (i : ℕ)

/-- The loop whose ping socket a socket is. -/
def Bound.ping? : Bound → Option ℕ
  | .ping i => some i
  | .router _ => none

variable {Block Thread : Type} {L : ℕ → Member Block} {K : ℕ∞}

/-- The loops of a process. -/
structure Process (L : ℕ → Member Block) (Thread : Type) where
  /-- `ZmqContext.loopCounter`. -/
  loopCounter : Int32
  /-- How many loops are constructed. -/
  count : ℕ
  loopId : ℕ → Int32
  stage : ℕ → Stage
  /-- The socket that is bound to an address. -/
  bound : String → Option Bound
  /-- The addresses that forward sockets were connected to. -/
  forwards : List String
  /-- The loop whose ping socket the pong socket of a loop is connected to. -/
  peer : ℕ → Option ℕ
  loop : (i : ℕ) → State (L i).job Thread

namespace Process

/-- What can happen in a process. -/
inductive Label (L : ℕ → Member Block) (Thread : Type)
  /-- `ZmqContext.loopCounter.addAndGet(1)` in the constructor of a loop. -/
  | construct
  /-- The ping socket of a loop is bound. -/
  | bind (i : ℕ)
  /-- The address of a ping socket is in use. -/
  | bindFails (i : ℕ)
  /-- `isolatedQueue.access { }` returns, and the thread of the loop job is started. -/
  | access (i : ℕ)
  /-- The loop job connects its pong socket. -/
  | connect (i : ℕ)
  /-- The loop job binds its router. -/
  | bindRouter (i : ℕ) (address : String)
  /-- The router cannot be bound. -/
  | bindRouterFails (i : ℕ)
  /-- A step of a loop. -/
  | loop (i : ℕ) (l : Khala.Label (L i).job Thread)

/-- Replaces the state of a loop. -/
def setLoop (s : Process L Thread) (i : ℕ) (t : State (L i).job Thread) : Process L Thread :=
  { s with loop := Function.update s.loop i t }

/-- Replaces what the pong socket of a loop has to read. -/
def setPipe (s : Process L Thread) (i : ℕ) (pipe : List ZmqMsg) : Process L Thread :=
  s.setLoop i { s.loop i with pipe }

/-- The address that both sockets of a loop are for. -/
def address (s : Process L Thread) (i : ℕ) : String := workerAddress (s.loopId i)

/-- The address that user code binds or connects a socket to in a step. -/
def userAddress? (s : Process L Thread) : Label L Thread → Option String
  | .bindRouter _ address => some address
  | .loop i (.call c) => (L i).connects c (s.loop i).scope
  | _ => none

/-- One step. -/
inductive Step (K : ℕ∞) : Process L Thread → Label L Thread → Process L Thread → Prop where
  | construct {s} : Step K s .construct
      { s with loopCounter := s.loopCounter + 1
               count := s.count + 1
               loopId := Function.update s.loopId s.count (s.loopCounter + 1)
               stage := Function.update s.stage s.count .counted }
  -- `ZmqContext.createAndBindDealer(…)` in `createIsolateState`
  | bind {s i} : s.stage i = .counted → s.bound (s.address i) = none →
      Step K s (.bind i)
        { s with bound := Function.update s.bound (s.address i) (some (.ping i))
                 stage := Function.update s.stage i .produced }
  -- `socket.bind` throws on the JVM; the return code of `zmq_bind` is ignored.
  | bindFails {s i} : s.stage i = .counted → s.bound (s.address i) ≠ none →
      Step K s (.bindFails i)
        { s with stage := Function.update s.stage i
                   (if (L i).job.platform = .jvm then .failed else .produced) }
  | access {s i} : s.stage i = .produced →
      Step K s (.access i) { s with stage := Function.update s.stage i .started }
  -- `ZmqContext.createAndConnectDealer(…)` in the loop job; only a server's has a router to bind.
  | connect {s i} : s.stage i = .started →
      Step K s (.connect i)
        { s with stage := Function.update s.stage i
                   (if (L i).backwardRouterBindAddress.isSome then .connected else .running)
                 peer := Function.update s.peer i ((s.bound (s.address i)).bind Bound.ping?) }
  -- `ZmqContext.createAndBindRouter(…)`
  | bindRouter {s i address} : s.stage i = .connected →
      (L i).backwardRouterBindAddress = some address → s.bound address = none →
      Step K s (.bindRouter i address)
        { s with bound := Function.update s.bound address (some (.router i))
                 stage := Function.update s.stage i .running }
  -- The address is in use, or is none to bind a socket to.
  | bindRouterFails {s i} : s.stage i = .connected →
      Step K s (.bindRouterFails i)
        { s with stage := Function.update s.stage i
                   (if (L i).job.platform = .jvm then .died else .running) }
  -- `m.send(it.pingSocket)`: the ping goes to a pong socket that is connected,
  | ping {s i j caller block t} : s.peer j = some i →
      Khala.Step K { s.loop i with pipe := (s.loop j).pipe } (.send caller (.invokeQuery block)) t →
      Step K s (.loop i (.send caller (.invokeQuery block)))
        ((s.setLoop i { t with pipe := (s.loop i).pipe }).setPipe j t.pipe)
  -- or to a forward socket that is, with what waits there.
  | pingForward {s i caller block t} (pipe) : s.bound (s.address i) = some (.ping i) →
      s.address i ∈ s.forwards →
      Khala.Step K { s.loop i with pipe } (.send caller (.invokeQuery block)) t →
      Step K s (.loop i (.send caller (.invokeQuery block)))
        (s.setLoop i { t with pipe := (s.loop i).pipe })
  -- Before `while (!isStopped)` the loop thread does nothing else.
  | loop {s i l t} : (s.stage i).IsStarted →
      (s.stage i ≠ .running → l ≠ .exit ∧ ∀ now, l ≠ .readClock now) →
      (∀ caller block, l ≠ .send caller (.invokeQuery block)) → Khala.Step K (s.loop i) l t →
      Step K s (.loop i l)
        { s.setLoop i t with forwards := s.forwards ++ (s.userAddress? (.loop i l)).toList }

/-- A process in which no loop is constructed. -/
def system (L : ℕ → Member Block) (Thread : Type) (K : ℕ∞) :
    Transitions.System (Process L Thread) (Label L Thread) where
  init :=
    { loopCounter := 0
      count := 0
      loopId := fun _ => 0
      stage := fun _ => .absent
      bound := fun _ => none
      forwards := []
      peer := fun _ => none
      loop := fun i => State.initial (L i).job Thread }
  step := Step K

/-- The loops have different addresses, and each pong socket is connected to the ping socket of its
own loop. -/
structure Wired (s : Process L Thread) : Prop where
  loopCounter : s.loopCounter = Int32.ofNat s.count
  loopId : ∀ i < s.count, s.loopId i = Int32.ofNat (i + 1)
  absent : ∀ i, s.stage i ≠ .absent → i < s.count
  failed : ∀ i, s.stage i ≠ .failed
  bound : ∀ a i, s.bound a = some (.ping i) → a = s.address i ∧ (s.stage i).IsBound
  address : ∀ i, (s.stage i).IsBound → s.bound (s.address i) = some (.ping i)
  router : ∀ a i, s.bound a = some (.router i) → ∀ loopId, a ≠ workerAddress loopId
  forwards : ∀ a ∈ s.forwards, ∀ loopId, a ≠ workerAddress loopId
  peer : ∀ i j, s.peer i = some j → j = i
  connected : ∀ i, (s.stage i).IsConnected → s.peer i = some i

/-- What a loop does to its own state changes no connection. -/
theorem Wired.setLoop {s : Process L Thread} (h : s.Wired) (i : ℕ) (t : State (L i).job Thread) :
    (s.setLoop i t).Wired where
  loopCounter := h.loopCounter
  loopId := h.loopId
  absent := h.absent
  failed := h.failed
  bound := h.bound
  address := h.address
  router := h.router
  forwards := h.forwards
  peer := h.peer
  connected := h.connected

/-- A loop whose ping socket is bound is constructed. -/
theorem Wired.lt_count {s : Process L Thread} (h : s.Wired) {i : ℕ} (hi : (s.stage i).IsBound) :
    i < s.count :=
  h.absent i fun hstage => by simp [hstage, Stage.IsBound] at hi

section Steps

variable {s t : Process L Thread} {l : Label L Thread}

/-- A loop that is constructed comes last, and has the next number. -/
theorem Wired.construct (h : s.Wired) :
    ({ s with loopCounter := s.loopCounter + 1
              count := s.count + 1
              loopId := Function.update s.loopId s.count (s.loopCounter + 1)
              stage := Function.update s.stage s.count .counted } : Process L Thread).Wired := by
  have hnumber : s.loopCounter + 1 = Int32.ofNat (s.count + 1) := by
    rw [h.loopCounter, Int32.ofNat_add]
    rfl
  have hold : ∀ {i}, (s.stage i).IsBound → i ≠ s.count := fun hi => (h.lt_count hi).ne
  constructor
  case loopCounter => exact hnumber
  case loopId =>
    intro i hi
    obtain rfl | hne := eq_or_ne i s.count
    · simpa using hnumber
    · simpa [hne] using h.loopId i (Nat.lt_of_le_of_ne (Nat.lt_succ_iff.mp hi) hne)
  case absent =>
    intro i hi
    obtain rfl | hne := eq_or_ne i s.count
    · exact Nat.lt_succ_self _
    · exact (h.absent i (by simpa [hne] using hi)).trans (Nat.lt_succ_self _)
  case failed =>
    intro i
    obtain rfl | hne := eq_or_ne i s.count
    · simp
    · simpa [hne] using h.failed i
  case bound =>
    intro a i hi
    obtain ⟨haddress, hbound⟩ := h.bound a i hi
    simpa [Process.address, hold hbound] using ⟨haddress, hbound⟩
  case address =>
    intro i hi
    obtain rfl | hne := eq_or_ne i s.count
    · simp [Stage.IsBound] at hi
    · simp only [Function.update_of_ne hne] at hi
      simpa [Process.address, hne] using h.address i hi
  case router => exact h.router
  case forwards => exact h.forwards
  case peer => exact h.peer
  case connected =>
    intro i hi
    obtain rfl | hne := eq_or_ne i s.count
    · simp [Stage.IsConnected] at hi
    · exact h.connected i (by simpa [hne] using hi)

/-- A ping socket is bound to an address that was free. -/
theorem Wired.bind (h : s.Wired) {i : ℕ} (hi : s.stage i = .counted)
    (hnone : s.bound (s.address i) = none) :
    ({ s with bound := Function.update s.bound (s.address i) (some (.ping i))
              stage := Function.update s.stage i .produced } : Process L Thread).Wired := by
  constructor
  case loopCounter => exact h.loopCounter
  case loopId => exact h.loopId
  case absent =>
    intro j hj
    obtain rfl | hne := eq_or_ne j i
    · exact h.absent j (by simp [hi])
    · exact h.absent j (by simpa [hne] using hj)
  case failed =>
    intro j
    obtain rfl | hne := eq_or_ne j i
    · simp
    · simpa [hne] using h.failed j
  case bound =>
    intro a j hj
    obtain rfl | hne := eq_or_ne a (s.address i)
    · obtain rfl : i = j := by simpa using hj
      exact ⟨rfl, by simp [Stage.IsBound]⟩
    · obtain ⟨haddress, hbound⟩ := h.bound a j (by simpa [hne] using hj)
      have hji : j ≠ i := fun hji => hne (by rw [haddress, hji])
      exact ⟨haddress, by simpa [hji] using hbound⟩
  case address =>
    intro j hj
    show Function.update s.bound (s.address i) (some (.ping i)) (s.address j) = some (.ping j)
    obtain rfl | hne := eq_or_ne j i
    · simp
    · have hbound := h.address j (by simpa [hne] using hj)
      have haddress : s.address j ≠ s.address i := fun heq => by simp [heq, hnone] at hbound
      simpa [haddress] using hbound
  case router =>
    intro a j hj
    obtain rfl | hne := eq_or_ne a (s.address i)
    · simp at hj
    · exact h.router a j (by simpa [hne] using hj)
  case forwards => exact h.forwards
  case peer => exact h.peer
  case connected =>
    intro j hj
    obtain rfl | hne := eq_or_ne j i
    · simp [Stage.IsConnected] at hj
    · exact h.connected j (by simpa [hne] using hj)

/-- A router is bound to an address that is no loop's. -/
theorem Wired.bindRouter (h : s.Wired) {i : ℕ} {address : String}
    (huser : ∀ loopId, address ≠ workerAddress loopId) :
    ({ s with bound := Function.update s.bound address (some (.router i)) } :
      Process L Thread).Wired where
  loopCounter := h.loopCounter
  loopId := h.loopId
  absent := h.absent
  failed := h.failed
  bound a j hj := by
    obtain rfl | hne := eq_or_ne a address
    · simp at hj
    · exact h.bound a j (by simpa [hne] using hj)
  address j hj := by
    have hne : s.address j ≠ address := (huser (s.loopId j)).symm
    exact (Function.update_of_ne hne _ _).trans (h.address j hj)
  router a j hj := by
    obtain rfl | hne := eq_or_ne a address
    · exact huser
    · exact h.router a j (by simpa [hne] using hj)
  forwards := h.forwards
  peer := h.peer
  connected := h.connected

/-- A forward socket is connected to an address that is no loop's. -/
theorem Wired.connects (h : s.Wired) {address? : Option String}
    (huser : ∀ address ∈ address?, ∀ loopId, address ≠ workerAddress loopId) :
    ({ s with forwards := s.forwards ++ address?.toList } : Process L Thread).Wired where
  loopCounter := h.loopCounter
  loopId := h.loopId
  absent := h.absent
  failed := h.failed
  bound := h.bound
  address := h.address
  router := h.router
  forwards a ha := by
    obtain ha | ha := List.mem_append.mp ha
    · exact h.forwards a ha
    · exact huser a (Option.mem_toList.mp ha)
  peer := h.peer
  connected := h.connected

end Steps

variable {s : Process L Thread} {tr : List (Process L Thread × Label L Thread)}

/-- In a run user code names no address of a ping socket, to bind or to connect a socket to it. -/
def AvoidsWorkers (tr : List (Process L Thread × Label L Thread)) : Prop :=
  ∀ a ∈ tr, ∀ address ∈ a.1.userAddress? a.2, ∀ loopId, address ≠ workerAddress loopId

/-- So it did before the last step, and in that step. -/
theorem AvoidsWorkers.of_append {a : Process L Thread × Label L Thread}
    (h : AvoidsWorkers (tr ++ [a])) : AvoidsWorkers tr ∧
      ∀ address ∈ a.1.userAddress? a.2, ∀ loopId, address ≠ workerAddress loopId :=
  ⟨fun b hb => h b (List.mem_append_left _ hb), h a (by simp)⟩

/-- A run goes on with a step in which user code leaves the addresses of the ping sockets alone. -/
theorem AvoidsWorkers.step {t : Process L Thread} {l : Label L Thread}
    (h : (system L Thread K).Run tr s ∧ AvoidsWorkers tr) (hs : Step K s l t)
    (huser : ∀ address ∈ s.userAddress? l, ∀ loopId, address ≠ workerAddress loopId) :
    (system L Thread K).Run (tr ++ [(s, l)]) t ∧ AvoidsWorkers (tr ++ [(s, l)]) := by
  refine ⟨h.1.step hs, fun a ha => ?_⟩
  obtain ha | ha := List.mem_append.mp ha
  · exact h.2 a ha
  · obtain rfl := List.mem_singleton.mp ha
    exact huser

/-- A run goes on with a step of a loop that is running, if that sends no ping. -/
theorem AvoidsWorkers.loop {i : ℕ} {k : Khala.Label (L i).job Thread} {u : State (L i).job Thread}
    (h : (system L Thread K).Run tr s ∧ AvoidsWorkers tr) (hrunning : s.stage i = .running)
    (hs : Khala.Step K (s.loop i) k u)
    (hsend : ∀ caller block, k ≠ .send caller (.invokeQuery block))
    (huser : ∀ address ∈ s.userAddress? (.loop i k), ∀ loopId, address ≠ workerAddress loopId) :
    (system L Thread K).Run (tr ++ [(s, .loop i k)])
        { s.setLoop i u with forwards := s.forwards ++ (s.userAddress? (.loop i k)).toList } ∧
      AvoidsWorkers (tr ++ [(s, .loop i k)]) :=
  AvoidsWorkers.step h (.loop (by rw [hrunning]; trivial) (fun hne => absurd hrunning hne) hsend hs)
    huser

end Process

end Khala
