import Khala.Js.Loop
import Khala.Library.Ledger

/-!
# Accounting for the client's sockets

The scopes of the three platforms are one ledger of sockets: a call of `sendMessage` to a new
address acquires one, or leaks it when it throws, and `remove` releases one (`LedgerStep`). They
differ in what a stop does: nothing on the JVM and on native, and closing every socket of the map,
which keeps its entries, on JS. `accounted_iff` says for which sequences of calls every socket is
closed exactly once.
-/

namespace Khala

open Transitions

variable {S : Type}

/-- What a call does to the ledger of a client's sockets. -/
def LedgerStep (platform : Platform) (c : ClientCall S)
    (L L' : Ledger String (SocketWithState S)) : Prop :=
  match c with
  | .remove address => L' = L.release SocketWithState.socket address
  | .sendMessage address _ opening =>
    (L.held.get? address ≠ none ∧ L' = L) ∨
    (L.held.get? address = none ∧ opening.Succeeds platform ∧
      ∃ state, L' = L.acquire address ⟨L.opened, state⟩) ∨
    (L.held.get? address = none ∧ ¬ opening.Succeeds platform ∧ L' = L.leak)

/-- The call opens no socket that is not put into the map. -/
def ClientCall.OpensIn (platform : Platform) (held : LinkedHashMap String (SocketWithState S)) :
    ClientCall S → Prop
  | .sendMessage address _ opening => held.get? address = none → opening.Succeeds platform
  | .remove _ => True

section LedgerStep

variable {platform : Platform} {c : ClientCall S} {L L' : Ledger String (SocketWithState S)}
  {base : ℕ}

/-- A call of `sendMessage` is a step of the ledger if each of its three outcomes is. -/
theorem LedgerStep.sendMessage {address : String} {msg : ZmqMsg} {opening : Opening S}
    (hsends : ∀ entry, L.held.get? address = some entry → L' = L)
    (hopens : L.held.get? address = none → opening.Succeeds platform →
      ∃ state, L' = L.acquire address ⟨L.opened, state⟩)
    (hthrows : L.held.get? address = none → ¬ opening.Succeeds platform → L' = L.leak) :
    LedgerStep platform (.sendMessage address msg opening) L L' := by
  cases hget : L.held.get? address with
  | some entry => exact .inl ⟨by simp [hget], hsends entry hget⟩
  | none =>
    by_cases hopening : opening.Succeeds platform
    · obtain ⟨state, hopen⟩ := hopens hget hopening
      exact .inr (.inl ⟨hget, hopening, state, hopen⟩)
    · exact .inr (.inr ⟨hget, hopening, hthrows hget hopening⟩)

/-- A call keeps track of the sockets. -/
theorem LedgerStep.tracked (h : LedgerStep platform c L L')
    (ht : L.Tracked SocketWithState.socket base) : L'.Tracked SocketWithState.socket base := by
  cases c with
  | remove address =>
    obtain rfl := h
    exact ht.release address
  | sendMessage address msg opening =>
    rcases h with ⟨-, rfl⟩ | ⟨-, -, state, rfl⟩ | ⟨-, -, rfl⟩
    · exact ht
    · exact ht.acquire rfl
    · exact ht.leak

/-- A call keeps the account exact exactly if it opens no socket that is not put into the map. -/
theorem LedgerStep.exact_iff (h : LedgerStep platform c L L')
    (ht : L.Tracked SocketWithState.socket base) (hexact : L.Exact SocketWithState.socket base) :
    L'.Exact SocketWithState.socket base ↔ c.OpensIn platform L.held := by
  cases c with
  | remove address =>
    obtain rfl := h
    exact iff_of_true (hexact.release ht address) trivial
  | sendMessage address msg opening =>
    rcases h with ⟨hget, rfl⟩ | ⟨hget, hopening, state, rfl⟩ | ⟨hget, hopening, rfl⟩
    · exact iff_of_true hexact fun hnone => absurd hnone hget
    · exact iff_of_true (hexact.acquire ht hget rfl) fun _ => hopening
    · exact iff_of_false ht.not_exact_leak fun hopens => hopening (hopens hget)

end LedgerStep

/-! ## The three scopes -/

/-- The ledger of the native scope. -/
def Native.ClientLoopScope.ledger (scope : Native.ClientLoopScope S) :
    Ledger String (SocketWithState S) :=
  ⟨scope.forwardSockets, scope.context.opened, scope.context.closed⟩

/-- The ledger of the JVM's scope. -/
def Jvm.ClientLoopScope.ledger (scope : Jvm.ClientLoopScope S) :
    Ledger String (SocketWithState S) :=
  ⟨scope.forwardSockets, scope.context.opened, scope.context.closed⟩

/-- The ledger of the scope on JS. -/
def Js.ClientLoopScope.ledger (scope : Js.ClientLoopScope S) :
    Ledger String (SocketWithState S) :=
  ⟨scope.forwardSockets, scope.context.opened, scope.context.closed⟩

/-- A call of the native scope is a step of the ledger. -/
theorem Native.ClientLoopScope.ledgerStep (c : ClientCall S) (scope : Native.ClientLoopScope S) :
    LedgerStep .native c scope.ledger (call c scope).ledger := by
  cases c with
  | remove address =>
    cases hget : scope.forwardSockets.get? address <;>
      simp [LedgerStep, ledger, Ledger.release, call, remove, hget]
  | sendMessage address msg opening =>
    refine .sendMessage (fun entry hget => ?_) (fun hget hopening => ?_) fun hget hopening => ?_
    · simp [call, sendMessage_of_get? hget, ledger]
    · obtain ⟨state, hsend⟩ := exists_sendMessage hget msg hopening
      exact ⟨state, by simp [call, hsend, ledger, Ledger.acquire]⟩
    · simp [call, sendMessage_of_not_succeeds hget msg hopening, ledger, Ledger.leak]

/-- A call of the JVM scope is a step of the ledger. -/
theorem Jvm.ClientLoopScope.ledgerStep (c : ClientCall S) (scope : Jvm.ClientLoopScope S) :
    LedgerStep .jvm c scope.ledger (call c scope).ledger := by
  cases c with
  | remove address =>
    cases hget : scope.forwardSockets.get? address <;>
      simp [LedgerStep, ledger, Ledger.release, call, remove, hget]
  | sendMessage address msg opening =>
    refine .sendMessage (fun entry hget => ?_) (fun hget hopening => ?_) fun hget hopening => ?_
    · simp [call, sendMessage_of_get? hget, ledger]
    · -- The socket is in the map before the poller is asked to register it.
      cases hregisters : opening.registers with
      | true =>
        obtain ⟨state, hsend⟩ := exists_sendMessage hget msg hopening hregisters
        exact ⟨state, by simp [call, hsend, ledger, Ledger.acquire]⟩
      | false =>
        obtain ⟨state, hsend⟩ := exists_sendMessage_of_not_registers hget msg hopening hregisters
        exact ⟨state, by simp [call, hsend, ledger, Ledger.acquire]⟩
    · simp [call, sendMessage_of_not_succeeds hget msg hopening, ledger, Ledger.leak]

/-- A call of the JS scope is a step of the ledger. -/
theorem Js.ClientLoopScope.ledgerStep (c : ClientCall S) (scope : Js.ClientLoopScope S) :
    LedgerStep .js c scope.ledger (call c scope).ledger := by
  cases c with
  | remove address =>
    cases hget : scope.forwardSockets.get? address <;>
      simp [LedgerStep, ledger, Ledger.release, call, remove, hget]
  | sendMessage address msg opening =>
    refine .sendMessage (fun entry hget => ?_) (fun hget hopening => ?_) fun hget hopening => ?_
    · simp [call, sendMessage_of_get? hget, ledger]
    · obtain ⟨state, hsend⟩ := exists_sendMessage hget msg hopening
      exact ⟨state, by simp [call, hsend, ledger, Ledger.acquire]⟩
    · simp [call, sendMessage_of_not_succeeds hget msg hopening, ledger, Ledger.leak]

/-- `stopSafe` on JS closes all sockets of the ledger. -/
theorem Js.ClientLoopScope.ledger_closeSockets (scope : Js.ClientLoopScope S) :
    scope.closeSockets.ledger = scope.ledger.closeAll SocketWithState.socket := by
  obtain ⟨hopened, hclosed⟩ := scope.context_closeSockets
  simp only [ledger, Ledger.closeAll, hopened, hclosed]
  rfl

/-! ## Whole runs -/

/-- What a client may still be told after a stop has taken effect. -/
inductive AfterStop
  | remove (address : String)
  | stopSafe

/-- The address that is removed. -/
def AfterStop.removed? : AfterStop → Option String
  | .remove address => some address
  | .stopSafe => none

/-- What is closed on JS. -/
def AfterStop.closing : AfterStop → Ledger.Closing String
  | .remove address => .release address
  | .stopSafe => .closeAll

namespace Platform

/-- `ClientLoopScope` of a platform. -/
def ClientScope (S : Type) : Platform → Type
  | .jvm => Jvm.ClientLoopScope S
  | .native => Native.ClientLoopScope S
  | .js => Js.ClientLoopScope S

/-- The scope that a client starts with. -/
def initialClient : (platform : Platform) → platform.ClientScope S
  | .jvm => Jvm.ClientLoopScope.initial
  | .native => Native.ClientLoopScope.initial
  | .js => Js.ClientLoopScope.initial

/-- What a call of user code does to the scope. -/
def callClient : (platform : Platform) → platform.ClientScope S → ClientCall S →
    platform.ClientScope S
  | .jvm, scope, c => Jvm.ClientLoopScope.call c scope
  | .native, scope, c => Native.ClientLoopScope.call c scope
  | .js, scope, c => Js.ClientLoopScope.call c scope

/-- What a stop that takes effect does to the scope. On the JVM and on native it sets `isStopped`
and leaves the sockets alone. -/
def stopClient : (platform : Platform) → platform.ClientScope S → platform.ClientScope S
  | .jvm, scope => scope
  | .native, scope => scope
  | .js, scope => Js.ClientLoopScope.closeSockets scope

/-- What a client does after its stop. A second `stopSafe` fails on the JVM and on native, where the
queue is disposed, and closes the sockets of the map again on JS. -/
def afterStop (platform : Platform) (scope : platform.ClientScope S) :
    AfterStop → platform.ClientScope S
  | .remove address => platform.callClient scope (.remove address)
  | .stopSafe => platform.stopClient scope

/-- The ledger of a scope. -/
def ledger : (platform : Platform) → platform.ClientScope S → Ledger String (SocketWithState S)
  | .jvm, scope => Jvm.ClientLoopScope.ledger scope
  | .native, scope => Native.ClientLoopScope.ledger scope
  | .js, scope => Js.ClientLoopScope.ledger scope

/-- The first socket that can be a forward socket: on the JVM and on native the pong socket comes
before. -/
def firstForward : Platform → ℕ
  | .jvm => pongSocket + 1
  | .native => pongSocket + 1
  | .js => 0

variable (platform : Platform)

/-- A call of a scope is a step of the ledger, on each platform. -/
theorem ledgerStep_callClient (scope : platform.ClientScope S) (c : ClientCall S) :
    LedgerStep platform c (platform.ledger scope)
      (platform.ledger (platform.callClient scope c)) := by
  cases platform with
  | jvm => exact Jvm.ClientLoopScope.ledgerStep c scope
  | native => exact Native.ClientLoopScope.ledgerStep c scope
  | js => exact Js.ClientLoopScope.ledgerStep c scope

/-- The scope after a list of calls. -/
def runClient (calls : List (ClientCall S)) : platform.ClientScope S :=
  calls.foldl platform.callClient platform.initialClient

/-- The scope at the end of a run: after the calls `pre`, a stop, and what comes after it. -/
def endClient (pre : List (ClientCall S)) (post : List AfterStop) : platform.ClientScope S :=
  post.foldl platform.afterStop (platform.stopClient (platform.runClient pre))

/-- After any calls the sockets of the map are open, and nothing was closed twice. -/
theorem tracked_runClient (calls : List (ClientCall S)) :
    (platform.ledger (platform.runClient calls)).Tracked SocketWithState.socket
      platform.firstForward := by
  induction calls using List.reverseRecOn with
  | nil =>
    cases platform <;>
      exact ⟨Nat.le_refl _, nofun, nofun, nofun, nofun, nofun, List.nodup_nil⟩
  | append_singleton calls c ih =>
    rw [runClient, List.foldl_append]
    exact (platform.ledgerStep_callClient _ c).tracked ih

/-- Before the stop the open forward sockets are the sockets of the map, and at the end every
forward socket was closed exactly once. -/
structure Accounted (pre : List (ClientCall S)) (post : List AfterStop) : Prop where
  open_eq_held : ∀ calls, calls <+: pre →
    (platform.ledger (platform.runClient calls)).Exact SocketWithState.socket platform.firstForward
  closed_once : (platform.ledger (platform.endClient pre post)).AllClosedOnce platform.firstForward

/-- What has to come after a stop that found these entries in the map, for every socket to be closed
once: on the JVM and on native every address is removed, and on JS nothing comes that would close a
socket again. -/
def ClosesRest (held : LinkedHashMap String (SocketWithState S)) (post : List AfterStop) :
    Platform → Prop
  | .jvm => ∀ address, held.get? address ≠ none → .remove address ∈ post
  | .native => ∀ address, held.get? address ≠ none → .remove address ∈ post
  | .js => ∀ address, held.get? address ≠ none → .remove address ∉ post ∧ .stopSafe ∉ post

/-- No socket is open besides those of the map exactly when every call puts the socket that it opens
into the map. -/
theorem open_eq_held_iff (pre : List (ClientCall S)) :
    (∀ calls, calls <+: pre → (platform.ledger (platform.runClient calls)).Exact
      SocketWithState.socket platform.firstForward) ↔
      ∀ calls c, calls ++ [c] <+: pre →
        c.OpensIn platform (platform.ledger (platform.runClient calls)).held := by
  refine forall_prefix_foldl_iff (f := platform.callClient) (s := platform.initialClient)
    (G := fun scope =>
      (platform.ledger scope).Exact SocketWithState.socket platform.firstForward)
    (C := fun scope c => ClientCall.OpensIn platform (platform.ledger scope).held c) ?_ ?_
  · intro n hn
    refine iff_of_false ?_ ?_
    · cases platform <;> exact fun h => absurd h.1 (Nat.not_lt.mpr hn)
    · cases platform <;> rintro ⟨_, _, hget, -⟩ <;> cases hget
  · intro calls c _ hexact
    exact (platform.ledgerStep_callClient _ c).exact_iff (platform.tracked_runClient calls) hexact

/-- Where a stop leaves the sockets alone, what comes after it releases the addresses that are
removed. -/
theorem ledger_foldl_afterStop (hstop : ∀ scope : platform.ClientScope S,
    platform.stopClient scope = scope) (post : List AfterStop) (scope : platform.ClientScope S) :
    platform.ledger (post.foldl platform.afterStop scope) =
      (post.filterMap AfterStop.removed?).foldl
        (fun L address => L.release SocketWithState.socket address) (platform.ledger scope) := by
  induction post generalizing scope with
  | nil => rfl
  | cons op post ih =>
    rw [List.foldl_cons, ih]
    cases op with
    | remove address =>
      rw [afterStop, platform.ledgerStep_callClient scope (.remove address)]
      rfl
    | stopSafe => rw [afterStop, hstop]; rfl

/-- On JS a `stopSafe` after the stop closes what is held once more. -/
theorem ledger_foldl_afterStop_js (post : List AfterStop) (scope : Platform.js.ClientScope S) :
    Platform.js.ledger (post.foldl Platform.js.afterStop scope) =
      (post.map AfterStop.closing).foldl (fun L c => c.apply SocketWithState.socket L)
        (Platform.js.ledger scope) := by
  induction post generalizing scope with
  | nil => rfl
  | cons op post ih =>
    rw [List.foldl_cons, ih]
    cases op with
    | remove address =>
      rw [afterStop, Platform.js.ledgerStep_callClient scope (.remove address)]
      rfl
    | stopSafe =>
      exact congrArg (fun L => (post.map AfterStop.closing).foldl
          (fun L c => c.apply SocketWithState.socket L) L)
        (Js.ClientLoopScope.ledger_closeSockets scope)

/-- Where a stop leaves the sockets alone, every socket is closed once at the end exactly when every
address of the map is removed. -/
theorem closed_once_iff_of_stopClient (hstop : ∀ scope : platform.ClientScope S,
    platform.stopClient scope = scope) {pre : List (ClientCall S)} (post : List AfterStop)
    (hexact : (platform.ledger (platform.runClient pre)).Exact SocketWithState.socket
      platform.firstForward) :
    (platform.ledger (platform.endClient pre post)).AllClosedOnce platform.firstForward ↔
      ∀ address, (platform.ledger (platform.runClient pre)).held.get? address ≠ none →
        .remove address ∈ post := by
  have hremoved : ∀ address, address ∈ post.filterMap AfterStop.removed? ↔
      .remove address ∈ post := by
    intro address
    rw [List.mem_filterMap]
    constructor
    · rintro ⟨op, hop, hremoved⟩
      cases op with
      | remove address' => rwa [← Option.some.inj hremoved]
      | stopSafe => cases hremoved
    · exact fun hmem => ⟨_, hmem, rfl⟩
  rw [endClient, hstop, platform.ledger_foldl_afterStop hstop,
    hexact.allClosedOnce_foldl_release_iff (platform.tracked_runClient pre)]
  simp only [hremoved]

/-- On JS every socket is closed once at the end exactly when nothing comes after the stop that
would close one again. -/
theorem closed_once_iff_js {pre : List (ClientCall S)} (post : List AfterStop)
    (hexact : (Platform.js.ledger (Platform.js.runClient pre)).Exact SocketWithState.socket
      Platform.js.firstForward) :
    (Platform.js.ledger (Platform.js.endClient pre post)).AllClosedOnce
        Platform.js.firstForward ↔
      ∀ address, (Platform.js.ledger (Platform.js.runClient pre)).held.get? address ≠ none →
        .remove address ∉ post ∧ .stopSafe ∉ post := by
  have htracked := Platform.js.tracked_runClient pre
  -- The stop closes every socket once, and what comes after it must find nothing to close.
  have hstop : Platform.js.ledger (Platform.js.stopClient (Platform.js.runClient pre)) =
      (Platform.js.ledger (Platform.js.runClient pre)).closeAll SocketWithState.socket :=
    Js.ClientLoopScope.ledger_closeSockets _
  rw [endClient, Platform.ledger_foldl_afterStop_js, hstop, Ledger.Closing.allClosedOnce_foldl_iff
    (hexact.allClosedOnce_closeAll htracked)]
  · rw [List.forall_mem_map]
    constructor
    · intro hidle address hget
      exact ⟨fun hmem => hget (hidle _ hmem), fun hmem => hget (hidle _ hmem address)⟩
    · intro hrest op hop
      cases op with
      | remove address => exact not_not.mp fun hget => (hrest address hget).1 hop
      | stopSafe => exact fun address => not_not.mp fun hget => (hrest address hget).2 hop
  · rintro n ⟨address, entry, hget, rfl⟩
    exact ⟨htracked.le_res address entry hget, htracked.lt_opened address entry hget⟩

/-- A client accounts for its sockets exactly when every call of `sendMessage` that opens a socket
puts it into the map, and what comes after the stop closes the sockets that the stop does not
close, and closes none again. -/
theorem accounted_iff (pre : List (ClientCall S)) (post : List AfterStop) :
    platform.Accounted pre post ↔
      (∀ calls c, calls ++ [c] <+: pre →
        c.OpensIn platform (platform.ledger (platform.runClient calls)).held) ∧
      platform.ClosesRest (platform.ledger (platform.runClient pre)).held post := by
  rw [← platform.open_eq_held_iff]
  -- What has to come after the stop is settled once the ledger is exact at the stop.
  have hiff : ∀ hopen : (∀ calls, calls <+: pre → (platform.ledger (platform.runClient calls)).Exact
      SocketWithState.socket platform.firstForward),
      (platform.ledger (platform.endClient pre post)).AllClosedOnce platform.firstForward ↔
        platform.ClosesRest (platform.ledger (platform.runClient pre)).held post := by
    intro hopen
    have hexact := hopen pre (List.prefix_refl pre)
    cases platform with
    | jvm => exact closed_once_iff_of_stopClient .jvm (fun _ => rfl) post hexact
    | native => exact closed_once_iff_of_stopClient .native (fun _ => rfl) post hexact
    | js => exact closed_once_iff_js post hexact
  exact ⟨fun h => ⟨h.open_eq_held, (hiff h.open_eq_held).mp h.closed_once⟩,
    fun h => ⟨h.1, (hiff h.1).mpr h.2⟩⟩

/-- A client that sends once and is stopped never closes the socket on the JVM and on native, and
closes it twice on JS when the address is removed after the stop. -/
theorem not_accounted :
    ¬ Platform.jvm.Accounted [.sendMessage "a" .new ⟨true, some (), true⟩] [] ∧
      ¬ Platform.native.Accounted [.sendMessage "a" .new ⟨true, some (), true⟩] [] ∧
      ¬ Platform.js.Accounted [.sendMessage "a" .new ⟨true, some (), true⟩] [.remove "a"] := by
  -- The client's socket has the number 1 where the pong socket comes before it.
  refine ⟨fun h => ?_, fun h => ?_, fun h => ?_⟩
  · exact absurd (h.closed_once 1 (Nat.le_refl _) (Nat.lt_succ_self _)) (by decide)
  · exact absurd (h.closed_once 1 (Nat.le_refl _) (Nat.lt_succ_self _)) (by decide)
  · exact absurd (h.closed_once 0 (Nat.le_refl _) (Nat.lt_succ_self _)) (by decide)

end Platform

/-! ## The calls of a run -/

/-- The call of the scope that a step makes. -/
def Label.call? {Block Thread : Type} {J : LoopJob Block} : Label J Thread → Option J.Call
  | .call c => some c
  | _ => none

/-- In every run of a threaded loop the scope is what the calls of the run make of it, whoever made
them. -/
theorem scope_eq_foldl {Block Thread : Type} {J : LoopJob Block} {K : ℕ∞}
    {tr : List (State J Thread × Label J Thread)} {s : State J Thread}
    (h : (J.system Thread K).Run tr s) :
    s.scope = (tr.filterMap fun a => a.2.call?).foldl (fun scope c => J.call c scope)
      J.initialScope := by
  refine h.induct (I := fun tr s => s.scope = (tr.filterMap fun a => a.2.call?).foldl
    (fun scope c => J.call c scope) J.initialScope) rfl fun {tr s l t} _ ih hs => ?_
  rw [List.filterMap_append, List.foldl_append, ← ih]
  cases hs <;> rfl

end Khala
