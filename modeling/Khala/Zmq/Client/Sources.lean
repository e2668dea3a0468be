import Khala.Library.Routing
import Khala.Zmq.Client.Dispatch

/-!
# The forward sockets of the threaded clients

`sendMessage` opens a socket for an address that has none, and gives the loop a handler with the
address and the state of that socket. On the JVM the handlers are in the poller's registry, which
`remove` does not take them from; on the native targets they are read off the socket map before each
wait. `ForwardSockets` is what the two have in common: `Opened.step` says that the loop only ever
reads from sockets that `sendMessage` opened, and with the addresses and states that it gave them.
-/

namespace Khala

open Transitions

/-- The handlers of a client that has opened so many sockets: no two of them are for one socket. -/
structure Handlers {S : Type} (sources : List (ForwardSource S)) (opened : ℕ) : Prop where
  lt_opened : ∀ x ∈ sources, x.socket < opened
  socket_eq : ∀ x ∈ sources, x.entry.socket = x.socket
  nodup : (sources.map ForwardSource.socket).Nodup

/-- There are no handlers at first. -/
theorem Handlers.nil {S : Type} (opened : ℕ) : Handlers ([] : List (ForwardSource S)) opened :=
  ⟨nofun, nofun, List.nodup_nil⟩

/-- One more handler may be for the socket that is opened. -/
theorem Handlers.append {S : Type} {sources : List (ForwardSource S)} {opened opened' : ℕ}
    (h : Handlers sources opened) {new : Option (ForwardSource S)} (hle : opened ≤ opened')
    (hnew : ∀ x, new = some x →
      x.socket = opened ∧ x.entry.socket = x.socket ∧ opened' = opened + 1) :
    Handlers (sources ++ new.toList) opened' := by
  cases new with
  | none =>
    rw [Option.toList_none, List.append_nil]
    exact { h with lt_opened := fun x hx => (h.lt_opened x hx).trans_le hle }
  | some new =>
    obtain ⟨hsocket, hentry, hopened⟩ := hnew new rfl
    rw [Option.toList_some]
    refine ⟨List.forall_mem_append.mpr ⟨fun x hx => (h.lt_opened x hx).trans_le hle, ?_⟩,
      List.forall_mem_append.mpr ⟨h.socket_eq, List.forall_mem_singleton.mpr hentry⟩, ?_⟩
    · refine List.forall_mem_singleton.mpr ?_
      rw [hopened, hsocket]
      exact Nat.lt_succ_self _
    · rw [List.map_append, List.nodup_append]
      refine ⟨h.nodup, List.nodup_singleton _, ?_⟩
      -- The numbers of the sockets before are smaller.
      intro n hn m hm heq
      obtain ⟨x, hx, rfl⟩ := List.mem_map.mp hn
      obtain rfl := List.mem_singleton.mp hm
      exact absurd (h.lt_opened x hx) (by rw [heq, hsocket]; exact lt_irrefl _)

/-- What a client's loop job does with its forward sockets. -/
structure ForwardSockets {Block : Type} (J : LoopJob Block) (S : Type) where
  context : J.Scope → ZmqContext
  source : J.Source → ForwardSource S
  /-- The handler that a call makes for the socket that it opens. -/
  creation? : J.Call → J.Scope → Option (ForwardSource S)
  /-- The loop has a handler for the socket. -/
  Handles : J.Scope → ForwardSource S → Prop
  handles_init : ∀ x, ¬ Handles J.initialScope x
  handles_call : ∀ {c scope x}, Handles (J.call c scope) x →
    Handles scope x ∨ creation? c scope = some x
  handles_of_handsOver : ∀ {scope ready x}, J.HandsOver scope ready → .socket x ∈ ready →
    Handles scope (source x)
  eq_of_creation? : ∀ {c scope x}, creation? c scope = some x →
    x.socket = (context scope).opened ∧ x.entry.socket = x.socket ∧
      (context (J.call c scope)).opened = (context scope).opened + 1
  opened_le : ∀ c scope, (context scope).opened ≤ (context (J.call c scope)).opened
  sent_call : ∀ c scope, (context scope).sent <+: (context (J.call c scope)).sent

namespace ForwardSockets

variable {Block S Thread : Type} {J : LoopJob Block} (F : ForwardSockets J S) {K : ℕ∞}

/-- The handler that a step makes. -/
def created? (s : State J Thread) : Label J Thread → Option (ForwardSource S)
  | .call c => F.creation? c s.scope
  | _ => none

/-- The handlers that were made so far: the loop reads from no other socket. -/
structure Opened (sources : List (ForwardSource S)) (s : State J Thread) : Prop
    extends Handlers sources (F.context s.scope).opened where
  handles : ∀ x, F.Handles s.scope x → x ∈ sources
  pending : ∀ x, .socket x ∈ s.pc.pending → F.source x ∈ sources

variable {F} {sources : List (ForwardSource S)} {s t : State J Thread} {l : Label J Thread}

/-- No socket is opened before the first step. -/
theorem opened_initial : F.Opened [] (State.initial J Thread) :=
  ⟨.nil _, fun x hx => absurd hx (F.handles_init x), nofun⟩

/-- A call adds the handler that it makes. -/
theorem Opened.call (h : F.Opened sources s) (c : J.Call) :
    F.Opened (sources ++ (F.creation? c s.scope).toList)
      { s with scope := J.call c s.scope } := by
  refine ⟨h.toHandlers.append (F.opened_le c s.scope) fun x => F.eq_of_creation?, fun x hx => ?_,
    fun x hx => List.mem_append_left _ (h.pending x hx)⟩
  obtain hx | hx := F.handles_call hx
  · exact List.mem_append_left _ (h.handles x hx)
  · exact List.mem_append_right _ (Option.mem_toList.mpr hx)

/-- A step keeps the handlers those of opened sockets. -/
theorem Opened.step (h : F.Opened sources s) (hs : Step K s l t) :
    F.Opened (sources ++ (F.created? s l).toList) t := by
  have hsub := hs.pending_subset
  cases hs with
  | call c => exact h.call c
  | wake _ _ _ hready =>
    simp only [created?, Option.toList_none, List.append_nil]
    exact { h with pending := fun x hx => h.handles _ (F.handles_of_handsOver hready hx) }
  -- The other steps make no handler, and drop sockets from the pass at most.
  | _ =>
    simp only [created?, Option.toList_none, List.append_nil]
    exact { h with pending := fun x hx => h.pending x (hsub (by simp) hx) }

/-! ## The client as a party -/

/-- Only calls send messages. -/
theorem sent_step (hs : Step K s l t) :
    (F.context s.scope).sent <+: (F.context t.scope).sent := by
  cases hs with
  | call c => exact F.sent_call c s.scope
  | _ => exact List.prefix_refl _

variable (F Thread K)

/-- What the listener is given with a message. -/
def given (x : J.Source × ZmqMsg) : ℕ × ForwardSource S × List Frame :=
  ((F.source x.1).socket, F.source x.1, x.2.frames)

/-- The loop, with the handlers that were made so far. -/
def system : System (State J Thread × List (ForwardSource S)) (Label J Thread) where
  init := (State.initial J Thread, [])
  step u l v := Step K u.1 l v.1 ∧ v.2 = u.2 ++ (F.created? u.1 l).toList

variable {F Thread K}

/-- The handlers of a run are those of opened sockets. -/
theorem opened_of_reachable {u : State J Thread × List (ForwardSource S)}
    (h : (F.system Thread K).Reachable u) : F.Opened u.2 u.1 := by
  obtain ⟨tr, hr⟩ := h
  refine hr.invariant (I := fun u => F.Opened u.2 u.1) opened_initial fun {u l v} h hs => ?_
  rw [hs.2]
  exact h.step hs.1

variable (F Thread K)

/-- The client: a connection is a forward socket, and its address the handler that was made for
it. -/
def client : Routing.Client Frame (ForwardSource S) where
  State := State J Thread × List (ForwardSource S)
  Label := Label J Thread
  system := F.system Thread K
  sent u := (F.context u.1.scope).sent.map fun x => (x.1, x.2.frames)
  taken? l := l.received?.map F.given
  listened? l := l.listened?.map F.given
  held u := u.1.pc.received?.toList.map F.given
  held_init := rfl
  sent_step hs := (sent_step hs.1).map _
  given hs := by
    simpa [Option.toList_map] using congrArg (List.map F.given) (Step.given hs.1)
  connections u := u.2.map fun x => (x.socket, x)
  connections_step hs := (hs.2 ▸ List.prefix_append _ _ : _ <+: _).map _
  nodup h := by
    simpa [Function.comp_def] using (opened_of_reachable h).nodup
  mem_connections {u l v n x msg} h hs htaken := by
    obtain ⟨s, sources⟩ := u
    obtain ⟨t, _⟩ := v
    cases l with
    | recv source msg' =>
      obtain ⟨rfl, rfl, rfl⟩ : (F.source source).socket = n ∧ F.source source = x ∧
          msg'.frames = msg := by simpa [Label.received?, given] using htaken
      obtain ⟨hstep, -⟩ := hs
      refine List.mem_map_of_mem (f := fun x => (x.socket, x))
        ((opened_of_reachable h).pending source ?_)
      cases hstep with
      | recv _ hpc =>
        rw [show s.pc = _ from hpc]
        exact List.mem_cons_self
    | _ => cases htaken

end ForwardSockets

/-! ## The native targets -/

namespace Native

/-- No call takes back a message. -/
theorem ClientLoopScope.sent_prefix_call {S : Type} (c : ClientCall S) (scope : ClientLoopScope S) :
    scope.context.sent <+: (call c scope).context.sent := by
  cases c with
  | remove address =>
    cases hget : scope.forwardSockets.get? address with
    | none => simp [call, remove, hget]
    | some entry => simp [call, remove, hget, ZmqContext.close]
  | sendMessage address msg opening =>
    cases hget : scope.forwardSockets.get? address with
    | some entry => simp [call, sendMessage_of_get? hget, ZmqContext.sendTo]
    | none =>
      cases hstate : opening.socketState <;>
        simp [call, sendMessage, hget, hstate, ZmqContext.openSocket, ZmqContext.sendTo]

variable (Block S : Type)

/-- The forward sockets of the native client: those of the map are read from. -/
def forwardSockets : ForwardSockets (Native.clientLoopJob Block S) S where
  context := ClientLoopScope.context
  source := id
  creation? := ClientLoopScope.creation?
  Handles scope x := ClientLoopScope.Current scope x
  handles_init x h := nomatch h.1
  handles_call {c scope x} h := by
    obtain ⟨hget, hsocket⟩ := h
    obtain hget | hnew := ClientLoopScope.get?_call hget
    · exact .inl ⟨hget, hsocket⟩
    · rw [hsocket] at hnew
      exact .inr hnew
  handles_of_handsOver := by
    rintro scope ready x ⟨readable, rfl⟩ hx
    exact ClientLoopScope.current_of_mem_handedOver hx
  eq_of_creation? h := by
    obtain ⟨hsocket, hentry, hopened⟩ := ClientLoopScope.eq_of_creation? h
    exact ⟨hsocket, hentry, hopened⟩
  opened_le := ClientLoopScope.opened_le
  sent_call := ClientLoopScope.sent_prefix_call

end Native

/-! ## The JVM -/

namespace Jvm

variable {S : Type}

/-- The handler that a call makes for the socket that it opens, whether or not the poller takes
it. -/
def ClientLoopScope.creation? (c : ClientCall S) (scope : ClientLoopScope S) :
    Option (ForwardSource S) :=
  match c with
  | .remove _ => none
  | .sendMessage address _ opening =>
    match scope.forwardSockets.get? address, opening.connects, opening.socketState with
    | none, true, some state =>
      some ⟨scope.context.opened, address, ⟨scope.context.opened, state⟩⟩
    | _, _, _ => none

/-- The poller has a handler for the socket. -/
def ZPoller.Handles (poller : ZPoller S) (x : ForwardSource S) : Prop :=
  ∃ key, poller.items.get? key = some (.socket x)

/-- After `register` the new handler is handled, and those that were. -/
theorem ZPoller.handles_of_register {poller : ZPoller S} {key : PollerKey}
    {source x : ForwardSource S} (h : (poller.register key source).Handles x) :
    poller.Handles x ∨ some source = some x := by
  obtain ⟨key', hkey⟩ := h
  rw [register, LinkedHashMap.get?_put] at hkey
  split_ifs at hkey
  · exact .inr (congrArg some (Watched.socket.inj (Option.some.inj hkey)))
  · exact .inl ⟨key', hkey⟩

/-- After `unregister` no handler is handled that was not before. -/
theorem ZPoller.handles_of_unregister {poller : ZPoller S} {key : PollerKey}
    {x : ForwardSource S} (h : (poller.unregister key).Handles x) : poller.Handles x := by
  obtain ⟨key', hkey⟩ := h
  rw [unregister, LinkedHashMap.get?_remove] at hkey
  split_ifs at hkey
  exact ⟨key', hkey⟩

/-- What a call does: nothing that was sent is taken back, and a socket is opened if a handler is
made. A handler that the poller has was there before, or is that one. -/
theorem ClientLoopScope.call_cases (c : ClientCall S) (scope : ClientLoopScope S) :
    scope.context.opened ≤ (call c scope).context.opened ∧
    scope.context.sent <+: (call c scope).context.sent ∧
    (∀ x, (call c scope).poller.Handles x → scope.poller.Handles x ∨ creation? c scope = some x) ∧
    ∀ x, creation? c scope = some x → x.socket = scope.context.opened ∧
      x.entry.socket = x.socket ∧ (call c scope).context.opened = scope.context.opened + 1 := by
  cases c with
  | remove address =>
    cases hget : scope.forwardSockets.get? address with
    | none => simp [call, remove, hget, creation?]
    | some entry =>
      refine ⟨?_, ?_, ?_, nofun⟩
      · simp [call, remove, hget]
      · simp [call, remove, hget, ZmqContext.close]
      · intro x hx
        simp only [call, remove, hget] at hx
        exact .inl (ZPoller.handles_of_unregister hx)
  | sendMessage address msg opening =>
    cases hget : scope.forwardSockets.get? address with
    | some entry =>
      refine ⟨?_, ?_, ?_, ?_⟩ <;>
        simp [call, sendMessage_of_get? hget, creation?, hget, ZmqContext.sendTo]
    | none =>
      by_cases hopening : opening.Succeeds .jvm
      · obtain ⟨state, hstate⟩ := Option.ne_none_iff_exists'.mp hopening.2
        have hconnects : opening.connects = true := hopening.1 (by decide)
        have hnew : creation? (.sendMessage address msg opening) scope =
            some ⟨scope.context.opened, address, ⟨scope.context.opened, state⟩⟩ := by
          simp [creation?, hget, hconnects, hstate]
        rw [hnew]
        cases hregisters : opening.registers with
        | false =>
          have hcall : call (.sendMessage address msg opening) scope =
              { scope with
                forwardSockets := scope.forwardSockets.put address ⟨scope.context.opened, state⟩
                context := scope.context.openSocket.2 } := by
            simp [call, sendMessage, hget, createAndConnectDealer, hconnects, hstate, hregisters,
              ZmqContext.openSocket]
          rw [hcall]
          exact ⟨Nat.le_succ _, List.prefix_refl _, fun x => .inl, by rintro _ ⟨⟩; simp⟩
        | true =>
          have hcall : call (.sendMessage address msg opening) scope =
              { poller := scope.poller.register (.socket scope.context.opened)
                  ⟨scope.context.opened, address, ⟨scope.context.opened, state⟩⟩
                forwardSockets := scope.forwardSockets.put address ⟨scope.context.opened, state⟩
                context := scope.context.openSocket.2.sendTo scope.context.opened msg } := by
            simp [call, sendMessage, hget, createAndConnectDealer, hconnects, hstate, hregisters,
              ZmqContext.openSocket]
          rw [hcall]
          refine ⟨Nat.le_succ _, List.prefix_append _ _, fun x hx => ?_, by rintro _ ⟨⟩; simp⟩
          exact ZPoller.handles_of_register hx
      · have hnone : creation? (.sendMessage address msg opening) scope = none := by
          cases hconnects : opening.connects with
          | false => simp [creation?, hconnects]
          | true =>
            have hstate : opening.socketState = none := by
              simpa [Opening.Succeeds, hconnects] using hopening
            simp [creation?, hstate]
        simp [call, sendMessage_of_not_succeeds hget msg hopening, hnone, ZmqContext.openSocket]

variable (Block S : Type)

/-- The forward sockets of the JVM client: those of the poller's registry are read from. -/
def forwardSockets : ForwardSockets (Jvm.clientLoopJob Block S) S where
  context := ClientLoopScope.context
  source := id
  creation? := ClientLoopScope.creation?
  Handles scope := ZPoller.Handles (ClientLoopScope.poller scope)
  handles_init := by
    rintro x ⟨key, hkey⟩
    have hkey : (ZPoller.initial (S := S)).items.get? key = some (.socket x) := hkey
    rw [ZPoller.initial, LinkedHashMap.get?_put] at hkey
    split_ifs at hkey <;> simp at hkey
  handles_call {c scope x} := (ClientLoopScope.call_cases c scope).2.2.1 x
  handles_of_handsOver := by
    rintro scope ready x ⟨keys, -, rfl⟩ hx
    obtain ⟨key, -, hkey⟩ := List.mem_filterMap.mp hx
    exact ⟨key, hkey⟩
  eq_of_creation? {c scope x} := (ClientLoopScope.call_cases c scope).2.2.2 x
  opened_le c scope := (ClientLoopScope.call_cases c scope).1
  sent_call c scope := (ClientLoopScope.call_cases c scope).2.1

end Jvm

end Khala
