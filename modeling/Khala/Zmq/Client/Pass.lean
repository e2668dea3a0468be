import Khala.Zmq.Handshake

/-!
# A pass of the native client over its ready sockets

`clientLoopJob` takes the snapshot `forwardSocketsList` of the socket map before it waits, and hands
the ready sockets to their handlers from that snapshot, while the handlers change the map.
`pending_current_iff` says that the snapshot stays in step with the map exactly as long as no
handler removes an address whose socket is still to be handed over. Sending to a new address does
no harm, and neither does removing an address whose socket was handed over or was not ready.
-/

namespace Khala

/-- What the code that is running returns to: the sockets that the pass has still to hand over. -/
@[simp] def Resume.pending {Source : Type} : Resume Source → List (Watched Source)
  | .timers _ => []
  | .pass ready => ready

/-- The sockets that the running pass has still to deal with: those to be handed over, and the one
whose message was just read. -/
@[simp] def Pc.pending {Block Source : Type} : Pc Block Source → List (Watched Source)
  | .pass ready => ready
  | .handlePong ready => ready
  | .removed _ ready => ready
  | .received source _ ready => .socket source :: ready
  | .user resume => resume.pending
  | .blocked resume => resume.pending
  | _ => []

/-- The socket that a step reads from, or gives to the listener. -/
def Label.source? {Block Thread : Type} {J : LoopJob Block} : Label J Thread → Option J.Source
  | .recv source _ => some source
  | .listen source _ => some source
  | .recvFails source => some source
  | _ => none

/-- Only the end of a wait gives the running pass sockets to deal with. -/
theorem Step.pending_subset {Block Thread : Type} {J : LoopJob Block} {K : ℕ∞}
    {s t : State J Thread} {l : Label J Thread} (hs : Step K s l t)
    (hwake : ∀ ready, l ≠ .wake ready) : t.pc.pending ⊆ s.pc.pending := by
  cases hs with
  | wake ready => exact absurd rfl (hwake ready)
  | @refuseUser _ _ _ resume caught _ _ hpc =>
    rw [hpc]
    cases caught with
    | true => exact List.Subset.refl _
    | false => exact List.nil_subset _
  | @«return» resume hpc =>
    rw [hpc]
    cases resume <;> exact List.Subset.refl _
  | _ => simp_all

end Khala

namespace Khala.Native

open Transitions

variable {Block S Thread : Type} {K : ℕ∞}

/-- A socket of the snapshot is current when the map has its entry under its address, and the entry
is the one whose socket is read. -/
def ClientLoopScope.Current (scope : ClientLoopScope S) (source : ForwardSource S) : Prop :=
  scope.forwardSockets.get? source.address = some source.entry ∧
    source.entry.socket = source.socket

/-- What `poll` hands over is current when the wait ends. -/
theorem ClientLoopScope.current_of_mem_handedOver {scope : ClientLoopScope S}
    {readable : ℕ → Bool} {source : ForwardSource S}
    (h : .socket source ∈ handedOver scope.forwardSockets.toList readable) :
    scope.Current source := by
  have hmem := (handedOver_sublist _ _).subset h
  simp only [watched, List.mem_cons, reduceCtorEq, List.mem_map, false_or] at hmem
  obtain ⟨e, he, heq⟩ := hmem
  obtain rfl : ForwardSource.mk e.2.socket e.1 e.2 = source := by simpa using heq
  exact ⟨LinkedHashMap.mem_toList.mp he, rfl⟩

/-- A call keeps a socket current unless it removes the socket's address. -/
theorem ClientLoopScope.current_call_iff {scope : ClientLoopScope S} {source : ForwardSource S}
    (h : scope.Current source) (c : ClientCall S) :
    (call c scope).Current source ↔ c ≠ .remove source.address := by
  obtain ⟨hget, hsocket⟩ := h
  cases c with
  | remove address =>
    by_cases haddress : source.address = address
    · simp [call, Current, haddress]
    · simp [call, Current, haddress, hget, hsocket, Ne.symm haddress]
  | sendMessage address msg opening =>
    exact iff_of_true ⟨get?_sendMessage hget address msg opening, hsocket⟩ (by simp)

/-! ## The pass -/

/-- Every socket that the running pass has still to deal with is current. -/
def PassCurrent (s : State (Native.clientLoopJob Block S) Thread) : Prop :=
  ∀ source, .socket source ∈ s.pc.pending → ClientLoopScope.Current s.scope source

/-- A step that removes no address whose socket the running pass has still to deal with. -/
def SparesPass (s : State (Native.clientLoopJob Block S) Thread) :
    Label (Native.clientLoopJob Block S) Thread → Prop
  | .call (.remove address) => ∀ source : ForwardSource S,
      .socket source ∈ s.pc.pending → source.address ≠ address
  | _ => True

/-- A step breaks the pass exactly if it removes an address that the pass has still to deal
with. -/
theorem passCurrent_iff {s t : State (Native.clientLoopJob Block S) Thread}
    {l : Label (Native.clientLoopJob Block S) Thread} (hs : Step K s l t) (h : PassCurrent s) :
    PassCurrent t ↔ SparesPass s l := by
  have hsub := hs.pending_subset
  cases hs with
  | @call resume c hpc =>
    -- User code is the only place from which the map is changed.
    have hiff : PassCurrent { s with scope := ClientLoopScope.call c s.scope } ↔
        ∀ source : ForwardSource S, .socket source ∈ s.pc.pending → c ≠ .remove source.address :=
      forall₂_congr fun source hmem => ClientLoopScope.current_call_iff (h source hmem) c
    refine hiff.trans ?_
    cases c with
    | remove address =>
      exact forall₂_congr fun source _ =>
        not_congr ⟨fun heq => (ClientCall.remove.inj heq).symm, fun heq => by rw [heq]⟩
    | sendMessage => exact iff_of_true (fun _ _ => nofun) trivial
  | wake _ hpc _ hready =>
    -- A new pass begins, with a snapshot of the map as it is.
    obtain ⟨readable, rfl⟩ := hready
    exact iff_of_true (fun source hmem => ClientLoopScope.current_of_mem_handedOver hmem) trivial
  -- The other steps leave the map alone, and drop sockets from the pass at most.
  | _ => exact iff_of_true (fun source hmem => h source (hsub (by simp) hmem)) trivial

section Runs

variable {tr : List (State (Native.clientLoopJob Block S) Thread ×
  Label (Native.clientLoopJob Block S) Thread)} {s : State (Native.clientLoopJob Block S) Thread}

/-- The passes of a run stay in step with the socket map exactly when no address is removed that a
running pass has still to deal with. -/
theorem pending_current_iff (h : ((Native.clientLoopJob Block S).system Thread K).Run tr s) :
    (∀ u ∈ System.states tr s, PassCurrent u) ↔ ∀ a ∈ tr, SparesPass a.1 a.2 :=
  h.forall_states_iff (by rintro _ ⟨⟩) fun _ hgood hs => passCurrent_iff hs hgood

/-- Whenever the loop reads from a forward socket or calls the listener with what it read, the
socket map has that socket and that state under the address, if no address was removed that a
running pass had still to deal with. -/
theorem handled_current (h : ((Native.clientLoopJob Block S).system Thread K).Run tr s)
    (hC : ∀ a ∈ tr, SparesPass a.1 a.2) :
    ∀ a ∈ tr, ∀ source, a.2.source? = some source → ClientLoopScope.Current a.1.scope source := by
  intro a ha source hsource
  obtain ⟨u, l⟩ := a
  obtain ⟨-, -, -, t, hs⟩ := h.reached ha
  have hcurrent := (pending_current_iff h).mpr hC u
    (List.mem_append_left _ (List.mem_map.mpr ⟨_, ha, rfl⟩))
  -- The socket is one that the pass has still to deal with.
  refine hcurrent source ?_
  cases hs with
  | recv _ hpc | listen hpc | recvFails hpc =>
    obtain rfl := Option.some.inj hsource
    rw [show u.pc = _ from hpc]
    exact List.mem_cons_self
  | _ => simp [Label.source?] at hsource

/-- How a call of `sendMessage` goes when nothing fails. -/
def smooth : Opening Unit := ⟨true, some (), true⟩

/-- The listener of one address removes that address, and the loop goes on to the other one. -/
theorem handled_current_two :
    ∃ tr s, ((Native.clientLoopJob Unit Unit).system Unit 1).Run tr s ∧
      (∃ a ∈ tr, a.2.source? = some (⟨2, "b", ⟨2, ()⟩⟩ : ForwardSource Unit)) ∧
      ∀ a ∈ tr, ∀ source, a.2.source? = some source →
        ClientLoopScope.Current a.1.scope source := by
  obtain ⟨tr, h, -, hcall⟩ := exists_run_in_block (K := 1) (Native.clientLoopJob Unit Unit) () ()
    (by decide) ⟨fun i => i == 0, rfl⟩
  have h₁ := h.step (Step.call (ClientCall.sendMessage "a" ⟨[[1]]⟩ smooth) rfl)
  have h₂ := h₁.step (Step.call (ClientCall.sendMessage "b" ⟨[[1]]⟩ smooth) rfl)
  have h₃ := h₂.step (Step.return rfl)
  have h₄ := h₃.step (Step.endPass rfl)
  have h₅ := h₄.step (Step.readClock 0 rfl rfl)
  have h₆ := h₅.step (Step.enterPoll rfl (.inl rfl))
  have h₇ := h₆.step (Step.wake (J := Native.clientLoopJob Unit Unit)
    [.socket ⟨1, "a", ⟨1, ()⟩⟩, .socket ⟨2, "b", ⟨2, ()⟩⟩] rfl (by simp)
    ⟨fun i => i != 0, rfl⟩ (by simp))
  have h₈ := h₇.step (Step.recv ⟨[[1]]⟩ rfl)
  have h₉ := h₈.step (Step.listen rfl)
  have h₁₀ := h₉.step (Step.call (ClientCall.remove "a") rfl)
  have h₁₁ := h₁₀.step (Step.return rfl)
  have h₁₂ := h₁₁.step (Step.recv ⟨[[1]]⟩ rfl)
  refine ⟨_, _, h₁₂, ⟨_, List.mem_append_right _ (List.mem_singleton_self _), rfl⟩,
    handled_current h₁₂ ?_⟩
  have hspares : ∀ a ∈ tr, SparesPass a.1 a.2 := by
    rintro ⟨u, l⟩ ha
    cases l with
    | call c => exact absurd rfl ((hcall _ ha).1 c)
    | _ => trivial
  simp only [List.forall_mem_append, List.forall_mem_singleton]
  refine ⟨⟨⟨⟨⟨⟨⟨⟨⟨⟨⟨⟨hspares, trivial⟩, trivial⟩, trivial⟩, trivial⟩, trivial⟩, trivial⟩, trivial⟩,
    trivial⟩, trivial⟩, ?_⟩, trivial⟩, trivial⟩
  -- Only the socket of `"b"` is still to be handed over when `"a"` is removed.
  intro source hmem
  obtain rfl := Watched.socket.inj (List.mem_singleton.mp hmem)
  decide

/-- The listener of one address removes another whose socket was ready too: the loop goes on to read
from the closed socket, and fails. -/
theorem removed_socket_read :
    ∃ tr s, ((Native.clientLoopJob Unit Unit).system Unit 1).Run tr s ∧
      ∃ a ∈ tr, ∃ source, a.2.source? = some source ∧
        ¬ ClientLoopScope.Current a.1.scope source := by
  obtain ⟨tr, h, -, -⟩ := exists_run_in_block (K := 1) (Native.clientLoopJob Unit Unit) () ()
    (by decide) ⟨fun i => i == 0, rfl⟩
  have h₁ := h.step (Step.call (ClientCall.sendMessage "a" ⟨[[1]]⟩ smooth) rfl)
  have h₂ := h₁.step (Step.call (ClientCall.sendMessage "b" ⟨[[1]]⟩ smooth) rfl)
  have h₃ := h₂.step (Step.return rfl)
  have h₄ := h₃.step (Step.endPass rfl)
  have h₅ := h₄.step (Step.readClock 0 rfl rfl)
  have h₆ := h₅.step (Step.enterPoll rfl (.inl rfl))
  have h₇ := h₆.step (Step.wake (J := Native.clientLoopJob Unit Unit)
    [.socket ⟨1, "a", ⟨1, ()⟩⟩, .socket ⟨2, "b", ⟨2, ()⟩⟩] rfl (by simp)
    ⟨fun i => i != 0, rfl⟩ (by simp))
  have h₈ := h₇.step (Step.recv ⟨[[1]]⟩ rfl)
  have h₉ := h₈.step (Step.listen rfl)
  -- The listener of `"a"` runs, and the socket of `"b"` is still to be handed over.
  have h₁₀ := h₉.step (Step.call (ClientCall.remove "b") rfl)
  have h₁₁ := h₁₀.step (Step.return rfl)
  have h₁₂ := h₁₁.step (Step.recvFails rfl (List.mem_singleton_self _))
  refine ⟨_, _, h₁₂, _, List.mem_append_right _ (List.mem_singleton_self _), _, rfl, ?_⟩
  rintro ⟨hget, -⟩
  cases hget

end Runs

end Khala.Native
