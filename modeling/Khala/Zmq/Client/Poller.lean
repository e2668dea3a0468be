import Khala.Zmq.Client.Accounting

/-!
# The poller's registry and the socket map on the JVM

`sendMessage` registers JeroMQ's socket with the poller, and `remove` gives the `ZmqSocket` around
it to `unregister`, which finds nothing under that key. So a socket that is removed stays
registered, and the registry agrees with the map exactly as long as nothing is removed.
-/

namespace Khala

open Transitions

/-- The call goes well: the libraries fail nowhere, and `socketStateProducer` returns. -/
def ClientCall.Succeeds {S : Type} : ClientCall S → Prop
  | .sendMessage _ _ opening => opening.Succeeds .jvm ∧ opening.registers = true
  | .remove _ => True

/-- The call removes no address that has a socket. -/
def ClientCall.RemovesNothing {S : Type} (held : LinkedHashMap String (SocketWithState S)) :
    ClientCall S → Prop
  | .sendMessage _ _ _ => True
  | .remove address => held.get? address = none

namespace Jvm.ClientLoopScope

variable {S : Type} {scope : ClientLoopScope S}

/-- The registered objects are the pong socket and the sockets of the map. -/
def RegistryAgrees (scope : ClientLoopScope S) : Prop :=
  ∀ key, key ∈ scope.poller.items.keys ↔ key = .socket pongSocket ∨
    ∃ address entry, scope.forwardSockets.get? address = some entry ∧ key = .socket entry.socket

/-- A call keeps the registry in agreement exactly if it removes nothing. -/
theorem registryAgrees_call_iff
    (ht : scope.ledger.Tracked SocketWithState.socket Platform.jvm.firstForward)
    (h : scope.RegistryAgrees) {c : ClientCall S} (hc : c.Succeeds) :
    (call c scope).RegistryAgrees ↔ c.RemovesNothing scope.forwardSockets := by
  cases c with
  | sendMessage address msg opening =>
    refine iff_of_true ?_ trivial
    cases hget : scope.forwardSockets.get? address with
    | some entry => rwa [call, sendMessage_of_get? hget]
    | none =>
      -- The new key is that of the new entry's socket.
      obtain ⟨state, hsend⟩ := exists_sendMessage hget msg hc.1 hc.2
      rw [call, hsend]
      intro key
      simp only [ZPoller.register, LinkedHashMap.mem_keys_put, h key, LinkedHashMap.get?_put]
      constructor
      · rintro (rfl | rfl | ⟨address', entry, hget', rfl⟩)
        · exact .inr ⟨address, ⟨scope.context.opened, state⟩, by simp, rfl⟩
        · exact .inl rfl
        · have hne : address' ≠ address := by
            rintro rfl
            simp [hget] at hget'
          exact .inr ⟨address', entry, by simp [hne, hget'], rfl⟩
      · rintro (rfl | ⟨address', entry, hget', rfl⟩)
        · exact .inr (.inl rfl)
        · split_ifs at hget' with hne
          · obtain rfl := Option.some.inj hget'
            exact .inl rfl
          · exact .inr (.inr ⟨address', entry, hget', rfl⟩)
  | remove address =>
    cases hget : scope.forwardSockets.get? address with
    | none => exact iff_of_true (by simpa [call, remove, hget] using h) hget
    | some entry =>
      refine iff_of_false (fun hagrees => ?_) (by simp [ClientCall.RemovesNothing, hget])
      -- The removed socket is still registered, under its own key.
      have hkey : .socket entry.socket ∈ (call (.remove address) scope).poller.items.keys := by
        simp only [call, remove, hget, ZPoller.unregister, LinkedHashMap.mem_keys_remove]
        exact ⟨by simp, (h _).mpr (.inr ⟨address, entry, hget, rfl⟩)⟩
      have hpong := ht.le_res address entry hget
      rcases (hagrees _).mp hkey with heq | ⟨address', entry', hget', heq⟩
      · have hzero : entry.socket = pongSocket := PollerKey.socket.inj heq
        simp [Platform.firstForward, hzero] at hpong
      · simp only [call, remove, hget, LinkedHashMap.get?_remove] at hget'
        split_ifs at hget' with hne
        exact hne (ht.distinct address' entry' address entry hget' hget
          (PollerKey.socket.inj heq).symm)

end Jvm.ClientLoopScope

/-- When all calls go well, the registry and the map agree after each call exactly when no call
removes an address that has a socket. -/
theorem registry_agrees_iff {S : Type} {calls : List (ClientCall S)}
    (hcalls : ∀ c ∈ calls, c.Succeeds) :
    (∀ pre, pre <+: calls → Jvm.ClientLoopScope.RegistryAgrees (Platform.jvm.runClient pre)) ↔
      ∀ pre c, pre ++ [c] <+: calls → c.RemovesNothing
        (Jvm.ClientLoopScope.forwardSockets (Platform.jvm.runClient pre)) := by
  refine forall_prefix_foldl_iff (f := Platform.jvm.callClient) (s := Platform.jvm.initialClient)
    (G := Jvm.ClientLoopScope.RegistryAgrees)
    (C := fun scope c => c.RemovesNothing (Jvm.ClientLoopScope.forwardSockets scope)) ?_ ?_
  · intro key
    -- At the start the pong socket is registered, and the map is empty.
    constructor
    · intro hkey
      exact .inl (List.mem_singleton.mp hkey)
    · rintro (rfl | ⟨_, _, hget, -⟩)
      · exact List.mem_singleton_self _
      · cases hget
  · intro pre c hpre hagrees
    exact Jvm.ClientLoopScope.registryAgrees_call_iff (Platform.jvm.tracked_runClient pre) hagrees
      (hcalls c (hpre.subset (by simp)))

/-- A removal of an unknown address and two messages to another one. -/
theorem registry_agrees_resend :
    Jvm.ClientLoopScope.RegistryAgrees (Platform.jvm.runClient [.remove "b",
      .sendMessage "a" .new ⟨true, some (), true⟩,
      .sendMessage "a" .new ⟨true, some (), true⟩]) := by
  refine (registry_agrees_iff ?_).mpr (fun pre c hpre => ?_) _ (List.prefix_refl _)
  · simp [ClientCall.Succeeds, Opening.Succeeds]
  · rcases pre with _ | ⟨first, pre⟩
    · obtain rfl : c = .remove "b" := (List.cons_prefix_cons.mp hpre).1
      rfl
    · have hmem := (List.cons_prefix_cons.mp hpre).2.subset
        (List.mem_append_right pre (List.mem_singleton_self c))
      obtain rfl : c = .sendMessage "a" .new ⟨true, some (), true⟩ := by simpa using hmem
      trivial

/-- A socket that is removed stays registered. -/
theorem removed_socket_registered : ∃ calls : List (ClientCall Unit),
    (∀ c ∈ calls, c.Succeeds) ∧ ¬ ∀ pre, pre <+: calls →
      Jvm.ClientLoopScope.RegistryAgrees (Platform.jvm.runClient pre) := by
  refine ⟨[.sendMessage "a" .new ⟨true, some (), true⟩, .remove "a"], ?_, fun hall => ?_⟩
  · simp [ClientCall.Succeeds, Opening.Succeeds]
  · have hmem := (hall _ (List.prefix_refl _) (.socket 1)).mp (by decide)
    rcases hmem with heq | ⟨address, entry, hget, -⟩
    · exact absurd heq (by decide)
    · cases hget

end Khala
