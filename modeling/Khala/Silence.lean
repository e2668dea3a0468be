import Khala.Js.Loop
import Khala.Zmq.Stop

/-!
# Silence after the stop

`isStopped` is tested between two passes of the threaded loops and nowhere on JS. So a threaded loop
falls silent with its stop only when the pass in which it reads the `StopQuery` has no socket left
to hand over, and a loop on JS only when no timer is pending and nothing is submitted to it any
more; a server on JS has to have finished its bind besides, since `close` is put off until then.
-/

namespace Khala

open Transitions

variable {Block Thread S : Type} {J : LoopJob Block} {K : ℕ∞}

/-! ## The threaded loops -/

/-- The step that stops the loop. -/
def Label.Stops : Label J Thread → Prop
  | .deliver .stopQuery => True
  | _ => False

/-- A step that starts a block or the listener. -/
def Label.Starts : Label J Thread → Prop
  | .deliver (.invokeQuery _) => True
  | .runTimer _ => True
  | .listen _ _ => True
  | _ => False

/-- The stop query, when it comes up, is the last thing that the pass deals with. -/
def State.StopsLast (s : State J Thread) : Label J Thread → Prop
  | .deliver .stopQuery => s.pc = .removed .stopQuery []
  | _ => True

/-- The loop is stopped, and the loop thread has nothing before it but the end of its loop. -/
def State.Silent (s : State J Thread) : Prop :=
  s.isStopped = true ∧ (s.pc = .pass [] ∨ s.pc = .top ∨ s.pc = .exited)

/-- The step that stops a loop leaves it silent, if nothing of the pass is to come. -/
theorem Step.silent_of_stops {s t : State J Thread} {l : Label J Thread} (hC : s.StopsLast l)
    (hs : Step K s l t) (hl : l.Stops) : t.Silent := by
  cases hs with
  | stop hpc =>
    obtain ⟨-, rfl⟩ := Pc.removed.inj (hpc.symm.trans hC)
    exact ⟨rfl, .inl rfl⟩
  | _ => cases hl

/-- A silent loop stays so, and starts nothing. -/
theorem Step.silent {s t : State J Thread} {l : Label J Thread} (h : s.Silent)
    (hs : Step K s l t) : t.Silent ∧ ¬ l.Starts := by
  obtain ⟨hstopped, hpc⟩ := h
  cases hs with
  | endPass => exact ⟨⟨hstopped, .inr (.inl rfl)⟩, id⟩
  | exit => exact ⟨⟨hstopped, .inr (.inr rfl)⟩, id⟩
  | invokeSafe | stopSafe | addLast | sendPing | sendStop | dispose | refuse =>
    exact ⟨⟨hstopped, hpc⟩, id⟩
  | _ => simp_all

/-- A threaded loop is silent after its stop if the pass that reads the stop query has nothing left
to hand over. -/
theorem silentAfter_stopQuery {tr : List (State J Thread × Label J Thread)} {s : State J Thread}
    (h : (J.system Thread K).Run tr s) (hC : ∀ a ∈ tr, a.1.StopsLast a.2) :
    System.SilentAfter Label.Stops Label.Starts tr :=
  (h.silentAfter (C := State.StopsLast) (I := State.Silent)
    (fun _ hc hs hl => Step.silent_of_stops hc hs hl) (fun hq _ hs => Step.silent hq hs) hC).1

/-! ## The loops on JS -/

namespace Js

/-- The step that stops the loop. -/
def Label.Stops {J : Loop} : Label J Block → Prop
  | .stopSafe => True
  | _ => False

/-- A step that starts a block or the listener. -/
def Label.Starts {J : Loop} : Label J Block → Prop
  | .invokeSafe _ => True
  | .fire _ _ => True
  | .message _ => True
  | _ => False

/-- The loop is stopped, no timer is pending, and no socket delivers messages. -/
def State.Silent {J : Loop} (s : State J Block) : Prop :=
  s.isStopped = true ∧ s.timers = [] ∧ ∀ source, ¬ J.Delivers s.scope source

/-- A step after which a silent client is still silent, or which stops a client that has no timer
pending: a stopped client is given no block, and opens no socket. -/
def ClientKeepsSilence (s : State (clientLoop S) Block) : Label (clientLoop S) Block → Prop
  | .stopSafe => s.timers = []
  | .invokeSafe _ => s.isStopped = false
  | .invokeAfterTimeout _ _ => s.isStopped = false
  | .call (.sendMessage address _ opening) => s.isStopped = false ∨
      s.scope.forwardSockets.get? address ≠ none ∨ ¬ opening.Succeeds .js
  | _ => True

/-- A step after which a silent server is still silent, or which stops a server that has no timer
pending and has finished its bind: a stopped server is given no block. -/
def ServerKeepsSilence {webSocket : Bool} {address : String}
    (s : State (serverLoop webSocket address) Block) :
    Label (serverLoop webSocket address) Block → Prop
  | .stopSafe => s.timers = [] ∧ s.scope.backwardSocket.bindFinished = true
  | .invokeSafe _ => s.isStopped = false
  | .invokeAfterTimeout _ _ => s.isStopped = false
  | _ => True

/-- Every socket with a handler is in the map or was closed. -/
def ClientLoopScope.HandlersKnown (scope : ClientLoopScope S) : Prop :=
  ∀ source ∈ scope.handlers, source.socket ∈ scope.context.closed ∨
    ∃ address entry, scope.forwardSockets.get? address = some entry ∧
      entry.socket = source.socket

/-- A call loses sight of no socket that has a handler. -/
theorem ClientLoopScope.HandlersKnown.call {scope : ClientLoopScope S} (h : scope.HandlersKnown)
    (c : ClientCall S) : (ClientLoopScope.call c scope).HandlersKnown := by
  cases c with
  | remove address =>
    cases hget : scope.forwardSockets.get? address with
    | none => simpa [ClientLoopScope.call, ClientLoopScope.remove, hget] using h
    | some entry =>
      simp only [ClientLoopScope.call, ClientLoopScope.remove, hget]
      intro source hsource
      rcases h source hsource with hclosed | ⟨address', entry', hget', hsocket⟩
      · exact .inl (List.mem_append_left _ hclosed)
      · by_cases heq : address' = address
        · -- The entry that held the socket is the one that was removed and closed.
          subst heq
          obtain rfl := Option.some.inj (hget.symm.trans hget')
          exact .inl (List.mem_append_right _ (by simp [hsocket]))
        · exact .inr ⟨address', entry', by simp [heq, hget'], hsocket⟩
  | sendMessage address msg opening =>
    cases hget : scope.forwardSockets.get? address with
    | some entry =>
      rw [ClientLoopScope.call, sendMessage_of_get? hget]
      exact h
    | none =>
      by_cases hopening : opening.Succeeds .js
      · obtain ⟨state, hsend⟩ := exists_sendMessage hget msg hopening
        rw [ClientLoopScope.call, hsend]
        intro source hsource
        rcases List.mem_append.mp hsource with hsource | hsource
        · rcases h source hsource with hclosed | ⟨address', entry', hget', hsocket⟩
          · exact .inl hclosed
          · have hne : address' ≠ address := by
              rintro rfl
              simp [hget] at hget'
            exact .inr ⟨address', entry', by simp [hne, hget'], hsocket⟩
        · obtain rfl := List.mem_singleton.mp hsource
          exact .inr ⟨address, ⟨scope.context.opened, state⟩, by simp, rfl⟩
      · rw [ClientLoopScope.call, sendMessage_of_not_succeeds hget msg hopening]
        exact h

/-- Every socket with a handler was closed. -/
def ClientLoopScope.Deaf (scope : ClientLoopScope S) : Prop :=
  ∀ source ∈ scope.handlers, source.socket ∈ scope.context.closed

/-- `stopSafe` leaves no handler on an open socket. -/
theorem ClientLoopScope.HandlersKnown.closeSockets {scope : ClientLoopScope S}
    (h : scope.HandlersKnown) : scope.closeSockets.Deaf := by
  intro source hsource
  rw [scope.context_closeSockets.2, List.mem_append]
  rcases h source hsource with hclosed | ⟨address, entry, hget, hsocket⟩
  · exact .inl hclosed
  · refine .inr (List.mem_map.mpr ⟨entry, ?_, hsocket⟩)
    exact List.mem_map.mpr ⟨(address, entry), LinkedHashMap.mem_toList.mpr hget, rfl⟩

/-- `stopSafe` opens no socket again. -/
theorem ClientLoopScope.Deaf.closeSockets {scope : ClientLoopScope S} (h : scope.Deaf) :
    scope.closeSockets.Deaf := by
  intro source hsource
  rw [scope.context_closeSockets.2]
  exact List.mem_append_left _ (h source hsource)

/-- A call that opens no socket keeps the client deaf. -/
theorem ClientLoopScope.Deaf.call {scope : ClientLoopScope S} (h : scope.Deaf) {c : ClientCall S}
    (hc : ∀ address msg opening, c = .sendMessage address msg opening →
      scope.forwardSockets.get? address ≠ none ∨ ¬ opening.Succeeds .js) :
    (ClientLoopScope.call c scope).Deaf := by
  cases c with
  | remove address =>
    cases hget : scope.forwardSockets.get? address with
    | none => simpa [ClientLoopScope.call, ClientLoopScope.remove, hget] using h
    | some entry =>
      simp only [ClientLoopScope.call, ClientLoopScope.remove, hget]
      exact fun source hsource => List.mem_append_left _ (h source hsource)
  | sendMessage address msg opening =>
    cases hget : scope.forwardSockets.get? address with
    | some entry =>
      rw [ClientLoopScope.call, sendMessage_of_get? hget]
      exact h
    | none =>
      have hopening := (hc address msg opening rfl).resolve_left (by simp [hget])
      rw [ClientLoopScope.call, sendMessage_of_not_succeeds hget msg hopening]
      exact h

/-- In every run of a client on JS every socket with a handler is in the map or was closed. -/
theorem handlersKnown {s : State (clientLoop S) Block}
    (h : ((clientLoop S).system Block).Reachable s) :
    ClientLoopScope.HandlersKnown s.scope := by
  obtain ⟨tr, hr⟩ := h
  refine hr.invariant (I := fun s => ClientLoopScope.HandlersKnown s.scope)
    (fun source hsource => absurd hsource List.not_mem_nil) fun {s l t} hi hs => ?_
  cases hs with
  | call => exact ClientLoopScope.HandlersKnown.call hi _
  | stopSafe =>
    exact fun source hsource =>
      .inl (ClientLoopScope.HandlersKnown.closeSockets hi source hsource)
  | bound _ hbound => cases hbound
  | _ => exact hi

/-- A client on JS is silent after `stopSafe` if no timer was pending and it is given nothing any
more. -/
theorem client_silentAfter_stopSafe {tr : List (State (clientLoop S) Block ×
      Label (clientLoop S) Block)} {s : State (clientLoop S) Block}
    (h : ((clientLoop S).system Block).Run tr s) (hC : ∀ a ∈ tr, ClientKeepsSilence a.1 a.2) :
    System.SilentAfter Label.Stops Label.Starts tr := by
  refine (h.silentAfter (C := ClientKeepsSilence) (I := State.Silent) ?_ ?_ hC).1
  · intro s l t hr hc hs hl
    cases hs with
    | stopSafe =>
      -- Every socket with a handler was closed, now or before.
      refine ⟨rfl, hc, fun source hdelivers => hdelivers.2 ?_⟩
      exact (handlersKnown hr).closeSockets source hdelivers.1
    | _ => cases hl
  · rintro s l t ⟨hstopped, htimers, hsilent⟩ hc hs
    -- No socket delivers because every one that has a handler was closed.
    have hdeaf : ClientLoopScope.Deaf s.scope := fun source hsource => by
      by_contra hopen
      exact hsilent source ⟨hsource, hopen⟩
    cases hs with
    | invokeSafe | invokeAfterTimeout =>
      exact absurd hstopped (by simp [show s.isStopped = false from hc])
    | fire _ _ _ htimer => simp [htimers] at htimer
    | message _ hdelivers => exact absurd hdelivers (hsilent _)
    | bound _ hbound => cases hbound
    | «return» => exact ⟨⟨hstopped, htimers, hsilent⟩, id⟩
    | stopSafe =>
      exact ⟨⟨rfl, htimers, fun source hdelivers =>
        hdelivers.2 (hdeaf.closeSockets source hdelivers.1)⟩, id⟩
    | @call c =>
      have hcall : (ClientLoopScope.call c s.scope).Deaf := by
        refine ClientLoopScope.Deaf.call hdeaf ?_
        rintro address msg opening rfl
        exact hc.resolve_left (by simp [hstopped])
      exact ⟨⟨hstopped, htimers, fun source hdelivers =>
        hdelivers.2 (hcall source hdelivers.1)⟩, id⟩

section Server

variable {webSocket : Bool} {address : String}

/-- In every run of a server on JS `isClosed` stays unset. -/
theorem isClosed_backwardSocket {s : State (serverLoop webSocket address) Block}
    (h : ((serverLoop webSocket address).system Block).Reachable s) :
    (ServerLoopScope.backwardSocket s.scope).isClosed = false := by
  obtain ⟨tr, hr⟩ := h
  refine hr.invariant
    (I := fun s => (ServerLoopScope.backwardSocket s.scope).isClosed = false)
    (ZmqSocket.bind_keeps _ _).1 fun {s l t} hi hs => ?_
  cases hs with
  | stopSafe => exact (ZmqSocket.close_keeps _).1.trans hi
  | bound _ hbound =>
    simp only [serverLoop] at hbound
    split_ifs at hbound
    obtain rfl := Option.some.inj hbound
    exact (ZmqSocket.bindCallback_keeps _).1.trans hi
  | _ => exact hi

/-- A server on JS is silent after `stopSafe` if its bind had finished, no timer was pending and it
is given nothing any more. -/
theorem server_silentAfter_stopSafe {tr : List (State (serverLoop webSocket address) Block ×
      Label (serverLoop webSocket address) Block)} {s : State (serverLoop webSocket address) Block}
    (h : ((serverLoop webSocket address).system Block).Run tr s)
    (hC : ∀ a ∈ tr, ServerKeepsSilence a.1 a.2) :
    System.SilentAfter Label.Stops Label.Starts tr := by
  refine (h.silentAfter (C := ServerKeepsSilence) (I := State.Silent) ?_ ?_ hC).1
  · intro s l t hr hc hs hl
    cases hs with
    | stopSafe =>
      obtain ⟨htimers, hbind⟩ := hc
      refine ⟨rfl, htimers, fun _ hdelivers => hdelivers ?_⟩
      -- With the bind finished `close` is handed on to the wrapped socket.
      have hraw := ZmqSocket.raw_iterate_close (isClosed_backwardSocket hr) hbind 1
      simp only [Function.iterate_one] at hraw
      change RawCall.close ∈ (ServerLoopScope.backwardSocket s.scope).close.raw
      simp [hraw]
    | _ => cases hl
  · rintro s l t ⟨hstopped, htimers, hsilent⟩ hc hs
    -- What was handed on to the wrapped socket is never taken back.
    have hclosed : .close ∈ (ServerLoopScope.backwardSocket s.scope).raw := by
      by_contra hopen
      exact hsilent () hopen
    cases hs with
    | invokeSafe | invokeAfterTimeout =>
      exact absurd hstopped (by simp [show s.isStopped = false from hc])
    | fire _ _ _ htimer => simp [htimers] at htimer
    | message _ hdelivers => exact absurd hdelivers (hsilent _)
    | @call c =>
      cases c
      exact ⟨⟨hstopped, htimers, hsilent⟩, id⟩
    | «return» => exact ⟨⟨hstopped, htimers, hsilent⟩, id⟩
    | stopSafe =>
      exact ⟨⟨rfl, htimers, fun _ hdelivers =>
        hdelivers ((ZmqSocket.close_keeps _).2.subset hclosed)⟩, id⟩
    | bound _ hbound =>
      simp only [serverLoop] at hbound
      split_ifs at hbound
      obtain rfl := Option.some.inj hbound
      exact ⟨⟨hstopped, htimers, fun _ hdelivers =>
        hdelivers ((ZmqSocket.bindCallback_keeps _).2.subset hclosed)⟩, id⟩

end Server

end Js

/-! ## All loops -/

/-- On the JVM and native targets a loop is silent after its stop if the pass that reads the stop
query has nothing left to hand over; on JS, if no timer is pending at the stop, nothing is given to
the loop after it, and the server's bind had finished. -/
theorem silent_after_stop :
    (∀ (variant : Variant)
        (tr : List (State (variant.job Block S) Thread × Label (variant.job Block S) Thread))
        (s : State (variant.job Block S) Thread),
      ((variant.job Block S).system Thread K).Run tr s → (∀ a ∈ tr, a.1.StopsLast a.2) →
        System.SilentAfter Label.Stops Label.Starts tr) ∧
    (∀ (tr : List (Js.State (Js.clientLoop S) Block × Js.Label (Js.clientLoop S) Block))
        (s : Js.State (Js.clientLoop S) Block),
      ((Js.clientLoop S).system Block).Run tr s → (∀ a ∈ tr, Js.ClientKeepsSilence a.1 a.2) →
        System.SilentAfter Js.Label.Stops Js.Label.Starts tr) ∧
    ∀ (webSocket : Bool) (address : String)
        (tr : List (Js.State (Js.serverLoop webSocket address) Block ×
          Js.Label (Js.serverLoop webSocket address) Block))
        (s : Js.State (Js.serverLoop webSocket address) Block),
      ((Js.serverLoop webSocket address).system Block).Run tr s →
        (∀ a ∈ tr, Js.ServerKeepsSilence a.1 a.2) →
        System.SilentAfter Js.Label.Stops Js.Label.Starts tr :=
  ⟨fun _ _ _ => silentAfter_stopQuery, fun _ _ => Js.client_silentAfter_stopSafe,
    fun _ _ _ _ => Js.server_silentAfter_stopSafe⟩

/-- A native server, a client on JS with a socket, and a server on JS whose bind has finished, each
of which is stopped. -/
theorem silent_after_stop_each :
    (∃ tr s, ((Variant.nativeServer.job Unit Unit).system Bool ⊤).Run tr s ∧ s.isStopped = true ∧
      System.SilentAfter Label.Stops Label.Starts tr) ∧
    (∃ tr s, ((Js.clientLoop Unit).system Unit).Run tr s ∧ s.isStopped = true ∧
      System.SilentAfter Js.Label.Stops Js.Label.Starts tr) ∧
    ∃ tr s, ((Js.serverLoop false "tcp://*:5555").system Unit).Run tr s ∧ s.isStopped = true ∧
      System.SilentAfter Js.Label.Stops Js.Label.Starts tr := by
  obtain ⟨hthreaded, hclient, hserver⟩ := @silent_after_stop Unit Bool Unit ⊤
  refine ⟨?_, ?_, ?_⟩
  · have h₁ := (System.Run.init (S := (Variant.nativeServer.job Unit Unit).system Bool ⊤)).step
      (Step.stopSafe false rfl (by simp [State.Busy, State.initial, LoopJob.system]))
    have h₂ := h₁.step (Step.addLast [] [] rfl rfl rfl)
    have h₃ := h₂.step (Step.sendStop rfl)
    -- The stop query has no ping of its own, so a later `invokeSafe` has to bring it up.
    have h₄ := h₃.step (Step.invokeSafe true () (by simp [State.Busy]))
    have h₅ := h₄.step (Step.addLast [] [] rfl rfl rfl)
    have h₆ := h₅.step (Step.sendPing rfl (ENat.natCast_lt_top _))
    have h₇ := h₆.step (Step.readClock 0 rfl rfl)
    have h₈ := h₇.step (Step.enterPoll rfl (.inl rfl))
    have h₉ := h₈.step (Step.wake [.pong] rfl (by simp)
      (List.Sublist.cons_cons _ (List.nil_sublist _))
      (fun _ => List.cons_ne_nil _ _))
    have h₁₀ := h₉.step (Step.recvPing rfl rfl)
    have h₁₁ := h₁₀.step (Step.removeFirst [] [] rfl rfl rfl rfl rfl)
    have h₁₂ := h₁₁.step (Step.stop rfl)
    exact ⟨_, _, h₁₂, rfl, hthreaded .nativeServer _ _ h₁₂ (by simp [State.StopsLast])⟩
  · have h₁ := (System.Run.init (S := (Js.clientLoop Unit).system Unit)).step
      (Js.Step.invokeSafe ())
    have h₂ := h₁.step (Js.Step.call (ClientCall.sendMessage "a" ⟨[[1]]⟩ ⟨true, some (), true⟩)
      (by decide))
    have h₃ := h₂.step (Js.Step.return (by decide))
    have h₄ := h₃.step Js.Step.stopSafe
    refine ⟨_, _, h₄, rfl, hclient _ _ h₄ ?_⟩
    simp [Js.ClientKeepsSilence, Js.Loop.system]
  · have h₁ := (System.Run.init (S := (Js.serverLoop false "tcp://*:5555").system Unit)).step
      (Js.Step.bound rfl rfl)
    have h₂ := h₁.step Js.Step.stopSafe
    refine ⟨_, _, h₂, rfl, hserver _ _ _ _ h₂ ?_⟩
    exact List.forall_mem_cons.mpr ⟨trivial, List.forall_mem_singleton.mpr ⟨rfl, rfl⟩⟩

/-- A native client whose listener is called after the stop query was read in the same pass, and a
client on JS whose timer fires after `stopSafe` has returned. -/
theorem started_after_stop :
    (∃ tr s, ((Variant.nativeClient.job Unit Unit).system Bool ⊤).Run tr s ∧
      ¬ System.SilentAfter Label.Stops Label.Starts tr) ∧
    ∃ tr s, ((Js.clientLoop Unit).system Unit).Run tr s ∧
      ¬ System.SilentAfter Js.Label.Stops Js.Label.Starts tr := by
  constructor
  · obtain ⟨tr, h, -, -⟩ := exists_run_in_block (K := ⊤) (Variant.nativeClient.job Unit Unit) true
      () (by simp) ⟨fun i => i == 0, rfl⟩
    have h₁ := h.step (Step.call (ClientCall.sendMessage "a" ⟨[[1]]⟩ ⟨true, some (), true⟩) rfl)
    have h₂ := h₁.step (Step.return rfl)
    have h₃ := h₂.step (Step.stopSafe false rfl (by simp [State.Busy, State.initial]))
    have h₄ := h₃.step (Step.addLast [] [] rfl rfl rfl)
    have h₅ := h₄.step (Step.sendStop rfl)
    have h₆ := h₅.step (Step.invokeSafe true () (by simp [State.Busy]))
    have h₇ := h₆.step (Step.addLast [] [] rfl rfl rfl)
    have h₈ := h₇.step (Step.sendPing rfl (ENat.natCast_lt_top _))
    have h₉ := h₈.step (Step.endPass rfl)
    have h₁₀ := h₉.step (Step.readClock 0 rfl rfl)
    have h₁₁ := h₁₀.step (Step.enterPoll rfl (.inl rfl))
    -- Both sockets are ready, and the pong socket comes first.
    have h₁₂ := h₁₁.step (Step.wake (J := Native.clientLoopJob Unit Unit)
      [.pong, .socket ⟨1, "a", ⟨1, ()⟩⟩] rfl (by simp) ⟨fun _ => true, rfl⟩
      (fun _ => List.cons_ne_nil _ _))
    have h₁₃ := h₁₂.step (Step.recvPing rfl rfl)
    have h₁₄ := h₁₃.step (Step.removeFirst [] [] rfl rfl rfl rfl rfl)
    have h₁₅ := h₁₄.step (Step.stop rfl)
    have h₁₆ := h₁₅.step (Step.recv ⟨[[1]]⟩ rfl)
    have h₁₇ := h₁₆.step (Step.listen rfl)
    refine ⟨_, _, h₁₇, fun hsilent => ?_⟩
    exact hsilent _ _ _ ((List.append_assoc _ _ _).trans (List.append_assoc _ _ _)) trivial _
      (List.mem_cons_of_mem _ (List.mem_singleton_self _)) trivial
  · have h₁ := (System.Run.init (S := (Js.clientLoop Unit).system Unit)).step
      (Js.Step.invokeSafe ())
    have h₂ := h₁.step (Js.Step.invokeAfterTimeout 5000 () (by decide))
    have h₃ := h₂.step (Js.Step.return (by decide))
    have h₄ := h₃.step Js.Step.stopSafe
    have h₅ := h₄.step (Js.Step.fire [] [] rfl rfl)
    refine ⟨_, _, h₅, fun hsilent => ?_⟩
    exact hsilent _ _ _ (List.append_assoc _ _ _) trivial _ (List.mem_singleton_self _) trivial

end Khala
