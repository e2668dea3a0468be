import Khala.Zmq.Client.Accounting

/-!
# When `sendMessage` throws

Opening, connecting, storing and registering a socket are four effects of one `sendMessage`, and a
failure of one undoes none of those before it. So a call that throws always leaves its socket open;
and when JeroMQ's `register` throws, the entry is in the map already, so that a later call to the
address hands its message to a socket that the poller does not watch.
-/

namespace Khala

variable {S : Type}

/-- The socket is open: it was opened, and `close` was not called on it. -/
def ZmqContext.IsOpen (socket : ℕ) (context : ZmqContext) : Prop :=
  socket < context.opened ∧ socket ∉ context.closed

/-- A socket that was just opened is open, and was not before. -/
theorem ZmqContext.not_isOpen_openSocket_iff {context : ZmqContext}
    (hclosed : ∀ n ∈ context.closed, n < context.opened) :
    ¬ ∀ n, context.openSocket.2.IsOpen n ↔ context.IsOpen n := by
  intro h
  have hnew : context.openSocket.2.IsOpen context.opened :=
    ⟨Nat.lt_succ_self _, fun hmem => Nat.lt_irrefl _ (hclosed _ hmem)⟩
  exact Nat.lt_irrefl _ ((h context.opened).mp hnew).1

/-- No call that `sendMessage` makes for a new socket fails. -/
def Opening.Returns (platform : Platform) (opening : Opening S) : Prop :=
  opening.Succeeds platform ∧ (platform = .jvm → opening.registers = true)

namespace Platform

/-- `sendMessage` of a platform. -/
def sendMessage : (platform : Platform) → String → ZmqMsg → Opening S → platform.ClientScope S →
    Outcome × platform.ClientScope S
  | .jvm => Jvm.ClientLoopScope.sendMessage
  | .native => Native.ClientLoopScope.sendMessage
  | .js => Js.ClientLoopScope.sendMessage

/-- The context of a scope. -/
def context : (platform : Platform) → platform.ClientScope S → ZmqContext
  | .jvm => Jvm.ClientLoopScope.context
  | .native => Native.ClientLoopScope.context
  | .js => Js.ClientLoopScope.context

/-- The sockets that a loop hears from: what is registered with JeroMQ's poller, the list that the
native `poll` is given in the next round, and the handlers of the wrapped sockets on JS. -/
def Registrations (S : Type) : Platform → Type
  | .jvm => Jvm.ZPoller S
  | .native => List ℕ
  | .js => List (ForwardSource S)

/-- The registrations that a scope stands for. -/
def registrations : (platform : Platform) → platform.ClientScope S → platform.Registrations S
  | .jvm => Jvm.ClientLoopScope.poller
  | .native => fun scope =>
    Native.allSocketsList (Native.ClientLoopScope.forwardSockets scope).toList
  | .js => Js.ClientLoopScope.handlers

variable (platform : Platform)

/-- The map, the registrations and the set of open sockets are the same in both scopes. -/
structure LeavesNoTrace (before after : platform.ClientScope S) : Prop where
  forwardSockets : (platform.ledger after).held = (platform.ledger before).held
  registrations : platform.registrations after = platform.registrations before
  isOpen_iff : ∀ n, (platform.context after).IsOpen n ↔ (platform.context before).IsOpen n

variable {platform} {address : String} {msg : ZmqMsg} {opening : Opening S}
  {scope : platform.ClientScope S}

/-- A call to an address that has a socket returns, and so does one for which no call fails. -/
theorem returned_sendMessage (h : (platform.ledger scope).held.get? address ≠ none ∨
    opening.Returns platform) :
    (platform.sendMessage address msg opening scope).1 = .returned := by
  cases hget : (platform.ledger scope).held.get? address with
  | some entry =>
    cases platform with
    | jvm => exact congrArg Prod.fst (Jvm.ClientLoopScope.sendMessage_of_get? hget msg opening)
    | native =>
      exact congrArg Prod.fst (Native.ClientLoopScope.sendMessage_of_get? hget msg opening)
    | js => exact congrArg Prod.fst (Js.ClientLoopScope.sendMessage_of_get? hget msg opening)
  | none =>
    obtain ⟨hopening, hregisters⟩ := h.resolve_left (not_not.mpr hget)
    cases platform with
    | jvm =>
      obtain ⟨_, hsend⟩ :=
        Jvm.ClientLoopScope.exists_sendMessage hget msg hopening (hregisters rfl)
      exact congrArg Prod.fst hsend
    | native =>
      obtain ⟨_, hsend⟩ := Native.ClientLoopScope.exists_sendMessage hget msg hopening
      exact congrArg Prod.fst hsend
    | js =>
      obtain ⟨_, hsend⟩ := Js.ClientLoopScope.exists_sendMessage hget msg hopening
      exact congrArg Prod.fst hsend

/-- A call to a new address for which a call fails throws, and leaves its new socket open. -/
theorem threw_sendMessage (msg : ZmqMsg)
    (hget : (platform.ledger scope).held.get? address = none)
    (hopening : ¬ opening.Returns platform) :
    (platform.sendMessage address msg opening scope).1 = .threw ∧
      platform.context (platform.sendMessage address msg opening scope).2 =
        (platform.context scope).openSocket.2 := by
  by_cases hsucceeds : opening.Succeeds platform
  -- Only JeroMQ's `register` is left to fail.
  · obtain ⟨rfl, hregisters⟩ : platform = .jvm ∧ ¬ opening.registers = true := by
      simpa [Opening.Returns, hsucceeds] using hopening
    obtain ⟨_, hsend⟩ := Jvm.ClientLoopScope.exists_sendMessage_of_not_registers hget msg hsucceeds
      (Bool.eq_false_iff.mpr hregisters)
    exact ⟨congrArg Prod.fst hsend, congrArg (fun r => r.2.context) hsend⟩
  · cases platform with
    | jvm =>
      have hsend := Jvm.ClientLoopScope.sendMessage_of_not_succeeds hget msg hsucceeds
      exact ⟨congrArg Prod.fst hsend, congrArg (fun r => r.2.context) hsend⟩
    | native =>
      have hsend := Native.ClientLoopScope.sendMessage_of_not_succeeds hget msg hsucceeds
      exact ⟨congrArg Prod.fst hsend, congrArg (fun r => r.2.context) hsend⟩
    | js =>
      have hsend := Js.ClientLoopScope.sendMessage_of_not_succeeds hget msg hsucceeds
      exact ⟨congrArg Prod.fst hsend, congrArg (fun r => r.2.context) hsend⟩

variable (platform)

/-- In every scope that calls lead to, a call of `sendMessage` that throws leaves no trace exactly
when it does not throw: the address has a socket, or no call for a new one fails. -/
theorem leavesNoTrace_iff (calls : List (ClientCall S)) (address : String) (msg : ZmqMsg)
    (opening : Opening S) :
    ((platform.sendMessage address msg opening (platform.runClient calls)).1 = .threw →
      platform.LeavesNoTrace (platform.runClient calls)
        (platform.sendMessage address msg opening (platform.runClient calls)).2) ↔
      (platform.ledger (platform.runClient calls)).held.get? address ≠ none ∨
        opening.Returns platform := by
  constructor
  · intro h
    by_contra hnot
    obtain ⟨hget, hopening⟩ := not_or.mp hnot
    obtain ⟨hthrew, hcontext⟩ := threw_sendMessage msg (not_not.mp hget) hopening
    have hclosed : ∀ n ∈ (platform.context (platform.runClient calls)).closed,
        n < (platform.context (platform.runClient calls)).opened := by
      have htracked := (platform.tracked_runClient calls).closed_lt
      cases platform <;> exact htracked
    have hopen := (h hthrew).isOpen_iff
    rw [hcontext] at hopen
    exact ZmqContext.not_isOpen_openSocket_iff hclosed hopen
  · intro h hthrew
    rw [returned_sendMessage h] at hthrew
    cases hthrew

/-- A call to a bad address leaves a socket open on the JVM, and so does one whose
`socketStateProducer` throws on native. -/
theorem leaves_trace : ¬ (∀ (calls : List (ClientCall Unit)) address msg opening,
    (Platform.jvm.sendMessage address msg opening (Platform.jvm.runClient calls)).1 = .threw →
      Platform.jvm.LeavesNoTrace (Platform.jvm.runClient calls)
        (Platform.jvm.sendMessage address msg opening (Platform.jvm.runClient calls)).2) ∧
    ¬ ∀ (calls : List (ClientCall Unit)) address msg opening,
      (Platform.native.sendMessage address msg opening
        (Platform.native.runClient calls)).1 = .threw →
      Platform.native.LeavesNoTrace (Platform.native.runClient calls)
        (Platform.native.sendMessage address msg opening (Platform.native.runClient calls)).2 := by
  refine ⟨fun h => ?_, fun h => ?_⟩
  · have htrace := h [] "bad" .new ⟨false, some (), true⟩ rfl
    exact absurd ((htrace.isOpen_iff 1).mp ⟨by decide, by decide⟩).1 (by decide)
  · have htrace := h [] "a" .new ⟨true, none, true⟩ rfl
    exact absurd ((htrace.isOpen_iff 1).mp ⟨by decide, by decide⟩).1 (by decide)

end Platform

/-- When the poller refuses a new socket, the next call to the address returns and hands its message
to that socket, for which nothing is registered. -/
theorem Jvm.ClientLoopScope.sendMessage_of_threw {scope : Jvm.ClientLoopScope S} {address : String}
    (hget : scope.forwardSockets.get? address = none) (msg msg' : ZmqMsg)
    {opening : Opening S} (opening' : Opening S) (hopening : opening.Succeeds .jvm)
    (hregisters : opening.registers = false) :
    let failed := (scope.sendMessage address msg opening).2
    failed.sendMessage address msg' opening' =
      (.returned, { failed with context := failed.context.sendTo scope.context.opened msg' }) ∧
        failed.poller = scope.poller := by
  obtain ⟨state, hsend⟩ := exists_sendMessage_of_not_registers hget msg hopening hregisters
  have hentry : (scope.sendMessage address msg opening).2.forwardSockets.get? address =
      some ⟨scope.context.opened, state⟩ := by simp [hsend]
  exact ⟨sendMessage_of_get? hentry msg' opening', by rw [hsend]⟩

end Khala
