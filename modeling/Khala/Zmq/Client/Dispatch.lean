import Mathlib.Logic.Function.Basic
import Khala.Zmq.Client.Pass

/-!
# The messages of the native client's sockets

`clientLoopJob` gives each message that it reads to the listener, with the address and the state of
the socket that it was read from. It finds these at the socket's index in a list that it took
before it waited, so that what blocks and listeners do to the socket map meanwhile does not matter:
an entry of the map is made by the `sendMessage` that opens the socket, and is never changed.

`Network` adds to the loop the messages that have arrived at its sockets and were not read.
`pairsMessages` is about all its runs. A socket is the number of the call that opened it, also after
it was closed.
-/

namespace Khala

open Transitions

section Given

variable {Block Thread : Type} {J : LoopJob Block} {K : ℕ∞}

/-- The message that a step reads, and the socket that it reads it from. -/
def Label.received? : Label J Thread → Option (J.Source × ZmqMsg)
  | .recv source msg => some (source, msg)
  | _ => none

/-- The message that a step gives to the listener. -/
def Label.listened? : Label J Thread → Option (J.Source × ZmqMsg)
  | .listen source msg => some (source, msg)
  | _ => none

/-- The message that was read and is not yet given to the listener. -/
def Pc.received? {Source : Type} : Pc Block Source → Option (Source × ZmqMsg)
  | .received source msg _ => some (source, msg)
  | _ => none

/-- Whether a step depends on what has arrived at the sockets of the listener. -/
def Label.readsInbox : Label J Thread → Bool
  | .wake _ => true
  | .recv _ _ => true
  | _ => false

/-- A step that reads no inbox receives nothing. -/
theorem Label.received?_of_readsInbox {l : Label J Thread} (h : l.readsInbox = false) :
    l.received? = none := by
  cases l with
  | recv => cases h
  | _ => rfl

/-- The messages that were read, in their order. -/
def received (tr : List (State J Thread × Label J Thread)) : List (J.Source × ZmqMsg) :=
  tr.filterMap fun a => a.2.received?

/-- The messages that were given to the listener, in their order. -/
def listened (tr : List (State J Thread × Label J Thread)) : List (J.Source × ZmqMsg) :=
  tr.filterMap fun a => a.2.listened?

/-- What the last step receives comes last. -/
@[simp] theorem received_append (tr : List (State J Thread × Label J Thread)) (s l) :
    received (tr ++ [(s, l)]) = received tr ++ l.received?.toList := by
  cases h : l.received? <;> simp [received, h]

/-- What the listener is given in the last step comes last. -/
@[simp] theorem listened_append (tr : List (State J Thread × Label J Thread)) (s l) :
    listened (tr ++ [(s, l)]) = listened tr ++ l.listened?.toList := by
  cases h : l.listened? <;> simp [listened, h]

/-- What a step does to the messages: the one that is given to the listener is the one that was
read. -/
theorem Step.given {s t : State J Thread} {l : Label J Thread} (hs : Step K s l t) :
    s.pc.received?.toList ++ l.received?.toList =
      l.listened?.toList ++ t.pc.received?.toList := by
  cases hs with
  | @refuseUser before after query resume caught hdisposed hwaiting hpc =>
    cases caught <;> simp [Label.received?, Label.listened?, Pc.received?, hpc]
  | @«return» resume hpc =>
    cases resume <;> simp [Label.received?, Label.listened?, Pc.received?, Resume.pc, hpc]
  | _ => simp_all [Label.received?, Label.listened?, Pc.received?]

/-- In every run each message that was read is given to the listener, once and in order. -/
theorem received_eq {tr : List (State J Thread × Label J Thread)} {s : State J Thread}
    (h : (J.system Thread K).Run tr s) : received tr = listened tr ++ s.pc.received?.toList := by
  induction h with
  | init => rfl
  | step _ hs ih =>
    rw [received_append, listened_append, ih, List.append_assoc, Step.given hs, List.append_assoc]

/-- A message of the pong socket goes to `handlePongSocket`. -/
theorem Step.pc_of_length_pipe {s t : State J Thread} {l : Label J Thread} (hs : Step K s l t)
    (hlt : t.pipe.length < s.pipe.length) : l = .recvPing ∧ ∃ ready, t.pc = .handlePong ready := by
  cases hs with
  | @recvPing ready msg rest hpc hpipe => exact ⟨rfl, ready, rfl⟩
  | sendPing | sendPingLoop | sendStop => simp at hlt
  | _ => exact absurd hlt (lt_irrefl _)

end Given

namespace Native

variable {Block S Thread : Type} {K : ℕ∞}

/-! ## The creation of sockets -/

/-- What a call makes the socket map say of the socket that it opens. -/
def ClientLoopScope.creation? (c : ClientCall S) (scope : ClientLoopScope S) :
    Option (ForwardSource S) :=
  match c with
  | .remove _ => none
  | .sendMessage address _ opening =>
    match scope.forwardSockets.get? address, opening.socketState with
    | none, some state =>
      some ⟨scope.context.opened, address, ⟨scope.context.opened, state⟩⟩
    | _, _ => none

/-- The creation in a step. -/
def creation? (a : State (Native.clientLoopJob Block S) Thread ×
    Label (Native.clientLoopJob Block S) Thread) : Option (ForwardSource S) :=
  match a.2 with
  | .call c => ClientLoopScope.creation? c a.1.scope
  | _ => none

/-- The sockets that were created for the map, each with the address and the state that
`sendMessage` gave it. -/
def created (tr : List (State (Native.clientLoopJob Block S) Thread ×
    Label (Native.clientLoopJob Block S) Thread)) : List (ForwardSource S) :=
  tr.filterMap creation?

/-- The handler that the last step makes comes last. -/
@[simp] theorem created_append (tr : List (State (Native.clientLoopJob Block S) Thread ×
    Label (Native.clientLoopJob Block S) Thread)) (a) :
    created (tr ++ [a]) = created tr ++ (creation? a).toList := by
  cases h : creation? a <;> simp [created, h]

/-- A new socket has the next number. -/
theorem ClientLoopScope.eq_of_creation? {c : ClientCall S} {scope : ClientLoopScope S}
    {source : ForwardSource S} (h : creation? c scope = some source) :
    source.socket = scope.context.opened ∧ source.entry.socket = source.socket ∧
      (call c scope).context.opened = scope.context.opened + 1 := by
  cases c with
  | remove address => cases h
  | sendMessage address msg opening =>
    cases hget : scope.forwardSockets.get? address with
    | some entry => simp [creation?, hget] at h
    | none =>
      cases hstate : opening.socketState with
      | none => simp [creation?, hget, hstate] at h
      | some state =>
        simp only [creation?, hget, hstate, Option.some.injEq] at h
        subst h
        simp [call, sendMessage, hget, hstate, ZmqContext.openSocket]

/-- No call takes back a number. -/
theorem ClientLoopScope.opened_le (c : ClientCall S) (scope : ClientLoopScope S) :
    scope.context.opened ≤ (call c scope).context.opened := by
  cases c with
  | remove address =>
    cases hget : scope.forwardSockets.get? address <;> simp [call, remove, hget]
  | sendMessage address msg opening =>
    cases hget : scope.forwardSockets.get? address with
    | some entry => simp [call, sendMessage_of_get? hget]
    | none =>
      cases hstate : opening.socketState <;>
        simp [call, sendMessage, hget, hstate, ZmqContext.openSocket]

/-- An entry of the map was there before the call, or is that of the socket that the call opens. -/
theorem ClientLoopScope.get?_call {c : ClientCall S} {scope : ClientLoopScope S} {address : String}
    {entry : SocketWithState S} (h : (call c scope).forwardSockets.get? address = some entry) :
    scope.forwardSockets.get? address = some entry ∨
      creation? c scope = some ⟨entry.socket, address, entry⟩ := by
  cases c with
  | remove address' =>
    rw [call, forwardSockets_remove, LinkedHashMap.get?_remove] at h
    split_ifs at h
    exact .inl h
  | sendMessage address' msg opening =>
    cases hget : scope.forwardSockets.get? address' with
    | some entry' =>
      rw [call, sendMessage_of_get? hget] at h
      exact .inl h
    | none =>
      cases hstate : opening.socketState with
      | none =>
        simp only [call, sendMessage, hget, hstate] at h
        exact .inl h
      | some state =>
        simp only [call, sendMessage, hget, hstate, LinkedHashMap.get?_put] at h
        split_ifs at h with haddress
        · obtain rfl := Option.some.inj h
          subst haddress
          simp only [creation?, hget, hstate]
          exact .inr rfl
        · exact .inl h

/-- The sockets of the map, and those that the running pass has still to deal with, are listed in
`sockets` with the addresses and states that they were created with. -/
structure Knows (sockets : List (ForwardSource S))
    (s : State (Native.clientLoopJob Block S) Thread) : Prop where
  socket_eq : ∀ source ∈ sockets, source.entry.socket = source.socket
  lt_opened : ∀ source ∈ sockets, source.socket < (ClientLoopScope.context s.scope).opened
  pong_lt : ∀ source ∈ sockets, pongSocket < source.socket
  opened : pongSocket < (ClientLoopScope.context s.scope).opened
  nodup : (sockets.map ForwardSource.socket).Nodup
  entries : ∀ address entry,
    (ClientLoopScope.forwardSockets s.scope).get? address = some entry →
      ⟨entry.socket, address, entry⟩ ∈ sockets
  pass : ∀ source, .socket source ∈ s.pc.pending → source ∈ sockets

/-- A call adds the socket that it opens to those that are known. -/
theorem Knows.call {sockets : List (ForwardSource S)}
    {s : State (Native.clientLoopJob Block S) Thread} (h : Knows sockets s) (c : ClientCall S) :
    Knows (sockets ++ (ClientLoopScope.creation? c s.scope).toList)
      { s with scope := ClientLoopScope.call c s.scope } := by
  have hle := ClientLoopScope.opened_le c s.scope
  cases hcreation : ClientLoopScope.creation? c s.scope with
  | none =>
    rw [Option.toList_none, List.append_nil]
    refine { h with lt_opened := ?_, opened := h.opened.trans_le hle, entries := ?_ }
    · exact fun source hmem => (h.lt_opened source hmem).trans_le hle
    · intro address entry hget
      obtain hget | hnew := ClientLoopScope.get?_call hget
      · exact h.entries address entry hget
      · cases hcreation.symm.trans hnew
  | some new =>
    obtain ⟨hsocket, hentry, hopened⟩ := ClientLoopScope.eq_of_creation? hcreation
    rw [Option.toList_some]
    constructor
    · exact List.forall_mem_append.mpr ⟨h.socket_eq, List.forall_mem_singleton.mpr hentry⟩
    · refine List.forall_mem_append.mpr ⟨fun source hmem => ?_, ?_⟩
      · exact (h.lt_opened source hmem).trans_le hle
      · refine List.forall_mem_singleton.mpr ?_
        rw [hopened, hsocket]
        exact Nat.lt_succ_self _
    · refine List.forall_mem_append.mpr ⟨h.pong_lt, List.forall_mem_singleton.mpr ?_⟩
      exact hsocket ▸ h.opened
    · exact h.opened.trans_le hle
    · rw [List.map_append, List.nodup_append]
      refine ⟨h.nodup, List.nodup_singleton _, ?_⟩
      -- The numbers of the sockets before are smaller.
      intro n hn m hm heq
      obtain ⟨source, hmem, rfl⟩ := List.mem_map.mp hn
      obtain rfl := List.mem_singleton.mp hm
      exact absurd (h.lt_opened source hmem) (by rw [heq, hsocket]; exact lt_irrefl _)
    · intro address entry hget
      obtain hget | hnew := ClientLoopScope.get?_call hget
      · exact List.mem_append_left _ (h.entries address entry hget)
      · obtain rfl := Option.some.inj (hcreation.symm.trans hnew)
        exact List.mem_append_right _ (List.mem_singleton_self _)
    · exact fun source hmem => List.mem_append_left _ (h.pass source hmem)

/-- A step keeps the sockets known, with the one that it opens. -/
theorem Knows.step {sockets : List (ForwardSource S)}
    {s t : State (Native.clientLoopJob Block S) Thread}
    {l : Label (Native.clientLoopJob Block S) Thread} (h : Knows sockets s) (hs : Step K s l t) :
    Knows (sockets ++ (creation? (s, l)).toList) t := by
  have hsub := hs.pending_subset
  cases hs with
  | call c => exact h.call c
  | wake _ _ _ hready =>
    -- The pass takes its sockets from the map.
    obtain ⟨readable, rfl⟩ := hready
    simp only [creation?, Option.toList_none, List.append_nil]
    refine { h with pass := fun source hmem => ?_ }
    obtain ⟨hget, hsocket⟩ := ClientLoopScope.current_of_mem_handedOver hmem
    have hknown := h.entries source.address source.entry hget
    rwa [hsocket] at hknown
  -- The other steps leave the map alone, and drop sockets from the pass at most.
  | _ =>
    simp only [creation?, Option.toList_none, List.append_nil]
    exact { h with pass := fun source hmem => h.pass source (hsub (by simp) hmem) }

section Runs

variable {tr : List (State (Native.clientLoopJob Block S) Thread ×
  Label (Native.clientLoopJob Block S) Thread)} {s : State (Native.clientLoopJob Block S) Thread}

/-- The sockets of a run are known. -/
theorem knows (h : ((Native.clientLoopJob Block S).system Thread K).Run tr s) :
    Knows (created tr) s := by
  induction h with
  | init =>
    exact ⟨nofun, nofun, nofun, Nat.zero_lt_one, List.nodup_nil, nofun, nofun⟩
  | step _ hs ih =>
    rw [created_append]
    exact ih.step hs

/-- A message is read from a socket that was created before, and with the address and the state that
it was created with. -/
theorem mem_created_of_received (h : ((Native.clientLoopJob Block S).system Thread K).Run tr s) :
    ∀ x ∈ received tr, x.1 ∈ created tr := by
  induction h with
  | init => exact nofun
  | @step tr s t l hr hs ih =>
    rw [received_append, created_append]
    refine List.forall_mem_append.mpr ⟨fun x hx => List.mem_append_left _ (ih x hx), ?_⟩
    cases hs with
    | @recv source msg ready hpc =>
      refine List.forall_mem_singleton.mpr (List.mem_append_left _ ((knows hr).pass source ?_))
      rw [hpc]
      exact List.mem_cons_self
    | _ => exact nofun

end Runs

/-! ## The network -/

/-- The native client loop, with the messages that have arrived at its forward sockets and were not
read. -/
structure Network (Block S Thread : Type) where
  loop : State (Native.clientLoopJob Block S) Thread
  /-- The messages that a socket has not handed out, the oldest first. -/
  inbox : ℕ → List ZmqMsg

/-- What can happen. -/
inductive NetworkLabel (Block S Thread : Type)
  /-- A message arrives at a forward socket. -/
  | arrive (socket : ℕ) (msg : ZmqMsg)
  /-- The loop, or a thread that calls it, does something. -/
  | loop (l : Label (Native.clientLoopJob Block S) Thread)

/-- One step. `poll` finds a forward socket ready if it has a message, and a read takes the oldest
one. -/
inductive NetworkStep (K : ℕ∞) :
    Network Block S Thread → NetworkLabel Block S Thread → Network Block S Thread → Prop
  | arrive {s : Network Block S Thread} (socket : ℕ) (msg : ZmqMsg) :
      NetworkStep K s (.arrive socket msg)
        { s with inbox := Function.update s.inbox socket (s.inbox socket ++ [msg]) }
  | wake {s : Network Block S Thread} {ready : List (Watched (ForwardSource S))}
      {loop : State (Native.clientLoopJob Block S) Thread} :
      Step K s.loop (.wake ready) loop →
      (∀ source, .socket source ∈ ready → s.inbox source.socket ≠ []) →
      NetworkStep K s (.loop (.wake ready)) { s with loop }
  | recv {s : Network Block S Thread} {source : ForwardSource S} {msg : ZmqMsg}
      {rest : List ZmqMsg} {loop : State (Native.clientLoopJob Block S) Thread} :
      Step K s.loop (.recv source msg) loop → s.inbox source.socket = msg :: rest →
      NetworkStep K s (.loop (.recv source msg))
        { loop, inbox := Function.update s.inbox source.socket rest }
  | other {s : Network Block S Thread} {l : Label (Native.clientLoopJob Block S) Thread}
      {loop : State (Native.clientLoopJob Block S) Thread} :
      Step K s.loop l loop → l.readsInbox = false → NetworkStep K s (.loop l) { s with loop }

/-- The native client loop from its creation on. -/
def network (Block S Thread : Type) (K : ℕ∞) :
    System (Network Block S Thread) (NetworkLabel Block S Thread) where
  init := ⟨State.initial (Native.clientLoopJob Block S) Thread, fun _ => []⟩
  step := NetworkStep K

/-- What the loop does in a step. -/
def NetworkLabel.loop? : NetworkLabel Block S Thread →
    Option (Label (Native.clientLoopJob Block S) Thread)
  | .arrive _ _ => none
  | .loop l => some l

/-- The message that arrives at the socket in a step. -/
def NetworkLabel.arrived? (socket : ℕ) : NetworkLabel Block S Thread → Option ZmqMsg
  | .arrive n msg => if n = socket then some msg else none
  | .loop _ => none

/-- The steps of the loop. -/
def loopSteps (tr : List (Network Block S Thread × NetworkLabel Block S Thread)) :
    List (State (Native.clientLoopJob Block S) Thread ×
      Label (Native.clientLoopJob Block S) Thread) :=
  tr.filterMap fun a => a.2.loop?.map fun l => (a.1.loop, l)

/-- The messages that arrived at a socket, in their order. -/
def arrived (socket : ℕ) (tr : List (Network Block S Thread × NetworkLabel Block S Thread)) :
    List ZmqMsg :=
  tr.filterMap fun a => a.2.arrived? socket

/-- The messages that were read from a socket, in their order. -/
def receivedFrom (socket : ℕ) (tr : List (State (Native.clientLoopJob Block S) Thread ×
    Label (Native.clientLoopJob Block S) Thread)) : List ZmqMsg :=
  ((received tr).filter fun x => x.1.socket = socket).map Prod.snd

section Runs

variable {tr : List (Network Block S Thread × NetworkLabel Block S Thread)}
  {s t : Network Block S Thread} {l : NetworkLabel Block S Thread}

/-- The step of the loop comes last, if the last step is one. -/
@[simp] theorem loopSteps_append : loopSteps (tr ++ [(s, l)]) =
    loopSteps tr ++ (l.loop?.map fun l => (s.loop, l)).toList := by
  cases l <;> simp [loopSteps, NetworkLabel.loop?]

/-- What arrives in the last step comes last. -/
@[simp] theorem arrived_append (socket : ℕ) :
    arrived socket (tr ++ [(s, l)]) = arrived socket tr ++ (l.arrived? socket).toList := by
  cases h : l.arrived? socket <;> simp [arrived, h]

/-- The loop does not see the network. -/
theorem NetworkStep.loop_step (hs : NetworkStep K s l t)
    {l' : Label (Native.clientLoopJob Block S) Thread} (hl : l.loop? = some l') :
    Step K s.loop l' t.loop := by
  cases hs with
  | arrive => cases hl
  | wake hs | recv hs | other hs =>
    obtain rfl := Option.some.inj hl
    exact hs

/-- The loop takes its own steps. -/
theorem loop_run (h : (network Block S Thread K).Run tr s) :
    ((Native.clientLoopJob Block S).system Thread K).Run (loopSteps tr) s.loop := by
  refine h.project Network.loop NetworkLabel.loop? rfl (fun hs hl => ?_)
    fun hs hl => NetworkStep.loop_step hs hl
  cases hs with
  | arrive => rfl
  | wake | recv | other => cases hl

/-- What the last step receives from a socket comes last. -/
@[simp] theorem receivedFrom_append (socket : ℕ)
    (tr : List (State (Native.clientLoopJob Block S) Thread ×
      Label (Native.clientLoopJob Block S) Thread)) (s l) :
    receivedFrom socket (tr ++ [(s, l)]) = receivedFrom socket tr ++
      ((l.received?.toList.filter fun x => x.1.socket = socket).map Prod.snd) := by
  simp [receivedFrom]

/-- What a step does to the messages of a socket: one that arrives goes last, and the one that is
read was the first. -/
theorem NetworkStep.inbox (hs : NetworkStep K s l t) (socket : ℕ) :
    s.inbox socket ++ (l.arrived? socket).toList =
      ((l.loop?.bind Label.received?).toList.filter fun x => x.1.socket = socket).map Prod.snd ++
        t.inbox socket := by
  cases hs with
  | arrive n msg =>
    by_cases hn : n = socket
    · subst hn
      simp [NetworkLabel.arrived?, NetworkLabel.loop?]
    · simp [NetworkLabel.arrived?, NetworkLabel.loop?, hn, Ne.symm hn]
  | wake => simp [NetworkLabel.arrived?, NetworkLabel.loop?, Label.received?]
  | @recv source msg rest loop _ hinbox =>
    by_cases hsource : source.socket = socket
    · subst hsource
      simp [NetworkLabel.arrived?, NetworkLabel.loop?, Label.received?, hinbox]
    · simp [NetworkLabel.arrived?, NetworkLabel.loop?, Label.received?, hsource, Ne.symm hsource]
  | other _ hl =>
    simp [NetworkLabel.arrived?, NetworkLabel.loop?, Label.received?_of_readsInbox hl]

/-- The messages that arrived at a socket are those that were read from it and those that were
not, in order. -/
theorem arrived_eq (h : (network Block S Thread K).Run tr s) (socket : ℕ) :
    arrived socket tr = receivedFrom socket (loopSteps tr) ++ s.inbox socket := by
  induction h with
  | init => rfl
  | @step tr s t l _ hs ih =>
    rw [arrived_append, ih, List.append_assoc, NetworkStep.inbox hs socket, loopSteps_append]
    cases l <;> simp [NetworkLabel.loop?]

end Runs

/-! ## The pairing -/

/-- Each index of the poll list leads to a handler, and but for the pong socket's the index less one
is in the range of the entry list. -/
theorem onMsg_in_range {forwardSocketsList : List (String × SocketWithState S)} {i : ℕ}
    (hi : i < (allSocketsList forwardSocketsList).length) :
    onMsg forwardSocketsList i ≠ none ∧ (i ≠ 0 → i - 1 < forwardSocketsList.length) := by
  have hlength : (allSocketsList forwardSocketsList).length = forwardSocketsList.length + 1 := by
    simp [allSocketsList]
  constructor
  · rw [onMsg_eq_getElem?]
    simp only [ne_eq, List.getElem?_eq_none_iff, watched, List.length_cons, List.length_map]
    omega
  · omega

/-- A pass has a handler for each index that is ready, and finds the entries in range. -/
theorem exists_indices {s t : State (Native.clientLoopJob Block S) Thread}
    {ready : List (Watched (ForwardSource S))} (hs : Step K s (.wake ready) t) :
    ∃ indices : List ℕ,
      ready.map some = indices.map (onMsg (ClientLoopScope.forwardSockets s.scope).toList) ∧
      ∀ i ∈ indices, i ≠ 0 → i - 1 < (ClientLoopScope.forwardSockets s.scope).toList.length := by
  cases hs with
  | wake _ _ _ hready =>
    obtain ⟨readable, rfl⟩ := hready
    generalize (ClientLoopScope.forwardSockets s.scope).toList = forwardSocketsList
    have hrange : ∀ i ∈ (List.range (allSocketsList forwardSocketsList).length).filter readable,
        i < (allSocketsList forwardSocketsList).length :=
      fun i hi => List.mem_range.mp (List.mem_of_mem_filter hi)
    refine ⟨_, ?_, fun i hi => (onMsg_in_range (hrange i hi)).2⟩
    -- No index is dropped.
    rw [handedOver, List.map_filterMap_some_eq_filter_map_isSome, List.filter_eq_self]
    intro handler hhandler
    obtain ⟨i, hi, rfl⟩ := List.mem_map.mp hhandler
    exact Option.isSome_iff_ne_none.mpr (onMsg_in_range (hrange i hi)).1

/-- What the run `tr` of the network to `s` makes of the messages. -/
structure PairsMessages (K : ℕ∞) (tr : List (Network Block S Thread × NetworkLabel Block S Thread))
    (s : Network Block S Thread) : Prop where
  /-- The listener is given the messages that were read, each once and in order, and the last one
  may be still to be given. -/
  given : received (loopSteps tr) = listened (loopSteps tr) ++ s.loop.pc.received?.toList
  /-- Then it is given next. -/
  given_next : ∀ source msg ready, s.loop.pc = .received source msg ready →
    ∃ t, NetworkStep K s (.loop (.listen source msg)) t
  /-- It is given the address and the state that the socket was created with. -/
  created : ∀ x ∈ received (loopSteps tr), x.1 ∈ created (loopSteps tr)
  /-- It is given the socket that was read. -/
  socket_eq : ∀ x ∈ received (loopSteps tr), x.1.entry.socket = x.1.socket
  /-- No socket was created twice. -/
  created_once : ((Native.created (loopSteps tr)).map ForwardSource.socket).Nodup
  /-- The messages of each socket are read in the order in which they arrived. -/
  order : ∀ socket, arrived socket tr = receivedFrom socket (loopSteps tr) ++ s.inbox socket
  /-- No message of the pong socket goes to the listener. -/
  not_pong : ∀ x ∈ received (loopSteps tr), x.1.socket ≠ pongSocket
  /-- The messages of the pong socket go to `handlePongSocket`. -/
  pong : ∀ l t, NetworkStep K s l t → t.loop.pipe.length < s.loop.pipe.length →
    l = .loop .recvPing ∧ ∃ ready, t.loop.pc = .handlePong ready
  /-- Every index that `poll` finds ready leads to a handler, and the entry that is looked up at the
  index less one is there. -/
  in_range : ∀ ready t, NetworkStep K s (.loop (.wake ready)) t → ∃ indices : List ℕ,
    ready.map some =
      indices.map (onMsg (ClientLoopScope.forwardSockets s.loop.scope).toList) ∧
    ∀ i ∈ indices, i ≠ 0 → i - 1 < (ClientLoopScope.forwardSockets s.loop.scope).toList.length

/-- In every run of the native client loop, whatever arrives and whatever is sent and removed, each
message is paired with its own connection. -/
theorem pairsMessages {tr : List (Network Block S Thread × NetworkLabel Block S Thread)}
    {s : Network Block S Thread} (h : (network Block S Thread K).Run tr s) :
    PairsMessages K tr s := by
  have hloop := loop_run h
  have hknows := knows hloop
  have hcreated := mem_created_of_received hloop
  constructor
  · exact received_eq hloop
  · exact fun source msg ready hpc => ⟨_, .other (.listen hpc) rfl⟩
  · exact hcreated
  · exact fun x hx => hknows.socket_eq _ (hcreated x hx)
  · exact hknows.nodup
  · exact arrived_eq h
  · exact fun x hx => (hknows.pong_lt _ (hcreated x hx)).ne'
  · intro l t hs hlt
    cases hs with
    | arrive => exact absurd hlt (lt_irrefl _)
    | wake hs | recv hs | other hs =>
      obtain ⟨hl, hpc⟩ := hs.pc_of_length_pipe hlt
      exact ⟨congrArg NetworkLabel.loop hl, hpc⟩
  · exact fun ready t hs => exists_indices (hs.loop_step rfl)

/-- A native client that is sent a message at the address `"a"`, and whose listener replaces the
socket of that address while it has the message. -/
theorem pairsMessages_replaced : ∃ tr s, (network Unit ℕ Unit 1).Run tr s ∧
    (listened (loopSteps tr)).map (fun x => (x.1.address, x.1.entry.state)) = [("a", 7)] ∧
    (created (loopSteps tr)).map (fun x => x.entry.state) = [7, 8] ∧ PairsMessages 1 tr s := by
  have h₁ := (System.Run.init (S := network Unit ℕ Unit 1)).step
    (.other (.invokeSafe () () (by simp [State.Busy, State.initial, network])) rfl)
  have h₂ := h₁.step (.other (.addLast [] [] rfl rfl rfl) rfl)
  have h₃ := h₂.step (.other (.sendPing rfl (by decide)) rfl)
  have h₄ := h₃.step (.other (.readClock 0 rfl rfl) rfl)
  have h₅ := h₄.step (.other (.enterPoll rfl (.inl rfl)) rfl)
  have h₆ := h₅.step (.wake (.wake [.pong] rfl (List.cons_ne_nil _ _) ⟨fun i => i == 0, rfl⟩
    fun _ => List.cons_ne_nil _ _) (by rintro _ (_ | ⟨_, ⟨⟩⟩)))
  have h₇ := h₆.step (.other (.recvPing rfl rfl) rfl)
  have h₈ := h₇.step (.other (.removeFirst [] [] rfl rfl rfl rfl rfl) rfl)
  have h₉ := h₈.step (.other (.runBlock rfl) rfl)
  have h₁₀ := h₉.step (.other
    (.call (ClientCall.sendMessage "a" ⟨[[1]]⟩ ⟨true, some 7, true⟩) rfl) rfl)
  have h₁₁ := h₁₀.step (.other (.return rfl) rfl)
  have h₁₂ := h₁₁.step (.other (.endPass rfl) rfl)
  have h₁₃ := h₁₂.step (.other (.readClock 0 rfl rfl) rfl)
  have h₁₄ := h₁₃.step (.other (.enterPoll rfl (.inl rfl)) rfl)
  have h₁₅ := h₁₄.step (.arrive 1 ⟨[[1]]⟩)
  have h₁₆ := h₁₅.step (.wake (.wake [.socket (⟨1, "a", ⟨1, 7⟩⟩ : ForwardSource ℕ)] rfl
    (List.cons_ne_nil _ _) ⟨fun i => i == 1, rfl⟩ (by rintro (_ | ⟨_, ⟨⟩⟩))) (by
      rintro _ (_ | ⟨_, ⟨⟩⟩)
      exact List.cons_ne_nil _ _))
  have h₁₇ := h₁₆.step (.recv (.recv ⟨[[1]]⟩ rfl) rfl)
  have h₁₈ := h₁₇.step (.other (.listen rfl) rfl)
  have h₁₉ := h₁₈.step (.other (.call (ClientCall.remove "a") rfl) rfl)
  have h₂₀ := h₁₉.step (.other
    (.call (ClientCall.sendMessage "a" ⟨[[1]]⟩ ⟨true, some 8, true⟩) rfl) rfl)
  exact ⟨_, _, h₂₀, rfl, rfl, pairsMessages h₂₀⟩

end Native

end Khala
