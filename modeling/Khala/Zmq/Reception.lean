import Khala.Zmq.Client.Sources
import Khala.Zmq.Progress

/-!
# The messages are heard

`Progress.lean` says that the blocks and the timers of a loop come to be run. This module says the
same of the third thing that a loop does: in a fair execution each message that waits at a socket
that `poll` watches is given to the listener (`every_message_heard`), after those that came to this
socket before it.

A pass hands a socket that is ready to its handler before it ends, which reads one message. So every
round brings one message less, if `poll` does not overlook a socket: that is what `Arrivals` assumes
of it. Which sockets `poll` watches is read off the scope: the router of a server always, and a
socket of a client as long as it is in the map (native), or its handler is registered (JVM).
-/

namespace Khala

open Transitions System

variable {Block Thread : Type} {J : LoopJob Block} {K : ℕ∞}

/-! ## What `poll` watches -/

/-- With this scope `poll` can hand over the socket. -/
def LoopJob.Watches (J : LoopJob Block) (scope : J.Scope) (x : J.Source) : Prop :=
  ∃ ready, J.HandsOver scope ready ∧ .socket x ∈ ready

/-- `poll` watches the router of a JVM server always. -/
theorem Jvm.watches_server (scope : ServerLoopScope) :
    (Jvm.serverLoopJob Block).Watches scope () :=
  ⟨serverSockets, List.Subperm.refl _, List.mem_cons_of_mem _ (List.mem_singleton_self _)⟩

/-- `poll` watches the router of a native server always. -/
theorem Native.watches_server (scope : ServerLoopScope) :
    (Native.serverLoopJob Block).Watches scope () :=
  ⟨serverSockets, List.Sublist.refl _, List.mem_cons_of_mem _ (List.mem_singleton_self _)⟩

/-- `poll` watches a JVM client's socket while its handler is registered. -/
theorem Jvm.watches_client_iff {S : Type} {scope : Jvm.ClientLoopScope S} {x : ForwardSource S} :
    (Jvm.clientLoopJob Block S).Watches scope x ↔ scope.poller.Handles x := by
  constructor
  · rintro ⟨_, ⟨keys, -, rfl⟩, hx⟩
    obtain ⟨key, -, hkey⟩ := List.mem_filterMap.mp hx
    exact ⟨key, hkey⟩
  · rintro ⟨key, hkey⟩
    refine ⟨[.socket x], ⟨[key], List.nodup_singleton _, ?_⟩, List.mem_singleton_self _⟩
    exact List.filterMap_cons_some hkey

/-- `poll` watches a native client's socket while it is in the map. -/
theorem Native.watches_client_iff {S : Type} {scope : Native.ClientLoopScope S}
    {x : ForwardSource S} : (Native.clientLoopJob Block S).Watches scope x ↔ scope.Current x := by
  constructor
  · rintro ⟨_, ⟨readable, rfl⟩, hx⟩
    exact Native.ClientLoopScope.current_of_mem_handedOver hx
  · rintro ⟨hget, hsocket⟩
    refine ⟨_, ⟨fun _ => true, rfl⟩, ?_⟩
    have hmem : .socket x ∈ Native.watched scope.forwardSockets.toList := by
      refine List.mem_cons_of_mem _ (List.mem_map.mpr ⟨_, LinkedHashMap.mem_toList.mpr hget, ?_⟩)
      rw [hsocket]
    obtain ⟨i, hi⟩ := List.mem_iff_getElem?.mp hmem
    have honMsg := (Native.onMsg_eq_getElem? _ _).trans hi
    have hlt : i < (Native.allSocketsList scope.forwardSockets.toList).length := by
      have hlt := (List.getElem?_eq_some_iff.mp hi).1
      simpa [Native.watched, Native.allSocketsList] using hlt
    exact List.mem_filterMap.mpr ⟨i, by simpa using hlt, honMsg⟩

/-- The sockets other than the pong socket that the loop job of a variant has registered or put into
its list. -/
def Variant.Registers (Block S : Type) : (variant : Variant) → (variant.job Block S).Scope →
    (variant.job Block S).Source → Prop
  | .jvmClient => fun (scope : Jvm.ClientLoopScope S) x => scope.poller.Handles x
  | .jvmServer => fun _ _ => True
  | .nativeClient => fun (scope : Native.ClientLoopScope S) x => scope.Current x
  | .nativeServer => fun _ _ => True

/-- They are the ones that `poll` watches. -/
theorem Variant.watches_iff {S : Type} (variant : Variant) (scope : (variant.job Block S).Scope)
    (x : (variant.job Block S).Source) :
    (variant.job Block S).Watches scope x ↔ variant.Registers Block S scope x := by
  cases variant with
  | jvmClient => exact Jvm.watches_client_iff
  | jvmServer => exact iff_true_intro (Jvm.watches_server scope)
  | nativeClient => exact Native.watches_client_iff
  | nativeServer => exact iff_true_intro (Native.watches_server scope)

/-! ## Passes and their sockets -/

section Steps

variable {s t : State J Thread} {l : Label J Thread}

/-- A pass that has a socket to deal with has some way to go. -/
theorem Pc.exists_passLeft {Source : Type} {pc : Pc Block Source} {a : Watched Source}
    (h : a ∈ pc.pending) : ∃ k, pc.passLeft = some k := by
  cases pc with
  | pass | handlePong | removed | received => exact ⟨_, rfl⟩
  | user resume | blocked resume =>
    cases resume with
    | pass => exact ⟨_, rfl⟩
    | timers => cases h
  | _ => cases h

/-- A socket that a pass has still to deal with is so until its message is given to the listener. -/
theorem Step.of_pending (hs : Step K s l t) {x : J.Source} (h : .socket x ∈ s.pc.pending)
    (hnot : .socket x ∉ t.pc.pending) : (∃ msg, l = .listen x msg) ∨ t.pc.Dead := by
  cases hs with
  | @listen source msg ready hpc =>
    simp only [hpc, Pc.pending, List.mem_cons] at h
    obtain h | h := h
    · exact .inl ⟨msg, by rw [Watched.socket.inj h]⟩
    · exact absurd h hnot
  | recvFails | removeFirstEmpty | refusePong => exact .inr (.inr ⟨_, rfl⟩)
  | @refuseUser _ _ _ resume caught _ _ hpc =>
    cases caught with
    | false => exact .inr (.inr ⟨_, rfl⟩)
    | true => simp_all
  | @«return» resume hpc => cases resume <;> simp_all [Resume.pc]
  | _ => simp_all

end Steps

section Executions

variable {e : (J.system Thread K).Execution} {n : ℕ} {x : J.Source}

/-- A socket that is ready is read from in the pass, and its message is given to the listener. -/
theorem Fair.exists_listen (he : Fair e) (h : .socket x ∈ (e.state n).pc.pending) :
    ∃ m ≥ n, ∃ msg, e.label m = .listen x msg := by
  obtain ⟨k, hk⟩ := Pc.exists_passLeft h
  obtain ⟨m, hm, hend⟩ := he.exists_endPass hk
  have htop : (e.state (m + 1)).pc = .top := Step.pc_endPass (hend ▸ e.step m)
  obtain ⟨i, hi, hin, hout⟩ := exists_leaving (fun i => .socket x ∈ (e.state i).pc.pending) h
    (by omega : n ≤ m + 1) (by simp [htop])
  exact ⟨i, hi, (Step.of_pending (e.step i) hin hout).resolve_right (he.not_dead _)⟩

/-! ## The messages of a socket -/

open Classical in
/-- The messages of a socket among messages of all sockets. -/
noncomputable def messagesOf {Source : Type} (x : Source) (msgs : List (Source × ZmqMsg)) :
    List ZmqMsg :=
  msgs.filterMap fun a => if a.1 = x then some a.2 else none

/-- The messages of a socket among later messages come later. -/
@[simp]
theorem messagesOf_append {Source : Type} (x : Source) (msgs msgs' : List (Source × ZmqMsg)) :
    messagesOf x (msgs ++ msgs') = messagesOf x msgs ++ messagesOf x msgs' :=
  List.filterMap_append

/-- The one message of a socket. -/
theorem messagesOf_singleton_self {Source : Type} (x : Source) (msg : ZmqMsg) :
    messagesOf x [(x, msg)] = [msg] := by
  simp [messagesOf]

/-- A socket has no messages if none of them is its own. -/
theorem messagesOf_eq_nil_iff {Source : Type} {x : Source} {msgs : List (Source × ZmqMsg)} :
    messagesOf x msgs = [] ↔ ∀ msg, (x, msg) ∉ msgs := by
  simp only [messagesOf, List.filterMap_eq_nil_iff, Prod.forall]
  constructor
  · intro h msg hmem
    simpa using h x msg hmem
  · intro h y msg hmem
    rw [if_neg]
    rintro rfl
    exact h msg hmem

variable {inbox : ℕ → List ZmqMsg}

/-- The messages that wait at a socket, the oldest first: they are read from the front, and arrive
at the end. -/
def Arrivals (e : (J.system Thread K).Execution) (x : J.Source) (inbox : ℕ → List ZmqMsg) : Prop :=
  ∀ n, ∃ new, inbox n ++ new = messagesOf x (e.label n).received?.toList ++ inbox (n + 1)

/-- `poll` watches the socket from some time on, and finds the messages that wait there. -/
structure Polls (e : (J.system Thread K).Execution) (x : J.Source) (inbox : ℕ → List ZmqMsg) :
    Prop where
  watches : ∃ m, ∀ n ≥ m, J.Watches (e.state n).scope x
  reports : ∀ n ready, e.label n = .wake ready → J.Watches (e.state n).scope x →
    inbox n ≠ [] → .socket x ∈ ready
  timeout : ∀ n, e.label n = .timeout → J.Watches (e.state n).scope x → inbox n = []
  waits : ∀ n, J.Watches (e.state n).scope x → inbox n ≠ [] → ∃ m ≥ n, ¬ (e.state m).Polling

/-- The socket of a message in the loop thread's hands is one that the pass has to deal with. -/
theorem Pc.mem_pending_of_received {Source : Type} {pc : Pc Block Source} {x : Source}
    {msg : ZmqMsg} (h : pc.received? = some (x, msg)) : .socket x ∈ pc.pending := by
  cases pc <;> simp_all [Pc.received?]

/-- If messages wait for ever at a socket that `poll` watches, then a wait in `poll` ends with a
pass over this socket. -/
theorem Fair.exists_pending (he : Fair e) (hpolls : Polls e x inbox)
    (hinbox : ∀ m ≥ n, inbox m ≠ []) : ∃ m ≥ n, .socket x ∈ (e.state m).pc.pending := by
  obtain ⟨N, hwatch⟩ := hpolls.watches
  have hwait : ∀ k, ∃ m ≥ k, ¬ (e.state m).Polling := by
    intro k
    obtain ⟨m, hm, hnot⟩ := hpolls.waits (max k (max n N)) (hwatch _ (by omega))
      (hinbox _ (by omega))
    exact ⟨m, by omega, hnot⟩
  obtain ⟨i, hi, hend⟩ := he.exists_endPass_of_wait hwait (max n N)
  obtain ⟨k, hk, now, -, htimers⟩ := he.exists_readClock (Step.pc_endPass (hend ▸ e.step i))
  obtain ⟨j, hj, hpolling⟩ := he.exists_polling (.inl htimers)
  obtain ⟨m, hm, hnot⟩ := hwait j
  obtain ⟨w, hw, hbefore, hafter⟩ := exists_leaving (fun i => (e.state i).pc = .polling now)
    hpolling hm fun hpc => hnot ⟨now, hpc⟩
  obtain ⟨ready, hpass, htimeout | hwake⟩ := Step.of_polling (e.step w) hbefore hafter
  · exact absurd (hpolls.timeout w htimeout (hwatch w (by omega))) (hinbox w (by omega))
  · have hready := hpolls.reports w ready hwake (hwatch w (by omega)) (hinbox w (by omega))
    exact ⟨w + 1, by omega, by simpa [hpass] using hready⟩

/-- As long as there is a message of a socket, the listener comes to be given one. -/
theorem Fair.exists_listen_of_ne_nil (he : Fair e) (hin : Arrivals e x inbox)
    (hpolls : Polls e x inbox)
    (h : messagesOf x (e.state n).pc.received?.toList ++ inbox n ≠ []) :
    ∃ m ≥ n, ∃ msg, e.label m = .listen x msg := by
  by_contra hnone
  have hpending : ∀ m ≥ n, .socket x ∉ (e.state m).pc.pending := fun m hm hmem => by
    obtain ⟨k, hk, hlisten⟩ := he.exists_listen hmem
    exact hnone ⟨k, hm.trans hk, hlisten⟩
  have hheld : ∀ m ≥ n, messagesOf x (e.state m).pc.received?.toList = [] := fun m hm =>
    messagesOf_eq_nil_iff.mpr fun msg hmem =>
      hpending m hm (Pc.mem_pending_of_received (by simpa using hmem))
  -- No message is read from the socket, so that those that wait there stay.
  have hinbox : ∀ m ≥ n, inbox m ≠ [] := by
    refine Nat.le_induction (by simpa [hheld n le_rfl] using h) fun m hm ih hnil => ?_
    have hgiven := congrArg (messagesOf x) (Step.given (e.step m))
    rw [messagesOf_append, messagesOf_append, hheld m hm, hheld (m + 1) (by omega),
      List.append_nil, List.nil_append] at hgiven
    have hlistened : messagesOf x (e.label m).listened?.toList = [] := by
      refine messagesOf_eq_nil_iff.mpr fun msg hmem => hnone ⟨m, hm, msg, ?_⟩
      cases hl : e.label m <;> simp_all [Label.listened?]
    obtain ⟨new, hnew⟩ := hin m
    rw [hgiven, hlistened, hnil] at hnew
    exact ih (List.append_eq_nil_iff.mp hnew).1
  obtain ⟨m, hm, hmem⟩ := he.exists_pending hpolls hinbox
  exact hpending m hm hmem

/-- What had come to a socket by a time: what was read from it, and what waits there. -/
noncomputable def arrivedBy (e : (J.system Thread K).Execution) (x : J.Source)
    (inbox : ℕ → List ZmqMsg) (n : ℕ) : List ZmqMsg :=
  messagesOf x (received (e.take n)) ++ inbox n

/-- What the listener was given of a socket by a time. -/
noncomputable def heardBy (e : (J.system Thread K).Execution) (x : J.Source) (n : ℕ) :
    List ZmqMsg :=
  messagesOf x (listened (e.take n))

/-- What has come to a socket stays there or was read. -/
theorem Arrivals.arrivedBy_mono (hin : Arrivals e x inbox) {m : ℕ} (hm : n ≤ m) :
    arrivedBy e x inbox n <+: arrivedBy e x inbox m := by
  induction m, hm using Nat.le_induction with
  | base => exact List.prefix_refl _
  | succ m _ ih =>
    obtain ⟨new, hnew⟩ := hin m
    refine ih.trans ⟨new, ?_⟩
    rw [arrivedBy, arrivedBy, Execution.take_succ, received_append, messagesOf_append,
      List.append_assoc, List.append_assoc, hnew]

/-- What the listener was given stays given. -/
theorem heardBy_mono (x : J.Source) {m : ℕ} (h : n ≤ m) : heardBy e x n <+: heardBy e x m :=
  ((e.take_prefix h).filterMap _).filterMap _

/-- The listener has been given what has come to a socket, but for the message that the loop thread
holds and those that wait. -/
theorem arrivedBy_eq (hinit : e.state 0 = State.initial J Thread) (n : ℕ) :
    arrivedBy e x inbox n =
      heardBy e x n ++ (messagesOf x (e.state n).pc.received?.toList ++ inbox n) := by
  rw [arrivedBy, received_eq (Execution.run_of_init hinit n), messagesOf_append, List.append_assoc]
  rfl

/-- In a fair execution the listener comes to be given all messages that have come to a socket, in
the order in which they came, if `poll` watches the socket from some time on. In the four loops it
watches the sockets that are registered. -/
theorem every_message_heard (he : Fair e) (hinit : e.state 0 = State.initial J Thread)
    (hin : Arrivals e x inbox) (hpolls : Polls e x inbox) (n : ℕ) :
    (∃ m ≥ n, arrivedBy e x inbox n <+: heardBy e x m) ∧
      ∀ (S : Type) (variant : Variant) scope source,
        (variant.job Block S).Watches scope source ↔ variant.Registers Block S scope source := by
  refine ⟨?_, fun _ => Variant.watches_iff⟩
  have hrise : ∀ n, (heardBy e x n).length < (arrivedBy e x inbox n).length →
      ∃ m ≥ n, (heardBy e x n).length < (heardBy e x m).length := by
    intro n hlt
    have hrest : messagesOf x (e.state n).pc.received?.toList ++ inbox n ≠ [] := fun hnil => by
      rw [arrivedBy_eq hinit, hnil, List.append_nil] at hlt
      exact hlt.false
    obtain ⟨i, hi, msg, hlisten⟩ := he.exists_listen_of_ne_nil hin hpolls hrest
    have hheard : heardBy e x (i + 1) = heardBy e x i ++ [msg] := by
      rw [heardBy, Execution.take_succ, listened_append, messagesOf_append, hlisten]
      exact congrArg (_ ++ ·) (messagesOf_singleton_self x msg)
    have hmono : (heardBy e x n).length ≤ (heardBy e x i).length := (heardBy_mono x hi).length_le
    refine ⟨i + 1, by omega, ?_⟩
    rw [hheard, List.length_append, List.length_singleton]
    omega
  obtain ⟨m, hm, hle⟩ := exists_reaching (fun n m hm => (hin.arrivedBy_mono hm).length_le) hrise n
  refine ⟨m, hm, List.prefix_of_prefix_length_le (hin.arrivedBy_mono hm) ?_ hle⟩
  rw [arrivedBy_eq hinit]
  exact List.prefix_append _ _

/-- A round in which a JVM server reads a message from its router. -/
theorem exists_run_with_message : ∃ tr,
    ((Jvm.serverLoopJob Unit).system Unit 1).Run tr (State.initial _ _) ∧
      (∀ a ∈ tr, a.1.pipe = []) ∧
      tr.map Prod.snd = [.readClock 0, .enterPoll, .wake [.socket ()], .recv () ⟨[[7], [1]]⟩,
        .listen () ⟨[[7], [1]]⟩, .return, .endPass] := by
  have hready : ∀ scope, (Jvm.serverLoopJob Unit).HandsOver scope [.socket ()] := fun _ =>
    (List.singleton_sublist.mpr (List.mem_cons_of_mem _ (List.mem_singleton_self _))).subperm
  have h₁ := (System.Run.init (S := (Jvm.serverLoopJob Unit).system Unit 1)).step
    (Step.readClock 0 rfl rfl)
  have h₂ := h₁.step (Step.enterPoll rfl (.inl rfl))
  have h₃ := h₂.step (Step.wake [.socket ()] rfl (by simp) (hready _) (by simp))
  have h₄ := h₃.step (Step.recv ⟨[[7], [1]]⟩ rfl)
  have h₅ := h₄.step (Step.listen rfl)
  have h₆ := h₅.step (Step.return rfl)
  refine ⟨_, h₆.step (Step.endPass rfl), ?_, rfl⟩
  simp only [List.nil_append, List.forall_mem_append, List.forall_mem_singleton]
  refine ⟨⟨⟨⟨⟨⟨?_, ?_⟩, ?_⟩, ?_⟩, ?_⟩, ?_⟩, ?_⟩ <;> rfl

/-- A JVM server gives its listener the message that waits at its router. -/
theorem every_message_heard_jvmServer :
    ∃ (e : ((Jvm.serverLoopJob Unit).system Unit 1).Execution) (inbox : ℕ → List ZmqMsg) (m : ℕ),
      inbox 0 = [⟨[[7], [1]]⟩] ∧ [⟨[[7], [1]]⟩] <+: heardBy e () m := by
  obtain ⟨tr, h, hpipe, htr⟩ := exists_run_with_message
  obtain ⟨e, he, htake, hinit, hwait, -, hafter⟩ := exists_fair_of_run rfl 0 h
    fun a ha _ _ hne => absurd (hpipe a ha) hne
  have hlength : tr.length = 7 := by simpa using congrArg List.length htr
  rw [hlength] at htake hafter
  rw [← htake] at htr
  simp only [Execution.take, List.range_succ, List.range_zero, List.nil_append, List.map_cons,
    List.map_nil, List.cons_append, List.cons.injEq, and_true] at htr
  obtain ⟨h₀, h₁, h₂, h₃, h₄, h₅, h₆⟩ := htr
  have hcases : ∀ n, n = 0 ∨ n = 1 ∨ n = 2 ∨ n = 3 ∨ n = 4 ∨ n = 5 ∨ n = 6 ∨ 7 ≤ n := by omega
  have hrecv : ∀ n, (e.label n).received? = if n = 3 then some ((), ⟨[[7], [1]]⟩) else none := by
    intro n
    obtain rfl | rfl | rfl | rfl | rfl | rfl | rfl | hn := hcases n
    case inr.inr.inr.inr.inr.inr.inr =>
      rw [(hafter n hn).2.2, if_neg (by omega)]
      rfl
    all_goals simp only [h₀, h₁, h₂, h₃, h₄, h₅, h₆]; rfl
  have hwake : ∀ n ready, e.label n = .wake ready → ready = [.socket ()] := by
    intro n ready hl
    obtain rfl | rfl | rfl | rfl | rfl | rfl | rfl | hn := hcases n
    case inr.inr.inr.inr.inr.inr.inr => exact absurd hl ((hafter n hn).2.1 ready)
    all_goals simp only [h₀, h₁, h₂, h₃, h₄, h₅, h₆] at hl; cases hl
    rfl
  have htimeout : ∀ n, e.label n = .timeout → 3 < n := by
    intro n hl
    by_contra hle
    obtain rfl | rfl | rfl | rfl : n = 0 ∨ n = 1 ∨ n = 2 ∨ n = 3 := by omega
    all_goals simp only [h₀, h₁, h₂, h₃] at hl; cases hl
  -- The message waits until the server reads it, and no other one comes.
  have hin : Arrivals e () fun n => if n ≤ 3 then [⟨[[7], [1]]⟩] else [] := by
    intro n
    refine ⟨[], ?_⟩
    rw [hrecv]
    beta_reduce
    obtain hn | hn | hn := lt_trichotomy n 3
    · rw [if_pos hn.le, if_neg hn.ne, if_pos (by omega)]
      rfl
    · rw [if_pos hn.le, if_pos hn, if_neg (by omega), List.append_nil, List.append_nil]
      exact (messagesOf_singleton_self () ⟨[[7], [1]]⟩).symm
    · rw [if_neg (by omega), if_neg hn.ne', if_neg (by omega)]
      rfl
  have hpolls : Polls e () fun n => if n ≤ 3 then [⟨[[7], [1]]⟩] else [] :=
    { watches := ⟨0, fun n _ => Jvm.watches_server (e.state n).scope⟩
      reports := fun n ready hl _ _ => hwake n ready hl ▸ List.mem_singleton_self _
      timeout := fun n hl _ => if_neg (not_le.mpr (htimeout n hl))
      waits := fun n _ _ => hwait n }
  obtain ⟨⟨m, -, hheard⟩, -⟩ := every_message_heard he hinit hin hpolls 0
  exact ⟨e, fun n => if n ≤ 3 then [⟨[[7], [1]]⟩] else [], m, if_pos (Nat.zero_le 3), hheard⟩

end Executions

end Khala
