import Khala.Zmq.Jobs

/-!
# The ping handshake

The loop never sees which query a ping belongs to. What keeps pings and queries in step is a
conservation law of the single step, in two parts: `Step.fifo` follows the queries from the queue
through the loop thread's hands to `when (query)`, and `Step.count` balances the queries in the
queue against the pings that are unread, still to be sent, or read and not yet answered by a
removal. `enqueued_eq` and `length_queue` are what every run keeps of them.

A stop query counts on one side only, since its message has no frames and is never sent.
-/

namespace Khala

open Transitions

variable {Block Thread : Type} {J : LoopJob Block} {K : ℕ∞}

/-- The block of an `InvokeQuery`. -/
def Query.block? : Query Block → Option Block
  | .invokeQuery block => some block
  | .stopQuery => none

/-- Whether a query is a `StopQuery`. -/
def Query.isStop : Query Block → Bool
  | .invokeQuery _ => false
  | .stopQuery => true

/-- The stop query is the one that stops. -/
@[simp] theorem Query.isStop_iff {query : Query Block} :
    query.isStop = true ↔ query = .stopQuery := by
  cases query <;> simp [Query.isStop]

/-- The query that a step puts into the queue. -/
def Label.enqueued? : Label J Thread → Option (Query Block)
  | .access _ (.enqueue query) => some query
  | _ => none

/-- The query that a step hands to the loop thread's `when (query)`. -/
def Label.delivered? : Label J Thread → Option (Query Block)
  | .deliver query => some query
  | _ => none

/-- The queries of a run in the order in which their access sections ran. -/
def enqueued (tr : List (State J Thread × Label J Thread)) : List (Query Block) :=
  tr.filterMap fun a => a.2.enqueued?

/-- The queries of a run in the order in which the loop thread acted on them. -/
def delivered (tr : List (State J Thread × Label J Thread)) : List (Query Block) :=
  tr.filterMap fun a => a.2.delivered?

/-- The blocks of a run that came with an `InvokeQuery`, in the order in which they were started. -/
def executed (tr : List (State J Thread × Label J Thread)) : List Block :=
  (delivered tr).filterMap Query.block?

/-- The query that the last step enqueues comes last. -/
@[simp] theorem enqueued_append (tr : List (State J Thread × Label J Thread)) (s l) :
    enqueued (tr ++ [(s, l)]) = enqueued tr ++ l.enqueued?.toList := by
  cases h : l.enqueued? <;> simp [enqueued, h]

/-- The query that the last step delivers comes last. -/
@[simp] theorem delivered_append (tr : List (State J Thread × Label J Thread)) (s l) :
    delivered (tr ++ [(s, l)]) = delivered tr ++ l.delivered?.toList := by
  cases h : l.delivered? <;> simp [delivered, h]

/-- The query that the loop thread has removed and not yet acted on. -/
def Pc.removed? {Source : Type} : Pc Block Source → Option (Query Block)
  | .removed query _ => some query
  | _ => none

/-- The pings that were read for a query that is not yet removed. -/
def Pc.awaiting {Source : Type} : Pc Block Source → ℕ
  | .handlePong _ => 1
  | .failed .disposedQueue => 1
  | .failed .emptyQueue => 1
  | _ => 0

/-- The pings that a section sends once it has put this query into the queue. -/
def Query.pings : Query Block → ℕ
  | .invokeQuery _ => 1
  | .stopQuery => 0

/-- The pings that the running section has still to send. -/
def State.owed (s : State J Thread) : ℕ :=
  (s.sending.map fun p => p.2.pings).getD 0

/-- The pings that are still to be sent, to be read, or to be answered by a removal. -/
def State.pings (s : State J Thread) : ℕ := s.pipe.length + s.owed + s.pc.awaiting

/-- No query is in hand when user code returns. -/
@[simp] theorem Resume.removed?_pc {Source : Type} (resume : Resume Source) :
    (resume.pc : Pc Block Source).removed? = none := by
  cases resume <;> rfl

/-- No ping is unanswered when user code returns. -/
@[simp] theorem Resume.awaiting_pc {Source : Type} (resume : Resume Source) :
    (resume.pc : Pc Block Source).awaiting = 0 := by
  cases resume <;> rfl

/-- No query is in hand in user code. -/
@[simp] theorem Pc.removed?_user {Source : Type} (resume : Resume Source) :
    (Pc.user resume : Pc Block Source).removed? = none := rfl

/-- No ping is unanswered in user code. -/
@[simp] theorem Pc.awaiting_user {Source : Type} (resume : Resume Source) :
    (Pc.user resume : Pc Block Source).awaiting = 0 := rfl

/-- The message of a query is sent if and only if the query is owed a ping. -/
@[simp] theorem Query.length_send_message (query : Query Block) (pipe : List ZmqMsg) :
    (query.message.send pipe).length = pipe.length + query.pings := by
  cases query with
  | invokeQuery block => simp [Query.message, ZmqMsg.send, Query.pings]
  | stopQuery => simp [Query.message, ZmqMsg.send, Query.pings, ZmqMsg.new]

/-- What a step does to the queries: one that is enqueued goes last, and the one that is delivered
was the first. -/
theorem Step.fifo {s t : State J Thread} {l : Label J Thread} (hs : Step K s l t) :
    s.pc.removed?.toList ++ s.queue ++ l.enqueued?.toList =
      l.delivered?.toList ++ t.pc.removed?.toList ++ t.queue := by
  cases hs with
  | @refuseUser before after query resume caught hdisposed hwaiting hpc =>
    cases caught <;> simp [Label.enqueued?, Label.delivered?, Pc.removed?, hpc]
  | «return» hpc => simp [Label.enqueued?, Label.delivered?, hpc, Pc.removed?_user]
  | _ => simp_all [Label.enqueued?, Label.delivered?, Pc.removed?]

/-- What a step does to the number of queries: it follows the pings, but for a stop query that is
put into the queue. -/
theorem Step.count {s t : State J Thread} {l : Label J Thread} (hs : Step K s l t) :
    s.queue.length + t.pings + l.enqueued?.toList.countP Query.isStop =
      t.queue.length + s.pings := by
  cases hs with
  | @addLast before after caller query hdisposed hsending hwaiting =>
    -- An `InvokeQuery` is owed a ping, and a `StopQuery` is owed none.
    have hquery : query.pings + (if query.isStop = true then 1 else 0) = 1 := by
      cases query <;> rfl
    simp [Label.enqueued?, State.pings, State.owed, hsending]
    omega
  | @refuseUser before after query resume caught hdisposed hwaiting hpc =>
    cases caught <;> simp [Label.enqueued?, State.pings, State.owed, Pc.awaiting, hpc]
  | «return» hpc => simp [Label.enqueued?, State.pings, State.owed, hpc, Pc.awaiting_user]
  | _ =>
    simp_all [Label.enqueued?, State.pings, State.owed, Pc.awaiting, Query.pings]
    try omega

section Runs

variable {tr : List (State J Thread × Label J Thread)} {s : State J Thread}

/-- In every run the queries are delivered in the order of their sections, with none lost and none
delivered twice: what is enqueued is what was delivered, what the loop thread holds, and what is
in the queue. -/
theorem enqueued_eq (h : (J.system Thread K).Run tr s) :
    enqueued tr = delivered tr ++ s.pc.removed?.toList ++ s.queue := by
  refine h.induct (I := fun tr s => enqueued tr = delivered tr ++ s.pc.removed?.toList ++ s.queue)
    rfl fun {tr s l t} _ ih hs => ?_
  have hfifo := Step.fifo hs
  simp only [List.append_assoc] at ih hfifo
  rw [enqueued_append, delivered_append, ih]
  simp only [List.append_assoc, hfifo]

/-- In every run the queue holds one query for each ping, and the stop queries besides. -/
theorem length_queue (h : (J.system Thread K).Run tr s) :
    s.queue.length = s.pings + (enqueued tr).countP Query.isStop := by
  refine h.induct (I := fun tr s => s.queue.length = s.pings + (enqueued tr).countP Query.isStop)
    rfl fun {tr s l t} _ ih hs => ?_
  have hcount := Step.count hs
  rw [enqueued_append, List.countP_append]
  omega

/-- `removeFirst` is never called on an empty queue: the ping that was read for it stands for a
query. -/
theorem pc_ne_emptyQueue (h : (J.system Thread K).Run tr s) : s.pc ≠ .failed .emptyQueue := by
  refine h.induct (I := fun _ s => s.pc ≠ .failed .emptyQueue) (by simp [LoopJob.system,
    State.initial]) fun {tr s l t} hr ih hs => ?_
  have hlen := length_queue hr
  cases hs with
  | @refuseUser before after query resume caught => cases caught <;> simp
  | removeFirstEmpty _ _ _ _ _ hpc hqueue =>
    -- The ping that was read still counts, so the queue holds a query for it.
    simp only [hqueue, State.pings, hpc, Pc.awaiting, List.length_nil] at hlen
    omega
  | @«return» resume => exact resume.pc_ne_failed _
  | _ => simp_all

/-! ## Before `stopSafe` is called -/

/-- No section is about to put a stop query into the queue, and none sends one. -/
def State.NoStop (s : State J Thread) : Prop :=
  (∀ a ∈ s.waiting, a.body ≠ .enqueue .stopQuery) ∧
    ∀ caller, s.sending ≠ some (caller, .stopQuery)

/-- `stopSafe` was not called before it is called. -/
theorem Step.stopSafe_eq_notCalled {s t : State J Thread} {l : Label J Thread}
    (hs : Step K s l t) (ht : t.stopSafe = .notCalled) : s.stopSafe = .notCalled := by
  cases hs <;> simp_all

/-- As long as `stopSafe` is not called no stop query comes up. -/
theorem Step.noStop {s t : State J Thread} {l : Label J Thread} (hs : Step K s l t)
    (h : s.NoStop) (ht : t.stopSafe = .notCalled) :
    t.NoStop ∧ l.enqueued? ≠ some .stopQuery := by
  obtain ⟨hwaiting, hsending⟩ := h
  cases hs <;> simp_all [State.NoStop, Label.enqueued?, or_imp, forall_and]

/-- In a run in which `stopSafe` is not called no stop query comes up. -/
theorem noStop (h : (J.system Thread K).Run tr s) (hstop : s.stopSafe = .notCalled) :
    s.NoStop ∧ .stopQuery ∉ enqueued tr := by
  induction h with
  | init => simp [State.NoStop, LoopJob.system, State.initial, enqueued]
  | @step tr s t l hr hs ih =>
    have hnot : s.stopSafe = .notCalled := Step.stopSafe_eq_notCalled hs hstop
    obtain ⟨hno, henq⟩ := ih hnot
    obtain ⟨ht, hl⟩ := Step.noStop hs hno hstop
    refine ⟨ht, ?_⟩
    rw [enqueued_append, List.mem_append]
    simpa [henq] using hl

/-- The blocks of a run that were put into the queue, in the order in which their access sections
ran. -/
def invoked (tr : List (State J Thread × Label J Thread)) : List Block :=
  (enqueued tr).filterMap Query.block?

/-- The loop thread waits in `poll`. -/
def State.Polling (s : State J Thread) : Prop := ∃ currentTime, s.pc = .polling currentTime

/-- Before `stopSafe` is called the blocks are executed in the order in which their sections ran,
each once, and when the loop waits with no ping in flight none is left. -/
theorem invokeSafe_fifo (h : (J.system Thread K).Run tr s) (hstop : s.stopSafe = .notCalled) :
    executed tr <+: invoked tr ∧ s.pc ≠ .failed .emptyQueue ∧
      (s.Polling → s.pipe = [] → s.sending = none → executed tr = invoked tr) := by
  have heq := enqueued_eq h
  refine ⟨?_, pc_ne_emptyQueue h, ?_⟩
  · simp only [executed, invoked, heq, List.filterMap_append, List.append_assoc]
    exact List.prefix_append _ _
  · rintro ⟨currentTime, hpc⟩ hpipe hsending
    -- Without pings and without stop queries the queue is empty.
    have hzero : (enqueued tr).countP Query.isStop = 0 := by
      refine List.countP_eq_zero.mpr fun query hquery hisStop => (noStop h hstop).2 ?_
      rwa [Query.isStop_iff.mp hisStop] at hquery
    have hlen := length_queue h
    have hqueue : s.queue = [] := List.length_eq_zero_iff.mp (by
      simpa [State.pings, State.owed, hpc, hpipe, hsending, Pc.awaiting, hzero] using hlen)
    simp [executed, invoked, heq, hqueue, hpc, Pc.removed?]

/-- Every loop comes to execute a block that a thread submits. -/
theorem exists_run_in_block (J : LoopJob Block) (t : Thread) (block : Block) (hK : 0 < K)
    (hpong : J.HandsOver J.initialScope [.pong]) :
    ∃ tr, (J.system Thread K).Run tr { State.initial J Thread with pc := .user (.pass []) } ∧
      executed tr = [block] ∧ ∀ a ∈ tr, (∀ c, a.2 ≠ .call c) ∧
        ∀ now timeoutMillis block', a.2 ≠ .invokeAfterTimeout now timeoutMillis block' := by
  have h₁ := (System.Run.init (S := J.system Thread K)).step
    (Step.invokeSafe t block (by simp [State.Busy, State.initial, LoopJob.system]))
  have h₂ := h₁.step (Step.addLast [] [] rfl rfl rfl)
  have h₃ := h₂.step (Step.sendPing rfl hK)
  have h₄ := h₃.step (Step.readClock 0 rfl rfl)
  have h₅ := h₄.step (Step.enterPoll rfl (.inl MinQueue.isNotEmpty_empty))
  have h₆ := h₅.step (Step.wake [.pong] rfl (by simp) hpong
    (fun _ => List.cons_ne_nil _ _))
  have h₇ := h₆.step (Step.recvPing rfl rfl)
  have h₈ := h₇.step (Step.removeFirst [] [] rfl rfl rfl rfl rfl)
  have h₉ := h₈.step (Step.runBlock rfl)
  exact ⟨_, h₉, rfl, by simp⟩

/-- A native client that executes the block of its one `invokeSafe` and waits again. -/
theorem invokeSafe_fifo_one : ∃ tr s, ((Native.clientLoopJob Unit Unit).system Unit 1).Run tr s ∧
    s.stopSafe = .notCalled ∧ s.Polling ∧ executed tr = [()] ∧ executed tr = invoked tr := by
  obtain ⟨tr, h, hexecuted, -⟩ := exists_run_in_block (K := 1) (Native.clientLoopJob Unit Unit) ()
    () (by decide) ⟨fun i => i == 0, rfl⟩
  have h₁ := h.step (Step.return rfl)
  have h₂ := h₁.step (Step.endPass rfl)
  have h₃ := h₂.step (Step.readClock 0 rfl rfl)
  have h₄ := h₃.step (Step.enterPoll rfl (.inl rfl))
  refine ⟨_, _, h₄, rfl, ⟨0, rfl⟩, ?_, (invokeSafe_fifo h₄ rfl).2.2 ⟨0, rfl⟩ rfl rfl⟩
  simpa [executed, delivered, Label.delivered?] using hexecuted

end Runs

end Khala
