import Khala.Zmq.Handshake

/-!
# The stop handshake

`stopSafe` puts a `StopQuery` into the queue, sends a message with no frames after it, which sends
nothing, and disposes the queue. The loop thread reads one query for each ping, so it comes to the
`StopQuery` only when a ping arrives that belongs to a query behind it, and when that has not
happened by the time of `dispose` it never happens (`isStopped_iff_disposesInTime`).
`stop_handshake` says that the handshake succeeds in the runs in which it has, and
`stop_handshake_fails` shows the two ways in which it fails.
-/

namespace Khala

open Transitions

variable {Block Thread : Type} {J : LoopJob Block} {K : ℕ∞}

/-! ## What stops the loop -/

/-- How many of the sockets to be handed over are the pong socket. -/
def pongCount {Source : Type} (ready : List (Watched Source)) : ℕ := ready.countP Watched.isPong

/-- Nothing is to be handed over. -/
@[simp] theorem pongCount_nil {Source : Type} : pongCount ([] : List (Watched Source)) = 0 := rfl

/-- The pong socket counts. -/
@[simp] theorem pongCount_cons_pong {Source : Type} (ready : List (Watched Source)) :
    pongCount (.pong :: ready) = 1 + pongCount ready := by
  simp [pongCount, Watched.isPong, List.countP_cons, Nat.add_comm]

/-- No other socket counts. -/
@[simp] theorem pongCount_cons_socket {Source : Type} (source : Source)
    (ready : List (Watched Source)) : pongCount (.socket source :: ready) = pongCount ready := by
  simp [pongCount, Watched.isPong]

/-- How many pings can still be answered until the loop job tests `isStopped` again, once the user
code that is running has returned. -/
@[simp] def Resume.pongs {Source : Type} : Resume Source → ℕ
  | .timers _ => 1
  | .pass ready => pongCount ready

/-- How many pings the loop thread can still answer until it tests `isStopped` again. -/
@[simp] def Pc.pongs {Source : Type} : Pc Block Source → ℕ
  | .top => 0
  | .timers _ => 1
  | .polling _ => 1
  | .pass ready => pongCount ready
  | .handlePong ready => 1 + pongCount ready
  | .removed _ ready => 1 + pongCount ready
  | .received _ _ ready => pongCount ready
  | .user resume => resume.pongs
  | .blocked resume => resume.pongs
  | .exited => 0
  | .failed _ => 0

/-- What every step keeps: a pass answers at most one ping, and none once the loop is stopped; the
queue is disposed when `stopSafe` has returned. -/
structure State.StopInv (s : State J Thread) : Prop where
  pongs : s.pc.pongs ≤ 1
  stopped : s.isStopped = true → s.pc.pongs = 0
  disposed : s.stopSafe = .returned → s.disposed = true

/-- A step keeps what `StopInv` says. -/
theorem Step.stopInv {s t : State J Thread} {l : Label J Thread} (hs : Step K s l t)
    (h : s.StopInv) : t.StopInv := by
  obtain ⟨hpongs, hstopped, hdisposed⟩ := h
  cases hs with
  | @refuseUser before after query resume caught _ _ hpc =>
    cases caught <;> constructor <;> simp_all
  | @wake currentTime ready hpc _ hready _ =>
    -- A pass begins, and it hands the pong socket over at most once.
    have hone : pongCount ready ≤ 1 := J.pong_once hready
    constructor <;> simp_all
  | @«return» resume hpc => cases resume <;> constructor <;> simp_all [Resume.pc]
  | invokeSafe | addLast | sendPing | refuse | call | invokeAfterTimeout =>
    exact ⟨hpongs, hstopped, hdisposed⟩
  | _ => constructor <;> simp_all

/-- A step that delivers a query is taken before the loop is stopped, and stops the loop if and only
if it is the stop query. -/
theorem Step.isStopped {s t : State J Thread} {l : Label J Thread} (hs : Step K s l t)
    (h : s.StopInv) : l.delivered? = none ∧ t.isStopped = s.isStopped ∨
      ∃ query, l.delivered? = some query ∧ s.isStopped = false ∧ t.isStopped = query.isStop := by
  have hfalse : ∀ {query ready}, s.pc = .removed query ready → s.isStopped = false := by
    intro query ready hpc
    by_contra hstopped
    simpa [hpc] using h.stopped (by simpa using hstopped)
  cases hs with
  | runBlock hpc => exact .inr ⟨_, rfl, hfalse hpc, by simp [hfalse hpc, Query.isStop]⟩
  | stop hpc => exact .inr ⟨_, rfl, hfalse hpc, rfl⟩
  | _ => exact .inl ⟨rfl, rfl⟩

/-! ## What goes before the disposal -/

/-- The running section has put its query into the queue, and `stopSafe` comes to `dispose` only
after its section has. -/
structure StopEnqueued (tr : List (State J Thread × Label J Thread)) (s : State J Thread) :
    Prop where
  sending : ∀ caller query, s.sending = some (caller, query) → query ∈ enqueued tr
  accessed : ∀ caller, s.stopSafe = .accessed caller → .stopQuery ∈ enqueued tr
  disposed : s.disposed = true → .stopQuery ∈ enqueued tr

/-- A section that comes to its send has enqueued the query before, or does so now. -/
theorem Step.sending_of {s t : State J Thread} {l : Label J Thread} {caller : Caller Thread}
    {query : Query Block} (hs : Step K s l t) (ht : t.sending = some (caller, query)) :
    s.sending = some (caller, query) ∨ l.enqueued? = some query := by
  cases hs with
  | addLast =>
    cases ht
    exact .inr rfl
  | sendPing | sendPingLoop | sendStop => cases ht
  | _ => exact .inl ht

/-- The access of `stopSafe` returns when its section has sent the stop query. -/
theorem Step.accessed_of {s t : State J Thread} {l : Label J Thread} {caller : Caller Thread}
    (hs : Step K s l t) (ht : t.stopSafe = .accessed caller) :
    s.stopSafe = .accessed caller ∨ s.sending = some (caller, .stopQuery) := by
  cases hs with
  | sendStop hsending =>
    cases ht
    exact .inr hsending
  | stopSafe | stopSafeLoop | dispose | disposeLoop => cases ht
  | _ => exact .inl ht

/-- The queue is disposed when the access of `stopSafe` has returned. -/
theorem Step.disposed_of {s t : State J Thread} {l : Label J Thread} (hs : Step K s l t)
    (ht : t.disposed = true) : s.disposed = true ∨ ∃ caller, s.stopSafe = .accessed caller := by
  cases hs with
  | dispose hphase | disposeLoop hphase => exact .inr ⟨_, hphase⟩
  | _ => exact .inl ht

/-- A step keeps what `StopEnqueued` says. -/
theorem Step.stopEnqueued {tr : List (State J Thread × Label J Thread)} {s t : State J Thread}
    {l : Label J Thread} (hs : Step K s l t) (h : StopEnqueued tr s) :
    StopEnqueued (tr ++ [(s, l)]) t := by
  have hmono : ∀ {query}, query ∈ enqueued tr → query ∈ enqueued (tr ++ [(s, l)]) := by
    intro query hquery
    rw [enqueued_append]
    exact List.mem_append_left _ hquery
  refine ⟨fun caller query ht => ?_, fun caller ht => ?_, fun ht => ?_⟩
  · rcases hs.sending_of ht with hsending | hl
    · exact hmono (h.sending caller query hsending)
    · simp [enqueued_append, hl]
  · rcases hs.accessed_of ht with haccessed | hsending
    · exact hmono (h.accessed caller haccessed)
    · exact hmono (h.sending caller _ hsending)
  · rcases hs.disposed_of ht with hdisposed | ⟨caller, haccessed⟩
    · exact hmono (h.disposed hdisposed)
    · exact hmono (h.accessed caller haccessed)

/-! ## The stop query comes once -/

/-- Whether an access section is that of `stopSafe`. -/
def Section.isStop : Section Block → Bool
  | .enqueue query => query.isStop
  | .removeFirst => false

/-- The sections of `stopSafe` that have not begun. -/
def State.stopsWaiting (s : State J Thread) : ℕ := s.waiting.countP fun a => a.body.isStop

/-- How many times `stopSafe` was called. -/
def StopPhase.calls : StopPhase Thread → ℕ
  | .notCalled => 0
  | _ => 1

/-- `stopSafe` is called once at most. -/
theorem StopPhase.calls_le_one (phase : StopPhase Thread) : phase.calls ≤ 1 := by
  cases phase <;> simp [StopPhase.calls]

/-- A step that brings in a section of `stopSafe` is a call of it. -/
theorem Step.stopsWaiting {s t : State J Thread} {l : Label J Thread} (hs : Step K s l t) :
    t.stopsWaiting + l.enqueued?.toList.countP Query.isStop + s.stopSafe.calls ≤
      s.stopsWaiting + t.stopSafe.calls := by
  cases hs with
  | @addLast before after caller query hdisposed hsending hwaiting =>
    -- The section that begins no longer waits, and puts in its query instead.
    cases query <;>
      simp [State.stopsWaiting, Label.enqueued?, hwaiting, List.countP_cons, Section.isStop,
        Query.isStop]
  | stopSafe t hcalled | stopSafeLoop hcalled =>
    simp [State.stopsWaiting, Label.enqueued?, hcalled, Section.isStop, Query.isStop,
      StopPhase.calls]
  | @sendStop caller hsending =>
    have hcalls := s.stopSafe.calls_le_one
    simpa [State.stopsWaiting, Label.enqueued?, StopPhase.calls] using hcalls
  | refuse _ _ _ _ hwaiting | refuseUser _ _ _ _ hwaiting =>
    simp [State.stopsWaiting, Label.enqueued?, hwaiting, List.countP_cons]
  | _ =>
    simp_all [State.stopsWaiting, Label.enqueued?, Section.isStop, Query.isStop, StopPhase.calls]

/-- Nothing is put into a disposed queue, and nothing is taken out of it. -/
theorem Step.queue_of_disposed {s t : State J Thread} {l : Label J Thread} (hs : Step K s l t)
    (h : s.disposed = true) : t.disposed = true ∧ t.queue = s.queue := by
  cases hs with
  | addLast _ _ hopen | removeFirst _ _ hopen | removeFirstEmpty _ _ hopen => simp [h] at hopen
  | dispose | disposeLoop => exact ⟨rfl, rfl⟩
  | _ => exact ⟨h, rfl⟩

/-! ## Runs -/

section Runs

variable {tr : List (State J Thread × Label J Thread)} {s : State J Thread}

/-- The invariant holds in every run. -/
theorem stopInv (h : (J.system Thread K).Run tr s) : s.StopInv :=
  h.invariant ⟨Nat.zero_le _, by simp [LoopJob.system, State.initial],
    by simp [LoopJob.system, State.initial]⟩ fun hi hs => Step.stopInv hs hi

/-- In every run the stop query is enqueued before anything that comes of it. -/
theorem stopEnqueued (h : (J.system Thread K).Run tr s) : StopEnqueued tr s :=
  h.induct (I := StopEnqueued) ⟨by simp [LoopJob.system, State.initial],
    by simp [LoopJob.system, State.initial], by simp [LoopJob.system, State.initial]⟩
    fun _ hi hs => Step.stopEnqueued hs hi

/-- The stop query is the last query that is delivered, and `isStopped` says whether it was. -/
theorem delivered_stopQuery (h : (J.system Thread K).Run tr s) :
    if s.isStopped then ∃ pre, delivered tr = pre ++ [.stopQuery] ∧ .stopQuery ∉ pre
    else .stopQuery ∉ delivered tr := by
  induction h with
  | init => simp [LoopJob.system, State.initial, delivered]
  | @step tr s t l hr hs ih =>
    rw [delivered_append]
    rcases Step.isStopped hs (stopInv hr) with ⟨hl, heq⟩ | ⟨query, hl, hbefore, hafter⟩
    · simpa [hl, heq] using ih
    · cases query with
      | invokeQuery block => simpa [hl, hbefore, hafter, Query.isStop] using ih
      | stopQuery => simpa [hl, hbefore, hafter, Query.isStop] using ih

/-- In every run the stop query is put into the queue once at most. -/
theorem countP_isStop_enqueued_le (h : (J.system Thread K).Run tr s) :
    (enqueued tr).countP Query.isStop ≤ 1 := by
  have hcalls : s.stopsWaiting + (enqueued tr).countP Query.isStop ≤ s.stopSafe.calls := by
    refine h.induct (I := fun tr s =>
      s.stopsWaiting + (enqueued tr).countP Query.isStop ≤ s.stopSafe.calls) ?_ ?_
    · simp [State.stopsWaiting, LoopJob.system, State.initial, enqueued, StopPhase.calls]
    · intro tr s l t _ ih hs
      have hstep := Step.stopsWaiting hs
      rw [enqueued_append, List.countP_append]
      omega
  have hone := s.stopSafe.calls_le_one
  omega

/-- A loop that has stopped has the stop query no longer in the queue. -/
theorem isStopped_eq_false (h : (J.system Thread K).Run tr s) (hmem : .stopQuery ∈ s.queue) :
    s.isStopped = false := by
  by_contra hstopped
  have hlast := delivered_stopQuery h
  rw [if_pos (by simpa using hstopped)] at hlast
  obtain ⟨pre, hpre, -⟩ := hlast
  have hone := countP_isStop_enqueued_le h
  have hqueue : 0 < s.queue.countP Query.isStop := List.countP_pos_iff.mpr ⟨_, hmem, rfl⟩
  rw [enqueued_eq h, hpre] at hone
  simp only [List.countP_append, List.countP_singleton, Query.isStop, if_true] at hone
  omega

/-- `dispose` is called when the loop thread has already taken the `StopQuery` out of the queue. -/
def State.DisposesInTime (s : State J Thread) (l : Label J Thread) : Prop :=
  ∀ caller, l = .dispose caller → .stopQuery ∉ s.queue

/-- A disposed queue stays without a stop query if it was without one when it was disposed. -/
theorem stopQuery_notMem_queue (h : (J.system Thread K).Run tr s)
    (hC : ∀ a ∈ tr, a.1.DisposesInTime a.2) : s.disposed = true → .stopQuery ∉ s.queue := by
  refine h.invariant_of_steps (C := State.DisposesInTime)
    (I := fun s => s.disposed = true → .stopQuery ∉ s.queue)
    (by simp [LoopJob.system, State.initial]) (fun {s l t} _ ih hc hs ht => ?_) hC
  by_cases hdisposed : s.disposed = true
  · rw [(Step.queue_of_disposed hs hdisposed).2]
    exact ih hdisposed
  · cases hs with
    | dispose | disposeLoop => exact hc _ rfl
    | _ => exact absurd ht hdisposed

/-- A stop query that was in the queue when the queue was disposed stays there. -/
theorem stopQuery_mem_queue (h : (J.system Thread K).Run tr s) {a : State J Thread × Label J Thread}
    (ha : a ∈ tr) (hlate : ¬ a.1.DisposesInTime a.2) :
    s.disposed = true ∧ .stopQuery ∈ s.queue := by
  induction h with
  | init => cases ha
  | @step tr s t l hr hs ih =>
    rcases List.mem_append.mp ha with ha | ha
    · obtain ⟨hdisposed, hmem⟩ := ih ha
      obtain ⟨htdisposed, hqueue⟩ := Step.queue_of_disposed hs hdisposed
      exact ⟨htdisposed, hqueue ▸ hmem⟩
    · obtain rfl := List.mem_singleton.mp ha
      simp only [State.DisposesInTime, not_forall, not_not] at hlate
      obtain ⟨caller, rfl, hmem⟩ := hlate
      cases hs with
      | dispose | disposeLoop => exact ⟨rfl, hmem⟩

/-- No section is running, `stopSafe` has returned, no ping is in flight, and the loop thread waits
in `poll` or has left its loop. -/
def State.Quiescent (s : State J Thread) : Prop :=
  s.sending = none ∧ s.stopSafe = .returned ∧ s.pipe = [] ∧ (s.Polling ∨ s.pc = .exited)

/-- The blocks that were put into the queue before the stop query. -/
def invokedBeforeStop (tr : List (State J Thread × Label J Thread)) : List Block :=
  ((enqueued tr).takeWhile fun query => !query.isStop).filterMap Query.block?

/-- No ping is answered by an access that fails if the stop query was out of the queue when the
queue was disposed. -/
theorem pc_ne_disposedQueue (h : (J.system Thread K).Run tr s)
    (hC : ∀ a ∈ tr, a.1.DisposesInTime a.2) : s.pc ≠ .failed .disposedQueue := by
  induction h with
  | init => simp [LoopJob.system, State.initial]
  | @step tr s t l hr hs ih =>
    have hC' : ∀ a ∈ tr, a.1.DisposesInTime a.2 := fun a ha => hC a (List.mem_append_left _ ha)
    specialize ih hC'
    cases hs with
    | @refuseUser before after query resume caught => cases caught <;> simp
    | @«return» resume => exact resume.pc_ne_failed _
    | @refusePong before after ready caught hdisposed hwaiting hpc =>
      -- The loop is not stopped, so the stop query would still be in the queue.
      have hqueue := stopQuery_notMem_queue hr hC' hdisposed
      have hmem := (stopEnqueued hr).disposed hdisposed
      have hlast := delivered_stopQuery hr
      have hstopped : s.isStopped = false := by
        by_contra hstopped
        simpa [hpc] using (stopInv hr).stopped (by simpa using hstopped)
      rw [hstopped] at hlast
      rw [enqueued_eq hr, hpc] at hmem
      simp [Pc.removed?, hqueue] at hmem
      exact absurd hmem (by simpa using hlast)
    | _ => first | exact ih | simp

/-- When everything has come to rest and the stop query was out of the queue when the queue was
disposed, it was delivered, after every query that was put into the queue before it. -/
theorem delivered_of_quiescent (h : (J.system Thread K).Run tr s)
    (hC : ∀ a ∈ tr, a.1.DisposesInTime a.2) (hs : s.Quiescent) :
    s.isStopped = true ∧ ∃ pre, delivered tr = pre ++ [.stopQuery] ∧
      (enqueued tr).takeWhile (fun query => !query.isStop) = pre := by
  obtain ⟨-, hreturned, -, hpc⟩ := hs
  have hdisposed := (stopInv h).disposed hreturned
  have hremoved : s.pc.removed? = none := by
    rcases hpc with ⟨_, hpc⟩ | hpc <;> simp [hpc, Pc.removed?]
  have heq : enqueued tr = delivered tr ++ s.queue := by
    simpa [hremoved] using enqueued_eq h
  -- The stop query was put into the queue and is no longer there, so it was delivered.
  have hmem : .stopQuery ∈ delivered tr := by
    have hmem := (stopEnqueued h).disposed hdisposed
    rw [heq, List.mem_append] at hmem
    exact hmem.resolve_right (stopQuery_notMem_queue h hC hdisposed)
  have hlast := delivered_stopQuery h
  split_ifs at hlast with hstopped
  · obtain ⟨pre, hpre, hnot⟩ := hlast
    refine ⟨hstopped, pre, hpre, ?_⟩
    -- It was delivered last, and the queue is first in, first out.
    have hblocks : ∀ query ∈ pre, (!query.isStop) = true := by
      intro query hquery
      cases query with
      | invokeQuery block => rfl
      | stopQuery => exact absurd hquery hnot
    rw [heq, hpre, List.append_assoc, List.takeWhile_append_of_pos hblocks]
    simp [Query.isStop]
  · exact absurd hmem hlast

/-- When everything has come to rest, the loop is stopped if and only if the stop query was out of
the queue when the queue was disposed. -/
theorem isStopped_iff_disposesInTime (h : (J.system Thread K).Run tr s) (hs : s.Quiescent) :
    s.isStopped = true ↔ ∀ a ∈ tr, a.1.DisposesInTime a.2 := by
  refine ⟨fun hstopped a ha => ?_, fun hC => (delivered_of_quiescent h hC hs).1⟩
  by_contra hlate
  have hfalse := isStopped_eq_false h (stopQuery_mem_queue h ha hlate).2
  simp [hstopped] at hfalse

/-- In a run whose `dispose` comes after the loop thread has taken the stop query out of the queue,
the handshake succeeds: the loop is stopped when everything has come to rest, the blocks that were
put into the queue before the stop query were executed once each and no others, and no ping is
answered by an access that fails. -/
theorem stop_handshake (h : (J.system Thread K).Run tr s)
    (hC : ∀ a ∈ tr, a.1.DisposesInTime a.2) :
    (s.Quiescent → s.isStopped = true ∧ executed tr = invokedBeforeStop tr) ∧
      s.pc ≠ .failed .disposedQueue := by
  refine ⟨fun hs => ?_, pc_ne_disposedQueue h hC⟩
  obtain ⟨hstopped, pre, hpre, htake⟩ := delivered_of_quiescent h hC hs
  refine ⟨hstopped, ?_⟩
  rw [executed, invokedBeforeStop, htake, hpre]
  simp [Query.block?]

/-- A native client whose stop query is brought up by the ping of a block that was put into the
queue after it. -/
theorem stop_handshake_overtaken : ∃ tr s,
    ((Native.clientLoopJob ℕ Unit).system Bool ⊤).Run tr s ∧ s.Quiescent ∧ s.isStopped = true ∧
      executed tr = [1] := by
  have h₁ := (System.Run.init (S := (Native.clientLoopJob ℕ Unit).system Bool ⊤)).step
    (Step.invokeSafe true 1 (by simp [State.Busy, State.initial, LoopJob.system]))
  have h₂ := h₁.step (Step.addLast [] [] rfl rfl rfl)
  have h₃ := h₂.step (Step.sendPing rfl (ENat.natCast_lt_top _))
  have h₄ := h₃.step (Step.stopSafe false rfl
    (by simp [State.Busy, State.initial, LoopJob.system]))
  have h₅ := h₄.step (Step.addLast [] [] rfl rfl rfl)
  have h₆ := h₅.step (Step.sendStop rfl)
  -- The ping of block 2 brings up the stop query, and block 2 stays in the queue.
  have h₇ := h₆.step (Step.invokeSafe true 2 (by simp [State.Busy]))
  have h₈ := h₇.step (Step.addLast [] [] rfl rfl rfl)
  have h₉ := h₈.step (Step.sendPing rfl (ENat.natCast_lt_top _))
  have h₁₀ := h₉.step (Step.readClock 0 rfl rfl)
  have h₁₁ := h₁₀.step (Step.enterPoll rfl (.inl rfl))
  have h₁₂ := h₁₁.step (Step.wake [.pong] rfl (by simp) ⟨fun i => i == 0, rfl⟩
    (fun _ => List.cons_ne_nil _ _))
  have h₁₃ := h₁₂.step (Step.recvPing rfl rfl)
  have h₁₄ := h₁₃.step (Step.removeFirst [] [] rfl rfl rfl rfl rfl)
  have h₁₅ := h₁₄.step (Step.runBlock rfl)
  have h₁₆ := h₁₅.step (Step.return rfl)
  have h₁₇ := h₁₆.step (Step.endPass rfl)
  have h₁₈ := h₁₇.step (Step.readClock 0 rfl rfl)
  have h₁₉ := h₁₈.step (Step.enterPoll rfl (.inl rfl))
  have h₂₀ := h₁₉.step (Step.wake [.pong] rfl (by simp) ⟨fun i => i == 0, rfl⟩
    (fun _ => List.cons_ne_nil _ _))
  have h₂₁ := h₂₀.step (Step.recvPing rfl rfl)
  have h₂₂ := h₂₁.step (Step.removeFirst [] [] rfl rfl rfl rfl rfl)
  have h₂₃ := h₂₂.step (Step.stop rfl)
  have h₂₄ := h₂₃.step (Step.endPass rfl)
  have h₂₅ := h₂₄.step (Step.exit rfl rfl)
  have h₂₆ := h₂₅.step (Step.dispose rfl rfl)
  have hdisposes := stop_handshake h₂₆ (by
    simp [State.DisposesInTime, State.initial, LoopJob.system])
  exact ⟨_, _, h₂₆, ⟨rfl, rfl, rfl, .inr rfl⟩, hdisposes.1 ⟨rfl, rfl, rfl, .inr rfl⟩⟩

/-- The shortest run with a `stopSafe` leaves the loop waiting in `poll` for good; and when one
query is pending at `dispose`, the access of `handlePongSocket` fails. -/
theorem stop_handshake_fails :
    (∃ tr s, ((Native.clientLoopJob ℕ Unit).system Bool ⊤).Run tr s ∧ s.Quiescent ∧
      s.isStopped = false) ∧
    ∃ tr s, ((Native.clientLoopJob ℕ Unit).system Bool ⊤).Run tr s ∧
      s.pc = .failed .disposedQueue := by
  constructor
  · have h₁ := (System.Run.init (S := (Native.clientLoopJob ℕ Unit).system Bool ⊤)).step
      (Step.stopSafe false rfl (by simp [State.Busy, State.initial, LoopJob.system]))
    have h₂ := h₁.step (Step.addLast [] [] rfl rfl rfl)
    have h₃ := h₂.step (Step.sendStop rfl)
    -- No ping was sent, so that nothing wakes the loop thread.
    have h₄ := h₃.step (Step.dispose rfl rfl)
    have h₅ := h₄.step (Step.readClock 0 rfl rfl)
    have h₆ := h₅.step (Step.enterPoll rfl (.inl rfl))
    exact ⟨_, _, h₆, ⟨rfl, rfl, rfl, .inl ⟨0, rfl⟩⟩, rfl⟩
  · have h₁ := (System.Run.init (S := (Native.clientLoopJob ℕ Unit).system Bool ⊤)).step
      (Step.invokeSafe true 1
        (by simp [State.Busy, State.initial, LoopJob.system]))
    have h₂ := h₁.step (Step.addLast [] [] rfl rfl rfl)
    have h₃ := h₂.step (Step.sendPing rfl (ENat.natCast_lt_top _))
    have h₄ := h₃.step (Step.stopSafe false rfl
      (by simp [State.Busy, State.initial, LoopJob.system]))
    have h₅ := h₄.step (Step.addLast [] [] rfl rfl rfl)
    have h₆ := h₅.step (Step.sendStop rfl)
    have h₇ := h₆.step (Step.dispose rfl rfl)
    have h₈ := h₇.step (Step.readClock 0 rfl rfl)
    have h₉ := h₈.step (Step.enterPoll rfl (.inl rfl))
    have h₁₀ := h₉.step (Step.wake [.pong] rfl (by simp) ⟨fun i => i == 0, rfl⟩
      (fun _ => List.cons_ne_nil _ _))
    -- The ping of block 1 is read from the pipe, but the queue is disposed.
    have h₁₁ := h₁₀.step (Step.recvPing rfl rfl)
    have h₁₂ := h₁₁.step (Step.refusePong [] [] false
      rfl rfl rfl)
    exact ⟨_, _, h₁₂, rfl⟩

end Runs

end Khala
