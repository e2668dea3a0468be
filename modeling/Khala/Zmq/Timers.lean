import Khala.Zmq.Stop

/-!
# Timers and the wait in poll

The loop job looks at the scheduled blocks before it waits in `poll` and then not before the wait
ends. The JVM loops wait for a second at most; the native `poll` passes `-1` to `zmq_poll`, so that
without a message the wait does not end. `served_iff` says that a run of a loop serves its timers
exactly when the loop is a JVM one or never waits with a block scheduled.
-/

namespace Khala

open Transitions

variable {Block Thread S : Type} {J : LoopJob Block} {K : ℕ∞}

/-- The order of the scheduled blocks is the order of their times. -/
theorem ScheduledBlock.isLE_compareTo {a b : ScheduledBlock Block} :
    (a.compareTo b).isLE ↔ a.scheduleTimeMillis ≤ b.scheduleTimeMillis := by
  simp [ScheduledBlock.compareTo, Std.isLE_compare]

/-- A block that `poll` returns is due if the one that `peek` returns is. -/
theorem due_of_peek {q rest : J.timers.Queue} {head block : ScheduledBlock Block}
    {currentTime : Int64} (hpeek : J.timers.Peek q head)
    (hdue : head.scheduleTimeMillis ≤ currentTime) (hpoll : J.timers.Poll q block rest) :
    block.scheduleTimeMillis ≤ currentTime := by
  have hle := MinQueue.le_of_poll_of_peek hpoll hpeek
  exact Int64.le_trans (ScheduledBlock.isLE_compareTo.mp hle) hdue

/-- The timer pass can start a block that `poll` returns and that is due. -/
theorem Step.runTimer_of_poll {s : State J Thread} {currentTime : Int64}
    {block : ScheduledBlock Block} {rest : J.timers.Queue} (hpc : s.pc = .timers currentTime)
    (hpoll : J.timers.Poll s.scheduledBlocks block rest)
    (hdue : block.scheduleTimeMillis ≤ currentTime) :
    Step K s (.runTimer block)
      { s with scheduledBlocks := rest, pc := .user (.timers currentTime) } :=
  .runTimer hpc (MinQueue.isNotEmpty_of_poll hpoll) (MinQueue.peek_of_poll hpoll) hdue hpoll

/-- A step of the loop thread that needs no message. -/
def Label.Quiet : Label J Thread → Prop
  | .timeout => True
  | .endPass => True
  | .readClock _ => True
  | .runTimer _ => True
  | .return => True
  | _ => False

/-- What the wait in `poll` owes to a scheduled block: it ends within a second, from where it began
the block can be started by any clock reading that has reached its time without another message
arriving, and whatever happens no later wait begins, on such a reading, before it was started. -/
structure State.Serves (K : ℕ∞) (s : State J Thread) (block : ScheduledBlock Block) : Prop where
  bounded : ∃ ms ≤ 1000, J.pollTimeout = some ms
  started : s.pipe = [] → ∀ now, block.scheduleTimeMillis ≤ now → ∃ tr t,
    ((J.system Thread K).startingAt s).Run tr t ∧ (∀ a ∈ tr, a.2.Quiet) ∧
      .readClock now ∈ tr.map Prod.snd ∧ .runTimer block ∈ tr.map Prod.snd
  inTime : ∀ {tr t now}, ((J.system Thread K).startingAt s).Run tr t → t.pc = .polling now →
    block.scheduleTimeMillis ≤ now → .runTimer block ∈ tr.map Prod.snd

/-- Every block that is scheduled while the loop thread waits in `poll` is served. -/
def State.NotStranded (K : ℕ∞) (s : State J Thread) : Prop :=
  s.Polling → ∀ block ∈ s.scheduled, s.Serves K block

/-- While the loop thread waits in `poll` the times of all scheduled blocks are later than the clock
reading of the pass before. -/
def State.LaterThanPass (s : State J Thread) : Prop :=
  ∀ currentTime, s.pc = .polling currentTime →
    ∀ block ∈ s.scheduled, currentTime < block.scheduleTimeMillis

/-- A step keeps the scheduled blocks later than the pass, while the loop thread waits. -/
theorem Step.laterThanPass {s t : State J Thread} {l : Label J Thread} (hs : Step K s l t)
    (h : s.LaterThanPass) : t.LaterThanPass := by
  cases hs with
  | @enterPoll currentTime hpc hlast =>
    rintro _ ⟨⟩ block hblock
    -- The pass ended at an empty queue, or at a least block that is not due.
    rcases hlast with hempty | ⟨head, hpeek, hhead⟩
    · exact absurd hblock (State.scheduled_eq_nil_iff.mpr hempty ▸ List.not_mem_nil)
    · have hle := MinQueue.le_of_peek hpeek block hblock
      exact Int64.lt_of_lt_of_le hhead (ScheduledBlock.isLE_compareTo.mp hle)
  | @refuseUser before after query resume caught =>
    intro currentTime hpc
    cases caught <;> cases hpc
  | @«return» resume =>
    intro currentTime hpc
    cases resume <;> cases hpc
  | invokeSafe | stopSafe | addLast | sendPing | sendStop | dispose | refuse => exact h
  | call _ hpc | invokeAfterTimeout _ _ _ hpc =>
    intro currentTime hpc'
    simp [hpc] at hpc'
  | _ => rintro _ ⟨⟩

/-- A scheduled block stays scheduled until it is started. -/
theorem Step.mem_scheduled {s t : State J Thread} {l : Label J Thread} (hs : Step K s l t)
    {block : ScheduledBlock Block} (h : block ∈ s.scheduled) :
    block ∈ t.scheduled ∨ l = .runTimer block := by
  cases hs with
  | runTimer hpc _ _ _ hpoll =>
    rcases List.mem_cons.mp ((J.timers.perm_of_poll hpoll).mem_iff.mp h) with rfl | hrest
    · exact .inr rfl
    · exact .inl hrest
  | invokeAfterTimeout =>
    exact .inl ((J.timers.perm_of_add _ _).mem_iff.mpr (List.mem_cons_of_mem _ h))
  | _ => exact .inl h

section Runs

variable {tr : List (State J Thread × Label J Thread)} {s t : State J Thread}

/-- In every run the scheduled blocks are later than the pass, while the loop thread waits. -/
theorem laterThanPass (h : (J.system Thread K).Run tr s) : s.LaterThanPass :=
  h.invariant (I := State.LaterThanPass) (by rintro _ ⟨⟩) fun hi hs => Step.laterThanPass hs hi

/-- A block that was scheduled when a run began is scheduled at its end or was started in it. -/
theorem mem_scheduled_or_started (h : ((J.system Thread K).startingAt s).Run tr t)
    {block : ScheduledBlock Block} (hmem : block ∈ s.scheduled) :
    block ∈ t.scheduled ∨ .runTimer block ∈ tr.map Prod.snd := by
  induction h with
  | init => exact .inl hmem
  | @step tr s t l hr hs ih =>
    rw [List.map_append, List.mem_append]
    rcases ih with hmem | hstarted
    · rcases Step.mem_scheduled hs hmem with hmem | rfl
      · exact .inl hmem
      · exact .inr (.inr (List.mem_singleton_self _))
    · exact .inr (.inl hstarted)

/-- A timer pass with the clock reading `now` can poll any sequence of blocks that are due. -/
theorem exists_run_of_polls {now : Int64} {block : ScheduledBlock Block}
    {blocks : List (ScheduledBlock Block)} {rest : J.timers.Queue} (hpc : s.pc = .timers now)
    (hpolls : J.timers.Polls s.scheduledBlocks (blocks ++ [block]) rest)
    (hdue : ∀ b ∈ blocks ++ [block], b.scheduleTimeMillis ≤ now) :
    ∃ tr t, ((J.system Thread K).startingAt s).Run tr t ∧ (∀ a ∈ tr, a.2.Quiet) ∧
      .runTimer block ∈ tr.map Prod.snd := by
  -- By induction on the blocks that are polled before `block`.
  induction blocks generalizing s with
  | nil =>
    obtain _ | ⟨hpoll, -⟩ := hpolls
    have hrun := (System.Run.init (S := (J.system Thread K).startingAt s)).step
      (Step.runTimer_of_poll hpc hpoll (hdue block (by simp)))
    exact ⟨_, _, hrun, by simp [Label.Quiet], by simp⟩
  | cons first blocks ih =>
    obtain _ | ⟨hpoll, hpolls⟩ := hpolls
    have hrun := ((System.Run.init (S := (J.system Thread K).startingAt s)).step
      (Step.runTimer_of_poll hpc hpoll (hdue first (by simp)))).step (Step.return rfl)
    obtain ⟨tr, t, hrest, hquiet, hmem⟩ :=
      ih (s := { s with scheduledBlocks := _, pc := .timers now }) rfl hpolls
        fun b hb => hdue b (List.mem_cons_of_mem _ hb)
    refine ⟨_, t, hrun.append hrest, ?_, ?_⟩
    · simpa [Label.Quiet, or_imp, forall_and] using hquiet
    · simp only [List.map_append, List.mem_append, hmem, or_true]

/-- A wait of a second at most serves every scheduled block. -/
theorem serves_of_pollTimeout {ms : ℕ} (hms : ms ≤ 1000) (hpoll : J.pollTimeout = some ms)
    (h : (J.system Thread K).Run tr s) : s.NotStranded K := by
  rintro ⟨currentTime, hpc⟩ block hblock
  refine ⟨⟨ms, hms, hpoll⟩, ?_, ?_⟩
  · intro hpipe now hdue
    have hstopped : s.isStopped = false := by
      by_contra hstopped
      simpa [hpc] using (stopInv h).stopped (by simpa using hstopped)
    -- The wait ends by its timeout, and the pass that follows comes to `block`.
    have hrun := (((System.Run.init (S := (J.system Thread K).startingAt s)).step
      (Step.timeout hpc hpoll hpipe)).step (Step.endPass rfl)).step
      (Step.readClock now rfl hstopped)
    obtain ⟨blocks, rest, hpolls, hle⟩ := MinQueue.exists_polls_of_mem hblock
    have hall : ∀ b ∈ blocks ++ [block], b.scheduleTimeMillis ≤ now := by
      intro b hb
      rcases List.mem_append.mp hb with hb | hb
      · exact Int64.le_trans (ScheduledBlock.isLE_compareTo.mp (hle b hb)) hdue
      · obtain rfl := List.mem_singleton.mp hb
        exact hdue
    obtain ⟨tr, t, hrest, hquiet, hmem⟩ :=
      exists_run_of_polls (K := K) (s := { s with pc := .timers now }) rfl hpolls hall
    refine ⟨_, t, hrun.append hrest, ?_, by simp, ?_⟩
    · simpa [Label.Quiet, or_imp, forall_and] using hquiet
    · simp only [List.map_append, List.mem_append, hmem, or_true]
  · intro tr' t now hrun hpc' hdue
    rcases mem_scheduled_or_started hrun hblock with hmem | hstarted
    -- The pass before this wait would have started the block.
    · have hlater := laterThanPass (h.append hrun) now hpc' block hmem
      exact absurd hdue (Int64.not_le.mpr hlater)
    · exact hstarted

/-- Where the wait has no end a scheduled block is stranded. -/
theorem notStranded_iff_of_pollTimeout_eq_none (hpoll : J.pollTimeout = none) :
    s.NotStranded K ↔ (s.Polling → s.scheduled = []) := by
  refine forall_congr' fun _ => ⟨fun h => ?_, fun h => by simp [h]⟩
  refine List.eq_nil_iff_forall_not_mem.mpr fun block hblock => ?_
  obtain ⟨ms, -, hms⟩ := (h block hblock).bounded
  simp [hpoll] at hms

/-- The wait begins with `enterPoll`, and what is scheduled does not change while it lasts. -/
theorem Step.polling {l : Label J Thread} (hs : Step K s l t) (ht : t.Polling) :
    t.scheduled = s.scheduled ∧ (l = .enterPoll ∨ s.Polling ∧ l ≠ .enterPoll) := by
  obtain ⟨currentTime, hpc⟩ := ht
  cases hs with
  | enterPoll => exact ⟨rfl, .inl rfl⟩
  | refuseUser => split at hpc <;> cases hpc
  | @«return» resume => cases resume <;> cases hpc
  | call _ hpc' | invokeAfterTimeout _ _ _ hpc' => simp [hpc'] at hpc
  | invokeSafe | stopSafe | addLast | sendPing | sendStop | dispose | refuse =>
    exact ⟨rfl, .inr ⟨⟨currentTime, hpc⟩, by simp⟩⟩
  | _ => cases hpc

/-- In a run of a loop every block that is scheduled during a wait in `poll` is served, exactly when
the loop is a JVM one or no wait begins with a block scheduled. -/
theorem served_iff (variant : Variant)
    {tr : List (State (variant.job Block S) Thread × Label (variant.job Block S) Thread)}
    {s : State (variant.job Block S) Thread}
    (h : ((variant.job Block S).system Thread K).Run tr s) :
    (∀ u ∈ System.states tr s, u.NotStranded K) ↔
      variant.platform = .jvm ∨ ∀ a ∈ tr, a.2 = .enterPoll → a.1.scheduled = [] := by
  rcases variant.pollTimeout_job Block S with ⟨hjvm, hpoll⟩ | ⟨hjvm, hpoll⟩
  · refine iff_of_true (fun u hu => ?_) (.inl hjvm)
    obtain ⟨tr', hr⟩ := h.reachable_of_mem_states hu
    exact serves_of_pollTimeout (Nat.le_refl 1000) hpoll hr
  · simp only [hjvm, false_or, notStranded_iff_of_pollTimeout_eq_none hpoll]
    -- What is scheduled when the wait begins stays scheduled, for as long as it lasts.
    refine h.forall_states_iff (C := fun s l => l = .enterPoll → s.scheduled = [])
      (G := fun u => u.Polling → u.scheduled = [])
      (fun _ => (variant.job Block S).timers.toList_empty) ?_
    intro s l t _ hgood hs
    constructor
    · rintro ht rfl
      cases hs with
      | enterPoll => exact ht ⟨_, rfl⟩
    · intro hC ht
      obtain ⟨heq, rfl | ⟨hpolling, -⟩⟩ := Step.polling hs ht
      · exact heq.trans (hC rfl)
      · exact heq.trans (hgood hpolling)

/-- A JVM client that waits in `poll` with a timer of five seconds. -/
theorem served_jvmClient : ∃ tr s,
    ((Variant.jvmClient.job Unit Unit).system Unit 1).Run tr s ∧ s.Polling ∧ s.scheduled ≠ [] ∧
      s.NotStranded 1 := by
  obtain ⟨tr, h, -⟩ := exists_run_in_block (K := 1) (Variant.jvmClient.job Unit Unit) () ()
    (by decide) ⟨[.socket pongSocket], List.nodup_singleton _, rfl⟩
  have h₁ := h.step (Step.invokeAfterTimeout 0 5000 () rfl)
  have h₂ := h₁.step (Step.return rfl)
  have h₃ := h₂.step (Step.endPass rfl)
  have h₄ := h₃.step (Step.readClock 0 rfl rfl)
  have h₅ := h₄.step (Step.enterPoll rfl (.inr ⟨⟨5000, ()⟩,
    ⟨[], .refl _, List.forall_mem_singleton.mpr (by decide)⟩, by decide⟩))
  exact ⟨_, _, h₅, ⟨0, rfl⟩, List.cons_ne_nil _ _,
    (served_iff .jvmClient h₅).mpr (.inl rfl) _ (by simp [System.states])⟩

/-- A native loop that registers a timer and then hears nothing waits for good. -/
theorem stranded_nativeClient : ∃ tr s,
    ((Variant.nativeClient.job Unit Unit).system Unit 1).Run tr s ∧ s.Polling ∧
      s.scheduled = [⟨5000, ()⟩] ∧ ¬ s.NotStranded 1 := by
  obtain ⟨tr, h, -⟩ := exists_run_in_block (K := 1) (Variant.nativeClient.job Unit Unit) () ()
    (by decide) ⟨fun i => i == 0, rfl⟩
  have h₁ := h.step (Step.invokeAfterTimeout 0 5000 () rfl)
  have h₂ := h₁.step (Step.return rfl)
  have h₃ := h₂.step (Step.endPass rfl)
  have h₄ := h₃.step (Step.readClock 0 rfl rfl)
  have h₅ := h₄.step (Step.enterPoll rfl (.inr ⟨⟨5000, ()⟩, rfl, by decide⟩))
  refine ⟨_, _, h₅, ⟨0, rfl⟩, rfl, ?_⟩
  rw [notStranded_iff_of_pollTimeout_eq_none rfl]
  exact fun h => List.cons_ne_nil _ _ (h ⟨0, rfl⟩)

end Runs

end Khala
