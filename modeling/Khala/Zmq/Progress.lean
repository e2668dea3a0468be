import Khala.Zmq.Calls
import Khala.Zmq.Client.Dispatch
import Khala.Zmq.Timers.Pass

/-!
# What the loop comes to do

`Calls.lean` says where a block can be. This module says that it does not stay there: in an
execution without a stop in which no thread is held up for ever, every block that `invokeSafe` is
called with is executed (`every_call_executed`), and every timer block is run once the clock has
reached its time for good (`every_timer_run`).

What is assumed is in `Fair`, for each party by itself. That the passes of the loop job come to
their ends is proved from it, by the number of handlers that are still to be called, and so is that
a ping that is on its way is read in the next pass: a state in which one is stays so until a query
is delivered, and is not left by the end of a pass.
-/

namespace Khala

open Transitions System

variable {Block Thread : Type} {J : LoopJob Block} {K : ℕ∞}

/-- The loop thread has left the loop job, or died. -/
def Pc.Dead {Source : Type} (pc : Pc Block Source) : Prop := pc = .exited ∨ pc.Failed

/-- The loop thread waits in `poll` with no ping to read. -/
def State.Idle (s : State J Thread) : Prop := s.Polling ∧ s.pipe = []

/-- An execution in which no thread is held up for ever. -/
structure Fair (e : (J.system Thread K).Execution) : Prop where
  /-- The loop thread stays nowhere but in `poll` with no ping to read. -/
  moves : ∀ n, ¬ (e.state n).Idle → ∃ m ≥ n, (e.state m).pc ≠ (e.state n).pc
  /-- User code returns. -/
  returns : ∀ n, ∃ m ≥ n, ¬ (e.state m).pc.InUser
  /-- The timer passes end, for which `timerPass_exact` gives a reason. -/
  timers : ∀ n currentTime, ∃ m ≥ n, ¬ (e.state m).pc.InTimerPass currentTime
  /-- `poll` reports the pong socket when there is a ping to read. -/
  reports : ∀ n ready, e.label n = .wake ready → (e.state n).pipe ≠ [] → .pong ∈ ready
  /-- The access sections end. -/
  sends : ∀ n, ∃ m ≥ n, (e.state m).sending = none
  /-- No call of `access` waits for ever. -/
  serves : ∀ n, ∀ a ∈ (e.state n).waiting, ∃ m ≥ n, a ∉ (e.state m).waiting

/-! ## The passes end -/

/-- How far the loop thread is from the end of the pass that it is in. -/
def Pc.passLeft {Source : Type} : Pc Block Source → Option ℕ
  | .pass ready => some (4 * ready.length)
  | .handlePong ready => some (4 * ready.length + 3)
  | .removed _ ready => some (4 * ready.length + 2)
  | .received _ _ ready => some (4 * ready.length + 2)
  | .user (.pass ready) => some (4 * ready.length + 1)
  | .blocked (.pass ready) => some (4 * ready.length + 1)
  | _ => none

section Steps

variable {s t : State J Thread} {l : Label J Thread}

/-- A loop thread that is dead stays where it is. -/
theorem Step.dead (hs : Step K s l t) (h : s.pc.Dead) : t.pc = s.pc := by
  cases hs <;> simp_all [Pc.Dead, Pc.Failed]

/-- In a pass the loop thread stays where it is, stays in user code, comes nearer to the end of the
pass, or comes to it. -/
theorem Step.passLeft (hs : Step K s l t) {k : ℕ} (h : s.pc.passLeft = some k) :
    l = .endPass ∨ t.pc.Dead ∨ (∃ j < k, t.pc.passLeft = some j) ∨
      t.pc.passLeft = some k ∧ (t.pc = s.pc ∨ s.pc.InUser ∧ t.pc.InUser) := by
  -- A call, and its return, lead from user code to user code.
  have huser : ∀ {resume : Resume J.Source} {pc : Pc Block J.Source},
      (s.pc = .user resume ∨ s.pc = .blocked resume) → (pc = .user resume ∨ pc = .blocked resume) →
        pc.passLeft = some k ∧ (pc = s.pc ∨ s.pc.InUser ∧ pc.InUser) := by
    rintro resume pc hpc hpc'
    refine ⟨?_, .inr ⟨⟨resume, hpc⟩, ⟨resume, hpc'⟩⟩⟩
    rcases hpc with hpc | hpc <;> rcases hpc' with rfl | rfl <;> cases resume <;>
      simp_all [Pc.passLeft]
  cases hs with
  | endPass => exact .inl rfl
  | recvFails | removeFirstEmpty | refusePong => exact .inr (.inl (.inr ⟨_, rfl⟩))
  -- One handler less, or one step less of the handler that runs.
  | recv _ hpc | listen hpc | recvPing hpc | removeFirst _ _ _ _ _ hpc | runBlock hpc | stop hpc =>
    refine .inr (.inr (.inl ?_))
    simp only [hpc, Pc.passLeft, Option.some.injEq, List.length_cons] at h
    exact ⟨_, by omega, rfl⟩
  | @«return» resume hpc =>
    cases resume with
    | timers => simp [hpc, Pc.passLeft] at h
    | pass ready =>
      refine .inr (.inr (.inl ?_))
      simp only [hpc, Pc.passLeft, Option.some.injEq] at h
      exact ⟨_, by omega, rfl⟩
  | @refuseUser _ _ _ resume caught _ _ hpc =>
    cases caught with
    | false => exact .inr (.inl (.inr ⟨_, rfl⟩))
    | true => exact .inr (.inr (.inr (huser (.inr hpc) (.inl rfl))))
  | invokeSafeLoop _ hpc | stopSafeLoop _ hpc =>
    exact .inr (.inr (.inr (huser (.inl hpc) (.inr rfl))))
  | sendPingLoop _ hpc | disposeLoop _ _ hpc =>
    exact .inr (.inr (.inr (huser (.inr hpc) (.inl rfl))))
  | invokeSafe | stopSafe | addLast | sendPing | sendStop | dispose | refuse | call |
    invokeAfterTimeout => exact .inr (.inr (.inr ⟨h, .inl rfl⟩))
  | _ => simp_all [Pc.passLeft]

/-- A pass ends at the test of `isStopped`. -/
theorem Step.pc_endPass (hs : Step K s .endPass t) : t.pc = .top := by
  cases hs
  rfl

/-- From the test of `isStopped` the loop thread goes to the timers, or is done. -/
theorem Step.of_top (hs : Step K s l t) (h : s.pc = .top) (hne : t.pc ≠ .top) :
    t.pc.Dead ∨ ∃ now, l = .readClock now ∧ t.pc = .timers now := by
  cases hs with
  | exit => exact .inl (.inl rfl)
  | readClock now => exact .inr ⟨now, rfl, rfl⟩
  | _ => simp_all

/-- A wait in `poll` ends with a pass over the sockets that are ready. -/
theorem Step.of_polling (hs : Step K s l t) {currentTime : Int64}
    (h : s.pc = .polling currentTime) (hne : t.pc ≠ .polling currentTime) :
    ∃ ready, t.pc = .pass ready ∧ (l = .timeout ∨ l = .wake ready) := by
  cases hs with
  | timeout => exact ⟨_, rfl, .inl rfl⟩
  | wake => exact ⟨_, rfl, .inr rfl⟩
  | _ => simp_all

/-- A timer pass ends with the call of `poll`, or the loop thread dies in it. -/
theorem Step.of_inTimerPass (hs : Step K s l t) {currentTime : Int64}
    (h : s.pc.InTimerPass currentTime) (hne : ¬ t.pc.InTimerPass currentTime) :
    t.pc.Dead ∨ t.pc = .polling currentTime := by
  by_cases hl : l = .enterPoll
  · subst hl
    cases hs with
    | enterPoll hpc =>
      obtain h | h | h := h <;> rw [hpc] at h <;> cases h
      exact .inr rfl
  · exact .inl (.inr ((Step.inTimerPass hs hl (.inl h)).resolve_left hne))

end Steps

section Executions

variable {e : (J.system Thread K).Execution} {n : ℕ}

/-- In a fair execution the loop thread does not die. -/
theorem Fair.not_dead (he : Fair e) (n : ℕ) : ¬ (e.state n).pc.Dead := by
  intro hdead
  have hstay : ∀ m ≥ n, (e.state m).pc = (e.state n).pc := by
    intro m hm
    induction m, hm using Nat.le_induction with
    | base => rfl
    | succ m _ ih => exact (Step.dead (e.step m) (by rwa [ih])).trans ih
  have hidle : ¬ (e.state n).Idle := by
    rintro ⟨⟨currentTime, hpc⟩, -⟩
    simp [hpc, Pc.Dead, Pc.Failed] at hdead
  obtain ⟨m, hm, hne⟩ := he.moves n hidle
  exact hne (hstay m hm)

/-- In a pass the loop thread comes nearer to its end. -/
theorem Fair.exists_passLeft_lt (he : Fair e) {k : ℕ} (hk : (e.state n).pc.passLeft = some k) :
    ∃ m ≥ n, e.label m = .endPass ∨ ∃ j < k, (e.state m).pc.passLeft = some j := by
  by_contra hnone
  have hstay : ∀ m ≥ n, (e.state m).pc.passLeft = some k ∧ ((e.state m).pc = (e.state n).pc ∨
      (e.state n).pc.InUser ∧ (e.state m).pc.InUser) := by
    intro m hm
    induction m, hm using Nat.le_induction with
    | base => exact ⟨hk, .inl rfl⟩
    | succ m hm ih =>
      obtain ⟨hleft, hwhere⟩ := ih
      obtain hend | hdead | ⟨j, hj, hless⟩ | ⟨hleft', hwhere'⟩ := Step.passLeft (e.step m) hleft
      · exact absurd ⟨m, hm, .inl hend⟩ hnone
      · exact absurd hdead (he.not_dead _)
      · exact absurd ⟨m + 1, by omega, .inr ⟨j, hj, hless⟩⟩ hnone
      · refine ⟨hleft', ?_⟩
        obtain hwhere' | ⟨huser, huser'⟩ := hwhere'
        · rwa [hwhere']
        · exact .inr ⟨hwhere.elim (fun hpc => hpc ▸ huser) And.left, huser'⟩
  by_cases huser : (e.state n).pc.InUser
  · obtain ⟨m, hm, hout⟩ := he.returns n
    exact hout ((hstay m hm).2.elim (fun hpc => hpc ▸ huser) And.right)
  · have hidle : ¬ (e.state n).Idle := by
      rintro ⟨⟨currentTime, hpc⟩, -⟩
      simp [hpc, Pc.passLeft] at hk
    obtain ⟨m, hm, hne⟩ := he.moves n hidle
    exact hne ((hstay m hm).2.resolve_right fun h => huser h.1)

/-- Every pass ends. -/
theorem Fair.exists_endPass (he : Fair e) {k : ℕ} (hk : (e.state n).pc.passLeft = some k) :
    ∃ m ≥ n, e.label m = .endPass := by
  induction k using Nat.strong_induction_on generalizing n with
  | _ k ih =>
    obtain ⟨m, hm, hend | ⟨j, hj, hless⟩⟩ := he.exists_passLeft_lt hk
    · exact ⟨m, hm, hend⟩
    · obtain ⟨m', hm', hend⟩ := ih j hj hless
      exact ⟨m', hm.trans hm', hend⟩

/-- A round begins with a reading of the clock. -/
theorem Fair.exists_readClock (he : Fair e) (hpc : (e.state n).pc = .top) :
    ∃ m ≥ n, ∃ now, e.label m = .readClock now ∧ (e.state (m + 1)).pc = .timers now := by
  obtain ⟨m, hm, hne⟩ := he.moves n (by rintro ⟨⟨_, h⟩, -⟩; simp [hpc] at h)
  rw [hpc] at hne
  obtain ⟨k, hk, htop, hleft⟩ :=
    exists_leaving (fun i => (e.state i).pc = .top) hpc hm hne
  exact ⟨k, hk, (Step.of_top (e.step k) htop hleft).resolve_left (he.not_dead _)⟩

/-- After the timer pass the loop job calls `poll`. -/
theorem Fair.exists_polling (he : Fair e) {currentTime : Int64}
    (hpc : (e.state n).pc.InTimerPass currentTime) :
    ∃ m ≥ n, (e.state m).pc = .polling currentTime := by
  obtain ⟨m, hm, hne⟩ := he.timers n currentTime
  obtain ⟨k, hk, hin, hleft⟩ :=
    exists_leaving (fun i => (e.state i).pc.InTimerPass currentTime) hpc hm hne
  exact ⟨k + 1, by omega, (Step.of_inTimerPass (e.step k) hin hleft).resolve_left (he.not_dead _)⟩

/-- The wait in `poll` ends with a pass, or there is no ping to read. -/
theorem Fair.exists_pass (he : Fair e) {currentTime : Int64}
    (hpc : (e.state n).pc = .polling currentTime) :
    ∃ m ≥ n, (e.state m).Idle ∨ ∃ ready, (e.state m).pc = .pass ready := by
  by_cases hidle : (e.state n).Idle
  · exact ⟨n, le_rfl, .inl hidle⟩
  · obtain ⟨m, hm, hne⟩ := he.moves n hidle
    rw [hpc] at hne
    obtain ⟨k, hk, hpolling, hleft⟩ :=
      exists_leaving (fun i => (e.state i).pc = .polling currentTime) hpc hm hne
    obtain ⟨ready, hpass, -⟩ := Step.of_polling (e.step k) hpolling hleft
    exact ⟨k + 1, by omega, .inr ⟨ready, hpass⟩⟩

/-- Again and again a pass ends, or the loop thread waits in `poll` with no ping to read. -/
theorem Fair.rounds (he : Fair e) (n : ℕ) : ∃ m ≥ n, e.label m = .endPass ∨ (e.state m).Idle := by
  have fromPass : ∀ {n k}, (e.state n).pc.passLeft = some k →
      ∃ m ≥ n, e.label m = .endPass ∨ (e.state m).Idle := by
    intro n k hk
    obtain ⟨m, hm, hend⟩ := he.exists_endPass hk
    exact ⟨m, hm, .inl hend⟩
  have fromPolling : ∀ {n currentTime}, (e.state n).pc = .polling currentTime →
      ∃ m ≥ n, e.label m = .endPass ∨ (e.state m).Idle := by
    intro n currentTime hpc
    obtain ⟨m, hm, hidle | ⟨ready, hpass⟩⟩ := he.exists_pass hpc
    · exact ⟨m, hm, .inr hidle⟩
    · obtain ⟨m', hm', h⟩ := fromPass (n := m) (k := 4 * ready.length) (by rw [hpass]; rfl)
      exact ⟨m', hm.trans hm', h⟩
  have fromTimers : ∀ {n currentTime}, (e.state n).pc.InTimerPass currentTime →
      ∃ m ≥ n, e.label m = .endPass ∨ (e.state m).Idle := by
    intro n currentTime hpc
    obtain ⟨m, hm, hpolling⟩ := he.exists_polling hpc
    obtain ⟨m', hm', h⟩ := fromPolling hpolling
    exact ⟨m', hm.trans hm', h⟩
  cases hpc : (e.state n).pc with
  | top =>
    obtain ⟨m, hm, now, -, htimers⟩ := he.exists_readClock hpc
    obtain ⟨m', hm', h⟩ := fromTimers (.inl htimers)
    exact ⟨m', by omega, h⟩
  | timers => exact fromTimers (.inl hpc)
  | polling => exact fromPolling hpc
  | pass | handlePong | removed | received => exact fromPass (by rw [hpc]; rfl)
  | user resume =>
    cases resume with
    | timers => exact fromTimers (.inr (.inl hpc))
    | pass => exact fromPass (by rw [hpc]; rfl)
  | blocked resume =>
    cases resume with
    | timers => exact fromTimers (.inr (.inr hpc))
    | pass => exact fromPass (by rw [hpc]; rfl)
  | exited => exact absurd (.inl hpc) (he.not_dead n)
  | failed why => exact absurd (.inr ⟨why, hpc⟩) (he.not_dead n)

/-- Where the waits in `poll` end, a pass ends again and again. -/
theorem Fair.exists_endPass_of_wait (he : Fair e) (hwait : ∀ n, ∃ m ≥ n, ¬ (e.state m).Polling)
    (n : ℕ) : ∃ m ≥ n, e.label m = .endPass := by
  obtain ⟨m, hm, hend | ⟨⟨currentTime, hpc⟩, -⟩⟩ := he.rounds n
  · exact ⟨m, hm, hend⟩
  · obtain ⟨i, hi, hnot⟩ := hwait m
    obtain ⟨k, hk, hpolling, hleft⟩ := exists_leaving
      (fun i => (e.state i).pc = .polling currentTime) hpc hi fun hpc => hnot ⟨_, hpc⟩
    obtain ⟨ready, hpass, -⟩ := Step.of_polling (e.step k) hpolling hleft
    obtain ⟨i, hi, hend⟩ := he.exists_endPass (n := k + 1) (k := 4 * ready.length) (by
      rw [hpass]
      rfl)
    exact ⟨i, by omega, hend⟩

end Executions

/-! ## Pings are answered -/

/-- The loop thread has read a ping, and has not yet acted on the query that it is for. -/
def Pc.HoldsPing {Source : Type} : Pc Block Source → Prop
  | .handlePong _ => True
  | .removed _ _ => True
  | _ => False

/-- There is a ping to read, or in the loop thread's hands. -/
def State.Pinged (s : State J Thread) : Prop := s.pipe ≠ [] ∨ s.pc.HoldsPing

/-- There is a ping, and the loop thread will come to it before the pass ends. -/
def State.Answers (s : State J Thread) : Prop := s.Pinged ∧ (s.pc = .top ∨ 0 < s.pc.pongs)

section Steps

variable {s t : State J Thread} {l : Label J Thread}

/-- A ping that is unread or in the loop thread's hands stays so until a query is delivered. -/
theorem Step.pinged (hs : Step K s l t) (h : s.Pinged) (hl : l.delivered? = none) :
    t.Pinged ∨ t.pc.Dead := by
  have hsend : s.pipe ≠ [] →
      ∀ query : Query Block, query.message.send s.pipe ≠ [] := by
    intro hpipe query
    have hlength := List.length_pos_iff.mpr hpipe
    rw [← List.length_pos_iff, Query.length_send_message]
    omega
  cases hs with
  | runBlock | stop => cases hl
  | exit => exact .inr (.inl rfl)
  | removeFirstEmpty | refusePong | recvFails => exact .inr (.inr ⟨_, rfl⟩)
  | recvPing | removeFirst => exact .inl (.inr trivial)
  | @sendPing _ block => exact .inl (h.imp_left fun hne => hsend hne (.invokeQuery block))
  | sendStop => exact .inl (h.imp_left fun hne => hsend hne .stopQuery)
  | @sendPingLoop _ block _ hpc =>
    have hpipe : s.pipe ≠ [] := by simpa [State.Pinged, hpc, Pc.HoldsPing] using h
    exact .inl (.inl (hsend hpipe (.invokeQuery block)))
  | invokeSafe | stopSafe | addLast | dispose | refuse | call | invokeAfterTimeout => exact .inl h
  | _ => simp_all [State.Pinged, Pc.HoldsPing]

/-- A ping that will be read in the pass to come stays so until a query is delivered, and the pass
does not end before that. -/
theorem Step.answers (hs : Step K s l t) (h : s.Answers) (hl : l.delivered? = none)
    (hreports : ∀ ready, l = .wake ready → s.pipe ≠ [] → .pong ∈ ready) :
    (t.Answers ∨ t.pc.Dead) ∧ l ≠ .endPass := by
  obtain ⟨hpinged, hpongs⟩ := h
  have hpinged' := hs.pinged hpinged hl
  suffices hpc : (t.pc = .top ∨ 0 < t.pc.pongs ∨ t.pc.Dead) ∧ l ≠ .endPass by
    refine ⟨?_, hpc.2⟩
    obtain htop | hpongs' | hdead := hpc.1
    · exact hpinged'.imp_left fun h => ⟨h, .inl htop⟩
    · exact hpinged'.imp_left fun h => ⟨h, .inr hpongs'⟩
    · exact .inr hdead
  cases hs with
  | runBlock | stop => cases hl
  | exit => exact ⟨.inr (.inr (.inl rfl)), by simp⟩
  | removeFirstEmpty | refusePong | recvFails => exact ⟨.inr (.inr (.inr ⟨_, rfl⟩)), by simp⟩
  | invokeSafe | stopSafe | addLast | sendPing | sendStop | dispose | refuse | call |
    invokeAfterTimeout => exact ⟨hpongs.imp_right .inl, by simp⟩
  | endPass hpc => simp [hpc] at hpongs
  | timeout hpc _ hpipe => simp [State.Pinged, Pc.HoldsPing, hpc, hpipe] at hpinged
  | @wake _ ready hpc =>
    have hpipe : s.pipe ≠ [] := by simpa [State.Pinged, hpc, Pc.HoldsPing] using hpinged
    have hpong : 0 < pongCount ready :=
      List.countP_pos_iff.mpr ⟨.pong, hreports ready rfl hpipe, rfl⟩
    exact ⟨.inr (.inl hpong), by simp⟩
  | @refuseUser _ _ _ resume caught =>
    cases caught with
    | false => exact ⟨.inr (.inr (.inr ⟨_, rfl⟩)), by simp⟩
    | true => simp_all
  | @«return» resume hpc => cases resume <;> simp_all [Resume.pc]
  | _ => simp_all

/-- A longer run enqueues more. -/
theorem enqueued_mono {tr tr' : List (State J Thread × Label J Thread)} (h : tr <+: tr') :
    enqueued tr <+: enqueued tr' := h.filterMap _

/-- A longer run delivers more. -/
theorem delivered_mono {tr tr' : List (State J Thread × Label J Thread)} (h : tr <+: tr') :
    delivered tr <+: delivered tr' := h.filterMap _

/-- The step that delivers a query. -/
theorem Label.eq_deliver {l : Label J Thread} {query : Query Block}
    (h : l.delivered? = some query) : l = .deliver query := by
  cases l <;> simp_all [Label.delivered?]

/-- A caller of `invokeSafe` waits for its section. -/
theorem Step.mem_waiting {caller : Caller Thread} {block : Block}
    (hs : Step K s (.invokeSafe caller block) t) :
    ⟨caller, .enqueue (.invokeQuery block)⟩ ∈ t.waiting := by
  cases hs <;> simp

/-- An access waits until its section begins, or the queue is disposed. -/
theorem Step.of_waiting (hs : Step K s l t) {a : Access Block Thread} (h : a ∈ s.waiting)
    (hnot : a ∉ t.waiting) : l = .access a.caller a.body ∨ s.disposed = true := by
  cases hs with
  | addLast before after _ _ hwaiting | removeFirst before after _ _ hwaiting
  | removeFirstEmpty before after _ _ hwaiting =>
    rw [hwaiting, List.mem_append, List.mem_cons] at h
    simp only [List.mem_append, not_or] at hnot
    obtain h | rfl | h := h
    · exact absurd h hnot.1
    · exact .inl rfl
    · exact absurd h hnot.2
  | refuse _ _ _ hdisposed | refuseUser _ _ _ hdisposed | refusePong _ _ _ hdisposed =>
    exact .inr hdisposed
  | _ => simp_all

end Steps

section Executions

variable {e : (J.system Thread K).Execution} {n : ℕ}

/-- A query that is not yet delivered has a ping, once no section runs. -/
theorem pinged_of_remaining {tr : List (State J Thread × Label J Thread)} {s : State J Thread}
    (h : (J.system Thread K).Run tr s) (hstop : s.stopSafe = .notCalled) (hsend : s.sending = none)
    (hdead : ¬ s.pc.Dead) (hremaining : s.pc.removed?.toList ++ s.queue ≠ []) : s.Pinged := by
  by_cases hholds : s.pc.HoldsPing
  · exact .inr hholds
  · refine .inl fun hpipe => hremaining ?_
    have hremoved : s.pc.removed? = none := by
      cases hpc : s.pc <;> simp_all [Pc.removed?, Pc.HoldsPing]
    have hawaiting : s.pc.awaiting = 0 := by
      cases hpc : s.pc <;> simp_all [Pc.awaiting, Pc.HoldsPing, Pc.Dead, Pc.Failed]
    have hstops := countP_isStop_enqueued_le_calls h
    rw [hstop, StopPhase.calls] at hstops
    -- Without a ping the queue is empty.
    have hlength := length_queue h
    simp only [State.pings, hpipe, List.length_nil, State.owed, hsend, hawaiting, Option.map_none,
      Option.getD_none] at hlength
    have hqueue : s.queue = [] := List.length_eq_zero_iff.mp (by omega)
    simp [hremoved, hqueue]

/-- As long as there are queries one comes to be delivered. -/
theorem Fair.exists_delivered (he : Fair e) (hinit : e.state 0 = State.initial J Thread)
    (hstop : ∀ n, (e.state n).stopSafe = .notCalled)
    (hn : (e.state n).pc.removed?.toList ++ (e.state n).queue ≠ []) :
    ∃ m ≥ n, (e.label m).delivered? ≠ none := by
  by_contra hnone
  have hl : ∀ m ≥ n, (e.label m).delivered? = none := fun m hm => by
    by_contra hdelivered
    exact hnone ⟨m, hm, hdelivered⟩
  have hremaining : ∀ m ≥ n, (e.state m).pc.removed?.toList ++ (e.state m).queue ≠ [] := by
    refine Nat.le_induction hn fun m hm ih hnil => ?_
    have hfifo := Step.fifo (e.step m)
    rw [hl m hm, Option.toList_none, List.nil_append, hnil] at hfifo
    exact ih (List.append_eq_nil_iff.mp hfifo).1
  -- From where no section runs there is a ping for good.
  obtain ⟨m, hm, hsend⟩ := he.sends n
  have hpinged : ∀ k ≥ m, (e.state k).Pinged := by
    refine Nat.le_induction ?_ fun k hk ih => ?_
    · exact pinged_of_remaining (System.Execution.run_of_init hinit m) (hstop m) hsend
        (he.not_dead m) (hremaining m hm)
    · exact (Step.pinged (e.step k) ih (hl k (hm.trans hk))).resolve_right (he.not_dead _)
  have hends : ∀ k ≥ m, ∃ i ≥ k, e.label i = .endPass := by
    intro k hk
    obtain ⟨i, hi, hend | ⟨⟨currentTime, hpc⟩, hpipe⟩⟩ := he.rounds k
    · exact ⟨i, hi, hend⟩
    · exact absurd (hpinged i (hk.trans hi)) (by simp [State.Pinged, hpc, hpipe, Pc.HoldsPing])
  -- The pass after the end of a pass answers it, so that it does not end.
  obtain ⟨k, hk, hend⟩ := hends m le_rfl
  have hanswers : ∀ i ≥ k + 1, (e.state i).Answers := by
    refine Nat.le_induction ⟨hpinged _ (by omega), .inl (Step.pc_endPass (hend ▸ e.step k))⟩ ?_
    intro i hi ih
    exact (Step.answers (e.step i) ih (hl i (by omega)) (he.reports i)).1.resolve_right
      (he.not_dead _)
  obtain ⟨i, hi, hend'⟩ := hends (k + 1) (by omega)
  exact (Step.answers (e.step i) (hanswers i hi) (hl i (by omega)) (he.reports i)).2 hend'

/-- All queries that were put into the queue come to be delivered. -/
theorem Fair.enqueued_prefix_delivered (he : Fair e) (hinit : e.state 0 = State.initial J Thread)
    (hstop : ∀ n, (e.state n).stopSafe = .notCalled) (n : ℕ) :
    ∃ m ≥ n, enqueued (e.take n) <+: delivered (e.take m) := by
  have hrun := System.Execution.run_of_init hinit
  have hgrow : ∀ k ≤ (enqueued (e.take n)).length, ∃ m ≥ n, k ≤ (delivered (e.take m)).length := by
    intro k
    induction k with
    | zero => exact fun _ => ⟨n, le_rfl, Nat.zero_le _⟩
    | succ k ih =>
      intro hk
      obtain ⟨m, hm, hle⟩ := ih (by omega)
      by_cases hdone : k + 1 ≤ (delivered (e.take m)).length
      · exact ⟨m, hm, hdone⟩
      · have hremaining : (e.state m).pc.removed?.toList ++ (e.state m).queue ≠ [] := by
          intro hnil
          have heq := enqueued_eq (hrun m)
          rw [List.append_assoc, hnil, List.append_nil] at heq
          have hmono := (enqueued_mono (e.take_prefix hm)).length_le
          rw [heq] at hmono
          omega
        obtain ⟨i, hi, hdelivered⟩ := he.exists_delivered hinit hstop hremaining
        obtain ⟨query, hquery⟩ := Option.ne_none_iff_exists'.mp hdelivered
        have hmono := (delivered_mono (e.take_prefix hi)).length_le
        refine ⟨i + 1, by omega, ?_⟩
        rw [System.Execution.take_succ, delivered_append, hquery, List.length_append]
        simp only [Option.toList_some, List.length_singleton]
        omega
  obtain ⟨m, hm, hle⟩ := hgrow _ le_rfl
  exact ⟨m, hm, List.prefix_of_prefix_length_le (enqueued_mono (e.take_prefix hm))
    (delivered_prefix_enqueued (hrun m)) hle⟩

/-- A query that is put into the queue comes to be delivered. -/
theorem Fair.exists_deliver (he : Fair e) (hinit : e.state 0 = State.initial J Thread)
    (hstop : ∀ n, (e.state n).stopSafe = .notCalled) {caller : Caller Thread} {query : Query Block}
    (hn : e.label n = .access caller (.enqueue query)) : ∃ m > n, e.label m = .deliver query := by
  have hrun := System.Execution.run_of_init hinit
  have henqueued : enqueued (e.take (n + 1)) = enqueued (e.take n) ++ [query] := by
    rw [System.Execution.take_succ, enqueued_append, hn]
    rfl
  obtain ⟨m, hm, hpre⟩ := he.enqueued_prefix_delivered hinit hstop (n + 1)
  have hlength := hpre.length_le
  rw [henqueued, List.length_append, List.length_singleton] at hlength
  -- The query is delivered when one more is delivered than were put into the queue before it.
  obtain ⟨k, hk, hle, hnot⟩ := exists_leaving
    (fun i => (delivered (e.take i)).length ≤ (enqueued (e.take n)).length)
    (delivered_prefix_enqueued (hrun n)).length_le (by omega : n ≤ m) (by omega)
  have hlt : (enqueued (e.take n)).length < (delivered (e.take (k + 1))).length := not_le.mp hnot
  have hsucc : delivered (e.take (k + 1)) =
      delivered (e.take k) ++ (e.label k).delivered?.toList := by
    rw [System.Execution.take_succ, delivered_append]
  cases hquery : (e.label k).delivered? with
  | none =>
    rw [hsucc, hquery, Option.toList_none, List.append_nil] at hlt
    exact absurd hle (not_le.mpr hlt)
  | some query' =>
    rw [hquery, Option.toList_some] at hsucc
    have heq : enqueued (e.take (n + 1)) = delivered (e.take (k + 1)) := by
      refine (List.prefix_of_prefix_length_le (enqueued_mono (e.take_prefix (by omega)))
        (delivered_prefix_enqueued (hrun (k + 1))) ?_).eq_of_length ?_
      · rw [henqueued, List.length_append, List.length_singleton]
        omega
      · rw [hsucc] at hlt ⊢
        rw [henqueued]
        simp only [List.length_append, List.length_singleton] at hlt ⊢
        omega
    rw [henqueued, hsucc] at heq
    obtain ⟨-, hlast⟩ := List.append_inj' heq rfl
    obtain rfl := List.singleton_inj.mp hlast
    have hdeliver := Label.eq_deliver hquery
    refine ⟨k, lt_of_le_of_ne hk ?_, hdeliver⟩
    rintro rfl
    cases hn.symm.trans hdeliver

end Executions

/-! ## A fair execution -/

/-- The rounds of a JVM loop that nobody calls: the clock is read, no timer is due, and the wait in
`poll` times out. -/
def idling (J : LoopJob Block) (Thread : Type) (K : ℕ∞) (now : Int64) {ms : ℕ}
    (hpoll : J.pollTimeout = some ms) : (J.system Thread K).Execution where
  state n := { State.initial J Thread with
    pc := match n % 4 with
      | 0 => .top
      | 1 => .timers now
      | 2 => .polling now
      | _ => .pass [] }
  label n := match n % 4 with
    | 0 => .readClock now
    | 1 => .enterPoll
    | 2 => .timeout
    | _ => .endPass
  step n := by
    obtain h | h | h | h : n % 4 = 0 ∨ n % 4 = 1 ∨ n % 4 = 2 ∨ n % 4 = 3 := by omega
    all_goals simp only [h, Nat.add_mod n 1 4]
    · exact Step.readClock now rfl rfl
    · exact Step.enterPoll rfl (.inl MinQueue.isNotEmpty_empty)
    · exact Step.timeout rfl hpoll rfl
    · exact Step.endPass rfl

/-- A run of a JVM loop that comes back to the initial state goes on as a fair execution in which
the clock reads `now` from then on. -/
theorem exists_fair_of_run {ms : ℕ} (hpoll : J.pollTimeout = some ms) (now : Int64)
    {tr : List (State J Thread × Label J Thread)}
    (h : (J.system Thread K).Run tr (State.initial J Thread))
    (hreports : ∀ a ∈ tr, ∀ ready, a.2 = .wake ready → a.1.pipe ≠ [] → .pong ∈ ready) :
    ∃ e : (J.system Thread K).Execution, Fair e ∧ e.take tr.length = tr ∧
      e.state 0 = State.initial J Thread ∧ (∀ n, ∃ m ≥ n, ¬ (e.state m).Polling) ∧
      (∀ n, (∃ a ∈ tr, a.1 = e.state n) ∨ (e.state n).stopSafe = .notCalled) ∧
      ∀ m ≥ tr.length, (∀ now', e.label m = .readClock now' → now' = now) ∧
        (∀ ready, e.label m ≠ .wake ready) ∧ (e.label m).received? = none := by
  obtain ⟨e, hinit, htake, hafter⟩ := h.exists_execution (idling J Thread K now hpoll) rfl
  -- The execution comes back to the initial state again and again.
  have hback : ∀ {P : State J Thread → Prop}, P (State.initial J Thread) →
      ∀ n, ∃ m ≥ n, P (e.state m) := by
    intro P hP n
    refine ⟨tr.length + 4 * n, by omega, ?_⟩
    rw [(hafter _).1]
    simpa [idling, State.initial] using hP
  have htimers : ∀ n, ∃ m ≥ n, (e.state m).pc = .timers now := by
    intro n
    refine ⟨tr.length + (4 * n + 1), by omega, ?_⟩
    rw [(hafter _).1]
    simp [idling, Nat.add_mod]
  have hcases : ∀ n, (e.state n, e.label n) ∈ tr ∨ ∃ k, n = tr.length + k := by
    intro n
    by_cases hn : n < tr.length
    · exact .inl (htake ▸ System.Execution.mem_take.mpr ⟨n, hn, rfl⟩)
    · exact .inr (Nat.exists_eq_add_of_le (not_lt.mp hn))
  refine ⟨e, ⟨?_, ?_, ?_, ?_, ?_, ?_⟩, htake, hinit, ?_, ?_, ?_⟩
  · intro n _
    by_cases hpc : (e.state n).pc = .top
    · obtain ⟨k, hk, htimers⟩ := htimers n
      exact ⟨k, hk, by simp [htimers, hpc]⟩
    · exact hback (P := fun s => s.pc ≠ (e.state n).pc) (Ne.symm hpc) n
  · exact hback (P := fun s => ¬ s.pc.InUser) (by simp [Pc.InUser, State.initial])
  · exact fun n currentTime => hback (P := fun s => ¬ s.pc.InTimerPass currentTime)
      (by simp [Pc.InTimerPass, State.initial]) n
  · intro n ready hwake hpipe
    obtain hmem | ⟨k, rfl⟩ := hcases n
    · exact hreports _ hmem ready hwake hpipe
    · rw [(hafter k).1] at hpipe
      exact absurd rfl hpipe
  · exact hback (P := fun s => s.sending = none) rfl
  · exact fun n x _ => hback (P := fun s => x ∉ s.waiting) (by simp [State.initial]) n
  · exact hback (P := fun s => ¬ s.Polling) (by simp [State.Polling, State.initial])
  · intro n
    obtain hmem | ⟨k, rfl⟩ := hcases n
    · exact .inl ⟨_, hmem, rfl⟩
    · exact .inr (by rw [(hafter k).1]; rfl)
  · intro m hm
    obtain ⟨k, rfl⟩ := Nat.exists_eq_add_of_le hm
    rw [(hafter k).2]
    simp only [idling]
    split <;> simp [Label.received?, eq_comm]

/-- A JVM client that runs a block, whose timer it runs five milliseconds later. -/
theorem exists_run_with_timer : ∃ tr,
    ((Jvm.clientLoopJob Unit Unit).system Unit 1).Run tr (State.initial _ _) ∧
      (∀ a ∈ tr, ∀ ready, a.2 = .wake ready → a.1.pipe ≠ [] → .pong ∈ ready) ∧
      (∀ a ∈ tr, a.1.stopSafe = .notCalled) ∧
      (∃ a ∈ tr, a.2 = .invokeSafe (.thread ()) ()) ∧
      ∃ a ∈ tr, ⟨5, ()⟩ ∈ a.1.scheduled := by
  have h₁ := (System.Run.init (S := (Jvm.clientLoopJob Unit Unit).system Unit 1)).step
    (Step.invokeSafe () () (by simp [State.Busy, State.initial, LoopJob.system]))
  have h₂ := h₁.step (Step.addLast [] [] rfl rfl rfl)
  have h₃ := h₂.step (Step.sendPing rfl (by decide))
  have h₄ := h₃.step (Step.readClock 0 rfl rfl)
  have h₅ := h₄.step (Step.enterPoll rfl (.inl rfl))
  have h₆ := h₅.step (Step.wake [.pong] rfl (by simp)
    ⟨[.socket pongSocket], List.nodup_singleton _, rfl⟩ (fun _ => List.cons_ne_nil _ _))
  have h₇ := h₆.step (Step.recvPing rfl rfl)
  have h₈ := h₇.step (Step.removeFirst [] [] rfl rfl rfl rfl rfl)
  have h₉ : ((Jvm.clientLoopJob Unit Unit).system Unit 1).Run _
      { State.initial _ _ with pc := .user (.pass []) } := h₈.step (Step.runBlock rfl)
  have h₁₀ : ((Jvm.clientLoopJob Unit Unit).system Unit 1).Run _
      { State.initial _ _ with pc := .user (.pass []), scheduledBlocks := [⟨5, ()⟩] } :=
    h₉.step (Step.invokeAfterTimeout 0 5 () rfl)
  have h₁₁ := h₁₀.step (Step.return rfl)
  have h₁₂ := h₁₁.step (Step.endPass rfl)
  have h₁₃ := h₁₂.step (Step.readClock 5 rfl rfl)
  have hpoll : (Jvm.priorityQueue Unit).Poll [⟨5, ()⟩] ⟨5, ()⟩ [] :=
    ⟨.refl _, List.forall_mem_singleton.mpr (by decide)⟩
  have h₁₄ := h₁₃.step (Step.runTimer_of_poll rfl hpoll (by decide))
  have h₁₅ := h₁₄.step (Step.return rfl)
  have h₁₆ := h₁₅.step (Step.enterPoll rfl (.inl rfl))
  have h₁₇ := h₁₆.step (Step.timeout rfl rfl rfl)
  have h₁₈ := h₁₇.step (Step.endPass rfl)
  refine ⟨_, h₁₈, ?_, ?_, ⟨(State.initial _ _, .invokeSafe (.thread ()) ()), ?_, rfl⟩,
    ⟨({ State.initial _ _ with pc := .user (.pass []), scheduledBlocks := [⟨5, ()⟩] }, .return),
      ?_, List.mem_singleton_self _⟩⟩
  · simp only [List.nil_append, List.forall_mem_append, List.forall_mem_singleton]
    simp
  · simp only [List.nil_append, List.forall_mem_append, List.forall_mem_singleton]
    simp [State.initial, LoopJob.system]
  · simp [LoopJob.system]
  · simp

/-! ## Every block is executed, and every timer is run -/

section Executions

variable {e : (J.system Thread K).Execution} {n : ℕ}

/-- In a fair execution without a stop every block that `invokeSafe` is called with comes to be
executed, and what was executed by then begins with all blocks that were in the queue before. -/
theorem every_call_executed (he : Fair e) (hinit : e.state 0 = State.initial J Thread)
    (hstop : ∀ n, (e.state n).stopSafe = .notCalled) :
    (∀ n, ∃ m, invoked (e.take n) <+: executed (e.take m)) ∧
      ∀ n caller block, e.label n = .invokeSafe caller block →
        ∃ m > n, e.label m = .deliver (.invokeQuery block) := by
  refine ⟨fun n => ?_, fun n caller block hn => ?_⟩
  · obtain ⟨m, -, hpre⟩ := he.enqueued_prefix_delivered hinit hstop n
    exact ⟨m, hpre.filterMap _⟩
  · have hwaiting := Step.mem_waiting (hn ▸ e.step n)
    obtain ⟨i, hi, hserved⟩ := he.serves (n + 1) _ hwaiting
    obtain ⟨k, hk, hin, hout⟩ :=
      exists_leaving (fun i => _ ∈ (e.state i).waiting) hwaiting hi hserved
    have hopen := not_disposed (System.Execution.run_of_init hinit k) (hstop k)
    have haccess := (Step.of_waiting (e.step k) hin hout).resolve_right (by simp [hopen])
    obtain ⟨m, hm, hdeliver⟩ := he.exists_deliver hinit hstop haccess
    exact ⟨m, by omega, hdeliver⟩

/-- The block that a thread calls `invokeSafe` with is executed. -/
theorem every_call_executed_jvmClient :
    ∃ (e : ((Jvm.clientLoopJob Unit Unit).system Unit 1).Execution) (n m : ℕ), n < m ∧
      e.label n = .invokeSafe (.thread ()) () ∧ e.label m = .deliver (.invokeQuery ()) := by
  obtain ⟨tr, h, hreports, hcalled, ⟨a, ha, hinvoke⟩, -⟩ := exists_run_with_timer
  obtain ⟨e, he, htake, hinit, -, hstop, -⟩ := exists_fair_of_run rfl 5 h hreports
  obtain ⟨n, -, rfl⟩ := System.Execution.mem_take.mp (htake.symm ▸ ha)
  have hnever : ∀ n, (e.state n).stopSafe = .notCalled := fun n =>
    (hstop n).elim (fun ⟨b, hb, heq⟩ => heq ▸ hcalled b hb) id
  obtain ⟨m, hm, hdeliver⟩ := (every_call_executed he hinit hnever).2 n _ _ hinvoke
  exact ⟨e, n, m, hm, hinvoke, hdeliver⟩

/-- In a fair execution in which the waits in `poll` end, a timer block is run if the clock comes to
its time for good. -/
theorem every_timer_run (he : Fair e) (hinit : e.state 0 = State.initial J Thread)
    (hwait : ∀ n, ∃ m ≥ n, ¬ (e.state m).Polling) {block : ScheduledBlock Block}
    (hn : block ∈ (e.state n).scheduled) {N : ℕ} (hclock : ∀ m ≥ N, ∀ now,
      e.label m = .readClock now → block.scheduleTimeMillis ≤ now) :
    ∃ m ≥ n, e.label m = .runTimer block := by
  obtain ⟨m, hm, hend⟩ := he.exists_endPass_of_wait hwait (max n N)
  obtain ⟨k, hk, now, hread, htimers⟩ := he.exists_readClock (Step.pc_endPass (hend ▸ e.step m))
  obtain ⟨i, hi, hpolling⟩ := he.exists_polling (.inl htimers)
  -- A block that is still scheduled in the wait that follows is later than this reading.
  have hnot : block ∉ (e.state i).scheduled := fun hmem =>
    Int64.not_le.mpr (laterThanPass (System.Execution.run_of_init hinit i) now hpolling block hmem)
      (hclock k (by omega) now hread)
  obtain ⟨j, hj, hin, hout⟩ :=
    exists_leaving (fun i => block ∈ (e.state i).scheduled) hn (by omega : n ≤ i) hnot
  exact ⟨j, hj, (Step.mem_scheduled (e.step j) hin).resolve_left hout⟩

/-- The timer block that it schedules is run. -/
theorem every_timer_run_jvmClient :
    ∃ (e : ((Jvm.clientLoopJob Unit Unit).system Unit 1).Execution) (n m : ℕ), n ≤ m ∧
      ⟨5, ()⟩ ∈ (e.state n).scheduled ∧ e.label m = .runTimer ⟨5, ()⟩ := by
  obtain ⟨tr, h, hreports, -, -, a, ha, hmem⟩ := exists_run_with_timer
  obtain ⟨e, he, htake, hinit, hwait, -, hclock⟩ := exists_fair_of_run rfl 5 h hreports
  obtain ⟨n, -, rfl⟩ := System.Execution.mem_take.mp (htake.symm ▸ ha)
  obtain ⟨m, hm, hrun⟩ := every_timer_run he hinit hwait hmem fun m hm now hread =>
    ((hclock m hm).1 now hread).symm ▸ Int64.le_refl 5
  exact ⟨e, n, m, hm, hmem, hrun⟩

end Executions

end Khala
