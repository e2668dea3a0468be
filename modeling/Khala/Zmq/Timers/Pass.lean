import Khala.Zmq.Timers.Deadline

/-!
# The timer pass

The inner loop of the loop jobs drains the due blocks while the blocks that it runs register others.
`timerPass_exact` says that it ends, and what it leaves: it runs blocks in the order of their times,
each of them due, and what it does not run is later than its clock reading. It ends because a block
that is registered once the clock reads more than the pass did is not due in it: the pass runs no
more blocks than were due when it began or were registered before that.

Nothing is assumed of the queue but that it hands over a least element first. The state that the
pass begins in is any state, so that the queue may hold anything.
-/

namespace Khala

open Transitions
open scoped List

variable {Block Thread : Type} {J : LoopJob Block} {K : ℕ∞}

/-- The loop thread is in the timer pass with this clock reading, or in a block that it runs. -/
def Pc.InTimerPass {Source : Type} (currentTime : Int64) (pc : Pc Block Source) : Prop :=
  pc = .timers currentTime ∨ pc = .user (.timers currentTime) ∨ pc = .blocked (.timers currentTime)

/-- The loop thread died. -/
def Pc.Failed {Source : Type} (pc : Pc Block Source) : Prop := ∃ why, pc = .failed why

section Steps

variable {s t : State J Thread} {l : Label J Thread} {currentTime : Int64}

/-- A timer pass goes on until it calls `poll`, unless the loop thread dies. -/
theorem Step.inTimerPass (hs : Step K s l t) (hl : l ≠ .enterPoll)
    (h : s.pc.InTimerPass currentTime ∨ s.pc.Failed) :
    t.pc.InTimerPass currentTime ∨ t.pc.Failed := by
  simp only [Pc.InTimerPass, Pc.Failed] at *
  cases hs with
  | enterPoll => exact absurd rfl hl
  | @«return» resume => cases resume <;> simp_all [Resume.pc]
  | refuseUser => split <;> simp_all
  | _ => simp_all

/-- In a timer pass, a return of user code leads back to the test of the loop. -/
theorem Step.pc_return (hs : Step K s .return t) (h : s.pc.InTimerPass currentTime ∨ s.pc.Failed) :
    t.pc = .timers currentTime := by
  cases hs with
  | @«return» resume hpc =>
    rcases h with (h | h | h) | ⟨_, h⟩ <;> rw [hpc] at h <;> cases h
    rfl

end Steps

/-- A call of `invokeAfterTimeout` during a timer pass whose clock reading is `currentTime`: the
clock does not go backwards, the timeout is not negative, and the sum does not wrap. -/
structure Registration.MadeDuring (currentTime : Int64) (r : Registration Block) : Prop where
  le_now : currentTime ≤ r.now
  nonneg : 0 ≤ r.timeoutMillis
  fits : r.Fits

/-- A block is due no earlier than the clock reading of its registration. -/
theorem Registration.MadeDuring.now_le {currentTime : Int64} {r : Registration Block}
    (h : r.MadeDuring currentTime) : r.now ≤ r.scheduledBlock.scheduleTimeMillis := by
  have htimeout : 0 ≤ r.timeoutMillis.toInt := by simpa using Int64.le_iff_toInt_le.mp h.nonneg
  rw [Int64.le_iff_toInt_le, h.fits.scheduleTimeMillis, Registration.deadline]
  omega

/-! ## What a pass runs -/

/-- What holds of the blocks that a timer pass has run: they are due and in the order of their
times, and no scheduled block is earlier than one of them. -/
structure Drained (currentTime : Int64) (fired : List (Firing Block))
    (scheduled : List (ScheduledBlock Block)) : Prop where
  sorted : fired.Pairwise fun f g => f.block.scheduleTimeMillis ≤ g.block.scheduleTimeMillis
  due : ∀ f ∈ fired, f.currentTime = currentTime ∧ f.block.scheduleTimeMillis ≤ currentTime
  below : ∀ f ∈ fired, ∀ block ∈ scheduled, f.block.scheduleTimeMillis ≤ block.scheduleTimeMillis

/-- Registering a block during the pass keeps what holds of those that it has run. -/
theorem Drained.add {currentTime : Int64} {fired : List (Firing Block)}
    {scheduled scheduled' : List (ScheduledBlock Block)} {r : Registration Block}
    (h : Drained currentTime fired scheduled) (hr : r.MadeDuring currentTime)
    (hperm : scheduled' ~ r.scheduledBlock :: scheduled) :
    Drained currentTime fired scheduled' := by
  refine ⟨h.sorted, h.due, fun f hf block hblock => ?_⟩
  rcases List.mem_cons.mp (hperm.mem_iff.mp hblock) with rfl | hblock
  · exact Int64.le_trans (h.due f hf).2 (Int64.le_trans hr.le_now hr.now_le)
  · exact h.below f hf block hblock

/-- Running a least block that is due keeps it too. -/
theorem Drained.poll {currentTime : Int64} {fired : List (Firing Block)}
    {scheduled rest : List (ScheduledBlock Block)} {block : ScheduledBlock Block}
    (h : Drained currentTime fired scheduled) (hdue : block.scheduleTimeMillis ≤ currentTime)
    (hperm : scheduled ~ block :: rest)
    (hle : ∀ b ∈ scheduled, block.scheduleTimeMillis ≤ b.scheduleTimeMillis) :
    Drained currentTime (fired ++ [⟨currentTime, block⟩]) rest := by
  refine ⟨List.pairwise_append.mpr ⟨h.sorted, List.pairwise_singleton .., ?_⟩, ?_, ?_⟩
  · rintro f hf _ hg
    obtain rfl := List.mem_singleton.mp hg
    exact h.below f hf block (hperm.mem_iff.mpr List.mem_cons_self)
  · intro f hf
    rcases List.mem_append.mp hf with hf | hf
    · exact h.due f hf
    · obtain rfl := List.mem_singleton.mp hf
      exact ⟨rfl, hdue⟩
  · intro f hf b hb
    have hmem := hperm.mem_iff.mpr (List.mem_cons_of_mem _ hb)
    rcases List.mem_append.mp hf with hf | hf
    · exact h.below f hf b hmem
    · obtain rfl := List.mem_singleton.mp hf
      exact hle b hmem

section Runs

variable {tr : List (State J Thread × Label J Thread)} {s t : State J Thread} {currentTime : Int64}

/-- As long as a run that begins in a timer pass has not left it, the loop thread is in it or died,
and the blocks that were run are as `Drained` says. -/
theorem drained_of_run (h : ((J.system Thread K).startingAt s).Run tr t)
    (hpc : s.pc = .timers currentTime) (hpass : ∀ a ∈ tr, a.2 ≠ .enterPoll)
    (hregs : ∀ r ∈ registrations tr, r.MadeDuring currentTime) :
    (t.pc.InTimerPass currentTime ∨ t.pc.Failed) ∧
      Drained currentTime (firings tr) t.scheduled := by
  induction h with
  | init => exact ⟨.inl (.inl hpc), by constructor <;> simp [firings]⟩
  | @step tr u t l hr hs ih =>
    simp only [registrations_append, registrations_singleton, List.forall_mem_append,
      List.forall_mem_singleton] at hregs hpass
    obtain ⟨hin, hdrained⟩ := ih hpass.1 hregs.1
    refine ⟨Step.inTimerPass hs hpass.2 hin, ?_⟩
    rw [firings_append, firings_singleton]
    rcases Step.timers_cases hs with
      ⟨r, hr, hf, hadd⟩ | ⟨f, hr, hf, hpc', -, hpoll, hdue⟩ | ⟨hr, hf, heq⟩
    · have hmade : r.MadeDuring currentTime := hregs.2 r (by simp [hr])
      rw [hf, Option.toList_none, List.append_nil]
      refine hdrained.add hmade ?_
      rw [State.scheduled, hadd]
      exact J.timers.perm_of_add _ _
    · obtain rfl : f.currentTime = currentTime := by
        rcases hin with (hin | hin | hin) | ⟨_, hin⟩ <;> rw [hpc'] at hin <;> cases hin
        rfl
      rw [hf]
      exact hdrained.poll hdue (J.timers.perm_of_poll hpoll) fun b hb =>
        ScheduledBlock.isLE_compareTo.mp (J.timers.le_of_poll hpoll b hb)
    · rw [hf, Option.toList_none, List.append_nil, State.scheduled, heq]
      exact hdrained

end Runs

/-! ## The pass ends -/

/-- At the test of the loop the pass can go on: it runs a block or calls `poll`. -/
theorem exists_step_of_timers {s : State J Thread} {currentTime : Int64}
    (hpc : s.pc = .timers currentTime) :
    (∃ block t, Step K s (.runTimer block) t) ∨ ∃ t, Step K s .enterPoll t := by
  by_cases hempty : s.scheduled = []
  · exact .inr ⟨_, .enterPoll hpc (.inl (State.scheduled_eq_nil_iff.mp hempty))⟩
  · obtain ⟨block, rest, hpoll⟩ := J.timers.exists_poll hempty
    by_cases hdue : block.scheduleTimeMillis ≤ currentTime
    · exact .inl ⟨block, _, .runTimer_of_poll hpc hpoll hdue⟩
    · have hpeek := MinQueue.peek_of_poll hpoll
      exact .inr ⟨_, .enterPoll hpc (.inr ⟨block, hpeek, Int64.not_le.mp hdue⟩)⟩

/-- When the pass calls `poll` no scheduled block is due. -/
theorem Step.lt_of_enterPoll {s t : State J Thread} {currentTime : Int64}
    (hs : Step K s .enterPoll t) (h : s.pc.InTimerPass currentTime ∨ s.pc.Failed) :
    ∀ block ∈ s.scheduled, currentTime < block.scheduleTimeMillis := by
  have hnot : s.LaterThanPass := by
    intro _ hpc
    rcases h with (h | h | h) | ⟨_, h⟩ <;> rw [hpc] at h <;> cases h
  have hlater := Step.laterThanPass hs hnot
  cases hs with
  | @enterPoll currentTime' hpc _ =>
    obtain rfl : currentTime' = currentTime := by
      rcases h with (h | h | h) | ⟨_, h⟩ <;> rw [hpc] at h <;> cases h
      rfl
    exact hlater currentTime' rfl

/-- Starting a scheduled block is a firing. -/
theorem Step.exists_firing {s t : State J Thread} {block : ScheduledBlock Block}
    (hs : Step K s (.runTimer block) t) : ∃ f, firing? (s, .runTimer block) = some f := by
  cases hs with
  | @runTimer currentTime _ _ _ hpc =>
    exact ⟨⟨currentTime, block⟩, by simp [firing?, hpc, Pc.currentTime?]⟩

section Executions

variable {e : (J.system Thread K).Execution} {currentTime : Int64}

/-- The first `n` steps of an execution do not leave the timer pass that it begins in. -/
def InPass (e : (J.system Thread K).Execution) (n : ℕ) : Prop := ∀ i < n, e.label i ≠ .enterPoll

/-- An execution that begins in a timer pass, and what is assumed of it until the pass ends. -/
structure IsTimerPass (e : (J.system Thread K).Execution) (currentTime : Int64) : Prop where
  begins : (e.state 0).pc = .timers currentTime
  /-- The clock does not go backwards, timeouts are not negative, and no sum wraps. -/
  registers : ∀ i r, InPass e i → (e.label i).registration? = some r → r.MadeDuring currentTime
  /-- The clock reads more than the pass did after `N` blocks were started. -/
  clock : ∃ N, ∀ i r, InPass e i → (e.label i).registration? = some r →
    N ≤ (firings (e.take i)).length → currentTime < r.now
  /-- The blocks that the pass runs return. -/
  returns : ∀ i block, InPass e i → e.label i = .runTimer block → ∃ j > i, e.label j = .return
  /-- The loop thread is scheduled. -/
  goesOn : ∀ i, InPass e i → (e.state i).pc = .timers currentTime →
    ∃ j ≥ i, (∃ block, e.label j = .runTimer block) ∨ e.label j = .enterPoll

namespace IsTimerPass

/-- What a pass registers until it ends. -/
theorem madeDuring (h : IsTimerPass e currentTime) {n : ℕ} (hn : InPass e n) :
    ∀ r ∈ registrations (e.take n), r.MadeDuring currentTime := by
  intro r hr
  obtain ⟨_, ha, hr⟩ := List.mem_filterMap.mp hr
  obtain ⟨i, hi, rfl⟩ := System.Execution.mem_take.mp ha
  exact h.registers i r (fun j hj => hn j (Nat.lt_trans hj hi)) hr

/-- What holds until the pass ends. -/
theorem drained (h : IsTimerPass e currentTime) {n : ℕ} (hn : InPass e n) :
    ((e.state n).pc.InTimerPass currentTime ∨ (e.state n).pc.Failed) ∧
      Drained currentTime (firings (e.take n)) (e.state n).scheduled := by
  refine drained_of_run (e.run n) h.begins (fun a ha => ?_) (h.madeDuring hn)
  obtain ⟨i, hi, rfl⟩ := System.Execution.mem_take.mp ha
  exact hn i hi

/-- The number of blocks that were run does not go down. -/
theorem length_firings_mono {m n : ℕ} (h : m ≤ n) :
    (firings (e.take m)).length ≤ (firings (e.take n)).length :=
  ((e.take_prefix h).filterMap firing?).length_le

/-- A pass that does not end runs more and more blocks. -/
theorem exists_le_length_firings (h : IsTimerPass e currentTime)
    (hpass : ∀ n, e.label n ≠ .enterPoll) (k : ℕ) :
    ∃ n, (e.state n).pc = .timers currentTime ∧ k ≤ (firings (e.take n)).length := by
  have hin : ∀ n, InPass e n := fun _ i _ => hpass i
  induction k with
  | zero => exact ⟨0, h.begins, Nat.zero_le _⟩
  | succ k ih =>
    obtain ⟨n, hpc, hk⟩ := ih
    -- The next block is started, and returns.
    obtain ⟨j, hj, ⟨block, hblock⟩ | henter⟩ := h.goesOn n (hin n) hpc
    · obtain ⟨m, hm, hreturn⟩ := h.returns j block (hin j) hblock
      refine ⟨m + 1, Step.pc_return (hreturn ▸ e.step m) (h.drained (hin m)).1, ?_⟩
      obtain ⟨f, hf⟩ := Step.exists_firing (hblock ▸ e.step j)
      have hone : (firings (e.take (j + 1))).length = (firings (e.take j)).length + 1 := by
        simp [hblock, hf]
      have hnj := length_firings_mono (e := e) hj
      have hjm := length_firings_mono (e := e) (show j + 1 ≤ m + 1 by omega)
      omega
    · exact absurd henter (hpass j)

/-- Of what a pass registers, no more is due in it than it makes steps before the clock reads more
than it did. -/
theorem countP_registrations_le (h : IsTimerPass e currentTime)
    (hpass : ∀ n, e.label n ≠ .enterPoll) {N n₁ : ℕ}
    (hclock : ∀ i r, InPass e i → (e.label i).registration? = some r →
      N ≤ (firings (e.take i)).length → currentTime < r.now)
    (hn₁ : N ≤ (firings (e.take n₁)).length) (n : ℕ) :
    (registrations (e.take n)).countP
      (fun r => r.scheduledBlock.scheduleTimeMillis ≤ currentTime) ≤ min n n₁ := by
  have hin : ∀ n, InPass e n := fun _ i _ => hpass i
  induction n with
  | zero => simp [registrations, System.Execution.take]
  | succ n ih =>
    rw [System.Execution.take_succ, registrations_append, registrations_singleton,
      List.countP_append]
    cases hr : (e.label n).registration? with
    | none =>
      rw [Option.toList_none, List.countP_nil]
      omega
    | some r =>
      by_cases hn : n < n₁
      · have hone := List.countP_le_length (l := [r])
          (p := fun r => decide (r.scheduledBlock.scheduleTimeMillis ≤ currentTime))
        simp only [Option.toList_some, List.length_singleton] at hone ⊢
        omega
      · -- By now the clock reads more than the pass did.
        have hlate : currentTime < r.scheduledBlock.scheduleTimeMillis :=
          Int64.lt_of_lt_of_le
            (hclock n r (hin n) hr (Nat.le_trans hn₁ (length_firings_mono (by omega))))
            (h.registers n r (hin n) hr).now_le
        have hzero : [r].countP
            (fun r => r.scheduledBlock.scheduleTimeMillis ≤ currentTime) = 0 := by
          simpa using Int64.not_le.mpr hlate
        rw [Option.toList_some, hzero]
        omega

/-- The pass ends. -/
theorem exists_enterPoll (h : IsTimerPass e currentTime) : ∃ n, e.label n = .enterPoll := by
  by_contra hnot
  have hpass : ∀ n, e.label n ≠ .enterPoll := not_exists.mp hnot
  obtain ⟨N, hclock⟩ := h.clock
  obtain ⟨n₁, -, hn₁⟩ := h.exists_le_length_firings hpass N
  obtain ⟨n, -, hn⟩ := h.exists_le_length_firings hpass ((e.state 0).scheduled.length + n₁ + 1)
  -- What was run was due when the pass began or was registered before `n₁`.
  let due (block : ScheduledBlock Block) : Bool := block.scheduleTimeMillis ≤ currentTime
  have hall : ((firings (e.take n)).map Firing.block).countP due = (firings (e.take n)).length := by
    rw [List.countP_eq_length.mpr, List.length_map]
    exact List.forall_mem_map.mpr fun f hf =>
      decide_eq_true ((h.drained fun i _ => hpass i).2.due f hf).2
  have hperm := (perm_firings_append_scheduled (e.run n)).countP_eq due
  rw [List.countP_append, List.countP_append, hall, List.countP_map] at hperm
  have hinitial := List.countP_le_length (l := (e.state 0).scheduled) (p := due)
  have hregistered := h.countP_registrations_le hpass hclock hn₁ n
  have hcomp : (registrations (e.take n)).countP (due ∘ Registration.scheduledBlock) ≤ n₁ :=
    Nat.le_trans hregistered (Nat.min_le_right _ _)
  omega

end IsTimerPass

/-- A timer pass ends. Up to its end the blocks that it runs are in the order of their times, and
none of them is later than the clock reading of the pass; every block that is left is later; and
what it runs, together with what it leaves, is what was scheduled when it began together with what
was registered during it. -/
theorem timerPass_exact (h : IsTimerPass e currentTime) :
    ∃ n, InPass e n ∧ e.label n = .enterPoll ∧
      (firings (e.take n)).Pairwise
        (fun f g => f.block.scheduleTimeMillis ≤ g.block.scheduleTimeMillis) ∧
      (∀ f ∈ firings (e.take n), f.block.scheduleTimeMillis ≤ currentTime) ∧
      (∀ block ∈ (e.state n).scheduled, currentTime < block.scheduleTimeMillis) ∧
      ((firings (e.take n)).map Firing.block ++ (e.state n).scheduled) ~
        (e.state 0).scheduled ++ (registrations (e.take n)).map Registration.scheduledBlock := by
  classical
  have hends := h.exists_enterPoll
  have hpass : InPass e (Nat.find hends) := fun i hi => Nat.find_min hends hi
  have henter := Nat.find_spec hends
  obtain ⟨hpc, hdrained⟩ := h.drained hpass
  exact ⟨_, hpass, henter, hdrained.sorted, fun f hf => (hdrained.due f hf).2,
    Step.lt_of_enterPoll (henter ▸ e.step _) hpc, perm_firings_append_scheduled (e.run _)⟩

/-- A thread can submit blocks without end, whatever the loop thread does. -/
theorem exists_execution_of_idle {s : State J Unit} (block : Block) (hdisposed : s.disposed = false)
    (hwaiting : s.waiting = []) (hsending : s.sending = none) (hstop : s.stopSafe = .notCalled) :
    ∃ e : (J.system Unit ⊤).Execution, e.state 0 = s := by
  -- The thread is outside `invokeSafe`, waits for its access section, or is in it.
  let I (s : State J Unit) : Prop := s.disposed = false ∧ s.stopSafe = .notCalled ∧
    (s.waiting = [] ∧ s.sending = none ∨
      s.waiting = [⟨.thread (), .enqueue (.invokeQuery block)⟩] ∧ s.sending = none ∨
      s.waiting = [] ∧ s.sending = some (.thread (), .invokeQuery block))
  have hI : ∀ s, I s → ∃ l t, (J.system Unit ⊤).step s l t ∧ I t := by
    rintro s ⟨hdisposed, hstop, ⟨hwaiting, hsending⟩ | ⟨hwaiting, hsending⟩ | ⟨hwaiting, hsending⟩⟩
    · refine ⟨_, _, .invokeSafe () block (by simp [State.Busy, hwaiting, hsending, hstop]), ?_⟩
      exact ⟨hdisposed, hstop, .inr (.inl ⟨by simp [hwaiting], hsending⟩)⟩
    · refine ⟨_, _, .addLast [] [] hdisposed hsending hwaiting, ?_⟩
      exact ⟨hdisposed, hstop, .inr (.inr ⟨rfl, rfl⟩)⟩
    · refine ⟨_, _, .sendPing hsending (ENat.natCast_lt_top _), ?_⟩
      exact ⟨hdisposed, hstop, .inl ⟨hwaiting, rfl⟩⟩
  obtain ⟨e, he, -⟩ := System.exists_execution hI ⟨hdisposed, hstop, .inl ⟨hwaiting, hsending⟩⟩
  exact ⟨e, he⟩

/-- A timer pass of a native client that runs a block, which registers another one when the clock
reads more than it did at the beginning of the pass. -/
theorem timerPass_exact_nativeClient :
    ∃ e : ((Variant.nativeClient.job Unit Unit).system Unit ⊤).Execution,
      (e.state 0).scheduled = [⟨5, ()⟩] ∧ IsTimerPass e 5 ∧
        ∃ n, InPass e n ∧ e.label n = .enterPoll ∧ (∀ block ∈ (e.state n).scheduled,
          (5 : Int64) < block.scheduleTimeMillis) := by
  let J := Variant.nativeClient.job Unit Unit
  let s : State J Unit := { State.initial J Unit with
    pc := .timers 5, scheduledBlocks := J.timers.add ⟨5, ()⟩ J.timers.empty }
  let s₁ : State J Unit := { s with
    pc := .user (.timers 5), scheduledBlocks := J.timers.empty }
  let s₂ : State J Unit := { s₁ with scheduledBlocks := J.timers.add ⟨6, ()⟩ J.timers.empty }
  let s₃ : State J Unit := { s₂ with pc := .timers 5 }
  have h₁ : Step ⊤ s (.runTimer ⟨5, ()⟩) s₁ :=
    .runTimer_of_poll rfl rfl (by decide)
  have h₂ : Step ⊤ s₁ (.invokeAfterTimeout 6 0 ()) s₂ := .invokeAfterTimeout 6 0 () rfl
  have h₃ : Step ⊤ s₂ .return s₃ := by
    have hreturn := Step.return (K := ⊤) (s := s₂) rfl
    exact hreturn
  have h₄ : Step ⊤ s₃ .enterPoll { s₃ with pc := .polling 5 } :=
    .enterPoll rfl (.inr ⟨⟨6, ()⟩, rfl, by decide⟩)
  obtain ⟨e, he⟩ := exists_execution_of_idle (J := J) (s := { s₃ with pc := .polling 5 }) ()
    rfl rfl rfl rfl
  let e₃ : (J.system Unit ⊤).Execution := .cons s₃ .enterPoll e (by rw [he]; exact h₄)
  let e₂ : (J.system Unit ⊤).Execution := .cons s₂ .return e₃ (by exact h₃)
  let e₁ : (J.system Unit ⊤).Execution := .cons s₁ (.invokeAfterTimeout 6 0 ()) e₂ (by exact h₂)
  let e' : (J.system Unit ⊤).Execution := .cons s (.runTimer ⟨5, ()⟩) e₁ (by exact h₁)
  have hpass : IsTimerPass e' 5 := by
    refine ⟨rfl, ?_, ⟨0, ?_⟩, ?_, ?_⟩
    · rintro (_ | _ | _ | _ | i) r hin hr
      · cases hr
      · obtain rfl := Option.some.inj hr
        exact ⟨by decide, by decide, by decide, by decide⟩
      · cases hr
      · cases hr
      · exact absurd rfl (hin 3 (by omega))
    · rintro (_ | _ | _ | _ | i) r hin hr -
      · cases hr
      · obtain rfl := Option.some.inj hr
        decide
      · cases hr
      · cases hr
      · exact absurd rfl (hin 3 (by omega))
    · rintro (_ | _ | _ | _ | i) block hin hblock
      · exact ⟨2, by decide, rfl⟩
      · cases hblock
      · cases hblock
      · cases hblock
      · exact absurd rfl (hin 3 (by omega))
    · rintro (_ | _ | _ | _ | i) hin hpc
      · exact ⟨0, Nat.le_refl _, .inl ⟨_, rfl⟩⟩
      · cases hpc
      · cases hpc
      · exact ⟨3, Nat.le_refl _, .inr rfl⟩
      · exact absurd rfl (hin 3 (by omega))
  obtain ⟨n, hin, henter, -, -, hlater, -⟩ := timerPass_exact hpass
  exact ⟨e', rfl, hpass, n, hin, henter, hlater⟩

end Executions

end Khala
