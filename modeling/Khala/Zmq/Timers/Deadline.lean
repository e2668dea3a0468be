import Khala.Zmq.Timers

/-!
# Deadlines

`invokeAfterTimeout` stores the sum of the clock reading and the timeout, a `Long`, and the timer
pass compares it with its own clock reading. `notEarly_iff` says what this does to the blocks of a
run: a block is run no earlier than its timeout asks exactly when its sum fits in a `Long`. A sum
that wraps is negative, so that its block is due at once.

A scheduled block does not say which call registered it. What is said of a call here holds for every
call that can have registered the block, and `subperm_registrations` says that there is one for
each block that is run.
-/

namespace Khala

open Transitions List

/-- A call of `invokeAfterTimeout` and the clock reading that it takes. -/
structure Registration (Block : Type) where
  now : Int64
  timeoutMillis : Int64
  block : Block

namespace Registration

variable {Block : Type}

/-- What the call adds to the scheduled blocks. -/
def scheduledBlock (r : Registration Block) : ScheduledBlock Block :=
  ⟨r.now + r.timeoutMillis, r.block⟩

/-- The time from which the block is to be run. -/
def deadline (r : Registration Block) : ℤ := r.now.toInt + r.timeoutMillis.toInt

/-- The deadline is a `Long`. -/
def Fits (r : Registration Block) : Prop := -2 ^ 63 ≤ r.deadline ∧ r.deadline < 2 ^ 63

/-- A deadline that fits is stored as it is. -/
theorem Fits.scheduleTimeMillis {r : Registration Block} (h : r.Fits) :
    r.scheduledBlock.scheduleTimeMillis.toInt = r.deadline := by
  obtain ⟨hle, hlt⟩ := h
  rw [scheduledBlock, Int64.toInt_add]
  unfold deadline at *
  exact Int.bmod_eq_of_le (by simpa using hle) (by simpa using hlt)

/-- A call with a clock reading and a timeout that are not negative. -/
structure Nonneg (r : Registration Block) : Prop where
  now : 0 ≤ r.now
  timeoutMillis : 0 ≤ r.timeoutMillis

/-- The block is due no earlier than its deadline exactly when the deadline fits: no `Long` is as
large as a deadline that does not. -/
theorem Nonneg.deadline_le_iff {r : Registration Block} (h : r.Nonneg) {currentTime : Int64}
    (hdue : r.scheduledBlock.scheduleTimeMillis ≤ currentTime) :
    r.deadline ≤ currentTime.toInt ↔ r.Fits := by
  have hnow : 0 ≤ r.now.toInt := by simpa using Int64.le_iff_toInt_le.mp h.now
  have htimeout : 0 ≤ r.timeoutMillis.toInt := by
    simpa using Int64.le_iff_toInt_le.mp h.timeoutMillis
  constructor
  · intro hle
    have hlt := Int64.toInt_lt currentTime
    exact ⟨by unfold deadline; omega, by omega⟩
  · intro hfits
    rw [← hfits.scheduleTimeMillis]
    exact Int64.le_iff_toInt_le.mp hdue

end Registration

/-- A block that a timer pass runs, and the clock reading of the pass. -/
structure Firing (Block : Type) where
  currentTime : Int64
  block : ScheduledBlock Block

section Runs

variable {Block Thread : Type} {J : LoopJob Block} {K : ℕ∞}

/-- The call of `invokeAfterTimeout` that a step makes. -/
def Label.registration? : Label J Thread → Option (Registration Block)
  | .invokeAfterTimeout now timeoutMillis block => some ⟨now, timeoutMillis, block⟩
  | _ => none

/-- The clock reading of the timer pass that the loop thread is in. -/
def Pc.currentTime? {Source : Type} : Pc Block Source → Option Int64
  | .timers currentTime => some currentTime
  | _ => none

/-- The block that a step of a timer pass runs. -/
def firing? (a : State J Thread × Label J Thread) : Option (Firing Block) :=
  match a.2 with
  | .runTimer block => a.1.pc.currentTime?.map fun currentTime => ⟨currentTime, block⟩
  | _ => none

/-- The calls of `invokeAfterTimeout` in a run. -/
def registrations (tr : List (State J Thread × Label J Thread)) : List (Registration Block) :=
  tr.filterMap fun a => a.2.registration?

/-- The blocks that the timer passes of a run run. -/
def firings (tr : List (State J Thread × Label J Thread)) : List (Firing Block) :=
  tr.filterMap firing?

variable {s t : State J Thread} {l : Label J Thread}

/-- What a step can do to the scheduled blocks: it registers one, it runs one that is due, or it
leaves them alone. -/
theorem Step.timers_cases (hs : Step K s l t) :
    (∃ r, l.registration? = some r ∧ firing? (s, l) = none ∧
      t.scheduledBlocks = J.timers.add r.scheduledBlock s.scheduledBlocks) ∨
    (∃ f, l.registration? = none ∧ firing? (s, l) = some f ∧ s.pc = .timers f.currentTime ∧
      l = .runTimer f.block ∧ J.timers.Poll s.scheduledBlocks f.block t.scheduledBlocks ∧
      f.block.scheduleTimeMillis ≤ f.currentTime) ∨
    l.registration? = none ∧ firing? (s, l) = none ∧ t.scheduledBlocks = s.scheduledBlocks := by
  cases hs with
  | invokeAfterTimeout now timeoutMillis block hpc =>
    exact .inl ⟨⟨now, timeoutMillis, block⟩, rfl, rfl, rfl⟩
  | @runTimer currentTime head block rest hpc _ hpeek hhead hpoll =>
    exact .inr (.inl ⟨⟨currentTime, block⟩, rfl, by simp [firing?, hpc, Pc.currentTime?], hpc, rfl,
      hpoll, due_of_peek hpeek hhead hpoll⟩)
  | _ => exact .inr (.inr ⟨rfl, rfl, rfl⟩)

/-- No steps register nothing. -/
@[simp] theorem registrations_nil :
    registrations ([] : List (State J Thread × Label J Thread)) = [] := rfl

/-- No steps run no block. -/
@[simp] theorem firings_nil : firings ([] : List (State J Thread × Label J Thread)) = [] := rfl

/-- What the first step registers comes first. -/
@[simp] theorem registrations_cons (a : State J Thread × Label J Thread)
    (tr : List (State J Thread × Label J Thread)) :
    registrations (a :: tr) = a.2.registration?.toList ++ registrations tr := by
  cases h : a.2.registration? <;> simp [registrations, h]

/-- The block that the first step runs comes first. -/
@[simp] theorem firings_cons (a : State J Thread × Label J Thread)
    (tr : List (State J Thread × Label J Thread)) :
    firings (a :: tr) = (firing? a).toList ++ firings tr := by
  cases h : firing? a <;> simp [firings, h]

/-- What one step registers. -/
theorem registrations_singleton (a : State J Thread × Label J Thread) :
    registrations [a] = a.2.registration?.toList := by simp

/-- The block that one step runs. -/
theorem firings_singleton (a : State J Thread × Label J Thread) :
    firings [a] = (firing? a).toList := by simp

/-- What later steps register comes later. -/
@[simp] theorem registrations_append (tr tr' : List (State J Thread × Label J Thread)) :
    registrations (tr ++ tr') = registrations tr ++ registrations tr' := List.filterMap_append

/-- The blocks that later steps run come later. -/
@[simp] theorem firings_append (tr tr' : List (State J Thread × Label J Thread)) :
    firings (tr ++ tr') = firings tr ++ firings tr' := List.filterMap_append

variable {tr : List (State J Thread × Label J Thread)}

/-- The blocks that a run runs, together with those that are scheduled at its end, are those that
were scheduled at its beginning together with those that it registers. -/
theorem perm_firings_append_scheduled (h : ((J.system Thread K).startingAt s).Run tr t) :
    ((firings tr).map Firing.block ++ t.scheduled).Perm
      (s.scheduled ++ (registrations tr).map Registration.scheduledBlock) := by
  induction h with
  | init => simp [firings, registrations, System.startingAt]
  | @step tr u t l hr hs ih =>
    rcases Step.timers_cases hs with
      ⟨r, hr, hf, hadd⟩ | ⟨f, hr, hf, -, -, hpoll, -⟩ | ⟨hr, hf, heq⟩
    · calc (firings (tr ++ [(u, l)])).map Firing.block ++ t.scheduled
          = (firings tr).map Firing.block ++
              J.timers.toList (J.timers.add r.scheduledBlock u.scheduledBlocks) := by
            simp [State.scheduled, hf, hadd]
        _ ~ (firings tr).map Firing.block ++ r.scheduledBlock :: u.scheduled :=
            (J.timers.perm_of_add _ _).append_left _
        _ ~ ((firings tr).map Firing.block ++ u.scheduled) ++ [r.scheduledBlock] :=
            List.perm_middle.trans (List.perm_append_singleton _ _).symm
        _ ~ (s.scheduled ++ (registrations tr).map Registration.scheduledBlock) ++
              [r.scheduledBlock] := ih.append_right _
        _ = s.scheduled ++ (registrations (tr ++ [(u, l)])).map Registration.scheduledBlock := by
            simp [hr]
    · calc (firings (tr ++ [(u, l)])).map Firing.block ++ t.scheduled
          = (firings tr).map Firing.block ++ f.block :: t.scheduled := by simp [hf]
        _ ~ (firings tr).map Firing.block ++ u.scheduled :=
            (J.timers.perm_of_poll hpoll).symm.append_left _
        _ ~ s.scheduled ++ (registrations tr).map Registration.scheduledBlock := ih
        _ = s.scheduled ++ (registrations (tr ++ [(u, l)])).map Registration.scheduledBlock := by
            simp [hr]
    · simpa [State.scheduled, hr, hf, heq] using ih

/-- A run of a loop runs no block that it did not register, and none more often. -/
theorem subperm_registrations (h : (J.system Thread K).Run tr s) :
    ((firings tr).map Firing.block).Subperm
      ((registrations tr).map Registration.scheduledBlock) := by
  have hperm := perm_firings_append_scheduled (s := State.initial J Thread) h
  have hnil : (State.initial J Thread).scheduled = [] := J.timers.toList_empty
  rw [hnil, List.nil_append] at hperm
  exact (List.sublist_append_left _ _).subperm.trans hperm.subperm

/-- Every block that is run was due in its timer pass. -/
theorem scheduleTimeMillis_le_currentTime (h : (J.system Thread K).Run tr s) :
    ∀ f ∈ firings tr, f.block.scheduleTimeMillis ≤ f.currentTime := by
  intro f hf
  obtain ⟨⟨u, l⟩, hmem, hfiring⟩ := List.mem_filterMap.mp hf
  obtain ⟨_, -, -, _, hs⟩ := h.reached hmem
  rcases Step.timers_cases hs with ⟨_, -, hnone, -⟩ | ⟨f', -, hsome, -, -, -, hdue⟩ | ⟨-, hnone, -⟩
  · simp [hnone] at hfiring
  · obtain rfl : f' = f := by simpa [hsome] using hfiring
    exact hdue
  · simp [hnone] at hfiring

/-- In a run of a loop every block that is run was registered for it, and it is run in a pass whose
clock reading has reached the sum of the clock reading and the timeout of its registration exactly
when that sum is a `Long`. -/
theorem notEarly_iff (h : (J.system Thread K).Run tr s)
    (hnonneg : ∀ r ∈ registrations tr, r.Nonneg) :
    ((firings tr).map Firing.block).Subperm
        ((registrations tr).map Registration.scheduledBlock) ∧
      ∀ f ∈ firings tr, ∀ r ∈ registrations tr, f.block = r.scheduledBlock →
        (r.deadline ≤ f.currentTime.toInt ↔ r.Fits) := by
  refine ⟨subperm_registrations h, fun f hf r hr heq => ?_⟩
  have hdue := scheduleTimeMillis_le_currentTime h f hf
  rw [heq] at hdue
  exact (hnonneg r hr).deadline_le_iff hdue

/-- Every loop comes to execute a block before it registers one. -/
theorem exists_run_in_first_block (J : LoopJob Block) (t : Thread) (block : Block) (hK : 0 < K)
    (hpong : J.HandsOver J.initialScope [.pong]) :
    ∃ tr, (J.system Thread K).Run tr { State.initial J Thread with pc := .user (.pass []) } ∧
      registrations tr = [] ∧ firings tr = [] := by
  obtain ⟨tr, h, -, hregisters⟩ := exists_run_in_block J t block hK hpong
  have hregistrations : registrations tr = [] := by
    refine List.filterMap_eq_nil_iff.mpr ?_
    rintro ⟨u, l⟩ ha
    cases l with
    | invokeAfterTimeout now timeoutMillis block' =>
      exact absurd rfl ((hregisters _ ha).2 now timeoutMillis block')
    | _ => rfl
  exact ⟨tr, h, hregistrations, by simpa [hregistrations] using subperm_registrations h⟩

/-- A timer pass can run any sequence of due blocks that its queue can hand over. -/
theorem exists_run_firing {s : State J Thread} {currentTime : Int64}
    {blocks : List (ScheduledBlock Block)} {rest : J.timers.Queue}
    (hpc : s.pc = .timers currentTime) (hpolls : J.timers.Polls s.scheduledBlocks blocks rest)
    (hdue : ∀ block ∈ blocks, block.scheduleTimeMillis ≤ currentTime) :
    ∃ tr t, ((J.system Thread K).startingAt s).Run tr t ∧ registrations tr = [] ∧
      firings tr = blocks.map fun block => ⟨currentTime, block⟩ := by
  induction blocks generalizing s with
  | nil => exact ⟨[], s, .init, rfl, rfl⟩
  | cons block blocks ih =>
    obtain _ | ⟨hpoll, hpolls⟩ := hpolls
    have hrun := ((System.Run.init (S := (J.system Thread K).startingAt s)).step
      (Step.runTimer_of_poll hpc hpoll (hdue block List.mem_cons_self))).step (Step.return rfl)
    obtain ⟨tr, t, hrest, hregistrations, hfirings⟩ :=
      ih (s := { s with scheduledBlocks := _, pc := .timers currentTime }) rfl hpolls
        fun b hb => hdue b (List.mem_cons_of_mem _ hb)
    refine ⟨_, t, hrun.append hrest, ?_, ?_⟩
    · simp [hregistrations, Label.registration?]
    · simp [hfirings, firing?, hpc, Pc.currentTime?, System.startingAt]

/-- Every loop can register a block, and run it in the next timer pass if it is due then. -/
theorem exists_run_of_registration (J : LoopJob Block) (t : Thread) (r : Registration Block)
    (currentTime : Int64) (hK : 0 < K) (hpong : J.HandsOver J.initialScope [.pong])
    (hdue : r.scheduledBlock.scheduleTimeMillis ≤ currentTime) :
    ∃ tr s, (J.system Thread K).Run tr s ∧ registrations tr = [r] ∧
      firings tr = [⟨currentTime, r.scheduledBlock⟩] := by
  obtain ⟨tr, h, hregistrations, hfirings⟩ := exists_run_in_first_block J t r.block hK hpong
  -- The block is the only one that the pass can poll.
  have hperm := J.timers.perm_of_add r.scheduledBlock J.timers.empty
  obtain ⟨block, rest, hpoll⟩ := J.timers.exists_poll (List.ne_nil_of_mem
    (hperm.mem_iff.mpr (List.mem_cons_self)))
  obtain rfl : block = r.scheduledBlock := by
    have hmem := hperm.mem_iff.mp ((J.timers.perm_of_poll hpoll).mem_iff.mpr List.mem_cons_self)
    simpa [J.timers.toList_empty] using hmem
  have h₁ := h.step (Step.invokeAfterTimeout r.now r.timeoutMillis r.block rfl)
  have h₂ := h₁.step (Step.return rfl)
  have h₃ := h₂.step (Step.endPass rfl)
  have h₄ := h₃.step (Step.readClock currentTime rfl rfl)
  obtain ⟨tr', t, hrun, hregistrations', hfirings'⟩ := exists_run_firing (K := K) (J := J)
    (s := { State.initial J Thread with
      pc := .timers currentTime, scheduledBlocks := J.timers.add r.scheduledBlock J.timers.empty })
    rfl (.cons hpoll (.nil rest)) (List.forall_mem_singleton.mpr hdue)
  refine ⟨_, _, h₄.append hrun, ?_, ?_⟩
  · simp [hregistrations, hregistrations', Label.registration?]
  · simp [hfirings, hfirings', firing?]

/-- A native client that registers a block at 100 for five milliseconds, and runs it at 107. -/
theorem notEarly_nativeClient : ∃ tr s,
    ((Variant.nativeClient.job Unit Unit).system Unit 1).Run tr s ∧
      registrations tr = [⟨100, 5, ()⟩] ∧ firings tr = [⟨107, 105, ()⟩] ∧
      ((⟨100, 5, ()⟩ : Registration Unit).deadline ≤ (107 : Int64).toInt ↔
        (⟨100, 5, ()⟩ : Registration Unit).Fits) := by
  obtain ⟨tr, s, h, hregistrations, hfirings⟩ := exists_run_of_registration (K := 1)
    (Variant.nativeClient.job Unit Unit) () ⟨100, 5, ()⟩ 107 (by decide)
    ⟨fun i => i == 0, rfl⟩ (by decide)
  refine ⟨tr, s, h, hregistrations, hfirings, (notEarly_iff h ?_).2 ⟨107, 105, ()⟩ ?_ ⟨100, 5, ()⟩
    ?_ rfl⟩
  · rw [hregistrations]
    exact List.forall_mem_singleton.mpr ⟨by decide, by decide⟩
  · exact hfirings ▸ List.mem_singleton_self _
  · exact hregistrations ▸ List.mem_singleton_self _

/-- A native client that registers a block at 1 for the longest timeout runs it at once. -/
theorem early_nativeClient : ¬ ∀ tr s,
    ((Variant.nativeClient.job Unit Unit).system Unit 1).Run tr s →
      (∀ r ∈ registrations tr, r.Nonneg) → ∀ f ∈ firings tr, ∀ r ∈ registrations tr,
        f.block = r.scheduledBlock → r.deadline ≤ f.currentTime.toInt := by
  intro hall
  obtain ⟨tr, s, h, hregistrations, hfirings⟩ := exists_run_of_registration (K := 1)
    (Variant.nativeClient.job Unit Unit) () ⟨1, Int64.maxValue, ()⟩ 1 (by decide)
    ⟨fun i => i == 0, rfl⟩ (by decide)
  have hearly := hall tr s h (hregistrations ▸ List.forall_mem_singleton.mpr
    ⟨by decide, by decide⟩) _ (hfirings ▸ List.mem_singleton_self _) _
    (hregistrations ▸ List.mem_singleton_self _) rfl
  exact absurd hearly (by decide)

end Runs

end Khala
