import Khala.Zmq.Timers.Deadline

/-!
# The order of equal delays

Blocks that were registered with the same timeout are due in the order of their registrations, as
long as the clock does not go backwards. The native `PriorityQueue` keeps the order of blocks with
different times only: `add` puts a block in front of one that has the same time
(`PriorityQueue.exists_add_of_eq`), so that the later of two is run first. `inOrder_of_apart` says
that nothing else goes wrong: the blocks of each timeout are run in the order of their registrations
when no two of them that were registered in the same millisecond, or of which one has a sum that
wraps, are pending together.
-/

namespace Khala

open Transitions
open scoped List

variable {Block Thread : Type} {J : LoopJob Block} {K : ℕ∞}

/-- The registration `r`, made in the state `s`, finds only such blocks of the same timeout pending,
of those registered in `tr`, as were registered at another clock reading, and then neither sum
wraps. -/
def Registration.Apart (tr : List (State J Thread × Label J Thread)) (s : State J Thread)
    (r : Registration Block) : Prop :=
  ∀ r' ∈ registrations tr, r'.timeoutMillis = r.timeoutMillis →
    r'.scheduledBlock ∈ s.scheduled → r'.now ≠ r.now ∧ r'.Fits ∧ r.Fits

/-- Every call of `invokeAfterTimeout` is apart from the ones before it. -/
def RegistersApart (tr : List (State J Thread × Label J Thread)) : Prop :=
  ∀ before a after r, tr = before ++ a :: after → a.2.registration? = some r → r.Apart before a.1

/-- For each timeout, the blocks that were run are the first ones of those that were registered with
it, in the order of their registrations. `fired` are the registrations of the blocks that were run.
-/
structure InOrder (registered fired : List (Registration Block)) (firings : List (Firing Block)) :
    Prop where
  runs : fired.map Registration.scheduledBlock = firings.map Firing.block
  prefix_of : ∀ timeoutMillis, fired.filter (fun r => r.timeoutMillis = timeoutMillis) <+:
    registered.filter fun r => r.timeoutMillis = timeoutMillis

/-- The registrations are split into those whose blocks were run and those whose blocks are
scheduled, in order for each timeout, and of two scheduled blocks with the same timeout the one that
was registered first is due first. -/
structure TimerSplit (registered fired pending : List (Registration Block))
    (firings : List (Firing Block)) (scheduled : List (ScheduledBlock Block)) : Prop where
  runs : fired.map Registration.scheduledBlock = firings.map Firing.block
  perm : scheduled ~ pending.map Registration.scheduledBlock
  filter_eq : ∀ timeoutMillis : Int64,
    registered.filter (fun r => r.timeoutMillis = timeoutMillis) =
      fired.filter (fun r => r.timeoutMillis = timeoutMillis) ++
        pending.filter fun r => r.timeoutMillis = timeoutMillis
  lt : pending.Pairwise fun r r' => r.timeoutMillis = r'.timeoutMillis →
    r.scheduledBlock.scheduleTimeMillis < r'.scheduledBlock.scheduleTimeMillis

namespace TimerSplit

variable {registered fired pending : List (Registration Block)} {firings : List (Firing Block)}
  {scheduled : List (ScheduledBlock Block)}

/-- What is pending was registered. -/
theorem mem_registered (h : TimerSplit registered fired pending firings scheduled)
    {r : Registration Block} (hr : r ∈ pending) : r ∈ registered := by
  have hmem : r ∈ registered.filter fun r' => r'.timeoutMillis = r.timeoutMillis := by
    rw [h.filter_eq r.timeoutMillis]
    exact List.mem_append_right _ (List.mem_filter.mpr ⟨hr, by simp⟩)
  exact (List.mem_filter.mp hmem).1

/-- A registration that is later than those with its timeout. -/
theorem add (h : TimerSplit registered fired pending firings scheduled) {r : Registration Block}
    {scheduled' : List (ScheduledBlock Block)} (hperm : scheduled' ~ r.scheduledBlock :: scheduled)
    (hlt : ∀ r' ∈ pending, r'.timeoutMillis = r.timeoutMillis →
      r'.scheduledBlock.scheduleTimeMillis < r.scheduledBlock.scheduleTimeMillis) :
    TimerSplit (registered ++ [r]) fired (pending ++ [r]) firings scheduled' where
  runs := h.runs
  perm := calc scheduled' ~ r.scheduledBlock :: scheduled := hperm
    _ ~ r.scheduledBlock :: pending.map Registration.scheduledBlock := h.perm.cons _
    _ ~ pending.map Registration.scheduledBlock ++ [r.scheduledBlock] :=
      (List.perm_append_singleton _ _).symm
    _ = (pending ++ [r]).map Registration.scheduledBlock := by simp
  filter_eq timeoutMillis := by
    rw [List.filter_append, List.filter_append, h.filter_eq timeoutMillis, List.append_assoc]
  lt := by
    refine List.pairwise_append.mpr ⟨h.lt, List.pairwise_singleton .., ?_⟩
    rintro r' hr' _ hr
    obtain rfl := List.mem_singleton.mp hr
    exact hlt r' hr'

/-- A least block is the first one of its timeout. -/
theorem poll (h : TimerSplit registered fired pending firings scheduled) {f : Firing Block}
    {rest : List (ScheduledBlock Block)} (hperm : scheduled ~ f.block :: rest)
    (hle : ∀ b ∈ scheduled, f.block.scheduleTimeMillis ≤ b.scheduleTimeMillis) :
    ∃ fired' pending', TimerSplit registered fired' pending' (firings ++ [f]) rest := by
  obtain ⟨r, hr, hblock⟩ := List.mem_map.mp
    (h.perm.mem_iff.mp (hperm.mem_iff.mpr List.mem_cons_self))
  obtain ⟨before, after, rfl⟩ := List.append_of_mem hr
  -- Nothing of the same timeout stands before it.
  have hnone : ∀ r' ∈ before, r'.timeoutMillis ≠ r.timeoutMillis := by
    intro r' hr' htimeout
    have hlt := (List.pairwise_append.mp h.lt).2.2 r' hr' r List.mem_cons_self htimeout
    have hmem := h.perm.mem_iff.mpr (List.mem_map_of_mem (List.mem_append_left (r :: after) hr'))
    have hleast := hle _ hmem
    rw [← hblock] at hleast
    exact absurd hlt (Int64.not_lt.mpr hleast)
  refine ⟨fired ++ [r], before ++ after, ?_, ?_, ?_, ?_⟩
  · simp [h.runs, hblock]
  · have hsplit : f.block :: rest ~
        f.block :: (before ++ after).map Registration.scheduledBlock := by
      calc f.block :: rest ~ scheduled := hperm.symm
        _ ~ (before ++ r :: after).map Registration.scheduledBlock := h.perm
        _ ~ (r :: (before ++ after)).map Registration.scheduledBlock := List.perm_middle.map _
        _ = f.block :: (before ++ after).map Registration.scheduledBlock := by simp [hblock]
    exact hsplit.cons_inv
  · intro timeoutMillis
    rw [h.filter_eq timeoutMillis]
    by_cases htimeout : r.timeoutMillis = timeoutMillis
    · have hbefore : before.filter (fun r => r.timeoutMillis = timeoutMillis) = [] :=
        List.filter_eq_nil_iff.mpr fun r' hr' => by simpa [← htimeout] using hnone r' hr'
      simp [List.filter_append, hbefore, htimeout]
    · simp [List.filter_append, htimeout]
  · exact h.lt.sublist (List.Sublist.append_left (List.sublist_cons_self _ _) _)

end TimerSplit

section Runs

variable {tr : List (State J Thread × Label J Thread)} {s : State J Thread}

/-- Registrations are apart if those before the last step are, and that one is apart from them. -/
theorem registersApart_append_singleton_iff {a : State J Thread × Label J Thread} :
    RegistersApart (tr ++ [a]) ↔
      RegistersApart tr ∧ ∀ r, a.2.registration? = some r → r.Apart tr a.1 := by
  have hsplit := forall_split_append_singleton (l := tr) (b := a)
    (P := fun before a => ∀ r, a.2.registration? = some r → r.Apart before a.1)
  constructor
  · intro h
    exact (hsplit.mp fun before b after heq r => h before b after r heq).imp_left
      fun h before b after r heq => h before b after heq r
  · rintro ⟨h, hlast⟩ before b after r heq
    refine hsplit.mpr ⟨fun before b after heq r => ?_, hlast⟩ before b after heq r
    exact h before b after r heq

/-- A run that registers nothing. -/
theorem registersApart_of_eq_nil (h : registrations tr = []) : RegistersApart tr := by
  rintro before a after r rfl hr
  have hmem : r ∈ registrations (before ++ a :: after) :=
    List.mem_filterMap.mpr ⟨a, by simp, hr⟩
  simp [h] at hmem

/-- The registrations of a run are split into those that were run and those that are pending. -/
theorem exists_timerSplit (h : (J.system Thread K).Run tr s)
    (hclock : (registrations tr).Pairwise fun r r' => r.now ≤ r'.now) (hapart : RegistersApart tr) :
    ∃ fired pending,
      TimerSplit (registrations tr) fired pending (firings tr) s.scheduled := by
  induction h with
  | init =>
    refine ⟨[], [], rfl, ?_, by simp [registrations], .nil⟩
    exact .of_eq J.timers.toList_empty
  | @step tr s t l hr hs ih =>
    rw [registrations_append, registrations_singleton, List.pairwise_append] at hclock
    obtain ⟨hapart, hlast⟩ := registersApart_append_singleton_iff.mp hapart
    obtain ⟨fired, pending, hsplit⟩ := ih hclock.1 hapart
    rw [registrations_append, registrations_singleton, firings_append, firings_singleton]
    rcases Step.timers_cases hs with
      ⟨r, hr, hf, hadd⟩ | ⟨f, hr, hf, -, -, hpoll, -⟩ | ⟨hr, hf, heq⟩
    · rw [hr, hf, Option.toList_none, Option.toList_some, List.append_nil, State.scheduled, hadd]
      refine ⟨fired, pending ++ [r], hsplit.add (J.timers.perm_of_add _ _) ?_⟩
      intro r' hr' htimeout
      -- A pending block with the same timeout was registered in an earlier millisecond.
      have hmem := hsplit.mem_registered hr'
      have hle := hclock.2.2 r' hmem r (by simp [hr])
      obtain ⟨hne, hfits', hfits⟩ := hlast r hr r' hmem htimeout
        (hsplit.perm.mem_iff.mpr (List.mem_map_of_mem hr'))
      have hlt : r'.now < r.now := Int64.lt_of_le_of_ne hle hne
      rw [Int64.lt_iff_toInt_lt, hfits'.scheduleTimeMillis,
        hfits.scheduleTimeMillis, Registration.deadline, Registration.deadline, htimeout]
      exact Int.add_lt_add_right (Int64.lt_iff_toInt_lt.mp hlt) _
    · obtain ⟨fired', pending', hsplit'⟩ := hsplit.poll (J.timers.perm_of_poll hpoll) fun b hb =>
        ScheduledBlock.isLE_compareTo.mp (J.timers.le_of_poll hpoll b hb)
      rw [hr, hf, Option.toList_none, Option.toList_some, List.append_nil]
      exact ⟨fired', pending', hsplit'⟩
    · rw [hr, hf, Option.toList_none, Option.toList_none, List.append_nil, List.append_nil,
        State.scheduled, heq]
      exact ⟨fired, pending, hsplit⟩

/-- In a run of a loop whose clock does not go backwards, and in which no two blocks of one timeout
are pending together that were registered at the same clock reading or of which one has a sum that
wraps, the blocks of each timeout are run in the order of their registrations. -/
theorem inOrder_of_apart (h : (J.system Thread K).Run tr s)
    (hclock : (registrations tr).Pairwise fun r r' => r.now ≤ r'.now) (hapart : RegistersApart tr) :
    ∃ fired, InOrder (registrations tr) fired (firings tr) := by
  obtain ⟨fired, pending, hsplit⟩ := exists_timerSplit h hclock hapart
  refine ⟨fired, hsplit.runs, fun timeoutMillis => ?_⟩
  rw [hsplit.filter_eq timeoutMillis]
  exact List.prefix_append _ _

/-- Steps that register nothing. -/
theorem RegistersApart.append {tr' : List (State J Thread × Label J Thread)}
    (h : RegistersApart tr) (hnil : registrations tr' = []) : RegistersApart (tr ++ tr') := by
  induction tr' using List.reverseRecOn with
  | nil => simpa using h
  | append_singleton tr' a ih =>
    rw [registrations_append, registrations_singleton, List.append_eq_nil_iff] at hnil
    rw [← List.append_assoc, registersApart_append_singleton_iff]
    refine ⟨ih hnil.1, fun r hr => ?_⟩
    simp [hr] at hnil

/-- Every loop can register two blocks one after the other, and run what its queue hands over. -/
theorem exists_run_of_two_registrations (J : LoopJob Block) (t : Thread)
    (r r' : Registration Block) (currentTime : Int64) (hK : 0 < K)
    (hpong : J.HandsOver J.initialScope [.pong]) {blocks : List (ScheduledBlock Block)}
    {rest : J.timers.Queue}
    (hpolls : J.timers.Polls (J.timers.add r'.scheduledBlock
      (J.timers.add r.scheduledBlock J.timers.empty)) blocks rest)
    (hdue : ∀ block ∈ blocks, block.scheduleTimeMillis ≤ currentTime) :
    ∃ tr s, (J.system Thread K).Run tr s ∧ registrations tr = [r, r'] ∧
      firings tr = (blocks.map fun block => ⟨currentTime, block⟩) ∧
      (r.Fits → r'.Fits → r.now ≠ r'.now → RegistersApart tr) := by
  obtain ⟨tr, h, hregistrations, hfirings⟩ := exists_run_in_first_block J t r.block hK hpong
  have h₁ := h.step (Step.invokeAfterTimeout r.now r.timeoutMillis r.block rfl)
  have h₂ := h₁.step (Step.invokeAfterTimeout r'.now r'.timeoutMillis r'.block rfl)
  have h₃ := h₂.step (Step.return rfl)
  have h₄ := h₃.step (Step.endPass rfl)
  have h₅ := h₄.step (Step.readClock currentTime rfl rfl)
  obtain ⟨tr', s, hrun, hregistrations', hfirings'⟩ := exists_run_firing (K := K) (J := J)
    (s := { State.initial J Thread with
      pc := .timers currentTime
      scheduledBlocks := J.timers.add r'.scheduledBlock
        (J.timers.add r.scheduledBlock J.timers.empty) }) rfl hpolls hdue
  refine ⟨_, _, h₅.append hrun, ?_, ?_, ?_⟩
  · simp [hregistrations, hregistrations', Label.registration?]
  · simp [hfirings, hfirings', firing?]
  · intro hfits hfits' hne
    -- Only the first two steps after `tr` register a block.
    have hapart := registersApart_of_eq_nil hregistrations
    refine RegistersApart.append ?_ hregistrations'
    simp only [registersApart_append_singleton_iff, Registration.Apart, registrations_append,
      registrations_singleton, hregistrations, Label.registration?]
    simpa [hapart, hfits, hfits'] using fun _ _ => hne

/-- A native client that registers two blocks for ten milliseconds, at 5 and at 6, and runs both. -/
theorem inOrder_nativeClient : ∃ tr s,
    ((Variant.nativeClient.job Bool Unit).system Unit 1).Run tr s ∧
      registrations tr = [⟨5, 10, true⟩, ⟨6, 10, false⟩] ∧
      firings tr = [⟨16, ⟨15, true⟩⟩, ⟨16, ⟨16, false⟩⟩] ∧
      ∃ fired, InOrder (registrations tr) fired (firings tr) := by
  have hfirst : (Native.priorityQueue Bool).Poll
      (Native.SortedQueue.add ⟨16, false⟩ (.add ⟨15, true⟩ .empty)) ⟨15, true⟩
      (Native.SortedQueue.add ⟨16, false⟩ .empty) := rfl
  have hsecond : (Native.priorityQueue Bool).Poll
      (Native.SortedQueue.add ⟨16, false⟩ .empty) ⟨16, false⟩ Native.SortedQueue.empty := rfl
  obtain ⟨tr, s, h, hregistrations, hfirings, hapart⟩ := exists_run_of_two_registrations (K := 1)
    (Variant.nativeClient.job Bool Unit) () ⟨5, 10, true⟩ ⟨6, 10, false⟩ 16 (by decide)
    ⟨fun i => i == 0, rfl⟩ (.cons hfirst (.cons hsecond (.nil _))) (by decide)
  refine ⟨tr, s, h, hregistrations, hfirings, inOrder_of_apart h ?_ ?_⟩
  · rw [hregistrations]
    decide
  · exact hapart ⟨by decide, by decide⟩ ⟨by decide, by decide⟩ (by decide)

/-- A native client that registers two blocks in one millisecond for the same timeout runs the
second one first. -/
theorem reversed_nativeClient : ¬ ∀ tr s,
    ((Variant.nativeClient.job Bool Unit).system Unit 1).Run tr s →
      (registrations tr).Pairwise (fun r r' => r.now ≤ r'.now) →
      ∃ fired, InOrder (registrations tr) fired (firings tr) := by
  intro hall
  have hpoll : (Native.priorityQueue Bool).Poll
      (Native.SortedQueue.add ⟨15, false⟩ (.add ⟨15, true⟩ .empty)) ⟨15, false⟩
      (Native.SortedQueue.add ⟨15, true⟩ .empty) := rfl
  obtain ⟨tr, s, h, hregistrations, hfirings, -⟩ := exists_run_of_two_registrations (K := 1)
    (Variant.nativeClient.job Bool Unit) () ⟨5, 10, true⟩ ⟨5, 10, false⟩ 15 (by decide)
    ⟨fun i => i == 0, rfl⟩ (.cons hpoll (.nil _)) (by decide)
  obtain ⟨fired, hruns, hprefix⟩ := hall tr s h (by rw [hregistrations]; decide)
  rw [hfirings] at hruns
  rw [hregistrations] at hprefix
  -- The one block that was run is the second one, and the first one is due before it.
  obtain ⟨r, rfl, hblock⟩ := List.map_eq_singleton_iff.mp hruns
  have hfalse : r.block = false := congrArg ScheduledBlock.block hblock
  have hfirst := hprefix r.timeoutMillis
  by_cases htimeout : r.timeoutMillis = 10
  · simp only [htimeout, List.filter_cons_of_pos, decide_true, List.cons_prefix_cons] at hfirst
    rw [hfirst.1] at hfalse
    cases hfalse
  · simp [Ne.symm htimeout] at hfirst

end Runs

end Khala
