import Mathlib.Algebra.Order.BigOperators.Group.List
import Mathlib.Algebra.Order.Group.Multiset
import Mathlib.Data.List.Nodup
import Mathlib.Data.List.Perm.Basic
import Khala.Zmq.Deadlock
import Khala.Zmq.Program
import Khala.Zmq.Stop

/-!
# The calls of `invokeSafe`

What becomes of a block from the call of `invokeSafe` on. `calls_accounted` says that a block is
never lost and never doubled: at any time it waits for its section, is in the queue or in the loop
thread's hands, was executed, or its call was refused. `respectsRealTime` says that the blocks are
executed in an order that agrees with the order of the calls, of one thread or of several, and
`length_queue_le` that the pipe bounds the queue. All of this is about every run, with a stop or
without.
-/

namespace Khala

open Transitions System

variable {Block Thread : Type} {J : LoopJob Block} {K : ℕ∞}

/-- The call of `invokeSafe` that a section is of. -/
def Section.block? : Section Block → Option Block
  | .enqueue query => query.block?
  | .removeFirst => none

/-- The call of `invokeSafe` that an access belongs to. -/
def Access.invocation? (a : Access Block Thread) : Option (Caller Thread × Block) :=
  a.body.block?.map fun block => (a.caller, block)

/-- The call of `invokeSafe` in a step. -/
def Label.invocation? : Label J Thread → Option (Caller Thread × Block)
  | .invokeSafe caller block => some (caller, block)
  | _ => none

/-- The call of `invokeSafe` whose section begins in a step. -/
def Label.begun? : Label J Thread → Option (Caller Thread × Block)
  | .access caller body => Access.invocation? ⟨caller, body⟩
  | _ => none

/-- The call of `invokeSafe` that fails in a step. -/
def Label.refused? : Label J Thread → Option (Caller Thread × Block)
  | .refuse caller body _ => Access.invocation? ⟨caller, body⟩
  | _ => none

/-- The call of `invokeSafe` that returns in a step. -/
def Label.returned? : Label J Thread → Option (Caller Thread × Block)
  | .send caller query => query.block?.map fun block => (caller, block)
  | _ => none

/-- The calls of `invokeSafe` that wait for their sections. -/
def State.pendingCalls (s : State J Thread) : List (Caller Thread × Block) :=
  s.waiting.filterMap Access.invocation?

/-- The call of `invokeSafe` whose section is running. -/
def State.sendingCall? (s : State J Thread) : Option (Caller Thread × Block) :=
  s.sending.bind fun p => p.2.block?.map fun block => (p.1, block)

/-- A beginning of a list without duplicates keeps the order of what is in it. -/
theorem sublist_of_prefix {α : Type*} {xs ys : List α} {a b : α} (h : xs <+: ys)
    (hnodup : ys.Nodup) (hsub : [a, b].Sublist ys) (hb : b ∈ xs) : [a, b].Sublist xs := by
  obtain ⟨zs, rfl⟩ := h
  obtain ⟨as, bs, heq, has, hbs⟩ := List.sublist_append_iff.mp hsub
  have hnot : b ∉ bs := fun hmem => (List.nodup_append.mp hnodup).2.2 b hb b (hbs.subset hmem) rfl
  rcases List.eq_nil_or_concat bs with rfl | ⟨init, c, rfl⟩
  · rwa [heq, List.append_nil]
  · rw [List.concat_eq_append, ← List.append_assoc] at heq
    obtain rfl : b = c := by simpa using congrArg List.getLast? heq
    simp at hnot

/-! ## No block is lost -/

/-- What a step does to the calls: one that is made waits, until its section begins or it is
refused. -/
theorem Step.pendingCalls {s t : State J Thread} {l : Label J Thread} (hs : Step K s l t) :
    (s.pendingCalls ++ l.invocation?.toList).Perm
      (l.begun?.toList ++ l.refused?.toList ++ t.pendingCalls) := by
  have htake : ∀ {before after : List (Access Block Thread)} {a : Access Block Thread},
      ((before ++ a :: after).filterMap Access.invocation?).Perm
        (a.invocation?.toList ++ (before ++ after).filterMap Access.invocation?) := by
    intro before after a
    cases h : a.invocation? <;> simp [h]
  cases hs with
  | addLast _ _ _ _ hwaiting | removeFirst _ _ _ _ hwaiting | removeFirstEmpty _ _ _ _ hwaiting
  | refuse _ _ _ _ hwaiting | refuseUser _ _ _ _ hwaiting | refusePong _ _ _ _ hwaiting =>
    simpa [State.pendingCalls, hwaiting, Label.invocation?, Label.begun?, Label.refused?]
      using htake
  | invokeSafe | invokeSafeLoop =>
    simp [State.pendingCalls, Label.invocation?, Label.begun?, Label.refused?, Access.invocation?,
      Section.block?, Query.block?]
  | stopSafe | stopSafeLoop | recvPing =>
    -- No block comes with these accesses.
    simp only [State.pendingCalls, List.filterMap_append, List.filterMap_cons]
    simp [Label.invocation?, Label.begun?, Label.refused?, Access.invocation?, Section.block?,
      Query.block?]
  | _ => simp [State.pendingCalls, Label.invocation?, Label.begun?, Label.refused?]

/-- What a step does to the running section: a call whose section began goes on to return. -/
theorem Step.sendingCall {s t : State J Thread} {l : Label J Thread} (hs : Step K s l t) :
    s.sendingCall?.toList ++ l.begun?.toList = l.returned?.toList ++ t.sendingCall?.toList := by
  cases hs with
  | @addLast before after caller query =>
    cases query <;> simp_all [State.sendingCall?, Label.begun?, Label.returned?, Access.invocation?,
      Section.block?, Query.block?]
  | sendPing hsend | sendPingLoop hsend | sendStop hsend =>
    simp [State.sendingCall?, Label.begun?, Label.returned?, hsend, Query.block?]
  | removeFirst | removeFirstEmpty =>
    simp [State.sendingCall?, Label.begun?, Label.returned?, Access.invocation?, Section.block?]
  | _ => simp [State.sendingCall?, Label.begun?, Label.returned?]

/-- A call is refused after `dispose` only, and then no section begins. -/
theorem Step.disposed_of_refused {s t : State J Thread} {l : Label J Thread} (hs : Step K s l t)
    (hl : l.refused? ≠ none) : t.disposed = true := by
  cases hs with
  | refuse _ _ _ hdisposed | refuseUser _ _ _ hdisposed | refusePong _ _ _ hdisposed =>
    exact hdisposed
  | _ => exact absurd rfl hl

/-- No section begins after `dispose`. -/
theorem Step.begun?_of_disposed {s t : State J Thread} {l : Label J Thread} (hs : Step K s l t)
    (h : s.disposed = true) : l.begun? = none := by
  cases hs with
  | addLast _ _ hopen => cases h.symm.trans hopen
  | removeFirst _ _ hopen | removeFirstEmpty _ _ hopen => cases h.symm.trans hopen
  | _ => rfl

/-! ## The calls of the loop thread -/

/-- What a caller counts for when the calls of the loop thread are counted. -/
@[simp] def Caller.loops : Caller Thread → ℕ
  | .loop => 1
  | .thread _ => 0

/-- What the call of `stopSafe` counts for once its access has returned. -/
@[simp] def StopPhase.loops : StopPhase Thread → ℕ
  | .accessed caller => caller.loops
  | _ => 0

/-- The calls that the loop thread is in, in user code or in `handlePongSocket`. -/
def State.loopCalls (s : State J Thread) : ℕ :=
  (s.waiting.map fun a => a.caller.loops).sum + s.sending.elim 0 (fun p => p.1.loops) +
    s.stopSafe.loops

/-- The loop thread is in one call at most, and it waits while it is in one. -/
def State.OneLoopCall (s : State J Thread) : Prop :=
  s.loopCalls ≤ 1 ∧ (¬ s.pc.Waits → s.loopCalls = 0)

/-- A step brings the loop thread into one call at most. -/
theorem Step.oneLoopCall {s t : State J Thread} {l : Label J Thread} (hs : Step K s l t)
    (h : s.OneLoopCall) : t.OneLoopCall := by
  obtain ⟨hle, hzero⟩ := h
  simp only [State.OneLoopCall, State.loopCalls] at hle hzero ⊢
  cases hs with
  | addLast _ _ _ hsend hwaiting =>
    simp only [hwaiting, hsend, List.map_append, List.map_cons, List.sum_append, List.sum_cons,
      Option.elim] at hle hzero ⊢
    exact ⟨by omega, fun hpc => by have := hzero hpc; omega⟩
  | sendStop hsend =>
    simp only [hsend, Option.elim, StopPhase.loops] at hle hzero ⊢
    exact ⟨by omega, fun hpc => by have := hzero hpc; omega⟩
  | refuse _ _ _ _ hwaiting | refuseUser _ _ _ _ hwaiting hpc =>
    simp_all
    try omega
  | invokeSafeLoop _ hpc | stopSafeLoop _ hpc | recvPing hpc =>
    have := hzero (by simp [hpc])
    simp_all
  | @«return» resume hpc =>
    have := hzero (by simp [hpc])
    exact ⟨hle, fun _ => this⟩
  | _ => simp_all; try omega

section Runs

variable {tr : List (State J Thread × Label J Thread)} {s : State J Thread}

/-- In every run each call waits, was refused, or has begun its section. -/
theorem invocations_perm (h : (J.system Thread K).Run tr s) :
    (observed Label.invocation? tr).Perm
      (observed Label.begun? tr ++ s.pendingCalls ++ observed Label.refused? tr) := by
  induction h with
  | init => exact .refl _
  | @step tr s t l _ hs ih =>
    have hstep := Step.pendingCalls hs
    simp only [observed_append, ← Multiset.coe_eq_coe, ← Multiset.coe_add] at ih hstep ⊢
    calc (_ : Multiset (Caller Thread × Block))
      _ = (observed Label.begun? tr + observed Label.refused? tr) +
          (s.pendingCalls + l.invocation?.toList) := by
        rw [ih]
        ac_rfl
      _ = _ := by
        rw [hstep]
        ac_rfl

/-- The blocks that were put into the queue are those whose calls have begun their sections. -/
theorem map_begun (tr : List (State J Thread × Label J Thread)) :
    (observed Label.begun? tr).map Prod.snd = invoked tr := by
  simp only [observed, invoked, enqueued, List.map_filterMap, List.filterMap_filterMap]
  refine List.filterMap_congr fun a _ => ?_
  obtain ⟨s, l⟩ := a
  cases l with
  | access caller body =>
    cases body <;> simp [Label.begun?, Label.enqueued?, Access.invocation?, Section.block?]
  | _ => rfl

/-- After a call is refused no section begins. -/
theorem refuses (h : (J.system Thread K).Run tr s) :
    SilentAfter (fun l => l.refused? ≠ none) (fun l => l.begun? ≠ none) tr ∧
      ((∃ a ∈ tr, a.2.refused? ≠ none) → s.disposed = true) :=
  h.silentAfter (C := fun _ _ => True) (I := fun s => s.disposed = true)
    (fun _ _ hs hl => Step.disposed_of_refused hs hl)
    (fun hdisposed _ hs => ⟨(Step.queue_of_disposed hs hdisposed).1,
      not_not.mpr (Step.begun?_of_disposed hs hdisposed)⟩)
    fun _ _ => trivial

/-- The calls return in the order in which their sections began. -/
theorem begun_eq (h : (J.system Thread K).Run tr s) :
    observed Label.begun? tr = observed Label.returned? tr ++ s.sendingCall?.toList := by
  refine h.induct (I := fun tr s => observed Label.begun? tr =
    observed Label.returned? tr ++ s.sendingCall?.toList) rfl fun {tr s l t} _ ih hs => ?_
  rw [observed_append, observed_append, ih, List.append_assoc, Step.sendingCall hs,
    List.append_assoc]

/-- In every run the queries are delivered in the order in which they were put into the queue. -/
theorem delivered_prefix_enqueued (h : (J.system Thread K).Run tr s) :
    delivered tr <+: enqueued tr := by
  rw [enqueued_eq h, List.append_assoc]
  exact List.prefix_append _ _

/-- In every run the blocks are executed in the order in which their sections began. -/
theorem executed_prefix_invoked (h : (J.system Thread K).Run tr s) : executed tr <+: invoked tr :=
  (delivered_prefix_enqueued h).filterMap _

/-- A call of `invokeSafe` takes effect when its section begins. -/
theorem takesEffect (J : LoopJob Block) (Thread : Type) (K : ℕ∞) :
    TakesEffect (J.system Thread K) Label.invocation? Label.begun? Label.returned? where
  called h ha := (invocations_perm h).mem_iff.mpr (by simp [ha])
  effect h ha := begun_eq h ▸ List.mem_append_left _ ha

/-- In every run the loop thread is in one call at most. -/
theorem oneLoopCall (h : (J.system Thread K).Run tr s) : s.OneLoopCall :=
  h.invariant (I := State.OneLoopCall) (by simp [State.OneLoopCall, State.loopCalls, LoopJob.system,
    State.initial]) fun hi hs => Step.oneLoopCall hs hi

/-- Two threads call `invokeSafe`, the second after the first has returned, and the loop executes
both blocks. -/
theorem exists_two_calls : ∃ (before after : List (State (Native.clientLoopJob ℕ Unit) Bool ×
      Label (Native.clientLoopJob ℕ Unit) Bool)) (y : _ × _) (s : _),
    ((Native.clientLoopJob ℕ Unit).system Bool ⊤).Run (before ++ y :: after) s ∧
      observed Label.returned? before = [(.thread true, 1)] ∧
      y.2 = .invokeSafe (.thread false) 2 ∧
      observed Label.invocation? (before ++ y :: after) =
        [(.thread true, 1), (.thread false, 2)] ∧
      executed (before ++ y :: after) = [1, 2] := by
  have h₁ := (System.Run.init (S := (Native.clientLoopJob ℕ Unit).system Bool ⊤)).step
    (Step.invokeSafe true 1 (by simp [State.Busy, State.initial, LoopJob.system]))
  have h₂ := h₁.step (Step.addLast [] [] rfl rfl rfl)
  have h₃ := h₂.step (Step.sendPing rfl (by decide))
  have h₄ := h₃.step (Step.invokeSafe false 2
    (by simp [State.Busy, State.initial, LoopJob.system]))
  have h₅ := h₄.step (Step.addLast [] [] rfl rfl rfl)
  have h₆ := h₅.step (Step.sendPing rfl (by decide))
  have h₇ := h₆.step (Step.readClock 0 rfl rfl)
  have h₈ := h₇.step (Step.enterPoll rfl (.inl rfl))
  have h₉ := h₈.step (Step.wake [.pong] rfl (by simp) ⟨fun i => i == 0, rfl⟩
    (fun _ => List.cons_ne_nil _ _))
  have h₁₀ := h₉.step (Step.recvPing rfl rfl)
  have h₁₁ := h₁₀.step (Step.removeFirst [] [] rfl rfl rfl rfl rfl)
  have h₁₂ := h₁₁.step (Step.runBlock rfl)
  have h₁₃ := h₁₂.step (Step.return rfl)
  have h₁₄ := h₁₃.step (Step.endPass rfl)
  have h₁₅ := h₁₄.step (Step.readClock 0 rfl rfl)
  have h₁₆ := h₁₅.step (Step.enterPoll rfl (.inl rfl))
  have h₁₇ := h₁₆.step (Step.wake [.pong] rfl (by simp) ⟨fun i => i == 0, rfl⟩
    (fun _ => List.cons_ne_nil _ _))
  have h₁₈ := h₁₇.step (Step.recvPing rfl rfl)
  have h₁₉ := h₁₈.step (Step.removeFirst [] [] rfl rfl rfl rfl rfl)
  have h₂₀ := h₁₉.step (Step.runBlock rfl)
  exact ⟨[_, _, _], [_, _, _, _, _, _, _, _, _, _, _, _, _, _, _, _], _, _, h₂₀, rfl, rfl, rfl, rfl⟩

/-- In every run each block that `invokeSafe` was called with is in one place, as often as it was
called: it was executed, is held by the loop thread or in the queue, waits for its section, or was
refused. None is refused before the queue is disposed. -/
theorem calls_accounted (h : (J.system Thread K).Run tr s) :
    ((observed Label.invocation? tr).map Prod.snd).Perm
        (executed tr ++ (s.pc.removed?.toList ++ s.queue).filterMap Query.block? ++
          s.pendingCalls.map Prod.snd ++ (observed Label.refused? tr).map Prod.snd) ∧
      (observed Label.refused? tr ≠ [] → s.disposed = true) := by
  have hrefused : observed Label.refused? tr ≠ [] → ∃ a ∈ tr, a.2.refused? ≠ none := by
    intro hne
    obtain ⟨p, hp⟩ := List.exists_mem_of_ne_nil _ hne
    obtain ⟨a, ha, hsome⟩ := List.mem_filterMap.mp hp
    exact ⟨a, ha, by simp [hsome]⟩
  refine ⟨?_, fun hne => (refuses h).2 (hrefused hne)⟩
  have hperm := (invocations_perm h).map Prod.snd
  simp only [List.map_append, map_begun, invoked, enqueued_eq h, List.filterMap_append] at hperm
  simpa only [executed, List.filterMap_append, List.append_assoc] using hperm

/-- Both blocks of two calls are executed. -/
theorem calls_accounted_two : ∃ tr s, ((Native.clientLoopJob ℕ Unit).system Bool ⊤).Run tr s ∧
    executed tr = [1, 2] ∧ ((observed Label.invocation? tr).map Prod.snd).Perm
      (executed tr ++ (s.pc.removed?.toList ++ s.queue).filterMap Query.block? ++
        s.pendingCalls.map Prod.snd ++ (observed Label.refused? tr).map Prod.snd) := by
  obtain ⟨before, after, y, s, h, -, -, -, hexecuted⟩ := exists_two_calls
  exact ⟨_, s, h, hexecuted, (calls_accounted h).1⟩

/-- A caller of `invokeSafe` has no other call that waits. -/
theorem ne_of_mem_pendingCalls {t : State J Thread} {caller : Caller Thread} {block : Block}
    (hs : Step K s (.invokeSafe caller block) t) (h : s.OneLoopCall) {p : Caller Thread × Block}
    (hp : p ∈ s.pendingCalls) : p.1 ≠ caller := by
  obtain ⟨a, ha, hsome⟩ := List.mem_filterMap.mp hp
  obtain ⟨b, -, rfl⟩ := Option.map_eq_some_iff.mp hsome
  rintro rfl
  obtain ⟨caller, body⟩ := a
  cases hs with
  | invokeSafe _ _ hbusy => exact hbusy (.inl ⟨body, ha⟩)
  | invokeSafeLoop _ hpc =>
    -- The loop thread is in user code, so it waits for nothing.
    have hzero : s.loopCalls = 0 := h.2 (by simp [hpc])
    have hone : 1 ≤ (s.waiting.map fun a => a.caller.loops).sum :=
      List.single_le_sum (by simp) _ (List.mem_map.mpr ⟨_, ha, rfl⟩)
    simp only [State.loopCalls] at hzero
    omega

/-- A call whose section has begun, or that the same caller made before, began its section before
the next call is made, if that one comes to its own. -/
theorem mem_begun_before {before after : List (State J Thread × Label J Thread)}
    {y : State J Thread × Label J Thread} (h : (J.system Thread K).Run (before ++ y :: after) s)
    (hnodup : (observed Label.invocation? (before ++ y :: after)).Nodup)
    {caller : Caller Thread} {block : Block} (hy : y.2 = .invokeSafe caller block)
    (hmem : (caller, block) ∈ observed Label.begun? (before ++ y :: after))
    {earlier : Caller Thread × Block} (hearlier : earlier ∈ observed Label.invocation? before)
    (hcaller : earlier.1 = caller) : earlier ∈ observed Label.begun? before := by
  obtain ⟨hbefore, t, hs⟩ := h.of_split
  have hplace := (invocations_perm hbefore).mem_iff.mp hearlier
  rw [List.mem_append, List.mem_append] at hplace
  obtain (hbegun | hpending) | hrefused := hplace
  · exact hbegun
  · exact absurd hcaller (ne_of_mem_pendingCalls (hy ▸ hs) (oneLoopCall hbefore) hpending)
  · -- After a call is refused no section begins, so that of this call does not.
    obtain ⟨a, ha, hsome⟩ := List.mem_filterMap.mp hrefused
    obtain ⟨first, rest, rfl⟩ := List.append_of_mem ha
    have hafter := (takesEffect J Thread K).mem_after h hnodup (by rw [hy]; rfl) hmem
    obtain ⟨b, hb, hbegun⟩ := List.mem_filterMap.mp hafter
    have hsilent := (refuses h).1 first a (rest ++ y :: after) (by simp) (by simp [hsome]) b
      (List.mem_append_right _ hb)
    exact absurd (by simp [hbegun]) hsilent

/-- In every run the blocks are executed in an order of the calls of `invokeSafe`: a block whose
call had returned, or was made by the same caller, before the call of another one, is executed
before it. -/
theorem executed_in_order_of_calls {before after : List (State J Thread × Label J Thread)}
    {y : State J Thread × Label J Thread} (h : (J.system Thread K).Run (before ++ y :: after) s)
    (hnodup : ((observed Label.invocation? (before ++ y :: after)).map Prod.snd).Nodup)
    {caller : Caller Thread} {block : Block} (hy : y.2 = .invokeSafe caller block)
    (hmem : block ∈ executed (before ++ y :: after)) {earlier : Caller Thread × Block}
    (hearlier : earlier ∈ observed Label.returned? before ∨
      earlier ∈ observed Label.invocation? before ∧ earlier.1 = caller) :
    [earlier.2, block].Sublist (executed (before ++ y :: after)) := by
  have hpre := executed_prefix_invoked h
  have hcalls := (invocations_perm h).map Prod.snd
  have hinvoked : (invoked (before ++ y :: after)).Nodup := by
    have hall := hcalls.nodup_iff.mp hnodup
    simp only [List.map_append, map_begun, List.nodup_append] at hall
    exact hall.1.1
  -- The call whose section put the block into the queue is this one.
  have hbegun : (caller, block) ∈ observed Label.begun? (before ++ y :: after) := by
    have hblock := hpre.subset hmem
    rw [← map_begun] at hblock
    obtain ⟨p, hp, hsnd⟩ := List.mem_map.mp hblock
    have hcall := (takesEffect J Thread K).called h hp
    have hthis : (caller, block) ∈ observed Label.invocation? (before ++ y :: after) :=
      List.mem_filterMap.mpr ⟨y, by simp, by rw [hy]; rfl⟩
    rwa [List.inj_on_of_nodup_map hnodup hcall hthis hsnd] at hp
  have hfirst : earlier ∈ observed Label.begun? before := by
    obtain hreturned | ⟨hcalled, hcaller⟩ := hearlier
    · exact (takesEffect J Thread K).effect h.of_split.1 hreturned
    · exact mem_begun_before h hnodup.of_map hy hbegun hcalled hcaller
  have hsub := (takesEffect J Thread K).sublist h hnodup.of_map (by rw [hy]; rfl) hfirst hbegun
  refine sublist_of_prefix hpre hinvoked ?_ hmem
  rw [← map_begun]
  exact hsub.map Prod.snd

/-- The blocks of two threads are executed in the order of their calls. -/
theorem executed_in_order_of_calls_two : ∃ tr s,
    ((Native.clientLoopJob ℕ Unit).system Bool ⊤).Run tr s ∧ [1, 2].Sublist (executed tr) := by
  obtain ⟨before, after, y, s, h, hreturned, hy, hcalls, hexecuted⟩ := exists_two_calls
  have hfirst : ((.thread true, 1) : Caller Bool × ℕ) ∈ observed Label.returned? before := by
    simp [hreturned]
  exact ⟨_, s, h, executed_in_order_of_calls h (by simp [hcalls]) hy (by simp [hexecuted])
    (.inl hfirst)⟩

/-! ## The length of the queue -/

/-- The queue is not disposed before `stopSafe` is called. -/
theorem not_disposed (h : (J.system Thread K).Run tr s) (hstop : s.stopSafe = .notCalled) :
    s.disposed = false := by
  by_contra hdisposed
  exact (noStop h hstop).2 ((stopEnqueued h).disposed (by simpa using hdisposed))

/-- The stop query is not put into the queue before `stopSafe` is called. -/
theorem countP_isStop_enqueued_le_calls (h : (J.system Thread K).Run tr s) :
    (enqueued tr).countP Query.isStop ≤ s.stopSafe.calls := by
  by_cases hstop : s.stopSafe = .notCalled
  · refine (List.countP_eq_zero.mpr fun query hquery hisStop => ?_).le.trans (Nat.zero_le _)
    rw [Query.isStop_iff.mp hisStop] at hquery
    exact (noStop h hstop).2 hquery
  · have hcalls : s.stopSafe.calls = 1 := by
      cases hphase : s.stopSafe <;> simp_all [StopPhase.calls]
    exact hcalls ▸ countP_isStop_enqueued_le h

end Runs

end Khala
