import Khala.Library.CallOrder
import Khala.Zmq.Handshake

/-!
# Programs on the threaded loop

A program is a list of blocks that one thread submits, each a list of effects and of calls of
`invokeSafe` with further blocks. `Session` runs one on a loop job: the submitting thread calls
`invokeSafe` with one block after the other, and the loop thread does the actions of each block that
it is given.

The blocks pass through the queue as through a `CallOrder.Line`: a block joins the line in its
access section. `Session.exists_line` is the simulation.
-/

namespace Khala

open CallOrder Transitions System

variable {E : Type} {J : LoopJob (Block E)} {K : ℕ∞}

/-! ## Calls that wait for their sections -/

/-- Whether the caller is the loop thread. -/
def Caller.isLoop {Thread : Type} : Caller Thread → Bool
  | .loop => true
  | .thread _ => false

/-- The block that an access of the loop thread, or of the other thread, is to enqueue. -/
def Access.call? (fromLoop : Bool) (a : Access (Block E) Unit) : Option (Block E) :=
  match a.body with
  | .enqueue query => if a.caller.isLoop = fromLoop then query.block? else none
  | .removeFirst => none

/-- The blocks whose `invokeSafe` waits for its section. -/
def State.calls (fromLoop : Bool) (s : State J Unit) : List (Block E) :=
  s.waiting.filterMap (Access.call? fromLoop)

/-- The block that a step calls `invokeSafe` with. -/
def Label.called? (fromLoop : Bool) : Label J Unit → Option (Block E)
  | .invokeSafe caller block => if caller.isLoop = fromLoop then some block else none
  | _ => none

/-- The block that a step enqueues. -/
def Label.entered? (fromLoop : Bool) : Label J Unit → Option (Block E)
  | .access caller body => Access.call? fromLoop ⟨caller, body⟩
  | _ => none

/-- Before `stopSafe` is called: each thread is in one call of `invokeSafe` at most, and the loop
thread is blocked exactly while it is in one. -/
structure State.Calling (s : State J Unit) : Prop where
  notDisposed : s.disposed = false
  notCalled : s.stopSafe = .notCalled
  noStop : s.NoStop
  length_calls : ∀ c, (s.calls c).length ≤ 1
  sending : ∀ caller query, s.sending = some (caller, query) → s.calls caller.isLoop = []
  blocked_iff : (∃ resume, s.pc = .blocked resume) ↔
    s.calls true ≠ [] ∨ ∃ query, s.sending = some (.loop, query)

/-- A thread that is in no call has no block that waits. -/
theorem State.calls_eq_nil_of_not_busy {s : State J Unit} {u : Unit} (h : ¬ s.Busy u) :
    s.calls false = [] := by
  refine List.filterMap_eq_nil_iff.mpr fun a ha => ?_
  obtain ⟨caller | v, query | _⟩ := a
  · simp [Access.call?, Caller.isLoop]
  · rfl
  · exact absurd (.inl ⟨_, ha⟩) h
  · rfl

/-- The call that enters its section was the only one of its thread. -/
theorem State.Calling.calls_eq {s : State J Unit} (h : s.Calling)
    {before after : List (Access (Block E) Unit)} {a : Access (Block E) Unit}
    (hs : s.waiting = before ++ a :: after) (c : Bool) :
    s.calls c = (a.call? c).toList ++ (before ++ after).filterMap (Access.call? c) := by
  have hlength := h.length_calls c
  rw [State.calls, hs, List.filterMap_append, List.filterMap_cons] at hlength ⊢
  rw [List.filterMap_append]
  cases ha : a.call? c with
  | none => rfl
  | some b =>
    -- There is room for this call only.
    simp only [ha, List.length_append, List.length_cons] at hlength
    have hbefore : before.filterMap (Access.call? c) = [] := List.length_eq_zero_iff.mp (by omega)
    simp [hbefore]

/-- What a step does to the calls that wait: one that is made goes last, and the one that enters its
section was the first. -/
theorem Step.calls {s t : State J Unit} {l : Label J Unit} (hs : Step K s l t) (h : s.Calling)
    (hl : ∀ caller, l ≠ .stopSafe caller) (c : Bool) :
    s.calls c ++ (l.called? c).toList = (l.entered? c).toList ++ t.calls c := by
  cases hs with
  | invokeSafe | invokeSafeLoop =>
    cases c <;> simp [State.calls, Label.called?, Label.entered?, Access.call?, Caller.isLoop,
      Query.block?]
  | stopSafe => exact absurd rfl (hl _)
  | stopSafeLoop => exact absurd rfl (hl _)
  | addLast _ _ _ _ hwaiting
  | removeFirst _ _ _ _ hwaiting
  | removeFirstEmpty _ _ _ _ hwaiting =>
    rw [h.calls_eq hwaiting c]
    simp [State.calls, Label.called?, Label.entered?]
  | refuse _ _ _ hdisposed | refuseUser _ _ _ hdisposed | refusePong _ _ _ hdisposed =>
    cases h.notDisposed.symm.trans hdisposed
  | recvPing => simp [State.calls, Label.called?, Label.entered?, Access.call?]
  | _ => simp [State.calls, Label.called?, Label.entered?]

/-- While the loop thread is not blocked it is in no call. -/
theorem State.Calling.not_inCall {s : State J Unit} (h : s.Calling)
    (hpc : ∀ resume, s.pc ≠ .blocked resume) :
    ¬ (s.calls true ≠ [] ∨ ∃ query, s.sending = some (.loop, query)) := by
  rw [← h.blocked_iff]
  rintro ⟨resume, hblocked⟩
  exact hpc resume hblocked

/-- The loop thread calls nothing while it is not blocked. -/
theorem State.Calling.calls_eq_nil {s : State J Unit} (h : s.Calling)
    (hpc : ∀ resume, s.pc ≠ .blocked resume) : s.calls true = [] :=
  not_not.mp (not_or.mp (h.not_inCall hpc)).1

/-- A thread that makes a call is in none. -/
theorem Step.calls_eq_nil {s t : State J Unit} {l : Label J Unit} (hs : Step K s l t)
    (h : s.Calling) {c : Bool} (hl : l.called? c ≠ none) :
    s.calls c = [] ∧ ∀ caller query, s.sending = some (caller, query) → caller.isLoop ≠ c := by
  cases hs with
  | invokeSafe u block hbusy =>
    obtain rfl : c = false := by
      by_contra hc
      simp [Label.called?, Caller.isLoop, hc] at hl
    refine ⟨State.calls_eq_nil_of_not_busy hbusy, fun caller query hsend => ?_⟩
    cases caller with
    | loop => simp [Caller.isLoop]
    | thread => exact absurd (.inr (.inl ⟨query, hsend⟩)) hbusy
  | invokeSafeLoop block hpc =>
    obtain rfl : c = true := by
      by_contra hc
      simp [Label.called?, Caller.isLoop, hc] at hl
    obtain ⟨hcalls, hsend⟩ := not_or.mp (h.not_inCall (by simp [hpc]))
    refine ⟨not_not.mp hcalls, fun caller query hsend' => ?_⟩
    cases caller with
    | loop => exact absurd ⟨query, hsend'⟩ hsend
    | thread => simp [Caller.isLoop]
  | _ => exact absurd rfl hl

/-- A section that begins is that of a call, before `stopSafe` is called. -/
theorem Step.exists_block {s t : State J Unit} {caller : Caller Unit} {query : Query (Block E)}
    (hs : Step K s (.access caller (.enqueue query)) t) (h : s.Calling) :
    ∃ block, query = .invokeQuery block := by
  cases query with
  | invokeQuery block => exact ⟨block, rfl⟩
  | stopQuery =>
    cases hs with
    | addLast before after _ _ hwaiting =>
      exact absurd rfl (h.noStop.1 ⟨caller, .enqueue .stopQuery⟩ (by rw [hwaiting]; simp))

/-- The loop thread is blocked exactly while it calls or sends. -/
theorem Step.blocked_iff {s t : State J Unit} {l : Label J Unit} (hs : Step K s l t)
    (h : s.Calling) (hl : ∀ caller, l ≠ .stopSafe caller) :
    (∃ resume, t.pc = .blocked resume) ↔
      t.calls true ≠ [] ∨ ∃ query, t.sending = some (.loop, query) := by
  have hcalls := hs.calls h hl true
  have hnil := hs.calls_eq_nil h (c := true)
  have hblock := fun caller query (heq : l = .access caller (.enqueue query)) =>
    (heq ▸ hs).exists_block h
  have hnone := h.not_inCall
  obtain ⟨hdisposed, hnot, hnoStop, -, hsending, hblocked⟩ := h
  cases hs with
  | invokeSafe => simp_all [Label.called?, Label.entered?, Caller.isLoop]
  | invokeSafeLoop block hpc =>
    refine iff_of_true ⟨_, rfl⟩ (.inl fun hnone => ?_)
    rw [hnone] at hcalls
    simp [Label.called?, Label.entered?, Caller.isLoop] at hcalls
  | @addLast before after caller query _ _ hwaiting =>
    obtain ⟨block, rfl⟩ := hblock _ _ rfl
    cases caller <;>
      simp_all [Label.called?, Label.entered?, Access.call?, Caller.isLoop, Query.block?]
  | sendPingLoop hsend hpc => simp_all [Label.called?, Label.entered?, Caller.isLoop]
  | sendStop hsend => exact absurd hsend (hnoStop.2 _)
  | call | invokeAfterTimeout => exact hblocked
  -- The loop thread goes on, from one point outside user code to another.
  | exit hpc | readClock _ hpc | runTimer hpc | enterPoll hpc | timeout hpc | wake _ hpc
  | endPass hpc | recv _ hpc | listen hpc | recvFails hpc | runBlock hpc | stop hpc =>
    exact iff_of_false (by simp) (hnone (by simp [hpc]))
  | @«return» resume hpc =>
    exact iff_of_false (by cases resume <;> simp [Resume.pc]) (hnone (by simp [hpc]))
  | _ => simp_all [Label.called?, Label.entered?]

/-- A step that is no `stopSafe` leaves the loop open. -/
theorem Step.notCalled {s t : State J Unit} {l : Label J Unit} (hs : Step K s l t)
    (h : s.Calling) (hl : ∀ caller, l ≠ .stopSafe caller) :
    t.stopSafe = .notCalled ∧ t.disposed = false := by
  have hnot := h.notCalled
  have hdisposed := h.notDisposed
  cases hs with
  | stopSafe | stopSafeLoop => exact absurd rfl (hl _)
  | sendStop hsend => exact absurd hsend (h.noStop.2 _)
  | dispose haccessed | disposeLoop haccessed => cases hnot.symm.trans haccessed
  | _ => exact ⟨hnot, hdisposed⟩

/-- A thread has one call at most that waits or whose section begins. -/
theorem Step.length_calls {s t : State J Unit} {l : Label J Unit} (hs : Step K s l t)
    (h : s.Calling) (hl : ∀ caller, l ≠ .stopSafe caller) (c : Bool) :
    (l.entered? c).toList.length + (t.calls c).length ≤ 1 := by
  have hcalls := congrArg List.length (hs.calls h hl c)
  have hle := h.length_calls c
  simp only [List.length_append] at hcalls
  cases hcall : l.called? c with
  | none =>
    simp only [hcall, Option.toList_none, List.length_nil] at hcalls
    omega
  | some block =>
    have hnil := (hs.calls_eq_nil h (c := c) (by simp [hcall])).1
    simp only [hcall, hnil, Option.toList_some, List.length_singleton, List.length_nil] at hcalls
    omega

/-- What `State.Calling` says holds until `stopSafe` is called. -/
theorem Step.calling {s t : State J Unit} {l : Label J Unit} (hs : Step K s l t) (h : s.Calling)
    (hl : ∀ caller, l ≠ .stopSafe caller) : t.Calling := by
  have hcalls := hs.calls h hl
  have hlength := hs.length_calls h hl
  obtain ⟨hnotCalled, hdisposed⟩ := hs.notCalled h hl
  refine ⟨hdisposed, hnotCalled, (hs.noStop h.noStop hnotCalled).1, fun c => ?_, ?_,
    hs.blocked_iff h hl⟩
  · exact (Nat.le_add_left _ _).trans (hlength c)
  · intro caller query ht
    -- The thread whose section runs makes no call.
    have hcalled : s.sending = some (caller, query) → l.called? caller.isLoop = none := by
      intro hsend
      by_contra hne
      exact (hs.calls_eq_nil h hne).2 _ _ hsend rfl
    have hblock := fun caller query (heq : l = .access caller (.enqueue query)) =>
      (heq ▸ hs).exists_block h
    have hsending := h.sending caller query
    cases hs with
    | invokeSafe | invokeSafeLoop =>
      have hc := hcalls caller.isLoop
      rw [hcalled ht, hsending ht] at hc
      exact hc.symm
    | @addLast before after caller' query' =>
      -- The call that enters its section was the only one.
      obtain ⟨rfl, rfl⟩ := Prod.mk.inj (Option.some.inj ht)
      obtain ⟨block, rfl⟩ := hblock _ _ rfl
      simpa [Label.entered?, Access.call?, Query.block?] using hlength caller'.isLoop
    | stopSafe | stopSafeLoop => exact absurd rfl (hl _)
    | sendPing | sendPingLoop | sendStop => cases ht
    | _ => exact (hcalls caller.isLoop).symm.trans ((List.append_nil _).trans (hsending ht))

/-! ## Sessions -/

/-- A loop that runs a program. -/
structure Session (J : LoopJob (Block E)) where
  loop : State J Unit
  /-- What is left of the block that the loop thread runs. -/
  running : Block E
  /-- The blocks that the other thread is still to submit. -/
  outside : List (Block E)

/-- The steps that run no code of the program, and start none of its blocks. -/
def Label.IsInternal : Label J Unit → Prop
  | .invokeSafe _ _ => False
  | .stopSafe _ => False
  | .deliver _ => False
  | .call _ => False
  | .invokeAfterTimeout _ _ _ => False
  | .return => False
  | _ => True

/-- One step, with the effect that it has. The listeners have no effects. -/
inductive Session.Step (K : ℕ∞) : Session J → Option E → Session J → Prop where
  | internal {s : Session J} {l : Label J Unit} {loop : State J Unit} : l.IsInternal →
      Khala.Step K s.loop l loop → Step K s none { s with loop }
  -- `loop.invokeSafe { … }` in the other thread
  | submit {s : Session J} {block : Block E} {outside : List (Block E)} {loop : State J Unit} :
      s.outside = block :: outside →
      Khala.Step K s.loop (.invokeSafe (.thread ()) block) loop →
      Step K s none { s with loop, outside }
  | start {s : Session J} {block : Block E} {loop : State J Unit} :
      Khala.Step K s.loop (.deliver (.invokeQuery block)) loop →
      Step K s none { s with loop, running := block }
  | effect {s : Session J} {resume : Resume J.Source} {e : E} {rest : Block E} :
      s.loop.pc = .user resume → s.running = .effect e rest →
      Step K s (some e) { s with running := rest }
  -- `loop.invokeSafe { … }` in a block
  | call {s : Session J} {block rest : Block E} {loop : State J Unit} :
      s.running = .call block rest → Khala.Step K s.loop (.invokeSafe .loop block) loop →
      Step K s none { s with loop, running := rest }
  | return {s : Session J} {loop : State J Unit} :
      s.running = .done → Khala.Step K s.loop .return loop → Step K s none { s with loop }

/-- A loop on which one thread submits these blocks, one after the other. -/
def Session.system (J : LoopJob (Block E)) (K : ℕ∞) (submitted : List (Block E)) :
    System (Session J) (Option E) where
  init := ⟨State.initial J Unit, .done, submitted⟩
  step := Session.Step K

/-! ## The line of the blocks -/

/-- The loop thread is in user code. -/
def Pc.InUser {Block Source : Type} (pc : Pc Block Source) : Prop :=
  ∃ resume, pc = .user resume ∨ pc = .blocked resume

/-- A session is in the state of the line `a`: a block is called when its section begins. -/
structure Session.Follows (s : Session J) (a : Line E) : Prop where
  calling : s.loop.Calling
  inUser : s.running ≠ .done → s.loop.pc.InUser
  queue : s.loop.pc.removed?.toList ++ s.loop.queue = a.waiting.map fun i => .invokeQuery i.2
  running : a.running = (s.loop.calls true).foldr .call s.running
  outside : a.outside = s.loop.calls false ++ s.outside

/-- Outside user code no block runs. -/
theorem Session.Follows.running_eq_done {s : Session J} {a : Line E} (h : s.Follows a)
    (hpc : ¬ s.loop.pc.InUser) : s.running = .done := by
  by_contra hne
  exact hpc (h.inUser hne)

/-- User code goes on until it returns. -/
theorem Step.inUser {s t : State J Unit} {l : Label J Unit} (hs : Step K s l t)
    (hl : l.IsInternal) (hdisposed : s.disposed = false) (h : s.pc.InUser) : t.pc.InUser := by
  obtain ⟨resume, hpc⟩ := h
  cases hs with
  | sendPingLoop | disposeLoop => exact ⟨_, .inl rfl⟩
  | refuseUser _ _ _ hrefused => cases hdisposed.symm.trans hrefused
  | addLast | sendPing | sendStop | dispose | refuse => exact ⟨resume, hpc⟩
  | invokeSafe | invokeSafeLoop | stopSafe | stopSafeLoop | runBlock | stop | call |
    invokeAfterTimeout | «return» => cases hl
  | _ => simp_all

/-- A step enqueues a query, or no block joins the line. -/
theorem Label.enqueues_or (l : Label J Unit) :
    (l.enqueued? = none ∧ ∀ c, l.entered? c = none) ∨
      ∃ caller query, l = .access caller (.enqueue query) := by
  cases l with
  | access caller body =>
    cases body with
    | enqueue query => exact .inr ⟨caller, query, rfl⟩
    | removeFirst => exact .inl ⟨rfl, fun _ => rfl⟩
  | _ => exact .inl ⟨rfl, fun _ => rfl⟩

/-- A step that runs no code of the program is one of the line if a block is enqueued. -/
theorem Session.Follows.internal {s : Session J} {a : Line E} {l : Label J Unit}
    {loop : State J Unit} (h : s.Follows a) (hl : l.IsInternal)
    (hs : Khala.Step K s.loop l loop) :
    ({ s with loop } : Session J).Follows a ∨
      ∃ b, Line.Step a none b ∧ ({ s with loop } : Session J).Follows b := by
  obtain ⟨hcalling, huser, hqueue, hrunning, houtside⟩ := h
  have hl' : ∀ caller, l ≠ .stopSafe caller := by
    rintro caller rfl
    exact hl
  have hcalls := hs.calls hcalling hl'
  have hcalled : ∀ c, l.called? c = none := by cases l <;> first | exact fun _ => rfl | cases hl
  have hfifo := hs.fifo
  have hdelivered : l.delivered? = none := by cases l <;> first | rfl | cases hl
  have hcalling' := hs.calling hcalling hl'
  have huser' := fun hne => hs.inUser hl hcalling.notDisposed (huser hne)
  simp only [hcalled, hdelivered, Option.toList_none, List.append_nil, List.nil_append]
    at hcalls hfifo
  obtain ⟨henqueued, hentered⟩ | ⟨caller, query, rfl⟩ := l.enqueues_or
  · simp only [henqueued, hentered, Option.toList_none, List.append_nil, List.nil_append]
      at hcalls hfifo
    refine .inl ⟨hcalling', huser', hfifo ▸ hqueue, ?_, ?_⟩
    · rw [hrunning, hcalls]
    · rw [houtside, hcalls]
  · -- The block that is enqueued joins the line.
    obtain ⟨block, rfl⟩ := hs.exists_block hcalling
    obtain ⟨d, running, waiting, outside⟩ := a
    simp only at hqueue hrunning houtside
    subst hrunning houtside
    simp only [Label.entered?, Access.call?, Query.block?, Label.enqueued?] at hcalls hfifo
    have hqueue' (d' : ℕ) : loop.pc.removed?.toList ++ loop.queue =
        (waiting ++ [(d', block)]).map fun i => .invokeQuery i.2 := by
      rw [← hfifo, hqueue, List.map_append]
      rfl
    cases caller with
    | thread u =>
      have htrue : s.loop.calls true = loop.calls true := hcalls true
      have hfalse : s.loop.calls false = block :: loop.calls false := hcalls false
      rw [htrue, hfalse]
      exact .inr ⟨_, .submit, hcalling', huser', hqueue' 0, rfl, rfl⟩
    | loop =>
      have htrue : s.loop.calls true = block :: loop.calls true := hcalls true
      have hfalse : s.loop.calls false = loop.calls false := hcalls false
      rw [htrue, hfalse]
      exact .inr ⟨_, .call, hcalling', huser', hqueue' (d + 1), rfl, rfl⟩

/-- A block that is started is the first in the line, whose block before it has run. -/
theorem Session.Follows.start {s : Session J} {a : Line E} {block : Block E} {loop : State J Unit}
    (h : s.Follows a) (hs : Khala.Step K s.loop (.deliver (.invokeQuery block)) loop) :
    ∃ b, Line.Step a none b ∧ ({ s with loop, running := block } : Session J).Follows b := by
  have hcalling := hs.calling h.calling (by simp)
  cases hs with
  | @runBlock _ ready hpc =>
    have hdone := h.running_eq_done (by simp [Pc.InUser, hpc])
    obtain ⟨hcalling₀, -, hqueue, hrunning, houtside⟩ := h
    obtain ⟨d, running, waiting, outside⟩ := a
    have hcalls : s.loop.calls true = [] := hcalling₀.calls_eq_nil (by simp [hpc])
    rw [hpc, Pc.removed?, Option.toList_some, List.singleton_append] at hqueue
    cases waiting with
    | nil => cases hqueue
    | cons i waiting =>
      obtain ⟨hi, hrest⟩ := List.cons.inj hqueue
      obtain rfl := Query.invokeQuery.inj hi
      obtain rfl : running = .done := by simpa [hcalls, hdone] using hrunning
      refine ⟨_, .start, hcalling, fun _ => ⟨_, .inl rfl⟩, hrest, ?_, houtside⟩
      exact congrArg (List.foldr _ _) hcalls.symm

/-- The line does not see a call before its section begins. -/
theorem Session.Follows.submit {s : Session J} {a : Line E} {block : Block E}
    {outside : List (Block E)} {loop : State J Unit} (h : s.Follows a)
    (houtside : s.outside = block :: outside)
    (hs : Khala.Step K s.loop (.invokeSafe (.thread ()) block) loop) :
    ({ s with loop, outside } : Session J).Follows a := by
  have hcalling := hs.calling h.calling (by simp)
  have htrue : s.loop.calls true ++ [] = loop.calls true := hs.calls h.calling (by simp) true
  have hfalse : s.loop.calls false ++ [block] = loop.calls false :=
    hs.calls h.calling (by simp) false
  cases hs
  refine ⟨hcalling, h.inUser, h.queue, ?_, ?_⟩
  · rw [h.running, ← htrue, List.append_nil]
  · rw [h.outside, houtside, ← hfalse, List.append_assoc, List.singleton_append]

/-- The line has the effects of the running block. -/
theorem Session.Follows.effect {s : Session J} {a : Line E} {resume : Resume J.Source} {e : E}
    {rest : Block E} (h : s.Follows a) (hpc : s.loop.pc = .user resume)
    (hrunning : s.running = .effect e rest) :
    ∃ l b, Line.Step a (some (l, e)) b ∧ ({ s with running := rest } : Session J).Follows b := by
  have hcalls : s.loop.calls true = [] := h.calling.calls_eq_nil (by simp [hpc])
  obtain ⟨d, running, waiting, outside⟩ := a
  obtain ⟨hcalling, -, hqueue, hrun, houtside⟩ := h
  obtain rfl : running = .effect e rest := by simpa [hcalls, hrunning] using hrun
  refine ⟨_, _, .effect, hcalling, fun _ => ⟨resume, .inl hpc⟩, hqueue, ?_, houtside⟩
  exact congrArg (List.foldr _ _) hcalls.symm

/-- Of a call in a block the line sees as little. -/
theorem Session.Follows.call {s : Session J} {a : Line E} {block rest : Block E}
    {loop : State J Unit} (h : s.Follows a) (hrunning : s.running = .call block rest)
    (hs : Khala.Step K s.loop (.invokeSafe .loop block) loop) :
    ({ s with loop, running := rest } : Session J).Follows a := by
  have hcalling := hs.calling h.calling (by simp)
  have htrue : s.loop.calls true ++ [block] = loop.calls true := hs.calls h.calling (by simp) true
  have hfalse : s.loop.calls false ++ [] = loop.calls false := hs.calls h.calling (by simp) false
  have hnil := (hs.calls_eq_nil h.calling (c := true) (by simp [Label.called?, Caller.isLoop])).1
  cases hs with
  | invokeSafeLoop _ hpc =>
    have hqueue : s.loop.queue = a.waiting.map fun i => .invokeQuery i.2 := by
      simpa [hpc, Pc.removed?] using h.queue
    refine ⟨hcalling, fun _ => ⟨_, .inr rfl⟩, hqueue, ?_, ?_⟩
    · rw [h.running, ← htrue, hnil, hrunning]
      rfl
    · rw [h.outside, ← hfalse, List.append_nil]

/-- Returning from a block follows the line. -/
theorem Session.Follows.return {s : Session J} {a : Line E} {loop : State J Unit}
    (h : s.Follows a) (hrunning : s.running = .done) (hs : Khala.Step K s.loop .return loop) :
    ({ s with loop } : Session J).Follows a := by
  have hcalling := hs.calling h.calling (by simp)
  cases hs with
  | @«return» resume hpc =>
    have hqueue : s.loop.queue = a.waiting.map fun i => .invokeQuery i.2 := by
      simpa [hpc, Pc.removed?] using h.queue
    refine ⟨hcalling, fun hne => absurd hrunning hne, ?_, h.running, h.outside⟩
    rwa [Resume.removed?_pc]

/-- Each step of a session is one of the line, or is not seen there. -/
theorem Session.Follows.step {s t : Session J} {a : Line E} {l : Option E} (h : s.Follows a)
    (hs : Session.Step K s l t) : (l = none ∧ t.Follows a) ∨
      ∃ l' b, Line.Step a l' b ∧ l = l'.map Prod.snd ∧ t.Follows b := by
  cases hs with
  | internal hl hs =>
    obtain h | ⟨b, hb, h⟩ := h.internal hl hs
    · exact .inl ⟨rfl, h⟩
    · exact .inr ⟨none, b, hb, rfl, h⟩
  | submit houtside hs => exact .inl ⟨rfl, h.submit houtside hs⟩
  | start hs =>
    obtain ⟨b, hb, h⟩ := h.start hs
    exact .inr ⟨none, b, hb, rfl, h⟩
  | @effect _ e _ hpc hrunning =>
    obtain ⟨d, b, hb, h⟩ := h.effect hpc hrunning
    exact .inr ⟨some (d, e), b, hb, rfl, h⟩
  | call hrunning hs => exact .inl ⟨rfl, h.call hrunning hs⟩
  | «return» hrunning hs => exact .inl ⟨rfl, h.return hrunning hs⟩

variable {submitted : List (Block E)} {tr : List (Session J × Option E)} {s : Session J}

/-- A session follows the line from the beginning. -/
theorem Session.follows_init (J : LoopJob (Block E)) (K : ℕ∞) (submitted : List (Block E)) :
    (Session.system J K submitted).init.Follows (Line.system submitted).init where
  calling :=
    { notDisposed := rfl
      notCalled := rfl
      noStop := ⟨nofun, nofun⟩
      length_calls := fun _ => Nat.zero_le _
      sending := nofun
      blocked_iff := iff_of_false nofun (by simp [State.calls, State.initial, Session.system]) }
  inUser h := absurd rfl h
  queue := rfl
  running := rfl
  outside := rfl

/-- In every run of a session its blocks go through a line. -/
theorem Session.exists_line (h : (Session.system J K submitted).Run tr s) :
    ∃ tr' a, (Line.system submitted).Run tr' a ∧ emitted tr = (emitted tr').map Prod.snd ∧
      s.Follows a :=
  h.exists_simulating _ (Session.follows_init J K submitted) Session.Follows.step

/-- The session is over: all blocks are submitted, the queue is empty, and the loop waits in
`poll`. -/
def Session.Complete (s : Session J) : Prop :=
  s.outside = [] ∧ ¬ s.loop.Busy () ∧ s.loop.queue = [] ∧ s.loop.Polling

/-- When a session is over its line is empty. -/
theorem Session.Follows.remaining_eq_nil {a : Line E} (h : s.Follows a) (hs : s.Complete) :
    a.remaining = [] := by
  obtain ⟨houtside, hbusy, hqueue, currentTime, hpc⟩ := hs
  have htrue : s.loop.calls true = [] := h.calling.calls_eq_nil (by simp [hpc])
  have hfalse : s.loop.calls false = [] := State.calls_eq_nil_of_not_busy hbusy
  have hdone := h.running_eq_done (by simp [Pc.InUser, hpc])
  obtain ⟨d, running, waiting, outside⟩ := a
  obtain rfl : running = .done := by simpa [htrue, hdone] using h.running
  obtain rfl : waiting = [] := by simpa [hpc, hqueue, Pc.removed?] using h.queue
  obtain rfl : outside = [] := by simpa [hfalse, houtside] using h.outside
  rfl

/-- A session has the effects in the order of calls in place, if no effect comes after a deeper
one. -/
theorem Session.emitted_prefix (h : (Session.system J K submitted).Run tr s)
    (hlast : CallsLast submitted) :
    emitted tr <+: (effectsOf submitted).map Prod.snd ∧
      (s.Complete → emitted tr = (effectsOf submitted).map Prod.snd) := by
  obtain ⟨tr', a, hline, htr, hfollows⟩ := Session.exists_line h
  have hbegin := Line.emitted_prefix hline hlast
  rw [htr]
  refine ⟨hbegin.map _, fun hcomplete => ?_⟩
  have hperm := Line.perm_effectsOf hline
  rw [hfollows.remaining_eq_nil hcomplete, List.append_nil] at hperm
  rw [hbegin.eq_of_length hperm.length_eq]

end Khala
