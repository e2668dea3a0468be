import Khala.Zmq.Program

/-!
# Programs run to their end

With no bound on the unread pings a session never gets stuck: `Session.exists_complete` continues
every run to one in which the program is over. `State.Serving` has what keeps the loop thread going,
and `Session.work` is the number that decreases.
-/

namespace Khala

open CallOrder Transitions System

variable {E : Type} {J : LoopJob (Block E)} {K : ℕ∞}

/-! ## The loop goes on -/

/-- The sockets that the pass has still to hand over. -/
def Resume.ready {Source : Type} : Resume Source → List (Watched Source)
  | .timers _ => []
  | .pass ready => ready

/-- The sockets that the pass has still to hand over. -/
def Pc.ready {Block Source : Type} : Pc Block Source → List (Watched Source)
  | .pass ready => ready
  | .handlePong ready => ready
  | .removed _ ready => ready
  | .received _ _ ready => ready
  | .user resume => resume.ready
  | .blocked resume => resume.ready
  | _ => []

/-- The steps of a session: user code calls neither `stopSafe` nor its scope. -/
def Label.OfProgram : Label J Unit → Prop
  | .stopSafe _ => False
  | .deliver .stopQuery => False
  | .call _ => False
  | .invokeAfterTimeout _ _ _ => False
  | _ => True

/-- The loop takes queries: each has its ping, no other socket is closed, and no timer is set. -/
structure State.Serving (s : State J Unit) : Prop where
  counted : s.queue.length = s.pings
  notStopped : s.isStopped = false
  scheduled : s.scheduled = []
  scope : s.scope = J.initialScope
  exited : s.pc ≠ .exited
  failed : ∀ why, s.pc ≠ .failed why
  removing : ∀ ready, s.pc = .handlePong ready → ⟨.loop, .removeFirst⟩ ∈ s.waiting
  removals : ∀ a ∈ s.waiting, a.body = .removeFirst → a.caller = .loop
  pong_once : s.pc.ready.countP Watched.isPong ≤ 1
  pong : .pong ∈ s.pc.ready → s.pipe ≠ []

/-- Returning from user code leaves the sockets of the pass. -/
@[simp]
theorem Resume.ready_pc {Block Source : Type} (resume : Resume Source) :
    (resume.pc : Pc Block Source).ready = resume.ready := by
  cases resume <;> rfl

/-- A step hands over the first of the ready sockets at most, or `poll` returns with new ones. -/
theorem Step.ready {s t : State J Unit} {l : Label J Unit} (hs : Step K s l t) :
    t.pc.ready <:+ s.pc.ready ∨
      J.HandsOver s.scope t.pc.ready ∧ (.pong ∈ t.pc.ready → t.pipe ≠ []) := by
  cases hs with
  | wake ready _ _ hready hpipe => exact .inr ⟨hready, hpipe⟩
  | @refuseUser _ _ _ resume caught _ _ hpc => cases caught <;> simp [hpc, Pc.ready]
  | «return» hpc => exact .inl (by rw [Resume.ready_pc, hpc]; exact List.suffix_refl _)
  | _ => simp_all [Pc.ready, Resume.ready]

/-- A ping is read only when the pong socket is handed over. -/
theorem Step.pipe {s t : State J Unit} {l : Label J Unit} (hs : Step K s l t) :
    s.pipe <+: t.pipe ∨ s.pc.ready = .pong :: t.pc.ready := by
  cases hs with
  | recvPing hpc => exact .inr (by simp [hpc, Pc.ready])
  | sendPing | sendPingLoop | sendStop =>
    rw [ZmqMsg.send]
    split
    · exact .inl (List.prefix_refl _)
    · exact .inl (List.prefix_append _ _)
  | _ => exact .inl (List.prefix_refl _)

/-- Sections of `removeFirst` are begun by the loop thread alone. -/
theorem Step.removals {s t : State J Unit} {l : Label J Unit} (hs : Step K s l t)
    (h : ∀ a ∈ s.waiting, a.body = .removeFirst → a.caller = .loop) :
    ∀ a ∈ t.waiting, a.body = .removeFirst → a.caller = .loop := by
  intro a ha
  cases hs with
  | invokeSafe | invokeSafeLoop | stopSafe | stopSafeLoop | recvPing =>
    obtain ha | ha := List.mem_append.mp ha
    · exact h a ha
    · obtain rfl := List.mem_singleton.mp ha
      first | exact fun _ => rfl | simp
  | addLast before after _ _ hwaiting
  | refuse before after _ _ hwaiting
  | refuseUser before after _ _ hwaiting
  | refusePong before after _ _ hwaiting
  | removeFirst before after _ _ hwaiting
  | removeFirstEmpty before after _ _ hwaiting =>
    refine h a ?_
    rw [hwaiting]
    exact ((List.sublist_cons_self _ _).append_left _).subset ha
  | _ => exact h a ha

/-- While the loop thread waits for the section that takes a query out, the section is waiting. -/
theorem Step.removing {s t : State J Unit} {l : Label J Unit} (hs : Step K s l t)
    (hdisposed : s.disposed = false) (hl : l.OfProgram)
    (h : ∀ ready, s.pc = .handlePong ready → ⟨.loop, .removeFirst⟩ ∈ s.waiting) :
    ∀ ready, t.pc = .handlePong ready → ⟨.loop, .removeFirst⟩ ∈ t.waiting := by
  intro ready hpc
  cases hs with
  | invokeSafe => exact List.mem_append_left _ (h ready hpc)
  | stopSafe => cases hl
  | addLast before after _ _ hwaiting =>
    have hmem := h ready hpc
    simpa [hwaiting] using hmem
  | recvPing => exact List.mem_append_right _ (List.mem_singleton_self _)
  | refuse _ _ _ hdisposed' | refuseUser _ _ _ hdisposed' | refusePong _ _ _ hdisposed' =>
    cases hdisposed.symm.trans hdisposed'
  | @«return» resume => cases resume <;> cases hpc
  | _ => first | exact h ready hpc | cases hpc

/-- The pong socket is handed over at most once in a pass, and while a ping can be read. -/
theorem Step.pong_once {s t : State J Unit} {l : Label J Unit} (hs : Step K s l t)
    (honce : s.pc.ready.countP Watched.isPong ≤ 1) (hpong : .pong ∈ s.pc.ready → s.pipe ≠ []) :
    t.pc.ready.countP Watched.isPong ≤ 1 ∧ (.pong ∈ t.pc.ready → t.pipe ≠ []) := by
  obtain hsuffix | ⟨hhands, hnew⟩ := hs.ready
  · refine ⟨(hsuffix.sublist.countP_le).trans honce, fun hmem => ?_⟩
    obtain hkept | heq := hs.pipe
    · exact fun hnil => hpong (hsuffix.subset hmem) (List.prefix_nil.mp (hnil ▸ hkept))
    · -- The pong socket was handed over, and is ready only once.
      have hpos : 0 < t.pc.ready.countP Watched.isPong := List.countP_pos_iff.mpr ⟨_, hmem, rfl⟩
      rw [heq, List.countP_cons_of_pos rfl] at honce
      omega
  · exact ⟨J.pong_once hhands, hnew⟩

/-- The loop thread does not fail: nothing is disposed or closed, and each ping has its query. -/
theorem Step.not_failed {s t : State J Unit} {l : Label J Unit} (hs : Step K s l t)
    (h : s.Serving) (hdisposed : s.disposed = false)
    (hopen : ∀ source, ¬ J.IsClosed J.initialScope source) (why : Failure) :
    t.pc ≠ .failed why := by
  have hcounted := h.counted
  cases hs with
  | refuse _ _ _ hdisposed' | refuseUser _ _ _ hdisposed' | refusePong _ _ _ hdisposed' =>
    cases hdisposed.symm.trans hdisposed'
  | recvFails _ hclosed => exact absurd (h.scope ▸ hclosed) (hopen _)
  | removeFirstEmpty _ _ _ _ _ hpc hqueue =>
    simp [State.pings, hpc, hqueue, Pc.awaiting] at hcounted
  | @«return» resume => exact resume.pc_ne_failed _
  | _ => first | exact h.failed _ | simp

/-- A step of the program leaves the loop serving. -/
theorem Step.serving {s t : State J Unit} {l : Label J Unit} (hs : Step K s l t) (h : s.Serving)
    (hl : l.OfProgram) (hcalling : s.Calling)
    (hopen : ∀ source, ¬ J.IsClosed J.initialScope source) : t.Serving where
  counted := by
    have hcount := hs.count
    have hcounted := h.counted
    -- No stop query comes up.
    have hblock : l.enqueued?.toList.countP Query.isStop = 0 := by
      obtain ⟨hnone, -⟩ | ⟨caller, query, rfl⟩ := l.enqueues_or
      · simp [hnone]
      · obtain ⟨block, rfl⟩ := hs.exists_block hcalling
        rfl
    omega
  notStopped := by
    cases hs <;> first | exact h.notStopped | cases hl
  scheduled := by
    cases hs with
    | runTimer _ _ _ _ hpoll =>
      have hperm := J.timers.perm_of_poll hpoll
      rw [← State.scheduled, h.scheduled] at hperm
      exact absurd hperm.length_eq (by simp)
    | invokeAfterTimeout => cases hl
    | _ => exact h.scheduled
  scope := by
    cases hs <;> first | exact h.scope | cases hl
  exited := by
    cases hs with
    | exit _ hstopped => cases h.notStopped.symm.trans hstopped
    | @«return» resume => exact resume.pc_ne_exited
    | @refuseUser _ _ _ _ caught => cases caught <;> simp
    | _ => first | exact h.exited | simp
  failed := hs.not_failed h hcalling.notDisposed hopen
  removing := hs.removing hcalling.notDisposed hl h.removing
  removals := hs.removals h.removals
  pong_once := (hs.pong_once h.pong_once h.pong).1
  pong := (hs.pong_once h.pong_once h.pong).2

/-! ## The work that is left -/

/-- The work of a query. -/
def Query.work : Query (Block E) → ℕ
  | .invokeQuery block => 26 * block.size
  | .stopQuery => 0

/-- The steps until the loop waits in `poll` again. While the pass has still to read a ping, only
the steps before the read count. -/
def Resume.work {Source : Type} : Resume Source → ℕ
  | .timers _ => 11
  | .pass ready => 4 * ready.length + if ready.countP Watched.isPong = 0 then 13 else 0

/-- What `Resume.work` counts, from each point of the loop job on. -/
def Pc.work {Block Source : Type} : Pc Block Source → ℕ
  | .top => 12
  | .timers _ => 11
  | .polling _ => 10
  | .pass ready => (Resume.pass ready).work
  | .handlePong ready => (Resume.pass ready).work + 3
  | .removed _ ready => (Resume.pass ready).work + 2
  | .received _ _ ready => (Resume.pass ready).work + 3
  | .user resume => resume.work + 1
  | .blocked resume => resume.work + 1
  | .exited => 0
  | .failed _ => 0

/-- Returning from user code leaves its work. -/
@[simp]
theorem Resume.work_pc {Block Source : Type} (resume : Resume Source) :
    (resume.pc : Pc Block Source).work = resume.work := by
  cases resume <;> rfl

/-- The work of the blocks whose calls wait. -/
def State.callsWork (fromLoop : Bool) (s : State J Unit) : ℕ :=
  ((s.calls fromLoop).map fun block => 26 * block.size + 24).sum

/-- The work that is left. A call has 26 of its own, and gives up some of it in each stage: when it
is made, when its section begins, when its ping is sent, and when the ping is read. -/
def Session.work (s : Session J) : ℕ :=
  26 * s.running.size + ((s.loop.pc.removed?.toList ++ s.loop.queue).map Query.work).sum +
    s.loop.callsWork true + s.loop.callsWork false +
    (s.outside.map fun block => 26 * block.size + 26).sum + 22 * s.loop.owed +
    20 * s.loop.pipe.length + s.loop.pc.work

/-- The session can go on. -/
structure Session.Live (s : Session J) : Prop where
  follows : ∃ a, s.Follows a
  serving : s.loop.Serving

/-- A session that can go on can do so after each step. -/
theorem Session.Live.step {s t : Session J} {l : Option E} (h : s.Live)
    (hs : Session.Step K s l t) (hopen : ∀ source, ¬ J.IsClosed J.initialScope source) :
    t.Live := by
  obtain ⟨⟨a, ha⟩, hserving⟩ := h
  constructor
  · obtain ⟨-, ht⟩ | ⟨-, b, -, -, ht⟩ := ha.step hs
    · exact ⟨a, ht⟩
    · exact ⟨b, ht⟩
  · cases hs with
    | @internal l _ hl hs =>
      have hl' : l.OfProgram := by cases l <;> first | exact trivial | cases hl
      exact hs.serving hserving hl' ha.calling hopen
    | submit _ hs | start hs | call _ hs | «return» _ hs =>
      exact hs.serving hserving trivial ha.calling hopen
    | effect => exact hserving

/-- A section that runs sends its ping. -/
theorem Session.Live.exists_send {s : Session J} (h : s.Live) (hs : s.loop.sending ≠ none) :
    ∃ l t, Session.Step ⊤ s l t ∧ t.work < s.work := by
  obtain ⟨⟨a, ha⟩, -⟩ := h
  obtain ⟨⟨caller, query⟩, hsend⟩ := Option.ne_none_iff_exists'.mp hs
  cases query with
  | stopQuery => exact absurd hsend (ha.calling.noStop.2 caller)
  | invokeQuery block =>
    cases caller with
    | thread u =>
      have hs := Step.sendPing hsend (ENat.natCast_lt_top s.loop.pipe.length)
      refine ⟨none, _, .internal (l := .send _ _) trivial hs, ?_⟩
      simp [Session.work, hsend, State.owed, State.callsWork, State.calls, Query.pings]
      omega
    | loop =>
      obtain ⟨resume, hpc⟩ := ha.calling.blocked_iff.mpr (.inr ⟨_, hsend⟩)
      have hs := Step.sendPingLoop hsend hpc (ENat.natCast_lt_top s.loop.pipe.length)
      refine ⟨none, _, .internal (l := .send _ _) trivial hs, ?_⟩
      simp [Session.work, hsend, State.owed, State.callsWork, State.calls, Query.pings, hpc,
        Pc.removed?, Pc.work]
      omega

/-- A call that waits comes to its section. -/
theorem Session.Live.exists_access {s : Session J} (h : s.Live) (hsend : s.loop.sending = none)
    {c : Bool} (hs : s.loop.calls c ≠ []) : ∃ l t, Session.Step ⊤ s l t ∧ t.work < s.work := by
  obtain ⟨⟨a, ha⟩, -⟩ := h
  obtain ⟨block, hblock⟩ := List.exists_mem_of_ne_nil _ hs
  obtain ⟨⟨caller, query | _⟩, hmem, hcall⟩ := List.mem_filterMap.mp hblock
  · obtain ⟨before, after, hwaiting⟩ := List.append_of_mem hmem
    have hs : Khala.Step ⊤ s.loop _ _ := .addLast before after ha.calling.notDisposed hsend hwaiting
    have hcalls := hs.calls ha.calling (by simp)
    obtain ⟨block, rfl⟩ := hs.exists_block ha.calling
    refine ⟨none, _, .internal (l := .access _ _) trivial hs, ?_⟩
    -- The call leaves those that wait, and its query joins the queue.
    have htrue := hcalls true
    have hfalse := hcalls false
    cases caller <;>
      simp only [Label.called?, Label.entered?, Access.call?, Caller.isLoop, Query.block?,
        reduceCtorEq, if_true, if_false, Option.toList_none, Option.toList_some, List.nil_append,
        List.append_nil, List.singleton_append] at htrue hfalse <;>
      simp [Session.work, hsend, State.owed, State.callsWork, htrue, hfalse, Query.pings,
        Query.work] <;>
      omega
  · cases hcall

/-- The other thread submits its next block when it is in no call. -/
theorem Session.exists_submit {s : Session J} (hbusy : ¬ s.loop.Busy ()) (hs : s.outside ≠ []) :
    ∃ l t, Session.Step K s l t ∧ t.work < s.work := by
  obtain ⟨block, outside, houtside⟩ := List.exists_cons_of_ne_nil hs
  refine ⟨none, _, .submit houtside (.invokeSafe () block hbusy), ?_⟩
  simp [Session.work, houtside, State.owed, State.callsWork, State.calls, Access.call?,
    Caller.isLoop, Query.block?]
  omega

/-- The work gets less if the loop thread gets on with its pass, or reads a ping. -/
theorem Session.work_lt {s : Session J} {loop : State J Unit}
    (hqueue : loop.pc.removed?.toList ++ loop.queue = s.loop.pc.removed?.toList ++ s.loop.queue)
    (hcalls : ∀ c, loop.calls c = s.loop.calls c) (howed : loop.owed = s.loop.owed)
    (hlt : 20 * loop.pipe.length + loop.pc.work < 20 * s.loop.pipe.length + s.loop.pc.work) :
    ({ s with loop } : Session J).work < s.work := by
  simp only [Session.work, State.callsWork, hqueue, hcalls, howed]
  omega

/-- A step of the loop thread within its pass. -/
theorem Session.Live.exists_pass {s : Session J} (h : s.Live) {ready : List (Watched J.Source)}
    (hpc : s.loop.pc = .pass ready) : ∃ l t, Session.Step K s l t ∧ t.work < s.work := by
  have hserving := h.serving
  match ready with
  | [] =>
    have hs : Khala.Step K s.loop _ _ := .endPass hpc
    refine ⟨none, _, .internal (l := .endPass) trivial hs, ?_⟩
    refine Session.work_lt (by simp [hpc, Pc.removed?]) (fun _ => rfl) rfl ?_
    simp [hpc, Pc.work, Resume.work]
  | .pong :: ready =>
    have hpipe : s.loop.pipe ≠ [] := hserving.pong (by simp [hpc, Pc.ready])
    obtain ⟨msg, rest, hpipe⟩ := List.exists_cons_of_ne_nil hpipe
    have hs : Khala.Step K s.loop _ _ := .recvPing hpc hpipe
    refine ⟨none, _, .internal (l := .recvPing) trivial hs, ?_⟩
    refine Session.work_lt (by simp [hpc, Pc.removed?]) (fun _ => ?_) rfl ?_
    · simp [State.calls, Access.call?]
    simp [hpc, hpipe, Pc.work, Resume.work, Watched.isPong]
    split <;> omega
  | .socket source :: ready =>
    have hs : Khala.Step K s.loop _ _ := .recv .new hpc
    refine ⟨none, _, .internal (l := .recv _ _) trivial hs, ?_⟩
    refine Session.work_lt (by simp [hpc, Pc.removed?]) (fun _ => rfl) rfl ?_
    simp [hpc, Pc.work, Resume.work, Watched.isPong]
    omega

/-- A step of the loop thread in user code. -/
theorem Session.exists_user {s : Session J} {resume : Resume J.Source}
    (hpc : s.loop.pc = .user resume) :
    ∃ l t, Session.Step K s l t ∧ t.work < s.work := by
  cases hrunning : s.running with
  | done =>
    have hs : Khala.Step K s.loop _ _ := .return hpc
    refine ⟨none, _, .return hrunning hs, ?_⟩
    refine Session.work_lt ?_ (fun _ => rfl) rfl ?_
    · rw [Resume.removed?_pc, hpc, Pc.removed?_user]
    · rw [Resume.work_pc, hpc, Pc.work]
      exact Nat.lt_succ_self _
  | effect e rest =>
    refine ⟨some e, _, .effect hpc hrunning, ?_⟩
    simp [Session.work, hrunning, Block.size]
  | call block rest =>
    have hs : Khala.Step K s.loop _ _ := .invokeSafeLoop block hpc
    refine ⟨none, _, .call hrunning hs, ?_⟩
    simp [Session.work, hpc, hrunning, Pc.removed?, Pc.work, State.owed, State.callsWork,
      State.calls, Access.call?, Caller.isLoop, Query.block?, Block.size]
    omega

/-- The wait in `poll` ends when there is a query, since it has its ping. -/
theorem State.Serving.exists_wake {s : Session J} (h : s.loop.Serving)
    (hsend : s.loop.sending = none) {currentTime : Int64} (hpc : s.loop.pc = .polling currentTime)
    (hqueue : s.loop.queue ≠ []) (hpong : J.HandsOver J.initialScope [.pong]) :
    ∃ l t, Session.Step K s l t ∧ t.work < s.work := by
  have hlength := h.counted
  have hpipe : s.loop.pipe ≠ [] := by
    rintro hnil
    refine hqueue (List.length_eq_zero_iff.mp ?_)
    simpa [State.pings, State.owed, hsend, hpc, hnil, Pc.awaiting] using hlength
  have hs : Khala.Step K s.loop _ _ :=
    .wake [.pong] hpc (List.cons_ne_nil _ _) (h.scope ▸ hpong) fun _ => hpipe
  refine ⟨none, _, .internal (l := .wake _) trivial hs, ?_⟩
  refine Session.work_lt (by simp [hpc, Pc.removed?]) (fun _ => rfl) rfl ?_
  simp [hpc, Pc.work, Resume.work, Watched.isPong]

/-- A ping that was read has a query, which is taken out. -/
theorem Session.Live.exists_removeFirst {s : Session J} (h : s.Live)
    (hsend : s.loop.sending = none) {ready : List (Watched J.Source)}
    (hpc : s.loop.pc = .handlePong ready) : ∃ l t, Session.Step K s l t ∧ t.work < s.work := by
  obtain ⟨a, ha⟩ := h.follows
  have hlength := h.serving.counted
  have hqueue : s.loop.queue ≠ [] := by
    rintro hnil
    simp [State.pings, State.owed, hsend, hpc, hnil, Pc.awaiting] at hlength
  obtain ⟨query, rest, hqueue⟩ := List.exists_cons_of_ne_nil hqueue
  obtain ⟨before, after, hwaiting⟩ := List.append_of_mem (h.serving.removing ready hpc)
  have hs : Khala.Step K s.loop _ _ :=
    .removeFirst before after ha.calling.notDisposed hsend hwaiting hpc hqueue
  refine ⟨none, _, .internal (l := .access _ _) trivial hs, ?_⟩
  refine Session.work_lt (by simp [hpc, hqueue, Pc.removed?]) (fun c => ?_) rfl ?_
  · simp [State.calls, hwaiting, List.filterMap_cons, Access.call?]
  · simp [hpc, Pc.work]

/-- A query that was taken out is a block, which is started. -/
theorem Session.Live.exists_start {s : Session J} (h : s.Live) {query : Query (Block E)}
    {ready : List (Watched J.Source)} (hpc : s.loop.pc = .removed query ready) :
    ∃ l t, Session.Step K s l t ∧ t.work < s.work := by
  obtain ⟨a, ha⟩ := h.follows
  have hqueue := ha.queue
  rw [hpc, Pc.removed?, Option.toList_some, List.singleton_append] at hqueue
  obtain ⟨i, waiting, -, rfl, -⟩ := List.map_eq_cons_iff.mp hqueue.symm
  have hdone := ha.running_eq_done (by simp [Pc.InUser, hpc])
  refine ⟨none, _, .start (.runBlock hpc), ?_⟩
  simp [Session.work, hpc, hdone, Pc.removed?, Pc.work, State.owed, State.callsWork, State.calls,
    Query.work, Block.size]

/-- What the loop thread does next, when no section runs and no call waits. -/
theorem Session.Live.exists_loop {s : Session J} (h : s.Live) (hsend : s.loop.sending = none)
    (hcalls : ∀ c, s.loop.calls c = []) (hpong : J.HandsOver J.initialScope [.pong])
    (hs : s.loop.queue ≠ [] ∨ ¬ s.loop.Polling) :
    ∃ l t, Session.Step ⊤ s l t ∧ t.work < s.work := by
  obtain ⟨a, ha⟩ := h.follows
  have hserving := h.serving
  cases hpc : s.loop.pc with
  | top =>
    have hs : Khala.Step ⊤ s.loop _ _ := .readClock 0 hpc hserving.notStopped
    refine ⟨none, _, .internal (l := .readClock _) trivial hs, ?_⟩
    exact Session.work_lt (by simp [hpc, Pc.removed?]) (fun _ => rfl) rfl (by simp [hpc, Pc.work])
  | timers currentTime =>
    have hempty := State.scheduled_eq_nil_iff.mp hserving.scheduled
    have hs : Khala.Step ⊤ s.loop _ _ := .enterPoll hpc (.inl hempty)
    refine ⟨none, _, .internal (l := .enterPoll) trivial hs, ?_⟩
    exact Session.work_lt (by simp [hpc, Pc.removed?]) (fun _ => rfl) rfl (by simp [hpc, Pc.work])
  | polling currentTime =>
    exact hserving.exists_wake hsend hpc (hs.resolve_right (not_not_intro ⟨_, hpc⟩)) hpong
  | pass ready => exact h.exists_pass hpc
  | handlePong ready => exact h.exists_removeFirst hsend hpc
  | removed query ready => exact h.exists_start hpc
  | received source msg ready =>
    have hs : Khala.Step ⊤ s.loop _ _ := .listen hpc
    refine ⟨none, _, .internal (l := .listen _ _) trivial hs, ?_⟩
    refine Session.work_lt (by simp [hpc, Pc.removed?]) (fun _ => rfl) rfl ?_
    simp [hpc, Pc.work]
  | user resume => exact Session.exists_user hpc
  | blocked resume =>
    obtain hcall | ⟨query, hquery⟩ := ha.calling.blocked_iff.mp ⟨_, hpc⟩
    · exact absurd (hcalls true) hcall
    · cases hsend.symm.trans hquery
  | exited => exact absurd hpc hserving.exited
  | failed why => exact absurd hpc (hserving.failed why)

/-- The other thread is in a call only if its call waits or its section runs. -/
theorem State.Serving.not_busy {s : State J Unit} (h : s.Serving) (hcalling : s.Calling)
    (hsend : s.sending = none) (hcalls : s.calls false = []) : ¬ s.Busy () := by
  rintro (⟨query | _, hmem⟩ | ⟨query, hquery⟩ | haccessed)
  · cases query with
    | invokeQuery block =>
      have hblock : block ∈ s.calls false := List.mem_filterMap.mpr ⟨_, hmem, rfl⟩
      rw [hcalls] at hblock
      cases hblock
    | stopQuery => exact hcalling.noStop.1 _ hmem rfl
  · cases h.removals _ hmem rfl
  · cases hsend.symm.trans hquery
  · cases hcalling.notCalled.symm.trans haccessed

/-- A session that can go on is over, or has a step after which less work is left. -/
theorem Session.Live.progress {s : Session J} (h : s.Live)
    (hpong : J.HandsOver J.initialScope [.pong]) (hs : ¬ s.Complete) :
    ∃ l t, Session.Step ⊤ s l t ∧ t.work < s.work := by
  obtain ⟨a, ha⟩ := h.follows
  by_cases hsend : s.loop.sending = none
  · by_cases hcalls : ∀ c, s.loop.calls c = []
    · have hbusy := h.serving.not_busy ha.calling hsend (hcalls false)
      by_cases houtside : s.outside = []
      · refine h.exists_loop hsend hcalls hpong ?_
        by_contra hnot
        obtain ⟨hqueue, hpolling⟩ := not_or.mp hnot
        exact hs ⟨houtside, hbusy, not_not.mp hqueue, not_not.mp hpolling⟩
      · exact Session.exists_submit hbusy houtside
    · obtain ⟨c, hcalls⟩ := not_forall.mp hcalls
      exact h.exists_access hsend hcalls
  · exact h.exists_send hsend

variable {submitted : List (Block E)}

/-- A session can go on from its beginning. -/
theorem Session.live_init (J : LoopJob (Block E)) (K : ℕ∞) (submitted : List (Block E)) :
    (Session.system J K submitted).init.Live where
  follows := ⟨_, Session.follows_init J K submitted⟩
  serving :=
    { counted := rfl
      notStopped := rfl
      scheduled := J.timers.toList_empty
      scope := rfl
      exited := nofun
      failed := nofun
      removing := nofun
      removals := nofun
      pong_once := Nat.zero_le _
      pong := nofun }

/-- Every run of a session can be continued until the session is over. -/
theorem Session.exists_complete {tr : List (Session J × Option E)} {s : Session J}
    (h : (Session.system J ⊤ submitted).Run tr s) (hpong : J.HandsOver J.initialScope [.pong])
    (hopen : ∀ source, ¬ J.IsClosed J.initialScope source) :
    ∃ tr' t, ((Session.system J ⊤ submitted).startingAt s).Run tr' t ∧ t.Complete := by
  have hlive : s.Live := h.invariant (Session.live_init J ⊤ submitted) fun hs ht => hs.step ht hopen
  refine exists_run_of_lt Session.work (I := Session.Live) (fun s hs hcomplete => ?_) hlive
  obtain ⟨l, t, hstep, hlt⟩ := hs.progress hpong hcomplete
  exact ⟨l, t, hstep, hs.step hstep hopen, hlt⟩

/-! ## The other thread ahead of the loop -/

/-- The session in which the other thread has submitted the first blocks, and the loop thread has
not begun. -/
def Session.ahead (J : LoopJob (Block E)) (submitted outside : List (Block E)) : Session J where
  loop :=
    { State.initial J Unit with
      queue := submitted.map .invokeQuery
      pipe := submitted.map fun block => (Query.invokeQuery block).message }
  running := .done
  outside := outside

/-- The other thread can submit the first blocks before the loop thread begins. -/
theorem Session.exists_run_ahead (J : LoopJob (Block E)) (submitted outside : List (Block E)) :
    ∃ tr s, (Session.system J ⊤ (submitted ++ outside)).Run tr s ∧ emitted tr = [] ∧
      s = Session.ahead J submitted outside := by
  induction submitted using List.reverseRecOn generalizing outside with
  | nil => exact ⟨[], _, .init, rfl, rfl⟩
  | append_singleton submitted block ih =>
    obtain ⟨tr, _, h, htr, rfl⟩ := ih (block :: outside)
    rw [List.append_assoc, List.singleton_append]
    have h₁ := h.step (.submit rfl (.invokeSafe () block (by
      simp [State.Busy, Session.ahead, State.initial])))
    have h₂ := h₁.step (.internal (l := .access _ _) trivial (.addLast [] [] rfl rfl rfl))
    have h₃ := h₂.step (.internal (l := .send _ _) trivial (.sendPing rfl (ENat.natCast_lt_top _)))
    refine ⟨_, _, h₃, ?_, ?_⟩
    · simp only [emitted_append, htr]
      rfl
    · simp [Session.ahead, State.initial, ZmqMsg.send, Query.message]

/-- A session in which the other thread is ahead of the loop runs the effects by their depth. -/
theorem Session.exists_complete_byDepth (J : LoopJob (Block E)) (submitted : List (Block E))
    (hpong : J.HandsOver J.initialScope [.pong])
    (hopen : ∀ source, ¬ J.IsClosed J.initialScope source) :
    ∃ tr s, (Session.system J ⊤ submitted).Run tr s ∧ s.Complete ∧ ∃ xs : List (ℕ × E),
      emitted tr = xs.map Prod.snd ∧ xs.Perm (effectsOf submitted) ∧
      xs.Pairwise fun x y => x.1 ≤ y.1 := by
  obtain ⟨tr, _, hrun, htr, rfl⟩ := Session.exists_run_ahead J submitted []
  rw [List.append_nil] at hrun
  obtain ⟨tr', s, hrun', hs⟩ := Session.exists_complete hrun hpong hopen
  have hahead : (Session.ahead J submitted []).Follows (Line.ahead submitted) := by
    obtain ⟨-, a, -, -, hfollows⟩ := Session.exists_line hrun
    refine ⟨hfollows.calling, fun h => absurd rfl h, ?_, rfl, rfl⟩
    simp [Session.ahead, Line.ahead, State.initial, Pc.removed?]
  obtain ⟨tr'', a, hline, htr', hfollows⟩ := hrun'.exists_simulating
    (T := (Line.system submitted).startingAt (Line.ahead submitted)) _ hahead
    Session.Follows.step
  refine ⟨_, s, hrun.append hrun', hs, emitted tr'', ?_,
    Line.byDepth_of_ahead hline (hfollows.remaining_eq_nil hs)⟩
  rw [emitted, List.filterMap_append, ← emitted, htr, List.nil_append, ← htr', emitted]

end Khala
