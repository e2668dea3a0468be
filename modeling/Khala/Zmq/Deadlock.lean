import Khala.Zmq.Handshake

/-!
# Deadlocks of the handshake

`invokeSafe` sends its ping while it holds the queue, and the only thread that reads pings needs the
queue to answer one. When the pipe is full the section that sends waits for the loop thread to read,
and if the loop thread waits for a section of its own neither goes on. `deadlockFree_iff` names the
steps that lead there: the loop thread calls `invokeSafe` while a section is held by a full pipe, or
a section of `invokeSafe` begins on a full pipe while the loop thread waits.
-/

namespace Khala

open Transitions

variable {Block Thread : Type} {J : LoopJob Block} {K : ℕ∞}

/-- The loop thread waits for an access section, in `handlePongSocket` or in a call of user code. -/
@[simp] def Pc.Waits {Source : Type} : Pc Block Source → Prop
  | .handlePong _ => True
  | .blocked _ => True
  | _ => False

/-- The loop thread does not wait when user code returns. -/
@[simp] theorem Resume.not_waits_pc {Source : Type} (resume : Resume Source) :
    ¬ (resume.pc : Pc Block Source).Waits := by
  cases resume <;> simp [Resume.pc]

/-- The running section comes to send a ping. -/
def State.SendsPing (s : State J Thread) : Prop :=
  ∃ caller block, s.sending = some (caller, .invokeQuery block)

/-- The running section comes to send a ping, and the pipe is full. -/
def State.HeldUp (K : ℕ∞) (s : State J Thread) : Prop := s.SendsPing ∧ K ≤ s.pipe.length

/-- A section waits for the pipe, and the loop thread waits for a section. -/
def State.Deadlocked (K : ℕ∞) (s : State J Thread) : Prop := s.HeldUp K ∧ s.pc.Waits

/-- A step that makes no deadlock: the loop thread calls neither `invokeSafe` nor `stopSafe` while a
section is held up, and a section of `invokeSafe` that begins while the loop thread waits finds room
in the pipe. -/
def State.Safe (K : ℕ∞) (s : State J Thread) : Label J Thread → Prop
  | .invokeSafe .loop _ => ¬ s.HeldUp K
  | .stopSafe .loop => ¬ s.HeldUp K
  | .access _ (.enqueue (.invokeQuery _)) => s.pc.Waits → (s.pipe.length : ℕ∞) < K
  | _ => True

/-- The pipe never holds more than it can. -/
theorem Step.length_pipe_le {s t : State J Thread} {l : Label J Thread} (hs : Step K s l t)
    (h : (s.pipe.length : ℕ∞) ≤ K) : (t.pipe.length : ℕ∞) ≤ K := by
  cases hs with
  | sendPing _ hroom => simpa [Query.message, ZmqMsg.send] using Order.add_one_le_of_lt hroom
  | sendPingLoop _ _ hroom => simpa [Query.message, ZmqMsg.send] using Order.add_one_le_of_lt hroom
  | sendStop => simpa [Query.message, ZmqMsg.send, ZmqMsg.new] using h
  | @recvPing ready msg rest hpc hpipe =>
    refine le_trans ?_ h
    simp [hpipe]
  | _ => exact h

/-- A step from a state without a deadlock leads to one exactly if it is not safe. -/
theorem Step.deadlocked_iff {s t : State J Thread} {l : Label J Thread} (hs : Step K s l t)
    (h : (s.pipe.length : ℕ∞) ≤ K) (hgood : ¬ s.Deadlocked K) :
    ¬ t.Deadlocked K ↔ s.Safe K l := by
  cases hs with
  | invokeSafe | stopSafe | dispose | refuse | call | invokeAfterTimeout =>
    exact iff_of_true hgood trivial
  -- The loop thread begins to wait: a deadlock if a section is held up by then.
  | invokeSafeLoop | stopSafeLoop => exact not_congr (and_iff_left trivial)
  | @addLast before after caller query =>
    cases query with
    | invokeQuery block =>
      -- The section comes to send: a deadlock if the pipe is full and the loop thread waits.
      have hsends : ∃ c b, some (caller, Query.invokeQuery block) = some (c, .invokeQuery b) :=
        ⟨caller, block, rfl⟩
      simp only [State.Deadlocked, State.HeldUp, State.SendsPing, State.Safe, hsends, true_and,
        not_and', not_le]
    | stopQuery => simp [State.Deadlocked, State.HeldUp, State.SendsPing, State.Safe]
  | sendPing | sendPingLoop | sendStop =>
    refine iff_of_true ?_ trivial
    rintro ⟨⟨⟨_, _, hsending⟩, -⟩, -⟩
    cases hsending
  | @refuseUser before after query resume caught =>
    refine iff_of_true ?_ trivial
    rintro ⟨-, hwaits⟩
    cases caught <;> exact hwaits
  | @recvPing ready msg rest hpc hpipe =>
    -- The message that was read has made room.
    refine iff_of_true ?_ trivial
    rintro ⟨⟨-, hfull⟩, -⟩
    rw [hpipe] at h
    have hroom : (rest.length : ℕ∞) < (msg :: rest).length := by
      exact_mod_cast Nat.lt_succ_self rest.length
    exact absurd (hfull.trans_lt hroom) (not_lt_of_ge h)
  | @«return» resume => exact iff_of_true (fun hdead => resume.not_waits_pc hdead.2) trivial
  | _ => exact iff_of_true And.right trivial

section Runs

variable {tr : List (State J Thread × Label J Thread)} {s : State J Thread}

/-- In every run the pipe holds at most `K` messages. -/
theorem length_pipe_le (h : (J.system Thread K).Run tr s) : (s.pipe.length : ℕ∞) ≤ K :=
  h.invariant (I := fun s => (s.pipe.length : ℕ∞) ≤ K) (by simp [LoopJob.system, State.initial])
    fun hi hs => Step.length_pipe_le hs hi

/-- A run stays free of deadlocks exactly when all its steps are safe. -/
theorem deadlockFree_iff (h : (J.system Thread K).Run tr s) :
    (∀ u ∈ System.states tr s, ¬ u.Deadlocked K) ↔ ∀ a ∈ tr, a.1.Safe K a.2 := by
  refine h.forall_states_iff (C := State.Safe K) (G := fun u => ¬ u.Deadlocked K) ?_ ?_
  · rintro ⟨⟨⟨_, _, hsending⟩, -⟩, -⟩
    cases hsending
  · rintro s l t ⟨tr, hr⟩ hgood hs
    exact Step.deadlocked_iff hs (length_pipe_le hr) hgood

/-- One `invokeSafe` of another thread is safe, even with a pipe that holds one message. -/
theorem deadlockFree_ping : ∃ tr s, ((Jvm.clientLoopJob Unit Unit).system Unit 1).Run tr s ∧
    ∀ u ∈ System.states tr s, ¬ u.Deadlocked 1 := by
  have h₁ := (System.Run.init (S := (Jvm.clientLoopJob Unit Unit).system Unit 1)).step
    (Step.invokeSafe () () (by simp [State.Busy, State.initial, LoopJob.system]))
  have h₂ := h₁.step (Step.addLast [] [] rfl rfl rfl)
  have h₃ := h₂.step (Step.sendPing rfl (by decide))
  exact ⟨_, _, h₃, (deadlockFree_iff h₃).mpr (by
    simp [State.Safe, LoopJob.system, State.initial])⟩

/-- With a pipe that holds one message, a block that calls `invokeSafe` twice blocks the loop for
good. -/
theorem deadlock_reachable : ∃ tr s,
    ((Jvm.clientLoopJob Unit Unit).system Unit 1).Run tr s ∧ s.Deadlocked 1 := by
  obtain ⟨tr, h, -⟩ := exists_run_in_block (K := 1) (Jvm.clientLoopJob Unit Unit) () () (by decide)
    ⟨[.socket pongSocket], List.nodup_singleton _, rfl⟩
  have h₁ := h.step (Step.invokeSafeLoop () rfl)
  have h₂ := h₁.step (Step.addLast [] [] rfl rfl rfl)
  have h₃ := h₂.step (Step.sendPingLoop rfl rfl (by decide))
  have h₄ := h₃.step (Step.invokeSafeLoop () rfl)
  have h₅ := h₄.step (Step.addLast [] [] rfl rfl rfl)
  exact ⟨_, _, h₅, ⟨⟨_, _, rfl⟩, le_refl _⟩, trivial⟩

end Runs

end Khala
