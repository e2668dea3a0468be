import Khala.Js.Loop
import Khala.Library.CallOrder

/-!
# Programs on JS

The same programs on a loop on JS. `invokeSafe` runs its block within the caller, so the blocks that
have begun form a stack, and the effects come in the order of calls in place
(`Session.emitted_eq`). Every run can be completed (`Session.exists_complete`).
-/

namespace Khala.Js

open CallOrder Transitions System

variable {E : Type} {L : Loop}

/-- A loop that runs a program. -/
structure Session (L : Loop) (E : Type) where
  loop : State L (Block E)
  /-- What is left of the code on the stack, the innermost first. -/
  stack : List (Block E)
  /-- The blocks that are still to be submitted. -/
  outside : List (Block E)

namespace Session

/-- One step, with the effect that it has. The listeners have no effects. -/
inductive Step : Session L E → Option E → Session L E → Prop where
  -- `loop.invokeSafe { … }` in the code that uses the loop
  | submit {s : Session L E} {block : Block E} {outside : List (Block E)}
      {loop : State L (Block E)} :
      s.stack = [] → s.outside = block :: outside →
      Js.Step s.loop (.invokeSafe block) loop → Step s none ⟨loop, [block], outside⟩
  | effect {s : Session L E} {e : E} {rest : Block E} {stack : List (Block E)} :
      s.stack = .effect e rest :: stack → Step s (some e) { s with stack := rest :: stack }
  -- `loop.invokeSafe { … }` in a block
  | call {s : Session L E} {block rest : Block E} {stack : List (Block E)}
      {loop : State L (Block E)} :
      s.stack = .call block rest :: stack → Js.Step s.loop (.invokeSafe block) loop →
      Step s none { s with loop, stack := block :: rest :: stack }
  | return {s : Session L E} {stack : List (Block E)} {loop : State L (Block E)} :
      s.stack = .done :: stack → Js.Step s.loop .return loop → Step s none { s with loop, stack }
  | message {s : Session L E} {source : L.Source} {loop : State L (Block E)} :
      Js.Step s.loop (.message source) loop →
      Step s none { s with loop, stack := .done :: s.stack }
  | bound {s : Session L E} {loop : State L (Block E)} :
      Js.Step s.loop .bound loop → Step s none { s with loop }

/-- A loop to which these blocks are submitted, one after the other. -/
def system (L : Loop) (submitted : List (Block E)) : System (Session L E) (Option E) where
  init := ⟨(L.system (Block E)).init, [], submitted⟩
  step := Step

/-- The session is over: all blocks are submitted and no code runs. -/
def Complete (s : Session L E) : Prop := s.outside = [] ∧ s.stack = []

/-- The effects that are still to come, in their order. -/
def remaining (s : Session L E) : List E := (effectsOf (s.stack ++ s.outside)).map Prod.snd

variable {submitted : List (Block E)} {tr : List (Session L E × Option E)} {s t : Session L E}
  {l : Option E}

/-- The effects that remain are those of the step and those that remain after it. -/
theorem Step.remaining_eq (hs : Step s l t) : s.remaining = l.toList ++ t.remaining := by
  cases hs with
  | submit hstack houtside =>
    simp [remaining, hstack, houtside]
  | effect hstack => simp [remaining, hstack, effectsOf_cons, Block.effectsAt]
  | @call block rest stack loop hstack =>
    simp [remaining, hstack, effectsOf_cons, Block.effectsAt, block.map_snd_effectsAt 1 0]
  | «return» hstack => simp [remaining, hstack, effectsOf_cons, Block.effectsAt]
  | message => simp [remaining, effectsOf_cons, Block.effectsAt]
  | bound => rfl

/-- In every run the effects that were had and those that are still to come are those of the
program, in the order of calls in place. -/
theorem emitted_append_remaining (h : (system L submitted).Run tr s) :
    emitted tr ++ s.remaining = (effectsOf submitted).map Prod.snd := by
  refine h.induct (I := fun tr s => emitted tr ++ s.remaining = (effectsOf submitted).map Prod.snd)
    rfl fun {tr s l t} _ ih hs => ?_
  rw [emitted_append, List.append_assoc, ← Step.remaining_eq hs, ih]

/-- On JS the effects of a program come in the order of calls in place. -/
theorem emitted_eq (h : (system L submitted).Run tr s) (hs : s.Complete) :
    emitted tr = (effectsOf submitted).map Prod.snd := by
  have heq := emitted_append_remaining h
  obtain ⟨houtside, hstack⟩ := hs
  rwa [remaining, houtside, hstack, List.append_nil, effectsOf, List.flatMap_nil, List.map_nil,
    List.append_nil] at heq

/-! ## Programs run to their end -/

/-- The steps that are left. -/
def work (s : Session L E) : ℕ :=
  (s.stack.map fun block => 3 * block.size + 1).sum +
    (s.outside.map fun block => 3 * block.size + 2).sum

/-- The loop counts the blocks that are being run. -/
theorem Step.depth_eq (hs : Step s l t) (h : s.loop.depth = s.stack.length) :
    t.loop.depth = t.stack.length := by
  cases hs with
  | submit hstack _ hs => cases hs; simp_all
  | effect hstack => simp_all
  | call hstack hs => cases hs; simp_all
  | «return» hstack hs => cases hs; simp_all
  | message hs => cases hs; simp_all
  | bound hs => cases hs; exact h

/-- A session that is not over has a step after which fewer are left. -/
theorem progress (h : s.loop.depth = s.stack.length) (hs : ¬ s.Complete) :
    ∃ l t, Step s l t ∧ t.work < s.work := by
  cases hstack : s.stack with
  | nil =>
    obtain ⟨block, outside, houtside⟩ := List.exists_cons_of_ne_nil fun hnil => hs ⟨hnil, hstack⟩
    refine ⟨none, _, .submit hstack houtside (.invokeSafe block), ?_⟩
    simp [work, hstack, houtside]
  | cons block stack =>
    cases block with
    | done =>
      refine ⟨none, _, .return hstack (.return (by simp [h, hstack])), ?_⟩
      simp [work, hstack]
    | effect e rest =>
      refine ⟨some e, _, .effect hstack, ?_⟩
      simp [work, hstack, Block.size]
    | call block rest =>
      refine ⟨none, _, .call hstack (.invokeSafe block), ?_⟩
      simp [work, hstack, Block.size]
      omega

/-- Every run of a session can be continued until the session is over. -/
theorem exists_complete (h : (system L submitted).Run tr s) :
    ∃ tr' t, ((system L submitted).startingAt s).Run tr' t ∧ t.Complete := by
  have hdepth : s.loop.depth = s.stack.length :=
    h.invariant (I := fun s => s.loop.depth = s.stack.length) rfl fun hi hs => Step.depth_eq hs hi
  refine exists_run_of_lt work (I := fun s => s.loop.depth = s.stack.length)
    (fun s hs hcomplete => ?_) hdepth
  obtain ⟨l, t, hstep, hlt⟩ := progress hs hcomplete
  exact ⟨l, t, hstep, hstep.depth_eq hs, hlt⟩

end Session

end Khala.Js
