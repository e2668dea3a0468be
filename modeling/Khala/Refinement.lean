import Khala.Js.Program
import Khala.Zmq.Completion

/-!
# The loops on JS against the threaded loops

`invokeSafe` puts its block into the queue on the JVM and on native, and runs it at once on JS. So a
program has its effects in the order of calls in place on JS, and in an order in which each block
runs to its end before the next one on a threaded loop. `sameEffects_iff` says that the two agree on
the programs of `CallsLast`, and on no others if the effects can be told apart.
-/

namespace Khala

open CallOrder Transitions System

variable {E : Type} {S : Type} {J : LoopJob (Block E)} {L : Js.Loop} {K : ℕ∞}
  {submitted : List (Block E)}

/-- The loop job `J` and the loop `L` on JS have the effects of the program in the same order: what
`J` has done in any run is the beginning of what `L` does in all, and the whole of it when the
program is over. -/
def SameEffects (J : LoopJob (Block E)) (L : Js.Loop) (K : ℕ∞) (submitted : List (Block E)) :
    Prop :=
  ∀ tr s, (Session.system J K submitted).Run tr s →
    ∀ tr' s', (Js.Session.system L submitted).Run tr' s' → s'.Complete →
      emitted tr <+: emitted tr' ∧ (s.Complete → emitted tr = emitted tr')

/-- Programs that call in place last have the same effects on both. -/
theorem sameEffects_of_callsLast (h : CallsLast submitted) : SameEffects J L K submitted := by
  intro tr s hrun tr' s' hrun' hs'
  rw [Js.Session.emitted_eq hrun' hs']
  exact Session.emitted_prefix hrun h

/-- A program of which each effect is made once, and in the same order on both, calls in place last.
-/
theorem callsLast_of_sameEffects (hpong : J.HandsOver J.initialScope [.pong])
    (hopen : ∀ source, ¬ J.IsClosed J.initialScope source)
    (hnodup : ((effectsOf submitted).map Prod.snd).Nodup) (h : SameEffects J L ⊤ submitted) :
    CallsLast submitted := by
  obtain ⟨tr', s', hrun', hs'⟩ :=
    Js.Session.exists_complete (System.Run.init (S := Js.Session.system L submitted))
  obtain ⟨tr, s, hrun, hs, xs, heffects, hperm, hdepth⟩ :=
    Session.exists_complete_byDepth J submitted hpong hopen
  -- The effects come by their depth, and in the order of calls in place.
  refine Line.pairwise_of_map_eq hperm hnodup ?_ hdepth
  rw [← heffects, (h tr s hrun tr' s' hrun' hs').2 hs, Js.Session.emitted_eq hrun' hs']

/-- Each loop job can hand over its pong socket from the start. -/
theorem Variant.handsOver_pong (variant : Variant) (Block : Type) :
    (variant.job Block S).HandsOver (variant.job Block S).initialScope [.pong] := by
  cases variant with
  | jvmClient => exact ⟨[.socket pongSocket], List.nodup_singleton _, by rfl⟩
  | jvmServer => exact (List.singleton_sublist.mpr List.mem_cons_self).subperm
  | nativeClient => exact ⟨fun i => i == 0, rfl⟩
  | nativeServer => exact List.singleton_sublist.mpr List.mem_cons_self

/-- No socket of a loop job is closed at the start. -/
theorem Variant.not_isClosed (variant : Variant) (Block : Type)
    (source : (variant.job Block S).Source) :
    ¬ (variant.job Block S).IsClosed (variant.job Block S).initialScope source := by
  cases variant <;> exact List.not_mem_nil

/-- A threaded loop and a loop on JS have the effects of a program in the same order if no effect
comes after one of a block that is nested deeper, and if the effects are distinct only then. Every
run of the program can be continued until it is over, on the threaded loop and on JS. -/
theorem sameEffects_iff (variant : Variant) (L : Js.Loop) (submitted : List (Block E)) :
    (CallsLast submitted → ∀ K, SameEffects (variant.job (Block E) S) L K submitted) ∧
    (((effectsOf submitted).map Prod.snd).Nodup →
      (SameEffects (variant.job (Block E) S) L ⊤ submitted ↔ CallsLast submitted)) ∧
    (∀ tr s, (Session.system (variant.job (Block E) S) ⊤ submitted).Run tr s →
      ∃ tr' t, ((Session.system (variant.job (Block E) S) ⊤ submitted).startingAt s).Run tr' t ∧
        t.Complete) ∧
    ∀ tr s, (Js.Session.system L submitted).Run tr s →
      ∃ tr' t, ((Js.Session.system L submitted).startingAt s).Run tr' t ∧ t.Complete := by
  have hpong := variant.handsOver_pong (S := S) (Block E)
  have hopen := variant.not_isClosed (S := S) (Block E)
  refine ⟨fun h K => sameEffects_of_callsLast h, fun hnodup => ⟨?_, sameEffects_of_callsLast⟩, ?_,
    ?_⟩
  · exact callsLast_of_sameEffects hpong hopen hnodup
  · exact fun tr s h => Session.exists_complete h hpong hopen
  · exact fun tr s h => Js.Session.exists_complete h

/-- A block whose last action is to submit another one. -/
theorem sameEffects_callLast :
    ∀ K, SameEffects (Variant.nativeClient.job (Block ℕ) Unit) (Js.clientLoop Unit) K
      [.effect 1 (.call (.effect 2 .done) .done)] :=
  (sameEffects_iff .nativeClient (Js.clientLoop Unit) _).1 (by decide)

/-- A block that submits another one and goes on: it has its effect after that of the other block on
JS, and before it on a native client. -/
theorem nested_block_overtaken :
    (∃ tr s, (Session.system (Variant.nativeClient.job (Block ℕ) Unit) ⊤
      [.call (.effect 1 .done) (.effect 2 .done)]).Run tr s ∧ s.Complete ∧ emitted tr = [2, 1]) ∧
    (∃ tr s, (Js.Session.system (Js.clientLoop Unit)
      [.call (.effect 1 .done) (.effect 2 .done)]).Run tr s ∧ s.Complete ∧ emitted tr = [1, 2]) ∧
    ¬ SameEffects (Variant.nativeClient.job (Block ℕ) Unit) (Js.clientLoop Unit) ⊤
      [.call (.effect 1 .done) (.effect 2 .done)] := by
  have hpong := Variant.nativeClient.handsOver_pong (S := Unit) (Block ℕ)
  have hopen := Variant.nativeClient.not_isClosed (S := Unit) (Block ℕ)
  obtain ⟨tr, s, hrun, hs, xs, heffects, hperm, hdepth⟩ :=
    Session.exists_complete_byDepth _ [.call (.effect 1 .done) (.effect 2 .done)] hpong hopen
  have hperm : xs.Perm [(1, 1), (0, 2)] := hperm
  obtain rfl : xs = [(0, 2), (1, 1)] := by
    refine List.Perm.eq_of_pairwise (fun x y hx hy hxy hyx => ?_) hdepth (by decide)
      (hperm.trans (.swap _ _ _))
    -- No two of the effects have one depth.
    have hx := hperm.mem_iff.mp hx
    simp only [List.mem_cons, List.not_mem_nil, or_false] at hx hy
    obtain rfl | rfl := hx <;> obtain rfl | rfl := hy <;> simp_all
  obtain ⟨tr', s', hrun', hs'⟩ := Js.Session.exists_complete (System.Run.init
    (S := Js.Session.system (Js.clientLoop Unit) [.call (.effect 1 .done) (.effect 2 .done)]))
  refine ⟨⟨tr, s, hrun, hs, heffects⟩, ⟨tr', s', hrun', hs', Js.Session.emitted_eq hrun' hs'⟩, ?_⟩
  intro hsame
  have hcontra := (hsame tr s hrun tr' s' hrun' hs').2 hs
  rw [heffects, Js.Session.emitted_eq hrun' hs'] at hcontra
  exact absurd hcontra (by decide)

end Khala
