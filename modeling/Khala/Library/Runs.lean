import Mathlib.Data.List.Induction
import Mathlib.Logic.Function.Iterate
import Mathlib.Data.List.Infix
import Mathlib.Order.Monotone.Basic

/-!
# Runs of a labelled transition system

A `System` is a labelled transition system with one initial state. A `Run` from that state records
each step as the state that it is taken in and its label, so that a property of steps can speak
about both. Three rules carry the inductions over runs: `Run.invariant` for a property that every
step keeps, `Run.invariant_of_steps` for one that is kept by the steps that meet a condition, and
`Run.forall_states_iff` for a condition that holds at every step of a run exactly when no state of
the run is bad. `exists_run_of_lt` finds a run to a goal, `Run.exists_simulating` a run of another
system that shows the same events, and `Run.project` the run of a part of the system. An `Execution`
is a run without end, from any state.
-/

namespace Transitions

universe u v

/-- An item of a list with one more item is the last one, or one of the earlier ones. -/
theorem append_singleton_eq_iff {α : Type*} {l before after : List α} {a b : α} :
    l ++ [b] = before ++ a :: after ↔
      (l = before ∧ b = a ∧ after = []) ∨
        ∃ rest, after = rest ++ [b] ∧ l = before ++ a :: rest := by
  constructor
  · intro heq
    rcases List.eq_nil_or_concat after with rfl | ⟨rest, c, rfl⟩
    · obtain ⟨hl, hb⟩ := List.append_inj' heq rfl
      exact .inl ⟨hl, List.singleton_inj.mp hb, rfl⟩
    · rw [List.concat_eq_append, ← List.cons_append, ← List.append_assoc] at heq
      obtain ⟨hl, hb⟩ := List.append_inj' heq rfl
      obtain rfl := List.singleton_inj.mp hb
      exact .inr ⟨rest, List.concat_eq_append, hl⟩
  · rintro (⟨rfl, rfl, rfl⟩ | ⟨rest, rfl, rfl⟩)
    · rfl
    · rw [List.append_assoc, List.cons_append]

/-- A condition on each item of a list and the items before it, for one more item. -/
theorem forall_split_append_singleton {α : Type*} {P : List α → α → Prop} {l : List α} {b : α} :
    (∀ before a after, l ++ [b] = before ++ a :: after → P before a) ↔
      (∀ before a after, l = before ++ a :: after → P before a) ∧ P l b := by
  constructor
  · intro h
    exact ⟨fun before a after heq => h before a (after ++ [b]) (by simp [heq]), h l b [] rfl⟩
  · rintro ⟨hinit, hlast⟩ before a after heq
    obtain ⟨rfl, rfl, -⟩ | ⟨rest, -, hrest⟩ := append_singleton_eq_iff.mp heq
    · exact hlast
    · exact hinit before a rest hrest

/-- What holds at one time and no longer at a later one ceases to hold at some time between. -/
theorem exists_leaving (P : ℕ → Prop) {n m : ℕ} (hP : P n) (hm : n ≤ m) (hnot : ¬ P m) :
    ∃ k ≥ n, P k ∧ ¬ P (k + 1) := by
  by_contra hnone
  have hkeep : ∀ k ≥ n, P k → P (k + 1) := by
    intro k hk hstay
    by_contra hleft
    exact hnone ⟨k, hk, hstay, hleft⟩
  exact hnot (Nat.le_induction hP hkeep m hm)

/-- A count that rises as long as it is below another one reaches what that one is now. -/
theorem exists_reaching {a b : ℕ → ℕ} (hb : Monotone b)
    (hrise : ∀ n, a n < b n → ∃ m ≥ n, a n < a m) (n : ℕ) : ∃ m ≥ n, b n ≤ a m := by
  have hreach : ∀ k ≤ b n, ∃ m ≥ n, k ≤ a m := by
    intro k
    induction k with
    | zero => exact fun _ => ⟨n, le_rfl, Nat.zero_le _⟩
    | succ k ih =>
      intro hk
      obtain ⟨m, hm, hle⟩ := ih (by omega)
      by_cases hdone : k + 1 ≤ a m
      · exact ⟨m, hm, hdone⟩
      · have hgoal := hb hm
        obtain ⟨i, hi, hlt⟩ := hrise m (by omega)
        exact ⟨i, by omega, by omega⟩
  exact hreach _ le_rfl

/-- A labelled transition system with one initial state. -/
structure System (State : Type u) (Label : Type v) where
  /-- The state that every run starts in. -/
  init : State
  /-- `step s l t`: in `s` the system can do `l` and be in `t`. -/
  step : State → Label → State → Prop

namespace System

variable {State : Type u} {Label : Type v} (S : System State Label)

/-- `S.Run tr s`: the steps `tr`, each with the state it is taken in, lead from the initial state
to `s`. -/
inductive Run : List (State × Label) → State → Prop
  | init : Run [] S.init
  | step {tr : List (State × Label)} {s t : State} {l : Label} :
      Run tr s → S.step s l t → Run (tr ++ [(s, l)]) t

/-- The states that some run leads to. -/
def Reachable (s : State) : Prop := ∃ tr, S.Run tr s

/-- The states that a run passes through, its last one included. -/
def states (tr : List (State × Label)) (s : State) : List State := tr.map Prod.fst ++ [s]

/-- The same steps, from another initial state. -/
def startingAt (s : State) : System State Label := { S with init := s }

variable {S} {tr : List (State × Label)} {s t : State} {l : Label}

/-- A run can be continued by a run from the state that it leads to. -/
theorem Run.append {tr' : List (State × Label)} (h : S.Run tr s)
    (h' : (S.startingAt s).Run tr' t) : S.Run (tr ++ tr') t := by
  induction h' with
  | init => rwa [List.append_nil]
  | step _ hs ih =>
    rw [← List.append_assoc]
    exact ih.step hs

/-- A step leads from a reachable state to one. -/
theorem Reachable.step (h : S.Reachable s) (hs : S.step s l t) : S.Reachable t := by
  obtain ⟨tr, hr⟩ := h
  exact ⟨_, hr.step hs⟩

/-- A property of the trace and the state that every step of a run keeps holds after every run. -/
theorem Run.induct {I : List (State × Label) → State → Prop} (hinit : I [] S.init)
    (hstep : ∀ {tr s l t}, S.Run tr s → I tr s → S.step s l t → I (tr ++ [(s, l)]) t)
    (h : S.Run tr s) : I tr s := by
  induction h with
  | init => exact hinit
  | step hr hs ih => exact hstep hr ih hs

/-- An invariant: it holds initially and every step keeps it. -/
theorem Run.invariant {I : State → Prop} (hinit : I S.init)
    (hstep : ∀ {s l t}, I s → S.step s l t → I t) (h : S.Run tr s) : I s :=
  h.induct (I := fun _ s => I s) hinit fun _ hi hs => hstep hi hs

/-- The steps before a step of a run lead to the state that it is taken in. -/
theorem Run.of_split {before after : List (State × Label)} {a : State × Label}
    (h : S.Run (before ++ a :: after) s) : S.Run before a.1 ∧ ∃ t, S.step a.1 a.2 t := by
  generalize htr : before ++ a :: after = tr at h
  induction h generalizing after with
  | init => simp at htr
  | @step tr s t l hr hs ih =>
    obtain ⟨rfl, rfl, -⟩ | ⟨rest, -, hinit⟩ := append_singleton_eq_iff.mp htr.symm
    · exact ⟨hr, t, hs⟩
    · exact ih hinit.symm

/-- A step of a run is taken in a state that a shorter run reaches. -/
theorem Run.reached (h : S.Run tr s) {a : State × Label} (ha : a ∈ tr) :
    ∃ tr', tr' <+: tr ∧ S.Run tr' a.1 ∧ ∃ t, S.step a.1 a.2 t := by
  induction h with
  | init => simp at ha
  | @step tr s t l hr hs ih =>
    rcases List.mem_append.mp ha with ha | ha
    · obtain ⟨tr', hpre, hr', hs'⟩ := ih ha
      exact ⟨tr', hpre.trans (List.prefix_append _ _), hr', hs'⟩
    · obtain rfl := List.mem_singleton.mp ha
      exact ⟨tr, List.prefix_append _ _, hr, t, hs⟩

/-- Every state that a run passes through is reachable. -/
theorem Run.reachable_of_mem_states (h : S.Run tr s) {u : State} (hu : u ∈ states tr s) :
    S.Reachable u := by
  rcases List.mem_append.mp hu with hu | hu
  · obtain ⟨a, ha, rfl⟩ := List.mem_map.mp hu
    obtain ⟨tr', -, hr, -⟩ := h.reached ha
    exact ⟨tr', hr⟩
  · obtain rfl := List.mem_singleton.mp hu
    exact ⟨tr, h⟩

/-- An invariant of the runs whose steps all meet a condition `C`. -/
theorem Run.invariant_of_steps {C : State → Label → Prop} {I : State → Prop} (hinit : I S.init)
    (hstep : ∀ {s l t}, S.Reachable s → I s → C s l → S.step s l t → I t) (h : S.Run tr s)
    (hC : ∀ a ∈ tr, C a.1 a.2) : I s := by
  induction h with
  | init => exact hinit
  | @step tr s t l hr hs ih =>
    have hpre : ∀ a ∈ tr, C a.1 a.2 := fun a ha => hC a (List.mem_append_left _ ha)
    exact hstep ⟨tr, hr⟩ (ih hpre) (hC (s, l) (by simp)) hs

/-- When a step from a good state leads to a bad one exactly if it fails `C`, the runs whose steps
all meet `C` are exactly those that pass through good states only. -/
theorem Run.forall_states_iff {C : State → Label → Prop} {G : State → Prop}
    (hinit : G S.init)
    (hstep : ∀ {s l t}, S.Reachable s → G s → S.step s l t → (G t ↔ C s l))
    (h : S.Run tr s) : (∀ u ∈ states tr s, G u) ↔ ∀ a ∈ tr, C a.1 a.2 := by
  induction h with
  | init => simpa [states] using hinit
  | @step tr s t l hr hs ih =>
    have hstates : states (tr ++ [(s, l)]) t = states tr s ++ [t] := by simp [states]
    simp only [hstates, List.forall_mem_append, List.forall_mem_singleton, ih]
    refine and_congr_right fun hC => ?_
    have hgood : G s := (ih.mpr hC) s (by simp [states])
    exact hstep ⟨tr, hr⟩ hgood hs

/-- After a step whose label meets `Q` no step has a label that meets `P`. -/
def SilentAfter (Q P : Label → Prop) (tr : List (State × Label)) : Prop :=
  ∀ before a after, tr = before ++ a :: after → Q a.2 → ∀ b ∈ after, ¬ P b.2

/-- The rule for `SilentAfter`: a step with a label in `Q` leads to a state in `I`, which no
step leaves and in which no step has a label in `P`; all this for steps that meet `C`. -/
theorem Run.silentAfter {Q P : Label → Prop} {C : State → Label → Prop} {I : State → Prop}
    (henter : ∀ {s l t}, S.Reachable s → C s l → S.step s l t → Q l → I t)
    (hkeep : ∀ {s l t}, I s → C s l → S.step s l t → I t ∧ ¬ P l) (h : S.Run tr s)
    (hC : ∀ a ∈ tr, C a.1 a.2) : SilentAfter Q P tr ∧ ((∃ a ∈ tr, Q a.2) → I s) := by
  induction h with
  | init => exact ⟨fun _ _ _ heq => by simp at heq, by simp⟩
  | @step tr s t l hr hs ih =>
    have hlast : C s l := hC (s, l) (by simp)
    obtain ⟨hsilent, hquiet⟩ := ih fun a ha => hC a (List.mem_append_left _ ha)
    constructor
    · intro before a after heq hQ b hb
      obtain ⟨-, -, rfl⟩ | ⟨rest, rfl, hinit⟩ := append_singleton_eq_iff.mp heq
      · simp at hb
      -- The step in `P` is one of the earlier ones, or the last one.
      · rcases List.mem_append.mp hb with hb | hb
        · exact hsilent before a rest hinit hQ b hb
        · obtain rfl := List.mem_singleton.mp hb
          exact (hkeep (hquiet ⟨a, hinit ▸ by simp, hQ⟩) hlast hs).2
    · rintro ⟨a, ha, hQ⟩
      rcases List.mem_append.mp ha with ha | ha
      · exact (hkeep (hquiet ⟨a, ha, hQ⟩) hlast hs).1
      · obtain rfl := List.mem_singleton.mp ha
        exact henter ⟨tr, hr⟩ hlast hs hQ

/-- A run can be continued to a goal, if a number decreases on the way: from each state in `I` that
is no goal there is a step to a state in `I` with a smaller one. -/
theorem exists_run_of_lt {I G : State → Prop} (size : State → ℕ)
    (hstep : ∀ s, I s → ¬ G s → ∃ l t, S.step s l t ∧ I t ∧ size t < size s) (hs : I s) :
    ∃ tr t, (S.startingAt s).Run tr t ∧ G t := by
  induction hn : size s using Nat.strong_induction_on generalizing s with
  | h n ih =>
    by_cases hgoal : G s
    · exact ⟨[], s, .init, hgoal⟩
    · obtain ⟨l, t, hs', ht, hlt⟩ := hstep s hs hgoal
      obtain ⟨tr, u, hr, hu⟩ := ih (size t) (hn ▸ hlt) ht rfl
      have hfirst : (S.startingAt s).Run ([] ++ [(s, l)]) t := .step .init hs'
      exact ⟨_, u, hfirst.append hr, hu⟩

/-! ## Events -/

/-- What `f` sees of the labels of a run, in order. -/
def observed {α : Type*} (f : Label → Option α) (tr : List (State × Label)) : List α :=
  tr.filterMap fun a => f a.2

/-- Nothing is observed of no steps. -/
@[simp]
theorem observed_nil {α : Type*} (f : Label → Option α) :
    observed f ([] : List (State × Label)) = [] := rfl

/-- The last step is observed last. -/
@[simp]
theorem observed_append {α : Type*} (f : Label → Option α) (tr : List (State × Label)) (s : State)
    (l : Label) : observed f (tr ++ [(s, l)]) = observed f tr ++ (f l).toList := by
  cases h : f l <;> simp [observed, h]

/-- Operations that are called, take effect and return in steps of their own: none takes effect
before it is called, and none returns before it took effect. -/
structure TakesEffect {α : Type*} (S : System State Label)
    (called effect returned : Label → Option α) : Prop where
  called : ∀ {tr s a}, S.Run tr s → a ∈ observed effect tr → a ∈ observed called tr
  effect : ∀ {tr s a}, S.Run tr s → a ∈ observed returned tr → a ∈ observed effect tr

section Operations

variable {α : Type*} {called effect returned : Label → Option α}
  {before after : List (State × Label)} {y : State × Label} {a b : α}

/-- An operation takes effect after it is called, if no operation is called twice. -/
theorem TakesEffect.mem_after (hS : TakesEffect S called effect returned)
    (h : S.Run (before ++ y :: after) s)
    (hnodup : (observed called (before ++ y :: after)).Nodup) (hy : called y.2 = some b)
    (hb : b ∈ observed effect (before ++ y :: after)) : b ∈ observed effect (y :: after) := by
  simp only [observed, List.filterMap_append, List.mem_append, List.nodup_append] at hb hnodup
  refine hb.resolve_left fun hmem => ?_
  have hcalled := hS.called h.of_split.1 hmem
  exact hnodup.2.2 b hcalled b (List.mem_filterMap.mpr ⟨y, List.mem_cons_self .., hy⟩) rfl

/-- An operation that took effect before another one was called comes before it. -/
theorem TakesEffect.sublist (hS : TakesEffect S called effect returned)
    (h : S.Run (before ++ y :: after) s)
    (hnodup : (observed called (before ++ y :: after)).Nodup) (hy : called y.2 = some b)
    (ha : a ∈ observed effect before) (hb : b ∈ observed effect (before ++ y :: after)) :
    [a, b].Sublist (observed effect (before ++ y :: after)) := by
  have hafter := hS.mem_after h hnodup hy hb
  rw [observed, List.filterMap_append]
  exact (List.singleton_sublist.mpr ha).append (List.singleton_sublist.mpr hafter)

end Operations

section Events

variable {Event Event' State' : Type*}

/-- The events of a run in their order. A label is the event that its step shows, if any. -/
def emitted (tr : List (State × Option Event)) : List Event := tr.filterMap Prod.snd

/-- The event of the last step is emitted last. -/
@[simp]
theorem emitted_append (tr : List (State × Option Event)) (s : State) (l : Option Event) :
    emitted (tr ++ [(s, l)]) = emitted tr ++ l.toList := by
  cases l <;> simp [emitted]

/-- The rule for simulations: a step of `S` shows nothing and keeps the relation, or is matched by a
step of `T` that shows the same event, but for `f`. -/
theorem Run.exists_simulating {S : System State (Option Event)}
    {T : System State' (Option Event')} (f : Event' → Event) {R : State → State' → Prop}
    (hinit : R S.init T.init)
    (hstep : ∀ {s s' l t}, R s s' → S.step s l t → (l = none ∧ R t s') ∨
      ∃ l' t', T.step s' l' t' ∧ l = l'.map f ∧ R t t')
    {tr : List (State × Option Event)} (h : S.Run tr s) :
    ∃ tr' s', T.Run tr' s' ∧ emitted tr = (emitted tr').map f ∧ R s s' := by
  induction h with
  | init => exact ⟨[], T.init, .init, rfl, hinit⟩
  | step _ hs ih =>
    obtain ⟨tr', s', h', htr, hR⟩ := ih
    obtain ⟨rfl, hR⟩ | ⟨l', t', hs', rfl, hR⟩ := hstep hR hs
    · exact ⟨tr', s', h', by simpa using htr, hR⟩
    · refine ⟨_, t', h'.step hs', ?_, hR⟩
      rw [emitted_append, emitted_append, htr, List.map_append]
      cases l' <;> rfl

end Events

/-- The rule for projections: if each step of `S`, seen through `f` and `g`, is a step of `T` or is
not seen, then each run of `S` is seen as a run of `T`. -/
theorem Run.project {State' : Type*} {Label' : Type*} {S : System State Label}
    {T : System State' Label'} (f : State → State') (g : Label → Option Label')
    (hinit : f S.init = T.init)
    (hnone : ∀ {s l t}, S.step s l t → g l = none → f t = f s)
    (hsome : ∀ {s l t l'}, S.step s l t → g l = some l' → T.step (f s) l' (f t))
    {tr : List (State × Label)} {s : State} (h : S.Run tr s) :
    T.Run (tr.filterMap fun a => (g a.2).map fun l => (f a.1, l)) (f s) := by
  induction h with
  | init => exact hinit ▸ .init
  | @step tr s t l _ hs ih =>
    rw [List.filterMap_append]
    cases hl : g l with
    | none => simpa [hl, hnone hs hl] using ih
    | some l' => simpa [hl] using ih.step (hsome hs hl)

/-! ## Executions -/

/-- An execution: steps without end, from any state. -/
structure Execution (S : System State Label) where
  state : ℕ → State
  label : ℕ → Label
  step : ∀ n, S.step (state n) (label n) (state (n + 1))

namespace Execution

/-- The first `n` steps of an execution. -/
def take (e : S.Execution) (n : ℕ) : List (State × Label) :=
  (List.range n).map fun i => (e.state i, e.label i)

/-- One step more is taken. -/
@[simp] theorem take_succ (e : S.Execution) (n : ℕ) :
    e.take (n + 1) = e.take n ++ [(e.state n, e.label n)] := by
  simp [take, List.range_succ]

/-- The steps that are taken are the first ones. -/
theorem mem_take {e : S.Execution} {n : ℕ} {a : State × Label} :
    a ∈ e.take n ↔ ∃ i < n, (e.state i, e.label i) = a := by
  simp [take]

/-- More steps go on from fewer. -/
theorem take_prefix (e : S.Execution) {m n : ℕ} (h : m ≤ n) : e.take m <+: e.take n := by
  induction h with
  | refl => exact List.prefix_refl _
  | step _ ih =>
    rw [Nat.succ_eq_add_one, take_succ]
    exact ih.trans (List.prefix_append _ _)

/-- The first steps of an execution are a run from its first state. -/
theorem run (e : S.Execution) (n : ℕ) : (S.startingAt (e.state 0)).Run (e.take n) (e.state n) := by
  induction n with
  | zero => exact .init
  | succ n ih =>
    rw [take_succ]
    exact ih.step (e.step n)

/-- The first steps of an execution from the initial state are a run. -/
theorem run_of_init {e : S.Execution} (h : e.state 0 = S.init) (n : ℕ) :
    S.Run (e.take n) (e.state n) := by
  have hrun := e.run n
  rwa [h] at hrun

/-- An execution after one more step. -/
def cons (s : State) (l : Label) (e : S.Execution) (hs : S.step s l (e.state 0)) :
    S.Execution where
  state
    | 0 => s
    | n + 1 => e.state n
  label
    | 0 => l
    | n + 1 => e.label n
  step
    | 0 => hs
    | n + 1 => e.step n

end Execution

/-- A run that is followed by an execution is the beginning of one. -/
theorem Run.exists_execution (h : S.Run tr s) (e : S.Execution) (he : e.state 0 = s) :
    ∃ e' : S.Execution, e'.state 0 = S.init ∧ e'.take tr.length = tr ∧
      ∀ n, e'.state (tr.length + n) = e.state n ∧ e'.label (tr.length + n) = e.label n := by
  induction h generalizing e with
  | init => exact ⟨e, he, rfl, fun n => by simp⟩
  | @step tr s t l _ hs ih =>
    obtain ⟨e', hinit, htake, hafter⟩ := ih (.cons s l e (he ▸ hs)) rfl
    rw [List.length_append, List.length_singleton]
    refine ⟨e', hinit, ?_, fun n => ?_⟩
    · rw [Execution.take_succ, htake]
      congr 2
      exact Prod.ext (hafter 0).1 (hafter 0).2
    · rw [Nat.add_assoc, Nat.add_comm 1]
      exact hafter (n + 1)

/-- Where every state in `I` has a step to a state in `I`, an execution stays in `I`. -/
theorem exists_execution {I : State → Prop} (hI : ∀ s, I s → ∃ l t, S.step s l t ∧ I t)
    (hs : I s) : ∃ e : S.Execution, e.state 0 = s ∧ ∀ n, I (e.state n) := by
  choose label next hstep using hI
  -- The execution takes the chosen step from each state.
  let after (u : { s // I s }) : { s // I s } := ⟨next u u.property, (hstep u u.property).2⟩
  let states (n : ℕ) : { s // I s } := after^[n] ⟨s, hs⟩
  have hsucc : ∀ n, states (n + 1) = after (states n) := fun n => Function.iterate_succ_apply' ..
  let e : S.Execution :=
    { state := fun n => states n
      label := fun n => label (states n) (states n).property
      step := fun n => by
        rw [hsucc]
        exact (hstep (states n) (states n).property).1 }
  exact ⟨e, rfl, fun n => (states n).property⟩

end System

/-- The states that a list of inputs leads through are all good exactly when each input meets `C` in
the state that it finds, provided that from a good state it leads to a good one exactly then. -/
theorem forall_prefix_foldl_iff {α σ : Type*} {f : σ → α → σ} {s : σ} {G : σ → Prop}
    {C : σ → α → Prop} (hinit : G s) {as : List α}
    (hstep : ∀ l a, l ++ [a] <+: as → G (l.foldl f s) →
      (G (f (l.foldl f s) a) ↔ C (l.foldl f s) a)) :
    (∀ l, l <+: as → G (l.foldl f s)) ↔ ∀ l a, l ++ [a] <+: as → C (l.foldl f s) a := by
  constructor
  · intro hgood l a hpre
    have hnext := hgood _ hpre
    rw [List.foldl_append] at hnext
    exact (hstep l a hpre (hgood l ((List.prefix_append l [a]).trans hpre))).mp hnext
  · intro hC l
    -- The last input is split off: its condition is about the state after the others.
    induction l using List.reverseRecOn with
    | nil => exact fun _ => hinit
    | append_singleton l a ih =>
      intro hpre
      have hgood := ih ((List.prefix_append l [a]).trans hpre)
      rw [List.foldl_append]
      exact (hstep l a hpre hgood).mpr (hC l a hpre)

end Transitions
