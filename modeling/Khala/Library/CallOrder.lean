import Khala.Library.Runs
import Mathlib.Data.List.Sort

/-!
# Calls in place and calls in line

A `Block` is a finite list of actions, each an effect or a call of another block. A call may run its
block in place; the effects then come in the order in which they are written. Or it may put the
block into a line, where it waits until the blocks before it have run: `Line` is that machine, fed
by a caller from outside besides.

`effectsOf` has the effects in the order of calls in place, each with its depth, the number of calls
it is within. A line keeps this order if the depth never decreases along it (`emitted_prefix`). It
runs the effects by their depth if the caller from outside is ahead of it (`byDepth_of_ahead`), so
if the effects are distinct, it keeps the order only then (`pairwise_of_map_eq`).
-/

universe u

namespace CallOrder

open Transitions System

variable {E F : Type u}

/-- What is left of a block: a finite list of actions. -/
inductive Block (E : Type u) where
  /-- Nothing is left. -/
  | done
  /-- An effect comes next. -/
  | effect (e : E) (rest : Block E)
  /-- A call of a block comes next. -/
  | call (block rest : Block E)

namespace Block

/-- The effects of a block at this depth, if every call runs its block in place. -/
def effectsAt (d : ℕ) : Block E → List (ℕ × E)
  | done => []
  | effect e rest => (d, e) :: effectsAt d rest
  | call block rest => effectsAt (d + 1) block ++ effectsAt d rest

/-- The effects do not depend on the depth, but for the depth itself. -/
theorem map_snd_effectsAt (b : Block E) (d d' : ℕ) :
    (b.effectsAt d).map Prod.snd = (b.effectsAt d').map Prod.snd := by
  induction b generalizing d d' with
  | done => rfl
  | effect e rest ih => rw [effectsAt, effectsAt, List.map_cons, List.map_cons, ih d d']
  | call block rest ihb ihr =>
    rw [effectsAt, effectsAt, List.map_append, List.map_append, ihb (d + 1) (d' + 1), ihr d d']

/-- How many actions a block has, with those of the blocks that it calls. -/
def size : Block E → ℕ
  | done => 0
  | effect _ rest => size rest + 1
  | call block rest => size block + size rest + 1

/-- No effect of a block is at a smaller depth than the block. -/
theorem le_of_mem_effectsAt {b : Block E} {d : ℕ} {x : ℕ × E} (hx : x ∈ b.effectsAt d) :
    d ≤ x.1 := by
  induction b generalizing d with
  | done => cases hx
  | effect e rest ih =>
    obtain rfl | hx := List.mem_cons.mp hx
    · exact le_rfl
    · exact ih hx
  | call block rest ihb ihr =>
    obtain hx | hx := List.mem_append.mp hx
    · exact (Nat.le_succ d).trans (ihb hx)
    · exact ihr hx

end Block

/-- The effects of blocks that are called one after the other from outside, in the order of calls in
place, each with its depth. -/
def effectsOf (submitted : List (Block E)) : List (ℕ × E) :=
  submitted.flatMap (Block.effectsAt 0)

/-- The effects of the first block come first. -/
theorem effectsOf_cons (b : Block E) (bs : List (Block E)) :
    effectsOf (b :: bs) = b.effectsAt 0 ++ effectsOf bs := rfl

/-- No effect comes after one that is deeper: once a block that was called has had an effect,
neither its caller has one, nor what is called from outside later. -/
def CallsLast (submitted : List (Block E)) : Prop :=
  (effectsOf submitted).Pairwise fun x y => x.1 ≤ y.1

instance (submitted : List (Block E)) : Decidable (CallsLast submitted) :=
  inferInstanceAs (Decidable ((effectsOf submitted).Pairwise fun x y => x.1 ≤ y.1))

/-! ## The line -/

/-- A line of blocks. A block in it is kept with its depth. -/
structure Line (E : Type u) where
  /-- The depth of the block that runs. -/
  depth : ℕ
  /-- What is left of the block that runs. -/
  running : Block E
  /-- The blocks that wait, the first one first. -/
  waiting : List (ℕ × Block E)
  /-- The blocks that are still to be called from outside. -/
  outside : List (Block E)

namespace Line

/-- A step, which may emit an effect. -/
inductive Step : Line E → Option (ℕ × E) → Line E → Prop where
  | effect {d e rest waiting outside} :
    Step ⟨d, .effect e rest, waiting, outside⟩ (some (d, e)) ⟨d, rest, waiting, outside⟩
  | call {d block rest waiting outside} :
    Step ⟨d, .call block rest, waiting, outside⟩ none
      ⟨d, rest, waiting ++ [(d + 1, block)], outside⟩
  | submit {d rest waiting block outside} :
    Step ⟨d, rest, waiting, block :: outside⟩ none ⟨d, rest, waiting ++ [(0, block)], outside⟩
  | start {d d' block waiting outside} :
    Step ⟨d, .done, (d', block) :: waiting, outside⟩ none ⟨d', block, waiting, outside⟩

/-- The line that is fed with these blocks from outside. -/
def system (submitted : List (Block E)) : System (Line E) (Option (ℕ × E)) where
  init := ⟨0, .done, [], submitted⟩
  step := Step

/-- The blocks in the order in which they will run, if no more are called. -/
def items (s : Line E) : List (ℕ × Block E) :=
  (s.depth, s.running) :: (s.waiting ++ s.outside.map (0, ·))

/-- The effects that are still to come, in some order. -/
def remaining (s : Line E) : List (ℕ × E) := s.items.flatMap fun i => i.2.effectsAt i.1

variable {submitted : List (Block E)} {tr : List (Line E × Option (ℕ × E))} {s t : Line E}
  {l : Option (ℕ × E)}

/-- No effect is lost or made up in a step. -/
theorem Step.perm (hs : Step s l t) : (l.toList ++ t.remaining).Perm s.remaining := by
  cases hs with
  | effect => simp [remaining, items, Block.effectsAt]
  | @call d block rest waiting outside =>
    simp only [remaining, items, Block.effectsAt, List.flatMap_cons, List.flatMap_append,
      List.flatMap_nil, Option.toList_none, List.nil_append, List.append_nil, List.append_assoc]
    -- The called block moves from before the rest to behind those that wait.
    exact ((List.perm_append_comm_assoc _ _ _).append_left _).trans
      (List.perm_append_comm_assoc _ _ _)
  | submit => simp [remaining, items]
  | start => simp [remaining, items, Block.effectsAt]

/-- No effect is lost or made up in a run. -/
theorem perm_remaining {s₀ : Line E} (h : ((system submitted).startingAt s₀).Run tr s) :
    (emitted tr ++ s.remaining).Perm s₀.remaining := by
  refine h.induct (I := fun tr s => (emitted tr ++ s.remaining).Perm s₀.remaining) (.refl _)
    fun {tr s l t} _ ih hs => ?_
  rw [emitted_append, List.append_assoc]
  exact ((Step.perm hs).append_left _).trans ih

/-- The line when all blocks are called from outside before one of them runs. -/
def ahead (submitted : List (Block E)) : Line E := ⟨0, .done, submitted.map (0, ·), []⟩

/-- What remains of a line in which nothing was run is all of the effects. -/
theorem remaining_ahead (submitted : List (Block E)) :
    (ahead submitted).remaining = effectsOf submitted := by
  simp [ahead, remaining, items, effectsOf, Block.effectsAt, List.flatMap_map]

/-- The effects of a run, and those that are still to come, are those of the blocks. -/
theorem perm_effectsOf (h : (system submitted).Run tr s) :
    (emitted tr ++ s.remaining).Perm (effectsOf submitted) := by
  have hinit : (system submitted).init.remaining = effectsOf submitted := by
    simp [remaining, items, system, effectsOf, Block.effectsAt, List.flatMap_map]
  have h' : ((system submitted).startingAt (system submitted).init).Run tr s := h
  exact hinit ▸ perm_remaining h'

/-! ## When the order is kept -/

section Numbers

/-- The effects of a block in the line. -/
abbrev effects (i : ℕ × Block E) : List (ℕ × E) := i.2.effectsAt i.1

/-- Every effect of the first block comes before every one of the second, by their numbers. -/
def Precedes (pos : E → ℕ) (i j : ℕ × Block E) : Prop :=
  ∀ x ∈ effects i, ∀ y ∈ effects j, pos x.2 < pos y.2

/-- The effects of a block come in the order of their numbers. -/
def Numbered (pos : E → ℕ) (i : ℕ × Block E) : Prop :=
  (effects i).Pairwise fun x y => pos x.2 < pos y.2

/-- What holds of a block and one behind it in the line: the first one comes first in place, and is
as deep at least; or it comes later in place, and is less deep. -/
def InLine (pos : E → ℕ) (i j : ℕ × Block E) : Prop :=
  Precedes pos i j ∧ j.1 ≤ i.1 ∨ Precedes pos j i ∧ i.1 < j.1

variable {pos : E → ℕ}

/-- What comes before an item comes before any part of it. -/
theorem Precedes.of_subset {i i' j j' : ℕ × Block E} (h : Precedes pos i j)
    (hi : effects i' ⊆ effects i) (hj : effects j' ⊆ effects j) : Precedes pos i' j' :=
  fun x hx y hy => h x (hi hx) y (hj hy)

/-- A block stays in line while it runs. -/
theorem InLine.of_subset {i i' j : ℕ × Block E} (h : InLine pos i j) (hdepth : i'.1 = i.1)
    (hi : effects i' ⊆ effects i) : InLine pos i' j :=
  h.imp (fun h => ⟨h.1.of_subset hi (List.Subset.refl _), hdepth ▸ h.2⟩)
    fun h => ⟨h.1.of_subset (List.Subset.refl _) hi, hdepth ▸ h.2⟩

/-- A block that is called is in line behind those that wait. -/
theorem InLine.called {i i' j : ℕ × Block E} (h : InLine pos i j) (hdepth : i'.1 = i.1 + 1)
    (hi : effects i' ⊆ effects i) : InLine pos j i' := by
  obtain ⟨hfirst, hle⟩ | ⟨hlater, hlt⟩ := h
  · exact .inr ⟨hfirst.of_subset hi (List.Subset.refl _), by omega⟩
  · exact .inl ⟨hlater.of_subset (List.Subset.refl _) hi, by omega⟩

/-- What is called from outside is in line behind a block that is called in line. -/
theorem InLine.outside {i i' j : ℕ × Block E} (h : InLine pos i j) (hj : j.1 = 0)
    (hi : effects i' ⊆ effects i) : InLine pos i' j := by
  obtain ⟨hfirst, -⟩ | ⟨-, hlt⟩ := h
  · exact .inl ⟨hfirst.of_subset hi (List.Subset.refl _), by omega⟩
  · omega

/-- The state of a line that keeps to the numbers of the effects: each block has its effects in the
order of their numbers, and each two blocks are in line. -/
structure Ordered (pos : E → ℕ) (s : Line E) : Prop where
  inLine : s.items.Pairwise (InLine pos)
  inBlock : ∀ i ∈ s.items, Numbered pos i

/-- A line is ordered if all that waits is in line behind the block and with each other, and each
block is numbered in itself. -/
theorem ordered_iff {d : ℕ} {b : Block E} {waiting : List (ℕ × Block E)}
    {outside : List (Block E)} :
    Ordered pos ⟨d, b, waiting, outside⟩ ↔
      ((∀ j ∈ waiting ++ outside.map (0, ·), InLine pos (d, b) j) ∧
        (waiting ++ outside.map (0, ·)).Pairwise (InLine pos)) ∧
      Numbered pos (d, b) ∧ ∀ i ∈ waiting ++ outside.map (0, ·), Numbered pos i := by
  rw [← List.pairwise_cons, ← List.forall_mem_cons]
  exact ⟨fun h => ⟨h.inLine, h.inBlock⟩, fun h => ⟨h.1, h.2⟩⟩

/-- A step keeps a line ordered. -/
theorem Step.ordered (hs : Step s l t) (h : s.Ordered pos) : t.Ordered pos := by
  cases hs with
  | effect =>
    rw [ordered_iff] at h ⊢
    obtain ⟨⟨hrun, hline⟩, hblock, hblocks⟩ := h
    exact ⟨⟨fun j hj => (hrun j hj).of_subset rfl (List.subset_cons_self _ _), hline⟩,
      hblock.sublist (List.sublist_cons_self _ _), hblocks⟩
  | @call d block rest waiting outside =>
    rw [ordered_iff] at h ⊢
    obtain ⟨⟨hrun, hline⟩, hblock, hblocks⟩ := h
    have hcalled : effects (d + 1, block) ⊆ effects (d, .call block rest) :=
      List.subset_append_left _ _
    have hrest : effects (d, rest) ⊆ effects (d, .call block rest) :=
      List.subset_append_right _ _
    obtain ⟨hin, hin', hlast⟩ := List.pairwise_append.mp hblock
    simp only [List.append_assoc, List.singleton_append, List.forall_mem_append,
      List.forall_mem_cons, List.pairwise_append, List.pairwise_cons] at *
    refine ⟨⟨⟨?_, ?_, ?_⟩, ⟨hline.1, ⟨?_, hline.2.1⟩, ?_⟩⟩, hin', hblocks.1, hin, hblocks.2⟩
    · exact fun j hj => (hrun.1 j hj).of_subset rfl hrest
    · exact .inr ⟨hlast, Nat.lt_succ_self d⟩
    · exact fun j hj => (hrun.2 j hj).of_subset rfl hrest
    · intro j hj
      obtain ⟨b, -, rfl⟩ := List.mem_map.mp hj
      exact (hrun.2 _ hj).outside rfl hcalled
    · exact fun j hj => ⟨(hrun.1 j hj).called rfl hcalled, hline.2.2 j hj⟩
  | submit =>
    rw [ordered_iff] at h ⊢
    rwa [List.append_assoc]
  | start =>
    rw [ordered_iff] at h ⊢
    obtain ⟨⟨-, hline⟩, -, hblocks⟩ := h
    rw [List.cons_append, List.pairwise_cons] at hline
    rw [List.cons_append, List.forall_mem_cons] at hblocks
    exact ⟨hline, hblocks⟩

/-- An effect comes before all that remain, if none of those with smaller numbers is deeper. -/
theorem Step.first {x : ℕ × E} (hs : Step s (some x) t) (h : s.Ordered pos)
    (hdepth : ∀ y ∈ t.remaining, pos y.2 < pos x.2 → y.1 ≤ x.1) :
    ∀ y ∈ t.remaining, pos x.2 < pos y.2 := by
  cases hs with
  | @effect d e rest waiting outside =>
    rw [ordered_iff] at h
    obtain ⟨⟨hrun, -⟩, hblock, -⟩ := h
    intro y hy
    have hy' := hdepth y hy
    simp only [remaining, items, List.flatMap_cons, List.mem_append, List.mem_flatMap] at hy
    obtain hy | ⟨j, hj, hy⟩ := hy
    · exact List.rel_of_pairwise_cons hblock hy
    · obtain ⟨hfirst, -⟩ | ⟨hlater, hlt⟩ := hrun j (List.mem_append.mpr hj)
      · exact hfirst (d, e) List.mem_cons_self y hy
      · -- The effects of a block that comes first in place and is deeper are as deep at least.
        have hle := Block.le_of_mem_effectsAt hy
        have hge := hy' (hlater y hy (d, e) List.mem_cons_self)
        omega

/-- A line is ordered at the beginning if the effects are numbered as they were submitted. -/
theorem ordered_init
    (hnumbers : (effectsOf submitted).Pairwise fun x y => pos x.2 < pos y.2) :
    (system submitted).init.Ordered pos := by
  obtain ⟨heach, hpair⟩ := List.pairwise_flatMap.mp hnumbers
  refine ordered_iff.mpr ⟨⟨?_, ?_⟩, List.Pairwise.nil, ?_⟩
  · intro j hj
    obtain ⟨b, -, rfl⟩ := List.mem_map.mp hj
    exact .inl ⟨nofun, le_rfl⟩
  · rw [List.nil_append, List.pairwise_map]
    exact hpair.imp fun h => .inl ⟨h, le_rfl⟩
  · intro j hj
    obtain ⟨b, hb, rfl⟩ := List.mem_map.mp hj
    exact heach b hb

/-- What is sorted and comes before all that is left of a sorted list is its beginning. -/
theorem prefix_of_pairwise {α : Type*} {pos : α → ℕ} {as bs cs : List α}
    (hperm : (as ++ bs).Perm cs) (has : as.Pairwise fun x y => pos x < pos y)
    (hcs : cs.Pairwise fun x y => pos x < pos y) (h : ∀ x ∈ as, ∀ y ∈ bs, pos x < pos y) :
    as <+: cs := by
  induction as generalizing cs with
  | nil => exact List.nil_prefix
  | cons a as ih =>
    obtain _ | ⟨c, cs⟩ := cs
    · exact absurd hperm.length_eq (by simp)
    rw [List.pairwise_cons] at has hcs
    rw [List.forall_mem_cons] at h
    -- Both heads are the first of all.
    have hac : a = c := by
      have ha : a ∈ c :: cs := hperm.mem_iff.mp (by simp)
      have hc : c ∈ a :: (as ++ bs) := hperm.mem_iff.mpr List.mem_cons_self
      obtain rfl | ha := List.mem_cons.mp ha
      · rfl
      obtain rfl | hc := List.mem_cons.mp hc
      · rfl
      have hlt : pos a < pos c := (List.mem_append.mp hc).elim (has.1 c) (h.1 c)
      exact absurd (hcs.1 a ha) hlt.not_gt
    subst hac
    exact (List.prefix_cons_inj a).mpr (ih hperm.cons_inv has.2 hcs.2 h.2)

/-- Along a list with increasing numbers whose depths do not decrease, a smaller number means no
larger depth. -/
theorem le_of_pos_lt {xs : List (ℕ × E)} (hnumbers : xs.Pairwise fun x y => pos x.2 < pos y.2)
    (hdepth : xs.Pairwise fun x y => x.1 ≤ y.1) {x y : ℕ × E} (hx : x ∈ xs) (hy : y ∈ xs)
    (hlt : pos x.2 < pos y.2) : x.1 ≤ y.1 := by
  have hright : xs.Pairwise fun x y => pos x.2 < pos y.2 → x.1 ≤ y.1 :=
    hdepth.imp fun {x y} hle (_ : pos x.2 < pos y.2) => hle
  have hleft : xs.Pairwise fun x y => pos y.2 < pos x.2 → y.1 ≤ x.1 :=
    hnumbers.imp fun hlt hgt => absurd hgt hlt.not_gt
  exact hright.forall_of_forall_of_flip (fun _ _ _ => le_rfl) hleft hx hy hlt

/-- A line keeps the order in place, if the depth never decreases along it. -/
theorem emitted_prefix_of_numbers (h : (system submitted).Run tr s)
    (hnumbers : (effectsOf submitted).Pairwise fun x y => pos x.2 < pos y.2)
    (hdepth : (effectsOf submitted).Pairwise fun x y => x.1 ≤ y.1) :
    emitted tr <+: effectsOf submitted := by
  have hinv : s.Ordered pos ∧ ((emitted tr).Pairwise fun x y => pos x.2 < pos y.2) ∧
      ∀ x ∈ emitted tr, ∀ y ∈ s.remaining, pos x.2 < pos y.2 := by
    refine h.induct (I := fun tr s => s.Ordered pos ∧
      ((emitted tr).Pairwise fun x y => pos x.2 < pos y.2) ∧
        ∀ x ∈ emitted tr, ∀ y ∈ s.remaining, pos x.2 < pos y.2) ?_ fun {tr s l t} hr ih hs => ?_
    · exact ⟨ordered_init hnumbers, List.Pairwise.nil, nofun⟩
    · obtain ⟨hordered, hpair, hrest⟩ := ih
      have hkept : ∀ x ∈ emitted tr, ∀ y ∈ t.remaining, pos x.2 < pos y.2 := fun x hx y hy =>
        hrest x hx y (hs.perm.mem_iff.mp (List.mem_append_right _ hy))
      refine ⟨hs.ordered hordered, ?_⟩
      cases l with
      | none =>
        rw [emitted_append, Option.toList_none, List.append_nil]
        exact ⟨hpair, hkept⟩
      | some x =>
        -- What is emitted was there before, and what remains is no shallower and numbered less.
        have hmem : x ∈ s.remaining := hs.perm.mem_iff.mp (by simp)
        have hnew : ∀ z ∈ x :: t.remaining, z ∈ effectsOf submitted := fun z hz =>
          (perm_effectsOf hr).mem_iff.mp (List.mem_append_right _ (hs.perm.mem_iff.mp hz))
        have hfirst := hs.first hordered fun y hy hlt =>
          le_of_pos_lt hnumbers hdepth (hnew y (List.mem_cons_of_mem _ hy))
            (hnew x List.mem_cons_self) hlt
        rw [emitted_append, Option.toList_some, List.pairwise_append, List.forall_mem_append]
        simp only [List.forall_mem_singleton, List.pairwise_singleton, true_and]
        exact ⟨⟨hpair, fun a ha => hrest a ha x hmem⟩, hkept, hfirst⟩
  exact prefix_of_pairwise (perm_effectsOf h) hinv.2.1 hnumbers hinv.2.2

end Numbers

end Line

/-! ## Numbering the effects -/

namespace Block

/-- Changes the effects of a block by a function. -/
def map (f : E → F) : Block E → Block F
  | done => done
  | effect e rest => effect (f e) (map f rest)
  | call block rest => call (map f block) (map f rest)

/-- Renaming effects does not move them to another depth. -/
theorem effectsAt_map (f : E → F) (b : Block E) (d : ℕ) :
    (b.map f).effectsAt d = (b.effectsAt d).map (Prod.map id f) := by
  induction b generalizing d with
  | done => rfl
  | effect e rest ih => rw [map, effectsAt, effectsAt, ih, List.map_cons]; rfl
  | call block rest ihb ihr => rw [map, effectsAt, effectsAt, ihb, ihr, List.map_append]

/-- How many effects a block has. -/
def count : Block E → ℕ
  | done => 0
  | effect _ rest => count rest + 1
  | call block rest => count block + count rest

/-- Numbers the effects of a block from `n` on. -/
def number (n : ℕ) : Block E → Block (ℕ × E)
  | done => done
  | effect e rest => effect (n, e) (number (n + 1) rest)
  | call block rest => call (number n block) (number (n + block.count) rest)

/-- Taking the numbers off a block gives the block back. -/
theorem map_number (b : Block E) (n : ℕ) : (b.number n).map Prod.snd = b := by
  induction b generalizing n with
  | done => rfl
  | effect e rest ih => rw [number, map, ih]
  | call block rest ihb ihr => rw [number, map, ihb, ihr]

/-- The numbers of the effects are those from `n` on. -/
theorem numbers_number (b : Block E) (n d : ℕ) :
    ((b.number n).effectsAt d).map (fun x => x.2.1) = List.range' n b.count := by
  induction b generalizing n d with
  | done => rfl
  | effect e rest ih => rw [number, effectsAt, List.map_cons, ih, count, List.range'_succ]
  | call block rest ihb ihr =>
    rw [number, effectsAt, List.map_append, ihb, ihr, count, List.range'_append_1]

end Block

/-- How many effects blocks have. -/
def countAll : List (Block E) → ℕ
  | [] => 0
  | b :: bs => b.count + countAll bs

/-- Numbers the effects of blocks that are called one after the other. -/
def numberAll (n : ℕ) : List (Block E) → List (Block (ℕ × E))
  | [] => []
  | b :: bs => b.number n :: numberAll (n + b.count) bs

/-- Taking the numbers off blocks gives the blocks back. -/
theorem map_numberAll (bs : List (Block E)) (n : ℕ) :
    (numberAll n bs).map (Block.map Prod.snd) = bs := by
  induction bs generalizing n with
  | nil => rfl
  | cons b bs ih => rw [numberAll, List.map_cons, ih, Block.map_number]

/-- The effects of renamed blocks are the renamed effects. -/
theorem effectsOf_map (f : E → F) (bs : List (Block E)) :
    effectsOf (bs.map (Block.map f)) = (effectsOf bs).map (Prod.map id f) := by
  rw [effectsOf, List.flatMap_map, effectsOf, List.map_flatMap]
  exact List.flatMap_congr fun b _ => b.effectsAt_map f 0

/-- Effects are numbered one after the other. -/
theorem numbers_numberAll (bs : List (Block E)) (n : ℕ) :
    (effectsOf (numberAll n bs)).map (fun x => x.2.1) =
      List.range' n (countAll bs) := by
  induction bs generalizing n with
  | nil => rfl
  | cons b bs ih =>
    rw [numberAll, effectsOf_cons, List.map_append, Block.numbers_number, ih, countAll,
      List.range'_append_1]

/-- The numbers of effects rise. -/
theorem pairwise_numberAll (bs : List (Block E)) (n : ℕ) :
    (effectsOf (numberAll n bs)).Pairwise fun x y => x.2.1 < y.2.1 := by
  have hrange := List.pairwise_lt_range' (s := n) (n := countAll bs)
  rwa [← numbers_numberAll, List.pairwise_map] at hrange

namespace Line

/-- Changes the effects of a line by a function. -/
def map (f : E → F) (s : Line E) : Line F :=
  ⟨s.depth, s.running.map f, s.waiting.map (Prod.map id (Block.map f)),
    s.outside.map (Block.map f)⟩

/-- A step of a line whose effects were changed is a step of the line. -/
theorem Step.exists_of_map {f : E → F} {s : Line E} {t' : Line F} {l' : Option (ℕ × F)}
    (hs : Step (s.map f) l' t') :
    ∃ l t, Step s l t ∧ l' = l.map (Prod.map id f) ∧ t' = t.map f := by
  obtain ⟨d, b, waiting, outside⟩ := s
  generalize heq : map f ⟨d, b, waiting, outside⟩ = s' at hs
  cases hs with
  | effect =>
    simp only [map, mk.injEq] at heq
    obtain ⟨rfl, hb, rfl, rfl⟩ := heq
    cases b with
    | done | call => cases hb
    | effect e rest =>
      obtain ⟨rfl, rfl⟩ := Block.effect.inj hb
      exact ⟨_, _, .effect, rfl, rfl⟩
  | call =>
    simp only [map, mk.injEq] at heq
    obtain ⟨rfl, hb, rfl, rfl⟩ := heq
    cases b with
    | done | effect => cases hb
    | call block rest =>
      obtain ⟨rfl, rfl⟩ := Block.call.inj hb
      exact ⟨_, _, .call, rfl, by simp [map]⟩
  | submit =>
    simp only [map, mk.injEq] at heq
    obtain ⟨rfl, rfl, rfl, ho⟩ := heq
    cases outside with
    | nil => cases ho
    | cons block outside =>
      obtain ⟨rfl, rfl⟩ := List.cons.inj ho
      exact ⟨_, _, .submit, rfl, by simp [map]⟩
  | start =>
    simp only [map, mk.injEq] at heq
    obtain ⟨rfl, hb, hw, rfl⟩ := heq
    cases b with
    | effect | call => cases hb
    | done =>
      cases waiting with
      | nil => cases hw
      | cons i waiting =>
        obtain ⟨hi, rfl⟩ := List.cons.inj hw
        obtain ⟨rfl, rfl⟩ := Prod.mk.inj hi
        exact ⟨_, _, .start, rfl, rfl⟩

variable {submitted : List (Block E)}

/-- A run of a line whose effects were changed is a run of the line. -/
theorem exists_run_of_map (f : E → F) {tr' : List (Line F × Option (ℕ × F))} {s' : Line F}
    (h : (system (submitted.map (Block.map f))).Run tr' s') :
    ∃ tr s, (system submitted).Run tr s ∧ emitted tr' = (emitted tr).map (Prod.map id f) ∧
      s' = s.map f := by
  refine h.exists_simulating (T := system submitted) _ (R := fun s' s => s' = s.map f) rfl ?_
  rintro _ s l' t' rfl hs
  obtain ⟨l, t, ht, rfl, rfl⟩ := Step.exists_of_map hs
  exact .inr ⟨l, t, ht, rfl, rfl⟩

variable {tr : List (Line E × Option (ℕ × E))} {s : Line E}

/-- A line keeps the order in place, if the depth never decreases along it. -/
theorem emitted_prefix (h : (system submitted).Run tr s)
    (hlast : CallsLast submitted) : emitted tr <+: effectsOf submitted := by
  -- The effects are numbered in their order in place.
  have hmap := map_numberAll submitted 0
  rw [CallsLast, ← hmap, effectsOf_map, List.pairwise_map] at hlast
  rw [← hmap] at h
  obtain ⟨tr', s', h', htr, -⟩ := exists_run_of_map Prod.snd h
  have hnumbers : (effectsOf (numberAll 0 submitted)).Pairwise fun x y =>
      Prod.fst x.2 < Prod.fst y.2 := pairwise_numberAll submitted 0
  have hprefix := emitted_prefix_of_numbers h' hnumbers hlast
  rw [htr, ← hmap, effectsOf_map]
  exact hprefix.map _

/-! ## By depth -/

/-- The state of a line that is fed from outside no more, with the blocks by their depth. -/
structure ByDepth (s : Line E) : Prop where
  outside : s.outside = []
  sorted : (s.waiting.map Prod.fst).Pairwise (· ≤ ·)
  near : ∀ i ∈ s.waiting, s.depth ≤ i.1 ∧ i.1 ≤ s.depth + 1

/-- A step keeps a line sorted by depth, and makes the effects of the smallest one. -/
theorem Step.byDepth {t : Line E} {l : Option (ℕ × E)} (hs : Step s l t) (h : s.ByDepth) :
    t.ByDepth ∧ s.depth ≤ t.depth ∧ ∀ x ∈ l, x.1 = s.depth := by
  obtain ⟨houtside, hsorted, hnear⟩ := h
  cases hs with
  | effect => exact ⟨⟨houtside, hsorted, hnear⟩, le_rfl, by simp⟩
  | @call d block rest waiting outside =>
    refine ⟨⟨houtside, ?_, ?_⟩, le_rfl, nofun⟩
    · rw [List.map_append, List.pairwise_append]
      refine ⟨hsorted, List.pairwise_singleton _ _, ?_⟩
      simpa using fun i b hi => (hnear (i, b) hi).2
    · simpa [or_imp, forall_and] using hnear
  | submit => cases houtside
  | start =>
    rw [List.map_cons, List.pairwise_cons] at hsorted
    rw [List.forall_mem_cons] at hnear
    refine ⟨⟨houtside, hsorted.2, fun i hi => ⟨?_, ?_⟩⟩, hnear.1.1, nofun⟩
    · exact hsorted.1 _ (List.mem_map_of_mem hi)
    · exact (hnear.2 i hi).2.trans (Nat.succ_le_succ hnear.1.1)

/-- Once it is fed no more, a line runs the effects by their depth. -/
theorem emitted_byDepth {s₀ : Line E} (h₀ : s₀.ByDepth)
    (h : ((system submitted).startingAt s₀).Run tr s) :
    (emitted tr).Pairwise fun x y => x.1 ≤ y.1 := by
  refine (h.induct (I := fun tr s => s.ByDepth ∧ ((emitted tr).Pairwise fun x y => x.1 ≤ y.1) ∧
    ∀ x ∈ emitted tr, x.1 ≤ s.depth) ?_ fun {tr s l t} _ ih hs => ?_).2.1
  · exact ⟨h₀, List.Pairwise.nil, nofun⟩
  · obtain ⟨hdepth, hpair, hle⟩ := ih
    obtain ⟨hdepth', hmono, hl⟩ := Step.byDepth hs hdepth
    refine ⟨hdepth', ?_, ?_⟩
    · rw [emitted_append, List.pairwise_append]
      refine ⟨hpair, by cases l <;> simp, fun x hx y hy => ?_⟩
      rw [hl y (Option.mem_toList.mp hy)]
      exact hle x hx
    · rw [emitted_append, List.forall_mem_append]
      refine ⟨fun x hx => (hle x hx).trans hmono, fun y hy => ?_⟩
      rw [hl y (Option.mem_toList.mp hy)]
      exact hmono

/-- If distinct effects come in the order in place and by their depth, the depth never decreases
along that order. -/
theorem pairwise_of_map_eq {xs ys : List (ℕ × E)} (hperm : xs.Perm ys)
    (hnodup : (ys.map Prod.snd).Nodup) (heq : xs.map Prod.snd = ys.map Prod.snd)
    (hdepth : xs.Pairwise fun x y => x.1 ≤ y.1) : ys.Pairwise fun x y => x.1 ≤ y.1 := by
  suffices hxs : xs = ys by rwa [← hxs]
  refine List.ext_getElem hperm.length_eq fun i hi hi' => ?_
  -- Both have the effect in this place, and an effect has one depth.
  have hsnd : xs[i].2 = ys[i].2 := by
    simpa [hi, hi'] using congrArg (fun l => l[i]?) heq
  exact List.inj_on_of_nodup_map hnodup (hperm.mem_iff.mp (List.getElem_mem hi))
    (List.getElem_mem hi') hsnd

/-- A line that is called ahead runs all effects by their depth. -/
theorem byDepth_of_ahead (h : ((system submitted).startingAt (ahead submitted)).Run tr s)
    (hend : s.remaining = []) :
    (emitted tr).Perm (effectsOf submitted) ∧ (emitted tr).Pairwise fun x y => x.1 ≤ y.1 := by
  have hperm := perm_remaining h
  rw [hend, List.append_nil, remaining_ahead] at hperm
  have hahead : (ahead submitted).ByDepth :=
    { outside := rfl
      sorted := by
        simp only [ahead, List.map_map, List.pairwise_map]
        exact List.pairwise_of_forall fun _ _ => le_rfl
      near := by simp [ahead] }
  exact ⟨hperm, emitted_byDepth hahead h⟩

end Line

end CallOrder
