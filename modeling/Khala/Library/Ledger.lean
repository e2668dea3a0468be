import Khala.Library.LinkedHashMap

/-!
# Accounting for resources that are held under keys

A `Ledger` follows a component that opens resources, holds some of them under keys, and closes them.
Resources are numbered in the order in which they are opened, and the ledger keeps every close, so
that a resource that is never closed and one that is closed twice both show.

`Tracked` is what the operations keep on their own: what is held is open, and nothing was closed
twice. `Exact` says that nothing else is open: every operation but `leak` keeps it, and `leak` never
does. The section on closing relates the two to the number of times that each resource is closed.
-/

universe u v

/-- The resources that a component opened, holds and closed. -/
structure Ledger (κ : Type u) (β : Type v) where
  /-- The entries that are held, by key. -/
  held : LinkedHashMap κ β
  /-- How many resources were opened: they are `0`, …, `opened - 1`. -/
  opened : ℕ
  /-- The resources that were closed, in the order of the calls. -/
  closed : List ℕ

namespace Ledger

variable {κ : Type u} {β : Type v} [DecidableEq κ]

/-- Opens a resource and holds it under a key. -/
def acquire (k : κ) (v : β) (L : Ledger κ β) : Ledger κ β :=
  { L with held := L.held.put k v, opened := L.opened + 1 }

/-- Opens a resource that is not held. -/
def leak (L : Ledger κ β) : Ledger κ β := { L with opened := L.opened + 1 }

section Resources

variable (res : β → ℕ)

/-- Closes the resource that is held under a key, if there is one, and holds it no longer. -/
def release (k : κ) (L : Ledger κ β) : Ledger κ β :=
  match L.held.get? k with
  | none => L
  | some v => { L with held := L.held.remove k, closed := L.closed ++ [res v] }

/-- Closes every resource that is held, and goes on holding it. -/
def closeAll (L : Ledger κ β) : Ledger κ β :=
  { L with closed := L.closed ++ L.held.values.map res }

/-- Whether a resource is held. -/
def Holds (L : Ledger κ β) (n : ℕ) : Prop := ∃ k v, L.held.get? k = some v ∧ res v = n

/-- What is held is open, a resource from `base` on, and held under one key only; nothing was closed
twice. -/
structure Tracked (base : ℕ) (L : Ledger κ β) : Prop where
  base_le : base ≤ L.opened
  le_res : ∀ k v, L.held.get? k = some v → base ≤ res v
  lt_opened : ∀ k v, L.held.get? k = some v → res v < L.opened
  distinct : ∀ k v k' v', L.held.get? k = some v → L.held.get? k' = some v' → res v = res v' →
    k = k'
  notMem_closed : ∀ k v, L.held.get? k = some v → res v ∉ L.closed
  closed_lt : ∀ n ∈ L.closed, n < L.opened
  nodup : L.closed.Nodup

/-- From the resource `base` on, the open resources are the ones that are held. -/
def Exact (base : ℕ) (L : Ledger κ β) : Prop :=
  ∀ n, base ≤ n → (n < L.opened ∧ n ∉ L.closed ↔ L.Holds res n)

/-- From the resource `base` on, every resource was closed exactly once. -/
def AllClosedOnce (base : ℕ) (L : Ledger κ β) : Prop :=
  ∀ n, base ≤ n → n < L.opened → L.closed.count n = 1

variable {res} {base : ℕ} {L : Ledger κ β} {k : κ} {v : β}

/-! ## What the operations hold -/

/-- A resource that is acquired is held with those that were. -/
theorem holds_acquire (hk : L.held.get? k = none) (n : ℕ) :
    (L.acquire k v).Holds res n ↔ n = res v ∨ L.Holds res n := by
  simp only [Holds, Ledger.acquire, LinkedHashMap.get?_put]
  constructor
  · rintro ⟨k', v', hget, rfl⟩
    split_ifs at hget with hk'
    · obtain rfl := Option.some.inj hget
      exact .inl rfl
    · exact .inr ⟨k', v', hget, rfl⟩
  · rintro (rfl | ⟨k', v', hget, rfl⟩)
    · exact ⟨k, v, by simp, rfl⟩
    · have hne : k' ≠ k := by
        rintro rfl
        simp [hk] at hget
      exact ⟨k', v', by simp [hne, hget], rfl⟩

/-- A resource that is released is held no more, and the others are as they were. -/
theorem Tracked.holds_release (h : L.Tracked res base) (hk : L.held.get? k = some v) (n : ℕ) :
    (L.release res k).Holds res n ↔ n ≠ res v ∧ L.Holds res n := by
  simp only [Holds, Ledger.release, hk, LinkedHashMap.get?_remove]
  constructor
  · rintro ⟨k', v', hget, rfl⟩
    split_ifs at hget with hk'
    exact ⟨fun heq => hk' (h.distinct k' v' k v hget hk heq), k', v', hget, rfl⟩
  · rintro ⟨hne, k', v', hget, rfl⟩
    have hk' : k' ≠ k := by
      rintro rfl
      exact hne (congrArg res (Option.some.inj (hget.symm.trans hk)))
    exact ⟨k', v', by simp [hk', hget], rfl⟩

/-- Acquiring the resource that is opened next keeps track. -/
theorem Tracked.acquire (h : L.Tracked res base) (hv : res v = L.opened) :
    (L.acquire k v).Tracked res base := by
  -- What is held afterwards is the new entry, or was held before.
  have hold : ∀ k' v', (L.acquire k v).held.get? k' = some v' →
      k' = k ∧ v' = v ∨ L.held.get? k' = some v' := by
    intro k' v' hget
    simp only [Ledger.acquire, LinkedHashMap.get?_put] at hget
    split_ifs at hget with hk
    · exact .inl ⟨hk, (Option.some.inj hget).symm⟩
    · exact .inr hget
  have hbase := h.base_le
  refine ⟨Nat.le_succ_of_le hbase, ?_, ?_, ?_, ?_,
    fun n hn => Nat.lt_succ_of_lt (h.closed_lt n hn), h.nodup⟩
  · intro k' v' hget
    rcases hold k' v' hget with ⟨-, rfl⟩ | hget
    · omega
    · exact h.le_res k' v' hget
  · intro k' v' hget
    rcases hold k' v' hget with ⟨-, rfl⟩ | hget
    · exact hv ▸ Nat.lt_succ_self _
    · exact Nat.lt_succ_of_lt (h.lt_opened k' v' hget)
  · intro k₁ v₁ k₂ v₂ h₁ h₂ heq
    rcases hold k₁ v₁ h₁ with ⟨rfl, rfl⟩ | hget₁ <;> rcases hold k₂ v₂ h₂ with ⟨rfl, rfl⟩ | hget₂
    · rfl
    · exact absurd (h.lt_opened k₂ v₂ hget₂) (by omega)
    · exact absurd (h.lt_opened k₁ v₁ hget₁) (by omega)
    · exact h.distinct k₁ v₁ k₂ v₂ hget₁ hget₂ heq
  · intro k' v' hget hmem
    rcases hold k' v' hget with ⟨-, rfl⟩ | hget
    · exact absurd (h.closed_lt _ hmem) (by omega)
    · exact h.notMem_closed k' v' hget hmem

/-- Opening a resource that is not kept keeps track. -/
theorem Tracked.leak (h : L.Tracked res base) : L.leak.Tracked res base :=
  ⟨Nat.le_succ_of_le h.base_le, h.le_res, fun k v hget => Nat.lt_succ_of_lt (h.lt_opened k v hget),
    h.distinct, h.notMem_closed, fun n hn => Nat.lt_succ_of_lt (h.closed_lt n hn), h.nodup⟩

/-- Releasing a resource keeps track. -/
theorem Tracked.release (h : L.Tracked res base) (k : κ) : (L.release res k).Tracked res base := by
  cases hk : L.held.get? k with
  | none => simpa [Ledger.release, hk] using h
  | some v =>
    -- What is held afterwards was held before, under another key.
    have hheld : ∀ k' v', (L.release res k).held.get? k' = some v' →
        k' ≠ k ∧ L.held.get? k' = some v' := by
      intro k' v' hget
      simp only [Ledger.release, hk, LinkedHashMap.get?_remove] at hget
      split_ifs at hget with hne
      exact ⟨hne, hget⟩
    have hclosed : (L.release res k).closed = L.closed ++ [res v] := by simp [Ledger.release, hk]
    have hopened : (L.release res k).opened = L.opened := by simp [Ledger.release, hk]
    refine ⟨hopened ▸ h.base_le, fun k' v' hget => h.le_res k' v' (hheld k' v' hget).2,
      fun k' v' hget => hopened ▸ h.lt_opened k' v' (hheld k' v' hget).2,
      fun k₁ v₁ k₂ v₂ h₁ h₂ => h.distinct k₁ v₁ k₂ v₂ (hheld k₁ v₁ h₁).2 (hheld k₂ v₂ h₂).2,
      ?_, ?_, ?_⟩
    · intro k' v' hget
      obtain ⟨hne, hget⟩ := hheld k' v' hget
      rw [hclosed, List.mem_append, List.mem_singleton]
      rintro (hmem | heq)
      · exact h.notMem_closed k' v' hget hmem
      · exact hne (h.distinct k' v' k v hget hk heq)
    · rw [hclosed, hopened]
      intro n hn
      rcases List.mem_append.mp hn with hn | hn
      · exact h.closed_lt n hn
      · exact List.mem_singleton.mp hn ▸ h.lt_opened k v hk
    · rw [hclosed]
      exact h.nodup.append (List.nodup_singleton _)
        (List.disjoint_singleton.mpr (h.notMem_closed k v hk))

/-- Acquiring the resource that is opened next keeps the account exact. -/
theorem Exact.acquire (h : L.Exact res base) (ht : L.Tracked res base) (hk : L.held.get? k = none)
    (hv : res v = L.opened) : (L.acquire k v).Exact res base := by
  intro n hn
  -- Only what was opened has been closed, so the new resource is open.
  have hfresh : L.opened ∉ L.closed := fun hmem => Nat.lt_irrefl _ (ht.closed_lt _ hmem)
  rw [holds_acquire hk, ← h n hn, hv]
  by_cases heq : n = L.opened
  · subst heq
    simp [Ledger.acquire, hfresh]
  · have hlt : n < L.opened + 1 ↔ n < L.opened := by omega
    simp [Ledger.acquire, heq, hlt]

/-- Releasing a resource keeps the account exact. -/
theorem Exact.release (h : L.Exact res base) (ht : L.Tracked res base) (k : κ) :
    (L.release res k).Exact res base := by
  cases hk : L.held.get? k with
  | none => simpa [Ledger.release, hk] using h
  | some v =>
    intro n hn
    rw [ht.holds_release hk, ← h n hn]
    simp only [Ledger.release, hk, List.mem_append, List.mem_singleton]
    tauto

/-- A leak shows. -/
theorem Tracked.not_exact_leak (h : L.Tracked res base) : ¬ L.leak.Exact res base := by
  intro hexact
  have hfresh : L.opened ∉ L.closed := fun hmem => Nat.lt_irrefl _ (h.closed_lt _ hmem)
  obtain ⟨k, v, hget, hv⟩ := (hexact L.opened h.base_le).mp ⟨Nat.lt_succ_self _, hfresh⟩
  exact absurd (h.lt_opened k v hget) (by omega)

/-! ## Closing -/

/-- In an exact ledger what is not held was closed once. -/
theorem Exact.count_closed (h : L.Exact res base) (ht : L.Tracked res base) {n : ℕ} (hn : base ≤ n)
    (hlt : n < L.opened) (hfree : ¬ L.Holds res n) : L.closed.count n = 1 :=
  List.count_eq_one_of_mem ht.nodup (by
    by_contra hmem
    exact hfree ((h n hn).mp ⟨hlt, hmem⟩))

/-- Every resource of an exact ledger was closed exactly when none is held. -/
theorem Exact.allClosedOnce_iff (h : L.Exact res base) (ht : L.Tracked res base) :
    L.AllClosedOnce base ↔ ∀ k, L.held.get? k = none := by
  constructor
  · intro hall k
    refine Option.eq_none_iff_forall_ne_some.mpr fun v hk => ?_
    have hone := hall (res v) (ht.le_res k v hk) (ht.lt_opened k v hk)
    exact ht.notMem_closed k v hk (List.count_pos_iff.mp (by omega))
  · intro hnone n hn hlt
    refine h.count_closed ht hn hlt ?_
    rintro ⟨k, v, hget, -⟩
    simp [hnone k] at hget

/-- Releasing keys one after the other. -/
theorem get?_foldl_release (keys : List κ) (k : κ) :
    (keys.foldl (fun L k => L.release res k) L).held.get? k =
      if k ∈ keys then none else L.held.get? k := by
  induction keys generalizing L with
  | nil => simp
  | cons k' keys ih =>
    have hrelease : (L.release res k').held.get? k = if k = k' then none else L.held.get? k := by
      cases hk' : L.held.get? k' with
      | none =>
        simp only [Ledger.release, hk']
        split_ifs with heq
        · rw [heq, hk']
        · rfl
      | some v => simp [Ledger.release, hk']
    rw [List.foldl_cons, ih, hrelease]
    by_cases heq : k = k' <;> simp [heq]

/-- Releasing resources one after the other keeps track. -/
theorem Tracked.foldl_release (h : L.Tracked res base) (keys : List κ) :
    (keys.foldl (fun L k => L.release res k) L).Tracked res base := by
  induction keys generalizing L with
  | nil => exact h
  | cons k keys ih => exact ih (h.release k)

/-- Releasing resources one after the other keeps the account exact. -/
theorem Exact.foldl_release (h : L.Exact res base) (ht : L.Tracked res base) (keys : List κ) :
    (keys.foldl (fun L k => L.release res k) L).Exact res base := by
  induction keys generalizing L with
  | nil => exact h
  | cons k keys ih => exact ih (h.release ht k) (ht.release k)

/-- An exact ledger from which keys are released has every resource closed once exactly when every
key that was held is among them. -/
theorem Exact.allClosedOnce_foldl_release_iff (h : L.Exact res base) (ht : L.Tracked res base)
    (keys : List κ) : (keys.foldl (fun L k => L.release res k) L).AllClosedOnce base ↔
      ∀ k, L.held.get? k ≠ none → k ∈ keys := by
  rw [(h.foldl_release ht keys).allClosedOnce_iff (ht.foldl_release keys)]
  refine forall_congr' fun k => ?_
  rw [get?_foldl_release]
  split_ifs with hmem <;> simp [hmem]

/-- The resources of the entries are what is held. -/
theorem mem_map_values {n : ℕ} : n ∈ L.held.values.map res ↔ L.Holds res n := by
  simp only [LinkedHashMap.values, List.map_map, List.mem_map, Function.comp_apply, Holds,
    Prod.exists, LinkedHashMap.mem_toList]

/-- Closing everything that an exact ledger holds closes every resource once. -/
theorem Exact.allClosedOnce_closeAll (h : L.Exact res base) (ht : L.Tracked res base) :
    (L.closeAll res).AllClosedOnce base := by
  -- Entries with one resource have one key, so that none is closed twice.
  have hnodup : (L.held.values.map res).Nodup := by
    rw [LinkedHashMap.values, List.map_map]
    refine List.Nodup.map_on ?_ L.held.nodup.of_map
    rintro ⟨k, v⟩ hmem ⟨k', v'⟩ hmem' heq
    have hget := LinkedHashMap.mem_toList.mp hmem
    have hget' := LinkedHashMap.mem_toList.mp hmem'
    obtain rfl := ht.distinct k v k' v' hget hget' heq
    rw [LinkedHashMap.eq_of_mem hmem hmem']
  intro n hn hlt
  simp only [closeAll, List.count_append]
  by_cases hheld : L.Holds res n
  · have hopen : n ∉ L.closed := ((h n hn).mpr hheld).2
    rw [List.count_eq_zero_of_not_mem hopen,
      List.count_eq_one_of_mem hnodup (mem_map_values.mpr hheld)]
  · rw [h.count_closed ht hn hlt hheld,
      List.count_eq_zero_of_not_mem fun hmem => hheld (mem_map_values.mp hmem)]

/-! ## Closing again -/

/-- An operation that closes what is held. -/
inductive Closing (κ : Type u)
  | release (k : κ)
  | closeAll

/-- What the operation does. -/
def Closing.apply (res : β → ℕ) : Closing κ → Ledger κ β → Ledger κ β
  | .release k, L => L.release res k
  | .closeAll, L => L.closeAll res

/-- The operation finds nothing to close. -/
def Closing.Idle (L : Ledger κ β) : Closing κ → Prop
  | .release k => L.held.get? k = none
  | .closeAll => ∀ k, L.held.get? k = none

/-- A closing that has nothing to release changes nothing. -/
theorem Closing.apply_of_idle {c : Closing κ} (h : c.Idle L) : c.apply res L = L := by
  cases c with
  | release k => simp [Closing.apply, Ledger.release, show L.held.get? k = none from h]
  | closeAll =>
    have hvalues : L.held.values.map res = [] := List.eq_nil_iff_forall_not_mem.mpr fun n hn => by
      obtain ⟨k, v, hget, -⟩ := mem_map_values.mp hn
      simp [show L.held.get? k = none from h k] at hget
    simp [Closing.apply, Ledger.closeAll, hvalues]

/-- An operation that is not idle closes something that is held. -/
theorem Closing.exists_closed (res : β → ℕ) {c : Closing κ} (h : ¬ c.Idle L) :
    ∃ n, L.Holds res n ∧ ∃ more, (c.apply res L).closed = L.closed ++ more ∧ n ∈ more := by
  cases c with
  | release k =>
    obtain ⟨v, hk⟩ := Option.ne_none_iff_exists'.mp h
    exact ⟨res v, ⟨k, v, hk, rfl⟩, [res v], by simp [Closing.apply, Ledger.release, hk], by simp⟩
  | closeAll =>
    obtain ⟨k, hk⟩ := not_forall.mp h
    obtain ⟨v, hk⟩ := Option.ne_none_iff_exists'.mp hk
    have hheld : L.Holds res (res v) := ⟨k, v, hk, rfl⟩
    exact ⟨res v, hheld, L.held.values.map res, rfl, mem_map_values.mpr hheld⟩

/-- A closing opens nothing. -/
theorem Closing.opened_apply (c : Closing κ) : (c.apply res L).opened = L.opened := by
  cases c with
  | release k => cases hk : L.held.get? k <;> simp [Closing.apply, Ledger.release, hk]
  | closeAll => rfl

/-- No operation takes back a close. -/
theorem Closing.closed_foldl (res : β → ℕ) (L : Ledger κ β) (cs : List (Closing κ)) :
    ∃ more, (cs.foldl (fun L c => c.apply res L) L).closed = L.closed ++ more ∧
      (cs.foldl (fun L c => c.apply res L) L).opened = L.opened := by
  induction cs generalizing L with
  | nil => exact ⟨[], by simp⟩
  | cons c cs ih =>
    obtain ⟨more, hmore, hopened⟩ := ih (c.apply res L)
    have hfirst : ∃ first, (c.apply res L).closed = L.closed ++ first := by
      by_cases hidle : c.Idle L
      · exact ⟨[], by rw [c.apply_of_idle hidle, List.append_nil]⟩
      · obtain ⟨-, -, first, hfirst, -⟩ := Closing.exists_closed res hidle
        exact ⟨first, hfirst⟩
    obtain ⟨first, hfirst⟩ := hfirst
    refine ⟨first ++ more, ?_, hopened.trans c.opened_apply⟩
    rw [List.foldl_cons, hmore, hfirst, List.append_assoc]

/-- When every resource was closed once, it stays so under operations exactly when they all find
nothing to close. -/
theorem Closing.allClosedOnce_foldl_iff (h : L.AllClosedOnce base)
    (hrange : ∀ n, L.Holds res n → base ≤ n ∧ n < L.opened) (cs : List (Closing κ)) :
    (cs.foldl (fun L c => c.apply res L) L).AllClosedOnce base ↔ ∀ c ∈ cs, c.Idle L := by
  induction cs with
  | nil => simpa using h
  | cons c cs ih =>
    rw [List.foldl_cons, List.forall_mem_cons]
    by_cases hidle : c.Idle L
    · rw [c.apply_of_idle hidle, ih]
      simp [hidle]
    -- The first operation that is not idle closes a resource for the second time.
    · refine iff_of_false (fun hall => ?_) (fun hall => hidle hall.1)
      obtain ⟨n, hheld, first, hfirst, hmem⟩ := Closing.exists_closed res hidle
      obtain ⟨more, hmore, hopened⟩ := Closing.closed_foldl res (c.apply res L) cs
      obtain ⟨hn, hlt⟩ := hrange n hheld
      have htwice := hall n hn (by rw [hopened, c.opened_apply]; exact hlt)
      rw [hmore, hfirst, List.count_append, List.count_append, h n hn hlt] at htwice
      have hpos : 0 < first.count n := List.count_pos_iff.mpr hmem
      omega

end Resources

end Ledger
