import Khala.Library.RecordTree

/-!
# Places in trees

A place in a tree is the way down to it: an index in each list, and a key in each record.
`RecordTree.at?` is the tree at a place. Related trees have related trees at each place, whatever
the order of the entries of their records (`RecordTree.Rel.exists_at?`).
-/

universe u

namespace RecordTree

variable {κ ν μ : Type u}

/-- One level down in a tree. -/
inductive Down (κ : Type u) where
  /-- To an item of a list. -/
  | item (i : ℕ)
  /-- To an entry of a record. -/
  | entry (k : κ)

section Lookup

variable [BEq κ] {α β : Type u} {k : κ}

/-- What is found under a key is an entry, and the only one with the key. -/
theorem lookup_eq_some_iff [LawfulBEq κ] {es : List (κ × α)} (hes : (es.map Prod.fst).Nodup)
    {a : α} : es.lookup k = some a ↔ (k, a) ∈ es := by
  induction es with
  | nil => simp
  | cons e es ih =>
    obtain ⟨k', a'⟩ := e
    rw [List.map_cons, List.nodup_cons] at hes
    rw [List.lookup_cons]
    by_cases hk : k = k'
    · subst hk
      have hnot : (k, a) ∉ es := fun hmem => hes.1 (List.mem_map.mpr ⟨_, hmem, rfl⟩)
      simp [hnot, eq_comm]
    · have hne : (k == k') = false := beq_eq_false_iff_ne.mpr hk
      simp [hne, hk, ih hes.2]

/-- Looking up after a change of what stands under the keys. -/
theorem lookup_map (f : α → β) (es : List (κ × α)) :
    (es.map fun e => (e.1, f e.2)).lookup k = (es.lookup k).map f := by
  induction es with
  | nil => rfl
  | cons e es ih =>
    rw [List.map_cons, List.lookup_cons, List.lookup_cons, ih]
    cases k == e.1 <;> rfl

end Lookup

variable [BEq κ]

/-- The tree at a place. -/
def at? : List (Down κ) → RecordTree κ ν → Option (RecordTree κ ν)
  | [], t => some t
  | .item i :: place, list ts => ts[i]?.bind (at? place)
  | .entry k :: place, record es => (es.lookup k).bind (at? place)
  | _ :: _, _ => none

/-- What stands under a key in a record is related to what stands under it in the other one. -/
theorem Rel.exists_lookup [LawfulBEq κ] {R : ν → μ → Prop} {es : List (κ × RecordTree κ ν)}
    {gs : List (κ × RecordTree κ μ)} (h : Rel R (RecordTree.record es) (RecordTree.record gs))
    (hkeys : (es.map Prod.fst).Nodup) {k : κ} {t : RecordTree κ ν} (ht : es.lookup k = some t) :
    ∃ u, gs.lookup k = some u ∧ Rel R t u := by
  obtain ⟨fs, hfs, hperm⟩ := rel_record_iff.mp h
  obtain ⟨⟨k', u⟩, hmem, hk, htu⟩ :=
    exists_mem_of_forall₂ hfs ((lookup_eq_some_iff hkeys).mp ht)
  obtain rfl : k = k' := hk
  have hgs : (gs.map Prod.fst).Nodup :=
    (hperm.map Prod.fst).nodup_iff.mp (keys_eq_of_forall₂ hfs ▸ hkeys)
  exact ⟨u, (lookup_eq_some_iff hgs).mpr (hperm.mem_iff.mp hmem), htu⟩

/-- Related trees have related trees at a place. -/
theorem Rel.exists_at? [LawfulBEq κ] {R : ν → μ → Prop} {place : List (Down κ)}
    {t t' : RecordTree κ ν} {u : RecordTree κ μ} (h : Rel R t u) (hdistinct : t.Distinct)
    (ht : at? place t = some t') :
    ∃ u', at? place u = some u' ∧ Rel R t' u' := by
  induction place generalizing t u with
  | nil =>
    obtain rfl := Option.some.inj ht
    exact ⟨u, rfl, h⟩
  | cons down place ih =>
    cases t with
    | leaf x => cases down <;> cases ht
    | list ts =>
      cases u with | leaf | record => cases h | list us =>
      cases down with
      | entry k => cases ht
      | item i =>
        obtain ⟨t, hti, ht⟩ := Option.bind_eq_some_iff.mp ht
        obtain ⟨hi, rfl⟩ := List.getElem?_eq_some_iff.mp hti
        have hts := rel_list_iff.mp h
        have hi' : i < us.length := hts.length_eq ▸ hi
        obtain ⟨u', hu', htu⟩ := ih (hts.get hi hi')
          (distinct_list_iff.mp hdistinct _ (List.getElem_mem hi)) ht
        refine ⟨u', ?_, htu⟩
        rw [at?, List.getElem?_eq_getElem hi']
        exact hu'
    | record es =>
      cases u with | leaf | list => cases h | record gs =>
      cases down with
      | item i => cases ht
      | entry k =>
        obtain ⟨t, htk, ht⟩ := Option.bind_eq_some_iff.mp ht
        obtain ⟨hkeys, hes⟩ := distinct_record_iff.mp hdistinct
        obtain ⟨u, huk, htu⟩ := h.exists_lookup hkeys htk
        obtain ⟨u', hu', htu'⟩ :=
          ih htu (hes _ ((lookup_eq_some_iff hkeys).mp htk)) ht
        refine ⟨u', ?_, htu'⟩
        rw [at?, huk]
        exact hu'

/-- The tree at a place, after a change of the leaves. -/
theorem at?_map (f : ν → μ) (place : List (Down κ)) (t : RecordTree κ ν) :
    at? place (t.map f) = (at? place t).map (map f) := by
  induction place generalizing t with
  | nil => rfl
  | cons down place ih =>
    cases t with
    | leaf x => cases down <;> rfl
    | list ts =>
      cases down with
      | entry k => rfl
      | item i =>
        rw [map, mapList_eq, at?, at?, List.getElem?_map]
        cases ts[i]? with
        | none => rfl
        | some t => exact ih t
    | record es =>
      cases down with
      | item i => rfl
      | entry k =>
        rw [map, mapEntries_eq, at?, at?, lookup_map]
        cases es.lookup k with
        | none => rfl
        | some t => exact ih t

end RecordTree
