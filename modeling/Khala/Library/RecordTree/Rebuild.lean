import Khala.Library.LinkedHashMap
import Khala.Library.RecordTree

/-!
# Rebuilding a tree

`RecordTree.rebuild` changes the keys of a tree and its leaves, and puts the entries of each record
into a map again, as a program does that converts a document from one library's objects to
another's. Two keys that become one then have one entry. Where the keys stay as they are, nothing
is lost: `RecordTree.rebuild_eq_map`.

The keys and the levels of a tree are here too, with what relates them along `RecordTree.Rel`.
-/

universe u

namespace RecordTree

variable {κ κ' ν μ : Type u}

/-! ## Keys -/

/-- The key is in a record of the tree. -/
inductive IsKey (k : κ) : RecordTree κ ν → Prop where
  | here {es : List (κ × RecordTree κ ν)} (hk : k ∈ es.map Prod.fst) : IsKey k (record es)
  | list {ts : List (RecordTree κ ν)} {t : RecordTree κ ν} (ht : t ∈ ts) (h : IsKey k t) :
    IsKey k (list ts)
  | record {es : List (κ × RecordTree κ ν)} {e : κ × RecordTree κ ν} (he : e ∈ es)
    (h : IsKey k e.2) : IsKey k (record es)

/-- A leaf has no keys. -/
@[simp]
theorem not_isKey_leaf (k : κ) (x : ν) : ¬IsKey k (leaf x) := nofun

/-- The keys in a list are those in its items. -/
@[simp]
theorem isKey_list_iff {k : κ} {ts : List (RecordTree κ ν)} :
    IsKey k (list ts) ↔ ∃ t ∈ ts, IsKey k t := by
  constructor
  · rintro (_ | ⟨ht, h⟩)
    exact ⟨_, ht, h⟩
  · rintro ⟨t, ht, h⟩
    exact .list ht h

/-- The keys in a record are its own and those in its values. -/
@[simp]
theorem isKey_record_iff {k : κ} {es : List (κ × RecordTree κ ν)} :
    IsKey k (record es) ↔ k ∈ es.map Prod.fst ∨ ∃ e ∈ es, IsKey k e.2 := by
  constructor
  · rintro (hk | _ | ⟨he, h⟩)
    · exact .inl hk
    · exact .inr ⟨_, he, h⟩
  · rintro (hk | ⟨e, he, h⟩)
    · exact .here hk
    · exact .record he h

/-- Related trees have the same keys. -/
theorem Rel.isKey {R : ν → μ → Prop} {t : RecordTree κ ν} {u : RecordTree κ μ} {k : κ}
    (h : Rel R t u) (hk : IsKey k t) : IsKey k u := by
  induction hk generalizing u with
  | here hk =>
    cases u with | leaf | list => cases h | record gs =>
    obtain ⟨fs, hfs, hperm⟩ := rel_record_iff.mp h
    rw [keys_eq_of_forall₂ hfs] at hk
    exact .here ((hperm.map Prod.fst).mem_iff.mp hk)
  | list ht _ ih =>
    cases u with | leaf | record => cases h | list us =>
    obtain ⟨u, hu, htu⟩ := exists_mem_of_forall₂ (rel_list_iff.mp h) ht
    exact .list hu (ih htu)
  | record he _ ih =>
    cases u with | leaf | list => cases h | record gs =>
    obtain ⟨fs, hfs, hperm⟩ := rel_record_iff.mp h
    obtain ⟨f, hf, -, hef⟩ := exists_mem_of_forall₂ hfs he
    exact .record (hperm.mem_iff.mp hf) (ih hef)

/-- Related trees have the same keys. -/
theorem Rel.isKey_iff {R : ν → μ → Prop} {t : RecordTree κ ν} {u : RecordTree κ μ} {k : κ}
    (h : Rel R t u) : IsKey k t ↔ IsKey k u :=
  ⟨h.isKey, h.flip.isKey⟩

/-- A function of the leaves keeps the keys. -/
theorem isKey_map_iff {k : κ} {f : ν → μ} {t : RecordTree κ ν} : IsKey k (t.map f) ↔ IsKey k t :=
  (rel_map f t).isKey_iff.symm

/-- If the records of a tree are maps, so are those of a related one. -/
theorem Rel.distinct {R : ν → μ → Prop} {t : RecordTree κ ν} {u : RecordTree κ μ} (h : Rel R t u)
    (ht : t.Distinct) : u.Distinct := by
  induction ht generalizing u with
  | leaf x =>
    obtain ⟨hy⟩ := h
    exact .leaf _
  | list _ ih =>
    cases u with | leaf | record => cases h | list us =>
    refine .list fun u hu => ?_
    obtain ⟨t, ht, htu⟩ := exists_mem_of_forall₂ (rel_list_iff.mp h).flip hu
    exact ih t ht htu
  | record hkeys _ ih =>
    cases u with | leaf | list => cases h | record gs =>
    obtain ⟨fs, hfs, hperm⟩ := rel_record_iff.mp h
    rw [keys_eq_of_forall₂ hfs, (hperm.map Prod.fst).nodup_iff] at hkeys
    refine .record hkeys fun f hf => ?_
    obtain ⟨e, he, -, hef⟩ := exists_mem_of_forall₂ hfs.flip (hperm.mem_iff.mpr hf)
    exact ih e he hef

/-! ## Erasing a key -/

section EraseKey

variable [DecidableEq κ]

mutual

/-- A tree without the entries of a key, in any of its records. -/
def eraseKey (k : κ) : RecordTree κ ν → RecordTree κ ν
  | leaf x => leaf x
  | list ts => list (eraseKeyList k ts)
  | record es => record (eraseKeyEntries k es)

/-- The trees of a list without the entries of a key. -/
def eraseKeyList (k : κ) : List (RecordTree κ ν) → List (RecordTree κ ν)
  | [] => []
  | t :: ts => eraseKey k t :: eraseKeyList k ts

/-- The entries of a record, without those of a key. -/
def eraseKeyEntries (k : κ) : List (κ × RecordTree κ ν) → List (κ × RecordTree κ ν)
  | [] => []
  | (k', t) :: es => if k' = k then eraseKeyEntries k es
    else (k', eraseKey k t) :: eraseKeyEntries k es

end

/-- `eraseKeyList` erases the key in each item. -/
theorem eraseKeyList_eq (k : κ) (ts : List (RecordTree κ ν)) :
    eraseKeyList k ts = ts.map (eraseKey k) :=
  eq_map_of_cons rfl (fun _ _ => rfl) ts

/-- `eraseKeyEntries` drops the entries of the key, and erases it in the other values. -/
theorem eraseKeyEntries_eq (k : κ) (es : List (κ × RecordTree κ ν)) :
    eraseKeyEntries k es = (es.filter (·.1 ≠ k)).map fun e => (e.1, eraseKey k e.2) := by
  induction es with
  | nil => rfl
  | cons e es ih =>
    rw [eraseKeyEntries, ih, List.filter_cons]
    by_cases hk : e.1 = k <;> simp [hk]

/-- The keys of the entries that stay. -/
theorem keys_eraseKeyEntries (k : κ) (es : List (κ × RecordTree κ ν)) :
    (eraseKeyEntries k es).map Prod.fst = (es.map Prod.fst).filter (· ≠ k) := by
  rw [eraseKeyEntries_eq, List.map_map, List.filter_map]
  rfl

/-- The key is not in the tree any more. -/
theorem not_isKey_eraseKey (k : κ) (t : RecordTree κ ν) : ¬IsKey k (t.eraseKey k) := by
  induction t with
  | leaf x => exact not_isKey_leaf k x
  | list ts ih =>
    rw [eraseKey, eraseKeyList_eq, isKey_list_iff]
    rintro ⟨u, hu, h⟩
    obtain ⟨t, ht, rfl⟩ := List.mem_map.mp hu
    exact ih t ht h
  | record es ih =>
    rw [eraseKey, isKey_record_iff, keys_eraseKeyEntries, eraseKeyEntries_eq]
    rintro (hk | ⟨f, hf, h⟩)
    · simp at hk
    · obtain ⟨e, he, rfl⟩ := List.mem_map.mp hf
      exact ih e (List.mem_of_mem_filter he) h

/-- A tree without the key stays as it is. -/
theorem eraseKey_of_not_isKey {k : κ} {t : RecordTree κ ν} (h : ¬IsKey k t) :
    t.eraseKey k = t := by
  induction t with
  | leaf x => rfl
  | list ts ih =>
    rw [eraseKey, eraseKeyList_eq]
    have hts : ∀ t ∈ ts, t.eraseKey k = id t := fun t ht => ih t ht fun hk => h (.list ht hk)
    rw [List.map_congr_left hts, List.map_id]
  | record es ih =>
    have hes : es.filter (·.1 ≠ k) = es := by
      refine List.filter_eq_self.mpr fun e he => decide_eq_true ?_
      rintro rfl
      exact h (.here (List.mem_map_of_mem he))
    have heach : ∀ e ∈ es, (e.1, e.2.eraseKey k) = id e := fun e he =>
      Prod.ext rfl (ih e he fun hk => h (.record he hk))
    rw [eraseKey, eraseKeyEntries_eq, hes, List.map_congr_left heach, List.map_id]

/-- Erasing a key repeats none. -/
theorem Distinct.eraseKey {t : RecordTree κ ν} (ht : t.Distinct) (k : κ) :
    (t.eraseKey k).Distinct := by
  induction ht with
  | leaf x => exact .leaf x
  | list _ ih =>
    rw [RecordTree.eraseKey, eraseKeyList_eq]
    exact .list (List.forall_mem_map.mpr ih)
  | record hkeys _ ih =>
    rw [RecordTree.eraseKey]
    refine .record ?_ ?_
    · rw [keys_eraseKeyEntries]
      exact hkeys.filter _
    · rw [eraseKeyEntries_eq]
      exact List.forall_mem_map.mpr fun e he => ih e (List.mem_of_mem_filter he)

/-- No leaf is made up. -/
theorem isLeaf_of_eraseKey {k : κ} {x : ν} {t : RecordTree κ ν} (h : IsLeaf x (t.eraseKey k)) :
    IsLeaf x t := by
  induction t with
  | leaf y => exact h
  | list ts ih =>
    rw [eraseKey, eraseKeyList_eq, isLeaf_list_iff] at h
    obtain ⟨u, hu, h⟩ := h
    obtain ⟨t, ht, rfl⟩ := List.mem_map.mp hu
    exact .list ht (ih t ht h)
  | record es ih =>
    rw [eraseKey, eraseKeyEntries_eq, isLeaf_record_iff] at h
    obtain ⟨f, hf, h⟩ := h
    obtain ⟨e, he, rfl⟩ := List.mem_map.mp hf
    have hmem := List.mem_of_mem_filter he
    exact .record hmem (ih e hmem h)

/-- No key is made up. -/
theorem isKey_of_eraseKey {k k' : κ} {t : RecordTree κ ν} (h : IsKey k' (t.eraseKey k)) :
    IsKey k' t := by
  induction t with
  | leaf x => exact h
  | list ts ih =>
    rw [eraseKey, eraseKeyList_eq, isKey_list_iff] at h
    obtain ⟨u, hu, h⟩ := h
    obtain ⟨t, ht, rfl⟩ := List.mem_map.mp hu
    exact .list ht (ih t ht h)
  | record es ih =>
    rw [eraseKey, isKey_record_iff, keys_eraseKeyEntries, eraseKeyEntries_eq] at h
    obtain hk | ⟨f, hf, h⟩ := h
    · exact .here (List.mem_of_mem_filter hk)
    · obtain ⟨e, he, rfl⟩ := List.mem_map.mp hf
      have hmem := List.mem_of_mem_filter he
      exact .record hmem (ih e hmem h)

end EraseKey

/-! ## Levels -/

mutual

/-- The number of levels of a tree. A leaf is one, and so is an empty list or record. -/
def levels : RecordTree κ ν → ℕ
  | leaf _ => 1
  | list ts => levelsList ts + 1
  | record es => levelsEntries es + 1

/-- The number of levels of the deepest tree of a list. -/
def levelsList : List (RecordTree κ ν) → ℕ
  | [] => 0
  | t :: ts => max (levels t) (levelsList ts)

/-- The number of levels of the deepest tree of a record. -/
def levelsEntries : List (κ × RecordTree κ ν) → ℕ
  | [] => 0
  | (_, t) :: es => max (levels t) (levelsEntries es)

end

/-- A tree has a level. -/
theorem levels_pos (t : RecordTree κ ν) : 0 < t.levels := by
  cases t <;> simp [levels]

/-- A list has one level more than its items. -/
theorem levels_list_le_iff {ts : List (RecordTree κ ν)} {n : ℕ} :
    (list ts).levels ≤ n + 1 ↔ ∀ t ∈ ts, t.levels ≤ n := by
  rw [levels, Nat.add_le_add_iff_right]
  induction ts with
  | nil => simp [levelsList]
  | cons t ts ih => rw [levelsList, Nat.max_le, ih, List.forall_mem_cons]

/-- A record has one level more than its values. -/
theorem levels_record_le_iff {es : List (κ × RecordTree κ ν)} {n : ℕ} :
    (record es).levels ≤ n + 1 ↔ ∀ e ∈ es, e.2.levels ≤ n := by
  rw [levels, Nat.add_le_add_iff_right]
  induction es with
  | nil => simp [levelsEntries]
  | cons e es ih => rw [levelsEntries, Nat.max_le, ih, List.forall_mem_cons]

/-- A tree has no more levels than one that it is related to. -/
theorem Rel.levels_le {R : ν → μ → Prop} {t : RecordTree κ ν} {u : RecordTree κ μ} (h : Rel R t u)
    {n : ℕ} (hn : u.levels ≤ n) : t.levels ≤ n := by
  induction t generalizing u n with
  | leaf x => exact Nat.le_trans (levels_pos u) hn
  | list ts ih =>
    cases u with | leaf | record => cases h | list us =>
    obtain ⟨n, rfl⟩ := Nat.exists_eq_add_one.mpr (Nat.le_trans (levels_pos _) hn)
    rw [levels_list_le_iff] at *
    intro t ht
    obtain ⟨u, hu, htu⟩ := exists_mem_of_forall₂ (rel_list_iff.mp h) ht
    exact ih t ht htu (hn u hu)
  | record es ih =>
    cases u with | leaf | list => cases h | record gs =>
    obtain ⟨n, rfl⟩ := Nat.exists_eq_add_one.mpr (Nat.le_trans (levels_pos _) hn)
    rw [levels_record_le_iff] at *
    obtain ⟨fs, hfs, hperm⟩ := rel_record_iff.mp h
    intro e he
    obtain ⟨f, hf, -, hef⟩ := exists_mem_of_forall₂ hfs he
    exact ih e he hef (hn f (hperm.mem_iff.mp hf))

/-- Related trees have the same levels. -/
theorem Rel.levels_eq {R : ν → μ → Prop} {t : RecordTree κ ν} {u : RecordTree κ μ}
    (h : Rel R t u) : t.levels = u.levels :=
  Nat.le_antisymm (h.levels_le (Nat.le_refl _)) (h.flip.levels_le (Nat.le_refl _))

/-- A function of the leaves keeps the levels. -/
theorem levels_map (f : ν → μ) (t : RecordTree κ ν) : (t.map f).levels = t.levels :=
  (rel_map f t).levels_eq.symm

/-! ## Rebuilding -/

section Rebuild

variable [DecidableEq κ']

mutual

/-- Changes the keys and the leaves of a tree by functions, and puts the entries of each record into
a map in their order: of entries whose keys become one, the last one stays. -/
def rebuild (f : κ → κ') (g : ν → μ) : RecordTree κ ν → RecordTree κ' μ
  | leaf x => leaf (g x)
  | list ts => list (rebuildList f g ts)
  | record es => record (LinkedHashMap.ofList (rebuildEntries f g es)).toList

/-- Rebuilds the trees of a list. -/
def rebuildList (f : κ → κ') (g : ν → μ) : List (RecordTree κ ν) → List (RecordTree κ' μ)
  | [] => []
  | t :: ts => rebuild f g t :: rebuildList f g ts

/-- Rebuilds the entries of a record. -/
def rebuildEntries (f : κ → κ') (g : ν → μ) :
    List (κ × RecordTree κ ν) → List (κ' × RecordTree κ' μ)
  | [] => []
  | (k, t) :: es => (f k, rebuild f g t) :: rebuildEntries f g es

end

variable {f : κ → κ'} {g : ν → μ}

/-- `rebuildList` rebuilds each item. -/
theorem rebuildList_eq (ts : List (RecordTree κ ν)) :
    rebuildList f g ts = ts.map (rebuild f g) :=
  eq_map_of_cons rfl (fun _ _ => rfl) ts

/-- `rebuildEntries` renames each key and rebuilds each value. -/
theorem rebuildEntries_eq (es : List (κ × RecordTree κ ν)) :
    rebuildEntries f g es = es.map fun e => (f e.1, rebuild f g e.2) :=
  eq_map_of_cons rfl (fun _ _ => rfl) es

/-- An entry of a rebuilt record is one of the record, rebuilt. -/
theorem exists_of_mem_rebuild {es : List (κ × RecordTree κ ν)} {e : κ' × RecordTree κ' μ}
    (h : e ∈ (LinkedHashMap.ofList (rebuildEntries f g es)).toList) :
    ∃ e' ∈ es, e = (f e'.1, rebuild f g e'.2) := by
  have hmem := LinkedHashMap.mem_of_mem_ofList h
  rw [rebuildEntries_eq, List.mem_map] at hmem
  obtain ⟨e', he', rfl⟩ := hmem
  exact ⟨e', he', rfl⟩

/-- The keys of a rebuilt tree are keys of the tree, changed. -/
theorem exists_of_isKey_rebuild {t : RecordTree κ ν} {k : κ'} (h : IsKey k (t.rebuild f g)) :
    ∃ k', IsKey k' t ∧ f k' = k := by
  induction t with
  | leaf x => cases h
  | list ts ih =>
    rw [rebuild, rebuildList_eq, isKey_list_iff] at h
    obtain ⟨u, hu, hk⟩ := h
    obtain ⟨t, ht, rfl⟩ := List.mem_map.mp hu
    obtain ⟨k', hk', rfl⟩ := ih t ht hk
    exact ⟨k', .list ht hk', rfl⟩
  | record es ih =>
    rw [rebuild, isKey_record_iff] at h
    obtain hk | ⟨e, he, hk⟩ := h
    · obtain ⟨e, he, rfl⟩ := List.mem_map.mp hk
      obtain ⟨e', he', rfl⟩ := exists_of_mem_rebuild he
      exact ⟨e'.1, .here (List.mem_map_of_mem he'), rfl⟩
    · obtain ⟨e', he', rfl⟩ := exists_of_mem_rebuild he
      obtain ⟨k', hk', rfl⟩ := ih e' he' hk
      exact ⟨k', .record he' hk', rfl⟩

/-- The leaves of a rebuilt tree are leaves of the tree, changed. -/
theorem exists_of_isLeaf_rebuild {t : RecordTree κ ν} {y : μ} (h : IsLeaf y (t.rebuild f g)) :
    ∃ x, IsLeaf x t ∧ g x = y := by
  induction t with
  | leaf x =>
    obtain rfl := isLeaf_leaf_iff.mp h
    exact ⟨x, .leaf, rfl⟩
  | list ts ih =>
    rw [rebuild, rebuildList_eq, isLeaf_list_iff] at h
    obtain ⟨u, hu, hy⟩ := h
    obtain ⟨t, ht, rfl⟩ := List.mem_map.mp hu
    obtain ⟨x, hx, rfl⟩ := ih t ht hy
    exact ⟨x, .list ht hx, rfl⟩
  | record es ih =>
    rw [rebuild, isLeaf_record_iff] at h
    obtain ⟨e, he, hy⟩ := h
    obtain ⟨e', he', rfl⟩ := exists_of_mem_rebuild he
    obtain ⟨x, hx, rfl⟩ := ih e' he' hy
    exact ⟨x, .record he' hx, rfl⟩

/-- The keys of a rebuilt record are distinct, whatever became of them. -/
theorem distinct_rebuild (t : RecordTree κ ν) : (t.rebuild f g).Distinct := by
  induction t with
  | leaf x => exact .leaf _
  | list ts ih =>
    rw [rebuild, rebuildList_eq]
    exact .list (List.forall_mem_map.mpr ih)
  | record es ih =>
    refine .record (LinkedHashMap.nodup _) fun e he => ?_
    obtain ⟨e', he', rfl⟩ := exists_of_mem_rebuild he
    exact ih e' he'

end Rebuild

/-- If the keys stay as they are, only the leaves change. -/
theorem rebuild_eq_map [DecidableEq κ] {f : κ → κ} {g : ν → μ} {t : RecordTree κ ν}
    (ht : t.Distinct) (hf : ∀ k, IsKey k t → f k = k) : t.rebuild f g = t.map g := by
  induction ht with
  | leaf x => rfl
  | @list ts _ ih =>
    rw [rebuild, rebuildList_eq, map, mapList_eq]
    congr 1
    exact List.map_congr_left fun t ht => ih t ht fun k hk => hf k (.list ht hk)
  | @record es hkeys _ ih =>
    -- No two keys become one, since none changes.
    have hes : rebuildEntries f g es = mapEntries g es := by
      rw [rebuildEntries_eq, mapEntries_eq]
      refine List.map_congr_left fun e he => Prod.ext ?_ ?_
      · exact hf e.1 (.here (List.mem_map_of_mem he))
      · exact ih e he fun k hk => hf k (.record he hk)
    rw [rebuild, hes, map, LinkedHashMap.toList_ofList]
    rwa [mapEntries_eq, List.map_map]

end RecordTree
