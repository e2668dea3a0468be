import Mathlib.Data.List.Nodup
import Mathlib.Data.List.Perm.Basic

/-!
# Maps in insertion order

A `LinkedHashMap` is a finite map that is iterated in the order in which its keys were first put,
as the mutable map of the JVM and Kotlin libraries under this name is. It is the list of its
entries together with the fact that no key occurs twice.
-/

universe u v

/-- A finite map with its entries in the order in which their keys were first put. -/
structure LinkedHashMap (κ : Type u) (β : Type v) where
  /-- The entries, the oldest key first. -/
  toList : List (κ × β)
  /-- No key has two entries. -/
  nodup : (toList.map Prod.fst).Nodup

namespace LinkedHashMap

variable {κ : Type u} {β : Type v}

/-- Maps with the same entries in the same order are equal. -/
theorem ext_toList {m n : LinkedHashMap κ β} (h : m.toList = n.toList) : m = n := by
  obtain ⟨l, hl⟩ := m
  obtain ⟨l', hl'⟩ := n
  obtain rfl : l = l' := h
  rfl

/-- The map with no entry. -/
def empty : LinkedHashMap κ β := ⟨[], List.nodup_nil⟩

/-- The keys, the oldest first. -/
def keys (m : LinkedHashMap κ β) : List κ := m.toList.map Prod.fst

/-- The values, in the order of their keys. -/
def values (m : LinkedHashMap κ β) : List β := m.toList.map Prod.snd

/-- The empty map has no entries. -/
@[simp] theorem toList_empty : (empty : LinkedHashMap κ β).toList = [] := rfl

/-- The empty map has no values. -/
@[simp] theorem values_empty : (empty : LinkedHashMap κ β).values = [] := rfl

/-- An entry's value is determined by its key. -/
theorem eq_of_mem {m : LinkedHashMap κ β} {k : κ} {v w : β} (hv : (k, v) ∈ m.toList)
    (hw : (k, w) ∈ m.toList) : v = w := by
  have hpair := List.inj_on_of_nodup_map m.nodup hv hw rfl
  exact (Prod.mk.inj hpair).2

variable [DecidableEq κ]

/-- The value under a key, if there is one. -/
def get? (m : LinkedHashMap κ β) (k : κ) : Option β := m.toList.lookup k

/-- Removes a key's entry, if there is one. -/
def remove (m : LinkedHashMap κ β) (k : κ) : LinkedHashMap κ β where
  toList := m.toList.filter fun e => e.1 ≠ k
  nodup := m.nodup.sublist (List.filter_sublist.map _)

/-- Puts a value under a key: a key that has an entry keeps its place, a new one goes last. -/
def put (m : LinkedHashMap κ β) (k : κ) (v : β) : LinkedHashMap κ β where
  toList := if k ∈ m.keys then m.toList.map fun e => if e.1 = k then (k, v) else e
    else m.toList ++ [(k, v)]
  nodup := by
    split_ifs with hk
    · have hfst : Prod.fst ∘ (fun e : κ × β => if e.1 = k then (k, v) else e) = Prod.fst := by
        funext e
        by_cases he : e.1 = k <;> simp [he]
      rw [List.map_map, hfst]
      exact m.nodup
    · rw [List.map_append]
      exact m.nodup.append (List.nodup_singleton k)
        (List.disjoint_singleton.mpr hk)

/-- The entries are what `get?` finds. -/
theorem mem_toList {m : LinkedHashMap κ β} {k : κ} {v : β} :
    (k, v) ∈ m.toList ↔ m.get? k = some v := by
  constructor
  · intro hmem
    cases hget : m.get? k with
    | none =>
      have hne := List.lookup_eq_none_iff.mp hget (k, v) hmem
      simp at hne
    | some w =>
      obtain ⟨l₁, l₂, hsplit, -⟩ := List.lookup_eq_some_iff.mp hget
      have hw : (k, w) ∈ m.toList := by rw [hsplit]; simp
      rw [eq_of_mem hmem hw]
  · intro hget
    obtain ⟨l₁, l₂, hsplit, -⟩ := List.lookup_eq_some_iff.mp hget
    rw [hsplit]
    simp

/-- A key occurs exactly when `get?` finds a value under it. -/
theorem mem_keys {m : LinkedHashMap κ β} {k : κ} : k ∈ m.keys ↔ ∃ v, m.get? k = some v := by
  simp [keys, ← mem_toList]

/-- The empty map has no keys. -/
@[simp] theorem get?_empty (k : κ) : (empty : LinkedHashMap κ β).get? k = none := rfl

/-- A new key's entry goes last. -/
theorem toList_put_of_get?_eq_none {m : LinkedHashMap κ β} {k : κ} (h : m.get? k = none) (v : β) :
    (m.put k v).toList = m.toList ++ [(k, v)] := by
  have hk : k ∉ m.keys := fun hk => by
    obtain ⟨w, hw⟩ := mem_keys.mp hk
    simp [h] at hw
  simp [put, hk]

/-- Removing a key that has no entry changes nothing. -/
theorem remove_of_get?_eq_none {m : LinkedHashMap κ β} {k : κ} (h : m.get? k = none) :
    m.remove k = m := by
  refine ext_toList (List.filter_eq_self.mpr fun e he => ?_)
  have hne : (k == e.1) = false := by simpa using List.lookup_eq_none_iff.mp h e he
  exact decide_eq_true fun heq => by simp [heq] at hne

/-- A removed key has no value, and the other keys keep theirs. -/
@[simp] theorem get?_remove (m : LinkedHashMap κ β) (k k' : κ) :
    (m.remove k).get? k' = if k' = k then none else m.get? k' := by
  ext v
  rw [← mem_toList]
  split_ifs with hk
  · simp [remove, hk]
  · simp [remove, hk, mem_toList]

/-- The key that is put has the value, and the other keys keep theirs. -/
@[simp] theorem get?_put (m : LinkedHashMap κ β) (k k' : κ) (v : β) :
    (m.put k v).get? k' = if k' = k then some v else m.get? k' := by
  ext w
  rw [← mem_toList]
  by_cases hmem : k ∈ m.keys
  · obtain ⟨u, hu⟩ := mem_keys.mp hmem
    -- The key keeps its place, and the other entries are as they were.
    simp only [put, hmem, if_true, List.mem_map]
    split_ifs with hk
    · subst hk
      constructor
      · rintro ⟨e, -, he⟩
        split_ifs at he with hek
        · simpa using congrArg Prod.snd he
        · exact absurd (congrArg Prod.fst he) hek
      · rintro ⟨⟩
        exact ⟨(k', u), mem_toList.mpr hu, by simp⟩
    · rw [← mem_toList]
      constructor
      · rintro ⟨e, he, hew⟩
        split_ifs at hew with hek
        · exact absurd (congrArg Prod.fst hew).symm hk
        · exact hew ▸ he
      · intro he
        exact ⟨(k', w), he, by simp [hk]⟩
  · have hnone : m.get? k = none := by
      by_contra hsome
      exact hmem (mem_keys.mpr (Option.ne_none_iff_exists'.mp hsome))
    -- The entry of a new key is the last one.
    rw [toList_put_of_get?_eq_none hnone, List.mem_append, mem_toList]
    split_ifs with hk
    · subst hk
      simp [hnone, eq_comm]
    · simp [hk]

/-- The keys after `put`. -/
theorem mem_keys_put {m : LinkedHashMap κ β} {k k' : κ} {v : β} :
    k' ∈ (m.put k v).keys ↔ k' = k ∨ k' ∈ m.keys := by
  simp only [mem_keys, get?_put]
  split_ifs with hk <;> simp [hk]

/-- The keys after `remove`. -/
theorem mem_keys_remove {m : LinkedHashMap κ β} {k k' : κ} :
    k' ∈ (m.remove k).keys ↔ k' ≠ k ∧ k' ∈ m.keys := by
  simp only [mem_keys, get?_remove]
  split_ifs with hk <;> simp [hk]

/-! ## Building a map -/

/-- The map with these entries put one after the other. -/
def ofList (es : List (κ × β)) : LinkedHashMap κ β := es.foldl (fun m e => m.put e.1 e.2) empty

/-- An entry after `put` is the new one, or was there. -/
theorem mem_toList_put {m : LinkedHashMap κ β} {k : κ} {v : β} {e : κ × β}
    (h : e ∈ (m.put k v).toList) : e = (k, v) ∨ e ∈ m.toList := by
  rw [mem_toList, get?_put] at h
  split_ifs at h with hk
  · exact .inl (Prod.ext hk (Option.some.inj h).symm)
  · exact .inr (mem_toList.mpr h)

/-- No entry is made up. -/
theorem mem_of_mem_ofList {es : List (κ × β)} {e : κ × β} (h : e ∈ (ofList es).toList) :
    e ∈ es := by
  have hfold : ∀ m : LinkedHashMap κ β,
      e ∈ (es.foldl (fun m e => m.put e.1 e.2) m).toList → e ∈ m.toList ∨ e ∈ es := by
    clear h
    induction es with
    | nil => exact fun m => .inl
    | cons e' es ih =>
      intro m h
      obtain h | h := ih _ h
      · obtain rfl | h := mem_toList_put h
        · exact .inr List.mem_cons_self
        · exact .inl h
      · exact .inr (List.mem_cons_of_mem _ h)
  obtain h | h := hfold empty h
  · cases h
  · exact h

/-- Entries with distinct keys are all kept, in their order. -/
theorem toList_ofList {es : List (κ × β)} (h : (es.map Prod.fst).Nodup) :
    (ofList es).toList = es := by
  have hfold : ∀ m : LinkedHashMap κ β, (∀ k ∈ es.map Prod.fst, k ∉ m.keys) →
      (es.foldl (fun m e => m.put e.1 e.2) m).toList = m.toList ++ es := by
    induction es with
    | nil => exact fun m _ => (List.append_nil _).symm
    | cons e es ih =>
      intro m hm
      rw [List.map_cons, List.forall_mem_cons] at hm
      rw [List.map_cons, List.nodup_cons] at h
      have hnone : m.get? e.1 = none := by
        by_contra hsome
        exact hm.1 (mem_keys.mpr (Option.ne_none_iff_exists'.mp hsome))
      -- The keys that are still to come are new after `e`, too.
      have hnew : ∀ k ∈ es.map Prod.fst, k ∉ (m.put e.1 e.2).keys := by
        intro k hk hmem
        obtain rfl | hmem := mem_keys_put.mp hmem
        · exact h.1 hk
        · exact hm.2 k hk hmem
      rw [List.foldl_cons, ih h.2 _ hnew, toList_put_of_get?_eq_none hnone, List.append_assoc]
      rfl
  exact hfold empty fun _ _ hk => by cases hk

end LinkedHashMap
