import Mathlib.Data.List.Forall2
import Mathlib.Data.List.Nodup
import Mathlib.Data.List.Perm.Basic
import Mathlib.Logic.Relation

/-!
# Trees of lists and records

A `RecordTree` has values in its leaves, and lists of trees and records of trees with keys above
them: the shape of a document, whatever its leaves are. `RecordTree.map` changes the leaves,
`RecordTree.traverse` changes them by a function that may fail, and `RecordTree.Rel R` relates trees
of the same shape with leaves that `R` relates. Records are taken up to the order of their entries
there, so `RecordTree.Rel Eq` is the equality of trees whose records are maps.

The last theorem is for a tree that goes through a change of its leaves and a traversal: the outcome
is the tree itself if and only if this is so for every leaf.
-/

universe u

/-- A tree of lists and records. -/
inductive RecordTree (κ ν : Type u) where
  /-- A leaf with its value. -/
  | leaf (x : ν)
  /-- A list of trees. -/
  | list (ts : List (RecordTree κ ν))
  /-- A record: trees with keys, in the order in which they are listed. -/
  | record (es : List (κ × RecordTree κ ν))

namespace RecordTree

variable {κ ν μ ξ ε : Type u}

/-- Induction over a tree and the trees below it. -/
@[elab_as_elim, induction_eliminator]
theorem induction {motive : RecordTree κ ν → Prop} (leaf : ∀ x, motive (leaf x))
    (list : ∀ ts, (∀ t ∈ ts, motive t) → motive (list ts))
    (record : ∀ es, (∀ e ∈ es, motive e.2) → motive (record es)) (t : RecordTree κ ν) : motive t :=
  @RecordTree.rec κ ν motive (fun ts => ∀ t ∈ ts, motive t) (fun es => ∀ e ∈ es, motive e.2)
    (fun e => motive e.2) leaf list record (List.forall_mem_nil _)
    (fun _ _ ht hts => List.forall_mem_cons.mpr ⟨ht, hts⟩) (List.forall_mem_nil _)
    (fun _ _ he hes => List.forall_mem_cons.mpr ⟨he, hes⟩) (fun _ _ ht => ht) t

/-! ## The leaves -/

/-- The value is in a leaf of the tree. -/
inductive IsLeaf (x : ν) : RecordTree κ ν → Prop where
  | leaf : IsLeaf x (leaf x)
  | list {ts : List (RecordTree κ ν)} {t : RecordTree κ ν} (ht : t ∈ ts) (h : IsLeaf x t) :
    IsLeaf x (list ts)
  | record {es : List (κ × RecordTree κ ν)} {e : κ × RecordTree κ ν} (he : e ∈ es)
    (h : IsLeaf x e.2) : IsLeaf x (record es)

/-- No record of the tree has two entries with one key. -/
inductive Distinct : RecordTree κ ν → Prop where
  | leaf (x : ν) : Distinct (leaf x)
  | list {ts : List (RecordTree κ ν)} (h : ∀ t ∈ ts, Distinct t) : Distinct (list ts)
  | record {es : List (κ × RecordTree κ ν)} (hkeys : (es.map Prod.fst).Nodup)
    (h : ∀ e ∈ es, Distinct e.2) : Distinct (record es)

/-- The one leaf of a leaf. -/
@[simp]
theorem isLeaf_leaf_iff {x y : ν} : IsLeaf x (leaf y : RecordTree κ ν) ↔ x = y := by
  constructor
  · rintro ⟨⟩
    rfl
  · rintro rfl
    exact .leaf

/-- The leaves of a list are those of its items. -/
@[simp]
theorem isLeaf_list_iff {x : ν} {ts : List (RecordTree κ ν)} :
    IsLeaf x (list ts) ↔ ∃ t ∈ ts, IsLeaf x t := by
  constructor
  · rintro (_ | ⟨ht, h⟩)
    exact ⟨_, ht, h⟩
  · rintro ⟨t, ht, h⟩
    exact .list ht h

/-- The leaves of a record are those of its values. -/
@[simp]
theorem isLeaf_record_iff {x : ν} {es : List (κ × RecordTree κ ν)} :
    IsLeaf x (record es) ↔ ∃ e ∈ es, IsLeaf x e.2 := by
  constructor
  · rintro (_ | _ | ⟨he, h⟩)
    exact ⟨_, he, h⟩
  · rintro ⟨e, he, h⟩
    exact .record he h

/-- A leaf repeats no key. -/
@[simp]
theorem distinct_leaf (x : ν) : (leaf x : RecordTree κ ν).Distinct :=
  .leaf x

/-- A list repeats no key if its items do not. -/
@[simp]
theorem distinct_list_iff {ts : List (RecordTree κ ν)} :
    (list ts).Distinct ↔ ∀ t ∈ ts, t.Distinct := by
  constructor
  · rintro (_ | ⟨h⟩)
    exact h
  · exact .list

/-- A record repeats no key if its own are distinct and its values repeat none. -/
@[simp]
theorem distinct_record_iff {es : List (κ × RecordTree κ ν)} :
    (record es).Distinct ↔ (es.map Prod.fst).Nodup ∧ ∀ e ∈ es, e.2.Distinct := by
  constructor
  · rintro (_ | _ | ⟨hkeys, h⟩)
    exact ⟨hkeys, h⟩
  · rintro ⟨hkeys, h⟩
    exact .record hkeys h

/-- The trees have the same shape, up to the order of the entries of records, and related leaves. -/
inductive Rel (R : ν → μ → Prop) : RecordTree κ ν → RecordTree κ μ → Prop where
  | leaf {x : ν} {y : μ} (h : R x y) : Rel R (leaf x) (leaf y)
  | list {ts : List (RecordTree κ ν)} {us : List (RecordTree κ μ)} (hlength : ts.length = us.length)
    (h : ∀ p ∈ ts.zip us, Rel R p.1 p.2) : Rel R (list ts) (list us)
  | record {es : List (κ × RecordTree κ ν)} {fs gs : List (κ × RecordTree κ μ)}
    (hlength : es.length = fs.length) (hkeys : ∀ p ∈ es.zip fs, p.1.1 = p.2.1)
    (h : ∀ p ∈ es.zip fs, Rel R p.1.2 p.2.2) (hperm : fs.Perm gs) : Rel R (record es) (record gs)

/-! ## Changing the leaves -/

mutual

/-- Changes the leaves of a tree by a function. -/
def map (f : ν → μ) : RecordTree κ ν → RecordTree κ μ
  | leaf x => leaf (f x)
  | list ts => list (mapList f ts)
  | record es => record (mapEntries f es)

/-- Changes the leaves of the trees of a list. -/
def mapList (f : ν → μ) : List (RecordTree κ ν) → List (RecordTree κ μ)
  | [] => []
  | t :: ts => map f t :: mapList f ts

/-- Changes the leaves of the trees of a record. -/
def mapEntries (f : ν → μ) : List (κ × RecordTree κ ν) → List (κ × RecordTree κ μ)
  | [] => []
  | (k, t) :: es => (k, map f t) :: mapEntries f es

end

mutual

/-- Changes the leaves of a tree by a function that may fail. -/
def traverse (f : ν → Except ε μ) : RecordTree κ ν → Except ε (RecordTree κ μ)
  | leaf x => leaf <$> f x
  | list ts => list <$> traverseList f ts
  | record es => record <$> traverseEntries f es

/-- Changes the leaves of the trees of a list, one tree after the other. -/
def traverseList (f : ν → Except ε μ) : List (RecordTree κ ν) → Except ε (List (RecordTree κ μ))
  | [] => .ok []
  | t :: ts => do
    let u ← traverse f t
    let us ← traverseList f ts
    return u :: us

/-- Changes the leaves of the trees of a record, one entry after the other. -/
def traverseEntries (f : ν → Except ε μ) :
    List (κ × RecordTree κ ν) → Except ε (List (κ × RecordTree κ μ))
  | [] => .ok []
  | (k, t) :: es => do
    let u ← traverse f t
    let fs ← traverseEntries f es
    return (k, u) :: fs

end

/-- What goes down a list and changes each item by itself is a map. The functions over the lists
of a mutual recursion are rewritten to maps by it. -/
theorem eq_map_of_cons {α : Type*} {β : Type*} {f : α → β} {g : List α → List β}
    (hnil : g [] = []) (hcons : ∀ a as, g (a :: as) = f a :: g as) (as : List α) :
    g as = as.map f := by
  induction as with
  | nil => exact hnil
  | cons a as ih => rw [hcons, ih, List.map_cons]

/-- `mapList` maps each item. -/
theorem mapList_eq (f : ν → μ) (ts : List (RecordTree κ ν)) : mapList f ts = ts.map (map f) :=
  eq_map_of_cons rfl (fun _ _ => rfl) ts

/-- `mapEntries` maps each value. -/
theorem mapEntries_eq (f : ν → μ) (es : List (κ × RecordTree κ ν)) :
    mapEntries f es = es.map fun e => (e.1, map f e.2) :=
  eq_map_of_cons rfl (fun _ _ => rfl) es

/-- Two computations in a row succeed if both do. -/
theorem bind_eq_ok_iff {α β : Type u} {x : Except ε α} {f : α → Except ε β} {b : β} :
    x >>= f = .ok b ↔ ∃ a, x = .ok a ∧ f a = .ok b := by
  cases x with
  | error e => simp [bind, Except.bind]
  | ok a => simp [bind, Except.bind]

/-- A function of a result succeeds if the computation does. -/
theorem map_eq_ok_iff {α β : Type u} {x : Except ε α} {f : α → β} {b : β} :
    f <$> x = .ok b ↔ ∃ a, x = .ok a ∧ f a = b := by
  rw [map_eq_pure_bind, bind_eq_ok_iff]
  simp only [pure, Except.pure, Except.ok.injEq]

/-- Computing one result for each item succeeds if it does for all of them. -/
theorem mapM_eq_ok_iff {α β : Type u} {f : α → Except ε β} {as : List α} {bs : List β} :
    as.mapM f = .ok bs ↔ List.Forall₂ (fun a b => f a = .ok b) as bs := by
  induction as generalizing bs with
  | nil =>
    simp only [List.forall₂_nil_left_iff, List.mapM_nil, pure, Except.pure, Except.ok.injEq]
    exact eq_comm
  | cons a as ih =>
    rw [List.mapM_cons, bind_eq_ok_iff, List.forall₂_cons_left_iff]
    constructor
    · rintro ⟨b, hb, h⟩
      obtain ⟨bs', hbs', hbs⟩ := bind_eq_ok_iff.mp h
      cases hbs
      exact ⟨b, bs', hb, ih.mp hbs', rfl⟩
    · rintro ⟨b, bs', hb, hbs', rfl⟩
      exact ⟨b, hb, bind_eq_ok_iff.mpr ⟨bs', ih.mpr hbs', rfl⟩⟩

/-- `traverseList` traverses each item. -/
theorem traverseList_eq (f : ν → Except ε μ) (ts : List (RecordTree κ ν)) :
    traverseList f ts = ts.mapM (traverse f) := by
  induction ts with
  | nil => rfl
  | cons t ts ih => rw [traverseList, ih, List.mapM_cons]

/-- `traverseEntries` traverses each value. -/
theorem traverseEntries_eq (f : ν → Except ε μ) (es : List (κ × RecordTree κ ν)) :
    traverseEntries f es = es.mapM fun e => Prod.mk e.1 <$> traverse f e.2 := by
  induction es with
  | nil => rfl
  | cons e es ih =>
    rw [traverseEntries, ih, List.mapM_cons, bind_map_left]

/-! ## Trees of related leaves -/

/-- Lists are related item by item. -/
theorem rel_list_iff {R : ν → μ → Prop} {ts : List (RecordTree κ ν)} {us : List (RecordTree κ μ)} :
    Rel R (list ts) (list us) ↔ List.Forall₂ (Rel R) ts us := by
  rw [List.forall₂_iff_zip]
  constructor
  · rintro (_ | ⟨hlength, h⟩)
    exact ⟨hlength, fun hp => h _ hp⟩
  · rintro ⟨hlength, h⟩
    exact .list hlength fun p hp => h hp

/-- Records are related entry by entry, up to the order of the second one. -/
theorem rel_record_iff {R : ν → μ → Prop} {es : List (κ × RecordTree κ ν)}
    {gs : List (κ × RecordTree κ μ)} :
    Rel R (record es) (record gs) ↔
      ∃ fs, List.Forall₂ (fun e f => e.1 = f.1 ∧ Rel R e.2 f.2) es fs ∧ fs.Perm gs := by
  constructor
  · rintro (_ | _ | ⟨hlength, hkeys, h, hperm⟩)
    exact ⟨_, List.forall₂_iff_zip.mpr ⟨hlength, fun hp => ⟨hkeys _ hp, h _ hp⟩⟩, hperm⟩
  · rintro ⟨fs, hfs, hperm⟩
    obtain ⟨hlength, h⟩ := List.forall₂_iff_zip.mp hfs
    exact .record hlength (fun p hp => (h hp).1) (fun p hp => (h hp).2) hperm

section Lists

variable {α β γ : Type u} {P : α → β → Prop} {as : List α} {bs : List β}

/-- A relation that holds along two lists, changed by a rule for the items of the first one. -/
theorem forall₂_imp_mem {Q : α → β → Prop} (h : List.Forall₂ P as bs)
    (hQ : ∀ a ∈ as, ∀ b, P a b → Q a b) : List.Forall₂ Q as bs :=
  ((List.forall₂_and_left as bs).mpr ⟨fun _ ha => ha, h⟩).imp fun a b hab => hQ a hab.1 b hab.2

/-- Relations that hold along lists compose. -/
theorem forall₂_comp {Q : β → γ → Prop} {S : α → γ → Prop} {cs : List γ} (h : List.Forall₂ P as bs)
    (h' : List.Forall₂ Q bs cs) (hS : ∀ a ∈ as, ∀ b c, P a b → Q b c → S a c) :
    List.Forall₂ S as cs := by
  induction h generalizing cs with
  | nil =>
    cases h'
    exact .nil
  | cons hab _ ih =>
    obtain _ | ⟨hbc, h'⟩ := h'
    rw [List.forall_mem_cons] at hS
    exact .cons (hS.1 _ _ hab hbc) (ih h' hS.2)

/-- Each item of a list has its partner in the other. -/
theorem exists_mem_of_forall₂ {a : α} (h : List.Forall₂ P as bs) (ha : a ∈ as) :
    ∃ b ∈ bs, P a b := by
  induction h with
  | nil => cases ha
  | cons hab _ ih =>
    obtain _ | ⟨_, ha⟩ := ha
    · exact ⟨_, List.mem_cons_self, hab⟩
    · obtain ⟨b, hb, hab⟩ := ih ha
      exact ⟨b, List.mem_cons_of_mem _ hb, hab⟩

/-- If each item of a list has a partner then the list has one. -/
theorem exists_forall₂ (h : ∀ a ∈ as, ∃ b, P a b) : ∃ bs, List.Forall₂ P as bs := by
  induction as with
  | nil => exact ⟨[], .nil⟩
  | cons a as ih =>
    obtain ⟨⟨b, hb⟩, has⟩ := List.forall_mem_cons.mp h
    obtain ⟨bs, hbs⟩ := ih has
    exact ⟨b :: bs, .cons hb hbs⟩

/-- Entries with the same keys make the same list of keys. -/
theorem keys_eq_of_forall₂ {Q : κ × α → κ × β → Prop} {es : List (κ × α)} {fs : List (κ × β)}
    (h : List.Forall₂ (fun e f => e.1 = f.1 ∧ Q e f) es fs) :
    es.map Prod.fst = fs.map Prod.fst := by
  rw [← List.forall₂_eq_eq_eq, List.forall₂_map_left_iff, List.forall₂_map_right_iff]
  exact h.imp fun _ _ hef => hef.1

/-- Two orders of the same entries with the same keys in the same places are one. -/
theorem eq_of_perm_of_keys {es fs : List (κ × α)} (hkeys : es.map Prod.fst = fs.map Prod.fst)
    (hnodup : (es.map Prod.fst).Nodup) (hperm : es.Perm fs) : es = fs := by
  induction es generalizing fs with
  | nil => exact hperm.nil_eq
  | cons e es ih =>
    obtain _ | ⟨f, fs⟩ := fs
    · cases hkeys
    · rw [List.map_cons, List.map_cons, List.cons.injEq] at hkeys
      rw [List.map_cons, List.nodup_cons] at hnodup
      have hef : e = f := by
        obtain hef | he := List.mem_cons.mp (hperm.mem_iff.mp List.mem_cons_self)
        · exact hef
        · exact absurd (hkeys.2 ▸ List.mem_map_of_mem he) hnodup.1
      subst hef
      rw [ih hkeys.2 hnodup.2 (hperm.cons_inv)]

end Lists

/-- Relations compose along trees. -/
theorem Rel.trans {R : ν → μ → Prop} {S : μ → ξ → Prop} {t : RecordTree κ ν} {t' : RecordTree κ μ}
    {t'' : RecordTree κ ξ} (h : Rel R t t') (h' : Rel S t' t'') :
    Rel (fun x z => ∃ y, R x y ∧ S y z) t t'' := by
  induction t generalizing t' t'' with
  | leaf x =>
    obtain ⟨hx⟩ := h
    obtain ⟨hy⟩ := h'
    exact .leaf ⟨_, hx, hy⟩
  | list ts ih =>
    cases t' with | leaf | record => cases h | list us =>
    cases t'' with | leaf | record => cases h' | list vs =>
    rw [rel_list_iff] at *
    exact forall₂_comp h h' fun t ht _ _ => ih t ht
  | record es ih =>
    cases t' with | leaf | list => cases h | record fs =>
    cases t'' with | leaf | list => cases h' | record gs =>
    rw [rel_record_iff] at *
    obtain ⟨fs', hfs', hperm⟩ := h
    obtain ⟨gs', hgs', hperm'⟩ := h'
    -- The second pairing is brought into the order of the first one.
    obtain ⟨gs'', hgs'', hperm''⟩ := List.perm_comp_forall₂ hperm hgs'
    refine ⟨gs'', forall₂_comp hfs' hgs'' ?_, hperm''.trans hperm'⟩
    rintro e he f g ⟨hk, hef⟩ ⟨hk', hfg⟩
    exact ⟨hk.trans hk', ih e he hef hfg⟩

/-- Two relations along the same trees hold together, if the keys of their records are distinct: an
entry has one partner then. -/
theorem Rel.and {R S : ν → μ → Prop} {t : RecordTree κ ν} {u : RecordTree κ μ} (ht : t.Distinct)
    (h : Rel R t u) (h' : Rel S t u) : Rel (fun x y => R x y ∧ S x y) t u := by
  induction t generalizing u with
  | leaf x =>
    obtain ⟨hx⟩ := h
    obtain ⟨hx'⟩ := h'
    exact .leaf ⟨hx, hx'⟩
  | list ts ih =>
    cases u with | leaf | record => cases h | list us =>
    obtain _ | ⟨hts⟩ := ht
    rw [rel_list_iff] at *
    have hmem := (List.forall₂_and_left ts us).mpr ⟨fun _ ht => ht, h⟩
    exact .mp (fun t _ ⟨ht, htu⟩ htu' => ih t ht (hts t ht) htu htu') hmem h'
  | record es ih =>
    cases u with | leaf | list => cases h | record gs =>
    obtain _ | _ | ⟨hkeys, hes⟩ := ht
    rw [rel_record_iff] at *
    obtain ⟨fs, hfs, hperm⟩ := h
    obtain ⟨fs', hfs', hperm'⟩ := h'
    -- Both pairings put the partners in the order of the keys, which is one order.
    have hk := keys_eq_of_forall₂ hfs
    obtain rfl : fs = fs' := eq_of_perm_of_keys (hk ▸ keys_eq_of_forall₂ hfs') (hk ▸ hkeys)
      (hperm.trans hperm'.symm)
    have hmem := (List.forall₂_and_left es fs).mpr ⟨fun _ he => he, hfs⟩
    refine ⟨fs, .mp ?_ hmem hfs', hperm⟩
    rintro e f ⟨he, hk, hef⟩ ⟨-, hef'⟩
    exact ⟨hk, ih e he (hes e he) hef hef'⟩

/-- Related trees have related leaves. -/
theorem Rel.exists_right {R : ν → μ → Prop} {t : RecordTree κ ν} {u : RecordTree κ μ} {x : ν}
    (h : Rel R t u) (hx : IsLeaf x t) : ∃ y, IsLeaf y u ∧ R x y := by
  induction hx generalizing u with
  | leaf =>
    obtain ⟨hy⟩ := h
    exact ⟨_, .leaf, hy⟩
  | list ht _ ih =>
    cases u with | leaf | record => cases h | list us =>
    obtain ⟨u, hu, htu⟩ := exists_mem_of_forall₂ (rel_list_iff.mp h) ht
    obtain ⟨y, hy, hxy⟩ := ih htu
    exact ⟨y, .list hu hy, hxy⟩
  | record he _ ih =>
    cases u with | leaf | list => cases h | record gs =>
    obtain ⟨fs, hfs, hperm⟩ := rel_record_iff.mp h
    obtain ⟨f, hf, -, hef⟩ := exists_mem_of_forall₂ hfs he
    obtain ⟨y, hy, hxy⟩ := ih hef
    exact ⟨y, .record (hperm.mem_iff.mp hf) hy, hxy⟩

/-- Related trees are related the other way round. -/
theorem Rel.flip {R : ν → μ → Prop} {t : RecordTree κ ν} {u : RecordTree κ μ} (h : Rel R t u) :
    Rel (fun y x => R x y) u t := by
  induction t generalizing u with
  | leaf x =>
    obtain ⟨hx⟩ := h
    exact .leaf hx
  | list ts ih =>
    cases u with | leaf | record => cases h | list us =>
    rw [rel_list_iff] at *
    exact .flip (forall₂_imp_mem h fun t ht _ => ih t ht)
  | record es ih =>
    cases u with | leaf | list => cases h | record gs =>
    rw [rel_record_iff] at *
    obtain ⟨fs, hfs, hperm⟩ := h
    have hfs' : List.Forall₂ (fun f e => f.1 = e.1 ∧ Rel (fun y x => R x y) f.2 e.2) fs es :=
      .flip (forall₂_imp_mem hfs fun e he f hef => ⟨hef.1.symm, ih e he hef.2⟩)
    obtain ⟨es', hes', hperm'⟩ := List.perm_comp_forall₂ hperm.symm hfs'
    exact ⟨es', hes', hperm'⟩

/-- A leaf of the second tree has its partner in the first. -/
theorem Rel.exists_left {R : ν → μ → Prop} {t : RecordTree κ ν} {u : RecordTree κ μ} {y : μ}
    (h : Rel R t u) (hy : IsLeaf y u) : ∃ x, IsLeaf x t ∧ R x y :=
  h.flip.exists_right hy

/-- A relation along trees, changed by a rule for the leaves of the first one. -/
theorem Rel.imp {R S : ν → μ → Prop} {t : RecordTree κ ν} {u : RecordTree κ μ} (h : Rel R t u)
    (hS : ∀ x, IsLeaf x t → ∀ y, R x y → S x y) : Rel S t u := by
  induction t generalizing u with
  | leaf x =>
    obtain ⟨hx⟩ := h
    exact .leaf (hS x .leaf _ hx)
  | list ts ih =>
    cases u with | leaf | record => cases h | list us =>
    rw [rel_list_iff] at *
    exact forall₂_imp_mem h fun t ht _ htu => ih t ht htu fun x hx => hS x (.list ht hx)
  | record es ih =>
    cases u with | leaf | list => cases h | record gs =>
    rw [rel_record_iff] at *
    obtain ⟨fs, hfs, hperm⟩ := h
    refine ⟨fs, forall₂_imp_mem hfs fun e he f hef => ⟨hef.1, ?_⟩, hperm⟩
    exact ih e he hef.2 fun x hx => hS x (.record he hx)

/-- A tree is related to the one that a function makes of it. -/
theorem rel_map (f : ν → μ) (t : RecordTree κ ν) : Rel (fun x y => y = f x) t (t.map f) := by
  induction t with
  | leaf x => exact .leaf rfl
  | list ts ih =>
    rw [map, mapList_eq, rel_list_iff, List.forall₂_map_right_iff, List.forall₂_same]
    exact ih
  | record es ih =>
    rw [map, mapEntries_eq, rel_record_iff]
    refine ⟨_, ?_, List.Perm.refl _⟩
    rw [List.forall₂_map_right_iff, List.forall₂_same]
    exact fun e he => ⟨rfl, ih e he⟩

/-- Two changes of the leaves of one tree are related if they are so at each leaf. -/
theorem rel_map_map {f : ν → μ} {g : ν → ξ} {R : μ → ξ → Prop} {t : RecordTree κ ν}
    (h : ∀ x, IsLeaf x t → R (f x) (g x)) : Rel R (t.map f) (t.map g) := by
  have hleaf : Rel (fun x y => IsLeaf x t ∧ y = f x) t (t.map f) :=
    (rel_map f t).imp fun x hx _ hy => ⟨hx, hy⟩
  refine (hleaf.flip.trans (rel_map g t)).imp ?_
  rintro _ - _ ⟨x, ⟨hx, rfl⟩, rfl⟩
  exact h x hx

/-- A tree is related to the one that a traversal makes of it. -/
theorem rel_of_traverse {f : ν → Except ε μ} {t : RecordTree κ ν} {u : RecordTree κ μ}
    (h : t.traverse f = .ok u) : Rel (fun x y => f x = .ok y) t u := by
  induction t generalizing u with
  | leaf x =>
    obtain ⟨y, hy, rfl⟩ := map_eq_ok_iff.mp h
    exact .leaf hy
  | list ts ih =>
    obtain ⟨us, hus, rfl⟩ := map_eq_ok_iff.mp h
    rw [traverseList_eq, mapM_eq_ok_iff] at hus
    exact rel_list_iff.mpr (forall₂_imp_mem hus fun t ht _ => ih t ht)
  | record es ih =>
    obtain ⟨fs, hfs, rfl⟩ := map_eq_ok_iff.mp h
    rw [traverseEntries_eq, mapM_eq_ok_iff] at hfs
    refine rel_record_iff.mpr ⟨fs, forall₂_imp_mem hfs fun e he f hef => ?_, List.Perm.refl _⟩
    obtain ⟨u, hu, rfl⟩ := map_eq_ok_iff.mp hef
    exact ⟨rfl, ih e he hu⟩

/-- A traversal succeeds if it does at each leaf. -/
theorem exists_traverse {f : ν → Except ε μ} {t : RecordTree κ ν}
    (h : ∀ x, IsLeaf x t → ∃ y, f x = .ok y) : ∃ u, t.traverse f = .ok u := by
  induction t with
  | leaf x =>
    obtain ⟨y, hy⟩ := h x .leaf
    exact ⟨leaf y, map_eq_ok_iff.mpr ⟨y, hy, rfl⟩⟩
  | list ts ih =>
    obtain ⟨us, hus⟩ := exists_forall₂ fun t ht => ih t ht fun x hx => h x (.list ht hx)
    rw [← mapM_eq_ok_iff, ← traverseList_eq] at hus
    exact ⟨list us, map_eq_ok_iff.mpr ⟨us, hus, rfl⟩⟩
  | record es ih =>
    have hes : ∀ e ∈ es, ∃ g, Prod.mk e.1 <$> e.2.traverse f = .ok g := by
      intro e he
      obtain ⟨u, hu⟩ := ih e he fun x hx => h x (.record he hx)
      exact ⟨(e.1, u), map_eq_ok_iff.mpr ⟨u, hu, rfl⟩⟩
    obtain ⟨fs, hfs⟩ := exists_forall₂ hes
    rw [← mapM_eq_ok_iff, ← traverseEntries_eq] at hfs
    exact ⟨record fs, map_eq_ok_iff.mpr ⟨fs, hfs, rfl⟩⟩

/-- A function of the leaves repeats no key. -/
theorem Distinct.map {t : RecordTree κ ν} (ht : t.Distinct) (f : ν → μ) : (t.map f).Distinct := by
  induction ht with
  | leaf x => exact .leaf (f x)
  | list _ ih =>
    rw [RecordTree.map, mapList_eq]
    exact .list (List.forall_mem_map.mpr ih)
  | record hkeys _ ih =>
    rw [RecordTree.map, mapEntries_eq]
    refine .record ?_ (List.forall_mem_map.mpr ih)
    rwa [List.map_map]

/-- A tree whose leaves are changed by `g` and then traversed by `f` comes out as it was, up to the
order of the entries of records, if and only if every leaf does. -/
theorem traverse_rel_iff {g : ν → μ} {f : μ → Except ε ν} {t : RecordTree κ ν} {u : RecordTree κ μ}
    (ht : t.Distinct) (hu : Rel (fun x y => y = g x) t u) :
    (∃ t', u.traverse f = .ok t' ∧ Rel Eq t t') ↔ ∀ x, IsLeaf x t → f (g x) = .ok x := by
  constructor
  · rintro ⟨t', ht', h⟩ x hx
    obtain ⟨z, -, rfl, y, rfl, hy⟩ :=
      (Rel.and ht h (hu.trans (rel_of_traverse ht'))).exists_right hx
    exact hy
  · intro h
    have hf : ∀ y, IsLeaf y u → ∃ z, f y = .ok z := by
      intro y hy
      obtain ⟨x, hx, rfl⟩ := hu.exists_left hy
      exact ⟨x, h x hx⟩
    obtain ⟨t', ht'⟩ := exists_traverse hf
    refine ⟨t', ht', (hu.trans (rel_of_traverse ht')).imp ?_⟩
    rintro x hx z ⟨y, rfl, hz⟩
    rw [h x hx, Except.ok.injEq] at hz
    exact hz

end RecordTree
