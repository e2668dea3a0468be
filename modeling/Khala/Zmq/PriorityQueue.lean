import Mathlib.Data.Int.Order.Basic
import Mathlib.Data.List.InsertIdx
import Mathlib.Tactic.SplitIfs
import Khala.Library.MinQueue
import Khala.Library.Runs

/-!
# The native priority queue

`PriorityQueue.kt` of the native targets keeps its elements in a list, finds the place of a new one
with Kotlin's `binarySearch`, and polls from the front. `PriorityQueue` has the calls as they are:
they work on any list, and throw where the calls of Kotlin's `ArrayList` throw.

The list is sorted after every call, which `add` restores from what `binarySearch_spec` says about
the index that the search answers. `PriorityQueue.correct` says what any sequence of calls makes of
a queue, and `SortedQueue` carries the fact that its list is sorted: on such queues no `add` throws,
and they are a `MinQueue`.
-/

namespace Khala.Native

universe u

variable {α : Type u}

/-- The loop of Kotlin's `binarySearch`, over the half-open range from `low` to `high` (Kotlin's
own `high` is one less). `fuel` bounds the number of iterations; the range shrinks in each. -/
def binarySearchLoop (compareTo : α → α → Ordering) (list : List α) (element : α) :
    ℕ → ℕ → ℕ → ℤ
  | 0, low, _ => -(low + 1)
  | fuel + 1, low, high =>
    if low < high then
      let mid := (low + high - 1) / 2
      match list[mid]? with
      | none => -(low + 1)
      | some midVal =>
        match compareTo midVal element with
        | .lt => binarySearchLoop compareTo list element fuel (mid + 1) high
        | .gt => binarySearchLoop compareTo list element fuel low mid
        | .eq => mid
    else -(low + 1)

/-- `List.binarySearch` of Kotlin: the index of an equal element, or minus the insertion point,
less one. -/
def binarySearch (compareTo : α → α → Ordering) (list : List α) (element : α) : ℤ :=
  binarySearchLoop compareTo list element list.length 0 list.length

/-- What an answer of the search means: a nonnegative one is the index of an equal element, and a
negative one stands for the insertion point, with smaller elements before it and larger ones from
it on. -/
def IsSearchResult (compareTo : α → α → Ordering) (list : List α) (element : α) (r : ℤ) : Prop :=
  (∃ i : ℕ, r = i ∧ ∃ a, list[i]? = some a ∧ compareTo a element = .eq) ∨
    ∃ i : ℕ, r = -(i + 1) ∧ i ≤ list.length ∧
      (∀ j a, j < i → list[j]? = some a → compareTo a element = .lt) ∧
      ∀ j a, i ≤ j → list[j]? = some a → compareTo a element = .gt

section Search

variable {compareTo : α → α → Ordering} [Std.TransCmp compareTo] {list : List α}

/-- Elements at increasing indices of a sorted list are in order. -/
theorem isLE_of_getElem? (hsorted : list.Pairwise fun a b => (compareTo a b).isLE) {i j : ℕ}
    {a b : α} (hij : i ≤ j) (ha : list[i]? = some a) (hb : list[j]? = some b) :
    (compareTo a b).isLE := by
  obtain ⟨hi, rfl⟩ := List.getElem?_eq_some_iff.mp ha
  obtain ⟨hj, rfl⟩ := List.getElem?_eq_some_iff.mp hb
  rcases Nat.lt_or_eq_of_le hij with hlt | rfl
  · exact List.pairwise_iff_getElem.mp hsorted i j hi hj hlt
  · simp [Std.ReflCmp.compare_self]

/-- The loop answers correctly when everything before `low` is smaller and everything from `high`
on is larger than the element, which is what each iteration keeps. -/
theorem binarySearchLoop_spec (hsorted : list.Pairwise fun a b => (compareTo a b).isLE)
    (element : α) : ∀ fuel low high, high - low ≤ fuel → low ≤ high → high ≤ list.length →
      (∀ j a, j < low → list[j]? = some a → compareTo a element = .lt) →
      (∀ j a, high ≤ j → list[j]? = some a → compareTo a element = .gt) →
      IsSearchResult compareTo list element
        (binarySearchLoop compareTo list element fuel low high)
  | 0, low, high, hfuel, hle, hlen, hlow, hhigh => by
    obtain rfl : low = high := by omega
    exact .inr ⟨low, rfl, hlen, hlow, hhigh⟩
  | fuel + 1, low, high, hfuel, hle, hlen, hlow, hhigh => by
    unfold binarySearchLoop
    split_ifs with hlt
    · have hmid : (low + high - 1) / 2 < list.length := by omega
      simp only [List.getElem?_eq_getElem hmid]
      generalize hm : (low + high - 1) / 2 = mid at hmid ⊢
      have hget : list[mid]? = some list[mid] := List.getElem?_eq_getElem hmid
      cases hcmp : compareTo list[mid] element with
      | lt =>
        -- The middle element is smaller, and so is everything before it.
        refine binarySearchLoop_spec hsorted element fuel _ _ (by omega) (by omega) hlen ?_ hhigh
        intro j a hj ha
        exact Std.TransCmp.lt_of_isLE_of_lt
          (isLE_of_getElem? hsorted (by omega) ha hget) hcmp
      | eq => exact .inl ⟨mid, rfl, list[mid], hget, hcmp⟩
      | gt =>
        -- The middle element is larger, and so is everything behind it.
        refine binarySearchLoop_spec hsorted element fuel _ _ (by omega) (by omega) (by omega)
          hlow ?_
        intro j a hj ha
        exact Std.TransCmp.gt_of_isGE_of_gt
          (Std.OrientedCmp.isGE_iff_isLE.mpr (isLE_of_getElem? hsorted hj hget ha)) hcmp
    · obtain rfl : low = high := by omega
      exact .inr ⟨low, rfl, hlen, hlow, hhigh⟩

/-- On a sorted list the search finds an equal element or the insertion point. -/
theorem binarySearch_spec (hsorted : list.Pairwise fun a b => (compareTo a b).isLE)
    (element : α) : IsSearchResult compareTo list element (binarySearch compareTo list element) :=
  binarySearchLoop_spec hsorted element _ _ _ (by omega) (by omega) (Nat.le_refl _)
    (by simp)
    fun j a hj ha => by simp [List.getElem?_eq_none hj] at ha

end Search

/-! ## The class -/

/-- `add` of Kotlin's `ArrayList` at an index, which throws when the index is out of range. -/
def insertAt (index : ℤ) (element : α) (list : List α) : Option (List α) :=
  if 0 ≤ index ∧ index ≤ list.length then some (list.insertIdx index.toNat element) else none

/-- `removeFirst` of Kotlin's `ArrayList`, which throws on an empty list. -/
def removeFirst : List α → Option (α × List α)
  | [] => none
  | a :: rest => some (a, rest)

/-- `PriorityQueue`, of elements that are compared with `compareTo`. -/
structure PriorityQueue (α : Type u) (compareTo : α → α → Ordering) where
  /-- The elements, the one that `poll` returns first. -/
  naiveList : List α

namespace PriorityQueue

variable {compareTo : α → α → Ordering}

/-- The queue that is created. -/
def empty : PriorityQueue α compareTo := ⟨[]⟩

/-- `isNotEmpty`. -/
def isNotEmpty (q : PriorityQueue α compareTo) : Bool := !q.naiveList.isEmpty

/-- `poll`: the first element and the queue without it. -/
def poll (q : PriorityQueue α compareTo) : Option (α × PriorityQueue α compareTo) :=
  (removeFirst q.naiveList).map fun x => (x.1, ⟨x.2⟩)

/-- `peek`; Kotlin's `first` throws on an empty list. -/
def peek (q : PriorityQueue α compareTo) : Option α := q.naiveList.head?

/-- The index at which `add` inserts: the decoded answer of the search. -/
def insertionIndex (compareTo : α → α → Ordering) (list : List α) (element : α) : ℤ :=
  let idx := binarySearch compareTo list element
  if idx < 0 then -idx - 1 else idx

/-- `add`: inserts the element at the decoded index. -/
def add (element : α) (q : PriorityQueue α compareTo) : Option (PriorityQueue α compareTo) :=
  (insertAt (insertionIndex compareTo q.naiveList element) element q.naiveList).map mk

/-- The list is sorted. -/
def Sorted (q : PriorityQueue α compareTo) : Prop :=
  q.naiveList.Pairwise fun a b => (compareTo a b).isLE

/-- The queue that is created is sorted. -/
theorem sorted_empty : (empty : PriorityQueue α compareTo).Sorted := List.Pairwise.nil

/-- There is an element exactly if `isNotEmpty` says so. -/
theorem isNotEmpty_iff {q : PriorityQueue α compareTo} :
    q.isNotEmpty = true ↔ q.naiveList ≠ [] := by
  simp [isNotEmpty]

/-- `poll` takes out the first element. -/
theorem poll_eq_some_iff {q q' : PriorityQueue α compareTo} {a : α} :
    q.poll = some (a, q') ↔ q.naiveList = a :: q'.naiveList := by
  obtain ⟨_ | ⟨b, rest⟩⟩ := q
  · simp [poll, removeFirst]
  · obtain ⟨list⟩ := q'
    simp [poll, removeFirst]

/-- `peek` returns what `poll` would return. -/
theorem peek_eq_some_iff {q : PriorityQueue α compareTo} {a : α} :
    q.peek = some a ↔ ∃ q', q.poll = some (a, q') := by
  obtain ⟨_ | ⟨b, rest⟩⟩ := q <;> simp [peek, poll, removeFirst]

/-- `poll` keeps a queue sorted. -/
theorem Sorted.poll {q q' : PriorityQueue α compareTo} {a : α} (h : q.Sorted)
    (hpoll : q.poll = some (a, q')) : q'.Sorted := by
  rw [Sorted, poll_eq_some_iff.mp hpoll] at h
  exact (List.pairwise_cons.mp h).2

variable [Std.TransCmp compareTo]

/-- `add` inserts in range, after elements that are at most as large and before elements that are
at least as large. -/
theorem insertionIndex_spec {list : List α}
    (hsorted : list.Pairwise fun a b => (compareTo a b).isLE) (element : α) :
    ∃ i : ℕ, insertionIndex compareTo list element = i ∧ i ≤ list.length ∧
      (∀ a ∈ list.take i, (compareTo a element).isLE) ∧
      ∀ a ∈ list.drop i, (compareTo element a).isLE := by
  rcases binarySearch_spec hsorted element with ⟨i, hr, b, hb, heq⟩ | ⟨i, hr, hlen, hlow, hhigh⟩
  · obtain ⟨hi, -⟩ := List.getElem?_eq_some_iff.mp hb
    refine ⟨i, by simp only [insertionIndex, hr]; split_ifs <;> omega, Nat.le_of_lt hi, ?_, ?_⟩
    · intro a ha
      obtain ⟨j, hj, rfl⟩ := List.mem_take_iff_getElem.mp ha
      have hab := isLE_of_getElem? hsorted (i := j) (j := i) (by omega)
        (List.getElem?_eq_getElem (by omega)) hb
      rw [Std.TransCmp.congr_right heq] at hab
      exact hab
    · intro a ha
      obtain ⟨j, hj, rfl⟩ := List.mem_drop_iff_getElem.mp ha
      have hba := isLE_of_getElem? hsorted (i := i) (j := i + j) (by omega) hb
        (List.getElem?_eq_getElem (by omega))
      rw [Std.TransCmp.congr_left heq] at hba
      exact hba
  · refine ⟨i, by simp only [insertionIndex, hr]; split_ifs <;> omega, hlen, ?_, ?_⟩
    · intro a ha
      obtain ⟨j, hj, rfl⟩ := List.mem_take_iff_getElem.mp ha
      have hlt := hlow j _ (by omega) (List.getElem?_eq_getElem (by omega))
      simp [hlt]
    · intro a ha
      obtain ⟨j, hj, rfl⟩ := List.mem_drop_iff_getElem.mp ha
      have hgt := hhigh (i + j) _ (by omega) (List.getElem?_eq_getElem (by omega))
      simp [Std.OrientedCmp.gt_iff_lt.mp hgt]

/-- Inserting at an index splits the list there. -/
theorem insertIdx_eq_take_append_drop (a : α) :
    ∀ {list : List α} {i : ℕ}, i ≤ list.length →
      list.insertIdx i a = list.take i ++ a :: list.drop i
  | _, 0, _ => by simp
  | b :: list, i + 1, h => by
    simp [insertIdx_eq_take_append_drop a (Nat.le_of_succ_le_succ h)]

/-- On a sorted queue `add` does not throw, keeps the queue sorted, and adds the one element. -/
theorem exists_add (element : α) {q : PriorityQueue α compareTo} (h : q.Sorted) : ∃ q',
    q.add element = some q' ∧ q'.Sorted ∧ q'.naiveList.Perm (element :: q.naiveList) := by
  obtain ⟨i, hi, hlen, hbefore, hafter⟩ := insertionIndex_spec h element
  have hadd : q.add element = some ⟨q.naiveList.insertIdx i element⟩ := by
    rw [add, hi, insertAt, if_pos (by omega), Int.toNat_natCast, Option.map_some]
  refine ⟨_, hadd, ?_, List.perm_insertIdx element q.naiveList hlen⟩
  rw [Sorted, ← List.take_append_drop i q.naiveList] at h
  have htake := List.pairwise_append.mp h
  rw [Sorted, insertIdx_eq_take_append_drop element hlen]
  refine List.pairwise_append.mpr ⟨htake.1, List.pairwise_cons.mpr ⟨hafter, htake.2.1⟩, ?_⟩
  intro a ha b hb
  rcases List.mem_cons.mp hb with rfl | hb
  · exact hbefore a ha
  · exact htake.2.2 a ha b hb

/-- What `poll` takes out of a sorted queue is at most as large as any of its elements. -/
theorem Sorted.le_of_poll {q q' : PriorityQueue α compareTo} {a : α} (h : q.Sorted)
    (hpoll : q.poll = some (a, q')) : ∀ b ∈ q.naiveList, (compareTo a b).isLE := by
  rw [Sorted, poll_eq_some_iff.mp hpoll] at h
  rw [poll_eq_some_iff.mp hpoll]
  exact List.forall_mem_cons.mpr ⟨by simp [Std.ReflCmp.compare_self], (List.pairwise_cons.mp h).1⟩

/-- An element that is equal to one in a sorted queue is put in front of an equal one. -/
theorem exists_add_of_eq {element b : α} {q : PriorityQueue α compareTo} (h : q.Sorted)
    (hb : b ∈ q.naiveList) (heq : compareTo b element = .eq) : ∃ before c after,
      q.naiveList = before ++ c :: after ∧ compareTo c element = .eq ∧
        q.add element = some ⟨before ++ element :: c :: after⟩ := by
  obtain ⟨j, hj⟩ := List.mem_iff_getElem?.mp hb
  rcases binarySearch_spec h element with ⟨i, hr, c, hc, hceq⟩ | ⟨i, -, -, hlow, hhigh⟩
  · obtain ⟨hi, rfl⟩ := List.getElem?_eq_some_iff.mp hc
    have hindex : insertionIndex compareTo q.naiveList element = i := by
      simp only [insertionIndex, hr]
      split_ifs <;> omega
    refine ⟨q.naiveList.take i, q.naiveList[i], q.naiveList.drop (i + 1), ?_, hceq, ?_⟩
    · rw [← List.drop_eq_getElem_cons, List.take_append_drop]
    · rw [add, hindex, insertAt, if_pos (by omega), Int.toNat_natCast, Option.map_some,
        insertIdx_eq_take_append_drop element (Nat.le_of_lt hi), List.drop_eq_getElem_cons hi]
  -- A search that finds no equal element finds the queue to have none.
  · rcases Nat.lt_or_ge j i with hji | hji
    · simp [hlow j b hji hj] at heq
    · simp [hhigh j b hji hj] at heq

end PriorityQueue

/-! ## Any sequence of calls -/

/-- The calls that change a queue. -/
inductive QueueCall (α : Type u)
  | add (element : α)
  /-- `poll` returns the element. -/
  | poll (element : α)

/-- The element that a call adds. -/
def QueueCall.added? : QueueCall α → Option α
  | .add element => some element
  | .poll _ => none

/-- The element that a call takes out. -/
def QueueCall.polled? : QueueCall α → Option α
  | .add _ => none
  | .poll element => some element

namespace PriorityQueue

/-- What a call does, if it does not throw. `poll` is called when `isNotEmpty`. -/
inductive Step {compareTo : α → α → Ordering} :
    PriorityQueue α compareTo → QueueCall α → PriorityQueue α compareTo → Prop
  | add {q q'} (element) : q.add element = some q' → Step q (.add element) q'
  | poll {q q' element} : q.isNotEmpty = true → q.poll = some (element, q') →
      Step q (.poll element) q'

/-- A queue under any calls. -/
def system (compareTo : α → α → Ordering) :
    Transitions.System (PriorityQueue α compareTo) (QueueCall α) where
  init := empty
  step := Step

section Calls

variable {compareTo : α → α → Ordering} {q q' : PriorityQueue α compareTo}
  {tr : List (PriorityQueue α compareTo × QueueCall α)}

/-- The elements that were added. -/
def added (tr : List (PriorityQueue α compareTo × QueueCall α)) : List α :=
  Transitions.System.observed QueueCall.added? tr

/-- The elements that were polled. -/
def polled (tr : List (PriorityQueue α compareTo × QueueCall α)) : List α :=
  Transitions.System.observed QueueCall.polled? tr

variable [Std.TransCmp compareTo]

/-- A call keeps a queue sorted. -/
theorem Step.sorted {call : QueueCall α} (hs : Step q call q') (h : q.Sorted) : q'.Sorted := by
  cases hs with
  | add element hadd =>
    obtain ⟨_, hq, hsorted, -⟩ := exists_add element h
    exact Option.some.inj (hq.symm.trans hadd) ▸ hsorted
  | poll _ hpoll => exact h.poll hpoll

/-- A call adds its element to the contents, or takes it out. -/
theorem Step.perm {call : QueueCall α} (hs : Step q call q') (h : q.Sorted) :
    (call.polled?.toList ++ q'.naiveList).Perm (q.naiveList ++ call.added?.toList) := by
  cases hs with
  | add element hadd =>
    obtain ⟨_, hq, -, hperm⟩ := exists_add element h
    obtain rfl := Option.some.inj (hq.symm.trans hadd)
    exact hperm.trans (List.perm_append_singleton _ _).symm
  | poll _ hpoll =>
    rw [poll_eq_some_iff.mp hpoll]
    simp [QueueCall.polled?, QueueCall.added?]

/-- A queue is sorted after any calls. -/
theorem sorted_of_run (h : (system compareTo).Run tr q) : q.Sorted :=
  h.invariant sorted_empty fun hsorted hs => Step.sorted hs hsorted

/-- What was polled and what is left is what was added. -/
theorem perm_added (h : (system compareTo).Run tr q) :
    (polled tr ++ q.naiveList).Perm (added tr) := by
  induction h with
  | init => exact .refl _
  | @step tr q q' call hr hs ih =>
    rw [polled, added, Transitions.System.observed_append, Transitions.System.observed_append]
    have hcall := Step.perm hs (sorted_of_run hr)
    rw [List.append_assoc]
    refine (hcall.append_left _).trans ?_
    rw [← List.append_assoc]
    exact ih.append_right _

/-- After any sequence of calls, with `poll` called only when `isNotEmpty`: `naiveList` is sorted;
it has what was added and not polled, each as often; `isNotEmpty` says whether it has an element;
the next `add` inserts in range, and does not throw; and when there is an element, `peek` and `poll`
return one that is at most as large as any other, and `poll` takes out that one occurrence. -/
theorem correct (h : (system compareTo).Run tr q) :
    q.Sorted ∧ (polled tr ++ q.naiveList).Perm (added tr) ∧
    (q.isNotEmpty = true ↔ q.naiveList ≠ []) ∧
    (∀ element, 0 ≤ insertionIndex compareTo q.naiveList element ∧
      insertionIndex compareTo q.naiveList element ≤ q.naiveList.length ∧
      (q.add element).isSome) ∧
    (q.isNotEmpty = true → ∃ a q', q.peek = some a ∧ q.poll = some (a, q') ∧
      q.naiveList = a :: q'.naiveList ∧ ∀ b ∈ q.naiveList, (compareTo a b).isLE) := by
  have hsorted := sorted_of_run h
  refine ⟨hsorted, perm_added h, isNotEmpty_iff, fun element => ?_, fun hne => ?_⟩
  · obtain ⟨i, hi, hlen, -, -⟩ := insertionIndex_spec hsorted element
    obtain ⟨q', hadd, -, -⟩ := exists_add element hsorted
    rw [hi, hadd]
    exact ⟨by omega, by omega, rfl⟩
  · obtain ⟨a, rest, hlist⟩ := List.exists_cons_of_ne_nil (isNotEmpty_iff.mp hne)
    have hpoll : q.poll = some (a, ⟨rest⟩) := poll_eq_some_iff.mpr hlist
    exact ⟨a, ⟨rest⟩, peek_eq_some_iff.mpr ⟨_, hpoll⟩, hpoll, hlist, hsorted.le_of_poll hpoll⟩

end Calls

/-- Two equal elements and a smaller one, of which one is polled. -/
theorem correct_pairs : ∃ tr,
    (system (compareOn (Prod.fst : ℕ × ℕ → ℕ))).Run tr ⟨[(5, 2), (5, 1)]⟩ ∧
      (polled tr ++ [(5, 2), (5, 1)]).Perm (added tr) ∧ polled tr = [(3, 3)] := by
  have hadd : @Step _ (compareOn (Prod.fst : ℕ × ℕ → ℕ)) empty (.add (5, 1))
      ⟨[(5, 1)]⟩ := .add _ rfl
  have h₁ := (Transitions.System.Run.init
    (S := system (compareOn (Prod.fst : ℕ × ℕ → ℕ)))).step hadd
  have h₂ := h₁.step (.add (5, 2) rfl)
  have h₃ := h₂.step (.add (3, 3) rfl)
  have h₄ := h₃.step (Step.poll rfl rfl)
  exact ⟨_, h₄, (correct h₄).2.1, rfl⟩

end PriorityQueue

/-! ## Sorted queues -/

/-- A queue whose list is sorted, as it is after any calls. -/
structure SortedQueue (α : Type u) (compareTo : α → α → Ordering) extends
    PriorityQueue α compareTo where
  sorted : toPriorityQueue.Sorted

namespace SortedQueue

variable {compareTo : α → α → Ordering}

/-- The queue that is created. -/
def empty : SortedQueue α compareTo := ⟨.empty, PriorityQueue.sorted_empty⟩

variable [Std.TransCmp compareTo]

/-- `add`, which does not throw. -/
def add (element : α) (q : SortedQueue α compareTo) : SortedQueue α compareTo :=
  have h := PriorityQueue.exists_add element q.sorted
  { toPriorityQueue := (q.toPriorityQueue.add element).get (by
      obtain ⟨q', hadd, -⟩ := h
      rw [hadd]
      rfl)
    sorted := by
      obtain ⟨q', hadd, hsorted, -⟩ := h
      simpa only [hadd, Option.get_some] using hsorted }

/-- It is the `add` of the class. -/
theorem add_eq (element : α) (q : SortedQueue α compareTo) :
    q.toPriorityQueue.add element = some (q.add element).toPriorityQueue :=
  (Option.some_get _).symm

/-- What `add` does to the contents. -/
theorem perm_add (element : α) (q : SortedQueue α compareTo) :
    (q.add element).naiveList.Perm (element :: q.naiveList) := by
  obtain ⟨q', hadd, -, hperm⟩ := PriorityQueue.exists_add element q.sorted
  exact Option.some.inj (hadd.symm.trans (q.add_eq element)) ▸ hperm

/-- Sorted queues, with the calls of the class, meet the contract of a priority queue. -/
def minQueue (compareTo : α → α → Ordering) [Std.TransCmp compareTo] :
    MinQueue α fun a b => (compareTo a b).isLE where
  Queue := SortedQueue α compareTo
  empty := empty
  toList q := q.naiveList
  isNotEmpty q := q.isNotEmpty
  add := add
  Peek q a := q.peek = some a
  Poll q a q' := q.poll = some (a, q'.toPriorityQueue)
  toList_empty := rfl
  isNotEmpty_iff := PriorityQueue.isNotEmpty_iff
  peek_iff {q a} := by
    rw [PriorityQueue.peek_eq_some_iff]
    constructor
    · rintro ⟨q', hpoll⟩
      exact ⟨⟨q', q.sorted.poll hpoll⟩, hpoll⟩
    · rintro ⟨q', hpoll⟩
      exact ⟨_, hpoll⟩
  perm_of_add := perm_add
  perm_of_poll h := .of_eq (PriorityQueue.poll_eq_some_iff.mp h)
  le_of_poll {q _ _} h := q.sorted.le_of_poll h
  exists_poll {q} h := by
    obtain ⟨a, rest, hlist⟩ := List.exists_cons_of_ne_nil h
    have hpoll : q.poll = some (a, ⟨rest⟩) := PriorityQueue.poll_eq_some_iff.mpr hlist
    exact ⟨a, ⟨⟨rest⟩, q.sorted.poll hpoll⟩, hpoll⟩

end SortedQueue

end Khala.Native
