import Mathlib.Data.List.Perm.Basic
import Mathlib.Order.Defs.Unbundled

/-!
# Queues that hand over a least element first

`MinQueue` says what a priority queue promises without saying how it keeps its elements: the
contents up to order, what `add` does to them, that `poll` takes out one least element, and that
`peek` shows one that `poll` can take. Which of several least elements it is is left open, so `Poll`
and `Peek` are relations. `MinQueue.bag` is the queue that promises nothing more.

`exists_polls_of_mem` is the rule for draining: any element can be reached by polling, and every
element that is polled before it is at most as large.
-/

universe u

/-- A queue whose `poll` takes out a least element in the order `le`. -/
structure MinQueue (α : Type u) (le : α → α → Prop) where
  /-- The states of the queue. -/
  Queue : Type u
  /-- The queue with no element. -/
  empty : Queue
  /-- The contents, in the order in which the queue keeps them. -/
  toList : Queue → List α
  /-- Whether there is an element. -/
  isNotEmpty : Queue → Bool
  /-- Adds one element. -/
  add : α → Queue → Queue
  /-- `Peek q a`: `peek` on `q` can return `a`. -/
  Peek : Queue → α → Prop
  /-- `Poll q a q'`: `poll` on `q` can return `a` and leave `q'`. -/
  Poll : Queue → α → Queue → Prop
  toList_empty : toList empty = []
  isNotEmpty_iff : ∀ {q}, isNotEmpty q = true ↔ toList q ≠ []
  peek_iff : ∀ {q a}, Peek q a ↔ ∃ q', Poll q a q'
  perm_of_add : ∀ a q, (toList (add a q)).Perm (a :: toList q)
  perm_of_poll : ∀ {q a q'}, Poll q a q' → (toList q).Perm (a :: toList q')
  le_of_poll : ∀ {q a q'}, Poll q a q' → ∀ b ∈ toList q, le a b
  exists_poll : ∀ {q}, toList q ≠ [] → ∃ a q', Poll q a q'

namespace MinQueue

variable {α : Type u} {le : α → α → Prop}

section Peek

variable {Q : MinQueue α le} {q : Q.Queue} {a b : α}

/-- What `peek` shows is in the queue. -/
theorem mem_of_peek (h : Q.Peek q a) : a ∈ Q.toList q := by
  obtain ⟨q', hpoll⟩ := Q.peek_iff.mp h
  exact (Q.perm_of_poll hpoll).mem_iff.mpr List.mem_cons_self

/-- What `peek` shows is at most as large as any other element. -/
theorem le_of_peek (h : Q.Peek q a) : ∀ b ∈ Q.toList q, le a b := by
  obtain ⟨q', hpoll⟩ := Q.peek_iff.mp h
  exact Q.le_of_poll hpoll

/-- What `poll` returns is at most as large as what `peek` shows. -/
theorem le_of_poll_of_peek {q' : Q.Queue} (hpoll : Q.Poll q a q') (hpeek : Q.Peek q b) : le a b :=
  Q.le_of_poll hpoll b (mem_of_peek hpeek)

/-- `peek` can show what `poll` returns. -/
theorem peek_of_poll {q' : Q.Queue} (h : Q.Poll q a q') : Q.Peek q a := Q.peek_iff.mpr ⟨q', h⟩

/-- There is an element in a queue that can be polled. -/
theorem isNotEmpty_of_poll {q' : Q.Queue} (h : Q.Poll q a q') : Q.isNotEmpty q = true :=
  Q.isNotEmpty_iff.mpr (List.ne_nil_of_mem ((Q.perm_of_poll h).mem_iff.mpr List.mem_cons_self))

/-- The queue with no element has none. -/
theorem isNotEmpty_empty : Q.isNotEmpty Q.empty = false := by
  rw [← Bool.not_eq_true, Q.isNotEmpty_iff, not_not]
  exact Q.toList_empty

end Peek

section Polls

variable (Q : MinQueue α le)

/-- `Polls q as q'`: polling `q` as often as `as` is long can return `as` in order and leave
`q'`. -/
inductive Polls : Q.Queue → List α → Q.Queue → Prop
  | nil (q : Q.Queue) : Polls q [] q
  | cons {q q' q'' : Q.Queue} {a : α} {as : List α} :
      Q.Poll q a q' → Polls q' as q'' → Polls q (a :: as) q''

variable {Q}

/-- Every element can be reached by polling, after elements that are at most as large. -/
theorem exists_polls_of_mem {b : α} {q : Q.Queue} (h : b ∈ Q.toList q) :
    ∃ as q', Q.Polls q (as ++ [b]) q' ∧ ∀ a ∈ as, le a b := by
  -- By induction on the number of elements: a poll either returns `b` or leaves it in.
  generalize hn : (Q.toList q).length = n
  induction n generalizing q with
  | zero => simp [List.length_eq_zero_iff.mp hn] at h
  | succ n ih =>
    obtain ⟨a, q', hpoll⟩ := Q.exists_poll (List.ne_nil_of_mem h)
    have hperm := Q.perm_of_poll hpoll
    rcases List.mem_cons.mp (hperm.mem_iff.mp h) with rfl | hmem
    · exact ⟨[], q', .cons hpoll (.nil q'), by simp⟩
    · have hlen : (Q.toList q').length = n := by simpa [hn] using hperm.length_eq.symm
      obtain ⟨as, q'', hpolls, hle⟩ := ih hmem hlen
      refine ⟨a :: as, q'', .cons hpoll hpolls, ?_⟩
      simpa using ⟨Q.le_of_poll hpoll b h, hle⟩

end Polls

/-- A nonempty list has a least element. -/
theorem exists_least [Std.Total le] [IsTrans α le] : ∀ {l : List α}, l ≠ [] →
    ∃ a l', l.Perm (a :: l') ∧ ∀ b ∈ l, le a b
  | [a], _ => ⟨a, [], .refl _, by simpa using (Std.Total.total a a).elim id id⟩
  | a :: b :: l, _ => by
    obtain ⟨c, l', hperm, hle⟩ := exists_least (l := b :: l) (by simp)
    rcases Std.Total.total (r := le) a c with hac | hca
    · exact ⟨a, b :: l, .refl _, List.forall_mem_cons.mpr
        ⟨(Std.Total.total a a).elim id id, fun d hd => IsTrans.trans a c d hac (hle d hd)⟩⟩
    · exact ⟨c, a :: l', (hperm.cons a).trans (.swap c a l'),
        List.forall_mem_cons.mpr ⟨hca, hle⟩⟩

/-- The queue that promises nothing beyond the contract: a bag from which any least element can be
polled. -/
def bag [Std.Total le] [IsTrans α le] : MinQueue α le where
  Queue := List α
  empty := []
  toList := id
  isNotEmpty l := !l.isEmpty
  add a l := a :: l
  Peek l a := ∃ l', l.Perm (a :: l') ∧ ∀ b ∈ l, le a b
  Poll l a l' := l.Perm (a :: l') ∧ ∀ b ∈ l, le a b
  toList_empty := rfl
  isNotEmpty_iff {l} := by cases l <;> simp
  peek_iff := Iff.rfl
  perm_of_add _ _ := .refl _
  perm_of_poll h := h.1
  le_of_poll h := h.2
  exists_poll h := exists_least h

end MinQueue
