import Khala.Serialization.Document

/-!
# Structured values

The values that the JSON serialization writes and parses: `null`, booleans, ints, doubles and
strings, and lists and maps of them. A map has one entry for each key, and two maps are equal
whatever the order of their entries: `Structured.Equals` is the equality of Kotlin.

JSON has no literal for an infinite double or a NaN. A `Structured` has none, so that it can be
written; a parser may still make one, and gives a `StructuredTree`.
-/

namespace Khala

/-- A value without parts. -/
inductive StructuredLeaf where
  /-- `StructuredNull`. -/
  | null
  /-- `StructuredBoolean`. -/
  | boolean (b : Bool)
  /-- `StructuredInt`. -/
  | int (n : Int32)
  /-- `StructuredDouble`. -/
  | double (d : Double)
  /-- `StructuredString`. -/
  | string (s : Utf16)
deriving DecidableEq

/-- A value as a tree: a list is a `StructuredArray`, a record a `StructuredObject`. -/
abbrev StructuredTree : Type := RecordTree Utf16 StructuredLeaf

/-- `Structured`: a value whose maps have one entry for each key. -/
structure Structured where
  /-- The value as a tree. -/
  tree : StructuredTree
  distinct : tree.Distinct
  finite : ∀ d, RecordTree.IsLeaf (.double d) tree → d.IsFinite

/-- The equality of Kotlin: lists are equal item by item, and maps entry by entry, in any order. -/
def StructuredTree.Equals (s t : StructuredTree) : Prop := RecordTree.Rel Eq s t

/-- Every string of the value and every key of its maps has the property. -/
abbrev StructuredTree.EveryText (P : Utf16 → Prop) (t : StructuredTree) : Prop :=
  Khala.EveryText .string P t

/-- Equal values have the same strings and keys. -/
theorem StructuredTree.Equals.everyText {P : Utf16 → Prop} {s t : StructuredTree} (h : s.Equals t)
    (ht : t.EveryText P) : s.EveryText P :=
  .of_rel h (fun _ _ => Eq.symm) ht

/-- A list with an int, a double and a map. -/
def sampleList : Structured where
  tree := .list [.leaf (.int 7), .leaf (.double oneAndHalf),
    .record [(.ascii "a", .leaf .null), (.ascii "b", .leaf (.string (.ascii "x")))]]
  distinct := by
    have hkeys : [Utf16.ascii "a", Utf16.ascii "b"].Nodup := by decide
    simpa using hkeys
  finite d hd := by
    obtain rfl : d = oneAndHalf := by simpa using hd
    decide

end Khala
