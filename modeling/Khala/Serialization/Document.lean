import Khala.Library.RecordTree.Rebuild
import Khala.Serialization.Decimal
import Khala.Serialization.Strings

/-!
# JSON documents

A JSON document is a tree of tokens, whatever library reads it. The number of a token is kept as it
is written.
-/

namespace Khala

/-- A part of a document without parts of its own. -/
inductive JsonToken where
  /-- `null`. -/
  | null
  /-- `true` or `false`. -/
  | boolean (b : Bool)
  /-- A number. -/
  | number (literal : NumberLiteral)
  /-- A string. -/
  | string (s : Utf16)

/-- A JSON document. -/
abbrev Document : Type := RecordTree Utf16 JsonToken

/-- Every string of a tree and every key of its records has the property. The leaf of a string is to
be given. -/
def EveryText {ν : Type} (string : Utf16 → ν) (P : Utf16 → Prop) (t : RecordTree Utf16 ν) : Prop :=
  (∀ s, RecordTree.IsLeaf (string s) t → P s) ∧ ∀ k, RecordTree.IsKey k t → P k

/-- What holds of the strings and keys of a tree holds of those of one with the same strings. -/
theorem EveryText.of_rel {ν μ : Type} {string : Utf16 → ν} {string' : Utf16 → μ} {P : Utf16 → Prop}
    {R : ν → μ → Prop} {t : RecordTree Utf16 ν} {u : RecordTree Utf16 μ} (h : RecordTree.Rel R t u)
    (hR : ∀ s y, R (string s) y → y = string' s) (hu : EveryText string' P u) :
    EveryText string P t := by
  refine ⟨fun s hs => ?_, fun k hk => hu.2 k (h.isKey hk)⟩
  obtain ⟨y, hy, hsy⟩ := h.exists_right hs
  exact hu.1 s (hR s y hsy ▸ hy)

/-- What JSON texts mean. -/
structure JsonTexts (Text : Type) where
  /-- The text is this document. -/
  Denotes : Text → Document → Prop
  /-- The double that a literal with a fraction or an exponent stands for. -/
  toDouble : NumberLiteral → Double

/-! ## Examples -/

/-- Texts that are documents, or no documents. -/
def SampleTexts.texts : JsonTexts (Option Document) where
  Denotes t d := t = some d
  toDouble := NumberLiteral.toDouble

/-- The double 1.0. -/
def one : Double := ⟨0x3FF0000000000000⟩

/-- The double 1.5. -/
def oneAndHalf : Double := ⟨0x3FF8000000000000⟩

/-- The literal 1.5. -/
def oneAndHalfLiteral : NumberLiteral :=
  { negative := false, whole := 1, fraction := [⟨5, by decide⟩] }

end Khala
