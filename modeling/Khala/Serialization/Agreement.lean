import Khala.Serialization.JsJson
import Khala.Serialization.JvmJson
import Khala.Serialization.NativeJson

/-!
# The three JSON parsers

`parseJson` is written three times, over three libraries. This module says when the three agree on a
valid document, by comparing each with what the document means: `JsonTexts.scalar` is what a token
stands for, a number by its value.

Each parser reads documents faithfully within its bounds. That of the JVM takes the integers that
are `Int`s, and raises an error for others; the native one cuts these off at the ends of the range,
and takes strings and keys that are C strings; the one of JS takes everything. `parsers_agree_iff`
says that they agree exactly within these bounds.
-/

namespace Khala

/-! ## Values -/

/-- A value without parts, with numbers taken by value. -/
inductive Scalar where
  /-- `null`. -/
  | null
  /-- A boolean. -/
  | boolean (b : Bool)
  /-- A number. -/
  | number (v : NumberValue)
  /-- A string. -/
  | string (s : Utf16)
deriving DecidableEq

/-- What a value without parts stands for. -/
def StructuredLeaf.scalar : StructuredLeaf → Scalar
  | .null => .null
  | .boolean b => .boolean b
  | .int n => .number (.finite n.toInt)
  | .double d => .number d.value
  | .string s => .string s

/-- A leaf that means a string is that string. -/
theorem StructuredLeaf.scalar_eq_string_iff {x : StructuredLeaf} {s : Utf16} :
    x.scalar = .string s ↔ x = .string s := by
  cases x <;> simp [scalar]

/-- What a value of JS without parts stands for. -/
def Js.Primitive.scalar : Js.Primitive → Scalar
  | .null => .null
  | .boolean b => .boolean b
  | .number d => .number d.value
  | .string s => .string s

/-- The outcomes of the three parsers agree: all are errors, or all are values that are equal, with
numbers compared by value. -/
def Agree (jvm native : Except String StructuredTree) (js : Except String Js.StructuredTree) :
    Prop :=
  (∃ s t u, jvm = .ok s ∧ native = .ok t ∧ js = .ok u ∧
    RecordTree.Rel (fun x y => x.scalar = y.scalar) s t ∧
    RecordTree.Rel (fun x y => x.scalar = y.scalar) t u) ∨
  ((∃ e, jvm = .error e) ∧ (∃ e, native = .error e) ∧ ∃ e, js = .error e)

/-! ## The libraries read documents -/

section Parsers

variable {Text : Type} (texts : JsonTexts Text)

/-- What a token stands for. -/
def JsonTexts.scalar : JsonToken → Scalar
  | .null => .null
  | .boolean b => .boolean b
  | .number l => .number (if l.IsInteger then .finite l.toInt else (texts.toDouble l).value)
  | .string s => .string s

/-- The object of org.json that a token is read as. -/
def Jvm.OrgJson.object (org : Jvm.OrgJson Text) : JsonToken → Jvm.JsonLeaf
  | .null => .null
  | .boolean b => .boolean b
  | .number l => .number (org.stringToNumber l)
  | .string s => .string s

/-- What org.json promises of documents: it reads each token as it is. An integer literal is a
number of the smallest class. Only `-0` may be a double. -/
structure Jvm.OrgJson.Reads (org : Jvm.OrgJson Text) : Prop where
  nextValue : ∀ t d, texts.Denotes t d → d.Distinct →
    ∃ v, org.nextValue t = .ok v ∧ RecordTree.Rel (fun x y => y = org.object x) d v
  integer : ∀ n, org.stringToNumber (.ofInt n) = .ofInt n
  negativeZero : org.stringToNumber negativeZeroLiteral = .integer 0 ∨
    org.stringToNumber negativeZeroLiteral = .double .negativeZero
  decimal : ∀ l, ¬l.IsInteger → org.stringToNumber l = .double (texts.toDouble l)

/-- The object of json-c that a token is read as. -/
def JsonTexts.object : JsonToken → Native.JsonLeaf
  | .null => .null
  | .boolean b => .boolean b
  | .number l =>
    if l.IsInteger then .int (Native.saturate l.toInt) else .double (texts.toDouble l)
  | .string s => .string s

/-- What json-c promises of documents within its limit: it accepts them. Integers are stored in 64
bits. Strings and keys are read as they are if they are C strings, and as well-formed texts in any
case. -/
structure Native.JsonC.Reads (c : Native.JsonC Text) : Prop where
  accepts : ∀ t d, texts.Denotes t d → d.Distinct → d.levels ≤ JSON_TOKENER_DEFAULT_DEPTH →
    ∃ v, c.json_tokener_parse_verbose t = some v ∧
      EveryText Native.JsonLeaf.string Utf16.WellFormed v ∧
      (EveryText .string IsCText d → RecordTree.Rel (fun x y => y = texts.object x) d v)

/-- The value of JS that a token may be read as: an integer is the double that it is rounded
to. -/
def JsonTexts.Parses : JsonToken → Js.Primitive → Prop
  | .null, x => x = .null
  | .boolean b, x => x = .boolean b
  | .number l, x => ∃ d, x = .number d ∧
    if l.IsInteger then Double.Rounds l.toInt d else d = texts.toDouble l
  | .string s, x => x = .string s

/-- What the engine promises of documents. -/
structure Js.Engine.Reads (e : Js.Engine Text) : Prop where
  parse : ∀ t d, texts.Denotes t d → d.Distinct →
    ∃ u, e.parse t = .ok (Js.created u) ∧ RecordTree.Rel texts.Parses d u

/-- The integer is an `Int`. -/
def IsInt (n : ℤ) : Prop := -2 ^ 31 ≤ n ∧ n < 2 ^ 31

instance : DecidablePred IsInt := fun _ => inferInstanceAs (Decidable (_ ∧ _))

/-- Every integer literal of a document is that of an `Int`. -/
def Document.EveryInt (d : Document) : Prop :=
  ∀ l, RecordTree.IsLeaf (.number l) d → l.IsInteger → IsInt l.toInt

variable {texts} {t : Text} {d : Document}

/-! ## The parser of the JVM -/

/-- The JVM reads the numbers that are `Int`s as these, and no others. -/
theorem leafToStructured_ofInt_iff {n : ℤ} {y : StructuredLeaf} :
    Jvm.leafToStructured (.number (.ofInt n)) = .ok y ↔ IsInt n ∧ y = .int (Int32.ofInt n) := by
  by_cases hint : IsInt n
  · have hn : Jvm.JsonNumber.ofInt n = .integer (Int32.ofInt n) := if_pos hint
    simp [hn, Jvm.leafToStructured, hint, eq_comm]
  · rw [Jvm.JsonNumber.ofInt, if_neg (show ¬(_ ∧ _) from hint)]
    split_ifs <;> simp [Jvm.leafToStructured, hint]

/-- An integer that is an `Int` keeps its value as one. -/
theorem toInt_ofInt {n : ℤ} (hn : IsInt n) : (Int32.ofInt n).toInt = n :=
  Int32.toInt_ofInt_of_le hn.1 hn.2

section Jvm

variable {org : Jvm.OrgJson Text} (h : org.Reads texts)
include h

/-- What the conversion makes of a token, if it takes it, is what the token means. -/
theorem scalar_of_leafToStructured {x : JsonToken} {y : StructuredLeaf}
    (hy : Jvm.leafToStructured (org.object x) = .ok y) : y.scalar = texts.scalar x := by
  cases x with
  | null | boolean | string =>
    obtain rfl := Except.ok.inj hy
    rfl
  | number l =>
    by_cases hl : l.IsInteger
    · rw [JsonTexts.scalar, if_pos hl]
      obtain heq | rfl := hl.eq_or
      · rw [Jvm.OrgJson.object, heq, h.integer, leafToStructured_ofInt_iff] at hy
        obtain ⟨hint, rfl⟩ := hy
        rw [StructuredLeaf.scalar, toInt_ofInt hint]
      · -- `-0` is an `Int` or a double, with one value.
        rw [Jvm.OrgJson.object] at hy
        obtain hzero | hzero := h.negativeZero <;> rw [hzero] at hy <;>
          obtain rfl := Except.ok.inj hy
        · rfl
        · rw [StructuredLeaf.scalar, Double.value_negativeZero]
          rfl
    · rw [Jvm.OrgJson.object, h.decimal l hl] at hy
      obtain rfl := Except.ok.inj hy
      exact congrArg Scalar.number (if_neg hl).symm

/-- The conversion takes exactly the integers that are `Int`s. -/
theorem leafToStructured_isOk_iff (x : JsonToken) :
    (∃ y, Jvm.leafToStructured (org.object x) = .ok y) ↔
      ∀ l, x = .number l → l.IsInteger → IsInt l.toInt := by
  cases x with
  | null | boolean | string => simp [Jvm.OrgJson.object, Jvm.leafToStructured]
  | number l =>
    simp only [JsonToken.number.injEq, forall_eq']
    by_cases hl : l.IsInteger
    · obtain heq | rfl := hl.eq_or
      · rw [Jvm.OrgJson.object, heq, h.integer]
        simp only [leafToStructured_ofInt_iff, NumberLiteral.toInt_ofInt]
        constructor
        · rintro ⟨_, hint, -⟩ -
          exact hint
        · intro hint
          exact ⟨_, hint (heq ▸ hl), rfl⟩
      · have hint : IsInt negativeZeroLiteral.toInt := by decide
        obtain hzero | hzero := h.negativeZero <;>
          simp [Jvm.OrgJson.object, hzero, Jvm.leafToStructured, hint]
    · simp [Jvm.OrgJson.object, h.decimal l hl, Jvm.leafToStructured, hl]

/-- The JVM takes a document if and only if its integers are `Int`s, and as what it means. -/
theorem jvm_parseJson (hd : texts.Denotes t d) (hdistinct : d.Distinct) :
    ((∃ s, Jvm.parseJson org t = .ok s) ↔ d.EveryInt) ∧
      ∀ s, Jvm.parseJson org t = .ok s →
        RecordTree.Rel (fun x y => y.scalar = texts.scalar x) d s := by
  obtain ⟨v, hv, hrel⟩ := h.nextValue t d hd hdistinct
  have hparse : Jvm.parseJson org t = v.traverse Jvm.leafToStructured := by
    rw [Jvm.parseJson, hv, ← Jvm.parsedToStructured_eq]
    rfl
  have hleaves : ∀ s, Jvm.parseJson org t = .ok s →
      RecordTree.Rel (fun x y => Jvm.leafToStructured (org.object x) = .ok y) d s := by
    intro s hs
    refine (hrel.trans (RecordTree.rel_of_traverse (hparse ▸ hs))).imp ?_
    rintro x - y ⟨_, rfl, hy⟩
    exact hy
  refine ⟨⟨?_, ?_⟩, fun s hs => (hleaves s hs).imp fun x _ y => scalar_of_leafToStructured h⟩
  · rintro ⟨s, hs⟩ l hl
    obtain ⟨y, -, hy⟩ := (hleaves s hs).exists_right hl
    exact (leafToStructured_isOk_iff h _).mp ⟨y, hy⟩ l rfl
  · intro hint
    rw [hparse]
    refine RecordTree.exists_traverse fun y hy => ?_
    obtain ⟨x, hx, rfl⟩ := hrel.exists_left hy
    refine (leafToStructured_isOk_iff h x).mpr ?_
    rintro l rfl
    exact hint l hx

end Jvm

/-! ## The native parser -/

/-- An `Int` passes through the 64 bits of json-c unchanged. -/
theorem toInt_json_object_get_int {n : ℤ} (hn : IsInt n) :
    (Native.json_object_get_int (Native.saturate n)).toInt = n := by
  obtain ⟨hlow, hhigh⟩ := hn
  have hsat : (Native.saturate n).toInt = n := by
    rw [Native.saturate, min_eq_left (by omega), max_eq_right (by omega)]
    exact Int64.toInt_ofInt_of_le (by omega) (by omega)
  unfold Native.json_object_get_int
  rw [hsat]
  split_ifs with hmin hmax
  · rw [Int32.toInt_minValue]
    omega
  · rw [Int32.toInt_maxValue]
    omega
  · rw [Int64.toInt_toInt32, hsat]
    exact Int.bmod_eq_of_le (by omega) (by omega)

/-- What is read from an object of well-formed texts is C strings. -/
theorem isCText_parseObject {v : Native.JsonObject}
    (hv : EveryText Native.JsonLeaf.string Utf16.WellFormed v) :
    (Native.parseObject v).EveryText Native.IsCText := by
  have hnul := Native.everyText_parseObject v
  refine ⟨fun s hs => ⟨?_, hnul.1 s hs⟩, fun k hk => ⟨?_, hnul.2 k hk⟩⟩
  · rw [Native.parseObject_eq] at hs
    obtain ⟨x, hx, hxs⟩ := RecordTree.exists_of_isLeaf_rebuild hs
    cases x with
    | string s' =>
      obtain rfl := StructuredLeaf.string.inj hxs
      exact (hv.1 s' hx).cString
    | null | boolean | int | double => cases hxs
  · rw [Native.parseObject_eq] at hk
    obtain ⟨k', hk', rfl⟩ := RecordTree.exists_of_isKey_rebuild hk
    exact (hv.2 k' hk').cString

/-- The native parser reads what a document means, if its integers are `Int`s and its strings and
keys are C strings. -/
theorem native_parseJson {c : Native.JsonC Text} (h : c.Reads texts) (hd : texts.Denotes t d)
    (hdistinct : d.Distinct) (hlevels : d.levels ≤ Native.JSON_TOKENER_DEFAULT_DEPTH) :
    ∃ s, Native.parseJson c t = .ok s ∧ s.EveryText Native.IsCText ∧
      (d.EveryInt → EveryText .string Native.IsCText d →
        RecordTree.Rel (fun x y => y.scalar = texts.scalar x) d s) := by
  obtain ⟨v, hv, hwell, hrel⟩ := h.accepts t d hd hdistinct hlevels
  refine ⟨Native.parseObject v, ?_, ?_, fun hint htext => ?_⟩
  · rw [Native.parseJson, Native.JsonC.json_tokener_parse, hv, Option.getD_some]
  · exact isCText_parseObject hwell
  · have hrel := hrel htext
    have hkey : ∀ k, RecordTree.IsKey k v → k.cString = k := fun k hk =>
      (htext.2 k (hrel.isKey_iff.mpr hk)).cString_eq
    rw [Native.parseObject_eq, RecordTree.rebuild_eq_map (hrel.distinct hdistinct) hkey]
    refine (hrel.trans (RecordTree.rel_map _ v)).imp ?_
    rintro x hx _ ⟨_, rfl, rfl⟩
    cases x with
    | null | boolean => rfl
    | string s => exact congrArg Scalar.string (htext.1 s hx).cString_eq
    | number l =>
      rw [JsonTexts.object, JsonTexts.scalar]
      split_ifs with hl
      · exact congrArg (fun n => Scalar.number (.finite n))
          (congrArg Int.cast (toInt_json_object_get_int (hint l hx hl)))
      · rfl

/-! ## The parser of JS -/

/-- JS reads what a document means, if its integers are `Int`s. -/
theorem js_parseJson {e : Js.Engine Text} (h : e.Reads texts) (hd : texts.Denotes t d)
    (hdistinct : d.Distinct) :
    ∃ s, Js.parseJson e t = .ok s ∧
      (d.EveryInt → RecordTree.Rel (fun x y => y.scalar = texts.scalar x) d s) := by
  obtain ⟨s, hs, hrel⟩ := h.parse t d hd hdistinct
  refine ⟨s, ?_, fun hint => hrel.imp ?_⟩
  · rw [Js.parseJson, hs]
    exact congrArg Except.ok (Js.parsedToStructured_created (hrel.distinct hdistinct))
  · intro x hx y hy
    cases x with
    | null | boolean | string =>
      obtain rfl := hy
      rfl
    | number l =>
      obtain ⟨v, rfl, hv⟩ := hy
      rw [JsonTexts.scalar, Js.Primitive.scalar]
      split_ifs at hv ⊢ with hl
      · obtain ⟨hlow, hhigh⟩ := hint l hx hl
        obtain ⟨hfin, hval⟩ := hv.toRat_eq (by omega)
        rw [Double.value, if_pos hfin, hval]
      · rw [hv]

/-! ## Agreement -/

/-- On a valid document that is within the limit of json-c, the three parsers agree if and only if
its integers are `Int`s, and its strings and keys are C strings. -/
theorem parsers_agree_iff {org : Jvm.OrgJson Text} {c : Native.JsonC Text} {e : Js.Engine Text}
    (horg : org.Reads texts) (hc : c.Reads texts) (he : e.Reads texts) (hd : texts.Denotes t d)
    (hdistinct : d.Distinct) (hlevels : d.levels ≤ Native.JSON_TOKENER_DEFAULT_DEPTH) :
    Agree (Jvm.parseJson org t) (Native.parseJson c t) (Js.parseJson e t) ↔
      d.EveryInt ∧ EveryText .string Native.IsCText d := by
  obtain ⟨hjvm, hmeans⟩ := jvm_parseJson horg hd hdistinct
  obtain ⟨r, hr, htext, hnative⟩ := native_parseJson hc hd hdistinct hlevels
  obtain ⟨u, hu, hjs⟩ := js_parseJson he hd hdistinct
  constructor
  · rintro (⟨s, r', u', hs, hr', -, hsr, -⟩ | ⟨-, ⟨_, herr⟩, -⟩)
    · obtain rfl : r = r' := Except.ok.inj (hr.symm.trans hr')
      refine ⟨hjvm.mp ⟨s, hs⟩, ?_⟩
      -- The JVM keeps all strings and keys, so those of the document are C strings as well.
      have htext' : s.EveryText Native.IsCText := by
        refine .of_rel hsr (fun str y hy => ?_) htext
        exact StructuredLeaf.scalar_eq_string_iff.mp hy.symm
      refine .of_rel (hmeans s hs) (fun str y hy => ?_) htext'
      exact StructuredLeaf.scalar_eq_string_iff.mp hy
    · rw [hr] at herr
      cases herr
  · rintro ⟨hint, htext⟩
    obtain ⟨s, hs⟩ := hjvm.mpr hint
    refine .inl ⟨s, r, u, hs, hr, hu, ?_, ?_⟩
    · refine ((hmeans s hs).flip.trans (hnative hint htext)).imp ?_
      rintro x - y ⟨z, hx, hy⟩
      exact hx.trans hy.symm
    · refine ((hnative hint htext).flip.trans (hjs hint)).imp ?_
      rintro x - y ⟨z, hx, hy⟩
      exact hx.trans hy.symm

end Parsers

/-! ## Three concrete libraries -/

namespace SampleTexts

/-- `JSONObject.stringToNumber` of an org.json that reads every other literal than an integer as a
`Double`. -/
def stringToNumber (l : NumberLiteral) : Jvm.JsonNumber :=
  if l = negativeZeroLiteral then .double .negativeZero
  else if l.IsInteger then .ofInt l.toInt else .double l.toDouble

/-- The object of org.json that a token is read as. -/
def object : JsonToken → Jvm.JsonLeaf
  | .null => .null
  | .boolean b => .boolean b
  | .number l => .number (stringToNumber l)
  | .string s => .string s

/-- An org.json for these texts. -/
def org : Jvm.OrgJson (Option Document) where
  doubleToString := javaLiteral
  stringToNumber := stringToNumber
  valueToString v := some (v.map Jvm.SampleJson.token)
  nextValue
    | none => .error "Missing value"
    | some d => .ok (d.map object)

/-- Whole numbers are read as whole numbers. -/
theorem stringToNumber_ofInt (n : ℤ) : stringToNumber (.ofInt n) = .ofInt n := by
  rw [stringToNumber, if_neg (NumberLiteral.ofInt_ne_negativeZeroLiteral n), if_pos ⟨rfl, rfl⟩,
    NumberLiteral.toInt_ofInt]

/-- The org.json of the sample reads as the agreement asks. -/
theorem reads_org : org.Reads texts where
  nextValue t d hd _ := by
    obtain rfl : t = some d := hd
    refine ⟨_, rfl, (RecordTree.rel_map object d).imp ?_⟩
    rintro x - _ rfl
    cases x <;> rfl
  integer := stringToNumber_ofInt
  negativeZero := by
    have hread : stringToNumber negativeZeroLiteral = .double .negativeZero := if_pos rfl
    exact .inr hread
  decimal l hl := by
    have hne : l ≠ negativeZeroLiteral := by
      rintro rfl
      exact hl ⟨rfl, rfl⟩
    have hread : stringToNumber l = .double l.toDouble := (if_neg hne).trans (if_neg hl)
    exact hread

/-- The json-c of the sample reads as the agreement asks. -/
theorem reads_jsonC : Native.SampleJsonC.jsonC.Reads texts where
  accepts t d hd hdistinct hlevels := by
    obtain rfl : t = some d := hd
    refine ⟨d.rebuild Utf16.toCString Native.SampleJsonC.object, if_pos hlevels, ⟨?_, ?_⟩, ?_⟩
    · intro s hs
      obtain ⟨x, -, hx⟩ := RecordTree.exists_of_isLeaf_rebuild hs
      cases x with
      | string s' =>
        obtain rfl := Native.JsonLeaf.string.inj hx
        exact Utf16.wellFormed_repair s'
      | number l =>
        rw [Native.SampleJsonC.object] at hx
        split_ifs at hx
      | null | boolean => cases hx
    · intro k hk
      obtain ⟨k', -, rfl⟩ := RecordTree.exists_of_isKey_rebuild hk
      exact Utf16.wellFormed_toCString k'
    · intro htext
      rw [RecordTree.rebuild_eq_map hdistinct fun k hk => (htext.2 k hk).toCString_eq]
      refine (RecordTree.rel_map Native.SampleJsonC.object d).imp ?_
      rintro x hx _ rfl
      cases x with
      | string s => exact congrArg Native.JsonLeaf.string (htext.1 s hx).wellFormed
      | null | boolean | number => rfl

/-- The engine of the sample reads as the agreement asks. -/
theorem reads_engine : Js.SampleEngine.engine.Reads texts where
  parse t d hd hdistinct := by
    obtain rfl : t = some d := hd
    have hid : ∀ k, RecordTree.IsKey k d → id k = k := fun _ _ => rfl
    refine ⟨_, rfl, ?_⟩
    rw [RecordTree.rebuild_eq_map hdistinct hid]
    refine (RecordTree.rel_map Js.SampleEngine.object d).imp ?_
    rintro x - _ rfl
    cases x with
    | null | boolean | string => rfl
    | number l =>
      refine ⟨_, rfl, ?_⟩
      split_ifs
      · rename_i hl
        rw [← NumberLiteral.toRat_of_isInteger hl]
        exact l.rounds_toDouble
      · rfl

end SampleTexts

/-- The document `[7, 1.5, {"a": null, "b": "x"}]`. -/
def sampleDocument : Document :=
  .list [.leaf (.number (.ofInt 7)), .leaf (.number oneAndHalfLiteral),
    .record [(.ascii "a", .leaf .null), (.ascii "b", .leaf (.string (.ascii "x")))]]

/-- The three parsers agree on it. -/
theorem parsers_agree_sample :
    Agree (Jvm.parseJson SampleTexts.org (some sampleDocument))
      (Native.parseJson Native.SampleJsonC.jsonC (some sampleDocument))
      (Js.parseJson Js.SampleEngine.engine (some sampleDocument)) := by
  refine (parsers_agree_iff SampleTexts.reads_org SampleTexts.reads_jsonC SampleTexts.reads_engine
    (rfl : SampleTexts.texts.Denotes _ sampleDocument) ?_ (by decide)).mpr ⟨?_, ?_, ?_⟩
  · have hkeys : [Utf16.ascii "a", Utf16.ascii "b"].Nodup := by decide
    simpa [sampleDocument] using hkeys
  · intro l hl _
    obtain rfl | rfl : l = .ofInt 7 ∨ l = oneAndHalfLiteral := by
      simpa [sampleDocument] using hl
    · decide
    · decide
  · intro s hs
    obtain rfl : s = .ascii "x" := by simpa [sampleDocument] using hs
    exact ⟨by decide, by decide⟩
  · intro k hk
    obtain rfl | rfl : k = .ascii "a" ∨ k = .ascii "b" := by simpa [sampleDocument] using hk
    · exact ⟨by decide, by decide⟩
    · exact ⟨by decide, by decide⟩

/-- The document `2147483648`. -/
def sampleLong : Document := .leaf (.number (.ofInt 2147483648))

/-- The JVM rejects it, and the native targets take it for another number. -/
theorem parsers_disagree_long :
    SampleTexts.org.Reads SampleTexts.texts ∧ Native.SampleJsonC.jsonC.Reads SampleTexts.texts ∧
      Js.SampleEngine.engine.Reads SampleTexts.texts ∧
      SampleTexts.texts.Denotes (some sampleLong) sampleLong ∧ sampleLong.Distinct ∧
      sampleLong.levels ≤ Native.JSON_TOKENER_DEFAULT_DEPTH ∧
      Jvm.parseJson SampleTexts.org (some sampleLong) =
        .error (Jvm.unsupportedMessage (toString (2147483648 : Int64))) ∧
      Native.parseJson Native.SampleJsonC.jsonC (some sampleLong) =
        .ok (.leaf (.int Int32.maxValue)) ∧
      ¬Agree (Jvm.parseJson SampleTexts.org (some sampleLong))
        (Native.parseJson Native.SampleJsonC.jsonC (some sampleLong))
        (Js.parseJson Js.SampleEngine.engine (some sampleLong)) := by
  refine ⟨SampleTexts.reads_org, SampleTexts.reads_jsonC, SampleTexts.reads_engine, rfl, .leaf _,
    by decide, rfl, rfl, ?_⟩
  rintro (⟨s, -, -, hs, -⟩ | ⟨-, ⟨e, he⟩, -⟩)
  · cases hs
  · cases he

end Khala
