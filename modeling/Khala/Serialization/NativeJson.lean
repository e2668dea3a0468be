import Khala.Serialization.Structured

/-!
# JSON on the native targets

`writeJson` and `parseJson` of linuxX64 and mingwX64 go through json-c, which is not part of the
repository: a structured value is turned into `json_object`s, which json-c writes as a text and
reads back. `JsonC` is what the two functions use of it, and `JsonC.Lawful` what it promises. The
two targets differ only in how an empty array is made.

Strings pass as C strings in both directions, and end at the first U+0000. A text that json-c does
not accept, be it no document or nested too deep, is `NULL`, which is also the `null` of JSON. So
the round trip fails where a U+0000 is written or the nesting exceeds the limit, without an error
(`jsonC_roundTrip_iff`), every text that is not accepted is read as `null`, and one that is accepted
without being a document as a value (`reportsErrors_iff`).
-/

namespace Khala

namespace Native

/-! ## The objects of json-c -/

/-- A `json_object` without parts. -/
inductive JsonLeaf where
  /-- `NULL`, which is `null`. -/
  | null
  /-- `json_type_boolean`. -/
  | boolean (b : Bool)
  /-- `json_type_int`. -/
  | int (n : Int64)
  /-- `json_type_double`. -/
  | double (d : Double)
  /-- `json_type_string`. Its text may hold a U+0000 if it was read from a document. -/
  | string (s : Utf16)

/-- A `json_object`: a list is an array, a record an object, with its entries in the order in which
they are iterated. -/
abbrev JsonObject : Type := RecordTree Utf16 JsonLeaf

/-- `json_object_get_int` of a number, which is cut off at the ends of the range of `Int`. -/
def json_object_get_int (n : Int64) : Int32 :=
  if n.toInt ≤ -2 ^ 31 then Int32.minValue
  else if 2 ^ 31 - 1 ≤ n.toInt then Int32.maxValue
  else n.toInt32

/-! ## The conversions -/

/-- The branches of `toJson` for values without parts. A string is copied from a C string. -/
def leafToJson : StructuredLeaf → JsonLeaf
  | .null => .null
  | .boolean b => .boolean b
  | .int n => .int n.toInt64
  | .double d => .double d
  | .string s => .string s.toCString

mutual

/-- `toJson`. Its last branch, an error, is for what is not a structured value. -/
def toJson : StructuredTree → JsonObject
  | .leaf x => .leaf (leafToJson x)
  | .list ts => .list (toJsonList ts)
  | .record es => .record (LinkedHashMap.ofList (toJsonObject es)).toList

/-- `toJsonList`. -/
def toJsonList : List StructuredTree → List JsonObject
  | [] => []
  | t :: ts => toJson t :: toJsonList ts

/-- `toJsonObject`: what is added to the object with `json_object_object_add`, which replaces the
value of a key that is there. -/
def toJsonObject : List (Utf16 × StructuredTree) → List (Utf16 × JsonObject)
  | [] => []
  | (k, t) :: es => (k.toCString, toJson t) :: toJsonObject es

end

/-- The branches of `parseJson` for objects without parts. -/
def leafToStructured : JsonLeaf → StructuredLeaf
  | .null => .null
  | .boolean b => .boolean b
  | .int n => .int (json_object_get_int n)
  | .double d => .double d
  | .string s => .string s.cString

mutual

/-- `parseJson` of a `json_object`. -/
def parseObject : JsonObject → StructuredTree
  | .leaf x => .leaf (leafToStructured x)
  | .list ts => .list (toList ts)
  | .record es => .record (LinkedHashMap.ofList (toMap es)).toList

/-- `toList`. -/
def toList : List JsonObject → List StructuredTree
  | [] => []
  | t :: ts => parseObject t :: toList ts

/-- `toMap`: what is put into the map, one entry after the other. -/
def toMap : List (Utf16 × JsonObject) → List (Utf16 × StructuredTree)
  | [] => []
  | (k, t) :: es => (k.cString, parseObject t) :: toMap es

end

/-- `toJsonList` makes the object of each item. -/
theorem toJsonList_eq (ts : List StructuredTree) : toJsonList ts = ts.map toJson :=
  RecordTree.eq_map_of_cons rfl (fun _ _ => rfl) ts

/-- `toJsonObject` makes the object of each value, under the C string of its key. -/
theorem toJsonObject_eq (es : List (Utf16 × StructuredTree)) :
    toJsonObject es = es.map fun e => (e.1.toCString, toJson e.2) :=
  RecordTree.eq_map_of_cons rfl (fun _ _ => rfl) es

/-- `toList` makes the value of each item. -/
theorem toList_eq (ts : List JsonObject) : toList ts = ts.map parseObject :=
  RecordTree.eq_map_of_cons rfl (fun _ _ => rfl) ts

/-- `toMap` makes the value of each object, under the text of its key. -/
theorem toMap_eq (es : List (Utf16 × JsonObject)) :
    toMap es = es.map fun e => (e.1.cString, parseObject e.2) :=
  RecordTree.eq_map_of_cons rfl (fun _ _ => rfl) es

/-- `toJson` rebuilds a value with C strings for keys. -/
theorem toJson_eq (t : StructuredTree) : toJson t = t.rebuild Utf16.toCString leafToJson := by
  induction t using RecordTree.induction with
  | leaf x => rfl
  | list ts ih =>
    rw [toJson, toJsonList_eq, RecordTree.rebuild, RecordTree.rebuildList_eq,
      List.map_congr_left ih]
  | record es ih =>
    rw [toJson, toJsonObject_eq, RecordTree.rebuild, RecordTree.rebuildEntries_eq]
    congr 3
    exact List.map_congr_left fun e he => congrArg (Prod.mk e.1.toCString) (ih e he)

/-- `parseObject` rebuilds an object with the texts of its keys. -/
theorem parseObject_eq (v : JsonObject) :
    parseObject v = v.rebuild Utf16.cString leafToStructured := by
  induction v using RecordTree.induction with
  | leaf x => rfl
  | list ts ih =>
    rw [parseObject, toList_eq, RecordTree.rebuild, RecordTree.rebuildList_eq,
      List.map_congr_left ih]
  | record es ih =>
    rw [parseObject, toMap_eq, RecordTree.rebuild, RecordTree.rebuildEntries_eq]
    congr 3
    exact List.map_congr_left fun e he => congrArg (Prod.mk e.1.cString) (ih e he)

/-! ## json-c -/

/-- `JSON_TOKENER_DEFAULT_DEPTH`. -/
def JSON_TOKENER_DEFAULT_DEPTH : ℕ := 32

/-- What the conversions use of json-c. -/
structure JsonC (Text : Type) where
  /-- `json_object_to_json_string`, which is `none` for `NULL`. -/
  json_object_to_json_string : JsonObject → Option Text
  /-- `json_tokener_parse_verbose`, which is `none` if it reports an error. -/
  json_tokener_parse_verbose : Text → Option JsonObject

variable {Text : Type}

/-- `json_tokener_parse`: `NULL` if there is an error. -/
def JsonC.json_tokener_parse (c : JsonC Text) (str : Text) : JsonObject :=
  (c.json_tokener_parse_verbose str).getD (.leaf .null)

/-- The message of `writeJson` when json-c gives no text. -/
def serializingMessage (structuredObject : String) : String :=
  "Error while serializing " ++ structuredObject ++ " to JSON"

/-- `writeJson`. The `toString` of the value is for the message. -/
def writeJson (c : JsonC Text) (toString : Structured → String) (structuredObject : Structured) :
    Except String Text :=
  match c.json_object_to_json_string (toJson structuredObject.tree) with
  | some text => .ok text
  | none => .error (serializingMessage (toString structuredObject))

/-- `parseJson` of a text. No branch of it is an error. -/
def parseJson (c : JsonC Text) (jsonString : Text) : Except String StructuredTree :=
  .ok (parseObject (c.json_tokener_parse jsonString))

/-- The string is a text that a C string holds whole. -/
structure IsCText (s : Utf16) : Prop where
  wellFormed : s.WellFormed
  noNul : 0 ∉ s

/-- A text without NUL is not cut. -/
theorem IsCText.cString_eq {s : Utf16} (h : IsCText s) : s.cString = s :=
  Utf16.cString_eq_iff.mpr h.noNul

/-- A text without NUL is its C string. -/
theorem IsCText.toCString_eq {s : Utf16} (h : IsCText s) : s.toCString = s := by
  rw [h.wellFormed.toCString_eq, h.cString_eq]

/-- An object that json-c can write: its strings and keys are texts, and its doubles are finite. -/
structure Writable (v : JsonObject) : Prop where
  distinct : v.Distinct
  double : ∀ d, RecordTree.IsLeaf (.double d) v → d.IsFinite
  string : ∀ s, RecordTree.IsLeaf (.string s) v → IsCText s
  key : ∀ k, RecordTree.IsKey k v → IsCText k

/-- What json-c promises: it writes an object, and reads what it wrote back, a double as the same
one; but what has more levels than its limit, each value without parts being one, is an error. -/
structure JsonC.Lawful (c : JsonC Text) : Prop where
  writes : ∀ v, Writable v → ∃ str, c.json_object_to_json_string v = some str
  reads_back : ∀ v str, Writable v → c.json_object_to_json_string v = some str →
    v.levels ≤ JSON_TOKENER_DEFAULT_DEPTH →
    ∃ v', c.json_tokener_parse_verbose str = some v' ∧ RecordTree.Rel Eq v v'
  rejects : ∀ v str, Writable v → c.json_object_to_json_string v = some str →
    JSON_TOKENER_DEFAULT_DEPTH < v.levels → c.json_tokener_parse_verbose str = none

/-! ## What comes back -/

/-- An `Int` is read back as it was written. -/
theorem json_object_get_int_toInt64 (n : Int32) : json_object_get_int n.toInt64 = n := by
  have hlow := n.le_toInt
  have hhigh := n.toInt_lt
  unfold json_object_get_int
  rw [Int32.toInt_toInt64]
  split_ifs with hmin hmax
  · exact Int32.toInt_inj.mp (by rw [Int32.toInt_minValue]; omega)
  · exact Int32.toInt_inj.mp (by rw [Int32.toInt_maxValue]; omega)
  · exact Int32.toInt32_toInt64 n

/-- Strings and keys that are read end before a U+0000. -/
theorem noNul_of_isLeaf_parseObject {v : JsonObject} {s : Utf16}
    (h : RecordTree.IsLeaf (.string s) (parseObject v)) : 0 ∉ s := by
  rw [parseObject_eq] at h
  obtain ⟨x, -, hx⟩ := RecordTree.exists_of_isLeaf_rebuild h
  cases x with
  | string s' =>
    obtain rfl := StructuredLeaf.string.inj hx
    exact Utf16.zero_notMem_cString s'
  | null | boolean | int | double => cases hx

/-- No key that is read has a NUL. -/
theorem noNul_of_isKey_parseObject {v : JsonObject} {k : Utf16}
    (h : RecordTree.IsKey k (parseObject v)) : 0 ∉ k := by
  rw [parseObject_eq] at h
  obtain ⟨k', -, rfl⟩ := RecordTree.exists_of_isKey_rebuild h
  exact Utf16.zero_notMem_cString k'

/-- No string or key that is read has a NUL. -/
theorem everyText_parseObject (v : JsonObject) : (parseObject v).EveryText (0 ∉ ·) :=
  ⟨fun _ => noNul_of_isLeaf_parseObject, fun _ => noNul_of_isKey_parseObject⟩

/-- The object of a value whose strings and keys are texts: only its leaves are changed. -/
theorem toJson_eq_map {t : StructuredTree} (ht : t.Distinct) (htext : t.EveryText IsCText) :
    toJson t = t.map leafToJson := by
  rw [toJson_eq]
  exact RecordTree.rebuild_eq_map ht fun k hk => (htext.2 k hk).toCString_eq

/-- The object of a value whose strings and keys are texts can be written. -/
theorem writable_map {s : Structured} (htext : s.tree.EveryText IsCText) :
    Writable (s.tree.map leafToJson) where
  distinct := s.distinct.map leafToJson
  double d hd := by
    obtain ⟨x, hx, hxd⟩ := (RecordTree.rel_map leafToJson s.tree).exists_left hd
    cases x with
    | double d' =>
      obtain rfl := JsonLeaf.double.inj hxd
      exact s.finite _ hx
    | null | boolean | int | string => cases hxd
  string str hstr := by
    obtain ⟨x, hx, hxs⟩ := (RecordTree.rel_map leafToJson s.tree).exists_left hstr
    cases x with
    | string s' =>
      obtain rfl := JsonLeaf.string.inj hxs
      rw [(htext.1 s' hx).toCString_eq]
      exact htext.1 s' hx
    | null | boolean | int | double => cases hxs
  key k hk := htext.2 k (RecordTree.isKey_map_iff.mp hk)

/-- A leaf is read back from its object. -/
theorem leafToStructured_leafToJson {x : StructuredLeaf} (hx : ∀ s, x = .string s → IsCText s) :
    leafToStructured (leafToJson x) = x := by
  cases x with
  | int n => rw [leafToJson, leafToStructured, json_object_get_int_toInt64]
  | string s =>
    have hs := hx s rfl
    rw [leafToJson, leafToStructured, hs.toCString_eq, hs.cString_eq]
  | null | boolean | double => rfl

/-- An object of such a value, in whatever order its entries are, is read as the value. -/
theorem equals_parseObject {s : Structured} {v : JsonObject} (htext : s.tree.EveryText IsCText)
    (hv : RecordTree.Rel Eq (s.tree.map leafToJson) v) : s.tree.Equals (parseObject v) := by
  have hvd : v.Distinct := hv.distinct (s.distinct.map leafToJson)
  have hkey : ∀ k, RecordTree.IsKey k v → k.cString = k := by
    intro k hk
    exact (htext.2 k (RecordTree.isKey_map_iff.mp (hv.isKey_iff.mpr hk))).cString_eq
  rw [parseObject_eq, RecordTree.rebuild_eq_map hvd hkey]
  -- Leaf by leaf, the value is written, read and taken from the object.
  refine (((RecordTree.rel_map leafToJson s.tree).trans hv).trans
    (RecordTree.rel_map leafToStructured v)).imp ?_
  rintro x hx _ ⟨_, ⟨_, rfl, rfl⟩, rfl⟩
  refine (leafToStructured_leafToJson ?_).symm
  rintro str rfl
  exact htext.1 str hx

/-- What `writeJson` returns is what json-c wrote. -/
theorem eq_of_writeJson {c : JsonC Text} {toString : Structured → String} {s : Structured}
    {str : Text} (h : writeJson c toString s = .ok str) :
    c.json_object_to_json_string (toJson s.tree) = some str := by
  unfold writeJson at h
  split at h
  · rename_i text htext
    rwa [Except.ok.inj h] at htext
  · cases h

/-- A structured value of well-formed strings comes back from the JSON of a native target as it was
if and only if no string or key has a U+0000 in it, and the value is not nested deeper than the
limit of json-c. -/
theorem jsonC_roundTrip_iff {c : JsonC Text} (h : c.Lawful) (toString : Structured → String)
    (s : Structured) (hs : s.tree.EveryText Utf16.WellFormed) :
    (∃ str t, writeJson c toString s = .ok str ∧ parseJson c str = .ok t ∧ s.tree.Equals t) ↔
      s.tree.EveryText (0 ∉ ·) ∧ s.tree.levels ≤ JSON_TOKENER_DEFAULT_DEPTH := by
  constructor
  · rintro ⟨str, t, hstr, ht, heq⟩
    obtain rfl := Except.ok.inj ht
    -- What is read has no U+0000, so an equal value has none.
    have hnul : s.tree.EveryText (0 ∉ ·) := heq.everyText (everyText_parseObject _)
    have htext : s.tree.EveryText IsCText :=
      ⟨fun x hx => ⟨hs.1 x hx, hnul.1 x hx⟩, fun k hk => ⟨hs.2 k hk, hnul.2 k hk⟩⟩
    refine ⟨hnul, not_lt.mp fun hdeep => ?_⟩
    have hlevels := RecordTree.levels_map leafToJson s.tree
    have hrejected := h.rejects _ str (writable_map htext)
      (toJson_eq_map s.distinct htext ▸ eq_of_writeJson hstr) (hlevels ▸ hdeep)
    -- Rejected, it is read as `null`, which has one level.
    rw [JsonC.json_tokener_parse, hrejected] at heq
    have hone : s.tree.levels = 1 := heq.levels_eq
    rw [hone] at hdeep
    exact absurd hdeep (by decide)
  · rintro ⟨hnul, hlevels⟩
    have htext : s.tree.EveryText IsCText :=
      ⟨fun x hx => ⟨hs.1 x hx, hnul.1 x hx⟩, fun k hk => ⟨hs.2 k hk, hnul.2 k hk⟩⟩
    obtain ⟨str, hstr⟩ := h.writes _ (writable_map htext)
    obtain ⟨v, hv, hrel⟩ := h.reads_back _ str (writable_map htext) hstr
      (by rwa [RecordTree.levels_map])
    refine ⟨str, parseObject v, ?_, ?_, equals_parseObject htext hrel⟩
    · rw [writeJson, toJson_eq_map s.distinct htext, hstr]
    · rw [parseJson, JsonC.json_tokener_parse, hv, Option.getD_some]

/-! ## Rejected texts -/

/-- The text is a JSON document that json-c accepts. -/
def JsonC.AcceptsDocument (c : JsonC Text) (texts : JsonTexts Text) (t : Text) : Prop :=
  (∃ d, texts.Denotes t d) ∧ ∃ v, c.json_tokener_parse_verbose t = some v

/-- A caller of `parseJson` can tell: it gets `null` for the document `null` alone, and an error for
a text that is no document, or none that json-c accepts. -/
def JsonC.ReportsErrors (c : JsonC Text) (texts : JsonTexts Text) (t : Text) : Prop :=
  (parseJson c t = .ok (.leaf .null) ↔ texts.Denotes t (.leaf .null)) ∧
    (¬c.AcceptsDocument texts t → ∃ e, parseJson c t = .error e)

/-- What json-c promises of a document that it accepts: it is `NULL` if it is `null`, and only
then. -/
def JsonC.ReadsNull (c : JsonC Text) (texts : JsonTexts Text) : Prop :=
  ∀ t d v, texts.Denotes t d → c.json_tokener_parse_verbose t = some v →
    (v = .leaf .null ↔ d = .leaf .null)

/-- Only `NULL` is read as `null`. -/
theorem parseObject_eq_null_iff {v : JsonObject} :
    parseObject v = .leaf .null ↔ v = .leaf .null := by
  constructor
  · intro h
    cases v with
    | leaf x =>
      cases x with
      | null => rfl
      | boolean | int | double | string => cases h
    | list | record => cases h
  · rintro rfl
    rfl

/-- A text that json-c accepts is read as `null` if its object is `NULL`. -/
theorem parseJson_eq_null_iff {c : JsonC Text} {t : Text} {v : JsonObject}
    (h : c.json_tokener_parse_verbose t = some v) :
    parseJson c t = .ok (.leaf .null) ↔ v = .leaf .null := by
  rw [parseJson, JsonC.json_tokener_parse, h, Option.getD_some, Except.ok.injEq,
    parseObject_eq_null_iff]

/-- A text that json-c rejects is read as `null`. -/
theorem parseJson_of_rejected {c : JsonC Text} {t : Text}
    (h : c.json_tokener_parse_verbose t = none) : parseJson c t = .ok (.leaf .null) := by
  rw [parseJson, JsonC.json_tokener_parse, h]
  rfl

/-- `null` and errors are told apart exactly for the documents that json-c accepts: every other text
is taken for a value, and those that json-c rejects for `null`. -/
theorem reportsErrors_iff {c : JsonC Text} {texts : JsonTexts Text} (h : c.ReadsNull texts)
    (t : Text) : c.ReportsErrors texts t ↔ c.AcceptsDocument texts t := by
  constructor
  · rintro ⟨-, hreport⟩
    -- `parseJson` raises no error at all.
    by_contra hreject
    obtain ⟨e, he⟩ := hreport hreject
    cases he
  · intro haccepts
    obtain ⟨⟨d, hd⟩, v, hv⟩ := id haccepts
    refine ⟨(parseJson_eq_null_iff hv).trans ⟨fun hnull => ?_, fun hnull => ?_⟩, fun hreject => ?_⟩
    · exact (h t d v hd hv).mp hnull ▸ hd
    · exact (h t _ v hnull hv).mpr rfl
    · exact absurd haccepts hreject

/-! ## A concrete json-c -/

/-- A number as an `Int64`, the nearest one if it is out of range. -/
def saturate (n : ℤ) : Int64 := Int64.ofInt (max (-2 ^ 63) (min n (2 ^ 63 - 1)))

/-- A number in range stays. -/
theorem saturate_toInt (n : Int64) : saturate n.toInt = n := by
  have hlow := n.le_toInt
  have hhigh := n.toInt_lt
  rw [saturate, min_eq_left (by omega), max_eq_right hlow, Int64.ofInt_toInt]

namespace SampleJsonC

/-- The token that an object without parts is written as. -/
def token : JsonLeaf → JsonToken
  | .null => .null
  | .boolean b => .boolean b
  | .int n => .number (.ofInt n.toInt)
  | .double d => .number (jsonCLiteral d)
  | .string s => .string s

/-- The object that a token is read as. -/
def object : JsonToken → JsonLeaf
  | .null => .null
  | .boolean b => .boolean b
  | .number l => if l.IsInteger then .int (saturate l.toInt) else .double l.toDouble
  | .string s => .string s.repair

/-- A json-c whose texts are documents, or no documents. -/
def jsonC : JsonC (Option Document) where
  json_object_to_json_string v := some (some (v.map token))
  json_tokener_parse_verbose str := str.bind fun d =>
    if d.levels ≤ JSON_TOKENER_DEFAULT_DEPTH then some (d.rebuild Utf16.toCString object) else none

/-- An object without parts is read back from its token. -/
theorem object_token {x : JsonLeaf} (hdouble : ∀ d, x = .double d → d.IsFinite)
    (hstring : ∀ s, x = .string s → IsCText s) : object (token x) = x := by
  cases x with
  | int n =>
    rw [token, object, if_pos ⟨rfl, rfl⟩, NumberLiteral.toInt_ofInt, saturate_toInt]
  | double d =>
    have hfin := hdouble d rfl
    rw [token, object, if_neg (not_isInteger_jsonCLiteral d),
      NumberLiteral.toDouble_eq (rounds_jsonCLiteral hfin) hfin (negative_jsonCLiteral d)]
  | string s => rw [token, object, (hstring s rfl).wellFormed]
  | null | boolean => rfl

/-- The json-c of the sample is lawful. -/
theorem lawful : jsonC.Lawful where
  writes v _ := ⟨_, rfl⟩
  reads_back v str hv hstr hlevels := by
    obtain rfl := Option.some.inj hstr
    have hkey : ∀ k, RecordTree.IsKey k (v.map token) → k.toCString = k := fun k hk =>
      (hv.key k (RecordTree.isKey_map_iff.mp hk)).toCString_eq
    refine ⟨(v.map token).map object, ?_, ?_⟩
    · rw [← RecordTree.rebuild_eq_map (hv.distinct.map token) hkey]
      exact if_pos ((RecordTree.levels_map token v).trans_le hlevels)
    · refine ((RecordTree.rel_map token v).trans (RecordTree.rel_map object _)).imp ?_
      rintro x hx _ ⟨_, rfl, rfl⟩
      refine (object_token ?_ ?_).symm
      · rintro d rfl
        exact hv.double d hx
      · rintro s rfl
        exact hv.string s hx
  rejects v str _ hstr hlevels := by
    obtain rfl := Option.some.inj hstr
    exact if_neg (not_le.mpr (hlevels.trans_eq (RecordTree.levels_map token v).symm))

end SampleJsonC

/-- The list comes back. -/
theorem jsonC_roundTrip_list :
    ∃ str t, writeJson SampleJsonC.jsonC (fun _ => "a list") sampleList = .ok str ∧
      parseJson SampleJsonC.jsonC str = .ok t ∧ sampleList.tree.Equals t := by
  have htext : sampleList.tree.EveryText fun s => s.WellFormed ∧ 0 ∉ s := by
    constructor
    · intro s hs
      obtain rfl : s = .ascii "x" := by simpa [sampleList] using hs
      decide
    · intro k hk
      obtain rfl | rfl : k = .ascii "a" ∨ k = .ascii "b" := by simpa [sampleList] using hk
      · decide
      · decide
  exact (jsonC_roundTrip_iff SampleJsonC.lawful _ sampleList
    ⟨fun s hs => (htext.1 s hs).1, fun k hk => (htext.2 k hk).1⟩).mpr
    ⟨⟨fun s hs => (htext.1 s hs).2, fun k hk => (htext.2 k hk).2⟩, by decide⟩

/-- The string "a", U+0000, "b" as a value. -/
def sampleNul : Structured where
  tree := .leaf (.string [0x61, 0, 0x62])
  distinct := .leaf _
  finite d hd := by simp at hd

/-- It comes back as "a". -/
theorem jsonC_nul :
    SampleJsonC.jsonC.Lawful ∧ sampleNul.tree.EveryText Utf16.WellFormed ∧
      (∃ str, writeJson SampleJsonC.jsonC (fun _ => "a string") sampleNul = .ok str ∧
        parseJson SampleJsonC.jsonC str = .ok (.leaf (.string (.ascii "a")))) ∧
      ¬sampleNul.tree.Equals (.leaf (.string (.ascii "a"))) := by
  refine ⟨SampleJsonC.lawful, ⟨fun s hs => ?_, fun k hk => by cases hk⟩, ⟨_, rfl, rfl⟩, ?_⟩
  · obtain rfl : s = [0x61, 0, 0x62] := by simpa [sampleNul] using hs
    decide
  · rintro ⟨⟨⟩⟩

/-- Its documents are read by their kind. -/
theorem SampleJsonC.readsNull : SampleJsonC.jsonC.ReadsNull SampleTexts.texts := by
  rintro _ d v rfl hv
  obtain ⟨-, hv⟩ := Option.ite_none_right_eq_some.mp hv
  obtain rfl := Option.some.inj hv
  cases d with
  | leaf x =>
    cases x with
    | null => exact iff_of_true rfl rfl
    | boolean | string => simp [RecordTree.rebuild, SampleJsonC.object]
    | number l =>
      rw [RecordTree.rebuild, SampleJsonC.object]
      split_ifs <;> simp
  | list | record => simp [RecordTree.rebuild]

/-- The document `true` is told apart from `null`. -/
theorem reportsErrors_true :
    SampleJsonC.jsonC.ReportsErrors SampleTexts.texts (some (.leaf (.boolean true))) :=
  (reportsErrors_iff SampleJsonC.readsNull _).mpr ⟨⟨_, rfl⟩, _, rfl⟩

/-- A text that is no document is rejected, and read as `null` without an error. -/
theorem malformed_null :
    SampleJsonC.jsonC.ReadsNull SampleTexts.texts ∧ (∀ d, ¬SampleTexts.texts.Denotes none d) ∧
      SampleJsonC.jsonC.json_tokener_parse_verbose none = none ∧
      parseJson SampleJsonC.jsonC none = .ok (.leaf .null) ∧
      ¬SampleJsonC.jsonC.ReportsErrors SampleTexts.texts none := by
  refine ⟨SampleJsonC.readsNull, nofun, rfl, rfl, ?_⟩
  rintro ⟨hnull, -⟩
  cases hnull.mp rfl

end Native

end Khala
