import Khala.Serialization.Structured

/-!
# JSON on the JVM

`writeJson` and `parseJson` of the JVM go through org.json: a structured value is turned into the
objects of that library, which writes them as a text and reads them back, and the objects that it
reads are turned into a structured value again. org.json is not part of the repository. `OrgJson` is
what the two functions use of it, and `OrgJson.Lawful` what it promises.

The round trip fails at doubles. A whole double is written without its fraction and read as an
`Integer`; and org.json may read a decimal literal as a `BigDecimal`, which `parsedToStructured`
does not take. `json_roundTrip_iff` says that nothing else goes wrong.
-/

namespace Khala

namespace Jvm

/-! ## The objects of org.json -/

/-- A `java.lang.Number`, of a class that org.json reads numbers as. -/
inductive JsonNumber where
  /-- `java.lang.Integer`. -/
  | integer (n : Int32)
  /-- `java.lang.Long`. -/
  | long (n : Int64)
  /-- `java.math.BigInteger`. -/
  | bigInteger (n : ℤ)
  /-- `java.lang.Double`. -/
  | double (d : Double)
  /-- `java.math.BigDecimal`, as the string that it converts to. -/
  | bigDecimal (text : String)
deriving DecidableEq

/-- An object of org.json without parts. -/
inductive JsonLeaf where
  /-- `JSONObject.NULL`. -/
  | null
  /-- `java.lang.Boolean`. -/
  | boolean (b : Bool)
  /-- `java.lang.Number`. -/
  | number (n : JsonNumber)
  /-- `java.lang.String`. -/
  | string (s : Utf16)
deriving DecidableEq

/-- An object of org.json: a list is a `JSONArray`, a record a `JSONObject`, with its entries in the
order of its `keys()`. -/
abbrev JsonValue : Type := RecordTree Utf16 JsonLeaf

/-! ## The conversions -/

/-- The branches of `structuredToJson` for values without parts: `null` is `JSONObject.NULL`, the
others are taken as they are. -/
def leafToJson : StructuredLeaf → JsonLeaf
  | .null => .null
  | .boolean b => .boolean b
  | .int n => .number (.integer n)
  | .double d => .number (.double d)
  | .string s => .string s

mutual

/-- `structuredToJson`. Its last branch, an error, is for what is not a structured value. -/
def structuredToJson : StructuredTree → JsonValue
  | .leaf x => .leaf (leafToJson x)
  | .list ts => .list (structuredToArray ts)
  | .record es => .record (structuredToObject es)

/-- `structuredToArray`. -/
def structuredToArray : List StructuredTree → List JsonValue
  | [] => []
  | t :: ts => structuredToJson t :: structuredToArray ts

/-- `structuredToObject`. -/
def structuredToObject : List (Utf16 × StructuredTree) → List (Utf16 × JsonValue)
  | [] => []
  | (k, t) :: es => (k, structuredToJson t) :: structuredToObject es

end

/-- The message of `parsedToStructured` about an object that it does not take. -/
def unsupportedMessage (parsed : String) : String := "Can't serialize " ++ parsed ++ " to JSON"

/-- The branches of `parsedToStructured` for objects without parts. -/
def leafToStructured : JsonLeaf → Except String StructuredLeaf
  | .null => .ok .null
  | .boolean b => .ok (.boolean b)
  | .number (.integer n) => .ok (.int n)
  | .number (.double d) => .ok (.double d)
  | .string s => .ok (.string s)
  | .number (.long n) => .error (unsupportedMessage (toString n))
  | .number (.bigInteger n) => .error (unsupportedMessage (toString n))
  | .number (.bigDecimal text) => .error (unsupportedMessage text)

mutual

/-- `parsedToStructured`. -/
def parsedToStructured : JsonValue → Except String StructuredTree
  | .leaf x => do
    let y ← leafToStructured x
    return .leaf y
  | .list ts => do
    let us ← jsonArrayToStructured ts
    return .list us
  | .record es => do
    let fs ← jsonObjectToStructured es
    return .record fs

/-- `jsonArrayToStructured`. -/
def jsonArrayToStructured : List JsonValue → Except String (List StructuredTree)
  | [] => return []
  | t :: ts => do
    let u ← parsedToStructured t
    let us ← jsonArrayToStructured ts
    return u :: us

/-- `jsonObjectToStructured`: the keys of a `JSONObject` are distinct, so each is put once. -/
def jsonObjectToStructured :
    List (Utf16 × JsonValue) → Except String (List (Utf16 × StructuredTree))
  | [] => return []
  | (k, t) :: es => do
    let u ← parsedToStructured t
    let fs ← jsonObjectToStructured es
    return (k, u) :: fs

end

/-- `structuredToArray` makes the value of each item. -/
theorem structuredToArray_eq (ts : List StructuredTree) :
    structuredToArray ts = ts.map structuredToJson :=
  RecordTree.eq_map_of_cons rfl (fun _ _ => rfl) ts

/-- `structuredToObject` makes the value of each entry. -/
theorem structuredToObject_eq (es : List (Utf16 × StructuredTree)) :
    structuredToObject es = es.map fun e => (e.1, structuredToJson e.2) :=
  RecordTree.eq_map_of_cons rfl (fun _ _ => rfl) es

/-- `structuredToJson` changes the leaves only. -/
theorem structuredToJson_eq (t : StructuredTree) : structuredToJson t = t.map leafToJson := by
  induction t using RecordTree.induction with
  | leaf x => rfl
  | list ts ih =>
    rw [structuredToJson, structuredToArray_eq, RecordTree.map, RecordTree.mapList_eq,
      List.map_congr_left ih]
  | record es ih =>
    rw [structuredToJson, structuredToObject_eq, RecordTree.map, RecordTree.mapEntries_eq]
    congr 1
    exact List.map_congr_left fun e he => congrArg (Prod.mk e.1) (ih e he)

/-- `parsedToStructured` reads the leaves, and fails if one of them cannot be read. -/
theorem parsedToStructured_eq (t : JsonValue) :
    parsedToStructured t = t.traverse leafToStructured := by
  induction t using RecordTree.induction with
  | leaf x => rfl
  | list ts ih =>
    -- The items are traversed one after the other, so this is an induction of its own.
    have hts : jsonArrayToStructured ts = RecordTree.traverseList leafToStructured ts := by
      induction ts with
      | nil => rfl
      | cons t ts ihts =>
        rw [List.forall_mem_cons] at ih
        rw [jsonArrayToStructured, ih.1, ihts ih.2, RecordTree.traverseList]
    rw [parsedToStructured, hts]
    rfl
  | record es ih =>
    have hes : jsonObjectToStructured es = RecordTree.traverseEntries leafToStructured es := by
      induction es with
      | nil => rfl
      | cons e es ihes =>
        rw [List.forall_mem_cons] at ih
        rw [jsonObjectToStructured, ih.1, ihes ih.2, RecordTree.traverseEntries]
    rw [parsedToStructured, hes]
    rfl

/-! ## org.json -/

/-- An integer as a `Number` of the smallest class. -/
def JsonNumber.ofInt (n : ℤ) : JsonNumber :=
  if -2 ^ 31 ≤ n ∧ n < 2 ^ 31 then .integer (Int32.ofInt n)
  else if -2 ^ 63 ≤ n ∧ n < 2 ^ 63 then .long (Int64.ofInt n)
  else .bigInteger n

/-- What the conversions use of org.json, and of `java.lang.Double` through it. -/
structure OrgJson (Text : Type) where
  /-- `Double.toString`. -/
  doubleToString : Double → NumberLiteral
  /-- `JSONObject.stringToNumber`. -/
  stringToNumber : NumberLiteral → JsonNumber
  /-- `JSONStringer.valueToString`. -/
  valueToString : JsonValue → Text
  /-- `JSONTokener(jsonString).nextValue()`. -/
  nextValue : Text → Except String JsonValue

variable {Text : Type}

/-- `JSONObject.numberToString` of a double. -/
def OrgJson.doubleLiteral (org : OrgJson Text) (d : Double) : NumberLiteral :=
  (org.doubleToString d).shave

/-- What becomes of an object without parts when it is written and read. Only the numbers that
`structuredToJson` leaves are of interest. -/
def OrgJson.Rereads (org : OrgJson Text) : JsonLeaf → JsonLeaf → Prop
  | .null, y => y = .null
  | .boolean b, y => y = .boolean b
  | .string s, y => y = .string s
  | .number (.integer n), y => y = .number (org.stringToNumber (.ofInt n.toInt))
  | .number (.double d), y => y = .number (org.stringToNumber (org.doubleLiteral d))
  | .number _, _ => True

/-- What org.json promises: it writes and reads strings, arrays and objects faithfully, but for the
order of the entries of an object. An integer literal is read as a number of the smallest class; a
small whole double is written as an integer with the fraction `.0`; and the literal of a finite
double, if it is read as a double, is read as the same one. -/
structure OrgJson.Lawful (org : OrgJson Text) : Prop where
  reads_back : ∀ v : JsonValue, v.Distinct →
    (∀ d, RecordTree.IsLeaf (.number (.double d)) v → d.IsFinite) →
    ∃ v', org.nextValue (org.valueToString v) = .ok v' ∧ RecordTree.Rel org.Rereads v v'
  stringToNumber_ofInt : ∀ n, org.stringToNumber (.ofInt n) = .ofInt n
  doubleToString_whole : ∀ d n, d.natAbs? = some n → n < 10000000 →
    org.doubleToString d = { negative := d.negative, whole := n, fraction := [0] }
  stringToNumber_doubleLiteral : ∀ d d', d.IsFinite →
    org.stringToNumber (org.doubleLiteral d) = .double d' → d' = d

/-- `writeJson`. -/
def writeJson (org : OrgJson Text) (structuredObject : Structured) : Text :=
  org.valueToString (structuredToJson structuredObject.tree)

/-- `parseJson`. -/
def parseJson (org : OrgJson Text) (jsonString : Text) : Except String StructuredTree := do
  let parsed ← org.nextValue jsonString
  parsedToStructured parsed

/-- org.json reads the literal of a double as a `java.lang.Double`, not as a `BigDecimal`. -/
def OrgJson.ReadsDouble (org : OrgJson Text) (d : Double) : Prop :=
  ∃ d', org.stringToNumber (org.doubleLiteral d) = .double d'

/-! ## Leaves there and back -/

/-- The object that org.json reads for a value without parts that was written. -/
def OrgJson.reread (org : OrgJson Text) : StructuredLeaf → JsonLeaf
  | .null => .null
  | .boolean b => .boolean b
  | .int n => .number (.integer n)
  | .double d => .number (org.stringToNumber (org.doubleLiteral d))
  | .string s => .string s

/-- An `Int` is read as an `Integer`. -/
theorem JsonNumber.ofInt_toInt (n : Int32) : JsonNumber.ofInt n.toInt = .integer n := by
  rw [JsonNumber.ofInt, if_pos ⟨n.le_toInt, n.toInt_lt⟩, Int32.ofInt_toInt]

/-- No integer is read as a `Double`. -/
theorem JsonNumber.ofInt_ne_double (n : ℤ) (d : Double) : JsonNumber.ofInt n ≠ .double d := by
  unfold JsonNumber.ofInt
  split_ifs <;> simp

section Lawful

variable {org : OrgJson Text} (h : org.Lawful)
include h

/-- What a lawful org.json reads of a written leaf. -/
theorem rereads_iff (x : StructuredLeaf) (y : JsonLeaf) :
    org.Rereads (leafToJson x) y ↔ y = org.reread x := by
  cases x with
  | int n => rw [leafToJson, OrgJson.Rereads, h.stringToNumber_ofInt, JsonNumber.ofInt_toInt]; rfl
  | null | boolean | double | string => rfl

/-- The literal of a small whole double has no fraction: it is an integer, and read as one. -/
theorem stringToNumber_of_isSmallWhole {d : Double} (hd : d.IsSmallWhole) :
    ∃ n, org.stringToNumber (org.doubleLiteral d) = .ofInt n := by
  obtain ⟨n, hn, hd, hz⟩ := hd
  refine ⟨if d.negative then -n else n, ?_⟩
  rw [OrgJson.doubleLiteral, h.doubleToString_whole d n hd hn, ← h.stringToNumber_ofInt]
  congr 1
  -- `shave` takes off the `.0`. The literal of `-0.0` is left out: `-0` is no integer's.
  cases hneg : d.negative with
  | false => simp [NumberLiteral.shave, NumberLiteral.ofInt, List.rdropWhile]
  | true =>
    have hpos : 0 < n := Nat.pos_of_ne_zero fun h0 => hz ⟨h0, hneg⟩
    simp [NumberLiteral.shave, NumberLiteral.ofInt, List.rdropWhile, hpos]

/-- A leaf is kept if it is no small whole `Double`, and org.json reads a `Double` as one. -/
theorem leaf_roundTrip_iff {x : StructuredLeaf} (hx : ∀ d, x = .double d → d.IsFinite) :
    leafToStructured (org.reread x) = .ok x ↔
      ∀ d, x = .double d → ¬d.IsSmallWhole ∧ org.ReadsDouble d := by
  cases x with
  | null | boolean | int | string => simp [OrgJson.reread, leafToStructured]
  | double d =>
    simp only [OrgJson.reread, StructuredLeaf.double.injEq, forall_eq']
    constructor
    · intro hd
      -- Only a `java.lang.Double` is taken back as a double.
      have hr : org.stringToNumber (org.doubleLiteral d) = .double d := by
        cases hr : org.stringToNumber (org.doubleLiteral d) <;>
          simp_all [leafToStructured]
      refine ⟨fun hw => ?_, d, hr⟩
      obtain ⟨n, hn⟩ := stringToNumber_of_isSmallWhole h hw
      exact JsonNumber.ofInt_ne_double n d (hn.symm.trans hr)
    · rintro ⟨-, d', hd'⟩
      rw [hd', h.stringToNumber_doubleLiteral d d' (hx d rfl) hd', leafToStructured]

end Lawful

/-! ## The round trip -/

/-- A structured value comes back from the JSON of the JVM as it was if and only if none of its
doubles is a small whole number, and org.json reads the literal of each as a double. -/
theorem json_roundTrip_iff {org : OrgJson Text} (h : org.Lawful) (s : Structured) :
    (∃ t, parseJson org (writeJson org s) = .ok t ∧ s.tree.Equals t) ↔
      ∀ d, RecordTree.IsLeaf (.double d) s.tree → ¬d.IsSmallWhole ∧ org.ReadsDouble d := by
  have hdistinct : (structuredToJson s.tree).Distinct := by
    rw [structuredToJson_eq]
    exact s.distinct.map leafToJson
  have hfinite : ∀ d, RecordTree.IsLeaf (.number (.double d)) (structuredToJson s.tree) →
      d.IsFinite := by
    intro d hd
    rw [structuredToJson_eq] at hd
    obtain ⟨x, hx, hxd⟩ := (RecordTree.rel_map leafToJson s.tree).exists_left hd
    cases x with
    | double d' =>
      obtain rfl : d = d' := by simpa [leafToJson] using hxd
      exact s.finite d hx
    | null | boolean | int | string => simp [leafToJson] at hxd
  obtain ⟨v, hv, hrel⟩ := h.reads_back _ hdistinct hfinite
  -- What org.json reads is the value with its leaves reread, its entries in any order.
  have hs : RecordTree.Rel (fun x y => y = org.reread x) s.tree v := by
    rw [structuredToJson_eq] at hrel
    refine ((RecordTree.rel_map leafToJson s.tree).trans hrel).imp ?_
    rintro x - y ⟨_, rfl, hy⟩
    exact (rereads_iff h x y).mp hy
  have hparse : parseJson org (writeJson org s) = v.traverse leafToStructured := by
    rw [parseJson, writeJson, hv, ← parsedToStructured_eq]
    rfl
  rw [hparse]
  refine (RecordTree.traverse_rel_iff s.distinct hs).trans ?_
  constructor
  · intro hx d hd
    exact (leaf_roundTrip_iff h (by rintro _ ⟨⟩; exact s.finite d hd)).mp (hx _ hd) d rfl
  · intro hd x hx
    refine (leaf_roundTrip_iff h ?_).mpr ?_
    · rintro d rfl
      exact s.finite d hx
    · rintro d rfl
      exact hd d hx

/-! ## A concrete org.json -/

namespace SampleJson

/-- How many characters a literal has. -/
def length (l : NumberLiteral) : ℕ :=
  (if l.negative then 1 else 0) + (Nat.log 10 l.whole + 1) +
    (if l.fraction = [] then 0 else l.fraction.length + 1) +
    l.exponent.elim 0 fun e => (if e < 0 then 2 else 1) + (Nat.log 10 e.natAbs + 1)

/-- `BigDecimal.toString` of the number of a literal. -/
def bigDecimalToString (l : NumberLiteral) : String :=
  let digits := (toString l.unscaled).toList
  let scale := -l.scale
  let adjusted := digits.length - 1 - scale
  let sign := if l.negative then "-" else ""
  if 0 ≤ scale ∧ -6 ≤ adjusted then
    let digits := List.replicate (scale.toNat + 1 - digits.length) '0' ++ digits
    let whole := digits.take (digits.length - scale.toNat)
    let fraction := digits.drop (digits.length - scale.toNat)
    sign ++ String.ofList whole ++ if fraction = [] then "" else "." ++ String.ofList fraction
  else
    let fraction := digits.drop 1
    sign ++ String.ofList (digits.take 1) ++
      (if fraction = [] then "" else "." ++ String.ofList fraction) ++
      "E" ++ (if 0 < adjusted then "+" else "") ++ toString adjusted

/-- `JSONObject.stringToNumber`, as the versions of org.json have it that read decimal literals of
14 characters at most as a `Double`, if it is finite, and others as a `BigDecimal`. -/
def stringToNumber (l : NumberLiteral) : JsonNumber :=
  if l = negativeZeroLiteral then .double .negativeZero
  else if l.IsInteger then .ofInt l.toInt
  else if length l ≤ 14 ∧ l.toDouble.IsFinite then .double l.toDouble
  else .bigDecimal (bigDecimalToString l)

/-- The token that an object without parts is written as. `structuredToJson` leaves no numbers but
`Int`s and doubles. -/
def token : JsonLeaf → JsonToken
  | .null => .null
  | .boolean b => .boolean b
  | .number (.integer n) => .number (.ofInt n.toInt)
  | .number (.double d) => .number (javaLiteral d).shave
  | .number _ => .null
  | .string s => .string s

/-- The object that a token is read as. -/
def object : JsonToken → JsonLeaf
  | .null => .null
  | .boolean b => .boolean b
  | .number literal => .number (stringToNumber literal)
  | .string s => .string s

/-- An org.json whose texts are trees of tokens. -/
def org : OrgJson Document where
  doubleToString := javaLiteral
  stringToNumber := stringToNumber
  valueToString v := v.map token
  nextValue t := .ok (t.map object)

/-- Whole numbers are read as whole numbers. -/
theorem stringToNumber_ofInt (n : ℤ) : stringToNumber (.ofInt n) = .ofInt n := by
  rw [stringToNumber, if_neg (NumberLiteral.ofInt_ne_negativeZeroLiteral n), if_pos ⟨rfl, rfl⟩,
    NumberLiteral.toInt_ofInt]

/-- What is read as a double is read as that of the literal. -/
theorem eq_toDouble_of_stringToNumber {l : NumberLiteral} {d : Double}
    (h : stringToNumber l = .double d) : d = l.toDouble := by
  unfold stringToNumber at h
  split_ifs at h with hzero
  · rw [hzero, NumberLiteral.toDouble_negativeZeroLiteral, JsonNumber.double.inj h]
  · exact absurd h (JsonNumber.ofInt_ne_double _ d)
  · exact (JsonNumber.double.inj h).symm

/-- A decimal literal is read as its double, or as a `BigDecimal`. -/
theorem stringToNumber_of_not_isInteger {l : NumberLiteral} (hl : ¬l.IsInteger) :
    stringToNumber l = .double l.toDouble ∨ ∃ text, stringToNumber l = .bigDecimal text := by
  have hne : l ≠ negativeZeroLiteral := by
    rintro rfl
    exact hl ⟨rfl, rfl⟩
  rw [stringToNumber, if_neg hne, if_neg hl]
  split_ifs
  · exact .inl rfl
  · exact .inr ⟨_, rfl⟩

/-- The org.json of the sample is lawful. -/
theorem lawful : org.Lawful where
  reads_back v _ _ := by
    refine ⟨_, rfl, ((RecordTree.rel_map token v).trans (RecordTree.rel_map object _)).imp ?_⟩
    rintro x - _ ⟨_, rfl, rfl⟩
    obtain _ | _ | (_ | _ | _ | _ | _) | _ := x <;> first | rfl | trivial
  stringToNumber_ofInt := stringToNumber_ofInt
  doubleToString_whole d n hd hn := by
    have hwhole : wholeBelow d 10000000 = some n := wholeBelow_eq_some_iff.mpr ⟨hd, hn⟩
    simp only [org, javaLiteral, hwhole, NumberLiteral.pointZero]
  stringToNumber_doubleLiteral d d' hd hd' := by
    rw [eq_toDouble_of_stringToNumber hd']
    refine NumberLiteral.toDouble_eq ?_ hd ?_
    · rw [OrgJson.doubleLiteral, NumberLiteral.toRat_shave]
      exact rounds_javaLiteral hd
    · rw [OrgJson.doubleLiteral, NumberLiteral.negative_shave]
      exact negative_javaLiteral d

end SampleJson

/-- The one double of the sample. -/
theorem eq_oneAndHalf_of_isLeaf {d : Double}
    (h : RecordTree.IsLeaf (.double d) sampleList.tree) : d = oneAndHalf := by
  simpa [sampleList] using h

/-- It comes back. -/
theorem json_roundTrip_list :
    ∃ t, parseJson SampleJson.org (writeJson SampleJson.org sampleList) = .ok t ∧
      sampleList.tree.Equals t := by
  refine (json_roundTrip_iff SampleJson.lawful sampleList).mpr fun d hd => ?_
  obtain rfl := eq_oneAndHalf_of_isLeaf hd
  have hread : SampleJson.org.stringToNumber (SampleJson.org.doubleLiteral oneAndHalf) =
      .double oneAndHalf := by
    decide +kernel
  refine ⟨?_, oneAndHalf, hread⟩
  rintro ⟨n, -, hn, -⟩
  rw [show oneAndHalf.natAbs? = none by decide] at hn
  cases hn

/-- The double 1.0 as a value. -/
def sampleOne : Structured where
  tree := .leaf (.double one)
  distinct := .leaf _
  finite d hd := by
    obtain rfl : d = one := by simpa using hd
    decide

/-- The double 1.0 comes back as the int 1. -/
theorem json_one :
    SampleJson.org.Lawful ∧
      parseJson SampleJson.org (writeJson SampleJson.org sampleOne) = .ok (.leaf (.int 1)) ∧
      ¬sampleOne.tree.Equals (.leaf (.int 1)) := by
  refine ⟨SampleJson.lawful, rfl, ?_⟩
  rintro ⟨⟨⟩⟩

end Jvm

end Khala
