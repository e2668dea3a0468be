import Khala.Serialization.Agreement
import Khala.Zmq.Bindings

/-!
# The JSON libraries of the platforms together

A structured value that one platform writes is parsed on another one, through two libraries that
know nothing of each other. `JsonLibraries` is what the platforms use of the three, with what they
promise of the texts that they write (`JsonLibraries.Writes`) and read (`JsonLibraries.Reads`).
What a value means is that of its leaves, a number by its value: on JS an `Int` and a `Double` are
both numbers, and the JVM writes a small whole double as an integer.

Of org.json it is not assumed that it reads a decimal literal as a double; it may make a
`BigDecimal` of it.
-/

namespace Khala

/-! ## Values of the platforms -/

/-- What a structured value means. -/
abbrev Meaning : Type := RecordTree Utf16 Scalar

/-- A structured value on one of the platforms. -/
inductive PlatformValue where
  | jvm (s : Structured)
  | native (s : Structured)
  | js (s : Js.Structured)

namespace PlatformValue

/-- The platform that the value is on. -/
def platform : PlatformValue → Platform
  | .jvm _ => .jvm
  | .native _ => .native
  | .js _ => .js

/-- What the value means. -/
def meaning : PlatformValue → Meaning
  | .jvm s => s.tree.map StructuredLeaf.scalar
  | .native s => s.tree.map StructuredLeaf.scalar
  | .js s => s.tree.map Js.Primitive.scalar

end PlatformValue

/-- The token of a value without parts, if a double is written as this literal. -/
def StructuredLeaf.token (literal : Double → NumberLiteral) : StructuredLeaf → JsonToken
  | .null => .null
  | .boolean b => .boolean b
  | .int n => .number (.ofInt n.toInt)
  | .double d => .number (literal d)
  | .string s => .string s

/-- The token of a value of JS without parts, if a number is written as this literal. -/
def Js.Primitive.token (literal : Double → NumberLiteral) : Js.Primitive → JsonToken
  | .null => .null
  | .boolean b => .boolean b
  | .number d => .number (literal d)
  | .string s => .string s

/-- The token of a `json_object` without parts, if a double is written as this literal. -/
def Native.JsonLeaf.token (literal : Double → NumberLiteral) : Native.JsonLeaf → JsonToken
  | .null => .null
  | .boolean b => .boolean b
  | .int n => .number (.ofInt n.toInt)
  | .double d => .number (literal d)
  | .string s => .string s

/-- The token of an object of org.json without parts. Only the numbers that `structuredToJson`
leaves are of interest. -/
def Jvm.OrgJson.Prints {Text : Type} (org : Jvm.OrgJson Text) : Jvm.JsonLeaf → JsonToken → Prop
  | .null, y => y = .null
  | .boolean b, y => y = .boolean b
  | .string s, y => y = .string s
  | .number (.integer n), y => y = .number (.ofInt n.toInt)
  | .number (.double d), y => y = .number (org.doubleLiteral d)
  | .number _, _ => True

/-! ## The libraries of the platforms -/

/-- The libraries of the three platforms. -/
structure JsonLibraries (Text : Type) where
  org : Jvm.OrgJson Text
  jsonC : Native.JsonC Text
  engine : Js.Engine Text
  /-- The literal that json-c writes for a double. -/
  jsonCLiteral : Double → NumberLiteral
  /-- The literal that `JSON.stringify` writes for a number. -/
  engineLiteral : Double → NumberLiteral
  /-- The `toString` of a value, for the message of the native `writeJson`. -/
  toString : Structured → String

section Exchange

variable {Text : Type} (texts : JsonTexts Text) (L : JsonLibraries Text)

namespace JsonLibraries

/-- The literal that a platform's library writes for a double. -/
def literal : Platform → Double → NumberLiteral
  | .jvm => L.org.doubleLiteral
  | .native => L.jsonCLiteral
  | .js => L.engineLiteral

/-- `writeJson` of the platform that the value is on. -/
def writeJson : PlatformValue → Except String Text
  | .jvm s => .ok (Jvm.writeJson L.org s)
  | .native s => Native.writeJson L.jsonC L.toString s
  | .js s => .ok (Js.writeJson L.engine s)

/-- What the result of a platform's `parseJson` means. -/
def parseJson (jsonString : Text) : Platform → Except String Meaning
  | .jvm => RecordTree.map StructuredLeaf.scalar <$> Jvm.parseJson L.org jsonString
  | .native => RecordTree.map StructuredLeaf.scalar <$> Native.parseJson L.jsonC jsonString
  | .js => RecordTree.map Js.Primitive.scalar <$> Js.parseJson L.engine jsonString

/-- The document that is written of a value of which nothing is lost. -/
def document : PlatformValue → Document
  | .jvm s => s.tree.map (StructuredLeaf.token (L.literal .jvm))
  | .native s => s.tree.map (StructuredLeaf.token (L.literal .native))
  | .js s => s.tree.map (Js.Primitive.token (L.literal .js))

/-- The literal is one that a library writes. -/
def IsLiteral (l : NumberLiteral) : Prop :=
  (∃ n : Int32, l = .ofInt n.toInt) ∨ ∃ platform d, Double.IsFinite d ∧ l = L.literal platform d

end JsonLibraries

/-- The literal stands for the number: it is read as a double of this value. -/
def JsonTexts.Stands (l : NumberLiteral) (v : NumberValue) : Prop :=
  if l.IsInteger then ∀ d, Double.Rounds l.toInt d → d.value = v else (texts.toDouble l).value = v

/-- What the libraries promise of the texts that they write: each writes the objects that it is
given, and for a finite double a literal that stands for it. -/
structure JsonLibraries.Writes : Prop where
  org : ∀ v, v.Distinct → (∀ d, RecordTree.IsLeaf (.number (.double d)) v → d.IsFinite) →
    ∃ d, texts.Denotes (L.org.valueToString v) d ∧ RecordTree.Rel L.org.Prints v d
  jsonC : ∀ v, Native.Writable v → ∃ str d, L.jsonC.json_object_to_json_string v = some str ∧
    texts.Denotes str d ∧ RecordTree.Rel (fun x y => y = x.token (L.literal .native)) v d
  engine : ∀ v, (Js.written v).Distinct →
    (∀ d, RecordTree.IsLeaf (.number d) (Js.written v) → Js.Writable d) →
    ∃ d, texts.Denotes (L.engine.stringify v) d ∧
      RecordTree.Rel (fun x y => y = x.token (L.literal .js)) (Js.written v) d
  stands : ∀ platform d, d.IsFinite → texts.Stands (L.literal platform d) d.value

/-- What the libraries promise of the texts that they read. org.json reads a decimal literal as the
double that it stands for, or as a `BigDecimal`. json-c accepts a document within its limit, and
rejects one beyond it. -/
structure JsonLibraries.Reads : Prop where
  nextValue : ∀ t d, texts.Denotes t d → d.Distinct →
    (∀ l, RecordTree.IsLeaf (.number l) d → L.IsLiteral l) →
    ∃ v, L.org.nextValue t = .ok v ∧ RecordTree.Rel (fun x y => y = L.org.object x) d v
  integer : ∀ n, L.org.stringToNumber (.ofInt n) = .ofInt n
  negativeZero : L.org.stringToNumber negativeZeroLiteral = .integer 0 ∨
    L.org.stringToNumber negativeZeroLiteral = .double .negativeZero
  decimal : ∀ l, L.IsLiteral l → ¬l.IsInteger →
    L.org.stringToNumber l = .double (texts.toDouble l) ∨
      ∃ text, L.org.stringToNumber l = .bigDecimal text
  jsonC : L.jsonC.Reads texts
  rejects : ∀ t d, texts.Denotes t d → d.Distinct → Native.JSON_TOKENER_DEFAULT_DEPTH < d.levels →
    L.jsonC.json_tokener_parse_verbose t = none
  engine : L.engine.Reads texts

namespace JsonLibraries

/-- The token is one that a library writes for a value without parts that means this. -/
def Means : Scalar → JsonToken → Prop
  | .null, y => y = .null
  | .boolean b, y => y = .boolean b
  | .number v, y => ∃ l, y = .number l ∧ L.IsLiteral l ∧ texts.Stands l v
  | .string s, y => y = .string s

/-- What a platform makes of a token. -/
def Gives : Platform → JsonToken → Scalar → Prop
  | .jvm, x, z => ∃ y, Jvm.leafToStructured (L.org.object x) = .ok y ∧ y.scalar = z
  | .native, x, z => (Native.leafToStructured (texts.object x)).scalar = z
  | .js, x, z => ∃ y, texts.Parses x y ∧ y.scalar = z

/-- The value that is written on its platform is read on the other one, as what it means. -/
def Exchanged (v : PlatformValue) (receiver : Platform) : Prop :=
  ∃ t m, L.writeJson v = .ok t ∧ L.parseJson t receiver = .ok m ∧ RecordTree.Rel Eq v.meaning m

/-- The platform reads the literal as a number of that value: the JVM and the native targets take
integers that are `Int`s, and the JVM takes what org.json reads as a `Double`. -/
def Takes (l : NumberLiteral) : Platform → Prop
  | .jvm => if l.IsInteger then IsInt l.toInt else ∃ d, L.org.stringToNumber l = .double d
  | .native => l.IsInteger → IsInt l.toInt
  | .js => True

/-- The platform writes all of the value. -/
def WritesAll (v : PlatformValue) : Prop :=
  (v.platform = .native → EveryText .string Native.IsCText v.meaning) ∧
    (v.platform = .js → ¬RecordTree.IsKey Js.protoKey v.meaning)

/-- What a platform writes of a value: a text of a document, from which the native targets drop
everything that is no C string, and JS what stands under `__proto__`. -/
structure Written (v : PlatformValue) (t : Text) (d : Document) : Prop where
  writeJson : L.writeJson v = .ok t
  denotes : texts.Denotes t d
  distinct : d.Distinct
  literal : ∀ l, RecordTree.IsLeaf (.number l) d → L.IsLiteral l
  native : v.platform = .native → EveryText .string Native.IsCText d
  js : v.platform = .js → ¬RecordTree.IsKey Js.protoKey d
  /-- No string is written that is not in the value. -/
  text : EveryText .string Native.IsCText v.meaning → EveryText .string Native.IsCText d
  all : WritesAll v → RecordTree.Rel Eq (L.document v) d

/-- The platform reads all of what is written of the value. -/
def ReadsAll (v : PlatformValue) (receiver : Platform) : Prop :=
  (receiver = .native → EveryText .string Native.IsCText v.meaning ∧
    v.meaning.levels ≤ Native.JSON_TOKENER_DEFAULT_DEPTH) ∧
  ∀ l, RecordTree.IsLeaf (.number l) (L.document v) → L.Takes l receiver

end JsonLibraries

/-! ## Tokens that are written and read -/

variable {texts L} {l : NumberLiteral} {n : ℤ}

/-- A double that an `Int` rounds to has its value. -/
theorem value_of_rounds {d : Double} (h : Double.Rounds n d) (hn : IsInt n) :
    d.value = .finite n := by
  obtain ⟨hlow, hhigh⟩ := hn
  obtain ⟨hfin, hval⟩ := h.toRat_eq (by omega)
  rw [Double.value, if_pos hfin, hval]

/-- An integer literal within the range of `Int` stands for its own number. -/
theorem eq_of_stands {v : NumberValue} (h : texts.Stands l v) (hl : l.IsInteger)
    (hint : IsInt l.toInt) : v = .finite l.toInt := by
  rw [JsonTexts.Stands, if_pos hl] at h
  obtain ⟨d, hd⟩ := Double.exists_rounds l.toInt
  rw [← h d hd, value_of_rounds hd hint]

/-- An integer literal that stands for an `Int` is within the range: the doubles next to the range
are nearer to a number outside than an `Int` is. -/
theorem isInt_of_stands (h : texts.Stands l (.finite n)) (hl : l.IsInteger) (hn : IsInt n) :
    IsInt l.toInt := by
  rw [JsonTexts.Stands, if_pos hl] at h
  obtain ⟨d, hd⟩ := Double.exists_rounds l.toInt
  have hval := h d hd
  rw [Double.value] at hval
  split_ifs at hval with hfin hinf
  have hrat : d.toRat = n := NumberValue.finite.inj hval
  -- No whole number of at most 53 bits is nearer.
  have hnear : ∀ k : ℤ, k.natAbs < 2 ^ 53 → |n - l.toInt| ≤ |k - l.toInt| := by
    intro k hk
    obtain ⟨hkfin, hkval⟩ := Double.ofInt_spec hk
    have hle := hd.abs_sub_le hfin hkfin
    rw [hrat, hkval] at hle
    exact_mod_cast hle
  have hlow := hnear (-2 ^ 31 - 1) (by decide)
  have hhigh := hnear (2 ^ 31) (by decide)
  obtain ⟨hn₁, hn₂⟩ := hn
  constructor <;> by_contra hout
  · rw [abs_of_nonneg (by omega), abs_of_nonneg (by omega)] at hlow
    omega
  · rw [abs_of_nonpos (by omega), abs_of_nonpos (by omega)] at hhigh
    omega

/-- If the JVM takes a literal at all, it takes it for its number. -/
theorem leafToStructured_literal (h : L.Reads texts) (hl : L.IsLiteral l) {v : NumberValue}
    (hv : texts.Stands l v) {y : StructuredLeaf}
    (hy : Jvm.leafToStructured (L.org.object (.number l)) = .ok y) :
    .number v = y.scalar ∧ L.Takes l .jvm := by
  rw [Jvm.OrgJson.object] at hy
  rw [JsonLibraries.Takes]
  split_ifs with hinteger
  · obtain heq | rfl := hinteger.eq_or
    · rw [heq, h.integer, leafToStructured_ofInt_iff] at hy
      obtain ⟨hint, rfl⟩ := hy
      refine ⟨?_, hint⟩
      rw [StructuredLeaf.scalar, toInt_ofInt hint, eq_of_stands hv hinteger hint]
    · -- `-0` is an `Int` or a double, with one value.
      have hint : IsInt negativeZeroLiteral.toInt := by decide
      obtain rfl := eq_of_stands hv hinteger hint
      refine ⟨?_, hint⟩
      obtain hzero | hzero := h.negativeZero <;> rw [hzero] at hy <;>
        obtain rfl := Except.ok.inj hy
      · rfl
      · rw [StructuredLeaf.scalar, Double.value_negativeZero]
        rfl
  · rw [JsonTexts.Stands, if_neg hinteger] at hv
    obtain hdouble | ⟨text, hbig⟩ := h.decimal l hl hinteger
    · rw [hdouble] at hy
      obtain rfl := Except.ok.inj hy
      exact ⟨congrArg Scalar.number hv.symm, _, hdouble⟩
    · rw [hbig] at hy
      cases hy

/-- A native target takes a literal for its number if it is no integer outside the range of `Int`.
Otherwise it makes an `Int` of it. -/
theorem scalar_literal_iff {v : NumberValue} (hv : texts.Stands l v) :
    .number v = (Native.leafToStructured (texts.object (.number l))).scalar ↔
      L.Takes l .native := by
  by_cases hinteger : l.IsInteger
  · rw [JsonLibraries.Takes, JsonTexts.object, if_pos hinteger, Native.leafToStructured,
      StructuredLeaf.scalar]
    constructor
    · intro heq _
      obtain rfl := Scalar.number.inj heq
      generalize Native.json_object_get_int (Native.saturate l.toInt) = n at hv
      exact isInt_of_stands hv hinteger ⟨n.le_toInt, n.toInt_lt⟩
    · intro hint
      rw [toInt_json_object_get_int (hint hinteger), eq_of_stands hv hinteger (hint hinteger)]
  · rw [JsonLibraries.Takes, JsonTexts.object, if_neg hinteger]
    rw [JsonTexts.Stands, if_neg hinteger] at hv
    exact iff_of_true (congrArg Scalar.number hv.symm) fun hl => absurd hl hinteger

/-- JS takes every literal for its number. -/
theorem scalar_of_parses {v : NumberValue} (hv : texts.Stands l v) {y : Js.Primitive}
    (hy : texts.Parses (.number l) y) : .number v = y.scalar := by
  obtain ⟨d, rfl, hd⟩ := hy
  rw [JsonTexts.Stands] at hv
  split_ifs at hv hd
  · exact congrArg Scalar.number (hv d hd).symm
  · rw [Js.Primitive.scalar, hd, hv]

/-- What a platform makes of a token is what was written exactly if it takes the literal that the
token may be. -/
theorem eq_iff_takes (h : L.Reads texts) {receiver : Platform} {x z : Scalar} {y : JsonToken}
    (hx : L.Means texts x y) (hz : L.Gives texts receiver y z)
    (htext : receiver = .native → ∀ s, y = .string s → Native.IsCText s) :
    x = z ↔ ∀ l, y = .number l → L.Takes l receiver := by
  cases x with
  | null | boolean =>
    obtain rfl := hx
    refine iff_of_true ?_ nofun
    cases receiver with
    | jvm =>
      obtain ⟨_, ⟨⟩, rfl⟩ := hz
      rfl
    | native => exact hz
    | js =>
      obtain ⟨_, rfl, rfl⟩ := hz
      rfl
  | string s =>
    obtain rfl := hx
    refine iff_of_true ?_ nofun
    cases receiver with
    | jvm =>
      obtain ⟨_, ⟨⟩, rfl⟩ := hz
      rfl
    | native =>
      obtain rfl := hz
      exact congrArg Scalar.string (htext rfl s rfl).cString_eq.symm
    | js =>
      obtain ⟨_, rfl, rfl⟩ := hz
      rfl
  | number v =>
    obtain ⟨l, rfl, hl, hv⟩ := hx
    simp only [JsonToken.number.injEq, forall_eq']
    cases receiver with
    | jvm =>
      obtain ⟨y, hy, rfl⟩ := hz
      obtain ⟨hval, htakes⟩ := leafToStructured_literal h hl hv hy
      exact iff_of_true hval htakes
    | native =>
      obtain rfl := hz
      exact scalar_literal_iff hv
    | js =>
      obtain ⟨y, hy, rfl⟩ := hz
      exact iff_of_true (scalar_of_parses hv hy) trivial

end Exchange

end Khala
