import Khala.Serialization.Document

/-!
# JSON on JS

`writeJson` and `parseJson` of JS go through `JSON.stringify` and `JSON.parse`. A map is written as
an object literal whose properties are assigned one after the other, and an object is read by a
`for`-`in` loop. The engine itself is a parameter: `Engine` is what the two functions use of it, and
`Engine.Lawful` what it promises.

Assigning to `__proto__` makes no property. It sets the prototype of the literal, or does nothing,
and `JSON.stringify` leaves prototypes out. So a map loses its entry under that key, at any depth,
and `jsObject_roundTrip_iff` says that nothing else is lost.
-/

namespace Khala

namespace Js

/-! ## Values of JS -/

/-- A value of JS without parts. -/
inductive Primitive where
  /-- `null`. -/
  | null
  /-- A boolean. -/
  | boolean (b : Bool)
  /-- A number. An `Int` and a `Double` of Kotlin are numbers. -/
  | number (d : Double)
  /-- A string. -/
  | string (s : Utf16)
deriving DecidableEq

/-- A value of JS, as far as the JSON serialization makes one. -/
inductive Value where
  /-- A value without parts. -/
  | primitive (x : Primitive)
  /-- An array. -/
  | array (items : List Value)
  /-- An object with its prototype and its own properties, all of them enumerable. -/
  | object (prototype : Value) (own : List (Utf16 × Value))
  /-- `Object.prototype`, which has no enumerable properties. -/
  | objectPrototype

/-- The values of `Structured` on JS, as trees: a list is a `List`, a record a `Map`. -/
abbrev StructuredTree : Type := RecordTree Utf16 Primitive

/-- JSON has a literal for the number, and keeps its sign. -/
def Writable (d : Double) : Prop := d.IsFinite ∧ d ≠ .negativeZero

/-- `Structured`: its maps have one entry for each key, and its numbers can be written. -/
structure Structured where
  /-- The value as a tree. -/
  tree : StructuredTree
  distinct : tree.Distinct
  number : ∀ d, RecordTree.IsLeaf (.number d) tree → Writable d

/-! ## Writing -/

/-- The key that sets a prototype. -/
def protoKey : Utf16 := .ascii "__proto__"

/-- An object that starts as the literal `{}`. -/
structure ObjectLiteral where
  /-- The prototype. -/
  prototype : Value
  /-- The own properties. -/
  own : LinkedHashMap Utf16 Value

/-- The literal `{}`. -/
def ObjectLiteral.new : ObjectLiteral := ⟨.objectPrototype, .empty⟩

/-- Assigning to a property. Under `__proto__`, an object, an array or `null` becomes the prototype,
and any other value is ignored. -/
def ObjectLiteral.assign (structured : ObjectLiteral) (k : Utf16) (v : Value) : ObjectLiteral :=
  if k = protoKey then
    match v with
    | .primitive .null | .array _ | .object _ _ | .objectPrototype =>
      { structured with prototype := v }
    | .primitive _ => structured
  else { structured with own := structured.own.put k v }

/-- The literal after assigning these properties one after the other. -/
def ObjectLiteral.assignAll (structured : ObjectLiteral) (es : List (Utf16 × Value)) :
    ObjectLiteral :=
  es.foldl (fun structured e => structured.assign e.1 e.2) structured

/-- The object that a literal has become. -/
def ObjectLiteral.toValue (structured : ObjectLiteral) : Value :=
  .object structured.prototype structured.own.toList

mutual

/-- `structuredToJsonObject`. -/
def structuredToJsonObject : StructuredTree → Value
  | .leaf x => .primitive x
  | .list ts => .array (structuredItems ts)
  | .record es => (ObjectLiteral.new.assignAll (structuredEntries es)).toValue

/-- The items of the array that a list becomes. -/
def structuredItems : List StructuredTree → List Value
  | [] => []
  | t :: ts => structuredToJsonObject t :: structuredItems ts

/-- What is assigned to the literal that a map becomes. -/
def structuredEntries : List (Utf16 × StructuredTree) → List (Utf16 × Value)
  | [] => []
  | (k, t) :: es => (k, structuredToJsonObject t) :: structuredEntries es

end

/-! ## Reading -/

/-- The keys of an array are its indices. -/
def indexed {α : Type} (items : List α) : List (Utf16 × α) :=
  items.zipIdx.map fun (item, i) => (.ascii (toString i), item)

/-- The properties that `for`-`in` visits: the own ones, and then those of the prototype that no own
property hides. -/
def chain {α : Type} (own inherited : List (Utf16 × α)) : List (Utf16 × α) :=
  own ++ inherited.filter fun e => e.1 ∉ own.map Prod.fst

/-- The properties that `for`-`in` visits. -/
def enumerable : Value → List (Utf16 × Value)
  | .primitive _ | .objectPrototype => []
  | .array items => indexed items
  | .object prototype own => chain own (enumerable prototype)

mutual

/-- `parsedToStructured`, with `parsedObjectToStructured` as its last branch: the map of what is
visited. -/
def parsedToStructured : Value → StructuredTree
  | .primitive x => .leaf x
  | .array items => .list (parsedArrayToStructured items)
  | .object prototype own =>
    .record (LinkedHashMap.ofList (chain (ownEntries own) (visited prototype))).toList
  | .objectPrototype => .record []

/-- `parsedArrayToStructured`. -/
def parsedArrayToStructured : List Value → List StructuredTree
  | [] => []
  | v :: vs => parsedToStructured v :: parsedArrayToStructured vs

/-- The own properties of an object, as they are put into the map. -/
def ownEntries : List (Utf16 × Value) → List (Utf16 × StructuredTree)
  | [] => []
  | (k, v) :: es => (k, parsedToStructured v) :: ownEntries es

/-- The properties that are visited in a prototype, as they are put into the map. -/
def visited : Value → List (Utf16 × StructuredTree)
  | .primitive _ | .objectPrototype => []
  | .array items => indexed (parsedArrayToStructured items)
  | .object prototype own => chain (ownEntries own) (visited prototype)

end

/-! ## The engine -/

mutual

/-- What `JSON.stringify` writes of a value: the own properties of its objects. -/
def written : Value → StructuredTree
  | .primitive x => .leaf x
  | .array items => .list (writtenItems items)
  | .object _ own => .record (writtenEntries own)
  | .objectPrototype => .record []

/-- What `JSON.stringify` writes of the items of an array. -/
def writtenItems : List Value → List StructuredTree
  | [] => []
  | v :: vs => written v :: writtenItems vs

/-- What `JSON.stringify` writes of the own properties of an object. -/
def writtenEntries : List (Utf16 × Value) → List (Utf16 × StructuredTree)
  | [] => []
  | (k, v) :: es => (k, written v) :: writtenEntries es

end

mutual

/-- The value that `JSON.parse` creates: its objects have own properties alone. -/
def created : StructuredTree → Value
  | .leaf x => .primitive x
  | .list ts => .array (createdItems ts)
  | .record es => .object .objectPrototype (createdEntries es)

/-- The items of the array that `JSON.parse` creates. -/
def createdItems : List StructuredTree → List Value
  | [] => []
  | t :: ts => created t :: createdItems ts

/-- The own properties of the object that `JSON.parse` creates. -/
def createdEntries : List (Utf16 × StructuredTree) → List (Utf16 × Value)
  | [] => []
  | (k, t) :: es => (k, created t) :: createdEntries es

end

/-- What the two functions use of the engine. -/
structure Engine (Text : Type) where
  /-- `JSON.stringify`. -/
  stringify : Value → Text
  /-- `JSON.parse`, which fails with the message of an exception. -/
  parse : Text → Except String Value

variable {Text : Type}

/-- What the engine promises: `JSON.parse` creates again what `JSON.stringify` wrote, if its numbers
can be written. -/
structure Engine.Lawful (e : Engine Text) : Prop where
  parse_stringify : ∀ v, (written v).Distinct →
    (∀ d, RecordTree.IsLeaf (.number d) (written v) → Writable d) →
    ∃ t, e.parse (e.stringify v) = .ok (created t) ∧ RecordTree.Rel Eq (written v) t

/-- `writeJson`. -/
def writeJson (e : Engine Text) (structuredObject : Structured) : Text :=
  e.stringify (structuredToJsonObject structuredObject.tree)

/-- `parseJson`. -/
def parseJson (e : Engine Text) (jsonString : Text) : Except String StructuredTree := do
  let parsedObject ← e.parse jsonString
  return parsedToStructured parsedObject

/-! ## What the conversions do -/

/-- `structuredItems` makes the object of each item. -/
theorem structuredItems_eq (ts : List StructuredTree) :
    structuredItems ts = ts.map structuredToJsonObject :=
  RecordTree.eq_map_of_cons rfl (fun _ _ => rfl) ts

/-- `structuredEntries` makes the object of each value. -/
theorem structuredEntries_eq (es : List (Utf16 × StructuredTree)) :
    structuredEntries es = es.map fun e => (e.1, structuredToJsonObject e.2) :=
  RecordTree.eq_map_of_cons rfl (fun _ _ => rfl) es

/-- `parsedArrayToStructured` makes the value of each item. -/
theorem parsedArrayToStructured_eq (vs : List Value) :
    parsedArrayToStructured vs = vs.map parsedToStructured :=
  RecordTree.eq_map_of_cons rfl (fun _ _ => rfl) vs

/-- `ownEntries` makes the value of each own property. -/
theorem ownEntries_eq (es : List (Utf16 × Value)) :
    ownEntries es = es.map fun e => (e.1, parsedToStructured e.2) :=
  RecordTree.eq_map_of_cons rfl (fun _ _ => rfl) es

/-- `writtenItems` is what is written of each item. -/
theorem writtenItems_eq (vs : List Value) : writtenItems vs = vs.map written :=
  RecordTree.eq_map_of_cons rfl (fun _ _ => rfl) vs

/-- `writtenEntries` is what is written of each property. -/
theorem writtenEntries_eq (es : List (Utf16 × Value)) :
    writtenEntries es = es.map fun e => (e.1, written e.2) :=
  RecordTree.eq_map_of_cons rfl (fun _ _ => rfl) es

/-- `createdItems` is what is created for each item. -/
theorem createdItems_eq (ts : List StructuredTree) : createdItems ts = ts.map created :=
  RecordTree.eq_map_of_cons rfl (fun _ _ => rfl) ts

/-- `createdEntries` is what is created for each entry. -/
theorem createdEntries_eq (es : List (Utf16 × StructuredTree)) :
    createdEntries es = es.map fun e => (e.1, created e.2) :=
  RecordTree.eq_map_of_cons rfl (fun _ _ => rfl) es

/-- A function of the values goes through a prototype chain. -/
theorem chain_map {α β : Type} (f : α → β) (own inherited : List (Utf16 × α)) :
    chain (own.map fun e => (e.1, f e.2)) (inherited.map fun e => (e.1, f e.2)) =
      (chain own inherited).map fun e => (e.1, f e.2) := by
  simp only [chain, List.map_append, List.map_map, List.filter_map]
  rfl

/-- A function of the items goes through their numbering. -/
theorem indexed_map {α β : Type} (f : α → β) (items : List α) :
    indexed (items.map f) = (indexed items).map fun e => (e.1, f e.2) := by
  simp only [indexed, List.zipIdx_map, List.map_map]
  rfl

/-- What `for (… in …)` visits are the enumerable properties. -/
theorem visited_eq (v : Value) :
    visited v = (enumerable v).map fun e => (e.1, parsedToStructured e.2) := by
  match v with
  | .primitive _ | .objectPrototype => rfl
  | .array items => rw [visited, enumerable, parsedArrayToStructured_eq, indexed_map]
  | .object prototype own =>
    rw [visited, enumerable, ownEntries_eq, visited_eq prototype, chain_map]

/-- An object is read as the map of what `for`-`in` visits. -/
theorem parsedToStructured_object (prototype : Value) (own : List (Utf16 × Value)) :
    parsedToStructured (.object prototype own) =
      .record (LinkedHashMap.ofList ((enumerable (.object prototype own)).map fun e =>
        (e.1, parsedToStructured e.2))).toList := by
  rw [← visited_eq, parsedToStructured, visited]

/-- What `JSON.parse` creates inherits nothing, so it is read as it was written. -/
theorem parsedToStructured_created {t : StructuredTree} (ht : t.Distinct) :
    parsedToStructured (created t) = t := by
  induction ht with
  | leaf x => rfl
  | @list ts _ ih =>
    have hts : ∀ t ∈ ts, parsedToStructured (created t) = id t := ih
    rw [created, createdItems_eq, parsedToStructured, parsedArrayToStructured_eq, List.map_map]
    exact congrArg RecordTree.list ((List.map_congr_left hts).trans (List.map_id ts))
  | @record es hkeys _ ih =>
    have hes : ∀ e ∈ es, (e.1, parsedToStructured (created e.2)) = id e := fun e he =>
      Prod.ext rfl (ih e he)
    have hown : ownEntries (createdEntries es) = es := by
      rw [createdEntries_eq, ownEntries_eq, List.map_map]
      exact (List.map_congr_left hes).trans (List.map_id es)
    rw [created, parsedToStructured, hown, visited, chain, List.filter_nil, List.append_nil,
      LinkedHashMap.toList_ofList hkeys]

/-- Only an assignment under another key than `__proto__` makes an own property. -/
theorem own_assign (structured : ObjectLiteral) (k : Utf16) (v : Value) :
    (structured.assign k v).own =
      if k = protoKey then structured.own else structured.own.put k v := by
  unfold ObjectLiteral.assign
  split_ifs
  · split <;> rfl
  · rfl

/-- Assigning the entries one after the other puts all of them but those of `__proto__`. -/
theorem own_assignAll (structured : ObjectLiteral) (es : List (Utf16 × Value)) :
    (structured.assignAll es).own =
      (es.filter (·.1 ≠ protoKey)).foldl (fun m e => m.put e.1 e.2) structured.own := by
  induction es generalizing structured with
  | nil => rfl
  | cons e es ih =>
    have hstep : structured.assignAll (e :: es) = (structured.assign e.1 e.2).assignAll es := rfl
    rw [hstep, ih, own_assign, List.filter_cons]
    by_cases hk : e.1 = protoKey <;> simp [hk]

/-- What is written of a value is all of it but the entries under `__proto__`. -/
theorem written_structuredToJsonObject {t : StructuredTree} (ht : t.Distinct) :
    written (structuredToJsonObject t) = t.eraseKey protoKey := by
  induction ht with
  | leaf x => rfl
  | @list ts _ ih =>
    rw [structuredToJsonObject, structuredItems_eq, written, writtenItems_eq, List.map_map,
      RecordTree.eraseKey, RecordTree.eraseKeyList_eq]
    exact congrArg RecordTree.list (List.map_congr_left ih)
  | @record es hkeys _ ih =>
    have hfilter : ((structuredEntries es).filter (·.1 ≠ protoKey)).map Prod.fst =
        (es.map Prod.fst).filter (· ≠ protoKey) := by
      rw [structuredEntries_eq, List.filter_map, List.map_map, List.filter_map]
      rfl
    -- The other keys are distinct, so each is assigned once.
    have hown : (ObjectLiteral.new.assignAll (structuredEntries es)).own.toList =
        (structuredEntries es).filter (·.1 ≠ protoKey) := by
      rw [own_assignAll]
      exact LinkedHashMap.toList_ofList (hfilter ▸ hkeys.filter _)
    rw [structuredToJsonObject, ObjectLiteral.toValue, hown, written, writtenEntries_eq,
      structuredEntries_eq, List.filter_map, List.map_map, RecordTree.eraseKey,
      RecordTree.eraseKeyEntries_eq]
    congr 1
    refine List.map_congr_left fun e he => Prod.ext rfl ?_
    exact ih e (List.mem_of_mem_filter he)

/-! ## The round trip -/

/-- A structured value comes back from the JSON of JS as it was if and only if no map in it has the
key `__proto__`. -/
theorem jsObject_roundTrip_iff {e : Engine Text} (h : e.Lawful) (s : Structured) :
    (∃ t, parseJson e (writeJson e s) = .ok t ∧ RecordTree.Rel Eq s.tree t) ↔
      ¬RecordTree.IsKey protoKey s.tree := by
  have hwritten := written_structuredToJsonObject s.distinct
  have hdistinct : (written (structuredToJsonObject s.tree)).Distinct :=
    hwritten ▸ s.distinct.eraseKey protoKey
  obtain ⟨t, ht, hrel⟩ := h.parse_stringify (structuredToJsonObject s.tree) hdistinct
    fun d hd => s.number d (RecordTree.isLeaf_of_eraseKey (hwritten ▸ hd))
  have hparse : parseJson e (writeJson e s) = .ok t := by
    rw [parseJson, writeJson, ht]
    exact congrArg Except.ok (parsedToStructured_created (hrel.distinct hdistinct))
  rw [hwritten] at hrel
  rw [hparse]
  constructor
  · rintro ⟨_, ⟨⟩, heq⟩ hkey
    exact RecordTree.not_isKey_eraseKey protoKey s.tree (hrel.isKey_iff.mpr (heq.isKey hkey))
  · intro hkey
    rw [RecordTree.eraseKey_of_not_isKey hkey] at hrel
    exact ⟨t, rfl, hrel⟩

/-! ## A concrete engine -/

namespace SampleEngine

/-- The token that a value without parts is written as. -/
def token : Primitive → JsonToken
  | .null => .null
  | .boolean b => .boolean b
  | .number d => .number (ecmaScriptLiteral d)
  | .string s => .string s

/-- The value that a token is read as. -/
def object : JsonToken → Primitive
  | .null => .null
  | .boolean b => .boolean b
  | .number l => .number l.toDouble
  | .string s => .string s

/-- An engine whose texts are documents, or no documents. -/
def engine : Engine (Option Document) where
  stringify v := some ((written v).map token)
  parse
    | none => .error "Unexpected end of JSON input"
    | some d => .ok (created (d.rebuild id object))

/-- A primitive value is read back from its token. -/
theorem object_token {x : Primitive} (hx : ∀ d, x = .number d → Writable d) :
    object (token x) = x := by
  cases x with
  | number d =>
    obtain ⟨hfin, hne⟩ := hx d rfl
    rw [token, object, NumberLiteral.toDouble_eq (rounds_ecmaScriptLiteral hfin) hfin
      (negative_ecmaScriptLiteral hfin hne)]
  | null | boolean | string => rfl

/-- The engine of the sample is lawful. -/
theorem lawful : engine.Lawful where
  parse_stringify v hv hnumber := by
    refine ⟨_, rfl, ?_⟩
    have hid : ∀ k, RecordTree.IsKey k ((written v).map token) → id k = k := fun _ _ => rfl
    rw [RecordTree.rebuild_eq_map (hv.map token) hid]
    refine ((RecordTree.rel_map token _).trans (RecordTree.rel_map object _)).imp ?_
    rintro x hx _ ⟨_, rfl, rfl⟩
    refine (object_token ?_).symm
    rintro d rfl
    exact hnumber d hx

end SampleEngine

/-- A list with a number and a map. -/
def sampleList : Structured where
  tree := .list [.leaf (.number oneAndHalf),
    .record [(.ascii "a", .leaf .null), (.ascii "b", .leaf (.string (.ascii "x")))]]
  distinct := by
    have hkeys : [Utf16.ascii "a", Utf16.ascii "b"].Nodup := by decide
    simpa using hkeys
  number d hd := by
    obtain rfl : d = oneAndHalf := by simpa using hd
    exact ⟨by decide, by decide⟩

/-- The list comes back. -/
theorem jsObject_roundTrip_list :
    ∃ t, parseJson SampleEngine.engine (writeJson SampleEngine.engine sampleList) = .ok t ∧
      RecordTree.Rel Eq sampleList.tree t := by
  refine (jsObject_roundTrip_iff SampleEngine.lawful sampleList).mpr fun hkey => ?_
  have hne : ∀ k ∈ [Utf16.ascii "a", Utf16.ascii "b"], protoKey ≠ k := by decide
  obtain h | h : protoKey = .ascii "a" ∨ protoKey = .ascii "b" := by
    simpa [sampleList] using hkey
  · exact hne _ (by simp) h
  · exact hne _ (by simp) h

/-- A map with one entry under `__proto__`, which is a map itself. -/
def sampleProto : Structured where
  tree := .record [(protoKey, .record [(.ascii "a", .leaf (.boolean true))])]
  distinct := by simp
  number d hd := by simp at hd

/-- It comes back empty. -/
theorem jsObject_proto :
    SampleEngine.engine.Lawful ∧
      parseJson SampleEngine.engine (writeJson SampleEngine.engine sampleProto) =
        .ok (.record []) ∧
      ¬RecordTree.Rel Eq sampleProto.tree (.record []) := by
  refine ⟨SampleEngine.lawful, rfl, fun h => ?_⟩
  have hkey := h.isKey (.here (by simp : protoKey ∈ _))
  simp at hkey

end Js

end Khala
