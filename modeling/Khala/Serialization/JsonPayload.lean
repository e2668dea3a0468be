import Khala.Library.RecordTree.Places
import Khala.Serialization.Exchange

/-!
# The JSON payload

`JsonPayloadWriter` writes a structured value that its user has put together, and
`JsonPayloadReader` reads one. Function links are maps in that value: a local function goes into the
list of the writer, and the map that stands for it has its index as `id`. The reader's user finds
the maps where they were put and has each made into a link.

`links_arrive` says that this works between any two platforms, wherever the maps are in the value
and whatever becomes of the order of their entries: the `id` of a local function is read as that
`Int`, although JSON and JS have numbers only.

The casts `as? String` and `as? Int` of the reader are those of the platform: on JS an `Int` is a
number, and the cast lets every number through. The link itself is made of the id by
`getTheirFunction`, which the repository does not implement yet: it is a parameter here.
-/

namespace Khala.Json

/-! ## Links -/

/-- `NamedFunctionLink`, with its strings as UTF-16 units. -/
structure NamedFunctionLink where
  /-- The address of the server. -/
  address : Utf16
  /-- The name of the function. -/
  name : Utf16
deriving DecidableEq

/-- `RemoteFunctionLink`: a link to a named function, or to one of the other side's own. -/
inductive RemoteFunctionLink (τ : Type) where
  /-- A link to a named function. -/
  | named (link : NamedFunctionLink)
  /-- A link to an anonymous function of the other side. -/
  | theirs (link : τ)
deriving DecidableEq

/-- How a platform makes values without parts of strings and `Int`s, and how it casts them back. -/
structure Casts (ν ι : Type) where
  /-- A `String`. -/
  string : Utf16 → ν
  /-- An `Int`. -/
  int : Int32 → ν
  /-- `as? String`. -/
  string? : ν → Option Utf16
  /-- `as? Int`. -/
  int? : ν → Option ι

/-- The casts of the JVM and of the native targets. -/
def structuredCasts : Casts StructuredLeaf Int32 where
  string := .string
  int := .int
  string?
    | .string s => some s
    | _ => none
  int?
    | .int n => some n
    | _ => none

/-- The casts of JS, where every number passes for an `Int`. -/
def jsCasts : Casts Js.Primitive Double where
  string := .string
  int n := .number (.ofInt n.toInt)
  string?
    | .string s => some s
    | _ => none
  int?
    | .number d => some d
    | _ => none

/-! ## The writer -/

/-- `JsonPayloadWriter`, with the list of local functions that it has as a `PayloadWriter`. -/
structure JsonPayloadWriter (φ : Type) where
  structuredPayload : PlatformValue
  /-- The functions that were added, in the order in which they were. -/
  localFunctions : List φ := []

section Writer

variable {ν ι φ : Type} (casts : Casts ν ι)

/-- `PayloadWriter.putLocalFunction`: appends a function and returns its index as its id. -/
def JsonPayloadWriter.putLocalFunction (localFunction : φ) (w : JsonPayloadWriter φ) :
    Int32 × JsonPayloadWriter φ :=
  let localFunctions := w.localFunctions ++ [localFunction]
  (Int32.ofNat (localFunctions.length - 1), { w with localFunctions })

/-- `setStructuredPayload`. -/
def JsonPayloadWriter.setStructuredPayload (structured : PlatformValue) (w : JsonPayloadWriter φ) :
    JsonPayloadWriter φ :=
  { w with structuredPayload := structured }

/-- The map of an anonymous function with this id. -/
def anonymousFunction (id : Int32) : RecordTree Utf16 ν :=
  .record [(.ascii "type", .leaf (casts.string (.ascii "ANONYMOUS"))),
    (.ascii "id", .leaf (casts.int id))]

/-- `structureLocalFunction`. -/
def JsonPayloadWriter.structureLocalFunction (localFunction : φ) (w : JsonPayloadWriter φ) :
    RecordTree Utf16 ν × JsonPayloadWriter φ :=
  let (localFunctionID, w) := w.putLocalFunction localFunction
  (anonymousFunction casts localFunctionID, w)

/-- `structureNamedFunction`. -/
def structureNamedFunction (address name : Utf16) : RecordTree Utf16 ν :=
  .record [(.ascii "type", .leaf (casts.string (.ascii "NAMED"))),
    (.ascii "address", .leaf (casts.string address)), (.ascii "name", .leaf (casts.string name))]

/-- `structureNamedFunctionLink`. -/
def structureNamedFunctionLink (namedFunctionLink : NamedFunctionLink) : RecordTree Utf16 ν :=
  structureNamedFunction casts namedFunctionLink.address namedFunctionLink.name

end Writer

/-! ## The reader -/

/-- The message of `throwInvalidLink`. -/
def invalidLinkMessage (remoteFunctionLink : String) : String :=
  "Invalid payload: " ++ remoteFunctionLink ++ " is not a function link"

/-- The message about a link of another type. -/
def linkTypeMessage (linkType : String) : String :=
  "Invalid payload: function link type " ++ linkType ++ " is not supported."

section Reader

variable {ν ι τ : Type} (casts : Casts ν ι) (toString : RecordTree Utf16 ν → String)
  (getTheirFunction : ι → τ)

/-- `remoteFunctionLink[key] as? String`. -/
def Casts.stringAt (key : Utf16) (remoteFunctionLink : List (Utf16 × RecordTree Utf16 ν)) :
    Option Utf16 :=
  match remoteFunctionLink.lookup key with
  | some (.leaf x) => casts.string? x
  | _ => none

/-- `remoteFunctionLink[key] as? Int`. -/
def Casts.intAt (key : Utf16) (remoteFunctionLink : List (Utf16 × RecordTree Utf16 ν)) :
    Option ι :=
  match remoteFunctionLink.lookup key with
  | some (.leaf x) => casts.int? x
  | _ => none

/-- `JsonPayloadReader.readRemoteFunctionLink`. -/
def readRemoteFunctionLink : RecordTree Utf16 ν → Except String (RemoteFunctionLink τ)
  | .record es =>
    let linkType := casts.stringAt (.ascii "type") es
    if linkType = some (.ascii "NAMED") then
      match casts.stringAt (.ascii "address") es, casts.stringAt (.ascii "name") es with
      | some address, some name => .ok (.named ⟨address, name⟩)
      | _, _ => .error (invalidLinkMessage (toString (.record es)))
    else if linkType = some (.ascii "ANONYMOUS") then
      match casts.intAt (.ascii "id") es with
      | some theirFunctionID => .ok (.theirs (getTheirFunction theirFunctionID))
      | none => .error (invalidLinkMessage (toString (.record es)))
    else
      .error (linkTypeMessage (((es.lookup (.ascii "type")).map toString).getD "null"))
  | remoteFunctionLink => .error (invalidLinkMessage (toString remoteFunctionLink))

end Reader

/-- What the readers of the platforms use besides the libraries. -/
structure Readers (τ : Type) where
  /-- `toString` of a value of the JVM or of a native target, for messages. -/
  toString : StructuredTree → String
  /-- `toString` of a value of JS, for messages. -/
  toStringJs : Js.StructuredTree → String
  /-- `getTheirFunction`. -/
  getTheirFunction : Int32 → τ
  /-- `getTheirFunction` on JS, where an `Int` is a number. -/
  getTheirFunctionJs : Double → τ
  getTheirFunctionJs_eq : ∀ n d, d.value = .finite n.toInt →
    getTheirFunctionJs d = getTheirFunction n

/-- The coding of texts as bytes. -/
structure Charset (Text Bytes : Type) where
  /-- `encodeToByteArray`. -/
  encodeToByteArray : Text → Bytes
  /-- `decodeToString`. -/
  decodeToString : Bytes → Text

section Payload

variable {Text Bytes φ τ : Type} (L : JsonLibraries Text) (charset : Charset Text Bytes)
  (readers : Readers τ)

/-- `JsonPayloadWriter.buildBinary`. -/
def JsonPayloadWriter.buildBinary (w : JsonPayloadWriter φ) : Except String Bytes :=
  charset.encodeToByteArray <$> L.writeJson w.structuredPayload

/-- What is decoded from the bytes of a text of well-formed strings is the text. -/
def Charset.Lawful : Prop :=
  ∀ v t, EveryText .string Utf16.WellFormed v.meaning → L.writeJson v = .ok t →
    charset.decodeToString (charset.encodeToByteArray t) = t

/-- In what `readStructured` returned there is at this place a map that is made into this link. -/
def FindsLink {ν ι : Type} (casts : Casts ν ι) (toString : RecordTree Utf16 ν → String)
    (getTheirFunction : ι → τ) (structured : Except String (RecordTree Utf16 ν))
    (place : List (RecordTree.Down Utf16)) (link : RemoteFunctionLink τ) : Prop :=
  ∃ t u, structured = .ok t ∧ RecordTree.at? place t = some u ∧
    readRemoteFunctionLink casts toString getTheirFunction u = .ok link

/-- A platform's `JsonPayloadReader` of the bytes finds at this place a map that it makes into this
link. -/
def ReadsLink (bytes : Bytes) (place : List (RecordTree.Down Utf16))
    (link : RemoteFunctionLink τ) : Platform → Prop
  | .jvm => FindsLink structuredCasts readers.toString readers.getTheirFunction
    (Jvm.parseJson L.org (charset.decodeToString bytes)) place link
  | .native => FindsLink structuredCasts readers.toString readers.getTheirFunction
    (Native.parseJson L.jsonC (charset.decodeToString bytes)) place link
  | .js => FindsLink jsCasts readers.toStringJs readers.getTheirFunctionJs
    (Js.parseJson L.engine (charset.decodeToString bytes)) place link

end Payload

/-- The value has this tree at the place, or on JS that one. -/
def HasAt (place : List (RecordTree.Down Utf16)) (structured : StructuredTree)
    (js : Js.StructuredTree) : PlatformValue → Prop
  | .jvm s => RecordTree.at? place s.tree = some structured
  | .native s => RecordTree.at? place s.tree = some structured
  | .js s => RecordTree.at? place s.tree = some js

/-- A call of a `JsonPayloadWriter` that changes it. -/
inductive JsonPayloadCall (φ : Type) where
  | structureLocalFunction (localFunction : φ)
  | setStructuredPayload (structured : PlatformValue)

/-- Executes a call. What `structureLocalFunction` returns depends on the casts, but not what it
does to the writer. -/
def JsonPayloadCall.exec {φ : Type} (w : JsonPayloadWriter φ) :
    JsonPayloadCall φ → JsonPayloadWriter φ
  | structureLocalFunction localFunction =>
    (w.structureLocalFunction structuredCasts localFunction).2
  | setStructuredPayload structured => w.setStructuredPayload structured

/-- The functions that a call adds. -/
def JsonPayloadCall.functions {φ : Type} : JsonPayloadCall φ → List φ
  | structureLocalFunction localFunction => [localFunction]
  | setStructuredPayload _ => []

/-! ## Links in documents -/

/-- How strings and `Int`s stand in a document. -/
def tokenCasts : Casts JsonToken NumberLiteral where
  string := .string
  int n := .number (.ofInt n.toInt)
  string?
    | .string s => some s
    | _ => none
  int?
    | .number l => some l
    | _ => none

section Documents

variable {ν μ ι τ : Type} {casts : Casts ν ι}

/-- The maps of links, after a change of the leaves that keeps strings and `Int`s. -/
theorem map_anonymousFunction {casts' : Casts μ τ} {f : ν → μ}
    (hstring : ∀ s, f (casts.string s) = casts'.string s)
    (hint : ∀ n, f (casts.int n) = casts'.int n) (id : Int32) :
    (anonymousFunction casts id).map f = anonymousFunction casts' id := by
  simp [anonymousFunction, RecordTree.map, RecordTree.mapEntries, hstring, hint]

/-- The map of a named function, seen through other casts. -/
theorem map_structureNamedFunction {casts' : Casts μ τ} {f : ν → μ}
    (hstring : ∀ s, f (casts.string s) = casts'.string s) (address name : Utf16) :
    (structureNamedFunction casts address name).map f =
      structureNamedFunction casts' address name := by
  simp [structureNamedFunction, RecordTree.map, RecordTree.mapEntries, hstring]

/-- The casts give back what a token stands for. -/
structure Casts.Follows (casts : Casts ν ι) (R : JsonToken → ν → Prop) (get : ι → τ)
    (their : Int32 → τ) : Prop where
  string : ∀ s y, R (.string s) y → casts.string? y = some s
  int : ∀ n y, R (.number (.ofInt n.toInt)) y → ∃ id, casts.int? y = some id ∧ get id = their n

variable {R : JsonToken → ν → Prop} {get : ι → τ} {their : Int32 → τ}
  {es : List (Utf16 × Document)} {gs : List (Utf16 × RecordTree Utf16 ν)} {k : Utf16}

/-- The cast of a string that is found under a key. -/
theorem Casts.Follows.stringAt (h : casts.Follows R get their)
    (hrel : RecordTree.Rel R (.record es) (.record gs)) (hkeys : (es.map Prod.fst).Nodup)
    {s : Utf16} (hs : es.lookup k = some (.leaf (.string s))) : casts.stringAt k gs = some s := by
  obtain ⟨u, hu, hsu⟩ := hrel.exists_lookup hkeys hs
  obtain ⟨hy⟩ := hsu
  rw [Casts.stringAt, hu]
  exact h.string s _ hy

/-- The cast of a number that is found under a key. -/
theorem Casts.Follows.intAt (h : casts.Follows R get their)
    (hrel : RecordTree.Rel R (.record es) (.record gs)) (hkeys : (es.map Prod.fst).Nodup)
    {n : Int32} (hn : es.lookup k = some (.leaf (.number (.ofInt n.toInt)))) :
    ∃ id, casts.intAt k gs = some id ∧ get id = their n := by
  obtain ⟨u, hu, hnu⟩ := hrel.exists_lookup hkeys hn
  obtain ⟨hy⟩ := hnu
  rw [Casts.intAt, hu]
  exact h.int n _ hy

/-- What is read of the map of an anonymous function is a link with its id. -/
theorem readRemoteFunctionLink_anonymous (h : casts.Follows R get their)
    (toString : RecordTree Utf16 ν → String) {id : Int32} {u : RecordTree Utf16 ν}
    (hrel : RecordTree.Rel R (anonymousFunction tokenCasts id) u) :
    readRemoteFunctionLink casts toString get u = .ok (.theirs (their id)) := by
  cases u with | leaf | list => cases hrel | record gs =>
  have hkeys : [Utf16.ascii "type", Utf16.ascii "id"].Nodup := by decide
  have htype := h.stringAt (k := .ascii "type") hrel hkeys rfl
  obtain ⟨id', hid, hget⟩ := h.intAt (k := .ascii "id") hrel hkeys rfl
  have hne : ¬some (Utf16.ascii "ANONYMOUS") = some (.ascii "NAMED") := by decide
  rw [readRemoteFunctionLink, htype, if_neg hne, if_pos rfl, hid]
  exact congrArg (fun x => Except.ok (RemoteFunctionLink.theirs x)) hget

/-- What is read of the map of a named function is a link with its address and name. -/
theorem readRemoteFunctionLink_named (h : casts.Follows R get their)
    (toString : RecordTree Utf16 ν → String) {address name : Utf16} {u : RecordTree Utf16 ν}
    (hrel : RecordTree.Rel R (structureNamedFunction tokenCasts address name) u) :
    readRemoteFunctionLink casts toString get u = .ok (.named ⟨address, name⟩) := by
  cases u with | leaf | list => cases hrel | record gs =>
  have hkeys : [Utf16.ascii "type", Utf16.ascii "address", Utf16.ascii "name"].Nodup := by decide
  have htype := h.stringAt (k := .ascii "type") hrel hkeys rfl
  have haddress := h.stringAt (k := .ascii "address") hrel hkeys rfl
  have hname := h.stringAt (k := .ascii "name") hrel hkeys rfl
  rw [readRemoteFunctionLink, htype, if_pos rfl, haddress, hname]

end Documents

/-! ## Links between platforms -/

section Arrival

variable {Text Bytes φ τ : Type} {texts : JsonTexts Text} {L : JsonLibraries Text}
  {charset : Charset Text Bytes} {readers : Readers τ}

/-- The casts of the JVM give back what a token stands for. -/
theorem follows_jvm (hR : L.Reads texts) : structuredCasts.Follows
    (fun x y => Jvm.leafToStructured (L.org.object x) = .ok y) readers.getTheirFunction
    readers.getTheirFunction where
  string s y hy := by
    obtain rfl := Except.ok.inj hy
    rfl
  int n y hy := by
    rw [Jvm.OrgJson.object, hR.integer, leafToStructured_ofInt_iff] at hy
    obtain ⟨-, rfl⟩ := hy
    exact ⟨n, by rw [Int32.ofInt_toInt]; rfl, rfl⟩

/-- The casts of the native targets give back what a token stands for. -/
theorem follows_native (texts : JsonTexts Text) : structuredCasts.Follows
    (fun x y => (∀ s, x = .string s → Native.IsCText s) ∧
      y = Native.leafToStructured (texts.object x)) readers.getTheirFunction
    readers.getTheirFunction where
  string s y hy := by
    obtain ⟨htext, rfl⟩ := hy
    exact congrArg some (htext s rfl).cString_eq
  int n y hy := by
    obtain ⟨-, rfl⟩ := hy
    refine ⟨n, ?_, rfl⟩
    have hn : IsInt n.toInt := ⟨n.le_toInt, n.toInt_lt⟩
    rw [JsonTexts.object, if_pos ⟨rfl, rfl⟩, NumberLiteral.toInt_ofInt, Native.leafToStructured]
    exact congrArg some (Int32.toInt_inj.mp (toInt_json_object_get_int hn))

/-- The casts of JS give back what a token stands for. -/
theorem follows_js : jsCasts.Follows texts.Parses readers.getTheirFunctionJs
    readers.getTheirFunction where
  string s y hy := by
    obtain rfl := hy
    rfl
  int n y hy := by
    obtain ⟨d, rfl, hd⟩ := hy
    rw [if_pos ⟨rfl, rfl⟩, NumberLiteral.toInt_ofInt] at hd
    have hval := value_of_rounds hd ⟨n.le_toInt, n.toInt_lt⟩
    exact ⟨d, rfl, readers.getTheirFunctionJs_eq n d hval⟩

/-- The document of a value has the tokens of the tree that the value has at a place. -/
theorem at?_document {v : PlatformValue} {place : List (RecordTree.Down Utf16)}
    {structured : StructuredTree} {js : Js.StructuredTree} {tokens : Document}
    (hv : HasAt place structured js v)
    (hstructured : ∀ platform, structured.map (StructuredLeaf.token (L.literal platform)) = tokens)
    (hjs : js.map (Js.Primitive.token (L.literal .js)) = tokens) :
    RecordTree.at? place (L.document v) = some tokens := by
  cases v with
  | jvm s | native s =>
    rw [JsonLibraries.document, RecordTree.at?_map, show RecordTree.at? place s.tree = _ from hv,
      Option.map_some, hstructured]
  | js s =>
    rw [JsonLibraries.document, RecordTree.at?_map, show RecordTree.at? place s.tree = _ from hv,
      Option.map_some, hjs]

/-- A platform that reads all of a value makes links of the maps of links in it. The first
conclusion is about the maps of anonymous functions, the second one about those of named ones. -/
theorem readsLink_of_readsAll (hW : L.Writes texts) (hR : L.Reads texts) {v : PlatformValue}
    {receiver : Platform} (hwrites : JsonLibraries.WritesAll v) (hreads : L.ReadsAll v receiver)
    {t : Text} (ht : L.writeJson v = .ok t) {bytes : Bytes}
    (hbytes : charset.decodeToString bytes = t) {place : List (RecordTree.Down Utf16)} :
    (∀ id, RecordTree.at? place (L.document v) = some (anonymousFunction tokenCasts id) →
      ReadsLink L charset readers bytes place (.theirs (readers.getTheirFunction id)) receiver) ∧
    ∀ address name,
      RecordTree.at? place (L.document v) = some (structureNamedFunction tokenCasts address name) →
        ReadsLink L charset readers bytes place (.named ⟨address, name⟩) receiver := by
  obtain ⟨t', d, hw⟩ := exists_written hW v
  obtain rfl := Except.ok.inj (hw.writeJson.symm.trans ht)
  have hrel := hw.all hwrites
  have hmeans := means_document hW v
  have hdistinct : (L.document v).Distinct := hmeans.distinct (distinct_meaning v)
  obtain ⟨hnative, htakes⟩ := hreads
  obtain ⟨m, hm⟩ := hw.exists_parseJson hR hwrites htakes
  -- On each platform the document is read into a tree whose leaves follow the tokens.
  suffices hreader : ∀ {ν ι : Type} {casts : Casts ν ι} {R : JsonToken → ν → Prop} {get : ι → τ}
      {parsed : Except String (RecordTree Utf16 ν)} {u : RecordTree Utf16 ν}
      (toString : RecordTree Utf16 ν → String), parsed = .ok u →
      casts.Follows R get readers.getTheirFunction → RecordTree.Rel R d u →
      (∀ id, RecordTree.at? place (L.document v) = some (anonymousFunction tokenCasts id) →
        FindsLink casts toString get parsed place (.theirs (readers.getTheirFunction id))) ∧
      ∀ address name, RecordTree.at? place (L.document v) =
          some (structureNamedFunction tokenCasts address name) →
        FindsLink casts toString get parsed place (.named ⟨address, name⟩) by
    cases receiver with
    | jvm =>
      obtain ⟨s, hs, -⟩ := RecordTree.map_eq_ok_iff.mp hm
      exact hreader readers.toString (hbytes ▸ hs) (follows_jvm hR)
        (jvm_rel hR hw.denotes hw.distinct hw.literal hs)
    | native =>
      obtain ⟨s, hs, -⟩ := RecordTree.map_eq_ok_iff.mp hm
      have htext := hw.text (hnative rfl).1
      have hlevels := hw.levels_eq hW hwrites ▸ (hnative rfl).2
      have hs' := native_rel hR hw.denotes hw.distinct htext hlevels hs
      refine hreader readers.toString (hbytes ▸ hs) (follows_native texts)
        (hs'.imp fun x hx y hy => ⟨?_, hy⟩)
      rintro str rfl
      exact htext.1 str hx
    | js =>
      obtain ⟨s, hs, -⟩ := RecordTree.map_eq_ok_iff.mp hm
      exact hreader readers.toStringJs (hbytes ▸ hs) follows_js
        (js_rel hR hw.denotes hw.distinct hs)
  intro ν ι casts R get parsed u toString hparsed hfollows hu
  have hdocument : RecordTree.Rel R (L.document v) u := by
    refine (hrel.trans hu).imp ?_
    rintro x - y ⟨_, rfl, hy⟩
    exact hy
  constructor
  · intro id hid
    obtain ⟨u', hu', hlink⟩ := hdocument.exists_at? hdistinct hid
    exact ⟨u, u', hparsed, hu', readRemoteFunctionLink_anonymous hfollows toString hlink⟩
  · intro address name hname
    obtain ⟨u', hu', hlink⟩ := hdocument.exists_at? hdistinct hname
    exact ⟨u, u', hparsed, hu', readRemoteFunctionLink_named hfollows toString hlink⟩

/-- Each call adds the functions that it structures to the list of local functions. -/
theorem localFunctions_foldl (calls : List (JsonPayloadCall φ)) (w : JsonPayloadWriter φ) :
    (calls.foldl JsonPayloadCall.exec w).localFunctions =
      w.localFunctions ++ calls.flatMap JsonPayloadCall.functions := by
  induction calls generalizing w with
  | nil => simp
  | cons call calls ih =>
    rw [List.foldl_cons, ih, List.flatMap_cons, ← List.append_assoc]
    cases call with
    | structureLocalFunction f => rfl
    | setStructuredPayload structured => simp [JsonPayloadCall.exec, JsonPayloadCall.functions,
        JsonPayloadWriter.setStructuredPayload]

variable (charset readers) in
/-- In what a `JsonPayloadWriter` of one platform builds, a `JsonPayloadReader` of any platform
finds the function links where they were put, if the payload is one that arrives: the map that
`structureLocalFunction` returned becomes a link with the index of the function in the list of the
writer, and that of a named function a link with its address and its name. -/
theorem links_arrive (hW : L.Writes texts) (hR : L.Reads texts)
    (hint : ∀ n : Int32, L.engineLiteral (.ofInt n.toInt) = .ofInt n.toInt)
    (hcharset : charset.Lawful L) (initial : PlatformValue) (calls : List (JsonPayloadCall φ))
    (receiver : Platform) :
    let writer := calls.foldl JsonPayloadCall.exec ⟨initial, []⟩
    EveryText .string Utf16.WellFormed writer.structuredPayload.meaning →
    JsonLibraries.WritesAll writer.structuredPayload →
    L.ReadsAll writer.structuredPayload receiver →
    ∃ bytes, writer.buildBinary L charset = .ok bytes ∧
      (∀ before f after place, calls = before ++ .structureLocalFunction f :: after →
        let earlier := before.foldl JsonPayloadCall.exec ⟨initial, []⟩
        HasAt place (earlier.structureLocalFunction structuredCasts f).1
          (earlier.structureLocalFunction jsCasts f).1 writer.structuredPayload →
        ∃ i, writer.localFunctions[i]? = some f ∧ ReadsLink L charset readers bytes place
          (.theirs (readers.getTheirFunction (Int32.ofNat i))) receiver) ∧
      ∀ link place, HasAt place (structureNamedFunctionLink structuredCasts link)
          (structureNamedFunctionLink jsCasts link) writer.structuredPayload →
        ReadsLink L charset readers bytes place (.named link) receiver := by
  intro writer hwell hwrites hreads
  obtain ⟨t, d, hw⟩ := exists_written hW writer.structuredPayload
  have hlinks := @readsLink_of_readsAll _ _ _ _ _ charset readers hW hR _ _ hwrites hreads _
    hw.writeJson _ (hcharset _ t hwell hw.writeJson)
  refine ⟨charset.encodeToByteArray t, ?_, ?_, ?_⟩
  · rw [JsonPayloadWriter.buildBinary, hw.writeJson]
    rfl
  · rintro before f after place rfl earlier hat
    have hearlier : earlier.localFunctions = before.flatMap JsonPayloadCall.functions :=
      localFunctions_foldl before ⟨initial, []⟩
    have hall := localFunctions_foldl (before ++ .structureLocalFunction f :: after)
      (⟨initial, []⟩ : JsonPayloadWriter φ)
    refine ⟨earlier.localFunctions.length, ?_, hlinks.1 _ (at?_document hat ?_ ?_)⟩
    · rw [show writer.localFunctions = _ from hall, hearlier]
      simp [JsonPayloadCall.functions]
    · intro platform
      simp only [JsonPayloadWriter.structureLocalFunction, JsonPayloadWriter.putLocalFunction,
        List.length_append, List.length_singleton, Nat.add_sub_cancel]
      exact map_anonymousFunction (fun _ => rfl) (fun _ => rfl) _
    · simp only [JsonPayloadWriter.structureLocalFunction, JsonPayloadWriter.putLocalFunction,
        List.length_append, List.length_singleton, Nat.add_sub_cancel]
      exact map_anonymousFunction (fun _ => rfl) (fun n => congrArg JsonToken.number (hint n)) _
  · intro link place hat
    refine hlinks.2 _ _ (at?_document hat (fun platform => ?_) ?_)
    · exact map_structureNamedFunction (fun _ => rfl) _ _
    · exact map_structureNamedFunction (fun _ => rfl) _ _

end Arrival

/-! ## A payload of the JVM on JS -/

/-- The list of the map of the second local function and of a map of a named function. -/
def samplePayload : Structured where
  tree := .list [anonymousFunction structuredCasts 1,
    structureNamedFunction structuredCasts (.ascii "a") (.ascii "x")]
  distinct := by
    refine .list (List.forall_mem_cons.mpr ⟨.record ?_ ?_, List.forall_mem_singleton.mpr
      (.record ?_ ?_)⟩)
    · exact (by decide : [Utf16.ascii "type", Utf16.ascii "id"].Nodup)
    · simp
    · exact (by decide : [Utf16.ascii "type", Utf16.ascii "address", Utf16.ascii "name"].Nodup)
    · simp
  finite d hd := by
    simp [anonymousFunction, structureNamedFunction, structuredCasts] at hd

/-- The bytes of a text are the text. -/
def sampleCharset : Charset (Option Document) (Option Document) := ⟨id, id⟩

/-- Readers that keep the id of a link. -/
def sampleReaders : Readers NumberValue where
  toString _ := "a value"
  toStringJs _ := "a value"
  getTheirFunction n := .finite n.toInt
  getTheirFunctionJs := Double.value
  getTheirFunctionJs_eq _ _ h := h

/-- JS reads the link to the second function, and the one to the named function. -/
theorem links_arrive_list : ∃ bytes,
    ReadsLink SampleLibraries.libraries sampleCharset sampleReaders bytes [.item 0]
      (.theirs (.finite 1)) .js ∧
    ReadsLink SampleLibraries.libraries sampleCharset sampleReaders bytes [.item 1]
      (.named ⟨.ascii "a", .ascii "x"⟩) .js := by
  have hwell : samplePayload.tree.EveryText Utf16.WellFormed := by
    constructor
    · intro s hs
      obtain rfl | rfl | rfl | rfl : s = .ascii "ANONYMOUS" ∨ s = .ascii "NAMED" ∨
          s = .ascii "a" ∨ s = .ascii "x" := by
        simpa [samplePayload, anonymousFunction, structureNamedFunction, structuredCasts, or_assoc]
          using hs
      all_goals decide
    · intro k hk
      obtain (rfl | rfl) | rfl | rfl | rfl : (k = .ascii "type" ∨ k = .ascii "id") ∨
          k = .ascii "type" ∨ k = .ascii "address" ∨ k = .ascii "name" := by
        simpa [samplePayload, anonymousFunction, structureNamedFunction] using hk
      all_goals decide
  obtain ⟨bytes, -, hlocal, hnamed⟩ := links_arrive sampleCharset sampleReaders
    SampleLibraries.writes SampleLibraries.reads
    SampleLibraries.engineLiteral_ofInt (fun _ _ _ _ => rfl) (.jvm samplePayload)
    [.structureLocalFunction 'f', .structureLocalFunction 'g',
      .setStructuredPayload (.jvm samplePayload)] .js (everyText_map_scalar_iff.mpr hwell)
    ⟨fun h => (by cases h), fun h => (by cases h)⟩ ⟨fun h => (by cases h), fun _ _ => trivial⟩
  obtain ⟨i, hi, hlink⟩ := hlocal [.structureLocalFunction 'f'] 'g'
    [.setStructuredPayload (.jvm samplePayload)] [.item 0] rfl rfl
  have hi : (['f', 'g'] : List Char)[i]? = some 'g' := hi
  obtain rfl : i = 1 := by
    obtain _ | _ | i := i
    · cases hi
    · rfl
    · cases hi
  exact ⟨bytes, by simpa [sampleReaders] using hlink,
    hnamed ⟨.ascii "a", .ascii "x"⟩ [.item 1] rfl⟩

end Khala.Json
