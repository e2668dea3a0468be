import Khala.Serialization.Libraries

/-!
# JSON between platforms

`exchanged_iff` says for each two platforms which structured values arrive from the one on the
other. A native target cuts strings off at a U+0000 and replaces unpaired surrogates, when it writes
and when it reads. JS does not write what stands under `__proto__`. json-c reads what is nested too
deep as `null`. And a number arrives if its literal is taken: the JVM and the native targets take an
integer only if it is an `Int`, and JS writes any whole number below 10^21 as an integer.
-/

namespace Khala

section Exchange

variable {Text : Type} {texts : JsonTexts Text} {L : JsonLibraries Text}

/-! ## Documents that are read -/

section Documents

variable {t : Text} {d : Document} {m : Meaning} {receiver : Platform}

/-- A token whose literal the JVM takes is taken. -/
theorem exists_leafToStructured (h : L.Reads texts) {x : JsonToken}
    (hx : ∀ l, x = .number l → L.Takes l .jvm) :
    ∃ y, Jvm.leafToStructured (L.org.object x) = .ok y := by
  cases x with
  | null | boolean | string => exact ⟨_, rfl⟩
  | number l =>
    have htakes := hx l rfl
    rw [JsonLibraries.Takes] at htakes
    rw [Jvm.OrgJson.object]
    split_ifs at htakes with hinteger
    · obtain heq | rfl := hinteger.eq_or
      · rw [heq, h.integer]
        exact ⟨_, leafToStructured_ofInt_iff.mpr ⟨htakes, rfl⟩⟩
      · obtain hzero | hzero := h.negativeZero <;> rw [hzero] <;> exact ⟨_, rfl⟩
    · obtain ⟨d, hd⟩ := htakes
      exact ⟨.double d, by rw [hd]; rfl⟩

section Written

variable (h : L.Reads texts) (hd : texts.Denotes t d) (hdistinct : d.Distinct)
  (hliteral : ∀ l, RecordTree.IsLeaf (.number l) d → L.IsLiteral l)
include h hd hdistinct hliteral

/-- What the JVM reads of a document is what it makes of its tokens. -/
theorem jvm_rel {s : StructuredTree} (hs : Jvm.parseJson L.org t = .ok s) :
    RecordTree.Rel (fun x y => Jvm.leafToStructured (L.org.object x) = .ok y) d s := by
  obtain ⟨v, hv, hrel⟩ := h.nextValue t d hd hdistinct hliteral
  rw [Jvm.parseJson, hv] at hs
  have htraverse := RecordTree.rel_of_traverse ((Jvm.parsedToStructured_eq v).symm.trans hs)
  refine (hrel.trans htraverse).imp ?_
  rintro x - y ⟨_, rfl, hy⟩
  exact hy

omit hliteral in
/-- What a native target reads of a document within its bounds is what it makes of its tokens. -/
theorem native_rel (htext : EveryText .string Native.IsCText d)
    (hlevels : d.levels ≤ Native.JSON_TOKENER_DEFAULT_DEPTH) {s : StructuredTree}
    (hs : Native.parseJson L.jsonC t = .ok s) :
    RecordTree.Rel (fun x y => y = Native.leafToStructured (texts.object x)) d s := by
  obtain ⟨v, hv, -, hrel⟩ := h.jsonC.accepts t d hd hdistinct hlevels
  have hrel := hrel htext
  have hkey : ∀ k, RecordTree.IsKey k v → k.cString = k := fun k hk =>
    (htext.2 k (hrel.isKey_iff.mpr hk)).cString_eq
  obtain rfl := Except.ok.inj hs
  rw [Native.JsonC.json_tokener_parse, hv, Option.getD_some, Native.parseObject_eq,
    RecordTree.rebuild_eq_map (hrel.distinct hdistinct) hkey]
  refine (hrel.trans (RecordTree.rel_map _ v)).imp ?_
  rintro x - _ ⟨_, rfl, rfl⟩
  rfl

omit hliteral in
/-- What JS reads of a document is what it makes of its tokens. -/
theorem js_rel {s : Js.StructuredTree} (hs : Js.parseJson L.engine t = .ok s) :
    RecordTree.Rel texts.Parses d s := by
  obtain ⟨u, hu, hrel⟩ := h.engine.parse t d hd hdistinct
  rw [Js.parseJson, hu] at hs
  obtain rfl := Except.ok.inj hs
  rwa [Js.parsedToStructured_created (hrel.distinct hdistinct)]

/-- The same for what is read means. -/
theorem rel_gives (hnative : receiver = .native → EveryText .string Native.IsCText d ∧
    d.levels ≤ Native.JSON_TOKENER_DEFAULT_DEPTH) (hm : L.parseJson t receiver = .ok m) :
    RecordTree.Rel (L.Gives texts receiver) d m := by
  cases receiver with
  | jvm =>
    obtain ⟨s, hs, rfl⟩ := RecordTree.map_eq_ok_iff.mp hm
    refine ((jvm_rel h hd hdistinct hliteral hs).trans (RecordTree.rel_map _ s)).imp ?_
    rintro x - _ ⟨y, hy, rfl⟩
    exact ⟨y, hy, rfl⟩
  | native =>
    obtain ⟨s, hs, rfl⟩ := RecordTree.map_eq_ok_iff.mp hm
    obtain ⟨htext, hlevels⟩ := hnative rfl
    refine ((native_rel h hd hdistinct htext hlevels hs).trans (RecordTree.rel_map _ s)).imp ?_
    rintro x - _ ⟨_, rfl, rfl⟩
    rfl
  | js =>
    obtain ⟨s, hs, rfl⟩ := RecordTree.map_eq_ok_iff.mp hm
    refine ((js_rel h hd hdistinct hs).trans (RecordTree.rel_map _ s)).imp ?_
    rintro x - _ ⟨y, hy, rfl⟩
    exact ⟨y, hy, rfl⟩

/-- A platform that takes the literals of a document reads it. -/
theorem exists_parseJson (htakes : ∀ l, RecordTree.IsLeaf (.number l) d → L.Takes l receiver) :
    ∃ m, L.parseJson t receiver = .ok m := by
  cases receiver with
  | jvm =>
    obtain ⟨v, hv, hrel⟩ := h.nextValue t d hd hdistinct hliteral
    have hleaves : ∀ y, RecordTree.IsLeaf y v → ∃ z, Jvm.leafToStructured y = .ok z := by
      intro y hy
      obtain ⟨x, hx, rfl⟩ := hrel.exists_left hy
      refine exists_leafToStructured h ?_
      rintro l rfl
      exact htakes l hx
    obtain ⟨s, hs⟩ := RecordTree.exists_traverse hleaves
    refine ⟨_, RecordTree.map_eq_ok_iff.mpr ⟨s, ?_, rfl⟩⟩
    rw [Jvm.parseJson, hv]
    exact (Jvm.parsedToStructured_eq v).trans hs
  | native => exact ⟨_, RecordTree.map_eq_ok_iff.mpr ⟨_, rfl, rfl⟩⟩
  | js =>
    obtain ⟨s, hs, -⟩ := js_parseJson h.engine hd hdistinct
    exact ⟨_, RecordTree.map_eq_ok_iff.mpr ⟨s, hs, rfl⟩⟩

end Written

/-- The leaves that mean strings are strings. -/
theorem everyText_map_scalar_iff {P : Utf16 → Prop} {s : StructuredTree} :
    EveryText Scalar.string P (s.map StructuredLeaf.scalar) ↔ s.EveryText P := by
  constructor
  · refine EveryText.of_rel (RecordTree.rel_map StructuredLeaf.scalar s) ?_
    rintro str y rfl
    rfl
  · refine EveryText.of_rel (RecordTree.rel_map StructuredLeaf.scalar s).flip fun str y hy => ?_
    exact StructuredLeaf.scalar_eq_string_iff.mp hy.symm

/-- A native target reads C strings from a document within its limit, and `null` beyond it. -/
theorem native_meaning (h : L.Reads texts) (hd : texts.Denotes t d) (hdistinct : d.Distinct)
    (hm : L.parseJson t .native = .ok m) : EveryText .string Native.IsCText m ∧
      (Native.JSON_TOKENER_DEFAULT_DEPTH < d.levels → m = .leaf .null) := by
  obtain ⟨s, hs, rfl⟩ := RecordTree.map_eq_ok_iff.mp hm
  by_cases hlevels : d.levels ≤ Native.JSON_TOKENER_DEFAULT_DEPTH
  · obtain ⟨s', hs', htext, -⟩ := native_parseJson h.jsonC hd hdistinct hlevels
    obtain rfl := Except.ok.inj (hs.symm.trans hs')
    exact ⟨everyText_map_scalar_iff.mpr htext, fun hdeep => absurd hlevels hdeep.not_ge⟩
  · have hreject := Native.parseJson_of_rejected (h.rejects t d hd hdistinct (not_le.mp hlevels))
    obtain rfl := Except.ok.inj (hs.symm.trans hreject)
    refine ⟨⟨fun str hstr => ?_, nofun⟩, fun _ => rfl⟩
    cases RecordTree.isLeaf_leaf_iff.mp hstr

end Documents

/-! ## Values that are written -/

section Values

variable {t : Text} {d : Document}

/-- A document that has the tokens of these leaves has strings only where the leaves have them. -/
theorem everyText_of_tokens {ν : Type} {token : ν → JsonToken} {string : Utf16 → ν}
    {P : Utf16 → Prop} {w : RecordTree Utf16 ν} (h : RecordTree.Rel (fun x y => y = token x) w d)
    (htoken : ∀ s x, .string s = token x → x = string s) (hw : EveryText string P w) :
    EveryText .string P d :=
  .of_rel h.flip htoken hw

/-- The tokens of the same leaves are the same. -/
theorem rel_map_tokens {ν : Type} {token : ν → JsonToken} {w : RecordTree Utf16 ν}
    (h : RecordTree.Rel (fun x y => y = token x) w d) : RecordTree.Rel Eq (w.map token) d := by
  refine ((RecordTree.rel_map token w).flip.trans h).imp ?_
  rintro y - z ⟨x, rfl, rfl⟩
  rfl

/-- Only a string is written as a string. -/
theorem eq_string_of_token {literal : Double → NumberLiteral} {s : Utf16} {x : StructuredLeaf}
    (h : .string s = x.token literal) : x = .string s := by
  cases x with
  | string s' => rw [JsonToken.string.inj h]
  | null | boolean | int | double => cases h

/-- A value of the JVM is written as a document. -/
theorem written_jvm (hW : L.Writes texts) (s : Structured) :
    ∃ t d, L.Written texts (.jvm s) t d := by
  have hmap := Jvm.structuredToJson_eq s.tree
  obtain ⟨d, hd, hrel⟩ := hW.org (Jvm.structuredToJson s.tree)
    (hmap ▸ s.distinct.map Jvm.leafToJson) (fun d hd => by
      rw [hmap] at hd
      obtain ⟨x, hx, hxd⟩ := (RecordTree.rel_map Jvm.leafToJson s.tree).exists_left hd
      cases x with
      | double d' =>
        obtain rfl : d = d' := by simpa [Jvm.leafToJson] using hxd
        exact s.finite d hx
      | null | boolean | int | string => simp [Jvm.leafToJson] at hxd)
  have htokens : RecordTree.Rel (fun x y => y = x.token (L.literal .jvm)) s.tree d := by
    rw [hmap] at hrel
    refine ((RecordTree.rel_map Jvm.leafToJson s.tree).trans hrel).imp ?_
    rintro x - y ⟨_, rfl, hy⟩
    cases x <;> exact hy
  refine ⟨_, d, rfl, hd, htokens.distinct s.distinct, fun l hl => ?_, fun h => (by cases h),
    fun h => (by cases h), fun htext => ?_, fun _ => rel_map_tokens htokens⟩
  · obtain ⟨x, hx, hxl⟩ := htokens.exists_left hl
    cases x with
    | int n => exact .inl ⟨n, JsonToken.number.inj hxl⟩
    | double d' => exact .inr ⟨.jvm, d', s.finite d' hx, JsonToken.number.inj hxl⟩
    | null | boolean | string => cases hxl
  · exact everyText_of_tokens htokens (fun _ _ => eq_string_of_token)
      (everyText_map_scalar_iff.mp htext)

/-- What the native targets make of a value is fit for json-c. -/
theorem writable_toJson (s : Structured) : Native.Writable (Native.toJson s.tree) := by
  rw [Native.toJson_eq]
  refine ⟨RecordTree.distinct_rebuild s.tree, fun d hd => ?_, fun str hstr => ?_, fun k hk => ?_⟩
  · obtain ⟨x, hx, hxd⟩ := RecordTree.exists_of_isLeaf_rebuild hd
    cases x with
    | double d' =>
      obtain rfl := Native.JsonLeaf.double.inj hxd
      exact s.finite _ hx
    | null | boolean | int | string => cases hxd
  · obtain ⟨x, -, hxs⟩ := RecordTree.exists_of_isLeaf_rebuild hstr
    cases x with
    | string s' =>
      obtain rfl := Native.JsonLeaf.string.inj hxs
      exact ⟨Utf16.wellFormed_toCString s', Utf16.zero_notMem_cString _⟩
    | null | boolean | int | double => cases hxs
  · obtain ⟨k', -, rfl⟩ := RecordTree.exists_of_isKey_rebuild hk
    exact ⟨Utf16.wellFormed_toCString k', Utf16.zero_notMem_cString _⟩

/-- A value of the native targets is written as a document. -/
theorem written_native (hW : L.Writes texts) (s : Structured) :
    ∃ t d, L.Written texts (.native s) t d := by
  have hwritable := writable_toJson s
  obtain ⟨str, d, hstr, hd, hrel⟩ := hW.jsonC _ hwritable
  have htext : EveryText .string Native.IsCText d := by
    refine everyText_of_tokens hrel (fun str x hx => ?_) ⟨hwritable.string, hwritable.key⟩
    cases x with
    | string s' => rw [JsonToken.string.inj hx]
    | null | boolean | int | double => cases hx
  refine ⟨str, d, ?_, hd, hrel.distinct hwritable.distinct, fun l hl => ?_, fun _ => htext, nofun,
    fun _ => htext, fun hall => ?_⟩
  · rw [JsonLibraries.writeJson, Native.writeJson, hstr]
  · obtain ⟨y, hy, hyl⟩ := hrel.exists_left hl
    rw [Native.toJson_eq] at hy
    obtain ⟨x, hx, rfl⟩ := RecordTree.exists_of_isLeaf_rebuild hy
    cases x with
    | int n =>
      refine .inl ⟨n, ?_⟩
      rw [JsonToken.number.inj hyl, Int32.toInt_toInt64]
    | double d' => exact .inr ⟨.native, d', s.finite d' hx, JsonToken.number.inj hyl⟩
    | null | boolean | string => cases hyl
  · have hs : s.tree.EveryText Native.IsCText := everyText_map_scalar_iff.mp (hall.1 rfl)
    rw [Native.toJson_eq_map s.distinct hs] at hrel
    refine rel_map_tokens (((RecordTree.rel_map Native.leafToJson s.tree).trans hrel).imp ?_)
    rintro x hx _ ⟨_, rfl, rfl⟩
    cases x with
    | string str => exact congrArg JsonToken.string (hs.1 str hx).toCString_eq
    | int n => rw [Native.leafToJson, Native.JsonLeaf.token, Int32.toInt_toInt64]; rfl
    | null | boolean | double => rfl

/-- A value of JS is written as a document. -/
theorem written_js (hW : L.Writes texts) (s : Js.Structured) :
    ∃ t d, L.Written texts (.js s) t d := by
  have hwritten := Js.written_structuredToJsonObject s.distinct
  obtain ⟨d, hd, hrel⟩ := hW.engine (Js.structuredToJsonObject s.tree)
    (hwritten ▸ s.distinct.eraseKey Js.protoKey)
    fun d hd => s.number d (RecordTree.isLeaf_of_eraseKey (hwritten ▸ hd))
  rw [hwritten] at hrel
  refine ⟨_, d, rfl, hd, hrel.distinct (s.distinct.eraseKey _), fun l hl => ?_, nofun,
    fun _ hkey => ?_, fun htext => ?_, fun hall => ?_⟩
  · obtain ⟨x, hx, hxl⟩ := hrel.exists_left hl
    cases x with
    | number d' =>
      have hfin := (s.number d' (RecordTree.isLeaf_of_eraseKey hx)).1
      exact .inr ⟨.js, d', hfin, JsonToken.number.inj hxl⟩
    | null | boolean | string => cases hxl
  · exact RecordTree.not_isKey_eraseKey Js.protoKey s.tree (hrel.isKey_iff.mpr hkey)
  · have hs : EveryText Js.Primitive.string Native.IsCText s.tree :=
      .of_rel (RecordTree.rel_map Js.Primitive.scalar s.tree) (by rintro str y rfl; rfl) htext
    have herase : EveryText Js.Primitive.string Native.IsCText (s.tree.eraseKey Js.protoKey) :=
      ⟨fun str hstr => hs.1 str (RecordTree.isLeaf_of_eraseKey hstr),
        fun k hk => hs.2 k (RecordTree.isKey_of_eraseKey hk)⟩
    refine everyText_of_tokens hrel (fun str x hx => ?_) herase
    cases x with
    | string s' => rw [JsonToken.string.inj hx]
    | null | boolean | number => cases hx
  · have hkey : ¬RecordTree.IsKey Js.protoKey s.tree := fun hk =>
      hall.2 rfl (RecordTree.isKey_map_iff.mpr hk)
    rw [RecordTree.eraseKey_of_not_isKey hkey] at hrel
    exact rel_map_tokens hrel

/-- A value is written as a document on each platform. -/
theorem exists_written (hW : L.Writes texts) (v : PlatformValue) :
    ∃ t d, L.Written texts v t d := by
  cases v with
  | jvm s => exact written_jvm hW s
  | native s => exact written_native hW s
  | js s => exact written_js hW s

/-- The tokens of a value's document stand for what the value means. -/
theorem means_document (hW : L.Writes texts) (v : PlatformValue) :
    RecordTree.Rel (L.Means texts) v.meaning (L.document v) := by
  have hstructured : ∀ (platform : Platform) (s : Structured), RecordTree.Rel (L.Means texts)
      (s.tree.map StructuredLeaf.scalar)
      (s.tree.map (StructuredLeaf.token (L.literal platform))) := by
    refine fun platform s => RecordTree.rel_map_map fun x hx => ?_
    cases x with
    | null | boolean | string => rfl
    | int n =>
      refine ⟨_, rfl, .inl ⟨n, rfl⟩, ?_⟩
      rw [JsonTexts.Stands, if_pos ⟨rfl, rfl⟩, NumberLiteral.toInt_ofInt]
      exact fun d hd => value_of_rounds hd ⟨n.le_toInt, n.toInt_lt⟩
    | double d =>
      exact ⟨_, rfl, .inr ⟨platform, d, s.finite d hx, rfl⟩, hW.stands platform d (s.finite d hx)⟩
  cases v with
  | jvm s => exact hstructured .jvm s
  | native s => exact hstructured .native s
  | js s =>
    refine RecordTree.rel_map_map fun x hx => ?_
    cases x with
    | null | boolean | string => rfl
    | number d =>
      have hfin := (s.number d hx).1
      exact ⟨_, rfl, .inr ⟨.js, d, hfin, rfl⟩, hW.stands .js d hfin⟩

/-- What a value means repeats no key. -/
theorem distinct_meaning (v : PlatformValue) : v.meaning.Distinct := by
  cases v with
  | jvm s | native s => exact s.distinct.map _
  | js s => exact s.distinct.map _

end Values

/-! ## The exchange -/

/-- What a platform makes of a token keeps strings, but on a native target only C strings. -/
theorem string_eq_of_gives {receiver : Platform} (hreceiver : receiver ≠ .native) {s : Utf16}
    {y : JsonToken} (h : L.Gives texts receiver y (.string s)) : y = .string s := by
  cases receiver with
  | jvm =>
    obtain ⟨z, hz, hs⟩ := h
    rw [StructuredLeaf.scalar_eq_string_iff] at hs
    subst hs
    cases y with
    | string s' => rw [StructuredLeaf.string.inj (Except.ok.inj hz)]
    | null | boolean => cases hz
    | number l =>
      rw [Jvm.OrgJson.object] at hz
      cases hl : L.org.stringToNumber l <;> rw [hl] at hz <;> cases hz
  | native => exact absurd rfl hreceiver
  | js =>
    obtain ⟨z, hz, hs⟩ := h
    cases y with
    | null | boolean =>
      obtain rfl := hz
      cases hs
    | string s' =>
      obtain rfl := hz
      exact congrArg JsonToken.string (Scalar.string.inj hs)
    | number l =>
      obtain ⟨d, rfl, -⟩ := hz
      cases hs

/-- A value that arrives was written whole: what was dropped when it was written would be missing
in what is read. -/
theorem writesAll_of_rel (hR : L.Reads texts) {v : PlatformValue} {receiver : Platform} {t : Text}
    {d : Document} {m : Meaning} (hw : L.Written texts v t d)
    (hm : L.parseJson t receiver = .ok m) (heq : RecordTree.Rel Eq v.meaning m) :
    JsonLibraries.WritesAll v ∧
      (receiver = .native → EveryText .string Native.IsCText v.meaning) := by
  have hrel : receiver ≠ .native → RecordTree.Rel (L.Gives texts receiver) d m := fun hne =>
    rel_gives hR hw.denotes hw.distinct hw.literal (fun h => absurd h hne) hm
  have hnative : receiver = .native → EveryText .string Native.IsCText v.meaning := by
    rintro rfl
    exact .of_rel heq (fun _ _ => Eq.symm) (native_meaning hR hw.denotes hw.distinct hm).1
  refine ⟨⟨fun hv => ?_, fun hv hkey => ?_⟩, hnative⟩
  · by_cases hne : receiver = .native
    · exact hnative hne
    · have htext : EveryText .string Native.IsCText m :=
        .of_rel (hrel hne).flip (fun _ _ h => string_eq_of_gives hne h) (hw.native hv)
      exact .of_rel heq (fun _ _ => Eq.symm) htext
  · have hkeym := heq.isKey hkey
    by_cases hne : receiver = .native
    · -- Beyond the limit, `null` is read, which has no keys.
      subst hne
      have htext := hw.text (hnative rfl)
      by_cases hlevels : d.levels ≤ Native.JSON_TOKENER_DEFAULT_DEPTH
      · have hrel := rel_gives hR hw.denotes hw.distinct hw.literal (fun _ => ⟨htext, hlevels⟩) hm
        exact hw.js hv (hrel.isKey_iff.mpr hkeym)
      · rw [(native_meaning hR hw.denotes hw.distinct hm).2 (not_le.mp hlevels)] at hkeym
        exact RecordTree.not_isKey_leaf _ _ hkeym
    · exact hw.js hv ((hrel hne).isKey_iff.mpr hkeym)

/-- The strings and keys of the document are those of the value. -/
theorem everyText_document (hW : L.Writes texts) {v : PlatformValue} {P : Utf16 → Prop}
    (h : EveryText .string P v.meaning) : EveryText .string P (L.document v) := by
  refine .of_rel (means_document hW v).flip (fun s x hx => ?_) h
  cases x with
  | null | boolean => cases hx
  | number =>
    obtain ⟨_, hl, -⟩ := hx
    cases hl
  | string s' => exact congrArg Scalar.string (JsonToken.string.inj hx).symm

namespace JsonLibraries.Written

variable {v : PlatformValue} {receiver : Platform} {t : Text} {d : Document} {m : Meaning}

/-- What is written of a value that is written whole has as many levels. -/
theorem levels_eq (hw : L.Written texts v t d) (hW : L.Writes texts)
    (hall : JsonLibraries.WritesAll v) : v.meaning.levels = d.levels :=
  (means_document hW v).levels_eq.trans (hw.all hall).levels_eq

/-- A platform reads a text all of whose numbers it takes. -/
theorem exists_parseJson (hw : L.Written texts v t d) (hR : L.Reads texts)
    (hall : JsonLibraries.WritesAll v)
    (htakes : ∀ l, RecordTree.IsLeaf (.number l) (L.document v) → L.Takes l receiver) :
    ∃ m, L.parseJson t receiver = .ok m := by
  refine Khala.exists_parseJson hR hw.denotes hw.distinct hw.literal fun l hl => ?_
  obtain ⟨y, hy, rfl⟩ := (hw.all hall).exists_left hl
  exact htakes l hy

/-- The tokens of the document are given as what they stand for, or as something else. -/
theorem rel_gives (hw : L.Written texts v t d) (hW : L.Writes texts) (hR : L.Reads texts)
    (hall : JsonLibraries.WritesAll v)
    (hnative : receiver = .native → EveryText .string Native.IsCText v.meaning ∧
      v.meaning.levels ≤ Native.JSON_TOKENER_DEFAULT_DEPTH)
    (hm : L.parseJson t receiver = .ok m) :
    RecordTree.Rel (L.Gives texts receiver) (L.document v) m := by
  refine ((hw.all hall).trans (Khala.rel_gives hR hw.denotes hw.distinct hw.literal ?_ hm)).imp ?_
  · exact fun h => ⟨hw.text (hnative h).1, (hw.levels_eq hW hall) ▸ (hnative h).2⟩
  · rintro x - z ⟨_, rfl, hz⟩
    exact hz

end JsonLibraries.Written

/-- A value arrives from one platform on another if and only if the one writes all of it and the
other one reads all of what is written. -/
theorem exchanged_iff (hW : L.Writes texts) (hR : L.Reads texts) (v : PlatformValue)
    (receiver : Platform) :
    L.Exchanged v receiver ↔ JsonLibraries.WritesAll v ∧ L.ReadsAll v receiver := by
  obtain ⟨t, d, hw⟩ := exists_written hW v
  have hdocument := means_document hW v
  constructor
  · rintro ⟨t', m, ht', hm, heq⟩
    obtain rfl := Except.ok.inj (hw.writeJson.symm.trans ht')
    obtain ⟨hall, htext⟩ := writesAll_of_rel hR hw hm heq
    have hnative : receiver = .native → EveryText .string Native.IsCText v.meaning ∧
        v.meaning.levels ≤ Native.JSON_TOKENER_DEFAULT_DEPTH := by
      refine fun hreceiver => ⟨htext hreceiver, not_lt.mp fun hdeep => ?_⟩
      subst hreceiver
      -- `null` has one level only.
      have hnull := (native_meaning hR hw.denotes hw.distinct hm).2 (hw.levels_eq hW hall ▸ hdeep)
      have hone : v.meaning.levels = 1 := by rw [heq.levels_eq, hnull, RecordTree.levels]
      rw [hone] at hdeep
      exact absurd hdeep (by decide)
    refine ⟨hall, hnative, fun l hl => ?_⟩
    -- Along the document, what is read is what each token stands for.
    have hmeans : RecordTree.Rel (fun y z => L.Means texts z y) (L.document v) m := by
      refine (hdocument.flip.trans heq).imp ?_
      rintro y - z ⟨_, hy, rfl⟩
      exact hy
    have hdistinct := hdocument.distinct (distinct_meaning v)
    have hgives := hw.rel_gives hW hR hall hnative hm
    obtain ⟨z, -, hz, hz'⟩ := (hmeans.and hdistinct hgives).exists_right hl
    have hstring : ∀ s, JsonToken.number l = .string s → Native.IsCText s := by
      intro s hs
      cases hs
    exact (eq_iff_takes hR hz hz' fun _ => hstring).mp rfl l rfl
  · rintro ⟨hall, hnative, htakes⟩
    obtain ⟨m, hm⟩ := hw.exists_parseJson hR hall htakes
    refine ⟨t, m, hw.writeJson, hm, ?_⟩
    have hleaf : RecordTree.Rel (fun y z => RecordTree.IsLeaf y (L.document v) ∧
        L.Gives texts receiver y z) (L.document v) m :=
      (hw.rel_gives hW hR hall hnative hm).imp fun y hy _ hz => ⟨hy, hz⟩
    refine (hdocument.trans hleaf).imp ?_
    rintro x - z ⟨y, hxy, hy, hyz⟩
    refine (eq_iff_takes hR hxy hyz fun hreceiver s hs => ?_).mpr fun l hl => htakes l (hl ▸ hy)
    exact (everyText_document hW (hnative hreceiver).1).1 s (hs ▸ hy)

end Exchange

/-! ## Three concrete libraries -/

namespace SampleLibraries

/-- Libraries for these texts. -/
def libraries : JsonLibraries (Option Document) where
  org :=
    { doubleToString := javaLiteral
      stringToNumber := Jvm.SampleJson.stringToNumber
      valueToString := fun v => some (v.map Jvm.SampleJson.token)
      nextValue := fun
        | none => .error "Missing value"
        | some d => .ok (d.map Jvm.SampleJson.object) }
  jsonC := Native.SampleJsonC.jsonC
  engine := Js.SampleEngine.engine
  jsonCLiteral := jsonCLiteral
  engineLiteral := ecmaScriptLiteral
  toString _ := "a value"

/-- A literal that is read as a double stands for its number. -/
theorem stands_of_rounds {l : NumberLiteral} {d : Double} (h : Double.Rounds l.toRat d) :
    SampleTexts.texts.Stands l d.value := by
  unfold JsonTexts.Stands
  split_ifs with hl
  · rw [NumberLiteral.toRat_of_isInteger hl] at h
    exact fun d' hd' => hd'.value_eq h
  · exact l.rounds_toDouble.value_eq h

/-- The libraries of the sample write as the exchange asks. -/
theorem writes : libraries.Writes SampleTexts.texts where
  org v _ _ := by
    refine ⟨v.map Jvm.SampleJson.token, rfl, (RecordTree.rel_map _ v).imp ?_⟩
    rintro x - _ rfl
    obtain _ | _ | (_ | _ | _ | _ | _) | _ := x <;> first | rfl | trivial
  jsonC v _ := by
    refine ⟨_, v.map Native.SampleJsonC.token, rfl, rfl, (RecordTree.rel_map _ v).imp ?_⟩
    rintro x - _ rfl
    cases x <;> rfl
  engine v _ _ := by
    refine ⟨_, rfl, (RecordTree.rel_map Js.SampleEngine.token _).imp ?_⟩
    rintro x - _ rfl
    cases x <;> rfl
  stands platform d hd := by
    refine stands_of_rounds ?_
    cases platform with
    | jvm =>
      rw [JsonLibraries.literal, Jvm.OrgJson.doubleLiteral, NumberLiteral.toRat_shave]
      exact rounds_javaLiteral hd
    | native => exact rounds_jsonCLiteral hd
    | js => exact rounds_ecmaScriptLiteral hd

/-- The libraries of the sample read as the exchange asks. -/
theorem reads : libraries.Reads SampleTexts.texts where
  nextValue t d hd _ _ := by
    obtain rfl : t = some d := hd
    refine ⟨_, rfl, (RecordTree.rel_map Jvm.SampleJson.object d).imp ?_⟩
    rintro x - _ rfl
    cases x <;> rfl
  integer := Jvm.SampleJson.stringToNumber_ofInt
  negativeZero := by
    have hread : Jvm.SampleJson.stringToNumber negativeZeroLiteral = .double .negativeZero :=
      if_pos rfl
    exact .inr hread
  decimal l _ hl := Jvm.SampleJson.stringToNumber_of_not_isInteger hl
  jsonC := SampleTexts.reads_jsonC
  rejects t d hd _ hlevels := by
    obtain rfl : t = some d := hd
    exact if_neg (not_le.mpr hlevels)
  engine := SampleTexts.reads_engine

/-- JS writes an `Int` as itself. -/
theorem engineLiteral_ofInt (n : Int32) :
    libraries.engineLiteral (.ofInt n.toInt) = .ofInt n.toInt := by
  have hlow := n.le_toInt
  have hhigh := n.toInt_lt
  have hn : n.toInt.natAbs < 2 ^ 53 := by omega
  exact ecmaScriptLiteral_of_toRat_eq (Double.ofInt_spec hn).2 hn

end SampleLibraries

/-- The list of the JVM arrives on a native target. -/
theorem exchanged_list : SampleLibraries.libraries.Exchanged (.jvm sampleList) .native := by
  refine (exchanged_iff SampleLibraries.writes SampleLibraries.reads _ _).mpr
    ⟨⟨nofun, nofun⟩, fun _ => ⟨everyText_map_scalar_iff.mpr ⟨fun s hs => ?_, fun k hk => ?_⟩, ?_⟩,
      fun l hl hinteger => ?_⟩
  · obtain rfl : s = .ascii "x" := by simpa [sampleList] using hs
    exact ⟨by decide, by decide⟩
  · obtain rfl | rfl : k = .ascii "a" ∨ k = .ascii "b" := by simpa [sampleList] using hk
    · exact ⟨by decide, by decide⟩
    · exact ⟨by decide, by decide⟩
  · decide
  · obtain ⟨x, hx, hxl⟩ := (RecordTree.rel_map _ sampleList.tree).exists_left hl
    have hleaf : x = .int 7 ∨ x = .double oneAndHalf ∨ x = .null ∨ x = .string (.ascii "x") := by
      simpa [sampleList] using hx
    obtain rfl | rfl | rfl | rfl := hleaf
    · rw [JsonToken.number.inj hxl]
      decide
    · have hliteral : SampleLibraries.libraries.literal .jvm oneAndHalf = oneAndHalfLiteral := by
        decide +kernel
      rw [JsonToken.number.inj hxl, hliteral] at hinteger
      exact absurd hinteger (by decide)
    · cases hxl
    · cases hxl

end Khala
