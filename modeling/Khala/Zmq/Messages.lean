import Mathlib.Data.List.TakeWhile
import Mathlib.Tactic.SplitIfs
import Khala.Zmq.Bindings

/-!
# Messages between platforms

A message is built of byte blocks and strings on one platform and taken apart on another. The string
conversions are those of any codec, and what a platform pops is what its conversion makes of the
sender's frame. Of a lawful codec `survives_iff` says which messages survive: on the JVM and on JS a
string's frame holds its UTF-8 bytes, whatever they are, but the native `addString` and `popString`
go through C strings, which end at the first NUL, and U+0000 is the one character whose UTF-8 bytes
hold one (`zero_mem_utf8EncodeChar_iff`).
-/

namespace Khala

/-! ## C strings -/

/-- The bytes of characters in UTF-8. -/
def utf8 (chars : List Char) : List UInt8 := chars.flatMap String.utf8EncodeChar

/-- The text that a C string holds: the characters before the first U+0000. -/
def cText (str : String) : String := String.ofList (str.toList.takeWhile (· ≠ '\x00'))

/-- Only U+0000 has a NUL among its UTF-8 bytes. -/
theorem zero_mem_utf8EncodeChar_iff (c : Char) : 0 ∈ String.utf8EncodeChar c ↔ c = '\x00' := by
  constructor
  · intro h
    have hzero : c.val.toNat = 0 := by
      simp only [String.utf8EncodeChar] at h
      generalize c.val.toNat = v at h ⊢
      split_ifs at h <;> simp [← UInt8.toNat_inj] at h <;> omega
    exact Char.ext (UInt32.toNat_inj.mp hzero)
  · rintro rfl
    decide

/-- The C string of a text ends before the first U+0000. -/
theorem cString_utf8 (chars : List Char) :
    cString (utf8 chars) = utf8 (chars.takeWhile (· ≠ '\x00')) := by
  induction chars with
  | nil => rfl
  | cons c chars ih =>
    by_cases hc : c = '\x00'
    · subst hc
      have hnul : String.utf8EncodeChar '\x00' = [0] := by decide
      simp [utf8, cString, hnul]
    · have hne : ∀ b ∈ String.utf8EncodeChar c, decide (b ≠ 0) = true := by
        intro b hb
        refine decide_eq_true ?_
        rintro rfl
        exact hc ((zero_mem_utf8EncodeChar_iff c).mp hb)
      rw [List.takeWhile_cons_of_pos (by simpa using hc), utf8, List.flatMap_cons, cString,
        List.takeWhile_append_of_pos hne]
      exact congrArg (String.utf8EncodeChar c ++ ·) ih

/-- The loop of `toList` adds the bytes from an index on. -/
theorem toList_loop_eq (bytes : ByteArray) (i : ℕ) (r : List UInt8) :
    ByteArray.toList.loop bytes i r = r.reverse ++ bytes.data.toList.drop i := by
  fun_induction ByteArray.toList.loop bytes i r with
  | case1 i r h ih =>
    have hi : i < bytes.data.toList.length := by simpa using h
    rw [ih, List.drop_eq_getElem_cons hi]
    simp [ByteArray.get!, getElem!_pos, h]
  | case2 i r h =>
    have hi : bytes.data.toList.length ≤ i := by simpa using h
    simp [List.drop_eq_nil_of_le hi]

/-- The bytes of a string are those of its characters. -/
theorem toList_toUTF8 (str : String) : str.toUTF8.toList = utf8 str.toList := by
  rw [ByteArray.toList, toList_loop_eq, String.toUTF8_eq_toByteArray, ← String.utf8Encode_toList]
  simp [List.utf8Encode, utf8]

/-- The C string of a text holds the bytes of its text. -/
theorem cString_toUTF8 (str : String) :
    cString str.toUTF8.toList = (cText str).toUTF8.toList := by
  rw [toList_toUTF8, cString_utf8, toList_toUTF8, cText, String.toList_ofList]

/-- The text of a C string is that of a C string. -/
theorem cText_cText (str : String) : cText (cText str) = cText str := by
  rw [cText, cText, String.toList_ofList, List.takeWhile_idem]

/-- A text is that of its C string exactly when U+0000 is not in it. -/
theorem cText_eq_iff (str : String) : cText str = str ↔ '\x00' ∉ str.toList := by
  rw [cText, ← String.toList_inj, String.toList_ofList, List.takeWhile_eq_self_iff]
  constructor
  · intro h hmem
    simpa using h _ hmem
  · intro h c hc
    refine decide_eq_true ?_
    rintro rfl
    exact h hc

/-! ## Lawful codecs -/

/-- What one platform reads of a string that another one wrote: the string, and on the way through
a native one, the text of its C string. -/
theorem StringCodec.Lawful.decode_encode {codec : StringCodec} (h : codec.Lawful)
    (sender receiver : Platform) (str : String) :
    codec.decode receiver (codec.encode sender str) =
      if sender = .native ∨ receiver = .native then cText str else str := by
  by_cases hsender : sender = .native <;> by_cases hreceiver : receiver = .native
  · subst hsender hreceiver
    rw [h.encode_native, cString_toUTF8,
      h.decode_native _ _ ((cString_toUTF8 (cText str)).trans (by rw [cText_cText]))]
    simp
  · subst hsender
    rw [h.encode_native, cString_toUTF8, h.decode_utf8 receiver hreceiver]
    simp
  · subst hreceiver
    rw [h.encode_utf8 sender hsender, h.decode_native _ _ (cString_toUTF8 str)]
    simp
  · rw [h.encode_utf8 sender hsender, h.decode_utf8 receiver hreceiver]
    simp [hsender, hreceiver]

/-- The string that bytes encode in UTF-8. `malformed` is what the decoder makes of bytes that are
no UTF-8. -/
def decodeUtf8 (malformed : Frame → String) (bytes : Frame) : String :=
  (String.fromUTF8? bytes.toByteArray).getD (malformed bytes)

/-- The codec that the libraries document, with a decoder's way with bytes that are no UTF-8. -/
def utf8Codec (malformed : Frame → String) : StringCodec where
  encode
    | .native, str => cString str.toUTF8.toList
    | .jvm, str => str.toUTF8.toList
    | .js, str => str.toUTF8.toList
  decode
    | .native, frame => decodeUtf8 malformed (cString frame)
    | .jvm, frame => decodeUtf8 malformed frame
    | .js, frame => decodeUtf8 malformed frame

/-- The bytes of a string are read back. -/
theorem decodeUtf8_toUTF8 (malformed : Frame → String) (str : String) :
    decodeUtf8 malformed str.toUTF8.toList = str := by
  rw [toList_toUTF8]
  have hvalid : (utf8 str.toList).toByteArray.IsValidUTF8 := ⟨str.toList, rfl⟩
  rw [decodeUtf8, String.fromUTF8?, dif_pos hvalid, Option.getD_some, ← String.toByteArray_inj]
  exact String.utf8Encode_toList

/-- It is lawful. -/
theorem utf8Codec_lawful (malformed : Frame → String) : (utf8Codec malformed).Lawful where
  encode_utf8 platform hplatform str := by
    cases platform with
    | native => exact absurd rfl hplatform
    | jvm | js => rfl
  decode_utf8 platform hplatform str := by
    cases platform with
    | native => exact absurd rfl hplatform
    | jvm | js => exact decodeUtf8_toUTF8 malformed str
  encode_native _ := rfl
  decode_native frame str hframe := by
    show decodeUtf8 malformed (cString frame) = str
    rw [hframe, decodeUtf8_toUTF8]

/-! ## Building a message and taking it apart -/

/-- What is added to a message as one frame. -/
inductive Content
  | bytes (block : Frame)
  | string (str : String)
  deriving DecidableEq

section Contents

variable (codec : StringCodec)

/-- `addBytes` or `addString`, as `MsgBuilder` calls them. -/
def ZmqMsg.add (platform : Platform) (msg : ZmqMsg) : Content → ZmqMsg
  | .bytes block => msg.addBytes block
  | .string str => msg.addString codec platform str

/-- `buildMsg`: the message with these frames. -/
def buildMsg (platform : Platform) (contents : List Content) : ZmqMsg :=
  contents.foldl (ZmqMsg.add codec platform) .new

/-- `popBytes` where a byte block was added, and `popString` where a string was. -/
def ZmqMsg.pop (platform : Platform) (msg : ZmqMsg) : Content → Option (Content × ZmqMsg)
  | .bytes _ => msg.popBytes.map fun (block, msg) => (.bytes block, msg)
  | .string _ => (msg.popString codec platform).map fun (str, msg) => (.string str, msg)

/-- What is popped from a message, in the order in which it was added, and what is left of it. -/
def ZmqMsg.popAll (platform : Platform) : List Content → ZmqMsg → Option (List Content × ZmqMsg)
  | [], msg => some ([], msg)
  | content :: contents, msg => do
    let (popped, msg) ← msg.pop codec platform content
    let (rest, msg) ← ZmqMsg.popAll platform contents msg
    return (popped :: rest, msg)

/-- The contents that are sent come out as they went in, and then the message is exhausted. -/
def Survives (sender receiver : Platform) (contents : List Content) : Prop :=
  ∃ received, (buildMsg codec sender contents).send [] = [received] ∧
    received.popAll codec receiver contents = some (contents, .new)

/-- The frame of a content. -/
def Content.frame (platform : Platform) : Content → Frame
  | .bytes block => block
  | .string str => codec.encode platform str

/-- The content that a receiver pops in its place. -/
def Content.received (sender receiver : Platform) : Content → Content
  | .bytes block => .bytes block
  | .string str => .string (codec.decode receiver (codec.encode sender str))

/-- The frame of what is added comes last. -/
@[simp] theorem frames_add (platform : Platform) (msg : ZmqMsg) (content : Content) :
    (msg.add codec platform content).frames = msg.frames ++ [content.frame codec platform] := by
  cases content <;> rfl

/-- A message has the frames of its contents. -/
theorem frames_buildMsg (platform : Platform) (contents : List Content) :
    (buildMsg codec platform contents).frames = contents.map (Content.frame codec platform) := by
  suffices h : ∀ msg : ZmqMsg, (contents.foldl (ZmqMsg.add codec platform) msg).frames =
      msg.frames ++ contents.map (Content.frame codec platform) from h .new
  induction contents with
  | nil => simp
  | cons content contents ih =>
    intro msg
    rw [List.foldl_cons, ih, frames_add, List.append_assoc]
    rfl

/-- The message that is built of contents has their frames. -/
theorem buildMsg_eq (platform : Platform) (contents : List Content) :
    buildMsg codec platform contents = ⟨contents.map (Content.frame codec platform)⟩ :=
  congrArg ZmqMsg.mk (frames_buildMsg codec platform contents)

/-- Popping the first frame gives the content as the receiver reads it. -/
theorem pop_frame (sender receiver : Platform) (content : Content) (frames : List Frame) :
    ZmqMsg.pop codec receiver ⟨content.frame codec sender :: frames⟩ content =
      some (content.received codec sender receiver, ⟨frames⟩) := by
  cases content <;> rfl

/-- Popping all of a message gives what the receiver reads, and leaves nothing. -/
theorem popAll_buildMsg (sender receiver : Platform) (contents : List Content) :
    (buildMsg codec sender contents).popAll codec receiver contents =
      some (contents.map (Content.received codec sender receiver), .new) := by
  rw [buildMsg_eq]
  induction contents with
  | nil => rfl
  | cons content contents ih =>
    rw [ZmqMsg.popAll, List.map_cons, pop_frame, Option.bind_eq_bind, Option.bind_some]
    simp [ih]

/-- A message with at least one frame survives when the receiver reads what was added. -/
theorem survives_iff_map_eq (sender receiver : Platform) {contents : List Content}
    (hne : contents ≠ []) :
    Survives codec sender receiver contents ↔
      contents.map (Content.received codec sender receiver) = contents := by
  have hsend : (buildMsg codec sender contents).send [] = [buildMsg codec sender contents] := by
    rw [ZmqMsg.send, if_neg (by simpa [frames_buildMsg] using hne), List.nil_append]
  rw [Survives, hsend]
  simp [popAll_buildMsg]

end Contents

/-- What the receiver reads is what was added exactly when no platform is native or the content is
no string with U+0000. -/
theorem StringCodec.Lawful.received_eq_iff {codec : StringCodec} (h : codec.Lawful)
    (sender receiver : Platform) (content : Content) :
    content.received codec sender receiver = content ↔
      (sender ≠ .native ∧ receiver ≠ .native) ∨
        ∀ str, content = .string str → '\x00' ∉ str.toList := by
  cases content with
  | bytes block => simp [Content.received]
  | string str =>
    by_cases hnative : sender = .native ∨ receiver = .native
    · have hnot : ¬ (sender ≠ .native ∧ receiver ≠ .native) := by tauto
      simp [Content.received, h.decode_encode, hnative, hnot, cText_eq_iff]
    · simp [Content.received, h.decode_encode, not_or.mp hnative]

/-- A message with at least one frame survives exactly when neither platform is native or no string
of it has U+0000. -/
theorem survives_iff {codec : StringCodec} (hcodec : codec.Lawful) (sender receiver : Platform)
    {contents : List Content} (hne : contents ≠ []) :
    Survives codec sender receiver contents ↔
      (sender ≠ .native ∧ receiver ≠ .native) ∨
        ∀ str, .string str ∈ contents → '\x00' ∉ str.toList := by
  calc Survives codec sender receiver contents
      ↔ contents.map (Content.received codec sender receiver) = contents :=
        survives_iff_map_eq codec sender receiver hne
    _ ↔ ∀ content ∈ contents, content.received codec sender receiver = content := by
        conv_lhs => rhs; rw [← List.map_id contents]
        exact List.map_inj_left
    _ ↔ _ := by
        simp only [hcodec.received_eq_iff]
        by_cases hnative : sender ≠ .native ∧ receiver ≠ .native
        · simp [hnative]
        · simp only [hnative, false_or]
          exact ⟨fun h str hmem => h _ hmem str rfl,
            fun h content hmem str heq => h str (heq ▸ hmem)⟩

/-- An empty string and a NUL byte survive from native to JS. -/
theorem survives_native_js :
    Survives (utf8Codec fun _ => "") .native .js [.string "", .bytes [0]] :=
  (survives_iff (utf8Codec_lawful _) .native .js (by simp)).mpr (.inr (by simp))

/-- A string with U+0000 comes out shortened on the way from the JVM to native. -/
theorem not_survives_nul : ¬ ∀ codec : StringCodec, codec.Lawful →
    ∀ sender receiver (contents : List Content), contents ≠ [] →
      Survives codec sender receiver contents := by
  intro h
  have hlawful := utf8Codec_lawful fun _ => ""
  have hsurvives := h _ hlawful .jvm .native [.string "a\x00b"] (by simp)
  rw [survives_iff_map_eq _ _ _ (by simp)] at hsurvives
  simp [Content.received, hlawful.decode_encode, cText_eq_iff] at hsurvives

end Khala
