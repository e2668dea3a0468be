import Khala.Library.Codec
import Mathlib.Data.Nat.Basic

/-!
# The codings of kotlinx-io

The binary payload is written and read through kotlinx-io, which is not part of the repository:
`KotlinxIo` has the functions that the payload uses, and `KotlinxIo.Lawful` what they promise. A
`Byte`, an `Int` and a `Double`, as its 64 bits, are read back from the bytes they were written as;
a string is written in UTF-8 and read one character after the other, until the UTF-16 units that
were asked for are there.

`KotlinxIo.bigEndian` is an instance with the byte order of the network, as kotlinx-io has it.
-/

namespace Khala

open Codec

/-! ## Strings -/

/-- How many UTF-16 units a character takes. -/
def utf16Size (c : Char) : ℕ := if c.val < 0x10000 then 1 else 2

/-- A character has a code unit. -/
theorem utf16Size_pos (c : Char) : 0 < utf16Size c := by
  unfold utf16Size
  split_ifs <;> decide

/-- A string of Kotlin without an unpaired surrogate: its characters. Its length is an `Int`. -/
structure KotlinString where
  /-- The characters of the string. -/
  chars : List Char
  units_lt : (chars.map utf16Size).sum < 2 ^ 31
deriving DecidableEq

namespace KotlinString

/-- The number of UTF-16 units of a string. -/
def units (s : KotlinString) : ℕ := (s.chars.map utf16Size).sum

/-- `String.length`: the number of UTF-16 units, as an `Int`. -/
def length (s : KotlinString) : Int32 := Int32.ofNat s.units

/-- The empty string. -/
def empty : KotlinString := ⟨[], by decide⟩

/-- The string that starts with a character. -/
def cons (c : Char) (s : KotlinString) (h : utf16Size c + s.units < 2 ^ 31) : KotlinString :=
  ⟨c :: s.chars, h⟩

/-- The bytes of a string in UTF-8. -/
def utf8 (s : KotlinString) : List UInt8 := s.chars.flatMap String.utf8EncodeChar

/-- The empty string has no bytes. -/
@[simp]
theorem utf8_empty : empty.utf8 = [] := rfl

/-- Every string is built up from the empty one, character by character. -/
theorem induction {P : KotlinString → Prop} (hempty : P empty)
    (hcons : ∀ c s h, P s → P (s.cons c h)) (s : KotlinString) : P s := by
  obtain ⟨chars, hs⟩ := s
  induction chars with
  | nil => exact hempty
  | cons c cs ih =>
    have hcs : (cs.map utf16Size).sum < 2 ^ 31 := by
      rw [List.map_cons, List.sum_cons] at hs
      omega
    exact hcons c ⟨cs, hcs⟩ hs (ih hcs)

end KotlinString

/-! ## The functions and what they promise -/

/-- A reading of bytes, which fails with the message of an exception. -/
abbrev Input : Type → Type := Reader String UInt8

/-- The functions of kotlinx-io that the binary payload uses: the bytes that each write appends to a
`ByteArrayOutput`, and the reads from a `ByteArrayInput`. -/
structure KotlinxIo where
  /-- `ByteArrayOutput.writeByte`. -/
  writeByte : Int8 → List UInt8
  /-- `ByteArrayOutput.writeInt`. -/
  writeInt : Int32 → List UInt8
  /-- `ByteArrayOutput.writeDouble`, on the bits of the double. -/
  writeDouble : UInt64 → List UInt8
  /-- `ByteArrayOutput.writeUtf8String`. -/
  writeUtf8String : KotlinString → List UInt8
  /-- `ByteArrayInput.readByte`. -/
  readByte : Input Int8
  /-- `ByteArrayInput.readInt`. -/
  readInt : Input Int32
  /-- `ByteArrayInput.readDouble`, to the bits of the double. -/
  readDouble : Input UInt64
  /-- `ByteArrayInput.readUtf8String`, with the number of UTF-16 units to read. -/
  readUtf8String : Int32 → Input KotlinString

/-- What kotlinx-io promises of its functions. -/
structure KotlinxIo.Lawful (io : KotlinxIo) : Prop where
  reads_writeByte : ∀ v, Reads io.readByte (io.writeByte v) v
  reads_writeInt : ∀ v, Reads io.readInt (io.writeInt v) v
  reads_writeDouble : ∀ v, Reads io.readDouble (io.writeDouble v) v
  writeUtf8String_eq : ∀ s, io.writeUtf8String s = s.utf8
  reads_empty : Reads (io.readUtf8String KotlinString.empty.length) [] KotlinString.empty
  reads_cons : ∀ c s h bytes, Reads (io.readUtf8String s.length) bytes s →
    Reads (io.readUtf8String (s.cons c h).length) (String.utf8EncodeChar c ++ bytes) (s.cons c h)

/-- A string is read back from its UTF-8 bytes with its length in UTF-16 units. -/
theorem KotlinxIo.Lawful.reads_utf8 {io : KotlinxIo} (h : io.Lawful) (s : KotlinString) :
    Reads (io.readUtf8String s.length) s.utf8 s := by
  induction s using KotlinString.induction with
  | hempty => exact h.reads_empty
  | hcons c s hc ih => exact h.reads_cons c s hc s.utf8 ih

/-! ## The byte order of the network -/

/-- The message of the exception at the end of the input. -/
def eofMessage : String := "End of input"

/-- Reads a character in UTF-8. -/
def readUtf8Char : Input Char := fun bytes =>
  match ByteArray.utf8DecodeChar? bytes.toByteArray 0 with
  | none => .error "Malformed UTF-8"
  | some c => .ok (c, bytes.drop c.utf8Size)

/-- A character is read from its bytes. -/
theorem reads_utf8Char (c : Char) : Reads readUtf8Char (String.utf8EncodeChar c) c := by
  intro rest
  have hc : ByteArray.utf8DecodeChar? (String.utf8EncodeChar c ++ rest).toByteArray 0 = some c := by
    rw [List.toByteArray_append]
    exact ByteArray.utf8DecodeChar?_utf8EncodeChar_append
  have hd : (String.utf8EncodeChar c ++ rest).drop c.utf8Size = rest := by
    rw [← String.length_utf8EncodeChar, List.drop_left]
  simp only [readUtf8Char, StateT.run, hc, hd]

/-- Reads characters until `n` UTF-16 units are there. -/
def readUtf8Chars : ℕ → Input (List Char)
  | 0 => pure []
  | n + 1 => do
    let c ← readUtf8Char
    List.cons c <$> readUtf8Chars (n + 1 - utf16Size c)
decreasing_by
  have := utf16Size_pos c
  omega

/-- A character is read before the others. -/
theorem reads_utf8Chars_add {n : ℕ} {cs : List Char} {bytes : List UInt8} (c : Char)
    (h : Reads (readUtf8Chars n) bytes cs) :
    Reads (readUtf8Chars (utf16Size c + n)) (String.utf8EncodeChar c ++ bytes) (c :: cs) := by
  -- A character takes a unit at least, so another one is read.
  obtain ⟨k, hk⟩ : ∃ k, utf16Size c + n = k + 1 :=
    ⟨utf16Size c + n - 1, by have := utf16Size_pos c; omega⟩
  have hn : k + 1 - utf16Size c = n := by omega
  rw [hk, readUtf8Chars]
  refine (reads_utf8Char c).bind ?_
  rw [hn]
  exact h.map _

/-- Reads a string of that many UTF-16 units. -/
def readUtf8String (length : Int32) : Input KotlinString := do
  let chars ← readUtf8Chars length.toNatClampNeg
  if h : (chars.map utf16Size).sum < 2 ^ 31 then pure ⟨chars, h⟩ else throw "Out of memory"

/-- A string is read if its characters are. -/
theorem reads_readUtf8String_iff {s : KotlinString} {bytes : List UInt8} :
    Reads (readUtf8String s.length) bytes s ↔ Reads (readUtf8Chars s.units) bytes s.chars := by
  have hl : s.length.toNatClampNeg = s.units := Int32.toNatClampNeg_ofNat_of_lt s.units_lt
  unfold readUtf8String
  rw [hl]
  constructor
  · intro h rest
    have hr := h rest
    rw [StateT.run_bind] at hr
    -- The characters that were read are those of `s`, since the string made of them is `s`.
    cases hcs : (readUtf8Chars s.units).run (bytes ++ rest) with
    | error e => rw [hcs] at hr; cases hr
    | ok res =>
      obtain ⟨cs, rest'⟩ := res
      rw [hcs] at hr
      change (if h : _ then _ else _ : Input KotlinString).run rest' = _ at hr
      split_ifs at hr
      · cases hr
        rfl
      · cases hr
  · intro h
    rw [← List.append_nil bytes]
    refine h.bind ?_
    rw [dif_pos s.units_lt]
    exact Reads.pure s

/-- kotlinx-io with the most significant byte of a number first. -/
def KotlinxIo.bigEndian : KotlinxIo where
  writeByte v := Codec.bigEndian 1 v.toBitVec.toNat
  writeInt v := Codec.bigEndian 4 v.toBitVec.toNat
  writeDouble v := Codec.bigEndian 8 v.toNat
  writeUtf8String s := s.utf8
  readByte := Int8.ofNat <$> readBigEndian eofMessage 1
  readInt := Int32.ofNat <$> readBigEndian eofMessage 4
  readDouble := UInt64.ofNat <$> readBigEndian eofMessage 8
  readUtf8String := Khala.readUtf8String

/-- The library that writes most significant bytes first is lawful. -/
theorem KotlinxIo.lawful_bigEndian : KotlinxIo.bigEndian.Lawful where
  reads_writeByte v := by
    have hv : Int8.ofNat v.toBitVec.toNat = v := by simp
    have h := (reads_bigEndian eofMessage (n := 1) v.toBitVec.isLt).map Int8.ofNat
    rwa [hv] at h
  reads_writeInt v := by
    have hv : Int32.ofNat v.toBitVec.toNat = v := by simp
    have h := (reads_bigEndian eofMessage (n := 4) v.toBitVec.isLt).map Int32.ofNat
    rwa [hv] at h
  reads_writeDouble v := by
    have hv : UInt64.ofNat v.toNat = v := by simp
    have h := (reads_bigEndian eofMessage (n := 8) v.toNat_lt).map UInt64.ofNat
    rwa [hv] at h
  writeUtf8String_eq _ := rfl
  reads_empty := by
    refine reads_readUtf8String_iff.mpr ?_
    rw [show KotlinString.empty.units = 0 from rfl, readUtf8Chars]
    exact Reads.pure []
  reads_cons c s h bytes hs := by
    rw [bigEndian, reads_readUtf8String_iff] at *
    exact reads_utf8Chars_add c hs

end Khala
