import Khala.Serialization.KotlinxIo

/-!
# The binary payload

`BinaryPayloadWriter` and `BinaryPayloadReader`, and the round trip between them: the reads that
match a sequence of writes return what was written and end at the end of the bytes. The payload has
no marks between its fields, so what carries the proof is that each field takes the same extent of
the bytes when it is read as when it was written, whatever stands behind it.

A local function goes into the list of the writer, and its place in the list is the id that is
written. On the other side the link is made of the id by `getTheirFunction`, which the repository
does not implement yet: it is a parameter here.
-/

namespace Khala

open Codec

/-! ## Links -/

/-- `NamedFunctionLink`. -/
structure NamedFunctionLink where
  /-- The address of the server. -/
  address : KotlinString
  /-- The name of the function. -/
  name : KotlinString
deriving DecidableEq

/-- `RemoteFunctionLink`: a link to a named function, or to one of the other side's own. -/
inductive RemoteFunctionLink (τ : Type) where
  /-- A link to a named function. -/
  | named (link : NamedFunctionLink)
  /-- A link to an anonymous function of the other side. -/
  | theirs (link : τ)
deriving DecidableEq

/-! ## The writer -/

/-- `BinaryPayloadWriter`, with the list of local functions that it has as a `PayloadWriter`. -/
structure BinaryPayloadWriter (φ : Type) where
  /-- The bytes of the `ByteArrayOutput`. -/
  bytePacketBuilder : List UInt8 := []
  /-- The functions that were added, in the order in which they were. -/
  localFunctions : List φ := []

namespace BinaryPayloadWriter

variable {φ : Type}

/-- `PayloadWriter.putLocalFunction`: appends a function and returns its index as its id. -/
def putLocalFunction (localFunction : φ) (w : BinaryPayloadWriter φ) :
    Int32 × BinaryPayloadWriter φ :=
  let localFunctions := w.localFunctions ++ [localFunction]
  (Int32.ofNat (localFunctions.length - 1), { w with localFunctions })

/-- Appends bytes to the `ByteArrayOutput`. -/
def append (bytes : List UInt8) (w : BinaryPayloadWriter φ) : BinaryPayloadWriter φ :=
  { w with bytePacketBuilder := w.bytePacketBuilder ++ bytes }

variable (io : KotlinxIo)

/-- `writeByte`. -/
def writeByte (v : Int8) (w : BinaryPayloadWriter φ) : BinaryPayloadWriter φ :=
  w.append (io.writeByte v)

/-- `writeBoolean`. -/
def writeBoolean (v : Bool) (w : BinaryPayloadWriter φ) : BinaryPayloadWriter φ :=
  w.append (io.writeByte (if v then 1 else 0))

/-- `writeInt`. -/
def writeInt (v : Int32) (w : BinaryPayloadWriter φ) : BinaryPayloadWriter φ :=
  w.append (io.writeInt v)

/-- `writeDouble`. -/
def writeDouble (v : UInt64) (w : BinaryPayloadWriter φ) : BinaryPayloadWriter φ :=
  w.append (io.writeDouble v)

/-- `writeString`. -/
def writeString (str : KotlinString) (w : BinaryPayloadWriter φ) : BinaryPayloadWriter φ :=
  (w.append (io.writeInt str.length)).append (io.writeUtf8String str)

/-- `addLocalFunction`. -/
def addLocalFunction (localFunction : φ) (w : BinaryPayloadWriter φ) : BinaryPayloadWriter φ :=
  let (localFunctionID, w) := w.putLocalFunction localFunction
  (w.append (io.writeByte 1)).append (io.writeInt localFunctionID)

/-- `addNamedFunction`. -/
def addNamedFunction (address name : KotlinString) (w : BinaryPayloadWriter φ) :
    BinaryPayloadWriter φ :=
  ((w.append (io.writeByte 0)).writeString io address).writeString io name

/-- `addNamedFunctionLink`. -/
def addNamedFunctionLink (namedFunctionLink : NamedFunctionLink) (w : BinaryPayloadWriter φ) :
    BinaryPayloadWriter φ :=
  w.addNamedFunction io namedFunctionLink.address namedFunctionLink.name

/-- `buildBinary`. -/
def buildBinary (w : BinaryPayloadWriter φ) : List UInt8 := w.bytePacketBuilder

end BinaryPayloadWriter

/-! ## The reader -/

namespace BinaryPayloadReader

variable (io : KotlinxIo)

/-- `readByte`. -/
def readByte : Input Int8 := io.readByte

/-- `readBoolean`. -/
def readBoolean : Input Bool := do
  let byte ← io.readByte
  return byte != 0

/-- `readInt`. -/
def readInt : Input Int32 := io.readInt

/-- `readDouble`. -/
def readDouble : Input UInt64 := io.readDouble

/-- `readString`. -/
def readString : Input KotlinString := do
  let length ← io.readInt
  io.readUtf8String length

/-- `readRemoteFunctionLink`. -/
def readRemoteFunctionLink {τ : Type} (getTheirFunction : Int32 → τ) :
    Input (RemoteFunctionLink τ) := do
  let linkType ← io.readByte
  if linkType = 0 then
    let address ← readString io
    let name ← readString io
    return .named ⟨address, name⟩
  else if linkType = 1 then
    let theirFunctionID ← io.readInt
    return .theirs (getTheirFunction theirFunctionID)
  else
    throw s!"Invalid payload: function link type {linkType} is not supported."

end BinaryPayloadReader

/-! ## Sequences of calls -/

/-- A call of a `BinaryPayloadWriter`. -/
inductive PayloadCall (φ : Type) where
  | writeByte (v : Int8)
  | writeBoolean (v : Bool)
  | writeInt (v : Int32)
  | writeDouble (v : UInt64)
  | writeString (str : KotlinString)
  | addLocalFunction (localFunction : φ)
  | addNamedFunction (address name : KotlinString)
  | addNamedFunctionLink (namedFunctionLink : NamedFunctionLink)

/-- A read of a `BinaryPayloadReader`. -/
inductive PayloadRead where
  | readByte
  | readBoolean
  | readInt
  | readDouble
  | readString
  | readRemoteFunctionLink

/-- What a read returns. -/
inductive PayloadValue (τ : Type) where
  | byte (v : Int8)
  | boolean (v : Bool)
  | int (v : Int32)
  | double (v : UInt64)
  | string (str : KotlinString)
  | link (link : RemoteFunctionLink τ)
deriving DecidableEq

namespace PayloadRead

variable {τ : Type}

/-- Executes a read. -/
def exec (io : KotlinxIo) (getTheirFunction : Int32 → τ) : PayloadRead → Input (PayloadValue τ)
  | readByte => .byte <$> BinaryPayloadReader.readByte io
  | readBoolean => .boolean <$> BinaryPayloadReader.readBoolean io
  | readInt => .int <$> BinaryPayloadReader.readInt io
  | readDouble => .double <$> BinaryPayloadReader.readDouble io
  | readString => .string <$> BinaryPayloadReader.readString io
  | readRemoteFunctionLink =>
    .link <$> BinaryPayloadReader.readRemoteFunctionLink io getTheirFunction

end PayloadRead

namespace PayloadCall

variable {φ τ : Type}

/-- Executes a call. -/
def exec (io : KotlinxIo) (w : BinaryPayloadWriter φ) : PayloadCall φ → BinaryPayloadWriter φ
  | writeByte v => w.writeByte io v
  | writeBoolean v => w.writeBoolean io v
  | writeInt v => w.writeInt io v
  | writeDouble v => w.writeDouble io v
  | writeString str => w.writeString io str
  | addLocalFunction localFunction => w.addLocalFunction io localFunction
  | addNamedFunction address name => w.addNamedFunction io address name
  | addNamedFunctionLink namedFunctionLink => w.addNamedFunctionLink io namedFunctionLink

/-- The read that matches a call. -/
def read : PayloadCall φ → PayloadRead
  | writeByte _ => .readByte
  | writeBoolean _ => .readBoolean
  | writeInt _ => .readInt
  | writeDouble _ => .readDouble
  | writeString _ => .readString
  | addLocalFunction _ | addNamedFunction _ _ | addNamedFunctionLink _ => .readRemoteFunctionLink

/-- The functions that a call adds. -/
def functions : PayloadCall φ → List φ
  | addLocalFunction localFunction => [localFunction]
  | _ => []

/-- What a call writes, as its read should return it: an added function is known by its id. -/
def value (getTheirFunction : Int32 → τ) (id : Int32) : PayloadCall φ → PayloadValue τ
  | writeByte v => .byte v
  | writeBoolean v => .boolean v
  | writeInt v => .int v
  | writeDouble v => .double v
  | writeString str => .string str
  | addLocalFunction _ => .link (.theirs (getTheirFunction id))
  | addNamedFunction address name => .link (.named ⟨address, name⟩)
  | addNamedFunctionLink namedFunctionLink => .link (.named namedFunctionLink)

/-- What a sequence of calls writes, after `n` functions were added: the `i`-th function that is
added has the id `i`. -/
def values (getTheirFunction : Int32 → τ) : ℕ → List (PayloadCall φ) → List (PayloadValue τ)
  | _, [] => []
  | n, call :: calls =>
    call.value getTheirFunction (Int32.ofNat n) ::
      values getTheirFunction (n + call.functions.length) calls

/-- The bytes of a string: the number of its UTF-16 units, and the string in UTF-8. -/
def stringBytes (io : KotlinxIo) (str : KotlinString) : List UInt8 :=
  io.writeInt str.length ++ str.utf8

/-- The bytes that a call appends. -/
def bytes (io : KotlinxIo) (id : Int32) : PayloadCall φ → List UInt8
  | writeByte v => io.writeByte v
  | writeBoolean v => io.writeByte (if v then 1 else 0)
  | writeInt v => io.writeInt v
  | writeDouble v => io.writeDouble v
  | writeString str => stringBytes io str
  | addLocalFunction _ => io.writeByte 1 ++ io.writeInt id
  | addNamedFunction address name | addNamedFunctionLink ⟨address, name⟩ =>
    io.writeByte 0 ++ (stringBytes io address ++ stringBytes io name)

variable {io : KotlinxIo} (h : io.Lawful)
include h

/-! ## One field -/

/-- A call appends its bytes and its functions. -/
theorem exec_eq (w : BinaryPayloadWriter φ) (call : PayloadCall φ) :
    call.exec io w =
      { bytePacketBuilder :=
          w.bytePacketBuilder ++ call.bytes io (Int32.ofNat w.localFunctions.length)
        localFunctions := w.localFunctions ++ call.functions } := by
  cases call <;>
    simp [exec, bytes, functions, stringBytes, BinaryPayloadWriter.writeByte,
      BinaryPayloadWriter.writeBoolean, BinaryPayloadWriter.writeInt,
      BinaryPayloadWriter.writeDouble, BinaryPayloadWriter.writeString,
      BinaryPayloadWriter.addLocalFunction, BinaryPayloadWriter.putLocalFunction,
      BinaryPayloadWriter.addNamedFunction, BinaryPayloadWriter.addNamedFunctionLink,
      BinaryPayloadWriter.append, h.writeUtf8String_eq]

/-- A boolean is read from its byte. -/
theorem reads_readBoolean (v : Bool) :
    Reads (BinaryPayloadReader.readBoolean io) (io.writeByte (if v then 1 else 0)) v := by
  have hv : ((if v then 1 else 0 : Int8) != 0) = v := by cases v <;> decide
  have hb := (h.reads_writeByte (if v then 1 else 0)).bind_pure (· != 0)
  rwa [hv] at hb

/-- A string is read from its length and its bytes. -/
theorem reads_readString (str : KotlinString) :
    Reads (BinaryPayloadReader.readString io) (stringBytes io str) str :=
  (h.reads_writeInt str.length).bind (h.reads_utf8 str)

/-- The link of a named function is read from its address and its name. -/
theorem reads_namedFunction (getTheirFunction : Int32 → τ) (address name : KotlinString) :
    Reads (BinaryPayloadReader.readRemoteFunctionLink io getTheirFunction)
      (io.writeByte 0 ++ (stringBytes io address ++ stringBytes io name))
      (.named ⟨address, name⟩) := by
  refine (h.reads_writeByte 0).bind ?_
  rw [if_pos rfl]
  refine (reads_readString h address).bind ?_
  exact (reads_readString h name).bind_pure fun name => RemoteFunctionLink.named ⟨address, name⟩

/-- The link of a local function is read from its index. -/
theorem reads_localFunction (getTheirFunction : Int32 → τ) (id : Int32) :
    Reads (BinaryPayloadReader.readRemoteFunctionLink io getTheirFunction)
      (io.writeByte 1 ++ io.writeInt id) (.theirs (getTheirFunction id)) := by
  refine (h.reads_writeByte 1).bind ?_
  rw [if_neg (by decide), if_pos rfl]
  exact (h.reads_writeInt id).bind_pure fun id => RemoteFunctionLink.theirs (getTheirFunction id)

/-- The read that matches a call takes the bytes of the call, whatever comes after them. -/
theorem reads_call (getTheirFunction : Int32 → τ) (id : Int32) (call : PayloadCall φ) :
    Reads (call.read.exec io getTheirFunction) (call.bytes io id)
      (call.value getTheirFunction id) := by
  cases call with
  | writeByte v => exact (h.reads_writeByte v).map _
  | writeBoolean v => exact (reads_readBoolean h v).map _
  | writeInt v => exact (h.reads_writeInt v).map _
  | writeDouble v => exact (h.reads_writeDouble v).map _
  | writeString str => exact (reads_readString h str).map _
  | addLocalFunction _ => exact (reads_localFunction h getTheirFunction id).map _
  | addNamedFunction address name =>
    exact (reads_namedFunction h getTheirFunction address name).map _
  | addNamedFunctionLink link =>
    exact (reads_namedFunction h getTheirFunction link.address link.name).map _

/-! ## A sequence of fields -/

/-- Each call adds the functions that it puts to the list of local functions. -/
theorem localFunctions_foldl (calls : List (PayloadCall φ)) (w : BinaryPayloadWriter φ) :
    (calls.foldl (exec io) w).localFunctions = w.localFunctions ++ calls.flatMap functions := by
  induction calls generalizing w with
  | nil => simp
  | cons call calls ih =>
    rw [List.foldl_cons, ih, exec_eq h, List.flatMap_cons, List.append_assoc]

/-- The calls append bytes that the matching reads take, whatever comes after them. -/
theorem reads_calls (getTheirFunction : Int32 → τ) (calls : List (PayloadCall φ))
    (w : BinaryPayloadWriter φ) :
    ∃ added, (calls.foldl (exec io) w).buildBinary = w.buildBinary ++ added ∧
      Reads ((calls.map read).mapM (PayloadRead.exec io getTheirFunction)) added
        (values getTheirFunction w.localFunctions.length calls) := by
  induction calls generalizing w with
  | nil => exact ⟨[], (List.append_nil _).symm, Reads.mapM_nil _⟩
  | cons call calls ih =>
    obtain ⟨added, hadded, hreads⟩ := ih (call.exec io w)
    -- The read of the first call stops where the bytes of the others begin.
    have hcall := reads_call h getTheirFunction (Int32.ofNat w.localFunctions.length) call
    refine ⟨call.bytes io (Int32.ofNat w.localFunctions.length) ++ added, ?_, ?_⟩
    · rw [List.foldl_cons, hadded, exec_eq h, ← List.append_assoc]
      rfl
    · rw [exec_eq h, List.length_append] at hreads
      exact hcall.mapM_cons hreads

end PayloadCall

variable {φ τ : Type}

/-- The binary payload round trip. The reads that match a sequence of calls return what was written
and end at the end of the bytes. The function that is added after `i` others is the `i`-th one of
the writer's list, and its link is the byte 1 and the id `i`, right behind the bytes that were
written before it. -/
theorem binary_roundTrip {io : KotlinxIo} (h : io.Lawful) (getTheirFunction : Int32 → τ)
    (calls : List (PayloadCall φ)) :
    let writer := calls.foldl (PayloadCall.exec io) {}
    ((calls.map PayloadCall.read).mapM (PayloadRead.exec io getTheirFunction)).run
        writer.buildBinary = .ok (PayloadCall.values getTheirFunction 0 calls, []) ∧
      writer.localFunctions = calls.flatMap PayloadCall.functions ∧
      ∀ before f after, calls = before ++ .addLocalFunction f :: after →
        let i := (before.flatMap PayloadCall.functions).length
        writer.localFunctions[i]? = some f ∧
          (before.foldl (PayloadCall.exec io) {}).buildBinary ++
            (io.writeByte 1 ++ io.writeInt (Int32.ofNat i)) <+: writer.buildBinary := by
  refine ⟨?_, PayloadCall.localFunctions_foldl h calls {}, ?_⟩
  · obtain ⟨added, hadded, hreads⟩ := PayloadCall.reads_calls h getTheirFunction calls {}
    rw [hadded]
    exact hreads.run_eq
  · rintro before f after rfl
    have hfs := PayloadCall.localFunctions_foldl h before ({} : BinaryPayloadWriter φ)
    rw [List.nil_append] at hfs
    refine ⟨?_, ?_⟩
    · rw [PayloadCall.localFunctions_foldl h]
      simp [PayloadCall.functions]
    · rw [List.foldl_append, List.foldl_cons]
      -- The calls after it append to the bytes that it has left.
      obtain ⟨added, hadded, -⟩ := PayloadCall.reads_calls h getTheirFunction after
        ((PayloadCall.addLocalFunction f).exec io (before.foldl (PayloadCall.exec io) {}))
      rw [hadded, PayloadCall.exec_eq h, hfs]
      exact List.prefix_append _ _

/-- Strings of characters of one to four bytes, a number and two functions there and back. -/
theorem binary_roundTrip_mixed :
    let str : KotlinString := ⟨['a', 'é', '€', '𝄞'], by decide⟩
    let calls : List (PayloadCall Char) :=
      [.writeString str, .addLocalFunction 'f', .writeBoolean true, .addLocalFunction 'g',
        .addNamedFunction .empty str]
    let writer := calls.foldl (PayloadCall.exec .bigEndian) {}
    ((calls.map PayloadCall.read).mapM (PayloadRead.exec .bigEndian id)).run writer.buildBinary =
        .ok ([.string str, .link (.theirs 0), .boolean true, .link (.theirs 1),
          .link (.named ⟨.empty, str⟩)], []) ∧
      writer.localFunctions = ['f', 'g'] :=
  ⟨(binary_roundTrip KotlinxIo.lawful_bigEndian id _).1,
    (binary_roundTrip KotlinxIo.lawful_bigEndian id _).2.1⟩

end Khala
