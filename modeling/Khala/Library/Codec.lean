import Mathlib.Algebra.Order.Ring.Nat
import Mathlib.Data.List.Basic

/-!
# Readers of streams without marks

A `Reader` takes values off the front of a stream of items, or fails with an error. In a format that
puts no marks around its fields, every field has to say on its own where it ends: `Reads r bs a`
says that the reader takes exactly the items `bs` off the front, whatever comes after them, and
returns `a`. The lemmas build that fact for a sequence of fields out of the facts for the fields.

The last section has the fields of a fixed number of bytes, most significant byte first.
-/

universe u

namespace Codec

/-- A reader of a stream of items. -/
abbrev Reader (ε β : Type u) : Type u → Type u := StateT (List β) (Except ε)

variable {ε β α γ κ : Type u}

/-- The reader takes exactly these items off the front of any stream, and returns this value. -/
def Reads (r : Reader ε β α) (items : List β) (a : α) : Prop :=
  ∀ rest, r.run (items ++ rest) = .ok (a, rest)

/-! ## Sequences of fields -/

/-- A reader that returns a value takes no items. -/
theorem Reads.pure (a : α) : Reads (Pure.pure a : Reader ε β α) [] a :=
  fun _ => rfl

/-- Two readers in a row take the items of the first one and then those of the second. -/
theorem Reads.bind {r : Reader ε β α} {f : α → Reader ε β γ} {xs ys : List β} {a : α} {c : γ}
    (hr : Reads r xs a) (hf : Reads (f a) ys c) : Reads (r >>= f) (xs ++ ys) c := by
  intro rest
  rw [List.append_assoc, StateT.run_bind, hr (ys ++ rest)]
  exact hf rest

/-- A function of what is read takes the same items. -/
theorem Reads.map {r : Reader ε β α} {xs : List β} {a : α} (g : α → γ) (hr : Reads r xs a) :
    Reads (g <$> r) xs (g a) := by
  intro rest
  rw [StateT.run_map, hr rest]
  rfl

/-- A function of what is read takes the same items, written as the end of a block. -/
theorem Reads.bind_pure {r : Reader ε β α} {xs : List β} {a : α} (g : α → γ) (hr : Reads r xs a) :
    Reads (r >>= fun x => Pure.pure (g x)) xs (g a) := by
  rw [bind_pure_comp]
  exact hr.map g

/-- Reading no values takes no items. -/
theorem Reads.mapM_nil (f : κ → Reader ε β α) : Reads ([].mapM f) [] [] :=
  fun _ => rfl

/-- Reading values one after the other takes their items one after the other. -/
theorem Reads.mapM_cons {f : κ → Reader ε β α} {k : κ} {ks : List κ} {xs ys : List β} {a : α}
    {as : List α} (hk : Reads (f k) xs a) (hks : Reads (ks.mapM f) ys as) :
    Reads ((k :: ks).mapM f) (xs ++ ys) (a :: as) := by
  rw [List.mapM_cons]
  exact hk.bind (hks.bind_pure _)

/-- A reader that takes all items of a stream ends at its end. -/
theorem Reads.run_eq {r : Reader ε β α} {items : List β} {a : α} (hr : Reads r items a) :
    r.run items = .ok (a, []) := by
  simpa using hr []

/-! ## Fields of a fixed width -/

/-- Takes `n` items, or fails with `eof` if fewer are left. -/
def take (eof : ε) (n : ℕ) : Reader ε β (List β) := fun items =>
  if n ≤ items.length then .ok (items.take n, items.drop n) else .error eof

/-- Taking as many items as there are takes them all. -/
theorem reads_take (eof : ε) (items : List β) : Reads (take eof items.length) items items := by
  intro rest
  simp [take, StateT.run]

/-- The `n` low bytes of a number, most significant byte first. -/
def bigEndian : ℕ → ℕ → List UInt8
  | 0, _ => []
  | n + 1, v => bigEndian n (v / 256) ++ [UInt8.ofNat v]

/-- The number with these bytes. -/
def ofBigEndian (bytes : List UInt8) : ℕ := bytes.foldl (fun v b => v * 256 + b.toNat) 0

/-- A number is written with the bytes that were asked for. -/
@[simp]
theorem length_bigEndian (n v : ℕ) : (bigEndian n v).length = n := by
  induction n generalizing v with
  | zero => rfl
  | succ n ih => rw [bigEndian, List.length_append, ih, List.length_singleton]

/-- The last byte is the least significant one. -/
theorem ofBigEndian_append_singleton (bytes : List UInt8) (b : UInt8) :
    ofBigEndian (bytes ++ [b]) = ofBigEndian bytes * 256 + b.toNat := by
  simp [ofBigEndian, List.foldl_append]

/-- A number is read back from its bytes, but for what they have no room for. -/
theorem ofBigEndian_bigEndian (n v : ℕ) : ofBigEndian (bigEndian n v) = v % 256 ^ n := by
  induction n generalizing v with
  | zero => rw [pow_zero, Nat.mod_one]; rfl
  | succ n ih =>
    have hb : (UInt8.ofNat v).toNat = v % 256 := UInt8.toNat_ofNat'
    rw [bigEndian, ofBigEndian_append_singleton, ih, hb, pow_succ', Nat.mod_mul, Nat.add_comm,
      Nat.mul_comm]

/-- Reads a number of `n` bytes. -/
def readBigEndian {ε : Type} (eof : ε) (n : ℕ) : Reader ε UInt8 ℕ := ofBigEndian <$> take eof n

/-- A number that its bytes have room for is read back. -/
theorem reads_bigEndian {ε : Type} (eof : ε) {n v : ℕ} (hv : v < 256 ^ n) :
    Reads (readBigEndian eof n) (bigEndian n v) v := by
  have ht : Reads (take eof n) (bigEndian n v) (bigEndian n v) := by
    simpa using reads_take eof (bigEndian n v)
  have hm := ht.map ofBigEndian
  rwa [ofBigEndian_bigEndian, Nat.mod_eq_of_lt hv] at hm

end Codec
