import Mathlib

/-! Byte strings in the order LevelDB's bytewise comparator gives them, the fixed-size blobs
`uint256` and `uint160`, and the serialization interface through which txdb.cpp writes its keys
and values.
-/

namespace Txdb

/-- One byte of a key or a value. -/
abbrev Byte := Fin 256

/-- A key or a value of the store, ordered lexicographically byte by byte. -/
abbrev Bytes := List Byte

/-- The byte of a one-character tag such as `DB_COINS = 'c'`. -/
def Byte.ofChar (c : Char) : Byte := Fin.ofNat c.toNat

-----------------------------------------------------------------------------------------
-- The bytewise order
-----------------------------------------------------------------------------------------

/-- Two keys with a first byte compare by that byte, then by the rest. -/
theorem Bytes.cons_lt_cons_iff {a b : Byte} {x y : Bytes}
    : a :: x < b :: y ↔ a < b ∨ a = b ∧ x < y := by
  show List.Lex _ _ _ ↔ _
  constructor
  · intro h
    cases h with
    | cons h => exact Or.inr ⟨rfl, h⟩
    | rel h => exact Or.inl h
  · rintro (h | ⟨rfl, h⟩)
    · exact List.Lex.rel h
    · exact List.Lex.cons h

/-- The non-strict form of `cons_lt_cons_iff`. -/
theorem Bytes.cons_le_cons_iff {a b : Byte} {x y : Bytes}
    : a :: x ≤ b :: y ↔ a < b ∨ a = b ∧ x ≤ y := by
  rw [le_iff_lt_or_eq, le_iff_lt_or_eq, cons_lt_cons_iff, List.cons.injEq, and_or_left, or_assoc]

/-- Only the empty key lies at or below the empty key. -/
theorem Bytes.not_cons_le_nil (a : Byte) (x : Bytes) : ¬a :: x ≤ [] := fun h =>
  (le_iff_lt_or_eq.mp h).elim (List.Lex.not_nil_right _ _) (List.cons_ne_nil _ _)

/-- A key lies at or below each of its extensions, by induction on the key. -/
theorem Bytes.le_append (p s : Bytes) : p ≤ p ++ s := by
  induction p with
  | nil => exact List.nil_le
  | cons a p ih => exact List.cons_le_cons a ih

/-- Keys with a common prefix compare as what follows it; witness: induction on the prefix. -/
theorem Bytes.append_le_append_left_iff (p : Bytes) {x y : Bytes} : p ++ x ≤ p ++ y ↔ x ≤ y := by
  induction p with
  | nil => rfl
  | cons a p ih => simp only [List.cons_append, cons_le_cons_iff, lt_self_iff_false, true_and, false_or, ih]

/-- A prefix lies at or below the key it starts. -/
theorem Bytes.le_of_prefix {p a : Bytes} (h : p <+: a) : p ≤ a := by
  obtain ⟨s, rfl⟩ := h
  exact le_append p s

/-- The keys sharing a prefix form an interval: a key between two of them shares it too.
This is what lets a scan seek to a prefix and stop at the first key outside it.
Witness: induction on the prefix; both bounds fix the next byte.
-/
theorem Bytes.prefix_of_le_of_le {p a b c : Bytes} (ha : p <+: a) (hc : p <+: c)
    (hab : a ≤ b) (hbc : b ≤ c)
    : p <+: b := by
  induction p generalizing a b c with
  | nil => exact List.nil_prefix
  | cons x p ih =>
      obtain ⟨a, rfl⟩ := ha
      obtain ⟨c, rfl⟩ := hc
      cases b with
      | nil => exact absurd hab (not_cons_le_nil _ _)
      | cons y b =>
          rw [List.cons_append, cons_le_cons_iff] at hab hbc
          rcases hab with hxy | ⟨rfl, hab⟩
          · rcases hbc with hyx | ⟨rfl, -⟩
            · exact absurd (hxy.trans hyx) (lt_irrefl _)
            · exact absurd hxy (lt_irrefl _)
          · rcases hbc with hyx | ⟨-, hbc⟩
            · exact absurd hyx (lt_irrefl _)
            · exact (List.prefix_cons_inj x).mpr
                (ih (List.prefix_append p a) (List.prefix_append p c) hab hbc)

/-- A key above a prefix that does not start with it lies above every key that does.
Witness: a key between would share the prefix, by `prefix_of_le_of_le`.
-/
theorem Bytes.lt_of_not_prefix {p a b : Bytes} (ha : p <+: a) (hpb : p ≤ b)
    (hb : ¬p <+: b)
    : a < b := by
  by_contra hab
  exact hb (prefix_of_le_of_le List.prefix_rfl ha hpb (le_of_not_lt hab))

-----------------------------------------------------------------------------------------
-- Fixed-size blobs
-----------------------------------------------------------------------------------------

/-- A fixed-size opaque blob (`base_blob`): its bytes in serialization order. -/
structure Blob (size : Nat) where
  data : Bytes
  size_eq : data.length = size
  deriving DecidableEq

/-- `uint256`: block, transaction, nullifier and tree-root hashes. -/
abbrev Uint256 := Blob 32

/-- `uint160`: the address hash of the address indices. -/
abbrev Uint160 := Blob 20

/-- The blob whose bytes are all `b`; `Blob.null` is the default value `uint256()`. -/
def Blob.fill (size : Nat) (b : Byte) : Blob size :=
  ⟨List.replicate size b, List.length_replicate size b⟩

/-- The all-zero blob, which is what `uint256()` constructs. -/
def Blob.null (size : Nat) : Blob size := fill size 0

/-- `IsNull()`: every byte is zero. -/
def Blob.isNull {size : Nat} (b : Blob size) : Bool := b.data.all (· = 0)

/-- A blob is null exactly when it is the default blob. -/
theorem Blob.isNull_iff {size : Nat} (b : Blob size) : b.isNull ↔ b = null size := by
  obtain ⟨data, rfl⟩ := b
  simp only [isNull, null, fill, List.all_eq_true, decide_eq_true_eq, Blob.mk.injEq]
  exact ⟨fun h => List.eq_replicate_iff.mpr ⟨rfl, h⟩,
    fun h x hx => (List.eq_replicate_iff.mp h).2 x hx⟩

/-- The default blob lies at or below every blob of its size, its bytes being all the least
byte; witness: induction on the bytes.
-/
theorem Blob.null_le {size : Nat} (b : Blob size) : (null size).data ≤ b.data := by
  obtain ⟨data, rfl⟩ := b
  induction data with
  | nil => exact le_refl _
  | cons c rest ih =>
      show (0 : Byte) :: (null rest.length).data ≤ c :: rest
      rw [Bytes.cons_le_cons_iff]
      rcases (Fin.zero_le c).lt_or_eq with h | h
      · exact .inl h
      · exact .inr ⟨h, ih⟩

-----------------------------------------------------------------------------------------
-- Serialization
-----------------------------------------------------------------------------------------

/-- Modelled from the spec: the serialization of one payload type (serialize.h and the payload
headers are outside txdb.cpp). Decoding reads what encoding wrote and leaves what follows, as
`CDataStream >>` does; `decode_encode` is the spec's round-trip property.
-/
structure Codec (α : Type) where
  encode : α → Bytes
  decode : Bytes → Option (α × Bytes)
  decode_encode : ∀ a rest, decode (encode a ++ rest) = some (a, rest)

namespace Codec

variable {α β : Type}

/-- A whole encoding decodes back to its value with nothing left over. -/
@[simp] theorem decode_encode_self (c : Codec α) (a : α) : c.decode (c.encode a) = some (a, []) := by
  simpa using c.decode_encode a []

/-- Encodings are prefix-free: an encoding followed by anything determines the value and the rest.
-/
theorem encode_append_inj (c : Codec α) {a b : α} {r s : Bytes}
    (h : c.encode a ++ r = c.encode b ++ s)
    : a = b ∧ r = s := by
  have := (c.decode_encode a r).symm.trans (h ▸ c.decode_encode b s)
  simpa using this

/-- Distinct values have distinct encodings. -/
theorem encode_injective (c : Codec α) : Function.Injective c.encode := fun a b h =>
  (c.encode_append_inj (r := []) (s := []) (by simpa using h)).1

/-- A codec for a type with two distinct values writes every value as at least one byte: an empty
encoding would be read in front of any other value's.
-/
theorem encode_ne_nil (c : Codec α) {a b : α} (hab : a ≠ b) : c.encode a ≠ [] := by
  intro h
  have read := c.decode_encode a (c.encode b)
  rw [h, List.nil_append, decode_encode_self] at read
  exact hab (congrArg Prod.fst (Option.some.inj read)).symm

/-- A `char` is written as its one byte. -/
def byte : Codec Byte where
  encode b := [b]
  decode
    | [] => none
    | b :: rest => some (b, rest)
  decode_encode _ _ := rfl

/-- A blob is written as its bytes. -/
def blob (size : Nat) : Codec (Blob size) where
  encode b := b.data
  decode bytes :=
    if h : size ≤ bytes.length then
      some (⟨bytes.take size, by simp [h]⟩, bytes.drop size)
    else none
  decode_encode b rest := by
    obtain ⟨data, rfl⟩ := b
    simp

/-- A `std::pair` is written as its first component, then its second. -/
def pair (ca : Codec α) (cb : Codec β) : Codec (α × β) where
  encode p := ca.encode p.1 ++ cb.encode p.2
  decode bytes := do
    let (a, rest) ← ca.decode bytes
    let (b, rest) ← cb.decode rest
    pure ((a, b), rest)
  decode_encode p rest := by
    simp [List.append_assoc, ca.decode_encode, cb.decode_encode]

/-- A type written as another one it converts to and back from. -/
def map (c : Codec α) (f : α → β) (g : β → α) (hfg : ∀ b, f (g b) = b) : Codec β where
  encode b := c.encode (g b)
  decode bytes := (c.decode bytes).map fun p => (f p.1, p.2)
  decode_encode b rest := by simp [c.decode_encode, hfg]

/-- The key `make_pair(tag, payload)`: the tag byte, then the payload. -/
def tagged (c : Codec α) : Codec (Byte × α) := pair byte c

@[simp] theorem tagged_encode (c : Codec α) (tag : Byte) (a : α)
    : (tagged c).encode (tag, a) = tag :: c.encode a := rfl

/-- Decoding a tagged key reads its first byte as the tag, then the payload. -/
theorem tagged_decode_cons (c : Codec α) (tag : Byte) (bytes : Bytes)
    : (tagged c).decode (tag :: bytes) = (c.decode bytes).map fun (a, rest) => ((tag, a), rest) := by
  cases h : c.decode bytes <;> simp [tagged, pair, byte, h]

/-- A tagged key without any byte does not decode. -/
@[simp] theorem tagged_decode_nil (c : Codec α) : (tagged c).decode [] = none := rfl

/-- A key that decodes with a tag starts with it. -/
theorem prefix_of_tagged_decode {c : Codec α} {bytes rest : Bytes} {tag : Byte} {a : α}
    (h : (tagged c).decode bytes = some ((tag, a), rest))
    : [tag] <+: bytes := by
  cases bytes with
  | nil => simp at h
  | cons t bytes =>
      rw [tagged_decode_cons] at h
      obtain ⟨⟨a', rest'⟩, -, he⟩ := Option.map_eq_some'.mp h
      cases he
      exact List.prefix_cons_inj _ |>.mpr List.nil_prefix

end Codec

end Txdb
