import Txdb.BlockTree

/-! Reference serializations: lawful instances of the serialization interface and of the index
key formats, built on a unary encoding of numbers. The serializers themselves are outside
txdb.cpp; these instances show that the laws the model assumes can be met together, and let the
model run on concrete stores.
-/

namespace Txdb

namespace Reference

-----------------------------------------------------------------------------------------
-- Numbers
-----------------------------------------------------------------------------------------

/-- Reads a unary number: `1` bytes counted up to a `0` byte. -/
def natDecode : Bytes → Option (Nat × Bytes)
  | [] => none
  | b :: rest =>
      if b = 0 then some (0, rest)
      else if b = 1 then (natDecode rest).map fun p => (p.1 + 1, p.2)
      else none

@[simp] theorem natDecode_zero (rest : Bytes) : natDecode (0 :: rest) = some (0, rest) := rfl

@[simp] theorem natDecode_one (rest : Bytes)
    : natDecode (1 :: rest) = (natDecode rest).map fun p => (p.1 + 1, p.2) := rfl

/-- A number in unary: as many `1` bytes as its value, then a `0` byte. -/
def nat : Codec Nat where
  encode n := List.replicate n 1 ++ [0]
  decode := natDecode
  decode_encode n rest := by
    induction n with
    | zero => rfl
    | succ n ih =>
        show natDecode (1 :: (List.replicate n 1 ++ [0] ++ rest)) = some (n + 1, rest)
        rw [natDecode_one, ih]
        rfl

@[simp] theorem nat_encode_zero : nat.encode 0 = [0] := rfl

@[simp] theorem nat_encode_succ (n : Nat) : nat.encode (n + 1) = 1 :: nat.encode n := rfl

/-- Unary numbers compare as their values, whatever follows the larger encoding; witness:
induction on both numbers.
-/
theorem nat_encode_le_iff (a b : Nat) (rest : Bytes) : nat.encode a ≤ nat.encode b ++ rest ↔ a ≤ b := by
  induction a generalizing b with
  | zero =>
      cases b with
      | zero => exact iff_of_true (Bytes.le_append _ _) (Nat.zero_le _)
      | succ b => exact iff_of_true (Bytes.cons_le_cons_iff.mpr (.inl (by decide))) (Nat.zero_le _)
  | succ a ih =>
      cases b with
      | zero =>
          have above : ¬(1 : Byte) < 0 ∧ (1 : Byte) ≠ 0 := by decide
          refine iff_of_false ?_ (Nat.not_succ_le_zero a)
          simp only [nat_encode_succ, nat_encode_zero, List.singleton_append, List.cons_append,
            Bytes.cons_le_cons_iff, above.1, above.2, false_and, or_false, not_false_eq_true]
      | succ b =>
          simp only [nat_encode_succ, List.cons_append, Bytes.cons_le_cons_iff, lt_self_iff_false,
            true_and, false_or, ih, Nat.add_le_add_iff_right]

/-- Keys that start with unary numbers compare by the numbers, then by what follows; witness:
induction on both numbers.
-/
theorem nat_encode_append_lt_iff (a b : Nat) (x y : Bytes)
    : nat.encode a ++ x < nat.encode b ++ y ↔ a < b ∨ a = b ∧ x < y := by
  have above : (0 : Byte) < 1 ∧ ¬(1 : Byte) < 0 ∧ (1 : Byte) ≠ 0 := by decide
  induction a generalizing b with
  | zero =>
      cases b with
      | zero =>
          simp only [nat_encode_zero, List.singleton_append, Bytes.cons_lt_cons_iff,
            lt_self_iff_false, false_or, true_and]
      | succ b =>
          simp only [nat_encode_zero, nat_encode_succ, List.singleton_append, List.cons_append,
            Bytes.cons_lt_cons_iff, above.1, true_or, Nat.zero_lt_succ]
  | succ a ih =>
      cases b with
      | zero =>
          simp only [nat_encode_zero, nat_encode_succ, List.singleton_append, List.cons_append,
            Bytes.cons_lt_cons_iff, above.2.1, above.2.2, false_and, or_false, Nat.not_lt_zero,
            Nat.succ_ne_zero]
      | succ b =>
          simp only [nat_encode_succ, List.cons_append, Bytes.cons_lt_cons_iff, lt_self_iff_false,
            false_or, true_and, ih, Nat.add_lt_add_iff_right, Nat.add_right_cancel_iff]

/-- An integer: a sign byte, `1` for a nonnegative one, then its magnitude in unary. -/
def int : Codec Int where
  encode
    | .ofNat n => 1 :: nat.encode n
    | .negSucc n => 0 :: nat.encode n
  decode
    | [] => none
    | b :: rest =>
        if b = 1 then (nat.decode rest).map fun p => (.ofNat p.1, p.2)
        else if b = 0 then (nat.decode rest).map fun p => (.negSucc p.1, p.2)
        else none
  decode_encode i rest := by
    cases i <;> simp [nat.decode_encode]

/-- Nonnegative integers compare as their values, whatever follows the larger encoding. -/
theorem int_encode_le_iff (a b : Nat) (rest : Bytes)
    : int.encode a ≤ int.encode b ++ rest ↔ (a : Int) ≤ b := by
  show 1 :: nat.encode a ≤ 1 :: (nat.encode b ++ rest) ↔ _
  simp only [Bytes.cons_le_cons_iff, lt_self_iff_false, true_and, false_or, nat_encode_le_iff,
    Int.ofNat_le]

-----------------------------------------------------------------------------------------
-- Containers
-----------------------------------------------------------------------------------------

/-- A value with nothing to write. -/
def unit : Codec Unit where
  encode _ := []
  decode bytes := some ((), bytes)
  decode_encode _ _ := rfl

/-- A byte string: its length, then its bytes. -/
def bytes : Codec Bytes where
  encode bs := nat.encode bs.length ++ bs
  decode input := (nat.decode input).bind fun p =>
    if p.1 ≤ p.2.length then some (p.2.take p.1, p.2.drop p.1) else none
  decode_encode bs rest := by
    simp [List.append_assoc, nat.decode_encode]

/-- An optional value: `0`, or `1` and the value. -/
def option {α : Type} (c : Codec α) : Codec (Option α) where
  encode
    | none => [0]
    | some a => 1 :: c.encode a
  decode
    | [] => none
    | b :: rest =>
        if b = 0 then some (none, rest)
        else if b = 1 then (c.decode rest).map fun p => (some p.1, p.2)
        else none
  decode_encode o rest := by
    cases o <;> simp [c.decode_encode]

/-- Reads `n` values in a row. -/
def decodeN {α : Type} (c : Codec α) : Nat → Bytes → Option (List α × Bytes)
  | 0, input => some ([], input)
  | n + 1, input =>
      (c.decode input).bind fun p => (decodeN c n p.2).map fun q => (p.1 :: q.1, q.2)

/-- A list: its length, then its elements. -/
def list {α : Type} (c : Codec α) : Codec (List α) where
  encode as := nat.encode as.length ++ as.flatMap c.encode
  decode input := (nat.decode input).bind fun p => decodeN c p.1 p.2
  decode_encode as rest := by
    have elements : ∀ (as : List α), decodeN c as.length (as.flatMap c.encode ++ rest) = some (as, rest) := by
      intro as
      induction as with
      | nil => rfl
      | cons a as ih => simp [decodeN, List.append_assoc, c.decode_encode, ih]
    simp [List.append_assoc, nat.decode_encode, elements]

-----------------------------------------------------------------------------------------
-- Records
-----------------------------------------------------------------------------------------

/-- A disk block index, field by field in declaration order. -/
def diskBlockIndex : Codec CDiskBlockIndex :=
  Codec.map
    (.pair (.blob 32) <| .pair int <| .pair int <| .pair nat <| .pair nat <| .pair (.blob 32) <|
      .pair int <| .pair (.blob 32) <| .pair (.blob 32) <| .pair nat <| .pair nat <|
      .pair (.blob 32) <| .pair bytes <| .pair nat <| .pair (option nat) <| .pair nat <|
      option int)
    (fun (hashPrev, nHeight, nFile, nDataPos, nUndoPos, hashSproutAnchor, nVersion, hashMerkleRoot,
        hashFinalSaplingRoot, nTime, nBits, nNonce, nSolution, nStatus, nCachedBranchId, nTx,
        nSproutValue) =>
      ⟨hashPrev, nHeight, nFile, nDataPos, nUndoPos, hashSproutAnchor, nVersion, hashMerkleRoot,
        hashFinalSaplingRoot, nTime, nBits, nNonce, nSolution, nStatus, nCachedBranchId, nTx,
        nSproutValue⟩)
    (fun d => (d.hashPrev, d.nHeight, d.nFile, d.nDataPos, d.nUndoPos, d.hashSproutAnchor,
      d.nVersion, d.hashMerkleRoot, d.hashFinalSaplingRoot, d.nTime, d.nBits, d.nNonce,
      d.nSolution, d.nStatus, d.nCachedBranchId, d.nTx, d.nSproutValue))
    fun _ => rfl

/-- A transaction output: its value, then its script. -/
def txOut : Codec CTxOut :=
  Codec.map (.pair int bytes) (fun (nValue, scriptPubKey) => ⟨nValue, scriptPubKey⟩)
    (fun out => (out.nValue, out.scriptPubKey)) fun _ => rfl

/-- A coin record: its outputs. -/
def coins : Codec CCoins := Codec.map (list txOut) (fun vout => ⟨vout⟩) (·.vout) fun _ => rfl

/-- A flag: the byte `1` for true, `0` for false. -/
def bool : Codec Bool where
  encode b := [if b then 1 else 0]
  decode
    | [] => none
    | b :: rest => if b = 1 then some (true, rest) else if b = 0 then some (false, rest) else none
  decode_encode b rest := by cases b <;> rfl

/-- A pool whose trees carry nothing, with the null hash as empty root. -/
def emptyTree : TreeFormat Unit := ⟨Blob.null 32, (), unit⟩

/-- The chainstate serializations, with `VARINT` as the unary numbers. -/
def coinsFormat : CoinsFormat Unit Unit where
  coins := coins
  spent := bool
  txOut := txOut
  varInt := nat
  sprout := emptyTree
  sapling := emptyTree

-----------------------------------------------------------------------------------------
-- Index keys
-----------------------------------------------------------------------------------------

/-- The seek key of an address: its type, then its hash. -/
def iteratorKey : Codec CAddressIndexIteratorKey :=
  Codec.map (.pair nat (.blob 20)) (fun (type, hashBytes) => ⟨type, hashBytes⟩)
    (fun p => (p.type, p.hashBytes)) fun _ => rfl

/-- An address-unspent key: its address's seek key, then the txid and the output index. -/
def addressUnspentKey : Codec CAddressUnspentKey :=
  Codec.map (.pair iteratorKey (.pair (.blob 32) nat))
    (fun (p, txhash, index) => ⟨p.type, p.hashBytes, txhash, index⟩)
    (fun k => (⟨k.type, k.hashBytes⟩, k.txhash, k.index)) fun _ => rfl

/-- An address-index key: its address's seek key, the height, the txid and the output index. -/
def addressIndexKey : Codec CAddressIndexKey :=
  Codec.map (.pair iteratorKey (.pair int (.pair (.blob 32) nat)))
    (fun (p, blockHeight, txhash, index) => ⟨p.type, p.hashBytes, blockHeight, txhash, index⟩)
    (fun k => (⟨k.type, k.hashBytes⟩, k.blockHeight, k.txhash, k.index)) fun _ => rfl

/-- A timestamp-index key: the timestamp, then the block hash. -/
def timestampIndexKey : Codec CTimestampIndexKey :=
  Codec.map (.pair nat (.blob 32)) (fun (timestamp, blockHash) => ⟨timestamp, blockHash⟩)
    (fun k => (k.timestamp, k.blockHash)) fun _ => rfl

/-- A key that starts with an address's seek key belongs to that address: seek keys are
encodings, so one cannot extend another.
-/
theorem iteratorKey_prefix_iff (p q : CAddressIndexIteratorKey) (rest : Bytes)
    : iteratorKey.encode p <+: iteratorKey.encode q ++ rest ↔ p = q := by
  constructor
  · rintro ⟨s, hs⟩
    exact (iteratorKey.encode_append_inj hs).1
  · rintro rfl
    exact List.prefix_append _ _

/-- The reference address-unspent key format. -/
def addressUnspentKeyFormat : AddressUnspentKeyFormat where
  key := addressUnspentKey
  iterator := iteratorKey.encode
  iterator_prefix p k := iteratorKey_prefix_iff p ⟨k.type, k.hashBytes⟩ _

/-- The reference address-index key format. -/
def addressIndexKeyFormat : AddressIndexKeyFormat where
  key := addressIndexKey
  iterator := iteratorKey.encode
  iteratorHeight p := iteratorKey.encode ⟨p.type, p.hashBytes⟩ ++ int.encode p.blockHeight
  iterator_prefix p k := iteratorKey_prefix_iff p ⟨k.type, k.hashBytes⟩ _
  iteratorHeight_prefix _ _ _ := List.prefix_append _ _
  iteratorHeight_le s k hs hk := by
    obtain ⟨a, rfl⟩ := Int.eq_ofNat_of_zero_le hs
    obtain ⟨b, hb⟩ := Int.eq_ofNat_of_zero_le hk
    show iteratorKey.encode _ ++ int.encode a ≤ iteratorKey.encode _ ++ (int.encode k.blockHeight ++ _) ↔ _
    rw [hb, Bytes.append_le_append_left_iff, int_encode_le_iff]

/-- The reference timestamp-index key format. -/
def timestampKeyFormat : TimestampKeyFormat where
  key := timestampIndexKey
  iterator p := nat.encode p.timestamp
  key_lt_iff _ _ := nat_encode_append_lt_iff _ _ _ _
  iterator_le low k := nat_encode_le_iff low k.timestamp _

-----------------------------------------------------------------------------------------
-- Hashes
-----------------------------------------------------------------------------------------

/-- A stand-in for the header hash in examples: the nonce, so that an example header hashes to
the value it chooses.
-/
def headerHash (header : CBlockHeader) : Uint256 := header.nNonce

/-- A stand-in for `CHashWriter::GetHash` in examples: every byte of the hash is the stream's
length.
-/
def streamHash (ss : Bytes) : Uint256 := Blob.fill 32 (Fin.ofNat ss.length)

end Reference

end Txdb
