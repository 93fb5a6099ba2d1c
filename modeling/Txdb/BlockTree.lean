import Txdb.Coins
import Txdb.BlockIndex

/-! The block-tree store `CBlockTreeDB`: its key tags, the keys of its secondary indices with
the serialization laws the range scans rely on, and its point reads and batched writes.
-/

namespace Txdb

-----------------------------------------------------------------------------------------
-- Key tags
-----------------------------------------------------------------------------------------

/-- `DB_BLOCK_FILES = 'f'`. -/
def dbBlockFiles : Byte := .ofChar 'f'
/-- `DB_TXINDEX = 't'`. -/
def dbTxindex : Byte := .ofChar 't'
/-- `DB_ADDRESSINDEX = 'd'`. -/
def dbAddressindex : Byte := .ofChar 'd'
/-- `DB_ADDRESSUNSPENTINDEX = 'u'`. -/
def dbAddressunspentindex : Byte := .ofChar 'u'
/-- `DB_TIMESTAMPINDEX = 'S'`. -/
def dbTimestampindex : Byte := .ofChar 'S'
/-- `DB_BLOCKHASHINDEX = 'z'`. -/
def dbBlockhashindex : Byte := .ofChar 'z'
/-- `DB_SPENTINDEX = 'p'`. -/
def dbSpentindex : Byte := .ofChar 'p'
/-- `DB_BLOCK_INDEX = 'b'`. -/
def dbBlockIndex : Byte := .ofChar 'b'
/-- `DB_FLAG = 'F'`. -/
def dbFlag : Byte := .ofChar 'F'
/-- `DB_REINDEX_FLAG = 'R'`. -/
def dbReindexFlag : Byte := .ofChar 'R'
/-- `DB_LAST_BLOCK = 'l'`. -/
def dbLastBlock : Byte := .ofChar 'l'

/-- The key `make_pair(tag, payload)` of a payload serialized by `c`. -/
def pairKey {α : Type} (c : Codec α) (tag : Byte) (a : α) : Bytes := (Codec.tagged c).encode (tag, a)

@[simp] theorem pairKey_eq {α : Type} (c : Codec α) (tag : Byte) (a : α)
    : pairKey c tag a = tag :: c.encode a := rfl

-----------------------------------------------------------------------------------------
-- Index keys
-----------------------------------------------------------------------------------------

/-- Modelled from the spec: an address-unspent key (type, address hash, txid, output index). -/
structure CAddressUnspentKey where
  type : Nat
  hashBytes : Uint160
  txhash : Uint256
  index : Nat
  deriving DecidableEq

/-- Modelled from the spec: an address-index key (type, address hash, block height, txid,
output index).
-/
structure CAddressIndexKey where
  type : Nat
  hashBytes : Uint160
  blockHeight : Int
  txhash : Uint256
  index : Nat
  deriving DecidableEq

/-- The seek key of one address: `CAddressIndexIteratorKey(type, addressHash)`. -/
structure CAddressIndexIteratorKey where
  type : Nat
  hashBytes : Uint160
  deriving DecidableEq

/-- The seek key of one address from a height:
`CAddressIndexIteratorHeightKey(type, addressHash, start)`.
-/
structure CAddressIndexIteratorHeightKey where
  type : Nat
  hashBytes : Uint160
  blockHeight : Int
  deriving DecidableEq

/-- Modelled from the spec: a timestamp-index key (timestamp, block hash). -/
structure CTimestampIndexKey where
  timestamp : Nat
  blockHash : Uint256
  deriving DecidableEq

/-- The seek key `CTimestampIndexIteratorKey(low)`. -/
structure CTimestampIndexIteratorKey where
  timestamp : Nat
  deriving DecidableEq

/-- Modelled from the spec: the value of the block-hash index, a logical timestamp. -/
structure CTimestampBlockIndexValue where
  ltimestamp : Nat
  deriving DecidableEq

/-- Modelled from the spec: the serialization of address-unspent keys and of their seek key
(addressindex.h). A key starts with its address's iterator key and with no other, so the byte
range of an iterator key holds exactly that address's keys (§4.1).
-/
structure AddressUnspentKeyFormat where
  key : Codec CAddressUnspentKey
  iterator : CAddressIndexIteratorKey → Bytes
  iterator_prefix : ∀ p k, iterator p <+: key.encode k ↔ p = ⟨k.type, k.hashBytes⟩

/-- Modelled from the spec: the serialization of address-index keys and of their two seek keys
(addressindex.h). A key starts with its address's iterator key and with no other; the height
seek key extends the address's iterator key; and within one address, keys are ordered by
height, so a height seek key lies at or below exactly the keys at that height or above (§4.1). Heights
on the chain are never negative, and the law is stated for those: the serialization writes a
height as an unsigned big-endian word, which orders nonnegative heights only.
-/
structure AddressIndexKeyFormat where
  key : Codec CAddressIndexKey
  iterator : CAddressIndexIteratorKey → Bytes
  iteratorHeight : CAddressIndexIteratorHeightKey → Bytes
  iterator_prefix : ∀ p k, iterator p <+: key.encode k ↔ p = ⟨k.type, k.hashBytes⟩
  iteratorHeight_prefix : ∀ t h s, iterator ⟨t, h⟩ <+: iteratorHeight ⟨t, h, s⟩
  iteratorHeight_le : ∀ s k, 0 ≤ s → 0 ≤ k.blockHeight →
    (iteratorHeight ⟨k.type, k.hashBytes, s⟩ ≤ key.encode k ↔ s ≤ k.blockHeight)

/-- Modelled from the spec: the serialization of timestamp-index keys and of their seek key
(timestampindex.h): keys are ordered by timestamp, then by block hash, and the seek key of `low`
lies at or below exactly the keys of timestamp `low` or later.
-/
structure TimestampKeyFormat where
  key : Codec CTimestampIndexKey
  iterator : CTimestampIndexIteratorKey → Bytes
  key_lt_iff : ∀ k k', key.encode k < key.encode k'
    ↔ k.timestamp < k'.timestamp ∨ k.timestamp = k'.timestamp ∧ k.blockHash.data < k'.blockHash.data
  iterator_le : ∀ low k, iterator ⟨low⟩ ≤ key.encode k ↔ low ≤ k.timestamp

-----------------------------------------------------------------------------------------
-- Point reads and batched writes
-----------------------------------------------------------------------------------------

section Operations

variable {CBlockFileInfo CDiskTxPos CSpentIndexKey CSpentIndexValue CAddressUnspentValue : Type}

/-- `CBlockTreeDB::ReadBlockFileInfo`. -/
def readBlockFileInfo (int : Codec Int) (info : Codec CBlockFileInfo) (db : Store) (nFile : Int)
    : Option CBlockFileInfo :=
  db.read info (pairKey int dbBlockFiles nFile)

/-- `CBlockTreeDB::WriteReindexing`: the flag is present exactly while reindexing. -/
def writeReindexing (db : Store) (fReindexing : Bool) (committed : Bool) : Bool × Store :=
  db.writeBatch
    [if fReindexing then .write (slotKey dbReindexFlag) (Codec.byte.encode (.ofChar '1'))
      else .erase (slotKey dbReindexFlag)]
    committed

/-- `CBlockTreeDB::ReadReindexing`. -/
def readReindexing (db : Store) : Bool := db.contains (slotKey dbReindexFlag)

/-- `CBlockTreeDB::ReadLastBlockFile`. -/
def readLastBlockFile (int : Codec Int) (db : Store) : Option Int :=
  db.read int (slotKey dbLastBlock)

/-- The batch of `CBlockTreeDB::WriteBatchSync`: the file infos, the last file number, and each
block index under its hash. A pointer to a node is given as its hash and the node.
-/
def writeBatchSyncOps (int : Codec Int) (info : Codec CBlockFileInfo)
    (diskBlockIndex : Codec CDiskBlockIndex) (fileInfo : List (Int × CBlockFileInfo))
    (nLastFile : Int) (blockinfo : List (Uint256 × CBlockIndex))
    : List BatchOp :=
  fileInfo.map (fun f => .write (pairKey int dbBlockFiles f.1) (info.encode f.2))
    ++ [.write (slotKey dbLastBlock) (int.encode nLastFile)]
    ++ blockinfo.map fun b =>
      .write (hashKey dbBlockIndex b.1) (diskBlockIndex.encode (CDiskBlockIndex.ofIndex b.2))

/-- `CBlockTreeDB::WriteBatchSync`. -/
def writeBatchSync (int : Codec Int) (info : Codec CBlockFileInfo)
    (diskBlockIndex : Codec CDiskBlockIndex) (db : Store) (fileInfo : List (Int × CBlockFileInfo))
    (nLastFile : Int) (blockinfo : List (Uint256 × CBlockIndex)) (committed : Bool)
    : Bool × Store :=
  db.writeBatch (writeBatchSyncOps int info diskBlockIndex fileInfo nLastFile blockinfo) committed

/-- The batch of `CBlockTreeDB::EraseBatchSync`. -/
def eraseBatchSyncOps (blockinfo : List (Uint256 × CBlockIndex)) : List BatchOp :=
  blockinfo.map fun b => .erase (hashKey dbBlockIndex b.1)

/-- `CBlockTreeDB::EraseBatchSync`. -/
def eraseBatchSync (db : Store) (blockinfo : List (Uint256 × CBlockIndex)) (committed : Bool)
    : Bool × Store :=
  db.writeBatch (eraseBatchSyncOps blockinfo) committed

/-- `CBlockTreeDB::ReadTxIndex`. -/
def readTxIndex (pos : Codec CDiskTxPos) (db : Store) (txid : Uint256) : Option CDiskTxPos :=
  db.read pos (hashKey dbTxindex txid)

/-- `CBlockTreeDB::WriteTxIndex`. -/
def writeTxIndex (pos : Codec CDiskTxPos) (db : Store) (vect : List (Uint256 × CDiskTxPos))
    (committed : Bool)
    : Bool × Store :=
  db.writeBatch (vect.map fun p => .write (hashKey dbTxindex p.1) (pos.encode p.2)) committed

/-- `CBlockTreeDB::ReadSpentIndex`. -/
def readSpentIndex (key : Codec CSpentIndexKey) (value : Codec CSpentIndexValue) (db : Store)
    (k : CSpentIndexKey)
    : Option CSpentIndexValue :=
  db.read value (pairKey key dbSpentindex k)

/-- The batched update shared by `UpdateSpentIndex` and `UpdateAddressUnspentIndex`: a null
value erases its key, any other value is written.
-/
def updateIndexOps {K V : Type} (key : Codec K) (value : Codec V) (isNull : V → Bool)
    (tag : Byte) (vect : List (K × V))
    : List BatchOp :=
  vect.map fun p =>
    if isNull p.2 then .erase (pairKey key tag p.1) else .write (pairKey key tag p.1) (value.encode p.2)

/-- `CBlockTreeDB::UpdateSpentIndex`. -/
def updateSpentIndex (key : Codec CSpentIndexKey) (value : Codec CSpentIndexValue)
    (isNull : CSpentIndexValue → Bool) (db : Store) (vect : List (CSpentIndexKey × CSpentIndexValue))
    (committed : Bool)
    : Bool × Store :=
  db.writeBatch (updateIndexOps key value isNull dbSpentindex vect) committed

/-- `CBlockTreeDB::UpdateAddressUnspentIndex`. -/
def updateAddressUnspentIndex (fmt : AddressUnspentKeyFormat) (value : Codec CAddressUnspentValue)
    (isNull : CAddressUnspentValue → Bool) (db : Store)
    (vect : List (CAddressUnspentKey × CAddressUnspentValue)) (committed : Bool)
    : Bool × Store :=
  db.writeBatch (updateIndexOps fmt.key value isNull dbAddressunspentindex vect) committed

/-- `CBlockTreeDB::WriteAddressIndex`. -/
def writeAddressIndex (fmt : AddressIndexKeyFormat) (amount : Codec Int) (db : Store)
    (vect : List (CAddressIndexKey × Int)) (committed : Bool)
    : Bool × Store :=
  db.writeBatch
    (vect.map fun p => .write (pairKey fmt.key dbAddressindex p.1) (amount.encode p.2)) committed

/-- `CBlockTreeDB::EraseAddressIndex`. -/
def eraseAddressIndex (fmt : AddressIndexKeyFormat) (db : Store)
    (vect : List (CAddressIndexKey × Int)) (committed : Bool)
    : Bool × Store :=
  db.writeBatch (vect.map fun p => .erase (pairKey fmt.key dbAddressindex p.1)) committed

/-- `CBlockTreeDB::WriteTimestampIndex`: the key alone matters; the value is the integer 0. -/
def writeTimestampIndex (fmt : TimestampKeyFormat) (int : Codec Int) (db : Store)
    (timestampIndex : CTimestampIndexKey) (committed : Bool)
    : Bool × Store :=
  db.writeBatch [.write (pairKey fmt.key dbTimestampindex timestampIndex) (int.encode 0)] committed

/-- `CBlockTreeDB::WriteTimestampBlockIndex`. -/
def writeTimestampBlockIndex (value : Codec CTimestampBlockIndexValue) (db : Store)
    (blockhashIndex : Uint256) (logicalts : CTimestampBlockIndexValue) (committed : Bool)
    : Bool × Store :=
  db.writeBatch [.write (hashKey dbBlockhashindex blockhashIndex) (value.encode logicalts)]
    committed

/-- `CBlockTreeDB::ReadTimestampBlockIndex`. -/
def readTimestampBlockIndex (value : Codec CTimestampBlockIndexValue) (db : Store)
    (hash : Uint256)
    : Option Nat :=
  (db.read value (hashKey dbBlockhashindex hash)).map (·.ltimestamp)

/-- `CBlockTreeDB::WriteFlag`: the flag's byte is `'1'` or `'0'`. -/
def writeFlag (name : Codec String) (db : Store) (flag : String) (fValue : Bool)
    (committed : Bool)
    : Bool × Store :=
  db.writeBatch
    [.write (pairKey name dbFlag flag) (Codec.byte.encode (.ofChar (if fValue then '1' else '0')))]
    committed

/-- `CBlockTreeDB::ReadFlag`: a stored flag reads as set exactly when its byte is `'1'`. -/
def readFlag (name : Codec String) (db : Store) (flag : String) : Option Bool :=
  (db.read Codec.byte (pairKey name dbFlag flag)).map (· = .ofChar '1')

end Operations

end Txdb
