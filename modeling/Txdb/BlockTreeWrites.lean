import Txdb.BlockTree

/-! The calls that write the block-tree store, and the shapes of the keys they leave in it. Every
key they write is an address-unspent key, a block-hash-index key, or a key whose tag lies below
`DB_ADDRESSUNSPENTINDEX`: `'z'` is the only tag of the block-tree store above `'u'`.
-/

namespace Txdb

-----------------------------------------------------------------------------------------
-- The write calls
-----------------------------------------------------------------------------------------

/-- The serializations the write calls of `CBlockTreeDB` use. -/
structure BlockTreeFormat (CBlockFileInfo CDiskTxPos CSpentIndexKey CSpentIndexValue
    CAddressUnspentValue : Type) where
  int : Codec Int
  info : Codec CBlockFileInfo
  diskBlockIndex : Codec CDiskBlockIndex
  pos : Codec CDiskTxPos
  spentKey : Codec CSpentIndexKey
  spentValue : Codec CSpentIndexValue
  spentIsNull : CSpentIndexValue → Bool
  addressUnspent : AddressUnspentKeyFormat
  unspentValue : Codec CAddressUnspentValue
  unspentIsNull : CAddressUnspentValue → Bool
  addressIndex : AddressIndexKeyFormat
  amount : Codec Int
  timestamp : TimestampKeyFormat
  blockhashValue : Codec CTimestampBlockIndexValue
  name : Codec String

/-- A call that writes the block-tree store, with the engine's commit outcome. -/
inductive BlockTreeWrite (CBlockFileInfo CDiskTxPos CSpentIndexKey CSpentIndexValue
    CAddressUnspentValue : Type)
  /-- `WriteReindexing(fReindexing)` -/
  | writeReindexing (fReindexing committed : Bool)
  /-- `WriteBatchSync(fileInfo, nLastFile, blockinfo)` -/
  | writeBatchSync (fileInfo : List (Int × CBlockFileInfo)) (nLastFile : Int)
      (blockinfo : List (Uint256 × CBlockIndex)) (committed : Bool)
  /-- `EraseBatchSync(blockinfo)` -/
  | eraseBatchSync (blockinfo : List (Uint256 × CBlockIndex)) (committed : Bool)
  /-- `WriteTxIndex(vect)` -/
  | writeTxIndex (vect : List (Uint256 × CDiskTxPos)) (committed : Bool)
  /-- `UpdateSpentIndex(vect)` -/
  | updateSpentIndex (vect : List (CSpentIndexKey × CSpentIndexValue)) (committed : Bool)
  /-- `UpdateAddressUnspentIndex(vect)` -/
  | updateAddressUnspentIndex (vect : List (CAddressUnspentKey × CAddressUnspentValue))
      (committed : Bool)
  /-- `WriteAddressIndex(vect)` -/
  | writeAddressIndex (vect : List (CAddressIndexKey × Int)) (committed : Bool)
  /-- `EraseAddressIndex(vect)` -/
  | eraseAddressIndex (vect : List (CAddressIndexKey × Int)) (committed : Bool)
  /-- `WriteTimestampIndex(timestampIndex)` -/
  | writeTimestampIndex (timestampIndex : CTimestampIndexKey) (committed : Bool)
  /-- `WriteTimestampBlockIndex(blockhashIndex, logicalts)` -/
  | writeTimestampBlockIndex (blockhashIndex : Uint256) (logicalts : CTimestampBlockIndexValue)
      (committed : Bool)
  /-- `WriteFlag(name, fValue)` -/
  | writeFlag (flag : String) (fValue committed : Bool)

namespace BlockTreeWrite

variable {CBlockFileInfo CDiskTxPos CSpentIndexKey CSpentIndexValue CAddressUnspentValue : Type}
  (f : BlockTreeFormat CBlockFileInfo CDiskTxPos CSpentIndexKey CSpentIndexValue CAddressUnspentValue)

/-- The store after a call. -/
def run (db : Store)
    : BlockTreeWrite CBlockFileInfo CDiskTxPos CSpentIndexKey CSpentIndexValue CAddressUnspentValue
      → Store
  | writeReindexing fReindexing committed => (Txdb.writeReindexing db fReindexing committed).2
  | writeBatchSync fileInfo nLastFile blockinfo committed =>
      (Txdb.writeBatchSync f.int f.info f.diskBlockIndex db fileInfo nLastFile blockinfo committed).2
  | eraseBatchSync blockinfo committed => (Txdb.eraseBatchSync db blockinfo committed).2
  | writeTxIndex vect committed => (Txdb.writeTxIndex f.pos db vect committed).2
  | updateSpentIndex vect committed =>
      (Txdb.updateSpentIndex f.spentKey f.spentValue f.spentIsNull db vect committed).2
  | updateAddressUnspentIndex vect committed =>
      (Txdb.updateAddressUnspentIndex f.addressUnspent f.unspentValue f.unspentIsNull db vect
        committed).2
  | writeAddressIndex vect committed =>
      (Txdb.writeAddressIndex f.addressIndex f.amount db vect committed).2
  | eraseAddressIndex vect committed => (Txdb.eraseAddressIndex f.addressIndex db vect committed).2
  | writeTimestampIndex timestampIndex committed =>
      (Txdb.writeTimestampIndex f.timestamp f.int db timestampIndex committed).2
  | writeTimestampBlockIndex blockhashIndex logicalts committed =>
      (Txdb.writeTimestampBlockIndex f.blockhashValue db blockhashIndex logicalts committed).2
  | writeFlag flag fValue committed => (Txdb.writeFlag f.name db flag fValue committed).2

/-- The batch a call hands to `WriteBatch`. -/
def batch
    : BlockTreeWrite CBlockFileInfo CDiskTxPos CSpentIndexKey CSpentIndexValue CAddressUnspentValue
      → List BatchOp
  | writeReindexing fReindexing _ =>
      [if fReindexing then .write (slotKey dbReindexFlag) (Codec.byte.encode (.ofChar '1'))
        else .erase (slotKey dbReindexFlag)]
  | writeBatchSync fileInfo nLastFile blockinfo _ =>
      writeBatchSyncOps f.int f.info f.diskBlockIndex fileInfo nLastFile blockinfo
  | eraseBatchSync blockinfo _ => eraseBatchSyncOps blockinfo
  | writeTxIndex vect _ => vect.map fun p => .write (hashKey dbTxindex p.1) (f.pos.encode p.2)
  | updateSpentIndex vect _ =>
      updateIndexOps f.spentKey f.spentValue f.spentIsNull dbSpentindex vect
  | updateAddressUnspentIndex vect _ =>
      updateIndexOps f.addressUnspent.key f.unspentValue f.unspentIsNull dbAddressunspentindex vect
  | writeAddressIndex vect _ =>
      vect.map fun p => .write (pairKey f.addressIndex.key dbAddressindex p.1) (f.amount.encode p.2)
  | eraseAddressIndex vect _ => vect.map fun p => .erase (pairKey f.addressIndex.key dbAddressindex p.1)
  | writeTimestampIndex timestampIndex _ =>
      [.write (pairKey f.timestamp.key dbTimestampindex timestampIndex) (f.int.encode 0)]
  | writeTimestampBlockIndex blockhashIndex logicalts _ =>
      [.write (hashKey dbBlockhashindex blockhashIndex) (f.blockhashValue.encode logicalts)]
  | writeFlag flag fValue _ =>
      [.write (pairKey f.name dbFlag flag) (Codec.byte.encode (.ofChar (if fValue then '1' else '0')))]

/-- The engine's commit outcome of a call. -/
def committed
    : BlockTreeWrite CBlockFileInfo CDiskTxPos CSpentIndexKey CSpentIndexValue CAddressUnspentValue
      → Bool
  | writeReindexing _ c | writeBatchSync _ _ _ c | eraseBatchSync _ c | writeTxIndex _ c
  | updateSpentIndex _ c | updateAddressUnspentIndex _ c | writeAddressIndex _ c
  | eraseAddressIndex _ c | writeTimestampIndex _ c | writeTimestampBlockIndex _ _ c
  | writeFlag _ _ c => c

/-- Every call is one `WriteBatch` of its batch. -/
theorem run_eq (db : Store)
    (call : BlockTreeWrite CBlockFileInfo CDiskTxPos CSpentIndexKey CSpentIndexValue
      CAddressUnspentValue)
    : call.run f db = (db.writeBatch (call.batch f) call.committed).2 := by
  cases call <;> rfl

end BlockTreeWrite

/-- The store after a sequence of calls. -/
def blockTreeWrites {CBlockFileInfo CDiskTxPos CSpentIndexKey CSpentIndexValue
      CAddressUnspentValue : Type}
    (f : BlockTreeFormat CBlockFileInfo CDiskTxPos CSpentIndexKey CSpentIndexValue
      CAddressUnspentValue)
    (db : Store)
    (calls : List (BlockTreeWrite CBlockFileInfo CDiskTxPos CSpentIndexKey CSpentIndexValue
      CAddressUnspentValue))
    : Store :=
  calls.foldl (fun db call => call.run f db) db

-----------------------------------------------------------------------------------------
-- The shapes of the keys
-----------------------------------------------------------------------------------------

/-- The shapes of the keys the write calls leave in the block-tree store: an address-unspent key,
a block-hash-index key, or a key whose tag lies below `DB_ADDRESSUNSPENTINDEX`.
-/
def BlockTreeKey (fmt : AddressUnspentKeyFormat) (key : Bytes) : Prop :=
  (∃ k, key = dbAddressunspentindex :: fmt.key.encode k)
  ∨ (∃ hash, key = hashKey dbBlockhashindex hash)
  ∨ ∃ tag rest, key = tag :: rest ∧ tag < dbAddressunspentindex

section Keys

variable {fmt : AddressUnspentKeyFormat}

/-- A key under a tag below `DB_ADDRESSUNSPENTINDEX` has a block-tree shape. -/
theorem BlockTreeKey.below {tag : Byte} (h : tag < dbAddressunspentindex) (rest : Bytes)
    : BlockTreeKey fmt (tag :: rest) :=
  .inr (.inr ⟨tag, rest, rfl, h⟩)

/-- The batched update of an index touches only keys of its tag. -/
theorem updateIndexOps_key {K V : Type} {key : Codec K} {value : Codec V} {isNull : V → Bool}
    {tag : Byte} {vect : List (K × V)} {op : BatchOp} (h : op ∈ updateIndexOps key value isNull tag vect)
    : ∃ p ∈ vect, op.key = pairKey key tag p.1 := by
  obtain ⟨p, hp, rfl⟩ := List.mem_map.mp h
  exact ⟨p, hp, by split <;> rfl⟩

end Keys

namespace BlockTreeWrite

variable {CBlockFileInfo CDiskTxPos CSpentIndexKey CSpentIndexValue CAddressUnspentValue : Type}
  (f : BlockTreeFormat CBlockFileInfo CDiskTxPos CSpentIndexKey CSpentIndexValue CAddressUnspentValue)

/-- Every key a call touches has a block-tree shape. Witness: the tags `'R'`, `'f'`, `'l'`, `'b'`,
`'t'`, `'p'`, `'d'`, `'S'` and `'F'` lie below `'u'`; `'u'` keys are address-unspent keys and `'z'`
keys block-hash-index keys.
-/
theorem batch_keys
    (call : BlockTreeWrite CBlockFileInfo CDiskTxPos CSpentIndexKey CSpentIndexValue
      CAddressUnspentValue)
    : ∀ op ∈ call.batch f, BlockTreeKey f.addressUnspent op.key := by
  intro op hop
  cases call with
  | writeReindexing fReindexing _ =>
      rw [batch, List.mem_singleton] at hop
      subst hop
      split <;> exact BlockTreeKey.below (show dbReindexFlag < dbAddressunspentindex by decide) []
  | writeBatchSync fileInfo nLastFile blockinfo _ =>
      simp only [batch, writeBatchSyncOps, List.mem_append, List.mem_map, List.mem_singleton] at hop
      rcases hop with (⟨_, -, rfl⟩ | rfl) | ⟨_, -, rfl⟩
      · exact BlockTreeKey.below (show dbBlockFiles < dbAddressunspentindex by decide) _
      · exact BlockTreeKey.below (show dbLastBlock < dbAddressunspentindex by decide) []
      · exact BlockTreeKey.below (show dbBlockIndex < dbAddressunspentindex by decide) _
  | eraseBatchSync blockinfo _ =>
      obtain ⟨_, -, rfl⟩ := List.mem_map.mp hop
      exact BlockTreeKey.below (show dbBlockIndex < dbAddressunspentindex by decide) _
  | writeTxIndex vect _ =>
      obtain ⟨_, -, rfl⟩ := List.mem_map.mp hop
      exact BlockTreeKey.below (show dbTxindex < dbAddressunspentindex by decide) _
  | updateSpentIndex vect _ =>
      obtain ⟨_, -, hkey⟩ := updateIndexOps_key hop
      exact hkey ▸ BlockTreeKey.below (show dbSpentindex < dbAddressunspentindex by decide) _
  | updateAddressUnspentIndex vect _ =>
      obtain ⟨p, -, hkey⟩ := updateIndexOps_key hop
      exact .inl ⟨p.1, hkey⟩
  | writeAddressIndex vect _ =>
      obtain ⟨_, -, rfl⟩ := List.mem_map.mp hop
      exact BlockTreeKey.below (show dbAddressindex < dbAddressunspentindex by decide) _
  | eraseAddressIndex vect _ =>
      obtain ⟨_, -, rfl⟩ := List.mem_map.mp hop
      exact BlockTreeKey.below (show dbAddressindex < dbAddressunspentindex by decide) _
  | writeTimestampIndex timestampIndex _ =>
      rw [batch, List.mem_singleton] at hop
      exact hop ▸ BlockTreeKey.below (show dbTimestampindex < dbAddressunspentindex by decide) _
  | writeTimestampBlockIndex blockhashIndex logicalts _ =>
      rw [batch, List.mem_singleton] at hop
      exact hop ▸ .inr (.inl ⟨blockhashIndex, rfl⟩)
  | writeFlag flag fValue _ =>
      rw [batch, List.mem_singleton] at hop
      exact hop ▸ BlockTreeKey.below (show dbFlag < dbAddressunspentindex by decide) _

end BlockTreeWrite

/-- After any sequence of write calls on a store whose keys have block-tree shapes, every key has
one. Witness: each call is one `WriteBatch` of keys of those shapes (`BlockTreeWrite.batch_keys`),
by induction on the calls.
-/
theorem blockTreeKey_blockTreeWrites {CBlockFileInfo CDiskTxPos CSpentIndexKey CSpentIndexValue
      CAddressUnspentValue : Type}
    (f : BlockTreeFormat CBlockFileInfo CDiskTxPos CSpentIndexKey CSpentIndexValue
      CAddressUnspentValue)
    {db : Store} (hdb : ∀ e ∈ db.entries, BlockTreeKey f.addressUnspent e.1)
    (calls : List (BlockTreeWrite CBlockFileInfo CDiskTxPos CSpentIndexKey CSpentIndexValue
      CAddressUnspentValue))
    : ∀ e ∈ (blockTreeWrites f db calls).entries, BlockTreeKey f.addressUnspent e.1 := by
  induction calls generalizing db with
  | nil => exact hdb
  | cons call calls ih =>
      have kept : ∀ e ∈ (call.run f db).entries, BlockTreeKey f.addressUnspent e.1 := by
        rw [BlockTreeWrite.run_eq]
        exact Store.keys_writeBatch hdb (call.batch_keys f) _
      exact ih kept

end Txdb
