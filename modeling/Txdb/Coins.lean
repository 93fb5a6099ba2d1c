import Txdb.Store

/-! The chainstate store `CCoinsViewDB`: its key tags, the cache maps a flush consumes, the point
reads, and `BatchWrite` with the per-pool helpers it instantiates.
-/

namespace Txdb

-----------------------------------------------------------------------------------------
-- Key tags and keys
-----------------------------------------------------------------------------------------

/-- `DB_SPROUT_ANCHOR = 'A'`. -/
def dbSproutAnchor : Byte := .ofChar 'A'
/-- `DB_SAPLING_ANCHOR = 'Z'`. -/
def dbSaplingAnchor : Byte := .ofChar 'Z'
/-- `DB_NULLIFIER = 's'`. -/
def dbNullifier : Byte := .ofChar 's'
/-- `DB_SAPLING_NULLIFIER = 'S'`. -/
def dbSaplingNullifier : Byte := .ofChar 'S'
/-- `DB_COINS = 'c'`. -/
def dbCoins : Byte := .ofChar 'c'
/-- `DB_BEST_BLOCK = 'B'`. -/
def dbBestBlock : Byte := .ofChar 'B'
/-- `DB_BEST_SPROUT_ANCHOR = 'a'`. -/
def dbBestSproutAnchor : Byte := .ofChar 'a'
/-- `DB_BEST_SAPLING_ANCHOR = 'z'`. -/
def dbBestSaplingAnchor : Byte := .ofChar 'z'

/-- The codec of a `uint256`. -/
def Uint256.codec : Codec Uint256 := Codec.blob 32

/-- The key `make_pair(tag, hash)`. -/
def hashKey (tag : Byte) (hash : Uint256) : Bytes := (Codec.tagged Uint256.codec).encode (tag, hash)

/-- The key of a scalar slot, a lone tag such as `DB_BEST_BLOCK`. -/
def slotKey (tag : Byte) : Bytes := Codec.byte.encode tag

@[simp] theorem hashKey_eq (tag : Byte) (hash : Uint256) : hashKey tag hash = tag :: hash.data := rfl

@[simp] theorem slotKey_eq (tag : Byte) : slotKey tag = [tag] := rfl

/-- Hash keys are equal exactly when tag and hash are. -/
theorem hashKey_inj {t t' : Byte} {h h' : Uint256}
    : hashKey t h = hashKey t' h' ↔ t = t' ∧ h = h' := by
  obtain ⟨d, hd⟩ := h
  obtain ⟨d', hd'⟩ := h'
  simp [Blob.mk.injEq]

/-- A hash key is never a scalar slot: it has 33 bytes, a slot one. -/
theorem hashKey_ne_slotKey (t t' : Byte) (h : Uint256) : hashKey t h ≠ slotKey t' := by
  obtain ⟨d, hd⟩ := h
  intro he
  have := congrArg List.length he
  simp [hd] at this

-----------------------------------------------------------------------------------------
-- Coins, trees and the serialization they rely on
-----------------------------------------------------------------------------------------

/-- Modelled from the spec: a transaction output (primitives/transaction.h). A spent output
stays in its coin record as a null output, which `IsNull()` recognises by the value -1.
-/
structure CTxOut where
  nValue : Int
  scriptPubKey : Bytes
  deriving DecidableEq

/-- `CTxOut::IsNull()`. -/
def CTxOut.isNull (out : CTxOut) : Bool := out.nValue = -1

/-- Modelled from the spec: a coin record, the outputs of one transaction (coins.h);
txdb.cpp reads only its outputs.
-/
structure CCoins where
  vout : List CTxOut
  deriving DecidableEq

/-- `CCoins::IsPruned()`: every output is spent. -/
def CCoins.isPruned (coins : CCoins) : Bool := coins.vout.all CTxOut.isNull

/-- The shielded pools, `ShieldedType`. -/
inductive ShieldedType
  | sprout
  | sapling
  deriving DecidableEq

/-- Modelled from the spec: what the store uses of a pool's commitment tree type: the empty
root (`Tree::empty_root()`), a default-constructed tree, and the tree's serialization.
-/
structure TreeFormat (Tree : Type) where
  emptyRoot : Uint256
  empty : Tree
  codec : Codec Tree

/-- Modelled from the spec: the serializations the chainstate store uses that are declared
outside txdb.cpp, and the two pools' tree formats.
-/
structure CoinsFormat (SproutTree SaplingTree : Type) where
  coins : Codec CCoins
  spent : Codec Bool
  txOut : Codec CTxOut
  varInt : Codec Nat
  sprout : TreeFormat SproutTree
  sapling : TreeFormat SaplingTree

-----------------------------------------------------------------------------------------
-- Cache maps and the erase-while-iterating loop
-----------------------------------------------------------------------------------------

/-- Modelled from the spec: the `DIRTY` bit of a cache entry's flags (coins.h). -/
def DIRTY : UInt8 := 1

/-- `flags & DIRTY`: the entry changed since it was loaded. -/
def isDirty (flags : UInt8) : Bool := (flags &&& DIRTY) != 0

/-- A `CCoinsMap` entry. -/
structure CCoinsCacheEntry where
  coins : CCoins
  flags : UInt8

/-- A `CAnchorsSproutMap` / `CAnchorsSaplingMap` entry: `entered` says whether the tree should
exist after the flush.
-/
structure CAnchorsCacheEntry (Tree : Type) where
  entered : Bool
  tree : Tree
  flags : UInt8

/-- A `CNullifiersMap` entry: `entered` says whether the nullifier is spent. -/
structure CNullifiersCacheEntry where
  entered : Bool
  flags : UInt8

/-- A cache map keyed by `uint256` (a `boost::unordered_map`): its entries in the map's
iteration order, one per key.
-/
structure CacheMap (E : Type) where
  entries : List (Uint256 × E)
  nodup : (entries.map Prod.fst).Nodup

namespace CacheMap

variable {E β : Type}

/-- The map with no entries. -/
def empty : CacheMap E := ⟨[], List.nodup_nil⟩

/-- `m.find(key)`. -/
def find (m : CacheMap E) (key : Uint256) : Option E :=
  (m.entries.find? fun e => e.1 = key).map Prod.snd

/-- `m.erase(it)` for the iterator at `key`: the node under `key` goes; iterators to the other
nodes stay valid.
-/
def erase (m : CacheMap E) (key : Uint256) : CacheMap E :=
  ⟨m.entries.filter (fun e => e.1 ≠ key), m.nodup.sublist ((List.filter_sublist _).map _)⟩

/-- The loop `for (it = m.begin(); it != m.end();) { body(*it); itOld = it++; m.erase(itOld); }`.
The cursor is the iteration sequence from `it` on; erasing the node at `itOld` leaves it as it
is, which is the iterator stability of node-based maps. The loop starts at `m.entries`.
-/
def drain (body : β → Uint256 × E → β) (acc : β) (m : CacheMap E)
    : List (Uint256 × E) → β × CacheMap E
  | [] => (acc, m)
  | entry :: rest => drain body (body acc entry) (m.erase entry.1) rest

end CacheMap

-----------------------------------------------------------------------------------------
-- BatchWrite
-----------------------------------------------------------------------------------------

section BatchWrite

variable {SproutTree SaplingTree Tree : Type}

/-- The body of `BatchWrite`'s coin loop on one entry, with the batch and the counters `count`
and `changed`: a dirty entry erases a pruned record and writes any other.
-/
def batchWriteCoin (coins : Codec CCoins) (acc : List BatchOp × Nat × Nat)
    (entry : Uint256 × CCoinsCacheEntry)
    : List BatchOp × Nat × Nat :=
  if isDirty entry.2.flags then
    let op :=
      if entry.2.coins.isPruned then .erase (hashKey dbCoins entry.1)
      else .write (hashKey dbCoins entry.1) (coins.encode entry.2.coins)
    (acc.1 ++ [op], acc.2.1 + 1, acc.2.2 + 1)
  else (acc.1, acc.2.1 + 1, acc.2.2)

/-- The body of `BatchWriteAnchors` on one entry: a dirty entry not entered is erased, and a
dirty entered one is written unless its root is the pool's empty root.
-/
def batchWriteAnchor (pool : TreeFormat Tree) (dbChar : Byte) (batch : List BatchOp)
    (entry : Uint256 × CAnchorsCacheEntry Tree)
    : List BatchOp :=
  if isDirty entry.2.flags then
    if !entry.2.entered then batch ++ [.erase (hashKey dbChar entry.1)]
    else if entry.1 ≠ pool.emptyRoot then
      batch ++ [.write (hashKey dbChar entry.1) (pool.codec.encode entry.2.tree)]
    else batch
  else batch

/-- `BatchWriteAnchors<Map, MapIterator, MapEntry, Tree>(batch, mapToUse, dbChar)`. -/
def batchWriteAnchors (pool : TreeFormat Tree) (dbChar : Byte) (batch : List BatchOp)
    (mapToUse : CacheMap (CAnchorsCacheEntry Tree))
    : List BatchOp × CacheMap (CAnchorsCacheEntry Tree) :=
  mapToUse.drain (batchWriteAnchor pool dbChar) batch mapToUse.entries

/-- The body of `BatchWriteNullifiers` on one entry: a dirty entry not entered is erased, and a
dirty entered one is written as spent.
-/
def batchWriteNullifier (spent : Codec Bool) (dbChar : Byte) (batch : List BatchOp)
    (entry : Uint256 × CNullifiersCacheEntry)
    : List BatchOp :=
  if isDirty entry.2.flags then
    if !entry.2.entered then batch ++ [.erase (hashKey dbChar entry.1)]
    else batch ++ [.write (hashKey dbChar entry.1) (spent.encode true)]
  else batch

/-- `BatchWriteNullifiers(batch, mapToUse, dbChar)`. -/
def batchWriteNullifiers (spent : Codec Bool) (dbChar : Byte) (batch : List BatchOp)
    (mapToUse : CacheMap CNullifiersCacheEntry)
    : List BatchOp × CacheMap CNullifiersCacheEntry :=
  mapToUse.drain (batchWriteNullifier spent dbChar) batch mapToUse.entries

/-- `if (!hash.IsNull()) batch.Write(tag, hash)`: a best slot is only written with a non-null
hash.
-/
def batchWriteBest (dbChar : Byte) (hash : Uint256) (batch : List BatchOp) : List BatchOp :=
  if !hash.isNull then batch ++ [.write (slotKey dbChar) (Uint256.codec.encode hash)] else batch

/-- What `BatchWrite` hands back: its return value, the store after the commit, the five maps it
was passed by reference, and the counts it logs.
-/
structure BatchWriteResult (SproutTree SaplingTree : Type) where
  ok : Bool
  db : Store
  mapCoins : CacheMap CCoinsCacheEntry
  mapSproutAnchors : CacheMap (CAnchorsCacheEntry SproutTree)
  mapSaplingAnchors : CacheMap (CAnchorsCacheEntry SaplingTree)
  mapSproutNullifiers : CacheMap CNullifiersCacheEntry
  mapSaplingNullifiers : CacheMap CNullifiersCacheEntry
  count : Nat
  changed : Nat

/-- The batch `BatchWrite` builds, with the five maps after their loops and the counters. -/
def batchWriteBatch (fmt : CoinsFormat SproutTree SaplingTree)
    (mapCoins : CacheMap CCoinsCacheEntry) (hashBlock hashSproutAnchor hashSaplingAnchor : Uint256)
    (mapSproutAnchors : CacheMap (CAnchorsCacheEntry SproutTree))
    (mapSaplingAnchors : CacheMap (CAnchorsCacheEntry SaplingTree))
    (mapSproutNullifiers mapSaplingNullifiers : CacheMap CNullifiersCacheEntry)
    : BatchWriteResult SproutTree SaplingTree × List BatchOp :=
  let coinPass := mapCoins.drain (batchWriteCoin fmt.coins) ([], 0, 0) mapCoins.entries
  let sproutAnchors := batchWriteAnchors fmt.sprout dbSproutAnchor coinPass.1.1 mapSproutAnchors
  let saplingAnchors :=
    batchWriteAnchors fmt.sapling dbSaplingAnchor sproutAnchors.1 mapSaplingAnchors
  let sproutNullifiers :=
    batchWriteNullifiers fmt.spent dbNullifier saplingAnchors.1 mapSproutNullifiers
  let saplingNullifiers :=
    batchWriteNullifiers fmt.spent dbSaplingNullifier sproutNullifiers.1 mapSaplingNullifiers
  let batch := batchWriteBest dbBestSaplingAnchor hashSaplingAnchor
    (batchWriteBest dbBestSproutAnchor hashSproutAnchor
      (batchWriteBest dbBestBlock hashBlock saplingNullifiers.1))
  ({ ok := false, db := Store.empty, mapCoins := coinPass.2,
     mapSproutAnchors := sproutAnchors.2, mapSaplingAnchors := saplingAnchors.2,
     mapSproutNullifiers := sproutNullifiers.2, mapSaplingNullifiers := saplingNullifiers.2,
     count := coinPass.1.2.1, changed := coinPass.1.2.2 }, batch)

/-- `CCoinsViewDB::BatchWrite`: drains the five maps into one batch, adds the non-null best
slots, and commits the batch; `committed` is the engine's outcome.
-/
def batchWrite (fmt : CoinsFormat SproutTree SaplingTree) (db : Store)
    (mapCoins : CacheMap CCoinsCacheEntry) (hashBlock hashSproutAnchor hashSaplingAnchor : Uint256)
    (mapSproutAnchors : CacheMap (CAnchorsCacheEntry SproutTree))
    (mapSaplingAnchors : CacheMap (CAnchorsCacheEntry SaplingTree))
    (mapSproutNullifiers mapSaplingNullifiers : CacheMap CNullifiersCacheEntry)
    (committed : Bool)
    : BatchWriteResult SproutTree SaplingTree :=
  let built := batchWriteBatch fmt mapCoins hashBlock hashSproutAnchor hashSaplingAnchor
    mapSproutAnchors mapSaplingAnchors mapSproutNullifiers mapSaplingNullifiers
  let commit := db.writeBatch built.2 committed
  { built.1 with ok := commit.1, db := commit.2 }

end BatchWrite

-----------------------------------------------------------------------------------------
-- Point reads
-----------------------------------------------------------------------------------------

section Reads

variable {SproutTree SaplingTree Tree : Type}

/-- `GetSproutAnchorAt` / `GetSaplingAnchorAt`: the pool's empty root yields a fresh tree
without a read; any other root is read from the store.
-/
def getAnchorAt (pool : TreeFormat Tree) (dbChar : Byte) (db : Store) (rt : Uint256)
    : Option Tree :=
  if rt = pool.emptyRoot then some pool.empty else db.read pool.codec (hashKey dbChar rt)

/-- `CCoinsViewDB::GetSproutAnchorAt`. -/
def getSproutAnchorAt (fmt : CoinsFormat SproutTree SaplingTree) (db : Store) (rt : Uint256)
    : Option SproutTree :=
  getAnchorAt fmt.sprout dbSproutAnchor db rt

/-- `CCoinsViewDB::GetSaplingAnchorAt`. -/
def getSaplingAnchorAt (fmt : CoinsFormat SproutTree SaplingTree) (db : Store) (rt : Uint256)
    : Option SaplingTree :=
  getAnchorAt fmt.sapling dbSaplingAnchor db rt

/-- The nullifier tag `GetNullifier` selects for a pool. -/
def nullifierTag : ShieldedType → Byte
  | .sprout => dbNullifier
  | .sapling => dbSaplingNullifier

/-- `CCoinsViewDB::GetNullifier`: whether the pool's nullifier record is present and reads. -/
def getNullifier (fmt : CoinsFormat SproutTree SaplingTree) (db : Store) (nf : Uint256)
    (type : ShieldedType)
    : Bool :=
  (db.read fmt.spent (hashKey (nullifierTag type) nf)).isSome

/-- `CCoinsViewDB::GetCoins`. -/
def getCoins (fmt : CoinsFormat SproutTree SaplingTree) (db : Store) (txid : Uint256)
    : Option CCoins :=
  db.read fmt.coins (hashKey dbCoins txid)

/-- `CCoinsViewDB::HaveCoins`. -/
def haveCoins (db : Store) (txid : Uint256) : Bool := db.contains (hashKey dbCoins txid)

/-- `CCoinsViewDB::GetBestBlock`: the null hash when the slot is unset. -/
def getBestBlock (db : Store) : Uint256 :=
  (db.read Uint256.codec (slotKey dbBestBlock)).getD (Blob.null 32)

/-- `CCoinsViewDB::GetBestAnchor`: the pool's empty root when its slot is unset. -/
def getBestAnchor (fmt : CoinsFormat SproutTree SaplingTree) (db : Store)
    : ShieldedType → Uint256
  | .sprout => (db.read Uint256.codec (slotKey dbBestSproutAnchor)).getD fmt.sprout.emptyRoot
  | .sapling => (db.read Uint256.codec (slotKey dbBestSaplingAnchor)).getD fmt.sapling.emptyRoot

end Reads

end Txdb
