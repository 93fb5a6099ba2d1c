import Txdb.BlockTreeView
import Txdb.BlockIndexLoad
import Txdb.Snapshot

/-! What whole runs of the write calls of `CBlockTreeDB` leave for its loops to read. After any
sequence of calls on a store whose records are well formed, every address-unspent record is stored
under an address-unspent key and holds a value that reads, every address-index record under an
address-index key at a height that is not negative and with an amount that reads, and every
timestamp record under a timestamp key: the premises of the scans' theorems hold of every store the
calls write. `ReadAddressUnspentIndex` and `ReadAddressIndex` then return, over any run, exactly
the entries of the maps that the committed `UpdateAddressUnspentIndex`, `WriteAddressIndex` and
`EraseAddressIndex` calls define. And the calls other than `WriteBatchSync` and `EraseBatchSync`
never change what `LoadBlockIndexGuts` loads.
-/

namespace Txdb

section ScanRecords

variable {CBlockFileInfo CDiskTxPos CSpentIndexKey CSpentIndexValue CAddressUnspentValue : Type}
  (f : BlockTreeFormat CBlockFileInfo CDiskTxPos CSpentIndexKey CSpentIndexValue CAddressUnspentValue)

/-- The records of a store as the range scans of `CBlockTreeDB` read them: address-unspent records,
address-index records and timestamp records are all well formed.
-/
structure ScanRecords (db : Store) : Prop where
  unspent : UnspentRecords f.addressUnspent f.unspentValue db
  addressIndex : AddressIndexRecords f.addressIndex f.amount db
  timestamp : TimestampRecords f.timestamp db

/-- One record as the range scans read it. -/
structure ScanRecord (e : Entry) : Prop where
  unspentKey : [dbAddressunspentindex] <+: e.1 →
    ∃ k, e.1 = dbAddressunspentindex :: f.addressUnspent.key.encode k
  unspentValue : [dbAddressunspentindex] <+: e.1 → (f.unspentValue.decode e.2).isSome
  addressKey : [dbAddressindex] <+: e.1 → ∃ k, e.1 = dbAddressindex :: f.addressIndex.key.encode k
  addressHeight : ∀ k, indexKeyOf f.addressIndex.key dbAddressindex e = some k → 0 ≤ k.blockHeight
  addressValue : [dbAddressindex] <+: e.1 → (f.amount.decode e.2).isSome
  timestampKey : [dbTimestampindex] <+: e.1 → ∃ k, e.1 = dbTimestampindex :: f.timestamp.key.encode k

/-- A store's records are as the scans read them exactly when each one is. -/
theorem scanRecords_iff (db : Store) : ScanRecords f db ↔ ∀ e ∈ db.entries, ScanRecord f e :=
  ⟨fun h e he => ⟨h.unspent.keys e he, h.unspent.values e he, h.addressIndex.keys e he,
      h.addressIndex.heights e he, h.addressIndex.values e he, h.timestamp e he⟩,
    fun h => ⟨⟨fun e he => (h e he).unspentKey, fun e he => (h e he).unspentValue⟩,
      ⟨fun e he => (h e he).addressKey, fun e he => (h e he).addressHeight,
        fun e he => (h e he).addressValue⟩,
      fun e he => (h e he).timestampKey⟩⟩

/-- The store with no records has none the scans could misread. -/
theorem scanRecords_empty : ScanRecords f Store.empty :=
  (scanRecords_iff f _).mpr fun _ he => nomatch he

/-- A property that every record of a store has, and every record that a call of a sequence
writes, every record of the store after the calls has: a call adds the records of its batch and
erases others.
-/
theorem entries_blockTreeWrites {Q : Entry → Prop} {db : Store} (hdb : ∀ e ∈ db.entries, Q e)
    (calls : List (BlockTreeWrite CBlockFileInfo CDiskTxPos CSpentIndexKey CSpentIndexValue
      CAddressUnspentValue))
    (hcalls : ∀ call ∈ calls, ∀ key value, .write key value ∈ call.batch f → Q (key, value))
    : ∀ e ∈ (blockTreeWrites f db calls).entries, Q e := by
  induction calls generalizing db with
  | nil => exact hdb
  | cons call calls ih =>
      have kept := Store.entries_writeBatch hdb (hcalls call (List.mem_cons_self _ _)) call.committed
      rw [← BlockTreeWrite.run_eq] at kept
      exact ih kept fun c hc => hcalls c (List.mem_cons_of_mem _ hc)

/-- A map read off the store that each call updates by its own point updates is, after any sequence
of calls, the map before updated by each call in turn.
-/
theorem updates_blockTreeWrites {K V : Type} [DecidableEq K] (view : Store → K → Option V)
    (updatesOf : BlockTreeWrite CBlockFileInfo CDiskTxPos CSpentIndexKey CSpentIndexValue
      CAddressUnspentValue → List (K × Option V))
    (hstep : ∀ db call, view (call.run f db) = updates (view db) (updatesOf call)) (db : Store)
    (calls : List (BlockTreeWrite CBlockFileInfo CDiskTxPos CSpentIndexKey CSpentIndexValue
      CAddressUnspentValue))
    : view (blockTreeWrites f db calls) = updates (view db) (calls.flatMap updatesOf) := by
  induction calls generalizing db with
  | nil => rfl
  | cons call calls ih =>
      rw [List.flatMap_cons, updates_append, ← hstep]
      exact ih (call.run f db)

end ScanRecords

-----------------------------------------------------------------------------------------
-- What each call writes under the scanned tags
-----------------------------------------------------------------------------------------

namespace BlockTreeWrite

variable {CBlockFileInfo CDiskTxPos CSpentIndexKey CSpentIndexValue CAddressUnspentValue : Type}
  (f : BlockTreeFormat CBlockFileInfo CDiskTxPos CSpentIndexKey CSpentIndexValue CAddressUnspentValue)

/-- The heights a call writes to the address index are not negative, as the chain's heights are
not.
-/
def writesHeights
    : BlockTreeWrite CBlockFileInfo CDiskTxPos CSpentIndexKey CSpentIndexValue CAddressUnspentValue
      → Bool
  | writeAddressIndex vect _ => vect.all fun p => 0 ≤ p.1.blockHeight
  | _ => true

variable {call : BlockTreeWrite CBlockFileInfo CDiskTxPos CSpentIndexKey CSpentIndexValue
  CAddressUnspentValue} {key value : Bytes}

/-- A call writes under a tag only if its batch carries the tag. -/
theorem mem_tags_of_write (hop : .write key value ∈ call.batch f) {t : Byte} (ht : [t] <+: key)
    : t ∈ call.tags := by
  obtain ⟨t', mem, rest, hrest⟩ := call.batch_tags f _ hop
  change [t'] ++ rest = key at hrest
  subst hrest
  rw [List.singleton_append, List.cons_prefix_cons] at ht
  exact ht.1 ▸ mem

/-- Only `UpdateAddressUnspentIndex` writes under the address-unspent tag, an address-unspent key
and a serialized value.
-/
theorem unspent_of_write (hop : .write key value ∈ call.batch f) (hpre : [dbAddressunspentindex] <+: key)
    : ∃ k v, key = dbAddressunspentindex :: f.addressUnspent.key.encode k ∧ value = f.unspentValue.encode v := by
  have ht := mem_tags_of_write f hop hpre
  cases call
  case updateAddressUnspentIndex vect _ =>
    obtain ⟨p, -, hp⟩ := List.mem_map.mp hop
    split at hp
    · cases hp
    · cases hp
      exact ⟨p.1, p.2, rfl, rfl⟩
  all_goals exact absurd ht (by dsimp only [tags]; decide)

/-- Every record a call writes under the address-unspent tag is as `ReadAddressUnspentIndex` reads
it: under an address-unspent key, with a value that reads.
-/
theorem unspentRecord_of_write (hop : .write key value ∈ call.batch f)
    (hpre : [dbAddressunspentindex] <+: key)
    : (∃ k, key = dbAddressunspentindex :: f.addressUnspent.key.encode k)
      ∧ (f.unspentValue.decode value).isSome := by
  obtain ⟨k, v, rfl, rfl⟩ := unspent_of_write f hop hpre
  exact ⟨⟨k, rfl⟩, Option.isSome_iff_exists.mpr ⟨_, Codec.decode_encode_self _ _⟩⟩

/-- Only `WriteAddressIndex` writes under the address-index tag, an address-index key at a height
it is given and a serialized amount.
-/
theorem address_of_write (hcall : call.writesHeights) (hop : .write key value ∈ call.batch f)
    (hpre : [dbAddressindex] <+: key)
    : ∃ k n, key = dbAddressindex :: f.addressIndex.key.encode k ∧ value = f.amount.encode n
      ∧ 0 ≤ k.blockHeight := by
  have ht := mem_tags_of_write f hop hpre
  cases call
  case writeAddressIndex vect _ =>
    obtain ⟨p, hp, hop⟩ := List.mem_map.mp hop
    cases hop
    exact ⟨p.1, p.2, rfl, rfl, of_decide_eq_true (List.all_eq_true.mp hcall p hp)⟩
  case eraseAddressIndex vect _ =>
    obtain ⟨p, -, hop⟩ := List.mem_map.mp hop
    cases hop
  all_goals exact absurd ht (by dsimp only [tags]; decide)

/-- Every record a call with non-negative heights writes under the address-index tag is as
`ReadAddressIndex` reads it: under an address-index key, at a height that is not negative, with
an amount that reads.
-/
theorem addressRecord_of_write (hcall : call.writesHeights) (hop : .write key value ∈ call.batch f)
    : ([dbAddressindex] <+: key → ∃ k, key = dbAddressindex :: f.addressIndex.key.encode k)
      ∧ (∀ k, indexKeyOf f.addressIndex.key dbAddressindex (key, value) = some k → 0 ≤ k.blockHeight)
      ∧ ([dbAddressindex] <+: key → (f.amount.decode value).isSome) := by
  refine ⟨fun hpre => ?_, fun k hk => ?_, fun hpre => ?_⟩
  · exact (address_of_write f hcall hop hpre).imp fun _ ⟨_, hk, _⟩ => hk
  · obtain ⟨k', n, rfl, -, h0⟩ := address_of_write f hcall hop
      (Codec.prefix_of_tagged_decode (indexKeyOf_eq_some.mp hk).choose_spec)
    cases hk.symm.trans (indexKeyOf_record k' _)
    exact h0
  · obtain ⟨k, n, -, rfl, -⟩ := address_of_write f hcall hop hpre
    exact Option.isSome_iff_exists.mpr ⟨_, Codec.decode_encode_self _ _⟩

/-- Only `WriteTimestampIndex` writes under the timestamp tag, a timestamp key. -/
theorem timestamp_of_write (hop : .write key value ∈ call.batch f) (hpre : [dbTimestampindex] <+: key)
    : ∃ k, key = dbTimestampindex :: f.timestamp.key.encode k := by
  have ht := mem_tags_of_write f hop hpre
  cases call
  case writeTimestampIndex timestampIndex _ =>
    rw [batch, List.mem_singleton] at hop
    cases hop
    exact ⟨_, rfl⟩
  all_goals exact absurd ht (by dsimp only [tags]; decide)

/-- Every record a call writes is as the scans read it. -/
theorem scanRecord_of_write (hcall : call.writesHeights) (hop : .write key value ∈ call.batch f)
    : ScanRecord f (key, value) where
  unspentKey hpre := (unspentRecord_of_write f hop hpre).1
  unspentValue hpre := (unspentRecord_of_write f hop hpre).2
  addressKey := (addressRecord_of_write f hcall hop).1
  addressHeight := (addressRecord_of_write f hcall hop).2.1
  addressValue := (addressRecord_of_write f hcall hop).2.2
  timestampKey hpre := timestamp_of_write f hop hpre

end BlockTreeWrite

/-- After any sequence of write calls whose address-index heights are not negative, on a store whose
records are as the range scans read them, they still are: address-unspent, address-index and
timestamp records all stay well formed. Witness: each call writes under the scanned tags only
records of their shape (`BlockTreeWrite.scanRecord_of_write`, `entries_blockTreeWrites`).
-/
theorem scanRecords_blockTreeWrites {CBlockFileInfo CDiskTxPos CSpentIndexKey CSpentIndexValue
      CAddressUnspentValue : Type}
    (f : BlockTreeFormat CBlockFileInfo CDiskTxPos CSpentIndexKey CSpentIndexValue
      CAddressUnspentValue)
    {db : Store} (hdb : ScanRecords f db)
    (calls : List (BlockTreeWrite CBlockFileInfo CDiskTxPos CSpentIndexKey CSpentIndexValue
      CAddressUnspentValue))
    (hcalls : ∀ call ∈ calls, call.writesHeights)
    : ScanRecords f (blockTreeWrites f db calls) :=
  (scanRecords_iff f _).mpr (entries_blockTreeWrites f ((scanRecords_iff f db).mp hdb) calls
    fun call hc _ _ hop => BlockTreeWrite.scanRecord_of_write f (hcalls call hc) hop)

/-- Payments to the address hash `7…7` at heights 2 and 5, the first one erased again, an unspent
output, a block's timestamp record and a flag.
-/
def indexCalls : List (BlockTreeWrite Unit Unit Unit Unit Int) :=
  [.writeAddressIndex [(⟨1, Blob.fill 20 7, 2, Blob.fill 32 1, 0⟩, 1),
      (⟨1, Blob.fill 20 7, 5, Blob.fill 32 2, 0⟩, 2)] true,
   .updateAddressUnspentIndex [(⟨1, Blob.fill 20 7, Blob.fill 32 2, 0⟩, 2)] true,
   .writeTimestampIndex ⟨3, Blob.fill 32 6⟩ true,
   .eraseAddressIndex [(⟨1, Blob.fill 20 7, 2, Blob.fill 32 1, 0⟩, 1)] true,
   .writeFlag "addressindex" true true]

/-- `scanRecords_blockTreeWrites` from the empty store through the example calls. -/
theorem scanRecords_blockTreeWrites_indexCalls
    : ScanRecords Reference.blockTreeFormat Store.empty
      ∧ (∀ call ∈ indexCalls, call.writesHeights)
      ∧ ScanRecords Reference.blockTreeFormat (blockTreeWrites Reference.blockTreeFormat Store.empty indexCalls) :=
  ⟨scanRecords_empty _, by decide,
    scanRecords_blockTreeWrites _ (scanRecords_empty _) indexCalls (by decide)⟩

-----------------------------------------------------------------------------------------
-- The block index
-----------------------------------------------------------------------------------------

namespace BlockTreeWrite

variable {CBlockFileInfo CDiskTxPos CSpentIndexKey CSpentIndexValue CAddressUnspentValue : Type}
  (f : BlockTreeFormat CBlockFileInfo CDiskTxPos CSpentIndexKey CSpentIndexValue CAddressUnspentValue)

/-- The block-index call a call is: `WriteBatchSync` and `EraseBatchSync` are, and no other call. -/
def blockIndexWrite
    : BlockTreeWrite CBlockFileInfo CDiskTxPos CSpentIndexKey CSpentIndexValue CAddressUnspentValue
      → Option (BlockIndexWrite CBlockFileInfo)
  | writeBatchSync fileInfo nLastFile blockinfo committed =>
      some (.writeBatchSync fileInfo nLastFile blockinfo committed)
  | eraseBatchSync blockinfo committed => some (.eraseBatchSync blockinfo committed)
  | _ => none

/-- A store written by any calls reads under `DB_BLOCK_INDEX` as one written by their block-index
calls alone, from stores that read alike there. Witness: induction on the calls; a block-index call
writes the same batch on both, and no other call touches the tag (`get_run_of_not_mem`).
-/
theorem get_blockTreeWrites_blockIndex
    (calls : List (BlockTreeWrite CBlockFileInfo CDiskTxPos CSpentIndexKey CSpentIndexValue
      CAddressUnspentValue))
    {db db' : Store} (h : ∀ key, [dbBlockIndex] <+: key → db.get key = db'.get key)
    : ∀ key, [dbBlockIndex] <+: key → (blockTreeWrites f db calls).get key
      = (runWrites f.int f.info f.diskBlockIndex db' (calls.filterMap blockIndexWrite)).get key := by
  induction calls generalizing db db' with
  | nil => exact h
  | cons call calls ih =>
      cases call
      case writeBatchSync => exact ih (Store.get_writeBatch_eq_of_get h _ _)
      case eraseBatchSync => exact ih (Store.get_writeBatch_eq_of_get h _ _)
      all_goals
        refine ih fun key hk => ?_
        obtain ⟨rest, rfl⟩ := hk
        exact (get_run_of_not_mem f _ (by dsimp only [tags]; decide) db rest).trans (h _ ⟨rest, rfl⟩)

end BlockTreeWrite

/-- Whatever other calls run between them, `LoadBlockIndexGuts` loads from a store written by any
sequence of block-tree calls exactly what it loads from the store written by the `WriteBatchSync`
and `EraseBatchSync` calls among them alone, into every map: the transaction, spent, address and
timestamp indices, the flags, the reindexing flag and the uncommitted calls never disturb the
block index. Witness: both stores hold the same block-index records
(`BlockTreeWrite.get_blockTreeWrites_blockIndex`), and the loader reads only those
(`loadBlockIndexGuts_congr`).
-/
theorem loadBlockIndexGuts_blockTreeWrites {CBlockFileInfo CDiskTxPos CSpentIndexKey
      CSpentIndexValue CAddressUnspentValue : Type}
    (getHash : CBlockHeader → Uint256)
    (f : BlockTreeFormat CBlockFileInfo CDiskTxPos CSpentIndexKey CSpentIndexValue
      CAddressUnspentValue)
    (db : Store)
    (calls : List (BlockTreeWrite CBlockFileInfo CDiskTxPos CSpentIndexKey CSpentIndexValue
      CAddressUnspentValue))
    (m : BlockMap)
    : loadBlockIndexGuts getHash f.diskBlockIndex (blockTreeWrites f db calls) m
      = loadBlockIndexGuts getHash f.diskBlockIndex
          (runWrites f.int f.info f.diskBlockIndex db (calls.filterMap BlockTreeWrite.blockIndexWrite)) m :=
  loadBlockIndexGuts_congr getHash f.diskBlockIndex
    (Store.filter_prefix_eq_of_get (BlockTreeWrite.get_blockTreeWrites_blockIndex f calls fun _ _ => rfl)) m

-----------------------------------------------------------------------------------------
-- The address-unspent index as a map
-----------------------------------------------------------------------------------------

section UnspentIndex

variable {CBlockFileInfo CDiskTxPos CSpentIndexKey CSpentIndexValue CAddressUnspentValue : Type}
  (f : BlockTreeFormat CBlockFileInfo CDiskTxPos CSpentIndexKey CSpentIndexValue CAddressUnspentValue)

/-- The address-unspent index as a map: what the point read of each key's record returns. -/
def unspentIndex (db : Store) : CAddressUnspentKey → Option CAddressUnspentValue :=
  fun k => db.read f.unspentValue (pairKey f.addressUnspent.key dbAddressunspentindex k)

/-- The point updates a call makes to the address-unspent index: a committed
`UpdateAddressUnspentIndex` sets each key it is given and removes those given a null value, in
order; no other call makes any.
-/
def BlockTreeWrite.unspentUpdates
    : BlockTreeWrite CBlockFileInfo CDiskTxPos CSpentIndexKey CSpentIndexValue CAddressUnspentValue
      → List (CAddressUnspentKey × Option CAddressUnspentValue)
  | .updateAddressUnspentIndex vect true =>
      vect.map fun p => (p.1, if f.unspentIsNull p.2 then none else some p.2)
  | _ => []

/-- Every call refines its updates of the address-unspent index. -/
theorem BlockTreeWrite.unspentIndex_run (db : Store)
    (call : BlockTreeWrite CBlockFileInfo CDiskTxPos CSpentIndexKey CSpentIndexValue
      CAddressUnspentValue)
    : unspentIndex f (call.run f db) = updates (unspentIndex f db) (call.unspentUpdates f) := by
  cases call
  case updateAddressUnspentIndex vect committed =>
    cases committed
    · rfl
    · exact read_updateIndexOps f.addressUnspent.key f.unspentValue f.unspentIsNull
        dbAddressunspentindex db vect
  all_goals exact funext fun _ => read_run_of_not_mem f _ (by dsimp only [tags]; decide) db _ _

/-- Any sequence of calls keeps the address-unspent records well formed. -/
theorem unspentRecords_blockTreeWrites {db : Store}
    (hdb : UnspentRecords f.addressUnspent f.unspentValue db)
    (calls : List (BlockTreeWrite CBlockFileInfo CDiskTxPos CSpentIndexKey CSpentIndexValue
      CAddressUnspentValue))
    : UnspentRecords f.addressUnspent f.unspentValue (blockTreeWrites f db calls) := by
  have kept := entries_blockTreeWrites f (Q := fun e => [dbAddressunspentindex] <+: e.1 →
      (∃ k, e.1 = dbAddressunspentindex :: f.addressUnspent.key.encode k)
        ∧ (f.unspentValue.decode e.2).isSome)
    (fun e he hpre => ⟨hdb.keys e he hpre, hdb.values e he hpre⟩) calls
    fun _ _ _ _ hop => BlockTreeWrite.unspentRecord_of_write f hop
  exact ⟨fun e he hpre => (kept e he hpre).1, fun e he hpre => (kept e he hpre).2⟩

end UnspentIndex

/-- The range scan of the address-unspent index returns, over any run of the write calls, exactly
the map the calls define. Take a store whose address-unspent records are well formed and any
sequence of calls, and let the map be the point reads of the store updated by each committed
`UpdateAddressUnspentIndex` in turn, null values removing their keys. If the address hash has
entries in that map under the queried type only, `ReadAddressUnspentIndex` on the store the calls
leave returns true and appends a list that holds each key of the address once, in ascending order
of serialized keys, with exactly the value the map gives it. Witness: the calls keep the records
well formed (`unspentRecords_blockTreeWrites`) and update the point reads as the map says
(`BlockTreeWrite.unspentIndex_run`, `updates_blockTreeWrites`); the scan returns the address's
records (`addressUnspentCursor`), which are the point reads of the address's keys
(`mem_addressUnspentOutputs`, `addressUnspentOutputs_sorted`).
-/
theorem readAddressUnspentIndex_blockTreeWrites {CBlockFileInfo CDiskTxPos CSpentIndexKey
      CSpentIndexValue CAddressUnspentValue : Type}
    (f : BlockTreeFormat CBlockFileInfo CDiskTxPos CSpentIndexKey CSpentIndexValue
      CAddressUnspentValue)
    {db : Store} (hdb : UnspentRecords f.addressUnspent f.unspentValue db)
    (calls : List (BlockTreeWrite CBlockFileInfo CDiskTxPos CSpentIndexKey CSpentIndexValue
      CAddressUnspentValue))
    {addressHash : Uint160} {type : Nat}
    (honly : ∀ k, k.hashBytes = addressHash
      → updates (unspentIndex f db) (calls.flatMap (BlockTreeWrite.unspentUpdates f)) k ≠ none
      → k.type = type)
    (unspentOutputs : List (CAddressUnspentKey × CAddressUnspentValue))
    : ∃ outs, readAddressUnspentIndex f.addressUnspent f.unspentValue (blockTreeWrites f db calls)
          addressHash type unspentOutputs = (some true, unspentOutputs ++ outs)
      ∧ outs.Pairwise (fun a b => f.addressUnspent.key.encode a.1 < f.addressUnspent.key.encode b.1)
      ∧ ∀ k v, (k, v) ∈ outs ↔ k.type = type ∧ k.hashBytes = addressHash
          ∧ updates (unspentIndex f db) (calls.flatMap (BlockTreeWrite.unspentUpdates f)) k = some v := by
  have hdb' := unspentRecords_blockTreeWrites f hdb calls
  have hmap := updates_blockTreeWrites f (unspentIndex f) (BlockTreeWrite.unspentUpdates f)
    (BlockTreeWrite.unspentIndex_run f) db calls
  have honly' : ∀ e ∈ (blockTreeWrites f db calls).entries, ∀ k,
      indexKeyOf f.addressUnspent.key dbAddressunspentindex e = some k → k.hashBytes = addressHash →
        k.type = type :=
    fun e he k hk hhash => honly k hhash (hmap ▸ hdb'.keys.read_ne_none hdb'.values he hk)
  obtain ⟨run, rest, hsplit, hrun, hwindow, hrest⟩ :=
    addressUnspentCursor f.addressUnspent f.unspentValue hdb' honly'
  refine ⟨_, ?_, addressUnspentOutputs_sorted _ _ hdb' addressHash type, fun k v => ?_⟩
  · dsimp only [readAddressUnspentIndex]
    rw [hsplit, scanPure_keep_stop _ _ hrun hrest, hwindow]
  · rw [mem_addressUnspentOutputs _ _ hdb', ← hmap]
    rfl

/-- Two unspent outputs of the address hash `7…7`, worth 5 and 7; a flag; the first output spent
(a null value); and an output of 9 whose batch does not commit.
-/
def unspentCalls : List (BlockTreeWrite Unit Unit Unit Unit Int) :=
  [.updateAddressUnspentIndex [(⟨1, Blob.fill 20 7, Blob.fill 32 1, 0⟩, 5),
      (⟨1, Blob.fill 20 7, Blob.fill 32 2, 0⟩, 7)] true,
   .writeFlag "spentindex" true true,
   .updateAddressUnspentIndex [(⟨1, Blob.fill 20 7, Blob.fill 32 1, 0⟩, -1)] true,
   .updateAddressUnspentIndex [(⟨1, Blob.fill 20 7, Blob.fill 32 3, 0⟩, 9)] false]

/-- `readAddressUnspentIndex_blockTreeWrites` from the empty store through the example calls. -/
theorem readAddressUnspentIndex_blockTreeWrites_unspentCalls
    : UnspentRecords Reference.blockTreeFormat.addressUnspent Reference.blockTreeFormat.unspentValue
        Store.empty
      ∧ (∀ k : CAddressUnspentKey, k.hashBytes = Blob.fill 20 7
          → updates (unspentIndex Reference.blockTreeFormat Store.empty)
              (unspentCalls.flatMap (BlockTreeWrite.unspentUpdates Reference.blockTreeFormat)) k ≠ none
          → k.type = 1)
      ∧ ∃ outs, readAddressUnspentIndex Reference.blockTreeFormat.addressUnspent
            Reference.blockTreeFormat.unspentValue
            (blockTreeWrites Reference.blockTreeFormat Store.empty unspentCalls) (Blob.fill 20 7) 1 []
            = (some true, [] ++ outs)
        ∧ outs.Pairwise (fun a b => Reference.blockTreeFormat.addressUnspent.key.encode a.1
            < Reference.blockTreeFormat.addressUnspent.key.encode b.1)
        ∧ ∀ k v, (k, v) ∈ outs ↔ k.type = 1 ∧ k.hashBytes = Blob.fill 20 7
            ∧ updates (unspentIndex Reference.blockTreeFormat Store.empty)
                (unspentCalls.flatMap (BlockTreeWrite.unspentUpdates Reference.blockTreeFormat)) k = some v := by
  have hdb := (scanRecords_empty Reference.blockTreeFormat).unspent
  have updated : unspentCalls.flatMap (BlockTreeWrite.unspentUpdates Reference.blockTreeFormat)
      = [(⟨1, Blob.fill 20 7, Blob.fill 32 1, 0⟩, some 5), (⟨1, Blob.fill 20 7, Blob.fill 32 2, 0⟩, some 7),
        (⟨1, Blob.fill 20 7, Blob.fill 32 1, 0⟩, none)] := by decide
  have honly : ∀ k : CAddressUnspentKey, k.hashBytes = Blob.fill 20 7
      → updates (unspentIndex Reference.blockTreeFormat Store.empty)
          (unspentCalls.flatMap (BlockTreeWrite.unspentUpdates Reference.blockTreeFormat)) k ≠ none
      → k.type = 1 := by
    intro k _ hk
    simp only [updated, updates_cons, updates_nil, Function.update_apply] at hk
    split_ifs at hk with spent kept
    · exact absurd rfl hk
    · rw [kept]
    · exact absurd rfl hk
  exact ⟨hdb, honly, readAddressUnspentIndex_blockTreeWrites _ hdb unspentCalls honly []⟩

example
    : readAddressUnspentIndex Reference.addressUnspentKeyFormat Reference.int
        (blockTreeWrites Reference.blockTreeFormat Store.empty unspentCalls) (Blob.fill 20 7) 1 []
      = (some true, [(⟨1, Blob.fill 20 7, Blob.fill 32 2, 0⟩, 7)]) := by
  decide

-----------------------------------------------------------------------------------------
-- The address index as a map
-----------------------------------------------------------------------------------------

section AddressIndex

variable {CBlockFileInfo CDiskTxPos CSpentIndexKey CSpentIndexValue CAddressUnspentValue : Type}
  (f : BlockTreeFormat CBlockFileInfo CDiskTxPos CSpentIndexKey CSpentIndexValue CAddressUnspentValue)

/-- The address index as a map: what the point read of each key's record returns. -/
def addressIndexAmounts (db : Store) : CAddressIndexKey → Option Int :=
  fun k => db.read f.amount (pairKey f.addressIndex.key dbAddressindex k)

/-- The point updates a call makes to the address index: a committed `WriteAddressIndex` sets each
key it is given to its amount and a committed `EraseAddressIndex` removes each key it is given, in
order; no other call makes any.
-/
def BlockTreeWrite.addressIndexUpdates
    : BlockTreeWrite CBlockFileInfo CDiskTxPos CSpentIndexKey CSpentIndexValue CAddressUnspentValue
      → List (CAddressIndexKey × Option Int)
  | .writeAddressIndex vect true => vect.map fun p => (p.1, some p.2)
  | .eraseAddressIndex vect true => vect.map fun p => (p.1, none)
  | _ => []

/-- Every call refines its updates of the address index. -/
theorem BlockTreeWrite.addressIndexAmounts_run (db : Store)
    (call : BlockTreeWrite CBlockFileInfo CDiskTxPos CSpentIndexKey CSpentIndexValue
      CAddressUnspentValue)
    : addressIndexAmounts f (call.run f db) = updates (addressIndexAmounts f db) call.addressIndexUpdates := by
  cases call
  case writeAddressIndex vect committed =>
    cases committed
    · rfl
    · have written := read_applyBatch_keyedOps f.amount
        (pairKey_injective f.addressIndex.key dbAddressindex) db (vect.map fun p => (p.1, some p.2))
      rw [List.map_map] at written
      exact written
  case eraseAddressIndex vect committed =>
    cases committed
    · rfl
    · have erased := read_applyBatch_keyedOps f.amount
        (pairKey_injective f.addressIndex.key dbAddressindex) db (vect.map fun p => (p.1, none))
      rw [List.map_map] at erased
      exact erased
  all_goals exact funext fun _ => read_run_of_not_mem f _ (by dsimp only [tags]; decide) db _ _

/-- Any sequence of calls with non-negative heights keeps the address-index records well formed. -/
theorem addressIndexRecords_blockTreeWrites {db : Store}
    (hdb : AddressIndexRecords f.addressIndex f.amount db)
    (calls : List (BlockTreeWrite CBlockFileInfo CDiskTxPos CSpentIndexKey CSpentIndexValue
      CAddressUnspentValue))
    (hcalls : ∀ call ∈ calls, call.writesHeights)
    : AddressIndexRecords f.addressIndex f.amount (blockTreeWrites f db calls) := by
  have kept := entries_blockTreeWrites f (Q := fun e =>
      ([dbAddressindex] <+: e.1 → ∃ k, e.1 = dbAddressindex :: f.addressIndex.key.encode k)
      ∧ (∀ k, indexKeyOf f.addressIndex.key dbAddressindex e = some k → 0 ≤ k.blockHeight)
      ∧ ([dbAddressindex] <+: e.1 → (f.amount.decode e.2).isSome))
    (fun e he => ⟨hdb.keys e he, hdb.heights e he, hdb.values e he⟩) calls
    fun call hc _ _ hop => BlockTreeWrite.addressRecord_of_write f (hcalls call hc) hop
  exact ⟨fun e he => (kept e he).1, fun e he => (kept e he).2.1, fun e he => (kept e he).2.2⟩

end AddressIndex

/-- The range scan of the address index returns, over any run of the write calls, exactly the map
the calls define, in its height window and in height order. Take a store whose address-index
records are well formed and any sequence of calls whose heights are not negative, and let the map
be the point reads of the store updated by each committed `WriteAddressIndex`, which sets its keys
to their amounts, and `EraseAddressIndex`, which removes them, in turn. If the address hash has
entries in that map under the queried type only, `ReadAddressIndex` on the store the calls leave
returns true and appends a list that holds each key of the address in the height window once, in
ascending order of serialized keys and so of heights, with exactly the amount the map gives it.
Witness: the calls keep the records well formed (`addressIndexRecords_blockTreeWrites`) and update
the point reads as the map says (`BlockTreeWrite.addressIndexAmounts_run`,
`updates_blockTreeWrites`); the scan returns the address's window (`addressIndexCursor`), which is
the point reads of the address's keys in the window (`mem_addressIndexWindow`,
`addressIndexWindow_sorted`).
-/
theorem readAddressIndex_blockTreeWrites {CBlockFileInfo CDiskTxPos CSpentIndexKey CSpentIndexValue
      CAddressUnspentValue : Type}
    (f : BlockTreeFormat CBlockFileInfo CDiskTxPos CSpentIndexKey CSpentIndexValue
      CAddressUnspentValue)
    {db : Store} (hdb : AddressIndexRecords f.addressIndex f.amount db)
    (calls : List (BlockTreeWrite CBlockFileInfo CDiskTxPos CSpentIndexKey CSpentIndexValue
      CAddressUnspentValue))
    (hcalls : ∀ call ∈ calls, call.writesHeights)
    {addressHash : Uint160} {type : Nat}
    (honly : ∀ k, k.hashBytes = addressHash
      → updates (addressIndexAmounts f db) (calls.flatMap BlockTreeWrite.addressIndexUpdates) k ≠ none
      → k.type = type)
    (addressIndex : List (CAddressIndexKey × Int)) (start end' : Int)
    : ∃ outs, readAddressIndex f.addressIndex f.amount (blockTreeWrites f db calls) addressHash type
          addressIndex start end' = (some true, addressIndex ++ outs)
      ∧ outs.Pairwise (fun a b => f.addressIndex.key.encode a.1 < f.addressIndex.key.encode b.1
          ∧ a.1.blockHeight ≤ b.1.blockHeight)
      ∧ ∀ k n, (k, n) ∈ outs ↔ k.type = type ∧ k.hashBytes = addressHash
          ∧ (start > 0 ∧ end' > 0 → start ≤ k.blockHeight) ∧ (end' > 0 → k.blockHeight ≤ end')
          ∧ updates (addressIndexAmounts f db) (calls.flatMap BlockTreeWrite.addressIndexUpdates) k
            = some n := by
  have hdb' := addressIndexRecords_blockTreeWrites f hdb calls hcalls
  have hmap := updates_blockTreeWrites f (addressIndexAmounts f) BlockTreeWrite.addressIndexUpdates
    (BlockTreeWrite.addressIndexAmounts_run f) db calls
  have honly' : ∀ e ∈ (blockTreeWrites f db calls).entries, ∀ k,
      indexKeyOf f.addressIndex.key dbAddressindex e = some k → k.hashBytes = addressHash →
        k.type = type :=
    fun e he k hk hhash => honly k hhash (hmap ▸ hdb'.keys.read_ne_none hdb'.values he hk)
  obtain ⟨run, rest, hsplit, hrun, hwindow, hrest⟩ := addressIndexCursor hdb' honly' start end'
  refine ⟨_, ?_, addressIndexWindow_sorted hdb' addressHash type start end', fun k n => ?_⟩
  · dsimp only [readAddressIndex]
    rw [hsplit, scanPure_keep_stop _ _ hrun hrest, hwindow]
  · rw [mem_addressIndexWindow hdb', ← hmap]
    rfl

/-- `readAddressIndex_blockTreeWrites` through the example calls, which pay the address hash `7…7`
at heights 2 and 5 and erase the first payment, in the window from 4 to 6.
-/
theorem readAddressIndex_blockTreeWrites_indexCalls
    : AddressIndexRecords Reference.blockTreeFormat.addressIndex Reference.blockTreeFormat.amount
        Store.empty
      ∧ (∀ call ∈ indexCalls, call.writesHeights)
      ∧ (∀ k : CAddressIndexKey, k.hashBytes = Blob.fill 20 7
          → updates (addressIndexAmounts Reference.blockTreeFormat Store.empty)
              (indexCalls.flatMap BlockTreeWrite.addressIndexUpdates) k ≠ none
          → k.type = 1)
      ∧ ∃ outs, readAddressIndex Reference.blockTreeFormat.addressIndex Reference.blockTreeFormat.amount
            (blockTreeWrites Reference.blockTreeFormat Store.empty indexCalls) (Blob.fill 20 7) 1 [] 4 6
            = (some true, [] ++ outs)
        ∧ outs.Pairwise (fun a b => Reference.blockTreeFormat.addressIndex.key.encode a.1
            < Reference.blockTreeFormat.addressIndex.key.encode b.1 ∧ a.1.blockHeight ≤ b.1.blockHeight)
        ∧ ∀ k n, (k, n) ∈ outs ↔ k.type = 1 ∧ k.hashBytes = Blob.fill 20 7
            ∧ ((4 : Int) > 0 ∧ (6 : Int) > 0 → 4 ≤ k.blockHeight) ∧ ((6 : Int) > 0 → k.blockHeight ≤ 6)
            ∧ updates (addressIndexAmounts Reference.blockTreeFormat Store.empty)
                (indexCalls.flatMap BlockTreeWrite.addressIndexUpdates) k = some n := by
  have hdb := (scanRecords_empty Reference.blockTreeFormat).addressIndex
  have heights : ∀ call ∈ indexCalls, call.writesHeights := by decide
  have updated : indexCalls.flatMap BlockTreeWrite.addressIndexUpdates
      = [(⟨1, Blob.fill 20 7, 2, Blob.fill 32 1, 0⟩, some 1), (⟨1, Blob.fill 20 7, 5, Blob.fill 32 2, 0⟩, some 2),
        (⟨1, Blob.fill 20 7, 2, Blob.fill 32 1, 0⟩, none)] := by decide
  have honly : ∀ k : CAddressIndexKey, k.hashBytes = Blob.fill 20 7
      → updates (addressIndexAmounts Reference.blockTreeFormat Store.empty)
          (indexCalls.flatMap BlockTreeWrite.addressIndexUpdates) k ≠ none
      → k.type = 1 := by
    intro k _ hk
    simp only [updated, updates_cons, updates_nil, Function.update_apply] at hk
    split_ifs at hk with erased kept
    · exact absurd rfl hk
    · rw [kept]
    · exact absurd rfl hk
  exact ⟨hdb, heights, honly,
    readAddressIndex_blockTreeWrites _ hdb indexCalls heights honly [] 4 6⟩

example
    : readAddressIndex Reference.addressIndexKeyFormat Reference.int
        (blockTreeWrites Reference.blockTreeFormat Store.empty indexCalls) (Blob.fill 20 7) 1 [] 0 0
      = (some true, [(⟨1, Blob.fill 20 7, 5, Blob.fill 32 2, 0⟩, 2)]) := by
  decide

end Txdb
