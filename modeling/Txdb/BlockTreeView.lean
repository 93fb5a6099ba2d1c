import Txdb.BlockTreeWrites

/-! The point reads of the block-tree store as typed maps, and what each write call does to them.
The store of bytes refines a record of maps, one per point read of `CBlockTreeDB`. A committed
call updates the maps of its batch's tags key by key in batch order, so a later write of a key
wins and a null value removes the key; an uncommitted call changes no map; and no call changes a
map whose tag its batch does not carry.
-/

namespace Txdb

-----------------------------------------------------------------------------------------
-- Keyed batches
-----------------------------------------------------------------------------------------

section Keyed

variable {K V : Type} [DecidableEq K]

/-- The map `m` after the updates `ops`, in order: `(k, some v)` sets `k` to `v` and `(k, none)`
removes it.
-/
def updates (m : K → Option V) (ops : List (K × Option V)) : K → Option V :=
  ops.foldl (fun m p => Function.update m p.1 p.2) m

@[simp] theorem updates_nil (m : K → Option V) : updates m [] = m := rfl

@[simp] theorem updates_cons (m : K → Option V) (p : K × Option V) (ops : List (K × Option V))
    : updates m (p :: ops) = updates (Function.update m p.1 p.2) ops := rfl

@[simp] theorem updates_append (m : K → Option V) (first second : List (K × Option V))
    : updates m (first ++ second) = updates (updates m first) second :=
  List.foldl_append _ _ _ _

/-- The batch operation of one keyed update, under the key `key k` and serialized by `c`. -/
def keyedOp (key : K → Bytes) (c : Codec V) (p : K × Option V) : BatchOp :=
  match p.2 with
  | some v => .write (key p.1) (c.encode v)
  | none => .erase (key p.1)

variable {key : K → Bytes} (c : Codec V)

/-- One keyed operation reads back as the point update it stands for. -/
theorem read_applyOp_keyedOp (hkey : Function.Injective key) (db : Store) (p : K × Option V)
    (k : K)
    : (db.applyOp (keyedOp key c p)).read c (key k)
      = Function.update (fun k => db.read c (key k)) p.1 p.2 k := by
  obtain ⟨k', v⟩ := p
  by_cases hk : k = k'
  · subst hk
    cases v <;> simp [keyedOp, Store.applyOp, Store.read]
  · cases v <;> simp [keyedOp, Store.applyOp, Store.read, hkey.eq_iff, hk, Ne.symm hk]

/-- Under injective keys, a batch of keyed operations reads back as the updates it stands for, in
batch order; witness: induction on the batch.
-/
theorem read_applyBatch_keyedOps (hkey : Function.Injective key) (db : Store)
    (ops : List (K × Option V))
    : (fun k => (db.applyBatch (ops.map (keyedOp key c))).read c (key k))
      = updates (fun k => db.read c (key k)) ops := by
  induction ops generalizing db with
  | nil => rfl
  | cons p ops ih =>
      rw [List.map_cons, Store.applyBatch_cons, ih, updates_cons]
      exact congrArg (updates · ops) (funext (read_applyOp_keyedOp c hkey db p))

end Keyed

/-- Keys `make_pair(tag, payload)` of one tag are equal exactly when their payloads are. -/
theorem pairKey_injective {α : Type} (c : Codec α) (tag : Byte) : Function.Injective (pairKey c tag) :=
  fun _ _ h => c.encode_injective (by simpa using h)

/-- Hash keys of one tag are equal exactly when their hashes are. -/
theorem hashKey_injective (tag : Byte) : Function.Injective (hashKey tag) :=
  fun _ _ h => (hashKey_inj.mp h).2

-----------------------------------------------------------------------------------------
-- Read after write
-----------------------------------------------------------------------------------------

section ReadAfterWrite

variable {CBlockFileInfo CDiskTxPos CSpentIndexKey CSpentIndexValue : Type}

/-- `WriteBatchSync` sets the file infos it is given, a later one of a file winning, and leaves
the others. Witness: the last-file and block-index writes carry other tags.
-/
theorem readBlockFileInfo_writeBatchSync (int : Codec Int) (info : Codec CBlockFileInfo)
    (diskBlockIndex : Codec CDiskBlockIndex) (db : Store) (fileInfo : List (Int × CBlockFileInfo))
    (nLastFile : Int) (blockinfo : List (Uint256 × CBlockIndex))
    : readBlockFileInfo int info (writeBatchSync int info diskBlockIndex db fileInfo nLastFile blockinfo true).2
      = updates (readBlockFileInfo int info db) (fileInfo.map fun p => (p.1, some p.2)) := by
  have others : ∀ nFile, ∀ op ∈ BatchOp.write (slotKey dbLastBlock) (int.encode nLastFile)
      :: blockinfo.map (fun b => BatchOp.write (hashKey dbBlockIndex b.1) (diskBlockIndex.encode (.ofIndex b.2))),
      op.key ≠ pairKey int dbBlockFiles nFile := by
    intro nFile op hop
    rcases List.mem_cons.mp hop with rfl | hop
    · simp [BatchOp.key, show dbLastBlock ≠ dbBlockFiles by decide]
    · obtain ⟨b, -, rfl⟩ := List.mem_map.mp hop
      simp [BatchOp.key, show dbBlockIndex ≠ dbBlockFiles by decide]
  have files := read_applyBatch_keyedOps info (pairKey_injective int dbBlockFiles) db
    (fileInfo.map fun p => (p.1, some p.2))
  rw [List.map_map] at files
  refine (funext fun nFile => ?_).trans files
  simp only [readBlockFileInfo, writeBatchSync, Store.writeBatch, if_true, writeBatchSyncOps,
    List.append_assoc, List.singleton_append, Store.applyBatch_append,
    Store.read_applyBatch_of_forall_ne _ _ (others nFile)]
  rfl

/-- `WriteBatchSync` records its last file number. -/
theorem readLastBlockFile_writeBatchSync (int : Codec Int) (info : Codec CBlockFileInfo)
    (diskBlockIndex : Codec CDiskBlockIndex) (db : Store) (fileInfo : List (Int × CBlockFileInfo))
    (nLastFile : Int) (blockinfo : List (Uint256 × CBlockIndex))
    : readLastBlockFile int (writeBatchSync int info diskBlockIndex db fileInfo nLastFile blockinfo true).2
      = some nLastFile := by
  have files : ∀ op ∈ fileInfo.map fun p => BatchOp.write (pairKey int dbBlockFiles p.1) (info.encode p.2),
      op.key ≠ slotKey dbLastBlock := by
    intro op hop
    obtain ⟨p, -, rfl⟩ := List.mem_map.mp hop
    simp [BatchOp.key, show dbBlockFiles ≠ dbLastBlock by decide]
  have blocks : ∀ op ∈ blockinfo.map fun b =>
      BatchOp.write (hashKey dbBlockIndex b.1) (diskBlockIndex.encode (.ofIndex b.2)),
      op.key ≠ slotKey dbLastBlock := by
    intro op hop
    obtain ⟨b, -, rfl⟩ := List.mem_map.mp hop
    exact hashKey_ne_slotKey _ _ _
  simp only [readLastBlockFile, writeBatchSync, Store.writeBatch, if_true, writeBatchSyncOps,
    Store.applyBatch_append, Store.read_applyBatch_of_forall_ne _ _ blocks]
  rw [Store.read, Store.get_applyBatch, effects_cons, effects_nil, BatchOp.effect, if_pos rfl]
  simp

/-- `WriteReindexing` leaves the reindexing flag present exactly when it is set. -/
theorem readReindexing_writeReindexing (db : Store) (fReindexing : Bool)
    : readReindexing (writeReindexing db fReindexing true).2 = fReindexing := by
  cases fReindexing <;> simp [readReindexing, writeReindexing, Store.writeBatch, Store.contains,
    Store.applyOp]

/-- `WriteTxIndex` sets the positions it is given, a later one of a transaction winning, and
leaves the others.
-/
theorem readTxIndex_writeTxIndex (pos : Codec CDiskTxPos) (db : Store)
    (vect : List (Uint256 × CDiskTxPos))
    : readTxIndex pos (writeTxIndex pos db vect true).2
      = updates (readTxIndex pos db) (vect.map fun p => (p.1, some p.2)) := by
  have written := read_applyBatch_keyedOps pos (hashKey_injective dbTxindex) db
    (vect.map fun p => (p.1, some p.2))
  rw [List.map_map] at written
  exact written

/-- The batch of `UpdateSpentIndex` and `UpdateAddressUnspentIndex` sets the values it is given and
removes the keys given a null value, a later entry of a key winning, and leaves the others.
-/
theorem read_updateIndexOps {K V : Type} [DecidableEq K] (key : Codec K) (value : Codec V)
    (isNull : V → Bool) (tag : Byte) (db : Store) (vect : List (K × V))
    : (fun k => (db.applyBatch (updateIndexOps key value isNull tag vect)).read value (pairKey key tag k))
      = updates (fun k => db.read value (pairKey key tag k))
          (vect.map fun p => (p.1, if isNull p.2 then none else some p.2)) := by
  have ops : updateIndexOps key value isNull tag vect
      = (vect.map fun p => (p.1, if isNull p.2 then none else some p.2)).map
          (keyedOp (pairKey key tag) value) := by
    rw [List.map_map]
    exact List.map_congr_left fun p _ => by
      rw [Function.comp_apply]
      cases isNull p.2 <;> rfl
  rw [ops]
  exact read_applyBatch_keyedOps value (pairKey_injective key tag) db _

/-- `UpdateSpentIndex` sets the spent-index values it is given and removes the keys given a null
value, a later entry of a key winning, and leaves the others.
-/
theorem readSpentIndex_updateSpentIndex [DecidableEq CSpentIndexKey] (key : Codec CSpentIndexKey)
    (value : Codec CSpentIndexValue) (isNull : CSpentIndexValue → Bool) (db : Store)
    (vect : List (CSpentIndexKey × CSpentIndexValue))
    : readSpentIndex key value (updateSpentIndex key value isNull db vect true).2
      = updates (readSpentIndex key value db)
          (vect.map fun p => (p.1, if isNull p.2 then none else some p.2)) :=
  read_updateIndexOps key value isNull dbSpentindex db vect

/-- `WriteTimestampBlockIndex` sets the logical timestamp of its block and leaves the others. -/
theorem readTimestampBlockIndex_writeTimestampBlockIndex (value : Codec CTimestampBlockIndexValue)
    (db : Store) (blockhashIndex : Uint256) (logicalts : CTimestampBlockIndexValue)
    : readTimestampBlockIndex value (writeTimestampBlockIndex value db blockhashIndex logicalts true).2
      = Function.update (readTimestampBlockIndex value db) blockhashIndex (some logicalts.ltimestamp) := by
  calc readTimestampBlockIndex value (writeTimestampBlockIndex value db blockhashIndex logicalts true).2
      = Option.map CTimestampBlockIndexValue.ltimestamp ∘ updates (fun hash => db.read value (hashKey dbBlockhashindex hash))
          [(blockhashIndex, some logicalts)] :=
        congrArg (Option.map CTimestampBlockIndexValue.ltimestamp ∘ ·)
          (read_applyBatch_keyedOps value (hashKey_injective dbBlockhashindex) db
            [(blockhashIndex, some logicalts)])
    _ = _ := Function.comp_update _ _ _ _

/-- `WriteFlag` sets its flag and leaves the others. -/
theorem readFlag_writeFlag (name : Codec String) (db : Store) (flag : String) (fValue : Bool)
    : readFlag name (writeFlag name db flag fValue true).2
      = Function.update (readFlag name db) flag (some fValue) := by
  have written := congrArg (Option.map (fun b : Byte => decide (b = .ofChar '1')) ∘ ·)
    (read_applyBatch_keyedOps Codec.byte (pairKey_injective name dbFlag) db
      [(flag, some (.ofChar (if fValue then '1' else '0')))])
  cases fValue <;> exact written.trans (Function.comp_update _ _ _ _)

end ReadAfterWrite

-----------------------------------------------------------------------------------------
-- The tags a call touches
-----------------------------------------------------------------------------------------

namespace BlockTreeWrite

variable {CBlockFileInfo CDiskTxPos CSpentIndexKey CSpentIndexValue CAddressUnspentValue : Type}
  (f : BlockTreeFormat CBlockFileInfo CDiskTxPos CSpentIndexKey CSpentIndexValue CAddressUnspentValue)

/-- The tags of the keys a call's batch touches. -/
def tags
    : BlockTreeWrite CBlockFileInfo CDiskTxPos CSpentIndexKey CSpentIndexValue CAddressUnspentValue
      → List Byte
  | writeReindexing .. => [dbReindexFlag]
  | writeBatchSync .. => [dbBlockFiles, dbLastBlock, dbBlockIndex]
  | eraseBatchSync .. => [dbBlockIndex]
  | writeTxIndex .. => [dbTxindex]
  | updateSpentIndex .. => [dbSpentindex]
  | updateAddressUnspentIndex .. => [dbAddressunspentindex]
  | writeAddressIndex .. | eraseAddressIndex .. => [dbAddressindex]
  | writeTimestampIndex .. => [dbTimestampindex]
  | writeTimestampBlockIndex .. => [dbBlockhashindex]
  | writeFlag .. => [dbFlag]

/-- Every key a call's batch touches starts with one of the call's tags. -/
theorem batch_tags
    (call : BlockTreeWrite CBlockFileInfo CDiskTxPos CSpentIndexKey CSpentIndexValue
      CAddressUnspentValue)
    : ∀ op ∈ call.batch f, ∃ t ∈ call.tags, [t] <+: op.key := by
  intro op hop
  cases call with
  | writeReindexing fReindexing _ =>
      rw [batch, List.mem_singleton] at hop
      subst hop
      exact ⟨_, List.mem_singleton_self _, by split <;> exact ⟨[], rfl⟩⟩
  | writeBatchSync fileInfo nLastFile blockinfo _ =>
      simp only [batch, writeBatchSyncOps, List.mem_append, List.mem_map, List.mem_singleton] at hop
      rcases hop with (⟨_, -, rfl⟩ | rfl) | ⟨_, -, rfl⟩
      · exact ⟨dbBlockFiles, List.mem_cons_self _ _, _, rfl⟩
      · exact ⟨dbLastBlock, List.mem_cons_of_mem _ (List.mem_cons_self _ _), _, rfl⟩
      · exact ⟨dbBlockIndex, List.mem_cons_of_mem _ (List.mem_cons_of_mem _ (List.mem_cons_self _ _)), _, rfl⟩
  | eraseBatchSync _ _ | writeTxIndex _ _ | writeAddressIndex _ _ | eraseAddressIndex _ _ =>
      obtain ⟨_, -, rfl⟩ := List.mem_map.mp hop
      exact ⟨_, List.mem_singleton_self _, _, rfl⟩
  | updateSpentIndex _ _ | updateAddressUnspentIndex _ _ =>
      obtain ⟨_, -, hkey⟩ := updateIndexOps_key hop
      exact ⟨_, List.mem_singleton_self _, _, hkey.symm⟩
  | writeTimestampIndex _ _ | writeTimestampBlockIndex _ _ _ | writeFlag _ _ _ =>
      rw [batch, List.mem_singleton] at hop
      subst hop
      exact ⟨_, List.mem_singleton_self _, _, rfl⟩

/-- A call leaves every key of a tag its batch does not carry as it was. -/
theorem get_run_of_not_mem
    (call : BlockTreeWrite CBlockFileInfo CDiskTxPos CSpentIndexKey CSpentIndexValue
      CAddressUnspentValue)
    {t : Byte} (ht : t ∉ call.tags) (db : Store) (rest : Bytes)
    : (call.run f db).get (t :: rest) = db.get (t :: rest) := by
  rw [run_eq]
  refine Store.get_writeBatch_of_forall_ne db (fun op hop hkey => ?_) _
  obtain ⟨t', ht', pre⟩ := call.batch_tags f op hop
  rw [hkey, List.cons_prefix_cons] at pre
  exact ht (pre.1 ▸ ht')

/-- A call leaves every point read under a tag its batch does not carry as it was. -/
theorem read_run_of_not_mem
    (call : BlockTreeWrite CBlockFileInfo CDiskTxPos CSpentIndexKey CSpentIndexValue
      CAddressUnspentValue)
    {t : Byte} (ht : t ∉ call.tags) (db : Store) {α : Type} (c : Codec α) (rest : Bytes)
    : (call.run f db).read c (t :: rest) = db.read c (t :: rest) := by
  rw [Store.read, Store.read, get_run_of_not_mem f call ht]

/-- An uncommitted call leaves the store as it was. -/
theorem run_of_committed_eq_false
    {call : BlockTreeWrite CBlockFileInfo CDiskTxPos CSpentIndexKey CSpentIndexValue
      CAddressUnspentValue}
    (h : call.committed = false) (db : Store)
    : call.run f db = db := by
  rw [run_eq, h]
  rfl

section Frame

variable (call : BlockTreeWrite CBlockFileInfo CDiskTxPos CSpentIndexKey CSpentIndexValue
  CAddressUnspentValue) (db : Store)

theorem readBlockFileInfo_run (h : dbBlockFiles ∉ call.tags)
    : readBlockFileInfo f.int f.info (call.run f db) = readBlockFileInfo f.int f.info db :=
  funext fun _ => read_run_of_not_mem f call h db _ _

theorem readReindexing_run (h : dbReindexFlag ∉ call.tags)
    : readReindexing (call.run f db) = readReindexing db := by
  simp only [readReindexing, Store.contains, slotKey_eq, get_run_of_not_mem f call h]

theorem readLastBlockFile_run (h : dbLastBlock ∉ call.tags)
    : readLastBlockFile f.int (call.run f db) = readLastBlockFile f.int db :=
  read_run_of_not_mem f call h db _ _

theorem readTxIndex_run (h : dbTxindex ∉ call.tags)
    : readTxIndex f.pos (call.run f db) = readTxIndex f.pos db :=
  funext fun _ => read_run_of_not_mem f call h db _ _

theorem readSpentIndex_run (h : dbSpentindex ∉ call.tags)
    : readSpentIndex f.spentKey f.spentValue (call.run f db) = readSpentIndex f.spentKey f.spentValue db :=
  funext fun _ => read_run_of_not_mem f call h db _ _

theorem readTimestampBlockIndex_run (h : dbBlockhashindex ∉ call.tags)
    : readTimestampBlockIndex f.blockhashValue (call.run f db) = readTimestampBlockIndex f.blockhashValue db :=
  funext fun _ => congrArg (Option.map _) (read_run_of_not_mem f call h db _ _)

theorem readFlag_run (h : dbFlag ∉ call.tags) : readFlag f.name (call.run f db) = readFlag f.name db :=
  funext fun _ => congrArg (Option.map _) (read_run_of_not_mem f call h db _ _)

end Frame

end BlockTreeWrite

-----------------------------------------------------------------------------------------
-- The point reads as maps
-----------------------------------------------------------------------------------------

/-- What the point reads of `CBlockTreeDB` return, as maps. -/
@[ext] structure BlockTreeView (CBlockFileInfo CDiskTxPos CSpentIndexKey CSpentIndexValue : Type) where
  /-- `ReadBlockFileInfo(nFile, info)` -/
  blockFileInfo : Int → Option CBlockFileInfo
  /-- `ReadReindexing(fReindexing)` -/
  reindexing : Bool
  /-- `ReadLastBlockFile(nFile)` -/
  lastBlockFile : Option Int
  /-- `ReadTxIndex(txid, pos)` -/
  txIndex : Uint256 → Option CDiskTxPos
  /-- `ReadSpentIndex(key, value)` -/
  spentIndex : CSpentIndexKey → Option CSpentIndexValue
  /-- `ReadTimestampBlockIndex(hash, ltimestamp)` -/
  timestampBlockIndex : Uint256 → Option Nat
  /-- `ReadFlag(name, fValue)` -/
  flags : String → Option Bool

section View

variable {CBlockFileInfo CDiskTxPos CSpentIndexKey CSpentIndexValue CAddressUnspentValue : Type}
  (f : BlockTreeFormat CBlockFileInfo CDiskTxPos CSpentIndexKey CSpentIndexValue CAddressUnspentValue)

/-- The point reads of a store. -/
def view (db : Store) : BlockTreeView CBlockFileInfo CDiskTxPos CSpentIndexKey CSpentIndexValue :=
  ⟨readBlockFileInfo f.int f.info db, readReindexing db, readLastBlockFile f.int db, readTxIndex f.pos db,
    readSpentIndex f.spentKey f.spentValue db, readTimestampBlockIndex f.blockhashValue db, readFlag f.name db⟩

variable [DecidableEq CSpentIndexKey]

/-- What a committed call does to the point reads: it updates the maps of its batch's tags, key by
key in batch order. The calls of the block index and of the range-scanned indices change none.
-/
def BlockTreeWrite.update (s : BlockTreeView CBlockFileInfo CDiskTxPos CSpentIndexKey CSpentIndexValue)
    : BlockTreeWrite CBlockFileInfo CDiskTxPos CSpentIndexKey CSpentIndexValue CAddressUnspentValue
      → BlockTreeView CBlockFileInfo CDiskTxPos CSpentIndexKey CSpentIndexValue
  | .writeReindexing fReindexing _ => { s with reindexing := fReindexing }
  | .writeBatchSync fileInfo nLastFile _ _ =>
      { s with
        blockFileInfo := updates s.blockFileInfo (fileInfo.map fun p => (p.1, some p.2))
        lastBlockFile := some nLastFile }
  | .writeTxIndex vect _ => { s with txIndex := updates s.txIndex (vect.map fun p => (p.1, some p.2)) }
  | .updateSpentIndex vect _ =>
      { s with
        spentIndex := updates s.spentIndex
          (vect.map fun p => (p.1, if f.spentIsNull p.2 then none else some p.2)) }
  | .writeTimestampBlockIndex blockhashIndex logicalts _ =>
      { s with
        timestampBlockIndex :=
          Function.update s.timestampBlockIndex blockhashIndex (some logicalts.ltimestamp) }
  | .writeFlag flag fValue _ => { s with flags := Function.update s.flags flag (some fValue) }
  | .eraseBatchSync .. | .updateAddressUnspentIndex .. | .writeAddressIndex ..
  | .eraseAddressIndex .. | .writeTimestampIndex .. => s

/-- What a call does to the point reads: the whole update when its batch commits, and nothing
otherwise.
-/
def BlockTreeWrite.apply (s : BlockTreeView CBlockFileInfo CDiskTxPos CSpentIndexKey CSpentIndexValue)
    (call : BlockTreeWrite CBlockFileInfo CDiskTxPos CSpentIndexKey CSpentIndexValue CAddressUnspentValue)
    : BlockTreeView CBlockFileInfo CDiskTxPos CSpentIndexKey CSpentIndexValue :=
  if call.committed then call.update f s else s

/-- Every call refines its update of the point reads: the reads of the store after the call are the
reads before it, updated as `BlockTreeWrite.apply` says. Witness: a call changes no key of a tag its
batch does not carry, and each read of a tag it carries is a read after write.
-/
theorem view_run (db : Store)
    (call : BlockTreeWrite CBlockFileInfo CDiskTxPos CSpentIndexKey CSpentIndexValue CAddressUnspentValue)
    : view f (call.run f db) = call.apply f (view f db) := by
  cases hc : call.committed
  · rw [BlockTreeWrite.apply, hc, BlockTreeWrite.run_of_committed_eq_false f hc]
    rfl
  rw [BlockTreeWrite.apply, hc, if_pos rfl]
  cases call <;> simp only [BlockTreeWrite.committed] at hc <;> subst hc <;>
    simp (disch := (dsimp only [BlockTreeWrite.tags]; decide)) only [view, BlockTreeWrite.update, BlockTreeView.mk.injEq,
      BlockTreeWrite.readBlockFileInfo_run, BlockTreeWrite.readReindexing_run,
      BlockTreeWrite.readLastBlockFile_run, BlockTreeWrite.readTxIndex_run,
      BlockTreeWrite.readSpentIndex_run, BlockTreeWrite.readTimestampBlockIndex_run,
      BlockTreeWrite.readFlag_run, and_true, true_and]
  case writeReindexing => exact readReindexing_writeReindexing db _
  case writeBatchSync =>
    exact ⟨readBlockFileInfo_writeBatchSync f.int f.info f.diskBlockIndex db _ _ _,
      readLastBlockFile_writeBatchSync f.int f.info f.diskBlockIndex db _ _ _⟩
  case writeTxIndex => exact readTxIndex_writeTxIndex f.pos db _
  case updateSpentIndex => exact readSpentIndex_updateSpentIndex f.spentKey f.spentValue f.spentIsNull db _
  case writeTimestampBlockIndex =>
    exact readTimestampBlockIndex_writeTimestampBlockIndex f.blockhashValue db _ _
  case writeFlag => exact readFlag_writeFlag f.name db _ _

/-- After any sequence of write calls on any store, the point reads are those of the store before,
updated call by call as `BlockTreeWrite.apply` says: the store refines the maps over whole runs.
Witness: induction on the calls, one step each by `view_run`.
-/
theorem view_blockTreeWrites (db : Store)
    (calls : List (BlockTreeWrite CBlockFileInfo CDiskTxPos CSpentIndexKey CSpentIndexValue
      CAddressUnspentValue))
    : view f (blockTreeWrites f db calls) = calls.foldl (BlockTreeWrite.apply f) (view f db) := by
  induction calls generalizing db with
  | nil => rfl
  | cons call calls ih =>
      exact (ih (call.run f db)).trans (congrArg (calls.foldl _) (view_run f db call))

end View

end Txdb
