import Txdb.Reference
import Txdb.Scan

/-! `CBlockTreeDB::LoadBlockIndexGuts`: the scan of the block-index records that rebuilds
`mapBlockIndex`, what one record does to the map, and what a whole load rebuilds.
-/

namespace Txdb

/-- The node `LoadBlockIndexGuts` makes of a disk record: its predecessor pointer and every field
copied from the record.
-/
def CBlockIndex.ofDiskIndex (pprev : Option Uint256) (d : CDiskBlockIndex) : CBlockIndex where
  pprev := pprev
  nHeight := d.nHeight
  nFile := d.nFile
  nDataPos := d.nDataPos
  nUndoPos := d.nUndoPos
  hashSproutAnchor := d.hashSproutAnchor
  nVersion := d.nVersion
  hashMerkleRoot := d.hashMerkleRoot
  hashFinalSaplingRoot := d.hashFinalSaplingRoot
  nTime := d.nTime
  nBits := d.nBits
  nNonce := d.nNonce
  nSolution := d.nSolution
  nStatus := d.nStatus
  nCachedBranchId := d.nCachedBranchId
  nTx := d.nTx
  nSproutValue := d.nSproutValue

/-- One iteration of the loop of `CBlockTreeDB::LoadBlockIndexGuts`, with `mapBlockIndex` as the
state. The loop appends nothing; the dead `if (0)` proof-of-work branch is left out.
-/
def loadBlockIndexStep (getHash : CBlockHeader → Uint256) (diskBlockIndex : Codec CDiskBlockIndex)
    (m : BlockMap) (e : Entry)
    : ScanStep Empty × BlockMap :=
  match (Codec.tagged Uint256.codec).decode e.1 with
  | some ((chType, _), _) =>
      if chType = dbBlockIndex then
        match diskBlockIndex.decode e.2 with
        | some (diskindex, _) =>
            let pindexNew := insertBlockIndex m (diskindex.getBlockHash getHash)
            let pprev := insertBlockIndex pindexNew.2 diskindex.hashPrev
            match pindexNew.1 with
            | none => (.abort, pprev.2)
            | some hash =>
                let node := CBlockIndex.ofDiskIndex pprev.1 diskindex
                let m' := pprev.2.setNode hash node
                if getHash node.getBlockHeader ≠ hash then (.fail, m') else (.skip, m')
        | none => (.fail, m)
      else (.stop, m)
  | none => (.stop, m)

/-- `CBlockTreeDB::LoadBlockIndexGuts`: seek to `(DB_BLOCK_INDEX, uint256())` and load records
until the first key of another kind. It returns how the function ends and the map.
-/
def loadBlockIndexGuts (getHash : CBlockHeader → Uint256) (diskBlockIndex : Codec CDiskBlockIndex)
    (db : Store) (m : BlockMap)
    : Option Bool × BlockMap :=
  let r := scan (loadBlockIndexStep getHash diskBlockIndex) m
    (db.seek (hashKey dbBlockIndex (Blob.null 32)))
  (r.1, r.2.2)

-----------------------------------------------------------------------------------------
-- One record
-----------------------------------------------------------------------------------------

/-- What loading the record `d` under the hash `hash` does to a map without null pointers: the
node copied from the record under `hash`, and a placeholder under the record's predecessor hash
when that is not null and had no entry.
-/
def loadRecord (m : BlockMap) (hash : Uint256) (d : CDiskBlockIndex) : BlockMap := fun x =>
  if x = hash then some (some (.ofDiskIndex (nodePointer d.hashPrev) d))
  else if x = d.hashPrev ∧ ¬d.hashPrev.isNull ∧ m d.hashPrev = none then some (some .default)
  else m x

theorem BlockMap.NoNull.loadRecord {m : BlockMap} (hm : m.NoNull) (hash : Uint256)
    (d : CDiskBlockIndex)
    : (Txdb.loadRecord m hash d).NoNull := by
  intro x
  unfold Txdb.loadRecord
  split_ifs
  · simp
  · simp
  · exact hm x

/-- The null hash stands for the missing predecessor: a pointer to the node under `hash` reads
back as `hash`.
-/
@[simp] theorem nodePointer_getD (hash : Uint256) : (nodePointer hash).getD (Blob.null 32) = hash := by
  unfold nodePointer
  split
  · exact ((Blob.isNull_iff _).mp ‹_›).symm
  · rfl

/-- The header rebuilt from a loaded node is the one the disk record hashes, so its hash is the
record's own recomputed hash.
-/
theorem getHash_ofDiskIndex (getHash : CBlockHeader → Uint256) (d : CDiskBlockIndex)
    : getHash (CBlockIndex.ofDiskIndex (nodePointer d.hashPrev) d).getBlockHeader
      = d.getBlockHash getHash := by
  simp [CBlockIndex.getBlockHeader, CBlockIndex.ofDiskIndex, CDiskBlockIndex.getBlockHash]

/-- A pointer to a node is non-null exactly for a non-null hash. -/
theorem nodePointer_eq_some {hash p : Uint256}
    : nodePointer hash = some p ↔ ¬hash.isNull ∧ hash = p := by
  unfold nodePointer
  split <;> simp_all

/-- Loading the disk form of a node gives back the node, with the new predecessor pointer. -/
@[simp] theorem ofDiskIndex_ofIndex (pprev : Option Uint256) (node : CBlockIndex)
    : CBlockIndex.ofDiskIndex pprev (.ofIndex node) = { node with pprev := pprev } := rfl

@[simp] theorem ofIndex_hashPrev (node : CBlockIndex)
    : (CDiskBlockIndex.ofIndex node).hashPrev = node.pprev.getD (Blob.null 32) := rfl

/-- The loader's seek key lies at or below every block-index key. -/
theorem seekKey_le_hashKey (hash : Uint256)
    : hashKey dbBlockIndex (Blob.null 32) ≤ hashKey dbBlockIndex hash := by
  simp only [hashKey_eq]
  exact Bytes.cons_le_cons_iff.mpr (.inr ⟨rfl, Blob.null_le hash⟩)

section Step

variable (getHash : CBlockHeader → Uint256) (diskBlockIndex : Codec CDiskBlockIndex)

/-- On a map without null pointers, a block-index record that decodes with a non-null recomputed
hash is loaded under that hash, whatever key `K` it is stored under, and the consistency check
passes: the check compares the recomputed hash with itself.
-/
theorem loadBlockIndexStep_record {m : BlockMap} (hm : m.NoNull) {e : Entry} {K : Uint256}
    {krest : Bytes} (hkey : (Codec.tagged Uint256.codec).decode e.1 = some ((dbBlockIndex, K), krest))
    {d : CDiskBlockIndex} {vrest : Bytes} (hval : diskBlockIndex.decode e.2 = some (d, vrest))
    (hnull : ¬(d.getBlockHash getHash).isNull)
    : loadBlockIndexStep getHash diskBlockIndex m e
      = (.skip, loadRecord m (d.getBlockHash getHash) d) := by
  have first : (insertBlockIndex m (d.getBlockHash getHash)).1 = some (d.getBlockHash getHash) := by
    rw [insertBlockIndex_fst hm, nodePointer, if_neg hnull]
  have second := insertBlockIndex_fst (hm.insertBlockIndex (d.getBlockHash getHash)) d.hashPrev
  simp only [loadBlockIndexStep, hkey, hval, if_true, first, second, getHash_ofDiskIndex, ne_eq,
    not_true_eq_false, if_false, Prod.mk.injEq, true_and]
  funext x
  by_cases hx : x = d.getBlockHash getHash
  · simp [loadRecord, hx]
  · by_cases hp : x = d.hashPrev
    · subst hp
      simp [loadRecord, hx, insertBlockIndex_snd_apply]
    · simp [loadRecord, hx, hp, insertBlockIndex_snd_apply]

/-- A record whose key does not read as a block-index key ends the load. -/
theorem loadBlockIndexStep_stop {m : BlockMap} {e : Entry}
    (hkey : ∀ K krest, (Codec.tagged Uint256.codec).decode e.1 ≠ some ((dbBlockIndex, K), krest))
    : loadBlockIndexStep getHash diskBlockIndex m e = (.stop, m) := by
  unfold loadBlockIndexStep
  split
  · next chType K krest h =>
      have : chType ≠ dbBlockIndex := fun heq => hkey K krest (heq ▸ h)
      simp [this]
  · rfl

/-- `LoadBlockIndexGuts` reads only the block-index records: two stores holding the same records
under `DB_BLOCK_INDEX` load alike into every map. Witness: the cursor is those records from the
seek key on, then a record of another tag, at which every step stops.
-/
theorem loadBlockIndexGuts_congr {db db' : Store}
    (h : db.entries.filter (fun e => [dbBlockIndex] <+: e.1)
      = db'.entries.filter (fun e => [dbBlockIndex] <+: e.1))
    (m : BlockMap)
    : loadBlockIndexGuts getHash diskBlockIndex db m = loadBlockIndexGuts getHash diskBlockIndex db' m := by
  have tagged : [dbBlockIndex] <+: hashKey dbBlockIndex (Blob.null 32) := ⟨_, rfl⟩
  have stops : ∀ d : Store, ∀ st, ∀ e ∈ ((d.seek [dbBlockIndex]).filter fun e => ¬[dbBlockIndex] <+: e.1).head?,
      loadBlockIndexStep getHash diskBlockIndex st e = (.stop, st) := by
    intro d st e he
    have hout : ¬[dbBlockIndex] <+: e.1 := by simpa using (List.mem_filter.mp (List.mem_of_mem_head? he)).2
    exact loadBlockIndexStep_stop getHash diskBlockIndex fun _ _ hdec =>
      hout (Codec.prefix_of_tagged_decode hdec)
  dsimp only [loadBlockIndexGuts]
  rw [Store.seek_eq_prefix_filter_append db tagged, Store.seek_eq_prefix_filter_append db' tagged,
    scan_append_of_head_stop _ (stops db), scan_append_of_head_stop _ (stops db'), h]

/-- On a map without null pointers, `LoadBlockIndexGuts` returns true whenever every block-index
record decodes with a non-null recomputed header hash, whatever key each is stored under; witness:
every record is skipped or ends the scan, and loading keeps the map free of null pointers.
-/
theorem loadBlockIndexGuts_eq_true (db : Store) {m : BlockMap} (hm : m.NoNull)
    (hrecords : ∀ e ∈ db.entries, ∀ K krest,
      (Codec.tagged Uint256.codec).decode e.1 = some ((dbBlockIndex, K), krest) →
        ∃ d vrest, diskBlockIndex.decode e.2 = some (d, vrest) ∧ ¬(d.getBlockHash getHash).isNull)
    : (loadBlockIndexGuts getHash diskBlockIndex db m).1 = some true := by
  apply scan_eq_true _ BlockMap.NoNull _ hm
  intro st e he hst
  have stored : e ∈ db.entries := by
    rw [Store.seek_eq_filter] at he
    exact List.mem_of_mem_filter he
  by_cases hb : ∃ K krest, (Codec.tagged Uint256.codec).decode e.1 = some ((dbBlockIndex, K), krest)
  · obtain ⟨K, krest, hkey⟩ := hb
    obtain ⟨d, vrest, hval, hnull⟩ := hrecords e stored K krest hkey
    rw [loadBlockIndexStep_record getHash diskBlockIndex hst hkey hval hnull]
    exact ⟨rfl, hst.loadRecord _ _⟩
  · push_neg at hb
    rw [loadBlockIndexStep_stop getHash diskBlockIndex hb]
    exact ⟨rfl, hst⟩

end Step

/-- A block-index record whose header hashes, under the stand-in hash, to the blob of `1` bytes. -/
def misfiledRecord : CDiskBlockIndex :=
  .ofIndex { CBlockIndex.default with nNonce := Blob.fill 32 1 }

/-- The key `misfiledStore` files the record under: not its hash. -/
def misfiledKey : Uint256 := Blob.fill 32 2

/-- A store whose only block-index record is filed under a key other than its header's hash. -/
def misfiledStore : Store :=
  ⟨[(hashKey dbBlockIndex misfiledKey, Reference.diskBlockIndex.encode misfiledRecord)],
    List.pairwise_singleton _ _⟩

/-- The misfiled store meets the hypotheses of `loadBlockIndexGuts_eq_true`, which returns true. -/
theorem loadBlockIndexGuts_eq_true_misfiledStore
    : BlockMap.empty.NoNull
      ∧ (∀ e ∈ misfiledStore.entries, ∀ K krest,
          (Codec.tagged Uint256.codec).decode e.1 = some ((dbBlockIndex, K), krest) →
            ∃ d vrest, Reference.diskBlockIndex.decode e.2 = some (d, vrest)
              ∧ ¬(d.getBlockHash Reference.headerHash).isNull)
      ∧ (loadBlockIndexGuts Reference.headerHash Reference.diskBlockIndex misfiledStore .empty).1
        = some true := by
  have hrecords : ∀ e ∈ misfiledStore.entries, ∀ K krest,
      (Codec.tagged Uint256.codec).decode e.1 = some ((dbBlockIndex, K), krest) →
        ∃ d vrest, Reference.diskBlockIndex.decode e.2 = some (d, vrest)
          ∧ ¬(d.getBlockHash Reference.headerHash).isNull := by
    intro e he _ _ _
    rw [misfiledStore, List.mem_singleton] at he
    subst he
    exact ⟨misfiledRecord, [], Codec.decode_encode_self _ _, by decide⟩
  exact ⟨BlockMap.empty_noNull, hrecords,
    loadBlockIndexGuts_eq_true _ _ _ BlockMap.empty_noNull hrecords⟩

/-- The loader returns true on the misfiled store: the record is loaded under its header's hash,
the consistency check passes, and the key it is filed under gets no node.
-/
theorem loadBlockIndexGuts_misfiledStore
    : (loadBlockIndexGuts Reference.headerHash Reference.diskBlockIndex misfiledStore .empty).1
        = some true
      ∧ misfiledStore.get (hashKey dbBlockIndex misfiledKey)
        = some (Reference.diskBlockIndex.encode misfiledRecord)
      ∧ misfiledRecord.getBlockHash Reference.headerHash ≠ misfiledKey
      ∧ (loadBlockIndexGuts Reference.headerHash Reference.diskBlockIndex misfiledStore .empty).2
          misfiledKey = none := by
  have hseek : misfiledStore.seek (hashKey dbBlockIndex (Blob.null 32)) = misfiledStore.entries := by
    rw [Store.seek_eq_filter, List.filter_eq_self]
    intro e he
    rw [misfiledStore, List.mem_singleton] at he
    exact he ▸ decide_eq_true (seekKey_le_hashKey _)
  have hstep := loadBlockIndexStep_record Reference.headerHash Reference.diskBlockIndex
    BlockMap.empty_noNull (e := (hashKey dbBlockIndex misfiledKey, Reference.diskBlockIndex.encode misfiledRecord))
    (Codec.decode_encode_self _ _) (Codec.decode_encode_self _ _) (by decide)
  have hload : loadBlockIndexGuts Reference.headerHash Reference.diskBlockIndex misfiledStore .empty
      = (some true, loadRecord .empty (misfiledRecord.getBlockHash Reference.headerHash) misfiledRecord) := by
    rw [loadBlockIndexGuts, hseek, misfiledStore, scan_cons_skip _ (by rw [hstep]), hstep]
    rfl
  refine ⟨by rw [hload], rfl, by decide, ?_⟩
  rw [hload]
  decide

-----------------------------------------------------------------------------------------
-- A run of records
-----------------------------------------------------------------------------------------

/-- Loading records in cursor order, each a hash and a disk record. -/
def loadRecords (m : BlockMap) (records : List (Uint256 × CDiskBlockIndex)) : BlockMap :=
  records.foldl (fun m r => loadRecord m r.1 r.2) m

/-- A hash no record is loaded under ends as a placeholder when it is a non-null predecessor hash
of some record and had no entry, and is unchanged otherwise; witness: induction on the records.
-/
theorem loadRecords_apply_of_not_mem (m : BlockMap) {records : List (Uint256 × CDiskBlockIndex)}
    {x : Uint256} (hx : x ∉ records.map (·.1))
    : loadRecords m records x
      = if ¬x.isNull ∧ m x = none ∧ ∃ r ∈ records, r.2.hashPrev = x then some (some .default)
        else m x := by
  induction records generalizing m with
  | nil =>
      rw [if_neg (show ¬(_ ∧ _ ∧ ∃ r ∈ ([] : List (Uint256 × CDiskBlockIndex)), r.2.hashPrev = x)
        from fun ⟨_, _, _, hr, _⟩ => List.not_mem_nil _ hr)]
      rfl
  | cons r rest ih =>
      have hr : x ≠ r.1 := fun h => hx (h ▸ List.mem_map_of_mem _ (List.mem_cons_self _ _))
      have hrest : x ∉ rest.map (·.1) := fun h => hx (List.mem_cons_of_mem _ h)
      have step : loadRecords m (r :: rest) x = loadRecords (loadRecord m r.1 r.2) rest x := rfl
      rw [step, ih _ hrest]
      simp only [List.exists_mem_cons_iff]
      by_cases hp : r.2.hashPrev = x
      · subst hp
        by_cases hc : ¬r.2.hashPrev.isNull ∧ m r.2.hashPrev = none
        · -- the predecessor gets its placeholder now, so the later records leave it alone
          have placed : loadRecord m r.1 r.2 r.2.hashPrev = some (some .default) := by
            rw [loadRecord, if_neg hr, if_pos ⟨rfl, hc⟩]
          rw [placed, if_neg (show ¬(_ ∧ some (some CBlockIndex.default) = none ∧ _) from
            fun h => Option.noConfusion h.2.1), if_pos ⟨hc.1, hc.2, .inl rfl⟩]
        · have kept : loadRecord m r.1 r.2 r.2.hashPrev = m r.2.hashPrev := by
            rw [loadRecord, if_neg hr, if_neg fun h => hc h.2]
          rw [kept, if_neg (show ¬(¬r.2.hashPrev.isNull ∧ m r.2.hashPrev = none ∧ _) from
            fun h => hc ⟨h.1, h.2.1⟩), if_neg (show ¬(¬r.2.hashPrev.isNull ∧ m r.2.hashPrev = none ∧ _)
            from fun h => hc ⟨h.1, h.2.1⟩)]
      · have kept : loadRecord m r.1 r.2 x = m x := by
          rw [loadRecord, if_neg hr, if_neg fun h => hp h.1.symm]
        simp only [kept, hp, false_or]

/-- A record loaded under a hash no other record is loaded under ends as that record's node;
witness: induction on the records, the later ones leaving it alone.
-/
theorem loadRecords_apply_of_mem (m : BlockMap) {records : List (Uint256 × CDiskBlockIndex)}
    (hnodup : (records.map (·.1)).Nodup) {hash : Uint256} {d : CDiskBlockIndex}
    (hmem : (hash, d) ∈ records)
    : loadRecords m records hash = some (some (.ofDiskIndex (nodePointer d.hashPrev) d)) := by
  induction records generalizing m with
  | nil => simp at hmem
  | cons r rest ih =>
      obtain ⟨hr, hrest⟩ := List.nodup_cons.mp hnodup
      have step : loadRecords m (r :: rest) hash = loadRecords (loadRecord m r.1 r.2) rest hash := rfl
      rw [step]
      rcases List.mem_cons.mp hmem with rfl | hmem
      · have here : loadRecord m hash d hash = some (some (.ofDiskIndex (nodePointer d.hashPrev) d)) :=
          if_pos rfl
        rw [loadRecords_apply_of_not_mem _ hr]
        simp only [here, Option.some_ne_none, false_and, and_false, if_false]
      · exact ih _ hrest hmem

-----------------------------------------------------------------------------------------
-- Writing, then loading
-----------------------------------------------------------------------------------------

/-- A call that writes block indices, with the engine's commit outcome. A block index is given as
its hash and its node.
-/
inductive BlockIndexWrite (CBlockFileInfo : Type)
  /-- `WriteBatchSync(fileInfo, nLastFile, blockinfo)` -/
  | writeBatchSync (fileInfo : List (Int × CBlockFileInfo)) (nLastFile : Int)
      (blockinfo : List (Uint256 × CBlockIndex)) (committed : Bool)
  /-- `EraseBatchSync(blockinfo)` -/
  | eraseBatchSync (blockinfo : List (Uint256 × CBlockIndex)) (committed : Bool)

/-- Writing block indices makes each live under its hash, a later one winning. -/
def writeLive (live : Uint256 → Option CBlockIndex) (blockinfo : List (Uint256 × CBlockIndex))
    : Uint256 → Option CBlockIndex :=
  blockinfo.foldl (fun live b => Function.update live b.1 (some b.2)) live

/-- Erasing block indices leaves none live under their hashes. -/
def eraseLive (live : Uint256 → Option CBlockIndex) (blockinfo : List (Uint256 × CBlockIndex))
    : Uint256 → Option CBlockIndex :=
  blockinfo.foldl (fun live b => Function.update live b.1 none) live

namespace BlockIndexWrite

variable {CBlockFileInfo : Type}

/-- The block indices a call writes. -/
def written : BlockIndexWrite CBlockFileInfo → List (Uint256 × CBlockIndex)
  | writeBatchSync _ _ blockinfo _ => blockinfo
  | eraseBatchSync _ _ => []

/-- The store after a call. -/
def run (int : Codec Int) (info : Codec CBlockFileInfo) (diskBlockIndex : Codec CDiskBlockIndex)
    (db : Store)
    : BlockIndexWrite CBlockFileInfo → Store
  | writeBatchSync fileInfo nLastFile blockinfo committed =>
      (Txdb.writeBatchSync int info diskBlockIndex db fileInfo nLastFile blockinfo committed).2
  | eraseBatchSync blockinfo committed => (Txdb.eraseBatchSync db blockinfo committed).2

/-- What a call means for the live block indices, those last written and not erased since. -/
def liveAfter (live : Uint256 → Option CBlockIndex)
    : BlockIndexWrite CBlockFileInfo → Uint256 → Option CBlockIndex
  | writeBatchSync _ _ blockinfo committed => if committed then writeLive live blockinfo else live
  | eraseBatchSync blockinfo committed => if committed then eraseLive live blockinfo else live

end BlockIndexWrite

section Writes

variable {CBlockFileInfo : Type} (getHash : CBlockHeader → Uint256) (int : Codec Int)
  (info : Codec CBlockFileInfo) (diskBlockIndex : Codec CDiskBlockIndex)

/-- The store after a sequence of calls. -/
def runWrites (db : Store) (calls : List (BlockIndexWrite CBlockFileInfo)) : Store :=
  calls.foldl (fun db call => call.run int info diskBlockIndex db) db

/-- The live block indices after a sequence of calls on a store with none. -/
def liveIndices (calls : List (BlockIndexWrite CBlockFileInfo)) : Uint256 → Option CBlockIndex :=
  calls.foldl BlockIndexWrite.liveAfter fun _ => none

/-- The block-index records of a store are the live block indices, each in its disk form under its
own hash.
-/
structure BlockRecords (db : Store) (live : Uint256 → Option CBlockIndex) : Prop where
  get_hashKey : ∀ hash, db.get (hashKey dbBlockIndex hash)
    = (live hash).map fun node => diskBlockIndex.encode (.ofIndex node)
  hashKey_of_get : ∀ key value, db.get key = some value → [dbBlockIndex] <+: key →
    ∃ hash, key = hashKey dbBlockIndex hash

/-- Every live block index is filed under the non-null hash of its header. -/
def HashConsistent (live : Uint256 → Option CBlockIndex) : Prop :=
  ∀ hash node, live hash = some node → getHash node.getBlockHeader = hash ∧ ¬hash.isNull

/-- Writing block indices sets each one's record, a later write of a hash winning; witness:
induction on the indices.
-/
theorem effects_writeBlocks (hash : Uint256) (blockinfo : List (Uint256 × CBlockIndex))
    (live : Uint256 → Option CBlockIndex)
    : effects (hashKey dbBlockIndex hash)
        (blockinfo.map fun b => .write (hashKey dbBlockIndex b.1) (diskBlockIndex.encode (.ofIndex b.2)))
        ((live hash).map fun node => diskBlockIndex.encode (.ofIndex node))
      = (writeLive live blockinfo hash).map fun node => diskBlockIndex.encode (.ofIndex node) := by
  induction blockinfo generalizing live with
  | nil => rfl
  | cons b rest ih =>
      rw [List.map_cons, effects_cons, writeLive, List.foldl_cons, ← writeLive, ← ih]
      congr 1
      by_cases hb : b.1 = hash
      · subst hb
        simp only [BatchOp.effect, if_true, Function.update_same, Option.map_some']
      · simp only [BatchOp.effect, hashKey_inj, true_and, hb, if_false,
          Function.update_noteq (Ne.symm hb)]

/-- Erasing block indices removes each one's record; witness: induction on the indices. -/
theorem effects_eraseBlocks (hash : Uint256) (blockinfo : List (Uint256 × CBlockIndex))
    (live : Uint256 → Option CBlockIndex)
    : effects (hashKey dbBlockIndex hash) (eraseBatchSyncOps blockinfo)
        ((live hash).map fun node => diskBlockIndex.encode (.ofIndex node))
      = (eraseLive live blockinfo hash).map fun node => diskBlockIndex.encode (.ofIndex node) := by
  induction blockinfo generalizing live with
  | nil => rfl
  | cons b rest ih =>
      rw [eraseBatchSyncOps, List.map_cons, effects_cons, eraseLive, List.foldl_cons, ← eraseLive,
        ← ih, eraseBatchSyncOps]
      congr 1
      by_cases hb : b.1 = hash
      · subst hb
        simp only [BatchOp.effect, if_true, Function.update_same, Option.map_none']
      · simp only [BatchOp.effect, hashKey_inj, true_and, hb, if_false,
          Function.update_noteq (Ne.symm hb)]

/-- `WriteBatchSync` writes the block-index keys only under its indices' hashes. -/
theorem hashKey_of_mem_writeBatchSyncOps {fileInfo : List (Int × CBlockFileInfo)} {nLastFile : Int}
    {blockinfo : List (Uint256 × CBlockIndex)} {op : BatchOp}
    (hop : op ∈ writeBatchSyncOps int info diskBlockIndex fileInfo nLastFile blockinfo)
    (hpre : [dbBlockIndex] <+: op.key)
    : ∃ hash, op.key = hashKey dbBlockIndex hash := by
  have files : dbBlockIndex ≠ dbBlockFiles := by decide
  have last : dbBlockIndex ≠ dbLastBlock := by decide
  simp only [writeBatchSyncOps, List.mem_append, List.mem_map, List.mem_singleton] at hop
  rcases hop with (⟨f, -, rfl⟩ | rfl) | ⟨b, -, rfl⟩
  · simp [BatchOp.key, files] at hpre
  · simp [BatchOp.key, last] at hpre
  · exact ⟨b.1, rfl⟩

/-- The calls keep the block-index records those of the live block indices. -/
theorem BlockRecords.run {db : Store} {live : Uint256 → Option CBlockIndex}
    (h : BlockRecords diskBlockIndex db live) (call : BlockIndexWrite CBlockFileInfo)
    : BlockRecords diskBlockIndex (call.run int info diskBlockIndex db) (call.liveAfter live) := by
  cases call with
  | writeBatchSync fileInfo nLastFile blockinfo committed =>
      cases committed
      · exact h
      · have files : dbBlockIndex ≠ dbBlockFiles := by decide
        have last : dbBlockIndex ≠ dbLastBlock := by decide
        refine ⟨fun hash => ?_, fun key value hget hpre => ?_⟩
        · simp only [BlockIndexWrite.run, BlockIndexWrite.liveAfter, writeBatchSync,
            Store.writeBatch, if_true, Store.get_applyBatch, h.get_hashKey, writeBatchSyncOps]
          rw [effects_append_of_forall_ne, effects_writeBlocks]
          intro op hop
          simp only [List.mem_append, List.mem_map, List.mem_singleton] at hop
          rcases hop with ⟨f, -, rfl⟩ | rfl
          · simp [BatchOp.key, Ne.symm files]
          · simp [BatchOp.key, Ne.symm last]
        · rcases Store.get_applyBatch_eq_some hget with old | ⟨op, hop, rfl⟩
          · exact h.hashKey_of_get key value old hpre
          · exact hashKey_of_mem_writeBatchSyncOps int info diskBlockIndex hop hpre
  | eraseBatchSync blockinfo committed =>
      cases committed
      · exact h
      · refine ⟨fun hash => ?_, fun key value hget hpre => ?_⟩
        · simp only [BlockIndexWrite.run, BlockIndexWrite.liveAfter, eraseBatchSync,
            Store.writeBatch, if_true, Store.get_applyBatch, h.get_hashKey]
          exact effects_eraseBlocks diskBlockIndex hash blockinfo live
        · rcases Store.get_applyBatch_eq_some hget with old | ⟨op, hop, rfl⟩
          · exact h.hashKey_of_get key value old hpre
          · obtain ⟨b, -, rfl⟩ := List.mem_map.mp hop
            exact ⟨b.1, rfl⟩

/-- The calls keep every live block index filed under its header's non-null hash, when every
index they write is; witness: induction on the written indices.
-/
theorem HashConsistent.liveAfter {live : Uint256 → Option CBlockIndex}
    (h : HashConsistent getHash live) (call : BlockIndexWrite CBlockFileInfo)
    (hcall : ∀ b ∈ call.written, getHash b.2.getBlockHeader = b.1 ∧ ¬b.1.isNull)
    : HashConsistent getHash (call.liveAfter live) := by
  cases call with
  | writeBatchSync fileInfo nLastFile blockinfo committed =>
      cases committed
      · exact h
      · show HashConsistent getHash (writeLive live blockinfo)
        simp only [BlockIndexWrite.written] at hcall
        induction blockinfo generalizing live with
        | nil => exact h
        | cons b rest ih =>
            show HashConsistent getHash (writeLive (Function.update live b.1 (some b.2)) rest)
            refine ih ?_ fun b' hb' => hcall b' (List.mem_cons_of_mem _ hb')
            intro hash node hh
            by_cases hb : hash = b.1
            · subst hb
              rw [Function.update_same, Option.some.injEq] at hh
              exact hh ▸ hcall b (List.mem_cons_self _ _)
            · rw [Function.update_noteq hb] at hh
              exact h hash node hh
  | eraseBatchSync blockinfo committed =>
      cases committed
      · exact h
      · show HashConsistent getHash (eraseLive live blockinfo)
        clear hcall
        induction blockinfo generalizing live with
        | nil => exact h
        | cons b rest ih =>
            show HashConsistent getHash (eraseLive (Function.update live b.1 none) rest)
            refine ih ?_
            intro hash node hh
            by_cases hb : hash = b.1
            · subst hb
              simp at hh
            · rw [Function.update_noteq hb] at hh
              exact h hash node hh

/-- After any calls on a store without block-index keys, its block-index records are the live
block indices, each filed under its header's non-null hash when every written index is; witness:
induction on the calls.
-/
theorem blockRecords_runWrites {db₀ : Store}
    (hfresh : ∀ e ∈ db₀.entries, ¬[dbBlockIndex] <+: e.1)
    {calls : List (BlockIndexWrite CBlockFileInfo)}
    (hwritten : ∀ call ∈ calls, ∀ b ∈ call.written, getHash b.2.getBlockHeader = b.1 ∧ ¬b.1.isNull)
    : BlockRecords diskBlockIndex (runWrites int info diskBlockIndex db₀ calls) (liveIndices calls)
      ∧ HashConsistent getHash (liveIndices calls) := by
  have absent : ∀ key value, db₀.get key = some value → ¬[dbBlockIndex] <+: key :=
    fun key value hget => hfresh (key, value) ((Store.mem_entries_iff _ _ _).mpr hget)
  have start : BlockRecords diskBlockIndex db₀ fun _ => none := by
    refine ⟨fun hash => ?_, fun key value hget hpre => absurd hpre (absent key value hget)⟩
    cases hget : db₀.get (hashKey dbBlockIndex hash) with
    | none => rfl
    | some value => exact absurd (by simp) (absent _ value hget)
  suffices run : ∀ db live, BlockRecords diskBlockIndex db live → HashConsistent getHash live →
      BlockRecords diskBlockIndex (calls.foldl (fun db call => call.run int info diskBlockIndex db) db)
          (calls.foldl BlockIndexWrite.liveAfter live)
        ∧ HashConsistent getHash (calls.foldl BlockIndexWrite.liveAfter live) from
    run db₀ _ start fun _ _ h => by simp at h
  induction calls with
  | nil => exact fun _ _ h hc => ⟨h, hc⟩
  | cons call rest ih =>
      intro db live h hc
      exact ih (fun c hc' => hwritten c (List.mem_cons_of_mem _ hc')) _ _ (h.run int info diskBlockIndex call)
        (hc.liveAfter getHash call (hwritten call (List.mem_cons_self _ _)))

/-- A list each of whose elements is the image of something satisfying `Q` is the image of a list
of such things; witness: induction on the list.
-/
theorem exists_map_eq_of_forall {α β : Type} {f : α → β} {Q : α → Prop} {l : List β}
    (h : ∀ b ∈ l, ∃ a, Q a ∧ f a = b)
    : ∃ as : List α, (∀ a ∈ as, Q a) ∧ as.map f = l := by
  induction l with
  | nil => exact ⟨[], by simp, rfl⟩
  | cons b l ih =>
      obtain ⟨a, ha, rfl⟩ := h b (List.mem_cons_self _ _)
      obtain ⟨as, has, rfl⟩ := ih fun b hb => h b (List.mem_cons_of_mem _ hb)
      exact ⟨a :: as, List.forall_mem_cons.mpr ⟨ha, has⟩, rfl⟩

/-- The header of a block index is the one its disk form hashes. -/
@[simp] theorem getBlockHash_ofIndex (node : CBlockIndex)
    : (CDiskBlockIndex.ofIndex node).getBlockHash getHash = getHash node.getBlockHeader := rfl

/-- Loading, into an empty map, a store whose block-index records are live block indices each
filed under its header's non-null hash returns true and loads exactly those indices, in ascending
key order; witness: the cursor is those records, each skipped, then keys of other kinds, the
first of which ends the scan.
-/
theorem loadBlockIndexGuts_of_blockRecords {db : Store} {live : Uint256 → Option CBlockIndex}
    (hrec : BlockRecords diskBlockIndex db live) (hcons : HashConsistent getHash live)
    : ∃ records : List (Uint256 × CBlockIndex),
        (∀ hash node, (hash, node) ∈ records ↔ live hash = some node)
        ∧ (records.map (·.1)).Nodup
        ∧ loadBlockIndexGuts getHash diskBlockIndex db .empty
          = (some true, loadRecords .empty (records.map fun r => (r.1, .ofIndex r.2))) := by
  let entryOf : Uint256 × CBlockIndex → Entry :=
    fun r => (hashKey dbBlockIndex r.1, diskBlockIndex.encode (.ofIndex r.2))
  let P : Entry → Bool := fun e => decide ([dbBlockIndex] <+: e.1)
  have tagged : [dbBlockIndex] <+: hashKey dbBlockIndex (Blob.null 32) := by simp
  have hcursor := Store.seek_eq_filter db (hashKey dbBlockIndex (Blob.null 32))
  have sorted : (db.seek (hashKey dbBlockIndex (Blob.null 32))).Pairwise (fun a b => a.1 < b.1) :=
    hcursor ▸ db.sorted.filter _
  have split := Store.eq_filter_append_filter sorted (P := P) fun a ha b hb hab hPb => by
    rw [hcursor, List.mem_filter, decide_eq_true_eq] at ha
    exact decide_eq_true (Bytes.prefix_of_le_of_le tagged (of_decide_eq_true hPb) ha.2 hab.le)
  -- each record of the run is a live block index in its disk form under its hash
  have shape : ∀ e ∈ (db.seek (hashKey dbBlockIndex (Blob.null 32))).filter P,
      ∃ r, live r.1 = some r.2 ∧ entryOf r = e := by
    intro e he
    rw [List.mem_filter, hcursor, List.mem_filter] at he
    have hget := (Store.mem_entries_iff db e.1 e.2).mp he.1.1
    obtain ⟨hash, hkey⟩ := hrec.hashKey_of_get e.1 e.2 hget (of_decide_eq_true he.2)
    rw [hkey, hrec.get_hashKey] at hget
    obtain ⟨node, hnode, hvalue⟩ := Option.map_eq_some'.mp hget
    exact ⟨(hash, node), hnode, Prod.ext hkey.symm hvalue⟩
  obtain ⟨records, hlive, hmap⟩ := exists_map_eq_of_forall shape
  refine ⟨records, fun hash node => ⟨fun hr => hlive _ hr, fun hnode => ?_⟩, ?_, ?_⟩
  · -- every live block index is a record of the run
    have stored : entryOf (hash, node) ∈ db.entries := by
      rw [Store.mem_entries_iff, hrec.get_hashKey, hnode]
      rfl
    have run : entryOf (hash, node) ∈ (db.seek (hashKey dbBlockIndex (Blob.null 32))).filter P := by
      rw [List.mem_filter, hcursor, List.mem_filter]
      exact ⟨⟨stored, decide_eq_true (seekKey_le_hashKey hash)⟩, decide_eq_true (by simp [entryOf])⟩
    rw [← hmap] at run
    obtain ⟨⟨hash', node'⟩, hr, he⟩ := List.mem_map.mp run
    obtain ⟨-, rfl⟩ := hashKey_inj.mp (Prod.mk.inj he).1
    obtain rfl : node' = node := Option.some.inj ((hlive _ hr).symm.trans hnode)
    exact hr
  · -- the run's keys ascend strictly, so its hashes are distinct
    have keys := hmap ▸ sorted.filter P
    rw [List.pairwise_map] at keys
    show List.Pairwise (· ≠ ·) (records.map (·.1))
    rw [List.pairwise_map]
    refine keys.imp ?_
    intro a b hlt heq
    exact ne_of_lt hlt (by simp only [entryOf, heq])
  · -- the loader skips the run and stops at the next key
    have hrun : ∀ st, ∀ r ∈ records, BlockMap.NoNull st →
        loadBlockIndexStep getHash diskBlockIndex st (entryOf r)
          = (.skip, loadRecord st r.1 (.ofIndex r.2))
        ∧ (loadRecord st r.1 (.ofIndex r.2)).NoNull := by
      intro st r hr hst
      obtain ⟨hhash, hnull⟩ := hcons r.1 r.2 (hlive r hr)
      have hkey : (Codec.tagged Uint256.codec).decode (entryOf r).1
          = some ((dbBlockIndex, r.1), []) := Codec.decode_encode_self _ _
      have hval := Codec.decode_encode_self diskBlockIndex (.ofIndex r.2)
      have hgood : (CDiskBlockIndex.ofIndex r.2).getBlockHash getHash = r.1 := by simp [hhash]
      refine ⟨?_, hst.loadRecord _ _⟩
      rw [loadBlockIndexStep_record getHash diskBlockIndex hst hkey hval (hgood ▸ hnull), hgood]
    unfold loadBlockIndexGuts
    rw [split, ← hmap, scan_map_append_of_skip _ entryOf _ _ hrun BlockMap.empty_noNull, loadRecords,
      List.foldl_map]
    cases hrest : (db.seek (hashKey dbBlockIndex (Blob.null 32))).filter (fun e => !P e) with
    | nil => rfl
    | cons e rest =>
        have he : e ∈ (db.seek (hashKey dbBlockIndex (Blob.null 32))).filter (fun e => !P e) :=
          hrest ▸ List.mem_cons_self _ _
        rw [List.mem_filter] at he
        have hstop : ∀ K krest,
            (Codec.tagged Uint256.codec).decode e.1 ≠ some ((dbBlockIndex, K), krest) :=
          fun K krest hdec => by simpa [P, Codec.prefix_of_tagged_decode hdec] using he.2
        rw [scan_cons_stop _ (by rw [loadBlockIndexStep_stop getHash diskBlockIndex hstop])]
        rw [loadBlockIndexStep_stop getHash diskBlockIndex hstop]

/-- What a load should rebuild from the live block indices `live`: it returns true; each live
index is under its hash, with its fields and a pointer to the node under its predecessor's hash
(null for the null hash); that node exists; and every other hash is absent or holds a default
placeholder under the non-null predecessor hash of a live index.
-/
structure RebuildsLive (live : Uint256 → Option CBlockIndex) (r : Option Bool × BlockMap) : Prop where
  returns_true : r.1 = some true
  live_node : ∀ hash node, live hash = some node →
    r.2 hash = some (some { node with pprev := nodePointer (node.pprev.getD (Blob.null 32)) })
  pprev_node : ∀ hash node p, live hash = some node →
    nodePointer (node.pprev.getD (Blob.null 32)) = some p → ∃ pnode, r.2 p = some (some pnode)
  placeholder : ∀ hash, live hash = none →
    r.2 hash = none
    ∨ r.2 hash = some (some .default) ∧ ¬hash.isNull
      ∧ ∃ h node, live h = some node ∧ node.pprev.getD (Blob.null 32) = hash

/-- After any sequence of `WriteBatchSync` and `EraseBatchSync` calls on a store without
block-index records, each writing only block indices whose header hashes to their own non-null
hash, `LoadBlockIndexGuts` into an empty map rebuilds exactly the indices last written and not
erased since. Witness: the store's block-index records are the live indices
(`blockRecords_runWrites`), which the loader loads in key order
(`loadBlockIndexGuts_of_blockRecords`).
-/
theorem loadBlockIndexGuts_runWrites (db₀ : Store)
    (hfresh : ∀ e ∈ db₀.entries, ¬[dbBlockIndex] <+: e.1)
    (calls : List (BlockIndexWrite CBlockFileInfo))
    (hwritten : ∀ call ∈ calls, ∀ b ∈ call.written,
      getHash b.2.getBlockHeader = b.1 ∧ ¬b.1.isNull)
    : RebuildsLive (liveIndices calls)
        (loadBlockIndexGuts getHash diskBlockIndex (runWrites int info diskBlockIndex db₀ calls)
          .empty) := by
  obtain ⟨hrec, hcons⟩ := blockRecords_runWrites getHash int info diskBlockIndex hfresh hwritten
  obtain ⟨records, hmem, hnodup, hload⟩ :=
    loadBlockIndexGuts_of_blockRecords getHash diskBlockIndex hrec hcons
  rw [hload]
  set loaded := records.map fun r => (r.1, CDiskBlockIndex.ofIndex r.2)
  have hashes : loaded.map (·.1) = records.map (·.1) := by simp [loaded]
  have built : ∀ hash node, liveIndices calls hash = some node →
      loadRecords .empty loaded hash
        = some (some { node with pprev := nodePointer (node.pprev.getD (Blob.null 32)) }) := by
    intro hash node hnode
    simpa using loadRecords_apply_of_mem BlockMap.empty (hashes ▸ hnodup)
      (List.mem_map_of_mem (fun r => (r.1, CDiskBlockIndex.ofIndex r.2)) ((hmem hash node).mpr hnode))
  have placeholder : ∀ hash, liveIndices calls hash = none →
      loadRecords .empty loaded hash
        = if ¬hash.isNull ∧ ∃ d ∈ loaded, d.2.hashPrev = hash then some (some .default)
          else none := by
    intro hash hnone
    have absent : hash ∉ loaded.map (·.1) := by
      rw [hashes]
      intro hmem'
      obtain ⟨⟨h, node⟩, hrec', rfl⟩ := List.mem_map.mp hmem'
      exact Option.noConfusion (hnone.symm.trans ((hmem h node).mp hrec'))
    simp only [loadRecords_apply_of_not_mem _ absent, BlockMap.empty, true_and]
  have prev : ∀ hash, (∃ d ∈ loaded, d.2.hashPrev = hash)
      ↔ ∃ h node, liveIndices calls h = some node ∧ node.pprev.getD (Blob.null 32) = hash := by
    intro hash
    constructor
    · rintro ⟨d, hd, rfl⟩
      obtain ⟨⟨h, node⟩, hr, rfl⟩ := List.mem_map.mp hd
      exact ⟨h, node, (hmem h node).mp hr, rfl⟩
    · rintro ⟨h, node, hnode, rfl⟩
      exact ⟨(h, .ofIndex node), List.mem_map_of_mem _ ((hmem h node).mpr hnode), rfl⟩
  refine ⟨rfl, built, fun hash node p hnode hp => ?_, fun hash hnone => ?_⟩
  · obtain ⟨hnull, rfl⟩ := nodePointer_eq_some.mp hp
    cases hprev : liveIndices calls (node.pprev.getD (Blob.null 32)) with
    | some pnode => exact ⟨_, built _ _ hprev⟩
    | none =>
        exact ⟨.default, (placeholder _ hprev).trans
          (if_pos ⟨hnull, (prev _).mpr ⟨hash, node, hnode, rfl⟩⟩)⟩
  · dsimp only
    rw [placeholder hash hnone]
    split
    · next hcond => exact .inr ⟨rfl, hcond.1, (prev hash).mp hcond.2⟩
    · exact .inl rfl

end Writes

/-- The genesis block of the example history: no predecessor, hash the blob of `1` bytes. -/
def genesisIndex : CBlockIndex := { CBlockIndex.default with nNonce := Blob.fill 32 1 }

/-- Its successor at height 1, hash the blob of `2` bytes. -/
def childIndex : CBlockIndex :=
  { CBlockIndex.default with pprev := some (Blob.fill 32 1), nHeight := 1, nNonce := Blob.fill 32 2 }

/-- A history that writes both blocks in one batch, then erases the genesis block. -/
def exampleWrites : List (BlockIndexWrite Unit) :=
  [.writeBatchSync [] 1 [(Blob.fill 32 1, genesisIndex), (Blob.fill 32 2, childIndex)] true,
    .eraseBatchSync [(Blob.fill 32 1, genesisIndex)] true]

/-- The example history meets the hypotheses of `loadBlockIndexGuts_runWrites`: the load rebuilds
the child, with a placeholder for its erased parent.
-/
theorem loadBlockIndexGuts_runWrites_exampleWrites
    : (∀ e ∈ Store.empty.entries, ¬[dbBlockIndex] <+: e.1)
      ∧ (∀ call ∈ exampleWrites, ∀ b ∈ call.written,
          Reference.headerHash b.2.getBlockHeader = b.1 ∧ ¬b.1.isNull)
      ∧ RebuildsLive (liveIndices exampleWrites)
          (loadBlockIndexGuts Reference.headerHash Reference.diskBlockIndex
            (runWrites Reference.int Reference.unit Reference.diskBlockIndex Store.empty exampleWrites)
            .empty) := by
  have hfresh : ∀ e ∈ Store.empty.entries, ¬[dbBlockIndex] <+: e.1 := fun _ he => absurd he (List.not_mem_nil _)
  have hwritten : ∀ call ∈ exampleWrites, ∀ b ∈ call.written,
      Reference.headerHash b.2.getBlockHeader = b.1 ∧ ¬b.1.isNull := by decide
  exact ⟨hfresh, hwritten, loadBlockIndexGuts_runWrites _ _ _ _ _ hfresh _ hwritten⟩

end Txdb
