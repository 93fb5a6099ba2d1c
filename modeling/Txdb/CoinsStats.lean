import Txdb.CoinsFlush
import Txdb.Reference
import Txdb.Scan

/-! `CCoinsViewDB::GetStats`: the scan over the coin records that counts them, sums their unspent
outputs and writes a serialization of them to a hash writer. Over a chainstate whose coin keys are
well formed it passes over exactly the coin records, in ascending txid order, and stops at the
first record of another kind. The stream it hashes holds the best block's hash and, for each
record, its unspent outputs with their positions, but not the record's txid.
-/

namespace Txdb

-----------------------------------------------------------------------------------------
-- CAmount and CCoinsStats
-----------------------------------------------------------------------------------------

/-- `nTotalAmount += out.nValue` on `CAmount`, an `int64_t`: the sum, or `none` when it leaves the
type's range, which is signed overflow and undefined behaviour.
-/
def CAmount.add (a b : Int) : Option Int :=
  if -2 ^ 63 ≤ a + b ∧ a + b < 2 ^ 63 then some (a + b) else none

theorem CAmount.add_of_nonneg {a b : Int} (ha : 0 ≤ a) (hb : 0 ≤ b) (hfit : a + b < 2 ^ 63)
    : CAmount.add a b = some (a + b) :=
  if_pos ⟨by omega, hfit⟩

theorem CAmount.eq_of_add {a b c : Int} (h : CAmount.add a b = some c) : c = a + b := by
  unfold CAmount.add at h
  split_ifs at h
  exact (Option.some.inj h).symm

/-- Modelled from the spec: `CCoinsStats` (coins.h), what `GetStats` reports. -/
structure CCoinsStats where
  nHeight : Int
  hashBlock : Uint256
  nTransactions : Nat
  nTransactionOutputs : Nat
  nSerializedSize : Nat
  hashSerialized : Uint256
  nTotalAmount : Int
  deriving DecidableEq

/-- A default-constructed `CCoinsStats`: counts and total zero, hashes null. -/
def CCoinsStats.zero : CCoinsStats :=
  ⟨0, Blob.null 32, 0, 0, 0, Blob.null 32, 0⟩

-----------------------------------------------------------------------------------------
-- What one coin record contributes
-----------------------------------------------------------------------------------------

/-- The outputs of `vout` from position `i` on that are not null, with their positions. -/
def unspentFrom (i : Nat) (vout : List CTxOut) : List (Nat × CTxOut) :=
  (vout.enumFrom i).filter fun p => !p.2.isNull

/-- The unspent outputs of a coin record, with their positions. -/
def unspentOutputs (coins : CCoins) : List (Nat × CTxOut) := unspentFrom 0 coins.vout

/-- The sum of the values of some outputs. -/
def amountOf (outputs : List (Nat × CTxOut)) : Int := (outputs.map fun p => p.2.nValue).sum

@[simp] theorem unspentFrom_nil (i : Nat) : unspentFrom i [] = [] := rfl

@[simp] theorem unspentFrom_cons (i : Nat) (out : CTxOut) (vout : List CTxOut)
    : unspentFrom i (out :: vout)
      = if out.isNull then unspentFrom (i + 1) vout else (i, out) :: unspentFrom (i + 1) vout := by
  cases h : out.isNull <;> simp [unspentFrom, List.enumFrom_cons, h]

@[simp] theorem amountOf_nil : amountOf [] = 0 := rfl

@[simp] theorem amountOf_cons (p : Nat × CTxOut) (outputs : List (Nat × CTxOut))
    : amountOf (p :: outputs) = p.2.nValue + amountOf outputs := List.sum_cons

theorem amountOf_nonneg {outputs : List (Nat × CTxOut)} (h : ∀ p ∈ outputs, 0 ≤ p.2.nValue)
    : 0 ≤ amountOf outputs := by
  induction outputs with
  | nil => rfl
  | cons p outputs ih =>
      rw [amountOf_cons]
      have := h p (List.mem_cons_self _ _)
      have := ih fun q hq => h q (List.mem_cons_of_mem _ hq)
      omega

/-- The sum of the amounts of records whose unspent values are all non-negative is non-negative. -/
theorem amountsOf_nonneg {α : Type} {records : List (α × CCoins)}
    (h : ∀ r ∈ records, ∀ p ∈ unspentOutputs r.2, 0 ≤ p.2.nValue)
    : 0 ≤ (records.map fun r => amountOf (unspentOutputs r.2)).sum := by
  induction records with
  | nil => rfl
  | cons r records ih =>
      rw [List.map_cons, List.sum_cons]
      have := amountOf_nonneg (h r (List.mem_cons_self _ _))
      have := ih fun r' hr' => h r' (List.mem_cons_of_mem _ hr')
      omega

section Stats

variable {SproutTree SaplingTree : Type} (fmt : CoinsFormat SproutTree SaplingTree)

/-- The stream written for some outputs: `VARINT(i+1)` and the output, for each at position `i`. -/
def outputsStream (outputs : List (Nat × CTxOut)) : Bytes :=
  outputs.flatMap fun p => fmt.varInt.encode (p.1 + 1) ++ fmt.txOut.encode p.2

/-- The stream written for a coin record with these unspent outputs: theirs, then `VARINT(0)`. -/
def recordStream (outputs : List (Nat × CTxOut)) : Bytes :=
  outputsStream fmt outputs ++ fmt.varInt.encode 0

@[simp] theorem outputsStream_nil : outputsStream fmt [] = [] := rfl

@[simp] theorem outputsStream_cons (p : Nat × CTxOut) (outputs : List (Nat × CTxOut))
    : outputsStream fmt (p :: outputs)
      = fmt.varInt.encode (p.1 + 1) ++ fmt.txOut.encode p.2 ++ outputsStream fmt outputs :=
  List.flatMap_cons _ _ _

/-- The loop over a coin record's outputs from position `i` on, with the output count, the hash
stream and `nTotalAmount`: an output that is not null is counted, written as `VARINT(i+1)` and the
output, and added to the total; `none` when the addition overflows.
-/
def statsOutputs : Nat → List CTxOut → Nat × Bytes × Int → Option (Nat × Bytes × Int)
  | _, [], acc => some acc
  | i, out :: vout, (n, ss, total) =>
      if out.isNull then statsOutputs (i + 1) vout (n, ss, total)
      else (CAmount.add total out.nValue).bind fun total =>
        statsOutputs (i + 1) vout
          (n + 1, ss ++ fmt.varInt.encode (i + 1) ++ fmt.txOut.encode out, total)

/-- When the loop over a record's outputs completes, it has counted, written and added exactly the
unspent ones. Witness: induction on the outputs.
-/
theorem statsOutputs_eq_some {i : Nat} {vout : List CTxOut} {n : Nat} {ss : Bytes} {total : Int}
    {r : Nat × Bytes × Int} (h : statsOutputs fmt i vout (n, ss, total) = some r)
    : r = (n + (unspentFrom i vout).length, ss ++ outputsStream fmt (unspentFrom i vout),
        total + amountOf (unspentFrom i vout)) := by
  induction vout generalizing i n ss total with
  | nil => simpa [statsOutputs, eq_comm] using h
  | cons out vout ih =>
      by_cases hnull : out.isNull
      · simp only [statsOutputs, hnull, if_true] at h
        rw [ih h, unspentFrom_cons, if_pos hnull]
      · simp only [statsOutputs, hnull, Bool.false_eq_true, if_false, Option.bind_eq_some] at h
        obtain ⟨total', hadd, h⟩ := h
        rw [ih h, unspentFrom_cons, if_neg hnull, CAmount.eq_of_add hadd]
        simp only [List.length_cons, outputsStream_cons, amountOf_cons, List.append_assoc,
          Int.add_assoc, Prod.mk.injEq, and_true]
        omega

/-- With the total and every unspent value non-negative, and their sum below `2^63`, the loop over a
record's outputs completes. Witness: induction on the outputs; every partial sum lies between the
total and the full sum.
-/
theorem statsOutputs_isSome {i : Nat} {vout : List CTxOut} {n : Nat} {ss : Bytes} {total : Int}
    (h0 : 0 ≤ total) (hvalues : ∀ p ∈ unspentFrom i vout, 0 ≤ p.2.nValue)
    (hfit : total + amountOf (unspentFrom i vout) < 2 ^ 63)
    : (statsOutputs fmt i vout (n, ss, total)).isSome := by
  induction vout generalizing i n ss total with
  | nil => rfl
  | cons out vout ih =>
      by_cases hnull : out.isNull
      · rw [unspentFrom_cons, if_pos hnull] at hvalues hfit
        simp only [statsOutputs, hnull, if_true]
        exact ih h0 hvalues hfit
      · rw [unspentFrom_cons, if_neg hnull] at hvalues hfit
        have hout : 0 ≤ out.nValue := hvalues _ (List.mem_cons_self _ _)
        have later := fun p hp => hvalues p (List.mem_cons_of_mem _ hp)
        have rest := amountOf_nonneg later
        simp only [amountOf_cons] at hfit
        simp only [statsOutputs, hnull, Bool.false_eq_true, if_false,
          CAmount.add_of_nonneg h0 hout (by omega), Option.some_bind]
        exact ih (by omega) later (by omega)

-----------------------------------------------------------------------------------------
-- The loop
-----------------------------------------------------------------------------------------

/-- The state `GetStats` threads through its loop: the stats it increments, the stream written to
its `CHashWriter`, and the running `nTotalAmount`.
-/
structure StatsLoop where
  stats : CCoinsStats
  ss : Bytes
  nTotalAmount : Int
  deriving DecidableEq

/-- One iteration of the loop of `CCoinsViewDB::GetStats`. A record whose key does not read as a
`DB_COINS` key ends the loop; a coin record whose value does not decode is an error; otherwise the
record is counted, its outputs are passed over, its size is added, and `VARINT(0)` ends its part of
the stream.
-/
def getStatsStep (st : StatsLoop) (e : Entry) : ScanStep Empty × StatsLoop :=
  match (Codec.tagged Uint256.codec).decode e.1 with
  | some ((chType, _), _) =>
      if chType = dbCoins then
        match fmt.coins.decode e.2 with
        | some (coins, _) =>
            match statsOutputs fmt 0 coins.vout
                (st.stats.nTransactionOutputs, st.ss, st.nTotalAmount) with
            | some (nTransactionOutputs, ss, nTotalAmount) =>
                (.skip,
                  { stats :=
                      { st.stats with
                        nTransactions := st.stats.nTransactions + 1
                        nTransactionOutputs := nTransactionOutputs
                        nSerializedSize := st.stats.nSerializedSize + (32 + e.2.length) }
                    ss := ss ++ fmt.varInt.encode 0
                    nTotalAmount := nTotalAmount })
            | none => (.abort, st)
        | none => (.fail, st)
      else (.stop, st)
  | none => (.stop, st)

/-- The loop of `GetStats`, from `Seek(DB_COINS)`, with `hashBlock` set to the best block and the
stream holding its hash.
-/
def getStatsLoop (db : Store) (stats : CCoinsStats) : Option Bool × List Empty × StatsLoop :=
  let hashBlock := getBestBlock db
  scan (getStatsStep fmt) ⟨{ stats with hashBlock }, Uint256.codec.encode hashBlock, 0⟩
    (db.seek (slotKey dbCoins))

/-- `CCoinsViewDB::GetStats`. After the loop, `mapBlockIndex.find(hashBlock)->second->nHeight`
reads the best block's node, which is undefined behaviour unless the map holds one; `hashWriter`
is `CHashWriter::GetHash` on the stream written.
-/
def getStats (hashWriter : Bytes → Uint256) (db : Store) (mapBlockIndex : BlockMap)
    (stats : CCoinsStats)
    : Option Bool × CCoinsStats :=
  let r := getStatsLoop fmt db stats
  match r.1 with
  | some true =>
      match mapBlockIndex r.2.2.stats.hashBlock with
      | some (some node) =>
          (some true,
            { r.2.2.stats with
              nHeight := node.nHeight
              hashSerialized := hashWriter r.2.2.ss
              nTotalAmount := r.2.2.nTotalAmount })
      | some none => (none, r.2.2.stats)
      | none => (none, r.2.2.stats)
  | some false => (some false, r.2.2.stats)
  | none => (none, r.2.2.stats)

-----------------------------------------------------------------------------------------
-- What GetStats reports
-----------------------------------------------------------------------------------------

/-- The records of a store whose keys start with `DB_COINS`, in key order. -/
def coinEntries (db : Store) : List Entry := db.entries.filter fun e => [dbCoins] <+: e.1

/-- The coin records of a store whose values decode, with their coins, in key order. -/
def coinRecords (db : Store) : List (Entry × CCoins) :=
  (coinEntries db).filterMap fun e => (fmt.coins.decode e.2).map fun p => (e, p.1)

/-- Every key of the store that starts with `DB_COINS` is a coin key, the tag and a txid, as
`BatchWrite` writes them.
-/
def CoinKeys (db : Store) : Prop := ∀ e ∈ coinEntries db, ∃ txid, e.1 = hashKey dbCoins txid

/-- The stream the spec describes: the best block's hash, then each coin record's unspent outputs
and its terminator.
-/
def statsStream (db : Store) : Bytes :=
  Uint256.codec.encode (getBestBlock db)
    ++ (coinRecords fmt db).flatMap fun r => recordStream fmt (unspentOutputs r.2)

/-- The stats the spec describes for a store whose best block is at height `nHeight`. -/
def coinsStatsOf (hashWriter : Bytes → Uint256) (db : Store) (nHeight : Int) : CCoinsStats where
  nHeight := nHeight
  hashBlock := getBestBlock db
  nTransactions := (coinRecords fmt db).length
  nTransactionOutputs := ((coinRecords fmt db).map fun r => (unspentOutputs r.2).length).sum
  nSerializedSize := ((coinRecords fmt db).map fun r => 32 + r.1.2.length).sum
  hashSerialized := hashWriter (statsStream fmt db)
  nTotalAmount := ((coinRecords fmt db).map fun r => amountOf (unspentOutputs r.2)).sum

/-- A key of 33 bytes that starts with `DB_COINS` is a coin key. -/
theorem coinKeys_of_length {db : Store} (h : ∀ e ∈ coinEntries db, e.1.length = 33)
    : CoinKeys db := by
  intro e he
  obtain ⟨txid, hkey⟩ := of_decide_eq_true (List.mem_filter.mp he).2
  have hlen := h e he
  rw [← hkey, List.length_append, List.length_singleton] at hlen
  exact ⟨⟨txid, by omega⟩, hkey.symm⟩

theorem coinKeys_empty : CoinKeys Store.empty := fun _ he => by
  simp [coinEntries, Store.empty] at he

/-- `BatchWrite` keeps the coin keys well formed. A record after a committed batch was there before
or lies under a key the flush touches (`get_applyBatch_eq_some`, `mem_flushOps_touches`), and the
only keys a flush touches that start with `DB_COINS` are coin keys.
-/
theorem coinKeys_batchWrite {db : Store} (hdb : CoinKeys db)
    (mapCoins : CacheMap CCoinsCacheEntry) (hashBlock hashSproutAnchor hashSaplingAnchor : Uint256)
    (mapSproutAnchors : CacheMap (CAnchorsCacheEntry SproutTree))
    (mapSaplingAnchors : CacheMap (CAnchorsCacheEntry SaplingTree))
    (mapSproutNullifiers mapSaplingNullifiers : CacheMap CNullifiersCacheEntry) (committed : Bool)
    : CoinKeys (batchWrite fmt db mapCoins hashBlock hashSproutAnchor hashSaplingAnchor
        mapSproutAnchors mapSaplingAnchors mapSproutNullifiers mapSaplingNullifiers committed).db := by
  rintro ⟨key, value⟩ he
  obtain ⟨hmem, htag⟩ := List.mem_filter.mp he
  have htag : [dbCoins] <+: key := of_decide_eq_true htag
  have old : (key, value) ∈ db.entries → ∃ txid, key = hashKey dbCoins txid := fun h =>
    hdb _ (List.mem_filter.mpr ⟨h, decide_eq_true htag⟩)
  have hcommit := congrArg Prod.snd (batchWrite_commit fmt db mapCoins hashBlock hashSproutAnchor
    hashSaplingAnchor mapSproutAnchors mapSaplingAnchors mapSproutNullifiers mapSaplingNullifiers
    committed)
  simp only at hcommit
  rw [hcommit, Store.writeBatch] at hmem
  split_ifs at hmem
  · rw [Store.mem_entries_iff] at hmem
    rcases Store.get_applyBatch_eq_some hmem with before | ⟨op, hop, hkey⟩
    · exact old ((Store.mem_entries_iff db key value).mpr before)
    · have touches := mem_flushOps_touches fmt _ _ _ _ _ _ _ _ hop
      rw [hkey] at touches
      rcases touches with ⟨c, -, -, rfl⟩ | ⟨c, -, -, rfl⟩ | ⟨c, -, -, rfl⟩ | ⟨c, -, -, rfl⟩ |
        ⟨c, -, -, rfl⟩ | ⟨-, rfl⟩ | ⟨-, rfl⟩ | ⟨-, rfl⟩
      · exact ⟨c.1, rfl⟩
      all_goals
        simp only [hashKey_eq, slotKey_eq, List.cons_prefix_cons, List.nil_prefix, and_true] at htag
        exact absurd htag (by decide)
  · exact old hmem

theorem mem_coinRecords {db : Store} {r : Entry × CCoins} (h : r ∈ coinRecords fmt db)
    : r.1 ∈ coinEntries db ∧ ∃ rest, fmt.coins.decode r.1.2 = some (r.2, rest) := by
  obtain ⟨e, he, hr⟩ := List.mem_filterMap.mp h
  obtain ⟨⟨coins, rest⟩, hdecode, rfl⟩ := Option.map_eq_some'.mp hr
  exact ⟨he, rest, hdecode⟩

/-- When every coin record decodes, the decoded records are all the coin records. -/
theorem coinRecords_map_fst {db : Store} (h : ∀ e ∈ coinEntries db, (fmt.coins.decode e.2).isSome)
    : (coinRecords fmt db).map Prod.fst = coinEntries db := by
  rw [coinRecords, List.map_filterMap]
  conv_rhs => rw [← List.filterMap_some (coinEntries db)]
  refine List.filterMap_congr fun e he => ?_
  obtain ⟨p, hp⟩ := Option.isSome_iff_exists.mp (h e he)
  simp [hp]

/-- `Seek(DB_COINS)` reaches the records whose keys start with `DB_COINS`, all of them and in key
order, followed by records whose keys do not.
-/
theorem seek_coins (db : Store)
    : ∃ rest, db.seek (slotKey dbCoins) = coinEntries db ++ rest
      ∧ ∀ e ∈ rest.head?, ¬[dbCoins] <+: e.1 :=
  Store.seek_prefix db [dbCoins]

-----------------------------------------------------------------------------------------
-- One step
-----------------------------------------------------------------------------------------

/-- What a coin record adds to the loop's state when its outputs do not overflow the total. -/
def StatsLoop.addRecord (st : StatsLoop) (r : Entry × CCoins) : StatsLoop where
  stats :=
    { st.stats with
      nTransactions := st.stats.nTransactions + 1
      nTransactionOutputs := st.stats.nTransactionOutputs + (unspentOutputs r.2).length
      nSerializedSize := st.stats.nSerializedSize + (32 + r.1.2.length) }
  ss := st.ss ++ recordStream fmt (unspentOutputs r.2)
  nTotalAmount := st.nTotalAmount + amountOf (unspentOutputs r.2)

/-- What a record under a coin key adds: that of its decoded record, or nothing when its value does
not decode.
-/
def StatsLoop.addEntry (st : StatsLoop) (e : Entry) : StatsLoop :=
  match fmt.coins.decode e.2 with
  | some (coins, _) => st.addRecord fmt (e, coins)
  | none => st

/-- A record whose key does not start with `DB_COINS` ends the loop. -/
theorem getStatsStep_stop {e : Entry} (he : ¬[dbCoins] <+: e.1) (st : StatsLoop)
    : getStatsStep fmt st e = (.stop, st) := by
  unfold getStatsStep
  split
  · rename_i chType _ _ hkey
    rw [if_neg (show chType ≠ dbCoins from fun h => he (h ▸ Codec.prefix_of_tagged_decode hkey))]
  · rfl

/-- A coin record is counted, passed over and written, as `addRecord` says, when its value decodes
and its unspent values, non-negative, do not take the total to `2^63`.
-/
theorem getStatsStep_record {st : StatsLoop} (txid : Uint256) {value : Bytes} {coins : CCoins}
    {rest : Bytes} (hvalue : fmt.coins.decode value = some (coins, rest))
    (h0 : 0 ≤ st.nTotalAmount) (hvalues : ∀ p ∈ unspentOutputs coins, 0 ≤ p.2.nValue)
    (hfit : st.nTotalAmount + amountOf (unspentOutputs coins) < 2 ^ 63)
    : getStatsStep fmt st (hashKey dbCoins txid, value)
      = (.skip, st.addRecord fmt ((hashKey dbCoins txid, value), coins)) := by
  have completes : (statsOutputs fmt 0 coins.vout
      (st.stats.nTransactionOutputs, st.ss, st.nTotalAmount)).isSome :=
    statsOutputs_isSome fmt h0 hvalues hfit
  obtain ⟨r, hr⟩ := Option.isSome_iff_exists.mp completes
  have hr' := statsOutputs_eq_some fmt hr
  subst hr'
  simp only [getStatsStep, hashKey, Codec.decode_encode_self, if_true, hvalue, hr]
  simp [StatsLoop.addRecord, recordStream, unspentOutputs, List.append_assoc]

/-- A record under a coin key is passed over as `addEntry` says, or ends the function with an error
or undefined behaviour.
-/
theorem getStatsStep_coin (st : StatsLoop) (txid : Uint256) (value : Bytes)
    : getStatsStep fmt st (hashKey dbCoins txid, value)
        = (.skip, st.addEntry fmt (hashKey dbCoins txid, value))
      ∨ (getStatsStep fmt st (hashKey dbCoins txid, value)).1.isOk = false := by
  simp only [getStatsStep, hashKey, Codec.decode_encode_self, if_true, StatsLoop.addEntry]
  cases hv : fmt.coins.decode value with
  | none => exact .inr rfl
  | some p =>
      obtain ⟨coins, rest⟩ := p
      dsimp only
      cases ho : statsOutputs fmt 0 coins.vout (st.stats.nTransactionOutputs, st.ss, st.nTotalAmount)
        with
      | none => exact .inr rfl
      | some r =>
          left
          have hr := statsOutputs_eq_some fmt ho
          subst hr
          simp [StatsLoop.addRecord, recordStream, unspentOutputs, List.append_assoc]

/-- A record the loop passes over has a value that decodes. -/
theorem getStatsStep_skip_decodes {st : StatsLoop} {e : Entry} {st' : StatsLoop}
    (h : getStatsStep fmt st e = (.skip, st'))
    : (fmt.coins.decode e.2).isSome := by
  unfold getStatsStep at h
  split at h
  · split_ifs at h
    · split at h
      · rename_i hv
        simp [hv]
      · cases h
    · cases h
  · cases h

-----------------------------------------------------------------------------------------
-- The run
-----------------------------------------------------------------------------------------

/-- Folding the records' updates counts the records, their unspent outputs and their sizes, and
writes and adds their parts in order. Witness: induction on the records.
-/
theorem foldl_addRecord (records : List (Entry × CCoins)) (st : StatsLoop)
    : records.foldl (StatsLoop.addRecord fmt) st
      = { stats :=
            { st.stats with
              nTransactions := st.stats.nTransactions + records.length
              nTransactionOutputs := st.stats.nTransactionOutputs
                + (records.map fun r => (unspentOutputs r.2).length).sum
              nSerializedSize := st.stats.nSerializedSize
                + (records.map fun r => 32 + r.1.2.length).sum }
          ss := st.ss ++ records.flatMap fun r => recordStream fmt (unspentOutputs r.2)
          nTotalAmount := st.nTotalAmount
            + (records.map fun r => amountOf (unspentOutputs r.2)).sum } := by
  induction records generalizing st with
  | nil => simp
  | cons r records ih =>
      rw [List.foldl_cons, ih]
      simp [StatsLoop.addRecord, List.append_assoc, Int.add_assoc, Nat.add_assoc, Nat.add_comm 1]

/-- Folding `addEntry` over records folds `addRecord` over those that decode. -/
theorem foldl_addEntry (entries : List Entry) (st : StatsLoop)
    : entries.foldl (StatsLoop.addEntry fmt) st
      = (entries.filterMap fun e => (fmt.coins.decode e.2).map fun p => (e, p.1)).foldl
          (StatsLoop.addRecord fmt) st := by
  induction entries generalizing st with
  | nil => rfl
  | cons e entries ih =>
      cases hv : fmt.coins.decode e.2 with
      | none => simp [StatsLoop.addEntry, hv, ih]
      | some p => simp [StatsLoop.addEntry, hv, ih]

/-- Over coin records with well-formed keys and decoding values, whose unspent values are
non-negative and, with the total so far, sum below `2^63`, the loop passes over the records with
their updates. Witness: induction on the records; each record's part of the sum leaves room for
the rest.
-/
theorem scan_coinRecords {records : List (Entry × CCoins)}
    (hrecords : ∀ r ∈ records,
      (∃ txid, r.1.1 = hashKey dbCoins txid) ∧ ∃ rest, fmt.coins.decode r.1.2 = some (r.2, rest))
    (hvalues : ∀ r ∈ records, ∀ p ∈ unspentOutputs r.2, 0 ≤ p.2.nValue)
    {st : StatsLoop} (h0 : 0 ≤ st.nTotalAmount)
    (hfit : st.nTotalAmount + (records.map fun r => amountOf (unspentOutputs r.2)).sum < 2 ^ 63)
    (rest : List Entry)
    : scan (getStatsStep fmt) st (records.map Prod.fst ++ rest)
      = scan (getStatsStep fmt) (records.foldl (StatsLoop.addRecord fmt) st) rest := by
  induction records generalizing st with
  | nil => rfl
  | cons r records ih =>
      have hrecords' := fun r' hr' => hrecords r' (List.mem_cons_of_mem r hr')
      have hvalues' := fun r' hr' => hvalues r' (List.mem_cons_of_mem r hr')
      have later : 0 ≤ (records.map fun r => amountOf (unspentOutputs r.2)).sum :=
        amountsOf_nonneg hvalues'
      have here := amountOf_nonneg (hvalues r (List.mem_cons_self _ _))
      obtain ⟨⟨txid, hkey⟩, value_rest, hvalue⟩ := hrecords r (List.mem_cons_self _ _)
      obtain ⟨⟨key, value⟩, coins⟩ := r
      simp only [List.map_cons, List.sum_cons] at hkey hvalue hfit here
      subst hkey
      have step := getStatsStep_record fmt txid hvalue h0 (hvalues _ (List.mem_cons_self _ _))
        (by omega)
      rw [List.map_cons, List.cons_append, scan_cons_skip _ (by rw [step]), step, List.foldl_cons]
      exact ih hrecords' hvalues' (by simp only [StatsLoop.addRecord]; omega)
        (by simp only [StatsLoop.addRecord]; omega)

/-- Take any chainstate whose coin keys are well formed, whose coin records all decode, whose
unspent values are non-negative and sum below `2^63`, and whose best block has a node. From zeroed
stats, `GetStats` returns true with the stats the spec describes: it visits the coin records once
each, in key order, and no other record. Witness: the cursor is the coin records followed by a
record that stops the loop (`seek_coins`); the loop over them is the fold of their updates
(`scan_coinRecords`, `foldl_addRecord`).
-/
theorem getStats_eq_coinsStatsOf (hashWriter : Bytes → Uint256) {db : Store}
    {mapBlockIndex : BlockMap} {node : CBlockIndex} (hkeys : CoinKeys db)
    (hdecode : ∀ e ∈ coinEntries db, (fmt.coins.decode e.2).isSome)
    (hvalues : ∀ r ∈ coinRecords fmt db, ∀ p ∈ unspentOutputs r.2, 0 ≤ p.2.nValue)
    (htotal : ((coinRecords fmt db).map fun r => amountOf (unspentOutputs r.2)).sum < 2 ^ 63)
    (hnode : mapBlockIndex (getBestBlock db) = some (some node))
    : getStats fmt hashWriter db mapBlockIndex .zero
      = (some true, coinsStatsOf fmt hashWriter db node.nHeight) := by
  obtain ⟨rest, hseek, hrest⟩ := seek_coins db
  have hrecords : ∀ r ∈ coinRecords fmt db,
      (∃ txid, r.1.1 = hashKey dbCoins txid) ∧ ∃ rest, fmt.coins.decode r.1.2 = some (r.2, rest) :=
    fun r hr => ⟨hkeys _ (mem_coinRecords fmt hr).1, (mem_coinRecords fmt hr).2⟩
  simp only [getStats, getStatsLoop]
  rw [hseek, ← coinRecords_map_fst fmt hdecode,
    scan_coinRecords fmt hrecords hvalues (le_refl 0) (by simpa using htotal) rest,
    scan_of_stop _ fun e he => getStatsStep_stop fmt (hrest e he) _, foldl_addRecord]
  simp [hnode, coinsStatsOf, statsStream, CCoinsStats.zero]

-----------------------------------------------------------------------------------------
-- What the stream determines
-----------------------------------------------------------------------------------------

/-- A record's part of the stream is never empty: it ends with `VARINT(0)`. -/
theorem recordStream_ne_nil (outputs : List (Nat × CTxOut)) : recordStream fmt outputs ≠ [] := by
  simp [recordStream, fmt.varInt.encode_ne_nil (a := 0) (b := 1) (by decide)]

/-- A record's part of the stream is prefix-free: followed by anything, it determines the record's
unspent outputs and what follows. Witness: induction on the outputs; `VARINT(0)` ends a record,
and an output's `VARINT(i+1)` never reads as `VARINT(0)`.
-/
theorem recordStream_append_inj {a b : List (Nat × CTxOut)} {x y : Bytes}
    (h : recordStream fmt a ++ x = recordStream fmt b ++ y)
    : a = b ∧ x = y := by
  induction a generalizing b with
  | nil =>
      cases b with
      | nil => exact ⟨rfl, List.append_cancel_left h⟩
      | cons q b =>
          simp only [recordStream, outputsStream_nil, outputsStream_cons, List.nil_append,
            List.append_assoc] at h
          exact absurd (fmt.varInt.encode_append_inj h).1 (by omega)
  | cons p a ih =>
      cases b with
      | nil =>
          simp only [recordStream, outputsStream_nil, outputsStream_cons, List.nil_append,
            List.append_assoc] at h
          exact absurd (fmt.varInt.encode_append_inj h).1 (by omega)
      | cons q b =>
          simp only [recordStream, outputsStream_cons, List.append_assoc] at h
          obtain ⟨position, h⟩ := fmt.varInt.encode_append_inj h
          obtain ⟨output, h⟩ := fmt.txOut.encode_append_inj h
          obtain ⟨rfl, rest⟩ := ih (by simpa only [recordStream, List.append_assoc] using h)
          exact ⟨by rw [Prod.ext (by omega) output], rest⟩

/-- The records' parts of the stream determine each record's unspent outputs, in order. Witness:
induction on the records, each part being prefix-free and never empty.
-/
theorem recordsStream_inj {as bs : List (List (Nat × CTxOut))}
    (h : as.flatMap (recordStream fmt) = bs.flatMap (recordStream fmt))
    : as = bs := by
  induction as generalizing bs with
  | nil =>
      cases bs with
      | nil => rfl
      | cons b bs =>
          rw [List.flatMap_nil, List.flatMap_cons] at h
          exact absurd (List.append_eq_nil.mp h.symm).1 (recordStream_ne_nil fmt b)
  | cons a as ih =>
      cases bs with
      | nil =>
          rw [List.flatMap_nil, List.flatMap_cons] at h
          exact absurd (List.append_eq_nil.mp h).1 (recordStream_ne_nil fmt a)
      | cons b bs =>
          rw [List.flatMap_cons, List.flatMap_cons] at h
          obtain ⟨rfl, rest⟩ := recordStream_append_inj fmt h
          rw [ih rest]

/-- `GetStats` returns true only when its loop does. -/
theorem getStatsLoop_eq_true {hashWriter : Bytes → Uint256} {db : Store} {mapBlockIndex : BlockMap}
    {stats : CCoinsStats} (h : (getStats fmt hashWriter db mapBlockIndex stats).1 = some true)
    : (getStatsLoop fmt db stats).1 = some true := by
  simp only [getStats] at h
  split at h
  · assumption
  · cases h
  · cases h

/-- Over a chainstate whose coin keys are well formed, a loop that returns true has passed over
every coin record, each of which decodes, and has written the stream the spec describes. Witness:
every coin record is skipped or ends the function (`getStatsStep_coin`), so a loop that returns
true skipped them all (`scan_append_of_eq_true`).
-/
theorem getStatsLoop_of_eq_true {db : Store} (hkeys : CoinKeys db) {stats : CCoinsStats}
    (h : (getStatsLoop fmt db stats).1 = some true)
    : (coinRecords fmt db).map Prod.fst = coinEntries db
      ∧ (getStatsLoop fmt db stats).2.2.ss = statsStream fmt db := by
  obtain ⟨rest, hseek, hrest⟩ := seek_coins db
  have hrun : ∀ st, ∀ e ∈ coinEntries db, getStatsStep fmt st e = (.skip, st.addEntry fmt e)
      ∨ (getStatsStep fmt st e).1.isOk = false := by
    intro st e he
    obtain ⟨txid, hkey⟩ := hkeys e he
    obtain ⟨key, value⟩ := e
    simp only at hkey
    subst hkey
    exact getStatsStep_coin fmt st txid value
  simp only [getStatsLoop] at h ⊢
  rw [hseek] at h ⊢
  obtain ⟨each, hscan⟩ := scan_append_of_eq_true _ _ hrun h
  refine ⟨coinRecords_map_fst fmt fun e he => ?_, ?_⟩
  · obtain ⟨st', hst'⟩ := each e he
    exact getStatsStep_skip_decodes fmt hst'
  · rw [hscan, scan_of_stop _ fun e he => getStatsStep_stop fmt (hrest e he) _, foldl_addEntry,
      foldl_addRecord]
    rfl

/-- Take two chainstates whose coin keys are well formed and on which `GetStats` returns true. If
the streams `GetStats` writes to its hash writer are equal, every coin record of each decodes, and
the two hold the same number of coin records with, position by position in key order, the same
unspent outputs at the same positions. Witness: the stream is the best block's hash followed by
the records' parts (`getStatsLoop_of_eq_true`), which are prefix-free (`recordsStream_inj`).
-/
theorem getStats_stream_inj (hashWriter : Bytes → Uint256) {db₁ db₂ : Store}
    {m₁ m₂ : BlockMap} {stats₁ stats₂ : CCoinsStats} (hkeys₁ : CoinKeys db₁) (hkeys₂ : CoinKeys db₂)
    (hok₁ : (getStats fmt hashWriter db₁ m₁ stats₁).1 = some true)
    (hok₂ : (getStats fmt hashWriter db₂ m₂ stats₂).1 = some true)
    (hstream : (getStatsLoop fmt db₁ stats₁).2.2.ss = (getStatsLoop fmt db₂ stats₂).2.2.ss)
    : (coinRecords fmt db₁).map Prod.fst = coinEntries db₁
      ∧ (coinRecords fmt db₂).map Prod.fst = coinEntries db₂
      ∧ (coinRecords fmt db₁).map (fun r => unspentOutputs r.2)
        = (coinRecords fmt db₂).map (fun r => unspentOutputs r.2) := by
  obtain ⟨decoded₁, stream₁⟩ := getStatsLoop_of_eq_true fmt hkeys₁ (getStatsLoop_eq_true fmt hok₁)
  obtain ⟨decoded₂, stream₂⟩ := getStatsLoop_of_eq_true fmt hkeys₂ (getStatsLoop_eq_true fmt hok₂)
  rw [stream₁, stream₂, statsStream, statsStream] at hstream
  have records : ((coinRecords fmt db₁).map fun r => unspentOutputs r.2).flatMap (recordStream fmt)
      = ((coinRecords fmt db₂).map fun r => unspentOutputs r.2).flatMap (recordStream fmt) := by
    simpa only [List.flatMap_map] using (Uint256.codec.encode_append_inj hstream).2
  exact ⟨decoded₁, decoded₂, recordsStream_inj fmt records⟩

end Stats

-----------------------------------------------------------------------------------------
-- Example chainstates
-----------------------------------------------------------------------------------------

/-- The best block of the example chainstates. -/
def statsBestBlock : Uint256 := Blob.fill 32 7

/-- The best block's node, at height 2. -/
def statsNode : CBlockIndex := { CBlockIndex.default with nHeight := 2 }

/-- A block index holding the best block's node. -/
def statsIndex : BlockMap := BlockMap.empty.setNode statsBestBlock statsNode

/-- A coin record with a spent output, then an unspent one of value 5. -/
def statsCoins : CCoins := ⟨[⟨-1, []⟩, ⟨5, [1]⟩]⟩

/-- A chainstate with the best block, two coin records and a nullifier record after them. -/
def statsStore : Store :=
  ⟨[(slotKey dbBestBlock, Uint256.codec.encode statsBestBlock),
    (hashKey dbCoins (Blob.fill 32 1), Reference.coins.encode statsCoins),
    (hashKey dbCoins (Blob.fill 32 2), Reference.coins.encode ⟨[⟨3, []⟩, ⟨-1, []⟩, ⟨4, [2]⟩]⟩),
    (hashKey dbNullifier (Blob.fill 32 3), Reference.bool.encode true)], by decide⟩

/-- `GetStats` on `statsStore` reports its two coin records, with three unspent outputs. -/
theorem getStats_statsStore
    : getStats Reference.coinsFormat Reference.streamHash statsStore statsIndex .zero
      = (some true, coinsStatsOf Reference.coinsFormat Reference.streamHash statsStore statsNode.nHeight) :=
  getStats_eq_coinsStatsOf Reference.coinsFormat Reference.streamHash (coinKeys_of_length (by decide))
    (by decide) (by decide) (by decide) (by decide)

example : (coinsStatsOf Reference.coinsFormat Reference.streamHash statsStore 2).nTotalAmount = 12
    ∧ (coinsStatsOf Reference.coinsFormat Reference.streamHash statsStore 2).nTransactionOutputs = 3 := by
  decide

/-- A flush of one dirty coin entry and the best block onto `statsStore` keeps its coin keys well
formed.
-/
theorem batchWrite_statsStore_coinKeys
    : CoinKeys (batchWrite Reference.coinsFormat statsStore
        ⟨[(Blob.fill 32 4, ⟨statsCoins, DIRTY⟩)], by decide⟩ statsBestBlock (Blob.null 32)
        (Blob.null 32) .empty .empty .empty .empty true).db :=
  coinKeys_batchWrite Reference.coinsFormat (coinKeys_of_length (by decide)) _ _ _ _ _ _ _ _ _

/-- A chainstate with the best block and one coin record, `statsCoins`, under `txid`. -/
def coinStore (txid : Uint256) : Store :=
  ⟨[(slotKey dbBestBlock, Uint256.codec.encode statsBestBlock),
    (hashKey dbCoins txid, Reference.coins.encode statsCoins)],
   List.pairwise_pair.mpr (Bytes.cons_lt_cons_iff.mpr (.inl (show dbBestBlock < dbCoins by decide)))⟩

/-- Two chainstates that differ only in the txid of their one coin record: `GetStats` writes the
same stream on both and, whatever the hash writer, reports the same stats, though only the first
holds a coin under its txid.
-/
theorem getStats_coinStores
    : (getStatsLoop Reference.coinsFormat (coinStore (Blob.fill 32 1)) .zero).2.2.ss
        = (getStatsLoop Reference.coinsFormat (coinStore (Blob.fill 32 2)) .zero).2.2.ss
      ∧ (∀ hashWriter,
          getStats Reference.coinsFormat hashWriter (coinStore (Blob.fill 32 1)) statsIndex .zero
            = getStats Reference.coinsFormat hashWriter (coinStore (Blob.fill 32 2)) statsIndex .zero
          ∧ (getStats Reference.coinsFormat hashWriter (coinStore (Blob.fill 32 1)) statsIndex .zero).1
            = some true)
      ∧ haveCoins (coinStore (Blob.fill 32 1)) (Blob.fill 32 1) = true
      ∧ haveCoins (coinStore (Blob.fill 32 2)) (Blob.fill 32 1) = false := by
  have loops : getStatsLoop Reference.coinsFormat (coinStore (Blob.fill 32 1)) .zero
      = getStatsLoop Reference.coinsFormat (coinStore (Blob.fill 32 2)) .zero := by decide
  have ok : (getStatsLoop Reference.coinsFormat (coinStore (Blob.fill 32 1)) .zero).1 = some true := by
    decide
  have node : statsIndex (getStatsLoop Reference.coinsFormat (coinStore (Blob.fill 32 1)) .zero).2.2.stats.hashBlock
      = some (some statsNode) := by decide
  refine ⟨by rw [loops], fun hashWriter => ⟨by simp only [getStats, loops], ?_⟩, by decide, by decide⟩
  simp only [getStats, ok, node]

/-- The amended statement on the two chainstates of `getStats_coinStores`: their records' unspent
outputs agree.
-/
theorem getStats_stream_inj_coinStores
    : (coinRecords Reference.coinsFormat (coinStore (Blob.fill 32 1))).map Prod.fst
        = coinEntries (coinStore (Blob.fill 32 1))
      ∧ (coinRecords Reference.coinsFormat (coinStore (Blob.fill 32 2))).map Prod.fst
        = coinEntries (coinStore (Blob.fill 32 2))
      ∧ (coinRecords Reference.coinsFormat (coinStore (Blob.fill 32 1))).map (fun r => unspentOutputs r.2)
        = (coinRecords Reference.coinsFormat (coinStore (Blob.fill 32 2))).map (fun r => unspentOutputs r.2) :=
  @getStats_stream_inj Unit Unit Reference.coinsFormat Reference.streamHash (coinStore (Blob.fill 32 1))
    (coinStore (Blob.fill 32 2)) statsIndex statsIndex .zero .zero (coinKeys_of_length (by decide))
    (coinKeys_of_length (by decide)) (by decide) (by decide) (by decide)

end Txdb
