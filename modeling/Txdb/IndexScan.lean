import Txdb.Reference
import Txdb.Scan

/-! The range scans over the block-tree store's secondary indices: the address-unspent index,
the address index and the timestamp index, and the `mapBlockIndex` lookup the timestamp scan makes
to keep to the active chain. On a store of well-formed index records, what a scan keeps is the
point reads of the keys it selects, in ascending key order.
-/

namespace Txdb

-----------------------------------------------------------------------------------------
-- Index records
-----------------------------------------------------------------------------------------

section IndexRecords

variable {α : Type} (c : Codec α) (tag : Byte)

/-- The index key of a record whose key reads as `tag` followed by a key of `c`. -/
def indexKeyOf (e : Entry) : Option α :=
  match (Codec.tagged c).decode e.1 with
  | some ((chType, indexKey), _) => if chType = tag then some indexKey else none
  | none => none

/-- Every key of the store that starts with `tag` is `tag` followed by a key of `c`. -/
def IndexRecords (db : Store) : Prop :=
  ∀ e ∈ db.entries, [tag] <+: e.1 → ∃ k, e.1 = tag :: c.encode k

/-- The key and value of a record under `tag` whose key satisfies `C` and whose value reads by
`value`: what a range scan of an index keeps of a record.
-/
def indexRecord {β : Type} (C : α → Prop) [DecidablePred C] (value : Codec β) (e : Entry)
    : Option (α × β) :=
  (indexKeyOf c tag e).bind fun k => if C k then (value.decode e.2).map fun p => (k, p.1) else none

variable {c tag}

/-- A record reads as an index key exactly when its key decodes with the tag. -/
theorem indexKeyOf_eq_some {e : Entry} {k : α}
    : indexKeyOf c tag e = some k ↔ ∃ rest, (Codec.tagged c).decode e.1 = some ((tag, k), rest) := by
  unfold indexKeyOf
  split
  · next chType k' rest h =>
      by_cases hc : chType = tag
      · subst hc
        simp [h]
      · simp [h, hc]
  · next h => simp [h]

/-- An index key reads back from the record it is stored in. -/
theorem indexKeyOf_record (k : α) (value : Bytes) : indexKeyOf c tag (tag :: c.encode k, value) = some k :=
  indexKeyOf_eq_some.mpr ⟨[], Codec.decode_encode_self (Codec.tagged c) (tag, k)⟩

/-- A record whose key does not start with the tag reads as no index key. -/
theorem indexKeyOf_eq_none {e : Entry} (h : ¬[tag] <+: e.1) : indexKeyOf c tag e = none :=
  Option.eq_none_iff_forall_not_mem.mpr fun _ hk =>
    h (Codec.prefix_of_tagged_decode (indexKeyOf_eq_some.mp hk).choose_spec)

/-- In a store of well-formed index records, a record under `tag` reads as the key it is stored
under.
-/
theorem IndexRecords.keyOf_of_prefix {db : Store} (hdb : IndexRecords c tag db) {e : Entry}
    (he : e ∈ db.entries) (hpre : [tag] <+: e.1)
    : ∃ k, e.1 = tag :: c.encode k ∧ indexKeyOf c tag e = some k := by
  obtain ⟨k, hk⟩ := hdb e he hpre
  obtain ⟨key, value⟩ := e
  simp only at hk
  subst hk
  exact ⟨k, rfl, indexKeyOf_record k value⟩

/-- In a store of well-formed index records, a record that reads as an index key is stored under
exactly that key.
-/
theorem IndexRecords.key_eq {db : Store} (hdb : IndexRecords c tag db) {e : Entry}
    (he : e ∈ db.entries) {k : α} (hk : indexKeyOf c tag e = some k)
    : e.1 = tag :: c.encode k := by
  obtain ⟨rest, hdec⟩ := indexKeyOf_eq_some.mp hk
  obtain ⟨k', hk', same⟩ := hdb.keyOf_of_prefix he (Codec.prefix_of_tagged_decode hdec)
  rw [hk', Option.some.inj (hk.symm.trans same)]

variable {β : Type}

/-- A record a scan keeps reads as its key, which satisfies `C`, and its value. -/
theorem indexRecord_eq_some {C : α → Prop} [DecidablePred C] {value : Codec β} {e : Entry}
    {r : α × β} (h : indexRecord c tag C value e = some r)
    : indexKeyOf c tag e = some r.1 ∧ C r.1 ∧ (value.decode e.2).map Prod.fst = some r.2 := by
  obtain ⟨k, hk, h⟩ := Option.bind_eq_some.mp h
  split_ifs at h with hC
  obtain ⟨p, hp, rfl⟩ := Option.map_eq_some'.mp h
  exact ⟨hk, hC, by rw [hp]; rfl⟩

/-- In a store of well-formed index records, a record that reads as a key holds what the point read
of that key returns.
-/
theorem IndexRecords.read_of_mem {db : Store} (hdb : IndexRecords c tag db) (value : Codec β)
    {e : Entry} (he : e ∈ db.entries) {k : α} (hk : indexKeyOf c tag e = some k)
    : db.read value (pairKey c tag k) = (value.decode e.2).map Prod.fst := by
  rw [Store.read, pairKey_eq, ← hdb.key_eq he hk, (Store.mem_entries_iff db e.1 e.2).mp he,
    Option.some_bind]

/-- In a store of well-formed index records whose values read, a record that reads as a key gives
its key a point read.
-/
theorem IndexRecords.read_ne_none {db : Store} (hdb : IndexRecords c tag db) {value : Codec β}
    (hvalues : ∀ e ∈ db.entries, [tag] <+: e.1 → (value.decode e.2).isSome) {e : Entry}
    (he : e ∈ db.entries) {k : α} (hk : indexKeyOf c tag e = some k)
    : db.read value (pairKey c tag k) ≠ none := by
  rw [hdb.read_of_mem value he hk, Ne, Option.map_eq_none', ← Ne, ← Option.isSome_iff_ne_none]
  exact hvalues e he (Codec.prefix_of_tagged_decode (indexKeyOf_eq_some.mp hk).choose_spec)

/-- On a store of well-formed index records, a key and value are among the records a scan keeps
exactly when the key satisfies `C` and its point read returns the value: the range scan and the
point reads see one map.
-/
theorem IndexRecords.mem_filterMap_indexRecord {db : Store} (hdb : IndexRecords c tag db)
    (C : α → Prop) [DecidablePred C] (value : Codec β) {k : α} {v : β}
    : (k, v) ∈ db.entries.filterMap (indexRecord c tag C value)
      ↔ C k ∧ db.read value (pairKey c tag k) = some v := by
  constructor
  · intro hmem
    obtain ⟨e, he, hout⟩ := List.mem_filterMap.mp hmem
    obtain ⟨hk, hC, hv⟩ := indexRecord_eq_some hout
    exact ⟨hC, (hdb.read_of_mem value he hk).trans hv⟩
  · rintro ⟨hC, hread⟩
    obtain ⟨bytes, hget, hv⟩ := Option.bind_eq_some.mp hread
    obtain ⟨⟨v', rest⟩, hdec, rfl⟩ := Option.map_eq_some'.mp hv
    rw [pairKey_eq] at hget
    refine List.mem_filterMap.mpr ⟨_, (Store.mem_entries_iff db _ _).mpr hget, ?_⟩
    simp [indexRecord, indexKeyOf_record, hC, hdec]

/-- On a store of well-formed index records, the records a scan keeps come in strictly ascending
order of their serialized keys, so no key comes twice.
-/
theorem IndexRecords.pairwise_filterMap_indexRecord {db : Store} (hdb : IndexRecords c tag db)
    (C : α → Prop) [DecidablePred C] (value : Codec β)
    : (db.entries.filterMap (indexRecord c tag C value)).Pairwise
        (fun a b => c.encode a.1 < c.encode b.1) := by
  refine (List.Pairwise.and_mem.mp db.sorted).filterMap _ fun a b hab x hx y hy => ?_
  obtain ⟨ha, hb, hlt⟩ := hab
  rw [hdb.key_eq ha (indexRecord_eq_some hx).1, hdb.key_eq hb (indexRecord_eq_some hy).1,
    Bytes.cons_lt_cons_iff, lt_self_iff_false, false_or] at hlt
  exact hlt.2

end IndexRecords

-----------------------------------------------------------------------------------------
-- The address-unspent index
-----------------------------------------------------------------------------------------

section AddressUnspent

variable {CAddressUnspentValue : Type}

/-- One iteration of the loop of `CBlockTreeDB::ReadAddressUnspentIndex`: a record whose key reads
as an address-unspent key with the address hash is appended with its value, a value that does not
read is an error, and any other record ends the scan.
-/
def readAddressUnspentIndexStep (fmt : AddressUnspentKeyFormat)
    (value : Codec CAddressUnspentValue) (addressHash : Uint160) (e : Entry)
    : ScanStep (CAddressUnspentKey × CAddressUnspentValue) :=
  match (Codec.tagged fmt.key).decode e.1 with
  | some ((chType, indexKey), _) =>
      if chType = dbAddressunspentindex ∧ indexKey.hashBytes = addressHash then
        match value.decode e.2 with
        | some (nValue, _) => .push (indexKey, nValue)
        | none => .fail
      else .stop
  | none => .stop

/-- `CBlockTreeDB::ReadAddressUnspentIndex`: seek to the address's iterator key and scan. It
returns how the function ends and `unspentOutputs` with the records appended.
-/
def readAddressUnspentIndex (fmt : AddressUnspentKeyFormat) (value : Codec CAddressUnspentValue)
    (db : Store) (addressHash : Uint160) (type : Nat)
    (unspentOutputs : List (CAddressUnspentKey × CAddressUnspentValue))
    : Option Bool × List (CAddressUnspentKey × CAddressUnspentValue) :=
  let r := scanPure (readAddressUnspentIndexStep fmt value addressHash)
    (db.seek (dbAddressunspentindex :: fmt.iterator ⟨type, addressHash⟩))
  (r.1, unspentOutputs ++ r.2)

end AddressUnspent

/-- An unspent output of the address hash `7…7` under address type 1. -/
def unspentKeyType1 : CAddressUnspentKey := ⟨1, Blob.fill 20 7, Blob.fill 32 3, 0⟩

/-- An unspent output of the same address hash under address type 2. -/
def unspentKeyType2 : CAddressUnspentKey := ⟨2, Blob.fill 20 7, Blob.fill 32 4, 1⟩

/-- A block-tree store holding the two outputs, worth 5 and 7. -/
def twoTypesUnspentStore : Store :=
  ⟨[(dbAddressunspentindex :: Reference.addressUnspentKey.encode unspentKeyType1, Reference.int.encode 5),
    (dbAddressunspentindex :: Reference.addressUnspentKey.encode unspentKeyType2, Reference.int.encode 7)],
    by decide⟩

/-- Asked for the type-1 outputs of the hash, `ReadAddressUnspentIndex` also returns the type-2
output, whose key follows and carries the same hash: the match test does not compare the type.
-/
theorem readAddressUnspentIndex_twoTypes
    : readAddressUnspentIndex Reference.addressUnspentKeyFormat Reference.int twoTypesUnspentStore
        (Blob.fill 20 7) 1 []
      = (some true, [(unspentKeyType1, 5), (unspentKeyType2, 7)]) := by
  decide

-----------------------------------------------------------------------------------------
-- The records of one address
-----------------------------------------------------------------------------------------

section AddressRecords

variable (fmt : AddressUnspentKeyFormat) {CAddressUnspentValue : Type}
  (value : Codec CAddressUnspentValue)

/-- The key and value of an address-unspent record of the address `(type, addressHash)` whose
value reads.
-/
def addressUnspentOf (addressHash : Uint160) (type : Nat) (e : Entry)
    : Option (CAddressUnspentKey × CAddressUnspentValue) :=
  (indexKeyOf fmt.key dbAddressunspentindex e).bind fun k =>
    if k.type = type ∧ k.hashBytes = addressHash then (value.decode e.2).map fun p => (k, p.1)
    else none

/-- The address-unspent records of the address `(type, addressHash)`, in key order, with their
values.
-/
def addressUnspentOutputs (db : Store) (addressHash : Uint160) (type : Nat)
    : List (CAddressUnspentKey × CAddressUnspentValue) :=
  db.entries.filterMap (addressUnspentOf fmt value addressHash type)

/-- Every record of the store under the address-unspent tag is stored under an address-unspent
key and holds a value that reads.
-/
structure UnspentRecords (db : Store) : Prop where
  keys : IndexRecords fmt.key dbAddressunspentindex db
  values : ∀ e ∈ db.entries, [dbAddressunspentindex] <+: e.1 → (value.decode e.2).isSome

/-- A record stored under an address-unspent key starts with the iterator key of
`(type, addressHash)` exactly when its key carries that type and hash.
-/
theorem iterator_prefix_record {e : Entry} {k : CAddressUnspentKey}
    (hkey : e.1 = dbAddressunspentindex :: fmt.key.encode k) (type : Nat) (addressHash : Uint160)
    : dbAddressunspentindex :: fmt.iterator ⟨type, addressHash⟩ <+: e.1
      ↔ k.type = type ∧ k.hashBytes = addressHash := by
  rw [hkey, List.prefix_cons_inj, fmt.iterator_prefix, CAddressIndexIteratorKey.mk.injEq]
  exact and_congr eq_comm eq_comm

/-- A record that reads as no address-unspent key of `addressHash` ends the scan. -/
theorem readAddressUnspentIndexStep_stop {addressHash : Uint160} {e : Entry}
    (h : ∀ k, indexKeyOf fmt.key dbAddressunspentindex e = some k → k.hashBytes ≠ addressHash)
    : readAddressUnspentIndexStep fmt value addressHash e = .stop := by
  unfold readAddressUnspentIndexStep
  split
  · next chType k rest hdec =>
      by_cases hc : chType = dbAddressunspentindex
      · subst hc
        exact if_neg fun hm => h k (indexKeyOf_eq_some.mpr ⟨rest, hdec⟩) hm.2
      · exact if_neg fun hm => hc hm.1
  · rfl

/-- An address-unspent record of the address `(type, addressHash)` whose value reads is appended
with its value.
-/
theorem readAddressUnspentIndexStep_keep {addressHash : Uint160} {type : Nat} {e : Entry}
    {k : CAddressUnspentKey} (hk : indexKeyOf fmt.key dbAddressunspentindex e = some k)
    (htype : k.type = type) (hhash : k.hashBytes = addressHash) (hvalue : (value.decode e.2).isSome)
    : readAddressUnspentIndexStep fmt value addressHash e
      = .ofOption (addressUnspentOf fmt value addressHash type e) := by
  obtain ⟨rest, hdec⟩ := indexKeyOf_eq_some.mp hk
  obtain ⟨⟨nValue, after⟩, hv⟩ := Option.isSome_iff_exists.mp hvalue
  simp [readAddressUnspentIndexStep, addressUnspentOf, hdec, hk, htype, hhash, hv, ScanStep.ofOption]

/-- On a store of well-formed address-unspent records in which the address hash is stored under no
other type, the cursor after the seek of `ReadAddressUnspentIndex` is the address's records, each
appended with its value, followed by a record that ends the scan or by nothing. Witness: the
address's records are exactly those under its iterator key (`Store.seek_prefix`).
-/
theorem addressUnspentCursor {db : Store} (hdb : UnspentRecords fmt value db)
    {addressHash : Uint160} {type : Nat}
    (honly : ∀ e ∈ db.entries, ∀ k, indexKeyOf fmt.key dbAddressunspentindex e = some k →
      k.hashBytes = addressHash → k.type = type)
    : ∃ run rest, db.seek (dbAddressunspentindex :: fmt.iterator ⟨type, addressHash⟩) = run ++ rest
      ∧ (∀ e ∈ run, readAddressUnspentIndexStep fmt value addressHash e
          = .ofOption (addressUnspentOf fmt value addressHash type e))
      ∧ run.filterMap (addressUnspentOf fmt value addressHash type)
        = addressUnspentOutputs fmt value db addressHash type
      ∧ ∀ e ∈ rest.head?, readAddressUnspentIndexStep fmt value addressHash e = .stop := by
  obtain ⟨rest, hseek, hrest⟩ :=
    Store.seek_prefix db (dbAddressunspentindex :: fmt.iterator ⟨type, addressHash⟩)
  have tagged : [dbAddressunspentindex] <+: dbAddressunspentindex :: fmt.iterator ⟨type, addressHash⟩ :=
    List.prefix_cons_inj _ |>.mpr List.nil_prefix
  -- the records under the address's iterator key are the address's records
  have under : ∀ e ∈ db.entries, dbAddressunspentindex :: fmt.iterator ⟨type, addressHash⟩ <+: e.1 →
      ∃ k, indexKeyOf fmt.key dbAddressunspentindex e = some k ∧ k.type = type
        ∧ k.hashBytes = addressHash ∧ (value.decode e.2).isSome := by
    intro e he hp
    obtain ⟨k, hkey, hk⟩ := hdb.keys.keyOf_of_prefix he (tagged.trans hp)
    obtain ⟨htype, hhash⟩ := (iterator_prefix_record fmt hkey type addressHash).mp hp
    exact ⟨k, hk, htype, hhash, hdb.values e he (tagged.trans hp)⟩
  have outside : ∀ e ∈ db.entries, ¬dbAddressunspentindex :: fmt.iterator ⟨type, addressHash⟩ <+: e.1 →
      ∀ k, indexKeyOf fmt.key dbAddressunspentindex e = some k → k.hashBytes ≠ addressHash :=
    fun e he hp k hk hhash => hp <|
      (iterator_prefix_record fmt (IndexRecords.key_eq hdb.keys he hk) type addressHash).mpr
        ⟨honly e he k hk hhash, hhash⟩
  refine ⟨_, rest, hseek, fun e he => ?_, ?_, fun e he => ?_⟩
  · -- a record under the iterator key is appended with its value
    rw [List.mem_filter, decide_eq_true_eq] at he
    obtain ⟨k, hk, htype, hhash, hvalue⟩ := under e he.1 he.2
    exact readAddressUnspentIndexStep_keep fmt value hk htype hhash hvalue
  · -- those records are the address's records, in key order
    rw [List.filterMap_filter, addressUnspentOutputs]
    refine List.filterMap_congr fun e he => ?_
    by_cases hp : dbAddressunspentindex :: fmt.iterator ⟨type, addressHash⟩ <+: e.1
    · rw [if_pos (decide_eq_true hp)]
    · rw [if_neg (by simpa using hp), addressUnspentOf]
      cases hk : indexKeyOf fmt.key dbAddressunspentindex e with
      | none => rfl
      | some k => exact (if_neg fun hm => outside e he hp k hk hm.2).symm
  · -- the record after them ends the scan
    have hmem : e ∈ db.seek _ := hseek ▸ List.mem_append_right _ (List.mem_of_mem_head? he)
    exact readAddressUnspentIndexStep_stop fmt value (outside e (Store.mem_seek.mp hmem).1 (hrest e he))

/-- For every store of well-formed address-unspent records in which the address hash is stored
under no other address type, `ReadAddressUnspentIndex` returns true and appends exactly the records
of the address `(type, addressHash)`, in key order, with their values. Witness: the cursor is the
records under the address's iterator key, then one that ends the scan (`addressUnspentCursor`,
`scanPure_keep_stop`).
-/
theorem readAddressUnspentIndex_eq_outputs {db : Store} (hdb : UnspentRecords fmt value db)
    {addressHash : Uint160} {type : Nat}
    (honly : ∀ e ∈ db.entries, ∀ k, indexKeyOf fmt.key dbAddressunspentindex e = some k →
      k.hashBytes = addressHash → k.type = type)
    (unspentOutputs : List (CAddressUnspentKey × CAddressUnspentValue))
    : readAddressUnspentIndex fmt value db addressHash type unspentOutputs
      = (some true, unspentOutputs ++ addressUnspentOutputs fmt value db addressHash type) := by
  obtain ⟨run, rest, hsplit, hrun, hwindow, hrest⟩ := addressUnspentCursor fmt value hdb honly
  dsimp only [readAddressUnspentIndex]
  rw [hsplit, scanPure_keep_stop _ _ hrun hrest, hwindow]

/-- On a store of well-formed address-unspent records, a key and value are among the records of an
address exactly when the key is the address's and its point read returns the value.
-/
theorem mem_addressUnspentOutputs {db : Store} (hdb : UnspentRecords fmt value db)
    {addressHash : Uint160} {type : Nat} {k : CAddressUnspentKey} {v : CAddressUnspentValue}
    : (k, v) ∈ addressUnspentOutputs fmt value db addressHash type
      ↔ k.type = type ∧ k.hashBytes = addressHash
        ∧ db.read value (pairKey fmt.key dbAddressunspentindex k) = some v :=
  (hdb.keys.mem_filterMap_indexRecord (fun k => k.type = type ∧ k.hashBytes = addressHash) value).trans
    and_assoc

/-- On a store of well-formed address-unspent records, the records of an address come in strictly
ascending order of their serialized keys.
-/
theorem addressUnspentOutputs_sorted {db : Store} (hdb : UnspentRecords fmt value db)
    (addressHash : Uint160) (type : Nat)
    : (addressUnspentOutputs fmt value db addressHash type).Pairwise
        (fun a b => fmt.key.encode a.1 < fmt.key.encode b.1) :=
  hdb.keys.pairwise_filterMap_indexRecord (fun k => k.type = type ∧ k.hashBytes = addressHash) value

end AddressRecords

/-- Two unspent outputs of the address hash `7…7` under address type 1, worth 5 and 7, and one of
the hash `8…8` under address type 2, worth 9.
-/
def oneTypeUnspentStore : Store :=
  ⟨[(dbAddressunspentindex :: Reference.addressUnspentKey.encode unspentKeyType1, Reference.int.encode 5),
    (dbAddressunspentindex :: Reference.addressUnspentKey.encode ⟨1, Blob.fill 20 7, Blob.fill 32 4, 1⟩,
      Reference.int.encode 7),
    (dbAddressunspentindex :: Reference.addressUnspentKey.encode ⟨2, Blob.fill 20 8, Blob.fill 32 5, 0⟩,
      Reference.int.encode 9)],
    by decide⟩

/-- The example store's records are well formed and the hash `7…7` is stored under type 1 only, so
`readAddressUnspentIndex_eq_outputs` applies to it.
-/
theorem readAddressUnspentIndex_oneTypeUnspentStore
    : UnspentRecords Reference.addressUnspentKeyFormat Reference.int oneTypeUnspentStore
      ∧ (∀ e ∈ oneTypeUnspentStore.entries, ∀ k,
          indexKeyOf Reference.addressUnspentKeyFormat.key dbAddressunspentindex e = some k →
          k.hashBytes = Blob.fill 20 7 → k.type = 1)
      ∧ readAddressUnspentIndex Reference.addressUnspentKeyFormat Reference.int oneTypeUnspentStore
          (Blob.fill 20 7) 1 []
        = (some true, [] ++ addressUnspentOutputs Reference.addressUnspentKeyFormat Reference.int
            oneTypeUnspentStore (Blob.fill 20 7) 1) := by
  have entries : ∀ e ∈ oneTypeUnspentStore.entries, ∃ k n,
      e = (dbAddressunspentindex :: Reference.addressUnspentKey.encode k, Reference.int.encode n)
        ∧ (k.hashBytes = Blob.fill 20 7 → k.type = 1) := by
    intro e he
    simp only [oneTypeUnspentStore, List.mem_cons, List.mem_singleton, List.not_mem_nil, or_false] at he
    rcases he with rfl | rfl | rfl
    · exact ⟨_, _, rfl, fun _ => rfl⟩
    · exact ⟨_, _, rfl, fun _ => rfl⟩
    · exact ⟨_, _, rfl, fun h => absurd h (by decide)⟩
  have hdb : UnspentRecords Reference.addressUnspentKeyFormat Reference.int oneTypeUnspentStore := by
    constructor
    · intro e he _
      obtain ⟨k, n, rfl, -⟩ := entries e he
      exact ⟨k, rfl⟩
    · intro e he _
      obtain ⟨k, n, rfl, -⟩ := entries e he
      exact Option.isSome_iff_exists.mpr ⟨_, Codec.decode_encode_self _ _⟩
  have honly : ∀ e ∈ oneTypeUnspentStore.entries, ∀ k,
      indexKeyOf Reference.addressUnspentKeyFormat.key dbAddressunspentindex e = some k →
      k.hashBytes = Blob.fill 20 7 → k.type = 1 := by
    intro e he k hk
    obtain ⟨k', n, rfl, hk'⟩ := entries e he
    cases hk.symm.trans (indexKeyOf_record k' _)
    exact hk'
  exact ⟨hdb, honly, readAddressUnspentIndex_eq_outputs _ _ hdb honly []⟩

/-- The scan returns the two type-1 outputs and stops at the output of the other hash. -/
example
    : readAddressUnspentIndex Reference.addressUnspentKeyFormat Reference.int oneTypeUnspentStore
        (Blob.fill 20 7) 1 []
      = (some true, [(unspentKeyType1, 5), (⟨1, Blob.fill 20 7, Blob.fill 32 4, 1⟩, 7)]) := by
  decide

-----------------------------------------------------------------------------------------
-- The address index
-----------------------------------------------------------------------------------------

/-- One iteration of the loop of `CBlockTreeDB::ReadAddressIndex`: a record whose key reads as an
address-index key with the address hash ends the scan above height `end'` when that is positive,
and is appended with its amount otherwise; any other record ends the scan.
-/
def readAddressIndexStep (fmt : AddressIndexKeyFormat) (amount : Codec Int) (addressHash : Uint160)
    (end' : Int) (e : Entry)
    : ScanStep (CAddressIndexKey × Int) :=
  match (Codec.tagged fmt.key).decode e.1 with
  | some ((chType, indexKey), _) =>
      if chType = dbAddressindex ∧ indexKey.hashBytes = addressHash then
        if end' > 0 ∧ indexKey.blockHeight > end' then .stop
        else
          match amount.decode e.2 with
          | some (nValue, _) => .push (indexKey, nValue)
          | none => .fail
      else .stop
  | none => .stop

/-- `CBlockTreeDB::ReadAddressIndex`: seek to the address's iterator key, or to its height
iterator key at `start` when both bounds are positive, and scan.
-/
def readAddressIndex (fmt : AddressIndexKeyFormat) (amount : Codec Int) (db : Store)
    (addressHash : Uint160) (type : Nat) (addressIndex : List (CAddressIndexKey × Int))
    (start end' : Int)
    : Option Bool × List (CAddressIndexKey × Int) :=
  let seekKey :=
    if start > 0 ∧ end' > 0 then fmt.iteratorHeight ⟨type, addressHash, start⟩
    else fmt.iterator ⟨type, addressHash⟩
  let r := scanPure (readAddressIndexStep fmt amount addressHash end') (db.seek (dbAddressindex :: seekKey))
  (r.1, addressIndex ++ r.2)

/-- A payment to the address hash `7…7` under address type 1 at height 5. -/
def indexKeyType1 : CAddressIndexKey := ⟨1, Blob.fill 20 7, 5, Blob.fill 32 3, 0⟩

/-- A payment to the same address hash under address type 2 at height 3. -/
def indexKeyType2 : CAddressIndexKey := ⟨2, Blob.fill 20 7, 3, Blob.fill 32 4, 1⟩

/-- A block-tree store holding the two payments, of 5 and 7. -/
def twoTypesIndexStore : Store :=
  ⟨[(dbAddressindex :: Reference.addressIndexKey.encode indexKeyType1, Reference.int.encode 5),
    (dbAddressindex :: Reference.addressIndexKey.encode indexKeyType2, Reference.int.encode 7)],
    by decide⟩

/-- Asked for the type-1 payments of the hash between heights 4 and 10, `ReadAddressIndex` also
returns the type-2 payment, at height 3: the match test does not compare the type, and the start
height bounds only the seek.
-/
theorem readAddressIndex_twoTypes
    : readAddressIndex Reference.addressIndexKeyFormat Reference.int twoTypesIndexStore
        (Blob.fill 20 7) 1 [] 4 10
      = (some true, [(indexKeyType1, 5), (indexKeyType2, 7)]) := by
  decide

-----------------------------------------------------------------------------------------
-- The height window of one address
-----------------------------------------------------------------------------------------

/-- Within one address, keys ascend by height: the height seek key at a key's own height lies at
or below it, so a key at or above it is at that height or higher.
-/
theorem AddressIndexKeyFormat.blockHeight_le_of_le (fmt : AddressIndexKeyFormat)
    {a b : CAddressIndexKey} (htype : a.type = b.type) (hhash : a.hashBytes = b.hashBytes)
    (ha : 0 ≤ a.blockHeight) (hb : 0 ≤ b.blockHeight) (hab : fmt.key.encode a ≤ fmt.key.encode b)
    : a.blockHeight ≤ b.blockHeight := by
  have self := (fmt.iteratorHeight_le a.blockHeight a ha ha).mpr le_rfl
  rw [htype, hhash] at self
  exact (fmt.iteratorHeight_le a.blockHeight b ha hb).mp (self.trans hab)

section AddressIndexWindow

variable (fmt : AddressIndexKeyFormat) (amount : Codec Int)

/-- Every record of the store under the address-index tag is stored under an address-index key,
at a height that is not negative, and holds an amount that reads.
-/
structure AddressIndexRecords (db : Store) : Prop where
  keys : IndexRecords fmt.key dbAddressindex db
  heights : ∀ e ∈ db.entries, ∀ k, indexKeyOf fmt.key dbAddressindex e = some k → 0 ≤ k.blockHeight
  values : ∀ e ∈ db.entries, [dbAddressindex] <+: e.1 → (amount.decode e.2).isSome

/-- The key and amount of an address-index record of the address `(type, addressHash)` whose
height lies in the window of `ReadAddressIndex`: at most `end'` when that is positive, and at
least `start` when both bounds are.
-/
def addressIndexIn (addressHash : Uint160) (type : Nat) (start end' : Int) (e : Entry)
    : Option (CAddressIndexKey × Int) :=
  (indexKeyOf fmt.key dbAddressindex e).bind fun k =>
    if k.type = type ∧ k.hashBytes = addressHash ∧ (start > 0 ∧ end' > 0 → start ≤ k.blockHeight)
        ∧ (end' > 0 → k.blockHeight ≤ end') then
      (amount.decode e.2).map fun p => (k, p.1)
    else none

/-- The address-index records of the address `(type, addressHash)` in the height window of
`start` and `end'`, in key order, with their amounts.
-/
def addressIndexWindow (db : Store) (addressHash : Uint160) (type : Nat) (start end' : Int)
    : List (CAddressIndexKey × Int) :=
  db.entries.filterMap (addressIndexIn fmt amount addressHash type start end')

/-- A record in the window reads as a key of the address in the window. -/
theorem addressIndexIn_eq_some {addressHash : Uint160} {type : Nat} {start end' : Int} {e : Entry}
    {r : CAddressIndexKey × Int} (h : addressIndexIn fmt amount addressHash type start end' e = some r)
    : ∃ k, indexKeyOf fmt.key dbAddressindex e = some k ∧ k.type = type ∧ k.hashBytes = addressHash
      ∧ (start > 0 ∧ end' > 0 → start ≤ k.blockHeight) ∧ (end' > 0 → k.blockHeight ≤ end') :=
  ⟨r.1, (indexRecord_eq_some h).1, (indexRecord_eq_some h).2.1⟩

/-- A record that reads as no address-index key of `addressHash` ends the scan. -/
theorem readAddressIndexStep_stop {addressHash : Uint160} {end' : Int} {e : Entry}
    (h : ∀ k, indexKeyOf fmt.key dbAddressindex e = some k → k.hashBytes ≠ addressHash)
    : readAddressIndexStep fmt amount addressHash end' e = .stop := by
  unfold readAddressIndexStep
  split
  · next chType k rest hdec =>
      by_cases hc : chType = dbAddressindex
      · subst hc
        exact if_neg fun hm => h k (indexKeyOf_eq_some.mpr ⟨rest, hdec⟩) hm.2
      · exact if_neg fun hm => hc hm.1
  · rfl

/-- A record of the address above a positive `end'` ends the scan. -/
theorem readAddressIndexStep_above {addressHash : Uint160} {end' : Int} {e : Entry}
    {k : CAddressIndexKey} (hk : indexKeyOf fmt.key dbAddressindex e = some k)
    (hhash : k.hashBytes = addressHash) (habove : end' > 0 ∧ k.blockHeight > end')
    : readAddressIndexStep fmt amount addressHash end' e = .stop := by
  obtain ⟨rest, hdec⟩ := indexKeyOf_eq_some.mp hk
  simp [readAddressIndexStep, hdec, hhash, habove]

/-- A record of the address `(type, addressHash)` in the height window whose amount reads is
appended with its amount.
-/
theorem readAddressIndexStep_keep {addressHash : Uint160} {type : Nat} {start end' : Int}
    {e : Entry} {k : CAddressIndexKey} (hk : indexKeyOf fmt.key dbAddressindex e = some k)
    (hwindow : k.type = type ∧ k.hashBytes = addressHash
      ∧ (start > 0 ∧ end' > 0 → start ≤ k.blockHeight) ∧ (end' > 0 → k.blockHeight ≤ end'))
    (hvalue : (amount.decode e.2).isSome)
    : readAddressIndexStep fmt amount addressHash end' e
      = .ofOption (addressIndexIn fmt amount addressHash type start end' e) := by
  obtain ⟨rest, hdec⟩ := indexKeyOf_eq_some.mp hk
  obtain ⟨⟨nValue, after⟩, hv⟩ := Option.isSome_iff_exists.mp hvalue
  have below : ¬(end' > 0 ∧ k.blockHeight > end') := fun h => absurd (hwindow.2.2.2 h.1) (not_le.mpr h.2)
  have out : addressIndexIn fmt amount addressHash type start end' e = some (k, nValue) := by
    rw [addressIndexIn, hk, Option.some_bind, if_pos hwindow, hv, Option.map_some']
  rw [out]
  simp [readAddressIndexStep, hdec, hwindow.2.1, below, hv, ScanStep.ofOption]

variable {fmt amount}

/-- On a store of well-formed address-index records in which the address hash is stored under no
other type, the cursor after the seek of `ReadAddressIndex` is the address's records in the
height window, each appended with its amount, followed by a record that ends the scan or by
nothing. Witness: the seek key extends the address's iterator key and lies at or below exactly its
records from height `start` on when both bounds are positive (`Store.seek_eq_prefix_filter_append`),
and the address's records ascend by height, so those above `end'` come last.
-/
theorem addressIndexCursor {db : Store} (hdb : AddressIndexRecords fmt amount db)
    {addressHash : Uint160} {type : Nat}
    (honly : ∀ e ∈ db.entries, ∀ k, indexKeyOf fmt.key dbAddressindex e = some k →
      k.hashBytes = addressHash → k.type = type)
    (start end' : Int)
    : ∃ run rest, db.seek (dbAddressindex :: if start > 0 ∧ end' > 0
          then fmt.iteratorHeight ⟨type, addressHash, start⟩ else fmt.iterator ⟨type, addressHash⟩)
        = run ++ rest
      ∧ (∀ e ∈ run, readAddressIndexStep fmt amount addressHash end' e
          = .ofOption (addressIndexIn fmt amount addressHash type start end' e))
      ∧ run.filterMap (addressIndexIn fmt amount addressHash type start end')
        = addressIndexWindow fmt amount db addressHash type start end'
      ∧ ∀ e ∈ rest.head?, readAddressIndexStep fmt amount addressHash end' e = .stop := by
  set p := dbAddressindex :: fmt.iterator ⟨type, addressHash⟩ with hp
  set q := dbAddressindex :: if start > 0 ∧ end' > 0
    then fmt.iteratorHeight ⟨type, addressHash, start⟩ else fmt.iterator ⟨type, addressHash⟩ with hq
  have tagged : [dbAddressindex] <+: p := List.prefix_cons_inj _ |>.mpr List.nil_prefix
  have hpq : p <+: q := by
    rw [hp, hq, List.prefix_cons_inj]
    split
    · exact fmt.iteratorHeight_prefix _ _ _
    · exact List.prefix_rfl
  -- the records under the address's iterator key are the address's records
  have under : ∀ e ∈ db.entries, p <+: e.1 → ∃ k, e.1 = dbAddressindex :: fmt.key.encode k
      ∧ indexKeyOf fmt.key dbAddressindex e = some k ∧ k.type = type ∧ k.hashBytes = addressHash
      ∧ 0 ≤ k.blockHeight := by
    intro e he hpe
    obtain ⟨k, hkey, hk⟩ := hdb.keys.keyOf_of_prefix he (tagged.trans hpe)
    rw [hkey, hp, List.prefix_cons_inj, fmt.iterator_prefix, CAddressIndexIteratorKey.mk.injEq] at hpe
    exact ⟨k, hkey, hk, hpe.1.symm, hpe.2.symm, hdb.heights e he k hk⟩
  have outside : ∀ e ∈ db.entries, ¬p <+: e.1 →
      ∀ k, indexKeyOf fmt.key dbAddressindex e = some k → k.hashBytes ≠ addressHash := by
    intro e he hpe k hk hhash
    apply hpe
    rw [hdb.keys.key_eq he hk, hp, List.prefix_cons_inj, fmt.iterator_prefix,
      CAddressIndexIteratorKey.mk.injEq]
    exact ⟨(honly e he k hk hhash).symm, hhash.symm⟩
  -- the seek key lies at or below a record of the address exactly from height `start` on, when
  -- both bounds are positive, and below all of them otherwise
  have seekLe : ∀ k : CAddressIndexKey, k.type = type → k.hashBytes = addressHash →
      0 ≤ k.blockHeight →
      (q ≤ dbAddressindex :: fmt.key.encode k ↔ (start > 0 ∧ end' > 0 → start ≤ k.blockHeight)) := by
    intro k htype hhash h0
    subst htype hhash
    rw [hq, Bytes.cons_le_cons_iff, lt_self_iff_false, false_or]
    split
    · next hpos => simpa [hpos] using fmt.iteratorHeight_le start k hpos.1.le h0
    · next hpos => simpa [hpos] using Bytes.le_of_prefix ((fmt.iterator_prefix _ k).mpr rfl)
  set run := (db.entries.filter fun e => p <+: e.1).filter fun e => q ≤ e.1 with hrun
  have memRun : ∀ e ∈ run, e ∈ db.entries ∧ p <+: e.1 ∧ q ≤ e.1 := by
    intro e he
    simp only [hrun, List.mem_filter, decide_eq_true_eq] at he
    exact ⟨he.1.1, he.1.2, he.2⟩
  -- within the run, the records at most `end'` come first
  let P : Entry → Bool := fun e =>
    (indexKeyOf fmt.key dbAddressindex e).all fun k => decide (end' > 0 → k.blockHeight ≤ end')
  have sorted : run.Pairwise (fun a b => a.1 < b.1) :=
    db.sorted.sublist ((List.filter_sublist _).trans (List.filter_sublist _))
  have split := Store.eq_filter_append_filter sorted (P := P) fun a ha b hb hab hPb => by
    obtain ⟨ha, hpa, -⟩ := memRun a ha
    obtain ⟨hb, hpb, -⟩ := memRun b hb
    obtain ⟨ka, keya, hka, typea, hasha, h0a⟩ := under a ha hpa
    obtain ⟨kb, keyb, hkb, typeb, hashb, h0b⟩ := under b hb hpb
    rw [keya, keyb, Bytes.cons_lt_cons_iff, lt_self_iff_false, false_or] at hab
    have higher := fmt.blockHeight_le_of_le (typea.trans typeb.symm) (hasha.trans hashb.symm) h0a h0b
      hab.2.le
    simp only [P, hka, hkb, Option.all_some, decide_eq_true_eq] at hPb ⊢
    exact fun hpos => higher.trans (hPb hpos)
  refine ⟨run.filter P, run.filter (fun e => !P e) ++ (db.seek p).filter fun e => ¬p <+: e.1,
    ?_, fun e he => ?_, ?_, fun e he => ?_⟩
  · rw [Store.seek_eq_prefix_filter_append db hpq, ← hrun, ← List.append_assoc, ← split]
  · -- a record of the run is appended with its amount
    obtain ⟨heRun, hPe⟩ := List.mem_filter.mp he
    obtain ⟨hmem, hpe, hqe⟩ := memRun e heRun
    obtain ⟨k, hkey, hk, htype, hhash, h0⟩ := under e hmem hpe
    simp only [P, hk, Option.all_some, decide_eq_true_eq] at hPe
    exact readAddressIndexStep_keep fmt amount hk
      ⟨htype, hhash, (seekLe k htype hhash h0).mp (hkey ▸ hqe), hPe⟩ (hdb.values e hmem (tagged.trans hpe))
  · -- the run is the window, in key order
    rw [hrun, List.filter_filter, List.filter_filter, List.filterMap_filter, addressIndexWindow]
    refine List.filterMap_congr fun e he => ?_
    cases hin : addressIndexIn fmt amount addressHash type start end' e with
    | none => exact ite_eq_right_iff.mpr fun _ => rfl
    | some r =>
        obtain ⟨k, hk, htype, hhash, hstart, hend⟩ := addressIndexIn_eq_some fmt amount hin
        have hkey := hdb.keys.key_eq he hk
        have hpe : p <+: e.1 := by
          rw [hkey, hp, List.prefix_cons_inj, fmt.iterator_prefix, htype, hhash]
        refine if_pos ?_
        simpa only [P, hk, Option.all_some, hpe, hkey ▸ (seekLe k htype hhash (hdb.heights e he k hk)).mpr hstart,
          decide_True, Bool.and_true, decide_eq_true_eq] using hend
  · -- the record after the run ends the scan
    cases hlate : run.filter (fun e => !P e) with
    | nil =>
        rw [hlate, List.nil_append] at he
        obtain ⟨hseek, hout⟩ := List.mem_filter.mp (List.mem_of_mem_head? he)
        exact readAddressIndexStep_stop fmt amount
          (outside e (Store.mem_seek.mp hseek).1 (by simpa using hout))
    | cons b late =>
        rw [hlate, List.cons_append, List.head?_cons] at he
        obtain rfl := Option.some.inj he
        obtain ⟨hbRun, hPb⟩ := List.mem_filter.mp (hlate ▸ List.mem_cons_self b late)
        obtain ⟨hmem, hpb, -⟩ := memRun b hbRun
        obtain ⟨k, -, hk, -, hhash, -⟩ := under b hmem hpb
        simp only [P, hk, Option.all_some, Bool.not_eq_true', decide_eq_false_iff_not, Classical.not_imp,
          not_le] at hPb
        exact readAddressIndexStep_above fmt amount hk hhash hPb

/-- For every store of well-formed address-index records in which the address hash is stored
under no other type, and every pair of bounds, `ReadAddressIndex` returns true and appends
exactly the records of the address `(type, addressHash)` in the height window, in key order, with
their amounts: those at most `end'` when it is positive, and from `start` on when both bounds
are. Witness: the cursor is the window's records, then a record that ends the scan
(`addressIndexCursor`, `scanPure_keep_stop`).
-/
theorem readAddressIndex_eq_window {db : Store} (hdb : AddressIndexRecords fmt amount db)
    {addressHash : Uint160} {type : Nat}
    (honly : ∀ e ∈ db.entries, ∀ k, indexKeyOf fmt.key dbAddressindex e = some k →
      k.hashBytes = addressHash → k.type = type)
    (addressIndex : List (CAddressIndexKey × Int)) (start end' : Int)
    : readAddressIndex fmt amount db addressHash type addressIndex start end'
      = (some true, addressIndex ++ addressIndexWindow fmt amount db addressHash type start end') := by
  obtain ⟨run, rest, hsplit, hrun, hwindow, hrest⟩ := addressIndexCursor hdb honly start end'
  dsimp only [readAddressIndex]
  rw [hsplit, scanPure_keep_stop _ _ hrun hrest, hwindow]

/-- On a store of well-formed address-index records, a key and amount are in the window of an
address exactly when the key is the address's, its height lies in the window, and its point read
returns the amount.
-/
theorem mem_addressIndexWindow {db : Store} (hdb : AddressIndexRecords fmt amount db)
    {addressHash : Uint160} {type : Nat} {start end' : Int} {k : CAddressIndexKey} {n : Int}
    : (k, n) ∈ addressIndexWindow fmt amount db addressHash type start end'
      ↔ k.type = type ∧ k.hashBytes = addressHash ∧ (start > 0 ∧ end' > 0 → start ≤ k.blockHeight)
        ∧ (end' > 0 → k.blockHeight ≤ end') ∧ db.read amount (pairKey fmt.key dbAddressindex k) = some n :=
  (hdb.keys.mem_filterMap_indexRecord (fun k => k.type = type ∧ k.hashBytes = addressHash
    ∧ (start > 0 ∧ end' > 0 → start ≤ k.blockHeight) ∧ (end' > 0 → k.blockHeight ≤ end')) amount).trans
    (by simp only [and_assoc])

/-- On a store of well-formed address-index records, the window of an address comes in strictly
ascending order of serialized keys, and so in ascending order of height.
-/
theorem addressIndexWindow_sorted {db : Store} (hdb : AddressIndexRecords fmt amount db)
    (addressHash : Uint160) (type : Nat) (start end' : Int)
    : (addressIndexWindow fmt amount db addressHash type start end').Pairwise
        (fun a b => fmt.key.encode a.1 < fmt.key.encode b.1 ∧ a.1.blockHeight ≤ b.1.blockHeight) := by
  have sorted := hdb.keys.pairwise_filterMap_indexRecord (fun k => k.type = type
    ∧ k.hashBytes = addressHash ∧ (start > 0 ∧ end' > 0 → start ≤ k.blockHeight)
    ∧ (end' > 0 → k.blockHeight ≤ end')) amount
  refine sorted.imp_of_mem fun ha hb hab => ⟨hab, ?_⟩
  obtain ⟨ea, hea, hina⟩ := List.mem_filterMap.mp ha
  obtain ⟨eb, heb, hinb⟩ := List.mem_filterMap.mp hb
  obtain ⟨hka, ⟨typea, hasha, -⟩, -⟩ := indexRecord_eq_some hina
  obtain ⟨hkb, ⟨typeb, hashb, -⟩, -⟩ := indexRecord_eq_some hinb
  exact fmt.blockHeight_le_of_le (typea.trans typeb.symm) (hasha.trans hashb.symm)
    (hdb.heights ea hea _ hka) (hdb.heights eb heb _ hkb) hab.le

end AddressIndexWindow

/-- Payments to the address hash `7…7` under address type 1 at heights 2, 5 and 8, of 1, 2 and
3, and one to the hash `8…8` under address type 2 at height 5, of 4.
-/
def heightsIndexStore : Store :=
  ⟨[(dbAddressindex :: Reference.addressIndexKey.encode ⟨1, Blob.fill 20 7, 2, Blob.fill 32 1, 0⟩,
      Reference.int.encode 1),
    (dbAddressindex :: Reference.addressIndexKey.encode ⟨1, Blob.fill 20 7, 5, Blob.fill 32 2, 0⟩,
      Reference.int.encode 2),
    (dbAddressindex :: Reference.addressIndexKey.encode ⟨1, Blob.fill 20 7, 8, Blob.fill 32 3, 0⟩,
      Reference.int.encode 3),
    (dbAddressindex :: Reference.addressIndexKey.encode ⟨2, Blob.fill 20 8, 5, Blob.fill 32 4, 0⟩,
      Reference.int.encode 4)],
    by decide⟩

/-- The example store's address-index records are well formed and the hash `7…7` is stored under
type 1 only, so `readAddressIndex_eq_window` applies to it, here between heights 4 and 6.
-/
theorem readAddressIndex_eq_window_heightsIndexStore
    : AddressIndexRecords Reference.addressIndexKeyFormat Reference.int heightsIndexStore
      ∧ (∀ e ∈ heightsIndexStore.entries, ∀ k,
          indexKeyOf Reference.addressIndexKeyFormat.key dbAddressindex e = some k →
          k.hashBytes = Blob.fill 20 7 → k.type = 1)
      ∧ readAddressIndex Reference.addressIndexKeyFormat Reference.int heightsIndexStore
          (Blob.fill 20 7) 1 [] 4 6
        = (some true, [] ++ addressIndexWindow Reference.addressIndexKeyFormat Reference.int
            heightsIndexStore (Blob.fill 20 7) 1 4 6) := by
  have entries : ∀ e ∈ heightsIndexStore.entries, ∃ k n,
      e = (dbAddressindex :: Reference.addressIndexKey.encode k, Reference.int.encode n)
        ∧ 0 ≤ k.blockHeight ∧ (k.hashBytes = Blob.fill 20 7 → k.type = 1) := by
    intro e he
    simp only [heightsIndexStore, List.mem_cons, List.mem_singleton, List.not_mem_nil, or_false] at he
    rcases he with rfl | rfl | rfl | rfl <;> exact ⟨_, _, rfl, by decide, by decide⟩
  have hdb : AddressIndexRecords Reference.addressIndexKeyFormat Reference.int heightsIndexStore := by
    refine ⟨fun e he _ => ?_, fun e he k hk => ?_, fun e he _ => ?_⟩ <;>
      obtain ⟨k', n, rfl, h0, -⟩ := entries e he
    · exact ⟨k', rfl⟩
    · cases hk.symm.trans (indexKeyOf_record k' _)
      exact h0
    · exact Option.isSome_iff_exists.mpr ⟨_, Codec.decode_encode_self _ _⟩
  have honly : ∀ e ∈ heightsIndexStore.entries, ∀ k,
      indexKeyOf Reference.addressIndexKeyFormat.key dbAddressindex e = some k →
      k.hashBytes = Blob.fill 20 7 → k.type = 1 := by
    intro e he k hk
    obtain ⟨k', n, rfl, -, hk'⟩ := entries e he
    cases hk.symm.trans (indexKeyOf_record k' _)
    exact hk'
  exact ⟨hdb, honly, readAddressIndex_eq_window hdb honly [] 4 6⟩

/-- Between heights 4 and 6 the scan seeks past the payment at height 2 and stops at the one at
height 8.
-/
example
    : readAddressIndex Reference.addressIndexKeyFormat Reference.int heightsIndexStore
        (Blob.fill 20 7) 1 [] 4 6
      = (some true, [(⟨1, Blob.fill 20 7, 5, Blob.fill 32 2, 0⟩, 2)]) := by
  decide

-----------------------------------------------------------------------------------------
-- The timestamp index
-----------------------------------------------------------------------------------------

/-- `CBlockTreeDB::blockOnchainActive`: `mapBlockIndex[hash]`, which enters a null pointer under a
hash it does not hold, and `chainActive.Contains` on the pointer. `chainActiveContains` is
`CChain::Contains` (chain.h, outside txdb.cpp) on a pointer given as the node's hash, `none` for
null; what it does with a null pointer is left open.
-/
def blockOnchainActive (chainActiveContains : Option Uint256 → Bool) (m : BlockMap) (hash : Uint256)
    : Bool × BlockMap :=
  let pblockindex := m.index hash
  (chainActiveContains pblockindex.1, pblockindex.2)

/-- One iteration of the loop of `CBlockTreeDB::ReadTimestampIndex`, with `mapBlockIndex` as the
state: a record whose key reads as a timestamp-index key below `high` is appended, when
`fActiveOnly` only if its block is on the active chain; any other record ends the scan.
-/
def readTimestampIndexStep (fmt : TimestampKeyFormat) (chainActiveContains : Option Uint256 → Bool)
    (high : Nat) (fActiveOnly : Bool) (m : BlockMap) (e : Entry)
    : ScanStep (Uint256 × Nat) × BlockMap :=
  match (Codec.tagged fmt.key).decode e.1 with
  | some ((chType, indexKey), _) =>
      if chType = dbTimestampindex ∧ indexKey.timestamp < high then
        if fActiveOnly then
          let active := blockOnchainActive chainActiveContains m indexKey.blockHash
          (if active.1 then .push (indexKey.blockHash, indexKey.timestamp) else .skip, active.2)
        else (.push (indexKey.blockHash, indexKey.timestamp), m)
      else (.stop, m)
  | none => (.stop, m)

/-- `CBlockTreeDB::ReadTimestampIndex`: seek to the iterator key of `low` and scan. It returns how
the function ends, `hashes` with the records appended, and `mapBlockIndex`.
-/
def readTimestampIndex (fmt : TimestampKeyFormat) (chainActiveContains : Option Uint256 → Bool)
    (db : Store) (m : BlockMap) (high low : Nat) (fActiveOnly : Bool) (hashes : List (Uint256 × Nat))
    : Option Bool × List (Uint256 × Nat) × BlockMap :=
  let r := scan (readTimestampIndexStep fmt chainActiveContains high fActiveOnly) m
    (db.seek (dbTimestampindex :: fmt.iterator ⟨low⟩))
  (r.1, hashes ++ r.2.1, r.2.2)

/-- A timestamp-index record for a block absent from `mapBlockIndex`, met with `fActiveOnly`, enters
a null pointer under the block's hash and asks `chainActive.Contains` about that null pointer, for
every key format, chain and record; witness: the store holds the one record.
-/
theorem readTimestampIndex_absentBlock (fmt : TimestampKeyFormat)
    (chainActiveContains : Option Uint256 → Bool) (hash : Uint256) (timestamp : Nat)
    : readTimestampIndex fmt chainActiveContains
        ⟨[(dbTimestampindex :: fmt.key.encode ⟨timestamp, hash⟩, [])], List.pairwise_singleton _ _⟩
        .empty (timestamp + 1) timestamp true []
      = (some true, (if chainActiveContains none then [(hash, timestamp)] else []),
          Function.update BlockMap.empty hash (some none)) := by
  have hseek : Store.seek ⟨[(dbTimestampindex :: fmt.key.encode ⟨timestamp, hash⟩, [])],
      List.pairwise_singleton _ _⟩ (dbTimestampindex :: fmt.iterator ⟨timestamp⟩)
      = [(dbTimestampindex :: fmt.key.encode ⟨timestamp, hash⟩, [])] := by
    rw [Store.seek_eq_filter, List.filter_eq_self]
    intro e he
    rw [List.mem_singleton] at he
    subst he
    exact decide_eq_true (Bytes.cons_le_cons_iff.mpr (.inr ⟨rfl, (fmt.iterator_le _ _).mpr le_rfl⟩))
  have hdecode : (Codec.tagged fmt.key).decode (dbTimestampindex :: fmt.key.encode ⟨timestamp, hash⟩)
      = some ((dbTimestampindex, ⟨timestamp, hash⟩), []) :=
    Codec.decode_encode_self (Codec.tagged fmt.key) (dbTimestampindex, ⟨timestamp, hash⟩)
  have hlt : timestamp < timestamp + 1 := Nat.lt_succ_self timestamp
  cases hc : chainActiveContains none <;>
    simp only [readTimestampIndex, hseek, scan, readTimestampIndexStep, hdecode, blockOnchainActive,
      BlockMap.index, BlockMap.empty, hc, hlt, and_self, if_true, if_false, Bool.false_eq_true,
      List.nil_append]

-----------------------------------------------------------------------------------------
-- The timestamp window
-----------------------------------------------------------------------------------------

section Window

variable (fmt : TimestampKeyFormat)

/-- The timestamp-index key of a record whose key reads as one. -/
def timestampKeyOf (e : Entry) : Option CTimestampIndexKey := indexKeyOf fmt.key dbTimestampindex e

/-- The `(block hash, timestamp)` pair of a timestamp-index record in `[low, high)`. -/
def timestampIn (low high : Nat) (e : Entry) : Option (Uint256 × Nat) :=
  (timestampKeyOf fmt e).bind fun k =>
    if low ≤ k.timestamp ∧ k.timestamp < high then some (k.blockHash, k.timestamp) else none

/-- The timestamp-index records of a store with timestamps in `[low, high)`, in key order, as
`(block hash, timestamp)` pairs.
-/
def timestampWindow (db : Store) (low high : Nat) : List (Uint256 × Nat) :=
  db.entries.filterMap (timestampIn fmt low high)

/-- Every key of the store that starts with the timestamp-index tag is a timestamp-index key. -/
def TimestampRecords (db : Store) : Prop := IndexRecords fmt.key dbTimestampindex db

/-- What `ReadTimestampIndex` should do on a store: without `fActiveOnly`, append the window of
`[low, high)` and leave `mapBlockIndex` alone; the window ascends by timestamp, then block hash;
with `fActiveOnly`, when every block of the window has a node, append the part of the window on
the active chain.
-/
structure ReadsTimestampWindow (chainActiveContains : Option Uint256 → Bool) (db : Store)
    (m : BlockMap) (high low : Nat) (hashes : List (Uint256 × Nat)) : Prop where
  all : readTimestampIndex fmt chainActiveContains db m high low false hashes
    = (some true, hashes ++ timestampWindow fmt db low high, m)
  ascending : (timestampWindow fmt db low high).Pairwise fun p q =>
    p.2 < q.2 ∨ p.2 = q.2 ∧ p.1.data < q.1.data
  active : (∀ p ∈ timestampWindow fmt db low high, ∃ node, m p.1 = some (some node)) →
    readTimestampIndex fmt chainActiveContains db m high low true hashes
      = (some true, hashes ++ (timestampWindow fmt db low high).filter fun p => chainActiveContains (some p.1),
          m)

theorem timestampIn_eq_some {low high : Nat} {e : Entry} {p : Uint256 × Nat}
    : timestampIn fmt low high e = some p
      ↔ ∃ k, timestampKeyOf fmt e = some k ∧ low ≤ k.timestamp ∧ k.timestamp < high
        ∧ p = (k.blockHash, k.timestamp) := by
  unfold timestampIn
  cases timestampKeyOf fmt e with
  | none => simp only [Option.none_bind, reduceCtorEq, false_and, exists_false]
  | some k =>
      by_cases h : low ≤ k.timestamp ∧ k.timestamp < high
      · simp only [Option.some_bind, h.1, h.2, and_self, if_true, Option.some.injEq, exists_eq_left', true_and]
        exact eq_comm
      · simp only [Option.some_bind, h, if_false, reduceCtorEq, false_iff]
        rintro ⟨k', hk', hlow, hhigh, -⟩
        cases hk'
        exact h ⟨hlow, hhigh⟩

/-- A record that does not read as a timestamp-index key below `high` ends the scan. -/
theorem readTimestampIndexStep_stop (chainActiveContains : Option Uint256 → Bool) {high : Nat}
    (fActiveOnly : Bool) (m : BlockMap) {e : Entry}
    (h : ∀ k, timestampKeyOf fmt e = some k → high ≤ k.timestamp)
    : readTimestampIndexStep fmt chainActiveContains high fActiveOnly m e = (.stop, m) := by
  unfold readTimestampIndexStep
  split
  · next chType k rest hdec =>
      by_cases hc : chType = dbTimestampindex
      · subst hc
        have := h k (indexKeyOf_eq_some.mpr ⟨rest, hdec⟩)
        simp [Nat.not_lt.mpr this]
      · simp [hc]
  · rfl

/-- A timestamp-index record below `high` is appended, and with `fActiveOnly`, for a block that has
a node, appended exactly when the block is on the active chain; `mapBlockIndex` is left alone.
-/
theorem readTimestampIndexStep_keep (chainActiveContains : Option Uint256 → Bool) {high : Nat}
    {m : BlockMap} {e : Entry} {k : CTimestampIndexKey} (hk : timestampKeyOf fmt e = some k)
    (hhigh : k.timestamp < high)
    : readTimestampIndexStep fmt chainActiveContains high false m e
        = (.push (k.blockHash, k.timestamp), m)
      ∧ ((∃ node, m k.blockHash = some (some node)) →
        readTimestampIndexStep fmt chainActiveContains high true m e
          = (.ofOption ((some (k.blockHash, k.timestamp)).filter fun p => chainActiveContains (some p.1)),
              m)) := by
  obtain ⟨rest, hdec⟩ := indexKeyOf_eq_some.mp hk
  refine ⟨by simp [readTimestampIndexStep, hdec, hhigh], fun ⟨node, hnode⟩ => ?_⟩
  cases hc : chainActiveContains (some k.blockHash) <;>
    simp [readTimestampIndexStep, hdec, hhigh, blockOnchainActive, BlockMap.index, hnode, hc,
      Option.filter, ScanStep.ofOption]

/-- On a store of well-formed timestamp records, the cursor after seeking to `low` is the window's
records, each below `high`, followed by a record that ends the scan or by nothing; witness: the
records below `high` come first, since keys ascend by timestamp.
-/
theorem timestampCursor {db : Store} (hdb : TimestampRecords fmt db) (low high : Nat)
    : ∃ run rest, db.seek (dbTimestampindex :: fmt.iterator ⟨low⟩) = run ++ rest
      ∧ (∀ e ∈ run, ∃ k, timestampKeyOf fmt e = some k ∧ k.timestamp < high
          ∧ timestampIn fmt low high e = some (k.blockHash, k.timestamp))
      ∧ run.filterMap (timestampIn fmt low high) = timestampWindow fmt db low high
      ∧ ∀ e ∈ rest.head?, ∀ k, timestampKeyOf fmt e = some k → high ≤ k.timestamp := by
  let P : Entry → Bool := fun e => (timestampKeyOf fmt e).any (·.timestamp < high)
  have hP : ∀ e, P e = true ↔ ∃ k, timestampKeyOf fmt e = some k ∧ k.timestamp < high := by
    intro e
    cases h : timestampKeyOf fmt e with
    | none => exact ⟨fun hp => by simp [P, h] at hp, fun ⟨_, hk, _⟩ => Option.noConfusion hk⟩
    | some k => simp only [P, h, Option.any_some, decide_eq_true_eq, Option.some.injEq, exists_eq_left']
  have tagged : [dbTimestampindex] <+: dbTimestampindex :: fmt.iterator ⟨low⟩ :=
    List.prefix_cons_inj _ |>.mpr List.nil_prefix
  have hcursor := Store.seek_eq_filter db (dbTimestampindex :: fmt.iterator ⟨low⟩)
  have sorted : (db.seek (dbTimestampindex :: fmt.iterator ⟨low⟩)).Pairwise (fun a b => a.1 < b.1) :=
    hcursor ▸ db.sorted.filter _
  have hmem : ∀ e, e ∈ db.seek (dbTimestampindex :: fmt.iterator ⟨low⟩)
      ↔ e ∈ db.entries ∧ dbTimestampindex :: fmt.iterator ⟨low⟩ ≤ e.1 := fun _ => Store.mem_seek
  -- the seek key lies at or below a record's key exactly from timestamp `low` on
  have above : ∀ k, dbTimestampindex :: fmt.iterator ⟨low⟩ ≤ dbTimestampindex :: fmt.key.encode k
      ↔ low ≤ k.timestamp := by
    intro k
    rw [Bytes.cons_le_cons_iff, fmt.iterator_le]
    simp
  have split := Store.eq_filter_append_filter sorted (P := P) fun a ha b hb hab hPb => by
    obtain ⟨kb, hkb, hb'⟩ := (hP b).mp hPb
    rw [hmem] at ha hb
    have keyb := IndexRecords.key_eq hdb hb.1 hkb
    have taggedb : [dbTimestampindex] <+: b.1 := by
      rw [keyb]
      exact List.prefix_cons_inj _ |>.mpr List.nil_prefix
    obtain ⟨ka, keya, hka⟩ :=
      IndexRecords.keyOf_of_prefix hdb ha.1 (Bytes.prefix_of_le_of_le tagged taggedb ha.2 hab.le)
    rw [keya, keyb, Bytes.cons_lt_cons_iff, lt_self_iff_false, false_or, fmt.key_lt_iff] at hab
    have : ka.timestamp ≤ kb.timestamp := by rcases hab.2 with h | ⟨h, -⟩ <;> omega
    exact (hP a).mpr ⟨ka, hka, by omega⟩
  refine ⟨_, _, split, fun e he => ?_, ?_, fun e he k hk => ?_⟩
  · -- a record of the run is in the window
    rw [List.mem_filter, hmem] at he
    obtain ⟨k, hk, hhigh⟩ := (hP e).mp he.2
    have hkey := IndexRecords.key_eq hdb he.1.1 hk
    have hlow := (above k).mp (hkey ▸ he.1.2)
    exact ⟨k, hk, hhigh, by simp [timestampIn, hk, hlow, hhigh]⟩
  · -- the run is the window, in key order
    rw [hcursor, List.filter_filter, List.filterMap_filter, timestampWindow]
    refine List.filterMap_congr fun e he => ?_
    cases hk : timestampKeyOf fmt e with
    | none => simp [timestampIn, hk]
    | some k =>
        have hkey := IndexRecords.key_eq hdb he hk
        by_cases hwin : low ≤ k.timestamp ∧ k.timestamp < high
        · refine if_pos ?_
          simp only [P, hk, Option.any_some, hkey, above, hwin.1, hwin.2, decide_True, Bool.and_self]
        · have outside : timestampIn fmt low high e = none := by
            simp only [timestampIn, hk, Option.some_bind, if_neg hwin]
          rw [outside, ite_self]
  · -- the record after the run ends the scan
    have hrest : e ∈ (db.seek (dbTimestampindex :: fmt.iterator ⟨low⟩)).filter (fun e => !P e) :=
      List.mem_of_mem_head? he
    rw [List.mem_filter] at hrest
    have := hrest.2
    simp only [P, hk, Option.any_some, Bool.not_eq_true', decide_eq_false_iff_not] at this
    omega

/-- For every store of well-formed timestamp records, every `mapBlockIndex` and every bounds,
`ReadTimestampIndex` without `fActiveOnly` appends exactly the window of `[low, high)` in
ascending (timestamp, block hash) order, each record once, and with `fActiveOnly`, when every
block of the window has a node, the part of the window on the active chain. Witness: the cursor
is the window's records, then a record that ends the scan (`timestampCursor`).
-/
theorem readTimestampIndex_window (chainActiveContains : Option Uint256 → Bool) {db : Store}
    (hdb : TimestampRecords fmt db) (m : BlockMap) (high low : Nat) (hashes : List (Uint256 × Nat))
    : ReadsTimestampWindow fmt chainActiveContains db m high low hashes := by
  obtain ⟨run, rest, hsplit, hrun, hwindow, hrest⟩ := timestampCursor fmt hdb low high
  have stop : ∀ fActiveOnly, scan (readTimestampIndexStep fmt chainActiveContains high fActiveOnly) m rest
      = (some true, [], m) := fun fActiveOnly =>
    scan_of_stop _ fun e he => readTimestampIndexStep_stop fmt chainActiveContains fActiveOnly m (hrest e he)
  refine ⟨?_, ?_, fun hnodes => ?_⟩
  · rw [readTimestampIndex, hsplit, scan_append_of_keep _ (timestampIn fmt low high) ?_ rest, stop,
      hwindow]
    · simp
    · intro e he
      obtain ⟨k, hk, hhigh, hin⟩ := hrun e he
      rw [hin]
      exact (readTimestampIndexStep_keep fmt chainActiveContains hk hhigh).1
  · -- keys ascend strictly, by timestamp then block hash
    rw [timestampWindow, List.pairwise_filterMap]
    refine db.sorted.imp_of_mem fun ha hb hab p hp q hq => ?_
    obtain ⟨ka, hka, -, -, rfl⟩ := (timestampIn_eq_some fmt).mp hp
    obtain ⟨kb, hkb, -, -, rfl⟩ := (timestampIn_eq_some fmt).mp hq
    rw [IndexRecords.key_eq hdb ha hka, IndexRecords.key_eq hdb hb hkb, Bytes.cons_lt_cons_iff, lt_self_iff_false,
      false_or, fmt.key_lt_iff] at hab
    exact hab.2
  · -- with every block of the window known, the active part of the window
    rw [readTimestampIndex, hsplit,
      scan_append_of_keep _ (fun e => (timestampIn fmt low high e).filter fun p => chainActiveContains (some p.1))
        ?_ rest, stop, ← hwindow, List.filter_filterMap]
    · simp
    · intro e he
      obtain ⟨k, hk, hhigh, hin⟩ := hrun e he
      have known := hnodes _ (hwindow ▸ List.mem_filterMap.mpr ⟨e, he, hin⟩)
      simp only [hin]
      exact (readTimestampIndexStep_keep fmt chainActiveContains hk hhigh).2 known

end Window

/-- A block-tree store with a flag record, the timestamp records of three blocks at timestamps 1, 3
and 5, and an address-unspent record.
-/
def timestampStore : Store :=
  ⟨[(dbFlag :: Reference.bytes.encode [], [1]),
    (dbTimestampindex :: Reference.timestampIndexKey.encode ⟨1, Blob.fill 32 1⟩, Reference.int.encode 0),
    (dbTimestampindex :: Reference.timestampIndexKey.encode ⟨3, Blob.fill 32 2⟩, Reference.int.encode 0),
    (dbTimestampindex :: Reference.timestampIndexKey.encode ⟨5, Blob.fill 32 3⟩, Reference.int.encode 0),
    (dbAddressunspentindex :: Reference.addressUnspentKey.encode unspentKeyType1, Reference.int.encode 5)],
    by decide⟩

/-- A `mapBlockIndex` with a node for each of the example store's three blocks. -/
def timestampNodes : BlockMap :=
  ((BlockMap.empty.setNode (Blob.fill 32 1) .default).setNode (Blob.fill 32 2) .default).setNode
    (Blob.fill 32 3) .default

/-- An active chain that holds the block `2…2` and no other. -/
def activeTimestampBlock (pindex : Option Uint256) : Bool := pindex = some (Blob.fill 32 2)

/-- `readTimestampIndex_window` on the example store, over the window `[1, 6)` that holds all three
of its blocks. Every block of the window has a node, so the premise of the `fActiveOnly` part
holds, and with the active chain holding the block `2…2` alone, `ReadTimestampIndex` with
`fActiveOnly` keeps that block's record and drops the other two.
-/
theorem readTimestampIndex_window_timestampStore
    : TimestampRecords Reference.timestampKeyFormat timestampStore
      ∧ ReadsTimestampWindow Reference.timestampKeyFormat activeTimestampBlock timestampStore
          timestampNodes 6 1 []
      ∧ (∀ p ∈ timestampWindow Reference.timestampKeyFormat timestampStore 1 6,
          ∃ node, timestampNodes p.1 = some (some node))
      ∧ (readTimestampIndex Reference.timestampKeyFormat activeTimestampBlock timestampStore
          timestampNodes 6 1 true []).2.1 = [(Blob.fill 32 2, 3)] := by
  have hdb : TimestampRecords Reference.timestampKeyFormat timestampStore := by
    intro e he hpre
    simp only [timestampStore, List.mem_cons, List.mem_singleton, List.not_mem_nil, or_false] at he
    rcases he with rfl | rfl | rfl | rfl | rfl
    · exact absurd hpre (by decide)
    · exact ⟨_, rfl⟩
    · exact ⟨_, rfl⟩
    · exact ⟨_, rfl⟩
    · exact absurd hpre (by decide)
  have window : timestampWindow Reference.timestampKeyFormat timestampStore 1 6
      = [(Blob.fill 32 1, 1), (Blob.fill 32 2, 3), (Blob.fill 32 3, 5)] := by decide
  have hnodes : ∀ p ∈ timestampWindow Reference.timestampKeyFormat timestampStore 1 6,
      ∃ node, timestampNodes p.1 = some (some node) := by
    rw [window]
    intro p hp
    simp only [List.mem_cons, List.mem_singleton, List.not_mem_nil, or_false] at hp
    rcases hp with rfl | rfl | rfl <;> exact ⟨_, rfl⟩
  have reads := readTimestampIndex_window _ activeTimestampBlock hdb timestampNodes 6 1 []
  refine ⟨hdb, reads, hnodes, ?_⟩
  rw [reads.active hnodes, window]
  decide

end Txdb
