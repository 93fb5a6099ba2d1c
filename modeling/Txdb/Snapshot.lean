import Txdb.BlockTreeWrites
import Txdb.IndexScan
import Txdb.CoinsStats

/-! `CBlockTreeDB::Snapshot`: a backward pass over the whole block-tree store that sums the
address-unspent records per address, leaves out the addresses of its ignore list, sorts the
balances from the largest down, and reports the first `top` of them with counters.

The report's `start_time`, `start_height` and `ending_height` come from the clock and the active
chain, and its `average` and the amounts it prints are `double`s formatted from the integer
amounts modelled here.
-/

namespace Txdb

-----------------------------------------------------------------------------------------
-- Reading keys
-----------------------------------------------------------------------------------------

/-- Modelled from the spec: reading the rest of a key as a `CAddressIndexIteratorKey`, as
`Snapshot` does with every key after its type byte (addressindex.h). The reading stops after the
address type and hash, so an address-unspent key reads as its address; it fails only on fewer
bytes than those, so the 32 bytes of a block hash always read.
-/
structure IteratorKeyReader (fmt : AddressUnspentKeyFormat) where
  read : Bytes → Option CAddressIndexIteratorKey
  read_key : ∀ k, read (fmt.key.encode k) = some ⟨k.type, k.hashBytes⟩
  read_hash : ∀ hash : Uint256, (read hash.data).isSome

/-- The addresses `Snapshot` leaves out, as its `ignoredMap` lists them, one of them twice. -/
def ignoredMap : List String :=
  ["RReUxSs5hGE39ELU23DfydX8riUuzdrHAE",
   "RMUF3UDmzWFLSKV82iFbMaqzJpUnrWjcT4",
   "RA5imhVyJa7yHhggmBytWuDr923j2P1bxx",
   "RBM5LofZFodMeewUzoMWcxedm3L3hYRaWg",
   "RAdcko2d94TQUcJhtFHZZjMyWBKEVfgn4J",
   "RLzUaZ934k2EFCsAiVjrJqM8uU1vmMRFzk",
   "RMSZMWZXv4FhUgWhEo4R3AQXmRDJ6rsGyt",
   "RUDrX1v5toCsJMUgtvBmScKjwCB5NaR8py",
   "RMSZMWZXv4FhUgWhEo4R3AQXmRDJ6rsGyt",
   "RRvwmbkxR5YRzPGL5kMFHMe1AH33MeD8rN",
   "RQLQvSgpPAJNPgnpc8MrYsbBhep95nCS8L",
   "RK8JtBV78HdvEPvtV5ckeMPSTojZPzHUTe",
   "RHVs2KaCTGUMNv3cyWiG1jkEvZjigbCnD2",
   "RE3SVaDgdjkRPYA6TRobbthsfCmxQedVgF",
   "RW6S5Lw5ZCCvDyq4QV9vVy7jDHfnynr5mn",
   "RTkJwAYtdXXhVsS3JXBAJPnKaBfMDEswF8",
   "RD6GgnrMpPaTSMn8vai6yiGA7mN4QGPVMY"]

-----------------------------------------------------------------------------------------
-- The map of balances
-----------------------------------------------------------------------------------------

/-- `addressAmounts[address] = nValue` for an address the `std::map` does not hold yet: the map
keeps its keys in increasing `std::string` order, character by character.
-/
def amountsInsert (address : String) (nValue : Int) : List (String × Int) → List (String × Int)
  | [] => [(address, nValue)]
  | p :: m =>
      if address.data < p.1.data then (address, nValue) :: p :: m
      else p :: amountsInsert address nValue m

/-- `addressAmounts[address] += nValue`, once the sum `amount` is known: the address's entry takes
it.
-/
def amountsSet (address : String) (amount : Int) (m : List (String × Int)) : List (String × Int) :=
  m.map fun p => if p.1 = address then (address, amount) else p

section Amounts

variable {address : String} {m : List (String × Int)}

/-- Inserting holds the new entry and the old ones. -/
theorem perm_amountsInsert (address : String) (nValue : Int) (m : List (String × Int))
    : (amountsInsert address nValue m).Perm ((address, nValue) :: m) := by
  induction m with
  | nil => rfl
  | cons p m ih =>
      unfold amountsInsert
      split_ifs
      · rfl
      · exact (ih.cons p).trans (.swap _ _ _)

@[simp] theorem map_fst_amountsSet (amount : Int) (m : List (String × Int))
    : (amountsSet address amount m).map (·.1) = m.map (·.1) := by
  simp only [amountsSet, List.map_map]
  exact List.map_congr_left fun p _ => by by_cases h : p.1 = address <;> simp [h]

/-- The entries after an update: the address with its new amount, and the others unchanged. -/
theorem mem_amountsSet {amount : Int} (ha : address ∈ m.map (·.1)) {b : String} {y : Int}
    : (b, y) ∈ amountsSet address amount m ↔ b = address ∧ y = amount ∨ b ≠ address ∧ (b, y) ∈ m := by
  obtain ⟨q, hq, rfl⟩ := List.mem_map.mp ha
  simp only [amountsSet, List.mem_map]
  constructor
  · rintro ⟨p, hp, he⟩
    by_cases h : p.1 = q.1
    · simp only [h, if_true, Prod.mk.injEq] at he
      exact .inl ⟨he.1.symm, he.2.symm⟩
    · rw [if_neg h] at he
      subst he
      exact .inr ⟨h, hp⟩
  · rintro (⟨rfl, rfl⟩ | ⟨hb, hp⟩)
    · exact ⟨q, hq, if_pos rfl⟩
    · exact ⟨(b, y), hp, if_neg hb⟩

/-- With one entry per address, an update replaces the address's amount in the sum. -/
theorem sum_amountsSet {old amount : Int} (hm : (m.map (·.1)).Nodup) (hold : (address, old) ∈ m)
    : ((amountsSet address amount m).map (·.2)).sum = (m.map (·.2)).sum - old + amount := by
  induction m with
  | nil => exact absurd hold (List.not_mem_nil _)
  | cons p m ih =>
      obtain ⟨hp, hm⟩ := List.nodup_cons.mp hm
      by_cases h : p.1 = address
      · have same : amountsSet address amount m = m :=
          List.map_congr_left (fun q hq => if_neg fun hq' => hp (by
            simp only [h, ← hq']
            exact List.mem_map_of_mem _ hq)) |>.trans (List.map_id m)
        have hp' : p = (address, old) := by
          rcases List.mem_cons.mp hold with hold | hold
          · exact hold.symm
          · exact absurd (List.mem_map_of_mem (·.1) hold) (h ▸ hp)
        subst hp'
        simp only [amountsSet, List.map_cons, if_true, List.sum_cons] at same ⊢
        rw [same]
        omega
      · have hold' : (address, old) ∈ m :=
          (List.mem_cons.mp hold).resolve_left fun e => h (e ▸ rfl)
        simp only [amountsSet, List.map_cons, if_neg h, List.sum_cons] at ih ⊢
        rw [ih hm hold']
        omega

/-- `addressAmounts.find(address)` finds nothing exactly when the map holds no entry for it. -/
theorem lookup_eq_none_iff : m.lookup address = none ↔ address ∉ m.map (·.1) := by
  induction m with
  | nil => exact iff_of_true rfl (List.not_mem_nil _)
  | cons p m ih =>
      obtain ⟨b, y⟩ := p
      by_cases h : address = b
      · subst h
        simp [List.lookup]
      · have hb : (address == b) = false := beq_false_of_ne h
        simp only [List.lookup, hb, ih, List.map_cons, List.mem_cons, not_or]
        exact (and_iff_right h).symm

/-- What `addressAmounts.find(address)` finds is the address's entry. -/
theorem mem_of_lookup_eq_some {x : Int} (h : m.lookup address = some x) : (address, x) ∈ m := by
  induction m with
  | nil => simp [List.lookup] at h
  | cons p m ih =>
      obtain ⟨b, y⟩ := p
      by_cases hb : address = b
      · subst hb
        simp only [List.lookup, beq_self_eq_true, Option.some.injEq] at h
        exact h ▸ List.mem_cons_self _ _
      · have hb' : (address == b) = false := by simp [hb]
        simp only [List.lookup, hb'] at h
        exact List.mem_cons_of_mem _ (ih h)

end Amounts

-----------------------------------------------------------------------------------------
-- The loop
-----------------------------------------------------------------------------------------

/-- The state `Snapshot` threads through its loop: the last address read, the `std::map` of
balances, and the three counters. `ignoredAddresses` is declared without an initialiser, so its
first value is whatever the stack held.
-/
structure SnapshotLoop where
  address : String
  addressAmounts : List (String × Int)
  totalAddresses : Int
  utxos : Int
  ignoredAddresses : Int
  deriving DecidableEq

/-- The body of the `DB_ADDRESSUNSPENTINDEX` branch once the value has read as `nValue` and
`address` holds the record's address: an ignored address is counted and passed over; a new one is
inserted and counted; a known one has `nValue` added to its balance, which is undefined behaviour
when the `CAmount` sum overflows.
-/
def SnapshotLoop.tally (st : SnapshotLoop) (address : String) (nValue : Int)
    : ScanStep Empty × SnapshotLoop :=
  if address ∈ ignoredMap then
    (.skip, { st with address := address, ignoredAddresses := st.ignoredAddresses + 1 })
  else
    match st.addressAmounts.lookup address with
    | none =>
        (.skip,
          { st with
            address := address
            addressAmounts := amountsInsert address nValue st.addressAmounts
            totalAddresses := st.totalAddresses + 1
            utxos := st.utxos + 1 })
    | some old =>
        match CAmount.add old nValue with
        | some amount =>
            (.skip,
              { st with
                address := address
                addressAmounts := amountsSet address amount st.addressAmounts
                utxos := st.utxos + 1 })
        | none => (.abort, st)

section Loop

variable {fmt : AddressUnspentKeyFormat} (reader : IteratorKeyReader fmt) (amount : Codec Int)
  (getAddressFromIndex : Nat → Uint160 → Option String)

/-- One iteration of the loop of `CBlockTreeDB::Snapshot`. A key without a type byte, or whose
rest does not read as an iterator key, throws and ends the loop; an address-unspent record whose
value does not read as a `CAmount` ends it too; any other record is passed over. On an
address-unspent record, `getAddressFromIndex` writes the address, or leaves the last one in place
when it fails.
-/
def snapshotStep (st : SnapshotLoop) (e : Entry) : ScanStep Empty × SnapshotLoop :=
  match e.1 with
  | [] => (.stop, st)
  | chType :: rest =>
      match reader.read rest with
      | none => (.stop, st)
      | some indexKey =>
          if chType = dbAddressunspentindex then
            match amount.decode e.2 with
            | some (nValue, _) =>
                st.tally ((getAddressFromIndex indexKey.type indexKey.hashBytes).getD st.address)
                  nValue
            | none => (.stop, st)
          else (.skip, st)

end Loop

-----------------------------------------------------------------------------------------
-- Sorting and emitting
-----------------------------------------------------------------------------------------

/-- `operator<` of `std::pair<CAmount, std::string>`: by amount, then by address, `std::string`
comparing character by character.
-/
def pairLt (p q : Int × String) : Bool := decide (toLex (p.1, p.2.data) < toLex (q.1, q.2.data))

/-- The order `std::sort(vaddr.rbegin(), vaddr.rend())` leaves `vaddr` in: no pair stands before a
larger one.
-/
def NotBelow (p q : Int × String) : Prop := pairLt p q = false

instance : DecidableRel NotBelow := fun p q => inferInstanceAs (Decidable (pairLt p q = false))

/-- `std::sort(vaddr.rbegin(), vaddr.rend())`: `vaddr` from the largest pair down. The pair order
is total and antisymmetric, so every sort gives the same list; it is computed here by insertion.
-/
def sortDescending (vaddr : List (Int × String)) : List (Int × String) := vaddr.insertionSort NotBelow

/-- Not standing before means being at or above in the order of (amount, characters). -/
theorem notBelow_iff {p q : Int × String}
    : NotBelow p q ↔ toLex (q.1, q.2.data) ≤ toLex (p.1, p.2.data) := by
  simp [NotBelow, pairLt]

instance : IsTotal (Int × String) NotBelow :=
  ⟨fun p q => (le_total (toLex (q.1, q.2.data)) (toLex (p.1, p.2.data))).imp notBelow_iff.mpr
    notBelow_iff.mpr⟩

instance : IsTrans (Int × String) NotBelow :=
  ⟨fun _ _ _ hpq hqr => notBelow_iff.mpr ((notBelow_iff.mp hqr).trans (notBelow_iff.mp hpq))⟩

instance : IsAntisymm (Int × String) NotBelow :=
  ⟨fun _ _ hpq hqp => by
    have same := Prod.mk.inj (toLex.injective (le_antisymm (notBelow_iff.mp hqp) (notBelow_iff.mp hpq)))
    exact Prod.ext same.1 (String.ext same.2)⟩

theorem sortDescending_perm (vaddr : List (Int × String)) : (sortDescending vaddr).Perm vaddr :=
  List.perm_insertionSort _ _

/-- The sorted list has no pair before a larger one. -/
theorem sorted_sortDescending (vaddr : List (Int × String)) : (sortDescending vaddr).Sorted NotBelow :=
  List.sorted_insertionSort _ _

/-- Lists of the same pairs sort to the same list: the sorted arrangement is unique. -/
theorem sortDescending_eq_of_perm {vaddr vaddr' : List (Int × String)} (h : vaddr.Perm vaddr')
    : sortDescending vaddr = sortDescending vaddr' :=
  List.eq_of_perm_of_sorted ((sortDescending_perm vaddr).trans (h.trans (sortDescending_perm vaddr').symm))
    (sorted_sortDescending vaddr) (sorted_sortDescending vaddr')

/-- The pairs the output loop emits from the count `topN` on: those up to the `top`-th, or all of
them when the count never reaches `top`.
-/
def takeTop (top topN : Int) (vaddr : List (Int × String)) : List (Int × String) :=
  if topN < top then vaddr.take (top - topN).toNat else vaddr

/-- A pair that does not reach `top` is emitted before those that follow. -/
theorem takeTop_cons {top topN : Int} (hb : top ≠ topN + 1) (it : Int × String)
    (rest : List (Int × String))
    : takeTop top topN (it :: rest) = it :: takeTop top (topN + 1) rest := by
  unfold takeTop
  by_cases h : topN < top
  · rw [if_pos h, if_pos (by omega), show (top - topN).toNat = (top - (topN + 1)).toNat + 1 by omega]
    rfl
  · rw [if_neg h, if_neg (by omega)]

/-- The loop over `vaddr` that fills `addressesSorted`: each pair is emitted and its amount added
to `total` (undefined behaviour when the `int64_t` sum overflows), and the loop breaks once `topN`
reaches `top`. It returns the pairs emitted and `total`.
-/
def emitAddresses (top : Int) : List (Int × String) → Int → Int → Option (List (Int × String) × Int)
  | [], _, total => some ([], total)
  | it :: rest, topN, total =>
      match CAmount.add total it.1 with
      | none => none
      | some total =>
          if top = topN + 1 then some ([it], total)
          else (emitAddresses top rest (topN + 1) total).map fun r => (it :: r.1, r.2)

/-- Over pairs with non-negative amounts whose sum, with `total`, stays below `2^63`, the output
loop emits `takeTop` of them and adds their amounts to `total`. Witness: induction on the pairs.
-/
theorem emitAddresses_eq (top : Int) {vaddr : List (Int × String)} (hvalues : ∀ p ∈ vaddr, 0 ≤ p.1)
    {topN total : Int} (htotal : 0 ≤ total) (hfit : total + (vaddr.map (·.1)).sum < 2 ^ 63)
    : emitAddresses top vaddr topN total
      = some (takeTop top topN vaddr, total + ((takeTop top topN vaddr).map (·.1)).sum) := by
  induction vaddr generalizing topN total with
  | nil => unfold takeTop; split_ifs <;> simp [emitAddresses]
  | cons it rest ih =>
      have hit := hvalues it (List.mem_cons_self _ _)
      have hrest : 0 ≤ (rest.map (·.1)).sum :=
        List.sum_nonneg fun x hx => by
          obtain ⟨p, hp, rfl⟩ := List.mem_map.mp hx
          exact hvalues p (List.mem_cons_of_mem _ hp)
      simp only [List.map_cons, List.sum_cons] at hfit
      simp only [emitAddresses, CAmount.add_of_nonneg htotal hit (by omega)]
      by_cases hb : top = topN + 1
      · simp [hb, takeTop]
      · rw [if_neg hb, ih (fun p hp => hvalues p (List.mem_cons_of_mem _ hp)) (by omega) (by omega),
          takeTop_cons hb]
        simp only [Option.map_some', List.map_cons, List.sum_cons]
        congr 2
        omega

/-- What `Snapshot` reports of the store: `addresses` and `total`, pushed together when
`totalAddresses > 0`, and the three counters.
-/
structure SnapshotResult where
  addresses : Option (List (Int × String) × Int)
  utxos : Int
  totalAddresses : Int
  ignoredAddresses : Int
  deriving DecidableEq

/-- What `Snapshot` returns once its loop has ended in `st`: `vaddr` sorted from the largest pair
down, the first `top` pairs emitted (all of them when `top` is never reached), and
`totalAddresses` replaced by `top` when `top` is not zero.
-/
def snapshotResult (top : Int) (st : SnapshotLoop) : Option SnapshotResult :=
  let vaddr := sortDescending (st.addressAmounts.map fun p => (p.2, p.1))
  match emitAddresses top vaddr 0 0 with
  | none => none
  | some (addressesSorted, total) =>
      let totalAddresses := if top ≠ 0 then top else st.totalAddresses
      some
        { addresses := if 0 < totalAddresses then some (addressesSorted, total) else none
          utxos := st.utxos
          totalAddresses := totalAddresses
          ignoredAddresses := st.ignoredAddresses }

/-- `CBlockTreeDB::Snapshot(top)`: the loop from `SeekToLast()` through `Prev()`, over the store's
records from the last key down, from an empty map, zero counters, and `ignoredAddresses` at the
value it starts from; `none` is undefined behaviour.
-/
def snapshot {fmt : AddressUnspentKeyFormat} (reader : IteratorKeyReader fmt) (amount : Codec Int)
    (getAddressFromIndex : Nat → Uint160 → Option String) (ignoredAddresses : Int) (db : Store)
    (top : Int) : Option SnapshotResult :=
  let r := scan (snapshotStep reader amount getAddressFromIndex) ⟨"", [], 0, 0, ignoredAddresses⟩
    db.entries.reverse
  match r.1 with
  | none => none
  | some _ => snapshotResult top r.2.2

-----------------------------------------------------------------------------------------
-- What Snapshot reports
-----------------------------------------------------------------------------------------

section Records

variable (fmt : AddressUnspentKeyFormat) (amount : Codec Int)
  (getAddressFromIndex : Nat → Uint160 → Option String)

/-- The address and the amount of an address-unspent record: the address `getAddressFromIndex`
gives its key's type and hash, and the `CAmount` its value starts with.
-/
def unspentAmountOf (e : Entry) : Option (String × Int) :=
  (indexKeyOf fmt.key dbAddressunspentindex e).bind fun k =>
    (getAddressFromIndex k.type k.hashBytes).bind fun address =>
      (amount.decode e.2).map fun p => (address, p.1)

/-- The address-unspent records of a store, as addresses and amounts, in key order. -/
def unspentAmounts (db : Store) : List (String × Int) :=
  db.entries.filterMap (unspentAmountOf fmt amount getAddressFromIndex)

end Records

/-- The addresses a snapshot of the records `R` counts: those not ignored, each once. -/
def snapshotAddresses (R : List (String × Int)) : List String :=
  ((R.map (·.1)).filter fun a => a ∉ ignoredMap).dedup

/-- The balance of an address: the sum of the amounts of its records. -/
def balanceOf (R : List (String × Int)) (address : String) : Int :=
  ((R.filter fun r => r.1 = address).map (·.2)).sum

/-- The sum of the amounts of the records whose address is not ignored. -/
def countedTotal (R : List (String × Int)) : Int :=
  ((R.filter fun r => r.1 ∉ ignoredMap).map (·.2)).sum

/-- The counted addresses with their balances, from the largest (balance, address) pair down. -/
def snapshotBalances (R : List (String × Int)) : List (Int × String) :=
  sortDescending ((snapshotAddresses R).map fun a => (balanceOf R a, a))

/-- What `Snapshot` reports of the address-unspent records `R`: the first `top` balances when `top`
is positive and all of them otherwise, with their sum, reported when `totalAddresses` is positive;
`totalAddresses` is `top` when `top` is not zero and the number of counted addresses otherwise;
`utxos` counts the records of counted addresses, and `ignoredAddresses` adds the records of
ignored ones to the value it starts from.
-/
def snapshotOf (R : List (String × Int)) (ignoredAddresses top : Int) : SnapshotResult :=
  let totalAddresses : Int := if top ≠ 0 then top else (snapshotAddresses R).length
  let emitted := if 0 < top then (snapshotBalances R).take top.toNat else snapshotBalances R
  { addresses := if 0 < totalAddresses then some (emitted, (emitted.map (·.1)).sum) else none
    utxos := (R.filter fun r => r.1 ∉ ignoredMap).length
    totalAddresses := totalAddresses
    ignoredAddresses := ignoredAddresses + (R.filter fun r => r.1 ∈ ignoredMap).length }

/-- What the snapshot theorems assume of a store: its address-unspent records all read, with an
address that `getAddressFromIndex` gives, and the amounts of counted addresses are non-negative
and sum below `2^63`, so that no `CAmount` sum overflows.
-/
structure SnapshotRecords (fmt : AddressUnspentKeyFormat) (amount : Codec Int)
    (getAddressFromIndex : Nat → Uint160 → Option String) (db : Store) : Prop where
  read : ∀ e ∈ db.entries, [dbAddressunspentindex] <+: e.1 →
    (unspentAmountOf fmt amount getAddressFromIndex e).isSome
  nonneg : ∀ r ∈ unspentAmounts fmt amount getAddressFromIndex db, r.1 ∉ ignoredMap → 0 ≤ r.2
  fits : countedTotal (unspentAmounts fmt amount getAddressFromIndex db) < 2 ^ 63

section Spec

variable {R R' : List (String × Int)}

@[simp] theorem mem_snapshotAddresses {a : String}
    : a ∈ snapshotAddresses R ↔ a ∈ R.map (·.1) ∧ a ∉ ignoredMap := by
  simp [snapshotAddresses]

@[simp] theorem balanceOf_nil (a : String) : balanceOf [] a = 0 := rfl

@[simp] theorem balanceOf_append (R R' : List (String × Int)) (a : String)
    : balanceOf (R ++ R') a = balanceOf R a + balanceOf R' a := by
  simp [balanceOf]

@[simp] theorem balanceOf_singleton (b : String) (x : Int) (a : String)
    : balanceOf [(b, x)] a = if b = a then x else 0 := by
  by_cases h : b = a <;> simp [balanceOf, h]

@[simp] theorem countedTotal_nil : countedTotal [] = 0 := rfl

@[simp] theorem countedTotal_append (R R' : List (String × Int))
    : countedTotal (R ++ R') = countedTotal R + countedTotal R' := by
  simp [countedTotal]

@[simp] theorem countedTotal_singleton (b : String) (x : Int)
    : countedTotal [(b, x)] = if b ∈ ignoredMap then 0 else x := by
  by_cases h : b ∈ ignoredMap <;> simp [countedTotal, h]

@[simp] theorem countedTotal_reverse (R : List (String × Int))
    : countedTotal R.reverse = countedTotal R := by
  simp [countedTotal, List.filter_reverse, List.sum_reverse]

/-- An address no record names has balance zero. -/
theorem balanceOf_eq_zero {a : String} (h : a ∉ R.map (·.1)) : balanceOf R a = 0 := by
  rw [balanceOf, List.filter_eq_nil_iff.mpr fun r hr => by
    simp only [decide_eq_true_eq]
    rintro rfl
    exact h (List.mem_map_of_mem _ hr)]
  rfl

/-- With non-negative amounts, a balance is non-negative. -/
theorem balanceOf_nonneg {a : String} (h : ∀ r ∈ R, r.1 = a → 0 ≤ r.2) : 0 ≤ balanceOf R a :=
  List.sum_nonneg fun x hx => by
    obtain ⟨r, hr, rfl⟩ := List.mem_map.mp hx
    exact h r (List.mem_filter.mp hr).1 (by simpa using (List.mem_filter.mp hr).2)

/-- With non-negative counted amounts, the counted total is non-negative. -/
theorem countedTotal_nonneg (h : ∀ r ∈ R, r.1 ∉ ignoredMap → 0 ≤ r.2) : 0 ≤ countedTotal R :=
  List.sum_nonneg fun x hx => by
    obtain ⟨r, hr, rfl⟩ := List.mem_map.mp hx
    exact h r (List.mem_filter.mp hr).1 (by simpa using (List.mem_filter.mp hr).2)

/-- With non-negative counted amounts, the balance of a counted address is at most the counted
total. Witness: induction on the records.
-/
theorem balanceOf_le_countedTotal {a : String} (ha : a ∉ ignoredMap)
    (h : ∀ r ∈ R, r.1 ∉ ignoredMap → 0 ≤ r.2)
    : balanceOf R a ≤ countedTotal R := by
  induction R with
  | nil => exact le_refl _
  | cons r R ih =>
      have here := h r (List.mem_cons_self _ _)
      have later := ih fun r' hr' => h r' (List.mem_cons_of_mem _ hr')
      rw [← List.singleton_append, balanceOf_append, countedTotal_append]
      obtain ⟨b, x⟩ := r
      by_cases hb : b = a
      · subst hb
        simp only [balanceOf_singleton, countedTotal_singleton, if_true, if_neg ha]
        omega
      · by_cases hi : b ∈ ignoredMap
        · simp only [balanceOf_singleton, countedTotal_singleton, if_neg hb, if_pos hi]
          omega
        · simp only [balanceOf_singleton, countedTotal_singleton, if_neg hb, if_neg hi]
          have := here hi
          omega

/-- A record of `a` leaves another address's membership and balance as they were. -/
theorem counted_append_of_ne {a b : String} (x : Int) (hb : b ≠ a) (y : Int)
    : (b ∈ snapshotAddresses (R ++ [(a, x)]) ∧ y = balanceOf (R ++ [(a, x)]) b)
      ↔ (b ∈ snapshotAddresses R ∧ y = balanceOf R b) := by
  simp [hb, Ne.symm hb]

theorem snapshotAddresses_perm (h : R.Perm R') : (snapshotAddresses R).Perm (snapshotAddresses R') :=
  ((h.map _).filter _).dedup

theorem balanceOf_perm (h : R.Perm R') (a : String) : balanceOf R a = balanceOf R' a :=
  ((h.filter _).map _).sum_eq

/-- The balances a snapshot reports do not depend on the order of the records. -/
theorem snapshotBalances_perm (h : R.Perm R') : snapshotBalances R = snapshotBalances R' := by
  unfold snapshotBalances
  rw [funext (balanceOf_perm h)]
  exact sortDescending_eq_of_perm ((snapshotAddresses_perm h).map _)

/-- The balances run from the largest (balance, address) pair down. -/
theorem sorted_snapshotBalances (R : List (String × Int)) : (snapshotBalances R).Sorted NotBelow :=
  sorted_sortDescending _

/-- The balances are those of the counted addresses: an address of some record, off the ignore
list, with the sum of its records' amounts.
-/
theorem mem_snapshotBalances {p : Int × String}
    : p ∈ snapshotBalances R ↔ p.2 ∈ R.map (·.1) ∧ p.2 ∉ ignoredMap ∧ p.1 = balanceOf R p.2 := by
  rw [snapshotBalances, (sortDescending_perm _).mem_iff, List.mem_map]
  constructor
  · rintro ⟨a, ha, rfl⟩
    exact ⟨(mem_snapshotAddresses.mp ha).1, (mem_snapshotAddresses.mp ha).2, rfl⟩
  · rintro ⟨h, hi, hp⟩
    exact ⟨p.2, mem_snapshotAddresses.mpr ⟨h, hi⟩, Prod.ext hp.symm rfl⟩

/-- Each address appears once among the balances. -/
theorem nodup_snapshotBalances (R : List (String × Int)) : ((snapshotBalances R).map (·.2)).Nodup := by
  rw [snapshotBalances, ((sortDescending_perm _).map _).nodup_iff, List.map_map,
    show ((·.2) ∘ fun a => (balanceOf R a, a)) = id from rfl, List.map_id]
  exact List.nodup_dedup _

/-- What a snapshot reports does not depend on the order of the records. -/
theorem snapshotOf_perm (h : R.Perm R') (ignoredAddresses top : Int)
    : snapshotOf R ignoredAddresses top = snapshotOf R' ignoredAddresses top := by
  simp only [snapshotOf, snapshotBalances_perm h, (snapshotAddresses_perm h).length_eq,
    (h.filter _).length_eq]

end Spec

-----------------------------------------------------------------------------------------
-- The loop's invariant
-----------------------------------------------------------------------------------------

/-- The loop's state after the address-unspent records `L`, from `ignoredAddresses = v`: the map
holds each counted address of `L` once, with its balance, and the amounts sum to the counted total;
`totalAddresses` is the number of entries; `utxos` counts the records of counted addresses, and
`ignoredAddresses` adds those of ignored ones to `v`.
-/
structure SnapshotLoop.Holds (L : List (String × Int)) (v : Int) (st : SnapshotLoop) : Prop where
  nodup : (st.addressAmounts.map (·.1)).Nodup
  mem_iff : ∀ a x, (a, x) ∈ st.addressAmounts ↔ a ∈ snapshotAddresses L ∧ x = balanceOf L a
  sum_eq : (st.addressAmounts.map (·.2)).sum = countedTotal L
  totalAddresses_eq : st.totalAddresses = st.addressAmounts.length
  utxos_eq : st.utxos = (L.filter fun r => r.1 ∉ ignoredMap).length
  ignoredAddresses_eq : st.ignoredAddresses = v + (L.filter fun r => r.1 ∈ ignoredMap).length

/-- The state the loop starts from holds for no records. -/
theorem SnapshotLoop.holds_start (v : Int) : SnapshotLoop.Holds [] v ⟨"", [], 0, 0, v⟩ :=
  ⟨List.nodup_nil, fun a x => by simp, rfl, rfl, rfl, by simp⟩

/-- One address-unspent record `(a, x)` takes the state of `L` to that of `L ++ [(a, x)]`, when a
counted record's amount is non-negative and the address's new balance stays below `2^63`.
Witness: the three branches of `tally`.
-/
theorem SnapshotLoop.Holds.tally {L : List (String × Int)} {v : Int} {st : SnapshotLoop}
    (hst : st.Holds L v) {a : String} {x : Int}
    (hfit : a ∉ ignoredMap → 0 ≤ x ∧ 0 ≤ balanceOf L a ∧ balanceOf L a + x < 2 ^ 63)
    : ∃ st', st.tally a x = (.skip, st') ∧ st'.Holds (L ++ [(a, x)]) v := by
  unfold SnapshotLoop.tally
  by_cases hi : a ∈ ignoredMap
  · refine ⟨_, if_pos hi, hst.nodup, fun b y => ?_, ?_, hst.totalAddresses_eq, ?_, ?_⟩
    · rw [hst.mem_iff]
      by_cases hb : b = a
      · subst hb
        exact iff_of_false (fun h => (mem_snapshotAddresses.mp h.1).2 hi)
          (fun h => (mem_snapshotAddresses.mp h.1).2 hi)
      · rw [counted_append_of_ne x hb y]
    · simp [hst.sum_eq, hi]
    · simp [hst.utxos_eq, hi]
    · simp [hst.ignoredAddresses_eq, hi, add_assoc]
  rw [if_neg hi]
  cases hl : st.addressAmounts.lookup a with
  | none =>
      have hnew : a ∉ st.addressAmounts.map (·.1) := lookup_eq_none_iff.mp hl
      have hL : a ∉ L.map (·.1) := fun h => hnew (List.mem_map_of_mem (·.1)
        ((hst.mem_iff a _).mpr ⟨mem_snapshotAddresses.mpr ⟨h, hi⟩, rfl⟩))
      have hperm := perm_amountsInsert a x st.addressAmounts
      refine ⟨_, rfl, (hperm.map _).nodup_iff.mpr (List.nodup_cons.mpr ⟨hnew, hst.nodup⟩),
        fun b y => ?_, ?_, ?_, ?_, ?_⟩
      · rw [hperm.mem_iff, List.mem_cons, hst.mem_iff]
        by_cases hb : b = a
        · subst hb
          simp only [mem_snapshotAddresses] at hL ⊢
          simp [balanceOf_eq_zero hL, hL, hi]
        · rw [counted_append_of_ne x hb y, or_iff_right fun h => hb (Prod.mk.inj h).1]
      · simp [(hperm.map _).sum_eq, hst.sum_eq, hi, add_comm]
      · simp [hst.totalAddresses_eq, hperm.length_eq]
      · simp [hst.utxos_eq, hi]
      · simp [hst.ignoredAddresses_eq, hi]
  | some old =>
      have hold := mem_of_lookup_eq_some hl
      obtain ⟨-, rfl⟩ := (hst.mem_iff a old).mp hold
      obtain ⟨hx, hbal, hlt⟩ := hfit hi
      have hkey : a ∈ st.addressAmounts.map (·.1) := List.mem_map_of_mem (·.1) hold
      simp only [CAmount.add_of_nonneg hbal hx hlt]
      refine ⟨_, rfl, by simpa using hst.nodup, fun b y => ?_, ?_,
        by simp [hst.totalAddresses_eq, amountsSet], ?_, ?_⟩
      · rw [mem_amountsSet hkey, hst.mem_iff]
        by_cases hb : b = a
        · subst hb
          simp [hi, (mem_snapshotAddresses.mp ((hst.mem_iff b _).mp hold).1).1]
        · rw [counted_append_of_ne x hb y, or_iff_right fun h => hb h.1, and_iff_right hb]
      · rw [sum_amountsSet hst.nodup hold, hst.sum_eq]
        simp [hi]
        omega
      · simp [hst.utxos_eq, hi]
      · simp [hst.ignoredAddresses_eq, hi]

-----------------------------------------------------------------------------------------
-- One step
-----------------------------------------------------------------------------------------

section Steps

variable {fmt : AddressUnspentKeyFormat} (reader : IteratorKeyReader fmt) (amount : Codec Int)
  (getAddressFromIndex : Nat → Uint160 → Option String)

/-- A record whose key does not start with `DB_ADDRESSUNSPENTINDEX` is passed over or ends the loop,
and leaves the state alone.
-/
theorem snapshotStep_of_not_prefix {e : Entry} (h : ¬[dbAddressunspentindex] <+: e.1)
    (st : SnapshotLoop)
    : snapshotStep reader amount getAddressFromIndex st e = (.skip, st)
      ∨ snapshotStep reader amount getAddressFromIndex st e = (.stop, st) := by
  unfold snapshotStep
  split
  · exact .inr rfl
  · rename_i chType rest hkey
    split
    · exact .inr rfl
    · rw [if_neg fun hc => h (by rw [hkey, hc]; exact ⟨rest, rfl⟩)]
      exact .inl rfl

/-- A block-hash-index record is passed over: its 32 bytes read as an iterator key, and its tag
is not `DB_ADDRESSUNSPENTINDEX`.
-/
theorem snapshotStep_hash (hash : Uint256) (value : Bytes) (st : SnapshotLoop)
    : snapshotStep reader amount getAddressFromIndex st (hashKey dbBlockhashindex hash, value)
      = (.skip, st) := by
  obtain ⟨k, hk⟩ := Option.isSome_iff_exists.mp (reader.read_hash hash)
  simp only [snapshotStep, hashKey_eq, hk]
  exact if_neg (by decide)

/-- An address-unspent record whose address and amount read is tallied. -/
theorem snapshotStep_unspent {k : CAddressUnspentKey} {value : Bytes} {a : String} {x : Int}
    (h : unspentAmountOf fmt amount getAddressFromIndex
      (dbAddressunspentindex :: fmt.key.encode k, value) = some (a, x))
    (st : SnapshotLoop)
    : snapshotStep reader amount getAddressFromIndex st
        (dbAddressunspentindex :: fmt.key.encode k, value) = st.tally a x := by
  simp only [unspentAmountOf, indexKeyOf_record, Option.some_bind] at h
  obtain ⟨address, ha, h⟩ := Option.bind_eq_some.mp h
  obtain ⟨⟨nValue, rest⟩, hv, h⟩ := Option.map_eq_some'.mp h
  cases h
  simp only [snapshotStep, reader.read_key, if_true, hv, ha, Option.getD_some]

end Steps

-----------------------------------------------------------------------------------------
-- The run
-----------------------------------------------------------------------------------------

section Run

variable {fmt : AddressUnspentKeyFormat} (reader : IteratorKeyReader fmt) (amount : Codec Int)
  (getAddressFromIndex : Nat → Uint160 → Option String)

/-- Over address-unspent records whose addresses and amounts read, the loop tallies each record in
turn, when the counted amounts of the records before and of these are non-negative and sum below
`2^63`. Witness: induction on the records; a balance is at most the counted total.
-/
theorem scan_unspentRecords {run : List Entry}
    (hrun : ∀ e ∈ run, (∃ k, e.1 = dbAddressunspentindex :: fmt.key.encode k)
      ∧ (unspentAmountOf fmt amount getAddressFromIndex e).isSome)
    {L : List (String × Int)} {v : Int} {st : SnapshotLoop} (hst : st.Holds L v)
    (hvalues : ∀ r ∈ L ++ run.filterMap (unspentAmountOf fmt amount getAddressFromIndex),
      r.1 ∉ ignoredMap → 0 ≤ r.2)
    (hfit : countedTotal (L ++ run.filterMap (unspentAmountOf fmt amount getAddressFromIndex)) < 2 ^ 63)
    (rest : List Entry)
    : ∃ st', st'.Holds (L ++ run.filterMap (unspentAmountOf fmt amount getAddressFromIndex)) v
      ∧ scan (snapshotStep reader amount getAddressFromIndex) st (run ++ rest)
        = scan (snapshotStep reader amount getAddressFromIndex) st' rest := by
  induction run generalizing L st with
  | nil => exact ⟨st, by simpa using hst, rfl⟩
  | cons e run ih =>
      obtain ⟨⟨k, hk⟩, hsome⟩ := hrun e (List.mem_cons_self _ _)
      obtain ⟨⟨a, x⟩, hr⟩ := Option.isSome_iff_exists.mp hsome
      obtain ⟨key, value⟩ := e
      simp only at hk
      subst hk
      rw [List.filterMap_cons_some hr, List.append_cons] at hvalues hfit ⊢
      have hearlier : ∀ r ∈ L ++ [(a, x)], r.1 ∉ ignoredMap → 0 ≤ r.2 := fun r hr =>
        hvalues r (List.mem_append_left _ hr)
      have later := countedTotal_nonneg fun r hr => hvalues r (List.mem_append_right _ hr)
      obtain ⟨st', htally, hst'⟩ := hst.tally fun hi => by
        refine ⟨hearlier _ (List.mem_append_right _ (List.mem_singleton_self _)) hi,
          balanceOf_nonneg fun r hr hra => hearlier r (List.mem_append_left _ hr) (hra ▸ hi), ?_⟩
        have := balanceOf_le_countedTotal hi hearlier
        simp only [countedTotal_append, countedTotal_singleton, balanceOf_append, balanceOf_singleton,
          if_neg hi, if_pos rfl, ite_true] at this hfit ⊢
        omega
      have step := snapshotStep_unspent reader amount getAddressFromIndex hr st
      obtain ⟨st'', hst'', hscan⟩ :=
        ih (fun e he => hrun e (List.mem_cons_of_mem _ he)) hst' hvalues hfit
      refine ⟨st'', hst'', ?_⟩
      rw [List.cons_append, scan_cons_skip _ (by rw [step, htally]), step, htally]
      exact hscan

end Run

/-- From the state of the records `L`, with non-negative counted amounts summing below `2^63`, the
code after the loop reports `snapshotOf L`: the map's pairs sort to the balances, and the output
loop emits the first `top` of them.
-/
theorem SnapshotLoop.Holds.snapshotResult_eq {L : List (String × Int)} {v : Int} {st : SnapshotLoop}
    (hst : st.Holds L v) (hvalues : ∀ r ∈ L, r.1 ∉ ignoredMap → 0 ≤ r.2)
    (hfit : countedTotal L < 2 ^ 63) (top : Int)
    : snapshotResult top st = some (snapshotOf L v top) := by
  have hperm : st.addressAmounts.Perm ((snapshotAddresses L).map fun a => (a, balanceOf L a)) :=
    (List.perm_ext_iff_of_nodup (hst.nodup.of_map _)
      ((List.nodup_dedup _).map fun _ _ h => congrArg Prod.fst h)).mpr fun ⟨a, x⟩ => by
        rw [hst.mem_iff, List.mem_map]
        constructor
        · rintro ⟨ha, rfl⟩
          exact ⟨a, ha, rfl⟩
        · rintro ⟨b, hb, he⟩
          cases he
          exact ⟨hb, rfl⟩
  have hvaddr : sortDescending (st.addressAmounts.map fun p => (p.2, p.1)) = snapshotBalances L :=
    sortDescending_eq_of_perm (by simpa [List.map_map] using hperm.map fun p => (p.2, p.1))
  have hsum : ((snapshotBalances L).map (·.1)).sum = countedTotal L := by
    rw [← hvaddr, ((sortDescending_perm _).map _).sum_eq, List.map_map, ← hst.sum_eq]
    rfl
  have hnonneg : ∀ p ∈ snapshotBalances L, 0 ≤ p.1 := fun p hp => by
    obtain ⟨a, ha, rfl⟩ := List.mem_map.mp ((sortDescending_perm _).subset hp)
    exact balanceOf_nonneg fun r hr hra => hvalues r hr (hra ▸ (mem_snapshotAddresses.mp ha).2)
  simp only [snapshotResult, hvaddr, emitAddresses_eq top hnonneg (le_refl 0) (by rw [hsum]; omega)]
  simp [snapshotOf, takeTop, hst.totalAddresses_eq, hperm.length_eq, hst.utxos_eq,
    hst.ignoredAddresses_eq]

-----------------------------------------------------------------------------------------
-- The whole store
-----------------------------------------------------------------------------------------

section Store

variable {fmt : AddressUnspentKeyFormat} (reader : IteratorKeyReader fmt) (amount : Codec Int)
  (getAddressFromIndex : Nat → Uint160 → Option String)

/-- A record whose key does not start with `DB_ADDRESSUNSPENTINDEX` is no address-unspent record. -/
theorem unspentAmountOf_eq_none {e : Entry} (h : ¬[dbAddressunspentindex] <+: e.1)
    : unspentAmountOf fmt amount getAddressFromIndex e = none := by
  simp [unspentAmountOf, indexKeyOf_eq_none h]

/-- Take a store whose keys have the shapes the write calls leave and whose records are as
`SnapshotRecords` says. `Snapshot` reports `snapshotOf` its address-unspent records. Witness: from
the last key down, the cursor meets the block-hash records, which it passes over, then the
address-unspent records, which it tallies, then records it passes over or stops at.
-/
theorem snapshot_eq_snapshotOf {db : Store} (hkeys : ∀ e ∈ db.entries, BlockTreeKey fmt e.1)
    (hdb : SnapshotRecords fmt amount getAddressFromIndex db) (v top : Int)
    : snapshot reader amount getAddressFromIndex v db top
      = some (snapshotOf (unspentAmounts fmt amount getAddressFromIndex db) v top) := by
  obtain ⟨hrecords, hvalues, htotal⟩ := hdb
  have hsplit := Store.entries_eq_below_prefix_above db [dbAddressunspentindex]
  set below := db.entries.filter fun e => e.1 < [dbAddressunspentindex]
  set mid := db.entries.filter fun e => [dbAddressunspentindex] <+: e.1
  set above := (db.seek [dbAddressunspentindex]).filter fun e => ¬[dbAddressunspentindex] <+: e.1
  have hbelow : ∀ e ∈ below, ¬[dbAddressunspentindex] <+: e.1 := fun e he hp =>
    absurd (Bytes.le_of_prefix hp) (not_le.mpr (by simpa using (List.mem_filter.mp he).2))
  have habove : ∀ e ∈ above, ∃ hash, e.1 = hashKey dbBlockhashindex hash := fun e he => by
    obtain ⟨hseek, hnot⟩ := List.mem_filter.mp he
    obtain ⟨hmem, hle⟩ := Store.mem_seek.mp hseek
    rcases hkeys e hmem with ⟨k, hk⟩ | ⟨hash, hh⟩ | ⟨tag, rest, hk, htag⟩
    · exact absurd (show [dbAddressunspentindex] <+: e.1 by rw [hk]; exact ⟨_, rfl⟩)
        (by simpa using hnot)
    · exact ⟨hash, hh⟩
    · rw [hk, Bytes.cons_le_cons_iff] at hle
      rcases hle with hlt | ⟨heq, -⟩
      · exact absurd (hlt.trans htag) (lt_irrefl _)
      · exact absurd (heq ▸ htag) (lt_irrefl _)
  have hmid : ∀ e ∈ mid, (∃ k, e.1 = dbAddressunspentindex :: fmt.key.encode k)
      ∧ (unspentAmountOf fmt amount getAddressFromIndex e).isSome := fun e he => by
    obtain ⟨hmem, hp⟩ := List.mem_filter.mp he
    replace hp : [dbAddressunspentindex] <+: e.1 := by simpa using hp
    refine ⟨?_, hrecords e hmem hp⟩
    rcases hkeys e hmem with hk | ⟨hash, hh⟩ | ⟨tag, rest, hk, htag⟩
    · exact hk
    · rw [hh, hashKey_eq, List.cons_prefix_cons] at hp
      exact absurd hp.1 (by decide)
    · rw [hk, List.cons_prefix_cons] at hp
      exact absurd (hp.1 ▸ htag) (lt_irrefl _)
  have hrecords_eq : unspentAmounts fmt amount getAddressFromIndex db
      = mid.filterMap (unspentAmountOf fmt amount getAddressFromIndex) := by
    have none_below : below.filterMap (unspentAmountOf fmt amount getAddressFromIndex) = [] :=
      List.filterMap_eq_nil_iff.mpr fun e he =>
        unspentAmountOf_eq_none amount getAddressFromIndex (hbelow e he)
    have none_above : above.filterMap (unspentAmountOf fmt amount getAddressFromIndex) = [] :=
      List.filterMap_eq_nil_iff.mpr fun e he =>
        unspentAmountOf_eq_none amount getAddressFromIndex (by simpa using (List.mem_filter.mp he).2)
    rw [unspentAmounts, hsplit, List.filterMap_append, List.filterMap_append, none_below, none_above,
      List.nil_append, List.append_nil]
  rw [hrecords_eq] at hvalues htotal ⊢
  have hrun := scan_unspentRecords reader amount getAddressFromIndex
    (show ∀ e ∈ mid.reverse, _ from fun e he => hmid e (List.mem_reverse.mp he))
    (SnapshotLoop.holds_start v)
    (fun r hr => hvalues r (by rwa [List.nil_append, List.filterMap_reverse, List.mem_reverse] at hr))
    (by rwa [List.nil_append, List.filterMap_reverse, countedTotal_reverse]) below.reverse
  obtain ⟨st, hst, hscan⟩ := hrun
  unfold snapshot
  rw [hsplit, List.reverse_append, List.reverse_append,
    scan_append_of_skip _ fun e he => by
      obtain ⟨hash, hh⟩ := habove e (List.mem_reverse.mp he)
      obtain ⟨key, value⟩ := e
      simp only at hh
      subst hh
      exact snapshotStep_hash reader amount getAddressFromIndex hash value _,
    hscan, scan_of_skip_or_stop _ fun e he =>
      snapshotStep_of_not_prefix reader amount getAddressFromIndex (hbelow e (List.mem_reverse.mp he)) st]
  simp only [List.nil_append, List.filterMap_reverse] at hst
  show snapshotResult top st = _
  rw [hst.snapshotResult_eq (fun r hr => hvalues r (List.mem_reverse.mp hr))
    (by rwa [countedTotal_reverse]) top,
    snapshotOf_perm (List.reverse_perm _)]

end Store

-----------------------------------------------------------------------------------------
-- Stores written by the block-tree calls
-----------------------------------------------------------------------------------------

section Written

variable {CBlockFileInfo CDiskTxPos CSpentIndexKey CSpentIndexValue CAddressUnspentValue : Type}
  (f : BlockTreeFormat CBlockFileInfo CDiskTxPos CSpentIndexKey CSpentIndexValue CAddressUnspentValue)
  (reader : IteratorKeyReader f.addressUnspent) (getAddressFromIndex : Nat → Uint160 → Option String)
  (calls : List (BlockTreeWrite CBlockFileInfo CDiskTxPos CSpentIndexKey CSpentIndexValue
    CAddressUnspentValue))

/-- Take any block-tree store written through the write calls whose records are as
`SnapshotRecords` says, any value `ignoredAddresses` starts from, and any `top`.
`Snapshot` reports `snapshotOf` the store's address-unspent records: the balances of the addresses
off the ignore list, each once, from the largest (balance, address) pair down, cut at `top` when
`top` is positive, with their sum and the counters. Witness: the keys the calls leave
(`blockTreeKey_blockTreeWrites`) and `snapshot_eq_snapshotOf`.
-/
theorem snapshot_blockTreeWrites
    (hdb : SnapshotRecords f.addressUnspent f.amount getAddressFromIndex
      (blockTreeWrites f Store.empty calls))
    (ignoredAddresses top : Int)
    : snapshot reader f.amount getAddressFromIndex ignoredAddresses
        (blockTreeWrites f Store.empty calls) top
      = some (snapshotOf (unspentAmounts f.addressUnspent f.amount getAddressFromIndex
          (blockTreeWrites f Store.empty calls)) ignoredAddresses top) :=
  snapshot_eq_snapshotOf reader f.amount getAddressFromIndex
    (blockTreeKey_blockTreeWrites f (fun _ he => absurd he (List.not_mem_nil _)) calls)
    hdb ignoredAddresses top

/-- Take any such store and a negative `top`. `Snapshot` reports no addresses and no total,
whatever the store holds: `top` replaces `totalAddresses`, which then fails `totalAddresses > 0`.
-/
theorem snapshot_negativeTop
    (hdb : SnapshotRecords f.addressUnspent f.amount getAddressFromIndex
      (blockTreeWrites f Store.empty calls))
    (ignoredAddresses : Int) {top : Int} (htop : top < 0)
    : ∃ r, snapshot reader f.amount getAddressFromIndex ignoredAddresses
        (blockTreeWrites f Store.empty calls) top = some r
      ∧ r.addresses = none ∧ r.totalAddresses = top := by
  refine ⟨_, snapshot_eq_snapshotOf reader f.amount getAddressFromIndex
    (blockTreeKey_blockTreeWrites f (fun _ he => absurd he (List.not_mem_nil _)) calls)
    hdb ignoredAddresses top, ?_, ?_⟩ <;>
  simp [snapshotOf, htop.ne, not_lt.mpr htop.le]

/-- Take any such store and any `top`. The counters `Snapshot` reports are `top` for
`total_addresses` whenever `top` is not zero, and the number of counted addresses otherwise; the
number of records of counted addresses for `utxos`; and for `ignored_addresses`, the number of
records of ignored addresses added to the value the variable starts from.
-/
theorem snapshot_counters
    (hdb : SnapshotRecords f.addressUnspent f.amount getAddressFromIndex
      (blockTreeWrites f Store.empty calls))
    (ignoredAddresses top : Int)
    : ∃ r, snapshot reader f.amount getAddressFromIndex ignoredAddresses
        (blockTreeWrites f Store.empty calls) top = some r
      ∧ r.totalAddresses = (if top ≠ 0 then top else (snapshotAddresses (unspentAmounts
          f.addressUnspent f.amount getAddressFromIndex (blockTreeWrites f Store.empty calls))).length)
      ∧ r.utxos = ((unspentAmounts f.addressUnspent f.amount getAddressFromIndex
          (blockTreeWrites f Store.empty calls)).filter fun r => r.1 ∉ ignoredMap).length
      ∧ r.ignoredAddresses = ignoredAddresses + ((unspentAmounts f.addressUnspent f.amount
          getAddressFromIndex (blockTreeWrites f Store.empty calls)).filter fun r => r.1 ∈ ignoredMap).length :=
  ⟨_, snapshot_eq_snapshotOf reader f.amount getAddressFromIndex
    (blockTreeKey_blockTreeWrites f (fun _ he => absurd he (List.not_mem_nil _)) calls)
    hdb ignoredAddresses top, rfl, rfl, rfl⟩

end Written

-----------------------------------------------------------------------------------------
-- An example store
-----------------------------------------------------------------------------------------

namespace Reference

/-- A string, as the code points of its characters. -/
def string : Codec String :=
  Codec.map (list nat) (fun points => ⟨points.map Char.ofNat⟩) (fun s => s.data.map Char.toNat)
    fun s => by simp [Function.comp_def, Char.ofNat_toNat]

/-- A logical timestamp, as its number. -/
def timestampBlockIndexValue : Codec CTimestampBlockIndexValue :=
  Codec.map nat (fun n => ⟨n⟩) (·.ltimestamp) fun _ => rfl

/-- The reference serializations of the block-tree store: file infos, transaction positions and
spent-index records carry nothing, and an address-unspent value is its amount.
-/
def blockTreeFormat : BlockTreeFormat Unit Unit Unit Unit Int where
  int := int
  info := unit
  diskBlockIndex := diskBlockIndex
  pos := unit
  spentKey := unit
  spentValue := unit
  spentIsNull _ := false
  addressUnspent := addressUnspentKeyFormat
  unspentValue := int
  unspentIsNull satoshis := satoshis = -1
  addressIndex := addressIndexKeyFormat
  amount := int
  timestamp := timestampKeyFormat
  blockhashValue := timestampBlockIndexValue
  name := string

/-- A stand-in for reading an iterator key: the reference seek key the bytes start with, and on
bytes that start with none, the null hash of type 0 when there are 21 bytes or more.
-/
def readIteratorKey (bytes : Bytes) : Option CAddressIndexIteratorKey :=
  match iteratorKey.decode bytes with
  | some (p, _) => some p
  | none => if 21 ≤ bytes.length then some ⟨0, Blob.null 20⟩ else none

theorem readIteratorKey_append (p : CAddressIndexIteratorKey) (rest : Bytes)
    : readIteratorKey (iteratorKey.encode p ++ rest) = some p := by
  simp [readIteratorKey, Codec.decode_encode]

/-- The reference iterator-key reader. -/
def iteratorKeyReader : IteratorKeyReader addressUnspentKeyFormat where
  read := readIteratorKey
  read_key k := readIteratorKey_append ⟨k.type, k.hashBytes⟩ _
  read_hash hash := by
    unfold readIteratorKey
    split
    · rfl
    · simp [hash.size_eq]

/-- A stand-in for `getAddressFromIndex` in examples: the type-1 hashes `7…7` and `8…8` have
addresses, the second one on the ignore list.
-/
def getAddressFromIndex (type : Nat) (hash : Uint160) : Option String :=
  if type = 1 ∧ hash = Blob.fill 20 7 then some "RExampleAddress7"
  else if type = 1 ∧ hash = Blob.fill 20 8 then some "RReUxSs5hGE39ELU23DfydX8riUuzdrHAE"
  else none

end Reference

/-- Three unspent outputs, worth 5 and 7 at the hash `7…7` and 9 at the ignored hash `8…8`, a
block's logical timestamp, and the reindexing flag.
-/
def snapshotCalls : List (BlockTreeWrite Unit Unit Unit Unit Int) :=
  [.updateAddressUnspentIndex
    [(⟨1, Blob.fill 20 7, Blob.fill 32 3, 0⟩, 5), (⟨1, Blob.fill 20 7, Blob.fill 32 4, 1⟩, 7),
      (⟨1, Blob.fill 20 8, Blob.fill 32 5, 0⟩, 9)] true,
   .writeTimestampBlockIndex (Blob.fill 32 6) ⟨3⟩ true,
   .writeReindexing true true]

/-- The example store's address-unspent records all read, and its counted amounts, 5 and 7, are
non-negative and sum below `2^63`.
-/
theorem snapshotRecords_snapshotCalls
    : SnapshotRecords Reference.blockTreeFormat.addressUnspent Reference.blockTreeFormat.amount
        Reference.getAddressFromIndex (blockTreeWrites Reference.blockTreeFormat Store.empty snapshotCalls) :=
  ⟨by decide, by decide, by decide⟩

/-- From the last key down, the example store's snapshot passes over the block-hash record, tallies
the three outputs, and stops at the reindexing flag, whose key is too short to read. With `top = 0`
it reports the one counted address with its balance of 12.
-/
example : snapshot Reference.iteratorKeyReader Reference.blockTreeFormat.amount
    Reference.getAddressFromIndex 0 (blockTreeWrites Reference.blockTreeFormat Store.empty snapshotCalls) 0
    = some ⟨some ([(12, "RExampleAddress7")], 12), 2, 1, 1⟩ := by
  decide

/-- `snapshot_blockTreeWrites` at the example store, with `ignoredAddresses` starting at 0 and
`top = 1`.
-/
theorem snapshot_blockTreeWrites_snapshotCalls
    : SnapshotRecords Reference.blockTreeFormat.addressUnspent Reference.blockTreeFormat.amount
        Reference.getAddressFromIndex (blockTreeWrites Reference.blockTreeFormat Store.empty snapshotCalls)
      ∧ snapshot Reference.iteratorKeyReader Reference.blockTreeFormat.amount
          Reference.getAddressFromIndex 0 (blockTreeWrites Reference.blockTreeFormat Store.empty snapshotCalls) 1
        = some (snapshotOf (unspentAmounts Reference.blockTreeFormat.addressUnspent
            Reference.blockTreeFormat.amount Reference.getAddressFromIndex
            (blockTreeWrites Reference.blockTreeFormat Store.empty snapshotCalls)) 0 1) :=
  ⟨snapshotRecords_snapshotCalls, snapshot_blockTreeWrites _ _ _ _ snapshotRecords_snapshotCalls 0 1⟩

/-- `snapshot_negativeTop` at the example store with `top = -1`: the store has one counted address,
with balance 12, and the snapshot reports no addresses.
-/
theorem snapshot_negativeTop_snapshotCalls
    : SnapshotRecords Reference.blockTreeFormat.addressUnspent Reference.blockTreeFormat.amount
        Reference.getAddressFromIndex (blockTreeWrites Reference.blockTreeFormat Store.empty snapshotCalls)
      ∧ snapshotBalances (unspentAmounts Reference.blockTreeFormat.addressUnspent
          Reference.blockTreeFormat.amount Reference.getAddressFromIndex
          (blockTreeWrites Reference.blockTreeFormat Store.empty snapshotCalls)) = [(12, "RExampleAddress7")]
      ∧ ∃ r, snapshot Reference.iteratorKeyReader Reference.blockTreeFormat.amount
          Reference.getAddressFromIndex 0 (blockTreeWrites Reference.blockTreeFormat Store.empty snapshotCalls)
          (-1) = some r
        ∧ r.addresses = none ∧ r.totalAddresses = -1 :=
  ⟨snapshotRecords_snapshotCalls, by decide,
    snapshot_negativeTop _ _ _ _ snapshotRecords_snapshotCalls 0 (by decide)⟩

/-- `snapshot_counters` at the example store, with `ignoredAddresses` starting at 7 and `top = 2`:
the snapshot emits one address but reports two, and reports 8 ignored records for the one it
passed over.
-/
theorem snapshot_counters_snapshotCalls
    : SnapshotRecords Reference.blockTreeFormat.addressUnspent Reference.blockTreeFormat.amount
        Reference.getAddressFromIndex (blockTreeWrites Reference.blockTreeFormat Store.empty snapshotCalls)
      ∧ ∃ r, snapshot Reference.iteratorKeyReader Reference.blockTreeFormat.amount
          Reference.getAddressFromIndex 7 (blockTreeWrites Reference.blockTreeFormat Store.empty snapshotCalls)
          2 = some r
        ∧ r.addresses.map (·.1.length) = some 1 ∧ r.totalAddresses = 2 ∧ r.utxos = 2
        ∧ r.ignoredAddresses = 8 := by
  obtain ⟨r, hr, htotal, hutxos, hignored⟩ :=
    snapshot_counters _ _ _ _ snapshotRecords_snapshotCalls 7 2
  refine ⟨snapshotRecords_snapshotCalls, r, hr, ?_, htotal, hutxos.trans (by decide),
    hignored.trans (by decide)⟩
  have : snapshot Reference.iteratorKeyReader Reference.blockTreeFormat.amount
      Reference.getAddressFromIndex 7 (blockTreeWrites Reference.blockTreeFormat Store.empty snapshotCalls) 2
      = some ⟨some ([(12, "RExampleAddress7")], 12), 2, 2, 8⟩ := by decide
  rw [this] at hr
  cases hr
  rfl

end Txdb
