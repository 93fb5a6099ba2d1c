import Txdb.Serialize

/-! The ordered key-value engine behind `CDBWrapper`: point reads, batches applied atomically,
and the forward cursor that every scan of txdb.cpp walks.
-/

namespace Txdb

/-- One stored record: a key and its value. -/
abbrev Entry := Bytes × Bytes

/-- `(lookup key entries)` is the value of the first entry under `key`. -/
def lookup (key : Bytes) : List Entry → Option Bytes
  | [] => none
  | e :: rest => if e.1 = key then some e.2 else lookup key rest

/-- Inserts an entry before the first larger key, replacing an entry with the same key. -/
def insertEntry (key value : Bytes) : List Entry → List Entry
  | [] => [(key, value)]
  | e :: rest =>
      if key < e.1 then (key, value) :: e :: rest
      else if key = e.1 then (key, value) :: rest
      else e :: insertEntry key value rest

/-- Reading after an insertion sees the inserted value at its key and nothing else changed,
by induction on the entries.
-/
theorem lookup_insertEntry (key value probe : Bytes) (entries : List Entry)
    : lookup probe (insertEntry key value entries)
      = if key = probe then some value else lookup probe entries := by
  induction entries with
  | nil => rfl
  | cons e rest ih =>
      by_cases hlt : key < e.1
      · simp only [insertEntry, if_pos hlt, lookup]
      · by_cases heq : key = e.1
        · simp only [insertEntry, if_neg hlt, if_pos heq, lookup]
          split_ifs with hk he <;> first | rfl | exact absurd (heq.trans he) hk
        · simp only [insertEntry, if_neg hlt, if_neg heq, lookup, ih]
          by_cases he : e.1 = probe
          · rw [if_pos he, if_neg fun h => heq (h.trans he.symm), if_pos he]
          · simp only [if_neg he]

/-- Every entry after an insertion is the inserted one or an old one. -/
theorem mem_insertEntry {key value : Bytes} {entries : List Entry} {e : Entry}
    (h : e ∈ insertEntry key value entries)
    : e.1 = key ∨ e ∈ entries := by
  induction entries with
  | nil => simp_all [insertEntry]
  | cons x rest ih =>
      unfold insertEntry at h
      split_ifs at h
      · rcases List.mem_cons.mp h with rfl | h
        · exact Or.inl rfl
        · exact Or.inr h
      · rcases List.mem_cons.mp h with rfl | h
        · exact Or.inl rfl
        · exact Or.inr (List.mem_cons_of_mem _ h)
      · rcases List.mem_cons.mp h with rfl | h
        · exact Or.inr (List.mem_cons_self _ _)
        · exact (ih h).imp_right (List.mem_cons_of_mem _)

/-- Insertion keeps the entries in strictly ascending key order. -/
theorem sorted_insertEntry (key value : Bytes) {entries : List Entry}
    (h : entries.Pairwise (fun a b => a.1 < b.1))
    : (insertEntry key value entries).Pairwise (fun a b => a.1 < b.1) := by
  induction entries with
  | nil => exact List.pairwise_singleton _ _
  | cons e rest ih =>
      obtain ⟨he, hrest⟩ := List.pairwise_cons.mp h
      simp only [insertEntry]
      split_ifs with hlt heq
      · exact .cons (fun b hb => (List.mem_cons.mp hb).elim (fun h => h ▸ hlt)
          (fun hb => hlt.trans (he b hb))) h
      · exact .cons (fun b hb => heq ▸ he b hb) hrest
      · have hgt : e.1 < key := lt_of_le_of_ne (not_lt.mp hlt) (Ne.symm heq)
        exact .cons (fun b hb => (mem_insertEntry hb).elim (fun h => h ▸ hgt) (he b))
          (ih hrest)

/-- One operation accumulated in a `CDBBatch`. -/
inductive BatchOp
  | write (key value : Bytes)
  | erase (key : Bytes)
  deriving DecidableEq

/-- The key an operation touches. -/
def BatchOp.key : BatchOp → Bytes
  | .write key _ => key
  | .erase key => key

/-- What an operation does to the value under `probe`: only an operation on that key changes
it.
-/
def BatchOp.effect (probe : Bytes) (old : Option Bytes) : BatchOp → Option Bytes
  | .write key value => if key = probe then some value else old
  | .erase key => if key = probe then none else old

/-- An operation on another key has no effect under `probe`. -/
theorem BatchOp.effect_of_ne {op : BatchOp} {probe : Bytes} (h : op.key ≠ probe)
    (old : Option Bytes)
    : op.effect probe old = old := by
  cases op <;> simp_all [effect, key]

/-- The effect of operations, applied in order, on the value under `probe`. -/
def effects (probe : Bytes) (ops : List BatchOp) (old : Option Bytes) : Option Bytes :=
  ops.foldl (fun old op => op.effect probe old) old

@[simp] theorem effects_nil (probe : Bytes) (old : Option Bytes) : effects probe [] old = old := rfl

@[simp] theorem effects_cons (probe : Bytes) (op : BatchOp) (rest : List BatchOp)
    (old : Option Bytes)
    : effects probe (op :: rest) old = effects probe rest (op.effect probe old) := rfl

@[simp] theorem effects_append (probe : Bytes) (first second : List BatchOp) (old : Option Bytes)
    : effects probe (first ++ second) old = effects probe second (effects probe first old) :=
  List.foldl_append _ _ _ _

/-- Operations none of which touches `probe` have no effect under it, by induction. -/
theorem effects_of_forall_ne {ops : List BatchOp} {probe : Bytes}
    (h : ∀ op ∈ ops, op.key ≠ probe) (old : Option Bytes)
    : effects probe ops old = old := by
  induction ops generalizing old with
  | nil => rfl
  | cons op rest ih =>
      rw [effects_cons, BatchOp.effect_of_ne (h op (List.mem_cons_self _ _)),
        ih (fun o ho => h o (List.mem_cons_of_mem _ ho))]

/-- Operations on other keys before a batch's tail have no effect under `probe`. -/
theorem effects_append_of_forall_ne {first second : List BatchOp} {probe : Bytes}
    (h : ∀ op ∈ first, op.key ≠ probe) (old : Option Bytes)
    : effects probe (first ++ second) old = effects probe second old := by
  rw [effects_append, effects_of_forall_ne h]

/-- Modelled from the spec: the ordered byte-keyed engine of §6, as its entries in strictly
ascending key order, so one entry per key.
-/
structure Store where
  entries : List Entry
  sorted : entries.Pairwise (fun a b => a.1 < b.1)

namespace Store

/-- The store with no records. -/
def empty : Store := ⟨[], .nil⟩

/-- `get(key)`. -/
def get (db : Store) (key : Bytes) : Option Bytes := lookup key db.entries

/-- `exists(key)`. -/
def contains (db : Store) (key : Bytes) : Bool := (db.get key).isSome

/-- `Read(key, value)`: the value under the key, when present and decodable. -/
def read {α : Type} (db : Store) (c : Codec α) (key : Bytes) : Option α :=
  (db.get key).bind fun value => (c.decode value).map Prod.fst

/-- `put(key, value)`. -/
def put (db : Store) (key value : Bytes) : Store :=
  ⟨insertEntry key value db.entries, sorted_insertEntry key value db.sorted⟩

/-- `delete(key)`. -/
def erase (db : Store) (key : Bytes) : Store :=
  ⟨db.entries.filter (fun e => e.1 ≠ key), db.sorted.filter _⟩

@[simp] theorem get_empty (key : Bytes) : empty.get key = none := rfl

@[simp] theorem get_put (db : Store) (key value probe : Bytes)
    : (db.put key value).get probe = if key = probe then some value else db.get probe :=
  lookup_insertEntry key value probe db.entries

/-- Erasing a key removes its value and keeps every other one, by induction on the entries. -/
@[simp] theorem get_erase (db : Store) (key probe : Bytes)
    : (db.erase key).get probe = if key = probe then none else db.get probe := by
  simp only [get, erase]
  induction db.entries with
  | nil => simp [lookup]
  | cons e rest ih =>
      by_cases he : e.1 = key
      · simp only [List.filter_cons, he, ne_eq, not_true_eq_false, decide_False, Bool.false_eq_true,
          if_false, ih, lookup]
        split_ifs <;> rfl
      · simp only [List.filter_cons, he, ne_eq, not_false_eq_true, decide_True, lookup, ih]
        split_ifs with hp hk
        · exact absurd (hp.trans hk.symm) he
        all_goals rfl

-----------------------------------------------------------------------------------------
-- Batches
-----------------------------------------------------------------------------------------

/-- Applies one batch operation. -/
def applyOp (db : Store) : BatchOp → Store
  | .write key value => db.put key value
  | .erase key => db.erase key

/-- Applies a batch's operations in the order they were accumulated. -/
def applyBatch (db : Store) (batch : List BatchOp) : Store := batch.foldl applyOp db

/-- `WriteBatch(batch)`: the engine commits the whole batch or none of it; `committed` is the
engine's outcome, which the code does not control.
-/
def writeBatch (db : Store) (batch : List BatchOp) (committed : Bool) : Bool × Store :=
  if committed then (true, db.applyBatch batch) else (false, db)

@[simp] theorem applyBatch_nil (db : Store) : db.applyBatch [] = db := rfl

@[simp] theorem applyBatch_append (db : Store) (first second : List BatchOp)
    : db.applyBatch (first ++ second) = (db.applyBatch first).applyBatch second :=
  List.foldl_append _ _ _ _

@[simp] theorem applyBatch_cons (db : Store) (op : BatchOp) (rest : List BatchOp)
    : db.applyBatch (op :: rest) = (db.applyOp op).applyBatch rest := rfl

/-- Applying an operation changes the value under `probe` by the operation's effect there. -/
theorem get_applyOp (db : Store) (op : BatchOp) (probe : Bytes)
    : (db.applyOp op).get probe = op.effect probe (db.get probe) := by
  cases op <;> simp [applyOp, BatchOp.effect]

/-- After a batch, the value under `probe` is the old one transformed by the effects of the
batch's operations in order, by induction on the batch.
-/
theorem get_applyBatch (db : Store) (batch : List BatchOp) (probe : Bytes)
    : (db.applyBatch batch).get probe = effects probe batch (db.get probe) := by
  induction batch generalizing db with
  | nil => rfl
  | cons op rest ih => rw [applyBatch_cons, ih, get_applyOp, effects_cons]

/-- A batch none of whose operations touches a key leaves that key's value alone. -/
theorem get_applyBatch_of_forall_ne (db : Store) {batch : List BatchOp} {probe : Bytes}
    (h : ∀ op ∈ batch, op.key ≠ probe)
    : (db.applyBatch batch).get probe = db.get probe := by
  rw [get_applyBatch, effects_of_forall_ne h]

/-- A batch none of whose operations touches a key leaves its value alone, whether it commits or
not.
-/
theorem get_writeBatch_of_forall_ne (db : Store) {batch : List BatchOp} {probe : Bytes}
    (h : ∀ op ∈ batch, op.key ≠ probe) (committed : Bool)
    : (db.writeBatch batch committed).2.get probe = db.get probe := by
  cases committed
  · rfl
  · exact get_applyBatch_of_forall_ne db h

/-- A batch none of whose operations touches a key leaves what the key reads as alone. -/
theorem read_applyBatch_of_forall_ne {α : Type} (db : Store) (c : Codec α) {batch : List BatchOp}
    {probe : Bytes} (h : ∀ op ∈ batch, op.key ≠ probe)
    : (db.applyBatch batch).read c probe = db.read c probe := by
  rw [read, get_applyBatch_of_forall_ne db h, read]

/-- On sorted entries, a key is read as exactly the value of the entry it is stored in; witness:
induction on the entries, whose keys are distinct.
-/
theorem lookup_eq_some_iff {entries : List Entry} (h : entries.Pairwise (fun a b => a.1 < b.1))
    (key value : Bytes)
    : lookup key entries = some value ↔ (key, value) ∈ entries := by
  induction entries with
  | nil => simp [lookup]
  | cons e rest ih =>
      obtain ⟨he, hrest⟩ := List.pairwise_cons.mp h
      by_cases hk : e.1 = key
      · have absent : ∀ v, (key, v) ∉ rest := fun v hv => (he _ hv).ne hk
        constructor
        · intro hl
          simp only [lookup, hk, if_true, Option.some.injEq] at hl
          exact hl ▸ hk ▸ List.mem_cons_self _ _
        · intro hm
          rcases List.mem_cons.mp hm with rfl | hm
          · simp [lookup]
          · exact absurd hm (absent value)
      · simp only [lookup, hk, if_false, ih hrest, List.mem_cons]
        exact ⟨Or.inr, fun hm => hm.resolve_left fun heq => hk (heq ▸ rfl)⟩

/-- A stored entry is what its key reads as. -/
theorem mem_entries_iff (db : Store) (key value : Bytes)
    : (key, value) ∈ db.entries ↔ db.get key = some value :=
  (lookup_eq_some_iff db.sorted key value).symm

/-- A value read after a batch was there before or was put by one of the batch's operations. -/
theorem get_applyBatch_eq_some {db : Store} {batch : List BatchOp} {key value : Bytes}
    (h : (db.applyBatch batch).get key = some value)
    : db.get key = some value ∨ ∃ op ∈ batch, op.key = key := by
  by_cases touched : ∃ op ∈ batch, op.key = key
  · exact .inr touched
  · push_neg at touched
    exact .inl (get_applyBatch_of_forall_ne db touched ▸ h)

/-- The value under `probe` after operations is the old one or one an operation wrote there;
witness: induction on the operations.
-/
theorem effects_eq_some {probe value : Bytes} {ops : List BatchOp} {old : Option Bytes}
    (h : effects probe ops old = some value)
    : old = some value ∨ .write probe value ∈ ops := by
  induction ops generalizing old with
  | nil => exact .inl h
  | cons op ops ih =>
      rcases ih h with before | later
      · cases op with
        | write key v =>
            simp only [BatchOp.effect] at before
            split_ifs at before with hk
            · subst hk
              exact .inr (Option.some.inj before ▸ List.mem_cons_self _ _)
            · exact .inl before
        | erase key =>
            simp only [BatchOp.effect] at before
            split_ifs at before
            exact .inl before
      · exact .inr (List.mem_cons_of_mem _ later)

/-- A property that every record of a store and every record a batch writes have holds of every
record after `WriteBatch`, whether the batch commits or not.
-/
theorem entries_writeBatch {Q : Entry → Prop} {db : Store} (hdb : ∀ e ∈ db.entries, Q e)
    {batch : List BatchOp} (hbatch : ∀ key value, .write key value ∈ batch → Q (key, value))
    (committed : Bool)
    : ∀ e ∈ (db.writeBatch batch committed).2.entries, Q e := by
  cases committed
  · exact hdb
  · intro e he
    rw [mem_entries_iff] at he
    rcases effects_eq_some ((get_applyBatch db batch e.1).symm.trans he) with old | written
    · exact hdb e ((mem_entries_iff _ _ _).mpr old)
    · exact hbatch e.1 e.2 written

/-- One batch, committed or not on both, keeps two stores reading alike wherever they did. -/
theorem get_writeBatch_eq_of_get {db db' : Store} {P : Bytes → Prop}
    (h : ∀ key, P key → db.get key = db'.get key) (batch : List BatchOp) (committed : Bool)
    : ∀ key, P key → (db.writeBatch batch committed).2.get key = (db'.writeBatch batch committed).2.get key := by
  intro key hk
  cases committed
  · exact h key hk
  · simp only [writeBatch, if_true, get_applyBatch, h key hk]

/-- Two stores that read alike at every key starting with `p` hold the same entries there, in
the same order: both are the entries read there, in ascending key order.
-/
theorem filter_prefix_eq_of_get {db db' : Store} {p : Bytes}
    (h : ∀ key, p <+: key → db.get key = db'.get key)
    : db.entries.filter (fun e => p <+: e.1) = db'.entries.filter (fun e => p <+: e.1) := by
  haveI : IsAntisymm Entry (fun a b => a.1 < b.1) :=
    ⟨fun _ _ hab hba => absurd (hab.trans hba) (lt_irrefl _)⟩
  have sorted : ∀ d : Store, (d.entries.filter fun e => p <+: e.1).Sorted (fun a b => a.1 < b.1) :=
    fun d => d.sorted.filter _
  have nodup : ∀ d : Store, (d.entries.filter fun e => p <+: e.1).Nodup := fun d =>
    (sorted d).imp fun hab heq => by
      subst heq
      exact lt_irrefl _ hab
  refine List.eq_of_perm_of_sorted ?_ (sorted db) (sorted db')
  refine (List.perm_ext_iff_of_nodup (nodup db) (nodup db')).mpr fun e => ?_
  simp only [List.mem_filter, decide_eq_true_eq]
  constructor <;> rintro ⟨he, hp⟩ <;> refine ⟨?_, hp⟩ <;> rw [mem_entries_iff] at he ⊢
  · exact (h e.1 hp).symm.trans he
  · exact (h e.1 hp).trans he

/-- A property that every key of a store and every key a batch touches have holds of every key
after `WriteBatch`, whether the batch commits or not.
-/
theorem keys_writeBatch {P : Bytes → Prop} {db : Store} (hdb : ∀ e ∈ db.entries, P e.1)
    {batch : List BatchOp} (hbatch : ∀ op ∈ batch, P op.key) (committed : Bool)
    : ∀ e ∈ (db.writeBatch batch committed).2.entries, P e.1 := by
  cases committed
  · exact hdb
  · intro e he
    rcases get_applyBatch_eq_some ((mem_entries_iff _ e.1 e.2).mp he) with old | ⟨op, hop, hkey⟩
    · exact hdb _ ((mem_entries_iff _ _ _).mpr old)
    · exact hkey ▸ hbatch op hop

-----------------------------------------------------------------------------------------
-- The cursor
-----------------------------------------------------------------------------------------

/-- `Seek(key)`: the cursor at the first entry whose key is at or above `key`. A cursor is the
list of entries from its position on, so `Valid()` is non-emptiness and `Next()` the tail.
-/
def seek (db : Store) (key : Bytes) : List Entry := db.entries.dropWhile fun e => e.1 < key

/-- On sorted entries, the entries below a key form a prefix, so seeking keeps exactly the
entries at or above it. Witness: induction on the entries.
-/
theorem dropWhile_lt_eq_filter {entries : List Entry} (key : Bytes)
    (h : entries.Pairwise (fun a b => a.1 < b.1))
    : entries.dropWhile (fun e => e.1 < key) = entries.filter fun e => key ≤ e.1 := by
  induction entries with
  | nil => rfl
  | cons e rest ih =>
      obtain ⟨he, hrest⟩ := List.pairwise_cons.mp h
      by_cases hlt : e.1 < key
      · simp [List.dropWhile_cons, hlt, ih hrest, not_le.mpr hlt]
      · have above : ∀ b ∈ rest, key ≤ b.1 := fun b hb =>
          le_of_lt (lt_of_le_of_lt (not_lt.mp hlt) (he b hb))
        simp [List.dropWhile_cons, hlt, not_lt.mp hlt, List.filter_eq_self.mpr
          (fun b hb => decide_eq_true (above b hb))]

/-- The cursor after `Seek(key)` holds the entries at or above `key`, in ascending order. -/
theorem seek_eq_filter (db : Store) (key : Bytes)
    : db.seek key = db.entries.filter fun e => key ≤ e.1 :=
  dropWhile_lt_eq_filter key db.sorted

/-- The cursor holds the entries at or above the seek key. -/
theorem mem_seek {db : Store} {key : Bytes} {e : Entry} : e ∈ db.seek key ↔ e ∈ db.entries ∧ key ≤ e.1 := by
  rw [seek_eq_filter, List.mem_filter, decide_eq_true_eq]

/-- On sorted entries, a property that holds below every entry that has it selects a prefix:
the entries are those that have it followed by those that do not; witness: induction on the
entries.
-/
theorem eq_filter_append_filter {entries : List Entry} (h : entries.Pairwise (fun a b => a.1 < b.1))
    {P : Entry → Bool} (hP : ∀ a ∈ entries, ∀ b ∈ entries, a.1 < b.1 → P b → P a)
    : entries = entries.filter P ++ entries.filter (fun e => !P e) := by
  induction entries with
  | nil => rfl
  | cons e rest ih =>
      obtain ⟨he, hrest⟩ := List.pairwise_cons.mp h
      by_cases hPe : P e
      · have tail := ih hrest fun a ha b hb =>
          hP a (List.mem_cons_of_mem _ ha) b (List.mem_cons_of_mem _ hb)
        simp only [List.filter_cons, hPe, if_true, Bool.not_true, Bool.false_eq_true, if_false,
          List.cons_append]
        exact congrArg (e :: ·) tail
      · have later : ∀ b ∈ rest, P b = false := fun b hb => by
          by_contra hb'
          exact hPe (hP e (List.mem_cons_self _ _) b (List.mem_cons_of_mem _ hb) (he b hb)
            (by simpa using hb'))
        have none : rest.filter P = [] := List.filter_eq_nil_iff.mpr fun b hb => by simp [later b hb]
        have all : rest.filter (fun e => !P e) = rest :=
          List.filter_eq_self.mpr fun b hb => by simp [later b hb]
        simp [List.filter_cons, hPe, none, all]

/-- The cursor after `Seek(p)` is the entries whose keys start with `p`, all of them and in key
order, followed by the others: the keys that start with `p` form an interval, and `p` lies at or
below all of them.
-/
theorem seek_eq_prefix_append (db : Store) (p : Bytes)
    : db.seek p = db.entries.filter (fun e => p <+: e.1) ++ (db.seek p).filter fun e => ¬p <+: e.1 := by
  let P : Entry → Bool := fun e => p <+: e.1
  have hcursor := seek_eq_filter db p
  have sorted : (db.seek p).Pairwise (fun a b => a.1 < b.1) := hcursor ▸ db.sorted.filter _
  have split := eq_filter_append_filter sorted (P := P) fun a ha b _ hab hPb => by
    rw [hcursor, List.mem_filter, decide_eq_true_eq] at ha
    simp only [P, decide_eq_true_eq] at hPb ⊢
    exact Bytes.prefix_of_le_of_le List.prefix_rfl hPb ha.2 hab.le
  refine split.trans ?_
  rw [hcursor, List.filter_filter]
  congr 1
  · refine List.filter_congr fun e _ => ?_
    by_cases hp : p <+: e.1
    · simp [P, hp, Bytes.le_of_prefix hp]
    · simp [P, hp]
  · exact List.filter_congr fun e _ => by simp [P]

/-- Seeking to `p` reaches the entries whose keys start with `p`, and then an entry whose key does
not, if any.
-/
theorem seek_prefix (db : Store) (p : Bytes)
    : ∃ rest, db.seek p = db.entries.filter (fun e => p <+: e.1) ++ rest
      ∧ ∀ e ∈ rest.head?, ¬p <+: e.1 :=
  ⟨_, seek_eq_prefix_append db p, fun e he => by
    simpa using (List.mem_filter.mp (List.mem_of_mem_head? he)).2⟩

/-- A store's entries, in key order, are those below `p`, those whose keys start with `p`, and
those at or above `p` that do not start with it.
-/
theorem entries_eq_below_prefix_above (db : Store) (p : Bytes)
    : db.entries = db.entries.filter (fun e => e.1 < p) ++ db.entries.filter (fun e => p <+: e.1)
        ++ (db.seek p).filter fun e => ¬p <+: e.1 := by
  have split := eq_filter_append_filter db.sorted (P := fun e => e.1 < p) fun a _ b _ hab hb => by
    simpa using lt_trans hab (by simpa using hb)
  rw [List.append_assoc, ← seek_eq_prefix_append, seek_eq_filter]
  refine split.trans (congrArg _ (List.filter_congr fun e _ => by simp [← not_lt]))

/-- The cursor after `Seek(q)`, for a key `q` that extends `p`, is the entries whose keys start
with `p` and lie at or above `q`, in key order, followed by the entries above all those keys that
do not start with `p`.
-/
theorem seek_eq_prefix_filter_append (db : Store) {p q : Bytes} (hpq : p <+: q)
    : db.seek q = (db.entries.filter fun e => p <+: e.1).filter (fun e => q ≤ e.1)
        ++ (db.seek p).filter fun e => ¬p <+: e.1 := by
  have below : (db.entries.filter fun e => e.1 < p).filter (fun e => q ≤ e.1) = [] :=
    List.filter_eq_nil_iff.mpr fun e he => by
      have hlt := of_decide_eq_true (List.mem_filter.mp he).2
      simpa using lt_of_lt_of_le hlt (Bytes.le_of_prefix hpq)
  have above : ((db.seek p).filter fun e => ¬p <+: e.1).filter (fun e => q ≤ e.1)
      = (db.seek p).filter fun e => ¬p <+: e.1 :=
    List.filter_eq_self.mpr fun e he => by
      obtain ⟨hseek, hout⟩ := List.mem_filter.mp he
      exact decide_eq_true (Bytes.lt_of_not_prefix hpq (mem_seek.mp hseek).2 (by simpa using hout)).le
  rw [seek_eq_filter]
  conv_lhs => rw [entries_eq_below_prefix_above db p]
  rw [List.filter_append, List.filter_append, below, above, List.nil_append]

end Store

end Txdb
