import Txdb.Coins

/-! `BatchWrite` as a flush. Its three erase-while-iterating loops consume the cache maps entry
by entry, and a committed flush leaves the chainstate reading as the dirty entries overlaid on
the old store, with every other record untouched.
-/

namespace Txdb

-----------------------------------------------------------------------------------------
-- The loops consume their maps
-----------------------------------------------------------------------------------------

namespace CacheMap

variable {E β : Type}

/-- Erasing the first entry's key leaves the other entries: keys are unique. -/
theorem erase_head {m : CacheMap E} {e : Uint256 × E} {rest : List (Uint256 × E)}
    (h : m.entries = e :: rest)
    : (m.erase e.1).entries = rest := by
  have nd := m.nodup
  rw [h, List.map_cons, List.nodup_cons] at nd
  simp only [erase, h, List.filter_cons, ne_eq, not_true_eq_false, decide_False]
  exact List.filter_eq_self.mpr fun x hx =>
    decide_eq_true fun hk => nd.1 (hk ▸ List.mem_map_of_mem Prod.fst hx)

/-- A map without entries is the empty map. -/
theorem eq_empty_of_entries {m : CacheMap E} (h : m.entries = []) : m = empty := by
  cases m
  simp_all [empty]

/-- The erase-while-iterating loop runs its body once on each entry, in iteration order, and
leaves the map empty. Invariant: the map holds exactly the entries the cursor has not passed;
by induction on the cursor.
-/
theorem drain_eq_foldl (body : β → Uint256 × E → β) (acc : β) (m : CacheMap E)
    : m.drain body acc m.entries = (m.entries.foldl body acc, empty) := by
  suffices ∀ (cursor : List (Uint256 × E)) (m : CacheMap E) (acc : β), m.entries = cursor →
      m.drain body acc cursor = (cursor.foldl body acc, empty) from this _ m acc rfl
  intro cursor
  induction cursor with
  | nil => intro m acc h; simp [drain, eq_empty_of_entries h]
  | cons e rest ih => intro m acc h; exact ih (m.erase e.1) (body acc e) (erase_head h)

end CacheMap

/-- A fold whose step appends a list per element builds the flat map of those lists, by
induction on the folded list.
-/
theorem foldl_eq_append_flatMap {α β γ : Type} {f : β → α → β} (π : β → List γ)
    (g : α → List γ) (hf : ∀ acc a, π (f acc a) = π acc ++ g a) (l : List α) (init : β)
    : π (l.foldl f init) = π init ++ l.flatMap g := by
  induction l generalizing init with
  | nil => simp
  | cons a rest ih => simp [ih, hf, List.append_assoc]

/-- `foldl_eq_append_flatMap` for a fold that accumulates the list itself. -/
theorem foldl_append_flatMap {α γ : Type} {f : List γ → α → List γ} (g : α → List γ)
    (hf : ∀ acc a, f acc a = acc ++ g a) (l : List α) (init : List γ)
    : l.foldl f init = init ++ l.flatMap g :=
  foldl_eq_append_flatMap id g hf l init

section Flush

variable {SproutTree SaplingTree Tree : Type}

/-- The operations the coin loop emits for one entry. -/
def coinOps (coins : Codec CCoins) (entry : Uint256 × CCoinsCacheEntry) : List BatchOp :=
  (batchWriteCoin coins ([], 0, 0) entry).1

/-- The operations the anchor loop emits for one entry. -/
def anchorOps (pool : TreeFormat Tree) (dbChar : Byte) (entry : Uint256 × CAnchorsCacheEntry Tree)
    : List BatchOp :=
  batchWriteAnchor pool dbChar [] entry

/-- The operations the nullifier loop emits for one entry. -/
def nullifierOps (spent : Codec Bool) (dbChar : Byte) (entry : Uint256 × CNullifiersCacheEntry)
    : List BatchOp :=
  batchWriteNullifier spent dbChar [] entry

/-- The operations the best-slot check emits. -/
def bestOps (dbChar : Byte) (hash : Uint256) : List BatchOp := batchWriteBest dbChar hash []

theorem batchWriteCoin_fst (coins : Codec CCoins) (acc : List BatchOp × Nat × Nat)
    (entry : Uint256 × CCoinsCacheEntry)
    : (batchWriteCoin coins acc entry).1 = acc.1 ++ coinOps coins entry := by
  unfold coinOps batchWriteCoin
  split_ifs <;> simp

theorem batchWriteAnchor_eq (pool : TreeFormat Tree) (dbChar : Byte) (batch : List BatchOp)
    (entry : Uint256 × CAnchorsCacheEntry Tree)
    : batchWriteAnchor pool dbChar batch entry = batch ++ anchorOps pool dbChar entry := by
  unfold anchorOps batchWriteAnchor
  split_ifs <;> simp only [List.nil_append, List.append_nil]

theorem batchWriteNullifier_eq (spent : Codec Bool) (dbChar : Byte) (batch : List BatchOp)
    (entry : Uint256 × CNullifiersCacheEntry)
    : batchWriteNullifier spent dbChar batch entry = batch ++ nullifierOps spent dbChar entry := by
  unfold nullifierOps batchWriteNullifier
  split_ifs <;> simp only [List.nil_append, List.append_nil]

theorem batchWriteBest_eq (dbChar : Byte) (hash : Uint256) (batch : List BatchOp)
    : batchWriteBest dbChar hash batch = batch ++ bestOps dbChar hash := by
  unfold bestOps batchWriteBest
  split_ifs <;> simp only [List.nil_append, List.append_nil]

/-- The coin loop counts every entry it visits. -/
theorem foldl_batchWriteCoin_count (coins : Codec CCoins) (l : List (Uint256 × CCoinsCacheEntry))
    (acc : List BatchOp × Nat × Nat)
    : (l.foldl (batchWriteCoin coins) acc).2.1 = acc.2.1 + l.length := by
  induction l generalizing acc with
  | nil => rfl
  | cons e rest ih =>
      rw [List.foldl_cons, ih, List.length_cons]
      unfold batchWriteCoin
      split_ifs <;> simp only [] <;> omega

/-- The batch a flush builds: the operations of every coin entry, then of every Sprout and
Sapling anchor entry, then of every Sprout and Sapling nullifier entry, each map in its
iteration order, then the three best slots.
-/
def flushOps (fmt : CoinsFormat SproutTree SaplingTree) (mapCoins : CacheMap CCoinsCacheEntry)
    (hashBlock hashSproutAnchor hashSaplingAnchor : Uint256)
    (mapSproutAnchors : CacheMap (CAnchorsCacheEntry SproutTree))
    (mapSaplingAnchors : CacheMap (CAnchorsCacheEntry SaplingTree))
    (mapSproutNullifiers mapSaplingNullifiers : CacheMap CNullifiersCacheEntry)
    : List BatchOp :=
  mapCoins.entries.flatMap (coinOps fmt.coins)
    ++ mapSproutAnchors.entries.flatMap (anchorOps fmt.sprout dbSproutAnchor)
    ++ mapSaplingAnchors.entries.flatMap (anchorOps fmt.sapling dbSaplingAnchor)
    ++ mapSproutNullifiers.entries.flatMap (nullifierOps fmt.spent dbNullifier)
    ++ mapSaplingNullifiers.entries.flatMap (nullifierOps fmt.spent dbSaplingNullifier)
    ++ bestOps dbBestBlock hashBlock
    ++ bestOps dbBestSproutAnchor hashSproutAnchor
    ++ bestOps dbBestSaplingAnchor hashSaplingAnchor

/-- `BatchWrite` builds exactly `flushOps`, visiting every entry of every map once. -/
theorem batchWriteBatch_snd (fmt : CoinsFormat SproutTree SaplingTree)
    (mapCoins : CacheMap CCoinsCacheEntry) (hashBlock hashSproutAnchor hashSaplingAnchor : Uint256)
    (mapSproutAnchors : CacheMap (CAnchorsCacheEntry SproutTree))
    (mapSaplingAnchors : CacheMap (CAnchorsCacheEntry SaplingTree))
    (mapSproutNullifiers mapSaplingNullifiers : CacheMap CNullifiersCacheEntry)
    : (batchWriteBatch fmt mapCoins hashBlock hashSproutAnchor hashSaplingAnchor mapSproutAnchors
        mapSaplingAnchors mapSproutNullifiers mapSaplingNullifiers).2
      = flushOps fmt mapCoins hashBlock hashSproutAnchor hashSaplingAnchor mapSproutAnchors
        mapSaplingAnchors mapSproutNullifiers mapSaplingNullifiers := by
  simp only [batchWriteBatch, batchWriteAnchors, batchWriteNullifiers, CacheMap.drain_eq_foldl,
    batchWriteBest_eq, flushOps, List.append_assoc]
  rw [foldl_append_flatMap _ (batchWriteNullifier_eq _ _),
    foldl_append_flatMap _ (batchWriteNullifier_eq _ _),
    foldl_append_flatMap _ (batchWriteAnchor_eq _ _),
    foldl_append_flatMap _ (batchWriteAnchor_eq _ _),
    foldl_eq_append_flatMap Prod.fst _ (batchWriteCoin_fst _)]
  simp

/-- `BatchWrite` commits exactly `flushOps`. -/
theorem batchWrite_commit (fmt : CoinsFormat SproutTree SaplingTree) (db : Store)
    (mapCoins : CacheMap CCoinsCacheEntry) (hashBlock hashSproutAnchor hashSaplingAnchor : Uint256)
    (mapSproutAnchors : CacheMap (CAnchorsCacheEntry SproutTree))
    (mapSaplingAnchors : CacheMap (CAnchorsCacheEntry SaplingTree))
    (mapSproutNullifiers mapSaplingNullifiers : CacheMap CNullifiersCacheEntry) (committed : Bool)
    : let r := batchWrite fmt db mapCoins hashBlock hashSproutAnchor hashSaplingAnchor
        mapSproutAnchors mapSaplingAnchors mapSproutNullifiers mapSaplingNullifiers committed
      (r.ok, r.db) = db.writeBatch (flushOps fmt mapCoins hashBlock hashSproutAnchor
          hashSaplingAnchor mapSproutAnchors mapSaplingAnchors mapSproutNullifiers
          mapSaplingNullifiers) committed := by
  simp [batchWrite, ← batchWriteBatch_snd]

/-- `BatchWrite` consumes its maps. Whatever the entries' flags and the commit's outcome, the
batch it commits passes every entry of every map once through its loop body, in iteration
order, the coin loop counts each coin entry once, and all five maps are empty when it
returns. Witness: each loop is an instance of `drain_eq_foldl`.
-/
theorem batchWrite_consumes_maps (fmt : CoinsFormat SproutTree SaplingTree) (db : Store)
    (mapCoins : CacheMap CCoinsCacheEntry) (hashBlock hashSproutAnchor hashSaplingAnchor : Uint256)
    (mapSproutAnchors : CacheMap (CAnchorsCacheEntry SproutTree))
    (mapSaplingAnchors : CacheMap (CAnchorsCacheEntry SaplingTree))
    (mapSproutNullifiers mapSaplingNullifiers : CacheMap CNullifiersCacheEntry) (committed : Bool)
    : let r := batchWrite fmt db mapCoins hashBlock hashSproutAnchor hashSaplingAnchor
        mapSproutAnchors mapSaplingAnchors mapSproutNullifiers mapSaplingNullifiers committed
      (r.ok, r.db) = db.writeBatch (flushOps fmt mapCoins hashBlock hashSproutAnchor
          hashSaplingAnchor mapSproutAnchors mapSaplingAnchors mapSproutNullifiers
          mapSaplingNullifiers) committed
      ∧ r.count = mapCoins.entries.length
      ∧ r.mapCoins = .empty ∧ r.mapSproutAnchors = .empty ∧ r.mapSaplingAnchors = .empty
      ∧ r.mapSproutNullifiers = .empty ∧ r.mapSaplingNullifiers = .empty := by
  refine ⟨batchWrite_commit .., ?_⟩
  simp [batchWrite, batchWriteBatch, batchWriteAnchors, batchWriteNullifiers,
    CacheMap.drain_eq_foldl, foldl_batchWriteCoin_count]

-----------------------------------------------------------------------------------------
-- Which keys the batch touches
-----------------------------------------------------------------------------------------

/-- An operation the coin loop emits for an entry comes from a dirty entry and touches the
entry's own key.
-/
theorem mem_coinOps {coins : Codec CCoins} {e : Uint256 × CCoinsCacheEntry} {op : BatchOp}
    (h : op ∈ coinOps coins e)
    : isDirty e.2.flags ∧ op.key = hashKey dbCoins e.1 := by
  unfold coinOps batchWriteCoin at h
  split_ifs at h with hd <;> simp only [List.nil_append, List.mem_singleton, List.not_mem_nil] at h
  all_goals (subst h; exact ⟨hd, rfl⟩)

theorem mem_anchorOps {pool : TreeFormat Tree} {tag : Byte} {e : Uint256 × CAnchorsCacheEntry Tree}
    {op : BatchOp} (h : op ∈ anchorOps pool tag e)
    : isDirty e.2.flags ∧ op.key = hashKey tag e.1 := by
  unfold anchorOps batchWriteAnchor at h
  split_ifs at h with hd <;> simp only [List.nil_append, List.mem_singleton, List.not_mem_nil] at h
  all_goals (subst h; exact ⟨hd, rfl⟩)

theorem mem_nullifierOps {spent : Codec Bool} {tag : Byte} {e : Uint256 × CNullifiersCacheEntry}
    {op : BatchOp} (h : op ∈ nullifierOps spent tag e)
    : isDirty e.2.flags ∧ op.key = hashKey tag e.1 := by
  unfold nullifierOps batchWriteNullifier at h
  split_ifs at h with hd <;> simp only [List.nil_append, List.mem_singleton, List.not_mem_nil] at h
  all_goals (subst h; exact ⟨hd, rfl⟩)

theorem mem_bestOps {tag : Byte} {hash : Uint256} {op : BatchOp} (h : op ∈ bestOps tag hash)
    : !hash.isNull ∧ op.key = slotKey tag := by
  unfold bestOps batchWriteBest at h
  split_ifs at h with hd <;> simp only [List.nil_append, List.mem_singleton, List.not_mem_nil] at h
  all_goals (subst h; exact ⟨hd, rfl⟩)

theorem coinOps_key (coins : Codec CCoins) (e : Uint256 × CCoinsCacheEntry)
    : ∀ op ∈ coinOps coins e, op.key = hashKey dbCoins e.1 := fun _ h => (mem_coinOps h).2

theorem anchorOps_key (pool : TreeFormat Tree) (dbChar : Byte)
    (e : Uint256 × CAnchorsCacheEntry Tree)
    : ∀ op ∈ anchorOps pool dbChar e, op.key = hashKey dbChar e.1 := fun _ h => (mem_anchorOps h).2

theorem nullifierOps_key (spent : Codec Bool) (dbChar : Byte) (e : Uint256 × CNullifiersCacheEntry)
    : ∀ op ∈ nullifierOps spent dbChar e, op.key = hashKey dbChar e.1 := fun _ h => (mem_nullifierOps h).2

theorem bestOps_key (dbChar : Byte) (hash : Uint256)
    : ∀ op ∈ bestOps dbChar hash, op.key = slotKey dbChar := fun _ h => (mem_bestOps h).2

/-- Per-entry operations under one tag have no effect under a hash key of another tag. -/
theorem effects_flatMap_of_tag_ne {E : Type} (entries : List (Uint256 × E))
    {g : Uint256 × E → List BatchOp} {tag : Byte} (hg : ∀ e, ∀ op ∈ g e, op.key = hashKey tag e.1)
    {c : Byte} (hne : tag ≠ c) (t : Uint256) (old : Option Bytes)
    : effects (hashKey c t) (entries.flatMap g) old = old :=
  effects_of_forall_ne (fun op hop => by
    obtain ⟨e, -, he⟩ := List.mem_flatMap.mp hop
    rw [hg e op he, Ne, hashKey_inj]
    exact fun h => hne h.1) old

/-- Operations on a scalar slot have no effect under a hash key. -/
theorem effects_bestOps (dbChar c : Byte) (hash t : Uint256) (old : Option Bytes)
    : effects (hashKey c t) (bestOps dbChar hash) old = old :=
  effects_of_forall_ne (fun op hop => by
    rw [bestOps_key dbChar hash op hop]
    exact (hashKey_ne_slotKey _ _ _).symm) old

/-- Under an entry's key, per-entry operations that touch only their own entry's key act as
that entry's operations alone; keys absent from the map are untouched. By induction on the
entries, with unique keys.
-/
theorem CacheMap.effects_flatMap {E : Type} (m : CacheMap E) {g : Uint256 × E → List BatchOp}
    {tag : Byte} (hg : ∀ e, ∀ op ∈ g e, op.key = hashKey tag e.1) (t : Uint256)
    (old : Option Bytes)
    : effects (hashKey tag t) (m.entries.flatMap g) old
      = match m.find t with
        | some e => effects (hashKey tag t) (g (t, e)) old
        | none => old := by
  obtain ⟨entries, nodup⟩ := m
  simp only [find]
  induction entries generalizing old with
  | nil => rfl
  | cons e rest ih =>
      rw [List.map_cons, List.nodup_cons] at nodup
      have other : ∀ e' ∈ rest, ∀ op ∈ g e', op.key ≠ hashKey tag e.1 := fun e' he' op hop => by
        rw [hg e' op hop, Ne, hashKey_inj]
        exact fun h => nodup.1 (h.2 ▸ List.mem_map_of_mem Prod.fst he')
      rw [List.flatMap_cons, effects_append]
      by_cases he : e.1 = t
      · subst he
        rw [effects_of_forall_ne fun op hop => by
          obtain ⟨e', he', hop⟩ := List.mem_flatMap.mp hop
          exact other e' he' op hop]
        simp
      · rw [effects_of_forall_ne (fun op hop => by
          rw [hg e op hop, Ne, hashKey_inj]
          exact fun h => he h.2) old]
        simpa [List.find?_cons, he] using ih old nodup.2

@[simp] theorem effects_coinOps_of_ne (coins : Codec CCoins)
    (entries : List (Uint256 × CCoinsCacheEntry)) {c : Byte} (h : dbCoins ≠ c) (t : Uint256)
    (old : Option Bytes)
    : effects (hashKey c t) (entries.flatMap (coinOps coins)) old = old :=
  effects_flatMap_of_tag_ne entries (coinOps_key coins) h t old

@[simp] theorem effects_anchorOps_of_ne (pool : TreeFormat Tree)
    (entries : List (Uint256 × CAnchorsCacheEntry Tree)) {tag c : Byte} (h : tag ≠ c)
    (t : Uint256) (old : Option Bytes)
    : effects (hashKey c t) (entries.flatMap (anchorOps pool tag)) old = old :=
  effects_flatMap_of_tag_ne entries (anchorOps_key pool tag) h t old

@[simp] theorem effects_nullifierOps_of_ne (spent : Codec Bool)
    (entries : List (Uint256 × CNullifiersCacheEntry)) {tag c : Byte} (h : tag ≠ c) (t : Uint256)
    (old : Option Bytes)
    : effects (hashKey c t) (entries.flatMap (nullifierOps spent tag)) old = old :=
  effects_flatMap_of_tag_ne entries (nullifierOps_key spent tag) h t old

-----------------------------------------------------------------------------------------
-- A committed flush reads as the dirty entries overlaid on the old store
-----------------------------------------------------------------------------------------

/-- What a cache map says about `key` over an old reading: the value a dirty entry stands for,
and the old reading for a clean entry or an absent key.
-/
def CacheMap.overlay {E α : Type} (m : CacheMap E) (dirty : E → Bool) (value : E → α) (old : α)
    (key : Uint256)
    : α :=
  match m.find key with
  | some e => if dirty e then value e else old
  | none => old

/-- The keys a flush may write or erase: those of the dirty entries of the five maps, and each
best slot whose supplied hash is non-null.
-/
def FlushTouches (mapCoins : CacheMap CCoinsCacheEntry)
    (hashBlock hashSproutAnchor hashSaplingAnchor : Uint256)
    (mapSproutAnchors : CacheMap (CAnchorsCacheEntry SproutTree))
    (mapSaplingAnchors : CacheMap (CAnchorsCacheEntry SaplingTree))
    (mapSproutNullifiers mapSaplingNullifiers : CacheMap CNullifiersCacheEntry) (key : Bytes)
    : Prop :=
  (∃ e ∈ mapCoins.entries, isDirty e.2.flags ∧ key = hashKey dbCoins e.1)
  ∨ (∃ e ∈ mapSproutAnchors.entries, isDirty e.2.flags ∧ key = hashKey dbSproutAnchor e.1)
  ∨ (∃ e ∈ mapSaplingAnchors.entries, isDirty e.2.flags ∧ key = hashKey dbSaplingAnchor e.1)
  ∨ (∃ e ∈ mapSproutNullifiers.entries, isDirty e.2.flags ∧ key = hashKey dbNullifier e.1)
  ∨ (∃ e ∈ mapSaplingNullifiers.entries, isDirty e.2.flags ∧ key = hashKey dbSaplingNullifier e.1)
  ∨ (!hashBlock.isNull ∧ key = slotKey dbBestBlock)
  ∨ (!hashSproutAnchor.isNull ∧ key = slotKey dbBestSproutAnchor)
  ∨ (!hashSaplingAnchor.isNull ∧ key = slotKey dbBestSaplingAnchor)

/-- The chainstate `new` reads as the dirty entries and the non-null best hashes overlaid on
`old`, the empty roots still yield the empty trees, and no other record changed (spec §3: the
cache entry model, I1 and I3).
-/
structure ReadsAsOverlay (fmt : CoinsFormat SproutTree SaplingTree) (old new : Store)
    (mapCoins : CacheMap CCoinsCacheEntry) (hashBlock hashSproutAnchor hashSaplingAnchor : Uint256)
    (mapSproutAnchors : CacheMap (CAnchorsCacheEntry SproutTree))
    (mapSaplingAnchors : CacheMap (CAnchorsCacheEntry SaplingTree))
    (mapSproutNullifiers mapSaplingNullifiers : CacheMap CNullifiersCacheEntry)
    : Prop where
  coins : ∀ txid, getCoins fmt new txid
    = mapCoins.overlay (isDirty ·.flags) (fun e => if e.coins.isPruned then none else some e.coins)
        (getCoins fmt old txid) txid
  haveCoins : ∀ txid, haveCoins new txid
    = mapCoins.overlay (isDirty ·.flags) (fun e => !e.coins.isPruned) (haveCoins old txid) txid
  sproutAnchors : ∀ rt, rt ≠ fmt.sprout.emptyRoot → getSproutAnchorAt fmt new rt
    = mapSproutAnchors.overlay (isDirty ·.flags) (fun e => if e.entered then some e.tree else none)
        (getSproutAnchorAt fmt old rt) rt
  saplingAnchors : ∀ rt, rt ≠ fmt.sapling.emptyRoot → getSaplingAnchorAt fmt new rt
    = mapSaplingAnchors.overlay (isDirty ·.flags) (fun e => if e.entered then some e.tree else none)
        (getSaplingAnchorAt fmt old rt) rt
  emptyRoots : getSproutAnchorAt fmt new fmt.sprout.emptyRoot = some fmt.sprout.empty
    ∧ getSaplingAnchorAt fmt new fmt.sapling.emptyRoot = some fmt.sapling.empty
  sproutNullifiers : ∀ nf, getNullifier fmt new nf .sprout
    = mapSproutNullifiers.overlay (isDirty ·.flags) (·.entered) (getNullifier fmt old nf .sprout) nf
  saplingNullifiers : ∀ nf, getNullifier fmt new nf .sapling
    = mapSaplingNullifiers.overlay (isDirty ·.flags) (·.entered) (getNullifier fmt old nf .sapling) nf
  bestBlock : getBestBlock new = if hashBlock.isNull then getBestBlock old else hashBlock
  bestSproutAnchor : getBestAnchor fmt new .sprout
    = if hashSproutAnchor.isNull then getBestAnchor fmt old .sprout else hashSproutAnchor
  bestSaplingAnchor : getBestAnchor fmt new .sapling
    = if hashSaplingAnchor.isNull then getBestAnchor fmt old .sapling else hashSaplingAnchor
  frame : ∀ key, ¬FlushTouches mapCoins hashBlock hashSproutAnchor hashSaplingAnchor
    mapSproutAnchors mapSaplingAnchors mapSproutNullifiers mapSaplingNullifiers key
    → new.get key = old.get key

/-- Under its own key, a coin entry's operations write its coins, or erase a pruned record,
when the entry is dirty.
-/
theorem effects_coinOps (coins : Codec CCoins) (t : Uint256) (e : CCoinsCacheEntry)
    (old : Option Bytes)
    : effects (hashKey dbCoins t) (coinOps coins (t, e)) old
      = if isDirty e.flags then (if e.coins.isPruned then none else some (coins.encode e.coins))
        else old := by
  unfold coinOps batchWriteCoin
  split_ifs <;> simp [BatchOp.effect]

/-- Under a root other than the empty root, an anchor entry's operations write its tree when it
is dirty and entered, and erase the root when it is dirty and not entered.
-/
theorem effects_anchorOps (pool : TreeFormat Tree) (tag : Byte) {t : Uint256}
    (ht : t ≠ pool.emptyRoot) (e : CAnchorsCacheEntry Tree) (old : Option Bytes)
    : effects (hashKey tag t) (anchorOps pool tag (t, e)) old
      = if isDirty e.flags then (if e.entered then some (pool.codec.encode e.tree) else none)
        else old := by
  unfold anchorOps batchWriteAnchor
  split_ifs <;> simp_all [BatchOp.effect]

/-- Under its own key, a nullifier entry's operations mark it spent or erase it when dirty. -/
theorem effects_nullifierOps (spent : Codec Bool) (tag : Byte) (t : Uint256)
    (e : CNullifiersCacheEntry) (old : Option Bytes)
    : effects (hashKey tag t) (nullifierOps spent tag (t, e)) old
      = if isDirty e.flags then (if e.entered then some (spent.encode true) else none) else old := by
  unfold nullifierOps batchWriteNullifier
  split_ifs <;> simp_all [BatchOp.effect]

/-- Under its slot, the best-slot check writes a non-null hash and leaves a null one out. -/
theorem effects_bestOps_slot (tag : Byte) (hash : Uint256) (old : Option Bytes)
    : effects (slotKey tag) (bestOps tag hash) old
      = if hash.isNull then old else some (Uint256.codec.encode hash) := by
  unfold bestOps batchWriteBest
  split_ifs <;> simp_all [BatchOp.effect]

/-- Hash-key operations have no effect under a scalar slot. -/
theorem effects_flatMap_slot {E : Type} (entries : List (Uint256 × E))
    {g : Uint256 × E → List BatchOp} {tag : Byte} (hg : ∀ e, ∀ op ∈ g e, op.key = hashKey tag e.1)
    (c : Byte) (old : Option Bytes)
    : effects (slotKey c) (entries.flatMap g) old = old :=
  effects_of_forall_ne (fun op hop => by
    obtain ⟨e, -, he⟩ := List.mem_flatMap.mp hop
    rw [hg e op he]
    exact hashKey_ne_slotKey _ _ _) old

/-- Another slot's check has no effect under a slot. -/
theorem effects_bestOps_of_ne {tag c : Byte} (h : tag ≠ c) (hash : Uint256) (old : Option Bytes)
    : effects (slotKey c) (bestOps tag hash) old = old :=
  effects_of_forall_ne (fun op hop => by
    rw [bestOps_key tag hash op hop, slotKey_eq, slotKey_eq]
    exact fun he => h (List.cons.inj he).1) old

section Get

variable (fmt : CoinsFormat SproutTree SaplingTree) (db : Store)
  (mapCoins : CacheMap CCoinsCacheEntry) (hashBlock hashSproutAnchor hashSaplingAnchor : Uint256)
  (mapSproutAnchors : CacheMap (CAnchorsCacheEntry SproutTree))
  (mapSaplingAnchors : CacheMap (CAnchorsCacheEntry SaplingTree))
  (mapSproutNullifiers mapSaplingNullifiers : CacheMap CNullifiersCacheEntry)

/-- The flushed store under a coin key: the dirty entry's write or erase, else the old value. -/
theorem flush_get_coins (t : Uint256)
    : (db.applyBatch (flushOps fmt mapCoins hashBlock hashSproutAnchor hashSaplingAnchor
        mapSproutAnchors mapSaplingAnchors mapSproutNullifiers mapSaplingNullifiers)).get
        (hashKey dbCoins t)
      = mapCoins.overlay (isDirty ·.flags)
          (fun e => if e.coins.isPruned then none else some (fmt.coins.encode e.coins))
          (db.get (hashKey dbCoins t)) t := by
  rw [Store.get_applyBatch]
  simp (disch := decide) only [flushOps, effects_append, effects_anchorOps_of_ne,
    effects_nullifierOps_of_ne, effects_bestOps]
  rw [CacheMap.effects_flatMap _ (coinOps_key _), CacheMap.overlay]
  cases mapCoins.find t with
  | none => rfl
  | some e => exact effects_coinOps _ _ _ _

/-- The flushed store under a Sprout anchor key other than the empty root. -/
theorem flush_get_sproutAnchor {rt : Uint256} (h : rt ≠ fmt.sprout.emptyRoot)
    : (db.applyBatch (flushOps fmt mapCoins hashBlock hashSproutAnchor hashSaplingAnchor
        mapSproutAnchors mapSaplingAnchors mapSproutNullifiers mapSaplingNullifiers)).get
        (hashKey dbSproutAnchor rt)
      = mapSproutAnchors.overlay (isDirty ·.flags)
          (fun e => if e.entered then some (fmt.sprout.codec.encode e.tree) else none)
          (db.get (hashKey dbSproutAnchor rt)) rt := by
  rw [Store.get_applyBatch]
  simp (disch := decide) only [flushOps, effects_append, effects_coinOps_of_ne,
    effects_anchorOps_of_ne, effects_nullifierOps_of_ne, effects_bestOps]
  rw [CacheMap.effects_flatMap _ (anchorOps_key _ _), CacheMap.overlay]
  cases mapSproutAnchors.find rt with
  | none => rfl
  | some e => exact effects_anchorOps _ _ h _ _

/-- The flushed store under a Sapling anchor key other than the empty root. -/
theorem flush_get_saplingAnchor {rt : Uint256} (h : rt ≠ fmt.sapling.emptyRoot)
    : (db.applyBatch (flushOps fmt mapCoins hashBlock hashSproutAnchor hashSaplingAnchor
        mapSproutAnchors mapSaplingAnchors mapSproutNullifiers mapSaplingNullifiers)).get
        (hashKey dbSaplingAnchor rt)
      = mapSaplingAnchors.overlay (isDirty ·.flags)
          (fun e => if e.entered then some (fmt.sapling.codec.encode e.tree) else none)
          (db.get (hashKey dbSaplingAnchor rt)) rt := by
  rw [Store.get_applyBatch]
  simp (disch := decide) only [flushOps, effects_append, effects_coinOps_of_ne,
    effects_anchorOps_of_ne, effects_nullifierOps_of_ne, effects_bestOps]
  rw [CacheMap.effects_flatMap _ (anchorOps_key _ _), CacheMap.overlay]
  cases mapSaplingAnchors.find rt with
  | none => rfl
  | some e => exact effects_anchorOps _ _ h _ _

/-- The flushed store under a nullifier key of either pool. -/
theorem flush_get_nullifier (type : ShieldedType) (nf : Uint256)
    : (db.applyBatch (flushOps fmt mapCoins hashBlock hashSproutAnchor hashSaplingAnchor
        mapSproutAnchors mapSaplingAnchors mapSproutNullifiers mapSaplingNullifiers)).get
        (hashKey (nullifierTag type) nf)
      = (match type with | .sprout => mapSproutNullifiers | .sapling => mapSaplingNullifiers).overlay
          (isDirty ·.flags) (fun e => if e.entered then some (fmt.spent.encode true) else none)
          (db.get (hashKey (nullifierTag type) nf)) nf := by
  rw [Store.get_applyBatch]
  cases type <;>
  · simp (disch := decide) only [flushOps, nullifierTag, effects_append, effects_coinOps_of_ne,
      effects_anchorOps_of_ne, effects_nullifierOps_of_ne, effects_bestOps]
    rw [CacheMap.effects_flatMap _ (nullifierOps_key _ _), CacheMap.overlay]
    split
    · exact effects_nullifierOps _ _ _ _ _
    · rfl

/-- The flushed store under the three best slots: the supplied hash when it is non-null. -/
theorem flush_get_best (tag : Byte) (hash : Uint256)
    (h : (tag, hash) = (dbBestBlock, hashBlock) ∨ (tag, hash) = (dbBestSproutAnchor, hashSproutAnchor)
      ∨ (tag, hash) = (dbBestSaplingAnchor, hashSaplingAnchor))
    : (db.applyBatch (flushOps fmt mapCoins hashBlock hashSproutAnchor hashSaplingAnchor
        mapSproutAnchors mapSaplingAnchors mapSproutNullifiers mapSaplingNullifiers)).get
        (slotKey tag)
      = if hash.isNull then db.get (slotKey tag) else some (Uint256.codec.encode hash) := by
  rw [Store.get_applyBatch]
  simp only [flushOps, effects_append, effects_flatMap_slot _ (coinOps_key _),
    effects_flatMap_slot _ (anchorOps_key _ _), effects_flatMap_slot _ (nullifierOps_key _ _)]
  rcases h with h | h | h <;> simp only [Prod.mk.injEq] at h <;> obtain ⟨rfl, rfl⟩ := h <;>
    simp (disch := decide) only [effects_bestOps_slot, effects_bestOps_of_ne]

end Get

/-- Only dirty entries and non-null best hashes contribute operations, each on its own key. -/
theorem mem_flushOps_touches (fmt : CoinsFormat SproutTree SaplingTree)
    (mapCoins : CacheMap CCoinsCacheEntry) (hashBlock hashSproutAnchor hashSaplingAnchor : Uint256)
    (mapSproutAnchors : CacheMap (CAnchorsCacheEntry SproutTree))
    (mapSaplingAnchors : CacheMap (CAnchorsCacheEntry SaplingTree))
    (mapSproutNullifiers mapSaplingNullifiers : CacheMap CNullifiersCacheEntry) {op : BatchOp}
    (hop : op ∈ flushOps fmt mapCoins hashBlock hashSproutAnchor hashSaplingAnchor
      mapSproutAnchors mapSaplingAnchors mapSproutNullifiers mapSaplingNullifiers)
    : FlushTouches mapCoins hashBlock hashSproutAnchor hashSaplingAnchor mapSproutAnchors
        mapSaplingAnchors mapSproutNullifiers mapSaplingNullifiers op.key := by
  simp only [flushOps, List.mem_append, List.mem_flatMap] at hop
  rcases hop with ((((((⟨e, he, hop⟩ | ⟨e, he, hop⟩) | ⟨e, he, hop⟩) | ⟨e, he, hop⟩) |
    ⟨e, he, hop⟩) | hop) | hop) | hop
  · exact .inl ⟨e, he, mem_coinOps hop⟩
  · exact .inr <| .inl ⟨e, he, mem_anchorOps hop⟩
  · exact .inr <| .inr <| .inl ⟨e, he, mem_anchorOps hop⟩
  · exact .inr <| .inr <| .inr <| .inl ⟨e, he, mem_nullifierOps hop⟩
  · exact .inr <| .inr <| .inr <| .inr <| .inl ⟨e, he, mem_nullifierOps hop⟩
  · exact .inr <| .inr <| .inr <| .inr <| .inr <| .inl (mem_bestOps hop)
  · exact .inr <| .inr <| .inr <| .inr <| .inr <| .inr <| .inl (mem_bestOps hop)
  · exact .inr <| .inr <| .inr <| .inr <| .inr <| .inr <| .inr (mem_bestOps hop)

/-- A committed `BatchWrite` leaves the chainstate reading as the dirty entries of its five maps
and its non-null best hashes overlaid on the old store, and changes no other record.
Witness: the committed batch is `flushOps`; each read goes through the `flush_get_*` lemma of
its key, and every operation's key is one the flush touches.
-/
theorem batchWrite_readsAsOverlay (fmt : CoinsFormat SproutTree SaplingTree) (db : Store)
    (mapCoins : CacheMap CCoinsCacheEntry) (hashBlock hashSproutAnchor hashSaplingAnchor : Uint256)
    (mapSproutAnchors : CacheMap (CAnchorsCacheEntry SproutTree))
    (mapSaplingAnchors : CacheMap (CAnchorsCacheEntry SaplingTree))
    (mapSproutNullifiers mapSaplingNullifiers : CacheMap CNullifiersCacheEntry)
    : ReadsAsOverlay fmt db
        (batchWrite fmt db mapCoins hashBlock hashSproutAnchor hashSaplingAnchor mapSproutAnchors
          mapSaplingAnchors mapSproutNullifiers mapSaplingNullifiers true).db
        mapCoins hashBlock hashSproutAnchor hashSaplingAnchor mapSproutAnchors mapSaplingAnchors
        mapSproutNullifiers mapSaplingNullifiers := by
  have hdb := congrArg Prod.snd (batchWrite_commit fmt db mapCoins hashBlock hashSproutAnchor
    hashSaplingAnchor mapSproutAnchors mapSaplingAnchors mapSproutNullifiers mapSaplingNullifiers
    true)
  simp only [Store.writeBatch, if_true] at hdb
  rw [hdb]
  have best := flush_get_best fmt db mapCoins hashBlock hashSproutAnchor hashSaplingAnchor
    mapSproutAnchors mapSaplingAnchors mapSproutNullifiers mapSaplingNullifiers
  refine ⟨fun t => ?coins, fun t => ?haveCoins, fun rt h => ?sprout, fun rt h => ?sapling,
    ⟨if_pos rfl, if_pos rfl⟩, fun nf => ?sproutNf, fun nf => ?saplingNf, ?best, ?bestSprout,
    ?bestSapling, fun key hk => ?frame⟩
  case coins | haveCoins =>
    simp only [getCoins, haveCoins, Store.read, Store.contains, flush_get_coins, CacheMap.overlay]
    cases mapCoins.find t with
    | none => rfl
    | some e => by_cases hd : isDirty e.flags <;> by_cases hp : e.coins.isPruned <;> simp [hd, hp]
  case sprout =>
    simp only [getSproutAnchorAt, getAnchorAt, if_neg h, Store.read, flush_get_sproutAnchor _ _ _ _ _ _ _ _ _ _ h,
      CacheMap.overlay]
    cases mapSproutAnchors.find rt with
    | none => rfl
    | some e => by_cases hd : isDirty e.flags <;> by_cases hp : e.entered <;> simp [hd, hp]
  case sapling =>
    simp only [getSaplingAnchorAt, getAnchorAt, if_neg h, Store.read,
      flush_get_saplingAnchor _ _ _ _ _ _ _ _ _ _ h, CacheMap.overlay]
    cases mapSaplingAnchors.find rt with
    | none => rfl
    | some e => by_cases hd : isDirty e.flags <;> by_cases hp : e.entered <;> simp [hd, hp]
  case sproutNf | saplingNf =>
    simp only [getNullifier, Store.read, flush_get_nullifier, CacheMap.overlay]
    split
    · rename_i e _
      by_cases hd : isDirty e.flags <;> by_cases hp : e.entered <;> simp [hd, hp]
    · rfl
  case best =>
    simp only [getBestBlock, Store.read, best _ _ (.inl rfl)]
    split
    · rfl
    · simp
  case bestSprout =>
    simp only [getBestAnchor, Store.read, best _ _ (.inr (.inl rfl))]
    split
    · rfl
    · simp
  case bestSapling =>
    simp only [getBestAnchor, Store.read, best _ _ (.inr (.inr rfl))]
    split
    · rfl
    · simp
  case frame =>
    exact Store.get_applyBatch_of_forall_ne _ fun op hop heq =>
      hk (heq ▸ mem_flushOps_touches fmt mapCoins hashBlock hashSproutAnchor hashSaplingAnchor
        mapSproutAnchors mapSaplingAnchors mapSproutNullifiers mapSaplingNullifiers hop)

end Flush

end Txdb
