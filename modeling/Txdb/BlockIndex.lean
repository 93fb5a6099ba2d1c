import Txdb.Serialize

/-! The in-memory block index that the block-tree store loads and consults: headers, the
persisted form of an index entry, the nodes of `mapBlockIndex`, and the two ways txdb.cpp reaches
into the map (`InsertBlockIndex` and `mapBlockIndex[hash]`).
-/

namespace Txdb

/-- Modelled from the spec: a block header (primitives/block.h), the fields its hash covers. -/
structure CBlockHeader where
  nVersion : Int
  hashPrevBlock : Uint256
  hashMerkleRoot : Uint256
  hashFinalSaplingRoot : Uint256
  nTime : Nat
  nBits : Nat
  nNonce : Uint256
  nSolution : Bytes
  deriving DecidableEq

/-- Modelled from the spec: the persisted form of a block index entry (chain.h): its header
fields with the predecessor's hash, its disk position and its chain status.
-/
structure CDiskBlockIndex where
  hashPrev : Uint256
  nHeight : Int
  nFile : Int
  nDataPos : Nat
  nUndoPos : Nat
  hashSproutAnchor : Uint256
  nVersion : Int
  hashMerkleRoot : Uint256
  hashFinalSaplingRoot : Uint256
  nTime : Nat
  nBits : Nat
  nNonce : Uint256
  nSolution : Bytes
  nStatus : Nat
  nCachedBranchId : Option Nat
  nTx : Nat
  nSproutValue : Option Int
  deriving DecidableEq

/-- Modelled from the spec: a node of `mapBlockIndex` (chain.h). `pprev` points at the
predecessor's node, given by the hash it is mapped under, since a node's `phashBlock` points at
its own map key; `none` is the null pointer.
-/
structure CBlockIndex where
  pprev : Option Uint256
  nHeight : Int
  nFile : Int
  nDataPos : Nat
  nUndoPos : Nat
  hashSproutAnchor : Uint256
  nVersion : Int
  hashMerkleRoot : Uint256
  hashFinalSaplingRoot : Uint256
  nTime : Nat
  nBits : Nat
  nNonce : Uint256
  nSolution : Bytes
  nStatus : Nat
  nCachedBranchId : Option Nat
  nTx : Nat
  nSproutValue : Option Int
  deriving DecidableEq

/-- Modelled from the spec: a default-constructed `CBlockIndex`, the placeholder
`InsertBlockIndex` creates: null predecessor and cleared fields.
-/
def CBlockIndex.default : CBlockIndex where
  pprev := none
  nHeight := 0
  nFile := 0
  nDataPos := 0
  nUndoPos := 0
  hashSproutAnchor := Blob.null 32
  nVersion := 0
  hashMerkleRoot := Blob.null 32
  hashFinalSaplingRoot := Blob.null 32
  nTime := 0
  nBits := 0
  nNonce := Blob.null 32
  nSolution := []
  nStatus := 0
  nCachedBranchId := none
  nTx := 0
  nSproutValue := none

/-- Modelled from the spec: `CDiskBlockIndex::GetBlockHash()`, the hash of the header rebuilt
from the record's own fields, with `hashPrev` as the previous block.
-/
def CDiskBlockIndex.getBlockHash (getHash : CBlockHeader → Uint256) (d : CDiskBlockIndex)
    : Uint256 :=
  getHash
    { nVersion := d.nVersion, hashPrevBlock := d.hashPrev, hashMerkleRoot := d.hashMerkleRoot,
      hashFinalSaplingRoot := d.hashFinalSaplingRoot, nTime := d.nTime, nBits := d.nBits,
      nNonce := d.nNonce, nSolution := d.nSolution }

/-- Modelled from the spec: `CBlockIndex::GetBlockHeader()`: the node's header fields, with the
predecessor's hash as previous block, or the null hash without a predecessor.
-/
def CBlockIndex.getBlockHeader (node : CBlockIndex) : CBlockHeader where
  nVersion := node.nVersion
  hashPrevBlock := node.pprev.getD (Blob.null 32)
  hashMerkleRoot := node.hashMerkleRoot
  hashFinalSaplingRoot := node.hashFinalSaplingRoot
  nTime := node.nTime
  nBits := node.nBits
  nNonce := node.nNonce
  nSolution := node.nSolution

/-- Modelled from the spec: `CDiskBlockIndex(pindex)`, the persisted form of a node, whose
`hashPrev` is the predecessor's hash or the null hash.
-/
def CDiskBlockIndex.ofIndex (node : CBlockIndex) : CDiskBlockIndex where
  hashPrev := node.pprev.getD (Blob.null 32)
  nHeight := node.nHeight
  nFile := node.nFile
  nDataPos := node.nDataPos
  nUndoPos := node.nUndoPos
  hashSproutAnchor := node.hashSproutAnchor
  nVersion := node.nVersion
  hashMerkleRoot := node.hashMerkleRoot
  hashFinalSaplingRoot := node.hashFinalSaplingRoot
  nTime := node.nTime
  nBits := node.nBits
  nNonce := node.nNonce
  nSolution := node.nSolution
  nStatus := node.nStatus
  nCachedBranchId := node.nCachedBranchId
  nTx := node.nTx
  nSproutValue := node.nSproutValue

-----------------------------------------------------------------------------------------
-- mapBlockIndex
-----------------------------------------------------------------------------------------

/-- `mapBlockIndex`: for each hash, absent (`none`) or mapped to a pointer, which is a node
(`some (some node)`) or null (`some none`).
-/
def BlockMap := Uint256 → Option (Option CBlockIndex)

namespace BlockMap

/-- The map with no entries. -/
def empty : BlockMap := fun _ => none

/-- The map with `node` stored under `hash`. -/
def setNode (m : BlockMap) (hash : Uint256) (node : CBlockIndex) : BlockMap :=
  Function.update m hash (some (some node))

/-- No hash is mapped to a null pointer. -/
def NoNull (m : BlockMap) : Prop := ∀ hash, m hash ≠ some none

@[simp] theorem setNode_apply (m : BlockMap) (hash probe : Uint256) (node : CBlockIndex)
    : m.setNode hash node probe = if probe = hash then some (some node) else m probe := by
  simp [setNode, Function.update_apply]

theorem empty_noNull : empty.NoNull := fun _ h => Option.noConfusion h

theorem NoNull.setNode {m : BlockMap} (h : m.NoNull) (hash : Uint256) (node : CBlockIndex)
    : (m.setNode hash node).NoNull := by
  intro probe
  rw [setNode_apply]
  split
  · simp
  · exact h probe

end BlockMap

/-- Modelled from the spec: `InsertBlockIndex(hash)` (main.cpp): no node for the null hash, the
pointer already mapped under the hash, or else a new default node entered under it. The pointer
it returns is the hash of the node, or `none` for null.
-/
def insertBlockIndex (m : BlockMap) (hash : Uint256) : Option Uint256 × BlockMap :=
  if hash.isNull then (none, m)
  else match m hash with
    | some ptr => (ptr.map fun _ => hash, m)
    | none => (some hash, m.setNode hash .default)

/-- `mapBlockIndex[hash]`: the pointer under `hash`, entering a null pointer when the hash is
absent.
-/
def BlockMap.index (m : BlockMap) (hash : Uint256) : Option Uint256 × BlockMap :=
  match m hash with
  | some ptr => (ptr.map fun _ => hash, m)
  | none => (none, Function.update m hash (some none))

/-- The pointer to the node under `hash` in a map that holds one there: null for the null hash. -/
def nodePointer (hash : Uint256) : Option Uint256 := if hash.isNull then none else some hash

/-- In a map without null pointers, `InsertBlockIndex` returns the pointer to the node under the
hash.
-/
theorem insertBlockIndex_fst {m : BlockMap} (hm : m.NoNull) (hash : Uint256)
    : (insertBlockIndex m hash).1 = nodePointer hash := by
  unfold insertBlockIndex nodePointer
  split
  · rfl
  · cases hh : m hash with
    | none => rfl
    | some ptr =>
        cases ptr with
        | none => exact absurd hh (hm hash)
        | some _ => rfl

/-- `InsertBlockIndex` enters a default node under a non-null hash that had no entry, and changes
nothing else.
-/
theorem insertBlockIndex_snd_apply (m : BlockMap) (hash probe : Uint256)
    : (insertBlockIndex m hash).2 probe
      = if probe = hash ∧ ¬hash.isNull ∧ m hash = none then some (some .default) else m probe := by
  unfold insertBlockIndex
  by_cases hn : hash.isNull
  · simp [hn]
  · cases hh : m hash with
    | none => by_cases hp : probe = hash <;> simp [hn, hp]
    | some ptr => simp [hn]

/-- `InsertBlockIndex` never enters a null pointer. -/
theorem BlockMap.NoNull.insertBlockIndex {m : BlockMap} (hm : m.NoNull) (hash : Uint256)
    : (insertBlockIndex m hash).2.NoNull := by
  intro probe
  rw [insertBlockIndex_snd_apply]
  split
  · simp
  · exact hm probe

end Txdb
