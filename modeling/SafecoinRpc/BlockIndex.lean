import SafecoinRpc.Primitives

/-!
# The block index and the active chain

The entries of `mapBlockIndex` live in an arena and a `CBlockIndex*` is a position in it:
`pprev` is the parent's position and pointer comparison is comparison of positions. The
active chain `CChain` is the list of positions from genesis to the tip. The queries of
`chain.h` and `chain.cpp` that the RPCs call (`CChain::Contains`, `Next`, `FindFork`,
`CBlockIndex::GetAncestor`) are not among the sources; they are modelled from the spec.

Walks up the `pprev` links come in two forms: `ancestor` takes a fixed number of steps, and
`walkBack` is the loop `while (p && cond(p)) p = p->pprev;`, run with a bound on its steps
and `none` when the bound is reached first.
-/

namespace SafecoinRpc

/-- `CBlockHeader`: the fields a header carries (its hash is computed from them). -/
structure CBlockHeader where
  nVersion : Int
  hashPrevBlock : Uint256
  hashMerkleRoot : Uint256
  nTime : UInt32
  nBits : UInt32
  nNonce : Uint256
  nSolution : List UInt8
  deriving DecidableEq, Repr, Inhabited

/-- `CTransaction`, of which the RPCs read the cached hash. -/
structure CTransaction where
  hash : Uint256
  deriving DecidableEq, Repr

/-- `CBlock`: a header and its transactions. -/
structure CBlock extends CBlockHeader where
  vtx : List CTransaction
  deriving DecidableEq, Repr

/-- `CBlockIndex`: the index entry of one block. `hashBlock` is `*phashBlock`, the key it is
stored under, and `pprev` the position of the parent entry (`NULL` is `none`). -/
structure CBlockIndex where
  hashBlock : Uint256
  pprev : Option Nat
  nHeight : Int
  nVersion : Int
  hashMerkleRoot : Uint256
  nTime : UInt32
  nBits : UInt32
  nNonce : Uint256
  nSolution : List UInt8
  nChainWork : Uint256
  nStatus : UInt32
  nTx : Nat
  nChainTx : Nat
  hashAnchorEnd : Uint256
  deriving DecidableEq, Repr, Inhabited

/-! ## Validation status -/

/-- Modelled from the spec: `BLOCK_VALID_TREE` of `chain.h`, header-level validity. -/
def BLOCK_VALID_TREE : UInt32 := 2

/-- Modelled from the spec: `BLOCK_VALID_SCRIPTS` of `chain.h`, full script validation. -/
def BLOCK_VALID_SCRIPTS : UInt32 := 5

/-- Modelled from the spec: `BLOCK_VALID_MASK` of `chain.h`, the validity level bits. -/
def BLOCK_VALID_MASK : UInt32 := 7

/-- Modelled from the spec: `BLOCK_HAVE_DATA` of `chain.h`, the body is stored. -/
def BLOCK_HAVE_DATA : UInt32 := 8

/-- Modelled from the spec: `BLOCK_FAILED_MASK` of `chain.h`, failed itself or by an ancestor. -/
def BLOCK_FAILED_MASK : UInt32 := 96

/-- Modelled from the spec: `CBlockIndex::IsValid(nUpTo)` of `chain.h`: no failure flag and
validity raised to at least `nUpTo`. -/
def CBlockIndex.isValid (b : CBlockIndex) (nUpTo : UInt32) : Bool :=
  b.nStatus &&& BLOCK_FAILED_MASK == 0 && nUpTo ≤ b.nStatus &&& BLOCK_VALID_MASK

/-! ## The node state -/

/-- `CChain`: the active chain, `vChain[h]` the position of its block at height `h`. -/
structure CChain where
  vChain : List Nat
  deriving DecidableEq, Repr

/-- The globals the RPCs read under `cs_main`: `mapBlockIndex` (as the arena of its
entries), `chainActive` and `pindexBestHeader`. -/
structure State where
  mapBlockIndex : List CBlockIndex
  chainActive : CChain
  pindexBestHeader : Option Nat
  deriving DecidableEq, Repr

namespace CChain

/-- Modelled from the spec: `CChain::Height()`, `-1` for the empty chain. -/
def height (c : CChain) : Int := c.vChain.length - 1

/-- Modelled from the spec: `CChain::Tip()`. -/
def tip (c : CChain) : Option Nat := c.vChain.getLast?

/-- Modelled from the spec: `CChain::Genesis()`. -/
def genesis (c : CChain) : Option Nat := c.vChain.head?

/-- Modelled from the spec: `CChain::operator[]`, `NULL` outside `[0, Height()]`. -/
def get (c : CChain) (nHeight : Int) : Option Nat :=
  if 0 ≤ nHeight then c.vChain[nHeight.toNat]? else none

end CChain

namespace State

/-- The number of entries of `mapBlockIndex`. -/
def size (s : State) : Nat := s.mapBlockIndex.length

/-- `*p`: the entry at a position (a default one for a dangling position, which no
reachable state dereferences). -/
def get (s : State) (p : Nat) : CBlockIndex := s.mapBlockIndex.getD p default

/-- `p->pprev`. -/
def parent (s : State) (p : Nat) : Option Nat := (s.get p).pprev

/-- `p->nHeight`. -/
def height (s : State) (p : Nat) : Int := (s.get p).nHeight

/-- `mapBlockIndex.find(hash)`: the entry stored under `hash`. -/
def lookup (s : State) (hash : Uint256) : Option Nat :=
  (List.range s.size).find? fun p => (s.get p).hashBlock == hash

/-- Modelled from the spec: `chainActive.Contains(pindex)`, whether the chain holds this
very entry at its height. -/
def contains (s : State) (p : Nat) : Bool := s.chainActive.get (s.height p) == some p

/-- Modelled from the spec: `chainActive.Next(pindex)`, the chain block above a chain block. -/
def next (s : State) (p : Nat) : Option Nat :=
  if s.contains p then s.chainActive.get (s.height p + 1) else none

/-- `i` steps up the `pprev` links; `NULL` stays `NULL`. -/
def ancestor (s : State) : Nat → Option Nat → Option Nat
  | 0, o => o
  | i + 1, o => s.ancestor i (o.bind s.parent)

/-- Modelled from the spec: `CBlockIndex::GetAncestor(height)` of `chain.cpp`, the ancestor
at `height`, `NULL` above the block or below zero. -/
def getAncestor (s : State) (p : Nat) (height : Int) : Option Nat :=
  if height < 0 ∨ s.height p < height then none
  else s.ancestor (s.height p - height).toNat (some p)

/-- `while (p && cond(p)) p = p->pprev;` run for at most `fuel` steps: the block it stops at,
or `none` when it is still looping after them. -/
def walkBack (s : State) (cond : Nat → Bool) : Nat → Option Nat → Option (Option Nat)
  | _, none => some none
  | 0, some p => if cond p then none else some (some p)
  | fuel + 1, some p => if cond p then s.walkBack cond fuel (s.parent p) else some (some p)

/-- Modelled from the spec: `chainActive.FindFork(pindex)` of `chain.cpp`: go up to the
chain's height, then walk up while the block is not on the chain. A walk up the links meets
each entry once, so the number of entries bounds it; `none` when it meets no chain block. -/
def findFork (s : State) (p : Nat) : Option Nat :=
  let start :=
    if s.chainActive.height < s.height p then s.getAncestor p s.chainActive.height else some p
  (s.walkBack (fun q => !s.contains q) s.size start).join

end State

/-- The rest of the node as these RPCs see it: consensus parameters, node flags, and the
functions they call that live elsewhere. -/
structure Env where
  /-- `UintToArith256(consensus.powLimit).GetCompact()`. -/
  powLimit : UInt32
  nMajorityWindow : Int
  nMajorityEnforceBlockUpgrade : Int
  nMajorityRejectBlockOutdated : Int
  /-- `Params().NetworkIDString()`. -/
  networkIDString : String
  fHavePruned : Bool
  fPruneMode : Bool
  /-- `GetNextWorkRequired(pindexLast, NULL, consensus)`. -/
  getNextWorkRequired : State → Nat → UInt32
  /-- `CBlockHeader::GetHash()`. -/
  blockHash : CBlockHeader → Uint256
  /-- `ReadBlockFromDisk(block, pindex)`: the block, or `none` when the read fails. -/
  readBlockFromDisk : CBlockIndex → Option CBlock
  /-- `ssBlock << pindex->GetBlockHeader()`. -/
  serializeHeader : CBlockIndex → List UInt8
  /-- `ssBlock << block`; `GetSerializeSize` is its length. -/
  serializeBlock : CBlock → List UInt8
  /-- `TxToJSON(tx, uint256(), objTx)`. -/
  txToJSON : CTransaction → UniValue
  /-- `Checkpoints::GuessVerificationProgress(..., chainActive.Tip())`. -/
  guessVerificationProgress : State → ℚ
  /-- `tree.size()` of the note commitment tree at the best anchor. -/
  commitments : Nat

end SafecoinRpc
