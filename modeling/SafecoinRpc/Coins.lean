import SafecoinRpc.BlockRpc

/-!
# `gettxout`, `gettxoutsetinfo` and `verifychain`

The RPCs over the coins database. `gettxout` reads the coins of a transaction, from the view
that includes the memory pool unless told otherwise, refuses an output index outside the
outputs or an output already spent, and reports the output with its confirmations counted from
the view's best block; coins of the memory pool carry the height `MEMPOOL_HEIGHT` and have none.
The statistics and the verification are the database's own, which the RPCs only print.
-/

namespace SafecoinRpc

/-- `CTxOut`: a value and the script that locks it. -/
structure CTxOut where
  nValue : Int
  scriptPubKey : List UInt8
  deriving DecidableEq, Repr

/-- `CTxOut::IsNull()`: the output is spent. -/
def CTxOut.isNull (o : CTxOut) : Bool := o.nValue == -1

instance : Inhabited CTxOut := ⟨⟨-1, []⟩⟩

/-- `CCoins`: the unspent outputs of one transaction. -/
structure CCoins where
  fCoinBase : Bool
  vout : List CTxOut
  nHeight : Int
  nVersion : Int
  deriving DecidableEq, Repr

/-- `CCoinsStats`, as `GetStats` fills it. -/
structure CCoinsStats where
  nHeight : Int
  hashBlock : Uint256
  nTransactions : Nat
  nTransactionOutputs : Nat
  nSerializedSize : Nat
  hashSerialized : Uint256
  nTotalAmount : Int
  deriving DecidableEq, Repr

/-- `MEMPOOL_HEIGHT`: the height of coins that are only in the memory pool. -/
def MEMPOOL_HEIGHT : Nat := 0x7FFFFFFF

/-- The coins database and the functions around it that these RPCs call (not among the
sources). -/
structure CoinsEnv where
  /-- `CCoinsViewMemPool(pcoinsTip, mempool).GetCoins(hash, coins)` and then
  `mempool.pruneSpent(hash, coins)`. -/
  getCoinsMempool : Uint256 → Option CCoins
  /-- `pcoinsTip->GetCoins(hash, coins)`. -/
  getCoinsTip : Uint256 → Option CCoins
  /-- `pcoinsTip->GetBestBlock()`. -/
  bestBlock : Uint256
  /-- `safecoin_accrued_interest(&txheight, &locktime, hash, n, checkheight, checkvalue)`. -/
  safecoinAccruedInterest : Uint256 → Int → Int → Int → UInt64
  /-- `ScriptPubKeyToJSON(scriptPubKey, o, true)`. -/
  scriptPubKeyToJSON : List UInt8 → UniValue
  /-- `FlushStateToDisk()` and then `pcoinsTip->GetStats(stats)`: the statistics, or `none`
  when they cannot be read. -/
  getStats : Option CCoinsStats
  /-- `GetArg(name, default)`. -/
  getArg : String → Int → Int
  /-- `CVerifyDB().VerifyDB(pcoinsTip, nCheckLevel, nCheckDepth)`. -/
  verifyDB : Int → Int → Bool

/-- `gettxout "txid" n ( includemempool )`; `includemempool` defaults to `true`. `none` when
the view's best block is not in `mapBlockIndex`, whose end iterator is then dereferenced, or
when the `int` difference `pindex->nHeight - coins.nHeight + 1` overflows. -/
def gettxout (cenv : CoinsEnv) (s : State) (strHash : String) (n : Int)
    (fMempool : Option Bool) : Option UniValue :=
  let hash := uint256S strHash
  let coins := if fMempool.getD true then cenv.getCoinsMempool hash else cenv.getCoinsTip hash
  match coins with
  | none => some .null
  | some coins =>
    if n < 0 ∨ n ≥ coins.vout.length ∨ (coins.vout.getD n.toNat default).isNull then some .null
    else (s.lookup cenv.bestBlock).bind fun p =>
      let pindex := s.get p
      let out := coins.vout.getD n.toNat default
      let confirmations : Int := if coins.nHeight % 2 ^ 32 = MEMPOOL_HEIGHT then 0
        else pindex.nHeight - coins.nHeight + 1
      let interest := cenv.safecoinAccruedInterest hash n coins.nHeight out.nValue
      if confirmations < INT_MIN ∨ INT_MAX < confirmations then none
      else some (.obj ([("bestblock", .str (getHex pindex.hashBlock)),
        ("confirmations", .num confirmations), ("value", valueFromAmount out.nValue)] ++
        (if interest ≠ 0 then [("interest", valueFromAmount (toSigned 64 interest.toNat))] else []) ++
        [("scriptPubKey", cenv.scriptPubKeyToJSON out.scriptPubKey),
          ("version", .num coins.nVersion), ("coinbase", .bool coins.fCoinBase)]))

/-- `gettxoutsetinfo`: the statistics, or an empty object when they cannot be read. -/
def gettxoutsetinfo (cenv : CoinsEnv) : UniValue :=
  match cenv.getStats with
  | some stats => .obj [("height", .num stats.nHeight), ("bestblock", .str (getHex stats.hashBlock)),
      ("transactions", .num stats.nTransactions), ("txouts", .num stats.nTransactionOutputs),
      ("bytes_serialized", .num stats.nSerializedSize),
      ("hash_serialized", .str (getHex stats.hashSerialized)),
      ("total_amount", valueFromAmount stats.nTotalAmount)]
  | none => .obj []

/-- `verifychain ( checklevel numblocks )`: the defaults are the `-checklevel` and
`-checkblocks` options, themselves `3` and `288` by default. -/
def verifychain (cenv : CoinsEnv) (checklevel numblocks : Option Int) : UniValue :=
  let nCheckLevel := checklevel.getD (cenv.getArg "-checklevel" 3)
  let nCheckDepth := numblocks.getD (cenv.getArg "-checkblocks" 288)
  .bool (cenv.verifyDB nCheckLevel nCheckDepth)

/-! ## Confirmations of an output -/

/-- On a reachable state whose coins view stands at the active tip, an unspent output of a
transaction mined at the height of an active-chain block below `MEMPOOL_HEIGHT` has, by
`gettxout`, the confirmations `getblockheader` reports for that block. -/
theorem gettxout_confirmations {s : State} (hs : Reachable s) (env : Env) (cenv : CoinsEnv)
    (strHash : String) (n : Int) (fMempool : Option Bool) {coins : CCoins} {b t : Nat}
    (hcoins : (if fMempool.getD true then cenv.getCoinsMempool (uint256S strHash)
      else cenv.getCoinsTip (uint256S strHash)) = some coins)
    (hn0 : 0 ≤ n) (hn : n < coins.vout.length) (hspent : (coins.vout.getD n.toNat default).isNull = false)
    (htip : s.chainActive.tip = some t) (hbest : cenv.bestBlock = (s.get t).hashBlock)
    (hb : s.contains b) (hheight : coins.nHeight = s.height b) (hmax : s.height b < MEMPOOL_HEIGHT) :
    ∃ json, gettxout cenv s strHash n fMempool = some json ∧
      json.find "bestblock" = some (.str (getHex (s.get t).hashBlock)) ∧
      json.find "confirmations" = (blockheaderToJSON env s b).find "confirmations" := by
  have hw := hs.wf
  have hlook : s.lookup cenv.bestBlock = some t := by
    rw [hbest]
    exact hw.lookup_hashBlock (hw.tip_lt_size htip)
  have h0 := hw.height_nonneg (hw.lt_size_of_contains hb)
  have hmod : coins.nHeight % 2 ^ 32 ≠ (MEMPOOL_HEIGHT : Int) := by
    unfold MEMPOOL_HEIGHT at hmax ⊢
    rw [hheight, Int.emod_eq_of_lt h0 (by omega)]
    omega
  obtain ⟨hconf, hc1, hcH⟩ := (hw.confirmations_spec b).2 hb
  -- the `int` difference is the block's confirmations, which fit an `int`
  have hval : (s.get t).nHeight - coins.nHeight + 1 = s.confirmations b := by
    rw [hconf, hheight, ← hw.height_tip htip]
    rfl
  have hfit : ¬(s.confirmations b < INT_MIN ∨ INT_MAX < s.confirmations b) := by
    have := hw.chain_height_lt
    unfold INT_MIN; omega
  refine ⟨_, by
    simp only [gettxout, hcoins]
    rw [if_neg (by simp only [hspent, Bool.false_eq_true, or_false]; omega), hlook,
      Option.some_bind, if_neg hmod, hval, if_neg hfit], by rfl, by rfl⟩

/-- A coins view at the fork scenario's tip holding one unspent output, mined at height `1`. -/
def sampleCoinsEnv : CoinsEnv where
  getCoinsMempool _ := some ⟨false, [⟨5000, []⟩], 1, 1⟩
  getCoinsTip _ := none
  bestBlock := BitVec.ofNat 256 3
  safecoinAccruedInterest _ _ _ _ := 0
  scriptPubKeyToJSON _ := .obj []
  getStats := none
  getArg _ d := d
  verifyDB _ _ := true

theorem gettxout_confirmations_forkScenario :
    Reachable forkScenario ∧
    (if (none : Option Bool).getD true then sampleCoinsEnv.getCoinsMempool (uint256S "00")
      else sampleCoinsEnv.getCoinsTip (uint256S "00")) = some ⟨false, [⟨5000, []⟩], 1, 1⟩ ∧
    (0 : Int) ≤ 0 ∧ (0 : Int) < ([⟨5000, []⟩] : List CTxOut).length ∧
    (([⟨5000, []⟩] : List CTxOut).getD (0 : Int).toNat default).isNull = false ∧
    forkScenario.chainActive.tip = some 2 ∧
    sampleCoinsEnv.bestBlock = (forkScenario.get 2).hashBlock ∧
    forkScenario.contains 1 ∧ (1 : Int) = forkScenario.height 1 ∧
    forkScenario.height 1 < MEMPOOL_HEIGHT ∧
    ∃ json, gettxout sampleCoinsEnv forkScenario "00" 0 none = some json ∧
      json.find "bestblock" = some (.str (getHex (forkScenario.get 2).hashBlock)) ∧
      json.find "confirmations" = (blockheaderToJSON sampleEnv forkScenario 1).find "confirmations" :=
  ⟨forkScenario_reachable, rfl, by decide, by decide, rfl, rfl, rfl, by decide, rfl, by decide,
    gettxout_confirmations forkScenario_reachable sampleEnv sampleCoinsEnv "00" 0 none rfl
      (by decide) (by decide) rfl rfl rfl (by decide) rfl (by decide)⟩

end SafecoinRpc
