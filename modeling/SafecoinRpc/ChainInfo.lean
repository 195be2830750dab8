import SafecoinRpc.BlockRpc

/-!
# `getblockchaininfo`

The soft-fork report counts, among the last `nMajorityWindow` blocks up from a block, those of
at least a version (`SoftForkMajorityDesc`): the loop stops at the window or at the genesis,
so it counts the first `min W (h + 1)` entries of the block's ancestry (`majorityLoop_eq`).
In prune mode the walk down from the tip while the parent still has its data stops within
the store and reports the lowest height from which every block below the tip has its data.
-/

namespace SafecoinRpc

namespace State

/-- The loop of `SoftForkMajorityDesc` with `k` iterations of the window left: count the
blocks of at least `minVersion` while walking up from `pstart`. -/
def majorityLoop (s : State) (minVersion : Int) : Nat → Option Nat → Nat → Nat
  | 0, _, nFound => nFound
  | _ + 1, none, nFound => nFound
  | k + 1, some p, nFound =>
    s.majorityLoop minVersion k (s.parent p)
      (if minVersion ≤ (s.get p).nVersion then nFound + 1 else nFound)

/-- The number of entries from `o` up to its root: none for `NULL`. -/
def chainLength (s : State) (o : Option Nat) : Nat :=
  match o with
  | some p => (s.height p).toNat + 1
  | none => 0

/-- The test of the prune walk at `block`: it has a parent, and the parent has its data. -/
def parentHasData (s : State) (b : Nat) : Bool :=
  match s.parent b with
  | some q => (s.get q).nStatus &&& BLOCK_HAVE_DATA != 0
  | none => false

/-- The block data of the active chain's entry at height `h` is on disk. -/
def haveDataAt (s : State) (h : Int) : Bool :=
  (s.deref (s.chainActive.get h)).nStatus &&& BLOCK_HAVE_DATA != 0

end State

/-- `SoftForkMajorityDesc(minVersion, pindex, nRequired, consensusParams)`. -/
def softForkMajorityDesc (env : Env) (s : State) (minVersion : Int) (pindex : Option Nat)
    (nRequired : Int) : UniValue :=
  let nFound := s.majorityLoop minVersion env.nMajorityWindow.toNat pindex 0
  .obj [("status", .bool (decide (nRequired ≤ nFound))), ("found", .num nFound),
    ("required", .num nRequired), ("window", .num env.nMajorityWindow)]

/-- `SoftForkDesc(name, version, pindex, consensusParams)`. -/
def softForkDesc (env : Env) (s : State) (name : String) (version : Int) (pindex : Option Nat) :
    UniValue :=
  .obj [("id", .str name), ("version", .num version),
    ("enforce", softForkMajorityDesc env s version pindex env.nMajorityEnforceBlockUpgrade),
    ("reject", softForkMajorityDesc env s version pindex env.nMajorityRejectBlockOutdated)]

/-- `getblockchaininfo`: `none` only if the prune walk runs out of fuel, which it never does
in a reachable state (`pruneWalk_least`). -/
def getblockchaininfo (env : Env) (s : State) : Option UniValue :=
  let tip := s.chainActive.tip
  let softforks := UniValue.arr [softForkDesc env s "bip34" 2 tip, softForkDesc env s "bip66" 3 tip,
    softForkDesc env s "bip65" 4 tip]
  let obj : List (String × UniValue) :=
    [("chain", .str env.networkIDString),
      ("blocks", .num s.chainActive.height),
      ("headers", .num (match s.pindexBestHeader with | some p => s.height p | none => -1)),
      ("bestblockhash", .str (getHex (s.deref tip).hashBlock)),
      ("difficulty", .real (getNetworkDifficulty env s none)),
      ("verificationprogress", .real (env.guessVerificationProgress s)),
      ("chainwork", .str (getHex (s.deref tip).nChainWork)),
      ("pruned", .bool env.fPruneMode),
      ("commitments", .num env.commitments),
      ("softforks", softforks)]
  if env.fPruneMode then
    (s.walkBack s.parentHasData s.size tip).map fun block =>
      .obj (obj ++ [("pruneheight", .num (s.deref block).nHeight)])
  else some (.obj obj)

/-! ## The soft-fork count -/

namespace State

variable {s : State}

theorem countP_range_succ (f : Nat → Bool) (n : Nat) :
    (List.range (n + 1)).countP f = (List.range n).countP (fun i => f (i + 1)) + if f 0 then 1 else 0 := by
  rw [List.range_succ_eq_map, List.countP_cons, List.countP_map]
  rfl

/-- The loop adds the blocks of at least `minVersion` among the first `min k` entries of the
ancestry of `o`. -/
theorem StoreWF.majorityLoop_eq (hs : s.StoreWF) (minVersion : Int) (k : Nat) {o : Option Nat}
    (ho : ∀ p ∈ o, p < s.size) (nFound : Nat) :
    s.majorityLoop minVersion k o nFound = nFound + (List.range (min k (s.chainLength o))).countP
      fun i => minVersion ≤ (s.deref (s.ancestor i o)).nVersion := by
  induction k generalizing o nFound with
  | zero => simp [majorityLoop]
  | succ k ih =>
    cases o with
    | none => simp [majorityLoop, chainLength]
    | some p =>
      have hp := ho p rfl
      have hlen : s.chainLength (s.parent p) = (s.height p).toNat := by
        cases hq : s.parent p with
        | none => simp [chainLength, hs.height_root hp hq]
        | some q =>
          have := hs.height_pprev hp hq
          have := hs.height_nonneg (hs.pprev_lt hp hq |>.trans hp)
          simp only [chainLength]
          omega
      have hpar : ∀ q ∈ s.parent p, q < s.size := fun q hq => (hs.pprev_lt hp hq).trans hp
      rw [majorityLoop, ih hpar, hlen, chainLength, Nat.succ_min_succ, countP_range_succ]
      have h0 : s.deref (s.ancestor 0 (some p)) = s.get p := rfl
      simp only [ancestor_succ_some, h0, decide_eq_true_eq]
      split_ifs <;> omega

end State

namespace State

variable {s : State}

theorem parentHasData_eq_true {b : Nat} : s.parentHasData b = true ↔
    ∃ r, s.parent b = some r ∧ (s.get r).nStatus &&& BLOCK_HAVE_DATA ≠ 0 := by
  unfold parentHasData
  cases s.parent b <;> simp

theorem haveDataAt_of_get {h : Int} {r : Nat} (hr : s.chainActive.get h = some r) :
    s.haveDataAt h = ((s.get r).nStatus &&& BLOCK_HAVE_DATA != 0) := by
  rw [haveDataAt, hr]
  rfl

namespace WF

variable (hs : s.WF)
include hs

/-- The chain's entry at a height is the tip's ancestor that many steps below the tip. -/
theorem chain_get_eq_ancestor {t : Nat} (ht : s.chainActive.tip = some t) {m : Int} (h0 : 0 ≤ m)
    (hm : m ≤ s.chainActive.height) :
    s.chainActive.get m = s.ancestor (s.chainActive.height - m).toNat (some t) := by
  rw [chain_height_eq] at hm ⊢
  rw [chain_get_of_nonneg _ h0, ← hs.vChain_eq_ancestor ht (by omega)]
  congr 1
  omega

/-- The prune walk from the tip stops, `k` steps down, at an entry whose parent is missing its
data or which is the root; every entry it passes has a parent with its data. -/
theorem pruneWalk_spec {t : Nat} (ht : s.chainActive.tip = some t) :
    ∃ k b, k ≤ (s.height t).toNat ∧ s.walkBack s.parentHasData s.size (some t) = some (some b) ∧
      s.ancestor k (some t) = some b ∧ s.parentHasData b = false ∧
      ∀ j < k, ∃ q, s.ancestor j (some t) = some q ∧ s.parentHasData q = true := by
  have htl := hs.tip_lt_size ht
  have hfuel : (s.height t).toNat < s.size := by
    have := hs.height_le_pos htl; have := hs.height_nonneg htl; omega
  obtain ⟨k, -, hw, hpass, hstop⟩ := hs.walkBack_spec s.parentHasData htl hfuel
  obtain ⟨b, hb⟩ : ∃ b, s.ancestor k (some t) = some b := by
    cases k with
    | zero => exact ⟨t, rfl⟩
    | succ j =>
      obtain ⟨q, hq, hd⟩ := hpass j (by omega)
      obtain ⟨r, hr, -⟩ := parentHasData_eq_true.1 hd
      exact ⟨r, by rw [ancestor_succ, hq]; exact hr⟩
  have hk : k ≤ (s.height t).toNat := by
    by_contra hgt
    rw [hs.ancestor_eq_none htl (by omega)] at hb
    cases hb
  exact ⟨k, b, hk, by rw [hw, hb], hb, hstop b hb, hpass⟩

/-- The chain's entry one below an entry the walk passes has its data. -/
theorem haveDataAt_of_pass {t j q : Nat} (ht : s.chainActive.tip = some t)
    (hq : s.ancestor j (some t) = some q) (hd : s.parentHasData q = true)
    (hj : j < s.chainActive.height) : s.haveDataAt (s.chainActive.height - j - 1) = true := by
  obtain ⟨r, hr, hrd⟩ := parentHasData_eq_true.1 hd
  have hget : s.chainActive.get (s.chainActive.height - j - 1) = some r := by
    rw [hs.chain_get_eq_ancestor ht (by omega) (by omega),
      show (s.chainActive.height - (s.chainActive.height - j - 1)).toNat = j + 1 by omega,
      ancestor_succ, hq]
    exact hr
  rw [haveDataAt_of_get hget]
  simpa using hrd

/-- The chain's entry below the one the walk stops at, if any, lacks its data. -/
theorem haveDataAt_of_stop {t k b : Nat} (ht : s.chainActive.tip = some t)
    (hb : s.ancestor k (some t) = some b) (hstop : s.parentHasData b = false)
    (hpos : 0 < s.height b) : s.haveDataAt (s.height b - 1) = false := by
  have htl := hs.tip_lt_size ht
  obtain ⟨hbl, hbh⟩ := hs.height_of_ancestor htl hb
  obtain ⟨r, hr⟩ := hs.parent_some_of_height_pos hbl hpos
  have hget : s.chainActive.get (s.height b - 1) = some r := by
    rw [hs.chain_get_eq_ancestor ht (by omega) (by rw [← hs.height_tip ht]; omega),
      show (s.chainActive.height - (s.height b - 1)).toNat = k + 1 by
        rw [← hs.height_tip ht]; omega,
      ancestor_succ, hb]
    exact hr
  rw [haveDataAt_of_get hget, ← hstop, parentHasData, hr]

/-- The prune walk from the tip stops at the least height from which every chain entry below
the tip has its data. -/
theorem pruneWalk_least {t : Nat} (ht : s.chainActive.tip = some t) :
    ∃ b, s.walkBack s.parentHasData s.size (some t) = some (some b) ∧ 0 ≤ s.height b ∧
      s.height b ≤ s.chainActive.height ∧
      (∀ m, s.height b ≤ m → m < s.chainActive.height → s.haveDataAt m = true) ∧
      ∀ h', 0 ≤ h' → (∀ m, h' ≤ m → m < s.chainActive.height → s.haveDataAt m = true) →
        s.height b ≤ h' := by
  have htl := hs.tip_lt_size ht
  have hH := hs.height_tip ht
  obtain ⟨k, b, hk, hwalk, hb, hstop, hpass⟩ := hs.pruneWalk_spec ht
  obtain ⟨hbl, hbh⟩ := hs.height_of_ancestor htl hb
  have h0 := hs.height_nonneg hbl
  refine ⟨b, hwalk, h0, by omega, fun m hm₁ hm₂ => ?_, fun h' _ hall => ?_⟩
  · obtain ⟨q, hq, hd⟩ := hpass (s.chainActive.height - m - 1).toNat (by omega)
    have := hs.haveDataAt_of_pass ht hq hd (by omega)
    rwa [show s.chainActive.height - ((s.chainActive.height - m - 1).toNat : Int) - 1 = m by
      omega] at this
  · by_contra hlt
    have := hall (s.height b - 1) (by omega) (by omega)
    rw [hs.haveDataAt_of_stop ht hb hstop (by omega)] at this
    cases this

end WF

end State

/-- In prune mode `getblockchaininfo` answers, and its `pruneheight` is the least height from
which every entry of the active chain below the tip has its data: `0` when all of them have
it, the tip's height when the tip's parent lacks it. -/
theorem getblockchaininfo_pruneheight {s : State} (hs : Reachable s) (env : Env)
    (hprune : env.fPruneMode = true) :
    ∃ json h, getblockchaininfo env s = some json ∧ json.find "pruneheight" = some (.num h) ∧
      0 ≤ h ∧ h ≤ s.chainActive.height ∧
      (∀ k, h ≤ k → k < s.chainActive.height → s.haveDataAt k = true) ∧
      (∀ h', 0 ≤ h' → (∀ k, h' ≤ k → k < s.chainActive.height → s.haveDataAt k = true) →
        h ≤ h') ∧
      ((∀ k, 0 ≤ k → k < s.chainActive.height → s.haveDataAt k = true) → h = 0) ∧
      (0 < s.chainActive.height → s.haveDataAt (s.chainActive.height - 1) = false →
        h = s.chainActive.height) := by
  have hw := hs.wf
  obtain ⟨t, ht, -⟩ := hw.tip_spec
  obtain ⟨b, hwalk, h0, hle, hdata, hmin⟩ := hw.pruneWalk_least ht
  obtain ⟨json, hjson, hfind⟩ : ∃ json, getblockchaininfo env s = some json ∧
      json.find "pruneheight" = some (.num (s.height b)) := by
    simp only [getblockchaininfo, hprune, if_true, ht, hwalk, Option.map_some']
    exact ⟨_, rfl, rfl⟩
  refine ⟨json, s.height b, hjson, hfind, h0, hle, hdata, hmin,
    fun hall => le_antisymm (hmin 0 le_rfl hall) h0, fun hpos hlack => ?_⟩
  by_contra hne
  have := hdata (s.chainActive.height - 1) (by omega) (by omega)
  rw [hlack] at this
  cases this

theorem getblockchaininfo_pruneheight_forkScenario :
    Reachable forkScenario ∧ ({ sampleEnv with fPruneMode := true } : Env).fPruneMode = true ∧
    ∃ json h, getblockchaininfo { sampleEnv with fPruneMode := true } forkScenario = some json ∧
      json.find "pruneheight" = some (.num h) ∧
      0 ≤ h ∧ h ≤ forkScenario.chainActive.height ∧
      (∀ k, h ≤ k → k < forkScenario.chainActive.height → forkScenario.haveDataAt k = true) ∧
      (∀ h', 0 ≤ h' →
        (∀ k, h' ≤ k → k < forkScenario.chainActive.height → forkScenario.haveDataAt k = true) →
        h ≤ h') ∧
      ((∀ k, 0 ≤ k → k < forkScenario.chainActive.height → forkScenario.haveDataAt k = true) →
        h = 0) ∧
      (0 < forkScenario.chainActive.height →
        forkScenario.haveDataAt (forkScenario.chainActive.height - 1) = false →
        h = forkScenario.chainActive.height) :=
  ⟨forkScenario_reachable, rfl,
    getblockchaininfo_pruneheight forkScenario_reachable { sampleEnv with fPruneMode := true } rfl⟩

end SafecoinRpc
