import SafecoinRpc.BlockJSON

/-!
# `getblockhash`, `getblockheader` and `getblock`

`getblockhash` prints the hash of the active chain's entry at a height and `getblockheader`
finds an entry by the hash it is given. Because `uint256S` reads back what `getHex` writes
and every entry is stored under its own hash, the two are inverse between the chain's heights
and its hashes. `getblock` takes a string shorter than a hash as a height: it must be a run of
digits whose value is a height of the chain (`blockHashOfHeight_of_digits`), and then the
block is looked up by the hash of the chain's entry at that height.
-/

namespace SafecoinRpc

namespace State

/-- Dereferencing a `CBlockIndex*`: `default` stands for the null pointer, which the callers
never dereference. -/
def deref (s : State) (o : Option Nat) : CBlockIndex := o.elim default s.get

end State

/-- `getblockhash index`. -/
def getblockhash (s : State) (nHeight : Int) : Except RPCError UniValue :=
  if nHeight < 0 ∨ nHeight > s.chainActive.height then
    .error ⟨.RPC_INVALID_PARAMETER, "Block height out of range"⟩
  else .ok (.str (getHex (s.deref (s.chainActive.get nHeight)).hashBlock))

/-- `getblockheader hash ( verbose )`; `verbose` defaults to `true`. -/
def getblockheader (env : Env) (s : State) (strHash : String) (fVerbose : Option Bool) :
    Except RPCError UniValue :=
  match s.lookup (uint256S strHash) with
  | none => .error ⟨.RPC_INVALID_ADDRESS_OR_KEY, "Block not found"⟩
  | some p =>
    if fVerbose.getD true then .ok (blockheaderToJSON env s p)
    else .ok (.str (hexStr (env.serializeHeader (s.get p))))

/-- The height path of `getblock`: the string must be a run of digits that `std::stoi` reads as
a height of the active chain, whose entry's hash replaces it. -/
def blockHashOfHeight (s : State) (strHash : String) : Except RPCError String :=
  if !regexMatchDigits strHash then .error ⟨.RPC_INVALID_PARAMETER, "Invalid block height parameter"⟩
  else match stoi strHash with
    | .error _ => .error ⟨.RPC_INVALID_PARAMETER, "Invalid block height parameter"⟩
    | .ok nHeight =>
      if nHeight < 0 ∨ nHeight > s.chainActive.height then
        .error ⟨.RPC_INVALID_PARAMETER, "Block height out of range"⟩
      else .ok (getHex (s.deref (s.chainActive.get nHeight)).hashBlock)

/-- The hash path of `getblock`: look the block up, refuse pruned data, read it from disk. -/
def getblockByHash (env : Env) (s : State) (strHash : String) (fVerbose : Bool) :
    Except RPCError UniValue :=
  match s.lookup (uint256S strHash) with
  | none => .error ⟨.RPC_INVALID_ADDRESS_OR_KEY, "Block not found"⟩
  | some p =>
    let e := s.get p
    if env.fHavePruned && e.nStatus &&& BLOCK_HAVE_DATA == 0 && e.nTx > 0 then
      .error ⟨.RPC_INTERNAL_ERROR, "Block not available (pruned data)"⟩
    else match env.readBlockFromDisk e with
      | none => .error ⟨.RPC_INTERNAL_ERROR, "Can't read block from disk"⟩
      | some block =>
        if fVerbose then .ok (blockToJSON env s block p false)
        else .ok (.str (hexStr (env.serializeBlock block)))

/-- `getblock hash|height ( verbose )`: a string shorter than `2 * sizeof(uint256)` is a
height; `verbose` defaults to `true`. -/
def getblock (env : Env) (s : State) (strHash : String) (fVerbose : Option Bool) :
    Except RPCError UniValue := do
  let strHash ← if strHash.utf8ByteSize < 2 * 32 then blockHashOfHeight s strHash else pure strHash
  getblockByHash env s strHash (fVerbose.getD true)

/-! ## Heights and hashes of the active chain -/

namespace State.WF

variable {s : State} (hs : s.WF)
include hs

/-- Every height from `0` to the chain's height has an entry on the chain, at that height. -/
theorem chain_get_of_le {h : Int} (h0 : 0 ≤ h) (hH : h ≤ s.chainActive.height) :
    ∃ p, s.chainActive.get h = some p ∧ p < s.size ∧ s.height p = h ∧ s.contains p := by
  rw [chain_height_eq] at hH
  obtain ⟨p, hp⟩ := exists_getElem?_of_lt (l := s.chainActive.vChain) (h := h.toNat) (by omega)
  refine ⟨p, by rw [chain_get_of_nonneg _ h0, hp], hs.lt_size hp, ?_, (hs.contains_iff).2 ⟨_, hp⟩⟩
  rw [hs.height_of_vChain hp]
  omega

/-- The chain's height stays below `INT_MAX`. -/
theorem chain_height_lt : s.chainActive.height < INT_MAX := by
  obtain ⟨t, ht, -⟩ := hs.tip_spec
  rw [← hs.height_tip ht]
  exact hs.height_lt (hs.tip_lt_size ht)

/-- `getblockheader` finds every stored entry by the hex of its hash. -/
theorem getblockheader_getHex (env : Env) {p : Nat} (hp : p < s.size) :
    getblockheader env s (getHex (s.get p).hashBlock) none = .ok (blockheaderToJSON env s p) := by
  rw [getblockheader, uint256S_getHex, hs.lookup_hashBlock hp]
  rfl

/-- `getblockhash` prints the hash of the chain's entry at each height of the chain. -/
theorem getblockhash_of_contains {p : Nat} (hc : s.contains p) :
    getblockhash s (s.height p) = .ok (.str (getHex (s.get p).hashBlock)) := by
  have h0 := hs.height_nonneg (hs.lt_size_of_contains hc)
  have hH := hs.height_le_of_contains hc
  have hget : s.chainActive.get (s.height p) = some p := by simpa [contains] using hc
  rw [getblockhash, if_neg (by omega), hget]
  rfl

end State.WF

/-- `getblockhash` succeeds exactly on the heights of the active chain, and there
`getblockheader` of its result reports that height and the confirmations of that depth;
conversely `getblockhash` of the height `getblockheader` reports for a chain entry's hash
prints that hash. -/
theorem getblockhash_getblockheader {s : State} (hs : Reachable s) (env : Env) :
    (∀ h : Int, ¬(0 ≤ h ∧ h ≤ s.chainActive.height) →
      getblockhash s h = .error ⟨.RPC_INVALID_PARAMETER, "Block height out of range"⟩) ∧
    (∀ h : Int, 0 ≤ h → h ≤ s.chainActive.height → ∃ x, getblockhash s h = .ok (.str x) ∧
      ∃ json, getblockheader env s x none = .ok json ∧ json.find "height" = some (.num h) ∧
        json.find "confirmations" = some (.num (s.chainActive.height - h + 1))) ∧
    (∀ p, s.contains p = true → ∃ json,
      getblockheader env s (getHex (s.get p).hashBlock) none = .ok json ∧
      ∃ h, json.find "height" = some (.num h) ∧
        getblockhash s h = .ok (.str (getHex (s.get p).hashBlock))) := by
  have hw := hs.wf
  refine ⟨fun h hh => ?_, fun h h0 hH => ?_, fun p hc => ?_⟩
  · rw [getblockhash, if_pos (by omega)]
  · obtain ⟨p, hget, hp, hhp, hc⟩ := hw.chain_get_of_le h0 hH
    have hconf := ((hw.confirmations_spec p).2 hc).1
    refine ⟨_, by rw [← hhp]; exact hw.getblockhash_of_contains hc, _,
      hw.getblockheader_getHex env hp, by rw [find_blockheaderToJSON_height]; exact hhp ▸ rfl, ?_⟩
    rw [find_blockheaderToJSON_confirmations, hconf, hhp]
  · exact ⟨_, hw.getblockheader_getHex env (hw.lt_size_of_contains hc), _,
      find_blockheaderToJSON_height env s p, hw.getblockhash_of_contains hc⟩

theorem getblockhash_getblockheader_forkScenario :
    Reachable forkScenario ∧
    (∀ h : Int, ¬(0 ≤ h ∧ h ≤ forkScenario.chainActive.height) →
      getblockhash forkScenario h = .error ⟨.RPC_INVALID_PARAMETER, "Block height out of range"⟩) ∧
    (∀ h : Int, 0 ≤ h → h ≤ forkScenario.chainActive.height →
      ∃ x, getblockhash forkScenario h = .ok (.str x) ∧
      ∃ json, getblockheader sampleEnv forkScenario x none = .ok json ∧
        json.find "height" = some (.num h) ∧
        json.find "confirmations" = some (.num (forkScenario.chainActive.height - h + 1))) ∧
    (∀ p, forkScenario.contains p = true → ∃ json,
      getblockheader sampleEnv forkScenario (getHex (forkScenario.get p).hashBlock) none =
        .ok json ∧
      ∃ h, json.find "height" = some (.num h) ∧
        getblockhash forkScenario h = .ok (.str (getHex (forkScenario.get p).hashBlock))) :=
  ⟨forkScenario_reachable, getblockhash_getblockheader forkScenario_reachable sampleEnv⟩

/-! ## The height path of `getblock` -/

/-- A string of digits is a height when `std::stoi` reads it within `int` and it is at most the
chain's height. -/
theorem blockHashOfHeight_of_digits (s : State) {str : String} (hdig : regexMatchDigits str = true) :
    blockHashOfHeight s str =
      if INT_MAX < decimalValue str.toList then
        .error ⟨.RPC_INVALID_PARAMETER, "Invalid block height parameter"⟩
      else if s.chainActive.height < decimalValue str.toList then
        .error ⟨.RPC_INVALID_PARAMETER, "Block height out of range"⟩
      else .ok (getHex (s.deref (s.chainActive.get (decimalValue str.toList))).hashBlock) := by
  obtain ⟨hne, hd⟩ := regexMatchDigits_iff.1 hdig
  have hstoi : stoi str = if INT_MAX < decimalValue str.toList then .error .out_of_range
      else .ok (decimalValue str.toList) := by
    cases str
    exact stoi_of_digits hne hd
  simp only [blockHashOfHeight, hdig, Bool.not_true, Bool.false_eq_true, if_false, hstoi]
  split_ifs with h₁ h₂
  · rfl
  · exact if_pos (.inr h₂)
  · exact if_neg (by omega)

/-- `getblock` of a string shorter than a hash: an `RPC_INVALID_PARAMETER` error unless it is a
run of digits naming a height of the active chain, and otherwise `getblock` of the hash of the
chain's entry there; a longer string is looked up as a hash. -/
theorem getblock_height_path {s : State} (hs : Reachable s) (env : Env) (str : String)
    (fVerbose : Option Bool) :
    (str.utf8ByteSize < 64 →
      (¬(regexMatchDigits str = true ∧ (decimalValue str.toList : Int) ≤ s.chainActive.height) →
        ∃ msg, (msg = "Invalid block height parameter" ∨ msg = "Block height out of range") ∧
          getblock env s str fVerbose = .error ⟨.RPC_INVALID_PARAMETER, msg⟩) ∧
      (regexMatchDigits str = true → (decimalValue str.toList : Int) ≤ s.chainActive.height →
        getblock env s str fVerbose = getblock env s
          (getHex (s.deref (s.chainActive.get (decimalValue str.toList))).hashBlock) fVerbose)) ∧
    (64 ≤ str.utf8ByteSize →
      getblock env s str fVerbose = getblockByHash env s str (fVerbose.getD true)) := by
  have hH := hs.wf.chain_height_lt
  refine ⟨fun hlt => ⟨fun hnot => ?_, fun hdig hle => ?_⟩, fun hge => ?_⟩
  · rw [getblock, if_pos hlt]
    cases hdig : regexMatchDigits str
    · exact ⟨_, .inl rfl, by simp only [blockHashOfHeight, hdig]; rfl⟩
    · rw [blockHashOfHeight_of_digits s hdig]
      split_ifs with h₁ h₂
      · exact ⟨_, .inl rfl, rfl⟩
      · exact ⟨_, .inr rfl, rfl⟩
      · exact absurd ⟨hdig, by omega⟩ hnot
  · have hhex := getHex_utf8ByteSize (s.deref (s.chainActive.get (decimalValue str.toList))).hashBlock
    rw [getblock, getblock, if_pos hlt, blockHashOfHeight_of_digits s hdig, if_neg (by omega),
      if_neg (by omega), if_neg (by omega)]
    rfl
  · rw [getblock, if_neg (by omega)]
    rfl
theorem getblock_height_path_forkScenario :
    Reachable forkScenario ∧
    ("1".utf8ByteSize < 64 →
      (¬(regexMatchDigits "1" = true ∧
          (decimalValue "1".toList : Int) ≤ forkScenario.chainActive.height) →
        ∃ msg, (msg = "Invalid block height parameter" ∨ msg = "Block height out of range") ∧
          getblock sampleEnv forkScenario "1" none = .error ⟨.RPC_INVALID_PARAMETER, msg⟩) ∧
      (regexMatchDigits "1" = true →
        (decimalValue "1".toList : Int) ≤ forkScenario.chainActive.height →
        getblock sampleEnv forkScenario "1" none = getblock sampleEnv forkScenario
          (getHex (forkScenario.deref
            (forkScenario.chainActive.get (decimalValue "1".toList))).hashBlock) none)) ∧
    (64 ≤ "1".utf8ByteSize →
      getblock sampleEnv forkScenario "1" none = getblockByHash sampleEnv forkScenario "1" true) :=
  ⟨forkScenario_reachable, getblock_height_path forkScenario_reachable sampleEnv "1" none⟩

end SafecoinRpc
