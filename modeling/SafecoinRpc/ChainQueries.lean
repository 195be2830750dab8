import SafecoinRpc.BlockRpc
import SafecoinRpc.ChainTips

/-!
# `getblockcount`, `getbestblockhash` and `getdifficulty`

The three one-line queries of the active chain. On every reachable state they agree with the
block RPCs: the count is a height of the chain, `getblockhash` of it prints the best block's
hash, and `getblockheader` of that hash reports the count as its height, one confirmation and
no next block (`getbestblockhash_consistent`). Every entry of `getchaintips` names by its hash a
block that `getblockheader` finds at the entry's height, with one confirmation for the `active`
tip and `-1` for the others (`getchaintips_getblockheader`).
-/

namespace SafecoinRpc

/-- `getblockcount`: `chainActive.Height()`. -/
def getblockcount (s : State) : Int := s.chainActive.height

/-- `getbestblockhash`: `chainActive.Tip()->GetBlockHash().GetHex()`. -/
def getbestblockhash (s : State) : String := getHex (s.deref s.chainActive.tip).hashBlock

/-- `getdifficulty`: `GetNetworkDifficulty()`, at the tip. -/
def getdifficulty (env : Env) (s : State) : UniValue := .real (getNetworkDifficulty env s none)

/-- On every reachable state the block count is a height of the chain, `getblockhash` of it
prints `getbestblockhash`, and `getblockheader` of that hash reports the count as its height,
one confirmation and no `nextblockhash`. -/
theorem getbestblockhash_consistent {s : State} (hs : Reachable s) (env : Env) :
    0 ≤ getblockcount s ∧
    getblockhash s (getblockcount s) = .ok (.str (getbestblockhash s)) ∧
    ∃ json, getblockheader env s (getbestblockhash s) none = .ok json ∧
      json.find "height" = some (.num (getblockcount s)) ∧
      json.find "confirmations" = some (.num 1) ∧
      json.find "nextblockhash" = none := by
  have hw := hs.wf
  obtain ⟨t, ht, -⟩ := hw.tip_spec
  have hct := hw.contains_tip ht
  have hh := hw.height_tip ht
  have hbest : getbestblockhash s = getHex (s.get t).hashBlock := by
    rw [getbestblockhash, ht]
    rfl
  have hnext : s.next t = none := by
    cases hn : s.next t with
    | none => rfl
    | some n =>
      have := (hw.next_isSome_iff (b := t)).1 (by rw [hn]; rfl)
      exact absurd ht this.2
  refine ⟨hw.chain_height_nonneg, by rw [getblockcount, ← hh, hbest, hw.getblockhash_of_contains hct],
    blockheaderToJSON env s t, by rw [hbest, hw.getblockheader_getHex env (hw.tip_lt_size ht)],
    by rw [find_blockheaderToJSON_height, getblockcount, ← hh]; rfl, ?_, ?_⟩
  · rw [find_blockheaderToJSON_confirmations, ((hw.confirmations_spec t).2 hct).1, hh]
    congr 2
    omega
  · rw [find_blockheaderToJSON_nextblockhash, hnext]
    rfl

theorem getbestblockhash_consistent_forkScenario :
    Reachable forkScenario ∧
    0 ≤ getblockcount forkScenario ∧
    getblockhash forkScenario (getblockcount forkScenario) = .ok (.str (getbestblockhash forkScenario)) ∧
    ∃ json, getblockheader sampleEnv forkScenario (getbestblockhash forkScenario) none = .ok json ∧
      json.find "height" = some (.num (getblockcount forkScenario)) ∧
      json.find "confirmations" = some (.num 1) ∧
      json.find "nextblockhash" = none :=
  ⟨forkScenario_reachable, getbestblockhash_consistent forkScenario_reachable sampleEnv⟩

/-- On every reachable forest whose one root is the chain's genesis, and for every order of
visiting `mapBlockIndex`, every entry of `getchaintips` names by its `hash` a block that
`getblockheader` finds: the header reports the entry's height, and one confirmation when the
entry's status is `active`, `-1` otherwise. -/
theorem getchaintips_getblockheader {s : State} (hs : Reachable s) (hroot : s.SingleRoot)
    (env : Env) {items : List Nat} (hitems : items.Perm (List.range s.size)) :
    ∃ entries, s.getchaintips items = some (.arr entries) ∧
      ∀ e ∈ entries, ∃ x json, e.find "hash" = some (.str x) ∧
        getblockheader env s x none = .ok json ∧
        json.find "height" = e.find "height" ∧
        json.find "confirmations" = some (.num (if isActiveEntry e then 1 else -1)) := by
  have hw := hs.wf
  obtain ⟨tip, htip, -⟩ := hw.tip_spec
  obtain ⟨setTips, hset, -, hmem⟩ :=
    State.mem_setTips (fun p => by rw [hitems.mem_iff, List.mem_range]) htip
  refine ⟨setTips.flatMap fun _ => setTips.map s.chainTipEntry, by simp [State.getchaintips, hset],
    fun e he => ?_⟩
  obtain ⟨t, ht, rfl⟩ : ∃ t ∈ setTips, e = s.chainTipEntry t := by
    simp only [List.mem_flatMap, List.mem_map] at he
    obtain ⟨-, -, t, ht, rfl⟩ := he
    exact ⟨t, ht, rfl⟩
  obtain ⟨htt, hts⟩ := hw.leaf_or_tip_of_mem htip hmem ht
  obtain ⟨f, -, hentry, -⟩ := hw.chainTipEntry_spec hroot hts
  refine ⟨_, _, by rw [hentry]; rfl, hw.getblockheader_getHex env hts, by rw [hentry]; rfl, ?_⟩
  rw [find_blockheaderToJSON_confirmations, hentry, isActiveEntry, State.find_status]
  simp only [beq_iff_eq, State.tipStatus_eq_active_iff]
  by_cases hc : s.contains t
  · -- the active tip: one confirmation
    obtain ⟨hconf, -⟩ := (hw.confirmations_spec t).2 hc
    rw [if_pos hc, hconf, hw.height_tip ((hw.contains_iff_tip htt).1 hc)]
    congr 2
    omega
  · -- another tip is off the chain
    rw [if_neg hc, (hw.confirmations_spec t).1.2 (by simpa using hc)]

theorem getchaintips_getblockheader_forkScenario :
    Reachable forkScenario ∧ forkScenario.SingleRoot ∧
    (List.range forkScenario.size).Perm (List.range forkScenario.size) ∧
    ∃ entries, forkScenario.getchaintips (List.range forkScenario.size) = some (.arr entries) ∧
      ∀ e ∈ entries, ∃ x json, e.find "hash" = some (.str x) ∧
        getblockheader sampleEnv forkScenario x none = .ok json ∧
        json.find "height" = e.find "height" ∧
        json.find "confirmations" = some (.num (if isActiveEntry e then 1 else -1)) :=
  ⟨forkScenario_reachable, by decide, List.Perm.refl _,
    getchaintips_getblockheader forkScenario_reachable (by decide) sampleEnv (List.Perm.refl _)⟩

end SafecoinRpc
