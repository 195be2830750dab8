import SafecoinRpc.Difficulty
import SafecoinRpc.Validator

/-!
# The block JSON of `getblockheader` and `getblock`

`blockheaderToJSON` describes an index entry and `blockToJSON` a block read from disk
together with its entry. Both report the confirmations, `-1` off the active chain and the
distance from the tip plus one on it, and end with the links to the parent and, on the chain,
to the next block (`confirmations_spec`, `next_spec`). The header JSON is the block JSON
with `size`, `tx` and `anchor` left out once the block's header is the entry's
(`blockToJSON_sublist`), so the two agree on every field the header JSON reports.
-/

namespace SafecoinRpc

/-! ## Keyed lookup in a JSON object -/

theorem key_mem_of_lookup {l : List (String × UniValue)} {k : String} {v : UniValue}
    (h : l.lookup k = some v) : k ∈ l.map Prod.fst := by
  obtain ⟨p, hp, hk⟩ := List.lookup_isSome_iff.1 (by rw [h]; rfl)
  exact List.mem_map.2 ⟨p, hp, (beq_iff_eq.1 hk).symm⟩

/-- A sublist of an object with distinct keys keeps every value under its key. -/
theorem lookup_of_sublist {l₁ l₂ : List (String × UniValue)} (hsub : l₁.Sublist l₂)
    (hnd : (l₂.map Prod.fst).Nodup) {k : String} {v : UniValue} (h : l₁.lookup k = some v) :
    l₂.lookup k = some v := by
  induction hsub with
  | slnil => cases h
  | cons a _ ih =>
    obtain ⟨ka, va⟩ := a
    rw [List.map_cons, List.nodup_cons] at hnd
    have hv := ih hnd.2 h
    have hk : (k == ka) = false := beq_false_of_ne fun e => hnd.1 (e ▸ key_mem_of_lookup hv)
    rw [List.lookup_cons, hk]
    exact hv
  | cons₂ a _ ih =>
    obtain ⟨ka, va⟩ := a
    rw [List.map_cons, List.nodup_cons] at hnd
    rw [List.lookup_cons] at h ⊢
    cases hk : k == ka
    · rw [hk] at h; exact ih hnd.2 h
    · rw [hk] at h; exact h

namespace State

/-- The confirmations both JSONs report: only a block on the main chain has any. -/
def confirmations (s : State) (b : Nat) : Int :=
  if s.contains b then s.chainActive.height - s.height b + 1 else -1

/-- The links both JSONs end with: `previousblockhash` when there is a parent, `nextblockhash`
when `chainActive.Next` finds one. -/
def linkFields (s : State) (b : Nat) : List (String × UniValue) :=
  (match s.parent b with
    | some q => [("previousblockhash", .str (getHex (s.get q).hashBlock))]
    | none => []) ++
  (match s.next b with
    | some n => [("nextblockhash", .str (getHex (s.get n).hashBlock))]
    | none => [])

end State

/-- `blockheaderToJSON(blockindex)`. -/
def blockheaderToJSON (env : Env) (s : State) (b : Nat) : UniValue :=
  let e := s.get b
  .obj <| ("hash", .str (getHex e.hashBlock)) ::
    ("confirmations", .num (s.confirmations b)) ::
    ("height", .num e.nHeight) ::
    ("version", .num e.nVersion) ::
    ("merkleroot", .str (getHex e.hashMerkleRoot)) ::
    ("time", .num e.nTime.toNat) ::
    ("nonce", .str (getHex e.nNonce)) ::
    ("solution", .str (hexStr e.nSolution)) ::
    ("bits", .str (hexString 8 e.nBits.toNat)) ::
    ("difficulty", .real (getDifficulty env s (some b))) ::
    ("chainwork", .str (getHex e.nChainWork)) :: s.linkFields b

/-- `blockToJSON(block, blockindex, txDetails)`: header fields from the block, position,
difficulty and work from the index entry. -/
def blockToJSON (env : Env) (s : State) (block : CBlock) (b : Nat) (txDetails : Bool) :
    UniValue :=
  let e := s.get b
  let txs := block.vtx.map fun tx => if txDetails then env.txToJSON tx else .str (getHex tx.hash)
  .obj <| ("hash", .str (getHex (env.blockHash block.toCBlockHeader))) ::
    ("confirmations", .num (s.confirmations b)) ::
    ("size", .num (env.serializeBlock block).length) ::
    ("height", .num e.nHeight) ::
    ("version", .num block.nVersion) ::
    ("merkleroot", .str (getHex block.hashMerkleRoot)) ::
    ("tx", .arr txs) ::
    ("time", .num block.nTime.toNat) ::
    ("nonce", .str (getHex block.nNonce)) ::
    ("solution", .str (hexStr block.nSolution)) ::
    ("bits", .str (hexString 8 block.nBits.toNat)) ::
    ("difficulty", .real (getDifficulty env s (some b))) ::
    ("chainwork", .str (getHex e.nChainWork)) ::
    ("anchor", .str (getHex e.hashAnchorEnd)) :: s.linkFields b

/-! ## The fields both report -/

namespace State

variable (s : State) (b : Nat)

theorem lookup_linkFields_previousblockhash :
    (s.linkFields b).lookup "previousblockhash" =
      (s.parent b).map fun q => .str (getHex (s.get q).hashBlock) := by
  rw [linkFields]; cases s.parent b <;> cases s.next b <;> rfl

theorem lookup_linkFields_nextblockhash :
    (s.linkFields b).lookup "nextblockhash" =
      (s.next b).map fun n => .str (getHex (s.get n).hashBlock) := by
  rw [linkFields]; cases s.parent b <;> cases s.next b <;> rfl

theorem keys_linkFields_sublist :
    ((s.linkFields b).map Prod.fst).Sublist ["previousblockhash", "nextblockhash"] := by
  rw [linkFields]; cases s.parent b <;> cases s.next b <;> simp

end State

variable (env : Env) (s : State) (b : Nat)

@[simp] theorem find_blockheaderToJSON_confirmations :
    (blockheaderToJSON env s b).find "confirmations" = some (.num (s.confirmations b)) := rfl

@[simp] theorem find_blockheaderToJSON_hash :
    (blockheaderToJSON env s b).find "hash" = some (.str (getHex (s.get b).hashBlock)) := rfl

@[simp] theorem find_blockheaderToJSON_height :
    (blockheaderToJSON env s b).find "height" = some (.num (s.get b).nHeight) := rfl

theorem find_blockheaderToJSON_previousblockhash :
    (blockheaderToJSON env s b).find "previousblockhash" =
      (s.parent b).map fun q => .str (getHex (s.get q).hashBlock) :=
  s.lookup_linkFields_previousblockhash b

theorem find_blockheaderToJSON_nextblockhash :
    (blockheaderToJSON env s b).find "nextblockhash" =
      (s.next b).map fun n => .str (getHex (s.get n).hashBlock) :=
  s.lookup_linkFields_nextblockhash b

@[simp] theorem find_blockToJSON_confirmations (block : CBlock) (txDetails : Bool) :
    (blockToJSON env s block b txDetails).find "confirmations" = some (.num (s.confirmations b)) :=
  rfl

theorem find_blockToJSON_nextblockhash (block : CBlock) (txDetails : Bool) :
    (blockToJSON env s block b txDetails).find "nextblockhash" =
      (s.next b).map fun n => .str (getHex (s.get n).hashBlock) :=
  s.lookup_linkFields_nextblockhash b

/-- The keys of the block JSON are distinct. -/
theorem keys_blockToJSON_nodup (block : CBlock) (txDetails : Bool) :
    ∃ kvs, blockToJSON env s block b txDetails = .obj kvs ∧ (kvs.map Prod.fst).Nodup :=
  ⟨_, rfl, List.Nodup.sublist ((s.keys_linkFields_sublist b).append_left
    ["hash", "confirmations", "size", "height", "version", "merkleroot", "tx", "time", "nonce",
      "solution", "bits", "difficulty", "chainwork", "anchor"]) (by decide)⟩

/-! ## Confirmations and links on the active chain -/

namespace State.WF

variable {s : State} (hs : s.WF)
include hs

theorem next_of_vChain {h b : Nat} (hb : s.chainActive.vChain[h]? = some b) :
    s.next b = s.chainActive.vChain[h + 1]? := by
  rw [next, if_pos ((hs.contains_iff).2 ⟨h, hb⟩), hs.height_of_vChain hb,
    chain_get_of_nonneg _ (by omega)]
  congr 1

/-- `chainActive.Next` finds, for an entry on the chain, the chain's entry one higher: a child,
itself on the chain. -/
theorem next_spec {b n : Nat} (hn : s.next b = some n) :
    s.contains b ∧ n < s.size ∧ s.parent n = some b ∧ s.height n = s.height b + 1 ∧
      s.contains n := by
  have hc : s.contains b := by
    by_contra hc
    simp [next, hc] at hn
  obtain ⟨h, hb⟩ := (hs.contains_iff).1 hc
  rw [hs.next_of_vChain hb] at hn
  refine ⟨hc, hs.lt_size hn, hs.parent_succ hb hn, ?_, (hs.contains_iff).2 ⟨_, hn⟩⟩
  rw [hs.height_of_vChain hn, hs.height_of_vChain hb]
  push_cast
  rfl

/-- There is a next entry exactly for the entries on the chain other than the tip. -/
theorem next_isSome_iff {b : Nat} :
    (s.next b).isSome ↔ s.contains b ∧ s.chainActive.tip ≠ some b := by
  constructor
  · intro hsome
    obtain ⟨n, hn⟩ := Option.isSome_iff_exists.1 hsome
    obtain ⟨hc, -, -, hh, hcn⟩ := hs.next_spec hn
    refine ⟨hc, fun ht => ?_⟩
    have := hs.height_le_of_contains hcn
    rw [hh, hs.height_tip ht] at this
    omega
  · rintro ⟨hc, hne⟩
    obtain ⟨h, hb⟩ := (hs.contains_iff).1 hc
    have hh : h + 1 < s.chainActive.vChain.length := by
      have := lt_length_of_getElem? hb
      by_contra hge
      apply hne
      rw [CChain.tip, List.getLast?_eq_getElem?, ← hb]
      congr 1
      omega
    obtain ⟨n, hn⟩ := exists_getElem?_of_lt hh
    rw [hs.next_of_vChain hb, hn]
    rfl

/-- The confirmations: `-1` exactly off the chain, and on it the distance from the tip plus one,
between `1` and the chain's length. -/
theorem confirmations_spec (b : Nat) :
    (s.confirmations b = -1 ↔ s.contains b = false) ∧
      (s.contains b = true → s.confirmations b = s.chainActive.height - s.height b + 1 ∧
        1 ≤ s.confirmations b ∧ s.confirmations b ≤ s.chainActive.height + 1) := by
  cases hc : s.contains b
  · simp [confirmations, hc]
  · have hle := hs.height_le_of_contains hc
    have h0 := hs.height_nonneg (hs.lt_size_of_contains hc)
    simp only [confirmations, hc, if_true, Bool.true_eq_false, iff_false, true_implies]
    exact ⟨by omega, trivial, by omega, by omega⟩

end State.WF

/-- The confirmations of both JSONs and their `nextblockhash`: present exactly below the tip
of the chain, naming the child one higher, whose `previousblockhash` is this block's hash and
which has one confirmation less. -/
theorem blockJSON_confirmations_next {s : State} (hs : Reachable s) (env : Env) (b : Nat)
    (block : CBlock) (txDetails : Bool) :
    ∃ c : Int, (blockheaderToJSON env s b).find "confirmations" = some (.num c) ∧
      (blockToJSON env s block b txDetails).find "confirmations" = some (.num c) ∧
      (c = -1 ↔ s.contains b = false) ∧
      (s.contains b = true → c = s.chainActive.height - s.height b + 1 ∧ 1 ≤ c ∧
        c ≤ s.chainActive.height + 1) ∧
      (blockToJSON env s block b txDetails).find "nextblockhash" =
        (blockheaderToJSON env s b).find "nextblockhash" ∧
      (((blockheaderToJSON env s b).find "nextblockhash").isSome ↔
        s.contains b = true ∧ s.chainActive.tip ≠ some b) ∧
      ∀ x, (blockheaderToJSON env s b).find "nextblockhash" = some (.str x) →
        ∃ n, s.lookup (uint256S x) = some n ∧ s.height n = s.height b + 1 ∧
          (blockheaderToJSON env s n).find "previousblockhash" =
            (blockheaderToJSON env s b).find "hash" ∧
          (blockheaderToJSON env s n).find "confirmations" = some (.num (c - 1)) := by
  have hw := hs.wf
  refine ⟨s.confirmations b, find_blockheaderToJSON_confirmations env s b,
    find_blockToJSON_confirmations env s b block txDetails, (hw.confirmations_spec b).1,
    (hw.confirmations_spec b).2, ?_⟩
  rw [find_blockToJSON_nextblockhash, find_blockheaderToJSON_nextblockhash, Option.isSome_map']
  refine ⟨rfl, hw.next_isSome_iff, fun x hx => ?_⟩
  obtain ⟨n, hn, hxn⟩ := Option.map_eq_some'.1 hx
  have hxn := UniValue.str.inj hxn.symm
  subst x
  obtain ⟨hcb, hns, hpn, hhn, hcn⟩ := hw.next_spec hn
  refine ⟨n, by rw [uint256S_getHex, hw.lookup_hashBlock hns], hhn, ?_, ?_⟩
  · rw [find_blockheaderToJSON_previousblockhash, hpn]
    rfl
  · rw [find_blockheaderToJSON_confirmations, (hw.confirmations_spec n).2 hcn |>.1,
      (hw.confirmations_spec b).2 hcb |>.1, hhn]
    congr 2
    ring

theorem blockJSON_confirmations_next_forkScenario :
    Reachable forkScenario ∧
    ∃ c : Int, (blockheaderToJSON sampleEnv forkScenario 1).find "confirmations" = some (.num c) ∧
      (blockToJSON sampleEnv forkScenario ⟨default, []⟩ 1 false).find "confirmations" =
        some (.num c) ∧
      (c = -1 ↔ forkScenario.contains 1 = false) ∧
      (forkScenario.contains 1 = true →
        c = forkScenario.chainActive.height - forkScenario.height 1 + 1 ∧ 1 ≤ c ∧
          c ≤ forkScenario.chainActive.height + 1) ∧
      (blockToJSON sampleEnv forkScenario ⟨default, []⟩ 1 false).find "nextblockhash" =
        (blockheaderToJSON sampleEnv forkScenario 1).find "nextblockhash" ∧
      (((blockheaderToJSON sampleEnv forkScenario 1).find "nextblockhash").isSome ↔
        forkScenario.contains 1 = true ∧ forkScenario.chainActive.tip ≠ some 1) ∧
      ∀ x, (blockheaderToJSON sampleEnv forkScenario 1).find "nextblockhash" = some (.str x) →
        ∃ n, forkScenario.lookup (uint256S x) = some n ∧
          forkScenario.height n = forkScenario.height 1 + 1 ∧
          (blockheaderToJSON sampleEnv forkScenario n).find "previousblockhash" =
            (blockheaderToJSON sampleEnv forkScenario 1).find "hash" ∧
          (blockheaderToJSON sampleEnv forkScenario n).find "confirmations" =
            some (.num (c - 1)) :=
  ⟨forkScenario_reachable,
    blockJSON_confirmations_next forkScenario_reachable sampleEnv 1 ⟨default, []⟩ false⟩

/-! ## The header JSON within the block JSON -/

/-- The block read for an entry carries the entry's header: the fields both JSONs print. -/
structure HeaderAgrees (env : Env) (e : CBlockIndex) (block : CBlock) : Prop where
  hash : env.blockHash block.toCBlockHeader = e.hashBlock
  version : block.nVersion = e.nVersion
  merkleRoot : block.hashMerkleRoot = e.hashMerkleRoot
  time : block.nTime = e.nTime
  nonce : block.nNonce = e.nNonce
  solution : block.nSolution = e.nSolution
  bits : block.nBits = e.nBits

/-- The header JSON is the block JSON without `size`, `tx` and `anchor`. -/
theorem blockToJSON_sublist {env : Env} {s : State} {b : Nat} {block : CBlock}
    (h : HeaderAgrees env (s.get b) block) (txDetails : Bool) :
    ∃ kvs₁ kvs₂, blockheaderToJSON env s b = .obj kvs₁ ∧
      blockToJSON env s block b txDetails = .obj kvs₂ ∧ kvs₁.Sublist kvs₂ := by
  refine ⟨_, _, rfl, rfl, ?_⟩
  rw [h.hash, h.version, h.merkleRoot, h.time, h.nonce, h.solution, h.bits]
  exact .cons₂ _ <| .cons₂ _ <| .cons _ <| .cons₂ _ <| .cons₂ _ <| .cons₂ _ <| .cons _ <|
    .cons₂ _ <| .cons₂ _ <| .cons₂ _ <| .cons₂ _ <| .cons₂ _ <| .cons₂ _ <| .cons _ <| .refl _

end SafecoinRpc
