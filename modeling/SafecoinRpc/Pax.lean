import SafecoinRpc.BlockRpc

/-!
# `paxprice`, `paxprices` and `paxpending`

The price RPCs ask the notary code for prices and stamp them with the time of the active
chain's block at the height they belong to. `paxprice` takes the tip's height when none is
given, so on a reachable state it only throws for an explicit height off the chain
(`paxprice_height`). `paxprices` clamps its sample count to the size of its arrays and walks the
samples, throwing at the first height off the chain; otherwise it reports every sample, in
order, with the time of the chain's block at its height (`paxprices_samples`).
-/

namespace SafecoinRpc

/-- The counters `pax_fiatstatus` writes for a currency. -/
structure PaxFiatStatus where
  available : UInt64
  deposited : UInt64
  issued : UInt64
  withdrawn : UInt64
  approved : UInt64
  redeemed : UInt64
  deriving DecidableEq, Repr

/-- What the pax RPCs call in the notary code (not among the sources). -/
structure PaxEnv where
  /-- `safecoin_paxprice(&seed, height, base, rel, basevolume)`: the seed it writes and the
  `relvolume` it returns. -/
  safecoinPaxprice : Int → String → String → UInt64 → UInt64 × UInt64
  /-- `safecoin_paxprices(heights, prices, maxsamples, base, rel)`: the count it returns and the
  `heights` and `prices` arrays after the call. -/
  safecoinPaxprices : Int → String → String → Int × List Int × List UInt64
  /-- `safecoin_pending_withdraws(opretbuf)`: the length it returns and the text in `opretbuf`. -/
  safecoinPendingWithdraws : Int × String
  /-- `pax_fiatstatus(&available, ..., base)`: the status it returns and the counters. -/
  paxFiatstatus : String → Int × PaxFiatStatus
  /-- `CURRENCIES[baseid]`. -/
  currencies : Nat → String

/-- `paxpending`: the pending withdrawals and, for each of the 32 currencies whose status is
read and which has a nonzero counter besides `available`, its counters. -/
def paxpending (penv : PaxEnv) : UniValue :=
  let (opretlen, opretbuf) := penv.safecoinPendingWithdraws
  let item (baseid : Nat) : Option UniValue :=
    let (status, f) := penv.paxFiatstatus (penv.currencies baseid)
    if status = 0 ∧ (f.deposited ≠ 0 ∨ f.issued ≠ 0 ∨ f.withdrawn ≠ 0 ∨ f.approved ≠ 0 ∨
        f.redeemed ≠ 0) then
      some (.obj [(penv.currencies baseid, .obj
        [("available", valueFromAmount (toSigned 64 f.available.toNat)),
          ("deposited", valueFromAmount (toSigned 64 f.deposited.toNat)),
          ("issued", valueFromAmount (toSigned 64 f.issued.toNat)),
          ("withdrawn", valueFromAmount (toSigned 64 f.withdrawn.toNat)),
          ("approved", valueFromAmount (toSigned 64 f.approved.toNat)),
          ("redeemed", valueFromAmount (toSigned 64 f.redeemed.toNat))])])
    else none
  .obj [("withdraws", .str (if opretlen > 0 then opretbuf else "")),
    ("fiatstatus", .arr ((List.range 32).filterMap item))]

/-- `paxprice "base" "rel" ( height )`: without a height, the tip's; `basevolume` is fixed at
`100000`. -/
def paxprice (penv : PaxEnv) (s : State) (base rel : String) (height : Option Int) :
    Except RPCError UniValue :=
  let height := height.getD (s.deref s.chainActive.tip).nHeight
  let basevolume : UInt64 := 100000
  let (seed, relvolume) := penv.safecoinPaxprice height base rel basevolume
  let ret : List (String × UniValue) := [("base", .str base), ("rel", .str rel),
    ("height", .num height), ("seed", .str (toString seed.toNat))]
  if height < 0 ∨ height > s.chainActive.height then
    .error ⟨.RPC_INVALID_PARAMETER, "Block height out of range"⟩
  else
    let timestamp : List (String × UniValue) := match s.chainActive.get height with
      | some p => [("timestamp", .num (s.get p).nTime.toNat)]
      | none => []
    .ok (.obj (ret ++ timestamp ++ if basevolume ≠ 0 ∧ relvolume ≠ 0 then
      [("price", .real ((relvolume.toNat : ℚ) / basevolume.toNat)),
        ("invprice", .real ((basevolume.toNat : ℚ) / relvolume.toNat)),
        ("basevolume", valueFromAmount (toSigned 64 basevolume.toNat)),
        ("relvolume", valueFromAmount (toSigned 64 relvolume.toNat))]
      else [("error", .str "overflow or error in one or more of parameters")]))

/-- `maxsamples` clamped to `[1, 4096]`, the size of the `heights` and `prices` arrays. -/
def paxpricesMaxsamples (maxsamples : Int) : Int :=
  if maxsamples < 1 then 1 else if maxsamples > 4096 then 4096 else maxsamples

/-- The item of one sample: the time of the active chain's block at its height and its price. -/
def paxpricesItem (s : State) (height : Int) (price : UInt64) : UniValue :=
  .obj [("t", .num (s.deref (s.chainActive.get height)).nTime.toNat),
    ("p", .real ((price.toNat : ℚ) / COIN))]

/-- The sample loop of `paxprices` over the indices `is`: a height off the active chain throws;
`none` for a read outside `heights` or `prices`. -/
def paxpricesLoop (s : State) (heights : List Int) (prices : List UInt64) :
    List Nat → Option (Except RPCError (List UniValue))
  | [] => some (.ok [])
  | i :: is => do
    let height ← heights[i]?
    if height < 0 ∨ height > s.chainActive.height then
      some (.error ⟨.RPC_INVALID_PARAMETER, "Block height out of range"⟩)
    else
      let price ← prices[i]?
      (paxpricesLoop s heights prices is).map fun r => r.map (paxpricesItem s height price :: ·)

/-- `paxprices "base" "rel" maxsamples`: the count `safecoin_paxprices` returns is read as a
`uint32_t`. -/
def paxprices (penv : PaxEnv) (s : State) (base rel : String) (maxsamples : Int) :
    Option (Except RPCError UniValue) :=
  let (n, heights, prices) := penv.safecoinPaxprices (paxpricesMaxsamples maxsamples) base rel
  (paxpricesLoop s heights prices (List.range (n % 2 ^ 32).toNat)).map fun r => r.map fun a =>
    .obj [("base", .str base), ("rel", .str rel), ("array", .arr a)]

/-! ## The sample loop -/

theorem paxpricesMaxsamples_mem (maxsamples : Int) :
    1 ≤ paxpricesMaxsamples maxsamples ∧ paxpricesMaxsamples maxsamples ≤ 4096 := by
  unfold paxpricesMaxsamples
  split_ifs <;> omega

theorem getElem?_eq_getD {α : Type} {l : List α} {i : Nat} (d : α) (h : i < l.length) :
    l[i]? = some (l.getD i d) := by
  rw [List.getD_eq_getElem?_getD, List.getElem?_eq_getElem h, Option.getD_some]

/-- Over indices inside both arrays the loop throws exactly when one of their heights is off the
chain, and otherwise returns their items in order. -/
theorem paxpricesLoop_eq (s : State) {heights : List Int} {prices : List UInt64} {is : List Nat}
    (hlen : ∀ i ∈ is, i < heights.length ∧ i < prices.length) :
    paxpricesLoop s heights prices is = some
      (if ∀ i ∈ is, 0 ≤ heights.getD i 0 ∧ heights.getD i 0 ≤ s.chainActive.height then
        .ok (is.map fun i => paxpricesItem s (heights.getD i 0) (prices.getD i 0))
      else .error ⟨.RPC_INVALID_PARAMETER, "Block height out of range"⟩) := by
  induction is with
  | nil => rfl
  | cons i is ih =>
    obtain ⟨hh, hp⟩ := hlen i (List.mem_cons_self i is)
    have hrest := ih fun j hj => hlen j (List.mem_cons_of_mem i hj)
    simp only [paxpricesLoop, getElem?_eq_getD 0 hh, getElem?_eq_getD 0 hp, Option.bind_eq_bind,
      Option.some_bind, List.forall_mem_cons]
    by_cases hin : 0 ≤ heights.getD i 0 ∧ heights.getD i 0 ≤ s.chainActive.height
    · rw [if_neg (by omega), hrest, Option.map_some']
      by_cases hall : ∀ j ∈ is, 0 ≤ heights.getD j 0 ∧ heights.getD j 0 ≤ s.chainActive.height
      · rw [if_pos hall, if_pos ⟨hin, hall⟩]
        rfl
      · rw [if_neg hall, if_neg fun h => hall h.2]
        rfl
    · rw [if_pos (by omega), if_neg fun h => hin h.1]

/-- On a reachable state, for every sample count `0 ≤ n ≤ 4096` and arrays `safecoin_paxprices`
returns, `paxprices` asks for between 1 and 4096 samples, throws when one of the first `n`
heights is off the active chain and otherwise reports the `n` samples in order; every such
height is that of a block of the active chain, whose time the sample carries. -/
theorem paxprices_samples {s : State} (hs : Reachable s) (penv : PaxEnv) (base rel : String)
    (maxsamples : Int) {n : Int} {heights : List Int} {prices : List UInt64}
    (hp : penv.safecoinPaxprices (paxpricesMaxsamples maxsamples) base rel = (n, heights, prices))
    (hn0 : 0 ≤ n) (hn : n ≤ 4096) (hh : heights.length = 4096) (hpr : prices.length = 4096) :
    (1 ≤ paxpricesMaxsamples maxsamples ∧ paxpricesMaxsamples maxsamples ≤ 4096) ∧
    paxprices penv s base rel maxsamples = some
      (if ∀ i < n.toNat, 0 ≤ heights.getD i 0 ∧ heights.getD i 0 ≤ s.chainActive.height then
        .ok (.obj [("base", .str base), ("rel", .str rel), ("array", .arr
          ((List.range n.toNat).map fun i => paxpricesItem s (heights.getD i 0) (prices.getD i 0)))])
      else .error ⟨.RPC_INVALID_PARAMETER, "Block height out of range"⟩) ∧
    ∀ i < n.toNat, 0 ≤ heights.getD i 0 → heights.getD i 0 ≤ s.chainActive.height →
      ∃ p, s.chainActive.get (heights.getD i 0) = some p ∧ s.height p = heights.getD i 0 ∧
        paxpricesItem s (heights.getD i 0) (prices.getD i 0) = .obj [("t", .num (s.get p).nTime.toNat),
          ("p", .real (((prices.getD i 0).toNat : ℚ) / COIN))] := by
  have hmod : (n % 2 ^ 32).toNat = n.toNat := by rw [Int.emod_eq_of_lt hn0 (by omega)]
  have hloop := @paxpricesLoop_eq s heights prices (List.range n.toNat) fun i hi => by
    rw [List.mem_range] at hi; omega
  refine ⟨paxpricesMaxsamples_mem maxsamples, ?_, fun i _ h0 hH => ?_⟩
  · simp only [paxprices, hp, hmod, hloop, Option.map_some', List.mem_range]
    split_ifs <;> rfl
  · obtain ⟨p, hget, -, hhp, -⟩ := hs.wf.chain_get_of_le h0 hH
    exact ⟨p, hget, hhp, by rw [paxpricesItem, hget]; rfl⟩

/-- Notary code with a price of 2.5 and two samples, at heights 2 and 1. -/
def samplePaxEnv : PaxEnv where
  safecoinPaxprice _ _ _ _ := (7, 250000)
  safecoinPaxprices _ _ _ :=
    (2, [2, 1] ++ List.replicate 4094 0, [150000000, 120000000] ++ List.replicate 4094 0)
  safecoinPendingWithdraws := (0, "")
  paxFiatstatus _ := (0, ⟨0, 0, 0, 0, 0, 0⟩)
  currencies _ := "USD"

theorem paxprices_samples_forkScenario :
    let heights : List Int := [2, 1] ++ List.replicate 4094 0
    let prices : List UInt64 := [150000000, 120000000] ++ List.replicate 4094 0
    Reachable forkScenario ∧
    samplePaxEnv.safecoinPaxprices (paxpricesMaxsamples 10) "KMD" "USD" = (2, heights, prices) ∧
    (0 : Int) ≤ 2 ∧ (2 : Int) ≤ 4096 ∧ heights.length = 4096 ∧ prices.length = 4096 ∧
    (1 ≤ paxpricesMaxsamples 10 ∧ paxpricesMaxsamples 10 ≤ 4096) ∧
    paxprices samplePaxEnv forkScenario "KMD" "USD" 10 = some
      (if ∀ i < (2 : Int).toNat, 0 ≤ heights.getD i 0 ∧
          heights.getD i 0 ≤ forkScenario.chainActive.height then
        .ok (.obj [("base", .str "KMD"), ("rel", .str "USD"), ("array", .arr
          ((List.range (2 : Int).toNat).map fun i =>
            paxpricesItem forkScenario (heights.getD i 0) (prices.getD i 0)))])
      else .error ⟨.RPC_INVALID_PARAMETER, "Block height out of range"⟩) ∧
    ∀ i < (2 : Int).toNat, 0 ≤ heights.getD i 0 → heights.getD i 0 ≤ forkScenario.chainActive.height →
      ∃ p, forkScenario.chainActive.get (heights.getD i 0) = some p ∧
        forkScenario.height p = heights.getD i 0 ∧
        paxpricesItem forkScenario (heights.getD i 0) (prices.getD i 0) =
          .obj [("t", .num (forkScenario.get p).nTime.toNat),
            ("p", .real (((prices.getD i 0).toNat : ℚ) / COIN))] :=
  have hh : ([2, 1] ++ List.replicate 4094 0 : List Int).length = 4096 := by
    rw [List.length_append, List.length_replicate]; rfl
  have hp : ([150000000, 120000000] ++ List.replicate 4094 0 : List UInt64).length = 4096 := by
    rw [List.length_append, List.length_replicate]; rfl
  ⟨forkScenario_reachable, rfl, by decide, by decide, hh, hp,
    paxprices_samples forkScenario_reachable samplePaxEnv "KMD" "USD" 10 rfl (by decide) (by decide)
      hh hp⟩

/-! ## The single price -/

/-- On a reachable state `paxprice` throws exactly for a height off the active chain, and the
tip's height, taken when none is given, is on it; for a height on the chain it reports that
height and the time of the chain's block there. -/
theorem paxprice_height {s : State} (hs : Reachable s) (penv : PaxEnv) (base rel : String)
    (height : Option Int) :
    let h := height.getD (s.deref s.chainActive.tip).nHeight
    (height = none → 0 ≤ h ∧ h ≤ s.chainActive.height) ∧
    (h < 0 ∨ s.chainActive.height < h →
      paxprice penv s base rel height = .error ⟨.RPC_INVALID_PARAMETER, "Block height out of range"⟩) ∧
    (0 ≤ h → h ≤ s.chainActive.height → ∃ p kvs, s.chainActive.get h = some p ∧ s.height p = h ∧
      paxprice penv s base rel height = .ok (.obj kvs) ∧ kvs.lookup "height" = some (.num h) ∧
      kvs.lookup "timestamp" = some (.num (s.get p).nTime.toNat)) := by
  intro h
  have hw := hs.wf
  refine ⟨fun hnone => ?_, fun hout => ?_, fun h0 hH => ?_⟩
  · obtain ⟨t, ht, -⟩ := hw.tip_spec
    have hh : h = s.height t := by simp only [h, hnone, Option.getD_none, State.deref, ht]; rfl
    rw [hh, hw.height_tip ht]
    exact ⟨hw.chain_height_nonneg, le_refl _⟩
  · simp only [paxprice]
    rw [if_pos (by omega)]
  · obtain ⟨p, hget, -, hhp, -⟩ := hw.chain_get_of_le h0 hH
    refine ⟨p, _, hget, hhp, by simp only [paxprice]; rw [if_neg (by omega)], by rfl, ?_⟩
    simp only [hget]
    rfl

theorem paxprice_height_forkScenario :
    Reachable forkScenario ∧
    let h := (none : Option Int).getD (forkScenario.deref forkScenario.chainActive.tip).nHeight
    ((none : Option Int) = none → 0 ≤ h ∧ h ≤ forkScenario.chainActive.height) ∧
    (h < 0 ∨ forkScenario.chainActive.height < h →
      paxprice samplePaxEnv forkScenario "KMD" "USD" none =
        .error ⟨.RPC_INVALID_PARAMETER, "Block height out of range"⟩) ∧
    (0 ≤ h → h ≤ forkScenario.chainActive.height → ∃ p kvs, forkScenario.chainActive.get h = some p ∧
      forkScenario.height p = h ∧ paxprice samplePaxEnv forkScenario "KMD" "USD" none = .ok (.obj kvs) ∧
      kvs.lookup "height" = some (.num h) ∧
      kvs.lookup "timestamp" = some (.num (forkScenario.get p).nTime.toNat)) :=
  ⟨forkScenario_reachable, paxprice_height forkScenario_reachable samplePaxEnv "KMD" "USD" none⟩

end SafecoinRpc
