import Mathlib.Algebra.BigOperators.Group.Finset
import SafecoinRpc.BlockRpc

/-!
# `minerids`

`minerids` asks the notary code for the ids of the miners of the blocks up to a height and for
the notaries at that height, and counts the blocks of each notary in `tally`: an id below
`numnotaries` in its own slot, any other in slot 128, the external miners. The loop never reads
or writes outside its arrays (`tallyIndex_slot`), every notary entry reports the blocks mined
under its id and the external entry the rest, so the 65 reported counts add up to `n`.
-/

namespace SafecoinRpc

/-- What `minerids` calls in the notary code of `safecoin.h` (not among the sources). -/
structure NotaryEnv where
  /-- `safecoin_minerids(minerids, height, 2000)`: the count it returns and the bytes of the
  `uint8_t minerids[2000]` buffer after the call. -/
  safecoinMinerids : Int → Int × List UInt8
  /-- `safecoin_notaries(pubkeys, height)`: the count it returns and the key in each row of
  `pubkeys`. -/
  safecoinNotaries : Int → Int × (Nat → List UInt8)
  /-- A row of `uint8_t pubkeys[64][33]` is the 33 bytes of a compressed key, which the `%02x`
  loops print as 66 digits. -/
  safecoinNotaries_length : ∀ height i, ((safecoinNotaries height).2 i).length = 33
  /-- `bitcoin_address(SAFEaddr, 60, pubkey, 33)`. -/
  bitcoinAddress : List UInt8 → String

/-- The slot of `tally` a block mined by `id` is counted in: its own below `numnotaries`, else
128. -/
def tallyIndex (numnotaries : Int) (id : UInt8) : Nat :=
  if numnotaries ≤ id.toNat then 128 else id.toNat

/-- One pass of the tally loop, `tally[minerids[i]]++` or `tally[128]++`: `none` for a read of
`minerids` or a write of `tally` outside the array. -/
def tallyStep (ids : List UInt8) (numnotaries : Int) (tally : List Nat) (i : Nat) :
    Option (List Nat) := do
  let m ← ids[i]?
  let j := tallyIndex numnotaries m
  if j < tally.length then some (tally.set j (tally.getD j 0 + 1)) else none

/-- `memset(tally, 0, sizeof(tally))` and the loop over `i < n`. -/
def tallyMinerids (ids : List UInt8) (n numnotaries : Int) : Option (List Nat) :=
  (List.range n.toNat).foldlM (tallyStep ids numnotaries) (List.replicate 129 0)

/-- The entry of notary `i`. -/
def notaryItem (nenv : NotaryEnv) (pubkeys : Nat → List UInt8) (i blocks : Nat) : UniValue :=
  .obj [("notaryid", .num i), ("SAFEaddress", .str (nenv.bitcoinAddress (pubkeys i))),
    ("pubkey", .str (hexStr (pubkeys i))), ("blocks", .num blocks)]

/-- The entry of the miners that are no notary. -/
def externalItem (blocks : Nat) : UniValue :=
  .obj [("pubkey", .str "external miners"), ("blocks", .num blocks)]

/-- The height `minerids` asks about: the parameter, or the tip's height when it is not
positive. -/
def mineridsHeight (s : State) (height : Int) : Int :=
  if height ≤ 0 then (s.deref s.chainActive.tip).nHeight else height

/-- `minerids height`, from the `int` that `atoi` reads of the parameter: `none` when the
tally loop reads or writes outside its arrays. -/
def minerids (nenv : NotaryEnv) (s : State) (height : Int) : Option UniValue :=
  let height := mineridsHeight s height
  let (n, ids) := nenv.safecoinMinerids height
  if n > 0 then
    let (numnotaries, pubkeys) := nenv.safecoinNotaries height
    let mined : Option (List UniValue) :=
      if numnotaries > 0 then
        (tallyMinerids ids n numnotaries).map fun tally =>
          (List.range 64).map (fun i => notaryItem nenv pubkeys i (tally.getD i 0)) ++
            [externalItem (tally.getD 128 0)]
      else some []
    mined.map fun a => .obj [("mined", .arr a)]
  else some (.obj [("error", .str "couldnt extract minerids")])

/-! ## The tally loop -/

theorem getD_set_of_lt {t : List Nat} {j : Nat} (hj : j < t.length) (v i : Nat) :
    (t.set j v).getD i 0 = if i = j then v else t.getD i 0 := by
  rw [List.getD_eq_getElem?_getD, List.getD_eq_getElem?_getD, List.getElem?_set]
  by_cases h : i = j
  · subst h; simp [hj]
  · simp [h, Ne.symm h]

/-- Over indices of the buffer whose ids are counted inside `tally`, the loop adds to each slot
the number of indices counted in it. -/
theorem foldlM_tallyStep (ids : List UInt8) (numnotaries : Int) (ks : List Nat) {t : List Nat}
    (ht : t.length = 129)
    (hks : ∀ k ∈ ks, k < ids.length ∧ tallyIndex numnotaries (ids.getD k 0) < 129) :
    ∃ t', ks.foldlM (tallyStep ids numnotaries) t = some t' ∧ t'.length = 129 ∧
      ∀ j, t'.getD j 0 =
        t.getD j 0 + ks.countP fun k => tallyIndex numnotaries (ids.getD k 0) = j := by
  induction ks generalizing t with
  | nil => exact ⟨t, rfl, ht, fun j => by simp⟩
  | cons k ks ih =>
    obtain ⟨hk, hj⟩ := hks k (List.mem_cons_self k ks)
    have hget : ids[k]? = some (ids.getD k 0) := by
      rw [List.getD_eq_getElem?_getD, List.getElem?_eq_getElem hk]; rfl
    obtain ⟨t', hfold, hlen, hcount⟩ :=
      ih (t := t.set (tallyIndex numnotaries (ids.getD k 0))
        (t.getD (tallyIndex numnotaries (ids.getD k 0)) 0 + 1)) (by rw [List.length_set, ht])
      (fun k' hk' => hks k' (List.mem_cons_of_mem k hk'))
    refine ⟨t', ?_, hlen, fun j => ?_⟩
    · have hstep : tallyStep ids numnotaries t k = some (t.set (tallyIndex numnotaries (ids.getD k 0))
          (t.getD (tallyIndex numnotaries (ids.getD k 0)) 0 + 1)) := by
        rw [tallyStep, hget]
        exact if_pos (ht ▸ hj)
      rw [List.foldlM_cons, hstep]
      exact hfold
    · rw [hcount, getD_set_of_lt (by omega), List.countP_cons]
      by_cases hJ : j = tallyIndex numnotaries (ids.getD k 0)
      · simp only [hJ, if_true, decide_eq_true_eq]; omega
      · simp only [hJ, Ne.symm hJ, if_false, decide_eq_true_eq]; omega

/-! ## Slots of a notary count of at most 64 -/

/-- Slot `i` of a notary counts the blocks of id `i`, and only below `numnotaries`. -/
theorem tallyIndex_eq_iff {numnotaries : Int} {i : Nat} (hi : i < 64) (id : UInt8) :
    tallyIndex numnotaries id = i ↔ (i : Int) < numnotaries ∧ id.toNat = i := by
  unfold tallyIndex; split_ifs <;> omega

section Slots

variable {numnotaries : Int} (h64 : numnotaries ≤ 64)
include h64

/-- A block is counted in the slot of a notary, below 64, or in slot 128: never outside the 129
entries of `tally`. -/
theorem tallyIndex_slot (id : UInt8) :
    tallyIndex numnotaries id < 64 ∨ tallyIndex numnotaries id = 128 := by
  unfold tallyIndex; split_ifs <;> omega

/-- Slot 128 counts the blocks of every id from `numnotaries` on. -/
theorem tallyIndex_eq_128 (id : UInt8) : tallyIndex numnotaries id = 128 ↔ numnotaries ≤ id.toNat := by
  unfold tallyIndex; split_ifs <;> omega

/-- Over a buffer of at least `n` ids the tally loop returns, and slot `j` of its `tally` counts
the indices whose id is counted in `j`. -/
theorem tallyMinerids_spec (ids : List UInt8) {n : Int} (hn : n.toNat ≤ ids.length) :
    ∃ t, tallyMinerids ids n numnotaries = some t ∧ ∀ j, t.getD j 0 =
      (List.range n.toNat).countP fun k => tallyIndex numnotaries (ids.getD k 0) = j := by
  obtain ⟨t, hfold, -, hcount⟩ := foldlM_tallyStep ids numnotaries (List.range n.toNat)
    (List.length_replicate 129 0) fun k hk => ⟨by rw [List.mem_range] at hk; omega,
      by rcases tallyIndex_slot h64 (ids.getD k 0) with h | h <;> omega⟩
  refine ⟨t, hfold, fun j => ?_⟩
  rw [hcount, List.getD_eq_getElem?_getD, List.getElem?_replicate]
  split_ifs <;> exact Nat.zero_add _

end Slots

/-- Counting in slots `0` to `63` and slot `128` counts every element once. -/
theorem sum_countP_slots (f : Nat → Nat) (ks : List Nat) (hf : ∀ k ∈ ks, f k < 64 ∨ f k = 128) :
    ∑ i ∈ Finset.range 64, ks.countP (fun k => f k = i) + ks.countP (fun k => f k = 128) =
      ks.length := by
  induction ks with
  | nil => simp
  | cons k ks ih =>
    have hk := hf k (List.mem_cons_self k ks)
    rw [List.length_cons, ← ih fun k' hk' => hf k' (List.mem_cons_of_mem k hk')]
    simp only [List.countP_cons, Finset.sum_add_distrib, decide_eq_true_eq, Finset.sum_ite_eq,
      Finset.mem_range]
    split_ifs <;> omega

/-! ## The reported counts -/

/-- For every count `0 < n ≤ 2000` and buffer `safecoin_minerids` returns and every notary count
`0 < numnotaries ≤ 64`, `minerids` writes `tally` only at `0` to `128`, reports for notary `i`
the blocks of id `i` (none from `numnotaries` on) and for the external miners the blocks of the
other ids, and these 65 counts add up to `n`. -/
theorem minerids_blocks (nenv : NotaryEnv) (s : State) (height : Int) {n numnotaries : Int}
    {ids : List UInt8} {pubkeys : Nat → List UInt8}
    (hm : nenv.safecoinMinerids (mineridsHeight s height) = (n, ids))
    (hk : nenv.safecoinNotaries (mineridsHeight s height) = (numnotaries, pubkeys))
    (hn : 0 < n) (hn2000 : n ≤ 2000) (hids : ids.length = 2000)
    (hk0 : 0 < numnotaries) (hk64 : numnotaries ≤ 64) :
    (∀ k < n.toNat, tallyIndex numnotaries (ids.getD k 0) ≤ 128) ∧
    ∃ blocks : Nat → Nat,
      minerids nenv s height = some (.obj [("mined", .arr
        ((List.range 64).map (fun i => notaryItem nenv pubkeys i (blocks i)) ++
          [externalItem (blocks 64)]))]) ∧
      (∀ i < 64, blocks i = if (i : Int) < numnotaries then
        (List.range n.toNat).countP (fun k => (ids.getD k 0).toNat = i) else 0) ∧
      blocks 64 = (List.range n.toNat).countP (fun k => numnotaries ≤ (ids.getD k 0).toNat) ∧
      ((∑ i ∈ Finset.range 65, blocks i : Nat) : Int) = n := by
  obtain ⟨t, htally, hslot⟩ := tallyMinerids_spec hk64 ids (n := n) (by omega)
  refine ⟨fun k _ => ?_, fun i => if i < 64 then t.getD i 0 else t.getD 128 0, ?_,
    fun i hi => ?_, ?_, ?_⟩
  · rcases tallyIndex_slot hk64 (ids.getD k 0) with h | h <;> omega
  · have hmap : (List.range 64).map (fun i => notaryItem nenv pubkeys i (t.getD i 0)) =
        (List.range 64).map (fun i => notaryItem nenv pubkeys i
          (if i < 64 then t.getD i 0 else t.getD 128 0)) :=
      List.map_congr_left fun i hi => by rw [if_pos (List.mem_range.1 hi)]
    simp only [minerids, hm, hk, hn, hk0, htally, hmap, if_true, Option.map_some']
    rfl
  · show (if i < 64 then t.getD i 0 else t.getD 128 0) = _
    rw [if_pos hi, hslot]
    split_ifs with hlt
    · exact List.countP_congr fun k _ => by
        simp only [decide_eq_true_eq, tallyIndex_eq_iff hi, hlt, true_and]
    · exact List.countP_eq_zero.2 fun k _ => by
        simp only [decide_eq_true_eq, tallyIndex_eq_iff hi, hlt, false_and, not_false_eq_true]
  · show (if 64 < 64 then t.getD 64 0 else t.getD 128 0) = _
    rw [if_neg (lt_irrefl 64), hslot]
    exact List.countP_congr fun k _ => by simp only [decide_eq_true_eq, tallyIndex_eq_128 hk64]
  · have hsum := sum_countP_slots (fun k => tallyIndex numnotaries (ids.getD k 0))
      (List.range n.toNat) fun k _ => tallyIndex_slot hk64 _
    rw [List.length_range] at hsum
    rw [Finset.sum_range_succ, if_neg (lt_irrefl 64), hslot,
      Finset.sum_congr rfl fun i hi => by rw [if_pos (Finset.mem_range.1 hi), hslot], hsum,
      Int.toNat_of_nonneg hn.le]

/-- Notary code that reports three blocks, of notaries `0` and `1` and of an id `200`, and two
notaries whose keys are all zero bytes. -/
def sampleNotaryEnv : NotaryEnv where
  safecoinMinerids _ := (3, [0, 1, 200] ++ List.replicate 1997 0)
  safecoinNotaries _ := (2, fun _ => List.replicate 33 0)
  safecoinNotaries_length _ _ := List.length_replicate 33 0
  bitcoinAddress _ := ""

theorem minerids_blocks_sampleNotaryEnv :
    let ids : List UInt8 := [0, 1, 200] ++ List.replicate 1997 0
    sampleNotaryEnv.safecoinMinerids (mineridsHeight forkScenario 0) = (3, ids) ∧
    sampleNotaryEnv.safecoinNotaries (mineridsHeight forkScenario 0) =
      (2, fun _ => List.replicate 33 0) ∧
    (0 : Int) < 3 ∧ (3 : Int) ≤ 2000 ∧ ids.length = 2000 ∧ (0 : Int) < 2 ∧ (2 : Int) ≤ 64 ∧
    (∀ k < (3 : Int).toNat, tallyIndex 2 (ids.getD k 0) ≤ 128) ∧
    ∃ blocks : Nat → Nat,
      minerids sampleNotaryEnv forkScenario 0 = some (.obj [("mined", .arr
        ((List.range 64).map (fun i =>
          notaryItem sampleNotaryEnv (fun _ => List.replicate 33 0) i (blocks i)) ++
          [externalItem (blocks 64)]))]) ∧
      (∀ i < 64, blocks i = if (i : Int) < 2 then
        (List.range (3 : Int).toNat).countP (fun k => (ids.getD k 0).toNat = i) else 0) ∧
      blocks 64 = (List.range (3 : Int).toNat).countP (fun k => (2 : Int) ≤ (ids.getD k 0).toNat) ∧
      ((∑ i ∈ Finset.range 65, blocks i : Nat) : Int) = 3 :=
  have hlen : ([0, 1, 200] ++ List.replicate 1997 0 : List UInt8).length = 2000 := by
    rw [List.length_append, List.length_replicate]; rfl
  ⟨rfl, rfl, by decide, by decide, hlen, by decide, by decide,
    minerids_blocks sampleNotaryEnv forkScenario 0 rfl rfl (by decide) (by decide) hlen (by decide)
      (by decide)⟩

end SafecoinRpc
