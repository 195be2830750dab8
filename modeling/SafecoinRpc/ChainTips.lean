import Mathlib.Data.List.Nodup
import SafecoinRpc.Validator
import SafecoinRpc.StdSet

/-!
# `getchaintips`

The tip set is built as the source builds it: every entry of `mapBlockIndex` inserted into a
`std::set` ordered by `CompareBlocksByHeight`, then the `pprev` of every entry erased, then
the active tip inserted (`setTips`). The comparator is a strict total order on entries
(`compareBlocksByHeight_strictTotal`), so the set holds exactly the leaves of the forest and
the active tip, whatever order the map is visited in (`mem_setTips`). On a forest whose one
root is the chain's genesis, `FindFork` of every tip is defined, and a tip's branch length is
zero exactly when it is the active tip, the one tip reported `active` (`chainTipEntry_spec`).

The output loop nests two `BOOST_FOREACH` over the set, the inner `block` shadowing the
outer, so the array holds the entries of all tips once for every tip
(`activeEntries_getchaintips`, `getchaintips_repeated`).
-/

namespace SafecoinRpc

namespace State

/-- `CompareBlocksByHeight`: the higher entry first, entries of one height by pointer. -/
def compareBlocksByHeight (s : State) (a b : Nat) : Bool :=
  if s.height a ≠ s.height b then decide (s.height a > s.height b) else decide (a < b)

/-- The two loops over `mapBlockIndex`, which `BOOST_FOREACH` visits in the order `items`:
every entry inserted, then the `pprev` of every entry erased. -/
def tipCandidates (s : State) (items : List Nat) : List Nat :=
  let setTips := items.foldl (fun acc p => StdSet.insert s.compareBlocksByHeight p acc) []
  items.foldl (fun acc m => StdSet.eraseSome s.compareBlocksByHeight (s.parent m) acc) setTips

/-- `setTips` of `getchaintips`, with `mapBlockIndex` visited in the order `items`; `none` on an
empty chain, where the source inserts `chainActive.Tip()`, which is `NULL`, and dereferences
it. -/
def setTips (s : State) (items : List Nat) : Option (List Nat) :=
  s.chainActive.tip.map fun t => StdSet.insert s.compareBlocksByHeight t (s.tipCandidates items)

/-- The `status` of a tip: the first rule that matches, in the order of the source. -/
def tipStatus (s : State) (block : Nat) : String :=
  let b := s.get block
  if s.contains block then "active"
  else if b.nStatus &&& BLOCK_FAILED_MASK != 0 then "invalid"
  else if b.nChainTx = 0 then "headers-only"
  else if b.isValid BLOCK_VALID_SCRIPTS then "valid-fork"
  else if b.isValid BLOCK_VALID_TREE then "valid-headers"
  else "unknown"

/-- The object `getchaintips` pushes for one tip; `branchlen` and `status` only when
`FindFork` finds a fork point. -/
def chainTipEntry (s : State) (block : Nat) : UniValue :=
  let b := s.get block
  .obj ([("height", .num b.nHeight), ("hash", .str (getHex b.hashBlock))] ++
    match s.findFork block with
    | some forked =>
      [("branchlen", .num (b.nHeight - (s.get forked).nHeight)), ("status", .str (s.tipStatus block))]
    | none => [])

/-- `getchaintips`, with `mapBlockIndex` visited in the order `items`. The output loop is two
nested `BOOST_FOREACH` over `setTips` whose inner `block` shadows the outer one. -/
def getchaintips (s : State) (items : List Nat) : Option UniValue :=
  (s.setTips items).map fun setTips =>
    .arr (setTips.flatMap fun _ => setTips.map s.chainTipEntry)

/-- A leaf of the forest: a stored entry that is no entry's `pprev`. -/
def IsLeaf (s : State) (p : Nat) : Prop := p < s.size ∧ ∀ m, m < s.size → s.parent m ≠ some p

end State

/-- An object whose `status` is `active`. -/
def isActiveEntry (e : UniValue) : Bool :=
  match e.find "status" with
  | some (.str status) => status == "active"
  | _ => false

/-- The entries of a `getchaintips` array whose `status` is `active`. -/
def activeEntries : UniValue → List UniValue
  | .arr es => es.filter isActiveEntry
  | _ => []

namespace State

variable {s : State}

/-! ## The comparator and the tip set -/

/-- `CompareBlocksByHeight` is a strict total order on entries: pointers break height ties. -/
theorem compareBlocksByHeight_strictTotal (s : State) :
    StdSet.StrictTotal s.compareBlocksByHeight where
  irrefl a := by simp [compareBlocksByHeight]
  trans {a b c} hab hbc := by
    simp only [compareBlocksByHeight, ne_eq] at hab hbc ⊢
    split_ifs at hab hbc ⊢ <;> simp only [decide_eq_true_eq] at hab hbc ⊢ <;> omega
  total {a b} hne := by
    simp only [compareBlocksByHeight, ne_eq]
    split_ifs <;> simp only [decide_eq_true_eq] <;> omega

/-- The candidates are the stored entries that are no entry's `pprev`, in order. -/
theorem tipCandidates_spec {items : List Nat} (hitems : ∀ p, p ∈ items ↔ p < s.size) :
    StdSet.Sorted s.compareBlocksByHeight (s.tipCandidates items) ∧
      ∀ p, p ∈ s.tipCandidates items ↔ s.IsLeaf p := by
  have hlt := compareBlocksByHeight_strictTotal s
  obtain ⟨hs1, hm1⟩ := StdSet.foldl_insert hlt items [] List.Pairwise.nil
  obtain ⟨hs2, hm2⟩ := StdSet.foldl_erase hlt s.parent items hs1
  simp only [tipCandidates]
  refine ⟨hs2, fun p => ?_⟩
  simp only [hm2, hm1, List.not_mem_nil, false_or, hitems, IsLeaf]

/-- The tip set holds exactly the leaves of the forest and the active tip, sorted, for every
order of visiting `mapBlockIndex`. -/
theorem mem_setTips {items : List Nat} (hitems : ∀ p, p ∈ items ↔ p < s.size) {t : Nat}
    (ht : s.chainActive.tip = some t) :
    ∃ setTips, s.setTips items = some setTips ∧
      StdSet.Sorted s.compareBlocksByHeight setTips ∧
      ∀ p, p ∈ setTips ↔ s.IsLeaf p ∨ p = t := by
  have hlt := compareBlocksByHeight_strictTotal s
  obtain ⟨hsort, hmem⟩ := tipCandidates_spec hitems
  refine ⟨_, by simp [setTips, ht], StdSet.sorted_insert hlt t hsort, fun p => ?_⟩
  rw [StdSet.mem_insert hlt, hmem]
  exact or_comm

/-- The tip set `getchaintips` builds, for every reachable state and every order of visiting
`mapBlockIndex`, is the set of leaves of the forest together with the active tip; this rests
on `CompareBlocksByHeight` being a strict total order. -/
theorem setTips_eq_leaves_and_tip (hs : Reachable s) {items : List Nat}
    (hitems : items.Perm (List.range s.size)) :
    (∀ a, s.compareBlocksByHeight a a = false) ∧
    (∀ a b c, s.compareBlocksByHeight a b = true → s.compareBlocksByHeight b c = true →
      s.compareBlocksByHeight a c = true) ∧
    (∀ a b, a ≠ b → (s.compareBlocksByHeight a b = true ↔ s.compareBlocksByHeight b a = false)) ∧
    ∃ setTips t, s.setTips items = some setTips ∧ s.chainActive.tip = some t ∧
      StdSet.Sorted s.compareBlocksByHeight setTips ∧
      ∀ p, p ∈ setTips ↔ s.IsLeaf p ∨ p = t := by
  have hlt := compareBlocksByHeight_strictTotal s
  obtain ⟨t, ht, -⟩ := hs.wf.tip_spec
  obtain ⟨setTips, hset, hsort, hmem⟩ :=
    mem_setTips (fun p => by rw [hitems.mem_iff, List.mem_range]) ht
  exact ⟨hlt.irrefl, fun _ _ _ => hlt.trans, fun _ _ => hlt.lt_iff_not_lt,
    setTips, t, hset, ht, hsort, hmem⟩

theorem setTips_eq_leaves_and_tip_forkScenario :
    Reachable forkScenario ∧ (List.range forkScenario.size).Perm (List.range forkScenario.size) ∧
    (∀ a, forkScenario.compareBlocksByHeight a a = false) ∧
    (∀ a b c, forkScenario.compareBlocksByHeight a b = true →
      forkScenario.compareBlocksByHeight b c = true → forkScenario.compareBlocksByHeight a c = true) ∧
    (∀ a b, a ≠ b → (forkScenario.compareBlocksByHeight a b = true ↔
      forkScenario.compareBlocksByHeight b a = false)) ∧
    ∃ setTips t, forkScenario.setTips (List.range forkScenario.size) = some setTips ∧
      forkScenario.chainActive.tip = some t ∧
      StdSet.Sorted forkScenario.compareBlocksByHeight setTips ∧
      ∀ p, p ∈ setTips ↔ forkScenario.IsLeaf p ∨ p = t :=
  ⟨forkScenario_reachable, List.Perm.refl _,
    setTips_eq_leaves_and_tip forkScenario_reachable (List.Perm.refl _)⟩

/-! ## The entries -/

theorem tipStatus_eq_active_iff (t : Nat) : s.tipStatus t = "active" ↔ s.contains t := by
  by_cases hc : s.contains t
  · simp [tipStatus, hc]
  · simp only [tipStatus, hc, Bool.false_eq_true, if_false, iff_false]
    split_ifs <;> decide

/-- A tip is on the chain only when it is the chain's tip: every other chain entry is the
parent of the next one. -/
theorem WF.contains_iff_tip (hs : s.WF) {t : Nat} (ht : s.IsLeaf t ∨ s.chainActive.tip = some t) :
    s.contains t ↔ s.chainActive.tip = some t := by
  refine ⟨fun hc => ?_, hs.contains_tip⟩
  by_contra hne
  obtain ⟨q, hq, hpq⟩ := hs.exists_child_of_contains hc hne
  rcases ht with ⟨-, hl⟩ | h
  · exact hl q hq hpq
  · exact hne h

/-- A member of the tip set is a leaf or the active tip, and so a stored entry. -/
theorem WF.leaf_or_tip_of_mem (hs : s.WF) {tip t : Nat} {setTips : List Nat}
    (htip : s.chainActive.tip = some tip) (hmem : ∀ p, p ∈ setTips ↔ s.IsLeaf p ∨ p = tip)
    (ht : t ∈ setTips) : (s.IsLeaf t ∨ s.chainActive.tip = some t) ∧ t < s.size := by
  have htt : s.IsLeaf t ∨ s.chainActive.tip = some t := by
    rcases (hmem t).1 ht with h | rfl
    · exact .inl h
    · exact .inr htip
  exact ⟨htt, htt.elim (·.1) hs.tip_lt_size⟩

/-- On a forest whose one root is the chain's genesis, the entry of a stored block has a fork
point, and its branch length is nonnegative and zero exactly for a chain block. -/
theorem WF.chainTipEntry_spec (hs : s.WF) (hroot : s.SingleRoot) {t : Nat} (ht : t < s.size) :
    ∃ f, s.findFork t = some f ∧
      s.chainTipEntry t = .obj [("height", .num (s.height t)),
        ("hash", .str (getHex (s.get t).hashBlock)),
        ("branchlen", .num (s.height t - s.height f)), ("status", .str (s.tipStatus t))] ∧
      0 ≤ s.height t - s.height f ∧ (s.height t - s.height f = 0 ↔ s.contains t) := by
  obtain ⟨k, f, -, hff, hanc, -, hk0⟩ := hs.findFork_spec hroot ht
  have hhf := (hs.height_of_ancestor ht hanc).2
  refine ⟨f, hff, by simp [chainTipEntry, hff, height], by omega, ?_⟩
  rw [← hk0]
  omega

theorem find_status (a b c d : UniValue) :
    (UniValue.obj [("height", a), ("hash", b), ("branchlen", c), ("status", d)]).find "status" =
      some d := rfl

theorem length_filter_flatMap_const {α β : Type} (p : β → Bool) (l : List α) (m : List β) :
    ((l.flatMap fun _ => m).filter p).length = l.length * (m.filter p).length := by
  induction l with
  | nil => simp
  | cons a l ih => simp [List.filter_append, ih, Nat.succ_mul, Nat.add_comm]

/-- On a reachable forest whose one root is the chain's genesis, `getchaintips` reports
`active` once for every tip, not once. -/
theorem WF.activeEntries_getchaintips (hs : s.WF) (hroot : s.SingleRoot) {items : List Nat}
    (hitems : ∀ p, p ∈ items ↔ p < s.size) :
    ∃ setTips out, s.setTips items = some setTips ∧ s.getchaintips items = some out ∧
      (activeEntries out).length = setTips.length := by
  obtain ⟨tip, htip, -⟩ := hs.tip_spec
  obtain ⟨setTips, hset, hsort, hmem⟩ := mem_setTips hitems htip
  refine ⟨setTips, .arr (setTips.flatMap fun _ => setTips.map s.chainTipEntry), hset,
    by simp [getchaintips, hset], ?_⟩
  have hnodup : setTips.Nodup :=
    hsort.imp fun h e => by subst e; simp [(compareBlocksByHeight_strictTotal s).irrefl] at h
  have htipmem : tip ∈ setTips := (hmem tip).2 (.inr rfl)
  have hfilter : setTips.filter (isActiveEntry ∘ s.chainTipEntry) = setTips.filter (· == tip) := by
    refine List.filter_congr fun t ht => ?_
    obtain ⟨htt, hts⟩ := hs.leaf_or_tip_of_mem htip hmem ht
    obtain ⟨f, -, he, -⟩ := hs.chainTipEntry_spec hroot hts
    have hiff : s.contains t ↔ t = tip :=
      (hs.contains_iff_tip htt).trans (by rw [htip, Option.some_inj, eq_comm])
    show isActiveEntry (s.chainTipEntry t) = (t == tip)
    rw [he, isActiveEntry, find_status]
    rw [Bool.eq_iff_iff, beq_iff_eq, beq_iff_eq, tipStatus_eq_active_iff, hiff]
  simp only [activeEntries]
  rw [length_filter_flatMap_const, List.filter_map, List.length_map, hfilter,
    ← List.countP_eq_length_filter, ← List.count_eq_countP,
    List.count_eq_one_of_mem hnodup htipmem, Nat.mul_one]

end State

/-- On the spec's fork scenario, whose tips are the active tip and the competing block at
height 2, `getchaintips` pushes each tip's entry twice, and two entries are `active`. -/
theorem getchaintips_forkScenario :
    forkScenario.getchaintips (List.range forkScenario.size) =
      some (.arr [forkScenario.chainTipEntry 2, forkScenario.chainTipEntry 3,
        forkScenario.chainTipEntry 2, forkScenario.chainTipEntry 3]) ∧
    (activeEntries (.arr [forkScenario.chainTipEntry 2, forkScenario.chainTipEntry 3,
        forkScenario.chainTipEntry 2, forkScenario.chainTipEntry 3])).length = 2 :=
  ⟨rfl, by decide⟩

/-- On every reachable forest whose one root is the chain's genesis, and for every order of
visiting `mapBlockIndex`, `getchaintips` returns the sorted entries of all tips once for every
tip: `|setTips|²` entries, `|setTips|` of them `active`. -/
theorem getchaintips_repeated {s : State} (hs : Reachable s) (hroot : s.SingleRoot)
    {items : List Nat} (hitems : items.Perm (List.range s.size)) :
    ∃ setTips, s.setTips items = some setTips ∧ StdSet.Sorted s.compareBlocksByHeight setTips ∧
      s.getchaintips items =
        some (.arr (List.replicate setTips.length (setTips.map s.chainTipEntry)).flatten) ∧
      (activeEntries (.arr (List.replicate setTips.length
        (setTips.map s.chainTipEntry)).flatten)).length = setTips.length := by
  have hmem : ∀ p, p ∈ items ↔ p < s.size := fun p => by rw [hitems.mem_iff, List.mem_range]
  obtain ⟨t, ht, -⟩ := hs.wf.tip_spec
  obtain ⟨setTips, hset, hsort, -⟩ := State.mem_setTips hmem ht
  obtain ⟨setTips', out, hset', hout, hact⟩ := hs.wf.activeEntries_getchaintips hroot hmem
  obtain rfl : setTips = setTips' := Option.some.inj (hset.symm.trans hset')
  have hrep : s.getchaintips items =
      some (.arr (List.replicate setTips.length (setTips.map s.chainTipEntry)).flatten) := by
    rw [State.getchaintips, hset, Option.map_some', List.flatMap_def, List.map_const']
  refine ⟨setTips, hset, hsort, hrep, ?_⟩
  rwa [← Option.some.inj (hrep.symm.trans hout)] at hact

theorem getchaintips_repeated_forkScenario :
    Reachable forkScenario ∧ forkScenario.SingleRoot ∧
    (List.range forkScenario.size).Perm (List.range forkScenario.size) ∧
    ∃ setTips, forkScenario.setTips (List.range forkScenario.size) = some setTips ∧
      StdSet.Sorted forkScenario.compareBlocksByHeight setTips ∧
      forkScenario.getchaintips (List.range forkScenario.size) = some (.arr
        (List.replicate setTips.length (setTips.map forkScenario.chainTipEntry)).flatten) ∧
      (activeEntries (.arr (List.replicate setTips.length
        (setTips.map forkScenario.chainTipEntry)).flatten)).length = setTips.length :=
  ⟨forkScenario_reachable, by decide, List.Perm.refl _,
    getchaintips_repeated forkScenario_reachable (by decide) (List.Perm.refl _)⟩

end SafecoinRpc
