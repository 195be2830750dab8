import SafecoinRpc.ActiveChain

/-!
# The validator: how the block index and the active chain change

The RPCs only read. The block index and the active chain are written by the node's
validation, kept here to the writes the spec names: a header is accepted
(`addToBlockIndex`, refused on a `DuplicateHash` or an `UnknownParent`), the tip moves
(`setTip`), the validation of an entry progresses (`raiseValidity`), and the best header
moves. `Reachable` holds of every state these steps reach from a genesis entry on the chain,
and each of them is `WF` (`Reachable.wf`), because every step keeps it (`WF.step`).
-/

namespace SafecoinRpc

/-- The entry `AddToBlockIndex` makes for a header: validity raised to `BLOCK_VALID_TREE`,
no transaction connected yet. -/
def newEntry (hash : Uint256) (hdr : CBlockHeader) (pprev : Option Nat) (nHeight : Int) :
    CBlockIndex :=
  { hashBlock := hash, pprev, nHeight, nVersion := hdr.nVersion,
    hashMerkleRoot := hdr.hashMerkleRoot, nTime := hdr.nTime, nBits := hdr.nBits,
    nNonce := hdr.nNonce, nSolution := hdr.nSolution, nChainWork := 0,
    nStatus := BLOCK_VALID_TREE, nTx := 0, nChainTx := 0, hashAnchorEnd := 0 }

/-- The insertion errors of the spec's `BlockIndexStore.insert`. -/
inductive InsertError where
  | DuplicateHash
  | UnknownParent
  deriving DecidableEq, Repr

namespace State

/-- A new entry at the end of the arena. -/
def appendEntry (s : State) (e : CBlockIndex) : State :=
  { s with mapBlockIndex := s.mapBlockIndex ++ [e] }

/-- Modelled from the spec: `BlockIndexStore.insert`, the `AddToBlockIndex` of `main.cpp` (not
among the sources). A fresh hash is stored with the entry under `hashPrevBlock` as its
parent, none for the zero hash, and a height one more than the parent's. -/
def addToBlockIndex (s : State) (hash : Uint256) (hdr : CBlockHeader) :
    Except InsertError State :=
  if (s.lookup hash).isSome then .error .DuplicateHash
  else if hdr.hashPrevBlock = 0 then .ok (s.appendEntry (newEntry hash hdr none 0))
  else match s.lookup hdr.hashPrevBlock with
    | none => .error .UnknownParent
    | some q => .ok (s.appendEntry (newEntry hash hdr (some q) (s.height q + 1)))

/-- The entries met walking up from `o`, at most `fuel` of them, nearest first. -/
def pathUp (s : State) : Nat → Option Nat → List Nat
  | 0, _ => []
  | _ + 1, none => []
  | fuel + 1, some p => p :: s.pathUp fuel (s.parent p)

/-- Modelled from the spec: `chainActive.SetTip(pindex)` of `chain.cpp`, the chain becomes the
path from the root to `pindex`. -/
def setTip (s : State) (p : Nat) : State :=
  { s with chainActive := ⟨(s.pathUp s.size (some p)).reverse⟩ }

/-- The validator's writes to an entry as its validation goes on. -/
def raiseValidity (s : State) (p : Nat) (nStatus : UInt32) (nTx nChainTx : Nat)
    (nChainWork hashAnchorEnd : Uint256) : State :=
  let b : CBlockIndex :=
    { s.get p with
      nStatus := nStatus
      nTx := nTx
      nChainTx := nChainTx
      nChainWork := nChainWork
      hashAnchorEnd := hashAnchorEnd }
  { s with mapBlockIndex := s.mapBlockIndex.set p b }

/-- A node that has loaded its genesis block: one entry, which is the whole chain. -/
def genesis (hash : Uint256) (hdr : CBlockHeader) : State :=
  { mapBlockIndex := [newEntry hash hdr none 0], chainActive := ⟨[0]⟩,
    pindexBestHeader := some 0 }

end State

/-- The validator's steps. -/
inductive Event where
  | acceptHeader (hash : Uint256) (hdr : CBlockHeader)
  | setTip (p : Nat)
  | raiseValidity (p : Nat) (nStatus : UInt32) (nTx nChainTx : Nat)
      (nChainWork hashAnchorEnd : Uint256)
  | setBestHeader (p : Nat)
  deriving DecidableEq, Repr

namespace State

/-- One step of the validator, `none` when it is refused. A header is accepted only below the
height `INT_MAX`, where its `nHeight` and the confirmations counted from it fit an `int`; every
other step names a stored entry. -/
def step (s : State) : Event → Option State
  | .acceptHeader hash hdr =>
    match s.addToBlockIndex hash hdr with
    | .ok s' => if s'.height s.size < INT_MAX then some s' else none
    | .error _ => none
  | .setTip p => if p < s.size then some (s.setTip p) else none
  | .raiseValidity p nStatus nTx nChainTx nChainWork hashAnchorEnd =>
    if p < s.size then some (s.raiseValidity p nStatus nTx nChainTx nChainWork hashAnchorEnd)
    else none
  | .setBestHeader p => if p < s.size then some { s with pindexBestHeader := some p } else none

/-- A run of steps, `none` when one of them is refused. -/
def run (s : State) : List Event → Option State
  | [] => some s
  | e :: es => (s.step e).bind (·.run es)

end State

/-- The states the validator reaches from a genesis entry on the chain. -/
inductive Reachable : State → Prop
  | genesis (hash : Uint256) (hdr : CBlockHeader) : Reachable (State.genesis hash hdr)
  | step {s s' : State} (e : Event) : Reachable s → s.step e = some s' → Reachable s'

theorem Reachable.run {s s' : State} (es : List Event) (hs : Reachable s)
    (h : s.run es = some s') : Reachable s' := by
  induction es generalizing s with
  | nil => cases h; exact hs
  | cons e es ih =>
    simp only [State.run, Option.bind_eq_some] at h
    obtain ⟨t, ht, h⟩ := h
    exact ih (hs.step e ht) h

namespace State

variable {s : State}

/-! ## What each write changes -/

@[simp] theorem size_appendEntry (e : CBlockIndex) : (s.appendEntry e).size = s.size + 1 := by
  simp [appendEntry, size]

theorem get_appendEntry_lt (e : CBlockIndex) {p : Nat} (hp : p < s.size) :
    (s.appendEntry e).get p = s.get p := by
  simp only [appendEntry, get, List.getD_eq_getElem?_getD]
  rw [List.getElem?_append_left hp]

@[simp] theorem get_appendEntry_size (e : CBlockIndex) : (s.appendEntry e).get s.size = e := by
  simp only [appendEntry, get, List.getD_eq_getElem?_getD, size]
  rw [List.getElem?_concat_length]
  rfl

/-- The five writes of `raiseValidity` leave the links, heights and hashes alone. -/
theorem get_raiseValidity {p : Nat} {nStatus : UInt32} {nTx nChainTx : Nat}
    {nChainWork hashAnchorEnd : Uint256} (q : Nat) :
    let t := s.raiseValidity p nStatus nTx nChainTx nChainWork hashAnchorEnd
    (t.get q).pprev = (s.get q).pprev ∧ (t.get q).nHeight = (s.get q).nHeight ∧
      (t.get q).hashBlock = (s.get q).hashBlock := by
  simp only [raiseValidity, get, List.getD_eq_getElem?_getD, List.getElem?_set]
  split_ifs with h1 h2
  · subst h1; simp [List.getElem?_eq_getElem h2]
  · subst h1; simp [List.getElem?_eq_none_iff.2 (Nat.le_of_not_lt h2)]
  · exact ⟨rfl, rfl, rfl⟩

theorem addToBlockIndex_ok {hash : Uint256} {hdr : CBlockHeader} {s' : State}
    (h : s.addToBlockIndex hash hdr = .ok s') :
    s.lookup hash = none ∧ ∃ pprev nHeight, s' = s.appendEntry (newEntry hash hdr pprev nHeight) ∧
      (pprev = none ∧ nHeight = 0 ∨ ∃ q, pprev = some q ∧ q < s.size ∧ nHeight = s.height q + 1) := by
  unfold addToBlockIndex at h
  split at h
  · cases h
  · rename_i hnew
    refine ⟨Option.not_isSome_iff_eq_none.1 hnew, ?_⟩
    split at h
    · cases h; exact ⟨none, 0, rfl, .inl ⟨rfl, rfl⟩⟩
    · split at h
      · cases h
      · rename_i q hq
        cases h
        exact ⟨some q, _, rfl, .inr ⟨q, rfl, (lookup_spec hq).1, rfl⟩⟩

/-- The entries met walking up, by index. -/
theorem getElem?_pathUp (fuel i : Nat) (o : Option Nat) :
    (s.pathUp fuel o)[i]? = if i < fuel then s.ancestor i o else none := by
  induction fuel generalizing i o with
  | zero => simp [pathUp]
  | succ fuel ih =>
    cases o with
    | none => simp [pathUp]
    | some p =>
      cases i with
      | zero => simp [pathUp]
      | succ i => simp [pathUp, ih, ancestor_succ_some]

/-! ## Every step keeps `WF` -/

/-- Two states whose entries have the same links, heights and hashes, on the same chain. -/
structure SameShape (s t : State) : Prop where
  size_eq : t.size = s.size
  chain_eq : t.chainActive = s.chainActive
  get_eq : ∀ q, (t.get q).pprev = (s.get q).pprev ∧ (t.get q).nHeight = (s.get q).nHeight ∧
    (t.get q).hashBlock = (s.get q).hashBlock

theorem WF.of_sameShape {t : State} (hs : s.WF) (h : SameShape s t) : t.WF := by
  have hp : ∀ q, t.parent q = s.parent q := fun q => (h.get_eq q).1
  have hh : ∀ q, t.height q = s.height q := fun q => (h.get_eq q).2.1
  have hb : ∀ q, (t.get q).hashBlock = (s.get q).hashBlock := fun q => (h.get_eq q).2.2
  refine ⟨⟨?_, ?_, ?_, ?_, ?_⟩, ⟨?_, ?_, ?_, ?_⟩⟩ <;>
    simp only [h.size_eq, h.chain_eq, hp, hh, hb]
  exacts [hs.pprev_lt, hs.height_pprev, hs.height_root, hs.height_lt, hs.hash_inj, hs.ne_nil,
    hs.lt_size, hs.parent_zero, hs.parent_succ]

theorem WF.raiseValidity (hs : s.WF) (p : Nat) (nStatus : UInt32) (nTx nChainTx : Nat)
    (nChainWork hashAnchorEnd : Uint256) :
    (s.raiseValidity p nStatus nTx nChainTx nChainWork hashAnchorEnd).WF :=
  hs.of_sameShape ⟨by simp only [State.raiseValidity, size, List.length_set], rfl,
    get_raiseValidity⟩

theorem WF.setBestHeader (hs : s.WF) (o : Option Nat) : { s with pindexBestHeader := o }.WF :=
  hs.of_sameShape ⟨rfl, rfl, fun _ => ⟨rfl, rfl, rfl⟩⟩

@[simp] theorem parent_appendEntry_size (e : CBlockIndex) :
    (s.appendEntry e).parent s.size = e.pprev := by
  simp only [parent, get_appendEntry_size]

@[simp] theorem height_appendEntry_size (e : CBlockIndex) :
    (s.appendEntry e).height s.size = e.nHeight := by
  simp only [height, get_appendEntry_size]

/-- A fresh entry whose link and height follow its parent keeps `WF`. -/
theorem WF.appendEntry (hs : s.WF) {e : CBlockIndex} (hfresh : s.lookup e.hashBlock = none)
    (hlink : e.pprev = none ∧ e.nHeight = 0 ∨
      ∃ q, e.pprev = some q ∧ q < s.size ∧ e.nHeight = s.height q + 1)
    (hint : e.nHeight < INT_MAX) : (s.appendEntry e).WF := by
  have hget : ∀ {p}, p < s.size → (s.appendEntry e).get p = s.get p :=
    fun hp => get_appendEntry_lt e hp
  have hpar : ∀ {p}, p < s.size → (s.appendEntry e).parent p = s.parent p :=
    fun hp => by simp only [parent, hget hp]
  have hhei : ∀ {p}, p < s.size → (s.appendEntry e).height p = s.height p :=
    fun hp => by simp only [height, hget hp]
  -- an entry of the new store is an old one or the new one
  have hcases : ∀ {p}, p < (s.appendEntry e).size → p < s.size ∨ p = s.size :=
    fun hp => by rw [size_appendEntry] at hp; omega
  have hne : ∀ {q}, q < s.size → (s.get q).hashBlock ≠ e.hashBlock :=
    fun hq => (lookup_eq_none.1 hfresh) _ hq
  refine ⟨⟨?_, ?_, ?_, ?_, ?_⟩, ⟨hs.ne_nil, ?_, ?_, ?_⟩⟩
  · intro p q hp hq
    rcases hcases hp with hlt | rfl
    · rw [hpar hlt] at hq; exact hs.pprev_lt hlt hq
    · rw [parent_appendEntry_size] at hq
      rcases hlink with ⟨h, -⟩ | ⟨q', h, hq', -⟩ <;> rw [h] at hq <;> cases hq
      exact hq'
  · intro p q hp hq
    rcases hcases hp with hlt | rfl
    · rw [hpar hlt] at hq
      rw [hhei hlt, hhei (hs.pprev_lt hlt hq |>.trans hlt)]
      exact hs.height_pprev hlt hq
    · rw [parent_appendEntry_size] at hq
      rcases hlink with ⟨h, -⟩ | ⟨q', h, hq', hh⟩ <;> rw [h] at hq <;> cases hq
      rw [height_appendEntry_size, hhei hq', hh]
  · intro p hp hq
    rcases hcases hp with hlt | rfl
    · rw [hpar hlt] at hq; rw [hhei hlt]; exact hs.height_root hlt hq
    · rw [parent_appendEntry_size] at hq
      rw [height_appendEntry_size]
      rcases hlink with ⟨-, h⟩ | ⟨q', h, -⟩
      · exact h
      · rw [h] at hq; cases hq
  · intro p hp
    rcases hcases hp with hlt | rfl
    · rw [hhei hlt]; exact hs.height_lt hlt
    · rw [height_appendEntry_size]; exact hint
  · intro p q hp hq h
    rcases hcases hp with hlp | rfl <;> rcases hcases hq with hlq | rfl
    · rw [hget hlp, hget hlq] at h; exact hs.hash_inj hlp hlq h
    · rw [hget hlp, get_appendEntry_size] at h; exact absurd h (hne hlp)
    · rw [hget hlq, get_appendEntry_size] at h; exact absurd h.symm (hne hlq)
    · rfl
  · intro h p hp
    have := hs.lt_size hp
    rw [size_appendEntry]
    omega
  · intro p hp
    rw [hpar (hs.lt_size hp)]
    exact hs.parent_zero hp
  · intro h p q hp hq
    rw [hpar (hs.lt_size hq)]
    exact hs.parent_succ hp hq

/-- After `SetTip(p)` the chain's entry at height `h` is the ancestor of `p` at `h`. -/
theorem setTip_vChain (hs : s.StoreWF) {p : Nat} (hp : p < s.size) (h : Nat) :
    (s.setTip p).chainActive.vChain[h]? =
      if h ≤ (s.height p).toNat then s.ancestor ((s.height p).toNat - h) (some p) else none := by
  have hfuel : (s.height p).toNat < s.size := by
    have := hs.height_le_pos hp; have := hs.height_nonneg hp; omega
  have hlen : (s.pathUp s.size (some p)).length = (s.height p).toNat + 1 := by
    obtain ⟨q, hq, -⟩ := hs.ancestor_spec hp (le_refl (s.height p).toNat)
    have h1 : (s.pathUp s.size (some p))[(s.height p).toNat]? = some q := by
      rw [getElem?_pathUp, if_pos hfuel, hq]
    have h2 : (s.pathUp s.size (some p))[(s.height p).toNat + 1]? = none := by
      rw [getElem?_pathUp]
      split_ifs
      · exact hs.ancestor_eq_none hp (by omega)
      · rfl
    have := lt_length_of_getElem? h1
    have := List.getElem?_eq_none_iff.1 h2
    omega
  simp only [setTip]
  split_ifs with hh
  · rw [List.getElem?_reverse (by omega), hlen, getElem?_pathUp, if_pos (by omega),
      Nat.add_sub_cancel]
  · rw [List.getElem?_eq_none_iff.2 (by simp only [List.length_reverse]; omega)]

theorem WF.setTip (hs : s.WF) {p : Nat} (hp : p < s.size) : (s.setTip p).WF := by
  have hv := setTip_vChain hs.toStoreWF hp
  refine ⟨⟨hs.pprev_lt, hs.height_pprev, hs.height_root, hs.height_lt, hs.hash_inj⟩,
    ⟨?_, ?_, ?_, ?_⟩⟩
  · intro hnil
    have := hv 0
    rw [hnil, if_pos (Nat.zero_le _)] at this
    obtain ⟨q, hq, -⟩ := hs.ancestor_spec hp (Nat.sub_le (s.height p).toNat 0)
    rw [hq] at this
    cases this
  · intro h q hq
    rw [hv h] at hq
    split_ifs at hq
    exact (hs.height_of_ancestor hp hq).1
  · intro q hq
    rw [hv 0, if_pos (Nat.zero_le _)] at hq
    obtain ⟨hqs, hqh⟩ := hs.height_of_ancestor hp hq
    exact hs.parent_eq_none_of_height_zero hqs (by have := hs.height_nonneg hp; omega)
  · intro h q r hq hr
    rw [hv h] at hq
    rw [hv (h + 1)] at hr
    split_ifs at hq hr with h1 h2
    have : (s.height p).toNat - h = (s.height p).toNat - (h + 1) + 1 := by omega
    rw [this, ancestor_succ, hr] at hq
    exact hq

theorem WF.genesis (hash : Uint256) (hdr : CBlockHeader) : (State.genesis hash hdr).WF := by
  have hsize : (State.genesis hash hdr).size = 1 := rfl
  have hget : (State.genesis hash hdr).get 0 = newEntry hash hdr none 0 := rfl
  have hv : ∀ {h p : Nat}, [0][h]? = some p → h = 0 ∧ p = 0 := by
    intro h p hp
    cases h with
    | zero => cases hp; exact ⟨rfl, rfl⟩
    | succ h => simp at hp
  refine ⟨⟨?_, ?_, ?_, ?_, ?_⟩, ⟨?_, ?_, ?_, ?_⟩⟩ <;> try simp only [hsize, Nat.lt_one_iff]
  · rintro p q rfl hq; simp [parent, hget, newEntry] at hq
  · rintro p q rfl hq; simp [parent, hget, newEntry] at hq
  · rintro p rfl -; rfl
  · rintro p rfl; exact (by decide : (0 : Int) < INT_MAX)
  · rintro p q rfl rfl _; rfl
  · simp [State.genesis]
  · intro h p hp; exact (hv hp).2
  · intro p hp; rw [(hv hp).2]; rfl
  · intro h p q hp hq; exact absurd (hv hq).1 (by omega)

/-- Every step of the validator keeps `WF`. -/
theorem WF.step (hs : s.WF) {e : Event} {s' : State} (h : s.step e = some s') : s'.WF := by
  cases e with
  | acceptHeader hash hdr =>
    simp only [State.step] at h
    split at h
    · rename_i t ht
      split_ifs at h with hint
      cases h
      obtain ⟨hfresh, pprev, nHeight, rfl, hlink⟩ := addToBlockIndex_ok ht
      refine hs.appendEntry hfresh ?_ (by simpa [height] using hint)
      rcases hlink with ⟨rfl, rfl⟩ | ⟨q, rfl, hq, rfl⟩
      · exact .inl ⟨rfl, rfl⟩
      · exact .inr ⟨q, rfl, hq, rfl⟩
    · cases h
  | setTip p =>
    simp only [State.step] at h
    split_ifs at h with hp
    cases h
    exact hs.setTip hp
  | raiseValidity p nStatus nTx nChainTx nChainWork hashAnchorEnd =>
    simp only [State.step] at h
    split_ifs at h
    cases h
    exact hs.raiseValidity _ _ _ _ _ _
  | setBestHeader p =>
    simp only [State.step] at h
    split_ifs at h
    cases h
    exact hs.setBestHeader _

end State

/-- Every reachable state is `WF`. -/
theorem Reachable.wf {s : State} (h : Reachable s) : s.WF := by
  induction h with
  | genesis hash hdr => exact State.WF.genesis hash hdr
  | step e _ hstep ih => exact ih.step hstep

/-! ## The spec's fork scenario -/

/-- A header of version `nVersion` on the block stored under the hash `prev`, with the
compact target `0x1d00ffff` of difficulty `1`. -/
def headerOn (prev : Nat) (nVersion : Int) : CBlockHeader :=
  { (default : CBlockHeader) with
    nVersion, hashPrevBlock := BitVec.ofNat 256 prev, nBits := 0x1d00ffff }

/-- The spec's scenario: headers at heights 0, 1 and 2 on the active chain, and a competing
header at height 2 whose parent is the block at height 1. The chain's blocks have the versions
1, 2 and 4, the competing block 3, so that the soft-fork counts differ by version. -/
def forkScenario : State :=
  { mapBlockIndex := [newEntry (BitVec.ofNat 256 1) (headerOn 0 1) none 0,
      newEntry (BitVec.ofNat 256 2) (headerOn 1 2) (some 0) 1,
      newEntry (BitVec.ofNat 256 3) (headerOn 2 4) (some 1) 2,
      newEntry (BitVec.ofNat 256 4) (headerOn 2 3) (some 1) 2]
    chainActive := ⟨[0, 1, 2]⟩
    pindexBestHeader := some 0 }

/-- The validator reaches the fork scenario: genesis, three headers, then the tip set on the
first header at height 2. -/
theorem forkScenario_reachable : Reachable forkScenario :=
  (Reachable.genesis (BitVec.ofNat 256 1) (headerOn 0 1)).run [
    .acceptHeader (BitVec.ofNat 256 2) (headerOn 1 2), .acceptHeader (BitVec.ofNat 256 3) (headerOn 2 4),
    .acceptHeader (BitVec.ofNat 256 4) (headerOn 2 3), .setTip 2] (by decide)

/-- A regtest-like node to run the RPCs on the scenario: every block is on disk with its
entry's header, and every header hashes to the genesis hash. -/
def sampleEnv : Env where
  powLimit := 0x200f0f0f
  nMajorityWindow := 1000
  nMajorityEnforceBlockUpgrade := 750
  nMajorityRejectBlockOutdated := 950
  networkIDString := "regtest"
  fHavePruned := false
  fPruneMode := false
  getNextWorkRequired s p := (s.get p).nBits
  blockHash _ := BitVec.ofNat 256 1
  readBlockFromDisk e :=
    some ⟨⟨e.nVersion, 0, e.hashMerkleRoot, e.nTime, e.nBits, e.nNonce, e.nSolution⟩, []⟩
  serializeHeader _ := []
  serializeBlock _ := []
  txToJSON _ := .null
  guessVerificationProgress _ := 1
  commitments := 0

end SafecoinRpc
