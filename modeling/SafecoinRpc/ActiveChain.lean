import SafecoinRpc.Forest

/-!
# The active chain

`ChainWF`: the active chain is a nonempty path of stored entries that starts at a root, each
entry the parent of the next. With `StoreWF` it makes `WF`, the invariant of every reachable
state. Under it the entry at index `h` has height `h` (`height_of_vChain`) and is the tip's
ancestor `Height() - h` steps up (`vChain_eq_ancestor`); `Contains` holds exactly of the
chain's entries (`contains_iff`); and every chain entry other than the tip is the parent of a
stored entry (`exists_child_of_contains`).

`findFork_spec`: when the chain's genesis is the only root of the forest, `FindFork` of an
entry is an ancestor of it on the chain, and it is the entry itself exactly when the entry
is on the chain.
-/

namespace SafecoinRpc

theorem exists_getElem?_of_lt {l : List Nat} {h : Nat} (hh : h < l.length) :
    ∃ a, l[h]? = some a :=
  ⟨l[h], List.getElem?_eq_getElem hh⟩

theorem lt_length_of_getElem? {l : List Nat} {h a : Nat} (ha : l[h]? = some a) :
    h < l.length :=
  (List.getElem?_eq_some_iff.1 ha).1

namespace State

/-- The active chain of every reachable state: a nonempty path of stored entries from a root,
each entry the parent of the next. -/
structure ChainWF (s : State) : Prop where
  ne_nil : s.chainActive.vChain ≠ []
  lt_size : ∀ {h p : Nat}, s.chainActive.vChain[h]? = some p → p < s.size
  parent_zero : ∀ {p : Nat}, s.chainActive.vChain[0]? = some p → s.parent p = none
  parent_succ : ∀ {h p q : Nat}, s.chainActive.vChain[h]? = some p →
    s.chainActive.vChain[h + 1]? = some q → s.parent q = some p

/-- The invariant of every reachable state. -/
structure WF (s : State) extends StoreWF s, ChainWF s : Prop

/-- The forest has a single root, the active chain's genesis. -/
def SingleRoot (s : State) : Prop :=
  ∀ p, p < s.size → s.parent p = none → s.chainActive.genesis = some p

instance (s : State) : Decidable s.SingleRoot := by unfold SingleRoot; infer_instance

theorem chain_get_of_nonneg (s : State) {h : Int} (hh : 0 ≤ h) :
    s.chainActive.get h = s.chainActive.vChain[h.toNat]? := by
  simp [CChain.get, hh]

theorem chain_height_eq (s : State) :
    s.chainActive.height = (s.chainActive.vChain.length : Int) - 1 := rfl

theorem vChain_last_of_tip {s : State} {t : Nat} (ht : s.chainActive.tip = some t) :
    s.chainActive.vChain[s.chainActive.vChain.length - 1]? = some t := by
  rw [CChain.tip, List.getLast?_eq_getElem?] at ht
  exact ht

namespace WF

variable {s : State} (hs : s.WF)
include hs

theorem chain_height_nonneg : 0 ≤ s.chainActive.height := by
  have := List.length_pos.2 hs.ne_nil
  rw [chain_height_eq]
  omega

/-- The chain's entry at index `h` has height `h`. -/
theorem height_of_vChain {h p : Nat} (hp : s.chainActive.vChain[h]? = some p) :
    s.height p = h := by
  induction h generalizing p with
  | zero => exact hs.height_root (hs.lt_size hp) (hs.parent_zero hp)
  | succ h ih =>
    obtain ⟨q, hq⟩ := exists_getElem?_of_lt (l := s.chainActive.vChain) (h := h)
      (by have := lt_length_of_getElem? hp; omega)
    rw [hs.height_pprev (hs.lt_size hp) (hs.parent_succ hq hp), ih hq]
    push_cast
    rfl

theorem contains_iff {p : Nat} :
    s.contains p ↔ ∃ h : Nat, s.chainActive.vChain[h]? = some p := by
  constructor
  · intro hc
    simp only [contains, beq_iff_eq, CChain.get] at hc
    split at hc
    · exact ⟨_, hc⟩
    · cases hc
  · rintro ⟨h, hp⟩
    simp [contains, hs.height_of_vChain hp, CChain.get, hp, Int.natCast_nonneg]

theorem lt_size_of_contains {p : Nat} (hc : s.contains p) : p < s.size := by
  obtain ⟨h, hp⟩ := (hs.contains_iff).1 hc
  exact hs.lt_size hp

theorem height_le_of_contains {p : Nat} (hc : s.contains p) :
    s.height p ≤ s.chainActive.height := by
  obtain ⟨h, hp⟩ := (hs.contains_iff).1 hc
  have := lt_length_of_getElem? hp
  rw [hs.height_of_vChain hp, chain_height_eq]
  omega

/-- The tip is the chain's last entry, at the chain's height. -/
theorem tip_spec : ∃ t, s.chainActive.tip = some t ∧
    s.chainActive.vChain[s.chainActive.vChain.length - 1]? = some t := by
  obtain ⟨t, ht⟩ := exists_getElem?_of_lt (l := s.chainActive.vChain)
    (h := s.chainActive.vChain.length - 1) (by have := List.length_pos.2 hs.ne_nil; omega)
  exact ⟨t, by rw [CChain.tip, List.getLast?_eq_getElem?, ht], ht⟩

theorem height_tip {t : Nat} (ht : s.chainActive.tip = some t) :
    s.height t = s.chainActive.height := by
  rw [hs.height_of_vChain (vChain_last_of_tip ht), chain_height_eq]
  have := List.length_pos.2 hs.ne_nil
  omega

theorem contains_tip {t : Nat} (ht : s.chainActive.tip = some t) : s.contains t :=
  (hs.contains_iff).2 ⟨_, vChain_last_of_tip ht⟩

theorem tip_lt_size {t : Nat} (ht : s.chainActive.tip = some t) : t < s.size :=
  hs.lt_size (vChain_last_of_tip ht)

/-- The chain's entries are the tip's ancestors, indexed from the top. -/
theorem vChain_eq_ancestor {t : Nat} (ht : s.chainActive.tip = some t) {k : Nat}
    (hk : k < s.chainActive.vChain.length) :
    s.chainActive.vChain[s.chainActive.vChain.length - 1 - k]? = s.ancestor k (some t) := by
  induction k with
  | zero => exact vChain_last_of_tip ht
  | succ k ih =>
    obtain ⟨p, hp⟩ := exists_getElem?_of_lt (l := s.chainActive.vChain)
      (h := s.chainActive.vChain.length - 1 - (k + 1)) (by omega)
    obtain ⟨q, hq⟩ := exists_getElem?_of_lt (l := s.chainActive.vChain)
      (h := s.chainActive.vChain.length - 1 - k) (by omega)
    have hpq : s.parent q = some p := hs.parent_succ hp (by rw [← hq]; congr 1; omega)
    rw [ancestor_succ, ← ih (by omega), hq, hp]
    exact hpq.symm

/-- A chain entry other than the tip is the parent of the next chain entry, a stored one. -/
theorem exists_child_of_contains {p : Nat} (hc : s.contains p)
    (hne : s.chainActive.tip ≠ some p) : ∃ q, q < s.size ∧ s.parent q = some p := by
  obtain ⟨h, hp⟩ := (hs.contains_iff).1 hc
  have hlt := lt_length_of_getElem? hp
  have hh : h + 1 < s.chainActive.vChain.length := by
    by_contra hge
    apply hne
    rw [CChain.tip, List.getLast?_eq_getElem?, ← hp]
    congr 1
    omega
  obtain ⟨q, hq⟩ := exists_getElem?_of_lt hh
  exact ⟨q, hs.lt_size hq, hs.parent_succ hp hq⟩

/-- With the chain's genesis the only root, walking up from a stored entry while it is off
the chain stops at a chain entry, at once exactly when the entry is on the chain. -/
theorem walkBack_not_contains (hroot : s.SingleRoot) {a : Nat} (ha : a < s.size) :
    ∃ k f, k ≤ (s.height a).toNat ∧
      s.walkBack (fun q => !s.contains q) s.size (some a) = some (some f) ∧
      s.ancestor k (some a) = some f ∧ s.contains f ∧ (k = 0 ↔ s.contains a) := by
  have hfuel : (s.height a).toNat < s.size := by
    have := hs.height_le_pos ha; have := hs.height_nonneg ha; omega
  obtain ⟨k, hk, hw, hpass, hstop⟩ := hs.walkBack_spec (fun q => !s.contains q) ha hfuel
  have hkle : k ≤ (s.height a).toNat := by
    by_contra hgt
    obtain ⟨q, hq, hnc⟩ := hpass (s.height a).toNat (by omega)
    obtain ⟨hqs, hqh⟩ := hs.height_of_ancestor ha hq
    have hroot' := hroot q hqs (hs.parent_eq_none_of_height_zero hqs
      (by have := hs.height_nonneg ha; omega))
    rw [CChain.genesis, List.head?_eq_getElem?] at hroot'
    simp [(hs.contains_iff).2 ⟨0, hroot'⟩] at hnc
  obtain ⟨f, hf, -, -⟩ := hs.ancestor_spec ha hkle
  refine ⟨k, f, hkle, by rw [hw, hf], hf, by simpa using hstop f hf, ?_⟩
  constructor
  · rintro rfl
    cases hf
    simpa using hstop _ rfl
  · intro hc
    by_contra hk0
    simpa [hc] using (hpass 0 (by omega))

/-- `FindFork` of a stored entry, when the chain's genesis is the only root: the ancestor `k`
steps up at which the entry meets the chain, with `k = 0` exactly for an entry on the chain. -/
theorem findFork_spec (hroot : s.SingleRoot) {p : Nat} (hp : p < s.size) :
    ∃ k f, k ≤ (s.height p).toNat ∧ s.findFork p = some f ∧ s.ancestor k (some p) = some f ∧
      s.contains f ∧ (k = 0 ↔ s.contains p) := by
  have hH := hs.chain_height_nonneg
  by_cases hlt : s.chainActive.height < s.height p
  · have hd : (s.height p - s.chainActive.height).toNat ≤ (s.height p).toNat := by omega
    obtain ⟨a, ha, has, hah⟩ := hs.ancestor_spec hp hd
    obtain ⟨k, f, hk, hw, hf, hc, -⟩ := hs.walkBack_not_contains hroot has
    have hnc : ¬s.contains p := fun hc => absurd (hs.height_le_of_contains hc) (by omega)
    have hd0 : ¬(s.chainActive.height < 0 ∨ s.height p < s.chainActive.height) := by omega
    refine ⟨(s.height p - s.chainActive.height).toNat + k, f, by omega, ?_, ?_, hc, ?_⟩
    · simp [findFork, hlt, getAncestor, hd0, ha, hw]
    · rw [ancestor_add, ha, hf]
    · exact iff_of_false (by omega) hnc
  · obtain ⟨k, f, hk, hw, hf, hc, hk0⟩ := hs.walkBack_not_contains hroot hp
    exact ⟨k, f, hk, by simp [findFork, hlt, hw], hf, hc, hk0⟩

end WF

end State

end SafecoinRpc
