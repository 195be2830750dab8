import SafecoinRpc.BlockIndex

/-!
# The block forest

`StoreWF` is the shape `mapBlockIndex` keeps in every reachable state: each entry is keyed
by its own hash, a parent is stored before its children, a root has height `0` and a child
one more than its parent, and a height stays below `INT_MAX`, so that the `int` sums the RPCs
make of heights (`Height() - nHeight + 1`) do not overflow. From it, walking up from an entry
of height `h` meets exactly the `h + 1` entries of heights `h, h - 1, …, 0`
(`ancestor_spec`, `ancestor_eq_none`), and the loop `walkBack` stops, well inside a bound of
the number of entries, at the first ancestor its condition rejects (`walkBack_spec`).
-/

namespace SafecoinRpc

namespace State

/-- The shape of `mapBlockIndex` in every reachable state. -/
structure StoreWF (s : State) : Prop where
  pprev_lt : ∀ {p q}, p < s.size → s.parent p = some q → q < p
  height_pprev : ∀ {p q}, p < s.size → s.parent p = some q → s.height p = s.height q + 1
  height_root : ∀ {p}, p < s.size → s.parent p = none → s.height p = 0
  height_lt : ∀ {p}, p < s.size → s.height p < INT_MAX
  hash_inj : ∀ {p q}, p < s.size → q < s.size →
    (s.get p).hashBlock = (s.get q).hashBlock → p = q

variable {s : State}

@[simp] theorem ancestor_zero (o : Option Nat) : s.ancestor 0 o = o := rfl

@[simp] theorem ancestor_none (i : Nat) : s.ancestor i none = none := by
  induction i <;> simp [ancestor, *]

theorem ancestor_succ_some (i p : Nat) : s.ancestor (i + 1) (some p) = s.ancestor i (s.parent p) :=
  rfl

/-- The last step of a walk up is one `pprev`. -/
theorem ancestor_succ (i : Nat) (o : Option Nat) :
    s.ancestor (i + 1) o = (s.ancestor i o).bind s.parent := by
  induction i generalizing o with
  | zero => rfl
  | succ i ih => exact ih _

theorem ancestor_add (i j : Nat) (o : Option Nat) :
    s.ancestor (i + j) o = s.ancestor j (s.ancestor i o) := by
  induction i generalizing o with
  | zero => simp
  | succ i ih => rw [Nat.add_right_comm]; exact ih _

theorem lookup_eq_none {hash : Uint256} :
    s.lookup hash = none ↔ ∀ p, p < s.size → (s.get p).hashBlock ≠ hash := by
  simp [lookup, List.find?_eq_none]

theorem lookup_spec {hash : Uint256} {p : Nat} (h : s.lookup hash = some p) :
    p < s.size ∧ (s.get p).hashBlock = hash := by
  have hm := List.mem_of_find?_eq_some h
  have hp := List.find?_some h
  simp only [List.mem_range, beq_iff_eq] at hm hp
  exact ⟨hm, hp⟩

namespace StoreWF

variable (hs : s.StoreWF)
include hs

/-- `mapBlockIndex` is keyed by each entry's own hash. -/
theorem lookup_hashBlock {p : Nat} (hp : p < s.size) : s.lookup (s.get p).hashBlock = some p := by
  cases h : s.lookup (s.get p).hashBlock with
  | none => exact absurd rfl ((lookup_eq_none.1 h) p hp)
  | some q =>
    obtain ⟨hq, hqh⟩ := lookup_spec h
    rw [hs.hash_inj hq hp hqh]

theorem height_nonneg {p : Nat} (hp : p < s.size) : 0 ≤ s.height p := by
  induction p using Nat.strong_induction_on with
  | _ p ih =>
    cases hq : s.parent p with
    | none => exact Int.le_of_eq (hs.height_root hp hq).symm
    | some q =>
      have hqp := hs.pprev_lt hp hq
      rw [hs.height_pprev hp hq]
      have := ih q hqp (by omega)
      omega

/-- A height counts links to a root, each to an earlier entry, so it is below the position. -/
theorem height_le_pos {p : Nat} (hp : p < s.size) : s.height p ≤ p := by
  induction p using Nat.strong_induction_on with
  | _ p ih =>
    cases hq : s.parent p with
    | none => rw [hs.height_root hp hq]; omega
    | some q =>
      have hqp := hs.pprev_lt hp hq
      rw [hs.height_pprev hp hq]
      have := ih q hqp (by omega)
      omega

theorem parent_some_of_height_pos {p : Nat} (hp : p < s.size) (h : 0 < s.height p) :
    ∃ q, s.parent p = some q := by
  cases hq : s.parent p with
  | none => rw [hs.height_root hp hq] at h; omega
  | some q => exact ⟨q, rfl⟩

theorem parent_eq_none_of_height_zero {p : Nat} (hp : p < s.size) (h : s.height p = 0) :
    s.parent p = none := by
  cases hq : s.parent p with
  | none => rfl
  | some q =>
    have := hs.height_pprev hp hq
    have := hs.height_nonneg (p := q) (by have := hs.pprev_lt hp hq; omega)
    omega

/-- Walking `i` steps up from an entry of height at least `i` reaches a stored entry `i`
lower. -/
theorem ancestor_spec {p : Nat} (hp : p < s.size) {i : Nat} (hi : i ≤ (s.height p).toNat) :
    ∃ q, s.ancestor i (some p) = some q ∧ q < s.size ∧ s.height q = s.height p - i := by
  induction i with
  | zero => exact ⟨p, rfl, hp, by simp⟩
  | succ i ih =>
    obtain ⟨q, hq, hqs, hqh⟩ := ih (by omega)
    obtain ⟨r, hr⟩ := hs.parent_some_of_height_pos hqs (by omega)
    have hrq := hs.pprev_lt hqs hr
    refine ⟨r, by rw [ancestor_succ, hq]; exact hr, by omega, ?_⟩
    have := hs.height_pprev hqs hr
    push_cast
    omega

/-- Walking past the root reaches `NULL`. -/
theorem ancestor_eq_none {p : Nat} (hp : p < s.size) {i : Nat} (hi : (s.height p).toNat < i) :
    s.ancestor i (some p) = none := by
  obtain ⟨j, rfl⟩ : ∃ j, i = (s.height p).toNat + 1 + j := ⟨i - ((s.height p).toNat + 1), by omega⟩
  obtain ⟨q, hq, hqs, hqh⟩ := hs.ancestor_spec hp (le_refl _)
  have hr := hs.parent_eq_none_of_height_zero hqs (by have := hs.height_nonneg hp; omega)
  rw [ancestor_add, ancestor_succ, hq]
  simp [hr]

/-- An ancestor found `k` steps up is a stored entry `k` lower. -/
theorem height_of_ancestor {p k f : Nat} (hp : p < s.size) (hf : s.ancestor k (some p) = some f) :
    f < s.size ∧ s.height f = s.height p - k := by
  by_cases hk : k ≤ (s.height p).toNat
  · obtain ⟨q, hq, hqs, hqh⟩ := hs.ancestor_spec hp hk
    rw [hq] at hf
    cases hf
    exact ⟨hqs, hqh⟩
  · rw [hs.ancestor_eq_none hp (by omega)] at hf
    cases hf

/-- The loop `while (p && cond(p)) p = p->pprev;` from a stored entry, given more steps than
its height, stops at the `k`-th ancestor: every ancestor before it passes `cond` and the one
it stops at, unless `NULL`, fails it. -/
theorem walkBack_spec (cond : Nat → Bool) {fuel p : Nat} (hp : p < s.size)
    (hf : (s.height p).toNat < fuel) :
    ∃ k, k ≤ (s.height p).toNat + 1 ∧
      s.walkBack cond fuel (some p) = some (s.ancestor k (some p)) ∧
      (∀ j < k, ∃ q, s.ancestor j (some p) = some q ∧ cond q = true) ∧
      ∀ q, s.ancestor k (some p) = some q → cond q = false := by
  induction fuel generalizing p with
  | zero => omega
  | succ fuel ih =>
    by_cases hc : cond p
    · cases hq : s.parent p with
      | none =>
        refine ⟨1, by omega, by simp [walkBack, hc, hq, ancestor_succ_some], ?_, ?_⟩
        · intro j hj
          obtain rfl : j = 0 := by omega
          exact ⟨p, rfl, hc⟩
        · simp [ancestor_succ_some, hq]
      | some q =>
        have hqp := hs.pprev_lt hp hq
        have hqh := hs.height_pprev hp hq
        have := hs.height_nonneg (p := q) (by omega)
        obtain ⟨k, hk, hw, hpass, hstop⟩ := ih (p := q) (by omega) (by omega)
        refine ⟨k + 1, by omega, by simpa [walkBack, hc, hq, ancestor_succ_some] using hw, ?_, ?_⟩
        · intro j hj
          cases j with
          | zero => exact ⟨p, rfl, hc⟩
          | succ j => rw [ancestor_succ_some, hq]; exact hpass j (by omega)
        · rw [ancestor_succ_some, hq]; exact hstop
    · refine ⟨0, by omega, by simp [walkBack, hc], fun j hj => absurd hj (Nat.not_lt_zero _), ?_⟩
      simpa using hc

end StoreWF

end State

end SafecoinRpc
