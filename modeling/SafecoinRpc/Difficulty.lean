import Mathlib.Algebra.Order.Field.Power
import Mathlib.Algebra.Order.Field.Rat
import Mathlib.Tactic.Ring
import Mathlib.Tactic.NormNum.Basic
import SafecoinRpc.BlockIndex

/-!
# Difficulty

`GetDifficultyINTERNAL` divides the mantissas of two compact targets, the network's
`powLimit` and the block's `bits`, and moves the quotient by one byte per step of exponent
difference, up while the block's exponent is below the limit's and down while it is above.
With the `double`s read as exact rationals, both loops end (they are defined by well-founded
recursion on the exponent gap) and leave the quotient of the two targets the compacts encode
(`difficultyOfBits_eq`). So the difficulty is `1` exactly at the limit's target and, once the
limit's mantissa is nonzero, falls strictly as the target grows.
-/

namespace SafecoinRpc

/-- The mantissa of a compact target, `c & 0x00ffffff`. -/
def compactMantissa (c : UInt32) : Nat := c.toNat &&& 0x00ffffff

/-- The exponent of a compact target, `(c >> 24) & 0xff`: its size in bytes. -/
def compactExponent (c : UInt32) : Nat := (c.toNat >>> 24) &&& 0xff

/-- The target a compact encodes, as an exact number: `mantissa * 256 ^ (exponent - 3)`. -/
def compactTarget (c : UInt32) : ℚ := (compactMantissa c : ℚ) * 256 ^ ((compactExponent c : Int) - 3)

/-- `while (nShift < nShiftAmount) { dDiff *= 256.0; nShift++; }` -/
def scaleUp (dDiff : ℚ) (nShift nShiftAmount : Int) : ℚ × Int :=
  if nShift < nShiftAmount then scaleUp (dDiff * 256) (nShift + 1) nShiftAmount else (dDiff, nShift)
termination_by (nShiftAmount - nShift).toNat

/-- `while (nShift > nShiftAmount) { dDiff /= 256.0; nShift--; }` -/
def scaleDown (dDiff : ℚ) (nShift nShiftAmount : Int) : ℚ × Int :=
  if nShift > nShiftAmount then scaleDown (dDiff / 256) (nShift - 1) nShiftAmount else (dDiff, nShift)
termination_by (nShift - nShiftAmount).toNat

/-- The body of `GetDifficultyINTERNAL` once `bits` is chosen. The `double` arithmetic is
read in `ℚ`, without its rounding; a zero mantissa of `bits` gives `+inf` in `double` (`NaN`
over a zero `powLimit` mantissa) where `ℚ` gives `0`. -/
def difficultyOfBits (powLimit bits : UInt32) : ℚ :=
  let nShift : Int := compactExponent bits
  let nShiftAmount : Int := compactExponent powLimit
  let dDiff : ℚ := (compactMantissa powLimit : ℚ) / (compactMantissa bits : ℚ)
  let (dDiff, nShift) := scaleUp dDiff nShift nShiftAmount
  (scaleDown dDiff nShift nShiftAmount).1

/-- `GetDifficultyINTERNAL(blockindex, networkDifficulty)`: for `NULL` the tip, `1.0` on an
empty chain; the block's own `nBits`, or the `bits` consensus requires after it. -/
def getDifficultyINTERNAL (env : Env) (s : State) (blockindex : Option Nat)
    (networkDifficulty : Bool) : ℚ :=
  match blockindex.orElse fun _ => s.chainActive.tip with
  | none => 1
  | some b =>
    let bits := if networkDifficulty then env.getNextWorkRequired s b else (s.get b).nBits
    difficultyOfBits env.powLimit bits

/-- `GetDifficulty(blockindex)`. -/
def getDifficulty (env : Env) (s : State) (blockindex : Option Nat) : ℚ :=
  getDifficultyINTERNAL env s blockindex false

/-- `GetNetworkDifficulty(blockindex)`. -/
def getNetworkDifficulty (env : Env) (s : State) (blockindex : Option Nat) : ℚ :=
  getDifficultyINTERNAL env s blockindex true

/-! ## The loops -/

theorem scaleUp_eq (dDiff : ℚ) (nShift nShiftAmount : Int) :
    scaleUp dDiff nShift nShiftAmount = if nShift < nShiftAmount
      then (dDiff * 256 ^ (nShiftAmount - nShift).toNat, nShiftAmount) else (dDiff, nShift) := by
  induction dDiff, nShift, nShiftAmount using scaleUp.induct with
  | case1 d n m hlt ih =>
    rw [scaleUp, if_pos hlt, ih, if_pos hlt]
    split_ifs with h
    · have : (m - n).toNat = (m - (n + 1)).toNat + 1 := by omega
      rw [this, pow_succ, mul_assoc, mul_comm 256]
    · have : (m - n).toNat = 1 := by omega
      rw [this, pow_one]
      congr 1
      omega
  | case2 d n m hge => rw [scaleUp, if_neg hge, if_neg hge]

theorem scaleDown_eq (dDiff : ℚ) (nShift nShiftAmount : Int) :
    scaleDown dDiff nShift nShiftAmount = if nShiftAmount < nShift
      then (dDiff / 256 ^ (nShift - nShiftAmount).toNat, nShiftAmount) else (dDiff, nShift) := by
  induction dDiff, nShift, nShiftAmount using scaleDown.induct with
  | case1 d n m hlt ih =>
    rw [scaleDown, if_pos hlt, ih, if_pos hlt]
    split_ifs with h
    · have : (n - m).toNat = (n - 1 - m).toNat + 1 := by omega
      rw [this, pow_succ', div_div]
    · have : (n - m).toNat = 1 := by omega
      rw [this, pow_one]
      congr 1
      omega
  | case2 d n m hge => rw [scaleDown, if_neg hge, if_neg hge]

/-- Both loops together move the quotient by `256` to the exponent gap. -/
theorem difficultyOfBits_eq_zpow (powLimit bits : UInt32) :
    difficultyOfBits powLimit bits = (compactMantissa powLimit : ℚ) / compactMantissa bits *
      256 ^ ((compactExponent powLimit : Int) - compactExponent bits) := by
  dsimp only [difficultyOfBits]
  rcases lt_trichotomy (compactExponent bits : Int) (compactExponent powLimit) with h | h | h
  · rw [scaleUp_eq, if_pos h, scaleDown_eq, if_neg (lt_irrefl _), ← zpow_natCast,
      Int.toNat_of_nonneg (by omega)]
  · rw [scaleUp_eq, if_neg h.not_lt, scaleDown_eq, h, if_neg (lt_irrefl _), sub_self, zpow_zero,
      mul_one]
  · rw [scaleUp_eq, if_neg (not_lt.2 h.le), scaleDown_eq, if_pos h]
    dsimp only
    rw [div_eq_mul_inv _ ((256 : ℚ) ^ _), ← zpow_natCast, ← zpow_neg, Int.toNat_of_nonneg (by omega),
      neg_sub]

/-- The difficulty is the quotient of the limit's target by the block's. -/
theorem difficultyOfBits_eq (powLimit bits : UInt32) :
    difficultyOfBits powLimit bits = compactTarget powLimit / compactTarget bits := by
  have h256 : (256 : ℚ) ≠ 0 := by norm_num
  rw [difficultyOfBits_eq_zpow, compactTarget, compactTarget, mul_div_mul_comm, ← zpow_sub₀ h256]
  congr 2
  ring

theorem compactTarget_pos {c : UInt32} (h : compactMantissa c ≠ 0) : 0 < compactTarget c :=
  mul_pos (by exact_mod_cast Nat.pos_of_ne_zero h) (zpow_pos (by norm_num) _)

/-- Either mode of `GetDifficultyINTERNAL` at a block is `difficultyOfBits` of the bits the mode
selects. -/
theorem getDifficultyINTERNAL_some (env : Env) (s : State) (b : Nat) (networkDifficulty : Bool) :
    getDifficultyINTERNAL env s (some b) networkDifficulty = difficultyOfBits env.powLimit
      (if networkDifficulty then env.getNextWorkRequired s b else (s.get b).nBits) := rfl

/-- For every limit the difficulty is the quotient of targets and is `1` exactly at the limit's
target; once the limit's mantissa is nonzero it falls strictly as the target grows; both modes
reduce to it. -/
theorem difficultyOfBits_target_ratio (powLimit : UInt32) :
    (∀ bits, compactMantissa bits ≠ 0 →
      difficultyOfBits powLimit bits = compactTarget powLimit / compactTarget bits ∧
        (difficultyOfBits powLimit bits = 1 ↔ compactTarget bits = compactTarget powLimit)) ∧
    (compactMantissa powLimit ≠ 0 → ∀ b₁ b₂, compactMantissa b₁ ≠ 0 → compactMantissa b₂ ≠ 0 →
      compactTarget b₁ < compactTarget b₂ →
        difficultyOfBits powLimit b₂ < difficultyOfBits powLimit b₁) ∧
    ∀ (env : Env) (s : State) (b : Nat) (networkDifficulty : Bool), env.powLimit = powLimit →
      getDifficultyINTERNAL env s (some b) networkDifficulty = difficultyOfBits powLimit
        (if networkDifficulty then env.getNextWorkRequired s b else (s.get b).nBits) := by
  refine ⟨fun bits hb => ⟨difficultyOfBits_eq powLimit bits, ?_⟩, fun hpl b₁ b₂ h₁ h₂ hlt => ?_,
    fun env s b nd he => he ▸ getDifficultyINTERNAL_some env s b nd⟩
  · rw [difficultyOfBits_eq, div_eq_one_iff_eq (compactTarget_pos hb).ne', eq_comm]
  · rw [difficultyOfBits_eq, difficultyOfBits_eq]
    exact div_lt_div_of_pos_left (compactTarget_pos hpl) (compactTarget_pos h₁) hlt

/-- With a zero limit every difficulty is `0`, so two different targets share one. -/
theorem difficultyOfBits_zero_powLimit :
    compactMantissa 0x1d00fffe ≠ 0 ∧ compactMantissa 0x1d00ffff ≠ 0 ∧
      compactTarget 0x1d00fffe < compactTarget 0x1d00ffff ∧
      difficultyOfBits 0 0x1d00ffff = difficultyOfBits 0 0x1d00fffe := by
  have hm₁ : compactMantissa 0x1d00fffe = 0xfffe := by decide
  have hm₂ : compactMantissa 0x1d00ffff = 0xffff := by decide
  have he₁ : compactExponent 0x1d00fffe = 0x1d := by decide
  have he₂ : compactExponent 0x1d00ffff = 0x1d := by decide
  have hz : compactMantissa 0 = 0 := by decide
  refine ⟨by rw [hm₁]; decide, by rw [hm₂]; decide, ?_, ?_⟩
  · rw [compactTarget, compactTarget, hm₁, hm₂, he₁, he₂]
    exact mul_lt_mul_of_pos_right (Nat.cast_lt.2 (by decide)) (zpow_pos (by norm_num) _)
  · simp only [difficultyOfBits_eq_zpow, hz, Nat.cast_zero, zero_div, zero_mul]

end SafecoinRpc
