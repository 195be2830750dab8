import Mathlib.Data.Rat.Defs
import Mathlib.Data.List.Basic
import Mathlib.Algebra.Group.Int
import Mathlib.Algebra.Group.Nat.Basic

/-!
# Primitive values of the RPC layer

The 256-bit identifiers and their hexadecimal text: `getHex` writes the 64 lowercase
digits and `uint256S` reads them back (`uint256S_getHex`), which is what lets a hash that
one RPC prints be fed to another. Beside them the other text the block JSON uses (`hexStr`,
`%08x`), the `std::stoi` and `regex_match` readers of `getblock`, the `UniValue` values
the RPCs return and the JSON-RPC errors they throw.
-/

namespace SafecoinRpc

/-- `uint256`, and `arith_uint256` read as a number: a 256-bit value. -/
abbrev Uint256 := BitVec 256

/-! ## Hexadecimal text -/

/-- The `width` low hexadecimal digits of `n`, most significant first. -/
def hexDigits : Nat → Nat → List Nat
  | 0, _ => []
  | w + 1, n => hexDigits w (n / 16) ++ [n % 16]

/-- `n` as `width` lowercase hex digits: `strprintf("%0<width>x", n)` for `n < 16 ^ width`. -/
def hexString (width n : Nat) : String := ⟨(hexDigits width n).map Nat.digitChar⟩

/-- `base_blob::GetHex`: the bytes from the most significant down, two digits each. -/
def getHex (h : Uint256) : String := hexString 64 h.toNat

/-- `HexStr`: every byte as two lowercase hex digits. -/
def hexStr (bytes : List UInt8) : String := String.join (bytes.map fun b => hexString 2 b.toNat)

/-- `HexDigit`: the value of a hex digit of either case, `-1` (here `none`) otherwise. -/
def hexDigit (c : Char) : Option Nat :=
  if '0' ≤ c ∧ c ≤ '9' then some (c.toNat - '0'.toNat)
  else if 'a' ≤ c ∧ c ≤ 'f' then some (c.toNat - 'a'.toNat + 10)
  else if 'A' ≤ c ∧ c ≤ 'F' then some (c.toNat - 'A'.toNat + 10)
  else none

/-- `isspace` in the "C" locale. -/
def isspace (c : Char) : Bool :=
  c = ' ' || c = '\t' || c = '\n' || c = '\x0b' || c = '\x0c' || c = '\r'

/-- The number a run of hex digit values spells, most significant first. -/
def fromHexDigits (ds : List Nat) : Nat := ds.foldl (fun acc d => 16 * acc + d) 0

/-- `SetHex` skips one leading `0x` or `0X`. -/
def skip0x : List Char → List Char
  | '0' :: c :: rest => if c.toLower = 'x' then rest else '0' :: c :: rest
  | psz => psz

/-- `uint256S` (`base_blob::SetHex`): skip white space and a `0x`, read the longest run of
hex digits and keep its last 64, filling the bytes from the least significant up. -/
def uint256S (str : String) : Uint256 :=
  let psz := skip0x (str.toList.dropWhile isspace)
  BitVec.ofNat 256 (fromHexDigits ((psz.takeWhile fun c => (hexDigit c).isSome).filterMap hexDigit))

@[simp] theorem hexDigits_length (w n : Nat) : (hexDigits w n).length = w := by
  induction w generalizing n <;> simp [hexDigits, *]

theorem hexDigits_lt {w n d : Nat} (h : d ∈ hexDigits w n) : d < 16 := by
  induction w generalizing n with
  | zero => simp [hexDigits] at h
  | succ w ih =>
    simp only [hexDigits, List.mem_append, List.mem_singleton] at h
    rcases h with h | rfl
    · exact ih h
    · exact Nat.mod_lt _ (by decide)

/-- Reading the digits back gives the number modulo `16 ^ width`. -/
theorem fromHexDigits_hexDigits (w n : Nat) : fromHexDigits (hexDigits w n) = n % 16 ^ w := by
  induction w generalizing n with
  | zero => simp [hexDigits, fromHexDigits, Nat.mod_one]
  | succ w ih =>
    have h := ih (n / 16)
    simp only [fromHexDigits] at h ⊢
    rw [hexDigits, List.foldl_append, h, Nat.pow_succ, Nat.mul_comm _ 16, Nat.mod_mul]
    simp [Nat.add_comm]

theorem hexDigit_digitChar : ∀ d, d < 16 → hexDigit (Nat.digitChar d) = some d := by decide

theorem isspace_digitChar : ∀ d, d < 16 → isspace (Nat.digitChar d) = false := by decide

theorem toLower_digitChar : ∀ d, d < 16 → (Nat.digitChar d).toLower ≠ 'x' := by decide

theorem skip0x_of_forall {l : List Char} (h : ∀ c ∈ l, c.toLower ≠ 'x') : skip0x l = l := by
  unfold skip0x
  split
  · rw [if_neg (h _ (by simp))]
  · rfl

theorem dropWhile_of_forall {p : Char → Bool} {l : List Char} (h : ∀ c ∈ l, p c = false) :
    l.dropWhile p = l := by
  cases l with
  | nil => rfl
  | cons c l => simp [List.dropWhile_cons, h c (by simp)]

/-- `getHex` writes 64 characters. -/
@[simp] theorem getHex_length (h : Uint256) : (getHex h).length = 64 := by
  simp [getHex, hexString, String.length]

theorem getHex_toList (h : Uint256) :
    (getHex h).toList = (hexDigits 64 h.toNat).map Nat.digitChar := by
  simp only [getHex, hexString, String.toList]

/-- `getHex` writes ASCII only, one byte a digit. -/
theorem getHex_utf8ByteSize (h : Uint256) : (getHex h).utf8ByteSize = 64 := by
  have key : ∀ ds : List Nat, (∀ d ∈ ds, d < 16) →
      String.utf8ByteSize.go (ds.map Nat.digitChar) = ds.length := by
    have hsize : ∀ d, d < 16 → (Nat.digitChar d).utf8Size = 1 := by decide
    intro ds hds
    induction ds with
    | nil => rfl
    | cons d ds ih =>
      simp only [List.map_cons, String.utf8ByteSize.go, List.length_cons]
      rw [ih fun d' hd' => hds d' (by simp [hd']), hsize d (hds d (by simp))]
  exact (key _ fun _ => hexDigits_lt).trans (hexDigits_length _ _)

/-- Digits written by `Nat.digitChar` are read back by the hex-digit run of `SetHex`. -/
theorem readHex_map_digitChar {ds : List Nat} (hds : ∀ d ∈ ds, d < 16) :
    ((ds.map Nat.digitChar).takeWhile fun c => (hexDigit c).isSome).filterMap hexDigit = ds := by
  induction ds with
  | nil => rfl
  | cons d ds ih =>
    have hd := hexDigit_digitChar d (hds d (by simp))
    simp only [List.map_cons, List.takeWhile_cons, hd, Option.isSome_some, if_true,
      List.filterMap_cons]
    rw [ih fun d' hd' => hds d' (by simp [hd'])]

/-- `uint256S` undoes `getHex`. -/
theorem uint256S_getHex (h : Uint256) : uint256S (getHex h) = h := by
  have hd : ∀ d ∈ hexDigits 64 h.toNat, d < 16 := fun _ => hexDigits_lt
  have hs : (getHex h).toList.dropWhile isspace = (getHex h).toList := by
    apply dropWhile_of_forall
    simp only [getHex_toList, List.mem_map]
    rintro _ ⟨d, hd', rfl⟩
    exact isspace_digitChar d (hd d hd')
  have hx : skip0x (getHex h).toList = (getHex h).toList := by
    apply skip0x_of_forall
    simp only [getHex_toList, List.mem_map]
    rintro _ ⟨d, hd', rfl⟩
    exact toLower_digitChar d (hd d hd')
  apply BitVec.eq_of_toNat_eq
  simp only [uint256S, hs, hx]
  rw [getHex_toList, readHex_map_digitChar hd, fromHexDigits_hexDigits, BitVec.toNat_ofNat,
    show (16 : Nat) ^ 64 = 2 ^ 256 by rfl, Nat.mod_eq_of_lt h.isLt, Nat.mod_eq_of_lt h.isLt]

/-! ## Decimal text -/

/-- `INT_MAX` and `INT_MIN` of a 32-bit `int`. -/
def INT_MAX : Int := 2 ^ 31 - 1

def INT_MIN : Int := -2 ^ 31

/-- The number a run of decimal digits spells. -/
def decimalValue (ds : List Char) : Nat := ds.foldl (fun acc c => 10 * acc + (c.toNat - '0'.toNat)) 0

/-- The two exceptions `std::stoi` throws. -/
inductive StoiError where
  | invalid_argument
  | out_of_range
  deriving DecidableEq, Repr

/-- The sign `strtol` reads before the digits: `-` negates, `+` is dropped. -/
def readSign : List Char → Bool × List Char
  | '-' :: rest => (true, rest)
  | '+' :: rest => (false, rest)
  | psz => (false, psz)

/-- `std::stoi` (`strtol` in base 10): skip white space, read a sign and the longest run of
digits; no digit throws `invalid_argument`, a value outside `int` throws `out_of_range`. -/
def stoi (str : String) : Except StoiError Int :=
  let (neg, psz) := readSign (str.toList.dropWhile isspace)
  let ds := psz.takeWhile Char.isDigit
  if ds.isEmpty then .error .invalid_argument
  else
    let v : Int := if neg then -(decimalValue ds : Int) else decimalValue ds
    if v < INT_MIN ∨ INT_MAX < v then .error .out_of_range else .ok v

/-- `regex_match(str, regex("[[:digit:]]+"))`: a nonempty run of ASCII digits. -/
def regexMatchDigits (str : String) : Bool := !str.toList.isEmpty && str.toList.all Char.isDigit

theorem regexMatchDigits_iff {str : String} :
    regexMatchDigits str = true ↔ str.toList ≠ [] ∧ ∀ c ∈ str.toList, c.isDigit = true := by
  simp [regexMatchDigits, List.isEmpty_iff]

theorem isspace_eq_false_of_isDigit {c : Char} (h : c.isDigit = true) : isspace c = false := by
  cases hs : isspace c
  · rfl
  · simp only [isspace, Bool.or_eq_true, decide_eq_true_eq] at hs
    rcases hs with ((((rfl | rfl) | rfl) | rfl) | rfl) | rfl <;> exact absurd h (by decide)

/-- On a nonempty run of digits `std::stoi` reads the whole run and throws `out_of_range`
past `INT_MAX`. -/
theorem stoi_of_digits {l : List Char} (hne : l ≠ []) (hd : ∀ c ∈ l, c.isDigit = true) :
    stoi ⟨l⟩ = if INT_MAX < decimalValue l then .error .out_of_range else .ok (decimalValue l) := by
  obtain ⟨c, cs, rfl⟩ := List.exists_cons_of_ne_nil hne
  have hc := hd c (List.mem_cons_self _ _)
  have hsp : (c :: cs).dropWhile isspace = c :: cs :=
    dropWhile_of_forall fun c' hc' => isspace_eq_false_of_isDigit (hd c' hc')
  have htw : (c :: cs).takeWhile Char.isDigit = c :: cs := List.takeWhile_eq_self_iff.2 hd
  have hsign : readSign (c :: cs) = (false, c :: cs) := by
    unfold readSign
    split
    · rename_i h; cases h; exact absurd hc (by decide)
    · rename_i h; cases h; exact absurd hc (by decide)
    · rfl
  have hmin : ¬((decimalValue (c :: cs) : Int) < INT_MIN) := by unfold INT_MIN; omega
  simp only [stoi, String.toList, hsp, hsign, htw, List.isEmpty_cons, Bool.false_eq_true, if_false,
    hmin, false_or]

/-! ## Machine integers -/

/-- The conversion of an integer to a signed `w`-bit type (`int`, `int64_t`): the value modulo
`2 ^ w`, taken in `[-2 ^ (w - 1), 2 ^ (w - 1))` as the compilers of the node do. -/
def toSigned (w : Nat) (n : Int) : Int :=
  if n % 2 ^ w < 2 ^ (w - 1) then n % 2 ^ w else n % 2 ^ w - 2 ^ w

/-- The conversion of an integer to `unsigned int`: the value modulo `2 ^ 32`. -/
def toUInt32 (n : Int) : UInt32 := UInt32.ofNat (n % 2 ^ 32).toNat

/-! ## JSON values and errors -/

/-- `UniValue`: the JSON the RPCs build. `int` and `int64_t` numbers are `num`, `double`s are
`real`, read as exact rationals. -/
inductive UniValue where
  | null
  | bool (b : Bool)
  | num (n : Int)
  | real (q : ℚ)
  | str (s : String)
  | arr (xs : List UniValue)
  | obj (kvs : List (String × UniValue))

/-- `find_value(obj, key)`: the first value under `key` in an object. -/
def UniValue.find (key : String) : UniValue → Option UniValue
  | .obj kvs => kvs.lookup key
  | _ => none

/-- The JSON-RPC error codes these RPCs throw. -/
inductive RPCErrorCode where
  | RPC_INVALID_ADDRESS_OR_KEY
  | RPC_INVALID_PARAMETER
  | RPC_INTERNAL_ERROR
  deriving DecidableEq, Repr

/-- `JSONRPCError(code, message)`. -/
structure RPCError where
  code : RPCErrorCode
  message : String
  deriving DecidableEq, Repr

/-! ## Amounts -/

/-- `COIN`: the base units of one coin. -/
def COIN : Int := 100000000

/-- `ValueFromAmount(amount)`: the amount in coins, printed with eight decimals, so exactly
`amount / COIN`. -/
def valueFromAmount (amount : Int) : UniValue := .real ((amount : ℚ) / COIN)

end SafecoinRpc
