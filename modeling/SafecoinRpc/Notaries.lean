import Mathlib.Data.String.Basic
import SafecoinRpc.Minerids

/-!
# `notaries`

`notaries` lists the notary keys `safecoin_notaries` returns for a height, each with its two
addresses and its 33 bytes written as hex by a `%02x` loop. The loop reads one row of the
64-row `pubkeys` array per notary, and the model returns `none` when more than 64 are
reported. Two digits a byte make the hex text injective: different keys
are never printed alike (`hexStr_injective`). The height defaults to the tip's only for a
negative height, where `minerids` defaults for every height up to `0`.
-/

namespace SafecoinRpc

/-- The height `notaries` asks about: the parameter, or the tip's height when it is negative. -/
def notariesHeight (s : State) (height : Int) : Int :=
  if height < 0 then (s.deref s.chainActive.tip).nHeight else height

/-- The entry of one notary key: `bitcoin_address` with address type `0` is `btcAddress`, with
type `60` `nenv.bitcoinAddress`. -/
def notariesItem (nenv : NotaryEnv) (btcAddress : List UInt8 → String) (pubkey : List UInt8) :
    UniValue :=
  .obj [("pubkey", .str (hexStr pubkey)), ("BTCaddress", .str (btcAddress pubkey)),
    ("SAFEaddress", .str (nenv.bitcoinAddress pubkey))]

/-- `notaries height`, from the `int` that `atoi` reads of the parameter: `none` when the loop
reads past the 64 rows of `pubkeys`. -/
def notaries (nenv : NotaryEnv) (btcAddress : List UInt8 → String) (s : State) (height : Int) :
    Option UniValue :=
  let (n, pubkeys) := nenv.safecoinNotaries (notariesHeight s height)
  let a : Option (List UniValue) :=
    if n > 0 then (List.range n.toNat).mapM fun i =>
      if i < 64 then some (notariesItem nenv btcAddress (pubkeys i)) else none
    else some []
  a.map fun a => .obj [("notaries", .arr a), ("numnotaries", .num n)]

/-! ## The hex of a key -/

theorem hexStr_toList (bytes : List UInt8) :
    (hexStr bytes).toList = (bytes.map fun b => (hexDigits 2 b.toNat).map Nat.digitChar).flatten := by
  simp only [hexStr, String.toList, String.data_join, List.map_map]
  rfl

/-- The two digits of a byte give the byte back. -/
theorem hexDigits_two_inj {a b : UInt8}
    (h : (hexDigits 2 a.toNat).map Nat.digitChar = (hexDigits 2 b.toNat).map Nat.digitChar) :
    a = b := by
  have hread : ∀ c : UInt8, ((hexDigits 2 c.toNat).map Nat.digitChar).map hexDigit =
      (hexDigits 2 c.toNat).map some := fun c => by
    rw [List.map_map]
    exact List.map_congr_left fun d hd => hexDigit_digitChar d (hexDigits_lt hd)
  have hdig : hexDigits 2 a.toNat = hexDigits 2 b.toNat :=
    List.map_injective_iff.2 (Option.some_injective _) (by rw [← hread, h, hread])
  have hval := congrArg fromHexDigits hdig
  have ha := a.toNat_lt_size
  have hb := b.toNat_lt_size
  rw [fromHexDigits_hexDigits, fromHexDigits_hexDigits] at hval
  exact UInt8.toNat.inj (by unfold UInt8.size at ha hb; omega)

/-- `HexStr`, and the `%02x` loops of `notaries` and `minerids`, never write two byte strings
as the same text. -/
theorem hexStr_injective : Function.Injective hexStr := by
  intro l₁ l₂ h
  replace h := congrArg String.toList h
  rw [hexStr_toList, hexStr_toList] at h
  induction l₁ generalizing l₂ with
  | nil => cases l₂ with
    | nil => rfl
    | cons b l₂ => exact absurd (congrArg List.length h) (by simp; omega)
  | cons a l₁ ih => cases l₂ with
    | nil => exact absurd (congrArg List.length h) (by simp)
    | cons b l₂ =>
      simp only [List.map_cons, List.flatten_cons] at h
      obtain ⟨hab, hrest⟩ := List.append_inj h (by simp)
      rw [hexDigits_two_inj hab, ih hrest]

end SafecoinRpc
