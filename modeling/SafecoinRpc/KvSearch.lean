import SafecoinRpc.BlockRpc

/-!
# `kvsearch`

`kvsearch` looks a key up in the notary key-value store and reports, beside the value, when the
entry expires: `height + duration`, where `duration = ((flags >> 2) + 1) * SAFECOIN_KVDURATION`
is computed in `uint32_t` and stored in an `int32_t`. The product wraps once `flags >> 2`
passes `1491307`; `memcpy` past the `value` buffer and an `int` overflow of the expiration are
undefined, and the model returns `none` for them.
-/

namespace SafecoinRpc

/-- `IGUANA_MAXSCRIPTSIZE`: the size of the `key` and `value` buffers. -/
def IGUANA_MAXSCRIPTSIZE : Nat := 10001

/-- `SAFECOIN_KVDURATION`: the blocks one unit of an entry's lifetime lasts. -/
def SAFECOIN_KVDURATION : Nat := 1440

/-- What `kvsearch` reads of the notary code (not among the sources). -/
structure KvEnv where
  /-- `ASSETCHAINS_SYMBOL`, up to its first NUL. -/
  assetchainsSymbol : String
  /-- `safecoin_kvsearch(&refpubkey, current_height, &flags, &height, value, key, keylen)`: the
  size it returns and the `refpubkey`, `flags`, `height` and `value` buffer it writes. -/
  safecoinKvsearch : Int → List UInt8 → Int × Uint256 × UInt32 × Int × List UInt8

/-- The bytes of `str.c_str()`: the UTF-8 encoding of the text. -/
def stringBytes (str : String) : List UInt8 := str.toList.flatMap String.utf8EncodeChar

/-- `strlen(str.c_str())`: the bytes before the first NUL. -/
def cStrlen (str : String) : Nat := ((stringBytes str).takeWhile (· ≠ 0)).length

/-- The `std::string` made of some bytes, each byte a character. -/
def bytesString (bytes : List UInt8) : String := ⟨bytes.map fun b => Char.ofNat b.toNat⟩

/-- `duration = ((flags >> 2) + 1) * SAFECOIN_KVDURATION`: computed in `uint32_t`, stored in an
`int32_t`. -/
def kvDuration (flags : UInt32) : Int :=
  toSigned 32 (((flags.toNat >>> 2) + 1) * SAFECOIN_KVDURATION % 2 ^ 32 : Nat)

/-- `kvsearch key`: `none` when `memcpy` reads past the `value` buffer or `height + duration`
overflows an `int`. -/
def kvsearch (kenv : KvEnv) (s : State) (key : String) : Option UniValue :=
  let keylen := toSigned 32 (cStrlen key)
  if keylen > 0 then
    let currentheight := (s.deref s.chainActive.tip).nHeight
    let ret : List (String × UniValue) :=
      [("coin", .str (if kenv.assetchainsSymbol = "" then "SAFE" else kenv.assetchainsSymbol)),
        ("currentheight", .num currentheight), ("key", .str key), ("keylen", .num keylen)]
    if keylen < IGUANA_MAXSCRIPTSIZE then
      let (valuesize, refpubkey, flags, height, value) :=
        kenv.safecoinKvsearch currentheight ((stringBytes key).take keylen.toNat)
      if valuesize ≥ 0 then
        if valuesize ≤ value.length then
          let expiration := height + kvDuration flags
          if INT_MIN ≤ expiration ∧ expiration ≤ INT_MAX then
            some (.obj (ret ++ (if refpubkey ≠ 0 then [("owner", .str (getHex refpubkey))] else []) ++
              [("height", .num height), ("expiration", .num expiration), ("flags", .num flags.toNat),
                ("value", .str (bytesString (value.take valuesize.toNat))),
                ("valuesize", .num valuesize)]))
          else none
        else none
      else some (.obj (ret ++ [("error", .str "cant find key")]))
    else some (.obj (ret ++ [("error", .str "key too big")]))
  else some (.obj [("error", .str "null key")])

end SafecoinRpc
