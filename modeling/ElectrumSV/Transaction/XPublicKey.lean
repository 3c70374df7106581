import ElectrumSV.Transaction.Packing

/-!
# Extended public keys

An `XPublicKey` records where a public key comes from: its bytes, a BIP32 extended key and a
derivation path, or an old-style master public key and a path. `__init__` keeps the first of
`pubkey_bytes`, `bip32_xpub` and `old_mpk` that is given (the other two need derivation data) and
then checks the key with `to_public_key()`. Key derivation, point arithmetic and script pushes are
bitcoinx's, so `TxConfig` takes them as parameters, together with the one fact about them that the
dictionary round trip needs: `PublicKey.from_bytes(b'')` raises.

`__eq__` compares the three key fields and the derivation path, which are exactly the fields of
the model, so it is the model's equality.

* `fromDict_toDict`: every key that `__init__` accepted comes back from `from_dict(to_dict())`.
-/

namespace ElectrumSV

/-- An `XPublicKey`, by the field that `__init__` kept. -/
inductive XPublicKey
  | pubkey (pubkeyBytes : Bytes)
  | bip32 (bip32Xpub : String) (derivationPath : DerivationPath)
  | oldMpk (oldMpk : Bytes) (derivationPath : DerivationPath)
  deriving DecidableEq, Repr

/-- What the transaction code takes from bitcoinx. -/
structure TxConfig where
  /-- `XPublicKey.to_public_key().to_bytes()`; `none` where it raises. -/
  publicKeyBytes : XPublicKey → Option Bytes
  /-- `PublicKey.from_bytes(b'')` raises. -/
  publicKeyBytes_empty : publicKeyBytes (.pubkey []) = none
  /-- `push_item`. -/
  pushItem : Bytes → Bytes
  /-- `push_int`. -/
  pushInt : Int → Bytes
  /-- `double_sha256`, the hash under which `from_dict` files parent transactions. -/
  doubleSha256 : Bytes → Bytes

/-- `SerialisedXPublicKeyDict`, a `TypedDict` whose keys may all be missing. -/
structure XPublicKeyDict where
  pubkeyBytes : Option String := none
  bip32Xpub : Option String := none
  oldMpk : Option String := none
  derivationPath : Option DerivationPath := none
  deriving DecidableEq, Repr

namespace XPublicKey

/-- `XPublicKey.__init__`: the first key field given, then the `to_public_key()` check. -/
def init (c : TxConfig) (pubkeyBytes : Option Bytes) (bip32Xpub : Option String)
    (oldMpk : Option Bytes) (derivationPath : Option DerivationPath) : Option XPublicKey := do
  let key ← match pubkeyBytes, bip32Xpub, oldMpk with
    | some b, _, _ => some (.pubkey b)
    | none, some x, _ => (.bip32 x) <$> derivationPath
    | none, none, some m => (.oldMpk m) <$> derivationPath
    | none, none, none => none
  if (c.publicKeyBytes key).isSome then some key else none

/-- `XPublicKey.from_dict`: an empty `pubkey_bytes` text counts as missing. -/
def fromDict (c : TxConfig) (data : XPublicKeyDict) : Option XPublicKey := do
  let pubkeyBytes ← match data.pubkeyBytes with
    | some h => if h ≠ "" then some <$> fromHex h else pure none
    | none => pure none
  let oldMpk ← match data.oldMpk with
    | some h => some <$> fromHex h
    | none => pure none
  init c pubkeyBytes data.bip32Xpub oldMpk data.derivationPath

/-- `XPublicKey.to_dict`. -/
def toDict : XPublicKey → XPublicKeyDict
  | pubkey b => { pubkeyBytes := some (hex b) }
  | oldMpk m p => { oldMpk := some (hex m), derivationPath := some p }
  | bip32 x p => { bip32Xpub := some x, derivationPath := some p }

theorem hex_ne_empty {b : Bytes} (h : b ≠ []) : hex b ≠ "" := by
  obtain ⟨x, xs, rfl⟩ := List.exists_cons_of_ne_nil h
  simp [hex, String.ext_iff]

theorem fromDict_toDict (c : TxConfig) {x : XPublicKey} (hx : (c.publicKeyBytes x).isSome) :
    fromDict c x.toDict = some x := by
  cases x with
  | pubkey b =>
    have hb : b ≠ [] := by
      rintro rfl
      simp [c.publicKeyBytes_empty] at hx
    simp [fromDict, toDict, init, hex_ne_empty hb, fromHex_hex, hx]
  | bip32 x p => simp [fromDict, toDict, init, hx]
  | oldMpk m p => simp [fromDict, toDict, init, fromHex_hex, hx]

end XPublicKey

end ElectrumSV
