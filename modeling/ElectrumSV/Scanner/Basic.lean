import ElectrumSV.Basic

/-!
# The records of the blockchain scanner

`blockchain_scanner.py` discovers which keys of an account have been used by asking an indexing
service for the history of one token (`item_hash`) per candidate script. This file models the
records it keeps: a derivation subtree being scanned (`BIP32ParentPath`), a candidate lookup
(`SearchEntry`), a history record (`ScriptHashHistory`) and the subscription entries handed to the
network.

Public keys, their non-hardened derivation and the item hasher are external to the module
(bitcoinx and the pluggable hashing strategy): a `ScanConfig` carries them, with the gap-limit
dictionary of the `AdvancedSettings`. A `SearchEntry` names its parent path by its position in the
enumerator's `_bip32_paths`, which only ever grows, where the source holds a reference to the path
object.
-/

namespace ElectrumSV

/-- One item of an `ElectrumXHistoryList`. -/
structure HistoryItem where
  txHash : String
  height : Int
  fee : Option Int
  deriving DecidableEq, Repr

/-- `ElectrumXHistoryList`: ascending confirmed heights, then unconfirmed transactions. -/
abbrev History := List HistoryItem

/-- What a scan takes from outside `blockchain_scanner.py`: bitcoinx's `child_safe`, the
`get_item_hash_for_public_keys` of the item hasher, and the gap limits of the settings. -/
structure ScanConfig (Key : Type) where
  childSafe : Key → Int → Key
  getItemHashForPublicKeys : ScriptType → List Key → Int → Bytes
  gapLimits : DerivationPath → Int

/-- A BIP32 subtree being scanned, with the progress counters the scan mutates. -/
structure BIP32ParentPath (Key : Type) where
  subpath : DerivationPath
  threshold : Int
  masterPublicKeys : List Key
  scriptTypes : List ScriptType
  parentPublicKeys : List Key
  lastIndex : Int := -1
  resultCount : Int := 0
  highestUsedIndex : Int := -1
  deriving DecidableEq, Repr

/-- `BIP32ParentPath(subpath, threshold, master_public_keys, script_types)`, whose
`__post_init__` applies the subpath to each master public key. -/
def BIP32ParentPath.create {Key : Type} (c : ScanConfig Key) (subpath : DerivationPath)
    (threshold : Int) (masterPublicKeys : List Key) (scriptTypes : List ScriptType) :
    BIP32ParentPath Key where
  subpath := subpath
  threshold := threshold
  masterPublicKeys := masterPublicKeys
  scriptTypes := scriptTypes
  parentPublicKeys := masterPublicKeys.map fun xpub => subpath.foldl c.childSafe xpub

@[simp] theorem BIP32ParentPath.create_lastIndex {Key : Type} (c : ScanConfig Key)
    (subpath : DerivationPath) (threshold : Int) (masterPublicKeys : List Key)
    (scriptTypes : List ScriptType) :
    (BIP32ParentPath.create c subpath threshold masterPublicKeys scriptTypes).lastIndex = -1 := rfl

@[simp] theorem BIP32ParentPath.create_highestUsedIndex {Key : Type} (c : ScanConfig Key)
    (subpath : DerivationPath) (threshold : Int) (masterPublicKeys : List Key)
    (scriptTypes : List ScriptType) :
    (BIP32ParentPath.create c subpath threshold masterPublicKeys scriptTypes).highestUsedIndex =
      -1 := rfl

inductive SearchEntryKind
  | NONE
  | EXPLICIT
  | BIP32
  deriving DecidableEq, Repr

/-- A candidate lookup: an explicit key, or a child index of a parent path. -/
structure SearchEntry where
  kind : SearchEntryKind := .NONE
  keyinstanceId : Option Int := none
  scriptType : ScriptType := .NONE
  itemHash : Bytes := []
  parentPath : Option Nat := none
  parentIndex : Int := -1
  deriving DecidableEq, Repr

/-- The sub-context for a history and the history itself. -/
structure ScriptHashHistory where
  history : History
  bip32Subpath : Option DerivationPath := none
  bip32SubpathIndex : Int := -1
  deriving DecidableEq, Repr

/-- `SubscriptionEntry(SubscriptionKey(SCRIPT_HASH, item_hash), owner context)`, as built by
`ScriptHashHandler.wrap_search_entry`; the context carries the search entry back. -/
structure SubscriptionEntry where
  scriptHash : Bytes
  context : SearchEntry
  deriving DecidableEq, Repr

/-- `ScriptHashHandler.wrap_search_entry`. -/
def wrapSearchEntry (entry : SearchEntry) : SubscriptionEntry :=
  ⟨entry.itemHash, entry⟩

/-- `MINIMUM_ACTIVE_SUBSCRIPTIONS`. -/
def minimumActiveSubscriptions : Int := 100

end ElectrumSV
