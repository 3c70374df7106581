import Mathlib.Algebra.Order.BigOperators.Group.List
import ElectrumSV.Transaction.Wire
import ElectrumSV.Script.Push

/-!
# Reading a script_sig back

`XTxInput.read_extended` reads an input of an incomplete transaction and, unless its `prev_hash`
is the coinbase's thirty-two zero bytes, recovers the signing metadata from the script_sig with
`parse_script_sig`. That function decodes the script with `_script_GetOp`, which tolerates
truncated pushes, and tries three shapes in turn: one push (P2PK), two pushes whose second is a
key (P2PKH), and `OP_0`, pushes and a nested multisig script (MULTISIG_P2SH). A script of none of
these shapes is logged and left unparsed; the model returns the keyword arguments unchanged
there. The Python exceptions that escape are the errors of an `Except`.

`_script_GetOp` yields the position after each item too; no caller reads it, and the model leaves
it out. `XPublicKey.from_bytes` builds its BIP32 key text with bitcoinx's `base58_encode_check`,
a parameter of `ScriptSigConfig`.

* `Decodes.append`, `decodes_pushItem`: the bytes that `push_item` writes decode as one push of
  the item, unless the item is one of the small numbers that `push_item` writes as an opcode.
* `parseScriptSig_createScriptSig`: a script_sig that `create_script_sig` writes for P2PK, P2PKH
  or MULTISIG_P2SH is read back as its script type, threshold, signatures and keys.
* `lone_op0_script_sig_raises`: a script_sig of a single `OP_0` makes `parse_script_sig` index an
  empty list, and `read_extended` fails.
-/

namespace ElectrumSV

namespace Ops

/-- `OP_1`, also `OP_TRUE`. -/
def OP_1 : UInt8 := 0x51

theorem toNat_OP_PUSHDATA1 : OP_PUSHDATA1.toNat = 0x4c := rfl

theorem toNat_OP_PUSHDATA2 : OP_PUSHDATA2.toNat = 0x4d := rfl

theorem toNat_OP_PUSHDATA4 : OP_PUSHDATA4.toNat = 0x4e := rfl

@[simp] theorem OP_PUSHDATA2_ne_OP_PUSHDATA1 : OP_PUSHDATA2 ≠ OP_PUSHDATA1 := by decide

@[simp] theorem OP_PUSHDATA4_ne_OP_PUSHDATA1 : OP_PUSHDATA4 ≠ OP_PUSHDATA1 := by decide

@[simp] theorem OP_PUSHDATA4_ne_OP_PUSHDATA2 : OP_PUSHDATA4 ≠ OP_PUSHDATA2 := by decide

end Ops

/-- The Python exceptions that `parse_script_sig` lets escape. -/
inductive PyError
  /-- A list or bytes index past the end. -/
  | IndexError
  /-- `XPublicKey.from_bytes(None)`, for an opcode that pushes nothing. -/
  | TypeError
  /-- An `assert` that fails. -/
  | AssertionError
  /-- `XPublicKey.from_bytes` of a key of unknown kind. -/
  | NotImplementedError
  /-- What `to_public_key()` raises for key data that bitcoinx rejects. -/
  | KeyRejected
  deriving DecidableEq, Repr

/-- Python's `l[i]`: a negative index counts from the end. -/
def pyIndex {α : Type} (l : List α) (i : Int) : Except PyError α :=
  match if 0 ≤ i then l[i.toNat]? else l.reverse[i.natAbs - 1]? with
  | some x => .ok x
  | none => .error .IndexError

/-- Python's `assert`. -/
def pyAssert (p : Prop) [Decidable p] : Except PyError Unit :=
  if p then .ok () else .error .AssertionError

/-- What the transaction code takes from bitcoinx, with `base58_encode_check`. -/
structure ScriptSigConfig extends TxConfig where
  /-- `base58_encode_check`. -/
  base58EncodeCheck : Bytes → String

/-! ## Decoding -/

/-- The size of a push and the bytes after its size, as `_script_GetOp` reads them after the
opcode: a size that the script is too short to hold reads as zero. -/
def pushSize (opcode : UInt8) (rest : Bytes) : Nat × Bytes :=
  if opcode = Ops.OP_PUSHDATA1 then ((rest.headD 0).toNat, rest.drop 1)
  else if opcode = Ops.OP_PUSHDATA2 then
    (if 2 ≤ rest.length then leValue (rest.take 2) else 0, rest.drop 2)
  else if opcode = Ops.OP_PUSHDATA4 then
    (if 4 ≤ rest.length then leValue (rest.take 4) else 0, rest.drop 4)
  else (opcode.toNat, rest)

/-- One item of `_script_GetOp` at `opcode`, and the bytes after it: an opcode up to
`OP_PUSHDATA4` with the bytes it pushes, cut short where the script ends, and any other opcode
with `None`. -/
def getOp (opcode : UInt8) (rest : Bytes) : (UInt8 × Option Bytes) × Bytes :=
  if opcode.toNat ≤ Ops.OP_PUSHDATA4.toNat then
    let size := pushSize opcode rest
    ((opcode, some (size.2.take size.1)), size.2.drop size.1)
  else ((opcode, none), rest)

/-- `_script_GetOp`, reading at most `fuel` items. -/
def scriptGetOpAux : Nat → Bytes → List (UInt8 × Option Bytes)
  | 0, _ => []
  | _ + 1, [] => []
  | fuel + 1, opcode :: rest =>
    let next := getOp opcode rest
    next.1 :: scriptGetOpAux fuel next.2

/-- `_script_GetOp`: every item takes at least its opcode byte. -/
def scriptGetOp (script : Bytes) : List (UInt8 × Option Bytes) :=
  scriptGetOpAux script.length script

/-- One entry of `_match_decoded`: the opcode itself, or `OP_PUSHDATA4` for any opcode that
pushes at least one byte. -/
def matchesOp (opcode : UInt8) (toMatch : Int) : Bool :=
  (toMatch == Ops.OP_PUSHDATA4.toNat && opcode.toNat ≤ Ops.OP_PUSHDATA4.toNat &&
    0 < opcode.toNat) ||
    toMatch == opcode.toNat

/-- `_match_decoded`: one item per entry, each matching its entry. -/
def matchDecoded : List (UInt8 × Option Bytes) → List Int → Bool
  | [], [] => true
  | d :: decoded, t :: toMatch => matchesOp d.1 t && matchDecoded decoded toMatch
  | _, _ => false

/-- `_extract_multisig_pattern`: `m` and `n` from the first and the second-to-last opcodes, and
the pattern of a multisig script with `n` keys. -/
def extractMultisigPattern (decoded : List (UInt8 × Option Bytes)) :
    Except PyError (Int × Int × List Int) := do
  let first ← pyIndex decoded 0
  let secondToLast ← pyIndex decoded (-2)
  let m : Int := first.1.toNat - Ops.OP_1.toNat + 1
  let n : Int := secondToLast.1.toNat - Ops.OP_1.toNat + 1
  let opM := Ops.OP_1.toNat + m - 1
  let opN := Ops.OP_1.toNat + n - 1
  pure (m, n, opM :: List.replicate n.toNat (Ops.OP_PUSHDATA4.toNat : Int) ++
    [opN, (Ops.OP_CHECKMULTISIG.toNat : Int)])

/-! ## Decoding what `push_item` writes -/

/-- The items that `push_item` writes as a number opcode: one byte from 1 to 16, or `0x81`. -/
def isSmallNum : Bytes → Bool
  | [b] => (1 ≤ b.toNat && b.toNat ≤ 16) || b == 0x81
  | _ => false

/-- The opcode that starts the bytes of `pushData item`. -/
def pushOpcode (item : Bytes) : UInt8 := (pushData item).headD 0

/-- The item that the push of `item` decodes as. -/
def pushEntry (item : Bytes) : UInt8 × Option Bytes := (pushOpcode item, some item)

/-- `bs` decodes as `items`, whatever follows it. -/
def Decodes (bs : Bytes) (items : List (UInt8 × Option Bytes)) : Prop :=
  ∀ rest, scriptGetOp (bs ++ rest) = items ++ scriptGetOp rest

theorem getOp_length (opcode : UInt8) (rest : Bytes) :
    (getOp opcode rest).2.length ≤ rest.length := by
  have hsize : (pushSize opcode rest).2.length ≤ rest.length := by
    unfold pushSize
    split_ifs <;> simp only [List.length_drop] <;> omega
  unfold getOp
  split
  · simp only [List.length_drop]
    omega
  · exact le_rfl

theorem scriptGetOpAux_eq : ∀ fuel bs, bs.length ≤ fuel → scriptGetOpAux fuel bs = scriptGetOp bs
  | 0, [], _ => rfl
  | _ + 1, [], _ => rfl
  | 0, _ :: _, h => absurd h (by simp)
  | fuel + 1, b :: bs, h => by
    have hl := getOp_length b bs
    rw [List.length_cons] at h
    rw [scriptGetOp, List.length_cons, scriptGetOpAux, scriptGetOpAux,
      scriptGetOpAux_eq fuel _ (by omega), scriptGetOpAux_eq bs.length _ hl]
termination_by fuel => fuel

theorem decodes_of_getOp {b : UInt8} {bs : Bytes} {item : UInt8 × Option Bytes}
    (h : ∀ rest, getOp b (bs ++ rest) = (item, rest)) : Decodes (b :: bs) [item] := fun rest => by
  rw [List.cons_append, scriptGetOp, List.length_cons, scriptGetOpAux, h rest,
    scriptGetOpAux_eq _ _ (by simp [h rest])]
  rfl

theorem Decodes.nil : Decodes [] [] := fun _ => rfl

theorem Decodes.append {bs cs : Bytes} {is js : List (UInt8 × Option Bytes)} (h : Decodes bs is)
    (h' : Decodes cs js) : Decodes (bs ++ cs) (is ++ js) := fun rest => by
  rw [List.append_assoc, h, h', List.append_assoc]

theorem Decodes.flatten {α : Type} {f : α → Bytes} {g : α → List (UInt8 × Option Bytes)} :
    ∀ {l : List α}, (∀ x ∈ l, Decodes (f x) (g x)) → Decodes (l.map f).flatten (l.map g).flatten
  | [], _ => .nil
  | x :: _, h => (h x (.head _)).append (Decodes.flatten fun y hy => h y (.tail _ hy))

theorem Decodes.map {α : Type} {f : α → Bytes} {g : α → UInt8 × Option Bytes} :
    ∀ {l : List α}, (∀ x ∈ l, Decodes (f x) [g x]) → Decodes (l.map f).flatten (l.map g)
  | [], _ => .nil
  | x :: _, h => (h x (.head _)).append (Decodes.map fun y hy => h y (.tail _ hy))

theorem scriptGetOp_nil : scriptGetOp [] = [] := rfl

theorem scriptGetOp_of_decodes {bs : Bytes} {items : List (UInt8 × Option Bytes)}
    (h : Decodes bs items) : scriptGetOp bs = items := by
  simpa [scriptGetOp_nil] using h []

theorem decodes_op {b : UInt8} (hb : Ops.OP_PUSHDATA4.toNat < b.toNat) : Decodes [b] [(b, none)] :=
  decodes_of_getOp fun _ => by simp [getOp, Nat.not_le.2 hb]

theorem decodes_pushData {item : Bytes} (h : item.length < 2 ^ 32) :
    Decodes (pushData item) [pushEntry item] := by
  have hn : ∀ k, item.length < k → k ≤ 256 → item.length.toUInt8.toNat = item.length :=
    fun _ hk hk' => Nat.mod_eq_of_lt (by omega)
  dsimp only [pushEntry, pushOpcode, pushData]
  split_ifs with h1 h2 h3
  · have hne : ∀ b : UInt8, 0x4c ≤ b.toNat → item.length.toUInt8 ≠ b := fun b hb he => by
      rw [← he, hn _ h1 (by omega)] at hb
      omega
    refine decodes_of_getOp fun rest => ?_
    simp [getOp, pushSize, Ops.toNat_OP_PUSHDATA4, hn _ h1 (by omega),
      hne Ops.OP_PUSHDATA1 (by decide), hne Ops.OP_PUSHDATA2 (by decide),
      hne Ops.OP_PUSHDATA4 (by decide),
      show item.length ≤ 0x4e by omega]
  · refine decodes_of_getOp fun rest => ?_
    simp [getOp, pushSize, Ops.toNat_OP_PUSHDATA1, Ops.toNat_OP_PUSHDATA4, hn _ h2 le_rfl]
  · have hv := leValue_leBytes 2 item.length (by omega)
    refine decodes_of_getOp fun rest => ?_
    simp [getOp, pushSize, Ops.toNat_OP_PUSHDATA2, Ops.toNat_OP_PUSHDATA4, hv]
  · have hv := leValue_leBytes 4 item.length (by omega)
    refine decodes_of_getOp fun rest => ?_
    simp [getOp, pushSize, Ops.toNat_OP_PUSHDATA4, hv]

theorem isSmallNum_of_two_le : ∀ {item : Bytes}, 2 ≤ item.length → isSmallNum item = false
  | _ :: _ :: _, _ => rfl

theorem pushItem_of_isSmallNum : ∀ {item : Bytes}, isSmallNum item = false →
    pushItem item = pushData item
  | [], _ => rfl
  | [b], h => by
    simp only [isSmallNum, Bool.or_eq_false_iff, Bool.and_eq_false_iff, decide_eq_false_iff_not,
      beq_eq_false_iff_ne] at h
    rw [pushItem, if_neg (by omega), if_neg h.2]
  | _ :: _ :: _, _ => rfl

theorem decodes_pushItem {item : Bytes} (hs : isSmallNum item = false)
    (h : item.length < 2 ^ 32) : Decodes (pushItem item) [pushEntry item] := by
  rw [pushItem_of_isSmallNum hs]
  exact decodes_pushData h

theorem matchesOp_pushEntry {item : Bytes} (h : item ≠ []) :
    matchesOp (pushEntry item).1 Ops.OP_PUSHDATA4.toNat = true := by
  have hl : 0 < item.length := List.length_pos.2 h
  dsimp only [pushEntry, pushOpcode, pushData]
  split_ifs with h1 h2 h3
  · have hn : item.length.toUInt8.toNat = item.length := Nat.mod_eq_of_lt (by omega)
    simp [matchesOp, hn, Ops.toNat_OP_PUSHDATA4]
    omega
  all_goals rfl

theorem matchDecoded_length : ∀ {ds : List (UInt8 × Option Bytes)} {ts : List Int},
    matchDecoded ds ts = true → ds.length = ts.length
  | [], [], _ => rfl
  | _ :: _, _ :: _, h => by
    rw [matchDecoded, Bool.and_eq_true] at h
    simp [matchDecoded_length h.2]

theorem matchDecoded_append : ∀ {ds ds' : List (UInt8 × Option Bytes)} {ts ts' : List Int},
    ds.length = ts.length →
      matchDecoded (ds ++ ds') (ts ++ ts') = (matchDecoded ds ts && matchDecoded ds' ts')
  | [], _, [], _, _ => by simp [matchDecoded]
  | [], _, _ :: _, _, h => absurd h (by simp)
  | _ :: _, _, [], _, h => absurd h (by simp)
  | _ :: _, _, _ :: _, _, h => by
    rw [List.cons_append, List.cons_append, matchDecoded, matchDecoded,
      matchDecoded_append (Nat.succ.inj h), Bool.and_assoc]

theorem matchDecoded_pushes : ∀ {items : List Bytes}, (∀ s ∈ items, s ≠ []) →
    matchDecoded (items.map pushEntry) (List.replicate items.length Ops.OP_PUSHDATA4.toNat) = true
  | [], _ => rfl
  | s :: _, h => by
    simp only [List.map_cons, List.length_cons, List.replicate_succ, matchDecoded,
      matchesOp_pushEntry (h s (.head _)), matchDecoded_pushes fun t ht => h t (.tail _ ht),
      Bool.and_self]

theorem matchDecoded_self : ∀ ds : List (UInt8 × Option Bytes),
    matchDecoded ds (ds.map fun d => (d.1.toNat : Int)) = true
  | [] => rfl
  | _ :: ds => by simp [matchDecoded, matchesOp, matchDecoded_self ds]

/-! ## Keys from bytes -/

/-- `XPublicKey.__init__` as `from_bytes` calls it: a key that `to_public_key()` rejects raises. -/
def XPublicKey.initChecked (c : ScriptSigConfig) (pubkeyBytes : Option Bytes)
    (bip32Xpub : Option String) (oldMpk : Option Bytes) (derivationPath : Option DerivationPath) :
    Except PyError XPublicKey :=
  match XPublicKey.init c.toTxConfig pubkeyBytes bip32Xpub oldMpk derivationPath with
  | some key => .ok key
  | none => .error .KeyRejected

/-- The derivation path that `from_bytes` unpacks: one little-endian `uint16` at each offset. -/
def unpackPath (raw : Bytes) (offsets : List Nat) : DerivationPath :=
  offsets.map fun n => (leValue ((raw.drop n).take 2) : Int)

/-- `XPublicKey.from_bytes`: public key bytes, or the legacy serialisations of a BIP32 key
(`0xff`) and of an old master public key (`0xfe`) with a two-step path. -/
def XPublicKey.fromBytes (c : ScriptSigConfig) (raw : Bytes) : Except PyError XPublicKey := do
  let kind ← pyIndex raw 0
  if kind = 0x02 ∨ kind = 0x03 ∨ kind = 0x04 then
    initChecked c (some raw) none none none
  else if kind = 0xff then do
    pyAssert (raw.length = 83)
    initChecked c none (some (c.base58EncodeCheck ((raw.take 79).drop 1))) none
      (some (unpackPath raw [79, 81]))
  else if kind = 0xfe then do
    pyAssert (raw.length = 69)
    initChecked c none none (some ((raw.take 65).drop 1)) (some (unpackPath raw [65, 67]))
  else .error .NotImplementedError

/-- `XPublicKey.from_bytes(x[1])` of a decoded item: `None` is not subscriptable. -/
def XPublicKey.fromDecoded (c : ScriptSigConfig) (item : UInt8 × Option Bytes) :
    Except PyError XPublicKey :=
  match item.2 with
  | some raw => fromBytes c raw
  | none => .error .TypeError

/-- Public-key bytes as `from_bytes` takes them: compressed, 33 bytes from `0x02` or `0x03`, or
uncompressed, 65 bytes from `0x04`, accepted by `to_public_key()` and written back unchanged. -/
def IsPubkeyBytes (c : TxConfig) (b : Bytes) : Prop :=
  c.publicKeyBytes (.pubkey b) = some b ∧
    (b.length = 33 ∧ (b.head? = some 0x02 ∨ b.head? = some 0x03) ∨
      b.length = 65 ∧ b.head? = some 0x04)

section Indexing

variable {α : Type} (xs : List α) (a b : α)

@[simp] theorem pyIndex_zero : pyIndex (a :: xs) 0 = .ok a := by
  rw [pyIndex, if_pos (by decide), show Int.toNat 0 = 0 from rfl, List.getElem?_cons_zero]

@[simp] theorem pyIndex_one : pyIndex (a :: b :: xs) 1 = .ok b := by
  rw [pyIndex, if_pos (by decide), show Int.toNat 1 = 0 + 1 from rfl, List.getElem?_cons_succ,
    List.getElem?_cons_zero]

theorem pyIndex_neg_one : pyIndex (xs ++ [a]) (-1) = .ok a := by
  rw [pyIndex, if_neg (by decide), List.reverse_append, List.reverse_singleton,
    List.singleton_append, show (-1 : Int).natAbs - 1 = 0 from rfl, List.getElem?_cons_zero]

theorem pyIndex_neg_two : pyIndex (xs ++ [a, b]) (-2) = .ok a := by
  rw [pyIndex, if_neg (by decide), List.reverse_append, show (-2 : Int).natAbs - 1 = 1 from rfl,
    List.getElem?_append_left (by simp)]
  rfl

theorem sliceTo_neg_one : sliceTo (xs ++ [a]) (-1) = xs := by
  rw [sliceTo, if_neg (by decide), List.length_append]
  exact List.take_left' (Nat.add_sub_cancel _ _).symm

theorem sliceTo_neg_two : sliceTo (xs ++ [a, b]) (-2) = xs := by
  rw [sliceTo, if_neg (by decide), List.length_append]
  exact List.take_left' (Nat.add_sub_cancel _ _).symm

end Indexing

theorem IsPubkeyBytes.push {c : TxConfig} {b : Bytes} (h : IsPubkeyBytes c b) :
    b ≠ [] ∧ isSmallNum b = false ∧ b.length < 2 ^ 32 := by
  obtain ⟨-, ⟨hl, -⟩ | ⟨hl, -⟩⟩ := h <;>
  · refine ⟨fun hb => by simp [hb] at hl, ?_, by omega⟩
    exact isSmallNum_of_two_le (by omega)

theorem fromBytes_of_isPubkeyBytes {c : ScriptSigConfig} {b : Bytes}
    (h : IsPubkeyBytes c.toTxConfig b) : XPublicKey.fromBytes c b = .ok (.pubkey b) := by
  obtain ⟨hc, hk⟩ := h
  obtain ⟨x, xs, rfl⟩ := List.exists_cons_of_ne_nil (IsPubkeyBytes.push ⟨hc, hk⟩).1
  have hx : x = 0x02 ∨ x = 0x03 ∨ x = 0x04 := by
    rcases hk with ⟨-, h | h⟩ | ⟨-, h⟩ <;>
      simp only [List.head?_cons, Option.some.injEq] at h <;> simp [h]
  simp [XPublicKey.fromBytes, bind, Except.bind, hx, XPublicKey.initChecked, XPublicKey.init, hc]

theorem pushInt_of_le_16 {m : Nat} (h1 : 1 ≤ m) (h2 : m ≤ 16) :
    pushInt m = [(m + 0x50).toUInt8] := by
  have h : ∀ k : Nat, k < 17 → 1 ≤ k → pushInt k = [(k + 0x50).toUInt8] := by decide
  exact h m (by omega) h1

/-! ## `parse_script_sig` -/

/-- The address that `parse_script_sig` records: `x_pubkey.to_address()` of a P2PKH key, and the
P2SH address of the hash of a multisig script. -/
inductive ScriptSigAddress
  | p2pkh (xPubkey : XPublicKey)
  | p2sh (redeemScript : Bytes)
  deriving DecidableEq, Repr

/-- The keyword arguments that `parse_script_sig` reads and writes; a script type or address it
has not set is `none`. -/
structure ScriptSigKwargs where
  xPubkeys : List XPublicKey
  threshold : Int
  signatures : List Bytes
  scriptType : Option ScriptType := none
  address : Option ScriptSigAddress := none
  deriving DecidableEq, Repr

/-- The bytes of a decoded item that the caller asserts or knows to be a push. -/
def pushedBytes (item : UInt8 × Option Bytes) : Except PyError Bytes :=
  match item.2 with
  | some b => .ok b
  | none => .error .AssertionError

/-- The P2SH part of `parse_script_sig`, on a script that matched `OP_0` and pushes. -/
def parseMultisigScriptSig (c : ScriptSigConfig) (decoded : List (UInt8 × Option Bytes))
    (kwargs : ScriptSigKwargs) : Except PyError ScriptSigKwargs := do
  let nestedScript ← pushedBytes (← pyIndex decoded (-1))
  let nestedDecoded := scriptGetOp nestedScript
  let xPubkeys ← ((sliceTo nestedDecoded (-2)).drop 1).mapM (XPublicKey.fromDecoded c)
  let (m, _, matchMultisig) ← extractMultisigPattern nestedDecoded
  if !matchDecoded nestedDecoded matchMultisig then return kwargs
  let redeemScript ← match multisigScript c.toTxConfig xPubkeys m with
    | some s => Except.ok s
    | none => .error .AssertionError
  let signatures ← ((sliceTo decoded (-1)).drop 1).mapM pushedBytes
  pure { kwargs with scriptType := some .MULTISIG_P2SH, xPubkeys := xPubkeys, threshold := m,
                     address := some (.p2sh redeemScript), signatures := signatures }

/-- `parse_script_sig`: P2PK, then P2PKH, then MULTISIG_P2SH; any other script is logged and
the arguments are returned as they were. -/
def parseScriptSig (c : ScriptSigConfig) (script : Bytes) (kwargs : ScriptSigKwargs) :
    Except PyError ScriptSigKwargs := do
  let decoded := scriptGetOp script
  if matchDecoded decoded [(Ops.OP_PUSHDATA4.toNat : Int)] then
    let item ← pushedBytes (← pyIndex decoded 0)
    return { kwargs with signatures := [item], threshold := 1, scriptType := some .P2PK }
  if matchDecoded decoded [(Ops.OP_PUSHDATA4.toNat : Int), (Ops.OP_PUSHDATA4.toNat : Int)] then
    let sig ← pushedBytes (← pyIndex decoded 0)
    let xPubkeyBytes ← pushedBytes (← pyIndex decoded 1)
    let xPubkey ← XPublicKey.fromBytes c xPubkeyBytes
    return { kwargs with signatures := [sig], threshold := 1, xPubkeys := [xPubkey],
                         scriptType := some .P2PKH, address := some (.p2pkh xPubkey) }
  if !matchDecoded decoded ((Ops.OP_0.toNat : Int) ::
      List.replicate (decoded.length - 1) (Ops.OP_PUSHDATA4.toNat : Int)) then
    return kwargs
  parseMultisigScriptSig c decoded kwargs

/-- `XTxInput.read_extended`: `XTxInput.read`, then the metadata that `parse_script_sig` finds
in a non-coinbase script_sig, and the value after an input that is not complete. -/
def XTxInput.readExtended (c : ScriptSigConfig) : Reader XTxInput := do
  let prevHash ← readBytes 32
  let prevIdx ← readLeUint32
  let (scriptSigBytes, scriptSigOffset) ← xreadVarbytes
  let sequence ← readLeUint32
  let kwargs : ScriptSigKwargs := { xPubkeys := [], threshold := 0, signatures := [] }
  guard (scriptSigOffset ≠ 0)
  guard (scriptSigBytes.length ≠ 0)
  let kwargs ← if prevHash ≠ List.replicate 32 0 then
      StateT.lift (parseScriptSig c scriptSigBytes kwargs).toOption
    else pure kwargs
  let result : XTxInput :=
    { prevHash := prevHash, prevIdx := prevIdx, scriptSig := scriptSigBytes, sequence := sequence,
      value := none, xPubkeys := kwargs.xPubkeys, threshold := kwargs.threshold,
      signatures := kwargs.signatures, scriptType := kwargs.scriptType.getD .NONE,
      scriptOffset := scriptSigOffset, scriptLength := scriptSigBytes.length }
  if !result.isComplete then
    let value ← readLeInt64
    pure { result with value := some value }
  else pure result


/-! ## Reading back what `create_script_sig` writes -/

/-- The bytes of `multisig_script(keys, m)` for `n` keys: `OP_m`, the pushes of the keys, `OP_n`
and `OP_CHECKMULTISIG`. -/
def multisigBytes (keyBytes : List Bytes) (m : Nat) : Bytes :=
  [(m + 0x50).toUInt8] ++ (keyBytes.map pushItem).flatten ++
    [(keyBytes.length + 0x50).toUInt8, Ops.OP_CHECKMULTISIG]

/-- What `multisigBytes` decodes as. -/
def multisigEntries (keyBytes : List Bytes) (m : Nat) : List (UInt8 × Option Bytes) :=
  (((m + 0x50).toUInt8, none) :: keyBytes.map pushEntry) ++
    [((keyBytes.length + 0x50).toUInt8, none), (Ops.OP_CHECKMULTISIG, none)]

section Multisig

variable {keyBytes : List Bytes} {m : Nat}

theorem multisigScript_pubkeys {c : TxConfig} (hpush : c.pushItem = pushItem)
    (hint : c.pushInt = pushInt) (hkeys : ∀ b ∈ keyBytes, IsPubkeyBytes c b)
    (hm : 1 ≤ m ∧ m ≤ keyBytes.length ∧ keyBytes.length ≤ 16) :
    multisigScript c (keyBytes.map .pubkey) m = some (multisigBytes keyBytes m) := by
  have hk : (keyBytes.map .pubkey).mapM c.publicKeyBytes = some keyBytes :=
    mapM_map_eq_some fun b hb => (hkeys b hb).1
  have hg : 1 ≤ (m : Int) ∧ (m : Int) ≤ ((keyBytes.map XPublicKey.pubkey).length : Int) := by
    simp only [List.length_map]
    omega
  rw [multisigScript, guard, if_pos hg]
  simp only [Option.pure_def, Option.bind_eq_bind, Option.some_bind, hk, hpush, hint,
    List.length_map, pushInt_of_le_16 hm.1 (by omega),
    pushInt_of_le_16 (show 1 ≤ keyBytes.length by omega) hm.2.2, multisigBytes,
    List.append_assoc, List.singleton_append]

theorem decodes_multisigBytes {c : TxConfig} (hkeys : ∀ b ∈ keyBytes, IsPubkeyBytes c b)
    (hm : m ≤ 16) (hn : keyBytes.length ≤ 16) :
    Decodes (multisigBytes keyBytes m) (multisigEntries keyBytes m) := by
  have hop : ∀ k ≤ 16, Ops.OP_PUSHDATA4.toNat < ((k + 0x50).toUInt8 : UInt8).toNat :=
    fun k hk => by
      rw [show ((k + 0x50).toUInt8 : UInt8).toNat = k + 0x50 from Nat.mod_eq_of_lt (by omega),
        Ops.toNat_OP_PUSHDATA4]
      omega
  exact ((decodes_op (hop m hm)).append (Decodes.map fun b hb =>
    decodes_pushItem (hkeys b hb).push.2.1 (hkeys b hb).push.2.2)).append
      ((decodes_op (hop _ hn)).append (decodes_op (b := Ops.OP_CHECKMULTISIG) (by decide)))

theorem extractMultisigPattern_multisigEntries (hm : m ≤ 16) (hn : keyBytes.length ≤ 16) :
    extractMultisigPattern (multisigEntries keyBytes m) =
      .ok (m, keyBytes.length, (((m + 0x50 : Nat) : Int) ::
        List.replicate keyBytes.length (Ops.OP_PUSHDATA4.toNat : Int)) ++
          [((keyBytes.length + 0x50 : Nat) : Int), (Ops.OP_CHECKMULTISIG.toNat : Int)]) := by
  have h1 : ((m + 0x50).toUInt8 : UInt8).toNat = m + 0x50 := Nat.mod_eq_of_lt (by omega)
  have h2 : ((keyBytes.length + 0x50).toUInt8 : UInt8).toNat = keyBytes.length + 0x50 :=
    Nat.mod_eq_of_lt (by omega)
  rw [multisigEntries, extractMultisigPattern, pyIndex_neg_two, List.cons_append, pyIndex_zero]
  simp only [bind, Except.bind, pure, Except.pure, h1, h2, show Ops.OP_1.toNat = 0x51 from rfl]
  have hsub : ∀ k : Nat, ((k + 80 : Nat) : Int) - ((81 : Nat) : Int) + 1 = k := fun k => by omega
  have hadd : ∀ k : Nat, ((81 : Nat) : Int) + k - 1 = ((k + 80 : Nat) : Int) := fun k => by omega
  simp only [hsub, hadd, Int.toNat_ofNat]

theorem matchDecoded_multisigEntries (hne : ∀ b ∈ keyBytes, b ≠ []) (hm : m ≤ 16)
    (hn : keyBytes.length ≤ 16) :
    matchDecoded (multisigEntries keyBytes m) ((((m + 0x50 : Nat) : Int) ::
      List.replicate keyBytes.length (Ops.OP_PUSHDATA4.toNat : Int)) ++
        [((keyBytes.length + 0x50 : Nat) : Int), (Ops.OP_CHECKMULTISIG.toNat : Int)]) = true := by
  have h1 : ((m + 0x50).toUInt8 : UInt8).toNat = m + 0x50 := Nat.mod_eq_of_lt (by omega)
  have h2 : ((keyBytes.length + 0x50).toUInt8 : UInt8).toNat = keyBytes.length + 0x50 :=
    Nat.mod_eq_of_lt (by omega)
  rw [multisigEntries, matchDecoded_append (by simp), matchDecoded, matchDecoded_pushes hne]
  simp [matchDecoded, matchesOp, h1, h2]

theorem mapM_fromDecoded (c : ScriptSigConfig) :
    ∀ {keyBytes : List Bytes}, (∀ b ∈ keyBytes, IsPubkeyBytes c.toTxConfig b) →
      (keyBytes.map pushEntry).mapM (XPublicKey.fromDecoded c) = .ok (keyBytes.map .pubkey)
  | [], _ => rfl
  | b :: _, h => by
    rw [List.map_cons, List.mapM_cons, mapM_fromDecoded c fun b' hb' => h b' (.tail _ hb')]
    simp only [XPublicKey.fromDecoded, pushEntry, fromBytes_of_isPubkeyBytes (h b (.head _))]
    rfl

theorem mapM_pushedBytes : ∀ items : List Bytes, (items.map pushEntry).mapM pushedBytes = .ok items
  | [] => rfl
  | b :: bs => by
    rw [List.map_cons, List.mapM_cons, mapM_pushedBytes bs]
    rfl

theorem sliceTo_multisigEntries :
    (sliceTo (multisigEntries keyBytes m) (-2)).drop 1 = keyBytes.map pushEntry := by
  rw [multisigEntries, sliceTo_neg_two]
  rfl

theorem parseMultisigScriptSig_multisig {c : ScriptSigConfig} (hpush : c.pushItem = pushItem)
    (hint : c.pushInt = pushInt) (hkeys : ∀ b ∈ keyBytes, IsPubkeyBytes c.toTxConfig b)
    (hm : 1 ≤ m ∧ m ≤ keyBytes.length ∧ keyBytes.length ≤ 16) (first : UInt8 × Option Bytes)
    (prepared : List Bytes) (kwargs : ScriptSigKwargs) :
    parseMultisigScriptSig c
        ((first :: prepared.map pushEntry) ++ [pushEntry (multisigBytes keyBytes m)]) kwargs =
      .ok { kwargs with scriptType := some .MULTISIG_P2SH, xPubkeys := keyBytes.map .pubkey,
                        threshold := m, address := some (.p2sh (multisigBytes keyBytes m)),
                        signatures := prepared } := by
  have hne : ∀ b ∈ keyBytes, b ≠ [] := fun b hb => (hkeys b hb).push.1
  have hm16 : m ≤ 16 := by omega
  simp only [parseMultisigScriptSig, pyIndex_neg_one, sliceTo_neg_one, bind, Except.bind,
    pushedBytes, pushEntry, scriptGetOp_of_decodes (decodes_multisigBytes hkeys hm16 hm.2.2),
    sliceTo_multisigEntries, mapM_fromDecoded c hkeys,
    extractMultisigPattern_multisigEntries hm16 hm.2.2,
    matchDecoded_multisigEntries hne hm16 hm.2.2, Bool.not_true,
    multisigScript_pubkeys hpush hint hkeys hm, Bool.false_eq_true, if_false, pure, Except.pure,
    List.drop_succ_cons, List.drop_zero, mapM_pushedBytes]

theorem length_multisigBytes_lt {c : TxConfig} (hkeys : ∀ b ∈ keyBytes, IsPubkeyBytes c b)
    (hn : keyBytes.length ≤ 16) : (multisigBytes keyBytes m).length < 2 ^ 32 := by
  have hb : ∀ x ∈ (keyBytes.map pushItem).map List.length, x ≤ 66 := by
    simp only [List.map_map, List.mem_map, Function.comp]
    rintro _ ⟨b, hb, rfl⟩
    rw [pushItem_of_isSmallNum (hkeys b hb).push.2.1]
    obtain ⟨-, ⟨hl, -⟩ | ⟨hl, -⟩⟩ := hkeys b hb <;> simp [pushData, hl]
  have hsum := List.sum_le_card_nsmul _ _ hb
  simp only [List.length_map, smul_eq_mul] at hsum
  simp only [multisigBytes, List.length_append, List.length_flatten, List.length_singleton,
    List.length_cons, List.length_nil]
  omega

end Multisig

@[simp] theorem pushedBytes_pushEntry (item : Bytes) : pushedBytes (pushEntry item) = .ok item :=
  rfl

/-- A signature as `parse_script_sig` can read it back: a non-empty push. -/
def SigPushable (s : Bytes) : Prop := s ≠ [] ∧ isSmallNum s = false ∧ s.length < 2 ^ 32

theorem parseScriptSig_p2pk (c : ScriptSigConfig) {s : Bytes} (hs : SigPushable s)
    (kwargs : ScriptSigKwargs) :
    parseScriptSig c (pushItem s) kwargs =
      .ok { kwargs with signatures := [s], threshold := 1, scriptType := some .P2PK } := by
  simp [parseScriptSig, scriptGetOp_of_decodes (decodes_pushItem hs.2.1 hs.2.2), matchDecoded,
    matchesOp_pushEntry hs.1, bind, Except.bind, pure, Except.pure]

theorem parseScriptSig_p2pkh (c : ScriptSigConfig) {s k : Bytes} (hs : SigPushable s)
    (hk : IsPubkeyBytes c.toTxConfig k) (kwargs : ScriptSigKwargs) :
    parseScriptSig c (pushItem s ++ pushItem k) kwargs =
      .ok { kwargs with signatures := [s], threshold := 1, xPubkeys := [.pubkey k],
                        scriptType := some .P2PKH, address := some (.p2pkh (.pubkey k)) } := by
  have hd := scriptGetOp_of_decodes ((decodes_pushItem hs.2.1 hs.2.2).append
    (decodes_pushItem hk.push.2.1 hk.push.2.2))
  simp [parseScriptSig, hd, matchDecoded, matchesOp_pushEntry hs.1, matchesOp_pushEntry hk.push.1,
    bind, Except.bind, pure, Except.pure, fromBytes_of_isPubkeyBytes hk]



section Bare

variable (m : Nat) (sigs : List Bytes)

theorem length_bareMultisignatures : (bareMultisignatures m sigs).length = m := by
  simp only [bareMultisignatures, sliceTo, Nat.cast_nonneg, if_true, Int.toNat_ofNat,
    List.length_append, List.length_take, List.length_replicate]
  omega

theorem filter_bareMultisignatures :
    (bareMultisignatures m sigs).filter (· != noSignature) =
      (sigs.filter (· != noSignature)).take m := by
  simp only [bareMultisignatures, sliceTo, Nat.cast_nonneg, if_true, Int.toNat_ofNat,
    List.filter_append, List.filter_replicate, bne_self_eq_false, Bool.false_eq_true, if_false,
    List.append_nil]
  exact List.filter_eq_self.2 fun s hs => (List.mem_filter.1 (List.mem_of_mem_take hs)).2

theorem mem_bareMultisignatures {s : Bytes} (h : s ∈ bareMultisignatures m sigs) :
    s ∈ sigs ∨ s = noSignature := by
  simp only [bareMultisignatures, sliceTo, Nat.cast_nonneg, if_true, Int.toNat_ofNat,
    List.mem_append, List.mem_replicate] at h
  rcases h with h | ⟨-, rfl⟩
  exacts [.inl (List.mem_filter.1 (List.mem_of_mem_take h)).1, .inr rfl]

theorem isComplete_bareMultisignatures (i : XTxInput) (hm : 1 ≤ m) (ht : i.threshold = m)
    (hs : i.signatures ≠ []) :
    { i with threshold := m, signatures := bareMultisignatures m i.signatures }.isComplete =
      i.isComplete := by
  have hb : bareMultisignatures m i.signatures ≠ [] :=
    List.ne_nil_of_length_pos (by rw [length_bareMultisignatures]; omega)
  simp only [XTxInput.isComplete, filter_bareMultisignatures, List.isEmpty_eq_false.2 hb,
    List.isEmpty_eq_false.2 hs, ht, List.length_take, Bool.false_or, decide_eq_decide,
    Nat.cast_le]
  omega

end Bare

theorem parseScriptSig_p2sh {c : ScriptSigConfig} (hpush : c.pushItem = pushItem)
    (hint : c.pushInt = pushInt) {keyBytes : List Bytes} {m : Nat}
    (hkeys : ∀ b ∈ keyBytes, IsPubkeyBytes c.toTxConfig b)
    (hm : 1 ≤ m ∧ m ≤ keyBytes.length ∧ keyBytes.length ≤ 16) {prepared : List Bytes}
    (hne : prepared ≠ []) (hprep : ∀ s ∈ prepared, SigPushable s) (kwargs : ScriptSigKwargs) :
    parseScriptSig c ([Ops.OP_0] ++ (prepared.map pushItem).flatten ++
        pushItem (multisigBytes keyBytes m)) kwargs =
      .ok { kwargs with scriptType := some .MULTISIG_P2SH, xPubkeys := keyBytes.map .pubkey,
                        threshold := m, address := some (.p2sh (multisigBytes keyBytes m)),
                        signatures := prepared } := by
  have hlen := length_multisigBytes_lt (m := m) hkeys hm.2.2
  have hnested : SigPushable (multisigBytes keyBytes m) :=
    ⟨by simp [multisigBytes], isSmallNum_of_two_le (by simp [multisigBytes]), hlen⟩
  have hd : scriptGetOp ([Ops.OP_0] ++ (prepared.map pushItem).flatten ++
      pushItem (multisigBytes keyBytes m)) =
        (pushEntry [] :: prepared.map pushEntry) ++ [pushEntry (multisigBytes keyBytes m)] :=
    scriptGetOp_of_decodes (((decodes_pushItem (show isSmallNum ([] : Bytes) = false from rfl)
      (by decide)).append (Decodes.map fun s hs => decodes_pushItem (hprep s hs).2.1
        (hprep s hs).2.2)).append (decodes_pushItem hnested.2.1 hlen))
  rw [parseScriptSig, hd]
  set decoded := (pushEntry [] :: prepared.map pushEntry) ++ [pushEntry (multisigBytes keyBytes m)]
    with hdecoded
  -- `OP_0`, at least one signature and the nested script: no single-key shape matches
  have hshort : ∀ ts : List Int, ts.length < 3 → matchDecoded decoded ts = false := by
    obtain ⟨p, ps, rfl⟩ := List.exists_cons_of_ne_nil hne
    refine fun ts hts => Bool.eq_false_iff.2 fun h => ?_
    simp only [← matchDecoded_length h, hdecoded, List.length_append, List.length_cons,
      List.length_map, List.length_singleton] at hts
    omega
  have hp2sh : matchDecoded decoded ((Ops.OP_0.toNat : Int) ::
      List.replicate (decoded.length - 1) (Ops.OP_PUSHDATA4.toNat : Int)) = true := by
    have hall : ∀ s ∈ prepared ++ [multisigBytes keyBytes m], s ≠ [] := by
      simp only [List.mem_append, List.mem_singleton]
      rintro s (hs | rfl)
      exacts [(hprep s hs).1, hnested.1]
    rw [show decoded = pushEntry [] :: (prepared ++ [multisigBytes keyBytes m]).map pushEntry by
      simp [hdecoded], List.length_cons, Nat.add_sub_cancel, matchDecoded, List.length_map,
      matchDecoded_pushes hall]
    rfl
  simp only [hshort _ (show [(Ops.OP_PUSHDATA4.toNat : Int)].length < 3 by decide),
    hshort _ (show [(Ops.OP_PUSHDATA4.toNat : Int), Ops.OP_PUSHDATA4.toNat].length < 3 by decide),
    hp2sh, Bool.false_eq_true, if_false, Bool.not_true]
  exact parseMultisigScriptSig_multisig hpush hint hkeys hm _ _ kwargs


theorem createScriptSig_p2sh {c : TxConfig} (hpush : c.pushItem = pushItem)
    (hint : c.pushInt = pushInt) {keyBytes : List Bytes} {m : Nat}
    (hkeys : ∀ b ∈ keyBytes, IsPubkeyBytes c b)
    (hm : 1 ≤ m ∧ m ≤ keyBytes.length ∧ keyBytes.length ≤ 16) (sigs : List Bytes) :
    createScriptSig c .MULTISIG_P2SH m (keyBytes.map .pubkey) sigs =
      some ([Ops.OP_0] ++ ((bareMultisignatures m sigs).map pushItem).flatten ++
        pushItem (multisigBytes keyBytes m)) := by
  simp only [createScriptSig, multisigScript_pubkeys hpush hint hkeys hm, hpush,
    Option.bind_eq_bind, Option.some_bind, Option.pure_def]

/-- For P2PK, P2PKH and MULTISIG_P2SH, bitcoinx's pushes, keys given by their public-key bytes,
`1 ≤ m ≤ n ≤ 16` (`m = n = 1` for the single-key types) and one signature per key, each
non-empty and not a number that `push_item` writes as an opcode: `parse_script_sig` reads the
script_sig that `create_script_sig` writes as its script type, threshold, signatures and keys,
and an input with those fields is complete exactly when the input it was written from is. -/
theorem parseScriptSig_createScriptSig (c : ScriptSigConfig) (hpush : c.pushItem = pushItem)
    (hint : c.pushInt = pushInt) (scriptType : ScriptType) (keyBytes sigs : List Bytes) (m : Nat)
    (kwargs : ScriptSigKwargs)
    (htype : scriptType = .P2PK ∨ scriptType = .P2PKH ∨ scriptType = .MULTISIG_P2SH)
    (hkeys : ∀ b ∈ keyBytes, IsPubkeyBytes c.toTxConfig b)
    (hm : 1 ≤ m ∧ m ≤ keyBytes.length ∧ keyBytes.length ≤ 16)
    (hsingle : scriptType ≠ .MULTISIG_P2SH → m = 1 ∧ keyBytes.length = 1)
    (hlen : sigs.length = keyBytes.length) (hsigs : ∀ s ∈ sigs, SigPushable s) :
    ∃ script kw, createScriptSig c.toTxConfig scriptType m (keyBytes.map .pubkey) sigs = some script ∧
      parseScriptSig c script kwargs = .ok kw ∧ kw.scriptType = some scriptType ∧
      kw.threshold = m ∧
      kw.signatures =
        (if scriptType = .MULTISIG_P2SH then bareMultisignatures m sigs else sigs.take 1) ∧
      (scriptType ≠ .P2PK → kw.xPubkeys = keyBytes.map .pubkey) ∧
      ∀ i : XTxInput, i.threshold = m → i.signatures = sigs →
        { i with threshold := kw.threshold, signatures := kw.signatures }.isComplete =
          i.isComplete := by
  rcases htype with rfl | rfl | rfl
  · obtain ⟨rfl, hn⟩ := hsingle (by decide)
    obtain ⟨s, rfl⟩ := List.length_eq_one.1 (hlen.trans hn)
    refine ⟨_, _, by simp [createScriptSig, hpush],
      parseScriptSig_p2pk c (hsigs s (.head _)) kwargs, rfl, rfl, rfl, fun h => absurd rfl h,
      fun i hi hs => ?_⟩
    simp only [XTxInput.isComplete, hs, hi, Nat.cast_one]
  · obtain ⟨rfl, hn⟩ := hsingle (by decide)
    obtain ⟨s, rfl⟩ := List.length_eq_one.1 (hlen.trans hn)
    obtain ⟨k, rfl⟩ := List.length_eq_one.1 hn
    refine ⟨_, _, by simp [createScriptSig, hpush, (hkeys k (.head _)).1],
      parseScriptSig_p2pkh c (hsigs s (.head _)) (hkeys k (.head _)) kwargs, rfl, rfl, rfl,
      fun _ => rfl, fun i hi hs => ?_⟩
    simp only [XTxInput.isComplete, hs, hi, Nat.cast_one]
  · have hprep : ∀ s ∈ bareMultisignatures m sigs, SigPushable s := fun s hs =>
      (mem_bareMultisignatures m sigs hs).elim (hsigs s) fun h => h ▸ ⟨by decide, rfl, by decide⟩
    have hne : bareMultisignatures m sigs ≠ [] :=
      List.ne_nil_of_length_pos (by rw [length_bareMultisignatures]; omega)
    refine ⟨_, _, createScriptSig_p2sh hpush hint hkeys hm sigs,
      parseScriptSig_p2sh hpush hint hkeys hm hne hprep kwargs, rfl, rfl, (if_pos rfl).symm,
      fun _ => rfl, fun i hi hs => ?_⟩
    subst hs
    exact isComplete_bareMultisignatures m i hm.1 hi
      (List.ne_nil_of_length_pos (by rw [hlen]; omega))


/-- The configuration of the examples, with bitcoinx's pushes; a BIP32 key's text is its hex. -/
def sampleScriptSigConfig : ScriptSigConfig :=
  { sampleTxConfig with pushItem := pushItem, pushInt := pushInt, base58EncodeCheck := hex }

/-- A compressed public key for examples. -/
def sampleKeyBytes (b : UInt8) : Bytes := 0x02 :: List.replicate 32 b

/-- A 1-of-2 MULTISIG_P2SH input signed by its first key. -/
theorem sampleMultisig_script_sig_round_trip :
    ∃ script kw, createScriptSig sampleScriptSigConfig.toTxConfig .MULTISIG_P2SH (1 : Nat)
        ([sampleKeyBytes 7, sampleKeyBytes 9].map .pubkey) [[0x30, 1], noSignature] =
          some script ∧
      parseScriptSig sampleScriptSigConfig script ⟨[], 0, [], none, none⟩ = .ok kw ∧
      kw.scriptType = some .MULTISIG_P2SH ∧ kw.threshold = (1 : Nat) ∧
      kw.signatures = (if ScriptType.MULTISIG_P2SH = .MULTISIG_P2SH then
        bareMultisignatures (1 : Nat) [[0x30, 1], noSignature] else [[0x30, 1]]) ∧
      (ScriptType.MULTISIG_P2SH ≠ .P2PK →
        kw.xPubkeys = [sampleKeyBytes 7, sampleKeyBytes 9].map .pubkey) ∧
      ∀ i : XTxInput, i.threshold = (1 : Nat) → i.signatures = [[0x30, 1], noSignature] →
        { i with threshold := kw.threshold, signatures := kw.signatures }.isComplete =
          i.isComplete :=
  parseScriptSig_createScriptSig sampleScriptSigConfig rfl rfl .MULTISIG_P2SH
    [sampleKeyBytes 7, sampleKeyBytes 9] [[0x30, 1], noSignature] 1 ⟨[], 0, [], none, none⟩
    (.inr (.inr rfl)) (by unfold IsPubkeyBytes; decide) (by decide) (fun h => absurd rfl h) rfl
    (by unfold SigPushable; decide)

/-- A one-byte signature `0x05` is written as `OP_5`, which none of the shapes of
`parse_script_sig` reads as a push: the P2PK script_sig is logged and left unparsed. -/
theorem small_signature_not_parsed :
    createScriptSig sampleScriptSigConfig.toTxConfig .P2PK (1 : Nat)
        [.pubkey (sampleKeyBytes 7)] [[0x05]] = some [0x55] ∧
      parseScriptSig sampleScriptSigConfig [0x55] ⟨[], 0, [], none, none⟩ =
        .ok ⟨[], 0, [], none, none⟩ :=
  ⟨rfl, rfl⟩

/-- An input of a non-coinbase transaction whose script_sig is a lone `OP_0`. -/
def loneOp0Input : Bytes :=
  List.replicate 32 1 ++ [0, 0, 0, 0] ++ [1, Ops.OP_0] ++ [0xff, 0xff, 0xff, 0xff]

/-- A lone `OP_0` matches the MULTISIG_P2SH shape with no pushes after it; its nested script is
the empty push, and `_extract_multisig_pattern` indexes the empty decoding. `read` accepts the
input and `read_extended` fails on it. -/
theorem lone_op0_script_sig_raises (c : ScriptSigConfig) (kwargs : ScriptSigKwargs) :
    parseScriptSig c [Ops.OP_0] kwargs = .error .IndexError ∧
      (XTxInput.read ⟨loneOp0Input, 0⟩).isSome ∧ XTxInput.readExtended c ⟨loneOp0Input, 0⟩ = none :=
  ⟨rfl, rfl, rfl⟩

end ElectrumSV
