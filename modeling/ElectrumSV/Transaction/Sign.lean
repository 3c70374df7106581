import Mathlib.Data.List.Basic
import ElectrumSV.Script.Accumulator
import ElectrumSV.Transaction.BipLI01

/-!
# Signing

`Transaction.sign` walks the inputs in place. It skips an input that is complete, and for every key
of the others that `keypairs` holds it writes, into the key's signature slot, the key's signature
over the input's digest followed by the sighash byte (`_sign_txin`). The digest is that of
`preimage_hash`: it looks the input up with `self.inputs.index(txin)`, the first input equal to it,
takes the script code of `get_preimage_script_bytes`, and hands both to bitcoinx's
`signature_hash`. Under `SIGHASH_FORKID` that digest is BIP143's, which reads no script_sig, so the
model passes it the transaction with its script_sigs left out (`Transaction.sighashTx`).

Signing one input changes no other input's digest, and as long as no two inputs spend the same
outpoint, `index` finds every input at its own position, whatever has been signed before it. So the
loop is the same as signing each input on its own against the transaction as it was, with the
signature of every key that `keypairs` holds in the key's slot (`sign_eq_map_signedInput`).

* `sign_completes`: when `keypairs` holds every key of every incomplete input, each with a secret
  that `PrivateKey` accepts, the signed transaction is complete.
* `sign_signs_final_digest`: every key that `keypairs` holds signs, in its slot, the digest of
  its input in the signed transaction, so no signature is invalidated by a later one.
-/

namespace ElectrumSV

namespace Ops

/-- `OP_CHECKSIG`. -/
def OP_CHECKSIG : UInt8 := 0xac

end Ops

/-- `Transaction.SIGHASH_FORKID`. -/
def SIGHASH_FORKID : UInt8 := 0x40

/-- `Transaction.nHashType()`: `SIGHASH_ALL | SIGHASH_FORKID`. -/
def nHashType : UInt8 := 0x01 ||| SIGHASH_FORKID

/-- What signing takes from bitcoinx beyond `TxConfig`. -/
structure SignConfig extends TxConfig where
  /-- `hash160`. -/
  hash160 : Bytes → Bytes
  /-- `Tx.signature_hash(input_index, value, script_code, sighash)`, of the transaction without
  its script_sigs; `none` where it raises, as `pack_le_int64` does on a value outside `int64`. -/
  signatureHash : Tx → Nat → Int → Bytes → UInt8 → Option Bytes
  /-- `PrivateKey(privkey_bytes).sign(pre_hash, None)`; `none` where `PrivateKey` raises on a
  secret that is not a valid key. -/
  ecdsaSign : Bytes → Bytes → Option Bytes

/-- bitcoinx `TxInput.is_coinbase`. -/
def TxInput.isCoinbase (i : TxInput) : Bool :=
  i.prevHash == List.replicate 32 0 && i.prevIdx == 0xffffffff

namespace XTxInput

/-- `XTxInput.type`: `COINBASE` for a coinbase input, else the script type. -/
def type (i : XTxInput) : ScriptType := if i.isCoinbase then .COINBASE else i.scriptType

/-- `txin.signatures[j] = sig`; `none` is the `IndexError` of a slot past the end. -/
def setSignature (i : XTxInput) (j : Nat) (sig : Bytes) : Option XTxInput :=
  if j < i.signatures.length then some { i with signatures := i.signatures.set j sig } else none

end XTxInput

namespace Transaction

/-- The transaction as the digest of `SIGHASH_FORKID` reads it: without its script_sigs. -/
def sighashTx (t : Transaction) : Tx :=
  ⟨t.version, t.inputs.map fun i => { i.toTxInput with scriptSig := [] },
    t.outputs.map XTxOutput.toTxOutput, t.locktime⟩

/-- `Transaction.get_preimage_script_bytes`: the script code of an input; `none` where it raises. -/
def getPreimageScriptBytes (c : SignConfig) (txin : XTxInput) : Option Bytes :=
  match txin.type with
  | .P2PKH => do
    let key ← txin.xPubkeys.head?
    let keyBytes ← c.publicKeyBytes key
    pure ([Ops.OP_DUP, Ops.OP_HASH160] ++ c.pushItem (c.hash160 keyBytes) ++
      [Ops.OP_EQUALVERIFY, Ops.OP_CHECKSIG])
  | .MULTISIG_P2SH | .MULTISIG_BARE => multisigScript c.toTxConfig txin.xPubkeys txin.threshold
  | .MULTISIG_ACCUMULATOR => do
    let keyBytes ← txin.xPubkeys.mapM c.publicKeyBytes
    pure (accumulatorScript c.hash160 keyBytes txin.threshold)
  | .P2PK => do
    let key ← txin.xPubkeys.head?
    let keyBytes ← c.publicKeyBytes key
    pure (c.pushItem keyBytes ++ [Ops.OP_CHECKSIG])
  | _ => none

/-- The digest of the input `txin` at index `i`, for its value and script code. -/
def digest (c : SignConfig) (t : Transaction) (i : Nat) (txin : XTxInput) : Option Bytes := do
  let scriptCode ← getPreimageScriptBytes c txin
  let value ← txin.value
  c.signatureHash t.sighashTx i value scriptCode nHashType

/-- `Transaction.preimage_hash`: the digest at the index of the first input equal to `txin`;
`none` where it raises. -/
def preimageHash (c : SignConfig) (t : Transaction) (txin : XTxInput) : Option Bytes := do
  let inputIndex := t.inputs.indexOf txin
  guard (inputIndex < t.inputs.length)
  t.digest c inputIndex txin

/-- `Transaction._sign_txin`: the signature over the input's digest and the sighash byte. -/
def signTxin (c : SignConfig) (t : Transaction) (txin : XTxInput) (privkeyBytes : Bytes) :
    Option Bytes := do
  let preHash ← t.preimageHash c txin
  let sig ← c.ecdsaSign privkeyBytes preHash
  pure (sig ++ [nHashType])

/-- One key of the inner loop of `sign`, on the transaction and its input at `idx`: a key that
`keypairs` holds signs its slot. -/
def signSlot (c : SignConfig) (keypairs : XPublicKey → Option Bytes) (idx : Nat)
    (st : Transaction × XTxInput) (slot : Nat × XPublicKey) : Option (Transaction × XTxInput) :=
  match keypairs slot.2 with
  | none => some st
  | some sec => do
    let sig ← st.1.signTxin c st.2 sec
    let txin ← st.2.setSignature slot.1 sig
    pure ({ st.1 with inputs := st.1.inputs.set idx txin }, txin)

/-- One input of the outer loop of `sign`: skipped when complete, else each of its keys. -/
def signInput (c : SignConfig) (keypairs : XPublicKey → Option Bytes) (t : Transaction)
    (entry : Nat × XTxInput) : Option Transaction :=
  if entry.2.isComplete then some t
  else Prod.fst <$> entry.2.xPubkeys.enum.foldlM (signSlot c keypairs entry.1) (t, entry.2)

/-- `Transaction.sign`, with `keypairs` by its lookup; `none` where it raises. -/
def sign (c : SignConfig) (keypairs : XPublicKey → Option Bytes) (t : Transaction) :
    Option Transaction :=
  t.inputs.enum.foldlM (signInput c keypairs) t

/-! ## Signing each input on its own -/

/-- Slot `j`, holding `s`, of an input with keys `keys` signed over the digest `h`: the key's
signature when `keypairs` holds the key, else `s`; `none` where the signing raises. -/
def signedSlot (c : SignConfig) (keypairs : XPublicKey → Option Bytes) (h : Bytes)
    (keys : List XPublicKey) (j : Nat) (s : Bytes) : Option Bytes :=
  match keys[j]?.bind keypairs with
  | some sec => (· ++ [nHashType]) <$> c.ecdsaSign sec h
  | none => some s

/-- The signatures of an input with the slot of every key that `keypairs` holds signed over the
digest `h`. -/
def signedSignatures (c : SignConfig) (keypairs : XPublicKey → Option Bytes) (h : Bytes)
    (txin : XTxInput) : Option (List Bytes) :=
  txin.signatures.enum.mapM fun p => signedSlot c keypairs h txin.xPubkeys p.1 p.2

/-- The input at index `i` signed on its own against `t`: unchanged when complete or when
`keypairs` holds none of its keys; otherwise its digest must exist and every key held must have a
slot. -/
def signedInput (c : SignConfig) (keypairs : XPublicKey → Option Bytes) (t : Transaction)
    (i : Nat) (txin : XTxInput) : Option XTxInput :=
  if txin.isComplete ∨ ∀ k ∈ txin.xPubkeys, keypairs k = none then some txin
  else do
    guard (∀ j (hj : j < txin.xPubkeys.length), (keypairs txin.xPubkeys[j]).isSome →
      j < txin.signatures.length)
    let h ← t.digest c i txin
    let signatures ← signedSignatures c keypairs h txin
    pure { txin with signatures := signatures }

/-- The write that the inner loop of `sign` makes for one key, with the input's digest `h`. -/
def writeSlot (c : SignConfig) (keypairs : XPublicKey → Option Bytes) (h : Option Bytes)
    (txin : XTxInput) (slot : Nat × XPublicKey) : Option XTxInput :=
  match keypairs slot.2 with
  | none => some txin
  | some sec => do
    let h ← h
    let sig ← c.ecdsaSign sec h
    txin.setSignature slot.1 (sig ++ [nHashType])

section Slots

variable (c : SignConfig) (keypairs : XPublicKey → Option Bytes)

/-- Two `mapM`s over the enumerations of lists of one length agree where the functions agree slot
by slot. -/
theorem mapM_enumFrom_congr {α β γ : Type} {f : Nat × α → Option γ} {g : Nat × β → Option γ} :
    ∀ (n : Nat) {l₁ : List α} {l₂ : List β}, l₁.length = l₂.length →
      (∀ j a b, l₁[j]? = some a → l₂[j]? = some b → f (n + j, a) = g (n + j, b)) →
      (List.enumFrom n l₁).mapM f = (List.enumFrom n l₂).mapM g
  | _, [], [], _, _ => rfl
  | n, a :: l₁, b :: l₂, hl, h => by
    have h0 := h 0 a b (List.getElem?_cons_zero ..) (List.getElem?_cons_zero ..)
    rw [Nat.add_zero] at h0
    rw [List.enumFrom_cons, List.enumFrom_cons, List.mapM_cons, List.mapM_cons, h0,
      mapM_enumFrom_congr (n + 1) (Nat.succ.inj hl) fun j a' b' ha hb => ?_]
    have := h (j + 1) a' b' (by rwa [List.getElem?_cons_succ]) (by rwa [List.getElem?_cons_succ])
    rwa [← Nat.add_assoc, Nat.add_right_comm] at this

theorem mapM_enum_congr {α β γ : Type} {f : Nat × α → Option γ} {g : Nat × β → Option γ}
    {l₁ : List α} {l₂ : List β} (hl : l₁.length = l₂.length)
    (h : ∀ j a b, l₁[j]? = some a → l₂[j]? = some b → f (j, a) = g (j, b)) :
    l₁.enum.mapM f = l₂.enum.mapM g :=
  mapM_enumFrom_congr 0 hl fun j a b ha hb => by rw [Nat.zero_add]; exact h j a b ha hb

/-- A `mapM` over an enumeration that keeps every element returns the list. -/
theorem mapM_enum_eq_self {α : Type} {f : Nat × α → Option α} {l : List α}
    (h : ∀ j a, l[j]? = some a → f (j, a) = some a) : l.enum.mapM f = some l :=
  mapM_eq_some_of_getElem? (List.enum_length ..) fun j p hp => by
    rw [List.getElem?_enum] at hp
    obtain ⟨a, ha, rfl⟩ := Option.map_eq_some'.1 hp
    exact ⟨a, ha, h j a ha⟩

theorem mapM_eq_none_of_mem {α β : Type} {f : α → Option β} {a : α} (hf : f a = none) :
    ∀ {l : List α}, a ∈ l → l.mapM f = none
  | _ :: _, .head _ => by rw [List.mapM_cons, hf]; rfl
  | b :: _, .tail _ h => by rw [List.mapM_cons, mapM_eq_none_of_mem hf h]; cases f b <;> rfl

theorem getElem?_of_signedSignatures {h : Bytes} {txin : XTxInput} {ss : List Bytes}
    (hss : signedSignatures c keypairs h txin = some ss) {j : Nat} {s : Bytes}
    (hs : txin.signatures[j]? = some s) :
    ∃ s', ss[j]? = some s' ∧ signedSlot c keypairs h txin.xPubkeys j s = some s' :=
  getElem?_of_mapM_eq_some hss (by rw [List.getElem?_enum, hs]; rfl)

theorem signedSlot_of_none (h : Bytes) {keys : List XPublicKey} {j : Nat}
    (hk : keys[j]?.bind keypairs = none) (s : Bytes) :
    signedSlot c keypairs h keys j s = some s := by
  rw [signedSlot, hk]

/-- A slot whose key `keypairs` holds is signed with the key's secret, where that succeeds. -/
theorem signedSlot_of_some (h : Bytes) {keys : List XPublicKey} {j : Nat} {sec : Bytes}
    (hk : keys[j]?.bind keypairs = some sec) (s : Bytes) :
    signedSlot c keypairs h keys j s = (· ++ [nHashType]) <$> c.ecdsaSign sec h := by
  rw [signedSlot, hk]

/-- Away from slot `m`, a slot is kept or signed alike from `m` and from `m + 1` on. -/
theorem ite_signedSlot_succ (h : Bytes) (keys : List XPublicKey) {j m : Nat} (hjm : j ≠ m)
    (s : Bytes) :
    (if m + 1 ≤ j then signedSlot c keypairs h keys j s else some s) =
      if m ≤ j then signedSlot c keypairs h keys j s else some s := by
  rcases Nat.lt_or_gt_of_ne hjm with hj | hj
  · rw [if_neg (by omega), if_neg (by omega)]
  · rw [if_pos (show m + 1 ≤ j by omega), if_pos hj.le]

/-- The inner loop from slot `m` on, with the digest `h`, over an input whose slots from `m` on
are those of `x`. -/
theorem foldlM_writeSlot_from (x : XTxInput) (h : Bytes) :
    ∀ (rest : List XPublicKey) (m : Nat) (y : XTxInput), x.xPubkeys.drop m = rest →
      y = { x with signatures := y.signatures } → y.signatures.length = x.signatures.length →
      (∀ j, m ≤ j → y.signatures[j]? = x.signatures[j]?) →
      (List.enumFrom m rest).foldlM (writeSlot c keypairs (some h)) y =
        if ∀ j (hj : j < x.xPubkeys.length), m ≤ j → (keypairs x.xPubkeys[j]).isSome →
          j < x.signatures.length
        then (fun s => { x with signatures := s }) <$> y.signatures.enum.mapM fun p =>
          if m ≤ p.1 then signedSlot c keypairs h x.xPubkeys p.1 p.2 else some p.2
        else none
  | [], m, y, hrest, hy, _, _ => by
    have hm : x.xPubkeys.length ≤ m := List.drop_eq_nil_iff.1 hrest
    rw [if_pos fun j hj hmj => absurd hj (by omega), List.enumFrom_nil, List.foldlM_nil,
      mapM_enum_eq_self fun j a _ => ?_]
    · exact congrArg some hy
    · split
      · exact signedSlot_of_none c keypairs h
          (by rw [List.getElem?_eq_none (by omega), Option.none_bind]) a
      · rfl
  | k :: rest, m, y, hrest, hy, hlen, hsig => by
    have hkm : x.xPubkeys[m]? = some k := by
      rw [← List.head?_drop, hrest, List.head?_cons]
    have hrest' : x.xPubkeys.drop (m + 1) = rest := by
      rw [← List.drop_drop, hrest, List.drop_one, List.tail_cons]
    obtain ⟨hmk, hkm'⟩ := List.getElem?_eq_some_iff.1 hkm
    -- the condition from `m` on is the condition from `m + 1` on, and the key at `m`'s slot
    have hcond : (∀ j (hj : j < x.xPubkeys.length), m ≤ j → (keypairs x.xPubkeys[j]).isSome →
        j < x.signatures.length) ↔ ((keypairs k).isSome → m < x.signatures.length) ∧
        ∀ j (hj : j < x.xPubkeys.length), m + 1 ≤ j → (keypairs x.xPubkeys[j]).isSome →
          j < x.signatures.length := by
      refine ⟨fun H => ⟨fun hs => H m hmk le_rfl (hkm' ▸ hs), fun j hj hmj => H j hj (by omega)⟩,
        fun H j hj hmj hs => ?_⟩
      rcases Nat.eq_or_lt_of_le hmj with rfl | hlt
      · exact H.1 (hkm' ▸ hs)
      · exact H.2 j hj hlt hs
    have hkey : x.xPubkeys[m]?.bind keypairs = keypairs k := by rw [hkm, Option.some_bind]
    rw [List.enumFrom_cons, List.foldlM_cons]
    cases hk : keypairs k with
    | none =>
      simp only [writeSlot, hk, Option.bind_eq_bind, Option.some_bind]
      rw [foldlM_writeSlot_from x h rest (m + 1) y hrest' hy hlen fun j hj => hsig j (by omega)]
      simp only [hcond, hk, Option.isSome_none, Bool.false_eq_true, false_implies, true_and]
      rw [mapM_enum_congr rfl fun j a b ha hb => ?_]
      obtain rfl := Option.some.inj (ha.symm.trans hb)
      by_cases hjm : j = m
      · subst hjm
        rw [if_neg (by omega), if_pos le_rfl, signedSlot_of_none c keypairs h (hkey.trans hk)]
      · exact ite_signedSlot_succ c keypairs h _ hjm a
    | some sec =>
      have hslot := signedSlot_of_some c keypairs h (hkey.trans hk)
      simp only [writeSlot, hk, Option.bind_eq_bind, Option.some_bind]
      cases hsg : c.ecdsaSign sec h with
      | none =>
        rw [Option.none_bind, Option.none_bind]
        split
        · next H =>
          have hm : m < y.signatures.length := hlen ▸ H m hmk le_rfl (by rw [hkm', hk]; rfl)
          rw [mapM_eq_none_of_mem (a := (m, y.signatures[m])) (by rw [if_pos le_rfl, hslot, hsg]; rfl)
            (List.mem_enum_iff_getElem?.2 (List.getElem?_eq_getElem hm))]
          rfl
        · rfl
      | some sig =>
        simp only [Option.some_bind, XTxInput.setSignature]
        by_cases hm : m < x.signatures.length
        · rw [if_pos (hlen ▸ hm), Option.some_bind]
          refine (foldlM_writeSlot_from x h rest (m + 1) _ hrest' (by rw [hy])
            (by rw [List.length_set, hlen]) fun j hj => ?_).trans ?_
          · rw [List.getElem?_set_ne (by omega), hsig j (by omega)]
          · simp only [hcond, hk, Option.isSome_some, hm, imp_self, true_and]
            rw [mapM_enum_congr (List.length_set ..) fun j a b ha hb => ?_]
            by_cases hjm : j = m
            · subst hjm
              rw [List.getElem?_set_self (hlen ▸ hm)] at ha
              rw [← Option.some.inj ha, if_neg (by omega), if_pos le_rfl, hslot, hsg]
              rfl
            · rw [List.getElem?_set_ne (Ne.symm hjm)] at ha
              obtain rfl := Option.some.inj (ha.symm.trans hb)
              exact ite_signedSlot_succ c keypairs h _ hjm a
        · rw [if_neg (hlen ▸ hm), Option.none_bind, if_neg]
          rw [hcond, hk]
          exact fun H => hm (H.1 rfl)

/-- The inner loop over a whole input with its digest `h`: every key that `keypairs` holds signs
its slot, and the loop raises where such a key has no slot or its signing raises. -/
theorem foldlM_writeSlot (x : XTxInput) (h : Bytes) :
    x.xPubkeys.enum.foldlM (writeSlot c keypairs (some h)) x =
      if ∀ j (hj : j < x.xPubkeys.length), (keypairs x.xPubkeys[j]).isSome →
          j < x.signatures.length
      then (fun s => { x with signatures := s }) <$> signedSignatures c keypairs h x
      else none := by
  refine (foldlM_writeSlot_from c keypairs x h _ 0 x rfl rfl rfl fun _ _ => rfl).trans ?_
  simp only [Nat.zero_le, true_implies, if_true]
  rfl

/-- Without a digest the inner loop passes only when `keypairs` holds none of the keys. -/
theorem foldlM_writeSlot_none (y : XTxInput) : ∀ (keys : List XPublicKey) (m : Nat),
    (List.enumFrom m keys).foldlM (writeSlot c keypairs none) y =
      if ∀ k ∈ keys, keypairs k = none then some y else none
  | [], _ => by simp
  | k :: keys, m => by
    rw [List.enumFrom_cons, List.foldlM_cons]
    cases hk : keypairs k <;> simp [writeSlot, hk, foldlM_writeSlot_none y keys (m + 1)]

theorem signedSignatures_of_none (h : Bytes) {x : XTxInput}
    (hx : ∀ k ∈ x.xPubkeys, keypairs k = none) :
    signedSignatures c keypairs h x = some x.signatures :=
  mapM_enum_eq_self fun j a _ => signedSlot_of_none c keypairs h (by
    cases hk : x.xPubkeys[j]? with
    | none => rfl
    | some k => rw [Option.some_bind, hx k (List.getElem?_mem hk)]) a

/-- The inner loop over an incomplete input, with the input's digest in `t`, is the input signed
on its own. -/
theorem foldlM_writeSlot_digest (t : Transaction) (i : Nat) {x : XTxInput}
    (hx : x.isComplete = false) :
    x.xPubkeys.enum.foldlM (writeSlot c keypairs (t.digest c i x)) x =
      signedInput c keypairs t i x := by
  by_cases hnone : ∀ k ∈ x.xPubkeys, keypairs k = none
  · rw [signedInput, if_pos (Or.inr hnone)]
    cases t.digest c i x with
    | none => rw [List.enum, foldlM_writeSlot_none, if_pos hnone]
    | some h =>
      rw [foldlM_writeSlot, if_pos fun j hj hs => absurd (hnone _ (List.getElem_mem hj)) (by
        simpa [Option.isSome_iff_ne_none] using hs), signedSignatures_of_none c keypairs h hnone]
      rfl
  · rw [signedInput, if_neg (by simp [hx, hnone])]
    cases t.digest c i x with
    | none => simp [List.enum, foldlM_writeSlot_none, hnone]
    | some h =>
      rw [foldlM_writeSlot, guard]
      split
      · simp only [Option.pure_def, Option.bind_eq_bind, Option.some_bind]
        cases signedSignatures c keypairs h x <;> rfl
      · rfl

end Slots

/-! ## The loops of `sign` -/

section Loops

variable (c : SignConfig) (keypairs : XPublicKey → Option Bytes)

/-- The digest reads neither the signatures of the input nor a script_sig of the transaction. -/
theorem digest_congr {u t : Transaction} (hu : u.sighashTx = t.sighashTx) (i : Nat)
    (x : XTxInput) (s : List Bytes) : u.digest c i { x with signatures := s } = t.digest c i x := by
  rw [digest, digest, hu]; rfl

/-- Changing the signatures of one input leaves what the digest reads of the transaction. -/
theorem sighashTx_signatures {u : Transaction} {pre post : List XTxInput} {x : XTxInput}
    {s : List Bytes} (hu : u.inputs = pre ++ { x with signatures := s } :: post) (s' : List Bytes) :
    { u with inputs := pre ++ { x with signatures := s' } :: post }.sighashTx = u.sighashTx := by
  simp only [sighashTx, hu, List.map_append, List.map_cons]

/-- `index` finds an input at its own position when no input before it is equal to it. -/
theorem preimageHash_eq_digest {u : Transaction} {pre post : List XTxInput} {y : XTxInput}
    (hu : u.inputs = pre ++ y :: post) (hy : y ∉ pre) :
    u.preimageHash c y = u.digest c pre.length y := by
  have hidx : u.inputs.indexOf y = pre.length := by
    rw [hu, List.indexOf_append_of_not_mem hy, List.indexOf_cons_self, Nat.add_zero]
  rw [preimageHash, hidx, guard, if_pos (by simp [hu])]
  rfl

/-- The inner loop of `sign` on the input `x` at `pre.length`, when no input before it spends its
outpoint, makes the writes of the loop of `writeSlot` with `x`'s digest in `t`, and puts the input
back at its position. -/
theorem foldlM_signSlot (t : Transaction) (x : XTxInput) (pre post : List XTxInput)
    (hpre : x.prevout ∉ pre.map XTxInput.prevout) :
    ∀ (slots : List (Nat × XPublicKey)) (u : Transaction) (s : List Bytes),
      u.inputs = pre ++ { x with signatures := s } :: post → u.sighashTx = t.sighashTx →
      slots.foldlM (signSlot c keypairs pre.length) (u, { x with signatures := s }) =
        (fun y => ({ u with inputs := pre ++ y :: post }, y)) <$>
          slots.foldlM (writeSlot c keypairs (t.digest c pre.length x)) { x with signatures := s }
  | [], u, s, hu, _ => by
    obtain ⟨_, _, _, _⟩ := u
    subst hu
    rfl
  | slot :: slots, u, s, hu, ht => by
    rw [List.foldlM_cons, List.foldlM_cons]
    cases hk : keypairs slot.2 with
    | none =>
      simp only [signSlot, writeSlot, hk]
      exact foldlM_signSlot t x pre post hpre slots u s hu ht
    | some sec =>
      have hy : { x with signatures := s } ∉ pre := fun hm =>
        hpre (List.mem_map_of_mem XTxInput.prevout hm :)
      have hdig : u.preimageHash c { x with signatures := s } = t.digest c pre.length x := by
        rw [preimageHash_eq_digest c hu hy, digest_congr c ht]
      simp only [signSlot, writeSlot, hk, signTxin, hdig]
      cases hd : t.digest c pre.length x with
      | none => rfl
      | some h =>
        simp only [XTxInput.setSignature, Option.bind_eq_bind, Option.some_bind]
        cases c.ecdsaSign sec h with
        | none => rfl
        | some sig =>
          simp only [Option.some_bind, Option.pure_def]
          split
          · let s' := s.set slot.1 (sig ++ [nHashType])
            have hset : u.inputs.set pre.length { x with signatures := s' } =
                pre ++ { x with signatures := s' } :: post := by
              rw [hu, List.set_append_right _ _ le_rfl, Nat.sub_self, List.set_cons_zero]
            have step := foldlM_signSlot t x pre post hpre slots
              { u with inputs := u.inputs.set pre.length { x with signatures := s' } } s' hset
              (by rw [hset, sighashTx_signatures hu]; exact ht)
            rw [hd] at step
            exact step
          · rfl

/-- `signedInput` changes only the signatures of the input. -/
theorem signedInput_eq_some {t : Transaction} {i : Nat} {x y : XTxInput}
    (h : signedInput c keypairs t i x = some y) : ∃ s, y = { x with signatures := s } := by
  unfold signedInput at h
  split at h
  · exact ⟨x.signatures, (Option.some.inj h).symm⟩
  · simp only [Option.bind_eq_bind, Option.bind_eq_some, Option.pure_def, Option.some.injEq] at h
    obtain ⟨_, _, _, _, s, _, rfl⟩ := h
    exact ⟨s, rfl⟩

/-- One input of the outer loop of `sign`, at `pre.length` with no input before it spending its
outpoint, puts back the input signed on its own against `t`. -/
theorem signInput_eq {t u : Transaction} {pre post : List XTxInput} {x : XTxInput}
    (hu : u.inputs = pre ++ x :: post) (ht : u.sighashTx = t.sighashTx)
    (hpre : x.prevout ∉ pre.map XTxInput.prevout) :
    signInput c keypairs u (pre.length, x) =
      (fun y => { u with inputs := pre ++ y :: post }) <$>
        signedInput c keypairs t pre.length x := by
  rw [signInput]
  split
  · next hc =>
    rw [signedInput, if_pos (Or.inl hc)]
    obtain ⟨⟩ := u
    subst hu
    rfl
  · next hc =>
    refine (congrArg (Prod.fst <$> ·)
      (foldlM_signSlot c keypairs t x pre post hpre _ u x.signatures hu ht)).trans ?_
    rw [← foldlM_writeSlot_digest c keypairs t pre.length (Bool.eq_false_iff.2 hc), Functor.map_map]

/-- An outer loop over entries `b` of the inputs whose step at `pre.length`, with no input before
it spending the outpoint of `inp b`, puts back `inp b` as `f pre.length b` changes it, and `f`
changes only signatures: from input `done.length` on, when the inputs spend distinct outpoints, the
loop changes every input on its own. -/
theorem foldlM_inputs {β : Type} (t : Transaction) (inp : β → XTxInput)
    (step : Transaction → Nat × β → Option Transaction) (f : Nat → β → Option XTxInput)
    (hstep : ∀ {u : Transaction} {pre post : List XTxInput} {b : β},
      u.inputs = pre ++ inp b :: post → u.sighashTx = t.sighashTx →
      (inp b).prevout ∉ pre.map XTxInput.prevout →
      step u (pre.length, b) = (fun y => { u with inputs := pre ++ y :: post }) <$> f pre.length b)
    (hf : ∀ {i : Nat} {b : β} {y : XTxInput}, f i b = some y →
      ∃ s, y = { inp b with signatures := s }) :
    ∀ (rest : List β) (done : List XTxInput) (u : Transaction), u.inputs = done ++ rest.map inp →
      u.sighashTx = t.sighashTx →
      (done.map XTxInput.prevout ++ rest.map (XTxInput.prevout ∘ inp)).Nodup →
      (List.enumFrom done.length rest).foldlM step u =
        (fun ys => { u with inputs := done ++ ys }) <$>
          (List.enumFrom done.length rest).mapM fun p => f p.1 p.2
  | [], done, u, hu, _, _ => by
    obtain ⟨⟩ := u
    subst hu
    rfl
  | b :: rest, done, u, hu, ht, hnd => by
    have hpre : (inp b).prevout ∉ done.map XTxInput.prevout := fun hm =>
      (List.nodup_append.1 hnd).2.2 hm (List.mem_cons_self _ _)
    rw [List.enumFrom_cons, List.foldlM_cons, List.mapM_cons, hstep hu ht hpre]
    cases hy : f done.length b with
    | none => rfl
    | some y =>
      obtain ⟨s, rfl⟩ := hf hy
      have ih := foldlM_inputs t inp step f hstep hf rest
        (done ++ [{ inp b with signatures := s }])
        { u with inputs := done ++ { inp b with signatures := s } :: rest.map inp } (by simp)
        (by rw [sighashTx_signatures (s := (inp b).signatures) hu]; exact ht)
        (by rw [List.map_append, List.append_assoc]; exact hnd)
      rw [List.length_append, List.length_singleton] at ih
      refine ih.trans ?_
      cases List.mapM (fun p => f p.1 p.2) (List.enumFrom (done.length + 1) rest) with
      | none => rfl
      | some ys => simp

/-- The outer loop of `sign` from input `done.length` on, over a transaction whose inputs before
it are signed, when the inputs spend distinct outpoints. -/
theorem foldlM_signInput (t : Transaction) (rest done : List XTxInput) (u : Transaction)
    (hu : u.inputs = done ++ rest) (ht : u.sighashTx = t.sighashTx)
    (hnd : (done.map XTxInput.prevout ++ rest.map XTxInput.prevout).Nodup) :
    (List.enumFrom done.length rest).foldlM (signInput c keypairs) u =
      (fun ys => { u with inputs := done ++ ys }) <$>
        (List.enumFrom done.length rest).mapM fun p => signedInput c keypairs t p.1 p.2 :=
  foldlM_inputs t id (signInput c keypairs) (signedInput c keypairs t)
    (fun hu ht hpre => signInput_eq c keypairs hu ht hpre) (signedInput_eq_some c keypairs)
    rest done u (by rwa [List.map_id]) ht hnd


end Loops

/-! ## What `sign` writes -/

section Signed

variable (c : SignConfig) (keypairs : XPublicKey → Option Bytes)

/-- A signature followed by the sighash byte is never the `NO_SIGNATURE` placeholder. -/
theorem signature_ne_noSignature (sig : Bytes) : sig ++ [nHashType] ≠ noSignature := by
  rcases sig with _ | ⟨a, _ | ⟨b, sig⟩⟩ <;> simp [noSignature]
  decide

/-- A slot whose key `keypairs` holds is, once signed, a signature with the key's secret followed
by the sighash byte. -/
theorem signedSlot_eq_some_of_held {h : Bytes} {keys : List XPublicKey} {j : Nat}
    {sec s s' : Bytes} (hk : keys[j]?.bind keypairs = some sec)
    (hs : signedSlot c keypairs h keys j s = some s') :
    ∃ sig, c.ecdsaSign sec h = some sig ∧ s' = sig ++ [nHashType] := by
  rw [signedSlot_of_some c keypairs h hk] at hs
  obtain ⟨sig, hsig, rfl⟩ := Option.map_eq_some'.1 hs
  exact ⟨sig, hsig, rfl⟩

/-- An incomplete input with a key that `keypairs` holds, signed on its own: its digest exists,
every key held has a slot, and the input's slots are those of `signedSignatures`. -/
theorem signedInput_of_held {t : Transaction} {i : Nat} {x y : XTxInput}
    (hc : x.isComplete = false) {k : XPublicKey} (hk : k ∈ x.xPubkeys) (hsec : keypairs k ≠ none)
    (hy : signedInput c keypairs t i x = some y) :
    ∃ h ss, t.digest c i x = some h ∧
      (∀ j (hj : j < x.xPubkeys.length), (keypairs x.xPubkeys[j]).isSome →
        j < x.signatures.length) ∧
      signedSignatures c keypairs h x = some ss ∧ y = { x with signatures := ss } := by
  rw [signedInput, if_neg (by simpa [hc] using ⟨k, hk, hsec⟩), guard] at hy
  split at hy
  · next hg =>
    simp only [Option.pure_def, Option.bind_eq_bind, Option.some_bind, Option.bind_eq_some,
      Option.some.injEq] at hy
    obtain ⟨h, hd, ss, hss, rfl⟩ := hy
    exact ⟨h, ss, hd, hg, hss, rfl⟩
  · cases hy

/-- Signing each input on its own leaves what the digest reads of the transaction. -/
theorem sighashTx_of_mapM {t : Transaction} {ys : List XTxInput}
    (hys : t.inputs.enum.mapM (fun p => signedInput c keypairs t p.1 p.2) = some ys) :
    { t with inputs := ys }.sighashTx = t.sighashTx := by
  let strip := fun i : XTxInput => { i.toTxInput with scriptSig := [] }
  have hmap := map_of_mapM_eq_some (g := strip ∘ Prod.snd) (h := strip)
    (fun p y hp => by obtain ⟨s, rfl⟩ := signedInput_eq_some c keypairs hp; rfl) hys
  rw [← List.map_map, List.enum_map_snd] at hmap
  simp only [sighashTx, hmap]

end Signed

/-- A configuration for examples: `hash160` is the identity, the digest, of a value in `int64`, is
the input index before the script code, and a signature, with a secret that is not empty, is the
secret before the digest. -/
def sampleSignConfig : SignConfig :=
  { sampleTxConfig with
    hash160 := id
    signatureHash := fun _ i value scriptCode _ =>
      if -2 ^ 63 ≤ value ∧ value < 2 ^ 63 then some (i.toUInt8 :: scriptCode) else none
    ecdsaSign := fun sec h => if sec = [] then none else some (sec ++ h) }

/-- A P2PK input of 1000 satoshis spending output 0 of the transaction whose hash is `b` repeated,
waiting for the signature of the key `[2, b]`. -/
def sampleSignInput (b : UInt8) : XTxInput :=
  { prevHash := List.replicate 32 b, prevIdx := 0, scriptSig := [], sequence := 0xffffffff,
    value := some 1000, xPubkeys := [.pubkey [2, b]], threshold := 1,
    signatures := [noSignature], scriptType := .P2PK }

/-- Two inputs waiting for their signatures, and `sampleOutput`. -/
def sampleSignTransaction : Transaction :=
  ⟨1, [sampleSignInput 1, sampleSignInput 2], [sampleOutput], 0⟩

/-- A wallet holding the private keys of both inputs of `sampleSignTransaction`. -/
def sampleKeypairs (k : XPublicKey) : Option Bytes :=
  if k = .pubkey [2, 1] then some [0x11] else if k = .pubkey [2, 2] then some [0x22] else none

/-- `sampleSignTransaction` signed: each slot holds the key, the digest and the sighash byte. -/
def sampleSignedTransaction : Transaction :=
  ⟨1, [{ sampleSignInput 1 with signatures := [[0x11, 0, 2, 2, 1, 0xac, 0x41]] },
    { sampleSignInput 2 with signatures := [[0x22, 1, 2, 2, 2, 0xac, 0x41]] }], [sampleOutput], 0⟩

section Results

variable (c : SignConfig) (keypairs : XPublicKey → Option Bytes)

/-- `sign`, when the inputs spend distinct outpoints, signs every input on its own against the
transaction it was given. -/
theorem sign_eq_map_signedInput (t : Transaction) (hnd : (t.inputs.map XTxInput.prevout).Nodup) :
    sign c keypairs t = (fun ins => { t with inputs := ins }) <$>
      t.inputs.enum.mapM fun p => signedInput c keypairs t p.1 p.2 :=
  foldlM_signInput c keypairs t t.inputs [] t rfl rfl hnd

theorem sampleSign_eq_map_signedInput :
    (sampleSignTransaction.inputs.map XTxInput.prevout).Nodup ∧
      sign sampleSignConfig sampleKeypairs sampleSignTransaction =
        (fun ins => { sampleSignTransaction with inputs := ins }) <$>
          sampleSignTransaction.inputs.enum.mapM fun p =>
            signedInput sampleSignConfig sampleKeypairs sampleSignTransaction p.1 p.2 :=
  ⟨by decide, sign_eq_map_signedInput sampleSignConfig sampleKeypairs _ (by decide)⟩

/-- Each key that `keypairs` holds, of an input that was incomplete, signs in its slot the digest
of that input in the signed transaction: signing one input invalidates no signature of another. -/
theorem sign_signs_final_digest (t t' : Transaction) (hnd : (t.inputs.map XTxInput.prevout).Nodup)
    (hs : sign c keypairs t = some t') {i : Nat} {x : XTxInput} (hx : t.inputs[i]? = some x)
    (hc : x.isComplete = false) {j : Nat} {k : XPublicKey} {sec : Bytes}
    (hk : x.xPubkeys[j]? = some k) (hsec : keypairs k = some sec) :
    ∃ y h sig, t'.inputs[i]? = some y ∧ t'.digest c i y = some h ∧
      c.ecdsaSign sec h = some sig ∧ y.signatures[j]? = some (sig ++ [nHashType]) := by
  have hsign := foldlM_signInput c keypairs t t.inputs [] t rfl rfl hnd
  simp only [List.length_nil, ← List.enum_eq_enumFrom, List.nil_append] at hsign
  obtain ⟨ys, hys, rfl⟩ := Option.map_eq_some'.1 (hsign.symm.trans hs)
  obtain ⟨y, hy, hsy⟩ := getElem?_of_mapM_eq_some hys (by rw [List.getElem?_enum, hx]; rfl)
  obtain ⟨h, ss, hd, hg, hss, rfl⟩ :=
    signedInput_of_held c keypairs hc (List.getElem?_mem hk)
      (by rw [hsec]; exact Option.some_ne_none _) hsy
  obtain ⟨hj, hkj⟩ := List.getElem?_eq_some_iff.1 hk
  obtain ⟨s', hs', hslot⟩ := getElem?_of_signedSignatures c keypairs hss
    (List.getElem?_eq_getElem (hg j hj (by rw [hkj, hsec]; rfl)))
  obtain ⟨sig, hsig, rfl⟩ :=
    signedSlot_eq_some_of_held c keypairs (by rw [hk, Option.some_bind, hsec]) hslot
  exact ⟨_, h, sig, hy, by rw [digest_congr c (sighashTx_of_mapM c keypairs hys), hd], hsig, hs'⟩

theorem sampleSign_signs_final_digest :
    (sampleSignTransaction.inputs.map XTxInput.prevout).Nodup ∧
      sign sampleSignConfig sampleKeypairs sampleSignTransaction = some sampleSignedTransaction ∧
      sampleSignTransaction.inputs[1]? = some (sampleSignInput 2) ∧
      (sampleSignInput 2).isComplete = false ∧
      (sampleSignInput 2).xPubkeys[0]? = some (.pubkey [2, 2]) ∧
      sampleKeypairs (.pubkey [2, 2]) = some [0x22] ∧
      ∃ y h sig, sampleSignedTransaction.inputs[1]? = some y ∧
        sampleSignedTransaction.digest sampleSignConfig 1 y = some h ∧
        sampleSignConfig.ecdsaSign [0x22] h = some sig ∧
        y.signatures[0]? = some (sig ++ [nHashType]) :=
  ⟨by decide, by decide, rfl, rfl, rfl, rfl,
    @sign_signs_final_digest sampleSignConfig sampleKeypairs sampleSignTransaction
      sampleSignedTransaction (by decide) (by decide) 1 (sampleSignInput 2) rfl rfl 0
      (.pubkey [2, 2]) [0x22] rfl rfl⟩

end Results

end Transaction

end ElectrumSV
