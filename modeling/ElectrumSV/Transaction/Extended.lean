import ElectrumSV.Transaction.Offsets
import ElectrumSV.Transaction.ScriptSig

/-!
# Reading a signed transaction back with its metadata

`Transaction.from_extended_bytes` reads a transaction as `from_bytes` does, with
`XTxInput.read_extended` for each input: unless the input spends the coinbase's zero hash, it
takes the script type, threshold, keys and signatures that `parse_script_sig` finds in the
script_sig, and after an input that is then incomplete it reads an eight-byte value. `to_bytes`
writes each input's script_sig with `create_script_sig` from those same fields.

For a complete transaction whose inputs are P2PK, P2PKH or MULTISIG_P2SH inputs with keys given
by their public-key bytes, bitcoinx's pushes, and one pushable signature per key, reading the
bytes of `to_bytes` back with `from_extended_bytes` gives every input its script type and
threshold, the signatures that `create_script_sig` wrote, its keys (but for P2PK, whose
script_sig holds none), and no value; the outputs come back with their wire form
(`fromExtendedBytes_toBytes`).
-/

namespace ElectrumSV

namespace Transaction

/-- `Transaction.read_extended`. -/
def readExtended (c : ScriptSigConfig) : Reader Transaction := do
  let version ← readLeInt32
  let inputs ← xreadList (XTxInput.readExtended c)
  let outputs ← xreadList XTxOutput.read
  let locktime ← readLeUint32
  pure ⟨version, inputs, outputs, locktime⟩

/-- `Transaction.from_extended_bytes`. -/
def fromExtendedBytes (c : ScriptSigConfig) (raw : Bytes) : Option Transaction :=
  (readExtended c ⟨raw, 0⟩).map Prod.fst

end Transaction

namespace XTxInput

/-- The arguments that `read_extended` hands to `parse_script_sig`. -/
def emptyKwargs : ScriptSigKwargs := { xPubkeys := [], threshold := 0, signatures := [] }

/-- The input that `read_extended` builds from the wire fields, the arguments that
`parse_script_sig` filled, and the offset of the script_sig. -/
def ofKwargs (ti : TxInput) (kwargs : ScriptSigKwargs) (offset : Nat) : XTxInput :=
  { prevHash := ti.prevHash, prevIdx := ti.prevIdx, scriptSig := ti.scriptSig,
    sequence := ti.sequence, value := none, xPubkeys := kwargs.xPubkeys,
    threshold := kwargs.threshold, signatures := kwargs.signatures,
    scriptType := kwargs.scriptType.getD .NONE, scriptOffset := offset,
    scriptLength := ti.scriptSig.length }

/-- Reading what `TxInput.to_bytes` wrote for an input that does not spend the zero hash and
whose script_sig parses into a complete input. -/
theorem readExtended_packed (c : ScriptSigConfig) {ti : TxInput} (h32 : ti.prevHash.length = 32)
    (hnz : ti.prevHash ≠ List.replicate 32 0) (hs : ti.scriptSig ≠ []) {kw : ScriptSigKwargs}
    (hkw : parseScriptSig c ti.scriptSig emptyKwargs = .ok kw)
    (hc : ∀ offset, (ofKwargs ti kw offset).isComplete) {b : Bytes} (hb : ti.toBytes = some b)
    (rest : Bytes) (pos : Nat) :
    ∃ offset, readExtended c ⟨b ++ rest, pos⟩ =
      some (ofKwargs ti kw offset, ⟨rest, pos + b.length⟩) := by
  simp only [TxInput.toBytes, Option.bind_eq_bind, Option.bind_eq_some, Option.pure_def,
    Option.some.injEq] at hb
  obtain ⟨idx, hidx, scr, hscr, seq, hseq, rfl⟩ := hb
  obtain ⟨hd, -, rfl, hC⟩ := xreadVarbytes_packVarbytes hscr (seq ++ rest) (pos + 32 + 4)
  have hA := readBytes_append ti.prevHash (idx ++ (hd ++ ti.scriptSig ++ (seq ++ rest))) pos
  have hB := readUnsigned_packUnsigned hidx (hd ++ ti.scriptSig ++ (seq ++ rest)) (pos + 32)
  have hD := readUnsigned_packUnsigned hseq rest
    (pos + 32 + 4 + (hd ++ ti.scriptSig).length)
  rw [h32] at hA
  simp only [List.append_assoc] at hA hB
  simp only [xreadVarbytes, List.append_assoc] at hC
  refine ⟨pos + 32 + 4 + hd.length, ?_⟩
  have hkw' : parseScriptSig c ti.scriptSig { xPubkeys := [], threshold := 0, signatures := [] } =
      .ok kw := hkw
  simp only [readExtended, bind, StateT.bind, List.append_assoc, Option.bind_eq_bind, hA, hB,
    readLeUint32, xreadVarbytes, hC, hD, Option.some_bind, guard, ne_eq, add_eq_zero,
    OfNat.ofNat_ne_zero, and_false, false_and, not_false_eq_true, if_true, pure, StateT.pure, hnz,
    hkw', Except.toOption, StateT.lift]
  have hc' := hc (pos + 32 + 4 + hd.length)
  simp only [ofKwargs] at hc'
  simp only [List.length_eq_zero, hs, not_false_eq_true, if_true, StateT.pure, Option.pure_def,
    Option.some_bind, hc', Bool.not_true, Bool.false_eq_true, if_false, List.length_append,
    length_of_packUnsigned hidx, length_of_packUnsigned hseq, h32, Option.some.injEq,
    Prod.mk.injEq, Stream.mk.injEq, true_and, ofKwargs]
  omega

/-- An input that `read_extended` reads back from what `to_bytes` wrote: a P2PK, P2PKH or
MULTISIG_P2SH input that does not spend the zero hash, with keys given by their public-key bytes,
`1 ≤ m ≤ n ≤ 16` (`m = n = 1` for the single-key types), one signature per key that bitcoinx's
`push_item` writes as a push, and complete. -/
structure ExtendedReadable (c : ScriptSigConfig) (x : XTxInput) : Prop where
  prevHash_length : x.prevHash.length = 32
  prevHash_ne_zero : x.prevHash ≠ List.replicate 32 0
  scriptType_mem : x.scriptType = .P2PK ∨ x.scriptType = .P2PKH ∨ x.scriptType = .MULTISIG_P2SH
  pubkeys : ∃ keyBytes : List Bytes, x.xPubkeys = keyBytes.map .pubkey ∧
    ∀ b ∈ keyBytes, IsPubkeyBytes c.toTxConfig b
  threshold_bounds : 1 ≤ x.threshold ∧ x.threshold ≤ x.xPubkeys.length ∧ x.xPubkeys.length ≤ 16
  single_key : x.scriptType ≠ .MULTISIG_P2SH → x.threshold = 1 ∧ x.xPubkeys.length = 1
  signatures_length : x.signatures.length = x.xPubkeys.length
  signatures_pushable : ∀ s ∈ x.signatures, SigPushable s
  complete : x.isComplete

/-- What `read_extended` gives back for an input `x` that `to_bytes` wrote: its wire form, no
value, its script type and threshold, the signatures that `create_script_sig` wrote, and its keys
(none for P2PK, whose script_sig holds no key). -/
structure ExtendedCopy (c : TxConfig) (x y : XTxInput) : Prop where
  wire : XTxInput.toTxInput <$> x.withScriptSig c = some y.toTxInput
  value : y.value = none
  scriptType : y.scriptType = x.scriptType
  threshold : y.threshold = x.threshold
  signatures : y.signatures =
    if x.scriptType = .MULTISIG_P2SH then bareMultisignatures x.threshold x.signatures
    else x.signatures
  xPubkeys : y.xPubkeys = if x.scriptType = .P2PK then [] else x.xPubkeys

theorem bareMultisignatures_idem (m : Nat) (sigs : List Bytes) :
    bareMultisignatures m (bareMultisignatures m sigs) = bareMultisignatures m sigs := by
  have h := filter_bareMultisignatures m sigs
  simp only [bareMultisignatures, sliceTo, Nat.cast_nonneg, if_true, Int.toNat_ofNat] at h ⊢
  rw [h, List.take_take, min_self]

section ReadBack

variable {c : ScriptSigConfig} {x : XTxInput}

theorem ExtendedReadable.xPubkeys_ne_nil (hx : x.ExtendedReadable c) : x.xPubkeys ≠ [] :=
  List.ne_nil_of_length_pos (by have := hx.threshold_bounds; omega)

theorem ExtendedReadable.threshold_eq (hx : x.ExtendedReadable c) :
    ∃ m : Nat, x.threshold = m ∧ 1 ≤ m ∧ m ≤ x.xPubkeys.length ∧ x.xPubkeys.length ≤ 16 := by
  have := hx.threshold_bounds
  obtain ⟨m, hm⟩ := Int.eq_ofNat_of_zero_le (show 0 ≤ x.threshold by omega)
  exact ⟨m, hm, by omega⟩

/-- An input with the threshold of `x` and the signatures that `create_script_sig` wrote for it
is complete. -/
theorem ExtendedReadable.isComplete_copy (hx : x.ExtendedReadable c) {y : XTxInput}
    (hth : y.threshold = x.threshold)
    (hsig : y.signatures = if x.scriptType = .MULTISIG_P2SH then
      bareMultisignatures x.threshold x.signatures else x.signatures) : y.isComplete := by
  obtain ⟨m, hm, hm1, -⟩ := hx.threshold_eq
  have hs : x.signatures ≠ [] := by
    rw [← List.length_pos, hx.signatures_length]
    exact List.length_pos.2 hx.xPubkeys_ne_nil
  have hcopy : y.isComplete = { x with threshold := m, signatures := y.signatures }.isComplete := by
    rw [XTxInput.isComplete, hth, hm]
    rfl
  rw [hcopy, hsig]
  split
  · rw [hm, isComplete_bareMultisignatures m x hm1 hm hs]
    exact hx.complete
  · rw [← hm]
    exact hx.complete

/-- `to_bytes` writes again the script_sig that was read back. -/
theorem ExtendedReadable.withScriptSig_copy (hx : x.ExtendedReadable c) {y : XTxInput}
    (hy : ExtendedCopy c.toTxConfig x y) :
    XTxInput.toTxInput <$> y.withScriptSig c.toTxConfig = some y.toTxInput := by
  by_cases hnil : y.xPubkeys = []
  · rw [withScriptSig_of_nil _ hnil]
    rfl
  have hcreate : createScriptSig c.toTxConfig y.scriptType y.threshold y.xPubkeys y.signatures =
      createScriptSig c.toTxConfig x.scriptType x.threshold x.xPubkeys x.signatures := by
    have hkeys := hy.xPubkeys
    rw [hy.scriptType, hy.threshold, hy.signatures, hkeys]
    by_cases h1 : x.scriptType = .P2PK
    · rw [hkeys, if_pos h1] at hnil
      exact absurd rfl hnil
    by_cases h2 : x.scriptType = .MULTISIG_P2SH
    · obtain ⟨m, hm, -⟩ := hx.threshold_eq
      rw [if_neg h1, if_pos h2, hm, h2]
      simp only [createScriptSig, bareMultisignatures_idem]
    · rw [if_neg h1, if_neg h2]
  have hwire := hy.wire
  rw [withScriptSig, if_pos hx.xPubkeys_ne_nil] at hwire
  rw [withScriptSig, if_pos hnil, hcreate]
  cases hs : createScriptSig c.toTxConfig x.scriptType x.threshold x.xPubkeys x.signatures with
  | none => rw [hs] at hwire; cases hwire
  | some s =>
    rw [hs] at hwire
    have hsig : y.scriptSig = s := (congrArg TxInput.scriptSig (Option.some.inj hwire)).symm
    rw [← hsig]
    rfl

variable (hpush : c.pushItem = pushItem) (hint : c.pushInt = pushInt)
include hpush hint

/-- `to_bytes` writes the script_sig of `create_script_sig`, and `parse_script_sig`, started
from the arguments of `read_extended`, reads it as the input's script type, threshold, written
signatures and keys. -/
theorem ExtendedReadable.parseScriptSig_withScriptSig (hx : x.ExtendedReadable c) :
    ∃ s kw, x.withScriptSig c.toTxConfig = some { x with scriptSig := s } ∧
      parseScriptSig c s emptyKwargs = .ok kw ∧ kw.scriptType = some x.scriptType ∧
      kw.threshold = x.threshold ∧
      kw.signatures = (if x.scriptType = .MULTISIG_P2SH then
        bareMultisignatures x.threshold x.signatures else x.signatures) ∧
      kw.xPubkeys = if x.scriptType = .P2PK then [] else x.xPubkeys := by
  obtain ⟨keyBytes, hk, hkeys⟩ := hx.pubkeys
  rw [withScriptSig, if_pos hx.xPubkeys_ne_nil]
  rcases hx.scriptType_mem with ht | ht | ht
  · -- P2PK: the one signature, pushed alone
    obtain ⟨hm, hn⟩ := hx.single_key (by rw [ht]; decide)
    obtain ⟨s, hs⟩ := List.length_eq_one.1 (hx.signatures_length.trans hn)
    refine ⟨_, _, by simp [ht, hs, createScriptSig, hpush],
      parseScriptSig_p2pk c (hx.signatures_pushable s (by simp [hs])) emptyKwargs, by rw [ht],
      hm.symm, by simp [ht, hs], by simp [ht]; rfl⟩
  · -- P2PKH: the signature, then the key
    obtain ⟨hm, hn⟩ := hx.single_key (by rw [ht]; decide)
    obtain ⟨s, hs⟩ := List.length_eq_one.1 (hx.signatures_length.trans hn)
    obtain ⟨b, rfl⟩ := List.length_eq_one.1 (by rwa [hk, List.length_map] at hn)
    have hb := hkeys b (.head _)
    refine ⟨_, _, by simp [ht, hs, hk, createScriptSig, hpush, hb.1],
      parseScriptSig_p2pkh c (hx.signatures_pushable s (by simp [hs])) hb emptyKwargs,
      by rw [ht], hm.symm, by simp [ht, hs], by simp [ht, hk]⟩
  · -- MULTISIG_P2SH: `OP_0`, the signatures written for the threshold, the nested script
    obtain ⟨m, hm, hm1, hmn, hn⟩ := hx.threshold_eq
    rw [hk, List.length_map] at hmn hn
    have hbounds : 1 ≤ m ∧ m ≤ keyBytes.length ∧ keyBytes.length ≤ 16 := ⟨hm1, hmn, hn⟩
    have hprep : ∀ s ∈ bareMultisignatures m x.signatures, SigPushable s := fun s hs =>
      (mem_bareMultisignatures m x.signatures hs).elim (hx.signatures_pushable s)
        fun h => h ▸ ⟨by decide, rfl, by decide⟩
    have hne : bareMultisignatures m x.signatures ≠ [] :=
      List.ne_nil_of_length_pos (by rw [length_bareMultisignatures]; omega)
    refine ⟨_, _, by rw [ht, hm, hk, createScriptSig_p2sh hpush hint hkeys hbounds]; rfl,
      parseScriptSig_p2sh hpush hint hkeys hbounds hne hprep emptyKwargs, by rw [ht], hm.symm,
      by simp [ht, hm], by simp [ht, hk]⟩

/-- `read_extended` reads each such input back from what `to_bytes` wrote. -/
theorem readExtended_readsBack :
    Reader.ReadsBack (readExtended c) (ExtendedReadable c) (toBytes c.toTxConfig)
      (ExtendedCopy c.toTxConfig) := by
  intro x hx b rest pos hb
  obtain ⟨s, kw, hw, hkw, hty, hth, hsig, hkeys⟩ := hx.parseScriptSig_withScriptSig hpush hint
  rw [toBytes, hw, Option.bind_eq_bind, Option.some_bind] at hb
  -- an empty script_sig parses as nothing
  have hs : s ≠ [] := by
    rintro rfl
    cases hkw
    cases hty
  obtain ⟨offset, hr⟩ := @readExtended_packed c { x.toTxInput with scriptSig := s }
    hx.prevHash_length hx.prevHash_ne_zero hs kw hkw
    (fun _ => hx.isComplete_copy hth hsig) b hb rest pos
  exact ⟨_, hr, by rw [hw]; rfl, rfl, by simp [ofKwargs, hty], hth, hsig, hkeys⟩

end ReadBack

end XTxInput

namespace Transaction

section ReadBack

variable {c : ScriptSigConfig} (hpush : c.pushItem = pushItem) (hint : c.pushInt = pushInt)
include hpush hint

/-- Reading what `to_bytes` wrote for a transaction of such inputs with `read_extended`. -/
theorem readExtended_toBytes {t : Transaction} (hin : ∀ x ∈ t.inputs, x.ExtendedReadable c)
    {raw : Bytes} (h : t.toBytes c.toTxConfig = some raw) (rest : Bytes) (pos : Nat) :
    ∃ t', readExtended c ⟨raw ++ rest, pos⟩ = some (t', ⟨rest, pos + raw.length⟩) ∧
      t'.version = t.version ∧
      List.Forall₂ (XTxInput.ExtendedCopy c.toTxConfig) t.inputs t'.inputs ∧
      t'.outputs.map XTxOutput.toTxOutput = t.outputs.map XTxOutput.toTxOutput ∧
      t'.locktime = t.locktime := by
  simp only [toBytes, Option.bind_eq_bind, Option.bind_eq_some, Option.pure_def,
    Option.some.injEq] at h
  obtain ⟨v, hv, ins, hins, outs, houts, lt, hlt, rfl⟩ := h
  have hA := readSigned_packSigned hv (ins ++ outs ++ lt ++ rest) pos
  obtain ⟨xs, hxs, hr⟩ := xreadList_packList (XTxInput.readExtended_readsBack hpush hint) hin
    hins (outs ++ lt ++ rest) (pos + 4)
  obtain ⟨ys, hys, hr'⟩ :=
    xreadList_packList (R := fun (o y : XTxOutput) => o.toTxOutput = y.toTxOutput)
      (fun o _ => XTxOutput.read_readsBack o.toTxOutput trivial) (fun _ _ => trivial) houts
      (lt ++ rest) (pos + 4 + ins.length)
  have hD := readUnsigned_packUnsigned hlt rest (pos + 4 + ins.length + outs.length)
  refine ⟨⟨t.version, xs, ys, t.locktime⟩, ?_, rfl, hr, ?_, rfl⟩
  · simp only [List.append_assoc] at hA
    simp only [List.append_assoc, Nat.add_assoc] at hxs hys hD
    simp only [readExtended, bind, StateT.bind, List.append_assoc, Option.bind_eq_bind,
      readLeInt32, hA, hxs, hys, readLeUint32, hD, Option.some_bind, pure, StateT.pure,
      List.length_append, length_of_packSigned hv, length_of_packUnsigned hlt, Nat.add_assoc]
  · rw [← List.forall₂_eq_eq_eq, List.forall₂_map_left_iff, List.forall₂_map_right_iff]
    exact hr'.flip.imp fun _ _ h => h.symm

/-- `from_extended_bytes(to_bytes())` on a transaction of such inputs: each input comes back as
`ExtendedCopy` says, so the transaction is complete, and it has the wire form of the one written,
so that `to_bytes` writes the same bytes again. -/
theorem fromExtendedBytes_toBytes {t : Transaction} (hin : ∀ x ∈ t.inputs, x.ExtendedReadable c)
    {raw : Bytes} (h : t.toBytes c.toTxConfig = some raw) :
    ∃ t', fromExtendedBytes c raw = some t' ∧
      List.Forall₂ (XTxInput.ExtendedCopy c.toTxConfig) t.inputs t'.inputs ∧ t'.isComplete ∧
      t'.toTx c.toTxConfig = t.toTx c.toTxConfig ∧ t'.toBytes c.toTxConfig = some raw := by
  obtain ⟨t', hr, hv, hins, hout, hlt⟩ := readExtended_toBytes hpush hint hin h [] 0
  rw [List.append_nil] at hr
  -- each input read back is complete and writes again the script_sig it was read with
  have hcopy : ∀ y ∈ t'.inputs, y.isComplete ∧
      XTxInput.toTxInput <$> y.withScriptSig c.toTxConfig = some y.toTxInput :=
    forall_mem_right_of_forall₂ (fun x _ ⟨hx, hxy⟩ =>
        ⟨hx.isComplete_copy hxy.threshold hxy.signatures, hx.withScriptSig_copy hxy⟩)
      ((List.forall₂_and_left _ _).2 ⟨hin, hins⟩)
  have hwire : t.inputs.mapM (fun i => XTxInput.toTxInput <$> i.withScriptSig c.toTxConfig) =
      some (t'.inputs.map XTxInput.toTxInput) :=
    mapM_eq_some_iff_forall₂.2 (List.forall₂_map_left_iff.2 (hins.flip.imp fun _ _ h => h.wire))
  have hwire' : t'.inputs.mapM (fun i => XTxInput.toTxInput <$> i.withScriptSig c.toTxConfig) =
      some (t'.inputs.map XTxInput.toTxInput) :=
    mapM_eq_some_iff_forall₂.2 (List.forall₂_map_left_iff.2
      (List.forall₂_same.2 fun y hy => (hcopy y hy).2))
  have htx : t'.toTx c.toTxConfig = t.toTx c.toTxConfig := by
    simp only [toTx, hwire, hwire', hv, hout, hlt]
  refine ⟨t', by simp [fromExtendedBytes, hr], hins, List.all_eq_true.2 fun y hy => (hcopy y hy).1,
    htx, ?_⟩
  rw [toBytes_eq, htx, ← toBytes_eq, h]

end ReadBack

/-- A signed P2PK input, a signed P2PKH input and a 1-of-2 MULTISIG_P2SH input signed by its
first key. -/
def sampleExtendedInputs : List XTxInput :=
  [{ prevHash := List.replicate 32 1, prevIdx := 0, scriptSig := [], sequence := 0xffffffff,
     xPubkeys := [.pubkey (sampleKeyBytes 1)], threshold := 1, signatures := [[0x30, 1]],
     scriptType := .P2PK },
   { prevHash := List.replicate 32 2, prevIdx := 1, scriptSig := [], sequence := 0xffffffff,
     xPubkeys := [.pubkey (sampleKeyBytes 2)], threshold := 1, signatures := [[0x30, 2]],
     scriptType := .P2PKH },
   { prevHash := List.replicate 32 3, prevIdx := 2, scriptSig := [], sequence := 0xffffffff,
     xPubkeys := [.pubkey (sampleKeyBytes 7), .pubkey (sampleKeyBytes 9)], threshold := 1,
     signatures := [[0x30, 3], noSignature], scriptType := .MULTISIG_P2SH }]

/-- The three inputs of `sampleExtendedInputs`, spent to `sampleOutput`. -/
def sampleExtendedTransaction : Transaction := ⟨1, sampleExtendedInputs, [sampleOutput], 0⟩

theorem sampleExtended_fromExtendedBytes_toBytes :
    (∀ x ∈ sampleExtendedTransaction.inputs, x.ExtendedReadable sampleScriptSigConfig) ∧
      ∃ raw, sampleExtendedTransaction.toBytes sampleScriptSigConfig.toTxConfig = some raw ∧
        ∃ t', fromExtendedBytes sampleScriptSigConfig raw = some t' ∧
          List.Forall₂ (XTxInput.ExtendedCopy sampleScriptSigConfig.toTxConfig)
            sampleExtendedTransaction.inputs t'.inputs ∧ t'.isComplete ∧
          t'.toTx sampleScriptSigConfig.toTxConfig =
            sampleExtendedTransaction.toTx sampleScriptSigConfig.toTxConfig ∧
          t'.toBytes sampleScriptSigConfig.toTxConfig = some raw := by
  have hin : ∀ x ∈ sampleExtendedTransaction.inputs, x.ExtendedReadable sampleScriptSigConfig := by
    simp only [sampleExtendedTransaction, sampleExtendedInputs, List.mem_cons,
      List.not_mem_nil, or_false, forall_eq_or_imp, forall_eq]
    refine ⟨⟨by decide, by decide, by decide, ⟨[sampleKeyBytes 1], rfl, ?_⟩, by decide, by decide,
      by decide, ?_, rfl⟩, ⟨by decide, by decide, by decide, ⟨[sampleKeyBytes 2], rfl, ?_⟩,
      by decide, by decide, by decide, ?_, rfl⟩, ⟨by decide, by decide, by decide,
      ⟨[sampleKeyBytes 7, sampleKeyBytes 9], rfl, ?_⟩, by decide, by decide, by decide, ?_, rfl⟩⟩
    all_goals first | (unfold IsPubkeyBytes; decide) | (unfold SigPushable; decide)
  exact ⟨hin, _, rfl, fromExtendedBytes_toBytes rfl rfl hin rfl⟩

end Transaction

end ElectrumSV
