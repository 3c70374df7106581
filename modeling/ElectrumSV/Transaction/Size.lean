import ElectrumSV.Script.Accumulator
import ElectrumSV.Transaction.ScriptSig

/-!
# Size estimates

`Transaction.estimated_size` prices a transaction before it is signed. A complete transaction
counts each input at its current size; an incomplete one counts each input with the script_sig
that `create_script_sig` writes for `threshold` dummy signatures of 72 bytes. Outputs count their
script, apart from data carried after `OP_RETURN`, and the total is `sum` of the two parts.
`TransactionSize` lives in `types.py`, outside the repository; the model adds its parts
separately, and `sum` of the result does not depend on that choice.

* `estimatedSize_of_complete`: for a complete transaction whose script_sigs are those that
  `to_bytes` writes, the estimate is the length of `to_bytes`.
* `length_toBytes_le_estimatedSize`: signing an incomplete input with signatures of at most 72
  bytes writes no more than its estimate, for every script type except an accumulator whose
  threshold is below its number of keys.
* `estimated_size_bounds`: both statements for a whole transaction.
-/

namespace ElectrumSV

/-- `TransactionSize` of `types.py`: standard bytes and data bytes, added part by part. -/
structure TransactionSize where
  standardSize : Nat
  dataSize : Nat
  deriving DecidableEq, Repr

instance : Add TransactionSize :=
  ⟨fun a b => ⟨a.standardSize + b.standardSize, a.dataSize + b.dataSize⟩⟩

/-- `sum(size)`: the bytes of both kinds. -/
def TransactionSize.total (s : TransactionSize) : Nat := s.standardSize + s.dataSize

/-- bitcoinx `varint_len`: the length of `pack_varint(n)`. -/
def varintLen (n : Nat) : Nat :=
  if n < 253 then 1 else if n < 65536 then 3 else if n < 4294967296 then 5 else 9

/-- `dummy_signature`: 72 zero bytes, the longest signature with its sighash byte. -/
def dummySignature : Bytes := List.replicate 72 0

/-- `DATA_PREFIX1`: `OP_RETURN`. -/
def dataPrefix1 : Bytes := [0x6a]

/-- `DATA_PREFIX2`: `OP_FALSE OP_RETURN`. -/
def dataPrefix2 : Bytes := [0x00, 0x6a]

namespace XTxInput

/-- `XTxInput.size`: the length of `TxInput.to_bytes`, with the script_sig the input holds. -/
def size (i : XTxInput) : Option Nat := List.length <$> i.toTxInput.toBytes

/-- `XTxInput.estimated_size`: the size with the script_sig that `create_script_sig` writes for
`threshold` dummy signatures, after `to_public_key()` of every key. -/
def estimatedSize (c : TxConfig) (i : XTxInput) : Option TransactionSize := do
  let _ ← i.xPubkeys.mapM c.publicKeyBytes
  let scriptSig ← createScriptSig c i.scriptType i.threshold i.xPubkeys
    (List.replicate i.threshold.toNat dummySignature)
  let size ← { i with scriptSig := scriptSig }.size
  pure ⟨size, 0⟩

end XTxInput

/-- `XTxOutput.estimated_size`: the value, the script's length and the script, whose bytes count
as data after an `OP_RETURN`. -/
def XTxOutput.estimatedSize (o : XTxOutput) : TransactionSize :=
  let scriptBytes := o.scriptPubkey
  let standardSize := 8 + varintLen scriptBytes.length
  if dataPrefix1.isPrefixOf scriptBytes || dataPrefix2.isPrefixOf scriptBytes then
    ⟨standardSize, scriptBytes.length⟩
  else ⟨standardSize + scriptBytes.length, 0⟩

/-- `Transaction.estimated_size`: version, counts and locktime, then each input at its size when
the transaction is complete and at its estimate otherwise, then each output. -/
def Transaction.estimatedSize (c : TxConfig) (t : Transaction) : Option TransactionSize := do
  let isComplete := t.isComplete
  let standardSize := 4 + varintLen t.inputs.length + varintLen t.outputs.length + 4
  let inputSizes ← t.inputs.mapM fun input =>
    if isComplete then (fun n => (⟨n, 0⟩ : TransactionSize)) <$> input.size
    else input.estimatedSize c
  pure ((inputSizes ++ t.outputs.map XTxOutput.estimatedSize).foldl (· + ·) ⟨standardSize, 0⟩)

/-! ## Lengths of what `to_bytes` writes -/

theorem length_of_packVarint {n : Nat} {b : Bytes} (h : packVarint n = some b) :
    b.length = varintLen n := by
  unfold packVarint at h
  unfold varintLen
  split at h
  · cases h
    simp [*]
  · split at h <;> [skip; split at h] <;> obtain ⟨p, hp, rfl⟩ := Option.map_eq_some'.1 h <;>
      simp [*, length_of_packUnsigned hp, packLeUint16, packLeUint32, packLeUint64] at hp ⊢

theorem varintLen_mono {a b : Nat} (h : a ≤ b) : varintLen a ≤ varintLen b := by
  unfold varintLen
  split_ifs <;> omega

theorem packList_eq_some {α : Type} {f : α → Option Bytes} {l : List α} {b : Bytes}
    (h : packList f l = some b) :
    ∃ count body, packVarint l.length = some count ∧ packEach f l = some body ∧
      b = count ++ body := by
  simp only [packList, Option.bind_eq_bind, Option.bind_eq_some, Option.pure_def,
    Option.some.injEq] at h
  obtain ⟨count, hc, body, hb, rfl⟩ := h
  exact ⟨count, body, hc, hb, rfl⟩

theorem TxInput.length_of_toBytes {i : TxInput} {b : Bytes} (h : i.toBytes = some b) :
    b.length = i.prevHash.length + 4 + varintLen i.scriptSig.length + i.scriptSig.length + 4 := by
  simp only [TxInput.toBytes, packVarbytes, Option.bind_eq_bind, Option.bind_eq_some,
    Option.pure_def, Option.some.injEq, Option.map_eq_map, Option.map_eq_some'] at h
  obtain ⟨p, hp, _, ⟨v, hv, rfl⟩, q, hq, rfl⟩ := h
  simp [length_of_packUnsigned hp, length_of_packUnsigned hq, length_of_packVarint hv,
    packLeUint32] at *
  omega

theorem XTxOutput.length_of_toBytes {o : XTxOutput} {b : Bytes} (h : o.toBytes = some b) :
    b.length = o.estimatedSize.total := by
  simp only [XTxOutput.toBytes, TxOutput.toBytes, packVarbytes, Option.bind_eq_bind,
    Option.bind_eq_some, Option.pure_def, Option.some.injEq, Option.map_eq_map,
    Option.map_eq_some'] at h
  obtain ⟨p, hp, _, ⟨v, hv, rfl⟩, rfl⟩ := h
  have hp' : p.length = 8 := length_of_packSigned hp
  simp only [XTxOutput.estimatedSize, TransactionSize.total]
  split <;> simp [hp', length_of_packVarint hv] <;> omega

@[simp] theorem TransactionSize.total_add (a b : TransactionSize) :
    (a + b).total = a.total + b.total := by
  change a.standardSize + b.standardSize + (a.dataSize + b.dataSize) = _
  simp only [total]
  omega

theorem total_foldl_add :
    ∀ (l : List TransactionSize) (init : TransactionSize),
      (l.foldl (· + ·) init).total = init.total + (l.map TransactionSize.total).sum
  | [], _ => rfl
  | s :: l, init => by
    rw [List.foldl_cons, total_foldl_add l, List.map_cons, List.sum_cons,
      TransactionSize.total_add, Nat.add_assoc]

theorem length_packEach_outputs :
    ∀ {l : List XTxOutput} {b : Bytes}, packEach XTxOutput.toBytes l = some b →
      b.length = (l.map fun o => o.estimatedSize.total).sum
  | [], _, h => by cases h; rfl
  | o :: l, _, h => by
    simp only [packEach, Option.bind_eq_bind, Option.bind_eq_some, Option.pure_def,
      Option.some.injEq] at h
    obtain ⟨bo, ho, bs, hs, rfl⟩ := h
    rw [List.length_append, XTxOutput.length_of_toBytes ho, length_packEach_outputs hs,
      List.map_cons, List.sum_cons]


/-! ## A complete transaction -/

theorem length_packEach_size {c : TxConfig} :
    ∀ {l : List XTxInput} {b : Bytes}, (∀ i ∈ l, i.withScriptSig c = some i) →
      packEach (XTxInput.toBytes c) l = some b →
        ∃ ss, l.mapM (fun i => (fun n => (⟨n, 0⟩ : TransactionSize)) <$> i.size) = some ss ∧
          (ss.map TransactionSize.total).sum = b.length
  | [], _, _, h => by
    cases h
    exact ⟨[], rfl, rfl⟩
  | i :: l, _, hs, h => by
    simp only [packEach, Option.bind_eq_bind, Option.bind_eq_some, Option.pure_def,
      Option.some.injEq] at h
    obtain ⟨bi, hi, bs, hbs, rfl⟩ := h
    obtain ⟨ss, hss, hsum⟩ := length_packEach_size (fun j hj => hs j (.tail _ hj)) hbs
    simp only [XTxInput.toBytes, hs i (.head _), Option.bind_eq_bind, Option.some_bind] at hi
    refine ⟨⟨bi.length, 0⟩ :: ss, ?_, ?_⟩
    · rw [List.mapM_cons, hss]
      simp [XTxInput.size, hi]
    · simp [hsum, TransactionSize.total]

/-- The estimate of a complete transaction whose script_sigs are those that `to_bytes` writes is
the length of `to_bytes`. -/
theorem estimatedSize_of_complete (c : TxConfig) {t : Transaction} (hc : t.isComplete = true)
    (hsync : ∀ i ∈ t.inputs, i.withScriptSig c = some i) {raw : Bytes}
    (h : t.toBytes c = some raw) :
    ∃ est, t.estimatedSize c = some est ∧ est.total = raw.length := by
  simp only [Transaction.toBytes, Option.bind_eq_bind, Option.bind_eq_some, Option.pure_def,
    Option.some.injEq] at h
  obtain ⟨v, hv, ins, hins, outs, houts, lt, hlt, rfl⟩ := h
  obtain ⟨ci, bi, hci, hbi, rfl⟩ := packList_eq_some hins
  obtain ⟨co, bo, hco, hbo, rfl⟩ := packList_eq_some houts
  obtain ⟨ss, hss, hsum⟩ := length_packEach_size hsync hbi
  have he : t.estimatedSize c = some ((ss ++ t.outputs.map XTxOutput.estimatedSize).foldl (· + ·)
      ⟨4 + varintLen t.inputs.length + varintLen t.outputs.length + 4, 0⟩) := by
    simp only [Transaction.estimatedSize, hc, if_true, hss, Option.bind_eq_bind, Option.some_bind,
      Option.pure_def]
  refine ⟨_, he, ?_⟩
  rw [total_foldl_add, List.map_append, List.sum_append, List.map_map]
  simp only [List.length_append, length_of_packSigned hv, length_of_packUnsigned hlt,
    length_of_packVarint hci, length_of_packVarint hco, length_packEach_outputs hbo, hsum,
    TransactionSize.total, Function.comp_def]
  omega


/-! ## Signing writes no more than the estimate -/

theorem length_pushItem_le {s : Bytes} (h : s.length ≤ 72) : (pushItem s).length ≤ 73 := by
  have hd : (pushData s).length = s.length + 1 := by
    simp [pushData, show s.length < 0x4c by omega]
  match s with
  | [] => decide
  | [_] =>
    simp only [pushItem]
    split_ifs <;> simp_all
  | _ :: _ :: _ =>
    simp only [pushItem]
    omega

theorem length_flatten_pushItem_le {l : List Bytes} (h : ∀ s ∈ l, s.length ≤ 72) :
    ((l.map pushItem).flatten).length ≤ l.length * 73 := by
  rw [List.length_flatten, List.map_map]
  simpa using List.sum_le_card_nsmul (l.map (List.length ∘ pushItem)) 73 (by
    simp only [List.mem_map, Function.comp]
    rintro _ ⟨s, hs, rfl⟩
    exact length_pushItem_le (h s hs))

theorem length_flatten_pushItem_dummy (k : Nat) :
    (((List.replicate k dummySignature).map pushItem).flatten).length = k * 73 := by
  simp [List.length_flatten, List.map_replicate,
    show (pushItem dummySignature).length = 73 from rfl]

theorem bareMultisignatures_dummy (k : Nat) :
    bareMultisignatures k (List.replicate k dummySignature) = List.replicate k dummySignature := by
  simp [bareMultisignatures, sliceTo, List.filter_replicate,
    show (dummySignature != noSignature) = true from rfl, List.take_replicate]

theorem length_bare_le {k : Nat} {sigs : List Bytes} (h : ∀ s ∈ sigs, s.length ≤ 72) :
    ((bareMultisignatures k sigs).map pushItem).flatten.length ≤
      ((bareMultisignatures k (List.replicate k dummySignature)).map pushItem).flatten.length := by
  rw [bareMultisignatures_dummy, length_flatten_pushItem_dummy]
  calc _ ≤ (bareMultisignatures k sigs).length * 73 := length_flatten_pushItem_le fun s hs =>
        (mem_bareMultisignatures k sigs hs).elim (h s) fun h' => h' ▸ by decide
    _ = k * 73 := by rw [length_bareMultisignatures]

theorem length_accumulatorSigPart_le {p : Bytes × Bytes} (h : p.1.length ≤ 72) :
    (accumulatorSigPart pushItem p).length ≤
      (accumulatorSigPart pushItem (dummySignature, p.2)).length := by
  have hd : accumulatorSigPart pushItem (dummySignature, p.2) =
      pushItem dummySignature ++ pushItem p.2 ++ [Ops.OP_TRUE] :=
    if_neg (show dummySignature ≠ noSignature by decide)
  rw [hd, accumulatorSigPart]
  have := length_pushItem_le h
  split <;> simp [show (pushItem dummySignature).length = 73 from rfl] <;> omega

theorem length_accumulatorParts_le :
    ∀ {sigs keyBytes : List Bytes}, sigs.length = keyBytes.length →
      (∀ s ∈ sigs, s.length ≤ 72) →
      (((sigs.zip keyBytes).map (accumulatorSigPart pushItem)).reverse.flatten).length ≤
        ((((List.replicate sigs.length dummySignature).zip keyBytes).map
          (accumulatorSigPart pushItem)).reverse.flatten).length
  | [], [], _, _ => le_rfl
  | s :: sigs, k :: keyBytes, hl, h => by
    have ih := length_accumulatorParts_le (Nat.succ.inj hl) fun s' hs' => h s' (.tail _ hs')
    have hs := length_accumulatorSigPart_le (p := (s, k)) (h s (.head _))
    simp only [List.length_cons, List.replicate_succ, List.zip_cons_cons, List.map_cons,
      List.reverse_cons, List.flatten_append, List.length_append,
      List.flatten_singleton] at ih hs ⊢
    omega


/-- The script_sig that `create_script_sig` writes for signatures of at most 72 bytes is no longer
than the one it writes for `threshold` dummy signatures, unless an accumulator has keys beyond
its threshold. -/
theorem length_createScriptSig_le {c : TxConfig} (hpush : c.pushItem = pushItem)
    {scriptType : ScriptType} {threshold : Int} {keys : List XPublicKey}
    {keyBytes sigs : List Bytes} (hkeys : keys.mapM c.publicKeyBytes = some keyBytes)
    (hthr : 1 ≤ threshold) (hacc : scriptType = .MULTISIG_ACCUMULATOR → threshold = keys.length)
    (hlen : sigs.length = keys.length) (hsigs : ∀ s ∈ sigs, s.length ≤ 72) {real est : Bytes}
    (hreal : createScriptSig c scriptType threshold keys sigs = some real)
    (hest : createScriptSig c scriptType threshold keys
      (List.replicate threshold.toNat dummySignature) = some est) :
    real.length ≤ est.length := by
  obtain ⟨k, rfl⟩ : ∃ k : Nat, threshold = (k + 1 : Nat) := ⟨threshold.toNat - 1, by omega⟩
  rw [Int.toNat_ofNat] at hest
  have hd : (pushItem dummySignature).length = 73 := rfl
  have hbare := length_bare_le (k := k + 1) hsigs
  cases scriptType with
  | P2PK =>
    simp only [createScriptSig, hpush, List.replicate_succ, Option.bind_eq_bind,
      Option.bind_eq_some, List.head?_eq_some_iff, Option.pure_def, Option.some.injEq] at hreal hest
    obtain ⟨s, ⟨ss, rfl⟩, rfl⟩ := hreal
    obtain ⟨_, ⟨_, rfl, -⟩, rfl⟩ := hest
    rw [hd]
    exact length_pushItem_le (hsigs s (.head _))
  | P2PKH =>
    simp only [createScriptSig, hpush, List.replicate_succ, Option.bind_eq_bind,
      Option.bind_eq_some, List.head?_eq_some_iff, Option.pure_def, Option.some.injEq] at hreal hest
    obtain ⟨s, ⟨ss, rfl⟩, key, ⟨ks, rfl⟩, kb, hkb, rfl⟩ := hreal
    obtain ⟨_, ⟨_, rfl, -⟩, _, ⟨_, ⟨⟩⟩, _, hkb', rfl⟩ := hest
    cases hkb.symm.trans hkb'
    have := length_pushItem_le (hsigs s (.head _))
    rw [List.length_append, List.length_append, hd]
    omega
  | MULTISIG_P2SH =>
    simp only [createScriptSig, hpush, Option.bind_eq_bind, Option.bind_eq_some,
      Option.pure_def, Option.some.injEq] at hreal hest
    obtain ⟨nested, hn, rfl⟩ := hreal
    obtain ⟨_, hn', rfl⟩ := hest
    cases hn.symm.trans hn'
    simp only [List.length_append]
    omega
  | MULTISIG_BARE =>
    simp only [createScriptSig, hpush, Option.pure_def, Option.some.injEq] at hreal hest
    subst hreal hest
    simp only [List.length_append]
    omega
  | MULTISIG_ACCUMULATOR =>
    have hk : k + 1 = sigs.length := by have := hacc rfl; omega
    rw [createScriptSig_accumulator c hkeys hlen, hpush, Option.some.injEq] at hreal
    rw [hk, createScriptSig_accumulator c hkeys (by rw [List.length_replicate, hlen]), hpush,
      Option.some.injEq] at hest
    subst hreal hest
    exact length_accumulatorParts_le
      (by rw [hlen, (List.forall₂_iff_zip.1 (mapM_eq_some_iff_forall₂.1 hkeys)).1]) hsigs
  | NONE => cases hreal
  | COINBASE => cases hreal


/-- An input signed with one signature of at most 72 bytes per key writes no more than its
estimate, unless it is an accumulator with keys beyond its threshold. -/
theorem length_toBytes_le_estimatedSize {c : TxConfig} (hpush : c.pushItem = pushItem)
    {i : XTxInput} (hthr : 1 ≤ i.threshold ∧ i.threshold ≤ i.xPubkeys.length)
    (hacc : i.scriptType = .MULTISIG_ACCUMULATOR → i.threshold = i.xPubkeys.length)
    {sigs : List Bytes} (hlen : sigs.length = i.xPubkeys.length)
    (hsigs : ∀ s ∈ sigs, s.length ≤ 72) {raw : Bytes} {est : TransactionSize}
    (hraw : XTxInput.toBytes c { i with signatures := sigs } = some raw)
    (hest : i.estimatedSize c = some est) : raw.length ≤ est.total := by
  have hne : i.xPubkeys ≠ [] := fun h => by simp only [h, List.length_nil] at hthr; omega
  simp only [XTxInput.toBytes, XTxInput.withScriptSig, ne_eq, hne, not_false_eq_true, if_true,
    Option.bind_eq_bind, Option.bind_eq_some, Option.map_eq_map, Option.map_eq_some'] at hraw
  simp only [XTxInput.estimatedSize, XTxInput.size, Option.bind_eq_bind, Option.bind_eq_some,
    Option.pure_def, Option.some.injEq, Option.map_eq_map, Option.map_eq_some'] at hest
  obtain ⟨_, ⟨real, hreal, rfl⟩, hb⟩ := hraw
  obtain ⟨kb, hkb, e, he, _, ⟨b, hb', rfl⟩, rfl⟩ := hest
  have hle := length_createScriptSig_le hpush hkb hthr.1 hacc hlen hsigs hreal he
  have := varintLen_mono hle
  rw [TxInput.length_of_toBytes hb, TxInput.length_of_toBytes hb']
  simp only [TransactionSize.total]
  omega


/-! ## A whole transaction -/

/-- `i'` is `i` with some of its `NO_SIGNATURE` slots filled by signatures of at most 72 bytes,
sighash byte included. -/
def XTxInput.FilledFrom (i' i : XTxInput) : Prop :=
  ∃ sigs, i' = { i with signatures := sigs } ∧
    List.Forall₂ (fun s' s => s' = s ∨ s = noSignature ∧ s'.length ≤ 72) sigs i.signatures

/-- `t'` is `t` with some `NO_SIGNATURE` slots of its inputs filled: a completion of `t` when every
input of `t'` is complete. -/
def Transaction.FilledFrom (t' t : Transaction) : Prop :=
  t'.version = t.version ∧ t'.outputs = t.outputs ∧ t'.locktime = t.locktime ∧
    List.Forall₂ XTxInput.FilledFrom t'.inputs t.inputs

theorem length_le_of_filled {sigs old : List Bytes}
    (h : List.Forall₂ (fun s' s => s' = s ∨ s = noSignature ∧ s'.length ≤ 72) sigs old)
    (hold : ∀ s ∈ old, s.length ≤ 72) : ∀ s ∈ sigs, s.length ≤ 72 := by
  induction h with
  | nil => intro s hs; cases hs
  | @cons s' s _ _ hs _ ih =>
    rintro x (_ | ⟨_, hx⟩)
    · exact hs.elim (fun h => h ▸ hold s (.head _)) And.right
    · exact ih (fun y hy => hold y (.tail _ hy)) x hx

/-- The inputs of a transaction write no more than the estimates of the inputs they are related
to, when each related pair does. -/
theorem length_packEach_le {c : TxConfig} {P : XTxInput → Prop}
    {R : XTxInput → XTxInput → Prop}
    (hR : ∀ {i' i raw est}, P i → R i' i → i'.toBytes c = some raw →
      i.estimatedSize c = some est → raw.length ≤ est.total) :
    ∀ {l' l : List XTxInput} {b : Bytes} {ests : List TransactionSize}, (∀ i ∈ l, P i) →
      List.Forall₂ R l' l → packEach (XTxInput.toBytes c) l' = some b →
        l.mapM (XTxInput.estimatedSize c) = some ests →
          b.length ≤ (ests.map TransactionSize.total).sum
  | _, _, _, _, _, .nil, h, he => by cases h; cases he; exact le_rfl
  | i' :: l', i :: l, b, ests, hP, .cons hr hl, h, he => by
    simp only [packEach, Option.bind_eq_bind, Option.bind_eq_some, Option.pure_def,
      Option.some.injEq] at h
    obtain ⟨bi, hi, bs, hbs, rfl⟩ := h
    rw [List.mapM_cons] at he
    simp only [Option.bind_eq_bind, Option.bind_eq_some, Option.pure_def, Option.some.injEq] at he
    obtain ⟨e, hei, es, hes, rfl⟩ := he
    have hhead := hR (hP i (.head _)) hr hi hei
    have htail := length_packEach_le hR (fun j hj => hP j (.tail _ hj)) hl hbs hes
    rw [List.length_append, List.map_cons, List.sum_cons]
    omega


/-- For a transaction whose inputs have `1 ≤ threshold ≤ len(x_pubkeys)` and one signature slot
per key: when it is complete and its script_sigs are those that `to_bytes` writes (and stores),
the estimate is the length of `to_bytes`; when it is incomplete, its signatures are at most 72
bytes and no accumulator input has keys beyond its threshold, filling its empty slots with
signatures of at most 72 bytes writes no more than the estimate. -/
theorem estimated_size_bounds (c : TxConfig) (hpush : c.pushItem = pushItem) (t : Transaction)
    (hinputs : ∀ i ∈ t.inputs, 1 ≤ i.threshold ∧ i.threshold ≤ i.xPubkeys.length ∧
      i.signatures.length = i.xPubkeys.length) :
    (t.isComplete = true → (∀ i ∈ t.inputs, i.withScriptSig c = some i) →
      ∀ raw, t.toBytes c = some raw →
        ∃ est, t.estimatedSize c = some est ∧ est.total = raw.length) ∧
    (t.isComplete = false →
      (∀ i ∈ t.inputs,
        i.scriptType = .MULTISIG_ACCUMULATOR → i.threshold = i.xPubkeys.length) →
      (∀ i ∈ t.inputs, ∀ s ∈ i.signatures, s.length ≤ 72) →
      ∀ t' : Transaction, t'.FilledFrom t → ∀ (raw : Bytes) (est : TransactionSize),
        t'.toBytes c = some raw → t.estimatedSize c = some est →
        raw.length ≤ est.total) := by
  refine ⟨fun hc hsync _ h => estimatedSize_of_complete c hc hsync h, ?_⟩
  intro hc hacc h72 t' ⟨hv, ho, hl, hins⟩ raw est hraw hest
  simp only [Transaction.toBytes, Option.bind_eq_bind, Option.bind_eq_some, Option.pure_def,
    Option.some.injEq] at hraw
  obtain ⟨v, hv', ins, hins', outs, houts, lt, hlt, rfl⟩ := hraw
  obtain ⟨ci, bi, hci, hbi, rfl⟩ := packList_eq_some hins'
  obtain ⟨co, bo, hco, hbo, rfl⟩ := packList_eq_some houts
  simp only [Transaction.estimatedSize, hc, Bool.false_eq_true, if_false, Option.bind_eq_bind,
    Option.bind_eq_some, Option.pure_def, Option.some.injEq] at hest
  obtain ⟨ests, hests, rfl⟩ := hest
  have hsum := length_packEach_le (P := fun i => i ∈ t.inputs)
    (fun hi ⟨sigs, hi', hs⟩ hraw hest => by
      obtain ⟨h1, h2, h3⟩ := hinputs _ hi
      subst hi'
      exact length_toBytes_le_estimatedSize hpush ⟨h1, h2⟩ (hacc _ hi) (hs.length_eq.trans h3)
        (length_le_of_filled hs (h72 _ hi)) hraw hest) (fun _ h => h) hins hbi hests
  rw [total_foldl_add, List.map_append, List.sum_append, List.map_map]
  simp only [List.length_append, length_of_packSigned hv', length_of_packUnsigned hlt,
    length_of_packVarint hci, length_of_packVarint hco, length_packEach_outputs hbo, ho,
    hins.length_eq, TransactionSize.total, Function.comp_def]
  omega


/-- An input spending a MULTISIG_ACCUMULATOR output to two sample keys, with the given threshold
and signatures, and the empty script_sig of a transaction being built. -/
def sampleAccumulatorInput (threshold : Int) (sigs : List Bytes) : XTxInput :=
  { prevHash := List.replicate 32 1, prevIdx := 0, scriptSig := [], sequence := 0xffffffff,
    xPubkeys := [.pubkey (sampleKeyBytes 7), .pubkey (sampleKeyBytes 9)], threshold := threshold,
    signatures := sigs, scriptType := .MULTISIG_ACCUMULATOR }

/-- A transaction with one `sampleAccumulatorInput` and `sampleOutput`. -/
def sampleAccumulatorTransaction (threshold : Int) (sigs : List Bytes) : Transaction :=
  ⟨1, [sampleAccumulatorInput threshold sigs], [sampleOutput], 0⟩

/-- A 2-of-2 accumulator with no signature yet. -/
theorem sampleAccumulator_estimated_size_bounds :
    ((sampleAccumulatorTransaction 2 [noSignature, noSignature]).isComplete = true →
      (∀ i ∈ (sampleAccumulatorTransaction 2 [noSignature, noSignature]).inputs,
        i.withScriptSig bitcoinxTxConfig = some i) →
      ∀ raw, (sampleAccumulatorTransaction 2 [noSignature, noSignature]).toBytes
          bitcoinxTxConfig = some raw →
        ∃ est, (sampleAccumulatorTransaction 2 [noSignature, noSignature]).estimatedSize
          bitcoinxTxConfig = some est ∧ est.total = raw.length) ∧
    ((sampleAccumulatorTransaction 2 [noSignature, noSignature]).isComplete = false →
      (∀ i ∈ (sampleAccumulatorTransaction 2 [noSignature, noSignature]).inputs,
        i.scriptType = .MULTISIG_ACCUMULATOR → i.threshold = i.xPubkeys.length) →
      (∀ i ∈ (sampleAccumulatorTransaction 2 [noSignature, noSignature]).inputs,
        ∀ s ∈ i.signatures, s.length ≤ 72) →
      ∀ t' : Transaction,
        t'.FilledFrom (sampleAccumulatorTransaction 2 [noSignature, noSignature]) →
        ∀ (raw : Bytes) (est : TransactionSize), t'.toBytes bitcoinxTxConfig = some raw →
          (sampleAccumulatorTransaction 2 [noSignature, noSignature]).estimatedSize
            bitcoinxTxConfig = some est → raw.length ≤ est.total) :=
  estimated_size_bounds bitcoinxTxConfig rfl _ (by decide)

set_option maxRecDepth 4000 in
/-- Three transactions whose inputs meet the conditions on thresholds and signature slots. A 1-of-2
accumulator signed by its first key writes a part for each key, one byte more than the estimate's
single dummy part. A 2-of-2 accumulator holding a signature of 100 bytes writes more than two dummy
parts once its other slot is filled. The signed 1-of-2 transaction is complete but holds the empty
script_sig it was built with, from which `estimated_size` counts its input. -/
theorem estimated_size_undercounts :
    (∀ i ∈ (sampleAccumulatorTransaction 1 [noSignature, noSignature]).inputs ++
        (sampleAccumulatorTransaction 2 [List.replicate 100 0x30, noSignature]).inputs,
      1 ≤ i.threshold ∧ i.threshold ≤ i.xPubkeys.length ∧
        i.signatures.length = i.xPubkeys.length) ∧
    (sampleAccumulatorTransaction 1 [List.replicate 72 0x30, noSignature]).FilledFrom
      (sampleAccumulatorTransaction 1 [noSignature, noSignature]) ∧
    (sampleAccumulatorTransaction 2 [List.replicate 100 0x30, List.replicate 72 0x30]).FilledFrom
      (sampleAccumulatorTransaction 2 [List.replicate 100 0x30, noSignature]) ∧
    (sampleAccumulatorTransaction 1 [noSignature, noSignature]).isComplete = false ∧
    (sampleAccumulatorTransaction 2 [List.replicate 100 0x30, noSignature]).isComplete = false ∧
    (sampleAccumulatorTransaction 1 [List.replicate 72 0x30, noSignature]).isComplete = true ∧
    (List.length <$> (sampleAccumulatorTransaction 1 [List.replicate 72 0x30, noSignature]).toBytes
      bitcoinxTxConfig) = some 170 ∧
    (TransactionSize.total <$> (sampleAccumulatorTransaction 1
      [noSignature, noSignature]).estimatedSize bitcoinxTxConfig) = some 169 ∧
    (List.length <$> (sampleAccumulatorTransaction 2
      [List.replicate 100 0x30, List.replicate 72 0x30]).toBytes bitcoinxTxConfig) = some 306 ∧
    (TransactionSize.total <$> (sampleAccumulatorTransaction 2
      [List.replicate 100 0x30, noSignature]).estimatedSize bitcoinxTxConfig) = some 277 ∧
    (TransactionSize.total <$> (sampleAccumulatorTransaction 1
      [List.replicate 72 0x30, noSignature]).estimatedSize bitcoinxTxConfig) = some 61 := by
  have h72 : (List.replicate 72 (0x30 : UInt8)).length ≤ 72 := by rw [List.length_replicate]
  refine ⟨by decide,
    ⟨rfl, rfl, rfl, .cons ⟨_, rfl, .cons (.inr ⟨rfl, h72⟩) (.cons (.inl rfl) .nil)⟩
      .nil⟩,
    ⟨rfl, rfl, rfl, .cons ⟨_, rfl, .cons (.inl rfl) (.cons (.inr ⟨rfl, h72⟩) .nil)⟩
      .nil⟩,
    rfl, rfl, rfl, ?_, ?_, ?_, ?_, ?_⟩ <;> rfl

end ElectrumSV
