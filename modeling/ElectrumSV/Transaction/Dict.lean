import ElectrumSV.Transaction.Wire

/-!
# Transactions as dictionaries

`Transaction.to_dict` writes the serialised transaction as hex, whether it is complete, the
context's description when it is non-empty, and, when the transaction is incomplete or
`force_signing_metadata` is set, the signing metadata of every input. The outputs' metadata is
written only when some output has keys. `Transaction.from_dict` parses the hex and puts back
whatever metadata the dictionary holds.

* `Transaction.dict_round_trip`: `from_dict(to_dict(t))` has the bytes and completeness of `t`;
  with metadata written, every input has its metadata back, and so does every output when some
  output has keys. When none has, every output comes back with script type `NONE`.
-/

namespace ElectrumSV

/-- `TransactionContext`, with the fields that `to_dict` and `from_dict` read or fill. -/
structure TransactionContext where
  description : Option String := none
  parentTransactions : TokenMap Transaction := ∅

/-- An entry of `'inputs'` in the dictionary of `to_dict`. -/
structure InputEntry where
  scriptType : Int
  threshold : Int
  value : Option Int
  signatures : List String
  xPubkeys : List XPublicKeyDict
  deriving DecidableEq, Repr

/-- An entry of `'outputs'` in the dictionary of `to_dict`. -/
structure OutputEntry where
  scriptType : Int
  xPubkeys : List XPublicKeyDict
  deriving DecidableEq, Repr

/-- The dictionary of `to_dict`; `none` is a missing key. -/
structure TxDict where
  version : Option Int := none
  hex : Option String := none
  complete : Option Bool := none
  description : Option String := none
  inputs : Option (List InputEntry) := none
  outputs : Option (List OutputEntry) := none
  prevTxs : Option (List String) := none
  deriving DecidableEq, Repr

namespace XTxInput

/-- The entry that `to_dict` writes for an input. -/
def toEntry (input : XTxInput) : InputEntry where
  scriptType := input.scriptType.toInt
  threshold := input.threshold
  value := input.value
  signatures := input.signatures.map hex
  xPubkeys := input.xPubkeys.map XPublicKey.toDict

/-- The body of the input loop of `from_dict`: the entry's metadata, set on the parsed input. -/
def applyEntry (c : TxConfig) (txin : XTxInput) (e : InputEntry) : Option XTxInput := do
  let scriptType ← ScriptType.ofInt? e.scriptType
  let value ← e.value
  let signatures ← e.signatures.mapM fromHex
  let xPubkeys ← e.xPubkeys.mapM (XPublicKey.fromDict c)
  pure { txin with scriptType := scriptType, threshold := e.threshold, value := some value,
                   signatures := signatures, xPubkeys := xPubkeys }

end XTxInput

namespace XTxOutput

/-- The entry that `to_dict` writes for an output. -/
def toEntry (txout : XTxOutput) : OutputEntry where
  scriptType := txout.scriptType.toInt
  xPubkeys := txout.xPubkeys.map XPublicKey.toDict

/-- The body of the output loop of `from_dict`. -/
def applyEntry (c : TxConfig) (txout : XTxOutput) (e : OutputEntry) : Option XTxOutput := do
  let scriptType ← ScriptType.ofInt? e.scriptType
  let xPubkeys ← e.xPubkeys.mapM (XPublicKey.fromDict c)
  pure { txout with scriptType := scriptType, xPubkeys := xPubkeys }

end XTxOutput

/-- `Tx.from_hex`. -/
def Transaction.fromHex (text : String) : Option Transaction :=
  ElectrumSV.fromHex text >>= Transaction.fromBytes

/-- The loop of `from_dict` over the entries of one list, after its length assertion. -/
def applyEntries {α ε : Type} (apply : α → ε → Option α) (items : List α) (entries : List ε) :
    Option (List α) := do
  guard (items.length = entries.length)
  (items.zip entries).mapM fun p => apply p.1 p.2

namespace Transaction

/-- `Transaction.to_dict`. -/
def toDict (c : TxConfig) (t : Transaction) (context : TransactionContext)
    (forceSigningMetadata : Bool) : Option TxDict := do
  let raw ← t.toBytes c
  let complete := t.isComplete
  let description := context.description.filter (· != "")
  if forceSigningMetadata || !complete then
    let outputData :=
      if t.outputs.any (·.xPubkeys ≠ []) then t.outputs.map XTxOutput.toEntry else []
    pure { version := some 1, hex := some (hex raw), complete := some complete,
           description := description, inputs := some (t.inputs.map XTxInput.toEntry),
           outputs := if outputData ≠ [] then some outputData else none }
  else
    pure { version := some 1, hex := some (hex raw), complete := some complete,
           description := description }

/-- The `prev_txs` loop of `from_dict`: each parent filed under its hash. -/
def addParent (c : TxConfig) (parents : TokenMap Transaction) (text : String) :
    Option (TokenMap Transaction) := do
  let ptx ← Transaction.fromHex text
  let raw ← ptx.toBytes c
  pure (parents.insert (c.doubleSha256 raw) ptx)

/-- `Transaction.from_dict`; `none` is its `KeyError`, `ValueError` or `AssertionError`. -/
def fromDict (c : TxConfig) (data : TxDict) : Option (Transaction × TransactionContext) := do
  let version := data.version.getD 0
  let text ← data.hex
  let tx ← Transaction.fromHex text
  if version = 1 then
    let inputs ← match data.inputs with
      | some entries => applyEntries (XTxInput.applyEntry c) tx.inputs entries
      | none => pure tx.inputs
    let outputs ← match data.outputs with
      | some entries => applyEntries (XTxOutput.applyEntry c) tx.outputs entries
      | none => pure tx.outputs
    let tx := { tx with inputs := inputs, outputs := outputs }
    let parents ← match data.prevTxs with
      | some texts => texts.foldlM (addParent c) ∅
      | none => pure ∅
    let complete ← data.complete
    guard (tx.isComplete = complete)
    pure (tx, { description := data.description, parentTransactions := parents })
  else if version = 0 then do
    guard (tx.isComplete = true)
    pure (tx, {})
  else pure (tx, {})

end Transaction

/-! ## Putting the metadata back -/

namespace XTxInput

/-- `x` with the signing metadata of `y`, as the input loop of `from_dict` leaves `x`. -/
def withMetadataOf (x y : XTxInput) : XTxInput :=
  { x with scriptType := y.scriptType, threshold := y.threshold, value := y.value,
           signatures := y.signatures, xPubkeys := y.xPubkeys }

theorem applyEntry_toEntry (c : TxConfig) (x : XTxInput) {y : XTxInput} (hv : y.value.isSome)
    (hk : ∀ k ∈ y.xPubkeys, (c.publicKeyBytes k).isSome) :
    x.applyEntry c y.toEntry = some (x.withMetadataOf y) := by
  obtain ⟨v, hv⟩ := Option.isSome_iff_exists.1 hv
  have hs : (y.signatures.map hex).mapM fromHex = some y.signatures :=
    mapM_map_eq_some fun b _ => fromHex_hex b
  have hx : (y.xPubkeys.map XPublicKey.toDict).mapM (XPublicKey.fromDict c) = some y.xPubkeys :=
    mapM_map_eq_some fun k hk' => XPublicKey.fromDict_toDict c (hk k hk')
  simp [applyEntry, toEntry, withMetadataOf, hv, hs, hx, -List.mapM]

/-- An input read from the bytes that `y` writes, given the metadata of `y`, writes those bytes
again. -/
theorem withScriptSig_withMetadataOf (c : TxConfig) {x y : XTxInput} {ti : TxInput}
    (hx0 : x.xPubkeys = []) (hx : toTxInput <$> x.withScriptSig c = some ti)
    (hy : toTxInput <$> y.withScriptSig c = some ti) :
    toTxInput <$> (x.withMetadataOf y).withScriptSig c = some ti := by
  rw [withScriptSig_of_nil c hx0, Option.map_eq_map, Option.map_some', Option.some_inj] at hx
  subst hx
  by_cases hk : y.xPubkeys = []
  · rw [withScriptSig_of_nil c (by simpa [withMetadataOf] using hk)]
    rfl
  · simp only [withScriptSig, hk, ne_eq, not_false_eq_true, if_true, Option.map_eq_map,
      Option.map_map, Option.map_eq_some'] at hy
    obtain ⟨s, hs, he⟩ := hy
    simp only [withScriptSig, withMetadataOf, hk, ne_eq, not_false_eq_true, if_true, hs,
      Option.map_eq_map, Option.map_some', Option.some.injEq]
    rw [← he]
    simp [← he]

end XTxInput

namespace XTxOutput

/-- `x` with the metadata of `y`, as the output loop of `from_dict` leaves `x`. -/
def withMetadataOf (x y : XTxOutput) : XTxOutput :=
  { x with scriptType := y.scriptType, xPubkeys := y.xPubkeys }

theorem applyEntry_toEntry (c : TxConfig) (x : XTxOutput) {y : XTxOutput}
    (hk : ∀ k ∈ y.xPubkeys, (c.publicKeyBytes k).isSome) :
    x.applyEntry c y.toEntry = some (x.withMetadataOf y) := by
  have hx : (y.xPubkeys.map XPublicKey.toDict).mapM (XPublicKey.fromDict c) = some y.xPubkeys :=
    mapM_map_eq_some fun k hk' => XPublicKey.fromDict_toDict c (hk k hk')
  simp [applyEntry, toEntry, withMetadataOf, hx, -List.mapM]

end XTxOutput

theorem mapM_zip_map {α β ε : Type} {apply : α → ε → Option α} {f : β → ε} {g : α → β → α} :
    ∀ {xs : List α} {ys : List β}, xs.length = ys.length →
      (∀ x, ∀ y ∈ ys, apply x (f y) = some (g x y)) →
      (xs.zip (ys.map f)).mapM (fun p => apply p.1 p.2) = some (List.zipWith g xs ys)
  | [], [], _, _ => rfl
  | x :: xs, y :: ys, hl, h => by
    rw [List.map_cons, List.zip_cons_cons, List.mapM_cons, h x y (.head _),
      mapM_zip_map (Nat.succ.inj hl) fun x y hy => h x y (.tail _ hy)]
    rfl

theorem applyEntries_map {α β ε : Type} {apply : α → ε → Option α} {f : β → ε} {g : α → β → α}
    {xs : List α} {ys : List β} (hl : xs.length = ys.length)
    (h : ∀ x, ∀ y ∈ ys, apply x (f y) = some (g x y)) :
    applyEntries apply xs (ys.map f) = some (List.zipWith g xs ys) := by
  simp only [applyEntries, List.length_map, hl, guard, if_true, pure_bind, mapM_zip_map hl h]

/-! ## The round trip -/

namespace Transaction

section RoundTrip

variable {c : TxConfig} {t t0 : Transaction} {tx : Tx} {raw : Bytes}

/-- The inputs that `from_dict` makes: those read from the hex, with the metadata of `t`. -/
def inputsWithMetadataOf (t0 t : Transaction) : List XTxInput :=
  List.zipWith XTxInput.withMetadataOf t0.inputs t.inputs

/-- The outputs that `from_dict` makes, when `to_dict` wrote their metadata. -/
def outputsWithMetadataOf (t0 t : Transaction) : List XTxOutput :=
  List.zipWith XTxOutput.withMetadataOf t0.outputs t.outputs

theorem toTx_inputsWithMetadataOf (h0 : t0.toTx c = some tx)
    (hm0 : ∀ i ∈ t0.inputs, i.xPubkeys = []) (ht : t.toTx c = some tx) (outputs : List XTxOutput)
    (ho : outputs.map XTxOutput.toTxOutput = tx.outputs) :
    ({ t0 with inputs := inputsWithMetadataOf t0 t, outputs := outputs } : Transaction).toTx c =
      some tx := by
  rw [toTx_eq_some_iff, mapM_eq_some_iff_forall₂] at h0 ht ⊢
  refine ⟨h0.1, ?_, ho, h0.2.2.2⟩
  unfold inputsWithMetadataOf
  refine forall₂_zipWith ?_ hm0 h0.2.1 ht.2.1
  exact fun _ _ _ hx0 hx hy => XTxInput.withScriptSig_withMetadataOf c hx0 hx hy

end RoundTrip

theorem dict_round_trip (c : TxConfig) (t : Transaction) (tx : Tx) (raw : Bytes)
    (context : TransactionContext) (force : Bool) (ht : t.toTx c = some tx)
    (hin : ∀ i ∈ tx.inputs, i.Readable) (hraw : t.toBytes c = some raw)
    (hval : ∀ i ∈ t.inputs, i.value.isSome)
    (hkeys : ∀ i ∈ t.inputs, ∀ k ∈ i.xPubkeys, (c.publicKeyBytes k).isSome)
    (hkeys' : ∀ o ∈ t.outputs, ∀ k ∈ o.xPubkeys, (c.publicKeyBytes k).isSome) :
    ∃ d t' context', t.toDict c context force = some d ∧ fromDict c d = some (t', context') ∧
      t'.toBytes c = some raw ∧ t'.isComplete = t.isComplete ∧
      context' = { description := context.description.filter (· != "") } ∧
      ((force || !t.isComplete) = true →
        t'.inputs.map XTxInput.signingMetadata = t.inputs.map XTxInput.signingMetadata ∧
        if t.outputs.any (·.xPubkeys ≠ []) then
          t'.outputs.map XTxOutput.signingMetadata = t.outputs.map XTxOutput.signingMetadata
        else ∀ o ∈ t'.outputs, o.signingMetadata = (.NONE, [])) := by
  obtain ⟨t0, h0, ht0, hraw0⟩ := fromBytes_toBytes c ht hin hraw
  obtain ⟨hmi, hmo⟩ := fromBytes_returns h0
  have hhex : Transaction.fromHex (hex raw) = some t0 := by
    simp [Transaction.fromHex, fromHex_hex, h0]
  have hm0 : ∀ i ∈ t0.inputs, i.xPubkeys = [] := fun i hi => congrArg (·.2.2.2.2) (hmi i hi)
  have hlenI : t0.inputs.length = t.inputs.length := by
    rw [toTx_eq_some_iff, mapM_eq_some_iff_forall₂] at ht ht0
    exact ht0.2.1.length_eq.symm.trans ht.2.1.length_eq
  have hlenO : t0.outputs.length = t.outputs.length := by
    rw [toTx_eq_some_iff] at ht ht0
    rw [← List.length_map t0.outputs XTxOutput.toTxOutput, ht0.2.2.1, ← ht.2.2.1, List.length_map]
  cases hm : (force || !t.isComplete)
  · -- nothing but the hex: `t` is complete, and so is what is read back
    have hc : t.isComplete = true := by cases force <;> simp_all
    have hc0 : t0.isComplete = true := List.all_eq_true.2 fun i hi => by
      have : i.signatures = [] := congrArg (·.2.2.2.1) (hmi i hi)
      simp [XTxInput.isComplete, this]
    refine ⟨_, t0, _, by simp [toDict, hraw, hm]; rfl, ?_, hraw0, hc0.trans hc.symm, rfl,
      fun h => absurd h (by simp [hm])⟩
    simp [fromDict, hhex, hc, hc0]
  · -- the inputs' metadata is written and put back
    have hb : tx.toBytes = some raw := by rwa [toBytes_eq, ht, Option.some_bind] at hraw
    have hins : applyEntries (XTxInput.applyEntry c) t0.inputs (t.inputs.map XTxInput.toEntry) =
        some (inputsWithMetadataOf t0 t) :=
      applyEntries_map hlenI fun x y hy => XTxInput.applyEntry_toEntry c x (hval y hy) (hkeys y hy)
    have hcI : (inputsWithMetadataOf t0 t).all XTxInput.isComplete = t.isComplete :=
      all_eq_of_map_eq (map_zipWith_of_right (g := XTxInput.withMetadataOf) (fun _ _ => rfl) hlenI)
    have hmdI : (inputsWithMetadataOf t0 t).map XTxInput.signingMetadata =
        t.inputs.map XTxInput.signingMetadata :=
      map_zipWith_of_right (g := XTxInput.withMetadataOf) (fun _ _ => rfl) hlenI
    have hto0 : t0.outputs.map XTxOutput.toTxOutput = tx.outputs :=
      ((toTx_eq_some_iff c t0 tx).1 ht0).2.2.1
    by_cases hany : t.outputs.any (·.xPubkeys ≠ []) = true
    · -- and so is the outputs'
      have hne : t.outputs.map XTxOutput.toEntry ≠ [] := by
        obtain ⟨o, ho, -⟩ := List.any_eq_true.1 hany
        simpa using List.ne_nil_of_mem ho
      have houts : applyEntries (XTxOutput.applyEntry c) t0.outputs
          (t.outputs.map XTxOutput.toEntry) = some (outputsWithMetadataOf t0 t) :=
        applyEntries_map hlenO fun x y hy => XTxOutput.applyEntry_toEntry c x (hkeys' y hy)
      have hto : (outputsWithMetadataOf t0 t).map XTxOutput.toTxOutput = tx.outputs := by
        rw [outputsWithMetadataOf,
          map_zipWith_of_left (g := XTxOutput.withMetadataOf) (p := XTxOutput.toTxOutput)
            (fun _ _ => rfl) hlenO, hto0]
      refine ⟨_,
        { t0 with inputs := inputsWithMetadataOf t0 t, outputs := outputsWithMetadataOf t0 t }, _,
        by simp only [toDict, hraw, hm, hany, if_true, if_pos hne]; rfl, ?_,
        by rw [toBytes_eq, toTx_inputsWithMetadataOf ht0 hm0 ht _ hto, Option.some_bind, hb],
        hcI, rfl, fun _ => ⟨hmdI, ?_⟩⟩
      · simp [fromDict, hhex, hins, houts, isComplete, hcI]
      · rw [if_pos hany]
        exact map_zipWith_of_right (g := XTxOutput.withMetadataOf) (fun _ _ => rfl) hlenO
    · -- the outputs come back as they were read
      refine ⟨_, { t0 with inputs := inputsWithMetadataOf t0 t }, _,
        by simp only [toDict, hraw, hm, hany, if_true, if_false, ne_eq, not_true_eq_false]; rfl, ?_,
        by rw [toBytes_eq, toTx_inputsWithMetadataOf ht0 hm0 ht _ hto0, Option.some_bind, hb],
        hcI, rfl, fun _ => ⟨hmdI, ?_⟩⟩
      · simp [fromDict, hhex, hins, isComplete, hcI]
      · rw [if_neg hany]
        exact hmo

end Transaction

/-- A key for examples: public key bytes that `sampleTxConfig` accepts. -/
def sampleKey : XPublicKey := .pubkey [2, 1]

/-- `sampleInput` waiting for the signature of `sampleKey`. -/
def unsignedInput : XTxInput :=
  { sampleInput with value := some 2000, xPubkeys := [sampleKey], threshold := 1,
                     signatures := [noSignature], scriptType := .P2PKH }

/-- `sampleOutput` marked as a P2PKH output, with no keys. -/
def paymentOutput : XTxOutput := { sampleOutput with scriptType := .P2PKH }

/-- An incomplete transaction spending `unsignedInput` to `paymentOutput`. -/
def unsignedTransaction : Transaction := ⟨1, [unsignedInput], [paymentOutput], 0⟩

/-- The wire form of `unsignedTransaction`: the script_sig pushes the placeholder and the key. -/
def unsignedTx : Tx :=
  ⟨1, [{ sampleInput.toTxInput with scriptSig := [1, 0xff, 2, 2, 1] }], [sampleOutput.toTxOutput], 0⟩

/-- The 66 bytes of `unsignedTransaction`. -/
def unsignedRaw : Bytes :=
  [1, 0, 0, 0, 1] ++ List.replicate 32 7 ++ [1, 0, 0, 0, 5, 1, 0xff, 2, 2, 1, 0xff, 0xff, 0xff, 0xff,
    1, 0xe8, 3, 0, 0, 0, 0, 0, 0, 1, 0x51, 0, 0, 0, 0]

theorem unsignedTransaction_dict_round_trip :
    ∃ d t' context', unsignedTransaction.toDict sampleTxConfig ⟨some "rent", ∅⟩ false = some d ∧
      Transaction.fromDict sampleTxConfig d = some (t', context') ∧
      t'.toBytes sampleTxConfig = some unsignedRaw ∧ t'.isComplete = unsignedTransaction.isComplete ∧
      context' = { description := some "rent" } ∧
      ((false || !unsignedTransaction.isComplete) = true →
        t'.inputs.map XTxInput.signingMetadata =
          unsignedTransaction.inputs.map XTxInput.signingMetadata ∧
        if unsignedTransaction.outputs.any (·.xPubkeys ≠ []) then
          t'.outputs.map XTxOutput.signingMetadata =
            unsignedTransaction.outputs.map XTxOutput.signingMetadata
        else ∀ o ∈ t'.outputs, o.signingMetadata = (.NONE, [])) :=
  Transaction.dict_round_trip sampleTxConfig unsignedTransaction unsignedTx unsignedRaw
    ⟨some "rent", ∅⟩ false rfl (by decide) rfl (by decide) (by decide) (by decide)

theorem output_script_type_lost :
    unsignedTransaction.isComplete = false ∧
    unsignedTransaction.outputs.map (·.scriptType) = [.P2PKH] ∧
    ((unsignedTransaction.toDict sampleTxConfig {} false).bind
      (Transaction.fromDict sampleTxConfig)).map (fun r => r.1.outputs.map (·.scriptType)) =
      some [.NONE] := by
  refine ⟨rfl, rfl, ?_⟩
  have hd : unsignedTransaction.toDict sampleTxConfig {} false =
      some { version := some 1, hex := some (hex unsignedRaw), complete := some false,
             inputs := some (unsignedTransaction.inputs.map XTxInput.toEntry) } := rfl
  rw [hd, Option.some_bind]
  simp only [Transaction.fromDict, Transaction.fromHex, Option.bind_eq_bind, Option.some_bind,
    fromHex_hex]
  decide

end ElectrumSV
