import ElectrumSV.Transaction.Sign

/-!
# Adding signatures from a hardware device

`Transaction.update_signatures` takes one DER signature per input, without its sighash byte, as a
hardware device returns them. An incomplete transaction checks that there is one per input, and
each input that does not hold the signature yet looks, for `recid` from 0 to 3, for the first
public key that the signature recovers to over the input's digest, is one of the input's keys and
verifies; the signature and the sighash byte go into that key's slot. Recovery and verification
are bitcoinx's, parameters of the model.

The digest does not read signatures, so, as for `sign`, when the inputs spend distinct outpoints
the loop is the same as updating every input on its own against the transaction it was given
(`updateSignatures_eq_map_updatedInput`). From that: the call changes nothing but signature slots,
and a slot it changes is the slot of a key that the input's own signature recovers to and
verifies against over the input's digest (`updateSignatures_writes_recovered_slot`); and a second
call with the same signatures changes nothing (`updateSignatures_idempotent`).
-/

namespace ElectrumSV

/-- What `update_signatures` takes from bitcoinx beyond signing. A public key is compared by the
bytes of `TxConfig.publicKeyBytes`, in which form recovery returns it. -/
structure RecoverConfig extends SignConfig where
  /-- `der_signature_to_compact`; `none` where it raises. -/
  derSignatureToCompact : Bytes → Option Bytes
  /-- `PublicKey.from_recoverable_signature(rec_sig, pre_hash, None)`; `none` is its
  `InvalidSignature` or `ValueError`. -/
  fromRecoverableSignature : Bytes → Bytes → Option Bytes
  /-- Whether `public_key.verify_recoverable_signature(rec_sig, pre_hash, None)` returns without
  raising. -/
  verifyRecoverableSignature : Bytes → Bytes → Bytes → Bool

namespace Transaction

variable (c : RecoverConfig)

/-- The `recid` loop of `update_signatures`: the slot of the first key, over `recid` from 0 to 3,
that the compact signature recovers to over `preHash`, is one of `pubkeys` and verifies. -/
def recoveredSlot (pubkeys : List Bytes) (preHash recSigBase : Bytes) : Option Nat :=
  (List.range 4).findSome? fun recid =>
    let recSig := recSigBase ++ [recid.toUInt8]
    (c.fromRecoverableSignature recSig preHash).bind fun publicKey =>
      if publicKey ∈ pubkeys ∧ c.verifyRecoverableSignature publicKey recSig preHash then
        some (pubkeys.indexOf publicKey)
      else none

/-- One input of the loop of `update_signatures`, at `idx`, with the signature meant for it. -/
def updateInput (t : Transaction) : Nat × XTxInput × Bytes → Option Transaction
  | (idx, txin, signature) =>
    let fullSig := signature ++ [nHashType]
    if fullSig ∈ txin.signatures then some t
    else do
      let pubkeys ← txin.xPubkeys.mapM c.publicKeyBytes
      let preHash ← t.preimageHash c.toSignConfig txin
      let recSigBase ← c.derSignatureToCompact signature
      match recoveredSlot c pubkeys preHash recSigBase with
      | none => pure t
      | some j => do
        let txin ← txin.setSignature j fullSig
        pure { t with inputs := t.inputs.set idx txin }

/-- `Transaction.update_signatures`; `none` where it raises. -/
def updateSignatures (t : Transaction) (signatures : List Bytes) : Option Transaction :=
  if t.isComplete then some t
  else if t.inputs.length ≠ signatures.length then none
  else (t.inputs.zip signatures).enum.foldlM (updateInput c) t

/-- The input at index `i` updated on its own against `t` with `signature`. -/
def updatedInput (t : Transaction) (i : Nat) (txin : XTxInput) (signature : Bytes) :
    Option XTxInput :=
  let fullSig := signature ++ [nHashType]
  if fullSig ∈ txin.signatures then some txin
  else do
    let pubkeys ← txin.xPubkeys.mapM c.publicKeyBytes
    let preHash ← t.digest c.toSignConfig i txin
    let recSigBase ← c.derSignatureToCompact signature
    match recoveredSlot c pubkeys preHash recSigBase with
    | none => pure txin
    | some j => txin.setSignature j fullSig

/-! ## What one input writes -/

section Input

theorem getElem?_indexOf_of_mem {α : Type} [BEq α] [LawfulBEq α] {a : α} :
    ∀ {l : List α}, a ∈ l → l[l.indexOf a]? = some a
  | b :: l, h => by
    rw [List.indexOf_cons]
    by_cases hb : b = a
    · subst hb
      simp
    · rw [beq_false_of_ne hb, cond_false, List.getElem?_cons_succ]
      exact getElem?_indexOf_of_mem ((List.mem_cons.1 h).resolve_left (Ne.symm hb))

/-- The slot of the `recid` loop holds a key that the signature recovers to and verifies. -/
theorem recoveredSlot_eq_some {pubkeys : List Bytes} {preHash recSigBase : Bytes} {j : Nat}
    (h : recoveredSlot c pubkeys preHash recSigBase = some j) :
    ∃ recid : Nat, recid < 4 ∧ ∃ pk,
      c.fromRecoverableSignature (recSigBase ++ [recid.toUInt8]) preHash = some pk ∧
      c.verifyRecoverableSignature pk (recSigBase ++ [recid.toUInt8]) preHash = true ∧
      pubkeys[j]? = some pk := by
  obtain ⟨recid, hr, hf⟩ := List.exists_of_findSome?_eq_some h
  simp only [Option.bind_eq_some] at hf
  obtain ⟨pk, hpk, hif⟩ := hf
  split at hif
  · next hcond =>
    cases hif
    exact ⟨recid, List.mem_range.1 hr, pk, hpk, hcond.2, getElem?_indexOf_of_mem hcond.1⟩
  · cases hif

/-- What updating one input on its own can do: keep it where it holds the signature already or no
slot is recovered, or write the signature with the sighash byte into the recovered slot. -/
theorem updatedInput_cases {t : Transaction} {i : Nat} {x y : XTxInput} {sig : Bytes}
    (h : updatedInput c t i x sig = some y) :
    sig ++ [nHashType] ∈ x.signatures ∧ y = x ∨
      ∃ pubkeys preHash recSigBase, sig ++ [nHashType] ∉ x.signatures ∧
        x.xPubkeys.mapM c.publicKeyBytes = some pubkeys ∧
        t.digest c.toSignConfig i x = some preHash ∧
        c.derSignatureToCompact sig = some recSigBase ∧
        (recoveredSlot c pubkeys preHash recSigBase = none ∧ y = x ∨
          ∃ j, recoveredSlot c pubkeys preHash recSigBase = some j ∧ j < x.signatures.length ∧
            y = { x with signatures := x.signatures.set j (sig ++ [nHashType]) }) := by
  simp only [updatedInput] at h
  split at h
  · exact .inl ⟨‹_›, (Option.some.inj h).symm⟩
  next hnot =>
  simp only [Option.bind_eq_bind, Option.bind_eq_some] at h
  obtain ⟨pubkeys, hpub, preHash, hd, recSigBase, hb, h⟩ := h
  refine .inr ⟨pubkeys, preHash, recSigBase, hnot, hpub, hd, hb, ?_⟩
  split at h
  · exact .inl ⟨‹_›, (Option.some.inj h).symm⟩
  · unfold XTxInput.setSignature at h
    split at h
    · exact .inr ⟨_, ‹_›, ‹_›, (Option.some.inj h).symm⟩
    · cases h

/-- An input updated on its own changes only its signatures, and a slot it changes holds the
signature with the sighash byte, in the slot of a key that the signature recovers to and verifies
against over the input's digest. -/
theorem updatedInput_writes {t : Transaction} {i : Nat} {x y : XTxInput} {sig : Bytes}
    (h : updatedInput c t i x sig = some y) :
    y = { x with signatures := y.signatures } ∧ y.signatures.length = x.signatures.length ∧
      ∀ j : Nat, y.signatures[j]? ≠ x.signatures[j]? →
        y.signatures[j]? = some (sig ++ [nHashType]) ∧
        ∃ preHash recSigBase, t.digest c.toSignConfig i x = some preHash ∧
          c.derSignatureToCompact sig = some recSigBase ∧ ∃ recid : Nat, recid < 4 ∧ ∃ pk,
            (x.xPubkeys[j]?).bind c.publicKeyBytes = some pk ∧
            c.fromRecoverableSignature (recSigBase ++ [recid.toUInt8]) preHash = some pk ∧
            c.verifyRecoverableSignature pk (recSigBase ++ [recid.toUInt8]) preHash = true := by
  obtain ⟨-, rfl⟩ | ⟨pubkeys, preHash, recSigBase, -, hpub, hd, hb, ⟨-, rfl⟩ |
    ⟨j, hslot, hj, rfl⟩⟩ := updatedInput_cases c h
  · exact ⟨rfl, rfl, fun j hj => absurd rfl hj⟩
  · exact ⟨rfl, rfl, fun j hj => absurd rfl hj⟩
  refine ⟨rfl, List.length_set .., fun j' hj' => ?_⟩
  rw [List.getElem?_set] at hj' ⊢
  split at hj'
  · next hjj =>
    subst hjj
    obtain ⟨recid, hrecid, pk, hrec, hver, hpk⟩ := recoveredSlot_eq_some c hslot
    obtain ⟨k, hk⟩ : ∃ k, x.xPubkeys[j]? = some k := ⟨_, List.getElem?_eq_getElem
      (by rw [← length_of_mapM_eq_some hpub]; exact (List.getElem?_eq_some_iff.1 hpk).1)⟩
    obtain ⟨b, hb', hkb⟩ := getElem?_of_mapM_eq_some hpub hk
    rw [hb', Option.some.injEq] at hpk
    refine ⟨by rw [if_pos rfl, if_pos hj], preHash, recSigBase, hd, hb, recid, hrecid,
      pk, by rw [hk, Option.some_bind, hkb, hpk], hrec, hver⟩
  · exact absurd rfl hj'

/-- Updating again an input that was updated, against a transaction with the same digests,
changes nothing: a signature that was written is found in its slot, and one that was not is not
written again. -/
theorem updatedInput_again {t u : Transaction} (hu : u.sighashTx = t.sighashTx) {i : Nat}
    {x y : XTxInput} {sig : Bytes} (h : updatedInput c t i x sig = some y) :
    updatedInput c u i y sig = some y := by
  obtain ⟨hmem, rfl⟩ | ⟨pubkeys, preHash, recSigBase, hnot, hpub, hd, hb, ⟨hslot, rfl⟩ |
    ⟨j, -, hj, rfl⟩⟩ := updatedInput_cases c h
  · rw [updatedInput, if_pos hmem]
  · have hd' : u.digest c.toSignConfig i y = some preHash :=
      (digest_congr c.toSignConfig hu i y y.signatures).trans hd
    simp only [updatedInput, if_neg hnot, Option.bind_eq_bind, hpub, hd', hb, Option.some_bind,
      hslot]
    rfl
  · rw [updatedInput, if_pos (List.getElem?_mem (List.getElem?_set_self hj) :)]

end Input

/-! ## The loop -/

section Loop

theorem getElem?_enum_zip {α β : Type} {l : List α} {l' : List β} {k : Nat} {a : α} {b : β}
    (ha : l[k]? = some a) (hb : l'[k]? = some b) : (l.zip l').enum[k]? = some (k, a, b) := by
  rw [List.getElem?_enum, (List.getElem?_zip_eq_some (z := (a, b))).2 ⟨ha, hb⟩]
  rfl

theorem updatedInput_eq_some {t : Transaction} {i : Nat} {x y : XTxInput} {sig : Bytes}
    (h : updatedInput c t i x sig = some y) : ∃ s, y = { x with signatures := s } := by
  obtain ⟨-, rfl⟩ | ⟨-, -, -, -, -, -, -, ⟨-, rfl⟩ | ⟨j, -, -, rfl⟩⟩ := updatedInput_cases c h
  all_goals exact ⟨_, rfl⟩

/-- One input of the loop of `update_signatures`, at `pre.length` with no input before it spending
its outpoint, puts back the input updated on its own against `t`. -/
theorem updateInput_eq {t u : Transaction} {pre post : List XTxInput} {x : XTxInput} {sig : Bytes}
    (hu : u.inputs = pre ++ x :: post) (ht : u.sighashTx = t.sighashTx)
    (hpre : x.prevout ∉ pre.map XTxInput.prevout) :
    updateInput c u (pre.length, x, sig) =
      (fun y => { u with inputs := pre ++ y :: post }) <$> updatedInput c t pre.length x sig := by
  have hx : x ∉ pre := fun hm => hpre (List.mem_map_of_mem XTxInput.prevout hm :)
  have hdig : u.preimageHash c.toSignConfig x = t.digest c.toSignConfig pre.length x := by
    rw [preimageHash_eq_digest c.toSignConfig hu hx]
    exact digest_congr c.toSignConfig ht _ x x.signatures
  have hself : { u with inputs := pre ++ x :: post } = u := by
    rw [← hu]
  have hset : ∀ y, u.inputs.set pre.length y = pre ++ y :: post := fun y => by
    rw [hu, List.set_append_right _ _ le_rfl, Nat.sub_self, List.set_cons_zero]
  simp only [updateInput, updatedInput, hdig]
  split
  · exact congrArg some hself.symm
  · simp only [Option.bind_eq_bind]
    cases mapM c.publicKeyBytes x.xPubkeys with
    | none => rfl
    | some pubkeys =>
      cases digest c.toSignConfig t pre.length x with
      | none => rfl
      | some preHash =>
        cases c.derSignatureToCompact sig with
        | none => rfl
        | some recSigBase =>
          simp only [Option.some_bind]
          cases recoveredSlot c pubkeys preHash recSigBase with
          | none => exact congrArg some hself.symm
          | some j =>
            dsimp only
            cases x.setSignature j (sig ++ [nHashType]) with
            | none => rfl
            | some y =>
              show some _ = some _
              rw [hset]

/-- `update_signatures`, when the inputs spend distinct outpoints, updates every input on its own
against the transaction it was given. -/
theorem updateSignatures_eq_map_updatedInput (t : Transaction) (signatures : List Bytes)
    (hnd : (t.inputs.map XTxInput.prevout).Nodup) :
    updateSignatures c t signatures =
      if t.isComplete then some t
      else if t.inputs.length ≠ signatures.length then none
      else (fun ins => { t with inputs := ins }) <$>
        (t.inputs.zip signatures).enum.mapM fun p => updatedInput c t p.1 p.2.1 p.2.2 := by
  rw [updateSignatures]
  split
  · rfl
  split
  · rfl
  next hlen =>
  have hfst : (t.inputs.zip signatures).map Prod.fst = t.inputs :=
    List.map_fst_zip _ _ (not_not.1 hlen).le
  have h := foldlM_inputs t Prod.fst (updateInput c) (fun i b => updatedInput c t i b.1 b.2)
    (fun hu ht hpre => updateInput_eq c hu ht hpre) (fun h => updatedInput_eq_some c h)
    (t.inputs.zip signatures) [] t (by rw [hfst]; rfl) rfl
    (by rw [List.map_nil, List.nil_append, ← List.map_map, hfst]; exact hnd)
  simpa only [List.length_nil, ← List.enum_eq_enumFrom, List.nil_append] using h

/-- When the inputs spend distinct outpoints, `update_signatures` changes nothing but signature
slots, and a slot of input `i` that it changes holds the `i`-th signature with the sighash byte, in
the slot of a key that the signature recovers to and verifies against over the input's digest. -/
theorem updateSignatures_writes_recovered_slot {t t' : Transaction} {signatures : List Bytes}
    (hnd : (t.inputs.map XTxInput.prevout).Nodup) (h : updateSignatures c t signatures = some t')
    {i : Nat} {x : XTxInput} (hx : t.inputs[i]? = some x) :
    t' = { t with inputs := t'.inputs } ∧ t'.inputs.length = t.inputs.length ∧
      ∃ y, t'.inputs[i]? = some y ∧
      y = { x with signatures := y.signatures } ∧ y.signatures.length = x.signatures.length ∧
      ∀ j : Nat, y.signatures[j]? ≠ x.signatures[j]? → ∃ sig, signatures[i]? = some sig ∧
        y.signatures[j]? = some (sig ++ [nHashType]) ∧
        ∃ preHash recSigBase, t.digest c.toSignConfig i x = some preHash ∧
          c.derSignatureToCompact sig = some recSigBase ∧ ∃ recid : Nat, recid < 4 ∧ ∃ pk,
            (x.xPubkeys[j]?).bind c.publicKeyBytes = some pk ∧
            c.fromRecoverableSignature (recSigBase ++ [recid.toUInt8]) preHash = some pk ∧
            c.verifyRecoverableSignature pk (recSigBase ++ [recid.toUInt8]) preHash = true := by
  rw [updateSignatures_eq_map_updatedInput c t signatures hnd] at h
  split at h
  · cases h
    exact ⟨rfl, rfl, x, hx, rfl, rfl, fun j hj => absurd rfl hj⟩
  split at h
  · cases h
  next hlen =>
  obtain ⟨ys, hys, rfl⟩ := Option.map_eq_some'.1 h
  obtain ⟨sig, hsig⟩ : ∃ sig, signatures[i]? = some sig := ⟨_, List.getElem?_eq_getElem
    (by rw [← not_not.1 hlen]; exact (List.getElem?_eq_some_iff.1 hx).1)⟩
  obtain ⟨y, hy, hfy⟩ := getElem?_of_mapM_eq_some hys (getElem?_enum_zip hx hsig)
  obtain ⟨hyx, hlen', hw⟩ := updatedInput_writes c hfy
  have hlens : ys.length = t.inputs.length := by
    rw [length_of_mapM_eq_some hys, List.enum_length, List.length_zip, ← not_not.1 hlen,
      Nat.min_self]
  exact ⟨rfl, hlens, y, hy, hyx, hlen', fun j hj => ⟨sig, hsig, hw j hj⟩⟩

/-- What an input shows apart from its signatures is the same after the update. -/
theorem map_of_updatedInputs {γ : Type} {t : Transaction} {signatures : List Bytes}
    {ys : List XTxInput} (hle : t.inputs.length ≤ signatures.length)
    (hys : (t.inputs.zip signatures).enum.mapM (fun p => updatedInput c t p.1 p.2.1 p.2.2) =
      some ys)
    (g : XTxInput → γ) (hg : ∀ x s, g { x with signatures := s } = g x) :
    ys.map g = t.inputs.map g := by
  have hmap := map_of_mapM_eq_some (g := g ∘ Prod.fst ∘ Prod.snd) (h := g)
    (fun p y hp => by obtain ⟨s, rfl⟩ := updatedInput_eq_some c hp; exact hg _ s) hys
  rw [hmap, ← List.map_map, ← List.map_map, List.enum_map_snd, List.map_fst_zip _ _ hle]

/-- When the inputs spend distinct outpoints, calling `update_signatures` again with the same
signatures changes nothing. -/
theorem updateSignatures_idempotent {t t' : Transaction} {signatures : List Bytes}
    (hnd : (t.inputs.map XTxInput.prevout).Nodup) (h : updateSignatures c t signatures = some t') :
    updateSignatures c t' signatures = some t' := by
  rw [updateSignatures_eq_map_updatedInput c t signatures hnd] at h
  split at h
  · cases h
    rw [updateSignatures, if_pos ‹_›]
  split at h
  · cases h
  next hlen =>
  have hlen : t.inputs.length = signatures.length := not_not.1 hlen
  obtain ⟨ys, hys, rfl⟩ := Option.map_eq_some'.1 h
  have hprev := map_of_updatedInputs c hlen.le hys XTxInput.prevout fun _ _ => rfl
  have hlys : ys.length = signatures.length := by
    rw [← List.length_map ys XTxInput.prevout, hprev, List.length_map, hlen]
  have hsig : { t with inputs := ys }.sighashTx = t.sighashTx := by
    have := map_of_updatedInputs c hlen.le hys
      (fun i : XTxInput => ({ i.toTxInput with scriptSig := [] } : TxInput))
      fun _ _ => rfl
    simp only [sighashTx, this]
  -- every input read back is updated again to itself
  have hagain : ∀ (k : Nat) a, (ys.zip signatures).enum[k]? = some a →
      ∃ y, ys[k]? = some y ∧ updatedInput c { t with inputs := ys } a.1 a.2.1 a.2.2 = some y := by
    intro k a ha
    rw [List.getElem?_enum, Option.map_eq_some'] at ha
    obtain ⟨⟨y, sig⟩, hk, rfl⟩ := ha
    obtain ⟨hy, hs⟩ := List.getElem?_zip_eq_some.1 hk
    obtain ⟨x, hx⟩ : ∃ x, t.inputs[k]? = some x := ⟨_, List.getElem?_eq_getElem
      (by rw [hlen, ← hlys]; exact (List.getElem?_eq_some_iff.1 hy).1)⟩
    obtain ⟨y', hy', hfy⟩ := getElem?_of_mapM_eq_some hys (getElem?_enum_zip hx hs)
    obtain rfl : y' = y := Option.some.inj (hy'.symm.trans hy)
    exact ⟨y', hy', updatedInput_again c hsig hfy⟩
  rw [updateSignatures_eq_map_updatedInput c _ signatures (by rw [hprev]; exact hnd)]
  split
  · rfl
  rw [if_neg (by simpa using hlys), mapM_eq_some_of_getElem? (by simp [hlys]) hagain]
  rfl

end Loop

/-- A device whose signature `k :: h` over the digest `h` recovers, with `recid` 1, to the key
`[2, k]`, and whose signatures all verify. -/
def sampleRecoverConfig : RecoverConfig :=
  { sampleSignConfig with
    derSignatureToCompact := some
    fromRecoverableSignature := fun recSig preHash =>
      match recSig with
      | k :: rest => if rest = preHash ++ [1] then some [2, k] else none
      | [] => none
    verifyRecoverableSignature := fun _ _ _ => true }

/-- What the device returns for `sampleSignTransaction`: each key's byte before its input's
digest. -/
def sampleDeviceSignatures : List Bytes := [[1, 0, 2, 2, 1, 0xac], [2, 1, 2, 2, 2, 0xac]]

/-- `sampleSignTransaction` with the device's signatures in place. -/
def sampleUpdatedTransaction : Transaction :=
  ⟨1, [{ sampleSignInput 1 with signatures := [[1, 0, 2, 2, 1, 0xac, 0x41]] },
    { sampleSignInput 2 with signatures := [[2, 1, 2, 2, 2, 0xac, 0x41]] }], [sampleOutput], 0⟩

theorem sampleUpdate_eq_map_updatedInput :
    (sampleSignTransaction.inputs.map XTxInput.prevout).Nodup ∧
      updateSignatures sampleRecoverConfig sampleSignTransaction sampleDeviceSignatures =
        if sampleSignTransaction.isComplete then some sampleSignTransaction
        else if sampleSignTransaction.inputs.length ≠ sampleDeviceSignatures.length then none
        else (fun ins => { sampleSignTransaction with inputs := ins }) <$>
          (sampleSignTransaction.inputs.zip sampleDeviceSignatures).enum.mapM fun p =>
            updatedInput sampleRecoverConfig sampleSignTransaction p.1 p.2.1 p.2.2 :=
  ⟨by decide, updateSignatures_eq_map_updatedInput sampleRecoverConfig _ _ (by decide)⟩

theorem sampleUpdate_writes_recovered_slot :
    (sampleSignTransaction.inputs.map XTxInput.prevout).Nodup ∧
      updateSignatures sampleRecoverConfig sampleSignTransaction sampleDeviceSignatures =
        some sampleUpdatedTransaction ∧
      sampleSignTransaction.inputs[1]? = some (sampleSignInput 2) ∧
      sampleUpdatedTransaction =
        { sampleSignTransaction with inputs := sampleUpdatedTransaction.inputs } ∧
      sampleUpdatedTransaction.inputs.length = sampleSignTransaction.inputs.length ∧
      ∃ y, sampleUpdatedTransaction.inputs[1]? = some y ∧
        y = { sampleSignInput 2 with signatures := y.signatures } ∧
        y.signatures.length = (sampleSignInput 2).signatures.length ∧
        ∀ j : Nat, y.signatures[j]? ≠ (sampleSignInput 2).signatures[j]? →
          ∃ sig, sampleDeviceSignatures[1]? = some sig ∧
            y.signatures[j]? = some (sig ++ [nHashType]) ∧
            ∃ preHash recSigBase,
              sampleSignTransaction.digest sampleRecoverConfig.toSignConfig 1 (sampleSignInput 2) =
                some preHash ∧
              sampleRecoverConfig.derSignatureToCompact sig = some recSigBase ∧
              ∃ recid : Nat, recid < 4 ∧ ∃ pk,
                ((sampleSignInput 2).xPubkeys[j]?).bind sampleRecoverConfig.publicKeyBytes =
                  some pk ∧
                sampleRecoverConfig.fromRecoverableSignature (recSigBase ++ [recid.toUInt8])
                  preHash = some pk ∧
                sampleRecoverConfig.verifyRecoverableSignature pk (recSigBase ++ [recid.toUInt8])
                  preHash = true :=
  ⟨by decide, by decide, rfl,
    updateSignatures_writes_recovered_slot sampleRecoverConfig (by decide) (by decide) rfl⟩

theorem sampleUpdate_idempotent :
    (sampleSignTransaction.inputs.map XTxInput.prevout).Nodup ∧
      updateSignatures sampleRecoverConfig sampleSignTransaction sampleDeviceSignatures =
        some sampleUpdatedTransaction ∧
      updateSignatures sampleRecoverConfig sampleUpdatedTransaction sampleDeviceSignatures =
        some sampleUpdatedTransaction :=
  ⟨by decide, by decide, @updateSignatures_idempotent sampleRecoverConfig sampleSignTransaction
    sampleUpdatedTransaction sampleDeviceSignatures (by decide) (by decide)⟩

end Transaction

end ElectrumSV
