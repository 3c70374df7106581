import Mathlib.Data.List.Forall2
import ElectrumSV.Transaction.XPublicKey

/-!
# Transactions on the wire

bitcoinx's `Tx`, `TxInput` and `TxOutput` are the wire form of a transaction. ElectrumSV extends
the input and output with signing metadata (`XTxInput`, `XTxOutput`), and `Transaction` holds the
extended forms. `XTxInput.to_bytes` first replaces the script_sig by the one `create_script_sig`
builds from the metadata, when the input has keys, and then writes the base input; the model makes
that replacement a function (`XTxInput.withScriptSig`) whose result is written.

`XTxInput.read` asserts that the script_sig it read is not empty, and `Transaction.from_bytes`
stops after the locktime without looking at the rest of its input. The count reader of
`xread_varbytes` and `xread_list` is a parameter of the readers here, so that the same code can be
read with `read_varint` (`Transaction.read`) or with a reader that accepts only shortest counts.

* `Transaction.toBytes_eq`: `to_bytes` writes the wire form `toTx`.
* `Tx.read_toBytes`, `Transaction.fromBytes_toBytes`: reading what `to_bytes` wrote gives back
  the wire form, when every `prev_hash` has 32 bytes and every written script_sig is non-empty.
* `Transaction.readWith_minimal`: a read with shortest counts consumed exactly `to_bytes` of its
  result.
-/

namespace ElectrumSV

/-! ## Script signatures -/

namespace Ops

/-- `OP_0`, also `OP_FALSE`. -/
def OP_0 : UInt8 := 0x00
/-- `OP_TRUE`, also `OP_1`. -/
def OP_TRUE : UInt8 := 0x51
/-- `OP_CHECKMULTISIG`. -/
def OP_CHECKMULTISIG : UInt8 := 0xae

end Ops

/-- `NO_SIGNATURE`, the placeholder of a missing signature. -/
def noSignature : Bytes := [0xff]

/-- `l[:k]` on a Python list: a negative `k` counts from the end. -/
def sliceTo {α : Type} (l : List α) (k : Int) : List α :=
  if 0 ≤ k then l.take k.toNat else l.take (l.length - k.natAbs)

section Scripts

variable (c : TxConfig)

/-- `multisig_script`: the threshold, the keys, their count and `OP_CHECKMULTISIG`. -/
def multisigScript (pubkeylikes : List XPublicKey) (threshold : Int) : Option Bytes := do
  guard (1 ≤ threshold ∧ threshold ≤ pubkeylikes.length)
  let keys ← pubkeylikes.mapM c.publicKeyBytes
  pure (c.pushInt threshold ++ (keys.map c.pushItem).flatten ++ c.pushInt pubkeylikes.length ++
    [Ops.OP_CHECKMULTISIG])

/-- `bare_multisignatures`: the first `threshold` signatures present, padded with
`NO_SIGNATURE`. -/
def bareMultisignatures (threshold : Int) (signatures : List Bytes) : List Bytes :=
  let present := sliceTo (signatures.filter (· != noSignature)) threshold
  present ++ List.replicate (threshold.toNat - present.length) noSignature

/-- The parts that `create_script_sig` writes for one signature of an accumulator input. -/
def accumulatorPart (pubkeylikes : List XPublicKey) (entry : Nat × Bytes) : Option Bytes :=
  if entry.2 = noSignature then some [Ops.OP_0]
  else do
    let key ← pubkeylikes[entry.1]?
    let keyBytes ← c.publicKeyBytes key
    pure (c.pushItem entry.2 ++ c.pushItem keyBytes ++ [Ops.OP_TRUE])

/-- `create_script_sig`; `none` is its `IndexError`, `AssertionError` or `ValueError`. -/
def createScriptSig (scriptType : ScriptType) (threshold : Int) (pubkeylikes : List XPublicKey)
    (signatures : List Bytes) : Option Bytes :=
  match scriptType with
  | .P2PK => do
    let sig ← signatures.head?
    pure (c.pushItem sig)
  | .P2PKH => do
    let sig ← signatures.head?
    let key ← pubkeylikes.head?
    let keyBytes ← c.publicKeyBytes key
    pure (c.pushItem sig ++ c.pushItem keyBytes)
  | .MULTISIG_P2SH => do
    let prepared := bareMultisignatures threshold signatures
    let nested ← multisigScript c pubkeylikes threshold
    pure ([Ops.OP_0] ++ (prepared.map c.pushItem).flatten ++ c.pushItem nested)
  | .MULTISIG_BARE =>
    let prepared := bareMultisignatures threshold signatures
    pure ([Ops.OP_0] ++ (prepared.map c.pushItem).flatten)
  | .MULTISIG_ACCUMULATOR => do
    let parts ← signatures.enum.mapM (accumulatorPart c pubkeylikes)
    pure parts.reverse.flatten
  | .NONE | .COINBASE => none

end Scripts

/-! ## The wire form -/

/-- bitcoinx `TxInput`. -/
structure TxInput where
  prevHash : Bytes
  prevIdx : Int
  scriptSig : Bytes
  sequence : Int
  deriving DecidableEq, Repr

/-- bitcoinx `TxOutput`. -/
structure TxOutput where
  value : Int
  scriptPubkey : Bytes
  deriving DecidableEq, Repr

/-- bitcoinx `Tx`. -/
structure Tx where
  version : Int
  inputs : List TxInput
  outputs : List TxOutput
  locktime : Int
  deriving DecidableEq, Repr

/-- `TxInput.to_bytes`. -/
def TxInput.toBytes (i : TxInput) : Option Bytes := do
  let prevIdx ← packLeUint32 i.prevIdx
  let scriptSig ← packVarbytes i.scriptSig
  let sequence ← packLeUint32 i.sequence
  pure (i.prevHash ++ prevIdx ++ scriptSig ++ sequence)

/-- `TxOutput.to_bytes`. -/
def TxOutput.toBytes (o : TxOutput) : Option Bytes := do
  let value ← packLeInt64 o.value
  let scriptPubkey ← packVarbytes o.scriptPubkey
  pure (value ++ scriptPubkey)

/-- `Tx.to_bytes`. -/
def Tx.toBytes (tx : Tx) : Option Bytes := do
  let version ← packLeInt32 tx.version
  let inputs ← packList TxInput.toBytes tx.inputs
  let outputs ← packList TxOutput.toBytes tx.outputs
  let locktime ← packLeUint32 tx.locktime
  pure (version ++ inputs ++ outputs ++ locktime)

/-! ## The extended form -/

/-- `XTxInput`, with the defaults of its `attr` fields. -/
structure XTxInput extends TxInput where
  value : Option Int := none
  xPubkeys : List XPublicKey := []
  threshold : Int := 0
  signatures : List Bytes := []
  scriptType : ScriptType := .NONE
  scriptOffset : Nat := 0
  scriptLength : Nat := 0
  deriving DecidableEq, Repr

/-- `XTxOutput`, with the defaults of its `attr` fields. -/
structure XTxOutput extends TxOutput where
  scriptType : ScriptType := .NONE
  xPubkeys : List XPublicKey := []
  scriptOffset : Nat := 0
  scriptLength : Nat := 0
  deriving DecidableEq, Repr

/-- `Transaction`. -/
structure Transaction where
  version : Int
  inputs : List XTxInput
  outputs : List XTxOutput
  locktime : Int
  deriving DecidableEq, Repr

namespace XTxInput

/-- The input as `XTxInput.to_bytes` leaves it: with keys, its script_sig is rebuilt by
`create_script_sig`. -/
def withScriptSig (c : TxConfig) (i : XTxInput) : Option XTxInput :=
  if i.xPubkeys ≠ [] then
    (fun s => { i with scriptSig := s }) <$>
      createScriptSig c i.scriptType i.threshold i.xPubkeys i.signatures
  else some i

/-- `XTxInput.to_bytes`. -/
def toBytes (c : TxConfig) (i : XTxInput) : Option Bytes := do
  let i ← i.withScriptSig c
  i.toTxInput.toBytes

/-- `XTxInput.is_complete`: no signatures, or at least `threshold` present. -/
def isComplete (i : XTxInput) : Bool :=
  i.signatures.isEmpty || decide (i.threshold ≤ (i.signatures.filter (· != noSignature)).length)

/-- What `to_dict` writes for an input: script type, threshold, value, signatures and keys. -/
def signingMetadata (i : XTxInput) :
    ScriptType × Int × Option Int × List Bytes × List XPublicKey :=
  (i.scriptType, i.threshold, i.value, i.signatures, i.xPubkeys)

/-- `XTxInput.read`, with the count reader of `xread_varbytes` as a parameter. -/
def readWith (readCount : Reader Nat) : Reader XTxInput := do
  let prevHash ← readBytes 32
  let prevIdx ← readLeUint32
  let (scriptSigBytes, scriptSigOffset) ← xreadVarbytesWith readCount
  let sequence ← readLeUint32
  guard (scriptSigOffset ≠ 0)
  guard (scriptSigBytes.length ≠ 0)
  pure { prevHash := prevHash, prevIdx := prevIdx, scriptSig := scriptSigBytes,
         sequence := sequence, scriptOffset := scriptSigOffset,
         scriptLength := scriptSigBytes.length }

/-- `XTxInput.read`. -/
def read : Reader XTxInput := readWith readVarint

end XTxInput

namespace XTxOutput

/-- `XTxOutput.to_bytes`, inherited from `TxOutput`. -/
def toBytes (o : XTxOutput) : Option Bytes := o.toTxOutput.toBytes

/-- What `to_dict` writes for an output: script type and keys. -/
def signingMetadata (o : XTxOutput) : ScriptType × List XPublicKey := (o.scriptType, o.xPubkeys)

/-- `XTxOutput.read`, with the count reader of `xread_varbytes` as a parameter. -/
def readWith (readCount : Reader Nat) : Reader XTxOutput := do
  let value ← readLeInt64
  let (scriptPubkeyBytes, scriptPubkeyOffset) ← xreadVarbytesWith readCount
  pure { value := value, scriptPubkey := scriptPubkeyBytes, scriptOffset := scriptPubkeyOffset,
         scriptLength := scriptPubkeyBytes.length }

/-- `XTxOutput.read`. -/
def read : Reader XTxOutput := readWith readVarint

end XTxOutput

namespace Transaction

/-- `Transaction.to_bytes`. -/
def toBytes (c : TxConfig) (t : Transaction) : Option Bytes := do
  let version ← packLeInt32 t.version
  let inputs ← packList (XTxInput.toBytes c) t.inputs
  let outputs ← packList XTxOutput.toBytes t.outputs
  let locktime ← packLeUint32 t.locktime
  pure (version ++ inputs ++ outputs ++ locktime)

/-- The wire form that `to_bytes` writes. -/
def toTx (c : TxConfig) (t : Transaction) : Option Tx := do
  let inputs ← t.inputs.mapM fun i => XTxInput.toTxInput <$> i.withScriptSig c
  pure ⟨t.version, inputs, t.outputs.map XTxOutput.toTxOutput, t.locktime⟩

/-- `Transaction.is_complete`. -/
def isComplete (t : Transaction) : Bool := t.inputs.all XTxInput.isComplete

/-- `Transaction.read`, with the count reader of `xread_list` and `xread_varbytes` as a
parameter. -/
def readWith (readCount : Reader Nat) : Reader Transaction := do
  let version ← readLeInt32
  let inputs ← xreadListWith readCount (XTxInput.readWith readCount)
  let outputs ← xreadListWith readCount (XTxOutput.readWith readCount)
  let locktime ← readLeUint32
  pure ⟨version, inputs, outputs, locktime⟩

/-- `Transaction.read`. -/
def read : Reader Transaction := readWith readVarint

/-- `Transaction.from_bytes`: read from the start of `raw`; what follows the locktime is left
unread. -/
def fromBytes (raw : Bytes) : Option Transaction := (read ⟨raw, 0⟩).map Prod.fst

end Transaction

/-! ## Writing the wire form -/

namespace XTxInput

theorem withScriptSig_of_nil (c : TxConfig) {i : XTxInput} (h : i.xPubkeys = []) :
    i.withScriptSig c = some i := by
  simp [withScriptSig, h]

theorem toBytes_eq (c : TxConfig) :
    toBytes c = fun i => (toTxInput <$> i.withScriptSig c).bind TxInput.toBytes := by
  funext i
  rw [toBytes]
  cases i.withScriptSig c <;> rfl

end XTxInput

namespace Transaction

theorem toBytes_eq (c : TxConfig) (t : Transaction) : t.toBytes c = (t.toTx c).bind Tx.toBytes := by
  have ho : packList XTxOutput.toBytes t.outputs =
      packList TxOutput.toBytes (t.outputs.map XTxOutput.toTxOutput) := by
    rw [packList_map]; rfl
  rw [toBytes, toTx, XTxInput.toBytes_eq, packList_bind_mapM, ho]
  cases t.inputs.mapM fun i => XTxInput.toTxInput <$> i.withScriptSig c <;> simp [Tx.toBytes]

end Transaction

/-! ## Reading back what `to_bytes` wrote -/

/-- What `XTxInput.read` needs of an input to read it back: a 32-byte `prev_hash` and a non-empty
script_sig. -/
def TxInput.Readable (i : TxInput) : Prop := i.prevHash.length = 32 ∧ i.scriptSig ≠ []

instance : DecidablePred TxInput.Readable := fun _ => inferInstanceAs (Decidable (_ ∧ _))

namespace XTxInput

/-- What `XTxInput.read` makes of the bytes of an input with a 32-byte `prev_hash`: the input,
with the position of its script_sig, or the failed assertion of an empty script_sig. -/
theorem read_packed {ti : TxInput} (h32 : ti.prevHash.length = 32) {b : Bytes}
    (hb : ti.toBytes = some b) (rest : Bytes) (pos : Nat) :
    ∃ offset, read ⟨b ++ rest, pos⟩ = if ti.scriptSig = [] then none else
      some ({ toTxInput := ti, scriptOffset := offset, scriptLength := ti.scriptSig.length },
        ⟨rest, pos + b.length⟩) := by
  simp only [TxInput.toBytes, Option.bind_eq_bind, Option.bind_eq_some, Option.pure_def,
    Option.some.injEq] at hb
  obtain ⟨idx, hidx, scr, hscr, seq, hseq, rfl⟩ := hb
  obtain ⟨hd, -, rfl, hC⟩ := xreadVarbytes_packVarbytes hscr (seq ++ rest) (pos + 32 + 4)
  have hA := readBytes_append ti.prevHash (idx ++ (hd ++ ti.scriptSig ++ (seq ++ rest))) pos
  have hB := readUnsigned_packUnsigned hidx (hd ++ ti.scriptSig ++ (seq ++ rest)) (pos + 32)
  have hD := readUnsigned_packUnsigned hseq rest
    (pos + 32 + 4 + (hd ++ ti.scriptSig).length)
  rw [h32] at hA
  simp only [List.append_assoc] at hA hB
  simp only [xreadVarbytes, List.append_assoc] at hC
  refine ⟨pos + 32 + 4 + hd.length, ?_⟩
  simp only [read, readWith, bind, StateT.bind, List.append_assoc, Option.bind_eq_bind, hA, hB,
    readLeUint32, hC, hD, Option.some_bind, guard, ne_eq, add_eq_zero,
    OfNat.ofNat_ne_zero, and_false, false_and, not_false_eq_true, if_true, pure, StateT.pure]
  by_cases hs : ti.scriptSig = []
  · simp [hs, failure, StateT.failure]
  · simp only [List.length_eq_zero, hs, not_false_eq_true, if_true, if_false, StateT.pure,
      Option.pure_def, Option.some_bind, List.length_append, length_of_packUnsigned hidx,
      length_of_packUnsigned hseq, h32, Option.some.injEq, Prod.mk.injEq, Stream.mk.injEq,
      true_and]
    omega

theorem read_readsBack (c : TxConfig) :
    Reader.ReadsBack read TxInput.Readable TxInput.toBytes
      (fun ti x => toTxInput <$> x.withScriptSig c = some ti) := by
  rintro ti ⟨h32, hs⟩ b rest pos hb
  obtain ⟨offset, h⟩ := read_packed h32 hb rest pos
  exact ⟨_, by rw [h, if_neg hs], by simp [withScriptSig]⟩

end XTxInput

theorem XTxOutput.read_readsBack :
    Reader.ReadsBack XTxOutput.read (fun _ => True) TxOutput.toBytes
      (fun o x => o = x.toTxOutput) := by
  rintro o - b rest pos hb
  simp only [TxOutput.toBytes, Option.bind_eq_bind, Option.bind_eq_some, Option.pure_def,
    Option.some.injEq] at hb
  obtain ⟨v, hv, scr, hscr, rfl⟩ := hb
  obtain ⟨hd, -, rfl, hC⟩ := xreadVarbytes_packVarbytes hscr rest (pos + 8)
  have hA := readSigned_packSigned hv (hd ++ o.scriptPubkey ++ rest) pos
  simp only [List.append_assoc] at hA
  simp only [xreadVarbytes, List.append_assoc] at hC
  refine ⟨{ toTxOutput := o, scriptOffset := pos + 8 + hd.length,
            scriptLength := o.scriptPubkey.length }, ?_, rfl⟩
  simp only [XTxOutput.read, XTxOutput.readWith, bind, StateT.bind, List.append_assoc,
    Option.bind_eq_bind, readLeInt64, hA, hC, Option.some_bind, pure,
    StateT.pure, List.length_append, length_of_packSigned hv, Nat.add_assoc]

namespace Tx

/-- Reading what `Tx.to_bytes` wrote gives a transaction whose wire form is the one written. -/
theorem read_toBytes (c : TxConfig) {tx : Tx} (hin : ∀ i ∈ tx.inputs, i.Readable) {raw : Bytes}
    (h : tx.toBytes = some raw) (rest : Bytes) (pos : Nat) :
    ∃ t, Transaction.read ⟨raw ++ rest, pos⟩ = some (t, ⟨rest, pos + raw.length⟩) ∧
      t.toTx c = some tx := by
  simp only [toBytes, Option.bind_eq_bind, Option.bind_eq_some, Option.pure_def,
    Option.some.injEq] at h
  obtain ⟨v, hv, ins, hins, outs, houts, lt, hlt, rfl⟩ := h
  have hA := readSigned_packSigned hv (ins ++ outs ++ lt ++ rest) pos
  obtain ⟨xs, hxs, hr⟩ := xreadList_packList (XTxInput.read_readsBack c) hin hins
    (outs ++ lt ++ rest) (pos + 4)
  obtain ⟨ys, hys, hr'⟩ := xreadList_packList XTxOutput.read_readsBack (fun _ _ => trivial) houts
    (lt ++ rest) (pos + 4 + ins.length)
  have hD := readUnsigned_packUnsigned hlt rest (pos + 4 + ins.length + outs.length)
  refine ⟨⟨tx.version, xs, ys, tx.locktime⟩, ?_, ?_⟩
  · simp only [List.append_assoc] at hA
    simp only [xreadList, XTxInput.read, XTxOutput.read, List.append_assoc, Nat.add_assoc]
      at hxs hys hD
    simp only [Transaction.read, Transaction.readWith, bind, StateT.bind, List.append_assoc,
      Option.bind_eq_bind, readLeInt32, hA, hxs, hys, readLeUint32, hD,
      Option.some_bind, pure, StateT.pure, List.length_append, length_of_packSigned hv,
      length_of_packUnsigned hlt, Nat.add_assoc]
  · have ho : tx.outputs = ys.map XTxOutput.toTxOutput := by
      rw [← List.forall₂_eq_eq_eq]
      exact List.forall₂_map_right_iff.2 hr'
    rw [Transaction.toTx, mapM_eq_some_iff_forall₂.2 hr, ← ho]
    rfl

end Tx

namespace Transaction

/-- `from_bytes(to_bytes())` gives back the wire form, and so the same bytes. -/
theorem fromBytes_toBytes (c : TxConfig) {t : Transaction} {tx : Tx} {raw : Bytes}
    (ht : t.toTx c = some tx) (hin : ∀ i ∈ tx.inputs, i.Readable) (h : t.toBytes c = some raw) :
    ∃ t', fromBytes raw = some t' ∧ t'.toTx c = some tx ∧ t'.toBytes c = some raw := by
  rw [toBytes_eq, ht, Option.some_bind] at h
  obtain ⟨t', hr, ht'⟩ := Tx.read_toBytes c hin h [] 0
  rw [List.append_nil] at hr
  exact ⟨t', by simp [fromBytes, hr], ht', by rw [toBytes_eq, ht', Option.some_bind, h]⟩

theorem toTx_eq_some_iff (c : TxConfig) (t : Transaction) (tx : Tx) :
    t.toTx c = some tx ↔
      t.version = tx.version ∧
      t.inputs.mapM (fun i => XTxInput.toTxInput <$> i.withScriptSig c) = some tx.inputs ∧
      t.outputs.map XTxOutput.toTxOutput = tx.outputs ∧ t.locktime = tx.locktime := by
  cases tx
  rw [toTx]
  cases t.inputs.mapM (fun i => XTxInput.toTxInput <$> i.withScriptSig c) <;>
    simp [and_assoc, eq_comm]

end Transaction

/-! ## Reading with shortest counts -/

theorem XTxInput.readWith_refines {rc₁ rc₂ : Reader Nat} (h : rc₁.Refines rc₂) :
    (XTxInput.readWith rc₁).Refines (XTxInput.readWith rc₂) :=
  Reader.Refines.bind (.refl _) fun _ => .bind (.refl _) fun _ =>
    .bind (xreadVarbytesWith_refines h) fun _ => .refl _

theorem XTxOutput.readWith_refines {rc₁ rc₂ : Reader Nat} (h : rc₁.Refines rc₂) :
    (XTxOutput.readWith rc₁).Refines (XTxOutput.readWith rc₂) :=
  Reader.Refines.bind (.refl _) fun _ => .bind (xreadVarbytesWith_refines h) fun _ => .refl _

theorem Transaction.readWith_refines {rc₁ rc₂ : Reader Nat} (h : rc₁.Refines rc₂) :
    (Transaction.readWith rc₁).Refines (Transaction.readWith rc₂) :=
  Reader.Refines.bind (.refl _) fun _ =>
    .bind (xreadListWith_refines h (XTxInput.readWith_refines h)) fun _ =>
    .bind (xreadListWith_refines h (XTxOutput.readWith_refines h)) fun _ => .refl _

theorem XTxInput.readWith_returns (rc : Reader Nat) :
    (XTxInput.readWith rc).Returns (·.signingMetadata = (.NONE, 0, none, [], [])) := by
  intro s x s' h
  simp only [XTxInput.readWith, Reader.bind_eq_some, Reader.guard_eq_some, Reader.pure_eq_some,
    Prod.exists, Prod.mk.injEq] at h
  obtain ⟨_, _, -, _, _, -, _, _, _, -, _, _, -, _, _, -, _, _, -, rfl, -⟩ := h
  rfl

theorem XTxOutput.readWith_returns (rc : Reader Nat) :
    (XTxOutput.readWith rc).Returns (·.signingMetadata = (.NONE, [])) := by
  intro s x s' h
  simp only [XTxOutput.readWith, Reader.bind_eq_some, Reader.pure_eq_some, Prod.exists,
    Prod.mk.injEq] at h
  obtain ⟨_, _, -, _, _, _, -, rfl, -⟩ := h
  rfl

/-- A transaction that `read` returns carries no signing metadata. -/
theorem Transaction.readWith_returns (rc : Reader Nat) :
    (Transaction.readWith rc).Returns fun t =>
      (∀ i ∈ t.inputs, i.signingMetadata = (.NONE, 0, none, [], [])) ∧
      ∀ o ∈ t.outputs, o.signingMetadata = (.NONE, []) := by
  intro s t s' h
  simp only [Transaction.readWith, Reader.bind_eq_some, Reader.pure_eq_some, Prod.mk.injEq] at h
  obtain ⟨_, _, -, _, _, h2, _, _, h3, _, _, -, rfl, -⟩ := h
  exact ⟨xreadListWith_returns rc (XTxInput.readWith_returns rc) _ _ _ h2,
    xreadListWith_returns rc (XTxOutput.readWith_returns rc) _ _ _ h3⟩

theorem Transaction.fromBytes_returns {raw : Bytes} {t : Transaction}
    (h : Transaction.fromBytes raw = some t) :
    (∀ i ∈ t.inputs, i.signingMetadata = (.NONE, 0, none, [], [])) ∧
      ∀ o ∈ t.outputs, o.signingMetadata = (.NONE, []) := by
  obtain ⟨⟨t', s'⟩, hr, rfl⟩ := Option.map_eq_some'.1 h
  exact Transaction.readWith_returns readVarint _ _ _ hr

theorem XTxInput.readWith_minimal (c : TxConfig) :
    (XTxInput.readWith readVarintMinimal).ReadsPacked (XTxInput.toBytes c) := by
  intro s x s' h
  simp only [XTxInput.readWith, Reader.bind_eq_some, Reader.guard_eq_some, Reader.pure_eq_some,
    Prod.exists, Prod.mk.injEq] at h
  obtain ⟨ph, s1, h1, idx, s2, h2, sc, off, s3, h3, seq, s4, h4, _, s5, ⟨-, -, rfl⟩, _, s6,
    ⟨-, -, rfl⟩, rfl, rfl⟩ := h
  obtain ⟨bi, hbi, r2⟩ := readUnsigned_readsPacked 4 _ _ _ h2
  obtain ⟨bsc, hbsc, r3⟩ := xreadVarbytesWith_minimal h3
  obtain ⟨bsq, hbsq, r4⟩ := readUnsigned_readsPacked 4 _ _ _ h4
  refine ⟨ph ++ bi ++ bsc ++ bsq, ?_, by simp [(readBytes_eq_some h1).1, r2, r3, r4]⟩
  simp [XTxInput.toBytes, XTxInput.withScriptSig, TxInput.toBytes, packLeUint32, hbi, hbsc, hbsq]

theorem XTxOutput.readWith_minimal :
    (XTxOutput.readWith readVarintMinimal).ReadsPacked XTxOutput.toBytes := by
  intro s x s' h
  simp only [XTxOutput.readWith, Reader.bind_eq_some, Reader.pure_eq_some, Prod.exists,
    Prod.mk.injEq] at h
  obtain ⟨v, s1, h1, sc, off, s2, h2, rfl, rfl⟩ := h
  obtain ⟨bv, hbv, r1⟩ := readSigned_readsPacked (by norm_num) _ _ _ h1
  obtain ⟨bsc, hbsc, r2⟩ := xreadVarbytesWith_minimal h2
  refine ⟨bv ++ bsc, ?_, by simp [r1, r2]⟩
  simp [XTxOutput.toBytes, TxOutput.toBytes, packLeInt64, hbv, hbsc]

theorem Transaction.readWith_minimal (c : TxConfig) :
    (Transaction.readWith readVarintMinimal).ReadsPacked (Transaction.toBytes c) := by
  intro s t s' h
  simp only [Transaction.readWith, Reader.bind_eq_some, Reader.pure_eq_some,
    Prod.mk.injEq] at h
  obtain ⟨v, s1, h1, ins, s2, h2, outs, s3, h3, lt, s4, h4, rfl, rfl⟩ := h
  obtain ⟨bv, hbv, r1⟩ := readSigned_readsPacked (by norm_num) _ _ _ h1
  obtain ⟨bi, hbi, r2⟩ := xreadListWith_minimal (XTxInput.readWith_minimal c) _ _ _ h2
  obtain ⟨bo, hbo, r3⟩ := xreadListWith_minimal XTxOutput.readWith_minimal _ _ _ h3
  obtain ⟨bl, hbl, r4⟩ := readUnsigned_readsPacked 4 _ _ _ h4
  refine ⟨bv ++ bi ++ bo ++ bl, ?_, by simp [r1, r2, r3, r4]⟩
  simp [Transaction.toBytes, packLeInt32, packLeUint32, hbv, hbi, hbo, hbl]

/-! ## The round trip -/

namespace Transaction

theorem wire_round_trip (c : TxConfig) :
    (∀ (t : Transaction) (tx : Tx) (raw : Bytes), t.toTx c = some tx →
      (∀ i ∈ tx.inputs, i.Readable) → t.toBytes c = some raw →
      ∃ t', fromBytes raw = some t' ∧ t'.toTx c = some tx ∧ t'.toBytes c = some raw) ∧
    (∀ (raw : Bytes) (t : Transaction) (n : Nat),
      readWith readVarintMinimal ⟨raw, 0⟩ = some (t, ⟨[], n⟩) →
      fromBytes raw = some t ∧ t.toBytes c = some raw) := by
  refine ⟨fun t tx raw ht hin h => fromBytes_toBytes c ht hin h, fun raw t n h => ?_⟩
  obtain ⟨b, hb, hraw⟩ := readWith_minimal c _ _ _ h
  dsimp only at hraw
  rw [List.append_nil] at hraw
  subst hraw
  exact ⟨by simp [fromBytes, read, readWith_refines readVarintMinimal_refines _ _ h], hb⟩

end Transaction

/-- A configuration for examples: a public key is its own non-empty bytes, a push is
length-prefixed. -/
def sampleTxConfig : TxConfig where
  publicKeyBytes x := match x with
    | .pubkey b => if b = [] then none else some b
    | _ => none
  publicKeyBytes_empty := rfl
  pushItem b := b.length.toUInt8 :: b
  pushInt n := [(n.toNat + 0x50).toUInt8]
  doubleSha256 b := b

/-- One input spending output 1 of a transaction, with the script_sig `OP_TRUE`. -/
def sampleInput : XTxInput :=
  { prevHash := List.replicate 32 7, prevIdx := 1, scriptSig := [0x51], sequence := 0xffffffff }

/-- One output of 1000 satoshis to the script `OP_TRUE`. -/
def sampleOutput : XTxOutput := { value := 1000, scriptPubkey := [0x51] }

/-- A transaction with `sampleInput` and `sampleOutput`. -/
def sampleTransaction : Transaction := ⟨1, [sampleInput], [sampleOutput], 0⟩

/-- The wire form of `sampleTransaction`. -/
def sampleTx : Tx := ⟨1, [sampleInput.toTxInput], [sampleOutput.toTxOutput], 0⟩

/-- The 62 bytes of `sampleTransaction`. -/
def sampleRaw : Bytes :=
  [1, 0, 0, 0, 1] ++ List.replicate 32 7 ++ [1, 0, 0, 0, 1, 0x51, 0xff, 0xff, 0xff, 0xff,
    1, 0xe8, 3, 0, 0, 0, 0, 0, 0, 1, 0x51, 0, 0, 0, 0]

/-- `sampleTransaction` as `from_bytes` returns it, with the offsets of its two scripts. -/
def parsedSample (inputOffset outputOffset : Nat) : Transaction :=
  ⟨1, [{ sampleInput with scriptOffset := inputOffset, scriptLength := 1 }],
    [{ sampleOutput with scriptOffset := outputOffset, scriptLength := 1 }], 0⟩

theorem sampleTransaction_wire_round_trip :
    sampleTransaction.toTx sampleTxConfig = some sampleTx ∧
    (∀ i ∈ sampleTx.inputs, i.Readable) ∧
    sampleTransaction.toBytes sampleTxConfig = some sampleRaw ∧
    (∃ t', Transaction.fromBytes sampleRaw = some t' ∧ t'.toTx sampleTxConfig = some sampleTx ∧
      t'.toBytes sampleTxConfig = some sampleRaw) ∧
    Transaction.readWith readVarintMinimal ⟨sampleRaw, 0⟩ = some (parsedSample 42 57, ⟨[], 62⟩) ∧
    Transaction.fromBytes sampleRaw = some (parsedSample 42 57) ∧
    (parsedSample 42 57).toBytes sampleTxConfig = some sampleRaw :=
  have h1 : sampleTransaction.toTx sampleTxConfig = some sampleTx := rfl
  have h2 : ∀ i ∈ sampleTx.inputs, i.Readable := by decide
  have h3 : sampleTransaction.toBytes sampleTxConfig = some sampleRaw := rfl
  have h4 : Transaction.readWith readVarintMinimal ⟨sampleRaw, 0⟩ =
      some (parsedSample 42 57, ⟨[], 62⟩) := by decide
  ⟨h1, h2, h3, (Transaction.wire_round_trip sampleTxConfig).1 _ _ _ h1 h2 h3, h4,
    (Transaction.wire_round_trip sampleTxConfig).2 _ _ _ h4⟩

/-- `sampleTransaction` with an empty script_sig. -/
def emptyScriptTransaction : Transaction :=
  ⟨1, [{ sampleInput with scriptSig := [] }], [sampleOutput], 0⟩

/-- `sampleRaw` with the input count written in three bytes. -/
def nonMinimalRaw : Bytes :=
  [1, 0, 0, 0, 0xfd, 1, 0] ++ List.replicate 32 7 ++ [1, 0, 0, 0, 1, 0x51, 0xff, 0xff, 0xff, 0xff,
    1, 0xe8, 3, 0, 0, 0, 0, 0, 0, 1, 0x51, 0, 0, 0, 0]

theorem toBytes_fromBytes_mismatch :
    (∃ raw, emptyScriptTransaction.toBytes sampleTxConfig = some raw ∧
      Transaction.fromBytes raw = none) ∧
    Transaction.fromBytes (sampleRaw ++ [0]) = some (parsedSample 42 57) ∧
    (parsedSample 42 57).toBytes sampleTxConfig = some sampleRaw ∧
    Transaction.fromBytes nonMinimalRaw = some (parsedSample 44 59) ∧
    (parsedSample 44 59).toBytes sampleTxConfig = some sampleRaw :=
  ⟨⟨_, rfl, by decide⟩, by decide, rfl, by decide, rfl⟩

end ElectrumSV
