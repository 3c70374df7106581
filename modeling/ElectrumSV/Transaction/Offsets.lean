import ElectrumSV.Transaction.Wire

/-!
# Script offsets

`xread_varbytes` returns, with the bytes it read, the position `tell()` reported before reading
them, and `XTxInput.read` and `XTxOutput.read` store it as `script_offset`, with the length as
`script_length`. Every reader moves along its input: a successful read consumes a prefix of the
unread bytes and advances the position by its length (`Reader.Advances`), so a stream reached from
`BytesIO(raw)` always has `raw[pos:]` unread (`Stream.At`), and the stored pair is a slice of
`raw` that holds the script.

`update_script_offsets` writes the transaction, reads the bytes back and copies the pair read at
each index to the input or output at that index. The pairs locate the scripts when the bytes are
read back as they were written, which takes a 32-byte `prev_hash` in every input.

* `Transaction.fromBytes_scriptsAt`: every input and output that `from_bytes(raw)` returns has
  `raw[script_offset : script_offset + script_length]` equal to its script.
* `Tx.readable_of_read`: the bytes of a wire transaction whose inputs have 32-byte `prev_hash`es
  are read back only if no script_sig is empty.
* `Transaction.script_offsets_locate_scripts`: both results together; after the update, with
  32-byte `prev_hash`es, the bytes are unchanged and every stored pair locates its script in them.
* `short_prev_hash_offsets_miss`: with a 31-byte `prev_hash` the bytes are read back one byte
  off, and the pair stored with the input does not locate its script_sig.
-/

namespace ElectrumSV

/-- `raw[offset : offset + length]`. -/
def scriptAt (raw : Bytes) (offset length : Nat) : Bytes := (raw.drop offset).take length

/-- The stream is `BytesIO(raw)` after `pos` bytes: `raw[pos:]` is unread. -/
def Stream.At (raw : Bytes) (s : Stream) : Prop := s.rest = raw.drop s.pos

theorem Stream.at_start (raw : Bytes) : (⟨raw, 0⟩ : Stream).At raw := rfl

namespace Reader

variable {α β : Type}

/-- A successful run of `r` consumes a prefix of the unread bytes and moves the position by its
length. -/
def Advances (r : Reader α) : Prop :=
  ∀ s x s', r s = some (x, s') → ∃ d, s.rest = d ++ s'.rest ∧ s'.pos = s.pos + d.length

/-- Every value that `r` returns from a stream of `raw` satisfies `P raw`. -/
def ReturnsAt (r : Reader α) (P : Bytes → α → Prop) : Prop :=
  ∀ raw s x s', s.At raw → r s = some (x, s') → P raw x

theorem Advances.at {r : Reader α} (h : r.Advances) {raw : Bytes} {s s' : Stream} {x : α}
    (hs : s.At raw) (hr : r s = some (x, s')) : s'.At raw := by
  obtain ⟨d, hd, hpos⟩ := h s x s' hr
  unfold Stream.At at hs ⊢
  rw [hpos, ← List.drop_drop, ← hs, hd, List.drop_left]

theorem Advances.pure (a : α) : (Pure.pure a : Reader α).Advances := by
  intro s x s' h
  rw [pure_eq_some, Prod.mk.injEq] at h
  obtain ⟨-, rfl⟩ := h
  exact ⟨[], rfl, rfl⟩

theorem Advances.failure : (failure : Reader α).Advances := fun _ _ _ h => by cases h

theorem Advances.bind {r : Reader α} {f : α → Reader β} (h : r.Advances)
    (hf : ∀ a, (f a).Advances) : (r >>= f).Advances := by
  intro s x s' hx
  obtain ⟨a, s1, h1, h2⟩ := bind_eq_some.1 hx
  obtain ⟨d1, hd1, hp1⟩ := h s a s1 h1
  obtain ⟨d2, hd2, hp2⟩ := hf a s1 x s' h2
  exact ⟨d1 ++ d2, by rw [hd1, hd2, List.append_assoc], by simp [hp2, hp1, Nat.add_assoc]⟩

theorem Advances.map {r : Reader α} (h : r.Advances) (f : α → β) : (f <$> r).Advances :=
  h.bind fun _ => .pure _

end Reader

open Reader

theorem readBytes_advances (n : Nat) : (readBytes n).Advances := by
  intro s x s' h
  simp only [readBytes, Option.some.injEq, Prod.mk.injEq] at h
  obtain ⟨rfl, rfl⟩ := h
  exact ⟨s.rest.take n, (List.take_append_drop n s.rest).symm, rfl⟩

theorem guard_advances (p : Prop) [Decidable p] : (guard p : Reader Unit).Advances := by
  unfold guard
  split
  · exact .pure _
  · exact .failure

theorem tell_advances : tell.Advances := by
  intro s x s' h
  simp only [tell, Option.some.injEq, Prod.mk.injEq] at h
  obtain ⟨-, rfl⟩ := h
  exact ⟨[], rfl, rfl⟩

theorem readUnsigned_advances (k : Nat) : (readUnsigned k).Advances :=
  (readBytes_advances k).bind fun _ => by
    split
    · exact .pure _
    · exact .failure

theorem readSigned_advances (k : Nat) : (readSigned k).Advances :=
  (readUnsigned_advances k).bind fun _ => .pure _

theorem readVarint_advances : readVarint.Advances :=
  (readBytes_advances 1).bind fun first => by
    split
    · split
      · exact .pure _
      split
      · exact (readUnsigned_advances 2).map _
      split
      · exact (readUnsigned_advances 4).map _
      · exact (readUnsigned_advances 8).map _
    · exact .failure

/-- A successful `xread_varbytes` read a count, then that many bytes, and returns the position
between the two. -/
theorem xreadVarbytesWith_eq_some {rc : Reader Nat} {s s' : Stream} {data : Bytes} {offset : Nat}
    (h : xreadVarbytesWith rc s = some ((data, offset), s')) :
    ∃ s1, rc s = some (data.length, s1) ∧ offset = s1.pos ∧
      readBytes data.length s1 = some (data, s') := by
  simp only [xreadVarbytesWith, bind, StateT.bind, Option.bind_eq_bind, Option.bind_eq_some] at h
  obtain ⟨⟨n, s1⟩, hn, ⟨o, s2⟩, ho, ⟨bs, s3⟩, hb, h⟩ := h
  cases ho
  split at h
  case isTrue => cases h
  case isFalse hlen =>
    simp only [not_not, pure, StateT.pure, Option.some.injEq, Prod.mk.injEq] at hlen h
    obtain ⟨⟨rfl, rfl⟩, rfl⟩ := h
    exact ⟨s1, hlen ▸ hn, rfl, hlen ▸ hb⟩

theorem xreadVarbytesWith_advances {rc : Reader Nat} (hc : rc.Advances) :
    (xreadVarbytesWith rc).Advances := by
  rintro s ⟨data, offset⟩ s' h
  obtain ⟨s1, h1, -, h2⟩ := xreadVarbytesWith_eq_some h
  obtain ⟨d1, hd1, hp1⟩ := hc s _ s1 h1
  obtain ⟨d2, hd2, hp2⟩ := readBytes_advances _ s1 _ s' h2
  exact ⟨d1 ++ d2, by rw [hd1, hd2, List.append_assoc], by simp [hp2, hp1, Nat.add_assoc]⟩

/-- The bytes that `xread_varbytes` returns are the slice of `raw` at the offset it returns. -/
theorem xreadVarbytesWith_scriptAt {rc : Reader Nat} (hc : rc.Advances) :
    (xreadVarbytesWith rc).ReturnsAt fun raw r => scriptAt raw r.2 r.1.length = r.1 := by
  rintro raw s ⟨data, offset⟩ s' hs h
  obtain ⟨s1, h1, rfl, h2⟩ := xreadVarbytesWith_eq_some h
  have hs1 : s1.rest = raw.drop s1.pos := hc.at hs h1
  rw [scriptAt, ← hs1, (readBytes_eq_some h2).1, List.take_left]

theorem readMany_advances {readOne : Reader α} (h : readOne.Advances) :
    ∀ n, (readMany readOne n).Advances
  | 0 => .pure _
  | n + 1 => h.bind fun _ => (readMany_advances h n).bind fun _ => .pure _

theorem xreadListWith_advances {rc : Reader Nat} {readOne : Reader α} (hc : rc.Advances)
    (h : readOne.Advances) : (xreadListWith rc readOne).Advances :=
  hc.bind (readMany_advances h)

theorem readMany_returnsAt {readOne : Reader α} {P : Bytes → α → Prop} (ha : readOne.Advances)
    (h : readOne.ReturnsAt P) : ∀ n, (readMany readOne n).ReturnsAt fun raw xs => ∀ x ∈ xs, P raw x
  | 0, raw, s, xs, s', _, hx => by
    obtain ⟨rfl, -⟩ := Prod.mk.inj (pure_eq_some.1 hx)
    simp
  | n + 1, raw, s, xs, s', hs, hx => by
    obtain ⟨x, s1, h1, hx⟩ := bind_eq_some.1 hx
    obtain ⟨ys, s2, h2, hx⟩ := bind_eq_some.1 hx
    obtain ⟨rfl, -⟩ := Prod.mk.inj (pure_eq_some.1 hx)
    exact List.forall_mem_cons.2
      ⟨h raw s x s1 hs h1, readMany_returnsAt ha h n raw s1 ys s2 (ha.at hs h1) h2⟩

theorem xreadListWith_returnsAt {rc : Reader Nat} {readOne : Reader α} {P : Bytes → α → Prop}
    (hc : rc.Advances) (ha : readOne.Advances) (h : readOne.ReturnsAt P) :
    (xreadListWith rc readOne).ReturnsAt fun raw xs => ∀ x ∈ xs, P raw x := by
  intro raw s xs s' hs hx
  obtain ⟨n, s1, h1, hx⟩ := bind_eq_some.1 hx
  exact readMany_returnsAt ha h n raw s1 xs s' (hc.at hs h1) hx

/-! ## The readers of `transaction.py` -/

section Readers

variable {rc : Reader Nat} (hc : rc.Advances)
include hc

theorem XTxInput.readWith_advances : (XTxInput.readWith rc).Advances :=
  (readBytes_advances 32).bind fun _ => (readUnsigned_advances 4).bind fun _ =>
    (xreadVarbytesWith_advances hc).bind fun _ => (readUnsigned_advances 4).bind fun _ =>
    (guard_advances _).bind fun _ => (guard_advances _).bind fun _ => .pure _

theorem XTxOutput.readWith_advances : (XTxOutput.readWith rc).Advances :=
  (readSigned_advances 8).bind fun _ => (xreadVarbytesWith_advances hc).bind fun _ => .pure _

theorem XTxInput.readWith_scriptAt :
    (XTxInput.readWith rc).ReturnsAt fun raw i => scriptAt raw i.scriptOffset i.scriptLength =
      i.scriptSig := by
  intro raw s x s' hs h
  simp only [XTxInput.readWith, Reader.bind_eq_some, Reader.guard_eq_some, Reader.pure_eq_some,
    Prod.exists, Prod.mk.injEq] at h
  obtain ⟨_, s1, h1, _, s2, h2, _, _, s3, h3, _, _, -, _, _, -, _, _, -, rfl, -⟩ := h
  exact xreadVarbytesWith_scriptAt hc raw s2 _ s3
    ((readUnsigned_advances 4).at ((readBytes_advances 32).at hs h1) h2) h3

theorem XTxOutput.readWith_scriptAt :
    (XTxOutput.readWith rc).ReturnsAt fun raw o => scriptAt raw o.scriptOffset o.scriptLength =
      o.scriptPubkey := by
  intro raw s x s' hs h
  simp only [XTxOutput.readWith, Reader.bind_eq_some, Reader.pure_eq_some, Prod.exists,
    Prod.mk.injEq] at h
  obtain ⟨_, s1, h1, _, _, s2, h2, rfl, -⟩ := h
  exact xreadVarbytesWith_scriptAt hc raw s1 _ s2 ((readSigned_advances 8).at hs h1) h2

end Readers

namespace Transaction

/-- The offset and length stored with every input and output of `t` locate its script in
`raw`. -/
def ScriptsAt (raw : Bytes) (t : Transaction) : Prop :=
  (∀ i ∈ t.inputs, scriptAt raw i.scriptOffset i.scriptLength = i.scriptSig) ∧
    ∀ o ∈ t.outputs, scriptAt raw o.scriptOffset o.scriptLength = o.scriptPubkey

instance (raw : Bytes) (t : Transaction) : Decidable (t.ScriptsAt raw) :=
  inferInstanceAs (Decidable (_ ∧ _))

theorem readWith_scriptsAt {rc : Reader Nat} (hc : rc.Advances) :
    (readWith rc).ReturnsAt fun raw t => t.ScriptsAt raw := by
  intro raw s t s' hs h
  simp only [readWith, Reader.bind_eq_some, Reader.pure_eq_some, Prod.mk.injEq] at h
  obtain ⟨_, s1, h1, _, s2, h2, _, s3, h3, _, _, -, rfl, -⟩ := h
  have hs1 := (readSigned_advances 4).at hs h1
  have hs2 := (xreadListWith_advances hc (XTxInput.readWith_advances hc)).at hs1 h2
  exact ⟨xreadListWith_returnsAt hc (XTxInput.readWith_advances hc)
      (XTxInput.readWith_scriptAt hc) raw s1 _ s2 hs1 h2,
    xreadListWith_returnsAt hc (XTxOutput.readWith_advances hc)
      (XTxOutput.readWith_scriptAt hc) raw s2 _ s3 hs2 h3⟩

theorem fromBytes_scriptsAt {raw : Bytes} {t : Transaction} (h : fromBytes raw = some t) :
    t.ScriptsAt raw := by
  obtain ⟨⟨t, s⟩, hr, rfl⟩ := Option.map_eq_some'.1 h
  exact readWith_scriptsAt readVarint_advances raw _ _ _ (Stream.at_start raw) hr

end Transaction

/-! ## Reading back what `to_bytes` wrote -/

/-- A read of packed items succeeds only if every item is readable, when a successful read of an
item's bytes shows it readable and consumes exactly those bytes. -/
theorem readMany_packEach_readable {α β : Type} {readOne : Reader β}
    {packOne : α → Option Bytes} {H P : α → Prop}
    (hone : ∀ x, H x → ∀ b rest pos y s, packOne x = some b →
      readOne ⟨b ++ rest, pos⟩ = some (y, s) → P x ∧ s = ⟨rest, pos + b.length⟩) :
    ∀ items : List α, (∀ x ∈ items, H x) → ∀ body rest pos ys s,
      packEach packOne items = some body →
      readMany readOne items.length ⟨body ++ rest, pos⟩ = some (ys, s) → ∀ x ∈ items, P x
  | [], _, _, _, _, _, _, _, _ => fun _ h => absurd h (List.not_mem_nil _)
  | x :: xs, hH, body, rest, pos, ys, s, h, hr => by
    simp only [packEach, Option.bind_eq_bind, Option.bind_eq_some, Option.pure_def,
      Option.some.injEq] at h
    obtain ⟨b, hb, bs, hbs, rfl⟩ := h
    rw [List.length_cons, readMany, List.append_assoc] at hr
    obtain ⟨y, s1, h1, hr⟩ := bind_eq_some.1 hr
    obtain ⟨hx, rfl⟩ := hone x (hH x (.head _)) b (bs ++ rest) pos y s1 hb h1
    obtain ⟨ys', s2, h2, -⟩ := bind_eq_some.1 hr
    exact List.forall_mem_cons.2 ⟨hx, readMany_packEach_readable hone xs
      (fun x hx => hH x (.tail _ hx)) bs rest _ ys' s2 hbs h2⟩

theorem XTxInput.read_packed_readable {ti : TxInput} (h32 : ti.prevHash.length = 32)
    {b rest : Bytes} {pos : Nat} {y : XTxInput} {s : Stream} (hb : ti.toBytes = some b)
    (hr : XTxInput.read ⟨b ++ rest, pos⟩ = some (y, s)) :
    ti.Readable ∧ s = ⟨rest, pos + b.length⟩ := by
  obtain ⟨offset, h⟩ := XTxInput.read_packed h32 hb rest pos
  rw [h] at hr
  split at hr
  · cases hr
  · next hs => exact ⟨⟨h32, hs⟩, (Prod.mk.inj (Option.some.inj hr)).2.symm⟩

/-- `Transaction.read` of the bytes of a wire transaction whose inputs have 32-byte `prev_hash`es
succeeds only if every input is readable: an empty script_sig fails its assertion. -/
theorem Tx.readable_of_read {tx : Tx} (h32 : ∀ i ∈ tx.inputs, i.prevHash.length = 32)
    {raw : Bytes} (h : tx.toBytes = some raw) {t : Transaction} {s : Stream}
    (hr : Transaction.read ⟨raw, 0⟩ = some (t, s)) : ∀ i ∈ tx.inputs, i.Readable := by
  simp only [Tx.toBytes, packList, Option.bind_eq_bind, Option.bind_eq_some, Option.pure_def,
    Option.some.injEq] at h
  obtain ⟨v, hv, _, ⟨count, hc, body, hbody, rfl⟩, outs, -, lt, -, rfl⟩ := h
  simp only [Transaction.read, Transaction.readWith, xreadListWith, bind_eq_some] at hr
  obtain ⟨_, s1, h1, _, _, ⟨n, s3, h3, h4⟩, -⟩ := hr
  simp only [List.append_assoc] at h1
  rw [readLeInt32, readSigned_packSigned hv] at h1
  obtain ⟨-, rfl⟩ := Prod.mk.inj (Option.some.inj h1)
  rw [readVarint_packVarint hc] at h3
  obtain ⟨rfl, rfl⟩ := Prod.mk.inj (Option.some.inj h3)
  exact readMany_packEach_readable
    (fun _ hx _ _ _ _ _ hb hr => XTxInput.read_packed_readable hx hb hr)
    tx.inputs h32 body _ _ _ _ hbody h4

/-! ## `update_script_offsets` -/

/-- One loop of `update_script_offsets`: the item at each index of `parsed` takes the offset and
length read there, and an index past the end of `items` raises `IndexError`. -/
def copyScriptOffsets {α β : Type} (set : α → β → α) : List α → List β → Option (List α)
  | items, [] => some items
  | [], _ :: _ => none
  | x :: xs, p :: ps => (set x p :: ·) <$> copyScriptOffsets set xs ps

/-- The two assignments of `update_script_offsets` to an input. -/
def XTxInput.copyOffsets (i p : XTxInput) : XTxInput :=
  { i with scriptOffset := p.scriptOffset, scriptLength := p.scriptLength }

/-- The two assignments of `update_script_offsets` to an output. -/
def XTxOutput.copyOffsets (o p : XTxOutput) : XTxOutput :=
  { o with scriptOffset := p.scriptOffset, scriptLength := p.scriptLength }

/-- `Transaction.update_script_offsets`: after the completeness assertion, `to_bytes` sets the
script_sig of every input with keys; the bytes are read back, and each input and output takes
the offset and length read at its index. -/
def Transaction.updateScriptOffsets (c : TxConfig) (t : Transaction) : Option Transaction := do
  guard t.isComplete
  let inputs ← t.inputs.mapM (XTxInput.withScriptSig c)
  let raw ← t.toBytes c
  let withOffsets ← Transaction.fromBytes raw
  let inputs ← copyScriptOffsets XTxInput.copyOffsets inputs withOffsets.inputs
  let outputs ← copyScriptOffsets XTxOutput.copyOffsets t.outputs withOffsets.outputs
  pure { t with inputs := inputs, outputs := outputs }

/-- The loop over items that correspond, index by index, to the items read back: each pair's
property holds of what the loop returns at that index. -/
theorem copyScriptOffsets_forall₂ {α β γ : Type} {set : α → β → α} {R : γ → α → Prop}
    {S : γ → β → Prop} {T : γ → α → Prop} (h : ∀ z x p, R z x → S z p → T z (set x p)) :
    ∀ {zs xs ps ys}, List.Forall₂ R zs xs → List.Forall₂ S zs ps →
      copyScriptOffsets set xs ps = some ys → List.Forall₂ T zs ys
  | _, _, _, _, .nil, .nil, hc => by
    cases hc
    exact .nil
  | _, _, _, _, .cons h1 t1, .cons h2 t2, hc => by
    rw [copyScriptOffsets] at hc
    obtain ⟨ys, hys, rfl⟩ := Option.map_eq_some'.1 hc
    exact .cons (h _ _ _ h1 h2) (copyScriptOffsets_forall₂ h t1 t2 hys)

/-- `List.forall₂_and_left` for a property of the right list. -/
theorem forall₂_and_right {α β : Type} {R : α → β → Prop} {P : β → Prop} :
    ∀ {l₁ : List α} {l₂ : List β}, List.Forall₂ R l₁ l₂ → (∀ b ∈ l₂, P b) →
      List.Forall₂ (fun a b => R a b ∧ P b) l₁ l₂
  | _, _, .nil, _ => .nil
  | _, _, .cons h t, hP =>
    .cons ⟨h, hP _ (.head _)⟩ (forall₂_and_right t fun b hb => hP b (.tail _ hb))

theorem forall_mem_right_of_forall₂ {α β : Type} {R : α → β → Prop} {P : β → Prop}
    (h : ∀ a b, R a b → P b) : ∀ {l₁ : List α} {l₂ : List β}, List.Forall₂ R l₁ l₂ → ∀ b ∈ l₂, P b
  | _, _, .nil => fun _ hb => absurd hb (List.not_mem_nil _)
  | _, _, .cons hab t => List.forall_mem_cons.2 ⟨h _ _ hab, forall_mem_right_of_forall₂ h t⟩

namespace XTxInput

theorem withScriptSig_eq_some {c : TxConfig} {i j : XTxInput} (h : i.withScriptSig c = some j) :
    j.withScriptSig c = some j ∧ j.toTxInput = { i.toTxInput with scriptSig := j.scriptSig } := by
  unfold withScriptSig at h ⊢
  split at h
  · obtain ⟨s, hs, rfl⟩ := Option.map_eq_some'.1 h
    simp_all
  · cases h
    simp_all

theorem withScriptSig_copyOffsets (c : TxConfig) (i p : XTxInput) :
    (i.copyOffsets p).withScriptSig c = (·.copyOffsets p) <$> i.withScriptSig c := by
  by_cases hk : i.xPubkeys = []
  · simp [withScriptSig, copyOffsets, hk]
  · simp only [withScriptSig, copyOffsets, ne_eq, hk, not_false_eq_true, if_true,
      Option.map_eq_map, Option.map_map]
    rfl

end XTxInput

namespace Transaction

theorem updateScriptOffsets_eq_some {c : TxConfig} {t t' : Transaction}
    (h : t.updateScriptOffsets c = some t') :
    ∃ ins raw p ins' outs', t.inputs.mapM (XTxInput.withScriptSig c) = some ins ∧
      t.toBytes c = some raw ∧ fromBytes raw = some p ∧
      copyScriptOffsets XTxInput.copyOffsets ins p.inputs = some ins' ∧
      copyScriptOffsets XTxOutput.copyOffsets t.outputs p.outputs = some outs' ∧
      t' = { t with inputs := ins', outputs := outs' } := by
  simp only [updateScriptOffsets, Option.bind_eq_bind, Option.bind_eq_some, Option.pure_def,
    Option.some.injEq] at h
  obtain ⟨-, -, ins, hins, raw, hraw, p, hp, ins', hins', outs', houts', rfl⟩ := h
  exact ⟨ins, raw, p, ins', outs', hins, hraw, hp, hins', houts', rfl⟩

/-- The inputs that the update returns are those that `to_bytes` wrote, which it writes unchanged,
each with the pair read back at its index. -/
theorem copyOffsets_inputs {c : TxConfig} {raw : Bytes} {ins ps ins' : List XTxInput}
    (hsync : ∀ j ∈ ins, j.withScriptSig c = some j)
    (hps : ps.mapM (fun q => XTxInput.toTxInput <$> q.withScriptSig c) =
      some (ins.map XTxInput.toTxInput))
    (hmeta : ∀ q ∈ ps, q.signingMetadata = (.NONE, 0, none, [], []))
    (hat : ∀ q ∈ ps, scriptAt raw q.scriptOffset q.scriptLength = q.scriptSig)
    (h : copyScriptOffsets XTxInput.copyOffsets ins ps = some ins') :
    ins'.mapM (fun y => XTxInput.toTxInput <$> y.withScriptSig c) =
        some (ins.map XTxInput.toTxInput) ∧
      ∀ y ∈ ins', scriptAt raw y.scriptOffset y.scriptLength = y.scriptSig := by
  have hR : List.Forall₂ (fun ti j => j.withScriptSig c = some j ∧ j.toTxInput = ti)
      (ins.map XTxInput.toTxInput) ins :=
    List.forall₂_map_left_iff.2 (List.forall₂_same.2 fun j hj => ⟨hsync j hj, rfl⟩)
  have hS := forall₂_and_right (mapM_eq_some_iff_forall₂.1 hps) fun q hq =>
    And.intro (congrArg (·.2.2.2.2) (hmeta q hq)) (hat q hq)
  have hT : List.Forall₂ (fun ti y => XTxInput.toTxInput <$> y.withScriptSig c = some ti ∧
      scriptAt raw y.scriptOffset y.scriptLength = y.scriptSig) (ins.map XTxInput.toTxInput) ins' :=
    copyScriptOffsets_forall₂ (fun ti j q ⟨hj, hjt⟩ ⟨hq, hq0, hqa⟩ => by
      rw [XTxInput.withScriptSig_of_nil c hq0] at hq
      cases hq
      refine ⟨by rw [XTxInput.withScriptSig_copyOffsets, hj]; exact congrArg some hjt, ?_⟩
      rw [← congrArg TxInput.scriptSig hjt] at hqa
      exact hqa) hR hS h
  exact ⟨mapM_eq_some_iff_forall₂.2 (hT.imp fun _ _ h => h.1),
    forall_mem_right_of_forall₂ (fun _ _ h => h.2) hT⟩

/-- The outputs that the update returns have the wire form of those it was given, each with the
pair read back at its index. -/
theorem copyOffsets_outputs {raw : Bytes} {os ps outs' : List XTxOutput}
    (hps : ps.map XTxOutput.toTxOutput = os.map XTxOutput.toTxOutput)
    (hat : ∀ q ∈ ps, scriptAt raw q.scriptOffset q.scriptLength = q.scriptPubkey)
    (h : copyScriptOffsets XTxOutput.copyOffsets os ps = some outs') :
    outs'.map XTxOutput.toTxOutput = os.map XTxOutput.toTxOutput ∧
      ∀ y ∈ outs', scriptAt raw y.scriptOffset y.scriptLength = y.scriptPubkey := by
  have hR : List.Forall₂ (fun wo o => o.toTxOutput = wo) (os.map XTxOutput.toTxOutput) os :=
    List.forall₂_map_left_iff.2 (List.forall₂_same.2 fun _ _ => rfl)
  have hS : List.Forall₂ (fun wo q => q.toTxOutput = wo ∧
      scriptAt raw q.scriptOffset q.scriptLength = q.scriptPubkey)
      (os.map XTxOutput.toTxOutput) ps := by
    refine forall₂_and_right ?_ hat
    rw [← hps]
    exact List.forall₂_map_left_iff.2 (List.forall₂_same.2 fun _ _ => rfl)
  have hT : List.Forall₂ (fun wo y => y.toTxOutput = wo ∧
      scriptAt raw y.scriptOffset y.scriptLength = y.scriptPubkey)
      (os.map XTxOutput.toTxOutput) outs' :=
    copyScriptOffsets_forall₂ (fun _ _ _ ho ⟨hq, hqa⟩ => ⟨ho, by
      rw [← congrArg TxOutput.scriptPubkey (ho.trans hq.symm)] at hqa
      exact hqa⟩) hR hS h
  have ho := List.forall₂_map_right_iff.2 (hT.imp fun _ _ h => h.1.symm)
  rw [List.forall₂_eq_eq_eq] at ho
  exact ⟨ho.symm, forall_mem_right_of_forall₂ (fun _ _ h => h.2) hT⟩

/-- `from_bytes` stores with every script the slice of its input that holds it; so after
`update_script_offsets`, when every `prev_hash` has 32 bytes, each stored pair locates its script
in the bytes of the transaction, which the update leaves unchanged. -/
theorem script_offsets_locate_scripts (c : TxConfig) :
    (∀ (raw : Bytes) (t : Transaction), fromBytes raw = some t → t.ScriptsAt raw) ∧
    ∀ t t' : Transaction, (∀ i ∈ t.inputs, i.prevHash.length = 32) →
      t.updateScriptOffsets c = some t' →
      ∃ raw, t.toBytes c = some raw ∧ t'.toBytes c = some raw ∧ t'.ScriptsAt raw := by
  refine ⟨fun _ _ => fromBytes_scriptsAt, fun t t' h32 h => ?_⟩
  obtain ⟨ins, raw, p, ins', outs', hins, hraw, hp, hins', houts', rfl⟩ :=
    updateScriptOffsets_eq_some h
  obtain ⟨tx, htx, hb⟩ := Option.bind_eq_some.1 ((toBytes_eq c t).symm.trans hraw)
  obtain ⟨hV, hI, hO, hL⟩ := (toTx_eq_some_iff c t tx).1 htx
  -- `to_bytes` rewrote the inputs to `ins`, which it writes unchanged
  have hW := forall₂_and_right (mapM_eq_some_iff_forall₂.1 hins) h32
  have hins1 : ∀ j ∈ ins, j.withScriptSig c = some j ∧ j.prevHash.length = 32 :=
    ((List.forall₂_and_left _ _).1 (hW.imp fun _ _ ⟨hj, hi⟩ =>
      ⟨⟨(XTxInput.withScriptSig_eq_some hj).1,
        by rw [← hi, ← congrArg TxInput.prevHash (XTxInput.withScriptSig_eq_some hj).2]⟩, hj⟩)).1
  have htxI : tx.inputs = ins.map XTxInput.toTxInput := Option.some.inj <| hI.symm.trans <|
    mapM_eq_some_iff_forall₂.2 <| List.forall₂_map_left_iff.2 <| hW.imp fun _ _ ⟨hj, _⟩ => by
      rw [hj]; rfl
  -- so the bytes read back as `tx`, whose inputs are readable
  obtain ⟨⟨_, s⟩, hr, -⟩ := Option.map_eq_some'.1 hp
  have hread := Tx.readable_of_read (by simpa [htxI] using fun j hj => (hins1 j hj).2) hb hr
  obtain ⟨p', hp', hpt, -⟩ := fromBytes_toBytes c htx hread hraw
  obtain rfl : p = p' := Option.some.inj (hp.symm.trans hp')
  obtain ⟨-, hPI, hPO, -⟩ := (toTx_eq_some_iff c p tx).1 hpt
  -- each input and output takes the pair read at its index
  obtain ⟨hI', hai⟩ := copyOffsets_inputs (fun j hj => (hins1 j hj).1) (htxI ▸ hPI)
    (fromBytes_returns hp).1 (fromBytes_scriptsAt hp).1 hins'
  obtain ⟨hO', hao⟩ := copyOffsets_outputs (hPO.trans hO.symm) (fromBytes_scriptsAt hp).2 houts'
  -- the update leaves the wire form, and so the bytes, unchanged
  have ht' : ({ t with inputs := ins', outputs := outs' } : Transaction).toTx c = some tx :=
    (toTx_eq_some_iff c _ tx).2 ⟨hV, htxI ▸ hI', hO'.trans hO, hL⟩
  exact ⟨raw, hraw, by rw [toBytes_eq, ht', Option.some_bind, hb], hai, hao⟩

end Transaction

theorem sampleTransaction_script_offsets :
    Transaction.fromBytes sampleRaw = some (parsedSample 42 57) ∧
    (parsedSample 42 57).ScriptsAt sampleRaw ∧
    sampleTransaction.updateScriptOffsets sampleTxConfig = some (parsedSample 42 57) ∧
    ∃ raw, sampleTransaction.toBytes sampleTxConfig = some raw ∧
      (parsedSample 42 57).toBytes sampleTxConfig = some raw ∧
      (parsedSample 42 57).ScriptsAt raw := by
  have hraw : sampleTransaction.toBytes sampleTxConfig = some sampleRaw := rfl
  have hp : Transaction.fromBytes sampleRaw = some (parsedSample 42 57) := by decide
  have hu : sampleTransaction.updateScriptOffsets sampleTxConfig = some (parsedSample 42 57) := by
    rw [Transaction.updateScriptOffsets, hraw]
    simp only [Option.bind_eq_bind, Option.some_bind, hp]
    rfl
  exact ⟨hp, (Transaction.script_offsets_locate_scripts sampleTxConfig).1 _ _ hp, hu,
    (Transaction.script_offsets_locate_scripts sampleTxConfig).2 _ _ (by decide) hu⟩

/-- An input with a 31-byte `prev_hash` and the script_sig `01 51`, a push of the byte `0x51`. -/
def shortHashInput : XTxInput :=
  { prevHash := List.replicate 31 7, prevIdx := 1, scriptSig := [1, 0x51], sequence := 0xffffffff }

/-- A complete transaction with `shortHashInput` and `sampleOutput`. -/
def shortHashTransaction : Transaction := ⟨1, [shortHashInput], [sampleOutput], 0⟩

/-- The 62 bytes of `shortHashTransaction`. -/
def shortHashRaw : Bytes :=
  [1, 0, 0, 0, 1] ++ List.replicate 31 7 ++ [1, 0, 0, 0, 2, 1, 0x51, 0xff, 0xff, 0xff, 0xff,
    1, 0xe8, 3, 0, 0, 0, 0, 0, 0, 1, 0x51, 0, 0, 0, 0]

/-- What `from_bytes` reads from `shortHashRaw`: the first byte of `prev_idx` completes the
`prev_hash`, and the script_sig's own first byte is taken as its length. -/
def shortHashParsed : Transaction :=
  ⟨1, [{ prevHash := List.replicate 31 7 ++ [1], prevIdx := 0x2000000, scriptSig := [0x51],
         sequence := 0xffffffff, scriptOffset := 42, scriptLength := 1 }],
    [{ sampleOutput with scriptOffset := 57, scriptLength := 1 }], 0⟩

/-- `shortHashTransaction` after `update_script_offsets`, with the offsets of `shortHashParsed`. -/
def shortHashUpdated : Transaction :=
  ⟨1, [{ shortHashInput with scriptOffset := 42, scriptLength := 1 }],
    [{ sampleOutput with scriptOffset := 57, scriptLength := 1 }], 0⟩

theorem short_prev_hash_offsets_miss :
    shortHashTransaction.isComplete = true ∧
    shortHashTransaction.updateScriptOffsets sampleTxConfig = some shortHashUpdated ∧
    shortHashUpdated.toBytes sampleTxConfig = some shortHashRaw ∧
    ¬ shortHashUpdated.ScriptsAt shortHashRaw := by
  have hraw : shortHashTransaction.toBytes sampleTxConfig = some shortHashRaw := rfl
  have hp : Transaction.fromBytes shortHashRaw = some shortHashParsed := by decide
  refine ⟨rfl, ?_, rfl, by decide⟩
  rw [Transaction.updateScriptOffsets, hraw]
  simp only [Option.bind_eq_bind, Option.some_bind, hp]
  rfl

end ElectrumSV
