import Mathlib.Algebra.Order.BigOperators.Group.List
import ElectrumSV.Transaction.UpdateSignatures
/-!
# The fee and the signature count

`Transaction.get_fee` is the value of the inputs, which raises where an input has no value, less
the value of the outputs; `signature_count` is the number of signatures present and the number
required, summed over the inputs; `XTxInput.unused_x_pubkeys` lists the keys of an incomplete
input whose slot still holds `NO_SIGNATURE`.

A transaction is changed in place by three of its methods: `BIP_LI01_sort` reorders its inputs
and outputs, and `sign` and `update_signatures` write signature slots. Over any sequence of these
calls that returns:

* `runCalls_getFee_signatureCount`: the fee is unchanged, and so is the number of signatures
  required, while the number present never goes down. Each call keeps the inputs up to their
  signatures and the outputs, each up to order, and blanks no slot that held a signature
  (`Keeps`, `keeps_call`).
* `sign_unusedXPubkeys`: after `sign`, a key that `unused_x_pubkeys` lists is one that `keypairs`
  does not hold. The outer loop leaves each input it has passed with a signature in the slot of
  every key held (`InputsSigned`), as the inner loop does for the slots it has passed
  (`SlotsSigned`); no outpoints need be distinct.
-/

namespace ElectrumSV

namespace XTxInput

/-- `XTxInput.signatures_present`. -/
def signaturesPresent (i : XTxInput) : List Bytes := i.signatures.filter (· != noSignature)

/-- `XTxInput.unused_x_pubkeys`. -/
def unusedXPubkeys (i : XTxInput) : List XPublicKey :=
  if i.isComplete then []
  else ((i.xPubkeys.zip i.signatures).filter fun p => p.2 == noSignature).map Prod.fst

/-- The input without its signatures. -/
def unsigned (i : XTxInput) : XTxInput := { i with signatures := [] }

/-- `y` is `x` with signature slots written, and no slot that held a signature left without one. -/
def GainsSignatures (x y : XTxInput) : Prop :=
  y.unsigned = x.unsigned ∧
    List.Forall₂ (fun s s' => s ≠ noSignature → s' ≠ noSignature) x.signatures y.signatures

/-- Each key of the input that `keypairs` holds has a signature in its slot, unless the input is
complete. -/
def HeldKeysSigned (keypairs : XPublicKey → Option Bytes) (y : XTxInput) : Prop :=
  y.isComplete ∨ ∀ (j : Nat) k, y.xPubkeys[j]? = some k → keypairs k ≠ none →
    y.signatures[j]? ≠ some noSignature

end XTxInput

namespace Transaction

/-- `Transaction.input_value`; `none` where an input has no value and the sum raises. -/
def inputValue (t : Transaction) : Option Int := List.sum <$> t.inputs.mapM XTxInput.value

/-- `Transaction.output_value`. -/
def outputValue (t : Transaction) : Int := (t.outputs.map fun o => o.value).sum

/-- `Transaction.get_fee`; `none` where `input_value` raises. -/
def getFee (t : Transaction) : Option Int := (· - t.outputValue) <$> t.inputValue

/-- One input of the loop of `signature_count`. -/
def countSignatures (sr : Nat × Int) (txin : XTxInput) : Nat × Int :=
  (sr.1 + txin.signaturesPresent.length, sr.2 + txin.threshold)

/-- `Transaction.signature_count`: the signatures present and the signatures required. -/
def signatureCount (t : Transaction) : Nat × Int := t.inputs.foldl countSignatures (0, 0)

/-- The methods of `Transaction` that change it in place. -/
inductive Call
  | bipLI01Sort
  | sign (keypairs : XPublicKey → Option Bytes)
  | updateSignatures (signatures : List Bytes)

/-- One call; `none` where it raises. -/
def call (c : RecoverConfig) (t : Transaction) : Call → Option Transaction
  | .bipLI01Sort => t.bipLI01Sort
  | .sign keypairs => sign c.toSignConfig keypairs t
  | .updateSignatures signatures => updateSignatures c t signatures

/-- Calls one after another, up to the first that raises. -/
def runCalls (c : RecoverConfig) (t : Transaction) (calls : List Call) : Option Transaction :=
  calls.foldlM (call c) t

/-- `u` is `t` with signature slots of its inputs written, none blanked. -/
def GainsSignatures (t u : Transaction) : Prop :=
  List.Forall₂ XTxInput.GainsSignatures t.inputs u.inputs ∧ u.outputs = t.outputs

end Transaction

/-! ## Lists -/

section Lists

variable {α β : Type}

/-- A loop over `Option` keeps what each of its steps keeps. -/
theorem foldlM_invariant {f : β → α → Option β} (P : β → Prop) :
    ∀ {l : List α}, (∀ b a b', a ∈ l → P b → f b a = some b' → P b') →
      ∀ {b r : β}, P b → l.foldlM f b = some r → P r
  | [], _, _, _, hb, h => by cases h; exact hb
  | a :: l, hf, b, r, hb, h => by
    rw [List.foldlM_cons] at h
    obtain ⟨b', hb', h⟩ := Option.bind_eq_some.1 h
    exact foldlM_invariant P (fun b a b' ha => hf b a b' (.tail _ ha)) (hf b a b' (.head _) hb hb') h

theorem foldlM_enumFrom_invariant {f : β → Nat × α → Option β} (l : List α)
    (I : Nat → β → Prop) (hf : ∀ n a b b', l[n]? = some a → I n b → f b (n, a) = some b' →
      I (n + 1) b') :
    ∀ (rest pre : List α) {b r : β}, l = pre ++ rest → I pre.length b →
      (List.enumFrom pre.length rest).foldlM f b = some r → I l.length r
  | [], pre, _, _, hl, hb, h => by
    cases h
    rwa [hl, List.append_nil]
  | a :: rest, pre, b, r, hl, hb, h => by
    rw [List.enumFrom_cons, List.foldlM_cons] at h
    obtain ⟨b', hb', h⟩ := Option.bind_eq_some.1 h
    have ha : l[pre.length]? = some a := by
      rw [hl, List.getElem?_append_right le_rfl, Nat.sub_self, List.getElem?_cons_zero]
    exact foldlM_enumFrom_invariant l I hf rest (pre ++ [a]) (by simp [hl])
      (by simpa using hf _ _ _ _ ha hb hb') (by simpa using h)

/-- A loop over the entries of `l` with their positions keeps an invariant indexed by the position
it has reached. -/
theorem foldlM_enum_invariant {f : β → Nat × α → Option β} (l : List α) (I : Nat → β → Prop)
    (hf : ∀ n a b b', l[n]? = some a → I n b → f b (n, a) = some b' → I (n + 1) b')
    {b r : β} (hb : I 0 b) (h : l.enum.foldlM f b = some r) : I l.length r :=
  foldlM_enumFrom_invariant l I hf l [] rfl hb h

/-- The sum of a list of optional numbers: `none` where one is missing. -/
theorem sum_mapM_eq (f : α → Option Int) : ∀ l : List α,
    List.sum <$> l.mapM f =
      if ∀ a ∈ l, (f a).isSome then some (l.map fun a => (f a).getD 0).sum else none
  | [] => rfl
  | a :: l => by
    rw [List.mapM_cons]
    cases ha : f a with
    | none =>
      rw [if_neg fun h => by simpa [ha] using h a (.head _)]
      rfl
    | some x =>
      have ih := sum_mapM_eq f l
      simp only [List.forall_mem_cons, ha, Option.isSome_some, true_and, List.map_cons,
        Option.getD_some, List.sum_cons]
      cases hl : l.mapM f with
      | none =>
        rw [hl] at ih
        split at ih
        · cases ih
        · rw [if_neg ‹_›]; rfl
      | some xs =>
        rw [hl] at ih
        split at ih
        · rw [if_pos ‹_›, ← Option.some.inj ih]; rfl
        · cases ih

/-- The sum is the same over two lists that `g` maps to permutations of each other. -/
theorem mapM_sum_perm {γ : Type} {g : α → γ} {f : γ → Option Int} {l₁ l₂ : List α}
    (h : (l₁.map g).Perm (l₂.map g)) :
    List.sum <$> l₁.mapM (fun a => f (g a)) = List.sum <$> l₂.mapM (fun a => f (g a)) := by
  have hs := (h.map fun c => (f c).getD 0).sum_eq
  simp only [List.map_map, Function.comp_def] at hs
  have hall : (∀ c ∈ l₁.map g, (f c).isSome) ↔ ∀ c ∈ l₂.map g, (f c).isSome := by
    simp only [h.mem_iff]
  simp only [List.forall_mem_map] at hall
  rw [sum_mapM_eq, sum_mapM_eq, hs, if_congr hall rfl rfl]

/-- Writing a slot with a value related to what the left list holds there keeps the lists
related. -/
theorem forall₂_set {R : α → β → Prop} {b : β} :
    ∀ {l₁ : List α} {l₂ : List β} {i : Nat}, List.Forall₂ R l₁ l₂ →
      (∀ a, l₁[i]? = some a → R a b) → List.Forall₂ R l₁ (l₂.set i b)
  | _, _, _, .nil, _ => .nil
  | a :: _, _ :: _, 0, .cons _ h, hab => .cons (hab a (List.getElem?_cons_zero ..)) h
  | _ :: _, _ :: _, _ + 1, .cons hxy h, hab =>
    .cons hxy (forall₂_set h fun a ha => hab a (by rwa [List.getElem?_cons_succ]))

end Lists

/-! ## Inputs -/

namespace XTxInput

@[simp] theorem unsigned_value (i : XTxInput) : i.unsigned.value = i.value := rfl

@[simp] theorem unsigned_threshold (i : XTxInput) : i.unsigned.threshold = i.threshold := rfl

theorem mem_unusedXPubkeys {i : XTxInput} {k : XPublicKey} :
    k ∈ i.unusedXPubkeys ↔
      i.isComplete = false ∧ ∃ j : Nat, i.xPubkeys[j]? = some k ∧ i.signatures[j]? = some noSignature := by
  unfold unusedXPubkeys
  cases i.isComplete
  · simp only [Bool.false_eq_true, if_false, List.mem_map, List.mem_filter, beq_iff_eq,
      Prod.exists, true_and]
    constructor
    · rintro ⟨k', s, ⟨hmem, rfl⟩, rfl⟩
      obtain ⟨j, hj⟩ := List.mem_iff_getElem?.1 hmem
      exact ⟨j, List.getElem?_zip_eq_some.1 hj⟩
    · rintro ⟨j, hk, hs⟩
      exact ⟨k, noSignature, ⟨List.mem_iff_getElem?.2 ⟨j, List.getElem?_zip_eq_some.2 ⟨hk, hs⟩⟩,
        rfl⟩, rfl⟩
  · simp

theorem GainsSignatures.refl (x : XTxInput) : x.GainsSignatures x :=
  ⟨rfl, List.forall₂_same.2 fun _ _ h => h⟩

/-- Writing a signature into a slot. -/
theorem GainsSignatures.setSignature {x y y' : XTxInput} (hy : x.GainsSignatures y) {j : Nat}
    {sig : Bytes} (h : y.setSignature j sig = some y') (hsig : sig ≠ noSignature) :
    x.GainsSignatures y' := by
  unfold XTxInput.setSignature at h
  split at h
  · cases h
    exact ⟨hy.1, forall₂_set hy.2 fun _ _ _ => hsig⟩
  · cases h

theorem length_filter_le_of_forall₂ {l₁ l₂ : List Bytes}
    (h : List.Forall₂ (fun s s' => s ≠ noSignature → s' ≠ noSignature) l₁ l₂) :
    (l₁.filter (· != noSignature)).length ≤ (l₂.filter (· != noSignature)).length := by
  induction h with
  | nil => rfl
  | @cons s s' _ _ hs _ ih =>
    by_cases h₁ : s = noSignature <;> by_cases h₂ : s' = noSignature <;>
      simp_all [List.filter_cons]
    omega

/-- An input gains no signature present by losing one. -/
theorem GainsSignatures.length_le {x y : XTxInput} (h : x.GainsSignatures y) :
    x.signaturesPresent.length ≤ y.signaturesPresent.length :=
  length_filter_le_of_forall₂ h.2

end XTxInput

/-! ## The fee and the counts -/

namespace Transaction

theorem signatureCount_eq (t : Transaction) :
    t.signatureCount = ((t.inputs.map fun i => i.signaturesPresent.length).sum,
      (t.inputs.map XTxInput.threshold).sum) := by
  suffices ∀ (l : List XTxInput) (sr : Nat × Int), l.foldl countSignatures sr =
      (sr.1 + (l.map fun i => i.signaturesPresent.length).sum, sr.2 + (l.map XTxInput.threshold).sum)
    by simpa using this t.inputs (0, 0)
  intro l
  induction l with
  | nil => simp
  | cons i l ih =>
    intro sr
    simp only [List.foldl_cons, ih, countSignatures, List.map_cons, List.sum_cons]
    ext <;> simp only <;> ac_rfl

/-- What every call keeps of the transaction `t` it started from: the inputs up to their
signatures and the outputs, each up to order, and at least as many signatures present. -/
structure Keeps (t u : Transaction) : Prop where
  inputs : (u.inputs.map XTxInput.unsigned).Perm (t.inputs.map XTxInput.unsigned)
  outputs : u.outputs.Perm t.outputs
  present : t.signatureCount.1 ≤ u.signatureCount.1

theorem Keeps.refl (t : Transaction) : Keeps t t := ⟨.refl _, .refl _, le_rfl⟩

theorem Keeps.trans {t u v : Transaction} (h₁ : Keeps t u) (h₂ : Keeps u v) : Keeps t v :=
  ⟨h₂.inputs.trans h₁.inputs, h₂.outputs.trans h₁.outputs, h₁.present.trans h₂.present⟩

theorem getFee_of_keeps {t u : Transaction} (h : Keeps t u) : u.getFee = t.getFee := by
  have hin : u.inputValue = t.inputValue := mapM_sum_perm (g := XTxInput.unsigned) (f := XTxInput.value) h.inputs
  have hout : u.outputValue = t.outputValue := (h.outputs.map _).sum_eq
  rw [getFee, getFee, hin, hout]

theorem signatureCount_snd_of_keeps {t u : Transaction} (h : Keeps t u) :
    u.signatureCount.2 = t.signatureCount.2 := by
  have := (h.inputs.map XTxInput.threshold).sum_eq
  simpa only [signatureCount_eq, List.map_map, Function.comp_def,
    XTxInput.unsigned_threshold] using this

/-! ## What each call keeps -/

theorem bipLI01Sort_perm {t t' : Transaction} (h : t.bipLI01Sort = some t') :
    t'.inputs.Perm t.inputs ∧ t'.outputs.Perm t.outputs := by
  simp only [bipLI01Sort, Option.bind_eq_bind, Option.bind_eq_some, Option.pure_def,
    Option.some.injEq] at h
  obtain ⟨keyed, hk, rfl⟩ := h
  have hsnd : keyed.map Prod.snd = t.inputs.map id :=
    map_of_mapM_eq_some (fun _ b hb => by
      obtain ⟨_, -, rfl⟩ := Option.map_eq_some'.1 hb
      rfl) hk
  rw [List.map_id] at hsnd
  exact ⟨hsnd ▸ (pySort_perm Prod.fst keyed).map Prod.snd, pySort_perm _ _⟩

theorem keeps_bipLI01Sort {t t' : Transaction} (h : t.bipLI01Sort = some t') : Keeps t t' := by
  obtain ⟨hin, hout⟩ := bipLI01Sort_perm h
  refine ⟨hin.map _, hout, le_of_eq ?_⟩
  simp only [signatureCount_eq]
  exact (hin.map _).sum_eq.symm

theorem keeps_of_gainsSignatures {t u : Transaction} (h : t.GainsSignatures u) : Keeps t u := by
  have hmap : ∀ {l₁ l₂ : List XTxInput}, List.Forall₂ XTxInput.GainsSignatures l₁ l₂ →
      l₂.map XTxInput.unsigned = l₁.map XTxInput.unsigned ∧
        (l₁.map fun i => i.signaturesPresent.length).sum ≤
          (l₂.map fun i => i.signaturesPresent.length).sum := by
    intro l₁ l₂ hl
    induction hl with
    | nil => simp
    | cons hxy _ ih =>
      simp only [List.map_cons, List.sum_cons, hxy.1, ih.1, true_and]
      exact Nat.add_le_add hxy.length_le ih.2
  obtain ⟨hu, hp⟩ := hmap h.1
  refine ⟨hu ▸ .refl _, h.2 ▸ .refl _, ?_⟩
  simpa only [signatureCount_eq] using hp

theorem gainsSignatures_set {t u : Transaction} (hu : t.GainsSignatures u) {idx : Nat}
    {x y : XTxInput} (hx : t.inputs[idx]? = some x) (hy : x.GainsSignatures y) :
    t.GainsSignatures { u with inputs := u.inputs.set idx y } :=
  ⟨forall₂_set hu.1 fun _ ha => (Option.some.inj (ha.symm.trans hx)) ▸ hy, hu.2⟩

section Calls

variable (c : SignConfig) (keypairs : XPublicKey → Option Bytes)

/-- A signature that `_sign_txin` returns ends with the sighash byte. -/
theorem signTxin_ne_noSignature {t : Transaction} {txin : XTxInput} {sec sig : Bytes}
    (h : t.signTxin c txin sec = some sig) : sig ≠ noSignature := by
  simp only [signTxin, Option.bind_eq_bind, Option.bind_eq_some, Option.pure_def,
    Option.some.injEq] at h
  obtain ⟨_, -, _, -, rfl⟩ := h
  exact signature_ne_noSignature _

/-- One key of the inner loop of `sign` writes the input at `idx` with the input it works on. -/
theorem signSlot_gainsSignatures {t : Transaction} {idx : Nat} {x : XTxInput}
    (hx : t.inputs[idx]? = some x) {st st' : Transaction × XTxInput} {slot : Nat × XPublicKey}
    (hst : t.GainsSignatures st.1 ∧ x.GainsSignatures st.2)
    (h : signSlot c keypairs idx st slot = some st') :
    t.GainsSignatures st'.1 ∧ x.GainsSignatures st'.2 := by
  unfold signSlot at h
  split at h
  · cases h
    exact hst
  · simp only [Option.bind_eq_bind, Option.bind_eq_some, Option.pure_def, Option.some.injEq] at h
    obtain ⟨sig, hsig, txin, htxin, rfl⟩ := h
    have hg := hst.2.setSignature htxin (signTxin_ne_noSignature c hsig)
    exact ⟨gainsSignatures_set hst.1 hx hg, hg⟩

/-- `sign` writes only signature slots, and blanks none. -/
theorem sign_gainsSignatures {t t' : Transaction} (h : sign c keypairs t = some t') :
    t.GainsSignatures t' := by
  refine foldlM_invariant t.GainsSignatures (fun u p u' hp hu hstep => ?_)
    ⟨List.forall₂_same.2 fun x _ => .refl x, rfl⟩ h
  have hx : t.inputs[p.1]? = some p.2 := List.mem_enum_iff_getElem?.1 hp
  unfold signInput at hstep
  split at hstep
  · cases hstep
    exact hu
  · obtain ⟨st, hst, rfl⟩ := Option.map_eq_some'.1 hstep
    exact (foldlM_invariant (fun st => t.GainsSignatures st.1 ∧ p.2.GainsSignatures st.2)
      (fun _ _ _ _ hq hs => signSlot_gainsSignatures c keypairs hx hq hs)
      ⟨hu, .refl _⟩ hst).1

end Calls

section UpdateCalls

variable (c : RecoverConfig)

/-- One input of the loop of `update_signatures` writes the signature it was given. -/
theorem updateInput_gainsSignatures {t u u' : Transaction} {p : Nat × XTxInput × Bytes}
    (hp : t.inputs[p.1]? = some p.2.1) (hu : t.GainsSignatures u)
    (h : updateInput c u p = some u') : t.GainsSignatures u' := by
  obtain ⟨idx, x, signature⟩ := p
  simp only [updateInput] at h
  split at h
  · cases h
    exact hu
  simp only [Option.bind_eq_bind, Option.bind_eq_some] at h
  obtain ⟨_, -, _, -, _, -, h⟩ := h
  split at h
  · cases h
    exact hu
  · obtain ⟨y, hy, h⟩ := Option.bind_eq_some.1 h
    cases Option.some.inj h
    exact gainsSignatures_set hu hp
      ((XTxInput.GainsSignatures.refl x).setSignature hy (signature_ne_noSignature _))

/-- `update_signatures` writes only signature slots, and blanks none. -/
theorem updateSignatures_gainsSignatures {t t' : Transaction} {signatures : List Bytes}
    (h : updateSignatures c t signatures = some t') : t.GainsSignatures t' := by
  have hrefl : t.GainsSignatures t := ⟨List.forall₂_same.2 fun x _ => .refl x, rfl⟩
  unfold updateSignatures at h
  split at h
  · cases h
    exact hrefl
  split at h
  · cases h
  refine foldlM_invariant t.GainsSignatures (fun u p u' hp hu hstep => ?_) hrefl h
  have hp' := List.getElem?_zip_eq_some.1 (List.mem_enum_iff_getElem?.1 hp)
  exact updateInput_gainsSignatures c hp'.1 hu hstep

end UpdateCalls

/-! ## Runs of calls -/

section Runs

variable (c : RecoverConfig)

theorem keeps_call {t t' : Transaction} {m : Call} (h : call c t m = some t') : Keeps t t' := by
  cases m with
  | bipLI01Sort => exact keeps_bipLI01Sort h
  | sign keypairs => exact keeps_of_gainsSignatures (sign_gainsSignatures _ keypairs h)
  | updateSignatures signatures =>
    exact keeps_of_gainsSignatures (updateSignatures_gainsSignatures c h)

theorem keeps_runCalls {t t' : Transaction} {calls : List Call}
    (h : runCalls c t calls = some t') : Keeps t t' :=
  foldlM_invariant (Keeps t) (fun _ _ _ _ hu hstep => hu.trans (keeps_call c hstep))
    (Keeps.refl t) h

/-- Sorting, signing and adding a hardware device's signatures, in any order, leave the fee and
the number of signatures required as they were, and never lower the number present. -/
theorem runCalls_getFee_signatureCount {t t' : Transaction} {calls : List Call}
    (h : runCalls c t calls = some t') :
    t'.getFee = t.getFee ∧ t'.signatureCount.2 = t.signatureCount.2 ∧
      t.signatureCount.1 ≤ t'.signatureCount.1 :=
  have hk := keeps_runCalls c h
  ⟨getFee_of_keeps hk, signatureCount_snd_of_keeps hk, hk.present⟩

/-- A wallet holding the private key of the first input of `sampleSignTransaction` only. -/
def sampleFirstKeypair (k : XPublicKey) : Option Bytes :=
  if k = .pubkey [2, 1] then some [0x11] else none

/-- Two signers in turn: the first holds one key, the second both. -/
theorem sampleCosigners_runCalls_getFee_signatureCount :
    runCalls sampleRecoverConfig sampleSignTransaction
        [.sign sampleFirstKeypair, .sign sampleKeypairs] = some sampleSignedTransaction ∧
      sampleSignedTransaction.getFee = sampleSignTransaction.getFee ∧
      sampleSignedTransaction.signatureCount.2 = sampleSignTransaction.signatureCount.2 ∧
      sampleSignTransaction.signatureCount.1 ≤ sampleSignedTransaction.signatureCount.1 :=
  have h : runCalls sampleRecoverConfig sampleSignTransaction
      [.sign sampleFirstKeypair, .sign sampleKeypairs] = some sampleSignedTransaction := by decide
  ⟨h, runCalls_getFee_signatureCount sampleRecoverConfig h⟩

/-- The fee is 1000 before and after, and the signatures present go from none of two to two. -/
example : sampleSignTransaction.getFee = some 1000 ∧ sampleSignedTransaction.getFee = some 1000 ∧
    sampleSignTransaction.signatureCount = (0, 2) ∧
    sampleSignedTransaction.signatureCount = (2, 2) := by decide

end Runs

/-! ## The keys still needed after `sign` -/

section Unused

variable (c : SignConfig) (keypairs : XPublicKey → Option Bytes)

/-- An input that lists no key held by `keypairs` as unused. -/
theorem unheld_of_heldKeysSigned {y : XTxInput} (hy : y.HeldKeysSigned keypairs)
    {k : XPublicKey} (hk : k ∈ y.unusedXPubkeys) : keypairs k = none := by
  obtain ⟨hc, j, hkj, hsj⟩ := XTxInput.mem_unusedXPubkeys.1 hk
  rcases hy with hy | hy
  · rw [hc] at hy
    cases hy
  · exact not_not.1 fun hne => hy j k hkj hne hsj

/-- The inner loop of `sign` on the input `x` at `idx`, from slot `m` on: the input it works on is
the one at `idx`, no other input changes, and each key held among the first `m` has a signature in
its slot. -/
def SlotsSigned (u : Transaction) (idx : Nat) (x : XTxInput) (m : Nat)
    (st : Transaction × XTxInput) : Prop :=
  st.1.inputs[idx]? = some st.2 ∧ (∀ i, i ≠ idx → st.1.inputs[i]? = u.inputs[i]?) ∧
    st.2.xPubkeys = x.xPubkeys ∧
    ∀ j < m, ∀ k, x.xPubkeys[j]? = some k → keypairs k ≠ none →
      st.2.signatures[j]? ≠ some noSignature

theorem signSlot_slotsSigned {u : Transaction} {idx : Nat} {x : XTxInput} {m : Nat}
    {k : XPublicKey} (hk : x.xPubkeys[m]? = some k) {st st' : Transaction × XTxInput}
    (hst : SlotsSigned keypairs u idx x m st) (h : signSlot c keypairs idx st (m, k) = some st') :
    SlotsSigned keypairs u idx x (m + 1) st' := by
  obtain ⟨hidx, hother, hkeys, hslots⟩ := hst
  unfold signSlot at h
  split at h
  · next hnone =>
    cases h
    refine ⟨hidx, hother, hkeys, fun j hj k' hk' hne => ?_⟩
    rcases Nat.lt_succ_iff_lt_or_eq.1 hj with hj | rfl
    · exact hslots j hj k' hk' hne
    · rw [hk, Option.some.injEq] at hk'
      exact absurd (hk' ▸ hnone) hne
  · simp only [Option.bind_eq_bind, Option.bind_eq_some, Option.pure_def, Option.some.injEq] at h
    obtain ⟨sig, hsig, txin, htxin, rfl⟩ := h
    unfold XTxInput.setSignature at htxin
    split at htxin
    · next hm =>
      cases htxin
      have hlen : idx < st.1.inputs.length := (List.getElem?_eq_some_iff.1 hidx).1
      refine ⟨List.getElem?_set_self hlen, fun i hi => ?_, hkeys, fun j hj k' hk' hne => ?_⟩
      · rw [List.getElem?_set_ne (Ne.symm hi), hother i hi]
      · rcases Nat.lt_succ_iff_lt_or_eq.1 hj with hj | rfl
        · rw [List.getElem?_set_ne (Nat.ne_of_gt hj)]
          exact hslots j hj k' hk' hne
        · rw [List.getElem?_set_self hm, ne_eq, Option.some.injEq]
          exact signTxin_ne_noSignature c hsig
    · cases htxin

/-- The outer loop of `sign` from input `n` on: the inputs from `n` on are as they were, and each
input before `n` has a signature in the slot of every key held. -/
def InputsSigned (t : Transaction) (n : Nat) (u : Transaction) : Prop :=
  (∀ i, n ≤ i → u.inputs[i]? = t.inputs[i]?) ∧
    ∀ i < n, ∃ y, u.inputs[i]? = some y ∧ y.HeldKeysSigned keypairs

theorem signInput_inputsSigned {t u u' : Transaction} {idx : Nat} {x : XTxInput}
    (hx : t.inputs[idx]? = some x) (hu : InputsSigned keypairs t idx u)
    (h : signInput c keypairs u (idx, x) = some u') : InputsSigned keypairs t (idx + 1) u' := by
  obtain ⟨hrest, hdone⟩ := hu
  have hux : u.inputs[idx]? = some x := (hrest idx le_rfl).trans hx
  unfold signInput at h
  split at h
  · next hc =>
    cases h
    refine ⟨fun i hi => hrest i (by omega), fun i hi => ?_⟩
    rcases Nat.lt_succ_iff_lt_or_eq.1 hi with hi | rfl
    · exact hdone i hi
    · exact ⟨x, hux, .inl hc⟩
  · obtain ⟨st, hst, rfl⟩ := Option.map_eq_some'.1 h
    have hstart : SlotsSigned keypairs u idx x 0 (u, x) :=
      ⟨hux, fun _ _ => rfl, rfl, fun _ hj => absurd hj (Nat.not_lt_zero _)⟩
    obtain ⟨hidx, hother, hkeys, hslots⟩ :=
      foldlM_enum_invariant x.xPubkeys (SlotsSigned keypairs u idx x)
        (fun _ _ _ _ hk hq hs => signSlot_slotsSigned c keypairs hk hq hs) hstart hst
    refine ⟨fun i hi => (hother i (by omega)).trans (hrest i (by omega)), fun i hi => ?_⟩
    rcases Nat.lt_succ_iff_lt_or_eq.1 hi with hi | rfl
    · obtain ⟨y, hy, hys⟩ := hdone i hi
      exact ⟨y, (hother i (by omega)).trans hy, hys⟩
    · refine ⟨st.2, hidx, .inr fun j k hk hne => ?_⟩
      rw [hkeys] at hk
      exact hslots j (List.getElem?_eq_some_iff.1 hk).1 k hk hne

/-- After `sign`, every key that `unused_x_pubkeys` lists is one that `keypairs` does not hold:
the signatures still missing are other signers'. -/
theorem sign_unusedXPubkeys (t t' : Transaction) (hs : sign c keypairs t = some t') :
    ∀ y ∈ t'.inputs, ∀ k ∈ y.unusedXPubkeys, keypairs k = none := by
  obtain ⟨hrest, hdone⟩ := foldlM_enum_invariant t.inputs (InputsSigned keypairs t)
    (fun _ _ _ _ hx hu h => signInput_inputsSigned c keypairs hx hu h)
    ⟨fun _ _ => rfl, fun _ hi => absurd hi (Nat.not_lt_zero _)⟩ hs
  intro y hy k hk
  obtain ⟨i, hi⟩ := List.mem_iff_getElem?.1 hy
  by_cases hlt : i < t.inputs.length
  · obtain ⟨y', hy', hsigned⟩ := hdone i hlt
    rw [hi, Option.some.injEq] at hy'
    exact unheld_of_heldKeysSigned keypairs (hy' ▸ hsigned) hk
  · rw [hrest i (by omega), List.getElem?_eq_none (by omega)] at hi
    cases hi

/-- `sampleSignTransaction` with its first input signed. -/
def sampleHalfSignedTransaction : Transaction :=
  ⟨1, [{ sampleSignInput 1 with signatures := [[0x11, 0, 2, 2, 1, 0xac, 0x41]] },
    sampleSignInput 2], [sampleOutput], 0⟩

theorem sampleFirstKeypair_sign_unusedXPubkeys :
    sign sampleSignConfig sampleFirstKeypair sampleSignTransaction =
        some sampleHalfSignedTransaction ∧
      ∀ y ∈ sampleHalfSignedTransaction.inputs, ∀ k ∈ y.unusedXPubkeys,
        sampleFirstKeypair k = none :=
  have hs : sign sampleSignConfig sampleFirstKeypair sampleSignTransaction =
      some sampleHalfSignedTransaction := by decide
  ⟨hs, sign_unusedXPubkeys sampleSignConfig sampleFirstKeypair _ _ hs⟩

/-- The second input still waits for the key of the second signer. -/
example :
    sampleHalfSignedTransaction.inputs.map XTxInput.unusedXPubkeys = [[], [.pubkey [2, 2]]] := by
  decide

end Unused

end Transaction

end ElectrumSV
