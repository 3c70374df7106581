import Mathlib.Data.List.Sort
import ElectrumSV.Transaction.Wire

/-!
# The BIP-LI01 order

`Transaction.BIP_LI01_sort` sorts the inputs by the bytes of the outpoint each spends and the
outputs by value, then script, with Python's `list.sort`. That sort is stable and compares keys
with `<` only, the way Python compares them: `bytes` lexicographically with a proper prefix
first (`bytesLt`), tuples component by component (`outputKeyLt`). The model sorts with core's
stable `List.mergeSort`, putting an item after another exactly when its key is below the other's
(`pySort`). Computing the keys first, as `sort` does, makes the sort raise when `pack_le_uint32`
rejects an output index.

Both comparisons are strict total orders (`StrictTotal`). So two transactions that list the
same inputs and outputs in any orders sort to the same inputs, and to outputs of the same wire
form, as long as their inputs spend distinct outpoints: sorting makes the bytes of a transaction,
and so its hash, independent of the order it was built in (`bipLI01Sort_canonical`).
-/

namespace ElectrumSV

/-- Python's `<` on `bytes`: lexicographic, a proper prefix first. -/
def bytesLt : Bytes → Bytes → Bool
  | _, [] => false
  | [], _ :: _ => true
  | a :: as, b :: bs => decide (a < b) || (a == b && bytesLt as bs)

/-- Python's `<` on the key `(output.value, output.script_pubkey.to_bytes())`. -/
def outputKeyLt (a b : Int × Bytes) : Bool :=
  decide (a.1 < b.1) || (a.1 == b.1 && bytesLt a.2 b.2)

/-- `list.sort(key=key)`: stable, comparing keys with `lt` only, so an item goes after another
exactly when its key is below the other's. -/
def pySort {α κ : Type} (lt : κ → κ → Bool) (key : α → κ) (l : List α) : List α :=
  l.mergeSort fun a b => !lt (key b) (key a)

/-- The outpoint an input spends. -/
def XTxInput.prevout (i : XTxInput) : Bytes × Int := (i.prevHash, i.prevIdx)

/-- bitcoinx `TxInput.prevout_bytes`: the previous hash, then the output index as a little-endian
`uint32`; `none` where `pack_le_uint32` raises. -/
def TxInput.prevoutBytes (i : TxInput) : Option Bytes :=
  (i.prevHash ++ ·) <$> packLeUint32 i.prevIdx

/-- `Transaction.BIP_LI01_sort`; `none` where a key raises. -/
def Transaction.bipLI01Sort (t : Transaction) : Option Transaction := do
  let keyed ← t.inputs.mapM fun txin => (·, txin) <$> txin.prevoutBytes
  let inputs := (pySort bytesLt Prod.fst keyed).map Prod.snd
  let outputs := pySort outputKeyLt (fun o : XTxOutput => (o.value, o.scriptPubkey)) t.outputs
  pure { t with inputs := inputs, outputs := outputs }

/-! ## Strict total orders -/

/-- A comparison that is a strict total order, as `<` on `bytes` and on tuples of them is. -/
structure StrictTotal {κ : Type} (lt : κ → κ → Bool) : Prop where
  irrefl : ∀ a, lt a a = false
  trans : ∀ {a b c}, lt a b → lt b c → lt a c
  total : ∀ a b, lt a b ∨ a = b ∨ lt b a

theorem uint8_lt_trichotomy (a b : UInt8) : a < b ∨ a = b ∨ b < a := by
  rcases Nat.lt_trichotomy a.toNat b.toNat with h | h | h
  exacts [.inl h, .inr (.inl (UInt8.toNat.inj h)), .inr (.inr h)]

@[simp] theorem bytesLt_cons_cons (a b : UInt8) (as bs : Bytes) :
    bytesLt (a :: as) (b :: bs) = (decide (a < b) || (a == b && bytesLt as bs)) := rfl

@[simp] theorem bytesLt_nil_right (a : Bytes) : bytesLt a [] = false := by cases a <;> rfl

theorem bytesLt_irrefl : ∀ a : Bytes, bytesLt a a = false
  | [] => rfl
  | a :: as => by simp [bytesLt_irrefl as, UInt8.lt_irrefl]

theorem bytesLt_trans : ∀ {a b c : Bytes}, bytesLt a b → bytesLt b c → bytesLt a c
  | _, [], _, hab, _ => by rw [bytesLt_nil_right] at hab; cases hab
  | _, _ :: _, [], _, hbc => by cases hbc
  | [], _ :: _, _ :: _, _, _ => rfl
  | x :: as, y :: bs, z :: cs, hab, hbc => by
    simp only [bytesLt_cons_cons, Bool.or_eq_true, decide_eq_true_eq, Bool.and_eq_true,
      beq_iff_eq] at hab hbc ⊢
    rcases hab with hxy | ⟨rfl, has⟩ <;> rcases hbc with hyz | ⟨rfl, hbs⟩
    · exact .inl (UInt8.lt_trans hxy hyz)
    · exact .inl hxy
    · exact .inl hyz
    · exact .inr ⟨rfl, bytesLt_trans has hbs⟩

theorem bytesLt_total : ∀ a b : Bytes, bytesLt a b ∨ a = b ∨ bytesLt b a
  | [], [] => .inr (.inl rfl)
  | [], _ :: _ => .inl rfl
  | _ :: _, [] => .inr (.inr rfl)
  | x :: as, y :: bs => by
    simp only [bytesLt_cons_cons, Bool.or_eq_true, decide_eq_true_eq, Bool.and_eq_true,
      beq_iff_eq, List.cons.injEq]
    rcases uint8_lt_trichotomy x y with h | rfl | h
    · exact .inl (.inl h)
    · rcases bytesLt_total as bs with h | rfl | h
      exacts [.inl (.inr ⟨rfl, h⟩), .inr (.inl ⟨rfl, rfl⟩), .inr (.inr (.inr ⟨rfl, h⟩))]
    · exact .inr (.inr (.inl h))

namespace StrictTotal

variable {κ : Type} {lt : κ → κ → Bool} (hlt : StrictTotal lt)
include hlt

theorem asymm {a b : κ} (h : lt a b) : lt b a = false := by
  cases hba : lt b a
  · rfl
  · have := hlt.irrefl a
    rw [hlt.trans h hba] at this
    cases this

/-- Not below is transitive. -/
theorem not_lt_trans {a b c : κ} (hba : lt b a = false) (hcb : lt c b = false) :
    lt c a = false := by
  rcases hlt.total c b with h | rfl | h
  · rw [h] at hcb; cases hcb
  · exact hba
  · cases hca : lt c a
    · rfl
    · rw [hlt.trans h hca] at hba; cases hba

/-- Of two keys, one is not below the other. -/
theorem not_lt_total (a b : κ) : lt a b = false ∨ lt b a = false := by
  rcases hlt.total a b with h | rfl | h
  · exact .inr (hlt.asymm h)
  · exact .inl (hlt.irrefl a)
  · exact .inl (hlt.asymm h)

/-- Keys not below one another are equal. -/
theorem eq_of_not_lt {a b : κ} (hab : lt a b = false) (hba : lt b a = false) : a = b := by
  rcases hlt.total a b with h | h | h
  · rw [h] at hab; cases hab
  · exact h
  · rw [h] at hba; cases hba

end StrictTotal

theorem bytesLt_strictTotal : StrictTotal bytesLt :=
  ⟨bytesLt_irrefl, bytesLt_trans, bytesLt_total⟩

theorem outputKeyLt_strictTotal : StrictTotal outputKeyLt where
  irrefl a := by simp [outputKeyLt, bytesLt_irrefl]
  trans {a b c} hab hbc := by
    simp only [outputKeyLt, Bool.or_eq_true, decide_eq_true_eq, Bool.and_eq_true,
      beq_iff_eq] at hab hbc ⊢
    rcases hab with h | ⟨h, h'⟩ <;> rcases hbc with g | ⟨g, g'⟩
    · exact .inl (h.trans g)
    · exact .inl (g ▸ h)
    · exact .inl (h ▸ g)
    · exact .inr ⟨h.trans g, bytesLt_trans h' g'⟩
  total a b := by
    obtain ⟨v, s⟩ := a
    obtain ⟨w, r⟩ := b
    simp only [outputKeyLt, Bool.or_eq_true, decide_eq_true_eq, Bool.and_eq_true, beq_iff_eq,
      Prod.mk.injEq]
    rcases lt_trichotomy v w with h | rfl | h
    · exact .inl (.inl h)
    · rcases bytesLt_total s r with h | rfl | h
      exacts [.inl (.inr ⟨rfl, h⟩), .inr (.inl ⟨rfl, rfl⟩), .inr (.inr (.inr ⟨rfl, h⟩))]
    · exact .inr (.inr (.inl h))

/-! ## Python's sort -/

section PySort

variable {α κ : Type} {lt : κ → κ → Bool} (key : α → κ)

theorem pySort_perm (l : List α) : (pySort lt key l).Perm l := List.mergeSort_perm _ _

variable (hlt : StrictTotal lt)
include hlt

/-- The sorted list has no key above a key after it. -/
theorem pySort_sorted (l : List α) :
    (pySort lt key l).Pairwise fun a b => lt (key b) (key a) = false := by
  refine (List.sorted_mergeSort (fun a b c hab hbc => ?_) (fun a b => ?_) l).imp fun h => ?_
  · simp only [Bool.not_eq_true'] at hab hbc ⊢
    exact hlt.not_lt_trans hab hbc
  · simp only [Bool.or_eq_true, Bool.not_eq_true']
    exact (hlt.not_lt_total (key a) (key b)).symm
  · simpa using h

/-- Sorting two orderings of the same items gives the same keys in the same order. -/
theorem map_pySort_of_perm {l₁ l₂ : List α} (hp : l₁.Perm l₂) :
    (pySort lt key l₁).map key = (pySort lt key l₂).map key := by
  haveI : IsAntisymm κ fun x y => lt y x = false := ⟨fun _ _ hab hba => hlt.eq_of_not_lt hba hab⟩
  exact List.eq_of_perm_of_sorted (r := fun x y => lt y x = false)
    ((((pySort_perm key l₁).trans hp).trans (pySort_perm key l₂).symm).map key)
    (List.pairwise_map.2 (pySort_sorted key hlt l₁))
    (List.pairwise_map.2 (pySort_sorted key hlt l₂))

/-- With distinct keys, the sorted list has every key below the keys after it. -/
theorem pySort_strict {l : List α} (hnd : (l.map key).Nodup) :
    (pySort lt key l).Pairwise fun a b => lt (key a) (key b) := by
  have hnd' : ((pySort lt key l).map key).Nodup := (((pySort_perm key l).map key).nodup_iff).2 hnd
  refine ((pySort_sorted key hlt l).and (List.pairwise_map.1 hnd')).imp fun h => ?_
  rcases hlt.total (key _) (key _) with hab | hab | hab
  exacts [hab, absurd hab h.2, by rw [hab] at h; cases h.1]

/-- Sorting two orderings of the same items whose keys are distinct gives the same list. -/
theorem pySort_eq_of_perm {l₁ l₂ : List α} (hp : l₁.Perm l₂) (hnd : (l₁.map key).Nodup) :
    pySort lt key l₁ = pySort lt key l₂ := by
  haveI : IsAntisymm α fun a b => lt (key a) (key b) :=
    ⟨fun a _ hab hba => by have := hlt.irrefl (key a); rw [hlt.trans hab hba] at this; cases this⟩
  exact List.eq_of_perm_of_sorted
    (((pySort_perm key l₁).trans hp).trans (pySort_perm key l₂).symm)
    (pySort_strict key hlt hnd) (pySort_strict key hlt ((hp.map key).nodup_iff.1 hnd))

end PySort

/-! ## The order of a transaction -/

/-- What `prevout_bytes` returns for an input whose output index is a `uint32`. -/
def TxInput.prevoutKey (i : TxInput) : Bytes := i.prevHash ++ leBytes 4 i.prevIdx.toNat

/-- The output index is a `uint32`. -/
def TxInput.IndexFits (i : TxInput) : Prop := 0 ≤ i.prevIdx ∧ i.prevIdx < 2 ^ 32

instance (i : TxInput) : Decidable i.IndexFits := inferInstanceAs (Decidable (_ ∧ _))

theorem TxInput.prevoutBytes_eq {i : TxInput} (h : i.IndexFits) :
    i.prevoutBytes = some i.prevoutKey := by
  rw [prevoutBytes, packLeUint32, packUnsigned, if_pos ⟨h.1, h.2.trans_eq (by norm_num)⟩]
  rfl

/-- Inputs with the same key spend the same outpoint. -/
theorem TxInput.prevout_eq_of_prevoutKey {a b : TxInput} (ha : a.IndexFits) (hb : b.IndexFits)
    (h : a.prevoutKey = b.prevoutKey) : a.prevHash = b.prevHash ∧ a.prevIdx = b.prevIdx := by
  have hlen := congrArg List.length h
  simp only [prevoutKey, List.length_append, length_leBytes] at hlen
  obtain ⟨hh, hl⟩ := List.append_inj h (by omega)
  have hv := congrArg leValue hl
  rw [leValue_leBytes _ _ (by unfold IndexFits at ha; norm_num; omega),
    leValue_leBytes _ _ (by unfold IndexFits at hb; norm_num; omega)] at hv
  exact ⟨hh, by unfold IndexFits at ha hb; omega⟩

/-- The list of inputs with their keys that `BIP_LI01_sort` sorts. -/
theorem mapM_prevoutBytes : ∀ {l : List XTxInput}, (∀ i ∈ l, i.IndexFits) →
    l.mapM (fun txin => (·, txin) <$> txin.prevoutBytes) = some (l.map fun i => (i.prevoutKey, i))
  | [], _ => rfl
  | i :: l, h => by
    rw [List.mapM_cons, TxInput.prevoutBytes_eq (h i (.head _)),
      mapM_prevoutBytes fun j hj => h j (.tail _ hj)]
    rfl

/-- With the output index of every input a `uint32`, the sort succeeds. -/
theorem Transaction.bipLI01Sort_eq {t : Transaction} (h : ∀ i ∈ t.inputs, i.IndexFits) :
    t.bipLI01Sort = some { t with
      inputs := (pySort bytesLt Prod.fst (t.inputs.map fun i => (i.prevoutKey, i))).map Prod.snd,
      outputs :=
        pySort outputKeyLt (fun o : XTxOutput => (o.value, o.scriptPubkey)) t.outputs } := by
  rw [bipLI01Sort, mapM_prevoutBytes h]
  rfl

theorem nodup_prevoutKey {l : List XTxInput} (h : ∀ i ∈ l, i.IndexFits)
    (hnd : (l.map XTxInput.prevout).Nodup) : (l.map fun i => i.prevoutKey).Nodup :=
  (List.Nodup.of_map _ hnd).map_on fun a ha b hb hab =>
    List.inj_on_of_nodup_map hnd ha hb
      (Prod.ext_iff.2 (TxInput.prevout_eq_of_prevoutKey (h a ha) (h b hb) hab))

/-- `BIP_LI01_sort` on two transactions that list the same inputs and outputs in any orders,
whose inputs spend distinct outpoints with output indexes that are `uint32`s: both succeed, with
the inputs in increasing order of their outpoints' bytes and the outputs in order of value and
script, and they agree on the inputs, on the wire form of the outputs, and so on the bytes. -/
theorem bipLI01Sort_canonical (t₁ t₂ : Transaction) (hv : t₂.version = t₁.version)
    (hl : t₂.locktime = t₁.locktime) (hin : t₂.inputs.Perm t₁.inputs)
    (hout : t₂.outputs.Perm t₁.outputs) (hnd : (t₁.inputs.map XTxInput.prevout).Nodup)
    (hidx : ∀ i ∈ t₁.inputs, i.IndexFits) :
    ∃ s₁ s₂, t₁.bipLI01Sort = some s₁ ∧ t₂.bipLI01Sort = some s₂ ∧
      s₁.inputs.Perm t₁.inputs ∧ s₁.outputs.Perm t₁.outputs ∧
      s₁.inputs.Pairwise (fun a b => bytesLt a.prevoutKey b.prevoutKey) ∧
      s₁.outputs.Pairwise (fun a b =>
        outputKeyLt (b.value, b.scriptPubkey) (a.value, a.scriptPubkey) = false) ∧
      s₁.inputs = s₂.inputs ∧
      s₁.outputs.map XTxOutput.toTxOutput = s₂.outputs.map XTxOutput.toTxOutput ∧
      ∀ c, s₁.toBytes c = s₂.toBytes c := by
  have hidx₂ : ∀ i ∈ t₂.inputs, i.IndexFits := fun i hi => hidx i (hin.subset hi)
  have hkeys := nodup_prevoutKey hidx hnd
  have hkeys' : ((t₁.inputs.map fun i => (i.prevoutKey, i)).map Prod.fst).Nodup := by
    rwa [List.map_map]
  have hinputs := pySort_eq_of_perm Prod.fst bytesLt_strictTotal
    (hin.symm.map fun i => (i.prevoutKey, i)) hkeys'
  have houtputs := map_pySort_of_perm (fun o : XTxOutput => (o.value, o.scriptPubkey))
    outputKeyLt_strictTotal hout.symm
  have hsnd : (t₁.inputs.map fun i => (i.prevoutKey, i)).map Prod.snd = t₁.inputs := by
    rw [List.map_map]
    exact List.map_id' _
  have htx : ∀ l : List XTxOutput, l.map XTxOutput.toTxOutput =
      (l.map fun o => (o.value, o.scriptPubkey)).map fun k => ⟨k.1, k.2⟩ := fun l => by
    rw [List.map_map]
    rfl
  have hpack : ∀ l : List XTxOutput,
      packList XTxOutput.toBytes l = packList TxOutput.toBytes (l.map XTxOutput.toTxOutput) :=
    fun l => (packList_map _ _ _).symm
  refine ⟨_, _, Transaction.bipLI01Sort_eq hidx, Transaction.bipLI01Sort_eq hidx₂,
    ((pySort_perm Prod.fst _).map Prod.snd).trans (.of_eq hsnd), pySort_perm _ _, ?_,
    pySort_sorted _ outputKeyLt_strictTotal _, by rw [hinputs], by rw [htx, htx, houtputs],
    fun c => ?_⟩
  · refine List.pairwise_map.2 ((pySort_strict Prod.fst bytesLt_strictTotal hkeys').imp_of_mem
      fun ha hb h => ?_)
    obtain ⟨a, -, rfl⟩ := List.mem_map.1 ((pySort_perm Prod.fst _).subset ha)
    obtain ⟨b, -, rfl⟩ := List.mem_map.1 ((pySort_perm Prod.fst _).subset hb)
    exact h
  · simp only [Transaction.toBytes, hpack, hv, hl, hinputs, htx, houtputs]

/-- An input spending output `n` of the transaction whose hash is `b` repeated. -/
def sampleSortInput (b : UInt8) (n : Int) : XTxInput :=
  { prevHash := List.replicate 32 b, prevIdx := n, scriptSig := [], sequence := 0xffffffff }

/-- Two inputs and two outputs, listed in one order. -/
def sampleUnsorted : Transaction :=
  ⟨1, [sampleSortInput 2 0, sampleSortInput 1 5],
    [{ value := 500, scriptPubkey := [0x51] }, { value := 100, scriptPubkey := [0x52] }], 0⟩

/-- The inputs and outputs of `sampleUnsorted`, listed in the other order. -/
def sampleUnsortedSwapped : Transaction :=
  ⟨1, [sampleSortInput 1 5, sampleSortInput 2 0],
    [{ value := 100, scriptPubkey := [0x52] }, { value := 500, scriptPubkey := [0x51] }], 0⟩

theorem sampleUnsorted_bipLI01Sort_canonical :
    sampleUnsortedSwapped.version = sampleUnsorted.version ∧
    sampleUnsortedSwapped.locktime = sampleUnsorted.locktime ∧
    sampleUnsortedSwapped.inputs.Perm sampleUnsorted.inputs ∧
    sampleUnsortedSwapped.outputs.Perm sampleUnsorted.outputs ∧
    (sampleUnsorted.inputs.map XTxInput.prevout).Nodup ∧
    (∀ i ∈ sampleUnsorted.inputs, i.IndexFits) ∧
    ∃ s₁ s₂, sampleUnsorted.bipLI01Sort = some s₁ ∧ sampleUnsortedSwapped.bipLI01Sort = some s₂ ∧
      s₁.inputs.Perm sampleUnsorted.inputs ∧ s₁.outputs.Perm sampleUnsorted.outputs ∧
      s₁.inputs.Pairwise (fun a b => bytesLt a.prevoutKey b.prevoutKey) ∧
      s₁.outputs.Pairwise (fun a b =>
        outputKeyLt (b.value, b.scriptPubkey) (a.value, a.scriptPubkey) = false) ∧
      s₁.inputs = s₂.inputs ∧
      s₁.outputs.map XTxOutput.toTxOutput = s₂.outputs.map XTxOutput.toTxOutput ∧
      ∀ c, s₁.toBytes c = s₂.toBytes c :=
  ⟨rfl, rfl, by decide, by decide, by decide, by decide,
    bipLI01Sort_canonical _ _ rfl rfl (by decide) (by decide) (by decide) (by decide)⟩

end ElectrumSV
