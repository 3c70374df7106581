import ElectrumSV.Transaction.Wire
import ElectrumSV.Script.Machine

/-!
# The accumulator multi-signature script

`AccumulatorMultiSigOutput.to_script_bytes` locks an output to `n` keys and a threshold `m`: a
count starts at zero on the alternate stack, and for each key in turn an `OP_IF` block takes a
flag from the stack and, when it is set, checks the key's hash, verifies a signature against the
key and counts it; the script ends by comparing the count with the threshold. The script_sig that
`create_script_sig` writes for `MULTISIG_ACCUMULATOR` has one part per key, the signature, the key
and `OP_TRUE` for a signature that is present and `OP_FALSE` for a missing one, written in reverse
so that the part of the first key is on top of the stack.

* `run_accumulatorSigParts`: the reversed parts leave the part of the first key on top.
* `run_accumulatorBlocks`: the blocks of the locking script consume the parts key by key, and
  count the signatures that are present when each of them is valid.
* `verifyScript_accumulator`, `accumulator_script_verifies`: the script_sig and the locking
  script verify exactly when every present signature is valid for the key at its position and at
  least `m` are present.
-/

namespace ElectrumSV

/-- `AccumulatorMultiSigOutput.to_script_bytes`, of the serialised keys. -/
def accumulatorScript (hash160 : Bytes → Bytes) (publicKeys : List Bytes) (threshold : Int) :
    Bytes :=
  [Ops.OP_0, Ops.OP_TOALTSTACK] ++
    (publicKeys.map fun key =>
      [Ops.OP_IF, Ops.OP_DUP, Ops.OP_HASH160] ++ pushItem (hash160 key) ++
        [Ops.OP_EQUALVERIFY, Ops.OP_CHECKSIGVERIFY, Ops.OP_FROMALTSTACK, Ops.OP_1ADD,
          Ops.OP_TOALTSTACK, Ops.OP_ENDIF]).flatten ++
    [Ops.OP_FROMALTSTACK] ++ pushInt threshold ++ [Ops.OP_GREATERTHANOREQUAL]

/-- The instructions of one key's block between its `OP_IF` and its `OP_ENDIF`. -/
def accumulatorBlockBody (hash160 : Bytes → Bytes) (key : Bytes) : List Instr :=
  [.op Ops.OP_DUP, .op Ops.OP_HASH160, pushInstr (hash160 key), .op Ops.OP_EQUALVERIFY,
    .op Ops.OP_CHECKSIGVERIFY, .op Ops.OP_FROMALTSTACK, .op Ops.OP_1ADD, .op Ops.OP_TOALTSTACK]

/-- The instructions of the blocks of the locking script, one per key. -/
def accumulatorBlocks (hash160 : Bytes → Bytes) (keys : List Bytes) : List Instr :=
  (keys.map fun key =>
    (Instr.op Ops.OP_IF :: accumulatorBlockBody hash160 key) ++ [Instr.op Ops.OP_ENDIF]).flatten

/-- The items that the part of one signature leaves on the stack, top first. -/
def accumulatorEntry (p : Bytes × Bytes) : List Bytes :=
  if p.1 = noSignature then [[]] else [[1], p.2, p.1]

/-- The instructions that the locking script is read as. -/
def accumulatorInstrs (hash160 : Bytes → Bytes) (keys : List Bytes) (threshold : Int) :
    List Instr :=
  [.push [], .op Ops.OP_TOALTSTACK] ++ accumulatorBlocks hash160 keys ++
    [.op Ops.OP_FROMALTSTACK, pushInstr (intToItem threshold), .op Ops.OP_GREATERTHANOREQUAL]

/-- The part that `create_script_sig` writes for one signature, given its key's bytes: `OP_FALSE`
for a missing signature, else the signature, the key and `OP_TRUE`. -/
def accumulatorSigPart (push : Bytes → Bytes) (p : Bytes × Bytes) : Bytes :=
  if p.1 = noSignature then [Ops.OP_0] else push p.1 ++ push p.2 ++ [Ops.OP_TRUE]

/-- The instructions that the part of one signature is read as. -/
def accumulatorSigInstrs (p : Bytes × Bytes) : List Instr :=
  if p.1 = noSignature then [.push []] else [pushInstr p.1, pushInstr p.2, .op Ops.OP_TRUE]

/-! ## Building the script_sig -/

section Create

variable (c : TxConfig)

theorem accumulatorPart_eq {keys : List XPublicKey} {n : Nat} {key : XPublicKey} {kb : Bytes}
    (hk : keys[n]? = some key) (hb : c.publicKeyBytes key = some kb) (sig : Bytes) :
    accumulatorPart c keys (n, sig) = some (accumulatorSigPart c.pushItem (sig, kb)) := by
  unfold accumulatorPart accumulatorSigPart
  split
  · rfl
  · simp [hk, hb]

theorem mapM_accumulatorPart {keys : List XPublicKey} {keyBytes : List Bytes}
    (hF : List.Forall₂ (fun kb k => c.publicKeyBytes k = some kb) keyBytes keys) :
    ∀ (sigs : List Bytes) (n : Nat), n + sigs.length ≤ keys.length →
      (sigs.enumFrom n).mapM (accumulatorPart c keys) =
        some ((sigs.zip (keyBytes.drop n)).map (accumulatorSigPart c.pushItem))
  | [], _, _ => rfl
  | sig :: sigs, n, h => by
    rw [List.length_cons] at h
    have hn : n < keyBytes.length := hF.length_eq ▸ (by omega)
    have hk : c.publicKeyBytes keys[n] = some keyBytes[n] :=
      (List.forall₂_iff_get.1 hF).2 n hn (by omega)
    rw [List.enumFrom_cons, List.mapM_cons, List.drop_eq_getElem_cons hn,
      accumulatorPart_eq c (List.getElem?_eq_getElem (by omega)) hk,
      mapM_accumulatorPart hF sigs (n + 1) (by omega)]
    rfl

theorem createScriptSig_accumulator {keys : List XPublicKey} {keyBytes sigs : List Bytes}
    (hkeys : keys.mapM c.publicKeyBytes = some keyBytes) (hsigs : sigs.length = keys.length)
    (threshold : Int) :
    createScriptSig c .MULTISIG_ACCUMULATOR threshold keys sigs =
      some ((sigs.zip keyBytes).map (accumulatorSigPart c.pushItem)).reverse.flatten := by
  rw [createScriptSig, List.enum_eq_enumFrom,
    mapM_accumulatorPart c (mapM_eq_some_iff_forall₂.1 hkeys) sigs 0 (by omega), List.drop_zero]
  rfl

end Create

/-! ## Reading the scripts -/

theorem parses_accumulatorSigPart {p : Bytes × Bytes}
    (h : p.1.length < 2 ^ 32 ∧ p.2.length < 2 ^ 32) :
    Parses (accumulatorSigPart pushItem p) (accumulatorSigInstrs p) := by
  unfold accumulatorSigPart accumulatorSigInstrs
  split
  · exact parses_pushItem (show ([] : Bytes).length < 2 ^ 32 by decide)
  · exact ((parses_pushItem h.1).append (parses_pushItem h.2)).append (parses_op (by decide))

theorem parses_accumulatorScript (env : ScriptEnv) (keys : List Bytes) {threshold : Int}
    (h : (intToItem threshold).length < 2 ^ 32) :
    Parses (accumulatorScript env.hash160 keys threshold)
      (accumulatorInstrs env.hash160 keys threshold) := by
  have hblock : ∀ key ∈ keys, Parses
      ([Ops.OP_IF, Ops.OP_DUP, Ops.OP_HASH160] ++ pushItem (env.hash160 key) ++
        [Ops.OP_EQUALVERIFY, Ops.OP_CHECKSIGVERIFY, Ops.OP_FROMALTSTACK, Ops.OP_1ADD,
          Ops.OP_TOALTSTACK, Ops.OP_ENDIF])
      ((Instr.op Ops.OP_IF :: accumulatorBlockBody env.hash160 key) ++ [Instr.op Ops.OP_ENDIF]) :=
    fun key _ => ((parses_ops (by decide)).append
      (parses_pushItem (by rw [env.hash160_length]; decide))).append (parses_ops (by decide))
  have hhead : Parses [Ops.OP_0, Ops.OP_TOALTSTACK] [.push [], .op Ops.OP_TOALTSTACK] :=
    (parses_pushItem (show ([] : Bytes).length < 2 ^ 32 by decide)).append
      (parses_op (b := Ops.OP_TOALTSTACK) (by decide))
  have htail : Parses ([Ops.OP_FROMALTSTACK] ++ pushInt threshold ++ [Ops.OP_GREATERTHANOREQUAL])
      [.op Ops.OP_FROMALTSTACK, pushInstr (intToItem threshold), .op Ops.OP_GREATERTHANOREQUAL] :=
    ((parses_op (b := Ops.OP_FROMALTSTACK) (by decide)).append (parses_pushItem h)).append
      (parses_op (b := Ops.OP_GREATERTHANOREQUAL) (by decide))
  have := (hhead.append (Parses.flatten hblock)).append htail
  simpa only [accumulatorScript, accumulatorInstrs, accumulatorBlocks, List.append_assoc] using this

theorem isPlain_accumulatorBlockBody (hash160 : Bytes → Bytes) (key : Bytes) :
    ∀ i ∈ accumulatorBlockBody hash160 key, i.isPlain = true := by
  simp only [accumulatorBlockBody, List.mem_cons, List.mem_singleton, forall_eq_or_imp,
    forall_eq, isPlain_of_isPush (isPush_pushInstr _), List.not_mem_nil, false_imp_iff,
    implies_true, and_true, true_and]
  decide

section Run

variable (env : ScriptEnv)

theorem run_accumulatorBlock (p : Bytes × Bytes) (st : List Bytes) (n : Nat) :
    ((Instr.op Ops.OP_IF :: accumulatorBlockBody env.hash160 p.2) ++ [Instr.op Ops.OP_ENDIF]).foldlM
        (execInstr env) ⟨accumulatorEntry p ++ st, [intToItem n], []⟩ =
      if p.1 = noSignature then some ⟨st, [intToItem n], []⟩
      else if env.checkSig p.1 p.2 then some ⟨st, [intToItem ((n + 1 : Nat) : Int)], []⟩
      else none := by
  have hx : ([] : List Bool).all id = true := rfl
  rw [List.foldlM_append, List.foldlM_cons]
  by_cases hs : p.1 = noSignature
  · simp only [accumulatorEntry, hs, if_true, List.singleton_append, execInstr_if hx,
      Option.bind_eq_bind, Option.some_bind, show castToBool [] = false from rfl]
    rw [foldlM_execInstr_skip (m := ⟨st, [intToItem n], [false]⟩) rfl
      (isPlain_accumulatorBlockBody _ _)]
    rfl
  · have ht : [true].all id = true := rfl
    simp only [accumulatorEntry, hs, if_false, List.cons_append, execInstr_if hx,
      Option.bind_eq_bind, Option.some_bind, accumulatorBlockBody, List.foldlM_cons,
      execInstr_plain (show (Instr.op Ops.OP_DUP).isPlain = true by decide),
      execInstr_plain (show (Instr.op Ops.OP_HASH160).isPlain = true by decide),
      execInstr_plain (show (Instr.op Ops.OP_EQUALVERIFY).isPlain = true by decide),
      execInstr_plain (show (Instr.op Ops.OP_CHECKSIGVERIFY).isPlain = true by decide),
      execInstr_plain (show (Instr.op Ops.OP_FROMALTSTACK).isPlain = true by decide),
      execInstr_plain (show (Instr.op Ops.OP_1ADD).isPlain = true by decide),
      execInstr_plain (show (Instr.op Ops.OP_TOALTSTACK).isPlain = true by decide),
      execInstr_pushInstr, Machine.push_of_executing ht, show castToBool [1] = true from rfl,
      Machine.executing, ht, if_true, execOp_dup, execOp_hash160, execOp_equalVerify,
      execOp_checkSigVerify, List.nil_append]
    cases env.checkSig p.1 p.2
    · rfl
    · simp only [if_true, Option.some_bind, execOp_fromAltstack, execOp_1add, execOp_toAltstack,
        decodeNum_intToItem, List.foldlM_nil, execInstr_endif, ht, Option.pure_def,
        Option.bind_some, Nat.cast_add, Nat.cast_one]

theorem accumulatorBlocks_cons (hash160 : Bytes → Bytes) (key : Bytes) (keys : List Bytes) :
    accumulatorBlocks hash160 (key :: keys) =
      ((Instr.op Ops.OP_IF :: accumulatorBlockBody hash160 key) ++ [Instr.op Ops.OP_ENDIF]) ++
        accumulatorBlocks hash160 keys := rfl

theorem run_accumulatorBlocks : ∀ (pairs : List (Bytes × Bytes)) (st : List Bytes) (n : Nat),
    (accumulatorBlocks env.hash160 (pairs.map Prod.snd)).foldlM (execInstr env)
        ⟨pairs.flatMap accumulatorEntry ++ st, [intToItem n], []⟩ =
      if pairs.all fun p => p.1 == noSignature || env.checkSig p.1 p.2 then
        some ⟨st, [intToItem ((n + pairs.countP fun p => p.1 != noSignature : Nat) : Int)], []⟩
      else none
  | [], st, n => rfl
  | p :: ps, st, n => by
    rw [List.map_cons, accumulatorBlocks_cons, List.foldlM_append, List.flatMap_cons,
      List.append_assoc, run_accumulatorBlock]
    by_cases hs : p.1 = noSignature
    · simp only [hs, if_true, Option.bind_eq_bind, Option.some_bind, List.all_cons,
        beq_self_eq_true, Bool.true_or, Bool.true_and, List.countP_cons, bne_self_eq_false,
        if_false, add_zero]
      exact run_accumulatorBlocks ps st n
    · cases hc : env.checkSig p.1 p.2
      · simp [hs, hc]
      · simp only [hs, hc, if_false, if_true, Option.bind_eq_bind, Option.some_bind,
          run_accumulatorBlocks ps st (n + 1), List.all_cons, Bool.or_true, Bool.true_and,
          List.countP_cons, bne_iff_ne, ne_eq, not_false_eq_true, decide_True, Nat.add_right_comm,
          Nat.add_assoc]
        rw [Nat.add_comm 1]

theorem run_accumulatorSigInstrs (p : Bytes × Bytes) (st : List Bytes) :
    (accumulatorSigInstrs p).foldlM (execInstr env) ⟨st, [], []⟩ =
      some ⟨accumulatorEntry p ++ st, [], []⟩ := by
  have hx : ([] : List Bool).all id = true := rfl
  unfold accumulatorSigInstrs accumulatorEntry
  split
  · rfl
  · simp only [List.foldlM_cons, execInstr_pushInstr, Machine.push_of_executing hx,
      Option.bind_eq_bind, Option.some_bind,
      execInstr_plain (show (Instr.op Ops.OP_TRUE).isPlain = true by decide), Machine.executing,
      hx, if_true, execOp_smallNum (show 0x51 ≤ Ops.OP_TRUE.toNat ∧ Ops.OP_TRUE.toNat ≤ 0x60 by
        decide)]
    rfl

theorem run_accumulatorSigParts : ∀ (pairs : List (Bytes × Bytes)) (st : List Bytes),
    (pairs.reverse.map accumulatorSigInstrs).flatten.foldlM (execInstr env) ⟨st, [], []⟩ =
      some ⟨pairs.flatMap accumulatorEntry ++ st, [], []⟩
  | [], _ => rfl
  | p :: ps, st => by
    rw [List.reverse_cons, List.map_append, List.flatten_append, List.foldlM_append,
      run_accumulatorSigParts ps st, Option.bind_eq_bind, Option.some_bind, List.map_singleton,
      List.flatten_singleton, run_accumulatorSigInstrs, List.flatMap_cons, List.append_assoc]

theorem run_accumulatorInstrs (pairs : List (Bytes × Bytes)) (m : Nat) :
    (accumulatorInstrs env.hash160 (pairs.map Prod.snd) m).foldlM (execInstr env)
        ⟨pairs.flatMap accumulatorEntry, [], []⟩ =
      if pairs.all fun p => p.1 == noSignature || env.checkSig p.1 p.2 then
        some ⟨[if m ≤ pairs.countP (fun p => p.1 != noSignature) then [1] else []], [], []⟩
      else none := by
  have hx : ([] : List Bool).all id = true := rfl
  have hhead : [Instr.push [], .op Ops.OP_TOALTSTACK].foldlM (execInstr env)
      ⟨pairs.flatMap accumulatorEntry, [], []⟩ =
        some ⟨pairs.flatMap accumulatorEntry ++ [], [intToItem (0 : Nat)], []⟩ := by
    rw [List.append_nil]
    rfl
  rw [accumulatorInstrs, List.foldlM_append, List.foldlM_append, hhead, Option.bind_eq_bind,
    Option.some_bind, run_accumulatorBlocks, Nat.zero_add]
  split
  · simp only [Option.bind_eq_bind, Option.some_bind, List.foldlM_cons,
      execInstr_plain (show (Instr.op Ops.OP_FROMALTSTACK).isPlain = true by decide),
      execInstr_plain (show (Instr.op Ops.OP_GREATERTHANOREQUAL).isPlain = true by decide),
      execInstr_pushInstr, Machine.push_of_executing hx, Machine.executing, hx, if_true,
      execOp_fromAltstack, execOp_greaterThanOrEqual, decodeNum_intToItem, Nat.cast_le,
      List.foldlM_nil, Option.pure_def]
  · rfl

theorem isPush_accumulatorSigInstrs (p : Bytes × Bytes) :
    ∀ i ∈ accumulatorSigInstrs p, i.isPush = true := by
  unfold accumulatorSigInstrs
  split
  · simp [Instr.isPush]
  · simp only [List.mem_cons, List.mem_singleton, forall_eq_or_imp, forall_eq, isPush_pushInstr,
      List.not_mem_nil, false_imp_iff, implies_true, and_true, true_and]
    decide

/-- The accumulator script_sig of `pairs` of a signature and its key's bytes, followed by the
locking script of the keys, verifies exactly when every present signature is valid for its key
and at least `m` are present. -/
theorem verifyScript_accumulator (pairs : List (Bytes × Bytes)) (m : Nat)
    (hsize : ∀ p ∈ pairs, p.1.length < 2 ^ 32 ∧ p.2.length < 2 ^ 32)
    (hm : (intToItem m).length < 2 ^ 32) :
    verifyScript env ((pairs.map (accumulatorSigPart pushItem)).reverse.flatten)
        (accumulatorScript env.hash160 (pairs.map Prod.snd) m) =
      ((pairs.all fun p => p.1 == noSignature || env.checkSig p.1 p.2) &&
        decide (m ≤ pairs.countP fun p => p.1 != noSignature)) := by
  have hsig : parseScript ((pairs.map (accumulatorSigPart pushItem)).reverse.flatten) =
      some (pairs.reverse.map accumulatorSigInstrs).flatten := by
    rw [← List.map_reverse]
    exact parseScript_of_parses
      (Parses.flatten fun p hp => parses_accumulatorSigPart (hsize p (List.mem_reverse.1 hp)))
  have hpush : ((pairs.reverse.map accumulatorSigInstrs).flatten.all Instr.isPush) = true := by
    simp only [List.all_eq_true, List.mem_flatten, List.mem_map]
    rintro i ⟨_, ⟨p, -, rfl⟩, hi⟩
    exact isPush_accumulatorSigInstrs p i hi
  have hlock := parseScript_of_parses (parses_accumulatorScript env (pairs.map Prod.snd) hm)
  simp only [verifyScript, evalScript, hsig, hpush, hlock, Option.bind_eq_bind, Option.some_bind,
    run_accumulatorSigParts, List.append_nil, run_accumulatorInstrs, guard_true, Option.pure_def]
  cases pairs.all fun p => p.1 == noSignature || env.checkSig p.1 p.2
  · rfl
  · by_cases hc : m ≤ pairs.countP fun p => p.1 != noSignature <;> simp [hc] <;> rfl

end Run


/-! ## The script_sig that `create_script_sig` writes -/

theorem countP_zip_fst {p : Bytes → Bool} {sigs keyBytes : List Bytes}
    (h : sigs.length ≤ keyBytes.length) :
    (sigs.zip keyBytes).countP (fun q => p q.1) = (sigs.filter p).length := by
  rw [← List.countP_eq_length_filter]
  conv_rhs => rw [← List.map_fst_zip sigs keyBytes h]
  rw [List.countP_map]
  rfl

/-- `create_script_sig(MULTISIG_ACCUMULATOR, m, keys, sigs)` followed by the locking script
`AccumulatorMultiSigOutput(keys, m).to_script_bytes()` verifies exactly when every present
signature is valid for the key at its position and at least `m` signatures are present, for
bitcoinx's pushes and every item short enough for them. -/
theorem accumulator_script_verifies (c : TxConfig) (env : ScriptEnv) (keys : List XPublicKey)
    (keyBytes sigs : List Bytes) (m : Nat) (hpush : c.pushItem = pushItem)
    (hkeys : keys.mapM c.publicKeyBytes = some keyBytes) (hsigs : sigs.length = keys.length)
    (hsize : ∀ b ∈ intToItem m :: sigs ++ keyBytes, b.length < 2 ^ 32) :
    ∃ scriptSig, createScriptSig c .MULTISIG_ACCUMULATOR m keys sigs = some scriptSig ∧
      (verifyScript env scriptSig (accumulatorScript env.hash160 keyBytes m) = true ↔
        (∀ p ∈ sigs.zip keyBytes, p.1 ≠ noSignature → env.checkSig p.1 p.2 = true) ∧
          m ≤ (sigs.filter (· != noSignature)).length) := by
  have hl : keyBytes.length = keys.length := length_of_mapM_eq_some hkeys
  refine ⟨_, createScriptSig_accumulator c hkeys hsigs m, ?_⟩
  have hv := verifyScript_accumulator env (sigs.zip keyBytes) m
    (fun p hp => ⟨hsize _ (.tail _ (List.mem_append_left _ (List.of_mem_zip hp).1)),
      hsize _ (.tail _ (List.mem_append_right _ (List.of_mem_zip hp).2))⟩) (hsize _ (.head _))
  rw [List.map_snd_zip _ _ (by omega), countP_zip_fst (p := (· != noSignature)) (by omega)] at hv
  rw [hpush, hv]
  simp only [Bool.and_eq_true, List.all_eq_true, Bool.or_eq_true, beq_iff_eq,
    decide_eq_true_eq, or_iff_not_imp_left]


/-- The configuration of the examples with bitcoinx's pushes. -/
def bitcoinxTxConfig : TxConfig := { sampleTxConfig with pushItem := pushItem, pushInt := pushInt }

/-- A script environment for examples: every key hashes to twenty zero bytes, and a signature is
valid when it has one byte. -/
def sampleScriptEnv : ScriptEnv where
  hash160 _ := List.replicate 20 0
  hash160_length _ := List.length_replicate _ _
  checkSig sig _ := sig.length == 1

/-- Two keys, threshold one, the first key signing. -/
theorem sampleAccumulator_script_verifies :
    bitcoinxTxConfig.pushItem = pushItem ∧
      [.pubkey [2, 1], .pubkey [3, 1]].mapM bitcoinxTxConfig.publicKeyBytes =
        some [[2, 1], [3, 1]] ∧
      [[0x30], noSignature].length = [XPublicKey.pubkey [2, 1], .pubkey [3, 1]].length ∧
      (∀ b ∈ intToItem (1 : Nat) :: [[0x30], noSignature] ++ [[2, 1], [3, 1]], b.length < 2 ^ 32) ∧
      ∃ scriptSig, createScriptSig bitcoinxTxConfig .MULTISIG_ACCUMULATOR (1 : Nat)
          [.pubkey [2, 1], .pubkey [3, 1]] [[0x30], noSignature] = some scriptSig ∧
        (verifyScript sampleScriptEnv scriptSig
            (accumulatorScript sampleScriptEnv.hash160 [[2, 1], [3, 1]] (1 : Nat)) = true ↔
          (∀ p ∈ [[0x30], noSignature].zip [[2, 1], [3, 1]], p.1 ≠ noSignature →
              sampleScriptEnv.checkSig p.1 p.2 = true) ∧
            1 ≤ ([[0x30], noSignature].filter (· != noSignature)).length) :=
  ⟨rfl, rfl, rfl, by decide, accumulator_script_verifies bitcoinxTxConfig sampleScriptEnv
    [.pubkey [2, 1], .pubkey [3, 1]] [[2, 1], [3, 1]] [[0x30], noSignature] 1 rfl rfl rfl
    (by decide)⟩


example : (createScriptSig bitcoinxTxConfig .MULTISIG_ACCUMULATOR 2
      [.pubkey [2, 1], .pubkey [3, 1]] [[0x30], noSignature]).map (fun s => verifyScript
        sampleScriptEnv s (accumulatorScript sampleScriptEnv.hash160 [[2, 1], [3, 1]] 2)) =
      some false ∧
    (createScriptSig bitcoinxTxConfig .MULTISIG_ACCUMULATOR 1
      [.pubkey [2, 1], .pubkey [3, 1]] [[0x30], noSignature]).map (fun s => verifyScript
        sampleScriptEnv s (accumulatorScript sampleScriptEnv.hash160 [[2, 1], [3, 1]] 1)) =
      some true := by
  decide

end ElectrumSV
