import ElectrumSV.Script.Push

/-!
# A Bitcoin script machine

The scripts that ElectrumSV builds are run by the nodes that verify a transaction, by an
interpreter that is not part of the repository. The model is the part of that interpreter the
scripts use, under the rules of Bitcoin SV after its Genesis upgrade, which lift the size limits on
numbers and stacks: a script is split into instructions, pushes and opcodes (`parseScript`), and
the instructions run one after another on a main stack, an alternate stack and the conditions of
the open `OP_IF`s (`Machine`). As in Bitcoin Core, the conditionals always act on the conditions,
and every other instruction is skipped while one of them is false. An executed opcode that the
model does not cover fails.

`VerifyScript` runs the script_sig, which may only push, and then the locking script on the stack
it leaves; it succeeds when the top item is true (`verifyScript`). The hash of `OP_HASH160` and
the signature check of `OP_CHECKSIGVERIFY` are parameters (`ScriptEnv`).

* `parses_pushItem`, `execInstr_pushInstr`: the bytes that `push_item` writes are read as one
  instruction, which pushes the item.
* `Parses.append`, `parseScript_of_parses`: the instructions of a script written piece by piece
  are those of its pieces.
-/

namespace ElectrumSV

namespace Ops

/-- `OP_16`, the last of the opcodes that push a small number. -/
def OP_16 : UInt8 := 0x60
/-- `OP_IF`. -/
def OP_IF : UInt8 := 0x63
/-- `OP_NOTIF`. -/
def OP_NOTIF : UInt8 := 0x64
/-- `OP_VERIF`, which fails even where it is not executed. -/
def OP_VERIF : UInt8 := 0x65
/-- `OP_VERNOTIF`, which fails even where it is not executed. -/
def OP_VERNOTIF : UInt8 := 0x66
/-- `OP_ELSE`. -/
def OP_ELSE : UInt8 := 0x67
/-- `OP_ENDIF`. -/
def OP_ENDIF : UInt8 := 0x68
/-- `OP_TOALTSTACK`. -/
def OP_TOALTSTACK : UInt8 := 0x6b
/-- `OP_FROMALTSTACK`. -/
def OP_FROMALTSTACK : UInt8 := 0x6c
/-- `OP_DUP`. -/
def OP_DUP : UInt8 := 0x76
/-- `OP_EQUALVERIFY`. -/
def OP_EQUALVERIFY : UInt8 := 0x88
/-- `OP_1ADD`. -/
def OP_1ADD : UInt8 := 0x8b
/-- `OP_GREATERTHANOREQUAL`. -/
def OP_GREATERTHANOREQUAL : UInt8 := 0xa2
/-- `OP_HASH160`. -/
def OP_HASH160 : UInt8 := 0xa9
/-- `OP_CHECKSIGVERIFY`. -/
def OP_CHECKSIGVERIFY : UInt8 := 0xad

end Ops

/-- One instruction of a script: a push of data, or an opcode. -/
inductive Instr
  | push (data : Bytes)
  | op (code : UInt8)
  deriving DecidableEq, Repr

/-- A push of the first `n` bytes of `rest`; a push that runs past the end of the script fails. -/
def takePush (n : Nat) (rest : Bytes) : Option (Instr × Bytes) :=
  if n ≤ rest.length then some (.push (rest.take n), rest.drop n) else none

/-- A push whose length is written in the first `k` bytes of `rest`, little-endian. -/
def takePrefixedPush (k : Nat) (rest : Bytes) : Option (Instr × Bytes) :=
  if k ≤ rest.length then takePush (leValue (rest.take k)) (rest.drop k) else none

/-- The instruction at the start of a script, and the bytes after it. -/
def parseInstr : Bytes → Option (Instr × Bytes)
  | [] => none
  | b :: rest =>
    if b.toNat < 0x4c then takePush b.toNat rest
    else if b = Ops.OP_PUSHDATA1 then takePrefixedPush 1 rest
    else if b = Ops.OP_PUSHDATA2 then takePrefixedPush 2 rest
    else if b = Ops.OP_PUSHDATA4 then takePrefixedPush 4 rest
    else some (.op b, rest)

/-- The instructions of a script, one instruction per unit of `fuel`. -/
def parseScriptAux : Nat → Bytes → Option (List Instr)
  | _, [] => some []
  | 0, _ :: _ => none
  | fuel + 1, b :: bs => do
    let (i, rest) ← parseInstr (b :: bs)
    let is ← parseScriptAux fuel rest
    pure (i :: is)

/-- The instructions of a script; every instruction takes at least one byte. -/
def parseScript (script : Bytes) : Option (List Instr) := parseScriptAux script.length script

/-- The push-only instructions of `IsPushOnly`: pushes, and the opcodes up to `OP_16`. -/
def Instr.isPush : Instr → Bool
  | .push _ => true
  | .op code => code.toNat ≤ 0x60

/-- What the interpreter takes from the transaction it verifies: `hash160`, of 20 bytes, and the
signature check of `OP_CHECKSIGVERIFY`, of a signature against a public key. -/
structure ScriptEnv where
  hash160 : Bytes → Bytes
  hash160_length : ∀ b, (hash160 b).length = 20
  checkSig : Bytes → Bytes → Bool

/-- The interpreter's state: the main and alternate stacks, tops first, and the conditions of the
open `OP_IF`s, innermost first. -/
structure Machine where
  stack : List Bytes
  altstack : List Bytes := []
  conds : List Bool := []
  deriving DecidableEq, Repr

/-- Instructions other than the conditionals take effect while every open condition holds. -/
def Machine.executing (m : Machine) : Bool := m.conds.all id

section Exec

variable (env : ScriptEnv)

/-- An executed opcode other than a conditional, on the opcodes the model covers. -/
def execOp (code : UInt8) (m : Machine) : Option Machine :=
  if code = Ops.OP_1NEGATE then some { m with stack := [0x81] :: m.stack }
  else if 0x51 ≤ code.toNat ∧ code.toNat ≤ 0x60 then
    some { m with stack := [code - 0x50] :: m.stack }
  else match code.toNat, m.stack, m.altstack with
    | 0x6b, x :: st, alt => some { m with stack := st, altstack := x :: alt }
    | 0x6c, st, x :: alt => some { m with stack := x :: st, altstack := alt }
    | 0x76, x :: st, _ => some { m with stack := x :: x :: st }
    | 0x88, a :: b :: st, _ => if a = b then some { m with stack := st } else none
    | 0x8b, a :: st, _ => some { m with stack := intToItem (decodeNum a + 1) :: st }
    | 0xa2, b :: a :: st, _ =>
      some { m with stack := (if decodeNum b ≤ decodeNum a then [1] else []) :: st }
    | 0xa9, a :: st, _ => some { m with stack := env.hash160 a :: st }
    | 0xad, key :: sig :: st, _ =>
      if env.checkSig sig key then some { m with stack := st } else none
    | _, _, _ => none

/-- One instruction. `OP_IF` and `OP_NOTIF` open a condition, taken from the stack while
executing and false otherwise; `OP_ELSE` flips the innermost condition and `OP_ENDIF` closes it.
Any other instruction is skipped while a condition is false. -/
def execInstr (m : Machine) : Instr → Option Machine
  | .push data => some (if m.executing then { m with stack := data :: m.stack } else m)
  | .op code =>
    if code = Ops.OP_IF ∨ code = Ops.OP_NOTIF then
      if m.executing then
        match m.stack with
        | x :: st =>
          some { m with stack := st,
                        conds := (if code = Ops.OP_IF then castToBool x else !castToBool x) ::
                          m.conds }
        | [] => none
      else some { m with conds := false :: m.conds }
    else if code = Ops.OP_ELSE then
      match m.conds with
      | c :: cs => some { m with conds := (!c) :: cs }
      | [] => none
    else if code = Ops.OP_ENDIF then
      match m.conds with
      | _ :: cs => some { m with conds := cs }
      | [] => none
    else if code = Ops.OP_VERIF ∨ code = Ops.OP_VERNOTIF then none
    else if m.executing then execOp env code m
    else some m

/-- `EvalScript`: the instructions of `script` from `stack` and an empty alternate stack; every
`OP_IF` must be closed at the end. -/
def evalScript (script : Bytes) (stack : List Bytes) : Option (List Bytes) := do
  let instrs ← parseScript script
  let m ← instrs.foldlM (execInstr env) { stack := stack }
  guard (m.conds = [])
  pure m.stack

/-- `VerifyScript`: a push-only script_sig, then the locking script on the stack it leaves; it
succeeds when the top item is true. -/
def verifyScript (scriptSig scriptPubkey : Bytes) : Bool :=
  match (do
      let instrs ← parseScript scriptSig
      guard (instrs.all Instr.isPush)
      let stack ← evalScript env scriptSig []
      evalScript env scriptPubkey stack) with
  | some (top :: _) => castToBool top
  | _ => false

end Exec

/-! ## Reading a script piece by piece -/

/-- The instruction that the bytes of `push_item(item)` are read as. -/
def pushInstr (item : Bytes) : Instr :=
  match item with
  | [b] => if 1 ≤ b.toNat ∧ b.toNat ≤ 16 then .op (b + 0x50)
    else if b = 0x81 then .op Ops.OP_1NEGATE else .push [b]
  | _ => .push item

/-- `bs` is read as the instructions `is`, whatever follows it. -/
def Parses (bs : Bytes) (is : List Instr) : Prop :=
  ∀ rest, parseScript (bs ++ rest) = (is ++ ·) <$> parseScript rest

theorem takePush_length {n : Nat} {rest r : Bytes} {i : Instr}
    (h : takePush n rest = some (i, r)) : r.length ≤ rest.length := by
  unfold takePush at h
  split at h
  · cases h
    simp
  · cases h

theorem takePrefixedPush_length {k : Nat} {rest r : Bytes} {i : Instr}
    (h : takePrefixedPush k rest = some (i, r)) : r.length ≤ rest.length := by
  unfold takePrefixedPush at h
  split at h
  · exact (takePush_length h).trans (by simp)
  · cases h

theorem parseInstr_length {bs rest : Bytes} {i : Instr} (h : parseInstr bs = some (i, rest)) :
    rest.length < bs.length := by
  match bs with
  | [] => cases h
  | b :: bs =>
    rw [List.length_cons, Nat.lt_succ_iff]
    rw [parseInstr] at h
    split_ifs at h
    · exact takePush_length h
    · exact takePrefixedPush_length h
    · exact takePrefixedPush_length h
    · exact takePrefixedPush_length h
    · cases h
      exact le_rfl

theorem parseScriptAux_eq : ∀ fuel bs, bs.length ≤ fuel → parseScriptAux fuel bs = parseScript bs
  | _, [], _ => by simp [parseScript, parseScriptAux]
  | 0, _ :: _, h => absurd h (by simp)
  | fuel + 1, b :: bs, h => by
    rw [List.length_cons] at h
    rw [parseScript, List.length_cons, parseScriptAux, parseScriptAux]
    cases hp : parseInstr (b :: bs) with
    | none => rfl
    | some p =>
      have hl := parseInstr_length hp
      simp only [Option.bind_eq_bind, Option.some_bind, List.length_cons] at hl ⊢
      rw [parseScriptAux_eq fuel p.2 (by omega), parseScriptAux_eq bs.length p.2 (by omega)]

theorem parses_of_parseInstr {bs : Bytes} {i : Instr}
    (h : ∀ rest, parseInstr (bs ++ rest) = some (i, rest)) : Parses bs [i] := by
  intro rest
  have hl := parseInstr_length (h rest)
  obtain ⟨b, bs', hb⟩ : ∃ b bs', bs ++ rest = b :: bs' := by
    cases hbs : bs ++ rest with
    | nil => simp [hbs] at hl
    | cons b bs' => exact ⟨b, bs', rfl⟩
  rw [parseScript, hb, List.length_cons, parseScriptAux, ← hb, h rest]
  simp only [Option.bind_eq_bind, Option.some_bind]
  rw [hb, List.length_cons] at hl
  rw [parseScriptAux_eq _ _ (by omega)]
  cases parseScript rest <;> rfl

theorem Parses.nil : Parses [] [] := fun rest => by simp

theorem Parses.append {bs cs : Bytes} {is js : List Instr} (h : Parses bs is)
    (h' : Parses cs js) : Parses (bs ++ cs) (is ++ js) := fun rest => by
  rw [List.append_assoc, h, h']
  cases parseScript rest <;> simp

theorem Parses.flatten {α : Type} {f : α → Bytes} {g : α → List Instr} :
    ∀ {l : List α}, (∀ x ∈ l, Parses (f x) (g x)) → Parses (l.map f).flatten (l.map g).flatten
  | [], _ => .nil
  | x :: _, h => (h x (.head _)).append (Parses.flatten fun y hy => h y (.tail _ hy))

theorem parseScript_of_parses {bs : Bytes} {is : List Instr} (h : Parses bs is) :
    parseScript bs = some is := by
  simpa [parseScript, parseScriptAux] using h []

theorem parses_op {b : UInt8} (hb : 0x4f ≤ b.toNat) : Parses [b] [.op b] :=
  parses_of_parseInstr fun rest => by
    have h1 : b ≠ Ops.OP_PUSHDATA1 := by rintro rfl; exact absurd hb (by decide)
    have h2 : b ≠ Ops.OP_PUSHDATA2 := by rintro rfl; exact absurd hb (by decide)
    have h4 : b ≠ Ops.OP_PUSHDATA4 := by rintro rfl; exact absurd hb (by decide)
    simp [parseInstr, h1, h2, h4, show ¬ b.toNat < 0x4c by omega]

theorem takePush_append (item rest : Bytes) :
    takePush item.length (item ++ rest) = some (.push item, rest) := by
  simp [takePush]

theorem parses_pushData {item : Bytes} (h : item.length < 2 ^ 32) :
    Parses (pushData item) [.push item] := by
  refine parses_of_parseInstr fun rest => ?_
  dsimp only [pushData]
  split_ifs with h1 h2 h3
  · have hn : item.length.toUInt8.toNat = item.length := Nat.mod_eq_of_lt (by omega)
    simp only [List.cons_append, parseInstr, hn, h1, if_true, takePush_append]
  · have hn : item.length.toUInt8.toNat = item.length := Nat.mod_eq_of_lt (by omega)
    simp only [List.cons_append, List.singleton_append, parseInstr,
      show ¬ Ops.OP_PUSHDATA1.toNat < 0x4c by decide, if_false, if_true, takePrefixedPush]
    simp [leValue, hn, takePush_append]
  · have hv := leValue_leBytes 2 item.length (by omega)
    simp only [List.cons_append, parseInstr, show ¬ Ops.OP_PUSHDATA2.toNat < 0x4c by decide,
      show Ops.OP_PUSHDATA2 ≠ Ops.OP_PUSHDATA1 by decide, if_false, if_true, takePrefixedPush]
    simp [List.append_assoc, hv, takePush_append]
  · have hv := leValue_leBytes 4 item.length (by omega)
    simp only [List.cons_append, parseInstr, show ¬ Ops.OP_PUSHDATA4.toNat < 0x4c by decide,
      show Ops.OP_PUSHDATA4 ≠ Ops.OP_PUSHDATA1 by decide,
      show Ops.OP_PUSHDATA4 ≠ Ops.OP_PUSHDATA2 by decide, if_false, if_true, takePrefixedPush]
    simp [List.append_assoc, hv, takePush_append]

theorem parses_pushItem {item : Bytes} (h : item.length < 2 ^ 32) :
    Parses (pushItem item) [pushInstr item] := by
  match item with
  | [] => exact parses_pushData h
  | [b] =>
    simp only [pushItem, pushInstr]
    split_ifs with h1 h2
    · have : (b + 0x50).toNat = (b.toNat + 0x50) % 256 := BitVec.toNat_add _ _
      exact parses_op (by omega)
    · exact parses_op (by decide)
    · exact parses_pushData h
  | _ :: _ :: _ => exact parses_pushData h

theorem parses_ops : ∀ {bs : Bytes}, (∀ b ∈ bs, 0x4f ≤ b.toNat) → Parses bs (bs.map .op)
  | [], _ => .nil
  | b :: _, h => (parses_op (h b (.head _))).append (parses_ops fun c hc => h c (.tail _ hc))

/-! ## Steps -/

/-- The instructions that act only where the machine executes: all but the conditionals and the
`OP_VERIF`s. -/
def Instr.isPlain : Instr → Bool
  | .push _ => true
  | .op code => code.toNat < 0x63 || 0x68 < code.toNat

/-- The machine after a push: the item on the stack where it executes, unchanged otherwise. -/
def Machine.push (m : Machine) (item : Bytes) : Machine :=
  if m.executing then { m with stack := item :: m.stack } else m

section Steps

variable {env : ScriptEnv}

theorem execInstr_plain {m : Machine} {code : UInt8} (hc : (Instr.op code).isPlain = true) :
    execInstr env m (.op code) = if m.executing then execOp env code m else some m := by
  simp only [Instr.isPlain, Bool.or_eq_true, decide_eq_true_eq] at hc
  have hne : ∀ c : UInt8, 0x63 ≤ c.toNat ∧ c.toNat ≤ 0x68 → code ≠ c := by
    rintro c hc' rfl
    omega
  simp only [execInstr, hne Ops.OP_IF (by decide), hne Ops.OP_NOTIF (by decide),
    hne Ops.OP_ELSE (by decide), hne Ops.OP_ENDIF (by decide), hne Ops.OP_VERIF (by decide),
    hne Ops.OP_VERNOTIF (by decide), or_self, if_false]

theorem Machine.push_of_executing {st alt : List Bytes} {cs : List Bool} (h : cs.all id = true)
    (x : Bytes) : Machine.push ⟨st, alt, cs⟩ x = ⟨x :: st, alt, cs⟩ := by
  simp [Machine.push, Machine.executing, h]

theorem execInstr_skip {m : Machine} (h : m.executing = false) :
    ∀ {i : Instr}, i.isPlain = true → execInstr env m i = some m
  | .push _, _ => by simp [execInstr, h]
  | .op _, hc => by rw [execInstr_plain hc, h, if_neg Bool.false_ne_true]

theorem foldlM_execInstr_skip {m : Machine} (h : m.executing = false) :
    ∀ {is : List Instr}, (∀ i ∈ is, i.isPlain = true) → is.foldlM (execInstr env) m = some m
  | [], _ => rfl
  | i :: is, hi => by
    rw [List.foldlM_cons, execInstr_skip h (hi i (.head _))]
    exact foldlM_execInstr_skip h fun j hj => hi j (.tail _ hj)

theorem toNat_smallNumOp {b : UInt8} (h : b.toNat ≤ 16) : (b + 0x50).toNat = b.toNat + 0x50 := by
  have : (b + 0x50).toNat = (b.toNat + 0x50) % 256 := BitVec.toNat_add _ _
  omega

theorem smallNumOp_sub {b : UInt8} (h : b.toNat ≤ 16) : b + 0x50 - 0x50 = b :=
  UInt8.toNat.inj (by
    have : (b + 0x50 - 0x50).toNat = (2 ^ 8 - 0x50 + (b + 0x50).toNat) % 2 ^ 8 :=
      BitVec.toNat_sub _ _
    rw [toNat_smallNumOp h] at this
    omega)

theorem execOp_smallNum {code : UInt8} {m : Machine} (h : 0x51 ≤ code.toNat ∧ code.toNat ≤ 0x60) :
    execOp env code m = some { m with stack := [code - 0x50] :: m.stack } := by
  have hne : code ≠ Ops.OP_1NEGATE := by
    rintro rfl
    exact absurd h (by decide)
  rw [execOp, if_neg hne, if_pos h]

theorem execInstr_pushInstr (m : Machine) (item : Bytes) :
    execInstr env m (pushInstr item) = some (m.push item) := by
  match item with
  | [b] =>
    simp only [pushInstr]
    split_ifs with h1 h2
    · have hb := toNat_smallNumOp h1.2
      rw [execInstr_plain (by simp [Instr.isPlain]; omega), Machine.push]
      split
      · rw [execOp_smallNum (by omega), smallNumOp_sub h1.2]
      · rfl
    · subst h2
      rw [execInstr_plain (by decide), Machine.push]
      split <;> rfl
    · rfl
  | [] => rfl
  | _ :: _ :: _ => rfl

theorem isPush_pushInstr (item : Bytes) : (pushInstr item).isPush = true := by
  match item with
  | [b] =>
    simp only [pushInstr]
    split_ifs with h1 h2
    · simp [Instr.isPush, toNat_smallNumOp h1.2]
      omega
    · rfl
    · rfl
  | [] => rfl
  | _ :: _ :: _ => rfl

theorem isPlain_of_isPush : ∀ {i : Instr}, i.isPush = true → i.isPlain = true
  | .push _, _ => rfl
  | .op _, h => by simp_all [Instr.isPush, Instr.isPlain]; omega

@[simp] theorem execOp_toAltstack (x : Bytes) (st alt : List Bytes) (cs : List Bool) :
    execOp env Ops.OP_TOALTSTACK ⟨x :: st, alt, cs⟩ = some ⟨st, x :: alt, cs⟩ := rfl

@[simp] theorem execOp_fromAltstack (x : Bytes) (st alt : List Bytes) (cs : List Bool) :
    execOp env Ops.OP_FROMALTSTACK ⟨st, x :: alt, cs⟩ = some ⟨x :: st, alt, cs⟩ := rfl

@[simp] theorem execOp_dup (x : Bytes) (st alt : List Bytes) (cs : List Bool) :
    execOp env Ops.OP_DUP ⟨x :: st, alt, cs⟩ = some ⟨x :: x :: st, alt, cs⟩ := rfl

@[simp] theorem execOp_equalVerify (a b : Bytes) (st alt : List Bytes) (cs : List Bool) :
    execOp env Ops.OP_EQUALVERIFY ⟨a :: b :: st, alt, cs⟩ =
      if a = b then some ⟨st, alt, cs⟩ else none := rfl

@[simp] theorem execOp_1add (a : Bytes) (st alt : List Bytes) (cs : List Bool) :
    execOp env Ops.OP_1ADD ⟨a :: st, alt, cs⟩ =
      some ⟨intToItem (decodeNum a + 1) :: st, alt, cs⟩ := rfl

@[simp] theorem execOp_greaterThanOrEqual (a b : Bytes) (st alt : List Bytes) (cs : List Bool) :
    execOp env Ops.OP_GREATERTHANOREQUAL ⟨b :: a :: st, alt, cs⟩ =
      some ⟨(if decodeNum b ≤ decodeNum a then [1] else []) :: st, alt, cs⟩ := rfl

@[simp] theorem execOp_hash160 (a : Bytes) (st alt : List Bytes) (cs : List Bool) :
    execOp env Ops.OP_HASH160 ⟨a :: st, alt, cs⟩ = some ⟨env.hash160 a :: st, alt, cs⟩ := rfl

@[simp] theorem execOp_checkSigVerify (key sig : Bytes) (st alt : List Bytes) (cs : List Bool) :
    execOp env Ops.OP_CHECKSIGVERIFY ⟨key :: sig :: st, alt, cs⟩ =
      if env.checkSig sig key then some ⟨st, alt, cs⟩ else none := rfl

theorem execInstr_if {x : Bytes} {st alt : List Bytes} {cs : List Bool} (h : cs.all id = true) :
    execInstr env ⟨x :: st, alt, cs⟩ (.op Ops.OP_IF) = some ⟨st, alt, castToBool x :: cs⟩ := by
  simp [execInstr, Machine.executing, h]

@[simp] theorem execInstr_endif (st alt : List Bytes) (c : Bool) (cs : List Bool) :
    execInstr env ⟨st, alt, c :: cs⟩ (.op Ops.OP_ENDIF) = some ⟨st, alt, cs⟩ := rfl

end Steps

end ElectrumSV
