import Mathlib.Data.List.AList
import Mathlib.Tactic.Linarith
import Mathlib.Tactic.Ring

/-!
# Shared types

Python `bytes` are lists of bytes, a `DerivationPath` is a tuple of child numbers, and
`ScriptType` is the `IntEnum` of `constants.py` restricted to the members that the modelled code
names. A `TokenMap` is a Python `dict` keyed by `bytes`: `d[k] = v` is `AList.insert`, `del d[k]`
is `AList.erase` after a membership test, and `len(d)` is the number of keys. Nothing in the
modelled code reads the iteration order of these dictionaries.
-/

namespace ElectrumSV

/-- Python `bytes`. -/
abbrev Bytes := List UInt8

/-- `DerivationPath = Tuple[int, ...]`. -/
abbrev DerivationPath := List Int

/-- `ScriptType` of `constants.py`. Its numbering is not under `src/`; the model numbers the
members in declaration order, and only `toInt`/`ofInt?` read it. -/
inductive ScriptType
  | NONE
  | COINBASE
  | P2PKH
  | P2PK
  | MULTISIG_BARE
  | MULTISIG_P2SH
  | MULTISIG_ACCUMULATOR
  deriving DecidableEq, Repr

namespace ScriptType

/-- The integer value of the `IntEnum` member, as written into a JSON dictionary. -/
def toInt : ScriptType → Int
  | NONE => 0
  | COINBASE => 1
  | P2PKH => 2
  | P2PK => 3
  | MULTISIG_BARE => 4
  | MULTISIG_P2SH => 5
  | MULTISIG_ACCUMULATOR => 6

/-- `ScriptType(v)`: `none` is the `ValueError` of an unknown value. -/
def ofInt? : Int → Option ScriptType
  | 0 => some NONE
  | 1 => some COINBASE
  | 2 => some P2PKH
  | 3 => some P2PK
  | 4 => some MULTISIG_BARE
  | 5 => some MULTISIG_P2SH
  | 6 => some MULTISIG_ACCUMULATOR
  | _ => none

@[simp] theorem ofInt?_toInt (t : ScriptType) : ofInt? t.toInt = some t := by
  cases t <;> rfl

end ScriptType

/-- A Python `dict` keyed by `bytes`. -/
abbrev TokenMap (α : Type) := AList fun _ : Bytes => α

namespace TokenMap

variable {α : Type}

/-- `len(d)`. -/
def size (d : TokenMap α) : Nat := d.keys.length

theorem size_insert (d : TokenMap α) (k : Bytes) (v : α) :
    size (d.insert k v) = if k ∈ d then size d else size d + 1 := by
  by_cases h : k ∈ d
  · have := List.length_pos_of_mem (AList.mem_keys.1 h)
    simp only [size, AList.keys_insert, List.length_cons, List.length_erase, ← AList.mem_keys, h,
      if_true]
    omega
  · simp [size, AList.keys_insert, List.length_erase, ← AList.mem_keys, h]

theorem size_insert_le (d : TokenMap α) (k : Bytes) (v : α) : size (d.insert k v) ≤ size d + 1 := by
  rw [size_insert]; split <;> omega

theorem size_erase (d : TokenMap α) {k : Bytes} (h : k ∈ d) : size (d.erase k) + 1 = size d := by
  have := List.length_pos_of_mem (AList.mem_keys.1 h)
  simp only [size, AList.keys_erase, List.length_erase, ← AList.mem_keys, h, if_true]
  omega

theorem size_pos_iff (d : TokenMap α) : 0 < size d ↔ ∃ k, k ∈ d := by
  simp only [size, List.length_pos_iff_exists_mem, AList.mem_keys]

end TokenMap

end ElectrumSV
