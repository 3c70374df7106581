import ElectrumSV.Transaction.Packing

/-!
# Pushes and script numbers

The scripts that `transaction.py` and `script.py` build push their data with bitcoinx's
`push_item`, which picks the shortest instruction that pushes a byte string, and their numbers
with `push_int`, the push of the shortest sign-and-magnitude encoding of the number
(`int_to_item`). bitcoinx is not part of the repository; the model follows the Bitcoin script
rules these functions implement. `push_item` raises on an item of `2 ^ 32` bytes or more, whose
length does not fit its `OP_PUSHDATA4` prefix; the model writes the prefix modulo `2 ^ 32`, and
the results that read a push back assume shorter items.

A stack item read as a number (`decodeNum`) is little-endian with the sign in the top bit of its
last byte, and read as a condition (`castToBool`) it is false when it is a zero of either sign.

* `leValue_leMinimal`, `decodeNum_intToItem`: an encoded natural number reads back as itself.
-/

namespace ElectrumSV

namespace Ops

/-- `OP_PUSHDATA1`: a push whose length is the next byte. -/
def OP_PUSHDATA1 : UInt8 := 0x4c
/-- `OP_PUSHDATA2`: a push whose length is the next two bytes. -/
def OP_PUSHDATA2 : UInt8 := 0x4d
/-- `OP_PUSHDATA4`: a push whose length is the next four bytes. -/
def OP_PUSHDATA4 : UInt8 := 0x4e
/-- `OP_1NEGATE`: pushes the number `-1`. -/
def OP_1NEGATE : UInt8 := 0x4f

end Ops

/-- A push of `item` with its length written before it: in the opcode itself below
`OP_PUSHDATA1`, else after the shortest `OP_PUSHDATA` that holds it. -/
def pushData (item : Bytes) : Bytes :=
  let n := item.length
  if n < 0x4c then n.toUInt8 :: item
  else if n < 0x100 then [Ops.OP_PUSHDATA1, n.toUInt8] ++ item
  else if n < 0x10000 then Ops.OP_PUSHDATA2 :: leBytes 2 n ++ item
  else Ops.OP_PUSHDATA4 :: leBytes 4 n ++ item

/-- bitcoinx `push_item`: `OP_0` for the empty item, `OP_1` to `OP_16` and `OP_1NEGATE` for the
one-byte items that they push, and otherwise `pushData`. -/
def pushItem (item : Bytes) : Bytes :=
  match item with
  | [] => [0x00]
  | [b] => if 1 ≤ b.toNat ∧ b.toNat ≤ 16 then [b + 0x50]
    else if b = 0x81 then [Ops.OP_1NEGATE] else pushData [b]
  | _ => pushData item

/-- The little-endian bytes of `n` up to its last non-zero byte, taking at most `fuel` bytes. -/
def leMinimalAux : Nat → Nat → Bytes
  | 0, _ => []
  | fuel + 1, n => if n = 0 then [] else (n % 256).toUInt8 :: leMinimalAux fuel (n / 256)

/-- The shortest little-endian bytes of `n`; none for zero. -/
def leMinimal (n : Nat) : Bytes := leMinimalAux n n

/-- bitcoinx `int_to_item`: the magnitude in its shortest little-endian bytes, with the sign in
the top bit of the last byte, and one more byte where that bit is taken. -/
def intToItem (v : Int) : Bytes :=
  let magnitude := leMinimal v.natAbs
  match magnitude.getLast? with
  | none => []
  | some last =>
    if 0x80 ≤ last.toNat then magnitude ++ [if v < 0 then 0x80 else 0]
    else if v < 0 then magnitude.dropLast ++ [last ||| 0x80]
    else magnitude

/-- bitcoinx `push_int`: the push of `int_to_item(v)`. -/
def pushInt (v : Int) : Bytes := pushItem (intToItem v)

/-- A stack item read as a number: little-endian, negative when the top bit of its last byte is
set, which is then not part of the magnitude. -/
def decodeNum (item : Bytes) : Int :=
  match item.getLast? with
  | none => 0
  | some last =>
    if 0x80 ≤ last.toNat then -((leValue item - 0x80 * 256 ^ (item.length - 1) : Nat) : Int)
    else leValue item

/-- A stack item read as a condition: false for the zeros, every byte zero but perhaps a last
`0x80`. -/
def castToBool (item : Bytes) : Bool :=
  item.dropLast.any (· != 0) || item.getLast?.any fun b => b != 0 && b != 0x80

theorem leValue_leMinimalAux : ∀ fuel n, n ≤ fuel → leValue (leMinimalAux fuel n) = n
  | 0, n, h => by simp [leMinimalAux, leValue, Nat.le_zero.1 h]
  | fuel + 1, n, h => by
    rw [leMinimalAux]
    split
    · simp [leValue, *]
    · rw [leValue, leValue_leMinimalAux fuel (n / 256) (by omega)]
      change n % 256 % 256 + 256 * (n / 256) = n
      omega

theorem leValue_leMinimal (n : Nat) : leValue (leMinimal n) = n :=
  leValue_leMinimalAux n n le_rfl

theorem leValue_append_zero : ∀ bs : Bytes, leValue (bs ++ [0]) = leValue bs
  | [] => rfl
  | b :: bs => by simp [leValue, leValue_append_zero bs]

theorem decodeNum_intToItem (n : Nat) : decodeNum (intToItem n) = n := by
  have hv := leValue_leMinimal n
  simp only [intToItem, Int.natAbs_ofNat, Int.natCast_nonneg, not_lt.2, if_false]
  split
  · next h =>
    rw [List.getLast?_eq_none_iff] at h
    rw [h, leValue] at hv
    simp [decodeNum, ← hv]
  · next last h =>
    split
    · simp [decodeNum, leValue_append_zero, hv]
    · next hlt => simp [decodeNum, h, hlt, hv]

example : intToItem 127 = [0x7f] ∧ intToItem 128 = [0x80, 0] ∧ intToItem (-1) = [0x81] ∧
    intToItem 0x1234 = [0x34, 0x12] ∧ intToItem (-128) = [0x80, 0x80] := by decide

example : pushInt 16 = [0x60] ∧ pushInt (-1) = [0x4f] ∧ pushInt 17 = [1, 17] ∧
    pushItem [0] = [1, 0] ∧ castToBool [0, 0x80] = false ∧ castToBool [0x80, 0] = true := by
  decide

end ElectrumSV
