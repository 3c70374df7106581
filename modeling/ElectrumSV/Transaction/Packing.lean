import ElectrumSV.Basic

/-!
# The wire format

`transaction.py` writes and reads transactions with the packing helpers of bitcoinx:
fixed-width little-endian integers (`pack_le_uint32`, `read_le_int32`, …), the `varint` count
prefix, length-prefixed byte strings and counted lists. bitcoinx is not part of the repository; the
model follows the Bitcoin wire format that these helpers implement. The `struct.error` of an
out-of-range value or of a short read is `none`.

A reader works on `BytesIO(raw)`: `read(n)` returns at most `n` bytes and moves the position that
`tell()` reports. `xread_varbytes` returns that position with the bytes.

* `readUnsigned_packUnsigned`, `readSigned_packSigned`: every fixed-width reader reads back what
  its packer wrote, and leaves the bytes after it.
* `readVarint_packVarint`, `xreadVarbytes_packVarbytes`, `readMany_packEach`: the same for the
  count prefix, byte strings and lists.
* `readUnsigned_readsPacked`, `xreadVarbytesWith_minimal`, `xreadListWith_minimal`: a read that
  takes every count prefix in its shortest form consumed exactly the bytes its packer writes for
  the value it returned, so such a read is undone by packing.
* `xreadListWith_refines`, `xreadListWith_returns`: a stricter count reader only narrows what a
  list reader accepts, and a property of every item read holds of the list.
* `fromHex_hex`: `bytes.fromhex(b.hex()) == b`.
-/

namespace ElectrumSV

/-- `BytesIO(raw)` part way through: the unread bytes, and the position `tell()` reports. -/
structure Stream where
  rest : Bytes
  pos : Nat
  deriving DecidableEq, Repr

/-- A reader of a stream; `none` is the exception it raises. -/
abbrev Reader (α : Type) := StateT Stream Option α

/-! ## Reading and writing fixed-width integers -/

/-- The value of little-endian bytes. -/
def leValue : Bytes → Nat
  | [] => 0
  | b :: bs => b.toNat + 256 * leValue bs

/-- The `k` little-endian bytes of `n mod 256 ^ k`. -/
def leBytes : Nat → Nat → Bytes
  | 0, _ => []
  | k + 1, n => (n % 256).toUInt8 :: leBytes k (n / 256)

@[simp] theorem length_leBytes (k n : Nat) : (leBytes k n).length = k := by
  induction k generalizing n <;> simp [leBytes, *]

theorem leValue_leBytes (k n : Nat) (h : n < 256 ^ k) : leValue (leBytes k n) = n := by
  induction k generalizing n with
  | zero => simp_all [leBytes, leValue]
  | succ k ih =>
    have hlt : n / 256 < 256 ^ k := by rw [pow_succ] at h; omega
    simp only [leBytes, leValue, ih _ hlt]
    change n % 256 % 256 + 256 * (n / 256) = n
    omega

/-- `read(n)`: at most `n` bytes. -/
def readBytes (n : Nat) : Reader Bytes := fun s =>
  some (s.rest.take n, ⟨s.rest.drop n, s.pos + (s.rest.take n).length⟩)

/-- `tell()`. -/
def tell : Reader Nat := fun s => some (s.pos, s)

namespace Reader

variable {α β : Type}

@[simp] theorem bind_eq_some {r : Reader α} {f : α → Reader β} {s : Stream} {x : β × Stream} :
    (r >>= f) s = some x ↔ ∃ a s', r s = some (a, s') ∧ f a s' = some x := by
  simp only [bind, StateT.bind, Option.bind_eq_bind, Option.bind_eq_some, Prod.exists]

@[simp] theorem pure_eq_some {a : α} {s : Stream} {x : α × Stream} :
    (pure a : Reader α) s = some x ↔ x = (a, s) := by
  simp only [pure, StateT.pure, Option.some.injEq, eq_comm]

@[simp] theorem guard_eq_some {p : Prop} [Decidable p] {s : Stream} {x : Unit × Stream} :
    (guard p : Reader Unit) s = some x ↔ p ∧ x = ((), s) := by
  by_cases hp : p <;> simp [guard, hp, failure, StateT.failure, pure, StateT.pure, eq_comm]

end Reader

theorem readBytes_append (bs rest : Bytes) (pos : Nat) :
    readBytes bs.length ⟨bs ++ rest, pos⟩ = some (bs, ⟨rest, pos + bs.length⟩) := by
  simp [readBytes]

/-- `struct.unpack` of an unsigned little-endian integer of `k` bytes, read with `read(k)`. -/
def readUnsigned (k : Nat) : Reader Int := do
  let bs ← readBytes k
  if bs.length = k then pure (leValue bs) else failure

/-- `struct.unpack` of a signed (two's complement) little-endian integer of `k` bytes. -/
def readSigned (k : Nat) : Reader Int := do
  let v ← readUnsigned k
  pure (if v < 256 ^ k / 2 then v else v - 256 ^ k)

/-- `struct.pack` of an unsigned little-endian integer of `k` bytes. -/
def packUnsigned (k : Nat) (n : Int) : Option Bytes :=
  if 0 ≤ n ∧ n < 256 ^ k then some (leBytes k n.toNat) else none

/-- `struct.pack` of a signed little-endian integer of `k` bytes. -/
def packSigned (k : Nat) (n : Int) : Option Bytes :=
  if -(256 ^ k / 2 : Int) ≤ n ∧ n < 256 ^ k / 2 then
    packUnsigned k (if n < 0 then n + 256 ^ k else n)
  else none

/-- `read_le_uint16`. -/
def readLeUint16 : Reader Int := readUnsigned 2
/-- `read_le_uint32`. -/
def readLeUint32 : Reader Int := readUnsigned 4
/-- `read_le_uint64`. -/
def readLeUint64 : Reader Int := readUnsigned 8
/-- `read_le_int32`. -/
def readLeInt32 : Reader Int := readSigned 4
/-- `read_le_int64`. -/
def readLeInt64 : Reader Int := readSigned 8
/-- `pack_le_uint16`. -/
def packLeUint16 : Int → Option Bytes := packUnsigned 2
/-- `pack_le_uint32`. -/
def packLeUint32 : Int → Option Bytes := packUnsigned 4
/-- `pack_le_uint64`. -/
def packLeUint64 : Int → Option Bytes := packUnsigned 8
/-- `pack_le_int32`. -/
def packLeInt32 : Int → Option Bytes := packSigned 4
/-- `pack_le_int64`. -/
def packLeInt64 : Int → Option Bytes := packSigned 8

section FixedWidth

variable {k : Nat} {n : Int} {bs : Bytes}

theorem packUnsigned_eq_some (h : packUnsigned k n = some bs) :
    0 ≤ n ∧ n < 256 ^ k ∧ bs = leBytes k n.toNat := by
  unfold packUnsigned at h
  split at h
  case isTrue hr => cases h; exact ⟨hr.1, hr.2, rfl⟩
  case isFalse => cases h

@[simp] theorem length_of_packUnsigned (h : packUnsigned k n = some bs) : bs.length = k := by
  rw [(packUnsigned_eq_some h).2.2, length_leBytes]

theorem readUnsigned_packUnsigned (h : packUnsigned k n = some bs) (rest : Bytes) (pos : Nat) :
    readUnsigned k ⟨bs ++ rest, pos⟩ = some (n, ⟨rest, pos + k⟩) := by
  obtain ⟨h0, hlt, rfl⟩ := packUnsigned_eq_some h
  have hc : ((256 ^ k : Nat) : Int) = (256 : Int) ^ k := by norm_cast
  have hv : leValue (leBytes k n.toNat) = n.toNat := leValue_leBytes k _ (by omega)
  have := readBytes_append (leBytes k n.toNat) rest pos
  simp only [length_leBytes] at this
  simp only [readUnsigned, bind, StateT.bind, this, length_leBytes, if_true, hv, pure,
    StateT.pure, Option.bind_eq_bind, Option.some_bind, Int.toNat_of_nonneg h0]

theorem packSigned_eq_some (h : packSigned k n = some bs) :
    -(256 ^ k / 2 : Int) ≤ n ∧ n < 256 ^ k / 2 ∧
      packUnsigned k (if n < 0 then n + 256 ^ k else n) = some bs := by
  unfold packSigned at h
  split at h
  case isTrue hr => exact ⟨hr.1, hr.2, h⟩
  case isFalse => cases h

theorem readSigned_packSigned (h : packSigned k n = some bs) (rest : Bytes) (pos : Nat) :
    readSigned k ⟨bs ++ rest, pos⟩ = some (n, ⟨rest, pos + k⟩) := by
  obtain ⟨hlo, hhi, hp⟩ := packSigned_eq_some h
  simp only [readSigned, bind, StateT.bind, readUnsigned_packUnsigned hp, pure, StateT.pure,
    Option.bind_eq_bind, Option.some_bind, Option.some.injEq, Prod.mk.injEq, and_true]
  split_ifs <;> omega

@[simp] theorem length_of_packSigned (h : packSigned k n = some bs) : bs.length = k :=
  length_of_packUnsigned (packSigned_eq_some h).2.2

end FixedWidth

/-! ## Counts, byte strings and lists -/

/-- `pack_varint`: one byte below `0xfd`, else a marker and a 2-, 4- or 8-byte value. -/
def packVarint (n : Nat) : Option Bytes :=
  if n < 253 then some [n.toUInt8]
  else if n < 65536 then ([253] ++ ·) <$> packLeUint16 n
  else if n < 4294967296 then ([254] ++ ·) <$> packLeUint32 n
  else ([255] ++ ·) <$> packLeUint64 n

/-- `read_varint`: a first byte below `0xfd` is the value; `0xfd`, `0xfe` and `0xff` announce a
2-, 4- or 8-byte value. -/
def readVarint : Reader Nat := do
  let first ← readBytes 1
  match first with
  | [b] =>
    if b.toNat < 253 then pure b.toNat
    else if b.toNat = 253 then Int.toNat <$> readLeUint16
    else if b.toNat = 254 then Int.toNat <$> readLeUint32
    else Int.toNat <$> readLeUint64
  | _ => failure

theorem readVarint_packVarint {n : Nat} {bs : Bytes} (h : packVarint n = some bs) (rest : Bytes)
    (pos : Nat) : readVarint ⟨bs ++ rest, pos⟩ = some (n, ⟨rest, pos + bs.length⟩) := by
  unfold packVarint at h
  split at h
  case isTrue h1 =>
    cases h
    have hb : (n.toUInt8).toNat = n := Nat.mod_eq_of_lt (by omega)
    simp [readVarint, readBytes, bind, StateT.bind, pure, StateT.pure, hb, h1]
  split at h
  case isTrue h2 =>
    obtain ⟨p, hp, rfl⟩ := Option.map_eq_some'.1 h
    simp [readVarint, readBytes, bind, StateT.bind, Functor.map, StateT.map, readLeUint16,
      readUnsigned_packUnsigned hp, length_of_packUnsigned hp, UInt8.size]
  split at h
  case isTrue h3 =>
    obtain ⟨p, hp, rfl⟩ := Option.map_eq_some'.1 h
    simp [readVarint, readBytes, bind, StateT.bind, Functor.map, StateT.map, readLeUint32,
      readUnsigned_packUnsigned hp, length_of_packUnsigned hp, UInt8.size]
  case isFalse =>
    obtain ⟨p, hp, rfl⟩ := Option.map_eq_some'.1 h
    simp [readVarint, readBytes, bind, StateT.bind, Functor.map, StateT.map, readLeUint64,
      readUnsigned_packUnsigned hp, length_of_packUnsigned hp]

/-- `pack_varbytes`: the length, then the bytes. -/
def packVarbytes (data : Bytes) : Option Bytes := (· ++ data) <$> packVarint data.length

/-- `xread_varbytes` with the count read by `readCount`: the bytes, and the position at which they
start. -/
def xreadVarbytesWith (readCount : Reader Nat) : Reader (Bytes × Nat) := do
  let n ← readCount
  let offset ← tell
  let result ← readBytes n
  if result.length ≠ n then failure
  pure (result, offset)

/-- `xread_varbytes`, whose count is read by `read_varint`. -/
def xreadVarbytes : Reader (Bytes × Nat) := xreadVarbytesWith readVarint

/-- `[read_one(read, tell) for _ in range(n)]`. -/
def readMany {α : Type} (readOne : Reader α) : Nat → Reader (List α)
  | 0 => pure []
  | n + 1 => do
    let x ← readOne
    let xs ← readMany readOne n
    pure (x :: xs)

/-- `xread_list` with the count read by `readCount`: a count, then that many items. -/
def xreadListWith {α : Type} (readCount : Reader Nat) (readOne : Reader α) : Reader (List α) := do
  let n ← readCount
  readMany readOne n

/-- `xread_list`, whose count is read by `read_varint`. -/
def xreadList {α : Type} (readOne : Reader α) : Reader (List α) := xreadListWith readVarint readOne

/-- `b''.join(pack_one(item) for item in items)`. -/
def packEach {α : Type} (packOne : α → Option Bytes) : List α → Option Bytes
  | [] => some []
  | x :: xs => do
    let b ← packOne x
    let bs ← packEach packOne xs
    pure (b ++ bs)

/-- `pack_list`: the count, then the items. -/
def packList {α : Type} (packOne : α → Option Bytes) (items : List α) : Option Bytes := do
  let count ← packVarint items.length
  let body ← packEach packOne items
  pure (count ++ body)

/-! ## Reading back what was written -/

namespace Reader

/-- `r` reads back, up to `R`, what `pack` writes for a value satisfying `P`, and leaves the bytes
after it. -/
def ReadsBack {α β : Type} (r : Reader β) (P : α → Prop) (pack : α → Option Bytes)
    (R : α → β → Prop) : Prop :=
  ∀ x, P x → ∀ b rest pos, pack x = some b →
    ∃ y, r ⟨b ++ rest, pos⟩ = some (y, ⟨rest, pos + b.length⟩) ∧ R x y

end Reader

theorem xreadVarbytes_packVarbytes {data bs : Bytes} (h : packVarbytes data = some bs)
    (rest : Bytes) (pos : Nat) :
    ∃ hd, packVarint data.length = some hd ∧ bs = hd ++ data ∧
      xreadVarbytes ⟨bs ++ rest, pos⟩ = some ((data, pos + hd.length), ⟨rest, pos + bs.length⟩) := by
  obtain ⟨hd, hp, rfl⟩ := Option.map_eq_some'.1 h
  refine ⟨hd, hp, rfl, ?_⟩
  have := readVarint_packVarint hp (data ++ rest) pos
  simp only [List.append_assoc] at this ⊢
  simp [xreadVarbytes, xreadVarbytesWith, bind, StateT.bind, this, tell, readBytes, pure,
    StateT.pure, Nat.add_assoc]

section Lists

variable {α β : Type} {readOne : Reader β} {packOne : α → Option Bytes} {R : α → β → Prop}

theorem length_of_mapM_eq_some {f : α → Option β} :
    ∀ {l : List α} {l' : List β}, l.mapM f = some l' → l'.length = l.length
  | [], _, h => by cases h; rfl
  | x :: xs, l', h => by
    simp only [List.mapM_cons, Option.bind_eq_bind, Option.bind_eq_some, Option.pure_def,
      Option.some.injEq] at h
    obtain ⟨y, -, ys, hys, rfl⟩ := h
    simp [length_of_mapM_eq_some hys]

theorem mapM_eq_some_iff_forall₂ {f : β → Option α} :
    ∀ {l : List α} {l' : List β}, l'.mapM f = some l ↔ List.Forall₂ (fun a b => f b = some a) l l'
  | l, [] => by
    rw [List.mapM_nil, Option.pure_def, Option.some.injEq, List.forall₂_nil_right_iff, eq_comm]
  | l, b :: l' => by
    rw [List.mapM_cons]
    cases l with
    | nil => cases f b <;> cases l'.mapM f <;> simp
    | cons a l =>
      rw [List.forall₂_cons, ← mapM_eq_some_iff_forall₂]
      cases f b <;> cases l'.mapM f <;> simp

theorem mapM_map_eq_some {f : α → β} {g : β → Option α} :
    ∀ {l : List α}, (∀ a ∈ l, g (f a) = some a) → (l.map f).mapM g = some l
  | [], _ => rfl
  | a :: l, h => by
    rw [List.map_cons, List.mapM_cons, h a (.head _),
      mapM_map_eq_some fun b hb => h b (.tail _ hb)]
    rfl

theorem getElem?_of_mapM_eq_some {f : α → Option β} :
    ∀ {l : List α} {bs : List β}, l.mapM f = some bs →
      ∀ {i : Nat} {a : α}, l[i]? = some a → ∃ b, bs[i]? = some b ∧ f a = some b
  | [], _, _, _, _, ha => by simp at ha
  | a :: l, bs, h, i, a', ha => by
    simp only [List.mapM_cons, Option.bind_eq_bind, Option.bind_eq_some, Option.pure_def,
      Option.some.injEq] at h
    obtain ⟨b, hb, bs, hbs, rfl⟩ := h
    cases i with
    | zero =>
      rw [List.getElem?_cons_zero, Option.some.injEq] at ha
      exact ⟨b, List.getElem?_cons_zero, ha ▸ hb⟩
    | succ i =>
      rw [List.getElem?_cons_succ] at ha
      simpa only [List.getElem?_cons_succ] using getElem?_of_mapM_eq_some hbs ha

theorem map_of_mapM_eq_some {γ : Type} {f : α → Option β} {g : α → γ} {h : β → γ}
    (hfg : ∀ a b, f a = some b → h b = g a) :
    ∀ {l : List α} {bs : List β}, l.mapM f = some bs → bs.map h = l.map g
  | [], _, hl => by cases hl; rfl
  | a :: l, bs, hl => by
    simp only [List.mapM_cons, Option.bind_eq_bind, Option.bind_eq_some, Option.pure_def,
      Option.some.injEq] at hl
    obtain ⟨b, hb, bs, hbs, rfl⟩ := hl
    rw [List.map_cons, List.map_cons, hfg a b hb, map_of_mapM_eq_some hfg hbs]

theorem exists_mapM_eq_some {f : α → Option β} {P : β → Prop} :
    ∀ {l : List α}, (∀ a ∈ l, ∃ b, f a = some b ∧ P b) → ∃ bs, l.mapM f = some bs ∧ ∀ b ∈ bs, P b
  | [], _ => ⟨[], rfl, by simp⟩
  | a :: l, h => by
    obtain ⟨b, hb, hP⟩ := h a (.head _)
    obtain ⟨bs, hbs, hPs⟩ := exists_mapM_eq_some fun a ha => h a (.tail _ ha)
    refine ⟨b :: bs, by rw [List.mapM_cons, hb, hbs]; rfl, ?_⟩
    simpa [hP] using hPs

theorem mapM_eq_some_of_getElem? {f : α → Option β} :
    ∀ {l : List α} {bs : List β}, l.length = bs.length →
      (∀ (i : Nat) a, l[i]? = some a → ∃ b, bs[i]? = some b ∧ f a = some b) → l.mapM f = some bs
  | [], [], _, _ => rfl
  | a :: l, b :: bs, hl, h => by
    obtain ⟨b', hb', hfa⟩ := h 0 a (List.getElem?_cons_zero ..)
    rw [List.getElem?_cons_zero, Option.some.injEq] at hb'
    subst hb'
    rw [List.mapM_cons, hfa, mapM_eq_some_of_getElem? (Nat.succ.inj hl) fun i a' ha =>
      by simpa using h (i + 1) a' (by simpa using ha)]
    rfl

theorem map_zipWith_of_left {δ : Type} {g : α → β → α} {p : α → δ}
    (h : ∀ x y, p (g x y) = p x) :
    ∀ {xs : List α} {ys : List β}, xs.length = ys.length → (List.zipWith g xs ys).map p = xs.map p
  | [], [], _ => rfl
  | x :: xs, y :: ys, hl => by
    simp only [List.zipWith_cons_cons, List.map_cons, h,
      map_zipWith_of_left h (Nat.succ.inj hl)]

theorem map_zipWith_of_right {δ : Type} {g : α → β → α} {p : α → δ} {q : β → δ}
    (h : ∀ x y, p (g x y) = q y) :
    ∀ {xs : List α} {ys : List β}, xs.length = ys.length → (List.zipWith g xs ys).map p = ys.map q
  | [], [], _ => rfl
  | x :: xs, y :: ys, hl => by
    simp only [List.zipWith_cons_cons, List.map_cons, h,
      map_zipWith_of_right h (Nat.succ.inj hl)]

theorem all_eq_of_map_eq {p : α → Bool} {l l' : List α} (h : l.map p = l'.map p) :
    l.all p = l'.all p := by
  have key : ∀ l : List α, l.all p = true ↔ ∀ b ∈ l.map p, b = true := by simp
  exact Bool.eq_iff_iff.2 ((key l).trans (h ▸ (key l').symm))

/-- Two lists that correspond to a third one pointwise, zipped. -/
theorem forall₂_zipWith {γ δ : Type} {R₁ : γ → α → Prop} {R₂ : γ → β → Prop} {R₃ : γ → δ → Prop}
    {P : α → Prop} {g : α → β → δ} (h : ∀ x a b, P a → R₁ x a → R₂ x b → R₃ x (g a b)) :
    ∀ {l : List γ} {xs : List α} {ys : List β}, (∀ a ∈ xs, P a) → List.Forall₂ R₁ l xs →
      List.Forall₂ R₂ l ys → List.Forall₂ R₃ l (List.zipWith g xs ys)
  | _, _, _, _, .nil, .nil => .nil
  | _, _, _, hP, .cons h1 t1, .cons h2 t2 =>
    .cons (h _ _ _ (hP _ (.head _)) h1 h2) (forall₂_zipWith h (fun a ha => hP a (.tail _ ha)) t1 t2)

theorem packEach_bind_mapM (f : α → Option β) (p : β → Option Bytes) :
    ∀ l : List α, packEach (fun a => (f a).bind p) l = (l.mapM f).bind (packEach p)
  | [] => rfl
  | x :: xs => by
    rw [List.mapM_cons, packEach, packEach_bind_mapM f p xs]
    cases f x <;> cases xs.mapM f <;> simp [packEach]

theorem packList_bind_mapM (f : α → Option β) (p : β → Option Bytes) (l : List α) :
    packList (fun a => (f a).bind p) l = (l.mapM f).bind (packList p) := by
  cases h : l.mapM f with
  | none => simp only [packList, packEach_bind_mapM, h, Option.bind_eq_bind, Option.none_bind,
      Option.bind_none]
  | some l' => simp only [packList, packEach_bind_mapM, h, length_of_mapM_eq_some h,
      Option.bind_eq_bind, Option.some_bind]

theorem packEach_map (g : α → β) (p : β → Option Bytes) :
    ∀ l : List α, packEach p (l.map g) = packEach (p ∘ g) l
  | [] => rfl
  | x :: xs => by simp [packEach, packEach_map g p xs]

theorem packList_map (g : α → β) (p : β → Option Bytes) (l : List α) :
    packList p (l.map g) = packList (p ∘ g) l := by
  simp [packList, packEach_map]

/-- Reading items written one after the other, when each item reads back. -/
theorem readMany_packEach {P : α → Prop} (hone : readOne.ReadsBack P packOne R) :
    ∀ (items : List α), (∀ x ∈ items, P x) → ∀ (body rest : Bytes) (pos : Nat),
      packEach packOne items = some body →
      ∃ ys, readMany readOne items.length ⟨body ++ rest, pos⟩ =
        some (ys, ⟨rest, pos + body.length⟩) ∧ List.Forall₂ R items ys
  | [], _, body, rest, pos, h => by
    cases h
    exact ⟨[], by simp [readMany, pure, StateT.pure], .nil⟩
  | x :: xs, hP, body, rest, pos, h => by
    simp only [packEach, Option.bind_eq_bind, Option.bind_eq_some, Option.pure_def,
      Option.some.injEq] at h
    obtain ⟨b, hb, bs, hbs, rfl⟩ := h
    obtain ⟨y, hy, hr⟩ := hone x (hP x (.head _)) b (bs ++ rest) pos hb
    obtain ⟨ys, hys, hrs⟩ := readMany_packEach hone xs (fun x hx => hP x (.tail _ hx)) bs rest
      (pos + b.length) hbs
    refine ⟨y :: ys, ?_, .cons hr hrs⟩
    simp only [List.length_cons, readMany, bind, StateT.bind, List.append_assoc, hy, hys,
      Option.bind_eq_bind, Option.some_bind, pure, StateT.pure, List.length_append, Nat.add_assoc]

theorem xreadList_packList {P : α → Prop} (hone : readOne.ReadsBack P packOne R) {items : List α}
    (hP : ∀ x ∈ items, P x) {bs : Bytes} (h : packList packOne items = some bs) (rest : Bytes)
    (pos : Nat) :
    ∃ ys, xreadList readOne ⟨bs ++ rest, pos⟩ = some (ys, ⟨rest, pos + bs.length⟩) ∧
      List.Forall₂ R items ys := by
  simp only [packList, Option.bind_eq_bind, Option.bind_eq_some, Option.pure_def,
    Option.some.injEq] at h
  obtain ⟨count, hc, body, hb, rfl⟩ := h
  obtain ⟨ys, hys, hr⟩ := readMany_packEach hone items hP body rest (pos + count.length) hb
  refine ⟨ys, ?_, hr⟩
  simp only [xreadList, xreadListWith, bind, StateT.bind, List.append_assoc,
    readVarint_packVarint hc, Option.bind_eq_bind, Option.some_bind, hys, List.length_append,
    Nat.add_assoc]

end Lists

/-! ## Reading only what was written

A successful read leaves a suffix of the stream. When the counts are in their shortest form, the
prefix it consumed is exactly what the packers write for the values read. -/

namespace Reader

/-- Every successful run of `r` consumed exactly what `pack` writes for its result. -/
def ReadsPacked {α : Type} (r : Reader α) (pack : α → Option Bytes) : Prop :=
  ∀ s x s', r s = some (x, s') → ∃ b, pack x = some b ∧ s.rest = b ++ s'.rest

/-- Every successful run of `r₁` is a run of `r₂` with the same result. -/
def Refines {α : Type} (r₁ r₂ : Reader α) : Prop := ∀ s x, r₁ s = some x → r₂ s = some x

theorem Refines.bind {α β : Type} {r₁ r₂ : Reader α} {f₁ f₂ : α → Reader β} (h : Refines r₁ r₂)
    (hf : ∀ a, Refines (f₁ a) (f₂ a)) : Refines (r₁ >>= f₁) (r₂ >>= f₂) := by
  intro s x hx
  simp only [Bind.bind, StateT.bind, Option.bind_eq_bind, Option.bind_eq_some] at hx ⊢
  obtain ⟨⟨a, s'⟩, h1, h2⟩ := hx
  exact ⟨(a, s'), h s _ h1, hf a s' x h2⟩

theorem Refines.refl {α : Type} (r : Reader α) : Refines r r := fun _ _ h => h

/-- Every value that `r` returns satisfies `P`. -/
def Returns {α : Type} (r : Reader α) (P : α → Prop) : Prop :=
  ∀ s x s', r s = some (x, s') → P x

end Reader

theorem leBytes_leValue (bs : Bytes) : leBytes bs.length (leValue bs) = bs := by
  induction bs with
  | nil => rfl
  | cons b bs ih =>
    have hb : b.toNat < 256 := b.toNat_lt_size
    simp only [List.length_cons, leBytes, leValue]
    congr 1
    · apply UInt8.toNat.inj
      change (b.toNat + 256 * leValue bs) % 256 % 256 = b.toNat
      omega
    · rw [show (b.toNat + 256 * leValue bs) / 256 = leValue bs by omega, ih]

theorem leValue_lt (bs : Bytes) : leValue bs < 256 ^ bs.length := by
  induction bs with
  | nil => simp [leValue]
  | cons b bs ih =>
    have hb : b.toNat < 256 := b.toNat_lt_size
    simp only [leValue, List.length_cons, pow_succ]
    nlinarith

theorem readBytes_eq_some {n : Nat} {s s' : Stream} {bs : Bytes}
    (h : readBytes n s = some (bs, s')) :
    s.rest = bs ++ s'.rest ∧ bs.length = min n s.rest.length := by
  simp only [readBytes, Option.some.injEq, Prod.mk.injEq] at h
  obtain ⟨rfl, rfl⟩ := h
  simp

theorem readUnsigned_readsPacked (k : Nat) : (readUnsigned k).ReadsPacked (packUnsigned k) := by
  intro s v s' h
  simp only [readUnsigned, bind, StateT.bind, Option.bind_eq_bind, Option.bind_eq_some] at h
  obtain ⟨⟨bs, s1⟩, hr, h⟩ := h
  split at h
  case isFalse => cases h
  case isTrue hk =>
    simp only [pure, StateT.pure, Option.some.injEq, Prod.mk.injEq] at h
    obtain ⟨rfl, rfl⟩ := h
    have hlt := leValue_lt bs
    rw [hk] at hlt
    have hc : ((256 ^ k : Nat) : Int) = (256 : Int) ^ k := by norm_cast
    refine ⟨bs, ?_, (readBytes_eq_some hr).1⟩
    rw [packUnsigned, if_pos ⟨by omega, by omega⟩, Int.toNat_natCast, ← hk, leBytes_leValue]

theorem readSigned_readsPacked {k : Nat} (hk : 0 < k) : (readSigned k).ReadsPacked (packSigned k) := by
  intro s v s' h
  simp only [readSigned, bind, StateT.bind, Option.bind_eq_bind, Option.bind_eq_some, pure,
    StateT.pure, Option.some.injEq, Prod.mk.injEq] at h
  obtain ⟨⟨u, s1⟩, hr, rfl, rfl⟩ := h
  obtain ⟨bs, hp, hrest⟩ := readUnsigned_readsPacked k s u s1 hr
  obtain ⟨h0, hlt, -⟩ := packUnsigned_eq_some hp
  refine ⟨bs, ?_, hrest⟩
  have heven : (2 : Int) ∣ 256 ^ k := dvd_pow (by norm_num) hk.ne'
  by_cases hu : u < 256 ^ k / 2
  · rwa [if_pos hu, packSigned, if_pos ⟨by omega, hu⟩, if_neg (by omega)]
  · rwa [if_neg hu, packSigned, if_pos ⟨by omega, by omega⟩, if_pos (by omega), sub_add_cancel]

/-- `read_varint` that also rejects a count written in a longer form than `pack_varint` uses. -/
def readVarintMinimal : Reader Nat := fun s => do
  let (n, s') ← readVarint s
  let bs ← packVarint n
  if s.rest = bs ++ s'.rest then pure (n, s') else none

theorem readVarintMinimal_eq_some {s s' : Stream} {n : Nat}
    (h : readVarintMinimal s = some (n, s')) :
    readVarint s = some (n, s') ∧ ∃ bs, packVarint n = some bs ∧ s.rest = bs ++ s'.rest := by
  simp only [readVarintMinimal, Option.bind_eq_bind, Option.bind_eq_some] at h
  obtain ⟨⟨m, s1⟩, hr, bs, hb, h⟩ := h
  split at h
  case isTrue he =>
    simp only [pure, Option.some.injEq, Prod.mk.injEq] at h
    obtain ⟨rfl, rfl⟩ := h
    exact ⟨hr, bs, hb, he⟩
  case isFalse => cases h

theorem readVarintMinimal_refines : readVarintMinimal.Refines readVarint :=
  fun _ _ h => (readVarintMinimal_eq_some h).1

theorem xreadVarbytesWith_refines {rc₁ rc₂ : Reader Nat} (h : rc₁.Refines rc₂) :
    (xreadVarbytesWith rc₁).Refines (xreadVarbytesWith rc₂) :=
  h.bind fun _ => .refl _

theorem xreadVarbytesWith_minimal {s s' : Stream} {data : Bytes} {offset : Nat}
    (h : xreadVarbytesWith readVarintMinimal s = some ((data, offset), s')) :
    ∃ b, packVarbytes data = some b ∧ s.rest = b ++ s'.rest := by
  simp only [xreadVarbytesWith, bind, StateT.bind, Option.bind_eq_bind, Option.bind_eq_some] at h
  obtain ⟨⟨n, s1⟩, hn, ⟨o, s2⟩, ho, ⟨bs, s3⟩, hb, h⟩ := h
  cases ho
  obtain ⟨-, hd, hp, hrest⟩ := readVarintMinimal_eq_some hn
  obtain ⟨hb1, hb2⟩ := readBytes_eq_some hb
  split at h
  case isTrue => cases h
  case isFalse hlen =>
    simp only [not_not, pure, StateT.pure, Option.some.injEq, Prod.mk.injEq] at hlen h
    obtain ⟨⟨rfl, rfl⟩, rfl⟩ := h
    refine ⟨hd ++ data, by rw [packVarbytes, hlen, hp]; rfl, ?_⟩
    rw [hrest, hb1, List.append_assoc]

section Lists

variable {α β : Type} {readOne : Reader α} {packOne : α → Option Bytes}

theorem readMany_refines {r₁ r₂ : Reader α} (h : r₁.Refines r₂) :
    ∀ n, (readMany r₁ n).Refines (readMany r₂ n)
  | 0 => .refl _
  | n + 1 => h.bind fun _ => (readMany_refines h n).bind fun _ => .refl _

theorem xreadListWith_refines {rc₁ rc₂ : Reader Nat} {r₁ r₂ : Reader α} (hc : rc₁.Refines rc₂)
    (h : r₁.Refines r₂) : (xreadListWith rc₁ r₁).Refines (xreadListWith rc₂ r₂) :=
  hc.bind (readMany_refines h)

theorem readMany_returns {P : α → Prop} (h : readOne.Returns P) :
    ∀ n, (readMany readOne n).Returns (∀ x ∈ ·, P x)
  | 0, s, xs, s', hx => by
    simp only [readMany, Reader.pure_eq_some, Prod.mk.injEq] at hx
    simp [hx.1]
  | n + 1, s, xs, s', hx => by
    simp only [readMany, Reader.bind_eq_some, Reader.pure_eq_some, Prod.mk.injEq] at hx
    obtain ⟨x, s1, h1, ys, s2, h2, rfl, -⟩ := hx
    exact List.forall_mem_cons.2 ⟨h s x s1 h1, readMany_returns h n s1 ys s2 h2⟩

theorem xreadListWith_returns {P : α → Prop} (rc : Reader Nat) (h : readOne.Returns P) :
    (xreadListWith rc readOne).Returns (∀ x ∈ ·, P x) := by
  intro s xs s' hx
  simp only [xreadListWith, Reader.bind_eq_some] at hx
  obtain ⟨n, s1, -, h1⟩ := hx
  exact readMany_returns h n s1 xs s' h1

theorem readMany_readsPacked (hone : readOne.ReadsPacked packOne) :
    ∀ n s xs s', readMany readOne n s = some (xs, s') →
      xs.length = n ∧ ∃ body, packEach packOne xs = some body ∧ s.rest = body ++ s'.rest
  | 0, s, xs, s', h => by
    simp only [readMany, pure, StateT.pure, Option.some.injEq, Prod.mk.injEq] at h
    obtain ⟨rfl, rfl⟩ := h
    exact ⟨rfl, [], rfl, rfl⟩
  | n + 1, s, xs, s', h => by
    simp only [readMany, bind, StateT.bind, Option.bind_eq_bind, Option.bind_eq_some, pure,
      StateT.pure, Option.some.injEq, Prod.mk.injEq] at h
    obtain ⟨⟨x, s1⟩, hx, ⟨ys, s2⟩, hys, rfl, rfl⟩ := h
    obtain ⟨b, hb, hr1⟩ := hone s x s1 hx
    obtain ⟨hlen, body, hbody, hr2⟩ := readMany_readsPacked hone n s1 ys s2 hys
    refine ⟨by simp [hlen], b ++ body, by simp [packEach, hb, hbody], ?_⟩
    rw [hr1, hr2, List.append_assoc]

theorem xreadListWith_minimal (hone : readOne.ReadsPacked packOne) :
    (xreadListWith readVarintMinimal readOne).ReadsPacked (packList packOne) := by
  intro s xs s' h
  simp only [xreadListWith, bind, StateT.bind, Option.bind_eq_bind, Option.bind_eq_some] at h
  obtain ⟨⟨n, s1⟩, hn, h⟩ := h
  obtain ⟨-, hd, hp, hr1⟩ := readVarintMinimal_eq_some hn
  obtain ⟨rfl, body, hbody, hr2⟩ := readMany_readsPacked hone n s1 xs s' h
  refine ⟨hd ++ body, by simp [packList, hp, hbody], ?_⟩
  rw [hr1, hr2, List.append_assoc]

end Lists

/-! ## Hexadecimal text -/

/-- The lowercase hexadecimal digit of `d < 16`. -/
def hexDigit (d : Nat) : Char := if d < 10 then Char.ofNat (48 + d) else Char.ofNat (87 + d)

/-- `bytes.hex()`: two lowercase digits per byte. -/
def hex (b : Bytes) : String :=
  String.mk (b.flatMap fun x => [hexDigit (x.toNat / 16), hexDigit (x.toNat % 16)])

/-- The value of a hexadecimal digit of either case. -/
def hexValue (c : Char) : Option Nat :=
  if '0' ≤ c ∧ c ≤ '9' then some (c.toNat - 48)
  else if 'a' ≤ c ∧ c ≤ 'f' then some (c.toNat - 87)
  else if 'A' ≤ c ∧ c ≤ 'F' then some (c.toNat - 55)
  else none

/-- The ASCII whitespace that `bytes.fromhex` skips between bytes. -/
def isAsciiSpace (c : Char) : Bool :=
  c = ' ' || c = '\t' || c = '\n' || c = '\r' || c = '\x0b' || c = '\x0c'

/-- `bytes.fromhex` on a list of characters. -/
def fromHexChars : List Char → Option Bytes
  | [] => some []
  | c :: cs =>
    if isAsciiSpace c then fromHexChars cs
    else
      match cs with
      | d :: ds => do
        let hi ← hexValue c
        let lo ← hexValue d
        let rest ← fromHexChars ds
        pure ((16 * hi + lo).toUInt8 :: rest)
      | [] => none

/-- `bytes.fromhex`; `none` is its `ValueError`. -/
def fromHex (s : String) : Option Bytes := fromHexChars s.data

theorem hexValue_hexDigit : ∀ d < 16, hexValue (hexDigit d) = some d ∧ isAsciiSpace (hexDigit d) = false := by
  decide

theorem fromHex_hex (b : Bytes) : fromHex (hex b) = some b := by
  unfold fromHex hex
  induction b with
  | nil => rfl
  | cons x xs ih =>
    have hx := x.toNat_lt_size
    change x.toNat < 256 at hx
    obtain ⟨h1, s1⟩ := hexValue_hexDigit (x.toNat / 16) (by omega)
    obtain ⟨h2, -⟩ := hexValue_hexDigit (x.toNat % 16) (by omega)
    have hv : (16 * (x.toNat / 16) + x.toNat % 16).toUInt8 = x :=
      UInt8.toNat.inj (by change (16 * (x.toNat / 16) + x.toNat % 16) % 256 = x.toNat; omega)
    simp only [List.flatMap_cons, List.cons_append, List.nil_append] at ih ⊢
    simp only [fromHexChars, s1, h1, h2, ih, hv, Option.bind_eq_bind, Option.some_bind, pure,
      Bool.false_eq_true, if_false]

end ElectrumSV
