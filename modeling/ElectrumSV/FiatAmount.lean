import Mathlib.Algebra.Order.Field.Rat
import Mathlib.Algebra.Group.Int
import Mathlib.Tactic.Qify
import Mathlib.Algebra.Order.Field.Basic
import Mathlib.Data.Nat.Digits
import ElectrumSV.ExchangeRate
/-!
# Fiat amounts as text

`FxTask.ccy_amount_str` writes an amount of the fiat currency `ccy` with the precision that
`CCY_PRECISIONS` gives the currency, two decimals by default: `round(amount, prec)`, then the
format `{:,.{prec}f}`, or `{:.{prec}f}` without commas. Both are Python's `decimal` module in its
default context. `round` is `quantize`, which rounds half to even and raises `InvalidOperation`
where the result needs more than the context's 28 digits; the amount is then formatted as it is.
`Decimal.__format__` with type `f` rescales to the precision with the same rounding, and
`_format_number` writes the sign, the integer digits, grouped by three with `_insert_thousands_sep`,
and the decimals.

What the text is for is said by `readFixed`, a reader of fixed-point texts: an optional `-`, the
integer digits, with `commas` in groups of three after a first group of one to three, and exactly
`p` decimals after a `.`. `IsRoundHalfEven x n` says that `n` is `x` rounded half to even.

* `FixedParts.readFixed_render`: a text built from a sign, integer digits and `p` decimals reads
  back as the amount of its parts.
* `formatFixed_eq_render`: `formatFixed` writes such a text, for the amount rescaled to `p`
  decimals; `Decimal.isRoundHalfEven_rescale`: that rescale rounds half to even.
* `FxTask.ccyAmountStr_eq_formatFixed`: with a precision that is not negative, `round` and its
  fallback change nothing: the text is the amount as it is, formatted.
* `FxTask.ccyAmountStr_readFixed`: the text reads back as the amount rounded half to even to the
  currency's precision.
-/

namespace ElectrumSV

/-- A finite `decimal.Decimal`: `(-1)^sign * coefficient * 10^exponent`. -/
structure Decimal where
  sign : Bool
  coefficient : Nat
  exponent : Int
  deriving DecidableEq, Repr

namespace Decimal

/-- The precision of the default context. -/
def contextPrec : Nat := 28

/-- The largest exponent of the default context. -/
def Emax : Int := 999999

/-- The smallest exponent of the default context. -/
def Emin : Int := -999999

/-- `Etiny()`: the smallest exponent of a subnormal. -/
def Etiny : Int := Emin - contextPrec + 1

/-- `_int`: the decimal digits of the coefficient. -/
def digits (d : Decimal) : List Char := Nat.toDigits 10 d.coefficient

/-- `adjusted()`: the exponent of the leading digit. -/
def adjusted (d : Decimal) : Int := d.exponent + d.digits.length - 1

/-- The number that the decimal stands for. -/
def value (d : Decimal) : ℚ := (if d.sign then -1 else 1) * d.coefficient * 10 ^ d.exponent

/-- `n / 10^k` rounded half to even, as `_round_half_even` decides on the `k` digits that
`_rescale` drops. -/
def roundHalfEven (n k : Nat) : Nat :=
  if 2 * (n % 10 ^ k) < 10 ^ k then n / 10 ^ k
  else if 10 ^ k < 2 * (n % 10 ^ k) then n / 10 ^ k + 1
  else if n / 10 ^ k % 2 = 0 then n / 10 ^ k else n / 10 ^ k + 1

/-- `_rescale(exp, ROUND_HALF_EVEN)`: the decimal with the exponent `exp`, its coefficient padded
with zeros or rounded. -/
def rescale (d : Decimal) (exp : Int) : Decimal :=
  if exp ≤ d.exponent then ⟨d.sign, d.coefficient * 10 ^ (d.exponent - exp).toNat, exp⟩
  else ⟨d.sign, roundHalfEven d.coefficient (exp - d.exponent).toNat, exp⟩

/-- `quantize` to the exponent `exp` in the default context; `none` where it raises
`InvalidOperation`. Within these bounds `_fix` returns the result unchanged. -/
def quantize (d : Decimal) (exp : Int) : Option Decimal :=
  if ¬(Etiny ≤ exp ∧ exp ≤ Emax) then none
  else if d.coefficient = 0 then some ⟨d.sign, 0, exp⟩
  else if Emax < d.adjusted then none
  else if (contextPrec : Int) < d.adjusted - exp + 1 then none
  else
    let ans := d.rescale exp
    if Emax < ans.adjusted then none
    else if contextPrec < ans.digits.length then none
    else some ans

/-- `round(d, n)`: `quantize` to the exponent `-n`. -/
def round (d : Decimal) (n : Int) : Option Decimal := d.quantize (-n)

end Decimal

/-- The loop of `_insert_thousands_sep` with the grouping `[3, 0]` and no minimum width: groups of
three digits from the right, the last one shorter. -/
def thousandsGroups : Nat → List Char → List (List Char)
  | 0, _ => []
  | fuel + 1, digits =>
    let l := min (max digits.length 1) 3
    let group := List.replicate (l - digits.length) '0' ++ digits.drop (digits.length - l)
    let rest := digits.take (digits.length - l)
    if rest = [] then [group] else group :: thousandsGroups fuel rest

/-- `_insert_thousands_sep(digits, spec, 0)` with the separator `,`. -/
def insertThousandsSep (digits : List Char) : List Char :=
  [','].intercalate (thousandsGroups (digits.length + 1) digits).reverse

/-- `format(d, '{:,.pf}')`, or `format(d, '{:.pf}')` without `commas`: `Decimal.__format__` with
the type `f` and the precision `p` rescales to `p` decimals with the context's rounding, places the
point `p` digits from the right, and `_format_number` joins the sign, the integer part and the
fraction. The rescale leaves the exponent at `-p`, so the rescale of a zero with a positive
exponent does not apply. -/
def formatFixed (commas : Bool) (p : Nat) (d : Decimal) : List Char :=
  let d := d.rescale (-p)
  let digits := d.digits
  let dotplace : Int := d.exponent + digits.length
  let intpart :=
    if dotplace < 0 then ['0']
    else if (digits.length : Int) < dotplace then
      digits ++ List.replicate (dotplace - digits.length).toNat '0'
    else
      match digits.take dotplace.toNat with
      | [] => ['0']
      | ds => ds
  let fracpart :=
    if dotplace < 0 then List.replicate (-dotplace).toNat '0' ++ digits
    else if (digits.length : Int) < dotplace then []
    else digits.drop dotplace.toNat
  let fracpart := if fracpart = [] then [] else '.' :: fracpart
  let intpart := if commas then insertThousandsSep intpart else intpart
  (if d.sign then ['-'] else []) ++ intpart ++ fracpart

/-- `CCY_PRECISIONS`. -/
def CCY_PRECISIONS : List (String × Int) :=
  [("BHD", 3), ("BIF", 0), ("BYR", 0), ("CLF", 4), ("CLP", 0),
   ("CVE", 0), ("DJF", 0), ("GNF", 0), ("IQD", 3), ("ISK", 0),
   ("JOD", 3), ("JPY", 0), ("KMF", 0), ("KRW", 0), ("KWD", 3),
   ("LYD", 3), ("MGA", 1), ("MRO", 1), ("OMR", 3), ("PYG", 0),
   ("RWF", 0), ("TND", 3), ("UGX", 0), ("UYI", 0), ("VND", 0),
   ("VUV", 0), ("XAF", 0), ("XAU", 4), ("XOF", 0), ("XPF", 0)]

/-- `CCY_PRECISIONS.get(ccy, default_prec)`. -/
def ccyPrec (ccy : String) (defaultPrec : Int) : Int := (CCY_PRECISIONS.lookup ccy).getD defaultPrec

/-- `FxTask.ccy_amount_str`. -/
def FxTask.ccyAmountStr {Rate : Type} (t : FxTask Rate) (amount : Decimal) (commas : Bool)
    (defaultPrec : Int := 2) : String :=
  let prec := ccyPrec t.ccy defaultPrec
  let roundedAmount := (amount.round prec).getD amount
  ⟨formatFixed commas (max 0 prec).toNat roundedAmount⟩

/-! ## Reading an amount back -/

/-- The value of a decimal digit. -/
def digitValue (c : Char) : Nat := c.toNat - '0'.toNat

/-- The number that a string of decimal digits stands for. -/
def digitsValue (ds : List Char) : Nat := ds.foldl (fun acc c => 10 * acc + digitValue c) 0

/-- The number that a string of decimal digits stands for; `none` where a character is not a
digit. -/
def readDigits (ds : List Char) : Option Nat :=
  if ds.all Char.isDigit then some (digitsValue ds) else none

/-- The integer part of a fixed-point amount: digits, and with `commas` a first group of one to
three digits and then groups of three, each after a `,`. -/
def readIntPart (commas : Bool) (s : List Char) : Option Nat :=
  if commas then
    match s.splitOn ',' with
    | [] => none
    | g :: gs =>
      if 1 ≤ g.length ∧ g.length ≤ 3 ∧ ∀ h ∈ gs, h.length = 3 then readDigits (g ++ gs.flatten)
      else none
  else if s = [] then none else readDigits s

/-- A leading `-`, and the text after it. -/
def splitSign : List Char → Bool × List Char
  | '-' :: body => (true, body)
  | body => (false, body)

/-- The integer part and the `p` decimals, the latter after a `.` when `p > 0`. -/
def splitPoint (p : Nat) (body : List Char) : Option (List Char × List Char) :=
  match body.splitOn '.', p with
  | [intText], 0 => some (intText, [])
  | [intText, fracText], _ + 1 => if fracText.length = p then some (intText, fracText) else none
  | _, _ => none

/-- The amount that a fixed-point text with `p` decimals stands for, in units of `10^-p`: an
optional `-`, the integer part, and when `p > 0` a `.` and exactly `p` digits. -/
def readFixed (commas : Bool) (p : Nat) (s : String) : Option ℤ :=
  (splitPoint p (splitSign s.data).2).bind fun (intText, fracText) =>
    (readIntPart commas intText).bind fun intValue =>
      (readDigits fracText).map fun fracValue =>
        let units : ℤ := intValue * 10 ^ p + fracValue
        if (splitSign s.data).1 then -units else units

/-- `n` is `x` rounded to an integer, half to even. -/
def IsRoundHalfEven (x : ℚ) (n : ℤ) : Prop := |x - n| < 1 / 2 ∨ (|x - n| = 1 / 2 ∧ Even n)

/-! ## Digits -/

section Digits

theorem digitChar_digit : ∀ m < 10,
    (Nat.digitChar m).isDigit = true ∧ digitValue (Nat.digitChar m) = m := by
  decide

theorem foldl_digitsValue : ∀ (l : List Char) (a : Nat),
    l.foldl (fun acc c => 10 * acc + digitValue c) a =
      a * 10 ^ l.length + l.foldl (fun acc c => 10 * acc + digitValue c) 0
  | [], a => by simp
  | c :: l, a => by
    rw [List.foldl_cons, List.foldl_cons, foldl_digitsValue l (10 * a + _),
      foldl_digitsValue l (10 * 0 + _), List.length_cons, pow_succ]
    ring

theorem digitsValue_append (l₁ l₂ : List Char) :
    digitsValue (l₁ ++ l₂) = digitsValue l₁ * 10 ^ l₂.length + digitsValue l₂ := by
  rw [digitsValue, List.foldl_append, foldl_digitsValue]
  rfl

theorem digitsValue_cons (c : Char) (l : List Char) :
    digitsValue (c :: l) = digitValue c * 10 ^ l.length + digitsValue l := by
  rw [← List.singleton_append, digitsValue_append]
  simp [digitsValue]

theorem digitsValue_replicate_zero : ∀ k : Nat, digitsValue (List.replicate k '0') = 0
  | 0 => rfl
  | k + 1 => by
    rw [List.replicate_succ, digitsValue_cons, digitsValue_replicate_zero k]
    simp [digitValue]

theorem toDigitsCore_spec : ∀ (fuel n : Nat) (ds : List Char), n < fuel →
    (Nat.toDigitsCore 10 fuel n ds).all Char.isDigit = ds.all Char.isDigit ∧
      digitsValue (Nat.toDigitsCore 10 fuel n ds) = n * 10 ^ ds.length + digitsValue ds ∧
      ds.length < (Nat.toDigitsCore 10 fuel n ds).length
  | 0, _, _, h => absurd h (Nat.not_lt_zero _)
  | fuel + 1, n, ds, h => by
    obtain ⟨hd, hv⟩ := digitChar_digit (n % 10) (Nat.mod_lt _ (by decide))
    rw [Nat.toDigitsCore]
    split
    · refine ⟨by simp [hd], ?_, by simp⟩
      rw [digitsValue_cons, hv, Nat.mod_eq_of_lt (by omega)]
    · obtain ⟨ih₁, ih₂, ih₃⟩ := toDigitsCore_spec fuel (n / 10) _ (by omega)
      refine ⟨by rw [ih₁]; simp [hd], ?_, by simp at ih₃; omega⟩
      rw [ih₂, digitsValue_cons, hv, List.length_cons, pow_succ]
      conv_rhs => rw [← Nat.div_add_mod n 10]
      ring

/-- `str(n)`: decimal digits, at least one, that stand for `n`. -/
theorem toDigits_spec (n : Nat) :
    Nat.toDigits 10 n ≠ [] ∧ (Nat.toDigits 10 n).all Char.isDigit ∧
      digitsValue (Nat.toDigits 10 n) = n := by
  obtain ⟨h₁, h₂, h₃⟩ := toDigitsCore_spec (n + 1) n [] (Nat.lt_succ_self n)
  exact ⟨List.ne_nil_of_length_pos h₃, by simpa using h₁, by simpa [digitsValue] using h₂⟩

theorem readDigits_of_all {ds : List Char} (h : ds.all Char.isDigit) :
    readDigits ds = some (digitsValue ds) :=
  if_pos h

theorem ne_of_isDigit {c d : Char} (hc : c.isDigit) (hd : d.isDigit = false) : c ≠ d :=
  fun h => by rw [h, hd] at hc; cases hc

end Digits

/-! ## Reading a fixed-point text back -/

section Reading

theorem intercalate_cons {α : Type} (x : α) (g : List α) : ∀ gs : List (List α),
    [x].intercalate (g :: gs) = g ++ (gs.map (x :: ·)).flatten
  | [] => by simp [List.intercalate]
  | h :: gs => by
    have ih := intercalate_cons x h gs
    rw [List.intercalate] at ih ⊢
    rw [List.intersperse_cons_cons, List.flatten_cons, List.flatten_cons, ih]
    simp

/-- The groups of `_insert_thousands_sep`, first to last: one to three digits, then groups of
three, which together are the digits. -/
theorem thousandsGroups_spec : ∀ (fuel : Nat) (digits : List Char), digits ≠ [] →
    digits.length ≤ fuel →
    ∃ g gs, (thousandsGroups fuel digits).reverse = g :: gs ∧ 1 ≤ g.length ∧ g.length ≤ 3 ∧
      (∀ h ∈ gs, h.length = 3) ∧ g ++ gs.flatten = digits
  | 0, digits, hne, hle => absurd (List.length_eq_zero.1 (Nat.le_zero.1 hle)) hne
  | fuel + 1, digits, hne, hle => by
    have hpos : 0 < digits.length := List.length_pos.2 hne
    have hl : min (max digits.length 1) 3 = min digits.length 3 := by omega
    simp only [thousandsGroups, hl, Nat.sub_eq_zero_of_le (Nat.min_le_left _ _),
      List.replicate_zero, List.nil_append]
    split
    · next hrest =>
      have h3 : digits.length ≤ 3 := by
        rcases List.take_eq_nil_iff.1 hrest with h | h
        · omega
        · exact absurd h hne
      rw [Nat.min_eq_left h3, Nat.sub_self, List.drop_zero]
      exact ⟨digits, [], rfl, hpos, h3, by simp, by simp⟩
    · next hrest =>
      have hgt : 3 < digits.length := by
        by_contra hle3
        exact hrest (by rw [Nat.min_eq_left (by omega), Nat.sub_self, List.take_zero])
      rw [Nat.min_eq_right hgt.le] at hrest ⊢
      obtain ⟨g, gs, hG, h1, h3, hgs, hflat⟩ :=
        thousandsGroups_spec fuel _ hrest (by rw [List.length_take]; omega)
      refine ⟨g, gs ++ [digits.drop (digits.length - 3)], by rw [List.reverse_cons, hG]; rfl,
        h1, h3, fun h hh => ?_, ?_⟩
      · rcases List.mem_append.1 hh with hh | hh
        · exact hgs h hh
        · rw [List.mem_singleton.1 hh, List.length_drop]
          omega
      · rw [List.flatten_append, List.flatten_singleton, ← List.append_assoc, hflat,
          List.take_append_drop]

theorem insertThousandsSep_spec {intText : List Char} (hne : intText ≠ []) :
    ∃ g gs, insertThousandsSep intText = [','].intercalate (g :: gs) ∧ 1 ≤ g.length ∧
      g.length ≤ 3 ∧ (∀ h ∈ gs, h.length = 3) ∧ g ++ gs.flatten = intText := by
  obtain ⟨g, gs, hG, h⟩ := thousandsGroups_spec (intText.length + 1) intText hne (Nat.le_succ _)
  exact ⟨g, gs, by rw [insertThousandsSep, hG], h⟩

theorem mem_of_mem_groups {g : List Char} {gs : List (List Char)} {l : List Char} {c : Char}
    (hl : l ∈ g :: gs) (hc : c ∈ l) : c ∈ g ++ gs.flatten := by
  rcases List.mem_cons.1 hl with rfl | hl
  · exact List.mem_append_left _ hc
  · exact List.mem_append_right _ (List.mem_flatten.2 ⟨l, hl, hc⟩)

/-- A character of the groups joined by `,` is a `,` or a character of a group. -/
theorem mem_intercalate_comma {g : List Char} {gs : List (List Char)} {c : Char}
    (hc : c ∈ [','].intercalate (g :: gs)) : c = ',' ∨ c ∈ g ++ gs.flatten := by
  rw [intercalate_cons] at hc
  rcases List.mem_append.1 hc with hc | hc
  · exact .inr (List.mem_append_left _ hc)
  · obtain ⟨l, hl, hcl⟩ := List.mem_flatten.1 hc
    obtain ⟨h, hh, rfl⟩ := List.mem_map.1 hl
    rcases List.mem_cons.1 hcl with rfl | hcl
    · exact .inl rfl
    · exact .inr (mem_of_mem_groups (.tail _ hh) hcl)

theorem readIntPart_insertThousandsSep {intText : List Char} (hne : intText ≠ [])
    (hd : intText.all Char.isDigit) (commas : Bool) :
    readIntPart commas (if commas then insertThousandsSep intText else intText) =
      some (digitsValue intText) := by
  cases commas
  · simp only [readIntPart, Bool.false_eq_true, if_false, hne, readDigits_of_all hd]
  · obtain ⟨g, gs, hins, h1, h3, hgs, hflat⟩ := insertThousandsSep_spec hne
    have hcomma : ∀ l ∈ g :: gs, ',' ∉ l := fun l hl hc =>
      absurd (List.all_eq_true.1 hd _ (hflat ▸ mem_of_mem_groups hl hc)) (by decide)
    simp only [readIntPart, if_true, hins]
    rw [List.splitOn_intercalate _ ',' hcomma (List.cons_ne_nil _ _)]
    dsimp only
    rw [if_pos ⟨h1, h3, hgs⟩, hflat, readDigits_of_all hd]

theorem splitSign_of_head (negative : Bool) {body : List Char} {c : Char}
    (hb : body.head? = some c) (hc : c.isDigit) :
    splitSign ((if negative then ['-'] else []) ++ body) = (negative, body) := by
  cases negative
  · obtain ⟨rest, rfl⟩ : ∃ rest, body = c :: rest := by
      cases body with
      | nil => cases hb
      | cons c' rest => exact ⟨rest, by cases hb; rfl⟩
    unfold splitSign
    split
    · next h => exact absurd (List.cons.inj h).1 (ne_of_isDigit (d := '-') hc (by decide))
    · rfl
  · rfl

theorem splitOn_of_not_mem {l : List Char} (h : '.' ∉ l) : l.splitOn '.' = [l] :=
  List.splitOnP_eq_single _ _ fun x hx hx' => h (by rwa [beq_iff_eq.1 hx'] at hx)

theorem splitPoint_append {p : Nat} {intPart fracText : List Char} (hi : '.' ∉ intPart)
    (hf : '.' ∉ fracText) (hlen : fracText.length = p) :
    splitPoint p (intPart ++ if fracText = [] then [] else '.' :: fracText) =
      some (intPart, fracText) := by
  cases p with
  | zero =>
    rw [List.length_eq_zero.1 hlen, if_pos rfl, List.append_nil]
    unfold splitPoint
    rw [splitOn_of_not_mem hi]
  | succ p =>
    have hne : fracText ≠ [] := List.ne_nil_of_length_pos (by omega)
    unfold splitPoint
    rw [if_neg hne, List.splitOn, List.splitOnP_first _ _
      (fun x hx hx' => hi (by rwa [beq_iff_eq.1 hx'] at hx)) '.' (by decide), ← List.splitOn,
      splitOn_of_not_mem hf]
    simp [hlen]

end Reading

/-! ## Fixed-point texts -/

/-- A fixed-point text in its parts: a sign, the digits of the integer part, and exactly `p`
decimals. -/
structure FixedParts (p : Nat) where
  negative : Bool
  intText : List Char
  fracText : List Char
  intText_ne_nil : intText ≠ []
  intText_digits : intText.all Char.isDigit
  fracText_digits : fracText.all Char.isDigit
  fracText_length : fracText.length = p

namespace FixedParts

variable {p : Nat} (f : FixedParts p)

/-- The text that `_format_number` writes from the parts: the sign, the integer part, grouped by
three with `commas`, and the decimals after a point where there are any. -/
def render (commas : Bool) : List Char :=
  (if f.negative then ['-'] else []) ++
    ((if commas then insertThousandsSep f.intText else f.intText) ++
      if f.fracText = [] then [] else '.' :: f.fracText)

/-- The amount that the parts stand for, in units of `10^-p`. -/
def units : ℤ :=
  let u : ℤ := digitsValue f.intText * 10 ^ p + digitsValue f.fracText
  if f.negative then -u else u

/-- The integer part as written holds no point, and starts with the first digit. -/
theorem intPart_spec (commas : Bool) :
    '.' ∉ (if commas then insertThousandsSep f.intText else f.intText) ∧
      (if commas then insertThousandsSep f.intText else f.intText).head? = f.intText.head? := by
  have hdot : '.' ∉ f.intText := fun h =>
    absurd (List.all_eq_true.1 f.intText_digits _ h) (by decide)
  cases commas
  · exact ⟨hdot, rfl⟩
  · obtain ⟨g, gs, hins, h1, -, -, hflat⟩ := insertThousandsSep_spec f.intText_ne_nil
    have hg : g ≠ [] := List.ne_nil_of_length_pos h1
    refine ⟨fun h => ?_, ?_⟩
    · rw [if_pos rfl, hins] at h
      rcases mem_intercalate_comma h with h | h
      · cases h
      · exact hdot (hflat ▸ h)
    · rw [if_pos rfl, hins, intercalate_cons, ← hflat, List.head?_append_of_ne_nil _ hg,
        List.head?_append_of_ne_nil _ hg]

/-- The text reads back as the amount of its parts. -/
theorem readFixed_render (commas : Bool) : readFixed commas p ⟨f.render commas⟩ = some f.units := by
  obtain ⟨hdot, hhead⟩ := f.intPart_spec commas
  obtain ⟨c, hc⟩ := Option.ne_none_iff_exists'.1 (mt List.head?_eq_none_iff.1 f.intText_ne_nil)
  have hcd : c.isDigit := List.all_eq_true.1 f.intText_digits c (List.mem_of_mem_head? hc)
  have hbody : ((if commas then insertThousandsSep f.intText else f.intText) ++
      if f.fracText = [] then [] else '.' :: f.fracText).head? = some c := by
    rw [List.head?_append, hhead, hc]
    rfl
  have hfdot : '.' ∉ f.fracText := fun h =>
    absurd (List.all_eq_true.1 f.fracText_digits _ h) (by decide)
  simp only [readFixed, render, splitSign_of_head f.negative hbody hcd,
    splitPoint_append hdot hfdot f.fracText_length, Option.some_bind,
    readIntPart_insertThousandsSep f.intText_ne_nil f.intText_digits,
    readDigits_of_all f.fracText_digits, Option.map_some']
  rfl

end FixedParts

/-! ## Rounding half to even -/

section Rounding

theorem IsRoundHalfEven.neg {x : ℚ} {n : ℤ} (h : IsRoundHalfEven x n) :
    IsRoundHalfEven (-x) (-n) := by
  rwa [IsRoundHalfEven, Int.cast_neg, neg_sub_neg, abs_sub_comm, even_neg]

theorem isRoundHalfEven_natCast (n : ℕ) : IsRoundHalfEven n n :=
  Or.inl (by norm_num)

/-- Rounding `c / B` to `n` compares twice the distance from `c` to `n * B` with `B`. -/
theorem isRoundHalfEven_div {c n : ℤ} {B : ℕ} (hB : 0 < B)
    (h : 2 * |c - n * B| < B ∨ 2 * |c - n * B| = B ∧ Even n) : IsRoundHalfEven (c / B) n := by
  have hBq : (0 : ℚ) < B := by exact_mod_cast hB
  have hd : (c : ℚ) / B - n = (c - n * B) / B := by rw [sub_div, mul_div_cancel_right₀ _ hBq.ne']
  qify at h
  rw [IsRoundHalfEven, hd, abs_div, abs_of_pos hBq, div_lt_iff₀ hBq, div_eq_iff hBq.ne']
  rcases h with h | ⟨h, he⟩
  · exact .inl (by linarith)
  · exact .inr ⟨by linarith, he⟩

end Rounding

namespace Decimal

/-- `roundHalfEven c k` is `c / 10^k` rounded half to even. -/
theorem roundHalfEven_spec (c k : Nat) :
    IsRoundHalfEven ((c : ℚ) / 10 ^ k) (roundHalfEven c k) := by
  have hB : 0 < 10 ^ k := by positivity
  rw [show (c : ℚ) / 10 ^ k = ((c : ℤ) : ℚ) / ((10 ^ k : ℕ) : ℚ) by push_cast; rfl]
  apply isRoundHalfEven_div hB
  have hr := Nat.mod_lt c hB
  have hc : (c : ℤ) = (c / 10 ^ k : ℕ) * (10 ^ k : ℕ) + (c % 10 ^ k : ℕ) := by
    exact_mod_cast (Nat.div_add_mod' c (10 ^ k)).symm
  unfold roundHalfEven
  generalize c / 10 ^ k = q at hc ⊢
  generalize c % 10 ^ k = r at hc hr ⊢
  generalize 10 ^ k = B at hc hr hB ⊢
  have e₀ : (c : ℤ) - q * B = r := by rw [hc]; ring
  have e₁ : (c : ℤ) - (q + 1 : ℕ) * B = -(B - r) := by rw [hc]; push_cast; ring
  split_ifs with h₁ h₂ h₃
  · left
    rw [e₀, abs_of_nonneg (by positivity)]
    omega
  · left
    rw [e₁, abs_neg, abs_of_pos (by omega)]
    omega
  · right
    rw [e₀, abs_of_nonneg (by positivity)]
    exact ⟨by omega, (Int.even_coe_nat q).2 (Nat.even_iff.2 h₃)⟩
  · right
    rw [e₁, abs_neg, abs_of_pos (by omega)]
    refine ⟨by omega, (Int.even_coe_nat _).2 (Nat.even_add_one.2 ?_)⟩
    rwa [Nat.even_iff]

/-- The coefficient with the decimal's sign: the decimal in units of `10^exponent`. -/
def signedCoefficient (d : Decimal) : ℤ := if d.sign then -d.coefficient else d.coefficient

@[simp] theorem rescale_exponent (d : Decimal) (exp : Int) : (d.rescale exp).exponent = exp := by
  unfold rescale
  split <;> rfl

/-- Rescaling to `p` decimals rounds the amount, in units of `10^-p`, half to even. -/
theorem isRoundHalfEven_rescale (d : Decimal) (p : Nat) :
    IsRoundHalfEven (d.value * 10 ^ p) (d.rescale (-p)).signedCoefficient := by
  have hv : d.value * 10 ^ p =
      (if d.sign then -1 else 1) * (d.coefficient * (10 : ℚ) ^ (d.exponent - -p)) := by
    rw [value, sub_neg_eq_add, zpow_add₀ (by norm_num), zpow_natCast]
    ring
  have hsign : ∀ (x : ℚ) (n : ℕ), IsRoundHalfEven x n →
      IsRoundHalfEven ((if d.sign then -1 else 1) * x) (if d.sign then -(n : ℤ) else n) := by
    intro x n h
    cases d.sign
    · simpa using h
    · simpa using h.neg
  rw [hv, rescale]
  by_cases h : -(p : ℤ) ≤ d.exponent
  · rw [if_pos h, ← Int.toNat_of_nonneg (sub_nonneg.2 h), zpow_natCast]
    refine hsign _ _ ?_
    exact_mod_cast isRoundHalfEven_natCast _
  · rw [if_neg h, show d.exponent - -p = -((-p - d.exponent).toNat : ℤ) by omega, zpow_neg,
      zpow_natCast, ← div_eq_mul_inv]
    exact hsign _ _ (roundHalfEven_spec _ _)

end Decimal

/-! ## What `formatFixed` writes -/

theorem all_isDigit_of_subset {l l' : List Char} (h : l ⊆ l') (hl : l'.all Char.isDigit) :
    l.all Char.isDigit :=
  List.all_eq_true.2 fun c hc => List.all_eq_true.1 hl c (h hc)

theorem digitsValue_take_drop (ds : List Char) (n : Nat) :
    digitsValue (ds.take n) * 10 ^ (ds.drop n).length + digitsValue (ds.drop n) =
      digitsValue ds := by
  rw [← digitsValue_append, List.take_append_drop]

theorem FixedParts.units_eq {p : Nat} {f : FixedParts p} {sign : Bool} {n : ℕ}
    (hs : f.negative = sign) (hn : digitsValue f.intText * 10 ^ p + digitsValue f.fracText = n) :
    f.units = if sign then -(n : ℤ) else n := by
  subst hs
  unfold FixedParts.units
  rw [← hn]
  push_cast
  rfl

/-- `formatFixed` writes the parts of the decimal rescaled to `p` decimals: its sign, the digits
before the point (`0` where there are none) and the `p` digits after it, padded with zeros on the
left where the coefficient has fewer. -/
theorem formatFixed_eq_render (commas : Bool) (p : Nat) (d : Decimal) :
    ∃ f : FixedParts p, formatFixed commas p d = f.render commas ∧
      f.units = (d.rescale (-p)).signedCoefficient := by
  have hexp := d.rescale_exponent (-p)
  dsimp only [formatFixed]
  generalize d.rescale (-p) = e at hexp ⊢
  obtain ⟨hne, hall, hval⟩ := toDigits_spec e.coefficient
  rw [hexp]
  unfold Decimal.digits
  generalize Nat.toDigits 10 e.coefficient = ds at hne hall hval ⊢
  by_cases hL : ds.length < p
  · have hneg : -(p : ℤ) + ds.length < 0 := by omega
    simp only [hneg, ↓reduceIte, show (-(-(p : ℤ) + ds.length)).toNat = p - ds.length by omega]
    refine ⟨⟨e.sign, ['0'], List.replicate (p - ds.length) '0' ++ ds, List.cons_ne_nil _ _, rfl,
      ?_, by simp only [List.length_append, List.length_replicate]; omega⟩, ?_, ?_⟩
    · simp [hall]
    · rw [List.append_assoc]
      rfl
    · refine FixedParts.units_eq rfl ?_
      simp only [digitsValue_append, digitsValue_replicate_zero, hval,
        show digitsValue ['0'] = 0 from rfl, zero_mul, zero_add]
  · have hpos : ¬-(p : ℤ) + ds.length < 0 := by omega
    have hle : ¬(ds.length : ℤ) < -(p : ℤ) + ds.length := by omega
    simp only [hpos, hle, ↓reduceIte, show (-(p : ℤ) + ds.length).toNat = ds.length - p by omega]
    have hdrop : (ds.drop (ds.length - p)).length = p := by simp only [List.length_drop]; omega
    rcases hcase : ds.take (ds.length - p) with _ | ⟨c, cs⟩
    · dsimp only
      refine ⟨⟨e.sign, ['0'], ds.drop (ds.length - p), List.cons_ne_nil _ _, rfl,
        all_isDigit_of_subset (List.drop_subset _ _) hall, hdrop⟩,
        by rw [List.append_assoc]; rfl, ?_⟩
      refine FixedParts.units_eq rfl ?_
      rw [← hval, ← digitsValue_take_drop ds (ds.length - p), hcase, hdrop]
      rfl
    · dsimp only
      refine ⟨⟨e.sign, c :: cs, ds.drop (ds.length - p), List.cons_ne_nil _ _,
        hcase ▸ all_isDigit_of_subset (List.take_subset _ _) hall,
        all_isDigit_of_subset (List.drop_subset _ _) hall, hdrop⟩,
        by rw [List.append_assoc]; rfl, ?_⟩
      refine FixedParts.units_eq rfl ?_
      dsimp only
      rw [← hval, ← digitsValue_take_drop ds (ds.length - p), hcase, hdrop]

example : formatFixed true 2 ⟨true, 5, -3⟩ = "-0.00".data := by decide

/-! ## `ccy_amount_str` -/

namespace Decimal

/-- A decimal rescaled to its own exponent is itself. -/
theorem rescale_self (d : Decimal) : d.rescale d.exponent = d := by
  simp [rescale]

@[simp] theorem roundHalfEven_zero (k : Nat) : roundHalfEven 0 k = 0 := by
  simp [roundHalfEven]

/-- A successful `quantize` keeps what a rescale to its exponent writes. -/
theorem rescale_of_quantize {d d' : Decimal} {exp : Int} (h : d.quantize exp = some d') :
    d'.rescale exp = d.rescale exp := by
  unfold quantize at h
  dsimp only at h
  split_ifs at h with h₀ hc <;> cases h
  · simp [rescale, hc]
  · simpa only [rescale_exponent] using rescale_self (d.rescale exp)

end Decimal

/-- `formatFixed` reads the decimal only through its rescale to `p` decimals. -/
theorem formatFixed_congr {commas : Bool} {p : Nat} {d d' : Decimal}
    (h : d.rescale (-p) = d'.rescale (-p)) : formatFixed commas p d = formatFixed commas p d' := by
  simp only [formatFixed, h]

/-- With a precision that is not negative, the `round` before the format changes nothing, and its
fallback is never needed: the text is the amount itself, formatted. -/
theorem FxTask.ccyAmountStr_eq_formatFixed {Rate : Type} (t : FxTask Rate) (amount : Decimal)
    (commas : Bool) (defaultPrec : Int) (hp : 0 ≤ ccyPrec t.ccy defaultPrec) :
    t.ccyAmountStr amount commas defaultPrec =
      ⟨formatFixed commas (ccyPrec t.ccy defaultPrec).toNat amount⟩ := by
  have hround : amount.round (ccyPrec t.ccy defaultPrec) =
      amount.quantize (-((ccyPrec t.ccy defaultPrec).toNat : ℤ)) := by
    rw [Decimal.round, Int.toNat_of_nonneg hp]
  simp only [FxTask.ccyAmountStr, max_eq_right hp, hround]
  cases hq : amount.quantize (-((ccyPrec t.ccy defaultPrec).toNat : ℤ)) with
  | none => rfl
  | some d' => exact congrArg _ (formatFixed_congr (Decimal.rescale_of_quantize hq))

/-- The text of `ccy_amount_str` reads back, as an optional `-`, the integer digits grouped by
three with `commas`, and exactly the currency's decimals, as the amount rounded half to even to
those decimals. -/
theorem FxTask.ccyAmountStr_readFixed {Rate : Type} (t : FxTask Rate) (amount : Decimal)
    (commas : Bool) (defaultPrec : Int) (hp : 0 ≤ ccyPrec t.ccy defaultPrec) :
    ∃ n, readFixed commas (ccyPrec t.ccy defaultPrec).toNat
        (t.ccyAmountStr amount commas defaultPrec) = some n ∧
      IsRoundHalfEven (amount.value * 10 ^ (ccyPrec t.ccy defaultPrec).toNat) n := by
  obtain ⟨f, hf, hu⟩ := formatFixed_eq_render commas (ccyPrec t.ccy defaultPrec).toNat amount
  rw [t.ccyAmountStr_eq_formatFixed amount commas defaultPrec hp, hf]
  exact ⟨f.units, f.readFixed_render commas, hu ▸ amount.isRoundHalfEven_rescale _⟩

theorem FxTask.sampleFxTask_ccyAmountStr_readFixed :
    0 ≤ ccyPrec FxTask.sampleFxTask.ccy 2 ∧
      ∃ n, readFixed true (ccyPrec FxTask.sampleFxTask.ccy 2).toNat
          (FxTask.sampleFxTask.ccyAmountStr ⟨false, 123456789, -3⟩ true 2) = some n ∧
        IsRoundHalfEven ((⟨false, 123456789, -3⟩ : Decimal).value *
          10 ^ (ccyPrec FxTask.sampleFxTask.ccy 2).toNat) n :=
  ⟨by decide, FxTask.ccyAmountStr_readFixed _ _ _ _ (by decide)⟩

example : FxTask.sampleFxTask.ccyAmountStr ⟨false, 123456789, -3⟩ true 2 = "123,456.79" := by
  decide

example : FxTask.sampleFxTask.ccyAmountStr ⟨true, 1234565, -1⟩ true 0 = "-123,456" := by
  decide

end ElectrumSV
