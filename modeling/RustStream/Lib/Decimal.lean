import RustStream.Lib.Split

/-!
# Decimal numerals with a bound

A machine integer travels through text as a decimal numeral: an optional plus sign, then digits.
Writing is total; reading fails on an empty word, on a byte that is not a digit and on a value that
does not fit the integer type. The bound is a parameter, so one definition serves every width.

## Main definitions

* `Decimal.render`: the digits of a number, most significant first.
* `Decimal.parse`: the number a word denotes, when it denotes one below the bound.
* `Decimal.renderInt`, `Decimal.parseInt`: the same for integers with a sign.

## Main results

* `Decimal.parse_render`, `Decimal.parseInt_renderInt`: reading back what was written gives the same
  number.
* `Decimal.suffix_inj`: a number behind a name is told from it.
* `Decimal.length_render_le_iff`: how many digits a number takes.
-/

namespace Decimal

/-! ## Reading and writing -/

/-- The byte of a character of the numeral alphabet. -/
def toByte (c : Char) : UInt8 :=
  UInt8.ofNat c.toNat

/-- The digits of `n` in base ten, most significant first; zero is written as one digit. -/
def render (n : ℕ) : List UInt8 :=
  (Nat.toDigits 10 n).map toByte

/-- The value of an ASCII digit. -/
def digit? (b : UInt8) : Option ℕ :=
  if 48 ≤ b.toNat ∧ b.toNat ≤ 57 then some (b.toNat - 48) else none

/-- Reads the remaining digits onto the value read so far, failing as soon as the value reaches the
bound. -/
def accumulate (bound : ℕ) : ℕ → List UInt8 → Option ℕ
  | n, [] => some n
  | n, b :: bs =>
    match digit? b with
    | none => none
    | some d => if 10 * n + d < bound then accumulate bound (10 * n + d) bs else none

/-- Reads a numeral: one optional plus sign, then at least one digit and nothing else. -/
def parse (bound : ℕ) : List UInt8 → Option ℕ
  | [] => none
  | b :: bs =>
    if b = 43 then
      match bs with
      | [] => none
      | b' :: bs' => accumulate bound 0 (b' :: bs')
    else accumulate bound 0 (b :: bs)

/-! ## Round trip -/

theorem le_ofDigitChars (cs : List Char) (n : ℕ) : n ≤ Nat.ofDigitChars 10 cs n := by
  induction cs generalizing n with
  | nil => simp
  | cons c cs ih =>
    rw [Nat.ofDigitChars_cons]
    exact le_trans (by omega) (ih _)

theorem toNat_toByte {c : Char} (hc : c.isDigit) : (toByte c).toNat = c.toNat := by
  have hle : c.toNat ≤ 57 := by
    simp only [Char.isDigit, Bool.and_eq_true, decide_eq_true_eq] at hc
    exact hc.2
  simp only [toByte, UInt8.toNat_ofNat']
  omega

theorem digit?_toByte {c : Char} (hc : c.isDigit) : digit? (toByte c) = some (c.toNat - 48) := by
  have hrange : 48 ≤ c.toNat ∧ c.toNat ≤ 57 := by
    simp only [Char.isDigit, Bool.and_eq_true, decide_eq_true_eq] at hc
    exact hc
  simp only [digit?, toNat_toByte hc]
  rw [if_pos hrange]

/-- Reading digits that were written from characters gives their positional value, as long as the
whole value is below the bound: every value on the way is at most the final one. -/
theorem accumulate_map_toByte {bound : ℕ} (cs : List Char) (hcs : ∀ c ∈ cs, c.isDigit) (n : ℕ)
    (h : Nat.ofDigitChars 10 cs n < bound) :
    accumulate bound n (cs.map toByte) = some (Nat.ofDigitChars 10 cs n) := by
  induction cs generalizing n with
  | nil => simp [accumulate]
  | cons c cs ih =>
    rw [Nat.ofDigitChars_cons] at h ⊢
    have hbound : 10 * n + (c.toNat - 48) < bound :=
      lt_of_le_of_lt (le_ofDigitChars cs _) h
    simp only [List.map_cons, accumulate, digit?_toByte (hcs c List.mem_cons_self)]
    rw [if_pos hbound]
    exact ih (fun d hd => hcs d (List.mem_cons_of_mem c hd)) _ h

theorem isDigit_of_mem_toDigits {n : ℕ} {c : Char} (hc : c ∈ Nat.toDigits 10 n) : c.isDigit :=
  Nat.isDigit_of_mem_toDigits (by decide) (by decide) hc

/-- A name and the number behind it are read back from the two put together. -/
theorem suffix_inj {sep : Char} (hsep : sep.isDigit = false) {name name' : List Char} {n n' : ℕ}
    (h : name ++ sep :: Nat.toDigits 10 n = name' ++ sep :: Nat.toDigits 10 n') : name = name' ∧ n = n' := by
  have hdigits (n : ℕ) : ∀ c ∈ Nat.toDigits 10 n, (c == sep) = false := fun c hc => by
    have hdigit := isDigit_of_mem_toDigits hc
    rw [beq_eq_false_iff_ne]
    rintro rfl
    rw [hdigit] at hsep
    cases hsep
  have hsplit (name : List Char) (n : ℕ) :
      Split.lastOnce (· == sep) (name ++ sep :: Nat.toDigits 10 n) = some (name, Nat.toDigits 10 n) := by
    refine Split.lastOnce_append_cons ?_ (hdigits n) name
    exact beq_self_eq_true sep
  have hparts := congrArg (Split.lastOnce (· == sep)) h
  rw [hsplit, hsplit] at hparts
  obtain ⟨hname, hnumber⟩ := Prod.mk.inj (Option.some.inj hparts)
  refine ⟨hname, ?_⟩
  have hread := congrArg (fun digits => Nat.ofDigitChars 10 digits 0) hnumber
  simpa only [Nat.ofDigitChars_ten_toDigits] using hread

theorem parse_eq_accumulate {bound : ℕ} {b : UInt8} {bs : List UInt8} (hb : b ≠ 43) :
    parse bound (b :: bs) = accumulate bound 0 (b :: bs) := by
  simp [parse, hb]

/-- A rendered number is read digit by digit as itself. -/
theorem accumulate_render {bound n : ℕ} (h : n < bound) : accumulate bound 0 (render n) = some n := by
  have hvalue : Nat.ofDigitChars 10 (Nat.toDigits 10 n) 0 = n := Nat.ofDigitChars_ten_toDigits
  have hread := accumulate_map_toByte (Nat.toDigits 10 n) (fun c hc => isDigit_of_mem_toDigits hc) 0
    (by rwa [hvalue])
  rwa [hvalue] at hread

/-- A rendered number is not empty and starts with a digit. -/
theorem render_eq_cons (n : ℕ) : ∃ b bs, render n = b :: bs ∧ 48 ≤ b.toNat := by
  cases hcs : Nat.toDigits 10 n with
  | nil => exact absurd hcs Nat.toDigits_ne_nil
  | cons c cs =>
    have hdigit : c.isDigit := isDigit_of_mem_toDigits (n := n) (by rw [hcs]; exact List.mem_cons_self)
    refine ⟨toByte c, cs.map toByte, by rw [render, hcs, List.map_cons], ?_⟩
    rw [toNat_toByte hdigit]
    simp only [Char.isDigit, Bool.and_eq_true, decide_eq_true_eq] at hdigit
    exact hdigit.1

/-- **Round trip.** A rendered number below the bound is read back as itself. -/
theorem parse_render {bound n : ℕ} (h : n < bound) : parse bound (render n) = some n := by
  obtain ⟨b, bs, hcons, hdigit⟩ := render_eq_cons n
  -- a digit is not the plus sign
  have hne : b ≠ 43 := by
    rintro rfl
    exact absurd hdigit (by decide)
  rw [hcons, parse_eq_accumulate hne, ← hcons]
  exact accumulate_render h

/-! ## Signed numbers -/

/-- The numeral of an integer, with a minus sign in front of a negative one. -/
def renderInt (n : ℤ) : List UInt8 :=
  if n < 0 then 45 :: render n.natAbs else render n.natAbs

/-- Reads the numeral of an integer above `-low` and below `high`. A minus sign is a sign only for a
signed type. -/
def parseInt (signed : Bool) (low high : ℕ) : List UInt8 → Option ℤ
  | [] => none
  | b :: bs =>
    if b = 45 ∧ signed = true then
      if bs = [] then none else (accumulate low 0 bs).map fun n : ℕ => -(n : ℤ)
    else (parse high (b :: bs)).map fun n : ℕ => (n : ℤ)

/-- An integer in the range of the type is read back as itself. -/
theorem parseInt_renderInt {signed : Bool} {low high : ℕ} {n : ℤ}
    (hneg : n < 0 → signed = true ∧ n.natAbs < low) (hpos : 0 ≤ n → n.natAbs < high) :
    parseInt signed low high (renderInt n) = some n := by
  obtain ⟨b, bs, hcons, hdigit⟩ := render_eq_cons n.natAbs
  rcases lt_or_ge n 0 with hn | hn
  · obtain ⟨hsigned, hlow⟩ := hneg hn
    rw [renderInt, if_pos hn, parseInt, if_pos ⟨rfl, hsigned⟩, if_neg (by rw [hcons]; simp),
      accumulate_render hlow, Option.map_some]
    congr 1
    omega
  · have hminus : ¬(b = 45 ∧ signed = true) := by
      rintro ⟨rfl, -⟩
      exact absurd hdigit (by decide)
    rw [renderInt, if_neg (by omega), hcons, parseInt, if_neg hminus, ← hcons,
      parse_render (hpos hn), Option.map_some]
    congr 1
    omega

/-! ## Length -/

theorem length_render_le_iff {n k : ℕ} (hk : 0 < k) : (render n).length ≤ k ↔ n < 10 ^ k := by
  rw [render, List.length_map]
  exact Nat.length_toDigits_le_iff (by decide) hk

end Decimal
