import Mathlib.Tactic

/-!
# A counter kept by many threads

A counter says how much is held in a number of places. Threads put things there and take them away,
and count afterwards or before: between a change and its count the thread owes the counter that
operation. The counter is a machine integer and wraps.

`Book.Balanced` says what the counter stands for at any moment: what is held, corrected by what is
owed, modulo the width of the counter. It does not ask in which order a thread counts, so it holds of
every interleaving. What is held without ever having been counted is the stray.

## Main definitions

* `Ledger.Op`: one operation on the counter.
* `Ledger.Book`: the counter, what is held, and what is owed.
* `Ledger.Book.Balanced`: the counter stands for the rest.

## Main results

* `Ledger.Book.Balanced.pay`, `Ledger.Book.Balanced.shift`: the two ways a book changes.
* `Ledger.Book.Balanced.count_add_owed`: the value of the counter while it has not wrapped.
-/

namespace Ledger

/-- An operation on the counter. -/
inductive Op where
  | up
  | down
  deriving DecidableEq, Repr

/-- The operation on a counter that wraps. -/
def Op.apply : Op → UInt64 → UInt64
  | .up, count => count + 1
  | .down, count => count - 1

/-- The counter, the operations each thread owes it, what each place holds, and what was never
counted. -/
structure Book (P T : Type*) where
  count : UInt64
  owes : T → List Op
  held : P → ℕ
  stray : ℕ

/-- The operation changes the counter by one, up to the width it wraps at. -/
theorem toNat_add_one (count : UInt64) : (count + 1).toNat ≡ count.toNat + 1 [MOD 2 ^ 64] := by
  rw [UInt64.toNat_add]
  exact Nat.mod_modEq _ _

theorem toNat_sub_one (count : UInt64) : (count - 1).toNat + 1 ≡ count.toNat [MOD 2 ^ 64] := by
  have h := toNat_add_one (count - 1)
  rw [UInt64.sub_add_cancel] at h
  exact h.symm

/-! ## Sums that change at one index -/

/-- Functions that differ at one index have sums that differ as they do there. -/
theorem sum_add_of_eq_off {ι : Type*} [Fintype ι] [DecidableEq ι] {f g : ι → ℕ} {i : ι}
    (h : ∀ j, j ≠ i → g j = f j) : ∑ j, g j + f i = ∑ j, f j + g i := by
  have hrest : ∑ j ∈ Finset.univ.erase i, g j = ∑ j ∈ Finset.univ.erase i, f j :=
    Finset.sum_congr rfl fun j hj => h j (Finset.ne_of_mem_erase hj)
  have hg := Finset.add_sum_erase Finset.univ g (Finset.mem_univ i)
  have hf := Finset.add_sum_erase Finset.univ f (Finset.mem_univ i)
  omega

namespace Book

variable {P T : Type*} {b b' : Book P T} {t : T} {p : P} {op : Op} {rest : List Op}

section Balance

variable [Fintype P] [Fintype T]

/-- All that is held. -/
def total (b : Book P T) : ℕ := ∑ p, b.held p

/-- What all threads owe of an operation. -/
def owed (b : Book P T) (op : Op) : ℕ := ∑ t, (b.owes t).count op

/-- The counter stands for what is held and counted, once every thread has counted. -/
def Balanced (b : Book P T) : Prop :=
  b.count.toNat + b.owed .up + b.stray ≡ b.total + b.owed .down [MOD 2 ^ 64]

/-- While less is held and owed than the counter can say, and no more is owed upwards than that, the
counter has not wrapped. -/
theorem Balanced.count_add_owed (h : b.Balanced) (hstray : b.stray = 0)
    (hle : b.owed .up ≤ b.total + b.owed .down) (hlt : b.total + b.owed .down < 2 ^ 64) :
    b.count.toNat + b.owed .up = b.total + b.owed .down := by
  have hlt' := b.count.toNat_lt
  rw [Balanced, hstray] at h
  have hrest : b.count.toNat ≡ b.total + b.owed .down - b.owed .up [MOD 2 ^ 64] := by
    refine Nat.ModEq.add_right_cancel' (b.owed .up) ?_
    rwa [Nat.sub_add_cancel hle]
  have heq := Nat.ModEq.eq_of_lt_of_lt hrest hlt' (by omega)
  omega

end Balance

section Pay

variable [DecidableEq T]

/-- A thread counts what it owes. -/
def pay (b : Book P T) (t : T) (op : Op) (rest : List Op) : Book P T :=
  { b with count := op.apply b.count, owes := Function.update b.owes t rest }

theorem owes_pay_self (b : Book P T) (t : T) (op : Op) (rest : List Op) :
    (b.pay t op rest).owes t = rest := by
  simp [pay]

theorem owes_pay_of_ne (b : Book P T) {t u : T} (h : u ≠ t) (op : Op) (rest : List Op) :
    (b.pay t op rest).owes u = b.owes u := by
  simp [pay, h]

variable [Fintype T]

/-- A change to what one thread owes. -/
theorem owed_add (howes : ∀ u, u ≠ t → b'.owes u = b.owes u) (op : Op) :
    b'.owed op + (b.owes t).count op = b.owed op + (b'.owes t).count op := by
  have hoff : ∀ u, u ≠ t → (b'.owes u).count op = (b.owes u).count op := fun u hu => by
    rw [howes u hu]
  exact sum_add_of_eq_off hoff

variable [Fintype P]

theorem Balanced.pay (h : b.Balanced) (howes : b.owes t = op :: rest) :
    (b.pay t op rest).Balanced := by
  have hother : ∀ u, u ≠ t → (b.pay t op rest).owes u = b.owes u :=
    fun u hu => b.owes_pay_of_ne hu op rest
  have hups := owed_add hother .up
  have hdowns := owed_add hother .down
  rw [owes_pay_self, howes] at hups hdowns
  change (op.apply b.count).toNat + (b.pay t op rest).owed .up + b.stray
    ≡ b.total + (b.pay t op rest).owed .down [MOD 2 ^ 64]
  rcases op with _ | _
  · rw [List.count_cons_self] at hups
    rw [List.count_cons_of_ne (by decide)] at hdowns
    have hsame : (b.pay t .up rest).owed .down = b.owed .down := by omega
    have hone : (b.pay t .up rest).owed .up + 1 = b.owed .up := by omega
    have hcount := (toNat_add_one b.count).add_right ((b.pay t .up rest).owed .up + b.stray)
    rw [hsame, Nat.add_assoc]
    refine hcount.trans ?_
    rw [show b.count.toNat + 1 + ((b.pay t .up rest).owed .up + b.stray)
      = b.count.toNat + b.owed .up + b.stray by omega]
    exact h
  · rw [List.count_cons_of_ne (by decide)] at hups
    rw [List.count_cons_self] at hdowns
    -- the counter and what is owed downwards both lose one
    have hsame : (b.pay t .down rest).owed .up = b.owed .up := by omega
    have hone : (b.pay t .down rest).owed .down + 1 = b.owed .down := by omega
    have hcount := (toNat_sub_one b.count).add_right (b.owed .up + b.stray)
    refine Nat.ModEq.add_right_cancel' 1 ?_
    rw [Nat.add_assoc b.total, hone, hsame, show (Op.down.apply b.count).toNat + b.owed .up + b.stray
      + 1 = (b.count - 1).toNat + 1 + (b.owed .up + b.stray) by rw [Op.apply]; omega]
    refine hcount.trans ?_
    rw [← Nat.add_assoc]
    exact h

variable [DecidableEq P]

/-- A thread changes what one place holds and owes the counter the difference. -/
theorem Balanced.shift (h : b.Balanced) (hcount : b'.count = b.count)
    (howes : ∀ u, u ≠ t → b'.owes u = b.owes u) (hheld : ∀ q, q ≠ p → b'.held q = b.held q)
    (heq : b'.held p + (b'.owes t).count .down + (b.owes t).count .up + b.stray
      = b.held p + (b.owes t).count .down + (b'.owes t).count .up + b'.stray) : b'.Balanced := by
  have hups := owed_add howes .up
  have hdowns := owed_add howes .down
  have htotal : b'.total + b.held p = b.total + b'.held p := sum_add_of_eq_off hheld
  have hall : b'.total + b'.owed .down + (b.owed .up + b.stray)
      = b.total + b.owed .down + (b'.owed .up + b'.stray) := by omega
  have hadd := Nat.ModEq.add_right (b'.owed .up + b'.stray) h
  refine Nat.ModEq.add_right_cancel' (b.owed .up + b.stray) ?_
  rw [hall, hcount, show b.count.toNat + b'.owed .up + b'.stray + (b.owed .up + b.stray)
    = b.count.toNat + b.owed .up + b.stray + (b'.owed .up + b'.stray) by omega]
  exact hadd

end Pay

end Book

end Ledger
