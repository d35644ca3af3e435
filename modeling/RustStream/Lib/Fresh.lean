import RustStream.Lib.Decimal

/-!
# Names that are still free

A loop that counts up until a candidate is not among the names taken. Candidates of different numbers are
different, so among one more of them than there are names taken one is free, and the loop ends there.

## Main definitions

* `Fresh.search`: the loop, with a bound on its rounds.
* `Fresh.numbered`: a name with a number behind it.

## Main results

* `Fresh.numbered_inj`: different names or different numbers give different names.
* `Fresh.search_not_mem`: within as many rounds as there are names taken it finds a free one.
-/

namespace Fresh

variable {α : Type*} [DecidableEq α]

/-- The first free candidate from `n` on. -/
def search (candidate : ℕ → α) (taken : List α) : ℕ → ℕ → α
  | 0, n => candidate n
  | rounds + 1, n => if candidate n ∈ taken then search candidate taken rounds (n + 1) else candidate n

variable {candidate : ℕ → α} {taken : List α}

theorem exists_search_eq (rounds n : ℕ) : ∃ k, search candidate taken rounds n = candidate (n + k) := by
  induction rounds generalizing n with
  | zero => exact ⟨0, rfl⟩
  | succ rounds ih =>
    rw [search]
    split_ifs
    · obtain ⟨k, hk⟩ := ih (n + 1)
      exact ⟨1 + k, by rw [hk, Nat.add_assoc]⟩
    · exact ⟨0, rfl⟩

/-- **The loop ends on a free name**, if it may go through as many rounds as there are names taken. -/
theorem search_not_mem (hinj : Function.Injective candidate) {rounds : ℕ} (hrounds : taken.length ≤ rounds) (n : ℕ) :
    search candidate taken rounds n ∉ taken := by
  induction rounds generalizing n taken with
  | zero =>
    rw [List.length_eq_zero_iff.mp (Nat.le_zero.mp hrounds)]
    exact List.not_mem_nil
  | succ rounds ih =>
    rw [search]
    split_ifs with hmem
    · -- a taken candidate does not come again, so the rest of the search is one among the others
      have hsame (k : ℕ) : ∀ m, n < m →
          search candidate taken k m = search candidate (taken.erase (candidate n)) k m := by
        induction k with
        | zero => exact fun _ _ => rfl
        | succ k ihk =>
          intro m hm
          have hne : candidate m ≠ candidate n := fun h => (Nat.ne_of_lt hm) (hinj h).symm
          rw [search, search, ihk (m + 1) (Nat.lt_succ_of_lt hm)]
          simp only [List.mem_erase_of_ne hne]
      have hshorter : (taken.erase (candidate n)).length ≤ rounds := by
        rw [List.length_erase_of_mem hmem]
        omega
      have hfree := ih hshorter (n + 1)
      obtain ⟨k, hk⟩ := @exists_search_eq _ _ candidate (taken.erase (candidate n)) rounds (n + 1)
      have hne : candidate (n + 1 + k) ≠ candidate n := fun h => by
        have := hinj h
        omega
      rw [hsame rounds (n + 1) (Nat.lt_succ_self n)]
      rw [hk] at hfree ⊢
      rwa [List.mem_erase_of_ne hne] at hfree
    · exact hmem

/-! ## Numbered names -/

/-- The name with an underscore and the number behind it. -/
def numbered (base : String) (n : ℕ) : String :=
  base ++ "_" ++ toString n

theorem toList_numbered (base : String) (n : ℕ) :
    (numbered base n).toList = base.toList ++ '_' :: Nat.toDigits 10 n := by
  rw [numbered, String.toList_append, String.toList_append, List.append_assoc, Nat.toString_eq_repr, Nat.toList_repr]
  rfl

theorem numbered_inj {base base' : String} {n n' : ℕ} (h : numbered base n = numbered base' n') :
    base = base' ∧ n = n' := by
  have hlists := congrArg String.toList h
  rw [toList_numbered, toList_numbered] at hlists
  obtain ⟨hbase, hnumber⟩ := Decimal.suffix_inj (by decide) hlists
  exact ⟨String.toList_injective hbase, hnumber⟩

theorem numbered_injective (base : String) : Function.Injective (numbered base) :=
  fun _ _ h => (numbered_inj h).2

end Fresh
