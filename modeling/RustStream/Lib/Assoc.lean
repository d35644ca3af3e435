import Mathlib.Tactic

/-!
# Association lists

Finite maps as lists of keys and values, read with `List.lookup`. `Assoc.set` writes a key: in its place where the
key is there, at the end where it is not. `Assoc.update` changes the value under a key, a fresh one where there is
none, and `Assoc.fill` takes from another map the keys that are missing.

## Main definitions

* `Assoc.set`: a map with a value written under a key.
* `Assoc.setAll`: a map with many of them written.
* `Assoc.update`: a map with the value under a key changed.
* `Assoc.fill`: a map completed from another one.

## Main results

* `Assoc.lookup_set_self`, `Assoc.lookup_set_of_ne`: what a written map holds.
* `Assoc.set_of_lookup_eq_none`: writing a new key.
* `Assoc.lookup_fill`: what a completed map holds.
-/

namespace Assoc

open List

variable {κ V W : Type*} [DecidableEq κ]

/-- The map with `value` under `key`. -/
def set (key : κ) (value : V) : List (κ × V) → List (κ × V)
  | [] => [(key, value)]
  | (k, v) :: rest => if k = key then (key, value) :: rest else (k, v) :: set key value rest

/-- The map with entries written into it one after the other. -/
def setAll (entries map : List (κ × V)) : List (κ × V) :=
  entries.foldl (fun map entry => set entry.1 entry.2 map) map

/-- The map with `f` applied to the value under `key`, to `fresh` where there is none. -/
def update (key : κ) (fresh : V) (f : V → V) (map : List (κ × V)) : List (κ × V) :=
  set key (f ((map.lookup key).getD fresh)) map

/-- The map with the entries of `other` whose keys it does not have. -/
def fill (map other : List (κ × V)) : List (κ × V) :=
  other.foldl (fun map entry => update entry.1 entry.2 id map) map

variable {key key' : κ} {value : V} {map : List (κ × V)}

theorem lookup_cons_self (value : V) (map : List (κ × V)) : List.lookup key ((key, value) :: map) = some value := by
  rw [lookup_cons, beq_self_eq_true]

theorem lookup_cons_of_ne (h : key ≠ key') (value : V) (map : List (κ × V)) :
    List.lookup key ((key', value) :: map) = List.lookup key map := by
  rw [lookup_cons, beq_eq_false_iff_ne.mpr h]

theorem lookup_set_self (key : κ) (value : V) (map : List (κ × V)) :
    (set key value map).lookup key = some value := by
  induction map with
  | nil => exact lookup_cons_self value []
  | cons entry map ih =>
    rw [set]
    split_ifs with h
    · exact lookup_cons_self value map
    · rw [lookup_cons_of_ne (Ne.symm h), ih]

theorem lookup_set_of_ne (h : key ≠ key') (value : V) (map : List (κ × V)) :
    (set key' value map).lookup key = map.lookup key := by
  induction map with
  | nil => exact lookup_cons_of_ne h value []
  | cons entry map ih =>
    rw [set]
    split_ifs with hentry
    · rw [lookup_cons_of_ne h]
      obtain ⟨k, v⟩ := entry
      rw [lookup_cons_of_ne (by rw [show k = key' from hentry]; exact h)]
    · obtain ⟨k, v⟩ := entry
      by_cases hk : key = k
      · rw [hk, lookup_cons_self, lookup_cons_self]
      · rw [lookup_cons_of_ne hk, lookup_cons_of_ne hk, ih]

theorem lookup_eq_none_iff : map.lookup key = none ↔ key ∉ map.map Prod.fst := by
  induction map with
  | nil => simp
  | cons entry map ih =>
    obtain ⟨k, v⟩ := entry
    by_cases hk : key = k
    · rw [hk, lookup_cons_self]
      simp
    · rw [lookup_cons_of_ne hk, ih]
      simp [hk]

theorem mem_of_lookup_eq_some (h : map.lookup key = some value) : (key, value) ∈ map := by
  obtain ⟨before, after, hmap, -⟩ := lookup_eq_some_iff.mp h
  rw [hmap]
  exact mem_append_right _ mem_cons_self

variable {entry : κ × V}

theorem mem_set (h : entry ∈ set key value map) : entry = (key, value) ∨ entry ∈ map := by
  induction map with
  | nil => exact Or.inl (mem_singleton.mp h)
  | cons first map ih =>
    rw [set] at h
    split_ifs at h
    · exact (mem_cons.mp h).imp_right (mem_cons_of_mem _)
    · rcases mem_cons.mp h with rfl | hmem
      · exact Or.inr mem_cons_self
      · exact (ih hmem).imp_right (mem_cons_of_mem _)

/-- A new key is written at the end. -/
theorem set_of_lookup_eq_none (h : map.lookup key = none) (value : V) : set key value map = map ++ [(key, value)] := by
  induction map with
  | nil => rfl
  | cons entry map ih =>
    obtain ⟨k, v⟩ := entry
    have hk : k ≠ key := by
      rintro rfl
      rw [lookup_cons_self] at h
      cases h
    rw [lookup_cons_of_ne (Ne.symm hk)] at h
    rw [set, if_neg hk, ih h, cons_append]

theorem lookup_update_self (key : κ) (fresh : V) (f : V → V) (map : List (κ × V)) :
    (update key fresh f map).lookup key = some (f ((map.lookup key).getD fresh)) :=
  lookup_set_self key _ map

theorem lookup_update_of_ne (h : key ≠ key') (fresh : V) (f : V → V) (map : List (κ × V)) :
    (update key' fresh f map).lookup key = map.lookup key :=
  lookup_set_of_ne h _ map

theorem setAll_cons (entry : κ × V) (entries map : List (κ × V)) :
    setAll (entry :: entries) map = setAll entries (set entry.1 entry.2 map) :=
  rfl

variable {entries : List (κ × V)}

theorem lookup_setAll_of_not_mem (h : key ∉ entries.map Prod.fst) (map : List (κ × V)) :
    (setAll entries map).lookup key = map.lookup key := by
  induction entries generalizing map with
  | nil => rfl
  | cons entry entries ih =>
    obtain ⟨hentry, hentries⟩ := not_or.mp (fun hmem => h (mem_cons.mpr hmem))
    rw [setAll_cons, ih hentries, lookup_set_of_ne hentry]

/-- Of entries with distinct keys each is still there at the end. -/
theorem lookup_setAll_of_mem (hnodup : (entries.map Prod.fst).Nodup)
    (h : (key, value) ∈ entries) (map : List (κ × V)) : (setAll entries map).lookup key = some value := by
  induction entries generalizing map with
  | nil => cases h
  | cons entry entries ih =>
    obtain ⟨hfresh, hrest⟩ := nodup_cons.mp hnodup
    rw [setAll_cons]
    rcases mem_cons.mp h with rfl | hmem
    · rw [lookup_setAll_of_not_mem hfresh, lookup_set_self]
    · exact ih hrest hmem _

theorem mem_setAll (h : entry ∈ setAll entries map) : entry ∈ entries ∨ entry ∈ map := by
  induction entries generalizing map with
  | nil => exact Or.inr h
  | cons first entries ih =>
    rcases ih h with hmem | hmem
    · exact Or.inl (mem_cons_of_mem _ hmem)
    · rcases mem_set hmem with rfl | hmem
      · exact Or.inl mem_cons_self
      · exact Or.inr hmem

theorem fill_cons (map : List (κ × V)) (entry : κ × V) (other : List (κ × V)) :
    fill map (entry :: other) = fill (update entry.1 entry.2 id map) other :=
  rfl

theorem lookup_fill (map other : List (κ × V)) (key : κ) :
    (fill map other).lookup key = (map.lookup key).or (other.lookup key) := by
  induction other generalizing map with
  | nil => exact (Option.or_none).symm
  | cons entry other ih =>
    obtain ⟨k, v⟩ := entry
    rw [fill_cons, ih]
    by_cases hk : key = k
    · subst hk
      rw [lookup_update_self, lookup_cons_self]
      cases map.lookup key <;> rfl
    · rw [lookup_update_of_ne hk, lookup_cons_of_ne hk]

theorem mem_fill {other : List (κ × V)} (h : entry ∈ fill map other) : entry ∈ map ∨ entry ∈ other := by
  induction other generalizing map with
  | nil => exact Or.inl h
  | cons first other ih =>
    rcases ih h with hmem | hmem
    · rcases mem_set hmem with rfl | hmem
      · -- the value under the key that was there already, or the one that is taken over
        cases hlookup : map.lookup first.1 with
        | none => exact Or.inr mem_cons_self
        | some value => exact Or.inl (mem_of_lookup_eq_some hlookup)
      · exact Or.inl hmem
    · exact Or.inr (mem_cons_of_mem _ hmem)

/-- Values mapped, keys kept. -/
theorem lookup_map (f : κ → V → W) (key : κ) (map : List (κ × V)) :
    (map.map fun entry => (entry.1, f entry.1 entry.2)).lookup key = (map.lookup key).map (f key) := by
  induction map with
  | nil => rfl
  | cons entry map ih =>
    obtain ⟨k, v⟩ := entry
    by_cases hk : key = k
    · rw [hk, map_cons, lookup_cons_self, lookup_cons_self]
      rfl
    · rw [map_cons, lookup_cons_of_ne hk, lookup_cons_of_ne hk, ih]

/-- In a map of distinct keys an entry is found. -/
theorem lookup_of_mem (hnodup : (map.map Prod.fst).Nodup) (h : (key, value) ∈ map) : map.lookup key = some value := by
  induction map with
  | nil => cases h
  | cons entry map ih =>
    obtain ⟨k, v⟩ := entry
    obtain ⟨hfresh, hrest⟩ := nodup_cons.mp hnodup
    rcases mem_cons.mp h with heq | hmem
    · cases heq
      exact lookup_cons_self value map
    · have hk : key ≠ k := by
        rintro rfl
        exact hfresh (mem_map.mpr ⟨_, hmem, rfl⟩)
      rw [lookup_cons_of_ne hk, ih hrest hmem]

end Assoc
