import RustStream.Lib.Arena
import RustStream.Headers.Map

/-!
# Header maps in fixed storage

The header map of a build without an allocator: a table of at most `ENTRIES` entries over an arena
of at most `BYTES` bytes. The table and the arena stand for the initial parts that are in use, so
the entry count and the bytes used are their lengths. An insert takes the entry it replaces out,
moves the tail of both down and appends; it is refused, with the map as it was, when the entry table
or the arena has no room.

The structure carries its own agreement: the table is the layout of the pairs it reads, and those
pairs are keyed. Every operation is then a list operation on the pairs (`pairs_removeAt`,
`pairs_insert`).

## Main definitions

* `FixedHeaders`: the packed map with `removeAt`, `insert`, `remove` and `get`.
* `FixedHeaders.Fits`: the checks an insert makes.
* `Fitting`: headers that fit a table and an arena.

## Main results

* `FixedHeaders.pairs_insert`: what the map holds after an accepted insert.
* `FixedHeaders.fits_iff`: an insert is accepted exactly when the headers that result fit.
* `FixedHeaders.get_insert_self`: an accepted value is read back under its name.
-/

namespace RustStream

open List

open Arena (Entry layout bytes)

/-- The largest length an entry records. -/
def u16Max : ℕ := 65535

/-- The pairs a table of entries reads from an arena. -/
def readPairs (live : List Entry) (arena : Bytes) : List (Bytes × Bytes) :=
  live.map fun e => (e.key arena, e.value arena)

theorem readPairs_layout (pairs : List (Bytes × Bytes)) :
    readPairs (layout 0 pairs) (bytes pairs) = pairs := by
  simpa [readPairs] using Arena.read_layout [] [] pairs

/-- The table and the arena agree: the entries lie one after the other, cover the arena and name no
header twice. -/
structure Packed (live : List Entry) (arena : Bytes) : Prop where
  layout_eq : live = layout 0 (readPairs live arena)
  bytes_eq : arena = bytes (readPairs live arena)
  keyed : Keyed (readPairs live arena)

theorem Packed.of_keyed {pairs : List (Bytes × Bytes)} (h : Keyed pairs) :
    Packed (layout 0 pairs) (bytes pairs) := by
  constructor
  · rw [readPairs_layout]
  · rw [readPairs_layout]
  · rwa [readPairs_layout]

/-- The header map of a build without an allocator. -/
structure FixedHeaders (ENTRIES BYTES : ℕ) where
  /-- The entries in use. -/
  live : List Entry
  /-- The bytes in use. -/
  arena : Bytes
  packed : Packed live arena
  count_le : live.length ≤ ENTRIES
  used_le : arena.length ≤ BYTES
  /-- The arena is addressed by 16-bit offsets. -/
  addressed : BYTES ≤ u16Max

/-- The headers fit a table of `ENTRIES` entries and an arena of `BYTES` bytes. -/
def Fitting (ENTRIES BYTES : ℕ) (entries : List (Bytes × Bytes)) : Prop :=
  entries.length ≤ ENTRIES ∧ (bytes entries).length ≤ BYTES

instance decidableFitting (ENTRIES BYTES : ℕ) (entries : List (Bytes × Bytes)) :
    Decidable (Fitting ENTRIES BYTES entries) :=
  inferInstanceAs (Decidable (_ ∧ _))

theorem length_bytes_perm {entries other : List (Bytes × Bytes)} (h : entries.Perm other) :
    (bytes entries).length = (bytes other).length :=
  (h.flatMap_right fun p : Bytes × Bytes => p.1 ++ p.2).length_eq

theorem fitting_of_perm {ENTRIES BYTES : ℕ} {entries other : List (Bytes × Bytes)}
    (h : entries.Perm other) : Fitting ENTRIES BYTES entries ↔ Fitting ENTRIES BYTES other := by
  rw [Fitting, Fitting, h.length_eq, length_bytes_perm h]

/-- The refusal of a map that cannot take an entry. -/
inductive HeadersFull where
  | full
  deriving DecidableEq, Repr

namespace FixedHeaders

variable {ENTRIES BYTES : ℕ}

/-- The entries in use. -/
def count (headers : FixedHeaders ENTRIES BYTES) : ℕ :=
  headers.live.length

/-- The bytes of the arena in use. -/
def used (headers : FixedHeaders ENTRIES BYTES) : ℕ :=
  headers.arena.length

/-- The headers in insertion order. -/
def pairs (headers : FixedHeaders ENTRIES BYTES) : List (Bytes × Bytes) :=
  readPairs headers.live headers.arena

variable (headers : FixedHeaders ENTRIES BYTES)

theorem keyed : Keyed headers.pairs :=
  headers.packed.keyed

theorem live_eq : headers.live = layout 0 headers.pairs :=
  headers.packed.layout_eq

theorem arena_eq : headers.arena = bytes headers.pairs :=
  headers.packed.bytes_eq

@[simp] theorem length_pairs : headers.pairs.length = headers.live.length := by
  simp [pairs, readPairs]

theorem used_eq : headers.used = (bytes headers.pairs).length := by
  rw [used, arena_eq]

theorem count_eq : headers.count = headers.pairs.length := by
  rw [length_pairs, count]

/-- The empty map. -/
def new (addressed : BYTES ≤ u16Max) : FixedHeaders ENTRIES BYTES where
  live := []
  arena := []
  packed := Packed.of_keyed Keyed.nil
  count_le := by simp
  used_le := by simp
  addressed := addressed

/-- Where the entry named `name` sits. -/
def position (headers : FixedHeaders ENTRIES BYTES) (name : Bytes) : Option ℕ :=
  headers.live.findIdx? fun e => eqIgnoreAsciiCase (e.key headers.arena) name

variable (name : Bytes)

theorem position_eq : headers.position name = RustStream.position headers.pairs name := by
  simp only [position, RustStream.position, pairs, readPairs, findIdx?_map]
  rfl

/-- The raw bytes of a header value, or `none` if the header is absent. -/
def get (headers : FixedHeaders ENTRIES BYTES) (name : Bytes) : Option Bytes :=
  (headers.position name).bind fun i => headers.live[i]?.map fun e => e.value headers.arena

theorem get_eq : headers.get name = lookup headers.pairs name := by
  simp only [get, lookup, position_eq]
  cases RustStream.position headers.pairs name with
  | none => rfl
  | some i => simp [pairs, readPairs, Function.comp_def]

/-! ## Removal -/

/-- The table without its entry at `index`, the later entries moved down. -/
def removeEntry (live : List Entry) (gone : Entry) (index : ℕ) : List Entry :=
  live.take index ++ (live.drop (index + 1)).map (Entry.moveDown gone.size)

/-- The arena with the gap of `gone` closed. -/
def closeGap (arena : Bytes) (gone : Entry) : Bytes :=
  arena.take gone.start ++ arena.drop (gone.start + gone.size)

variable {index : ℕ}

variable {gone : Entry}

section

variable (h : headers.live[index]? = some gone)
include h

theorem removeEntry_eq :
    removeEntry headers.live gone index = layout 0 (headers.pairs.eraseIdx index) := by
  rw [live_eq] at h ⊢
  exact Arena.layout_eraseIdx h

theorem closeGap_eq : closeGap headers.arena gone = bytes (headers.pairs.eraseIdx index) := by
  rw [live_eq] at h
  rw [arena_eq]
  exact Arena.bytes_eraseIdx h

theorem length_closeGap :
    (closeGap headers.arena gone).length = headers.used - gone.size ∧ gone.size ≤ headers.used := by
  have hlt : index < headers.pairs.length := by
    obtain ⟨hi, -⟩ := List.getElem?_eq_some_iff.mp h
    simpa using hi
  obtain ⟨ps, p, qs, hsplit, hlen⟩ := Arena.exists_split_of_lt hlt
  have hgone : gone.size = p.1.length + p.2.length := by
    rw [live_eq, hsplit, ← hlen, Arena.getElem?_layout_split] at h
    cases h
    rfl
  rw [closeGap_eq headers h, used_eq, hgone, hsplit, ← hlen, Arena.eraseIdx_split]
  simp only [Arena.bytes_append, Arena.bytes_cons, length_append]
  omega

end

/-- Takes the entry at `index` out and moves the tail of the table and the arena down. -/
def removeAt (headers : FixedHeaders ENTRIES BYTES) (index : ℕ) : FixedHeaders ENTRIES BYTES :=
  match h : headers.live[index]? with
  | none => headers
  | some gone =>
    { live := removeEntry headers.live gone index
      arena := closeGap headers.arena gone
      packed := by
        rw [removeEntry_eq headers h, closeGap_eq headers h]
        exact Packed.of_keyed (headers.keyed.sublist (eraseIdx_sublist _ _))
      count_le := by
        rw [removeEntry_eq headers h, Arena.length_layout]
        refine le_trans (length_eraseIdx_le _ _) ?_
        rw [length_pairs]
        exact headers.count_le
      used_le := by
        obtain ⟨hlen, -⟩ := length_closeGap headers h
        rw [hlen]
        exact le_trans (Nat.sub_le _ _) headers.used_le
      addressed := headers.addressed }

/-- The table and the arena after a removal. -/
theorem removeAt_eq (h : headers.live[index]? = some gone) :
    (headers.removeAt index).live = removeEntry headers.live gone index ∧
      (headers.removeAt index).arena = closeGap headers.arena gone := by
  unfold removeAt
  split
  next hnone =>
    rw [h] at hnone
    cases hnone
  next gone' hsome =>
    rw [h] at hsome
    cases hsome
    exact ⟨rfl, rfl⟩

theorem pairs_removeAt (h : index < headers.live.length) :
    (headers.removeAt index).pairs = headers.pairs.eraseIdx index := by
  have hgone := getElem?_eq_getElem h
  obtain ⟨hlive, harena⟩ := headers.removeAt_eq hgone
  rw [pairs, hlive, harena, removeEntry_eq headers hgone, closeGap_eq headers hgone]
  exact readPairs_layout _

theorem used_removeAt (h : headers.live[index]? = some gone) :
    (headers.removeAt index).used = headers.used - gone.size ∧ gone.size ≤ headers.used := by
  rw [used, (headers.removeAt_eq h).2]
  exact length_closeGap headers h

theorem position_lt {name : Bytes}
    (h : headers.position name = some index) : index < headers.live.length := by
  obtain ⟨hlt, -⟩ := findIdx?_eq_some_iff_getElem.mp h
  exact hlt

/-! ## Insertion -/

/-- The bytes an insert under `name` frees: the size of the entry it replaces. -/
def freed (headers : FixedHeaders ENTRIES BYTES) (name : Bytes) : ℕ :=
  match headers.position name with
  | some index => (headers.live[index]?.map Entry.size).getD 0
  | none => 0

/-- The checks an insert makes: both lengths are 16-bit, the table has a slot or the key is there
already, and the arena has room once the replaced entry is out. -/
def Fits (headers : FixedHeaders ENTRIES BYTES) (name value : Bytes) : Prop :=
  (name.length ≤ u16Max ∧ value.length ≤ u16Max) ∧
    ((headers.position name).isSome ∨ headers.count < ENTRIES) ∧
    headers.used - headers.freed name + (name.length + value.length) ≤ BYTES

instance decidableFits (headers : FixedHeaders ENTRIES BYTES) (name value : Bytes) :
    Decidable (headers.Fits name value) :=
  inferInstanceAs (Decidable (_ ∧ _ ∧ _))

/-- The map without the entry named `name`. -/
def cleared (headers : FixedHeaders ENTRIES BYTES) (name : Bytes) : FixedHeaders ENTRIES BYTES :=
  match headers.position name with
  | some index => headers.removeAt index
  | none => headers

theorem pairs_cleared :
    (headers.cleared name).pairs = headers.pairs.filter (fun e => e.1 ≠ lowercase name) := by
  unfold cleared
  cases hpos : headers.position name with
  | none =>
    rw [position_eq] at hpos
    have hnone := headers.keyed.position_eq_none_iff.mp hpos
    rw [filter_eq_self.mpr]
    intro e he
    simpa using hnone e he
  | some index =>
    have hlt := headers.position_lt hpos
    rw [position_eq] at hpos
    simp only [pairs_removeAt headers hlt]
    exact headers.keyed.eraseIdx_eq hpos

theorem used_cleared : (headers.cleared name).used = headers.used - headers.freed name := by
  unfold cleared freed
  cases hpos : headers.position name with
  | none => rfl
  | some index =>
    have hgone := getElem?_eq_getElem (headers.position_lt hpos)
    simp only [hgone, Option.map_some, Option.getD_some]
    exact (headers.used_removeAt hgone).1

theorem count_cleared_lt (h : (headers.position name).isSome ∨ headers.count < ENTRIES) :
    (headers.cleared name).count < ENTRIES := by
  unfold cleared
  cases hpos : headers.position name with
  | none => simpa [hpos] using h
  | some index =>
    have hlt := headers.position_lt hpos
    simp only [count_eq, pairs_removeAt headers hlt]
    rw [length_eraseIdx_of_lt (by rwa [length_pairs]), length_pairs]
    have := headers.count_le
    omega

/-- **What an insert checks.** The checks pass exactly when the headers that result fit. -/
theorem fits_iff (name value : Bytes) : headers.Fits name value ↔ Fitting ENTRIES BYTES
      (headers.pairs.filter (fun e => e.1 ≠ lowercase name) ++ [(lowercase name, value)]) := by
  have hbytes : (bytes ((headers.cleared name).pairs ++ [(lowercase name, value)])).length
      = headers.used - headers.freed name + (name.length + value.length) := by
    rw [Arena.bytes_append, length_append, ← used_eq, used_cleared]
    simp
  have hlength : ((headers.cleared name).pairs ++ [(lowercase name, value)]).length
      = (headers.cleared name).count + 1 := by
    rw [length_append, ← count_eq]
    rfl
  rw [← pairs_cleared, Fitting, hbytes, hlength]
  constructor
  · rintro ⟨-, hslot, hroom⟩
    exact ⟨headers.count_cleared_lt name hslot, hroom⟩
  · rintro ⟨hslot, hroom⟩
    have haddressed := headers.addressed
    refine ⟨⟨by omega, by omega⟩, ?_, hroom⟩
    cases hpos : headers.position name with
    | some index => exact .inl rfl
    | none =>
      have hcleared : headers.cleared name = headers := by rw [cleared, hpos]
      rw [hcleared] at hslot
      exact .inr hslot

theorem keyed_push (name value : Bytes) :
    Keyed ((headers.cleared name).pairs ++ [(lowercase name, value)]) := by
  refine (headers.cleared name).keyed.snoc ?_ value
  intro e he
  rw [pairs_cleared] at he
  simpa using (mem_filter.mp he).2

/-- The table and the arena with the pair appended are the layout of the pairs with it appended. -/
theorem layout_push (key value : Bytes) : headers.live ++ [⟨headers.used, key.length, value.length⟩]
        = layout 0 (headers.pairs ++ [(key, value)]) ∧
      headers.arena ++ (key ++ value) = bytes (headers.pairs ++ [(key, value)]) := by
  have hlive := headers.live_eq
  have harena := headers.arena_eq
  constructor
  · rw [Arena.layout_append, ← hlive, used, harena]
    simp [layout]
  · rw [Arena.bytes_append, ← harena]
    simp

/-- Inserts a header value, replacing the value under that key if any; the map is left as it was
when it cannot take the entry. -/
def insert (headers : FixedHeaders ENTRIES BYTES) (name value : Bytes) :
    Except HeadersFull (FixedHeaders ENTRIES BYTES) :=
  if hfits : headers.Fits name value then
    .ok
      { live := (headers.cleared name).live
          ++ [⟨(headers.cleared name).used, (lowercase name).length, value.length⟩]
        arena := (headers.cleared name).arena ++ (lowercase name ++ value)
        packed := by
          obtain ⟨hlive, harena⟩ := (headers.cleared name).layout_push (lowercase name) value
          rw [hlive, harena]
          exact Packed.of_keyed (headers.keyed_push name value)
        count_le := by
          have := headers.count_cleared_lt name hfits.2.1
          rw [count] at this
          simpa using this
        used_le := by
          have hroom := hfits.2.2
          rw [← used_cleared, used] at hroom
          simpa using hroom
        addressed := headers.addressed }
  else .error .full

/-- The table and the arena after an accepted insert. -/
theorem insert_of_fits {name value : Bytes} (hfits : headers.Fits name value) :
    ∃ headers', headers.insert name value = .ok headers' ∧
      headers'.live = (headers.cleared name).live
        ++ [⟨(headers.cleared name).used, (lowercase name).length, value.length⟩] ∧
      headers'.arena = (headers.cleared name).arena ++ (lowercase name ++ value) := by
  refine ⟨_, dif_pos hfits, rfl, rfl⟩

theorem insert_of_not_fits {name value : Bytes}
    (hfits : ¬headers.Fits name value) : headers.insert name value = .error .full :=
  dif_neg hfits

/-- Removes a header by name, and answers whether it was there. -/
def remove (headers : FixedHeaders ENTRIES BYTES) (name : Bytes) : FixedHeaders ENTRIES BYTES × Bool :=
  (headers.cleared name, (headers.position name).isSome)

/-- **An accepted insert.** The map holds its other headers in their order and the new one last. -/
theorem pairs_insert {headers headers' : FixedHeaders ENTRIES BYTES} {name value : Bytes}
    (h : headers.insert name value = .ok headers') : headers'.pairs
      = headers.pairs.filter (fun e => e.1 ≠ lowercase name) ++ [(lowercase name, value)] := by
  unfold insert at h
  split_ifs at h with hfits
  cases h
  obtain ⟨hlive, harena⟩ := (headers.cleared name).layout_push (lowercase name) value
  rw [← pairs_cleared]
  change readPairs ((headers.cleared name).live ++ _) ((headers.cleared name).arena ++ _) = _
  rw [hlive, harena, readPairs_layout]

/-- An insert is accepted exactly when its checks pass. -/
theorem insert_isOk_iff (name value : Bytes) :
    (∃ headers', headers.insert name value = .ok headers') ↔ headers.Fits name value := by
  unfold insert
  constructor
  · rintro ⟨headers', h⟩
    by_contra hfits
    rw [dif_neg hfits] at h
    cases h
  · intro hfits
    exact ⟨_, dif_pos hfits⟩

/-- An accepted value is what the name answers next. -/
theorem get_insert_self {headers headers' : FixedHeaders ENTRIES BYTES} {name value : Bytes}
    (h : headers.insert name value = .ok headers') : headers'.get name = some value := by
  rw [get_eq, lookup_eq_some_iff headers'.keyed, pairs_insert h]
  simp

/-- The case of a name does not matter. -/
theorem get_congr {name other : Bytes}
    (h : lowercase other = lowercase name) : headers.get other = headers.get name := by
  rw [get_eq, get_eq, lookup_congr h]

/-- Another name answers what it did. -/
theorem get_insert_of_ne {headers headers' : FixedHeaders ENTRIES BYTES} {name value other : Bytes}
    (h : headers.insert name value = .ok headers') (hne : lowercase other ≠ lowercase name) :
    headers'.get other = headers.get other := by
  refine Option.ext fun v => ?_
  rw [get_eq, get_eq, lookup_eq_some_iff headers'.keyed, lookup_eq_some_iff headers.keyed,
    pairs_insert h]
  simp [hne]

end FixedHeaders

end RustStream
