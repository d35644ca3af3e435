import Mathlib.Tactic

/-!
# Header maps on the heap

The header map of a build with an allocator: a list of entries whose keys are lowercase and
distinct, looked up without regard to ASCII case. Inserting a present key replaces its value in
place, inserting a new one appends it.

Both header maps, this one and the packed one of a build without an allocator, are read as a keyed
list of pairs, so what a lookup answers on such a list is stated here once (`Keyed`, `lookup`).

## Main definitions

* `lowercase`, `eqIgnoreAsciiCase`: names up to ASCII case.
* `Keyed`: lowercase keys, no two alike.
* `HeaderMap`: the heap map with `insert`, `remove` and `get`.

## Main results

* `lookup_eq_some_iff`: a lookup in a keyed list answers the one value under the name.
* `HeaderMap.insertEntries_perm`, `HeaderMap.removeEntries_eq`: what the map holds afterwards.
* `HeaderMap.get_insert_self`: an inserted value is read back under its name.
-/

namespace RustStream

open List

/-- The bytes of a name, a value or a payload. -/
abbrev Bytes := List UInt8

/-- The ASCII lowercase form of one byte. -/
def toAsciiLowercase (b : UInt8) : UInt8 :=
  if 65 ≤ b.toNat ∧ b.toNat ≤ 90 then UInt8.ofNat (b.toNat + 32) else b

/-- The ASCII lowercase form of a name. -/
def lowercase (name : Bytes) : Bytes :=
  name.map toAsciiLowercase

/-- Whether two names agree up to ASCII case. -/
def eqIgnoreAsciiCase (a b : Bytes) : Bool :=
  lowercase a == lowercase b

theorem toAsciiLowercase_idem (b : UInt8) :
    toAsciiLowercase (toAsciiLowercase b) = toAsciiLowercase b := by
  by_cases h : 65 ≤ b.toNat ∧ b.toNat ≤ 90
  · have hnat : (UInt8.ofNat (b.toNat + 32)).toNat = b.toNat + 32 := by
      simp only [UInt8.toNat_ofNat']
      omega
    have hout : ¬(65 ≤ (UInt8.ofNat (b.toNat + 32)).toNat ∧
        (UInt8.ofNat (b.toNat + 32)).toNat ≤ 90) := by
      omega
    simp only [toAsciiLowercase, if_pos h, if_neg hout]
  · simp only [toAsciiLowercase, if_neg h]

@[simp] theorem lowercase_lowercase (name : Bytes) :
    lowercase (lowercase name) = lowercase name := by
  simp [lowercase, toAsciiLowercase_idem]

@[simp] theorem length_lowercase (name : Bytes) : (lowercase name).length = name.length := by
  simp [lowercase]

/-! ## Keyed lists -/

/-- A list of headers as a map holds it: every key lowercase, no key twice. -/
structure Keyed (entries : List (Bytes × Bytes)) : Prop where
  lower : ∀ e ∈ entries, lowercase e.1 = e.1
  nodup : (entries.map Prod.fst).Nodup

/-- Where the entry named `name` sits. -/
def position (entries : List (Bytes × Bytes)) (name : Bytes) : Option ℕ :=
  entries.findIdx? fun e => eqIgnoreAsciiCase e.1 name

/-- The value under `name`. -/
def lookup (entries : List (Bytes × Bytes)) (name : Bytes) : Option Bytes :=
  (position entries name).bind fun i => entries[i]?.map Prod.snd

variable {entries : List (Bytes × Bytes)} {name : Bytes}

/-- The case of a name does not matter to a lookup. -/
theorem lookup_congr {other : Bytes} (h : lowercase other = lowercase name) :
    lookup entries other = lookup entries name := by
  unfold lookup position eqIgnoreAsciiCase
  rw [h]

theorem Keyed.nil : Keyed [] :=
  ⟨by simp, by simp⟩

section

variable (h : Keyed entries)
include h

theorem Keyed.eqIgnoreAsciiCase_iff {e : Bytes × Bytes} (he : e ∈ entries) :
    eqIgnoreAsciiCase e.1 name = true ↔ e.1 = lowercase name := by
  simp [eqIgnoreAsciiCase, h.lower e he]

theorem Keyed.position_eq_none_iff :
    position entries name = none ↔ ∀ e ∈ entries, e.1 ≠ lowercase name := by
  rw [position, findIdx?_eq_none_iff]
  constructor
  · intro hall e he heq
    have := hall e he
    rw [(h.eqIgnoreAsciiCase_iff he).mpr heq] at this
    exact Bool.noConfusion this
  · intro hall e he
    rw [Bool.eq_false_iff]
    exact fun htrue => hall e he ((h.eqIgnoreAsciiCase_iff he).mp htrue)

theorem Keyed.position_eq_some {i : ℕ} (hi : position entries name = some i) :
    ∃ v, entries[i]? = some (lowercase name, v) := by
  obtain ⟨hlt, hsame, -⟩ := findIdx?_eq_some_iff_getElem.mp hi
  have hkey := (h.eqIgnoreAsciiCase_iff (getElem_mem hlt)).mp hsame
  refine ⟨entries[i].2, ?_⟩
  rw [getElem?_eq_getElem hlt, ← hkey]

theorem Keyed.mem_unique {k v v' : Bytes} (hv : (k, v) ∈ entries)
    (hv' : (k, v') ∈ entries) : v = v' := by
  have := inj_on_of_nodup_map h.nodup hv hv' rfl
  exact congrArg Prod.snd this

/-- A lookup in a keyed list answers the one value stored under the name. -/
theorem lookup_eq_some_iff {v : Bytes} :
    lookup entries name = some v ↔ (lowercase name, v) ∈ entries := by
  cases hpos : position entries name with
  | none =>
    have hnone := h.position_eq_none_iff.mp hpos
    simp only [lookup, hpos, Option.bind_none, reduceCtorEq, false_iff]
    exact fun hmem => hnone _ hmem rfl
  | some i =>
    obtain ⟨w, hw⟩ := h.position_eq_some hpos
    have hmem : (lowercase name, w) ∈ entries := mem_of_getElem? hw
    simp only [lookup, hpos, Option.bind_some, hw, Option.map_some, Option.some.injEq]
    constructor
    · rintro rfl
      exact hmem
    · exact fun hv => h.mem_unique hmem hv

/-- A new key behind a keyed list keeps it keyed. -/
theorem Keyed.snoc (hnew : ∀ e ∈ entries, e.1 ≠ lowercase name)
    (value : Bytes) : Keyed (entries ++ [(lowercase name, value)]) := by
  constructor
  · intro e he
    rcases mem_append.mp he with he | he
    · exact h.lower e he
    · rw [mem_singleton] at he
      simp [he]
  · rw [map_append]
    refine List.Nodup.append h.nodup (by simp) ?_
    intro k hk hk'
    obtain ⟨e, he, rfl⟩ := mem_map.mp hk
    simp only [map_cons, map_nil, mem_singleton] at hk'
    exact hnew e he hk'

/-- Keyed lists that hold the same headers differ in order only. -/
theorem Keyed.perm_iff {other : List (Bytes × Bytes)} (hother : Keyed other) :
    entries.Perm other ↔ ∀ e, e ∈ entries ↔ e ∈ other :=
  perm_ext_iff_of_nodup (.of_map _ h.nodup) (.of_map _ hother.nodup)

/-- The order of the headers does not matter to a lookup. -/
theorem Keyed.lookup_eq_of_perm {other : List (Bytes × Bytes)}
    (hother : Keyed other) (hperm : entries.Perm other) (name : Bytes) :
    lookup entries name = lookup other name := by
  refine Option.ext fun v => ?_
  rw [lookup_eq_some_iff h, lookup_eq_some_iff hother]
  exact hperm.mem_iff

/-- A keyed list without the entry under a name: the keys are distinct, so it is the only one. -/
theorem Keyed.eraseIdx_eq {i : ℕ} (hi : position entries name = some i) :
    entries.eraseIdx i = entries.filter fun e => e.1 ≠ lowercase name := by
  obtain ⟨v, hv⟩ := h.position_eq_some hi
  obtain ⟨hlt, hget⟩ := List.getElem?_eq_some_iff.mp hv
  have hsplit : entries = entries.take i ++ (lowercase name, v) :: entries.drop (i + 1) := by
    rw [← hget, ← drop_eq_getElem_cons hlt, take_append_drop]
  have hnodup : ((entries.take i ++ (lowercase name, v) :: entries.drop (i + 1)).map Prod.fst).Nodup :=
    hsplit ▸ h.nodup
  rw [map_append, map_cons, nodup_middle, nodup_cons] at hnodup
  have hother : ∀ e ∈ entries.take i ++ entries.drop (i + 1), e.1 ≠ lowercase name := by
    intro e he heq
    have hkey := mem_map_of_mem (f := Prod.fst) he
    rw [heq, map_append] at hkey
    exact hnodup.1 hkey
  have hrest : entries.filter (fun e => e.1 ≠ lowercase name)
      = (entries.take i ++ entries.drop (i + 1)).filter fun e => e.1 ≠ lowercase name := by
    conv_lhs => rw [hsplit]
    rw [filter_append, filter_cons_of_neg (by simp), ← filter_append]
  rw [hrest, eraseIdx_eq_take_drop_succ, filter_eq_self.mpr]
  intro e he
  simpa using hother e he

theorem Keyed.sublist {fewer : List (Bytes × Bytes)} (hsub : fewer.Sublist entries) : Keyed fewer :=
  ⟨fun e he => h.lower e (hsub.subset he), h.nodup.sublist (hsub.map Prod.fst)⟩

end

/-! ## The heap map -/

/-- The header map of a build with an allocator. -/
structure HeaderMap where
  entries : List (Bytes × Bytes)
  keyed : Keyed entries

namespace HeaderMap

/-- The empty map. -/
def new : HeaderMap :=
  ⟨[], Keyed.nil⟩

/-- The raw bytes of a header value, or `none` if the header is absent. -/
def get (headers : HeaderMap) (name : Bytes) : Option Bytes :=
  lookup headers.entries name

theorem keyed_modify (h : Keyed entries) (i : ℕ) (value : Bytes) :
    Keyed (entries.modify i fun e => (e.1, value)) := by
  have hkeys : (entries.modify i fun e => (e.1, value)).map Prod.fst = entries.map Prod.fst := by
    refine ext_getElem (by simp) ?_
    intro j hj hj'
    simp only [getElem_map, getElem_modify]
    split_ifs <;> rfl
  refine ⟨?_, by rw [hkeys]; exact h.nodup⟩
  intro e he
  have hkey : e.1 ∈ entries.map Prod.fst := by
    rw [← hkeys]
    exact mem_map_of_mem he
  obtain ⟨e', he', heq⟩ := mem_map.mp hkey
  rw [← heq]
  exact h.lower e' he'

/-- The entries after inserting `value` under `name`: replaced in place if the key is there,
appended if not. -/
def insertEntries (entries : List (Bytes × Bytes)) (name value : Bytes) : List (Bytes × Bytes) :=
  match position entries (lowercase name) with
  | some index => entries.modify index fun e => (e.1, value)
  | none => entries ++ [(lowercase name, value)]

theorem keyed_insertEntries (h : Keyed entries) (name value : Bytes) :
    Keyed (insertEntries entries name value) := by
  unfold insertEntries
  cases hpos : position entries (lowercase name) with
  | some index => exact keyed_modify h index value
  | none =>
    refine h.snoc ?_ value
    simpa using h.position_eq_none_iff.mp hpos

theorem mem_insertEntries (h : Keyed entries) (name value : Bytes) :
    (lowercase name, value) ∈ insertEntries entries name value := by
  unfold insertEntries
  cases hpos : position entries (lowercase name) with
  | none => simp
  | some index =>
    obtain ⟨w, hw⟩ := h.position_eq_some hpos
    rw [lowercase_lowercase] at hw
    refine mem_iff_getElem?.mpr ⟨index, ?_⟩
    simp [hw]

theorem mem_insertEntries_of_ne (h : Keyed entries) {name value k v : Bytes}
    (hk : k ≠ lowercase name) : (k, v) ∈ insertEntries entries name value ↔ (k, v) ∈ entries := by
  unfold insertEntries
  cases hpos : position entries (lowercase name) with
  | none => simp [hk]
  | some index =>
    obtain ⟨w, hw⟩ := h.position_eq_some hpos
    rw [lowercase_lowercase] at hw
    dsimp only
    rw [mem_iff_getElem?, mem_iff_getElem?]
    refine exists_congr fun j => ?_
    rw [getElem?_modify]
    by_cases hj : index = j
    · subst hj
      simp [hw, Ne.symm hk]
    · simp [hj]

/-- Inserts a header value, replacing the value under that key if any. -/
def insert (headers : HeaderMap) (name value : Bytes) : HeaderMap :=
  ⟨insertEntries headers.entries name value, keyed_insertEntries headers.keyed name value⟩

/-- The map after an insert, up to order: its other headers and the new one. -/
theorem insertEntries_perm (h : Keyed entries) (name value : Bytes) :
    (insertEntries entries name value).Perm
      (entries.filter (fun e => e.1 ≠ lowercase name) ++ [(lowercase name, value)]) := by
  have hrest : Keyed (entries.filter (fun e => e.1 ≠ lowercase name) ++ [(lowercase name, value)]) :=
    (h.sublist filter_sublist).snoc
      (fun e he => of_decide_eq_true (mem_filter.mp he).2) value
  refine ((keyed_insertEntries h name value).perm_iff hrest).mpr fun e => ?_
  obtain ⟨k, v⟩ := e
  by_cases hk : k = lowercase name
  · have hinserted := mem_insertEntries h name value
    constructor
    · intro hmem
      rw [hk] at hmem
      rw [(keyed_insertEntries h name value).mem_unique hmem hinserted, hk]
      exact mem_append_right _ (mem_singleton_self _)
    · intro hmem
      rcases mem_append.mp hmem with hold | hnew
      · exact absurd hk (of_decide_eq_true (mem_filter.mp hold).2)
      · rw [mem_singleton.mp hnew]
        exact hinserted
  · rw [mem_insertEntries_of_ne h hk]
    simp [hk]

/-- The entries after removing the one under `name`. -/
def removeEntries (entries : List (Bytes × Bytes)) (name : Bytes) : List (Bytes × Bytes) :=
  match position entries name with
  | some index => entries.eraseIdx index
  | none => entries

theorem removeEntries_eq (h : Keyed entries) (name : Bytes) :
    removeEntries entries name = entries.filter fun e => e.1 ≠ lowercase name := by
  unfold removeEntries
  cases hpos : position entries name with
  | some index => exact h.eraseIdx_eq hpos
  | none =>
    have hnone := h.position_eq_none_iff.mp hpos
    exact (filter_eq_self.mpr fun e he => by simpa using hnone e he).symm

theorem keyed_removeEntries (h : Keyed entries) (name : Bytes) :
    Keyed (removeEntries entries name) := by
  rw [removeEntries_eq h]
  exact h.sublist filter_sublist

/-- Removes a header by name, and answers its value if it was there. -/
def remove (headers : HeaderMap) (name : Bytes) : HeaderMap × Option Bytes :=
  (⟨removeEntries headers.entries name, keyed_removeEntries headers.keyed name⟩, headers.get name)

/-- An inserted value is what the name answers next. -/
@[simp] theorem get_insert_self (headers : HeaderMap) (name value : Bytes) :
    (headers.insert name value).get name = some value :=
  (lookup_eq_some_iff (headers.insert name value).keyed).mpr
    (mem_insertEntries headers.keyed name value)

/-- Another name answers what it did. -/
theorem get_insert_of_ne (headers : HeaderMap) {name other : Bytes} (value : Bytes)
    (h : lowercase other ≠ lowercase name) :
    (headers.insert name value).get other = headers.get other := by
  refine Option.ext fun v => ?_
  rw [get, get, lookup_eq_some_iff (headers.insert name value).keyed,
    lookup_eq_some_iff headers.keyed]
  exact mem_insertEntries_of_ne headers.keyed h

end HeaderMap

end RustStream
