import RustStream.Headers.Fixed

/-!
# Writing one header map over another

A sink's headers take the call site's on top of them, key by key. On the heap that always works. In
fixed storage the entries are inserted one after the other into a copy of the target, which takes the
target's place when all of them went in.

The headers that result are `overlay`: those of the target that the other map does not name, and those
of the other map. Whether the inserts go through depends on more than whether these fit. Each entry is
checked against the room as it is when its turn comes, so an entry that grows a value before another
shrinks one may be refused although the result would fit. `growth` is what an entry adds to the bytes at
most; the merge goes through in every order exactly when the target has room for all of the growth at
once (`overwrite_with_iff`).

## Main definitions

* `HeaderMap.overwriteWith`, `FixedHeaders.overwriteWith`: the merge of either build.
* `FixedHeaders.eq`: the comparison of two maps, which their order does not matter to.
* `overlay`: the headers that result.
* `growth`: the bytes an entry adds over what it replaces.

## Main results

* `HeaderMap.overwriteWith_perm`: the heap map holds the overlay.
* `overwrite_with_iff`: when the fixed map takes the overlay in every order.
-/

namespace RustStream

open List

open Arena (bytes)

/-- The keys of a list of headers. -/
def keys (entries : List (Bytes × Bytes)) : List Bytes :=
  entries.map Prod.fst

/-- The headers of `entries` under names `other` does not hold, and those of `other`. -/
def overlay (entries other : List (Bytes × Bytes)) : List (Bytes × Bytes) :=
  entries.filter (fun e => e.1 ∉ keys other) ++ other

/-- The headers under other names than `key`. -/
def others (entries : List (Bytes × Bytes)) (key : Bytes) : List (Bytes × Bytes) :=
  entries.filter fun e => e.1 ≠ key

/-- The bytes of the entry under `key`. -/
def sizeUnder (entries : List (Bytes × Bytes)) (key : Bytes) : ℕ :=
  (bytes (entries.filter fun e => e.1 = key)).length

/-- The bytes `e` adds over the entry it replaces. -/
def growth (entries : List (Bytes × Bytes)) (e : Bytes × Bytes) : ℕ :=
  e.1.length + e.2.length - sizeUnder entries e.1

/-- The bytes all of `other` adds at most. -/
def totalGrowth (entries other : List (Bytes × Bytes)) : ℕ :=
  (other.map (growth entries)).sum

variable {entries other : List (Bytes × Bytes)}

/-! ## The overlay one entry at a time -/

/-- The headers with `e` in place of the one under its key. -/
def put (entries : List (Bytes × Bytes)) (e : Bytes × Bytes) : List (Bytes × Bytes) :=
  others entries e.1 ++ [e]

@[simp] theorem overlay_nil (entries : List (Bytes × Bytes)) : overlay entries [] = entries := by
  simp [overlay, keys]

variable {e : Bytes × Bytes}

theorem overlay_cons (hnew : e.1 ∉ keys other) :
    overlay entries (e :: other) = overlay (put entries e) other := by
  have hkeep : [e].filter (fun e' => e'.1 ∉ keys other) = [e] := by
    simp [hnew]
  rw [overlay, overlay, put, others, filter_append, hkeep, filter_filter, append_assoc]
  congr 1
  refine filter_congr fun e' _ => ?_
  simp only [keys, map_cons, mem_cons, not_or, Bool.decide_and]
  exact Bool.and_comm _ _

/-- Merging key by key never leaves fewer headers than there were. -/
theorem length_le_overlay (h : Keyed entries) (other : List (Bytes × Bytes)) :
    entries.length ≤ (overlay entries other).length := by
  have hinside : (entries.filter fun e => e.1 ∈ keys other).length ≤ other.length := by
    have hnodup : ((entries.filter fun e => e.1 ∈ keys other).map Prod.fst).Nodup :=
      (h.sublist filter_sublist).nodup
    have hsubset : (entries.filter fun e => e.1 ∈ keys other).map Prod.fst ⊆ keys other := by
      intro k hk
      obtain ⟨e, he, rfl⟩ := mem_map.mp hk
      exact of_decide_eq_true (mem_filter.mp he).2
    have := (subperm_of_subset hnodup hsubset).length_le
    rwa [length_map, keys, length_map] at this
  have hsplit := length_eq_length_filter_add (l := entries) fun e => decide (e.1 ∈ keys other)
  have hrest : (entries.filter fun e => !decide (e.1 ∈ keys other))
      = entries.filter fun e => decide (e.1 ∉ keys other) := by
    refine filter_congr fun e _ => ?_
    simp
  rw [overlay, length_append, hsplit, hrest]
  omega

/-- The bytes of the headers, split by one key. -/
theorem length_bytes_split (entries : List (Bytes × Bytes)) (key : Bytes) :
    (bytes entries).length = (bytes (others entries key)).length + sizeUnder entries key := by
  induction entries with
  | nil => rfl
  | cons e entries ih =>
    rw [sizeUnder, others] at ih ⊢
    by_cases hkey : e.1 = key
    · rw [filter_cons_of_neg (by simp [hkey]), filter_cons_of_pos (by simp [hkey])]
      simp only [Arena.bytes_cons, length_append]
      omega
    · rw [filter_cons_of_pos (by simp [hkey]), filter_cons_of_neg (by simp [hkey])]
      simp only [Arena.bytes_cons, length_append]
      omega

theorem length_bytes_put (entries : List (Bytes × Bytes)) (e : Bytes × Bytes) :
    (bytes (put entries e)).length + sizeUnder entries e.1
      = (bytes entries).length + (e.1.length + e.2.length) := by
  rw [length_bytes_split entries e.1, put, Arena.bytes_append, length_append]
  simp only [Arena.bytes_cons, Arena.bytes_nil, length_append, length_nil]
  omega

/-- Another key has what it had. -/
theorem sizeUnder_put {key : Bytes} (hne : key ≠ e.1) :
    sizeUnder (put entries e) key = sizeUnder entries key := by
  have hnone : [e].filter (fun e' => e'.1 = key) = [] := by
    simp [Ne.symm hne]
  rw [sizeUnder, sizeUnder, put, others, filter_append, hnone, append_nil, filter_filter]
  congr 2
  refine filter_congr fun e' _ => ?_
  by_cases hkey : e'.1 = key
  · simp [hkey, hne]
  · simp [hkey]

theorem totalGrowth_put (hnew : e.1 ∉ keys other) :
    totalGrowth (put entries e) other = totalGrowth entries other := by
  rw [totalGrowth, totalGrowth]
  congr 1
  refine map_congr_left fun e' he' => ?_
  have hne : e'.1 ≠ e.1 := fun heq => hnew (heq ▸ mem_map_of_mem he')
  rw [growth, growth, sizeUnder_put hne]

theorem totalGrowth_cons (e : Bytes × Bytes) :
    totalGrowth entries (e :: other) = growth entries e + totalGrowth entries other := rfl

/-- Only the entries that grow add to the total. -/
theorem totalGrowth_filter (entries other : List (Bytes × Bytes)) : totalGrowth entries
        (other.filter fun e => decide (sizeUnder entries e.1 ≤ e.1.length + e.2.length))
      = totalGrowth entries other := by
  induction other with
  | nil => rfl
  | cons e other ih =>
    rw [totalGrowth_cons]
    by_cases hgrow : sizeUnder entries e.1 ≤ e.1.length + e.2.length
    · rw [filter_cons_of_pos (by simpa using hgrow), totalGrowth_cons, ih]
    · rw [filter_cons_of_neg (by simpa using hgrow), ih, growth]
      omega

/-! ## Other orders -/

section Order

variable {entries' other' : List (Bytes × Bytes)}

theorem Keyed.of_perm (h : Keyed entries) (hperm : entries.Perm entries') : Keyed entries' :=
  ⟨fun e he => h.lower e (hperm.mem_iff.mpr he), (hperm.map Prod.fst).nodup_iff.mp h.nodup⟩

theorem totalGrowth_perm (h : entries.Perm entries') (hother : other.Perm other') :
    totalGrowth entries other = totalGrowth entries' other' := by
  have hgrowth : growth entries = growth entries' := by
    funext e
    rw [growth, growth, sizeUnder, sizeUnder, length_bytes_perm (h.filter _)]
  rw [totalGrowth, totalGrowth, hgrowth]
  exact (hother.map _).sum_eq

theorem overlay_perm (h : entries.Perm entries') (hother : other.Perm other') :
    (overlay entries other).Perm (overlay entries' other') := by
  have hkeys : (fun e : Bytes × Bytes => decide (e.1 ∉ keys other))
      = fun e => decide (e.1 ∉ keys other') := by
    funext e
    rw [decide_eq_decide, keys, keys, (hother.map Prod.fst).mem_iff]
  rw [overlay, overlay, hkeys]
  exact (h.filter _).append hother

end Order

theorem Keyed.tail (h : Keyed (e :: other)) :
    Keyed other ∧ lowercase e.1 = e.1 ∧ e.1 ∉ keys other := by
  have hnodup := h.nodup
  rw [map_cons, nodup_cons] at hnodup
  exact ⟨h.sublist (sublist_cons_self _ _), h.lower e mem_cons_self, hnodup.1⟩

/-! ## The heap map -/

namespace HeaderMap

/-- One entry of the other map moves across; its key is lowercase already. -/
def overwriteOne (entries : List (Bytes × Bytes)) (e : Bytes × Bytes) : List (Bytes × Bytes) :=
  match position entries e.1 with
  | some index => entries.modify index fun e' => (e'.1, e.2)
  | none => entries ++ [e]

/-- The entries after `other` is written over them. -/
def overwriteEntries (entries other : List (Bytes × Bytes)) : List (Bytes × Bytes) :=
  if entries = [] then other else other.foldl overwriteOne entries

theorem overwriteOne_eq {e : Bytes × Bytes} (hlower : lowercase e.1 = e.1) :
    overwriteOne entries e = insertEntries entries e.1 e.2 := by
  cases hpos : position entries e.1 with
  | some index => simp only [overwriteOne, insertEntries, hlower, hpos]
  | none => simp only [overwriteOne, insertEntries, hlower, hpos]

/-- An entry that moved across takes the place of the one under its key. -/
theorem overwriteOne_perm (h : Keyed entries) {e : Bytes × Bytes} (hlower : lowercase e.1 = e.1) :
    (overwriteOne entries e).Perm (put entries e) := by
  have hperm := insertEntries_perm h e.1 e.2
  rw [hlower] at hperm
  rw [overwriteOne_eq hlower]
  exact hperm

theorem foldl_overwriteOne (h : Keyed entries) (hother : Keyed other) :
    Keyed (other.foldl overwriteOne entries) ∧
      (other.foldl overwriteOne entries).Perm (overlay entries other) := by
  induction other generalizing entries with
  | nil => exact ⟨h, by rw [overlay_nil, foldl_nil]⟩
  | cons e other ih =>
    obtain ⟨htail, hlower, hnew⟩ := hother.tail
    have hone : Keyed (overwriteOne entries e) := by
      rw [overwriteOne_eq hlower]
      exact keyed_insertEntries h e.1 e.2
    obtain ⟨hkeyed, hperm⟩ := ih hone htail
    refine ⟨hkeyed, ?_⟩
    rw [overlay_cons hnew]
    exact hperm.trans (overlay_perm (overwriteOne_perm h hlower) (.refl _))

theorem keyed_overwriteEntries (h : Keyed entries) (hother : Keyed other) :
    Keyed (overwriteEntries entries other) := by
  unfold overwriteEntries
  split_ifs
  · exact hother
  · exact (foldl_overwriteOne h hother).1

/-- Writes every entry of `other` over this map, keeping the entries `other` does not name. -/
def overwriteWith (headers other : HeaderMap) : HeaderMap :=
  ⟨overwriteEntries headers.entries other.entries, keyed_overwriteEntries headers.keyed other.keyed⟩

/-- **The heap map.** It holds the overlay. -/
theorem overwriteWith_perm (headers other : HeaderMap) :
    (headers.overwriteWith other).entries.Perm (overlay headers.entries other.entries) := by
  change (overwriteEntries headers.entries other.entries).Perm _
  unfold overwriteEntries
  split_ifs with hempty
  · rw [hempty]
    exact .refl _
  · exact (foldl_overwriteOne headers.keyed other.keyed).2

end HeaderMap

/-! ## The fixed map -/

namespace FixedHeaders

variable {ENTRIES BYTES : ℕ}

/-- Two maps are equal when they hold the same entries, in whatever order. -/
def eq (headers other : FixedHeaders ENTRIES BYTES) : Bool :=
  headers.count == other.count && headers.pairs.all fun e => other.get e.1 == some e.2

theorem eq_iff_perm (headers other : FixedHeaders ENTRIES BYTES) :
    headers.eq other = true ↔ headers.pairs.Perm other.pairs := by
  have hget : ∀ e ∈ headers.pairs, other.get e.1 = some e.2 ↔ e ∈ other.pairs := by
    intro e he
    rw [other.get_eq, lookup_eq_some_iff other.keyed, headers.keyed.lower e he]
  rw [eq, Bool.and_eq_true, beq_iff_eq, all_eq_true, count_eq, count_eq]
  simp only [beq_iff_eq]
  constructor
  · rintro ⟨hcount, hall⟩
    have hsubset : headers.pairs ⊆ other.pairs := fun e he => (hget e he).mp (hall e he)
    exact (subperm_of_subset (.of_map _ headers.keyed.nodup) hsubset).perm_of_length_le hcount.ge
  · intro hperm
    exact ⟨hperm.length_eq, fun e he => (hget e he).mpr (hperm.subset he)⟩

/-- Inserts the entries one after the other. -/
def insertAll (headers : FixedHeaders ENTRIES BYTES) :
    List (Bytes × Bytes) → Except HeadersFull (FixedHeaders ENTRIES BYTES)
  | [] => .ok headers
  | e :: entries =>
    match headers.insert e.1 e.2 with
    | .ok headers => headers.insertAll entries
    | .error refusal => .error refusal

/-- Writes every entry of `other` over this map, keeping the entries `other` does not name. They are
merged on a copy, so a map that does not fit is left as it was. -/
def overwriteWith (headers other : FixedHeaders ENTRIES BYTES) :
    FixedHeaders ENTRIES BYTES × Except HeadersFull Unit :=
  match headers.insertAll other.pairs with
  | .ok merged => (merged, .ok ())
  | .error refusal => (headers, .error refusal)

variable {headers merged : FixedHeaders ENTRIES BYTES}

theorem exists_insertAll_of_ok {other : FixedHeaders ENTRIES BYTES}
    (h : (headers.overwriteWith other).2 = .ok ()) :
    ∃ merged, headers.insertAll other.pairs = .ok merged := by
  unfold overwriteWith at h
  split at h
  next merged hmerged => exact ⟨merged, hmerged⟩
  next => cases h

theorem insertAll_cons_eq_ok {e : Bytes × Bytes} (h : headers.insertAll (e :: other) = .ok merged) :
    ∃ headers', headers.insert e.1 e.2 = .ok headers' ∧ headers'.insertAll other = .ok merged := by
  rw [insertAll] at h
  cases hinsert : headers.insert e.1 e.2 with
  | error refusal =>
    rw [hinsert] at h
    cases h
  | ok headers' =>
    rw [hinsert] at h
    exact ⟨headers', rfl, h⟩

theorem pairs_insert_eq_put {headers' : FixedHeaders ENTRIES BYTES} {e : Bytes × Bytes}
    (hlower : lowercase e.1 = e.1) (h : headers.insert e.1 e.2 = .ok headers') :
    headers'.pairs = put headers.pairs e := by
  have hpairs := pairs_insert h
  rw [hlower] at hpairs
  exact hpairs

/-- The entries that all went in are the overlay. -/
theorem pairs_insertAll (hother : Keyed other) (h : headers.insertAll other = .ok merged) :
    merged.pairs = overlay headers.pairs other := by
  induction other generalizing headers with
  | nil =>
    cases h
    rw [overlay_nil]
  | cons e other ih =>
    obtain ⟨htail, hlower, hnew⟩ := hother.tail
    obtain ⟨headers', hinsert, hrest⟩ := insertAll_cons_eq_ok h
    rw [ih htail hrest, pairs_insert_eq_put hlower hinsert, overlay_cons hnew]

/-- Room for all of the growth at once is enough in every order. -/
theorem insertAll_of_room (hother : Keyed other)
    (hcount : (overlay headers.pairs other).length ≤ ENTRIES)
    (hroom : headers.used + totalGrowth headers.pairs other ≤ BYTES) :
    ∃ merged, headers.insertAll other = .ok merged := by
  induction other generalizing headers with
  | nil => exact ⟨headers, rfl⟩
  | cons e other ih =>
    obtain ⟨htail, hlower, hnew⟩ := hother.tail
    rw [overlay_cons hnew] at hcount
    rw [totalGrowth_cons, growth] at hroom
    have hbytes := length_bytes_put headers.pairs e
    rw [← headers.used_eq] at hbytes
    have hkeyed : Keyed (put headers.pairs e) := by
      have := headers.keyed_push e.1 e.2
      rwa [pairs_cleared, hlower] at this
    have hfits : headers.Fits e.1 e.2 := by
      rw [headers.fits_iff, hlower]
      refine ⟨(length_le_overlay hkeyed other).trans hcount, ?_⟩
      change (bytes (put headers.pairs e)).length ≤ BYTES
      omega
    obtain ⟨headers', hinsert⟩ := (headers.insert_isOk_iff e.1 e.2).mpr hfits
    have hpairs := pairs_insert_eq_put hlower hinsert
    obtain ⟨merged, hmerged⟩ := @ih headers' htail (by rw [hpairs]; exact hcount) (by
      rw [headers'.used_eq, hpairs, totalGrowth_put hnew]
      omega)
    refine ⟨merged, ?_⟩
    rw [insertAll, hinsert]
    exact hmerged

/-- Entries that all grow add all of their growth. -/
theorem used_insertAll_of_growing (hother : Keyed other)
    (hgrow : ∀ e ∈ other, sizeUnder headers.pairs e.1 ≤ e.1.length + e.2.length)
    (h : headers.insertAll other = .ok merged) :
    merged.used = headers.used + totalGrowth headers.pairs other := by
  induction other generalizing headers with
  | nil =>
    cases h
    rfl
  | cons e other ih =>
    obtain ⟨htail, hlower, hnew⟩ := hother.tail
    obtain ⟨headers', hinsert, hrest⟩ := insertAll_cons_eq_ok h
    have hpairs := pairs_insert_eq_put hlower hinsert
    have hbytes := length_bytes_put headers.pairs e
    rw [← headers.used_eq, ← hpairs, ← headers'.used_eq] at hbytes
    have hfirst := hgrow e mem_cons_self
    have hothers : ∀ e' ∈ other, sizeUnder headers'.pairs e'.1 ≤ e'.1.length + e'.2.length := by
      intro e' he'
      have hne : e'.1 ≠ e.1 := fun heq => hnew (heq ▸ mem_map_of_mem he')
      rw [hpairs, sizeUnder_put hne]
      exact hgrow e' (mem_cons_of_mem _ he')
    rw [ih htail hothers hrest, hpairs, totalGrowth_put hnew, totalGrowth_cons, growth]
    omega

theorem insertAll_append_eq_ok {first second : List (Bytes × Bytes)}
    (h : headers.insertAll (first ++ second) = .ok merged) :
    ∃ headers', headers.insertAll first = .ok headers' := by
  induction first generalizing headers with
  | nil => exact ⟨headers, rfl⟩
  | cons e first ih =>
    obtain ⟨headers₁, hinsert, hrest⟩ := insertAll_cons_eq_ok h
    obtain ⟨headers', hfirst⟩ := ih hrest
    refine ⟨headers', ?_⟩
    rw [insertAll, hinsert]
    exact hfirst

/-! ## The order of the entries -/

theorem fitting (headers : FixedHeaders ENTRIES BYTES) : Fitting ENTRIES BYTES headers.pairs := by
  rw [Fitting, ← count_eq, ← used_eq]
  exact ⟨headers.count_le, headers.used_le⟩

/-- The map that holds the given headers in the given order. -/
def ofPairs (pairs : List (Bytes × Bytes)) (keyed : Keyed pairs) (fits : Fitting ENTRIES BYTES pairs)
    (addressed : BYTES ≤ u16Max) : FixedHeaders ENTRIES BYTES where
  live := Arena.layout 0 pairs
  arena := bytes pairs
  packed := .of_keyed keyed
  count_le := by
    rw [Arena.length_layout]
    exact fits.1
  used_le := fits.2
  addressed := addressed

@[simp] theorem pairs_ofPairs (pairs : List (Bytes × Bytes)) (keyed : Keyed pairs)
    (fits : Fitting ENTRIES BYTES pairs) (addressed : BYTES ≤ u16Max) :
    (ofPairs pairs keyed fits addressed).pairs = pairs :=
  readPairs_layout pairs

/-- A map with the entries that grow in front of those that do not. -/
theorem exists_growing_first (headers other : FixedHeaders ENTRIES BYTES) :
    ∃ other' : FixedHeaders ENTRIES BYTES, other'.pairs.Perm other.pairs ∧
      ∃ grow rest, other'.pairs = grow ++ rest ∧ Keyed grow ∧
        (∀ e ∈ grow, sizeUnder headers.pairs e.1 ≤ e.1.length + e.2.length) ∧
        totalGrowth headers.pairs grow = totalGrowth headers.pairs other.pairs := by
  let grows : Bytes × Bytes → Bool := fun e =>
    decide (sizeUnder headers.pairs e.1 ≤ e.1.length + e.2.length)
  have hperm : (other.pairs.filter grows ++ other.pairs.filter fun e => !grows e).Perm other.pairs :=
    filter_append_perm grows other.pairs
  refine ⟨ofPairs _ (other.keyed.of_perm hperm.symm) ((fitting_of_perm hperm).mpr other.fitting)
    other.addressed, ?_, other.pairs.filter grows, other.pairs.filter fun e => !grows e, ?_,
    other.keyed.sublist filter_sublist, ?_, ?_⟩
  · rw [pairs_ofPairs]
    exact hperm
  · rw [pairs_ofPairs]
  · exact fun e he => of_decide_eq_true (mem_filter.mp he).2
  · exact totalGrowth_filter headers.pairs other.pairs

end FixedHeaders

/-- **When the merge does not depend on the order.** For every two maps: in every order of either, the
merge answers `Ok` exactly when the overlay fits, leaves the overlay if it does and the target as it was
if not; and this is so exactly when the overlay does not fit, or the target has room for all the growth
of the other map's entries at once. -/
theorem overwrite_with_iff (ENTRIES BYTES : ℕ) (headers other : FixedHeaders ENTRIES BYTES) :
    (∀ headers' other' : FixedHeaders ENTRIES BYTES, headers'.eq headers = true →
      other'.eq other = true →
        ((headers'.overwriteWith other').2 = .ok () ↔
          Fitting ENTRIES BYTES (overlay headers.pairs other.pairs)) ∧
        ((headers'.overwriteWith other').2 = .ok () →
          (headers'.overwriteWith other').1.pairs.Perm (overlay headers.pairs other.pairs)) ∧
        ((headers'.overwriteWith other').2 ≠ .ok () → (headers'.overwriteWith other').1 = headers')) ↔
      (Fitting ENTRIES BYTES (overlay headers.pairs other.pairs) →
        headers.used + totalGrowth headers.pairs other.pairs ≤ BYTES) := by
  constructor
  · intro hall hfit
    obtain ⟨other', hperm, grow, rest, hsplit, hkeyed, hgrow, htotal⟩ :=
      headers.exists_growing_first other
    obtain ⟨hanswer, -, -⟩ := hall headers other' ((headers.eq_iff_perm headers).mpr (.refl _))
      ((other'.eq_iff_perm other).mpr hperm)
    obtain ⟨merged, hmerged⟩ := FixedHeaders.exists_insertAll_of_ok (hanswer.mpr hfit)
    rw [hsplit] at hmerged
    -- the entries that grow are in before any other is looked at
    obtain ⟨grown, hgrown⟩ := FixedHeaders.insertAll_append_eq_ok hmerged
    rw [← htotal, ← FixedHeaders.used_insertAll_of_growing hkeyed hgrow hgrown]
    exact grown.used_le
  · intro hroom headers' other' hheaders hother
    have hheaders := (headers'.eq_iff_perm headers).mp hheaders
    have hother := (other'.eq_iff_perm other).mp hother
    have hoverlay := overlay_perm hheaders hother
    cases hmerged : headers'.insertAll other'.pairs with
    | ok merged =>
      rw [FixedHeaders.overwriteWith, hmerged]
      have hpairs := FixedHeaders.pairs_insertAll other'.keyed hmerged
      have hfit := merged.fitting
      rw [hpairs, fitting_of_perm hoverlay] at hfit
      exact ⟨⟨fun _ => hfit, fun _ => rfl⟩, fun _ => hpairs ▸ hoverlay, fun h => absurd rfl h⟩
    | error refusal =>
      rw [FixedHeaders.overwriteWith, hmerged]
      refine ⟨⟨fun h => (by cases h), fun hfit => ?_⟩, fun h => (by cases h), fun _ => rfl⟩
      have hcount := ((fitting_of_perm hoverlay).mpr hfit).1
      obtain ⟨merged, hmerged'⟩ := FixedHeaders.insertAll_of_room other'.keyed hcount
        (by
          rw [headers'.used_eq, length_bytes_perm hheaders, ← headers.used_eq,
            totalGrowth_perm hheaders hother]
          exact hroom hfit)
      rw [hmerged] at hmerged'
      cases hmerged'

/-- Two entries full to the last byte. A map that lengthens the one and shortens the other by as much is
refused when it lengthens first and accepted when it shortens first. -/
theorem overwrite_with_order : ∃ target growFirst shrinkFirst : FixedHeaders 2 6,
    target.pairs = [([97], [1, 1, 1]), ([98], [1])] ∧
    growFirst.pairs = [([98], [2, 2, 2]), ([97], [2])] ∧
    shrinkFirst.pairs = [([97], [2]), ([98], [2, 2, 2])] ∧
    growFirst.eq shrinkFirst = true ∧
    Fitting 2 6 (overlay target.pairs growFirst.pairs) ∧
    (target.overwriteWith growFirst).2 = .error .full ∧
    (target.overwriteWith shrinkFirst).2 = .ok () := by
  refine ⟨.ofPairs [([97], [1, 1, 1]), ([98], [1])] ⟨by decide, by decide⟩ (by decide) (by decide),
    .ofPairs [([98], [2, 2, 2]), ([97], [2])] ⟨by decide, by decide⟩ (by decide) (by decide),
    .ofPairs [([97], [2]), ([98], [2, 2, 2])] ⟨by decide, by decide⟩ (by decide) (by decide), ?_⟩
  refine ⟨by simp, by simp, by simp, by decide, by decide, by decide, by decide⟩

/-- **Both builds merge alike.** A fixed map that takes the merge holds what the heap map with the same entries holds after
it, and one that refuses it is as it was. -/
theorem overwrite_with_builds_agree {ENTRIES BYTES : ℕ} {headers other : HeaderMap}
    {fixed fixed' : FixedHeaders ENTRIES BYTES} (h : fixed.pairs.Perm headers.entries)
    (hother : fixed'.pairs.Perm other.entries) :
    ((fixed.overwriteWith fixed').2 = .ok () →
      (fixed.overwriteWith fixed').1.pairs.Perm (headers.overwriteWith other).entries) ∧
      ((fixed.overwriteWith fixed').2 ≠ .ok () → (fixed.overwriteWith fixed').1 = fixed) := by
  cases hmerged : fixed.insertAll fixed'.pairs with
  | ok merged =>
    rw [FixedHeaders.overwriteWith, hmerged]
    have hpairs := FixedHeaders.pairs_insertAll fixed'.keyed hmerged
    exact ⟨fun _ => hpairs ▸ (overlay_perm h hother).trans (headers.overwriteWith_perm other).symm,
      fun hrefused => absurd rfl hrefused⟩
  | error refusal =>
    rw [FixedHeaders.overwriteWith, hmerged]
    exact ⟨fun hok => (by cases hok), fun _ => rfl⟩

theorem overwrite_with_builds_agree_renewed : ∃ fixed fixed' : FixedHeaders 2 6,
    (fixed.overwriteWith fixed').1.pairs.Perm [([97], [2]), ([98], [3])] := by
  have hold : Keyed [(([97] : Bytes), ([1] : Bytes)), ([98], [3])] := ⟨by decide, by decide⟩
  have hnew : Keyed [(([97] : Bytes), ([2] : Bytes))] := ⟨by decide, by decide⟩
  refine ⟨.ofPairs _ hold (by decide) (by decide), .ofPairs _ hnew (by decide) (by decide), ?_⟩
  obtain ⟨hagree, -⟩ := @overwrite_with_builds_agree _ _ ⟨_, hold⟩ ⟨_, hnew⟩ _ _
    (.of_eq (FixedHeaders.pairs_ofPairs ..)) (.of_eq (FixedHeaders.pairs_ofPairs ..))
  exact hagree rfl

end RustStream
