import RustStream.Lib.Run
import RustStream.Lib.Slice
import RustStream.Lib.Utf8
import RustStream.Headers.Fixed

/-!
# The arrays behind a fixed header map

The map of a build without an allocator as it lies in memory: a table of `ENTRIES` entries and an arena
of `BYTES` bytes, of which the first `count` and the first `used` are live and the rest is whatever an
earlier use left there. Removal moves the tails of both arrays down in place and corrects the offsets;
insertion writes behind what is live. Every operation answers `none` where the code would panic: a range
out of bounds, a subtraction below zero, a sum past 16 bits.

`Holds` says that the live parts are those of a `FixedHeaders`, which carries the agreement of its table
and its arena. The operations never panic on such arrays and keep to the map's own
(`insert_holds`, `remove_holds`), so what every sequence of operations leaves is compared with the heap
map there.

## Main definitions

* `HeaderBuffer`: the arrays with `removeAt`, `insert`, `remove`, `get` and `iter`.
* `HeaderBuffer.Holds`: the live parts are those of a `FixedHeaders`.
* `HeaderBuffer.Packed`: the entries are disjoint, in range, cover the bytes used and name none twice.
* `Stores`: the fixed store and the heap map side by side, the heap map following what is accepted.

## Main results

* `fixed_refines_heap`: after any sequence of operations both hold the same headers.
-/

namespace RustStream

open List

open Arena (Entry layout bytes)

/-- The bytes of a name. -/
def nameBytes (name : String) : Bytes :=
  Utf8.encode name.toList

/-- The arrays of a header map in fixed storage. -/
structure HeaderBuffer where
  entries : List Entry
  count : ℕ
  used : ℕ
  arena : Bytes

namespace HeaderBuffer

variable {ENTRIES BYTES : ℕ}

/-- The arrays of an empty map. -/
def new (ENTRIES BYTES : ℕ) : HeaderBuffer :=
  ⟨List.replicate ENTRIES ⟨0, 0, 0⟩, 0, 0, List.replicate BYTES 0⟩

/-- The entries in use. -/
def live (buffer : HeaderBuffer) : List Entry :=
  buffer.entries.take buffer.count

/-- Where the entry named `name` sits. -/
def position (buffer : HeaderBuffer) (name : Bytes) : Option ℕ :=
  buffer.live.findIdx? fun e => eqIgnoreAsciiCase (e.key buffer.arena) name

/-- The raw bytes of a header value, or `none` if the header is absent. -/
def get (buffer : HeaderBuffer) (name : Bytes) : Option Bytes :=
  (buffer.position name).bind fun index => buffer.entries[index]?.map (Entry.value buffer.arena)

/-- The name a key reads as: its bytes if they are a text, and nothing if not. -/
def keyText (key : Bytes) : Bytes :=
  ((Utf8.decode key).map Utf8.encode).getD []

/-- The headers in the order of the table. -/
def iter (buffer : HeaderBuffer) : List (Bytes × Bytes) :=
  buffer.live.map fun e => (keyText (e.key buffer.arena), e.value buffer.arena)

/-- A difference, undefined below zero. -/
def checkedSub (a b : ℕ) : Option ℕ :=
  if b ≤ a then some (a - b) else none

/-- The entry after the bytes below it shrank by the size of `gone`, a sum and a difference of 16-bit
numbers. -/
def shift (gone e : Entry) : Option Entry :=
  if gone.size ≤ u16Max then (checkedSub e.start gone.size).map fun start => { e with start := start }
  else none

/-- Takes the entry at `index` out and moves the tails of the table and the arena down. -/
def removeAt (buffer : HeaderBuffer) (index : ℕ) : Option HeaderBuffer := do
  let gone ← buffer.entries[index]?
  let arena ← Slice.copyWithin buffer.arena (gone.start + gone.size) buffer.used gone.start
  let used ← checkedSub buffer.used gone.size
  let entries ← Slice.copyWithin buffer.entries (index + 1) buffer.count index
  let count ← checkedSub buffer.count 1
  let moved ← ((entries.take count).drop index).mapM (shift gone)
  let entries ← Slice.write entries index moved
  return ⟨entries, count, used, arena⟩

/-- Writes the pair behind what is live. The entry's offset is checked to be 16-bit once the bytes
are written. -/
def append (ENTRIES : ℕ) (buffer : HeaderBuffer) (name value : Bytes) :
    Option (HeaderBuffer × Except HeadersFull Unit) := do
  let start := buffer.used
  let keyEnd := start + name.length
  let arena ← Slice.write buffer.arena start name
  let arena ← Slice.write arena start (lowercase ((arena.take keyEnd).drop start))
  let arena ← Slice.write arena keyEnd value
  if u16Max < start then
    return ({ buffer with arena := arena }, .error .full)
  else if buffer.count < ENTRIES then
    return (⟨buffer.entries.set buffer.count ⟨start, name.length, value.length⟩, buffer.count + 1,
      buffer.used + (name.length + value.length), arena⟩, .ok ())
  else none

/-- The size of the entry a name is stored under, or zero. -/
def freed (buffer : HeaderBuffer) : Option ℕ → Option ℕ
  | some index => buffer.entries[index]?.map Entry.size
  | none => some 0

/-- The arrays without the entry a name is stored under. -/
def clear (buffer : HeaderBuffer) : Option ℕ → Option HeaderBuffer
  | some index => buffer.removeAt index
  | none => some buffer

/-- Inserts a header value, replacing the value under that key if any. -/
def insert (ENTRIES BYTES : ℕ) (buffer : HeaderBuffer) (name value : Bytes) :
    Option (HeaderBuffer × Except HeadersFull Unit) :=
  let existing := buffer.position name
  let needed := name.length + value.length
  (buffer.freed existing).bind fun freed =>
    if u16Max < name.length ∨ u16Max < value.length then some (buffer, .error .full)
    else (checkedSub buffer.used freed).bind fun left =>
      if ¬(existing.isSome ∨ buffer.count < ENTRIES) ∨ BYTES < left + needed then
        some (buffer, .error .full)
      else (buffer.clear existing).bind fun cleared => cleared.append ENTRIES name value

/-- Removes a header by name, and answers whether it was there. -/
def remove (buffer : HeaderBuffer) (name : Bytes) : Option (HeaderBuffer × Bool) :=
  match buffer.position name with
  | some index => (buffer.removeAt index).map fun buffer => (buffer, true)
  | none => some (buffer, false)

/-- The entries lie in the bytes in use, one behind the other, and cover them; no two have the same
name. -/
structure Packed (ENTRIES BYTES : ℕ) (buffer : HeaderBuffer) : Prop where
  count_le : buffer.count ≤ ENTRIES
  used_le : buffer.used ≤ BYTES
  inRange : ∀ e ∈ buffer.live, e.start + e.size ≤ buffer.used
  disjoint : buffer.live.Pairwise fun e e' => e.start + e.size ≤ e'.start
  covers : ∀ j < buffer.used, ∃ e ∈ buffer.live, e.start ≤ j ∧ j < e.start + e.size
  names : (buffer.live.map fun e => lowercase (e.key buffer.arena)).Nodup

/-! ## The map the arrays hold -/

/-- The live parts of the arrays are the table and the arena of `headers`. -/
structure Holds (buffer : HeaderBuffer) (headers : FixedHeaders ENTRIES BYTES) : Prop where
  entries_length : buffer.entries.length = ENTRIES
  arena_length : buffer.arena.length = BYTES
  count_eq : buffer.count = headers.count
  used_eq : buffer.used = headers.used
  live_eq : buffer.live = headers.live
  arena_eq : buffer.arena.take buffer.used = headers.arena

theorem holds_new (addressed : BYTES ≤ u16Max) :
    (new ENTRIES BYTES).Holds (FixedHeaders.new addressed : FixedHeaders ENTRIES BYTES) :=
  ⟨length_replicate, length_replicate, rfl, rfl, rfl, rfl⟩

variable {buffer : HeaderBuffer} {headers : FixedHeaders ENTRIES BYTES}

section

variable (h : buffer.Holds headers)
include h

theorem Holds.size_le {e : Entry} (he : e ∈ headers.live) : e.start + e.size ≤ buffer.used := by
  rw [headers.live_eq] at he
  have := (Arena.layout_bounds he).2
  rw [h.used_eq, headers.used_eq]
  omega

theorem Holds.key_eq {e : Entry} (he : e ∈ headers.live) :
    e.key buffer.arena = e.key headers.arena := by
  rw [← h.arena_eq, Arena.key_take (h.size_le he)]

theorem Holds.value_eq {e : Entry} (he : e ∈ headers.live) :
    e.value buffer.arena = e.value headers.arena := by
  rw [← h.arena_eq, Arena.value_take (h.size_le he)]

theorem Holds.pairs_eq : readPairs buffer.live buffer.arena = headers.pairs := by
  rw [FixedHeaders.pairs, readPairs, readPairs, h.live_eq]
  refine map_congr_left fun e he => ?_
  rw [h.key_eq he, h.value_eq he]

theorem Holds.position_eq (name : Bytes) : buffer.position name = headers.position name := by
  rw [FixedHeaders.position_eq, ← h.pairs_eq, RustStream.position, readPairs, findIdx?_map]
  rfl

variable {index : ℕ}

/-- The entry at a live index, in the whole table and in the map's. -/
theorem Holds.getElem?_eq (hlt : index < headers.live.length) :
    buffer.entries[index]? = headers.live[index]? := by
  rw [← h.live_eq, live, getElem?_take_of_lt]
  rw [h.count_eq]
  exact hlt

theorem Holds.get_eq (name : Bytes) : buffer.get name = headers.get name := by
  rw [get, FixedHeaders.get, h.position_eq]
  cases hpos : headers.position name with
  | none => rfl
  | some index =>
    have hlt := headers.position_lt hpos
    simp only [Option.bind_some]
    rw [h.getElem?_eq hlt, getElem?_eq_getElem hlt, Option.map_some, Option.map_some,
      h.value_eq (getElem_mem hlt)]

/-- The arrays that hold a map are packed as it is. -/
theorem Holds.packed : buffer.Packed ENTRIES BYTES where
  count_le := by
    rw [h.count_eq]
    exact headers.count_le
  used_le := by
    rw [h.used_eq]
    exact headers.used_le
  inRange e he := by
    rw [h.live_eq] at he
    exact h.size_le he
  disjoint := by
    rw [h.live_eq, headers.live_eq]
    exact Arena.layout_pairwise 0 _
  covers j hj := by
    rw [h.used_eq, headers.used_eq] at hj
    rw [h.live_eq, headers.live_eq]
    exact Arena.layout_covers (Nat.zero_le j) (by omega)
  names := by
    have hkeys : (buffer.live.map fun e => lowercase (e.key buffer.arena))
        = headers.pairs.map Prod.fst := by
      rw [h.live_eq, FixedHeaders.pairs, readPairs, map_map]
      refine map_congr_left fun e he => ?_
      rw [h.key_eq he]
      exact headers.keyed.lower _ (mem_map_of_mem he)
    rw [hkeys]
    exact headers.keyed.nodup

end

/-! ## Removal -/

theorem shift_eq {gone e : Entry} (hgone : gone.size ≤ u16Max) (hle : gone.size ≤ e.start) :
    shift gone e = some (Entry.moveDown gone.size e) := by
  rw [shift, if_pos hgone, checkedSub, if_pos hle]
  rfl

/-- Moving every entry of a list down is defined when each starts behind what is gone. -/
theorem mapM_shift {gone : Entry} (hgone : gone.size ≤ u16Max) {es : List Entry}
    (hle : ∀ e ∈ es, gone.size ≤ e.start) :
    es.mapM (shift gone) = some (es.map (Entry.moveDown gone.size)) := by
  induction es with
  | nil => rfl
  | cons e es ih =>
    rw [mapM_cons, shift_eq hgone (hle e mem_cons_self),
      ih fun e' he' => hle e' (mem_cons_of_mem _ he')]
    rfl

/-- The entries behind the one at `index` start behind its bytes. -/
theorem size_le_start {gone e : Entry} (hgone : headers.live[index]? = some gone)
    (he : e ∈ headers.live.drop (index + 1)) : gone.start + gone.size ≤ e.start := by
  have hpairwise := Arena.layout_pairwise 0 headers.pairs
  rw [← headers.live_eq] at hpairwise
  obtain ⟨hlt, hget⟩ := List.getElem?_eq_some_iff.mp hgone
  have hsplit := pairwise_cons.mp
    ((drop_eq_getElem_cons hlt) ▸ hpairwise.sublist (drop_sublist index _))
  rw [← hget]
  exact hsplit.1 e he

section

variable (h : buffer.Holds headers)
include h

/-- The tail of the arena moves down over the bytes of an entry. -/
theorem Holds.closeGap {gone : Entry} (hgone : gone ∈ headers.live) :
    ∃ arena, Slice.copyWithin buffer.arena (gone.start + gone.size) buffer.used gone.start = some arena ∧
      arena.length = BYTES ∧
      arena.take (buffer.used - gone.size) = FixedHeaders.closeGap headers.arena gone := by
  have hend := h.size_le hgone
  have hused : buffer.used ≤ buffer.arena.length := by
    rw [h.arena_length]
    exact h.packed.used_le
  obtain ⟨arena, hcopy, hlength, htake⟩ :=
    Slice.copyWithin_down buffer.arena (Nat.le_add_right gone.start gone.size) hend hused
  refine ⟨arena, hcopy, hlength.trans h.arena_length, ?_⟩
  rw [show buffer.used - gone.size = gone.start + (buffer.used - (gone.start + gone.size)) by omega,
    htake, FixedHeaders.closeGap, ← h.arena_eq, take_take, min_eq_left (by omega)]

/-- The tail of the table moves down over an entry, and its offsets with it. -/
theorem Holds.closeTable {gone : Entry}
    (hgone : headers.live[index]? = some gone) : ∃ entries moved entries',
      Slice.copyWithin buffer.entries (index + 1) buffer.count index = some entries ∧
      ((entries.take (buffer.count - 1)).drop index).mapM (shift gone) = some moved ∧
      Slice.write entries index moved = some entries' ∧ entries'.length = ENTRIES ∧
      entries'.take (buffer.count - 1) = FixedHeaders.removeEntry headers.live gone index := by
  obtain ⟨hlt, hget⟩ := List.getElem?_eq_some_iff.mp hgone
  have hcount : buffer.count = headers.live.length := h.count_eq
  have hcount_le : buffer.count ≤ buffer.entries.length := by
    rw [h.entries_length]
    exact h.packed.count_le
  obtain ⟨entries, hcopy, hlength, htake⟩ :=
    Slice.copyWithin_down buffer.entries (Nat.le_succ index) (by omega) hcount_le
  rw [show index + (buffer.count - (index + 1)) = buffer.count - 1 by omega] at htake
  have hfront : (buffer.entries.take index).length = index := by
    rw [length_take]
    omega
  have hlive : buffer.entries.take index = headers.live.take index := by
    rw [← h.live_eq, live, take_take, min_eq_left (by omega)]
  have htail : (entries.take (buffer.count - 1)).drop index = headers.live.drop (index + 1) := by
    rw [htake, drop_left' hfront, ← h.live_eq]
    rfl
  have hsize : gone.size ≤ u16Max := by
    have := h.size_le (mem_of_getElem? hgone)
    have := h.packed.used_le
    have := headers.addressed
    omega
  have hmoved : ((headers.live.drop (index + 1)).map (Entry.moveDown gone.size)).length
      = buffer.count - 1 - index := by
    rw [length_map, length_drop]
    omega
  have hroom : index + ((headers.live.drop (index + 1)).map (Entry.moveDown gone.size)).length
      ≤ entries.length := by
    omega
  obtain ⟨entries', hwrite, hlength', htake'⟩ := Slice.write_at entries index _ hroom
  refine ⟨entries, _, entries', hcopy, ?_, hwrite, ?_, ?_⟩
  · rw [htail]
    refine mapM_shift hsize fun e he => ?_
    have := size_le_start hgone he
    omega
  · rw [hlength', hlength, h.entries_length]
  · have hkept : entries.take index = headers.live.take index := by
      rw [← hlive, ← take_left' hfront, ← htake, take_take, min_eq_left (by omega)]
    rw [show buffer.count - 1 = index + (buffer.count - 1 - index) by omega, ← hmoved, htake', hkept]
    rfl

/-- **Removal.** Taking a live entry out never panics, and leaves what the map's own removal does. -/
theorem removeAt_holds (hlt : index < headers.live.length) :
    ∃ buffer', buffer.removeAt index = some buffer' ∧ buffer'.Holds (headers.removeAt index) := by
  have hgone := getElem?_eq_getElem hlt
  obtain ⟨hlive, hbytes⟩ := headers.removeAt_eq hgone
  obtain ⟨arena, hcopy, harena, harena_take⟩ := h.closeGap (mem_of_getElem? hgone)
  obtain ⟨entries, moved, entries', hentries, hmoved, hwrite, hlength, htake⟩ := h.closeTable hgone
  have hused : headers.live[index].size ≤ buffer.used := by
    have := h.size_le (mem_of_getElem? hgone)
    omega
  have hcount : buffer.count = headers.live.length := h.count_eq
  refine ⟨⟨entries', buffer.count - 1, buffer.used - headers.live[index].size, arena⟩, ?_, hlength,
    harena, ?_, ?_, ?_, ?_⟩
  · rw [removeAt, h.getElem?_eq hlt, hgone]
    simp only [Option.bind_eq_bind, Option.bind_some, hcopy, checkedSub, if_pos hused, hentries,
      if_pos (show 1 ≤ buffer.count by omega), hmoved, hwrite, Option.pure_def]
  · change buffer.count - 1 = _
    rw [FixedHeaders.count, hlive, ← htake, length_take, min_eq_left]
    have := h.packed.count_le
    omega
  · rw [(headers.used_removeAt hgone).1, h.used_eq]
  · exact htake.trans hlive.symm
  · exact harena_take.trans hbytes.symm

theorem Holds.clear (name : Bytes) : ∃ buffer', buffer.clear (buffer.position name) = some buffer' ∧
      buffer'.Holds (headers.cleared name) := by
  rw [h.position_eq, FixedHeaders.cleared]
  cases hpos : headers.position name with
  | none => exact ⟨buffer, rfl, h⟩
  | some index => exact removeAt_holds h (headers.position_lt hpos)

theorem remove_holds (name : Bytes) :
    ∃ buffer', buffer.remove name = some (buffer', (headers.remove name).2) ∧
      buffer'.Holds (headers.remove name).1 := by
  obtain ⟨buffer', hclear, hholds⟩ := h.clear name
  refine ⟨buffer', ?_, hholds⟩
  rw [remove, FixedHeaders.remove, ← h.position_eq]
  cases hpos : buffer.position name with
  | none =>
    rw [hpos] at hclear
    cases hclear
    rfl
  | some index =>
    rw [hpos] at hclear
    change (buffer.removeAt index).map _ = _
    rw [show buffer.removeAt index = some buffer' from hclear]
    rfl

/-! ## Insertion -/

/-- **Appending.** A pair that has a slot and room is written behind what is live. -/
theorem append_holds {name value : Bytes} (hslot : headers.count < ENTRIES)
    (hroom : headers.used + (name.length + value.length) ≤ BYTES)
    {headers' : FixedHeaders ENTRIES BYTES}
    (hlive : headers'.live = headers.live ++ [⟨headers.used, name.length, value.length⟩])
    (harena : headers'.arena = headers.arena ++ (lowercase name ++ value)) :
    ∃ buffer', buffer.append ENTRIES name value = some (buffer', .ok ()) ∧ buffer'.Holds headers' := by
  have hused := h.used_eq
  have hcount := h.count_eq
  have hlength := h.arena_length
  have hlower := length_lowercase name
  -- the key is written as it came and lowercased in place, the value behind it
  obtain ⟨named, hnamed, hnamed_length, hnamed_take⟩ :=
    Slice.write_at buffer.arena buffer.used name (by omega)
  have hkey : (named.take (buffer.used + name.length)).drop buffer.used = name := by
    rw [hnamed_take, drop_left']
    rw [length_take, min_eq_left (by omega)]
  obtain ⟨lowered, hlowered, hlowered_length, hlowered_take⟩ :=
    Slice.write_at named buffer.used (lowercase name) (by omega)
  obtain ⟨arena, hwritten, harena_length, harena_take⟩ :=
    Slice.write_at lowered (buffer.used + name.length) value (by omega)
  have hfront : named.take buffer.used = buffer.arena.take buffer.used := by
    have := congrArg (List.take buffer.used) hnamed_take
    rwa [take_take, min_eq_left (Nat.le_add_right _ _), take_left'] at this
    rw [length_take, min_eq_left (by omega)]
  rw [hlower] at hlowered_take
  have hslot' : buffer.count < buffer.entries.length := by
    rw [h.entries_length]
    omega
  have haddressed : ¬u16Max < buffer.used := by
    have := headers.addressed
    omega
  refine ⟨⟨buffer.entries.set buffer.count ⟨buffer.used, name.length, value.length⟩, buffer.count + 1,
    buffer.used + (name.length + value.length), arena⟩, ?_, (length_set ..).trans h.entries_length,
    ?_, ?_, ?_, ?_, ?_⟩
  · rw [append]
    simp only [Option.bind_eq_bind, hnamed, Option.bind_some, hkey, hlowered, hwritten,
      if_neg haddressed, if_pos (show buffer.count < ENTRIES by omega), Option.pure_def]
  · exact harena_length.trans (hlowered_length.trans (hnamed_length.trans hlength))
  · change buffer.count + 1 = _
    rw [FixedHeaders.count, hlive, length_append, hcount]
    rfl
  · change buffer.used + (name.length + value.length) = _
    rw [FixedHeaders.used, harena, length_append, length_append, hlower, hused]
    rfl
  · change (buffer.entries.set buffer.count _).take (buffer.count + 1) = _
    rw [Slice.take_set hslot', hlive, hused, ← h.live_eq]
    rfl
  · change arena.take (buffer.used + (name.length + value.length)) = _
    rw [← Nat.add_assoc, harena_take, hlowered_take, hfront, h.arena_eq, harena, append_assoc]

theorem Holds.freed_eq (name : Bytes) :
    buffer.freed (buffer.position name) = some (headers.freed name) ∧
      headers.freed name ≤ headers.used := by
  rw [h.position_eq, FixedHeaders.freed]
  cases hpos : headers.position name with
  | none => exact ⟨rfl, Nat.zero_le _⟩
  | some index =>
    have hlt := headers.position_lt hpos
    have hgone := getElem?_eq_getElem hlt
    have hsize := (headers.used_removeAt hgone).2
    simp only [hgone, Option.map_some, Option.getD_some]
    refine ⟨?_, hsize⟩
    rw [freed, h.getElem?_eq hlt, hgone]
    rfl

/-- **Insertion.** An insert never panics; it is accepted or refused as the map's own is, and a refused
one leaves the arrays as they were. -/
theorem insert_holds (name value : Bytes) :
    (∃ buffer' headers', headers.insert name value = .ok headers' ∧
        buffer.insert ENTRIES BYTES name value = some (buffer', .ok ()) ∧ buffer'.Holds headers') ∨
      (headers.insert name value = .error .full ∧
        buffer.insert ENTRIES BYTES name value = some (buffer, .error .full)) := by
  obtain ⟨hfreed, hfreed_le⟩ := h.freed_eq name
  have hsub : checkedSub buffer.used (headers.freed name) = some (headers.used - headers.freed name) := by
    rw [h.used_eq, checkedSub, if_pos hfreed_le]
  have hposition := h.position_eq name
  have hcount := h.count_eq
  by_cases hfits : headers.Fits name value
  · obtain ⟨headers', hinsert, hlive, harena⟩ := headers.insert_of_fits hfits
    obtain ⟨⟨hname, hvalue⟩, hslot, hroom⟩ := hfits
    obtain ⟨cleared, hclear, hcleared⟩ := h.clear name
    rw [length_lowercase] at hlive
    obtain ⟨buffer', happend, hholds⟩ := append_holds hcleared (headers.count_cleared_lt name hslot)
      (by rw [headers.used_cleared]; exact hroom) hlive harena
    refine .inl ⟨buffer', headers', hinsert, ?_, hholds⟩
    rw [insert]
    rw [hfreed, Option.bind_some, if_neg (by omega), hsub, Option.bind_some, if_neg, hclear,
      Option.bind_some, happend]
    rw [hposition, hcount]
    rintro (hnone | hover)
    · exact hnone hslot
    · omega
  · refine .inr ⟨headers.insert_of_not_fits hfits, ?_⟩
    rw [insert]
    rw [hfreed, Option.bind_some]
    by_cases hlong : u16Max < name.length ∨ u16Max < value.length
    · rw [if_pos hlong]
    · rw [if_neg hlong, hsub, Option.bind_some, if_pos]
      rw [hposition, hcount]
      rw [FixedHeaders.Fits] at hfits
      by_contra hpass
      refine hfits ⟨⟨by omega, by omega⟩, ?_, by omega⟩
      by_contra hslot
      exact hpass (.inl hslot)

end

end HeaderBuffer

/-! ## Names as texts -/

/-- The ASCII lowercase form of a character. -/
def lowerChar (c : Char) : Char :=
  if 65 ≤ c.val.toNat ∧ c.val.toNat ≤ 90 then Char.ofNat (c.val.toNat + 32) else c

/-- The lowercase form of a text's bytes is a text's. -/
theorem lowercase_encode (text : List Char) :
    lowercase (Utf8.encode text) = Utf8.encode (text.map lowerChar) := by
  refine Utf8.map_encode (f := toAsciiLowercase) (g := lowerChar) (fun b hb => if_neg (by omega))
    (fun c hc => ?_) (fun c hc => if_neg (by omega)) text
  have hcode : (UInt8.ofNat c.val.toNat).toNat = c.val.toNat := by
    rw [UInt8.toNat_ofNat']
    omega
  by_cases hupper : 65 ≤ c.val.toNat ∧ c.val.toNat ≤ 90
  · have hval : (Char.ofNat (c.val.toNat + 32)).val.toNat = c.val.toNat + 32 := by
      have hvalid : (c.val.toNat + 32).isValidChar := .inl (by omega)
      rw [Char.ofNat, dif_pos hvalid]
      rfl
    rw [lowerChar, if_pos hupper, toAsciiLowercase, hcode, if_pos hupper, String.utf8EncodeChar, hval]
    exact if_pos (by omega)
  · rw [lowerChar, if_neg hupper, toAsciiLowercase, hcode, if_neg hupper, String.utf8EncodeChar]
    exact if_pos hc

/-- The key a name is stored under is a text. -/
theorem exists_lowercase_nameBytes (name : String) :
    ∃ text, lowercase (nameBytes name) = Utf8.encode text :=
  ⟨_, lowercase_encode name.toList⟩

theorem keyText_encode (text : List Char) :
    HeaderBuffer.keyText (Utf8.encode text) = Utf8.encode text := by
  rw [HeaderBuffer.keyText, Utf8.decode_encode]
  rfl

/-! ## Both stores side by side -/

/-- An operation on a header map. -/
inductive HeaderOp where
  | insert (name : String) (value : Bytes)
  | remove (name : String)

/-- The fixed store and the heap map. -/
structure Stores where
  fixed : HeaderBuffer
  heap : HeaderMap

namespace Stores

variable {ENTRIES BYTES : ℕ}

/-- Both stores empty. -/
def new (ENTRIES BYTES : ℕ) : Stores :=
  ⟨.new ENTRIES BYTES, .new⟩

/-- The fixed store takes the operation, and the heap map takes it if the fixed store accepted it. -/
def step (ENTRIES BYTES : ℕ) (s : Stores) : HeaderOp → Option Stores
  | .insert name value =>
    (s.fixed.insert ENTRIES BYTES (nameBytes name) value).map fun r =>
      ⟨r.1, if r.2.toBool then s.heap.insert (nameBytes name) value else s.heap⟩
  | .remove name =>
    (s.fixed.remove (nameBytes name)).map fun r => ⟨r.1, (s.heap.remove (nameBytes name)).1⟩

/-- The arrays hold a map with the headers of the heap map, under names that are texts. -/
def Alike (ENTRIES BYTES : ℕ) (s : Stores) : Prop :=
  ∃ headers : FixedHeaders ENTRIES BYTES, s.fixed.Holds headers ∧ headers.pairs.Perm s.heap.entries ∧
    ∀ e ∈ headers.pairs, ∃ text, e.1 = Utf8.encode text

theorem alike_new (addressed : BYTES ≤ u16Max) : (new ENTRIES BYTES).Alike ENTRIES BYTES :=
  ⟨.new addressed, HeaderBuffer.holds_new addressed, .refl _, fun _ h => (not_mem_nil h).elim⟩

variable {s : Stores}

section

variable (h : s.Alike ENTRIES BYTES)
include h

theorem Alike.insert (name : String) (value : Bytes) :
    ∃ s', s.step ENTRIES BYTES (.insert name value) = some s' ∧ s'.Alike ENTRIES BYTES := by
  obtain ⟨headers, hholds, hperm, hnames⟩ := h
  rcases HeaderBuffer.insert_holds hholds (nameBytes name) value with
    ⟨buffer, headers', hinsert, haccepted, hholds'⟩ | ⟨-, hrefused⟩
  · refine ⟨⟨buffer, s.heap.insert (nameBytes name) value⟩, ?_, headers', hholds', ?_, ?_⟩
    · rw [step, haccepted]
      rfl
    · rw [FixedHeaders.pairs_insert hinsert]
      exact ((hperm.filter _).append_right _).trans
        (HeaderMap.insertEntries_perm s.heap.keyed (nameBytes name) value).symm
    · intro e he
      rw [FixedHeaders.pairs_insert hinsert] at he
      rcases mem_append.mp he with hold | hnew
      · exact hnames e (mem_filter.mp hold).1
      · rw [mem_singleton.mp hnew]
        exact exists_lowercase_nameBytes name
  · refine ⟨s, ?_, headers, hholds, hperm, hnames⟩
    rw [step, hrefused]
    rfl

theorem Alike.remove (name : String) :
    ∃ s', s.step ENTRIES BYTES (.remove name) = some s' ∧ s'.Alike ENTRIES BYTES := by
  obtain ⟨headers, hholds, hperm, hnames⟩ := h
  obtain ⟨buffer, hremove, hholds'⟩ := HeaderBuffer.remove_holds hholds (nameBytes name)
  refine ⟨⟨buffer, (s.heap.remove (nameBytes name)).1⟩, ?_, _, hholds', ?_, ?_⟩
  · rw [step, hremove]
    rfl
  · change List.Perm (headers.cleared (nameBytes name)).pairs
      (HeaderMap.removeEntries s.heap.entries (nameBytes name))
    rw [FixedHeaders.pairs_cleared, HeaderMap.removeEntries_eq s.heap.keyed]
    exact hperm.filter _
  · intro e he
    rw [FixedHeaders.remove, FixedHeaders.pairs_cleared] at he
    exact hnames e (mem_filter.mp he).1

/-- Every sequence of operations runs to its end. -/
theorem Alike.exec (ops : List HeaderOp) :
    ∃ s', Run.exec (step ENTRIES BYTES) s ops = some s' ∧ s'.Alike ENTRIES BYTES := by
  induction ops generalizing s with
  | nil => exact ⟨s, rfl, h⟩
  | cons op ops ih =>
    have hstep : ∃ s₁, s.step ENTRIES BYTES op = some s₁ ∧ s₁.Alike ENTRIES BYTES := by
      cases op with
      | insert name value => exact h.insert name value
      | remove name => exact h.remove name
    obtain ⟨s₁, hs₁, hnext⟩ := hstep
    rw [Run.exec_cons_of_step hs₁]
    exact ih hnext

theorem Alike.get_eq (name : Bytes) : s.fixed.get name = s.heap.get name := by
  obtain ⟨headers, hholds, hperm, -⟩ := h
  rw [hholds.get_eq, headers.get_eq]
  exact headers.keyed.lookup_eq_of_perm s.heap.keyed hperm name

theorem Alike.iter_perm : s.fixed.iter.Perm s.heap.entries := by
  obtain ⟨headers, hholds, hperm, hnames⟩ := h
  have hiter : s.fixed.iter = headers.pairs := by
    have hmap : s.fixed.iter = (readPairs s.fixed.live s.fixed.arena).map
        fun p => (HeaderBuffer.keyText p.1, p.2) := by
      rw [readPairs, map_map]
      rfl
    rw [hmap, hholds.pairs_eq]
    conv_rhs => rw [← map_id headers.pairs]
    refine map_congr_left fun p hp => ?_
    obtain ⟨text, htext⟩ := hnames p hp
    rw [htext, keyText_encode, ← htext]
    rfl
  rw [hiter]
  exact hperm

/-- An insert is refused exactly when the headers it would leave on the heap do not fit. -/
theorem Alike.refused_iff (name value : Bytes) :
    ∃ fixed answer, s.fixed.insert ENTRIES BYTES name value = some (fixed, answer) ∧
      (answer = .error .full ↔ ¬Fitting ENTRIES BYTES (s.heap.insert name value).entries) ∧
      (answer = .error .full → fixed = s.fixed) := by
  obtain ⟨headers, hholds, hperm, -⟩ := h
  have hfits : Fitting ENTRIES BYTES (s.heap.insert name value).entries ↔ headers.Fits name value := by
    rw [headers.fits_iff]
    exact fitting_of_perm ((HeaderMap.insertEntries_perm s.heap.keyed name value).trans
      ((hperm.filter _).append_right _).symm)
  rw [hfits]
  rcases HeaderBuffer.insert_holds hholds name value with
    ⟨buffer, headers', hinsert, haccepted, -⟩ | ⟨hfull, hrefused⟩
  · have := (headers.insert_isOk_iff name value).mp ⟨headers', hinsert⟩
    refine ⟨buffer, .ok (), haccepted, ⟨fun h => ?_, fun h => absurd this h⟩, fun h => ?_⟩ <;> cases h
  · refine ⟨s.fixed, .error .full, hrefused, ⟨fun _ hfit => ?_, fun _ => rfl⟩, fun _ => rfl⟩
    obtain ⟨headers', hinsert⟩ := (headers.insert_isOk_iff name value).mpr hfit
    rw [hfull] at hinsert
    cases hinsert

end

end Stores

/-- **The fixed store refines the heap one.** Any sequence of inserts and removals runs without a panic.
Afterwards both stores answer every name alike and iterate over the same headers up to order; the
fixed store's entries lie in the bytes in use, disjoint, covering them and under distinct names; and the
next insert is refused exactly when the headers it would leave do not fit, and then changes nothing. -/
theorem fixed_refines_heap (ENTRIES BYTES : ℕ) (addressed : BYTES ≤ u16Max) (ops : List HeaderOp) :
    ∃ s, Run.exec (Stores.step ENTRIES BYTES) (.new ENTRIES BYTES) ops = some s ∧
      (∀ name, s.fixed.get name = s.heap.get name) ∧
      s.fixed.iter.Perm s.heap.entries ∧
      s.fixed.Packed ENTRIES BYTES ∧
      ∀ name value, ∃ fixed answer, s.fixed.insert ENTRIES BYTES name value = some (fixed, answer) ∧
        (answer = .error .full ↔ ¬Fitting ENTRIES BYTES (s.heap.insert name value).entries) ∧
        (answer = .error .full → fixed = s.fixed) := by
  obtain ⟨s, hexec, halike⟩ := (@Stores.alike_new ENTRIES BYTES addressed).exec ops
  obtain ⟨headers, hholds, -⟩ := id halike
  exact ⟨s, hexec, halike.get_eq, halike.iter_perm, hholds.packed, halike.refused_iff⟩

theorem fixed_refines_heap_twoEntries :
    ∃ s, Run.exec (Stores.step 2 16) (.new 2 16)
        [.insert "A" [1], .insert "b" [2, 3], .insert "a" [4, 5], .insert "c" [], .remove "B"] = some s ∧
      s.fixed.iter.Perm s.heap.entries := by
  obtain ⟨s, hexec, -, hiter, -⟩ := fixed_refines_heap 2 16 (by decide)
    [.insert "A" [1], .insert "b" [2, 3], .insert "a" [4, 5], .insert "c" [], .remove "B"]
  exact ⟨s, hexec, hiter⟩

end RustStream
