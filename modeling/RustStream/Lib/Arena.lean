import Mathlib.Tactic

/-!
# Key and value pairs packed into one arena

A table of small entries over one contiguous arena: each entry records where its key starts and how
long the key and the value are, and the entries lie one after the other without gaps. `layout`
and `bytes` are the table and the arena that hold a given list of pairs; a table that is in this
form reads back exactly the pairs (`read_layout`), and taking one pair out moves the tail of both
down (`layout_eraseIdx`, `bytes_eraseIdx`).

## Main definitions

* `Arena.Entry`: the place of one pair in the arena.
* `Arena.layout`, `Arena.bytes`: the table and the arena of a list of pairs.

## Main results

* `Arena.read_layout`: reading every entry of a layout gives the pairs back.
* `Arena.layout_eraseIdx`, `Arena.bytes_eraseIdx`: the layout without one pair.
-/

namespace Arena

open List

variable {α : Type*}

/-- Where one pair lies: the key starts at `start`, the value follows it. -/
structure Entry where
  start : ℕ
  keyLen : ℕ
  valueLen : ℕ
  deriving DecidableEq, Repr

namespace Entry

/-- The length of the pair in the arena. -/
def size (e : Entry) : ℕ :=
  e.keyLen + e.valueLen

/-- The key of an entry. -/
def key (arena : List α) (e : Entry) : List α :=
  (arena.drop e.start).take e.keyLen

/-- The value of an entry. -/
def value (arena : List α) (e : Entry) : List α :=
  (arena.drop (e.start + e.keyLen)).take e.valueLen

/-- The entry after the bytes below it shrank by `n`. -/
def moveDown (n : ℕ) (e : Entry) : Entry :=
  { e with start := e.start - n }

end Entry

/-- The arena that holds the pairs one after the other. -/
def bytes (pairs : List (List α × List α)) : List α :=
  pairs.flatMap fun p => p.1 ++ p.2

/-- The table of the pairs when the first one starts at `start`. -/
def layout : ℕ → List (List α × List α) → List Entry
  | _, [] => []
  | start, (k, v) :: rest =>
    ⟨start, k.length, v.length⟩ :: layout (start + (k.length + v.length)) rest

/-! ## Lengths and concatenation -/

@[simp] theorem bytes_nil : bytes ([] : List (List α × List α)) = [] := rfl

@[simp] theorem bytes_cons (p : List α × List α) (pairs : List (List α × List α)) :
    bytes (p :: pairs) = p.1 ++ p.2 ++ bytes pairs := by
  simp [bytes]

@[simp] theorem bytes_append (ps qs : List (List α × List α)) :
    bytes (ps ++ qs) = bytes ps ++ bytes qs := by
  simp [bytes]

@[simp] theorem length_layout (start : ℕ) (pairs : List (List α × List α)) :
    (layout start pairs).length = pairs.length := by
  induction pairs generalizing start with
  | nil => rfl
  | cons p pairs ih => simp [layout, ih]

theorem layout_append (start : ℕ) (ps qs : List (List α × List α)) :
    layout start (ps ++ qs) = layout start ps ++ layout (start + (bytes ps).length) qs := by
  induction ps generalizing start with
  | nil => simp [layout]
  | cons p ps ih =>
    simp only [cons_append, layout, ih, bytes_cons, length_append]
    rw [show start + (p.1.length + p.2.length) + (bytes ps).length
      = start + (p.1.length + p.2.length + (bytes ps).length) by omega]

theorem map_moveDown_layout (start n : ℕ) (pairs : List (List α × List α)) :
    (layout (start + n) pairs).map (Entry.moveDown n) = layout start pairs := by
  induction pairs generalizing start with
  | nil => rfl
  | cons p pairs ih =>
    simp only [layout, map_cons, Entry.moveDown, Nat.add_sub_cancel]
    rw [show start + n + (p.1.length + p.2.length)
      = start + (p.1.length + p.2.length) + n by omega, ih]

/-! ## Reading -/

theorem key_append_left (before k rest : List α) (m : ℕ) :
    Entry.key (before ++ (k ++ rest)) ⟨before.length, k.length, m⟩ = k := by
  simp [Entry.key]

theorem value_append_left (before k v rest : List α) :
    Entry.value (before ++ (k ++ (v ++ rest))) ⟨before.length, k.length, v.length⟩ = v := by
  simp [Entry.value, ← drop_drop]

/-- A layout behind any bytes reads back the pairs it was made from. -/
theorem read_layout (before after : List α) (pairs : List (List α × List α)) :
    (layout before.length pairs).map
      (fun e => (e.key (before ++ bytes pairs ++ after), e.value (before ++ bytes pairs ++ after)))
      = pairs := by
  induction pairs generalizing before with
  | nil => rfl
  | cons p pairs ih =>
    obtain ⟨k, v⟩ := p
    have hbytes : before ++ bytes ((k, v) :: pairs) ++ after
        = before ++ (k ++ (v ++ (bytes pairs ++ after))) := by
      simp
    have hrest : before ++ bytes ((k, v) :: pairs) ++ after
        = (before ++ k ++ v) ++ bytes pairs ++ after := by
      simp
    have hlength : before.length + (k.length + v.length) = (before ++ k ++ v).length := by
      simp
    simp only [layout, map_cons]
    refine cons_eq_cons.mpr ⟨?_, ?_⟩
    · rw [hbytes, key_append_left, value_append_left]
    · rw [hlength, hrest]
      exact ih (before ++ k ++ v)

theorem key_take {arena : List α} {e : Entry} {n : ℕ} (h : e.start + e.size ≤ n) :
    e.key (arena.take n) = e.key arena := by
  have : e.keyLen ≤ e.size := Nat.le_add_right _ _
  rw [Entry.key, Entry.key, drop_take, take_take, min_eq_left (by omega)]

theorem value_take {arena : List α} {e : Entry} {n : ℕ} (h : e.start + e.size ≤ n) :
    e.value (arena.take n) = e.value arena := by
  have : e.size = e.keyLen + e.valueLen := rfl
  rw [Entry.value, Entry.value, drop_take, take_take, min_eq_left (by omega)]

/-! ## Where the entries lie -/

variable {pairs : List (List α × List α)}

/-- The entries of a layout lie behind its start and inside its bytes. -/
theorem layout_bounds {start : ℕ} {e : Entry} (h : e ∈ layout start pairs) :
    start ≤ e.start ∧ e.start + e.size ≤ start + (bytes pairs).length := by
  induction pairs generalizing start with
  | nil => cases h
  | cons p pairs ih =>
    rw [bytes_cons, length_append, length_append]
    rcases mem_cons.mp h with rfl | hrest
    · simp only [Entry.size]
      omega
    · have := ih hrest
      omega

/-- Each entry of a layout ends before the next ones start. -/
theorem layout_pairwise (start : ℕ) (pairs : List (List α × List α)) :
    (layout start pairs).Pairwise fun e e' => e.start + e.size ≤ e'.start := by
  induction pairs generalizing start with
  | nil => exact .nil
  | cons p pairs ih =>
    refine .cons (fun e he => ?_) (ih _)
    exact (layout_bounds he).1

/-- Every byte of a layout is one of an entry's. -/
theorem layout_covers {start j : ℕ} (hstart : start ≤ j) (hend : j < start + (bytes pairs).length) :
    ∃ e ∈ layout start pairs, e.start ≤ j ∧ j < e.start + e.size := by
  induction pairs generalizing start with
  | nil => simp at hend; omega
  | cons p pairs ih =>
    rw [bytes_cons, length_append, length_append] at hend
    by_cases hfirst : j < start + (p.1.length + p.2.length)
    · exact ⟨_, mem_cons_self, hstart, hfirst⟩
    · obtain ⟨e, he, hin⟩ := @ih (start + (p.1.length + p.2.length)) (by omega) (by omega)
      exact ⟨e, mem_cons_of_mem _ he, hin⟩

/-! ## Taking one pair out -/

theorem exists_split_of_lt {i : ℕ} (hi : i < pairs.length) :
    ∃ ps p qs, pairs = ps ++ p :: qs ∧ ps.length = i := by
  refine ⟨pairs.take i, pairs[i], pairs.drop (i + 1), ?_, by simp; omega⟩
  rw [← drop_eq_getElem_cons hi, take_append_drop]

theorem eraseIdx_split (ps qs : List (List α × List α)) (p : List α × List α) :
    (ps ++ p :: qs).eraseIdx ps.length = ps ++ qs := by
  rw [eraseIdx_append_of_length_le le_rfl]
  simp

/-- The entry of the `i`-th pair. -/
theorem getElem?_layout_split (ps qs : List (List α × List α)) (p : List α × List α) :
    (layout 0 (ps ++ p :: qs))[ps.length]? = some ⟨(bytes ps).length, p.1.length, p.2.length⟩ := by
  simp [layout_append, layout]

theorem exists_split_of_getElem? {i : ℕ} {entry : Entry} (h : (layout 0 pairs)[i]? = some entry) :
    ∃ ps p qs, pairs = ps ++ p :: qs ∧ ps.length = i ∧
      entry = ⟨(bytes ps).length, p.1.length, p.2.length⟩ := by
  obtain ⟨hi, -⟩ := List.getElem?_eq_some_iff.mp h
  obtain ⟨ps, p, qs, rfl, rfl⟩ := exists_split_of_lt (by simpa using hi)
  rw [getElem?_layout_split] at h
  exact ⟨ps, p, qs, rfl, rfl, (Option.some.inj h).symm⟩

/-- **Removal from the table.** Dropping the entry of one pair and moving the later ones down by
its size gives the layout without that pair. -/
theorem layout_eraseIdx {i : ℕ} {gone : Entry} (h : (layout 0 pairs)[i]? = some gone) :
    (layout 0 pairs).take i ++ ((layout 0 pairs).drop (i + 1)).map (Entry.moveDown gone.size)
      = layout 0 (pairs.eraseIdx i) := by
  obtain ⟨ps, p, qs, rfl, rfl, rfl⟩ := exists_split_of_getElem? h
  rw [eraseIdx_split]
  have htail := map_moveDown_layout (bytes ps).length (p.1.length + p.2.length) qs
  simp [layout_append, layout, Entry.size, drop_append, htail]

/-- **Removal from the arena.** Closing the gap of one pair gives the arena without that pair. -/
theorem bytes_eraseIdx {i : ℕ} {gone : Entry} (h : (layout 0 pairs)[i]? = some gone) :
    (bytes pairs).take gone.start ++ (bytes pairs).drop (gone.start + gone.size)
      = bytes (pairs.eraseIdx i) := by
  obtain ⟨ps, p, qs, rfl, rfl, rfl⟩ := exists_split_of_getElem? h
  rw [eraseIdx_split]
  simp [Entry.size, ← drop_drop]

end Arena
