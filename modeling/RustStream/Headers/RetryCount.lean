import RustStream.Lib.Decimal
import RustStream.Headers.Map
import RustStream.Headers.Fixed

/-!
# The retry-count header

A message carries its headers in the form the build selects, and the number of copies already made
of it under one of them, as a decimal numeral. A header that is absent, is no numeral or does not
fit 64 bits counts as zero. Each copy carries the count advanced by one; the addition is the plain
one of the integer type, so it wraps at its end.

## Main definitions

* `Build`, `Headers`: the two builds and the header map of each.
* `currentRetryCount`: the count a header set carries.
* `counted`: the headers of the next copy, when they fit.
* `CountFits`: when they do.

## Main results

* `currentRetryCount_counted`: the copy's count is the count plus one.
* `counted_isSome_iff`: the next count is refused only by the fixed header room.
-/

namespace RustStream

/-- The builds the crate compiles in: with an allocator or without. -/
inductive Build where
  | alloc
  | noAlloc
  deriving DecidableEq, Repr

/-- The entries a header map holds without an allocator. -/
def headerEntries : ℕ := 8

/-- The bytes the keys and values of a header map share without an allocator. -/
def headerBytes : ℕ := 256

theorem headerBytes_le : headerBytes ≤ u16Max := by
  decide

/-- The header map a message carries. -/
def Headers : Build → Type
  | .alloc => HeaderMap
  | .noAlloc => FixedHeaders headerEntries headerBytes

namespace Headers

/-- The empty header map. -/
def new : (b : Build) → Headers b
  | .alloc => HeaderMap.new
  | .noAlloc => FixedHeaders.new headerBytes_le

/-- The raw bytes of a header value. -/
def get : {b : Build} → Headers b → Bytes → Option Bytes
  | .alloc, headers, name => HeaderMap.get headers name
  | .noAlloc, headers, name => FixedHeaders.get headers name

/-- Inserts a header value; only the fixed map can refuse it. -/
def insert : {b : Build} → Headers b → Bytes → Bytes → Except HeadersFull (Headers b)
  | .alloc, headers, name, value => .ok (HeaderMap.insert headers name value)
  | .noAlloc, headers, name, value => FixedHeaders.insert headers name value

theorem get_insert_self {b : Build} {headers headers' : Headers b} {name value : Bytes}
    (h : headers.insert name value = .ok headers') : headers'.get name = some value := by
  cases b with
  | alloc =>
    cases h
    exact HeaderMap.get_insert_self headers name value
  | noAlloc => exact FixedHeaders.get_insert_self h

theorem get_congr {b : Build} (headers : Headers b) {name other : Bytes}
    (h : lowercase other = lowercase name) : headers.get other = headers.get name := by
  cases b with
  | alloc => exact lookup_congr h
  | noAlloc => exact FixedHeaders.get_congr headers h

theorem get_insert_of_ne {b : Build} {headers headers' : Headers b} {name value other : Bytes}
    (h : headers.insert name value = .ok headers') (hne : lowercase other ≠ lowercase name) :
    headers'.get other = headers.get other := by
  cases b with
  | alloc =>
    cases h
    exact HeaderMap.get_insert_of_ne headers value hne
  | noAlloc => exact FixedHeaders.get_insert_of_ne h hne

end Headers

/-! ## The count -/

/-- The bytes of an ASCII text. -/
def ascii (text : String) : Bytes :=
  text.toList.map fun c => UInt8.ofNat c.toNat

/-- The header that counts the copies made of a message. -/
def retryCountHeader : Bytes :=
  ascii "x-ruststream-retry-count"

/-- The end of a 64-bit count. -/
def u64Bound : ℕ := 2 ^ 64

/-- Below the end of the type the addition does not wrap. -/
theorem toNat_add_of_lt {m n : UInt64} (h : m.toNat + n.toNat < u64Bound) :
    (m + n).toNat = m.toNat + n.toNat := by
  rw [UInt64.toNat_add]
  exact Nat.mod_eq_of_lt h

/-- A 32-bit cap is far from the end of a 64-bit count. -/
theorem lt_u64Bound_of_le {cap : UInt32} {n : ℕ} (h : n ≤ cap.toNat) : n + 1 < u64Bound := by
  have hcap := cap.toNat_lt
  have hbound : u64Bound = 2 ^ 64 := rfl
  omega

/-- The count a header value carries, zero when it is no 64-bit numeral. A value that is not UTF-8
has a byte that is no digit, so reading it as text first would answer the same. -/
def countOf (value : Bytes) : UInt64 :=
  match Decimal.parse u64Bound value with
  | some n => UInt64.ofNat n
  | none => 0

variable {b : Build}

/-- Parses the current retry count, defaulting to zero when absent or malformed. -/
def currentRetryCount (headers : Headers b) : UInt64 :=
  match headers.get retryCountHeader with
  | some value => countOf value
  | none => 0

theorem currentRetryCount_congr {headers headers' : Headers b}
    (h : headers'.get retryCountHeader = headers.get retryCountHeader) :
    currentRetryCount headers' = currentRetryCount headers := by
  rw [currentRetryCount, h, currentRetryCount]

/-- The numeral of a count. -/
def countText (count : UInt64) : Bytes :=
  Decimal.render count.toNat

/-- The room for the digits of a count in a build without an allocator. -/
def digitRoom : ℕ := 20

/-- The delivery's headers with the retry count advanced: what the copy carries. Without an
allocator the count has to fit the fixed header room: `none` when it does not. -/
def counted (headers : Headers b) : Option (Headers b) :=
  let nextCount := currentRetryCount headers + 1
  if digitRoom < (countText nextCount).length then none
  else
    match headers.insert retryCountHeader (countText nextCount) with
    | .ok headers' => some headers'
    | .error _ => none

/-- Whether the next count fits the header map of the build: always on the heap, and within the
entries and bytes of the fixed map. -/
def CountFits : {b : Build} → Headers b → Prop
  | .alloc, _ => True
  | .noAlloc, headers =>
    FixedHeaders.Fits headers retryCountHeader
      (countText (currentRetryCount (b := .noAlloc) headers + 1))

instance (headers : Headers b) : Decidable (CountFits headers) :=
  match b, headers with
  | .alloc, _ => .isTrue trivial
  | .noAlloc, headers => @FixedHeaders.decidableFits headerEntries headerBytes headers _ _

theorem countOf_countText (count : UInt64) : countOf (countText count) = count := by
  have hlt : count.toNat < u64Bound := count.toNat_lt
  rw [countOf, countText, Decimal.parse_render hlt]
  exact UInt64.ofNat_toNat

/-- A 64-bit count has at most twenty digits, so the digit room never refuses one. -/
theorem length_countText_le (count : UInt64) : (countText count).length ≤ digitRoom := by
  refine (Decimal.length_render_le_iff (by decide)).mpr ?_
  exact lt_of_lt_of_le count.toNat_lt (by decide)

variable (headers : Headers b)

theorem counted_eq : counted headers =
      match headers.insert retryCountHeader (countText (currentRetryCount headers + 1)) with
      | .ok headers' => some headers' | .error _ => none := by
  rw [counted, if_neg (Nat.not_lt.mpr (length_countText_le _))]

theorem counted_eq_some_iff {headers headers' : Headers b} : counted headers = some headers' ↔
      headers.insert retryCountHeader (countText (currentRetryCount headers + 1)) = .ok headers' := by
  rw [counted_eq]
  cases headers.insert retryCountHeader (countText (currentRetryCount headers + 1)) with
  | ok headers'' => simp
  | error e => simp

/-- **The copy's count.** A copy carries the count of the delivery it was made from plus one, in
the arithmetic of the integer type. -/
theorem currentRetryCount_counted {headers headers' : Headers b}
    (h : counted headers = some headers') :
    currentRetryCount headers' = currentRetryCount headers + 1 := by
  have hget := Headers.get_insert_self (counted_eq_some_iff.mp h)
  rw [currentRetryCount, hget]
  exact countOf_countText _

theorem counted_isSome_iff : (counted headers).isSome ↔ CountFits headers := by
  rw [Option.isSome_iff_exists]
  simp only [counted_eq_some_iff]
  cases b with
  | alloc => exact ⟨fun _ => trivial, fun _ => ⟨_, rfl⟩⟩
  | noAlloc => exact FixedHeaders.insert_isOk_iff headers _ _

theorem counted_eq_none_iff : counted headers = none ↔ ¬CountFits headers := by
  rw [← counted_isSome_iff, Option.not_isSome_iff_eq_none]

end RustStream
