import RustStream.Lib.Utf8
import RustStream.Headers.Buffer
import RustStream.Headers.RetryCount

/-!
# Typed headers

A flat struct travels as headers: one entry per field, under the field's name, with the value as text.
Writing asks each field for its scalar and inserts it; a field that is `None` inserts nothing. Reading
walks the declared fields, looks up each name and reads what is there by what the field expects; a field
whose header is absent is `None` if it may be, and an error if not.

The types a field may have are a universe of their own (`Kind`, `FieldKind`), and a struct is a list of
named fields (`Contract`), so that one definition serves every struct. The serializer and the
deserializer are the two halves of the crate's serde forms on these types, with what serde derives in
between: a value calls the method of its type, a visitor accepts what that method hands it, and the
struct's visitor keeps one slot for each field.

## Main definitions

* `Kind`, `FieldKind`, `Contract`: the types of fields and structs, and their values.
* `Kind.serialize`, `insertTyped`: writing a value, and a struct.
* `Kind.deserialize`, `toTyped`: reading a value, and a struct.

## Main results

* `Kind.deserialize_display`: a scalar is read back as itself.
* `typed_headers_round_trip`: so is a struct, and other headers are left alone.
-/

namespace RustStream

open List

/-! ## Scalars -/

/-- The integer types a field may have. -/
inductive IntType where
  | i8 | i16 | i32 | i64 | i128 | u8 | u16 | u32 | u64 | u128
  deriving DecidableEq, Repr

namespace IntType

/-- Whether the type has a sign. -/
def signed : IntType → Bool
  | i8 | i16 | i32 | i64 | i128 => true
  | u8 | u16 | u32 | u64 | u128 => false

/-- The bits of the magnitude. -/
def bits : IntType → ℕ
  | i8 => 7
  | i16 => 15
  | i32 => 31
  | i64 => 63
  | i128 => 127
  | u8 => 8
  | u16 => 16
  | u32 => 32
  | u64 => 64
  | u128 => 128

/-- The name of the type, as a parse error gives it. -/
def name : IntType → String
  | i8 => "i8"
  | i16 => "i16"
  | i32 => "i32"
  | i64 => "i64"
  | i128 => "i128"
  | u8 => "u8"
  | u16 => "u16"
  | u32 => "u32"
  | u64 => "u64"
  | u128 => "u128"

/-- An integer in the range of the type. -/
def InRange (ty : IntType) (n : ℤ) : Prop :=
  (n < 0 → ty.signed = true ∧ n.natAbs ≤ 2 ^ ty.bits) ∧ (0 ≤ n → n.natAbs < 2 ^ ty.bits)

instance decidableInRange (ty : IntType) (n : ℤ) : Decidable (ty.InRange n) :=
  inferInstanceAs (Decidable (_ ∧ _))

/-- The integer a text denotes. -/
def fromStr (ty : IntType) (text : Bytes) : Option ℤ :=
  Decimal.parseInt ty.signed (2 ^ ty.bits + 1) (2 ^ ty.bits) text

end IntType

/-- The types of a header value. -/
inductive Kind where
  | bool
  | int (ty : IntType)
  | char
  | string
  | bytes
  | unitEnum (variants : List String) (distinct : variants.Nodup)
  | newtype (inner : Kind)

/-- The value of a struct with one field and no name for it. -/
structure Newtype (α : Type) where
  inner : α

/-- The values of a type. -/
def Kind.Val : Kind → Type
  | .bool => Bool
  | .int ty => { n : ℤ // ty.InRange n }
  | .char => Char
  | .string => String
  | .bytes => Bytes
  | .unitEnum variants _ => Fin variants.length
  | .newtype inner => Newtype inner.Val

/-! ## What differs between the builds -/

/-- The room of an error text without an allocator. -/
def textRoom : ℕ := 32

/-- The room of one field value without an allocator. -/
def scalarRoom : ℕ := 64

/-- The characters that fit the room, up to the first that does not. -/
def cut : ℕ → List Char → List Char
  | _, [] => []
  | room, c :: rest =>
    if (String.utf8EncodeChar c).length ≤ room then
      c :: cut (room - (String.utf8EncodeChar c).length) rest
    else []

/-- The text an error carries. -/
def errorText : Build → List Char → List Char
  | .alloc, text => text
  | .noAlloc, text => cut textRoom text

/-- The failures of writing a struct of scalars: the header map has no room for an entry, or a value is
longer than a field value may be. -/
inductive SerializeHeadersError where
  | full
  deriving DecidableEq, Repr

/-- The failures of reading a struct. -/
inductive DeserializeHeadersError where
  | notUtf8 (header : List Char)
  | parse (header : List Char) (expected : String) (value : List Char)
  -- what serde reports of itself
  | missingField (field : String)
  | duplicateField (field : String)
  | unknownVariant (variant : List Char)
  deriving DecidableEq, Repr

/-- The scalar a run of bytes becomes: without an allocator a longer one than the room is refused. A text
that is written piece by piece is refused exactly when the whole is too long. -/
def scalar : Build → Bytes → Except SerializeHeadersError Bytes
  | .alloc, run => .ok run
  | .noAlloc, run => if run.length ≤ scalarRoom then .ok run else .error .full

theorem eq_of_scalar {b : Build} {run value : Bytes} (h : scalar b run = .ok value) : value = run := by
  cases b with
  | alloc =>
    cases h
    rfl
  | noAlloc =>
    rw [scalar] at h
    split_ifs at h
    cases h
    rfl

/-- Inserts a field's value into the header map of the build. -/
def putStatic (b : Build) (headers : Headers b) (key : String) (value : Bytes) :
    Except SerializeHeadersError (Headers b) :=
  (headers.insert (nameBytes key) value).mapError fun _ => .full

/-! ## One value -/

/-- The display form of a truth value. -/
def boolText (v : Bool) : Bytes :=
  if v then nameBytes "true" else nameBytes "false"

/-- The bytes a value is written as: its display form, its text, its bytes, or its variant's name. -/
def Kind.display : (kind : Kind) → kind.Val → Bytes
  | .bool, v => boolText v
  | .int _, v => Decimal.renderInt v.1
  | .char, v => Utf8.encode [v]
  | .string, v => nameBytes v
  | .bytes, v => v
  | .unitEnum variants _, v => nameBytes (variants.get v)
  | .newtype inner, v => inner.display v.inner

/-- Writes one value. -/
def Kind.serialize (b : Build) (kind : Kind) (v : kind.Val) : Except SerializeHeadersError Bytes :=
  scalar b (kind.display v)

/-- One header value, to be read by what the field asks for. -/
structure ValueDeserializer where
  header : String
  raw : Bytes

namespace ValueDeserializer

/-- The value as a text. -/
def utf8 (b : Build) (de : ValueDeserializer) : Except DeserializeHeadersError (List Char) :=
  match Utf8.decode de.raw with
  | some text => .ok text
  | none => .error (.notUtf8 (errorText b de.header.toList))

/-- The value read by a type's own parser. -/
def parse {α : Type} (b : Build) (expected : String) (fromStr : List Char → Option α)
    (de : ValueDeserializer) : Except DeserializeHeadersError α :=
  match de.utf8 b with
  | .error refusal => .error refusal
  | .ok text =>
    match fromStr text with
    | some v => .ok v
    | none => .error (.parse (errorText b de.header.toList) expected (errorText b text))

end ValueDeserializer

/-- The truth value of a text. -/
def boolFromStr (text : List Char) : Option Bool :=
  if text = "true".toList then some true
  else if text = "false".toList then some false
  else none

/-- The one character of a text. -/
def charFromStr : List Char → Option Char
  | [c] => some c
  | _ => none

/-- An integer a text denotes, with its range, which the parser keeps to. -/
def intFromStr (ty : IntType) (text : List Char) : Option { n : ℤ // ty.InRange n } :=
  match ty.fromStr (Utf8.encode text) with
  | some n => if h : ty.InRange n then some ⟨n, h⟩ else none
  | none => none

/-- The variant of a name. -/
def variantFromStr (variants : List String) (text : List Char) : Option (Fin variants.length) :=
  variants.finIdxOf? (String.ofList text)

/-- Reads one value. -/
def Kind.deserialize (b : Build) (de : ValueDeserializer) :
    (kind : Kind) → Except DeserializeHeadersError kind.Val
  | .bool => de.parse b "bool" boolFromStr
  | .int ty => de.parse b ty.name (intFromStr ty)
  | .char => de.parse b "char" charFromStr
  | .string => (de.utf8 b).map String.ofList
  | .bytes => .ok de.raw
  | .unitEnum variants _ =>
    match de.utf8 b with
    | .error refusal => .error refusal
    | .ok text =>
      match variantFromStr variants text with
      | some v => .ok v
      | none => .error (.unknownVariant text)
  | .newtype inner => (inner.deserialize b de).map Newtype.mk

/-! ## Reading a value back -/

section Value

variable {b : Build} {header : String}

theorem utf8_encode (text : List Char) :
    ValueDeserializer.utf8 b ⟨header, Utf8.encode text⟩ = .ok text := by
  rw [ValueDeserializer.utf8, Utf8.decode_encode]

theorem parse_encode {α : Type} {expected : String} {fromStr : List Char → Option α}
    {text : List Char} {v : α} (h : fromStr text = some v) :
    ValueDeserializer.parse b expected fromStr ⟨header, Utf8.encode text⟩ = .ok v := by
  rw [ValueDeserializer.parse, utf8_encode]
  dsimp only
  rw [h]

/-- The digits of a number are a text. -/
theorem render_eq_encode (n : ℕ) : Decimal.render n = Utf8.encode (Nat.toDigits 10 n) := by
  rw [Decimal.render, Utf8.encode, map_eq_flatMap]
  refine flatMap_congr fun c hc => ?_
  have hdigit := Decimal.isDigit_of_mem_toDigits hc
  simp only [Char.isDigit, Bool.and_eq_true, decide_eq_true_eq] at hdigit
  rw [String.utf8EncodeChar]
  have hle : c.val.toNat ≤ 57 := hdigit.2
  exact (if_pos (by omega)).symm

/-- The numeral of an integer is a text. -/
theorem exists_renderInt_eq_encode (n : ℤ) : ∃ text, Decimal.renderInt n = Utf8.encode text := by
  rw [Decimal.renderInt, render_eq_encode]
  split_ifs
  · exact ⟨'-' :: Nat.toDigits 10 n.natAbs, rfl⟩
  · exact ⟨_, rfl⟩

theorem intFromStr_renderInt {ty : IntType} (v : { n : ℤ // ty.InRange n }) {text : List Char}
    (h : Decimal.renderInt v.1 = Utf8.encode text) : intFromStr ty text = some v := by
  have hparse : ty.fromStr (Utf8.encode text) = some v.1 := by
    rw [← h]
    refine Decimal.parseInt_renderInt (fun hneg => ?_) v.2.2
    obtain ⟨hsigned, hle⟩ := v.2.1 hneg
    exact ⟨hsigned, by omega⟩
  rw [intFromStr, hparse]
  exact dif_pos v.2

theorem variantFromStr_get {variants : List String} (hdistinct : variants.Nodup)
    (v : Fin variants.length) : variantFromStr variants (variants.get v).toList = some v := by
  rw [variantFromStr, String.ofList_toList, finIdxOf?_eq_some_iff]
  refine ⟨rfl, fun j hj hsame => ?_⟩
  exact hj.ne (hdistinct.injective_get hsame)

theorem deserialize_string (text : String) :
    Kind.string.deserialize b ⟨header, nameBytes text⟩ = .ok text := by
  rw [Kind.deserialize, nameBytes, utf8_encode]
  exact congrArg Except.ok String.ofList_toList

theorem deserialize_unitEnum {variants : List String} (hdistinct : variants.Nodup)
    (v : Fin variants.length) :
    (Kind.unitEnum variants hdistinct).deserialize b ⟨header, nameBytes (variants.get v)⟩ = .ok v := by
  rw [Kind.deserialize, nameBytes, utf8_encode]
  dsimp only
  rw [variantFromStr_get hdistinct]

/-- **One value.** What a value is written as is read back as the value. -/
theorem Kind.deserialize_display (kind : Kind) (v : kind.Val) :
    kind.deserialize b ⟨header, kind.display v⟩ = .ok v := by
  induction kind with
  | bool => cases v <;> exact parse_encode rfl
  | int ty =>
    obtain ⟨text, htext⟩ := exists_renderInt_eq_encode v.1
    rw [Kind.display, htext]
    exact parse_encode (intFromStr_renderInt v htext)
  | char => exact parse_encode rfl
  | string => exact deserialize_string v
  | bytes => rfl
  | unitEnum variants hdistinct => exact deserialize_unitEnum hdistinct v
  | newtype inner ih =>
    rw [Kind.deserialize, Kind.display, ih v.inner]
    rfl

end Value

/-! ## Structs -/

/-- The types of a field: a value, or one that may be absent. -/
inductive FieldKind where
  | plain (kind : Kind)
  | option (kind : Kind)

namespace FieldKind

/-- The values of a field. -/
def Val : FieldKind → Type
  | .plain kind => kind.Val
  | .option kind => Option kind.Val

/-- The bytes a field is written as; nothing when it is `None`. -/
def display : (field : FieldKind) → field.Val → Option Bytes
  | .plain kind, v => some (kind.display v)
  | .option kind, v => Option.map kind.display v

/-- Writes the value of a field, if it has one. -/
def serialize (b : Build) : (field : FieldKind) → field.Val →
    Except SerializeHeadersError (Option Bytes)
  | .plain kind, v => (kind.serialize b v).map some
  | .option _, none => .ok none
  | .option kind, some v => (kind.serialize b v).map some

/-- Reads a field whose header is there. -/
def deserialize (b : Build) (de : ValueDeserializer) :
    (field : FieldKind) → Except DeserializeHeadersError field.Val
  | .plain kind => kind.deserialize b de
  | .option kind => (kind.deserialize b de).map some

/-- The value of a field whose header is absent. -/
def missing (name : String) : (field : FieldKind) → Except DeserializeHeadersError field.Val
  | .plain _ => .error (.missingField name)
  | .option _ => .ok none

variable {field : FieldKind}

theorem eq_display_of_serialize {b : Build} {v : field.Val} {written : Option Bytes}
    (h : field.serialize b v = .ok written) : written = field.display v := by
  have hsome : ∀ {kind : Kind} {w : kind.Val}, (kind.serialize b w).map some = .ok written →
      written = some (kind.display w) := by
    intro kind w hw
    cases hrun : kind.serialize b w with
    | error refusal =>
      rw [hrun] at hw
      cases hw
    | ok run =>
      rw [hrun] at hw
      cases hw
      rw [eq_of_scalar hrun]
  cases field with
  | plain kind => exact hsome h
  | option kind =>
    cases v with
    | none =>
      cases h
      rfl
    | some w => exact hsome h

theorem deserialize_display {b : Build} {header : String} {v : field.Val}
    {run : Bytes} (h : field.display v = some run) : field.deserialize b ⟨header, run⟩ = .ok v := by
  cases field with
  | plain kind =>
    cases h
    exact kind.deserialize_display v
  | option kind =>
    obtain ⟨w, rfl, rfl⟩ := Option.map_eq_some_iff.mp h
    rw [deserialize, kind.deserialize_display w]
    rfl

theorem missing_of_display {name : String} {v : field.Val}
    (h : field.display v = none) : field.missing name = .ok v := by
  cases field with
  | plain kind => cases h
  | option kind =>
    have hnone : (v : Option kind.Val) = none := Option.map_eq_none_iff.mp h
    exact congrArg Except.ok hnone.symm

end FieldKind

/-- The fields of a struct, by name. -/
abbrev Contract := List (String × FieldKind)

namespace Contract

/-- The values of a struct. -/
@[reducible] def Val : Contract → Type
  | [] => Unit
  | field :: rest => field.2.Val × Val rest

/-- The names of the fields. -/
def fields (contract : Contract) : List String :=
  contract.map Prod.fst

/-- The fields of a value that are `None`. -/
def absent : (contract : Contract) → Val contract → List String
  | [], _ => []
  | field :: rest, v =>
    if field.2.display v.1 = none then field.1 :: absent rest v.2 else absent rest v.2

end Contract

/-- Writes one field: nothing when the value serializer yields nothing. -/
def serializeField {b : Build} (headers : Headers b) (key : String) (field : FieldKind) (v : field.Val) :
    Except SerializeHeadersError (Headers b) :=
  match field.serialize b v with
  | .error refusal => .error refusal
  | .ok none => .ok headers
  | .ok (some value) => putStatic b headers key value

/-- Writes a struct into the header map, field by field; those before a failing one stay. -/
def insertTyped {b : Build} : (contract : Contract) → contract.Val → Headers b →
    Headers b × Except SerializeHeadersError Unit
  | [], _, headers => (headers, .ok ())
  | field :: rest, v, headers =>
    match serializeField headers field.1 field.2 v.1 with
    | .error refusal => (headers, .error refusal)
    | .ok headers => insertTyped rest v.2 headers

/-! ## Reading a struct -/

/-- What the visitor of a struct has read so far. -/
@[reducible] def Slots : Contract → Type
  | [] => Unit
  | field :: rest => Option field.2.Val × Slots rest

namespace Slots

/-- Nothing read yet. -/
def empty : (contract : Contract) → Slots contract
  | [] => ()
  | _ :: rest => (none, empty rest)

/-- Reads the value of the field a key names into its slot. -/
def read (b : Build) (de : ValueDeserializer) : (contract : Contract) → Slots contract →
    Except DeserializeHeadersError (Slots contract)
  | [], slots => .ok slots
  | field :: rest, slots =>
    if de.header = field.1 then
      match slots.1 with
      | some _ => .error (.duplicateField field.1)
      | none => (field.2.deserialize b de).map fun v => (some v, slots.2)
    else (read b de rest slots.2).map fun tail => (slots.1, tail)

/-- The struct once every key was read. -/
def finish : (contract : Contract) → Slots contract →
    Except DeserializeHeadersError contract.Val
  | [], _ => .ok ()
  | field :: rest, slots =>
    match slots.1 with
    | some v => (finish rest slots.2).map fun tail => (v, tail)
    | none =>
      match field.2.missing field.1 with
      | .error refusal => .error refusal
      | .ok v => (finish rest slots.2).map fun tail => (v, tail)

end Slots

/-- The visitor's loop over the fields that are still to be looked up: a header that is absent is passed
over, one that is there is read into its slot. -/
def visitMap {b : Build} (headers : Headers b) (contract : Contract) :
    List String → Slots contract → Except DeserializeHeadersError contract.Val
  | [], slots => slots.finish contract
  | field :: fields, slots =>
    match headers.get (nameBytes field) with
    | none => visitMap headers contract fields slots
    | some raw =>
      match slots.read b ⟨field, raw⟩ contract with
      | .error refusal => .error refusal
      | .ok slots => visitMap headers contract fields slots

/-- Reads a struct from the header map. -/
def toTyped {b : Build} (contract : Contract) (headers : Headers b) :
    Except DeserializeHeadersError contract.Val :=
  visitMap headers contract contract.fields (Slots.empty contract)

/-! ## Reading a struct back -/

section Struct

variable {b : Build} {headers headers' : Headers b}

/-- The header map answers each field's name with what the field is written as. -/
def Contract.Written (headers : Headers b) : (contract : Contract) → contract.Val → Prop
  | [], _ => True
  | field :: rest, v =>
    headers.get (nameBytes field.1) = field.2.display v.1 ∧ Written headers rest v.2

/-- The names of the fields up to ASCII case. -/
def Contract.lowers (contract : Contract) : List Bytes :=
  contract.map fun field => lowercase (nameBytes field.1)

variable {contract : Contract}

variable {name : String}

theorem lowercase_mem_lowers (h : name ∈ contract.fields) :
    lowercase (nameBytes name) ∈ contract.lowers := by
  obtain ⟨field, hfield, rfl⟩ := mem_map.mp h
  exact mem_map_of_mem (f := fun field : String × FieldKind => lowercase (nameBytes field.1)) hfield

variable {v : contract.Val}

theorem absent_subset (h : name ∈ contract.absent v) : name ∈ contract.fields := by
  induction contract with
  | nil => cases h
  | cons field rest ih =>
    rw [Contract.absent] at h
    split_ifs at h
    · rcases mem_cons.mp h with rfl | hrest
      · exact mem_cons_self
      · exact mem_cons_of_mem _ (ih hrest)
    · exact mem_cons_of_mem _ (ih h)

theorem get_of_putStatic {key : String} {value : Bytes}
    (h : putStatic b headers key value = .ok headers') : headers'.get (nameBytes key) = some value ∧
      ∀ other, lowercase other ≠ lowercase (nameBytes key) → headers'.get other = headers.get other := by
  rw [putStatic] at h
  cases hinsert : headers.insert (nameBytes key) value with
  | error refusal =>
    rw [hinsert] at h
    cases h
  | ok inserted =>
    rw [hinsert] at h
    cases h
    exact ⟨Headers.get_insert_self hinsert, fun other hne => Headers.get_insert_of_ne hinsert hne⟩

/-- **One field.** It is stored under its name as it is written, or nothing is; no other name changes. -/
theorem get_of_serializeField {key : String} {field : FieldKind} {v : field.Val}
    (h : serializeField headers key field v = .ok headers') :
    headers'.get (nameBytes key) = (field.display v).or (headers.get (nameBytes key)) ∧
      ∀ other, lowercase other ≠ lowercase (nameBytes key) → headers'.get other = headers.get other := by
  rw [serializeField] at h
  cases hwritten : field.serialize b v with
  | error refusal =>
    rw [hwritten] at h
    cases h
  | ok written =>
    rw [hwritten] at h
    rw [← FieldKind.eq_display_of_serialize hwritten]
    cases written with
    | none =>
      cases h
      exact ⟨rfl, fun _ _ => rfl⟩
    | some value => exact get_of_putStatic h

/-- **Writing a struct.** Every field is stored as it is written and every other name is left alone,
when no header was there under the fields that are `None`. -/
theorem written_of_insertTyped (hdistinct : contract.lowers.Nodup)
    (habsent : ∀ name ∈ contract.absent v, headers.get (nameBytes name) = none)
    (h : insertTyped contract v headers = (headers', .ok ())) : contract.Written headers' v ∧
      ∀ other, lowercase other ∉ contract.lowers → headers'.get other = headers.get other := by
  induction contract generalizing headers with
  | nil =>
    cases h
    exact ⟨trivial, fun _ _ => rfl⟩
  | cons field rest ih =>
    obtain ⟨hnew, hrest⟩ := nodup_cons.mp hdistinct
    rw [insertTyped] at h
    cases hfield : serializeField headers field.1 field.2 v.1 with
    | error refusal =>
      rw [hfield] at h
      cases h
    | ok headers₁ =>
      rw [hfield] at h
      obtain ⟨hstored, hothers⟩ := get_of_serializeField hfield
      have habsent' : ∀ name ∈ Contract.absent rest v.2, headers₁.get (nameBytes name) = none := by
        intro name hname
        have hmem : name ∈ Contract.absent (field :: rest) v := by
          rw [Contract.absent]
          split_ifs
          · exact mem_cons_of_mem _ hname
          · exact hname
        have hne : lowercase (nameBytes name) ≠ lowercase (nameBytes field.1) := by
          intro heq
          have hlower := lowercase_mem_lowers (absent_subset hname)
          rw [heq] at hlower
          exact hnew hlower
        rw [hothers _ hne]
        exact habsent name hmem
      obtain ⟨hwritten, hkept⟩ := ih hrest habsent' h
      refine ⟨⟨?_, hwritten⟩, fun other hother => ?_⟩
      · rw [hkept _ hnew, hstored]
        cases hdisplay : field.2.display v.1 with
        | some run => rfl
        | none =>
          refine habsent field.1 ?_
          rw [Contract.absent, if_pos hdisplay]
          exact mem_cons_self
      · rw [Contract.lowers, map_cons, mem_cons, not_or] at hother
        rw [hkept other hother.2, hothers other hother.1]

theorem visitMap_nil (slots : Slots contract) :
    visitMap headers contract [] slots = slots.finish contract := by
  unfold visitMap
  rfl

variable {names : List String}

theorem visitMap_of_absent (h : headers.get (nameBytes name) = none) (slots : Slots contract) :
    visitMap headers contract (name :: names) slots = visitMap headers contract names slots := by
  conv_lhs => unfold visitMap
  simp only [h]

theorem visitMap_of_present {raw : Bytes}
    (h : headers.get (nameBytes name) = some raw) {slots slots' : Slots contract}
    (hread : slots.read b ⟨name, raw⟩ contract = .ok slots') :
    visitMap headers contract (name :: names) slots = visitMap headers contract names slots' := by
  conv_lhs => unfold visitMap
  simp only [h, hread]

theorem read_of_visitMap {raw : Bytes}
    (h : headers.get (nameBytes name) = some raw) {slots : Slots contract}
    (hvisit : visitMap headers contract (name :: names) slots = .ok v) :
    ∃ slots', slots.read b ⟨name, raw⟩ contract = .ok slots' := by
  cases hread : slots.read b ⟨name, raw⟩ contract with
  | ok slots' => exact ⟨slots', rfl⟩
  | error refusal =>
    unfold visitMap at hvisit
    simp only [h, hread] at hvisit
    cases hvisit

/-- The visitor does for the other fields of a struct what it does for a struct of them, once the slot
of the first is settled. -/
theorem visitMap_cons {field : String × FieldKind} {rest : Contract}
    (hnew : field.1 ∉ names) {slot : Option field.2.Val} {v : field.2.Val}
    (hslot : slot = some v ∨ slot = none ∧ field.2.missing field.1 = .ok v) {tail : Slots rest}
    {vs : rest.Val} (h : visitMap headers rest names tail = .ok vs) :
    visitMap headers (field :: rest) names (slot, tail) = .ok (v, vs) := by
  induction names generalizing tail with
  | nil =>
    rw [visitMap_nil] at h ⊢
    rcases hslot with rfl | ⟨rfl, hmissing⟩
    · rw [Slots.finish, h]
      rfl
    · rw [Slots.finish, hmissing, h]
      rfl
  | cons name names ih =>
    obtain ⟨hne, hnew⟩ := not_or.mp (mem_cons.not.mp hnew)
    cases hget : headers.get (nameBytes name) with
    | none =>
      rw [visitMap_of_absent hget] at h ⊢
      exact ih hnew h
    | some raw =>
      obtain ⟨tail', hread⟩ := read_of_visitMap hget h
      rw [visitMap_of_present hget hread] at h
      have hslots : Slots.read b ⟨name, raw⟩ (field :: rest) (slot, tail) = .ok (slot, tail') := by
        rw [Slots.read, if_neg (Ne.symm hne), hread]
        rfl
      rw [visitMap_of_present hget hslots]
      exact ih hnew h

/-- **Reading a struct.** A header map that answers each field as it is written reads as the struct. -/
theorem toTyped_of_written (hdistinct : contract.fields.Nodup)
    (h : contract.Written headers v) : toTyped contract headers = .ok v := by
  induction contract with
  | nil => rfl
  | cons field rest ih =>
    obtain ⟨hnew, hrest⟩ := nodup_cons.mp hdistinct
    obtain ⟨hfield, hothers⟩ := h
    have htail := ih hrest hothers
    change visitMap headers (field :: rest) (field.1 :: Contract.fields rest) (none, Slots.empty rest) = _
    cases hdisplay : field.2.display v.1 with
    | none =>
      rw [visitMap_of_absent (hfield.trans hdisplay)]
      exact visitMap_cons hnew (.inr ⟨rfl, FieldKind.missing_of_display hdisplay⟩) htail
    | some run =>
      have hread : Slots.read b ⟨field.1, run⟩ (field :: rest) (none, Slots.empty rest)
          = .ok (some v.1, Slots.empty rest) := by
        rw [Slots.read, if_pos rfl]
        dsimp only
        rw [FieldKind.deserialize_display hdisplay]
        rfl
      rw [visitMap_of_present (hfield.trans hdisplay) hread]
      exact visitMap_cons hnew (.inl rfl) htail

end Struct

/-- **Round trip.** In both builds: a struct whose field names are distinct up to ASCII case, written
into a header map that holds nothing under its fields that are `None`, is read back as itself, and every
header under another name is unchanged. -/
theorem typed_headers_round_trip (b : Build) (contract : Contract) (hdistinct : contract.lowers.Nodup)
    (v : contract.Val) (headers headers' : Headers b)
    (habsent : ∀ name ∈ contract.absent v, headers.get (nameBytes name) = none)
    (hok : insertTyped contract v headers = (headers', .ok ())) :
    toTyped contract headers' = .ok v ∧
      ∀ name, lowercase name ∉ contract.lowers → headers'.get name = headers.get name := by
  obtain ⟨hwritten, hothers⟩ := written_of_insertTyped hdistinct habsent hok
  refine ⟨toTyped_of_written ?_ hwritten, hothers⟩
  have hlowers : contract.lowers = contract.fields.map fun name => lowercase (nameBytes name) := by
    rw [Contract.lowers, Contract.fields, List.map_map]
    rfl
  rw [hlowers] at hdistinct
  exact hdistinct.of_map _

/-- A number, a text that may be absent and a wrapped flag. -/
def sample : Contract :=
  [("Id", .plain (.int .u8)), ("Tag", .option .string), ("On", .plain (.newtype .bool))]

theorem inRange_seven : IntType.InRange .u8 7 := by
  decide

def sampleValue : sample.Val :=
  (⟨7, inRange_seven⟩, none, ⟨true⟩, ())

theorem typed_headers_round_trip_sample :
    (∃ headers', insertTyped sample sampleValue (Headers.new .alloc) = (headers', .ok ()) ∧
      toTyped sample headers' = .ok sampleValue) ∧
    ∃ headers', insertTyped sample sampleValue (Headers.new .noAlloc) = (headers', .ok ()) ∧
      toTyped sample headers' = .ok sampleValue := by
  have hdistinct : sample.lowers.Nodup := by decide
  constructor
  · have hok : insertTyped sample sampleValue (Headers.new .alloc)
        = ((insertTyped sample sampleValue (Headers.new .alloc)).1, .ok ()) := rfl
    exact ⟨_, hok, (typed_headers_round_trip .alloc sample hdistinct sampleValue _ _
      (fun _ _ => rfl) hok).1⟩
  · have hanswer : (insertTyped sample sampleValue (Headers.new .noAlloc)).2 = .ok () := by
      decide +kernel
    have hok : insertTyped sample sampleValue (Headers.new .noAlloc)
        = ((insertTyped sample sampleValue (Headers.new .noAlloc)).1, .ok ()) := Prod.ext rfl hanswer
    exact ⟨_, hok, (typed_headers_round_trip .noAlloc sample hdistinct sampleValue _ _
      (fun _ _ => rfl) hok).1⟩

end RustStream
