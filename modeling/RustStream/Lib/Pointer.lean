import RustStream.Lib.Decimal
import RustStream.Lib.Json
import RustStream.Lib.Utf8

/-!
# JSON pointers

A reference into its own document is a `#` and a JSON pointer, in the form a URI fragment gives it: percent-encoded
bytes are decoded first, then the pointer is cut at its slashes, and in each token `~1` is a slash and `~0` a tilde.

A reference that is written by putting a slash before each of some names reads back as those names exactly when
they hold none of the three characters that mean something: a slash cuts its name in two, and each of the other two
makes what is read shorter than what was written, if it can be read at all.

## Main definitions

* `Pointer.parse`: the path a reference names.
* `Pointer.resolve`: the value it names in a document.
* `Pointer.reference`: a reference written by putting names one after the other.

## Main results

* `Pointer.parse_reference_iff`: when it reads back.
-/

namespace Pointer

open List

/-- The value of a hexadecimal digit. -/
def hexDigit? (b : UInt8) : Option UInt8 :=
  if 48 ≤ b ∧ b ≤ 57 then some (b - 48)
  else if 65 ≤ b ∧ b ≤ 70 then some (b - 55)
  else if 97 ≤ b ∧ b ≤ 102 then some (b - 87)
  else none

/-- The bytes a percent-encoded text stands for. -/
def percentDecode : List UInt8 → Option (List UInt8)
  | [] => some []
  | b :: rest =>
    if b = 37 then
      match rest with
      | high :: low :: rest =>
        match hexDigit? high, hexDigit? low, percentDecode rest with
        | some high, some low, some decoded => some ((high * 16 + low) :: decoded)
        | _, _, _ => none
      | _ => none
    else (percentDecode rest).map (b :: ·)

/-- The text of a fragment. -/
def fragment (text : List Char) : Option (List Char) :=
  (percentDecode (Utf8.encode text)).bind Utf8.decode

/-- A token with its escapes read. -/
def unescape : List Char → Option (List Char)
  | [] => some []
  | c :: rest =>
    if c = '~' then
      match rest with
      | '0' :: rest => (unescape rest).map ('~' :: ·)
      | '1' :: rest => (unescape rest).map ('/' :: ·)
      | _ => none
    else (unescape rest).map (c :: ·)

def unescapeAll : List (List Char) → Option (List (List Char))
  | [] => some []
  | token :: tokens =>
    match unescape token, unescapeAll tokens with
    | some name, some names => some (name :: names)
    | _, _ => none

/-- The names a pointer goes through. -/
def path : List Char → Option (List (List Char))
  | [] => some []
  | c :: rest => if c = '/' then unescapeAll (rest.splitOn '/') else none

/-- The path a reference into its own document names. -/
def parse (reference : String) : Option (List String) :=
  match reference.toList with
  | '#' :: text => ((fragment text).bind path).map (·.map String.ofList)
  | _ => none

/-- The value a reference names in its document. -/
def resolve (document : Json) (reference : String) : Option Json :=
  (parse reference).bind document.find

/-- Names, each behind a slash. -/
def joined (names : List (List Char)) : List Char :=
  names.flatMap ('/' :: ·)

/-- A reference written by putting names one after the other. -/
def reference (names : List String) : String :=
  String.ofList ('#' :: joined (names.map String.toList))

/-- A name without a character that means something in a reference. -/
def Plain (name : List Char) : Prop :=
  '/' ∉ name ∧ '~' ∉ name ∧ '%' ∉ name

instance (name : List Char) : Decidable (Plain name) :=
  inferInstanceAs (Decidable (_ ∧ _))

/-- A number behind a name makes no difference. -/
theorem plain_append_digits {sep : Char} (hsep : sep ≠ '/' ∧ sep ≠ '~' ∧ sep ≠ '%') (name : List Char) (n : ℕ) :
    Plain (name ++ sep :: Nat.toDigits 10 n) ↔ Plain name := by
  have hkeep (c : Char) (hc : c.isDigit = false) (hne : sep ≠ c) :
      c ∉ name ++ sep :: Nat.toDigits 10 n ↔ c ∉ name := by
    rw [mem_append, not_or, mem_cons, not_or]
    refine and_iff_left ⟨Ne.symm hne, fun hmem => ?_⟩
    rw [Decimal.isDigit_of_mem_toDigits hmem] at hc
    cases hc
  rw [Plain, Plain, hkeep '/' (by decide) hsep.1, hkeep '~' (by decide) hsep.2.1, hkeep '%' (by decide) hsep.2.2]

/-! ## Percent-encoding -/

theorem percentDecode_cons {b : UInt8} (hb : b ≠ 37) (rest : List UInt8) :
    percentDecode (b :: rest) = (percentDecode rest).map (b :: ·) := by
  rw [percentDecode.eq_def]
  exact if_neg hb

theorem percentDecode_percent {rest decoded : List UInt8} (h : percentDecode (37 :: rest) = some decoded) :
    ∃ high low later byte decoded', rest = high :: low :: later ∧ percentDecode later = some decoded' ∧
      decoded = byte :: decoded' := by
  rw [percentDecode.eq_def] at h
  simp only [if_true] at h
  split at h
  · next high low later =>
    split at h
    · next first second decoded' _ _ hlater =>
      cases h
      exact ⟨high, low, later, _, decoded', rfl, hlater, rfl⟩
    · cases h
  · cases h

theorem percentDecode_of_not_mem {bytes : List UInt8} (h : 37 ∉ bytes) : percentDecode bytes = some bytes := by
  induction bytes with
  | nil => rfl
  | cons b rest ih =>
    have hb : b ≠ 37 := fun heq => h (heq ▸ mem_cons_self)
    rw [percentDecode_cons hb, ih fun hmem => h (mem_cons_of_mem _ hmem)]
    rfl

/-- Decoding shortens, and strictly where something is encoded. -/
theorem length_percentDecode {bytes decoded : List UInt8} (h : percentDecode bytes = some decoded) :
    decoded.length ≤ bytes.length ∧ (37 ∈ bytes → decoded.length < bytes.length) := by
  induction hlength : bytes.length using Nat.strong_induction_on generalizing bytes decoded with
  | _ n ih =>
    cases bytes with
    | nil =>
      cases h
      exact ⟨Nat.zero_le _, fun hmem => absurd hmem not_mem_nil⟩
    | cons b rest =>
      rw [length_cons] at hlength
      by_cases hb : b = 37
      · subst hb
        obtain ⟨high, low, later, byte, decoded', rfl, hlater, rfl⟩ := percentDecode_percent h
        simp only [length_cons] at hlength ⊢
        have := (ih later.length (by omega) hlater rfl).1
        omega
      · rw [percentDecode_cons hb] at h
        obtain ⟨decoded, hrest, rfl⟩ := Option.map_eq_some_iff.mp h
        obtain ⟨hle, hlt⟩ := ih rest.length (by omega) hrest rfl
        rw [length_cons]
        refine ⟨by omega, fun hmem => ?_⟩
        have := hlt ((mem_cons.mp hmem).resolve_left (Ne.symm hb))
        omega

variable {text : List Char}

theorem percent_mem_encode : 37 ∈ Utf8.encode text ↔ '%' ∈ text := by
  induction text with
  | nil => simp
  | cons c text ih =>
    rw [Utf8.encode_cons, mem_append, ih, mem_cons]
    refine or_congr_left ?_
    rcases Utf8.utf8EncodeChar_ascii_or c with ⟨hascii, hcode⟩ | habove
    · rw [hcode, mem_singleton, ← UInt8.toNat_inj, UInt8.toNat_ofNat', Char.ext_iff, ← UInt32.toNat_inj]
      show 37 = c.val.toNat % 256 ↔ 37 = c.val.toNat
      omega
    · refine iff_of_false (fun hmem => absurd (habove _ hmem) (by decide)) ?_
      rintro rfl
      exact absurd (habove 37 (by decide)) (by decide)

theorem encode_of_decode {bytes : List UInt8} (h : Utf8.decode bytes = some text) :
    Utf8.encode text = bytes := by
  obtain ⟨chars, hchars, rfl⟩ := Option.map_eq_some_iff.mp h
  have hsome : bytes.toByteArray.utf8Decode?.isSome = true := by rw [hchars]; rfl
  have hbytes := @ByteArray.utf8Encode_get_utf8Decode? bytes.toByteArray hsome
  have hget : bytes.toByteArray.utf8Decode?.get hsome = chars := by
    simp only [hchars, Option.get_some]
  rw [hget] at hbytes
  have hlist : (Utf8.encode chars.toList).toByteArray = bytes.toByteArray := hbytes
  have := congrArg (fun array => array.data.toList) hlist
  simpa using this

/-- How many bytes a text takes. -/
def size (text : List Char) : ℕ :=
  (Utf8.encode text).length

theorem fragment_of_not_mem (h : '%' ∉ text) : fragment text = some text := by
  rw [fragment, percentDecode_of_not_mem (fun hmem => h (percent_mem_encode.mp hmem)), Option.bind_some,
    Utf8.decode_encode]

theorem size_fragment {text text' : List Char} (h : fragment text = some text') :
    size text' ≤ size text ∧ ('%' ∈ text → size text' < size text) := by
  obtain ⟨bytes, hbytes, hdecode⟩ := Option.bind_eq_some_iff.mp h
  obtain ⟨hle, hlt⟩ := length_percentDecode hbytes
  rw [size, encode_of_decode hdecode]
  exact ⟨hle, fun hmem => hlt (percent_mem_encode.mpr hmem)⟩

theorem size_cons (c : Char) (text : List Char) : size (c :: text) = c.utf8Size + size text := by
  rw [size, Utf8.encode_cons, length_append, String.length_utf8EncodeChar, size]

theorem size_append (text text' : List Char) : size (text ++ text') = size text + size text' := by
  induction text with
  | nil => rw [nil_append, size, size, Utf8.encode_nil, length_nil, Nat.zero_add]
  | cons c text ih => rw [cons_append, size_cons, ih, size_cons, Nat.add_assoc]

/-! ## Tokens -/

theorem unescape_cons {c : Char} (hc : c ≠ '~') (rest : List Char) :
    unescape (c :: rest) = (unescape rest).map (c :: ·) := by
  rw [unescape.eq_def]
  exact if_neg hc

theorem unescape_tilde {rest name : List Char} (h : unescape ('~' :: rest) = some name) :
    ∃ code c later name', rest = code :: later ∧ c.utf8Size = 1 ∧ code.utf8Size = 1 ∧
      unescape later = some name' ∧ name = c :: name' := by
  rw [unescape.eq_def] at h
  simp only [if_true] at h
  split at h
  · next later =>
    obtain ⟨name', hlater, rfl⟩ := Option.map_eq_some_iff.mp h
    exact ⟨'0', '~', later, name', rfl, by decide, by decide, hlater, rfl⟩
  · next later =>
    obtain ⟨name', hlater, rfl⟩ := Option.map_eq_some_iff.mp h
    exact ⟨'1', '/', later, name', rfl, by decide, by decide, hlater, rfl⟩
  · cases h

theorem unescape_of_not_mem {token : List Char} (h : '~' ∉ token) : unescape token = some token := by
  induction token with
  | nil => rfl
  | cons c rest ih =>
    have hc : c ≠ '~' := fun heq => h (heq ▸ mem_cons_self)
    rw [unescape_cons hc, ih fun hmem => h (mem_cons_of_mem _ hmem)]
    rfl

/-- Reading escapes shortens, and strictly where there are any. -/
theorem size_unescape {token name : List Char} (h : unescape token = some name) :
    size name ≤ size token ∧ ('~' ∈ token → size name < size token) := by
  induction hlength : token.length using Nat.strong_induction_on generalizing token name with
  | _ n ih =>
    cases token with
    | nil =>
      cases h
      exact ⟨le_rfl, fun hmem => absurd hmem not_mem_nil⟩
    | cons c rest =>
      rw [length_cons] at hlength
      by_cases hc : c = '~'
      · subst hc
        obtain ⟨code, c, later, name', rfl, hc, hcode, hlater, rfl⟩ := unescape_tilde h
        rw [length_cons] at hlength
        have hle := (ih later.length (by omega) hlater rfl).1
        have htilde : ('~' : Char).utf8Size = 1 := by decide
        simp only [size_cons]
        omega
      · rw [unescape_cons hc] at h
        obtain ⟨name, hrest, rfl⟩ := Option.map_eq_some_iff.mp h
        obtain ⟨hle, hlt⟩ := ih rest.length (by omega) hrest rfl
        simp only [size_cons]
        refine ⟨by omega, fun hmem => ?_⟩
        have := hlt ((mem_cons.mp hmem).resolve_left (Ne.symm hc))
        omega

theorem unescapeAll_cons {token : List Char} {tokens names : List (List Char)}
    (h : unescapeAll (token :: tokens) = some names) :
    ∃ name names', unescape token = some name ∧ unescapeAll tokens = some names' ∧ names = name :: names' := by
  rw [unescapeAll] at h
  split at h
  · next name names' hname hnames =>
    cases h
    exact ⟨name, names', hname, hnames, rfl⟩
  · cases h

theorem joined_cons (name : List Char) (names : List (List Char)) : joined (name :: names) = '/' :: (name ++ joined names) :=
  rfl

/-- Tokens are at least as long as the names they are read as; where they are no longer they are those. -/
theorem size_joined {tokens names : List (List Char)} (h : unescapeAll tokens = some names) :
    size (joined names) ≤ size (joined tokens) ∧
      (size (joined tokens) ≤ size (joined names) → tokens = names ∧ ∀ token ∈ tokens, '~' ∉ token) := by
  induction tokens generalizing names with
  | nil =>
    cases h
    exact ⟨le_rfl, fun _ => ⟨rfl, by simp⟩⟩
  | cons token tokens ih =>
    obtain ⟨name, names, hname, hnames, rfl⟩ := unescapeAll_cons h
    obtain ⟨hle, hlt⟩ := size_unescape hname
    obtain ⟨hrest, hsame⟩ := ih hnames
    simp only [joined_cons, size_cons, size_append]
    refine ⟨by omega, fun hlong => ?_⟩
    have htilde : '~' ∉ token := fun hmem => by
      have := hlt hmem
      omega
    have hequal : token = name := by
      rw [unescape_of_not_mem htilde] at hname
      exact Option.some.inj hname
    obtain ⟨rfl, hplain⟩ := hsame (by omega)
    exact ⟨by rw [hequal], forall_mem_cons.mpr ⟨htilde, hplain⟩⟩

variable {names : List (List Char)}

theorem unescapeAll_of_plain (h : ∀ name ∈ names, '~' ∉ name) : unescapeAll names = some names := by
  induction names with
  | nil => rfl
  | cons name names ih =>
    obtain ⟨hname, hnames⟩ := forall_mem_cons.mp h
    rw [unescapeAll, unescape_of_not_mem hname, ih hnames]

theorem joined_eq_intercalate (h : names ≠ []) : joined names = '/' :: ['/'].intercalate names := by
  induction names with
  | nil => exact absurd rfl h
  | cons name names ih =>
    rw [joined_cons]
    cases names with
    | nil => simp [joined]
    | cons other names =>
      rw [ih (cons_ne_nil _ _), intercalate_cons_of_ne_nil (cons_ne_nil _ _)]
      simp

theorem not_mem_of_mem_splitOn {c : Char} {text token : List Char} (h : token ∈ text.splitOn c) : c ∉ token := by
  induction text generalizing token with
  | nil =>
    rw [splitOn_nil, mem_singleton] at h
    rw [h]
    exact not_mem_nil
  | cons d text ih =>
    rw [splitOn_cons_eq_if_modifyHead] at h
    split_ifs at h with hd
    · rcases mem_cons.mp h with rfl | hmem
      · exact not_mem_nil
      · exact ih hmem
    · -- only the first piece has grown, by a character that is not the one cut at
      obtain ⟨first, later, hsplit⟩ := exists_cons_of_ne_nil (splitOn_ne_nil c text)
      rw [hsplit, modifyHead_cons] at h
      rcases mem_cons.mp h with rfl | hmem
      · refine not_mem_cons_of_ne_of_not_mem (fun heq => hd (beq_iff_eq.mpr heq.symm)) (ih ?_)
        rw [hsplit]
        exact mem_cons_self
      · exact ih (hsplit ▸ mem_cons_of_mem _ hmem)

/-! ## References -/

theorem path_joined_iff (hsize : size text ≤ size (joined names)) :
    path text = some names ↔ text = joined names ∧ ∀ name ∈ names, '/' ∉ name ∧ '~' ∉ name := by
  constructor
  · intro h
    cases text with
    | nil =>
      cases h
      exact ⟨rfl, by simp⟩
    | cons c rest =>
      rw [path] at h
      split_ifs at h with hc
      subst hc
      have htext : joined (rest.splitOn '/') = '/' :: rest := by
        rw [joined_eq_intercalate (splitOn_ne_nil _ _), intercalate_splitOn]
      obtain ⟨-, hsame⟩ := size_joined h
      obtain ⟨hnames, hplain⟩ := hsame (by rw [htext]; exact hsize)
      rw [← hnames, htext]
      exact ⟨rfl, fun name hmem => ⟨not_mem_of_mem_splitOn hmem, hplain name hmem⟩⟩
  · rintro ⟨rfl, hplain⟩
    cases names with
    | nil => rfl
    | cons name names =>
      have hsplit := splitOn_intercalate '/' (fun name hmem => (hplain name hmem).1) (cons_ne_nil name names)
      rw [joined_eq_intercalate (cons_ne_nil _ _), path, if_pos rfl, hsplit]
      exact unescapeAll_of_plain fun name hmem => (hplain name hmem).2

theorem percent_mem_joined : '%' ∈ joined names ↔ ∃ name ∈ names, '%' ∈ name := by
  rw [joined, mem_flatMap]
  refine exists_congr fun name => and_congr_right fun _ => ?_
  rw [mem_cons]
  exact or_iff_right (by decide)

theorem parse_reference (names : List String) : parse (reference names)
      = ((fragment (joined (names.map String.toList))).bind path).map (·.map String.ofList) := by
  rw [parse, reference, String.toList_ofList]
  rfl

theorem map_toList_map_ofList (paths : List (List Char)) : (paths.map String.ofList).map String.toList = paths := by
  rw [map_map]
  exact map_id'' (fun name => String.toList_ofList) paths

/-- What the last of some names is read as is shorter than it is, or it is it. -/
theorem size_parse {names : List String} {name name' : String}
    (h : parse (reference (names ++ [name])) = some (names ++ [name'])) :
    size name'.toList < size name.toList ∨ name' = name := by
  rw [parse_reference] at h
  obtain ⟨paths, hpaths, hread⟩ := Option.map_eq_some_iff.mp h
  obtain ⟨text, htext, hpath⟩ := Option.bind_eq_some_iff.mp hpaths
  have hback : paths = names.map String.toList ++ [name'.toList] := by
    rw [← map_toList_map_ofList paths, hread, map_append]
    rfl
  have hjoined (last : String) : joined (names.map String.toList ++ [last.toList])
      = joined (names.map String.toList) ++ '/' :: last.toList := by
    rw [joined, flatMap_append]
    simp [joined]
  rw [map_append] at htext
  rcases Nat.lt_or_ge (size name'.toList) (size name.toList) with hshort | hlong
  · exact Or.inl hshort
  · -- nothing got shorter, so nothing was decoded and the two texts are one
    right
    have hsizes : size (joined (names.map String.toList ++ [name.toList])) ≤ size (joined paths) := by
      rw [hback, hjoined, hjoined]
      simp only [size_append, size_cons]
      omega
    obtain ⟨hle, hlt⟩ := size_fragment htext
    obtain ⟨rfl, -⟩ := (path_joined_iff (hle.trans hsizes)).mp hpath
    have hpercent : '%' ∉ joined (names.map String.toList ++ [name.toList]) := fun hmem =>
      absurd (hlt hmem) (Nat.not_lt_of_ge hsizes)
    have htexts := Option.some.inj ((fragment_of_not_mem hpercent).symm.trans htext)
    rw [hback, hjoined, hjoined] at htexts
    exact (String.toList_injective (List.cons.inj (append_cancel_left htexts)).2).symm

/-- **When names put one after the other read back.** -/
theorem parse_reference_iff (names : List String) :
    parse (reference names) = some names ↔ ∀ name ∈ names, Plain name.toList := by
  rw [parse_reference]
  constructor
  · intro h
    obtain ⟨paths, hpaths, rfl⟩ := Option.map_eq_some_iff.mp h
    obtain ⟨text, htext, hpath⟩ := Option.bind_eq_some_iff.mp hpaths
    rw [map_toList_map_ofList] at htext
    obtain ⟨hle, hlt⟩ := size_fragment htext
    obtain ⟨rfl, hplain⟩ := (path_joined_iff hle).mp hpath
    -- a percent sign anywhere would have made the text that was cut a shorter one
    have hpercent : '%' ∉ joined paths := fun hmem => lt_irrefl _ (hlt hmem)
    rw [percent_mem_joined] at hpercent
    intro name hname
    obtain ⟨name, hmem, rfl⟩ := mem_map.mp hname
    rw [String.toList_ofList]
    exact ⟨(hplain name hmem).1, (hplain name hmem).2, fun hin => hpercent ⟨name, hmem, hin⟩⟩
  · intro h
    have hplain : ∀ name ∈ names.map String.toList, Plain name := by
      simpa using h
    have hpercent : '%' ∉ joined (names.map String.toList) := fun hmem => by
      obtain ⟨name, hname, hin⟩ := percent_mem_joined.mp hmem
      exact (hplain name hname).2.2 hin
    rw [fragment_of_not_mem hpercent, Option.bind_some,
      (path_joined_iff le_rfl).mpr ⟨rfl, fun name hmem => ⟨(hplain name hmem).1, (hplain name hmem).2.1⟩⟩,
      Option.map_some, map_map]
    exact congrArg some (map_id'' (fun name => String.ofList_toList) names)

end Pointer
