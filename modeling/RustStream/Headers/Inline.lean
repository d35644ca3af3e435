import RustStream.Lib.Cut
import RustStream.Lib.Utf8

/-!
# Error texts of bounded size

Without an allocator the text of an error is held in a fixed room and cut at a character boundary. A value prints
itself in fragments, and a byte string that is not UTF-8 is read in chunks, an invalid sequence as the
replacement character. Each fragment is cut to the room that is left on its own.

A fragment that is cut may leave a byte or two, and a later fragment that begins with a narrower character is then
stored behind the cut: the text has a hole. `Whole` is the condition under which it has none.

## Main definitions

* `Inline`, `Inline.pushTruncated`: the text and its room.
* `utf8Chunks`, `Inline.lossy`, `Inline.display`: the two texts that are built from fragments.

## Main results

* `flatten_utf8Chunks`: the chunks of a byte string are all of it.
* `inline_text_iff`: when the stored text is the longest part of the whole that fits.
-/

namespace RustStream

open List

/-- Whether a byte begins a character. -/
def beginsChar (b : UInt8) : Bool :=
  b < 128 || 192 ≤ b

/-- Bytes of at most `room`, held in place. -/
structure Inline (room : ℕ) where
  bytes : List UInt8
  fits : bytes.length ≤ room

namespace Inline

variable {room : ℕ}

def new (room : ℕ) : Inline room :=
  ⟨[], Nat.zero_le room⟩

/-- Appends bytes, if they fit. -/
def tryPush (run : Inline room) (bytes : List UInt8) : Option (Inline room) :=
  if h : run.bytes.length + bytes.length ≤ room then
    some ⟨run.bytes ++ bytes, by rwa [length_append]⟩
  else none

/-- Appends what fits of a text, cut at a character boundary. -/
def pushTruncated (run : Inline room) (text : List UInt8) : Inline room :=
  let take := Cut.floor beginsChar text (min text.length (room - run.bytes.length))
  (run.tryPush (text.take take)).getD run

end Inline

/-! ## Lossy text -/

/-- A run of text and the invalid sequence behind it. -/
structure Chunk where
  valid : List UInt8
  invalid : List UInt8
  deriving DecidableEq, Repr

/-- What stands at the front of bytes: a character, or the beginning of none, with the bytes it takes. -/
inductive Front where
  | char (width : ℕ)
  | bad (width : ℕ)
  deriving DecidableEq, Repr

/-- How many bytes the character a byte begins takes; none for a byte that begins none. -/
def utf8CharWidth (b : UInt8) : ℕ :=
  if b < 0x80 then 1
  else if b < 0xC2 then 0
  else if b < 0xE0 then 2
  else if b < 0xF0 then 3
  else if b < 0xF5 then 4
  else 0

def isContinuation (b : UInt8) : Bool :=
  b &&& 192 == 128

/-- The second bytes a character of three bytes may have. -/
def secondOfThree (first second : UInt8) : Bool :=
  (first == 0xE0 && 0xA0 ≤ second && second ≤ 0xBF) || (0xE1 ≤ first && first ≤ 0xEC && 0x80 ≤ second && second ≤ 0xBF) ||
    (first == 0xED && 0x80 ≤ second && second ≤ 0x9F) || (0xEE ≤ first && first ≤ 0xEF && 0x80 ≤ second && second ≤ 0xBF)

/-- The second bytes a character of four bytes may have. -/
def secondOfFour (first second : UInt8) : Bool :=
  (first == 0xF0 && 0x90 ≤ second && second ≤ 0xBF) || (0xF1 ≤ first && first ≤ 0xF3 && 0x80 ≤ second && second ≤ 0xBF) ||
    (first == 0xF4 && 0x80 ≤ second && second ≤ 0x8F)

/-- A byte that is not there reads as zero. -/
def front (b : UInt8) (rest : List UInt8) : Front :=
  match utf8CharWidth b with
  | 1 => .char 1
  | 2 => if isContinuation (rest.getD 0 0) then .char 2 else .bad 1
  | 3 =>
    if secondOfThree b (rest.getD 0 0) then
      if isContinuation (rest.getD 1 0) then .char 3 else .bad 2
    else .bad 1
  | 4 =>
    if secondOfFour b (rest.getD 0 0) then
      if isContinuation (rest.getD 1 0) then
        if isContinuation (rest.getD 2 0) then .char 4 else .bad 3
      else .bad 2
    else .bad 1
  | _ => .bad 1

/-- The first chunk and what follows it. The count bounds the characters read. -/
def nextChunk : ℕ → List UInt8 → Chunk × List UInt8
  | 0, bytes => (⟨[], []⟩, bytes)
  | _, [] => (⟨[], []⟩, [])
  | n + 1, b :: rest =>
    match front b rest with
    | .char width =>
      let later := nextChunk n ((b :: rest).drop width)
      (⟨(b :: rest).take width ++ later.1.valid, later.1.invalid⟩, later.2)
    | .bad width => (⟨[], (b :: rest).take width⟩, (b :: rest).drop width)

def chunksFrom : ℕ → List UInt8 → List Chunk
  | 0, _ => []
  | _, [] => []
  | n + 1, b :: rest =>
    let next := nextChunk (b :: rest).length (b :: rest)
    next.1 :: chunksFrom n next.2

def utf8Chunks (bytes : List UInt8) : List Chunk :=
  chunksFrom bytes.length bytes

/-- U+FFFD in UTF-8. -/
def replacement : List UInt8 :=
  [0xEF, 0xBF, 0xBD]

/-- The fragments of a lossy reading. -/
def Chunk.fragments (c : Chunk) : List (List UInt8) :=
  if c.invalid = [] then [c.valid] else [c.valid, replacement]

def lossyFragments (bytes : List UInt8) : List (List UInt8) :=
  (utf8Chunks bytes).flatMap Chunk.fragments

/-- The bytes as text, every invalid sequence replaced. -/
def fromUtf8Lossy (bytes : List UInt8) : List UInt8 :=
  (lossyFragments bytes).flatten

namespace Inline

/-- The fragments, each cut to the room that is left. -/
def pushAll {room : ℕ} (run : Inline room) (fragments : List (List UInt8)) : Inline room :=
  fragments.foldl pushTruncated run

/-- The bytes as lossy UTF-8. -/
def lossy (room : ℕ) (bytes : List UInt8) : Inline room :=
  (new room).pushAll (lossyFragments bytes)

/-- What a value prints, in the fragments it writes. -/
def display (room : ℕ) (fragments : List (List Char)) : Inline room :=
  (new room).pushAll (fragments.map Utf8.encode)

end Inline

/-- Once a fragment is cut, no later one begins with a character that fits in the room the cut leaves. -/
def Whole (room : ℕ) (fragments : List (List UInt8)) : Prop :=
  ∀ before fragment after, fragments = before ++ fragment :: after →
    before.flatten.length ≤ room → room < (before.flatten ++ fragment).length →
    ∀ later ∈ after,
      Cut.cut beginsChar (room - (Cut.cut beginsChar room (before.flatten ++ fragment)).length) later = []

/-! ## The chunks of a byte string -/

/-- A front takes at least a byte. -/
theorem front_pos (b : UInt8) (rest : List UInt8) : ∀ width,
    front b rest = .char width ∨ front b rest = .bad width → 0 < width := by
  intro width h
  unfold front at h
  split at h
  all_goals first | (split_ifs at h) | skip
  all_goals simp only [Front.char.injEq, Front.bad.injEq, reduceCtorEq, or_false, false_or] at h
  all_goals omega

/-- A byte a character is read at begins one. -/
theorem beginsChar_of_front {b : UInt8} {rest : List UInt8} {width : ℕ} (h : front b rest = .char width) :
    beginsChar b = true := by
  by_contra hnot
  have hwidth : utf8CharWidth b = 0 := by
    simp only [beginsChar, Bool.or_eq_true, decide_eq_true_eq, not_or, UInt8.not_lt, UInt8.not_le] at hnot
    have hlow : ¬ b < 0x80 := UInt8.not_lt.mpr hnot.1
    have hhigh : b < 0xC2 := UInt8.lt_trans hnot.2 (by decide : (192 : UInt8) < 0xC2)
    rw [utf8CharWidth, if_neg hlow, if_pos hhigh]
  rw [front, hwidth] at h
  cases h

/-! ## Fragments begin with a character -/

theorem starts_nextChunk (n : ℕ) (bytes : List UInt8) :
    Cut.Starts beginsChar (nextChunk n bytes).1.valid := by
  cases n with
  | zero =>
    intro a ha
    cases ha
  | succ n =>
    cases bytes with
    | nil =>
      intro a ha
      cases ha
    | cons b rest =>
      rw [nextChunk]
      cases hfront : front b rest with
      | bad width =>
        intro a ha
        cases ha
      | char width =>
        have hpos := front_pos b rest width (Or.inl hfront)
        obtain ⟨k, rfl⟩ := Nat.exists_eq_add_of_lt hpos
        intro a ha
        simp only [Nat.zero_add, take_succ_cons, cons_append, head?_cons,
          Option.mem_some_iff] at ha
        exact ha ▸ beginsChar_of_front hfront

theorem starts_chunksFrom (n : ℕ) (bytes : List UInt8) :
    ∀ c ∈ chunksFrom n bytes, Cut.Starts beginsChar c.valid := by
  induction n generalizing bytes with
  | zero =>
    intro c hc
    cases hc
  | succ n ih =>
    cases bytes with
    | nil =>
      intro c hc
      cases hc
    | cons b rest =>
      rw [chunksFrom]
      exact forall_mem_cons.mpr ⟨starts_nextChunk _ _, ih _⟩

theorem starts_lossyFragments (bytes : List UInt8) :
    ∀ fragment ∈ lossyFragments bytes, Cut.Starts beginsChar fragment := by
  intro fragment hmem
  obtain ⟨c, hc, hfragment⟩ := mem_flatMap.mp hmem
  have hvalid := starts_chunksFrom _ _ c hc
  rw [Chunk.fragments] at hfragment
  split_ifs at hfragment
  · rwa [mem_singleton.mp hfragment]
  · rcases mem_cons.mp hfragment with rfl | hreplacement
    · exact hvalid
    · rw [mem_singleton.mp hreplacement]
      intro a ha
      obtain rfl := Option.mem_some_iff.mp ha
      decide

theorem beginsChar_of_isUTF8FirstByte (b : UInt8) (h : b.IsUTF8FirstByte) : beginsChar b = true := by
  revert h
  have hall : ∀ n : Fin 256, (UInt8.ofNat n).IsUTF8FirstByte → beginsChar (UInt8.ofNat n) = true := by
    decide +kernel
  have hb := hall ⟨b.toNat, b.toNat_lt⟩
  rwa [UInt8.ofNat_toNat] at hb

theorem starts_encode (text : List Char) : Cut.Starts beginsChar (Utf8.encode text) := by
  cases text with
  | nil =>
    intro a ha
    cases ha
  | cons c text =>
    have hbytes : 0 < (String.utf8EncodeChar c).length := by
      rw [String.length_utf8EncodeChar]
      exact Char.utf8Size_pos c
    intro a ha
    obtain ⟨b, rest, hchar⟩ := exists_cons_of_length_pos hbytes
    have hfirst : b.IsUTF8FirstByte := by
      have := (@UInt8.isUTF8FirstByte_getElem_utf8EncodeChar c 0 hbytes).mpr rfl
      simpa only [hchar, getElem_cons_zero] using this
    rw [Utf8.encode_cons, hchar, cons_append, head?_cons, Option.mem_some_iff] at ha
    exact ha ▸ beginsChar_of_isUTF8FirstByte b hfirst

/-! ## The stored text -/

namespace Inline

variable {room : ℕ}

theorem bytes_pushTruncated (run : Inline room) (text : List UInt8) :
    (run.pushTruncated text).bytes = run.bytes ++ Cut.cut beginsChar (room - run.bytes.length) text := by
  have hcut := @Cut.length_cut_le _ beginsChar (room - run.bytes.length) text
  have hfits : run.bytes.length + (Cut.cut beginsChar (room - run.bytes.length) text).length ≤ room := by
    have := run.fits
    omega
  show ((run.tryPush (Cut.cut beginsChar (room - run.bytes.length) text)).getD run).bytes = _
  rw [tryPush, dif_pos hfits]
  rfl

/-- Nothing is stored that does not fit behind what is there. -/
theorem bytes_pushAll_of_cut {run : Inline room} {fragments : List (List UInt8)}
    (h : ∀ fragment ∈ fragments, Cut.cut beginsChar (room - run.bytes.length) fragment = []) :
    (run.pushAll fragments).bytes = run.bytes := by
  induction fragments generalizing run with
  | nil => rfl
  | cons fragment fragments ih =>
    obtain ⟨hfirst, hrest⟩ := forall_mem_cons.mp h
    have hsame : (run.pushTruncated fragment).bytes = run.bytes := by
      rw [bytes_pushTruncated, hfirst, append_nil]
    have hlater : ((run.pushTruncated fragment).pushAll fragments).bytes = (run.pushTruncated fragment).bytes :=
      ih (by rwa [hsame])
    exact hlater.trans hsame

/-- What is stored grows. -/
theorem bytes_prefix_pushAll (run : Inline room) (fragments : List (List UInt8)) :
    run.bytes <+: (run.pushAll fragments).bytes := by
  induction fragments generalizing run with
  | nil => exact prefix_rfl
  | cons fragment fragments ih =>
    have hfirst : run.bytes <+: (run.pushTruncated fragment).bytes := by
      rw [bytes_pushTruncated]
      exact prefix_append _ _
    exact hfirst.trans (ih _)

theorem cut_eq_nil_of_pushAll {run : Inline room} {fragments : List (List UInt8)}
    (h : (run.pushAll fragments).bytes = run.bytes) :
    ∀ fragment ∈ fragments, Cut.cut beginsChar (room - run.bytes.length) fragment = [] := by
  induction fragments generalizing run with
  | nil => simp
  | cons fragment fragments ih =>
    have hgrows := bytes_prefix_pushAll (run.pushTruncated fragment) fragments
    have hpushed : (run.pushTruncated fragment).bytes <+: run.bytes := by
      rw [← h]
      exact hgrows
    rw [bytes_pushTruncated] at hpushed
    have hnil : Cut.cut beginsChar (room - run.bytes.length) fragment = [] := by
      have hlength := hpushed.length_le
      rw [length_append] at hlength
      exact length_eq_zero_iff.mp (by omega)
    have hsame : (run.pushTruncated fragment).bytes = run.bytes := by
      rw [bytes_pushTruncated, hnil, append_nil]
    have hrest : ∀ later ∈ fragments, Cut.cut beginsChar (room - run.bytes.length) later = [] := by
      have := @ih (run.pushTruncated fragment) (by rw [hsame]; exact h)
      rwa [hsame] at this
    exact forall_mem_cons.mpr ⟨hnil, hrest⟩

end Inline

/-! ## Holes -/

/-- There is one fragment the room ends in. -/
theorem cut_fragment_unique {room : ℕ} {before before' after after' : List (List UInt8)} {fragment fragment' : List UInt8}
    (heq : before ++ fragment :: after = before' ++ fragment' :: after')
    (hbefore : before.flatten.length ≤ room) (hcut : room < (before.flatten ++ fragment).length)
    (hbefore' : before'.flatten.length ≤ room) (hcut' : room < (before'.flatten ++ fragment').length) :
    before = before' ∧ fragment = fragment' ∧ after = after' := by
  -- a fragment that ends before another begins would have to be within the room and past it
  have hnot {one other later rest : List (List UInt8)} {mid last : List UInt8}
      (hsplit : one ++ mid :: rest = other ++ last :: later) (hlt : one.length < other.length) :
      (one.flatten ++ mid).length ≤ other.flatten.length := by
    have hprefix : one ++ [mid] <+: other := by
      have hfirst : one ++ [mid] <+: other ++ last :: later := by
        rw [← hsplit]
        exact ⟨rest, by simp⟩
      refine prefix_of_prefix_length_le hfirst (prefix_append _ _) ?_
      rw [length_append, length_singleton]
      exact hlt
    obtain ⟨tail, htail⟩ := hprefix
    rw [← htail]
    simp
  rcases Nat.lt_trichotomy before.length before'.length with hlt | hsame | hgt
  · have := hnot heq hlt
    omega
  · obtain ⟨rfl, hrest⟩ := append_inj heq hsame
    cases hrest
    exact ⟨rfl, rfl, rfl⟩
  · have := hnot heq.symm hgt
    omega

theorem whole_iff {room : ℕ} {before after : List (List UInt8)} {fragment : List UInt8}
    (hbefore : before.flatten.length ≤ room) (hcut : room < (before.flatten ++ fragment).length) :
    Whole room (before ++ fragment :: after) ↔ ∀ later ∈ after,
        Cut.cut beginsChar (room - (Cut.cut beginsChar room (before.flatten ++ fragment)).length) later = [] := by
  constructor
  · exact fun hwhole => hwhole before fragment after rfl hbefore hcut
  · intro hlater before' fragment' after' heq hbefore' hcut'
    obtain ⟨rfl, rfl, rfl⟩ := cut_fragment_unique heq hbefore hcut hbefore' hcut'
    exact hlater

/-- From a text that holds the first fragments whole, the rest is stored without a hole exactly under `Whole`. -/
theorem pushAll_eq_cut_iff {room : ℕ} {before after : List (List UInt8)} {run : Inline room}
    (hstarts : ∀ fragment ∈ after, Cut.Starts beginsChar fragment) (hrun : run.bytes = before.flatten) :
    (run.pushAll after).bytes = Cut.cut beginsChar room (before ++ after).flatten ↔ Whole room (before ++ after) := by
  induction after generalizing before run with
  | nil =>
    have hfits : before.flatten.length ≤ room := hrun ▸ run.fits
    refine ⟨fun _ => ?_, fun _ => ?_⟩
    · -- every fragment fits, so none is cut
      intro first fragment later heq _ hcut
      rw [append_nil] at heq
      rw [heq] at hfits
      simp only [flatten_append, flatten_cons, length_append] at hfits hcut
      omega
    · rw [append_nil, Cut.cut_of_le hfits]
      exact hrun
  | cons fragment after ih =>
    obtain ⟨hfragment, hrest⟩ := forall_mem_cons.mp hstarts
    have hbefore : before.flatten.length ≤ room := hrun ▸ run.fits
    have hpush : (run.pushTruncated fragment).bytes = Cut.cut beginsChar room (before.flatten ++ fragment) := by
      rw [Inline.bytes_pushTruncated, hrun, Cut.cut_append hfragment hbefore]
    rcases Nat.lt_or_ge room (before.flatten ++ fragment).length with hcut | hfits
    · have htext : Cut.cut beginsChar room (before ++ fragment :: after).flatten =
          (run.pushTruncated fragment).bytes := by
        rw [hpush, flatten_append, flatten_cons, ← append_assoc, Cut.cut_append_of_lt hcut]
      rw [whole_iff hbefore hcut, htext, ← hpush]
      exact ⟨fun h => @Inline.cut_eq_nil_of_pushAll _ (run.pushTruncated fragment) after h,
        fun h => @Inline.bytes_pushAll_of_cut _ (run.pushTruncated fragment) after h⟩
    · rw [Cut.cut_of_le hfits] at hpush
      have hmore := @ih (before ++ [fragment]) (run.pushTruncated fragment) hrest (by simpa using hpush)
      rwa [append_assoc, singleton_append] at hmore

theorem flatten_map_encode (fragments : List (List Char)) :
    (fragments.map Utf8.encode).flatten = Utf8.encode fragments.flatten := by
  induction fragments with
  | nil => rfl
  | cons fragment fragments ih =>
    rw [map_cons, flatten_cons, ih, flatten_cons]
    simp [Utf8.encode]

/-- **When a bounded error text is a part of the whole.** For every room: what is stored of a byte string read as
lossy text, and of a value printed in any fragments, is the longest part of the full text that fits and ends on a
character boundary exactly when no fragment behind a cut begins with a character that fits in the room the cut
leaves. -/
theorem inline_text_iff (room : ℕ) :
    (∀ bytes, (Inline.lossy room bytes).bytes = Cut.cut beginsChar room (fromUtf8Lossy bytes) ↔
      Whole room (lossyFragments bytes)) ∧
    ∀ fragments, (Inline.display room fragments).bytes =
        Cut.cut beginsChar room (Utf8.encode fragments.flatten) ↔
      Whole room (fragments.map Utf8.encode) := by
  refine ⟨fun bytes => ?_, fun fragments => ?_⟩
  · exact @pushAll_eq_cut_iff room [] _ (Inline.new room) (starts_lossyFragments bytes) rfl
  · have hstarts : ∀ fragment ∈ fragments.map Utf8.encode, Cut.Starts beginsChar fragment := by
      intro fragment hmem
      obtain ⟨text, -, rfl⟩ := List.mem_map.mp hmem
      exact starts_encode text
    rw [← flatten_map_encode]
    exact @pushAll_eq_cut_iff room [] _ (Inline.new room) hstarts rfl

/-- Three bytes of room: the second of two letters of two bytes is cut, and the narrow letter behind it is stored,
both where a value prints it on its own and where it follows an invalid byte. -/
theorem hole_behind_cut :
    (Inline.display 3 [['é', 'é'], ['a']]).bytes = Utf8.encode ['é', 'a'] ∧
      Cut.cut beginsChar 3 (Utf8.encode ['é', 'é', 'a']) = Utf8.encode ['é'] ∧
      (Inline.lossy 3 [0xC3, 0xA9, 0xC3, 0xA9, 0xFF, 0x61]).bytes = Utf8.encode ['é', 'a'] ∧
      Cut.cut beginsChar 3 (fromUtf8Lossy [0xC3, 0xA9, 0xC3, 0xA9, 0xFF, 0x61]) = Utf8.encode ['é'] := by
  decide +kernel

end RustStream
