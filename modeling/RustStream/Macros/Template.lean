import RustStream.Lib.Split

/-!
# Templated destinations

A message type may declare the name it is published to with `{segment}` placeholders in it. The derive splits the
name at compile time, and the generated builder renders an address with `format!`: the literal parts of the name
joined by `{}`, and one value for each placeholder.

A placeholder's text is read as an identifier, and the literals are read again by `format!`, which
has its own reading of braces. The loop looks for a `}` only in what follows the last placeholder. One that stands
before a `{` stays in a literal: such a name is accepted, and `format!` refuses it, or renders two of them as one.

How a text is read as an identifier is a parameter.

## Main definitions

* `parseTemplate`, `Template.formatString`, `Template.address`: the derive and the address it builds.
* `formatArgs`: what `format!` makes of a format string.
* `Reads`: how a name alternates between text and placeholders.
* `Renders`: a name with each placeholder replaced by its value.

## Main results

* `parseTemplate_eq_ok_iff`: the names the derive accepts, and what it splits them into.
* `template_renders_iff`: when it accepts and renders them as declared.
-/

namespace RustStream

open List

namespace Macros

variable {I : Type}

/-- Why a declared name is refused. -/
inductive TemplateError where
  | unclosed
  | empty
  | invalid (placeholder : List Char)
  | twice (placeholder : List Char)
  | unmatched
  deriving DecidableEq, Repr

def TemplateError.message : TemplateError → String
  | .unclosed => "unclosed `\x7b` in the declared name: every placeholder reads `\x7bsegment\x7d`"
  | .empty => "empty placeholder in the declared name: name the segment, as in `\x7btenant\x7d`"
  | .invalid placeholder =>
    "`" ++ String.ofList placeholder ++ "` is not a valid segment name: a placeholder becomes the " ++
      "setter that binds it, so it has to be an identifier"
  | .twice placeholder =>
    "`" ++ String.ofList placeholder ++ "` appears twice in the declared name: one setter cannot bind " ++
      "two segments"
  | .unmatched => "unmatched `\x7d` in the declared name: every placeholder reads `\x7bsegment\x7d`"

/-- A declared name, split: the literal parts around the placeholders, one more than those, and the placeholders. -/
structure Template (I : Type) where
  literals : List (List Char)
  placeholders : List I
  deriving DecidableEq, Repr

/-- The loop over what is left of the name. -/
def parseLoop [DecidableEq I] (ident : List Char → Option I) (literals : List (List Char)) (placeholders : List I)
    (rest : List Char) : Except TemplateError (Template I) :=
  match hopen : Split.once (· == '{') rest with
  | none => if '}' ∈ rest then .error .unmatched else .ok ⟨literals ++ [rest], placeholders⟩
  | some (before, after) =>
    match hclose : Split.once (· == '}') after with
    | none => .error .unclosed
    | some (placeholder, tail) =>
      if placeholder = [] then .error .empty
      else
        match ident placeholder with
        | none => .error (.invalid placeholder)
        | some segment =>
          if segment ∈ placeholders then .error (.twice placeholder)
          else parseLoop ident (literals ++ [before]) (placeholders ++ [segment]) tail
termination_by rest.length
decreasing_by
  obtain ⟨_, _, hrest, _⟩ := Split.once_eq_some_iff.mp hopen
  obtain ⟨_, _, hafter, _⟩ := Split.once_eq_some_iff.mp hclose
  rw [hrest, hafter]
  simp only [length_append, length_cons]
  omega

def parseTemplate [DecidableEq I] (ident : List Char → Option I) (name : List Char) :
    Except TemplateError (Template I) :=
  parseLoop ident [] [] name

/-- The string `format!` is given. -/
def Template.formatString (t : Template I) : List Char :=
  List.intercalate ['{', '}'] t.literals

/-- What `format!` makes of a format string and its arguments: doubled braces are one, `{}` is the next argument,
and it refuses any other brace and an argument that is never used. -/
def formatArgs : List Char → List (List Char) → Option (List Char)
  | '{' :: '{' :: rest, args => (formatArgs rest args).map ('{' :: ·)
  | '{' :: '}' :: rest, arg :: args => (formatArgs rest args).map (arg ++ ·)
  | '}' :: '}' :: rest, args => (formatArgs rest args).map ('}' :: ·)
  | c :: rest, args => if c = '{' ∨ c = '}' then none else (formatArgs rest args).map (c :: ·)
  | [], [] => some []
  | [], _ :: _ => none

/-- The address of a publish that bound each placeholder to a value. -/
def Template.address (t : Template I) (values : I → List Char) : Option (List Char) :=
  formatArgs t.formatString (t.placeholders.map values)

/-! ## Names -/

/-- How a name alternates between text and placeholders. Text before a placeholder is `clean`, text after the last
one holds no brace. -/
inductive Reads (ident : List Char → Option I) (clean : List Char → Prop) :
    List Char → List (List Char) → List I → Prop where
  | text {text : List Char} : '{' ∉ text → '}' ∉ text → Reads ident clean text [text] []
  | segment {text name tail : List Char} {i : I} {literals : List (List Char)} {segments : List I} :
      '{' ∉ text → clean text → name ≠ [] → '}' ∉ name → ident name = some i →
      Reads ident clean tail literals segments →
      Reads ident clean (text ++ '{' :: (name ++ '}' :: tail)) (text :: literals) (i :: segments)

/-- An alternation of text without braces and placeholders of distinct identifiers. -/
def IsTemplate (ident : List Char → Option I) (name : List Char) : Prop :=
  ∃ literals segments, Reads ident ('}' ∉ ·) name literals segments ∧ segments.Nodup

/-- The second text is the first with every placeholder replaced by its value. -/
inductive Renders (ident : List Char → Option I) (values : I → List Char) : List Char → List Char → Prop where
  | text {text : List Char} : '{' ∉ text → '}' ∉ text → Renders ident values text text
  | segment {text name tail out : List Char} {i : I} :
      '{' ∉ text → '}' ∉ text → '}' ∉ name → ident name = some i → Renders ident values tail out →
      Renders ident values (text ++ '{' :: (name ++ '}' :: tail)) (text ++ (values i ++ out))

/-- However the name reads as text and placeholders of distinct identifiers, no `}` stands in the text. -/
def NoStrayClose (ident : List Char → Option I) (name : List Char) : Prop :=
  ∀ literals segments, Reads ident (fun _ => True) name literals segments → segments.Nodup →
    ∀ text ∈ literals, '}' ∉ text

section

variable {ident : List Char → Option I} {clean : List Char → Prop} {name : List Char}
  {literals : List (List Char)} {segments : List I}

theorem Reads.lax (h : Reads ident clean name literals segments) :
    Reads ident (fun _ => True) name literals segments := by
  induction h with
  | text hopen hclose => exact Reads.text hopen hclose
  | segment hopen _ hname hclose hident _ ih => exact Reads.segment hopen trivial hname hclose hident ih

theorem Reads.strict (h : Reads ident (fun _ => True) name literals segments)
    (hclean : ∀ text ∈ literals, '}' ∉ text) : Reads ident ('}' ∉ ·) name literals segments := by
  induction h with
  | text hopen hclose => exact Reads.text hopen hclose
  | segment hopen _ hname hclose hident _ ih =>
    obtain ⟨htext, hrest⟩ := forall_mem_cons.mp hclean
    exact Reads.segment hopen htext hname hclose hident (ih hrest)

theorem Reads.clean_literals (h : Reads ident ('}' ∉ ·) name literals segments) :
    ∀ text ∈ literals, '}' ∉ text := by
  induction h with
  | text _ hclose => simpa using hclose
  | segment _ htext _ _ _ _ ih => exact forall_mem_cons.mpr ⟨htext, ih⟩

end

/-! ## What the derive accepts -/

section

variable [DecidableEq I] {ident : List Char → Option I} {name : List Char}
  {literals : List (List Char)} {segments : List I}

variable {c : Char}

variable {text : List Char}

theorem eq_false_of_not_mem (h : c ∉ text) : ∀ b ∈ text, (b == c) = false :=
  fun _ hb => beq_eq_false_iff_ne.mpr fun heq => h (heq ▸ hb)

theorem not_mem_of_eq_false (h : ∀ b ∈ text, (b == c) = false) : c ∉ text :=
  fun hc => by simpa using h c hc

theorem once_of_not_mem (h : c ∉ text) : Split.once (· == c) text = none :=
  Split.once_eq_none_iff.mpr (eq_false_of_not_mem h)

theorem once_brace {before : List Char} (h : c ∉ before) (after : List Char) :
    Split.once (· == c) (before ++ c :: after) = some (before, after) :=
  Split.once_append_cons (eq_false_of_not_mem h) (beq_self_eq_true c) after

theorem of_once {text before after : List Char} (h : Split.once (· == c) text = some (before, after)) :
    text = before ++ c :: after ∧ c ∉ before := by
  obtain ⟨b, hb, htext, hbefore⟩ := Split.once_eq_some_iff.mp h
  obtain rfl := beq_iff_eq.mp hb
  exact ⟨htext, not_mem_of_eq_false hbefore⟩

/-- A name the loop accepts reads as what it adds to the parts so far. -/
theorem reads_of_parseLoop {done : List (List Char)} {taken : List I} {rest : List Char} {t : Template I}
    (h : parseLoop ident done taken rest = .ok t) :
    ∃ literals segments, Reads ident (fun _ => True) rest literals segments ∧
      t = ⟨done ++ literals, taken ++ segments⟩ ∧ (taken.Nodup → (taken ++ segments).Nodup) := by
  induction done, taken, rest using parseLoop.induct ident with
  | case1 done taken rest hopen hclose =>
    rw [parseLoop, hopen] at h
    simp [hclose] at h
  | case2 done taken rest hopen hclose =>
    rw [parseLoop, hopen] at h
    simp only [hclose, if_false, Except.ok.injEq] at h
    refine ⟨[rest], [], ?_, h.symm.trans (by simp), by simp⟩
    exact Reads.text (not_mem_of_eq_false (Split.once_eq_none_iff.mp hopen)) hclose
  | case3 done taken rest before after hopen hclose =>
    rw [parseLoop, hopen] at h
    simp only at h
    rw [hclose] at h
    cases h
  | case4 done taken rest before after hopen tail hclose =>
    rw [parseLoop, hopen] at h
    simp only at h
    rw [hclose] at h
    simp at h
  | case5 done taken rest before after hopen placeholder tail hclose hne hident =>
    rw [parseLoop, hopen] at h
    simp only at h
    rw [hclose] at h
    simp [hne, hident] at h
  | case6 done taken rest before after hopen placeholder tail hclose hne segment hident hmem =>
    rw [parseLoop, hopen] at h
    simp only at h
    rw [hclose] at h
    simp [hne, hident, hmem] at h
  | case7 done taken rest before after hopen placeholder tail hclose hne segment hident hmem ih =>
    rw [parseLoop, hopen] at h
    simp only at h
    rw [hclose] at h
    simp only [hne, hident, hmem, if_false] at h
    obtain ⟨literals, segments, hreads, ht, hnodup⟩ := ih h
    obtain ⟨rfl, hbefore⟩ := of_once hopen
    obtain ⟨rfl, hplaceholder⟩ := of_once hclose
    refine ⟨before :: literals, segment :: segments, ?_, ?_, fun htaken => ?_⟩
    · exact Reads.segment hbefore trivial hne hplaceholder hident hreads
    · rw [ht]
      simp
    · have hmore : (taken ++ [segment]).Nodup := by
        rw [nodup_append]
        refine ⟨htaken, nodup_singleton _, fun a ha b hb heq => hmem ?_⟩
        rwa [← mem_singleton.mp hb, ← heq]
      simpa using hnodup hmore

/-- The loop accepts a name that reads as text and placeholders, if none repeats. -/
theorem parseLoop_of_reads {rest : List Char} (h : Reads ident (fun _ => True) rest literals segments)
    (done : List (List Char)) (taken : List I) (hnodup : (taken ++ segments).Nodup) :
    parseLoop ident done taken rest = .ok ⟨done ++ literals, taken ++ segments⟩ := by
  induction h generalizing done taken with
  | @text rest hopen hclose =>
    have hnone := once_of_not_mem hopen
    rw [parseLoop, hnone]
    simp [hclose]
  | @segment text name tail i literals segments hopen _ hname hclose hident _ ih =>
    have hfirst := once_brace hopen (name ++ '}' :: tail)
    have hsecond := once_brace hclose tail
    have hfresh : i ∉ taken := by
      have := (nodup_append.mp hnodup).2.2
      exact fun hmem => this i hmem i mem_cons_self rfl
    rw [parseLoop, hfirst]
    simp only
    rw [hsecond]
    simp only [hname, hident, hfresh, if_false]
    rw [ih (done ++ [text]) (taken ++ [i]) (by simpa using hnodup)]
    simp

/-- **What the derive accepts.** Text before a placeholder may hold a `}`. -/
theorem parseTemplate_eq_ok_iff {t : Template I} : parseTemplate ident name = .ok t ↔
      Reads ident (fun _ => True) name t.literals t.placeholders ∧ t.placeholders.Nodup := by
  constructor
  · intro h
    obtain ⟨literals, segments, hreads, rfl, hnodup⟩ := reads_of_parseLoop h
    exact ⟨hreads, by simpa using hnodup nodup_nil⟩
  · rintro ⟨hreads, hnodup⟩
    exact parseLoop_of_reads hreads [] [] hnodup

/-- A name reads in one way. -/
theorem Reads.unique (h : Reads ident (fun _ => True) name literals segments) {literals' : List (List Char)}
    {segments' : List I} (h' : Reads ident (fun _ => True) name literals' segments') (hnodup : segments.Nodup)
    (hnodup' : segments'.Nodup) : literals' = literals := by
  have hone : parseTemplate ident name = .ok ⟨literals, segments⟩ := parseTemplate_eq_ok_iff.mpr ⟨h, hnodup⟩
  have hother : parseTemplate ident name = .ok ⟨literals', segments'⟩ := parseTemplate_eq_ok_iff.mpr ⟨h', hnodup'⟩
  rw [hone] at hother
  cases hother
  rfl

end

/-! ## What `format!` makes of it -/

section

variable {ident : List Char → Option I} {name : List Char} {literals : List (List Char)} {segments : List I}

/-- Text without braces is printed as it is. -/
theorem formatArgs_append {text : List Char} (hopen : '{' ∉ text) (hclose : '}' ∉ text) (rest : List Char)
    (args : List (List Char)) :
    formatArgs (text ++ rest) args = (formatArgs rest args).map (text ++ ·) := by
  induction text with
  | nil => simp
  | cons c text ih =>
    have hc : c ≠ '{' ∧ c ≠ '}' :=
      ⟨fun h => hopen (h ▸ mem_cons_self), fun h => hclose (h ▸ mem_cons_self)⟩
    have hrest := ih (fun h => hopen (mem_cons_of_mem _ h)) (fun h => hclose (mem_cons_of_mem _ h))
    rw [cons_append, formatArgs, hrest, if_neg (by simp [hc.1, hc.2]), Option.map_map]
    · rfl
    all_goals simp_all

/-- **The address is the declared name with its placeholders replaced.** -/
theorem Reads.address (h : Reads ident ('}' ∉ ·) name literals segments) (values : I → List Char) :
    ∃ address, Template.address ⟨literals, segments⟩ values = some address ∧
      Renders ident values name address := by
  induction h with
  | @text text hopen hclose =>
    refine ⟨text, ?_, Renders.text hopen hclose⟩
    have hprinted := formatArgs_append hopen hclose [] []
    rw [append_nil] at hprinted
    simp only [Template.address, Template.formatString, intercalate_singleton, map_nil, hprinted,
      formatArgs, Option.map_some, append_nil]
  | @segment text name tail i literals segments hopen htext hname hclose hident hreads ih =>
    obtain ⟨address, haddress, hrenders⟩ := ih
    refine ⟨text ++ (values i ++ address), ?_, Renders.segment hopen htext hclose hident hrenders⟩
    have hne : literals ≠ [] := by
      cases hreads <;> simp
    have hjoined : List.intercalate ['{', '}'] (text :: literals) =
        text ++ '{' :: '}' :: List.intercalate ['{', '}'] literals := by
      rw [intercalate_cons_of_ne_nil hne]
      simp
    rw [Template.address, Template.formatString] at haddress ⊢
    rw [hjoined, formatArgs_append hopen htext, map_cons, formatArgs, haddress]
    rfl

end

/-- **A templated name renders as it was declared, unless a `}` stands outside a placeholder.** For every name: the
derive accepts it exactly when it alternates between text without braces and placeholders of distinct identifiers,
and the address is the name with each placeholder replaced, precisely when no `}` stands in text before a
placeholder. -/
theorem template_renders_iff [DecidableEq I] (ident : List Char → Option I) (name : List Char) :
    (((∃ t, parseTemplate ident name = .ok t) ↔ IsTemplate ident name) ∧
      ∀ t, parseTemplate ident name = .ok t → ∀ values : I → List Char,
        ∃ address, t.address values = some address ∧ Renders ident values name address) ↔
      NoStrayClose ident name := by
  constructor
  · rintro ⟨haccepts, -⟩ literals segments hreads hnodup
    obtain ⟨literals', segments', hstrict, hnodup'⟩ :=
      haccepts.mp ⟨⟨literals, segments⟩, parseTemplate_eq_ok_iff.mpr ⟨hreads, hnodup⟩⟩
    obtain rfl := hreads.unique hstrict.lax hnodup hnodup'
    exact hstrict.clean_literals
  · intro hclean
    refine ⟨⟨?_, ?_⟩, fun t ht values => ?_⟩
    · rintro ⟨t, ht⟩
      obtain ⟨hreads, hnodup⟩ := parseTemplate_eq_ok_iff.mp ht
      exact ⟨t.literals, t.placeholders, hreads.strict (hclean _ _ hreads hnodup), hnodup⟩
    · rintro ⟨literals, segments, hreads, hnodup⟩
      exact ⟨⟨literals, segments⟩, parseTemplate_eq_ok_iff.mpr ⟨hreads.lax, hnodup⟩⟩
    · obtain ⟨hreads, hnodup⟩ := parseTemplate_eq_ok_iff.mp ht
      exact (hreads.strict (hclean _ _ hreads hnodup)).address values

/-- A name that is accepted with a doubled `}` in its text, which is no alternation; `format!` prints one. -/
theorem doubled_close_halved :
    ∃ t, parseTemplate (fun text => if text.all Char.isAlpha then some text else none)
        ['a', '}', '}', '{', 'x', '}'] = .ok t ∧
      t.address (fun _ => ['7']) = some ['a', '}', '7'] ∧
      ¬ IsTemplate (fun text => if text.all Char.isAlpha then some text else none)
        ['a', '}', '}', '{', 'x', '}'] := by
  have hreads : Reads (fun text => if text.all Char.isAlpha then some text else none) (fun _ => True)
      ['a', '}', '}', '{', 'x', '}'] [['a', '}', '}'], []] [['x']] :=
    @Reads.segment _ _ _ ['a', '}', '}'] ['x'] [] ['x'] [[]] [] (by decide) trivial (by decide) (by decide) (by decide)
      (Reads.text (by decide) (by decide))
  refine ⟨⟨_, _⟩, parseTemplate_eq_ok_iff.mpr ⟨hreads, by decide⟩, by decide, ?_⟩
  rintro ⟨literals, segments, hstrict, hnodup⟩
  obtain rfl := hreads.unique hstrict.lax (by decide) hnodup
  exact hstrict.clean_literals _ List.mem_cons_self (by decide)

end Macros

end RustStream
