import RustStream.Lib.Select

/-!
# Subscription patterns

A name is split into tokens at its dots. In a pattern a token `*` stands for exactly one token of a
name and `>`, as the last one, for one or more. Patterns are compared by specificity: token by token
from the left, a literal beats `*` and `*` beats `>`.

A pattern carries the fact that `>` stands last. It is what makes the most specific match unique:
two patterns that match one name and rank alike are the same pattern, and were written the same.

## Main definitions

* `hasWildcard`, `Pattern`, `Pattern.parse`: patterns and their texts.
* `Pattern.matchesName`, `Pattern.specificity`: matching and the order of patterns.

## Main results

* `Pattern.eq_of_matches`: matching patterns of equal specificity are equal.
* `Pattern.parse_injective`: a text is determined by its pattern.
-/

namespace RustStream

open List

/-- The tokens of a name, split at the dots. -/
def tokensOf (name : String) : List (List Char) :=
  name.toList.splitOn '.'

theorem tokensOf_injective : Function.Injective tokensOf := by
  intro name name' h
  have hjoin := congrArg (List.intercalate ['.']) h
  rw [tokensOf, tokensOf, intercalate_splitOn, intercalate_splitOn] at hjoin
  exact String.toList_inj.mp hjoin

/-- Whether a name carries a wildcard token, which makes it a pattern rather than a name. -/
def hasWildcard (name : String) : Bool :=
  (tokensOf name).any fun token => token = ['*'] || token = ['>']

/-- Why a subscription pattern was refused. -/
inductive PatternError where
  | emptyToken (token : ℕ)
  | tailNotLast (token : ℕ)
  | noWildcard
  deriving DecidableEq, Repr

/-- One token of a parsed pattern: a literal, `*`, or `>`. -/
inductive Token where
  | literal (text : List Char)
  | one
  | tail
  deriving DecidableEq, Repr

namespace Token

/-- The token's place in the specificity order. -/
def rank : Token → ℕ
  | .literal _ => 2
  | .one => 1
  | .tail => 0

/-- The token as it was written. -/
def text : Token → List Char
  | .literal text => text
  | .one => ['*']
  | .tail => ['>']

def isWildcard : Token → Bool
  | .literal _ => false
  | _ => true

end Token

/-- A `>` stands only at the end. -/
def TailLast : List Token → Prop
  | [] => True
  | .tail :: tokens => tokens = []
  | _ :: tokens => TailLast tokens

/-- A subscription pattern. -/
@[ext] structure Pattern where
  tokens : List Token
  tailLast : TailLast tokens
  deriving DecidableEq

namespace Pattern

/-! ## Parsing -/

/-- Parses the token at `index` of `count`. -/
def parseToken (count index : ℕ) (token : List Char) : Except PatternError Token :=
  if token = [] then .error (.emptyToken index)
  else if token = ['>'] then
    if index + 1 < count then .error (.tailNotLast index) else .ok .tail
  else if token = ['*'] then .ok .one
  else .ok (.literal token)

/-- Parses the tokens from `index` on and stops at the first fault. -/
def parseTokens (count : ℕ) : ℕ → List (List Char) → Except PatternError (List Token)
  | _, [] => .ok []
  | index, part :: parts => do
    let token ← parseToken count index part
    let tokens ← parseTokens count (index + 1) parts
    return token :: tokens

variable {count index : ℕ} {part : List Char} {parts : List (List Char)} {token : Token}
  {tokens : List Token}

theorem parseTokens_cons (h : parseTokens count index (part :: parts) = .ok tokens) :
    ∃ token tokens', parseToken count index part = .ok token ∧
      parseTokens count (index + 1) parts = .ok tokens' ∧ tokens = token :: tokens' := by
  rw [parseTokens] at h
  cases hhead : parseToken count index part with
  | error fault =>
    rw [hhead] at h
    cases h
  | ok token =>
    cases htail : parseTokens count (index + 1) parts with
    | error fault =>
      rw [hhead, htail] at h
      cases h
    | ok tokens' =>
      rw [hhead, htail] at h
      cases h
      exact ⟨token, tokens', rfl, rfl, rfl⟩

/-- A token is read as what it was written as, and `>` only at the end. -/
theorem parseToken_spec (h : parseToken count index part = .ok token) :
    token.text = part ∧ (token = .tail → count ≤ index + 1) := by
  unfold parseToken at h
  split_ifs at h with hempty htail hmiddle hone
  · cases h
    exact ⟨htail.symm, fun _ => Nat.le_of_not_lt hmiddle⟩
  · cases h
    exact ⟨hone.symm, fun h => by cases h⟩
  · cases h
    exact ⟨rfl, fun h => by cases h⟩

theorem parseTokens_text (h : parseTokens count index parts = .ok tokens) :
    tokens.map Token.text = parts := by
  induction parts generalizing index tokens with
  | nil =>
    cases h
    rfl
  | cons part parts ih =>
    obtain ⟨token, tokens', hhead, htail, rfl⟩ := parseTokens_cons h
    rw [map_cons, (parseToken_spec hhead).1, ih htail]

theorem parseTokens_tailLast (h : parseTokens count index parts = .ok tokens)
    (hcount : index + parts.length = count) : TailLast tokens := by
  induction parts generalizing index tokens with
  | nil =>
    cases h
    trivial
  | cons part parts ih =>
    obtain ⟨token, tokens', hhead, htail, rfl⟩ := parseTokens_cons h
    rw [length_cons] at hcount
    have hrest := ih htail (by omega)
    cases token with
    | literal text => exact hrest
    | one => exact hrest
    | tail =>
      -- the parts after it would put it before the last place
      have hlast := (parseToken_spec hhead).2 rfl
      have hnil : parts = [] := eq_nil_of_length_eq_zero (by omega)
      subst hnil
      cases htail
      rfl

/-- Parses a pattern: the first fault from the left, or a pattern with a wildcard token. -/
def parse (text : String) : Except PatternError Pattern :=
  match h : parseTokens (tokensOf text).length 0 (tokensOf text) with
  | .error fault => .error fault
  | .ok tokens =>
    if tokens.any Token.isWildcard then
      .ok ⟨tokens, parseTokens_tailLast h (Nat.zero_add _)⟩
    else .error .noWildcard

variable {pattern : Pattern}

theorem parse_eq_ok {text : String} (h : parse text = .ok pattern) :
    parseTokens (tokensOf text).length 0 (tokensOf text) = .ok pattern.tokens ∧
      pattern.tokens.any Token.isWildcard = true := by
  unfold parse at h
  split at h
  · cases h
  · rename_i tokens htokens
    split_ifs at h with hwild
    cases h
    exact ⟨htokens, hwild⟩

theorem text_of_parse {text : String} (h : parse text = .ok pattern) :
    pattern.tokens.map Token.text = tokensOf text :=
  parseTokens_text (parse_eq_ok h).1

/-- **A text is determined by its pattern.** -/
theorem parse_injective {text text' : String} (h : parse text = .ok pattern)
    (h' : parse text' = .ok pattern) : text = text' :=
  tokensOf_injective ((text_of_parse h).symm.trans (text_of_parse h'))

/-! ## Matching -/

/-- Whether the tokens match the parts of a name. An empty part is matched by no wildcard. -/
def matchTokens : List Token → List (List Char) → Bool
  | [], parts => parts.isEmpty
  | .tail :: _, [] => false
  | .tail :: _, part :: parts => !part.isEmpty && parts.all fun part => !part.isEmpty
  | .one :: _, [] => false
  | .one :: tokens, part :: parts => !part.isEmpty && matchTokens tokens parts
  | .literal _ :: _, [] => false
  | .literal text :: tokens, part :: parts => part = text && matchTokens tokens parts

/-- Whether a publish to `name` matches the pattern. -/
def matchesName (pattern : Pattern) (name : String) : Bool :=
  matchTokens pattern.tokens (tokensOf name)

/-- The ranks of the tokens, which the patterns are compared by. -/
def ranks (pattern : Pattern) : List ℕ :=
  pattern.tokens.map Token.rank

/-- Orders two patterns by specificity, lexicographically: greater is more specific. -/
def specificity (pattern other : Pattern) : Ordering :=
  compare pattern.ranks other.ranks

instance : Std.TransCmp specificity where
  eq_swap {pattern other} := by
    change compare pattern.ranks other.ranks = (compare other.ranks pattern.ranks).swap
    exact Std.OrientedCmp.eq_swap
  isLE_trans {pattern other third} h h' := by
    change (compare pattern.ranks third.ranks).isLE = true
    exact Std.TransCmp.isLE_trans h h'

theorem ranks_eq_of_isLE {pattern other : Pattern}
    (h : (pattern.specificity other).isLE = true) (h' : (other.specificity pattern).isLE = true) :
    pattern.ranks = other.ranks :=
  Std.LawfulEqCmp.eq_of_compare (Std.OrientedCmp.isLE_antisymm h h')

/-- The parts of a name and the ranks determine the tokens, because `>` stands only at the end. -/
theorem eq_of_matchTokens {tokens tokens' : List Token} {parts : List (List Char)}
    (hlast : TailLast tokens) (hlast' : TailLast tokens')
    (h : matchTokens tokens parts = true) (h' : matchTokens tokens' parts = true)
    (hranks : tokens.map Token.rank = tokens'.map Token.rank) : tokens = tokens' := by
  induction tokens generalizing tokens' parts with
  | nil => exact (map_eq_nil_iff.mp hranks.symm).symm
  | cons token tokens ih =>
    obtain ⟨token', tokens', rfl, hrank, htail⟩ := map_eq_cons_iff.mp hranks.symm
    cases parts with
    | nil => cases token <;> simp [matchTokens] at h
    | cons part parts =>
      match token, token', hrank with
      | .literal text, .literal text', _ =>
        have hrest : TailLast tokens := hlast
        have hrest' : TailLast tokens' := hlast'
        simp only [matchTokens, Bool.and_eq_true, decide_eq_true_eq] at h h'
        rw [← h.1, ← h'.1, ih hrest hrest' h.2 h'.2 htail.symm]
      | .one, .one, _ =>
        have hrest : TailLast tokens := hlast
        have hrest' : TailLast tokens' := hlast'
        simp only [matchTokens, Bool.and_eq_true] at h h'
        rw [ih hrest hrest' h.2 h'.2 htail.symm]
      | .tail, .tail, _ =>
        have hnil : tokens = [] := hlast
        have hnil' : tokens' = [] := hlast'
        rw [hnil, hnil']

/-- **The most specific match is unique.** Two patterns that match one name and of which neither is
more specific are equal. -/
theorem eq_of_matches {pattern other : Pattern} {name : String}
    (h : pattern.matchesName name = true) (h' : other.matchesName name = true)
    (hle : (pattern.specificity other).isLE = true)
    (hle' : (other.specificity pattern).isLE = true) : pattern = other :=
  Pattern.ext (eq_of_matchTokens pattern.tailLast other.tailLast h h' (ranks_eq_of_isLE hle hle'))

end Pattern

/-- A text that parses as a pattern carries a wildcard. -/
theorem hasWildcard_of_parse {text : String} {pattern : Pattern}
    (h : Pattern.parse text = .ok pattern) : hasWildcard text = true := by
  obtain ⟨token, hmem, hwild⟩ := any_eq_true.mp (Pattern.parse_eq_ok h).2
  have htext := Pattern.text_of_parse h
  rw [hasWildcard, ← htext, any_map, any_eq_true]
  refine ⟨token, hmem, ?_⟩
  cases token with
  | literal text => cases hwild
  | one => rfl
  | tail => rfl

end RustStream
