import RustStream.Memory.Fanout

/-!
# The routes of a publish

The harness has to know where a publish goes without sending it: `Routing.routes` answers over the
flat list of the subscriptions, with the positions of those a publish reaches. The broker answers by
sending, out of a map of names and a table of pattern groups.

`Reaches` says what the rule means, for one subscription among others; it speaks of no order and no
data structure. Both algorithms compute it, so they agree, and neither depends on the order of the
registrations. What makes them agree is that the most specific match is unique.

## Main definitions

* `Routing.routes`: the answer of the harness.
* `Reaches`: the rule.
* `Registered`: a registry that holds given registrations.

## Main results

* `mem_routes_iff`: the harness computes the rule.
* `Registered.mem_recipients_iff`: the fanout does.
* `fanout_follows_routes`: the queues that receive a publish are the positions of the harness.
-/

namespace RustStream

open Function List

/-! ## The answer of the harness -/

/-- The positions subscribed to the destination by name. -/
def exactRoutes (destination : String) (subscriptions : List String) : List ℕ :=
  (subscriptions.zipIdx.filter fun p => !hasWildcard p.1 && p.1 = destination).map Prod.snd

/-- The positions subscribed by a pattern that matches the destination, with the pattern. A pattern
that does not parse opened no subscription, so it reaches nothing. -/
def patternRoutes (destination : String) (subscriptions : List String) : List (ℕ × Pattern) :=
  ((subscriptions.zipIdx.filter fun p => hasWildcard p.1).filterMap fun p =>
    (Pattern.parse p.1).toOption.map fun pattern => (p.2, pattern)).filter fun p =>
      p.2.matchesName destination

/-- Which of the subscriptions a publish to `destination` reaches: their positions, in order. -/
def Routing.routes (routing : Routing) (destination : String) (subscriptions : List String) :
    List ℕ :=
  let exact := exactRoutes destination subscriptions
  let patterns := patternRoutes destination subscriptions
  match routing with
  | .everyMatch => (exact ++ patterns.map Prod.fst).mergeSort
  | .mostSpecific =>
    if exact ≠ [] then exact
    else
      match Select.maxBy Pattern.specificity Prod.snd patterns with
      | some (_, best) => (patterns.filter fun p => p.2 = best).map Prod.fst
      | none => []

/-! ## The rule -/

/-- Whether a publish to `destination` is for the subscription to `text` among the subscriptions to
`texts`: by its exact name, or by a pattern that matches, which under the most specific rule must
not be shadowed by the exact name or by a more specific match. -/
def Reaches (routing : Routing) (destination : String) (texts : List String) (text : String) :
    Prop :=
  (hasWildcard text = false ∧ text = destination) ∨
    ∃ pattern, Pattern.parse text = .ok pattern ∧ pattern.matchesName destination = true ∧
      (routing = .mostSpecific → ¬(hasWildcard destination = false ∧ destination ∈ texts) ∧
        ∀ text' ∈ texts, ∀ other, Pattern.parse text' = .ok other →
          other.matchesName destination = true → (other.specificity pattern).isLE = true)

/-- The rule knows no order. -/
theorem reaches_congr {routing : Routing} {destination : String} {texts texts' : List String}
    (h : ∀ text, text ∈ texts ↔ text ∈ texts') (text : String) :
    Reaches routing destination texts text ↔ Reaches routing destination texts' text := by
  simp only [Reaches, h]

section Harness

variable {routing : Routing} {destination : String} {texts : List String} {i : ℕ}

theorem mem_exactRoutes_iff : i ∈ exactRoutes destination texts ↔
      ∃ text, texts[i]? = some text ∧ hasWildcard text = false ∧ text = destination := by
  simp only [exactRoutes, mem_map, mem_filter, Bool.and_eq_true, Bool.not_eq_true',
    decide_eq_true_eq, Prod.exists, exists_eq_right, mk_mem_zipIdx_iff_getElem?]

theorem exactRoutes_eq_nil_iff :
    exactRoutes destination texts = [] ↔ ¬(hasWildcard destination = false ∧ destination ∈ texts) := by
  rw [eq_nil_iff_forall_not_mem]
  constructor
  · rintro h ⟨hname, hmem⟩
    obtain ⟨i, hi⟩ := mem_iff_getElem?.mp hmem
    exact h i (mem_exactRoutes_iff.mpr ⟨destination, hi, hname, rfl⟩)
  · intro h i hi
    obtain ⟨text, htext, hname, rfl⟩ := mem_exactRoutes_iff.mp hi
    exact h ⟨hname, mem_of_getElem? htext⟩

theorem mem_patternRoutes_iff {pattern : Pattern} : (i, pattern) ∈ patternRoutes destination texts ↔
      ∃ text, texts[i]? = some text ∧ Pattern.parse text = .ok pattern ∧
        pattern.matchesName destination = true := by
  rw [patternRoutes, mem_filter, mem_filterMap]
  constructor
  · rintro ⟨⟨⟨text, position⟩, hmem, hparsed⟩, hmatch⟩
    obtain ⟨hmem, -⟩ := mem_filter.mp hmem
    obtain ⟨pattern', hpattern, hpair⟩ := Option.map_eq_some_iff.mp hparsed
    cases hpair
    refine ⟨text, mk_mem_zipIdx_iff_getElem?.mp hmem, ?_, hmatch⟩
    dsimp only at hpattern
    cases hparse : Pattern.parse text with
    | ok pattern'' =>
      rw [hparse] at hpattern
      cases hpattern
      rfl
    | error reason =>
      rw [hparse] at hpattern
      cases hpattern
  · rintro ⟨text, htext, hparse, hmatch⟩
    refine ⟨⟨(text, i), mem_filter.mpr ⟨?_, hasWildcard_of_parse hparse⟩, ?_⟩, hmatch⟩
    · exact mk_mem_zipIdx_iff_getElem?.mpr htext
    · dsimp only
      rw [hparse]
      rfl

/-- The selection among the matching patterns is the most specific of them, whatever its place. -/
theorem eq_best_iff {best pattern : ℕ × Pattern}
    (hbest : Select.maxBy Pattern.specificity Prod.snd (patternRoutes destination texts) = some best)
    (hpattern : pattern ∈ patternRoutes destination texts) :
    pattern.2 = best.2 ↔ ∀ other ∈ patternRoutes destination texts,
      (other.2.specificity pattern.2).isLE = true := by
  have hmem := Select.maxBy_mem hbest
  constructor
  · intro heq other hother
    rw [heq]
    exact Select.isLE_maxBy hbest hother
  · intro hmax
    refine Pattern.eq_of_matches (mem_filter.mp hpattern).2 (mem_filter.mp hmem).2 ?_
      (hmax best hmem)
    exact Select.isLE_maxBy hbest hpattern

/-- Without an exact name the positions are those of the most specific matching pattern. -/
theorem mem_routes_mostSpecific_iff (hexact : exactRoutes destination texts = []) :
    i ∈ Routing.mostSpecific.routes destination texts ↔
      ∃ pattern, (i, pattern) ∈ patternRoutes destination texts ∧
        ∀ other ∈ patternRoutes destination texts, (other.2.specificity pattern).isLE = true := by
  rw [Routing.routes]
  simp only [hexact, ne_eq, not_true_eq_false, if_false]
  cases hbest : Select.maxBy Pattern.specificity Prod.snd (patternRoutes destination texts) with
  | none =>
    rw [Select.maxBy_eq_none_iff.mp hbest]
    simp
  | some best =>
    simp only [mem_map, mem_filter, decide_eq_true_eq]
    constructor
    · rintro ⟨⟨position, pattern⟩, ⟨hmem, heq⟩, rfl⟩
      exact ⟨pattern, hmem, (eq_best_iff hbest hmem).mp heq⟩
    · rintro ⟨pattern, hmem, hmax⟩
      exact ⟨(i, pattern), ⟨hmem, (eq_best_iff hbest hmem).mpr hmax⟩, rfl⟩

/-- **The harness computes the rule.** -/
theorem mem_routes_iff : i ∈ routing.routes destination texts ↔
      ∃ text, texts[i]? = some text ∧ Reaches routing destination texts text := by
  cases routing with
  | everyMatch =>
    simp only [Routing.routes, mem_mergeSort, mem_append, mem_exactRoutes_iff,
      mem_map, Prod.exists, exists_eq_right, exists_and_right, mem_patternRoutes_iff]
    constructor
    · rintro (⟨text, htext, hexact⟩ | ⟨pattern, text, htext, hparse, hmatch⟩)
      · exact ⟨text, htext, Or.inl hexact⟩
      · exact ⟨text, htext, Or.inr ⟨pattern, hparse, hmatch, fun h => by cases h⟩⟩
    · rintro ⟨text, htext, hexact | ⟨pattern, hparse, hmatch, -⟩⟩
      · exact Or.inl ⟨text, htext, hexact⟩
      · exact Or.inr ⟨pattern, text, htext, hparse, hmatch⟩
  | mostSpecific =>
    by_cases hexact : exactRoutes destination texts = []
    · have hnone := exactRoutes_eq_nil_iff.mp hexact
      rw [mem_routes_mostSpecific_iff hexact]
      constructor
      · rintro ⟨pattern, hmem, hmax⟩
        obtain ⟨text, htext, hparse, hmatch⟩ := mem_patternRoutes_iff.mp hmem
        refine ⟨text, htext, Or.inr ⟨pattern, hparse, hmatch, fun _ => ⟨hnone, ?_⟩⟩⟩
        intro text' hmem' other hparse' hmatch'
        obtain ⟨j, hj⟩ := mem_iff_getElem?.mp hmem'
        exact hmax (j, other) (mem_patternRoutes_iff.mpr ⟨text', hj, hparse', hmatch'⟩)
      · rintro ⟨text, htext, ⟨hname, rfl⟩ | ⟨pattern, hparse, hmatch, hmost⟩⟩
        · exact absurd ⟨hname, mem_of_getElem? htext⟩ hnone
        · refine ⟨pattern, mem_patternRoutes_iff.mpr ⟨text, htext, hparse, hmatch⟩, ?_⟩
          rintro ⟨j, other⟩ hother
          obtain ⟨text', htext', hparse', hmatch'⟩ := mem_patternRoutes_iff.mp hother
          exact (hmost rfl).2 text' (mem_of_getElem? htext') other hparse' hmatch'
    · -- the exact name shadows every pattern
      have hroutes : Routing.mostSpecific.routes destination texts = exactRoutes destination texts :=
        if_pos hexact
      have hsome := not_not.mp (mt exactRoutes_eq_nil_iff.mpr hexact)
      rw [hroutes, mem_exactRoutes_iff]
      constructor
      · rintro ⟨text, htext, hexact⟩
        exact ⟨text, htext, Or.inl hexact⟩
      · rintro ⟨text, htext, hexact | ⟨pattern, -, -, hmost⟩⟩
        · exact ⟨text, htext, hexact⟩
        · exact absurd hsome (hmost rfl).1

end Harness

/-! ## Registrations -/

/-- The queues registered under a text, in the order of their registration. -/
def sendersOf (registrations : List (ℕ × String)) (text : String) : List ℕ :=
  (registrations.filter fun r => r.2 = text).map Prod.fst

/-- The texts some subscription still reads under. -/
def openTexts (isOpen : ℕ → Bool) (registrations : List (ℕ × String)) : List String :=
  (registrations.filter fun r => isOpen r.1).map Prod.snd

/-- The pattern groups of the registrations: one for each pattern text, with its queues. -/
structure GroupsOf (registrations : List (ℕ × String)) (groups : List PatternGroup) : Prop where
  distinct : (groups.map PatternGroup.text).Nodup
  parsed : ∀ group ∈ groups, Pattern.parse group.text = .ok group.pattern
  senders_eq : ∀ group ∈ groups, group.senders = sendersOf registrations group.text
  mem_texts : ∀ text, text ∈ groups.map PatternGroup.text ↔
    hasWildcard text = true ∧ text ∈ registrations.map Prod.snd

/-- A registry that holds the registrations: the names in its map, the patterns in its groups. -/
structure Registered (registrations : List (ℕ × String)) (registry : Registry) : Prop where
  names_eq : ∀ name, (registry.names name).getD []
    = if hasWildcard name then [] else sendersOf registrations name
  groups : GroupsOf registrations registry.patterns

section Registration

variable {registrations : List (ℕ × String)} {groups : List PatternGroup} {text : String}
  {pattern : Pattern} {tx : ℕ} {group : PatternGroup}

theorem mem_sendersOf {i : ℕ} : i ∈ sendersOf registrations text ↔ (i, text) ∈ registrations := by
  simp [sendersOf]

variable {isOpen : ℕ → Bool}

theorem mem_openTexts : text ∈ openTexts isOpen registrations ↔
      ∃ i, (i, text) ∈ registrations ∧ isOpen i = true := by
  simp [openTexts]

theorem openTexts_of_open (hopen : ∀ i, isOpen i = true) :
    openTexts isOpen registrations = registrations.map Prod.snd := by
  rw [openTexts, filter_eq_self.mpr fun r _ => hopen r.1]

theorem sendersOf_snoc (registrations : List (ℕ × String)) (tx : ℕ) (text other : String) :
    sendersOf (registrations ++ [(tx, text)]) other
      = sendersOf registrations other ++ if text = other then [tx] else [] := by
  rw [sendersOf, filter_append, map_append]
  congr 1
  by_cases h : text = other
  · simp [h]
  · simp [h]

theorem sendersOf_eq_nil (h : text ∉ registrations.map Prod.snd) :
    sendersOf registrations text = [] := by
  rw [eq_nil_iff_forall_not_mem]
  intro i hi
  exact h (mem_map.mpr ⟨(i, text), mem_sendersOf.mp hi, rfl⟩)

theorem map_text_joinGroup (text : String) (pattern : Pattern) (tx : ℕ)
    (groups : List PatternGroup) : (joinGroup text pattern tx groups).map PatternGroup.text
      = if text ∈ groups.map PatternGroup.text then groups.map PatternGroup.text
        else groups.map PatternGroup.text ++ [text] := by
  induction groups with
  | nil => rfl
  | cons group groups ih =>
    rw [joinGroup, map_cons]
    by_cases hjoin : group.text = text
    · subst hjoin
      rw [if_pos rfl, if_pos mem_cons_self]
      rfl
    · rw [if_neg hjoin, map_cons, ih]
      simp only [mem_cons, Ne.symm hjoin, false_or]
      split_ifs <;> rfl

/-- The groups after a registration: the other texts' untouched, the text's own with one more. -/
theorem mem_joinGroup (hdistinct : (groups.map PatternGroup.text).Nodup)
    (h : group ∈ joinGroup text pattern tx groups) :
    (group ∈ groups ∧ group.text ≠ text) ∨
      (∃ old ∈ groups, old.text = text ∧ group = { old with senders := old.senders ++ [tx] }) ∨
      (text ∉ groups.map PatternGroup.text ∧ group = ⟨text, pattern, [tx]⟩) := by
  induction groups with
  | nil => exact Or.inr (Or.inr ⟨not_mem_nil, mem_singleton.mp h⟩)
  | cons head groups ih =>
    rw [map_cons, nodup_cons] at hdistinct
    obtain ⟨hhead, hdistinct⟩ := hdistinct
    rw [joinGroup] at h
    by_cases hjoin : head.text = text
    · rw [if_pos hjoin] at h
      rcases mem_cons.mp h with rfl | h
      · exact Or.inr (Or.inl ⟨head, mem_cons_self, hjoin, rfl⟩)
      · refine Or.inl ⟨mem_cons_of_mem _ h, fun htext => hhead ?_⟩
        rw [hjoin, ← htext]
        exact mem_map_of_mem h
    · rw [if_neg hjoin] at h
      rcases mem_cons.mp h with rfl | h
      · exact Or.inl ⟨mem_cons_self, hjoin⟩
      · rcases ih hdistinct h with ⟨hmem, hne⟩ | ⟨old, hmem, hold⟩ | ⟨hnew, hgroup⟩
        · exact Or.inl ⟨mem_cons_of_mem _ hmem, hne⟩
        · exact Or.inr (Or.inl ⟨old, mem_cons_of_mem _ hmem, hold⟩)
        · refine Or.inr (Or.inr ⟨?_, hgroup⟩)
          rw [map_cons, mem_cons, not_or]
          exact ⟨Ne.symm hjoin, hnew⟩

theorem GroupsOf.wildcard (h : GroupsOf registrations groups) (hgroup : group ∈ groups) :
    hasWildcard group.text = true :=
  ((h.mem_texts group.text).mp (mem_map_of_mem hgroup)).1

/-- A name changes no group. -/
theorem GroupsOf.name (h : GroupsOf registrations groups) (hname : hasWildcard text = false) :
    GroupsOf (registrations ++ [(tx, text)]) groups where
  distinct := h.distinct
  parsed := h.parsed
  senders_eq group hgroup := by
    have hne : text ≠ group.text := by
      rintro rfl
      rw [h.wildcard hgroup] at hname
      cases hname
    rw [h.senders_eq group hgroup, sendersOf_snoc, if_neg hne, append_nil]
  mem_texts other := by
    rw [h.mem_texts, map_append, mem_append]
    refine and_congr_right fun hother => ⟨Or.inl, ?_⟩
    rintro (hmem | hmem)
    · exact hmem
    · rw [map_singleton, mem_singleton] at hmem
      rw [hmem, hname] at hother
      cases hother

/-- A pattern joins its group. -/
theorem GroupsOf.join (h : GroupsOf registrations groups)
    (hparse : Pattern.parse text = .ok pattern) :
    GroupsOf (registrations ++ [(tx, text)]) (joinGroup text pattern tx groups) where
  distinct := by
    rw [map_text_joinGroup]
    split_ifs with hmem
    · exact h.distinct
    · rw [nodup_append]
      refine ⟨h.distinct, nodup_singleton text, ?_⟩
      intro other hother last hlast heq
      rw [heq, mem_singleton.mp hlast] at hother
      exact hmem hother
  parsed group hgroup := by
    rcases mem_joinGroup h.distinct hgroup with ⟨hmem, -⟩ | ⟨old, hmem, -, rfl⟩ | ⟨-, rfl⟩
    · exact h.parsed group hmem
    · exact h.parsed old hmem
    · exact hparse
  senders_eq group hgroup := by
    rw [sendersOf_snoc]
    rcases mem_joinGroup h.distinct hgroup with ⟨hmem, hne⟩ | ⟨old, hmem, rfl, rfl⟩ | ⟨hnew, rfl⟩
    · rw [if_neg hne.symm, append_nil, h.senders_eq group hmem]
    · rw [if_pos rfl, h.senders_eq old hmem]
    · have hfresh : text ∉ registrations.map Prod.snd := fun hmem =>
        hnew ((h.mem_texts text).mpr ⟨hasWildcard_of_parse hparse, hmem⟩)
      rw [if_pos rfl, sendersOf_eq_nil hfresh]
      rfl
  mem_texts other := by
    have hwild := hasWildcard_of_parse hparse
    have htexts := h.mem_texts other
    rw [map_text_joinGroup, map_append, mem_append, map_singleton,
      mem_singleton]
    split_ifs with hmem
    · rw [htexts]
      refine and_congr_right fun _ => ⟨Or.inl, ?_⟩
      rintro (hother | rfl)
      · exact hother
      · exact ((h.mem_texts _).mp hmem).2
    · rw [mem_append, mem_singleton, htexts]
      constructor
      · rintro (⟨hother, hmem'⟩ | rfl)
        · exact ⟨hother, Or.inl hmem'⟩
        · exact ⟨hwild, Or.inr rfl⟩
      · rintro ⟨hother, hmem' | rfl⟩
        · exact Or.inl ⟨hother, hmem'⟩
        · exact Or.inr rfl

/-- The texts of the groups tell them apart. -/
theorem GroupsOf.eq_of_text_eq (h : GroupsOf registrations groups) {group' : PatternGroup}
    (hgroup : group ∈ groups) (hgroup' : group' ∈ groups) (htext : group.text = group'.text) :
    group = group' :=
  inj_on_of_nodup_map h.distinct hgroup hgroup' htext

/-- A group is live exactly when a subscription of its text still reads. -/
theorem GroupsOf.isLive_iff (h : GroupsOf registrations groups) (hgroup : group ∈ groups) :
    group.isLive isOpen = true ↔ group.text ∈ openTexts isOpen registrations := by
  rw [PatternGroup.isLive, any_eq_true, h.senders_eq group hgroup, mem_openTexts]
  simp only [mem_sendersOf]

/-- A subscription by a pattern that still reads is in a live group of its text. -/
theorem GroupsOf.exists_group (h : GroupsOf registrations groups) {i : ℕ}
    (hreg : (i, text) ∈ registrations) (hopen : isOpen i = true)
    (hparse : Pattern.parse text = .ok pattern) :
    ∃ group ∈ groups, group.text = text ∧ group.pattern = pattern ∧ group.isLive isOpen = true := by
  have htext : text ∈ groups.map PatternGroup.text := (h.mem_texts text).mpr
    ⟨hasWildcard_of_parse hparse, mem_map.mpr ⟨(i, text), hreg, rfl⟩⟩
  obtain ⟨group, hgroup, rfl⟩ := mem_map.mp htext
  refine ⟨group, hgroup, rfl, ?_, ?_⟩
  · have hparse' := h.parsed group hgroup
    rw [hparse] at hparse'
    cases hparse'
    rfl
  · exact (h.isLive_iff hgroup).mpr (mem_openTexts.mpr ⟨i, hreg, hopen⟩)

end Registration

/-! ## The fanout computes the rule -/

theorem Registry.chosen_sublist (registry : Registry) (name : String) (reach : PatternReach) :
    (registry.chosen name reach).Sublist registry.patterns := by
  cases reach with
  | nobody => exact nil_sublist _
  | everyFrom first => exact filter_sublist.trans (drop_sublist first _)
  | only index =>
    rw [chosen]
    cases hget : registry.patterns[index]? with
    | none => exact nil_sublist _
    | some group => exact singleton_sublist.mpr (mem_of_getElem? hget)

namespace Registered

variable {registrations : List (ℕ × String)} {registry : Registry} {isOpen : ℕ → Bool}
  {destination : String} {group : PatternGroup}

/-- An exact name takes the publish exactly when someone still reads it. -/
theorem exactLive_iff (h : Registered registrations registry) :
    ((registry.names destination).any fun senders => senders.any isOpen) = true ↔
      hasWildcard destination = false ∧ destination ∈ openTexts isOpen registrations := by
  have hany : ((registry.names destination).any fun senders => senders.any isOpen)
      = ((registry.names destination).getD []).any isOpen := by
    cases registry.names destination <;> rfl
  rw [hany, h.names_eq, any_eq_true, mem_openTexts]
  constructor
  · rintro ⟨tx, htx, hopen⟩
    split_ifs at htx with hwild
    · cases htx
    · exact ⟨Bool.of_not_eq_true hwild, tx, mem_sendersOf.mp htx, hopen⟩
  · rintro ⟨hname, tx, hreg, hopen⟩
    rw [hname, if_neg Bool.false_ne_true]
    exact ⟨tx, mem_sendersOf.mpr hreg, hopen⟩

/-- What the most specific rule picks, where no exact name took the publish: the group that is live,
matches, and is beaten by no group that does. -/
theorem mem_chosen_maxBy_iff (h : Registered registrations registry) :
    group ∈ registry.chosen destination
        (Routing.mostSpecific.reach isOpen registry.patterns destination false) ↔
      group ∈ registry.patterns ∧ group.pattern.matchesName destination = true ∧
        group.isLive isOpen = true ∧
        ∀ other ∈ registry.patterns, other.pattern.matchesName destination = true →
          other.isLive isOpen = true → (other.pattern.specificity group.pattern).isLE = true := by
  have hfilter : ∀ p, p ∈ (registry.patterns.zipIdx.filter fun p =>
      p.1.pattern.matchesName destination && p.1.isLive isOpen) ↔
      registry.patterns[p.2]? = some p.1 ∧ p.1.pattern.matchesName destination = true ∧
        p.1.isLive isOpen = true := by
    rintro ⟨group, index⟩
    rw [mem_filter, mk_mem_zipIdx_iff_getElem?, Bool.and_eq_true]
  unfold Routing.reach
  simp only [Bool.false_eq_true, if_false]
  cases hbest : Select.maxBy Pattern.specificity (fun p => p.1.pattern)
      (registry.patterns.zipIdx.filter fun p =>
        p.1.pattern.matchesName destination && p.1.isLive isOpen) with
  | none =>
    have hnone := Select.maxBy_eq_none_iff.mp hbest
    refine ⟨fun hmem => absurd hmem not_mem_nil, ?_⟩
    rintro ⟨hmem, hmatch, hlive, -⟩
    obtain ⟨index, hindex⟩ := mem_iff_getElem?.mp hmem
    have hin := (hfilter (group, index)).mpr ⟨hindex, hmatch, hlive⟩
    rw [hnone] at hin
    cases hin
  | some best =>
    obtain ⟨hget, hmatch, hlive⟩ := (hfilter best).mp (Select.maxBy_mem hbest)
    have hbest_mem := mem_of_getElem? hget
    have hmax : ∀ other ∈ registry.patterns, other.pattern.matchesName destination = true →
        other.isLive isOpen = true →
        (other.pattern.specificity best.1.pattern).isLE = true := by
      intro other hother hmatch' hlive'
      obtain ⟨index, hindex⟩ := mem_iff_getElem?.mp hother
      have hin := (hfilter (other, index)).mpr ⟨hindex, hmatch', hlive'⟩
      have hle := Select.isLE_maxBy hbest hin
      exact hle
    have hchosen : registry.chosen destination (.only best.2) = [best.1] := by
      rw [Registry.chosen, hget]
      rfl
    dsimp only
    rw [hchosen, mem_singleton]
    constructor
    · rintro rfl
      exact ⟨hbest_mem, hmatch, hlive, hmax⟩
    · rintro ⟨hmem, hmatch', hlive', hmax'⟩
      -- two most specific matches are one pattern, so they were written alike
      have hpattern : group.pattern = best.1.pattern :=
        Pattern.eq_of_matches hmatch' hmatch (hmax group hmem hmatch' hlive')
          (hmax' best.1 hbest_mem hmatch hlive)
      have hparse := h.groups.parsed group hmem
      rw [hpattern] at hparse
      exact h.groups.eq_of_text_eq hmem hbest_mem
        (Pattern.parse_injective hparse (h.groups.parsed best.1 hbest_mem))

/-- Every matching group, by the scan from the first match. -/
theorem mem_chosen_everyMatch_iff (registry : Registry) (exact : Bool) :
    group ∈ registry.chosen destination
        (Routing.everyMatch.reach isOpen registry.patterns destination exact) ↔
      group ∈ registry.patterns ∧ group.pattern.matchesName destination = true := by
  unfold Routing.reach
  dsimp only
  cases hfirst : registry.patterns.findIdx? fun group => group.pattern.matchesName destination with
  | none =>
    refine ⟨fun hmem => absurd hmem not_mem_nil, ?_⟩
    rintro ⟨hmem, hmatch⟩
    have hnone := findIdx?_eq_none_iff.mp hfirst group hmem
    rw [hmatch] at hnone
    cases hnone
  | some first =>
    have hindex := (findIdx?_eq_some_iff_findIdx_eq.mp hfirst).2
    dsimp only [Registry.chosen]
    rw [← hindex, Select.filter_drop_findIdx, mem_filter]

section

variable (h : Registered registrations registry)
include h

/-- Which groups a publish reaches. -/
theorem mem_chosen_iff : group ∈ registry.chosen destination (registry.reached isOpen destination) ↔
      group ∈ registry.patterns ∧ group.pattern.matchesName destination = true ∧
        (registry.routing = .mostSpecific →
          ¬(hasWildcard destination = false ∧ destination ∈ openTexts isOpen registrations) ∧
          group.isLive isOpen = true ∧
          ∀ other ∈ registry.patterns, other.pattern.matchesName destination = true →
            other.isLive isOpen = true →
            (other.pattern.specificity group.pattern).isLE = true) := by
  unfold Registry.reached
  cases hrouting : registry.routing with
  | everyMatch =>
    rw [mem_chosen_everyMatch_iff]
    simp only [reduceCtorEq, false_implies, and_true]
  | mostSpecific =>
    have hexact := @exactLive_iff _ _ isOpen destination h
    cases hlive : (registry.names destination).any fun senders => senders.any isOpen with
    | true =>
      rw [hlive] at hexact
      have hmem := hexact.mp rfl
      constructor
      · intro hchosen
        exact absurd hchosen not_mem_nil
      · rintro ⟨-, -, hmost⟩
        exact absurd hmem (hmost rfl).1
    | false =>
      rw [hlive] at hexact
      have hnone := fun hmem => Bool.false_ne_true (hexact.mpr hmem)
      rw [h.mem_chosen_maxBy_iff]
      refine and_congr_right fun _ => and_congr_right fun _ => ?_
      exact ⟨fun hmax _ => ⟨hnone, hmax⟩, fun hmost => (hmost rfl).2⟩

/-- **The fanout computes the rule**, for the subscriptions that still read and among them. -/
theorem mem_recipients_iff {i : ℕ}
    (hopen : isOpen i = true) : i ∈ registry.recipients isOpen destination ↔
      ∃ text, (i, text) ∈ registrations ∧
        Reaches registry.routing destination (openTexts isOpen registrations) text := by
  rw [Registry.recipients, mem_append, h.names_eq, mem_flatMap]
  constructor
  · rintro (hname | ⟨group, hchosen, hsender⟩)
    · split_ifs at hname with hwild
      · cases hname
      · exact ⟨destination, mem_sendersOf.mp hname, Or.inl ⟨Bool.of_not_eq_true hwild, rfl⟩⟩
    · obtain ⟨hmem, hmatch, hmost⟩ := h.mem_chosen_iff.mp hchosen
      rw [h.groups.senders_eq group hmem, mem_sendersOf] at hsender
      refine ⟨group.text, hsender, Or.inr ⟨group.pattern, h.groups.parsed group hmem, hmatch, ?_⟩⟩
      intro hrouting
      obtain ⟨hexact, -, hmax⟩ := hmost hrouting
      refine ⟨hexact, ?_⟩
      intro text' hmem' other hparse' hmatch'
      obtain ⟨j, hreg, hj⟩ := mem_openTexts.mp hmem'
      obtain ⟨group', hgroup', -, rfl, hlive⟩ := h.groups.exists_group hreg hj hparse'
      exact hmax group' hgroup' hmatch' hlive
  · rintro ⟨text, hreg, ⟨hname, rfl⟩ | ⟨pattern, hparse, hmatch, hmost⟩⟩
    · refine Or.inl ?_
      rw [hname, if_neg Bool.false_ne_true]
      exact mem_sendersOf.mpr hreg
    · obtain ⟨group, hmem, rfl, rfl, hlive⟩ := h.groups.exists_group hreg hopen hparse
      refine Or.inr ⟨group, h.mem_chosen_iff.mpr ⟨hmem, hmatch, ?_⟩, ?_⟩
      · intro hrouting
        refine ⟨(hmost hrouting).1, hlive, ?_⟩
        intro other hother hmatch' hlive'
        exact (hmost hrouting).2 other.text ((h.groups.isLive_iff hother).mp hlive')
          other.pattern (h.groups.parsed other hother) hmatch'
      · rw [h.groups.senders_eq group hmem]
        exact mem_sendersOf.mpr hreg

/-- No queue is sent to twice. -/
theorem nodup_recipients (hdistinct : (registrations.map Prod.fst).Nodup) :
    (registry.recipients isOpen destination).Nodup := by
  have hsenders : ∀ text, (sendersOf registrations text).Nodup := fun text =>
    hdistinct.sublist (filter_sublist.map _)
  -- a queue is registered under one text
  have htext : ∀ {i text text'}, i ∈ sendersOf registrations text →
      i ∈ sendersOf registrations text' → text = text' := by
    intro i text text' hi hi'
    have hpair := inj_on_of_nodup_map hdistinct (mem_sendersOf.mp hi) (mem_sendersOf.mp hi') rfl
    exact congrArg Prod.snd hpair
  have hsub := registry.chosen_sublist destination (registry.reached isOpen destination)
  have hgroup : ∀ group ∈ registry.chosen destination (registry.reached isOpen destination),
      group.senders = sendersOf registrations group.text ∧ hasWildcard group.text = true :=
    fun group hmem => ⟨h.groups.senders_eq group (hsub.subset hmem),
      h.groups.wildcard (hsub.subset hmem)⟩
  rw [Registry.recipients, h.names_eq, nodup_append, nodup_flatMap]
  refine ⟨?_, ⟨fun group hmem => ?_, ?_⟩, ?_⟩
  · split_ifs
    · exact nodup_nil
    · exact hsenders destination
  · rw [(hgroup group hmem).1]
    exact hsenders group.text
  · have hne := pairwise_map.mp (h.groups.distinct.sublist (hsub.map _))
    refine hne.imp_of_mem fun {group group'} hmem hmem' hne => ?_
    intro i hi hi'
    rw [(hgroup group hmem).1] at hi
    rw [(hgroup group' hmem').1] at hi'
    exact hne (htext hi hi')
  · intro i hi j hj hij
    subst hij
    obtain ⟨group, hmem, hj⟩ := mem_flatMap.mp hj
    rw [(hgroup group hmem).1] at hj
    split_ifs at hi with hname
    · cases hi
    · rw [htext hi hj] at hname
      exact hname (hgroup group hmem).2

end

end Registered

/-! ## Opening subscriptions -/

section Open

variable {registrations : List (ℕ × String)} {registry : Registry} {state : MemoryState}

theorem registered_new (routing : Routing) : Registered [] (Registry.new routing) where
  names_eq name := by
    split_ifs <;> rfl
  groups := ⟨nodup_nil, by simp [Registry.new], by simp [Registry.new],
    by simp [Registry.new]⟩

theorem Registered.name (h : Registered registrations registry) (tx : ℕ) {text : String}
    (hname : hasWildcard text = false) :
    Registered (registrations ++ [(tx, text)]) { registry with
      names := update registry.names text
        (some ((registry.names text).getD [] ++ [tx])) } where
  names_eq other := by
    dsimp only
    rw [sendersOf_snoc]
    by_cases hother : other = text
    · subst hother
      rw [update_self, Option.getD_some, h.names_eq, hname, if_pos rfl]
      rfl
    · rw [update_of_ne hother, h.names_eq, if_neg (Ne.symm hother), append_nil]
  groups := h.groups.name hname

theorem Registered.pattern (h : Registered registrations registry) (tx : ℕ) {text : String}
    {pattern : Pattern} (hparse : Pattern.parse text = .ok pattern) :
    Registered (registrations ++ [(tx, text)]) { registry with
      patterns := joinGroup text pattern tx registry.patterns } where
  names_eq other := by
    dsimp only
    rw [h.names_eq, sendersOf_snoc]
    split_ifs with hother heq
    · rfl
    · rw [← heq, hasWildcard_of_parse hparse] at hother
      cases hother rfl
    · rw [append_nil]
  groups := h.groups.join hparse

/-- A name without wildcards and a valid pattern can be opened, and nothing else changes. -/
theorem Registered.openAs (h : Registered registrations registry)
    (hbus : state.bus = .live registry) (tx : ℕ) {text : String}
    (hvalid : hasWildcard text = true → ∃ pattern, Pattern.parse text = .ok pattern) :
    ∃ registry', state.openAs tx text = .ok { state with bus := .live registry' } ∧
      registry'.routing = registry.routing ∧ Registered (registrations ++ [(tx, text)]) registry' := by
  unfold MemoryState.openAs
  by_cases hwild : hasWildcard text = true
  · obtain ⟨pattern, hparse⟩ := hvalid hwild
    refine ⟨{ registry with patterns := joinGroup text pattern tx registry.patterns }, ?_, rfl,
      h.pattern tx hparse⟩
    rw [if_pos hwild, MemoryState.subscribePattern, hparse]
    dsimp only
    rw [MemoryState.registerPattern, hbus]
  · have hname := Bool.of_not_eq_true hwild
    refine ⟨⟨update registry.names text (some ((registry.names text).getD [] ++ [tx])),
      registry.patterns, registry.routing⟩, ?_, rfl, h.name tx hname⟩
    rw [if_neg hwild, MemoryState.subscribe, if_neg hwild, MemoryState.registerShared, hbus]

theorem Registered.openAll {opening : List (ℕ × String)} (h : Registered registrations registry)
    (hbus : state.bus = .live registry)
    (hvalid : ∀ r ∈ opening, hasWildcard r.2 = true →
      ∃ pattern, Pattern.parse r.2 = .ok pattern) :
    ∃ registry', state.openAll opening = .ok { state with bus := .live registry' } ∧
      registry'.routing = registry.routing ∧ Registered (registrations ++ opening) registry' := by
  induction opening generalizing registrations registry state with
  | nil =>
    refine ⟨registry, ?_, rfl, ?_⟩
    · rw [← hbus]
      rfl
    · rwa [append_nil]
  | cons r opening ih =>
    obtain ⟨registry₁, hopen₁, hrouting₁, h₁⟩ :=
      h.openAs hbus r.1 (hvalid r mem_cons_self)
    obtain ⟨registry₂, hopen₂, hrouting₂, h₂⟩ := @ih _ _
      { state with bus := .live registry₁ } h₁ rfl fun r' hr' =>
        hvalid r' (mem_cons_of_mem _ hr')
    refine ⟨registry₂, ?_, hrouting₂.trans hrouting₁, ?_⟩
    · rw [MemoryState.openAll, hopen₁]
      exact hopen₂
    · rwa [append_assoc] at h₂

end Open

/-! ## Fanout and harness agree -/

theorem mem_routes_congr {routing : Routing} {destination text : String}
    {texts texts' : List String} (hperm : texts'.Perm texts) {i j : ℕ}
    (hi : texts[i]? = some text) (hj : texts'[j]? = some text) :
    i ∈ routing.routes destination texts ↔ j ∈ routing.routes destination texts' := by
  rw [mem_routes_iff, mem_routes_iff]
  simp only [hi, hj, Option.some.injEq, exists_eq_left']
  exact reaches_congr (fun _ => hperm.symm.mem_iff) text

/-- **The harness routes as the broker does.** Let subscriptions be opened in any order, by names
without wildcards and by valid patterns, with repetitions, on a bus whose subscriptions are all
read. Then under either rule a publish to any destination is appended once to the queue of each
subscription whose position `Routing.routes` gives, and to no other queue; and the answer for a
subscription is the same wherever it stands among the others. -/
theorem fanout_follows_routes (routing : Routing) (state : MemoryState)
    (hbus : state.bus = .live (Registry.new routing)) (hopen : ∀ i, state.isOpen i = true)
    (texts : List String)
    (hvalid : ∀ text ∈ texts, hasWildcard text = true →
      ∃ pattern, Pattern.parse text = .ok pattern)
    (registrations : List (ℕ × String)) (horder : registrations.Perm (Window.number 0 texts))
    (destination : String) (payload : Bytes) (headers : Headers .alloc) :
    ∃ opened state', state.openAll registrations = .ok opened ∧
      opened.fanoutUnsent destination payload headers = .ok state' ∧
      (∀ i, state'.queues i = state.queues i ++
        if i ∈ routing.routes destination texts then
          [(opened.stamp ⟨destination, payload, headers⟩).1] else []) ∧
      ∀ texts', texts'.Perm texts → ∀ i j text, texts[i]? = some text → texts'[j]? = some text →
        (i ∈ routing.routes destination texts ↔ j ∈ routing.routes destination texts') := by
  have hmem : ∀ i text, (i, text) ∈ registrations ↔ texts[i]? = some text := by
    intro i text
    rw [horder.mem_iff, Window.mem_number]
    simp
  have htexts : ∀ text, text ∈ registrations.map Prod.snd ↔ text ∈ texts := by
    intro text
    rw [(horder.map Prod.snd).mem_iff, Window.map_snd_number]
  have hdistinct : (registrations.map Prod.fst).Nodup := by
    rw [(horder.map Prod.fst).nodup_iff, Window.map_fst_number]
    exact List.nodup_range'
  obtain ⟨registry, hopened, hrouting, hregistered⟩ := (registered_new routing).openAll hbus
    fun r hr => hvalid r.2 ((htexts r.2).mp (List.mem_map_of_mem hr))
  rw [List.nil_append] at hregistered
  have hfanout := fanoutUnsent_eq
    { state with bus := .live registry } rfl ⟨destination, payload, headers⟩
  obtain ⟨hstamped, hstampedOpen, -⟩ := MemoryState.stamp_frame
    { state with bus := .live registry } ⟨destination, payload, headers⟩
  refine ⟨_, _, hopened, hfanout, fun i => ?_, ?_⟩
  · have hrecipient : i ∈ registry.recipients state.isOpen destination ↔
        i ∈ routing.routes destination texts := by
      rw [hregistered.mem_recipients_iff (hopen i), mem_routes_iff, hrouting,
        openTexts_of_open hopen]
      refine exists_congr fun text => and_congr (hmem i text) ?_
      exact reaches_congr htexts text
    rw [MemoryState.queues_sendTo _ _ (hregistered.nodup_recipients hdistinct), hstamped,
      hstampedOpen]
    simp only [hrecipient, hopen, and_true]
  · intro texts' hperm i j text hi hj
    exact mem_routes_congr hperm hi hj

/-- Two patterns, one of them twice, and a name: the last subscription is registered first. -/
def orderTexts : List String := ["orders.*", "orders.>", "orders.*", "audit"]

theorem fanout_follows_routes_most_specific :
    ∃ opened state', (newBroker .mostSpecific .unbounded).openAll
        [(3, "audit"), (0, "orders.*"), (2, "orders.*"), (1, "orders.>")] = .ok opened ∧
      opened.fanoutUnsent "orders.eu" [] HeaderMap.new = .ok state' ∧
      (∀ i, state'.queues i = [] ++
        if i ∈ Routing.mostSpecific.routes "orders.eu" orderTexts then
          [(opened.stamp ⟨"orders.eu", [], HeaderMap.new⟩).1] else []) ∧
      ∀ texts', texts'.Perm orderTexts → ∀ i j text, orderTexts[i]? = some text →
        texts'[j]? = some text →
        (i ∈ Routing.mostSpecific.routes "orders.eu" orderTexts ↔
          j ∈ Routing.mostSpecific.routes "orders.eu" texts') := by
  refine fanout_follows_routes .mostSpecific (newBroker .mostSpecific .unbounded) rfl (fun _ => rfl)
    orderTexts ?_ [(3, "audit"), (0, "orders.*"), (2, "orders.*"), (1, "orders.>")] (by decide)
    "orders.eu" [] HeaderMap.new
  intro text hmem hwild
  simp only [orderTexts, List.mem_cons, List.not_mem_nil, or_false] at hmem
  rcases hmem with rfl | rfl | rfl | rfl
  · exact ⟨⟨[.literal "orders".toList, .one], trivial⟩, by decide +kernel⟩
  · exact ⟨⟨[.literal "orders".toList, .tail], rfl⟩, by decide +kernel⟩
  · exact ⟨⟨[.literal "orders".toList, .one], trivial⟩, by decide +kernel⟩
  · exact absurd hwild (by decide +kernel)

end RustStream
