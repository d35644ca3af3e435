import RustStream.Memory.Routes

/-!
# The winner under the most specific rule

Under `Routing.mostSpecific` a publish that no exact name takes goes to one group of patterns. The
broker finds it by a scan that keeps the later of two groups that rank alike, so the answer would
depend on the order of the registrations if two matching groups could rank alike. They cannot: their
texts would be equal, and equal texts share a group.

Subscriptions end without leaving the registry. The scan and the lookup of the exact name pass over
what nobody reads, so a subscription misses a publish it matches only to one that is read.

## Main definitions

* `Registry.Wins`: the group a publish goes to, and why.
* `Matching`, `Outranks`: when a text is for a destination, and when another goes before it.

## Main results

* `Registered.exists_wins`: a live match has a winner.
* `Registered.wins_perm`: the order of the registrations does not choose it.
* `most_specific_has_one_winner`: both, on the registry of any registrations, and what is delivered.
-/

namespace RustStream

open List

/-- Two texts of equal specificity that match one destination are the same text. -/
theorem Pattern.text_eq_of_specificity {destination text text' : String}
    {pattern pattern' : Pattern} (hparse : parse text = .ok pattern)
    (hparse' : parse text' = .ok pattern') (hmatch : pattern.matchesName destination = true)
    (hmatch' : pattern'.matchesName destination = true)
    (heq : pattern.specificity pattern' = .eq) : text = text' := by
  have hle : (pattern.specificity pattern').isLE = true := by rw [heq]; rfl
  have hle' : (pattern'.specificity pattern).isLE = true := by
    rw [Std.OrientedCmp.eq_symm heq]
    rfl
  have hpattern : pattern = pattern' := eq_of_matches hmatch hmatch' hle hle'
  rw [← hpattern] at hparse'
  exact parse_injective hparse hparse'

/-- The group wins the publishes to the destination that no exact name takes. -/
structure Registry.Wins (registry : Registry) (isOpen : ℕ → Bool) (destination : String)
    (group : PatternGroup) : Prop where
  chosen : registry.chosen destination
    (registry.routing.reach isOpen registry.patterns destination false) = [group]
  mem : group ∈ registry.patterns
  isLive : group.isLive isOpen = true
  isMatch : group.pattern.matchesName destination = true
  beats : ∀ other ∈ registry.patterns, other ≠ group → other.isLive isOpen = true →
    other.pattern.matchesName destination = true →
    other.pattern.specificity group.pattern = .lt

namespace Registered

variable {registrations registrations' : List (ℕ × String)} {registry registry' : Registry}
  {isOpen : ℕ → Bool} {destination : String} {group : PatternGroup}

/-- The scan answers with at most one group. -/
theorem chosen_mostSpecific (registry : Registry) (isOpen : ℕ → Bool) (destination : String)
    (hgroup : group ∈ registry.chosen destination
      (Routing.mostSpecific.reach isOpen registry.patterns destination false)) :
    registry.chosen destination
      (Routing.mostSpecific.reach isOpen registry.patterns destination false) = [group] := by
  unfold Routing.reach at hgroup ⊢
  simp only [Bool.false_eq_true, if_false] at hgroup ⊢
  cases hbest : Select.maxBy Pattern.specificity (fun p => p.1.pattern)
      (registry.patterns.zipIdx.filter fun p =>
        p.1.pattern.matchesName destination && p.1.isLive isOpen) with
  | none =>
    rw [hbest] at hgroup
    exact absurd hgroup not_mem_nil
  | some best =>
    rw [hbest] at hgroup
    dsimp only [Registry.chosen] at hgroup ⊢
    rw [Option.mem_toList.mp hgroup]
    rfl

section

variable (h : Registered registrations registry)
include h

/-- What the scan answers with wins. -/
theorem wins_of_mem_chosen
    (hrouting : registry.routing = .mostSpecific) (hgroup : group ∈ registry.chosen destination
      (Routing.mostSpecific.reach isOpen registry.patterns destination false)) :
    registry.Wins isOpen destination group := by
  obtain ⟨hmem, hmatch, hlive, hmax⟩ := h.mem_chosen_maxBy_iff.mp hgroup
  refine ⟨?_, hmem, hlive, hmatch, ?_⟩
  · rw [hrouting]
    exact chosen_mostSpecific registry isOpen destination hgroup
  · intro other hother hne hlive' hmatch'
    have hle := hmax other hother hmatch' hlive'
    rcases Ordering.isLE_iff_eq_lt_or_eq_eq.mp hle with hlt | heq
    · exact hlt
    · -- equal ranks would make it the same text, and a text has one group
      have htext := Pattern.text_eq_of_specificity (h.groups.parsed other hother)
        (h.groups.parsed group hmem) hmatch' hmatch heq
      exact absurd (h.groups.eq_of_text_eq hother hmem htext) hne

/-- A live match has a winner. -/
theorem exists_wins
    (hrouting : registry.routing = .mostSpecific) (hgroup : group ∈ registry.patterns)
    (hlive : group.isLive isOpen = true) (hmatch : group.pattern.matchesName destination = true) :
    ∃ winner, registry.Wins isOpen destination winner := by
  obtain ⟨index, hindex⟩ := mem_iff_getElem?.mp hgroup
  have hcandidate : (group, index) ∈ registry.patterns.zipIdx.filter fun p =>
      p.1.pattern.matchesName destination && p.1.isLive isOpen := by
    rw [mem_filter, mk_mem_zipIdx_iff_getElem?, Bool.and_eq_true]
    exact ⟨hindex, hmatch, hlive⟩
  cases hbest : Select.maxBy Pattern.specificity (fun p => p.1.pattern)
      (registry.patterns.zipIdx.filter fun p =>
        p.1.pattern.matchesName destination && p.1.isLive isOpen) with
  | none =>
    rw [Select.maxBy_eq_none_iff.mp hbest] at hcandidate
    exact absurd hcandidate not_mem_nil
  | some best =>
    have hget := (mem_filter.mp (Select.maxBy_mem hbest)).1
    refine ⟨best.1, h.wins_of_mem_chosen hrouting ?_⟩
    unfold Routing.reach
    simp only [Bool.false_eq_true, if_false, hbest, Registry.chosen]
    exact Option.mem_toList.mpr (mk_mem_zipIdx_iff_getElem?.mp hget)

/-- A live group is there under the same text in every registry of the same subscriptions. -/
theorem exists_group_perm
    (h' : Registered registrations' registry') (hperm : registrations'.Perm registrations)
    (hgroup : group ∈ registry.patterns) (hlive : group.isLive isOpen = true) :
    ∃ group' ∈ registry'.patterns, group'.text = group.text ∧ group'.pattern = group.pattern ∧
      group'.isLive isOpen = true ∧ group'.senders.Perm group.senders := by
  have htext := (h.groups.isLive_iff hgroup).mp hlive
  obtain ⟨i, hreg, hopen⟩ := mem_openTexts.mp htext
  obtain ⟨group', hgroup', heq, hpattern, hlive'⟩ := h'.groups.exists_group
    (hperm.mem_iff.mpr hreg) hopen (h.groups.parsed group hgroup)
  refine ⟨group', hgroup', heq, hpattern, hlive', ?_⟩
  rw [h'.groups.senders_eq group' hgroup', h.groups.senders_eq group hgroup, heq]
  exact (hperm.filter _).map _

/-- The winner does not depend on the order of the registrations. -/
theorem wins_perm
    (h' : Registered registrations' registry') (hperm : registrations'.Perm registrations)
    (hrouting : registry.routing = .mostSpecific) (hrouting' : registry'.routing = .mostSpecific)
    (hwins : registry.Wins isOpen destination group) :
    ∃ winner, registry'.Wins isOpen destination winner ∧ winner.text = group.text ∧
      winner.pattern = group.pattern ∧ winner.senders.Perm group.senders := by
  obtain ⟨winner, hwinner, htext, hpattern, hlive, hsenders⟩ :=
    h.exists_group_perm h' hperm hwins.mem hwins.isLive
  refine ⟨winner, h'.wins_of_mem_chosen hrouting' ?_, htext, hpattern, hsenders⟩
  refine h'.mem_chosen_maxBy_iff.mpr ⟨hwinner, ?_, hlive, ?_⟩
  · rw [hpattern]
    exact hwins.isMatch
  · intro other' hother' hmatch' hlive'
    obtain ⟨other, hother, -, hsame, hotherLive, -⟩ :=
      h'.exists_group_perm h hperm.symm hother' hlive'
    rw [← hsame, hpattern]
    rw [← hsame] at hmatch'
    have hchosen : group ∈ registry.chosen destination
        (Routing.mostSpecific.reach isOpen registry.patterns destination false) := by
      rw [← hrouting, hwins.chosen]
      exact mem_singleton_self group
    exact (h.mem_chosen_maxBy_iff.mp hchosen).2.2.2 other hother hmatch' hotherLive

end

end Registered

/-! ## What is delivered -/

/-- The text is for the destination: its name, or a pattern that matches it. -/
def Matching (destination text : String) : Prop :=
  (hasWildcard text = false ∧ text = destination) ∨
    ∃ pattern, Pattern.parse text = .ok pattern ∧ pattern.matchesName destination = true

/-- The other text goes before this one: it is the exact name, or the more specific pattern. -/
def Outranks (destination other text : String) : Prop :=
  (hasWildcard other = false ∧ other = destination ∧ text ≠ destination) ∨
    ∃ pattern pattern', Pattern.parse text = .ok pattern ∧ Pattern.parse other = .ok pattern' ∧
      pattern'.matchesName destination = true ∧ pattern.specificity pattern' = .lt

section Delivered

variable {registrations : List (ℕ × String)} {registry : Registry} {isOpen : ℕ → Bool}
  {destination text : String} {i : ℕ}

/-- A subscription that is read and matches misses a publish only to one that is read, goes before
it and receives the publish. -/
theorem Registered.recipient_or_outranked (h : Registered registrations registry)
    (hrouting : registry.routing = .mostSpecific) (hreg : (i, text) ∈ registrations)
    (hopen : isOpen i = true) (hmatching : Matching destination text) :
    i ∈ registry.recipients isOpen destination ∨
      ∃ j other, (j, other) ∈ registrations ∧ isOpen j = true ∧
        j ∈ registry.recipients isOpen destination ∧ Outranks destination other text := by
  rcases hmatching with hexact | ⟨pattern, hparse, hmatch⟩
  · exact Or.inl ((h.mem_recipients_iff hopen).mpr ⟨text, hreg, Or.inl hexact⟩)
  by_cases hname : hasWildcard destination = false ∧ destination ∈ openTexts isOpen registrations
  · -- the exact name is read, and takes it
    obtain ⟨hwild, hmem⟩ := hname
    obtain ⟨j, hj, hopen'⟩ := mem_openTexts.mp hmem
    refine Or.inr ⟨j, destination, hj, hopen', ?_, Or.inl ⟨hwild, rfl, ?_⟩⟩
    · exact (h.mem_recipients_iff hopen').mpr ⟨destination, hj, Or.inl ⟨hwild, rfl⟩⟩
    · rintro rfl
      rw [hasWildcard_of_parse hparse] at hwild
      cases hwild
  · obtain ⟨group, hgroup, rfl, rfl, hlive⟩ := h.groups.exists_group hreg hopen hparse
    obtain ⟨winner, hwins⟩ := h.exists_wins hrouting hgroup hlive hmatch
    have hreaches : ∀ {j}, isOpen j = true → (j, winner.text) ∈ registrations →
        j ∈ registry.recipients isOpen destination := by
      intro j hopen' hj
      have hreached : registry.reached isOpen destination
          = registry.routing.reach isOpen registry.patterns destination false := by
        rw [Registry.reached, Bool.of_not_eq_true (mt h.exactLive_iff.mp hname)]
      rw [Registry.recipients, hreached, hwins.chosen, mem_append]
      refine Or.inr ?_
      rw [flatMap_singleton, h.groups.senders_eq winner hwins.mem]
      exact mem_sendersOf.mpr hj
    by_cases hsame : group = winner
    · subst hsame
      exact Or.inl (hreaches hopen hreg)
    · obtain ⟨j, hj, hopen'⟩ := mem_openTexts.mp
        ((h.groups.isLive_iff hwins.mem).mp hwins.isLive)
      refine Or.inr ⟨j, winner.text, hj, hopen', hreaches hopen' hj, Or.inr ?_⟩
      exact ⟨group.pattern, winner.pattern, hparse, h.groups.parsed winner hwins.mem,
        hwins.isMatch, hwins.beats group hgroup hsame hlive hmatch⟩

end Delivered

/-- **Under the most specific rule there is exactly one winner.** Two valid pattern texts that match
a destination rank alike only if they are equal. Whatever subscriptions are opened, in whatever
order, and whichever of them are still read: if a live group matches, one group is chosen, it is
live, it matches, it is strictly more specific than every other live match, and it is the same for
every order of the registrations. A publish is appended to the queue of every subscription that is
read and matches, unless one that is read too goes before it and receives the publish. -/
theorem most_specific_has_one_winner (state : MemoryState)
    (hbus : state.bus = .live (Registry.new .mostSpecific)) (registrations : List (ℕ × String))
    (hdistinct : (registrations.map Prod.fst).Nodup)
    (hvalid : ∀ r ∈ registrations, hasWildcard r.2 = true →
      ∃ pattern, Pattern.parse r.2 = .ok pattern) (destination : String) :
    (∀ text text' pattern pattern', Pattern.parse text = .ok pattern →
      Pattern.parse text' = .ok pattern' → pattern.matchesName destination = true →
      pattern'.matchesName destination = true → pattern.specificity pattern' = .eq →
      text = text') ∧
    ∃ registry, state.openAll registrations = .ok { state with bus := .live registry } ∧
      (∀ group ∈ registry.patterns, group.isLive state.isOpen = true →
        group.pattern.matchesName destination = true →
        ∃ winner, registry.Wins state.isOpen destination winner ∧
          ∀ registrations', registrations'.Perm registrations →
            ∃ registry' winner',
              state.openAll registrations' = .ok { state with bus := .live registry' } ∧
              registry'.Wins state.isOpen destination winner' ∧ winner'.text = winner.text ∧
              winner'.pattern = winner.pattern ∧ winner'.senders.Perm winner.senders) ∧
      ∀ payload headers, ∃ after,
        MemoryState.fanoutUnsent { state with bus := .live registry } destination payload headers
          = .ok after ∧
        ∀ i text, (i, text) ∈ registrations → state.isOpen i = true →
          Matching destination text →
          (∃ delivery, after.queues i = state.queues i ++ [delivery]) ∨
            ∃ j other delivery, (j, other) ∈ registrations ∧ state.isOpen j = true ∧
              Outranks destination other text ∧ after.queues j = state.queues j ++ [delivery] := by
  obtain ⟨registry, hopened, hrouting, hregistered⟩ :=
    (registered_new .mostSpecific).openAll hbus hvalid
  rw [List.nil_append] at hregistered
  refine ⟨fun text text' pattern pattern' => Pattern.text_eq_of_specificity, registry, hopened,
    ?_, ?_⟩
  · intro group hgroup hlive hmatch
    obtain ⟨winner, hwins⟩ := hregistered.exists_wins hrouting hgroup hlive hmatch
    refine ⟨winner, hwins, ?_⟩
    intro registrations' hperm
    obtain ⟨registry', hopened', hrouting', hregistered'⟩ :=
      (registered_new .mostSpecific).openAll hbus
        fun r hr => hvalid r (hperm.mem_iff.mp hr)
    rw [List.nil_append] at hregistered'
    obtain ⟨winner', hwins', hsame⟩ :=
      hregistered.wins_perm hregistered' hperm hrouting hrouting' hwins
    exact ⟨registry', winner', hopened', hwins', hsame⟩
  · intro payload headers
    let opened : MemoryState := { state with bus := .live registry }
    obtain ⟨hqueues, hisOpen, -⟩ := opened.stamp_frame ⟨destination, payload, headers⟩
    have hreceives : ∀ {i}, state.isOpen i = true →
        i ∈ registry.recipients opened.isOpen destination →
        ((opened.stamp ⟨destination, payload, headers⟩).2.sendTo
          (registry.recipients opened.isOpen destination)
          (opened.stamp ⟨destination, payload, headers⟩).1).queues i
          = state.queues i ++ [(opened.stamp ⟨destination, payload, headers⟩).1] := by
      intro i hopen hmem
      rw [MemoryState.queues_sendTo _ _ (hregistered.nodup_recipients hdistinct), hqueues, hisOpen,
        if_pos ⟨hmem, hopen⟩]
    refine ⟨_, fanoutUnsent_eq opened rfl ⟨destination, payload, headers⟩, ?_⟩
    intro i text hreg hopen hmatching
    rcases hregistered.recipient_or_outranked hrouting hreg hopen hmatching with
      hmem | ⟨j, other, hj, hopen', hmem, hrank⟩
    · exact Or.inl ⟨_, hreceives hopen hmem⟩
    · exact Or.inr ⟨j, other, _, hj, hopen', hrank, hreceives hopen' hmem⟩

/-- A broker on which only subscription 1 is still read. -/
def oneReader : MemoryState :=
  { newBroker .mostSpecific .unbounded with isOpen := fun i => i == 1 }

/-- The less specific pattern receives what the gone ones, by name and by pattern, would take. -/
theorem most_specific_has_one_winner_one_reader :
    ∃ registry after delivery,
      oneReader.openAll [(0, "orders.*"), (1, "orders.>"), (2, "orders.eu")]
        = .ok { oneReader with bus := .live registry } ∧
      MemoryState.fanoutUnsent { oneReader with bus := .live registry } "orders.eu" []
        HeaderMap.new = .ok after ∧ after.queues 1 = oneReader.queues 1 ++ [delivery] := by
  have hparse : Pattern.parse "orders.>" = .ok ⟨[.literal "orders".toList, .tail], rfl⟩ := by
    decide +kernel
  have hvalid : ∀ r ∈ [(0, "orders.*"), (1, "orders.>"), (2, "orders.eu")],
      hasWildcard r.2 = true → ∃ pattern, Pattern.parse r.2 = .ok pattern := by
    intro r hr hwild
    simp only [List.mem_cons, List.not_mem_nil, or_false] at hr
    rcases hr with rfl | rfl | rfl
    · exact ⟨⟨[.literal "orders".toList, .one], trivial⟩, by decide +kernel⟩
    · exact ⟨_, hparse⟩
    · exact absurd hwild (by decide +kernel)
  obtain ⟨-, registry, hopened, -, hdelivers⟩ := most_specific_has_one_winner oneReader rfl
    [(0, "orders.*"), (1, "orders.>"), (2, "orders.eu")] (by decide) hvalid "orders.eu"
  obtain ⟨after, hafter, hdelivered⟩ := hdelivers [] HeaderMap.new
  have hmatching : Matching "orders.eu" "orders.>" := Or.inr ⟨_, hparse, by decide +kernel⟩
  rcases hdelivered 1 "orders.>" (by decide) rfl hmatching with
    ⟨delivery, hqueue⟩ | ⟨j, other, delivery, -, hopen, -, hqueue⟩
  · exact ⟨registry, after, delivery, hopened, hafter, hqueue⟩
  · have hj : j = 1 := eq_of_beq hopen
    subst hj
    exact ⟨registry, after, delivery, hopened, hafter, hqueue⟩

end RustStream
