import Mathlib.Data.Finset.Card
import Mathlib.Data.List.Nodup
import SqlQuery.Proofs.RuleOrder

/-!
# The union of rule sets

A union is made in two steps: the rules of the second set are placed among those
of the first, and the outcome is put in order.  The first step keeps every place
of the first set, whatever rule stands there afterwards, and lists the new names
behind them; the second step keeps the order among rules of one priority.

A row of rules with falling priorities is settled by its rules of each priority,
so that two unions are equal as soon as they agree in these.

## Main definitions

* `RuleSet.Built` — the sets that come about by the operations on rules.
* `RuleSet.replacement` — what takes the place of a rule.
* `RuleSet.ofPriority` — the rules of one priority, in their order.

## Main results

* `RuleSet.eq_of_falling` — rows of rules that agree in each priority.
* `RuleSet.foldl_place_eq` — the rules of two sets before they are put in order.
* `RuleSet.Built.union_laws` — names, order, lookup and laws of unions.
-/

namespace SqlQuery.RuleSet

variable {a b c : RuleSet} {rules further : List TokenRule} {rule : TokenRule} {name : String}

/-! ## Order by priority -/

/-- The rules of one priority, in their order. -/
def ofPriority (priority : Nat) (rules : List TokenRule) : List TokenRule :=
  rules.filter fun rule => rule.priority == priority

/-- Rules of one priority keep their order. -/
theorem ofPriority_byPriority (priority : Nat) (rules : List TokenRule) :
    ofPriority priority (byPriority rules) = ofPriority priority rules := by
  have hLevel : ∀ rule ∈ ofPriority priority rules, rule.priority = priority := by
    simp [ofPriority]
  have hFalling : Falling (ofPriority priority rules) :=
    List.pairwise_of_forall_mem_list fun first hFirst second hSecond => by
      rw [hLevel first hFirst, hLevel second hSecond]
  exact (filter_byPriority _ rules).trans (byPriority_of_falling hFalling)

theorem ofPriority_append (priority : Nat) (rules further : List TokenRule) :
    ofPriority priority (rules ++ further) =
      ofPriority priority rules ++ ofPriority priority further :=
  List.filter_append rules further

theorem mem_ofPriority_self : rule ∈ ofPriority rule.priority rules ↔ rule ∈ rules := by
  simp [ofPriority]

/-- Two rows with falling priorities are equal if they agree in each priority. -/
theorem eq_of_falling (hRules : Falling rules) (hFurther : Falling further)
    (hSame : ∀ priority, ofPriority priority rules = ofPriority priority further) :
    rules = further := by
  have hMem : ∀ {rule : TokenRule}, rule ∈ rules ↔ rule ∈ further := by
    intro rule
    rw [← mem_ofPriority_self, hSame, mem_ofPriority_self]
  induction rules generalizing further with
  | nil =>
    cases further with
    | nil => rfl
    | cons other _ => exact absurd (hMem.2 List.mem_cons_self) List.not_mem_nil
  | cons rule rest ih =>
    cases further with
    | nil => exact absurd (hMem.1 List.mem_cons_self) List.not_mem_nil
    | cons other further =>
      obtain ⟨hRule, hRest⟩ := List.pairwise_cons.1 hRules
      obtain ⟨hOther, hAfter⟩ := List.pairwise_cons.1 hFurther
      -- Each of the two first rules has the highest priority of all.
      have hEqual : rule.priority = other.priority := by
        refine Nat.le_antisymm ?_ ?_
        · rcases List.mem_cons.1 (hMem.1 List.mem_cons_self) with rfl | hIn
          · exact Nat.le_refl _
          · exact hOther rule hIn
        · rcases List.mem_cons.1 (hMem.2 List.mem_cons_self) with rfl | hIn
          · exact Nat.le_refl _
          · exact hRule other hIn
      have hHead : rule = other := by
        have hFirst := hSame rule.priority
        simp only [ofPriority, List.filter_cons, beq_self_eq_true, hEqual, if_true,
          List.cons.injEq] at hFirst
        exact hFirst.1
      subst hHead
      have hTail : ∀ priority, ofPriority priority rest = ofPriority priority further := by
        intro priority
        have hBoth := hSame priority
        simp only [ofPriority, List.filter_cons] at hBoth ⊢
        split at hBoth
        · exact (List.cons.inj hBoth).2
        · exact hBoth
      rw [ih hRest hAfter hTail (by
        intro other
        rw [← mem_ofPriority_self, hTail, mem_ofPriority_self])]

/-- Putting in order depends on the rules of each priority alone. -/
theorem byPriority_congr
    (hSame : ∀ priority, ofPriority priority rules = ofPriority priority further) :
    byPriority rules = byPriority further :=
  eq_of_falling (falling_byPriority _) (falling_byPriority _) fun priority => by
    rw [ofPriority_byPriority, ofPriority_byPriority, hSame]

/-! ## Rules by name -/

/-- The names of the rules, in matching order. -/
def names (set : RuleSet) : List String := set.rules.map (·.name)

/-- Where no two rules share a name, the rule with a name is the only one. -/
theorem find?_eq_some_iff (hNames : a.names.Nodup) :
    a.find? name = some rule ↔ rule ∈ a.rules ∧ rule.name = name := by
  constructor
  · intro hFound
    exact ⟨List.mem_of_find?_eq_some hFound, by simpa using List.find?_some hFound⟩
  · rintro ⟨hMem, rfl⟩
    cases hFound : a.find? rule.name with
    | none => exact absurd (List.find?_eq_none.1 hFound rule hMem) (by simp)
    | some other =>
      have hName : other.name = rule.name := by simpa using List.find?_some hFound
      rw [List.inj_on_of_nodup_map hNames (List.mem_of_find?_eq_some hFound) hMem hName]

theorem find?_eq_none_iff : a.find? name = none ↔ name ∉ a.names := by
  simp [find?, names]

/-- The order of rules with distinct names has no part in finding them. -/
theorem find?_of_perm (hNames : a.names.Nodup) (hPerm : b.rules.Perm a.rules) :
    b.find? name = a.find? name := by
  have hNames' : b.names.Nodup := (hPerm.map _).nodup_iff.2 hNames
  ext rule
  rw [find?_eq_some_iff hNames', find?_eq_some_iff hNames, hPerm.mem_iff]

/-! ## Placing rules among others -/

/-- What takes the place of a rule: its namesake in the set, if there is one. -/
def replacement (set : RuleSet) (rule : TokenRule) : TokenRule := (set.find? rule.name).getD rule

theorem name_replacement (set : RuleSet) (rule : TokenRule) :
    (set.replacement rule).name = rule.name := by
  cases hFound : set.find? rule.name with
  | none => rw [replacement, hFound, Option.getD_none]
  | some other =>
    rw [replacement, hFound, Option.getD_some]
    simpa using List.find?_some hFound

theorem replacement_cons (rule other : TokenRule) (rest : List TokenRule) :
    replacement ⟨rule :: rest⟩ other =
      if other.name = rule.name then rule else replacement ⟨rest⟩ other := by
  by_cases hName : other.name = rule.name
  · simp [replacement, find?, hName]
  · have hOther : (rule.name == other.name) = false := beq_eq_false_iff_ne.2 (Ne.symm hName)
    simp [replacement, find?, hName, hOther]

theorem replacement_of_notMem {set : RuleSet} (hName : rule.name ∉ set.names) :
    set.replacement rule = rule := by
  rw [replacement, find?_eq_none_iff.2 hName, Option.getD_none]

/-- A rule with a name that is not new takes the place of its namesake. -/
theorem place_of_mem (hNames : (rules.map (·.name)).Nodup)
    (hName : rule.name ∈ rules.map (·.name)) :
    place rules rule = rules.map (replacement ⟨[rule]⟩) := by
  induction rules with
  | nil => exact absurd hName List.not_mem_nil
  | cons other rest ih =>
    rw [List.map_cons, List.nodup_cons] at hNames
    rw [place, List.map_cons, replacement_cons]
    by_cases hHead : other.name = rule.name
    · rw [if_pos (by simpa using hHead), if_pos hHead]
      have hRest : rest.map (replacement ⟨[rule]⟩) = rest.map id := by
        refine List.map_congr_left fun third hMem => replacement_of_notMem fun hThird => ?_
        have hThird : third.name = rule.name := by simpa [names] using hThird
        exact hNames.1 (List.mem_map.2 ⟨third, hMem, hThird.trans hHead.symm⟩)
      rw [hRest, List.map_id]
    · have hTail : rule.name ∈ rest.map (·.name) :=
        (List.mem_cons.1 hName).resolve_left (Ne.symm hHead)
      rw [if_neg (by simpa using hHead), if_neg hHead, ih hNames.2 hTail]
      rfl

theorem names_place (hNames : (rules.map (·.name)).Nodup) (rule : TokenRule) :
    (place rules rule).map (·.name) =
      if rule.name ∈ rules.map (·.name) then rules.map (·.name)
      else rules.map (·.name) ++ [rule.name] := by
  split
  · next hName =>
    rw [place_of_mem hNames hName, List.map_map]
    exact List.map_congr_left fun other _ => name_replacement _ other
  · next hName =>
    rw [place_of_forall_ne fun other hMem hOther => hName (hOther ▸ List.mem_map_of_mem hMem),
      List.map_append, List.map_singleton]

theorem nodup_names_place (hNames : (rules.map (·.name)).Nodup) (rule : TokenRule) :
    ((place rules rule).map (·.name)).Nodup := by
  rw [names_place hNames]
  split
  · exact hNames
  · next hName =>
    exact List.nodup_append.2 ⟨hNames, List.nodup_singleton _, fun old hOld new hNew hSame =>
      hName (List.mem_singleton.1 hNew ▸ hSame ▸ hOld)⟩

theorem nodup_names_foldl_place (hNames : (rules.map (·.name)).Nodup) (further : List TokenRule) :
    ((further.foldl place rules).map (·.name)).Nodup := by
  induction further generalizing rules with
  | nil => exact hNames
  | cons rule rest ih => exact ih (nodup_names_place hNames rule)

/-- **The rules of two sets before they are put in order**: those of the first in
their places, each replaced by its namesake, and then those with new names. -/
theorem foldl_place_eq (hFirst : (rules.map (·.name)).Nodup)
    (hSecond : (further.map (·.name)).Nodup) :
    further.foldl place rules =
      rules.map (replacement ⟨further⟩) ++
        further.filter fun rule => rule.name ∉ rules.map (·.name) := by
  induction further generalizing rules with
  | nil =>
    have hSelf : rules.map (replacement ⟨[]⟩) = rules.map id :=
      List.map_congr_left fun _ _ => replacement_of_notMem List.not_mem_nil
    rw [hSelf, List.map_id, List.filter_nil, List.append_nil, List.foldl_nil]
  | cons rule rest ih =>
    rw [List.map_cons, List.nodup_cons] at hSecond
    obtain ⟨hNew, hRest⟩ := hSecond
    have hNames := names_place hFirst rule
    rw [List.foldl_cons, ih (nodup_names_place hFirst rule) hRest, hNames]
    by_cases hName : rule.name ∈ rules.map (·.name)
    · -- The rule takes the place of its namesake, and no later one does.
      rw [if_pos hName, List.filter_cons_of_neg (by simpa using hName), place_of_mem hFirst hName,
        List.map_map]
      congr 1
      refine List.map_congr_left fun other _ => ?_
      rw [Function.comp_apply, replacement_cons, replacement_cons]
      split
      · exact replacement_of_notMem hNew
      · rfl
    · have hPlaced : place rules rule = rules ++ [rule] :=
        place_of_forall_ne fun other hMem hOther => hName (hOther ▸ List.mem_map_of_mem hMem)
      have hOld : rules.map (replacement ⟨rest⟩) = rules.map (replacement ⟨rule :: rest⟩) := by
        refine List.map_congr_left fun other hMem => ?_
        have hApart : other.name ≠ rule.name := fun hSame =>
          hName (hSame ▸ List.mem_map_of_mem hMem)
        rw [replacement_cons, if_neg hApart]
      have hFilter : (rest.filter fun other => other.name ∉ rules.map (·.name) ++ [rule.name]) =
          rest.filter fun other => other.name ∉ rules.map (·.name) := by
        refine List.filter_congr fun other hMem => ?_
        have hApart : other.name ≠ rule.name := fun hSame => hNew (hSame ▸ List.mem_map_of_mem hMem)
        simp [hApart]
      rw [if_neg hName, hFilter, List.filter_cons_of_pos (by simpa using hName), hPlaced,
        List.map_append, hOld, List.map_singleton, replacement_of_notMem hNew, List.append_assoc,
        List.singleton_append]

theorem find?_place (rules : List TokenRule) (rule : TokenRule) (name : String) :
    find? ⟨place rules rule⟩ name = if rule.name = name then some rule else find? ⟨rules⟩ name := by
  induction rules with
  | nil => by_cases hName : rule.name = name <;> simp [place, find?, hName]
  | cons other rest ih =>
    simp only [find?] at ih ⊢
    rw [place]
    split
    · next hSame =>
      have hSame : other.name = rule.name := by simpa using hSame
      by_cases hName : rule.name = name <;> simp [hSame, hName]
    · next hOther =>
      have hApart : other.name ≠ rule.name := by simpa using hOther
      by_cases hName : rule.name = name
      · have hHead : (other.name == name) = false := beq_eq_false_iff_ne.2 (hName ▸ hApart)
        simpa [hHead, hName] using ih
      · rw [List.find?_cons, List.find?_cons, ih, if_neg hName, if_neg hName]

/-- What is placed last is found. -/
theorem find?_foldl_place (hNames : (further.map (·.name)).Nodup) :
    find? ⟨further.foldl place rules⟩ name =
      (find? ⟨further⟩ name).or (find? ⟨rules⟩ name) := by
  induction further generalizing rules with
  | nil => rfl
  | cons rule rest ih =>
    rw [List.map_cons, List.nodup_cons] at hNames
    obtain ⟨hNew, hRest⟩ := hNames
    rw [List.foldl_cons, ih hRest, find?_place]
    by_cases hName : rule.name = name
    · have hNone : find? ⟨rest⟩ name = none := find?_eq_none_iff.2 (hName ▸ hNew)
      rw [if_pos hName, hNone]
      simp [find?, hName]
    · simp [find?, hName]

/-! ## Unions -/

/-- A set in which no two rules share a name and the priorities do not rise. -/
structure Ordered (set : RuleSet) : Prop where
  names_nodup : set.names.Nodup
  falling : Falling set.rules

/-- The union of a set without namesakes and any rules is in order. -/
theorem ordered_union (hNames : a.names.Nodup) (b : RuleSet) : (a.union b).Ordered where
  names_nodup :=
    ((perm_byPriority _).map _).nodup_iff.2 (nodup_names_foldl_place hNames b.rules)
  falling := falling_byPriority _

namespace Ordered

/-- In a union the rules of the second set are found first. -/
theorem find?_union (hFirst : a.Ordered) (hSecond : b.Ordered) (name : String) :
    (a.union b).find? name = (b.find? name).or (a.find? name) := by
  have hPlaced : (RuleSet.mk (b.rules.foldl place a.rules)).names.Nodup :=
    nodup_names_foldl_place hFirst.names_nodup b.rules
  have hSame : (a.union b).find? name =
      (RuleSet.mk (b.rules.foldl place a.rules)).find? name :=
    find?_of_perm hPlaced (perm_byPriority _)
  exact hSame.trans (find?_foldl_place hSecond.names_nodup)

theorem mem_names_union (hFirst : a.Ordered) (hSecond : b.Ordered) :
    name ∈ (a.union b).names ↔ name ∈ a.names ∨ name ∈ b.names := by
  rw [← not_iff_not, not_or, ← find?_eq_none_iff, hFirst.find?_union hSecond, Option.or_eq_none_iff,
    find?_eq_none_iff, find?_eq_none_iff, and_comm]

/-- A union has one rule for each name. -/
theorem size_union (hFirst : a.Ordered) (hSecond : b.Ordered) :
    (a.union b).size = (a.names.toFinset ∪ b.names.toFinset).card := by
  have hNames : a.names.toFinset ∪ b.names.toFinset = (a.union b).names.toFinset := by
    ext name
    simp [hFirst.mem_names_union hSecond]
  rw [hNames, List.toFinset_card_of_nodup (ordered_union hFirst.names_nodup b).names_nodup, names,
    List.length_map, size]

/-- Of the rules of one priority, those with a name of the first set come in the
order of that set, and the others come after them in the order of the second. -/
theorem ofPriority_union (hFirst : a.Ordered) (hSecond : b.Ordered) (priority : Nat) :
    ofPriority priority (a.union b).rules =
      ofPriority priority (a.rules.map b.replacement) ++
        ofPriority priority (b.rules.filter fun rule => rule.name ∉ a.names) := by
  rw [union, ofPriority_byPriority, foldl_place_eq hFirst.names_nodup hSecond.names_nodup,
    ofPriority_append]
  rfl

/-- A set united with itself stays as it is. -/
theorem union_self (hSet : a.Ordered) : a.union a = a := by
  have hSame : a.rules.map a.replacement = a.rules.map id := by
    refine List.map_congr_left fun rule hMem => ?_
    rw [replacement, (find?_eq_some_iff hSet.names_nodup).2 ⟨hMem, rfl⟩]
    rfl
  have hNone : (a.rules.filter fun rule => rule.name ∉ a.rules.map (·.name)) = [] := by
    rw [List.filter_eq_nil_iff]
    intro rule hMem
    simpa using ⟨rule, hMem, rfl⟩
  have hRules : byPriority (a.rules.foldl place a.rules) = a.rules := by
    rw [foldl_place_eq hSet.names_nodup hSet.names_nodup, hNone, List.append_nil,
      show RuleSet.mk a.rules = a from rfl, hSame, List.map_id]
    exact byPriority_of_falling hSet.falling
  rw [union, hRules]

/-- Without common names the rules of both sets are put in order together. -/
theorem rules_union (hFirst : a.Ordered) (hSecond : b.Ordered) (hApart : a.names.Disjoint b.names) :
    (a.union b).rules = byPriority (a.rules ++ b.rules) := by
  have hNames : ((a.rules ++ b.rules).map (·.name)).Nodup := by
    rw [List.map_append]
    exact hFirst.names_nodup.append hSecond.names_nodup hApart
  rw [union, foldl_place hNames]

/-- The union of sets without common names is associative. -/
theorem union_assoc (hA : a.Ordered) (hB : b.Ordered) (hC : c.Ordered)
    (hAB : a.names.Disjoint b.names) (hAC : a.names.Disjoint c.names)
    (hBC : b.names.Disjoint c.names) : (a.union b).union c = a.union (b.union c) := by
  have hLeft : (a.union b).names.Disjoint c.names := fun name hName hOther =>
    ((hA.mem_names_union hB).1 hName).elim (fun h => hAC h hOther) fun h => hBC h hOther
  have hRight : a.names.Disjoint (b.union c).names := fun name hName hOther =>
    ((hB.mem_names_union hC).1 hOther).elim (fun h => hAB hName h) fun h => hAC hName h
  have hRules : ((a.union b).union c).rules = (a.union (b.union c)).rules := by
    rw [(ordered_union hA.names_nodup b).rules_union hC hLeft,
      hA.rules_union (ordered_union hB.names_nodup c) hRight, hA.rules_union hB hAB,
      hB.rules_union hC hBC]
    refine byPriority_congr fun priority => ?_
    simp only [ofPriority_append, ofPriority_byPriority, List.append_assoc]
  exact congrArg RuleSet.mk hRules

end Ordered

/-- The sets that come about by the operations on rules. -/
inductive Built : RuleSet → Prop
  | empty : Built empty
  | ofRules (rules : List TokenRule) : Built (ofRules rules)
  | union {a b : RuleSet} (hFirst : Built a) (hSecond : Built b) : Built (a.union b)

/-- No operation leaves namesakes or rising priorities in a set. -/
theorem Built.ordered (hSet : a.Built) : a.Ordered := by
  induction hSet with
  | empty => exact ⟨List.nodup_nil, List.Pairwise.nil⟩
  | ofRules rules => exact @ordered_union RuleSet.empty List.nodup_nil ⟨rules⟩
  | union _ _ ih _ => exact ordered_union ih.names_nodup _

/-- **The laws of unions**, for all sets that come about by the operations on rules.
No two rules of a set share a name, and the priorities do not rise.  A union has
one rule for each name: that of the second set where there is one, and that of
the first where there is none.  Among rules of one priority those with a name of
the first set come in its order, and the others after them in the order of the
second.  A set united with itself stays as it is, and the union of sets without
common names is associative. -/
theorem Built.union_laws (hFirst : a.Built) (hSecond : b.Built) :
    (a.names.Nodup ∧ Falling a.rules) ∧
    (∀ name, (a.union b).find? name = (b.find? name).or (a.find? name)) ∧
    (a.union b).size = (a.names.toFinset ∪ b.names.toFinset).card ∧
    a.union a = a ∧
    (∀ priority, ofPriority priority (a.union b).rules =
      ofPriority priority (a.rules.map b.replacement) ++
        ofPriority priority (b.rules.filter fun rule => rule.name ∉ a.names)) ∧
    ∀ c : RuleSet, c.Built → a.names.Disjoint b.names → a.names.Disjoint c.names →
      b.names.Disjoint c.names → (a.union b).union c = a.union (b.union c) := by
  have hA := hFirst.ordered
  have hB := hSecond.ordered
  exact ⟨⟨hA.names_nodup, hA.falling⟩, hA.find?_union hB, hA.size_union hB, hA.union_self,
    hA.ofPriority_union hB, fun _ hThird => hA.union_assoc hB hThird.ordered⟩

/-- Rules of two priorities, one of them given twice. -/
def uneven : RuleSet :=
  .ofRules [.symbol "AT" 10 "@" .star, .symbol "HASH" 10 "#" .plus, .symbol "TILDE" 5 "~" .minus,
    .symbol "AT" 10 "@@" .star]

/-- One rule of a lower priority than its namesake, and one that is new. -/
def lowered : RuleSet := .ofRules [.symbol "HASH" 5 "##" .plus, .symbol "CARET" 10 "^" .slash]

/-- A rule that is lowered keeps its place in front of the rules that stood behind
it, and gives up the one in front of the rules that are new. -/
theorem Built.union_laws_lowered :
    (uneven.union lowered).names = ["AT", "CARET", "HASH", "TILDE"] ∧
      (uneven.union lowered).size = 4 ∧ uneven.union uneven = uneven ∧
      ofPriority 5 (uneven.union lowered).rules =
        [.symbol "HASH" 5 "##" .plus, .symbol "TILDE" 5 "~" .minus] ∧
      (uneven.union base).union RuleSet.variables =
        uneven.union (base.union RuleSet.variables) := by
  have hUneven : uneven.Built := .ofRules _
  obtain ⟨-, -, hSize, hSelf, hOrder, -⟩ := union_laws hUneven (.ofRules _ : lowered.Built)
  obtain ⟨-, -, -, -, -, hAssoc⟩ := union_laws hUneven (.ofRules _ : base.Built)
  refine ⟨by decide, hSize.trans (by decide), hSelf, hOrder 5, ?_⟩
  exact hAssoc _ (.ofRules _) (List.disjoint_left.2 (by decide +kernel))
    (List.disjoint_left.2 (by decide)) (List.disjoint_left.2 (by decide +kernel))

end SqlQuery.RuleSet
