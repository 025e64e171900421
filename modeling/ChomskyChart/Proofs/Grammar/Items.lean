import ChomskyChart.Grammar.Draft
import ChomskyChart.Proofs.Grammar.Numbers

/-!
# Bodies read one after another

What a build makes of the bodies it has read, given the symbols it has met. The productions of a
left side are those of its bodies, each where it first occurs. They stay the same when more symbols
are met, because numbers do.
-/

namespace ChomskyChart

open Numbers

namespace BodyKind

/-- The non-terminals a body refers to, from left to right. -/
def nonTerminals : BodyKind → List String
  | .pair b c => [b, c]
  | _ => []

def terminals : BodyKind → List String
  | .terminal t => [t]
  | _ => []

/-- The production of a body, if it has one, once the symbols are numbered. -/
def production? (ns ts : List String) : BodyKind → Option Production
  | .empty => some .empty
  | .terminal t => some (.terminal (number ts t))
  | .pair b c => some (.pair (number ns b) (number ns c))
  | .tooLong => none

/-- Different kinds have different productions. -/
theorem production?_inj {k k' : BodyKind} {ns ts : List String} {p : Production}
    (hn : k.nonTerminals ⊆ ns) (ht : k.terminals ⊆ ts) (hn' : k'.nonTerminals ⊆ ns)
    (ht' : k'.terminals ⊆ ts) (h : k.production? ns ts = some p)
    (h' : k'.production? ns ts = some p) : k = k' := by
  have he := h.trans h'.symm
  cases k <;> cases k' <;> try cases he
  case empty => rfl
  case terminal t t' =>
    injection he with he
    injection he with he
    rw [(number_inj (ht List.mem_cons_self) (ht' List.mem_cons_self)).mp he]
  case pair b c b' c' =>
    injection he with he
    injection he with hb hc
    rw [(number_inj (hn List.mem_cons_self) (hn' List.mem_cons_self)).mp hb,
      (number_inj (hn (List.mem_cons_of_mem b List.mem_cons_self))
        (hn' (List.mem_cons_of_mem b' List.mem_cons_self))).mp hc]
  case tooLong => cases h

/-- Meeting more symbols leaves a production as it is. -/
theorem production?_append {k : BodyKind} {ns ts : List String} (hn : k.nonTerminals ⊆ ns)
    (ht : k.terminals ⊆ ts) (ns' ts' : List String) :
    k.production? (ns ++ ns') (ts ++ ts') = k.production? ns ts := by
  cases k with
  | empty => rfl
  | terminal t =>
    have hmem : t ∈ ts := ht (List.mem_singleton_self t)
    rw [production?, production?, number_append hmem]
  | pair b c =>
    have hb : b ∈ ns := hn List.mem_cons_self
    have hc : c ∈ ns := hn (List.mem_cons_of_mem b List.mem_cons_self)
    rw [production?, production?, number_append hb, number_append hc]
  | tooLong => rfl

end BodyKind

/-- A body with its left side. -/
abbrev Item := String × Body

namespace Item

def kind (it : Item) : BodyKind := Body.kind it.2

/-- The warning about a body that recognition never uses. -/
def warning? (start : String) (it : Item) : Option Warning :=
  match it.kind with
  | .empty => if it.1 = start then none else some (.emptyBodyOffStart it.1)
  | .tooLong => some (.bodyTooLong it.1 it.2)
  | _ => none

/-- The non-terminals the bodies refer to, in order and with repetition. -/
def nonTerminals (items : List Item) : List String :=
  items.flatMap fun it => it.kind.nonTerminals

def terminals (items : List Item) : List String :=
  items.flatMap fun it => it.kind.terminals

/-- The productions of a left side, each where it first occurs. -/
def productions (ns ts : List String) (items : List Item) (left : String) : List Production :=
  ((items.filter fun it => it.1 = left).filterMap fun it => it.kind.production? ns ts).eraseDups

variable {items : List Item} {it : Item} {ns ts : List String} {left : String}

theorem subset_nonTerminals (h : it ∈ items) : it.kind.nonTerminals ⊆ nonTerminals items :=
  fun _ hn => List.mem_flatMap.mpr ⟨it, h, hn⟩

theorem subset_terminals (h : it ∈ items) : it.kind.terminals ⊆ terminals items :=
  fun _ ht => List.mem_flatMap.mpr ⟨it, h, ht⟩

theorem nonTerminals_concat (items : List Item) (it : Item) :
    nonTerminals (items ++ [it]) = nonTerminals items ++ it.kind.nonTerminals := by
  rw [nonTerminals, List.flatMap_append, List.flatMap_singleton, nonTerminals]

theorem terminals_concat (items : List Item) (it : Item) :
    terminals (items ++ [it]) = terminals items ++ it.kind.terminals := by
  rw [terminals, List.flatMap_append, List.flatMap_singleton, terminals]

theorem mem_productions {p : Production} :
    p ∈ productions ns ts items left ↔
      ∃ it ∈ items, it.1 = left ∧ it.kind.production? ns ts = some p := by
  rw [productions, List.mem_eraseDups, List.mem_filterMap]
  constructor
  · intro h
    obtain ⟨it, hit, hp⟩ := h
    obtain ⟨hit, hl⟩ := List.mem_filter.mp hit
    exact ⟨it, hit, of_decide_eq_true hl, hp⟩
  · intro h
    obtain ⟨it, hit, hl, hp⟩ := h
    exact ⟨it, List.mem_filter.mpr ⟨hit, decide_eq_true hl⟩, hp⟩

theorem productions_eq_nil (h : ∀ it ∈ items, it.1 ≠ left) : productions ns ts items left = [] := by
  rw [List.eq_nil_iff_forall_not_mem]
  intro p hp
  obtain ⟨it, hit, hl, -⟩ := mem_productions.mp hp
  exact h it hit hl

theorem productions_append (hn : ∀ it ∈ items, it.kind.nonTerminals ⊆ ns)
    (ht : ∀ it ∈ items, it.kind.terminals ⊆ ts) (ns' ts' : List String) :
    productions (ns ++ ns') (ts ++ ts') items = productions ns ts items := by
  funext left
  rw [productions, productions]
  congr 1
  refine List.filterMap_congr fun it hit => ?_
  have hit := (List.mem_filter.mp hit).1
  exact BodyKind.production?_append (hn it hit) (ht it hit) ns' ts'

/-- One more body adds its production at its left side, unless it is there already. -/
theorem productions_concat (it : Item) {p : Production} (hp : it.kind.production? ns ts = some p)
    (left : String) :
    productions ns ts (items ++ [it]) left =
      if left = it.1 then
        if p ∈ productions ns ts items left then productions ns ts items left
        else productions ns ts items left ++ [p]
      else productions ns ts items left := by
  by_cases hl : left = it.1
  · have hf : (items ++ [it]).filter (fun it => it.1 = left) =
        items.filter (fun it => it.1 = left) ++ [it] := by
      rw [List.filter_append, List.filter_singleton, decide_eq_true hl.symm]
      rfl
    have hm : [it].filterMap (fun it => it.kind.production? ns ts) = [p] := by
      simp [hp]
    rw [if_pos hl, productions, hf, List.filterMap_append, hm]
    by_cases h : p ∈ productions ns ts items left
    · rw [if_pos h]
      exact eraseDups_concat_of_mem (List.mem_eraseDups.mp h)
    · rw [if_neg h]
      exact eraseDups_concat_of_not_mem (mt List.mem_eraseDups.mpr h)
  · have hf : (items ++ [it]).filter (fun it => it.1 = left) =
        items.filter (fun it => it.1 = left) := by
      rw [List.filter_append, List.filter_singleton, decide_eq_false (Ne.symm hl)]
      exact List.append_nil _
    rw [if_neg hl, productions, hf, productions]

theorem productions_concat_of_none (it : Item) (hp : it.kind.production? ns ts = none) :
    productions ns ts (items ++ [it]) = productions ns ts items := by
  funext left
  have hf : ([it].filter fun it => it.1 = left).filterMap (fun it => it.kind.production? ns ts) =
      [] := by
    rw [List.filterMap_eq_nil_iff]
    intro it' hit'
    obtain rfl := List.mem_singleton.mp (List.mem_filter.mp hit').1
    exact hp
  rw [productions, List.filter_append, List.filterMap_append, hf, List.append_nil, productions]

end Item

namespace Rule

/-- The bodies of a list of rules, each with its left side. -/
def items (rules : List Rule) : List Item :=
  rules.flatMap fun rule => rule.bodies.map fun body => (rule.left, body)

/-- The non-terminals of the rules in the order in which a build meets them. -/
def nonTerminals (rules : List Rule) (start : String) : List String :=
  rules.map (·.left) ++ [start] ++ Item.nonTerminals (items rules)

def terminals (rules : List Rule) : List String :=
  Item.terminals (items rules)

/-- Some rule with the left side has a body of the kind. -/
def Has (rules : List Rule) (left : String) (k : BodyKind) : Prop :=
  ∃ rule ∈ rules, rule.left = left ∧ ∃ body ∈ rule.bodies, Body.kind body = k

variable {rules : List Rule} {left : String} {k : BodyKind}

theorem has_iff_items : Has rules left k ↔ ∃ it ∈ items rules, it.1 = left ∧ it.kind = k := by
  constructor
  · intro h
    obtain ⟨rule, hrule, hl, body, hbody, hk⟩ := h
    exact ⟨(rule.left, body), List.mem_flatMap.mpr ⟨rule, hrule, List.mem_map_of_mem hbody⟩, hl, hk⟩
  · intro h
    obtain ⟨it, hit, hl, hk⟩ := h
    obtain ⟨rule, hrule, h⟩ := List.mem_flatMap.mp hit
    obtain ⟨body, hbody, rfl⟩ := List.mem_map.mp h
    exact ⟨rule, hrule, hl, body, hbody, hk⟩

theorem start_mem (start : String) : start ∈ nonTerminals rules start :=
  List.mem_append_left _ (List.mem_append_right _ (List.mem_singleton_self start))

namespace Has

theorem left_mem (h : Has rules left k) (start : String) : left ∈ nonTerminals rules start := by
  obtain ⟨rule, hrule, rfl, -⟩ := h
  exact List.mem_append_left _ (List.mem_append_left _ (List.mem_map_of_mem hrule))

theorem nonTerminals_subset (h : Has rules left k) (start : String) :
    k.nonTerminals ⊆ nonTerminals rules start := by
  obtain ⟨it, hit, -, rfl⟩ := has_iff_items.mp h
  exact List.subset_append_of_subset_right _ (Item.subset_nonTerminals hit)

theorem terminals_subset (h : Has rules left k) : k.terminals ⊆ terminals rules := by
  obtain ⟨it, hit, -, rfl⟩ := has_iff_items.mp h
  exact Item.subset_terminals hit

end Has

/-- The productions of a left side are the bodies it has, of length at most two. -/
theorem mem_productions_iff {start : String} {p : Production} :
    p ∈ Item.productions (nonTerminals rules start) (terminals rules) (items rules) left ↔
      ∃ k, Has rules left k ∧
        k.production? (nonTerminals rules start) (terminals rules) = some p := by
  rw [Item.mem_productions]
  constructor
  · intro h
    obtain ⟨it, hit, hl, hp⟩ := h
    exact ⟨it.kind, has_iff_items.mpr ⟨it, hit, hl, rfl⟩, hp⟩
  · intro h
    obtain ⟨k, h, hp⟩ := h
    obtain ⟨it, hit, hl, rfl⟩ := has_iff_items.mp h
    exact ⟨it, hit, hl, hp⟩

end Rule

end ChomskyChart
