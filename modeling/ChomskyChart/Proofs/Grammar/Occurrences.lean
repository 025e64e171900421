import ChomskyChart.Proofs.Grammar.Symbols

/-!
# The order of symbols and productions

A build takes its symbols in the order in which it meets them first: the left sides of all rules,
then the start symbol, then the non-terminals in bodies. A symbol's number is its place in this
order. The productions of a left side follow its bodies through all rules, wherever these stand.

The lists here are read off the rules by the lengths and spellings of bodies, and not body by body
as a build reads them.
-/

namespace ChomskyChart

open Numbers

/-- A body of at most two symbols as a production, by the places of its symbols. There is none if a
symbol has no place. -/
def Body.production? (names tokens : List String) : Body → Option Production
  | [] => some .empty
  | [t] => if t ∈ ["ε", "ϵ", ""] then some .empty else (tokens.idxOf? t).map .terminal
  | [b, c] => do return .pair (← names.idxOf? b) (← names.idxOf? c)
  | _ => none

namespace Rule

/-- The bodies of a left side in all rules. -/
def bodiesOf (rules : List Rule) (left : String) : List Body :=
  (rules.filter (·.left = left)).flatMap (·.bodies)

/-- The symbols of the bodies of two symbols. -/
def pairSymbols (rules : List Rule) : List String :=
  ((rules.flatMap (·.bodies)).filter (·.length = 2)).flatten

/-- The symbols of the bodies of one symbol, other than the spellings of the empty body. -/
def tokens (rules : List Rule) : List String :=
  ((rules.flatMap (·.bodies)).filter (·.length = 1)).flatten.filter (· ∉ ["ε", "ϵ", ""])

end Rule

variable {rules : List Rule} {start left t : String} {ns ts : List String} {body : Body}

/-! ### Bodies by length and spelling -/

theorem Body.flatten_filter (p : Body → Bool) (bodies : List Body) :
    (bodies.filter p).flatten = bodies.flatMap fun body => if p body then body else [] := by
  induction bodies with
  | nil => rfl
  | cons body bodies ih =>
    rw [List.flatMap_cons, ← ih, List.filter_cons]
    split
    · rfl
    · exact (List.nil_append _).symm

theorem Body.nonTerminals_kind (body : Body) :
    body.kind.nonTerminals = if decide (body.length = 2) then body else [] := by
  match body with
  | [] => rfl
  | [t] =>
    by_cases ht : t ∈ emptySpellings
    · rw [kind, if_pos ht]
      rfl
    · rw [kind, if_neg ht]
      rfl
  | [b, c] => rfl
  | _ :: _ :: _ :: _ => simp [kind, BodyKind.nonTerminals]

theorem Body.terminals_kind (body : Body) :
    body.kind.terminals =
      (if decide (body.length = 1) then body else []).filter (· ∉ ["ε", "ϵ", ""]) := by
  match body with
  | [] => rfl
  | [t] =>
    by_cases ht : t ∈ ["ε", "ϵ", ""]
    · have hdrop : [t].filter (· ∉ ["ε", "ϵ", ""]) = [] :=
        List.filter_cons_of_neg (mt of_decide_eq_true (not_not_intro ht))
      rw [(kind_eq_empty_iff [t]).mpr (.inr ⟨t, ht, rfl⟩)]
      exact hdrop.symm
    · have hkeep : [t].filter (· ∉ ["ε", "ϵ", ""]) = [t] :=
        List.filter_cons_of_pos (decide_eq_true ht)
      rw [(kind_eq_terminal_iff [t] t).mpr ⟨rfl, ht⟩]
      exact hkeep.symm
  | [b, c] => rfl
  | _ :: _ :: _ :: _ => simp [kind, BodyKind.terminals]

/-- A body has a production by places as it has one by numbers. -/
theorem Body.production?_eq (hn : body.kind.nonTerminals ⊆ ns) (ht : body.kind.terminals ⊆ ts) :
    body.production? ns.eraseDups ts.eraseDups = body.kind.production? ns ts := by
  match body with
  | [] => rfl
  | [t] =>
    by_cases he : t ∈ ["ε", "ϵ", ""]
    · rw [(kind_eq_empty_iff [t]).mpr (.inr ⟨t, he, rfl⟩)]
      exact if_pos he
    · rw [(kind_eq_terminal_iff [t] t).mpr ⟨rfl, he⟩] at ht ⊢
      rw [production?, if_neg he, idxOf?_eraseDups (ht (List.mem_singleton_self t))]
      rfl
  | [b, c] =>
    have hb : b ∈ ns := hn List.mem_cons_self
    have hc : c ∈ ns := hn (List.mem_cons_of_mem b List.mem_cons_self)
    rw [production?, idxOf?_eraseDups hb, idxOf?_eraseDups hc]
    rfl
  | _ :: _ :: _ :: _ => rfl

/-- A body of at most two symbols has a production, and no other body has. -/
theorem BodyKind.isSome_production? (ns ts : List String) (body : Body) :
    (body.kind.production? ns ts).isSome = decide (body.length ≤ 2) := by
  rw [Bool.eq_iff_iff, decide_eq_true_iff, ← Nat.not_lt]
  change _ ↔ ¬ 3 ≤ body.length
  rw [← body.kind_eq_tooLong_iff]
  cases body.kind <;> simp [production?]

/-! ### Rules -/

namespace Rule

theorem map_snd_items (rules : List Rule) :
    (items rules).map (·.2) = rules.flatMap (·.bodies) := by
  unfold items
  rw [List.map_flatMap]
  refine List.flatMap_congr fun rule _ => ?_
  rw [List.map_map]
  exact List.map_id _

theorem map_snd_filter_items (rules : List Rule) (left : String) :
    ((items rules).filter fun it => it.1 = left).map (·.2) = bodiesOf rules left := by
  induction rules with
  | nil => rfl
  | cons rule rules ih =>
    have hitems : items (rule :: rules) =
        rule.bodies.map (fun body => (rule.left, body)) ++ items rules := List.flatMap_cons
    unfold bodiesOf at ih ⊢
    rw [hitems, List.filter_append, List.map_append, ih, List.filter_map]
    by_cases h : rule.left = left
    · simp [Function.comp_def, h]
    · simp [Function.comp_def, h]

theorem nonTerminals_eq (rules : List Rule) (start : String) :
    nonTerminals rules start = rules.map (·.left) ++ [start] ++ pairSymbols rules := by
  unfold nonTerminals Item.nonTerminals pairSymbols
  rw [Body.flatten_filter, ← map_snd_items, List.flatMap_map]
  simp only [← Body.nonTerminals_kind]
  rfl

theorem terminals_eq (rules : List Rule) : terminals rules = tokens rules := by
  unfold terminals Item.terminals tokens
  rw [Body.flatten_filter, List.filter_flatMap, ← map_snd_items, List.flatMap_map]
  simp only [← Body.terminals_kind]
  rfl

end Rule

/-! ### A build -/

theorem mapM_filter_of_isSome {α β : Type} {p : α → Bool} {f : α → Option β} {l : List α}
    (h : ∀ a ∈ l, (f a).isSome = p a) : (l.filter p).mapM f = some (l.filterMap f) := by
  induction l with
  | nil => rfl
  | cons a l ih =>
    obtain ⟨ha, hl⟩ := List.forall_mem_cons.mp h
    cases hf : f a with
    | none =>
      rw [hf] at ha
      rw [List.filter_cons_of_neg (by rw [← ha]; simp), List.filterMap_cons_none hf, ih hl]
    | some b =>
      rw [hf] at ha
      rw [List.filter_cons_of_pos ha.symm, List.filterMap_cons_some hf, List.mapM_cons, hf, ih hl]
      rfl

theorem Draft.map_index_entries (ns : List String) (productions : String → List Production) :
    (entries ns productions).map (·.index) = List.range ns.eraseDups.length := by
  unfold entries
  refine List.ext_getElem (by simp) fun i _ _ => ?_
  rw [List.getElem_map, List.getElem_mapIdx, List.getElem_range]

namespace Grammar

/-- The productions of a left side in closed form. -/
theorem productions_of_bodies (rules : List Rule) (start left : String) :
    (((Rule.bodiesOf rules left).filter (·.length ≤ 2)).mapM
      (Body.production? (Rule.nonTerminals rules start).eraseDups
        (Rule.terminals rules).eraseDups)).map List.eraseDups =
      some (Item.productions (Rule.nonTerminals rules start) (Rule.terminals rules)
        (Rule.items rules) left) := by
  -- every symbol of these bodies is met, so none of them is without a place
  have hplaced : ∀ body ∈ Rule.bodiesOf rules left,
      body.production? (Rule.nonTerminals rules start).eraseDups (Rule.terminals rules).eraseDups =
        body.kind.production? (Rule.nonTerminals rules start) (Rule.terminals rules) := by
    intro body hbody
    rw [← Rule.map_snd_filter_items] at hbody
    obtain ⟨it, hit, rfl⟩ := List.mem_map.mp hbody
    have hit := (List.mem_filter.mp hit).1
    exact Body.production?_eq
      (List.subset_append_of_subset_right _ (Item.subset_nonTerminals hit))
      (Item.subset_terminals hit)
  have hsome : ∀ body ∈ Rule.bodiesOf rules left,
      (body.production? (Rule.nonTerminals rules start).eraseDups
        (Rule.terminals rules).eraseDups).isSome = decide (body.length ≤ 2) := by
    intro body hbody
    rw [hplaced body hbody, BodyKind.isSome_production?]
  rw [mapM_filter_of_isSome hsome, List.filterMap_congr hplaced, ← Rule.map_snd_filter_items,
    List.filterMap_map]
  rfl

/-- A build numbers the symbols in the order in which they first occur: first the left sides, then
the start symbol, then the symbols of pairs; and apart from these, the tokens. The productions of a
symbol are its bodies of at most two symbols, each where it first occurs in any rule. -/
theorem build_in_order (rules : List Rule) (start : String) :
    let g := build rules start
    let names := (rules.map (·.left) ++ [start] ++ Rule.pairSymbols rules).eraseDups
    let tokens := (Rule.tokens rules).eraseDups
    g.nonTerminals.map (·.name) = names ∧
    g.nonTerminals.map (·.index) = List.range names.length ∧
    g.terminals = tokens ∧
    ∀ nt ∈ g.nonTerminals,
      (((Rule.bodiesOf rules nt.name).filter (·.length ≤ 2)).mapM
        (Body.production? names tokens)).map List.eraseDups = some nt.productions := by
  simp only [← Rule.nonTerminals_eq, ← Rule.terminals_eq]
  refine ⟨?_, ?_, terminals_build, fun nt hnt => ?_⟩
  · rw [nonTerminals_build, Draft.map_name_entries]
  · rw [nonTerminals_build, Draft.map_index_entries]
  · rw [nonTerminals_build] at hnt
    obtain ⟨a, -, he⟩ := Draft.mem_entries.mp hnt
    rw [productions_of_bodies, he]

/-- A left side in two places, bodies that are repeated or too long, the empty body in two
spellings, and a start symbol that is no left side. -/
def scatteredRules : List Rule :=
  [⟨"S", [["A", "B"], ["a"], ["ε"]]⟩, ⟨"A", [["D", "D", "D"], ["B", "C"]]⟩,
    ⟨"S", [["a"], [""], ["b"], ["A", "B"]]⟩]

theorem build_in_order_scattered :
    let g := build scatteredRules "T"
    g.nonTerminals.map (·.name) = ["S", "A", "T", "B", "C"] ∧ g.terminals = ["a", "b"] ∧
    ⟨0, "S", [.pair 1 3, .terminal 0, .empty, .terminal 1]⟩ ∈ g.nonTerminals ∧
    (((Rule.bodiesOf scatteredRules "S").filter (·.length ≤ 2)).mapM
      (Body.production? ["S", "A", "T", "B", "C"] ["a", "b"])).map List.eraseDups =
        some [.pair 1 3, .terminal 0, .empty, .terminal 1] := by
  obtain ⟨hnames, -, htokens, hproductions⟩ := build_in_order scatteredRules "T"
  have hnames' : (scatteredRules.map (·.left) ++ ["T"] ++
      Rule.pairSymbols scatteredRules).eraseDups = ["S", "A", "T", "B", "C"] := by decide +kernel
  have htokens' : (Rule.tokens scatteredRules).eraseDups = ["a", "b"] := by decide +kernel
  have hmem : ⟨0, "S", [.pair 1 3, .terminal 0, .empty, .terminal 1]⟩ ∈
      (build scatteredRules "T").nonTerminals := by decide +kernel
  rw [hnames', htokens'] at hproductions
  exact ⟨hnames.trans hnames', htokens.trans htokens', hmem, hproductions _ hmem⟩

end Grammar

end ChomskyChart
