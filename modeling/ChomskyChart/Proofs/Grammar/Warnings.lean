import ChomskyChart.Proofs.Grammar.Symbols

/-!
# Bodies that are warned about

A build warns about the bodies that are too long, and about the empty bodies of every left side
other than the start symbol. These are just the bodies that recognition never uses. Without them,
but with every left side where it was, a build has nothing to warn about and is the same in all that
recognition looks at: the symbols have the same numbers, and only the empty productions of those
left sides are gone.
-/

namespace ChomskyChart

open Numbers

/-- The warning about a body of a left side, if there is one. -/
def Body.warning? (start left : String) (body : Body) : Option Warning :=
  if 3 ≤ body.length then some (.bodyTooLong left body)
  else if left ≠ start ∧ body ∈ [[], ["ε"], ["ϵ"], [""]] then some (.emptyBodyOffStart left)
  else none

namespace Rule

/-- The warnings about the bodies of some rules, in order and with repetition. -/
def warnings (rules : List Rule) (start : String) : List Warning :=
  rules.flatMap fun rule => rule.bodies.filterMap (Body.warning? start rule.left)

/-- The rule without the bodies that are warned about, and possibly without any. -/
def pruned (start : String) (rule : Rule) : Rule :=
  { rule with bodies := rule.bodies.filter fun body => (body.warning? start rule.left).isNone }

end Rule

/-- A non-terminal other than the start symbol without its empty production. -/
def NonTerminal.pruned (start : String) (nt : NonTerminal) : NonTerminal :=
  { nt with productions := nt.productions.filter fun p => nt.name = start ∨ p ≠ .empty }

variable {start : String} {rules : List Rule}

/-! ### Bodies with their left sides -/

theorem Body.mem_spellings_iff (body : Body) :
    body ∈ [[], ["ε"], ["ϵ"], [""]] ↔ body.kind = .empty := by
  rw [kind_eq_empty_iff]
  simp [emptySpellings, epsilon]

namespace Item

variable {items : List Item} {it : Item} {ns ts : List String} {w : Warning}

theorem warning?_eq (start : String) (it : Item) :
    it.warning? start = Body.warning? start it.1 it.2 := by
  have hlong := Body.kind_eq_tooLong_iff it.2
  have hempty := Body.mem_spellings_iff it.2
  unfold warning? Body.warning? kind
  simp only [hempty, ← hlong]
  cases Body.kind it.2 <;> simp

theorem filterMap_warning?_items (start : String) (rules : List Rule) :
    (Rule.items rules).filterMap (warning? start) = Rule.warnings rules start := by
  unfold Rule.items Rule.warnings
  rw [List.filterMap_flatMap]
  refine List.flatMap_congr fun rule _ => ?_
  rw [List.filterMap_map]
  exact List.filterMap_congr fun body _ => warning?_eq start (rule.left, body)

/-- The bodies that no warning is about. -/
def unwarned (start : String) (items : List Item) : List Item :=
  items.filter fun it => (it.warning? start).isNone

theorem items_pruned (start : String) (rules : List Rule) :
    Rule.items (rules.map (Rule.pruned start)) = unwarned start (Rule.items rules) := by
  unfold Rule.items unwarned
  rw [List.flatMap_map, List.filter_flatMap]
  refine List.flatMap_congr fun rule _ => ?_
  rw [List.filter_map]
  simp only [Function.comp_def, warning?_eq]
  rfl

theorem filterMap_warning?_unwarned (start : String) (items : List Item) :
    (unwarned start items).filterMap (warning? start) = [] := by
  rw [List.filterMap_eq_nil_iff]
  intro it hit
  exact Option.isNone_iff_eq_none.mp (List.mem_filter.mp hit).2

/-- A body that is warned about refers to no symbol. -/
theorem nil_of_warning? (h : it.warning? start = some w) :
    it.kind.nonTerminals = [] ∧ it.kind.terminals = [] := by
  unfold warning? at h
  cases hk : it.kind with
  | empty => exact ⟨rfl, rfl⟩
  | tooLong => exact ⟨rfl, rfl⟩
  | terminal t => simp [hk] at h
  | pair b c => simp [hk] at h

/-- Its production, if it has one, is the empty one of a left side other than the start symbol. -/
theorem filter_production? (start : String) (it : Item) (ns ts : List String) :
    (it.kind.production? ns ts).filter (fun p => it.1 = start ∨ p ≠ .empty) =
      if (it.warning? start).isNone then it.kind.production? ns ts else none := by
  unfold warning?
  cases hk : it.kind with
  | empty =>
    by_cases hs : it.1 = start
    · simp [hs, BodyKind.production?]
    · simp [hs, BodyKind.production?]
  | terminal t => simp [BodyKind.production?]
  | pair b c => simp [BodyKind.production?]
  | tooLong => rfl

theorem flatMap_unwarned {f : Item → List String}
    (h : ∀ it ∈ items, ∀ w, it.warning? start = some w → f it = []) :
    (unwarned start items).flatMap f = items.flatMap f := by
  induction items with
  | nil => rfl
  | cons it items ih =>
    obtain ⟨hit, hitems⟩ := List.forall_mem_cons.mp h
    have htail := ih hitems
    unfold unwarned at htail ⊢
    rw [List.flatMap_cons, List.filter_cons]
    cases hw : it.warning? start with
    | none => rw [if_pos Option.isNone_none, List.flatMap_cons, htail]
    | some w => rw [if_neg (by simp), htail, hit w hw, List.nil_append]

theorem nonTerminals_unwarned (start : String) (items : List Item) :
    nonTerminals (unwarned start items) = nonTerminals items :=
  flatMap_unwarned fun _ _ _ hw => (nil_of_warning? hw).1

theorem terminals_unwarned (start : String) (items : List Item) :
    terminals (unwarned start items) = terminals items :=
  flatMap_unwarned fun _ _ _ hw => (nil_of_warning? hw).2

theorem productions_unwarned (start : String) (ns ts : List String) (items : List Item)
    (left : String) :
    productions ns ts (unwarned start items) left =
      (productions ns ts items left).filter fun p => left = start ∨ p ≠ .empty := by
  unfold productions unwarned
  rw [← eraseDups_filter, List.filter_comm, List.filterMap_filter, List.filter_filterMap]
  congr 1
  refine List.filterMap_congr fun it hit => ?_
  obtain rfl : it.1 = left := of_decide_eq_true (List.mem_filter.mp hit).2
  exact (filter_production? start it ns ts).symm

end Item

/-! ### A build without the bodies that are warned about -/

namespace Draft

theorem entries_pruned {ns : List String} {productions productions' : String → List Production}
    (h : ∀ a, productions' a = (productions a).filter fun p => a = start ∨ p ≠ .empty) :
    entries ns productions' = (entries ns productions).map (NonTerminal.pruned start) := by
  refine List.ext_getElem? fun i => ?_
  rw [getElem?_entries, List.getElem?_map, getElem?_entries, Option.map_map]
  refine congrArg (Option.map · _) (funext fun a => ?_)
  rw [h a]
  rfl

theorem ofItems_unwarned (seed : List String) (items : List Item) :
    ofItems start seed (Item.unwarned start items) =
      { nonTerminals := (ofItems start seed items).nonTerminals.map (NonTerminal.pruned start)
        terminals := (ofItems start seed items).terminals
        warnings := [] } := by
  simp only [ofItems, having, Item.nonTerminals_unwarned, Item.terminals_unwarned,
    Item.filterMap_warning?_unwarned, entries_pruned (Item.productions_unwarned start _ _ items)]

/-- Pruning is not seen where empty productions are passed over. -/
theorem flatMap_pruned {β : Type} {f : NonTerminal → Production → Option β}
    (hpruned : ∀ nt, f (nt.pruned start) = f nt) (hempty : ∀ nt, f nt .empty = none)
    (nts : List NonTerminal) :
    (nts.map (NonTerminal.pruned start)).flatMap (fun nt => nt.productions.filterMap (f nt)) =
      nts.flatMap fun nt => nt.productions.filterMap (f nt) := by
  rw [List.flatMap_map]
  refine List.flatMap_congr fun nt _ => ?_
  rw [hpruned, NonTerminal.pruned, List.filterMap_filter]
  refine List.filterMap_congr fun p _ => ?_
  by_cases hp : p = .empty
  · rw [hp, hempty, ite_self]
  · rw [if_pos (decide_eq_true (.inr hp))]

theorem terminalBodies_pruned (start : String) (nts : List NonTerminal) :
    terminalBodies (nts.map (NonTerminal.pruned start)) = terminalBodies nts := by
  unfold terminalBodies
  exact flatMap_pruned (fun _ => rfl) (fun _ => rfl) nts

theorem pairBodies_pruned (start : String) (nts : List NonTerminal) :
    pairBodies (nts.map (NonTerminal.pruned start)) = pairBodies nts := by
  unfold pairBodies
  exact flatMap_pruned (fun _ => rfl) (fun _ => rfl) nts

end Draft

namespace Grammar

theorem warnings_build (rules : List Rule) (start : String) :
    (build rules start).warnings = Rule.warnings rules start := by
  rw [build_eq, ← Item.filterMap_warning?_items]
  rfl

theorem build_pruned (rules : List Rule) (start : String) :
    build (rules.map (Rule.pruned start)) start =
      { build rules start with
        nonTerminals := (build rules start).nonTerminals.map (NonTerminal.pruned start)
        warnings := [] } := by
  have hlefts : (rules.map (Rule.pruned start)).map (·.left) = rules.map (·.left) := by
    rw [List.map_map]
    rfl
  have hmet : Rule.nonTerminals (rules.map (Rule.pruned start)) start =
      Rule.nonTerminals rules start := by
    unfold Rule.nonTerminals
    rw [hlefts, Item.items_pruned, Item.nonTerminals_unwarned]
  rw [build_eq, build_eq, hmet, hlefts, Item.items_pruned, Draft.ofItems_unwarned]
  simp only [Draft.finish, Draft.terminalBodies_pruned, Draft.pairBodies_pruned]

/-- Of the start symbol nothing is left out. -/
theorem derivesEmpty_pruned (rules : List Rule) (start : String) :
    (build (rules.map (Rule.pruned start)) start).derivesEmpty =
      (build rules start).derivesEmpty := by
  have hname : (build rules start).startName = .ok start := startName_build
  rw [build_pruned]
  unfold startName symbolName at hname
  unfold derivesEmpty
  rw [List.getElem?_map]
  cases hget : (build rules start).nonTerminals[(build rules start).start]? with
  | none => rfl
  | some nt =>
    rw [hget] at hname
    obtain rfl := Except.ok.inj hname
    simp [NonTerminal.pruned]

theorem index_pruned (rules : List Rule) (start : String) :
    (build (rules.map (Rule.pruned start)) start).index = (build rules start).index := by
  unfold index
  rw [derivesEmpty_pruned, build_pruned]
  rfl

/-- The warnings of a build are those about the bodies of its rules, one for each. Without these
bodies there is no warning, and nothing that recognition looks at is changed. -/
theorem build_warns (rules : List Rule) (start : String) :
    let g := build rules start
    let g' := build (rules.map (Rule.pruned start)) start
    g.warnings = Rule.warnings rules start ∧ g'.warnings = [] ∧
    g'.nonTerminals.map (fun nt => (nt.index, nt.name)) =
      g.nonTerminals.map (fun nt => (nt.index, nt.name)) ∧
    g'.terminals = g.terminals ∧ g'.start = g.start ∧ g'.derivesEmpty = g.derivesEmpty ∧
    (∀ token, g'.terminalDerivers token = g.terminalDerivers token) ∧
    (∀ b c, g'.pairDerivers b c = g.pairDerivers b c) ∧
    ∀ tokens, g'.chart tokens = g.chart tokens := by
  have hindex := index_pruned rules start
  refine ⟨warnings_build rules start, ?_, ?_, ?_, congrArg RuleIndex.start hindex,
    congrArg RuleIndex.derivesEmpty hindex,
    fun token => congrFun (congrArg RuleIndex.terminalDerivers hindex) token,
    fun b c => congrFun (congrFun (congrArg RuleIndex.pairDerivers hindex) b) c,
    fun tokens => congrArg (RuleIndex.fill · tokens) hindex⟩
  · rw [build_pruned]
  · rw [build_pruned, List.map_map]
    rfl
  · rw [build_pruned]

/-- Each body is warned about where it stands, also when the same one stood before. Of the left side
`B`, and of the symbol `E` of a body that is too long, there is nothing else. -/
example :
    let rules : List Rule := [⟨"S", [["A", "B"], ["ε"]]⟩, ⟨"B", [["ϵ"], ["S", "E", "S"], []]⟩,
      ⟨"A", [["a"], [""]]⟩, ⟨"B", [["S", "E", "S"]]⟩]
    (build rules "S").warnings = [.emptyBodyOffStart "B", .bodyTooLong "B" ["S", "E", "S"],
      .emptyBodyOffStart "B", .emptyBodyOffStart "A", .bodyTooLong "B" ["S", "E", "S"]] ∧
    rules.map (Rule.pruned "S") =
      [⟨"S", [["A", "B"], ["ε"]]⟩, ⟨"B", []⟩, ⟨"A", [["a"]]⟩, ⟨"B", []⟩] ∧
    (build rules "S").nonTerminals.map (·.name) = ["S", "B", "A"] := by
  decide +kernel

end Grammar

end ChomskyChart
