import ChomskyChart.Proofs.Grammar.Symbols
import ChomskyChart.Proofs.Recognition.Cells

/-!
# Renamed symbols

Terminals and non-terminals are renamed, each name space on its own, so that different names stay
different and the spellings of the empty body stay such spellings. Building from the renamed rules
gives the grammar with its names replaced, and nothing else changed: numbers, productions, and hence
charts are the same. What a name looks like therefore never matters, nor whether a string is a name
in both name spaces.
-/

namespace ChomskyChart

open Numbers

/-- New names for all non-terminals and all terminals. -/
structure Renaming where
  nonTerminal : String → String
  terminal : String → String
  nonTerminal_inj : Function.Injective nonTerminal
  terminal_inj : Function.Injective terminal
  spelling : ∀ t, terminal t ∈ emptySpellings ↔ t ∈ emptySpellings

namespace Renaming

variable (ρ : Renaming)

/-- One symbol is a terminal, and two are non-terminals. The symbols of other bodies are no names of
either kind and stay as they are. -/
def body : Body → Body
  | [t] => [ρ.terminal t]
  | [b, c] => [ρ.nonTerminal b, ρ.nonTerminal c]
  | body => body

def rule (r : Rule) : Rule where
  left := ρ.nonTerminal r.left
  bodies := r.bodies.map ρ.body

def rules (rs : List Rule) : List Rule :=
  rs.map ρ.rule

def kind : BodyKind → BodyKind
  | .terminal t => .terminal (ρ.terminal t)
  | .pair b c => .pair (ρ.nonTerminal b) (ρ.nonTerminal c)
  | k => k

def item (it : Item) : Item :=
  (ρ.nonTerminal it.1, ρ.body it.2)

def entry (nt : NonTerminal) : NonTerminal :=
  { nt with name := ρ.nonTerminal nt.name }

def warning : Warning → Warning
  | .bodyTooLong left body => .bodyTooLong (ρ.nonTerminal left) (ρ.body body)
  | .emptyBodyOffStart left => .emptyBodyOffStart (ρ.nonTerminal left)

/-- A grammar with other names. -/
def grammar (g : Grammar) : Grammar :=
  { g with
    nonTerminals := g.nonTerminals.map ρ.entry
    terminals := g.terminals.map ρ.terminal
    warnings := g.warnings.map ρ.warning }

/-! ### Renamed bodies -/

theorem kind_body (body : Body) : Body.kind (ρ.body body) = ρ.kind body.kind := by
  match body with
  | [] => rfl
  | [t] =>
    by_cases ht : t ∈ emptySpellings
    · have hk : Body.kind [t] = .empty := if_pos ht
      rw [hk]
      exact if_pos ((ρ.spelling t).mpr ht)
    · have hk : Body.kind [t] = .terminal t := if_neg ht
      rw [hk]
      exact if_neg (mt (ρ.spelling t).mp ht)
  | [_, _] => rfl
  | _ :: _ :: _ :: _ => rfl

theorem kind_item (it : Item) : (ρ.item it).kind = ρ.kind it.kind :=
  ρ.kind_body it.2

theorem nonTerminals_kind (k : BodyKind) :
    (ρ.kind k).nonTerminals = k.nonTerminals.map ρ.nonTerminal := by
  cases k <;> rfl

theorem terminals_kind (k : BodyKind) : (ρ.kind k).terminals = k.terminals.map ρ.terminal := by
  cases k <;> rfl

/-- The production of a body is made of numbers, and these stay. -/
theorem production?_kind (ns ts : List String) (k : BodyKind) :
    (ρ.kind k).production? (ns.map ρ.nonTerminal) (ts.map ρ.terminal) = k.production? ns ts := by
  cases k with
  | empty => rfl
  | terminal t => rw [kind, BodyKind.production?, BodyKind.production?, number_map ρ.terminal_inj]
  | pair b c =>
    rw [kind, BodyKind.production?, BodyKind.production?, number_map ρ.nonTerminal_inj,
      number_map ρ.nonTerminal_inj]
  | tooLong => rfl

theorem warning?_item (start : String) (it : Item) :
    (ρ.item it).warning? (ρ.nonTerminal start) = (it.warning? start).map ρ.warning := by
  have hleft : (ρ.item it).1 = ρ.nonTerminal start ↔ it.1 = start := ρ.nonTerminal_inj.eq_iff
  rw [Item.warning?, Item.warning?, kind_item]
  cases it.kind with
  | empty =>
    by_cases h : it.1 = start
    · simp only [kind, if_pos h, if_pos (hleft.mpr h), Option.map_none]
    · simp only [kind, if_neg h, if_neg (mt hleft.mp h), Option.map_some]
      rfl
  | terminal t => rfl
  | pair b c => rfl
  | tooLong => rfl

/-! ### Renamed rules -/

theorem items_rules (rs : List Rule) : Rule.items (ρ.rules rs) = (Rule.items rs).map ρ.item := by
  rw [Rule.items, Rule.items, rules, List.flatMap_map, List.map_flatMap]
  refine List.flatMap_congr fun r _ => ?_
  rw [rule, List.map_map, List.map_map]
  rfl

theorem nonTerminals_items (items : List Item) :
    Item.nonTerminals (items.map ρ.item) = (Item.nonTerminals items).map ρ.nonTerminal := by
  rw [Item.nonTerminals, Item.nonTerminals, List.flatMap_map, List.map_flatMap]
  simp only [kind_item, nonTerminals_kind]

theorem terminals_items (items : List Item) :
    Item.terminals (items.map ρ.item) = (Item.terminals items).map ρ.terminal := by
  rw [Item.terminals, Item.terminals, List.flatMap_map, List.map_flatMap]
  simp only [kind_item, terminals_kind]

theorem productions_items (ns ts : List String) (items : List Item) (left : String) :
    Item.productions (ns.map ρ.nonTerminal) (ts.map ρ.terminal) (items.map ρ.item)
        (ρ.nonTerminal left) =
      Item.productions ns ts items left := by
  have hleft : (fun it : Item => decide (it.1 = ρ.nonTerminal left)) ∘ ρ.item =
      fun it => decide (it.1 = left) := by
    funext it
    exact decide_eq_decide.mpr ρ.nonTerminal_inj.eq_iff
  rw [Item.productions, Item.productions, List.filter_map, hleft, List.filterMap_map]
  congr 2
  funext it
  rw [Function.comp_apply, kind_item, production?_kind]

/-! ### Renamed grammars -/

theorem entries_map {ns : List String} {productions productions' : String → List Production}
    (h : ∀ a, productions' (ρ.nonTerminal a) = productions a) :
    Draft.entries (ns.map ρ.nonTerminal) productions' =
      (Draft.entries ns productions).map ρ.entry := by
  refine List.ext_getElem? fun i => ?_
  rw [Draft.getElem?_entries, List.getElem?_map, Draft.getElem?_entries,
    eraseDups_map ρ.nonTerminal_inj, List.getElem?_map]
  cases ns.eraseDups[i]? with
  | none => rfl
  | some a => simp only [Option.map_some, h, entry]

theorem terminalBodies_map (nts : List NonTerminal) :
    Draft.terminalBodies (nts.map ρ.entry) = Draft.terminalBodies nts := by
  rw [Draft.terminalBodies, Draft.terminalBodies, List.flatMap_map]
  rfl

theorem pairBodies_map (nts : List NonTerminal) :
    Draft.pairBodies (nts.map ρ.entry) = Draft.pairBodies nts := by
  rw [Draft.pairBodies, Draft.pairBodies, List.flatMap_map]
  rfl

theorem ofItems_map (start : String) (seed : List String) (items : List Item) :
    Draft.ofItems (ρ.nonTerminal start) (seed.map ρ.nonTerminal) (items.map ρ.item) =
      { nonTerminals := (Draft.ofItems start seed items).nonTerminals.map ρ.entry
        terminals := (Draft.ofItems start seed items).terminals.map ρ.terminal
        warnings := (Draft.ofItems start seed items).warnings.map ρ.warning } := by
  simp only [Draft.ofItems, Draft.having, nonTerminals_items, terminals_items, ← List.map_append,
    ρ.entries_map (ρ.productions_items _ _ items), eraseDups_map ρ.terminal_inj,
    List.filterMap_map, List.map_filterMap, Function.comp_def, warning?_item]

/-- Building commutes with renaming. -/
theorem build_rules (rs : List Rule) (start : String) :
    Grammar.build (ρ.rules rs) (ρ.nonTerminal start) = ρ.grammar (Grammar.build rs start) := by
  have hseed : (ρ.rules rs).map (·.left) ++ [ρ.nonTerminal start] =
      (rs.map (·.left) ++ [start]).map ρ.nonTerminal := by
    rw [rules, List.map_map, List.map_append, List.map_map]
    rfl
  have hmet : Rule.nonTerminals (ρ.rules rs) (ρ.nonTerminal start) =
      (Rule.nonTerminals rs start).map ρ.nonTerminal := by
    rw [Rule.nonTerminals, hseed, items_rules, nonTerminals_items, ← List.map_append,
      Rule.nonTerminals]
  rw [Grammar.build_eq, Grammar.build_eq, hseed, items_rules, ofItems_map, hmet,
    number_map ρ.nonTerminal_inj]
  simp only [Draft.finish, grammar, terminalBodies_map, pairBodies_map]

/-! ### Renaming changes no answer -/

variable (g : Grammar)

theorem productions_grammar (i : Nat) :
    (ρ.grammar g).nonTerminals[i]?.map NonTerminal.productions =
      g.nonTerminals[i]?.map NonTerminal.productions := by
  rw [grammar, List.getElem?_map, Option.map_map]
  rfl

theorem derivesEmpty_grammar : (ρ.grammar g).derivesEmpty = g.derivesEmpty := by
  rw [Grammar.derivesEmpty, Grammar.derivesEmpty, grammar, List.getElem?_map]
  cases g.nonTerminals[g.start]? <;> rfl

theorem terminalDerivers_grammar (t : String) :
    (ρ.grammar g).terminalDerivers (ρ.terminal t) = g.terminalDerivers t := by
  have hindex : (ρ.grammar g).terminalIndex? (ρ.terminal t) = g.terminalIndex? t := by
    have hp : (fun u => decide (u = ρ.terminal t)) ∘ ρ.terminal = fun u => decide (u = t) := by
      funext u
      exact decide_eq_decide.mpr ρ.terminal_inj.eq_iff
    rw [Grammar.terminalIndex?, Grammar.terminalIndex?, grammar, List.findIdx?_map, hp]
  rw [Grammar.terminalDerivers, Grammar.terminalDerivers, hindex]
  rfl

theorem chart_grammar (tokens : List String) :
    (ρ.grammar g).chart (tokens.map ρ.terminal) = g.chart tokens := by
  have hterminal : ∀ t, (ρ.grammar g).index.terminalDerivers (ρ.terminal t) =
      g.index.terminalDerivers t := ρ.terminalDerivers_grammar g
  have hpair : (ρ.grammar g).index.pairDerivers = g.index.pairDerivers := rfl
  exact RuleIndex.fill_map hterminal hpair tokens

/-! ### Names apart -/

/-- A name with a mark in front. -/
def mark (c : Char) (name : String) : String :=
  String.ofList (c :: name.toList)

theorem head?_mark (c : Char) (name : String) : (mark c name).toList.head? = some c := by
  rw [mark, String.toList_ofList, List.head?_cons]

theorem mark_inj (c : Char) : Function.Injective (mark c) := by
  intro a b h
  exact String.toList_inj.mp (List.cons.inj (String.ofList_injective h)).2

theorem head?_of_mem_emptySpellings :
    ∀ s ∈ emptySpellings, s.toList.head? ≠ some 'n' ∧ s.toList.head? ≠ some 't' := by
  decide

/-- A terminal with a mark in front, except that the empty body keeps its spellings. -/
def markTerminal (t : String) : String :=
  if t ∈ emptySpellings then t else mark 't' t

theorem markTerminal_mem_iff (t : String) :
    markTerminal t ∈ emptySpellings ↔ t ∈ emptySpellings := by
  rw [markTerminal]
  split
  · rfl
  · rename_i ht
    refine iff_of_false (fun hm => ?_) ht
    exact (head?_of_mem_emptySpellings _ hm).2 (head?_mark 't' t)

theorem markTerminal_inj : Function.Injective markTerminal := by
  intro t u h
  have hiff : t ∈ emptySpellings ↔ u ∈ emptySpellings := by
    rw [← markTerminal_mem_iff, h, markTerminal_mem_iff]
  by_cases ht : t ∈ emptySpellings
  · rwa [markTerminal, markTerminal, if_pos ht, if_pos (hiff.mp ht)] at h
  · rw [markTerminal, markTerminal, if_neg ht, if_neg (mt hiff.mpr ht)] at h
    exact mark_inj 't' h

theorem mark_ne_markTerminal (a t : String) : mark 'n' a ≠ markTerminal t := by
  intro h
  have hhead := head?_mark 'n' a
  rw [h, markTerminal] at hhead
  split at hhead
  · rename_i ht
    exact (head?_of_mem_emptySpellings t ht).1 hhead
  · rw [head?_mark] at hhead
    cases hhead

/-- New names by which no string is a name in both name spaces. -/
def apart : Renaming where
  nonTerminal := mark 'n'
  terminal := markTerminal
  nonTerminal_inj := mark_inj 'n'
  terminal_inj := markTerminal_inj
  spelling := markTerminal_mem_iff

end Renaming

/-- A grammar built from renamed rules has the start symbol, the productions and the charts it had,
by number. There is a renaming after which no string is a name in both name spaces, so a string that
is one in both stands for two symbols that have nothing to do with each other. -/
theorem Grammar.build_renamed :
    (∀ (ρ : Renaming) (rules : List Rule) (start : String),
      let g := build rules start
      let g' := build (ρ.rules rules) (ρ.nonTerminal start)
      g'.start = g.start ∧
      (∀ i : Nat, g'.nonTerminals[i]?.map NonTerminal.productions =
        g.nonTerminals[i]?.map NonTerminal.productions) ∧
      g'.derivesEmpty = g.derivesEmpty ∧
      g'.warnings.length = g.warnings.length ∧
      ∀ tokens, g'.chart (tokens.map ρ.terminal) = g.chart tokens) ∧
    ∃ ρ : Renaming, ∀ a t, ρ.nonTerminal a ≠ ρ.terminal t := by
  refine ⟨fun ρ rules start => ?_, .apart, ?_⟩
  · simp only [ρ.build_rules]
    refine ⟨rfl, ρ.productions_grammar _, ρ.derivesEmpty_grammar _, ?_, ρ.chart_grammar _⟩
    exact List.length_map ρ.warning
  · exact Renaming.mark_ne_markTerminal

end ChomskyChart
