import ChomskyChart.Proofs.Grammar.Items

/-!
# Builds in closed form

A draft depends only on the list of symbols met, in order and with repetition, and on the list of
bodies read. Both are read off the rules. So a build is a function of these lists, and what is
shown of it afterwards does not open its loops again.
-/

namespace ChomskyChart

open Numbers

namespace Draft

/-- The entries of the non-terminals met. -/
def entries (ns : List String) (productions : String → List Production) : List NonTerminal :=
  ns.eraseDups.mapIdx fun i name => { index := i, name, productions := productions name }

/-- The draft that has met the non-terminals `ns` and the terminals `ts`. -/
def having (ns ts : List String) (productions : String → List Production)
    (warnings : List Warning) : Draft where
  nonTerminals := entries ns productions
  terminals := ts.eraseDups
  warnings := warnings

variable {ns ts : List String} {productions : String → List Production} {ws : List Warning}
  {a : String}

theorem getElem?_entries (i : Nat) :
    (entries ns productions)[i]? = ns.eraseDups[i]?.map fun name =>
      { index := i, name, productions := productions name } := by
  rw [entries, List.getElem?_mapIdx]

theorem map_name_entries (productions : String → List Production) :
    (entries ns productions).map (·.name) = ns.eraseDups := by
  refine List.ext_getElem? fun i => ?_
  rw [List.getElem?_map, getElem?_entries]
  cases ns.eraseDups[i]? <;> rfl

theorem findIdx?_entries :
    ((entries ns productions).findIdx? fun nt => nt.name = a) =
      if a ∈ ns then some (number ns a) else none := by
  rw [← findIdx?_eraseDups, ← map_name_entries productions, List.findIdx?_map]
  rfl

theorem having_concat (h : a ∈ ns) :
    having (ns ++ [a]) ts productions ws = having ns ts productions ws := by
  rw [having, having, entries, entries, eraseDups_concat_of_mem h]

theorem nonTerminal_having (hnew : a ∉ ns → productions a = []) :
    (having ns ts productions ws).nonTerminal a =
      (number (ns ++ [a]) a, having (ns ++ [a]) ts productions ws) := by
  have hentries : (having ns ts productions ws).nonTerminals = entries ns productions := rfl
  rw [nonTerminal, hentries, findIdx?_entries]
  by_cases h : a ∈ ns
  · rw [if_pos h, number_append h, having_concat h]
  · rw [if_neg h, number_concat_of_not_mem h]
    simp only [having, entries, eraseDups_concat_of_not_mem h, List.mapIdx_concat,
      List.length_mapIdx, hnew h]

theorem nonTerminal_having_of_mem (h : a ∈ ns) :
    (having ns ts productions ws).nonTerminal a =
      (number ns a, having ns ts productions ws) := by
  rw [nonTerminal_having fun hn => absurd h hn, number_append h, having_concat h]

theorem terminal_having {t : String} :
    (having ns ts productions ws).terminal t =
      (number (ts ++ [t]) t, having ns (ts ++ [t]) productions ws) := by
  have hterminals : (having ns ts productions ws).terminals = ts.eraseDups := rfl
  rw [terminal, hterminals, findIdx?_eraseDups]
  by_cases h : t ∈ ts
  · rw [if_pos h, number_append h, having, having, eraseDups_concat_of_mem h]
  · rw [if_neg h, number_concat_of_not_mem h]
    simp only [having, eraseDups_concat_of_not_mem h]

theorem addProduction_having (h : a ∈ ns) (p : Production) :
    (having ns ts productions ws).addProduction (number ns a) p =
      having ns ts (fun left =>
        if left = a then if p ∈ productions left then productions left else productions left ++ [p]
        else productions left) ws := by
  have he : (entries ns productions).modify (number ns a) (·.addProduction p) =
      entries ns fun left =>
        if left = a then if p ∈ productions left then productions left else productions left ++ [p]
        else productions left := by
    refine List.ext_getElem? fun i => ?_
    rw [List.getElem?_modify, getElem?_entries, getElem?_entries]
    cases hi : ns.eraseDups[i]? with
    | none => rfl
    | some left =>
      obtain ⟨hmem, rfl⟩ := getElem?_eraseDups.mp hi
      by_cases hl : left = a
      · subst hl
        by_cases hp : p ∈ productions left <;> simp [NonTerminal.addProduction, hp]
      · have hne : number ns a ≠ number ns left := fun he => hl ((number_inj h hmem).mp he).symm
        simp [hne, hl]
  rw [addProduction, having, having, he]

/-- A body whose symbols are all met adds its production and nothing else. -/
theorem addProduction_items {seed more : List String} {it : Item} {p : Production}
    (hit : it.1 ∈ seed) (hp : it.kind.production? (seed ++ more) ts = some p) (items : List Item)
    (ws : List Warning) :
    (having (seed ++ more) ts (Item.productions (seed ++ more) ts items) ws).addProduction
        (number seed it.1) p =
      having (seed ++ more) ts (Item.productions (seed ++ more) ts (items ++ [it])) ws := by
  rw [← number_append hit, addProduction_having (List.mem_append_left more hit)]
  congr 1
  funext left
  exact (Item.productions_concat it hp left).symm

/-- The draft after the bodies `items`, when the symbols `seed` were met before them. -/
def ofItems (start : String) (seed : List String) (items : List Item) : Draft :=
  let ns := seed ++ Item.nonTerminals items
  let ts := Item.terminals items
  having ns ts (Item.productions ns ts items) (items.filterMap (Item.warning? start))

variable {start : String} {seed : List String} {items : List Item} {it : Item}

theorem nonTerminal_ofItems (h : a ∈ seed) :
    (ofItems start seed items).nonTerminal a = (number seed a, ofItems start seed items) := by
  rw [ofItems, nonTerminal_having_of_mem (List.mem_append_left _ h), number_append h]

/-- The symbols of a new body change nothing about the productions before it. -/
theorem productions_met (seed : List String) (items : List Item) (it : Item) :
    Item.productions (seed ++ (Item.nonTerminals items ++ it.kind.nonTerminals))
      (Item.terminals items ++ it.kind.terminals) items =
      Item.productions (seed ++ Item.nonTerminals items) (Item.terminals items) items := by
  rw [← List.append_assoc]
  exact Item.productions_append
    (fun _ h => List.subset_append_of_subset_right _ (Item.subset_nonTerminals h))
    (fun _ h => Item.subset_terminals h) _ _

theorem ofItems_concat (it : Item) :
    ofItems start seed (items ++ [it]) =
      let ns := seed ++ (Item.nonTerminals items ++ it.kind.nonTerminals)
      let ts := Item.terminals items ++ it.kind.terminals
      having ns ts (Item.productions ns ts (items ++ [it]))
        (items.filterMap (Item.warning? start) ++ (it.warning? start).toList) := by
  have hw : (items ++ [it]).filterMap (Item.warning? start) =
      items.filterMap (Item.warning? start) ++ (it.warning? start).toList := by
    rw [List.filterMap_append]
    cases h : it.warning? start <;> simp [h]
  simp only [ofItems, Item.nonTerminals_concat, Item.terminals_concat, hw]

/-! One step of the loop over bodies, by the kind of the body. -/

theorem addBody_of_empty (hs : start ∈ seed) (hit : it.1 ∈ seed) (hk : it.kind = .empty) :
    addBody (number seed start) (number seed it.1) it.1 (ofItems start seed items) it.2 =
      ofItems start seed (items ++ [it]) := by
  have hw : it.warning? start = if it.1 = start then none else some (.emptyBodyOffStart it.1) := by
    rw [Item.warning?, hk]
  have hp : it.kind.production? (seed ++ Item.nonTerminals items) (Item.terminals items) =
      some .empty := by rw [hk]; rfl
  have hadd := addProduction_items hit hp items
  rw [ofItems_concat, addBody, ← Item.kind, hk]
  simp only [BodyKind.nonTerminals, BodyKind.terminals, List.append_nil, number_inj hit hs]
  by_cases he : it.1 = start
  · rw [if_pos he, hw, if_pos he, ofItems, hadd, Option.toList, List.append_nil]
  · rw [if_neg he, hw, if_neg he]
    exact hadd _

theorem addBody_of_terminal {t : String} (hit : it.1 ∈ seed) (hk : it.kind = .terminal t) :
    addBody (number seed start) (number seed it.1) it.1 (ofItems start seed items) it.2 =
      ofItems start seed (items ++ [it]) := by
  have hmet := productions_met seed items it
  have hw : it.warning? start = none := by rw [Item.warning?, hk]
  have hp : it.kind.production? (seed ++ Item.nonTerminals items) (Item.terminals items ++ [t]) =
      some (.terminal (number (Item.terminals items ++ [t]) t)) := by rw [hk]; rfl
  have hadd := addProduction_items hit hp items
  rw [ofItems_concat, addBody, ← Item.kind, hk]
  simp only [hk, BodyKind.nonTerminals, BodyKind.terminals, List.append_nil] at hmet ⊢
  rw [ofItems, terminal_having, ← hmet, hw, Option.toList, List.append_nil]
  exact hadd _

theorem addBody_of_pair {b c : String} (hit : it.1 ∈ seed) (h : ∀ it ∈ items, it.1 ∈ seed)
    (hk : it.kind = .pair b c) :
    addBody (number seed start) (number seed it.1) it.1 (ofItems start seed items) it.2 =
      ofItems start seed (items ++ [it]) := by
  have hmet := productions_met seed items it
  have hnew : ∀ {a ns ts}, a ∉ seed → Item.productions ns ts items a = [] := fun ha =>
    Item.productions_eq_nil fun it hit he => ha (he ▸ h it hit)
  have hw : it.warning? start = none := by rw [Item.warning?, hk]
  have hp : it.kind.production? (seed ++ (Item.nonTerminals items ++ [b, c]))
      (Item.terminals items) = some (.pair (number (seed ++ (Item.nonTerminals items ++ [b, c])) b)
        (number (seed ++ (Item.nonTerminals items ++ [b, c])) c)) := by rw [hk]; rfl
  have hadd := addProduction_items hit hp items
  -- the number of `b` is given out before `c` is met, and stays
  have hb : number (seed ++ Item.nonTerminals items ++ [b]) b =
      number (seed ++ Item.nonTerminals items ++ [b] ++ [c]) b :=
    (number_append (List.mem_append_right _ (List.mem_singleton_self b))).symm
  rw [ofItems_concat, addBody, ← Item.kind, hk]
  simp only [hk, BodyKind.nonTerminals, BodyKind.terminals, List.append_nil] at hmet ⊢
  rw [ofItems, nonTerminal_having fun hn => hnew fun hs => hn (List.mem_append_left _ hs)]
  simp only
  rw [nonTerminal_having fun hn => hnew fun hs =>
    hn (List.mem_append_left _ (List.mem_append_left _ hs)), hb, hw, Option.toList,
    List.append_nil, ← hmet]
  simp only [List.append_assoc, List.singleton_append]
  exact hadd _

theorem addBody_of_tooLong (hk : it.kind = .tooLong) :
    addBody (number seed start) (number seed it.1) it.1 (ofItems start seed items) it.2 =
      ofItems start seed (items ++ [it]) := by
  have hw : it.warning? start = some (.bodyTooLong it.1 it.2) := by rw [Item.warning?, hk]
  have hp : it.kind.production? (seed ++ Item.nonTerminals items) (Item.terminals items) =
      none := by rw [hk]; rfl
  rw [ofItems_concat, addBody, ← Item.kind, hk]
  simp only [BodyKind.nonTerminals, BodyKind.terminals, List.append_nil]
  rw [hw, Item.productions_concat_of_none it hp]
  rfl

theorem addBody_ofItems (it : Item) (hs : start ∈ seed) (hit : it.1 ∈ seed)
    (h : ∀ it ∈ items, it.1 ∈ seed) :
    addBody (number seed start) (number seed it.1) it.1 (ofItems start seed items) it.2 =
      ofItems start seed (items ++ [it]) := by
  cases hk : it.kind with
  | empty => exact addBody_of_empty hs hit hk
  | terminal t => exact addBody_of_terminal hit hk
  | pair b c => exact addBody_of_pair hit h hk
  | tooLong => exact addBody_of_tooLong hk

theorem foldl_addBody {left : String} (hs : start ∈ seed) (hl : left ∈ seed) (bodies : List Body)
    (h : ∀ it ∈ items, it.1 ∈ seed) :
    bodies.foldl (addBody (number seed start) (number seed left) left) (ofItems start seed items) =
      ofItems start seed (items ++ bodies.map fun body => (left, body)) := by
  induction bodies generalizing items with
  | nil => rw [List.foldl_nil, List.map_nil, List.append_nil]
  | cons body bodies ih =>
    have hnext : ∀ it ∈ items ++ [(left, body)], it.1 ∈ seed := by
      intro it hit
      rcases List.mem_append.mp hit with hit | hit
      · exact h it hit
      · exact List.mem_singleton.mp hit ▸ hl
    have hstep := addBody_ofItems (left, body) hs hl h
    rw [List.foldl_cons, hstep, ih hnext, List.map_cons, List.append_assoc,
      List.singleton_append]

theorem foldl_addRule (hs : start ∈ seed) (rules : List Rule) (hl : ∀ r ∈ rules, r.left ∈ seed)
    (h : ∀ it ∈ items, it.1 ∈ seed) :
    rules.foldl (addRule (number seed start)) (ofItems start seed items) =
      ofItems start seed (items ++ Rule.items rules) := by
  induction rules generalizing items with
  | nil => rw [List.foldl_nil, Rule.items, List.flatMap_nil, List.append_nil]
  | cons rule rules ih =>
    have hleft : rule.left ∈ seed := hl rule List.mem_cons_self
    have hnext : ∀ it ∈ items ++ rule.bodies.map (fun body => (rule.left, body)), it.1 ∈ seed := by
      intro it hit
      rcases List.mem_append.mp hit with hit | hit
      · exact h it hit
      · obtain ⟨body, -, rfl⟩ := List.mem_map.mp hit
        exact hleft
    rw [List.foldl_cons, addRule, nonTerminal_ofItems hleft]
    simp only
    rw [foldl_addBody hs hleft _ h, ih (fun r hr => hl r (List.mem_cons_of_mem _ hr)) hnext,
      Rule.items, Rule.items, List.flatMap_cons, List.append_assoc]

/-- Before any body is read, the left sides are numbered. -/
theorem foldl_addLeftSide (rules : List Rule) (ns : List String) :
    rules.foldl addLeftSide (having ns [] (fun _ => []) []) =
      having (ns ++ rules.map (·.left)) [] (fun _ => []) [] := by
  induction rules generalizing ns with
  | nil => rw [List.foldl_nil, List.map_nil, List.append_nil]
  | cons rule rules ih =>
    rw [List.foldl_cons, addLeftSide, nonTerminal_having fun _ => rfl, ih, List.append_assoc,
      List.singleton_append, List.map_cons]

end Draft

/-- A build in closed form. -/
theorem Grammar.build_eq (rules : List Rule) (start : String) :
    Grammar.build rules start =
      (Draft.ofItems start (rules.map (·.left) ++ [start]) (Rule.items rules)).finish
        (number (Rule.nonTerminals rules start) start) := by
  have hs : start ∈ rules.map (·.left) ++ [start] :=
    List.mem_append_right _ (List.mem_singleton_self start)
  have hl : ∀ r ∈ rules, r.left ∈ rules.map (·.left) ++ [start] := fun r hr =>
    List.mem_append_left _ (List.mem_map_of_mem hr)
  have hempty : Draft.having (rules.map (·.left) ++ [start]) [] (fun _ => []) [] =
      Draft.ofItems start (rules.map (·.left) ++ [start]) [] := by
    rw [Draft.ofItems, Item.nonTerminals, List.flatMap_nil, List.append_nil]
    rfl
  rw [build, show ({} : Draft) = Draft.having [] [] (fun _ => []) [] from rfl,
    Draft.foldl_addLeftSide, Draft.nonTerminal_having fun _ => rfl]
  simp only [List.nil_append]
  rw [hempty, Draft.foldl_addRule hs rules hl (by simp), List.nil_append, Rule.nonTerminals,
    number_append hs]

end ChomskyChart
