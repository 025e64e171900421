import ChomskyChart.Grammar.Reader
import ChomskyChart.Proofs.Grammar.Rearrangement
import ChomskyChart.Report.Productions

/-!
# Productions by name

What is shown of a built grammar is read off its rules: for each left side, in the order in which
left sides first occur, its bodies of at most two symbols, each where it first occurs. So what is
shown are rules again. Building from them shows them as they are and recognizes the same, although
symbols that are not shown are gone and the others may get other numbers.

No question about a name fails on the way. Nothing is said of warnings.
-/

namespace ChomskyChart

open Numbers

namespace BodyKind

/-- The body that is shown for a kind. One that is too long is never shown. -/
def symbols : BodyKind → Body
  | .empty => [epsilon]
  | .terminal t => [t]
  | .pair b c => [b, c]
  | .tooLong => []

end BodyKind

variable {body : Body} {s : String}

/-- What is shown for a body stands for the same. -/
theorem Body.kind_symbols (h : body.kind ≠ .tooLong) : Body.kind body.kind.symbols = body.kind := by
  cases hk : body.kind with
  | empty => rfl
  | terminal t =>
    obtain ⟨-, ht⟩ := (kind_eq_terminal_iff body t).mp hk
    exact (kind_eq_terminal_iff [t] t).mpr ⟨rfl, ht⟩
  | pair b c => rfl
  | tooLong => exact absurd hk h

theorem Body.mem_of_mem_symbols (h : s ∈ body.kind.symbols) : s = epsilon ∨ s ∈ body := by
  cases hk : body.kind with
  | empty =>
    rw [hk] at h
    exact .inl (List.mem_singleton.mp h)
  | terminal t =>
    obtain ⟨rfl, -⟩ := (kind_eq_terminal_iff body t).mp hk
    rw [hk] at h
    exact .inr h
  | pair b c =>
    obtain rfl := (kind_eq_pair_iff body b c).mp hk
    exact .inr h
  | tooLong =>
    rw [hk] at h
    exact absurd h List.not_mem_nil

namespace Rule

/-- The bodies of a left side that a build uses, each where it first occurs. -/
def uses (rules : List Rule) (left : String) : List BodyKind :=
  ((((items rules).filter fun it => it.1 = left).map Item.kind).filter (· ≠ .tooLong)).eraseDups

/-- The left sides with a body that a build uses, each where it first occurs. -/
def used (rules : List Rule) : List String :=
  (rules.map (·.left)).eraseDups.filter fun left => uses rules left ≠ []

/-- The rules that are shown. -/
def shown (rules : List Rule) : List Rule :=
  (used rules).map fun left => ⟨left, (uses rules left).map BodyKind.symbols⟩

variable {rules : List Rule} {left start : String} {k : BodyKind}

theorem mem_uses : k ∈ uses rules left ↔ Has rules left k ∧ k ≠ .tooLong := by
  unfold uses
  rw [List.mem_eraseDups, List.mem_filter, decide_eq_true_iff, has_iff_items]
  refine and_congr_left fun _ => ?_
  rw [List.mem_map]
  refine exists_congr fun it => ?_
  rw [List.mem_filter, decide_eq_true_iff, and_assoc]

theorem nodup_uses (rules : List Rule) (left : String) : (uses rules left).Nodup :=
  nodup_eraseDups _

theorem nodup_used (rules : List Rule) : (used rules).Nodup :=
  (nodup_eraseDups _).filter _

theorem kind_symbols_of_mem_uses (h : k ∈ uses rules left) : Body.kind k.symbols = k := by
  obtain ⟨hhas, hlong⟩ := mem_uses.mp h
  obtain ⟨-, -, -, body, -, rfl⟩ := hhas
  exact Body.kind_symbols hlong

theorem mem_used : left ∈ used rules ↔ uses rules left ≠ [] := by
  unfold used
  rw [List.mem_filter, decide_eq_true_iff, List.mem_eraseDups]
  refine and_iff_right_of_imp fun hne => ?_
  obtain ⟨k, hk⟩ := List.exists_mem_of_ne_nil _ hne
  obtain ⟨⟨rule, hrule, rfl, -⟩, -⟩ := mem_uses.mp hk
  exact List.mem_map_of_mem hrule

/-! ### Showing what is shown -/

theorem items_shown (rules : List Rule) :
    items (shown rules) =
      (used rules).flatMap fun left => (uses rules left).map fun k => (left, k.symbols) := by
  unfold items shown
  rw [List.flatMap_map]
  simp only [List.map_map, Function.comp_def]

/-- Among entries of different keys, those of one key. -/
theorem filter_flatMap_of_nodup {keys : List String} {entries : String → List Item}
    (hkey : ∀ key, ∀ it ∈ entries key, it.1 = key) (h : keys.Nodup) (left : String) :
    (keys.flatMap entries).filter (fun it => it.1 = left) =
      if left ∈ keys then entries left else [] := by
  induction keys with
  | nil => rfl
  | cons key keys ih =>
    obtain ⟨hnot, hkeys⟩ := List.nodup_cons.mp h
    rw [List.flatMap_cons, List.filter_append, ih hkeys]
    by_cases he : key = left
    · subst he
      have hall : (entries key).filter (fun it => it.1 = key) = entries key :=
        List.filter_eq_self.mpr fun it hit => decide_eq_true (hkey key it hit)
      rw [hall, if_neg hnot, if_pos List.mem_cons_self, List.append_nil]
    · have hnone : (entries key).filter (fun it => it.1 = left) = [] :=
        List.filter_eq_nil_iff.mpr fun it hit hl =>
          he ((hkey key it hit).symm.trans (of_decide_eq_true hl))
      rw [hnone, List.nil_append]
      simp only [List.mem_cons, Ne.symm he, false_or]

theorem uses_shown (rules : List Rule) (left : String) : uses (shown rules) left = uses rules left := by
  have hkey : ∀ left, ∀ it ∈ (uses rules left).map fun k => ((left, k.symbols) : Item),
      it.1 = left := by
    intro left it hit
    obtain ⟨k, -, rfl⟩ := List.mem_map.mp hit
    rfl
  -- reading the shown symbols as bodies gives back the kinds they were made of
  have hkinds : ((uses rules left).map fun k => ((left, k.symbols) : Item)).map Item.kind =
      uses rules left := by
    rw [List.map_map]
    exact (List.map_congr_left fun k hk => kind_symbols_of_mem_uses hk).trans (List.map_id _)
  have hshort : (uses rules left).filter (· ≠ .tooLong) = uses rules left :=
    List.filter_eq_self.mpr fun k hk => decide_eq_true (mem_uses.mp hk).2
  conv_lhs => unfold uses
  rw [items_shown, filter_flatMap_of_nodup hkey (nodup_used rules)]
  by_cases hl : left ∈ used rules
  · rw [if_pos hl, hkinds, hshort, eraseDups_of_nodup (nodup_uses rules left)]
  · have hnil : uses rules left = [] := not_not.mp (mt mem_used.mpr hl)
    rw [if_neg hl, hnil]
    rfl

theorem shown_shown (rules : List Rule) : shown (shown rules) = shown rules := by
  have hlefts : (shown rules).map (·.left) = used rules := by
    unfold shown
    rw [List.map_map]
    exact List.map_id _
  have hused : used (shown rules) = used rules := by
    unfold used
    simp only [uses_shown]
    rw [hlefts, eraseDups_of_nodup (nodup_used rules)]
    exact List.filter_eq_self.mpr fun left hl => decide_eq_true (mem_used.mp hl)
  change (used (shown rules)).map (fun left => (⟨left, _⟩ : Rule)) = _
  simp only [uses_shown, hused]
  rfl

/-- The rules that are shown are used as the rules are. -/
theorem sameUse_shown (rules : List Rule) (start : String) : SameUse start rules (shown rules) := by
  refine .of_has_iff fun left k hk => ?_
  have hrules : k ∈ uses rules left ↔ _ := mem_uses
  have hshown : k ∈ uses (shown rules) left ↔ _ := mem_uses
  rw [uses_shown] at hshown
  constructor
  · exact fun h => (hshown.mp (hrules.mpr ⟨h, hk⟩)).1
  · exact fun h => (hrules.mp (hshown.mpr ⟨h, hk⟩)).1

/-! ### Productions as bodies -/

/-- Productions are the used bodies, numbered. -/
theorem productions_eq_filterMap (start left : String) :
    Item.productions (nonTerminals rules start) (terminals rules) (items rules) left =
      (uses rules left).filterMap
        (·.production? (nonTerminals rules start) (terminals rules)) := by
  have hkinds : ((items rules).filter fun it => it.1 = left).filterMap
        (fun it => it.kind.production? (nonTerminals rules start) (terminals rules)) =
      ((((items rules).filter fun it => it.1 = left).map Item.kind).filter
        (· ≠ .tooLong)).filterMap
        (·.production? (nonTerminals rules start) (terminals rules)) := by
    rw [List.filterMap_filter (l := List.map _ _), List.filterMap_map]
    refine List.filterMap_congr fun it _ => ?_
    cases hk : it.kind <;> simp [hk, BodyKind.production?]
  unfold Item.productions uses
  rw [hkinds, eraseDups_filterMap]
  intro k hk k' hk' p hp hp'
  have hhas : Has rules left k := (mem_uses.mp (List.mem_eraseDups.mpr hk)).1
  have hhas' : Has rules left k' := (mem_uses.mp (List.mem_eraseDups.mpr hk')).1
  exact BodyKind.production?_inj (hhas.nonTerminals_subset start) hhas.terminals_subset
    (hhas'.nonTerminals_subset start) hhas'.terminals_subset hp hp'

end Rule

namespace Grammar

variable {rules : List Rule} {left start : String} {k : BodyKind}

theorem symbolName_number {a : String} (h : a ∈ Rule.nonTerminals rules start) :
    (build rules start).symbolName (number (Rule.nonTerminals rules start) a) = .ok a :=
  symbolName_build.mpr (getElem?_number h)

theorem terminalName_number {t : String} (h : t ∈ Rule.terminals rules) :
    (build rules start).terminalName (number (Rule.terminals rules) t) = .ok t := by
  unfold terminalName
  rw [terminals_build, getElem?_number h]

/-- The production of a body is shown as the body. -/
theorem productionSymbols_build (start : String) (h : Rule.Has rules left k) (hk : k ≠ .tooLong) :
    ∃ p, k.production? (Rule.nonTerminals rules start) (Rule.terminals rules) = some p ∧
      (build rules start).productionSymbols p = .ok k.symbols := by
  have hn := h.nonTerminals_subset start
  have ht := h.terminals_subset
  cases k with
  | empty => exact ⟨_, rfl, rfl⟩
  | terminal t =>
    refine ⟨_, rfl, ?_⟩
    rw [productionSymbols, terminalName_number (ht (List.mem_singleton_self t))]
    rfl
  | pair b c =>
    refine ⟨_, rfl, ?_⟩
    rw [productionSymbols, symbolName_number (hn List.mem_cons_self),
      symbolName_number (hn (List.mem_cons_of_mem b List.mem_cons_self))]
    rfl
  | tooLong => exact absurd rfl hk

theorem mapM_productionSymbols {ks : List BodyKind}
    (h : ∀ k ∈ ks, Rule.Has rules left k ∧ k ≠ .tooLong) :
    (ks.filterMap (·.production? (Rule.nonTerminals rules start) (Rule.terminals rules))).mapM
      (build rules start).productionSymbols = .ok (ks.map BodyKind.symbols) := by
  induction ks with
  | nil => rfl
  | cons k ks ih =>
    obtain ⟨hk, hks⟩ := List.forall_mem_cons.mp h
    obtain ⟨p, hp, hsymbols⟩ := productionSymbols_build start hk.1 hk.2
    rw [List.filterMap_cons_some hp, List.mapM_cons, hsymbols, ih hks]
    rfl

theorem productions_of_mem {nt : NonTerminal} (h : nt ∈ (build rules start).nonTerminals) :
    nt.productions = (Rule.uses rules nt.name).filterMap
      (·.production? (Rule.nonTerminals rules start) (Rule.terminals rules)) := by
  rw [nonTerminals_build] at h
  obtain ⟨a, -, he⟩ := Draft.mem_entries.mp h
  rw [he, ← Rule.productions_eq_filterMap]

/-- Each non-terminal shows the bodies that its name uses. -/
theorem mapM_productionSymbols_of_mem {nt : NonTerminal}
    (h : nt ∈ (build rules start).nonTerminals) :
    nt.productions.mapM (build rules start).productionSymbols =
      .ok ((Rule.uses rules nt.name).map BodyKind.symbols) := by
  rw [productions_of_mem h]
  exact mapM_productionSymbols fun k hk => Rule.mem_uses.mp hk

theorem productions_eq_nil_iff {nt : NonTerminal} (h : nt ∈ (build rules start).nonTerminals) :
    nt.productions = [] ↔ Rule.uses rules nt.name = [] := by
  rw [productions_of_mem h]
  constructor
  · intro hnil
    rw [List.eq_nil_iff_forall_not_mem]
    intro k hk
    obtain ⟨hhas, hlong⟩ := Rule.mem_uses.mp hk
    obtain ⟨p, hp, -⟩ := productionSymbols_build start hhas hlong
    rw [List.filterMap_eq_nil_iff] at hnil
    exact Option.some_ne_none p (hp.symm.trans (hnil k hk))
  · intro hnil
    rw [hnil, List.filterMap_nil]

/-- Those that are shown have the names of the used left sides, in the same order. The start symbol
and the symbols of bodies are numbered behind the left sides and have nothing to show. -/
theorem map_name_producing (rules : List Rule) (start : String) :
    (build rules start).producing.map (·.name) = Rule.used rules := by
  have hproducing : (build rules start).producing = (build rules start).nonTerminals.filter
      ((fun name => decide (Rule.uses rules name ≠ [])) ∘ fun nt => nt.name) := by
    unfold producing
    refine List.filter_congr fun nt hnt => ?_
    rw [Bool.eq_iff_iff]
    simp [productions_eq_nil_iff hnt]
  -- whatever is numbered behind the left sides is no left side
  have hrest : ∀ names : List String, (names.removeAll (rules.map (·.left))).eraseDups.filter
      (fun name => Rule.uses rules name ≠ []) = [] := by
    intro names
    rw [List.filter_eq_nil_iff]
    intro name hname hne
    have hleft := List.mem_of_mem_filter (Rule.mem_used.mpr (of_decide_eq_true hne))
    have hnot := List.mem_filter.mp (List.mem_eraseDups.mp hname)
    simp [List.mem_eraseDups.mp hleft] at hnot
  rw [hproducing, ← List.filter_map, nonTerminals_build, Draft.map_name_entries]
  unfold Rule.nonTerminals Rule.used
  rw [List.append_assoc, List.eraseDups_append, List.filter_append, hrest, List.append_nil]

/-- What is made of each non-terminal that is shown, is made of the rules that are shown. -/
theorem mapM_producing {β : Type} {f : NonTerminal → Except Fault β} {f' : Rule → β}
    (h : ∀ nt ∈ (build rules start).nonTerminals,
      f nt = .ok (f' ⟨nt.name, (Rule.uses rules nt.name).map BodyKind.symbols⟩)) :
    (build rules start).producing.mapM f = .ok ((Rule.shown rules).map f') := by
  have hmap : (build rules start).producing.mapM f = _ :=
    mapM_ok fun nt hnt => h nt (List.mem_of_mem_filter hnt)
  unfold Rule.shown
  rw [hmap, ← map_name_producing rules start, List.map_map, List.map_map]
  rfl

theorem productionReport_build :
    (build rules start).productionReport =
      .ok { start, productions := (Rule.shown rules).map fun rule => ⟨rule.left, rule.bodies⟩ } := by
  have hlines : (build rules start).producing.mapM (fun nt => do
      return (⟨nt.name, ← nt.productions.mapM (build rules start).productionSymbols⟩ :
        ProductionLine)) = .ok ((Rule.shown rules).map fun rule => ⟨rule.left, rule.bodies⟩) := by
    refine mapM_producing fun nt hnt => ?_
    rw [mapM_productionSymbols_of_mem hnt]
    rfl
  unfold productionReport
  rw [hlines, startName_build]
  rfl

/-- A rule as a line of the display. -/
def displayLine (rule : Rule) : String :=
  rule.left ++ " -> " ++ ", ".intercalate (rule.bodies.map (" ".intercalate ·))

theorem display_build :
    (build rules start).display =
      .ok ("\n".intercalate ((Rule.shown rules).map displayLine)) := by
  have hlines : (build rules start).producing.mapM (fun nt => do
      let bodies ← nt.productions.mapM (build rules start).productionSymbols
      return nt.name ++ " -> " ++ ", ".intercalate (bodies.map (" ".intercalate ·))) =
      .ok ((Rule.shown rules).map displayLine) := by
    refine mapM_producing fun nt hnt => ?_
    rw [mapM_productionSymbols_of_mem hnt]
    rfl
  unfold display
  rw [hlines]
  rfl

/-- A grammar that was read is a build. -/
theorem exists_build_of_readFrom {text : String} {start? : Option String} {g : Grammar}
    (h : readFrom text start? = .ok g) :
    ∃ rules start, Rule.readAll text = .ok rules ∧ g = build rules start := by
  cases hrules : Rule.readAll text with
  | error e =>
    cases start? with
    | none =>
      rw [readFrom, read, hrules] at h
      cases h
    | some start =>
      rw [readFrom, readWithStart, hrules] at h
      cases h
  | ok rules =>
    refine ⟨rules, ?_⟩
    cases start? with
    | none =>
      rw [readFrom, read, hrules] at h
      cases rules with
      | nil => cases h
      | cons first rules => exact ⟨first.left, rfl, (Except.ok.inj h).symm⟩
    | some start =>
      rw [readFrom, readWithStart, hrules] at h
      exact ⟨start, rfl, (Except.ok.inj h).symm⟩

/-! ### Building from what is shown -/

theorem productionReport_shown (rules : List Rule) (start : String) :
    (build (Rule.shown rules) start).productionReport = (build rules start).productionReport := by
  rw [productionReport_build, productionReport_build, Rule.shown_shown]

theorem recognize_shown (rules : List Rule) (start : String) (tokens : List String) :
    (build (Rule.shown rules) start).recognize tokens = (build rules start).recognize tokens :=
  (recognize_eq (Rule.sameUse_shown rules start) tokens).symm

end Grammar

end ChomskyChart
