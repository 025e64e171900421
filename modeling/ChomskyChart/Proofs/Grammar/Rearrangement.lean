import ChomskyChart.Proofs.Grammar.Cells
import Mathlib.Logic.Relation

/-!
# Rules arranged differently

Another arrangement of the same rules gives other numbers and hence other charts. By name the charts
are comparable. They grow with the terminal and pair bodies that left sides have, and depend on
nothing else; a report adds the empty bodies of the start symbol. Nothing is said of warnings, which
do depend on the arrangement.
-/

namespace ChomskyChart

namespace Rule

/-- Every terminal body and every pair body of a left side is there as well, in any rule. -/
structure Within (rules rules' : List Rule) : Prop where
  terminal : ∀ left t, Has rules left (.terminal t) → Has rules' left (.terminal t)
  pair : ∀ left b c, Has rules left (.pair b c) → Has rules' left (.pair b c)

/-- The same terminal and pair bodies, and an empty body of the start symbol in both or in none. -/
structure SameUse (start : String) (rules rules' : List Rule) : Prop where
  within : Within rules rules'
  within' : Within rules' rules
  empty : Has rules start .empty ↔ Has rules' start .empty

variable {rules rules' : List Rule} {start left : String} {k : BodyKind}

theorem Derives.mono (h : Within rules rules') {a : String} {w : List String}
    (hd : Derives rules a w) : Derives rules' a w := by
  induction hd with
  | token ht => exact .token (h.terminal _ _ ht)
  | pair _ _ hp ihb ihc => exact .pair ihb ihc (h.pair _ _ _ hp)

theorem SameUse.derives_iff (h : SameUse start rules rules') {a : String} {w : List String} :
    Derives rules a w ↔ Derives rules' a w :=
  ⟨Derives.mono h.within, Derives.mono h.within'⟩

theorem SameUse.of_has_iff (h : ∀ left k, k ≠ .tooLong → (Has rules left k ↔ Has rules' left k)) :
    SameUse start rules rules' where
  within := ⟨fun left t => (h left (.terminal t) (by simp)).mp,
    fun left b c => (h left (.pair b c) (by simp)).mp⟩
  within' := ⟨fun left t => (h left (.terminal t) (by simp)).mpr,
    fun left b c => (h left (.pair b c) (by simp)).mpr⟩
  empty := h start .empty (by simp)

/-- One change that leaves the use of the rules as it is. The rules come in any order, so a change
of the first rule is a change of any. -/
inductive Rearrangement : List Rule → List Rule → Prop where
  | rules {rs rs' : List Rule} (h : rs.Perm rs') : Rearrangement rs rs'
  | bodies {left : String} {bs bs' : List Body} {rs : List Rule} (h : bs.Perm bs') :
    Rearrangement (⟨left, bs⟩ :: rs) (⟨left, bs'⟩ :: rs)
  | repeatRule {r : Rule} {rs : List Rule} : Rearrangement (r :: rs) (r :: r :: rs)
  | repeatBody {left : String} {b : Body} {bs : List Body} {rs : List Rule} :
    Rearrangement (⟨left, b :: bs⟩ :: rs) (⟨left, b :: b :: bs⟩ :: rs)
  | split {left : String} {bs bs' : List Body} {rs : List Rule} :
    Rearrangement (⟨left, bs ++ bs'⟩ :: rs) (⟨left, bs⟩ :: ⟨left, bs'⟩ :: rs)
  | respell {left : String} {b b' : Body} {bs : List Body} {rs : List Rule}
    (hb : b ∈ [[], ["ε"], ["ϵ"], [""]]) (hb' : b' ∈ [[], ["ε"], ["ϵ"], [""]]) :
    Rearrangement (⟨left, b :: bs⟩ :: rs) (⟨left, b' :: bs⟩ :: rs)
  | long {r : Rule} {rs : List Rule} (h : ∀ b ∈ r.bodies, 3 ≤ b.length) :
    Rearrangement rs (r :: rs)

theorem has_cons {r : Rule} {rs : List Rule} :
    Has (r :: rs) left k ↔ (r.left = left ∧ ∃ b ∈ r.bodies, Body.kind b = k) ∨ Has rs left k := by
  simp only [Has, List.exists_mem_cons_iff]

theorem kind_of_mem_spellings {b : Body} (h : b ∈ [[], ["ε"], ["ϵ"], [""]]) :
    Body.kind b = .empty := by
  revert b
  decide

/-- A change keeps every body that a build uses. -/
theorem Rearrangement.has_iff (h : Rearrangement rules rules') (hk : k ≠ .tooLong) :
    Has rules left k ↔ Has rules' left k := by
  cases h with
  | rules h => exact exists_congr fun r => and_congr_left fun _ => h.mem_iff
  | bodies h =>
    have hb : (∃ b ∈ _, Body.kind b = k) ↔ ∃ b ∈ _, Body.kind b = k :=
      exists_congr fun b => and_congr_left fun _ => h.mem_iff
    rw [has_cons, has_cons, hb]
  | repeatRule => simp only [has_cons, ← or_assoc, or_self]
  | repeatBody => simp only [has_cons, List.exists_mem_cons_iff, ← or_assoc, or_self]
  | split =>
    simp only [has_cons, List.mem_append, or_and_right, exists_or, and_or_left, or_assoc]
  | respell hb hb' =>
    simp only [has_cons, List.exists_mem_cons_iff, kind_of_mem_spellings hb,
      kind_of_mem_spellings hb']
  | long h =>
    rw [has_cons]
    refine ⟨.inr, ?_⟩
    intro hc
    rcases hc with ⟨-, b, hb, rfl⟩ | h
    · exact absurd ((Body.kind_eq_tooLong_iff b).mpr (h b hb)) hk
    · exact h

theorem SameUse.of_eqvGen (h : Relation.EqvGen Rearrangement rules rules') :
    SameUse start rules rules' := by
  refine .of_has_iff fun left k hk => ?_
  induction h with
  | rel _ _ h => exact h.has_iff hk
  | refl _ => exact Iff.rfl
  | symm _ _ _ ih => exact ih.symm
  | trans _ _ _ _ _ ih ih' => exact ih.trans ih'

end Rule

namespace Grammar

variable {rules rules' : List Rule} {start start' : String} {tokens : List String} {i j : Nat}

theorem namesAt_subset (h : Rule.Within rules rules') (hin : Triangle.Inside tokens.length i j) :
    (build rules start).namesAt (((build rules start).chart tokens).get i j) ⊆
      (build rules' start').namesAt (((build rules' start').chart tokens).get i j) := by
  intro a ha
  rw [mem_namesAt_chart hin] at ha ⊢
  exact ha.mono h

/-- Lists of names in order and without repetition are equal if their members are. -/
theorem namesAt_eq_of_derives_iff (h : ∀ a w, Rule.Derives rules a w ↔ Rule.Derives rules' a w)
    (hin : Triangle.Inside tokens.length i j) :
    (build rules start).namesAt (((build rules start).chart tokens).get i j) =
      (build rules' start').namesAt (((build rules' start').chart tokens).get i j) := by
  have hperm : ((build rules start).namesAt (((build rules start).chart tokens).get i j)).Perm
      ((build rules' start').namesAt (((build rules' start').chart tokens).get i j)) := by
    rw [List.perm_ext_iff_of_nodup nodup_namesAt_chart nodup_namesAt_chart]
    intro a
    rw [mem_namesAt_chart hin, mem_namesAt_chart hin, h]
  exact hperm.eq_of_pairwise (fun _ _ _ _ => String.le_antisymm) (Text.pairwise_sort _)
    (Text.pairwise_sort _)

theorem namesAt_eq (h : Rule.SameUse start rules rules')
    (hin : Triangle.Inside tokens.length i j) :
    (build rules start).namesAt (((build rules start).chart tokens).get i j) =
      (build rules' start).namesAt (((build rules' start).chart tokens).get i j) :=
  namesAt_eq_of_derives_iff (fun _ _ => h.derives_iff) hin

/-- Only the start symbol decides. -/
theorem recognize_eq_of_derives_iff
    (h : ∀ w, Rule.Derives rules start w ↔ Rule.Derives rules' start' w)
    (hempty : Rule.Has rules start .empty ↔ Rule.Has rules' start' .empty) (tokens : List String) :
    (build rules start).recognize tokens = (build rules' start').recognize tokens := by
  rw [Bool.eq_iff_iff]
  by_cases hne : tokens = []
  · subst hne
    rw [recognize_build_nil, recognize_build_nil, hempty]
  · rw [recognize_build hne, recognize_build hne, h]

theorem recognize_eq (h : Rule.SameUse start rules rules') (tokens : List String) :
    (build rules start).recognize tokens = (build rules' start).recognize tokens :=
  recognize_eq_of_derives_iff (fun _ => h.derives_iff) h.empty tokens

theorem chartReport_eq (h : Rule.SameUse start rules rules') (tokens : List String) :
    (build rules start).chartReport tokens = (build rules' start).chartReport tokens := by
  rw [chartReport_build, chartReport_build, recognize_eq h]
  congr 2
  refine List.map_congr_left fun p hp => ?_
  rw [namesAt_eq h (Triangle.mem_positions.mp hp)]

/-- Two grammars that give the same answers, and the same reports without a fault. -/
def Alike (g g' : Grammar) : Prop :=
  ∀ tokens, g.recognize tokens = g'.recognize tokens ∧
    ∃ report, g.chartReport tokens = .ok report ∧ g'.chartReport tokens = .ok report

theorem alike_build (h : Rule.SameUse start rules rules') :
    Alike (build rules start) (build rules' start) := fun tokens =>
  ⟨recognize_eq h tokens, _, chartReport_build,
    (chartReport_eq h tokens).symm.trans chartReport_build⟩

/-- By name, cells grow with the bodies that rules have, and grammars of the same bodies are alike
in any arrangement of the rules. -/
theorem cells_grow_with_bodies :
    (∀ rules rules' start start', Rule.Within rules rules' → ∀ tokens i j, i ≤ j →
      j < tokens.length → ∃ names names',
        (build rules start).cellNames tokens i j = .ok names ∧
        (build rules' start').cellNames tokens i j = .ok names' ∧ names ⊆ names') ∧
    (∀ rules rules' start, Rule.Within rules rules' → Rule.Within rules' rules →
      (Rule.Has rules start .empty ↔ Rule.Has rules' start .empty) →
      Alike (build rules start) (build rules' start)) ∧
    (∀ rules rules' start, Relation.EqvGen Rule.Rearrangement rules rules' →
      Alike (build rules start) (build rules' start)) := by
  refine ⟨?_, ?_, ?_⟩
  · intro rules rules' start start' h tokens i j hij hj
    have hin : Triangle.Inside tokens.length i j := ⟨hij, hj⟩
    exact ⟨_, _, cellNames_build hin, cellNames_build hin, namesAt_subset h hin⟩
  · intro rules rules' start h h' he
    exact alike_build ⟨h, h', he⟩
  · intro rules rules' start h
    exact alike_build (.of_eqvGen h)

/-- The sample grammar G1, of which a part, all rules twice, and the rules in reverse. The last puts
the start symbol at another number. -/
theorem cells_grow_with_bodies_g1 :
    (∃ names names', (build Sample.g1.rules.tail "A").cellNames ["a", "b"] 0 1 = .ok names ∧
      Sample.g1.grammar.cellNames ["a", "b"] 0 1 = .ok names' ∧ names ⊆ names') ∧
    Alike Sample.g1.grammar (build (Sample.g1.rules ++ Sample.g1.rules) "S") ∧
    Alike Sample.g1.grammar (build Sample.g1.rules.reverse "S") ∧
    (build Sample.g1.rules.reverse "S").start ≠ Sample.g1.grammar.start := by
  obtain ⟨hgrow, hbodies, hrearranged⟩ := cells_grow_with_bodies
  have htail : Rule.Within Sample.g1.rules.tail Sample.g1.rules :=
    ⟨fun _ _ ⟨r, hr, h⟩ => ⟨r, List.mem_of_mem_tail hr, h⟩,
      fun _ _ _ ⟨r, hr, h⟩ => ⟨r, List.mem_of_mem_tail hr, h⟩⟩
  have htwice : ∀ left k, Rule.Has Sample.g1.rules left k ↔
      Rule.Has (Sample.g1.rules ++ Sample.g1.rules) left k := fun left k =>
    exists_congr fun r => and_congr_left fun _ => by rw [List.mem_append, or_self]
  have hperm : Rule.Rearrangement Sample.g1.rules Sample.g1.rules.reverse :=
    .rules (List.reverse_perm _).symm
  refine ⟨?_, ?_, ?_, by decide +kernel⟩
  · exact hgrow _ _ "A" "S" htail ["a", "b"] 0 1 (by decide) (by decide)
  · exact hbodies _ _ "S" ⟨fun _ _ => (htwice _ _).mp, fun _ _ _ => (htwice _ _).mp⟩
      ⟨fun _ _ => (htwice _ _).mpr, fun _ _ _ => (htwice _ _).mpr⟩ (htwice _ _)
  · exact hrearranged _ _ "S" (.rel _ _ hperm)

end Grammar

end ChomskyChart
