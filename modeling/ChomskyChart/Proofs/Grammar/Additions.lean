import ChomskyChart.Proofs.Grammar.Rearrangement
import ChomskyChart.Proofs.Recognition.Counts
import ChomskyChart.Proofs.Report.Charts
import ChomskyChart.Samples

/-!
# Rules that add nothing

Rules can be added to others without effect in two ways. If their bodies are empty, too long or need
a name that derives nothing, then every cell stays as it is, by name, and with it the number of
lookups. If no left side of theirs is reachable from the start symbol, then cells may get more names,
but none that has a part in a sentence.

The added rules may stand anywhere among the others, so that symbols get other numbers, the start
symbol included. In both cases a finite set of names that is closed in the right sense shows that
rules are of the kind.
-/

namespace ChomskyChart

/-- Whether a body derives nothing, when it is known of names whether they do. -/
def BodyKind.Idle (barren : String → Prop) : BodyKind → Prop
  | .empty | .tooLong => True
  | .terminal _ => False
  | .pair b c => barren b ∨ barren c

instance {barren : String → Prop} [DecidablePred barren] : DecidablePred (BodyKind.Idle barren)
  | .empty | .tooLong => .isTrue trivial
  | .terminal _ => .isFalse not_false
  | .pair b c => inferInstanceAs (Decidable (barren b ∨ barren c))

theorem BodyKind.Idle.mono {barren barren' : String → Prop} (h : ∀ a, barren a → barren' a)
    {k : BodyKind} (hk : k.Idle barren) : k.Idle barren' := by
  cases k with
  | empty => trivial
  | tooLong => trivial
  | terminal t => exact hk
  | pair b c => exact Or.imp (h b) (h c) hk

namespace Rule

variable {rules extra combined : List Rule} {start a : String} {w : List String} {k : BodyKind}

/-! ### Rules among others -/

theorem has_of_perm_append (h : combined.Perm (rules ++ extra)) :
    Has combined a k ↔ Has rules a k ∨ Has extra a k := by
  simp only [Has, h.mem_iff, List.mem_append, or_and_right, exists_or]

theorem Within.of_perm_append (h : combined.Perm (rules ++ extra)) : Within rules combined where
  terminal _ _ ht := (has_of_perm_append h).mpr (.inl ht)
  pair _ _ _ hp := (has_of_perm_append h).mpr (.inl hp)

/-! ### Bodies that derive nothing -/

/-- A name that derives nothing. -/
def Barren (rules : List Rule) (a : String) : Prop :=
  ∀ w, ¬Derives rules a w

/-- The names of a set are barren if each body of theirs needs a name of the set. By induction on
the derivation, in which every name would be one of the set. -/
theorem Barren.of_closed {names : List String}
    (h : ∀ rule ∈ rules, rule.left ∈ names → ∀ body ∈ rule.bodies, body.kind.Idle (· ∈ names))
    (ha : a ∈ names) : Barren rules a := by
  intro w hd
  induction hd with
  | token ht =>
    obtain ⟨rule, hrule, rfl, body, hbody, hk⟩ := ht
    have hidle := h rule hrule ha body hbody
    rw [hk] at hidle
    exact hidle
  | pair _ _ hp ihb ihc =>
    obtain ⟨rule, hrule, rfl, body, hbody, hk⟩ := hp
    have hidle := h rule hrule ha body hbody
    rw [hk] at hidle
    exact hidle.elim ihb ihc

/-- Bodies that derive nothing, under all the rules together, change nothing. The induction is on a
derivation under all the rules: at a pair of the added rules one of its two parts could not be. -/
theorem derives_iff_of_idle (h : combined.Perm (rules ++ extra))
    (hidle : ∀ rule ∈ extra, ∀ body ∈ rule.bodies, body.kind.Idle (Barren combined)) :
    Derives combined a w ↔ Derives rules a w := by
  have hextra : ∀ {a k}, Has extra a k → k.Idle (Barren combined) := by
    intro a k hk
    obtain ⟨rule, hrule, -, body, hbody, rfl⟩ := hk
    exact hidle rule hrule body hbody
  refine ⟨fun hd => ?_, Derives.mono (.of_perm_append h)⟩
  induction hd with
  | token ht =>
    apply Derives.token
    exact ((has_of_perm_append h).mp ht).resolve_right hextra
  | pair hb hc hp ihb ihc =>
    apply Derives.pair ihb ihc
    apply ((has_of_perm_append h).mp hp).resolve_right
    intro hp
    exact (hextra hp).elim (fun hbarren => hbarren _ hb) fun hbarren => hbarren _ hc

/-! ### Left sides that are not reachable -/

/-- The names that a derivation from the start symbol can come to. -/
inductive Reachable (rules : List Rule) (start : String) : String → Prop where
  | start : Reachable rules start start
  | left {a b c : String} (ha : Reachable rules start a) (h : Has rules a (.pair b c)) :
    Reachable rules start b
  | right {a b c : String} (ha : Reachable rules start a) (h : Has rules a (.pair b c)) :
    Reachable rules start c

theorem Reachable.mem_of_closed {names : List String} (hstart : start ∈ names)
    (h : ∀ rule ∈ rules, rule.left ∈ names → ∀ body ∈ rule.bodies, body.length = 2 →
      ∀ b ∈ body, b ∈ names)
    (ha : Reachable rules start a) : a ∈ names := by
  have hpair : ∀ {a b c}, a ∈ names → Has rules a (.pair b c) → b ∈ names ∧ c ∈ names := by
    intro a b c ha hp
    obtain ⟨rule, hrule, rfl, body, hbody, hk⟩ := hp
    obtain rfl := (Body.kind_eq_pair_iff body b c).mp hk
    have hboth := h rule hrule ha [b, c] hbody rfl
    exact ⟨hboth b (by simp), hboth c (by simp)⟩
  induction ha with
  | start => exact hstart
  | left _ hp ih => exact (hpair ih hp).1
  | right _ hp ih => exact (hpair ih hp).2

variable (h : combined.Perm (rules ++ extra))
  (hextra : ∀ rule ∈ extra, ¬Reachable rules start rule.left)

include h hextra

theorem Reachable.has_iff (ha : Reachable rules start a) :
    Has combined a k ↔ Has rules a k := by
  rw [has_of_perm_append h, or_iff_left]
  intro hk
  obtain ⟨rule, hrule, rfl, -⟩ := hk
  exact hextra rule hrule ha

/-- The names of a derivation from a reachable name are all reachable. -/
theorem Reachable.derives_iff (ha : Reachable rules start a) :
    Derives combined a w ↔ Derives rules a w := by
  refine ⟨fun hd => ?_, Derives.mono (.of_perm_append h)⟩
  induction hd with
  | token ht => exact .token ((ha.has_iff h hextra).mp ht)
  | pair _ _ hp ihb ihc =>
    have hp' := (ha.has_iff h hextra).mp hp
    exact .pair (ihb (ha.left hp')) (ihc (ha.right hp')) hp'

end Rule

/-- Charts with cells of the same sizes take the same number of lookups. -/
theorem RuleIndex.lookupsTo_congr {index index' : RuleIndex} {tokens : List String}
    (h : ∀ i j, Triangle.Inside tokens.length i j →
      ((index.fill tokens).get i j).card = ((index'.fill tokens).get i j).card) :
    index.lookupsTo tokens tokens.length = index'.lookupsTo tokens tokens.length := by
  rw [lookupsTo_length, lookupsTo_length]
  refine Finset.sum_congr rfl fun j hj => Finset.sum_congr rfl fun i _ =>
    Finset.sum_congr rfl fun k hk => ?_
  have hj := Finset.mem_range.mp hj
  have hk := Finset.mem_Ico.mp hk
  rw [h i k ⟨by omega, by omega⟩, h (k + 1) j ⟨by omega, by omega⟩]

namespace Grammar

variable {rules extra combined : List Rule}

/-- Rules with bodies that are empty, too long, or a pair of which one name derives nothing, put
anywhere among others, leave the names of every cell as they are: those that derive its tokens under
the others. Nor does the number of lookups change, in whatever order cells are enumerated. The added
rules may refer to each other. -/
theorem idle_bodies_change_no_cell (h : combined.Perm (rules ++ extra))
    (hidle : ∀ rule ∈ extra, ∀ body ∈ rule.bodies, body.kind.Idle (Rule.Barren combined))
    (start : String) (tokens : List String) :
    (∀ i j, i ≤ j → j < tokens.length → ∃ names,
      (build combined start).cellNames tokens i j = .ok names ∧
      (build rules start).cellNames tokens i j = .ok names ∧
      ∀ a, a ∈ names ↔ Rule.Derives rules a (Chart.word tokens i j)) ∧
    ∀ order order' : Order,
      (((Probe.recognizerIn order (build combined start).index 0).recognize tokens).run {}).2.pairs =
        (((Probe.recognizerIn order' (build rules start).index 0).recognize tokens).run {}).2.pairs := by
  have hnames : ∀ i j, Triangle.Inside tokens.length i j →
      (build combined start).namesAt (((build combined start).chart tokens).get i j) =
        (build rules start).namesAt (((build rules start).chart tokens).get i j) := fun i j hin =>
    namesAt_eq_of_derives_iff (fun _ _ => Rule.derives_iff_of_idle h hidle) hin
  constructor
  · intro i j hij hj
    have hin : Triangle.Inside tokens.length i j := ⟨hij, hj⟩
    refine ⟨_, ?_, cellNames_build hin, fun a => mem_namesAt_chart hin⟩
    rw [cellNames_build hin, hnames i j hin]
  · intro order order'
    have hlookups : (build combined start).index.lookupsTo tokens tokens.length =
        (build rules start).index.lookupsTo tokens tokens.length := by
      refine RuleIndex.lookupsTo_congr fun i j hin => ?_
      have hlength := congrArg List.length (hnames i j hin)
      rwa [length_namesAt, length_namesAt] at hlength
    simp only [Probe.run_recognize, Probe.after, hlookups]

/-- Two rules that refer to each other, and one with bodies for the start symbol. -/
def idleRules : List Rule :=
  [⟨"U", [["V", "S"], ["S", "S", "S"], ["ε"]]⟩, ⟨"V", [["S", "U"], []]⟩,
    ⟨"S", [["U", "X"], ["A", "W"]]⟩]

/-- The sample grammar G1 after three more rules, which give the start symbol another number. -/
theorem idle_bodies_change_no_cell_g1 :
    (build (idleRules ++ Sample.g1.rules) "S").cellNames ["a", "a", "b"] 1 2 =
      Sample.g1.grammar.cellNames ["a", "a", "b"] 1 2 ∧
    (((Probe.recognizerIn .ascending (build (idleRules ++ Sample.g1.rules) "S").index 0).recognize
        ["a", "a", "b"]).run {}).2.pairs =
      (((Probe.recognizerIn .ascending Sample.g1.grammar.index 0).recognize
        ["a", "a", "b"]).run {}).2.pairs ∧
    (build (idleRules ++ Sample.g1.rules) "S").start ≠ Sample.g1.grammar.start := by
  have hbarren : ∀ a ∈ ["U", "V", "W"], Rule.Barren (idleRules ++ Sample.g1.rules) a :=
    fun a ha => Rule.Barren.of_closed (by decide +kernel) ha
  have hnames : ∀ rule ∈ idleRules, ∀ body ∈ rule.bodies,
      body.kind.Idle (· ∈ ["U", "V", "W"]) := by decide +kernel
  have hidle : ∀ rule ∈ idleRules, ∀ body ∈ rule.bodies,
      body.kind.Idle (Rule.Barren (idleRules ++ Sample.g1.rules)) := fun rule hrule body hbody =>
    (hnames rule hrule body hbody).mono hbarren
  have hperm : (idleRules ++ Sample.g1.rules).Perm (Sample.g1.rules ++ idleRules) :=
    List.perm_append_comm
  obtain ⟨hcells, hpairs⟩ := idle_bodies_change_no_cell hperm hidle "S" ["a", "a", "b"]
  obtain ⟨names, hcombined, hrules, -⟩ := hcells 1 2 (by decide) (by decide)
  exact ⟨hcombined.trans hrules.symm, hpairs .ascending .ascending, by decide +kernel⟩

/-- Rules for left sides that are not reachable from the start symbol under the others, put anywhere
among these, leave the sentences as they are: those that the start symbol derives under the others.
The added rules may derive what they like, and with names of the others. -/
theorem unreachable_rules_change_no_sentence {start : String}
    (h : combined.Perm (rules ++ extra))
    (hextra : ∀ rule ∈ extra, ¬Rule.Reachable rules start rule.left) (tokens : List String) :
    (build combined start).recognize tokens = (build rules start).recognize tokens ∧
    ((build combined start).recognize tokens = true ↔
      if tokens = [] then Rule.Has rules start .empty else Rule.Derives rules start tokens) := by
  have hstart : Rule.Reachable rules start start := .start
  have hsame : (build combined start).recognize tokens = (build rules start).recognize tokens :=
    recognize_eq_of_derives_iff (fun _ => hstart.derives_iff h hextra)
      (hstart.has_iff h hextra) tokens
  refine ⟨hsame, ?_⟩
  rw [hsame]
  split
  case isTrue hnil =>
    subst hnil
    exact recognize_build_nil
  case isFalse hne => exact recognize_build hne

/-- Two rules of which the second uses the first. They derive tokens, and share a pair body with the
sample grammar G1. -/
def unreachableRules : List Rule :=
  [⟨"U", [["a"], ["X", "A"], ["ε"]]⟩, ⟨"V", [["U", "S"]]⟩]

/-- The sample grammar G1 after two more rules. They put names in cells, and give the start symbol
another number. -/
theorem unreachable_rules_change_no_sentence_g1 :
    (∀ tokens, (build (unreachableRules ++ Sample.g1.rules) "S").recognize tokens =
      Sample.g1.grammar.recognize tokens) ∧
    (build (unreachableRules ++ Sample.g1.rules) "S").cellNames ["a", "b"] 0 1 = .ok ["R", "V"] ∧
    Sample.g1.grammar.cellNames ["a", "b"] 0 1 = .ok ["R"] ∧
    (build (unreachableRules ++ Sample.g1.rules) "S").start ≠ Sample.g1.grammar.start := by
  have hreachable : ∀ a, Rule.Reachable Sample.g1.rules "S" a → a ∈ ["S", "A", "B", "X", "R"] :=
    fun a ha => ha.mem_of_closed (by decide) (by decide +kernel)
  have hlefts : ∀ rule ∈ unreachableRules, rule.left ∉ ["S", "A", "B", "X", "R"] := by decide
  have hextra : ∀ rule ∈ unreachableRules, ¬Rule.Reachable Sample.g1.rules "S" rule.left :=
    fun rule hrule hr => hlefts rule hrule (hreachable _ hr)
  refine ⟨fun tokens => ?_, by decide +kernel, by decide +kernel, by decide +kernel⟩
  exact (unreachable_rules_change_no_sentence List.perm_append_comm hextra tokens).1

end Grammar

end ChomskyChart
