import ChomskyChart.Proofs.Grammar.Cells
import ChomskyChart.Proofs.Grammar.Rewriting

/-!
# The language of a built grammar

The rules are read as a context-free grammar, without classes of bodies and without numbers.
Recognition decides its language, except that the empty input is accepted only for an empty body of
the start symbol. Nothing is asked of the rules.
-/

namespace ChomskyChart

open Rewriting

namespace Rule

/-- The rewriting rule of a body. One symbol is a terminal, two symbols are non-terminals, and no
other body is used. -/
def rewriting? (left : String) : Body → Option (ContextFreeRule String String)
  | [t] => if t ∈ ["ε", "ϵ", ""] then none else some ⟨left, [.terminal t]⟩
  | [b, c] => some ⟨left, [.nonterminal b, .nonterminal c]⟩
  | _ => none

def rewritings (rules : List Rule) : List (ContextFreeRule String String) :=
  rules.flatMap fun rule => rule.bodies.filterMap (rewriting? rule.left)

def contextFree (rules : List Rule) (start : String) : ContextFreeGrammar String where
  NT := String
  initial := start
  rules := (rewritings rules).toFinset

variable {rules : List Rule} {start left : String}

theorem rewriting?_eq_some {body : Body} {r : ContextFreeRule String String} :
    rewriting? left body = some r ↔
      (∃ t, body.kind = .terminal t ∧ r = ⟨left, [.terminal t]⟩) ∨
        ∃ b c, body.kind = .pair b c ∧ r = ⟨left, [.nonterminal b, .nonterminal c]⟩ := by
  simp only [Body.kind_eq_terminal_iff, Body.kind_eq_pair_iff]
  match body with
  | [] => simp [rewriting?]
  | [t] =>
    by_cases ht : t ∈ emptySpellings
    · rw [rewriting?, show ["ε", "ϵ", ""] = emptySpellings from rfl, if_pos ht]
      constructor
      · exact fun h => absurd h (by simp)
      · intro h
        rcases h with ⟨t', ⟨he, ht'⟩, -⟩ | ⟨b, c, he, -⟩
        · exact absurd (List.singleton_inj.mp he ▸ ht) ht'
        · cases he
    · rw [rewriting?, show ["ε", "ϵ", ""] = emptySpellings from rfl, if_neg ht,
        Option.some.injEq]
      constructor
      · exact fun h => .inl ⟨t, ⟨rfl, ht⟩, h.symm⟩
      · intro h
        rcases h with ⟨t', ⟨he, -⟩, rfl⟩ | ⟨b, c, he, -⟩
        · rw [List.singleton_inj.mp he]
        · cases he
  | [b, c] =>
    rw [rewriting?, Option.some.injEq]
    constructor
    · exact fun h => .inr ⟨b, c, rfl, h.symm⟩
    · intro h
      rcases h with ⟨t, ⟨he, -⟩, -⟩ | ⟨b', c', he, rfl⟩
      · cases he
      · cases he
        rfl
  | _ :: _ :: _ :: _ => simp [rewriting?]

/-- The rewriting rules are the bodies the rules have, of one symbol or two. -/
theorem mem_rewritings {r : ContextFreeRule String String} :
    r ∈ rewritings rules ↔
      (∃ t, Has rules r.input (.terminal t) ∧ r.output = [.terminal t]) ∨
        ∃ b c, Has rules r.input (.pair b c) ∧ r.output = [.nonterminal b, .nonterminal c] := by
  have hmem : r ∈ rewritings rules ↔
      ∃ rule ∈ rules, ∃ body ∈ rule.bodies, rewriting? rule.left body = some r := by
    simp only [rewritings, List.mem_flatMap, List.mem_filterMap]
  rw [hmem]
  constructor
  · intro h
    obtain ⟨rule, hrule, body, hbody, h⟩ := h
    rcases rewriting?_eq_some.mp h with ⟨t, hk, rfl⟩ | ⟨b, c, hk, rfl⟩
    · exact .inl ⟨t, ⟨rule, hrule, rfl, body, hbody, hk⟩, rfl⟩
    · exact .inr ⟨b, c, ⟨rule, hrule, rfl, body, hbody, hk⟩, rfl⟩
  · obtain ⟨a, out⟩ := r
    rintro (⟨t, ⟨rule, hrule, rfl, body, hbody, hk⟩, rfl⟩ |
      ⟨b, c, ⟨rule, hrule, rfl, body, hbody, hk⟩, rfl⟩)
    · exact ⟨rule, hrule, body, hbody, rewriting?_eq_some.mpr (.inl ⟨t, hk, rfl⟩)⟩
    · exact ⟨rule, hrule, body, hbody, rewriting?_eq_some.mpr (.inr ⟨b, c, hk, rfl⟩)⟩

/-- What a single symbol of a sentential form stands for. -/
def Gives (rules : List Rule) : Symbol String String → List String → Prop
  | .terminal t, w => w = [t]
  | .nonterminal a, w => Derives rules a w

theorem Derives.yields {a : String} {w : List String} (h : Derives rules a w) :
    Yields {r | r ∈ rewritings rules} [.nonterminal a] w := by
  induction h with
  | @token a t h =>
    have hr : ⟨a, [.terminal t]⟩ ∈ rewritings rules := mem_rewritings.mpr (.inl ⟨t, h, rfl⟩)
    exact yields_nonterminal (r := ⟨a, [.terminal t]⟩) hr (.terminal .nil)
  | @pair a b c u v _ _ h ihb ihc =>
    have hr : ⟨a, [.nonterminal b, .nonterminal c]⟩ ∈ rewritings rules :=
      mem_rewritings.mpr (.inr ⟨b, c, h, rfl⟩)
    exact yields_nonterminal (r := ⟨a, [.nonterminal b, .nonterminal c]⟩) hr (ihb.append ihc)

/-- The rewriting rules respect what symbols give. -/
theorem gives_of_mem_rewritings {r : ContextFreeRule String String} (hr : r ∈ rewritings rules)
    {parts : List (List String)} (hparts : List.Forall₂ (Gives rules) r.output parts) :
    Gives rules (.nonterminal r.input) parts.flatten := by
  rcases mem_rewritings.mp hr with ⟨t, hk, he⟩ | ⟨b, c, hk, he⟩
  · rw [he] at hparts
    obtain _ | ⟨rfl, _ | _⟩ := hparts
    exact .token hk
  · rw [he] at hparts
    obtain _ | ⟨hb, _ | ⟨hc, _ | _⟩⟩ := hparts
    rw [List.flatten_cons, List.flatten_cons, List.flatten_nil, List.append_nil]
    exact .pair hb hc hk

theorem derives_iff_rewrites {a : String} {w : List String} :
    Derives rules a w ↔ (contextFree rules start).Derives [.nonterminal a] (w.map .terminal) := by
  have hrules : {r | r ∈ (contextFree rules start).rules} = {r | r ∈ rewritings rules} :=
    Set.ext fun r => List.mem_toFinset (α := ContextFreeRule String String)
  rw [← yields_iff_derives, hrules]
  refine ⟨Derives.yields, fun h => ?_⟩
  show Gives rules (.nonterminal a) w
  exact h.gives (fun _ => rfl) fun _ hr _ => gives_of_mem_rewritings hr

theorem has_empty_iff :
    Has rules left .empty ↔ ∃ rule ∈ rules, rule.left = left ∧
      ∃ body ∈ rule.bodies, body = [] ∨ ∃ s ∈ ["ε", "ϵ", ""], body = [s] :=
  exists_congr fun _ => and_congr_right fun _ => and_congr_right fun _ => exists_congr fun body =>
    and_congr_right fun _ => body.kind_eq_empty_iff

end Rule

/-- Recognition decides the language of the rules, and the empty input apart from it. -/
theorem Grammar.recognize_iff_rewrites (rules : List Rule) (start : String)
    (tokens : List String) :
    (build rules start).recognize tokens = true ↔
      (tokens = [] ∧ ∃ rule ∈ rules, rule.left = start ∧
        ∃ body ∈ rule.bodies, body = [] ∨ ∃ s ∈ ["ε", "ϵ", ""], body = [s]) ∨
      (tokens ≠ [] ∧ (Rule.contextFree rules start).Derives [.nonterminal start]
        (tokens.map .terminal)) := by
  by_cases h : tokens = []
  · subst h
    rw [recognize_build_nil, Rule.has_empty_iff]
    constructor
    · exact fun he => .inl ⟨rfl, he⟩
    · intro h
      rcases h with ⟨-, he⟩ | ⟨hne, -⟩
      · exact he
      · exact absurd rfl hne
  · rw [recognize_build h, Rule.derives_iff_rewrites]
    constructor
    · exact fun hd => .inr ⟨h, hd⟩
    · intro h
      rcases h with ⟨he, -⟩ | ⟨-, hd⟩
      · exact absurd he h
      · exact hd

end ChomskyChart
