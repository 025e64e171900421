import ChomskyChart.Proofs.Grammar.Language

/-!
# Empty bodies in the language

Rewriting in the ordinary sense may use an empty body of any left side at any step. Recognition uses
only those of the start symbol, and only for the empty input. So what it accepts is in the language
in the ordinary sense. The converse is shown for rules that never erase a part of a pair: then an
empty body can only be the whole of a derivation. Nothing is said of the other rules, where a word
may be in the language without being accepted.
-/

namespace ChomskyChart

open Rewriting

namespace Rule

/-- The rewriting rule of a body when empty bodies are used as well. -/
def fullRewriting? (left : String) : Body → Option (ContextFreeRule String String)
  | [] => some ⟨left, []⟩
  | [t] => if t ∈ ["ε", "ϵ", ""] then some ⟨left, []⟩ else some ⟨left, [.terminal t]⟩
  | [b, c] => some ⟨left, [.nonterminal b, .nonterminal c]⟩
  | _ => none

def fullRewritings (rules : List Rule) : List (ContextFreeRule String String) :=
  rules.flatMap fun rule => rule.bodies.filterMap (fullRewriting? rule.left)

def fullContextFree (rules : List Rule) (start : String) : ContextFreeGrammar String where
  NT := String
  initial := start
  rules := (fullRewritings rules).toFinset

/-- No left side with an empty body occurs in a body of two symbols. -/
def ErasesNoPart (rules : List Rule) : Prop :=
  ∀ rule ∈ rules, (∃ body ∈ rule.bodies, body = [] ∨ ∃ s ∈ ["ε", "ϵ", ""], body = [s]) →
    ∀ other ∈ rules, ∀ body ∈ other.bodies, body.length = 2 → rule.left ∉ body

instance (rules : List Rule) : Decidable (ErasesNoPart rules) :=
  inferInstanceAs (Decidable (∀ rule ∈ rules,
    (∃ body ∈ rule.bodies, body = [] ∨ ∃ s ∈ ["ε", "ϵ", ""], body = [s]) →
      ∀ other ∈ rules, ∀ body ∈ other.bodies, body.length = 2 → rule.left ∉ body))

variable {rules : List Rule} {start left a : String} {w : List String}

theorem fullRewriting?_eq_some {body : Body} {r : ContextFreeRule String String} :
    fullRewriting? left body = some r ↔
      rewriting? left body = some r ∨ body.kind = .empty ∧ ⟨left, []⟩ = r := by
  match body with
  | [] => simp [fullRewriting?, rewriting?, Body.kind]
  | [t] =>
    by_cases ht : t ∈ ["ε", "ϵ", ""]
    · have hk : Body.kind [t] = .empty := if_pos ht
      rw [fullRewriting?, rewriting?, if_pos ht, if_pos ht, hk]
      simp
    · have hk : Body.kind [t] = .terminal t := if_neg ht
      rw [fullRewriting?, rewriting?, if_neg ht, if_neg ht, hk]
      simp
  | [_, _] => simp [fullRewriting?, rewriting?, Body.kind]
  | _ :: _ :: _ :: _ => simp [fullRewriting?, rewriting?, Body.kind]

theorem mem_fullRewritings {r : ContextFreeRule String String} :
    r ∈ fullRewritings rules ↔
      r ∈ rewritings rules ∨ Has rules r.input .empty ∧ r.output = [] := by
  simp only [fullRewritings, rewritings, List.mem_flatMap, List.mem_filterMap,
    fullRewriting?_eq_some]
  constructor
  · intro h
    obtain ⟨rule, hrule, body, hbody, h | ⟨hk, rfl⟩⟩ := h
    · exact .inl ⟨rule, hrule, body, hbody, h⟩
    · exact .inr ⟨⟨rule, hrule, rfl, body, hbody, hk⟩, rfl⟩
  · intro h
    obtain ⟨input, output⟩ := r
    rcases h with ⟨rule, hrule, body, hbody, h⟩ | ⟨⟨rule, hrule, rfl, body, hbody, hk⟩, rfl⟩
    · exact ⟨rule, hrule, body, hbody, .inl h⟩
    · exact ⟨rule, hrule, body, hbody, .inr ⟨hk, rfl⟩⟩

theorem mem_language_iff_yields :
    w ∈ (fullContextFree rules start).language ↔
      Yields {r | r ∈ fullRewritings rules} [.nonterminal start] w := by
  have hrules : {r | r ∈ (fullContextFree rules start).rules} = {r | r ∈ fullRewritings rules} :=
    Set.ext fun r => List.mem_toFinset (α := ContextFreeRule String String)
  rw [ContextFreeGrammar.mem_language_iff, ← yields_iff_derives, hrules]
  rfl

/-- An empty body yields the empty word. -/
theorem yields_nil_of_has (h : Has rules a .empty) :
    Yields {r | r ∈ fullRewritings rules} [.nonterminal a] [] := by
  have hr : ⟨a, []⟩ ∈ fullRewritings rules := mem_fullRewritings.mpr (.inr ⟨h, rfl⟩)
  exact yields_nonterminal (r := ⟨a, []⟩) hr .nil

theorem Derives.yields_full (h : Derives rules a w) :
    Yields {r | r ∈ fullRewritings rules} [.nonterminal a] w :=
  h.yields.mono fun _ hr => mem_fullRewritings.mpr (.inl hr)

/-- A pair yields what its parts yield, put one after the other. -/
theorem yields_of_has_pair {b c : String} {u v : List String}
    (hb : Yields {r | r ∈ fullRewritings rules} [.nonterminal b] u)
    (hc : Yields {r | r ∈ fullRewritings rules} [.nonterminal c] v) (h : Has rules a (.pair b c)) :
    Yields {r | r ∈ fullRewritings rules} [.nonterminal a] (u ++ v) := by
  have hr : ⟨a, [.nonterminal b, .nonterminal c]⟩ ∈ fullRewritings rules :=
    mem_fullRewritings.mpr (.inl (mem_rewritings.mpr (.inr ⟨b, c, h, rfl⟩)))
  exact yields_nonterminal (r := ⟨a, [.nonterminal b, .nonterminal c]⟩) hr (hb.append hc)

theorem ErasesNoPart.not_has_empty (h : ErasesNoPart rules) {k : BodyKind} (hp : Has rules left k)
    (ha : a ∈ k.nonTerminals) : ¬ Has rules a .empty := by
  intro he
  obtain ⟨other, hother, -, body, hbody, rfl⟩ := hp
  obtain ⟨rule, hrule, rfl, hempty⟩ := has_empty_iff.mp he
  cases hk : body.kind with
  | pair b c =>
    obtain rfl := (Body.kind_eq_pair_iff body b c).mp hk
    exact h rule hrule hempty other hother _ hbody rfl ha
  | empty => rw [hk] at ha; cases ha
  | terminal t => rw [hk] at ha; cases ha
  | tooLong => rw [hk] at ha; cases ha

/-- What a symbol of a form stands for when its left side may have an empty body. -/
def FullGives (rules : List Rule) : Symbol String String → List String → Prop
  | .terminal t, w => w = [t]
  | .nonterminal a, w => (Has rules a .empty ∧ w = []) ∨ Derives rules a w

/-- Where no part of a pair is erased, both parts are derived without empty bodies. -/
theorem ErasesNoPart.fullGives (h : ErasesNoPart rules) {r : ContextFreeRule String String}
    (hr : r ∈ fullRewritings rules) {parts : List (List String)}
    (hparts : List.Forall₂ (FullGives rules) r.output parts) :
    FullGives rules (.nonterminal r.input) parts.flatten := by
  rcases mem_fullRewritings.mp hr with hr | ⟨hk, he⟩
  · rcases mem_rewritings.mp hr with ⟨t, hk, he⟩ | ⟨b, c, hk, he⟩
    · rw [he] at hparts
      obtain _ | ⟨rfl, _ | _⟩ := hparts
      exact .inr (.token hk)
    · rw [he] at hparts
      obtain _ | ⟨hb, _ | ⟨hc, _ | _⟩⟩ := hparts
      have hnb : ¬ Has rules b .empty := h.not_has_empty hk List.mem_cons_self
      have hnc : ¬ Has rules c .empty := h.not_has_empty hk (.tail b (.head []))
      have hdb := hb.resolve_left fun hb => hnb hb.1
      have hdc := hc.resolve_left fun hc => hnc hc.1
      rw [List.flatten_cons, List.flatten_cons, List.flatten_nil, List.append_nil]
      exact .inr (.pair hdb hdc hk)
  · rw [he] at hparts
    obtain _ | _ := hparts
    exact .inl ⟨hk, rfl⟩

theorem ErasesNoPart.yields_iff (h : ErasesNoPart rules) :
    Yields {r | r ∈ fullRewritings rules} [.nonterminal a] w ↔
      (Has rules a .empty ∧ w = []) ∨ Derives rules a w := by
  constructor
  · intro hy
    show FullGives rules (.nonterminal a) w
    exact hy.gives (fun _ => rfl) fun _ hr _ => h.fullGives hr
  · intro hd
    rcases hd with ⟨hk, rfl⟩ | hd
    · exact yields_nil_of_has hk
    · exact hd.yields_full

theorem Derives.ne_nil (h : Derives rules a w) : w ≠ [] := by
  induction h with
  | token => exact List.cons_ne_nil _ _
  | pair _ _ _ ihb _ => exact List.append_ne_nil_of_left_ne_nil ihb _

end Rule

namespace Grammar

theorem recognize_build_iff {rules : List Rule} {start : String} {tokens : List String} :
    (build rules start).recognize tokens = true ↔
      (Rule.Has rules start .empty ∧ tokens = []) ∨ Rule.Derives rules start tokens := by
  by_cases h : tokens = []
  · subst h
    rw [recognize_build_nil]
    constructor
    · exact fun he => .inl ⟨he, rfl⟩
    · intro h
      rcases h with ⟨he, -⟩ | hd
      · exact he
      · exact absurd rfl hd.ne_nil
  · rw [recognize_build h]
    constructor
    · exact .inr
    · intro hd
      exact hd.resolve_left fun he => h he.2

/-- What is recognized is in the language in the ordinary sense, and where no part of a pair can be
erased, recognition decides that language. -/
theorem recognize_full_language (rules : List Rule) (start : String) (tokens : List String) :
    ((build rules start).recognize tokens = true →
      tokens ∈ (Rule.fullContextFree rules start).language) ∧
    (Rule.ErasesNoPart rules → ((build rules start).recognize tokens = true ↔
      tokens ∈ (Rule.fullContextFree rules start).language)) := by
  rw [recognize_build_iff, Rule.mem_language_iff_yields]
  constructor
  · intro h
    rcases h with ⟨he, rfl⟩ | hd
    · exact Rule.yields_nil_of_has he
    · exact hd.yields_full
  · intro h
    exact h.yields_iff.symm

/-- Rules with empty bodies of the start symbol and of a left side that no pair has. -/
def harmlessRules : List Rule :=
  [⟨"S", [["A", "B"], ["ε"]]⟩, ⟨"A", [["a"]]⟩, ⟨"B", [["b"]]⟩, ⟨"E", [[], ["A", "B"]]⟩]

/-- Rules with an empty body of a left side that a pair has. -/
def erasingRules : List Rule :=
  [⟨"S", [["A", "B"]]⟩, ⟨"A", [[], ["a"]]⟩, ⟨"B", [["b"]]⟩]

/-- Where no part of a pair is erased, being in the language is read off recognition. Where one is,
a word of the language need not be recognized. -/
theorem recognize_full_language_two_samples :
    (Rule.ErasesNoPart harmlessRules ∧
      ["a", "b"] ∈ (Rule.fullContextFree harmlessRules "S").language ∧
      [] ∈ (Rule.fullContextFree harmlessRules "S").language ∧
      ["b"] ∉ (Rule.fullContextFree harmlessRules "S").language) ∧
    ¬ Rule.ErasesNoPart erasingRules ∧
      ["a", "b"] ∈ (Rule.fullContextFree erasingRules "S").language ∧
      ["b"] ∈ (Rule.fullContextFree erasingRules "S").language ∧
      (build erasingRules "S").recognize ["b"] = false := by
  have hno : Rule.ErasesNoPart harmlessRules := by decide
  refine ⟨⟨hno, ?_, ?_, ?_⟩, by decide, ?_, ?_, by decide +kernel⟩
  · exact ((recognize_full_language harmlessRules "S" ["a", "b"]).2 hno).mp (by decide +kernel)
  · exact ((recognize_full_language harmlessRules "S" []).2 hno).mp (by decide +kernel)
  · intro hb
    have hrecognize := ((recognize_full_language harmlessRules "S" ["b"]).2 hno).mpr hb
    exact absurd hrecognize (by decide +kernel)
  · exact (recognize_full_language erasingRules "S" ["a", "b"]).1 (by decide +kernel)
  · have hs : Rule.Has erasingRules "S" (.pair "A" "B") :=
      ⟨_, .head _, rfl, _, .head _, rfl⟩
    have ha : Rule.Has erasingRules "A" .empty := ⟨_, .tail _ (.head _), rfl, _, .head _, rfl⟩
    have hb : Rule.Derives erasingRules "B" ["b"] :=
      .token ⟨_, .tail _ (.tail _ (.head _)), rfl, _, .head _, rfl⟩
    rw [Rule.mem_language_iff_yields]
    exact Rule.yields_of_has_pair (Rule.yields_nil_of_has ha) hb.yields_full hs

end Grammar

end ChomskyChart
