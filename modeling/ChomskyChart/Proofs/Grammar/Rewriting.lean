import Mathlib.Computability.ContextFreeGrammar

/-!
# Rewriting read from left to right

Rewriting replaces one non-terminal at any position, in any order of steps. A word comes out of it
if and only if it can be read off from left to right, each non-terminal giving a part of the word on
its own. Nothing is assumed about the bodies of the rules; they may be empty.
-/

namespace ChomskyChart.Rewriting

variable {T N : Type} {rules : Set (ContextFreeRule T N)}

/-- The words of a sentential form, part by part. -/
inductive Yields (rules : Set (ContextFreeRule T N)) : List (Symbol T N) → List T → Prop where
  | nil : Yields rules [] []
  | terminal {t : T} {u : List (Symbol T N)} {w : List T} (h : Yields rules u w) :
    Yields rules (.terminal t :: u) (t :: w)
  | nonterminal {r : ContextFreeRule T N} {u : List (Symbol T N)} {v w : List T}
    (hr : r ∈ rules) (h : Yields rules r.output v) (hu : Yields rules u w) :
    Yields rules (.nonterminal r.input :: u) (v ++ w)

theorem yields_terminals (w : List T) : Yields rules (w.map .terminal) w := by
  induction w with
  | nil => exact .nil
  | cons t w ih => exact .terminal ih

theorem Yields.append {p q : List (Symbol T N)} {v w : List T} (hp : Yields rules p v)
    (hq : Yields rules q w) : Yields rules (p ++ q) (v ++ w) := by
  induction hp with
  | nil => exact hq
  | terminal _ ih => exact .terminal ih
  | nonterminal hr h _ _ ih =>
    rw [List.append_assoc]
    exact .nonterminal hr h ih

/-- What a form yields is cut where the form is. -/
theorem Yields.exists_of_append {p q : List (Symbol T N)} {w : List T}
    (h : Yields rules (p ++ q) w) : ∃ u v, w = u ++ v ∧ Yields rules p u ∧ Yields rules q v := by
  induction p generalizing w with
  | nil => exact ⟨[], w, rfl, .nil, h⟩
  | cons s p ih =>
    cases h with
    | terminal h =>
      obtain ⟨u, v, rfl, hu, hv⟩ := ih h
      exact ⟨_ :: u, v, rfl, .terminal hu, hv⟩
    | @nonterminal _ _ x _ hr hx h =>
      obtain ⟨u, v, rfl, hu, hv⟩ := ih h
      exact ⟨x ++ u, v, (List.append_assoc ..).symm, .nonterminal hr hx hu, hv⟩

theorem yields_nonterminal {r : ContextFreeRule T N} {w : List T} (hr : r ∈ rules)
    (h : Yields rules r.output w) : Yields rules [.nonterminal r.input] w := by
  rw [← List.append_nil w]
  exact .nonterminal hr h .nil

theorem Yields.mono {rules' : Set (ContextFreeRule T N)} {u : List (Symbol T N)} {w : List T}
    (hsub : rules ⊆ rules') (h : Yields rules u w) : Yields rules' u w := by
  induction h with
  | nil => exact .nil
  | terminal _ ih => exact .terminal ih
  | nonterminal hr _ _ ihv ihw => exact .nonterminal (hsub hr) ihv ihw

/-- A meaning of symbols that the rules respect gives each part of what a form yields. -/
theorem Yields.exists_parts {gives : Symbol T N → List T → Prop} {u : List (Symbol T N)} {w : List T}
    (hterminal : ∀ t, gives (.terminal t) [t])
    (hrule : ∀ r ∈ rules, ∀ parts, List.Forall₂ gives r.output parts →
      gives (.nonterminal r.input) parts.flatten)
    (h : Yields rules u w) :
    ∃ parts : List (List T), w = parts.flatten ∧ List.Forall₂ gives u parts := by
  induction h with
  | nil => exact ⟨[], rfl, .nil⟩
  | @terminal t _ _ _ ih =>
    obtain ⟨parts, rfl, hparts⟩ := ih
    exact ⟨[t] :: parts, rfl, .cons (hterminal t) hparts⟩
  | @nonterminal r _ _ _ hr _ _ ihv ihw =>
    obtain ⟨out, rfl, hout⟩ := ihv
    obtain ⟨parts, rfl, hparts⟩ := ihw
    exact ⟨out.flatten :: parts, rfl, .cons (hrule r hr out hout) hparts⟩

/-- A meaning that the rules respect holds of all that a non-terminal yields. -/
theorem Yields.gives {gives : Symbol T N → List T → Prop} {a : N} {w : List T}
    (hterminal : ∀ t, gives (.terminal t) [t])
    (hrule : ∀ r ∈ rules, ∀ parts, List.Forall₂ gives r.output parts →
      gives (.nonterminal r.input) parts.flatten)
    (h : Yields rules [.nonterminal a] w) : gives (.nonterminal a) w := by
  obtain ⟨parts, rfl, hparts⟩ := h.exists_parts hterminal hrule
  obtain _ | ⟨ha, _ | _⟩ := hparts
  rw [List.flatten_cons, List.flatten_nil, List.append_nil]
  exact ha

variable {g : ContextFreeGrammar T}

/-- One step back. -/
theorem Yields.of_produces {p q : List (Symbol T g.NT)} {w : List T} (hs : g.Produces p q)
    (h : Yields {r | r ∈ g.rules} q w) : Yields {r | r ∈ g.rules} p w := by
  obtain ⟨r, hr, hrew⟩ := hs
  obtain ⟨x, y, rfl, rfl⟩ := hrew.exists_parts
  obtain ⟨v, w', rfl, hv, hy⟩ := h.exists_of_append
  obtain ⟨v₁, v₂, rfl, hx, hout⟩ := hv.exists_of_append
  exact (hx.append (yields_nonterminal hr hout)).append hy

theorem Yields.derives {u : List (Symbol T g.NT)} {w : List T} (h : Yields {r | r ∈ g.rules} u w) :
    g.Derives u (w.map .terminal) := by
  induction h with
  | nil => exact .refl _
  | @terminal t u w _ ih => exact ih.append_left [.terminal t]
  | @nonterminal r u v w hr _ _ ihv ihw =>
    have hstep : g.Produces (.nonterminal r.input :: u) (r.output ++ u) :=
      ⟨r, hr, .head u⟩
    rw [List.map_append]
    exact (hstep.trans_derives (ihv.append_right u)).trans (ihw.append_left _)

theorem yields_iff_derives {u : List (Symbol T g.NT)} {w : List T} :
    Yields {r | r ∈ g.rules} u w ↔ g.Derives u (w.map .terminal) := by
  refine ⟨Yields.derives, fun h => ?_⟩
  -- on the first step, since what is known at the far end is that it is a word
  induction h using Relation.ReflTransGen.head_induction_on with
  | refl => exact yields_terminals w
  | head hs _ ih => exact ih.of_produces hs

end ChomskyChart.Rewriting
