import ChomskyChart.Grammar.Draft

/-!
# Sample grammars

Two small grammars with sentences to try on them, one token per character.
-/

namespace ChomskyChart

structure Sample where
  title : String
  rules : List Rule
  sentences : List String

namespace Sample

def g1 : Sample where
  title := "G1"
  rules := [
    ⟨"S", [["a"], ["X", "A"], ["A", "X"], ["b"]]⟩,
    ⟨"A", [["R", "B"]]⟩,
    ⟨"B", [["A", "X"], ["b"], ["a"]]⟩,
    ⟨"X", [["a"]]⟩,
    ⟨"R", [["X", "B"]]⟩]
  sentences := ["a", "b", "aa", "ab", "ba", "aba", "aaa", "bab", "abab"]

def g2 : Sample where
  title := "G2"
  rules := [
    ⟨"S", [["A", "B"], ["C", "D"], ["C", "B"], ["S", "S"]]⟩,
    ⟨"A", [["B", "C"], ["a"]]⟩,
    ⟨"B", [["S", "C"], ["b"]]⟩,
    ⟨"C", [["D", "D"], ["b"]]⟩,
    ⟨"D", [["B", "A"]]⟩]
  sentences := ["ab", "bb", "a", "b", "abb", "bab", "abab", "bbbb", "aabb"]

def all : List Sample := [g1, g2]

/-- The grammar of a sample; its start symbol is `S`. -/
def grammar (s : Sample) : Grammar :=
  .build s.rules "S"

end Sample

end ChomskyChart
