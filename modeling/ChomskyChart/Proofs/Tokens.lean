import ChomskyChart.Proofs.Text.Slices
import ChomskyChart.Proofs.Text.Words
import ChomskyChart.Tokens

/-!
# What a sentence is cut into

The words of a sentence are the one way to write it as words with blanks around them. Its characters
are those of its words, so that both ways to cut it lose the blanks and nothing else, and no cut
falls inside a character. The other way round, words that are put together with blanks between them
are the words of what comes out.
-/

namespace ChomskyChart

namespace Text

/-- Words, each with a gap before it. -/
def weave (gaps ws : List (List Char)) : List Char :=
  (List.zipWith (· ++ ·) gaps ws).flatten

/-- A text is the words with gaps around them. All gaps are blank, and only the first and the last
one may be empty. -/
def Gapped (cs : List Char) (ws : List (List Char)) : Prop :=
  (∀ w ∈ ws, IsWord w) ∧ ∃ gaps last, gaps.length = ws.length ∧ cs = weave gaps ws ++ last ∧
    (∀ gap ∈ gaps, allBlank gap = true) ∧ allBlank last = true ∧ ∀ gap ∈ gaps.tail, gap ≠ []

variable {cs last : List Char} {ws gaps : List (List Char)}

theorem weave_cons (gap w : List Char) (gaps ws : List (List Char)) :
    weave (gap :: gaps) (w :: ws) = gap ++ w ++ weave gaps ws := by
  rw [weave, List.zipWith_cons_cons, List.flatten_cons, weave]

/-- The gap before the next word is the one after this word. -/
theorem spaced_weave (hlen : gaps.length = ws.length) (hws : ∀ w ∈ ws, IsWord w)
    (hgaps : ∀ gap ∈ gaps, allBlank gap = true) (hlast : allBlank last = true)
    (hne : ∀ gap ∈ gaps.tail, gap ≠ []) : Spaced (weave gaps ws ++ last) ws := by
  induction ws generalizing gaps with
  | nil =>
    rw [List.length_eq_zero_iff.mp hlen]
    exact .blanks hlast
  | cons w ws ih =>
    obtain ⟨gap, gaps, rfl⟩ := List.exists_cons_of_length_eq_add_one hlen
    obtain ⟨hgap, hgaps⟩ := List.forall_mem_cons.mp hgaps
    obtain ⟨hw, hws⟩ := List.forall_mem_cons.mp hws
    rw [weave_cons]
    cases ws with
    | nil =>
      have hword := Spaced.word hgap hw hlast (fun h => absurd rfl h) (.blanks (p := []) rfl)
      rw [List.length_eq_zero_iff.mp (Nat.succ.inj hlen)]
      simpa [weave] using hword
    | cons w' ws =>
      obtain ⟨gap', gaps, rfl⟩ := List.exists_cons_of_length_eq_add_one (Nat.succ.inj hlen)
      obtain ⟨hgap', hgaps⟩ := List.forall_mem_cons.mp hgaps
      obtain ⟨hne', hne⟩ := List.forall_mem_cons.mp hne
      have hrest : Spaced (weave ([] :: gaps) (w' :: ws) ++ last) (w' :: ws) :=
        ih (Nat.succ.inj hlen) hws (List.forall_mem_cons.mpr ⟨rfl, hgaps⟩) hne
      have hword := Spaced.word hgap hw hgap' (fun _ => hne') hrest
      simpa only [weave_cons, List.append_assoc, List.nil_append] using hword

theorem Spaced.exists_weave (h : Spaced cs ws) : ∃ gaps last, gaps.length = ws.length ∧
    cs = weave gaps ws ++ last ∧ (∀ gap ∈ gaps, allBlank gap = true) ∧ allBlank last = true ∧
    ∀ gap ∈ gaps.tail, gap ≠ [] := by
  induction h with
  | @blanks p hp => exact ⟨[], p, rfl, rfl, by simp, hp, by simp⟩
  | @word p w q cs ws hp _ hq hsep _ ih =>
    obtain ⟨gaps, last, hlen, rfl, hgaps, hlast, hne⟩ := ih
    cases ws with
    | nil =>
      obtain rfl := List.length_eq_zero_iff.mp hlen
      refine ⟨[p], q ++ last, rfl, ?_, by simpa using hp, ?_, by simp⟩
      · simp [weave]
      · rw [allBlank_append, hq, hlast]
        rfl
    | cons w' ws =>
      obtain ⟨gap, gaps, rfl⟩ := List.exists_cons_of_length_eq_add_one hlen
      obtain ⟨hgap, hgaps⟩ := List.forall_mem_cons.mp hgaps
      have hq' : allBlank (q ++ gap) = true := by
        rw [allBlank_append, hq, hgap]
        rfl
      have hqne : q ++ gap ≠ [] :=
        List.append_ne_nil_of_left_ne_nil (hsep (List.cons_ne_nil w' ws)) gap
      refine ⟨p :: (q ++ gap) :: gaps, last, congrArg (· + 1) hlen, ?_, ?_, hlast, ?_⟩
      · simp only [weave_cons, List.append_assoc]
      · exact List.forall_mem_cons.mpr ⟨hp, List.forall_mem_cons.mpr ⟨hq', hgaps⟩⟩
      · exact List.forall_mem_cons.mpr ⟨hqne, hne⟩

theorem gapped_iff_spaced : Gapped cs ws ↔ Spaced cs ws := by
  constructor
  · intro h
    obtain ⟨hws, gaps, last, hlen, rfl, hgaps, hlast, hne⟩ := h
    exact spaced_weave hlen hws hgaps hlast hne
  · exact fun h => ⟨h.isWord, h.exists_weave⟩

/-- The characters of the words are those that are not blank. -/
theorem Spaced.flatten_eq (h : Spaced cs ws) : ws.flatten = cs.filter fun c => !isBlank c := by
  have hblanks : ∀ p, allBlank p = true → p.filter (fun c => !isBlank c) = [] := by
    intro p hp
    rw [List.filter_eq_nil_iff]
    intro c hc
    simp [allBlank_iff.mp hp c hc]
  induction h with
  | blanks hp => rw [hblanks _ hp, List.flatten_nil]
  | @word p w q cs ws hp hw hq _ _ ih =>
    have hkeep : w.filter (fun c => !isBlank c) = w :=
      List.filter_eq_self.mpr fun c hc => by rw [hw.2 c hc]; rfl
    rw [List.flatten_cons, ih, List.filter_append, List.filter_append, List.filter_append,
      hblanks p hp, hblanks q hq, hkeep, List.nil_append, List.append_nil]

theorem exists_slice?_of_infix {w : List Char} {s : String} (h : w <:+: s.toList) :
    ∃ i j, slice? s i j = some (String.ofList w) := by
  obtain ⟨u, v, huv⟩ := h
  have hs : s = String.ofList u ++ String.ofList w ++ String.ofList v := by
    rw [← String.ofList_append, ← String.ofList_append, huv, String.ofList_toList]
  rw [hs]
  exact ⟨_, _, slice?_append _ _ _⟩

end Text

variable {s : String} {ts : List String}

theorem tokenize_words_eq_iff :
    tokenize .words s = ts ↔ Text.Gapped s.toList (ts.map String.toList) := by
  rw [Text.gapped_iff_spaced, ← Text.words_eq_iff, tokenize]
  constructor
  · rintro rfl
    rw [List.map_map]
    exact (List.map_id'' (fun _ => String.toList_ofList) _).symm
  · intro h
    rw [h, List.map_map]
    exact List.map_id'' (fun _ => String.ofList_toList) _

theorem tokenize_characters_eq (s : String) : tokenize .characters s =
    (tokenize .words s).flatMap fun t => t.toList.map fun c => String.ofList [c] := by
  have hchars := (Text.spaced_words s.toList).flatten_eq
  rw [tokenize, tokenize, ← hchars, List.flatMap_map, List.map_flatten, List.flatMap]
  simp only [String.toList_ofList]

theorem join_tokenize (mode : TokenMode) (s : String) :
    String.join (tokenize mode s) =
      String.ofList (s.toList.filter fun c => !Text.isBlank c) := by
  rw [← String.toList_inj, String.toList_join, String.toList_ofList]
  cases mode with
  | words =>
    rw [tokenize, List.flatMap_map, ← (Text.spaced_words s.toList).flatten_eq]
    simp only [String.toList_ofList, List.flatMap_id']
  | characters =>
    rw [tokenize, List.flatMap_map]
    simp only [String.toList_ofList, List.flatMap_singleton']

/-- Cutting a sentence into words is the inverse of putting words together, and cutting it into
characters cuts up the words. Both keep every character that is not blank and are done at bounds of
characters. -/
theorem tokenize_determined :
    (∀ s ts, tokenize .words s = ts ↔ Text.Gapped s.toList (ts.map String.toList)) ∧
    (∀ s, tokenize .characters s =
      (tokenize .words s).flatMap fun t => t.toList.map fun c => String.ofList [c]) ∧
    (∀ mode s, String.join (tokenize mode s) =
      String.ofList (s.toList.filter fun c => !Text.isBlank c)) ∧
    (∀ s, Text.characterSlices s = (tokenize .characters s).map some) ∧
    (∀ s, ∀ t ∈ tokenize .words s, ∃ i j, Text.slice? s i j = some t) ∧
    ∀ (ts : List String) (seps : List (List Char)), (∀ t ∈ ts, Text.IsWord t.toList) →
      seps.length = ts.length - 1 → (∀ sep ∈ seps, sep ≠ [] ∧ Text.allBlank sep = true) →
      tokenize .words (String.ofList (Text.weave ([] :: seps) (ts.map String.toList))) = ts := by
  refine ⟨fun s ts => tokenize_words_eq_iff, tokenize_characters_eq, join_tokenize,
    fun s => ?slices, fun s t ht => ?words, fun ts seps hts hlen hseps => ?joined⟩
  case slices =>
    rw [Text.characterSlices_eq, tokenize, List.map_map]
    rfl
  case words =>
    obtain ⟨w, hw, rfl⟩ := List.mem_map.mp ht
    exact Text.exists_slice?_of_infix ((Text.spaced_words s.toList).infix_of_mem w hw)
  case joined =>
    have hgapped : ∃ gaps last, gaps.length = ts.length ∧
        Text.weave ([] :: seps) (ts.map String.toList) =
          Text.weave gaps (ts.map String.toList) ++ last ∧
        (∀ gap ∈ gaps, Text.allBlank gap = true) ∧ Text.allBlank last = true ∧
        ∀ gap ∈ gaps.tail, gap ≠ [] := by
      cases ts with
      | nil => exact ⟨[], [], rfl, rfl, by simp, rfl, by simp⟩
      | cons t ts =>
        refine ⟨[] :: seps, [], by simp [hlen], (List.append_nil _).symm, ?_, rfl,
          fun sep hsep => (hseps sep hsep).1⟩
        exact List.forall_mem_cons.mpr ⟨rfl, fun sep hsep => (hseps sep hsep).2⟩
    rw [tokenize_words_eq_iff, String.toList_ofList, Text.Gapped, List.length_map]
    exact ⟨List.forall_mem_map.mpr hts, hgapped⟩

/-- Characters of one to four bytes, with blanks of one to three bytes around them. -/
theorem tokenize_determined_mixed :
    tokenize .words "\u3000né 日\u2003𝄞\n" = ["né", "日", "𝄞"] ∧
    tokenize .characters "\u3000né 日\u2003𝄞\n" = ["n", "é", "日", "𝄞"] ∧
    Text.characterSlices "\u3000né 日\u2003𝄞\n" = [some "n", some "é", some "日", some "𝄞"] ∧
    tokenize .words "né\u3000日\n\t𝄞" = ["né", "日", "𝄞"] := by
  obtain ⟨hunique, hcharacters, -, hslices, -, hjoined⟩ := tokenize_determined
  have hwords : tokenize .words "\u3000né 日\u2003𝄞\n" = ["né", "日", "𝄞"] := by decide +kernel
  have hchars : tokenize .characters "\u3000né 日\u2003𝄞\n" = ["n", "é", "日", "𝄞"] := by
    rw [hcharacters, hwords]
    decide +kernel
  refine ⟨hwords, hchars, ?_, ?_⟩
  · rw [hslices, hchars]
    rfl
  · have hword : ∀ t ∈ ["né", "日", "𝄞"], Text.IsWord t.toList :=
      List.forall_mem_map.mp ((hunique _ _).mp hwords).1
    exact hjoined ["né", "日", "𝄞"] [['\u3000'], ['\n', '\t']] hword rfl (by decide +kernel)

end ChomskyChart
