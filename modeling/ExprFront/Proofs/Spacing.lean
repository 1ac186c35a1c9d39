import Mathlib.Logic.Relation
import ExprFront.Proofs.Concatenation

/-! Layout means nothing. A run of blanks inside a text only keeps the words before it apart from
those behind it, so it may be exchanged for any other run; at the ends of the text it does not even
do that. Texts with the same words are read alike: trees and faults differ in the places of their
tokens only. -/

namespace ExprFront

/-! ### Words of a text -/

/-- Kinds and texts of the tokens of a text, without the end token. -/
def words (cs : List Char) : List (TokenKind × List Char) :=
  (Scanner.ofChars cs).tokens.map Token.word

@[simp] theorem words_nil : words [] = [] := by
  rw [words, Scanner.tokens_of_none rfl, List.map_nil]

/-- The words do not depend on where the text stands. -/
theorem map_word_tokens (s : Scanner) : s.tokens.map Token.word = words s.rest :=
  (Scanner.ofChars s.rest).lexes_tokens.tokens_eq s.position

theorem map_word_tokenize (source : String) :
    (tokenize source).map Token.word = words source.toList ++ [(.eof, [])] := by
  rw [tokenize_eq, List.map_append, map_word_tokens]
  rfl

/-- Blanks in front are skipped. -/
theorem words_blank_append {gap : List Char} (hgap : ∀ c ∈ gap, c ∈ blanks) (cs : List Char) :
    words (gap ++ cs) = words cs := by
  rw [words, Scanner.ofChars, Scanner.tokens_blank_append hgap, map_word_tokens]

/-- Blanks inside separate. -/
theorem words_append_blank_append {gap : List Char} (hgap : ∀ c ∈ gap, c ∈ blanks) (hne : gap ≠ [])
    (cs ds : List Char) : words (cs ++ (gap ++ ds)) = words cs ++ words ds := by
  obtain ⟨b, gap, rfl⟩ := List.exists_cons_of_ne_nil hne
  rw [List.forall_mem_cons] at hgap
  have htokens := Scanner.tokens_append (Scanner.ofChars cs) hgap.1 (gap ++ ds)
  have hwords := congrArg (List.map Token.word) htokens
  rw [List.map_append, map_word_tokens, map_word_tokens, map_word_tokens] at hwords
  rw [← words_blank_append hgap.2 ds]
  exact hwords

/-- Blanks at the end are skipped. -/
theorem words_append_blank {gap : List Char} (hgap : ∀ c ∈ gap, c ∈ blanks) (cs : List Char) :
    words (cs ++ gap) = words cs := by
  by_cases hne : gap = []
  · rw [hne, List.append_nil]
  · have hwords := words_append_blank_append hgap hne cs []
    rwa [List.append_nil, words_nil, List.append_nil] at hwords

/-! ### Texts laid out anew -/

/-- One run of blanks is exchanged for another. Both are there, unless they are at an end of the
text: blanks may be added and removed in front of it and behind it. -/
inductive Respaces : List Char → List Char → Prop where
  | exchange {front gap gap' behind : List Char} (hgap : ∀ c ∈ gap, c ∈ blanks)
      (hgap' : ∀ c ∈ gap', c ∈ blanks)
      (hinner : front ≠ [] → behind ≠ [] → gap ≠ [] ∧ gap' ≠ []) :
      Respaces (front ++ (gap ++ behind)) (front ++ (gap' ++ behind))

theorem Respaces.words_eq {cs ds : List Char} (h : Respaces cs ds) : words cs = words ds := by
  obtain ⟨hgap, hgap', hinner⟩ := h
  rename_i front gap gap' behind
  by_cases hfront : front = []
  · rw [hfront, List.nil_append, List.nil_append, words_blank_append hgap,
      words_blank_append hgap']
  · by_cases hbehind : behind = []
    · rw [hbehind, List.append_nil, List.append_nil, words_append_blank hgap,
        words_append_blank hgap']
    · obtain ⟨hne, hne'⟩ := hinner hfront hbehind
      rw [words_append_blank_append hgap hne, words_append_blank_append hgap' hne']

theorem words_eq_of_respaces {cs ds : List Char} (h : Relation.ReflTransGen Respaces cs ds) :
    words cs = words ds := by
  induction h with
  | refl => rfl
  | tail _ hstep ih => exact ih.trans hstep.words_eq

/-! ### Trees and faults without places -/

/-- The token with its place forgotten. -/
def Token.unplaced (t : Token) : Token := { t with position := .start }

theorem Token.unplaced_eq_iff {t u : Token} : t.unplaced = u.unplaced ↔ t.word = u.word := by
  simp [unplaced, word, String.toList_inj]

theorem relabels_unplaced : Parser.Relabels .standard Token.unplaced where
  kind _ := rfl
  literal _ := .inl rfl

/-- Programs of the same statements, up to their tokens, are written alike. -/
theorem Program.render_eq_of_mapToken {f : Token → Token} {p q : Program}
    (h : p.statements.map (Statement.mapToken f) = q.statements.map (Statement.mapToken f)) :
    p.render = q.render := by
  apply Program.render_eq_of_shape_eq
  have hshape := congrArg (List.map Statement.shape) h
  simp only [List.map_map, Function.comp_def, Statement.shape_mapToken] at hshape
  exact congrArg Program.mk hshape

/-- Texts whose tokens have the same kinds and texts, and in particular texts of which one is the
other laid out anew, are parsed alike: to the same trees and the same faults, but for the places of
the tokens, and the trees are written alike. -/
theorem parse_of_same_words {source source' : String}
    (h : (tokenize source).map Token.word = (tokenize source').map Token.word ∨
      Relation.ReflTransGen Respaces source.toList source'.toList) :
    (tokenize source).map Token.word = (tokenize source').map Token.word ∧
      (parse source).1.statements.map (Statement.mapToken Token.unplaced) =
        (parse source').1.statements.map (Statement.mapToken Token.unplaced) ∧
      (parse source).1.render = (parse source').1.render ∧
      (parse source).2.map (Diagnostic.mapToken Token.unplaced) =
        (parse source').2.map (Diagnostic.mapToken Token.unplaced) := by
  have hwords : (tokenize source).map Token.word = (tokenize source').map Token.word := by
    rcases h with h | h
    · exact h
    · rw [map_word_tokenize, map_word_tokenize, words_eq_of_respaces h]
  have htokens : (tokenize source).map Token.unplaced = (tokenize source').map Token.unplaced := by
    rw [← List.forall₂_eq_eq_eq, List.forall₂_map_left_iff, List.forall₂_map_right_iff] at hwords ⊢
    exact hwords.imp fun t u => Token.unplaced_eq_iff.mpr
  obtain ⟨hstatements, hfaults⟩ := parse_relabel relabels_unplaced (fun _ => rfl) htokens
  exact ⟨hwords, hstatements, Program.render_eq_of_mapToken hstatements, hfaults⟩

/-- A text laid out anew, where the fault moves, and two texts that agree in their tokens although
neither is the other laid out anew. -/
theorem parse_of_same_words_lines :
    Relation.ReflTransGen Respaces "x  %".toList "\tx\r\n%".toList ∧
      (parse "x  %").2.map Diagnostic.position = [⟨0, 3⟩] ∧
      (parse "\tx\r\n%").2.map Diagnostic.position = [⟨2, 0⟩] ∧
      (parse "x  %").2.map (Diagnostic.mapToken Token.unplaced) =
        (parse "\tx\r\n%").2.map (Diagnostic.mapToken Token.unplaced) ∧
      (parse "1-x").1.render = (parse "1 - x").1.render := by
  have hinside : Respaces "x  %".toList "x\r\n%".toList :=
    @Respaces.exchange ['x'] [' ', ' '] ['\r', '\n'] ['%'] (by simp [blanks]) (by simp [blanks])
      (by simp)
  have hfront : Respaces "x\r\n%".toList "\tx\r\n%".toList :=
    @Respaces.exchange [] [] ['\t'] ['x', '\r', '\n', '%'] (by simp) (by simp [blanks]) (by simp)
  have hlines := Relation.ReflTransGen.tail (.single hinside) hfront
  have hwords : (tokenize "1-x").map Token.word = (tokenize "1 - x").map Token.word := by
    decide +kernel
  exact ⟨hlines, by decide +kernel, by decide +kernel, (parse_of_same_words (.inr hlines)).2.2.2,
    (parse_of_same_words (.inl hwords)).2.2.1⟩

end ExprFront
