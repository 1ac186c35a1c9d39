import Mathlib.Data.List.Forall2
import ExprFront.Proofs.Parser.Relabelling
import ExprFront.Proofs.Tree.Printing

/-! Printing a program and parsing it again. The printed text of a program read without a fault has
the tokens of the source, up to the way its numbers are written, and so it is parsed to a program of
the same shape, which is printed to the same text. -/

namespace ExprFront

/-! ### Tokens in their printed form -/

namespace Token

/-- The token as it is printed: a number in decimal, and no place. -/
def canonical (t : Token) : Token :=
  match t.kind, Numeral.read t.literal with
  | .number, .ok value => ⟨.number, toString value.toInt, .start⟩
  | kind, _ => ⟨kind, t.literal, .start⟩

theorem canonical_of_read {t : Token} {value : Int64} (hkind : t.kind = .number)
    (hread : Numeral.read t.literal = .ok value) :
    t.canonical = ⟨.number, toString value.toInt, .start⟩ := by
  simp only [canonical, hkind, hread]

theorem canonical_of_ne_number {t : Token} (hkind : t.kind ≠ .number) :
    t.canonical = ⟨t.kind, t.literal, .start⟩ := by
  unfold canonical
  split
  next heq _ => exact absurd heq hkind
  next => rfl

theorem canonical_of_error {t : Token} {error : NumeralError}
    (hread : Numeral.read t.literal = .error error) :
    t.canonical = ⟨t.kind, t.literal, .start⟩ := by
  unfold canonical
  split
  next heq => rw [hread] at heq; cases heq
  next => rfl

theorem canonical_eof (p : Position) : (Token.eof p).canonical = .eof .start :=
  canonical_of_ne_number (by simp [Token.eof])

/-- The printed form of a token depends on its kind and text alone. -/
theorem canonical_congr {t u : Token} (h : t.word = u.word) : t.canonical = u.canonical := by
  obtain ⟨hkind, hliteral⟩ := Prod.mk.inj h
  simp only [canonical, hkind, String.toList_inj.mp hliteral]

end Token

/-- Reading does not notice that tokens are in their printed form. -/
theorem relabels_canonical : Parser.Relabels .standard Token.canonical where
  kind t := by
    unfold Token.canonical
    split
    next heq _ => exact heq.symm
    next => rfl
  literal t := by
    by_cases hkind : t.kind = .number
    · cases hread : Numeral.read t.literal with
      | ok value =>
        rw [Token.canonical_of_read hkind hread]
        exact .inr ⟨hkind, rfl, rfl, value, rfl, Numeral.read_toString value⟩
      | error error =>
        rw [Token.canonical_of_error hread]
        exact .inl rfl
    · rw [Token.canonical_of_ne_number hkind]
      exact .inl rfl

/-! ### Trees that were read can be printed -/

/-- The token is printed as the word: a number in decimal, any other token in its own text. -/
def Token.PrintedAs (t : Token) (word : TokenKind × List Char) : Prop :=
  word.1 = t.kind ∧
    if t.kind = .number then
      ∃ value, Numeral.read t.literal = .ok value ∧ word.2 = (toString value.toInt).toList
    else word.2 = t.literal.toList

namespace Token

theorem printedAs_of_ne_number {t : Token} {word : TokenKind × List Char}
    (hkind : t.kind ≠ .number) (h : word = t.word) : t.PrintedAs word := by
  subst h
  exact ⟨rfl, by rw [if_neg hkind]; rfl⟩

theorem PrintedAs.canonical_eq {t u : Token} (h : t.PrintedAs u.word) :
    t.canonical = u.canonical := by
  obtain ⟨hkind, htext⟩ := h
  split at htext
  next hnumber =>
    obtain ⟨value, hread, htext⟩ := htext
    have hliteral : u.literal = toString value.toInt := String.toList_inj.mp htext
    rw [canonical_of_read hnumber hread, canonical_of_read (hkind.trans hnumber)]
    rw [hliteral, Numeral.read_toString]
  next => exact canonical_congr (Prod.ext hkind.symm htext.symm)

end Token

namespace Expr

/-- A tree that stands for the texts of its tokens can be printed, each token as one word. -/
theorem printable_of_faithful {e : Expr} (hf : e.Faithful .standard)
    (hspells : ∀ t ∈ e.yield, t.kind.Spells t.literal.toList) :
    e.Printable ∧ List.Forall₂ Token.PrintedAs e.yield e.words := by
  induction e with
  | ident id =>
    obtain ⟨hrule, hname⟩ := hf
    have hkind := Rules.standard_prefixRule_eq_name.mp hrule
    have htext := hspells id.token (List.mem_singleton_self _)
    rw [hkind, ← hname] at htext
    refine ⟨htext, .cons (Token.printedAs_of_ne_number (by simp [hkind]) ?_) .nil⟩
    rw [Token.word, hkind, hname]
  | int token value =>
    obtain ⟨hrule, hread⟩ := hf
    have hkind := Rules.standard_prefixRule_eq_integer.mp hrule
    have htext := hspells token (List.mem_singleton_self _)
    rw [hkind] at htext
    refine ⟨Numeral.nonneg_of_read htext.2 hread, .cons ⟨hkind.symm, ?_⟩ .nil⟩
    rw [if_pos hkind]
    exact ⟨value, hread, rfl⟩
  | unary token operator operand ih =>
    obtain ⟨hrule, rfl, hoperand⟩ := hf
    have hkind := Rules.standard_prefixRule_eq_operator.mp hrule
    obtain ⟨htoken, htokens⟩ := List.forall_mem_cons.mp hspells
    obtain ⟨hmem, hop⟩ := mem_signs_of_spells hkind htoken
    obtain ⟨hprint, hwords⟩ := ih hoperand htokens
    have hnumber : token.kind ≠ .number := by rcases hkind with h | h <;> simp [h]
    refine ⟨⟨hmem, hprint⟩, .cons (Token.printedAs_of_ne_number hnumber ?_) hwords⟩
    rw [Token.word, hop]
  | binary token operator left right ihl ihr =>
    obtain ⟨hrule, rfl, hleft, hright⟩ := hf
    have hkind := Rules.standard_infixRule_eq_binary.mp hrule
    obtain ⟨htokens, htail⟩ := List.forall_mem_append.mp hspells
    obtain ⟨htoken, htokens'⟩ := List.forall_mem_cons.mp htail
    obtain ⟨hmem, hop⟩ := mem_operators_of_spells hkind htoken
    obtain ⟨hprintl, hwordsl⟩ := ihl hleft htokens
    obtain ⟨hprintr, hwordsr⟩ := ihr hright htokens'
    have hnumber : token.kind ≠ .number := by
      intro h
      rw [h] at hkind
      exact absurd hkind (by decide)
    refine ⟨⟨hmem, hprintl, hprintr⟩, List.rel_append hwordsl ?_⟩
    refine .cons (Token.printedAs_of_ne_number hnumber ?_) hwordsr
    rw [Token.word, hop]

end Expr

namespace Statement

theorem printable_of_faithful {s : Statement} (hf : s.Faithful .standard)
    (hspells : ∀ t ∈ s.yield, t.kind.Spells t.literal.toList) :
    s.Printable ∧ List.Forall₂ Token.PrintedAs s.yield s.words := by
  cases s with
  | expression token e => exact Expr.printable_of_faithful hf.2 hspells
  | assignment token name value =>
    obtain ⟨hname, htext, hassign, hvalue⟩ := hf
    obtain ⟨hspell, htail⟩ := List.forall_mem_cons.mp hspells
    obtain ⟨hspell', htokens⟩ := List.forall_mem_cons.mp htail
    obtain ⟨hprint, hwords⟩ := Expr.printable_of_faithful hvalue htokens
    rw [hname, ← htext] at hspell
    rw [hassign] at hspell'
    refine ⟨⟨hspell, hprint⟩, .cons ?_ (.cons ?_ hwords)⟩
    · refine Token.printedAs_of_ne_number (by simp [hname]) ?_
      rw [Token.word, hname, htext]
    · refine Token.printedAs_of_ne_number (by simp [hassign]) ?_
      obtain ⟨c, hc, hkind⟩ := hspell'
      have hc' := TokenKind.ofChar?_some (TokenKind.ofChar?_eq_some_iff.mpr hkind)
      rw [Token.word, hassign, hc, hc'.2.2.2.2.mpr rfl]

end Statement

theorem Program.printable_of_faithful {p : Program}
    (hf : ∀ s ∈ p.statements, s.Faithful .standard)
    (hspells : ∀ t ∈ p.statements.flatMap Statement.yield, t.kind.Spells t.literal.toList) :
    (∀ s ∈ p.statements, s.Printable) ∧
      List.Forall₂ Token.PrintedAs (p.statements.flatMap Statement.yield) p.words := by
  obtain ⟨statements⟩ := p
  simp only [words] at *
  induction statements with
  | nil => exact ⟨by simp, .nil⟩
  | cons s statements ih =>
    obtain ⟨hs, hstatements⟩ := List.forall_mem_cons.mp hf
    obtain ⟨htokens, htail⟩ := List.forall_mem_append.mp hspells
    obtain ⟨hprint, hwords⟩ := s.printable_of_faithful hs htokens
    obtain ⟨hprints, hwords'⟩ := ih hstatements htail
    exact ⟨List.forall_mem_cons.mpr ⟨hprint, hprints⟩, List.rel_append hwords hwords'⟩

/-! ### The printed text -/

/-- The words of the printed text are the tokens of the source, as they are printed. -/
theorem tokenize_render {source : String} (h : (parse source).2 = []) :
    List.Forall₂ (fun t u => t.PrintedAs u.word) (tokenize source)
      (tokenize (parse source).1.render) := by
  obtain ⟨outs, hreads, hparse⟩ := Parser.exists_readsProgram_parse source
  rw [hparse] at h ⊢
  have hyield := hreads.flatMap_yield Rules.standard_ungrouped h
  obtain ⟨hprint, hwords⟩ := Program.printable_of_faithful
    (p := ⟨Parser.statementsOf outs⟩) (hreads.faithful Rules.standard_ungrouped)
    (fun t ht => Scanner.spells_of_mem_tokens (hyield ▸ ht))
  have htokens := (Program.lexes_render hprint).tokens_eq .start
  rw [tokenize_eq, tokenize_eq]
  refine List.rel_append ?_ (.cons ?_ .nil)
  · rw [hyield, ← htokens, List.forall₂_map_right_iff] at hwords
    exact hwords
  · exact Token.printedAs_of_ne_number (by simp [Token.eof]) rfl

/-- A program read without a fault is printed to a text that is read without a fault, to a program
of the same shape, and printed to the same text; the two texts have the same tokens, but for numbers
being written in decimal. -/
theorem parse_render {source : String} (h : (parse source).2 = []) :
    (parse (parse source).1.render).2 = [] ∧
      (parse (parse source).1.render).1.shape = (parse source).1.shape ∧
      (parse (parse source).1.render).1.render = (parse source).1.render ∧
      List.Forall₂ (fun t u => t.PrintedAs u.word) (tokenize source)
        (tokenize (parse source).1.render) := by
  have hprinted := tokenize_render h
  have htokens : (tokenize source).map Token.canonical =
      (tokenize (parse source).1.render).map Token.canonical := by
    rw [← List.forall₂_eq_eq_eq, List.forall₂_map_left_iff, List.forall₂_map_right_iff]
    exact hprinted.imp fun t u => Token.PrintedAs.canonical_eq
  obtain ⟨hstatements, hfaults⟩ :=
    parse_relabel relabels_canonical Token.canonical_eof htokens
  have hshape : (parse (parse source).1.render).1.shape = (parse source).1.shape := by
    have hmap := congrArg (List.map Statement.shape) hstatements
    simp only [List.map_map, Function.comp_def, Statement.shape_mapToken] at hmap
    exact congrArg Program.mk hmap.symm
  refine ⟨?_, hshape, Program.render_eq_of_shape_eq hshape, hprinted⟩
  rw [h] at hfaults
  exact List.map_eq_nil_iff.mp hfaults.symm

theorem parse_render_octal :
    (parse "x=010 - !y z").2 = [] ∧ (parse "x=010 - !y z").1.render = "x = 8-!y\nz" ∧
      (parse (parse "x=010 - !y z").1.render).1.shape = (parse "x=010 - !y z").1.shape := by
  have hfaults : (parse "x=010 - !y z").2 = [] := by decide +kernel
  exact ⟨hfaults, by decide +kernel, (parse_render hfaults).2.1⟩

end ExprFront
