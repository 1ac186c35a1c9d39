import ExprFront.Proofs.Decimal
import ExprFront.Proofs.Precedence.Standard
import ExprFront.Proofs.Token.Stream
import ExprFront.Proofs.Tree.Tokens

/-! The tokens of a printed tree. The printer puts no blank inside an expression and no parenthesis
around one, and yet no two printed words run into each other: the text of a tree whose names, values
and operators can be written is cut into the words of its nodes, in the order of the source. -/

namespace ExprFront

/-- The operators that stand before their operand. -/
def signTexts : List String := ["-", "!"]

/-- The operators that stand between their operands. -/
def operatorTexts : List String := ["==", "!=", "<", ">", "+", "-", "*", "/"]

/-- The kind of an operator's token. -/
def operatorKind : String → TokenKind
  | "==" => .equal
  | "!=" => .notEqual
  | "<" => .less
  | ">" => .greater
  | "+" => .plus
  | "-" => .minus
  | "*" => .star
  | "/" => .slash
  | "!" => .bang
  | _ => .illegal

theorem spells_of_mem_signs {op : String} (h : op ∈ signTexts) :
    (operatorKind op).Spells op.toList := by
  simp only [signTexts, List.mem_cons, List.not_mem_nil, or_false] at h
  rcases h with rfl | rfl <;> exact ⟨_, rfl, by decide⟩

theorem spells_of_mem_operators {op : String} (h : op ∈ operatorTexts) :
    (operatorKind op).Spells op.toList ∧ ∀ rest, (operatorKind op).Ends rest := by
  simp only [operatorTexts, List.mem_cons, List.not_mem_nil, or_false] at h
  rcases h with rfl | rfl | rfl | rfl | rfl | rfl | rfl | rfl
  · exact ⟨rfl, fun _ _ _ => rfl⟩
  · exact ⟨rfl, fun _ _ _ => rfl⟩
  all_goals exact ⟨⟨_, rfl, by decide⟩, fun _ _ _ => rfl⟩

theorem eq_ofList {text : String} {cs : List Char} (h : text.toList = cs) :
    text = String.ofList cs := by rw [← h, String.ofList_toList]

theorem mem_signs_of_spells {kind : TokenKind} {text : String}
    (hkind : kind = .minus ∨ kind = .bang) (h : kind.Spells text.toList) :
    text ∈ signTexts ∧ operatorKind text = kind := by
  rcases hkind with rfl | rfl <;>
    · obtain ⟨c, htext, hc⟩ := h
      simp only [TokenKind.singles, List.mem_cons, Prod.mk.injEq, reduceCtorEq, and_false, and_true,
        List.not_mem_nil, or_false, false_or] at hc
      rw [eq_ofList htext, hc]
      decide

/-- Every operator is spelled in one way. -/
theorem mem_operators_of_spells {kind : TokenKind} {text : String}
    (hkind : kind ∈ TokenKind.operators) (h : kind.Spells text.toList) :
    text ∈ operatorTexts ∧ operatorKind text = kind := by
  cases kind with
  | equal | notEqual =>
    rw [eq_ofList h]
    decide
  | less | greater | plus | minus | star | slash =>
    obtain ⟨c, htext, hc⟩ := h
    simp only [TokenKind.singles, List.mem_cons, Prod.mk.injEq, reduceCtorEq, and_false, and_true,
      List.not_mem_nil, or_false, false_or] at hc
    rw [eq_ofList htext, hc]
    decide
  | _ => exact absurd hkind (by decide)

/-- The text behind continues no word and no number. -/
def Breaks (rest : List Char) : Prop := ∀ c ∈ rest.head?, isWordChar c = false

theorem Breaks.ends_ident {rest : List Char} (h : Breaks rest) : TokenKind.ident.Ends rest := by
  intro c hc
  rw [TokenKind.continuedBy_ident, h c hc]

theorem Breaks.ends_number {rest : List Char} (h : Breaks rest) : TokenKind.number.Ends rest := by
  intro c hc
  have hword := h c hc
  simp only [isWordChar, Bool.or_eq_false_iff] at hword
  exact hword.2

theorem breaks_operator {op : String} (h : op ∈ operatorTexts)
    (rest : List Char) : Breaks (op.toList ++ rest) := by
  simp only [operatorTexts, List.mem_cons, List.not_mem_nil, or_false] at h
  intro c hc
  rcases h with rfl | rfl | rfl | rfl | rfl | rfl | rfl | rfl <;>
    · cases hc
      decide

namespace Expr

/-- Names are words other than the reserved one, values are not negative, and operators are those
of the language, so that every node can be written as one word. -/
def Printable : Expr → Prop
  | .ident id => TokenKind.ident.Spells id.name.toList
  | .int _ value => 0 ≤ value.toInt
  | .unary _ operator operand => operator ∈ signTexts ∧ operand.Printable
  | .binary _ operator left right =>
    operator ∈ operatorTexts ∧ left.Printable ∧ right.Printable

/-- The words of a tree's nodes, in the order of the source. -/
def words : Expr → List (TokenKind × List Char)
  | .ident id => [(.ident, id.name.toList)]
  | .int _ value => [(.number, (toString value.toInt).toList)]
  | .unary _ operator operand => (operatorKind operator, operator.toList) :: operand.words
  | .binary _ operator left right =>
    left.words ++ (operatorKind operator, operator.toList) :: right.words

theorem spells_toString {value : Int64} (h : 0 ≤ value.toInt) :
    TokenKind.number.Spells (toString value.toInt).toList := by
  rw [Numeral.toList_toString_of_nonneg h]
  exact ⟨Nat.toDigits_ne_nil,
    fun c hc => Nat.isDigit_of_mem_toDigits (by decide) (by decide) hc⟩

/-- No printed tree starts with `=`, so that `!` before it stays by itself. -/
theorem head?_render_ne_equal {e : Expr} (he : e.Printable) (rest : List Char) :
    ∀ c ∈ (e.render.toList ++ rest).head?, c ≠ '=' := by
  induction e generalizing rest with
  | ident id =>
    obtain ⟨d, ds, hname, hd, -⟩ := he
    simp only [render, hname]
    rintro c hc rfl
    cases hc
    exact absurd hd (by decide)
  | int token value =>
    obtain ⟨hne, hdigits⟩ := spells_toString he
    obtain ⟨d, ds, hds⟩ := List.exists_cons_of_ne_nil hne
    simp only [render, hds]
    rintro c hc rfl
    cases hc
    exact absurd (hdigits '=' (hds ▸ List.mem_cons_self ..)) (by decide)
  | unary token operator operand ih =>
    obtain ⟨hop, -⟩ := he
    simp only [signTexts, List.mem_cons, List.not_mem_nil, or_false] at hop
    simp only [render, String.toList_append]
    rintro c hc rfl
    rcases hop with rfl | rfl <;> exact absurd hc (by simp)
  | binary token operator left right ihl ihr =>
    simp only [render, String.toList_append, List.append_assoc]
    exact ihl he.2.1 _

/-- A printed tree is cut into its words. -/
theorem lexes_render {e : Expr} (he : e.Printable) {rest : List Char}
    {words' : List (TokenKind × List Char)} (hrest : Breaks rest) (h : Lexes rest words') :
    Lexes (e.render.toList ++ rest) (e.words ++ words') := by
  induction e generalizing rest words' with
  | ident id => exact .word he hrest.ends_ident h
  | int token value => exact .word (spells_toString he) hrest.ends_number h
  | unary token operator operand ih =>
    obtain ⟨hop, hoperand⟩ := he
    simp only [render, words, String.toList_append, List.append_assoc, List.cons_append]
    refine .word (spells_of_mem_signs hop) ?_ (ih hoperand hrest h)
    intro c hc
    have hne := head?_render_ne_equal hoperand rest c hc
    simp only [signTexts, List.mem_cons, List.not_mem_nil, or_false] at hop
    rcases hop with rfl | rfl
    · rfl
    · exact beq_eq_false_iff_ne.mpr hne
  | binary token operator left right ihl ihr =>
    obtain ⟨hop, hleft, hright⟩ := he
    obtain ⟨hspells, hends⟩ := spells_of_mem_operators hop
    simp only [render, words, String.toList_append, List.append_assoc, List.cons_append]
    exact ihl hleft (breaks_operator hop _) (.word hspells (hends _) (ihr hright hrest h))

end Expr

namespace Statement

def Printable : Statement → Prop
  | .assignment _ name value => TokenKind.ident.Spells name.name.toList ∧ value.Printable
  | .expression _ expr => expr.Printable

/-- The words of a statement, in the order of the source. -/
def words : Statement → List (TokenKind × List Char)
  | .assignment _ name value => (.ident, name.name.toList) :: (.assign, ['=']) :: value.words
  | .expression _ expr => expr.words

theorem lexes_render {s : Statement} (hs : s.Printable) {rest : List Char}
    {words' : List (TokenKind × List Char)} (hrest : Breaks rest) (h : Lexes rest words') :
    Lexes (s.render.toList ++ rest) (s.words ++ words') := by
  cases s with
  | expression token e => exact Expr.lexes_render hs hrest h
  | assignment token name value =>
    obtain ⟨hname, hvalue⟩ := hs
    have htext : (render (.assignment token name value)).toList ++ rest =
        name.name.toList ++ (' ' :: (['='] ++ (' ' :: (value.render.toList ++ rest)))) := by
      have hequal : " = ".toList = [' ', '=', ' '] := rfl
      simp only [render, String.toList_append, hequal, List.append_assoc, List.cons_append,
        List.nil_append]
    have hassign : TokenKind.assign.Spells ['='] := ⟨_, rfl, by decide⟩
    rw [htext]
    refine .word hname (TokenKind.ends_cons.mpr rfl) (.blank (by decide) ?_)
    refine .word hassign (TokenKind.ends_cons.mpr rfl) (.blank (by decide) ?_)
    exact Expr.lexes_render hvalue hrest h

end Statement

namespace Program

/-- The words of a program, in the order of the source. -/
def words (p : Program) : List (TokenKind × List Char) := p.statements.flatMap Statement.words

/-- A printed program is cut into the words of its statements. -/
theorem lexes_render {p : Program} (hp : ∀ s ∈ p.statements, s.Printable) :
    Lexes p.render.toList p.words := by
  obtain ⟨statements⟩ := p
  simp only [render, words]
  induction statements with
  | nil => exact .nil (by simp)
  | cons s statements ih =>
    obtain ⟨hs, hstatements⟩ := List.forall_mem_cons.mp hp
    have hrest := ih hstatements
    cases statements with
    | nil =>
      have hlex := Statement.lexes_render hs (by simp [Breaks] : Breaks []) (.nil (by simp))
      simpa using hlex
    | cons s' statements =>
      simp only [List.map_cons, String.intercalate_cons_cons, String.toList_append,
        List.append_assoc, List.flatMap_cons] at hrest ⊢
      -- the line feed between two statements is a blank, and ends the last word of the first
      exact Statement.lexes_render hs (by simp [Breaks]; decide) (.blank (by decide) hrest)

end Program

end ExprFront
