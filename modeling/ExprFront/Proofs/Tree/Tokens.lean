import ExprFront.Numeral
import ExprFront.Precedence.Rules
import ExprFront.Tree.Basic

/-! The tokens inside a tree: listed in the order of the source, exchanged for others, or blanked
out so that only the shape of the tree is left. The written form of a tree depends on its shape
alone. -/

namespace ExprFront

namespace Expr

/-- The tokens of a tree in the order of the source. -/
def yield : Expr → List Token
  | .ident id => [id.token]
  | .int token _ => [token]
  | .unary token _ operand => token :: operand.yield
  | .binary token _ left right => left.yield ++ token :: right.yield

/-- The tree with other tokens; names, values and operators stay. -/
def mapToken (f : Token → Token) : Expr → Expr
  | .ident id => .ident ⟨f id.token, id.name⟩
  | .int token value => .int (f token) value
  | .unary token operator operand => .unary (f token) operator (operand.mapToken f)
  | .binary token operator left right =>
    .binary (f token) operator (left.mapToken f) (right.mapToken f)

/-- The tree with its tokens blanked out. -/
def shape (e : Expr) : Expr := e.mapToken fun _ => .eof .start

/-- Every node stands for what its token spells, and the rules give that meaning to its kind. -/
def Faithful (rules : Rules) : Expr → Prop
  | .ident id => rules.prefixRule id.token.kind = some .name ∧ id.name = id.token.literal
  | .int token value =>
    rules.prefixRule token.kind = some .integer ∧ Numeral.read token.literal = .ok value
  | .unary token operator operand =>
    rules.prefixRule token.kind = some .operator ∧ operator = token.literal ∧ operand.Faithful rules
  | .binary token operator left right =>
    rules.infixRule token.kind = some .binary ∧ operator = token.literal ∧
      left.Faithful rules ∧ right.Faithful rules

theorem yield_ne_nil (e : Expr) : e.yield ≠ [] := by
  cases e <;> simp [yield]

theorem mapToken_mapToken (f g : Token → Token) (e : Expr) :
    (e.mapToken f).mapToken g = e.mapToken fun t => g (f t) := by
  induction e with
  | ident | int => rfl
  | unary token operator operand ih => simp [mapToken, ih]
  | binary token operator left right ihl ihr => simp [mapToken, ihl, ihr]

theorem render_mapToken (f : Token → Token) (e : Expr) : (e.mapToken f).render = e.render := by
  induction e with
  | ident | int => rfl
  | unary token operator operand ih => simp [mapToken, render, ih]
  | binary token operator left right ihl ihr => simp [mapToken, render, ihl, ihr]

end Expr

namespace Statement

/-- The tokens of a statement in the order of the source. -/
def yield : Statement → List Token
  | .assignment token name value => name.token :: token :: value.yield
  | .expression _ expr => expr.yield

def mapToken (f : Token → Token) : Statement → Statement
  | .assignment token name value =>
    .assignment (f token) ⟨f name.token, name.name⟩ (value.mapToken f)
  | .expression token expr => .expression (f token) (expr.mapToken f)

/-- The statement with its tokens blanked out. -/
def shape (s : Statement) : Statement := s.mapToken fun _ => .eof .start

/-- An assignment is introduced by a name and `=`, an expression by its first token, and all nodes
stand for what their tokens spell. -/
def Faithful (rules : Rules) : Statement → Prop
  | .assignment token name value =>
    name.token.kind = .ident ∧ name.name = name.token.literal ∧ token.kind = .assign ∧
      value.Faithful rules
  | .expression token expr => expr.yield.head? = some token ∧ expr.Faithful rules

theorem yield_ne_nil (s : Statement) : s.yield ≠ [] := by
  cases s with
  | assignment => simp [yield]
  | expression token expr => exact expr.yield_ne_nil

@[simp] theorem shape_mapToken (f : Token → Token) (s : Statement) :
    (s.mapToken f).shape = s.shape := by
  cases s <;> simp [shape, mapToken, Expr.mapToken_mapToken]

theorem render_mapToken (f : Token → Token) (s : Statement) : (s.mapToken f).render = s.render := by
  cases s <;> simp [mapToken, render, Expr.render_mapToken]

end Statement

namespace Program

/-- The program with its tokens blanked out. -/
def shape (p : Program) : Program := ⟨p.statements.map Statement.shape⟩

/-- Programs of one shape are written alike. -/
theorem render_eq_of_shape_eq {p q : Program} (h : p.shape = q.shape) : p.render = q.render := by
  have hshape (p : Program) : p.shape.render = p.render := by
    simp only [shape, render, List.map_map]
    congr 1
    exact List.map_congr_left fun s _ => Statement.render_mapToken _ s
  rw [← hshape p, h, hshape q]

end Program

end ExprFront
