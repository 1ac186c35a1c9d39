import ExprFront.Precedence.Rules

/-! The rules of the language, read off kind by kind: which kinds start an expression and how, which
stand between operands, and at which of four levels. -/

namespace ExprFront

/-- The kinds of operators between operands. -/
def TokenKind.operators : List TokenKind :=
  [.equal, .notEqual, .less, .greater, .plus, .minus, .star, .slash]

namespace BindingPower

theorem lt_asymm {a b : BindingPower} (h : a < b) : ¬ b < a := Nat.lt_asymm h

theorem lt_of_lt_of_le {a b c : BindingPower} (hab : a < b) (hbc : b ≤ c) : a < c :=
  Nat.lt_of_lt_of_le hab hbc

theorem lt_trans {a b c : BindingPower} (hab : a < b) (hbc : b < c) : a < c :=
  Nat.lt_trans hab hbc

end BindingPower

namespace Rules

theorem standard_prefixRule_eq_name {kind : TokenKind} :
    standard.prefixRule kind = some .name ↔ kind = .ident := by cases kind <;> decide

theorem standard_prefixRule_eq_integer {kind : TokenKind} :
    standard.prefixRule kind = some .integer ↔ kind = .number := by cases kind <;> decide

theorem standard_prefixRule_eq_operator {kind : TokenKind} :
    standard.prefixRule kind = some .operator ↔ kind = .minus ∨ kind = .bang := by
  cases kind <;> decide

theorem standard_prefixRule_eq_none {kind : TokenKind} :
    standard.prefixRule kind = none ↔ kind ∉ [.ident, .number, .bang, .minus] := by
  cases kind <;> decide

theorem standard_prefixRule_ne_group (kind : TokenKind) :
    standard.prefixRule kind ≠ some .group := by cases kind <;> decide

theorem standard_infixRule_eq_binary {kind : TokenKind} :
    standard.infixRule kind = some .binary ↔ kind ∈ TokenKind.operators := by cases kind <;> decide

theorem standard_infixRule_eq_none {kind : TokenKind} :
    standard.infixRule kind = none ↔ kind ∉ TokenKind.operators := by cases kind <;> decide

/-- Every operator binds tighter than the lowest power. -/
theorem standard_lowest_lt_power {kind : TokenKind} (h : kind ∈ TokenKind.operators) :
    BindingPower.lowest < standard.power kind := by
  revert h
  cases kind <;> decide

/-- No operator between operands binds as tight as one before its operand. -/
theorem standard_power_lt_unary (kind : TokenKind) : standard.power kind < BindingPower.unary := by
  cases kind <;> decide

end Rules

end ExprFront
