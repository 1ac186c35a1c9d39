import ExprFront.Token.Kind

/-! Rule tables: what a kind of token means where an expression starts, what it means after an
operand, and how tightly it holds its operands there. -/

namespace ExprFront

/-- How tightly an operator holds its operands, the loosest first. -/
inductive BindingPower where
  | lowest | equals | lessGreater | sum | product | unary | call
  deriving DecidableEq

namespace BindingPower

/-- The place of a power in ascending order. -/
def rank : BindingPower → Nat
  | lowest => 0
  | equals => 1
  | lessGreater => 2
  | sum => 3
  | product => 4
  | unary => 5
  | call => 6

instance : LT BindingPower := ⟨fun a b => a.rank < b.rank⟩

instance : LE BindingPower := ⟨fun a b => a.rank ≤ b.rank⟩

instance (a b : BindingPower) : Decidable (a < b) := inferInstanceAs (Decidable (a.rank < b.rank))

instance (a b : BindingPower) : Decidable (a ≤ b) := inferInstanceAs (Decidable (a.rank ≤ b.rank))

theorem lt_iff_rank {a b : BindingPower} : a < b ↔ a.rank < b.rank := Iff.rfl

theorem not_lt {a b : BindingPower} : ¬ a < b ↔ b ≤ a := Nat.not_lt

end BindingPower

/-! ### Rules -/

/-- How an expression that starts with a token goes on. -/
inductive PrefixRule where
  /-- The token is a name. -/
  | name
  /-- The token is a numeral. -/
  | integer
  /-- The token is an operator before its operand. -/
  | operator
  /-- The token opens a group that a right parenthesis closes. -/
  | group
  deriving DecidableEq

/-- What a token after an operand does with it. -/
inductive InfixRule where
  /-- The token is an operator between two operands. -/
  | binary
  deriving DecidableEq

/-- The rules of a language, one of each sort at most for a kind. -/
structure Rules where
  prefixRule : TokenKind → Option PrefixRule
  infixRule : TokenKind → Option InfixRule
  power? : TokenKind → Option BindingPower

namespace Rules

def empty : Rules := ⟨fun _ => none, fun _ => none, fun _ => none⟩

/-- The rules with a new meaning of a kind at the start of an expression. -/
def registerPrefix (rules : Rules) (kind : TokenKind) (rule : PrefixRule) : Rules :=
  { rules with prefixRule := fun k => if k = kind then some rule else rules.prefixRule k }

/-- The rules with a new meaning and power of a kind after an operand. -/
def registerInfix (rules : Rules) (kind : TokenKind) (power : BindingPower) (rule : InfixRule) :
    Rules :=
  { rules with
    infixRule := fun k => if k = kind then some rule else rules.infixRule k
    power? := fun k => if k = kind then some power else rules.power? k }

/-- The rules of the language. -/
def standard : Rules :=
  empty
    |>.registerInfix .equal .equals .binary
    |>.registerInfix .notEqual .equals .binary
    |>.registerInfix .less .lessGreater .binary
    |>.registerInfix .greater .lessGreater .binary
    |>.registerInfix .plus .sum .binary
    |>.registerInfix .minus .sum .binary
    |>.registerInfix .star .product .binary
    |>.registerInfix .slash .product .binary
    |>.registerPrefix .ident .name
    |>.registerPrefix .number .integer
    |>.registerPrefix .bang .operator
    |>.registerPrefix .minus .operator

/-- The power of a kind after an operand, the lowest when it is no operator. -/
def power (rules : Rules) (kind : TokenKind) : BindingPower := (rules.power? kind).getD .lowest

def prefixCount (rules : Rules) : Nat :=
  TokenKind.all.countP fun kind => (rules.prefixRule kind).isSome

def infixCount (rules : Rules) : Nat :=
  TokenKind.all.countP fun kind => (rules.infixRule kind).isSome

end Rules

end ExprFront
