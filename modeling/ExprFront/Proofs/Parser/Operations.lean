import ExprFront.Proofs.Precedence.Registration

/-! A parser in use: its operations in any order, with any arguments. What one operation does is one
of four things. Most of them only pass tokens and report faults; the others enter a level, leave one,
or change the rules. So a parser never goes back in its text nor takes a fault back, the depth is
whatever was entered and left from outside, and what binds is always an operator. -/

namespace ExprFront

/-- The tokens of a text by their number; behind the last one comes the end token forever. -/
def tokenAt (source : String) (k : Nat) : Token :=
  (tokenize source).getD k ((tokenize source).getLastD (.eof .start))

theorem tokenAt_eq (source : String) (k : Nat) :
    tokenAt source k =
      Parser.front (Scanner.ofString source).finish ((Scanner.ofString source).tokens.drop k) := by
  rw [tokenAt, tokenize_eq, List.getLastD_concat]
  generalize (Scanner.ofString source).tokens = ts
  induction ts generalizing k with
  | nil => cases k <;> rfl
  | cons t ts ih =>
    cases k with
    | zero => rfl
    | succ k => exact ih k

namespace Parser

/-- A use of a parser. What it returns is not looked at, only the state that it leaves. -/
inductive Operation where
  | advance
  | expectPeek (kind : TokenKind)
  | enter
  | exit
  | report (cause : Cause) (token : Token)
  | register (registration : Registration)
  | readExpr (bp : BindingPower)
  | readName
  | readInteger
  | readUnary
  | readBinary (left : Expr)
  | readStatement
  | readAssignment
  | readExpression
  | readProgram

/-- The state after an operation. -/
def run (p : Parser) : Operation → Parser
  | .advance => p.advance
  | .expectPeek kind => (p.expectPeek kind).2
  | .enter => p.enter
  | .exit => p.exit
  | .report cause token => p.report cause token
  | .register registration => p.register registration
  | .readExpr bp => (p.readExpr bp).2
  | .readName => p.readName.2
  | .readInteger => p.readInteger.2
  | .readUnary => (p.readUnary Parser.readExpr).2
  | .readBinary left => (p.readBinary Parser.readExpr left).2
  | .readStatement => p.readStatement.2
  | .readAssignment => p.readAssignment.2
  | .readExpression => p.readExpression.2
  | .readProgram => p.readProgram.2

/-- The state of a parser over the text after operations, the first of the list first. -/
def reached (source : String) (ops : List Operation) : Parser :=
  ops.foldl run (Parser.ofString source)

theorem reached_concat (source : String) (ops : List Operation) (op : Operation) :
    reached source (ops ++ [op]) = (reached source ops).run op := List.foldl_concat ..

/-! ### Passing tokens and reporting faults -/

/-- `q` is `p` after some tokens were passed and some faults reported; nothing else has changed. -/
structure Proceeds (p q : Parser) : Prop where
  ahead : q.ahead <:+ p.ahead
  faults : p.faults <:+ q.faults
  finish : q.finish = p.finish
  rules : q.rules = p.rules
  depth : q.depth = p.depth

namespace Proceeds

theorem refl (p : Parser) : p.Proceeds p := ⟨List.suffix_refl _, List.suffix_refl _, rfl, rfl, rfl⟩

theorem trans {p q r : Parser} (hpq : p.Proceeds q) (hqr : q.Proceeds r) : p.Proceeds r :=
  ⟨hqr.ahead.trans hpq.ahead, hpq.faults.trans hqr.faults, hqr.finish.trans hpq.finish,
    hqr.rules.trans hpq.rules, hqr.depth.trans hpq.depth⟩

end Proceeds

theorem proceeds_advance (p : Parser) : p.Proceeds p.advance :=
  ⟨List.tail_suffix _, List.suffix_refl _, rfl, rfl, rfl⟩

theorem proceeds_report (p : Parser) (cause : Cause) (token : Token) :
    p.Proceeds (p.report cause token) :=
  ⟨List.suffix_refl _, List.suffix_cons _ _, rfl, rfl, rfl⟩

theorem proceeds_expectPeek (p : Parser) (kind : TokenKind) :
    p.Proceeds (p.expectPeek kind).2 := by
  unfold expectPeek
  split
  · exact p.proceeds_advance
  · exact p.proceeds_report _ _

theorem proceeds_leave {α : Type} (p : Parser) (out : Except Diagnostic α) {rest : List Token}
    (hrest : rest <:+ p.ahead) : p.Proceeds (p.leave out rest).2 := by
  cases out with
  | ok a => exact ⟨hrest, List.suffix_refl _, rfl, rfl, rfl⟩
  | error d => exact ⟨hrest, List.suffix_cons _ _, rfl, rfl, rfl⟩

theorem proceeds_readInteger (p : Parser) : p.Proceeds p.readInteger.2 := by
  unfold readInteger
  split
  · exact .refl p
  · exact p.proceeds_report _ _

section Reading

variable {p : Parser} (heof : p.rules.infixRule .eof = none)
include heof

theorem proceeds_readExpr (bp : BindingPower) : p.Proceeds (p.readExpr bp).2 := by
  obtain ⟨out, rest, h, hread⟩ := exists_readExpr p heof bp
  rw [hread]
  exact p.proceeds_leave out h.suffix

/-- An expression behind the current token. -/
theorem proceeds_advance_readExpr (bp : BindingPower) :
    p.Proceeds (p.advance.readExpr bp).2 :=
  p.proceeds_advance.trans (proceeds_readExpr (p := p.advance) heof bp)

theorem proceeds_readUnary : p.Proceeds (p.readUnary readExpr).2 := by
  have hoperand := proceeds_advance_readExpr heof .unary
  unfold readUnary
  split <;> simpa [*] using hoperand

theorem proceeds_readBinary (left : Expr) : p.Proceeds (p.readBinary readExpr left).2 := by
  have hright := proceeds_advance_readExpr heof p.currentPower
  unfold readBinary
  split <;> simpa [*] using hright

theorem proceeds_readExpression : p.Proceeds p.readExpression.2 := by
  have hexpr := proceeds_readExpr heof .lowest
  unfold readExpression
  split <;> simpa [*] using hexpr

theorem proceeds_readAssignment : p.Proceeds p.readAssignment.2 := by
  have hname := p.proceeds_expectPeek .assign
  unfold readAssignment
  split
  · simpa [*] using hname
  · rename_i q hassign
    rw [hassign] at hname
    have hvalue := hname.trans (proceeds_advance_readExpr (p := q) (hname.rules ▸ heof) .lowest)
    split <;> simpa [*] using hvalue

theorem proceeds_readStatement : p.Proceeds p.readStatement.2 := by
  unfold readStatement
  split
  · exact proceeds_readAssignment heof
  · exact proceeds_readExpression heof

theorem proceeds_readProgram (hkind : ∀ t ∈ p.ahead, t.kind ≠ .eof) :
    p.Proceeds p.readProgram.2 := by
  obtain ⟨outs, -, hread⟩ := exists_readProgram p heof hkind
  rw [hread]
  exact ⟨List.nil_suffix, List.suffix_append _ _, rfl, rfl, rfl⟩

end Reading

/-! ### Reachable states -/

/-- A state of a parser over the text: some tokens of the text are ahead, down to the last, and the
rules are regular. Faults and depth are free. -/
structure Over (source : String) (p : Parser) : Prop where
  ahead : p.ahead <:+ (Scanner.ofString source).tokens
  finish : p.finish = (Scanner.ofString source).finish
  rules : p.rules.Regular

variable {source : String} {p q : Parser}

theorem over_ofString (source : String) : (Parser.ofString source).Over source :=
  ⟨List.suffix_refl _, rfl, Rules.standard_regular⟩

theorem Over.kind_ne_eof (hp : p.Over source) : ∀ t ∈ p.ahead, t.kind ≠ .eof :=
  fun _ ht => Scanner.kind_ne_eof_of_mem_tokens (hp.ahead.subset ht)

theorem Over.proceeds (hp : p.Over source) (h : p.Proceeds q) : q.Over source :=
  ⟨h.ahead.trans hp.ahead, h.finish.trans hp.finish, h.rules ▸ hp.rules⟩

/-- All that an operation can do. -/
theorem Over.run_cases (hp : p.Over source) (op : Operation) :
    p.Proceeds (p.run op) ∨ op = .enter ∧ p.run op = p.enter ∨ op = .exit ∧ p.run op = p.exit ∨
      ∃ registration, op = .register registration ∧
        p.run op = { p with rules := p.rules.register registration } := by
  have heof := hp.rules.infixRule_eof
  cases op with
  | advance => exact .inl p.proceeds_advance
  | expectPeek kind => exact .inl (p.proceeds_expectPeek kind)
  | enter => exact .inr (.inl ⟨rfl, rfl⟩)
  | exit => exact .inr (.inr (.inl ⟨rfl, rfl⟩))
  | report cause token => exact .inl (p.proceeds_report cause token)
  | register registration => exact .inr (.inr (.inr ⟨_, rfl, p.register_eq registration⟩))
  | readExpr bp => exact .inl (proceeds_readExpr heof bp)
  | readName => exact .inl (.refl p)
  | readInteger => exact .inl p.proceeds_readInteger
  | readUnary => exact .inl (proceeds_readUnary heof)
  | readBinary left => exact .inl (proceeds_readBinary heof left)
  | readStatement => exact .inl (proceeds_readStatement heof)
  | readAssignment => exact .inl (proceeds_readAssignment heof)
  | readExpression => exact .inl (proceeds_readExpression heof)
  | readProgram => exact .inl (proceeds_readProgram heof hp.kind_ne_eof)

theorem Over.run (hp : p.Over source) (op : Operation) : (p.run op).Over source := by
  obtain h | ⟨-, h⟩ | ⟨-, h⟩ | ⟨registration, -, h⟩ := hp.run_cases op
  · exact hp.proceeds h
  · exact h ▸ ⟨hp.ahead, hp.finish, hp.rules⟩
  · exact h ▸ ⟨hp.ahead, hp.finish, hp.rules⟩
  · exact h ▸ ⟨hp.ahead, hp.finish, hp.rules.register registration⟩

/-- Every use of a parser leaves it in a state over its text. -/
theorem over_reached (source : String) (ops : List Operation) :
    (reached source ops).Over source := by
  induction ops using List.reverseRecOn with
  | nil => exact over_ofString source
  | append_singleton ops op ih => exact reached_concat source ops op ▸ ih.run op

/-- No operation goes back, in the text or in the faults. -/
theorem Over.suffix_run (hp : p.Over source) (op : Operation) :
    (p.run op).ahead <:+ p.ahead ∧ p.faults <:+ (p.run op).faults := by
  obtain h | ⟨-, h⟩ | ⟨-, h⟩ | ⟨registration, -, h⟩ := hp.run_cases op
  · exact ⟨h.ahead, h.faults⟩
  all_goals
    rw [h]
    exact ⟨List.suffix_refl _, List.suffix_refl _⟩

theorem Over.depth_run (hp : p.Over source) {op : Operation} (henter : op ≠ .enter)
    (hexit : op ≠ .exit) : (p.run op).depth = p.depth := by
  obtain h | ⟨h, -⟩ | ⟨h, -⟩ | ⟨registration, -, h⟩ := hp.run_cases op
  · exact h.depth
  · exact absurd h henter
  · exact absurd h hexit
  · rw [h]

theorem Over.rules_run (hp : p.Over source) {op : Operation}
    (hop : ∀ registration, op ≠ .register registration) : (p.run op).rules = p.rules := by
  obtain h | ⟨-, h⟩ | ⟨-, h⟩ | ⟨registration, h, -⟩ := hp.run_cases op
  · exact h.rules
  · rw [h]; rfl
  · rw [h]; rfl
  · exact absurd h (hop registration)

/-- The number of tokens that have been passed. -/
def passed (source : String) (p : Parser) : Nat :=
  (Scanner.ofString source).tokens.length - p.ahead.length

/-- The window is where the tokens passed have led it. -/
theorem Over.window (hp : p.Over source) :
    p.current = tokenAt source (p.passed source) ∧
      p.peek = tokenAt source (p.passed source + 1) := by
  have hahead : (Scanner.ofString source).tokens.drop (p.passed source) = p.ahead :=
    (List.suffix_iff_eq_drop.mp hp.ahead).symm
  rw [tokenAt_eq, tokenAt_eq, ← List.tail_drop, hahead, ← hp.finish]
  exact ⟨rfl, rfl⟩

/-- However a parser is used, there is a number of tokens passed, which never goes down, and the
window shows the two tokens behind them. Earlier faults stay, the depth changes only where a level is
entered or left from outside, and the rules only where one is registered. An operator is a kind that
has a power, so that folding never meets a token that binds tighter and has no rule. -/
theorem exists_passed (source : String) :
    ∃ passed : List Operation → Nat, ∀ ops : List Operation,
      (reached source ops).current = tokenAt source (passed ops) ∧
      (reached source ops).peek = tokenAt source (passed ops + 1) ∧
      (∀ kind, (reached source ops).rules.infixRule kind = none ↔
        (reached source ops).rules.power? kind = none) ∧
      (∀ kind bp, bp < (reached source ops).rules.power kind →
        (reached source ops).rules.infixRule kind ≠ none) ∧
      ∀ op : Operation,
        passed ops ≤ passed (ops ++ [op]) ∧
        (reached source ops).errors <+: (reached source (ops ++ [op])).errors ∧
        (op ≠ .enter → op ≠ .exit →
          (reached source (ops ++ [op])).depth = (reached source ops).depth) ∧
        ((∀ registration, op ≠ .register registration) →
          (reached source (ops ++ [op])).rules = (reached source ops).rules) := by
  refine ⟨fun ops => (reached source ops).passed source, fun ops => ?_⟩
  have hp := over_reached source ops
  refine ⟨hp.window.1, hp.window.2, hp.rules.infixRule_eq_none_iff,
    fun kind bp hbp => hp.rules.infixRule_ne_none hbp, fun op => ?_⟩
  simp only [reached_concat]
  obtain ⟨hahead, hfaults⟩ := hp.suffix_run op
  exact ⟨Nat.sub_le_sub_left hahead.length_le _, List.reverse_prefix.mpr hfaults, hp.depth_run,
    hp.rules_run⟩

end Parser

end ExprFront
