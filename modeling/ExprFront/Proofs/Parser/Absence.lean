import ExprFront.Proofs.Parser.Statements

/-! What an absent result means. From any state, under any rules without an infix rule for the end
token, a reading that has a result reports nothing, and one that has none reports exactly one fault;
either way the earlier faults stay, and rules and depth are what they were. The faults of the readings
inside it are among these: a fault is handed up as it is, and no reading around it adds another. -/

namespace ExprFront.Parser

/-- How a reading that starts in the state `p` may end: with a result and no new fault, or with no
result and one fault behind the earlier ones. Rules and depth are those of `p`. -/
structure Settles {α : Type} (p : Parser) (r : Option α × Parser) : Prop where
  rules : r.2.rules = p.rules
  depth : r.2.depth = p.depth
  errors_of_some : ∀ a, r.1 = some a → r.2.errors = p.errors
  errors_of_none : r.1 = none → ∃ d, r.2.errors = p.errors ++ [d]

section

variable {α β : Type} {p : Parser}

theorem settles_some (a : α) : p.Settles (some a, p) :=
  ⟨rfl, rfl, fun _ _ => rfl, fun h => absurd h (Option.some_ne_none a)⟩

theorem settles_report (cause : Cause) (token : Token) :
    p.Settles ((none : Option α), p.report cause token) where
  rules := rfl
  depth := rfl
  errors_of_some := fun _ h => absurd h.symm (Option.some_ne_none _)
  errors_of_none := fun _ => ⟨⟨cause, token⟩, by simp [errors, report]⟩

theorem settles_leave (out : Except Diagnostic α) (rest : List Token) :
    p.Settles (p.leave out rest) := by
  cases out with
  | ok a => exact ⟨rfl, rfl, fun _ _ => rfl, fun h => absurd h (Option.some_ne_none a)⟩
  | error d =>
    refine ⟨rfl, rfl, fun _ h => absurd h.symm (Option.some_ne_none _), fun _ => ⟨d, ?_⟩⟩
    simp [leave, errors]

/-- Passing a token before the reading does not show in how it ends. -/
theorem Settles.of_advance {r : Option α × Parser} (h : p.advance.Settles r) : p.Settles r :=
  ⟨h.rules, h.depth, h.errors_of_some, h.errors_of_none⟩

/-- A result may be built into a larger one. -/
theorem Settles.map {r : Option α × Parser} (h : p.Settles r) (f : α → β) :
    p.Settles (r.1.map f, r.2) where
  rules := h.rules
  depth := h.depth
  errors_of_some := fun b hb => by
    obtain ⟨a, ha, -⟩ := Option.map_eq_some_iff.mp hb
    exact h.errors_of_some a ha
  errors_of_none := fun hnone => h.errors_of_none (Option.map_eq_none_iff.mp hnone)

end

/-! ### Readings -/

/-- At the limit nothing is read: the current token is reported, and the parser stays where it is. -/
theorem readExpr_of_maxDepth_le {p : Parser} (h : maxDepth ≤ p.depth) (bp : BindingPower) :
    p.readExpr bp = (none, p.report (.nestingTooDeep maxDepth) p.current) := by
  rw [readExpr, Nat.sub_eq_zero_of_le h]
  rfl

theorem settles_readInteger (p : Parser) : p.Settles p.readInteger := by
  unfold readInteger
  split
  · exact settles_some _
  · exact settles_report _ _

section

variable {p : Parser} (heof : p.rules.infixRule .eof = none)
include heof

theorem settles_readExpr (bp : BindingPower) : p.Settles (p.readExpr bp) := by
  obtain ⟨out, rest, -, hread⟩ := exists_readExpr p heof bp
  rw [hread]
  exact settles_leave out rest

theorem settles_advance_readExpr (bp : BindingPower) : p.Settles (p.advance.readExpr bp) :=
  .of_advance (settles_readExpr (p := p.advance) heof bp)

theorem settles_readUnary : p.Settles (p.readUnary readExpr) := by
  have h := (settles_advance_readExpr heof .unary).map (Expr.unary p.current p.current.literal)
  unfold readUnary
  split <;> simpa [*] using h

theorem settles_readBinary (left : Expr) : p.Settles (p.readBinary readExpr left) := by
  have h := (settles_advance_readExpr heof p.currentPower).map
    (Expr.binary p.current p.current.literal left)
  unfold readBinary
  split <;> simpa [*] using h

theorem settles_readExpression : p.Settles p.readExpression := by
  have h := (settles_readExpr heof .lowest).map (Statement.expression p.current)
  unfold readExpression
  split <;> simpa [*] using h

/-- The token behind the name is looked at before it is passed, so that a missing `=` is the one fault
of an assignment that goes no further. -/
theorem settles_readAssignment : p.Settles p.readAssignment := by
  unfold readAssignment expectPeek
  by_cases hassign : p.peek.kind = .assign
  · have h := Settles.of_advance <| (settles_advance_readExpr (p := p.advance) heof .lowest).map
      (Statement.assignment p.advance.current ⟨p.current, p.current.literal⟩)
    simp only [hassign, if_true]
    split <;> simpa [*] using h
  · simp only [hassign, if_false]
    exact settles_report _ _

theorem settles_readStatement : p.Settles p.readStatement := by
  unfold readStatement
  split
  · exact settles_readAssignment heof
  · exact settles_readExpression heof

end

/-- From any state, with any rules that leave the end token no operator, every reading settles: no
fault with a result, one fault without, and earlier faults, rules and depth kept. An expression that
would be nested deeper than the limit is the fault of the current token, and no token is passed. -/
theorem settles_readings (p : Parser) (heof : p.rules.infixRule .eof = none) (bp : BindingPower)
    (left : Expr) :
    p.Settles (p.readExpr bp) ∧ p.Settles p.readInteger ∧ p.Settles (p.readUnary readExpr) ∧
    p.Settles (p.readBinary readExpr left) ∧ p.Settles p.readAssignment ∧
    p.Settles p.readExpression ∧ p.Settles p.readStatement ∧
    (256 ≤ p.depth → p.readExpr bp =
      (none, { p with faults := ⟨.nestingTooDeep 256, p.current⟩ :: p.faults })) :=
  ⟨settles_readExpr heof bp, p.settles_readInteger, settles_readUnary heof,
    settles_readBinary heof left, settles_readAssignment heof, settles_readExpression heof,
    settles_readStatement heof, fun hdepth => readExpr_of_maxDepth_le hdepth bp⟩

/-- A group that is not closed, with an earlier fault and two levels left. -/
def deepGroup : Parser :=
  { (Parser.ofString "(a+b").registerPrefix .lParen .group with
    faults := [⟨.noPrefixRule .eof "", .eof .start⟩]
    depth := 254 }

/-- The operand behind `+` is too deep by one level: its fault is the only one, although two readings
around it have no result either. Two levels further in not even the group is entered. -/
theorem settles_readings_deepGroup :
    deepGroup.rules.infixRule .eof = none ∧ (deepGroup.readExpr .lowest).1 = none ∧
      (∃ d, (deepGroup.readExpr .lowest).2.errors = deepGroup.errors ++ [d]) ∧
      256 ≤ deepGroup.enter.enter.depth ∧
      deepGroup.enter.enter.readExpr .sum = (none, { deepGroup.enter.enter with
        faults := ⟨.nestingTooDeep 256, deepGroup.current⟩ :: deepGroup.faults }) := by
  have heof : deepGroup.rules.infixRule .eof = none := by decide
  have hnone : (deepGroup.readExpr .lowest).1 = none := by decide +kernel
  have hdepth : 256 ≤ deepGroup.enter.enter.depth := by decide
  have h := settles_readings deepGroup heof .lowest (.int (.eof .start) 0)
  have h' := settles_readings deepGroup.enter.enter heof .sum (.int (.eof .start) 0)
  exact ⟨heof, hnone, h.1.errors_of_none hnone, hdepth, h'.2.2.2.2.2.2.2 hdepth⟩

end ExprFront.Parser
