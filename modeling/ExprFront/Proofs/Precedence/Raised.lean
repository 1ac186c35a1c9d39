import ExprFront.Proofs.Precedence.Registration

/-! Expressions read at a higher power. Two readings from the same place that differ in the power
alone go together until the one at the higher power stops; what the other folds after that stands
above what the first has read. The operators of these folds bind no tighter than the higher power.
No test says so: it is because an operand on the right stops only before an operator that binds no
tighter than the one it stands behind, so that the powers of one loop never go up. -/

namespace ExprFront

/-- `Reaches P e f`: from `e` one comes to `f` by left operands only, and the operators left behind
on the way satisfy `P`. -/
inductive Expr.Reaches (P : Token → Prop) (e : Expr) : Expr → Prop where
  | refl : e.Reaches P e
  | left {token : Token} {operator : String} {left right : Expr} :
      e.Reaches P (.binary token operator left right) → P token → e.Reaches P left

/-- The token is registered as an operator above the power `lo`, and not above `hi`. -/
def Rules.BindsWithin (rules : Rules) (lo hi : BindingPower) (token : Token) : Prop :=
  ∃ power, rules.power? token.kind = some power ∧ lo < power ∧ power ≤ hi

theorem Rules.bindsWithin_of_lt {rules : Rules} {lo hi : BindingPower} {token : Token}
    (hlo : lo < rules.power token.kind) (hhi : rules.power token.kind ≤ hi) :
    rules.BindsWithin lo hi token := by
  unfold Rules.power at hlo hhi
  cases hpower : rules.power? token.kind with
  | none =>
    rw [hpower] at hlo
    exact absurd hlo (Nat.not_lt_zero _)
  | some power =>
    rw [hpower] at hlo hhi
    exact ⟨power, hpower, hlo, hhi⟩

namespace Parser

variable {rules : Rules} {finish : Position} {task : Task} {ts rest : List Token}
  {out : Except Diagnostic Expr} {lo hi : BindingPower}

theorem Stops.of_le (h : Stops rules finish lo ts) (hle : lo ≤ hi) : Stops rules finish hi ts := by
  refine h.imp_left fun hpower hhi => hpower ?_
  exact Nat.lt_of_le_of_lt hle hhi

/-- An operator that has a rule and stops folding does not bind tighter. -/
theorem le_of_stops {rule : InfixRule} (h : Stops rules finish hi ts)
    (hrule : rules.infixRule (front finish ts.tail).kind = some rule) :
    rules.power (front finish ts.tail).kind ≤ hi := by
  rcases h with hpower | hnone
  · exact BindingPower.not_lt.mp hpower
  · rw [hrule] at hnone
    cases hnone

/-- Folding that goes on where it would stop at a higher power: everything it takes binds no tighter
than that power, and it leads back to where it started by left operands. -/
theorem Reads.reaches {e : Expr} (h : Reads rules finish task ts out rest) (hout : out = .ok e) :
    match task with
    | .fold _ lo left => ∀ hi, Stops rules finish hi ts → e.Reaches (rules.BindsWithin lo hi) left
    | .expr _ _ | .operand _ => True := by
  induction h with
  | tooDeep | noOperand | expr | noRule | name | integer | badInteger | unary | groupFault
  | unclosed | group => trivial
  | stop =>
    cases hout
    exact fun _ _ => .refl
  | noRight => cases hout
  | binary hbp hrule hr _ _ ihf =>
    intro hi hstop
    have hle := le_of_stops hstop hrule
    exact .left (ihf hout hi ((hr.stops rfl).of_le hle)) (Rules.bindsWithin_of_lt hbp hle)

/-- Two outcomes of readings from the same place: they are the same, or the second is an expression
that the first, if it is one, leads to by left operands whose operators satisfy `P`. -/
def Shortens (P : Token → Prop) (out : Except Diagnostic Expr) (rest : List Token)
    (out' : Except Diagnostic Expr) (rest' : List Token) : Prop :=
  out' = out ∧ rest' = rest ∨ ∃ f, out' = .ok f ∧ ∀ e, out = .ok e → e.Reaches P f

/-- At a higher power a reading has an outcome that shortens the one at the lower power. -/
theorem Reads.shortens (h : Reads rules finish task ts out rest) :
    match task with
    | .expr n lo => ∀ hi, lo < hi → ∃ out' rest', Reads rules finish (.expr n hi) ts out' rest' ∧
        Shortens (rules.BindsWithin lo hi) out rest out' rest'
    | .fold n lo left => ∀ hi, lo < hi →
        ∃ out' rest', Reads rules finish (.fold n hi left) ts out' rest' ∧
          Shortens (rules.BindsWithin lo hi) out rest out' rest'
    | .operand _ => True := by
  induction h with
  | tooDeep => exact fun hi _ => ⟨_, _, .tooDeep, .inl ⟨rfl, rfl⟩⟩
  | noOperand h => exact fun hi _ => ⟨_, _, .noOperand h, .inl ⟨rfl, rfl⟩⟩
  | expr hl _ _ ihf =>
    intro hi hlt
    obtain ⟨out', rest', hfold, hshort⟩ := ihf hi hlt
    exact ⟨out', rest', .expr hl hfold, hshort⟩
  | noRule | name | integer | badInteger | unary | groupFault | unclosed | group => trivial
  | stop hstop => exact fun hi hlt => ⟨_, _, .stop (hstop.mono hlt), .inl ⟨rfl, rfl⟩⟩
  | @noRight n lo ts rest left d hbp hrule hr =>
    intro hi hlt
    by_cases hhi : hi < rules.power (front finish ts.tail).kind
    · exact ⟨_, _, .noRight hhi hrule hr, .inl ⟨rfl, rfl⟩⟩
    · refine ⟨_, _, .stop (.inl hhi), .inr ⟨_, rfl, ?_⟩⟩
      rintro e ⟨⟩
  | @binary n lo ts mid rest left right out hbp hrule hr hf _ ihf =>
    intro hi hlt
    by_cases hhi : hi < rules.power (front finish ts.tail).kind
    · -- both readings fold this operator, and then they are where they were, one operator on
      obtain ⟨out', rest', hfold, hshort⟩ := ihf hi hlt
      exact ⟨out', rest', .binary hhi hrule hr hfold, hshort⟩
    · refine ⟨_, _, .stop (.inl hhi), .inr ⟨_, rfl, fun e hout => ?_⟩⟩
      exact (Reads.binary hbp hrule hr hf).reaches hout hi (.inl hhi)

/-- Raising the power at which an expression is read only makes the reading stop earlier. If nothing
can be read at the higher power, the reading at the lower one comes to the same end. If there is an
expression at the lower power, the one at the higher power is found in it by going down left
operands, past operators that were registered above the lower power and not above the higher one. -/
theorem readExpr_of_lt (p : Parser) (heof : p.rules.infixRule .eof = none) (hlt : lo < hi) :
    ((p.readExpr hi).1 = none → p.readExpr lo = p.readExpr hi) ∧
    ∀ e, (p.readExpr lo).1 = some e →
      ∃ f, (p.readExpr hi).1 = some f ∧ e.Reaches (p.rules.BindsWithin lo hi) f := by
  obtain ⟨out, rest, h, hlo⟩ := exists_readExpr p heof lo
  obtain ⟨out', rest', h', hshort⟩ := h.shortens hi hlt
  have hhi : p.readExpr hi = p.leave out' rest' :=
    h'.run_eq heof p.faults p.depth p.ahead (Nat.le_refl _)
  rw [hlo, hhi]
  rcases hshort with ⟨rfl, rfl⟩ | ⟨f, rfl, hreaches⟩
  · exact ⟨fun _ => rfl, fun e he => ⟨e, he, .refl⟩⟩
  · refine ⟨fun hnone => absurd hnone (Option.some_ne_none f), fun e he => ?_⟩
    have hout : out = .ok e := by
      cases out with
      | ok a => cases he; rfl
      | error d => cases he
    exact ⟨f, rfl, hreaches e hout⟩

/-- A parser for which `%` binds tightest, in front of a chain of three operators. -/
def downwardChain : Parser :=
  (Parser.ofString "a%b+c==d").registerAll (tightPercent.map .between)

/-- At the power of `+` the reading stops in front of it, below two operators that the reading at the
lowest power goes on to fold. -/
theorem readExpr_of_lt_sum :
    ∃ e f, (downwardChain.readExpr .lowest).1 = some e ∧ e.render = "a%b+c==d" ∧
      (downwardChain.readExpr .sum).1 = some f ∧ f.render = "a%b" ∧
      e.Reaches (downwardChain.rules.BindsWithin .lowest .sum) f := by
  have hlo : (downwardChain.readExpr .lowest).1.map Expr.render = some "a%b+c==d" := by
    decide +kernel
  have hhi : (downwardChain.readExpr .sum).1.map Expr.render = some "a%b" := by decide +kernel
  have hlt : BindingPower.lowest < .sum := by decide
  obtain ⟨e, he, hrender⟩ := Option.map_eq_some_iff.mp hlo
  obtain ⟨f, hf, hreaches⟩ := (readExpr_of_lt downwardChain (by decide) hlt).2 e he
  rw [hf, Option.map_some, Option.some.injEq] at hhi
  exact ⟨e, f, he, hrender, hf, hhi, hreaches⟩

end Parser

end ExprFront
