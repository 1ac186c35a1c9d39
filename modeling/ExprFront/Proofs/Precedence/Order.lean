import ExprFront.Proofs.Parser.Accounting

/-! Precedence and depth of the trees that are read. In such a tree the operators on the left bind at
least as tight as the one they stand under, those on the right and those behind a sign bind tighter,
and the tree needs no more levels than the reader was given. Conversely the tokens of every tree of
this kind are read back to it. -/

namespace ExprFront

namespace Expr

/-- The power of the operator on top, if the tree is an operation on two operands. -/
def top (power : TokenKind → BindingPower) : Expr → Option BindingPower
  | .binary token _ _ _ => some (power token.kind)
  | _ => none

/-- Operators bind as their places in the tree demand. -/
def Ordered (power : TokenKind → BindingPower) : Expr → Prop
  | .ident _ | .int _ _ => True
  | .unary _ _ operand => (∀ q ∈ operand.top power, BindingPower.unary < q) ∧ operand.Ordered power
  | .binary token _ left right =>
    (∀ q ∈ left.top power, power token.kind ≤ q) ∧ (∀ q ∈ right.top power, power token.kind < q) ∧
      left.Ordered power ∧ right.Ordered power

/-- The levels that reading the tree takes. Operands on the right are one level below their
operator, those on the left are not. -/
def need : Expr → Nat
  | .ident _ | .int _ _ => 1
  | .unary _ _ operand => 1 + operand.need
  | .binary _ _ left right => max left.need (1 + right.need)

/-- The token that a reading of the tree ends on. -/
def last : Expr → Token
  | .ident id => id.token
  | .int token _ => token
  | .unary _ _ operand => operand.last
  | .binary _ _ _ right => right.last

theorem need_pos (e : Expr) : 0 < e.need := by
  cases e <;> simp only [need] <;> omega

theorem need_mapToken (f : Token → Token) (e : Expr) : (e.mapToken f).need = e.need := by
  induction e with
  | ident | int => rfl
  | unary token operator operand ih => simp [mapToken, need, ih]
  | binary token operator left right ihl ihr => simp [mapToken, need, ihl, ihr]

end Expr

/-- The expression of a statement. -/
def Statement.body : Statement → Expr
  | .assignment _ _ value => value
  | .expression _ expr => expr

namespace Parser

variable {rules : Rules} {finish : Position} {task : Task} {ts rest : List Token}
  {out : Except Diagnostic Expr}

theorem Stops.mono {bp q : BindingPower} (h : Stops rules finish bp ts) (hlt : bp < q) :
    Stops rules finish q ts := by
  refine h.imp_left fun hpower hq => hpower ?_
  exact BindingPower.lt_trans hlt hq

/-! ### What is read is ordered -/

/-- How the operator on top of an outcome binds: tighter than the power it was read at. The start of
an expression is no operation on two operands. -/
def Task.Bounds (power : TokenKind → BindingPower) (task : Task) (e : Expr) : Prop :=
  match task with
  | .expr _ bp | .fold _ bp _ => ∀ q ∈ e.top power, bp < q
  | .operand _ => e.top power = none

/-- What folding asks of the operand read before: its operator binds tighter than the power of the
loop, and is not bound tighter by what comes next. -/
def Task.Ready (rules : Rules) (finish : Position) (task : Task) (ts : List Token) : Prop :=
  match task with
  | .expr _ _ | .operand _ => True
  | .fold _ bp left =>
    left.Ordered rules.power ∧ ∀ q ∈ left.top rules.power, bp < q ∧ Stops rules finish q ts

theorem Reads.ordered (hgroup : ∀ kind, rules.prefixRule kind ≠ some .group) {e : Expr}
    (h : Reads rules finish task ts out rest) (hout : out = .ok e)
    (hready : task.Ready rules finish ts) : e.Ordered rules.power ∧ task.Bounds rules.power e := by
  induction h generalizing e with
  | tooDeep | noOperand | noRule | badInteger | groupFault | unclosed | noRight => cases hout
  | @expr n bp ts mid rest left out _ _ ihl ihf =>
    obtain ⟨hordered, htop⟩ := ihl rfl trivial
    exact ihf hout ⟨hordered, by simp [show left.top rules.power = none from htop]⟩
  | name | integer =>
    cases hout
    exact ⟨trivial, rfl⟩
  | unary _ _ ih =>
    obtain ⟨operand, rfl, rfl⟩ := map_eq_ok hout
    obtain ⟨hordered, htop⟩ := ih rfl trivial
    exact ⟨⟨htop, hordered⟩, rfl⟩
  | group hrule => exact absurd hrule (hgroup _)
  | stop =>
    cases hout
    obtain ⟨hordered, htop⟩ := hready
    exact ⟨hordered, fun q hq => (htop q hq).1⟩
  | @binary n bp ts mid rest left right out hbp hrule hr _ ihr ihf =>
    obtain ⟨hleft, hltop⟩ := hready
    obtain ⟨hright, hrtop⟩ := ihr rfl trivial
    refine ihf hout ⟨⟨fun q hq => ?_, hrtop, hleft, hright⟩, fun q hq => ?_⟩
    · -- the operator on the left was not bound tighter, although there is a rule for the next one
      rcases (hltop q hq).2 with hpower | hnone
      · exact BindingPower.not_lt.mp hpower
      · rw [hrule] at hnone
        cases hnone
    · cases hq
      exact ⟨hbp, hr.stops rfl⟩

/-- What is read needs no more levels than there were. -/
theorem Reads.need_le {e : Expr} (h : Reads rules finish task ts out rest) (hout : out = .ok e) :
    match task with
    | .expr n _ => e.need ≤ n
    | .operand n => e.need ≤ n + 1
    | .fold n _ left => left.need ≤ n + 1 → e.need ≤ n + 1 := by
  induction h generalizing e with
  | tooDeep | noOperand | noRule | badInteger | groupFault | unclosed | noRight => cases hout
  | expr _ _ ihl ihf => exact ihf hout (ihl rfl)
  | name | integer =>
    cases hout
    exact Nat.le_add_left _ _
  | @unary n ts rest out _ _ ih =>
    obtain ⟨operand, rfl, rfl⟩ := map_eq_ok hout
    have hoperand : operand.need ≤ n := ih rfl
    simp only [Expr.need]
    omega
  | group _ _ _ ih => exact Nat.le_succ_of_le (ih hout)
  | stop =>
    cases hout
    exact id
  | @binary n bp ts mid rest left right out _ _ _ _ ihr ihf =>
    intro hleft
    have hright : right.need ≤ n := ihr rfl
    refine ihf hout ?_
    simp only [Expr.need]
    omega

/-- The expression of a statement is read from the tokens behind its start. -/
theorem ReadsStatement.exists_reads {levels : Nat} {sout : Except Diagnostic Statement}
    {s : Statement} (h : ReadsStatement rules finish levels ts sout rest) (hout : sout = .ok s) :
    ∃ us, Reads rules finish (.expr levels .lowest) us (.ok s.body) rest := by
  cases h with
  | assignment _ _ h | expression _ h =>
    obtain ⟨e, rfl, rfl⟩ := map_eq_ok hout
    exact ⟨_, h⟩

/-- All expressions of a program are ordered, and need no more levels than there are. -/
theorem ReadsProgram.ordered (hgroup : ∀ kind, rules.prefixRule kind ≠ some .group) {levels : Nat}
    {outs : List (Except Diagnostic Statement)} (h : ReadsProgram rules finish levels ts outs) :
    ∀ s ∈ statementsOf outs, s.body.Ordered rules.power ∧ s.body.need ≤ levels := by
  induction h with
  | nil => simp [statementsOf]
  | @cons ts rest out outs _ h _ ih =>
    cases out with
    | error d => exact ih
    | ok s =>
      refine List.forall_mem_cons.mpr ⟨?_, ih⟩
      obtain ⟨us, hreads⟩ : ∃ us, Reads rules finish (.expr levels .lowest) us (.ok s.body) rest :=
        h.exists_reads rfl
      exact ⟨(hreads.ordered hgroup rfl trivial).1, hreads.need_le rfl⟩

/-! ### What is ordered is read -/

/-- The tokens of an ordered tree are read to the tree, and folding goes on with what comes behind
them. -/
theorem reads_yield (hunary : ∀ kind, ¬ BindingPower.unary < rules.power kind) {e : Expr}
    {n : Nat} {bp : BindingPower} {tail : List Token} (hf : e.Faithful rules)
    (ho : e.Ordered rules.power) (hneed : e.need ≤ n + 1)
    (htop : ∀ q ∈ e.top rules.power, bp < q ∧ Stops rules finish q (e.last :: tail))
    (hfold : Reads rules finish (.fold n bp e) (e.last :: tail) out rest) :
    Reads rules finish (.expr (n + 1) bp) (e.yield ++ tail) out rest := by
  induction e generalizing n bp tail out rest with
  | ident id =>
    obtain ⟨token, name⟩ := id
    obtain ⟨hrule, hname⟩ := hf
    dsimp only at hname
    subst hname
    exact .expr (.name hrule) hfold
  | int token value => exact .expr (.integer hf.1 hf.2) hfold
  | unary token operator operand ih =>
    obtain ⟨hrule, rfl, hf⟩ := hf
    have hpos := operand.need_pos
    simp only [Expr.need] at hneed
    obtain ⟨m, rfl⟩ : ∃ m, n = m + 1 := ⟨n - 1, by omega⟩
    have hstop : Stops rules finish .unary (operand.last :: tail) := .inl (hunary _)
    have hoperand : Reads rules finish (.expr (m + 1) .unary) (operand.yield ++ tail) (.ok operand)
        (operand.last :: tail) :=
      ih hf ho.2 (by omega) (fun q hq => ⟨ho.1 q hq, hstop.mono (ho.1 q hq)⟩) (.stop hstop)
    have hsign : Reads rules finish (.operand (m + 1)) (token :: (operand.yield ++ tail)) _ _ :=
      .unary hrule hoperand
    exact .expr hsign hfold
  | binary token operator left right ihl ihr =>
    obtain ⟨hrule, rfl, hfl, hfr⟩ := hf
    obtain ⟨hltop, hrtop, hol, hor⟩ := ho
    obtain ⟨hbp, hstop⟩ := htop _ rfl
    have hpos := right.need_pos
    simp only [Expr.need] at hneed
    obtain ⟨m, rfl⟩ : ∃ m, n = m + 1 := ⟨n - 1, by omega⟩
    have hright : Reads rules finish (.expr (m + 1) (rules.power token.kind)) (right.yield ++ tail)
        (.ok right) (right.last :: tail) :=
      ihr hfr hor (by omega) (fun q hq => ⟨hrtop q hq, hstop.mono (hrtop q hq)⟩) (.stop hstop)
    rw [Expr.yield, List.append_assoc, List.cons_append]
    refine ihl hfl hol (by omega) (fun q hq => ?_) (.binary hbp hrule hright hfold)
    have hle := hltop q hq
    exact ⟨BindingPower.lt_of_lt_of_le hbp hle, .inl (BindingPower.not_lt.mpr hle)⟩

end Parser

end ExprFront
