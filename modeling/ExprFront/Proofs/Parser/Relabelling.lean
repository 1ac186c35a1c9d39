import ExprFront.Proofs.Parser.Accounting

/-! Reading does not look at places, nor at how a number is written. A relabelling exchanges tokens
for tokens of the same kind, and of the same text unless both are numerals of one value. The outcome
of relabelled tokens is the relabelled outcome, so that texts which are alike after a relabelling are
read alike. -/

namespace ExprFront

/-- The diagnostic with another token; the cause stays. -/
def Diagnostic.mapToken (f : Token → Token) (d : Diagnostic) : Diagnostic := ⟨d.cause, f d.token⟩

namespace Parser

/-- Exchanges tokens in a way that reading does not notice. -/
structure Relabels (rules : Rules) (f : Token → Token) : Prop where
  kind : ∀ t, (f t).kind = t.kind
  literal : ∀ t, (f t).literal = t.literal ∨
    t.kind = .number ∧ rules.prefixRule .number = some .integer ∧
      rules.infixRule .number = none ∧
      ∃ value, Numeral.read t.literal = .ok value ∧ Numeral.read (f t).literal = .ok value

namespace Relabels

variable {rules : Rules} {f : Token → Token} {t : Token}

theorem literal_of_ne_number (hf : Relabels rules f) (hkind : t.kind ≠ .number) :
    (f t).literal = t.literal := by
  rcases hf.literal t with h | ⟨hnumber, -⟩
  · exact h
  · exact absurd hnumber hkind

theorem literal_of_prefixRule (hf : Relabels rules f)
    (hrule : rules.prefixRule t.kind ≠ some .integer) : (f t).literal = t.literal := by
  rcases hf.literal t with h | ⟨hnumber, hinteger, -⟩
  · exact h
  · rw [hnumber] at hrule
    exact absurd hinteger hrule

theorem literal_of_infixRule (hf : Relabels rules f) (hrule : rules.infixRule t.kind ≠ none) :
    (f t).literal = t.literal := by
  rcases hf.literal t with h | ⟨hnumber, -, hnone, -⟩
  · exact h
  · rw [hnumber] at hrule
    exact absurd hnone hrule

theorem literal_of_read_error (hf : Relabels rules f) {error : NumeralError}
    (hread : Numeral.read t.literal = .error error) : (f t).literal = t.literal := by
  rcases hf.literal t with h | ⟨-, -, -, value, hvalue, -⟩
  · exact h
  · rw [hread] at hvalue
    cases hvalue

theorem read_literal (hf : Relabels rules f) {value : Int64}
    (hread : Numeral.read t.literal = .ok value) : Numeral.read (f t).literal = .ok value := by
  rcases hf.literal t with h | ⟨-, -, -, value', hvalue, hvalue'⟩
  · rw [h, hread]
  · rw [hread] at hvalue
    cases hvalue
    exact hvalue'

end Relabels

/-- The outcome with other tokens. -/
def mapOutcome {α : Type} (f : Token → Token) (g : α → α) :
    Except Diagnostic α → Except Diagnostic α
  | .ok a => .ok (g a)
  | .error d => .error (d.mapToken f)

def Task.mapToken (f : Token → Token) : Task → Task
  | .expr n bp => .expr n bp
  | .operand n => .operand n
  | .fold n bp left => .fold n bp (left.mapToken f)

variable {rules : Rules} {f : Token → Token} {finish finish' : Position} {levels : Nat}
  {ts rest : List Token}

theorem front_map (hfinish : f (.eof finish) = .eof finish') (ts : List Token) :
    front finish' (ts.map f) = f (front finish ts) := by
  cases ts with
  | nil => exact hfinish.symm
  | cons t ts => rfl

/-- Relabelled tokens are read to the relabelled outcome. -/
theorem Reads.relabel (hf : Relabels rules f) (hfinish : f (.eof finish) = .eof finish')
    {task : Task} {out : Except Diagnostic Expr} (h : Reads rules finish task ts out rest) :
    Reads rules finish' (task.mapToken f) (ts.map f) (mapOutcome f (Expr.mapToken f) out)
      (rest.map f) := by
  have hfront := front_map hfinish
  have hfront' (us : List Token) : front finish' (us.map f).tail = f (front finish us.tail) := by
    rw [← List.map_tail, hfront]
  induction h with
  | @tooDeep bp ts =>
    have h : Reads rules finish' (.expr 0 bp) (ts.map f) _ _ := .tooDeep
    rwa [hfront] at h
  | noOperand _ ih => exact .noOperand ih
  | expr _ _ ihl ihf => exact .expr ihl ihf
  | @noRule n ts hrule =>
    have h : Reads rules finish' (.operand n) (ts.map f) _ _ := .noRule (by rwa [hfront, hf.kind])
    rwa [hfront, hf.kind, hf.literal_of_prefixRule (by simp [hrule])] at h
  | @name n ts hrule =>
    have h : Reads rules finish' (.operand n) (ts.map f) _ _ := .name (by rwa [hfront, hf.kind])
    rwa [hfront, hf.literal_of_prefixRule (by simp [hrule])] at h
  | @integer n ts value hrule hvalue =>
    have h : Reads rules finish' (.operand n) (ts.map f) _ _ :=
      .integer (by rwa [hfront, hf.kind]) (by rw [hfront, hf.read_literal hvalue])
    rwa [hfront] at h
  | @badInteger n ts error hrule herror =>
    have hliteral := hf.literal_of_read_error herror
    have h : Reads rules finish' (.operand n) (ts.map f) _ _ :=
      .badInteger (by rwa [hfront, hf.kind]) (by rw [hfront, hliteral, herror])
    rwa [hfront, hliteral] at h
  | @unary n ts rest out hrule _ ih =>
    have h : Reads rules finish' (.operand n) (ts.map f) _ (rest.map f) :=
      .unary (by rwa [hfront, hf.kind]) (by rwa [← List.map_tail])
    rw [hfront, hf.literal_of_prefixRule (by simp [hrule])] at h
    cases out <;> exact h
  | @groupFault n ts rest d hrule _ ih =>
    exact .groupFault (by rwa [hfront, hf.kind]) (by rwa [← List.map_tail])
  | @unclosed n ts rest inner hrule _ hclose ih =>
    have h : Reads rules finish' (.operand n) (ts.map f) _ (rest.map f) :=
      .unclosed (by rwa [hfront, hf.kind]) (by rwa [← List.map_tail]) (by rwa [hfront', hf.kind])
    rwa [hfront', hf.kind] at h
  | @group n ts rest inner hrule _ hclose ih =>
    have h : Reads rules finish' (.operand n) (ts.map f) _ (rest.map f).tail :=
      .group (by rwa [hfront, hf.kind]) (by rwa [← List.map_tail]) (by rwa [hfront', hf.kind])
    rwa [← List.map_tail] at h
  | @stop n bp ts left hstop =>
    exact .stop (by rwa [Stops, hfront', hf.kind])
  | @noRight n bp ts rest left d hbp hrule _ ih =>
    refine .noRight (by rwa [hfront', hf.kind]) (by rwa [hfront', hf.kind]) ?_
    rw [hfront', hf.kind, ← List.map_tail, ← List.map_tail]
    exact ih
  | @binary n bp ts mid rest left right out hbp hrule _ _ ihr ihf =>
    have hliteral : (f (front finish ts.tail)).literal = (front finish ts.tail).literal :=
      hf.literal_of_infixRule (by simp [hrule])
    have hright : Reads rules finish' (.expr n (rules.power (front finish' (ts.map f).tail).kind))
        (ts.map f).tail.tail (.ok (right.mapToken f)) (mid.map f) := by
      rw [hfront', hf.kind, ← List.map_tail, ← List.map_tail]
      exact ihr
    refine .binary (by rwa [hfront', hf.kind]) (by rwa [hfront', hf.kind]) hright ?_
    rw [hfront', hliteral]
    exact ihf

variable {out : Except Diagnostic Statement} {outs : List (Except Diagnostic Statement)}

theorem ReadsStatement.relabel (hf : Relabels rules f) (hfinish : f (.eof finish) = .eof finish')
    (h : ReadsStatement rules finish levels ts out rest) :
    ReadsStatement rules finish' levels (ts.map f) (mapOutcome f (Statement.mapToken f) out)
      (rest.map f) := by
  have hfront := front_map hfinish
  have hfront' (us : List Token) : front finish' (us.map f).tail = f (front finish us.tail) := by
    rw [← List.map_tail, hfront]
  cases h with
  | @assignment _ out hname hassign h =>
    have hliteral : (f (front finish ts)).literal = (front finish ts).literal :=
      hf.literal_of_ne_number (by simp [hname])
    have hvalue : Reads rules finish' (.expr levels .lowest) (ts.map f).tail.tail
        (mapOutcome f (Expr.mapToken f) out) (rest.map f) := by
      rw [← List.map_tail, ← List.map_tail]
      exact h.relabel hf hfinish
    have h := ReadsStatement.assignment (by rwa [hfront, hf.kind])
      (by rwa [hfront', hf.kind]) hvalue
    rw [hfront, hfront', hliteral] at h
    cases out <;> exact h
  | @expression _ out hstart h =>
    have h := ReadsStatement.expression (by rwa [hfront, hfront', hf.kind, hf.kind])
      (h.relabel hf hfinish)
    rw [hfront] at h
    cases out <;> exact h

theorem ReadsProgram.relabel (hf : Relabels rules f) (hfinish : f (.eof finish) = .eof finish')
    (h : ReadsProgram rules finish levels ts outs) :
    ReadsProgram rules finish' levels (ts.map f)
      (outs.map (mapOutcome f (Statement.mapToken f))) := by
  induction h with
  | nil => exact .nil
  | cons hne h _ ih =>
    refine .cons (by simpa using hne) (h.relabel hf hfinish) ?_
    rwa [← List.map_tail]

/-! ### Alike texts -/

theorem statementsOf_map (g : Statement → Statement) (outs : List (Except Diagnostic Statement)) :
    statementsOf (outs.map (mapOutcome f g)) = (statementsOf outs).map g := by
  induction outs with
  | nil => rfl
  | cons out outs ih =>
    cases out with
    | ok s => exact congrArg (g s :: ·) ih
    | error d => exact ih

theorem faultsOf_map (g : Statement → Statement) (outs : List (Except Diagnostic Statement)) :
    faultsOf (outs.map (mapOutcome f g)) = (faultsOf outs).map (Diagnostic.mapToken f) := by
  induction outs with
  | nil => rfl
  | cons out outs ih =>
    cases out with
    | ok s => exact ih
    | error d => exact congrArg (d.mapToken f :: ·) ih

end Parser

open ExprFront.Parser

/-- Texts whose tokens are alike after a relabelling are parsed alike. -/
theorem parse_relabel {f : Token → Token} {finish : Position} (hf : Relabels .standard f)
    (hfinish : ∀ p, f (.eof p) = .eof finish) {source source' : String}
    (htokens : (tokenize source).map f = (tokenize source').map f) :
    (parse source).1.statements.map (Statement.mapToken f) =
        (parse source').1.statements.map (Statement.mapToken f) ∧
      (parse source).2.map (Diagnostic.mapToken f) =
        (parse source').2.map (Diagnostic.mapToken f) := by
  obtain ⟨outs, h, hparse⟩ := exists_readsProgram_parse source
  obtain ⟨outs', h', hparse'⟩ := exists_readsProgram_parse source'
  have htokens' : (Scanner.ofString source).tokens.map f =
      (Scanner.ofString source').tokens.map f := by
    simp only [tokenize_eq, List.map_append, List.map_singleton, hfinish] at htokens
    exact List.append_cancel_right htokens
  have hlabel := h.relabel hf (hfinish _)
  have hlabel' := h'.relabel hf (hfinish _)
  rw [htokens'] at hlabel
  have houts := hlabel.unique standard_infixRule_eof hlabel'
  rw [hparse, hparse']
  constructor
  · rw [← statementsOf_map (f := f), houts, statementsOf_map]
  · rw [← faultsOf_map (Statement.mapToken f), houts, faultsOf_map]

end ExprFront
