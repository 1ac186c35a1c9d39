import ExprFront.Parser.Program
import ExprFront.Proofs.Parser.Reading
import ExprFront.Proofs.Token.Stream

/-! The reading of statements and of whole programs as relations. A program is read as a list of
outcomes, one a statement; each of them starts behind the token that the one before ended on. What
`parse` returns are the statements and the faults among the outcomes. -/

namespace ExprFront.Parser

/-- `ReadsStatement rules finish levels ts out rest`: with `ts` ahead the next statement comes to
`out`, and leaves the parser on the first token of `rest`. -/
inductive ReadsStatement (rules : Rules) (finish : Position) (levels : Nat) :
    List Token → Except Diagnostic Statement → List Token → Prop where
  | assignment {ts rest : List Token} {out : Except Diagnostic Expr}
      (hname : (front finish ts).kind = .ident) (hassign : (front finish ts.tail).kind = .assign) :
      Reads rules finish (.expr levels .lowest) ts.tail.tail out rest →
      ReadsStatement rules finish levels ts
        (out.map (.assignment (front finish ts.tail) ⟨front finish ts, (front finish ts).literal⟩))
        rest
  | expression {ts rest : List Token} {out : Except Diagnostic Expr}
      (hstart : ¬ ((front finish ts).kind = .ident ∧ (front finish ts.tail).kind = .assign)) :
      Reads rules finish (.expr levels .lowest) ts out rest →
      ReadsStatement rules finish levels ts (out.map (.expression (front finish ts))) rest

/-- `ReadsProgram rules finish levels ts outs`: the tokens `ts` are read to the end, with the
outcomes `outs`. -/
inductive ReadsProgram (rules : Rules) (finish : Position) (levels : Nat) :
    List Token → List (Except Diagnostic Statement) → Prop where
  | nil : ReadsProgram rules finish levels [] []
  | cons {ts rest : List Token} {out : Except Diagnostic Statement}
      {outs : List (Except Diagnostic Statement)} (hne : ts ≠ []) :
      ReadsStatement rules finish levels ts out rest →
      ReadsProgram rules finish levels rest.tail outs →
      ReadsProgram rules finish levels ts (out :: outs)

/-- The statements among outcomes. -/
def statementsOf (outs : List (Except Diagnostic Statement)) : List Statement :=
  outs.filterMap fun
    | .ok statement => some statement
    | .error _ => none

/-- The faults among outcomes. -/
def faultsOf (outs : List (Except Diagnostic Statement)) : List Diagnostic :=
  outs.filterMap fun
    | .ok _ => none
    | .error d => some d

theorem statementsOf_append (outs outs' : List (Except Diagnostic Statement)) :
    statementsOf (outs ++ outs') = statementsOf outs ++ statementsOf outs' :=
  List.filterMap_append

theorem faultsOf_append (outs outs' : List (Except Diagnostic Statement)) :
    faultsOf (outs ++ outs') = faultsOf outs ++ faultsOf outs' :=
  List.filterMap_append

theorem length_statementsOf_add (outs : List (Except Diagnostic Statement)) :
    (statementsOf outs).length + (faultsOf outs).length = outs.length := by
  induction outs with
  | nil => rfl
  | cons out outs ih =>
    cases out <;> simp only [statementsOf, faultsOf, List.filterMap_cons, List.length_cons] at * <;>
      omega

variable {rules : Rules} {finish : Position} {levels : Nat} {ts rest : List Token}
  {out : Except Diagnostic Statement} {outs : List (Except Diagnostic Statement)}

theorem ReadsStatement.suffix (h : ReadsStatement rules finish levels ts out rest) :
    rest <:+ ts := by
  cases h with
  | assignment _ _ h => exact (h.suffix.trans (List.tail_suffix _)).trans (List.tail_suffix _)
  | expression _ h => exact h.suffix

theorem exists_readsStatement (heof : rules.infixRule .eof = none) (finish : Position)
    (levels : Nat) (ts : List Token) :
    ∃ out rest, ReadsStatement rules finish levels ts out rest := by
  by_cases hstart : (front finish ts).kind = .ident ∧ (front finish ts.tail).kind = .assign
  · obtain ⟨out, rest, h⟩ := exists_reads heof finish levels .lowest ts.tail.tail
    exact ⟨_, rest, .assignment hstart.1 hstart.2 h⟩
  · obtain ⟨out, rest, h⟩ := exists_reads heof finish levels .lowest ts
    exact ⟨_, rest, .expression hstart h⟩

/-- A round of the statement loop passes at least one token. -/
theorem ReadsStatement.length_lt (h : ReadsStatement rules finish levels ts out rest)
    (hne : ts ≠ []) : rest.tail.length < ts.length := by
  have hle := h.suffix.length_le
  have hpos := List.length_pos_of_ne_nil hne
  rw [List.length_tail]
  omega

theorem exists_readsProgram (heof : rules.infixRule .eof = none) (finish : Position)
    (levels : Nat) (ts : List Token) : ∃ outs, ReadsProgram rules finish levels ts outs := by
  induction hlen : ts.length using Nat.strongRecOn generalizing ts with
  | ind len ih =>
    by_cases hne : ts = []
    · exact ⟨[], hne ▸ .nil⟩
    · obtain ⟨out, rest, h⟩ := exists_readsStatement heof finish levels ts
      obtain ⟨outs, hrest⟩ := ih _ (hlen ▸ h.length_lt hne) rest.tail rfl
      exact ⟨out :: outs, .cons hne h hrest⟩

/-- There are no more outcomes than tokens. -/
theorem ReadsProgram.length_le (h : ReadsProgram rules finish levels ts outs) :
    outs.length ≤ ts.length := by
  induction h with
  | nil => exact Nat.le_refl _
  | cons hne h _ ih =>
    have hlt := h.length_lt hne
    rw [List.length_cons]
    omega

/-! ### Tokens ahead leave no choice -/

theorem ReadsStatement.unique (heof : rules.infixRule .eof = none)
    {out' : Except Diagnostic Statement} {rest' : List Token}
    (h : ReadsStatement rules finish levels ts out rest)
    (h' : ReadsStatement rules finish levels ts out' rest') : out = out' ∧ rest = rest' := by
  cases h with
  | assignment hname hassign h =>
    cases h' with
    | assignment _ _ h' =>
      obtain ⟨rfl, rfl⟩ := h.unique heof h'
      exact ⟨rfl, rfl⟩
    | expression hstart => exact absurd ⟨hname, hassign⟩ hstart
  | expression hstart h =>
    cases h' with
    | assignment hname hassign => exact absurd ⟨hname, hassign⟩ hstart
    | expression _ h' =>
      obtain ⟨rfl, rfl⟩ := h.unique heof h'
      exact ⟨rfl, rfl⟩

theorem ReadsProgram.unique (heof : rules.infixRule .eof = none)
    {outs' : List (Except Diagnostic Statement)} (h : ReadsProgram rules finish levels ts outs)
    (h' : ReadsProgram rules finish levels ts outs') : outs = outs' := by
  induction h generalizing outs' with
  | nil =>
    cases h' with
    | nil => rfl
    | cons hne => exact absurd rfl hne
  | cons hne h _ ih =>
    cases h' with
    | nil => exact absurd rfl hne
    | cons _ h' hrest' =>
      obtain ⟨rfl, rfl⟩ := h.unique heof h'
      rw [ih hrest']

/-! ### The functions compute the relations -/

theorem ReadsStatement.readStatement_eq (heof : rules.infixRule .eof = none) {depth : Nat}
    (h : ReadsStatement rules finish (maxDepth - depth) ts out rest) (faults : List Diagnostic) :
    readStatement ⟨ts, finish, rules, faults, depth⟩ =
      leave ⟨ts, finish, rules, faults, depth⟩ out rest := by
  cases h with
  | @assignment _ out hname hassign h =>
    have hread : readExpr .lowest ⟨ts.tail.tail, finish, rules, faults, depth⟩ = _ :=
      h.run_eq heof faults depth ts.tail.tail (Nat.le_refl _)
    simp only [readStatement, readAssignment, expectPeek, current_eq_front, peek_eq_front, hname,
      hassign, and_self, if_true, advance, hread]
    cases out <;> rfl
  | @expression _ out hstart h =>
    have hread : readExpr .lowest ⟨ts, finish, rules, faults, depth⟩ = _ :=
      h.run_eq heof faults depth ts (Nat.le_refl _)
    simp only [readStatement, readExpression, current_eq_front, peek_eq_front, hstart, if_false,
      hread]
    cases out <;> rfl

/-- The statement loop collects the outcomes, given a round for each token ahead. -/
theorem ReadsProgram.readStatements_eq (heof : rules.infixRule .eof = none) (depth : Nat)
    (h : ReadsProgram rules finish (maxDepth - depth) ts outs) (hkind : ∀ t ∈ ts, t.kind ≠ .eof) :
    ∀ (budget : List Token) (acc : List Statement) (faults : List Diagnostic),
      ts.length ≤ budget.length →
      readStatements budget acc ⟨ts, finish, rules, faults, depth⟩ =
        (acc.reverse ++ statementsOf outs,
          ⟨[], finish, rules, (faultsOf outs).reverse ++ faults, depth⟩) := by
  induction h with
  | nil =>
    intro budget acc faults _
    cases budget with
    | nil => simp [readStatements, statementsOf, faultsOf]
    | cons b budget =>
      simp [readStatements, current_eq_front, Token.eof, statementsOf, faultsOf]
  | @cons ts rest out outs hne h _ ih =>
    intro budget acc faults hbudget
    have hlt := h.length_lt hne
    obtain ⟨t, us, rfl⟩ := List.exists_cons_of_ne_nil hne
    have hcurrent : t.kind ≠ .eof := hkind t (List.mem_cons_self ..)
    have hread := h.readStatement_eq heof faults
    have hrest : ∀ u ∈ rest.tail, u.kind ≠ .eof := fun u hu =>
      hkind u (h.suffix.subset (List.mem_of_mem_tail hu))
    cases budget with
    | nil => simp at hbudget
    | cons b budget =>
      have hbudget' : rest.tail.length ≤ budget.length := by
        simp only [List.length_cons] at hbudget hlt
        omega
      rw [readStatements, if_neg (by simpa [current_eq_front] using hcurrent), hread]
      cases out with
      | ok statement =>
        have hloop := ih hrest budget (statement :: acc) faults hbudget'
        simp only [leave, advance, hloop]
        simp [statementsOf, faultsOf]
      | error d =>
        have hloop := ih hrest budget acc (d :: faults) hbudget'
        simp only [leave, advance, hloop]
        simp [statementsOf, faultsOf]

/-- What `readProgram` comes to in a parser whose end token has no infix rule. -/
theorem exists_readProgram (p : Parser) (heof : p.rules.infixRule .eof = none)
    (hkind : ∀ t ∈ p.ahead, t.kind ≠ .eof) :
    ∃ outs, ReadsProgram p.rules p.finish (maxDepth - p.depth) p.ahead outs ∧
      p.readProgram = (⟨statementsOf outs⟩,
        { p with ahead := [], faults := (faultsOf outs).reverse ++ p.faults }) := by
  obtain ⟨outs, h⟩ := exists_readsProgram heof p.finish (maxDepth - p.depth) p.ahead
  have hloop : readStatements p.ahead [] p = _ :=
    h.readStatements_eq heof p.depth hkind p.ahead [] p.faults (Nat.le_refl _)
  refine ⟨outs, h, ?_⟩
  simp only [readProgram, hloop, List.reverse_nil, List.nil_append]

theorem standard_infixRule_eof : Rules.standard.infixRule .eof = none := rfl

/-- What a source text is parsed to: its tokens are read to the end, and the outcomes are sorted
into statements and faults. -/
theorem exists_readsProgram_parse (source : String) :
    ∃ outs, ReadsProgram .standard (Scanner.ofString source).finish maxDepth
        (Scanner.ofString source).tokens outs ∧
      parse source = (⟨statementsOf outs⟩, faultsOf outs) := by
  obtain ⟨outs, h, hread⟩ := exists_readProgram (Parser.ofString source) standard_infixRule_eof
    (fun t ht => Scanner.kind_ne_eof_of_mem_tokens ht)
  refine ⟨outs, h, ?_⟩
  rw [parse, hread]
  simp [errors, Parser.ofString]

end ExprFront.Parser
