import Mathlib.Data.List.Induction
import ExprFront.Proofs.Precedence.Order

/-! Parsers with rules of their own. Any kind may be given a meaning at the start of an expression,
and any kind but that of the end token a meaning and a power between operands; the last registration
counts. Under all such rules trees are ordered by the registered powers, and the whole text is
read. -/

namespace ExprFront

/-! ### Registrations -/

/-- A kind that is to stand between operands, at a power. The end token cannot: it is never passed,
so that there would be no end to folding it. -/
structure InfixEntry where
  kind : TokenKind
  power : BindingPower
  kind_ne_eof : kind ≠ .eof

/-- A change of the rules. -/
inductive Registration where
  /-- The kind starts an expression. -/
  | start (kind : TokenKind) (rule : PrefixRule)
  /-- The kind stands between operands. -/
  | between (entry : InfixEntry)

namespace Rules

def register (rules : Rules) : Registration → Rules
  | .start kind rule => rules.registerPrefix kind rule
  | .between entry => rules.registerInfix entry.kind entry.power .binary

def registerAll (rules : Rules) (registrations : List Registration) : Rules :=
  registrations.foldl register rules

/-- The end token is no operator, and the operators are the kinds that have a power. -/
structure Regular (rules : Rules) : Prop where
  infixRule_eof : rules.infixRule .eof = none
  infixRule_eq_none_iff : ∀ kind, rules.infixRule kind = none ↔ rules.power? kind = none

theorem standard_regular : standard.Regular where
  infixRule_eof := rfl
  infixRule_eq_none_iff kind := by cases kind <;> decide

variable {rules : Rules}

theorem Regular.register (h : rules.Regular) (registration : Registration) :
    (rules.register registration).Regular := by
  cases registration with
  | start kind rule => exact ⟨h.infixRule_eof, h.infixRule_eq_none_iff⟩
  | between entry =>
    refine ⟨?_, fun kind => ?_⟩
    · exact (if_neg entry.kind_ne_eof.symm).trans h.infixRule_eof
    · simp only [Rules.register, registerInfix]
      by_cases hkind : kind = entry.kind
      · simp [hkind]
      · simpa [hkind] using h.infixRule_eq_none_iff kind

theorem Regular.registerAll (h : rules.Regular) (registrations : List Registration) :
    (rules.registerAll registrations).Regular := by
  induction registrations generalizing rules with
  | nil => exact h
  | cons registration registrations ih => exact ih (h.register registration)

/-- What binds tighter than some power is an operator. -/
theorem Regular.infixRule_ne_none (h : rules.Regular) {kind : TokenKind} {bp : BindingPower}
    (hbp : bp < rules.power kind) : rules.infixRule kind ≠ none := by
  intro hnone
  rw [power, (h.infixRule_eq_none_iff kind).mp hnone] at hbp
  exact absurd hbp (Nat.not_lt_zero _)

/-! ### Operators only -/

/-- The power that a kind has once the entries are registered in the language: the last entry for
the kind counts. -/
def powerAfter (entries : List InfixEntry) (kind : TokenKind) : BindingPower :=
  match entries.reverse.find? (·.kind = kind) with
  | some entry => entry.power
  | none => standard.power kind

theorem registerAll_concat (rules : Rules) (registrations : List Registration)
    (registration : Registration) : rules.registerAll (registrations ++ [registration]) =
      (rules.registerAll registrations).register registration := List.foldl_concat ..

theorem power_register_between (rules : Rules) (entry : InfixEntry) (kind : TokenKind) :
    (rules.register (.between entry)).power kind =
      if entry.kind = kind then entry.power else rules.power kind := by
  by_cases hkind : entry.kind = kind
  · simp [register, registerInfix, power, hkind]
  · simp [register, registerInfix, power, hkind, Ne.symm hkind]

theorem power_registerAll (entries : List InfixEntry) :
    (standard.registerAll (entries.map .between)).power = powerAfter entries := by
  funext kind
  -- Registering adds at the end of the list, which is where `powerAfter` looks first.
  induction entries using List.reverseRecOn with
  | nil => rfl
  | append_singleton entries entry ih =>
    rw [List.map_append, List.map_singleton, registerAll_concat, power_register_between, ih]
    by_cases hkind : entry.kind = kind <;> simp [powerAfter, hkind]

theorem prefixRule_registerAll (rules : Rules) (entries : List InfixEntry) :
    (rules.registerAll (entries.map .between)).prefixRule = rules.prefixRule := by
  induction entries generalizing rules with
  | nil => rfl
  | cons entry entries ih => exact ih (rules.register (.between entry))

end Rules

namespace Parser

def register (p : Parser) : Registration → Parser
  | .start kind rule => p.registerPrefix kind rule
  | .between entry => p.registerInfix entry.kind entry.power .binary

def registerAll (p : Parser) (registrations : List Registration) : Parser :=
  registrations.foldl register p

theorem register_eq (p : Parser) (registration : Registration) :
    p.register registration = { p with rules := p.rules.register registration } := by
  cases registration <;> rfl

/-- Registering changes the rules and nothing else. -/
theorem registerAll_eq (p : Parser) (registrations : List Registration) :
    p.registerAll registrations = { p with rules := p.rules.registerAll registrations } := by
  induction registrations generalizing p with
  | nil => rfl
  | cons registration registrations ih =>
    show (p.register registration).registerAll registrations = _
    rw [ih, register_eq]
    rfl

/-- What a text is read to under registered rules. -/
theorem exists_readProgram_registerAll (source : String) (registrations : List Registration) :
    ∃ outs, ReadsProgram (Rules.standard.registerAll registrations)
        (Scanner.ofString source).finish maxDepth (Scanner.ofString source).tokens outs ∧
      ((Parser.ofString source).registerAll registrations).readProgram =
        (⟨statementsOf outs⟩, ⟨[], (Scanner.ofString source).finish,
          Rules.standard.registerAll registrations, (faultsOf outs).reverse, 0⟩) := by
  have hregular := Rules.standard_regular.registerAll registrations
  obtain ⟨outs, h, hread⟩ := exists_readProgram
    ⟨(Scanner.ofString source).tokens, (Scanner.ofString source).finish,
      Rules.standard.registerAll registrations, [], 0⟩
    hregular.infixRule_eof (fun t ht => Scanner.kind_ne_eof_of_mem_tokens ht)
  refine ⟨outs, h, ?_⟩
  rw [List.append_nil] at hread
  rw [registerAll_eq]
  exact hread

/-- Whatever operators are registered, and at whatever powers, the operators on the left bind at
least as tight as the one they stand under, and those on the right and behind a sign bind
tighter. -/
theorem ordered_readProgram (source : String) (entries : List InfixEntry) :
    ∀ s ∈ ((Parser.ofString source).registerAll (entries.map .between)).readProgram.1.statements,
      s.body.Ordered (Rules.powerAfter entries) := by
  obtain ⟨outs, h, hread⟩ := exists_readProgram_registerAll source (entries.map .between)
  have hgroup (kind : TokenKind) :
      (Rules.standard.registerAll (entries.map .between)).prefixRule kind ≠ some .group := by
    rw [Rules.prefixRule_registerAll]
    exact Rules.standard_prefixRule_ne_group kind
  rw [hread, ← Rules.power_registerAll]
  exact fun s hs => (h.ordered hgroup s hs).1

/-- `%` at the lowest power, and then above the signs. -/
def tightPercent : List InfixEntry :=
  [⟨.percent, .lowest, by decide⟩, ⟨.percent, .call, by decide⟩]

/-- An operator that binds tighter than a sign stands behind it. -/
theorem ordered_readProgram_percent :
    ∃ s ∈ ((Parser.ofString "-a%b").registerAll
        (tightPercent.map .between)).readProgram.1.statements,
      s.body.shape = .unary (.eof .start) "-" (.binary (.eof .start) "%"
        (.ident ⟨.eof .start, "a"⟩) (.ident ⟨.eof .start, "b"⟩)) ∧
      s.body.Ordered (Rules.powerAfter tightPercent) := by
  obtain ⟨s, hs, hshape⟩ : ∃ s ∈ ((Parser.ofString "-a%b").registerAll
        (tightPercent.map .between)).readProgram.1.statements,
      s.body.shape = .unary (.eof .start) "-" (.binary (.eof .start) "%"
        (.ident ⟨.eof .start, "a"⟩) (.ident ⟨.eof .start, "b"⟩)) := by decide +kernel
  exact ⟨s, hs, hshape, ordered_readProgram _ _ s hs⟩

/-! ### The whole text is read -/

/-- At the end there is nothing to read. -/
theorem readProgram_of_ahead_eq_nil {p : Parser} (h : p.ahead = []) :
    p.readProgram = (⟨[]⟩, p) := by
  rw [readProgram, h]
  rfl

/-- Under any registered rules a text is read in finitely many rounds of each loop: the relation
`ReadsProgram`, which knows no budget, has an outcome, and it is the one computed. The parser is left
on the end token, there are no more statements and faults than tokens, and reading again finds
nothing and changes nothing. -/
theorem readProgram_exhausts (source : String) (registrations : List Registration) :
    ∃ (outs : List (Except Diagnostic Statement)) (q : Parser),
      ReadsProgram (Rules.standard.registerAll registrations)
        (Scanner.ofString source).finish maxDepth (Scanner.ofString source).tokens outs ∧
      ((Parser.ofString source).registerAll registrations).readProgram =
        (⟨statementsOf outs⟩, q) ∧
      q.errors = faultsOf outs ∧
      q.current.kind = .eof ∧ q.peek.kind = .eof ∧
      (statementsOf outs).length + q.errors.length ≤ (tokenize source).dropLast.length ∧
      q.readProgram = (⟨[]⟩, q) := by
  obtain ⟨outs, h, hread⟩ := exists_readProgram_registerAll source registrations
  have herrors : (faultsOf outs).reverse.reverse = faultsOf outs := List.reverse_reverse _
  refine ⟨outs, _, h, hread, herrors, rfl, rfl, ?_, readProgram_of_ahead_eq_nil rfl⟩
  rw [errors, herrors, length_statementsOf_add, tokenize_eq, List.dropLast_concat]
  exact h.length_le

end Parser

end ExprFront
