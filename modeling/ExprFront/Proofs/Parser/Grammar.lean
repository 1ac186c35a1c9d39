import ExprFront.Proofs.Parser.Accounting

/-! The grammar of programs, without precedence and with no mark between statements, so that a text
may be divided into statements in several ways. A text without long runs of signs is read without
fault exactly when it has some division: the parser, which divides once and never goes back, rejects
nothing that another division accepts. -/

namespace ExprFront.Grammar

/-- A token that may stand before its operand. -/
def IsSign (t : Token) : Prop := t.kind = .minus ∨ t.kind = .bang

/-- A token that may stand between operands. -/
def IsOperator (t : Token) : Prop := t.kind ∈ TokenKind.operators

/-- A name, or a numeral with a 64-bit value. -/
def IsAtom (t : Token) : Prop :=
  t.kind = .ident ∨ t.kind = .number ∧ ∃ value, Numeral.read t.literal = .ok value

theorem IsAtom.not_isOperator {t : Token} (h : IsAtom t) : ¬ IsOperator t := by
  unfold IsOperator
  rcases h with hkind | ⟨hkind, -⟩ <;> rw [hkind] <;> decide

theorem IsAtom.not_isSign {t : Token} (h : IsAtom t) : ¬ IsSign t := by
  unfold IsSign
  rcases h with hkind | ⟨hkind, -⟩ <;> rw [hkind] <;> decide

/-- Signs before an atom. -/
inductive IsUnary : List Token → Prop where
  | atom {t : Token} : IsAtom t → IsUnary [t]
  | sign {t : Token} {ts : List Token} : IsSign t → IsUnary ts → IsUnary (t :: ts)

/-- Operands with operators between them. -/
inductive IsExpr : List Token → Prop where
  | unary {ts : List Token} : IsUnary ts → IsExpr ts
  | operator {us ts : List Token} {op : Token} :
      IsUnary us → IsOperator op → IsExpr ts → IsExpr (us ++ op :: ts)

/-- An expression, perhaps assigned to a name. -/
inductive IsStatement : List Token → Prop where
  | expression {ts : List Token} : IsExpr ts → IsStatement ts
  | assignment {name eq : Token} {ts : List Token} :
      name.kind = .ident → eq.kind = .assign → IsExpr ts → IsStatement (name :: eq :: ts)

/-- Statements one after the other. -/
inductive IsProgram : List Token → Prop where
  | nil : IsProgram []
  | cons {ts us : List Token} : IsStatement ts → IsProgram us → IsProgram (ts ++ us)

/-! ### What is read is in the grammar -/

theorem IsExpr.sign {t : Token} {ts : List Token} (ht : IsSign t) (h : IsExpr ts) :
    IsExpr (t :: ts) := by
  cases h with
  | unary h => exact .unary (.sign ht h)
  | operator hus hop hts => exact .operator (.sign ht hus) hop hts

theorem IsExpr.append {ts us : List Token} {op : Token} (h : IsExpr ts) (hop : IsOperator op)
    (hus : IsExpr us) : IsExpr (ts ++ op :: us) := by
  induction h with
  | unary h => exact .operator h hop hus
  | operator h hop' _ ih =>
    rw [List.append_assoc]
    exact .operator h hop' ih

/-- The tokens of any tree that was read, whatever its precedences, are an expression. -/
theorem isExpr_yield {e : Expr} (h : e.Faithful .standard) : IsExpr e.yield := by
  induction e with
  | ident id => exact .unary (.atom (.inl (Rules.standard_prefixRule_eq_name.mp h.1)))
  | int token value =>
    exact .unary (.atom (.inr ⟨Rules.standard_prefixRule_eq_integer.mp h.1, value, h.2⟩))
  | unary token operator operand ih =>
    exact (ih h.2.2).sign (Rules.standard_prefixRule_eq_operator.mp h.1)
  | binary token operator left right ihl ihr =>
    exact (ihl h.2.2.1).append (Rules.standard_infixRule_eq_binary.mp h.1) (ihr h.2.2.2)

theorem isStatement_yield {s : Statement} (h : s.Faithful .standard) : IsStatement s.yield := by
  cases s with
  | assignment token name value => exact .assignment h.1 h.2.2.1 (isExpr_yield h.2.2.2)
  | expression token e => exact .expression (isExpr_yield h.2)

open ExprFront.Parser (Reads ReadsStatement ReadsProgram Task Stops front faultsOf)

variable {finish : Position} {ts rest : List Token} {outs : List (Except Diagnostic Statement)}

theorem isProgram_of_readsProgram {levels : Nat}
    (h : ReadsProgram .standard finish levels ts outs) (hfaults : faultsOf outs = []) :
    IsProgram ts := by
  induction h with
  | nil => exact .nil
  | @cons ts rest out outs _ h _ ih =>
    cases out with
    | ok statement =>
      rw [h.eq_yield_append Rules.standard_ungrouped rfl]
      exact .cons (isStatement_yield (h.faithful Rules.standard_ungrouped rfl)) (ih hfaults)
    | error d => cases hfaults

/-! ### What is in the grammar is read -/

/-- An expression and more statements are ahead. -/
def Starts (ts : List Token) : Prop := ∃ es ps, ts = es ++ ps ∧ IsExpr es ∧ IsProgram ps

/-- The tokens may stand behind an operand: an operator goes on, or another statement begins. -/
def Follows (ts : List Token) : Prop :=
  IsProgram ts ∨ ∃ op us, ts = op :: us ∧ IsOperator op ∧ Starts us

theorem Starts.front (h : Starts ts) (finish : Position) :
    IsSign (front finish ts) ∧ Starts ts.tail ∨ IsAtom (front finish ts) ∧ Follows ts.tail := by
  obtain ⟨es, ps, rfl, hes, hps⟩ := h
  cases hes with
  | unary h =>
    cases h with
    | atom ht => exact .inr ⟨ht, .inl hps⟩
    | sign ht h => exact .inl ⟨ht, _, _, rfl, .unary h, hps⟩
  | @operator us es op h hop hes =>
    cases h with
    | atom ht => exact .inr ⟨ht, .inr ⟨op, _, rfl, hop, es, ps, rfl, hes, hps⟩⟩
    | sign ht h => exact .inl ⟨ht, _, _, rfl, .operator h hop hes, hps⟩

theorem IsProgram.starts (h : IsProgram ts) (hne : ts ≠ []) (finish : Position) :
    Starts ts ∨ (front finish ts).kind = .ident ∧ (front finish ts.tail).kind = .assign ∧
      Starts ts.tail.tail := by
  cases h with
  | nil => exact absurd rfl hne
  | @cons ss ps hs hps =>
    cases hs with
    | expression he => exact .inl ⟨ss, ps, rfl, he, hps⟩
    | @assignment name eq es hname heq he => exact .inr ⟨hname, heq, es, ps, rfl, he, hps⟩

/-- Behind an operand an operator is followed by an operand, also when a division into statements
has it as the sign of the next statement. -/
theorem Follows.starts (h : Follows ts) (hop : IsOperator (front finish ts)) : Starts ts.tail := by
  rcases h with h | ⟨op, us, rfl, -, h⟩
  · have hne : ts ≠ [] := by
      rintro rfl
      exact absurd hop (by decide : TokenKind.eof ∉ TokenKind.operators)
    rcases h.starts hne finish with h | ⟨hname, -⟩
    · rcases h.front finish with ⟨-, h⟩ | ⟨hatom, -⟩
      · exact h
      · exact absurd hop hatom.not_isOperator
    · exact absurd hop (IsAtom.not_isOperator (.inl hname))
  · exact h

/-- Nothing that may stand behind an operand starts with `=`. -/
theorem Follows.front_kind_ne_assign (h : Follows ts) (finish : Position) :
    (front finish ts).kind ≠ .assign := by
  intro hassign
  rcases h with h | ⟨op, us, rfl, hop, -⟩
  · have hne : ts ≠ [] := by
      rintro rfl
      cases hassign
    rcases h.starts hne finish with h | ⟨hname, -⟩
    · rcases h.front finish with ⟨hsign | hsign, -⟩ | ⟨hatom | ⟨hatom, -⟩, -⟩ <;> simp_all
    · simp_all
  · rw [Parser.front_cons] at hassign
    rw [IsOperator, hassign] at hop
    exact absurd hop (by decide)

/-- Once every operator is taken, a statement begins. -/
theorem Follows.isProgram (h : Follows ts.tail) (hstop : Stops .standard finish .lowest ts) :
    IsProgram ts.tail := by
  rcases h with h | ⟨op, us, hts, hop, -⟩
  · exact h
  · rw [Stops, hts, Parser.front_cons, Rules.standard_infixRule_eq_binary.mpr hop] at hstop
    rcases hstop with hpower | hrule
    · exact absurd (Rules.standard_lowest_lt_power hop) hpower
    · cases hrule

/-- The number of signs at the front. -/
def signRun (ts : List Token) : Nat :=
  (ts.takeWhile fun t => t.kind = .minus ∨ t.kind = .bang).length

theorem signRun_cons {t : Token} (ht : IsSign t) : signRun (t :: ts) = signRun ts + 1 := by
  have hsign : t.kind = .minus ∨ t.kind = .bang := ht
  simp [signRun, hsign]

/-- No run of signs is longer than the bound. -/
def ShortRuns (bound : Nat) (ts : List Token) : Prop := ∀ us, us <:+ ts → signRun us ≤ bound

/-- What is ahead of a task is in the grammar. -/
def Viable (task : Task) (ts : List Token) : Prop :=
  match task with
  | .expr _ _ | .operand _ => Starts ts
  | .fold _ _ _ => Follows ts.tail

/-- The levels left are enough for the signs ahead. Operands of the operators, of which there are
four powers, each take one level more; a run of signs then takes one for each of its signs. -/
def Room (task : Task) (ts : List Token) : Prop :=
  match task with
  | .expr n bp => signRun ts < n ∧ (bp < .unary → Parser.maxDepth ≤ n + bp.rank)
  | .operand n => signRun ts ≤ n
  | .fold n bp _ => bp < .unary → Parser.maxDepth ≤ n + 1 + bp.rank

theorem ShortRuns.suffix {bound : Nat} {us : List Token} (h : ShortRuns bound ts)
    (hus : us <:+ ts) : ShortRuns bound us := fun vs hvs => h vs (hvs.trans hus)

theorem ShortRuns.room (h : ShortRuns 251 ts) : Room (.expr Parser.maxDepth .lowest) ts :=
  ⟨Nat.lt_of_le_of_lt (h ts (List.suffix_refl _)) (by decide), fun _ => Nat.le_refl _⟩

theorem room_right {n : Nat} {bp : BindingPower} {op : Token} {left : Expr} (us : List Token)
    (hruns : signRun us ≤ 251) (hroom : Room (.fold n bp left) ts)
    (hbp : bp < Rules.standard.power op.kind) :
    Room (.expr n (Rules.standard.power op.kind)) us := by
  have hlt := Rules.standard_power_lt_unary op.kind
  simp only [Room, BindingPower.lt_iff_rank, BindingPower.rank, Parser.maxDepth] at *
  omega

/-- Where an operator is folded, its right operand is viable too. -/
theorem viable_right {n : Nat} {bp : BindingPower} {left : Expr}
    (hviable : Viable (.fold n bp left) ts) (hroom : Room (.fold n bp left) ts)
    (hruns : ShortRuns 251 ts) (hbp : bp < Rules.standard.power (front finish ts.tail).kind)
    (hrule : Rules.standard.infixRule (front finish ts.tail).kind = some .binary) :
    Starts ts.tail.tail ∧
      Room (.expr n (Rules.standard.power (front finish ts.tail).kind)) ts.tail.tail ∧
      ShortRuns 251 ts.tail.tail := by
  have hop := Rules.standard_infixRule_eq_binary.mp hrule
  have hsuffix : ts.tail.tail <:+ ts := (List.tail_suffix _).trans (List.tail_suffix _)
  exact ⟨Follows.starts hviable hop, room_right _ (hruns _ hsuffix) hroom hbp,
    hruns.suffix hsuffix⟩

/-- A reading with a viable text ahead, and levels enough, succeeds, and leaves what may stand
behind an operand. -/
theorem reads_succeeds {task : Task} {out : Except Diagnostic Expr}
    (h : Reads .standard finish task ts out rest) (hviable : Viable task ts)
    (hroom : Room task ts) (hruns : ShortRuns 251 ts) :
    (∃ e, out = .ok e) ∧ Follows rest.tail := by
  induction h with
  | tooDeep => exact absurd hroom.1 (Nat.not_lt_zero _)
  | @noOperand n bp ts rest d _ ih =>
    exact ih hviable (Nat.le_of_lt_succ hroom.1) hruns
  | @expr n bp ts mid rest left out hl _ ihl ihf =>
    obtain ⟨-, hmid⟩ := ihl hviable (Nat.le_of_lt_succ hroom.1) hruns
    exact ihf hmid hroom.2 (hruns.suffix hl.suffix)
  | noRule hrule =>
    rcases hviable.front finish with ⟨hsign, -⟩ | ⟨hatom, -⟩
    · rw [Rules.standard_prefixRule_eq_operator.mpr hsign] at hrule
      cases hrule
    · rcases hatom with hkind | ⟨hkind, -⟩
      · rw [Rules.standard_prefixRule_eq_name.mpr hkind] at hrule
        cases hrule
      · rw [Rules.standard_prefixRule_eq_integer.mpr hkind] at hrule
        cases hrule
  | name hrule =>
    have hatom := IsAtom.not_isSign (.inl (Rules.standard_prefixRule_eq_name.mp hrule))
    rcases hviable.front finish with ⟨hsign, -⟩ | ⟨-, h⟩
    · exact absurd hsign hatom
    · exact ⟨⟨_, rfl⟩, h⟩
  | integer hrule hvalue =>
    have hatom := IsAtom.not_isSign
      (.inr ⟨Rules.standard_prefixRule_eq_integer.mp hrule, _, hvalue⟩)
    rcases hviable.front finish with ⟨hsign, -⟩ | ⟨-, h⟩
    · exact absurd hsign hatom
    · exact ⟨⟨_, rfl⟩, h⟩
  | badInteger hrule herror =>
    have hkind := Rules.standard_prefixRule_eq_integer.mp hrule
    rcases hviable.front finish with ⟨hsign | hsign, -⟩ | ⟨hatom | ⟨-, value, hvalue⟩, -⟩ <;>
      simp_all
  | @unary n ts rest out hrule _ ih =>
    have hsign : IsSign (front finish ts) := Rules.standard_prefixRule_eq_operator.mp hrule
    rcases hviable.front finish with ⟨-, h⟩ | ⟨hatom, -⟩
    · have hlt : signRun ts.tail < n := by
        have hle : signRun ts ≤ n := hroom
        rw [← Parser.front_cons_tail_of_prefixRule rfl hrule, signRun_cons hsign] at hle
        exact hle
      obtain ⟨⟨operand, rfl⟩, hrest⟩ := ih h ⟨hlt, fun hbp => absurd hbp (by decide)⟩
        (hruns.suffix (List.tail_suffix _))
      exact ⟨⟨_, rfl⟩, hrest⟩
    · exact absurd hsign hatom.not_isSign
  | groupFault hrule | unclosed hrule | group hrule =>
    exact absurd hrule (Rules.standard_prefixRule_ne_group _)
  | stop => exact ⟨⟨_, rfl⟩, hviable⟩
  | noRight hbp hrule _ ih =>
    obtain ⟨hstarts, hroom', hruns'⟩ := viable_right hviable hroom hruns hbp hrule
    exact ih hstarts hroom' hruns'
  | @binary n bp ts mid rest left right out hbp hrule hr _ ihr ihf =>
    obtain ⟨hstarts, hroom', hruns'⟩ := viable_right hviable hroom hruns hbp hrule
    obtain ⟨-, hmid⟩ := ihr hstarts hroom' hruns'
    exact ihf hmid hroom (hruns'.suffix hr.suffix)

/-! ### Programs -/

theorem readsStatement_succeeds {out : Except Diagnostic Statement}
    (h : ReadsStatement .standard finish Parser.maxDepth ts out rest) (hne : ts ≠ [])
    (hprogram : IsProgram ts) (hruns : ShortRuns 251 ts) :
    (∃ statement, out = .ok statement) ∧ IsProgram rest.tail := by
  have hstarts := hprogram.starts hne finish
  cases h with
  | assignment hname hassign h =>
    have hvalue : Starts ts.tail.tail := by
      rcases hstarts with hstarts | ⟨-, -, h⟩
      · rcases hstarts.front finish with ⟨hsign | hsign, -⟩ | ⟨-, hfollows⟩
        · simp_all
        · simp_all
        · exact absurd hassign (hfollows.front_kind_ne_assign finish)
      · exact h
    have hsuffix : ts.tail.tail <:+ ts := (List.tail_suffix _).trans (List.tail_suffix _)
    have hruns' := hruns.suffix hsuffix
    obtain ⟨⟨value, rfl⟩, hfollows⟩ := reads_succeeds h hvalue hruns'.room hruns'
    exact ⟨⟨_, rfl⟩, hfollows.isProgram (h.stops rfl)⟩
  | expression hstart h =>
    rcases hstarts with hstarts | ⟨hname, hassign, -⟩
    · obtain ⟨⟨e, rfl⟩, hfollows⟩ := reads_succeeds h hstarts hruns.room hruns
      exact ⟨⟨_, rfl⟩, hfollows.isProgram (h.stops rfl)⟩
    · exact absurd ⟨hname, hassign⟩ hstart

theorem faultsOf_eq_nil_of_isProgram
    (h : ReadsProgram .standard finish Parser.maxDepth ts outs) (hprogram : IsProgram ts)
    (hruns : ShortRuns 251 ts) : faultsOf outs = [] := by
  induction h with
  | nil => rfl
  | @cons ts rest out outs hne h _ ih =>
    obtain ⟨⟨statement, rfl⟩, hrest⟩ := readsStatement_succeeds h hne hprogram hruns
    exact ih hrest (hruns.suffix ((List.tail_suffix _).trans h.suffix))

theorem shortRuns_of_runs {bound : Nat} {us : List Token} (hts : ts <:+: us)
    (h : ∀ run, run <:+: us → (∀ t ∈ run, IsSign t) → run.length ≤ bound) :
    ShortRuns bound ts := by
  intro vs hvs
  refine h _ (((List.takeWhile_prefix _).isInfix.trans hvs.isInfix).trans hts) fun t ht => ?_
  simpa [IsSign] using List.mem_takeWhile_imp ht

end ExprFront.Grammar

namespace ExprFront

open Grammar

/-- The parser accepts its grammar: where no more than 251 signs ever stand in a row, a text is read
without a fault exactly when its tokens are a program. -/
theorem parse_faults_eq_nil_iff (source : String)
    (hruns : ∀ run, run <:+: tokenize source →
      (∀ t ∈ run, t.kind = .minus ∨ t.kind = .bang) → run.length ≤ 251) :
    (parse source).2 = [] ↔ IsProgram (tokenize source).dropLast := by
  obtain ⟨outs, h, hparse⟩ := Parser.exists_readsProgram_parse source
  have htokens : (tokenize source).dropLast = (Scanner.ofString source).tokens := by
    rw [tokenize_eq, List.dropLast_concat]
  rw [hparse, htokens]
  constructor
  · exact isProgram_of_readsProgram h
  · intro hprogram
    refine faultsOf_eq_nil_of_isProgram h hprogram (shortRuns_of_runs ?_ hruns)
    rw [← htokens]
    exact (List.dropLast_prefix _).isInfix

/-- Three statements without a mark between them, with a sign in two places. -/
theorem parse_faults_eq_nil_iff_signs :
    (parse "x = -1 y !z").2 = [] ∧ IsProgram (tokenize "x = -1 y !z").dropLast := by
  have hfaults : (parse "x = -1 y !z").2 = [] := by decide +kernel
  have hlength : (tokenize "x = -1 y !z").length ≤ 251 := by decide +kernel
  exact ⟨hfaults,
    (parse_faults_eq_nil_iff _ fun _ hrun _ => hrun.length_le.trans hlength).mp hfaults⟩

end ExprFront
