import ExprFront.Proofs.Precedence.Registration

/-! Rules for kinds of token that a text does not have. Whether it succeeds or fails, a reading asks
about the kinds of the tokens ahead and of the end token, and about no others. So rules that agree on
these kinds read a text alike, and registering rules for other kinds changes nothing. -/

namespace ExprFront

/-! ### Agreement -/

namespace Rules

/-- The rules say the same about a kind. -/
structure Agree (rules rules' : Rules) (kind : TokenKind) : Prop where
  prefixRule : rules'.prefixRule kind = rules.prefixRule kind
  infixRule : rules'.infixRule kind = rules.infixRule kind
  power : rules'.power kind = rules.power kind

variable {rules : Rules} {kind : TokenKind}

theorem Agree.refl (rules : Rules) (kind : TokenKind) : rules.Agree rules kind := ⟨rfl, rfl, rfl⟩

theorem Agree.trans {rules' rules'' : Rules} (h : rules.Agree rules' kind)
    (h' : rules'.Agree rules'' kind) : rules.Agree rules'' kind :=
  ⟨h'.prefixRule.trans h.prefixRule, h'.infixRule.trans h.infixRule, h'.power.trans h.power⟩

end Rules

/-- The kind that is given a meaning. -/
def Registration.kind : Registration → TokenKind
  | .start kind _ => kind
  | .between entry => entry.kind

namespace Rules

variable {rules : Rules} {kind : TokenKind}

theorem agree_register {registration : Registration} (h : kind ≠ registration.kind) :
    rules.Agree (rules.register registration) kind := by
  cases registration with
  | start other rule => exact ⟨if_neg h, rfl, rfl⟩
  | between entry =>
    have hpower := rules.power_register_between entry kind
    exact ⟨rfl, if_neg h, hpower.trans (if_neg (Ne.symm h))⟩

theorem agree_registerAll {registrations : List Registration}
    (h : ∀ registration ∈ registrations, kind ≠ registration.kind) :
    rules.Agree (rules.registerAll registrations) kind := by
  induction registrations generalizing rules with
  | nil => exact .refl rules kind
  | cons registration registrations ih =>
    rw [List.forall_mem_cons] at h
    exact (agree_register h.1).trans (ih h.2)

end Rules

/-! ### Rules that agree read alike -/

namespace Parser

variable {rules rules' : Rules} {finish : Position} {task : Task} {levels : Nat}
  {ts us rest : List Token}

/-- The rules agree on the kinds of the tokens ahead and of the end token. -/
def AgreeAhead (rules rules' : Rules) (finish : Position) (ts : List Token) : Prop :=
  ∀ us, us <:+ ts → rules.Agree rules' (front finish us).kind

namespace AgreeAhead

variable (h : AgreeAhead rules rules' finish ts)
include h

theorem suffix (hus : us <:+ ts) : AgreeAhead rules rules' finish us :=
  fun vs hvs => h vs (hvs.trans hus)

theorem tail : AgreeAhead rules rules' finish ts.tail := h.suffix (List.tail_suffix _)

theorem front : rules.Agree rules' (front finish ts).kind := h ts (List.suffix_refl _)

end AgreeAhead

theorem Reads.of_agree {out : Except Diagnostic Expr} (h : Reads rules finish task ts out rest)
    (hagree : AgreeAhead rules rules' finish ts) : Reads rules' finish task ts out rest := by
  induction h with
  | tooDeep => exact .tooDeep
  | noOperand _ ih => exact .noOperand (ih hagree)
  | expr hl _ ihl ihf => exact .expr (ihl hagree) (ihf (hagree.suffix hl.suffix))
  | noRule hrule => exact .noRule (hagree.front.prefixRule.trans hrule)
  | name hrule => exact .name (hagree.front.prefixRule.trans hrule)
  | integer hrule hvalue => exact .integer (hagree.front.prefixRule.trans hrule) hvalue
  | badInteger hrule herror => exact .badInteger (hagree.front.prefixRule.trans hrule) herror
  | unary hrule _ ih => exact .unary (hagree.front.prefixRule.trans hrule) (ih hagree.tail)
  | groupFault hrule _ ih =>
    exact .groupFault (hagree.front.prefixRule.trans hrule) (ih hagree.tail)
  | unclosed hrule _ hclose ih =>
    exact .unclosed (hagree.front.prefixRule.trans hrule) (ih hagree.tail) hclose
  | group hrule _ hclose ih =>
    exact .group (hagree.front.prefixRule.trans hrule) (ih hagree.tail) hclose
  | stop hstop =>
    have hnext := hagree.tail.front
    exact .stop (by rwa [Stops, hnext.power, hnext.infixRule])
  | noRight hbp hrule _ ih =>
    have hnext := hagree.tail.front
    refine .noRight (by rwa [hnext.power]) (hnext.infixRule.trans hrule) ?_
    rw [hnext.power]
    exact ih hagree.tail.tail
  | binary hbp hrule hr _ ihr ihf =>
    have hnext := hagree.tail.front
    refine .binary (by rwa [hnext.power]) (hnext.infixRule.trans hrule) ?_
      (ihf (hagree.tail.tail.suffix hr.suffix))
    rw [hnext.power]
    exact ihr hagree.tail.tail

theorem ReadsStatement.of_agree {out : Except Diagnostic Statement}
    (h : ReadsStatement rules finish levels ts out rest)
    (hagree : AgreeAhead rules rules' finish ts) :
    ReadsStatement rules' finish levels ts out rest := by
  cases h with
  | assignment hname hassign h => exact .assignment hname hassign (h.of_agree hagree.tail.tail)
  | expression hstart h => exact .expression hstart (h.of_agree hagree)

theorem ReadsProgram.of_agree {outs : List (Except Diagnostic Statement)}
    (h : ReadsProgram rules finish levels ts outs)
    (hagree : AgreeAhead rules rules' finish ts) :
    ReadsProgram rules' finish levels ts outs := by
  induction h with
  | nil => exact .nil
  | cons hne h _ ih =>
    exact .cons hne (h.of_agree hagree) (ih (hagree.suffix h.suffix).tail)

/-! ### Kinds that do not occur -/

theorem front_mem_tokenize {source : String} (hus : us <:+ (Scanner.ofString source).tokens) :
    front (Scanner.ofString source).finish us ∈ tokenize source := by
  rw [tokenize_eq]
  cases us with
  | nil => simp
  | cons u us => exact List.mem_append_left _ (hus.subset (List.mem_cons_self ..))

/-- Rules for kinds that no token of the text has, the end token included, change neither the
program nor the faults. -/
theorem readProgram_registerAll_of_absent (source : String) (registrations : List Registration)
    (habsent : ∀ registration ∈ registrations, ∀ t ∈ tokenize source,
      t.kind ≠ registration.kind) :
    (((Parser.ofString source).registerAll registrations).readProgram.1,
      ((Parser.ofString source).registerAll registrations).readProgram.2.errors) =
        parse source := by
  obtain ⟨outs, h, hparse⟩ := exists_readsProgram_parse source
  obtain ⟨outs', h', hread⟩ := exists_readProgram_registerAll source registrations
  have hagree : AgreeAhead .standard (Rules.standard.registerAll registrations)
      (Scanner.ofString source).finish (Scanner.ofString source).tokens :=
    fun us hus => Rules.agree_registerAll fun registration hmem =>
      habsent registration hmem _ (front_mem_tokenize hus)
  have hregular := Rules.standard_regular.registerAll registrations
  rw [hparse, hread, h'.unique hregular.infixRule_eof (h.of_agree hagree)]
  simp [errors]

/-- Groups in parentheses, and `%` both before and between operands. -/
def parensAndPercent : List Registration :=
  [.start .lParen .group, .start .percent .operator] ++ tightPercent.map .between

/-- `(` and `%` are given meanings in front of a text that has neither, but two faults. -/
theorem readProgram_registerAll_of_absent_percent :
    (parse "x = 1 # -09").2.length = 2 ∧
      ((((Parser.ofString "x = 1 # -09").registerAll parensAndPercent).readProgram.1,
        ((Parser.ofString "x = 1 # -09").registerAll parensAndPercent).readProgram.2.errors) =
          parse "x = 1 # -09") :=
  ⟨by decide +kernel, readProgram_registerAll_of_absent _ _ (by decide +kernel)⟩

end Parser

end ExprFront
