import ExprFront.Proofs.Precedence.Order
import ExprFront.Proofs.RoundTrip

/-! Canonical trees: those in which precedence and associativity put every operator where it stands.
Precedence is said by the operators' own levels, with which the order of the parser's powers agrees.
Since no parentheses are printed, canonical trees are exactly those that are read back from their
printed form, as long as the reader has the levels that they need. -/

namespace ExprFront

/-- The level of an operator between operands, from comparisons for equality up to products. -/
def operatorLevel : String → Nat
  | "==" | "!=" => 1
  | "<" | ">" => 2
  | "+" | "-" => 3
  | "*" | "/" => 4
  | _ => 0

/-- The parser's powers are ordered as the levels are. -/
theorem power_le_iff_level : ∀ op ∈ operatorTexts, ∀ op' ∈ operatorTexts,
    Rules.standard.power (operatorKind op) ≤ Rules.standard.power (operatorKind op') ↔
      operatorLevel op ≤ operatorLevel op' := by decide

theorem power_lt_iff_level {op op' : String} (hop : op ∈ operatorTexts)
    (hop' : op' ∈ operatorTexts) :
    Rules.standard.power (operatorKind op) < Rules.standard.power (operatorKind op') ↔
      operatorLevel op < operatorLevel op' := by
  rw [← not_iff_not, BindingPower.not_lt, Nat.not_lt, power_le_iff_level op' hop' op hop]

theorem infixRule_operatorKind :
    ∀ op ∈ operatorTexts, Rules.standard.infixRule (operatorKind op) = some .binary := by decide

theorem prefixRule_operatorKind :
    ∀ op ∈ signTexts, Rules.standard.prefixRule (operatorKind op) = some .operator := by decide

namespace Expr

/-- The level of the operator on top, if it stands between two operands. -/
def level? : Expr → Option Nat
  | .binary _ operator _ _ => some (operatorLevel operator)
  | _ => none

/-- Operators on the left are at least at the level of the one they stand under, those on the right
are above it, and there is none behind a sign. -/
def Canonical : Expr → Prop
  | .ident _ | .int _ _ => True
  | .unary _ _ operand => operand.level? = none ∧ operand.Canonical
  | .binary _ operator left right =>
    (∀ level ∈ left.level?, operatorLevel operator ≤ level) ∧
      (∀ level ∈ right.level?, operatorLevel operator < level) ∧ left.Canonical ∧ right.Canonical

instance decidableCanonical : (e : Expr) → Decidable e.Canonical
  | .ident _ | .int _ _ => isTrue trivial
  | .unary _ _ operand =>
    have := decidableCanonical operand
    inferInstanceAs (Decidable (_ ∧ _))
  | .binary _ _ left right =>
    have := decidableCanonical left
    have := decidableCanonical right
    inferInstanceAs (Decidable (_ ∧ _ ∧ _ ∧ _))

theorem level?_mapToken (f : Token → Token) (e : Expr) : (e.mapToken f).level? = e.level? := by
  cases e <;> rfl

theorem canonical_mapToken (f : Token → Token) (e : Expr) :
    (e.mapToken f).Canonical ↔ e.Canonical := by
  induction e with
  | ident | int => rfl
  | unary token operator operand ih => simp only [mapToken, Canonical, level?_mapToken, ih]
  | binary token operator left right ihl ihr =>
    simp only [mapToken, Canonical, level?_mapToken, ihl, ihr]

/-- Being canonical is a matter of shape, and so are the levels that are needed. -/
theorem canonical_congr {e e' : Expr} (h : e.shape = e'.shape) :
    (e.Canonical ↔ e'.Canonical) ∧ e.need = e'.need := by
  constructor
  · rw [← canonical_mapToken _ e, ← canonical_mapToken _ e']
    exact iff_of_eq (congrArg Canonical h)
  · rw [← need_mapToken _ e, ← need_mapToken _ e']
    exact congrArg need h

/-! ### Canonical trees are the ordered ones -/

/-- The token of every operator between operands is one of that operator. -/
def Matches : Expr → Prop
  | .ident _ | .int _ _ => True
  | .unary _ _ operand => operand.Matches
  | .binary token operator left right =>
    operator ∈ operatorTexts ∧ token.kind = operatorKind operator ∧ left.Matches ∧ right.Matches

theorem matches_of_faithful {e : Expr} (hf : e.Faithful .standard)
    (hspells : ∀ t ∈ e.yield, t.kind.Spells t.literal.toList) : e.Matches := by
  induction e with
  | ident | int => trivial
  | unary token operator operand ih => exact ih hf.2.2 (List.forall_mem_cons.mp hspells).2
  | binary token operator left right ihl ihr =>
    obtain ⟨hrule, rfl, hleft, hright⟩ := hf
    obtain ⟨htokens, htail⟩ := List.forall_mem_append.mp hspells
    obtain ⟨htoken, htokens'⟩ := List.forall_mem_cons.mp htail
    obtain ⟨hmem, hkind⟩ :=
      mem_operators_of_spells (Rules.standard_infixRule_eq_binary.mp hrule) htoken
    exact ⟨hmem, hkind.symm, ihl hleft htokens, ihr hright htokens'⟩

/-- How the operator on top compares to another one can be told by powers or by levels. -/
theorem forall_top_iff_level? {e : Expr} (h : e.Matches) {op : String} (hop : op ∈ operatorTexts) :
    ((∀ q ∈ e.top Rules.standard.power, Rules.standard.power (operatorKind op) ≤ q) ↔
      ∀ level ∈ e.level?, operatorLevel op ≤ level) ∧
    ((∀ q ∈ e.top Rules.standard.power, Rules.standard.power (operatorKind op) < q) ↔
      ∀ level ∈ e.level?, operatorLevel op < level) := by
  cases e with
  | ident | int | unary => simp [top, level?]
  | binary token operator left right =>
    obtain ⟨hmem, hkind, -⟩ := h
    simp only [top, level?, Option.mem_some_iff, forall_eq', hkind]
    exact ⟨power_le_iff_level op hop operator hmem, power_lt_iff_level hop hmem⟩

theorem ordered_iff_canonical {e : Expr} (h : e.Matches) :
    e.Ordered Rules.standard.power ↔ e.Canonical := by
  induction e with
  | ident | int => rfl
  | unary token operator operand ih =>
    have htop : (∀ q ∈ operand.top Rules.standard.power, BindingPower.unary < q) ↔
        operand.level? = none := by
      cases operand with
      | ident | int | unary => simp [top, level?]
      | binary t op left right =>
        have hlt := Rules.standard_power_lt_unary t.kind
        simp only [top, level?, Option.mem_some_iff, forall_eq', reduceCtorEq, iff_false]
        exact BindingPower.lt_asymm hlt
    exact and_congr htop (ih h)
  | binary token operator left right ihl ihr =>
    obtain ⟨hmem, hkind, hleft, hright⟩ := h
    rw [Ordered, Canonical, hkind, (forall_top_iff_level? hleft hmem).1,
      (forall_top_iff_level? hright hmem).2, ihl hleft, ihr hright]

/-! ### Trees over given tokens -/

/-- Tokens with the words of a tree are the tokens of a tree of its shape. -/
theorem exists_yield_eq {e : Expr} (he : e.Printable) {ts : List Token}
    (h : ts.map Token.word = e.words) :
    ∃ e' : Expr, e'.shape = e.shape ∧ e'.yield = ts ∧ e'.Faithful .standard := by
  induction e generalizing ts with
  | ident id =>
    obtain ⟨t, rfl, ht⟩ := List.map_eq_singleton_iff.mp h
    obtain ⟨hkind, hliteral⟩ := Token.word_eq_iff.mp ht
    exact ⟨.ident ⟨t, id.name⟩, rfl, rfl, Rules.standard_prefixRule_eq_name.mpr hkind,
      hliteral.symm⟩
  | int token value =>
    obtain ⟨t, rfl, ht⟩ := List.map_eq_singleton_iff.mp h
    obtain ⟨hkind, hliteral⟩ := Token.word_eq_iff.mp ht
    refine ⟨.int t value, rfl, rfl, Rules.standard_prefixRule_eq_integer.mpr hkind, ?_⟩
    rw [hliteral, Numeral.read_toString]
  | unary token operator operand ih =>
    obtain ⟨hmem, hoperand⟩ := he
    obtain ⟨t, us, rfl, ht, hus⟩ := List.map_eq_cons_iff.mp h
    obtain ⟨hkind, hliteral⟩ := Token.word_eq_iff.mp ht
    obtain ⟨operand', hshape, rfl, hf⟩ := ih hoperand hus
    refine ⟨.unary t operator operand', ?_, rfl, ?_, hliteral.symm, hf⟩
    · exact congrArg (Expr.unary _ operator) hshape
    · rw [hkind]
      exact prefixRule_operatorKind operator hmem
  | binary token operator left right ihl ihr =>
    obtain ⟨hmem, hleft, hright⟩ := he
    obtain ⟨us, vs, rfl, hus, hvs⟩ := List.map_eq_append_iff.mp h
    obtain ⟨t, ws, rfl, ht, hws⟩ := List.map_eq_cons_iff.mp hvs
    obtain ⟨hkind, hliteral⟩ := Token.word_eq_iff.mp ht
    obtain ⟨left', hlshape, rfl, hlf⟩ := ihl hleft hus
    obtain ⟨right', hrshape, rfl, hrf⟩ := ihr hright hws
    refine ⟨.binary t operator left' right', ?_, rfl, ?_, hliteral.symm, hlf, hrf⟩
    · exact congrArg₂ (Expr.binary _ operator) hlshape hrshape
    · rw [hkind]
      exact infixRule_operatorKind operator hmem

/-- Every token of an expression has a rule. -/
theorem rule_ne_none_of_faithful {rules : Rules} {e : Expr} (hf : e.Faithful rules) :
    ∀ t ∈ e.yield, rules.prefixRule t.kind ≠ none ∨ rules.infixRule t.kind ≠ none := by
  induction e with
  | ident | int =>
    intro t ht
    cases List.mem_singleton.mp ht
    exact .inl (by simp [hf.1])
  | unary token operator operand ih =>
    exact List.forall_mem_cons.mpr ⟨.inl (by simp [hf.1]), ih hf.2.2⟩
  | binary token operator left right ihl ihr =>
    obtain ⟨hrule, -, hleft, hright⟩ := hf
    exact List.forall_mem_append.mpr
      ⟨ihl hleft, List.forall_mem_cons.mpr ⟨.inr (by simp [hrule]), ihr hright⟩⟩

end Expr

open ExprFront.Parser

/-- The tokens of an ordered tree, and nothing behind them, are read as one statement. -/
theorem readsProgram_yield {finish : Position} {n : Nat} {e : Expr} (hf : e.Faithful .standard)
    (ho : e.Ordered Rules.standard.power) (hneed : e.need ≤ n + 1) :
    ReadsProgram .standard finish (n + 1) e.yield [.ok (.expression (front finish e.yield) e)] := by
  have hend (q : BindingPower) : Stops .standard finish q [e.last] := .inr rfl
  have htop : ∀ q ∈ e.top Rules.standard.power, BindingPower.lowest < q := by
    cases e with
    | ident | int | unary => simp [Expr.top]
    | binary token operator left right =>
      rintro q ⟨⟩
      exact Rules.standard_lowest_lt_power (Rules.standard_infixRule_eq_binary.mp hf.1)
  have hreads : Reads .standard finish (.expr (n + 1) .lowest) (e.yield ++ []) (.ok e) [e.last] :=
    reads_yield (fun kind => BindingPower.lt_asymm (Rules.standard_power_lt_unary kind)) hf ho hneed
      (fun q hq => ⟨htop q hq, hend q⟩) (.stop (hend _))
  rw [List.append_nil] at hreads
  have hstart : ¬ ((front finish e.yield).kind = .ident ∧
      (front finish e.yield.tail).kind = .assign) := by
    rintro ⟨-, hassign⟩
    cases htail : e.yield.tail with
    | nil => simp [htail, Token.eof] at hassign
    | cons t us =>
      have hmem : t ∈ e.yield := List.mem_of_mem_tail (htail ▸ List.mem_cons_self ..)
      rw [htail, front_cons] at hassign
      have hrule := Expr.rule_ne_none_of_faithful hf t hmem
      rw [hassign] at hrule
      revert hrule
      decide
  exact .cons e.yield_ne_nil (.expression hstart hreads) .nil

/-- The trees that are read back from their printed form are the canonical ones of at most 256
levels. -/
theorem parse_render_eq_iff_canonical {e : Expr} (he : e.Printable) :
    (∃ token e', parse e.render = (⟨[.expression token e']⟩, []) ∧ e'.shape = e.shape) ↔
      e.Canonical ∧ e.need ≤ 256 := by
  obtain ⟨outs, hreads, hparse⟩ := exists_readsProgram_parse e.render
  have hspells : ∀ t ∈ (Scanner.ofString e.render).tokens, t.kind.Spells t.literal.toList :=
    fun t ht => Scanner.spells_of_mem_tokens ht
  constructor
  · rintro ⟨token, e', hresult, hshape⟩
    rw [hparse] at hresult
    obtain ⟨hprogram, hfaults⟩ := Prod.mk.inj hresult
    have hstatements : statementsOf outs = [.expression token e'] := Program.mk.inj hprogram
    have hyield := hreads.flatMap_yield Rules.standard_ungrouped hfaults
    have hf := hreads.faithful Rules.standard_ungrouped (.expression token e')
      (by simp [hstatements])
    have ho := hreads.ordered Rules.standard_prefixRule_ne_group (.expression token e')
      (by simp [hstatements])
    have hyield' : e'.yield = (Scanner.ofString e.render).tokens := by
      simpa [hstatements, Statement.yield] using hyield
    have hmatches := Expr.matches_of_faithful hf.2 (hyield' ▸ hspells)
    obtain ⟨hcanonical, hneed⟩ := Expr.canonical_congr hshape
    rw [← hcanonical, ← hneed, ← Expr.ordered_iff_canonical hmatches]
    exact ho
  · rintro ⟨hcanonical, hneed⟩
    have hlexes := Expr.lexes_render he (by simp [Breaks] : Breaks []) (.nil (by simp))
    rw [List.append_nil, List.append_nil] at hlexes
    obtain ⟨e', hshape, hyield, hf⟩ := Expr.exists_yield_eq he (hlexes.tokens_eq .start)
    have hmatches := Expr.matches_of_faithful hf (fun t ht => hspells t (hyield ▸ ht))
    obtain ⟨hcanonical', hneed'⟩ := Expr.canonical_congr hshape
    have ho := (Expr.ordered_iff_canonical hmatches).mpr (hcanonical'.mpr hcanonical)
    have hprogram : ReadsProgram .standard (Scanner.ofString e.render).finish maxDepth e'.yield _ :=
      readsProgram_yield hf ho (hneed'.trans_le hneed)
    rw [hyield] at hprogram
    rw [hparse, hreads.unique standard_infixRule_eof hprogram]
    exact ⟨_, e', rfl, hshape⟩

/-- The tree of a name, without a token. -/
def Expr.bare (name : String) : Expr := .ident ⟨.eof .start, name⟩

/-- The tree of an operation, without a token. -/
def Expr.between (left : Expr) (operator : String) (right : Expr) : Expr :=
  .binary (.eof .start) operator left right

/-- The trees of `a-(-b)` and `a==b<c+d*e` are read back from their printed forms. That of `a-(b-c)`
is not, and of the trees that are printed as `a+b*c` only that of `a+(b*c)` is. -/
theorem parse_render_eq_iff_canonical_mixed :
    (∃ token e, parse "a--b" = (⟨[.expression token e]⟩, []) ∧
      e.shape = .between (.bare "a") "-" (.unary (.eof .start) "-" (.bare "b"))) ∧
    (∃ token e, parse "a==b<c+d*e" = (⟨[.expression token e]⟩, []) ∧
      e.shape = .between (.bare "a") "==" (.between (.bare "b") "<" (.between (.bare "c") "+"
        (.between (.bare "d") "*" (.bare "e"))))) ∧
    (¬ ∃ token e, parse "a-b-c" = (⟨[.expression token e]⟩, []) ∧
      e.shape = .between (.bare "a") "-" (.between (.bare "b") "-" (.bare "c"))) ∧
    (∃ token e, parse "a+b*c" = (⟨[.expression token e]⟩, []) ∧
      e.shape = .between (.bare "a") "+" (.between (.bare "b") "*" (.bare "c"))) ∧
    ¬ ∃ token e, parse "a+b*c" = (⟨[.expression token e]⟩, []) ∧
      e.shape = .between (.between (.bare "a") "+" (.bare "b")) "*" (.bare "c") := by
  have ha : (Expr.bare "a").Printable := TokenKind.spells_letter rfl
  have hb : (Expr.bare "b").Printable := TokenKind.spells_letter rfl
  have hc : (Expr.bare "c").Printable := TokenKind.spells_letter rfl
  have hd : (Expr.bare "d").Printable := TokenKind.spells_letter rfl
  have he : (Expr.bare "e").Printable := TokenKind.spells_letter rfl
  have hsign := @parse_render_eq_iff_canonical
    (.between (.bare "a") "-" (.unary (.eof .start) "-" (.bare "b"))) ⟨by decide, ha, by decide, hb⟩
  have hlevels := @parse_render_eq_iff_canonical
    (.between (.bare "a") "==" (.between (.bare "b") "<" (.between (.bare "c") "+"
      (.between (.bare "d") "*" (.bare "e")))))
    ⟨by decide, ha, by decide, hb, by decide, hc, by decide, hd, he⟩
  have hassoc := @parse_render_eq_iff_canonical
    (.between (.bare "a") "-" (.between (.bare "b") "-" (.bare "c")))
    ⟨by decide, ha, by decide, hb, hc⟩
  have hsum := @parse_render_eq_iff_canonical
    (.between (.bare "a") "+" (.between (.bare "b") "*" (.bare "c")))
    ⟨by decide, ha, by decide, hb, hc⟩
  have hproduct := @parse_render_eq_iff_canonical
    (.between (.between (.bare "a") "+" (.bare "b")) "*" (.bare "c"))
    ⟨by decide, ⟨by decide, ha, hb⟩, hc⟩
  exact ⟨hsign.mpr (by decide), hlevels.mpr (by decide), hassoc.not.mpr (by decide),
    hsum.mpr (by decide), hproduct.not.mpr (by decide)⟩

end ExprFront
