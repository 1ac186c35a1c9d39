import ExprFront.Proofs.Canonical
import ExprFront.Proofs.Precedence.Registration
import ExprFront.Proofs.Token.Cutting

/-! Parentheses, for a parser that is given the rule for them. A tree is written with parentheses
around every operand; then precedence has nothing to decide, and every tree is read back, canonical
or not. A sign takes two levels, one for its operand and one for the group that the operand is. The
group on the left of an operator is read in place of an operand of its own, and so takes only one.
Where the levels do not suffice for this, the fault is that the nesting is too deep. -/

namespace ExprFront

/-- The rules of the language, and parentheses for groups. -/
def Rules.grouping : Rules := Rules.standard.registerPrefix .lParen .group

/-! ### Trees with all their parentheses -/

/-- A text between parentheses, with a gap on both sides of it. -/
def inParens (gap text : String) : String := "(" ++ gap ++ text ++ gap ++ ")"

namespace Expr

/-- The written form of a tree with every operand in parentheses, and a gap between any two words. -/
def grouped (gap : String) : Expr → String
  | .ident id => id.name
  | .int _ value => toString value.toInt
  | .unary _ operator operand => operator ++ gap ++ inParens gap (operand.grouped gap)
  | .binary _ operator left right =>
    inParens gap (left.grouped gap) ++ gap ++ operator ++ gap ++ inParens gap (right.grouped gap)

/-- The levels that reading this form takes. -/
def groupedDepth : Expr → Nat
  | .ident _ | .int _ _ => 1
  | .unary _ _ operand => 2 + operand.groupedDepth
  | .binary _ _ left right => max (1 + left.groupedDepth) (2 + right.groupedDepth)

/-- The words of this form. -/
def groupedWords : Expr → List (TokenKind × List Char)
  | .ident id => [(.ident, id.name.toList)]
  | .int _ value => [(.number, (toString value.toInt).toList)]
  | .unary _ operator operand =>
    (operatorKind operator, operator.toList) :: (.lParen, ['(']) ::
      (operand.groupedWords ++ [(.rParen, [')'])])
  | .binary _ operator left right =>
    (.lParen, ['(']) :: (left.groupedWords ++ (.rParen, [')']) ::
      (operatorKind operator, operator.toList) :: (.lParen, ['(']) ::
        (right.groupedWords ++ [(.rParen, [')'])]))

theorem groupedDepth_mapToken (f : Token → Token) (e : Expr) :
    (e.mapToken f).groupedDepth = e.groupedDepth := by
  induction e with
  | ident | int => rfl
  | unary token operator operand ih => simp [mapToken, groupedDepth, ih]
  | binary token operator left right ihl ihr => simp [mapToken, groupedDepth, ihl, ihr]

theorem groupedDepth_congr {e e' : Expr} (h : e.shape = e'.shape) :
    e.groupedDepth = e'.groupedDepth := by
  rw [← groupedDepth_mapToken _ e, ← groupedDepth_mapToken _ e']
  exact congrArg groupedDepth h

end Expr

/-! ### The words of the text -/

theorem Lexes.blanks_append {gap cs : List Char} {words : List (TokenKind × List Char)}
    (hgap : ∀ c ∈ gap, c ∈ blanks) (h : Lexes cs words) : Lexes (gap ++ cs) words := by
  induction gap with
  | nil => exact h
  | cons c gap ih =>
    rw [List.forall_mem_cons] at hgap
    exact .blank hgap.1 (ih hgap.2)

/-- A parenthesis ends every word, be it at once or behind a gap. -/
theorem TokenKind.ends_gap_paren (kind : TokenKind) {gap : List Char} {c : Char}
    (hgap : ∀ c ∈ gap, c ∈ blanks) (hc : c = '(' ∨ c = ')') (cs : List Char) :
    kind.Ends (gap ++ c :: cs) := by
  cases gap with
  | nil =>
    rw [List.nil_append, TokenKind.ends_cons]
    rcases hc with rfl | rfl <;> cases kind <;> decide
  | cons b gap =>
    rw [List.cons_append, TokenKind.ends_cons]
    exact kind.continuedBy_of_mem_blanks (hgap b (List.mem_cons_self ..))

section Text

variable {gap : String} (hgap : ∀ c ∈ gap.toList, c ∈ blanks)
include hgap

/-- A text between parentheses is cut into its words, if they end where a parenthesis follows. -/
theorem lexes_inParens {text : String} {words words' : List (TokenKind × List Char)}
    {rest : List Char}
    (htext : ∀ {rest words'}, (∀ kind : TokenKind, kind.Ends rest) → Lexes rest words' →
      Lexes (text.toList ++ rest) (words ++ words'))
    (h : Lexes rest words') :
    Lexes ((inParens gap text).toList ++ rest)
      ((.lParen, ['(']) :: (words ++ (.rParen, [')']) :: words')) := by
  have hopen : TokenKind.lParen.Spells ['('] := ⟨_, rfl, by decide⟩
  have hclose : TokenKind.rParen.Spells [')'] := ⟨_, rfl, by decide⟩
  have hchars : (inParens gap text).toList ++ rest =
      ['('] ++ (gap.toList ++ (text.toList ++ (gap.toList ++ ([')'] ++ rest)))) := by
    simp [inParens]
  rw [hchars]
  refine .word hopen (fun _ _ => rfl) (.blanks_append hgap (htext ?_ (.blanks_append hgap ?_)))
  · exact fun kind => kind.ends_gap_paren hgap (.inr rfl) rest
  · exact .word hclose (fun _ _ => rfl) h

theorem Expr.lexes_grouped {e : Expr} (he : e.Printable) {rest : List Char}
    {words' : List (TokenKind × List Char)} (hrest : ∀ kind : TokenKind, kind.Ends rest)
    (h : Lexes rest words') : Lexes ((e.grouped gap).toList ++ rest) (e.groupedWords ++ words') := by
  induction e generalizing rest words' with
  | ident id => exact .word he (hrest _) h
  | int token value => exact .word (spells_toString he) (hrest _) h
  | unary token operator operand ih =>
    obtain ⟨hop, hoperand⟩ := he
    have hgroup := lexes_inParens hgap (ih hoperand) h
    have hends : (operatorKind operator).Ends
        (gap.toList ++ ((inParens gap (operand.grouped gap)).toList ++ rest)) := by
      simpa [inParens] using (operatorKind operator).ends_gap_paren hgap (.inl rfl) _
    simpa [grouped, groupedWords] using .word (spells_of_mem_signs hop) hends (hgroup.blanks_append hgap)
  | binary token operator left right ihl ihr =>
    obtain ⟨hop, hleft, hright⟩ := he
    obtain ⟨hspells, hends⟩ := spells_of_mem_operators hop
    have hgroup := lexes_inParens hgap (ihr hright) h
    have hoperator := Lexes.word hspells (hends _) (hgroup.blanks_append hgap)
    simpa [grouped, groupedWords] using lexes_inParens hgap (ihl hleft) (hoperator.blanks_append hgap)

theorem Expr.map_word_tokens_grouped {e : Expr} (he : e.Printable) :
    (Scanner.ofString (e.grouped gap)).tokens.map Token.word = e.groupedWords := by
  have hends : ∀ kind : TokenKind, kind.Ends [] := by simp [TokenKind.Ends]
  have hlexes := lexes_grouped hgap he hends (.nil (by simp))
  rw [List.append_nil, List.append_nil] at hlexes
  exact hlexes.tokens_eq .start

end Text

/-! ### The tokens of a tree in parentheses -/

/-- `Groups e ts`: the tokens are those of the tree, with parentheses around its operands. -/
inductive Groups : Expr → List Token → Prop where
  | name {t : Token} (hkind : t.kind = .ident) : Groups (.ident ⟨t, t.literal⟩) [t]
  | integer {t : Token} {value : Int64} (hkind : t.kind = .number)
      (hvalue : Numeral.read t.literal = .ok value) : Groups (.int t value) [t]
  | unary {t op cl : Token} {operand : Expr} {ts : List Token}
      (hkind : t.kind = .minus ∨ t.kind = .bang) (hop : op.kind = .lParen)
      (hcl : cl.kind = .rParen) :
      Groups operand ts → Groups (.unary t t.literal operand) (t :: op :: (ts ++ [cl]))
  | binary {t op cl op' cl' : Token} {left right : Expr} {ts us : List Token}
      (hkind : t.kind ∈ TokenKind.operators) (hop : op.kind = .lParen) (hcl : cl.kind = .rParen)
      (hop' : op'.kind = .lParen) (hcl' : cl'.kind = .rParen) :
      Groups left ts → Groups right us →
      Groups (.binary t t.literal left right)
        (op :: (ts ++ cl :: t :: op' :: (us ++ [cl'])))

namespace Groups

/-- Tokens with the words of a tree in parentheses are the tokens of a tree of its shape. -/
theorem exists_of_words {e : Expr} (he : e.Printable) {ts : List Token}
    (h : ts.map Token.word = e.groupedWords) : ∃ e' : Expr, e'.shape = e.shape ∧ Groups e' ts := by
  induction e generalizing ts with
  | ident id =>
    obtain ⟨t, rfl, ht⟩ := List.map_eq_singleton_iff.mp h
    obtain ⟨hkind, hliteral⟩ := Token.word_eq_iff.mp ht
    exact ⟨.ident ⟨t, t.literal⟩, by rw [hliteral]; rfl, .name hkind⟩
  | int token value =>
    obtain ⟨t, rfl, ht⟩ := List.map_eq_singleton_iff.mp h
    obtain ⟨hkind, hliteral⟩ := Token.word_eq_iff.mp ht
    exact ⟨.int t value, rfl, .integer hkind (hliteral ▸ Numeral.read_toString value)⟩
  | unary token operator operand ih =>
    obtain ⟨hmem, hoperand⟩ := he
    obtain ⟨t, us, rfl, ht, hus⟩ := List.map_eq_cons_iff.mp h
    obtain ⟨op, vs, rfl, hop, hvs⟩ := List.map_eq_cons_iff.mp hus
    obtain ⟨ts, ws, rfl, hts, hws⟩ := List.map_eq_append_iff.mp hvs
    obtain ⟨cl, rfl, hcl⟩ := List.map_eq_singleton_iff.mp hws
    obtain ⟨hkind, hliteral⟩ := Token.word_eq_iff.mp ht
    obtain ⟨operand', hshape, hgroups⟩ := ih hoperand hts
    refine ⟨.unary t t.literal operand', ?_,
      .unary ?_ (congrArg Prod.fst hop) (congrArg Prod.fst hcl) hgroups⟩
    · rw [hliteral]
      exact congrArg (Expr.unary _ operator) hshape
    · rw [← Rules.standard_prefixRule_eq_operator, hkind]
      exact prefixRule_operatorKind operator hmem
  | binary token operator left right ihl ihr =>
    obtain ⟨hmem, hleft, hright⟩ := he
    obtain ⟨op, us, rfl, hop, hus⟩ := List.map_eq_cons_iff.mp h
    obtain ⟨ts, vs, rfl, hts, hvs⟩ := List.map_eq_append_iff.mp hus
    obtain ⟨cl, us, rfl, hcl, hus⟩ := List.map_eq_cons_iff.mp hvs
    obtain ⟨t, vs, rfl, ht, hvs⟩ := List.map_eq_cons_iff.mp hus
    obtain ⟨op', us, rfl, hop', hus⟩ := List.map_eq_cons_iff.mp hvs
    obtain ⟨ts', vs, rfl, hts', hvs⟩ := List.map_eq_append_iff.mp hus
    obtain ⟨cl', rfl, hcl'⟩ := List.map_eq_singleton_iff.mp hvs
    obtain ⟨hkind, hliteral⟩ := Token.word_eq_iff.mp ht
    obtain ⟨left', hlshape, hlgroups⟩ := ihl hleft hts
    obtain ⟨right', hrshape, hrgroups⟩ := ihr hright hts'
    refine ⟨.binary t t.literal left' right', ?_,
      .binary ?_ (congrArg Prod.fst hop) (congrArg Prod.fst hcl) (congrArg Prod.fst hop')
        (congrArg Prod.fst hcl') hlgroups hrgroups⟩
    · rw [hliteral]
      exact congrArg₂ (Expr.binary _ operator) hlshape hrshape
    · rw [← Rules.standard_infixRule_eq_binary, hkind]
      exact infixRule_operatorKind operator hmem

theorem ne_nil {e : Expr} {ts : List Token} (h : Groups e ts) : ts ≠ [] := by
  cases h <;> simp

/-- No `=` stands in a tree, so that it is not taken for an assignment. -/
theorem kind_ne_assign {e : Expr} {ts : List Token} (h : Groups e ts) :
    ∀ t ∈ ts, t.kind ≠ .assign := by
  induction h with
  | name hkind | integer hkind => simp [hkind]
  | unary hkind hop hcl _ ih =>
    simp only [List.forall_mem_cons, List.forall_mem_append]
    refine ⟨?_, by simp [hop], ih, by simp [hcl]⟩
    rcases hkind with hkind | hkind <;> simp [hkind]
  | binary hkind hop hcl hop' hcl' _ _ ihl ihr =>
    simp only [List.forall_mem_cons, List.forall_mem_append]
    refine ⟨by simp [hop], ihl, by simp [hcl], ?_, by simp [hop'], ihr, by simp [hcl']⟩
    intro hassign
    rw [hassign] at hkind
    exact absurd hkind (by decide)

end Groups

/-! ### Reading -/

namespace Parser

open Rules (grouping)

variable {finish : Position} {n : Nat} {e : Expr} {op cl : Token}
  {ts tail : List Token}

theorem grouping_prefixRule_of_lParen (hop : op.kind = .lParen) :
    grouping.prefixRule op.kind = some .group := by
  rw [hop]
  rfl

theorem grouping_prefixRule_of_sign (hop : op.kind = .minus ∨ op.kind = .bang) :
    grouping.prefixRule op.kind = some .operator := by
  rcases hop with hop | hop <;> rw [hop] <;> rfl

theorem grouping_infixRule_of_rParen (hcl : cl.kind = .rParen) :
    grouping.infixRule cl.kind = none := by
  rw [hcl]
  rfl

/-- A group is an operand, and ends on its closing parenthesis. -/
theorem reads_group (hop : op.kind = .lParen) (hcl : cl.kind = .rParen)
    (h : ∃ last, Reads grouping finish (.expr n .lowest) (ts ++ cl :: tail) (.ok e)
      (last :: cl :: tail)) :
    Reads grouping finish (.operand n) (op :: (ts ++ cl :: tail)) (.ok e) (cl :: tail) := by
  obtain ⟨last, h⟩ := h
  exact @Reads.group _ _ _ (op :: _) (last :: _) _ (grouping_prefixRule_of_lParen hop) h hcl

/-- A tree in parentheses is read back, given the levels that it takes, if no operator follows. -/
theorem reads_of_groups (h : Groups e ts) (hn : e.groupedDepth ≤ n)
    (htail : grouping.infixRule (front finish tail).kind = none) :
    ∃ last, Reads grouping finish (.expr n .lowest) (ts ++ tail) (.ok e) (last :: tail) := by
  induction h generalizing n tail with
  | @name t hkind =>
    obtain ⟨m, rfl⟩ : ∃ m, n = m + 1 := ⟨n - 1, by simp only [Expr.groupedDepth] at hn; omega⟩
    have hrule : grouping.prefixRule t.kind = some .name := by rw [hkind]; rfl
    have hoperand : Reads grouping finish (.operand m) (t :: tail) _ _ := .name hrule
    exact ⟨t, .expr hoperand (.stop (.inr htail))⟩
  | @integer t value hkind hvalue =>
    obtain ⟨m, rfl⟩ : ∃ m, n = m + 1 := ⟨n - 1, by simp only [Expr.groupedDepth] at hn; omega⟩
    have hrule : grouping.prefixRule t.kind = some .integer := by rw [hkind]; rfl
    have hoperand : Reads grouping finish (.operand m) (t :: tail) _ _ := .integer hrule hvalue
    exact ⟨t, .expr hoperand (.stop (.inr htail))⟩
  | @unary t op cl operand ts hkind hop hcl _ ih =>
    simp only [Expr.groupedDepth] at hn
    obtain ⟨m, rfl⟩ : ∃ m, n = m + 2 := ⟨n - 2, by omega⟩
    have hgroup : Reads grouping finish (.operand m) (op :: (ts ++ cl :: tail)) _ _ :=
      reads_group hop hcl (ih (by omega) (grouping_infixRule_of_rParen hcl))
    have hsign : Reads grouping finish (.operand (m + 1)) (t :: op :: (ts ++ cl :: tail)) _ _ :=
      .unary (grouping_prefixRule_of_sign hkind) (.expr hgroup (.stop (.inr htail)))
    simp only [List.cons_append, List.append_assoc, List.nil_append]
    exact ⟨cl, .expr hsign (.stop (.inr htail))⟩
  | @binary t op cl op' cl' left right ts us hkind hop hcl hop' hcl' _ _ ihl ihr =>
    simp only [Expr.groupedDepth] at hn
    obtain ⟨m, rfl⟩ : ∃ m, n = m + 2 := ⟨n - 2, by omega⟩
    -- The left group is the operand of this expression itself, and has a level more than the right.
    have hleft : Reads grouping finish (.operand (m + 1))
        (op :: (ts ++ cl :: (t :: op' :: (us ++ cl' :: tail)))) _ _ :=
      reads_group hop hcl (ihl (by omega) (grouping_infixRule_of_rParen hcl))
    have hright : Reads grouping finish (.operand m) (op' :: (us ++ cl' :: tail)) _ _ :=
      reads_group hop' hcl' (ihr (by omega) (grouping_infixRule_of_rParen hcl'))
    have hfold : Reads grouping finish (.fold (m + 1) .lowest left)
        (cl :: t :: op' :: (us ++ cl' :: tail)) _ _ :=
      .binary (Rules.standard_lowest_lt_power hkind) (Rules.standard_infixRule_eq_binary.mpr hkind)
        (.expr hright (.stop (.inr htail))) (.stop (.inr htail))
    simp only [List.cons_append, List.append_assoc, List.nil_append]
    exact ⟨cl', .expr hleft hfold⟩

/-- The reading fails for want of levels. -/
def TooDeep (finish : Position) (task : Task) (ts : List Token) : Prop :=
  ∃ t rest, Reads grouping finish task ts (.error ⟨.nestingTooDeep maxDepth, t⟩) rest

theorem tooDeep_zero (bp : BindingPower) (ts : List Token) : TooDeep finish (.expr 0 bp) ts :=
  ⟨_, _, .tooDeep⟩

theorem TooDeep.expr (h : TooDeep finish (.operand n) ts) (bp : BindingPower) :
    TooDeep finish (.expr (n + 1) bp) ts := by
  obtain ⟨t, rest, h⟩ := h
  exact ⟨t, rest, .noOperand h⟩

theorem TooDeep.group (hop : op.kind = .lParen) (h : TooDeep finish (.expr n .lowest) ts) :
    TooDeep finish (.operand n) (op :: ts) := by
  obtain ⟨t, rest, h⟩ := h
  exact ⟨t, rest, @Reads.groupFault _ _ _ (op :: _) _ _ (grouping_prefixRule_of_lParen hop) h⟩

theorem TooDeep.unary {t : Token} (ht : t.kind = .minus ∨ t.kind = .bang)
    (h : TooDeep finish (.expr n .unary) ts) : TooDeep finish (.operand n) (t :: ts) := by
  obtain ⟨u, rest, h⟩ := h
  exact ⟨u, rest, @Reads.unary _ _ _ (t :: _) _ _ (grouping_prefixRule_of_sign ht) h⟩

theorem TooDeep.right {t : Token} {left : Expr} {us : List Token}
    (ht : t.kind ∈ TokenKind.operators)
    (hleft : Reads grouping finish (.operand n) ts (.ok left) (cl :: t :: us))
    (h : TooDeep finish (.expr n (grouping.power t.kind)) us) :
    TooDeep finish (.expr (n + 1) .lowest) ts := by
  obtain ⟨u, rest, h⟩ := h
  have hfold : Reads grouping finish (.fold n .lowest left) (cl :: t :: us) _ _ :=
    .noRight (Rules.standard_lowest_lt_power ht) (Rules.standard_infixRule_eq_binary.mpr ht) h
  exact ⟨u, rest, .expr hleft hfold⟩

/-- A tree in parentheses that takes more levels than there are is too deep. -/
theorem tooDeep_of_groups (h : Groups e ts) (hn : n < e.groupedDepth) (tail : List Token) :
    TooDeep finish (.expr n .lowest) (ts ++ tail) := by
  induction h generalizing n tail with
  | name | integer =>
    rw [Nat.lt_one_iff.mp hn]
    exact tooDeep_zero _ _
  | @unary t op cl operand ts hkind hop hcl _ ih =>
    simp only [Expr.groupedDepth] at hn
    simp only [List.cons_append, List.append_assoc, List.nil_append]
    match n, hn with
    | 0, _ => exact tooDeep_zero _ _
    | 1, _ => exact ((tooDeep_zero _ _).unary hkind).expr _
    | m + 2, hn => exact ((((ih (by omega) _).group hop).expr _).unary hkind).expr _
  | @binary t op cl op' cl' left right ts us hkind hop hcl hop' hcl' hl _ ihl ihr =>
    simp only [Expr.groupedDepth] at hn
    simp only [List.cons_append, List.append_assoc, List.nil_append]
    match n, hn with
    | 0, _ => exact tooDeep_zero _ _
    | m + 1, hn =>
      -- The right group is reached only if the levels suffice for the left one.
      by_cases hdeep : m < left.groupedDepth
      · exact ((ihl hdeep _).group hop).expr _
      · have hleft : Reads grouping finish (.operand m)
            (op :: (ts ++ cl :: (t :: op' :: (us ++ cl' :: tail)))) _ _ :=
          reads_group hop hcl (reads_of_groups hl (by omega) (grouping_infixRule_of_rParen hcl))
        refine TooDeep.right hkind hleft ?_
        match m, hn with
        | 0, _ => exact tooDeep_zero _ _
        | k + 1, hn => exact ((ihr (by omega) _).group hop').expr _

/-! ### Programs -/

/-- A tree in parentheses is a statement of its own, and no assignment. -/
theorem readsStatement_of_groups (h : Groups e ts) {out : Except Diagnostic Expr} {rest : List Token}
    (hread : Reads grouping finish (.expr n .lowest) ts out rest) :
    ReadsStatement grouping finish n ts (out.map (.expression (front finish ts))) rest := by
  refine .expression ?_ hread
  rintro ⟨-, hassign⟩
  cases htail : ts.tail with
  | nil => simp [htail, Token.eof] at hassign
  | cons t us =>
    rw [htail, front_cons] at hassign
    exact h.kind_ne_assign t (List.mem_of_mem_tail (htail ▸ List.mem_cons_self ..)) hassign

theorem readsProgram_of_groups (h : Groups e ts) (hn : e.groupedDepth ≤ n) :
    ReadsProgram grouping finish n ts [.ok (.expression (front finish ts) e)] := by
  obtain ⟨last, hread⟩ : ∃ last, Reads grouping finish (.expr n .lowest) (ts ++ []) (.ok e) [last] :=
    reads_of_groups h hn rfl
  rw [List.append_nil] at hread
  exact .cons h.ne_nil (readsStatement_of_groups h hread) .nil

theorem exists_tooDeep_of_groups (h : Groups e ts) (hn : n < e.groupedDepth)
    {outs : List (Except Diagnostic Statement)} (hprogram : ReadsProgram grouping finish n ts outs) :
    ∃ d ∈ faultsOf outs, d.cause = .nestingTooDeep maxDepth := by
  obtain ⟨t, rest, hread⟩ : TooDeep finish (.expr n .lowest) (ts ++ []) :=
    tooDeep_of_groups h hn []
  rw [List.append_nil] at hread
  cases hprogram with
  | nil => exact absurd rfl h.ne_nil
  | cons _ hstatement _ =>
    obtain ⟨rfl, -⟩ := hstatement.unique rfl (readsStatement_of_groups h hread)
    exact ⟨_, List.mem_cons_self .., rfl⟩

end Parser

open ExprFront.Parser

/-- With a rule for parentheses every tree can be written: its text with all operands in parentheses
is read to a tree of its shape, without a fault, if it takes no more than 256 levels; if it takes
more, the nesting is too deep. The gap between words is any run of blanks, or nothing. -/
theorem readProgram_grouped {e : Expr} (he : e.Printable) {gap : String}
    (hgap : ∀ c ∈ gap.toList, c ∈ blanks) :
    (e.groupedDepth ≤ 256 → ∃ token e' q,
      ((Parser.ofString (e.grouped gap)).registerPrefix .lParen .group).readProgram =
        (⟨[.expression token e']⟩, q) ∧ e'.shape = e.shape ∧ q.errors = []) ∧
    (256 < e.groupedDepth →
      ∃ d ∈ ((Parser.ofString (e.grouped gap)).registerPrefix .lParen .group).readProgram.2.errors,
        d.cause = .nestingTooDeep 256) := by
  obtain ⟨outs, h, hread⟩ :=
    exists_readProgram_registerAll (e.grouped gap) [.start .lParen .group]
  obtain ⟨e', hshape, hgroups⟩ := Groups.exists_of_words he (e.map_word_tokens_grouped hgap he)
  have hdepth := Expr.groupedDepth_congr hshape
  have hparser : (Parser.ofString (e.grouped gap)).registerPrefix .lParen .group =
      (Parser.ofString (e.grouped gap)).registerAll [.start .lParen .group] := rfl
  rw [hparser, hread]
  constructor
  · intro hle
    rw [h.unique rfl (readsProgram_of_groups hgroups (hdepth.trans_le hle))]
    exact ⟨_, e', _, rfl, hshape, rfl⟩
  · intro hlt
    obtain ⟨d, hd, hcause⟩ := exists_tooDeep_of_groups hgroups (hdepth ▸ hlt) h
    exact ⟨d, by simpa [errors] using hd, hcause⟩

/-- `a` behind so many signs. -/
def behindMinus : Nat → Expr
  | 0 => .ident ⟨.eof .start, "a"⟩
  | n + 1 => .unary (.eof .start) "-" (behindMinus n)

theorem behindMinus_printable (n : Nat) :
    (behindMinus n).Printable ∧ (behindMinus n).groupedDepth = 2 * n + 1 := by
  induction n with
  | zero => exact ⟨TokenKind.spells_letter rfl, rfl⟩
  | succ n ih =>
    refine ⟨⟨by decide, ih.1⟩, ?_⟩
    rw [behindMinus, Expr.groupedDepth, ih.2]
    omega

/-- The tree of `a-(b-c)`, which has no written form without parentheses, and 128 signs, each with
its operand in parentheses, which take one level too many. -/
theorem readProgram_grouped_minus :
    (∃ token e' q,
      ((Parser.ofString "( a ) - ( ( b ) - ( c ) )").registerPrefix .lParen .group).readProgram =
        (⟨[.expression token e']⟩, q) ∧
      e'.shape = .binary (.eof .start) "-" (.ident ⟨.eof .start, "a"⟩)
        (.binary (.eof .start) "-" (.ident ⟨.eof .start, "b"⟩) (.ident ⟨.eof .start, "c"⟩)) ∧
      q.errors = []) ∧
    (behindMinus 128).groupedDepth = 257 ∧
    ∃ d ∈ ((Parser.ofString ((behindMinus 128).grouped "")).registerPrefix
        .lParen .group).readProgram.2.errors, d.cause = .nestingTooDeep 256 := by
  have ha : TokenKind.ident.Spells "a".toList := TokenKind.spells_letter rfl
  have hb : TokenKind.ident.Spells "b".toList := TokenKind.spells_letter rfl
  have hc : TokenKind.ident.Spells "c".toList := TokenKind.spells_letter rfl
  obtain ⟨hprintable, hdepth⟩ := behindMinus_printable 128
  have htree := @readProgram_grouped
    (.binary (.eof .start) "-" (.ident ⟨.eof .start, "a"⟩)
      (.binary (.eof .start) "-" (.ident ⟨.eof .start, "b"⟩) (.ident ⟨.eof .start, "c"⟩)))
    ⟨by decide, ha, by decide, hb, hc⟩ " " (by simp [blanks])
  have hsigns := @readProgram_grouped _ hprintable "" (by simp)
  exact ⟨htree.1 (by decide), hdepth, hsigns.2 (by omega)⟩

end ExprFront
