import Mathlib.Data.List.Nodup
import Mathlib.Data.List.Pairwise
import ExprFront.Proofs.Parser.Accounting

/-! Faults and the tokens blamed for them. Soundness: the token of a fault bears out its cause, and
is in no statement of the program. Completeness: a token that has no meaning anywhere, or that is a
numeral without a value, is never passed in silence, however the reading around it fails. It is the
first token left by the reading that meets it, and so it is blamed, exactly once. -/

namespace ExprFront

/-- The kinds of token that stand in no program. -/
def TokenKind.unused : List TokenKind :=
  [.illegal, .percent, .lParen, .rParen, .lBrace, .rBrace, .comma, .function]

/-- The kinds of token that have a meaning, whatever their text. -/
def TokenKind.meaningful : List TokenKind := .ident :: .assign :: .bang :: operators

/-- The token stands in no program: its kind is unused, or it is a numeral without a value. -/
def Token.Offending (t : Token) : Prop :=
  t.kind ∈ TokenKind.unused ∨ t.kind = .number ∧ ∃ error, Numeral.read t.literal = .error error

/-- The token blamed bears out the cause. -/
def Diagnostic.Justified (d : Diagnostic) : Prop :=
  match d.cause with
  | .noPrefixRule kind literal =>
    kind = d.token.kind ∧ literal = d.token.literal ∧
      d.token.kind ∉ [.ident, .number, .bang, .minus]
  | .badInteger literal error =>
    literal = d.token.literal ∧ d.token.kind = .number ∧
      Numeral.read d.token.literal = .error error
  | .nestingTooDeep limit => limit = 256
  | .unexpected _ _ => False

namespace Token.Offending

variable {t : Token}

theorem kind_notMem (h : t.Offending) : t.kind ∉ TokenKind.meaningful := by
  rcases h with hkind | ⟨hkind, -⟩
  · revert hkind
    cases t.kind <;> decide
  · rw [hkind]
    decide

theorem read_ne_ok (h : t.Offending) (hkind : t.kind = .number) (value : Int64) :
    Numeral.read t.literal ≠ .ok value := by
  rcases h with hunused | ⟨-, error, hread⟩
  · rw [hkind] at hunused
    exact absurd hunused (by decide)
  · simp [hread]

end Token.Offending

namespace Parser

variable {finish : Position} {levels : Nat} {task : Task} {ts rest : List Token} {t : Token}

/-! ### Soundness -/

theorem Reads.justified {out : Except Diagnostic Expr} {d : Diagnostic}
    (h : Reads .standard finish task ts out rest) (hout : out = .error d) : d.Justified := by
  induction h with
  | tooDeep =>
    cases hout
    exact rfl
  | noRule hrule =>
    cases hout
    exact ⟨rfl, rfl, Rules.standard_prefixRule_eq_none.mp hrule⟩
  | badInteger hrule herror =>
    cases hout
    exact ⟨rfl, Rules.standard_prefixRule_eq_integer.mp hrule, herror⟩
  | noOperand _ ih => exact ih hout
  | expr _ _ _ ihf => exact ihf hout
  | name | integer | stop => cases hout
  | unary _ _ ih => exact ih (map_eq_error hout)
  | groupFault hrule | unclosed hrule | group hrule =>
    exact absurd hrule (Rules.standard_prefixRule_ne_group _)
  | noRight _ _ _ ih => exact ih hout
  | binary _ _ _ _ _ ihf => exact ihf hout

theorem ReadsStatement.justified {out : Except Diagnostic Statement} {d : Diagnostic}
    (h : ReadsStatement .standard finish levels ts out rest) (hout : out = .error d) :
    d.Justified := by
  cases h with
  | assignment _ _ h | expression _ h => exact h.justified (map_eq_error hout)

theorem ReadsProgram.justified {outs : List (Except Diagnostic Statement)}
    (h : ReadsProgram .standard finish levels ts outs) : ∀ d ∈ faultsOf outs, d.Justified := by
  induction h with
  | nil => simp [faultsOf]
  | @cons ts rest out outs _ h _ ih =>
    cases out with
    | ok statement => exact ih
    | error d => exact List.forall_mem_cons.mpr ⟨h.justified rfl, ih⟩

namespace Segment

theorem statement?_eq_some {segment : Segment} {statement : Statement} :
    segment.statement? = some statement ↔ segment = .kept statement := by
  cases segment <;> simp [statement?]

theorem fault?_eq_some {segment : Segment} {d : Diagnostic} :
    segment.fault? = some d ↔ ∃ us, segment = .dropped us d := by
  cases segment <;> simp [fault?]

/-- Where no token stands twice, a token belongs to one segment only. -/
theorem eq_of_mem_tokens {segments : List Segment} {segment segment' : Segment}
    (hnodup : (segments.flatMap tokens).Nodup) (hmem : segment ∈ segments)
    (hmem' : segment' ∈ segments) (ht : t ∈ segment.tokens) (ht' : t ∈ segment'.tokens) :
    segment = segment' := by
  by_contra hne
  have : Std.Symm (Function.onFun List.Disjoint tokens) :=
    ⟨fun _ _ h _ hleft hright => h hright hleft⟩
  exact (List.nodup_flatMap.mp hnodup).2.forall hmem hmem' hne ht ht'

end Segment

/-- What is given up with a fault is in no statement, and neither is the end token. -/
theorem ReadsProgram.token_notMem_yield {outs : List (Except Diagnostic Statement)}
    (h : ReadsProgram .standard finish levels ts outs)
    (hnodup : (ts ++ [Token.eof finish]).Nodup) {d : Diagnostic} (hd : d ∈ faultsOf outs)
    {statement : Statement} (hs : statement ∈ statementsOf outs) :
    d.token ∉ statement.yield := by
  intro hyield
  obtain ⟨segments, htokens, hstatements, hfaults, -, hblamed⟩ :=
    h.exists_segments Rules.standard_ungrouped
  rw [← htokens] at hnodup
  rw [← hfaults, List.mem_filterMap] at hd
  rw [← hstatements, List.mem_filterMap] at hs
  obtain ⟨_, hdropped, hd⟩ := hd
  obtain ⟨us, rfl⟩ := Segment.fault?_eq_some.mp hd
  obtain ⟨_, hkept, hs⟩ := hs
  rw [Segment.statement?_eq_some] at hs
  subst hs
  obtain ⟨before, after, hsplit⟩ := List.append_of_mem hdropped
  rcases hblamed before us d after hsplit with hlast | ⟨-, heof⟩
  · have heq := Segment.eq_of_mem_tokens hnodup.of_append_left hdropped hkept
      (List.mem_of_getLast? hlast) hyield
    cases heq
  · have hmem : d.token ∈ segments.flatMap Segment.tokens :=
      List.mem_flatMap.mpr ⟨_, hkept, hyield⟩
    exact (List.nodup_append.mp hnodup).2.2 _ hmem _ (by simp) heof

/-! ### Completeness -/

/-- The tokens that a task has not looked at yet; folding starts on a token that was read. -/
def Task.unread (task : Task) (ts : List Token) : List Token :=
  match task with
  | .expr _ _ | .operand _ => ts
  | .fold _ _ _ => ts.tail

/-- The tokens that are not behind a reading: one that succeeds has taken the token it ends on. -/
def remaining {α : Type} (out : Except Diagnostic α) (rest : List Token) : List Token :=
  match out with
  | .ok _ => rest.tail
  | .error _ => rest

theorem remaining_map {α β : Type} (f : α → β) (out : Except Diagnostic α) (rest : List Token) :
    remaining (out.map f) rest = remaining out rest := by
  cases out <;> rfl

theorem mem_tail_of_ne_front (hne : t ≠ front finish ts) (hmem : t ∈ ts) : t ∈ ts.tail := by
  cases ts with
  | nil => cases hmem
  | cons u us =>
    rcases List.mem_cons.mp hmem with rfl | hmem
    · exact absurd rfl hne
    · exact hmem

/-- Passing a token of a kind that has a meaning passes no offending one. -/
theorem mem_tail_of_offending (ht : t.Offending)
    (hkind : (front finish ts).kind ∈ TokenKind.meaningful) (hmem : t ∈ ts) : t ∈ ts.tail := by
  have hne : t ≠ front finish ts := by
    rintro rfl
    exact ht.kind_notMem hkind
  exact mem_tail_of_ne_front hne hmem

theorem meaningful_of_infixRule {kind : TokenKind}
    (hrule : Rules.standard.infixRule kind = some .binary) : kind ∈ TokenKind.meaningful := by
  simp [TokenKind.meaningful, Rules.standard_infixRule_eq_binary.mp hrule]

/-- An offending token ahead is still ahead when the reading ends, whatever it came to. -/
theorem Reads.mem_remaining (ht : t.Offending) {out : Except Diagnostic Expr}
    (h : Reads .standard finish task ts out rest) (hmem : t ∈ task.unread ts) :
    t ∈ remaining out rest := by
  induction h with
  | tooDeep | noRule | badInteger => exact hmem
  | noOperand _ ih => exact ih hmem
  -- The operand is read when folding starts, so the token that it ends on is behind already.
  | expr _ _ ihl ihf => exact ihf (ihl hmem)
  | @name n ts hrule =>
    have hkind : (front finish ts).kind ∈ TokenKind.meaningful := by
      simp [Rules.standard_prefixRule_eq_name.mp hrule, TokenKind.meaningful]
    exact mem_tail_of_offending ht hkind hmem
  | @integer n ts value hrule hvalue =>
    have hne : t ≠ front finish ts := by
      rintro rfl
      exact ht.read_ne_ok (Rules.standard_prefixRule_eq_integer.mp hrule) value hvalue
    exact mem_tail_of_ne_front hne hmem
  | @unary n ts rest out hrule _ ih =>
    have hkind : (front finish ts).kind ∈ TokenKind.meaningful := by
      rcases Rules.standard_prefixRule_eq_operator.mp hrule with h | h <;> rw [h] <;> decide
    rw [remaining_map]
    exact ih (mem_tail_of_offending ht hkind hmem)
  | groupFault hrule | unclosed hrule | group hrule =>
    exact absurd hrule (Rules.standard_prefixRule_ne_group _)
  | stop => exact hmem
  | noRight _ hrule _ ih => exact ih (mem_tail_of_offending ht (meaningful_of_infixRule hrule) hmem)
  | binary _ hrule _ _ ihr ihf =>
    exact ihf (ihr (mem_tail_of_offending ht (meaningful_of_infixRule hrule) hmem))

theorem ReadsStatement.mem_remaining (ht : t.Offending) {out : Except Diagnostic Statement}
    (h : ReadsStatement .standard finish levels ts out rest) (hmem : t ∈ ts) :
    t ∈ remaining out rest := by
  cases h with
  | assignment hname hassign h =>
    have hname' : (front finish ts).kind ∈ TokenKind.meaningful := by rw [hname]; decide
    have hassign' : (front finish ts.tail).kind ∈ TokenKind.meaningful := by rw [hassign]; decide
    rw [remaining_map]
    apply h.mem_remaining ht
    exact mem_tail_of_offending ht hassign' (mem_tail_of_offending ht hname' hmem)
  | expression _ h =>
    rw [remaining_map]
    exact h.mem_remaining ht hmem

/-- Every offending token is blamed: a round of the statement loop passes it only as the token that
its reading stopped on. -/
theorem ReadsProgram.mem_map_token (ht : t.Offending) {outs : List (Except Diagnostic Statement)}
    (h : ReadsProgram .standard finish levels ts outs) (hmem : t ∈ ts) :
    t ∈ (faultsOf outs).map Diagnostic.token := by
  induction h with
  | nil => cases hmem
  | @cons ts rest out outs _ h _ ih =>
    have hrest := h.mem_remaining ht hmem
    cases out with
    | ok statement => exact ih hrest
    | error d =>
      have htoken : d.token = front finish rest := h.token_eq_front Rules.standard_ungrouped rfl
      by_cases heq : t = d.token
      · exact List.mem_cons.mpr (.inl heq)
      · rw [htoken] at heq
        exact List.mem_cons.mpr (.inr (ih (mem_tail_of_ne_front heq hrest)))

end Parser

theorem Statement.token_mem_yield {rules : Rules} {s : Statement} (hf : s.Faithful rules) :
    s.token ∈ s.yield := by
  cases s with
  | assignment token name value => simp [Statement.token, yield]
  | expression token expr => exact List.mem_of_head? hf.1

/-- Every fault is blamed on a token of the text that is in no statement and bears out the cause,
and every offending token is blamed exactly once. -/
theorem parse_blames_offending (source : String) :
    (∀ d ∈ (parse source).2, d.token ∈ tokenize source ∧
      (∀ statement ∈ (parse source).1.statements,
        d.token ∉ statement.token :: statement.yield) ∧ d.Justified) ∧
    ∀ t ∈ tokenize source, t.Offending → ((parse source).2.map Diagnostic.token).count t = 1 := by
  obtain ⟨outs, h, hparse⟩ := Parser.exists_readsProgram_parse source
  have hsublist := h.faults_sublist Rules.standard_ungrouped
  have hnodup := nodup_tokenize source
  rw [tokenize_eq] at hnodup
  rw [hparse, tokenize_eq]
  constructor
  · intro d hd
    refine ⟨hsublist.subset (List.mem_map_of_mem hd), fun statement hs => ?_, h.justified d hd⟩
    have hyield := h.token_notMem_yield hnodup hd hs
    have htoken := Statement.token_mem_yield (h.faithful Rules.standard_ungrouped statement hs)
    rw [List.mem_cons, not_or]
    exact ⟨fun heq => hyield (heq ▸ htoken), hyield⟩
  · intro t hmem ht
    have htoken : t ∈ (Scanner.ofString source).tokens := by
      rcases List.mem_append.mp hmem with hmem | hmem
      · exact hmem
      · rw [List.mem_singleton.mp hmem, Token.Offending, Token.eof] at ht
        simp [TokenKind.unused] at ht
    exact List.count_eq_one_of_mem (hnodup.sublist hsublist) (h.mem_map_token ht htoken)

/-- Of two offending tokens in one line, each has a fault of its own. -/
theorem parse_blames_offending_percent :
    ((parse "a = 1 % 09").2.map Diagnostic.token).count ⟨.percent, "%", ⟨0, 6⟩⟩ = 1 ∧
      ((parse "a = 1 % 09").2.map Diagnostic.token).count ⟨.number, "09", ⟨0, 8⟩⟩ = 1 :=
  ⟨(parse_blames_offending _).2 _ (by decide +kernel) (.inl (by decide)),
    (parse_blames_offending _).2 _ (by decide +kernel)
      (.inr ⟨rfl, .invalidDigit, by decide +kernel⟩)⟩

end ExprFront
