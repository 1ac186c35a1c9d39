import ExprFront.Proofs.Parser.Relabelling
import ExprFront.Proofs.Token.Layout

/-! Two texts with a line feed between them. The tokens of the whole are those of the first text and
those of the second, moved down. Where the first text is read without running into its end, and the
second starts with no token that could go on with a statement, the whole is read as the one text and
then the other: the parser takes nothing along from one statement to the next, and what it sees
behind the last token of a statement only tells it to stop. -/

namespace ExprFront

/-! ### Moving down -/

/-- The place so many rows further down. -/
def Position.down (rows : Nat) (p : Position) : Position := ⟨p.row + rows, p.col⟩

/-- The token so many rows further down. -/
def Token.down (rows : Nat) (t : Token) : Token := { t with position := t.position.down rows }

def Scanner.down (rows : Nat) (s : Scanner) : Scanner := { s with position := s.position.down rows }

namespace Position

theorem past_down (rows : Nat) (p : Position) (c : Char) :
    (p.down rows).past c = (p.past c).down rows := by
  by_cases hc : isLineBreak c <;> simp [past, down, hc]
  omega

theorem pastAll_down (rows : Nat) (p : Position) (cs : List Char) :
    (p.down rows).pastAll cs = (p.pastAll cs).down rows := by
  induction cs generalizing p with
  | nil => rfl
  | cons c cs ih => rw [pastAll_cons, past_down, ih, pastAll_cons]

/-- A line feed leads to the start of the row below those of the text before it. -/
theorem past_lineFeed (cs : List Char) :
    (after cs).past '\n' = start.down (1 + lineBreaks cs) := by
  simp [after, past, start, down, isLineBreak]
  omega

end Position

namespace Scanner

theorem step?_down {s s' : Scanner} {t : Token} (rows : Nat) (h : s.step? = some (t, s')) :
    (s.down rows).step? = some (t.down rows, s'.down rows) := by
  obtain ⟨gap, hgap, hrest, hspells, hends, ht, hs'⟩ := step?_some h
  have hstep := step?_of_spells hgap hspells hends (s.position.down rows)
  rw [← hrest, Position.pastAll_down, Position.pastAll_down, ← ht, ← hs', String.ofList_toList]
    at hstep
  exact hstep

theorem tokens_down (rows : Nat) (s : Scanner) :
    (s.down rows).tokens = s.tokens.map (Token.down rows) := by
  induction s using stream_induction with
  | stop s h =>
    have hnone : (s.down rows).step? = none := by
      simp [step?, skipBlanks, down, step?_none h]
    rw [tokens_of_none h, tokens_of_none hnone, List.map_nil]
  | step s t s' h ih => rw [tokens_of_some h, tokens_of_some (step?_down rows h), ih, List.map_cons]

/-! ### Tokens of two texts -/

theorem tokens_congr {s s' : Scanner} (h : s.step? = s'.step?) : s.tokens = s'.tokens := by
  cases hstep : s'.step? with
  | none => rw [tokens_of_none hstep, tokens_of_none (h.trans hstep)]
  | some r => rw [tokens_of_some hstep, tokens_of_some (h.trans hstep)]

/-- Blanks in front only move the tokens. -/
theorem tokens_blank_append {gap : List Char} (hgap : ∀ c ∈ gap, c ∈ blanks) (cs : List Char)
    (p : Position) :
    (⟨gap ++ cs, p⟩ : Scanner).tokens = (⟨cs, p.pastAll gap⟩ : Scanner).tokens := by
  have hskip : ∀ c ∈ gap, isBlank c := fun c hc => isBlank_iff.mpr (hgap c hc)
  apply tokens_congr
  simp only [step?, skipBlanks, List.dropWhile_append_of_pos hskip,
    List.takeWhile_append_of_pos hskip, Position.pastAll_append]

/-- A token is read alike when a blank and more text come behind. -/
theorem step?_append {s s' : Scanner} {t : Token} (h : s.step? = some (t, s')) {b : Char}
    (hb : b ∈ blanks) (cs : List Char) :
    (⟨s.rest ++ b :: cs, s.position⟩ : Scanner).step? =
      some (t, ⟨s'.rest ++ b :: cs, s'.position⟩) := by
  obtain ⟨gap, hgap, hrest, hspells, hends, ht, hs'⟩ := step?_some h
  have hends' : t.kind.Ends (s'.rest ++ b :: cs) := by
    cases hcs : s'.rest with
    | nil => exact TokenKind.ends_cons.mpr (t.kind.continuedBy_of_mem_blanks hb)
    | cons d ds =>
      rw [hcs] at hends
      exact TokenKind.ends_cons.mpr (TokenKind.ends_cons.mp hends)
  have hstep := step?_of_spells hgap hspells hends' s.position
  rw [← List.append_assoc t.literal.toList, ← List.append_assoc gap, ← hrest, ← ht, ← hs',
    String.ofList_toList] at hstep
  exact hstep

theorem tokens_append (s : Scanner) {b : Char} (hb : b ∈ blanks) (cs : List Char) :
    (⟨s.rest ++ b :: cs, s.position⟩ : Scanner).tokens =
      s.tokens ++ (⟨cs, (s.position.pastAll s.rest).past b⟩ : Scanner).tokens := by
  induction s using stream_induction with
  | stop s h =>
    have hblank : ∀ c ∈ s.rest ++ [b], c ∈ blanks := by
      have hrest := List.dropWhile_eq_nil_iff.mp (step?_none h)
      intro c hc
      rcases List.mem_append.mp hc with hc | hc
      · exact isBlank_iff.mp (hrest c hc)
      · rwa [List.mem_singleton.mp hc]
    rw [List.append_cons, tokens_blank_append hblank, Position.pastAll_append, tokens_of_none h]
    rfl
  | step s t s' h ih =>
    rw [tokens_of_some h, tokens_of_some (step?_append h hb cs), ih, pastAll_rest_of_some h,
      List.cons_append]

theorem ofString_append_line (source source' : String) :
    (ofString (source ++ "\n" ++ source')).tokens = (ofString source).tokens ++
        (ofString source').tokens.map (Token.down (1 + lineBreaks source.toList)) ∧
      (ofString (source ++ "\n" ++ source')).finish =
        (ofString source').finish.down (1 + lineBreaks source.toList) := by
  have hchars : (source ++ "\n" ++ source').toList = source.toList ++ '\n' :: source'.toList := by
    simp
  have hline : (Position.start.pastAll source.toList).past '\n' =
      Position.start.down (1 + lineBreaks source.toList) := by
    rw [Position.pastAll_start, Position.past_lineFeed]
  constructor
  · have htokens := tokens_append (ofString source) (b := '\n') (by decide) source'.toList
    rw [← tokens_down]
    simpa [ofString, ofChars, down, hchars, hline] using htokens
  · rw [finish_eq, finish_eq]
    simp only [ofString, ofChars, hchars, Position.pastAll_append, Position.pastAll_cons, hline,
      Position.pastAll_down]

end Scanner

/-! ### Reading on -/

namespace Parser

variable {rules : Rules} {finish finish' : Position} {levels : Nat} {task : Task}
  {ts us rest : List Token}

/-- The outcome does not blame the end token. -/
def Inside {α : Type} (out : Except Diagnostic α) : Prop :=
  ∀ d, out = .error d → d.token.kind ≠ .eof

theorem inside_ok {α : Type} (a : α) : Inside (.ok a) := by simp [Inside]

theorem Inside.of_map {α β : Type} {f : α → β} {out : Except Diagnostic α}
    (h : Inside (out.map f)) : Inside out := by
  rintro d rfl
  exact h d rfl

/-- Folding is on a token, the last of the operand that was read. -/
def Task.Started (task : Task) (ts : List Token) : Prop :=
  match task with
  | .expr _ _ | .operand _ => True
  | .fold _ _ _ => ts ≠ []

theorem front_append (finish finish' : Position) (hne : ts ≠ []) (us : List Token) :
    front finish ts = front finish' (ts ++ us) := by
  obtain ⟨t, ts, rfl⟩ := List.exists_cons_of_ne_nil hne
  rfl

/-- A reading that does not run into the end is on a token when it ends. -/
theorem Reads.rest_ne_nil (hr : rules.Ungrouped) {out : Except Diagnostic Expr}
    (h : Reads rules finish task ts out rest) (hstart : task.Started ts) (hin : Inside out) :
    rest ≠ [] := by
  induction h with
  | tooDeep | noRule =>
    rintro rfl
    exact hin _ rfl rfl
  | noOperand _ ih => exact ih trivial hin
  | expr _ _ ihl ihf => exact ihf (ihl trivial (inside_ok _)) hin
  | name hrule | integer hrule | badInteger hrule => exact ne_nil_of_prefixRule hr.start_eof hrule
  | unary _ _ ih => exact ih trivial hin.of_map
  | groupFault hrule | unclosed hrule | group hrule => exact absurd hrule (hr.no_group _)
  | stop => exact hstart
  | noRight _ _ _ ih => exact ih trivial hin
  | binary _ _ _ _ ihr ihf => exact ihf (ihr trivial (inside_ok _)) hin

theorem Stops.append {bp : BindingPower} (h : Stops rules finish bp ts) (hne : ts ≠ [])
    (hus : rules.infixRule (front finish' us).kind = none) : Stops rules finish' bp (ts ++ us) := by
  rw [Stops, List.tail_append_of_ne_nil hne]
  by_cases htail : ts.tail = []
  · rw [htail]
    exact .inr hus
  · rw [← front_append finish finish' htail]
    exact h

/-- A reading that does not run into the end goes alike when more tokens come behind, of which the
first is not folded into an operand. -/
theorem Reads.append (hr : rules.Ungrouped) {out : Except Diagnostic Expr}
    (h : Reads rules finish task ts out rest) (hstart : task.Started ts) (hin : Inside out)
    (hus : rules.infixRule (front finish' us).kind = none) :
    Reads rules finish' task (ts ++ us) out (rest ++ us) := by
  -- Both runs see the same token wherever one is left. Only the end token would differ, and a reading
  -- that looks at it either blames it or is about to stop.
  have hfront {vs : List Token} (hne : vs ≠ []) : front finish vs = front finish' (vs ++ us) :=
    front_append finish finish' hne us
  induction h with
  | @tooDeep bp ts =>
    have hne : ts ≠ [] := by
      rintro rfl
      exact hin _ rfl rfl
    rw [hfront hne]
    exact .tooDeep
  | noOperand _ ih => exact .noOperand (ih trivial hin)
  | expr hl _ ihl ihf =>
    have hmid := hl.rest_ne_nil hr trivial (inside_ok _)
    exact .expr (ihl trivial (inside_ok _)) (ihf hmid hin)
  | @noRule n ts hrule =>
    have hne : ts ≠ [] := by
      rintro rfl
      exact hin _ rfl rfl
    rw [hfront hne] at hrule ⊢
    exact .noRule hrule
  | name hrule =>
    have hne := ne_nil_of_prefixRule hr.start_eof hrule
    rw [hfront hne] at hrule ⊢
    exact .name hrule
  | integer hrule hvalue =>
    have hne := ne_nil_of_prefixRule hr.start_eof hrule
    rw [hfront hne] at hrule hvalue ⊢
    exact .integer hrule hvalue
  | badInteger hrule herror =>
    have hne := ne_nil_of_prefixRule hr.start_eof hrule
    rw [hfront hne] at hrule herror ⊢
    exact .badInteger hrule herror
  | unary hrule _ ih =>
    have hne := ne_nil_of_prefixRule hr.start_eof hrule
    have hoperand := ih trivial hin.of_map
    rw [← List.tail_append_of_ne_nil hne] at hoperand
    rw [hfront hne] at hrule ⊢
    exact .unary hrule hoperand
  | groupFault hrule | unclosed hrule | group hrule => exact absurd hrule (hr.no_group _)
  | stop hstop => exact .stop (hstop.append hstart hus)
  | noRight hbp hrule _ ih =>
    have htail := tail_ne_nil_of_infixRule hr.after_eof hrule
    have hright := ih trivial hin
    rw [← List.tail_append_of_ne_nil htail, ← List.tail_append_of_ne_nil hstart] at hright
    rw [hfront htail, ← List.tail_append_of_ne_nil hstart] at hbp hrule hright
    exact .noRight hbp hrule hright
  | binary hbp hrule hr' _ ihr ihf =>
    have htail := tail_ne_nil_of_infixRule hr.after_eof hrule
    have hright := ihr trivial (inside_ok _)
    have hfold := ihf (hr'.rest_ne_nil hr trivial (inside_ok _)) hin
    rw [← List.tail_append_of_ne_nil htail, ← List.tail_append_of_ne_nil hstart] at hright
    rw [hfront htail, ← List.tail_append_of_ne_nil hstart] at hbp hrule hright hfold
    exact .binary hbp hrule hright hfold

/-- Tokens that do not go on with a statement before them. -/
structure Apart (rules : Rules) (finish : Position) (us : List Token) : Prop where
  infixRule : rules.infixRule (front finish us).kind = none
  kind_ne_assign : (front finish us).kind ≠ .assign

theorem ReadsStatement.rest_ne_nil (hr : rules.Ungrouped) {out : Except Diagnostic Statement}
    (h : ReadsStatement rules finish levels ts out rest) (hin : Inside out) : rest ≠ [] := by
  cases h with
  | assignment _ _ h | expression _ h => exact h.rest_ne_nil hr trivial hin.of_map

theorem ReadsStatement.append (hr : rules.Ungrouped) {out : Except Diagnostic Statement}
    (h : ReadsStatement rules finish levels ts out rest) (hne : ts ≠ []) (hin : Inside out)
    (hus : Apart rules finish' us) :
    ReadsStatement rules finish' levels (ts ++ us) out (rest ++ us) := by
  cases h with
  | assignment hname hassign h =>
    have htail : ts.tail ≠ [] := by
      intro hnil
      rw [hnil] at hassign
      cases hassign
    have hvalue := h.append hr trivial hin.of_map hus.infixRule
    rw [← List.tail_append_of_ne_nil htail, ← List.tail_append_of_ne_nil hne] at hvalue
    rw [front_append finish finish' hne us] at hname ⊢
    rw [front_append finish finish' htail us, ← List.tail_append_of_ne_nil hne] at hassign ⊢
    exact .assignment hname hassign hvalue
  | expression hstart h =>
    have hexpr := h.append hr trivial hin.of_map hus.infixRule
    have hstart' : ¬ ((front finish' (ts ++ us)).kind = .ident ∧
        (front finish' (ts ++ us).tail).kind = .assign) := by
      rw [List.tail_append_of_ne_nil hne, ← front_append finish finish' hne]
      by_cases htail : ts.tail = []
      · rw [htail]
        exact fun h => hus.kind_ne_assign h.2
      · rwa [← front_append finish finish' htail]
    rw [front_append finish finish' hne us]
    exact .expression hstart' hexpr

/-- Programs one after the other. -/
theorem ReadsProgram.append (hr : rules.Ungrouped)
    {outs outs' : List (Except Diagnostic Statement)}
    (h : ReadsProgram rules finish levels ts outs) (hin : ∀ out ∈ outs, Inside out)
    (hus : Apart rules finish' us) (h' : ReadsProgram rules finish' levels us outs') :
    ReadsProgram rules finish' levels (ts ++ us) (outs ++ outs') := by
  induction h with
  | nil => exact h'
  | cons hne h _ ih =>
    rw [List.forall_mem_cons] at hin
    have hrest := ih hin.2
    rw [← List.tail_append_of_ne_nil (h.rest_ne_nil hr hin.1)] at hrest
    exact .cons (by simp [hne]) (h.append hr hne hin.1 hus) hrest

theorem inside_of_faultsOf {outs : List (Except Diagnostic Statement)}
    (h : ∀ d ∈ faultsOf outs, d.token.kind ≠ .eof) : ∀ out ∈ outs, Inside out := by
  rintro out hout d rfl
  exact h d (List.mem_filterMap.mpr ⟨_, hout, rfl⟩)

end Parser

open ExprFront.Parser

theorem relabels_down (rows : Nat) : Relabels .standard (Token.down rows) where
  kind _ := rfl
  literal _ := .inl rfl

theorem head?_tokenize (source : String) :
    (tokenize source).head? =
      some (front (Scanner.ofString source).finish (Scanner.ofString source).tokens) := by
  rw [tokenize_eq]
  cases (Scanner.ofString source).tokens <;> rfl

/-- A text that starts with neither `=` nor an operator does not go on with the one before it. -/
theorem apart_tokens_down {source : String} (rows : Nat)
    (hfirst : ∀ t ∈ (tokenize source).head?, t.kind ∉ .assign :: TokenKind.operators) :
    Apart .standard ((Scanner.ofString source).finish.down rows)
      ((Scanner.ofString source).tokens.map (Token.down rows)) := by
  have hkind := hfirst _ (head?_tokenize source)
  rw [List.mem_cons, not_or] at hkind
  have hfront : front ((Scanner.ofString source).finish.down rows)
      ((Scanner.ofString source).tokens.map (Token.down rows)) =
        (front (Scanner.ofString source).finish (Scanner.ofString source).tokens).down rows :=
    front_map rfl _
  constructor
  · rw [hfront]
    exact Rules.standard_infixRule_eq_none.mpr hkind.2
  · rw [hfront]
    exact hkind.1

/-- Where the first text has no fault at its end, and the second starts with neither `=` nor an
operator, the two with a line feed between them are parsed one after the other: statements and faults
of the first, then those of the second, moved down by the rows of the first. -/
theorem parse_append_line (source source' : String)
    (hinside : ∀ d ∈ (parse source).2, d.token.kind ≠ .eof)
    (hfirst : ∀ t ∈ (tokenize source').head?, t.kind ∉ .assign :: TokenKind.operators) :
    parse (source ++ "\n" ++ source') =
      (⟨(parse source).1.statements ++ (parse source').1.statements.map
          (Statement.mapToken (Token.down (1 + lineBreaks source.toList)))⟩,
        (parse source).2 ++ (parse source').2.map
          (Diagnostic.mapToken (Token.down (1 + lineBreaks source.toList)))) := by
  obtain ⟨outs, h, hparse⟩ := exists_readsProgram_parse source
  obtain ⟨outs', h', hparse'⟩ := exists_readsProgram_parse source'
  obtain ⟨joined, hjoined, hparsed⟩ := exists_readsProgram_parse (source ++ "\n" ++ source')
  obtain ⟨htokens, hfinish⟩ := Scanner.ofString_append_line source source'
  rw [htokens, hfinish] at hjoined
  rw [hparse] at hinside
  have hmoved := h'.relabel (relabels_down (1 + lineBreaks source.toList)) rfl
  have hapart := apart_tokens_down (1 + lineBreaks source.toList) hfirst
  have happend := h.append Rules.standard_ungrouped (inside_of_faultsOf hinside) hapart hmoved
  rw [hparsed, hparse, hparse', hjoined.unique standard_infixRule_eof happend, statementsOf_append,
    faultsOf_append, statementsOf_map, faultsOf_map]

/-- A fault inside the first text, and one inside the second. -/
theorem parse_append_line_percent :
    (parse ("x = 1\r)" ++ "\n" ++ "!y %")).2.map Diagnostic.position = [⟨1, 0⟩, ⟨2, 3⟩] := by
  rw [parse_append_line "x = 1\r)" "!y %" (by decide +kernel) (by decide +kernel)]
  decide +kernel

end ExprFront
