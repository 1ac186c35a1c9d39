import ExprFront.Proofs.Parser.Blame
import ExprFront.Proofs.Parser.Grammar

/-! The nesting limit and runs of signs. A level of nesting is taken by a statement, by the right
operand of an operator, and by the operand of a sign. Operators take at most four levels inside each
other, since each of them binds tighter than the one it stands under, and nothing is folded behind a
sign. So the token at which the levels run out stands behind a long run of signs. Conversely signs
are passed at the price of a level each, so that there is no way through a run of 256 of them. -/

namespace ExprFront

open Grammar (IsSign signRun signRun_cons)

/-- Only for want of levels is a sign blamed. -/
theorem Diagnostic.Justified.exists_tooDeep {d : Diagnostic} (h : d.Justified)
    (hsign : IsSign d.token) : d.cause = .nestingTooDeep Parser.maxDepth := by
  unfold Diagnostic.Justified at h
  split at h
  next => exact absurd h.2.2 (by rcases hsign with hkind | hkind <;> simp [hkind])
  next => rcases hsign with hkind | hkind <;> simp [hkind] at h
  next hcause => rw [hcause, h]; rfl
  next => cases h

namespace Parser

variable {finish : Position} {levels limit : Nat} {task : Task} {ts us ws rest : List Token}
  {d : Diagnostic}

/-! ### Levels run out behind signs only -/

/-- There are signs ahead and nothing else down to `rest`, as many as said. -/
def SignsTo (rest : List Token) (count : Nat) (ts : List Token) : Prop :=
  ∃ run, ts = run ++ rest ∧ (∀ t ∈ run, IsSign t) ∧ run.length = count

theorem SignsTo.cons {t : Token} {count : Nat} (ht : IsSign t) (h : SignsTo rest count ts) :
    SignsTo rest (count + 1) (t :: ts) := by
  obtain ⟨run, rfl, hrun, rfl⟩ := h
  exact ⟨t :: run, rfl, List.forall_mem_cons.mpr ⟨ht, hrun⟩, rfl⟩

/-- Somewhere ahead there are signs down to `rest`. They may fall short of the levels by as many as
there are powers above `bp` for operators between them. -/
def SignsBehind (rest : List Token) (levels : Nat) (bp : BindingPower) (ts : List Token) : Prop :=
  bp < .unary ∧ ∃ us count, us <:+ ts ∧ SignsTo rest count us ∧ levels + bp.rank ≤ count + 4

theorem SignsBehind.of_suffix {bp : BindingPower} (h : SignsBehind rest levels bp us)
    (hus : us <:+ ts) : SignsBehind rest levels bp ts := by
  obtain ⟨hbp, vs, count, hvs, hsigns, hle⟩ := h
  exact ⟨hbp, vs, count, hvs.trans hus, hsigns, hle⟩

/-- Where a task finds the signs on which it runs out of levels: from its first token on, or behind
an operator. -/
def Task.Overruns (task : Task) (ts rest : List Token) : Prop :=
  match task with
  | .expr n bp => SignsTo rest n ts ∨ SignsBehind rest n bp ts
  | .operand n => SignsTo rest (n + 1) ts
  | .fold n bp _ => SignsBehind rest (n + 1) bp ts

/-- The right operand of an operator is one level further down, and at a higher power. -/
theorem signsBehind_of_right {n : Nat} {bp : BindingPower} {kind : TokenKind} {left : Expr}
    (hbp : bp < Rules.standard.power kind)
    (h : (Task.expr n (Rules.standard.power kind)).Overruns us rest) (hus : us <:+ ts) :
    (Task.fold n bp left).Overruns ts rest := by
  have hunary := Rules.standard_power_lt_unary kind
  refine ⟨BindingPower.lt_trans hbp hunary, ?_⟩
  have hrank : (Rules.standard.power kind).rank < 5 := hunary
  rw [BindingPower.lt_iff_rank] at hbp
  rcases h with hsigns | ⟨-, vs, count, hvs, hsigns, hle⟩
  · exact ⟨us, n, hus, hsigns, by omega⟩
  · exact ⟨vs, count, hvs.trans hus, hsigns, by omega⟩

theorem Reads.overruns {out : Except Diagnostic Expr}
    (h : Reads .standard finish task ts out rest) (hout : out = .error d)
    (hdeep : d.cause = .nestingTooDeep limit) : task.Overruns ts rest := by
  induction h with
  | tooDeep => exact .inl ⟨[], rfl, by simp, rfl⟩
  | noOperand _ ih => exact .inl (ih hout)
  | expr hl _ _ ihf => exact .inr ((ihf hout).of_suffix hl.suffix)
  | noRule | badInteger =>
    cases hout
    cases hdeep
  | name | integer | stop => cases hout
  | @unary n ts rest out hrule _ ih =>
    have hsign : IsSign (front finish ts) := Rules.standard_prefixRule_eq_operator.mp hrule
    -- No operator binds tighter than a sign, so that the run goes on in its operand.
    rcases ih (map_eq_error hout) with hsigns | ⟨hlt, -⟩
    · rw [← front_cons_tail_of_prefixRule rfl hrule]
      exact hsigns.cons hsign
    · exact absurd hlt (BindingPower.lt_asymm hlt)
  | groupFault hrule | unclosed hrule | group hrule =>
    exact absurd hrule (Rules.standard_prefixRule_ne_group _)
  | noRight hbp _ _ ih =>
    exact signsBehind_of_right hbp (ih hout) ((List.tail_suffix _).trans (List.tail_suffix _))
  | binary _ _ hr _ _ ihf =>
    exact (ihf hout).of_suffix ((hr.suffix.trans (List.tail_suffix _)).trans (List.tail_suffix _))

theorem ReadsStatement.exists_signs {out : Except Diagnostic Statement}
    (h : ReadsStatement .standard finish maxDepth ts out rest) (hout : out = .error d)
    (hdeep : d.cause = .nestingTooDeep limit) :
    ∃ us count, us <:+ ts ∧ SignsTo rest count us ∧ 252 ≤ count := by
  obtain ⟨vs, hvs, hover⟩ :
      ∃ vs, vs <:+ ts ∧ (Task.expr maxDepth .lowest).Overruns vs rest := by
    cases h with
    | assignment _ _ h =>
      exact ⟨_, (List.tail_suffix _).trans (List.tail_suffix _),
        h.overruns (map_eq_error hout) hdeep⟩
    | expression _ h => exact ⟨_, List.suffix_refl _, h.overruns (map_eq_error hout) hdeep⟩
  rcases hover with hsigns | ⟨-, us, count, hus, hsigns, hle⟩
  · exact ⟨vs, maxDepth, hvs, hsigns, by decide⟩
  · simp only [maxDepth, BindingPower.rank] at hle
    exact ⟨us, count, hus.trans hvs, hsigns, by omega⟩

theorem ReadsProgram.exists_signs {outs : List (Except Diagnostic Statement)}
    (h : ReadsProgram .standard finish maxDepth ts outs) (hd : d ∈ faultsOf outs)
    (hdeep : d.cause = .nestingTooDeep limit) :
    ∃ us rest count, us <:+ ts ∧ SignsTo rest count us ∧ 252 ≤ count ∧
      d.token = front finish rest := by
  induction h with
  | nil => cases hd
  | @cons ts rest out outs _ h _ ih =>
    have hlater : d ∈ faultsOf outs → ∃ us rest count, us <:+ ts ∧ SignsTo rest count us ∧
        252 ≤ count ∧ d.token = front finish rest := by
      intro hd
      obtain ⟨us, rest', count, hus, hsigns⟩ := ih hd
      exact ⟨us, rest', count, (hus.trans (List.tail_suffix _)).trans h.suffix, hsigns⟩
    cases out with
    | ok statement => exact hlater hd
    | error d' =>
      rcases List.mem_cons.mp hd with rfl | hd
      · obtain ⟨us, count, hus, hsigns, hcount⟩ := h.exists_signs rfl hdeep
        exact ⟨us, rest, count, hus, hsigns, hcount, h.token_eq_front Rules.standard_ungrouped rfl⟩
      · exact hlater hd

/-! ### A long run of signs is not passed -/

/-- The reading ran out of levels. -/
def FailsDeep {α : Type} (out : Except Diagnostic α) : Prop :=
  ∃ t, out = .error ⟨.nestingTooDeep maxDepth, t⟩

theorem FailsDeep.map {α β : Type} {f : α → β} {out : Except Diagnostic α} (h : FailsDeep out) :
    FailsDeep (out.map f) := by
  obtain ⟨t, rfl⟩ := h
  exact ⟨t, rfl⟩

theorem not_failsDeep_ok {α : Type} (a : α) : ¬ FailsDeep (.ok a) := by
  rintro ⟨t, ht⟩
  cases ht

theorem signRun_eq_zero (h : ¬ IsSign (front finish ts)) : signRun ts = 0 := by
  cases ts with
  | nil => rfl
  | cons t ts =>
    have hsign : ¬ (t.kind = .minus ∨ t.kind = .bang) := h
    simp [signRun, hsign]

theorem signRun_eq_succ (h : IsSign (front finish ts)) : signRun ts = signRun ts.tail + 1 := by
  cases ts with
  | nil => exact absurd h (by simp [IsSign, Token.eof])
  | cons t ts => exact signRun_cons h

theorem not_isSign_of_prefixRule {t : Token}
    (h : Rules.standard.prefixRule t.kind ≠ some .operator) : ¬ IsSign t :=
  fun hsign => h (Rules.standard_prefixRule_eq_operator.mpr hsign)

/-- With signs enough ahead every level is taken by one of them. -/
theorem Reads.failsDeep {out : Except Diagnostic Expr}
    (h : Reads .standard finish task ts out rest) :
    match task with
    | .expr n _ => n ≤ signRun ts → FailsDeep out
    | .operand n => n < signRun ts → FailsDeep out
    | .fold _ _ _ => True := by
  induction h with
  | tooDeep => exact fun _ => ⟨_, rfl⟩
  | noOperand _ ih => exact ih
  | expr _ _ ihl => exact fun hle => absurd (ihl hle) (not_failsDeep_ok _)
  | @noRule n ts hrule | @name n ts hrule | @integer n ts _ hrule | @badInteger n ts _ hrule =>
    intro hlt
    have hsign : ¬ IsSign (front finish ts) := not_isSign_of_prefixRule (by simp [hrule])
    rw [signRun_eq_zero hsign] at hlt
    exact absurd hlt (Nat.not_lt_zero _)
  | unary hrule _ ih =>
    intro hlt
    rw [signRun_eq_succ (Rules.standard_prefixRule_eq_operator.mp hrule)] at hlt
    exact (ih (Nat.le_of_lt_succ hlt)).map
  | groupFault hrule | unclosed hrule | group hrule =>
    exact absurd hrule (Rules.standard_prefixRule_ne_group _)
  | stop | noRight | binary => trivial

theorem eq_or_suffix_tail (h : ws <:+ ts) : ws = ts ∨ ws <:+ ts.tail := by
  cases ts with
  | nil => exact .inl (List.suffix_nil.mp h)
  | cons t ts => exact List.suffix_cons_iff.mp h

/-- Passing a token that is no sign leaves a run of signs ahead. -/
theorem suffix_tail_of_not_isSign (hws : maxDepth ≤ signRun ws) (h : ws <:+ ts)
    (hfront : ¬ IsSign (front finish ts)) : ws <:+ ts.tail := by
  rcases eq_or_suffix_tail h with rfl | h
  · rw [signRun_eq_zero hfront] at hws
    exact absurd hws (by decide)
  · exact h

/-- The levels of a task are those that a parser has at most. -/
def Task.Within : Task → Prop
  | .expr n _ => n ≤ maxDepth
  | .operand n | .fold n _ _ => n < maxDepth

/-- The right operand of an operator that starts a long run of signs is too deep. -/
theorem Reads.failsDeep_right {n : Nat} {bp : BindingPower} {out : Except Diagnostic Expr}
    (h : Reads .standard finish (.expr n bp) ts.tail out rest) (hn : n < maxDepth)
    (hts : maxDepth ≤ signRun ts) : FailsDeep out := by
  apply h.failsDeep
  by_cases hsign : IsSign (front finish ts)
  · rw [signRun_eq_succ hsign] at hts
    omega
  · rw [signRun_eq_zero hsign] at hts
    exact absurd hts (by decide)

/-- A reading runs out of levels on a long run of signs, or the whole run is still ahead when it
ends. -/
theorem Reads.failsDeep_or_suffix (hws : maxDepth ≤ signRun ws) {out : Except Diagnostic Expr}
    (h : Reads .standard finish task ts out rest) (htask : task.Within)
    (hmem : ws <:+ task.unread ts) : FailsDeep out ∨ ws <:+ remaining out rest := by
  induction h with
  | tooDeep => exact .inl ⟨_, rfl⟩
  | noOperand _ ih => exact ih htask hmem
  | expr _ _ ihl ihf =>
    exact ihf htask ((ihl htask hmem).resolve_left (not_failsDeep_ok _))
  | noRule | badInteger => exact .inr hmem
  | @name n ts hrule | @integer n ts _ hrule =>
    have hsign : ¬ IsSign (front finish ts) := not_isSign_of_prefixRule (by simp [hrule])
    exact .inr (suffix_tail_of_not_isSign hws hmem hsign)
  | @unary n ts rest out hrule hsub ih =>
    rcases eq_or_suffix_tail hmem with rfl | hmem
    · exact .inl ((Reads.unary hrule hsub).failsDeep (Nat.lt_of_lt_of_le htask hws))
    · rw [remaining_map]
      exact (ih (Nat.le_of_lt htask) hmem).imp_left FailsDeep.map
  | groupFault hrule | unclosed hrule | group hrule =>
    exact absurd hrule (Rules.standard_prefixRule_ne_group _)
  | stop => exact .inr hmem
  | noRight _ _ hr ih =>
    rcases eq_or_suffix_tail hmem with rfl | hmem
    · exact .inl (hr.failsDeep_right htask hws)
    · exact ih (Nat.le_of_lt htask) hmem
  | binary _ _ hr _ ihr ihf =>
    rcases eq_or_suffix_tail hmem with rfl | hmem
    · exact absurd (hr.failsDeep_right htask hws) (not_failsDeep_ok _)
    · exact ihf htask ((ihr (Nat.le_of_lt htask) hmem).resolve_left (not_failsDeep_ok _))

theorem ReadsStatement.failsDeep_or_suffix (hws : maxDepth ≤ signRun ws)
    {out : Except Diagnostic Statement} (h : ReadsStatement .standard finish maxDepth ts out rest)
    (hmem : ws <:+ ts) : FailsDeep out ∨ ws <:+ remaining out rest := by
  cases h with
  | assignment hname hassign h =>
    have hname' : ¬ IsSign (front finish ts) := by simp [IsSign, hname]
    have hassign' : ¬ IsSign (front finish ts.tail) := by simp [IsSign, hassign]
    have hmem' := suffix_tail_of_not_isSign hws
      (suffix_tail_of_not_isSign hws hmem hname') hassign'
    rw [remaining_map]
    exact (h.failsDeep_or_suffix hws (Nat.le_refl _) hmem').imp_left FailsDeep.map
  | expression _ h =>
    rw [remaining_map]
    exact (h.failsDeep_or_suffix hws (Nat.le_refl _) hmem).imp_left FailsDeep.map

theorem ReadsProgram.exists_tooDeep (hws : maxDepth ≤ signRun ws)
    {outs : List (Except Diagnostic Statement)}
    (h : ReadsProgram .standard finish maxDepth ts outs) (hmem : ws <:+ ts) :
    ∃ d ∈ faultsOf outs, d.cause = .nestingTooDeep maxDepth := by
  induction h with
  | nil =>
    rw [List.suffix_nil.mp hmem] at hws
    exact absurd hws (by decide)
  | @cons ts rest out outs _ h _ ih =>
    rcases h.failsDeep_or_suffix hws hmem with ⟨t, rfl⟩ | hmem
    · exact ⟨_, List.mem_cons_self .., rfl⟩
    · cases out with
      | ok statement => exact ih hmem
      | error d =>
        -- The loop steps over the token blamed, which may be the first of the run.
        by_cases hsign : IsSign d.token
        · exact ⟨d, List.mem_cons_self .., (h.justified rfl).exists_tooDeep hsign⟩
        · rw [h.token_eq_front Rules.standard_ungrouped rfl] at hsign
          obtain ⟨d', hd', hcause⟩ := ih (suffix_tail_of_not_isSign hws hmem hsign)
          exact ⟨d', List.mem_cons_of_mem _ hd', hcause⟩

/-! ### Runs of signs in a text -/

theorem exists_append_eof_eq (finish : Position) (rest : List Token) :
    ∃ after, rest ++ [.eof finish] = front finish rest :: after := by
  cases rest with
  | nil => exact ⟨[], rfl⟩
  | cons t rest => exact ⟨rest ++ [.eof finish], rfl⟩

/-- The last signs of a longer run. -/
theorem SignsTo.exists_of_le {count bound : Nat} (h : SignsTo rest count ts)
    (hle : bound ≤ count) : ∃ us, us <:+ ts ∧ SignsTo rest bound us := by
  obtain ⟨run, rfl, hrun, rfl⟩ := h
  refine ⟨run.drop (run.length - bound) ++ rest, ?_, _, rfl,
    fun t ht => hrun t (List.mem_of_mem_drop ht), ?_⟩
  · exact ⟨run.take (run.length - bound), by simp [← List.append_assoc]⟩
  · rw [List.length_drop]
    omega

/-- A run of signs is before the end token. -/
theorem exists_suffix_of_run {run : List Token} (hrun : run <:+: ts ++ [.eof finish])
    (hsigns : ∀ t ∈ run, IsSign t) : ∃ ws, ws <:+ ts ∧ run.length ≤ signRun ws := by
  rcases List.infix_concat_iff.mp hrun with hend | hinside
  · rcases List.suffix_concat_iff.mp hend with rfl | ⟨run, rfl, -⟩
    · exact ⟨ts, List.suffix_refl _, Nat.zero_le _⟩
    · exact absurd (hsigns (.eof finish) (by simp)) (by simp [IsSign, Token.eof])
  · obtain ⟨ws, ⟨us, rfl⟩, hws⟩ := List.infix_iff_prefix_suffix.mp hinside
    refine ⟨run ++ us, hws, ?_⟩
    rw [signRun, List.takeWhile_append_of_pos (by simpa [IsSign] using hsigns)]
    simp

end Parser

/-- Only a run of signs is nested too deep: 252 of them stand right before the token blamed. And
every run of 256 signs is: one fault at least says so. -/
theorem parse_tooDeep_of_signs (source : String) :
    (∀ d ∈ (parse source).2, ∀ limit, d.cause = .nestingTooDeep limit →
      ∃ before run after, tokenize source = before ++ (run ++ d.token :: after) ∧
        run.length = 252 ∧ ∀ t ∈ run, t.kind = .minus ∨ t.kind = .bang) ∧
    ∀ run, run <:+: tokenize source → run.length = 256 →
      (∀ t ∈ run, t.kind = .minus ∨ t.kind = .bang) →
      ∃ d ∈ (parse source).2, d.cause = .nestingTooDeep 256 := by
  obtain ⟨outs, h, hparse⟩ := Parser.exists_readsProgram_parse source
  rw [hparse, tokenize_eq]
  constructor
  · intro d hd limit hdeep
    obtain ⟨us, rest, count, hus, hsigns, hcount, htoken⟩ := h.exists_signs hd hdeep
    obtain ⟨vs, hvs, run, rfl, hrun, hlength⟩ := hsigns.exists_of_le hcount
    obtain ⟨before, hbefore⟩ := hvs.trans hus
    obtain ⟨after, hafter⟩ := Parser.exists_append_eof_eq (Scanner.ofString source).finish rest
    refine ⟨before, run, after, ?_, hlength, hrun⟩
    rw [← hbefore, htoken, ← hafter]
    simp
  · intro run hinfix hlength hrun
    obtain ⟨ws, hws, hle⟩ := Parser.exists_suffix_of_run hinfix hrun
    rw [hlength] at hle
    exact h.exists_tooDeep hle hws

theorem lexes_replicate_minus (n : Nat) :
    Lexes (List.replicate n '-') (List.replicate n (.minus, ['-'])) := by
  induction n with
  | zero => exact .nil (by simp)
  | succ n ih =>
    have hminus : TokenKind.minus.Spells ['-'] := ⟨_, rfl, by decide⟩
    exact .word hminus (fun _ _ => rfl) ih

/-- A text of signs and nothing else has a run of them. -/
theorem exists_run_replicate_minus (n : Nat) :
    ∃ run, run <:+: tokenize (String.ofList (List.replicate n '-')) ∧ run.length = n ∧
      ∀ t ∈ run, t.kind = .minus ∨ t.kind = .bang := by
  have hwords := (lexes_replicate_minus n).tokens_eq .start
  have hlength := congrArg List.length hwords
  rw [List.length_map, List.length_replicate] at hlength
  rw [tokenize_eq, Scanner.ofString, String.toList_ofList]
  refine ⟨_, (List.prefix_append _ _).isInfix, hlength, fun t ht => ?_⟩
  have hword := List.mem_map_of_mem (f := Token.word) ht
  rw [Scanner.ofChars, hwords, List.mem_replicate] at hword
  exact .inl (congrArg Prod.fst hword.2)

/-- A text of 256 signs. -/
theorem parse_tooDeep_of_signs_minus :
    ∃ d ∈ (parse (String.ofList (List.replicate 256 '-'))).2, d.cause = .nestingTooDeep 256 ∧
      ∃ before run after, tokenize (String.ofList (List.replicate 256 '-')) =
        before ++ (run ++ d.token :: after) ∧ run.length = 252 ∧
          ∀ t ∈ run, t.kind = .minus ∨ t.kind = .bang := by
  obtain ⟨run, hrun, hlength, hsigns⟩ := exists_run_replicate_minus 256
  obtain ⟨d, hd, hdeep⟩ := (parse_tooDeep_of_signs _).2 run hrun hlength hsigns
  exact ⟨d, hd, hdeep, (parse_tooDeep_of_signs _).1 d hd 256 hdeep⟩

end ExprFront
