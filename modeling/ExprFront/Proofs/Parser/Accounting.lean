import ExprFront.Proofs.Parser.Statements
import ExprFront.Proofs.Precedence.Standard
import ExprFront.Proofs.Tree.Tokens

/-! Where the tokens of a text go. A reading that succeeds takes exactly the tokens of its tree, and
one that fails stops on the token it blames. So the tokens before the end fall into segments, one for
each round of the statement loop: those of a statement, or those given up with a fault. -/

namespace ExprFront

/-- Rules under which every token taken is in the tree: the end token means nothing, and no token
opens a group. -/
structure Rules.Ungrouped (rules : Rules) : Prop where
  start_eof : rules.prefixRule .eof = none
  after_eof : rules.infixRule .eof = none
  no_group : ∀ kind, rules.prefixRule kind ≠ some .group

theorem Rules.standard_ungrouped : Rules.standard.Ungrouped where
  start_eof := rfl
  after_eof := rfl
  no_group := Rules.standard_prefixRule_ne_group

namespace Parser

variable {rules : Rules} {finish : Position} {task : Task} {ts rest : List Token}
  {out : Except Diagnostic Expr}

theorem front_cons_tail (finish : Position) (hne : ts ≠ []) : front finish ts :: ts.tail = ts := by
  obtain ⟨t, us, rfl⟩ := List.exists_cons_of_ne_nil hne
  rfl

/-- Where the end token starts no expression, a kind that starts one is that of a real token. -/
theorem ne_nil_of_prefixRule (heof : rules.prefixRule .eof = none) {rule : PrefixRule}
    (hrule : rules.prefixRule (front finish ts).kind = some rule) : ts ≠ [] := by
  rintro rfl
  rw [front_nil, Token.eof, heof] at hrule
  cases hrule

theorem front_cons_tail_of_prefixRule (heof : rules.prefixRule .eof = none) {rule : PrefixRule}
    (hrule : rules.prefixRule (front finish ts).kind = some rule) :
    front finish ts :: ts.tail = ts :=
  front_cons_tail finish (ne_nil_of_prefixRule heof hrule)

theorem map_eq_ok {α β : Type} {f : α → β} {out : Except Diagnostic α} {b : β}
    (h : out.map f = .ok b) : ∃ a, out = .ok a ∧ b = f a := by
  cases out with
  | ok a => cases h; exact ⟨a, rfl, rfl⟩
  | error d => cases h

theorem map_eq_error {α β : Type} {f : α → β} {out : Except Diagnostic α} {d : Diagnostic}
    (h : out.map f = .error d) : out = .error d := by
  cases out with
  | ok a => cases h
  | error d => cases h; rfl

/-! ### Expressions -/

/-- A failed reading stops on the token it blames. -/
theorem Reads.token_eq_front (hr : rules.Ungrouped) {d : Diagnostic}
    (h : Reads rules finish task ts out rest) (hout : out = .error d) :
    d.token = front finish rest := by
  induction h with
  | tooDeep | noRule | badInteger => cases hout; rfl
  | noOperand _ ih => exact ih hout
  | expr _ _ _ ihf => exact ihf hout
  | name | integer | stop => cases hout
  | unary _ _ ih => exact ih (map_eq_error hout)
  | groupFault hrule | unclosed hrule | group hrule => exact absurd hrule (hr.no_group _)
  | noRight _ _ _ ih => exact ih hout
  | binary _ _ _ _ _ ihf => exact ihf hout

/-- The tokens taken by a task that read `e`: those of the tree, less what was read before. -/
def Task.Took (task : Task) (ts rest : List Token) (e : Expr) : Prop :=
  match task with
  | .expr _ _ | .operand _ => ts = e.yield ++ rest.tail
  | .fold _ _ left => ∃ us, e.yield = left.yield ++ us ∧ ts.tail = us ++ rest.tail

/-- A reading takes exactly the tokens of its tree, and ends on the last of them. -/
theorem Reads.took (hr : rules.Ungrouped) {e : Expr} (h : Reads rules finish task ts out rest)
    (hout : out = .ok e) : task.Took ts rest e := by
  induction h generalizing e with
  | tooDeep | noOperand | noRule | badInteger | groupFault | unclosed | noRight => cases hout
  | @expr n bp ts mid rest left out _ _ ihl ihf =>
    have hleft : ts = left.yield ++ mid.tail := ihl rfl
    obtain ⟨us, he, hmid⟩ := ihf hout
    simp [Task.Took, he, hleft, hmid]
  | name hrule | integer hrule =>
    cases hout
    exact (front_cons_tail_of_prefixRule hr.start_eof hrule).symm
  | @unary n ts rest out hrule _ ih =>
    obtain ⟨operand, rfl, rfl⟩ := map_eq_ok hout
    have htail : ts.tail = operand.yield ++ rest.tail := ih rfl
    rw [Task.Took, ← front_cons_tail_of_prefixRule hr.start_eof hrule, htail]
    rfl
  | group hrule => exact absurd hrule (hr.no_group _)
  | stop =>
    cases hout
    exact ⟨[], by simp, rfl⟩
  | @binary n bp ts mid rest left right out _ hrule _ _ ihr ihf =>
    have hright : ts.tail.tail = right.yield ++ mid.tail := ihr rfl
    obtain ⟨us, he, hmid⟩ := ihf hout
    have hne := tail_ne_nil_of_infixRule hr.after_eof hrule
    refine ⟨front finish ts.tail :: right.yield ++ us, ?_, ?_⟩
    · simp [he, Expr.yield]
    · rw [← front_cons_tail finish hne, hright, hmid]
      simp

/-- A tree that was read stands for what its tokens spell. -/
theorem Reads.faithful {e : Expr} (h : Reads rules finish task ts out rest) (hout : out = .ok e)
    (hleft : ∀ n bp left, task = .fold n bp left → left.Faithful rules) : e.Faithful rules := by
  induction h generalizing e with
  | tooDeep | noOperand | noRule | badInteger | groupFault | unclosed | noRight => cases hout
  | @expr n bp ts mid rest left out _ _ ihl ihf =>
    refine ihf hout fun n' bp' left' htask => ?_
    cases htask
    exact ihl rfl (by simp)
  | name hrule =>
    cases hout
    exact ⟨hrule, rfl⟩
  | integer hrule hvalue =>
    cases hout
    exact ⟨hrule, hvalue⟩
  | unary hrule _ ih =>
    obtain ⟨operand, rfl, rfl⟩ := map_eq_ok hout
    exact ⟨hrule, rfl, ih rfl (by simp)⟩
  | group _ _ _ ih => exact ih hout (by simp)
  | @stop n bp ts left =>
    cases hout
    exact hleft n bp left rfl
  | @binary n bp ts mid rest left right out _ hrule _ _ ihr ihf =>
    refine ihf hout fun n' bp' left' htask => ?_
    cases htask
    exact ⟨hrule, rfl, hleft n bp left rfl, ihr rfl (by simp)⟩

/-! ### Statements -/

variable {levels : Nat} {sout : Except Diagnostic Statement}
  {outs : List (Except Diagnostic Statement)}

theorem ReadsStatement.token_eq_front (hr : rules.Ungrouped) {d : Diagnostic}
    (h : ReadsStatement rules finish levels ts sout rest) (hout : sout = .error d) :
    d.token = front finish rest := by
  cases h with
  | assignment _ _ h | expression _ h => exact h.token_eq_front hr (map_eq_error hout)

theorem ReadsStatement.eq_yield_append (hr : rules.Ungrouped) {statement : Statement}
    (h : ReadsStatement rules finish levels ts sout rest) (hout : sout = .ok statement) :
    ts = statement.yield ++ rest.tail := by
  cases h with
  | assignment hname hassign h =>
    obtain ⟨value, rfl, rfl⟩ := map_eq_ok hout
    have htook : ts.tail.tail = value.yield ++ rest.tail := h.took hr rfl
    have htail : ts.tail ≠ [] := by
      intro hnil
      rw [hnil, front_nil, Token.eof] at hassign
      cases hassign
    have hne : ts ≠ [] := by
      rintro rfl
      exact htail rfl
    rw [← front_cons_tail finish hne, ← front_cons_tail finish htail, htook]
    rfl
  | expression _ h =>
    obtain ⟨e, rfl, rfl⟩ := map_eq_ok hout
    exact h.took hr rfl

theorem ReadsStatement.faithful (hr : rules.Ungrouped) {statement : Statement}
    (h : ReadsStatement rules finish levels ts sout rest) (hout : sout = .ok statement) :
    statement.Faithful rules := by
  cases h with
  | assignment hname hassign h =>
    obtain ⟨value, rfl, rfl⟩ := map_eq_ok hout
    exact ⟨hname, rfl, hassign, h.faithful rfl (by simp)⟩
  | expression _ h =>
    obtain ⟨e, rfl, rfl⟩ := map_eq_ok hout
    have htook : ts = e.yield ++ rest.tail := h.took hr rfl
    refine ⟨?_, h.faithful rfl (by simp)⟩
    obtain ⟨t, us, hyield⟩ := List.exists_cons_of_ne_nil e.yield_ne_nil
    rw [htook, hyield]
    rfl

/-! ### Segments -/

/-- The tokens of one round of the statement loop. -/
inductive Segment where
  /-- The tokens of a statement of the program. -/
  | kept (statement : Statement)
  /-- Tokens that were given up with a fault. -/
  | dropped (tokens : List Token) (fault : Diagnostic)

namespace Segment

def tokens : Segment → List Token
  | .kept statement => statement.yield
  | .dropped tokens _ => tokens

def statement? : Segment → Option Statement
  | .kept statement => some statement
  | .dropped _ _ => none

def fault? : Segment → Option Diagnostic
  | .kept _ => none
  | .dropped _ fault => some fault

theorem length_filterMap_add (segments : List Segment) :
    (segments.filterMap statement?).length + (segments.filterMap fault?).length =
      segments.length := by
  induction segments with
  | nil => rfl
  | cons segment segments ih =>
    cases segment <;> simp [List.filterMap_cons, statement?, fault?] <;> omega

end Segment

/-- A fault is blamed on the last token given up, or on the end token if nothing comes behind. -/
def Blamed (finish : Position) (segments : List Segment) : Prop :=
  ∀ before us d after, segments = before ++ .dropped us d :: after →
    us.getLast? = some d.token ∨ after = [] ∧ d.token = .eof finish

theorem blamed_cons {segment : Segment} {segments : List Segment}
    (hhead : ∀ us d, segment = .dropped us d →
      us.getLast? = some d.token ∨ segments = [] ∧ d.token = .eof finish)
    (htail : Blamed finish segments) : Blamed finish (segment :: segments) := by
  intro before us d after heq
  cases before with
  | nil =>
    obtain ⟨rfl, rfl⟩ := List.cons.inj heq
    exact hhead us d rfl
  | cons _ before =>
    obtain ⟨-, rfl⟩ := List.cons.inj heq
    exact htail before us d after rfl

/-- The rounds of the statement loop divide the tokens ahead into segments. -/
theorem ReadsProgram.exists_segments (hr : rules.Ungrouped)
    (h : ReadsProgram rules finish levels ts outs) :
    ∃ segments : List Segment, segments.flatMap Segment.tokens = ts ∧
      segments.filterMap Segment.statement? = statementsOf outs ∧
      segments.filterMap Segment.fault? = faultsOf outs ∧
      (∀ segment ∈ segments, segment.tokens ≠ []) ∧ Blamed finish segments := by
  induction h with
  | nil => exact ⟨[], rfl, rfl, rfl, by simp, by simp [Blamed]⟩
  | @cons ts rest out outs hne h hrest ih =>
    obtain ⟨segments, htokens, hstatements, hfaults, hnonempty, hblamed⟩ := ih
    cases out with
    | ok statement =>
      refine ⟨.kept statement :: segments, ?_, ?_, ?_, ?_, ?_⟩
      · rw [List.flatMap_cons, htokens]
        exact (h.eq_yield_append hr rfl).symm
      · exact congrArg (statement :: ·) hstatements
      · exact hfaults
      · simpa using ⟨statement.yield_ne_nil, hnonempty⟩
      · exact blamed_cons (by simp) hblamed
    | error d =>
      have htoken := h.token_eq_front hr rfl
      obtain ⟨taken, htaken⟩ := h.suffix
      -- the loop passes the token that the statement stopped on, so that it is given up as well
      refine ⟨.dropped (taken ++ rest.take 1) d :: segments, ?_, ?_, ?_, ?_, ?_⟩
      · rw [List.flatMap_cons, htokens]
        cases rest <;> simp [Segment.tokens, ← htaken]
      · exact hstatements
      · exact congrArg (d :: ·) hfaults
      · simp only [List.mem_cons, forall_eq_or_imp, Segment.tokens]
        refine ⟨fun hnil => hne ?_, hnonempty⟩
        simp_all
      · refine blamed_cons ?_ hblamed
        rintro us d' heq
        cases heq
        cases rest with
        | nil =>
          have hnil : segments = [] := List.eq_nil_iff_forall_not_mem.mpr fun segment hmem =>
            hnonempty segment hmem (List.flatMap_eq_nil_iff.mp htokens segment hmem)
          exact .inr ⟨hnil, htoken⟩
        | cons t rest => simp [htoken]

theorem ReadsProgram.faithful (hr : rules.Ungrouped)
    (h : ReadsProgram rules finish levels ts outs) :
    ∀ statement ∈ statementsOf outs, statement.Faithful rules := by
  induction h with
  | nil => simp [statementsOf]
  | @cons ts rest out outs _ h _ ih =>
    cases out with
    | ok statement =>
      intro other hmem
      rcases List.mem_cons.mp hmem with rfl | hmem
      · exact h.faithful hr rfl
      · exact ih other hmem
    | error d => exact ih

/-- Without a fault, all tokens before the end are in the program. -/
theorem ReadsProgram.flatMap_yield (hr : rules.Ungrouped)
    (h : ReadsProgram rules finish levels ts outs) (hfaults : faultsOf outs = []) :
    (statementsOf outs).flatMap Statement.yield = ts := by
  induction h with
  | nil => rfl
  | @cons ts rest out outs _ h _ ih =>
    cases out with
    | ok s =>
      have hrest : (statementsOf outs).flatMap Statement.yield = rest.tail := ih hfaults
      rw [h.eq_yield_append hr rfl, ← hrest]
      rfl
    | error d => cases hfaults

/-- The tokens blamed are among those of the text, in the same order. -/
theorem ReadsProgram.faults_sublist (hr : rules.Ungrouped)
    (h : ReadsProgram rules finish levels ts outs) :
    ((faultsOf outs).map Diagnostic.token).Sublist (ts ++ [.eof finish]) := by
  induction h with
  | nil => exact List.nil_sublist _
  | @cons ts rest out outs _ h hrest ih =>
    cases out with
    | ok statement =>
      rw [h.eq_yield_append hr rfl, List.append_assoc]
      exact ih.trans (List.sublist_append_right _ _)
    | error d =>
      have htoken := h.token_eq_front hr rfl
      obtain ⟨taken, rfl⟩ := h.suffix
      cases rest with
      | nil =>
        cases hrest with
        | nil => simp [faultsOf, htoken]
        | cons hne => exact absurd rfl hne
      | cons t rest =>
        rw [List.append_assoc]
        refine List.Sublist.trans ?_ (List.sublist_append_right _ _)
        have hhead : d.token = t := htoken
        subst hhead
        exact ih.cons_cons _

end Parser

/-- The tokens before the end divide into segments, each kept as a statement or dropped with a
fault that is blamed on its last token, or on the end token if the segment is the last. All nodes
stand for what their tokens spell. Statements and faults number the segments, faults are reported
from left to right, and no token stands twice. -/
theorem exists_segments_parse (source : String) :
    ∃ (segments : List Parser.Segment) (finish : Position),
      tokenize source = segments.flatMap Parser.Segment.tokens ++ [.eof finish] ∧
      (∀ segment ∈ segments, segment.tokens ≠ [] ∧ ∀ t ∈ segment.tokens, t.kind ≠ .eof) ∧
      (parse source).1.statements = segments.filterMap Parser.Segment.statement? ∧
      (parse source).2 = segments.filterMap Parser.Segment.fault? ∧
      (∀ before us d after, segments = before ++ .dropped us d :: after →
        us.getLast? = some d.token ∨ after = [] ∧ d.token = .eof finish) ∧
      (∀ statement ∈ (parse source).1.statements, statement.Faithful .standard) ∧
      (parse source).1.statements.length + (parse source).2.length = segments.length ∧
      (parse source).2.Pairwise (fun d d' => d.position < d'.position) ∧
      (tokenize source).Pairwise (fun t u => t.position < u.position) := by
  obtain ⟨outs, h, hparse⟩ := Parser.exists_readsProgram_parse source
  obtain ⟨segments, htokens, hstatements, hfaults, hnonempty, hblamed⟩ :=
    h.exists_segments Rules.standard_ungrouped
  have hsorted := pairwise_tokenize source
  have hkinds : ∀ segment ∈ segments, ∀ t ∈ segment.tokens, t.kind ≠ .eof := by
    intro segment hsegment t ht
    refine Scanner.kind_ne_eof_of_mem_tokens (s := Scanner.ofString source) ?_
    rw [← htokens]
    exact List.mem_flatMap.mpr ⟨segment, hsegment, ht⟩
  have hblame : ((Parser.faultsOf outs).map Diagnostic.token).Pairwise
      (fun t u => t.position < u.position) :=
    hsorted.sublist (h.faults_sublist Rules.standard_ungrouped)
  rw [hparse]
  refine ⟨segments, (Scanner.ofString source).finish, ?_, ?_, hstatements.symm, hfaults.symm,
    hblamed, h.faithful Rules.standard_ungrouped, ?_,
    hblame.of_map Diagnostic.token (fun _ _ => id), hsorted⟩
  · rw [tokenize_eq, htokens]
  · exact fun segment hsegment => ⟨hnonempty segment hsegment, hkinds segment hsegment⟩
  · rw [← hstatements, ← hfaults, Parser.Segment.length_filterMap_add]

end ExprFront
