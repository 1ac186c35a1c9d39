import ExprFront.Parser.Expr

/-! The reading of an expression as a relation between the tokens ahead, what comes out and the
tokens left. A reading that succeeds ends on the last token it took, and one that fails on the token
it blames. Proved: under rules without an infix rule for the end token every reading has exactly one
outcome, and it is the one that `readWithin` computes; rules, depth and earlier faults are kept. -/

namespace ExprFront.Parser

/-- The first of the tokens ahead, or the end token. -/
def front (finish : Position) (ts : List Token) : Token := ts.headD (.eof finish)

@[simp] theorem front_nil (finish : Position) : front finish [] = .eof finish := rfl

@[simp] theorem front_cons (finish : Position) (t : Token) (ts : List Token) :
    front finish (t :: ts) = t := rfl

theorem current_eq_front (p : Parser) : p.current = front p.finish p.ahead := rfl

theorem peek_eq_front (p : Parser) : p.peek = front p.finish p.ahead.tail := rfl

/-- The token behind the current one is not folded into an operand read at the power: it does not
bind tighter, or has no infix rule. -/
def Stops (rules : Rules) (finish : Position) (bp : BindingPower) (ts : List Token) : Prop :=
  ¬ bp < rules.power (front finish ts.tail).kind ∨
    rules.infixRule (front finish ts.tail).kind = none

/-- A stretch of reading. -/
inductive Task where
  /-- An expression of at most so many levels, itself among them. -/
  | expr (levels : Nat) (bp : BindingPower)
  /-- The start of an expression, up to its first operator; so many levels are left inside it. -/
  | operand (levels : Nat)
  /-- The operators after an operand that was read already. -/
  | fold (levels : Nat) (bp : BindingPower) (left : Expr)

/-- `Reads rules finish task ts out rest`: with `ts` ahead the task comes to `out`, and leaves the
parser on the first token of `rest`. -/
inductive Reads (rules : Rules) (finish : Position) :
    Task → List Token → Except Diagnostic Expr → List Token → Prop where
  | tooDeep {bp : BindingPower} {ts : List Token} :
      Reads rules finish (.expr 0 bp) ts
        (.error ⟨.nestingTooDeep maxDepth, front finish ts⟩) ts
  | noOperand {n : Nat} {bp : BindingPower} {ts rest : List Token} {d : Diagnostic} :
      Reads rules finish (.operand n) ts (.error d) rest →
      Reads rules finish (.expr (n + 1) bp) ts (.error d) rest
  | expr {n : Nat} {bp : BindingPower} {ts mid rest : List Token} {left : Expr}
      {out : Except Diagnostic Expr} :
      Reads rules finish (.operand n) ts (.ok left) mid →
      Reads rules finish (.fold n bp left) mid out rest →
      Reads rules finish (.expr (n + 1) bp) ts out rest
  | noRule {n : Nat} {ts : List Token}
      (hrule : rules.prefixRule (front finish ts).kind = none) :
      Reads rules finish (.operand n) ts
        (.error ⟨.noPrefixRule (front finish ts).kind (front finish ts).literal,
          front finish ts⟩) ts
  | name {n : Nat} {ts : List Token}
      (hrule : rules.prefixRule (front finish ts).kind = some .name) :
      Reads rules finish (.operand n) ts
        (.ok (.ident ⟨front finish ts, (front finish ts).literal⟩)) ts
  | integer {n : Nat} {ts : List Token} {value : Int64}
      (hrule : rules.prefixRule (front finish ts).kind = some .integer)
      (hvalue : Numeral.read (front finish ts).literal = .ok value) :
      Reads rules finish (.operand n) ts (.ok (.int (front finish ts) value)) ts
  | badInteger {n : Nat} {ts : List Token} {error : NumeralError}
      (hrule : rules.prefixRule (front finish ts).kind = some .integer)
      (herror : Numeral.read (front finish ts).literal = .error error) :
      Reads rules finish (.operand n) ts
        (.error ⟨.badInteger (front finish ts).literal error, front finish ts⟩) ts
  | unary {n : Nat} {ts rest : List Token} {out : Except Diagnostic Expr}
      (hrule : rules.prefixRule (front finish ts).kind = some .operator) :
      Reads rules finish (.expr n .unary) ts.tail out rest →
      Reads rules finish (.operand n) ts
        (out.map (.unary (front finish ts) (front finish ts).literal)) rest
  | groupFault {n : Nat} {ts rest : List Token} {d : Diagnostic}
      (hrule : rules.prefixRule (front finish ts).kind = some .group) :
      Reads rules finish (.expr n .lowest) ts.tail (.error d) rest →
      Reads rules finish (.operand n) ts (.error d) rest
  | unclosed {n : Nat} {ts rest : List Token} {inner : Expr}
      (hrule : rules.prefixRule (front finish ts).kind = some .group) :
      Reads rules finish (.expr n .lowest) ts.tail (.ok inner) rest →
      (front finish rest.tail).kind ≠ .rParen →
      Reads rules finish (.operand n) ts
        (.error ⟨.unexpected .rParen (front finish rest.tail).kind, front finish rest.tail⟩) rest
  | group {n : Nat} {ts rest : List Token} {inner : Expr}
      (hrule : rules.prefixRule (front finish ts).kind = some .group) :
      Reads rules finish (.expr n .lowest) ts.tail (.ok inner) rest →
      (front finish rest.tail).kind = .rParen →
      Reads rules finish (.operand n) ts (.ok inner) rest.tail
  | stop {n : Nat} {bp : BindingPower} {ts : List Token} {left : Expr}
      (hstop : Stops rules finish bp ts) :
      Reads rules finish (.fold n bp left) ts (.ok left) ts
  | noRight {n : Nat} {bp : BindingPower} {ts rest : List Token} {left : Expr} {d : Diagnostic}
      (hbp : bp < rules.power (front finish ts.tail).kind)
      (hrule : rules.infixRule (front finish ts.tail).kind = some .binary) :
      Reads rules finish (.expr n (rules.power (front finish ts.tail).kind)) ts.tail.tail
        (.error d) rest →
      Reads rules finish (.fold n bp left) ts (.error d) rest
  | binary {n : Nat} {bp : BindingPower} {ts mid rest : List Token} {left right : Expr}
      {out : Except Diagnostic Expr}
      (hbp : bp < rules.power (front finish ts.tail).kind)
      (hrule : rules.infixRule (front finish ts.tail).kind = some .binary) :
      Reads rules finish (.expr n (rules.power (front finish ts.tail).kind)) ts.tail.tail
        (.ok right) mid →
      Reads rules finish (.fold n bp
        (.binary (front finish ts.tail) (front finish ts.tail).literal left right)) mid out rest →
      Reads rules finish (.fold n bp left) ts out rest

variable {rules : Rules} {finish : Position} {task : Task} {ts rest : List Token}
  {out : Except Diagnostic Expr}

/-- Nothing is put back: what is left was ahead before. -/
theorem Reads.suffix (h : Reads rules finish task ts out rest) : rest <:+ ts := by
  induction h with
  | tooDeep | noRule | name | integer | badInteger | stop => exact List.suffix_refl _
  | noOperand _ ih => exact ih
  | expr _ _ ihl ihf => exact ihf.trans ihl
  | unary _ _ ih | groupFault _ _ ih | unclosed _ _ _ ih => exact ih.trans (List.tail_suffix _)
  | group _ _ _ ih => exact ((List.tail_suffix _).trans ih).trans (List.tail_suffix _)
  | noRight _ _ _ ih => exact (ih.trans (List.tail_suffix _)).trans (List.tail_suffix _)
  | binary _ _ _ _ ihr ihf =>
    exact ((ihf.trans ihr).trans (List.tail_suffix _)).trans (List.tail_suffix _)

/-- A reading takes every operator that binds tighter. -/
theorem Reads.stops {e : Expr} (h : Reads rules finish task ts out rest) (hout : out = .ok e) :
    match task with
    | .expr _ bp | .fold _ bp _ => Stops rules finish bp rest
    | .operand _ => True := by
  induction h with
  | tooDeep | noOperand | noRight => cases hout
  | expr _ _ _ ihf => exact ihf hout
  | noRule | name | integer | badInteger | unary | groupFault | unclosed | group => trivial
  | stop hstop => exact hstop
  | binary _ _ _ _ _ ihf => exact ihf hout

/-! ### The functions compute the relation -/

/-- The state after an outcome: the tokens ahead are replaced, and a fault is recorded. -/
def leave {α : Type} (p : Parser) (out : Except Diagnostic α) (rest : List Token) :
    Option α × Parser :=
  match out with
  | .ok a => (some a, { p with ahead := rest })
  | .error d => (none, { p with ahead := rest, faults := d :: p.faults })

theorem leave_injective {α : Type} {p : Parser} {out out' : Except Diagnostic α}
    {rest rest' : List Token} (h : p.leave out rest = p.leave out' rest') :
    out = out' ∧ rest = rest' := by
  cases out <;> cases out' <;> simp_all [leave]

/-- What `readNested` does before it folds. -/
def readOperand (sub : Reader) (p : Parser) : Option Expr × Parser :=
  match p.rules.prefixRule p.current.kind with
  | none => (none, p.report (.noPrefixRule p.current.kind p.current.literal) p.current)
  | some rule => p.readPrefix rule sub

theorem readNested_eq (sub : Reader) (bp : BindingPower) (p : Parser) :
    readNested sub bp p =
      match readOperand sub p with
      | (none, q) => (none, q)
      | (some left, q) => foldInfix sub bp (q.eof :: q.ahead) left q := by
  unfold readNested readOperand
  cases p.rules.prefixRule p.current.kind <;> rfl

/-- The function behind a task. -/
def Task.run (task : Task) (budget : List Token) (p : Parser) : Option Expr × Parser :=
  match task with
  | .expr n bp => readWithin n bp p
  | .operand n => readOperand (readWithin n) p
  | .fold n bp left => foldInfix (readWithin n) bp budget left p

/-- A kind with an infix rule is no end token, so that the token is a real one. -/
theorem tail_ne_nil_of_infixRule (heof : rules.infixRule .eof = none) {rule : InfixRule}
    (hrule : rules.infixRule (front finish ts.tail).kind = some rule) : ts.tail ≠ [] := by
  intro hnil
  rw [hnil, front_nil, Token.eof, heof] at hrule
  cases hrule

/-- Folding stops at a token that does not bind tighter, and at one without an infix rule. -/
theorem foldInfix_of_stop (sub : Reader) (budget : List Token) (left : Expr) (p : Parser)
    {bp : BindingPower} (hstop : ¬ bp < p.peekPower ∨ p.rules.infixRule p.peek.kind = none) :
    foldInfix sub bp budget left p = (some left, p) := by
  cases budget with
  | nil => rfl
  | cons b budget =>
    rw [foldInfix]
    rcases hstop with hpower | hrule
    · rw [if_neg hpower]
    · rw [hrule, ite_self]

/-- One round of folding. -/
theorem foldInfix_cons (sub : Reader) (b : Token) (budget : List Token) (left : Expr) (p : Parser)
    {bp : BindingPower} (hbp : bp < p.peekPower)
    (hrule : p.rules.infixRule p.peek.kind = some .binary) :
    foldInfix sub bp (b :: budget) left p =
      match p.advance.readBinary sub left with
      | (none, q) => (none, q)
      | (some left, q) => foldInfix sub bp budget left q := by
  rw [foldInfix, if_pos hbp, hrule]
  rfl

/-- The outcome of a task is the one its function computes. Folding needs a budget that covers the
tokens ahead, since every round passes an operator. -/
theorem Reads.run_eq (heof : rules.infixRule .eof = none)
    (h : Reads rules finish task ts out rest) :
    ∀ (faults : List Diagnostic) (depth : Nat) (budget : List Token), ts.length ≤ budget.length →
      task.run budget ⟨ts, finish, rules, faults, depth⟩ =
        leave ⟨ts, finish, rules, faults, depth⟩ out rest := by
  induction h with
  | tooDeep => intro faults depth budget _; rfl
  | @noOperand n bp ts rest d _ ih =>
    intro faults depth budget hb
    have hop : readOperand (readWithin n) ⟨ts, finish, rules, faults, depth + 1⟩ = _ :=
      ih faults (depth + 1) budget hb
    simp only [Task.run, readWithin, enter, readNested_eq, hop, leave, exit, Nat.add_sub_cancel]
  | @expr n bp ts mid rest left out hl _ ihl ihf =>
    intro faults depth budget hb
    have hop : readOperand (readWithin n) ⟨ts, finish, rules, faults, depth + 1⟩ = _ :=
      ihl faults (depth + 1) budget hb
    have hfold : foldInfix (readWithin n) bp (.eof finish :: mid) left
        ⟨mid, finish, rules, faults, depth + 1⟩ = _ :=
      ihf faults (depth + 1) (.eof finish :: mid) (Nat.le_succ _)
    simp only [Task.run, readWithin, enter, readNested_eq, hop, leave, eof, hfold]
    cases out <;> simp only [exit, Nat.add_sub_cancel]
  | noRule hrule | name hrule =>
    intro faults depth budget _
    simp only [Task.run, readOperand, current_eq_front, hrule]
    rfl
  | integer hrule hvalue | badInteger hrule hvalue =>
    intro faults depth budget _
    simp only [Task.run, readOperand, current_eq_front, hrule, readPrefix, readInteger, hvalue]
    rfl
  | @unary n ts rest out hrule _ ih =>
    intro faults depth budget hb
    have hsub : readWithin n .unary ⟨ts.tail, finish, rules, faults, depth⟩ = _ :=
      ih faults depth budget (by simp; omega)
    simp only [Task.run, readOperand, current_eq_front, hrule, readPrefix, readUnary, advance, hsub]
    cases out <;> rfl
  | @groupFault n ts rest d hrule _ ih =>
    intro faults depth budget hb
    have hsub : readWithin n .lowest ⟨ts.tail, finish, rules, faults, depth⟩ = _ :=
      ih faults depth budget (by simp; omega)
    simp only [Task.run, readOperand, current_eq_front, hrule, readPrefix, readGroup, advance, hsub]
    rfl
  | @unclosed n ts rest inner hrule _ hclose ih | @group n ts rest inner hrule _ hclose ih =>
    intro faults depth budget hb
    have hsub : readWithin n .lowest ⟨ts.tail, finish, rules, faults, depth⟩ = _ :=
      ih faults depth budget (by simp; omega)
    simp only [Task.run, readOperand, current_eq_front, hrule, readPrefix, readGroup, advance, hsub,
      leave, expectPeek, peek_eq_front, hclose]
    rfl
  | stop hstop =>
    intro faults depth budget _
    exact foldInfix_of_stop _ _ _ _ hstop
  | @noRight n bp ts rest left d hbp hrule _ ih =>
    intro faults depth budget hb
    have hne := tail_ne_nil_of_infixRule heof hrule
    cases budget with
    | nil => cases ts <;> simp_all
    | cons b budget =>
      have hsub : readWithin n (rules.power (front finish ts.tail).kind)
          ⟨ts.tail.tail, finish, rules, faults, depth⟩ = _ :=
        ih faults depth (b :: budget) (by simp at hb ⊢; omega)
      rw [Task.run, foldInfix_cons _ _ _ _ _ hbp hrule]
      simp only [readBinary, currentPower, current_eq_front, advance, hsub]
      rfl
  | @binary n bp ts mid rest left right out hbp hrule hr _ ihr ihf =>
    intro faults depth budget hb
    have hne := tail_ne_nil_of_infixRule heof hrule
    have hmid := hr.suffix.length_le
    cases budget with
    | nil => cases ts <;> simp_all
    | cons b budget =>
      have hsub : readWithin n (rules.power (front finish ts.tail).kind)
          ⟨ts.tail.tail, finish, rules, faults, depth⟩ = _ :=
        ihr faults depth (b :: budget) (by simp at hb ⊢; omega)
      have hfold : foldInfix (readWithin n) bp budget
          (.binary (front finish ts.tail) (front finish ts.tail).literal left right)
          ⟨mid, finish, rules, faults, depth⟩ = _ :=
        ihf faults depth budget (by simp at hb hmid; omega)
      rw [Task.run, foldInfix_cons _ _ _ _ _ hbp hrule]
      simp only [readBinary, currentPower, current_eq_front, advance, hsub, leave, hfold]

/-- Tokens ahead leave no choice of outcome. -/
theorem Reads.unique (heof : rules.infixRule .eof = none) {out' : Except Diagnostic Expr}
    {rest' : List Token} (h : Reads rules finish task ts out rest)
    (h' : Reads rules finish task ts out' rest') : out = out' ∧ rest = rest' :=
  leave_injective <|
    (h.run_eq heof [] 0 ts (Nat.le_refl _)).symm.trans (h'.run_eq heof [] 0 ts (Nat.le_refl _))

/-! ### Every task has an outcome -/

theorem exists_reads_operand {n : Nat}
    (hexpr : ∀ bp ts, ∃ out rest, Reads rules finish (.expr n bp) ts out rest) (ts : List Token) :
    ∃ out rest, Reads rules finish (.operand n) ts out rest := by
  cases hrule : rules.prefixRule (front finish ts).kind with
  | none => exact ⟨_, _, .noRule hrule⟩
  | some rule =>
    cases rule with
    | name => exact ⟨_, _, .name hrule⟩
    | integer =>
      cases hread : Numeral.read (front finish ts).literal with
      | ok value => exact ⟨_, _, .integer hrule hread⟩
      | error error => exact ⟨_, _, .badInteger hrule hread⟩
    | operator =>
      obtain ⟨out, rest, h⟩ := hexpr .unary ts.tail
      exact ⟨_, _, .unary hrule h⟩
    | group =>
      obtain ⟨out, rest, h⟩ := hexpr .lowest ts.tail
      cases out with
      | error d => exact ⟨_, _, .groupFault hrule h⟩
      | ok inner =>
        by_cases hclose : (front finish rest.tail).kind = .rParen
        · exact ⟨_, _, .group hrule h hclose⟩
        · exact ⟨_, _, .unclosed hrule h hclose⟩

theorem exists_reads_fold (heof : rules.infixRule .eof = none) {n : Nat}
    (hexpr : ∀ bp ts, ∃ out rest, Reads rules finish (.expr n bp) ts out rest)
    (bp : BindingPower) (left : Expr) (ts : List Token) :
    ∃ out rest, Reads rules finish (.fold n bp left) ts out rest := by
  -- a round takes the operator off the tokens ahead, so that their number bounds the rounds
  induction hlen : ts.length using Nat.strongRecOn generalizing ts left with
  | ind len ih =>
    by_cases hbp : bp < rules.power (front finish ts.tail).kind
    · cases hrule : rules.infixRule (front finish ts.tail).kind with
      | none => exact ⟨_, _, .stop (.inr hrule)⟩
      | some rule =>
        cases rule with
        | binary =>
          obtain ⟨out, mid, hright⟩ :=
            hexpr (rules.power (front finish ts.tail).kind) ts.tail.tail
          cases out with
          | error d => exact ⟨_, _, .noRight hbp hrule hright⟩
          | ok right =>
            have hne := tail_ne_nil_of_infixRule heof hrule
            have hmid := hright.suffix.length_le
            have hlt : mid.length < len := by
              cases ts with
              | nil => exact absurd rfl hne
              | cons t ts =>
                simp only [List.tail_cons, List.length_tail, List.length_cons] at *
                omega
            obtain ⟨out, rest, hfold⟩ := ih mid.length hlt _ mid rfl
            exact ⟨_, _, .binary hbp hrule hright hfold⟩
    · exact ⟨_, _, .stop (.inl hbp)⟩

theorem exists_reads (heof : rules.infixRule .eof = none) (finish : Position) (n : Nat)
    (bp : BindingPower) (ts : List Token) :
    ∃ out rest, Reads rules finish (.expr n bp) ts out rest := by
  induction n generalizing bp ts with
  | zero => exact ⟨_, _, .tooDeep⟩
  | succ n ih =>
    obtain ⟨out, mid, hop⟩ := exists_reads_operand ih ts
    cases out with
    | error d => exact ⟨_, _, .noOperand hop⟩
    | ok left =>
      obtain ⟨out, rest, hfold⟩ := exists_reads_fold heof ih bp left mid
      exact ⟨_, _, .expr hop hfold⟩

/-- What `readExpr` comes to in a parser whose end token has no infix rule. -/
theorem exists_readExpr (p : Parser) (heof : p.rules.infixRule .eof = none) (bp : BindingPower) :
    ∃ out rest, Reads p.rules p.finish (.expr (maxDepth - p.depth) bp) p.ahead out rest ∧
      p.readExpr bp = p.leave out rest := by
  obtain ⟨out, rest, h⟩ := exists_reads heof p.finish (maxDepth - p.depth) bp p.ahead
  exact ⟨out, rest, h, h.run_eq heof p.faults p.depth p.ahead (Nat.le_refl _)⟩

end ExprFront.Parser
