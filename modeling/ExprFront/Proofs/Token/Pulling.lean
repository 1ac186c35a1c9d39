import ExprFront.Proofs.Token.Layout

/-! Tokens pulled from a scanner. There are three ways to ask for tokens and a question whether
characters are left, and they may be mixed in any order: all of them share one stream. Whatever has
been asked before, the tokens handed out are the first ones of the text, the next answer is decided by
those that are left, and past the last one every way of asking tells the end, again and again. The text
is what the source of characters gives before its first absent answer; nothing behind it is seen. -/

namespace ExprFront.Scanner

/-! ### Requests and answers -/

/-- A request to a scanner. -/
inductive Pull where
  /-- The next token, the end token included. -/
  | next
  /-- The next token, absent at the end. -/
  | next?
  /-- All tokens that are left. -/
  | drain
  /-- Whether no character is left. -/
  | atEnd

inductive Answer where
  | token (t : Token)
  | token? (t? : Option Token)
  | tokens (ts : List Token)
  | atEnd (reached : Bool)

def pull (s : Scanner) : Pull → Answer × Scanner
  | .next => (.token s.next.1, s.next.2)
  | .next? => (.token? s.next?.1, s.next?.2)
  | .drain => (.tokens s.drain.1, s.drain.2)
  | .atEnd => (.atEnd s.atEnd, s)

/-- The answers to requests made one after the other, and the scanner behind them. -/
def pullAll (s : Scanner) : List Pull → List Answer × Scanner
  | [] => ([], s)
  | op :: ops =>
    ((s.pull op).1 :: ((s.pull op).2.pullAll ops).1, ((s.pull op).2.pullAll ops).2)

/-- The tokens that an answer hands out, the end token apart. -/
def Answer.handed : Answer → List Token
  | .token t => if t.kind = .eof then [] else [t]
  | .token? t? => t?.toList
  | .tokens ts => ts
  | .atEnd _ => []

/-- Whether an answer tells that there are no more tokens. -/
def Answer.tellsEnd : Answer → Bool
  | .token t => t.kind = .eof
  | .token? t? => t?.isNone
  | .tokens _ => true
  | .atEnd _ => false

/-- The characters gone by the time of the answers: those of the tokens handed out and of the blanks
before them, and the blanks at the end of the text once the end has been met. -/
def consumed (pieces : List Piece) (last : List Char) (answers : List Answer) : List Char :=
  (pieces.take (answers.flatMap Answer.handed).length).flatMap Piece.chars ++
    if answers.any Answer.tellsEnd then last else []

/-- What is true of a scanner of the text once it has given the answers, and `left` are the tokens
still to come. -/
structure Continues (source : String) (pieces : List Piece) (last : List Char)
    (answers : List Answer) (left : List Token) (s : Scanner) : Prop where
  /-- The tokens handed out, those left and the end token are the tokens of the text. -/
  stream : tokenize source = answers.flatMap Answer.handed ++ left ++ [.eof (.after source.toList)]
  /-- Once the end has been told nothing is left, so every further answer tells it again. -/
  left_of_end : answers.any Answer.tellsEnd → left = []
  next : s.next.1 = left.headD (.eof (.after source.toList))
  next? : s.next?.1 = left.head?
  drain : s.drain.1 = left
  atEnd : s.atEnd ↔ consumed pieces last answers = source.toList

/-! ### One request -/

variable {s s' : Scanner} {t : Token}

theorem next_of_some (h : s.step? = some (t, s')) : s.next = (t, s') := by rw [next, h]

theorem next_of_none (h : s.step? = none) :
    s.next = (.eof s.skipBlanks.position, s.skipBlanks) := by rw [next, h]

theorem next?_of_some (h : s.step? = some (t, s')) : s.next? = (some t, s') := by rw [next?, h]

theorem next?_of_none (h : s.step? = none) : s.next? = (none, s.skipBlanks) := by rw [next?, h]

theorem next_fst (s : Scanner) : s.next.1 = s.tokens.headD (.eof s.finish) := by
  cases h : s.step? with
  | none => rw [next_of_none h, tokens_of_none h, finish_of_none h]; rfl
  | some r => rw [next_of_some h, tokens_of_some h]; rfl

theorem next?_fst (s : Scanner) : s.next?.1 = s.tokens.head? := by
  cases h : s.step? with
  | none => rw [next?_of_none h, tokens_of_none h]; rfl
  | some r => rw [next?_of_some h, tokens_of_some h]; rfl

/-- Without a token ahead there are only blanks, and skipping them leads to the end. -/
theorem skipBlanks_of_none (h : s.step? = none) : s.skipBlanks = ⟨[], s.finish⟩ := by
  rw [finish_of_none h, skipBlanks, step?_none h]

theorem drain_snd (s : Scanner) : s.drain.2 = ⟨[], s.finish⟩ := by
  induction s using stream_induction with
  | stop s h =>
    rw [← skipBlanks_of_none h, drain, drainInto]
    split
    next => rfl
    next hstep => rw [h] at hstep; cases hstep
  | step s t s' h ih => rw [drain_of_some h, finish_of_some h, ih]

/-- A request moves nothing, or takes one token, or all that are left and tells the end. -/
theorem pull_cases (s : Scanner) (op : Pull) :
    ((s.pull op).1.handed = [] ∧ (s.pull op).1.tellsEnd = false ∧ (s.pull op).2 = s) ∨
    (∃ t, s.step? = some (t, (s.pull op).2) ∧ (s.pull op).1.handed = [t] ∧
      (s.pull op).1.tellsEnd = false) ∨
    ((s.pull op).1.handed = s.tokens ∧ (s.pull op).1.tellsEnd = true ∧
      (s.pull op).2 = ⟨[], s.finish⟩) := by
  cases op with
  | next =>
    cases h : s.step? with
    | none =>
      refine .inr (.inr ?_)
      rw [pull, next_of_none h, tokens_of_none h, skipBlanks_of_none h]
      simp [Answer.handed, Answer.tellsEnd, Token.eof]
    | some r =>
      have hkind : r.1.kind ≠ .eof :=
        kind_ne_eof_of_mem_tokens (by rw [tokens_of_some h]; exact List.mem_cons_self)
      refine .inr (.inl ⟨r.1, ?_⟩)
      rw [pull, next_of_some h]
      simp [Answer.handed, Answer.tellsEnd, hkind]
  | next? =>
    cases h : s.step? with
    | none =>
      refine .inr (.inr ?_)
      rw [pull, next?_of_none h, tokens_of_none h, skipBlanks_of_none h]
      exact ⟨rfl, rfl, rfl⟩
    | some r =>
      refine .inr (.inl ⟨r.1, ?_⟩)
      rw [pull, next?_of_some h]
      exact ⟨rfl, rfl, rfl⟩
  | drain => exact .inr (.inr ⟨rfl, rfl, drain_snd s⟩)
  | atEnd => exact .inl ⟨rfl, rfl, rfl⟩

/-! ### Where the scanner stands -/

/-- Where a scanner of the pieces stands once it has given the answers: behind the pieces handed
out, or behind the whole text if the end has been told. -/
inductive Stands (pieces : List Piece) (last : List Char) : List Answer → Scanner → Prop where
  | inside {gone ahead : List Piece} {answers : List Answer} (hpieces : pieces = gone ++ ahead)
      (hhanded : answers.flatMap Answer.handed = Piece.tokens [] gone)
      (hend : answers.any Answer.tellsEnd = false) :
      Stands pieces last answers
        ⟨ahead.flatMap Piece.chars ++ last, .after (gone.flatMap Piece.chars)⟩
  | ended {answers : List Answer}
      (hhanded : answers.flatMap Answer.handed = Piece.tokens [] pieces)
      (hend : answers.any Answer.tellsEnd = true) :
      Stands pieces last answers ⟨[], .after (pieces.flatMap Piece.chars ++ last)⟩

namespace Stands

variable {cs last : List Char} {pieces : List Piece} {answers : List Answer}

theorem start (hcut : IsCut cs pieces last) : Stands pieces last [] (ofChars cs) := by
  rw [hcut.chars_eq]
  exact @Stands.inside pieces last [] pieces [] rfl rfl rfl

/-- The tokens handed out and those ahead are the tokens of the text. -/
theorem handed_append_tokens (hcut : IsCut cs pieces last) (h : Stands pieces last answers s) :
    answers.flatMap Answer.handed ++ s.tokens = Piece.tokens [] pieces := by
  cases h with
  | inside hpieces hhanded =>
    subst hpieces
    rw [hhanded, hcut.of_append.tokens_eq, Piece.tokens_append, List.nil_append]
  | ended hhanded => rw [hhanded, tokens_of_none rfl, List.append_nil]

theorem finish_eq (h : Stands pieces last answers s) :
    s.finish = .after (pieces.flatMap Piece.chars ++ last) := by
  cases h with
  | inside hpieces =>
    rw [Scanner.finish_eq, Position.pastAll_after, hpieces, List.flatMap_append, List.append_assoc]
  | ended => rw [Scanner.finish_eq, Position.pastAll_nil]

theorem consumed_append_rest (h : Stands pieces last answers s) :
    consumed pieces last answers ++ s.rest = pieces.flatMap Piece.chars ++ last := by
  cases h with
  | inside hpieces hhanded hend =>
    rw [consumed, hhanded, hend, Piece.length_tokens, hpieces, List.take_left]
    simp
  | ended hhanded hend =>
    rw [consumed, hhanded, hend, Piece.length_tokens, List.take_length]
    simp

theorem tokens_of_tellsEnd (h : Stands pieces last answers s) (hend : answers.any Answer.tellsEnd) :
    s.tokens = [] := by
  cases h with
  | inside _ _ hinside => rw [hinside] at hend; cases hend
  | ended => exact tokens_of_none rfl

theorem pull (hcut : IsCut cs pieces last) (h : Stands pieces last answers s) (op : Pull) :
    Stands pieces last (answers ++ [(s.pull op).1]) (s.pull op).2 := by
  have hall : (answers ++ [(s.pull op).1]).flatMap Answer.handed =
      answers.flatMap Answer.handed ++ (s.pull op).1.handed := by simp
  have hany : (answers ++ [(s.pull op).1]).any Answer.tellsEnd =
      (answers.any Answer.tellsEnd || (s.pull op).1.tellsEnd) := by simp
  rcases s.pull_cases op with ⟨hhanded, hend, hs⟩ | ⟨t, hstep, hhanded, hend⟩ | ⟨hhanded, hend, hs⟩
  · -- Nothing moves, and the answer adds nothing.
    rw [hhanded, List.append_nil] at hall
    rw [hend, Bool.or_false] at hany
    rw [hs]
    cases h with
    | inside hpieces hgone hinside => exact .inside hpieces (hall.trans hgone) (hany.trans hinside)
    | ended hgone hended => exact .ended (hall.trans hgone) (hany.trans hended)
  · -- One token is taken: it is that of the first piece ahead.
    rw [hhanded] at hall
    rw [hend, Bool.or_false] at hany
    cases h with
    | @inside gone ahead _ hpieces hgone hinside =>
      subst hpieces
      cases ahead with
      | nil => rw [hcut.of_append.step?_nil] at hstep; cases hstep
      | cons p ps =>
        rw [hcut.of_append.step?_cons] at hstep
        obtain ⟨rfl, hs⟩ := Prod.mk.inj (Option.some.inj hstep)
        have hchars : gone.flatMap Piece.chars ++ p.chars = (gone ++ [p]).flatMap Piece.chars := by
          simp
        rw [← hs, hchars]
        refine .inside (by simp) ?_ (hany.trans hinside)
        rw [hall, hgone, Piece.tokens_append]
        rfl
    | ended => cases hstep
  · -- All tokens ahead are taken, and the end is told.
    rw [hs, h.finish_eq]
    refine .ended ?_ (by rw [hany, hend, Bool.or_true])
    rw [hall, hhanded, h.handed_append_tokens hcut]

theorem pullAll (hcut : IsCut cs pieces last) (h : Stands pieces last answers s)
    (ops : List Pull) : Stands pieces last (answers ++ (s.pullAll ops).1) (s.pullAll ops).2 := by
  induction ops generalizing answers s with
  | nil => simpa [Scanner.pullAll] using h
  | cons op ops ih =>
    have hrest := ih (h.pull hcut op)
    rwa [List.append_assoc, List.singleton_append] at hrest

end Stands

/-! ### Every run -/

/-- A source of characters is read up to its first absent answer. -/
theorem ofAnswers_append (source : String) {later : List (Option Char)}
    (hlater : ∀ answer ∈ later.head?, answer = none) :
    ofAnswers (source.toList.map some ++ later) = ofString source := by
  have hstop : later.takeWhile Option.isSome = [] := by
    cases later with
    | nil => rfl
    | cons answer later => simp [hlater answer rfl]
  rw [ofAnswers, List.takeWhile_append_of_pos (by simp), hstop]
  simp [ofString, List.filterMap_map]

theorem Stands.continues {source : String} {pieces : List Piece} {last : List Char}
    {answers : List Answer} (hcut : IsCut source.toList pieces last)
    (h : Stands pieces last answers s) : Continues source pieces last answers s.tokens s := by
  have hfinish : s.finish = .after source.toList := by rw [h.finish_eq, hcut.chars_eq]
  have hconsumed : consumed pieces last answers ++ s.rest = source.toList := by
    rw [h.consumed_append_rest, hcut.chars_eq]
  exact {
    stream := by rw [tokenize_eq_of_isCut hcut, h.handed_append_tokens hcut]; rfl
    left_of_end := h.tokens_of_tellsEnd
    next := by rw [next_fst, hfinish]
    next? := next?_fst s
    drain := rfl
    atEnd := by
      rw [Scanner.atEnd, List.isEmpty_iff, ← hconsumed]
      simp }

/-- However tokens are asked for, from whatever source of characters: all that is handed out is one
stream, the tokens of the text before the first absent answer, and it ends once and for all. -/
theorem continues_pullAll (source : String) (later : List (Option Char))
    (hlater : ∀ answer ∈ later.head?, answer = none) :
    ∃ pieces last, IsCut source.toList pieces last ∧
      tokenize source = Piece.tokens [] pieces ++ [.eof (.after source.toList)] ∧
      ∀ ops, ∃ left,
        Continues source pieces last
          ((ofAnswers (source.toList.map some ++ later)).pullAll ops).1 left
          ((ofAnswers (source.toList.map some ++ later)).pullAll ops).2 := by
  obtain ⟨pieces, last, hcut⟩ := exists_isCut source
  refine ⟨pieces, last, hcut, tokenize_eq_of_isCut hcut, fun ops => ?_⟩
  rw [ofAnswers_append source hlater]
  exact ⟨_, ((Stands.start hcut).pullAll hcut ops).continues hcut⟩

/-- A source of characters that goes on behind its end, in the middle of what would be one token. -/
theorem continues_pullAll_refilled :
    (∀ answer ∈ [none, some '='].head?, answer = none) ∧
      ∃ pieces last, IsCut "a =".toList pieces last ∧
        tokenize "a =" = Piece.tokens [] pieces ++ [.eof (.after "a =".toList)] ∧
        ∀ ops, ∃ left,
          Continues "a =" pieces last
            ((ofAnswers ("a =".toList.map some ++ [none, some '='])).pullAll ops).1 left
            ((ofAnswers ("a =".toList.map some ++ [none, some '='])).pullAll ops).2 := by
  have hlater : ∀ answer ∈ [none, some '='].head?, answer = none := by simp
  exact ⟨hlater, continues_pullAll "a =" [none, some '='] hlater⟩

end ExprFront.Scanner
