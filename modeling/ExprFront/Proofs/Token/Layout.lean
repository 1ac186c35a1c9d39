import Mathlib.Data.List.DropRight
import ExprFront.Proofs.Token.Cutting

/-! Where tokens stand. The scanner moves its place on from character to character; the place that it
gives to a token is the one found by counting the line breaks before the token, and the characters
behind the last of them. Rows counted in this way are those that the source is divided into, and the
text of every token is in its row, from its column on. -/

namespace ExprFront

/-! ### Places by counting -/

/-- The number of line feeds and carriage returns in a text. -/
def lineBreaks (cs : List Char) : Nat := cs.count '\n' + cs.count '\r'

/-- The characters that stay in a row: all but line feeds and carriage returns. -/
def isRowChar (c : Char) : Bool := c != '\n' && c != '\r'

theorem isRowChar_eq (c : Char) : isRowChar c = !isLineBreak c := by
  simp [isRowChar, isLineBreak, bne]

theorem lineBreaks_eq_countP (cs : List Char) : lineBreaks cs = cs.countP isLineBreak := by
  induction cs with
  | nil => rfl
  | cons c cs ih =>
    rw [List.countP_cons, ← ih, lineBreaks, lineBreaks, List.count_cons, List.count_cons]
    by_cases hfeed : c = '\n'
    · subst hfeed
      simp [isLineBreak]
      omega
    · simp [isLineBreak, hfeed]
      omega

namespace Position

/-- The place behind a text: the number of its line breaks, and of the characters behind the last
of them. -/
def after (cs : List Char) : Position := ⟨lineBreaks cs, (cs.rtakeWhile isRowChar).length⟩

theorem after_concat (cs : List Char) (c : Char) : after (cs ++ [c]) = (after cs).past c := by
  by_cases hc : isLineBreak c <;> simp [after, past, lineBreaks_eq_countP, isRowChar_eq, hc]

theorem pastAll_start (cs : List Char) : start.pastAll cs = after cs := by
  -- Places move on at the end of the text, so the induction takes the last character off.
  induction cs using List.reverseRecOn with
  | nil => rfl
  | append_singleton cs c ih => rw [pastAll_append, ih, after_concat, pastAll_cons, pastAll_nil]

theorem pastAll_after (cs ds : List Char) : (after cs).pastAll ds = after (cs ++ ds) := by
  rw [← pastAll_start, ← pastAll_append, pastAll_start]

end Position

/-! ### Rows of a source -/

namespace Source

theorem rowOf_succ_cons (row : Nat) (c : Char) (cs : List Char) :
    rowOf (row + 1) (c :: cs) = if isLineBreak c then rowOf row cs else rowOf (row + 1) cs := by
  by_cases hc : isLineBreak c <;> simp [rowOf, hc]

theorem rowOf_zero (cs : List Char) : rowOf 0 cs = some (cs.takeWhile isRowChar) := by
  rw [rowOf, funext isRowChar_eq]

/-- There is one row more than line breaks. -/
theorem isSome_rowOf (row : Nat) (cs : List Char) :
    (rowOf row cs).isSome ↔ row ≤ lineBreaks cs := by
  rw [lineBreaks_eq_countP]
  induction cs generalizing row with
  | nil => cases row <;> simp [rowOf]
  | cons c cs ih =>
    cases row with
    | zero => simp [rowOf]
    | succ row => by_cases hc : isLineBreak c <;> simp [rowOf_succ_cons, hc, ih]

/-- The rows that start behind a text. -/
theorem rowOf_lineBreaks_append (row : Nat) (before behind : List Char) :
    rowOf (lineBreaks before + (row + 1)) (before ++ behind) = rowOf (row + 1) behind := by
  rw [lineBreaks_eq_countP]
  induction before with
  | nil => simp
  | cons c cs ih =>
    by_cases hc : isLineBreak c
    · rw [List.countP_cons_of_pos hc, List.cons_append, show
        cs.countP isLineBreak + 1 + (row + 1) = cs.countP isLineBreak + (row + 1) + 1 by omega,
        rowOf_succ_cons, if_pos hc, ih]
    · rw [List.countP_cons_of_neg hc, List.cons_append, ← Nat.add_assoc, rowOf_succ_cons,
        if_neg hc, Nat.add_assoc, ih]

/-- The row that a place is in: what it has before the place, and what it has behind. -/
theorem rowOf_append (before behind : List Char) :
    rowOf (Position.after before).row (before ++ behind) =
      some (before.rtakeWhile isRowChar ++ behind.takeWhile isRowChar) := by
  induction before using List.reverseRecOn generalizing behind with
  | nil => exact rowOf_zero behind
  | append_singleton cs c ih =>
    rw [List.append_assoc, List.singleton_append]
    by_cases hc : isLineBreak c
    · have hrow : (Position.after (cs ++ [c])).row = lineBreaks cs + (0 + 1) := by
        simp [Position.after, lineBreaks_eq_countP, hc]
      rw [hrow, rowOf_lineBreaks_append, rowOf_succ_cons, if_pos hc, rowOf_zero]
      simp [isRowChar_eq, hc]
    · have hrow : (Position.after (cs ++ [c])).row = (Position.after cs).row := by
        simp [Position.after, lineBreaks_eq_countP, hc]
      rw [hrow, ih]
      simp [isRowChar_eq, hc]

end Source

/-- A word is in one row. -/
theorem TokenKind.Spells.isRowChar {kind : TokenKind} {cs : List Char} (h : kind.Spells cs) :
    ∀ c ∈ cs, isRowChar c := by
  intro c hc
  have hblank := h.notMem_blanks c hc
  simp only [blanks, List.mem_cons, not_or] at hblank
  simp [ExprFront.isRowChar, hblank]

/-! ### Tokens of a cut -/

namespace Piece

/-- The tokens of pieces that stand behind a text. -/
def tokens (before : List Char) : List Piece → List Token
  | [] => []
  | p :: ps =>
    ⟨p.kind, String.ofList p.text, .after (before ++ p.gap)⟩ :: tokens (before ++ p.chars) ps

theorem tokens_append (before : List Char) (ps qs : List Piece) :
    tokens before (ps ++ qs) = tokens before ps ++ tokens (before ++ ps.flatMap chars) qs := by
  induction ps generalizing before with
  | nil => simp [tokens]
  | cons p ps ih => simp [tokens, ih]

theorem length_tokens (before : List Char) (ps : List Piece) :
    (tokens before ps).length = ps.length := by
  induction ps generalizing before with
  | nil => rfl
  | cons p ps ih => rw [tokens, List.length_cons, ih, List.length_cons]

/-- Every token of a cut is a stretch of the text that stands where the token says. -/
theorem exists_of_mem_tokens {before : List Char} {pieces : List Piece} {t : Token}
    (h : t ∈ tokens before pieces) (rest : List Char) :
    ∃ front behind,
      before ++ (pieces.flatMap chars ++ rest) = front ++ (t.literal.toList ++ behind) ∧
        t.position = .after front := by
  induction pieces generalizing before with
  | nil => cases h
  | cons p ps ih =>
    rcases List.mem_cons.mp h with rfl | h
    · refine ⟨before ++ p.gap, ps.flatMap chars ++ rest, ?_, rfl⟩
      simp [chars]
    · obtain ⟨front, behind, htext, hposition⟩ := ih h
      refine ⟨front, behind, ?_, hposition⟩
      rw [← htext]
      simp

end Piece

/-- The scanner takes the first piece of a cut, and gives it the place behind the text before. -/
theorem IsCut.step?_cons {cs last : List Char} {p : Piece} {ps : List Piece}
    (h : IsCut cs (p :: ps) last) (before : List Char) :
    (⟨cs, .after before⟩ : Scanner).step? =
      some (⟨p.kind, String.ofList p.text, .after (before ++ p.gap)⟩,
        ⟨ps.flatMap Piece.chars ++ last, .after (before ++ p.chars)⟩) := by
  obtain ⟨rfl, hgap, hlast, hspells, hapart⟩ := h
  rw [List.forall_mem_cons] at hgap hspells
  rw [List.isChain_cons] at hapart
  have hends := (p.apart_head?_iff_ends hgap.2 hlast hspells.2).mp hapart.1
  have hstep := Scanner.step?_of_spells hgap.1 hspells.1 hends (.after before)
  rw [List.flatMap_cons, List.append_assoc, Piece.chars, List.append_assoc, hstep,
    Position.pastAll_after, Position.pastAll_after, List.append_assoc]

theorem IsCut.step?_nil {cs last : List Char} (h : IsCut cs [] last) (place : Position) :
    (⟨cs, place⟩ : Scanner).step? = none := by
  obtain ⟨rfl, -, hlast, -, -⟩ := h
  exact Scanner.step?_of_blanks hlast place

/-- The scanner finds the tokens of a cut, in their places. -/
theorem IsCut.tokens_eq {cs last : List Char} {pieces : List Piece} (h : IsCut cs pieces last)
    (before : List Char) :
    (⟨cs, .after before⟩ : Scanner).tokens = Piece.tokens before pieces := by
  induction pieces generalizing cs before with
  | nil => exact Scanner.tokens_of_none (h.step?_nil _)
  | cons p ps ih =>
    rw [Scanner.tokens_of_some (h.step?_cons before), ih h.tail, Piece.tokens]

/-! ### The whole source -/

theorem exists_isCut (source : String) : ∃ pieces last, IsCut source.toList pieces last := by
  obtain ⟨pieces, last, hcut, -⟩ := (Scanner.ofString source).lexes_tokens.exists_isCut
  exact ⟨pieces, last, hcut⟩

theorem tokens_eq_of_isCut {source : String} {pieces : List Piece} {last : List Char}
    (h : IsCut source.toList pieces last) :
    (Scanner.ofString source).tokens = Piece.tokens [] pieces := h.tokens_eq []

theorem tokenize_eq_of_isCut {source : String} {pieces : List Piece} {last : List Char}
    (h : IsCut source.toList pieces last) :
    tokenize source = Piece.tokens [] pieces ++ [⟨.eof, "", .after source.toList⟩] := by
  rw [tokenize_eq, tokens_eq_of_isCut h, Scanner.finish_eq]
  show _ ++ [Token.eof (Position.start.pastAll source.toList)] = _
  rw [Position.pastAll_start, Token.eof]

/-- The row of every token, the end token included: what it has before the token is as long as the
token's column says, and at the token no blank stands. -/
theorem exists_rowOf_of_mem_tokenize {source : String} {t : Token} (ht : t ∈ tokenize source) :
    ∃ before behind,
      Source.rowOf t.position.row source.toList = some (before ++ (t.literal.toList ++ behind)) ∧
      t.position.col = before.length ∧
      (∀ c ∈ before ++ (t.literal.toList ++ behind), isRowChar c) ∧
      ∀ c ∈ (t.literal.toList ++ behind).head?, c ∉ blanks := by
  obtain ⟨pieces, last, hcut⟩ := exists_isCut source
  have hstretch : ∃ front behind, source.toList = front ++ (t.literal.toList ++ behind) ∧
      t.position = .after front ∧ (∀ c ∈ t.literal.toList, isRowChar c) ∧
      ∀ c ∈ (t.literal.toList ++ behind.takeWhile isRowChar).head?, c ∉ blanks := by
    rw [tokenize_eq_of_isCut hcut, List.mem_append, List.mem_singleton] at ht
    rcases ht with ht | rfl
    · obtain ⟨front, behind, htext, hposition⟩ := Piece.exists_of_mem_tokens ht last
      have hmem : t ∈ (Scanner.ofString source).tokens := by rwa [tokens_eq_of_isCut hcut]
      have hspells := Scanner.spells_of_mem_tokens hmem
      refine ⟨front, behind, by rw [hcut.chars_eq, ← htext, List.nil_append], hposition,
        hspells.isRowChar, ?_⟩
      rw [List.head?_append_of_ne_nil _ hspells.ne_nil]
      exact fun c hc => hspells.notMem_blanks c (List.mem_of_mem_head? hc)
    · exact ⟨source.toList, [], by simp, rfl, by simp, by simp⟩
  obtain ⟨front, behind, hsource, hposition, htext, hhead⟩ := hstretch
  refine ⟨front.rtakeWhile isRowChar, behind.takeWhile isRowChar, ?_, by rw [hposition]; rfl, ?_,
    hhead⟩
  · rw [hposition, hsource, Source.rowOf_append, List.takeWhile_append_of_pos htext]
  · intro c hc
    rcases List.mem_append.mp hc with hc | hc
    · exact List.mem_rtakeWhile_imp hc
    · rcases List.mem_append.mp hc with hc | hc
      · exact htext c hc
      · exact List.mem_takeWhile_imp hc

/-- The text of every token is found in its row, from its column on. -/
theorem exists_lineAt_of_mem_tokenize {source : String} {t : Token} (ht : t ∈ tokenize source) :
    ∃ line, Source.lineAt source t.position.row = some line ∧
      (line.toList.drop t.position.col).take t.literal.length = t.literal.toList := by
  obtain ⟨before, behind, hrow, hcol, -⟩ := exists_rowOf_of_mem_tokenize ht
  refine ⟨_, by rw [Source.lineAt, hrow]; rfl, ?_⟩
  rw [hcol, ← String.length_toList]
  simp

/-- The tokens and the blanks between them make up the source. Every token stands where counting
puts it, and its text is found there in its row; the end token stands behind the last row, which is
the last that is there; and places ascend. -/
theorem exists_isCut_tokenize (source : String) :
    ∃ pieces last, IsCut source.toList pieces last ∧
      tokenize source = Piece.tokens [] pieces ++ [⟨.eof, "", .after source.toList⟩] ∧
      (∀ t ∈ tokenize source, ∃ line, Source.lineAt source t.position.row = some line ∧
        (line.toList.drop t.position.col).take t.literal.length = t.literal.toList) ∧
      (∃ line, Source.lineAt source (Position.after source.toList).row = some line ∧
        (Position.after source.toList).col = line.length) ∧
      (∀ row, (Source.lineAt source row).isSome ↔ row ≤ (Position.after source.toList).row) ∧
      (tokenize source).Pairwise (fun t u => t.position < u.position) := by
  obtain ⟨pieces, last, hcut⟩ := exists_isCut source
  refine ⟨pieces, last, hcut, tokenize_eq_of_isCut hcut,
    fun t ht => exists_lineAt_of_mem_tokenize ht, ?_, ?_, pairwise_tokenize source⟩
  · have hrow := Source.rowOf_append source.toList []
    rw [List.append_nil] at hrow
    refine ⟨_, by rw [Source.lineAt, hrow]; rfl, ?_⟩
    simp [Position.after]
  · intro row
    rw [Source.lineAt, Option.isSome_map]
    exact Source.isSome_rowOf row source.toList

end ExprFront
