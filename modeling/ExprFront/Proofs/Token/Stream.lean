import Mathlib.Data.List.TakeWhile
import ExprFront.Token.Scanner
import ExprFront.Proofs.Token.Lexeme

/-! The whole stream of tokens of a text. Kinds and texts of the tokens are the one way to cut the
text into texts of kinds that are not continued, with blanks between them, and the tokens stand at
ascending places, all of them before the end token. -/

namespace ExprFront

namespace Position

/-- The order of reading: by row, and by column within a row. -/
instance : LT Position := ⟨fun p q => p.row < q.row ∨ p.row = q.row ∧ p.col < q.col⟩

theorem lt_iff {p q : Position} : p < q ↔ p.row < q.row ∨ p.row = q.row ∧ p.col < q.col := Iff.rfl

instance (p q : Position) : Decidable (p < q) := decidable_of_iff _ lt_iff.symm

theorem lt_trans {p q r : Position} (hpq : p < q) (hqr : q < r) : p < r := by
  rw [lt_iff] at *
  omega

theorem lt_past (p : Position) (c : Char) : p < p.past c := by
  rw [lt_iff, past]
  split <;> simp

/-- Places only grow along a text. -/
theorem eq_or_lt_pastAll (p : Position) (cs : List Char) : p = p.pastAll cs ∨ p < p.pastAll cs := by
  induction cs generalizing p with
  | nil => exact .inl rfl
  | cons c cs ih =>
    right
    rcases ih (p.past c) with h | h
    · rw [pastAll_cons, ← h]
      exact lt_past p c
    · exact lt_trans (lt_past p c) h

theorem lt_pastAll_of_eq_or_lt {p q : Position} (h : p = q ∨ p < q) {cs : List Char}
    (hcs : cs ≠ []) : p < q.pastAll cs := by
  obtain ⟨c, ds, rfl⟩ := List.exists_cons_of_ne_nil hcs
  have hq : q < q.pastAll (c :: ds) := by
    rcases eq_or_lt_pastAll (q.past c) ds with hd | hd
    · rw [pastAll_cons, ← hd]
      exact lt_past q c
    · exact lt_trans (lt_past q c) hd
  rcases h with rfl | h
  · exact hq
  · exact lt_trans h hq

theorem lt_of_lt_of_eq_or_lt {p q r : Position} (hpq : p < q) (hqr : q = r ∨ q < r) : p < r := by
  rcases hqr with rfl | hqr
  · exact hpq
  · exact lt_trans hpq hqr

end Position

namespace Scanner

/-- The tokens ahead of a scanner, without the end token. -/
def tokens (s : Scanner) : List Token := s.drain.1

/-- Where the end token ahead of a scanner stands. -/
def finish (s : Scanner) : Position := s.drain.2.position

theorem drainInto_eq (acc : List Token) (s : Scanner) :
    drainInto acc s = (acc.reverse ++ s.tokens, (drain s).2) := by
  induction hlen : s.rest.length using Nat.strongRecOn generalizing acc s with
  | ind len ih =>
    rw [tokens, drain, drainInto, drainInto]
    split
    next => simp
    next t s' hstep =>
      have hlt : s'.rest.length < len := hlen ▸ length_rest_lt hstep
      rw [ih _ hlt (t :: acc) s' rfl, ih _ hlt [t] s' rfl]
      simp

theorem tokens_of_none {s : Scanner} (h : s.step? = none) : s.tokens = [] := by
  rw [tokens, drain, drainInto]
  split
  next => rfl
  next hstep => rw [h] at hstep; cases hstep

theorem finish_of_none {s : Scanner} (h : s.step? = none) : s.finish = s.skipBlanks.position := by
  rw [finish, drain, drainInto]
  split
  next => rfl
  next hstep => rw [h] at hstep; cases hstep

theorem drain_of_some {s s' : Scanner} {t : Token} (h : s.step? = some (t, s')) :
    s.drain = (t :: s'.tokens, s'.drain.2) := by
  rw [drain, drainInto]
  split
  next hstep => rw [h] at hstep; cases hstep
  next hstep =>
    rw [h] at hstep
    cases hstep
    rw [drainInto_eq]
    rfl

theorem tokens_of_some {s s' : Scanner} {t : Token} (h : s.step? = some (t, s')) :
    s.tokens = t :: s'.tokens := congrArg Prod.fst (drain_of_some h)

theorem finish_of_some {s s' : Scanner} {t : Token} (h : s.step? = some (t, s')) :
    s.finish = s'.finish := congrArg (·.2.position) (drain_of_some h)

/-- Induction along the tokens ahead of a scanner. -/
theorem stream_induction {motive : Scanner → Prop} (stop : ∀ s, s.step? = none → motive s)
    (step : ∀ s t s', s.step? = some (t, s') → motive s' → motive s) (s : Scanner) : motive s := by
  induction hlen : s.rest.length using Nat.strongRecOn generalizing s with
  | ind len ih =>
    cases hstep : s.step? with
    | none => exact stop s hstep
    | some r => exact step s r.1 r.2 hstep (ih _ (hlen ▸ length_rest_lt hstep) r.2 rfl)

/-- What one token of the stream is: behind blanks, a text of its kind that is not continued. -/
theorem step?_some {s s' : Scanner} {t : Token} (h : s.step? = some (t, s')) :
    ∃ gap, (∀ c ∈ gap, c ∈ blanks) ∧ s.rest = gap ++ (t.literal.toList ++ s'.rest) ∧
      t.kind.Spells t.literal.toList ∧ t.kind.Ends s'.rest ∧
      t.position = s.position.pastAll gap ∧
      s'.position = t.position.pastAll t.literal.toList := by
  unfold step? at h
  split at h
  next => cases h
  next c cs hcs =>
    cases h
    have hdrop : s.rest.dropWhile isBlank = c :: cs := hcs
    have hblank : isBlank c = false :=
      Munch.head?_dropWhile_eq_false isBlank s.rest c (by simp [hdrop])
    obtain ⟨hspells, hends⟩ := Munch.ofCons_spells cs hblank
    have hrest : s.rest = s.rest.takeWhile isBlank ++
        ((Munch.ofCons c cs).taken ++ (Munch.ofCons c cs).rest) := by
      rw [Munch.taken_append_rest, ← hdrop, List.takeWhile_append_dropWhile]
    dsimp only
    rw [String.toList_ofList]
    have hgap : ∀ d ∈ s.rest.takeWhile isBlank, d ∈ blanks :=
      fun d hd => isBlank_iff.mp (List.mem_takeWhile_imp hd)
    exact ⟨_, hgap, hrest, hspells, hends, rfl, rfl⟩

theorem step?_none {s : Scanner} (h : s.step? = none) : s.rest.dropWhile isBlank = [] := by
  unfold step? at h
  split at h
  · assumption
  · cases h

/-! ### Places -/

/-- A token is passed with the characters that were taken for it. -/
theorem pastAll_rest_of_some {s s' : Scanner} {t : Token} (h : s.step? = some (t, s')) :
    s'.position.pastAll s'.rest = s.position.pastAll s.rest := by
  obtain ⟨gap, -, hrest, -, -, ht, hs'⟩ := step?_some h
  rw [hs', ht, hrest, Position.pastAll_append, Position.pastAll_append]

/-- The end token stands behind all characters. -/
theorem finish_eq (s : Scanner) : s.finish = s.position.pastAll s.rest := by
  induction s using stream_induction with
  | stop s h =>
    have hblank := List.dropWhile_eq_nil_iff.mp (step?_none h)
    rw [finish_of_none h, skipBlanks, List.takeWhile_eq_self_iff.mpr hblank]
  | step s t s' h ih => rw [finish_of_some h, ih, pastAll_rest_of_some h]

/-- Every token ahead stands at or behind the scanner, and before the end token. -/
theorem position_of_mem_tokens (s : Scanner) :
    (∀ t ∈ s.tokens, (s.position = t.position ∨ s.position < t.position) ∧
      t.position < s.finish) ∧ (s.position = s.finish ∨ s.position < s.finish) := by
  induction s using stream_induction with
  | stop s h =>
    rw [tokens_of_none h, finish_of_none h]
    exact ⟨by simp, Position.eq_or_lt_pastAll _ _⟩
  | step s t s' h ih =>
    obtain ⟨gap, -, -, hspells, -, ht, hs'⟩ := step?_some h
    have hblank : s.position = t.position ∨ s.position < t.position := by
      rw [ht]
      exact Position.eq_or_lt_pastAll _ _
    have hpast := Position.lt_pastAll_of_eq_or_lt (.inl rfl) hspells.ne_nil (q := t.position)
    have hover := Position.lt_pastAll_of_eq_or_lt hblank hspells.ne_nil
    rw [← hs'] at hpast hover
    rw [tokens_of_some h, finish_of_some h]
    refine ⟨?_, .inr (Position.lt_of_lt_of_eq_or_lt hover ih.2)⟩
    intro u hu
    rcases List.mem_cons.mp hu with rfl | hu
    · exact ⟨hblank, Position.lt_of_lt_of_eq_or_lt hpast ih.2⟩
    · obtain ⟨hle, hlt⟩ := ih.1 u hu
      exact ⟨.inr (Position.lt_of_lt_of_eq_or_lt hover hle), hlt⟩

/-- The tokens ahead stand in ascending order. -/
theorem pairwise_tokens (s : Scanner) :
    s.tokens.Pairwise (fun t u => t.position < u.position) := by
  induction s using stream_induction with
  | stop s h => rw [tokens_of_none h]; exact .nil
  | step s t s' h ih =>
    rw [tokens_of_some h]
    refine .cons (fun u hu => ?_) ih
    obtain ⟨gap, -, -, hspells, -, -, hs'⟩ := step?_some h
    have hpast : t.position < s'.position := by
      rw [hs']
      exact Position.lt_pastAll_of_eq_or_lt (.inl rfl) hspells.ne_nil
    exact Position.lt_of_lt_of_eq_or_lt hpast ((position_of_mem_tokens s').1 u hu).1

end Scanner

/-! ### Texts cut into tokens -/

/-- Kind and text of a token, without its place. -/
def Token.word (t : Token) : TokenKind × List Char := (t.kind, t.literal.toList)

theorem Token.word_eq_iff {t : Token} {kind : TokenKind} {text : String} :
    t.word = (kind, text.toList) ↔ t.kind = kind ∧ t.literal = text := by
  simp [Token.word, String.toList_inj]

/-- `Lexes cs ws`: the text is cut into the words, with blanks around them, and no word is
continued by what stands behind it. -/
inductive Lexes : List Char → List (TokenKind × List Char) → Prop where
  | nil {gap : List Char} (hgap : ∀ c ∈ gap, c ∈ blanks) : Lexes gap []
  | cons {gap word rest : List Char} {kind : TokenKind} {words : List (TokenKind × List Char)}
      (hgap : ∀ c ∈ gap, c ∈ blanks) (hword : kind.Spells word) (hends : kind.Ends rest) :
      Lexes rest words → Lexes (gap ++ (word ++ rest)) ((kind, word) :: words)

/-- Blanks in front change nothing. -/
theorem Lexes.blank {c : Char} {cs : List Char} {words : List (TokenKind × List Char)}
    (hc : c ∈ blanks) (h : Lexes cs words) : Lexes (c :: cs) words := by
  cases h with
  | nil hgap => exact .nil (List.forall_mem_cons.mpr ⟨hc, hgap⟩)
  | @cons gap _ _ _ _ hgap hword hends h =>
    rw [← List.cons_append]
    exact .cons (List.forall_mem_cons.mpr ⟨hc, hgap⟩) hword hends h

/-- A word in front, not continued by what stands behind it. -/
theorem Lexes.word {cs rest : List Char} {kind : TokenKind} {words : List (TokenKind × List Char)}
    (hword : kind.Spells cs) (hends : kind.Ends rest) (h : Lexes rest words) :
    Lexes (cs ++ rest) ((kind, cs) :: words) := by
  have hgap : ∀ c ∈ ([] : List Char), c ∈ blanks := by simp
  exact .cons hgap hword hends h

namespace Scanner

/-- The tokens of a scanner cut the text ahead of it. -/
theorem lexes_tokens (s : Scanner) : Lexes s.rest (s.tokens.map Token.word) := by
  induction s using stream_induction with
  | stop s h =>
    rw [tokens_of_none h]
    refine .nil fun c hc => ?_
    have hall := List.dropWhile_eq_nil_iff.mp (step?_none h)
    exact isBlank_iff.mp (hall c hc)
  | step s t s' h ih =>
    rw [tokens_of_some h]
    obtain ⟨gap, hgap, hrest, hspells, hends, -⟩ := step?_some h
    rw [hrest, List.map_cons]
    exact .cons hgap hspells hends ih

/-- There is no token in blanks. -/
theorem step?_of_blanks {gap : List Char} (hgap : ∀ c ∈ gap, c ∈ blanks) (p : Position) :
    (⟨gap, p⟩ : Scanner).step? = none := by
  have hskip : gap.dropWhile isBlank = [] :=
    List.dropWhile_eq_nil_iff.mpr fun c hc => isBlank_iff.mpr (hgap c hc)
  simp [step?, skipBlanks, hskip]

/-- A word behind blanks, not continued by what stands behind it, is the next token. -/
theorem step?_of_spells {gap word rest : List Char} {kind : TokenKind}
    (hgap : ∀ c ∈ gap, c ∈ blanks) (hword : kind.Spells word) (hends : kind.Ends rest)
    (p : Position) :
    (⟨gap ++ (word ++ rest), p⟩ : Scanner).step? =
      some (⟨kind, String.ofList word, p.pastAll gap⟩,
        ⟨rest, (p.pastAll gap).pastAll word⟩) := by
  obtain ⟨c, ds, rfl, hblank⟩ := hword.cons
  have hskip : ∀ d ∈ gap, isBlank d := fun d hd => isBlank_iff.mpr (hgap d hd)
  have hstop : ∀ d ∈ (c :: ds ++ rest).head?, isBlank d = false := by
    rintro d ⟨⟩
    exact isBlank_eq_false_iff.mpr hblank
  have hdrop : (gap ++ (c :: ds ++ rest)).dropWhile isBlank = c :: (ds ++ rest) :=
    Munch.dropWhile_append_of_stop hskip hstop
  have htake : (gap ++ (c :: ds ++ rest)).takeWhile isBlank = gap :=
    Munch.takeWhile_append_of_stop hskip hstop
  have hmunch := Munch.ofCons_eq hword hends
  simp only [step?, skipBlanks, hdrop, htake, hmunch]

end Scanner

/-- There is only one way to cut a text. -/
theorem Lexes.tokens_eq {cs : List Char} {words : List (TokenKind × List Char)}
    (h : Lexes cs words) (p : Position) : (⟨cs, p⟩ : Scanner).tokens.map Token.word = words := by
  induction h generalizing p with
  | nil hgap => rw [Scanner.tokens_of_none (Scanner.step?_of_blanks hgap p), List.map_nil]
  | cons hgap hword hends _ ih =>
    rw [Scanner.tokens_of_some (Scanner.step?_of_spells hgap hword hends p), List.map_cons, ih]
    simp [Token.word]

theorem Lexes.spells {cs : List Char} {words : List (TokenKind × List Char)}
    {word : TokenKind × List Char} (h : Lexes cs words) (hmem : word ∈ words) :
    word.1.Spells word.2 := by
  induction h with
  | nil => cases hmem
  | cons _ hword _ _ ih =>
    rcases List.mem_cons.mp hmem with rfl | hmem
    · exact hword
    · exact ih hmem

/-- Every token has a text of its kind; in particular none is an end token. -/
theorem Scanner.spells_of_mem_tokens {s : Scanner} {t : Token} (h : t ∈ s.tokens) :
    t.kind.Spells t.literal.toList :=
  s.lexes_tokens.spells (List.mem_map_of_mem h)

theorem Scanner.kind_ne_eof_of_mem_tokens {s : Scanner} {t : Token} (h : t ∈ s.tokens) :
    t.kind ≠ .eof := by
  intro heof
  have hspells := spells_of_mem_tokens h
  rw [heof] at hspells
  exact hspells

/-- A token list is the stream of its text and the end token. -/
theorem tokenize_eq (source : String) :
    tokenize source =
      (Scanner.ofString source).tokens ++ [.eof (Scanner.ofString source).finish] := rfl

/-- The tokens of a text, the end token included, stand in ascending order. -/
theorem pairwise_tokenize (source : String) :
    (tokenize source).Pairwise (fun t u => t.position < u.position) := by
  rw [tokenize_eq, List.pairwise_append]
  refine ⟨Scanner.pairwise_tokens _, List.pairwise_singleton _ _, fun t ht u hu => ?_⟩
  rw [List.mem_singleton.mp hu]
  exact ((Scanner.position_of_mem_tokens _).1 t ht).2

theorem nodup_tokenize (source : String) : (tokenize source).Nodup := by
  refine (pairwise_tokenize source).imp ?_
  rintro t u hlt rfl
  rw [Position.lt_iff] at hlt
  omega

end ExprFront
