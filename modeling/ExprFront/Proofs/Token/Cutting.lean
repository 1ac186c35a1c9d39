import Mathlib.Data.List.Chain
import ExprFront.Proofs.Token.Stream

/-! Texts cut into pieces, a piece being a word and the blanks before it. What makes a cut is said
of a word and its neighbour: the word is a text of its kind, and where no blank stands before the
next word, that word does not continue it. Every text has a cut, and all of its cuts have the same
words, which are the tokens of the text. -/

namespace ExprFront

/-- A word of a text, and the blanks before it. -/
structure Piece where
  gap : List Char
  kind : TokenKind
  text : List Char

namespace Piece

def word (p : Piece) : TokenKind × List Char := (p.kind, p.text)

def chars (p : Piece) : List Char := p.gap ++ p.text

/-- The next piece does not continue this one, if no blank stands between them. -/
def Apart (p q : Piece) : Prop := q.gap = [] → ∀ c ∈ q.text.head?, p.kind.continuedBy c = false

end Piece

/-- `IsCut cs pieces last`: the text is made up of the pieces, and of blanks at the end. Every word
is a text of its kind, and none is continued by the next. -/
structure IsCut (cs : List Char) (pieces : List Piece) (last : List Char) : Prop where
  chars_eq : cs = pieces.flatMap Piece.chars ++ last
  gap_blank : ∀ piece ∈ pieces, ∀ c ∈ piece.gap, c ∈ blanks
  last_blank : ∀ c ∈ last, c ∈ blanks
  spells : ∀ piece ∈ pieces, piece.kind.Spells piece.text
  apart : pieces.IsChain Piece.Apart

/-- The text behind some of the pieces is cut into the others. -/
theorem IsCut.of_append {cs last : List Char} {ps qs : List Piece} (h : IsCut cs (ps ++ qs) last) :
    IsCut (qs.flatMap Piece.chars ++ last) qs last where
  chars_eq := rfl
  gap_blank := fun q hq => h.gap_blank q (List.mem_append_right ps hq)
  last_blank := h.last_blank
  spells := fun q hq => h.spells q (List.mem_append_right ps hq)
  apart := h.apart.right_of_append

theorem IsCut.tail {cs last : List Char} {p : Piece} {ps : List Piece}
    (h : IsCut cs (p :: ps) last) : IsCut (ps.flatMap Piece.chars ++ last) ps last :=
  @IsCut.of_append cs last [p] ps h

/-- A blank is part of no token. -/
theorem TokenKind.continuedBy_of_mem_blanks (kind : TokenKind) {c : Char} (h : c ∈ blanks) :
    kind.continuedBy c = false := by
  simp only [blanks, List.mem_cons, List.not_mem_nil, or_false] at h
  rcases h with rfl | rfl | rfl | rfl <;> cases kind <;> decide

theorem TokenKind.ends_of_blanks (kind : TokenKind) {cs : List Char} (h : ∀ c ∈ cs, c ∈ blanks) :
    kind.Ends cs := fun c hc => kind.continuedBy_of_mem_blanks (h c (List.mem_of_mem_head? hc))

namespace Piece

/-- Not to be continued by the next piece is not to be continued by the text that starts with it. -/
theorem apart_iff_ends {p q : Piece} (hgap : ∀ c ∈ q.gap, c ∈ blanks) (hne : q.text ≠ [])
    (rest : List Char) : p.Apart q ↔ p.kind.Ends (q.chars ++ rest) := by
  unfold Apart TokenKind.Ends chars
  cases hq : q.gap with
  | nil => simp [List.head?_append_of_ne_nil _ hne]
  | cons c cs =>
    have hc : c ∈ blanks := hgap c (by simp [hq])
    simp [p.kind.continuedBy_of_mem_blanks hc]

/-- The same for all the text behind a piece. -/
theorem apart_head?_iff_ends (p : Piece) {pieces : List Piece} {last : List Char}
    (hgap : ∀ q ∈ pieces, ∀ c ∈ q.gap, c ∈ blanks) (hlast : ∀ c ∈ last, c ∈ blanks)
    (hspells : ∀ q ∈ pieces, q.kind.Spells q.text) :
    (∀ q ∈ pieces.head?, p.Apart q) ↔ p.kind.Ends (pieces.flatMap chars ++ last) := by
  cases pieces with
  | nil => simpa using p.kind.ends_of_blanks hlast
  | cons q qs =>
    have hne : q.text ≠ [] := (hspells q (by simp)).ne_nil
    have hends := apart_iff_ends (p := p) (hgap q (by simp)) hne (qs.flatMap chars ++ last)
    simpa using hends

end Piece

/-! ### Cuts and the lexing relation -/

theorem IsCut.lexes {cs last : List Char} {pieces : List Piece} (h : IsCut cs pieces last) :
    Lexes cs (pieces.map Piece.word) := by
  obtain ⟨rfl, hgap, hlast, hspells, hapart⟩ := h
  induction pieces with
  | nil => exact .nil hlast
  | cons p ps ih =>
    rw [List.forall_mem_cons] at hgap hspells
    rw [List.isChain_cons] at hapart
    have hends := (p.apart_head?_iff_ends hgap.2 hlast hspells.2).mp hapart.1
    have hrest := ih hgap.2 hspells.2 hapart.2
    rw [List.flatMap_cons, List.append_assoc, Piece.chars, List.append_assoc]
    exact .cons hgap.1 hspells.1 hends hrest

theorem Lexes.exists_isCut {cs : List Char} {words : List (TokenKind × List Char)}
    (h : Lexes cs words) : ∃ pieces last, IsCut cs pieces last ∧ pieces.map Piece.word = words := by
  induction h with
  | @nil gap hgap => exact ⟨[], gap, ⟨rfl, by simp, hgap, by simp, .nil⟩, rfl⟩
  | @cons gap word rest kind words hgap hword hends _ ih =>
    obtain ⟨pieces, last, ⟨rfl, hgaps, hlast, hspells, hapart⟩, rfl⟩ := ih
    let p : Piece := ⟨gap, kind, word⟩
    have hhead := (p.apart_head?_iff_ends hgaps hlast hspells).mpr hends
    refine ⟨p :: pieces, last, ⟨?_, ?_, hlast, ?_, ?_⟩, rfl⟩
    · simp [p, Piece.chars]
    · exact List.forall_mem_cons.mpr ⟨hgap, hgaps⟩
    · exact List.forall_mem_cons.mpr ⟨hword, hspells⟩
    · exact List.isChain_cons.mpr ⟨hhead, hapart⟩

/-- The tokens of a text are the words of its cuts: there is a cut with these words, and no cut has
others. -/
theorem exists_isCut_iff_words (source : String) (words : List (TokenKind × List Char)) :
    (∃ pieces last, IsCut source.toList pieces last ∧ pieces.map Piece.word = words) ↔
      words = (tokenize source).dropLast.map Token.word := by
  rw [tokenize_eq, List.dropLast_concat]
  constructor
  · rintro ⟨pieces, last, hcut, rfl⟩
    exact (hcut.lexes.tokens_eq .start).symm
  · rintro rfl
    exact (Scanner.ofString source).lexes_tokens.exists_isCut

example : (tokenize "!==12ab fn").dropLast.map Token.word =
    [(.notEqual, ['!', '=']), (.assign, ['=']), (.number, ['1', '2']), (.ident, ['a', 'b']),
      (.function, ['f', 'n'])] := by
  decide +kernel

end ExprFront
