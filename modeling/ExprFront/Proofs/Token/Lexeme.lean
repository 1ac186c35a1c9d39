import Mathlib.Data.List.Basic
import Mathlib.Data.List.TakeWhile
import ExprFront.Token.Munch

/-! The texts that each kind of token may have, and the characters that may not stand behind them,
both said by the characters themselves. The token at the front of a text is the only cut that respects
both: what it takes is a text of its kind and is not continued, and any text of a kind that is not
continued is what it takes. -/

namespace ExprFront

/-- The characters between tokens: spaces, tabs, line feeds and carriage returns. -/
def blanks : List Char := [' ', '\t', '\n', '\r']

namespace TokenKind

/-- The characters that are tokens by themselves, with their kinds. -/
def singles : List (Char × TokenKind) :=
  [('=', .assign), ('!', .bang), ('+', .plus), ('-', .minus), ('*', .star), ('/', .slash),
    ('%', .percent), ('<', .less), ('>', .greater), ('(', .lParen), (')', .rParen),
    ('\x7b', .lBrace), ('\x7d', .rBrace), (',', .comma)]

/-- The texts of a kind. -/
def Spells : TokenKind → List Char → Prop
  | .ident, cs => ∃ c ds, cs = c :: ds ∧ (c.isAlpha ∨ c = '_') ∧
      (∀ d ∈ ds, d.isAlphanum ∨ d = '_') ∧ cs ≠ ['f', 'n']
  | .function, cs => cs = ['f', 'n']
  | .number, cs => cs ≠ [] ∧ ∀ c ∈ cs, c.isDigit
  | .equal, cs => cs = ['=', '=']
  | .notEqual, cs => cs = ['!', '=']
  | .illegal, cs => ∃ c, cs = [c] ∧ c ∉ blanks ∧ ¬ (c.isAlphanum ∨ c = '_') ∧
      ∀ kind, (c, kind) ∉ singles
  | .eof, _ => False
  | kind, cs => ∃ c, cs = [c] ∧ (c, kind) ∈ singles

/-- The characters that would make a text of the kind longer, or another token. -/
def continuedBy : TokenKind → Char → Bool
  | .ident, c | .function, c => c.isAlphanum || c == '_'
  | .number, c => c.isDigit
  | .assign, c | .bang, c => c == '='
  | _, _ => false

/-- The text behind does not continue the token. -/
def Ends (kind : TokenKind) (rest : List Char) : Prop :=
  ∀ c ∈ rest.head?, kind.continuedBy c = false

theorem ends_cons {kind : TokenKind} {c : Char} {cs : List Char} :
    kind.Ends (c :: cs) ↔ kind.continuedBy c = false := by simp [Ends]

/-- A letter by itself is a name. -/
theorem spells_letter {c : Char} (hc : c.isAlpha) : ident.Spells [c] :=
  ⟨c, [], rfl, .inl hc, by simp, by simp⟩

end TokenKind

/-! ### The classes that the scanner asks for -/

theorem isBlank_iff {c : Char} : isBlank c ↔ c ∈ blanks := by
  simp [isBlank, blanks, or_assoc]

theorem isBlank_eq_false_iff {c : Char} : isBlank c = false ↔ c ∉ blanks := by
  rw [← isBlank_iff, Bool.not_eq_true]

theorem isWordStart_iff {c : Char} : isWordStart c ↔ c.isAlpha ∨ c = '_' := by
  simp [isWordStart]

theorem isWordChar_iff {c : Char} : isWordChar c ↔ c.isAlphanum ∨ c = '_' := by
  simp only [isWordChar, isWordStart, Char.isAlphanum, Bool.or_eq_true, beq_iff_eq]
  tauto

namespace TokenKind

theorem continuedBy_ident (c : Char) : ident.continuedBy c = isWordChar c := by
  rw [Bool.eq_iff_iff, isWordChar_iff]
  simp [continuedBy]

theorem ofChar?_eq_some_iff {c : Char} {kind : TokenKind} :
    ofChar? c = some kind ↔ (c, kind) ∈ singles := by
  constructor
  · intro h
    unfold ofChar? at h
    split at h <;> cases h <;> simp [singles]
  · have hsingles : ∀ p ∈ singles, ofChar? p.1 = some p.2 := by decide
    exact hsingles (c, kind)

theorem ofChar?_eq_none_iff {c : Char} : ofChar? c = none ↔ ∀ kind, (c, kind) ∉ singles := by
  simp only [Option.eq_none_iff_forall_ne_some, ne_eq, ofChar?_eq_some_iff]

/-- A character that is a token by itself starts no word and no number, and only `=` and `!` may
start a longer token. -/
theorem ofChar?_some {c : Char} {kind : TokenKind} (h : ofChar? c = some kind) :
    isBlank c = false ∧ isWordStart c = false ∧ c.isDigit = false ∧
      (c = '!' ↔ kind = .bang) ∧ (c = '=' ↔ kind = .assign) := by
  unfold ofChar? at h
  split at h <;> first | (cases h; decide) | cases h

/-- The kinds that `ofChar?` gives are exactly those with a text of one character. -/
theorem spells_ofChar? {c : Char} {kind : TokenKind} (h : ofChar? c = some kind) :
    kind.Spells [c] := by
  unfold ofChar? at h
  split at h <;> first | (cases h; exact ⟨_, rfl, ofChar?_eq_some_iff.mp rfl⟩) | cases h

end TokenKind

/-! ### Classes of characters by their code points -/

theorem isUpper_iff_toNat {c : Char} : c.isUpper ↔ 65 ≤ c.toNat ∧ c.toNat ≤ 90 := by
  delta Char.isUpper
  simp [UInt32.le_iff_toNat_le]

theorem isLower_iff_toNat {c : Char} : c.isLower ↔ 97 ≤ c.toNat ∧ c.toNat ≤ 122 := by
  delta Char.isLower
  simp [UInt32.le_iff_toNat_le]

theorem isAlpha_iff_toNat {c : Char} :
    c.isAlpha ↔ (65 ≤ c.toNat ∧ c.toNat ≤ 90) ∨ 97 ≤ c.toNat ∧ c.toNat ≤ 122 := by
  rw [← isUpper_iff_toNat, ← isLower_iff_toNat, ← Bool.or_eq_true]
  rfl

/-- No blank belongs to a token's text. -/
theorem notMem_blanks_of_isWordChar {c : Char} (h : isWordChar c) : c ∉ blanks := by
  intro hb
  simp only [blanks, List.mem_cons, List.not_mem_nil, or_false] at hb
  rcases hb with rfl | rfl | rfl | rfl <;> exact absurd h (by decide)

theorem isWordChar_of_isDigit {c : Char} (h : c.isDigit) : isWordChar c := by
  simp [isWordChar, h]

theorem isWordStart_eq_false_of_isDigit {c : Char} (h : c.isDigit) : isWordStart c = false := by
  by_contra hs
  simp only [Bool.not_eq_false, isWordStart, Bool.or_eq_true, beq_iff_eq] at hs
  rcases hs with hs | rfl
  · rw [isAlpha_iff_toNat] at hs
    simp only [Char.isDigit_iff_toNat, Char.reduceToNat] at h
    omega
  · exact absurd h (by decide)

namespace Munch

open TokenKind

/-! ### What a token takes is a text of its kind -/

theorem head?_dropWhile_eq_false (p : Char → Bool) (cs : List Char) :
    ∀ c ∈ (cs.dropWhile p).head?, p c = false := by
  intro c hc
  have h := List.head?_dropWhile_not p cs
  rw [hc] at h
  exact h

theorem keyword?_ofList (cs : List Char) :
    keyword? (String.ofList cs) = if cs = ['f', 'n'] then some .function else none := by
  have hfn : "fn" = String.ofList ['f', 'n'] := rfl
  simp only [keyword?, hfn, String.ofList_inj]

theorem word_spells {c : Char} (cs : List Char) (hc : isWordStart c) :
    (word c cs).kind.Spells (word c cs).taken ∧ (word c cs).kind.Ends (word c cs).rest := by
  have hrest : ident.Ends (cs.dropWhile isWordChar) := fun d hd => by
    rw [continuedBy_ident, head?_dropWhile_eq_false isWordChar cs d hd]
  have hword : ∀ d ∈ cs.takeWhile isWordChar, d.isAlphanum ∨ d = '_' :=
    fun d hd => isWordChar_iff.mp (List.mem_takeWhile_imp hd)
  simp only [word, keyword?_ofList]
  split
  next hfn => exact ⟨hfn, hrest⟩
  next hfn => exact ⟨⟨c, _, rfl, isWordStart_iff.mp hc, hword, hfn⟩, hrest⟩

theorem number_spells {c : Char} (cs : List Char) (hc : c.isDigit) :
    (number c cs).kind.Spells (number c cs).taken ∧ (number c cs).kind.Ends (number c cs).rest := by
  refine ⟨⟨List.cons_ne_nil _ _, ?_⟩, head?_dropWhile_eq_false Char.isDigit cs⟩
  intro d hd
  rcases List.mem_cons.mp hd with rfl | hd
  · exact hc
  · exact List.all_eq_true.mp List.all_takeWhile d hd

/-- A single character is a token if no longer one starts with it. -/
theorem single_spells {c : Char} {cs : List Char} (hb : isBlank c = false)
    (hw : isWordChar c = false) (hlong : c = '!' ∨ c = '=' → ∀ d ∈ cs.head?, d ≠ '=') :
    (single c cs).kind.Spells (single c cs).taken ∧ (single c cs).kind.Ends (single c cs).rest := by
  cases hkind : ofChar? c with
  | none =>
    simp only [single, hkind, Option.getD_none]
    refine ⟨⟨c, rfl, ?_, ?_, ofChar?_eq_none_iff.mp hkind⟩, fun d _ => rfl⟩
    · exact isBlank_eq_false_iff.mp hb
    · rw [← isWordChar_iff, hw]
      exact Bool.false_ne_true
  | some kind =>
    simp only [single, hkind, Option.getD_some]
    refine ⟨spells_ofChar? hkind, fun d hd => ?_⟩
    obtain ⟨-, -, -, hbang, hassign⟩ := ofChar?_some hkind
    cases kind with
    | bang => exact beq_eq_false_iff_ne.mpr (hlong (.inl (hbang.mpr rfl)) d hd)
    | assign => exact beq_eq_false_iff_ne.mpr (hlong (.inr (hassign.mpr rfl)) d hd)
    | ident | function | number => unfold ofChar? at hkind; split at hkind <;> cases hkind
    | _ => rfl

theorem withEqual_spells {kind : TokenKind} {c : Char} {cs : List Char}
    (hkind : kind.Spells [c, '=']) (hends : ∀ rest, kind.Ends rest) (hb : isBlank c = false)
    (hw : isWordChar c = false) :
    (withEqual kind c cs).kind.Spells (withEqual kind c cs).taken ∧
      (withEqual kind c cs).kind.Ends (withEqual kind c cs).rest := by
  unfold withEqual
  split
  next cs => exact ⟨hkind, hends cs⟩
  next hne =>
    refine single_spells hb hw fun _ d hd heq => ?_
    obtain ⟨ds, rfl⟩ := List.head?_eq_some_iff.mp hd
    exact hne ds (by rw [heq])

/-- A token takes a text of its kind, as long as can be. -/
theorem ofCons_spells {c : Char} (cs : List Char) (hb : isBlank c = false) :
    (ofCons c cs).kind.Spells (ofCons c cs).taken ∧ (ofCons c cs).kind.Ends (ofCons c cs).rest := by
  unfold ofCons
  split_ifs with hword hdigit hbang hassign
  · exact word_spells cs hword
  · exact number_spells cs hdigit
  · exact withEqual_spells (by subst hbang; rfl) (fun _ _ _ => rfl) hb (by subst hbang; decide)
  · exact withEqual_spells (by subst hassign; rfl) (fun _ _ _ => rfl) hb (by subst hassign; decide)
  · refine single_spells hb ?_ (fun h => absurd h (by simp [hbang, hassign]))
    simp [isWordChar, hword, hdigit]

/-! ### A text of a kind is what a token takes -/

/-- What is taken off the front of a text does not depend on a text behind that would stop it. -/
theorem takeWhile_append_of_head? {α : Type} {p : α → Bool} {rest : List α}
    (hrest : ∀ c ∈ rest.head?, p c = false) (cs : List α) :
    (cs ++ rest).takeWhile p = cs.takeWhile p := by
  induction cs with
  | nil =>
    cases rest with
    | nil => rfl
    | cons c ds => exact List.takeWhile_cons_of_neg (by simp [hrest c rfl])
  | cons c cs ih => simp only [List.cons_append, List.takeWhile_cons, ih]

theorem dropWhile_append_of_head? {α : Type} {p : α → Bool} {rest : List α}
    (hrest : ∀ c ∈ rest.head?, p c = false) (cs : List α) :
    (cs ++ rest).dropWhile p = cs.dropWhile p ++ rest := by
  induction cs with
  | nil =>
    cases rest with
    | nil => rfl
    | cons c ds => exact List.dropWhile_cons_of_neg (by simp [hrest c rfl])
  | cons c cs ih =>
    simp only [List.cons_append, List.dropWhile_cons, ih]
    split <;> rfl

theorem takeWhile_append_of_stop {α : Type} {p : α → Bool} {ds rest : List α}
    (hds : ∀ d ∈ ds, p d) (hrest : ∀ c ∈ rest.head?, p c = false) :
    (ds ++ rest).takeWhile p = ds := by
  rw [takeWhile_append_of_head? hrest, List.takeWhile_eq_self_iff.mpr hds]

theorem dropWhile_append_of_stop {α : Type} {p : α → Bool} {ds rest : List α}
    (hds : ∀ d ∈ ds, p d) (hrest : ∀ c ∈ rest.head?, p c = false) :
    (ds ++ rest).dropWhile p = rest := by
  rw [dropWhile_append_of_head? hrest, List.dropWhile_eq_nil_iff.mpr hds, List.nil_append]

theorem word_eq {kind : TokenKind} {c : Char} {ds rest : List Char} (hds : ∀ d ∈ ds, isWordChar d)
    (hends : ident.Ends rest)
    (hkind : (if c :: ds = ['f', 'n'] then .function else .ident) = kind) :
    word c (ds ++ rest) = ⟨kind, c :: ds, rest⟩ := by
  have hrest : ∀ d ∈ rest.head?, isWordChar d = false := fun d hd => by
    rw [← continuedBy_ident, hends d hd]
  simp only [word, takeWhile_append_of_stop hds hrest, dropWhile_append_of_stop hds hrest,
    keyword?_ofList, ← hkind]
  split_ifs <;> rfl

theorem single_eq {kind : TokenKind} {c : Char} {rest : List Char} (hkind : ofChar? c = some kind)
    (hends : kind.Ends rest) : ofCons c rest = ⟨kind, [c], rest⟩ := by
  obtain ⟨-, hword, hdigit, hbang, hassign⟩ := ofChar?_some hkind
  have hsingle : single c rest = ⟨kind, [c], rest⟩ := by simp [single, hkind]
  have hlong (k : TokenKind) (hc : kind.continuedBy '=') : withEqual k c rest = single c rest := by
    unfold withEqual
    split
    · exact absurd hc (by simp [ends_cons.mp hends])
    · rfl
  simp only [ofCons, hword, hdigit, Bool.false_eq_true, if_false]
  split_ifs with h1 h2
  · rw [hlong _ (by rw [hbang.mp h1]; rfl), hsingle]
  · rw [hlong _ (by rw [hassign.mp h2]; rfl), hsingle]
  · exact hsingle

/-- A text of a kind that is not continued is what the token at the front takes. -/
theorem ofCons_eq {kind : TokenKind} {c : Char} {ds rest : List Char} (hs : kind.Spells (c :: ds))
    (hends : kind.Ends rest) : ofCons c (ds ++ rest) = ⟨kind, c :: ds, rest⟩ := by
  cases kind with
  | ident =>
    obtain ⟨_, _, heq, hc, hds, hfn⟩ := hs
    cases heq
    rw [ofCons, if_pos (isWordStart_iff.mpr hc)]
    exact word_eq (fun d hd => isWordChar_iff.mpr (hds d hd)) hends (if_neg hfn)
  | function =>
    cases hs
    exact word_eq (List.forall_mem_singleton.mpr rfl) hends rfl
  | number =>
    have hc := hs.2 c (List.mem_cons_self ..)
    have hds : ∀ d ∈ ds, d.isDigit := fun d hd => hs.2 d (List.mem_cons_of_mem _ hd)
    rw [ofCons, if_neg (by simp [isWordStart_eq_false_of_isDigit hc]), if_pos hc, number,
      takeWhile_append_of_stop hds hends, dropWhile_append_of_stop hds hends]
  | equal | notEqual => cases hs; rfl
  | illegal =>
    obtain ⟨_, heq, -, hword, hkind⟩ := hs
    cases heq
    rw [← ofChar?_eq_none_iff] at hkind
    rw [← isWordChar_iff, Bool.not_eq_true] at hword
    simp only [isWordChar, Bool.or_eq_false_iff] at hword
    have hbang : c ≠ '!' := by rintro rfl; cases hkind
    have hassign : c ≠ '=' := by rintro rfl; cases hkind
    simp [ofCons, hword, hbang, hassign, single, hkind]
  | eof => cases hs
  | _ =>
    obtain ⟨_, heq, hkind⟩ := hs
    cases heq
    exact single_eq (ofChar?_eq_some_iff.mpr hkind) hends

end Munch

namespace TokenKind.Spells

variable {kind : TokenKind} {cs : List Char}

theorem ne_nil (h : kind.Spells cs) : cs ≠ [] := by
  rintro rfl
  cases kind <;> simp [Spells] at h

theorem isWordChar_of_ident (h : TokenKind.ident.Spells cs) : ∀ c ∈ cs, isWordChar c := by
  obtain ⟨d, ds, rfl, hd, hds, -⟩ := h
  have hstart : isWordChar d := by simp [isWordChar, isWordStart_iff.mpr hd]
  exact List.forall_mem_cons.mpr ⟨hstart, fun c hc => isWordChar_iff.mpr (hds c hc)⟩

/-- No blank is in a text of a kind. -/
theorem notMem_blanks (h : kind.Spells cs) : ∀ c ∈ cs, c ∉ blanks := by
  cases kind with
  | ident => exact fun c hc => notMem_blanks_of_isWordChar (isWordChar_of_ident h c hc)
  | number =>
    exact fun c hc => notMem_blanks_of_isWordChar (isWordChar_of_isDigit (h.2 c hc))
  | function | equal | notEqual =>
    cases h
    simp [blanks]
  | illegal =>
    obtain ⟨d, rfl, hb, -⟩ := h
    exact List.forall_mem_singleton.mpr hb
  | eof => cases h
  | _ =>
    obtain ⟨d, rfl, hkind⟩ := h
    refine List.forall_mem_singleton.mpr ?_
    exact isBlank_eq_false_iff.mp (ofChar?_some (ofChar?_eq_some_iff.mpr hkind)).1

/-- A text of a kind starts with a character that is no blank. -/
theorem cons (h : kind.Spells cs) : ∃ c ds, cs = c :: ds ∧ c ∉ blanks := by
  obtain ⟨c, ds, rfl⟩ := List.exists_cons_of_ne_nil h.ne_nil
  exact ⟨c, ds, rfl, h.notMem_blanks c (List.mem_cons_self ..)⟩

end TokenKind.Spells

end ExprFront
