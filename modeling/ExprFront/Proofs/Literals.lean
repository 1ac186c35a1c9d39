import ExprFront.Proofs.Decimal
import ExprFront.Proofs.Parser.Statements
import ExprFront.Proofs.Precedence.Standard

/-! Numerals as texts of their own. A number token takes digits only, and so a numeral is one token
only if it holds neither the mark of a radix nor an underscore. Any other is cut in front of these:
its digits are read as a number with a value of their own, and the rest as a name, without a
fault. -/

namespace ExprFront

namespace Numeral

variable {sign : Sign} {radix n m : Nat} {c : Char} {cs ds : List Char}

/-! ### The digits of a numeral -/

theorem isDigit_of_digitValue? (hradix : radix ≤ 10) (h : digitValue? radix c = some n) :
    c.isDigit := by
  by_contra hc
  simp only [digitValue?, if_neg hc] at h
  split_ifs at h <;> omega

theorem readDigits_cons_eq_ok_iff : readDigits sign radix n (c :: cs) = .ok m ↔
    ∃ d, digitValue? radix c = some d ∧ n * radix + d ≤ sign.limit ∧
      readDigits sign radix (n * radix + d) cs = .ok m := by
  rw [readDigits]
  cases digitValue? radix c with
  | none => simp
  | some d =>
    dsimp only
    split_ifs with hle <;> simp [hle]

/-- The digits up to the radix ten are the characters that a number token takes. -/
theorem isDigit_of_readDigits (hradix : radix ≤ 10) (h : readDigits sign radix n cs = .ok m) :
    ∀ c ∈ cs, c.isDigit := by
  induction cs generalizing n with
  | nil => simp
  | cons c cs ih =>
    obtain ⟨d, hd, -, h⟩ := readDigits_cons_eq_ok_iff.mp h
    exact List.forall_mem_cons.mpr ⟨isDigit_of_digitValue? hradix hd, ih h⟩

/-- Digits are read from the front, and those behind go on from what the front came to. -/
theorem readDigits_append (sign : Sign) (radix n : Nat) (cs ds : List Char) :
    readDigits sign radix n (cs ++ ds) =
      (readDigits sign radix n cs).bind (readDigits sign radix · ds) := by
  induction cs generalizing n with
  | nil => rfl
  | cons c cs ih =>
    rw [List.cons_append, readDigits, readDigits]
    cases digitValue? radix c with
    | none => rfl
    | some d =>
      dsimp only
      split_ifs
      · exact ih _
      · rfl

theorem readDigits_append_eq_ok_iff : readDigits sign radix n (cs ++ ds) = .ok m ↔
    ∃ k, readDigits sign radix n cs = .ok k ∧ readDigits sign radix k ds = .ok m := by
  rw [readDigits_append]
  cases readDigits sign radix n cs <;> simp [Except.bind]

theorem Spelling.value_eq_ok_iff {s : Spelling} {v : Int64} : s.value = .ok v ↔ s.digits ≠ [] ∧
    ∃ n, readDigits (s.sign?.getD .plus) s.radix 0 s.digits = .ok n ∧
      .ofInt ((s.sign?.getD .plus).apply n) = v := by
  obtain ⟨sign?, radix, digits⟩ := s
  cases digits with
  | nil => cases sign? <;> simp [value]
  | cons c cs =>
    simp only [value]
    cases readDigits (sign?.getD .plus) radix 0 (c :: cs) <;> simp

theorem Spelling.exists_value_iff (s : Spelling) : (∃ v, s.value = .ok v) ↔
    s.digits ≠ [] ∧ ∃ n, readDigits (s.sign?.getD .plus) s.radix 0 s.digits = .ok n := by
  simp [value_eq_ok_iff]

/-! ### The three ways to spell a numeral -/

/-- Where a number token ends inside of a numeral: at the mark of a radix, or at an underscore. -/
def isJoint (c : Char) : Bool := (markedRadix? c).isSome || c == '_'

theorem isWordStart_of_isJoint (hc : isJoint c) : isWordStart c ∧ c ≠ 'f' := by
  simp only [isJoint, Bool.or_eq_true, beq_iff_eq] at hc
  rcases hc with hc | rfl
  · unfold markedRadix? at hc
    split at hc <;> first | decide | cases hc
  · decide

theorem radixBody?_eq_none_or (cs : List Char) : radixBody? cs = none ∨
    (∃ c ds, cs = '0' :: c :: ds ∧ isJoint c) ∨
    ∃ ds, cs = '0' :: ds ∧ radixBody? cs = some (8, ds) := by
  unfold radixBody?
  split
  next c ds =>
    cases hmark : markedRadix? c with
    | some radix => exact .inr (.inl ⟨c, ds, rfl, by simp [isJoint, hmark]⟩)
    | none =>
      dsimp only
      split_ifs
      · exact .inr (.inr ⟨_, rfl, rfl⟩)
      · exact .inl rfl
  next => exact .inl rfl

/-- A word that is no octal numeral and holds no mark of a radix is decimal. -/
theorem spelling_of_radixBody?_eq_none (hcs : ∀ c ∈ cs, isWordChar c)
    (h : radixBody? cs = none) : spelling cs = ⟨none, 10, cs⟩ := by
  simp only [spelling, h]
  split
  next => exact absurd (hcs '+' (List.mem_cons_self ..)) (by decide)
  next => exact absurd (hcs '-' (List.mem_cons_self ..)) (by decide)
  next => rfl

theorem filter_of_underscore_notMem (h : '_' ∉ cs) : cs.filter (· != '_') = cs := by
  refine List.filter_eq_self.mpr fun c hc => bne_iff_ne.mpr ?_
  rintro rfl
  exact h hc

/-- Digits behind a zero are octal. -/
theorem spelling_zero_cons (hcs : ∀ c ∈ cs, c.isDigit) (hne : cs ≠ []) :
    spelling ('0' :: cs) = ⟨none, 8, cs⟩ := by
  have hfilter := filter_of_underscore_notMem fun h => absurd (hcs _ h) (by decide)
  have hbody : cs.all isBodyChar := by
    refine List.all_eq_true.mpr fun c hc => ?_
    simp [isBodyChar, hcs c hc]
  obtain ⟨c, ds, rfl⟩ := List.exists_cons_of_ne_nil hne
  have hmark : markedRadix? c = none := by
    have hstart := isWordStart_eq_false_of_isDigit (hcs c (List.mem_cons_self ..))
    by_contra hc
    have hjoint : isJoint c := by simp [isJoint, Option.isSome_iff_ne_none.mpr hc]
    simp [(isWordStart_of_isJoint hjoint).1] at hstart
  simp only [spelling, radixBody?, hmark, if_pos hbody, hfilter]

theorem exists_read_zero_cons (hcs : ∀ c ∈ cs, c.isDigit)
    (h : ∃ n, readDigits .plus 8 0 cs = .ok n) : ∃ v, read (String.ofList ('0' :: cs)) = .ok v := by
  by_cases hne : cs = []
  · subst hne
    exact ⟨0, by decide⟩
  · rw [read, String.toList_ofList, spelling_zero_cons hcs hne]
    exact (Spelling.exists_value_iff _).mpr ⟨hne, h⟩

/-- The digits of an octal numeral reach to its end, or to an underscore. -/
theorem isDigit_or_exists_underscore (h : readDigits sign 8 n (cs.filter (· != '_')) = .ok m) :
    (∀ c ∈ cs, c.isDigit) ∨ ∃ ds ns, cs = ds ++ '_' :: ns ∧ (∀ d ∈ ds, d.isDigit) ∧
      ∃ k, readDigits sign 8 n ds = .ok k := by
  by_cases hmem : '_' ∈ cs
  · obtain ⟨ds, ns, rfl, hds⟩ := List.eq_append_cons_of_mem hmem
    rw [List.filter_append, filter_of_underscore_notMem hds] at h
    obtain ⟨k, hk, -⟩ := readDigits_append_eq_ok_iff.mp h
    exact .inr ⟨ds, ns, rfl, isDigit_of_readDigits (by decide) hk, k, hk⟩
  · rw [filter_of_underscore_notMem hmem] at h
    exact .inl (isDigit_of_readDigits (by decide) h)

/-- A numeral that is not of digits alone has a joint behind its first digits, and these are a
numeral too. -/
theorem exists_joint {text : String} {v : Int64} (htext : ∀ c ∈ text.toList, isWordChar c)
    (h : read text = .ok v) (hmixed : ¬ ∀ c ∈ text.toList, c.isDigit) :
    ∃ ds c ns value, text.toList = ds ++ c :: ns ∧ ds ≠ [] ∧ (∀ d ∈ ds, d.isDigit) ∧ isJoint c ∧
      read (String.ofList ds) = .ok value := by
  obtain ⟨-, n, hn⟩ := (Spelling.exists_value_iff _).mp ⟨v, h⟩
  rcases radixBody?_eq_none_or text.toList with hnone | ⟨c, ns, hjoint, hc⟩ | ⟨cs, hcs, hoctal⟩
  · rw [spelling_of_radixBody?_eq_none htext hnone] at hn
    exact absurd (isDigit_of_readDigits (Nat.le_refl 10) hn) hmixed
  · have hzero : ∀ d ∈ ['0'], d.isDigit := List.forall_mem_singleton.mpr rfl
    exact ⟨['0'], c, ns, 0, hjoint, by simp, hzero, hc, by decide⟩
  · -- Behind a zero the digits are octal, also when the rest of the numeral is cut off.
    simp only [spelling, hoctal, Option.getD_none] at hn
    rcases isDigit_or_exists_underscore hn with hdigit | ⟨ds, ns, rfl, hds, hk⟩
    · rw [hcs] at hmixed
      exact absurd (List.forall_mem_cons.mpr ⟨by decide, hdigit⟩) hmixed
    · obtain ⟨value, hvalue⟩ := exists_read_zero_cons hds hk
      have hzero : ∀ d ∈ '0' :: ds, d.isDigit := List.forall_mem_cons.mpr ⟨by decide, hds⟩
      exact ⟨'0' :: ds, '_', ns, value, hcs, by simp, hzero, by decide, hvalue⟩

end Numeral

/-! ### Numerals as programs -/

open ExprFront.Parser

/-- A number with a value is a statement of its own, in front of a token that is no operator. -/
theorem readsStatement_number {finish : Position} {n : Nat} {t : Token} {ts : List Token}
    {value : Int64} (hkind : t.kind = .number) (hvalue : Numeral.read t.literal = .ok value)
    (hstop : Rules.standard.infixRule (front finish ts).kind = none) :
    ReadsStatement .standard finish (n + 1) (t :: ts) (.ok (.expression t (.int t value)))
      (t :: ts) := by
  have hoperand : Reads .standard finish (.operand n) (t :: ts) _ _ :=
    .integer (Rules.standard_prefixRule_eq_integer.mpr hkind) hvalue
  have hexpr : Reads .standard finish (.expr (n + 1) .lowest) (t :: ts) _ _ :=
    .expr hoperand (.stop (.inr hstop))
  exact .expression (by simp [hkind]) hexpr

theorem readsStatement_name {finish : Position} {n : Nat} {t : Token} (hkind : t.kind = .ident) :
    ReadsStatement .standard finish (n + 1) [t] (.ok (.expression t (.ident ⟨t, t.literal⟩)))
      [t] := by
  have hoperand : Reads .standard finish (.operand n) [t] _ _ :=
    .name (Rules.standard_prefixRule_eq_name.mpr hkind)
  have hexpr : Reads .standard finish (.expr (n + 1) .lowest) [t] _ _ :=
    .expr hoperand (.stop (.inr rfl))
  exact .expression (by simp [Token.eof]) hexpr

/-- The outcomes of reading the tokens decide what a text is parsed to. -/
theorem parse_eq_of_readsProgram {text : String} {ts : List Token}
    {outs : List (Except Diagnostic Statement)} (hts : (Scanner.ofString text).tokens = ts)
    (h : ReadsProgram .standard (Scanner.ofString text).finish maxDepth ts outs) :
    parse text = (⟨statementsOf outs⟩, faultsOf outs) := by
  obtain ⟨outs', h', hparse⟩ := exists_readsProgram_parse text
  rw [hparse, h'.unique standard_infixRule_eof (hts ▸ h)]

theorem lexes_singleton {kind : TokenKind} {cs : List Char} (h : kind.Spells cs) :
    Lexes cs [(kind, cs)] := by
  have hnil : Lexes [] [] := .nil (by simp)
  simpa using Lexes.word h (by simp [TokenKind.Ends]) hnil

/-- A numeral of digits is a program of one number. -/
theorem exists_parse_number {text : String} {v : Int64} (htext : TokenKind.number.Spells text.toList)
    (hread : Numeral.read text = .ok v) :
    ∃ token, parse text = (⟨[.expression token (.int token v)]⟩, []) ∧ token.literal = text := by
  obtain ⟨t, ht, hword⟩ := List.map_eq_singleton_iff.mp ((lexes_singleton htext).tokens_eq .start)
  obtain ⟨hkind, hliteral⟩ := Token.word_eq_iff.mp hword
  have hprogram : ReadsProgram .standard (Scanner.ofString text).finish maxDepth [t] _ :=
    .cons (by simp) (readsStatement_number hkind (hliteral ▸ hread) rfl) .nil
  exact ⟨t, parse_eq_of_readsProgram ht hprogram, hliteral⟩

/-- A name right behind the digits of a numeral is a statement after it. -/
theorem exists_parse_number_name {number name : String} {value : Int64}
    (hnumber : TokenKind.number.Spells number.toList) (hname : TokenKind.ident.Spells name.toList)
    (hread : Numeral.read number = .ok value) :
    ∃ t u, parse (number ++ name) =
      (⟨[.expression t (.int t value), .expression u (.ident ⟨u, u.literal⟩)]⟩, []) ∧
      t.literal = number ∧ u.literal = name := by
  have hends : TokenKind.number.Ends name.toList := by
    obtain ⟨c, ns, hcs, hc, -⟩ := hname
    rw [hcs, TokenKind.ends_cons, TokenKind.continuedBy]
    by_contra hdigit
    rw [← isWordStart_iff, isWordStart_eq_false_of_isDigit (eq_true_of_ne_false hdigit)] at hc
    cases hc
  have hlexes : Lexes (number ++ name).toList [(.number, number.toList), (.ident, name.toList)] := by
    rw [String.toList_append]
    exact .word hnumber hends (lexes_singleton hname)
  obtain ⟨t, ts, hts, ht, hrest⟩ := List.map_eq_cons_iff.mp (hlexes.tokens_eq .start)
  obtain ⟨u, rfl, hu⟩ := List.map_eq_singleton_iff.mp hrest
  obtain ⟨htkind, htliteral⟩ := Token.word_eq_iff.mp ht
  obtain ⟨hukind, huliteral⟩ := Token.word_eq_iff.mp hu
  have hstop : Rules.standard.infixRule u.kind = none := by
    rw [hukind]
    rfl
  have hprogram : ReadsProgram .standard (Scanner.ofString (number ++ name)).finish maxDepth
      [t, u] _ :=
    .cons (by simp) (readsStatement_number htkind (htliteral ▸ hread) hstop)
      (.cons (by simp) (readsStatement_name hukind) .nil)
  exact ⟨t, u, parse_eq_of_readsProgram hts hprogram, htliteral, huliteral⟩

/-- A numeral that is not of digits alone is parsed to the number that its first digits are and a
name. -/
theorem exists_parse_of_not_isDigit {text : String} {v : Int64}
    (hword : ∀ c ∈ text.toList, isWordChar c) (hread : Numeral.read text = .ok v)
    (hmixed : ¬ ∀ c ∈ text.toList, c.isDigit) :
    ∃ number name value,
      parse text = (⟨[.expression number (.int number value),
        .expression name (.ident ⟨name, name.literal⟩)]⟩, []) ∧
      number.literal ++ name.literal = text ∧ Numeral.read number.literal = .ok value := by
  obtain ⟨ds, c, ns, value, htext, hds, hdigit, hc, hvalue⟩ :=
    Numeral.exists_joint hword hread hmixed
  obtain ⟨hstart, hf⟩ := Numeral.isWordStart_of_isJoint hc
  have hnumber : TokenKind.number.Spells (String.ofList ds).toList := by
    rw [String.toList_ofList]
    exact ⟨hds, hdigit⟩
  have hname : TokenKind.ident.Spells (String.ofList (c :: ns)).toList := by
    rw [String.toList_ofList]
    refine ⟨c, ns, rfl, isWordStart_iff.mp hstart, fun d hd => ?_, ?_⟩
    · exact isWordChar_iff.mp (hword d (by simp [htext, hd]))
    · intro hfn
      exact hf (List.cons.inj hfn).1
  have hcut : String.ofList ds ++ String.ofList (c :: ns) = text := by
    rw [← String.ofList_append, ← htext, String.ofList_toList]
  obtain ⟨t, u, hparse, ht, hu⟩ := exists_parse_number_name hnumber hname hvalue
  rw [hcut] at hparse
  exact ⟨t, u, value, hparse, by rw [ht, hu, hcut], by rw [ht, hvalue]⟩

/-- A word that can be read as a numeral is parsed to a number of that value exactly if it is of
digits alone. Any other is parsed to two statements, without a fault. -/
theorem parse_eq_number_iff {text : String} {v : Int64}
    (hword : ∀ c ∈ text.toList, c.isAlphanum ∨ c = '_') (hread : Numeral.read text = .ok v) :
    ((∃ token, parse text = (⟨[.expression token (.int token v)]⟩, []) ∧ token.literal = text) ↔
      ∀ c ∈ text.toList, c.isDigit) ∧
    ((¬ ∀ c ∈ text.toList, c.isDigit) → ∃ number name value,
      parse text = (⟨[.expression number (.int number value),
        .expression name (.ident ⟨name, name.literal⟩)]⟩, []) ∧
      number.literal ++ name.literal = text ∧ Numeral.read number.literal = .ok value) := by
  have hne : text.toList ≠ [] := by
    intro hnil
    rw [Numeral.read, hnil] at hread
    cases hread
  have hmixed := exists_parse_of_not_isDigit (fun c hc => isWordChar_iff.mpr (hword c hc)) hread
  refine ⟨⟨?_, fun hdigit => exists_parse_number ⟨hne, hdigit⟩ hread⟩, hmixed⟩
  rintro ⟨token, hone, -⟩
  by_contra hdigit
  obtain ⟨number, name, value, htwo, -⟩ := hmixed hdigit
  rw [hone] at htwo
  cases htwo

/-- `010` is one number, and `0x10` is a number and a name. -/
theorem parse_eq_number_iff_sixteen :
    (∃ token, parse "010" = (⟨[.expression token (.int token 8)]⟩, []) ∧ token.literal = "010") ∧
    ∃ number name value,
      parse "0x10" = (⟨[.expression number (.int number value),
        .expression name (.ident ⟨name, name.literal⟩)]⟩, []) ∧
      number.literal ++ name.literal = "0x10" ∧ Numeral.read number.literal = .ok value := by
  have height : Numeral.read "010" = .ok 8 := by decide
  have hsixteen : Numeral.read "0x10" = .ok 16 := by decide
  have hdigit : ∀ c ∈ "010".toList, c.isDigit := List.all_eq_true.mp (by decide)
  have hmixed : ¬ ∀ c ∈ "0x10".toList, c.isDigit := fun h => absurd (h 'x' (by decide)) (by decide)
  exact ⟨(parse_eq_number_iff (by simp) height).1.mpr hdigit,
    (parse_eq_number_iff (by simp) hsixteen).2 hmixed⟩

/-- Not every numeral that starts with a digit is parsed to a number of its value: `0x10` is not. -/
theorem not_forall_parse_eq_number : ¬ ∀ (text : String) (v : Int64),
    (∃ c ∈ text.toList.head?, c.isDigit) → (∀ c ∈ text.toList, c.isAlphanum ∨ c = '_') →
    Numeral.read text = .ok v →
    ∃ token, parse text = (⟨[.expression token (.int token v)]⟩, []) ∧ token.literal = text := by
  intro h
  have hword : ∀ c ∈ "0x10".toList, c.isAlphanum ∨ c = '_' := by simp
  obtain ⟨token, hparse, -⟩ := h "0x10" 16 ⟨'0', rfl, rfl⟩ hword (by decide)
  have hcount : (parse "0x10").1.statements.length = 2 := by decide +kernel
  rw [hparse] at hcount
  cases hcount

end ExprFront
