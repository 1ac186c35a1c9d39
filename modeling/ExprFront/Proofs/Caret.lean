import ExprFront.Diagnostic.Caret
import ExprFront.Proofs.Parser.Blame
import ExprFront.Proofs.Token.Layout

/-! Reports, and the character that they point at. The column of a token is counted by the scanner,
the row is cut out of the source, its indent is taken off, and two lines are padded apart from each
other: in the end the caret stands under the first character of the token to blame. Only white space
at the end of a row is not shown, and so there is nothing above the caret if the token itself is a
part of it. -/

namespace ExprFront

/-! ### White space -/

namespace Text

/-- The characters of the Unicode property White_Space, by their code points. -/
def WhiteSpace (c : Char) : Prop :=
  ∃ range ∈ [(0x9, 0xd), (0x20, 0x20), (0x85, 0x85), (0xa0, 0xa0), (0x1680, 0x1680),
      (0x2000, 0x200a), (0x2028, 0x2029), (0x202f, 0x202f), (0x205f, 0x205f), (0x3000, 0x3000)],
    range.1 ≤ c.toNat ∧ c.toNat ≤ range.2

instance (c : Char) : Decidable (WhiteSpace c) := inferInstanceAs (Decidable (∃ _ ∈ _, _))

/-- A table whose ranges ascend holds the characters of its ranges. -/
theorem RangeTable.contains_iff {table : RangeTable} {c : Char}
    (h : table.Pairwise fun range range' => range.2 < range'.1) :
    table.contains c ↔ ∃ range ∈ table, range.1 ≤ c.toNat ∧ c.toNat ≤ range.2 := by
  induction table with
  | nil => simp [contains]
  | cons range table ih =>
    obtain ⟨hlater, htable⟩ := List.pairwise_cons.mp h
    rw [contains, List.exists_mem_cons_iff]
    split_ifs with hhi
    · -- the ranges behind this one start above it
      have hnone : ¬ ∃ range' ∈ table, range'.1 ≤ c.toNat ∧ c.toNat ≤ range'.2 := by
        rintro ⟨range', hmem, hle, -⟩
        have hlt := hlater range' hmem
        omega
      simp [hhi, hnone]
    · simp [hhi, ih htable]

theorem isWhiteSpace_iff {c : Char} : isWhiteSpace c ↔ WhiteSpace c :=
  @RangeTable.contains_iff whiteSpaceTable c (by decide)

/-- No visible character of ASCII is white space. -/
theorem not_whiteSpace_of_toNat {c : Char} (hlo : 0x20 < c.toNat) (hhi : c.toNat < 0x85) :
    ¬ WhiteSpace c := by
  rintro ⟨range, hmem, hle⟩
  have hrange : range.2 ≤ 0x20 ∨ 0x85 ≤ range.1 := by
    clear hle
    revert range
    decide
  omega

theorem not_whiteSpace_of_isWordChar {c : Char} (hc : isWordChar c) : ¬ WhiteSpace c := by
  simp only [isWordChar, isWordStart, Bool.or_eq_true, beq_iff_eq] at hc
  rcases hc with (hc | rfl) | hc
  · rw [isAlpha_iff_toNat] at hc
    apply not_whiteSpace_of_toNat <;> omega
  · decide
  · simp only [Char.isDigit_iff_toNat, Char.reduceToNat] at hc
    apply not_whiteSpace_of_toNat <;> omega

theorem trimEnd_append_of_forall {cs ds : List Char} (h : ∀ c ∈ ds, isWhiteSpace c) :
    trimEnd (cs ++ ds) = trimEnd cs := by
  rw [trimEnd, List.reverse_append, List.dropWhile_append_of_pos (by simpa using h), trimEnd]

theorem trimEnd_append {cs ds : List Char} (h : ¬ ∀ c ∈ ds, isWhiteSpace c) :
    trimEnd (cs ++ ds) = cs ++ trimEnd ds := by
  have hne : (ds.reverse.dropWhile isWhiteSpace).isEmpty = false := by
    simpa using h
  rw [trimEnd, List.reverse_append, List.dropWhile_append, hne]
  simp [trimEnd]

theorem trimEnd_prefix (cs : List Char) : trimEnd cs <+: cs := List.rdropWhile_prefix _ _

theorem head?_trimEnd {cs : List Char} (h : ¬ ∀ c ∈ cs, isWhiteSpace c) :
    (trimEnd cs).head? = cs.head? := by
  have hne : trimEnd cs ≠ [] := fun hnil => h (List.rdropWhile_eq_nil_iff.mp hnil)
  obtain ⟨ds, hds⟩ := trimEnd_prefix cs
  nth_rewrite 2 [← hds]
  rw [List.head?_append_of_ne_nil _ hne]

end Text

/-- No white space is in a text of a kind, unless the text has no meaning. -/
theorem TokenKind.Spells.not_whiteSpace {kind : TokenKind} {cs : List Char}
    (h : kind.Spells cs) (hkind : kind ≠ .illegal) : ∀ c ∈ cs, ¬ Text.WhiteSpace c := by
  have hsingles : ∀ p ∈ singles, 0x20 < p.1.toNat ∧ p.1.toNat < 0x85 := by decide
  cases kind with
  | ident => exact fun c hc => Text.not_whiteSpace_of_isWordChar (isWordChar_of_ident h c hc)
  | number =>
    exact fun c hc => Text.not_whiteSpace_of_isWordChar (isWordChar_of_isDigit (h.2 c hc))
  | function | equal | notEqual =>
    cases h
    exact List.forall_mem_cons.mpr ⟨by decide, List.forall_mem_singleton.mpr (by decide)⟩
  | illegal => exact absurd rfl hkind
  | eof => cases h
  | _ =>
    obtain ⟨d, rfl, hd⟩ := h
    obtain ⟨hlo, hhi⟩ := hsingles _ hd
    exact List.forall_mem_singleton.mpr (Text.not_whiteSpace_of_toNat hlo hhi)

/-! ### Lines as they are shown -/

namespace Caret

/-- `IsTrim line indent text trail`: the line is its indent of spaces and tabs, its text, and white
space behind the text. -/
structure IsTrim (line indent text trail : List Char) : Prop where
  line_eq : line = indent ++ (text ++ trail)
  indent_eq : ∀ c ∈ indent, c = ' ' ∨ c = '\t'
  head_ne : ∀ c ∈ (text ++ trail).head?, ¬ (c = ' ' ∨ c = '\t')
  last_eq : ∀ c ∈ text.getLast?, ¬ Text.WhiteSpace c
  trail_eq : ∀ c ∈ trail, Text.WhiteSpace c

theorem isIndent_iff {c : Char} : isIndent c ↔ c = ' ' ∨ c = '\t' := by simp [isIndent]

theorem isTrim_shown (line : List Char) : IsTrim line (line.takeWhile isIndent) (shown line)
    ((line.dropWhile isIndent).rtakeWhile Text.isWhiteSpace) := by
  have hbehind : shown line ++ (line.dropWhile isIndent).rtakeWhile Text.isWhiteSpace =
      line.dropWhile isIndent := List.rdropWhile_append_rtakeWhile
  constructor
  · rw [hbehind, List.takeWhile_append_dropWhile]
  · exact fun c hc => isIndent_iff.mp (List.mem_takeWhile_imp hc)
  · rw [hbehind]
    intro c hc
    simp [← isIndent_iff, Munch.head?_dropWhile_eq_false isIndent line c hc]
  · intro c hc
    obtain ⟨hne, rfl⟩ := List.mem_getLast?_eq_getLast hc
    rw [← Text.isWhiteSpace_iff]
    exact List.rdropWhile_last_not _ _ hne
  · exact fun c hc => Text.isWhiteSpace_iff.mp (List.mem_rtakeWhile_imp hc)

variable {rest : List Char}

theorem isIndent_eq_false_of_head? (hrest : ∀ c ∈ rest.head?, c ∉ blanks) :
    ∀ c ∈ rest.head?, isIndent c = false := by
  intro c hc
  have hblank := hrest c hc
  simp only [blanks, List.mem_cons, not_or] at hblank
  simp [isIndent, hblank]

/-- What is shown at a character that is no blank, counted behind the indent: the character, unless
nothing but white space follows. -/
theorem getElem?_shown (before : List Char) (hrest : ∀ c ∈ rest.head?, isIndent c = false) :
    (shown (before ++ rest))[(before.dropWhile isIndent).length]? =
      if rest.all Text.isWhiteSpace then none else rest.head? := by
  rw [shown, Munch.dropWhile_append_of_head? hrest]
  split_ifs with hwhite
  · rw [Text.trimEnd_append_of_forall (List.all_eq_true.mp hwhite)]
    exact List.getElem?_eq_none (Text.trimEnd_prefix _).length_le
  · rw [List.all_eq_true] at hwhite
    rw [Text.trimEnd_append hwhite, List.getElem?_append_right (Nat.le_refl _), Nat.sub_self,
      ← List.head?_eq_getElem?, Text.head?_trimEnd hwhite]

/-- The column of such a character, counted behind the indent. -/
theorem length_indent_add (before : List Char) (hrest : ∀ c ∈ rest.head?, isIndent c = false) :
    ((before ++ rest).takeWhile isIndent).length + (before.dropWhile isIndent).length =
      before.length := by
  rw [Munch.takeWhile_append_of_head? hrest, ← List.length_append,
    List.takeWhile_append_dropWhile]

end Caret

/-! ### The lines of a report -/

namespace Diagnostic

theorem notMem_toString {c : Char} (hc : c.isDigit = false) (n : Nat) :
    c ∉ (toString n).toList := by
  intro hmem
  rw [Nat.toString_eq_repr, Nat.toList_repr] at hmem
  simp [Nat.isDigit_of_mem_toDigits (by decide) (by decide) hmem] at hc

theorem toList_margin_append (row : Nat) (cs : List Char) :
    (margin row ++ " " ++ String.ofList cs).toList =
      List.replicate ((toString row).length + 1) ' ' ++ ['|', ' '] ++ cs := by
  simp [margin, Caret.padLeft]

theorem getElem?_concat_eq_some_iff {c : Char} {cs : List Char} (hc : c ∉ cs) (i : Nat) :
    (cs ++ [c])[i]? = some c ↔ i = cs.length := by
  constructor
  · intro hi
    by_contra hne
    rcases Nat.lt_or_gt_of_ne hne with hlt | hgt
    · rw [List.getElem?_append_left hlt] at hi
      exact hc (List.mem_of_getElem? hi)
    · rw [List.getElem?_eq_none (by simp; omega)] at hi
      cases hi
  · rintro rfl
    simp

/-- The only caret of the last line stands behind the margin, a blank and the dashes. -/
theorem getElem?_caret (row dashes i : Nat) :
    (margin row ++ " " ++ String.ofList (Caret.padLeft '-' (dashes + 1) '^')).toList[i]? =
      some '^' ↔ i = (toString row).length + 3 + dashes := by
  rw [toList_margin_append, Caret.padLeft, ← List.append_assoc,
    getElem?_concat_eq_some_iff (by simp)]
  simp only [List.length_append, List.length_replicate, List.length_cons, List.length_nil]
  omega

/-- The source line stands behind its number. -/
theorem getElem?_numbered (number : String) (text : List Char) (i : Nat) :
    (number ++ " | " ++ String.ofList text).toList[number.length + 3 + i]? = text[i]? := by
  have hlength : (number ++ " | ").toList.length = number.length + 3 := by
    rw [String.length_toList, String.length_append]
    rfl
  rw [String.toList_append, String.toList_ofList, ← hlength,
    List.getElem?_append_right (Nat.le_add_right _ _), Nat.add_sub_cancel_left]

theorem report_eq_of_rowOf {source : String} {d : Diagnostic} {line : List Char}
    (hrow : Source.rowOf d.position.row source.toList = some line) :
    d.report source =
      if d.position.col - (line.takeWhile Caret.isIndent).length + 1 ≤ 65535 then
        .ok (String.join ((d.reportLines line).map (· ++ "\n")))
      else .error .widthOutOfRange := by
  rw [report, hrow]
  rfl

/-- A tip names the text of the token, and so it is in one line with it. -/
theorem lineFeed_notMem_tip {d : Diagnostic} (hd : d.Justified)
    (hliteral : '\n' ∉ d.token.literal.toList) : ∀ tip ∈ d.cause.tip?, '\n' ∉ tip.toList := by
  obtain ⟨cause, token⟩ := d
  rintro tip htip
  cases cause with
  | noPrefixRule kind literal =>
    have hl : literal = token.literal := hd.2.1
    subst hl
    cases kind with
    | eof =>
      cases htip
      decide
    | _ =>
      cases htip
      simpa [String.toList_append] using hliteral
  | badInteger literal error =>
    have hl : literal = token.literal := hd.1
    subst hl
    cases htip
    simpa [String.toList_append] using hliteral
  | unexpected => cases hd
  | nestingTooDeep limit =>
    have hlimit := notMem_toString (c := '\n') rfl limit
    cases htip
    simpa only [String.toList_append, List.mem_append, not_or] using ⟨⟨by decide, hlimit⟩, by decide⟩

theorem lineFeed_notMem_title {d : Diagnostic} (hd : d.Justified)
    (hliteral : '\n' ∉ d.token.literal.toList) : '\n' ∉ d.title.toList := by
  have htip := lineFeed_notMem_tip hd hliteral
  have hname : '\n' ∉ d.cause.name.toList := by cases d.cause <;> simp [Cause.name]
  rw [title]
  cases h : d.cause.tip? with
  | none => simpa [String.toList_append] using hname
  | some tip =>
    have htip := htip tip h
    simpa [String.toList_append] using ⟨hname, htip⟩

/-- Nothing in a report breaks a line but the ends of its lines. -/
theorem lineFeed_notMem_reportLines {d : Diagnostic} {line : List Char} (hd : d.Justified)
    (hliteral : '\n' ∉ d.token.literal.toList) (hline : '\n' ∉ line) :
    ∀ l ∈ d.reportLines line, '\n' ∉ l.toList := by
  have hrow := notMem_toString (c := '\n') rfl d.position.row
  have hcol := notMem_toString (c := '\n') rfl d.position.col
  have hmargin : '\n' ∉ (margin d.position.row).toList := by simp [margin, Caret.padLeft]
  have hshown : '\n' ∉ Caret.shown line := fun h =>
    hline ((Caret.isTrim_shown line).line_eq ▸ by simp [h])
  simp only [reportLines, List.forall_mem_cons, List.not_mem_nil, false_imp_iff, implies_true,
    and_true]
  refine ⟨lineFeed_notMem_title hd hliteral, ?_, hmargin, ?_, ?_⟩
  · simp only [Position.text, String.toList_append, List.mem_append, not_or]
    exact ⟨by decide, ⟨⟨by decide, hrow⟩, by decide⟩, hcol⟩
  · simp only [String.toList_append, List.mem_append, not_or, String.toList_ofList]
    exact ⟨⟨hrow, by decide⟩, hshown⟩
  · simp only [String.toList_append, List.mem_append, not_or, String.toList_ofList]
    exact ⟨⟨hmargin, by decide⟩, by simp [Caret.padLeft]⟩

end Diagnostic

/-- The token is white space, without a meaning, and so is all that its line has behind it. -/
def Token.TrailsOff (t : Token) (line : List Char) : Prop :=
  t.kind = .illegal ∧ (∀ c ∈ t.literal.toList, Text.WhiteSpace c) ∧
    ∀ c ∈ line.drop (t.position.col + t.literal.length), Text.WhiteSpace c

instance (t : Token) (line : List Char) : Decidable (t.TrailsOff line) :=
  decidable_of_iff (t.kind = .illegal ∧ t.literal.toList.all Text.isWhiteSpace ∧
    (line.drop (t.position.col + t.literal.length)).all Text.isWhiteSpace)
    (by simp only [Token.TrailsOff, List.all_eq_true, Text.isWhiteSpace_iff])

/-- The five lines of a report whose caret stands `offset` characters behind the margin. No line is
broken, the fourth shows the text of the row, the fifth has one caret, and above the caret stands the
first character of the token to blame; there is nothing above it if the token trails off. -/
structure Diagnostic.PointsAt (d : Diagnostic) (line text : List Char) (offset : Nat)
    (lines : List String) : Prop where
  length_eq : lines.length = 5
  unbroken : ∀ l ∈ lines, '\n' ∉ l.toList
  fourth : lines[3]? = some (toString d.position.row ++ " | " ++ String.ofList text)
  fifth : ∃ l, lines[4]? = some l ∧
    ∀ i, l.toList[i]? = some '^' ↔ i = (toString d.position.row).length + 3 + offset
  above : d.token.kind ≠ .eof → ∃ c, d.token.literal.toList.head? = some c ∧
    (toString d.position.row ++ " | " ++ String.ofList text).toList[
      (toString d.position.row).length + 3 + offset]? =
        if d.token.TrailsOff line then none else some c

/-- A token trails off exactly if its line has only white space from the token on. -/
theorem Token.trailsOff_iff {t : Token} {before : List Char} (behind : List Char)
    (hspells : t.kind.Spells t.literal.toList) (hcol : t.position.col = before.length) :
    t.TrailsOff (before ++ (t.literal.toList ++ behind)) ↔
      ∀ c ∈ t.literal.toList ++ behind, Text.WhiteSpace c := by
  have hdrop : (before ++ (t.literal.toList ++ behind)).drop (t.position.col + t.literal.length) =
      behind := by
    rw [hcol, ← String.length_toList, ← List.append_assoc, ← List.length_append, List.drop_left]
  rw [TrailsOff, hdrop, List.forall_mem_append]
  refine and_iff_right_of_imp fun ⟨hwhite, _⟩ => ?_
  obtain ⟨c, hc⟩ := List.exists_mem_of_ne_nil _ hspells.ne_nil
  by_contra hkind
  exact hspells.not_whiteSpace hkind c hc (hwhite c hc)

/-- A report against a row that has the token in its column points at the token. -/
theorem Diagnostic.pointsAt_reportLines {d : Diagnostic} {before behind line : List Char}
    (hline : before ++ (d.token.literal.toList ++ behind) = line)
    (hcol : d.position.col = before.length) (hd : d.Justified)
    (hspells : d.token.kind ≠ .eof → d.token.kind.Spells d.token.literal.toList)
    (hchars : ∀ c ∈ line, isRowChar c)
    (hrest : ∀ c ∈ (d.token.literal.toList ++ behind).head?, Caret.isIndent c = false) :
    d.PointsAt line (Caret.shown line) (d.position.col - (line.takeWhile Caret.isIndent).length)
      (d.reportLines line) := by
  subst hline
  have hfeed : '\n' ∉ before ++ (d.token.literal.toList ++ behind) := fun h =>
    absurd (hchars '\n' h) (by decide)
  refine ⟨rfl, lineFeed_notMem_reportLines hd (fun h => hfeed (by simp [h])) hfeed, rfl,
    ⟨_, rfl, getElem?_caret _ _⟩, fun hkind => ?_⟩
  obtain ⟨c, cs, hcs, -⟩ := (hspells hkind).cons
  have hoffset : d.position.col -
      ((before ++ (d.token.literal.toList ++ behind)).takeWhile Caret.isIndent).length =
        (before.dropWhile Caret.isIndent).length := by
    have hindent := Caret.length_indent_add before hrest
    omega
  refine ⟨c, by rw [hcs]; rfl, ?_⟩
  rw [getElem?_numbered, hoffset, Caret.getElem?_shown before hrest]
  simp only [Token.trailsOff_iff behind (hspells hkind) hcol, List.all_eq_true,
    Text.isWhiteSpace_iff]
  rw [hcs]
  rfl

theorem spells_of_mem_tokenize {source : String} {t : Token} (ht : t ∈ tokenize source)
    (hkind : t.kind ≠ .eof) : t.kind.Spells t.literal.toList := by
  rw [tokenize_eq, List.mem_append, List.mem_singleton] at ht
  rcases ht with ht | rfl
  · exact Scanner.spells_of_mem_tokens ht
  · exact absurd rfl hkind

theorem justified_of_mem_parse {source : String} {d : Diagnostic} (hd : d ∈ (parse source).2) :
    d.token ∈ tokenize source ∧ d.Justified := by
  obtain ⟨outs, h, hparse⟩ := Parser.exists_readsProgram_parse source
  rw [hparse] at hd
  rw [tokenize_eq]
  exact ⟨(h.faults_sublist Rules.standard_ungrouped).subset (List.mem_map_of_mem hd),
    h.justified d hd⟩

/-- The report of a fault points at the token to blame. The token's column is not within the indent
of its row; the report is refused if it is too far behind the indent, and is five lines with the caret
at the token otherwise. -/
theorem report_points_at_token {source : String} {d : Diagnostic} (hd : d ∈ (parse source).2) :
    ∃ line indent text trail : List Char,
      Source.lineAt source d.position.row = some (String.ofList line) ∧
      Caret.IsTrim line indent text trail ∧ indent.length ≤ d.position.col ∧
      (d.report source = .error .widthOutOfRange ↔ 65535 < d.position.col - indent.length + 1) ∧
      (d.position.col - indent.length + 1 ≤ 65535 → ∃ lines : List String,
        d.report source = .ok (String.join (lines.map (· ++ "\n"))) ∧
        d.PointsAt line text (d.position.col - indent.length) lines) := by
  obtain ⟨htoken, hjustified⟩ := justified_of_mem_parse hd
  obtain ⟨before, behind, hrow, hcol, hchars, hblank⟩ := exists_rowOf_of_mem_tokenize htoken
  have hrest := Caret.isIndent_eq_false_of_head? hblank
  have hindent := Caret.length_indent_add before hrest
  generalize hline : before ++ (d.token.literal.toList ++ behind) = line at *
  have hpoints := d.pointsAt_reportLines hline hcol hjustified (spells_of_mem_tokenize htoken)
    hchars hrest
  have hreport := Diagnostic.report_eq_of_rowOf hrow
  have hle : (line.takeWhile Caret.isIndent).length ≤ d.position.col := by
    rw [Diagnostic.position, hcol]
    omega
  refine ⟨line, line.takeWhile Caret.isIndent, Caret.shown line, _,
    congrArg (Option.map String.ofList) hrow, Caret.isTrim_shown line, hle, ?_, ?_⟩
  · rw [hreport]
    split_ifs with hwidth
    · exact iff_of_false (by simp) (by omega)
    · exact iff_of_true rfl (by omega)
  · intro hwidth
    exact ⟨d.reportLines line, by rw [hreport, if_pos hwidth], hpoints⟩

/-- A parenthesis that starts no value is pointed at in the second row. -/
theorem report_points_at_token_paren :
    ∃ d ∈ (parse "a = 1\n  b = )").2, d.position = ⟨1, 6⟩ ∧
      ∃ line indent text : List Char, ∃ lines : List String, indent.length ≤ 6 ∧
        d.report "a = 1\n  b = )" = .ok (String.join (lines.map (· ++ "\n"))) ∧
        d.PointsAt line text (6 - indent.length) lines := by
  have hd : (⟨.noPrefixRule .rParen ")", ⟨.rParen, ")", ⟨1, 6⟩⟩⟩ : Diagnostic) ∈
      (parse "a = 1\n  b = )").2 := by decide +kernel
  obtain ⟨line, indent, text, trail, -, -, hle, -, hok⟩ := report_points_at_token hd
  have hwidth : 6 - indent.length + 1 ≤ 65535 := by omega
  obtain ⟨lines, hreport, hpoints⟩ := hok hwidth
  exact ⟨_, hd, rfl, line, indent, text, lines, hle, hreport, hpoints⟩

-- A no-break space is a token without a meaning, and white space that is not shown at the end.
example : ∃ d ∈ (parse "\ta \u00a0 ").2, d.token.TrailsOff "\ta \u00a0 ".toList := by
  decide +kernel

end ExprFront
