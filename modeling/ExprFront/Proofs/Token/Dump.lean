import ExprFront.Command.Run
import ExprFront.Proofs.Spelling
import ExprFront.Proofs.Token.Layout

/-! Tokens and their written forms. Both forms keep to one line and can be read back, whatever stands
in the literal: the quoted literal ends at the first quote that is not escaped, and the other fields
end at the first character that they cannot contain. So a token can be told from either form, and a
list of tokens from its listing. None of this depends on the characters that are taken to be hidden. -/

namespace ExprFront

/-! ### Quoted texts -/

namespace Text

/-- The number that hexadecimal digits denote. -/
def hexNumber (cs : List Char) : Nat :=
  cs.foldl (fun n c => 16 * n + (Numeral.digitValue? 16 c).getD 0) 0

/-- Reads the first character of a text from the way it is written between quotes, and tells what is
left; at the closing quote there is none. -/
def unescape : List Char → Option (Char × List Char)
  | [] => none
  | '"' :: _ => none
  | '\\' :: '0' :: cs => some ('\x00', cs)
  | '\\' :: 't' :: cs => some ('\t', cs)
  | '\\' :: 'r' :: cs => some ('\r', cs)
  | '\\' :: 'n' :: cs => some ('\n', cs)
  | '\\' :: 'u' :: '\x7b' :: cs =>
    some (.ofNat (hexNumber (cs.takeWhile (· != '\x7d'))), (cs.dropWhile (· != '\x7d')).tail)
  | '\\' :: c :: cs => some (c, cs)
  | c :: cs => some (c, cs)

theorem hexNumber_concat (cs : List Char) {d : Nat} (hd : d < 16) :
    hexNumber (cs ++ [d.digitChar]) = 16 * hexNumber cs + d := by
  have hvalue : Numeral.digitValue? 16 d.digitChar = some d :=
    (Numeral.digitValue?_eq_some_iff (Nat.le_refl 16)).mpr ⟨hd, .inl rfl⟩
  simp [hexNumber, List.foldl_append, hvalue]

theorem hexNumber_toDigits (n : Nat) : hexNumber (Nat.toDigits 16 n) = n := by
  induction n using Nat.strongRecOn with
  | ind n ih =>
    rw [Nat.toDigits_eq_if (by decide)]
    split_ifs with hlt
    · exact (hexNumber_concat [] hlt).trans (Nat.zero_add n)
    · rw [hexNumber_concat _ (Nat.mod_lt n (by decide)), ih (n / 16) (by omega)]
      omega

theorem forall_mem_toDigits {p : Char → Bool} (hp : ∀ d : Nat, p d.digitChar) (n : Nat) :
    ∀ c ∈ Nat.toDigits 16 n, p c := by
  induction n using Nat.strongRecOn with
  | ind n ih =>
    rw [Nat.toDigits_eq_if (by decide)]
    split_ifs with hlt
    · exact List.forall_mem_singleton.mpr (hp n)
    · exact List.forall_mem_append.mpr
        ⟨ih (n / 16) (by omega), List.forall_mem_singleton.mpr (hp (n % 16))⟩

theorem unescape_escapeCode (c : Char) (cs : List Char) :
    unescape (escapeCode c ++ cs) = some (c, cs) := by
  have hdigits : ∀ d ∈ Nat.toDigits 16 c.toNat, (d != '\x7d') = true :=
    forall_mem_toDigits (p := (· != '\x7d')) (fun d => bne_iff_ne.mpr (Nat.digitChar_ne _ rfl)) _
  have hstop : ∀ d ∈ ('\x7d' :: cs).head?, (d != '\x7d') = false := by
    rintro d ⟨⟩
    rfl
  have htext : escapeCode c ++ cs =
      '\\' :: 'u' :: '\x7b' :: (Nat.toDigits 16 c.toNat ++ '\x7d' :: cs) := by
    simp [escapeCode]
  rw [htext, unescape, Munch.takeWhile_append_of_stop hdigits hstop,
    Munch.dropWhile_append_of_stop hdigits hstop, hexNumber_toDigits, Char.ofNat_toNat,
    List.tail_cons]

/-- What is written for a character is read back, whatever follows. -/
theorem unescape_escape (hidden : Char → Bool) (c : Char) (cs : List Char) :
    unescape (escape hidden c ++ cs) = some (c, cs) := by
  unfold escape
  split_ifs with h0 ht hr hn hquote hslash hhidden
  · rw [h0]; rfl
  · rw [ht]; rfl
  · rw [hr]; rfl
  · rw [hn]; rfl
  · rw [hquote]; rfl
  · rw [hslash]; rfl
  · exact unescape_escapeCode c cs
  · rw [List.singleton_append]
    unfold unescape
    split <;> simp_all

/-- Where one quoted text ends in front of some text, no other does. -/
theorem escaped_append_inj (hidden : Char → Bool) {cs ds rest rest' : List Char}
    (h : cs.flatMap (escape hidden) ++ '"' :: rest = ds.flatMap (escape hidden) ++ '"' :: rest') :
    cs = ds ∧ rest = rest' := by
  induction cs generalizing ds with
  | nil =>
    cases ds with
    | nil => exact ⟨rfl, List.tail_eq_of_cons_eq h⟩
    | cons d ds =>
      have hread := congrArg unescape h
      rw [List.flatMap_cons, List.append_assoc, unescape_escape] at hread
      cases hread
  | cons c cs ih =>
    have hread := congrArg unescape h
    rw [List.flatMap_cons, List.append_assoc, unescape_escape] at hread
    cases ds with
    | nil => cases hread
    | cons d ds =>
      rw [List.flatMap_cons, List.append_assoc, unescape_escape, Option.some.injEq,
        Prod.mk.injEq] at hread
      obtain ⟨rfl, hrest⟩ := ih hread.2
      exact ⟨by rw [hread.1], hrest⟩

theorem isRowChar_of_mem_escapeCode (c : Char) : ∀ d ∈ escapeCode c, isRowChar d := by
  have hdigits : ∀ d ∈ Nat.toDigits 16 c.toNat, isRowChar d :=
    forall_mem_toDigits (fun d => by
      simp [isRowChar, Nat.digitChar_ne '\n' rfl, Nat.digitChar_ne '\r' rfl]) c.toNat
  simp only [escapeCode, List.forall_mem_cons, List.forall_mem_append]
  exact ⟨rfl, rfl, rfl, hdigits, rfl, by simp⟩

/-- No line break is written between quotes: those of the text are escaped. -/
theorem isRowChar_of_mem_escape (hidden : Char → Bool) (c : Char) :
    ∀ d ∈ escape hidden c, isRowChar d := by
  unfold escape
  split_ifs with h0 ht hr hn hquote hslash hhidden
  · exact List.all_eq_true.mp rfl
  · exact List.all_eq_true.mp rfl
  · exact List.all_eq_true.mp rfl
  · exact List.all_eq_true.mp rfl
  · exact List.all_eq_true.mp rfl
  · exact List.all_eq_true.mp rfl
  · exact isRowChar_of_mem_escapeCode c
  · exact List.forall_mem_singleton.mpr (by simp [isRowChar, hr, hn])

theorem isRowChar_of_mem_quoteWith (hidden : Char → Bool) (text : String) :
    ∀ c ∈ (quoteWith hidden text).toList, isRowChar c := by
  simp only [quoteWith, String.toList_ofList, List.forall_mem_cons, List.forall_mem_append,
    List.forall_mem_flatMap]
  exact ⟨rfl, fun c _ => isRowChar_of_mem_escape hidden c, rfl, by simp⟩

end Text

/-! ### Written forms -/

namespace TokenKind

theorem all_isAlpha_name (kind : TokenKind) : kind.name.toList.all Char.isAlpha = true := by
  cases kind <;> decide

theorem name_injective : Function.Injective name := by
  have hfind : ∀ kind : TokenKind, all.find? (fun k => k.name = kind.name) = some kind := by
    intro kind
    cases kind <;> decide
  intro a b h
  have ha := hfind a
  rw [h, hfind b] at ha
  exact (Option.some.inj ha).symm

end TokenKind

/-- The fixed parts of a written form of tokens, around the kind, the literal in quotes, and the row
and the column in decimal. Behind the kind and behind the row stands a character that cannot be a part
of them, and the form keeps to one line. -/
structure Form where
  lead : String
  behindKind : String
  behindLiteral : String
  behindRow : String
  behindCol : String
  kind_ends : behindKind.toList.head?.map Char.isAlpha = some false
  row_ends : behindRow.toList.head?.map Char.isDigit = some false
  one_line : [lead, behindKind, behindLiteral, behindRow, behindCol].all
    (·.toList.all isRowChar)

namespace Form

/-- A token in the form. -/
def write (form : Form) (hidden : Char → Bool) (t : Token) : String :=
  form.lead ++ t.kind.name ++ form.behindKind ++ Text.quoteWith hidden t.literal ++
    form.behindLiteral ++ toString t.position.row ++ form.behindRow ++ toString t.position.col ++
    form.behindCol

/-- The form in listings. -/
def listing : Form where
  lead := ""
  behindKind := " "
  behindLiteral := " (line: "
  behindRow := " col: "
  behindCol := ")"
  kind_ends := by decide
  row_ends := by decide
  one_line := by decide

/-- The form that names every field. -/
def named : Form where
  lead := "Token \x7b kind: "
  behindKind := ", literal: "
  behindLiteral := ", position: Position \x7b row: "
  behindRow := ", col: "
  behindCol := " \x7d \x7d"
  kind_ends := by decide
  row_ends := by decide
  one_line := by decide

theorem textWith_eq_write (hidden : Char → Bool) (t : Token) :
    t.textWith hidden = listing.write hidden t := by
  have hplace : " (line: " = " (" ++ "line: " := rfl
  simp only [Token.textWith, Position.text, write, listing, hplace, String.empty_append,
    String.append_assoc]

theorem dumpWith_eq_write (hidden : Char → Bool) (t : Token) :
    t.dumpWith hidden = named.write hidden t := rfl

/-- Two texts that start with characters of a class, and end with them or go on with another
character, start alike. -/
theorem append_inj_of_head? {p : Char → Bool} {cs ds rest rest' : List Char}
    (hcs : ∀ c ∈ cs, p c) (hds : ∀ d ∈ ds, p d) (hrest : ∀ c ∈ rest.head?, p c = false)
    (hrest' : ∀ c ∈ rest'.head?, p c = false) (h : cs ++ rest = ds ++ rest') :
    cs = ds ∧ rest = rest' := by
  have htake := congrArg (List.takeWhile p) h
  have hdrop := congrArg (List.dropWhile p) h
  rw [Munch.takeWhile_append_of_stop hcs hrest, Munch.takeWhile_append_of_stop hds hrest'] at htake
  rw [Munch.dropWhile_append_of_stop hcs hrest, Munch.dropWhile_append_of_stop hds hrest'] at hdrop
  exact ⟨htake, hdrop⟩

theorem forall_isDigit_toString (n : Nat) : ∀ c ∈ (toString n).toList, c.isDigit := by
  intro c hc
  rw [Nat.toString_eq_repr, Nat.toList_repr] at hc
  exact Nat.isDigit_of_mem_toDigits (by decide) (by decide) hc

theorem toString_injective : Function.Injective (toString : Nat → String) := by
  intro m n h
  have hdigits : Nat.toDigits 10 m = Nat.toDigits 10 n := by
    rw [← Nat.toList_repr, ← Nat.toList_repr, ← Nat.toString_eq_repr, ← Nat.toString_eq_repr, h]
  have hvalue := congrArg (Nat.ofDigitChars 10 · 0) hdigits
  simpa only [Nat.ofDigitChars_ten_toDigits] using hvalue

/-- A fixed part ends the field in front of it, whatever stands behind. -/
theorem head?_append_eq_false {p : Char → Bool} {part : List Char}
    (h : part.head?.map p = some false) (rest : List Char) :
    ∀ c ∈ (part ++ rest).head?, p c = false := by
  cases part with
  | nil => cases h
  | cons d ds =>
    rintro c ⟨⟩
    exact Option.some.inj h

/-- A token can be told from its form. -/
theorem write_injective (form : Form) (hidden : Char → Bool) :
    Function.Injective (form.write hidden) := by
  intro t u h
  have hchars := congrArg String.toList h
  simp only [write, Text.quoteWith, String.toList_append, String.toList_ofList, List.append_assoc,
    List.cons_append, List.nil_append] at hchars
  -- from left to right, a field at a time
  obtain ⟨hkind, hchars⟩ := append_inj_of_head? (List.all_eq_true.mp t.kind.all_isAlpha_name)
    (List.all_eq_true.mp u.kind.all_isAlpha_name) (head?_append_eq_false form.kind_ends _)
    (head?_append_eq_false form.kind_ends _) (List.append_cancel_left hchars)
  obtain ⟨hliteral, hchars⟩ := Text.escaped_append_inj hidden
    (List.tail_eq_of_cons_eq (List.append_cancel_left hchars))
  obtain ⟨hrow, hchars⟩ := append_inj_of_head? (forall_isDigit_toString _)
    (forall_isDigit_toString _) (head?_append_eq_false form.row_ends _)
    (head?_append_eq_false form.row_ends _) (List.append_cancel_left hchars)
  have hcol := List.append_cancel_right (List.append_cancel_left hchars)
  obtain ⟨kind, literal, ⟨row, col⟩⟩ := t
  obtain ⟨kind', literal', ⟨row', col'⟩⟩ := u
  cases TokenKind.name_injective (String.toList_inj.mp hkind)
  cases String.toList_inj.mp hliteral
  cases toString_injective (String.toList_inj.mp hrow)
  cases toString_injective (String.toList_inj.mp hcol)
  rfl

/-- A class of characters without the line breaks. -/
theorem isRowChar_of_class {p : Char → Bool} (hfeed : p '\n' = false) (hreturn : p '\r' = false)
    {c : Char} (hc : p c) : isRowChar c := by
  have hne : c ≠ '\n' ∧ c ≠ '\r' := by
    constructor <;> rintro rfl <;> simp_all
  simp [isRowChar, hne]

/-- A token in the form takes up one line. -/
theorem isRowChar_of_mem_write (form : Form) (hidden : Char → Bool) (t : Token) :
    ∀ c ∈ (form.write hidden t).toList, isRowChar c := by
  have hparts : ∀ part ∈ [form.lead, form.behindKind, form.behindLiteral, form.behindRow,
      form.behindCol], ∀ c ∈ part.toList, isRowChar c := fun part hpart =>
    List.all_eq_true.mp (List.all_eq_true.mp form.one_line part hpart)
  have hname : ∀ c ∈ t.kind.name.toList, isRowChar c := fun c hc =>
    isRowChar_of_class rfl rfl (List.all_eq_true.mp t.kind.all_isAlpha_name c hc)
  have hnumber (n : Nat) : ∀ c ∈ (toString n).toList, isRowChar c := fun c hc =>
    isRowChar_of_class rfl rfl (forall_isDigit_toString n c hc)
  have hquote := Text.isRowChar_of_mem_quoteWith hidden t.literal
  simp only [List.forall_mem_cons] at hparts
  obtain ⟨hlead, hbehindKind, hbehindLiteral, hbehindRow, hbehindCol, -⟩ := hparts
  simp only [write, String.toList_append, List.forall_mem_append]
  exact ⟨⟨⟨⟨⟨⟨⟨⟨hlead, hname⟩, hbehindKind⟩, hquote⟩, hbehindLiteral⟩, hnumber _⟩, hbehindRow⟩,
    hnumber _⟩, hbehindCol⟩

end Form

/-! ### Listings -/

/-- A token on a line of its own. -/
def Form.line (form : Form) (hidden : Char → Bool) (t : Token) : List Char :=
  (form.write hidden t ++ "\n").toList

/-- Tokens on lines of their own can be told from their text, and so can what stands behind them, as
long as it does not start with the line of a token. -/
theorem Form.flatMap_line_append_inj (form : Form) (hidden : Char → Bool) {ts us : List Token}
    {rest rest' : List Char} (hrest : ∀ t, ¬ form.line hidden t <+: rest)
    (hrest' : ∀ t, ¬ form.line hidden t <+: rest')
    (h : ts.flatMap (form.line hidden) ++ rest = us.flatMap (form.line hidden) ++ rest') :
    ts = us ∧ rest = rest' := by
  induction ts generalizing us with
  | nil =>
    cases us with
    | nil => exact ⟨rfl, h⟩
    | cons u us =>
      refine absurd ?_ (hrest u)
      exact ⟨us.flatMap (form.line hidden) ++ rest', by simpa using h.symm⟩
  | cons t ts ih =>
    cases us with
    | nil =>
      refine absurd ?_ (hrest' t)
      exact ⟨ts.flatMap (form.line hidden) ++ rest, by simpa using h⟩
    | cons u us =>
      simp only [List.flatMap_cons, List.append_assoc] at h
      rw [line, line, String.toList_append, String.toList_append, List.append_assoc,
        List.append_assoc] at h
      have hstop (cs : List Char) : ∀ c ∈ ("\n".toList ++ cs).head?, isRowChar c = false := by
        rintro c ⟨⟩
        rfl
      obtain ⟨hwrite, htail⟩ := append_inj_of_head? (form.isRowChar_of_mem_write hidden t)
        (form.isRowChar_of_mem_write hidden u) (hstop _) (hstop _) h
      obtain ⟨rfl, hend⟩ := ih (List.append_cancel_left htail)
      exact ⟨by rw [form.write_injective hidden (String.toList_inj.mp hwrite)], hend⟩

/-- The characters of a listing in the short form. -/
theorem toList_join_textWith (hidden : Char → Bool) (ts : List Token) :
    (String.join (ts.map fun t => t.textWith hidden ++ "\n")).toList =
      ts.flatMap (Form.listing.line hidden) := by
  simp only [String.toList_join, List.flatMap_map, Form.textWith_eq_write]
  rfl

/-- The characters that are printed for a file. -/
theorem toList_join_text_append (ts : List Token) (elapsed : String) :
    (String.join (ts.map fun t => t.text ++ "\n") ++ "Tokenized in " ++ elapsed ++ "\n").toList =
      ts.flatMap (Form.listing.line Text.isHidden) ++
        ("Tokenized in " ++ elapsed ++ "\n").toList := by
  rw [← toList_join_textWith, ← String.toList_append, String.append_assoc, String.append_assoc,
    String.append_assoc]
  rfl

/-- No kind has a name that starts like the line behind a listing. -/
theorem TokenKind.exists_name_cons (kind : TokenKind) :
    ∃ c cs, kind.name.toList = c :: cs ∧ c ≠ 'T' := by
  cases kind <;> exact ⟨_, _, rfl, by decide⟩

theorem Form.not_line_prefix_elapsed (hidden : Char → Bool) (t : Token) (elapsed : String) :
    ¬ Form.listing.line hidden t <+: ("Tokenized in " ++ elapsed ++ "\n").toList := by
  rintro ⟨rest, h⟩
  obtain ⟨c, cs, hname, hne⟩ := t.kind.exists_name_cons
  simp only [line, write, listing, String.toList_append, hname, String.toList_empty,
    List.nil_append, List.cons_append] at h
  exact hne (List.head_eq_of_cons_eq h)

/-- Whatever characters are hidden, a token is written on one line in either form, and both forms
tell it from every other token. So a listing, one token a line, tells the list of tokens from every
other list, also where it is printed for a file, whatever that file and the time that it took. -/
theorem textWith_dumpWith_injective (hidden : Char → Bool) :
    (∀ t : Token, '\n' ∉ (t.textWith hidden).toList ∧ '\r' ∉ (t.textWith hidden).toList) ∧
    Function.Injective (Token.textWith hidden) ∧
    (∀ t : Token, '\n' ∉ (t.dumpWith hidden).toList ∧ '\r' ∉ (t.dumpWith hidden).toList) ∧
    Function.Injective (Token.dumpWith hidden) ∧
    Function.Injective
      (fun ts : List Token => String.join (ts.map fun t => t.textWith hidden ++ "\n")) ∧
    ∀ (ts us : List Token) (file file' source source' elapsed elapsed' : String),
      ((Command.Result.tokens ts).outcome file source elapsed).stdout =
        ((Command.Result.tokens us).outcome file' source' elapsed').stdout → ts = us := by
  have hbreaks {cs : List Char} (h : ∀ c ∈ cs, isRowChar c) : '\n' ∉ cs ∧ '\r' ∉ cs :=
    ⟨fun hc => absurd (h _ hc) (by decide), fun hc => absurd (h _ hc) (by decide)⟩
  refine ⟨fun t => ?_, ?_, fun t => ?_, ?_, ?_, ?_⟩
  · rw [Form.textWith_eq_write]
    exact hbreaks (Form.listing.isRowChar_of_mem_write hidden t)
  · rw [funext (Form.textWith_eq_write hidden)]
    exact Form.listing.write_injective hidden
  · rw [Form.dumpWith_eq_write]
    exact hbreaks (Form.named.isRowChar_of_mem_write hidden t)
  · exact Form.named.write_injective hidden
  · intro ts us h
    have hchars := congrArg String.toList h
    have hnil (t : Token) : ¬ Form.listing.line hidden t <+: [] := by simp [Form.line]
    simp only [toList_join_textWith] at hchars
    exact (Form.listing.flatMap_line_append_inj hidden hnil hnil (by simpa using hchars)).1
  · intro ts us file file' source source' elapsed elapsed' h
    have hchars := congrArg String.toList (String.toByteArray_inj.mp h)
    rw [toList_join_text_append, toList_join_text_append] at hchars
    exact (Form.listing.flatMap_line_append_inj _ (Form.not_line_prefix_elapsed _ · elapsed)
      (Form.not_line_prefix_elapsed _ · elapsed') hchars).1

end ExprFront
