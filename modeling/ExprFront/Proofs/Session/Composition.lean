import ExprFront.Proofs.Session.Transcript
import ExprFront.Proofs.Token.Stream

/-! Sessions put together. The input is a sequence of lines, and each of them is answered by itself:
what is written for a line does not depend on the lines before it. So a session over two inputs, of
which the first ends with a line, is the session over the first and then the one over the second, with
one prompt between them. -/

namespace ExprFront.Session

/-! ### Lines -/

/-- `Splits input lines`: the lines of an input. A line ends at a line feed, the byte 10, and one
carriage return before it, the byte 13, belongs to its end; what stands behind the last line feed is
a line too, if there is anything. -/
inductive Splits : List UInt8 → List (List UInt8) → Prop where
  | nil : Splits [] []
  | last {line : List UInt8} (hne : line ≠ []) (hfeed : 10 ∉ line) : Splits line [line]
  | feed {line rest : List UInt8} {lines : List (List UInt8)} (hfeed : 10 ∉ line)
      (hreturn : line.getLast? ≠ some 13) :
      Splits rest lines → Splits (line ++ 10 :: rest) (line :: lines)
  | returnFeed {line rest : List UInt8} {lines : List (List UInt8)} (hfeed : 10 ∉ line) :
      Splits rest lines → Splits (line ++ 13 :: 10 :: rest) (line :: lines)

theorem dropReturn_of_ne {line : List UInt8} (h : line.getLast? ≠ some 13) :
    dropReturn line = line := if_neg h

theorem dropReturn_concat (line : List UInt8) : dropReturn (line ++ [13]) = line := by
  have hlast : (line ++ [13]).getLast? = some carriageReturn := by simp [carriageReturn]
  rw [dropReturn, if_pos hlast, List.dropLast_concat]

theorem ne_lineFeed_of_notMem {line : List UInt8} (hfeed : 10 ∉ line) :
    ∀ c ∈ line, (c != lineFeed) = true := by
  intro c hc
  refine bne_iff_ne.mpr ?_
  rintro rfl
  exact hfeed hc

theorem cutLine_of_notMem {input : List UInt8} (hfeed : 10 ∉ input) :
    cutLine input = (input, []) := by
  rw [cutLine, List.dropWhile_eq_nil_iff.mpr (ne_lineFeed_of_notMem hfeed)]

theorem cutLine_append {line : List UInt8} (hfeed : 10 ∉ line) (rest : List UInt8) :
    cutLine (line ++ 10 :: rest) = (dropReturn line, rest) := by
  have hline := ne_lineFeed_of_notMem hfeed
  have hstop : ∀ c ∈ (10 :: rest).head?, (c != lineFeed) = false := by
    rintro c ⟨⟩
    rfl
  rw [cutLine, Munch.dropWhile_append_of_stop hline hstop,
    Munch.takeWhile_append_of_stop hline hstop]

theorem lines_append_lineFeed {line : List UInt8} (hfeed : 10 ∉ line) (rest : List UInt8) :
    lines (line ++ 10 :: rest) = dropReturn line :: lines rest := by
  rw [lines, dif_neg (by simp), cutLine_append hfeed]

theorem Splits.lines_eq {input : List UInt8} {ls : List (List UInt8)} (h : Splits input ls) :
    lines input = ls := by
  induction h with
  | nil => rw [lines, dif_pos rfl]
  | last hne hfeed => rw [lines, dif_neg hne, cutLine_of_notMem hfeed, lines, dif_pos rfl]
  | feed hfeed hreturn _ ih => rw [lines_append_lineFeed hfeed, ih, dropReturn_of_ne hreturn]
  | @returnFeed line rest _ hfeed _ ih =>
    have hline : 10 ∉ line ++ [13] := by simp [hfeed]
    rw [List.append_cons, lines_append_lineFeed hline, ih, dropReturn_concat]

theorem splits_lines (input : List UInt8) : Splits input (lines input) := by
  induction hlen : input.length using Nat.strongRecOn generalizing input with
  | ind len ih =>
    by_cases hmem : 10 ∈ input
    · obtain ⟨line, rest, rfl, hfeed⟩ := List.eq_append_cons_of_mem hmem
      have hrest := ih rest.length (by rw [← hlen]; simp; omega) rest rfl
      rw [lines_append_lineFeed hfeed]
      by_cases hreturn : line.getLast? = some 13
      · obtain ⟨front, rfl⟩ := List.getLast?_eq_some_iff.mp hreturn
        rw [dropReturn_concat, List.append_assoc]
        refine .returnFeed (fun h => hfeed ?_) hrest
        simp [h]
      · rw [dropReturn_of_ne hreturn]
        exact .feed hfeed hreturn hrest
    · by_cases hne : input = []
      · subst hne
        rw [lines, dif_pos rfl]
        exact .nil
      · rw [lines, dif_neg hne, cutLine_of_notMem hmem, lines, dif_pos rfl]
        exact .last hne hmem

/-- Every input has one sequence of lines, which is the one that a session reads. -/
theorem splits_iff {input : List UInt8} {ls : List (List UInt8)} :
    Splits input ls ↔ ls = lines input := by
  constructor
  · exact fun h => h.lines_eq.symm
  · rintro rfl
    exact splits_lines input

/-- No line of the input goes on behind it. -/
def Ended (input : List UInt8) : Prop := input = [] ∨ input.getLast? = some 10

theorem Ended.of_append {front rest : List UInt8} (h : Ended (front ++ 10 :: rest)) :
    Ended rest := by
  by_cases hne : rest = []
  · exact .inl hne
  · refine .inr ?_
    have hlast := h.resolve_left (by simp)
    rwa [List.getLast?_append_of_ne_nil _ (by simp), List.getLast?_cons_of_ne_nil hne] at hlast

theorem Splits.append {a b : List UInt8} {as bs : List (List UInt8)} (ha : Splits a as)
    (hend : Ended a) (hb : Splits b bs) : Splits (a ++ b) (as ++ bs) := by
  induction ha with
  | nil => exact hb
  | last hne hfeed =>
    have hlast := hend.resolve_left hne
    exact absurd (List.mem_of_getLast? hlast) hfeed
  | feed hfeed hreturn _ ih =>
    rw [List.append_assoc]
    exact .feed hfeed hreturn (ih hend.of_append)
  | @returnFeed line rest lines hfeed _ ih =>
    rw [List.append_cons] at hend
    rw [List.append_assoc]
    exact .returnFeed hfeed (ih hend.of_append)

/-- Texts in UTF-8. -/
def IsText (line : List UInt8) : Prop := ∃ text : String, text.toUTF8 = line.toByteArray

theorem decode?_eq_some_iff {line : List UInt8} {text : String} :
    decode? line = some text ↔ text.toUTF8 = line.toByteArray := by
  rw [decode?, String.fromUTF8?]
  constructor
  · intro h
    split_ifs at h with hvalid
    cases h
    rfl
  · intro h
    have hvalid : line.toByteArray.IsValidUTF8 := h ▸ text.isValidUTF8
    rw [dif_pos hvalid, Option.some.injEq, ← String.toByteArray_inj]
    exact h.symm

theorem decode?_eq_none_iff {line : List UInt8} : decode? line = none ↔ ¬ IsText line := by
  simp only [Option.eq_none_iff_forall_ne_some, ne_eq, decode?_eq_some_iff, IsText, not_exists]

/-! ### Answers -/

/-- `Shows mode line body`: what stands between two prompts for a line. Its tokens, one a line; or its
faults, one a line, and only where there are none its program, unless that is empty. -/
inductive Shows : Mode → String → String → Prop where
  | tokens (line : String) :
    Shows .tokens line (String.join ((tokenize line).dropLast.map (·.dump ++ "\n")))
  | faults {line : String} (hfaults : (parse line).2 ≠ []) :
    Shows .tree line (String.join ((parse line).2.map (·.text ++ "\n")))
  | program {line : String} (hfaults : (parse line).2 = [])
      (hstatements : (parse line).1.statements ≠ []) :
    Shows .tree line ((parse line).1.render ++ "\n")
  | nothing {line : String} (hfaults : (parse line).2 = [])
      (hstatements : (parse line).1.statements = []) : Shows .tree line ""

theorem shows_answer (mode : Mode) (line : String) :
    Shows mode line (String.join ((answer mode line).map (· ++ "\n"))) := by
  cases mode with
  | tokens =>
    have h := Shows.tokens line
    rw [tokenize_eq, List.dropLast_concat] at h
    rw [answer, List.map_map]
    exact h
  | tree =>
    rcases hparse : parse line with ⟨⟨statements⟩, faults⟩
    cases faults with
    | cons fault faults =>
      have h := Shows.faults (by simp [hparse] : (parse line).2 ≠ [])
      simp only [answer, hparse, List.map_map] at h ⊢
      exact h
    | nil =>
      have hfaults : (parse line).2 = [] := by rw [hparse]
      cases statements with
      | nil =>
        have h := Shows.nothing hfaults (by rw [hparse])
        simp only [answer, hparse]
        exact h
      | cons statement statements =>
        have h := Shows.program hfaults (by simp [hparse])
        simp only [answer, hparse, List.map_singleton, String.join_cons, String.join_nil,
          String.append_empty] at h ⊢
        exact h

theorem transcript_append (mode : Mode) {as : List (List UInt8)}
    (has : ∀ line ∈ as, IsText line) (bs : List (List UInt8)) :
    transcript mode (as ++ bs) =
      ((transcript mode bs).1, (transcript mode as).2 ++ (transcript mode bs).2) := by
  induction as with
  | nil => rfl
  | cons line lines ih =>
    obtain ⟨⟨text, htext⟩, hlines⟩ := List.forall_mem_cons.mp has
    rw [List.cons_append, transcript, transcript, decode?_eq_some_iff.mpr htext]
    simp only [ih hlines, List.append_assoc]

theorem run_of_text (mode : Mode) {input line : List UInt8} {text : String}
    (hinput : Splits input [line]) (htext : text.toUTF8 = line.toByteArray) :
    ∃ body, Shows mode text body ∧
      run mode input .unbounded = (none, ⟨(">> " ++ body ++ ">> ").toUTF8, none⟩) := by
  refine ⟨_, shows_answer mode text, ?_⟩
  rw [run_unbounded, hinput.lines_eq, transcript, decode?_eq_some_iff.mpr htext]
  simp [transcript, reply, prompt, String.join_cons, String.join_append, String.append_assoc]

theorem run_of_not_text (mode : Mode) {input line : List UInt8} {ls : List (List UInt8)}
    (hinput : Splits input (line :: ls)) (htext : ¬ IsText line) :
    run mode input .unbounded = (some .invalidText, ⟨">> ".toUTF8, none⟩) := by
  rw [run_unbounded, hinput.lines_eq, transcript, decode?_eq_none_iff.mpr htext]
  simp [prompt, String.join_cons]

/-- A session over an input that ends with a line, and then over another: it ends as the session over
the second does, and writes what both write, but for the second one's first prompt. A line is answered
by itself, between two prompts; one that is no text is not answered, and ends the session. -/
theorem run_append_of_ended (mode : Mode) {a : List UInt8} {as : List (List UInt8)}
    (hend : Ended a) (has : Splits a as) (htext : ∀ line ∈ as, IsText line) (b : List UInt8) :
    (run mode (a ++ b) .unbounded).1 = (run mode b .unbounded).1 ∧
    (∃ out, (run mode b .unbounded).2.written = ">> ".toUTF8 ++ out ∧
      (run mode (a ++ b) .unbounded).2.written = (run mode a .unbounded).2.written ++ out) ∧
    (∀ input line (text : String), Splits input [line] → text.toUTF8 = line.toByteArray →
      ∃ body, Shows mode text body ∧
        run mode input .unbounded = (none, ⟨(">> " ++ body ++ ">> ").toUTF8, none⟩)) ∧
    (∀ input line ls, Splits input (line :: ls) → ¬ IsText line →
      run mode input .unbounded = (some .invalidText, ⟨">> ".toUTF8, none⟩)) ∧
    ∀ input ls, Splits input ls ↔ ls = lines input := by
  have hab := has.append hend (splits_lines b)
  have htranscript := transcript_append mode htext (lines b)
  refine ⟨?_, ⟨(String.join (transcript mode (lines b)).2).toUTF8, ?_, ?_⟩,
    fun _ _ _ => run_of_text mode, fun _ _ _ => run_of_not_text mode, fun _ _ => splits_iff⟩
  · rw [run_unbounded, run_unbounded, hab.lines_eq, htranscript]
  · rw [run_unbounded, toUTF8_join_cons, prompt]
  · rw [run_unbounded, run_unbounded, hab.lines_eq, htranscript, has.lines_eq,
      ← List.cons_append, toUTF8_join_append]

/-- A line that ends in a carriage return and a line feed, and then a byte that is no text. -/
theorem run_append_of_ended_return :
    (run .tree ([49, 13, 10] ++ [255]) .unbounded).1 = (run .tree [255] .unbounded).1 ∧
    ∃ out, (run .tree [255] .unbounded).2.written = ">> ".toUTF8 ++ out ∧
      (run .tree ([49, 13, 10] ++ [255]) .unbounded).2.written =
        (run .tree [49, 13, 10] .unbounded).2.written ++ out := by
  have hfeed : 10 ∉ [(49 : UInt8)] := by decide
  have hsplits : Splits [49, 13, 10] [[49]] := .returnFeed hfeed .nil
  have htext : ∀ line ∈ [[(49 : UInt8)]], IsText line :=
    List.forall_mem_singleton.mpr ⟨"1", by decide⟩
  have h := run_append_of_ended .tree (.inr rfl) hsplits htext [255]
  exact ⟨h.1, h.2.1⟩

end ExprFront.Session
