import Mathlib.Data.List.Forall2
import Mathlib.Data.List.Induction
import Mathlib.Data.Nat.Digits.Defs
import ExprFront.Proofs.Literals

/-! The language of numerals. How a text is spelled is said by its characters alone: a zero and a
body behind it, perhaps with the mark of a radix between them, or else a decimal number, perhaps with
a sign. Every text is spelled in exactly one way. It has a value if it shows digits, all of them are
of its radix, and what they denote fits 64 bits; otherwise the first character at which this fails
decides the error. -/

namespace ExprFront.Numeral

variable {sign : Sign} {radix n m d : Nat} {c : Char} {cs ds body : List Char}
  {error : NumeralError} {s : Spelling}

/-! ### Digits and what they denote -/

/-- The character is the digit of value `d`; from ten on it is a small or a capital letter. -/
def DigitOf (radix : Nat) (c : Char) (d : Nat) : Prop :=
  d < radix ∧ (c = d.digitChar ∨ c = d.digitChar.toUpper)

/-- The characters are digits of the radix, of which the last has weight one, and `n` is their
value. -/
def Denotes (radix : Nat) (cs : List Char) (n : Nat) : Prop :=
  ∃ ds, List.Forall₂ (DigitOf radix) cs.reverse ds ∧ Nat.ofDigits radix ds = n

/-- The integer of a magnitude: it is negative behind `-`, and only there. -/
def signed (sign? : Option Sign) (n : Nat) : Int := if sign? = some .minus then -n else n

/-- The integers of 64 bits. -/
def Fits (v : Int) : Prop := -2 ^ 63 ≤ v ∧ v ≤ 2 ^ 63 - 1

theorem toNat_digitChar (hd : d < 16) :
    d.digitChar.toNat = if d < 10 then d + 48 else d + 87 := by
  interval_cases d <;> rfl

theorem toNat_toUpper_digitChar (hd : d < 16) :
    d.digitChar.toUpper.toNat = if d < 10 then d + 48 else d + 55 := by
  interval_cases d <;> rfl

/-- Digits by their code points. -/
theorem digitOf_iff_toNat (hradix : radix ≤ 16) : DigitOf radix c d ↔ d < radix ∧
    (c.toNat = (if d < 10 then d + 48 else d + 87) ∨
      c.toNat = if d < 10 then d + 48 else d + 55) := by
  refine and_congr_right fun hd => ?_
  have hlt : d < 16 := by omega
  rw [← toNat_digitChar hlt, ← toNat_toUpper_digitChar hlt, Char.toNat_inj, Char.toNat_inj]

theorem digitValue?_eq_some_iff (hradix : radix ≤ 16) :
    digitValue? radix c = some d ↔ DigitOf radix c d := by
  rw [digitOf_iff_toNat hradix]
  simp only [digitValue?, Char.isDigit_iff_toNat, isLower_iff_toNat, isUpper_iff_toNat,
    Char.reduceToNat, Option.ite_none_right_eq_some, Option.some.injEq]
  split_ifs <;> omega

theorem digitValue?_eq_none_iff (hradix : radix ≤ 16) :
    digitValue? radix c = none ↔ ∀ d, ¬ DigitOf radix c d := by
  simp only [Option.eq_none_iff_forall_ne_some, ne_eq, digitValue?_eq_some_iff hradix]

theorem denotes_nil : Denotes radix [] n ↔ n = 0 := by
  simp [Denotes, eq_comm]

theorem denotes_concat : Denotes radix (cs ++ [c]) m ↔
    ∃ n d, Denotes radix cs n ∧ DigitOf radix c d ∧ m = n * radix + d := by
  constructor
  · rintro ⟨es, hes, rfl⟩
    rw [List.reverse_concat, List.forall₂_cons_left_iff] at hes
    obtain ⟨d, ds, hd, hds, rfl⟩ := hes
    refine ⟨Nat.ofDigits radix ds, d, ⟨ds, hds, rfl⟩, hd, ?_⟩
    rw [Nat.ofDigits_cons]
    ring
  · rintro ⟨n, d, ⟨ds, hds, rfl⟩, hd, rfl⟩
    refine ⟨d :: ds, ?_, ?_⟩
    · rw [List.reverse_concat]
      exact .cons hd hds
    · rw [Nat.ofDigits_cons]
      ring

theorem DigitOf.unique {e : Nat} (hradix : radix ≤ 16) (hd : DigitOf radix c d)
    (he : DigitOf radix c e) : d = e := by
  rw [← digitValue?_eq_some_iff hradix] at hd he
  exact Option.some.inj (hd.symm.trans he)

/-- Digits denote one number. -/
theorem Denotes.unique (hradix : radix ≤ 16) (hn : Denotes radix cs n) (hm : Denotes radix cs m) :
    n = m := by
  induction cs using List.reverseRecOn generalizing n m with
  | nil => rw [denotes_nil.mp hn, denotes_nil.mp hm]
  | append_singleton cs c ih =>
    obtain ⟨k, d, hk, hd, rfl⟩ := denotes_concat.mp hn
    obtain ⟨l, e, hl, he, rfl⟩ := denotes_concat.mp hm
    rw [ih hk hl, hd.unique hradix he]

theorem apply_getD (sign? : Option Sign) (n : Nat) :
    (sign?.getD .plus).apply n = signed sign? n := by
  rcases sign? with _ | _ | _ <;> rfl

theorem fits_signed_iff (sign? : Option Sign) (n : Nat) :
    Fits (signed sign? n) ↔ n ≤ (sign?.getD .plus).limit := by
  rcases sign? with _ | _ | _ <;>
    simp only [Fits, signed, Sign.limit, Option.getD_none, Option.getD_some, reduceCtorEq,
      Option.some.injEq, if_true, if_false] <;> omega

/-! ### The reading of digits -/

/-- Digits that are read denote what they come to, and this is within the limit. -/
theorem readDigits_eq_ok_iff (hradix : radix ≤ 16) :
    readDigits sign radix 0 cs = .ok m ↔ Denotes radix cs m ∧ m ≤ sign.limit := by
  -- A digit at the end moves all those before it up, so the induction takes the last one off.
  induction cs using List.reverseRecOn generalizing m with
  | nil =>
    rw [denotes_nil, readDigits, Except.ok.injEq]
    omega
  | append_singleton cs c ih =>
    rw [readDigits_append_eq_ok_iff, denotes_concat]
    constructor
    · rintro ⟨k, hk, hlast⟩
      obtain ⟨d, hd, hle, hm⟩ := readDigits_cons_eq_ok_iff.mp hlast
      cases hm
      exact ⟨⟨k, d, (ih.mp hk).1, (digitValue?_eq_some_iff hradix).mp hd, rfl⟩, hle⟩
    · rintro ⟨⟨k, d, hk, hd, rfl⟩, hle⟩
      have hk_le : k ≤ k * radix := Nat.le_mul_of_pos_right k (Nat.zero_lt_of_lt hd.1)
      refine ⟨k, ih.mpr ⟨hk, by omega⟩, readDigits_cons_eq_ok_iff.mpr ⟨d, ?_, hle, rfl⟩⟩
      exact (digitValue?_eq_some_iff hradix).mpr hd

/-- Digits behind a magnitude fail at the first character that is no digit or brings the magnitude
above the limit. -/
theorem readDigits_eq_error_iff : readDigits sign radix n cs = .error error ↔
    ∃ front c behind k, cs = front ++ c :: behind ∧ readDigits sign radix n front = .ok k ∧
      (digitValue? radix c = none ∧ error = .invalidDigit ∨
        ∃ d, digitValue? radix c = some d ∧ sign.limit < k * radix + d ∧
          error = sign.overflow) := by
  constructor
  · intro h
    induction cs generalizing n with
    | nil => cases h
    | cons c cs ih =>
      rw [readDigits] at h
      cases hc : digitValue? radix c with
      | none =>
        rw [hc] at h
        cases h
        exact ⟨[], c, cs, n, rfl, rfl, .inl ⟨hc, rfl⟩⟩
      | some d =>
        simp only [hc] at h
        split_ifs at h with hle
        · obtain ⟨front, e, behind, k, rfl, hfront, hstop⟩ := ih h
          exact ⟨c :: front, e, behind, k, rfl,
            readDigits_cons_eq_ok_iff.mpr ⟨d, hc, hle, hfront⟩, hstop⟩
        · cases h
          exact ⟨[], c, cs, n, rfl, rfl, .inr ⟨d, hc, by omega, rfl⟩⟩
  · rintro ⟨front, c, behind, k, rfl, hfront, hstop⟩
    rw [readDigits_append, hfront]
    show readDigits sign radix k (c :: behind) = .error error
    rcases hstop with ⟨hc, rfl⟩ | ⟨d, hc, hlt, rfl⟩
    · simp [readDigits, hc]
    · simp [readDigits, hc, Nat.not_le.mpr hlt]

/-! ### Spellings -/

/-- The letters that mark a radix. -/
def marks : List (Char × Nat) := [('x', 16), ('X', 16), ('o', 8), ('O', 8), ('b', 2), ('B', 2)]

/-- Hexadecimal digits and underscores, at least one of them. -/
def IsBody (cs : List Char) : Prop := cs ≠ [] ∧ ∀ c ∈ cs, c = '_' ∨ ∃ d, DigitOf 16 c d

/-- A zero, the mark of the radix, and a body. -/
def Marked (cs : List Char) (radix : Nat) (body : List Char) : Prop :=
  ∃ c, cs = '0' :: c :: body ∧ (c, radix) ∈ marks ∧ IsBody body

/-- A zero and a body. -/
def Zeroed (cs body : List Char) : Prop := cs = '0' :: body ∧ IsBody body

/-- The ways to spell a numeral. A letter is the mark of a radix whenever a body is left behind it;
a text with a sign is decimal, also if a zero stands behind the sign. -/
inductive Spelled (cs : List Char) : Spelling → Prop where
  | marked {radix : Nat} {body : List Char} (h : Marked cs radix body) :
    Spelled cs ⟨none, radix, body.filter (· != '_')⟩
  | octal {body : List Char} (h : Zeroed cs body) (hmark : ∀ radix ds, ¬ Marked cs radix ds) :
    Spelled cs ⟨none, 8, body.filter (· != '_')⟩
  | plus {ds : List Char} (h : cs = '+' :: ds) : Spelled cs ⟨some .plus, 10, ds⟩
  | minus {ds : List Char} (h : cs = '-' :: ds) : Spelled cs ⟨some .minus, 10, ds⟩
  | decimal (hmark : ∀ radix ds, ¬ Marked cs radix ds) (hzero : ∀ ds, ¬ Zeroed cs ds)
      (hplus : ∀ ds, cs ≠ '+' :: ds) (hminus : ∀ ds, cs ≠ '-' :: ds) : Spelled cs ⟨none, 10, cs⟩

theorem mem_marks_iff : (c, radix) ∈ marks ↔ markedRadix? c = some radix := by
  simp only [marks, List.mem_cons, Prod.mk.injEq, List.not_mem_nil, or_false]
  constructor
  · rintro (⟨rfl, rfl⟩ | ⟨rfl, rfl⟩ | ⟨rfl, rfl⟩ | ⟨rfl, rfl⟩ | ⟨rfl, rfl⟩ | ⟨rfl, rfl⟩) <;> rfl
  · intro h
    unfold markedRadix? at h
    split at h <;> cases h <;> simp

theorem isBodyChar_iff : isBodyChar c ↔ c = '_' ∨ ∃ d, DigitOf 16 c d := by
  have hranges : isBodyChar c ↔ c = '_' ∨ (48 ≤ c.toNat ∧ c.toNat ≤ 57) ∨
      (97 ≤ c.toNat ∧ c.toNat ≤ 102) ∨ 65 ≤ c.toNat ∧ c.toNat ≤ 70 := by
    simp only [isBodyChar, Bool.or_eq_true, Bool.and_eq_true, decide_eq_true_eq, beq_iff_eq,
      Char.isDigit_iff_toNat, Char.reduceToNat, Char.le_def, UInt32.le_iff_toNat_le]
    have htoNat : c.toNat = c.val.toNat := rfl
    have ha : 'a'.val.toNat = 97 := rfl
    have hf : 'f'.val.toNat = 102 := rfl
    have hA : 'A'.val.toNat = 65 := rfl
    have hF : 'F'.val.toNat = 70 := rfl
    rw [htoNat, ha, hf, hA, hF]
    tauto
  rw [hranges]
  refine or_congr_right ⟨?_, ?_⟩
  · rintro (h | h | h)
    · exact ⟨c.toNat - 48, (digitOf_iff_toNat (Nat.le_refl 16)).mpr (by split_ifs <;> omega)⟩
    · exact ⟨c.toNat - 87, (digitOf_iff_toNat (Nat.le_refl 16)).mpr (by split_ifs <;> omega)⟩
    · exact ⟨c.toNat - 55, (digitOf_iff_toNat (Nat.le_refl 16)).mpr (by split_ifs <;> omega)⟩
  · rintro ⟨d, hd⟩
    rw [digitOf_iff_toNat (Nat.le_refl 16)] at hd
    split_ifs at hd <;> omega

theorem isBody_iff : IsBody cs ↔ (!cs.isEmpty && cs.all isBodyChar) = true := by
  simp [IsBody, isBodyChar_iff]

theorem isBody_cons_iff : IsBody (c :: cs) ↔ (c :: cs).all isBodyChar := by simp [isBody_iff]

theorem Marked.radixBody?_eq (h : Marked cs radix body) : radixBody? cs = some (radix, body) := by
  obtain ⟨c, rfl, hmark, hbody⟩ := h
  simp only [radixBody?, mem_marks_iff.mp hmark, if_pos (isBody_iff.mp hbody)]

theorem Zeroed.radixBody?_eq (h : Zeroed cs body) (hmark : ∀ radix ds, ¬ Marked cs radix ds) :
    radixBody? cs = some (8, body) := by
  obtain ⟨rfl, hbody⟩ := h
  obtain ⟨c, ds, rfl⟩ := List.exists_cons_of_ne_nil hbody.1
  cases hc : markedRadix? c with
  | none => simp only [radixBody?, hc, if_pos (isBody_cons_iff.mp hbody)]
  | some radix =>
    have hds : ¬ IsBody ds := fun h => hmark radix ds ⟨c, rfl, mem_marks_iff.mpr hc, h⟩
    simp only [radixBody?, hc, if_neg (isBody_iff.not.mp hds), if_pos (isBody_cons_iff.mp hbody)]

theorem radixBody?_eq_none (hmark : ∀ radix ds, ¬ Marked cs radix ds) (hzero : ∀ ds, ¬ Zeroed cs ds) :
    radixBody? cs = none := by
  unfold radixBody?
  split
  next c ds =>
    have hbody : ¬ IsBody (c :: ds) := fun h => hzero (c :: ds) ⟨rfl, h⟩
    cases hc : markedRadix? c with
    | none => simp only [if_neg (isBody_cons_iff.not.mp hbody)]
    | some radix =>
      have hds : ¬ IsBody ds := fun h => hmark radix ds ⟨c, rfl, mem_marks_iff.mpr hc, h⟩
      simp only [if_neg (isBody_iff.not.mp hds), if_neg (isBody_cons_iff.not.mp hbody)]
  next => rfl

theorem exists_spelled (cs : List Char) : ∃ s, Spelled cs s := by
  by_cases hmark : ∃ radix body, Marked cs radix body
  · obtain ⟨radix, body, h⟩ := hmark
    exact ⟨_, .marked h⟩
  simp only [not_exists] at hmark
  by_cases hzero : ∃ body, Zeroed cs body
  · obtain ⟨body, h⟩ := hzero
    exact ⟨_, .octal h hmark⟩
  simp only [not_exists] at hzero
  by_cases hplus : ∃ ds, cs = '+' :: ds
  · obtain ⟨ds, h⟩ := hplus
    exact ⟨_, .plus h⟩
  by_cases hminus : ∃ ds, cs = '-' :: ds
  · obtain ⟨ds, h⟩ := hminus
    exact ⟨_, .minus h⟩
  exact ⟨_, .decimal hmark hzero (fun ds h => hplus ⟨ds, h⟩) fun ds h => hminus ⟨ds, h⟩⟩

theorem Spelled.eq_spelling (h : Spelled cs s) : s = spelling cs := by
  cases h with
  | marked h => simp only [spelling, h.radixBody?_eq]
  | octal h hmark => simp only [spelling, h.radixBody?_eq hmark]
  | plus h | minus h =>
    subst h
    rfl
  | decimal hmark hzero hplus hminus => simp only [spelling, radixBody?_eq_none hmark hzero]

/-- The spelling that is read off a text is the only one that it has. -/
theorem spelled_iff : Spelled cs s ↔ s = spelling cs := by
  refine ⟨Spelled.eq_spelling, ?_⟩
  rintro rfl
  obtain ⟨s, hs⟩ := exists_spelled cs
  rwa [← hs.eq_spelling]

theorem Spelled.radix_le (h : Spelled cs s) : s.radix ≤ 16 := by
  cases h with
  | @marked radix _ h =>
    obtain ⟨c, -, hmem, -⟩ := h
    show radix ≤ 16
    simp only [marks, List.mem_cons, Prod.mk.injEq, List.not_mem_nil, or_false] at hmem
    omega
  | octal | plus | minus | decimal => exact Nat.le_of_ble_eq_true rfl

/-! ### Values and errors -/

/-- The digits fail at the character `c` behind `front`: what stands before it denotes an integer of
64 bits, and `c` is no digit of the radix, or is the digit that leads out of the range, downwards
behind `-` and upwards otherwise. -/
def FailsAt (sign? : Option Sign) (radix : Nat) (front : List Char) (c : Char)
    (error : NumeralError) : Prop :=
  (∃ n, Denotes radix front n ∧ Fits (signed sign? n)) ∧
    ((∀ d, ¬ DigitOf radix c d) ∧ error = .invalidDigit ∨
      ∃ n, Denotes radix (front ++ [c]) n ∧ ¬ Fits (signed sign? n) ∧
        error = if sign? = some .minus then .tooSmall else .tooLarge)

theorem overflow_getD (sign? : Option Sign) :
    (sign?.getD .plus).overflow = if sign? = some .minus then .tooSmall else .tooLarge := by
  rcases sign? with _ | _ | _ <;> rfl

theorem toInt_ofInt_of_fits {v : Int} (h : Fits v) : (Int64.ofInt v).toInt = v := by
  unfold Fits at h
  exact Int64.toInt_ofInt_of_le (by omega) (by omega)

/-- A spelling has a value exactly if it shows digits that denote an integer of 64 bits. -/
theorem Spelling.exists_toInt_iff (hradix : s.radix ≤ 16) (v : Int) :
    (∃ w : Int64, s.value = .ok w ∧ w.toInt = v) ↔ s.digits ≠ [] ∧
      ∃ n, Denotes s.radix s.digits n ∧ v = signed s.sign? n ∧ Fits v := by
  simp only [value_eq_ok_iff, readDigits_eq_ok_iff hradix, ← fits_signed_iff, apply_getD]
  constructor
  · rintro ⟨w, ⟨hne, n, ⟨hn, hfits⟩, rfl⟩, rfl⟩
    rw [toInt_ofInt_of_fits hfits]
    exact ⟨hne, n, hn, rfl, hfits⟩
  · rintro ⟨hne, n, hn, rfl, hfits⟩
    exact ⟨_, ⟨hne, n, ⟨hn, hfits⟩, rfl⟩, toInt_ofInt_of_fits hfits⟩

theorem Spelling.value_eq_error_iff : s.value = .error error ↔
    s.digits = [] ∧ error = (if s.sign?.isSome then .invalidDigit else .empty) ∨
      readDigits (s.sign?.getD .plus) s.radix 0 s.digits = .error error := by
  obtain ⟨sign?, radix, digits⟩ := s
  cases digits with
  | nil => cases sign? <;> simp [value, readDigits, eq_comm]
  | cons c cs =>
    simp only [value]
    cases readDigits (sign?.getD .plus) radix 0 (c :: cs) <;> simp

theorem readDigits_eq_error_iff_failsAt (hradix : radix ≤ 16) (sign? : Option Sign) :
    readDigits (sign?.getD .plus) radix 0 cs = .error error ↔
      ∃ front c behind, cs = front ++ c :: behind ∧ FailsAt sign? radix front c error := by
  simp only [readDigits_eq_error_iff, readDigits_eq_ok_iff hradix, digitValue?_eq_none_iff hradix,
    digitValue?_eq_some_iff hradix, FailsAt, fits_signed_iff, overflow_getD, Nat.not_le]
  constructor
  · rintro ⟨front, c, behind, k, rfl, hk, hstop⟩
    refine ⟨front, c, behind, rfl, ⟨k, hk⟩, hstop.imp_right ?_⟩
    rintro ⟨d, hd, hlt, rfl⟩
    exact ⟨_, denotes_concat.mpr ⟨k, d, hk.1, hd, rfl⟩, hlt, rfl⟩
  · rintro ⟨front, c, behind, rfl, ⟨k, hk⟩, hstop⟩
    refine ⟨front, c, behind, k, rfl, hk, hstop.imp_right ?_⟩
    rintro ⟨m, hm, hlt, rfl⟩
    obtain ⟨n, d, hn, hd, rfl⟩ := denotes_concat.mp hm
    rw [hn.unique hradix hk.1] at hlt
    exact ⟨d, hd, hlt, rfl⟩

/-- Every text has one spelling. It is read to the integer that its digits denote, if there are any
and the integer has 64 bits; no digits are an error of their own, and otherwise the first character
that the digits fail at decides the error. -/
theorem read_eq_iff_spelled (text : String) :
    ∃ s : Spelling, (∀ s', Spelled text.toList s' ↔ s' = s) ∧
      (∀ v : Int, (∃ w : Int64, read text = .ok w ∧ w.toInt = v) ↔ s.digits ≠ [] ∧
        ∃ n, Denotes s.radix s.digits n ∧ v = signed s.sign? n ∧ Fits v) ∧
      ∀ error, read text = .error error ↔
        s.digits = [] ∧ error = (if s.sign?.isSome then .invalidDigit else .empty) ∨
        ∃ front c behind, s.digits = front ++ c :: behind ∧
          FailsAt s.sign? s.radix front c error := by
  have hradix := (spelled_iff.mpr rfl : Spelled text.toList (spelling text.toList)).radix_le
  refine ⟨spelling text.toList, fun s' => spelled_iff, ?_, ?_⟩
  · exact Spelling.exists_toInt_iff hradix
  · intro error
    rw [read, Spelling.value_eq_error_iff, readDigits_eq_error_iff_failsAt hradix]

-- The letter of `0b` is a digit of its body; that of `0b_` is a mark, and leaves no digits. The
-- range is left upwards and downwards, and an invalid digit behind that does not count any more.
example : read "0b" = .error .invalidDigit ∧ read "0b_" = .error .empty ∧
    read "-010" = .ok (-10) ∧ read "9223372036854775808" = .error .tooLarge ∧
    read "-9223372036854775809x" = .error .tooSmall := by
  decide

end ExprFront.Numeral
