import ExprFront.Numeral
import Mathlib.Data.List.Basic
import Mathlib.Tactic.IntervalCases

/-! Decimal numerals. The numeral that a 64-bit integer is written as is read back as that integer:
it has no leading zero, so that it is not taken for an octal one. A numeral of digits alone, in any
radix, is not negative. -/

namespace ExprFront.Numeral

theorem le_ofDigitChars (cs : List Char) (n : Nat) : n ≤ Nat.ofDigitChars 10 cs n := by
  induction cs generalizing n with
  | nil => simp
  | cons c cs ih =>
    rw [Nat.ofDigitChars_cons]
    exact Nat.le_trans (by omega) (ih _)

theorem digitValue?_of_isDigit {c : Char} (hc : c.isDigit) :
    digitValue? 10 c = some (c.toNat - '0'.toNat) := by
  have hlt : c.toNat - '0'.toNat < 10 := by
    have hle : c.toNat ≤ '9'.toNat := (Char.isDigit_iff_toNat.mp hc).2
    have h9 : '9'.toNat = 57 := rfl
    have h0 : '0'.toNat = 48 := rfl
    omega
  simp only [digitValue?, hc, if_true, if_pos hlt]

/-- Digits that stay within the limit are read to their value. -/
theorem readDigits_eq (sign : Sign) {cs : List Char} {n : Nat} (hcs : ∀ c ∈ cs, c.isDigit)
    (hle : Nat.ofDigitChars 10 cs n ≤ sign.limit) :
    readDigits sign 10 n cs = .ok (Nat.ofDigitChars 10 cs n) := by
  induction cs generalizing n with
  | nil => rfl
  | cons c cs ih =>
    rw [Nat.ofDigitChars_cons, Nat.mul_comm] at hle ⊢
    have hn := Nat.le_trans (le_ofDigitChars cs _) hle
    rw [readDigits, digitValue?_of_isDigit (hcs c (List.mem_cons_self ..))]
    simp only [if_pos hn]
    exact ih (fun d hd => hcs d (List.mem_cons_of_mem _ hd)) hle

theorem readDigits_toDigits (sign : Sign) {n : Nat} (hle : n ≤ sign.limit) :
    readDigits sign 10 0 (Nat.toDigits 10 n) = .ok n := by
  rw [readDigits_eq sign (fun c hc => Nat.isDigit_of_mem_toDigits (by decide) (by decide) hc)]
  · rw [Nat.ofDigitChars_ten_toDigits]
  · rwa [Nat.ofDigitChars_ten_toDigits]

theorem head?_toDigits_ne_zero {n : Nat} (hn : 0 < n) : (Nat.toDigits 10 n).head? ≠ some '0' := by
  induction n using Nat.strongRecOn with
  | ind n ih =>
    rw [Nat.toDigits_eq_if (by decide)]
    split
    next hlt => interval_cases n <;> decide
    next hge =>
      rw [List.head?_append]
      have hdiv := ih (n / 10) (by omega) (by omega)
      cases hhead : (Nat.toDigits 10 (n / 10)).head? with
      | none => exact absurd (List.head?_eq_none_iff.mp hhead) Nat.toDigits_ne_nil
      | some c => simpa [hhead] using hdiv

/-- A decimal numeral without a leading zero has no radix of its own. -/
theorem radixBody?_toDigits (n : Nat) : radixBody? (Nat.toDigits 10 n) = none := by
  by_cases hn : n = 0
  · subst hn
    rfl
  · have hhead := head?_toDigits_ne_zero (Nat.pos_of_ne_zero hn)
    unfold radixBody?
    split
    next heq => simp [heq] at hhead
    next => rfl

theorem spelling_toDigits (n : Nat) :
    spelling (Nat.toDigits 10 n) = ⟨none, 10, Nat.toDigits 10 n⟩ := by
  have hdigit : ∀ c ∈ Nat.toDigits 10 n, c.isDigit :=
    fun c hc => Nat.isDigit_of_mem_toDigits (by decide) (by decide) hc
  unfold spelling
  simp only [radixBody?_toDigits]
  split
  next heq => exact absurd (hdigit '+' (by simp [heq])) (by decide)
  next heq => exact absurd (hdigit '-' (by simp [heq])) (by decide)
  next => rfl

theorem spelling_minus_toDigits (n : Nat) :
    spelling ('-' :: Nat.toDigits 10 n) = ⟨some .minus, 10, Nat.toDigits 10 n⟩ := rfl

theorem value_toDigits {sign? : Option Sign} {n : Nat} (hle : n ≤ (sign?.getD .plus).limit) :
    (⟨sign?, 10, Nat.toDigits 10 n⟩ : Spelling).value =
      .ok (.ofInt ((sign?.getD .plus).apply n)) := by
  have hread := readDigits_toDigits _ hle
  obtain ⟨c, cs, hcs⟩ := List.exists_cons_of_ne_nil (Nat.toDigits_ne_nil (n := n) (b := 10))
  rw [hcs] at hread
  simp only [Spelling.value, hcs, hread]

theorem toList_toString_of_nonneg {i : Int} (h : 0 ≤ i) :
    (toString i).toList = Nat.toDigits 10 i.toNat := by
  rw [Int.toString_eq_repr, Int.repr_eq_if, if_pos h, Nat.toList_repr]

theorem toList_toString_of_neg {i : Int} (h : i < 0) :
    (toString i).toList = '-' :: Nat.toDigits 10 (-i).toNat := by
  rw [Int.toString_eq_repr, Int.repr_eq_if, if_neg (by omega), String.toList_append,
    Nat.toList_repr]
  rfl

/-- Every 64-bit integer is read back from its decimal numeral. -/
theorem read_toString (v : Int64) : read (toString v.toInt) = .ok v := by
  have hlt := v.toInt_lt
  have hge := v.le_toInt
  rw [read]
  rcases Int.lt_or_le v.toInt 0 with hneg | hpos
  · rw [toList_toString_of_neg hneg, spelling_minus_toDigits, value_toDigits]
    · have happly : Sign.minus.apply (-v.toInt).toNat = v.toInt := by
        simp only [Sign.apply]
        omega
      rw [Option.getD_some, happly, Int64.ofInt_toInt]
    · simp only [Option.getD_some, Sign.limit]
      omega
  · rw [toList_toString_of_nonneg hpos, spelling_toDigits, value_toDigits]
    · have happly : Sign.plus.apply v.toInt.toNat = v.toInt := by
        simp only [Sign.apply]
        omega
      rw [Option.getD_none, happly, Int64.ofInt_toInt]
    · simp only [Option.getD_none, Sign.limit]
      omega

/-! ### Digits alone -/

theorem le_limit_of_readDigits {sign : Sign} {radix n m : Nat} {cs : List Char}
    (h : readDigits sign radix n cs = .ok m) (hn : n ≤ sign.limit) : m ≤ sign.limit := by
  induction cs generalizing n with
  | nil => cases h; exact hn
  | cons c cs ih =>
    rw [readDigits] at h
    split at h
    next => cases h
    next d =>
      split at h
      next hle => exact ih h hle
      next => cases h

theorem sign?_spelling_of_isDigit {cs : List Char} (hcs : ∀ c ∈ cs, c.isDigit) :
    (spelling cs).sign? = none := by
  unfold spelling
  split
  · rfl
  · split
    next => exact absurd (hcs '+' (List.mem_cons_self ..)) (by decide)
    next => exact absurd (hcs '-' (List.mem_cons_self ..)) (by decide)
    next => rfl

/-- A numeral of digits alone is not negative. -/
theorem nonneg_of_read {text : String} {v : Int64} (hdigits : ∀ c ∈ text.toList, c.isDigit)
    (h : read text = .ok v) : 0 ≤ v.toInt := by
  have hsign := sign?_spelling_of_isDigit hdigits
  rw [read, Spelling.value, hsign] at h
  split at h
  next => cases h
  next => cases h
  next =>
    dsimp only at h
    split at h
    next n hread =>
      cases h
      have hle : n ≤ 0x7fffffffffffffff := le_limit_of_readDigits hread (Nat.zero_le _)
      rw [Int64.toInt_ofInt_of_le] <;> simp only [Option.getD_none, Sign.apply] <;> omega
    next => cases h

end ExprFront.Numeral
