import Mathlib.Data.List.Basic
import ExprFront.Session.Basic

/-! What a session writes, apart from where it writes to. The lines of a session decide a transcript:
the texts to be written, in order, and how the session ends once they are. A run delivers the
transcript to its sink. One without bound takes all of it; one with room for some bytes takes as many
of them as fit, and if they do not all fit the run ends there, whatever the lines behind would have
come to. -/

namespace ExprFront.Session

/-! ### Sinks -/

theorem toUTF8_join_cons (text : String) (texts : List String) :
    (String.join (text :: texts)).toUTF8 = text.toUTF8 ++ (String.join texts).toUTF8 := by
  rw [String.join_cons]
  exact String.toByteArray_append

theorem toUTF8_join_append (texts texts' : List String) :
    (String.join (texts ++ texts')).toUTF8 =
      (String.join texts).toUTF8 ++ (String.join texts').toUTF8 := by
  rw [String.join_append]
  exact String.toByteArray_append

namespace Sink

theorem extract_eq_self {bytes : ByteArray} {n : Nat} (h : bytes.size ≤ n) :
    bytes.extract 0 n = bytes := by
  apply ByteArray.ext
  rw [ByteArray.data_extract]
  exact Array.extract_eq_self_of_le h

theorem extract_append_of_le {bytes : ByteArray} {n : Nat} (h : n ≤ bytes.size)
    (more : ByteArray) : (bytes ++ more).extract 0 n = bytes.extract 0 n := by
  have hnone : more.extract (0 - bytes.size) (n - bytes.size) = .empty := by
    rw [ByteArray.extract_eq_empty_iff]
    omega
  rw [ByteArray.extract_append, hnone, ByteArray.append_empty]

/-- Without a bound everything is written. -/
theorem writeAll_unbounded (written : ByteArray) (texts : List String) :
    (⟨written, none⟩ : Sink).writeAll texts =
      (true, ⟨written ++ (String.join texts).toUTF8, none⟩) := by
  induction texts generalizing written with
  | nil => simp [writeAll]
  | cons text texts ih =>
    rw [toUTF8_join_cons, ← ByteArray.append_assoc]
    exact ih (written ++ text.toUTF8)

/-- With a bound the first bytes are written, as many as there is room for. -/
theorem writeAll_bounded {written : ByteArray} {n : Nat} (h : written.size ≤ n)
    (texts : List String) :
    (⟨written, some n⟩ : Sink).writeAll texts =
      (decide ((written ++ (String.join texts).toUTF8).size ≤ n),
        ⟨(written ++ (String.join texts).toUTF8).extract 0 n, some n⟩) := by
  induction texts generalizing written with
  | nil => simp [writeAll, extract_eq_self h, h]
  | cons text texts ih =>
    rw [writeAll, write, toUTF8_join_cons, ← ByteArray.append_assoc]
    dsimp only
    split_ifs with hfits
    · exact ih hfits
    · -- The sink is full within this text, so nothing of the others is written.
      have hfull : ¬ (written ++ text.toUTF8 ++ (String.join texts).toUTF8).size ≤ n := by
        rw [ByteArray.size_append]
        omega
      rw [extract_append_of_le (Nat.le_of_not_le hfits), decide_eq_false hfull]

end Sink

/-! ### Transcripts -/

/-- How a session over the lines ends, and the texts that it writes for them. -/
def transcript (mode : Mode) : List (List UInt8) → Option Failure × List String
  | [] => (none, [])
  | line :: lines =>
    match decode? line with
    | none => (some .invalidText, [])
    | some text => ((transcript mode lines).1, reply mode text ++ (transcript mode lines).2)

/-- Writes the texts; unless they do not fit, the session ends as given. -/
def Sink.deliver (s : Sink) (ending : Option Failure) (texts : List String) :
    Option Failure × Sink :=
  match s.writeAll texts with
  | (false, s) => (some .outputFull, s)
  | (true, s) => (ending, s)

theorem Sink.deliver_cons (s : Sink) (ending : Option Failure) (text : String)
    (texts : List String) :
    s.deliver ending (text :: texts) =
      if (s.write text).1 then (s.write text).2.deliver ending texts
      else (some .outputFull, (s.write text).2) := by
  rw [deliver, writeAll]
  rcases s.write text with ⟨_ | _, s'⟩ <;> rfl

theorem Sink.deliver_append (s : Sink) (ending : Option Failure) (texts texts' : List String) :
    s.deliver ending (texts ++ texts') =
      if (s.writeAll texts).1 then (s.writeAll texts).2.deliver ending texts'
      else (some .outputFull, (s.writeAll texts).2) := by
  induction texts generalizing s with
  | nil => rfl
  | cons text texts ih =>
    rw [List.cons_append, deliver_cons, writeAll]
    rcases s.write text with ⟨_ | _, s'⟩
    · rfl
    · exact ih s'

theorem runLines_eq_deliver (mode : Mode) (lines : List (List UInt8)) (s : Sink) :
    runLines mode lines s = s.deliver (transcript mode lines).1 (transcript mode lines).2 := by
  induction lines generalizing s with
  | nil => rfl
  | cons line lines ih =>
    rw [runLines, transcript]
    cases decode? line with
    | none => rfl
    | some text =>
      dsimp only
      rw [Sink.deliver_append]
      rcases s.writeAll (reply mode text) with ⟨_ | _, s'⟩
      · rfl
      · exact ih s'

/-- A run delivers the transcript of its lines, behind the first prompt. -/
theorem run_eq_deliver (mode : Mode) (input : List UInt8) (s : Sink) :
    run mode input s = s.deliver (transcript mode (lines input)).1
      (prompt :: (transcript mode (lines input)).2) := by
  rw [run, Sink.deliver_cons]
  rcases s.write prompt with ⟨_ | _, s'⟩
  · rfl
  · exact runLines_eq_deliver mode (lines input) s'

theorem run_unbounded (mode : Mode) (input : List UInt8) :
    run mode input .unbounded = ((transcript mode (lines input)).1,
      ⟨(String.join (prompt :: (transcript mode (lines input)).2)).toUTF8, none⟩) := by
  rw [run_eq_deliver, Sink.deliver, Sink.unbounded, Sink.writeAll_unbounded,
    ByteArray.empty_append]

/-- A run with room for only so many bytes writes as many of those that it would write without a
bound, and ends as that one does, unless some of them do not fit. -/
theorem run_bounded (mode : Mode) (input : List UInt8) (n : Nat) :
    (run mode input (.bounded n)).2.written =
      (run mode input .unbounded).2.written.extract 0
        (min n (run mode input .unbounded).2.written.size) ∧
    (run mode input (.bounded n)).1 =
      if n < (run mode input .unbounded).2.written.size then some .outputFull
      else (run mode input .unbounded).1 := by
  rw [run_unbounded, run_eq_deliver, Sink.deliver, Sink.bounded,
    Sink.writeAll_bounded (Nat.zero_le n), ByteArray.empty_append]
  generalize (String.join (prompt :: (transcript mode (lines input)).2)).toUTF8 = bytes
  by_cases hfits : bytes.size ≤ n
  · rw [decide_eq_true hfits, Nat.min_eq_right hfits, ByteArray.extract_zero_size,
      if_neg (Nat.not_lt.mpr hfits)]
    exact ⟨Sink.extract_eq_self hfits, rfl⟩
  · have hlt : n < bytes.size := Nat.lt_of_not_le hfits
    rw [decide_eq_false hfits, Nat.min_eq_left (Nat.le_of_lt hlt), if_pos hlt]
    exact ⟨rfl, rfl⟩

end ExprFront.Session
