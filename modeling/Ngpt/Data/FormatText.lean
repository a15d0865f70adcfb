import Ngpt.Data.Format
import Mathlib.Data.Nat.Digits.Lemmas

/-!
# ngpt — numbers and strings in formatted text (`fmtint` and `fmtstr`, `pth_string.c`)

What the two functions put into a buffer that has room for it. The digits of a number go to an array
of 20 characters whose last one is given up for a `NUL`; the field width and the precision of a
string are counted together.

Results: `fmtint_round_trip_iff` and `width_precision_iff`.
-/

namespace Ngpt.Format

open Function

/-- The characters in the buffer. -/
def Out.text (o : Out) : List Char := (List.range o.currlen).map o.buffer

variable {maxlen : Nat} {o : Out}

theorem outch_text (h : o.currlen < maxlen) (c : Char) :
    (doprOutch maxlen o c).text = o.text ++ [c] ∧
      (doprOutch maxlen o c).currlen = o.currlen + 1 := by
  simp only [doprOutch, if_pos h, Out.text, List.range_succ, List.map_append, List.map_cons,
    List.map_nil, update_self, and_true]
  congr 1
  refine List.map_congr_left fun i hi => update_of_ne ?_ _ _
  exact (List.mem_range.mp hi).ne

theorem puts_text (text : List Char) (h : o.currlen + text.length ≤ maxlen) :
    (puts maxlen o text).text = o.text ++ text ∧
      (puts maxlen o text).currlen = o.currlen + text.length := by
  induction text generalizing o with
  | nil => simp [puts]
  | cons c text ih =>
    rw [List.length_cons] at h
    obtain ⟨htext, hlen⟩ := @outch_text maxlen o (by omega) c
    obtain ⟨h₁, h₂⟩ := ih (o := doprOutch maxlen o c) (by omega)
    refine ⟨h₁.trans ?_, h₂.trans ?_⟩
    · simp [htext]
    · rw [hlen, List.length_cons]
      omega

/-- An `int` does not wrap. -/
theorem wrap_eq {n : Int} (hlow : -2 ^ 31 ≤ n) (hhigh : n < 2 ^ 31) : wrap 32 n = n := by
  unfold wrap
  rw [Int.bmod_eq_of_le] <;> omega

/-! ## Digits -/

/-- The digits of a number, the lowest first. -/
def digitsOf (base n : Nat) : List Nat := if n = 0 then [0] else Nat.digits base n

def digitChar (up : Bool) (d : Nat) : Char :=
  (if up then "0123456789ABCDEF" else "0123456789abcdef").toList.getD d '0'

theorem convert_eq {base : Nat} (hbase : 1 < base) (up : Bool) (room n : Nat) :
    convert base up room n = ((digitsOf base n).take room).map (digitChar up) := by
  induction room generalizing n with
  | zero => rfl
  | succ room ih =>
    rw [convert]
    by_cases hn : n = 0
    · simp [hn, digitsOf, digitChar]
    · have hdigits : digitsOf base n = n % base :: Nat.digits base (n / base) := by
        rw [digitsOf, if_neg hn, Nat.digits_def' hbase (Nat.pos_of_ne_zero hn)]
      rw [hdigits, List.take_succ_cons, List.map_cons]
      congr 1
      split
      case isTrue hz => simp [hz]
      case isFalse hz => rw [ih, digitsOf, if_neg hz]

theorem digitsOf_lt {base : Nat} (hbase : 1 < base) (n : Nat) :
    ∀ d ∈ digitsOf base n, d < base := by
  unfold digitsOf
  split
  · simp; omega
  · exact fun d => Nat.digits_lt_base hbase

theorem ofDigits_digitsOf (base n : Nat) : Nat.ofDigits base (digitsOf base n) = n := by
  unfold digitsOf
  split
  case isTrue hn => simp [hn]
  case isFalse => exact Nat.ofDigits_digits base n

/-- Reading a text in a base, with a sign. -/
def readBack (base : Nat) (text : List Char) : Int :=
  let value (ds : List Char) : Nat :=
    Nat.ofDigits base (ds.reverse.map ("0123456789abcdef".toList.idxOf ·))
  match text with
  | '-' :: ds => -value ds
  | ds => value ds

/-- `uvalue` and whether there is a `signvalue`. -/
def uvalueOf (flags : Flags) (value : Int) : Nat :=
  ((if !flags.unsigned && value < 0 then -value else value) % 2 ^ 64).toNat

def signOf (flags : Flags) (value : Int) : List Char :=
  if flags.unsigned then []
  else if value < 0 then ['-'] else if flags.plus then ['+'] else if flags.space then [' '] else []

theorem signOf_length (flags : Flags) (value : Int) : (signOf flags value).length ≤ 1 := by
  unfold signOf
  split_ifs <;> simp

/-- **The parts of a number**, for a width and a precision that are an `int`; one that is not given
is negative. -/
theorem intText_eq (value : Int) {base : Nat} (hbase : 1 < base) (flags : Flags) (min prec : Int)
    {p : Nat} (hmin : 0 ≤ min) (hmin' : min < 2 ^ 31) (hp : p < 2 ^ 31)
    (hprec : prec = p ∨ prec < 0 ∧ p = 0) :
    let digits := ((digitsOf base (uvalueOf flags value)).take 19).map (digitChar flags.up)
    let sign := signOf flags value
    let zpad := p - digits.length
    let spad := min.toNat - max p digits.length - sign.length
    let spaces := List.replicate (if flags.zero then 0 else spad) ' '
    intText value base min prec flags =
      (if flags.minus then [] else spaces) ++ sign ++
        List.replicate (if flags.zero then max zpad spad else zpad) '0' ++ digits.reverse ++
        if flags.minus then spaces else [] := by
  intro digits sign zpad spad spaces
  have hdigits : (convert base flags.up 20 (uvalueOf flags value)).take 19 = digits := by
    rw [convert_eq hbase, ← List.map_take, List.take_take]
    rfl
  have hplace : digits.length ≤ 19 := by simp [digits]
  have hsign : sign.length ≤ 1 := signOf_length flags value
  have hmax : (if prec < 0 then 0 else prec) = (p : Int) := by
    split <;> omega
  have hzpad : (wrap 32 (p - digits.length)).toNat = zpad := by
    rw [wrap_eq (by omega) (by omega)]
    omega
  have hspad : (wrap 32 (wrap 32 (min - if (p : Int) ≥ digits.length then (p : Int)
      else digits.length) - sign.length)).toNat = spad := by
    split <;> rw [wrap_eq (n := min - _) (by omega) (by omega), wrap_eq (by omega) (by omega)] <;>
      omega
  have hsignvalue : (if flags.unsigned then [] else if value < 0 then ['-']
      else if flags.plus then ['+'] else if flags.space then [' '] else []) = sign := rfl
  rw [uvalueOf] at hdigits
  simp only [intText, hmax, hdigits, hsignvalue, hzpad, hspad]
  cases hz : flags.zero <;> simp only [spaces, hz, if_true, Bool.false_eq_true, if_false]

theorem readBack_digits {base : Nat} (hbase : 1 < base) (hbase' : base ≤ 16) (n : Nat)
    (negative : Bool) :
    readBack base ((if negative then ['-'] else []) ++
      (((digitsOf base n).take 19).map (digitChar false)).reverse) =
        if negative then -((n % base ^ 19 : Nat) : Int) else (n % base ^ 19 : Nat) := by
  have hlt := digitsOf_lt hbase n
  have hchar : ∀ d < 16, "0123456789abcdef".toList.idxOf (digitChar false d) = d ∧
      digitChar false d ≠ '-' := by decide
  have hdigits : ∀ d ∈ (digitsOf base n).take 19, d < 16 := fun d hd =>
    (hlt d (List.mem_of_mem_take hd)).trans_le hbase'
  have hmap : (((digitsOf base n).take 19).map (digitChar false)).map
      ("0123456789abcdef".toList.idxOf ·) = (digitsOf base n).take 19 := by
    rw [List.map_map]
    exact (List.map_congr_left fun d hd => (hchar d (hdigits d hd)).1).trans (List.map_id' _)
  have hvalue : Nat.ofDigits base ((((digitsOf base n).take 19).map (digitChar false)).map
      ("0123456789abcdef".toList.idxOf ·)) = n % base ^ 19 := by
    rw [hmap, ← Nat.ofDigits_mod_pow_eq_ofDigits_take 19 (by omega) _ hlt, ofDigits_digitsOf]
  unfold readBack
  cases negative
  · split
    next ds hds =>
      have hmem : '-' ∈ ((digitsOf base n).take 19).map (digitChar false) := by
        rw [← List.mem_reverse]
        simp_all
      obtain ⟨d, hd, hminus⟩ := List.mem_map.mp hmem
      exact absurd hminus (hchar d (hdigits d hd)).2
    next => simp [← hvalue]
  · simp [← hvalue]

theorem uvalueOf_wrap (flags : Flags) {value : Int}
    (h : if flags.unsigned then 0 ≤ value ∧ value < 2 ^ 64 else -2 ^ 63 ≤ value ∧ value < 2 ^ 63) :
    uvalueOf flags (wrap 64 value) = value.natAbs := by
  unfold uvalueOf wrap
  split at h <;> simp [*, Int.bmod_def]
  all_goals split_ifs <;> omega

theorem signOf_wrap (unsigned : Bool) {value : Int}
    (h : if unsigned then 0 ≤ value ∧ value < 2 ^ 64 else -2 ^ 63 ≤ value ∧ value < 2 ^ 63) :
    signOf { unsigned := unsigned } (wrap 64 value) = if value < 0 then ['-'] else [] := by
  unfold signOf wrap
  split at h <;> simp [*, Int.bmod_def]
  all_goals split_ifs <;> first | rfl | omega

/-- The digits of a number are those of the value if there are no more than 19. -/
theorem fmtint_round_trip_iff (base : Nat) (unsigned : Bool) (value : Int)
    (hbase : base = 8 ∨ base = 10 ∨ base = 16) (hsigned : unsigned = false → base = 10)
    (hvalue : if unsigned then 0 ≤ value ∧ value < 2 ^ 64 else -2 ^ 63 ≤ value ∧ value < 2 ^ 63)
    (maxlen : Nat) (o : Out) (hroom : o.currlen + 20 ≤ maxlen) :
    ∃ text, (fmtint maxlen o (wrap 64 value) base 0 (-1) { unsigned := unsigned }).text =
        o.text ++ text ∧ (readBack base text = value ↔ value < base ^ 19) := by
  have hone : 1 < base := by omega
  have htext : intText (wrap 64 value) base 0 (-1) { unsigned := unsigned } =
      (if decide (value < 0) then ['-'] else []) ++
        (((digitsOf base value.natAbs).take 19).map (digitChar false)).reverse := by
    simpa [signOf_wrap unsigned hvalue, uvalueOf_wrap { unsigned := unsigned } hvalue] using
      intText_eq (wrap 64 value) hone { unsigned := unsigned } 0 (-1) (p := 0)
        (by omega) (by omega) (by omega) (by omega)
  refine ⟨_, (puts_text _ ?_).1, ?_⟩
  · rw [htext]
    split <;> simp <;> omega
  · rw [htext, readBack_digits hone (by omega)]
    have hlt := Nat.mod_lt value.natAbs (show 0 < base ^ 19 by positivity)
    have hmod := Nat.mod_eq_of_lt (a := value.natAbs) (b := base ^ 19)
    have hneg : value < 0 → value.natAbs < base ^ 19 := fun hneg => by
      have hten : base = 10 := by
        apply hsigned
        by_contra hu
        simp_all
        omega
      rw [hten]
      split at hvalue <;> omega
    rw [show ((base : Int) ^ 19) = ((base ^ 19 : Nat) : Int) by push_cast; rfl]
    generalize value.natAbs % base ^ 19 = low at *
    generalize base ^ 19 = bound at *
    by_cases hn : value < 0
    · simp only [hn, decide_true, if_true]
      have := hmod (hneg hn)
      omega
    · simp only [hn, decide_false, Bool.false_eq_true, if_false]
      refine ⟨fun h => by omega, fun h => ?_⟩
      have := hmod (by omega)
      omega

/-- The least value. -/
theorem fmtint_round_trip_least : ∃ text,
    (fmtint 64 ⟨fun _ => nul, 0⟩ (wrap 64 (-2 ^ 63)) 10 0 (-1) { unsigned := false }).text = text ∧
      readBack 10 text = -2 ^ 63 := by
  obtain ⟨text, htext, hiff⟩ := fmtint_round_trip_iff 10 false (-2 ^ 63) (by decide) (by decide)
    (by decide) 64 ⟨fun _ => nul, 0⟩ (by decide)
  exact ⟨text, htext, hiff.mpr (by norm_num)⟩

/-- The greatest unsigned value comes out without its first digit. -/
theorem fmtint_loses_digit :
    (fmtint 64 ⟨fun _ => nul, 0⟩ (wrap 64 (2 ^ 64 - 1)) 10 0 (-1) { unsigned := true }).text =
      "8446744073709551615".toList ∧
    readBack 10 "8446744073709551615".toList ≠ 2 ^ 64 - 1 := by
  decide +kernel

/-! ## Width and precision -/

/-- `text` in a field of `min` characters. -/
def field (minus : Bool) (min : Nat) (text : List Char) : List Char :=
  let pad := List.replicate (min - text.length) ' '
  if minus then text ++ pad else pad ++ text

theorem strText_eq (value : List Char) (flags : Flags) {min max : Nat} (hmin : min < 2 ^ 31)
    (hlen : value.length < 2 ^ 31) :
    strText (some value) flags min max = (field flags.minus min value).take max := by
  have hpad : (wrap 32 (min - wrap 32 value.length)).toNat = min - value.length := by
    rw [wrap_eq (n := value.length) (by omega) (by omega), wrap_eq (by omega) (by omega)]
    omega
  simp only [strText, Option.getD_some, hpad, Int.toNat_natCast, field]

theorem field_length (minus : Bool) (min : Nat) (text : List Char) :
    (field minus min text).length = max min text.length := by
  unfold field
  split <;> simp <;> omega

theorem field_of_le {minus : Bool} {min : Nat} {text : List Char} (h : min ≤ text.length) :
    field minus min text = text := by
  simp [field, Nat.sub_eq_zero_of_le h]

/-- The counter of `fmtstr` goes over the spaces too. -/
theorem strText_iff (value : List Char) (flags : Flags) {min max : Nat} (hmin : min < 2 ^ 31)
    (hlen : value.length < 2 ^ 31) :
    strText (some value) flags min max = field flags.minus min (value.take max) ↔ min ≤ max := by
  rw [strText_eq value flags hmin hlen]
  constructor
  · intro h
    have := congrArg List.length h
    simp only [List.length_take, field_length] at this
    omega
  · intro h
    by_cases hfit : value.length ≤ max
    · rw [List.take_of_length_le hfit, List.take_of_length_le]
      rw [field_length]
      omega
    · rw [field_of_le (by omega), field_of_le]
      rw [List.length_take]
      omega

theorem intText_length (value : Int) {base : Nat} (hbase : 1 < base) (flags : Flags)
    {width prec : Nat} (hwidth : width < 2 ^ 31) (hprec : prec < 2 ^ 31)
    (hdigits : (digitsOf base (uvalueOf flags value)).length ≤ 18) :
    let sign := (signOf flags value).length
    let digits := (digitsOf base (uvalueOf flags value)).length
    (intText value base width prec flags).length = sign + digits +
      if flags.zero then max (prec - digits) (width - max prec digits - sign)
      else prec - digits + (width - max prec digits - sign) := by
  rw [intText_eq value hbase flags width prec (by omega) (by omega) hprec (Or.inl rfl),
    List.take_of_length_le (by omega)]
  cases hm : flags.minus <;> cases hz : flags.zero <;> simp <;> omega

/-- **Width and precision.** The spaces of a string are counted against its precision, and with the
flag `0` the zeros of the width and of the precision are taken for the same. -/
theorem width_precision_iff (maxlen : Nat) (o : Out) (flags : Flags) (width prec : Nat)
    (hwidth : width < 2 ^ 31) (hprec : prec < 2 ^ 31) :
    (∀ value : List Char, value.length < 2 ^ 31 → o.currlen + width + value.length ≤ maxlen →
      ((fmtstr maxlen o (some value) flags width prec).text =
          o.text ++ field flags.minus width (value.take prec) ↔ width ≤ prec)) ∧
    (∀ (value : Int) (base : Nat), 1 < base →
      let sign := (signOf flags value).length
      let digits := (digitsOf base (uvalueOf flags value)).length
      digits ≤ 18 → o.currlen + sign + digits + width + prec ≤ maxlen →
      ((fmtint maxlen o value base width prec flags).currlen =
          o.currlen + max width (sign + max prec digits) ↔
        ¬ (flags.zero ∧ digits < prec ∧ sign + prec < width))) := by
  constructor
  · intro value hlen hroom
    have hfit : o.currlen + (strText (some value) flags width prec).length ≤ maxlen := by
      rw [strText_eq value flags hwidth hlen, List.length_take, field_length]
      omega
    rw [fmtstr, (puts_text _ hfit).1, List.append_cancel_left_eq,
      strText_iff value flags hwidth hlen]
  · intro value base hbase sign digits hdigits hroom
    have hlen := intText_length value hbase flags hwidth hprec hdigits
    have hfit : o.currlen + (intText value base width prec flags).length ≤ maxlen := by
      rw [hlen]
      split <;> omega
    rw [fmtint, (puts_text _ hfit).2, hlen]
    cases flags.zero <;> simp <;> omega

/-- The string `ab` and the number 42, each in a field of five. -/
theorem width_precision_five :
    (fmtstr 64 ⟨fun _ => nul, 0⟩ (some ['a', 'b']) {} 5 7).text = "   ab".toList ∧
      (fmtint 64 ⟨fun _ => nul, 0⟩ 42 10 5 7 {}).currlen = 7 := by
  obtain ⟨hstr, hint⟩ := width_precision_iff 64 ⟨fun _ => nul, 0⟩ {} 5 7 (by decide) (by decide)
  refine ⟨(hstr ['a', 'b'] (by decide) (by decide)).mpr (by decide), ?_⟩
  exact (hint 42 10 (by decide) (by decide) (by decide)).mpr (by decide)

/-- `%5.3s` of `hello` is not padded, and `%010.5d` of 42 has seven characters. -/
theorem width_precision_short :
    (fmtstr 64 ⟨fun _ => nul, 0⟩ (some "hello".toList) {} 5 3).text = "hel".toList ∧
      (fmtint 64 ⟨fun _ => nul, 0⟩ 42 10 10 5 { zero := true }).text = "0000042".toList := by
  decide +kernel

end Ngpt.Format
