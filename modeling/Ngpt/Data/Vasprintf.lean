import Ngpt.Data.FormatText

/-!
# ngpt — formatting into allocated memory (`pth_vasprintf`, `pth_string.c`)

The text is formatted twice, first without a buffer to count the characters. The size of that pass
is no `int`: a string without a precision gets it as its precision, which is then negative, and none
of its characters are counted.

Results: `vasprintf_iff`.
-/

namespace Ngpt.Format

open Function

/-- `pth_vasprintf` where `malloc` succeeds: the `n` characters before the last one. -/
def pthVasprintf (junk : Nat → Char) (fmt : List Char) (args : List Arg) : Option (List Char) :=
  (pthVsnprintf junk (2 ^ 32 - 1) fmt args).bind fun (_, n) =>
    (pthVsnprintf junk (n + 1).toNat fmt args).map fun (rv, r) => (List.range r.toNat).map rv

/-- A pass is at a string without a precision. -/
def Scan.AtString (s : Scan) : Prop :=
  s.state = .conv ∧ s.format.headD nul = 's' ∧ s.max < 0

/-- What it puts out with a precision. -/
def Scan.string (s : Scan) (max : Int) : List Char := strText (vaStr s.args).1 s.flags s.min max

/-- Characters of the string are lost if it is given a negative precision. -/
def Scan.Loses (maxlen : Nat) (s : Scan) : Prop :=
  s.AtString ∧ s.string (wrap 32 maxlen) ≠ []

variable {m m' : Nat}

/-- **Two conversions** that differ in the buffer and its size. -/
theorem convert_pair (s : Scan) (o' : Out) (ch : Char) :
    ∃ text text', (s.convert m ch).out = puts m s.out text ∧
      { s with out := o' }.convert m' ch = { s.convert m ch with out := puts m' o' text' } ∧
      (ch = 's' ∧ s.max < 0 ∧ text = s.string (wrap 32 m) ∧ text' = s.string (wrap 32 m') ∨
        ¬ (ch = 's' ∧ s.max < 0) ∧ text' = text) := by
  unfold Scan.convert
  dsimp only
  split
  case h_15 =>
    by_cases hmax : s.max < 0
    · refine ⟨_, _, rfl, rfl, Or.inl ⟨rfl, hmax, ?_, ?_⟩⟩ <;> simp [hmax, Scan.string]
    · refine ⟨_, _, rfl, rfl, Or.inr ⟨by simp [hmax], ?_⟩⟩
      simp [hmax]
  case h_18 hs _ _ => exact ⟨[], [], rfl, rfl, Or.inr ⟨fun h => hs h.1, rfl⟩⟩
  case h_14 | h_16 => exact ⟨[_], [_], rfl, rfl, Or.inr ⟨fun h => absurd h.1 (by decide), rfl⟩⟩
  all_goals first
    | exact ⟨_, _, rfl, rfl, Or.inr ⟨fun h => absurd h.1 (by decide), rfl⟩⟩
    | exact ⟨[], [], rfl, rfl, Or.inr ⟨fun h => absurd h.1 (by decide), rfl⟩⟩

/-- **Two passes of the loop**, neither of them with a full buffer. -/
theorem step_pair (s : Scan) (o' : Out) (h : s.out.currlen < m) (h' : o'.currlen < m') :
    ∃ text text', (s.step m).out = puts m s.out text ∧
      { s with out := o' }.step m' = { s.step m with out := puts m' o' text' } ∧
      (s.AtString ∧ text = s.string (wrap 32 m) ∧ text' = s.string (wrap 32 m') ∨
        ¬ s.AtString ∧ text' = text) := by
  by_cases hnul : s.format.headD nul = nul
  · have hno : ¬ s.AtString := fun hs => absurd (hnul.symm.trans hs.2.1) (by decide)
    simp only [Scan.step, hnul, true_or, if_true]
    exact ⟨[], [], rfl, rfl, Or.inr ⟨hno, rfl⟩⟩
  · have hstop : ¬ (s.format.headD nul = nul ∨ s.out.currlen ≥ m) :=
      not_or.mpr ⟨hnul, Nat.not_le.mpr h⟩
    have hstop' : ¬ (s.format.headD nul = nul ∨ o'.currlen ≥ m') :=
      not_or.mpr ⟨hnul, Nat.not_le.mpr h'⟩
    simp only [Scan.step, hstop, hstop', if_false]
    cases s with | _ state format args flags cflags min max out past
    cases state <;> dsimp only
    case conv =>
      obtain ⟨text, text', hout, hnext, hpair⟩ := @convert_pair m m'
        ⟨.conv, format, args, flags, cflags, min, max, out, past⟩ o' (format.headD nul)
      refine ⟨text, text', hout, ?_, ?_⟩
      · rw [hnext]
        rfl
      · simpa only [Scan.AtString, true_and, and_assoc] using hpair
    all_goals
      repeat' split
      all_goals first
        | exact ⟨[], [], rfl, rfl, Or.inr ⟨by simp [Scan.AtString], rfl⟩⟩
        | exact ⟨[_], [_], rfl, rfl, Or.inr ⟨by simp [Scan.AtString], rfl⟩⟩

theorem string_pair {s : Scan} {text text' : List Char} (hle : wrap 32 m' ≤ wrap 32 m)
    (h : s.AtString ∧ text = s.string (wrap 32 m) ∧ text' = s.string (wrap 32 m') ∨
      ¬ s.AtString ∧ text' = text) :
    text'.length ≤ text.length ∧ (¬ s.Loses m → text' = text) ∧
      (wrap 32 m' ≤ 0 → text'.length = text.length → ¬ s.Loses m) := by
  rcases h with ⟨hs, ht, ht'⟩ | ⟨hs, rfl⟩
  · have htake : s.string (wrap 32 m') = (s.string (wrap 32 m)).take (wrap 32 m').toNat := by
      have hmin : (wrap 32 m').toNat ≤ (wrap 32 m).toNat := Int.toNat_le_toNat hle
      rw [Scan.string, Scan.string, strText, strText, List.take_take, min_eq_left hmin]
    rw [ht', ht, htake]
    refine ⟨List.length_take_le' _ _, fun hno => ?_, fun hneg hlen hlost => ?_⟩
    · rw [not_not.mp fun h => hno ⟨hs, h⟩, List.take_nil]
    · rw [Int.toNat_of_nonpos hneg, List.take_zero, List.length_nil] at hlen
      exact hlost.2 (List.length_eq_zero_iff.mp hlen.symm)
  · exact ⟨le_rfl, fun _ => rfl, fun _ _ hlost => hs hlost.1⟩

theorem puts_currlen (o : Out) (text : List Char) :
    o.currlen ≤ (puts m o text).currlen ∧
      ((puts m o text).currlen < m → (puts m o text).currlen = o.currlen + text.length) := by
  induction text generalizing o with
  | nil => simp [puts]
  | cons c text ih =>
    obtain ⟨hmono, hlen⟩ := ih (doprOutch m o c)
    rw [show puts m o (c :: text) = puts m (doprOutch m o c) text from rfl, List.length_cons]
    by_cases h : o.currlen < m
    · have := (outch_text h c).2
      omega
    · rw [doprOutch, if_neg h] at *
      omega

theorem step_currlen (s : Scan) : s.out.currlen ≤ (s.step m).out.currlen := by
  by_cases hroom : s.out.currlen < m
  · obtain ⟨text, -, hout, -⟩ := step_pair s s.out hroom hroom
    rw [hout]
    exact (puts_currlen _ _).1
  · have hstop : s.format.headD nul = nul ∨ s.out.currlen ≥ m := Or.inr (Nat.not_lt.mp hroom)
    simp only [Scan.step, if_pos hstop, le_refl]

theorem dopr_done {s : Scan} (hdone : s.state = .done) (fuel : Nat) : dopr m fuel s = some s := by
  cases fuel <;> simp [dopr, hdone]

theorem dopr_currlen {s₁ : Scan} (fuel : Nat) (s : Scan) (hs : dopr m fuel s = some s₁) :
    s.out.currlen ≤ s₁.out.currlen := by
  induction fuel generalizing s with
  | zero =>
    obtain ⟨-, ⟨⟩⟩ := Option.ite_none_right_eq_some.mp hs
    exact le_rfl
  | succ fuel ih =>
    unfold dopr at hs
    split at hs
    · cases hs
      exact le_rfl
    · exact (step_currlen s).trans (ih _ hs)

/-- What a run from `s` puts into `o` and a run with another size into `o'`. -/
def Puts (m m' : Nat) (s : Scan) (o o' o₁ o₂ : Out) : Prop :=
  ∃ text text', o₁.text = o.text ++ text ∧ o₂.text = o'.text ++ text' ∧
    text'.length ≤ text.length ∧
    ((∀ n, ¬ ((Scan.step m)^[n] s).Loses m) → text' = text) ∧
    (wrap 32 m' ≤ 0 → text'.length = text.length → ∀ n, ¬ ((Scan.step m)^[n] s).Loses m)

theorem Puts.refl {s : Scan} (hdone : s.state = .done) (o o' : Out) : Puts m m' s o o' o o' := by
  refine ⟨[], [], by simp, by simp, le_rfl, fun _ => rfl, fun _ _ n h => ?_⟩
  rw [iterate_fixed (step_done hdone)] at h
  exact absurd (hdone.symm.trans h.1.1) (by decide)

/-- **Two runs.** The second one has the room that the first one needs. -/
theorem dopr_pair {s₁ : Scan} (hle : wrap 32 m' ≤ wrap 32 m) (hroom : s₁.out.currlen < m)
    (hroom' : s₁.out.currlen < m') (fuel : Nat) (s : Scan) (o' : Out)
    (hs : dopr m fuel s = some s₁) (ho : o'.currlen ≤ s.out.currlen) :
    ∃ s₂, dopr m' fuel { s with out := o' } = some s₂ ∧
      Puts m m' s s.out o' s₁.out s₂.out := by
  induction fuel generalizing s o' with
  | zero =>
    obtain ⟨hdone, ⟨⟩⟩ := Option.ite_none_right_eq_some.mp hs
    exact ⟨_, dopr_done (s := { s₁ with out := o' }) hdone _, Puts.refl hdone _ _⟩
  | succ fuel ih =>
    by_cases hdone : s.state = .done
    · cases (dopr_done hdone _).symm.trans hs
      exact ⟨_, dopr_done (s := { s₁ with out := o' }) hdone _, Puts.refl hdone _ _⟩
    · rw [dopr, if_neg hdone] at hs ⊢
      have hmono := step_currlen (m := m) s
      have hmono' := dopr_currlen _ _ hs
      obtain ⟨text, text', hout, hstep, hpair⟩ := @step_pair m m' s o' (by omega) (by omega)
      obtain ⟨hshort, hsame, hlost⟩ := string_pair hle hpair
      have hlen : (s.step m).out.currlen = s.out.currlen + text.length := by
        rw [hout] at hmono' ⊢
        exact (puts_currlen s.out text).2 (by omega)
      obtain ⟨htext, -⟩ := @puts_text m s.out text (by omega)
      obtain ⟨htext', hlen'⟩ := @puts_text m' o' text' (by omega)
      obtain ⟨s₂, hs₂, rest, rest', hrest, hrest', hle', hsame', hlost'⟩ :=
        ih (s.step m) (puts m' o' text') hs (by omega)
      rw [hstep]
      refine ⟨s₂, hs₂, text ++ rest, text' ++ rest', ?_, ?_, ?_, fun hno => ?_, fun hneg heq => ?_⟩
      · rw [hrest, hout, htext, List.append_assoc]
      · rw [hrest', htext', List.append_assoc]
      · simp only [List.length_append]
        omega
      · rw [hsame (hno 0), hsame' fun n => hno (n + 1)]
      · simp only [List.length_append] at heq
        exact Nat.and_forall_add_one.mp ⟨hlost hneg (by omega), hlost' hneg (by omega)⟩

/-- The scan at the beginning of a format. -/
def start (str : Nat → Char) (fmt : List Char) (args : List Arg) : Scan :=
  { format := fmt, args := args, out := ⟨update str 0 nul, 0⟩ }

variable {str : Nat → Char} {fmt : List Char} {args : List Arg}

theorem vsnprintf_text {s : Scan} (count : Nat)
    (hmaxlen : (if count = 2 ^ 32 - 1 then 2 ^ 32 - 1 - 2 ^ 30 else count) = m)
    (hs : dopr m (passes fmt) (start str fmt args) = some s) (hroom : s.out.currlen < m)
    (hint : s.out.currlen < 2 ^ 31) :
    ∃ buffer, pthVsnprintf str count fmt args = some (buffer, (s.out.currlen : Int)) ∧
      (List.range s.out.currlen).map buffer = s.out.text := by
  have hcurrlen : (if s.out.currlen ≥ m - 1 then m - 1 else s.out.currlen) = s.out.currlen := by
    split <;> omega
  have hwrap := wrap_eq (n := s.out.currlen) (by omega) (by omega)
  refine ⟨update s.out.buffer s.out.currlen nul, ?_, ?_⟩
  · unfold start at hs
    simp only [pthVsnprintf, hmaxlen, hs, Option.map_some, Unsigned.decr_of_pos (by omega : 0 < m),
      hcurrlen, hwrap]
  · refine List.map_congr_left fun i hi => update_of_ne ?_ _ _
    exact (List.mem_range.mp hi).ne

theorem vsnprintf_lt {count : Nat} (hpos : 0 < count) (hcount : count < 2 ^ 31)
    {buffer : Nat → Char} {r : Int} (h : pthVsnprintf str count fmt args = some (buffer, r)) :
    r.toNat < count := by
  unfold pthVsnprintf at h
  dsimp only at h
  rw [if_neg (by omega : ¬ count = 2 ^ 32 - 1)] at h
  obtain ⟨s, -, hs⟩ := Option.map_eq_some_iff.mp h
  rw [Prod.mk.injEq] at hs
  rw [← hs.2, Unsigned.decr_of_pos hpos]
  split <;> rw [wrap_eq (by omega) (by omega)] <;> omega

theorem text_length (o : Out) : o.text.length = o.currlen := by
  simp [Out.text]

theorem dopr_again {s₁ : Scan} (hle : wrap 32 m' ≤ wrap 32 m) (hroom : s₁.out.currlen < m)
    (hroom' : s₁.out.currlen < m') (hs : dopr m (passes fmt) (start str fmt args) = some s₁) :
    ∃ s₂, dopr m' (passes fmt) (start str fmt args) = some s₂ ∧
      s₂.out.currlen ≤ s₁.out.currlen ∧
      ((∀ n, ¬ ((Scan.step m)^[n] (start str fmt args)).Loses m) → s₂.out.text = s₁.out.text) ∧
      (wrap 32 m' ≤ 0 → s₂.out.currlen = s₁.out.currlen →
        ∀ n, ¬ ((Scan.step m)^[n] (start str fmt args)).Loses m) := by
  obtain ⟨s₂, hs₂, text, text', htext, htext', hlen, hsame, hlost⟩ :=
    dopr_pair hle hroom hroom' _ _ (start str fmt args).out hs le_rfl
  change s₁.out.text = text at htext
  change s₂.out.text = text' at htext'
  rw [← htext, ← htext', text_length, text_length] at hlen hlost
  exact ⟨s₂, hs₂, hlen, fun hno => htext'.trans ((hsame hno).trans htext.symm), hlost⟩

/-- **The two passes agree** if no string without a precision has a character to put out. -/
theorem vasprintf_iff (str : Nat → Char) (count : Nat) (fmt : List Char) (args : List Arg)
    (hcount : count < 2 ^ 31) (s : Scan)
    (hs : dopr count (passes fmt) (start str fmt args) = some s) (hroom : s.out.currlen < count)
    (hshort : s.out.currlen < 2 ^ 30) :
    (∃ buffer, pthVsnprintf str count fmt args = some (buffer, (s.out.currlen : Int)) ∧
      (List.range s.out.currlen).map buffer = s.out.text) ∧
    (pthVasprintf str fmt args = some s.out.text ↔
      ∀ n, ¬ ((Scan.step count)^[n] (start str fmt args)).Loses count) := by
  refine ⟨vsnprintf_text count (if_neg (by omega)) hs hroom (by omega), ?_⟩
  have hwrap := wrap_eq (n := count) (by omega) (by omega)
  have hneg : wrap 32 ((2 ^ 32 - 1 - 2 ^ 30 : Nat) : Int) ≤ 0 := by decide
  obtain ⟨s₂, hs₂, hle, hsame, hlost⟩ := dopr_again (hneg.trans (by omega)) hroom (by omega) hs
  obtain ⟨_, hn, -⟩ := vsnprintf_text (2 ^ 32 - 1) (if_pos rfl) hs₂ (by omega) (by omega)
  have hsize : ((s₂.out.currlen : Int) + 1).toNat = s₂.out.currlen + 1 := by omega
  have hlen := text_length s.out
  rw [pthVasprintf, hn, Option.bind_some]
  dsimp only
  rw [hsize, Option.map_eq_some_iff]
  constructor
  · rintro ⟨⟨rv, r⟩, hr, hrv⟩
    -- the second pass has room for what has been counted
    have hlt := vsnprintf_lt (by omega) (by omega) hr
    rw [← hrv, List.length_map, List.length_range] at hlen
    exact hlost hneg (by omega)
  · intro hno
    have heq : s₂.out.currlen = s.out.currlen := by
      rw [← text_length, ← text_length, hsame hno]
    have hprec : wrap 32 (s₂.out.currlen + 1 : Nat) ≤ wrap 32 count := by
      rw [wrap_eq (by omega) (by omega)]
      omega
    obtain ⟨s₃, hs₃, hle₃, hsame₃, -⟩ := dopr_again hprec hroom (by omega) hs
    obtain ⟨rv, hr, hrv⟩ := vsnprintf_text (s₂.out.currlen + 1) (if_neg (by omega)) hs₃ (by omega)
      (by omega)
    exact ⟨_, hr, hrv.trans (hsame₃ hno)⟩

/-- The format `%d-%.1s`, in which the string has a precision. -/
theorem vasprintf_precision :
    ¬ ∃ n, ((Scan.step 8)^[n] (start (fun _ => nul) "%d-%.1s".toList
      [.int 7, .str (some "xy".toList)])).Loses 8 := by
  generalize hs : dopr 8 (passes "%d-%.1s".toList) (start (fun _ => nul) "%d-%.1s".toList
    [.int 7, .str (some "xy".toList)]) = s
  have hout : s.map (·.out.text) = some "7-x".toList := by
    rw [← hs]
    decide +kernel
  obtain ⟨s, rfl, htext⟩ := Option.map_eq_some_iff.mp hout
  have hlen : s.out.currlen = 3 := by
    rw [← text_length, htext]
    rfl
  refine not_exists.mpr ((vasprintf_iff _ 8 _ _ (by decide) s hs (by omega) (by omega)).2.mp ?_)
  rw [htext]
  decide +kernel

/-- The format `%s` gives an empty string. -/
theorem vasprintf_loses :
    pthVasprintf (fun _ => nul) "%s".toList [.str (some "abc".toList)] = some [] ∧
      (pthVsnprintf (fun _ => nul) 8 "%s".toList [.str (some "abc".toList)]).map Prod.snd =
        some 3 := by
  decide +kernel

end Ngpt.Format
