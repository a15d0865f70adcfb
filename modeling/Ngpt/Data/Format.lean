import Mathlib.Algebra.Ring.Int.Defs
import Mathlib.Logic.Function.Basic
import Ngpt.Lib.Unsigned

/-!
# ngpt — bounded formatting (`pth_vsnprintf`, `pth_string.c`)

`dopr` scans the format in seven states and puts every character through `dopr_outch`, which
drops it when the buffer is full. The format is the list of its characters from `ch` on; the
types have the widths of the i386 and wrap around. A floating-point argument is the text that
`fmtfp` puts out of it, and what `%n` stores is left out. Not in the code: `past`, that a byte after
the `NUL` has been read; what the code would do with that byte is left out, the scan ends.

Results: `vsnprintf_bounded` and `dopr_reads_iff`.
-/

namespace Ngpt.Format

open Function

/-- `NUL`. -/
def nul : Char := '\x00'

/-- The states `DP_S_DEFAULT` to `DP_S_DONE`. -/
inductive Dps where
  | default | flags | min | dot | max | mod | conv | done
deriving DecidableEq, Repr

/-- The bits `DP_F_MINUS` to `DP_F_UNSIGNED`. -/
structure Flags where
  minus    : Bool := false
  plus     : Bool := false
  space    : Bool := false
  num      : Bool := false
  zero     : Bool := false
  up       : Bool := false
  unsigned : Bool := false

/-- `cflags`: 0 and `DP_C_SHORT` to `DP_C_LLONG`. -/
inductive Cflags where
  | none | short | long | ldouble | llong
deriving DecidableEq, Repr

/-- An argument: a number, a string (`none` is `NULL`), or a floating-point number. -/
inductive Arg where
  | int (n : Int)
  | str (value : Option (List Char))
  | dbl (fmtfp : Flags → Int → Int → List Char)

/-- The buffer and `currlen`. -/
structure Out where
  buffer  : Nat → Char
  currlen : Nat

def doprOutch (maxlen : Nat) (o : Out) (c : Char) : Out :=
  if o.currlen < maxlen then ⟨update o.buffer o.currlen c, o.currlen + 1⟩ else o

def puts (maxlen : Nat) (o : Out) (text : List Char) : Out := text.foldl (doprOutch maxlen) o

/-- A signed value of `bits` bits. -/
def wrap (bits : Nat) (n : Int) : Int := n.bmod (2 ^ bits)

/-- What `fmtstr` puts out. Its three loops share the counter `cnt`, which stops at `max`. -/
def strText (value : Option (List Char)) (flags : Flags) (min max : Int) : List Char :=
  let value := value.getD "<NULL>".toList
  let padlen := List.replicate (wrap 32 (min - wrap 32 value.length)).toNat ' '
  let text := if flags.minus then value ++ padlen else padlen ++ value
  text.take max.toNat

def fmtstr (maxlen : Nat) (o : Out) (value : Option (List Char)) (flags : Flags) (min max : Int) :
    Out :=
  puts maxlen o (strText value flags min max)

/-- The digits in `convert`, of which there is room for 20. -/
def convert (base : Nat) (up : Bool) : Nat → Nat → List Char
  | 0, _ => []
  | room + 1, uvalue =>
    let digit := (if up then "0123456789ABCDEF" else "0123456789abcdef").toList.getD
      (uvalue % base) '0'
    digit :: if uvalue / base = 0 then [] else convert base up room (uvalue / base)

/-- What `fmtint` puts out. -/
def intText (value : Int) (base : Nat) (min max : Int) (flags : Flags) : List Char :=
  let max := if max < 0 then 0 else max
  let signvalue : List Char :=
    if flags.unsigned then []
    else if value < 0 then ['-'] else if flags.plus then ['+']
    else if flags.space then [' '] else []
  let uvalue := (if !flags.unsigned && value < 0 then -value else value) % 2 ^ 64
  -- the last of 20 digits is overwritten by the end of the string
  let digits := (convert base flags.up 20 uvalue.toNat).take 19
  let place : Int := digits.length
  let zpadlen := (wrap 32 (max - place)).toNat
  let spadlen := (wrap 32 (wrap 32 (min - if max ≥ place then max else place) -
    signvalue.length)).toNat
  let (zpadlen, spadlen) := if flags.zero then (Nat.max zpadlen spadlen, 0) else (zpadlen, spadlen)
  let spaces := List.replicate spadlen ' '
  (if flags.minus then [] else spaces) ++ signvalue ++ List.replicate zpadlen '0' ++
    digits.reverse ++ if flags.minus then spaces else []

def fmtint (maxlen : Nat) (o : Out) (value : Int) (base : Nat) (min max : Int) (flags : Flags) :
    Out :=
  puts maxlen o (intText value base min max flags)

/-- The local variables of `dopr`. -/
structure Scan where
  state  : Dps := .default
  format : List Char
  args   : List Arg
  flags  : Flags := {}
  cflags : Cflags := .none
  min    : Int := 0
  max    : Int := -1
  out    : Out
  past   : Bool := false

/-- `va_arg` for the three kinds of arguments. -/
def vaInt : List Arg → Int × List Arg
  | .int n :: args => (n, args)
  | _ :: args => (0, args)
  | [] => (0, [])

def vaStr : List Arg → Option (List Char) × List Arg
  | .str value :: args => (value, args)
  | _ :: args => (none, args)
  | [] => (none, [])

def vaDbl : List Arg → (Flags → Int → Int → List Char) × List Arg
  | .dbl fmtfp :: args => (fmtfp, args)
  | _ :: args => (fun _ _ _ => [], args)
  | [] => (fun _ _ _ => [], [])

/-- `value` of the conversions `d` and `i`, and of `x`, `o` and `u`. -/
def signedValue (cflags : Cflags) (n : Int) : Int :=
  match cflags with
  | .short => wrap 16 n
  | .llong => wrap 64 n
  | _ => wrap 32 n

def unsignedValue (cflags : Cflags) (n : Int) : Int :=
  match cflags with
  | .short => n % 2 ^ 16
  | .llong => wrap 64 n
  | _ => n % 2 ^ 32

/-- `ch = *format++`. -/
def Scan.next (s : Scan) : Scan :=
  { s with format := s.format.tail, past := s.past || s.format.isEmpty }

/-- The state `DP_S_CONV` up to the next character. -/
def Scan.convert (maxlen : Nat) (s : Scan) (ch : Char) : Scan :=
  let (n, args) := vaInt s.args
  let number (value : Int) (base : Nat) (flags : Flags) : Scan :=
    { s with args := args, out := fmtint maxlen s.out value base s.min s.max flags }
  let unsigned := { s.flags with unsigned := true }
  match ch with
  | 'd' | 'i' => number (signedValue s.cflags n) 10 s.flags
  | 'X' => number (unsignedValue s.cflags n) 16 { unsigned with up := true }
  | 'x' => number (unsignedValue s.cflags n) 16 unsigned
  | 'o' => number (unsignedValue s.cflags n) 8 unsigned
  | 'u' => number (unsignedValue s.cflags n) 10 unsigned
  | 'p' => number (wrap 32 n) 16 unsigned
  | 'f' =>
    let (fmtfp, args) := vaDbl s.args
    { s with args := args, out := puts maxlen s.out (fmtfp s.flags s.min s.max) }
  | 'e' | 'E' | 'g' | 'G' | 'n' => { s with args := args }
  | 'c' =>
    { s with args := args, out := doprOutch maxlen s.out (Char.ofNat (n % 256).toNat) }
  | 's' =>
    let (value, args) := vaStr s.args
    let max := if s.max < 0 then wrap 32 maxlen else s.max
    { s with args := args, out := fmtstr maxlen s.out value s.flags s.min max }
  | '%' => { s with out := doprOutch maxlen s.out ch }
  | 'w' => s.next
  | _ => s

/-- The body of the loop of `dopr`. -/
def Scan.step (maxlen : Nat) (s : Scan) : Scan :=
  let ch := s.format.headD nul
  let digit : Int := ch.toNat - '0'.toNat
  match if ch = nul ∨ s.out.currlen ≥ maxlen then .done else s.state with
  | .default =>
    if ch = '%' then { s.next with state := .flags }
    else { s.next with out := doprOutch maxlen s.out ch }
  | .flags =>
    match ch with
    | '-' => { s.next with flags := { s.flags with minus := true } }
    | '+' => { s.next with flags := { s.flags with plus := true } }
    | ' ' => { s.next with flags := { s.flags with space := true } }
    | '#' => { s.next with flags := { s.flags with num := true } }
    | '0' => { s.next with flags := { s.flags with zero := true } }
    | _ => { s with state := .min }
  | .min =>
    if ch.isDigit then { s.next with min := wrap 32 (10 * s.min + digit) }
    else if ch = '*' then
      { s.next with min := wrap 32 (vaInt s.args).1, args := (vaInt s.args).2, state := .dot }
    else { s with state := .dot }
  | .dot => if ch = '.' then { s.next with state := .max } else { s with state := .mod }
  | .max =>
    if ch.isDigit then
      { s.next with max := wrap 32 (10 * (if s.max < 0 then 0 else s.max) + digit) }
    else if ch = '*' then
      { s.next with max := wrap 32 (vaInt s.args).1, args := (vaInt s.args).2, state := .mod }
    else { s with state := .mod }
  | .mod =>
    match ch with
    | 'h' => { s.next with cflags := .short, state := .conv }
    | 'l' =>
      if s.format.tail.headD nul = 'l' then
        { s.next.next with cflags := .llong, state := .conv }
      else { s.next with cflags := .long, state := .conv }
    | 'q' => { s.next with cflags := .llong, state := .conv }
    | 'L' => { s.next with cflags := .ldouble, state := .conv }
    | _ => { s with state := .conv }
  | .conv =>
    let s := (s.convert maxlen ch).next
    { format := s.format, args := s.args, out := s.out, past := s.past }
  | .done => { s with state := .done }

/-- The loop; `none` if it has not ended. -/
def dopr (maxlen : Nat) : Nat → Scan → Option Scan
  | 0, s => if s.state = .done then some s else none
  | fuel + 1, s => if s.state = .done then some s else dopr maxlen fuel (s.step maxlen)

/-- An upper bound for the passes of the loop. -/
def passes (format : List Char) : Nat := 8 * format.length + 8

/-- `pth_vsnprintf`: the buffer, and what is returned. -/
def pthVsnprintf (str : Nat → Char) (count : Nat) (fmt : List Char) (args : List Arg) :
    Option ((Nat → Char) × Int) :=
  let maxlen := if count = 2 ^ 32 - 1 then 2 ^ 32 - 1 - 2 ^ 30 else count
  let s : Scan := { format := fmt, args := args, out := ⟨update str 0 nul, 0⟩ }
  (dopr maxlen (passes fmt) s).map fun s =>
    let last := Unsigned.decr maxlen
    let currlen := if s.out.currlen ≥ last then last else s.out.currlen
    (update s.out.buffer currlen nul, wrap 32 currlen)

/-- No more than `maxlen` characters, and nothing written behind them. -/
structure Within (str : Nat → Char) (maxlen : Nat) (o : Out) : Prop where
  currlen : o.currlen ≤ maxlen
  behind  : ∀ i, maxlen ≤ i → o.buffer i = str i

variable {str : Nat → Char} {maxlen : Nat} {o : Out} {s : Scan}

theorem Within.outch (h : Within str maxlen o) (c : Char) :
    Within str maxlen (doprOutch maxlen o c) := by
  unfold doprOutch
  split
  next hlt =>
    refine ⟨hlt, fun i hi => ?_⟩
    have hne : i ≠ o.currlen := by omega
    exact (update_of_ne hne _ _).trans (h.behind i hi)
  next => exact h

theorem Within.puts (h : Within str maxlen o) (text : List Char) :
    Within str maxlen (puts maxlen o text) := by
  induction text generalizing o with
  | nil => exact h
  | cons c text ih => exact ih (h.outch c)

theorem Within.convert (h : Within str maxlen s.out) (ch : Char) :
    Within str maxlen (s.convert maxlen ch).out := by
  unfold Scan.convert
  dsimp only
  split
  all_goals first | exact h | exact h.outch _ | exact h.puts _

theorem Within.step (h : Within str maxlen s.out) : Within str maxlen (s.step maxlen).out := by
  unfold Scan.step
  dsimp only
  repeat' split
  all_goals first | exact h | exact h.outch _ | exact h.convert _

/-- How many states are left. -/
def Dps.left : Dps → Nat
  | .default => 7
  | .flags => 6
  | .min => 5
  | .dot => 4
  | .max => 3
  | .mod => 2
  | .conv => 1
  | .done => 0

/-- Each pass takes a character or goes to a later state. -/
def Scan.rank (s : Scan) : Nat := 8 * s.format.length + s.state.left

theorem convert_format (ch : Char) :
    (s.convert maxlen ch).format = if ch = 'w' then s.format.tail else s.format := by
  unfold Scan.convert
  dsimp only
  split <;> simp_all [Scan.next]

theorem convert_past (ch : Char) :
    (s.convert maxlen ch).past = (s.past || decide (ch = 'w') && s.format.isEmpty) := by
  unfold Scan.convert
  dsimp only
  split <;> simp_all [Scan.next]

theorem step_rank (maxlen : Nat) (h : s.state ≠ .done) : (s.step maxlen).rank < s.rank := by
  by_cases hstop : s.format.headD nul = nul ∨ s.out.currlen ≥ maxlen
  · have hleft : 0 < s.state.left := by
      cases hs : s.state <;> simp_all [Dps.left]
    simp only [Scan.step, if_pos hstop, Scan.rank]
    exact Nat.lt_add_of_pos_right hleft
  · have hlen : s.format.tail.length + 1 = s.format.length := by
      cases hf : s.format with
      | nil => simp [hf] at hstop
      | cons c format => rfl
    have htail : s.format.tail.tail.length ≤ s.format.tail.length := by simp
    simp only [Scan.step, hstop, if_false]
    cases hs : s.state <;> dsimp only
    case done => exact absurd hs h
    case conv =>
      simp only [Scan.rank, Scan.next, convert_format, Dps.left, hs]
      split <;> omega
    all_goals
      repeat' split
      all_goals simp only [Scan.rank, Scan.next, Dps.left, hs]; omega

theorem dopr_ends (fuel : Nat) (s : Scan) (hfuel : s.rank ≤ fuel)
    (h : Within str maxlen s.out) :
    ∃ s', dopr maxlen fuel s = some s' ∧ Within str maxlen s'.out := by
  induction fuel generalizing s with
  | zero =>
    have hdone : s.state = .done := by
      by_contra hs
      exact absurd (step_rank maxlen hs) (by omega)
    exact ⟨s, by simp [dopr, hdone], h⟩
  | succ fuel ih =>
    by_cases hdone : s.state = .done
    · exact ⟨s, by simp [dopr, hdone], h⟩
    · have hrank := step_rank maxlen hdone
      rw [dopr, if_neg hdone]
      exact ih _ (by omega) h.step

/-- The text ends in the buffer, and nothing is written behind it. -/
theorem vsnprintf_bounded (str : Nat → Char) (count : Nat) (fmt : List Char) (args : List Arg)
    (hpos : 1 ≤ count) (hmax : count ≤ 2 ^ 31 - 1) :
    ∃ buffer r, pthVsnprintf str count fmt args = some (buffer, r) ∧
      (∀ i, count ≤ i → buffer i = str i) ∧ 0 ≤ r ∧ r < count ∧ buffer r.toNat = nul := by
  have hmaxlen : (if count = 2 ^ 32 - 1 then 2 ^ 32 - 1 - 2 ^ 30 else count) = count :=
    if_neg (by omega)
  have hstart : Within str count ⟨update str 0 nul, 0⟩ := by
    refine ⟨Nat.zero_le _, fun i hi => update_of_ne ?_ _ _⟩
    omega
  obtain ⟨s, hs, hwithin⟩ := dopr_ends (passes fmt) { format := fmt, args := args, out := _ }
    (by simp [Scan.rank, passes, Dps.left]) hstart
  simp only [pthVsnprintf, hmaxlen, hs, Option.map_some, Unsigned.decr_of_pos hpos]
  generalize hr : (if s.out.currlen ≥ count - 1 then count - 1 else s.out.currlen) = r
  have hlt : r < count := by
    rw [← hr]
    split <;> omega
  have hwrap : wrap 32 r = r := by
    unfold wrap
    rw [Int.bmod_eq_of_le] <;> omega
  refine ⟨_, _, rfl, fun i hi => ?_, ?_, ?_, ?_⟩
  · exact (update_of_ne (by omega) _ _).trans (hwithin.behind i hi)
  · omega
  · omega
  · rw [hwrap]
    exact update_self ..

/-- The text `7-x` in a buffer of three. -/
theorem vsnprintf_bounded_three :
    ∃ buffer r, pthVsnprintf (fun _ => 'a') 3 "%d-%s".toList [.int 7, .str (some ['x'])] =
      some (buffer, r) ∧ r = 2 ∧ buffer 2 = nul ∧ buffer 3 = 'a' := by
  obtain ⟨buffer, r, h, hbehind, -, -, hnul⟩ := vsnprintf_bounded (fun _ => 'a') 3
    "%d-%s".toList [.int 7, .str (some ['x'])] (by decide) (by decide)
  have hr : (pthVsnprintf (fun _ => 'a') 3 "%d-%s".toList [.int 7, .str (some ['x'])]).map
      Prod.snd = some 2 := by
    decide +kernel
  rw [h, Option.map_some, Option.some.injEq] at hr
  subst hr
  exact ⟨buffer, _, h, rfl, hnul, hbehind 3 (by decide)⟩

/-- The pass is at a conversion `w` that is the last character of the format. -/
def Scan.AtLastW (maxlen : Nat) (s : Scan) : Prop :=
  s.state = .conv ∧ s.format = ['w'] ∧ s.out.currlen < maxlen

theorem step_past (h : s.state ≠ .done) :
    (s.step maxlen).past = true ↔ s.past = true ∨ s.AtLastW maxlen := by
  by_cases hstop : s.format.headD nul = nul ∨ s.out.currlen ≥ maxlen
  · have hno : ¬ s.AtLastW maxlen := by
      rintro ⟨-, hf, hlt⟩
      rw [hf] at hstop
      exact hstop.elim (by decide) (by omega)
    simp only [Scan.step, if_pos hstop, hno, or_false]
  · obtain ⟨c, format, hf⟩ : ∃ c format, s.format = c :: format :=
      List.exists_cons_of_ne_nil fun hf => hstop (Or.inl (by rw [hf]; rfl))
    have hlt : s.out.currlen < maxlen := by omega
    simp only [Scan.step, hstop, if_false]
    cases hs : s.state <;> dsimp only
    case done => exact absurd hs h
    case conv =>
      simp only [Scan.next, convert_past, convert_format, Scan.AtLastW, hs, hf, hlt]
      by_cases hc : c = 'w' <;> simp [hc]
    all_goals
      repeat' split
      all_goals simp_all [Scan.next, Scan.AtLastW]
    -- a second `l` is there to be read
    rintro rfl
    exact absurd ‹_› (by decide)

theorem step_done (h : s.state = .done) : s.step maxlen = s := by
  cases s
  cases h
  simp only [Scan.step, ite_self]

theorem dopr_past {s' : Scan} (fuel : Nat) (s : Scan) (hs : dopr maxlen fuel s = some s') :
    s'.past = true ↔ s.past = true ∨ ∃ n, ((Scan.step maxlen)^[n] s).AtLastW maxlen := by
  have hend : ∀ s : Scan, s.state = .done → (s.past = true ↔ s.past = true ∨
      ∃ n, ((Scan.step maxlen)^[n] s).AtLastW maxlen) := fun s hdone => by
    simp [iterate_fixed (step_done hdone), Scan.AtLastW, hdone]
  induction fuel generalizing s with
  | zero =>
    obtain ⟨hdone, ⟨⟩⟩ := Option.ite_none_right_eq_some.mp hs
    exact hend _ hdone
  | succ fuel ih =>
    unfold dopr at hs
    split at hs
    case isTrue hdone =>
      cases hs
      exact hend _ hdone
    case isFalse hdone =>
      refine (ih _ hs).trans ?_
      rw [step_past hdone, or_assoc]
      refine or_congr_right ⟨?_, ?_⟩
      · rintro (h | ⟨n, h⟩)
        · exact ⟨0, h⟩
        · exact ⟨n + 1, h⟩
      · rintro ⟨_ | n, h⟩
        · exact Or.inl h
        · exact Or.inr ⟨n, h⟩

/-- **The reads of the format.** Every other place in the scan looks at `ch` before it goes on. -/
theorem dopr_reads_iff (maxlen : Nat) (fmt : List Char) (args : List Arg) (buffer : Nat → Char) :
    ∃ s', dopr maxlen (passes fmt) { format := fmt, args := args, out := ⟨buffer, 0⟩ } = some s' ∧
      (s'.past = false ↔ ∀ n, ¬ ((Scan.step maxlen)^[n]
        { format := fmt, args := args, out := ⟨buffer, 0⟩ }).AtLastW maxlen) := by
  obtain ⟨s', hs, -⟩ := dopr_ends (passes fmt) { format := fmt, args := args, out := ⟨buffer, 0⟩ }
    (by simp [Scan.rank, passes, Dps.left]) (show Within buffer maxlen _ from
      ⟨Nat.zero_le _, fun _ _ => rfl⟩)
  refine ⟨s', hs, ?_⟩
  rw [← Bool.not_eq_true, dopr_past _ _ hs]
  simp

/-- The format `%w`. -/
theorem dopr_reads_past :
    (dopr 8 (passes ['%', 'w']) { format := ['%', 'w'], args := [], out := ⟨fun _ => nul, 0⟩ }).map
      Scan.past = some true := by
  decide +kernel

end Ngpt.Format
