/-
# Integer conversions

`format_integer` of `lib/stdio.c` and the conversions of `__vprintf` that call it.  The buffer of 64
bytes is the list of what has been put into it; if it overflows there is no result.  A negative `*`
width sets `MINUS` after `parse_conversion` has cleared `ZERO` for it; with both flags the text is
padded on both sides.
-/

import Mathlib.Data.Nat.Digits.Lemmas
import Pintos.Lib.Printf

namespace Pintos.Lib

structure IntegerBase where
  base : ℕ
  digits : List Char
  x : Option Char
  group : ℕ
  one_lt : 1 < base

def baseD : IntegerBase := ⟨10, "0123456789".toList, none, 3, by decide⟩

def baseO : IntegerBase := ⟨8, "01234567".toList, none, 3, by decide⟩

def baseHex : IntegerBase := ⟨16, "0123456789abcdef".toList, some 'x', 4, by decide⟩

def baseHEX : IntegerBase := ⟨16, "0123456789ABCDEF".toList, some 'X', 4, by decide⟩

/-- The loop that accumulates digits into the buffer, the last one first. -/
def accumulate (b : IntegerBase) (group : Bool) (value digitCnt : ℕ) : List Char :=
  if 0 < value then
    (if group ∧ 0 < digitCnt ∧ digitCnt % b.group = 0 then [','] else []) ++
      b.digits.getD (value % b.base) '0' :: accumulate b group (value / b.base) (digitCnt + 1)
  else []
termination_by value
decreasing_by exact Nat.div_lt_self (by assumption) b.one_lt

def PrintfConversion.has (c : PrintfConversion) (flag : BitVec 6) : Bool := c.flags &&& flag ≠ 0

def signOf (c : PrintfConversion) (isSigned negative : Bool) : List Char :=
  if isSigned then
    if c.has 2 then [if negative then '-' else '+']
    else if c.has 4 then [if negative then '-' else ' ']
    else if negative then ['-'] else []
  else []

def markOf (b : IntegerBase) (c : PrintfConversion) (value : ℕ) : List Char :=
  if c.has 8 ∧ 0 < value then b.x.toList.flatMap fun x => ['0', x] else []

/-- The buffer with the zeros for the precision and for `#`. -/
def bufferOf (b : IntegerBase) (c : PrintfConversion) (value : ℕ) : List Char :=
  let buf := accumulate b (c.has 32) value 0
  let precision := if c.precision < 0 then 1 else c.precision.toNat
  let buf := buf ++ List.replicate (min precision 63 - buf.length) '0'
  if c.has 8 ∧ b.base = 8 ∧ buf.getLast? ≠ some '0' then buf ++ ['0'] else buf

def formatInteger (value : ℕ) (isSigned negative : Bool) (b : IntegerBase) (c : PrintfConversion) :
    Option (List Char) :=
  let sign := signOf c isSigned negative
  let x := markOf b c value
  let buf := bufferOf b c value
  let padCnt := c.width - buf.length - x.length - sign.length
  if buf.length ≤ 64 then
    some ((if c.flags &&& 17 = 0 then List.replicate padCnt ' ' else []) ++ sign ++ x ++
      (if c.has 16 then List.replicate padCnt '0' else []) ++ buf.reverse ++
      if c.has 1 then List.replicate padCnt ' ' else [])
  else none

def ArgType.bits : ArgType → ℕ
  | CHAR => 8
  | SHORT => 16
  | INTMAX | LONGLONG => 64
  | INT | LONG | PTRDIFFT | SIZET => 32

def baseOf : Char → IntegerBase
  | 'o' => baseO
  | 'x' => baseHex
  | 'X' => baseHEX
  | _ => baseD

/-- The argument as the length modifier converts it. -/
def argValue (c : PrintfConversion) (ch : Char) (arg : ℤ) : ℤ :=
  if ch = 'd' ∨ ch = 'i' then arg.bmod (2 ^ c.type.bits) else arg % 2 ^ c.type.bits

def formatArg (c : PrintfConversion) (ch : Char) (arg : ℤ) : Option (List Char) :=
  let value := argValue c ch arg
  formatInteger value.natAbs (ch = 'd' ∨ ch = 'i') (value < 0) (baseOf ch) c

def digitValue (ch : Char) : ℕ :=
  if ch.isDigit then ch.toNat - 48 else if ch.toNat < 97 then ch.toNat - 55 else ch.toNat - 87

/-- The number a text denotes, without its commas. -/
def numberOf (base : ℕ) (text : List Char) : ℕ :=
  (text.filter (· ≠ ',')).foldl (fun n ch => n * base + digitValue ch) 0

lemma digits_getD (ch : Char) {d : ℕ} (hd : d < (baseOf ch).base) :
    digitValue ((baseOf ch).digits.getD d '0') = d ∧ (baseOf ch).digits.getD d '0' ≠ ',' ∧
      (baseOf ch).digits.getD d '0' ∈ (baseOf ch).digits := by
  have hall : ∀ b ∈ [baseO, baseHex, baseHEX, baseD], ∀ d < b.base,
      digitValue (b.digits.getD d '0') = d ∧ b.digits.getD d '0' ≠ ',' ∧
        b.digits.getD d '0' ∈ b.digits := by decide
  refine hall _ ?_ d hd
  unfold baseOf
  split <;> simp

lemma numberOf_reverse (base : ℕ) (buf : List Char) : numberOf base buf.reverse =
    (buf.filter (· ≠ ',')).foldr (fun ch n => n * base + digitValue ch) 0 := by
  rw [numberOf, List.filter_reverse, List.foldl_reverse]

lemma accumulate_value (ch : Char) (group : Bool) (value k : ℕ) :
    ((accumulate (baseOf ch) group value k).filter (· ≠ ',')).foldr
      (fun x n => n * (baseOf ch).base + digitValue x) 0 = value := by
  induction value using Nat.strong_induction_on generalizing k with
  | _ value ih =>
    rw [accumulate]
    by_cases h : 0 < value
    · obtain ⟨hdigit, hne, _⟩ := digits_getD ch (Nat.mod_lt value (baseOf ch).one_lt.le)
      have hcomma : (if group ∧ 0 < k ∧ k % (baseOf ch).group = 0 then [','] else []).filter
          (· ≠ ',') = [] := by split_ifs <;> simp
      rw [if_pos h, List.filter_append, hcomma, List.nil_append,
        List.filter_cons_of_pos (by simpa using hne), List.foldr_cons,
        ih _ (Nat.div_lt_self h (baseOf ch).one_lt), hdigit]
      exact Nat.div_add_mod' ..
    · rw [if_neg h, Nat.eq_zero_of_not_pos h]
      rfl

lemma foldr_zeros (base n : ℕ) (buf : List Char) :
    ((buf ++ List.replicate n '0').filter (· ≠ ',')).foldr (fun x n => n * base + digitValue x) 0 =
      (buf.filter (· ≠ ',')).foldr (fun x n => n * base + digitValue x) 0 := by
  have hz : (List.replicate n '0').foldr (fun x n => n * base + digitValue x) 0 = 0 := by
    induction n with
    | zero => rfl
    | succ n ih =>
      rw [List.replicate_succ, List.foldr_cons, ih, Nat.zero_mul]
      rfl
  have hf : (List.replicate n '0').filter (· ≠ ',') = List.replicate n '0' := by simp
  rw [List.filter_append, List.foldr_append, hf, hz]

lemma bufferOf_eq (b : IntegerBase) (c : PrintfConversion) (value : ℕ) :
    ∃ n, bufferOf b c value = accumulate b (c.has 32) value 0 ++ List.replicate n '0' := by
  unfold bufferOf
  extract_lets buf precision buf'
  by_cases h : c.has 8 ∧ b.base = 8 ∧ buf'.getLast? ≠ some '0'
  · refine ⟨min precision 63 - buf.length + 1, ?_⟩
    rw [if_pos h, List.replicate_succ', ← List.append_assoc]
  · exact ⟨_, if_neg h⟩

lemma bufferOf_value (ch : Char) (c : PrintfConversion) (value : ℕ) :
    numberOf (baseOf ch).base (bufferOf (baseOf ch) c value).reverse = value := by
  obtain ⟨n, hn⟩ := bufferOf_eq (baseOf ch) c value
  rw [numberOf_reverse, hn, foldr_zeros, accumulate_value]

lemma mem_accumulate {ch : Char} {group : Bool} {value k : ℕ} {y : Char}
    (hy : y ∈ accumulate (baseOf ch) group value k) : y = ',' ∨ y ∈ (baseOf ch).digits := by
  induction value using Nat.strong_induction_on generalizing k with
  | _ value ih =>
    rw [accumulate] at hy
    by_cases h : 0 < value
    · rw [if_pos h, List.mem_append, List.mem_cons] at hy
      rcases hy with hy | rfl | hy
      · left
        split_ifs at hy
        · exact List.mem_singleton.1 hy
        · exact absurd hy List.not_mem_nil
      · exact .inr (digits_getD ch (Nat.mod_lt value (baseOf ch).one_lt.le)).2.2
      · exact ih _ (Nat.div_lt_self h (baseOf ch).one_lt) hy
    · rw [if_neg h] at hy
      exact absurd hy List.not_mem_nil

lemma mem_bufferOf {ch : Char} {c : PrintfConversion} {value : ℕ} {y : Char}
    (hy : y ∈ bufferOf (baseOf ch) c value) : y = ',' ∨ y ∈ (baseOf ch).digits := by
  have hzero : '0' ∈ (baseOf ch).digits := by
    unfold baseOf
    split <;> decide
  obtain ⟨n, hn⟩ := bufferOf_eq (baseOf ch) c value
  rw [hn] at hy
  rcases List.mem_append.1 hy with hy | hy
  · exact mem_accumulate hy
  · rw [List.eq_of_mem_replicate hy]
    exact .inr hzero

lemma argValue_lt (c : PrintfConversion) (ch : Char) (arg : ℤ) :
    (argValue c ch arg).natAbs < 2 ^ 64 := by
  unfold argValue Int.bmod
  cases c.type <;> simp only [ArgType.bits] <;> split_ifs <;> omega

lemma argValue_nonneg (c : PrintfConversion) {ch : Char} (arg : ℤ) (h : ¬ (ch = 'd' ∨ ch = 'i')) :
    0 ≤ argValue c ch arg := by
  rw [argValue, if_neg h]
  exact Int.emod_nonneg _ (by positivity)

lemma signOf_spec (c : PrintfConversion) (isSigned negative : Bool) :
    signOf c isSigned negative ∈ [[], ['-'], ['+'], [' ']] ∧
      (signOf c isSigned negative = ['-'] ↔ isSigned ∧ negative) := by
  unfold signOf
  cases isSigned <;> cases negative <;> split_ifs <;> simp_all

lemma markOf_cases (c : PrintfConversion) (ch : Char) (value : ℕ) :
    markOf (baseOf ch) c value = [] ∨ markOf (baseOf ch) c value = ['0', ch] := by
  unfold markOf
  split_ifs
  · unfold baseOf
    split <;> simp [baseO, baseHex, baseHEX, baseD]
  · exact .inl rfl

/-- Sign, prefix and digits of a number as the conversion `ch` asks for them. -/
structure IsNumber (c : PrintfConversion) (ch : Char) (arg : ℤ) (sign x digits : List Char) :
    Prop where
  sign_mem : sign ∈ [[], ['-'], ['+'], [' ']]
  minus : sign = ['-'] ↔ argValue c ch arg < 0
  mark : x = [] ∨ x = ['0', ch]
  digits_mem : ∀ y ∈ digits, y = ',' ∨ y ∈ (baseOf ch).digits
  value : numberOf (baseOf ch).base digits = (argValue c ch arg).natAbs

lemma IsNumber.ne_blank {c : PrintfConversion} {ch : Char} {arg : ℤ} {sign x digits : List Char}
    (h : IsNumber c ch arg sign x digits) (hch : ch ∈ ['d', 'i', 'u', 'o', 'x', 'X']) :
    ∀ y ∈ x ++ digits, y ≠ ' ' := by
  have hblank : ' ' ∉ (baseOf ch).digits := by
    unfold baseOf
    split <;> decide
  rintro y hy rfl
  rcases List.mem_append.1 hy with hy | hy
  · rcases h.mark with rfl | rfl
    · cases hy
    · obtain rfl : ' ' = ch := by simpa using hy
      revert hch
      decide
  · exact (h.digits_mem _ hy).elim (by decide) hblank

/-! ### How long the text is without padding -/

def signLength (c : PrintfConversion) (ch : Char) (arg : ℤ) : ℕ :=
  if (ch = 'd' ∨ ch = 'i') ∧ (c.has 2 ∨ c.has 4 ∨ argValue c ch arg < 0) then 1 else 0

def markLength (c : PrintfConversion) (ch : Char) (arg : ℤ) : ℕ :=
  if c.has 8 ∧ (ch = 'x' ∨ ch = 'X') ∧ argValue c ch arg ≠ 0 then 2 else 0

/-- The digits of `value` with their commas, the zeros the precision asks for, and the one `#` puts
in front of an octal number that does not start with one. -/
def digitsLength (b : IntegerBase) (c : PrintfConversion) (value : ℕ) : ℕ :=
  let digits := (Nat.digits b.base value).length
  let digits := if c.has 32 then digits + (digits - 1) / b.group else digits
  let precision := if c.precision < 0 then 1 else min c.precision.toNat 63
  max digits precision + if c.has 8 ∧ b.base = 8 ∧ precision ≤ digits then 1 else 0

lemma comma_succ (k n : ℕ) :
    k / n = (k - 1) / n + if 0 < k ∧ k % n = 0 then 1 else 0 := by
  cases k with
  | zero => simp
  | succ k => simp [Nat.succ_div, Nat.dvd_iff_mod_eq_zero]

/-- Between `k` digits and `k` and those of `value` there is a comma for each full group. -/
lemma length_accumulate_eq (b : IntegerBase) (group : Bool) (value k : ℕ) :
    (accumulate b group value k).length + (if group then (k - 1) / b.group else 0) =
      (Nat.digits b.base value).length +
        if group then (k + (Nat.digits b.base value).length - 1) / b.group else 0 := by
  induction value using Nat.strong_induction_on generalizing k with
  | _ value ih =>
    rw [accumulate]
    by_cases h : 0 < value
    · have ih := ih _ (Nat.div_lt_self h b.one_lt) (k + 1)
      rw [if_pos h, Nat.digits_def' b.one_lt h]
      have hcomma := comma_succ k b.group
      rw [List.length_cons]
      generalize (Nat.digits b.base (value / b.base)).length = n at ih ⊢
      rw [show k + 1 + n - 1 = k + n by omega, Nat.add_sub_cancel] at ih
      rw [show k + (n + 1) - 1 = k + n by omega]
      cases group
      · simp at ih ⊢
        omega
      · simp only [if_true, true_and, List.length_append, List.length_cons] at ih ⊢
        split_ifs at hcomma ⊢
        all_goals simp
        all_goals omega
    · rw [if_neg h, Nat.eq_zero_of_not_pos h]
      simp

lemma getLast?_accumulate (ch : Char) (group : Bool) (value k : ℕ) :
    (accumulate (baseOf ch) group value k).getLast? ≠ some '0' := by
  induction value using Nat.strong_induction_on generalizing k with
  | _ value ih =>
    rw [accumulate]
    by_cases h : 0 < value
    · have ih := ih _ (Nat.div_lt_self h (baseOf ch).one_lt) (k + 1)
      rw [if_pos h, List.getLast?_append, List.getLast?_cons, Option.some_or]
      cases hacc : (accumulate (baseOf ch) group (value / (baseOf ch).base) (k + 1)).getLast? with
      | some x => simpa [hacc] using ih
      | none =>
        -- The first digit is not followed by others, so that it is the value.
        have hdiv : value / (baseOf ch).base = 0 := by
          by_contra hne
          rw [accumulate, if_pos (Nat.pos_of_ne_zero hne)] at hacc
          simp at hacc
        have hlt := Nat.lt_of_div_eq_zero (baseOf ch).one_lt.le hdiv
        have hdigit := (digits_getD ch hlt).1
        rw [Option.getD_none, Nat.mod_eq_of_lt hlt]
        intro heq
        rw [Option.some.inj heq] at hdigit
        exact h.ne hdigit
    · rw [if_neg h]
      simp

lemma length_bufferOf_eq (ch : Char) (c : PrintfConversion) (value : ℕ) :
    (bufferOf (baseOf ch) c value).length = digitsLength (baseOf ch) c value := by
  have hlen := length_accumulate_eq (baseOf ch) (c.has 32) value 0
  have hlast := getLast?_accumulate ch (c.has 32) value 0
  unfold bufferOf digitsLength
  extract_lets buf precision buf' digits digits' precision'
  have hdigits : buf.length = digits' := by
    simp only [buf, digits', digits]
    rw [Nat.zero_sub, Nat.zero_div, ite_self, Nat.add_zero, Nat.zero_add] at hlen
    split_ifs at hlen ⊢ <;> exact hlen
  have hprec : min precision 63 = precision' := by
    simp only [precision, precision']
    split_ifs <;> simp
  have hzero : buf'.getLast? ≠ some '0' ↔ precision' ≤ digits' := by
    rw [← hdigits, ← hprec]
    by_cases hle : min precision 63 ≤ buf.length
    · simp only [buf', Nat.sub_eq_zero_of_le hle, List.replicate_zero, List.append_nil]
      exact iff_of_true hlast hle
    · obtain ⟨n, hn⟩ := Nat.exists_eq_succ_of_ne_zero (Nat.sub_ne_zero_of_lt (not_le.1 hle))
      simp only [buf', hn, List.replicate_succ', ← List.append_assoc]
      exact iff_of_false (by simp) hle
  have hlen' : buf'.length = max digits' precision' := by
    simp only [buf', List.length_append, List.length_replicate]
    omega
  simp only [hzero]
  split_ifs
  · rw [List.length_append, hlen']
    rfl
  · exact hlen'

lemma length_bufferOf (ch : Char) (c : PrintfConversion) {value : ℕ} (h : value < 2 ^ 64) :
    (bufferOf (baseOf ch) c value).length ≤ 64 := by
  have hbase : 8 ≤ (baseOf ch).base := by
    unfold baseOf
    split <;> decide
  have hdigits := (Nat.digits_length_le_iff (baseOf ch).one_lt value).2
    (lt_of_lt_of_le (h.trans (by decide)) (Nat.pow_le_pow_left hbase 22))
  have hcommas := Nat.div_le_self ((Nat.digits (baseOf ch).base value).length - 1) (baseOf ch).group
  rw [length_bufferOf_eq, digitsLength]
  split_ifs <;> omega

lemma length_signOf (c : PrintfConversion) (ch : Char) (arg : ℤ) :
    (signOf c (ch = 'd' ∨ ch = 'i') (argValue c ch arg < 0)).length = signLength c ch arg := by
  unfold signOf signLength
  split_ifs <;> grind

lemma length_markOf (c : PrintfConversion) (ch : Char) (arg : ℤ) :
    (markOf (baseOf ch) c (argValue c ch arg).natAbs).length = markLength c ch arg := by
  have hx : ((baseOf ch).x.toList.flatMap fun x => ['0', x]).length =
      if ch = 'x' ∨ ch = 'X' then 2 else 0 := by
    unfold baseOf
    split <;> simp_all [baseO, baseHex, baseHEX, baseD]
  unfold markOf markLength
  split_ifs <;> simp_all

/-- Where `format_integer` puts its padding. -/
lemma formatArg_eq (c : PrintfConversion) (ch : Char) (arg : ℤ) : ∃ sign x digits : List Char,
    ∃ n, n = c.width - (sign.length + x.length + digits.length) ∧
      sign.length + x.length + digits.length = signLength c ch arg + markLength c ch arg +
        digitsLength (baseOf ch) c (argValue c ch arg).natAbs ∧
      formatArg c ch arg = some ((if c.has 1 ∨ c.has 16 then [] else List.replicate n ' ') ++
        sign ++ x ++ (if c.has 16 then List.replicate n '0' else []) ++ digits ++
        if c.has 1 then List.replicate n ' ' else []) ∧
      IsNumber c ch arg sign x digits := by
  have hall : ∀ f : BitVec 6, f &&& 17 = 0 ↔
      ¬ (decide (f &&& 1 ≠ 0) = true ∨ decide (f &&& 16 ≠ 0) = true) := by decide
  have hflags : c.flags &&& 17 = 0 ↔ ¬ (c.has 1 ∨ c.has 16) := hall c.flags
  obtain ⟨hmem, hsign⟩ := signOf_spec c (ch = 'd' ∨ ch = 'i') (argValue c ch arg < 0)
  let value := (argValue c ch arg).natAbs
  refine ⟨signOf c (ch = 'd' ∨ ch = 'i') (argValue c ch arg < 0), markOf (baseOf ch) c value,
    (bufferOf (baseOf ch) c value).reverse, c.width - (bufferOf (baseOf ch) c value).length -
      (markOf (baseOf ch) c value).length -
      (signOf c (ch = 'd' ∨ ch = 'i') (argValue c ch arg < 0)).length, ?_, ?_, ?_, hmem,
    hsign.trans ?_, markOf_cases c ch value, fun y hy => mem_bufferOf (List.mem_reverse.1 hy),
    bufferOf_value ch c value⟩
  · rw [List.length_reverse]
    omega
  · rw [List.length_reverse, length_signOf, length_markOf, length_bufferOf_eq]
  · rw [formatArg, formatInteger, if_pos (length_bufferOf ch c (argValue_lt c ch arg))]
    simp only [hflags, ite_not]
    rfl
  · simp only [decide_eq_true_eq]
    refine ⟨And.right, fun hneg => ⟨?_, hneg⟩⟩
    by_contra h
    have := argValue_nonneg c arg h
    omega

/-- A text that ends in a blank and has a zero in it is not padded in front of its digits only. -/
lemma not_padded_left {sign rest text : List Char} {n : ℕ}
    (hsign : sign ∈ [[], ['-'], ['+'], [' ']])
    (hrest : ∀ y ∈ rest, y ≠ ' ') (htext : text = List.replicate n ' ' ++ sign ++ rest)
    (hlast : text.getLast? = some ' ') (hzero : '0' ∈ text) : False := by
  cases rest.eq_nil_or_concat with
  | inl hnil =>
    rw [htext, hnil, List.append_nil, List.mem_append] at hzero
    rcases hzero with hzero | hzero
    · exact absurd (List.eq_of_mem_replicate hzero) (by decide)
    · have hall : ∀ l ∈ [[], ['-'], ['+'], [' ']], '0' ∉ l := by decide
      exact hall sign hsign hzero
  | inr hcons =>
    obtain ⟨init, y, rfl⟩ := hcons
    rw [htext, List.concat_eq_append, ← List.append_assoc, List.getLast?_concat] at hlast
    exact hrest y (by simp) (Option.some.inj hlast)

/-- **An integer is formatted as asked** unless both flags for padding are set and there is
something to pad. -/
theorem integer_formatted (c : PrintfConversion) {ch : Char}
    (hch : ch ∈ ['d', 'i', 'u', 'o', 'x', 'X']) (arg : ℤ) :
    (∃ sign x digits : List Char, ∃ n text, formatArg c ch arg = some text ∧
      (text = List.replicate n ' ' ++ sign ++ x ++ digits ∨
        text = sign ++ x ++ List.replicate n '0' ++ digits ∨
        text = sign ++ x ++ digits ++ List.replicate n ' ') ∧
      text.length = max c.width (sign.length + x.length + digits.length) ∧
      IsNumber c ch arg sign x digits) ↔
    (c.has 1 ∧ c.has 16 → c.width ≤ signLength c ch arg + markLength c ch arg +
      digitsLength (baseOf ch) c (argValue c ch arg).natAbs) := by
  obtain ⟨sign, x, digits, n, hn, hlen, htext, hnumber⟩ := formatArg_eq c ch arg
  constructor
  · rintro ⟨sign', x', digits', n', text, htext', hpad, hlen', hnumber'⟩ ⟨h1, h16⟩
    by_contra hlt
    rw [if_pos (.inl h1), if_pos h16, if_pos h1, htext', Option.some.injEq,
      List.nil_append] at htext
    have hpos : n ≠ 0 := by omega
    have hlast : text.getLast? = some ' ' := by
      rw [htext, List.getLast?_append, List.getLast?_replicate, if_neg hpos, Option.some_or]
    have hzero : '0' ∈ text := by
      rw [htext]
      simp [hpos]
    have hblank : ∀ y ∈ x' ++ digits', y ≠ ' ' := hnumber'.ne_blank hch
    rcases hpad with rfl | rfl | rfl
    · exact not_padded_left hnumber'.sign_mem hblank (List.append_assoc ..) hlast hzero
    · have hrest : ∀ y ∈ x' ++ List.replicate n' '0' ++ digits', y ≠ ' ' := by grind
      exact not_padded_left (n := 0) hnumber'.sign_mem hrest (by simp) hlast hzero
    · -- The text is too long for the width, so that there are no blanks behind the digits.
      have hn' : n' = 0 := by
        have := congrArg List.length htext
        simp only [List.length_append, List.length_replicate] at this hlen'
        omega
      subst hn'
      exact not_padded_left (n := 0) hnumber'.sign_mem hblank (by simp) hlast hzero
  · intro h
    obtain ⟨text, htext, hpad⟩ : ∃ text, formatArg c ch arg = some text ∧
        (text = List.replicate n ' ' ++ sign ++ x ++ digits ∨
          text = sign ++ x ++ List.replicate n '0' ++ digits ∨
          text = sign ++ x ++ digits ++ List.replicate n ' ') := by
      refine ⟨_, htext, ?_⟩
      by_cases h1 : c.has 1 <;> by_cases h16 : c.has 16
      · have hn : n = 0 := by
          have := h ⟨h1, h16⟩
          omega
        simp [hn]
      · rw [if_pos (.inl h1), if_neg h16, if_pos h1, List.nil_append, List.append_nil]
        exact .inr (.inr rfl)
      · rw [if_pos (.inr h16), if_pos h16, if_neg h1, List.nil_append, List.append_nil]
        exact .inr (.inl rfl)
      · rw [if_neg (not_or.2 ⟨h1, h16⟩), if_neg h16, if_neg h1, List.append_nil, List.append_nil]
        exact .inl rfl
    refine ⟨sign, x, digits, n, text, htext, hpad, ?_, hnumber⟩
    rcases hpad with rfl | rfl | rfl
    all_goals
      simp only [List.length_append, List.length_replicate]
      omega

theorem integer_formatted_hex : ∃ text, formatArg ⟨24, 8, -1, .INT⟩ 'x' 255 = some text := by
  obtain ⟨_, _, _, _, text, h, _⟩ := (@integer_formatted ⟨24, 8, -1, .INT⟩ 'x' (by decide)
    255).2 (by decide)
  exact ⟨text, h⟩

/-- **A negative `*` width with the flag `0` pads on both sides.** -/
theorem integer_padded_twice : vprintf (fun c ch args =>
    ((formatArg c ch (args.headD 0)).getD [], args.tail)) ['%', '0', '*', 'd'] [-5, 1] =
      some ['0', '0', '0', '0', '1', ' ', ' ', ' ', ' '] := by
  have hbuf : bufferOf baseD ⟨17, 5, -1, .INT⟩ 1 = ['1'] := by
    have hacc : accumulate baseD (PrintfConversion.has ⟨17, 5, -1, .INT⟩ 32) 1 0 = ['1'] := by
      rw [accumulate, accumulate]
      rfl
    rw [bufferOf, hacc]
    rfl
  have htext : formatArg ⟨17, 5, -1, .INT⟩ 'd' 1 =
      some ['0', '0', '0', '0', '1', ' ', ' ', ' ', ' '] := by
    change formatInteger 1 true false baseD _ = _
    rw [formatInteger, hbuf]
    rfl
  rw [vprintf, if_neg (by decide), if_neg (by decide)]
  change Option.map (fun t => (formatArg ⟨17, 5, -1, .INT⟩ 'd' 1).getD [] ++ t)
    (vprintf _ [] []) = _
  rw [vprintf, htext]
  rfl

end Pintos.Lib
