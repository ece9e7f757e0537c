/-
# Format strings

How `__vprintf` and `parse_conversion` of `lib/stdio.c` move through a format string: the list of
its characters before the terminator, with `format` a tail of it, empty at the terminator;
increments taken back before the next read are left out.  What a conversion puts out is a parameter.
At the end of a round `__vprintf` increments `format` even from the terminator, and reads the next
character behind it.
-/

import Pintos.Base.Word

namespace Pintos.Lib

inductive ArgType
  | CHAR | SHORT | INT | INTMAX | LONG | LONGLONG | PTRDIFFT | SIZET

structure PrintfConversion where
  flags : BitVec 6
  width : ℕ
  precision : ℤ
  type : ArgType

/-- The flag characters, for `MINUS`, `PLUS`, `SPACE`, `POUND`, `ZERO` and `GROUP`. -/
def FLAGS : List (Char × BitVec 6) :=
  [('-', 1), ('+', 2), (' ', 4), ('#', 8), ('0', 16), (Char.ofNat 39, 32)]

def parseFlags (flags : BitVec 6) : List Char → BitVec 6 × List Char
  | [] => (flags, [])
  | ch :: format =>
    match FLAGS.lookup ch with
    | some flag => parseFlags (flags ||| flag) format
    | none => (flags, ch :: format)

/-- A width or a precision: an argument for `*`, or digits. -/
def parseNumber (format : List Char) (args : List ℤ) : ℤ × List Char × List ℤ :=
  if format.head? = some '*' then (args.headD 0, format.tail, args.tail)
  else ((format.takeWhile Char.isDigit).foldl (fun n ch => n * 10 + (ch.toNat : ℤ) - 48) 0,
    format.dropWhile Char.isDigit, args)

def parsePrecision (format : List Char) (args : List ℤ) : ℤ × List Char × List ℤ :=
  if format.head? = some '.' then
    let (precision, format, args) := parseNumber format.tail args
    (if precision < 0 then -1 else precision, format, args)
  else (-1, format, args)

def parseType : List Char → ArgType × List Char
  | 'h' :: 'h' :: format => (.CHAR, format)
  | 'h' :: format => (.SHORT, format)
  | 'j' :: format => (.INTMAX, format)
  | 'l' :: 'l' :: format => (.LONGLONG, format)
  | 'l' :: format => (.LONG, format)
  | 't' :: format => (.PTRDIFFT, format)
  | 'z' :: format => (.SIZET, format)
  | format => (.INT, format)

def parseConversion (format : List Char) (args : List ℤ) :
    PrintfConversion × List Char × List ℤ :=
  let (flags, format) := parseFlags 0 format
  let flags := if flags &&& 1 ≠ 0 then flags &&& ~~~16 else flags
  let flags := if flags &&& 2 ≠ 0 then flags &&& ~~~4 else flags
  let (width, format, args) := parseNumber format args
  let flags := if width < 0 then flags ||| 1 else flags
  let (precision, format, args) := parsePrecision format args
  let flags := if 0 ≤ precision then flags &&& ~~~16 else flags
  let (type, format) := parseType format
  (⟨flags, width.natAbs, precision, type⟩, format, args)

/-! ### The shape of a conversion

What stands behind the flags, the width, the precision and the length modifier of a conversion, each
as long as it can be. -/

def afterFlags (format : List Char) : List Char :=
  format.dropWhile fun ch => (FLAGS.lookup ch).isSome

def afterNumber (format : List Char) : List Char :=
  if format.head? = some '*' then format.tail else format.dropWhile Char.isDigit

def afterPrecision (format : List Char) : List Char :=
  if format.head? = some '.' then afterNumber format.tail else format

def afterLength : List Char → List Char
  | 'h' :: 'h' :: format => format
  | 'l' :: 'l' :: format => format
  | ch :: format => if ch ∈ ['h', 'j', 'l', 't', 'z'] then format else ch :: format
  | [] => []

def afterOptions (format : List Char) : List Char :=
  afterLength (afterPrecision (afterNumber (afterFlags format)))

lemma parseFlags_rest (flags : BitVec 6) (format : List Char) :
    (parseFlags flags format).2 = afterFlags format := by
  induction format generalizing flags with
  | nil => rfl
  | cons ch format ih =>
    rw [parseFlags, afterFlags, List.dropWhile_cons]
    cases h : FLAGS.lookup ch with
    | none => rfl
    | some flag => exact ih _

lemma parseNumber_rest (format : List Char) (args : List ℤ) :
    (parseNumber format args).2.1 = afterNumber format := by
  unfold parseNumber afterNumber
  split_ifs <;> rfl

lemma parsePrecision_rest (format : List Char) (args : List ℤ) :
    (parsePrecision format args).2.1 = afterPrecision format := by
  unfold parsePrecision afterPrecision
  split_ifs
  · exact parseNumber_rest ..
  · rfl

lemma parseType_rest (format : List Char) : (parseType format).2 = afterLength format := by
  unfold parseType
  split
  case h_8 => cases format <;> simp_all [afterLength]
  all_goals simp_all [afterLength]

lemma parseConversion_rest (format : List Char) (args : List ℤ) :
    (parseConversion format args).2.1 = afterOptions format := by
  simp only [parseConversion, parseType_rest, parsePrecision_rest, parseNumber_rest,
    parseFlags_rest, afterOptions]

lemma afterNumber_suffix (format : List Char) : afterNumber format <:+ format := by
  unfold afterNumber
  split_ifs
  · exact format.tail_suffix
  · exact List.dropWhile_suffix _

lemma afterPrecision_suffix (format : List Char) : afterPrecision format <:+ format := by
  unfold afterPrecision
  split_ifs
  · exact (afterNumber_suffix _).trans format.tail_suffix
  · exact List.suffix_rfl

lemma afterLength_suffix (format : List Char) : afterLength format <:+ format := by
  unfold afterLength
  split
  · exact List.suffix_append ['h', 'h'] _
  · exact List.suffix_append ['l', 'l'] _
  · split_ifs
    · exact List.suffix_cons ..
    · exact List.suffix_rfl
  · exact List.suffix_rfl

lemma afterOptions_suffix (format : List Char) : afterOptions format <:+ format :=
  (((afterLength_suffix _).trans (afterPrecision_suffix _)).trans (afterNumber_suffix _)).trans
    (List.dropWhile_suffix _)

/-- `__vprintf`; `convert` is what a conversion puts out and the arguments left.  No result: a
character behind the terminator is read. -/
def vprintf (convert : PrintfConversion → Char → List ℤ → List Char × List ℤ) :
    List Char → List ℤ → Option (List Char)
  | [], _ => some []
  | ch :: format, args =>
    if ch ≠ '%' then (vprintf convert format args).map (ch :: ·)
    else if format.head? = some '%' then (vprintf convert format.tail args).map ('%' :: ·)
    else
      match _h : parseConversion format args with
      | (_, [], _) => none
      | (c, conversion :: format', args') =>
        let out := convert c conversion args'
        (vprintf convert format' out.2).map (out.1 ++ ·)
termination_by format => format.length
decreasing_by
  · simp
  · grind
  · have hle := (afterOptions_suffix format).length_le
    rw [← parseConversion_rest format args, _h] at hle
    simp at hle ⊢
    omega

/-- No conversion is cut off: behind its options there is a character, whatever it is. -/
inductive Complete : List Char → Prop
  | nil : Complete []
  | char {ch format} : ch ≠ '%' → Complete format → Complete (ch :: format)
  | percent {format} : Complete format → Complete ('%' :: '%' :: format)
  | conversion {format ch rest} : format.head? ≠ some '%' → afterOptions format = ch :: rest →
    Complete rest → Complete ('%' :: format)

variable {convert : PrintfConversion → Char → List ℤ → List Char × List ℤ}

lemma vprintf_conversion {format : List Char} {args : List ℤ} (h : format.head? ≠ some '%') :
    vprintf convert ('%' :: format) args = match parseConversion format args with
      | (_, [], _) => none
      | (c, conversion :: format', args') =>
        (vprintf convert format' (convert c conversion args').2).map
          ((convert c conversion args').1 ++ ·) := by
  rw [vprintf, if_neg (by simp), if_neg h]
  split <;> rename_i hparse <;> rw [hparse]

section Complete

variable {ch : Char} {format : List Char}

lemma complete_char (hch : ch ≠ '%') : Complete (ch :: format) ↔ Complete format := by
  refine ⟨fun h => ?_, .char hch⟩
  cases h with
  | char _ h => exact h
  | percent _ => exact absurd rfl hch
  | conversion _ _ _ => exact absurd rfl hch

lemma complete_percent : Complete ('%' :: '%' :: format) ↔ Complete format := by
  refine ⟨fun h => ?_, .percent⟩
  cases h with
  | char hne _ => exact absurd rfl hne
  | percent h => exact h
  | conversion hne _ _ => exact absurd rfl hne

lemma complete_conversion (hhead : format.head? ≠ some '%') :
    Complete ('%' :: format) ↔ ∃ ch rest, afterOptions format = ch :: rest ∧ Complete rest := by
  constructor
  · intro h
    cases h with
    | char hne _ => exact absurd rfl hne
    | percent _ => exact absurd rfl hhead
    | conversion _ h hc => exact ⟨_, _, h, hc⟩
  · rintro ⟨_, _, h, hc⟩
    exact .conversion hhead h hc

end Complete

/-- **A format is read up to its terminator** exactly if no conversion in it is cut off, whatever
the arguments are and the conversions put out. -/
theorem format_read_inside (format : List Char) (args : List ℤ) :
    (∃ text, vprintf convert format args = some text) ↔ Complete format := by
  rw [← Option.isSome_iff_exists]
  induction hn : format.length using Nat.strong_induction_on generalizing format args with
  | _ n ih =>
    cases format with
    | nil => exact iff_of_true (by rw [vprintf]; rfl) .nil
    | cons ch format =>
      have ih' : ∀ {rest}, rest <:+ format → ∀ args,
          (vprintf convert rest args).isSome ↔ Complete rest := fun hsuf args =>
        ih _ (by have := hsuf.length_le; simp at hn; omega) _ args rfl
      by_cases hch : ch = '%'
      · subst hch
        by_cases hhead : format.head? = some '%'
        · obtain ⟨format, rfl⟩ := List.head?_eq_some_iff.1 hhead
          rw [vprintf, if_neg (by simp), if_pos hhead, Option.isSome_map, List.tail_cons,
            ih' (List.suffix_cons ..), complete_percent]
        · have hrest := parseConversion_rest format args
          rw [vprintf_conversion hhead, complete_conversion hhead]
          split
          · -- The terminator is behind the options, and passed.
            rename_i hparse
            rw [hparse] at hrest
            refine iff_of_false (by simp) ?_
            rintro ⟨_, _, h, _⟩
            cases hrest.trans h
          · rename_i c conversion format' args' hparse
            rw [hparse] at hrest
            rw [Option.isSome_map, ih' ((List.suffix_cons ..).trans
              (hrest ▸ afterOptions_suffix format))]
            refine ⟨fun h => ⟨_, _, hrest.symm, h⟩, ?_⟩
            rintro ⟨_, _, h, hc⟩
            cases hrest.trans h
            exact hc
      · rw [vprintf, if_pos hch, Option.isSome_map, ih' List.suffix_rfl, complete_char hch]

/-- **A format that ends in a conversion is read beyond its terminator.** -/
theorem format_read_beyond : vprintf (fun _ ch args => ([ch], args)) ['%'] [] = none ∧
    vprintf (fun _ ch args => ([ch], args)) ['x', '%', '-', '5', '.', '*', 'l'] [] = none := by
  constructor
  · rw [vprintf, if_neg (by decide), if_neg (by decide)]
    rfl
  · rw [vprintf, if_pos (by decide), vprintf, if_neg (by decide), if_neg (by decide)]
    rfl

end Pintos.Lib
