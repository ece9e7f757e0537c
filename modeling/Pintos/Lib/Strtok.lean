/-
# Breaking a string into tokens

`strtok_r` of `lib/string.c`, with `strchr`.  The string is the list of its bytes with the
terminator, and a pointer is an index into it: an access behind the terminator halts.  A call leaves
a null byte for the delimiter behind the token, and the position after it.
-/

import Mathlib.Data.List.Forall2
import Mathlib.Data.List.TakeWhile
import Pintos.Base.Kernel

namespace Pintos.Lib

open Base Kernel List

abbrev Byte := BitVec 8

/-- The characters of a string, before its terminator. -/
structure CString where
  chars : List Byte
  no_nul : 0#8 ∉ chars

/-- `strchr` in a string with these characters before its terminator. -/
def strchr : List Byte → Byte → Option ℕ
  | [], c => if c = 0#8 then some 0 else none
  | x :: string, c =>
    if x = c then some 0 else if x = 0#8 then none else (strchr string c).map (· + 1)

/-- The bytes of the string, and what `save_ptr` points to. -/
structure Tokenizer where
  buf : List Byte
  savePtr : Option ℕ

/-- A loop that skips bytes, at position `s` with the given bytes from there on. -/
def skip (cond : Byte → Bool) : List Byte → ℕ → Kernel ℕ
  | [], _ => PANIC "access behind the terminator"
  | c :: bytes, s => if cond c then skip cond bytes (s + 1) else return s

def strtokR (s : Option ℕ) (delimiters : List Byte) (t : Tokenizer) :
    Kernel (Option ℕ × Tokenizer) :=
  match s.or t.savePtr with
  | none => PANIC "assertion failed."
  | some s => do
    let s ← skip (fun c => strchr delimiters c ≠ none ∧ c ≠ 0#8) (t.buf.drop s) s
    if t.buf[s]? = some 0#8 then return (none, { t with savePtr := some s })
    let token := s
    let s ← skip (fun c => strchr delimiters c = none) (t.buf.drop s) s
    return (some token, if t.buf[s]? ≠ some 0#8 then ⟨t.buf.set s 0#8, some (s + 1)⟩
      else { t with savePtr := some s })

/-- `n` calls, the first with `s` and the others with a null pointer. -/
def strtokCalls (delimiters : List Byte) :
    ℕ → Option ℕ → Tokenizer → Kernel (List (Option ℕ) × Tokenizer)
  | 0, _, t => return ([], t)
  | n + 1, s, t => do
    let (token, t) ← strtokR s delimiters t
    let (tokens, t) ← strtokCalls delimiters n none t
    return (token :: tokens, t)

def stringAt (buf : List Byte) (p : ℕ) : List Byte := (buf.drop p).takeWhile (· ≠ 0#8)

/-- The longest segments without a delimiter, with their positions; one begins at the front if
`first`. -/
def segments (delimiters : List Byte) : Bool → ℕ → List Byte → List (ℕ × List Byte)
  | _, _, [] => []
  | first, p, c :: string =>
    if c ∈ delimiters then segments delimiters true (p + 1) string
    else (if first then [(p, (c :: string).takeWhile (· ∉ delimiters))] else []) ++
      segments delimiters false (p + 1) string

variable {D done tok bytes rest : List Byte} {c : Byte}

lemma strchr_eq_none (h0 : 0#8 ∉ D) : strchr D c = none ↔ c ∉ D ∧ c ≠ 0#8 := by
  induction D with
  | nil => simp [strchr]
  | cons x D ih =>
    obtain ⟨hx, h0⟩ := not_or.1 (mem_cons.not.1 h0)
    by_cases h : x = c
    · simp [strchr, h]
    · rw [strchr, if_neg h, if_neg (Ne.symm hx), Option.map_eq_none_iff, ih h0, mem_cons,
        or_iff_right (Ne.symm h)]

lemma getElem?_mid (l : List Byte) : (l ++ c :: bytes)[l.length]? = some c := by simp

lemma skip_append {cond : Byte → Bool} (htok : ∀ x ∈ tok, cond x) (hc : ¬ cond c) (s : ℕ) :
    skip cond (tok ++ c :: bytes) s = .ok (s + tok.length) := by
  induction tok generalizing s with
  | nil => exact if_neg hc
  | cons x tok ih =>
    obtain ⟨hx, htok⟩ := forall_mem_cons.1 htok
    rw [cons_append, skip, if_pos hx, ih htok, length_cons, Nat.add_assoc, Nat.add_comm 1]

lemma segments_false (p : ℕ) : segments D false p rest =
    segments D true (p + (rest.takeWhile (· ∉ D)).length) (rest.dropWhile (· ∉ D)) := by
  induction rest generalizing p with
  | nil => rfl
  | cons c rest ih =>
    by_cases hc : c ∈ D
    · simp [segments, hc]
    · simp [segments, hc, ih, Nat.add_assoc, Nat.add_comm 1]

lemma stringAt_token (htok : ∀ x ∈ tok, x ≠ 0#8) (l : List Byte) :
    stringAt (l ++ tok ++ 0#8 :: bytes) l.length = tok := by
  rw [stringAt, append_assoc, drop_left, takeWhile_append_of_pos (by simpa using htok)]
  simp

/-- A byte of the string before and after some calls. -/
def Cuts (D : List Byte) (a b : Byte) : Prop := b = a ∨ a ∈ D ∧ b = 0#8

lemma cuts_refl (l : List Byte) : Forall₂ (Cuts D) l l := forall₂_same.2 fun _ _ => .inl rfl

variable (h0 : 0#8 ∉ D)
include h0

lemma strtokR_skip (hc : c ∈ D) :
    strtokR none D ⟨done ++ c :: bytes, some done.length⟩ =
      strtokR none D ⟨done ++ [c] ++ bytes, some (done ++ [c]).length⟩ := by
  have hc0 : c ≠ 0#8 := fun h => h0 (h ▸ hc)
  simp only [strtokR, Option.none_or, drop_left]
  rw [skip, if_pos (by simp [strchr_eq_none h0, hc, hc0]), append_assoc, singleton_append,
    length_append]
  rfl

lemma strtokR_token (htok : ∀ x ∈ tok, x ∉ D ∧ x ≠ 0#8) (hne : tok ≠ []) (hc : c ∈ D ∨ c = 0#8) :
    strtokR none D ⟨done ++ tok ++ c :: bytes, some done.length⟩ =
      .ok (some done.length, ⟨done ++ tok ++ 0#8 :: bytes,
        some ((done ++ tok).length + if c = 0#8 then 0 else 1)⟩) := by
  obtain ⟨x, l, rfl⟩ := exists_cons_of_ne_nil hne
  obtain ⟨hx, hx0⟩ := htok x mem_cons_self
  have hdrop : (done ++ x :: l ++ c :: bytes).drop done.length = x :: l ++ c :: bytes := by
    rw [append_assoc, drop_left]
  have hfirst : (done ++ x :: l ++ c :: bytes)[done.length]? ≠ some 0#8 := by
    rw [append_assoc, cons_append, getElem?_mid]
    simpa using hx0
  have hskip : skip (fun c => strchr D c = none) (x :: l ++ c :: bytes) done.length =
      .ok (done ++ x :: l).length := by
    rw [length_append]
    refine skip_append (fun y hy => ?_) ?_ _
    · simpa [strchr_eq_none h0] using htok y hy
    · simpa [strchr_eq_none h0, or_iff_not_imp_left] using hc
  have hstay : skip (fun c => strchr D c ≠ none ∧ c ≠ 0#8) (x :: l ++ c :: bytes) done.length =
      .ok done.length := if_neg (by simp [strchr_eq_none h0, hx])
  simp only [strtokR, Option.none_or, hdrop, hstay, hskip, ok_bind, if_neg hfirst, getElem?_mid]
  by_cases h : c = 0#8
  · simp [h, pure_eq_ok]
  · simp [h, pure_eq_ok]

/-- One call replaces `before` by `after`, and returns the first segment left. -/
lemma strtokR_spec (done : List Byte) (hrest : 0#8 ∉ rest) :
    ∃ token before after rest', rest = before ++ rest' ∧ Forall₂ (Cuts D) before after ∧
      strtokR none D ⟨done ++ (rest ++ [0#8]), some done.length⟩ =
        .ok (token, ⟨done ++ after ++ (rest' ++ [0#8]), some (done ++ after).length⟩) ∧
      (∀ bytes, Forall₂ (Cuts D) (rest' ++ [0#8]) bytes →
        token.map (fun p => (p, stringAt (done ++ after ++ bytes) p)) =
          (segments D true done.length rest)[0]?) ∧
      (segments D true done.length rest).tail = segments D true (done ++ after).length rest' := by
  induction rest generalizing done with
  | nil =>
    refine ⟨none, [], [], [], rfl, .nil, ?_, fun _ _ => rfl, rfl⟩
    simp [strtokR, skip, pure_eq_ok, ok_bind]
  | cons c rest ih =>
    by_cases hc : c ∈ D
    · obtain ⟨token, before, after, rest', rfl, hcuts, hcall, hhead, htail⟩ :=
        ih (done ++ [c]) fun h => hrest (mem_cons_of_mem c h)
      rw [length_append, append_assoc] at htail hhead
      refine ⟨token, c :: before, c :: after, rest', rfl, .cons (.inl rfl) hcuts, ?_, ?_, ?_⟩
      · rw [cons_append, strtokR_skip h0 hc, hcall]
        simp
      · simpa [segments, hc] using hhead
      · simpa [segments, hc] using htail
    · -- the segment that begins here, and what is behind it
      obtain ⟨tok, htake⟩ : ∃ tok, tok = (c :: rest).takeWhile (· ∉ D) := ⟨_, rfl⟩
      obtain ⟨r, hdrop⟩ : ∃ r, r = (c :: rest).dropWhile (· ∉ D) := ⟨_, rfl⟩
      have hsplit : c :: rest = tok ++ r := by rw [htake, hdrop, takeWhile_append_dropWhile]
      have hne : tok ≠ [] := by simp [htake, hc]
      have hseg : segments D true done.length (c :: rest) =
          (done.length, tok) :: segments D true (done ++ tok).length r := by
        rw [segments, if_neg hc, segments_false, if_pos rfl, htake, hdrop]
        simp [hc, Nat.add_assoc, Nat.add_comm 1]
      have htok : ∀ x ∈ tok, x ∉ D ∧ x ≠ 0#8 := fun x hx => by
        have hx' := mem_takeWhile_imp (htake ▸ hx)
        exact ⟨by simpa using hx', fun h => hrest (by rw [hsplit]; simp [← h, hx])⟩
      have hr : ∀ d ∈ r.head?, d ∈ D := fun d hd => by
        have hd' := head?_dropWhile_not (· ∉ D) (c :: rest)
        rw [← hdrop, hd] at hd'
        simpa using hd'
      have hat := fun l => @stringAt_token tok l (fun x hx => (htok x hx).2) done
      rw [hseg, hsplit]
      cases r with
      | nil =>
        have hcall := @strtokR_token D done tok [] 0#8 h0 htok hne (.inr rfl)
        refine ⟨some done.length, tok, tok, [], rfl, cuts_refl _, ?_, fun bytes hbytes => ?_, rfl⟩
        · simpa using hcall
        · obtain ⟨b, l, hb, hl, rfl⟩ := forall₂_cons_left_iff.1 hbytes
          obtain rfl : b = 0#8 := hb.elim id And.right
          simpa using hat l
      | cons d r =>
        have hcall := @strtokR_token D done tok (r ++ [0#8]) d h0 htok hne (.inl (hr d rfl))
        have hd : d ≠ 0#8 := fun h => h0 (h ▸ hr d rfl)
        refine ⟨some done.length, tok ++ [d], tok ++ [0#8], r, by simp, ?_, ?_,
          fun bytes _ => ?_, ?_⟩
        · exact rel_append (cuts_refl tok) (.cons (.inr ⟨hr d rfl, rfl⟩) .nil)
        · simpa [hd, Nat.add_assoc] using hcall
        · simpa using hat bytes
        · simp [segments, hr d rfl, Nat.add_assoc]

/-- The calls from a position on, in the string that the last one leaves. -/
lemma strtokCalls_spec (n : ℕ) (done : List Byte) (hrest : 0#8 ∉ rest) :
    ∃ tokens bytes save, strtokCalls D n none ⟨done ++ (rest ++ [0#8]), some done.length⟩ =
        .ok (tokens, ⟨done ++ bytes, save⟩) ∧
      tokens.map (Option.map fun p => (p, stringAt (done ++ bytes) p)) =
        (range n).map ((segments D true done.length rest)[·]?) ∧
      Forall₂ (Cuts D) (rest ++ [0#8]) bytes := by
  induction n generalizing done rest with
  | zero => exact ⟨[], _, _, rfl, rfl, cuts_refl _⟩
  | succ n ih =>
    obtain ⟨token, before, after, rest', rfl, hcuts, hcall, hhead, htail⟩ :=
      strtokR_spec h0 done hrest
    obtain ⟨tokens, bytes, save, hrun, hseg, hbytes⟩ := @ih rest' (done ++ after) (by simp_all)
    refine ⟨token :: tokens, after ++ bytes, save, ?_, ?_, ?_⟩
    · rw [strtokCalls, hcall, ok_bind]
      dsimp only
      rw [hrun, ← append_assoc]
      rfl
    · rw [map_cons, ← append_assoc, hhead bytes hbytes, hseg, ← htail, range_succ_eq_map, map_cons,
        map_map]
      simp [Function.comp_def]
    · rw [append_assoc]
      exact rel_append hcuts hbytes

omit h0

/-- **The calls return the segments of the string in order**, then null pointers; only delimiters
are overwritten. -/
theorem strtok_returns_segments (string delimiters : CString) (n : ℕ) (save : Option ℕ) :
    ∃ tokens buf save', strtokCalls delimiters.chars (n + 1) (some 0) ⟨string.chars ++ [0#8], save⟩
        = .ok (tokens, ⟨buf, save'⟩) ∧
      tokens.map (Option.map fun p => (p, stringAt buf p)) =
        (range (n + 1)).map ((segments delimiters.chars true 0 string.chars)[·]?) ∧
      Forall₂ (Cuts delimiters.chars) (string.chars ++ [0#8]) buf := by
  obtain ⟨tokens, bytes, save', hrun, hrest⟩ :=
    strtokCalls_spec delimiters.no_nul (n + 1) [] string.no_nul
  exact ⟨tokens, bytes, save', hrun, hrest⟩

end Pintos.Lib
