/-
# The arguments of a program

What `process_execute` keeps of a command line, and the stack `setup_stack` makes of it, in
`userprog/process.c`.

The line is copied into a page, with a NUL for every space.  `setup_stack` pushes the copy, a
padding and a null pointer, and walks through the copy from its end: an argument starts where a NUL
is followed by another character, and with the first character of the line.
-/

import Mathlib.Algebra.BigOperators.Group.List.Basic
import Pintos.Filesys.Directory
import Pintos.Threads.Vaddr

namespace Pintos.Userprog

open Base List Filesys

/-! ### The functions -/

structure UprgParams where
  len : ℕ
  cmdline : List (BitVec 8)
  length_cmdline : cmdline.length = len + 1

/-- The characters copied at most: `PGSIZE - sizeof (struct uprg_params) - 1`. -/
def CMDLINE_MAX : ℕ := PGSIZE - 516 - 1

def nul (c : BitVec 8) : BitVec 8 := if c = 32 then 0 else c

def copied (cmdline : CString) : List (BitVec 8) := cmdline.bytes.take CMDLINE_MAX

def uprgParams (cmdline : CString) : UprgParams where
  len := (copied cmdline).length
  cmdline := (copied cmdline).map nul ++ [0]
  length_cmdline := by simp

structure Stack where
  mem : Memory
  esp : ℕ

def Stack.pushBytes (s : Stack) (bytes : List (BitVec 8)) : Stack where
  mem := overwrite s.mem (s.esp - bytes.length) bytes.length fun i => bytes.getD i 0
  esp := s.esp - bytes.length

def Stack.push (s : Stack) (w : ℕ) : Stack := s.pushBytes (leBytes w)

def foundToken (s : Stack × ℕ) (addr : ℕ) : Stack × ℕ := (s.1.push addr, s.2 + 1)

/-- A round of the loop that counts the arguments; `t` is the last character. -/
def tokenRound (len : ℕ) : (Stack × ℕ) × BitVec 8 → ℕ → (Stack × ℕ) × BitVec 8
  | (s, t), i =>
    let addr := PHYS_BASE - 1 - i
    let s := if t ≠ 0 ∧ s.1.mem addr = 0 then foundToken s (addr + 1) else s
    let s := if i = len then foundToken s addr else s
    (s, s.1.mem addr)

/-- The copy of the line, the padding and the null pointer that ends `argv`. -/
def pushLine (mem : Memory) (params : UprgParams) : Stack :=
  let s := (⟨mem, PHYS_BASE⟩ : Stack).pushBytes params.cmdline
  let s := s.pushBytes (replicate ((params.len + 1) % 4) 0)
  s.push 0

def pushMain (s : Stack × ℕ) : Stack := ((s.1.push s.1.esp).push s.2).push 0

def setupStack (mem : Memory) (params : UprgParams) : Stack :=
  pushMain ((range (params.len + 1)).foldl (tokenRound params.len) ((pushLine mem params, 0), 0)).1

def newStack (mem : Memory) (cmdline : CString) : Stack := setupStack mem (uprgParams cmdline)

/-! ### The bytes of the stack -/

structure Stack.Holds (mem : Memory) (s : Stack) (bytes : List (BitVec 8)) : Prop where
  esp : s.esp + bytes.length = PHYS_BASE
  window : bytesAt s.mem s.esp bytes.length = bytes
  rest : ∀ x, x < s.esp ∨ PHYS_BASE ≤ x → s.mem x = mem x

variable {mem : Memory} {s : Stack} {Q R T line suf : List (BitVec 8)} {b : BitVec 8} {len : ℕ}

lemma Stack.Holds.pushBytes (hs : s.Holds mem T) (new : List (BitVec 8))
    (hroom : new.length + T.length ≤ PHYS_BASE) : (s.pushBytes new).Holds mem (new ++ T) := by
  have hesp := hs.esp
  refine ⟨?_, ?_, fun x hx => ?_⟩
  · simp only [Stack.pushBytes, length_append]
    omega
  · have hup : s.esp - new.length + new.length = s.esp := by omega
    have hnew : bytesAt (fun i => new.getD i 0) 0 new.length = new :=
      ext_getElem (length_bytesAt ..) fun i _ hi => by simp [getElem_bytesAt, hi]
    rw [length_append, bytesAt_add, Stack.pushBytes, bytesAt_overwrite, hnew, hup,
      bytesAt_overwrite_of_disjoint _ _ _ _ _ _ (.inr hup.le), hs.window]
  · simp only [Stack.pushBytes] at hx ⊢
    rw [overwrite, if_neg (by omega), hs.rest x (by omega)]

lemma Stack.Holds.suffix (hs : s.Holds mem (Q ++ R)) :
    bytesAt s.mem (PHYS_BASE - R.length) R.length = R := by
  have hesp := hs.esp
  have hwindow := hs.window
  rw [length_append] at hesp
  rw [length_append, bytesAt_add] at hwindow
  have hR := (append_inj hwindow (length_bytesAt ..)).2
  rwa [show s.esp + Q.length = PHYS_BASE - R.length by omega] at hR

lemma Stack.Holds.read (hs : s.Holds mem (Q ++ b :: R)) :
    s.mem (PHYS_BASE - 1 - R.length) = b := by
  have hR := hs.suffix
  rw [length_cons, bytesAt_succ, Nat.add_comm, ← Nat.sub_sub] at hR
  exact (cons.inj hR).1

/-! ### The walk -/

def Walked (mem : Memory) (T : List (BitVec 8)) (s : Stack × ℕ) (ws : List ℕ) : Prop :=
  s.1.Holds mem (ws.flatMap leBytes ++ T) ∧ s.2 = ws.length

lemma length_flatMap_leBytes (ws : List ℕ) : (ws.flatMap leBytes).length = 4 * ws.length := by
  simp [length_flatMap, Nat.mul_comm]

variable {ws : List ℕ} {sc : Stack × ℕ}

lemma Stack.Holds.push {w : ℕ} (hs : s.Holds mem (ws.flatMap leBytes ++ T))
    (hroom : 4 * (ws.length + 1) + T.length ≤ PHYS_BASE) :
    (s.push w).Holds mem ((w :: ws).flatMap leBytes ++ T) := by
  rw [flatMap_cons, append_assoc]
  refine hs.pushBytes _ ?_
  rw [length_append, length_flatMap_leBytes, length_leBytes]
  omega

lemma Walked.ite (hs : Walked mem T sc ws) (c : Prop) [Decidable c] (w : ℕ)
    (hroom : 4 * (ws.length + 1) + T.length ≤ PHYS_BASE) :
    Walked mem T (if c then foundToken sc w else sc) (if c then w :: ws else ws) := by
  split_ifs
  · exact ⟨hs.1.push hroom, congrArg (· + 1) hs.2⟩
  · exact hs

lemma Walked.pushMain (hs : Walked mem T sc ws)
    (hroom : 4 * (ws.length + 3) + T.length ≤ PHYS_BASE) : (pushMain sc).Holds mem
      ((0 :: ws.length :: ((pushMain sc).esp + 12) :: ws).flatMap leBytes ++ T) := by
  have hesp := hs.1.esp
  rw [length_append, length_flatMap_leBytes] at hesp
  have hargv : (Userprog.pushMain sc).esp + 12 = sc.1.esp := by
    show sc.1.esp - 4 - 4 - 4 + 12 = sc.1.esp
    omega
  rw [hargv, ← hs.2]
  have h1 := hs.1.push (w := sc.1.esp) (by omega)
  have h2 := h1.push (w := sc.2) (by rw [length_cons]; omega)
  exact h2.push hroom

lemma tokenRound_walked (len : ℕ) {t : BitVec 8} {i : ℕ} (hT : T = Q ++ b :: R) (hi : R.length = i)
    (hs : Walked mem T sc ws) (hroom : 4 * (ws.length + 2) + T.length ≤ PHYS_BASE) :
    (tokenRound len (sc, t) i).2 = b ∧ Walked mem T (tokenRound len (sc, t) i).1
      (let ws := if t ≠ 0 ∧ b = 0 then (PHYS_BASE - 1 - i + 1) :: ws else ws
      if i = len then (PHYS_BASE - 1 - i) :: ws else ws) := by
  have hread : ∀ {sc ws}, Walked mem T sc ws → sc.1.mem (PHYS_BASE - 1 - i) = b := by
    intro _ _ hs
    have hholds := hs.1
    rw [hT, ← append_assoc] at hholds
    rw [← hi]
    exact hholds.read
  have h1 := hs.ite (t ≠ 0 ∧ b = 0) (PHYS_BASE - 1 - i + 1) (by omega)
  have h2 := h1.ite (i = len) (PHYS_BASE - 1 - i) (by
    split_ifs
    · exact hroom
    · omega)
  simp only [tokenRound, hread hs]
  exact ⟨hread h2, h2⟩

/-- Where the arguments start that follow a space, in the end of a line. -/
def starts : List (BitVec 8) → List ℕ
  | [] => []
  | c :: cs =>
    if c = 32 ∧ cs.headD 32 ≠ 32 then (PHYS_BASE - 1 - cs.length) :: starts cs else starts cs

def pointers (line : List (BitVec 8)) : List ℕ := (PHYS_BASE - 1 - line.length) :: starts line

lemma length_starts_le (line : List (BitVec 8)) : (starts line).length ≤ line.length := by
  induction line with
  | nil => exact le_rfl
  | cons c _ ih =>
    rw [starts, length_cons]
    split_ifs
    · exact Nat.succ_le_succ ih
    · exact Nat.le_succ_of_le ih

lemma nul_eq_zero {c : BitVec 8} (hc : c ≠ 0) : nul c = 0 ↔ c = 32 := by
  rw [nul]
  split_ifs with h
  · exact iff_of_true rfl h
  · exact iff_of_false hc h

lemma foldl_tokenRound (hT : T = Q ++ (suf.map nul ++ [0])) (hnul : 0 ∉ suf)
    (hlen : suf.length ≤ len) (hs : Walked mem T (s, 0) [])
    (hroom : 4 * (suf.length + 2) + T.length ≤ PHYS_BASE) :
    let r := (range (suf.length + 1)).foldl (tokenRound len) ((s, 0), 0)
    r.2 = nul (suf.headD 32) ∧
      Walked mem T r.1 (if suf.length = len then pointers suf else starts suf) := by
  induction suf generalizing Q with
  | nil => exact tokenRound_walked len (t := 0) hT rfl hs hroom
  | cons c cs ih =>
    have hc : c ≠ 0 := fun h => hnul (h ▸ mem_cons_self ..)
    have hcs : 0 ∉ cs := fun h => hnul (mem_cons_of_mem _ h)
    have hhead : cs.headD 32 ≠ 0 := by
      cases cs with
      | nil => decide
      | cons => exact fun h => hcs (h ▸ mem_cons_self ..)
    rw [length_cons] at hlen hroom ⊢
    obtain ⟨ht, hw⟩ := ih (hT.trans (append_cons ..)) hcs (by omega) (by omega)
    rw [if_neg (by omega)] at hw
    have hstarts := length_starts_le cs
    have hround := tokenRound_walked len (t := nul (cs.headD 32)) (i := cs.length + 1) hT
      (by simp) hw (by omega)
    have haddr : PHYS_BASE - 1 - (cs.length + 1) + 1 = PHYS_BASE - 1 - cs.length := by omega
    simp only [ne_eq, nul_eq_zero hhead, nul_eq_zero hc, haddr, and_comm] at hround
    rw [range_succ, foldl_append, foldl_cons, foldl_nil, ← Prod.mk.eta (p := foldl _ _ _), ht]
    exact hround

def bottom (line : List (BitVec 8)) : List (BitVec 8) :=
  leBytes 0 ++ (replicate ((line.length + 1) % 4) 0 ++ (line.map nul ++ [0]))

def stackSize (line : List (BitVec 8)) : ℕ :=
  line.length + 1 + (line.length + 1) % 4 + 4 * ((starts line).length + 5)

section Line

variable {cmdline : CString} (mem : Memory) (hline : copied cmdline = line)

lemma length_bottom (line : List (BitVec 8)) :
    (bottom line).length = 4 + ((line.length + 1) % 4 + (line.length + 1)) := by
  simp [bottom]

include hline

lemma length_line : line.length ≤ 3579 := hline ▸ length_take_le ..

lemma pushLine_holds : (pushLine mem (uprgParams cmdline)).Holds mem (bottom line) := by
  have hlen := length_line hline
  have hempty : (⟨mem, PHYS_BASE⟩ : Stack).Holds mem [] := ⟨Nat.add_zero _, rfl, fun _ _ => rfl⟩
  have hcopy := hempty.pushBytes (line.map nul ++ [0]) (by simp [PHYS_BASE]; omega)
  rw [append_nil] at hcopy
  have hpad := hcopy.pushBytes (replicate ((line.length + 1) % 4) 0) (by simp [PHYS_BASE]; omega)
  subst hline
  exact hpad.pushBytes _ (by simp [PHYS_BASE]; omega)

theorem newStack_holds : (newStack mem cmdline).Holds mem ((0 :: (pointers line).length ::
    ((newStack mem cmdline).esp + 12) :: (pointers line ++ [0])).flatMap leBytes ++
      replicate ((line.length + 1) % 4) 0 ++ (line.map nul ++ [0])) := by
  have hlen := length_line hline
  have hstarts := length_starts_le line
  have hroom : 4 * (line.length + 4) + (bottom line).length ≤ PHYS_BASE := by
    rw [length_bottom, PHYS_BASE]
    omega
  have hnul : 0 ∉ line := hline ▸ fun h => cmdline.zero_notMem (mem_of_mem_take h)
  have hT : bottom line = leBytes 0 ++ replicate ((line.length + 1) % 4) 0 ++
      (line.map nul ++ [0]) := (append_assoc ..).symm
  obtain ⟨-, hwalk⟩ := foldl_tokenRound (s := pushLine mem (uprgParams cmdline)) hT hnul le_rfl
    ⟨pushLine_holds mem hline, rfl⟩ (by omega)
  rw [if_pos rfl] at hwalk
  have hmain := hwalk.pushMain (by rw [pointers, length_cons]; omega)
  subst hline
  simpa [bottom, newStack, setupStack, uprgParams] using hmain

lemma newStack_esp : (newStack mem cmdline).esp + stackSize line = PHYS_BASE := by
  have hesp := (newStack_holds mem hline).esp
  simp only [length_append, length_flatMap_leBytes, pointers, length_cons, length_nil,
    length_replicate, length_map] at hesp
  rw [stackSize]
  omega

lemma newStack_words :
    bytesAt (newStack mem cmdline).mem (newStack mem cmdline).esp
      (4 * ((pointers line).length + 4)) =
      (0 :: (pointers line).length :: ((newStack mem cmdline).esp + 12) ::
        (pointers line ++ [0])).flatMap leBytes := by
  have hwindow := (newStack_holds mem hline).window
  rw [append_assoc, length_append, bytesAt_add] at hwindow
  have hwords := (append_inj hwindow (length_bytesAt ..)).1
  rw [length_flatMap_leBytes] at hwords
  simpa using hwords

end Line

def ArgAt (mem : Memory) (a : ℕ) (arg : List (BitVec 8)) : Prop :=
  PHYS_BASE - PGSIZE ≤ a ∧ a + arg.length < PHYS_BASE ∧ bytesAt mem a (arg.length + 1) = arg ++ [0]

def arguments (line : List (BitVec 8)) : List (List (BitVec 8)) :=
  (line.splitOn 32).filter (· ≠ [])

lemma ArgAt.cons {a : ℕ} {arg : List (BitVec 8)} (ha : PHYS_BASE - PGSIZE ≤ a)
    (h : ArgAt mem (a + 1) arg) : ArgAt mem a (mem a :: arg) := by
  obtain ⟨-, _, hbytes⟩ := h
  refine ⟨ha, by rw [length_cons]; omega, ?_⟩
  rw [length_cons, bytesAt_succ, hbytes, cons_append]

lemma starts_arguments (hlen : line.length ≤ CMDLINE_MAX)
    (hmem : bytesAt mem (PHYS_BASE - 1 - line.length) (line.length + 1) = line.map nul ++ [0]) :
    ∃ first others, line.splitOn 32 = first :: others ∧ (first = [] ↔ line.headD 32 = 32) ∧
      ArgAt mem (PHYS_BASE - 1 - line.length) first ∧
      Forall₂ (ArgAt mem) (starts line) (others.filter (· ≠ [])) := by
  induction line with
  | nil => exact ⟨[], [], rfl, iff_of_true rfl rfl, ⟨by decide, by decide, hmem⟩, .nil⟩
  | cons c cs ih =>
    have hlen : cs.length + 1 ≤ 3579 := hlen
    have ha : PHYS_BASE - 1 - (cs.length + 1) + 1 = PHYS_BASE - 1 - cs.length ∧
        PHYS_BASE - PGSIZE ≤ PHYS_BASE - 1 - (cs.length + 1) := by
      rw [PHYS_BASE, PGSIZE]
      omega
    rw [length_cons] at hmem ⊢
    rw [bytesAt_succ, ha.1] at hmem
    obtain ⟨hc, hmem⟩ := cons.inj hmem
    obtain ⟨first, others, hsplit, hnil, harg, hothers⟩ := ih (Nat.le_of_succ_le hlen) hmem
    rw [splitOn] at hsplit
    rw [splitOn, splitOnP_cons_eq_if_modifyHead, hsplit, starts]
    by_cases hspace : c = 32
    · rw [if_pos (beq_iff_eq.2 hspace)]
      refine ⟨[], first :: others, rfl, iff_of_true rfl hspace, ⟨ha.2, ?_, ?_⟩, ?_⟩
      · rw [length_nil, PHYS_BASE]
        omega
      · rw [bytesAt_succ, hc, nul, if_pos hspace]
        rfl
      · by_cases hfirst : first = []
        · rw [if_neg fun h => h.2 (hnil.1 hfirst), filter_cons_of_neg (by simpa using hfirst)]
          exact hothers
        · rw [if_pos ⟨hspace, fun h => hfirst (hnil.2 h)⟩,
            filter_cons_of_pos (by simpa using hfirst)]
          exact .cons harg hothers
    · rw [if_neg (by simpa using hspace), if_neg fun h => hspace h.1]
      refine ⟨c :: first, others, rfl, iff_of_false (by simp) hspace, ?_, hothers⟩
      rw [nul, if_neg hspace] at hc
      rw [← ha.1] at harg
      exact hc ▸ harg.cons ha.2

/-- The stack has a return address, `argc` and `argv` for the arguments. -/
def Passes (s : Stack) (args : List (List (BitVec 8))) : Prop :=
  ∃ argv, bytesAt s.mem s.esp (4 * (args.length + 4)) =
      (0 :: args.length :: (s.esp + 12) :: (argv ++ [0])).flatMap leBytes ∧
    Forall₂ (ArgAt s.mem) argv args

variable {cmdline : CString}

/-- What `setup_stack` passes: the arguments of the part that was copied. -/
lemma passes_copied (mem : Memory) (hfirst : cmdline.bytes.headD 32 ≠ 32) :
    Forall₂ (ArgAt (newStack mem cmdline).mem) (pointers (copied cmdline))
      (arguments (copied cmdline)) := by
  have hlen : (copied cmdline).length ≤ CMDLINE_MAX := length_take_le ..
  have hmem := (newStack_holds mem (rfl : copied cmdline = _)).suffix
  rw [length_append, length_map, length_singleton, Nat.add_comm, ← Nat.sub_sub,
    Nat.add_comm] at hmem
  obtain ⟨first, others, hsplit, hnil, harg, hothers⟩ := starts_arguments hlen hmem
  have hhead : (copied cmdline).headD 32 = cmdline.bytes.headD 32 := by
    rw [copied]
    cases cmdline.bytes <;> rfl
  have hargs : arguments (copied cmdline) = first :: others.filter (· ≠ []) := by
    rw [arguments, hsplit]
    exact filter_cons_of_pos (decide_eq_true fun h => hfirst (hhead ▸ hnil.1 h))
  rw [hargs]
  exact .cons harg hothers

/-! ### One stack passes one list of arguments -/

lemma ArgAt.takeWhile_eq {a n : ℕ} {arg : List (BitVec 8)} (h : ArgAt mem a arg) (h0 : 0 ∉ arg)
    (hn : arg.length < n) : (bytesAt mem a n).takeWhile (· ≠ 0) = arg := by
  obtain ⟨m, rfl⟩ := Nat.exists_eq_add_of_le hn
  rw [bytesAt_add, h.2.2, append_assoc, takeWhile_append_of_pos, singleton_append,
    takeWhile_cons_of_neg (by decide), append_nil]
  exact fun b hb => decide_eq_true (ne_of_mem_of_not_mem hb h0)

lemma forall₂_argAt_unique {argv : List ℕ} {args args' : List (List (BitVec 8))}
    (h : Forall₂ (ArgAt mem) argv args) (h' : Forall₂ (ArgAt mem) argv args')
    (h0 : ∀ x ∈ args, 0 ∉ x) (h0' : ∀ x ∈ args', 0 ∉ x) : args = args' := by
  induction h generalizing args' with
  | nil => cases h'; rfl
  | @cons _ x _ args hx _ ih =>
    cases h' with
    | @cons _ y _ _ hy hrest =>
      have hxy : x = y := (hx.takeWhile_eq (n := x.length + y.length + 1) (h0 x mem_cons_self)
        (by omega)).symm.trans (hy.takeWhile_eq (h0' y mem_cons_self) (by omega))
      rw [hxy, ih hrest (fun z hz => h0 z (mem_cons_of_mem _ hz))
        fun z hz => h0' z (mem_cons_of_mem _ hz)]

lemma forall₂_argAt_lt {argv : List ℕ} {args : List (List (BitVec 8))}
    (h : Forall₂ (ArgAt mem) argv args) : ∀ a ∈ argv, a < PHYS_BASE := by
  induction h with
  | nil => nofun
  | cons hx _ ih => exact forall_mem_cons.2 ⟨(Nat.le_add_right ..).trans_lt hx.2.1, ih⟩

lemma flatMap_leBytes_inj {ws vs : List ℕ} (h : ws.flatMap leBytes = vs.flatMap leBytes)
    (hw : ∀ w ∈ ws, w < 2 ^ 32) (hv : ∀ v ∈ vs, v < 2 ^ 32) : ws = vs := by
  induction ws generalizing vs with
  | nil =>
    have hlen := congrArg length h
    rw [length_flatMap_leBytes, length_flatMap_leBytes, length_nil] at hlen
    exact (eq_nil_of_length_eq_zero (by omega)).symm
  | cons w ws ih =>
    cases vs with
    | nil => cases h
    | cons v vs =>
      rw [flatMap_cons, flatMap_cons] at h
      obtain ⟨hwv, hrest⟩ := append_inj h ((length_leBytes w).trans (length_leBytes v).symm)
      have heq := congrArg leWord hwv
      rw [leWord_leBytes (hw w mem_cons_self), leWord_leBytes (hv v mem_cons_self)] at heq
      rw [heq, ih hrest (fun x hx => hw x (mem_cons_of_mem _ hx))
        fun x hx => hv x (mem_cons_of_mem _ hx)]

lemma flatten_arguments (line : List (BitVec 8)) :
    (arguments line).flatten = line.filter (· ≠ 32) := by
  rw [arguments, flatten_filter_ne_nil]
  induction line with
  | nil => rfl
  | cons c cs ih =>
    rw [splitOn, splitOnP_cons_eq_if_modifyHead]
    obtain ⟨first, others, hsplit⟩ := exists_cons_of_ne_nil (splitOnP_ne_nil (· == 32) cs)
    rw [splitOn, hsplit, flatten_cons] at ih
    by_cases hc : c = 32
    · rw [if_pos (beq_iff_eq.2 hc), hsplit, filter_cons_of_neg (by simpa using hc), ← ih]
      rfl
    · rw [if_neg (by simpa using hc), hsplit, filter_cons_of_pos (by simpa using hc), ← ih]
      rfl

lemma zero_notMem_arguments {line : List (BitVec 8)} (h : 0 ∉ line) :
    ∀ x ∈ arguments line, 0 ∉ x := by
  intro x hx h0
  have hmem : (0 : BitVec 8) ∈ (arguments line).flatten := mem_flatten_of_mem hx h0
  rw [flatten_arguments] at hmem
  exact h (mem_filter.1 hmem).1

/-- Spaces at the end add no argument. -/
lemma arguments_append_spaces (line : List (BitVec 8)) (k : ℕ) :
    arguments (line ++ replicate k 32) = arguments line := by
  have hspaces : ∀ k, (replicate k (32 : BitVec 8)).splitOn 32 = [] :: replicate k [] := by
    intro k
    induction k with
    | zero => rfl
    | succ k ih => rw [replicate_succ, splitOn, splitOnP_cons_eq_if_modifyHead,
        if_pos (by decide), ← splitOn, ih, replicate_succ]
  have hsplit : (line ++ replicate k 32).splitOn 32 = line.splitOn 32 ++ replicate k [] := by
    induction line with
    | nil => exact hspaces k
    | cons c cs ih =>
      rw [splitOn, splitOn] at ih
      rw [cons_append, splitOn, splitOn, splitOnP_cons_eq_if_modifyHead, ih,
        splitOnP_cons_eq_if_modifyHead]
      obtain ⟨first, others, hcs⟩ := exists_cons_of_ne_nil (splitOnP_ne_nil (· == 32) cs)
      rw [hcs]
      split_ifs <;> rfl
  rw [arguments, hsplit, filter_append, arguments, filter_replicate_of_neg (by simp), append_nil]

/-- A stack that passes arguments passes those of the part that was copied. -/
lemma Passes.arguments_eq {mem : Memory} (h :
    Passes (newStack mem cmdline) (arguments cmdline.bytes))
    (hfirst : cmdline.bytes.headD 32 ≠ 32) (hfit : stackSize cmdline.bytes ≤ PGSIZE) :
    arguments cmdline.bytes = arguments (copied cmdline) := by
  obtain ⟨argv, hwords, hargv⟩ := h
  have hcopied := passes_copied mem hfirst
  have hesp := newStack_esp mem (rfl : copied cmdline = _)
  have hcut := newStack_words mem (rfl : copied cmdline = _)
  have hnul : 0 ∉ copied cmdline := fun h => cmdline.zero_notMem (mem_of_mem_take h)
  have hargc : (arguments cmdline.bytes).length < 2 ^ 32 := by
    have hone : ∀ n ∈ (arguments cmdline.bytes).map length, 1 ≤ n := by
      simp only [arguments, mem_map, mem_filter, decide_eq_true_eq, forall_exists_index, and_imp]
      rintro _ x _ hx rfl
      exact length_pos_iff.2 hx
    have hle := length_le_sum_of_one_le _ hone
    rw [length_map, ← length_flatten, flatten_arguments] at hle
    have hall := (length_filter_le (· ≠ 32) cmdline.bytes)
    rw [stackSize, PGSIZE] at hfit
    omega
  have hlen : (pointers (copied cmdline)).length < 2 ^ 32 := by
    have hcopy := length_line (rfl : copied cmdline = _)
    have hstarts := length_starts_le (copied cmdline)
    rw [pointers, length_cons]
    omega
  -- The second word is `argc`, so that both have as many words.
  have hsame : (arguments cmdline.bytes).length = (pointers (copied cmdline)).length := by
    have hword := fun n => bytesAt_inner (newStack mem cmdline).mem (newStack mem cmdline).esp
      (by omega : 4 + 4 ≤ 4 * (n + 4))
    have htwo := (hword _).trans (congrArg (fun bytes => (bytes.drop 4).take 4) hwords)
    rw [(hword _).trans (congrArg (fun bytes => (bytes.drop 4).take 4) hcut)] at htwo
    have hle : leBytes (pointers (copied cmdline)).length =
        leBytes (arguments cmdline.bytes).length := htwo
    have heq := congrArg leWord hle
    rw [leWord_leBytes hlen, leWord_leBytes hargc] at heq
    exact heq.symm
  rw [hsame] at hwords
  have hpoint : ∀ {ps args}, Forall₂ (ArgAt (newStack mem cmdline).mem) ps args →
      ∀ n < 2 ^ 32, ∀ w ∈ 0 :: n :: ((newStack mem cmdline).esp + 12) :: (ps ++ [0]),
        w < 2 ^ 32 := by
    intro ps args hps n hn w hw
    simp only [mem_cons, mem_append, not_mem_nil, or_false] at hw
    rcases hw with rfl | rfl | rfl | hw | rfl
    · decide
    · exact hn
    · rw [stackSize, PHYS_BASE] at hesp
      omega
    · exact (forall₂_argAt_lt hps w hw).trans (by decide)
    · decide
  have hall := flatMap_leBytes_inj (hcut.symm.trans hwords) (hpoint hcopied _ hlen)
    (hpoint hargv _ hlen)
  simp only [cons.injEq, true_and, append_cancel_right_eq] at hall
  rw [← hall] at hargv
  exact forall₂_argAt_unique hargv hcopied (zero_notMem_arguments cmdline.zero_notMem)
    (zero_notMem_arguments hnul)

/-- **Argument passing**, for a line that does not start with a space and whose stack fits in the
page: exactly if nothing but spaces is behind its first `CMDLINE_MAX` characters. -/
theorem arguments_passed (mem : Memory) (hfirst : cmdline.bytes.headD 32 ≠ 32)
    (hfit : stackSize cmdline.bytes ≤ PGSIZE) :
    Passes (newStack mem cmdline) (arguments cmdline.bytes) ↔
      ∀ c ∈ cmdline.bytes.drop CMDLINE_MAX, c = 32 := by
  constructor
  · intro h c hc
    have hflat := congrArg flatten (h.arguments_eq hfirst hfit)
    rw [flatten_arguments, flatten_arguments, copied] at hflat
    nth_rewrite 1 [← take_append_drop CMDLINE_MAX cmdline.bytes] at hflat
    rw [filter_append, append_right_eq_self, filter_eq_nil_iff] at hflat
    simpa using hflat c hc
  · intro h
    have hargs : arguments cmdline.bytes = arguments (copied cmdline) := by
      rw [← arguments_append_spaces (copied cmdline) (cmdline.bytes.drop CMDLINE_MAX).length,
        ← eq_replicate_of_mem h, copied, take_append_drop]
    have hpairs := passes_copied mem hfirst
    rw [← hargs] at hpairs
    refine ⟨pointers (copied cmdline), ?_, hpairs⟩
    rw [← hpairs.length_eq]
    exact newStack_words mem rfl

theorem arguments_passed_echo :
    Passes (newStack (fun _ => 0) ⟨[101, 99, 104, 111, 32, 120, 32, 32, 121, 122, 32], by decide⟩)
      [[101, 99, 104, 111], [120], [121, 122]] :=
  (arguments_passed _ (by decide) (by decide)).2 (by decide)

/-- **A longer line is cut off**: the program finds one argument of two. -/
theorem arguments_cut : ∃ cmdline : CString, cmdline.bytes.headD 32 ≠ 32 ∧
    stackSize cmdline.bytes ≤ PGSIZE ∧
    ∀ mem, ¬ Passes (newStack mem cmdline) (arguments cmdline.bytes) := by
  obtain ⟨cmdline, hfirst, hsize, hargs⟩ : ∃ cmdline : CString,
      cmdline.bytes.headD 32 ≠ 32 ∧ stackSize cmdline.bytes ≤ PGSIZE ∧
      (arguments cmdline.bytes).length ≠ (arguments (copied cmdline)).length :=
    ⟨⟨replicate CMDLINE_MAX 97 ++ [32, 98], by decide +kernel⟩, by decide +kernel,
      by decide +kernel, by decide +kernel⟩
  exact ⟨cmdline, hfirst, hsize, fun mem h => hargs (congrArg length (h.arguments_eq hfirst hsize))⟩

/-- What takes more than a page is written below it: the return address, for one. -/
lemma newStack_below (h : PGSIZE < stackSize (copied cmdline)) : ∃ mem, ∃ a < PHYS_BASE - PGSIZE,
    (newStack mem cmdline).mem a ≠ mem a := by
  have hesp := newStack_esp (fun _ => 1) (rfl : copied cmdline = _)
  have hwords := newStack_words (fun _ => 1) (rfl : copied cmdline = _)
  rw [Nat.mul_add_one, bytesAt_succ] at hwords
  refine ⟨fun _ => 1, (newStack (fun _ => 1) cmdline).esp, by omega, ?_⟩
  rw [(cons.inj hwords).1]
  exact (by decide : (0 : BitVec 8) ≠ 1)

/-- **The stack stays in its page exactly** if it takes no more. -/
theorem newStack_in_page : (∀ mem a, a < PHYS_BASE - PGSIZE ∨ PHYS_BASE ≤ a →
      (newStack mem cmdline).mem a = mem a) ↔ stackSize (copied cmdline) ≤ PGSIZE := by
  constructor
  · intro h
    by_contra hsize
    obtain ⟨mem, a, ha, hne⟩ := newStack_below (not_le.1 hsize)
    exact hne (h mem a (.inl ha))
  · intro hsize mem a ha
    have hesp := newStack_esp mem (rfl : copied cmdline = _)
    exact (newStack_holds mem rfl).rest a (by omega)

/-- **Many short arguments leave the page.** -/
theorem newStack_leaves_page : ∃ cmdline : CString, ∃ mem, ∃ a < PHYS_BASE - PGSIZE,
    (newStack mem cmdline).mem a ≠ mem a :=
  ⟨⟨(replicate 700 [97, 32]).flatten, by decide +kernel⟩, newStack_below (by decide +kernel)⟩

/-- **The stack is aligned exactly** if an odd number of characters is copied. -/
theorem newStack_aligned (mem : Memory) :
    let s := newStack mem cmdline
    (4 ∣ s.esp ∧ 4 ∣ s.esp + 4 ∧ 4 ∣ s.esp + 12) ↔ (copied cmdline).length % 2 = 1 := by
  intro s
  have hesp : s.esp + stackSize (copied cmdline) = PHYS_BASE := newStack_esp mem rfl
  rw [stackSize, PHYS_BASE] at hesp
  omega

/-- **The stack of `ls` is not aligned.** -/
theorem newStack_misaligned :
    (newStack (fun _ => 0) ⟨[108, 115], by decide⟩).esp % 4 = 2 := by decide

end Pintos.Userprog
