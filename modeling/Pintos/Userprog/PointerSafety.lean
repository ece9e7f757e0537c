/-
# Which system calls are safe for the kernel

A system call is safe if the kernel accesses only mapped user addresses while handling it,
and ends the process with status `-1` if a word, string or buffer of the call touches
another address (`PointerSafe`).  The checks of `syscall.c` only compare addresses with the
range of user programs.
-/

import Pintos.Userprog.Syscall

namespace Pintos.Userprog

open Base Nat List

/-! ### What a call touches -/

def SyscallNr.argc : SyscallNr → ℕ
  | .SYS_HALT => 0
  | .SYS_EXIT => 1
  | .SYS_EXEC => 1
  | .SYS_WAIT => 1
  | .SYS_CREATE => 2
  | .SYS_REMOVE => 1
  | .SYS_OPEN => 1
  | .SYS_FILESIZE => 1
  | .SYS_READ => 3
  | .SYS_WRITE => 3
  | .SYS_SEEK => 2
  | .SYS_TELL => 1
  | .SYS_CLOSE => 1

def SyscallNr.takesString : SyscallNr → Bool
  | .SYS_EXEC | .SYS_CREATE | .SYS_REMOVE | .SYS_OPEN => true
  | _ => false

def SyscallNr.takesBuffer : SyscallNr → Bool
  | .SYS_READ | .SYS_WRITE => true
  | _ => false

def argAddr (esp k : ℕ) : ℕ := u32 (esp + 4 * (k + 1))

namespace UserSpace

def arg (u : UserSpace) (esp k : ℕ) : ℕ := u.word (argAddr esp k)

def WordGood (u : UserSpace) (addr : ℕ) : Prop := ∀ i < 4, u.Good (u32 (addr + i))

def StringTouches (u : UserSpace) (str addr : ℕ) : Prop :=
  ∃ i, addr = u32 (str + i) ∧ ∀ j < i, u.Good (u32 (str + j)) ∧ u.mem (u32 (str + j)) ≠ 0

def Touches (u : UserSpace) (esp addr : ℕ) : Prop :=
  (∃ i < 4, addr = u32 (esp + i)) ∨
  u.WordGood esp ∧ ∃ nr, syscallNr (u.word esp) = some nr ∧
    ((∃ k < nr.argc, ∃ i < 4, addr = u32 (argAddr esp k + i)) ∨
      (∀ k < nr.argc, u.WordGood (argAddr esp k)) ∧
        (nr.takesString = true ∧ u.StringTouches (u.arg esp 0) addr ∨
          nr.takesBuffer = true ∧ ∃ i < u.arg esp 2, addr = u32 (u.arg esp 1 + i)))

/-- **Pointer safety** of a call: only mapped user addresses are accessed. -/
def PointerSafe (u : UserSpace) (esp : ℕ) : Prop :=
  (∀ addr, syscallHandler u esp ≠ .error (.bad addr)) ∧
    ((∃ addr, u.Touches esp addr ∧ ¬ u.Good addr) →
      syscallHandler u esp = .error (.exited (-1)))

end UserSpace

/-! ### The condition -/

def InWord (addr : ℕ) : Prop := InRange addr ∧ InRange (u32 (addr + 3))

namespace UserSpace

def WordCovered (u : UserSpace) (addr : ℕ) : Prop := InWord addr → u.WordGood addr

def ArgsCovered (u : UserSpace) (esp argc : ℕ) : Prop :=
  ∀ k < argc, (∀ j < k, InWord (argAddr esp j)) → u.WordCovered (argAddr esp k)

/-- The bytes of a string are, up to its null byte and up to the first that is out of
range. -/
def StringCovered (u : UserSpace) (str : ℕ) : Prop :=
  ∀ i, (∀ j < i, InRange (u32 (str + j)) ∧ u.mem (u32 (str + j)) ≠ 0) → InRange (u32 (str + i)) →
    u.Good (u32 (str + i))

def BufferCovered (u : UserSpace) (buffer size : ℕ) : Prop :=
  (∀ i < size, InRange (u32 (buffer + i))) → ∀ i < size, u.Good (u32 (buffer + i))

/-- If `write` finds no room for a copy, what it takes from the null pointer is mapped. -/
def RoomCovered (u : UserSpace) (fd : ℤ) (buffer size : ℕ) : Prop :=
  (∀ i < size, InRange (u32 (buffer + i))) → u.malloc size = false →
    ∀ i < u.writes fd size, u.Good (u32 (0 + i))

def BodyCovered (u : UserSpace) (esp : ℕ) (nr : SyscallNr) : Prop :=
  (nr.takesString = true → u.StringCovered (u.arg esp 0)) ∧
  (nr.takesBuffer = true → u.BufferCovered (u.arg esp 1) (u.arg esp 2)) ∧
  (nr = .SYS_WRITE → u.RoomCovered (s32 (u.arg esp 0)) (u.arg esp 1) (u.arg esp 2))

/-- **The condition**: what the checks let pass is mapped, and `write` finds room or takes
nothing. -/
def Covered (u : UserSpace) (esp : ℕ) : Prop :=
  u.WordCovered esp ∧ (InWord esp → ∀ nr, syscallNr (u.word esp) = some nr →
    u.ArgsCovered esp nr.argc ∧
      ((∀ k < nr.argc, InWord (argAddr esp k)) → u.BodyCovered esp nr))

end UserSpace

/-! ### Following the handler -/

/-- Only mapped user addresses are accessed, and the process ends if `touched`. -/
def Safe {α : Type} (m : Sys α) (touched : Prop) : Prop :=
  (∀ addr, m ≠ .error (.bad addr)) ∧ (touched → m = .error (.exited (-1)))

variable {α β : Type} {u : UserSpace} {addr esp str buffer size i n fuel : ℕ} {p q : Prop}
  {m : Sys α} {nr : SyscallNr}

lemma Safe.congr (h : p ↔ q) : Safe m p ↔ Safe m q := by rw [Safe, Safe, h]

lemma safe_exited : Safe (.error (.exited (-1)) : Sys α) p := ⟨nofun, fun _ => rfl⟩

lemma not_safe_bad (addr : ℕ) : ¬ Safe (.error (.bad addr) : Sys α) p := fun h => h.1 addr rfl

lemma safe_iff_not (hm : ∀ addr, m ≠ .error (.bad addr)) (hne : m ≠ .error (.exited (-1))) :
    Safe m p ↔ ¬ p :=
  ⟨fun h hp => hne (h.2 hp), fun h => ⟨hm, fun hp => absurd hp h⟩⟩

lemma safe_ok {a : α} : Safe (.ok a : Sys α) p ↔ ¬ p := safe_iff_not nofun nofun

lemma error_bind (e : Stop) (f : α → Sys β) : (Except.error e : Sys α) >>= f = .error e := rfl

lemma ok_bind (a : α) (f : α → Sys β) : (Except.ok a : Sys α) >>= f = f a := rfl

/-! ### Accesses -/

lemma userByte_good (h : u.Good addr) : userByte u addr = .ok (u.mem addr) := if_pos h

lemma userByte_bad (h : ¬ u.Good addr) : userByte u addr = .error (.bad addr) := if_neg h

lemma InRange.lt (h : InRange addr) : addr < PHYS_BASE := of_decide_eq_true h.1

lemma InWord.u32_add (h : InWord addr) (hi : i < 4) : u32 (addr + i) = addr + i := by
  have := h.1.lt
  exact u32_of_lt (by simp only [PHYS_BASE] at this; omega)

lemma userWord_good (h : InWord addr) (hg : u.WordGood addr) :
    userWord u addr = .ok (u.word addr) := by
  have h0 : u.Good addr := by
    have := hg 0 (by decide)
    rwa [h.u32_add (by decide)] at this
  rw [userWord, userByte_good h0, ok_bind, userByte_good (hg 1 (by decide)), ok_bind,
    userByte_good (hg 2 (by decide)), ok_bind, userByte_good (hg 3 (by decide)), ok_bind]
  rfl

lemma userWord_bad (h : InWord addr) (hg : ¬ u.WordGood addr) :
    ∃ x, userWord u addr = .error (.bad x) := by
  by_cases h0 : u.Good addr
  · by_cases h1 : u.Good (u32 (addr + 1))
    · by_cases h2 : u.Good (u32 (addr + 2))
      · by_cases h3 : u.Good (u32 (addr + 3))
        · refine absurd (fun i hi => ?_) hg
          have hcases : i = 0 ∨ i = 1 ∨ i = 2 ∨ i = 3 := by omega
          rcases hcases with rfl | rfl | rfl | rfl
          · rwa [h.u32_add (by decide)]
          · exact h1
          · exact h2
          · exact h3
        · exact ⟨_, by rw [userWord, userByte_good h0, ok_bind, userByte_good h1, ok_bind,
            userByte_good h2, ok_bind, userByte_bad h3, error_bind]⟩
      · exact ⟨_, by rw [userWord, userByte_good h0, ok_bind, userByte_good h1, ok_bind,
          userByte_bad h2, error_bind]⟩
    · exact ⟨_, by rw [userWord, userByte_good h0, ok_bind, userByte_bad h1, error_bind]⟩
  · exact ⟨_, by rw [userWord, userByte_bad h0, error_bind]⟩

lemma u32_succ (addr i : ℕ) : u32 (u32 (addr + 1) + i) = u32 (addr + (i + 1)) := by
  simp only [u32]
  omega

lemma userBytes_good (haddr : addr < 2 ^ 32) (h : ∀ i < n, u.Good (u32 (addr + i))) :
    ∃ l, userBytes u addr n = .ok l := by
  induction n generalizing addr with
  | zero => exact ⟨[], rfl⟩
  | succ n ih =>
    have h0 : u.Good addr := by
      have := h 0 (by omega)
      rwa [add_zero, u32_of_lt haddr] at this
    obtain ⟨l, hl⟩ := ih (u32_lt _) fun i hi => by
      rw [u32_succ]
      exact h (i + 1) (by omega)
    exact ⟨u.mem addr :: l, by rw [userBytes, userByte_good h0, ok_bind, hl, ok_bind]; rfl⟩

lemma userBytes_bad (haddr : addr < 2 ^ 32) (h : ¬ ∀ i < n, u.Good (u32 (addr + i))) :
    ∃ x, userBytes u addr n = .error (.bad x) := by
  induction n generalizing addr with
  | zero => exact absurd (fun i hi => absurd hi (by omega)) h
  | succ n ih =>
    by_cases h0 : u.Good addr
    · have hrest : ¬ ∀ i < n, u.Good (u32 (u32 (addr + 1) + i)) := by
        refine fun hall => h fun i hi => ?_
        cases i with
        | zero => rwa [add_zero, u32_of_lt haddr]
        | succ i =>
          have := hall i (by omega)
          rwa [u32_succ] at this
      obtain ⟨x, hx⟩ := ih (u32_lt _) hrest
      exact ⟨x, by rw [userBytes, userByte_good h0, ok_bind, hx, error_bind]⟩
    · exact ⟨addr, by rw [userBytes, userByte_bad h0, error_bind]⟩

/-! ### Words -/

lemma checkAddress4_of (h : InWord addr) : checkAddress4 addr = .ok () := by
  rw [checkAddress4, checkAddress, if_pos h.1, ok_bind, checkAddress, if_pos h.2]

lemma checkAddress4_of_not (h : ¬ InWord addr) : checkAddress4 addr = .error (.exited (-1)) := by
  by_cases h1 : InRange addr
  · have h2 : ¬ InRange (u32 (addr + 3)) := fun h2 => h ⟨h1, h2⟩
    rw [checkAddress4, checkAddress, if_pos h1, ok_bind, checkAddress, if_neg h2]
  · rw [checkAddress4, checkAddress, if_neg h1, error_bind]

theorem safe_word (f : ℕ → Sys α) : Safe (checkAddress4 addr >>= fun _ => userWord u addr >>= f)
      ((∃ i < 4, ¬ u.Good (u32 (addr + i))) ∨ u.WordGood addr ∧ p) ↔
      u.WordCovered addr ∧ (InWord addr → Safe (f (u.word addr)) p) := by
  by_cases hin : InWord addr
  · by_cases hg : u.WordGood addr
    · have hnone : ¬ ∃ i < 4, ¬ u.Good (u32 (addr + i)) := by
        rintro ⟨i, hi, hbad⟩
        exact hbad (hg i hi)
      rw [checkAddress4_of hin, ok_bind, userWord_good hin hg, ok_bind]
      simp only [UserSpace.WordCovered, hnone, hin, hg, false_or, true_and, forall_const]
    · obtain ⟨x, hx⟩ := userWord_bad hin hg
      rw [checkAddress4_of hin, ok_bind, hx, error_bind]
      exact iff_of_false (not_safe_bad x) fun h => hg (h.1 hin)
  · rw [checkAddress4_of_not hin, error_bind]
    exact iff_of_true safe_exited ⟨fun h => absurd h hin, fun h => absurd h hin⟩

lemma argAddr_succ (esp k : ℕ) : argAddr (u32 (esp + 4)) k = argAddr esp (k + 1) := by
  simp only [argAddr, u32]
  omega

theorem safe_arguments (f : List ℕ → Sys α) : Safe (getArgumentsLoop u esp n >>= f)
      ((∃ k < n, ¬ u.WordGood (argAddr esp k)) ∨ (∀ k < n, u.WordGood (argAddr esp k)) ∧ p) ↔
      u.ArgsCovered esp n ∧ ((∀ k < n, InWord (argAddr esp k)) →
        Safe (f ((range n).map (u.arg esp))) p) := by
  induction n generalizing esp f with
  | zero => simp [getArgumentsLoop, UserSpace.ArgsCovered, ok_bind]
  | succ n ih =>
    have hfirst : u32 (esp + 4) = argAddr esp 0 := rfl
    -- the first argument, then the others
    have hbind : getArgumentsLoop u esp (n + 1) >>= f =
        checkAddress4 (argAddr esp 0) >>= fun _ => userWord u (argAddr esp 0) >>= fun a =>
          getArgumentsLoop u (u32 (esp + 4)) n >>= fun rest => f (a :: rest) := by
      simp only [getArgumentsLoop, hfirst, bind_assoc]
      rfl
    have htouched : ((∃ k < n + 1, ¬ u.WordGood (argAddr esp k)) ∨
        (∀ k < n + 1, u.WordGood (argAddr esp k)) ∧ p) ↔
        ((∃ i < 4, ¬ u.Good (u32 (argAddr esp 0 + i))) ∨ u.WordGood (argAddr esp 0) ∧
          ((∃ k < n, ¬ u.WordGood (argAddr (u32 (esp + 4)) k)) ∨
            (∀ k < n, u.WordGood (argAddr (u32 (esp + 4)) k)) ∧ p)) := by
      have hword : (∃ i < 4, ¬ u.Good (u32 (argAddr esp 0 + i))) ↔
        ¬ u.WordGood (argAddr esp 0) := by
        simp [UserSpace.WordGood]
      have hex : (∃ k < n + 1, ¬ u.WordGood (argAddr esp k)) ↔
          ¬ ∀ k < n + 1, u.WordGood (argAddr esp k) := by simp
      have hex' : (∃ k < n, ¬ u.WordGood (argAddr esp (k + 1))) ↔
          ¬ ∀ k < n, u.WordGood (argAddr esp (k + 1)) := by simp
      simp only [argAddr_succ, hword, hex, hex', forall_lt_succ_left]
      tauto
    have hvalues : ∀ a, (a :: (range n).map (u.arg (u32 (esp + 4)))) =
        a :: (range n).map (fun k => u.arg esp (k + 1)) := by
      intro a
      have harg : u.arg (u32 (esp + 4)) = fun k => u.arg esp (k + 1) :=
        funext fun k => congrArg u.word (argAddr_succ esp k)
      rw [harg]
    have hlist : (range (n + 1)).map (u.arg esp) =
        u.arg esp 0 :: (range n).map (fun k => u.arg esp (k + 1)) := by
      rw [range_succ_eq_map, map_cons, map_map]
      rfl
    rw [hbind, Safe.congr htouched, safe_word, ih, hvalues, hlist]
    have hcovered : u.ArgsCovered esp (n + 1) ↔ u.WordCovered (argAddr esp 0) ∧
        (InWord (argAddr esp 0) → u.ArgsCovered (u32 (esp + 4)) n) := by
      simp only [UserSpace.ArgsCovered, argAddr_succ]
      rw [forall_lt_succ_left]
      refine and_congr ⟨fun h => h fun j hj => absurd hj (by omega), fun h _ => h⟩ ?_
      constructor
      · exact fun h hin k hk hall => h k hk (forall_lt_succ_left.2 ⟨hin, hall⟩)
      · exact fun h k hk hall =>
          h (forall_lt_succ_left.1 hall).1 k hk (forall_lt_succ_left.1 hall).2
    rw [hcovered, forall_lt_succ_left]
    simp only [argAddr_succ]
    constructor
    · exact fun ⟨h0, h⟩ => ⟨⟨h0, fun hin => (h hin).1⟩, fun ⟨hin, hall⟩ => (h hin).2 hall⟩
    · exact fun ⟨⟨h0, h⟩, hf⟩ => ⟨h0, fun hin => ⟨h hin, fun hall => hf ⟨hin, hall⟩⟩⟩

/-! ### Strings -/

def UserSpace.Prefix (u : UserSpace) (str i : ℕ) : Prop :=
  ∀ j < i, InRange (u32 (str + j)) ∧ u.Good (u32 (str + j)) ∧ u.mem (u32 (str + j)) ≠ 0

lemma UserSpace.Prefix.cons (hin : InRange (u32 (str + 0))) (hg : u.Good (u32 (str + 0)))
    (hc : u.mem (u32 (str + 0)) ≠ 0) (h : u.Prefix (u32 (str + 1)) i) : u.Prefix str (i + 1) := by
  refine forall_lt_succ_left.2 ⟨⟨hin, hg, hc⟩, fun j hj => ?_⟩
  have := h j hj
  rwa [u32_succ] at this

lemma checkUserStringLoop_cases (hstr : str < 2 ^ 32) (hfuel : PHYS_BASE ≤ str + fuel) :
    (∃ n, u.Prefix str n ∧ u.Good (u32 (str + n)) ∧ u.mem (u32 (str + n)) = 0 ∧ n < fuel ∧
      checkUserStringLoop u fuel str = .ok ()) ∨
    (∃ n, u.Prefix str n ∧ ¬ InRange (u32 (str + n)) ∧
      checkUserStringLoop u fuel str = .error (.exited (-1))) ∨
    (∃ n, u.Prefix str n ∧ InRange (u32 (str + n)) ∧ ¬ u.Good (u32 (str + n)) ∧
      ∃ x, checkUserStringLoop u fuel str = .error (.bad x)) := by
  have hzero : u32 (str + 0) = str := by rw [add_zero, u32_of_lt hstr]
  induction fuel generalizing str with
  | zero =>
    have hout : ¬ InRange str := fun h => absurd h.lt (by omega)
    refine .inr (.inl ⟨0, fun j hj => absurd hj (by omega), hzero.symm ▸ hout, ?_⟩)
    rw [checkUserStringLoop, checkAddress, if_neg hout]
  | succ _ ih =>
    rw [checkUserStringLoop]
    by_cases hin : InRange str
    · rw [checkAddress, if_pos hin, ok_bind]
      by_cases hg : u.Good str
      · rw [userByte_good hg, ok_bind]
        by_cases hc : u.mem str = 0
        · rw [if_pos hc]
          exact .inl ⟨0, fun j hj => absurd hj (by omega), hzero.symm ▸ hg, hzero.symm ▸ hc,
            by omega, rfl⟩
        · rw [if_neg hc]
          have hlt := hin.lt
          have hnext : u32 (str + 1) = str + 1 := u32_of_lt (by simp only [PHYS_BASE] at hlt; omega)
          have hpre : ∀ {n}, u.Prefix (u32 (str + 1)) n → u.Prefix str (n + 1) :=
            UserSpace.Prefix.cons (hzero.symm ▸ hin) (hzero.symm ▸ hg) (hzero.symm ▸ hc)
          rcases ih (u32_lt _) (by rw [hnext]; omega) (by rw [add_zero, u32_of_lt (u32_lt _)])
            with ⟨n, hn, hgood, hnull, _, hok⟩ | ⟨n, hn, hout, hex⟩ | ⟨n, hn, hr, hbad, x, hx⟩
          · rw [u32_succ] at hgood hnull
            exact .inl ⟨n + 1, hpre hn, hgood, hnull, by omega, hok⟩
          · rw [u32_succ] at hout
            exact .inr (.inl ⟨n + 1, hpre hn, hout, hex⟩)
          · rw [u32_succ] at hr hbad
            exact .inr (.inr ⟨n + 1, hpre hn, hr, hbad, x, hx⟩)
      · rw [userByte_bad hg, error_bind]
        exact .inr (.inr ⟨0, fun j hj => absurd hj (by omega), hzero.symm ▸ hin, hzero.symm ▸ hg,
          str, rfl⟩)
    · rw [checkAddress, if_neg hin, error_bind]
      exact .inr (.inl ⟨0, fun j hj => absurd hj (by omega), hzero.symm ▸ hin, rfl⟩)

lemma strlenLoop_eq (hstr : str < 2 ^ 32) (hn : n < fuel) (hpre : u.Prefix str n)
    (hgood : u.Good (u32 (str + n))) (hnull : u.mem (u32 (str + n)) = 0) :
    strlenLoop u fuel str = .ok n := by
  have hzero : u32 (str + 0) = str := by rw [add_zero, u32_of_lt hstr]
  induction n generalizing str fuel with
  | zero =>
    rw [hzero] at hgood hnull
    obtain ⟨fuel, rfl⟩ := exists_eq_succ_of_ne_zero (by omega : fuel ≠ 0)
    rw [strlenLoop, userByte_good hgood, ok_bind, if_pos hnull]
    rfl
  | succ n ih =>
    obtain ⟨fuel, rfl⟩ := exists_eq_succ_of_ne_zero (by omega : fuel ≠ 0)
    obtain ⟨⟨_, hg, hc⟩, hrest⟩ := forall_lt_succ_left.1 hpre
    rw [hzero] at hg hc
    have hpre' : u.Prefix (u32 (str + 1)) n := fun j hj => by
      rw [u32_succ]
      exact hrest j hj
    rw [strlenLoop, userByte_good hg, ok_bind, if_neg hc,
      ih (u32_lt _) (by omega) hpre' (by rwa [u32_succ]) (by rwa [u32_succ])
        (by rw [add_zero, u32_of_lt (u32_lt _)]), ok_bind]
    rfl

lemma safe_string (hstr : str < 2 ^ 32) (f : List (BitVec 8) → Service) :
    Safe (getUserStrings u str >>= fun file => pure (f file))
      (∃ addr, u.StringTouches str addr ∧ ¬ u.Good addr) ↔ u.StringCovered str := by
  have hfuel : PHYS_BASE ≤ str + (PHYS_BASE - str) := by omega
  have hcheck := checkUserStringLoop_cases (u := u) hstr hfuel
  rcases hcheck with ⟨n, hpre, hgood, hnull, hlt, hok⟩ | ⟨n, hpre, hout, hex⟩ |
      ⟨n, hpre, hin, hbad, x, hx⟩
  · -- all bytes to the null byte are mapped
    have hall : ∀ i, (∀ j < i, u.mem (u32 (str + j)) ≠ 0) → u.Good (u32 (str + i)) := by
      intro i hi
      rcases lt_trichotomy i n with h | rfl | h
      · exact (hpre i h).2.1
      · exact hgood
      · exact absurd hnull (hi n h)
    refine iff_of_true ⟨fun addr h => ?_, ?_⟩ fun i hi _ => hall i fun j hj => (hi j hj).2
    · rw [getUserStrings, checkUserString, hok, ok_bind, getUserString,
        strlenLoop_eq hstr hlt hpre hgood hnull, ok_bind, getUserStringL] at h
      have hbytes : ∀ i < n + 1, u.Good (u32 (str + i)) := fun i hi =>
        hall i fun j hj => (hpre j (by omega)).2.2
      obtain ⟨l, hl⟩ := userBytes_good hstr hbytes
      split_ifs at h
      · rw [hl] at h
        cases h
      · cases h
    · rintro ⟨_, ⟨i, rfl, hi⟩, hnot⟩
      exact absurd (hall i fun j hj => (hi j hj).2) hnot
  · rw [getUserStrings, checkUserString, hex, error_bind, error_bind]
    refine iff_of_true safe_exited fun i hi hr => ?_
    rcases lt_trichotomy i n with h | rfl | h
    · exact (hpre i h).2.1
    · exact absurd hr hout
    · exact absurd (hi n h).1 hout
  · rw [getUserStrings, checkUserString, hx, error_bind, error_bind]
    exact iff_of_false (not_safe_bad x) fun h =>
      hbad (h n (fun j hj => ⟨(hpre j hj).1, (hpre j hj).2.2⟩) hin)

/-! ### Buffers -/

lemma checkUserStringL_of (hbuf : buffer < 2 ^ 32)
    (h : ∀ i < size, InRange (u32 (buffer + i))) : checkUserStringL buffer size = .ok () := by
  induction size generalizing buffer with
  | zero => rfl
  | succ n ih =>
    obtain ⟨h0, hrest⟩ := forall_lt_succ_left.1 h
    rw [add_zero, u32_of_lt hbuf] at h0
    rw [checkUserStringL, checkAddress, if_pos h0, ok_bind]
    exact ih (u32_lt _) fun i hi => by
      rw [u32_succ]
      exact hrest i hi

lemma checkUserStringL_of_not (hbuf : buffer < 2 ^ 32)
    (h : ¬ ∀ i < size, InRange (u32 (buffer + i))) :
    checkUserStringL buffer size = .error (.exited (-1)) := by
  induction size generalizing buffer with
  | zero => exact absurd (fun i hi => absurd hi (by omega)) h
  | succ n ih =>
    rw [checkUserStringL, checkAddress]
    by_cases h0 : InRange buffer
    · rw [if_pos h0, ok_bind]
      refine ih (u32_lt _) fun hall => h (forall_lt_succ_left.2 ⟨?_, fun i hi => ?_⟩)
      · rwa [add_zero, u32_of_lt hbuf]
      · have := hall i hi
        rwa [u32_succ] at this
    · rw [if_neg h0, error_bind]

lemma exists_bad_iff : (∃ addr, (∃ i < size, addr = u32 (buffer + i)) ∧ ¬ u.Good addr) ↔
    ¬ ∀ i < size, u.Good (u32 (buffer + i)) := by
  constructor
  · rintro ⟨_, ⟨i, hi, rfl⟩, hbad⟩ hall
    exact hbad (hall i hi)
  · intro h
    push Not at h
    obtain ⟨i, hi, hbad⟩ := h
    exact ⟨_, ⟨i, hi, rfl⟩, hbad⟩

lemma userBytes_safe (haddr : addr < 2 ^ 32) (a : α) :
    Safe (userBytes u addr n >>= fun _ => pure a) p ↔ (∀ i < n, u.Good (u32 (addr + i))) ∧ ¬ p := by
  by_cases h : ∀ i < n, u.Good (u32 (addr + i))
  · obtain ⟨l, hl⟩ := userBytes_good haddr h
    rw [hl, ok_bind]
    exact safe_ok.trans ⟨fun hp => ⟨h, hp⟩, fun hp => hp.2⟩
  · obtain ⟨x, hx⟩ := userBytes_bad haddr h
    rw [hx, error_bind]
    exact iff_of_false (not_safe_bad x) fun hp => h hp.1

lemma safe_read (hbuf : buffer < 2 ^ 32) (fd : ℤ) (r : Service) :
    Safe (checkUserStringL buffer size >>= fun _ => readBuffer u fd buffer size >>= fun _ => pure r)
      (¬ ∀ i < size, u.Good (u32 (buffer + i))) ↔ u.BufferCovered buffer size := by
  by_cases hin : ∀ i < size, InRange (u32 (buffer + i))
  · have hle : (if fd = STDIN_FILENO then size else if u.opened fd then u.fileRead fd size else 0) ≤
        size := by
      split_ifs
      · exact le_rfl
      · exact u.fileRead_le fd size
      · exact zero_le _
    have hassoc : (readBuffer u fd buffer size >>= fun _ => pure r) =
        userBytes u buffer (if fd = STDIN_FILENO then size else if u.opened fd then
          u.fileRead fd size else 0) >>= fun _ => pure r := by
      simp only [readBuffer, bind_assoc]
      rfl
    rw [checkUserStringL_of hbuf hin, ok_bind, hassoc, userBytes_safe hbuf]
    constructor
    · exact fun h _ => not_not.1 h.2
    · exact fun h => ⟨fun i hi => h hin i (by omega), not_not.2 (h hin)⟩
  · rw [checkUserStringL_of_not hbuf hin, error_bind]
    exact iff_of_true safe_exited fun h => absurd h hin

lemma safe_write (hbuf : buffer < 2 ^ 32) (fd : ℤ) (r : Option (List (BitVec 8)) → Service) :
    Safe (checkUserStringL buffer size >>= fun _ => getUserStringL u buffer size >>= fun copy =>
        writeBuffer u fd copy size >>= fun _ => pure (r copy))
      (¬ ∀ i < size, u.Good (u32 (buffer + i))) ↔
      u.BufferCovered buffer size ∧ u.RoomCovered fd buffer size := by
  by_cases hin : ∀ i < size, InRange (u32 (buffer + i))
  · rw [checkUserStringL_of hbuf hin, ok_bind, getUserStringL]
    by_cases hm : u.malloc size = true
    · have hroom : u.RoomCovered fd buffer size := fun _ hno => by rw [hm] at hno; cases hno
      have hassoc : ((do
          if u.malloc size then
            let bytes ← userBytes u buffer size
            return some bytes
          else return none) >>= fun copy =>
            writeBuffer u fd copy size >>= fun _ => pure (r copy) : Sys Service) =
          userBytes u buffer size >>= fun bytes => pure (r (some bytes)) := by
        rw [if_pos hm, bind_assoc]
        rfl
      rw [hassoc]
      by_cases hg : ∀ i < size, u.Good (u32 (buffer + i))
      · obtain ⟨l, hl⟩ := userBytes_good hbuf hg
        rw [hl, ok_bind]
        exact iff_of_true (safe_ok.2 (not_not.2 hg)) ⟨fun _ => hg, hroom⟩
      · obtain ⟨x, hx⟩ := userBytes_bad hbuf hg
        rw [hx, error_bind]
        exact iff_of_false (not_safe_bad x) fun h => hg (h.1 hin)
    · have hassoc : ((do
          if u.malloc size then
            let bytes ← userBytes u buffer size
            return some bytes
          else return none) >>= fun copy =>
            writeBuffer u fd copy size >>= fun _ => pure (r copy) : Sys Service) =
          userBytes u 0 (u.writes fd size) >>= fun _ => pure (r none) := by
        rw [if_neg hm]
        simp only [pure_bind, writeBuffer, bind_assoc]
      rw [hassoc, userBytes_safe (by decide)]
      have hno : u.malloc size = false := by simpa using hm
      constructor
      · exact fun h => ⟨fun _ => not_not.1 h.2, fun _ _ => h.1⟩
      · exact fun h => ⟨h.2 hin hno, not_not.2 (h.1 hin)⟩
  · rw [checkUserStringL_of_not hbuf hin, error_bind]
    exact iff_of_true safe_exited ⟨fun h => absurd h hin, fun h => absurd h hin⟩

/-! ### The calls -/

def UserSpace.BodyTouched (u : UserSpace) (esp : ℕ) (nr : SyscallNr) : Prop :=
  ∃ addr, (nr.takesString = true ∧ u.StringTouches (u.arg esp 0) addr ∨
    nr.takesBuffer = true ∧ ∃ i < u.arg esp 2, addr = u32 (u.arg esp 1 + i)) ∧ ¬ u.Good addr

lemma bodyTouched_string (hs : nr.takesString = true) (hb : nr.takesBuffer = false) :
    u.BodyTouched esp nr ↔ ∃ addr, u.StringTouches (u.arg esp 0) addr ∧ ¬ u.Good addr := by
  simp [UserSpace.BodyTouched, hs, hb]

lemma bodyTouched_buffer (hs : nr.takesString = false) (hb : nr.takesBuffer = true) :
    u.BodyTouched esp nr ↔ ¬ ∀ i < u.arg esp 2, u.Good (u32 (u.arg esp 1 + i)) := by
  rw [← exists_bad_iff]
  simp [UserSpace.BodyTouched, hs, hb]

lemma bodyTouched_none (hs : nr.takesString = false) (hb : nr.takesBuffer = false) :
    ¬ u.BodyTouched esp nr := by
  simp [UserSpace.BodyTouched, hs, hb]

lemma bodyCovered_none (hs : nr.takesString = false) (hb : nr.takesBuffer = false) :
    u.BodyCovered esp nr := by
  refine ⟨fun h => ?_, fun h => ?_, fun h => ?_⟩
  · rw [hs] at h
    cases h
  · rw [hb] at h
    cases h
  · rw [h] at hb
    cases hb

lemma bodyCovered_string (hs : nr.takesString = true) (hb : nr.takesBuffer = false) :
    u.BodyCovered esp nr ↔ u.StringCovered (u.arg esp 0) := by
  refine ⟨fun h => h.1 hs, fun h => ⟨fun _ => h, fun hbuf => ?_, fun hw => ?_⟩⟩
  · rw [hb] at hbuf
    cases hbuf
  · rw [hw] at hb
    cases hb

lemma UserSpace.arg_lt (u : UserSpace) (esp k : ℕ) : u.arg esp k < 2 ^ 32 := by
  have h : ∀ b : BitVec 8, b.toNat < 2 ^ 8 := BitVec.isLt
  have h0 := h (u.mem (argAddr esp k))
  have h1 := h (u.mem (u32 (argAddr esp k + 1)))
  have h2 := h (u.mem (u32 (argAddr esp k + 2)))
  have h3 := h (u.mem (u32 (argAddr esp k + 3)))
  simp only [UserSpace.arg, UserSpace.word]
  omega

lemma safe_stringCall (hs : nr.takesString = true) (hb : nr.takesBuffer = false)
    (f : List (BitVec 8) → Service) :
    Safe (getUserStrings u (u.arg esp 0) >>= fun file => pure (f file)) (u.BodyTouched esp nr) ↔
      u.BodyCovered esp nr := by
  rw [Safe.congr (bodyTouched_string hs hb), safe_string (u.arg_lt esp 0), bodyCovered_string hs hb]

lemma safe_plainCall {m : Sys Service} (hs : nr.takesString = false) (hb : nr.takesBuffer = false)
    (hm : ∀ addr, m ≠ .error (.bad addr)) : Safe m (u.BodyTouched esp nr) ↔ u.BodyCovered esp nr :=
  iff_of_true ⟨hm, fun h => absurd h (bodyTouched_none hs hb)⟩ (bodyCovered_none hs hb)

lemma safe_case {f : List ℕ → Sys α} {q : Prop} (hn : 1 ≤ n ∧ n ≤ 4)
    (hbody : Safe (f ((range n).map (u.arg esp))) p ↔ q) :
    Safe (getArguments u esp n >>= f) ((∃ k < n, ¬ u.WordGood (argAddr esp k)) ∨
      (∀ k < n, u.WordGood (argAddr esp k)) ∧ p) ↔
      u.ArgsCovered esp n ∧ ((∀ k < n, InWord (argAddr esp k)) → q) := by
  rw [getArguments, if_pos hn]
  exact (safe_arguments f).trans (and_congr_right fun _ => imp_congr_right fun _ => hbody)

/-- **The rule for the cases of the handler**: the arguments, and then what they point to. -/
theorem safe_handle (nr : SyscallNr) :
    Safe (handle u esp nr) ((∃ k < nr.argc, ¬ u.WordGood (argAddr esp k)) ∨
      (∀ k < nr.argc, u.WordGood (argAddr esp k)) ∧ u.BodyTouched esp nr) ↔
      u.ArgsCovered esp nr.argc ∧
        ((∀ k < nr.argc, InWord (argAddr esp k)) → u.BodyCovered esp nr) := by
  cases nr with
  | SYS_HALT =>
    refine iff_of_true ⟨nofun, fun h => ?_⟩
      ⟨fun k hk => absurd hk (not_lt_zero k), fun _ => bodyCovered_none rfl rfl⟩
    rcases h with ⟨k, hk, -⟩ | ⟨-, h⟩
    · exact absurd hk (not_lt_zero k)
    · exact absurd h (bodyTouched_none rfl rfl)
  | SYS_EXIT | SYS_WAIT | SYS_FILESIZE | SYS_CLOSE | SYS_SEEK =>
    exact safe_case (by decide) (safe_plainCall rfl rfl nofun)
  | SYS_EXEC | SYS_REMOVE | SYS_OPEN | SYS_CREATE =>
    exact safe_case (by decide) (safe_stringCall rfl rfl _)
  | SYS_READ =>
    refine safe_case (by decide) ?_
    refine (Safe.congr (bodyTouched_buffer rfl rfl)).trans
      ((safe_read (u.arg_lt esp 1) _ _).trans ?_)
    exact ⟨fun h => ⟨nofun, fun _ => h, nofun⟩, fun h => h.2.1 rfl⟩
  | SYS_WRITE =>
    refine safe_case (by decide) ?_
    refine (Safe.congr (bodyTouched_buffer rfl rfl)).trans
      ((safe_write (u.arg_lt esp 1) _ _).trans ?_)
    exact ⟨fun h => ⟨nofun, fun _ => h.1, fun _ => h.2⟩, fun h => ⟨h.2.1 rfl, h.2.2 rfl⟩⟩
  | SYS_TELL =>
    refine safe_case (by decide) (safe_plainCall rfl rfl fun addr h => ?_)
    rw [tell] at h
    split_ifs at h <;> cases h

lemma touches_bad_iff : (∃ addr, u.Touches esp addr ∧ ¬ u.Good addr) ↔
    (∃ i < 4, ¬ u.Good (u32 (esp + i))) ∨ u.WordGood esp ∧ ∃ nr, syscallNr (u.word esp) = some nr ∧
        ((∃ k < nr.argc, ¬ u.WordGood (argAddr esp k)) ∨
          (∀ k < nr.argc, u.WordGood (argAddr esp k)) ∧ u.BodyTouched esp nr) := by
  constructor
  · rintro ⟨addr, ⟨i, hi, rfl⟩ | ⟨hword, nr, hnr, ⟨k, hk, i, hi, rfl⟩ | ⟨hall, hbody⟩⟩, hbad⟩
    · exact .inl ⟨i, hi, hbad⟩
    · exact .inr ⟨hword, nr, hnr, .inl ⟨k, hk, fun hg => hbad (hg i hi)⟩⟩
    · exact .inr ⟨hword, nr, hnr, .inr ⟨hall, addr, hbody, hbad⟩⟩
  · rintro (⟨i, hi, hbad⟩ | ⟨hword, nr, hnr, ⟨k, hk, hbad⟩ | ⟨hall, addr, hbody, hbad⟩⟩)
    · exact ⟨_, .inl ⟨i, hi, rfl⟩, hbad⟩
    · simp only [UserSpace.WordGood, not_forall] at hbad
      obtain ⟨i, hi, hbad⟩ := hbad
      exact ⟨_, .inr ⟨hword, nr, hnr, .inl ⟨k, hk, i, hi, rfl⟩⟩, hbad⟩
    · exact ⟨addr, .inr ⟨hword, nr, hnr, .inr ⟨hall, hbody⟩⟩, hbad⟩

/-- **Pointer safety of the system calls**: a call is safe exactly if it meets the condition. -/
theorem pointerSafe_iff_covered (u : UserSpace) (esp : ℕ) : u.PointerSafe esp ↔ u.Covered esp := by
  have hsafe : u.PointerSafe esp ↔ Safe (syscallHandler u esp)
      (∃ addr, u.Touches esp addr ∧ ¬ u.Good addr) := Iff.rfl
  rw [hsafe, Safe.congr touches_bad_iff, syscallHandler, safe_word, UserSpace.Covered]
  refine and_congr_right fun _ => imp_congr_right fun _ => ?_
  cases hnr : syscallNr (u.word esp) with
  | none => exact iff_of_true safe_exited nofun
  | some nr =>
    have hone : (∃ nr', some nr = some nr' ∧ ((∃ k < nr'.argc, ¬ u.WordGood (argAddr esp k)) ∨
          (∀ k < nr'.argc, u.WordGood (argAddr esp k)) ∧ u.BodyTouched esp nr')) ↔
        ((∃ k < nr.argc, ¬ u.WordGood (argAddr esp k)) ∨
          (∀ k < nr.argc, u.WordGood (argAddr esp k)) ∧ u.BodyTouched esp nr) := by
      constructor
      · rintro ⟨_, h, hrest⟩
        cases h
        exact hrest
      · exact fun h => ⟨nr, rfl, h⟩
    refine (Safe.congr hone).trans ((safe_handle nr).trans ?_)
    constructor
    · rintro h nr' hsome
      cases hsome
      exact h
    · exact fun h => h nr rfl

/-- A process whose stack holds `open (0x20101234)`, with no page but that of the stack. -/
def openUnmapped : UserSpace where
  mem := fun addr =>
    if addr = 0xBFFFFF00 then 6 else if addr = 0xBFFFFF04 then 0x34 else
    if addr = 0xBFFFFF05 then 0x12 else if addr = 0xBFFFFF06 then 0x10 else
    if addr = 0xBFFFFF07 then 0x20 else 0
  mapped := fun page => page == 0xBFFFF
  room := true
  opened := fun _ => false
  fileRead := fun _ _ => 0
  fileWrite := fun _ _ => 0
  fileRead_le := fun _ _ => zero_le _
  fileWrite_le := fun _ _ => zero_le _

/-- The name of `open` is in the range of user programs, and not mapped: the kernel reads it. -/
theorem open_unmapped_name : syscallHandler openUnmapped 0xBFFFFF00 = .error (.bad 0x20101234) ∧
      ¬ openUnmapped.PointerSafe 0xBFFFFF00 := by
  have hrun : syscallHandler openUnmapped 0xBFFFFF00 = .error (.bad 0x20101234) := by
    decide +kernel
  exact ⟨hrun, fun h => h.1 _ hrun⟩

end Pintos.Userprog
