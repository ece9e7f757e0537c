/-
# The console lock

`acquire_console` and `release_console` of `lib/kernel/console.c`, outside interrupt context and
with `use_console_lock` true.  They simulate a recursive lock: the holder of `console_lock`
increments `console_lock_depth` instead of acquiring it, and a release decrements the counter if it
is positive and releases the lock if not.

A thread may lose the CPU between any two accesses to the counter and the lock; `Place` is what it
does next.  The increment and the decrement are a load and a store; `sema_down` and `sema_up` run
with interrupts off and are one access each.

`opened` counts the pairs of a thread whose `acquire_console` has returned and whose
`release_console` has not; `nesting` counts a call from its last access on.
-/

import Mathlib.Data.Int.Basic
import Pintos.Base.Kernel
import Pintos.Base.Run

namespace Pintos.Lib.Console

open Base Function Kernel Option

/-! ### The source -/

inductive Place
  /-- It is in neither function. -/
  | out
  /-- `lock_held_by_current_thread (&console_lock)`. -/
  | held
  /-- `console_lock_depth++`. -/
  | load
  | store (d : ℤ)
  /-- `lock_acquire (&console_lock)`. -/
  | assertNotHeld
  | semaDown
  | setHolder
  /-- `acquire_console` returns. -/
  | acquired
  /-- `console_lock_depth > 0`. -/
  | test
  /-- `console_lock_depth--`. -/
  | loadDown
  | storeDown (d : ℤ)
  /-- `lock_release (&console_lock)`. -/
  | assertHeld
  | clearHolder
  | semaUp
  /-- `release_console` returns; it gave up the lock or not. -/
  | released (gaveUp : Bool)
deriving DecidableEq, Repr

structure State where
  /-- `console_lock.semaphore.value`. -/
  value : ℕ
  /-- `console_lock.holder`. -/
  holder : Option ℕ
  /-- `console_lock_depth`. -/
  depth : ℤ
  place : ℕ → Place
  opened : ℕ → ℕ

def State.init : State where
  value := 1
  holder := none
  depth := 0
  place _ := .out
  opened _ := 0

def State.goTo (s : State) (t : ℕ) (p : Place) : State :=
  { s with place := update s.place t p }

def State.leave (s : State) (t n : ℕ) : State :=
  { s.goTo t .out with opened := update s.opened t n }

def State.exec (s : State) (t : ℕ) : Kernel State :=
  match s.place t with
  | .out => return s
  | .held => return s.goTo t (if s.holder = some t then .load else .assertNotHeld)
  | .load => return s.goTo t (.store s.depth)
  | .store d => return { s with depth := d + 1 }.goTo t .acquired
  | .assertNotHeld => do
    ASSERT (s.holder ≠ some t)
    return s.goTo t .semaDown
  | .semaDown => return { s with value := s.value - 1 }.goTo t .setHolder
  | .setHolder => return { s with holder := some t }.goTo t .acquired
  | .acquired => return s.leave t (s.opened t + 1)
  | .test => return s.goTo t (if s.depth > 0 then .loadDown else .assertHeld)
  | .loadDown => return s.goTo t (.storeDown s.depth)
  | .storeDown d => return { s with depth := d - 1 }.goTo t (.released false)
  | .assertHeld => do
    ASSERT (s.holder = some t)
    return s.goTo t .clearHolder
  | .clearHolder => return { s with holder := none }.goTo t .semaUp
  | .semaUp => return { s with value := s.value + 1 }.goTo t (.released true)
  | .released _ => return s.leave t (s.opened t - 1)

/-- A thread in a call can go on, unless `sema_down` has to wait. -/
def State.Ready (s : State) (t : ℕ) : Prop :=
  s.place t ≠ .out ∧ (s.place t = .semaDown → s.value ≠ 0)

inductive Event
  | acquireConsole (t : ℕ)
  | releaseConsole (t : ℕ)
  | access (t : ℕ)

/-- **Any interleaving.** -/
inductive Step : State → Event → State → Prop
  | acquireConsole {s : State} {t : ℕ} : s.place t = .out →
      Step s (.acquireConsole t) (s.goTo t .held)
  | releaseConsole {s : State} {t : ℕ} : s.place t = .out →
      Step s (.releaseConsole t) (s.goTo t .test)
  | access {s s' : State} {t : ℕ} : s.Ready t → s.exec t = .ok s' → Step s (.access t) s'

def Nested (s : State) : Event → Prop
  | .releaseConsole t => 0 < s.opened t
  | _ => True

/-! ### Nesting -/

/-- The nesting depth with `opened` pairs: a call counts from its last access on. -/
def Place.nesting (opened : ℕ) : Place → ℕ
  | .acquired => opened + 1
  | .semaUp | .released _ => opened - 1
  | _ => opened

def State.nesting (s : State) (t : ℕ) : ℕ := (s.place t).nesting (s.opened t)

/-- Thread `t` is past `sema_down` and not yet past `sema_up`. -/
def State.Owns (s : State) (t : ℕ) : Prop :=
  0 < s.nesting t ∨ s.place t = .setHolder ∨ s.place t = .semaUp

def Place.Ok (opened : ℕ) (depth : ℤ) : Place → Prop
  | .out | .held | .acquired => True
  | .load | .test => 1 ≤ opened
  | .store d => 1 ≤ opened ∧ d = depth
  | .assertNotHeld | .semaDown | .setHolder => opened = 0
  | .loadDown => 2 ≤ opened
  | .storeDown d => 2 ≤ opened ∧ d = depth
  | .assertHeld | .clearHolder | .semaUp => opened = 1
  | .released gaveUp => 1 ≤ opened ∧ (gaveUp = true ↔ opened = 1)

/-- **The invariant.** -/
structure State.Inv (s : State) : Prop where
  value : (s.value = 1 ∧ ∀ t, ¬ s.Owns t) ∨ (s.value = 0 ∧ ∃ t, s.Owns t ∧ ∀ u, s.Owns u → u = t)
  holder : ∀ t, s.holder = some t ↔ 0 < s.nesting t
  depth : ∀ t, s.holder = some t → s.depth = s.nesting t - 1
  free : s.holder = none → s.depth = 0
  places : ∀ t, (s.place t).Ok (s.opened t) s.depth

variable {e : Event}

section Preserves

variable {s s' : State} {t u : ℕ} {p : Place}

lemma State.Inv.unique (h : s.Inv) (ht : s.Owns t) (hu : s.Owns u) : u = t := by
  rcases h.value with ⟨_, hnone⟩ | ⟨_, w, _, hw⟩
  · exact absurd ht (hnone t)
  · rw [hw t ht, hw u hu]

lemma State.Inv.value_zero (h : s.Inv) (ht : s.Owns t) : s.value = 0 := by
  rcases h.value with ⟨_, hnone⟩ | ⟨hzero, _⟩
  · exact absurd ht (hnone t)
  · exact hzero

/-- Two states in which everything is the same for the other threads. -/
structure State.Others (s s' : State) (t : ℕ) : Prop where
  place : ∀ u, u ≠ t → s'.place u = s.place u
  opened : ∀ u, u ≠ t → s'.opened u = s.opened u

namespace State.Others

lemma nesting (h : s.Others s' t) (hu : u ≠ t) : s'.nesting u = s.nesting u := by
  rw [State.nesting, State.nesting, h.place u hu, h.opened u hu]

lemma owns (h : s.Others s' t) (hu : u ≠ t) : s'.Owns u ↔ s.Owns u := by
  rw [State.Owns, State.Owns, h.nesting hu, h.place u hu]

lemma goTo {s1 : State} (hplace : s1.place = s.place) (hopened : s1.opened = s.opened) (t : ℕ)
    (p : Place) : s.Others (s1.goTo t p) t := by
  constructor
  · intro u hu
    rw [← hplace]
    exact update_of_ne hu ..
  · intro u _
    rw [← hopened]
    rfl

lemma leave (s : State) (t n : ℕ) : s.Others (s.leave t n) t :=
  ⟨fun _ hu => update_of_ne hu .., fun _ hu => update_of_ne hu ..⟩

end State.Others

/-- **A step that leaves the lock, the counter and the nesting depth alone.** -/
theorem State.Inv.steady (h : s.Inv) (ho : s.Others s' t) (hholder : s'.holder = s.holder)
    (hdepth : s'.depth = s.depth) (hnesting : s'.nesting t = s.nesting t)
    (hvalue : (s'.value = 1 ∧ ∀ u, ¬ s'.Owns u) ∨
      (s'.value = 0 ∧ ∃ u, s'.Owns u ∧ ∀ v, s'.Owns v → v = u))
    (hok : (s'.place t).Ok (s'.opened t) s'.depth) : s'.Inv := by
  have hn : ∀ u, s'.nesting u = s.nesting u := by
    intro u
    by_cases hu : u = t
    · rw [hu, hnesting]
    · exact ho.nesting hu
  refine ⟨hvalue, fun u => ?_, fun u hu => ?_, fun hfree => ?_, fun u => ?_⟩
  · rw [hholder, hn]
    exact h.holder u
  · rw [hdepth, hn]
    exact h.depth u (hholder ▸ hu)
  · rw [hdepth]
    exact h.free (hholder ▸ hfree)
  · by_cases hu : u = t
    · rw [hu]
      exact hok
    · rw [ho.place u hu, ho.opened u hu, hdepth]
      exact h.places u

lemma State.Inv.move (h : s.Inv) (ho : s.Others s' t) (hvalue : s'.value = s.value)
    (hholder : s'.holder = s.holder) (hdepth : s'.depth = s.depth)
    (hnesting : s'.nesting t = s.nesting t) (howns : s'.Owns t ↔ s.Owns t)
    (hok : (s'.place t).Ok (s'.opened t) s'.depth) : s'.Inv := by
  have hw : ∀ u, s'.Owns u ↔ s.Owns u := by
    intro u
    by_cases hu : u = t
    · rw [hu, howns]
    · exact ho.owns hu
  refine h.steady ho hholder hdepth hnesting ?_ hok
  rw [hvalue]
  simp only [hw]
  exact h.value

lemma Place.Ok.of_not_holder {opened : ℕ} {d d' : ℤ} (h : p.Ok opened d)
    (hn : p.nesting opened = 0) : p.Ok opened d' := by
  cases p with
  | store | storeDown => exact absurd hn (by have := h.1; simp only [Place.nesting]; omega)
  | _ => exact h

lemma State.Inv.count (h : s.Inv) (ho : s.Others s' t) (hheld : s.holder = some t)
    (hvalue : s'.value = s.value) (hholder : s'.holder = s.holder)
    (hpos : 0 < s'.nesting t) (hdepth : s'.depth = s'.nesting t - 1)
    (hok : (s'.place t).Ok (s'.opened t) s'.depth) : s'.Inv := by
  have hns : 0 < s.nesting t := (h.holder t).1 hheld
  have hzero : ∀ u, u ≠ t → s.nesting u = 0 := by
    intro u hu
    by_contra hne
    have := (h.holder u).2 (Nat.pos_of_ne_zero hne)
    rw [hheld] at this
    exact hu (some.inj this).symm
  have howns : ∀ u, s'.Owns u ↔ s.Owns u := by
    intro u
    by_cases hu : u = t
    · rw [hu]
      exact ⟨fun _ => .inl hns, fun _ => .inl hpos⟩
    · exact ho.owns hu
  constructor
  · rw [hvalue]
    simp only [howns]
    exact h.value
  · intro u
    rw [hholder]
    by_cases hu : u = t
    · rw [hu]
      exact ⟨fun _ => hpos, fun _ => hheld⟩
    · rw [ho.nesting hu]
      exact h.holder u
  · intro u hu
    rw [hholder, hheld] at hu
    rw [← some.inj hu]
    exact hdepth
  · intro hfree
    rw [hholder, hheld] at hfree
    cases hfree
  · intro u
    by_cases hu : u = t
    · rw [hu]
      exact hok
    · rw [ho.place u hu, ho.opened u hu]
      exact (h.places u).of_not_holder (hzero u hu)

/-- **`sema_down` and `sema_up`**, by a thread that is not the holder. -/
theorem State.Inv.sema (h : s.Inv) (ho : s.Others s' t) (hholder : s'.holder = s.holder)
    (hdepth : s'.depth = s.depth) (hnesting : s'.nesting t = s.nesting t)
    (hvalue : (s.value ≠ 0 ∧ s'.value = s.value - 1 ∧ s'.Owns t) ∨
      (s.Owns t ∧ s'.value = s.value + 1 ∧ ¬ s'.Owns t))
    (hok : (s'.place t).Ok (s'.opened t) s'.depth) : s'.Inv := by
  refine h.steady ho hholder hdepth hnesting ?_ hok
  rcases hvalue with ⟨hne, hval, howns⟩ | ⟨howns, hval, hnot⟩
  · -- Nobody had it.
    rcases h.value with ⟨_, hnone⟩ | ⟨hzero, _⟩
    · refine .inr ⟨by omega, t, howns, fun u hu => ?_⟩
      by_contra hut
      exact hnone u ((ho.owns hut).1 hu)
    · exact absurd hzero hne
  · -- Nobody else had it.
    refine .inl ⟨by rw [hval, h.value_zero howns], fun u hu => ?_⟩
    by_cases hut : u = t
    · exact hnot (hut ▸ hu)
    · exact hut (h.unique howns ((ho.owns hut).1 hu))

/-- **The owner becomes the holder, or stops being it**, with the counter at zero. -/
theorem State.Inv.hold (h : s.Inv) (ho : s.Others s' t) (howns : s.Owns t) (howns' : s'.Owns t)
    (hvalue : s'.value = s.value) (hdepth : s'.depth = s.depth) (hzero : s.depth = 0)
    (hholder : (s'.holder = some t ∧ s'.nesting t = 1) ∨ (s'.holder = none ∧ s'.nesting t = 0))
    (hok : (s'.place t).Ok (s'.opened t) s'.depth) : s'.Inv := by
  have hothers : ∀ u, u ≠ t → s.nesting u = 0 := by
    intro u hu
    by_contra hne
    exact hu (h.unique howns (.inl (Nat.pos_of_ne_zero hne)))
  constructor
  · refine .inr ⟨by rw [hvalue, h.value_zero howns], t, howns', fun u hu => ?_⟩
    by_contra hut
    exact hut (h.unique howns ((ho.owns hut).1 hu))
  · intro u
    by_cases hu : u = t
    · subst hu
      rcases hholder with ⟨hh, hn⟩ | ⟨hh, hn⟩
      · simp [hh, hn]
      · simp [hh, hn]
    · rw [ho.nesting hu, hothers u hu]
      rcases hholder with ⟨hh, _⟩ | ⟨hh, _⟩
      · simp [hh, Ne.symm hu]
      · simp [hh]
  · intro u hu
    rcases hholder with ⟨hh, hn⟩ | ⟨hh, _⟩
    · rw [hh] at hu
      rw [← some.inj hu, hn, hdepth, hzero]
      rfl
    · rw [hh] at hu
      cases hu
  · intro _
    rw [hdepth, hzero]
  · intro u
    by_cases hu : u = t
    · rw [hu]
      exact hok
    · rw [ho.place u hu, ho.opened u hu]
      exact (h.places u).of_not_holder (hothers u hu)

lemma State.init_inv : State.init.Inv where
  value := by
    refine .inl ⟨rfl, fun t => ?_⟩
    rintro (h | h | h)
    · exact absurd h (Nat.lt_irrefl 0)
    · cases h
    · cases h
  holder t := ⟨nofun, fun h => absurd h (Nat.lt_irrefl 0)⟩
  depth := nofun
  free _ := rfl
  places _ := trivial

lemma State.goTo_place (s : State) (t : ℕ) (p : Place) : (s.goTo t p).place t = p :=
  update_self ..

lemma State.goTo_nesting (s : State) (t : ℕ) (p : Place) :
    (s.goTo t p).nesting t = p.nesting (s.opened t) := by
  rw [nesting, goTo_place]
  rfl

lemma State.goTo_owns (s : State) (t : ℕ) (p : Place) : (s.goTo t p).Owns t ↔
    0 < p.nesting (s.opened t) ∨ p = .setHolder ∨ p = .semaUp := by
  rw [Owns, goTo_nesting, goTo_place]

lemma State.Inv.goTo {q : Place} (h : s.Inv) (hp : s.place t = p)
    (hnesting : q.nesting (s.opened t) = p.nesting (s.opened t))
    (howns : q = .setHolder ∨ q = .semaUp ↔ p = .setHolder ∨ p = .semaUp)
    (hok : q.Ok (s.opened t) s.depth) : (s.goTo t q).Inv := by
  have hn : s.nesting t = p.nesting (s.opened t) := by rw [State.nesting, hp]
  refine h.move (.goTo rfl rfl t q) rfl rfl rfl ?_ ?_ ?_
  · rw [s.goTo_nesting, hnesting, hn]
  · rw [s.goTo_owns, State.Owns, hnesting, hn, hp, howns]
  · rw [s.goTo_place]
    exact hok

lemma State.Inv.leave (h : s.Inv) (hplace : s.place t ≠ .setHolder ∧ s.place t ≠ .semaUp) {n : ℕ}
    (hn : s.nesting t = n) : (s.leave t n).Inv := by
  have hplace' : (s.leave t n).place t = .out := update_self ..
  have hnesting : (s.leave t n).nesting t = n := by
    rw [State.nesting, hplace']
    exact update_self ..
  refine h.move (.leave s t n) rfl rfl rfl (by rw [hnesting, hn]) ?_ ?_
  · rw [State.Owns, State.Owns, hnesting, hn, hplace']
    simp [hplace.1, hplace.2]
  · rw [hplace']
    trivial

theorem State.Inv.exec (h : s.Inv) (hready : s.Ready t) : ∃ s', s.exec t = .ok s' ∧ s'.Inv := by
  have hok := h.places t
  -- The holder's nesting depth is the number of its open pairs at the places of the counter.
  have hheld : ∀ {p : Place}, s.place t = p → 0 < p.nesting (s.opened t) → s.holder = some t := by
    intro p hp hpos
    exact (h.holder t).2 (by rw [State.nesting, hp]; exact hpos)
  rw [State.exec]
  generalize hp : s.place t = p at hok ⊢
  cases p with
  | out => exact absurd hp hready.1
  | held =>
    refine ⟨_, rfl, ?_⟩
    have hn : s.nesting t = s.opened t := by rw [State.nesting, hp]; rfl
    by_cases hh : s.holder = some t
    · rw [if_pos hh]
      have hpos := (h.holder t).1 hh
      exact h.goTo hp rfl (by simp) (by rw [hn] at hpos; exact hpos)
    · rw [if_neg hh]
      refine h.goTo hp rfl (by simp) ?_
      by_contra hne
      exact hh ((h.holder t).2 (by rw [hn]; exact Nat.pos_of_ne_zero hne))
  | load | loadDown =>
    exact ⟨_, rfl, h.goTo hp rfl (by simp) ⟨hok, rfl⟩⟩
  | store =>
    obtain ⟨hopen, rfl⟩ := hok
    have hh := hheld hp hopen
    have hdepth := h.depth t hh
    rw [State.nesting, hp] at hdepth
    refine ⟨_, rfl, h.count (.goTo (by rfl) (by rfl) t _) hh rfl rfl ?_ ?_ ?_⟩
    · rw [State.goTo_nesting]
      exact Nat.succ_pos _
    · rw [State.goTo_nesting]
      simp only [State.goTo, Place.nesting] at hdepth ⊢
      omega
    · rw [State.goTo_place]
      trivial
  | assertNotHeld =>
    have hnot : s.holder ≠ some t := by
      intro hh
      have hpos := (h.holder t).1 hh
      rw [State.nesting, hp, Place.nesting, hok] at hpos
      exact absurd hpos (Nat.lt_irrefl 0)
      all_goals nofun
    dsimp only
    rw [ASSERT_of hnot, ok_bind]
    exact ⟨_, rfl, h.goTo hp rfl (by simp) hok⟩
  | semaDown =>
    refine ⟨_, rfl, h.sema (.goTo (by rfl) (by rfl) t _) rfl rfl ?_
      (.inl ⟨hready.2 hp, rfl, ?_⟩) ?_⟩
    · rw [State.goTo_nesting, State.nesting, hp]
      rfl
    · rw [State.goTo_owns]
      exact .inr (.inl rfl)
    · rw [State.goTo_place]
      exact hok
  | setHolder =>
    have howns : s.Owns t := .inr (.inl hp)
    have hfree : s.holder = none := by
      cases hh : s.holder with
      | none => rfl
      | some u =>
        -- A holder would own the semaphore too.
        have hpos := (h.holder u).1 hh
        rw [h.unique howns (.inl hpos), State.nesting, hp, Place.nesting, hok] at hpos
        exact absurd hpos (Nat.lt_irrefl 0)
        all_goals nofun
    refine ⟨_, rfl, h.hold (.goTo (by rfl) (by rfl) t _) howns ?_ rfl rfl (h.free hfree)
      (.inl ⟨rfl, ?_⟩) ?_⟩
    · rw [State.goTo_owns]
      exact .inl (Nat.succ_pos _)
    · rw [State.goTo_nesting]
      simp only [Place.nesting]
      rw [hok]
    · rw [State.goTo_place]
      trivial
  | acquired | released =>
    exact ⟨_, rfl, h.leave (by simp [hp]) (by rw [State.nesting, hp]; rfl)⟩
  | test =>
    have hdepth := h.depth t (hheld hp hok)
    rw [State.nesting, hp] at hdepth
    refine ⟨_, rfl, ?_⟩
    simp only [Place.nesting] at hdepth
    by_cases hgt : s.depth > 0
    · rw [if_pos hgt]
      exact h.goTo hp rfl (by simp) (show 2 ≤ s.opened t by omega)
    · rw [if_neg hgt]
      exact h.goTo hp rfl (by simp) (show s.opened t = 1 by have : 1 ≤ s.opened t := hok; omega)
  | storeDown =>
    obtain ⟨_, rfl⟩ := hok
    have hh := hheld hp (show 0 < s.opened t by omega)
    have hdepth := h.depth t hh
    rw [State.nesting, hp] at hdepth
    simp only [Place.nesting] at hdepth
    refine ⟨_, rfl, h.count (.goTo (by rfl) (by rfl) t _) hh rfl rfl ?_ ?_ ?_⟩
    · rw [State.goTo_nesting]
      show 0 < s.opened t - 1
      omega
    · rw [State.goTo_nesting]
      show s.depth - 1 = ((s.opened t - 1 : ℕ) : ℤ) - 1
      omega
    · rw [State.goTo_place]
      exact ⟨show 1 ≤ s.opened t by omega, nofun, fun heq => by
        have : s.opened t = 1 := heq
        omega⟩
  | assertHeld =>
    have hh := hheld hp (show 0 < s.opened t by rw [show s.opened t = 1 from hok]; decide)
    dsimp only
    rw [ASSERT_of hh, ok_bind]
    exact ⟨_, rfl, h.goTo hp rfl (by simp) hok⟩
  | clearHolder =>
    have hopen : s.opened t = 1 := hok
    have hpos : 0 < Place.clearHolder.nesting (s.opened t) := by
      show 0 < s.opened t
      omega
    have hh := hheld hp hpos
    have hdepth := h.depth t hh
    rw [State.nesting, hp] at hdepth
    have hzero : s.depth = 0 := by
      rw [hdepth]
      show ((s.opened t : ℕ) : ℤ) - 1 = 0
      omega
    refine ⟨_, rfl, h.hold (.goTo (by rfl) (by rfl) t _) (.inl ((h.holder t).1 hh)) ?_ rfl rfl hzero
      (.inr ⟨rfl, ?_⟩) ?_⟩
    · rw [State.goTo_owns]
      exact .inr (.inr rfl)
    · rw [State.goTo_nesting]
      show s.opened t - 1 = 0
      omega
    · rw [State.goTo_place]
      exact hok
  | semaUp =>
    have hopen : s.opened t = 1 := hok
    refine ⟨_, rfl, h.sema (.goTo (by rfl) (by rfl) t _) rfl rfl ?_
      (.inr ⟨.inr (.inr hp), rfl, ?_⟩) ?_⟩
    · rw [State.goTo_nesting, State.nesting, hp]
      rfl
    · rw [State.goTo_owns]
      rintro (hpos | heq | heq)
      · have hpos' : 0 < s.opened t - 1 := hpos
        omega
      · cases heq
      · cases heq
    · rw [State.goTo_place]
      exact ⟨hopen.ge, fun _ => hopen, fun _ => rfl⟩

theorem State.Inv.step (h : s.Inv) (hs : Step s e s') (hn : Nested s e) : s'.Inv := by
  cases hs with
  | acquireConsole hout => exact h.goTo hout rfl (by simp) trivial
  | releaseConsole hout => exact h.goTo hout rfl (by simp) hn
  | access hready hexec =>
    obtain ⟨_, hs1, hinv⟩ := h.exec hready
    rw [hs1] at hexec
    exact Except.ok.inj hexec ▸ hinv

end Preserves

/-! ### The console -/

lemma State.exec_holder {s s' : State} {u : ℕ} (h : s.exec u = .ok s') :
    s'.holder = s.holder ∨ s.place u = .setHolder ∨ s.place u = .clearHolder := by
  cases hp : s.place u with
  | setHolder => exact .inr (.inl rfl)
  | clearHolder => exact .inr (.inr rfl)
  | assertNotHeld | assertHeld =>
    rw [exec, hp] at h
    simp only [bind_eq_ok] at h
    obtain ⟨_, _, h⟩ := h
    cases h
    exact .inl rfl
  | _ =>
    rw [exec, hp] at h
    cases h
    exact .inl rfl

/-- **Nested console locking**, in any interleaving of properly nested calls: only the holder has a
nesting depth, one more than the counter; only the last release gives up the lock. -/
theorem console_nesting {s : State} (hrun : Reaches Step Nested .init s) :
    (∀ t u, 0 < s.nesting t → 0 < s.nesting u → u = t) ∧
      (∀ t, s.holder = some t ↔ 0 < s.nesting t) ∧
      (∀ t, s.holder = some t → s.depth = s.nesting t - 1) ∧
      (s.holder = none → s.depth = 0) ∧
      (∀ t gaveUp, s.place t = .released gaveUp → (gaveUp = true ↔ s.opened t = 1)) ∧
      (∀ t u s', s.holder = some t → s.Ready u → s.exec u = .ok s' → s'.holder ≠ some t →
        u = t ∧ s.place t = .clearHolder ∧ s.opened t = 1) ∧
      ∀ t, s.Ready t → ∃ s', s.exec t = .ok s' := by
  have hinv : s.Inv := by
    refine Reaches.invariant State.Inv ?_ State.init_inv hrun
    intro s e _ h hs hn
    exact h.step hs hn
  refine ⟨fun t u ht hu => hinv.unique (.inl ht) (.inl hu), hinv.holder, hinv.depth, hinv.free,
    fun t gaveUp hp => ?_, fun t u s' ht hready hexec hlost => ?_, fun t hready => ?_⟩
  · have hok := hinv.places t
    rw [hp] at hok
    exact hok.2
  · -- The holder is written at two places, where the thread owns the semaphore.
    have howns : s.Owns t := .inl ((hinv.holder t).1 ht)
    have hok := hinv.places u
    rcases State.exec_holder hexec with hsame | hp | hp
    · exact absurd (hsame.trans ht) hlost
    · obtain rfl := hinv.unique howns (.inr (.inl hp))
      rw [hp] at hok
      have hpos := (hinv.holder u).1 ht
      rw [State.nesting, hp] at hpos
      exact absurd hok (Nat.pos_iff_ne_zero.1 hpos)
    · rw [hp] at hok
      have hone : s.opened u = 1 := hok
      have hpos : 0 < s.nesting u := by
        rw [State.nesting, hp]
        show 0 < s.opened u
        omega
      obtain rfl := hinv.unique howns (.inl hpos)
      exact ⟨rfl, hp, hone⟩
  · obtain ⟨s', hs', _⟩ := hinv.exec hready
    exact ⟨s', hs'⟩

def State.next (s : State) : Event → Option State
  | .acquireConsole t => if s.place t = .out then some (s.goTo t .held) else none
  | .releaseConsole t =>
    if s.place t = .out ∧ 0 < s.opened t then some (s.goTo t .test) else none
  | .access t =>
    if s.place t ≠ .out ∧ (s.place t = .semaDown → s.value ≠ 0) then (s.exec t).toOption else none

lemma State.next_step {s s' : State} (h : s.next e = some s') : Step s e s' ∧ Nested s e := by
  cases e with
  | acquireConsole =>
    simp only [next, ite_none_right_eq_some, some.injEq] at h
    obtain ⟨hout, rfl⟩ := h
    exact ⟨.acquireConsole hout, trivial⟩
  | releaseConsole =>
    simp only [next, ite_none_right_eq_some, some.injEq] at h
    obtain ⟨⟨hout, hopen⟩, rfl⟩ := h
    exact ⟨.releaseConsole hout, hopen⟩
  | access t =>
    simp only [next, ite_none_right_eq_some] at h
    obtain ⟨hready, h⟩ := h
    cases hexec : s.exec t with
    | error =>
      rw [hexec] at h
      cases h
    | ok =>
      rw [hexec] at h
      cases h
      exact ⟨.access hready hexec, trivial⟩

theorem console_nesting_twice :
    ∃ s : State, s.place 2 = .semaDown ∧ s.opened 1 = 2 ∧ s.holder = some 1 ∧ s.depth = 1 := by
  let calls : List Event :=
    [.acquireConsole 1, .access 1, .access 1, .access 1, .access 1, .access 1,
      .acquireConsole 2, .access 2, .access 2,
      .acquireConsole 1, .access 1, .access 1, .access 1, .access 1]
  have hcheck : (runThrough State.next calls State.init).any (fun s =>
      decide (s.place 1 = .out) && decide (s.opened 1 = 2) &&
        decide (s.place 2 = .semaDown)) = true := by
    decide
  obtain ⟨s, hrun, hs⟩ := exists_runThrough State.next_step _ _ _ hcheck
  simp only [Bool.and_eq_true, decide_eq_true_eq] at hs
  obtain ⟨⟨hout, hopen⟩, hdown⟩ := hs
  obtain ⟨_, hholder, hdepth, _⟩ := console_nesting hrun
  have hn : s.nesting 1 = 2 := by
    rw [State.nesting, hout]
    exact hopen
  have hheld : s.holder = some 1 := (hholder 1).2 (by rw [hn]; decide)
  refine ⟨s, hdown, hopen, hheld, ?_⟩
  rw [hdepth 1 hheld, hn]
  rfl

end Pintos.Lib.Console
