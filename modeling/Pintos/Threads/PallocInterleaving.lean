/-
# Unlocked frees cannot cause double allocation

The threads of `PallocBits` interleaved at single tests and writes of a bit.  Every set bit has an
owner: a live allocation, or a call, a request that has set it or a free that has yet to clear it
(`Inv.bit`).  What a thread relies on, and guarantees, is

* that nobody else touches the pages its call owns,
* that while it holds the lock of a pool no free page becomes owned, so that what its scan found
  clear stays clear, and
* that a page becomes owned only by a write that its count records.

Frees only take owners away, so they need no lock.
-/

import Pintos.Base.Rely
import Pintos.Threads.PallocBits

namespace Pintos.PallocBits

open Base Prog Function Kernel Option Triple Allocation

/-! ### Owners -/

inductive Owner (ι : Type) where
  | live (a : Allocation)
  | call (i : ι)

abbrev Owners (ι : Type) := Bool → ℕ → Option (Owner ι)

structure Laid (p : Palloc) : Prop where
  pools : ∃ kstart kpages ustart upages, (p.pool false).Layout kstart kpages ∧
    (p.pool true).Layout ustart upages ∧ kstart + kpages * PGSIZE ≤ ustart

def size (p : Palloc) (u : Bool) : ℕ := (p.pool u).usedMap.bitCnt

structure IsGroup (p : Palloc) (a : Allocation) (k : ℕ) : Prop where
  pos : 0 < a.pageCnt
  pages : a.pages = (p.pool a.user).base + PGSIZE * k
  inside : k + a.pageCnt ≤ size p a.user

variable {ι : Type} {p : Palloc} {i : ι} {x y z : Shared ι × Owners ι} {u value : Bool}
  {E : Panic → Prop} {w n k j cnt idx m pages : ℕ} {P : Shared ι × Owners ι → Prop}
  {o : Option (Owner ι)} {g : Owners ι} {s' : Shared ι} {allocs : Bool → ℕ → ℕ} {a b : Allocation}
  {live : List Allocation}

lemma Laid.size_lt (hl : Laid p) (u : Bool) : size p u < 2 ^ 20 := by
  obtain ⟨_, _, _, _, hk, hu, _⟩ := hl.pools
  cases u
  · exact hk.bitCnt_lt
  · exact hu.bitCnt_lt

structure SameShape (p q : Palloc) : Prop where
  base : ∀ u, (q.pool u).base = (p.pool u).base
  mapAddr : ∀ u, (q.pool u).mapAddr = (p.pool u).mapAddr
  size : ∀ u, (q.pool u).usedMap.bitCnt = size p u

lemma Laid.of_sameShape {q : Palloc} (hl : Laid p) (hs : SameShape p q) : Laid q := by
  obtain ⟨ks, kp, us, up, hk, hu, hku⟩ := hl.pools
  exact ⟨ks, kp, us, up, hk.congr (hs.base _) (hs.mapAddr _) (hs.size _),
    hu.congr (hs.base _) (hs.mapAddr _) (hs.size _), hku⟩

/-- **The invariant.**  A bit is set exactly when its page has an owner. -/
structure Inv (p : Palloc) (x : Shared ι × Owners ι) : Prop where
  shape : SameShape p x.1.alloc
  bit : ∀ u j, j < size p u → ((x.1.map u).bit j = true ↔ x.2 u j ≠ none)
  nodup : x.1.live.Nodup
  live : ∀ a ∈ x.1.live, ∃ k, IsGroup p a k ∧
    ∀ j, k ≤ j → j < k + a.pageCnt → x.2 a.user j = some (.live a)

/-- Every step keeps the invariant, and counts record new owners. -/
structure Recorded (p : Palloc) (x y : Shared ι × Owners ι) : Prop where
  inv : Inv p x → Inv p y
  allocs : ∀ u j, x.1.allocs u j ≤ y.1.allocs u j
  again : ∀ u j, y.2 u j ≠ none → x.2 u j ≠ none ∨ x.1.allocs u j < y.1.allocs u j

structure Relies (p : Palloc) (i : ι) (x y : Shared ι × Owners ι) : Prop extends
    Recorded p x y where
  own : ∀ u j, x.2 u j = some (.call i) → y.2 u j = some (.call i)
  lock : ∀ u, x.1.lock u = some i → y.1.lock u = some i
  free : ∀ u, x.1.lock u = some i → ∀ j, x.2 u j = none → y.2 u j = none

structure Guarantees (p : Palloc) (i : ι) (x y : Shared ι × Owners ι) : Prop extends
    Recorded p x y where
  own : ∀ k ≠ i, ∀ u j, x.2 u j = some (.call k) → y.2 u j = some (.call k)
  lock : ∀ k ≠ i, ∀ u, x.1.lock u = some k → y.1.lock u = some k
  free : ∀ u, x.1.lock u ≠ some i → ∀ j, x.2 u j = none → y.2 u j = none

lemma Recorded.refl (x : Shared ι × Owners ι) : Recorded p x x :=
  ⟨id, fun _ _ => le_rfl, fun _ _ h => .inl h⟩

lemma Recorded.trans (h1 : Recorded p x y) (h2 : Recorded p y z) : Recorded p x z := by
  refine ⟨h2.inv ∘ h1.inv, fun u j => (h1.allocs u j).trans (h2.allocs u j), fun u j hz => ?_⟩
  have hle1 := h1.allocs u j
  have hle2 := h2.allocs u j
  rcases h2.again u j hz with hy | _
  · rcases h1.again u j hy with hx | _
    · exact .inl hx
    · exact .inr (by omega)
  · exact .inr (by omega)

lemma Relies.refl (x : Shared ι × Owners ι) : Relies p i x x :=
  ⟨.refl x, fun _ _ => id, fun _ => id, fun _ _ _ => id⟩

lemma Relies.trans (h1 : Relies p i x y) (h2 : Relies p i y z) : Relies p i x z :=
  ⟨h1.toRecorded.trans h2.toRecorded, fun u j => h2.own u j ∘ h1.own u j,
    fun u => h2.lock u ∘ h1.lock u,
    fun u hl j => h2.free u (h1.lock u hl) j ∘ h1.free u hl j⟩

lemma Guarantees.relies {k : ι} (hk : k ≠ i) (h : Guarantees p i x y) : Relies p k x y where
  toRecorded := h.toRecorded
  own := h.own k hk
  lock := h.lock k hk
  free := fun u hl j => h.free u (fun hi => hk (mem_unique hl hi)) j

lemma Guarantees.refl (x : Shared ι × Owners ι) : Guarantees p i x x :=
  ⟨.refl x, fun _ _ _ _ => id, fun _ _ _ => id, fun _ _ _ => id⟩

/-! ### Assertions -/

def Held (p : Palloc) (i : ι) (u : Bool) (x : Shared ι × Owners ι) : Prop :=
  Inv p x ∧ x.1.lock u = some i

def FreeRange (u : Bool) (w n : ℕ) (x : Shared ι × Owners ι) : Prop :=
  ∀ j, w ≤ j → j < w + n → x.2 u j = none

def OwnRange (i : ι) (u : Bool) (w n : ℕ) (x : Shared ι × Owners ι) : Prop :=
  ∀ j, w ≤ j → j < w + n → x.2 u j = some (.call i)

lemma stable_inv : Stable (Relies p i) (Inv p) := fun _ _ hx hR => hR.inv hx

lemma stable_held : Stable (Relies p i) (Held p i u) :=
  fun _ _ hx hR => ⟨hR.inv hx.1, hR.lock u hx.2⟩

lemma stable_ownRange : Stable (Relies p i) (OwnRange i u w n) :=
  fun _ _ hx hR j h1 h2 => hR.own u j (hx j h1 h2)

lemma stable_held_free : Stable (Relies p i) fun x => Held p i u x ∧ FreeRange u w n x :=
  fun _ _ hx hR => ⟨stable_held _ _ hx.1 hR, fun j h1 h2 => hR.free u hx.1.2 j (hx.2 j h1 h2)⟩

lemma stable_found {b : Bool} :
    Stable (Relies p i) fun x => Held p i u x ∧ (b = false → FreeRange u w n x) :=
  fun x y hx hR => ⟨stable_held x y hx.1 hR, fun hb => (stable_held_free x y ⟨hx.1, hx.2 hb⟩ hR).2⟩

lemma Stable.and {Q : Shared ι × Owners ι → Prop} (hP : Stable (Relies p i) P)
    (hQ : Stable (Relies p i) Q) : Stable (Relies p i) fun x => P x ∧ Q x :=
  fun x y hx hR => ⟨hP x y hx.1 hR, hQ x y hx.2 hR⟩

abbrev Among {α : Type} (p : Palloc) (i : ι) (E : Panic → Prop) (P : Shared ι × Owners ι → Prop)
    (x : Prog (Shared ι) α) (Q : α → Shared ι × Owners ι → Prop) : Prop :=
  Triple (Relies p i) (Guarantees p i) E P x Q

/-! ### Reading -/

lemma read_triple {α : Type} {f : Shared ι → Kernel (α × Shared ι)}
    {Q : α → Shared ι × Owners ι → Prop} (hP : Stable (Relies p i) P)
    (h : ∀ x, P x → ∃ a, f x.1 = .ok (a, x.1) ∧ Q a x) (hQ : ∀ a, Stable (Relies p i) (Q a)) :
    Among p i E P (.atom f) Q :=
  atom hP (fun x hx => by
    obtain ⟨a, hf, hq⟩ := h x hx
    exact ⟨a, x.1, x.2, hf, .refl x, hq⟩) hQ

section Loops

variable {start cnt : ℕ} {value : Bool}

lemma assertRange_triple (hl : Laid p) (hP : Stable (Relies p i) P) (hI : ∀ x, P x → Inv p x)
    (hin : start + cnt ≤ size p u) :
    Among p i E P (assertRange u start cnt) fun _ => P := by
  have hlt := hl.size_lt u
  refine read_triple hP (fun x hx => ⟨(), ?_, hx⟩) fun _ => hP
  have hsize : (x.1.map u).bitCnt = size p u := (hI x hx).shape.size u
  rw [ASSERT_of (by omega), ok_bind, ASSERT_of (by rw [u32_of_lt (by omega)]; omega)]
  rfl

section Contains

variable (hl : Laid p) {P : ℕ → Shared ι × Owners ι → Prop}
  {Q : Bool → Shared ι × Owners ι → Prop} (hP : ∀ m, Stable (Relies p i) (P m))
  (hQ : ∀ b, Stable (Relies p i) (Q b)) (hI : ∀ m x, P m x → Inv p x)
  (hin : start + cnt ≤ size p u)
  (hstep : ∀ m x, m < cnt → P m x → (x.1.map u).bit (start + m) ≠ value → P (m + 1) x)
  (hstop : ∀ m x, m < cnt → P m x → (x.1.map u).bit (start + m) = value → Q true x)
  (hend : ∀ x, P cnt x → Q false x)
include hl hP hQ hI hin hstep hstop hend

/-- **The loop that looks for a bit.**  `P m`: the first `m` bits are different. -/
theorem containsFrom_triple (hkm : m + k = cnt) :
    Among p i E (P m) (containsFrom u start value k m) Q := by
  have hlt := hl.size_lt u
  induction k generalizing m with
  | zero =>
    obtain rfl : m = cnt := by omega
    exact pure (hP m) hend
  | succ k ih =>
    refine bind Relies.refl
      (read_triple (hP m) (Q := fun b x => if (b == value) = true then Q true x else P (m + 1) x)
        (fun x hx => ?_) fun b => ?_) fun b => ?_
    · have hsize : (x.1.map u).bitCnt = size p u := (hI m x hx).shape.size u
      refine ⟨(x.1.map u).bit (start + m), ?_, ?_⟩
      · rw [u32_of_lt (by omega), bitmapTest_ok (by omega)]
        rfl
      · split_ifs with hb
        · exact hstop m x (by omega) hx (eq_of_beq hb)
        · exact hstep m x (by omega) hx fun heq => hb (beq_iff_eq.mpr heq)
    · split_ifs
      · exact hQ true
      · exact hP (m + 1)
    · split_ifs
      · exact pure (hQ true) fun _ hx => hx
      · exact ih (by omega)

lemma bitmapContains_triple : Among p i E (P 0) (bitmapContains u start cnt value) Q :=
  bind Relies.refl (assertRange_triple hl (hP 0) (hI 0) hin) fun _ =>
    containsFrom_triple hl hP hQ hI hin hstep hstop hend (by omega)

end Contains

lemma scanFrom_triple (hl : Laid p) (hw : w + k ≤ size p u - cnt + 1) (hcnt : cnt ≤ size p u) :
    Among p i E (Held p i u) (scanFrom u cnt false k w) fun r x =>
      Held p i u x ∧ ∀ w', r = some w' → w' + cnt ≤ size p u ∧ FreeRange u w' cnt x := by
  induction k generalizing w with
  | zero => exact pure stable_held fun x hx => ⟨hx, nofun⟩
  | succ k ih =>
    have hfree : Among p i E
        (fun x => Held p i u x ∧ FreeRange u w 0 x) (bitmapContains u w cnt true)
        fun other x => Held p i u x ∧ (other = false → FreeRange u w cnt x) := by
      refine bitmapContains_triple hl (P := fun m x => Held p i u x ∧ FreeRange u w m x)
        (fun m => stable_held_free) (fun b => stable_found) (fun m x hx => hx.1.1) (by omega)
        (fun m x hm hx hbit => ⟨hx.1, fun j h1 h2 => ?_⟩)
        (fun m x hm hx hbit => ⟨hx.1, nofun⟩) fun x hx => ⟨hx.1, fun _ => hx.2⟩
      -- a bit that is not set has no owner
      by_cases hj : j < w + m
      · exact hx.2 j h1 hj
      · obtain rfl : j = w + m := by omega
        by_contra hne
        exact hbit ((hx.1.1.bit u (w + m) (by omega)).mpr hne)
    refine bind Relies.refl (hfree.pre fun x hx => ⟨hx, fun j _ _ => by omega⟩) fun other => ?_
    cases other with
    | false =>
      refine pure stable_found fun x hx => ⟨hx.1, fun w' hw' => ?_⟩
      cases hw'
      exact ⟨by omega, hx.2 rfl⟩
    | true => exact (ih (w := w + 1) (by omega)).pre fun x hx => hx.1

lemma printFrom_triple (hl : Laid p) (hP : Stable (Relies p i) P) (hI : ∀ x, P x → Inv p x)
    (hw : w + k ≤ size p u) :
    Among p i E P (printFrom u k w) fun _ => P := by
  induction k generalizing w with
  | zero => exact pure hP fun _ hx => hx
  | succ k ih =>
    have hlook : Among p i E P (bitmapContains u w 1 true) fun _ => P :=
      bitmapContains_triple hl (P := fun _ => P) (fun _ => hP) (fun _ => hP) (fun _ => hI)
        (by omega) (fun _ _ _ hx _ => hx) (fun _ _ _ hx _ => hx) fun _ hx => hx
    exact bind Relies.refl hlook fun _ => ih (by omega)

lemma bitmapAll_triple (hl : Laid p) (hin : start + cnt ≤ size p u) (hP : Stable (Relies p i) P)
    (hI : ∀ x, P x → Inv p x ∧ OwnRange i u start cnt x) :
    Among p i E P (bitmapAll u start cnt) fun r x =>
      r = true ∧ P x := by
  have hlook : Among p i E P (bitmapContains u start cnt false) fun r x => r = false ∧ P x := by
    refine bitmapContains_triple hl (P := fun _ => P) (fun _ => hP) (fun b x y hx hR => ?_)
      (fun _ x hx => (hI x hx).1) hin (fun _ _ _ hx _ => hx) (fun m x hm hx hbit => ?_)
      fun _ hx => ⟨rfl, hx⟩
    · exact ⟨hx.1, hP x y hx.2 hR⟩
    · obtain ⟨hinv, hown⟩ := hI x hx
      have hset := (hinv.bit u (start + m) (by omega)).mpr
        (by rw [hown (start + m) (by omega) (by omega)]; exact some_ne_none _)
      rw [hset] at hbit
      cases hbit
  refine bind Relies.refl hlook fun r => ?_
  refine pure (fun x y hx hR => ⟨hx.1, hP x y hx.2 hR⟩) fun x hx => ⟨?_, hx.2⟩
  rw [hx.1]
  rfl

end Loops

/-! ### Writing -/

def fill (g : Owners ι) (u : Bool) (w n : ℕ) (o : Option (Owner ι)) : Owners ι :=
  fun v j => if v = u ∧ w ≤ j ∧ j < w + n then o else g v j

lemma fill_in (h1 : w ≤ j) (h2 : j < w + n) : fill g u w n o u j = o := if_pos ⟨rfl, h1, h2⟩

lemma fill_out {v : Bool} (h : ¬ (v = u ∧ w ≤ j ∧ j < w + n)) : fill g u w n o v j = g v j :=
  if_neg h

/-- Bit `j` of pool `u` was written, and nothing else but its count. -/
structure Wrote (s s' : Shared ι) (u : Bool) (j : ℕ) (value : Bool) : Prop where
  shape : ∀ q, SameShape q s.alloc → SameShape q s'.alloc
  bit : ∀ v k, (s'.map v).bit k = if v = u ∧ k = j then value else (s.map v).bit k
  lock : s'.lock = s.lock
  live : s'.live = s.live
  allocs : ∀ v k, s'.allocs v k =
    if v = u ∧ k = j ∧ value = true then s.allocs v k + 1 else s.allocs v k

lemma wrote_written {s : Shared ι} {map : Bitmap} (hcnt : map.bitCnt = (s.map u).bitCnt)
    (hbit : ∀ k, map.bit k = if k = j then value else (s.map u).bit k) :
    Wrote s (s.written u j value map) u j value := by
  have hpool : ∀ v, (s.written u j value map).alloc.pool v =
      if v = u then { s.alloc.pool u with usedMap := map } else s.alloc.pool v :=
    fun v => Palloc.pool_setMap s.alloc u v map
  refine ⟨fun q hq => ⟨fun v => ?_, fun v => ?_, fun v => ?_⟩, fun v k => ?_, rfl, rfl,
    fun v k => ?_⟩
  · rw [hpool v]
    split_ifs with hv
    · exact hv ▸ hq.base u
    · exact hq.base v
  · rw [hpool v]
    split_ifs with hv
    · exact hv ▸ hq.mapAddr u
    · exact hq.mapAddr v
  · rw [hpool v]
    split_ifs with hv
    · exact hcnt.trans (hv ▸ hq.size u)
    · exact hq.size v
  · rw [Shared.map, hpool v]
    by_cases hv : v = u
    · subst hv
      simpa using hbit k
    · simp [hv, Shared.map]
  · cases value with
    | false => simp [Shared.written]
    | true =>
      by_cases hv : v = u
      · subst hv
        by_cases hk : k = j <;> simp [Shared.written, hk]
      · simp [Shared.written, hv]

section Set

variable (hl : Laid p) {start cnt : ℕ} {value : Bool}
  {P : ℕ → Shared ι × Owners ι → Prop} (hP : ∀ m, Stable (Relies p i) (P m))
  (hI : ∀ m x, P m x → Inv p x) (hin : start + cnt ≤ size p u)
  (hwrite : ∀ m x s', m < cnt → P m x → Wrote x.1 s' u (start + m) value →
    ∃ g, Guarantees p i x (s', g) ∧ P (m + 1) (s', g))
include hl hP hI hin hwrite

/-- **The loop that writes bits.**  `P m`: `m` bits are written; a write may bring owners. -/
theorem setFrom_triple (hkm : m + k = cnt) :
    Among p i E (P m) (setFrom u start value k m) fun _ => P cnt := by
  have hlt := hl.size_lt u
  induction k generalizing m with
  | zero =>
    obtain rfl : m = cnt := by omega
    exact pure (hP m) fun _ hx => hx
  | succ k ih =>
    refine bind Relies.refl (atom (Q := fun _ => P (m + 1)) (hP m) (fun x hx => ?_)
      fun _ => hP (m + 1)) fun _ => ih (by omega)
    have hsize : (x.1.map u).bitCnt = size p u := (hI m x hx).shape.size u
    obtain ⟨_, hmap, hcnt, hbit⟩ :=
      bitmapSet_spec (b := x.1.map u) (i := start + m) value (by omega)
    obtain ⟨g, hG, hP'⟩ := hwrite m x _ (by omega) hx (wrote_written hcnt hbit)
    refine ⟨(), _, g, ?_, hG, hP'⟩
    rw [u32_of_lt (by omega), hmap]
    rfl

lemma bitmapSetMultiple_triple : Among p i E (P 0) (bitmapSetMultiple u start cnt value)
      fun _ => P cnt :=
  bind Relies.refl (assertRange_triple hl (hP 0) (hI 0) hin) fun _ =>
    setFrom_triple hl hP hI hin hwrite (by omega)

end Set

lemma Wrote.inv (hw : Wrote x.1 s' u j value) (hI : Inv p x) (ho : value = true ↔ o ≠ none)
    (hlive : ∀ a, x.2 u j ≠ some (.live a)) : Inv p (s', fill x.2 u j 1 o) := by
  refine ⟨hw.shape p hI.shape, fun v k hk => ?_, hw.live ▸ hI.nodup, fun a ha => ?_⟩
  · dsimp only
    rw [hw.bit v k]
    by_cases hvk : v = u ∧ k = j
    · obtain ⟨rfl, rfl⟩ := hvk
      rw [if_pos ⟨rfl, rfl⟩, fill_in le_rfl (Nat.lt_succ_self k)]
      exact ho
    · rw [if_neg hvk, fill_out (by rintro ⟨rfl, h1, h2⟩; exact hvk ⟨rfl, by omega⟩)]
      exact hI.bit v k hk
  · obtain ⟨k, hgroup, hown⟩ := hI.live a (hw.live ▸ ha)
    refine ⟨k, hgroup, fun l h1 h2 => ?_⟩
    have hl := hown l h1 h2
    refine (fill_out ?_).trans hl
    rintro ⟨hu, _, _⟩
    obtain rfl : l = j := by omega
    exact hlive a (hu ▸ hl)

lemma Wrote.take (hw : Wrote x.1 s' u j true) (hlock : x.1.lock u = some i)
    (hfree : x.2 u j = none) : Guarantees p i x (s', fill x.2 u j 1 (some (.call i))) := by
  have hother : ∀ v k, x.2 v k ≠ none → ¬ (v = u ∧ j ≤ k ∧ k < j + 1) := by
    rintro v k hne ⟨rfl, _, _⟩
    obtain rfl : k = j := by omega
    exact hne hfree
  refine ⟨⟨fun hI => ?_, fun v k => ?_, fun v k hne => ?_⟩, fun k _ v l hl => ?_, fun k _ v => ?_,
    fun v hv l hl => ?_⟩
  · exact hw.inv hI (by simp) fun a ha => by rw [hfree] at ha; cases ha
  · rw [hw.allocs v k]
    split_ifs <;> omega
  · by_cases hvk : v = u ∧ k = j
    · obtain ⟨rfl, rfl⟩ := hvk
      exact .inr (by rw [hw.allocs, if_pos ⟨rfl, rfl, rfl⟩]; omega)
    · dsimp only at hne
      rw [fill_out (by rintro ⟨rfl, h1, h2⟩; exact hvk ⟨rfl, by omega⟩)] at hne
      exact .inl hne
  · exact (fill_out (hother v l (by rw [hl]; exact some_ne_none _))).trans hl
  · rw [hw.lock]
    exact id
  · refine (fill_out ?_).trans hl
    rintro ⟨rfl, _⟩
    exact hv hlock

lemma Wrote.clear (hw : Wrote x.1 s' u j false) (hown : x.2 u j = some (.call i)) :
    Guarantees p i x (s', fill x.2 u j 1 none) := by
  have hout : ∀ v k, x.2 v k ≠ some (.call i) → fill x.2 u j 1 none v k = x.2 v k := by
    intro v k hne
    refine fill_out ?_
    rintro ⟨rfl, _, _⟩
    obtain rfl : k = j := by omega
    exact hne hown
  refine ⟨⟨fun hI => ?_, fun v k => ?_, fun v k hne => ?_⟩, fun k hk v l hl => ?_, fun k _ v => ?_,
    fun v _ l hl => ?_⟩
  · exact hw.inv hI (by simp) fun a ha => by rw [hown] at ha; cases ha
  · rw [hw.allocs v k, if_neg (by simp)]
  · refine .inl fun hx => hne ?_
    exact (hout v k (by rw [hx]; exact nofun)).trans hx
  · exact (hout v l (by rw [hl]; exact fun h => hk (Owner.call.inj (some.inj h)))).trans hl
  · rw [hw.lock]
    exact id
  · exact (hout v l (by rw [hl]; exact nofun)).trans hl

/-! ### The scan and its flip -/

lemma bitmapSize_triple {start : ℕ} (hP : Stable (Relies p i) P) (hI : ∀ x, P x → Inv p x)
    (hstart : start ≤ size p u) :
    Among p i E P (bitmapSize u start) fun n x =>
      n = size p u ∧ P x := by
  refine read_triple hP (fun x hx => ⟨(x.1.map u).bitCnt, ?_, (hI x hx).shape.size u, hx⟩)
    fun n x y hx hR => ⟨hx.1, hP x y hx.2 hR⟩
  have hsize : (x.1.map u).bitCnt = size p u := (hI x hx).shape.size u
  rw [ASSERT_of (by omega)]
  rfl

def Found (p : Palloc) (i : ι) (u : Bool) (cnt idx : ℕ) (x : Shared ι × Owners ι) : Prop :=
  Held p i u x ∧ (idx ≠ BITMAP_ERROR → idx + cnt ≤ size p u ∧ FreeRange u idx cnt x)

lemma stable_Found : Stable (Relies p i) (Found p i u cnt idx) :=
  fun x y hx hR => ⟨stable_held x y hx.1 hR, fun hne =>
    ⟨(hx.2 hne).1, (stable_held_free x y ⟨hx.1, (hx.2 hne).2⟩ hR).2⟩⟩

lemma bitmapScan_triple (hl : Laid p) (cnt : ℕ) :
    Among p i E (Held p i u) (bitmapScan u 0 cnt false) (Found p i u cnt) := by
  have hnone : ∀ x, Held p i u x → Found p i u cnt BITMAP_ERROR x :=
    fun x hx => ⟨hx, fun h => absurd rfl h⟩
  refine bind Relies.refl (bitmapSize_triple stable_held (fun x hx => hx.1) (Nat.zero_le _))
    fun n => ?_
  intro x ⟨hn, hx⟩
  subst hn
  by_cases hcnt : cnt ≤ size p u
  · rw [if_pos hcnt]
    refine bind Relies.refl (scanFrom_triple hl (by omega) hcnt) (fun r => ?_) x hx
    refine pure (fun x y hx hR => ⟨stable_held x y hx.1 hR, fun w hw => ?_⟩) fun x hx => ?_
    · exact ⟨(hx.2 w hw).1, (stable_held_free x y ⟨hx.1, (hx.2 w hw).2⟩ hR).2⟩
    · cases r with
      | none => exact hnone x hx.1
      | some w => exact ⟨hx.1, fun _ => hx.2 w rfl⟩
  · rw [if_neg hcnt]
    exact pure stable_held hnone x hx

/-- What the flip leaves: nothing, or a group of the call. -/
def Got (p : Palloc) (i : ι) (u : Bool) (cnt idx : ℕ) (x : Shared ι × Owners ι) : Prop :=
  idx ≠ BITMAP_ERROR → idx + cnt ≤ size p u ∧ OwnRange i u idx cnt x

lemma stable_Got : Stable (Relies p i) (Got p i u cnt idx) :=
  fun x y hx hR hne => ⟨(hx hne).1, stable_ownRange x y (hx hne).2 hR⟩

lemma flip_triple (hl : Laid p) (hin : idx + cnt ≤ size p u) :
    Among p i E (fun x => Held p i u x ∧ FreeRange u idx cnt x)
      (bitmapSetMultiple u idx cnt true) fun _ x => Held p i u x ∧ OwnRange i u idx cnt x := by
  -- after `m` writes the first `m` pages belong to the call and the others are free
  let P : ℕ → Shared ι × Owners ι → Prop := fun m x =>
    Held p i u x ∧ OwnRange i u idx m x ∧ FreeRange u (idx + m) (cnt - m) x
  have hP : ∀ m, Stable (Relies p i) (P m) := fun m x y hx hR =>
    ⟨stable_held x y hx.1 hR, stable_ownRange x y hx.2.1 hR,
      (stable_held_free x y ⟨hx.1, hx.2.2⟩ hR).2⟩
  have hset : Among p i E (P 0) (bitmapSetMultiple u idx cnt true) fun _ => P cnt := by
    refine bitmapSetMultiple_triple hl hP (fun m x hx => hx.1.1) hin
      fun m x s' hm ⟨hheld, hown, hfree⟩ hw => ⟨fill x.2 u (idx + m) 1 (some (.call i)), ?_⟩
    have hG : Guarantees p i x _ := hw.take hheld.2 (hfree (idx + m) (by omega) (by omega))
    refine ⟨hG, ⟨hG.inv hheld.1, by rw [hw.lock]; exact hheld.2⟩, fun j h1 h2 => ?_,
      fun j h1 h2 => ?_⟩
    · by_cases hj : j < idx + m
      · exact (fill_out (by omega)).trans (hown j h1 hj)
      · exact fill_in (by omega) (by omega)
    · exact (fill_out (by omega)).trans (hfree j (by omega) (by omega))
  refine (hset.pre fun x hx => ⟨hx.1, fun j h1 h2 => by omega, hx.2⟩).post fun _ x hx => ?_
  exact ⟨hx.1, hx.2.1⟩

lemma bitmapScanAndFlip_triple (hl : Laid p) (cnt : ℕ) :
    Among p i E (Held p i u) (bitmapScanAndFlip u 0 cnt false)
      fun idx x => Held p i u x ∧ Got p i u cnt idx x := by
  have hstable : ∀ idx, Stable (Relies p i) fun x => Held p i u x ∧ Got p i u cnt idx x :=
    fun idx => Stable.and stable_held stable_Got
  refine bind Relies.refl (bitmapScan_triple hl cnt) fun idx => ?_
  refine bind Relies.refl (Q := fun _ x => Held p i u x ∧ Got p i u cnt idx x) ?_ fun _ => ?_
  · by_cases hne : idx ≠ BITMAP_ERROR
    · rw [flipFound, if_pos hne]
      intro x hx
      obtain ⟨hin, hfree⟩ := hx.2 hne
      refine (flip_triple hl hin).post (fun _ y hy => ?_) x ⟨hx.1, hfree⟩
      exact ⟨hy.1, fun _ => ⟨hin, hy.2⟩⟩
    · rw [flipFound, if_neg hne]
      exact pure stable_Found fun x hx => ⟨hx.1, fun h => absurd h hne⟩
  · refine bind Relies.refl
      (bitmapSize_triple (hstable idx) (fun x hx => hx.1.1) (Nat.zero_le _)) fun n => ?_
    intro x ⟨hn, hx⟩
    subst hn
    refine bind Relies.refl
      (printFrom_triple hl (hstable idx) (fun x hx => hx.1.1) (by omega)) (fun _ => ?_) x hx
    exact pure (hstable idx) fun _ hy => hy

/-! ### The calls -/

lemma Inv.congr (hI : Inv p x) (hpool : ∀ u, s'.alloc.pool u = x.1.alloc.pool u)
    (hlive : s'.live = x.1.live) : Inv p (s', x.2) := by
  refine ⟨⟨fun u => ?_, fun u => ?_, fun u => ?_⟩, fun u j hj => ?_, ?_, ?_⟩
  · rw [hpool u]
    exact hI.shape.base u
  · rw [hpool u]
    exact hI.shape.mapAddr u
  · rw [hpool u]
    exact hI.shape.size u
  · have hbit := hI.bit u j hj
    rwa [Shared.map, ← hpool u] at hbit
  · rw [hlive]
    exact hI.nodup
  · rw [hlive]
    exact hI.live

lemma Guarantees.quiet (hpool : ∀ u, s'.alloc.pool u = x.1.alloc.pool u)
    (hlive : s'.live = x.1.live) (hallocs : s'.allocs = x.1.allocs)
    (hlock : ∀ k ≠ i, ∀ u, x.1.lock u = some k → s'.lock u = some k) : Guarantees p i x (s', x.2) :=
  ⟨⟨fun hI => hI.congr hpool hlive, fun u j => by rw [hallocs], fun _ _ h => .inl h⟩,
    fun _ _ _ _ => id, hlock, fun _ _ _ => id⟩

lemma memset_triple {value : BitVec 8} (hP : Stable (Relies p i) P)
    (hmem : ∀ x mem, P x → P ({ x.1 with alloc := { x.1.alloc with mem := mem } }, x.2)) :
    Among p i E P (memset pages value n) fun _ => P :=
  atom hP (fun x hx => ⟨(), _, x.2, rfl, .quiet (fun u => Palloc.pool_mem _ u _) rfl rfl
    fun _ _ _ => id, hmem x _ hx⟩) fun _ => hP

lemma lockAcquire_triple : Among p i E (Inv p) (lockAcquire i u) fun _ => Held p i u := by
  refine atomWhen stable_inv (fun x hx hguard => .inl ⟨(), _, x.2, rfl, ?_⟩) fun _ => stable_held
  have hfree : x.1.lock u = none := of_decide_eq_true hguard
  have hG : Guarantees p i x ({ x.1 with lock := update x.1.lock u (some i) }, x.2) := by
    refine .quiet (fun _ => rfl) rfl rfl fun k _ v hv => ?_
    have hne : v ≠ u := by
      rintro rfl
      rw [hfree] at hv
      cases hv
    exact (update_of_ne hne _ _).trans hv
  exact ⟨hG, hG.inv hx, update_self ..⟩

lemma lockRelease_triple [DecidableEq ι] (hP : Stable (Relies p i) P)
    (hrel : ∀ x lock, P x → P ({ x.1 with lock := lock }, x.2)) :
    Among p i E (fun x => Held p i u x ∧ P x) (lockRelease i u) fun _ x => Inv p x ∧ P x := by
  refine atom (Stable.and stable_held hP) (fun x hx => ?_) fun _ => Stable.and stable_inv hP
  obtain ⟨⟨hI, hlock⟩, hPx⟩ := hx
  have hG : Guarantees p i x ({ x.1 with lock := update x.1.lock u none }, x.2) := by
    refine .quiet (fun _ => rfl) rfl rfl fun k hk v hv => ?_
    have hne : v ≠ u := by
      rintro rfl
      exact hk (mem_unique hv hlock)
    exact (update_of_ne hne _ _).trans hv
  refine ⟨(), _, x.2, ?_, hG, hG.inv hI, hrel x _ hPx⟩
  rw [ASSERT_of hlock]
  rfl

lemma Laid.page (hl : Laid p) (hw : w < size p u) :
    u32 ((p.pool u).base + u32 (PGSIZE * w)) = (p.pool u).base + PGSIZE * w ∧
      (p.pool u).base + PGSIZE * w ≠ 0 := by
  obtain ⟨_, _, _, _, hk, hu, _⟩ := hl.pools
  obtain ⟨start, pages, hlay⟩ : ∃ start pages, (p.pool u).Layout start pages := by
    cases u
    · exact ⟨_, _, hk⟩
    · exact ⟨_, _, hu⟩
  obtain ⟨_, _, -⟩ := hlay.page hw
  have hpos := hlay.pos
  have hmapped := hlay.mapped
  have hcnt : w < (p.pool u).usedMap.bitCnt := hw
  simp only [u32, PGSIZE] at *
  omega

def Gave (p : Palloc) (i : ι) (u : Bool) (n : ℕ) (pages : ℕ) (x : Shared ι × Owners ι) : Prop :=
  ∃ k, IsGroup p ⟨pages, n, u⟩ k ∧ OwnRange i u k n x

lemma stable_Gave : Stable (Relies p i) (Gave p i u n pages) :=
  fun x y ⟨k, hgroup, hown⟩ hR => ⟨k, hgroup, stable_ownRange x y hown hR⟩

lemma pallocGetMultiple_triple [DecidableEq ι] (hl : Laid p) (flags : PallocFlags) (n : ℕ) :
    Among p i (fun _ => flags.PAL_ASSERT = true) (Inv p) (pallocGetMultiple i flags n) fun r x =>
        Inv p x ∧ ∀ pages, r = some pages → Gave p i flags.PAL_USER n pages x := by
  by_cases hn : n = 0
  · rw [pallocGetMultiple, if_pos hn]
    exact pure stable_inv fun x hx => ⟨hx, nofun⟩
  rw [pallocGetMultiple, if_neg hn]
  refine bind Relies.refl lockAcquire_triple fun _ => ?_
  refine bind Relies.refl (bitmapScanAndFlip_triple hl n) fun idx => ?_
  refine bind Relies.refl (lockRelease_triple stable_Got fun x lock hx => hx) fun _ => ?_
  refine bind Relies.refl (Q := fun pages x =>
    Inv p x ∧ (pages ≠ 0 → Gave p i flags.PAL_USER n pages x)) ?_ fun pages => ?_
  · refine read_triple (Stable.and stable_inv stable_Got) (fun x ⟨hI, hgot⟩ => ⟨_, rfl, hI, ?_⟩)
      fun pages x y hx hR => ⟨hR.inv hx.1, fun hne => stable_Gave x y (hx.2 hne) hR⟩
    by_cases hne : idx ≠ BITMAP_ERROR
    · obtain ⟨hin, hown⟩ := hgot hne
      rw [if_pos hne, hI.shape.base]
      intro _
      refine ⟨idx, ⟨Nat.pos_of_ne_zero hn, ?_, hin⟩, hown⟩
      exact (hl.page (show idx < size p flags.PAL_USER by omega)).1
    · rw [if_neg hne]
      exact fun h => absurd rfl h
  · have hstable : Stable (Relies p i) fun x =>
        Inv p x ∧ (pages ≠ 0 → Gave p i flags.PAL_USER n pages x) :=
      fun x y hx hR => ⟨hR.inv hx.1, fun hne => stable_Gave x y (hx.2 hne) hR⟩
    have hgive : ∀ x, pages ≠ 0 → (Inv p x ∧ (pages ≠ 0 → Gave p i flags.PAL_USER n pages x)) →
        Inv p x ∧ ∀ q, some pages = some q → Gave p i flags.PAL_USER n q x :=
      fun x hne hx => ⟨hx.1, fun q hq => some.inj hq ▸ hx.2 hne⟩
    rw [givePages]
    by_cases hne : pages ≠ 0
    · rw [if_pos hne]
      by_cases hzero : flags.PAL_ZERO = true
      · rw [if_pos hzero]
        refine bind Relies.refl (memset_triple hstable fun x mem hx => ?_) fun _ => ?_
        · exact ⟨hx.1.congr (fun u => Palloc.pool_mem _ u _) rfl, hx.2⟩
        · exact pure hstable fun x hx => hgive x hne hx
      · rw [if_neg hzero]
        exact pure hstable fun x hx => hgive x hne hx
    · rw [if_neg hne]
      by_cases hassert : flags.PAL_ASSERT = true
      · rw [if_pos hassert]
        exact atomWhen hstable (fun x _ _ => .inr ⟨_, rfl, hassert⟩) fun r x y hx hR =>
          ⟨hR.inv hx.1, fun q hq => stable_Gave x y (hx.2 q hq) hR⟩
      · rw [if_neg hassert]
        exact pure hstable fun x hx => ⟨hx.1, nofun⟩

/-- The `n` pages from `w` were cleared since the counts were `allocs`, and perhaps set again. -/
def Cleared (allocs : Bool → ℕ → ℕ) (u : Bool) (w n : ℕ) (x : Shared ι × Owners ι) : Prop :=
  (∀ v j, allocs v j ≤ x.1.allocs v j) ∧
    ∀ j, w ≤ j → j < w + n → x.2 u j ≠ none → allocs u j < x.1.allocs u j

lemma Cleared.recorded (h : Cleared allocs u w n x) (hR : Recorded p x y) :
    Cleared allocs u w n y := by
  refine ⟨fun v j => (h.1 v j).trans (hR.allocs v j), fun j h1 h2 hne => ?_⟩
  have hle := h.1 u j
  have hmono := hR.allocs u j
  rcases hR.again u j hne with hx | _
  · have := h.2 j h1 h2 hx
    omega
  · omega

lemma clear_triple (hl : Laid p) (hin : w + n ≤ size p u) : Among p i E
      (fun x => Inv p x ∧ OwnRange i u w n x ∧ Cleared allocs u w 0 x)
      (bitmapSetMultiple u w n false) fun _ x => Inv p x ∧ Cleared allocs u w n x := by
  -- after `m` writes the first `m` pages are cleared and the call owns the others
  let P : ℕ → Shared ι × Owners ι → Prop := fun m x =>
    Inv p x ∧ OwnRange i u (w + m) (n - m) x ∧ Cleared allocs u w m x
  have hP : ∀ m, Stable (Relies p i) (P m) := fun m x y hx hR =>
    ⟨hR.inv hx.1, stable_ownRange x y hx.2.1 hR, hx.2.2.recorded hR.toRecorded⟩
  have hclear : Among p i E (P 0) (bitmapSetMultiple u w n false) fun _ => P n := by
    refine bitmapSetMultiple_triple hl hP (fun m x hx => hx.1) hin
      fun m x s' hm ⟨hI, hown, hcl⟩ hw => ⟨fill x.2 u (w + m) 1 none, ?_⟩
    have hG : Guarantees p i x _ := hw.clear (hown (w + m) (by omega) (by omega))
    have hcl' := hcl.recorded hG.toRecorded
    refine ⟨hG, hG.inv hI, fun j h1 h2 => ?_, hcl'.1, fun j h1 h2 hne => ?_⟩
    · exact (fill_out (by omega)).trans (hown j (by omega) (by omega))
    · by_cases hj : j < w + m
      · exact hcl'.2 j h1 hj hne
      · exact absurd (fill_in (by omega) (by omega)) hne
  refine (hclear.pre fun x hx => ⟨hx.1, hx.2.1, hx.2.2⟩).post fun _ x hx => ?_
  exact ⟨hx.1, hx.2.2⟩

lemma assert_triple {c : Prop} [Decidable c] (hP : Stable (Relies p i) P) (hc : ∀ x, P x → c) :
    Among p i E P (assert c) fun _ => P :=
  read_triple hP (fun x hx => ⟨(), by rw [ASSERT_of (hc x hx)]; rfl, hx⟩) fun _ => hP

/-- **A free** of a group of the call: no assertion fails. -/
theorem pallocFreeMultiple_triple (hl : Laid p) (hg : IsGroup p a k) : Among p i E
      (fun x => Inv p x ∧ OwnRange i a.user k a.pageCnt x ∧ Cleared allocs a.user k 0 x)
      (pallocFreeMultiple a.pages a.pageCnt) fun _ x =>
        Inv p x ∧ Cleared allocs a.user k a.pageCnt x := by
  have hpos := hg.pos
  have hin := hg.inside
  have hk : k < size p a.user := by omega
  have hP : Stable (Relies p i) fun x =>
      Inv p x ∧ OwnRange i a.user k a.pageCnt x ∧ Cleared allocs a.user k 0 x :=
    fun x y hx hR =>
      ⟨hR.inv hx.1, stable_ownRange x y hx.2.1 hR, hx.2.2.recorded hR.toRecorded⟩
  have hpage : ∀ q, Laid q → SameShape p q → poolOfPage q a.pages = .ok a.user ∧
      u32 (pgNo a.pages + 2 ^ 32 - pgNo (p.pool a.user).base) = k ∧ pgOfs a.pages = 0 ∧
      a.pages ≠ 0 := by
    intro q hq hs
    obtain ⟨_, _, _, _, hkl, hul, hku⟩ := hq.pools
    have heq := poolOfPage_eq hkl hul hku
      (show k < (q.pool a.user).usedMap.bitCnt by rw [hs.size]; exact hk)
    rwa [hs.base, ← hg.pages] at heq
  obtain ⟨-, -, hofs, _⟩ := hpage p hl ⟨fun _ => rfl, fun _ => rfl, fun _ => rfl⟩
  rw [pallocFreeMultiple]
  refine bind Relies.refl (assert_triple hP fun _ _ => hofs) fun _ => ?_
  rw [if_neg (by omega)]
  refine bind Relies.refl (Q := fun r x => r = (a.user, k) ∧
    Inv p x ∧ OwnRange i a.user k a.pageCnt x ∧ Cleared allocs a.user k 0 x) ?_ fun r => ?_
  · refine read_triple hP (fun x hx => ⟨(a.user, k), ?_, rfl, hx⟩)
      fun r x y hx hR => ⟨hx.1, hP x y hx.2 hR⟩
    obtain ⟨hpool, hidx, -, -⟩ := hpage x.1.alloc (hl.of_sameShape hx.1.shape) hx.1.shape
    rw [hpool, ok_bind, hx.1.shape.base, hidx]
    rfl
  intro x ⟨hr, hx⟩
  subst hr
  refine bind Relies.refl (memset_triple hP fun x mem hx => ?_) (fun _ => ?_) x hx
  · exact ⟨hx.1.congr (fun u => Palloc.pool_mem _ u _) rfl, hx.2⟩
  refine bind Relies.refl (bitmapAll_triple hl hin hP fun x hx => ⟨hx.1, hx.2.1⟩) fun all => ?_
  have hP' : Stable (Relies p i) fun x => all = true ∧
      Inv p x ∧ OwnRange i a.user k a.pageCnt x ∧ Cleared allocs a.user k 0 x :=
    fun x y hx hR => ⟨hx.1, hP x y hx.2 hR⟩
  refine bind Relies.refl (assert_triple hP' fun x hx => hx.1) fun _ => ?_
  exact (clear_triple hl hin).pre fun x hx => hx.2

/-! ### The ledger -/

lemma Inv.reown {o o' : Owner ι} (hI : Inv p x)
    (hrange : ∀ j, w ≤ j → j < w + n → x.2 u j = some o) (hnodup : live.Nodup)
    (hlive : ∀ a ∈ live, ∃ k, IsGroup p a k ∧
      ∀ j, k ≤ j → j < k + a.pageCnt → fill x.2 u w n (some o') a.user j = some (.live a)) :
    Inv p ({ x.1 with live := live }, fill x.2 u w n (some o')) := by
  refine ⟨hI.shape, fun v j hj => ?_, hnodup, hlive⟩
  have hbit := hI.bit v j hj
  by_cases hvj : v = u ∧ w ≤ j ∧ j < w + n
  · obtain ⟨rfl, h1, h2⟩ := hvj
    rw [hrange j h1 h2] at hbit
    exact hbit.trans (by simp [fill_in h1 h2])
  · exact hbit.trans (by simp [fill_out hvj])

lemma Guarantees.reown {o o' : Owner ι} (hrange : ∀ j, w ≤ j → j < w + n → x.2 u j = some o)
    (ho : ∀ k ≠ i, o ≠ .call k) (hI : Inv p ({ x.1 with live := live }, fill x.2 u w n (some o'))) :
    Guarantees p i x ({ x.1 with live := live }, fill x.2 u w n (some o')) := by
  refine ⟨⟨fun _ => hI, fun _ _ => le_rfl, fun v j hne => .inl fun hx => hne ?_⟩,
    fun k hk v j hj => ?_, fun _ _ _ => id, fun v _ j hj => ?_⟩
  · refine (fill_out ?_).trans hx
    rintro ⟨rfl, h1, h2⟩
    rw [hrange j h1 h2] at hx
    cases hx
  · refine (fill_out ?_).trans hj
    rintro ⟨rfl, h1, h2⟩
    rw [hrange j h1 h2] at hj
    exact ho k hk (some.inj hj)
  · refine (fill_out ?_).trans hj
    rintro ⟨rfl, h1, h2⟩
    rw [hrange j h1 h2] at hj
    cases hj

lemma enter_triple : Among p i E (fun x => Inv p x ∧ Gave p i a.user a.pageCnt a.pages x)
      (.atom fun s => .ok ((), { s with live := a :: s.live })) fun _ => Inv p := by
  refine atom (Stable.and stable_inv stable_Gave) (fun x ⟨hI, k, hg, hown⟩ => ?_)
    fun _ => stable_inv
  have hpos : 0 < a.pageCnt := hg.pos
  -- the call owned the pages, so no live allocation did
  have hnew : a ∉ x.1.live := by
    intro ha
    obtain ⟨k', hg', hown'⟩ := hI.live a ha
    have hpages : a.pages = (p.pool a.user).base + PGSIZE * k := hg.pages
    have hkk : k' = k := by
      have := hg'.pages
      simp only [PGSIZE] at *
      omega
    subst hkk
    have heq := (hown k' le_rfl (by omega)).symm.trans (hown' k' le_rfl (by omega))
    cases heq
  have hI' : Inv p ({ x.1 with live := a :: x.1.live },
      fill x.2 a.user k a.pageCnt (some (.live a))) := by
    refine hI.reown hown (List.nodup_cons.mpr ⟨hnew, hI.nodup⟩) fun b hb => ?_
    rcases List.mem_cons.mp hb with rfl | hb
    · exact ⟨k, { hg with }, fun j h1 h2 => fill_in h1 h2⟩
    · obtain ⟨k', hg', hown'⟩ := hI.live b hb
      refine ⟨k', hg', fun j h1 h2 => (fill_out ?_).trans (hown' j h1 h2)⟩
      rintro ⟨hu, h3, h4⟩
      have heq := (hown' j h1 h2).symm.trans (hu ▸ hown j h3 h4)
      cases heq
  refine ⟨(), _, _, rfl, Guarantees.reown hown (fun k' hk' h => ?_) hI', hI'⟩
  exact hk' (Owner.call.inj h).symm

lemma takeOut_triple : Among p i E (Inv p) (.atomWhen (fun s => decide (a ∈ s.live)) fun s =>
        .ok (s.allocs, { s with live := s.live.erase a }))
      fun allocs x => ∃ k, IsGroup p a k ∧
        Inv p x ∧ OwnRange i a.user k a.pageCnt x ∧ Cleared allocs a.user k 0 x := by
  refine atomWhen stable_inv (fun x hI hguard => .inl ?_) fun allocs x y hx hR => ?_
  · have ha : a ∈ x.1.live := of_decide_eq_true hguard
    obtain ⟨k, hg, hown⟩ := hI.live a ha
    have hI' : Inv p ({ x.1 with live := x.1.live.erase a },
        fill x.2 a.user k a.pageCnt (some (.call i))) := by
      refine hI.reown hown (hI.nodup.erase a) fun b hb => ?_
      have hba : b ≠ a := fun h => (hI.nodup.not_mem_erase) (h ▸ hb)
      obtain ⟨k', hg', hown'⟩ := hI.live b (List.mem_of_mem_erase hb)
      refine ⟨k', hg', fun j h1 h2 => (fill_out ?_).trans (hown' j h1 h2)⟩
      rintro ⟨hu, h3, h4⟩
      have heq := (hown' j h1 h2).symm.trans (hu ▸ hown j h3 h4)
      exact hba (Owner.live.inj (some.inj heq))
    refine ⟨x.1.allocs, _, _, rfl, Guarantees.reown hown nofun hI', k, hg,
      hI', fun j h1 h2 => fill_in h1 h2, fun _ _ => le_rfl, fun j h1 h2 => by omega⟩
  · obtain ⟨k, hg, hI, hown, hcl⟩ := hx
    exact ⟨k, hg, hR.inv hI, stable_ownRange x y hown hR, hcl.recorded hR.toRecorded⟩

/-! ### Every interleaving -/

/-- What a returned call established: the pages of a free are clear or were set again. -/
def Returned (p : Palloc) : ι × Call × Result → Shared ι × Owners ι → Prop
  | (_, .free a, .freed allocs), x =>
    ∃ k, IsGroup p a k ∧ Cleared allocs a.user k a.pageCnt x
  | _, _ => True

def MayHalt : Call → Panic → Prop
  | .get flags _, _ => flags.PAL_ASSERT = true
  | .free _, _ => False

lemma MayHalt.eq_get {c : Call} {e : Panic} (h : MayHalt c e) :
    ∃ flags n, c = .get flags n ∧ flags.PAL_ASSERT = true := by
  cases c with
  | get flags n => exact ⟨flags, n, rfl, h⟩
  | free => exact h.elim

lemma respect : Base.Pool.Respect (Relies p) (Guarantees p) (Inv p)
    (Returned p : ι × Call × Result → Shared ι × Owners ι → Prop) where
  refl := fun _ => Relies.refl
  trans := Relies.trans
  others := Guarantees.relies
  inv := fun hI hG => hG.inv hI
  returned := by
    rintro i ⟨j, c, r⟩ x y hx hG
    cases c with
    | get => trivial
    | free =>
      cases r with
      | pages => trivial
      | freed =>
        obtain ⟨k, hg, hcl⟩ := hx
        exact ⟨k, hg, hcl.recorded hG.toRecorded⟩

theorem code_triple [DecidableEq ι] (hl : Laid p) (i : ι) (c : Call) :
    Among p i (MayHalt c) (Inv p) (c.code i) fun r x => Returned p (i, c, r) x := by
  cases c with
  | get flags n =>
    refine bind Relies.refl (pallocGetMultiple_triple hl flags n) fun r => ?_
    cases r with
    | none =>
      refine pure (fun x y hx hR => ⟨hR.inv hx.1, nofun⟩) fun _ _ => ?_
      trivial
    | some pages =>
      refine bind Relies.refl ((enter_triple (a := ⟨pages, n, flags.PAL_USER⟩)).pre
        fun x hx => ⟨hx.1, hx.2 pages rfl⟩) fun _ => ?_
      exact pure stable_inv fun _ _ => trivial
  | free =>
    refine bind Relies.refl takeOut_triple fun allocs => ?_
    rintro x ⟨k, hg, hx⟩
    refine bind Relies.refl (pallocFreeMultiple_triple hl hg) (fun _ => ?_) x hx
    exact pure (fun x y hx hR => ⟨hR.inv hx.1, hx.2.recorded hR.toRecorded⟩)
      fun x hx => ⟨k, hg, hx.2⟩

/-- **Safety of an interleaving.** -/
structure Clients.Safe (P : Clients ι) : Prop where
  /-- No page is in two live allocations. -/
  disjoint : P.state.live.Pairwise fun a b => Disjoint a.area b.area
  /-- The pages of live allocations are marked as used. -/
  used : ∀ a ∈ P.state.live, ∀ j < (P.state.map a.user).bitCnt,
    (P.state.alloc.pool a.user).base + PGSIZE * j ∈ a.area → (P.state.map a.user).bit j = true
  /-- The pages of a free that has returned are clear, unless set again since it began. -/
  freed : ∀ i a allocs, (i, .free a, .freed allocs) ∈ P.log →
    ∀ j < (P.state.map a.user).bitCnt,
      (P.state.alloc.pool a.user).base + PGSIZE * j ∈ a.area → (P.state.map a.user).bit j = true →
        allocs a.user j < P.state.allocs a.user j
  /-- No call halts the machine but a request with `PAL_ASSERT`. -/
  halts : ∀ {i : ι} {c : Call} {β : Type} {guard : Shared ι → Bool}
    {f : Shared ι → Kernel (β × Shared ι)} {k : β → Prog (Shared ι) Result} {e : Panic},
    P.running i = some (c, .act guard f k) → guard P.state = true → f P.state = .error e →
      ∃ flags n, c = .get flags n ∧ flags.PAL_ASSERT = true

lemma Laid.below (hl : Laid p) {l : ℕ} (hga : IsGroup p a k) (hgb : IsGroup p b l)
    (ha : a.user = false) (hb : b.user = true) : Disjoint a.area b.area := by
  obtain ⟨_, _, _, _, hk, hu, _⟩ := hl.pools
  have hposa := hga.pos
  have hposb := hgb.pos
  have hina := hga.inside
  have hinb := hgb.inside
  have hpa := hga.pages
  have hpb := hgb.pages
  rw [size, ha] at hina
  rw [size, hb] at hinb
  rw [ha] at hpa
  rw [hb] at hpb
  obtain ⟨-, _, -⟩ := hk.page (show k < _ by omega)
  obtain ⟨_, -, -⟩ := hu.page (show l < _ by omega)
  rw [Set.disjoint_left]
  rintro x ⟨-, _⟩ ⟨_, -⟩
  simp only [PGSIZE] at *
  omega

lemma Inv.disjoint (hl : Laid p) (hI : Inv p x) (ha : a ∈ x.1.live) (hb : b ∈ x.1.live)
    (hne : a ≠ b) : Disjoint a.area b.area := by
  obtain ⟨k, hga, howna⟩ := hI.live a ha
  obtain ⟨l, hgb, hownb⟩ := hI.live b hb
  by_contra hover
  by_cases hu : a.user = b.user
  · -- in one pool they share a page, which has one owner
    have hb' : b.pages = (p.pool a.user).base + PGSIZE * l := hu ▸ hgb.pages
    obtain ⟨j, hja, hjb⟩ := exists_page hga.pages hb' hover
    rw [page_mem_area hga.pages] at hja
    rw [page_mem_area hb'] at hjb
    have heq := (howna j hja.1 hja.2).symm.trans (hu ▸ hownb j hjb.1 hjb.2)
    exact hne (Owner.live.inj (some.inj heq))
  · cases hua : a.user with
    | false =>
      have hub : b.user = true := by
        rw [hua] at hu
        exact (Bool.eq_false_or_eq_true b.user).resolve_right fun h => hu h.symm
      exact hover (hl.below hga hgb hua hub)
    | true =>
      have hub : b.user = false := by
        rw [hua] at hu
        exact (Bool.eq_false_or_eq_true b.user).resolve_left fun h => hu h.symm
      exact hover (hl.below hgb hga hub hua).symm

lemma Clients.Safe.of_inv (hl : Laid p) {P : Clients ι}
    (h : Base.Pool.Safe (Relies p) (Guarantees p) (fun _ => MayHalt) (Inv p) (Returned p) P g) :
    P.Safe := by
  have hbase := h.inv.shape.base
  have hsize : ∀ u, (P.state.map u).bitCnt = size p u := h.inv.shape.size
  refine ⟨?_, fun a ha j hj hmem => ?_, fun i a allocs hlog j hj hmem hbit => ?_,
    fun hi hguard hf => ?_⟩
  · exact h.inv.nodup.imp_of_mem fun ha hb hne => h.inv.disjoint hl ha hb hne
  · obtain ⟨k, hg, hown⟩ := h.inv.live a ha
    rw [hbase, page_mem_area hg.pages] at hmem
    refine (h.inv.bit a.user j (hsize a.user ▸ hj)).mpr ?_
    rw [hown j hmem.1 hmem.2]
    exact some_ne_none _
  · obtain ⟨k, hg, hcl⟩ := h.returned _ hlog
    rw [hbase, page_mem_area hg.pages] at hmem
    exact hcl.2 j hmem.1 hmem.2 ((h.inv.bit a.user j (hsize a.user ▸ hj)).mp hbit)
  · exact (h.error respect hi hguard hf).eq_get

variable [DecidableEq ι]

/-- **Unlocked frees cannot cause double allocation**, for any threads that make requests and free
live allocations, interleaved at single tests and writes of a bit. -/
theorem interleaved_safe {ram limit : ℕ} {mem : Memory} {kbuf ubuf : ℕ → BitVec 32} {p : Palloc}
    {P : Clients ι} (h₁ : 256 ≤ ram) (h₂ : ram ≤ 2 ^ 18)
    (h : pallocInit ram limit mem kbuf ubuf = .ok p) (hr : (Clients.init ι p).Reaches P) :
    P.Safe := by
  have hinv := pallocInit_inv h₁ h₂ h
  obtain ⟨_, _, -, hk, hu⟩ := hinv.layout
  have hl : Laid p := ⟨_, _, _, _, hk, hu, le_rfl⟩
  have hinit : Base.Pool.Safe (Relies p) (Guarantees p) (fun _ => MayHalt) (Inv p) (Returned p)
      (Clients.init ι p) fun _ _ => none := by
    refine ⟨⟨⟨fun _ => rfl, fun _ => rfl, fun _ => rfl⟩, fun u j hj => ?_, List.nodup_nil,
      nofun⟩, nofun, nofun⟩
    have hbit := hinv.bit u j hj
    simpa [Clients.init, Shared.map] using hbit
  obtain ⟨g, hsafe⟩ := Base.Pool.rely_run respect (fun i c => code_triple hl i c) hinit hr
  exact .of_inv hl hsafe

theorem interleaved_safe_264 : ∃ p, ∃ P : Clients Bool,
    pallocInit 264 4 (fun _ => 0) (fun _ => 0) (fun _ => 0) = .ok p ∧
      (Clients.init Bool p).Reaches P ∧ P.state.live = [⟨0xc0105000, 1, true⟩] ∧
      (∃ q, P.running true = some (.free ⟨0xc0105000, 1, true⟩, q)) ∧ P.Safe := by
  -- the request alone on the machine, as a computation
  have htest : (do
      let p ← pallocInit 264 4 (fun _ => 0) (fun _ => 0) (fun _ => 0)
      let (_, s) ← (Call.code false (.get ⟨false, false, true⟩ 1)).run (Clients.init Bool p).state
      return decide (s.live = [⟨0xc0105000, 1, true⟩])) = Except.ok true := by
    decide +kernel
  obtain ⟨p, hp, htest⟩ := Kernel.bind_eq_ok.mp htest
  obtain ⟨⟨r, s⟩, hrun, hlive⟩ := Kernel.bind_eq_ok.mp htest
  have hlive : s.live = [⟨0xc0105000, 1, true⟩] := of_decide_eq_true (Except.ok.inj hlive)
  have hstart : (Clients.init Bool p).Reaches _ :=
    Base.Reaches.refl.step (.start (i := false) (c := .get ⟨false, false, true⟩ 1) rfl) trivial
  have hget := hstart.trans (Base.Pool.reaches_of_run (fun _ => trivial) (update_self ..) hrun)
  have hfree := hget.tail ⟨_, .start (i := true) (c := .free ⟨0xc0105000, 1, true⟩) rfl, trivial⟩
  exact ⟨p, _, hp, hfree, hlive, ⟨_, rfl⟩, interleaved_safe (by decide) (by decide) hp hfree⟩

end Pintos.PallocBits
