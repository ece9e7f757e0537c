/-
# What a process leaves behind

Every used page of the kernel pool is held for somebody: by kernel code that will give it back
(`System.own`), as the page of a thread, as the parameters of a process being started, or as the
file descriptors of a thread.  `thread_schedule_tail` gives back the page of a thread that has
ended, and `start_process` its parameters; nothing gives back the two pages of descriptors.
-/

import Pintos.Userprog.Protocol

namespace Pintos

open Base Kernel List Option Prod

/-! ### What is held -/

def Palloc.usedPages (p : Palloc) (user : Bool) : Set ℕ :=
  {x | ∃ i < (p.pool user).usedMap.bitCnt, (p.pool user).usedMap.bit i = true ∧
    x = (p.pool user).base + PGSIZE * i}

inductive Holding
  | page (t : ℕ)
  | params (t : ℕ)
  | fds (t : ℕ)
deriving DecidableEq, Repr

def Holding.tid : Holding → ℕ
  | .page t => t
  | .params t => t
  | .fds t => t

/-- The pages in use are those of `own` and of `held`, each once. -/
structure Held (ram : ℕ) (palloc : Palloc) (own : List Allocation)
    (held : List (Holding × Allocation)) : Prop where
  inv : PallocClient.Inv ram ⟨palloc, own ++ held.map snd⟩
  keys : (held.map fst).Nodup

variable {ram : ℕ}

lemma PallocClient.Inv.perm {palloc : Palloc} {l l' : List Allocation}
    (h : PallocClient.Inv ram ⟨palloc, l⟩) (hp : l.Perm l') :
    PallocClient.Inv ram ⟨palloc, l'⟩ where
  layout := h.layout
  placed := fun a ha => h.placed a (hp.mem_iff.2 ha)
  disjoint := (hp.pairwise_iff fun hd => hd.symm).1 h.disjoint
  bit := fun u i hi => by
    rw [h.bit u i hi]
    simp only [hp.mem_iff]

namespace Held

variable {ram n : ℕ} {palloc palloc' : Palloc} {own : List Allocation}
  {held : List (Holding × Allocation)} {flags : PallocFlags} {k : Holding} {a : Allocation}

section

variable (h : Held ram palloc own held)
include h

lemma get (hk : k ∉ held.map fst) {pages : ℕ}
    (hget : pallocGetMultiple palloc flags n = .ok (some pages, palloc')) :
    Held ram palloc' own ((k, ⟨pages, n, flags.PAL_USER⟩) :: held) := by
  have hstep : PallocClient.Step ⟨palloc, own ++ held.map snd⟩ _ := .get hget
  have hperm : (⟨pages, n, flags.PAL_USER⟩ :: (own ++ held.map snd)).Perm
      (own ++ ((k, ⟨pages, n, flags.PAL_USER⟩) :: held).map snd) := perm_middle.symm
  exact ⟨(h.inv.step hstep).perm hperm, nodup_cons.2 ⟨hk, h.keys⟩⟩

lemma free (hmem : (k, a) ∈ held)
    (hfree : pallocFreeMultiple palloc a.pages a.pageCnt = .ok palloc') :
    Held ram palloc' own (held.erase (k, a)) := by
  have hperm := perm_cons_erase hmem
  have hlive : (own ++ held.map snd).Perm (a :: (own ++ (held.erase (k, a)).map snd)) :=
    ((hperm.map snd).append_left own).trans perm_middle
  have hstep : PallocClient.Step ⟨palloc, a :: (own ++ (held.erase (k, a)).map snd)⟩ _ :=
    .free mem_cons_self hfree
  have hinv := (h.inv.perm hlive).step hstep
  rw [erase_cons_head] at hinv
  exact ⟨hinv, h.keys.sublist (erase_sublist.map _)⟩

lemma ownGet {r : Option ℕ} (hget : pallocGetMultiple palloc flags n = .ok (r, palloc')) :
    Held ram palloc' ((r.map fun pages => ⟨pages, n, flags.PAL_USER⟩).toList ++ own) held := by
  have hstep : PallocClient.Step ⟨palloc, own ++ held.map snd⟩ _ := .get hget
  have hinv := h.inv.step hstep
  rw [← append_assoc] at hinv
  exact ⟨hinv, h.keys⟩

lemma get_none (hget : pallocGetMultiple palloc flags n = .ok (none, palloc')) :
    Held ram palloc' own held :=
  h.ownGet hget

lemma ownFree (ha : a ∈ own) (hfree : pallocFreeMultiple palloc a.pages a.pageCnt = .ok palloc') :
    Held ram palloc' (own.erase a) held := by
  have hstep : PallocClient.Step ⟨palloc, own ++ held.map snd⟩ _ :=
    .free (mem_append_left _ ha) hfree
  have hinv := h.inv.step hstep
  rw [erase_append_left _ ha] at hinv
  exact ⟨hinv, h.keys⟩

end

lemma apart (h : Held ram palloc own ((k, a) :: held)) :
    ∀ b ∈ own ++ held.map snd, Disjoint a.area b.area := by
  have hperm : (own ++ ((k, a) :: held).map snd).Perm (a :: (own ++ held.map snd)) := perm_middle
  exact (pairwise_cons.1 ((h.inv.perm hperm).disjoint)).1

end Held

/-! ### The pages of threads -/

def Where.params : Where → Option ℕ
  | .load params => some params
  | .loadUp params _ => some params
  | .startRest params _ => some params
  | _ => none

namespace Threads

variable {s s' s'' : Threads} {t : ℕ} {w w₀ : Where} {f : ThreadSema}

/-- No page changes hands, except perhaps the parameters of a thread. -/
structure Keeps (s s' : Threads) : Prop where
  palloc : s'.palloc = s.palloc
  initialThread : s'.initialThread = s.initialThread
  nextTid : s.nextTid ≤ s'.nextTid
  threads : ∀ t th', s'.threads t = some th' → ∃ th, s.threads t = some th ∧ th'.page = th.page ∧
    ∀ params, th'.stack.params = some params → th.stack.params = some params

namespace Keeps

lemma refl (s : Threads) : s.Keeps s := ⟨rfl, rfl, le_rfl, fun _ th h => ⟨th, h, rfl, fun _ => id⟩⟩

lemma trans (h : s.Keeps s') (h' : s'.Keeps s'') : s.Keeps s'' := by
  refine ⟨h'.palloc.trans h.palloc, h'.initialThread.trans h.initialThread,
    h.nextTid.trans h'.nextTid, fun t th'' ht => ?_⟩
  obtain ⟨th', ht', hpage', hparams'⟩ := h'.threads t th'' ht
  obtain ⟨th, ht, hpage, hparams⟩ := h.threads t th' ht'
  exact ⟨th, ht, hpage'.trans hpage, fun p hp => hparams p (hparams' p hp)⟩

lemma of_switches (h : s.Switches s') : s.Keeps s' := by
  refine ⟨h.palloc, h.initialThread, h.nextTid.ge, fun t th ht => ?_⟩
  rw [h.threads] at ht
  exact ⟨th, ht, rfl, fun _ => id⟩

lemma of_modify {g : Thread → Thread} (hg : ∀ th, s.threads t = some th → (g th).page = th.page ∧
    ∀ params, (g th).stack.params = some params → th.stack.params = some params) :
    s.Keeps (s.modify t g) := by
  refine ⟨rfl, rfl, le_rfl, fun u th' hu => ?_⟩
  rw [threads_modify] at hu
  split_ifs at hu with hut
  · obtain ⟨th, hth, rfl⟩ := map_eq_some_iff.1 hu
    exact ⟨th, hut ▸ hth, hg th hth⟩
  · exact ⟨th', hu, rfl, fun _ => id⟩

lemma of_setSema {sema : Semaphore} : s.Keeps (s.modify t fun th => th.setSema sema f) :=
  of_modify fun th _ => by cases f <;> exact ⟨rfl, fun _ => id⟩

lemma of_goTo (hat : s.At w₀) (hw : ∀ params, w.params = some params → w₀.params = some params) :
    s.Keeps (s.goTo w) := by
  obtain ⟨_, hcur, rfl⟩ := hat
  refine of_modify fun th hth => ?_
  obtain rfl := mem_unique hcur hth
  exact ⟨rfl, hw⟩

lemma of_goTo_none (hw : w.params = none) : s.Keeps (s.goTo w) := by
  refine of_modify fun th _ => ⟨rfl, fun p hp => ?_⟩
  have hnone : some p = none := hp.symm.trans hw
  cases hnone

end Keeps

lemma semaDown_keeps {down : Bool} (h : semaDown s t f = .ok (down, s')) : s.Keeps s' := by
  obtain ⟨_, _, _, hres⟩ := semaDown_eq_ok h
  cases down with
  | false => exact Keeps.of_setSema.trans (.of_switches hres.2)
  | true =>
    obtain ⟨_, rfl⟩ := hres
    exact .of_setSema

lemma semaUp_keeps (h : semaUp s t f = .ok s') : s.Keeps s' := by
  obtain ⟨_, _, _, _, hsw⟩ := semaUp_eq_ok h
  exact Keeps.of_setSema.trans (.of_switches hsw)

end Threads

namespace Userprog

open Threads

variable {s s' : Threads} {child params page fdTable : ℕ} {success : Bool}
  {priority : ℤ} {p₁ : Palloc} {function : Where} {c : PallocClient}

lemma down_keeps {f : ThreadSema} {w : Where} (hw : w.params = none) (h : (do
    let (down, s) ← semaDown s child f
    return if down then s.goTo w else s) = .ok s') : s.Keeps s' := by
  obtain ⟨⟨down, _⟩, hdown, h⟩ := bind_eq_ok.1 h
  cases h
  cases down with
  | false => exact semaDown_keeps hdown
  | true => exact (semaDown_keeps hdown).trans (.of_goTo_none hw)

lemma waitRest_keeps {r : ℤ} (h : waitRest s child = .ok (r, s')) : s.Keeps s' := by
  simp only [waitRest, bind_eq_ok] at h
  obtain ⟨th, _, _, hup, h⟩ := h
  cases h
  have hmod : s.Keeps (s.modify s.current fun th =>
    { th with childList := th.childList.erase child }) :=
    .of_modify fun _ _ => ⟨rfl, fun _ => id⟩
  exact (hmod.trans (semaUp_keeps hup)).trans (.of_goTo_none rfl)

lemma startUp_keeps (hat : s.At (.loadUp params success))
    (h : startUp s params success = .ok s') : s.Keeps s' := by
  simp only [startUp, bind_eq_ok] at h
  obtain ⟨s1, hup, h⟩ := h
  cases h
  obtain ⟨cur, hcur, hstack⟩ := hat
  obtain ⟨hcurrent, th, _, waiters, hsw⟩ := semaUp_eq_ok hup
  have hat1 : s1.At (.loadUp params success) := by
    refine ⟨cur.setSema ⟨(th.sema .load).value + 1, waiters⟩ .load, ?_, hstack⟩
    rw [hsw.threads, threads_modify, hcurrent, if_pos rfl, hcur, map_some]
  exact (semaUp_keeps hup).trans (.of_goTo hat1 fun _ => id)

lemma Describes.keeps (h : Describes s s') : s.Keeps s' := by
  obtain rfl | ⟨n, g, rfl⟩ := h
  · exact .refl _
  · exact .of_modify fun _ _ => ⟨rfl, fun _ => id⟩

/-! ### Every page is accounted for -/

structure Holds (ram : ℕ) (k : Threads) (own : List Allocation)
    (held : List (Holding × Allocation)) : Prop where
  pages : Held ram k.palloc own held
  /-- Nothing is held for a thread that does not exist yet. -/
  born : ∀ x ∈ held, x.1.tid < k.nextTid
  /-- The initial thread's page is not from the allocator. -/
  thread : ∀ t th, k.threads t = some th → t ≠ k.initialThread →
    (Holding.page t, ⟨th.page, 1, false⟩) ∈ held
  params : ∀ t th p, k.threads t = some th → th.stack.params = some p →
    (Holding.params t, ⟨p, 1, false⟩) ∈ held

namespace Holds

variable {ram : ℕ} {k k' : Threads} {own : List Allocation} {held : List (Holding × Allocation)}

lemma keeps (h : Holds ram k own held) (hk : k.Keeps k') : Holds ram k' own held := by
  refine ⟨hk.palloc ▸ h.pages, fun x hx => (h.born x hx).trans_le hk.nextTid,
    fun t th' ht hne => ?_,
    fun t th' p ht hp => ?_⟩
  · obtain ⟨th, hth, hpage, _⟩ := hk.threads t th' ht
    rw [hpage]
    exact h.thread t th hth (hk.initialThread ▸ hne)
  · obtain ⟨th, hth, _, hparams⟩ := hk.threads t th' ht
    exact h.params t th p hth (hparams p hp)

lemma fresh (h : Holds ram k own held) (key : Holding) (hkey : key.tid = k.nextTid) :
    key ∉ held.map fst := by
  intro hmem
  obtain ⟨x, hx, rfl⟩ := mem_map.1 hmem
  exact absurd (h.born x hx) (hkey ▸ lt_irrefl _)

lemma mem_erase {x y : Holding × Allocation} (hx : x ∈ held) (hne : x.1 ≠ y.1) :
    x ∈ held.erase y :=
  (mem_erase_of_ne fun heq => hne (congrArg fst heq)).2 hx

section

variable (h : Holds ram k own held)
include h

/-- **A thread is created**: it holds a page and two for its descriptors. -/
theorem create {extra : List (Holding × Allocation)} (hpages : Held ram p₁ own (extra ++ held))
    (hextra : ∀ x ∈ extra, x.1 = .params k.nextTid)
    (hparams : ∀ p, function.params = some p → (Holding.params k.nextTid, ⟨p, 1, false⟩) ∈ extra)
    (hc : Creates { k with palloc := p₁ } k' priority function page fdTable) :
    Holds ram k' own ((.fds k.nextTid, ⟨fdTable, 2, false⟩) ::
      (.page k.nextTid, ⟨page, 1, false⟩) :: (extra ++ held)) := by
  obtain ⟨p2, hpage, hfd⟩ := hc.palloc
  obtain ⟨cur, hcur, hthreads⟩ := hc.threads
  have hnotin : ∀ key : Holding, key.tid = k.nextTid → key ≠ .params k.nextTid →
      key ∉ (extra ++ held).map fst := by
    intro key hkey hne hmem
    rw [map_append, mem_append] at hmem
    rcases hmem with hmem | hmem
    · obtain ⟨x, hx, rfl⟩ := mem_map.1 hmem
      exact hne (hextra x hx)
    · exact h.fresh key hkey hmem
  have hheld1 : Held ram p2 own ((.page k.nextTid, ⟨page, 1, false⟩) :: (extra ++ held)) :=
    hpages.get (hnotin _ rfl (by simp)) hpage
  have hheld2 : Held ram k'.palloc own ((.fds k.nextTid, ⟨fdTable, 2, false⟩) ::
      (.page k.nextTid, ⟨page, 1, false⟩) :: (extra ++ held)) := by
    refine hheld1.get ?_ hfd
    rw [map_cons, mem_cons]
    rintro (heq | hmem)
    · cases heq
    · exact hnotin _ rfl (by simp) hmem
  have hnext : k'.nextTid = k.nextTid + 1 := hc.nextTid
  refine ⟨hheld2, fun x hx => ?_, fun t th ht hne => ?_, fun t th p ht hp => ?_⟩
  · rw [hnext]
    simp only [mem_cons, mem_append] at hx
    rcases hx with rfl | rfl | hx | hx
    · exact Nat.lt_succ_self _
    · exact Nat.lt_succ_self _
    · rw [hextra x hx]
      exact Nat.lt_succ_self _
    · exact (h.born x hx).trans (Nat.lt_succ_self _)
  · rw [hthreads] at ht
    simp only [mem_cons, mem_append]
    split_ifs at ht with htc htn
    · cases ht
      exact .inr (.inr (.inr (h.thread t cur (htc ▸ hcur) (hc.initialThread ▸ hne))))
    · cases ht
      exact .inr (.inl (by rw [htn]; rfl))
    · exact .inr (.inr (.inr (h.thread t th ht (hc.initialThread ▸ hne))))
  · rw [hthreads] at ht
    simp only [mem_cons, mem_append]
    split_ifs at ht with htc htn
    · cases ht
      exact .inr (.inr (.inr (h.params t cur p (htc ▸ hcur) hp)))
    · cases ht
      refine .inr (.inr (.inl ?_))
      rw [htn]
      exact hparams p hp
    · exact .inr (.inr (.inr (h.params t th p ht hp)))

lemma createFails (extra : List (Holding × Allocation)) (hpages : Held ram p₁ own (extra ++ held))
    (hextra : ∀ x ∈ extra, x.1 = .params k.nextTid) (hf : CreateFails { k with palloc := p₁ } k') :
    Held ram k'.palloc own (extra ++ held) := by
  rcases hf.palloc with hnone | ⟨_, _, _, hpage, hfd, hfree⟩
  · exact hpages.get_none hnone
  · have hkey : Holding.page k.nextTid ∉ (extra ++ held).map fst := by
      intro hmem
      rw [map_append, mem_append] at hmem
      rcases hmem with hmem | hmem
      · obtain ⟨x, hx, hkey⟩ := mem_map.1 hmem
        rw [hextra x hx] at hkey
        cases hkey
      · exact h.fresh _ rfl hmem
    have hheld := ((hpages.get hkey hpage).get_none hfd).free mem_cons_self hfree
    rwa [erase_cons_head] at hheld

lemma same_threads (hpages : Held ram k'.palloc own held) (hthreads : k'.threads = k.threads)
    (hinit : k'.initialThread = k.initialThread) (hnext : k.nextTid ≤ k'.nextTid) :
    Holds ram k' own held := by
  refine ⟨hpages, fun x hx => (h.born x hx).trans_le hnext, fun t th ht hne => ?_,
    fun t th p ht hp => ?_⟩
  · exact h.thread t th (hthreads ▸ ht) (hinit ▸ hne)
  · exact h.params t th p (hthreads ▸ ht) hp

lemma startRest {params : ℕ} {success : Bool} (hat : k.At (.startRest params success))
    (hr : Userprog.startRest k params success = .ok k') :
    Holds ram k' own (held.erase (.params k.current, ⟨params, 1, false⟩)) := by
  obtain ⟨_, hfree, rfl⟩ := startRest_eq_ok hr
  obtain ⟨cur, hcur, hstack⟩ := hat
  have hmem := h.params k.current cur params hcur (by rw [hstack]; rfl)
  have hnone : Where.params (if success then .run else .exit) = none := by cases success <;> rfl
  generalize (if success then Where.run else Where.exit) = w at hnone
  refine ⟨h.pages.free hmem hfree, fun x hx => h.born x (mem_of_mem_erase hx),
    fun t th ht hne => ?_, fun t th p ht hp => ?_⟩
  · obtain ⟨th0, hth0, hpage, _⟩ := (Keeps.of_goTo_none hnone).threads t th ht
    rw [hpage]
    exact mem_erase (h.thread t th0 hth0 hne) (by simp)
  · have htc : t ≠ k.current := by
      rintro rfl
      rw [threads_goTo, if_pos rfl] at ht
      obtain ⟨_, _, rfl⟩ := map_eq_some_iff.1 ht
      cases hp.symm.trans hnone
    rw [threads_goTo, if_neg htc] at ht
    exact mem_erase (h.params t th p ht hp) fun heq => htc (Holding.params.inj heq)

/-- **The end of a thread** gives back its page, unless it is the initial thread. -/
theorem exited (hx : threadExit k = .ok k') :
    ∃ held', Holds ram k' own held' ∧ ∀ x ∈ held, (∀ t, x.1 ≠ .page t) → x ∈ held' := by
  obtain ⟨th, hth, hnext, hinit, _, ⟨hpalloc, hthreads⟩ | ⟨hne, hfree, hthreads⟩⟩ :=
    threadExit_eq_ok hx
  · refine ⟨held, h.keeps ⟨hpalloc, hinit, hnext.ge, fun t th' ht => ?_⟩, fun x hx _ => hx⟩
    rw [hthreads] at ht
    split_ifs at ht with htc
    · cases ht
      exact ⟨th, htc ▸ hth, rfl, fun p hp => by cases hp⟩
    · exact ⟨th', ht, rfl, fun _ => id⟩
  · refine ⟨held.erase (.page k.current, ⟨th.page, 1, false⟩), ?_,
      fun x hx hpage => mem_erase hx (hpage _)⟩
    refine ⟨h.pages.free (h.thread _ th hth hne) hfree,
      fun x hx => hnext ▸ h.born x (mem_of_mem_erase hx), fun t th' ht hne' => ?_,
      fun t th' p ht hp => ?_⟩
    · rw [hthreads] at ht
      split_ifs at ht with htc
      exact mem_erase (h.thread t th' ht (hinit ▸ hne')) fun heq => htc (Holding.page.inj heq)
    · rw [hthreads] at ht
      split_ifs at ht
      exact mem_erase (h.params t th' p ht hp) (by simp)

end

end Holds

/-- Descriptors stay held; those of a new thread are apart. -/
structure HoldsOn (ram : ℕ) (s s' : System) (held held' : List (Holding × Allocation)) : Prop where
  holds : Holds ram s'.kernel s'.own held'
  kept : ∀ x ∈ held, (∃ t, x.1 = .fds t) → x ∈ held'
  born : s'.kernel.threads s.kernel.nextTid ≠ none →
    ∃ fdTable, (Holding.fds s.kernel.nextTid, ⟨fdTable, 2, false⟩) ∈ held' ∧
      ∀ b ∈ s.own ++ held.map snd, Disjoint (Allocation.area ⟨fdTable, 2, false⟩) b.area

namespace HoldsOn

variable {ram : ℕ} {s s' : System} {held held' : List (Holding × Allocation)} {k : Threads}

lemma of_old (h : Holds ram s'.kernel s'.own held')
    (hkept : ∀ x ∈ held, (∃ t, x.1 = .fds t) → x ∈ held')
    (hold : s'.kernel.threads s.kernel.nextTid = none) : HoldsOn ram s s' held held' :=
  ⟨h, hkept, fun hne => absurd hold hne⟩

lemma of_keeps (h : Holds ram s.kernel s.own held) (hk : s.kernel.Keeps s'.kernel)
    (hown : s'.own = s.own) : HoldsOn ram s s' held held := by
  refine of_old (hown ▸ h.keeps hk) (fun x hx _ => hx) ?_
  by_contra hne
  obtain ⟨th', hth'⟩ := ne_none_iff_exists'.1 hne
  obtain ⟨_, hth, _⟩ := hk.threads _ th' hth'
  rw [s.kernel.fresh _ le_rfl] at hth
  cases hth

lemma of_fails (h : Holds ram s.kernel s.own held) (hpages : Held ram s'.kernel.palloc s.own held)
    (hthreads : s'.kernel.threads = s.kernel.threads)
    (hinit : s'.kernel.initialThread = s.kernel.initialThread)
    (hnext : s.kernel.nextTid ≤ s'.kernel.nextTid) (hown : s'.own = s.own) :
    HoldsOn ram s s' held held := by
  refine of_old (hown ▸ h.same_threads hpages hthreads hinit hnext) (fun x hx _ => hx) ?_
  rw [hthreads]
  exact s.kernel.fresh _ le_rfl

lemma of_creates (h : Holds ram s.kernel s.own held) (extra : List (Holding × Allocation))
    (hpages : Held ram p₁ s.own (extra ++ held))
    (hextra : ∀ x ∈ extra, x.1 = .params s.kernel.nextTid)
    (hparams : ∀ p, function.params = some p →
      (Holding.params s.kernel.nextTid, ⟨p, 1, false⟩) ∈ extra)
    (hc : Creates { s.kernel with palloc := p₁ } k priority function page fdTable)
    (hk : k.Keeps s'.kernel) (hown : s'.own = s.own) : ∃ held', HoldsOn ram s s' held held' := by
  have hall := h.create hpages hextra hparams hc
  refine ⟨_, hown ▸ hall.keeps hk, fun x hx _ => by simp [hx], fun _ => ⟨fdTable, by simp, ?_⟩⟩
  intro b hb
  refine hall.pages.apart b ?_
  simp only [mem_append, map_cons, map_append, mem_cons] at hb ⊢
  rcases hb with hb | hb
  · exact .inl hb
  · exact .inr (.inr (.inr hb))

end HoldsOn

lemma ExecuteFails.held {k k' : Threads} {own : List Allocation}
    {held : List (Holding × Allocation)} (h : Holds ram k own held) (hf : ExecuteFails k k') :
    Held ram k'.palloc own held := by
  rcases hf.palloc with hnone | ⟨params, _, _, hget, hfails, hfree⟩
  · exact h.pages.get_none hnone
  · have hpages := h.pages.get (h.fresh (.params k.nextTid) rfl) hget
    have hheld := h.createFails [(.params k.nextTid, ⟨params, 1, false⟩)] hpages (by simp) hfails
    have hheld' := hheld.free mem_cons_self hfree
    rwa [singleton_append, erase_cons_head] at hheld'

lemma Holds.step {s s' : System} {a : Action} {held : List (Holding × Allocation)}
    (h : Holds ram s.kernel s.own held) (hs : System.Step s a s') :
    ∃ held', HoldsOn ram s s' held held' := by
  have hexecute : ∀ {t : ℕ} {k : Threads}, processExecute s.kernel = .ok (some t, k) →
      k.Keeps s'.kernel → s'.own = s.own → ∃ held', HoldsOn ram s s' held held' := by
    intro t k hx hk hown
    rcases processExecute_eq_ok hx with ⟨hr, _⟩ | ⟨_, params, _, _, _, hget, hc⟩
    · cases hr
    · have hpages := h.pages.get (h.fresh (.params s.kernel.nextTid) rfl) hget
      refine HoldsOn.of_creates h [(.params s.kernel.nextTid, ⟨params, 1, false⟩)] hpages
        (by simp) (fun p hp => ?_) hc hk hown
      cases hp
      simp
  cases hs with
  | yield _ hy => exact ⟨held, .of_keeps h (.of_switches (threadYield_switches hy)) rfl⟩
  | idle _ hb => exact ⟨held, .of_keeps h (.of_switches (threadBlock_switches hb)) rfl⟩
  | create _ hc =>
    rcases threadCreate_eq_ok hc with ⟨rfl, hf⟩ | ⟨rfl, _, _, hc⟩
    · have hpages := h.createFails [] h.pages (by simp) hf
      exact ⟨held, .of_fails h hpages hf.threads hf.initialThread hf.nextTid rfl⟩
    · exact HoldsOn.of_creates h [] h.pages (by simp) (fun p hp => by cases hp) hc (.refl _) rfl
  | @execute r k _ hx =>
    cases r with
    | none =>
      rcases processExecute_eq_ok hx with ⟨_, hf⟩ | ⟨hr, _⟩
      · exact ⟨held, .of_fails h (hf.held h) hf.threads hf.initialThread hf.nextTid rfl⟩
      · cases hr
    | some => exact hexecute hx (.refl _) rfl
  | execError _ hx =>
    rcases processExecute_eq_ok hx with ⟨_, hf⟩ | ⟨hr, _⟩
    · exact ⟨held, .of_fails h (hf.held h) hf.threads hf.initialThread hf.nextTid rfl⟩
    · cases hr
  | exec _ hx => exact hexecute hx (.of_goTo_none rfl) rfl
  | execGetChild | wait | kill | leave => exact ⟨held, .of_keeps h (.of_goTo_none rfl) rfl⟩
  | execDown _ hd => exact ⟨held, .of_keeps h (down_keeps rfl hd) rfl⟩
  | execRead _ hx =>
    obtain ⟨rfl, _⟩ := execRead_eq_ok hx
    exact ⟨held, .of_keeps h (.of_goTo_none rfl) rfl⟩
  | waitNone => exact ⟨held, .of_keeps h (.refl _) rfl⟩
  | waitDown _ hd => exact ⟨held, .of_keeps h (down_keeps rfl hd) rfl⟩
  | waitRest _ hx => exact ⟨held, .of_keeps h (waitRest_keeps hx) rfl⟩
  | loaded hat => exact ⟨held, .of_keeps h (.of_goTo hat fun _ => id) rfl⟩
  | startUp hat hu => exact ⟨held, .of_keeps h (startUp_keeps hat hu) rfl⟩
  | startRest hat hr =>
    refine ⟨_, .of_old (h.startRest hat hr) (fun x hx ⟨t, hfd⟩ => mem_erase hx (by simp [hfd])) ?_⟩
    obtain ⟨_, _, rfl⟩ := startRest_eq_ok hr
    have hlt := System.current_lt hat
    rw [threads_goTo, if_neg hlt.ne']
    exact s.kernel.fresh _ le_rfl
  | @exit status =>
    have hmod : s.kernel.Keeps (s.kernel.modify s.kernel.current fun th =>
        { th with exitStatus := status }) := .of_modify fun _ _ => ⟨rfl, fun _ => id⟩
    exact ⟨held, .of_keeps h (hmod.trans (.of_goTo_none rfl)) rfl⟩
  | exited _ hx =>
    obtain ⟨held', hholds, hkept⟩ := h.exited hx
    refine ⟨held', .of_old hholds (fun x hx ⟨t, hfd⟩ => hkept x hx (by simp [hfd])) ?_⟩
    obtain ⟨_, _, hnext, _⟩ := threadExit_eq_ok hx
    exact Threads.fresh _ _ hnext.le
  | get _ hget =>
    exact ⟨held, .of_old (h.pages.ownGet hget |> fun hp => ⟨hp, h.born, h.thread, h.params⟩)
      (fun x hx _ => hx) (s.kernel.fresh _ le_rfl)⟩
  | free _ ha hfree =>
    exact ⟨held, .of_old (h.pages.ownFree ha hfree |> fun hp => ⟨hp, h.born, h.thread, h.params⟩)
      (fun x hx _ => hx) (s.kernel.fresh _ le_rfl)⟩
  | opens _ ho => exact ⟨held, .of_keeps h (processAddFile_describes ho).keeps rfl⟩
  | close _ hc => exact ⟨held, .of_keeps h (processCloseFile_describes hc).keeps rfl⟩

/-! ### What is left -/

lemma exists_live_of_used (h : c.Inv ram) {user : Bool} {x : ℕ}
    (hx : x ∈ c.alloc.usedPages user) : ∃ a ∈ c.live, x ∈ a.area := by
  obtain ⟨i, hi, hbit, rfl⟩ := hx
  obtain ⟨a, ha, _, harea⟩ := (h.bit user i hi).1 hbit
  exact ⟨a, ha, harea⟩

lemma used_of_live (h : c.Inv ram) {a : Allocation} (ha : a ∈ c.live) :
    a.pages ∈ c.alloc.usedPages a.user := by
  obtain ⟨_, i, hpages, hi⟩ := h.placed a ha
  refine ⟨i, by omega, ?_, hpages⟩
  exact h.allBits ha hpages hi i le_rfl (by omega)

/-- **Conservation**: the used pages of the kernel pool and the openers are what they were. -/
def System.Conserved (s s' : System) : Prop :=
  s'.kernel.palloc.usedPages false = s.kernel.palloc.usedPages false ∧ s'.openCnt = s.openCnt

/-- A state that `main` leaves after `thread_start` on a machine with `ram` pages. -/
inductive System.Boots (ram : ℕ) : System → Prop
  | boot {limit : ℕ} {mem : Memory} {kbuf ubuf : ℕ → BitVec 32} {p palloc : Palloc}
      {own : List Allocation} {page idlePage idleFd : ℕ} {openCnt : ℕ → ℕ} :
      pallocInit ram limit mem kbuf ubuf = .ok p →
      PallocClient.Reaches ⟨p, []⟩
        ⟨palloc, ⟨idleFd, 2, false⟩ :: ⟨idlePage, 1, false⟩ :: own⟩ →
      System.Boots ram (System.boot palloc own page idlePage idleFd openCnt)

lemma System.Boots.holds {s : System} (h1 : 256 ≤ ram) (h2 : ram ≤ 2 ^ 18)
    (h : System.Boots ram s) : ∃ held, Holds ram s.kernel s.own held := by
  cases h with
  | @boot _ _ _ _ p palloc own page idlePage idleFd openCnt hinit hreach =>
    have hinv := (pallocInit_inv h1 h2 hinit).reaches hreach
    have hperm : (([⟨idleFd, 2, false⟩, ⟨idlePage, 1, false⟩] : List Allocation) ++ own).Perm
        (own ++ [⟨idleFd, 2, false⟩, ⟨idlePage, 1, false⟩]) := perm_append_comm
    refine ⟨[(.fds 2, ⟨idleFd, 2, false⟩), (.page 2, ⟨idlePage, 1, false⟩)],
      ⟨hinv.perm hperm, by simp⟩, ?_, fun t th ht hne => ?_, fun t th q ht hq => ?_⟩
    · simp [Holding.tid, System.boot, Threads.boot]
    · rcases System.threads_boot ht with ⟨rfl, _⟩ | ⟨rfl, rfl⟩
      · exact absurd rfl hne
      · simp [Threads.newThread]
    · rcases System.threads_boot ht with ⟨_, rfl⟩ | ⟨_, rfl⟩
      · cases hq
      · cases hq

/-- **A process is never free**: from the creation of a thread on, and also after its page has been
freed, pages are in use that were free before. -/
theorem resources_not_conserved {ram : ℕ} {s₀ s s₁ s₂ : System} {a : Action} (h₁ : 256 ≤ ram)
    (h₂ : ram ≤ 2 ^ 18) (hboot : System.Boots ram s₀) (hrun : Reaches System.Step Always s₀ s)
    (hcreate : System.Step s a s₁) (hborn : s₁.kernel.threads s.kernel.nextTid ≠ none)
    (hrun' : Reaches System.Step Always s₁ s₂) : ¬ s.Conserved s₂ := by
  have hholds : ∃ held, Holds ram s.kernel s.own held := by
    refine hrun.invariant (fun s => ∃ held, Holds ram s.kernel s.own held) ?_ (hboot.holds h₁ h₂)
    rintro s a s' ⟨_, h⟩ hs -
    obtain ⟨held', h'⟩ := h.step hs
    exact ⟨held', h'.holds⟩
  obtain ⟨_, hheld⟩ := hholds
  obtain ⟨held1, hon⟩ := hheld.step hcreate
  obtain ⟨fdTable, hmem, hdisj⟩ := hon.born hborn
  -- the descriptors stay held
  have hstay : ∃ held2, Holds ram s₂.kernel s₂.own held2 ∧
      (Holding.fds s.kernel.nextTid, ⟨fdTable, 2, false⟩) ∈ held2 := by
    refine hrun'.invariant (fun s' => ∃ held2, Holds ram s'.kernel s'.own held2 ∧
      (Holding.fds s.kernel.nextTid, ⟨fdTable, 2, false⟩) ∈ held2) ?_ ⟨held1, hon.holds, hmem⟩
    rintro s' a s'' ⟨_, h', hmem'⟩ hs -
    obtain ⟨held'', h''⟩ := h'.step hs
    exact ⟨held'', h''.holds, h''.kept _ hmem' ⟨_, rfl⟩⟩
  obtain ⟨held2, hheld2, hmem2⟩ := hstay
  rintro ⟨hused, _⟩
  have hlive : (⟨fdTable, 2, false⟩ : Allocation) ∈ s₂.own ++ held2.map snd :=
    mem_append_right _ (mem_map.2 ⟨_, hmem2, rfl⟩)
  have hused2 := used_of_live hheld2.pages.inv hlive
  have hused0 : fdTable ∈ s.kernel.palloc.usedPages false := hused ▸ hused2
  obtain ⟨b, hb, harea⟩ := exists_live_of_used hheld.pages.inv hused0
  have hself : fdTable ∈ Allocation.area ⟨fdTable, 2, false⟩ := ⟨le_rfl, by simp [PGSIZE]⟩
  exact Set.disjoint_left.1 (hdisj b hb) hself harea

lemma start_boots {limit n : ℕ} {s : System} (h : System.start ram limit n = .ok s) :
    System.Boots ram s := by
  have htake : ∀ {p : Palloc} {n : ℕ} {own : List Allocation} {palloc : Palloc},
      takePages p n = .ok (own, palloc) → PallocClient.Reaches ⟨p, []⟩ ⟨palloc, own⟩ := by
    intro p n
    induction n with
    | zero =>
      intro _ _ h
      cases h
      exact .refl
    | succ n ih =>
      intro _ _ h
      simp only [takePages, bind_eq_ok] at h
      obtain ⟨⟨own1, palloc1⟩, htake, ⟨r, palloc2⟩, hget, h⟩ := h
      cases r with
      | none => cases h
      | some pages =>
        obtain ⟨rfl, rfl⟩ := ok_mk_inj h
        have hstep : PallocClient.Step ⟨palloc1, own1⟩ ⟨palloc2, ⟨pages, 1, false⟩ :: own1⟩ :=
          PallocClient.Step.get (s := ⟨palloc1, own1⟩) (n := 1)
            (show pallocGetMultiple palloc1 _ 1 = _ from hget)
        exact (ih htake).tail hstep
  simp only [System.start, bind_eq_ok] at h
  obtain ⟨p, hinit, ⟨own, palloc⟩, htaken, ⟨r, palloc1⟩, hpage, h⟩ := h
  cases r with
  | none => cases h
  | some idlePage =>
    obtain ⟨⟨r, palloc2⟩, hfd, h⟩ := bind_eq_ok.1 h
    cases r with
    | none => cases h
    | some idleFd =>
      cases h
      have hstep1 : PallocClient.Step ⟨palloc, own⟩ ⟨palloc1, ⟨idlePage, 1, false⟩ :: own⟩ :=
        PallocClient.Step.get (s := ⟨palloc, own⟩) (n := 1)
          (show pallocGetMultiple palloc _ 1 = _ from hpage)
      have hstep2 : PallocClient.Step ⟨palloc1, ⟨idlePage, 1, false⟩ :: own⟩
          ⟨palloc2, ⟨idleFd, 2, false⟩ :: ⟨idlePage, 1, false⟩ :: own⟩ :=
        PallocClient.Step.get (s := ⟨palloc1, ⟨idlePage, 1, false⟩ :: own⟩) hfd
      exact .boot hinit (((htake htaken).tail hstep1).tail hstep2)

theorem resources_not_conserved_thread : ∃ s s₁ s₂, System.start 272 1 2 = .ok s ∧
    System.Step s (.create PRI_DEFAULT) s₁ ∧ s₁.kernel.threads 3 ≠ none ∧
    Reaches System.Step Always s₁ s₂ ∧ s₂.kernel.threads 3 = none ∧ ¬ s.Conserved s₂ := by
  have hrun : (do
      let s ← System.start 272 1 2
      let s₁ ← s.next (.create PRI_DEFAULT)
      let s₂ ← s₁.runAll System.noTest [.yield, .leave, .go]
      return s.kernel.nextTid == 3 && (s₁.kernel.threads 3).isSome &&
        (s₂.kernel.threads 3).isNone) = Except.ok true := by decide +kernel
  obtain ⟨s, hs, hrun⟩ := bind_eq_ok.1 hrun
  obtain ⟨s₁, hs1, hrun⟩ := bind_eq_ok.1 hrun
  obtain ⟨s₂, hs2, hrun⟩ := bind_eq_ok.1 hrun
  have hcheck := Except.ok.inj hrun
  simp only [Bool.and_eq_true, beq_iff_eq, isSome_iff_ne_none, isNone_iff_eq_none] at hcheck
  obtain ⟨⟨hnext, hborn⟩, hgone⟩ := hcheck
  have hreach := System.runAll_reaches System.noTest_always .refl hs2
  exact ⟨s, s₁, s₂, hs, System.next_step hs1, hborn, hreach, hgone,
    resources_not_conserved (by decide) (by decide) (start_boots hs) .refl (System.next_step hs1)
      (hnext ▸ hborn) hreach⟩

/-- **Two pages are lost**: after a thread was created and has ended, the page at `0xc0107000` is in
use. -/
theorem descriptors_lost_exit : ∃ s s₂, System.start 272 1 2 = .ok s ∧
    Reaches System.Step Always s s₂ ∧ s₂.kernel.nextTid = 4 ∧ s₂.kernel.threads 3 = none ∧
    ¬ s.Conserved s₂ := by
  have hrun : (do
      let s ← System.start 272 1 2
      let s₂ ← s.runAll System.noTest [.create PRI_DEFAULT, .yield, .leave, .go]
      let pool := s.kernel.palloc.kernelPool
      let pool2 := s₂.kernel.palloc.kernelPool
      return s₂.kernel.nextTid == 4 && (s₂.kernel.threads 3).isNone && pool.base == 0xc0101000 &&
        pool.usedMap.bit 6 == false && pool2.base == 0xc0101000 && pool2.usedMap.bit 6 == true &&
        decide (6 < pool2.usedMap.bitCnt)) = Except.ok true := by decide +kernel
  obtain ⟨s, hs, hrun⟩ := bind_eq_ok.1 hrun
  obtain ⟨s₂, hs2, hrun⟩ := bind_eq_ok.1 hrun
  have hcheck := Except.ok.inj hrun
  simp only [Bool.and_eq_true, beq_iff_eq, isNone_iff_eq_none, decide_eq_true_eq] at hcheck
  obtain ⟨⟨⟨⟨⟨⟨hnext, hgone⟩, hbase⟩, hfree⟩, hbase2⟩, hbit2⟩, hlt⟩ := hcheck
  refine ⟨s, s₂, hs, System.runAll_reaches System.noTest_always .refl hs2, hnext, hgone, ?_⟩
  rintro ⟨hused, _⟩
  have hused2 : 0xc0107000 ∈ s₂.kernel.palloc.usedPages false :=
    ⟨6, hlt, hbit2, by rw [show (s₂.kernel.palloc.pool false).base = 0xc0101000 from hbase2]; rfl⟩
  rw [hused] at hused2
  obtain ⟨i, _, hbit, haddr⟩ := hused2
  rw [show (s.kernel.palloc.pool false).base = 0xc0101000 from hbase] at haddr
  obtain rfl : i = 6 := by
    simp only [PGSIZE] at haddr
    omega
  have hbit' : s.kernel.palloc.kernelPool.usedMap.bit 6 = true := hbit
  rw [hfree] at hbit'
  cases hbit'

end Userprog
end Pintos
