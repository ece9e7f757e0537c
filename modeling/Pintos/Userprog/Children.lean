/-
# Lists of children

A thread is entered in its creator's `child_list` and taken off by `process_wait`, which never gets
that far.  The thread that runs after it frees its page, whether its creator is alive or not. So the
lists hold only threads that exist as long as no thread ends before its creator.
-/

import Pintos.Userprog.View

namespace Pintos.Userprog

open Base Function Pintos.Userprog.System

/-- **No dangling children**: the children of a live thread have their pages. -/
def System.NoDangling (s : System) : Prop :=
  ∀ t th, s.kernel.threads t = some th → th.stack ≠ .exited →
    ∀ c ∈ th.childList, s.kernel.threads c ≠ none

def Where.listNeeds (w : Where) (l : List ℕ) : List ℕ := if w = .exited then [] else l

namespace System

variable {s s' : System} {a : Action}

lemma mem_listNeeds {w : Where} {l : List ℕ} {c : ℕ} :
    c ∈ Where.listNeeds w l ↔ w ≠ .exited ∧ c ∈ l := by
  unfold Where.listNeeds
  split_ifs with hw
  · simp [hw]
  · simp [hw]

lemma noDangling_iff : s.NoDangling ↔ s.kernel.Safe Where.listNeeds := by
  constructor
  · intro h t w l ht c hc hnone
    obtain ⟨th, hth, hp⟩ := Threads.view_eq_some.1 ht
    cases hp
    obtain ⟨halive, hc⟩ := mem_listNeeds.1 hc
    exact h t th hth halive c hc (Threads.view_eq_none.1 hnone)
  · intro h t _ ht halive c hc hnone
    exact h t _ _ (Threads.view_of_threads ht) c (mem_listNeeds.2 ⟨halive, hc⟩)
      (Threads.view_eq_none.2 hnone)

theorem NoDangling.step (h : s.NoDangling) (hf : s.Facts) (hs : Step s a s')
    (hm : a.EndsUnneeded Where.listNeeds s) : s'.NoDangling := by
  rw [noDangling_iff] at h ⊢
  refine (hs.effect hf).seen.safe h ?_ ?_ hm
  · intro l w0 w hcur hw c hc
    obtain ⟨_, hc⟩ := mem_listNeeds.1 hc
    -- no edge leaves the end
    have halive : w0 ≠ .exited := by
      rintro rfl
      cases hw with
      | passes hw => cases hw
    exact h _ w0 l hcur c (mem_listNeeds.2 ⟨halive, hc⟩)
  · intro l _ w hcur _
    refine ⟨by simp [Where.listNeeds], fun c hc => ?_⟩
    obtain ⟨_, hc⟩ := mem_listNeeds.1 hc
    rcases List.mem_append.1 hc with hc | hc
    · exact .inr (h _ _ l hcur c (mem_listNeeds.2 ⟨by decide, hc⟩))
    · exact .inl (List.mem_singleton.1 hc)

/-- **A thread ends**: nothing is left dangling exactly when it was on no list. -/
theorem noDangling_reap_iff (h : s.NoDangling)
    (hv : s'.kernel.view = update s.kernel.view s.kernel.current none) :
    s'.NoDangling ↔ s.Unneeded Where.listNeeds := by
  rw [noDangling_iff] at h ⊢
  constructor
  · intro h' t w l hne ht hmem
    refine h' t w l ?_ _ hmem ?_
    · rw [hv, update_of_ne hne, ht]
    · rw [hv, update_self]
  · intro hun t w l ht c hc hnone
    rw [hv] at ht hnone
    obtain ⟨htc, ht⟩ := update_none_cases ht
    by_cases hcc : c = s.kernel.current
    · exact hun t w l htc ht (hcc ▸ hc)
    · rw [update_of_ne hcc] at hnone
      exact h t w l ht c hc hnone

variable {palloc : Palloc} {own : List Allocation} {page idlePage idleFd : ℕ} {openCnt : ℕ → ℕ}

lemma boot_noDangling : (boot palloc own page idlePage idleFd openCnt).NoDangling := by
  intro t _ ht _ c hc
  rcases threads_boot ht with ⟨rfl, rfl⟩ | ⟨rfl, rfl⟩
  · obtain rfl := List.mem_singleton.1 hc
    exact Option.some_ne_none _
  · cases hc

end System

/-- **No dangling children** in every run in which each thread ends after its creator. -/
theorem children_not_dangling {palloc : Palloc} {own : List Allocation} {page idlePage idleFd : ℕ}
    {openCnt : ℕ → ℕ} {s : System}
    (hrun : Reaches System.Step (Action.EndsUnneeded Where.listNeeds)
      (boot palloc own page idlePage idleFd openCnt) s) : s.NoDangling := by
  have hinv : s.Facts ∧ s.NoDangling := by
    refine hrun.invariant (fun s => s.Facts ∧ s.NoDangling) ?_ ⟨boot_facts, boot_noDangling⟩
    exact fun h hs hm => ⟨h.1.step hs, h.2.step h.1 hs hm⟩
  exact hinv.2

theorem children_not_dangling_orphan : ∃ palloc own idlePage idleFd s, start 272 1 2 =
      .ok (boot palloc own INITIAL_PAGE idlePage idleFd fun _ => 0) ∧
    Reaches System.Step (Action.EndsUnneeded Where.listNeeds)
      (boot palloc own INITIAL_PAGE idlePage idleFd fun _ => 0) s ∧
    (s.kernel.nextTid = 4 ∧ s.kernel.threads 3 = none) ∧ s.NoDangling := by
  obtain ⟨_, _, _, _, s, hstart, hrun, hcheck⟩ :=
    start_run 272 1 2 [.create PRI_DEFAULT, .leave, .go, .leave, .go]
      (fun s => s.kernel.nextTid == 4 && (s.kernel.threads 3).isNone)
      (Action.endsUnneeded_meets Where.listNeeds) (by decide +kernel)
  simp only [Bool.and_eq_true, beq_iff_eq, Option.isNone_iff_eq_none] at hcheck
  exact ⟨_, _, _, _, s, hstart, hrun, hcheck, children_not_dangling hrun⟩

/-- **A dangling child**: the initial thread yields to a thread it created; that ends, and is still
on the list. -/
theorem child_dangles_exit : ∃ palloc own idlePage idleFd s, start 272 1 2 =
      .ok (boot palloc own INITIAL_PAGE idlePage idleFd fun _ => 0) ∧
    Reaches System.Step Always
      (boot palloc own INITIAL_PAGE idlePage idleFd fun _ => 0) s ∧ ¬ s.NoDangling := by
  obtain ⟨_, _, _, _, s, hstart, hrun, hcheck⟩ :=
    start_run 272 1 2 [.create PRI_DEFAULT, .yield, .leave, .go]
      (fun s => (s.kernel.threads 3).isNone && (s.kernel.threads 1).any fun th =>
        th.stack == .run && th.childList.contains 3)
      noTest_always (by decide +kernel)
  refine ⟨_, _, _, _, s, hstart, hrun, fun h => ?_⟩
  simp only [Bool.and_eq_true, Option.isNone_iff_eq_none, Option.any_eq_true, beq_iff_eq,
    List.contains_eq_mem, decide_eq_true_eq] at hcheck
  obtain ⟨hgone, th, hth, hstack, hmem⟩ := hcheck
  exact h 1 th hth (by rw [hstack]; decide) 3 hmem hgone

end Pintos.Userprog
