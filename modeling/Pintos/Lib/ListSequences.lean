/-
# Linked lists refine sequences

A heap holds a family of lists (`WellFormed`).  `SeqStep` is what the functions of `list.c` are for,
operations on sequences under the documented preconditions.

Every function is a few `join`s of seams of chains, and two lemmas carry the proofs: taking a
segment out of a list (`WellFormed.detach`) and putting a detached chain into one
(`WellFormed.attach`).
-/

import Pintos.Lib.LinkedList

namespace Pintos.Lib.LinkedList

open Base Function Kernel List ListHeader Links Option

variable {ι : Type} (L : ι → ListHeader)

/-! ## Sequences -/

abbrev Contents (ι : Type) := ι → List ℕ

def ListHeader.nodes (list : ListHeader) (xs : List ℕ) : List ℕ :=
  list.head :: xs ++ [list.tail]

/-- The first node of `ys`, or the tail. -/
def ListHeader.at (list : ListHeader) (ys : List ℕ) : ℕ :=
  ys.headD list.tail

def Fresh (c : Contents ι) (elem : ℕ) : Prop :=
  ∀ i, elem ∉ (L i).nodes (c i)

/-- **The operations on sequences**: what becomes of the family and what is returned. -/
inductive SeqStep [DecidableEq ι] (c : Contents ι) : ListOp ι → ElemPtr → Contents ι → Prop where
  | insert {i xs ys elem} (hi : c i = xs ++ ys) (hf : Fresh L c elem) :
      SeqStep c (.insert ((L i).at ys) elem) none (update c i (xs ++ elem :: ys))
  | pushFront {i elem} (hf : Fresh L c elem) :
      SeqStep c (.pushFront i elem) none (update c i (elem :: c i))
  | pushBack {i elem} (hf : Fresh L c elem) :
      SeqStep c (.pushBack i elem) none (update c i (c i ++ [elem]))
  | remove {i xs elem ys} (hi : c i = xs ++ elem :: ys) :
      SeqStep c (.remove elem) (some ((L i).at ys)) (update c i (xs ++ ys))
  | popFront {i x ys} (hi : c i = x :: ys) :
      SeqStep c (.popFront i) (some x) (update c i ys)
  | popBack {i xs x} (hi : c i = xs ++ [x]) :
      SeqStep c (.popBack i) (some x) (update c i xs)
  | splice {i xs mid ys c' j us vs} (hi : c i = xs ++ mid ++ ys)
      (hc' : c' = update c i (xs ++ ys)) (hj : c' j = us ++ vs) :
      SeqStep c (.splice ((L j).at vs) ((L i).at (mid ++ ys)) ((L i).at ys)) none
        (update c' j (us ++ mid ++ vs))
  | reverse {i} : SeqStep c (.reverse i) none (update c i (c i).reverse)

/-- A sequence of operations, each allowed where the ones before it left the family. -/
inductive SeqRun [DecidableEq ι] :
    Contents ι → List (ListOp ι) → List ElemPtr → Contents ι → Prop where
  | nil {c} : SeqRun c [] [] c
  | cons {c op r c' ops rs c''} (hs : SeqStep L c op r c') (hr : SeqRun c' ops rs c'') :
      SeqRun c (op :: ops) (r :: rs) c''

/-- **A well-formed heap.**  Every list is linked both ways, and no node occurs twice. -/
structure WellFormed (h : ListHeap) (c : Contents ι) : Prop where
  nodup : ∀ i, ((L i).nodes (c i)).Nodup
  disjoint : ∀ i j, i ≠ j → ((L i).nodes (c i)).Disjoint ((L j).nodes (c j))
  chain : ∀ i, h.Chain ((L i).nodes (c i))
  headPrev : ∀ i, h.prev (L i).head = none
  tailNext : ∀ i, h.next (L i).tail = none

/-! ## Seams -/

section

variable {L} {h h' : ListHeap} {c c' : Contents ι} {i : ι} {xs ys mid zs : List ℕ}
  {list : ListHeader} {p a n elem fuel x : ℕ}

/-- The last node of `xs`, or the head. -/
def ListHeader.before (list : ListHeader) (xs : List ℕ) : ℕ :=
  xs.getLastD list.head

lemma ListHeader.exists_before (list : ListHeader) (xs : List ℕ) :
    ∃ l, list.head :: xs = l ++ [list.before xs] := by
  induction xs using List.reverseRecOn with
  | nil => exact ⟨[], rfl⟩
  | append_singleton xs => exact ⟨list.head :: xs, by simp [before]⟩

lemma ListHeader.exists_at (list : ListHeader) (ys : List ℕ) :
    ∃ l, ys ++ [list.tail] = list.at ys :: l := by
  cases ys with
  | nil => exact ⟨[], rfl⟩
  | cons y ys => exact ⟨ys ++ [list.tail], rfl⟩

lemma ListHeader.exists_seam (list : ListHeader) (xs ys : List ℕ) :
    ∃ l1 l2, list.nodes (xs ++ ys) = l1 ++ list.before xs :: list.at ys :: l2 ∧
      ∀ mid, list.nodes (xs ++ mid ++ ys) = l1 ++ list.before xs :: (mid ++ list.at ys :: l2) := by
  obtain ⟨l1, h1⟩ := list.exists_before xs
  obtain ⟨l2, h2⟩ := list.exists_at ys
  refine ⟨l1, l2, ?_, fun mid => ?_⟩
  · calc list.nodes (xs ++ ys) = (list.head :: xs) ++ (ys ++ [list.tail]) := by simp [nodes]
      _ = _ := by rw [h1, h2, append_assoc]; rfl
  · calc list.nodes (xs ++ mid ++ ys) = (list.head :: xs) ++ (mid ++ (ys ++ [list.tail])) := by
          simp [nodes]
      _ = _ := by rw [h1, h2, append_assoc]; rfl

lemma ListHeader.nodes_perm (list : ListHeader) (xs mid ys : List ℕ) :
    (list.nodes (xs ++ mid ++ ys)).Perm (mid ++ list.nodes (xs ++ ys)) := by
  have h := perm_append_comm_assoc (list.head :: xs) mid (ys ++ [list.tail])
  simpa [nodes] using h

lemma ListHeader.sides {xs ys : List ℕ} (hnd : (list.nodes (xs ++ ys)).Nodup) :
    (list.head :: xs).Disjoint (ys ++ [list.tail]) := by
  rw [nodes, cons_append, append_assoc, ← cons_append] at hnd
  exact disjoint_of_nodup_append hnd

lemma ListHeader.before_mem (list : ListHeader) (xs : List ℕ) :
    list.before xs ∈ list.head :: xs := by
  obtain ⟨l, hl⟩ := list.exists_before xs
  simp [hl]

lemma ListHeader.at_mem (list : ListHeader) (ys : List ℕ) : list.at ys ∈ ys ++ [list.tail] := by
  obtain ⟨l, hl⟩ := list.exists_at ys
  simp [hl]

lemma WellFormed.linked (hw : WellFormed L h c) (hi : c i = xs ++ ys) :
    h.Linked ((L i).before xs) ((L i).at ys) := by
  obtain ⟨_, _, hnodes, -⟩ := (L i).exists_seam xs ys
  have hc := hw.chain i
  rw [hi, hnodes, chain_append_cons_cons] at hc
  exact hc.2.1

lemma WellFormed.replace [DecidableEq ι] (hw : WellFormed L h c) (hnd : ((L i).nodes zs).Nodup)
    (hmem : ∀ x ∈ zs, x ∈ c i ∨ Fresh L c x) (hchain : h'.Chain ((L i).nodes zs))
    (hhead : h'.prev (L i).head = none) (htail : h'.next (L i).tail = none)
    (hkeep : ∀ x, x ∉ (L i).nodes (c i) → ¬ Fresh L c x →
      h'.prev x = h.prev x ∧ h'.next x = h.next x) : WellFormed L h' (update c i zs) := by
  have hother : ∀ j, j ≠ i → ∀ x ∈ (L j).nodes (c j),
      h'.prev x = h.prev x ∧ h'.next x = h.next x := by
    intro j hj x hx
    refine hkeep x (fun hxi => hw.disjoint j i hj hx hxi) (fun hf => hf j hx)
  have hsub : ∀ j, j ≠ i → ((L i).nodes zs).Disjoint ((L j).nodes (c j)) := by
    intro j hj x hx hxj
    simp only [nodes, mem_append, mem_cons, cons_append] at hx
    have hxi : x ∈ (L i).nodes (c i) ∨ Fresh L c x := by
      rcases hx with rfl | hx | hx | hx
      · exact .inl (by simp [nodes])
      · exact (hmem x hx).imp_left fun hx => by simp [nodes, hx]
      · exact .inl (by simp [nodes, hx])
      · cases hx
    rcases hxi with hxi | hf
    · exact hw.disjoint i j (Ne.symm hj) hxi hxj
    · exact hf j hxj
  constructor
  · intro j
    by_cases hj : j = i
    · subst hj
      rwa [update_self]
    · rw [update_of_ne hj]
      exact hw.nodup j
  · intro j k hjk
    by_cases hj : j = i
    · subst hj
      rw [update_self, update_of_ne hjk.symm]
      exact hsub k hjk.symm
    · by_cases hk : k = i
      · subst hk
        rw [update_self, update_of_ne hj]
        exact fun x hx hxk => hsub j hj hxk hx
      · rw [update_of_ne hj, update_of_ne hk]
        exact hw.disjoint j k hjk
  · intro j
    by_cases hj : j = i
    · subst hj
      rwa [update_self]
    · rw [update_of_ne hj]
      refine (hw.chain j).congr (fun x hx => ?_) (fun x hx => ?_)
      · exact (hother j hj x (dropLast_subset _ hx)).2
      · exact (hother j hj x (mem_of_mem_tail hx)).1
  · intro j
    by_cases hj : j = i
    · rwa [hj]
    · rw [(hother j hj _ (by simp [nodes])).1, hw.headPrev j]
  · intro j
    by_cases hj : j = i
    · rwa [hj]
    · rw [(hother j hj _ (by simp [nodes])).2, hw.tailNext j]

/-- **Attaching.**  A chain of fresh nodes is put into a list by two joins. -/
theorem WellFormed.attach [DecidableEq ι] (hw : WellFormed L h c) (hi : c i = xs ++ ys)
    (hmid : h.Chain mid) (hnd : mid.Nodup) (hfresh : ∀ x ∈ mid, Fresh L c x) {f e : ℕ}
    {m1 m2 : List ℕ} (hf : mid = f :: m1) (he : mid = m2 ++ [e]) :
    WellFormed L ((h.join ((L i).before xs) f).join e ((L i).at ys))
      (update c i (xs ++ mid ++ ys)) := by
  obtain ⟨_, _, hnodes, hnodes'⟩ := (L i).exists_seam xs ys
  have hfm : f ∈ mid := by simp [hf]
  have hem : e ∈ mid := by simp [he]
  have hbefore := (L i).before_mem xs
  have hat := (L i).at_mem ys
  have hsides : ((L i).head :: xs).Disjoint (ys ++ [(L i).tail]) := by
    have hndi := hw.nodup i
    rw [hi] at hndi
    exact sides hndi
  have hdisj : mid.Disjoint ((L i).nodes (c i)) := fun x hx hxi => hfresh x hx i hxi
  have hnd' : ((L i).nodes (xs ++ mid ++ ys)).Nodup :=
    ((L i).nodes_perm xs mid ys).nodup_iff.mpr (hnd.append (hi ▸ hw.nodup i) (hi ▸ hdisj))
  have hchain := hw.chain i
  rw [hi, hnodes, chain_append_cons_cons] at hchain
  refine hw.replace hnd' (fun x hx => ?_) ?_ ?_ ?_ (fun x hxi hxf => ?_)
  · rw [hi]
    simp only [mem_append] at hx ⊢
    rcases hx with (hx | hx) | hx
    · exact .inl (.inl hx)
    · exact .inr (hfresh x hx)
    · exact .inl (.inr hx)
  · rw [hnodes' mid] at hnd' ⊢
    exact hchain.1.glue_between hmid hchain.2.2 hf he hnd'
  · have h1 : (L i).head ≠ (L i).at ys := fun heq => hsides mem_cons_self (heq ▸ hat)
    have h2 : (L i).head ≠ f := fun heq => hdisj hfm (heq ▸ by simp [nodes])
    rw [join_prev, update_of_ne h1, join_prev, update_of_ne h2]
    exact hw.headPrev i
  · have h1 : (L i).tail ≠ e := fun heq => hdisj hem (heq ▸ by simp [nodes])
    have h2 : (L i).tail ≠ (L i).before xs := fun heq => hsides (heq ▸ hbefore) (by simp)
    rw [join_next, update_of_ne h1, join_next, update_of_ne h2]
    exact hw.tailNext i
  · have hmem : (L i).before xs ∈ (L i).nodes (c i) ∧ (L i).at ys ∈ (L i).nodes (c i) := by
      rw [hi, hnodes]
      simp
    have h1 : x ≠ (L i).at ys := fun heq => hxi (heq ▸ hmem.2)
    have h2 : x ≠ f := fun heq => hxf (heq ▸ hfresh f hfm)
    have h3 : x ≠ e := fun heq => hxf (heq ▸ hfresh e hem)
    have h4 : x ≠ (L i).before xs := fun heq => hxi (heq ▸ hmem.1)
    simp [h1, h2, h3, h4]

/-- **Detaching.**  Joining around a segment takes it out; it stays a chain. -/
theorem WellFormed.detach [DecidableEq ι] (hw : WellFormed L h c) (hi : c i = xs ++ mid ++ ys) :
    WellFormed L (h.join ((L i).before xs) ((L i).at ys)) (update c i (xs ++ ys)) ∧
      (h.join ((L i).before xs) ((L i).at ys)).Chain mid ∧ mid.Nodup ∧
      ∀ x ∈ mid, Fresh L (update c i (xs ++ ys)) x := by
  obtain ⟨l1, l2, hnodes, hnodes'⟩ := (L i).exists_seam xs ys
  have hat := (L i).at_mem ys
  have hbefore := (L i).before_mem xs
  have hperm := (L i).nodes_perm xs mid ys
  rw [← hi] at hperm
  obtain ⟨hndm, hnd, hdisj⟩ := nodup_append'.mp (hperm.nodup_iff.mp (hw.nodup i))
  have hsides := sides hnd
  -- the three chains that the two seams of the segment separate
  obtain ⟨hleft, hmid, hright⟩ : h.Chain (l1 ++ [(L i).before xs]) ∧ h.Chain mid ∧
      h.Chain ((L i).at ys :: l2) := by
    have hc := hw.chain i
    rw [hi, hnodes' mid] at hc
    have hc' : h.Chain ((l1 ++ [(L i).before xs]) ++ (mid ++ (L i).at ys :: l2)) := by
      simpa using hc
    exact ⟨hc'.left_of_append, hc'.right_of_append.left_of_append,
      hc'.right_of_append.right_of_append⟩
  have hbm : (L i).before xs ∉ mid := fun hx => hdisj hx (by rw [hnodes]; simp)
  have ham : (L i).at ys ∉ mid := fun hx => hdisj hx (by rw [hnodes]; simp)
  refine ⟨?_, ?_, hndm, fun x hx j => ?_⟩
  · refine hw.replace hnd (fun x hx => ?_) ?_ ?_ ?_ (fun x hxi hxf => ?_)
    · rw [hi]
      simp only [mem_append] at hx ⊢
      rcases hx with hx | hx
      · exact .inl (.inl (.inl hx))
      · exact .inl (.inr hx)
    · rw [hnodes] at hnd ⊢
      exact hleft.glue hright hnd
    · have h1 : (L i).head ≠ (L i).at ys := fun heq => hsides mem_cons_self (heq ▸ hat)
      rw [join_prev, update_of_ne h1]
      exact hw.headPrev i
    · have h1 : (L i).tail ≠ (L i).before xs := fun heq => hsides (heq ▸ hbefore) (by simp)
      rw [join_next, update_of_ne h1]
      exact hw.tailNext i
    · have h1 : x ≠ (L i).at ys := fun heq => hxi (heq ▸ by rw [hi, hnodes' mid]; simp)
      have h2 : x ≠ (L i).before xs := fun heq => hxi (heq ▸ by rw [hi, hnodes' mid]; simp)
      simp [h1, h2]
  · refine hmid.join (fun hx => hbm (dropLast_subset _ hx)) ?_
    exact fun hx => ham (mem_of_mem_tail hx)
  · by_cases hj : j = i
    · subst hj
      rw [update_self]
      exact fun hxi => hdisj hx hxi
    · rw [update_of_ne hj]
      have hxi : x ∈ (L i).nodes (c i) := hperm.mem_iff.mpr (mem_append_left _ hx)
      exact fun hxj => hw.disjoint j i hj hxj hxi

/-! ## The functions as joins -/

@[simp] lemma load_some (field : ℕ → ElemPtr) (a : ℕ) : load field (some a) = .ok (field a) :=
  rfl

@[simp] lemma storePrev_some (h : ListHeap) (a : ℕ) (v : ElemPtr) :
    storePrev h (some a) v = .ok (h.setPrev a v) := rfl

@[simp] lemma storeNext_some (h : ListHeap) (a : ℕ) (v : ElemPtr) :
    storeNext h (some a) v = .ok (h.setNext a v) := rfl

lemma isInterior_or_isTail (hp : h.prev a = some p) :
    (isInterior h (some a) || isTail h (some a)) = true := by
  cases hn : h.next a <;> simp [isInterior, isTail, hp, hn]

lemma isHead_or_isInterior (hn : h.next a = some n) :
    (isHead h (some a) || isInterior h (some a)) = true := by
  cases hp : h.prev a <;> simp [isHead, isInterior, hp, hn]

lemma isInterior_of (hp : h.prev a = some p) (hn : h.next a = some n) :
    isInterior h (some a) = true := by
  simp [isInterior, hp, hn]

variable {before : ℕ}

lemma listInsert_eq (hp : h.prev before = some p) (hbe : before ≠ elem) (hpe : p ≠ elem) :
    listInsert h (some before) (some elem) = .ok ((h.join p elem).join elem before) := by
  have hread : update h.prev elem (some p) before = some p := by
    rw [update_of_ne hbe, hp]
  simp only [listInsert, ASSERT_of (isInterior_or_isTail hp), ASSERT_of (some_ne_none elem),
    ok_bind, load_some, storePrev_some, storeNext_some, hp, setNext_prev,
    Links.setPrev_prev, hread]
  refine congrArg Except.ok (Links.ext rfl ?_)
  exact update_comm hpe.symm _ _ _

lemma listRemove_eq (hp : h.prev elem = some p) (hn : h.next elem = some n) (hpe : p ≠ elem) :
    listRemove h (some elem) = .ok (some n, h.join p n) := by
  have hread : update h.next p (some n) elem = some n := by
    rw [update_of_ne hpe.symm, hn]
  simp only [listRemove, ASSERT_of (isInterior_of hp hn), ok_bind, load_some, hp, hn,
    storeNext_some, storePrev_some, setNext_next, setNext_prev, setPrev_next,
    hread]
  rfl

lemma listSplice_eq {first last q r r' b : ℕ} (hb : h.prev before = some b) (hfn : first ≠ n)
    (hp : h.prev first = some p) (hr : h.next first = some r) (hn : h.prev n = some last)
    (hl : h.next last = some n) (hr' : h.prev last = some r') (hpl : p ≠ last)
    (hq : (h.join p n).prev before = some q) (hbf : before ≠ first) (hql : q ≠ last) :
    listSplice h (some before) (some first) (some n) =
      .ok (((h.join p n).join q first).join last before) := by
  have hprev : listPrev h (some n) = .ok (some last) := by
    rw [listPrev, ASSERT_of (isInterior_or_isTail hn), ok_bind, load_some, hn]
  have hread : (h.setNext p (some n)).next last = some n := by
    rw [setNext_next, update_of_ne hpl.symm, hl]
  have hjoin : (h.setNext p (some n)).setPrev n (some p) = h.join p n := rfl
  have hread' : update (h.join p n).prev first (some q) before = some q := by
    rw [update_of_ne hbf, hq]
  rw [listSplice, ASSERT_of (isInterior_or_isTail hb), ok_bind,
    if_neg (fun heq => hfn (some.inj heq))]
  simp only [hprev, ASSERT_of (isInterior_of hp hr), ASSERT_of (isInterior_of hr' hl),
    ok_bind, load_some, storeNext_some, storePrev_some, hp, hl, hread, hjoin, hq,
    Links.setNext_prev, Links.setPrev_prev, hread']
  refine congrArg Except.ok (Links.ext rfl ?_)
  exact update_comm hql.symm _ _ _

/-! ## The loops -/

lemma chain_at {z : ℕ} (hc : h.Chain (z :: zs ++ [list.tail])) :
    h.next z = some (list.at zs) ∧ h.Chain (zs ++ [list.tail]) := by
  obtain ⟨l, hl⟩ := list.exists_at zs
  rw [cons_append, hl] at hc
  rw [hl]
  exact ⟨(isChain_cons_cons.mp hc).1.1, (isChain_cons_cons.mp hc).2⟩

lemma forwardFrom_eq (hc : h.Chain (zs ++ [list.tail])) (htail : list.tail ∉ zs)
    (hf : zs.length < fuel) : forwardFrom h list fuel (some (list.at zs)) = .ok zs := by
  induction zs generalizing fuel with
  | nil =>
    obtain ⟨_, rfl⟩ := Nat.exists_eq_add_of_lt hf
    exact if_pos rfl
  | cons z zs ih =>
    rw [length_cons] at hf
    obtain ⟨fuel, rfl⟩ : ∃ k, fuel = k + 1 := ⟨fuel - 1, by omega⟩
    obtain ⟨hz, hrest⟩ := chain_at hc
    rw [mem_cons, not_or] at htail
    have hne : some z ≠ listEnd list := fun heq => htail.1 (some.inj heq).symm
    have hnext : listNext h (some z) = .ok (some (list.at zs)) := by
      rw [listNext, ASSERT_of (isHead_or_isInterior hz), ok_bind, load_some, hz]
    have hat : list.at (z :: zs) = z := rfl
    rw [hat, forwardFrom, if_neg hne, hnext, ok_bind, ih hrest htail.2 (by omega)]
    rfl

lemma reverseLoop_ok (hc : h.Chain (zs ++ [list.tail])) (hnd : zs.Nodup)
    (htail : list.tail ∉ zs) :
    ∃ h', (∀ fuel > zs.length, reverseLoop list fuel h (some (list.at zs)) = .ok h') ∧
      (∀ x ∈ zs, h'.prev x = h.next x ∧ h'.next x = h.prev x) ∧
      ∀ x, x ∉ zs → h'.prev x = h.prev x ∧ h'.next x = h.next x := by
  induction zs generalizing h with
  | nil =>
    refine ⟨h, fun fuel hf => ?_, nofun, fun x _ => ⟨rfl, rfl⟩⟩
    obtain ⟨_, rfl⟩ := Nat.exists_eq_add_of_lt hf
    exact if_pos rfl
  | cons z zs ih =>
    obtain ⟨hz, hrest⟩ := chain_at hc
    rw [mem_cons, not_or] at htail
    rw [nodup_cons] at hnd
    have hne : some z ≠ listEnd list := fun heq => htail.1 (some.inj heq).symm
    -- one round writes the links of `z` only, which the rest of the chain does not read
    let h1 := (h.setPrev z (h.next z)).setNext z (h.prev z)
    have hzr : z ∉ zs ++ [list.tail] := by
      simp only [mem_append, mem_singleton, not_or]
      exact ⟨hnd.1, htail.1 ∘ Eq.symm⟩
    have hkeep : ∀ x, x ≠ z → h1.prev x = h.prev x ∧ h1.next x = h.next x := fun x hx =>
      ⟨update_of_ne hx _ _, update_of_ne hx _ _⟩
    have hc1 : h1.Chain (zs ++ [list.tail]) := by
      refine hrest.congr (fun x hx => ?_) (fun x hx => ?_)
      · exact (hkeep x (ne_of_mem_of_not_mem (dropLast_subset _ hx) hzr)).2
      · exact (hkeep x (ne_of_mem_of_not_mem (mem_of_mem_tail hx) hzr)).1
    have hself : h1.prev z = h.next z ∧ h1.next z = h.prev z := ⟨update_self .., update_self ..⟩
    obtain ⟨h', hrun, hin, hout⟩ := ih hc1 hnd.2 htail.2
    refine ⟨h', fun fuel hf => ?_, fun x hx => ?_, fun x hx => ?_⟩
    · rw [length_cons] at hf
      obtain ⟨fuel, rfl⟩ : ∃ k, fuel = k + 1 := ⟨fuel - 1, by omega⟩
      have hat : list.at (z :: zs) = z := rfl
      rw [hat, reverseLoop, if_neg hne]
      simp only [load_some, storePrev_some, storeNext_some, ok_bind]
      have hnext : h1.prev z = some (list.at zs) := hself.1.trans hz
      exact (congrArg (reverseLoop list fuel h1) hnext).trans (hrun fuel (by omega))
    · rcases mem_cons.mp hx with rfl | hx
      · rw [(hout x hnd.1).1, (hout x hnd.1).2]
        exact hself
      · have hxz : x ≠ z := ne_of_mem_of_not_mem hx hnd.1
        rw [(hin x hx).1, (hin x hx).2, (hkeep x hxz).1, (hkeep x hxz).2]
        exact ⟨rfl, rfl⟩
    · rw [mem_cons, not_or] at hx
      rw [(hout x hx.2).1, (hout x hx.2).2]
      exact hkeep x hx.1

lemma listReverse_eq {y : ℕ} {h1 : ListHeap} (hempty : h.next list.head ≠ some list.tail)
    (hloop : reverseLoop list fuel h (listBegin h list) = .ok h1)
    (hfirst : h1.next list.head = some x) (hlast : h1.prev list.tail = some y)
    (hy : h1.prev y = some list.tail) (hx : h1.next x = some list.head) (hyt : y ≠ list.tail)
    (hxh : x ≠ list.head) :
    listReverse fuel h list = .ok ((h1.join list.head y).join x list.tail) := by
  have hne : listEmpty h list = false := decide_eq_false hempty
  have hread1 : update h1.next list.head (some y) list.head = some y := update_self ..
  have hread2 : update h1.prev list.tail (some x) list.tail = some x := update_self ..
  have hread3 : update h1.prev list.tail (some x) y = some list.tail := by
    rw [update_of_ne hyt, hy]
  have hread4 : update h1.next list.head (some y) x = some list.head := by
    rw [update_of_ne hxh, hx]
  have hread5 : update (update h1.prev list.tail (some x)) y (some list.head)
      list.tail = some x := by
    rw [update_of_ne hyt.symm, hread2]
  simp only [listReverse, hne, hloop, ok_bind, hfirst, hlast, setPrev_next,
    setPrev_prev, setNext_next, setNext_prev, hread1, hread2, hread3, hread4,
    hread5, load_some, storePrev_some, storeNext_some]
  refine congrArg Except.ok (Links.ext ?_ rfl)
  exact update_comm hyt.symm _ _ _

/-! ## The refinement -/

lemma WellFormed.forward_eq (hw : WellFormed L h c) (i : ι) (hf : (c i).length < fuel) :
    forward fuel h (L i) = .ok (c i) := by
  have hlink := (hw.linked (show c i = [] ++ c i from rfl)).1
  have hc := hw.chain i
  have hnd := hw.nodup i
  rw [nodes, cons_append] at hc hnd
  have htail : (L i).tail ∉ c i := fun hx =>
    disjoint_of_nodup_append (nodup_cons.mp hnd).2 hx (by simp)
  have hbegin : listBegin h (L i) = some ((L i).at (c i)) := hlink
  rw [forward, hbegin]
  exact forwardFrom_eq hc.tail htail hf

lemma ListHeader.exists_eq_at (hx : x ∈ xs ++ [list.tail]) :
    ∃ us vs, xs = us ++ vs ∧ x = list.at vs := by
  rcases mem_append.mp hx with hx | hx
  · obtain ⟨us, vs, hsplit⟩ := append_of_mem hx
    exact ⟨us, x :: vs, hsplit, rfl⟩
  · exact ⟨xs, [], (append_nil xs).symm, mem_singleton.mp hx⟩

lemma ListHeader.exists_eq_before (hx : x ∈ list.head :: xs) :
    ∃ us vs, xs = us ++ vs ∧ x = list.before us := by
  rcases mem_cons.mp hx with rfl | hx
  · exact ⟨[], xs, rfl, rfl⟩
  · obtain ⟨us, vs, hsplit⟩ := append_of_mem hx
    exact ⟨us ++ [x], vs, hsplit.trans (append_cons us x vs), by simp [before]⟩

lemma WellFormed.exists_prev (hw : WellFormed L h c) (hx : x ∈ c i ++ [(L i).tail]) :
    ∃ p, h.prev x = some p := by
  obtain ⟨_, _, hi, rfl⟩ := exists_eq_at hx
  exact ⟨_, (hw.linked hi).2⟩

lemma WellFormed.exists_next (hw : WellFormed L h c) (hx : x ∈ (L i).head :: c i) :
    ∃ n, h.next x = some n := by
  obtain ⟨_, _, hi, rfl⟩ := exists_eq_before hx
  exact ⟨_, (hw.linked hi).1⟩

lemma WellFormed.links_eq (hw : WellFormed L h c) (hw' : WellFormed L h' c') (hi : c' i = c i)
    (hx : x ∈ (L i).nodes (c i)) : h'.prev x = h.prev x ∧ h'.next x = h.next x := by
  constructor
  · rw [nodes, cons_append] at hx
    rcases mem_cons.mp hx with rfl | hx
    · rw [hw.headPrev, hw'.headPrev]
    · obtain ⟨_, _, hsplit, rfl⟩ := exists_eq_at hx
      exact (hw'.linked (hi.trans hsplit)).2.trans (hw.linked hsplit).2.symm
  · rw [nodes] at hx
    rcases mem_append.mp hx with hx | hx
    · obtain ⟨_, _, hsplit, rfl⟩ := exists_eq_before hx
      exact (hw'.linked (hi.trans hsplit)).1.trans (hw.linked hsplit).1.symm
    · rw [mem_singleton.mp hx, hw.tailNext, hw'.tailNext]

lemma seam_mem (hi : c i = xs ++ ys) :
    (L i).before xs ∈ (L i).nodes (c i) ∧ (L i).at ys ∈ (L i).nodes (c i) := by
  obtain ⟨_, _, hnodes, -⟩ := (L i).exists_seam xs ys
  rw [hi, hnodes]
  simp

lemma WellFormed.not_empty (hw : WellFormed L h c) (hne : c i ≠ []) :
    (!listEmpty h (L i)) = true := by
  obtain ⟨x, ys, hi⟩ := exists_cons_of_ne_nil hne
  have hbegin : listBegin h (L i) = some x := (hw.linked (show c i = [] ++ x :: ys from hi)).1
  have hnd := hw.nodup i
  rw [hi] at hnd
  have hxt : x ≠ (L i).tail := fun heq =>
    sides (show ((L i).nodes ([x] ++ ys)).Nodup from hnd)
      (show (L i).tail ∈ _ by simp [heq]) (by simp)
  simp [listEmpty, hbegin, listEnd, hxt]

variable [DecidableEq ι]

section

variable (hw : WellFormed L h c)
include hw

lemma WellFormed.insert (hi : c i = xs ++ ys) (hf : Fresh L c elem) :
    ∃ h', listInsert h (some ((L i).at ys)) (some elem) = .ok h' ∧
      WellFormed L h' (update c i (xs ++ elem :: ys)) := by
  have hseam := seam_mem (L := L) hi
  have hpe : (L i).before xs ≠ elem := fun heq => hf i (heq ▸ hseam.1)
  have hbe : (L i).at ys ≠ elem := fun heq => hf i (heq ▸ hseam.2)
  refine ⟨_, listInsert_eq (hw.linked hi).2 hbe hpe, ?_⟩
  have hatt := hw.attach hi (h.chain_singleton elem) (nodup_singleton elem)
    (fun x hx => mem_singleton.mp hx ▸ hf) (show [elem] = elem :: [] from rfl)
    (show [elem] = [] ++ [elem] from rfl)
  simpa using hatt

lemma WellFormed.remove (hi : c i = xs ++ elem :: ys) :
    ∃ h', listRemove h (some elem) = .ok (some ((L i).at ys), h') ∧
      WellFormed L h' (update c i (xs ++ ys)) := by
  have hprev := (hw.linked hi).2
  have hi' : c i = (xs ++ [elem]) ++ ys := by simpa using hi
  have hnext := (hw.linked hi').1
  have hlast : (L i).before (xs ++ [elem]) = elem := by simp [before]
  rw [hlast] at hnext
  have hpe : (L i).before xs ≠ elem := by
    have hnd := hw.nodup i
    rw [hi] at hnd
    exact fun heq => sides hnd (heq ▸ (L i).before_mem xs) mem_cons_self
  exact ⟨_, listRemove_eq hprev hnext hpe, (hw.detach hi').1⟩

lemma WellFormed.splice {j : ι} {us vs : List ℕ} (hi : c i = xs ++ mid ++ ys)
    (hc' : c' = update c i (xs ++ ys)) (hj : c' j = us ++ vs) :
    ∃ h', listSplice h (some ((L j).at vs)) (some ((L i).at (mid ++ ys))) (some ((L i).at ys)) =
        .ok h' ∧ WellFormed L h' (update c' j (us ++ mid ++ vs)) := by
  -- `before` has a `prev` link to begin with: its list only lost the range
  have hbefore : ∃ b, h.prev ((L j).at vs) = some b := by
    have hat := (L j).at_mem vs
    by_cases hji : j = i
    · subst hji
      rw [hc', update_self] at hj
      refine hw.exists_prev (i := j) ?_
      have hat' : (L j).at vs ∈ (xs ++ ys) ++ [(L j).tail] := by
        rw [hj, append_assoc]
        exact mem_append_right _ hat
      rw [hi]
      simp only [mem_append] at hat' ⊢
      tauto
    · rw [hc', update_of_ne hji] at hj
      exact ⟨_, (hw.linked hj).2⟩
  obtain ⟨b, hb⟩ := hbefore
  by_cases hnil : mid = []
  · subst hnil
    have hsame : c' = c := by
      rw [hc', ← update_eq_self i c, hi]
      simp
    subst hsame
    refine ⟨h, ?_, ?_⟩
    · rw [listSplice, ASSERT_of (isInterior_or_isTail hb), ok_bind]
      exact if_pos rfl
    · have hself : us ++ [] ++ vs = c' j := by simpa using hj.symm
      rw [hself, update_eq_self]
      exact hw
  obtain ⟨f, _, hf⟩ := exists_cons_of_ne_nil hnil
  obtain ⟨_, e, he⟩ := (eq_nil_or_concat' mid).resolve_left hnil
  have hi1 : c i = xs ++ (mid ++ ys) := by rw [hi, append_assoc]
  have hat : (L i).at (mid ++ ys) = f := by simp [ListHeader.at, hf]
  have hlast : (L i).before (xs ++ mid) = e := by simp [ListHeader.before, he]
  have hfm : f ∈ mid := by simp [hf]
  have hem : e ∈ mid := by simp [he]
  -- the links of the two ends of the range
  have hp := (hw.linked hi1).2
  obtain ⟨hl, hn⟩ := hw.linked hi
  rw [hat] at hp
  rw [hlast] at hl hn
  obtain ⟨r, hr⟩ := hw.exists_next (i := i) (x := f) (by simp [hi, hfm])
  obtain ⟨_, hr'⟩ := hw.exists_prev (i := i) (x := e) (by simp [hi, hem])
  have hfn : f ≠ (L i).at ys := by
    have hnd := hw.nodup i
    rw [hi] at hnd
    exact fun heq => sides hnd (by simp [hfm]) (heq ▸ (L i).at_mem ys)
  have hpe : (L i).before xs ≠ e := by
    have hnd := hw.nodup i
    rw [hi1] at hnd
    exact fun heq => sides hnd (heq ▸ (L i).before_mem xs) (by simp [hem])
  -- once the range is out, `before` is at a seam of a list that has none of its nodes
  obtain ⟨hw', hchain, hndm, hfresh⟩ := hw.detach hi
  rw [← hc'] at hw' hfresh
  have hseam := seam_mem (L := L) hj
  have hbf : (L j).at vs ≠ f := fun heq => hfresh f hfm j (heq ▸ hseam.2)
  have hqe : (L j).before us ≠ e := fun heq => hfresh e hem j (heq ▸ hseam.1)
  refine ⟨_, ?_, hw'.attach hj hchain hndm hfresh hf he⟩
  rw [hat]
  exact listSplice_eq hb hfn hp hr hn hl hr' hpe (hw'.linked hj).2 hbf hqe

lemma WellFormed.reverse (i : ι) :
    ∃ h', (∀ fuel > (c i).length, listReverse fuel h (L i) = .ok h') ∧
      WellFormed L h' (update c i (c i).reverse) := by
  have hbegin : h.next (L i).head = some ((L i).at (c i)) :=
    (hw.linked (show c i = [] ++ c i from rfl)).1
  have hend : h.prev (L i).tail = some ((L i).before (c i)) := (hw.linked (append_nil (c i)).symm).2
  have hnd := hw.nodup i
  have hchain := hw.chain i
  rw [nodes, cons_append] at hnd hchain
  obtain ⟨hhead, hnd'⟩ := nodup_cons.mp hnd
  obtain ⟨hndc, -, hdisj⟩ := nodup_append'.mp hnd'
  have htail : (L i).tail ∉ c i := fun hx => hdisj hx (by simp)
  rw [mem_append, not_or] at hhead
  by_cases hnil : c i = []
  · refine ⟨h, fun fuel _ => ?_, ?_⟩
    · have hempty : listEmpty h (L i) = true := by
        rw [hnil] at hbegin
        exact decide_eq_true hbegin
      rw [listReverse, hempty]
      rfl
    · have hsame : (c i).reverse = c i := by rw [hnil]; rfl
      rw [hsame, update_eq_self]
      exact hw
  obtain ⟨x, m1, hx⟩ := exists_cons_of_ne_nil hnil
  obtain ⟨m2, y, hy⟩ := (eq_nil_or_concat' (c i)).resolve_left hnil
  have hat : (L i).at (c i) = x := by simp [ListHeader.at, hx]
  have hbefore : (L i).before (c i) = y := by simp [ListHeader.before, hy]
  have hxm : x ∈ c i := by simp [hx]
  have hym : y ∈ c i := by simp [hy]
  obtain ⟨h1, hloop, hin, hout⟩ := reverseLoop_ok hchain.tail hndc htail
  rw [hat] at hbegin
  rw [hbefore] at hend
  -- the links of the two ends, which the loop has turned around
  have hxprev : h.prev x = some (L i).head := by
    have := (hw.linked (show c i = [] ++ c i from rfl)).2
    rwa [hat] at this
  have hynext : h.next y = some (L i).tail := by
    have := (hw.linked (append_nil (c i)).symm).1
    rwa [hbefore] at this
  have hne : h.next (L i).head ≠ some (L i).tail := by
    rw [hbegin]
    exact fun heq => htail (some.inj heq ▸ hxm)
  have hres := fun fuel hf => listReverse_eq hne ((congrArg _ hbegin).trans (hat ▸ hloop fuel hf))
    ((hout _ hhead.1).2.trans hbegin) ((hout _ htail).1.trans hend)
    ((hin y hym).1.trans hynext) ((hin x hxm).2.trans hxprev)
    (ne_of_mem_of_not_mem hym htail) (ne_of_mem_of_not_mem hxm hhead.1)
  refine ⟨_, hres, ?_⟩
  have hmid : h.Chain (c i) := hchain.tail.left_of_append
  have hperm : ((L i).nodes (c i).reverse).Perm ((L i).nodes (c i)) :=
    ((reverse_perm _).append_right _).cons _
  refine hw.replace (hperm.nodup_iff.mpr (hw.nodup i)) (fun z hz => ?_) ?_ ?_ ?_
    (fun z hzi hzf => ?_)
  · exact .inl (mem_reverse.mp hz)
  · have hrev := hmid.reverse (fun z hz => (hin z hz).2) (fun z hz => (hin z hz).1)
    have hhd : h1.Chain ([] ++ [(L i).head]) := h1.chain_singleton _
    exact hhd.glue_between hrev (h1.chain_singleton (L i).tail)
      (show (c i).reverse = y :: m2.reverse by simp [hy])
      (show (c i).reverse = m1.reverse ++ [x] by simp [hx]) (hperm.nodup_iff.mpr (hw.nodup i))
  · have hht : (L i).head ≠ (L i).tail := fun heq => hhead.2 (by simp [heq])
    rw [join_prev, update_of_ne hht, join_prev,
      update_of_ne (ne_of_mem_of_not_mem hym hhead.1).symm, (hout _ hhead.1).1]
    exact hw.headPrev i
  · have hht : (L i).tail ≠ (L i).head := fun heq => hhead.2 (by simp [heq])
    rw [join_next, update_of_ne (ne_of_mem_of_not_mem hxm htail).symm,
      join_next, update_of_ne hht, (hout _ htail).2]
    exact hw.tailNext i
  · simp only [nodes, cons_append, mem_cons, mem_append, not_or] at hzi
    have hzx : z ≠ x := (ne_of_mem_of_not_mem hxm hzi.2.1).symm
    have hzy : z ≠ y := (ne_of_mem_of_not_mem hym hzi.2.1).symm
    simp [hzi.1, hzi.2.2, hzx, hzy, hout z hzi.2.1]

/-- **One call** is the operation on sequences, given fuel for the longest list. -/
theorem WellFormed.exec {op : ListOp ι} {r : ElemPtr} (hs : SeqStep L c op r c') :
    ∃ h', WellFormed L h' c' ∧ ∃ n, ∀ fuel ≥ n, op.exec L fuel h = .ok (r, h') := by
  cases hs with
  | insert hi hf =>
    obtain ⟨h', hrun, hw'⟩ := hw.insert hi hf
    exact ⟨h', hw', 0, fun _ _ => by rw [ListOp.exec, hrun]; rfl⟩
  | @pushFront i elem hf =>
    have hi : c i = [] ++ c i := rfl
    obtain ⟨h', hrun, hw'⟩ := hw.insert hi hf
    refine ⟨h', hw', 0, fun _ _ => ?_⟩
    have hbegin : listBegin h (L i) = some ((L i).at (c i)) := (hw.linked hi).1
    rw [ListOp.exec, listPushFront, hbegin, hrun]
    rfl
  | @pushBack i elem hf =>
    have hi : c i = c i ++ [] := (append_nil (c i)).symm
    obtain ⟨h', hrun, hw'⟩ := hw.insert hi hf
    refine ⟨h', hw', 0, fun _ _ => ?_⟩
    have hend : listEnd (L i) = some ((L i).at []) := rfl
    rw [ListOp.exec, listPushBack, hend, hrun]
    rfl
  | remove hi =>
    obtain ⟨h', hrun, hw'⟩ := hw.remove hi
    exact ⟨h', hw', 0, fun _ _ => hrun⟩
  | @popFront i x ys hi =>
    obtain ⟨h', hrun, hw'⟩ := hw.remove (show c i = [] ++ x :: ys from hi)
    refine ⟨h', hw', 0, fun _ _ => ?_⟩
    have hbegin : listBegin h (L i) = some x := (hw.linked (show c i = [] ++ x :: ys from hi)).1
    have hne : c i ≠ [] := by simp [hi]
    have hfront : listFront h (L i) = .ok (some x) := by
      rw [listFront, ASSERT_of (hw.not_empty hne), ok_bind]
      exact congrArg Except.ok hbegin
    rw [ListOp.exec, listPopFront, hfront, ok_bind, hrun]
    rfl
  | @popBack i xs x hi =>
    obtain ⟨h', hrun, hw'⟩ := hw.remove hi
    refine ⟨h', by simpa using hw', 0, fun _ _ => ?_⟩
    have hend : h.prev (L i).tail = some x := by
      have hlink := hw.linked (show c i = (xs ++ [x]) ++ [] by simp [hi])
      simpa [ListHeader.before, ListHeader.at] using hlink.2
    have hne : c i ≠ [] := by simp [hi]
    have hback : listBack h (L i) = .ok (some x) := by
      rw [listBack, ASSERT_of (hw.not_empty hne), ok_bind]
      exact congrArg Except.ok hend
    rw [ListOp.exec, listPopBack, hback, ok_bind, hrun]
    rfl
  | splice hi hc' hj =>
    obtain ⟨h', hrun, hw'⟩ := hw.splice hi hc' hj
    exact ⟨h', hw', 0, fun _ _ => by rw [ListOp.exec, hrun]; rfl⟩
  | @reverse i =>
    obtain ⟨h', hrun, hw'⟩ := hw.reverse i
    exact ⟨h', hw', (c i).length + 1, fun fuel hf => by rw [ListOp.exec, hrun fuel hf]; rfl⟩

lemma WellFormed.execAll {ops : List (ListOp ι)} {rs : List ElemPtr} (hr : SeqRun L c ops rs c') :
    ∃ h', WellFormed L h' c' ∧ ∃ n, ∀ fuel ≥ n, execAll L fuel h ops = .ok (rs, h') := by
  induction hr generalizing h with
  | nil => exact ⟨h, hw, 0, fun _ _ => rfl⟩
  | cons hs _ ih =>
    obtain ⟨h1, hw1, n1, hrun1⟩ := hw.exec hs
    obtain ⟨h2, hw2, n2, hrun2⟩ := ih hw1
    refine ⟨h2, hw2, max n1 n2, fun fuel hf => ?_⟩
    have h1 := hrun1 fuel (by omega)
    have h2 := hrun2 fuel (by omega)
    simp only [LinkedList.execAll, h1, h2, ok_bind]
    rfl

end

/-- **Linked lists refine sequences.**  Allowed calls run to their end, return what the operations
return and leave a well-formed heap; a list with the contents it had has all its links. -/
theorem execAll_refines {ops : List (ListOp ι)} {rs : List ElemPtr} {c' : Contents ι}
    (hw : WellFormed L h c) (hr : SeqRun L c ops rs c') :
    ∃ h', (∃ n, ∀ fuel ≥ n, execAll L fuel h ops = .ok (rs, h')) ∧ WellFormed L h' c' ∧
      (∀ i, ∀ fuel > (c' i).length, forward fuel h' (L i) = .ok (c' i)) ∧
      ∀ i, c' i = c i → ∀ x ∈ (L i).nodes (c i), h'.prev x = h.prev x ∧ h'.next x = h.next x := by
  obtain ⟨h', hw', hrun⟩ := hw.execAll hr
  exact ⟨h', hrun, hw', fun i _ hf => hw'.forward_eq i hf, fun i hi x hx => hw.links_eq hw' hi hx⟩

end

def twoLists : Bool → ListHeader
  | false => ⟨0, 1⟩
  | true => ⟨2, 3⟩

def twoEmpty : ListHeap :=
  listInit (listInit ⟨fun _ => none, fun _ => none⟩ (twoLists false)) (twoLists true)

lemma twoEmpty_wellFormed : WellFormed twoLists twoEmpty fun _ => [] := by
  constructor
  · decide
  · rintro (_ | _) (_ | _) hij x <;> simp_all [nodes, twoLists]
    all_goals omega
  · rintro (_ | _)
    · exact isChain_pair.mpr ⟨rfl, rfl⟩
    · exact isChain_pair.mpr ⟨rfl, rfl⟩
  · decide
  · decide

theorem execAll_refines_two_lists : ∃ h', (∃ n, ∀ fuel ≥ n, execAll twoLists fuel twoEmpty
        [.pushBack false 10, .pushBack false 11, .splice 3 10 11] = .ok ([none, none, none], h')) ∧
      forward 2 h' ⟨0, 1⟩ = .ok [11] ∧ forward 2 h' ⟨2, 3⟩ = .ok [10] := by
  obtain ⟨h', hrun, -, hforward, -⟩ := execAll_refines twoEmpty_wellFormed
    (.cons (.pushBack (i := false) (by unfold Fresh; decide)) <|
      .cons (.pushBack (i := false) (by unfold Fresh; decide)) <|
      .cons (.splice (i := false) (j := true) (show _ = ([] : List ℕ) ++ [10] ++ [11] from rfl) rfl
        (show _ = ([] : List ℕ) ++ [] from rfl)) .nil)
  exact ⟨h', hrun, hforward false 2 (by decide), hforward true 2 (by decide)⟩

end Pintos.Lib.LinkedList
