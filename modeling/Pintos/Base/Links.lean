/-
# Doubly linked chains

A heap of nodes with a link in each direction.  Two nodes are `Linked` when they point at each
other, and a list of nodes is a chain when its neighbours are linked.  Writing both links of a seam
(`join`) leaves alone every chain not across it, and makes one chain of the two that end and begin
there.
-/

import Mathlib.Data.List.Chain
import Mathlib.Data.List.Nodup

namespace Pintos.Base

open Function List

@[ext]
structure Links (ν : Type*) where
  prev : ν → Option ν
  next : ν → Option ν

namespace Links

variable {ν : Type*} {h h' : Links ν} {a b : ν} {l l₁ l₂ : List ν}

def Linked (h : Links ν) (a b : ν) : Prop :=
  h.next a = some b ∧ h.prev b = some a

def Chain (h : Links ν) (l : List ν) : Prop :=
  l.IsChain h.Linked

lemma chain_singleton (h : Links ν) (a : ν) : h.Chain [a] := isChain_singleton a

lemma chain_append_cons_cons :
    h.Chain (l₁ ++ a :: b :: l₂) ↔ h.Chain (l₁ ++ [a]) ∧ h.Linked a b ∧ h.Chain (b :: l₂) :=
  isChain_append_cons_cons

/-- A chain depends only on the links between its nodes. -/
lemma Chain.congr (hc : h.Chain l) (hnext : ∀ x ∈ l.dropLast, h'.next x = h.next x)
    (hprev : ∀ x ∈ l.tail, h'.prev x = h.prev x) : h'.Chain l := by
  induction l with
  | nil => exact isChain_nil
  | cons a l ih =>
    cases l with
    | nil => exact chain_singleton h' a
    | cons b =>
      obtain ⟨⟨hab, hba⟩, hrest⟩ := isChain_cons_cons.mp hc
      have ha : h'.next a = h.next a := hnext a (by simp)
      have hb : h'.prev b = h.prev b := hprev b (by simp)
      refine isChain_cons_cons.mpr ⟨⟨ha.trans hab, hb.trans hba⟩, ih hrest ?_ ?_⟩
      · exact fun x hx => hnext x (by simp [hx])
      · exact fun x hx => hprev x (mem_cons_of_mem b hx)

/-- Exchanging the links of the nodes of a chain turns it around. -/
lemma Chain.reverse (hc : h.Chain l) (hnext : ∀ x ∈ l, h'.next x = h.prev x)
    (hprev : ∀ x ∈ l, h'.prev x = h.next x) : h'.Chain l.reverse := by
  refine isChain_reverse.mpr ?_
  induction l with
  | nil => exact isChain_nil
  | cons a l ih =>
    cases l with
    | nil => exact isChain_singleton a
    | cons b =>
      obtain ⟨⟨hab, hba⟩, hrest⟩ := isChain_cons_cons.mp hc
      refine isChain_cons_cons.mpr ⟨⟨?_, ?_⟩, ih hrest ?_ ?_⟩
      · exact (hnext b (by simp)).trans hba
      · exact (hprev a (by simp)).trans hab
      · exact fun x hx => hnext x (mem_cons_of_mem a hx)
      · exact fun x hx => hprev x (mem_cons_of_mem a hx)

variable [DecidableEq ν]

def setPrev (h : Links ν) (a : ν) (v : Option ν) : Links ν :=
  { h with prev := update h.prev a v }

def setNext (h : Links ν) (a : ν) (v : Option ν) : Links ν :=
  { h with next := update h.next a v }

@[simp] lemma setPrev_next (h : Links ν) (a : ν) (v : Option ν) :
    (h.setPrev a v).next = h.next := rfl

@[simp] lemma setNext_prev (h : Links ν) (a : ν) (v : Option ν) :
    (h.setNext a v).prev = h.prev := rfl

@[simp] lemma setPrev_prev (h : Links ν) (a : ν) (v : Option ν) :
    (h.setPrev a v).prev = update h.prev a v := rfl

@[simp] lemma setNext_next (h : Links ν) (a : ν) (v : Option ν) :
    (h.setNext a v).next = update h.next a v := rfl

/-- The heap in which `a` and `b` point at each other. -/
def join (h : Links ν) (a b : ν) : Links ν :=
  (h.setNext a (some b)).setPrev b (some a)

@[simp] lemma join_next (h : Links ν) (a b : ν) :
    (h.join a b).next = update h.next a (some b) := rfl

@[simp] lemma join_prev (h : Links ν) (a b : ν) :
    (h.join a b).prev = update h.prev b (some a) := rfl

lemma linked_join (h : Links ν) (a b : ν) : (h.join a b).Linked a b :=
  ⟨update_self .., update_self ..⟩

/-- A seam that a chain does not run across may be written. -/
lemma Chain.join (hc : h.Chain l) (ha : a ∉ l.dropLast) (hb : b ∉ l.tail) :
    (h.join a b).Chain l := by
  refine hc.congr (fun x hx => ?_) (fun x hx => ?_)
  · exact update_of_ne (ne_of_mem_of_not_mem hx ha) _ _
  · exact update_of_ne (ne_of_mem_of_not_mem hx hb) _ _

/-- Joining two chains makes one of them. -/
lemma Chain.glue (h1 : h.Chain (l₁ ++ [a])) (h2 : h.Chain (b :: l₂))
    (hnd : (l₁ ++ a :: b :: l₂).Nodup) : (h.join a b).Chain (l₁ ++ a :: b :: l₂) := by
  rw [append_cons] at hnd
  have hdisj := disjoint_of_nodup_append hnd
  have hend : a ∉ l₁ := by
    have := hnd.of_append_left
    rw [nodup_append] at this
    exact fun ha => this.2.2 a ha a (mem_singleton_self a) rfl
  have hbegin : b ∉ l₂ := (nodup_cons.mp hnd.of_append_right).1
  refine chain_append_cons_cons.mpr ⟨h1.join ?_ ?_, linked_join h a b, h2.join ?_ hbegin⟩
  · rwa [dropLast_concat]
  · exact fun hb => hdisj (mem_of_mem_tail hb) mem_cons_self
  · exact fun ha => hdisj (by simp) (dropLast_subset _ ha)

/-- A chain put between two others makes one of the three. -/
lemma Chain.glue_between {mid m1 m2 : List ν} {f e : ν} (h1 : h.Chain (l₁ ++ [a]))
    (hmid : h.Chain mid) (h2 : h.Chain (b :: l₂)) (hf : mid = f :: m1) (he : mid = m2 ++ [e])
    (hnd : (l₁ ++ a :: (mid ++ b :: l₂)).Nodup) :
    ((h.join a f).join e b).Chain (l₁ ++ a :: (mid ++ b :: l₂)) := by
  have hnd' : (l₁ ++ [a] ++ mid ++ b :: l₂).Nodup := by simpa using hnd
  have hdisj := disjoint_of_nodup_append hnd'
  -- first the seam before `mid`, which the chain after it does not run across
  have hleft : (h.join a f).Chain (l₁ ++ a :: mid) := by
    rw [hf] at hmid ⊢
    refine h1.glue hmid ?_
    have := hnd'.of_append_left
    simpa [hf] using this
  have hright : (h.join a f).Chain (b :: l₂) := by
    refine h2.join (fun ha => ?_) (fun hf' => ?_)
    · exact hdisj (by simp) (dropLast_subset _ ha)
    · exact hdisj (by simp [hf]) (mem_cons_of_mem b hf')
  have hsplit : l₁ ++ a :: mid = (l₁ ++ a :: m2) ++ [e] := by simp [he]
  rw [hsplit] at hleft
  have hall : l₁ ++ a :: (mid ++ b :: l₂) = (l₁ ++ a :: m2) ++ e :: b :: l₂ := by simp [he]
  rw [hall] at hnd ⊢
  exact hleft.glue hright hnd

end Links
end Pintos.Base
