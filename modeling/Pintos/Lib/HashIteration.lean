/-
# Iterating over a hash table

`hash_first`, `hash_next` and `hash_apply` of `lib/kernel/hash.c` on the links of the buckets.  A
hash element has the address of its list element.  The iterator starts at the head of the first
bucket, and goes on to the next bucket at the tail of one.
-/

import Pintos.Lib.Hash
import Pintos.Lib.ListSequences

namespace Pintos.Lib

open Base Kernel LinkedList List ListHeader

/-- `struct hash_iterator`, with the index of the bucket. -/
structure HashIterator where
  bucket : ℕ
  elem : ElemPtr

section

variable (heap : ListHeap) (buckets : ℕ → ListHeader) (bucketCnt : ℕ)

def hashFirst : HashIterator := ⟨0, some (buckets 0).head⟩

def hashNextLoop : ℕ → HashIterator → Kernel HashIterator
  | 0, _ => PANIC "out of fuel"
  | fuel + 1, i =>
    if i.elem = listEnd (buckets i.bucket) then
      let bucket := i.bucket + 1
      if bucketCnt ≤ bucket then return ⟨bucket, none⟩
      else hashNextLoop fuel ⟨bucket, listBegin heap (buckets bucket)⟩
    else return i

def hashNext (i : HashIterator) : Kernel HashIterator := do
  let elem ← listNext heap i.elem
  hashNextLoop heap buckets bucketCnt (bucketCnt + 1) { i with elem }

/-- What `hash_cur` returns in the rounds of `while (hash_next (&i))`. -/
def hashVisit : ℕ → HashIterator → Kernel (List ℕ)
  | 0, _ => PANIC "out of fuel"
  | fuel + 1, i => do
    let i ← hashNext heap buckets bucketCnt i
    match i.elem with
    | none => return []
    | some e => return e :: (← hashVisit fuel i)

/-- The elements that `hash_apply` calls its action for. -/
def hashApply (fuel : ℕ) : Kernel (List ℕ) :=
  forLoop bucketCnt (fun calls i => do return calls ++ (← forward fuel heap (buckets i))) []

end

variable {heap : ListHeap} {buckets : ℕ → ListHeader} {h : Hash ℕ} {i : HashIterator}
  {rest : List ℕ}

abbrev Hash.Linked (h : Hash ℕ) (heap : ListHeap) (buckets : ℕ → ListHeader) : Prop :=
  LinkedList.WellFormed (fun i : Fin h.bucketCnt => buckets i) heap fun i => h.buckets i

def Hash.behind (h : Hash ℕ) (b : ℕ) : List ℕ :=
  (range' (b + 1) (h.bucketCnt - (b + 1))).flatMap h.buckets

/-- The iterator is in front of the elements `rest`. -/
def Hash.Before (h : Hash ℕ) (buckets : ℕ → ListHeader) (i : HashIterator) (rest : List ℕ) : Prop :=
  ∃ xs ys, i.bucket < h.bucketCnt ∧ h.buckets i.bucket = xs ++ ys ∧
    i.elem = some ((buckets i.bucket).before xs) ∧ rest = ys ++ h.behind i.bucket

lemma Hash.behind_of_lt {b : ℕ} (hb : b + 1 < h.bucketCnt) :
    h.behind b = h.buckets (b + 1) ++ h.behind (b + 1) := by
  have hcnt : h.bucketCnt - (b + 1) = h.bucketCnt - (b + 1 + 1) + 1 := by omega
  rw [behind, hcnt, range'_succ, flatMap_cons]
  rfl

lemma Hash.behind_of_le {b : ℕ} (hb : h.bucketCnt ≤ b + 1) : h.behind b = [] := by
  rw [behind, Nat.sub_eq_zero_of_le hb]
  rfl

lemma hashNextLoop_spec (hl : h.Linked heap buckets) {fuel b : ℕ} (hb : b < h.bucketCnt)
    {xs ys : List ℕ} (hxs : h.buckets b = xs ++ ys) (hfuel : h.bucketCnt < b + fuel) :
    ∃ i, hashNextLoop heap buckets h.bucketCnt fuel ⟨b, some ((buckets b).at ys)⟩ = .ok i ∧
      i.elem = (ys ++ h.behind b).head? ∧
      (i.elem ≠ none → h.Before buckets i (ys ++ h.behind b).tail) := by
  induction fuel generalizing b xs ys with
  | zero => omega
  | succ fuel ih =>
    cases ys with
    | cons y ys =>
      have hy : some y ≠ listEnd (buckets b) := by
        intro heq
        have hnd := hl.nodup ⟨b, hb⟩
        injection heq with heq
        simp [nodes, hxs, ← heq, nodup_append] at hnd
      refine ⟨⟨b, some y⟩, if_neg hy, rfl, fun _ => ⟨xs ++ [y], ys, hb, ?_, ?_, rfl⟩⟩
      · simp [hxs]
      · simp [before]
    | nil =>
      have hend : some ((buckets b).at []) = listEnd (buckets b) := rfl
      simp only [hashNextLoop, hend, if_true]
      split_ifs with hlast
      · rw [Hash.behind_of_le hlast]
        exact ⟨_, rfl, rfl, fun hne => absurd rfl hne⟩
      · -- the head of the next bucket points to its first element, or to its tail
        have hlt : b + 1 < h.bucketCnt := by omega
        have hbegin : listBegin heap (buckets (b + 1)) = _ :=
          (hl.linked (i := ⟨b + 1, hlt⟩) (nil_append (h.buckets (b + 1))).symm).1
        rw [Hash.behind_of_lt hlt, hbegin]
        exact ih hlt (nil_append _).symm (by omega)

lemma hashNext_spec (hl : h.Linked heap buckets) (hi : h.Before buckets i rest) :
    ∃ i', hashNext heap buckets h.bucketCnt i = .ok i' ∧ i'.elem = rest.head? ∧
      (i'.elem ≠ none → h.Before buckets i' rest.tail) := by
  obtain ⟨xs, ys, hb, hxs, helem, rfl⟩ := hi
  have hnext := (hl.linked (i := ⟨_, hb⟩) hxs).1
  rw [hashNext, helem, listNext, ASSERT_of (isHead_or_isInterior hnext), ok_bind, load_some, hnext,
    ok_bind]
  exact hashNextLoop_spec hl hb hxs (by omega)

lemma hashVisit_eq (hl : h.Linked heap buckets) {fuel : ℕ} (hi : h.Before buckets i rest)
    (hfuel : rest.length < fuel) : hashVisit heap buckets h.bucketCnt fuel i = .ok rest := by
  induction fuel generalizing i rest with
  | zero => omega
  | succ fuel ih =>
    obtain ⟨i', hnext, helem, hi'⟩ := hashNext_spec hl hi
    rw [hashVisit, hnext, ok_bind, helem]
    cases rest with
    | nil => rfl
    | cons e rest =>
      have hrest := ih (hi' (by simp [helem])) (Nat.lt_of_succ_lt_succ hfuel)
      exact hrest ▸ rfl

lemma hashApply_eq (hl : h.Linked heap buckets) {fuel : ℕ}
    (hfuel : ∀ b < h.bucketCnt, (h.buckets b).length < fuel) :
    hashApply heap buckets h.bucketCnt fuel = .ok h.stored := by
  have hround : ∀ b calls, b < h.bucketCnt → calls = Buckets.stored b h.buckets →
      ∃ calls', (do return calls ++ (← forward fuel heap (buckets b))) = Except.ok calls' ∧
        calls' = Buckets.stored (b + 1) h.buckets := by
    rintro b _ hb rfl
    rw [hl.forward_eq ⟨b, hb⟩ (hfuel b hb)]
    exact ⟨_, rfl, by simp [Buckets.stored, range_succ]⟩
  obtain ⟨_, hcalls, rfl⟩ :=
    forLoop_ok (fun n calls => calls = Buckets.stored n h.buckets) rfl hround
  exact hcalls

lemma Hash.Linked.nodup_stored (hl : h.Linked heap buckets) : h.stored.Nodup := by
  refine nodup_flatMap.mpr ⟨fun b hb => ?_, ?_⟩
  · have hnd := hl.nodup ⟨b, mem_range.mp hb⟩
    exact ((nodup_append.mp hnd).1).of_cons
  · refine pairwise_lt_range.imp_of_mem fun {a b} ha hb hlt x hxa hxb => ?_
    refine hl.disjoint ⟨a, mem_range.mp ha⟩ ⟨b, mem_range.mp hb⟩ ?_
      (show x ∈ nodes _ (h.buckets a) by simp [nodes, hxa])
      (show x ∈ nodes _ (h.buckets b) by simp [nodes, hxb])
    simp [hlt.ne]

/-- **Iteration over a hash table** ends and returns each element once; `hash_apply` acts once on
each. -/
theorem hash_iteration (hash : ℕ → ℕ) (hp : h.Placed hash) (hl : h.Linked heap buckets) :
    h.stored.Nodup ∧ ∃ n, ∀ fuel ≥ n,
      hashVisit heap buckets h.bucketCnt fuel (hashFirst buckets) = .ok h.stored ∧
      hashApply heap buckets h.bucketCnt fuel = .ok h.stored := by
  have hpos : 0 < h.bucketCnt := by have := hp.four; omega
  have hfirst : h.Before buckets (hashFirst buckets) h.stored := by
    obtain ⟨n, hn⟩ := Nat.exists_eq_add_of_lt hpos
    refine ⟨[], h.buckets 0, hpos, rfl, rfl, ?_⟩
    simp [Hash.stored, Buckets.stored, Hash.behind, hashFirst, hn, range_eq_range', range'_succ]
  refine ⟨hl.nodup_stored, h.stored.length + 1, fun fuel hfuel =>
    ⟨hashVisit_eq hl hfirst hfuel, hashApply_eq hl fun b hb => ?_⟩⟩
  have hle : (h.buckets b).length ≤ h.stored.length :=
    (sublist_flatten_of_mem (mem_map_of_mem (mem_range.mpr hb))).length_le
  omega

/-- A table with two elements, in bucket 1 of 4; bucket `i` is at `2 * i`. -/
theorem hash_iteration_two :
    ∃ n, ∀ fuel ≥ n,
      let next : ℕ → Option ℕ := fun x => if x = 2 then some 9 else if x = 9 then some 11
        else if x = 11 then some 3 else if x % 2 = 0 then some (x + 1) else none
      let prev : ℕ → Option ℕ := fun x => if x = 3 then some 11 else if x = 11 then some 9
        else if x = 9 then some 2 else if x % 2 = 1 then some (x - 1) else none
      hashVisit ⟨prev, next⟩ (fun i => ⟨2 * i, 2 * i + 1⟩) 4 fuel ⟨0, some 0⟩ = .ok [9, 11] ∧
        hashApply ⟨prev, next⟩ (fun i => ⟨2 * i, 2 * i + 1⟩) 4 fuel = .ok [9, 11] :=
  (hash_iteration (h := ⟨2, 4, fun i => if i = 1 then [9, 11] else []⟩) (fun _ => 1)
    ⟨⟨2, rfl⟩, le_rfl, by decide⟩
    ⟨by decide, by simp only [disjoint_left]; decide,
      by simp [Fin.forall_fin_succ, Links.Chain, Links.Linked, nodes], by decide, by decide⟩).2

end Pintos.Lib
