/-
# The hash table

`lib/kernel/hash.c`: a table with chaining, an array of `bucket_cnt` lists.  An element is the
object a `struct hash_elem` is embedded in, identified by its address; `hash` and `less` are the
functions of the table.  A bucket is the sequence of its elements: `find_elem` walks it from the
front, `insert_elem` pushes on the front and `remove_elem` unlinks a node.

`rehash` ends every update: it aims at one bucket for two elements, rounds down to a power of two by
turning off low bits, and moves every element into a new array; if `malloc` fails, which is an
argument, the table stays.  Counters are unbounded: an element takes eight bytes of a 32-bit memory,
so `elem_cnt` cannot wrap, and a bucket array whose byte size wraps (`bucket_cnt ≥ 2 ^ 28`) makes
`malloc (0)` fail.
-/

import Mathlib.Algebra.Group.Nat.Defs
import Mathlib.Data.List.Pairwise
import Mathlib.Data.Nat.Basic
import Pintos.Base.Buckets

namespace Pintos.Lib

open Base Function List

/-! ## The source -/

/-- `struct hash`, without the functions it was initialised with. -/
structure Hash (α : Type*) where
  elemCnt : ℕ
  bucketCnt : ℕ
  buckets : ℕ → List α

def turnOffLeast1bit (x : ℕ) : ℕ :=
  x &&& (x - 1)

def isPowerOf2 (x : ℕ) : Bool :=
  x ≠ 0 && turnOffLeast1bit x = 0

def BEST_ELEMS_PER_BUCKET : ℕ := 2

def powerLoop : ℕ → ℕ → ℕ
  | 0, n => n
  | fuel + 1, n => if !isPowerOf2 n then powerLoop fuel (turnOffLeast1bit n) else n

def newBucketCnt (elemCnt : ℕ) : ℕ :=
  let n := elemCnt / BEST_ELEMS_PER_BUCKET
  let n := if n < 4 then 4 else n
  powerLoop n n

section

variable {α : Type*} (hash : α → ℕ) (less : α → α → Bool)

def equal (a b : α) : Bool :=
  !less a b && !less b a

def Hash.pushFront (h : Hash α) (bucket : ℕ) (e : α) : Hash α :=
  { h with buckets := update h.buckets bucket (e :: h.buckets bucket) }

def findBucket (h : Hash α) (e : α) : ℕ :=
  hash e &&& (h.bucketCnt - 1)

def findElem (h : Hash α) (bucket : ℕ) (e : α) : Option α :=
  (h.buckets bucket).find? fun hi => !less hi e && !less e hi

def insertElem (h : Hash α) (bucket : ℕ) (e : α) : Hash α :=
  { h with elemCnt := h.elemCnt + 1 }.pushFront bucket e

def removeElem [DecidableEq α] (h : Hash α) (bucket : ℕ) (e : α) : Hash α :=
  { h with
    elemCnt := h.elemCnt - 1
    buckets := update h.buckets bucket ((h.buckets bucket).erase e) }

def moveAll (h : Hash α) (l : List α) : Hash α :=
  l.foldl (fun h elem => h.pushFront (findBucket hash h elem) elem) h

/-- Changes the number of buckets to the ideal, if `malloc` has room for the array. -/
def rehash (h : Hash α) (malloc : Bool) : Hash α :=
  let newCnt := newBucketCnt h.elemCnt
  if newCnt = h.bucketCnt then h
  else if malloc then
    -- the new buckets are installed empty, then each old bucket in turn is emptied into them
    (List.range h.bucketCnt).foldl (fun h' i => moveAll hash h' (h.buckets i))
      { h with bucketCnt := newCnt, buckets := fun _ => [] }
  else h

/-- Removes all elements; returns those the destructor is called for, in order. -/
def hashClear (h : Hash α) (destructor : Bool) : List α × Hash α :=
  (if destructor then Buckets.stored h.bucketCnt h.buckets else [],
    { h with
      elemCnt := 0
      buckets := fun i => if i < h.bucketCnt then [] else h.buckets i })

def hashInit (buckets : ℕ → List α) : Hash α :=
  (hashClear { elemCnt := 0, bucketCnt := 4, buckets } false).2

def hashInsert (h : Hash α) (new : α) (malloc : Bool) : Option α × Hash α :=
  let bucket := findBucket hash h new
  let old := findElem less h bucket new
  let h := if old.isNone then insertElem h bucket new else h
  (old, rehash hash h malloc)

def hashReplace [DecidableEq α] (h : Hash α) (new : α) (malloc : Bool) : Option α × Hash α :=
  let bucket := findBucket hash h new
  let old := findElem less h bucket new
  let h := match old with
    | some old => removeElem h bucket old
    | none => h
  (old, rehash hash (insertElem h bucket new) malloc)

def hashFind (h : Hash α) (e : α) : Option α :=
  findElem less h (findBucket hash h e) e

def hashDelete [DecidableEq α] (h : Hash α) (e : α) (malloc : Bool) : Option α × Hash α :=
  let bucket := findBucket hash h e
  match findElem less h bucket e with
  | some found => (some found, rehash hash (removeElem h bucket found) malloc)
  | none => (none, h)

end

/-- A call, with the fate of the `malloc` in its `rehash`. -/
inductive HashOp (α : Type*) where
  | insert (new : α) (malloc : Bool)
  | replace (new : α) (malloc : Bool)
  | delete (e : α) (malloc : Bool)
  | find (e : α)
  | clear (destructor : Bool)

section

variable {α : Type*} [DecidableEq α] (hash : α → ℕ) (less : α → α → Bool)

def Hash.exec (h : Hash α) : HashOp α → Option α × Hash α
  | .insert new malloc => hashInsert hash less h new malloc
  | .replace new malloc => hashReplace hash less h new malloc
  | .delete e malloc => hashDelete hash less h e malloc
  | .find e => (hashFind hash less h e, h)
  | .clear destructor => (none, (hashClear h destructor).2)

def Hash.run : List (HashOp α) → Hash α → List (Option α) × Hash α
  | [], h => ([], h)
  | op :: ops, h =>
    let (r, h) := h.exec hash less op
    let (rs, h) := Hash.run ops h
    (r :: rs, h)

end

/-! ## The finite map -/

/-- A finite map up to `equal`: it gives for `e` the element stored under its key. -/
abbrev ElemMap (α : Type*) := α → Option α

namespace ElemMap

variable {α : Type*} (less : α → α → Bool)

def set (m : ElemMap α) (x : α) (r : Option α) : ElemMap α :=
  fun e => if equal less x e then r else m e

/-- What a call returns and leaves: all but `clear` return what was stored under the key. -/
def exec (m : ElemMap α) : HashOp α → Option α × ElemMap α
  | .insert new _ => (m new, if (m new).isNone then m.set less new (some new) else m)
  | .replace new _ => (m new, m.set less new (some new))
  | .delete e _ => (m e, m.set less e none)
  | .find e => (m e, m)
  | .clear _ => (none, fun _ => none)

def run : List (HashOp α) → ElemMap α → List (Option α) × ElemMap α
  | [], m => ([], m)
  | op :: ops, m =>
    let (r, m) := m.exec less op
    let (rs, m) := run ops m
    (r :: rs, m)

end ElemMap

/-! ## Rounding down to a power of two -/

variable {x k : ℕ}

lemma isPowerOf2_iff : isPowerOf2 x = true ↔ x.isPowerOfTwo := by
  rw [← Nat.ne_zero_and_sub_one_eq_zero_iff_isPowerOfTwo, isPowerOf2, turnOffLeast1bit,
    Bool.and_eq_true, decide_eq_true_iff, decide_eq_true_iff]

lemma turnOffLeast1bit_lt (hx : x ≠ 0) : turnOffLeast1bit x < x := by
  have h : turnOffLeast1bit x ≤ x - 1 := Nat.and_le_right
  omega

lemma le_turnOffLeast1bit (hk : 2 ^ k ≤ x) (hp : ¬ x.isPowerOfTwo) :
    2 ^ k ≤ turnOffLeast1bit x := by
  have hx : x ≠ 0 := by have := Nat.one_le_two_pow (n := k); omega
  have hbit := Nat.and_sub_one_testBit_log2 hx hp
  have hlog : k ≤ x.log2 := (Nat.le_log2 hx).mpr hk
  have hpow : 2 ^ k ≤ 2 ^ x.log2 := Nat.pow_le_pow_right (by omega) hlog
  exact Nat.le_trans hpow (Nat.ge_two_pow_of_testBit hbit)

lemma powerLoop_spec {fuel n : ℕ} (hf : n ≤ fuel) (hk : 2 ^ k ≤ n) :
    (powerLoop fuel n).isPowerOfTwo ∧ 2 ^ k ≤ powerLoop fuel n := by
  have hpos := Nat.one_le_two_pow (n := k)
  induction fuel generalizing n with
  | zero => omega
  | succ _ ih =>
    unfold powerLoop
    by_cases hp : isPowerOf2 n = true
    · simp only [hp]
      exact ⟨isPowerOf2_iff.mp hp, hk⟩
    · simp only [hp]
      have hlt := turnOffLeast1bit_lt (x := n) (by omega)
      exact ih (by omega) (le_turnOffLeast1bit hk (isPowerOf2_iff.not.mp hp))

lemma newBucketCnt_spec (n : ℕ) : (newBucketCnt n).isPowerOfTwo ∧ 4 ≤ newBucketCnt n := by
  have h4 : 2 ^ 2 ≤ if n / BEST_ELEMS_PER_BUCKET < 4 then 4 else n / BEST_ELEMS_PER_BUCKET := by
    split <;> omega
  exact powerLoop_spec (Nat.le_refl _) h4

/-! ## Elements stored -/

section

variable {α : Type*} {hash : α → ℕ} {less : α → α → Bool} {h h' : Hash α} {m : ElemMap α}

/-- The functions of a table: `less` is a strict weak order, and equal elements hash equally. -/
structure HashLaws (hash : α → ℕ) (less : α → α → Bool) : Prop where
  irrefl : ∀ a, less a a = false
  trans : ∀ a b c, less a b = true → less b c = true → less a c = true
  incompTrans : ∀ a b c, equal less a b = true → equal less b c = true → equal less a c = true
  agree : ∀ a b, equal less a b = true → hash a = hash b

lemma HashLaws.equal_refl (laws : HashLaws hash less) (a : α) : equal less a a = true := by
  simp [equal, laws.irrefl]

lemma equal_symm {a b : α} (hab : equal less a b = true) : equal less b a = true := by
  rw [equal, Bool.and_eq_true] at hab ⊢
  exact hab.symm

lemma unequal_symm {a b : α} (hab : equal less a b = false) : equal less b a = false := by
  rw [equal, Bool.and_comm]
  exact hab

def Hash.stored (h : Hash α) : List α :=
  Buckets.stored h.bucketCnt h.buckets

structure Hash.Placed (hash : α → ℕ) (h : Hash α) : Prop where
  power : h.bucketCnt.isPowerOfTwo
  four : 4 ≤ h.bucketCnt
  place : ∀ i < h.bucketCnt, ∀ e ∈ h.buckets i, hash e &&& (h.bucketCnt - 1) = i

/-- **The invariant of a table.** -/
structure Hash.WellFormed (hash : α → ℕ) (less : α → α → Bool) (h : Hash α) : Prop
    extends Hash.Placed hash h where
  distinct : h.stored.Pairwise fun a b => equal less a b = false
  count : h.elemCnt = h.stored.length

def Hash.Agrees (less : α → α → Bool) (h : Hash α) (m : ElemMap α) : Prop :=
  ∀ e x, m e = some x ↔ x ∈ h.stored ∧ equal less x e = true

lemma Hash.Placed.findBucket_lt (hp : h.Placed hash) (e : α) :
    findBucket hash h e < h.bucketCnt := by
  have hle : findBucket hash h e ≤ h.bucketCnt - 1 := Nat.and_le_right
  have h4 := hp.four
  omega

lemma Hash.pushFront_buckets (h : Hash α) (i : ℕ) (e : α) :
    (h.pushFront i e).buckets = update h.buckets i (e :: h.buckets i) :=
  rfl

lemma Hash.Placed.pushFront (hp : h.Placed hash) (e : α) :
    (h.pushFront (findBucket hash h e) e).Placed hash := by
  refine ⟨hp.power, hp.four, fun i hi x hx => ?_⟩
  by_cases hb : i = findBucket hash h e
  · subst hb
    rw [Hash.pushFront_buckets, update_self] at hx
    rcases mem_cons.mp hx with rfl | hx
    · rfl
    · exact hp.place _ hi x hx
  · rw [Hash.pushFront_buckets, update_of_ne hb] at hx
    exact hp.place i hi x hx

lemma Hash.Placed.stored_pushFront (hp : h.Placed hash) (e : α) :
    (h.pushFront (findBucket hash h e) e).stored.Perm (e :: h.stored) :=
  Buckets.stored_push _ (hp.findBucket_lt e) e

lemma Hash.WellFormed.eq_of_equal (hw : h.WellFormed hash less) {x y : α} (hx : x ∈ h.stored)
    (hy : y ∈ h.stored) (hxy : equal less x y = true) : x = y := by
  by_contra hne
  have : Std.Symm fun a b : α => equal less a b = false := ⟨fun _ _ => unequal_symm⟩
  have hdiff := hw.distinct.forall hx hy hne
  rw [hxy] at hdiff
  exact nomatch hdiff

lemma mem_of_findElem {bucket : ℕ} {e x : α} (hf : findElem less h bucket e = some x) :
    x ∈ h.buckets bucket ∧ equal less x e = true := by
  unfold findElem at hf
  refine ⟨mem_of_find?_eq_some hf, ?_⟩
  have hequal := find?_some hf
  exact hequal

lemma Hash.WellFormed.hashFind_eq_some (laws : HashLaws hash less) (hw : h.WellFormed hash less)
    (e x : α) : hashFind hash less h e = some x ↔ x ∈ h.stored ∧ equal less x e = true := by
  constructor
  · intro hf
    obtain ⟨hx, hxe⟩ := mem_of_findElem hf
    exact ⟨Buckets.mem_stored.mpr ⟨_, hw.findBucket_lt e, hx⟩, hxe⟩
  · rintro ⟨hx, hxe⟩
    -- `x` is in the bucket that is searched, so the search succeeds, with an equal element
    obtain ⟨i, hi, hxi⟩ := Buckets.mem_stored.mp hx
    have hbucket : i = findBucket hash h e := by
      rw [← hw.place i hi x hxi, findBucket, laws.agree x e hxe]
    subst hbucket
    obtain ⟨y, hy⟩ : ∃ y, hashFind hash less h e = some y :=
      Option.isSome_iff_exists.mp (find?_isSome.mpr ⟨x, hxi, hxe⟩)
    obtain ⟨hyb, hye⟩ := mem_of_findElem hy
    have hys : y ∈ h.stored := Buckets.mem_stored.mpr ⟨_, hw.findBucket_lt e, hyb⟩
    rw [hy, hw.eq_of_equal hx hys (laws.incompTrans x e y hxe (equal_symm hye))]

lemma Hash.WellFormed.hashFind_eq (laws : HashLaws hash less) (hw : h.WellFormed hash less)
    (ha : h.Agrees less m) (e : α) : hashFind hash less h e = m e := by
  apply Option.ext
  intro x
  rw [hw.hashFind_eq_some laws, ha e x]

/-! ## Rehashing -/

lemma moveAll_spec (hp : h.Placed hash) (l : List α) :
    (moveAll hash h l).Placed hash ∧ (moveAll hash h l).stored.Perm (l ++ h.stored) ∧
      (moveAll hash h l).elemCnt = h.elemCnt := by
  induction l generalizing h with
  | nil => exact ⟨hp, List.Perm.refl _, rfl⟩
  | cons e l ih =>
    obtain ⟨hp', hperm, hcnt⟩ := ih (hp.pushFront e)
    refine ⟨hp', hperm.trans ?_, hcnt⟩
    exact ((hp.stored_pushFront e).append_left l).trans perm_middle

lemma rehash_spec (hp : h.Placed hash) (malloc : Bool) :
    (rehash hash h malloc).Placed hash ∧ (rehash hash h malloc).stored.Perm h.stored ∧
      (rehash hash h malloc).elemCnt = h.elemCnt := by
  unfold rehash
  by_cases hsame : newBucketCnt h.elemCnt = h.bucketCnt
  · simp only [hsame]
    exact ⟨hp, List.Perm.refl _, rfl⟩
  cases malloc with
  | false =>
    simp only [hsame]
    exact ⟨hp, List.Perm.refl _, rfl⟩
  | true =>
    simp only [hsame]
    obtain ⟨hpow, hfour⟩ := newBucketCnt_spec h.elemCnt
    -- the induction is on the number of old buckets that have been emptied
    have hloop : ∀ k, ∀ t, t = (List.range k).foldl (fun h' i => moveAll hash h' (h.buckets i))
        { h with bucketCnt := newBucketCnt h.elemCnt, buckets := fun _ => [] } →
        t.Placed hash ∧ t.stored.Perm (Buckets.stored k h.buckets) ∧ t.elemCnt = h.elemCnt := by
      intro k
      induction k with
      | zero =>
        rintro t rfl
        refine ⟨⟨hpow, hfour, fun i _ e he => ?_⟩, ?_, rfl⟩
        · exact nomatch he
        · exact List.Perm.of_eq (Buckets.stored_empty _)
      | succ k ih =>
        rintro t rfl
        obtain ⟨hpk, hperm, hcnt⟩ := ih _ rfl
        obtain ⟨hp', hperm', hcnt'⟩ := moveAll_spec hpk (h.buckets k)
        rw [range_succ, foldl_append, Buckets.stored_succ]
        refine ⟨hp', ?_, hcnt'.trans hcnt⟩
        exact hperm'.trans ((hperm.append_left _).trans perm_append_comm)
    exact hloop h.bucketCnt _ rfl

/-! ## The refinement -/

structure Hash.Refines (hash : α → ℕ) (less : α → α → Bool) (h : Hash α) (m : ElemMap α) : Prop
    extends Hash.WellFormed hash less h where
  agrees : h.Agrees less m

lemma Hash.Refines.of_perm (hr : h.Refines hash less m) (hp : h'.Placed hash)
    (hperm : h'.stored.Perm h.stored) (hcnt : h'.elemCnt = h.elemCnt) :
    h'.Refines hash less m := by
  refine ⟨⟨hp, ?_, ?_⟩, fun e x => ?_⟩
  · refine hperm.symm.pairwise hr.distinct unequal_symm
  · rw [hcnt, hr.count, hperm.length_eq]
  · rw [hr.agrees e x, hperm.mem_iff]

lemma Hash.Refines.rehash (hr : h.Refines hash less m) (malloc : Bool) :
    (rehash hash h malloc).Refines hash less m := by
  obtain ⟨hp, hperm, hcnt⟩ := rehash_spec hr.toPlaced malloc
  exact hr.of_perm hp hperm hcnt

lemma Hash.Refines.insertElem (laws : HashLaws hash less) (hr : h.Refines hash less m) {new : α}
    (hfree : m new = none) :
    (insertElem h (findBucket hash h new) new).Refines hash less (m.set less new (some new)) := by
  have hnone : ∀ x ∈ h.stored, equal less new x = false := by
    intro x hx
    by_contra heq
    have hsome := (hr.agrees new x).mpr ⟨hx, equal_symm (Bool.not_eq_false _ ▸ heq)⟩
    rw [hfree] at hsome
    exact nomatch hsome
  have hp : ({ h with elemCnt := h.elemCnt + 1 } : Hash α).Placed hash := { hr with }
  have hperm := hp.stored_pushFront new
  refine ⟨⟨hp.pushFront new, ?_, ?_⟩, fun e x => ?_⟩
  · refine hperm.symm.pairwise (pairwise_cons.mpr ⟨hnone, hr.distinct⟩) unequal_symm
  · have hlen := hperm.length_eq
    rw [length_cons] at hlen
    exact (congrArg (· + 1) hr.count).trans hlen.symm
  · have hmem : x ∈ (Lib.insertElem h (findBucket hash h new) new).stored ↔ x = new ∨
      x ∈ h.stored :=
      hperm.mem_iff.trans mem_cons
    rw [hmem, ElemMap.set]
    by_cases heq : equal less new e = true
    · rw [if_pos heq]
      constructor
      · intro hx
        cases hx
        exact ⟨.inl rfl, heq⟩
      · rintro ⟨rfl | hx, hxe⟩
        · rfl
        · have hnx := laws.incompTrans new e x heq (equal_symm hxe)
          rw [hnone x hx] at hnx
          exact nomatch hnx
    · rw [if_neg heq, hr.agrees e x]
      constructor
      · exact fun hx => ⟨.inr hx.1, hx.2⟩
      · rintro ⟨rfl | hx, hxe⟩
        · exact absurd hxe heq
        · exact ⟨hx, hxe⟩

lemma removeElem_buckets [DecidableEq α] (h : Hash α) (i : ℕ) (e : α) :
    (Lib.removeElem h i e).buckets = update h.buckets i ((h.buckets i).erase e) :=
  rfl

lemma Hash.Refines.removeElem [DecidableEq α] (laws : HashLaws hash less)
    (hr : h.Refines hash less m) {e found : α} (hfound : m e = some found) :
    (removeElem h (findBucket hash h e) found).Refines hash less (m.set less e none) := by
  obtain ⟨hmem, hequal⟩ := (hr.agrees e found).mp hfound
  obtain ⟨i, hi, hfi⟩ := Buckets.mem_stored.mp hmem
  have hbucket : i = findBucket hash h e := by
    rw [← hr.place i hi found hfi, findBucket, laws.agree found e hequal]
  subst hbucket
  have hperm := Buckets.stored_erase h.buckets hi hfi
  have hdist := hperm.pairwise hr.distinct unequal_symm
  obtain ⟨hother, hdistinct⟩ := pairwise_cons.mp hdist
  refine ⟨⟨⟨hr.power, hr.four, fun i hi x hx => ?_⟩, hdistinct, ?_⟩, fun e' x => ?_⟩
  · by_cases hb : i = findBucket hash h e
    · subst hb
      rw [removeElem_buckets, update_self] at hx
      exact hr.place _ hi x (mem_of_mem_erase hx)
    · rw [removeElem_buckets, update_of_ne hb] at hx
      exact hr.place i hi x hx
  · have hlen := hperm.length_eq
    rw [length_cons] at hlen
    have hcnt : h.elemCnt = _ := hr.count.trans hlen
    exact congrArg (· - 1) hcnt
  · have hstored : x ∈ h.stored ↔
        x = found ∨ x ∈ (Lib.removeElem h (findBucket hash h e) found).stored :=
      hperm.mem_iff.trans mem_cons
    rw [ElemMap.set]
    by_cases heq : equal less e e' = true
    · rw [if_pos heq]
      refine ⟨nofun, fun ⟨hx, hxe⟩ => ?_⟩
      have hfx := laws.incompTrans found e x hequal (laws.incompTrans e e' x heq (equal_symm hxe))
      rw [hother x hx] at hfx
      exact nomatch hfx
    · rw [if_neg heq, hr.agrees e' x, hstored]
      constructor
      · rintro ⟨rfl | hx, hxe⟩
        · exact absurd (laws.incompTrans e x e' (equal_symm hequal) hxe) heq
        · exact ⟨hx, hxe⟩
      · exact fun hx => ⟨.inr hx.1, hx.2⟩

lemma hashClear_refines (hpow : h.bucketCnt.isPowerOfTwo) (hfour : 4 ≤ h.bucketCnt)
    (destructor : Bool) : (hashClear h destructor).2.Refines hash less fun _ => none := by
  have hempty : (hashClear h destructor).2.stored = [] := by
    refine (Buckets.stored_congr fun i hi => ?_).trans (Buckets.stored_empty h.bucketCnt)
    exact if_pos hi
  refine ⟨⟨⟨hpow, hfour, fun i hi e he => ?_⟩, ?_, ?_⟩, fun e x => ?_⟩
  · rw [show (hashClear h destructor).2.buckets i = [] from if_pos hi] at he
    exact nomatch he
  · rw [hempty]
    exact List.Pairwise.nil
  · rw [hempty]
    rfl
  · rw [hempty]
    exact ⟨nofun, fun hx => (nomatch hx.1)⟩

lemma hashInit_refines (buckets : ℕ → List α) :
    (hashInit buckets).Refines hash less fun _ => none :=
  hashClear_refines ⟨2, rfl⟩ (Nat.le_refl 4) false

lemma ElemMap.set_set (m : ElemMap α) (x : α) (r r' : Option α) :
    (m.set less x r).set less x r' = m.set less x r' := by
  funext e
  by_cases heq : equal less x e = true <;> simp [ElemMap.set, heq]

variable [DecidableEq α]

/-- **One call** returns what the map returns and keeps the refinement. -/
theorem Hash.Refines.exec (laws : HashLaws hash less) (hr : h.Refines hash less m) (op : HashOp α) :
    (h.exec hash less op).1 = (m.exec less op).1 ∧
      (h.exec hash less op).2.Refines hash less (m.exec less op).2 := by
  have hfind := hr.hashFind_eq laws hr.agrees
  cases op with
  | insert new malloc =>
    have hold : findElem less h (findBucket hash h new) new = m new := hfind new
    simp only [Hash.exec, hashInsert, ElemMap.exec, hold]
    refine ⟨trivial, Hash.Refines.rehash ?_ malloc⟩
    cases hm : m new with
    | none => exact hr.insertElem laws hm
    | some => exact hr
  | replace new malloc =>
    have hold : findElem less h (findBucket hash h new) new = m new := hfind new
    simp only [Hash.exec, hashReplace, ElemMap.exec, hold]
    refine ⟨trivial, Hash.Refines.rehash ?_ malloc⟩
    cases hm : m new with
    | none => exact hr.insertElem laws hm
    | some =>
      have hremoved := hr.removeElem laws hm
      have hfree : (m.set less new none) new = none := if_pos (laws.equal_refl new)
      have hinserted := hremoved.insertElem laws hfree
      rwa [ElemMap.set_set] at hinserted
  | delete e malloc =>
    have hold : findElem less h (findBucket hash h e) e = m e := hfind e
    simp only [Hash.exec, hashDelete, ElemMap.exec, hold]
    cases hm : m e with
    | none =>
      refine ⟨rfl, ⟨hr.toWellFormed, fun e' x => ?_⟩⟩
      rw [ElemMap.set]
      by_cases heq : equal less e e' = true
      · rw [if_pos heq]
        refine ⟨nofun, fun ⟨hx, hxe⟩ => ?_⟩
        have hxe' := laws.incompTrans x e' e hxe (equal_symm heq)
        rw [(hr.agrees e x).mpr ⟨hx, hxe'⟩] at hm
        exact nomatch hm
      · rw [if_neg heq]
        exact hr.agrees e' x
    | some => exact ⟨rfl, (hr.removeElem laws hm).rehash malloc⟩
  | find e => exact ⟨hfind e, hr⟩
  | clear destructor => exact ⟨rfl, hashClear_refines hr.power hr.four destructor⟩

lemma Hash.Refines.run (laws : HashLaws hash less) (hr : h.Refines hash less m)
    (ops : List (HashOp α)) :
    (h.run hash less ops).1 = (m.run less ops).1 ∧
      (h.run hash less ops).2.Refines hash less (m.run less ops).2 := by
  induction ops generalizing h m with
  | nil => exact ⟨rfl, hr⟩
  | cons op _ ih =>
    obtain ⟨hres, hr'⟩ := hr.exec laws op
    obtain ⟨hres', hr''⟩ := ih hr'
    refine ⟨?_, hr''⟩
    exact congrArg₂ List.cons hres hres'

/-- **The hash table refines a finite map**, with the allocations of `rehash` failing anywhere. -/
theorem run_refines (laws : HashLaws hash less) (buckets : ℕ → List α) (ops : List (HashOp α)) :
    ((hashInit buckets).run hash less ops).1 = (ElemMap.run less ops fun _ => none).1 ∧
      (∀ e, hashFind hash less ((hashInit buckets).run hash less ops).2 e =
        (ElemMap.run less ops fun _ => none).2 e) ∧
      ((hashInit buckets).run hash less ops).2.WellFormed hash less := by
  obtain ⟨hres, hr⟩ := (hashInit_refines buckets).run laws ops
  exact ⟨hres, hr.hashFind_eq laws hr.agrees, hr.toWellFormed⟩

end

theorem run_refines_nat : HashLaws (fun n : ℕ => n) (fun a b => decide (a < b)) ∧
      ((hashInit fun _ => []).run (fun n : ℕ => n) (fun a b => decide (a < b))
        [.insert 9 true, .insert 9 false, .delete 9 true, .find 9]).1 =
        [none, some 9, some 9, none] := by
  have laws : HashLaws (fun n : ℕ => n) (fun a b => decide (a < b)) := by
    refine ⟨fun a => ?_, fun a b c => ?_, fun a b c => ?_, fun a b => ?_⟩ <;>
      simp only [equal, Bool.and_eq_true, Bool.not_eq_true', decide_eq_true_iff,
        decide_eq_false_iff_not] <;> omega
  refine ⟨laws, ?_⟩
  rw [(run_refines laws (fun _ => []) [.insert 9 true, .insert 9 false, .delete 9 true, .find 9]).1]
  rfl

end Pintos.Lib
