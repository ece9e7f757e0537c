/-
# Linked lists

`lib/kernel/list.c`.  A `struct list` is two header elements, before its first and after its last
element; a `struct list_elem` is a pair of links.  The heap gives the links of every address, and
dereferencing a null pointer halts the machine.

A call names the lists of a family by an index (`ListOp`).  The loop of `list_reverse` and the
forward traversal take a bound on their rounds.
-/

import Pintos.Base.Kernel
import Pintos.Base.Links

namespace Pintos.Lib.LinkedList

open Base

abbrev ElemPtr := Option ℕ

abbrev ListHeap := Links ℕ

/-- `struct list`: the addresses of its two headers. -/
structure ListHeader where
  head : ℕ
  tail : ℕ
deriving DecidableEq, Repr

def load (field : ℕ → ElemPtr) : ElemPtr → Kernel ElemPtr
  | some a => .ok (field a)
  | none => PANIC "null pointer dereference"

def storePrev (h : ListHeap) (elem v : ElemPtr) : Kernel ListHeap :=
  match elem with
  | some a => .ok (h.setPrev a v)
  | none => PANIC "null pointer dereference"

def storeNext (h : ListHeap) (elem v : ElemPtr) : Kernel ListHeap :=
  match elem with
  | some a => .ok (h.setNext a v)
  | none => PANIC "null pointer dereference"

def isHead (h : ListHeap) : ElemPtr → Bool
  | none => false
  | some a => h.prev a = none && h.next a ≠ none

def isInterior (h : ListHeap) : ElemPtr → Bool
  | none => false
  | some a => h.prev a ≠ none && h.next a ≠ none

def isTail (h : ListHeap) : ElemPtr → Bool
  | none => false
  | some a => h.prev a ≠ none && h.next a = none

def listInit (h : ListHeap) (list : ListHeader) : ListHeap :=
  let h := h.setPrev list.head none
  let h := h.setNext list.head (some list.tail)
  let h := h.setPrev list.tail (some list.head)
  h.setNext list.tail none

def listBegin (h : ListHeap) (list : ListHeader) : ElemPtr :=
  h.next list.head

def listEnd (list : ListHeader) : ElemPtr :=
  some list.tail

def listNext (h : ListHeap) (elem : ElemPtr) : Kernel ElemPtr := do
  ASSERT (isHead h elem || isInterior h elem)
  load h.next elem

def listPrev (h : ListHeap) (elem : ElemPtr) : Kernel ElemPtr := do
  ASSERT (isInterior h elem || isTail h elem)
  load h.prev elem

def listEmpty (h : ListHeap) (list : ListHeader) : Bool :=
  listBegin h list = listEnd list

def listInsert (h : ListHeap) (before elem : ElemPtr) : Kernel ListHeap := do
  ASSERT (isInterior h before || isTail h before)
  ASSERT (elem ≠ none)
  let h ← storePrev h elem (← load h.prev before)
  let h ← storeNext h elem before
  let h ← storeNext h (← load h.prev before) elem
  storePrev h before elem

def listSplice (h : ListHeap) (before first last : ElemPtr) : Kernel ListHeap := do
  ASSERT (isInterior h before || isTail h before)
  if first = last then
    return h
  let last ← listPrev h last
  ASSERT (isInterior h first)
  ASSERT (isInterior h last)
  let h ← storeNext h (← load h.prev first) (← load h.next last)
  let h ← storePrev h (← load h.next last) (← load h.prev first)
  let h ← storePrev h first (← load h.prev before)
  let h ← storeNext h last before
  let h ← storeNext h (← load h.prev before) first
  storePrev h before last

def listPushFront (h : ListHeap) (list : ListHeader) (elem : ElemPtr) : Kernel ListHeap :=
  listInsert h (listBegin h list) elem

def listPushBack (h : ListHeap) (list : ListHeader) (elem : ElemPtr) : Kernel ListHeap :=
  listInsert h (listEnd list) elem

def listRemove (h : ListHeap) (elem : ElemPtr) : Kernel (ElemPtr × ListHeap) := do
  ASSERT (isInterior h elem)
  let h ← storeNext h (← load h.prev elem) (← load h.next elem)
  let h ← storePrev h (← load h.next elem) (← load h.prev elem)
  return (← load h.next elem, h)

def listFront (h : ListHeap) (list : ListHeader) : Kernel ElemPtr := do
  ASSERT (!listEmpty h list)
  return h.next list.head

def listBack (h : ListHeap) (list : ListHeader) : Kernel ElemPtr := do
  ASSERT (!listEmpty h list)
  return h.prev list.tail

def listPopFront (h : ListHeap) (list : ListHeader) : Kernel (ElemPtr × ListHeap) := do
  let front ← listFront h list
  let (_, h) ← listRemove h front
  return (front, h)

def listPopBack (h : ListHeap) (list : ListHeader) : Kernel (ElemPtr × ListHeap) := do
  let back ← listBack h list
  let (_, h) ← listRemove h back
  return (back, h)

/-- The loop of `list_reverse`: exchanges links and goes on to the old `next`. -/
def reverseLoop (list : ListHeader) : ℕ → ListHeap → ElemPtr → Kernel ListHeap
  | 0, _, _ => PANIC "out of fuel"
  | fuel + 1, h, e =>
    if e = listEnd list then .ok h
    else do
      let prev ← load h.prev e
      let next ← load h.next e
      let h ← storePrev h e next
      let h ← storeNext h e prev
      reverseLoop list fuel h (← load h.prev e)

def listReverse (fuel : ℕ) (h : ListHeap) (list : ListHeader) : Kernel ListHeap :=
  if listEmpty h list then .ok h
  else do
    let h ← reverseLoop list fuel h (listBegin h list)
    -- `swap (&list->head.next, &list->tail.prev)`
    let first := h.next list.head
    let last := h.prev list.tail
    let h := h.setNext list.head last
    let h := h.setPrev list.tail first
    -- `swap (&list->head.next->prev, &list->tail.prev->next)`
    let a ← load h.prev (h.next list.head)
    let b ← load h.next (h.prev list.tail)
    let h ← storePrev h (h.next list.head) b
    storeNext h (h.prev list.tail) a

/-- The elements visited from `list_begin` to `list_end`, for at most `fuel` rounds. -/
def forwardFrom (h : ListHeap) (list : ListHeader) : ℕ → ElemPtr → Kernel (List ℕ)
  | 0, _ => PANIC "out of fuel"
  | fuel + 1, e =>
    if e = listEnd list then .ok []
    else do
      let rest ← forwardFrom h list fuel (← listNext h e)
      return e.toList ++ rest

def forward (fuel : ℕ) (h : ListHeap) (list : ListHeader) : Kernel (List ℕ) :=
  forwardFrom h list fuel (listBegin h list)

/-- A call of one of the functions; `list`s are named by an index. -/
inductive ListOp (ι : Type) where
  | insert (before elem : ℕ)
  | pushFront (list : ι) (elem : ℕ)
  | pushBack (list : ι) (elem : ℕ)
  | remove (elem : ℕ)
  | popFront (list : ι)
  | popBack (list : ι)
  | splice (before first last : ℕ)
  | reverse (list : ι)

variable {ι : Type} (L : ι → ListHeader)

def ListOp.exec (fuel : ℕ) (h : ListHeap) : ListOp ι → Kernel (ElemPtr × ListHeap)
  | .insert before elem => (none, ·) <$> listInsert h (some before) (some elem)
  | .pushFront list elem => (none, ·) <$> listPushFront h (L list) (some elem)
  | .pushBack list elem => (none, ·) <$> listPushBack h (L list) (some elem)
  | .remove elem => listRemove h (some elem)
  | .popFront list => listPopFront h (L list)
  | .popBack list => listPopBack h (L list)
  | .splice before first last => (none, ·) <$> listSplice h (some before) (some first) (some last)
  | .reverse list => (none, ·) <$> listReverse fuel h (L list)

def execAll (fuel : ℕ) : ListHeap → List (ListOp ι) → Kernel (List ElemPtr × ListHeap)
  | h, [] => .ok ([], h)
  | h, op :: ops => do
    let (r, h) ← op.exec L fuel h
    let (rs, h) ← execAll fuel h ops
    return (r :: rs, h)

end Pintos.Lib.LinkedList
