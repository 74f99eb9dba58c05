import MeinOS.Malloc
import MeinOS.Memkernel

/-! The kernel's heap on top of its page tables.

Where no free block is large enough, `malloc` gets a page from `memkernel_alloc`: one page of the
stack of free pages, and another one if the kernel's area needs a new page table, an entry of that
area, and with `memuser_syncpds` a slot of the directory of every process. `llist_push` takes a
node from the heap, so all of this can come with any call that enters something in a list. -/
namespace MeinOS.KernelHeap
open Malloc Paging Memkernel

/-- `sizeof(struct llist_node)`. -/
def nodeSize : Nat := 8

section Growing
variable (procAll : List Nat) (current : Option Nat)

/-- `_malloc_getfree` for at most `rounds` rounds, with `memkernel_alloc` for `_malloc_getpage`. The
result begins with the pages that the heap has got. -/
def getfree (size : Nat) : Nat → Machine → Heap → Option (List Nat × Machine × Heap)
  | 0, _, _ => none
  | rounds + 1, s, h =>
    (findFree h.mem size (2 ^ 32) 0 h.firstfree).bind fun (last, cur) =>
      if cur = 0 then
        (memkernelAlloc procAll current 4096 s).bind fun (page, s) =>
          (mallocDonatemem h page 4096).bind fun h =>
            (getfree size rounds s h).map fun (pages, s, h) => (page :: pages, s, h)
      else some ([], s, takeBlock h size last cur)

/-- `malloc` in the kernel. Every round but the last takes a page, and there are fewer than 2^20. -/
def kernelMalloc (size : Nat) (s : Machine) (h : Heap) : Option (List Nat × Machine × Heap) :=
  getfree procAll current ((size + 12) % 2 ^ 32) (2 ^ 20) s h

end Growing

/-- The heap after blocks of these sizes have been taken from the free list alone. -/
def served : Heap → List Nat → Option Heap
  | h, [] => some h
  | h, size :: sizes => (malloc h size []).bind fun (_, h, _) => served h sizes

/-- A block from the free list takes no page. -/
theorem malloc_served (found : malloc h size [] = some (block, h', left)) :
    kernelMalloc procAll current size s h = some ([], s, h') := by
  obtain ⟨⟨cur, taken, rest⟩, free, same⟩ := Option.map_eq_some_iff.mp found
  cases same
  obtain ⟨⟨last, cur'⟩, place, free⟩ := Option.bind_eq_some_iff.mp free
  obtain ⟨real, free⟩ := Option.ite_none_left_eq_some.mp free
  cases free
  change (findFree _ _ _ _ _).bind _ = _
  rw [place]
  exact if_neg real

/-- A heap with one free page, at 0x700000. -/
def pageHeap : Heap := ⟨setSize (fun _ => 0) 0x700000 4096, 0x700000⟩

/-- The heap before its first page. -/
def bareHeap : Heap := ⟨fun _ => 0, 0⟩

end MeinOS.KernelHeap
