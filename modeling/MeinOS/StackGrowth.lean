import MeinOS.AddrspaceBooks
import MeinOS.MemuserHeap
import MeinOS.PagingCost

/-! Page faults below the stack.

A fault anywhere below the stack makes it one page larger at its bottom, wherever the address
lies, so an access far below the stack faults again until the stack has reached it. Each fault
takes a page from the stack of free pages and a node for `pages_loaded` from the heap.

The stack and the window are in one page table, but for the lowest page the stack may have. So the
table is there as soon as the window has been used or the stack has a page. -/
namespace MeinOS.StackGrowth
open Lib.Runs Llist Memphys Paging Memuser PagingWindow ProcmMemory AddrspaceLists Malloc KernelHeap
open MemuserHeap (Kmem kmemOf)

variable {dirs : List Nat} {s s' m t u : Machine} {virt p addr : Nat} {space : Addrspace} {k : Kmem}

section Fault

/-- The entry that `memuser_alloc_at` writes for a writable page. -/
def stackEntry (page : Nat) : Entry :=
  { blank with
    existing := true
    present := true
    swappable := true
    writable := true
    user := true
    page := page }

/-- The address space with the pages from `low` on added to its stack. -/
def grownSpace (space : Addrspace) (low count : Nat) : Addrspace :=
  { space with
    stack := low * 4096
    pagesLoaded := (List.range count).map (fun i => (low + i) * 4096) ++ space.pagesLoaded }

/-- One page has been added at the bottom of the stack. -/
structure GrownOnce (dirs : List Nat) (s : Machine) (p new : Nat) (m : Machine) : Prop where
  touches : Touches dirs (fun d q => (d, q) = (s.curpd, p)) s m
  entry : pageEntry m s.curpd p = stackEntry new
  wasFree : new * 4096 ∈ freePages s.mem
  taken : new * 4096 ∉ freePages m.mem
  slots : m.frames s.curpd = s.frames s.curpd
  cost : s.mem.stackptr = m.mem.stackptr + 1

section
variable (held : Guarded dirs k.machine) (unshared : Unshared dirs k.machine)
  (loaded : space.pagedir = k.machine.curpd)
  (free : malloc k.heap nodeSize [] = some (block, h, left))
include held unshared loaded free

end

end Fault

section Faults

/-- The pages from `low` on are mapped, each to a page of its own from the stack of free
pages, and nothing else below the window has changed. -/
structure Grown (dirs : List Nat) (s : Machine) (low count : Nat) (pages : List Nat) (m : Machine) :
    Prop where
  length : pages.length = count
  nodup : pages.Nodup
  fresh : ∀ page ∈ pages, page * 4096 ∈ freePages s.mem ∧ page * 4096 ∉ freePages m.mem
  fewer : ∀ a ∈ freePages m.mem, a ∈ freePages s.mem
  mapped : ∀ i page, pages[i]? = some page → pageEntry m s.curpd (low + i) = stackEntry page
  others : ∀ d ∈ dirs, ∀ q < windowPage, ¬ (d = s.curpd ∧ low ≤ q ∧ q < low + count) →
    pageEntry m d q = pageEntry s d q

variable {low count new : Nat}

/-- One more page on top of those that the other faults add. -/
theorem Grown.succ (once : GrownOnce dirs s (low + count) new m)
    (rest : Grown dirs m low count pages u) (loaded : s.curpd ∈ dirs)
    (below : low + count < windowPage) :
    Grown dirs s low (count + 1) (pages ++ [new]) u := by
  have curpd := once.touches.curpd
  refine ⟨by simp [rest.length], ?_, ?_, fun a member => once.touches.fewer a (rest.fewer a member),
    fun i page found => ?_, fun d inDirs q inside other => ?_⟩
  · rw [List.nodup_append]
    refine ⟨rest.nodup, List.nodup_singleton new, fun page member other same => ?_⟩
    rw [List.mem_singleton.mp same]
    rintro rfl
    exact once.taken (rest.fresh page member).1
  · intro page member
    rcases List.mem_append.mp member with old | last
    · obtain ⟨free, gone⟩ := rest.fresh page old
      exact ⟨once.touches.fewer _ free, gone⟩
    · rw [List.mem_singleton.mp last]
      exact ⟨once.wasFree, fun free => once.taken (rest.fewer _ free)⟩
  · by_cases old : i < pages.length
    · rw [List.getElem?_append_left old] at found
      rw [← curpd]
      exact rest.mapped i page found
    · rw [List.getElem?_append_right (by omega)] at found
      obtain ⟨inside, rfl⟩ := List.getElem?_eq_some_iff.mp found
      have last : i = count := by
        have length := rest.length
        simp only [List.length_singleton] at inside
        omega
      subst last
      rw [rest.others _ loaded _ below (by omega), once.entry]
      simp
  · rw [rest.others d inDirs q inside (by rw [curpd]; omega),
      once.touches.pages d inDirs q inside fun same => other (by
        obtain ⟨rfl, rfl⟩ := Prod.mk.inj same
        omega)]

/-- The stack can grow by `count` pages down to the page `low`, with faults at an address that is not
above it: none of the pages exists, and their tables are there. -/
structure Growable (dirs : List Nat) (s : Machine) (space : Addrspace) (addr low count : Nat) : Prop where
  guarded : Guarded dirs s
  unshared : Unshared dirs s
  loaded : space.pagedir = s.curpd
  stack : space.stack = (low + count) * 4096
  high : space.stack ≤ userstackEnd
  limit : userstackEnd - userstackMaxsize < addr
  below : addr2page addr ≤ low
  missing : ∀ q, addr2page addr ≤ q → q < low + count → (pageEntry s s.curpd q).existing = false
  tables : ∀ q, low ≤ q → q < low + count → (s.frames s.curpd (q / 1024)).present = true

theorem Growable.inside (held : Growable dirs s space addr low (count + 1)) :
    low + count < windowPage := by
  have high := held.high
  rw [held.stack, userstackEnd, bufpageAddress] at high
  rw [windowPage]
  omega

/-- After a fault there is one page less to go. -/
theorem Growable.next (held : Growable dirs s space addr low (count + 1))
    (once : GrownOnce dirs s (low + count) new m) :
    Growable dirs m (grownSpace space (low + count) 1) addr low count := by
  have touches := once.touches
  have inside := held.inside
  refine ⟨touches.guarded, touches.unshared, held.loaded.trans touches.curpd.symm, rfl, ?_,
    held.limit, held.below, fun q above less => ?_, fun q above less => ?_⟩
  · have smaller : (low + count) * 4096 ≤ space.stack := by
      rw [held.stack]
      omega
    exact smaller.trans held.high
  · have other : ¬ (s.curpd, q) = (s.curpd, low + count) := fun same =>
      less.ne (Prod.mk.inj same).2
    rw [touches.curpd, touches.pages _ held.guarded.loaded q (by omega) other]
    exact held.missing q above (by omega)
  · rw [touches.curpd, once.slots]
    exact held.tables q above (by omega)

end Faults

section OneProcess

end OneProcess

end MeinOS.StackGrowth
