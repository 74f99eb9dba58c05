import MeinOS.AddrspaceBooks
import MeinOS.ProcmSyscalls

/-! What processes without the `system` flag can do to other processes with the system calls
of `kernel2/procm.c`.

Most of the calls look at the flag. The others write through a pointer of their caller, and
the kernel asks neither where the pointer leads nor how far: `proc_getname` with a buffer at
the end of user memory runs on into the window, which shows whatever page the kernel worked on
last, and with a length of 0 it does not stop at all. `proc_exit` writes to the memory of the
parent; if the page is not in memory, the page fault is served for the wrong process. -/
namespace MeinOS.ProcmConfinement
open Lib Lib.Runs Llist Memphys Paging Memuser Procm ProcmLists ProcmWait ProcmMemory ProcmSpaces
open ProcmCalls ProcmSyscalls AddrspaceLists AddrspaceBooks

variable {dirs : List Nat} {s s' m : Machine} {w w' : Os} {d p addr : Nat}

/-- An address of user memory. -/
def InUser (addr : Nat) : Prop := UserPage (addr2page addr)

/-- User pages are not at the same time page tables. -/
def Plain (dirs : List Nat) (s : Machine) : Prop :=
  ∀ d ∈ dirs, ∀ p, UserPage p → (pageEntry s d p).present = true →
    ¬ Table dirs s (pageEntry s d p).page

/-- A state of the running system: books and page tables in order, a directory for each
process, that of the current process loaded, stacks below the window, and status words of
waiting processes in user memory. -/
structure Orderly (w : Os) : Prop where
  books : Consistent w.kernel
  parents : ∀ p ∈ w.kernel.procAll, ParentExists w.kernel p
  guarded : Guarded (pagedirs w) w.machine
  unshared : Unshared (pagedirs w) w.machine
  plain : Plain (pagedirs w) w.machine
  loaded : w.kernel.procCurrent ≠ 0 → w.machine.curpd = (w.space w.kernel.procCurrent).pagedir
  distinct : ∀ p ∈ w.kernel.procAll, ∀ q ∈ w.kernel.procAll, p ≠ q →
    (w.space p).pagedir ≠ (w.space q).pagedir
  settled : ∀ p ∈ w.kernel.procAll, ∀ q < 2 ^ 18,
    ¬ (pageEntry w.machine (w.space p).pagedir q).Lazy
  stackAddrs : ∀ p ∈ w.kernel.procAll, (w.space p).stack % 4096 = 0 ∧ (w.space p).stack ≤ userstackEnd
  waiters : ∀ p ∈ w.kernel.procAll, (w.kernel.procs p).wait = true →
    (w.kernel.procs p).waitStat = 0 ∨ Region InUser (w.kernel.procs p).waitStat 4

/-- The call ends its caller and tells a waiting parent. -/
def Reports (w : Os) (e : ProcmSyscalls.Event) (p : Ptr) : Prop :=
  (e = .call .abort ∨ ∃ ret, e = .call (.exit ret)) ∧ tellsParent w.kernel = true ∧
    p = (w.kernel.procs w.kernel.procCurrent).parent

/-- What an event leaves alone: all processes with their names and flags, and of the processes
other than the current one the page lists, the stack, the page tables and the saved registers.
A parent that is told gets a result in its registers. -/
structure Confined (w : Os) (e : ProcmSyscalls.Event) (w' : Os) : Prop where
  all : w'.kernel.procAll = w.kernel.procAll
  system : ∀ p, (w'.details p).system = (w.details p).system
  names : ∀ p, (w'.details p).name = (w.details p).name
  spaces : ∀ p ≠ w.kernel.procCurrent, w'.space p = w.space p
  tables : ∀ p ∈ w.kernel.procAll, p ≠ w.kernel.procCurrent → ∀ page < windowPage,
    pageEntry w'.machine (w.space p).pagedir page = pageEntry w.machine (w.space p).pagedir page
  registers : ∀ p ≠ w.kernel.procCurrent,
    (w'.kernel.procs p).registers = (w.kernel.procs p).registers ∨
      Reports w e p ∧ (w'.kernel.procs p).registers =
        { (w.kernel.procs p).registers with
          eax := BitVec.ofInt 32 (w.kernel.procs w.kernel.procCurrent).pid }

/-- The status word that `proc_exit` writes is in memory. -/
def StatusLoaded (w : Os) : Prop :=
  tellsParent w.kernel = true →
    (w.kernel.procs (w.kernel.procs w.kernel.procCurrent).parent).waitStat = 0 ∨
      Region (fun addr => (pageEntry w.machine
          (w.space (w.kernel.procs w.kernel.procCurrent).parent).pagedir (addr2page addr)).present = true)
        (w.kernel.procs (w.kernel.procs w.kernel.procCurrent).parent).waitStat 4

/-- What the call reads or writes for its caller is memory of the caller, and the status word it
reports is there. -/
def OwnMemory (w : Os) : Call → Prop
  | .getname pid buf maxlen _ => ∀ proc ∈ procFind pid w.kernel, buf.toNat ≠ 0 →
    Region InUser buf.toNat (copied maxlen.toNat (w.details proc).name.length)
  | .getpidbyname addr name => Region InUser addr.toNat (name.length + 1)
  | .waitpid pid stat =>
    Region InUser stat.toNat 4 ∨ stat.toNat = 0 ∧ reportedAtOnce pid w.kernel = none
  | .memget _ _ existing _ _ _ => Region InUser existing.toNat 4
  | .exit _ | .abort => StatusLoaded w
  | _ => True

/-- The calls are made without privileges and for the caller's own memory. -/
def Meets (w : Os) : ProcmSyscalls.Event → Prop
  | .call c => (w.details w.kernel.procCurrent).system = 0 ∧ OwnMemory w c
  | _ => True

instance (addr : Nat) : Decidable (InUser addr) := inferInstanceAs (Decidable (UserPage _))

instance (w : Os) : Decidable (StatusLoaded w) := by
  unfold StatusLoaded
  infer_instance

instance (w : Os) (c : Call) : Decidable (OwnMemory w c) := by
  cases c <;> dsimp only [OwnMemory] <;> infer_instance

instance (w : Os) : (e : ProcmSyscalls.Event) → Decidable (Meets w e)
  | .shedule | .wake _ => isTrue trivial
  | .call c => inferInstanceAs (Decidable (_ ∧ OwnMemory w c))

section Memory

/-- The kernel has worked on the memory of one process, with its directory loaded. -/
structure Private (dirs : List Nat) (d : Nat) (s s' : Machine) : Prop where
  guarded : Guarded dirs s'
  unshared : Unshared dirs s'
  plain : Plain dirs s'
  curpd : s'.curpd = s.curpd
  pages : ∀ d' ∈ dirs, ∀ p < windowPage, d' ≠ d ∨ p < 2 ^ 18 → pageEntry s' d' p = pageEntry s d' p

theorem Private.refl (held : Guarded dirs s) (unshared : Unshared dirs s) (plain : Plain dirs s) :
    Private dirs d s s :=
  ⟨held, unshared, plain, rfl, fun _ _ _ _ _ => rfl⟩

theorem Private.trans (first : Private dirs d s m) (second : Private dirs d m s') :
    Private dirs d s s' where
  guarded := second.guarded
  unshared := second.unshared
  plain := second.plain
  curpd := second.curpd.trans first.curpd
  pages d' inDirs p below other := by
    rw [second.pages d' inDirs p below other, first.pages d' inDirs p below other]

/-- A page of the directory in user memory is new, and it is no table. -/
theorem Touches.private (touches : Touches dirs (Just d p) s s')
    (held : Guarded dirs s) (plain : Plain dirs s) (user : UserPage p)
    (data : ¬ Table dirs s' (pageEntry s' d p).page) : Private dirs d s s' where
  guarded := touches.guarded
  unshared := touches.unshared
  plain d' inDirs q inUser present := by
    by_cases here : (d', q) = (d, p)
    · obtain ⟨rfl, rfl⟩ := Prod.mk.inj here
      exact data
    · have same := touches.pages d' inDirs q inUser.2 here
      rw [same] at present ⊢
      have outside := held.entry_outside inDirs inUser.2 present
      exact (touches.stays_data (plain d' inDirs q inUser present) outside.2).1
  curpd := touches.curpd
  pages d' inDirs q below other := by
    refine touches.pages d' inDirs q below fun here => ?_
    obtain ⟨rfl, rfl⟩ := Prod.mk.inj here
    rcases other with different | low
    · exact different rfl
    · have := user.1
      omega

/-- A page fault of the process whose directory is loaded. -/
theorem pagefault_private (held : Guarded dirs s) (unshared : Unshared dirs s) (plain : Plain dirs s)
    (loaded : s.curpd = space.pagedir) (inside : addr < 2 ^ 32)
    (stack : space.stack % 4096 = 0 ∧ space.stack ≤ userstackEnd)
    (settled : ∀ q < 2 ^ 18, ¬ (pageEntry s space.pagedir q).Lazy)
    (ran : memuserPagefault s space addr = some (ok, s', space')) :
    Private dirs space.pagedir s s' ∧ space'.pagedir = space.pagedir ∧
      space'.stack % 4096 = 0 ∧ space'.stack ≤ userstackEnd := by
  cases pagefault_serves held unshared loaded inside stack settled ran with
  | nothing same =>
    subst same
    exact ⟨.refl held unshared plain, rfl, stack⟩
  | replaced p user touches existing present data =>
    exact ⟨Touches.private touches held plain user data, rfl, stack⟩
  | filled p new user existing missing touches here data =>
    refine ⟨Touches.private touches held plain user ?_, rfl, stack⟩
    rw [here]
    exact data
  | grown grows user below loads =>
    exact ⟨Touches.private loads.touches held plain user (loads.data id), rfl,
      Nat.mul_mod_left _ _, below⟩

end Memory

section Kernel
variable {k k' : Kernel}

/-- What a process waits for, and its parent. -/
def waiting (p : Proc) : Ptr × Bool × Ptr := (p.parent, p.wait, p.waitStat)

/-- What the process manager may change: no process comes or goes, no parent changes, and who
waits waits with a status word in user memory. -/
structure Shuffles (k k' : Kernel) : Prop where
  books : Consistent k'
  all : k'.procAll = k.procAll
  parents : ∀ p, (k'.procs p).parent = (k.procs p).parent
  waiters : ∀ p, (k'.procs p).wait = true →
    (k.procs p).wait = true ∧ (k'.procs p).waitStat = (k.procs p).waitStat ∨
      (k'.procs p).waitStat = 0 ∨ Region InUser (k'.procs p).waitStat 4

theorem Shuffles.of_waiting (books : Consistent k') (all : k'.procAll = k.procAll)
    (same : ∀ p, waiting (k'.procs p) = waiting (k.procs p)) : Shuffles k k' := by
  have parts : ∀ p, (k'.procs p).parent = (k.procs p).parent ∧
      (k'.procs p).wait = (k.procs p).wait ∧ (k'.procs p).waitStat = (k.procs p).waitStat := by
    intro p
    have both := same p
    simp only [waiting, Prod.mk.injEq] at both
    exact both
  refine ⟨books, all, fun p => (parts p).1, fun p waits => Or.inl ⟨?_, (parts p).2.2⟩⟩
  rw [← (parts p).2.1]
  exact waits

theorem Shuffles.trans {k'' : Kernel} (first : Shuffles k k') (second : Shuffles k' k'') :
    Shuffles k k'' where
  books := second.books
  all := second.all.trans first.all
  parents p := (second.parents p).trans (first.parents p)
  waiters p waits := by
    rcases second.waiters p waits with ⟨before, same⟩ | new
    · rw [same]
      exact first.waiters p before
    · exact Or.inr new

end Kernel

section Orderly

/-- Directories stay where they are, stacks stay below the window, the kernel works on the
memory of one process and loads that of the current one. -/
theorem Orderly.after (held : Orderly w) (shuffles : Shuffles w.kernel w'.kernel)
    (pagedirs_same : ∀ p, (w'.space p).pagedir = (w.space p).pagedir)
    (stackAddrs : ∀ p ∈ w.kernel.procAll,
      (w'.space p).stack % 4096 = 0 ∧ (w'.space p).stack ≤ userstackEnd)
    (change : Private (pagedirs w) d w.machine m) (machine : w'.machine = { m with curpd := x })
    (inDirs : x ∈ pagedirs w)
    (loaded : w'.kernel.procCurrent ≠ 0 → x = (w.space w'.kernel.procCurrent).pagedir) :
    Orderly w' := by
  have dirs : pagedirs w' = pagedirs w := by
    simp only [pagedirs, shuffles.all, pagedirs_same]
  have kernel : ∀ p ∈ w.kernel.procAll, ∀ q < 2 ^ 18, pageEntry w'.machine (w.space p).pagedir q =
      pageEntry w.machine (w.space p).pagedir q := by
    intro p inAll q low
    rw [machine]
    exact change.pages _ (pagedir_in inAll) q (by rw [windowPage]; omega) (Or.inr low)
  refine ⟨shuffles.books, ?_, ?_, ?_, ?_, fun current => ?_, ?_, ?_, ?_, ?_⟩
  · intro p inAll
    rw [shuffles.all] at inAll
    have before := held.parents p inAll
    rw [ParentExists, shuffles.parents, shuffles.all]
    exact before
  · rw [dirs, machine]
    exact change.guarded.load inDirs
  · rw [dirs, machine]
    exact change.unshared
  · rw [dirs, machine]
    exact change.plain
  · rw [machine, pagedirs_same]
    exact loaded current
  · rw [shuffles.all]
    intro p inAll q inAll' other
    rw [pagedirs_same, pagedirs_same]
    exact held.distinct p inAll q inAll' other
  · rw [shuffles.all]
    intro p inAll q low
    rw [pagedirs_same, kernel p inAll q low]
    exact held.settled p inAll q low
  · rw [shuffles.all]
    exact stackAddrs
  · rw [shuffles.all]
    intro p inAll waits
    rcases shuffles.waiters p waits with ⟨before, same⟩ | new
    · rw [same]
      exact held.waiters p inAll before
    · exact new

theorem Orderly.listed (held : Orderly w) (current : w.kernel.procCurrent ≠ 0) :
    w.kernel.procCurrent ∈ w.kernel.procAll :=
  (current_listed held.books current).1

theorem Orderly.unchanged (held : Orderly w) : Private (pagedirs w) d w.machine w.machine :=
  .refl held.guarded held.unshared held.plain

end Orderly

section Own

/-- The kernel has read or written memory of the current process. -/
structure Reaches (w w' : Os) : Prop where
  kernel : w'.kernel = w.kernel
  others : ∀ p ≠ w.kernel.procCurrent, w'.details p = w.details p
  own : ∃ space, w'.details w.kernel.procCurrent =
    { w.details w.kernel.procCurrent with addrspace := space }
  pagedir : (w'.space w.kernel.procCurrent).pagedir = (w.space w.kernel.procCurrent).pagedir
  stack : (w'.space w.kernel.procCurrent).stack % 4096 = 0 ∧
    (w'.space w.kernel.procCurrent).stack ≤ userstackEnd
  machine : Private (pagedirs w) (w.space w.kernel.procCurrent).pagedir w.machine w'.machine

section
variable (held : Orderly w) (current : w.kernel.procCurrent ≠ 0)
include held current

theorem Orderly.reaches : Reaches w w :=
  ⟨rfl, fun _ _ => rfl, ⟨_, rfl⟩, rfl, held.stackAddrs _ (held.listed current), held.unchanged⟩

/-- One page fault more. -/
theorem Reaches.pagefault (reaches : Reaches w w') (inside : addr < 2 ^ 32)
    (ran : memuserPagefault w'.machine (w'.space w'.kernel.procCurrent) addr = some (ok, s, space)) :
    Reaches w (({ w' with machine := s } : Os).setSpace w'.kernel.procCurrent fun _ => space) := by
  have machine := reaches.machine
  rw [reaches.kernel] at ran ⊢
  obtain ⟨change, pagedir, stack⟩ := pagefault_private machine.guarded machine.unshared machine.plain
    (by rw [machine.curpd, held.loaded current, reaches.pagedir]) inside reaches.stack
    (fun q low => by
      rw [reaches.pagedir, machine.pages _ (pagedir_in (held.listed current)) q
        (by rw [windowPage]; omega) (Or.inr low)]
      exact held.settled _ (held.listed current) q low) ran
  rw [reaches.pagedir] at change pagedir
  refine ⟨rfl, fun p other => ?_, ?_, ?_, ?_, machine.trans change⟩
  · rw [← reaches.others p other]
    exact Function.update_of_ne other ..
  · obtain ⟨before, own⟩ := reaches.own
    refine ⟨space, ?_⟩
    simp only [Os.setSpace, Os.setDetails, Function.update_self, own]
  · rw [set_space_self]
    exact pagedir
  · rw [set_space_self]
    exact stack

theorem Reaches.access (reaches : Reaches w w') (inside : addr < 2 ^ 32) (tries : Nat)
    {code : Exec Os Unit} (ran : access addr tries w' = some code) : Reaches w code.state := by
  induction tries generalizing w' with
  | zero => cases ran
  | succ tries ih =>
    rw [ProcmSyscalls.access] at ran
    split at ran
    · cases ran
      exact reaches
    · obtain ⟨⟨served, s, space⟩, fault, ran⟩ := Option.bind_eq_some_iff.mp ran
      simp only at ran
      split at ran
      · exact ih (reaches.pagefault held current inside fault) ran
      · cases ran
        exact reaches

theorem Reaches.orderly (reaches : Reaches w w') : Orderly w' := by
  have spaces : ∀ p ≠ w.kernel.procCurrent, w'.space p = w.space p := fun p other => by
    rw [Os.space, reaches.others p other]
    rfl
  have shuffles : Shuffles w.kernel w'.kernel := by
    rw [reaches.kernel]
    exact .of_waiting held.books rfl fun _ => rfl
  refine held.after shuffles (fun p => ?_) (fun p inAll => ?_) reaches.machine rfl
    reaches.machine.guarded.loaded fun _ => ?_
  · by_cases here : p = w.kernel.procCurrent
    · rw [here, reaches.pagedir]
    · rw [spaces p here]
  · by_cases here : p = w.kernel.procCurrent
    · rw [here]
      exact reaches.stack
    · rw [spaces p here]
      exact held.stackAddrs p inAll
  · rw [reaches.machine.curpd, reaches.kernel]
    exact held.loaded current

theorem Reaches.confined (reaches : Reaches w w') : Confined w e w' := by
  obtain ⟨space, own⟩ := reaches.own
  refine ⟨by rw [reaches.kernel], fun p => ?_, fun p => ?_, fun p other => ?_,
    fun p inAll other page below => ?_, fun p _ => Or.inl (by rw [reaches.kernel])⟩
  · by_cases here : p = w.kernel.procCurrent
    · rw [here, own]
    · rw [reaches.others p here]
  · by_cases here : p = w.kernel.procCurrent
    · rw [here, own]
    · rw [reaches.others p here]
  · rw [Os.space, reaches.others p other]
    rfl
  · exact reaches.machine.pages _ (pagedir_in inAll) page below
      (Or.inl (held.distinct p inAll _ (held.listed current) other))

end

end Own

section Exit

theorem Private.in_space (held : Guarded dirs s) (change : Private dirs d { s with curpd := x } s') :
    Private dirs d s { s' with curpd := s.curpd } :=
  ⟨change.guarded.load held.loaded, change.unshared, change.plain, rfl, change.pages⟩

section
variable (held : Orderly w) (current : w.kernel.procCurrent ≠ 0)
include held current

end

end Exit

section Steps

theorem Confined.refl (w : Os) (e : ProcmSyscalls.Event) : Confined w e w :=
  ⟨rfl, fun _ => rfl, fun _ => rfl, fun _ _ => rfl, fun _ _ _ _ _ => rfl, fun _ _ => Or.inl rfl⟩

section
variable (held : Orderly w) (current : w.kernel.procCurrent ≠ 0)
include held current

end

/-- The memory of the caller is read or written, and nothing else. -/
theorem Reaches.both (reaches : Reaches w w') (held : Orderly w) (current : w.kernel.procCurrent ≠ 0) :
    Orderly w' ∧ Confined w e w' :=
  ⟨reaches.orderly held current, reaches.confined held current⟩

end Steps

section OneProcess

/-- The only process has given up its privileges. -/
def guestOs : Os :=
  (oneOs 1).setDetails 1 fun details => { details with system := 0, name := [0x67, 0x75, 0x65, 0x73, 0x74] }

/-- A privileged process makes another one and gives up its privileges. -/
def twoProcesses : List ProcmSyscalls.Event :=
  [.call (.create 2 staleBlock [97, 98, 99, 100, 101, 102, 103, 104] 100 100 1),
    .call (.system 1 0)]

end OneProcess

end MeinOS.ProcmConfinement
