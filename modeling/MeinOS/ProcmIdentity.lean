import MeinOS.IpcAccess
import MeinOS.ProcmConfinement

/-! The user and group ids of a process and its private variable, along the system calls of
one process that is neither privileged nor root.

`proc_setuid` and `proc_setgid` take any value, so a process becomes root by asking for it.
`proc_setvar` writes the variable of any process, while `proc_getvar` shows it to its owner
and to privileged processes only.

The records of the processes lie in the kernel's heap. A store through a pointer that no call
checks can reach them as well, so what such a store leaves of the state is taken to be anything. -/
namespace MeinOS.ProcmIdentity
open Lib Lib.Runs Llist Paging Memuser Procm ProcmLists ProcmWait ProcmMemory ProcmSpaces ProcmCalls
open ProcmSyscalls Ipc IpcAccess
open ProcmConfinement (InUser OwnMemory)

variable {w w' : Os} {P p : Ptr}

/-- All ids of a process. -/
def ids (w : Os) (p : Ptr) : List Int :=
  [(w.kernel.procs p).uid, (w.details p).euid, (w.details p).suid,
    (w.kernel.procs p).gid, (w.details p).egid, (w.details p).sgid]

/-- `PERM_ROOTUID` and `PERM_ROOTGID`. -/
def permRoot : Int := 1

/-- The check of `signal_send_syscall`. -/
def maySignal (caller proc : Proc) : Bool :=
  proc.uid = caller.uid || proc.gid = caller.gid || caller.uid = permRoot || caller.gid = permRoot

/-- The process has ids it had at the start only, no check takes it for root, and the
variables of the other processes are as they were. -/
structure Confined (start : Os) (P : Ptr) (w : Os) : Prop where
  own : ∀ id ∈ ids w P, id ∈ ids start P
  rights : ∀ ownerUid ownerGid mode op,
    permCheck ownerUid ownerGid (w.kernel.procs P).uid (w.kernel.procs P).gid mode op = true →
      ((w.kernel.procs P).uid = ownerUid ∧ ownerBit mode op) ∨
        ((w.kernel.procs P).gid = ownerGid ∧ groupBit mode op) ∨ otherBit mode op
  signals : ∀ proc, maySignal (w.kernel.procs P) proc = true →
    proc.uid = (w.kernel.procs P).uid ∨ proc.gid = (w.kernel.procs P).gid
  vars : ∀ p ≠ P, (w.details p).var = (start.details p).var

/-- The calls that end their caller. -/
def endsCaller : Call → Bool
  | .exit _ | .abort => true
  | _ => false

/-- The call stores to user memory only: through the pointers of its caller, and to the status
word that a waiting parent has named. -/
def StoresToUser (w : Os) (c : Call) : Prop :=
  OwnMemory w c ∧ (endsCaller c = true → tellsParent w.kernel = true →
    let stat := (w.kernel.procs (w.kernel.procs w.kernel.procCurrent).parent).waitStat
    stat = 0 ∨ Region InUser stat 4)

instance (w : Os) (c : Call) : Decidable (StoresToUser w c) :=
  inferInstanceAs (Decidable (OwnMemory w c ∧ (_ → _ → _ ∨ Region InUser _ 4)))

/-- The events of a run in which only `P` makes system calls. After a store outside of user memory
the state is what `stray` makes of it. -/
def stepOf (stray : Os → Os) (P : Ptr) (w : Os) : ProcmSyscalls.Event → Option Os
  | .call c =>
    if w.kernel.procCurrent = P then
      (step w (.call c)).map fun w' => if StoresToUser w c then w' else stray w'
    else none
  | e => step w e

/-- The calls of a run store to user memory only. -/
def UserStores (w : Os) : ProcmSyscalls.Event → Prop
  | .call c => StoresToUser w c
  | _ => True

/-- The process asks for ids it had at the start, and for its own variable. -/
def AsksOwn (start : Os) (P : Ptr) (w : Os) : ProcmSyscalls.Event → Prop
  | .call (.setuid id uid) => id ∉ [1, 2, 3] ∨ uid ∈ ids start P
  | .call (.setgid id gid) => id ∉ [1, 2, 3] ∨ gid ∈ ids start P
  | .call (.setvar pid var) =>
    match procFind pid w.kernel with
    | some proc => proc = P ∨ (w.details proc).var = var
    | none => True
  | _ => True

/-- What the kernel knows a process by. -/
def identity (w : Os) (p : Ptr) : List Int × Int × Int :=
  (ids w p, (w.details p).system, (w.details p).var)

/-- No process has become another one. -/
def SameIdentities (w w' : Os) : Prop := ∀ p, identity w' p = identity w p

section Identities

/-- The ids that the process manager itself holds. -/
def kernelIds (p : Proc) : Int × Int := (p.uid, p.gid)

theorem kernel_ids_untouched : Untouched kernelIds :=
  ⟨fun _ _ => rfl, fun _ _ => rfl, fun _ _ => rfl⟩

/-- A change of the process manager that leaves the ids of all processes alone. -/
theorem identities_of_kernel (details : w'.details = w.details)
    (same : ∀ p, kernelIds (w'.kernel.procs p) = kernelIds (w.kernel.procs p)) :
    SameIdentities w w' := by
  intro p
  obtain ⟨uid, gid⟩ := Prod.mk.inj (same p)
  rw [identity, identity, ids, ids, details, uid, gid]

/-- A change of one address space. -/
theorem identities_of_space (w : Os) (proc : Ptr) (s : Machine) (space : Addrspace) :
    SameIdentities w (({ w with machine := s } : Os).setSpace proc fun _ => space) := by
  intro p
  by_cases here : p = proc
  · subst here
    simp [identity, ids, Os.setSpace, Os.setDetails]
  · simp [identity, ids, Os.setSpace, Os.setDetails, here]

theorem SameIdentities.trans (first : SameIdentities w m) (second : SameIdentities m w') :
    SameIdentities w w' := fun p => (second p).trans (first p)

theorem access_identities (addr tries : Nat) {code : Exec Os Unit}
    (ran : access addr tries w = some code) : SameIdentities w code.state := by
  induction tries generalizing w with
  | zero => cases ran
  | succ tries ih =>
    rw [access] at ran
    split at ran
    · cases ran
      exact fun _ => rfl
    · obtain ⟨⟨served, s, space⟩, -, ran⟩ := Option.bind_eq_some_iff.mp ran
      simp only at ran
      split at ran
      · exact (identities_of_space w _ s space).trans (ih ran)
      · cases ran
        exact fun _ => rfl

/-- Whatever the kernel reads or writes for a process, it reads or writes memory. -/
theorem identities_safe (w : Os) : Safe (fun _ => True) (SameIdentities w) where
  reads _ addr _ held _ _ ran := held.trans (access_identities addr maxTries ran)
  writes _ _ _ _ held _ _ := held

theorem anywhere (addr n : Nat) : Region (fun _ => True) addr n := fun _ _ => trivial

theorem sleep_for_child_ids (pid : Int) (stat : Ptr) (k : Kernel) (p : Ptr) :
    kernelIds ((sleepForChild pid stat k).state.procs p) = kernelIds (k.procs p) := by
  rw [sleepForChild, Exec.state_andThen_ret, sleep_untouched kernel_ids_untouched]
  exact setProc_keeps k k.procCurrent
    (fun p => { p with waitPid := pid, waitStat := stat, wait := true }) kernelIds (fun _ => rfl) p

theorem exit_ids (ret : Int) (k : Kernel) (p : Ptr) :
    kernelIds ((Procm.procExit ret k).state.procs p) = kernelIds (k.procs p) := by
  have told : kernelIds ((reportExit ret k).procs p) = kernelIds (k.procs p) := by
    cases tells : tellsParent k with
    | false => rw [quiet_report tells]
    | true =>
      rw [told_record tells]
      split <;> rfl
  rw [exit_record, ← told]
  split <;> rfl

theorem answer_identities (w : Os) (parent : Ptr) : SameIdentities w (answerParent w parent) :=
  identities_of_kernel rfl fun p => setProc_keeps w.kernel parent
    (fun p => { p with
      registers := { p.registers with
        eax := BitVec.ofInt 32 (w.kernel.procs w.kernel.procCurrent).pid } })
    kernelIds (fun _ => rfl) p

theorem exit_identities (ret : Int) {code : Exec Os Unit}
    (ran : ProcmSyscalls.procExit w ret = some code) : SameIdentities w code.state := by
  refine follow_keeps ran (fun code ran => ?_) fun _ w' code held ran => ?_
  · split at ran
    · have told := answer_identities w (w.kernel.procs w.kernel.procCurrent).parent
      rw [tellParent] at ran
      split at ran
      · have loaded : SameIdentities w ((answerParent w (w.kernel.procs w.kernel.procCurrent).parent).load
            (w.kernel.procs w.kernel.procCurrent).parent) := told
        refine follow_keeps ran (fun code ran => ?_) fun _ w' code held ran => ?_
        · exact (identities_safe w).store_int ret loaded (anywhere _ _) ran
        · cases ran
          exact held
      · cases ran
        exact told
    · cases ran
      exact fun _ => rfl
  · cases ran
    rw [Exec.state_within]
    exact held.trans (identities_of_kernel rfl (exit_ids ret w'.kernel))

theorem waitpid_identities (pid : Int) (stat : Ptr) {code : Exec Os Int}
    (ran : ProcmSyscalls.procWaitpid w pid stat = some code) : SameIdentities w code.state := by
  have asleep : SameIdentities w ((sleepForChild pid stat w.kernel).within (switched w)).state := by
    rw [Exec.state_within]
    exact identities_of_kernel rfl (sleep_for_child_ids pid stat w.kernel)
  rw [ProcmSyscalls.procWaitpid] at ran
  split at ran
  · split at ran
    · cases ran
      exact fun _ => rfl
    · split at ran
      · exact follow_ret_keeps ran fun code ran =>
          (identities_safe w).store_int _ (fun _ => rfl) (anywhere _ _) ran
      · cases ran
        exact asleep
  · cases ran
    exact asleep

theorem memget_identities (plain : (w.details w.kernel.procCurrent).system = 0) {code : Exec Os Nat}
    (ran : procMemgetTo w pid virt existing writable swappable cow = some code) :
    SameIdentities w code.state := by
  rw [procMemgetTo, if_neg fun found => found.1 plain] at ran
  exact follow_ret_keeps ran fun code ran =>
    (identities_safe w).store_int _ (fun _ => rfl) (anywhere _ _) ran

/-- Without privileges a process changes who it is, or a variable, with these calls only. -/
theorem call_identities {c : Call} (plain : (w.details w.kernel.procCurrent).system = 0)
    (ran : c.run w = some w') :
    SameIdentities w w' ∨ (∃ id uid, c = .setuid id uid) ∨ (∃ id gid, c = .setgid id gid) ∨
      ∃ pid var, c = .setvar pid var := by
  by_cases privileged : c.privileged = true
  · rw [privileged_refused plain privileged] at ran
    cases ran
    exact Or.inl fun _ => rfl
  cases c with
  | setuid id uid => exact Or.inr (Or.inl ⟨id, uid, rfl⟩)
  | setgid id gid => exact Or.inr (Or.inr (Or.inl ⟨id, gid, rfl⟩))
  | setvar pid var => exact Or.inr (Or.inr (Or.inr ⟨pid, var, rfl⟩))
  | getpid | getparent | getchild | getuid | getgid | getvar =>
    cases ran
    exact Or.inl fun _ => rfl
  | getname pid buf maxlen tail =>
    obtain ⟨code, copied, rfl⟩ := Option.map_eq_some_iff.mp ran
    exact Or.inl ((identities_safe w).getname (fun _ => rfl) (fun _ _ _ => anywhere _ _) copied)
  | getpidbyname addr name =>
    obtain ⟨code, compared, rfl⟩ := Option.map_eq_some_iff.mp ran
    exact Or.inl ((identities_safe w).find_name _ (fun _ => rfl) (anywhere _ _) compared)
  | waitpid pid stat =>
    obtain ⟨code, waited, rfl⟩ := Option.map_eq_some_iff.mp ran
    exact Or.inl (waitpid_identities pid _ waited)
  | exit ret =>
    obtain ⟨code, exited, rfl⟩ := Option.map_eq_some_iff.mp ran
    exact Or.inl (exit_identities ret exited)
  | abort =>
    obtain ⟨code, exited, rfl⟩ := Option.map_eq_some_iff.mp ran
    exact Or.inl (exit_identities 1 exited)
  | stop =>
    cases ran
    rw [procStop, Exec.state_within]
    exact Or.inl (identities_of_kernel rfl (sleep_untouched kernel_ids_untouched _ w.kernel))
  | memget =>
    obtain ⟨code, got, rfl⟩ := Option.map_eq_some_iff.mp ran
    exact Or.inl (memget_identities plain got)
  | _ => exact absurd rfl privileged

end Identities

section Setters

/-- What `proc_setuid` and `proc_setgid` have in common: with one of the three numbers the
caller has the new id, beside ids it had. Nothing else changes. -/
structure TakesId (w w' : Os) (id new : Int) : Prop where
  taken : id ∈ [1, 2, 3] → new ∈ ids w' w.kernel.procCurrent
  ids : ∀ x ∈ ids w' w.kernel.procCurrent, x ∈ ids w w.kernel.procCurrent ∨ (id ∈ [1, 2, 3] ∧ x = new)
  system : ∀ p, (w'.details p).system = (w.details p).system
  var : ∀ p, (w'.details p).var = (w.details p).var

/-- With one of the three numbers. -/
theorem takes_listed (listed : number ∈ [1, 2, 3]) (taken : new ∈ ids w' w.kernel.procCurrent)
    (old : ∀ x ∈ ids w' w.kernel.procCurrent, x ∈ ids w w.kernel.procCurrent ∨ x = new)
    (system : ∀ p, (w'.details p).system = (w.details p).system)
    (var : ∀ p, (w'.details p).var = (w.details p).var) : TakesId w w' number new :=
  ⟨fun _ => taken, fun x member => (old x member).imp_right (⟨listed, ·⟩), system, var⟩

/-- An id that is not the process manager's own. -/
theorem details_take (f : Details → Details) (kept : ∀ d, (f d).system = d.system ∧ (f d).var = d.var)
    (listed : number ∈ [1, 2, 3])
    (taken : new ∈ ids (w.setDetails w.kernel.procCurrent f) w.kernel.procCurrent)
    (old : ∀ x ∈ ids (w.setDetails w.kernel.procCurrent f) w.kernel.procCurrent,
      x ∈ ids w w.kernel.procCurrent ∨ x = new) :
    TakesId w (w.setDetails w.kernel.procCurrent f) number new :=
  takes_listed listed taken old
    (set_details_keeps Details.system f (fun d => (kept d).1) w.kernel.procCurrent)
    (set_details_keeps Details.var f (fun d => (kept d).2) w.kernel.procCurrent)

theorem takes_unlisted (first : number ≠ 1) (second : number ≠ 2) (third : number ≠ 3) :
    TakesId w w number new :=
  ⟨fun member => by simp [first, second, third] at member, fun x member => Or.inl member, fun _ => rfl,
    fun _ => rfl⟩

/-- Both do. -/
theorem set_id_takes (w : Os) (id new : Int) :
    TakesId w (procSetuid w id new) id new ∧ TakesId w (procSetgid w id new) id new := by
  unfold procSetuid procSetgid
  constructor
  all_goals
    split
    · refine takes_listed (by simp) (by simp [ids, Os.setProc]) ?_ (fun _ => rfl) fun _ => rfl
      simp [ids, Os.setProc]
    · refine details_take _ (fun d => ⟨rfl, rfl⟩) (by simp) (by simp [ids, Os.setDetails]) ?_
      simp [ids, Os.setDetails]
    · refine details_take _ (fun d => ⟨rfl, rfl⟩) (by simp) (by simp [ids, Os.setDetails]) ?_
      simp [ids, Os.setDetails]
    · rename_i first second third
      exact takes_unlisted first second third

end Setters

section Runs
variable {start : Os} {id new : Int}

/-- The ids decide how the checks treat the process. -/
theorem confined_of_ids (notRoot : ∀ id ∈ ids start P, id ≠ permRoot)
    (own : ∀ id ∈ ids w P, id ∈ ids start P)
    (vars : ∀ p ≠ P, (w.details p).var = (start.details p).var) : Confined start P w := by
  have uid : (w.kernel.procs P).uid ≠ permRoot := notRoot _ (own _ (by simp [ids]))
  have gid : (w.kernel.procs P).gid ≠ permRoot := notRoot _ (own _ (by simp [ids]))
  refine ⟨own, fun ownerUid ownerGid mode op allowed => ?_, fun proc allowed => ?_, vars⟩
  · rw [perm_check_iff] at allowed
    exact (allowed.resolve_left uid).resolve_left gid
  · simp only [maySignal, Bool.or_eq_true, decide_eq_true_eq] at allowed
    tauto

/-- Along the run the process stays unprivileged. -/
structure Held (start : Os) (P : Ptr) (w : Os) : Prop extends Confined start P w where
  plain : (w.details P).system = 0

theorem Held.same (held : Held start P w) (notRoot : ∀ id ∈ ids start P, id ≠ permRoot)
    (same : SameIdentities w w') : Held start P w' := by
  have parts : ∀ p, ids w' p = ids w p ∧ (w'.details p).system = (w.details p).system ∧
      (w'.details p).var = (w.details p).var := by
    intro p
    have := same p
    simp only [identity, Prod.mk.injEq] at this
    exact this
  refine ⟨confined_of_ids notRoot ?_ fun p other => ?_, ?_⟩
  · rw [(parts P).1]
    exact held.own
  · rw [(parts p).2.2]
    exact held.vars p other
  · rw [(parts P).2.1]
    exact held.plain

theorem Held.takes (held : Held start P w) (notRoot : ∀ id ∈ ids start P, id ≠ permRoot)
    (current : w.kernel.procCurrent = P) (takes : TakesId w w' id new)
    (asks : id ∉ [1, 2, 3] ∨ new ∈ ids start P) : Held start P w' := by
  subst current
  refine ⟨confined_of_ids notRoot (fun x member => ?_) fun p other => ?_, ?_⟩
  · rcases takes.ids x member with old | ⟨number, rfl⟩
    · exact held.own x old
    · exact asks.resolve_left (not_not.mpr number)
  · rw [takes.var]
    exact held.vars p other
  · rw [takes.system]
    exact held.plain

/-- A new variable changes no id. -/
theorem set_var_ids (w : Os) (proc : Ptr) (var : Int) (p : Ptr) :
    ids (w.setDetails proc fun details => { details with var := var }) p = ids w p := by
  have same := set_details_keeps (w := w) (fun d => (d.euid, d.suid, d.egid, d.sgid))
    (fun details => { details with var := var }) (fun _ => rfl) proc p
  simp only [Prod.mk.injEq] at same
  obtain ⟨euid, suid, egid, sgid⟩ := same
  rw [ids, euid, suid, egid, sgid]
  rfl

theorem Held.setvar (held : Held start P w) (notRoot : ∀ id ∈ ids start P, id ≠ permRoot)
    (asks : AsksOwn start P w (.call (.setvar pid var))) : Held start P (procSetvar w pid var) := by
  cases found : procFind pid w.kernel with
  | none =>
    simp only [procSetvar, found]
    exact held
  | some proc =>
    simp only [AsksOwn, found] at asks
    simp only [procSetvar, found]
    refine ⟨confined_of_ids notRoot ?_ fun p other => ?_, ?_⟩
    · rw [set_var_ids]
      exact held.own
    · rw [← held.vars p other]
      by_cases here : p = proc
      · rw [here] at other ⊢
        rw [asks.resolve_left other]
        simp [Os.setDetails]
      · simp [Os.setDetails, here]
    · rw [set_details_keeps Details.system _ (by intro d; rfl)]
      exact held.plain

theorem step_of_call (user : StoresToUser w c) (ran : stepOf stray P w (.call c) = some w') :
    w.kernel.procCurrent = P ∧ c.run w = some w' := by
  obtain ⟨current, ran⟩ := Option.ite_none_right_eq_some.mp ran
  obtain ⟨next, stepped, same⟩ := Option.map_eq_some_iff.mp ran
  obtain ⟨-, called⟩ := Option.ite_none_right_eq_some.mp stepped
  rw [if_pos user] at same
  exact ⟨current, same ▸ called⟩

theorem step_held (notRoot : ∀ id ∈ ids start P, id ≠ permRoot) (held : Held start P w)
    (user : UserStores w e) (asks : AsksOwn start P w e) (ran : stepOf stray P w e = some w') :
    Held start P w' := by
  cases e with
  | shedule =>
    cases ran
    rw [Exec.state_within]
    exact held.same notRoot
      (identities_of_kernel rfl (shedule_untouched kernel_ids_untouched w.kernel))
  | wake proc =>
    obtain ⟨-, rfl⟩ := onlyIf_eq_some ran
    exact held.same notRoot
      (identities_of_kernel rfl (wake_keeps _ (fun _ _ => rfl) proc w.kernel))
  | call c =>
    obtain ⟨current, ran⟩ := step_of_call user ran
    rcases call_identities (by rw [current]; exact held.plain) ran with
      same | ⟨id, uid, rfl⟩ | ⟨id, gid, rfl⟩ | ⟨pid, var, rfl⟩
    · exact held.same notRoot same
    · cases ran
      exact held.takes notRoot current (set_id_takes w id uid).1 asks
    · cases ran
      exact held.takes notRoot current (set_id_takes w id gid).2 asks
    · cases ran
      exact held.setvar notRoot asks

/-- A new id that is none of the process's own. -/
theorem takes_escapes (current : w.kernel.procCurrent = P) (takes : TakesId w w' id new)
    (foreign : ¬ (id ∉ [1, 2, 3] ∨ new ∈ ids start P)) : ¬ Confined start P w' := by
  rw [not_or, not_not] at foreign
  intro confined
  exact foreign.2 (confined.own new (current ▸ takes.taken foreign.1))

theorem step_escapes (held : Held start P w) (user : UserStores w e)
    (foreign : ¬ AsksOwn start P w e) (ran : stepOf stray P w e = some w') :
    ¬ Confined start P w' := by
  cases e with
  | shedule | wake => exact absurd trivial foreign
  | call c =>
    obtain ⟨current, ran⟩ := step_of_call user ran
    cases c with
    | setuid id uid =>
      cases ran
      exact takes_escapes current (set_id_takes w id uid).1 foreign
    | setgid id gid =>
      cases ran
      exact takes_escapes current (set_id_takes w id gid).2 foreign
    | setvar pid var =>
      cases ran
      intro confined
      cases found : procFind pid w.kernel with
      | none => simp [AsksOwn, found] at foreign
      | some proc =>
        simp only [AsksOwn, found, not_or] at foreign
        have new := confined.vars proc foreign.1
        rw [← held.vars proc foreign.1] at new
        simp [procSetvar, found, Os.setDetails] at new
        exact foreign.2 new.symm
    | _ => exact absurd trivial foreign

end Runs

/-- A process that is neither privileged nor root, and whose calls store to user memory only, keeps
its ids, and the variables of the other processes, in exactly those runs in which it asks for
nothing else. -/
theorem confined_iff_asks_own (stray : Os → Os) (w : Os) (P : Ptr) (events : List ProcmSyscalls.Event)
    (plain : (w.details P).system = 0) (notRoot : ∀ id ∈ ids w P, id ≠ permRoot)
    (user : Along (stepOf stray P) UserStores w events)
    (ran : run (stepOf stray P) w events = some w') :
    Throughout (stepOf stray P) (Confined w P) w events ↔
      Along (stepOf stray P) (AsksOwn w P) w events := by
  have start : Held w P w :=
    ⟨confined_of_ids notRoot (fun _ member => member) fun _ _ => rfl, plain⟩
  exact throughout_iff_along_where (fun s held => held.toConfined)
    (fun s e t held user asks ran => step_held notRoot held user asks ran)
    (fun s e t held user foreign ran => step_escapes held user foreign ran) start user ran

/-- Two processes of one user, of which the first one runs. -/
def guestOs : Os :=
  { oneOs 1 with
    kernel := { (oneOs 1).kernel with
      procs := fun p => { staleBlock with pid := p, uid := 100, gid := 100 }
      procAll := [1, 2]
      procRunning := [1, 2] }
    details := fun p => { (oneOs 1).details p with
      euid := 100
      suid := 100
      egid := 100
      sgid := 100
      system := 0 } }

/-- The guest asks for ids of its own, for its own variable, and for a page of its neighbour, with
a pointer to its own stack. -/
def guestCalls : List ProcmSyscalls.Event :=
  [.call (.setuid 2 100), .call (.setvar 1 7), .call (.memget 2 0 0xFFBFE000 0 0 0), .shedule]

instance (w : Os) : (e : ProcmSyscalls.Event) → Decidable (UserStores w e)
  | .shedule | .wake _ => isTrue trivial
  | .call c => inferInstanceAs (Decidable (StoresToUser w c))

theorem guest_keeps_own_ids :
    Throughout (stepOf (procSetuid · 1 permRoot) 1) (Confined guestOs 1) guestOs guestCalls := by
  obtain ⟨last, ran⟩ := Option.isSome_iff_exists.mp (show (run (stepOf (procSetuid · 1 permRoot) 1)
    guestOs guestCalls).isSome = true by decide +kernel)
  refine (confined_iff_asks_own (procSetuid · 1 permRoot) guestOs 1 _ (by decide) (by decide)
    (by decide +kernel) ran).mpr ?_
  exact ⟨Or.inr (by decide), Or.inl rfl, trivial, trivial, trivial⟩

/-- One call makes a process root, another one changes the variable of its neighbour. -/
theorem guest_becomes_root : (guestOs.details 1).system = 0 ∧ (∀ id ∈ ids guestOs 1, id ≠ permRoot) ∧
    StoresToUser guestOs (.setuid 1 permRoot) ∧ StoresToUser guestOs (.setvar 2 7) ∧
    ∀ stray, ¬ Throughout (stepOf stray 1) (Confined guestOs 1) guestOs [.call (.setuid 1 permRoot)] ∧
      ¬ Throughout (stepOf stray 1) (Confined guestOs 1) guestOs [.call (.setvar 2 7)] := by
  have asks : StoresToUser guestOs (.setuid 1 permRoot) ∧ StoresToUser guestOs (.setvar 2 7) := by
    decide +kernel
  refine ⟨by decide, by decide, asks.1, asks.2, fun stray => ⟨fun holds => ?_, fun holds => ?_⟩⟩
  · have confined := holds _ (procSetuid guestOs 1 permRoot) (List.prefix_refl _) rfl
    have root : permRoot ∈ ids guestOs 1 := confined.own _ (by decide)
    exact absurd root (by decide)
  · have confined := holds _ (procSetvar guestOs 2 7) (List.prefix_refl _) rfl
    exact absurd (confined.vars 2 (by decide)) (by decide)

end MeinOS.ProcmIdentity
