import MeinOS.Ipc
import MeinOS.Lib.Runs
import MeinOS.ProcmLists

/-! Message queues, `kernel2/msg.c`. A send pushes the message on the queue, wakes
every waiting receiver and, if it blocks, puts the sender to sleep; a receive takes
the first message of a matching type.

`ipc_msg_recv` frees the message it returns and leaves it on the list. What freed
memory holds is anything, so every receive is given what it would read there. -/
namespace MeinOS.Msg
open Lib Lib.Runs Llist Procm Ipc

/-- `ipc_msg_msg_t`. The block behind `data` is allocated and freed together with
the record. -/
structure Message where
  data : List Byte
  size : Nat
  type : BitVec 32
  flags : BitVec 32
  sender : Ptr
  deriving DecidableEq

/-- `ipc_msg_t` after its `ipc_obj_t`. -/
structure Msq where
  msgs : List Ptr
  waiting : List Ptr
  mode : BitVec 32
  lrpid : Int
  lspid : Int
  stime : Int
  rtime : Int
  ctime : Int
  deriving DecidableEq

/-- The IPC objects with the queues and the messages in the kernel heap. -/
structure Queues extends Objects where
  msqs : Ptr → Msq
  messages : Ptr → Message
  allocated : List Ptr

/-- A zeroed `ipc_msg_t` with its two empty lists. -/
def emptyMsq : Msq where
  msgs := []
  waiting := []
  mode := 0
  lrpid := 0
  lspid := 0
  stime := 0
  rtime := 0
  ctime := 0

/-- Writes one queue. -/
def Queues.setMsq (s : Queues) (msq : Ptr) (value : Msq) : Queues :=
  { s with msqs := Function.update s.msqs msq value }

/-- Reads a message; freed memory holds what `stale` says. -/
def Queues.message (s : Queues) (stale : Ptr → Message) (msg : Ptr) : Message :=
  if msg ∈ s.allocated then s.messages msg else stale msg

/-- The permission check of the queue functions, which passes the caller as the
owner and the owner as the one who asks, and the mode of the queue that only
`msg_set` writes. -/
def permitted (msq : Ptr) (op : PermOp) (s : Queues) : Bool :=
  let owner := s.kernel.procs (s.ipc msq).owner
  permCheck s.caller.pid s.caller.gid owner.uid owner.gid (s.msqs msq).mode op

/-- There is a queue with this key already. -/
def keyTaken (key : Int) (s : Queues) : Bool :=
  key ≠ ipcPrivate && (ipcFind key (-1) .msg s.toObjects).isSome

/-- `ipc_msg_create`, given the block that `malloc` finds. -/
def ipcMsgCreate (new : Ptr) (key : Int) (mode : BitVec 32) (time : Int) (s : Queues) : Int × Queues :=
  if keyTaken key s then (-einval, s)
  else
    let header : IpcObj := ⟨.msg, s.ipcLastid, key, s.kernel.procCurrent, s.kernel.procCurrent, mode⟩
    (s.ipcLastid,
      { s with
        ipcLastid := s.ipcLastid + 1
        ipc := Function.update s.ipc new header
        msqs := Function.update s.msqs new { emptyMsq with ctime := time }
        ipcObjects := llistPush s.ipcObjects new })

/-- Pops every waiting receiver and wakes it. -/
def wakeAll (waiting : List Ptr) (k : Kernel) : Kernel :=
  waiting.foldl (fun k waiter => procWake waiter k) k

/-- What a call of `ipc_msg_send` is given: its arguments and the block `malloc`
finds for the message. -/
structure Send where
  id : Int
  new : Ptr
  data : List Byte
  type : BitVec 32
  flags : BitVec 32
  time : Int
  deriving DecidableEq

/-- The message a call of `ipc_msg_send` queues. -/
def Send.message (c : Send) (sender : Ptr) : Message :=
  ⟨c.data, c.data.length, c.type, c.flags, sender⟩

/-- Puts the message on the queue and wakes the receivers. -/
def enqueue (c : Send) (msq : Ptr) (s : Queues) : Queues :=
  let queue := s.msqs msq
  let s := s.setMsq msq { queue with
    lspid := s.caller.pid
    stime := c.time
    msgs := llistPush queue.msgs c.new
    waiting := [] }
  { s with
    messages := Function.update s.messages c.new (c.message s.kernel.procCurrent)
    allocated := c.new :: s.allocated
    kernel := wakeAll queue.waiting s.kernel }

/-- `proc_sleep(proc_current)` inside a queue function. -/
def sleepCaller (s : Queues) : Exec Queues Unit :=
  (procSleep s.kernel.procCurrent s.kernel).within fun k => { s with kernel := k }

/-- `ipc_msg_send`. -/
def ipcMsgSend (c : Send) (s : Queues) : Exec Queues Int :=
  match ipcFind (-1) c.id .msg s.toObjects with
  | none => .ret (-einval) s
  | some msq =>
    if permitted msq .w s then
      let s := enqueue c msq s
      if c.flags &&& ipcNowait ≠ c.flags then (sleepCaller s).andThen fun _ s => .ret 0 s
      else .ret 0 s
    else .ret (-eacces) s

/-- The type selection of `ipc_msg_recv`. -/
def typeMatches (type msgType : BitVec 32) : Bool :=
  msgType = type || type = 0 || (type.slt 0 && msgType.sle (-type))

/-- What a call of `ipc_msg_recv` is given, and what it finds in freed memory. -/
structure Recv where
  id : Int
  msgsz : Nat
  type : BitVec 32
  flags : BitVec 32
  time : Int
  stale : Ptr → Message

/-- What a call of `ipc_msg_recv` returns: its value and the bytes it copied. -/
structure Received where
  ret : Int
  data : List Byte
  deriving DecidableEq

/-- The search loop of `ipc_msg_recv`. -/
def recvIndex (c : Recv) (msq : Ptr) (s : Queues) : Option Nat :=
  (s.msqs msq).msgs.findIdx? fun msg => typeMatches c.type (s.message c.stale msg).type

/-- Copies the message out, wakes its sender and frees it. -/
def deliver (c : Recv) (msq msg : Ptr) (s : Queues) : Exec Queues Received :=
  let message := s.message c.stale msg
  let count := if c.msgsz > message.size then message.size else c.msgsz
  let kernel := if message.flags &&& ipcNowait = c.flags then procWake message.sender s.kernel
    else s.kernel
  let queue := { s.msqs msq with lrpid := s.caller.pid, rtime := c.time }
  .ret ⟨count, message.data.take count⟩
    { s.setMsq msq queue with kernel := kernel, allocated := s.allocated.erase msg }

/-- Puts the caller on the list of waiting receivers and to sleep. -/
def waitForMessage (msq : Ptr) (s : Queues) : Exec Queues Received :=
  let queue := s.msqs msq
  let s := s.setMsq msq { queue with waiting := llistPush queue.waiting s.kernel.procCurrent }
  (sleepCaller s).andThen fun _ s => .ret ⟨0, []⟩ s

/-- `ipc_msg_recv`. -/
def ipcMsgRecv (c : Recv) (s : Queues) : Exec Queues Received :=
  match ipcFind (-1) c.id .msg s.toObjects with
  | none => .ret ⟨-einval, []⟩ s
  | some msq =>
    if permitted msq .r s then
      match (recvIndex c msq s).bind (llistGet (s.msqs msq).msgs) with
      | some msg => deliver c msq msg s
      | none =>
        if c.flags &&& ipcNowait = 0 then waitForMessage msq s
        else .ret ⟨-enomsg, []⟩ s
    else .ret ⟨-eacces, []⟩ s

/-- The first loop of `ipc_msg_destroy`: wakes the sender of a message and frees it. -/
def dropMessage (stale : Ptr → Message) (s : Queues) (msg : Ptr) : Queues :=
  let message := s.message stale msg
  { s with
    kernel := if message.flags &&& ipcNowait ≠ message.flags then procWake message.sender s.kernel
      else s.kernel
    allocated := s.allocated.erase msg }

/-- `ipc_msg_destroy`. -/
def ipcMsgDestroy (id : Int) (stale : Ptr → Message) (s : Queues) : Int × Queues :=
  match ipcFind (-1) id .msg s.toObjects with
  | none => (-einval, s)
  | some msq =>
    if permitted msq .w s then
      let queue := s.msqs msq
      let s := queue.msgs.foldl (dropMessage stale) s
      (0, { s.setMsq msq { queue with msgs := [], waiting := [] } with
        kernel := wakeAll queue.waiting s.kernel
        ipcObjects := (llistRemove s.ipcObjects (llistFind s.ipcObjects msq)).2 })
    else (-eacces, s)

/-- The queue a call works on, if it gets past its checks. -/
def target (id : Int) (op : PermOp) (s : Queues) : Option Ptr :=
  (ipcFind (-1) id .msg s.toObjects).filter fun msq => permitted msq op s

/-- The queues together with what happened to each message. Messages are numbered
in the order they are sent: `serials` follows the `msgs` list of each queue, `sent`
has queue and type of each message, `returned` the messages that receives gave
out, and `touched` whether a receive looked at a freed message. -/
structure History extends Queues where
  serials : Ptr → List Nat
  sent : List (Ptr × BitVec 32)
  returned : List Nat
  touched : Bool

/-- `ipc_init`, before any queue exists. -/
def start (k : Kernel) : History where
  kernel := k
  ipcObjects := []
  ipc := fun _ => ⟨.msg, 0, 0, 0, 0, 0⟩
  ipcLastid := 0
  msqs := fun _ => emptyMsq
  messages := fun _ => ⟨[], 0, 0, 0, 0⟩
  allocated := []
  serials := fun _ => []
  sent := []
  returned := []
  touched := false

/-- Records a send that got past its checks. -/
def recordSend (c : Send) (h : History) : History :=
  match target c.id .w h.toQueues with
  | none => h
  | some msq =>
    { h with
      serials := Function.update h.serials msq (h.sent.length :: h.serials msq)
      sent := h.sent ++ [(msq, c.type)] }

/-- The nodes that the search loop of a receive looks at. -/
def visited (c : Recv) (msq : Ptr) (s : Queues) : List Ptr :=
  match recvIndex c msq s with
  | none => (s.msqs msq).msgs
  | some index => (s.msqs msq).msgs.take (index + 1)

/-- Records a receive that got past its checks. -/
def recordRecv (c : Recv) (h : History) : History :=
  match target c.id .r h.toQueues with
  | none => h
  | some msq =>
    { h with
      returned := h.returned ++ ((recvIndex c msq h.toQueues).bind (llistGet (h.serials msq))).toList
      touched := h.touched || (visited c msq h.toQueues).any fun msg => msg ∉ h.allocated }

/-- The events of the queues: calls by the current process, and whatever the
process manager does in between. -/
inductive Event where
  | create (new : Ptr) (key : Int) (mode : BitVec 32) (time : Int)
  | send (c : Send)
  | recv (c : Recv)
  | proc (event : ProcmLists.Event)

/-- One event. `malloc` hands out memory that is not in use. -/
def step (h : History) : Event → Option History
  | .create new key mode time =>
    onlyIf (h.kernel.procCurrent ≠ 0 ∧ new ≠ 0 ∧ new ∉ h.ipcObjects)
      { h with
        toQueues := (ipcMsgCreate new key mode time h.toQueues).2
        serials := if keyTaken key h.toQueues then h.serials
          else Function.update h.serials new [] }
  | .send c =>
    onlyIf (h.kernel.procCurrent ≠ 0 ∧ c.new ≠ 0 ∧ c.new ∉ h.allocated)
      { recordSend c h with toQueues := (ipcMsgSend c h.toQueues).state }
  | .recv c =>
    onlyIf (h.kernel.procCurrent ≠ 0)
      { recordRecv c h with toQueues := (ipcMsgRecv c h.toQueues).state }
  | .proc event => (ProcmLists.step h.kernel event).map fun k => { h with kernel := k }

/-- What a typed queue promises: a message is returned at most once, a returned
message has left its queue, no receive looks at a freed message, and messages of
one queue and type are returned in the order they were sent. -/
structure TypedFifo (h : History) : Prop where
  once : h.returned.Nodup
  removed : ∀ n ∈ h.returned, ∀ msq, n ∉ h.serials msq
  untouched : h.touched = false
  ordered : h.returned.Pairwise fun m n => h.sent[m]? = h.sent[n]? → m < n

/-- A receive that gets past its checks finds no message of a matching type. -/
def NothingMatches (h : History) : Event → Prop
  | .recv c => ∀ msq ∈ target c.id .r h.toQueues, ∀ msg ∈ (h.msqs msq).msgs,
    typeMatches c.type (h.message c.stale msg).type = false
  | _ => True

instance (h : History) : (event : Event) → Decidable (NothingMatches h event)
  | .recv _ => inferInstanceAs (Decidable (∀ _ ∈ _, _))
  | .create .. | .send _ | .proc _ => isTrue trivial

@[simp] theorem sleep_caller_queues (s : Queues) :
    (sleepCaller s).state.msqs = s.msqs ∧ (sleepCaller s).state.allocated = s.allocated := by
  simp [sleepCaller]

theorem target_eq_some {id : Int} : target id op s = some msq ↔
    ipcFind (-1) id .msg s.toObjects = some msq ∧ permitted msq op s = true := by
  simp [target, Option.filter_eq_some_iff]

/-- A call that gets past its checks pushes its message on the queue. -/
theorem send_accepted (accepted : target c.id .w s = some msq) :
    (ipcMsgSend c s).state.msqs = (enqueue c msq s).msqs ∧
      (ipcMsgSend c s).state.allocated = c.new :: s.allocated := by
  obtain ⟨found, allowed⟩ := target_eq_some.mp accepted
  have stored : (enqueue c msq s).allocated = c.new :: s.allocated := rfl
  simp only [ipcMsgSend, found, allowed, ↓reduceIte]
  split
  · rw [Exec.state_andThen_ret]
    obtain ⟨queues, blocks⟩ := sleep_caller_queues (enqueue c msq s)
    exact ⟨queues, blocks.trans stored⟩
  · exact ⟨rfl, stored⟩

theorem send_refused (refused : target c.id .w s = none) : (ipcMsgSend c s).state = s := by
  unfold ipcMsgSend
  cases found : ipcFind (-1) c.id .msg s.toObjects with
  | none => rfl
  | some msq =>
    have denied : permitted msq .w s = false := by
      cases allowed : permitted msq .w s with
      | false => rfl
      | true => simp [target_eq_some.mpr ⟨found, allowed⟩] at refused
    simp [denied]

/-- No receive takes a message off its list. -/
theorem recv_msgs (c : Recv) (s : Queues) (msq : Ptr) :
    ((ipcMsgRecv c s).state.msqs msq).msgs = (s.msqs msq).msgs := by
  have rewritten : ∀ (queue : Ptr) (value : Msq), value.msgs = (s.msqs queue).msgs →
      ((s.setMsq queue value).msqs msq).msgs = (s.msqs msq).msgs := by
    intro queue value same
    by_cases here : msq = queue
    · subst here
      simpa [Queues.setMsq] using same
    · simp [Queues.setMsq, here]
  unfold ipcMsgRecv
  split
  · rfl
  · split
    · split
      · exact rewritten _ _ rfl
      · split
        · simp only [waitForMessage, Exec.state_andThen_ret, sleep_caller_queues]
          exact rewritten _ _ rfl
        · rfl
    · rfl

/-- A receive without a match frees nothing. -/
theorem recv_unmatched (nothing : ∀ msq ∈ target c.id .r s, recvIndex c msq s = none) :
    (ipcMsgRecv c s).state.allocated = s.allocated := by
  unfold ipcMsgRecv
  cases found : ipcFind (-1) c.id .msg s.toObjects with
  | none => rfl
  | some msq =>
    cases allowed : permitted msq .r s with
    | false => simp [allowed]
    | true =>
      have none := nothing msq (target_eq_some.mpr ⟨found, allowed⟩)
      simp only [allowed, none, Option.bind_none, ↓reduceIte]
      split
      · simp only [waitForMessage, Exec.state_andThen_ret, sleep_caller_queues]
        rfl
      · rfl

theorem recv_index_none : recvIndex c msq s = none ↔
    ∀ msg ∈ (s.msqs msq).msgs, typeMatches c.type (s.message c.stale msg).type = false := by
  simp [recvIndex, List.findIdx?_eq_none_iff]

/-- The queues while nothing has been received: every message on a list is still
allocated, and the numbers follow the lists. -/
structure Pending (h : History) : Prop where
  nothing : h.returned = []
  untouched : h.touched = false
  live : ∀ msq, ∀ msg ∈ (h.msqs msq).msgs, msg ∈ h.allocated
  parallel : ∀ msq, (h.serials msq).length = (h.msqs msq).msgs.length

section
variable (pending : Pending h)
include pending

theorem Pending.typed_fifo : TypedFifo h where
  once := by simp [pending.nothing]
  removed := by simp [pending.nothing]
  untouched := pending.untouched
  ordered := by simp [pending.nothing]

theorem create_pending (new : Ptr) (key : Int) (mode : BitVec 32) (time : Int) :
    Pending { h with
      toQueues := (ipcMsgCreate new key mode time h.toQueues).2
      serials := if keyTaken key h.toQueues then h.serials
        else Function.update h.serials new [] } := by
  obtain ⟨nothing, untouched, live, parallel⟩ := pending
  cases taken : keyTaken key h.toQueues with
  | true => simpa [ipcMsgCreate, taken] using Pending.mk nothing untouched live parallel
  | false =>
    refine ⟨nothing, untouched, fun msq => ?_, fun msq => ?_⟩
    · by_cases same : msq = new
      · subst same
        simp [ipcMsgCreate, taken, emptyMsq]
      · simpa [ipcMsgCreate, taken, same] using live msq
    · by_cases same : msq = new
      · subst same
        simp [ipcMsgCreate, taken, emptyMsq]
      · simpa [ipcMsgCreate, taken, same] using parallel msq

theorem send_pending (c : Send) :
    Pending { recordSend c h with toQueues := (ipcMsgSend c h.toQueues).state } := by
  obtain ⟨nothing, untouched, live, parallel⟩ := pending
  cases accepted : target c.id .w h.toQueues with
  | none =>
    simp only [recordSend, accepted, send_refused accepted]
    exact ⟨nothing, untouched, live, parallel⟩
  | some queue =>
    obtain ⟨queues, blocks⟩ := send_accepted accepted
    simp only [recordSend, accepted]
    refine ⟨nothing, untouched, fun msq => ?_, fun msq => ?_⟩
    · simp only [queues, blocks]
      by_cases same : msq = queue
      · subst same
        intro msg member
        simp only [enqueue, Queues.setMsq, Function.update_self, mem_llist_push] at member
        rcases member with new | old
        · exact List.mem_cons.mpr (.inl new)
        · exact List.mem_cons_of_mem _ (live msq msg old)
      · intro msg member
        simp only [enqueue, Queues.setMsq, Function.update_of_ne same] at member
        exact List.mem_cons_of_mem _ (live msq msg member)
    · simp only [queues]
      by_cases same : msq = queue
      · subst same
        simp [enqueue, Queues.setMsq, llistPush, parallel msq]
      · simp [enqueue, Queues.setMsq, same, parallel msq]

theorem recv_pending (c : Recv) (unmatched : NothingMatches h (.recv c)) :
    Pending { recordRecv c h with toQueues := (ipcMsgRecv c h.toQueues).state } := by
  obtain ⟨nothing, untouched, live, parallel⟩ := pending
  have none : ∀ msq ∈ target c.id .r h.toQueues, recvIndex c msq h.toQueues = none :=
    fun msq accepted => recv_index_none.mpr (unmatched msq accepted)
  have blocks := recv_unmatched none
  have lists := recv_msgs c h.toQueues
  have same : (recordRecv c h).serials = h.serials := by
    unfold recordRecv
    split <;> rfl
  refine ⟨?_, ?_, fun msq msg member => ?_, fun msq => ?_⟩
  · simp only [recordRecv]
    split
    · exact nothing
    · rename_i queue accepted
      simp [none queue accepted, nothing]
  · simp only [recordRecv]
    split
    · exact untouched
    · rename_i queue accepted
      simp only [untouched, visited, none queue accepted, Bool.false_or, List.any_eq_false,
        decide_eq_true_eq, Decidable.not_not]
      exact live queue
  · simp only [lists] at member
    simp only [blocks]
    exact live msq msg member
  · simp only [lists, same]
    exact parallel msq

/-- While receives find nothing, nothing goes wrong. -/
theorem step_pending (unmatched : NothingMatches h event) (ran : step h event = some h') :
    Pending h' := by
  cases event with
  | create new key mode time =>
    obtain ⟨-, rfl⟩ := onlyIf_eq_some ran
    exact create_pending pending new key mode time
  | send c =>
    obtain ⟨-, rfl⟩ := onlyIf_eq_some ran
    exact send_pending pending c
  | recv c =>
    obtain ⟨-, rfl⟩ := onlyIf_eq_some ran
    exact recv_pending pending c unmatched
  | proc event =>
    obtain ⟨k, -, rfl⟩ := Option.map_eq_some_iff.mp ran
    exact ⟨pending.nothing, pending.untouched, pending.live, pending.parallel⟩

/-- The first receive that finds a message returns it and leaves it on its queue. -/
theorem step_keeps_returned (matched : ¬ NothingMatches h event) (ran : step h event = some h') :
    ¬ TypedFifo h' := by
  cases event with
  | create | send | proc => exact absurd trivial matched
  | recv c =>
    obtain ⟨-, rfl⟩ := onlyIf_eq_some ran
    simp only [NothingMatches, Option.mem_def, not_forall] at matched
    obtain ⟨queue, accepted, msg, member, found⟩ := matched
    have some : recvIndex c queue h.toQueues ≠ none := fun none =>
      found (recv_index_none.mp none msg member)
    obtain ⟨index, located⟩ := Option.ne_none_iff_exists'.mp some
    have inside : index < (h.serials queue).length := by
      rw [pending.parallel]
      exact (List.findIdx?_eq_some_iff_getElem.mp located).1
    intro fifo
    have kept := fifo.removed (h.serials queue)[index]
    simp only [recordRecv, accepted, located, pending.nothing, Option.bind_some, llistGet,
      List.getElem?_eq_getElem inside, Option.toList_some, List.nil_append,
      List.mem_singleton, forall_const] at kept
    exact kept queue (List.getElem_mem inside)

end

theorem start_pending (k : Kernel) : Pending (start k) :=
  ⟨rfl, rfl, fun _ _ member => by simp [start, emptyMsq] at member, fun _ => rfl⟩

/-- A run of sends and receives keeps the promises of a typed queue in every
state exactly if no receive of the run finds a message. -/
theorem queue_is_fifo_iff_nothing_received (k : Kernel) (events : List Event)
    (ran : run step (start k) events = some h) :
    Throughout step TypedFifo (start k) events ↔ Along step NothingMatches (start k) events := by
  have good : ∀ h, Pending h → TypedFifo h := fun _ => Pending.typed_fifo
  apply throughout_iff_along good
  · intro h event h' pending unmatched stepped
    exact step_pending pending unmatched stepped
  · intro h event h' pending matched stepped
    exact step_keeps_returned pending matched stepped
  · exact start_pending k
  · exact ran

/-- A kernel with one process, which is root and runs. -/
def oneProcess : Kernel :=
  ((ProcmLists.step (procInit ProcmLists.bootKernel)
    (.create ⟨1, ProcmLists.staleBlock, 11, 1, 1, 0, true⟩)).bind
      (ProcmLists.step · .shedule)).getD ProcmLists.bootKernel

/-- Two messages of one type go into a queue and two receives ask for that type. -/
def twiceReceived : List Event :=
  [.create 100 7 0 0, .send ⟨0, 200, [1], 5, 0, 0⟩, .send ⟨0, 201, [2], 5, 0, 0⟩,
    .recv ⟨0, 1, 5, 0, 0, fun _ => ⟨[9], 1, 5, 0, 1⟩⟩, .recv ⟨0, 1, 5, 0, 0, fun _ => ⟨[9], 1, 5, 0, 1⟩⟩]

/-- Both receives return the second message, which stays on its queue; the second
receive reads it after it was freed. -/
theorem second_receive_reads_freed_message :
    ∃ h, run step (start oneProcess) twiceReceived = some h ∧ h.returned = [1, 1] ∧
      h.serials 100 = [1, 0] ∧ h.touched = true ∧ ¬ TypedFifo h := by
  refine ⟨_, rfl, by decide, by decide, by decide, fun fifo => ?_⟩
  exact absurd fifo.untouched (by decide)

/-- A receive that asks for another type finds nothing. -/
def otherTypeReceived : List Event :=
  [.create 100 7 0 0, .send ⟨0, 200, [1], 5, 0, 0⟩, .recv ⟨0, 1, 6, 0x203, 0, fun _ => ⟨[9], 1, 5, 0, 1⟩⟩]

theorem other_type_run_is_fifo :
    ∃ h, run step (start oneProcess) otherTypeReceived = some h ∧
      Throughout step TypedFifo (start oneProcess) otherTypeReceived :=
  ⟨_, rfl, (queue_is_fifo_iff_nothing_received oneProcess otherTypeReceived rfl).mpr (by decide)⟩

end MeinOS.Msg
