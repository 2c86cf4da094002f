import Glenda.Proc.Steps
import Glenda.Lib.Traced

/-!
# The scheduler

Model of `proc/scheduler.rs`, `proc/runnable_queue.rs`, of `alloc`, `fork` and `exit` of `proc/process.rs`, and of
the timer, on the one hart that runs the scheduler. A process runs with interrupts disabled until it switches to
the scheduler, so a step is what happens between two switches, or what one system call does. What the
processes do to their memory is that of `Kernel`.

A lock that is taken is put on `held`, and each attempt to take one is recorded with the locks that are held at
that moment. An attempt to take a lock twice is recorded and otherwise has no effect.
-/

namespace Glenda.Proc
open Glenda.Lib Glenda.Mem

inductive Lock
  | bitmap
  | procTable
  deriving DecidableEq, Repr

/-- Where a process is in the kernel when it is switched to: on its way to user mode, in the loop of `wait`, or
in the loop of `timer::wait`. -/
inductive Inside
  | user
  | wait
  | timer (target : Nat)
  deriving DecidableEq, Repr

structure Machine where
  k : Kernel
  /-- `RUNNABLE_BITMAP`. -/
  bitmap : BitVec 64
  /-- `hart.proc`. -/
  proc : Option Nat
  /-- `SYS_TICKS`. -/
  ticks : Nat
  inside : Nat → Inside
  held : List Lock
  attempts : List (Lock × List Lock)

def onKernel {α : Type} (x : K Kernel α) : T Machine α := fun m =>
  match x m.k with
  | .ok (a, k) => (.ok a, { m with k := k })
  | .error p => (.error p, m)

def lock (l : Lock) : T Machine Unit := modify fun m => { m with held := l :: m.held, attempts := (l, m.held) :: m.attempts }

/-- The guard that was taken last is dropped. -/
def unlock : T Machine Unit := modify fun m => { m with held := m.held.tail }

def withLock {α : Type} (l : Lock) (x : T Machine α) : T Machine α := do
  lock l
  let a ← x
  unlock
  return a

def state (i : Nat) : T Machine ProcState := return ((← get).k.procs i).state

/-! ### The queue of runnable processes -/

def mark (b : BitVec 64) (i : Nat) : BitVec 64 := if NPROC ≤ i then b else b ||| 1#64 <<< i
def unmark (b : BitVec 64) (i : Nat) : BitVec 64 := if NPROC ≤ i then b else b &&& ~~~(1#64 <<< i)

def markRunnable (i : Nat) : T Machine Unit := modify fun m => { m with bitmap := mark m.bitmap i }
def markNotRunnable (i : Nat) : T Machine Unit := modify fun m => { m with bitmap := unmark m.bitmap i }
def clearRunnableBit (i : Nat) : T Machine Unit := modify fun m => { m with bitmap := unmark m.bitmap i }

def trailingZeros (b : BitVec 64) : Nat := ((List.range 64).find? b.getLsbD).getD 64

def findRunnable (b : BitVec 64) : Option Nat :=
  if b = 0 then none
  else if trailingZeros b < NPROC then some (trailingZeros b) else none

/-- Where the table of processes lies, and the size of a process. -/
structure TableLayout where
  base : Nat
  size : Nat
  size_pos : 0 < size

def TableLayout.addr (A : TableLayout) (i : Nat) : Nat := A.base + i * A.size

def TableLayout.index (A : TableLayout) (procAddr : Nat) : Option Nat :=
  if procAddr < A.base then none
  else
    let idx := (procAddr - A.base) / A.size
    if idx < NPROC ∧ A.base + idx * A.size = procAddr then some idx else none

variable (P : Profile) (E : Env) (A : TableLayout)

def findProcIndex (i : Nat) : T Machine (Option Nat) := withLock .procTable (return A.index (A.addr i))

/-! ### Switching -/

/-- `scheduler` from the switch to the process `i` on. -/
def switchBack (i : Nat) : T Machine Unit := do
  modify fun m => { m with proc := none }
  withLock .bitmap (withLock .procTable do
    if (← state i) = .dying then onKernel (setProc i ({ · with state := .zombie }))
    else if (← state i) = .runnable then markRunnable i)

/-- `scheduler` up to the switch. -/
def dispatch : T Machine Unit := do
  match findRunnable (← get).bitmap with
  | none => return ()
  | some i =>
    let found ← withLock .bitmap (withLock .procTable do
      if (← state i) = .runnable then
        onKernel (setProc i ({ · with state := .running }))
        clearRunnableBit i
        return true
      else
        clearRunnableBit i
        return false)
    if found then modify fun m => { m with proc := some i }

def yieldProc (i : Nat) : T Machine Unit := do
  if (← state i) = .running then
    onKernel (setProc i ({ · with state := .runnable }))
    if let some idx ← findProcIndex A i then markRunnable idx
  switchBack i

def sleep (i chan : Nat) : T Machine Unit := do
  withLock .procTable do
    onKernel (setProc i ({ · with state := .sleeping, sleepChan := some chan }))
    if let some idx ← findProcIndex A i then markNotRunnable idx
  switchBack i

/-- The slots that `wakeup` wakes. -/
def Kernel.sleepers (k : Kernel) (chan : Nat) : List Nat :=
  (List.range NPROC).filter fun i => (k.procs i).state = .sleeping ∧ (k.procs i).sleepChan = some chan

def wakeupLocked (chan : Nat) : T Machine Unit :=
  withLock .bitmap (withLock .procTable do
    let woken := (← get).k.sleepers chan
    onKernel (wakeup chan)
    woken.forM markRunnable)

/-! ### Processes -/

def allocLocked : T Machine (Option Nat) :=
  withLock .procTable do
    let o ← onKernel alloc
    if let some i := o then
      modify fun m => { m with inside := Function.update m.inside i .user }
      markRunnable i
    return o

def createLocked (payload : List Nat) : T Machine Unit := do
  let i ← onKernel (expect (← allocLocked))
  onKernel (createIn P E i payload)

/-- The child's slot. -/
def forkLocked (i : Nat) : T Machine Nat := do
  let c ← onKernel (expect (← allocLocked))
  onKernel (forkInto P E i c)
  return c

def exitLocked (i : Nat) : T Machine Unit := do
  if let some parent := ((← get).k.procs i).parent then wakeupLocked parent
  withLock .procTable do
    onKernel (mapProcs fun p => if p.parent = some i then { p with parent := some 0 } else p)
    markNotRunnable i
  onKernel (setProc i ({ · with state := .dying }))

def sysExitLocked (i code : Nat) : T Machine Unit := do
  onKernel (setProc i ({ · with exitCode := code }))
  exitLocked i
  yieldProc A i

/-- One pass of the loop of `wait`. -/
def waitLocked (i : Nat) : T Machine WaitResult := do
  let r ← withLock .procTable do
    let r ← onKernel (wait P E i)
    if r = .slept then
      if let some idx ← findProcIndex A i then markNotRunnable idx
    return r
  modify fun m => { m with inside := Function.update m.inside i (if r = .slept then .wait else .user) }
  if r = .slept then switchBack i
  return r

/-! ### The timer -/

/-- The address of `SYS_TICKS`, which is that of no process. -/
def TICKS_CHAN : Nat := NPROC

def timerUpdate : T Machine Unit := do
  modify fun m => { m with ticks := (m.ticks + 1) % 2 ^ 64 }
  wakeupLocked TICKS_CHAN

/-- One test of the loop of `timer::wait`. -/
def timerPass (i target : Nat) : T Machine Unit := do
  if (← get).ticks < target then
    modify fun m => { m with inside := Function.update m.inside i (.timer target) }
    sleep A i TICKS_CHAN
  else modify fun m => { m with inside := Function.update m.inside i .user }

def timerWait (i ticks : Nat) : T Machine Unit := do
  let target ← onKernel (addW P 64 (← get).ticks ticks)
  timerPass A i target

/-! ### Runs -/

/-- What processes and the kernel tell each other: the child that a process forked, its exit, and a child it has
collected. Processes are named by their pids. -/
inductive Event
  | forked (parent child : Nat)
  | exited (pid code : Nat)
  | reaped (parent child code : Nat)
  deriving DecidableEq, Repr

/-- What the scheduler does while no process runs. A timer interrupt arrives only when it is idle. -/
inductive HeadAction
  | create (payload : List Nat)
  | dispatch
  | tick

/-- What happens while a process runs. `interrupt` is a timer interrupt, `block` and `wake` are the calls of
`sleep` and `wakeup` with any other channel, and `resume` goes on with a call in which the process was
switched away. -/
inductive Call
  | fork
  | exec (file : Option (Nat → Nat → List Nat)) (argv : List Nat)
  | brk (newTop : Nat)
  | mmap (begin len : Nat)
  | munmap (begin len : Nat)
  | stack (faultVa : Nat)
  | exit (code : Nat)
  | wait
  | sleep (ticks : Nat)
  | yield
  | interrupt
  | block (chan : Nat)
  | wake (chan : Nat)
  | resume

def HeadAction.perform : HeadAction → T Machine (List Event)
  | .create payload => do
    createLocked P E payload
    return []
  | .dispatch => do
    Proc.dispatch
    return []
  | .tick => do
    timerUpdate
    return []

def HeadAction.Ready (m : Machine) : HeadAction → Prop
  | .tick => findRunnable m.bitmap = none
  | _ => True

def pidOf (i : Nat) : T Machine Nat := return ((← get).k.procs i).pid

def WaitResult.events (parent : Nat) : WaitResult → List Event
  | .reaped pid exitCode => [.reaped parent pid exitCode]
  | _ => []

def waitEvents (i : Nat) : T Machine (List Event) := do
  let r ← waitLocked P E A i
  return r.events (← pidOf i)

def Call.perform (i : Nat) : Call → T Machine (List Event)
  | .fork => do
    let c ← forkLocked P E i
    return [.forked (← pidOf i) (← pidOf c)]
  | .exec file argv => do
    let _ ← onKernel (procExec P E i file argv)
    return []
  | .brk newTop => do
    let _ ← onKernel (sysBrk P i newTop)
    return []
  | .mmap begin len => do
    let _ ← onKernel (sysMmap P i begin len)
    return []
  | .munmap begin len => do
    let _ ← onKernel (sysMunmap P i begin len)
    return []
  | .stack faultVa => do
    let _ ← onKernel (ustackGrow P i faultVa)
    return []
  | .exit code => do
    let pid ← pidOf i
    sysExitLocked A i code
    return [.exited pid code]
  | .wait => waitEvents P E A i
  | .sleep ticks => do
    timerWait P A i ticks
    return []
  | .yield => do
    yieldProc A i
    return []
  | .interrupt => do
    timerUpdate
    yieldProc A i
    return []
  | .block chan => do
    Proc.sleep A i chan
    return []
  | .wake chan => do
    wakeupLocked chan
    return []
  | .resume => do
    match (← get).inside i with
    | .user => return []
    | .wait => waitEvents P E A i
    | .timer target =>
      timerPass A i target
      return []

def Call.Ready (m : Machine) (i : Nat) : Call → Prop
  | .resume => m.inside i ≠ .user
  | .sleep ticks => m.inside i = .user ∧ ticks < 2 ^ 64
  | _ => m.inside i = .user

/-- What happens next: something at the head of the loop of the scheduler, or while the process `i` runs. -/
inductive Act
  | head (a : HeadAction)
  | call (i : Nat) (c : Call)

def Act.perform : Act → T Machine (List Event)
  | .head a => a.perform P E
  | .call i c => c.perform P E A i

def Act.Ready (m : Machine) : Act → Prop
  | .head a => m.proc = none ∧ a.Ready m
  | .call i c => m.proc = some i ∧ c.Ready m i

/-- The states that are reached if each act is allowed, with what was told on the way, the last first. -/
inductive Machine.Run (allowed : Machine → Act → Prop) (m₀ : Machine) : List Event → Machine → Prop
  | start : Run allowed m₀ [] m₀
  | step {m m' : Machine} {act : Act} {tr ev : List Event} (h : Run allowed m₀ tr m) (hr : act.Ready m)
      (ha : allowed m act) (he : act.perform P E A m = (.ok ev, m')) : Run allowed m₀ (ev ++ tr) m'

instance (m : Machine) (a : HeadAction) : Decidable (a.Ready m) :=
  match a with
  | .tick => inferInstanceAs (Decidable (findRunnable m.bitmap = none))
  | .create _ | .dispatch => .isTrue trivial

instance (m : Machine) (i : Nat) (c : Call) : Decidable (c.Ready m i) :=
  match c with
  | .resume => inferInstanceAs (Decidable (m.inside i ≠ .user))
  | .sleep ticks => inferInstanceAs (Decidable (m.inside i = .user ∧ ticks < 2 ^ 64))
  | .fork | .exec _ _ | .brk _ | .mmap _ _ | .munmap _ _ | .stack _ | .exit _ | .wait | .yield | .interrupt | .block _
  | .wake _ => inferInstanceAs (Decidable (m.inside i = .user))

instance (m : Machine) (act : Act) : Decidable (act.Ready m) :=
  match act with
  | .head a => inferInstanceAs (Decidable (m.proc = none ∧ a.Ready m))
  | .call i c => inferInstanceAs (Decidable (m.proc = some i ∧ c.Ready m i))

/-- A series of acts, as long as each is ready and passes a test, with what was told before. -/
def performActs (test : Machine → Act → Bool) : List Act → List Event → T Machine (Option (List Event))
  | [], tr => return some tr
  | act :: acts, tr => do
    let m ← get
    let ev ← act.perform P E A
    if act.Ready m ∧ test m act = true then performActs test acts (ev ++ tr) else return none

variable {P E A}

lemma Machine.Run.of_performActs {allowed : Machine → Act → Prop} {test : Machine → Act → Bool}
    (htest : ∀ m act, test m act = true → allowed m act) {acts : List Act} {tr tr' : List Event} {m0 m m' : Machine}
    (h : Machine.Run P E A allowed m0 tr m) (he : performActs P E A test acts tr m = (.ok (some tr'), m')) :
    Machine.Run P E A allowed m0 tr' m' := by
  induction acts generalizing m tr with
  | nil =>
    cases he
    exact h
  | cons act acts ih =>
    obtain ⟨m1, m2, hget, he⟩ := T.bind_ok he
    cases hget
    obtain ⟨ev, m1, hact, he⟩ := T.bind_ok he
    split_ifs at he with hok
    · exact ih (.step h hok.1 (htest _ _ hok.2) hact) he
    · cases he

/-- Before the first process is created. -/
structure Machine.Boot (m : Machine) : Prop where
  procs : ∀ i, m.k.procs i = .new
  globalPid : m.k.globalPid = 1
  bitmap : m.bitmap = 0
  proc : m.proc = none
  ticks : m.ticks = 0
  inside : ∀ i, m.inside i = .user
  held : m.held = []
  attempts : m.attempts = []

def bootMachine : Machine := ⟨bootKernel, 0, none, 0, fun _ => .user, [], []⟩

lemma bootMachine_boot : bootMachine.Boot := ⟨fun _ => rfl, rfl, rfl, rfl, rfl, fun _ => rfl, rfl, rfl⟩

def bootLayout : TableLayout := ⟨0x80100000, 512, by decide⟩

end Glenda.Proc
