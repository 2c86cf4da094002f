import Glenda.Mem.PageTableCopy
import Glenda.Mem.Uvm
import Glenda.Mem.KernelStack

/-!
# Processes and their memory

Model of `proc/process.rs`, of `wait` and `wakeup` of `proc/scheduler.rs`, and of the system calls `brk`, `mmap`
and `munmap`, as far as they concern memory: open files, the working directory and the queue of runnable
processes are left out. A process is named by its slot in `PROC_TABLE`. A `PhysFrame` is the address of its
page; where the source drops one, the model calls `frameDrop`.
-/

namespace Glenda.Proc
open Glenda.Lib Glenda.Mem

inductive ProcState
  | unused
  | zombie
  | dying
  | sleeping
  | runnable
  | running
  deriving DecidableEq, Repr

structure Process where
  state : ProcState
  parent : Option Nat
  exitCode : Nat
  sleepChan : Option Nat
  pid : Nat
  rootPtPa : Nat
  rootPtFrame : Option Nat
  heapTop : Nat
  heapBase : Nat
  stackPages : Nat
  trapframe : Nat
  trapframeFrame : Option Nat
  trapframeVa : Nat
  /-- The process id of the kernel stack. -/
  kstack : Option Nat
  entryVa : Nat
  userSpVa : Nat
  mmapHead : Option Nat
  deriving DecidableEq

def Process.new : Process where
  state := .unused
  parent := none
  exitCode := 0
  sleepChan := none
  pid := 0
  rootPtPa := 0
  rootPtFrame := none
  heapTop := 0
  heapBase := 0
  stackPages := 0
  trapframe := 0
  trapframeFrame := none
  trapframeVa := 0
  kstack := none
  entryVa := 0
  userSpVa := 0
  mmapHead := none

/-- The page of the root of the page table. -/
def Process.table (p : Process) : Nat := p.rootPtPa / PGSIZE

def NPROC : Nat := 64

structure Kernel where
  ph : Phys
  wh : MmapWarehouse
  procs : Nat → Process
  globalPid : Nat

/-- What is fixed: the page of the table of the kernel, the address of the trampoline, and what the
registers `satp` and `tp` hold in the kernel. -/
structure Env where
  kpt : Nat
  trampoline : Nat
  satp : Nat
  hartid : Nat

def onPhys {α : Type} (x : K Phys α) : K Kernel α := fun k => (x k.ph).map fun r => (r.1, { k with ph := r.2 })

/-- A function of `uvm.rs` on the memory of the process `i`. -/
def onVm {α : Type} (i : Nat) (x : K Vm α) : K Kernel α := fun k =>
  (x ⟨k.ph, k.wh, (k.procs i).mmapHead⟩).map fun r => (r.1, { k with
    ph := r.2.ph, wh := r.2.wh, procs := Function.update k.procs i { k.procs i with mmapHead := r.2.head } })

def setProc (i : Nat) (f : Process → Process) : K Kernel Unit :=
  modify fun k => { k with procs := Function.update k.procs i (f (k.procs i)) }

def getProc (i : Nat) : K Kernel Process := return (← get).procs i

/-- `PhysFrame::alloc`. -/
def frameAlloc : K Phys (Option Nat) := do
  let pa ← Pmem.alloc true
  return if pa = 0 then none else some pa

def frameDrop : Option Nat → K Phys Unit
  | none => return ()
  | some addr => Pmem.free addr

def expect {σ α : Type} : Option α → K σ α
  | none => throw .expectFailed
  | some a => return a

/-! ### The fields of a trap frame, in words -/

def TF_KERNEL_SATP : Nat := 0
def TF_KERNEL_SP : Nat := 1
def TF_KERNEL_EPC : Nat := 3
def TF_KERNEL_HARTID : Nat := 4
def TF_SP : Nat := 6
def TF_A0 : Nat := 14
def TF_A1 : Nat := 15
def TF_WORDS : Nat := 36

/-- Assignments to fields of the trap frame at an address. -/
def setTrapframe (tf : Nat) (ws : List (Nat × Nat)) : K Phys Unit :=
  ws.forM fun w => modify (·.setWord (tf / PGSIZE) w.1 w.2)

variable (P : Profile) (E : Env)

def TRAMP_VA : Nat := VA_MAX - PGSIZE
def TRAPFRAME_VA : Nat := TRAMP_VA - PGSIZE

def mapTrampoline (table : Nat) : K Phys Unit :=
  KernelVm.mappages P table TRAMP_VA (alignDown E.trampoline) PGSIZE (PTE_R ||| PTE_X ||| PTE_A)

def mapTrapframe (table va pa : Nat) : K Phys Unit :=
  KernelVm.mappages P table va pa PGSIZE (PTE_R ||| PTE_W ||| PTE_A ||| PTE_D)

/-- A zeroed page of user memory that is mapped at `va`. -/
def mapZeroed (table va perm : Nat) : K Phys Nat := do
  let pa ← Pmem.alloc false
  modify (·.zeroPage (pa / PGSIZE))
  KernelVm.mappages P table va pa PGSIZE perm
  return pa

/-! ### Creation -/

def alloc : K Kernel (Option Nat) := do
  let k ← get
  match (List.range NPROC).find? fun i => (k.procs i).state = .unused with
  | none => return none
  | some i =>
    set { k with globalPid := (k.globalPid + 1) % 2 ^ 64 }
    setProc i ({ · with pid := k.globalPid, parent := none, exitCode := 0, sleepChan := none, state := .runnable })
    return some i

/-- The loop of `Process::exec` over the bytes of the payload that are left. -/
def loadPages (table : Nat) : Nat → Nat → List Nat → K Phys Unit
  | _, _, [] => return ()
  | 0, _, _ :: _ => throw .diverge
  | fuel + 1, va, b :: bs => do
    let pa ← Pmem.alloc false
    modify (·.zeroPage (pa / PGSIZE))
    modify (·.writeBytes pa ((b :: bs).take PGSIZE))
    KernelVm.mappages P table va pa PGSIZE (PTE_U ||| PTE_R ||| PTE_W ||| PTE_X ||| PTE_A ||| PTE_D)
    loadPages table fuel (va + PGSIZE) ((b :: bs).drop PGSIZE)

/-- `Process::exec`. It returns the end of what it has mapped. -/
def loadPayload (table : Nat) (payload : List Nat) : K Phys Nat := do
  if payload = [] then
    let _ ← mapZeroed P table PGSIZE (PTE_U ||| PTE_R ||| PTE_W ||| PTE_X ||| PTE_A)
    return PGSIZE + PGSIZE
  else
    loadPages P table payload.length PGSIZE payload
    return alignDown (PGSIZE + (payload.length + PGSIZE - 1) / PGSIZE * PGSIZE)

/-- What `create` does once it has a slot. -/
def createIn (i : Nat) (payload : List Nat) : K Kernel Unit := do
  let root ← expect (← onPhys frameAlloc)
  setProc i ({ · with rootPtPa := root, rootPtFrame := some root })
  let table := root / PGSIZE
  onPhys (modify (·.zeroPage table))
  onPhys (mapTrampoline P E table)
  let tf ← expect (← onPhys frameAlloc)
  setProc i ({ · with trapframeVa := TRAPFRAME_VA, trapframe := tf, trapframeFrame := some tf })
  onPhys (mapTrapframe P table TRAPFRAME_VA tf)
  let top ← onPhys (loadPayload P table payload)
  setProc i ({ · with entryVa := PGSIZE, heapTop := top, heapBase := top })
  let kstackTop ← onPhys (KernelVm.allocKstack P E.kpt (← getProc i).pid)
  setProc i fun p => { p with kstack := some p.pid, userSpVa := Uvm.STACK_TOP }
  onPhys (setTrapframe tf [(TF_SP, Uvm.STACK_TOP), (TF_KERNEL_EPC, PGSIZE), (TF_KERNEL_SATP, E.satp),
    (TF_KERNEL_HARTID, E.hartid), (TF_KERNEL_SP, kstackTop), (TF_A0, TRAPFRAME_VA)])
  setProc i ({ · with state := .runnable })

def create (payload : List Nat) : K Kernel Nat := do
  let i ← expect (← alloc)
  createIn P E i payload
  return i

/-! ### Fork -/

/-- The words of the trap frame at `src`, copied to `dst`. -/
def copyTrapframe (src dst : Nat) : K Phys Unit := do
  let ph ← get
  setTrapframe dst ((List.range TF_WORDS).map fun w => (w, ph.mem (src / PGSIZE) w))

/-- What `fork` does once it has a slot for the child. -/
def forkInto (i c : Nat) : K Kernel Unit := do
  let p ← getProc i
  setProc c ({ · with parent := some i, entryVa := p.entryVa, userSpVa := p.userSpVa, trapframeVa := p.trapframeVa })
  match ← onPhys (PageTable.copy P p.table) with
  | .error _ => throw .expectFailed
  | .ok root =>
    setProc c ({ · with
      rootPtPa := root, rootPtFrame := some root, heapBase := p.heapBase, heapTop := p.heapTop,
      stackPages := p.stackPages })
    let tf ← expect (← onPhys frameAlloc)
    setProc c ({ · with trapframe := tf, trapframeFrame := some tf })
    let pid := (← getProc c).pid
    let kstackTop ← onPhys (KernelVm.allocKstack P E.kpt pid)
    setProc c ({ · with kstack := some pid })
    onPhys do
      let table := root / PGSIZE
      KernelVm.unmappages P table p.trapframeVa PGSIZE true
      mapTrapframe P table p.trapframeVa tf
      copyTrapframe p.trapframe tf
      let epc := (← get).mem (tf / PGSIZE) TF_KERNEL_EPC
      setTrapframe tf [(TF_A0, 0), (TF_KERNEL_EPC, (epc + 4) % 2 ^ 64), (TF_KERNEL_SP, kstackTop)]
      setTrapframe p.trapframe [(TF_A0, pid)]
    setProc c ({ · with state := .runnable })

def fork (i : Nat) : K Kernel Nat := do
  let c ← expect (← alloc)
  forkInto P E i c
  return c

/-! ### Exec -/

def fromLeBytes : List Nat → Nat
  | [] => 0
  | b :: bs => b + 256 * fromLeBytes bs

/-- The little-endian number in the bytes `[lo, hi)`. -/
def field (bs : List Nat) (lo hi : Nat) : Nat := fromLeBytes ((bs.take hi).drop lo)

def toNeBytes (x : Nat) : List Nat := (List.range 8).map fun i => x / 256 ^ i % 256

structure Phdr where
  flags : Nat
  offset : Nat
  vaddr : Nat
  filesz : Nat
  memsz : Nat
  deriving DecidableEq, Repr

/-- The program header in 56 bytes, if it is `PT_LOAD`. -/
def Phdr.parse (ph : List Nat) : Option Phdr :=
  if field ph 0 4 = 1 then some ⟨field ph 4 8, field ph 8 16, field ph 16 24, field ph 32 40, field ph 40 48⟩ else none

def Phdr.perm (p : Phdr) : Nat :=
  let perm := PTE_U ||| PTE_A ||| PTE_D ||| PTE_W
  let perm := if p.flags &&& 1 ≠ 0 then perm ||| PTE_X else perm
  if p.flags &&& 4 ≠ 0 then perm ||| PTE_R else perm

def Phdr.endVa {σ : Type} (p : Phdr) : K σ Nat := do
  return alignDown (← subW P 64 (← addW P 64 (← addW P 64 p.vaddr p.memsz) PGSIZE) 1)

/-- The pages of a segment. -/
def mapSegment (table endVa perm : Nat) : Nat → Nat → K Phys Unit
  | 0, _ => throw .diverge
  | fuel + 1, va => do
    if va < endVa then
      let _ ← mapZeroed P table va perm
      mapSegment table endVa perm fuel (← addW P 64 va PGSIZE)

/-- The contents of a segment, `readOff` bytes of which are loaded. A read that comes up short ends the loop. -/
def readSegment (file : Nat → Nat → List Nat) (table : Nat) (p : Phdr) : Nat → Nat → K Phys (Except Unit Unit)
  | 0, _ => throw .diverge
  | fuel + 1, readOff => do
    if readOff < p.filesz then
      let chunk := min (p.filesz - readOff) 512
      let bs := file ((← addW P 64 p.offset readOff) % 2 ^ 32) chunk
      if bs.length ≠ chunk then return .ok ()
      else
        match ← Uvm.copyout P table (← addW P 64 p.vaddr readOff) bs with
        | .error _ => return .error ()
        | .ok () => readSegment file table p fuel (readOff + chunk)
    else return .ok ()

def loadSegment (file : Nat → Nat → List Nat) (table : Nat) (p : Phdr) : K Phys (Except Unit Nat) := do
  let endVa ← p.endVa P
  mapSegment P table endVa p.perm ((endVa - alignDown p.vaddr) / PGSIZE + 1) (alignDown p.vaddr)
  match ← readSegment P file table p (p.filesz + 1) 0 with
  | .error e => return .error e
  | .ok () => return .ok endVa

/-- The loop over the program headers: `n` are left, `i` is the next. A header that cannot be read ends it. -/
def loadSegments (file : Nat → Nat → List Nat) (table phoff phentsize : Nat) : Nat → Nat → Nat → K Phys (Except Unit Nat)
  | 0, _, maxVa => return .ok maxVa
  | n + 1, i, maxVa => do
    let ph := file (← addW P 32 phoff (i * phentsize % 2 ^ 32)) 56
    if ph.length ≠ 56 then return .ok maxVa
    else
      match Phdr.parse ph with
      | none => loadSegments file table phoff phentsize n (i + 1) maxVa
      | some p =>
        match ← loadSegment P file table p with
        | .error e => return .error e
        | .ok endVa => loadSegments file table phoff phentsize n (i + 1) (max maxVa endVa)

/-- The stack of the new program: pages without a level 0 table are mapped. -/
def setupStack (table : Nat) : K Phys Unit :=
  ((List.range (Uvm.STACK_SIZE / PGSIZE)).map fun i => Uvm.STACK_TOP - (i + 1) * PGSIZE).forM fun va => do
    if (PageTable.lookup (← get).mem table va).isNone then
      let _ ← mapZeroed P table va Uvm.MMAP_FLAGS

/-- The argument strings, from the last to the first, and the addresses they get. -/
def pushArgs (oldTable table : Nat) : List Nat → Nat → List Nat → K Phys (Except Unit (Nat × List Nat))
  | [], sp, stackArgv => return .ok (sp, stackArgv)
  | uarg :: rest, sp, stackArgv => do
    match ← Uvm.copyinStr P oldTable 128 uarg with
    | .error _ => return .error ()
    | .ok bs =>
      let sp := (← subW P 64 sp bs.length) / 8 * 8
      match ← Uvm.copyout P table sp bs with
      | .error _ => return .error ()
      | .ok () => pushArgs oldTable table rest sp (sp :: stackArgv)

/-- The pointers to the arguments. -/
def pushPointers (table : Nat) : Nat → List Nat → K Phys (Except Unit Unit)
  | _, [] => return .ok ()
  | va, arg :: rest => do
    match ← Uvm.copyout P table va (toNeBytes arg) with
    | .error _ => return .error ()
    | .ok () => pushPointers table (va + 8) rest

def setupArgs (oldTable table : Nat) (argv : List Nat) : K Phys (Except Unit Nat) := do
  match ← pushArgs P oldTable table argv.reverse Uvm.STACK_TOP [] with
  | .error e => return .error e
  | .ok (sp, stackArgv) =>
    let sp := (← subW P 64 sp (argv.length * 8)) / 8 * 8
    match ← pushPointers P table sp stackArgv with
    | .error e => return .error e
    | .ok () => return .ok sp

/-- What `proc_exec` does to the new page table once it has its root: the end of the highest segment, and the
stack pointer. -/
def buildImage (file : Nat → Nat → List Nat) (header argv : List Nat) (oldTable table : Nat) :
    K Phys (Except Unit (Nat × Nat)) := do
  match ← loadSegments P file table (field header 32 40 % 2 ^ 32) (field header 54 56) (field header 56 58) 0 0 with
  | .error e => return .error e
  | .ok maxVa =>
    setupStack P table
    match ← setupArgs P oldTable table argv with
    | .error e => return .error e
    | .ok sp => return .ok (maxVa, sp)

/-- The page table that a process gives up. -/
def dropTable : Option Nat → K Phys Unit
  | none => return ()
  | some old => do
    PageTable.destroy (old / PGSIZE)
    frameDrop (some old)

/-- `proc_exec`. `file` is what `inode_read_data` returns for an offset and a length, or `none` if the file
does not open. -/
def procExec (i : Nat) (file : Option (Nat → Nat → List Nat)) (argv : List Nat) : K Kernel (Except Unit Unit) := do
  match file with
  | none => return .error ()
  | some file =>
    let header := file 0 64
    if header.length ≠ 64 then return .error ()
    else if header.take 4 ≠ [0x7f, 0x45, 0x4c, 0x46] then return .error ()
    else
      let p ← getProc i
      match ← onPhys frameAlloc with
      | none => return .error ()
      | some root =>
        let table := root / PGSIZE
        onPhys (modify (·.zeroPage table))
        onPhys (mapTrampoline P E table)
        match ← onPhys frameAlloc with
        | none =>
          onPhys (frameDrop (some root))
          return .error ()
        | some tf =>
          onPhys (mapTrapframe P table TRAPFRAME_VA tf)
          match ← onPhys (buildImage P file header argv p.table table) with
          | .error e =>
            onPhys (frameDrop (some tf))
            onPhys (frameDrop (some root))
            return .error e
          | .ok (maxVa, sp) =>
            onPhys (dropTable p.rootPtFrame)
            let entry := field header 24 32
            setProc i ({ · with
              rootPtPa := root, rootPtFrame := some root, trapframe := tf, trapframeFrame := some tf,
              trapframeVa := TRAPFRAME_VA, heapBase := maxVa, heapTop := maxVa,
              stackPages := Uvm.STACK_SIZE / PGSIZE, entryVa := entry, userSpVa := sp })
            let pid ← expect p.kstack
            let kstackTop ← addW P 64 (← KernelVm.kstackBase P pid) KernelVm.KSTACK_SIZE
            onPhys (setTrapframe tf [(TF_SP, sp), (TF_KERNEL_EPC, entry), (TF_A0, argv.length), (TF_A1, sp),
              (TF_KERNEL_SATP, E.satp), (TF_KERNEL_HARTID, E.hartid), (TF_KERNEL_SP, kstackTop)])
            onPhys (frameDrop p.trapframeFrame)
            return .ok ()

/-! ### System calls on memory -/

def USIZE_MAX : Nat := 2 ^ 64 - 1

/-- The change of the heap that `sys_brk` asks for. -/
def moveHeap (table oldTop newTop : Nat) : K Phys (Except UvmError Unit) :=
  if oldTop < newTop then Uvm.heapGrow P table oldTop newTop
  else if newTop < oldTop then Uvm.heapUngrow P table oldTop newTop
  else return .ok ()

def sysBrk (i newTop : Nat) : K Kernel Nat := do
  let p ← getProc i
  if newTop = 0 then return p.heapTop
  else if MMAP_BEGIN < newTop then return USIZE_MAX
  else if newTop < p.heapBase then return USIZE_MAX
  else
    let newHeapTop ← alignUp P newTop
    match ← onPhys (moveHeap P p.table p.heapTop newHeapTop) with
    | .error _ => return USIZE_MAX
    | .ok () =>
      setProc i ({ · with heapTop := newHeapTop })
      return newHeapTop

def sysMmap (i begin len : Nat) : K Kernel (Except UvmError Nat) := do
  let p ← getProc i
  onVm i (Uvm.mmap P p.table begin len MMAP_BEGIN MMAP_END)

def sysMunmap (i begin len : Nat) : K Kernel (Except UvmError Unit) := do
  let p ← getProc i
  onVm i (Uvm.munmap P p.table begin len)

def ustackGrow (i faultVa : Nat) : K Kernel (Except UvmError Unit) := do
  let p ← getProc i
  onPhys (Uvm.ustackGrow P p.table faultVa)

/-! ### Exit and wait -/

/-- `f` on every slot of the table. -/
def mapProcs (f : Process → Process) : K Kernel Unit :=
  modify fun k => { k with procs := fun j => if j < NPROC then f (k.procs j) else k.procs j }

def wakeup (chan : Nat) : K Kernel Unit :=
  mapProcs fun p =>
    if p.state = .sleeping ∧ p.sleepChan = some chan then { p with state := .runnable, sleepChan := none } else p

def wakeParent : Option Nat → K Kernel Unit
  | none => return ()
  | some parent => wakeup parent

def exit (i : Nat) : K Kernel Unit := do
  wakeParent (← getProc i).parent
  -- the first slot is the process `init`
  mapProcs fun p => if p.parent = some i then { p with parent := some 0 } else p
  setProc i ({ · with state := .dying })

def sysExit (i code : Nat) : K Kernel Unit := do
  setProc i ({ · with exitCode := code })
  exit i

/-- What the scheduler does with the process `i` once it has switched away from it. -/
def afterSwitch (i : Nat) : K Kernel Unit :=
  setProc i fun p => if p.state = .dying then { p with state := .zombie } else p

/-- `region_free`. -/
def regionFree : Option Nat → K Vm Unit
  | none => return ()
  | some i => Uvm.regionFree i

def kstackDrop : Option Nat → K Phys Unit
  | none => return ()
  | some pid => KernelVm.freeKstack P E.kpt pid

/-- `Process::free`. -/
def free (i : Nat) : K Kernel Unit := do
  let p ← getProc i
  onPhys (PageTable.destroy p.table)
  onPhys (frameDrop p.rootPtFrame)
  setProc i ({ · with rootPtFrame := none })
  onVm i (regionFree p.mmapHead)
  onPhys (kstackDrop P E p.kstack)
  setProc i ({ · with kstack := none })

inductive WaitResult
  | reaped (pid exitCode : Nat)
  | noChildren
  | slept
  deriving DecidableEq, Repr

/-- The first child of the process `i` that is a zombie. -/
def Kernel.firstZombie (k : Kernel) (i : Nat) : Option Nat :=
  (List.range NPROC).find? fun j => (k.procs j).parent = some i ∧ (k.procs j).state = .zombie

/-- One pass of the loop of `wait`. -/
def wait (i : Nat) : K Kernel WaitResult := do
  let k ← get
  match k.firstZombie i with
  | some j =>
    free P E j
    -- the assignment of `Process::new()` drops what the slot still holds
    let p ← getProc j
    onPhys (frameDrop p.trapframeFrame)
    setProc j fun _ => Process.new
    return .reaped (k.procs j).pid (k.procs j).exitCode
  | none =>
    if (List.range NPROC).any fun j => (k.procs j).parent = some i then
      setProc i ({ · with state := .sleeping, sleepChan := some i })
      return .slept
    else return .noChildren

end Glenda.Proc
