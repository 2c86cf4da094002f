import Glenda.Mem.Mmap

/-!
# User memory

Model of `copyin`, `copyout`, `copyin_str`, `heap_grow`, `heap_ungrow` and `ustack_grow` of `mem/uvm.rs`.
-/

namespace Glenda.Mem
open Glenda.Lib

/-- The byte at a physical address. Words are little-endian. -/
def Phys.byte (ph : Phys) (pa : Nat) : Nat := ph.mem (pa / PGSIZE) (pa % PGSIZE / 8) / 256 ^ (pa % 8) % 256

/-- The word `w` with the byte `k` replaced. -/
def replaceByte (w k b : Nat) : Nat := w / 256 ^ (k + 1) * 256 ^ (k + 1) + b % 256 * 256 ^ k + w % 256 ^ k

def Phys.setByte (ph : Phys) (pa b : Nat) : Phys :=
  ph.setWord (pa / PGSIZE) (pa % PGSIZE / 8) (replaceByte (ph.mem (pa / PGSIZE) (pa % PGSIZE / 8)) (pa % 8) b)

def Phys.readBytes (ph : Phys) (pa n : Nat) : List Nat := (List.range n).map fun i => ph.byte (pa + i)

def Phys.writeBytes (ph : Phys) (pa : Nat) : List Nat → Phys
  | [] => ph
  | b :: bs => (ph.setByte pa b).writeBytes (pa + 1) bs

inductive CopyError
  | notMapped
  | noPerm
  | fault
  | tooLong
  deriving DecidableEq, Repr

namespace Uvm

def pageOffset (addr : Nat) : Nat := addr &&& PGMASK

/-- The checks that `copyin`, `copyout` and `copyin_str` make of the page of an address. -/
def userPage (mem : Nat → Nat → Nat) (table va perm : Nat) : Except CopyError Nat :=
  match PageTable.lookup mem table (alignDown va) with
  | none => .error .notMapped
  | some (n, i) =>
    let pte := mem n i
    if !isValid pte || !isLeaf pte then .error .notMapped
    else if pte &&& 0x3FF &&& 0xE = 0 then .error .notMapped
    else if pte &&& 0x3FF &&& PTE_U = 0 ∨ pte &&& 0x3FF &&& perm = 0 then .error .noPerm
    else .ok (pteToPa pte)

variable (P : Profile)

/-- The loop of `copyin`: `n` bytes are left. -/
def copyinFrom (table : Nat) : Nat → Nat → Nat → K Phys (Except CopyError (List Nat))
  | _, 0, _ => return .ok []
  | 0, _ + 1, _ => throw .diverge
  | fuel + 1, n + 1, va => do
    let ph ← get
    match userPage ph.mem table va PTE_R with
    | .error e => return .error e
    | .ok pa =>
      let off := pageOffset va
      let k := min (PGSIZE - off) (n + 1)
      match ← copyinFrom table fuel (n + 1 - k) (← addW P 64 va k) with
      | .error e => return .error e
      | .ok bs => return .ok (ph.readBytes (pa + off) k ++ bs)

def copyin (table len srcVa : Nat) : K Phys (Except CopyError (List Nat)) := copyinFrom P table len len srcVa

/-- The loop of `copyout`. -/
def copyoutFrom (table : Nat) : Nat → List Nat → Nat → K Phys (Except CopyError Unit)
  | _, [], _ => return .ok ()
  | 0, _ :: _, _ => throw .diverge
  | fuel + 1, b :: bs, va => do
    match userPage (← get).mem table va PTE_W with
    | .error e => return .error e
    | .ok pa =>
      let off := pageOffset va
      let k := min (PGSIZE - off) (bs.length + 1)
      modify (·.writeBytes (pa + off) ((b :: bs).take k))
      copyoutFrom table fuel ((b :: bs).drop k) (← addW P 64 va k)

def copyout (table dstVa : Nat) (src : List Nat) : K Phys (Except CopyError Unit) :=
  copyoutFrom P table src.length src dstVa

/-- The inner loop of `copyin_str`: the bytes up to the first zero, and whether there is one. -/
def stringBytes (ph : Phys) : Nat → Nat → List Nat × Bool
  | 0, _ => ([], false)
  | n + 1, pa =>
    let b := ph.byte pa
    if b = 0 then ([b], true)
    else
      let r := stringBytes ph n (pa + 1)
      (b :: r.1, r.2)

/-- The loop of `copyin_str` into a buffer with room for `n` more bytes. -/
def copyinStrFrom (table : Nat) : Nat → Nat → Nat → K Phys (Except CopyError (List Nat))
  | _, 0, _ => return .error .tooLong
  | 0, _ + 1, _ => throw .diverge
  | fuel + 1, n + 1, va => do
    let ph ← get
    match userPage ph.mem table va PTE_R with
    | .error e => return .error e
    | .ok pa =>
      let off := pageOffset va
      let (bs, ended) := stringBytes ph (min (PGSIZE - off) (n + 1)) (pa + off)
      if ended then return .ok bs
      else
        match ← copyinStrFrom table fuel (n + 1 - bs.length) (← addW P 64 (alignDown va) PGSIZE) with
        | .error e => return .error e
        | .ok rest => return .ok (bs ++ rest)

def copyinStr (table len srcVa : Nat) : K Phys (Except CopyError (List Nat)) := copyinStrFrom P table len len srcVa

/-! ### Heap and stack -/

def heapGrow (table oldTop newTop : Nat) : K Phys (Except UvmError Unit) := do
  if MMAP_BEGIN < newTop then return .error .outOfRange
  else
    let a ← alignUp P oldTop
    let last ← alignUp P newTop
    mapPagesFrom P table last ((last - a) / PGSIZE + 1) a

def heapUngrow (table oldTop newTop : Nat) : K Phys (Except UvmError Unit) := do
  if oldTop < newTop then return .ok ()
  else
    let start ← alignUp P newTop
    let size := (← alignUp P oldTop) - start
    if size = 0 then return .ok ()
    else if ← PageTable.unmap P table start size true then return .ok ()
    else return .error .mapFailed

def STACK_BASE : Nat := 0x20000
def STACK_SIZE : Nat := 24576
def STACK_TOP : Nat := STACK_BASE + STACK_SIZE

/-- Whether `lookup` finds a valid entry. -/
def isMapped (mem : Nat → Nat → Nat) (table va : Nat) : Bool :=
  match PageTable.lookup mem table va with
  | none => false
  | some (n, i) => isValid (mem n i)

/-- The loop of `ustack_grow`, down to the page of the fault. -/
def ustackGrowFrom (table neededBase : Nat) : Nat → Nat → K Phys (Except UvmError Unit)
  | 0, _ => throw .diverge
  | fuel + 1, a => do
    if neededBase < a then
      let a ← subW P 64 a PGSIZE
      if isMapped (← get).mem table a then ustackGrowFrom table neededBase fuel a
      else
        let pa ← Pmem.alloc false
        if pa = 0 then return .error .noMem
        else if ← PageTable.map P table a pa PGSIZE MMAP_FLAGS then ustackGrowFrom table neededBase fuel a
        else return .error .mapFailed
    else return .ok ()

def ustackGrow (table faultVa : Nat) : K Phys (Except UvmError Unit) :=
  if STACK_BASE ≤ faultVa ∧ faultVa < STACK_TOP then
    ustackGrowFrom P table (alignDown faultVa) (STACK_SIZE / PGSIZE + 1) STACK_TOP
  else return .error .outOfRange

end Uvm

end Glenda.Mem
