import Glenda.Mem.Mmap

/-!
# Whole page tables

Model of `PageTable::destroy` and `PageTable::copy`.
-/

namespace Glenda.Mem
open Glenda.Lib

def getFlags (pte : Nat) : Nat := pte &&& 0x3FF

namespace PageTable

/-- `destroy` frees the pages of the user region only. -/
def freeUser (pa : Nat) : K Phys Unit := do
  if Pmem.getRegion pa (← get) = some false then Pmem.free pa

/-- The body of the loop of `destroy_level`; `below` is the recursive call. -/
def destroyEntry (below : Nat → K Phys Unit) (table i : Nat) : K Phys Unit := do
  let pte := (← get).mem table i
  if isValid pte then
    if isLeaf pte then
      freeUser (pteToPa pte)
      modify (·.setWord table i 0)
    else if isTable pte then
      if pteToPa pte ≠ 0 then
        below (pteToPa pte / PGSIZE)
        Pmem.free (pteToPa pte)
      modify (·.setWord table i 0)

/-- `destroy_level`. A page table has three levels. -/
def destroyLevel : Nat → Nat → K Phys Unit
  | 0, _ => throw .diverge
  | fuel + 1, table => (List.range PGNUM).forM (destroyEntry (destroyLevel fuel) table)

def destroy (table : Nat) : K Phys Unit := destroyLevel 3 table

variable (P : Profile)

/-- A loop whose body may return early with an error. -/
def forOk {σ α ε : Type} (f : α → K σ (Except ε Unit)) : List α → K σ (Except ε Unit)
  | [] => return .ok ()
  | a :: as => do
    match ← f a with
    | .error e => return .error e
    | .ok () => forOk f as

/-- A new page of the region `k` with the contents of the page at `pa`, mapped at `va`. -/
def copyPage (k : Bool) (dst pa va flags : Nat) : K Phys (Except UvmError Unit) := do
  let newPa ← Pmem.alloc k
  if newPa = 0 then return .error .noMem
  else
    modify fun ph => { ph with mem := Function.update ph.mem (newPa / PGSIZE) (ph.mem (pa / PGSIZE)) }
    if ← map P dst va newPa PGSIZE flags then return .ok () else return .error .mapFailed

/-- The body of the loop of `copy` over the entries of a level 0 table. -/
def copyLeaf (dst pte va : Nat) : K Phys (Except UvmError Unit) := do
  let pa := pteToPa pte
  let flags := getFlags pte
  if flags &&& PTE_U ≠ 0 then
    if Pmem.getRegion pa (← get) = some false then copyPage P false dst pa va flags else return .ok ()
  else if flags &&& PTE_X ≠ 0 then
    if ← map P dst va pa PGSIZE flags then return .ok () else return .error .mapFailed
  else if Pmem.getRegion pa (← get) = some true then copyPage P true dst pa va flags
  else return .ok ()

/-- The address of a page, extended from 39 bits. -/
def signExtend (raw : Nat) : Nat := if raw >>> 38 &&& 1 = 1 then raw ||| (2 ^ 64 - 2 ^ 39) else raw &&& (2 ^ 39 - 1)

def copyLevel0 (dst l0 i j : Nat) : K Phys (Except UvmError Unit) :=
  forOk (fun k => do
    let pte := (← get).mem l0 k
    if !isValid pte || !isLeaf pte then return .ok ()
    else copyLeaf P dst pte (signExtend (i <<< 30 ||| j <<< 21 ||| k <<< 12))) (List.range PGNUM)

def copyLevel1 (dst l1 i : Nat) : K Phys (Except UvmError Unit) :=
  forOk (fun j => do
    let pte := (← get).mem l1 j
    if !isValid pte || !isTable pte || pteToPa pte = 0 then return .ok ()
    else copyLevel0 P dst (pteToPa pte / PGSIZE) i j) (List.range PGNUM)

def copyLevel2 (dst l2 : Nat) : K Phys (Except UvmError Unit) :=
  forOk (fun i => do
    let pte := (← get).mem l2 i
    if !isValid pte || !isTable pte || pteToPa pte = 0 then return .ok ()
    else copyLevel1 P dst (pteToPa pte / PGSIZE) i) (List.range PGNUM)

def copy (table : Nat) : K Phys (Except UvmError Nat) := do
  let dstRoot ← Pmem.alloc true
  if dstRoot = 0 then return .error .noMem
  else
    modify (·.zeroPage (dstRoot / PGSIZE))
    match ← copyLevel2 P (dstRoot / PGSIZE) table with
    | .error e => return .error e
    | .ok () => return .ok dstRoot

end PageTable

end Glenda.Mem
