import Glenda.Mem.PageTableSpec
import Glenda.Lib.Intervals

/-!
# Memory regions of a process

Model of `mem/mmap.rs` and of `mmap` and `munmap` of `mem/uvm.rs`. The 256 region nodes live in a
global warehouse and are named by their indices. A node has two links: `mmap.next` in the list of
the process that uses it, and `next` in the free list of the warehouse.
-/

namespace Glenda.Mem
open Glenda.Lib

abbrev N_MMAP : Nat := 256

structure MmapRegion where
  begin : Nat
  npages : Nat
  next : Option Nat
  deriving DecidableEq, Repr

def MmapRegion.zero : MmapRegion := ⟨0, 0, none⟩

structure MmapRegionNode where
  mmap : MmapRegion
  next : Option Nat
  deriving DecidableEq, Repr

/-- The warehouse; `initialised` is the state of `INIT_ONCE`. -/
structure MmapWarehouse where
  head : Option Nat
  nodeList : Nat → MmapRegionNode
  initialised : Bool

/-- What the functions of `uvm.rs` work on: memory, the warehouse and the list of one process. -/
structure Vm where
  ph : Phys
  wh : MmapWarehouse
  head : Option Nat

inductive UvmError
  | outOfRange
  | noMem
  | mapFailed
  deriving DecidableEq, Repr

namespace MmapWarehouse

def init (wh : MmapWarehouse) : MmapWarehouse :=
  if wh.initialised then wh
  else ⟨some 0, fun i => ⟨.zero, if i + 1 < N_MMAP then some (i + 1) else none⟩, true⟩

def setNode (wh : MmapWarehouse) (i : Nat) (n : MmapRegionNode) : MmapWarehouse :=
  { wh with nodeList := Function.update wh.nodeList i n }

/-- An assignment to fields of the region of a node. -/
def setRegion (wh : MmapWarehouse) (i : Nat) (f : MmapRegion → MmapRegion) : MmapWarehouse :=
  wh.setNode i { wh.nodeList i with mmap := f (wh.nodeList i).mmap }

def region (wh : MmapWarehouse) (i : Nat) : MmapRegion := (wh.nodeList i).mmap

end MmapWarehouse

namespace Uvm

variable (P : Profile)

/-- A function on memory alone. -/
def onPhys {α : Type} (x : K Phys α) : K Vm α := fun s => (x s.ph).map fun r => (r.1, { s with ph := r.2 })

def regionAlloc : K Vm (Option Nat) := do
  modify fun s => { s with wh := s.wh.init }
  let wh := (← get).wh
  match wh.head with
  | none => return none
  | some first =>
    modify ({ · with wh := { wh with head := (wh.nodeList first).next }.setNode first ⟨.zero, none⟩ })
    return some first

/-- `region_free` of a region that is not null. -/
def regionFree (i : Nat) : K Vm Unit :=
  modify fun s => { s with wh := { s.wh.setNode i ⟨.zero, s.wh.head⟩ with head := some i } }

/-- The end of a region, as the code computes it. -/
def regionEnd {σ : Type} (r : MmapRegion) : K σ Nat := do
  addW P 64 r.begin (← mulW P 64 r.npages PGSIZE)

def MMAP_FLAGS : Nat := PTE_U ||| PTE_R ||| PTE_W ||| PTE_A ||| PTE_D

/-- The loop of `map_pages`. -/
def mapPagesFrom (table last : Nat) : Nat → Nat → K Phys (Except UvmError Unit)
  | 0, _ => throw .diverge
  | fuel + 1, a => do
    if a < last then
      let pa ← Pmem.alloc false
      if pa = 0 then return .error .noMem
      else if ← PageTable.map P table a pa PGSIZE MMAP_FLAGS then
        mapPagesFrom table last fuel (← addW P 64 a PGSIZE)
      else return .error .mapFailed
    else return .ok ()

def mapPages (table va npages : Nat) : K Phys (Except UvmError Unit) := do
  let a := alignDown va
  let last ← addW P 64 a (← mulW P 64 npages PGSIZE)
  mapPagesFrom P table last (npages + 1) a

/-- The search for a gap: the cursor it ends with, and whether it stands at a gap before a region. -/
def findGap {σ : Type} (wh : MmapWarehouse) (npages : Nat) : Nat → Option Nat → Nat → K σ (Bool × Nat)
  | _, none, cursor => return (false, cursor)
  | 0, some _, _ => throw .diverge
  | fuel + 1, some cur, cursor => do
    let r := wh.region cur
    if cursor ≤ r.begin then
      if (← mulW P 64 npages PGSIZE) ≤ r.begin - cursor then return (true, cursor)
      else findGap wh npages fuel r.next (← regionEnd P r)
    else findGap wh npages fuel r.next cursor

/-- The start of the new region when the caller leaves it open. -/
def chooseBegin (npages mmapBegin mmapEnd : Nat) : K Vm (Option Nat) := do
  let s ← get
  let (found, cursor) ← findGap P s.wh npages N_MMAP s.head mmapBegin
  if found then return some cursor
  else if (← mulW P 64 npages PGSIZE) ≤ mmapEnd - cursor then return some cursor
  else return none

def startAt (begin npages mmapBegin mmapEnd : Nat) : K Vm (Option Nat) :=
  if begin = 0 then chooseBegin P npages mmapBegin mmapEnd else return some begin

/-- The walk to the first region that does not start below `begin`, with its predecessor. -/
def findPos {σ : Type} (wh : MmapWarehouse) (stop : MmapRegion → K σ Bool) :
    Nat → Option Nat → Option Nat → K σ (Option Nat × Option Nat)
  | _, prev, none => return (prev, none)
  | 0, _, some _ => throw .diverge
  | fuel + 1, prev, some cur => do
    if ← stop (wh.region cur) then return (prev, some cur)
    else findPos wh stop fuel (some cur) (wh.region cur).next

def setRegion (i : Nat) (f : MmapRegion → MmapRegion) : K Vm Unit :=
  modify fun s => { s with wh := s.wh.setRegion i f }

/-- `*head = x`, or `(*prev).next = x` if there is a previous region. -/
def link (prev x : Option Nat) : K Vm Unit :=
  match prev with
  | none => modify ({ · with head := x })
  | some p => setRegion p ({ · with next := x })

/-- A difference of two addresses in pages, as a `u32`. -/
def pagesBetween {σ : Type} (e b : Nat) : K σ Nat := do return (← subW P 64 e b) / PGSIZE % 2 ^ 32

/-- The pages up to `fin` that a region ending at `prevEnd` lacks. -/
def growTo (table prevEnd fin : Nat) : K Phys (Except UvmError Unit) :=
  if prevEnd < fin then mapPages P table prevEnd ((fin - prevEnd) / PGSIZE) else pure (.ok ())

/-- The new range joins the region `p` that ends where it begins, and `next` if that begins where
it ends. -/
def extendPrev (table p : Nat) (next : Option Nat) (fin mergedEnd : Nat) : K Vm (Except UvmError Nat) := do
  let r := (← get).wh.region p
  let prevEnd ← regionEnd P r
  match ← onPhys (growTo P table prevEnd fin) with
  | .error e => return .error e
  | .ok () =>
    let npages ← pagesBetween P mergedEnd r.begin
    setRegion p ({ · with npages := npages })
    match next with
    | none => return .ok r.begin
    | some c =>
      let n := (← get).wh.region c
      let npages ← pagesBetween P (← regionEnd P n) r.begin
      setRegion p ({ · with npages := npages, next := n.next })
      regionFree c
      return .ok r.begin

/-- The new range joins the region `c` that begins where it ends. -/
def extendNext (table c : Nat) (prev : Option Nat) (begin fin mergedEnd : Nat) : K Vm (Except UvmError Nat) := do
  let size ← subW P 64 fin begin
  match ← onPhys (mapPages P table begin (size / PGSIZE)) with
  | .error e => return .error e
  | .ok () =>
    let npages ← pagesBetween P mergedEnd begin
    setRegion c ({ · with begin := begin, npages := npages })
    link prev (some c)
    return .ok begin

def insertNew (table begin npages : Nat) (prev cur : Option Nat) : K Vm (Except UvmError Nat) := do
  match ← onPhys (mapPages P table begin npages) with
  | .error e => return .error e
  | .ok () =>
    match ← regionAlloc with
    | none => return .error .noMem
    | some node =>
      setRegion node fun _ => ⟨begin, npages % 2 ^ 32, cur⟩
      link prev (some node)
      return .ok begin

/-- The end of the previous region, if there is one. -/
def prevEnd {σ : Type} (wh : MmapWarehouse) : Option Nat → K σ (Option Nat)
  | none => return none
  | some p => some <$> regionEnd P (wh.region p)

/-- The end of the new region when `next` is joined to it. -/
def mergedEnd {σ : Type} (wh : MmapWarehouse) (fin : Nat) : Option Nat → K σ Nat
  | none => return fin
  | some c => regionEnd P (wh.region c)

/-- `mmap` once the neighbours of the new range are known. -/
def placeRegion (table begin fin npages : Nat) (prev cur : Option Nat) : K Vm (Except UvmError Nat) := do
  let wh := (← get).wh
  let prevEnd ← prevEnd P wh prev
  if prevEnd.any (begin < ·) then return .error .outOfRange
  else if cur.any (fun c => (wh.region c).begin < fin) then return .error .outOfRange
  else
    let next := cur.filter (fun c => (wh.region c).begin = fin)
    let mergedEnd ← mergedEnd P wh fin next
    match prev.filter (fun _ => prevEnd = some begin), next with
    | some p, next => extendPrev P table p next fin mergedEnd
    | none, some c => extendNext P table c prev begin fin mergedEnd
    | none, none => insertNew P table begin npages prev cur

/-- `mmap` once the start of the new range is known. -/
def mmapAt (table begin npages mmapBegin mmapEnd : Nat) : K Vm (Except UvmError Nat) := do
  if begin < mmapBegin then return .error .outOfRange
  else
    let fin ← addW P 64 begin (← mulW P 64 npages PGSIZE)
    if mmapEnd < fin ∨ begin &&& (PGSIZE - 1) ≠ 0 then return .error .outOfRange
    else
      let s ← get
      let (prev, cur) ← findPos s.wh (fun r => return decide (begin ≤ r.begin)) N_MMAP none s.head
      placeRegion P table begin fin npages prev cur

def mmap (table begin len mmapBegin mmapEnd : Nat) : K Vm (Except UvmError Nat) := do
  if len = 0 then return .error .outOfRange
  else
    let npages := (← alignUp P len) / PGSIZE
    if npages = 0 then return .error .outOfRange
    else
      match ← startAt P begin npages mmapBegin mmapEnd with
      | none => return .error .outOfRange
      | some begin => mmapAt P table begin npages mmapBegin mmapEnd

/-- What `munmap` leaves of the region `cur = [b, f)` after it has unmapped `[s, e)` of it: the previous
and the next region to go on with, or `none` if there is no node for the right part. -/
def trimRegion (prev : Option Nat) (cur b f s e : Nat) : K Vm (Option (Option Nat × Option Nat)) := do
  let next := ((← get).wh.region cur).next
  if s = b ∧ e = f then
    link prev next
    regionFree cur
    return some (prev, next)
  else if s = b then
    let npages ← pagesBetween P f e
    setRegion cur ({ · with begin := e, npages := npages })
    return some (some cur, next)
  else if e = f then
    let npages ← pagesBetween P s b
    setRegion cur ({ · with npages := npages })
    return some (some cur, next)
  else
    match ← regionAlloc with
    | none => return none
    | some right =>
      let rpages ← pagesBetween P f e
      let lpages ← pagesBetween P s b
      setRegion right fun _ => ⟨e, rpages, next⟩
      setRegion cur ({ · with npages := lpages, next := some right })
      return some (some cur, next)

/-- The loop of `munmap`. -/
def munmapFrom (table fin : Nat) : Nat → Option Nat → Option Nat → Nat → K Vm (Except UvmError Unit)
  | _, _, none, _ => return .ok ()
  | 0, _, some _, _ => throw .diverge
  | fuel + 1, prev, some cur, unmapStart => do
    if unmapStart < fin then
      let r := (← get).wh.region cur
      let curEnd ← regionEnd P r
      if fin ≤ r.begin then return .ok ()
      else
        let s := max unmapStart r.begin
        let e := min fin curEnd
        if s < e then
          if ← onPhys (PageTable.unmap P table s (e - s) true) then
            match ← trimRegion P prev cur r.begin curEnd s e with
            | none => return .error .noMem
            | some (prev, next) => munmapFrom table fin fuel prev next (s + (e - s))
          else return .error .mapFailed
        else
          let step ← subW P 64 e s
          munmapFrom table fin fuel (some cur) r.next (← addW P 64 s step)
    else return .ok ()

def munmap (table begin len : Nat) : K Vm (Except UvmError Unit) := do
  if len = 0 then return .ok ()
  else
    let start := alignDown begin
    let fin ← alignUp P (← addW P 64 begin len)
    if fin ≤ start then return .ok ()
    else
      let s ← get
      let (prev, cur) ← findPos s.wh (fun r => return decide (start < (← regionEnd P r))) N_MMAP none s.head
      munmapFrom P table fin N_MMAP prev cur start

end Uvm

end Glenda.Mem
