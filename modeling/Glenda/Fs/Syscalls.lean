import Glenda.Fs.Path
import Glenda.Mem.UserCopy

/-!
# System calls on files

Model of `fs/file.rs` and of the `fs_*` functions of `syscall/fs.rs`. They work on the tables of the file system, on the
descriptors and the working directory of the process that makes the call, and on its memory.
-/

namespace Glenda.Fs
open Glenda.Lib Glenda.Mem

abbrev NOFILE : Nat := 32

abbrev Fd := Fin NOFILE

/-- What the calls use of a process. `table` is the page of its root page table. -/
structure FsProc where
  openFiles : Fd → Option FileId
  cwd : Nat
  table : Nat

structure Sys (σ : Type) where
  fs : FsState σ
  proc : FsProc
  ph : Phys

/-- The bytes of a buffer, for user memory. -/
def toBytes (b : Block) (n : Nat) : List Nat := (List.range n).map fun q => (b q).toNat

/-- A buffer that was filled from user memory. -/
def ofBytes (bs : List Nat) : Block := fun q => UInt8.ofNat (bs.getD q 0)

def FsMem.setOff (m : FsMem) (f : FileId) (off : Nat) : FsMem := m.setFile f { m.files f with off := off }

/-- `fd < NOFILE` and `p.open_files[fd]`, which every call on a descriptor looks up first. -/
def FsProc.file (p : FsProc) (fd : Nat) : Option FileId := if h : fd < NOFILE then p.openFiles ⟨fd, h⟩ else none

def FsProc.setFd (p : FsProc) (fd : Fd) (f : Option FileId) : FsProc := { p with openFiles := Function.update p.openFiles fd f }

section Model

variable {σ α : Type} (P : Profile) (B : BlockStore σ Block) (sb : SuperBlock)

/-! ### The file table -/

def getFile (f : FileId) : K (FsState σ) File := do return (← get).mem.files f

def fileAlloc : K (FsState σ) (Option FileId) := do
  let m := (← get).mem
  match (List.finRange NFILE).find? fun f => (m.files f).refcnt == 0 with
  | some f =>
    modifyMem fun m => m.setFile f { m.files f with refcnt := 1, off := 0 }
    return some f
  | none => return none

def fileDup (f : FileId) : K (FsState σ) Unit := do
  let file ← getFile f
  K.panicIf (file.refcnt < 1) .fileFree
  let refcnt ← addW P 32 file.refcnt 1
  modifyMem fun m => m.setFile f { m.files f with refcnt := refcnt }

/-- The last reference to an entry of the table gives back the reference to its inode, for which the inode is looked up. -/
def fileClose (f : FileId) : K (FsState σ) Unit := do
  let file ← getFile f
  K.panicIf (file.refcnt < 1) .fileFree
  modifyMem fun m => m.setFile f { m.files f with refcnt := file.refcnt - 1 }
  if 0 < file.refcnt - 1 then return ()
  else
    modifyMem fun m => m.setFile f { m.files f with ty := .none }
    if file.ty = .inode then
      let k ← inodeGet P B sb file.inum
      inodePut P B sb k
      inodePut P B sb k
    else return ()

/-! ### Descriptors -/

def onFs (x : K (FsState σ) α) : K (Sys σ) α := K.focus Sys.fs (fun t s => { s with fs := t }) x

def onUser (x : K Phys α) : K (Sys σ) α := K.focus Sys.ph (fun ph s => { s with ph := ph }) x

def getProc : K (Sys σ) FsProc := do return (← get).proc

def modifyProc (g : FsProc → FsProc) : K (Sys σ) Unit := modify fun s => { s with proc := g s.proc }

/-- The first free descriptor names the file `f`. -/
def allocFd (f : FileId) : K (Sys σ) (Option Nat) := do
  let p ← getProc
  match (List.finRange NOFILE).find? fun fd => (p.openFiles fd).isNone with
  | some fd =>
    modifyProc (·.setFd fd (some f))
    return some fd.val
  | none => return none

/-- The inode that `fs_open` opens. With `O_CREAT` it is created if there is none. -/
def openInode (cwd : Nat) (path : List UInt8) (flags : Nat) : K (FsState σ) (Option Slot) := do
  if flags &&& 0x40 ≠ 0 then
    match ← pathToParentInodeAt P B sb cwd path with
    | (some parent, buf) =>
      let name := buf.takeWhile (· != 0)
      if name = [] then
        inodePut P B sb parent
        return none
      else
        match ← dentrySearch P B sb parent name with
        | some inum =>
          inodePut P B sb parent
          return some (← inodeGet P B sb inum)
        | none =>
          let k ← inodeCreate P B sb INODE_TYPE_DATA 0 0
          let inum := (← getInode k).inodeNum
          let _ ← dentryCreate P B sb parent inum name
          inodePut P B sb parent
          return some k
    | (none, _) => return none
  else pathToInodeAt P B sb cwd path

def fsOpen (path : List UInt8) (flags : Nat) : K (Sys σ) (Option Nat) := do
  match ← onFs (openInode P B sb (← getProc).cwd path flags) with
  | none => return none
  | some k =>
    let inode ← onFs (getInode k)
    if inode.disk.type_ = INODE_TYPE_DIR ∧ flags &&& 3 ≠ 0 then
      onFs (inodePut P B sb k)
      return none
    else
      if flags &&& 0x200 ≠ 0 ∧ inode.disk.type_ = INODE_TYPE_DATA then
        onFs (updateInode P B sb k ({ · with size := 0 }))
      match ← onFs fileAlloc with
      | none => return none
      | some f =>
        onFs (modifyMem fun m => m.setFile f { m.files f with
          ty := .inode, inum := inode.inodeNum, readable := flags &&& 3 ≠ 1, writable := flags &&& 3 ≠ 0, off := 0 })
        match ← allocFd f with
        | some fd => return some fd
        | none =>
          onFs (fileClose P B sb f)
          return none

/-- Whether `fs_close` returns `Ok`. -/
def fsClose (fd : Nat) : K (Sys σ) Bool := do
  match (← getProc).file fd with
  | none => return false
  | some f =>
    onFs (fileClose P B sb f)
    modifyProc fun p => if h : fd < NOFILE then p.setFd ⟨fd, h⟩ none else p
    return true

/-- The loop of `fs_read`, with the bytes read so far. It ends with their number, or with `none` when user memory cannot be
written. -/
def readChunks (f : FileId) (k : Slot) (uDst len : Nat) : Nat → Nat → Block → K (Sys σ) (Option Nat)
  | 0, _, _ => throw .diverge
  | fuel + 1, total, buf =>
    if total < len then do
      let chunkLen := min (len - total) 512
      let off := (← onFs (getFile f)).off
      let (read, buf) ← onFs (inodeReadData P B sb k off chunkLen chunkLen buf)
      if read = 0 then return some total
      else
        let dst ← addW P 64 uDst total
        match ← onUser (Uvm.copyout P (← getProc).table dst (toBytes buf read)) with
        | .error _ => return none
        | .ok () =>
          let total ← addW P 64 total read
          let off ← addW P 32 off read
          onFs (modifyMem (·.setOff f off))
          if read < chunkLen then return some total else readChunks f k uDst len fuel total buf
    else return some total

def fsRead (fd uDst len : Nat) : K (Sys σ) (Option Nat) := do
  match (← getProc).file fd with
  | none => return none
  | some f =>
    let file ← onFs (getFile f)
    if !file.readable then return none
    else
      let k ← onFs (inodeGet P B sb file.inum)
      let r ← readChunks P B sb f k uDst len (len + 1) 0 fun _ => 0
      onFs (inodePut P B sb k)
      return r

/-- The loop of `fs_write`. -/
def writeChunks (f : FileId) (k : Slot) (uSrc len : Nat) : Nat → Nat → K (Sys σ) (Option Nat)
  | 0, _ => throw .diverge
  | fuel + 1, total =>
    if total < len then do
      let chunkLen := min (len - total) 512
      let src ← addW P 64 uSrc total
      match ← onUser (Uvm.copyin P (← getProc).table chunkLen src) with
      | .error _ => return none
      | .ok bs =>
        let off := (← onFs (getFile f)).off
        let written ← onFs (inodeWriteData P B sb k off chunkLen chunkLen (ofBytes bs))
        let total ← addW P 64 total written
        let off ← addW P 32 off written
        onFs (modifyMem (·.setOff f off))
        if written < chunkLen then return some total else writeChunks f k uSrc len fuel total
    else return some total

def fsWrite (fd uSrc len : Nat) : K (Sys σ) (Option Nat) := do
  match (← getProc).file fd with
  | none => return none
  | some f =>
    let file ← onFs (getFile f)
    if !file.writable then return none
    else
      let k ← onFs (inodeGet P B sb file.inum)
      let r ← writeChunks P B sb f k uSrc len (len + 1) 0
      onFs (inodePut P B sb k)
      return r

/-- The sum of two `i32`. -/
def addI32 (a b : Int) : K (Sys σ) Int :=
  match P with
  | .dev => if -2 ^ 31 ≤ a + b ∧ a + b < 2 ^ 31 then return a + b else throw .overflow
  | .release => return (a + b).bmod (2 ^ 32)

/-- The offset of a file is set, unless it is negative. -/
def seekTo (f : FileId) (newOff : Int) : K (Sys σ) (Option Nat) := do
  if newOff < 0 then return none
  else
    onFs (modifyMem (·.setOff f newOff.toNat))
    return some newOff.toNat

def fsLseek (fd : Nat) (off : Int) (whence : Nat) : K (Sys σ) (Option Nat) := do
  match (← getProc).file fd with
  | none => return none
  | some f =>
    let file ← onFs (getFile f)
    let k ← onFs (inodeGet P B sb file.inum)
    let size := asI32 (← onFs (getInode k)).disk.size
    onFs (inodePut P B sb k)
    match whence with
    | 0 => seekTo f off
    | 1 => seekTo f (← addI32 P (asI32 file.off) off)
    | 2 => seekTo f (← addI32 P size off)
    | _ => return none

def fsDup (fd : Nat) : K (Sys σ) (Option Nat) := do
  match (← getProc).file fd with
  | none => return none
  | some f =>
    let refcnt ← addW P 32 (← onFs (getFile f)).refcnt 1
    onFs (modifyMem fun m => m.setFile f { m.files f with refcnt := refcnt })
    match ← allocFd f with
    | some fd => return some fd
    | none =>
      let refcnt ← subW P 32 (← onFs (getFile f)).refcnt 1
      onFs (modifyMem fun m => m.setFile f { m.files f with refcnt := refcnt })
      return none

/-- The bytes of a `Stat`. -/
def statBytes (x : InodeDisk) (inum : Nat) : List Nat :=
  let field (v n : Nat) : List Nat := (List.range n).map fun q => v / 256 ^ q % 256
  field x.type_ 2 ++ field x.nlink 2 ++ field x.size 4 ++ field x.major 2 ++ field x.minor 2 ++ field inum 4

def fsFstat (fd uStat : Nat) : K (Sys σ) Bool := do
  match (← getProc).file fd with
  | none => return false
  | some f =>
    let k ← onFs (inodeGet P B sb (← onFs (getFile f)).inum)
    let inode ← onFs (getInode k)
    onFs (inodePut P B sb k)
    let r ← onUser (Uvm.copyout P (← getProc).table uStat (statBytes inode.disk inode.inodeNum))
    return r.isOk

/-! ### Directories -/

def mkdirAt (cwd : Nat) (path : List UInt8) : K (FsState σ) Bool := do
  match ← pathToParentInodeAt P B sb cwd path with
  | (some parent, buf) =>
    let name := buf.takeWhile (· != 0)
    if name = [] then
      inodePut P B sb parent
      return false
    else if (← dentrySearch P B sb parent name).isSome then
      inodePut P B sb parent
      return false
    else
      let k ← inodeCreate P B sb INODE_TYPE_DIR 0 0
      updateInode P B sb k ({ · with nlink := 2 })
      let inum := (← getInode k).inodeNum
      let _ ← dentryCreate P B sb parent inum name
      inodePut P B sb k
      inodePut P B sb parent
      return true
  | (none, _) => return false

def fsMkdir (path : List UInt8) : K (Sys σ) Bool := do onFs (mkdirAt P B sb (← getProc).cwd path)

def fsChdir (path : List UInt8) : K (Sys σ) Bool := do
  match ← onFs (pathToInodeAt P B sb (← getProc).cwd path) with
  | some k =>
    let inode ← onFs (getInode k)
    if inode.disk.type_ ≠ INODE_TYPE_DIR then
      onFs (inodePut P B sb k)
      return false
    else
      modifyProc ({ · with cwd := inode.inodeNum })
      onFs (inodePut P B sb k)
      return true
  | none => return false

def linkAt (cwd : Nat) (oldPath newPath : List UInt8) : K (FsState σ) Bool := do
  match ← pathToInodeAt P B sb cwd oldPath with
  | none => return false
  | some old =>
    if (← getInode old).disk.type_ = INODE_TYPE_DIR then
      inodePut P B sb old
      return false
    else
      match ← pathToParentInodeAt P B sb cwd newPath with
      | (some parent, buf) =>
        let name := buf.takeWhile (· != 0)
        if name = [] then
          inodePut P B sb parent
          inodePut P B sb old
          return false
        else if (← dentrySearch P B sb parent name).isSome then
          inodePut P B sb parent
          inodePut P B sb old
          return false
        else
          let inum := (← getInode old).inodeNum
          let _ ← dentryCreate P B sb parent inum name
          let nlink ← addW P 16 (← getInode old).disk.nlink 1
          updateInode P B sb old ({ · with nlink := nlink })
          inodePut P B sb parent
          inodePut P B sb old
          return true
      | (none, _) =>
        inodePut P B sb old
        return false

def fsLink (oldPath newPath : List UInt8) : K (Sys σ) Bool := do onFs (linkAt P B sb (← getProc).cwd oldPath newPath)

def unlinkAt (cwd : Nat) (path : List UInt8) : K (FsState σ) Bool := do
  match ← pathToParentInodeAt P B sb cwd path with
  | (some parent, buf) =>
    let name := buf.takeWhile (· != 0)
    if name = [] then
      inodePut P B sb parent
      return false
    else
      match ← dentrySearch P B sb parent name with
      | none =>
        inodePut P B sb parent
        return false
      | some inum =>
        let k ← inodeGet P B sb inum
        if (← getInode k).disk.type_ = INODE_TYPE_DIR then
          inodePut P B sb k
          inodePut P B sb parent
          return false
        else
          let _ ← dentryDelete P B sb parent name
          let nlink ← subW P 16 (← getInode k).disk.nlink 1
          updateInode P B sb k ({ · with nlink := nlink })
          inodePut P B sb k
          inodePut P B sb parent
          return true
  | (none, _) => return false

def fsUnlink (path : List UInt8) : K (Sys σ) Bool := do onFs (unlinkAt P B sb (← getProc).cwd path)

/-- The loop of `fs_get_dentries`. An entry goes to user memory as it is on the disk. -/
def copyDentries (k : Slot) (uBuf max : Nat) : Nat → Nat → Nat → Block → K (Sys σ) Nat
  | 0, _, _, _ => throw .diverge
  | fuel + 1, off, count, buf => do
    if off < (← onFs (getInode k)).disk.size ∧ count < max then
      let (read, buf) ← onFs (inodeReadData P B sb k off DENTRY_SIZE DENTRY_SIZE buf)
      if read ≠ DENTRY_SIZE then return count
      else if isLive buf then
        let pos ← mulW P 64 count DENTRY_SIZE
        let dst ← addW P 64 uBuf pos
        match ← onUser (Uvm.copyout P (← getProc).table dst (toBytes buf DENTRY_SIZE)) with
        | .error _ => return count
        | .ok () =>
          let count ← addW P 64 count 1
          let off ← addW P 32 off DENTRY_SIZE
          copyDentries k uBuf max fuel off count buf
      else
        let off ← addW P 32 off DENTRY_SIZE
        copyDentries k uBuf max fuel off count buf
    else return count

def fsGetDentries (fd uBuf max : Nat) : K (Sys σ) (Option Nat) := do
  match (← getProc).file fd with
  | none => return none
  | some f =>
    let k ← onFs (inodeGet P B sb (← onFs (getFile f)).inum)
    let disk := (← onFs (getInode k)).disk
    if disk.type_ ≠ INODE_TYPE_DIR then
      onFs (inodePut P B sb k)
      return none
    else
      let count ← copyDentries P B sb k uBuf max (disk.size / DENTRY_SIZE + 2) 0 0 fun _ => 0
      onFs (inodePut P B sb k)
      return some count

end Model

end Glenda.Fs
