import Glenda.Fs.Bitmap

/-!
# Inodes

Model of `fs/inode.rs`. An inode on disk has 64 bytes. In memory it is a slot of the inode cache, and code holds inodes by
reference to their slots. The block numbers of a file are found directly in the inode, in an index block, or in the index
blocks below a further one. The file table of `fs/file.rs` is declared here too, as part of the state in memory.
-/

namespace Glenda.Fs
open Glenda.Lib

abbrev ROOT_INODE : Nat := 0

abbrev INODE_TYPE_DIR : Nat := 1

abbrev INODE_TYPE_DATA : Nat := 2

abbrev INODE_INDEX_1 : Nat := 10

abbrev INODE_INDEX_2 : Nat := 12

abbrev INODE_INDEX_3 : Nat := 13

abbrev NINDIRECT : Nat := 1024

abbrev MAXLEN_FILENAME : Nat := 60

abbrev N_INODE : Nat := 50

/-- The inodes in a block. -/
abbrev IPB : Nat := 64

/-- `index` is an array of `INODE_INDEX_3` numbers, with zeros behind it. -/
structure InodeDisk where
  type_ : Nat
  major : Nat
  minor : Nat
  nlink : Nat
  size : Nat
  index : Nat → Nat

def InodeDisk.zero : InodeDisk := ⟨0, 0, 0, 0, 0, fun _ => 0⟩

def byteOf (v k : Nat) : UInt8 := UInt8.ofNat (v / 256 ^ k)

namespace InodeDisk

/-- The bytes of the C layout. -/
def byte (x : InodeDisk) (k : Nat) : UInt8 :=
  if k < 2 then byteOf x.type_ k
  else if k < 4 then byteOf x.major (k - 2)
  else if k < 6 then byteOf x.minor (k - 4)
  else if k < 8 then byteOf x.nlink (k - 6)
  else if k < 12 then byteOf x.size (k - 8)
  else byteOf (x.index ((k - 12) / 4)) ((k - 12) % 4)

/-- The block with the inode stored at the offset `o`. -/
def encode (x : InodeDisk) (o : Nat) (b : Block) : Block := blit x.byte 0 64 o b

def decode (b : Block) (o : Nat) : InodeDisk :=
  ⟨leNat 2 b o, leNat 2 b (o + 2), leNat 2 b (o + 4), leNat 2 b (o + 6), leNat 4 b (o + 8),
    fun i => if i < INODE_INDEX_3 then leNat 4 b (o + 12 + 4 * i) else 0⟩

def setIndex (x : InodeDisk) (idx blk : Nat) : InodeDisk := { x with index := Function.update x.index idx blk }

end InodeDisk

structure Inode where
  disk : InodeDisk
  valid : Bool
  inodeNum : Nat
  refcnt : Nat

def Inode.new : Inode := ⟨.zero, false, 0, 0⟩

abbrev Slot := Fin N_INODE

inductive FileType
  | none
  | inode
  | device (major minor : Nat)
  | pipe
  deriving DecidableEq, Repr

structure File where
  ty : FileType
  readable : Bool
  writable : Bool
  off : Nat
  inum : Nat
  refcnt : Nat
  deriving DecidableEq, Repr

def File.new : File := ⟨.none, false, false, 0, 0, 0⟩

abbrev NFILE : Nat := 128

abbrev FileId := Fin NFILE

/-- The tables of the file system in memory. -/
structure FsMem where
  inodes : Slot → Inode
  files : FileId → File

def FsMem.new : FsMem := ⟨fun _ => .new, fun _ => .new⟩

structure FsState (σ : Type) where
  store : σ
  mem : FsMem

namespace FsMem

def setInode (m : FsMem) (k : Slot) (x : Inode) : FsMem := { m with inodes := Function.update m.inodes k x }

def setDisk (m : FsMem) (k : Slot) (x : InodeDisk) : FsMem := m.setInode k { m.inodes k with disk := x }

def setFile (m : FsMem) (i : FileId) (f : File) : FsMem := { m with files := Function.update m.files i f }

end FsMem

section Model

variable {σ : Type} (P : Profile) (B : BlockStore σ Block) (sb : SuperBlock)

/-- The store as a part of the state of the file system. -/
def fsStore : BlockStore (FsState σ) Block := B.lift FsState.store fun s t => { t with store := s }

def modifyMem (f : FsMem → FsMem) : K (FsState σ) Unit := modify fun t => { t with mem := f t.mem }

def getInode (k : Slot) : K (FsState σ) Inode := do return (← get).mem.inodes k

def inodeRw (k : Slot) (write : Bool) : K (FsState σ) Unit := do
  let inode ← getInode k
  let block ← addW P 32 sb.inodeStart (inode.inodeNum / IPB)
  let offset := inode.inodeNum % IPB * 64
  let b ← (fsStore B).read block
  if write then
    (fsStore B).modify b (inode.disk.encode offset)
    (fsStore B).write b
    (fsStore B).release b
  else
    let data ← (fsStore B).load b
    modifyMem (·.setDisk k (.decode data offset))
    (fsStore B).release b

/-! ### Block numbers -/

/-- An entry of an index block. -/
def entry (data : Block) (i : Nat) : Nat := leNat 4 data (4 * i)

def setEntry (i blk : Nat) (data : Block) : Block := putNat 4 blk (4 * i) data

/-- `inode.disk.index[idx]`, which `locate_or_add_block` allocates on demand. -/
def directEntry (k : Slot) (idx : Nat) (grow : Bool) : K (FsState σ) (Option Nat) := do
  let blk := (← getInode k).disk.index idx
  if blk = 0 then
    if !grow then return none
    else
      let blk ← Bitmap.alloc P (fsStore B) sb
      modifyMem fun m => m.setDisk k ((m.inodes k).disk.setIndex idx blk)
      inodeRw P B sb k true
      return some blk
  else return some blk

/-- The entry `i` of an index block, which `locate_or_add_block` allocates on demand in the same way at all levels. -/
def indirectEntry (indirectBlk i : Nat) (grow : Bool) : K (FsState σ) (Option Nat) := do
  let b ← (fsStore B).read indirectBlk
  let blk := entry (← (fsStore B).load b) i
  if blk = 0 then
    if !grow then
      (fsStore B).release b
      return none
    else
      let blk ← Bitmap.alloc P (fsStore B) sb
      (fsStore B).modify b (setEntry i blk)
      (fsStore B).write b
      (fsStore B).release b
      return some blk
  else
    (fsStore B).release b
    return some blk

/-- Go on with a block number, if there is one. -/
def thenEntry (x : K (FsState σ) (Option Nat)) (f : Nat → K (FsState σ) (Option Nat)) : K (FsState σ) (Option Nat) := do
  match ← x with
  | some blk => f blk
  | none => return none

def locateOrAddBlock (k : Slot) (lbn : Nat) (grow : Bool) : K (FsState σ) (Option Nat) :=
  if lbn < INODE_INDEX_1 then directEntry P B sb k lbn grow
  else if lbn - INODE_INDEX_1 < NINDIRECT then
    thenEntry (directEntry P B sb k INODE_INDEX_1 grow) fun indirectBlk =>
      indirectEntry P B sb indirectBlk (lbn - INODE_INDEX_1) grow
  else
    let lbn := lbn - INODE_INDEX_1 - NINDIRECT
    if lbn < NINDIRECT * NINDIRECT then
      thenEntry (directEntry P B sb k INODE_INDEX_2 grow) fun l1Blk =>
        thenEntry (indirectEntry P B sb l1Blk (lbn / NINDIRECT) grow) fun l2Blk =>
          indirectEntry P B sb l2Blk (lbn % NINDIRECT) grow
    else throw .blockIndexOutOfRange

/-- The loop over an index block that is held as `b`. -/
def forEntries (b : Nat) (f : Nat → K (FsState σ) PUnit) : K (FsState σ) PUnit :=
  (List.range NINDIRECT).forM fun i => do
    let blk := entry (← (fsStore B).load b) i
    if blk ≠ 0 then f blk

/-- Give back an index block after the blocks that it lists have been treated by `f`. -/
def freeIndexBlock (f : Nat → K (FsState σ) PUnit) (blk : Nat) : K (FsState σ) PUnit := do
  let b ← (fsStore B).read blk
  forEntries B b f
  (fsStore B).release b
  Bitmap.free P (fsStore B) sb blk

/-- A slot of `index` whose block is given back by `f`. -/
def clearIndex (k : Slot) (idx : Nat) (f : Nat → K (FsState σ) PUnit) : K (FsState σ) PUnit := do
  let blk := (← getInode k).disk.index idx
  if blk ≠ 0 then
    f blk
    modifyMem fun m => m.setDisk k ((m.inodes k).disk.setIndex idx 0)

def freeDataBlocks (k : Slot) : K (FsState σ) PUnit := do
  (List.range INODE_INDEX_1).forM fun i => clearIndex k i (Bitmap.free P (fsStore B) sb)
  clearIndex k INODE_INDEX_1 (freeIndexBlock P B sb (Bitmap.free P (fsStore B) sb))
  clearIndex k INODE_INDEX_2 (freeIndexBlock P B sb (freeIndexBlock P B sb (Bitmap.free P (fsStore B) sb)))

/-! ### References -/

def inodeGet (inum : Nat) : K (FsState σ) Slot := do
  let m := (← get).mem
  match (List.finRange N_INODE).find? fun k =>
      0 < (m.inodes k).refcnt && (m.inodes k).inodeNum == inum && (m.inodes k).valid with
  | some k =>
    let refcnt ← addW P 32 (m.inodes k).refcnt 1
    modifyMem fun m => m.setInode k { m.inodes k with refcnt := refcnt }
    return k
  | none =>
    match (List.finRange N_INODE).find? fun k => (m.inodes k).refcnt == 0 with
    | some k =>
      modifyMem fun m => m.setInode k { m.inodes k with inodeNum := inum, valid := false, refcnt := 1 }
      inodeRw P B sb k false
      modifyMem fun m => m.setInode k { m.inodes k with valid := true }
      return k
    | none => throw .noFreeInode

def inodeDup (k : Slot) : K (FsState σ) Unit := do
  let refcnt ← addW P 32 (← getInode k).refcnt 1
  modifyMem fun m => m.setInode k { m.inodes k with refcnt := refcnt }

/-- What `inode_put` does with an inode that has neither names nor references. -/
def inodeDelete (k : Slot) : K (FsState σ) Unit := do
  let currentInum := (← getInode k).inodeNum
  freeDataBlocks P B sb k
  Inode.free P (fsStore B) sb currentInum
  modifyMem fun m => m.setDisk k { (m.inodes k).disk with size := 0, type_ := 0 }
  inodeRw P B sb k true
  modifyMem fun m => m.setInode k { m.inodes k with valid := false, inodeNum := 0 }

def inodePut (k : Slot) : K (FsState σ) Unit := do
  K.panicIf ((← getInode k).refcnt = 0) .inodeRefcntZero
  modifyMem fun m => m.setInode k { m.inodes k with refcnt := (m.inodes k).refcnt - 1 }
  let inode ← getInode k
  if inode.refcnt = 0 ∧ inode.disk.nlink = 0 then inodeDelete P B sb k

/-! ### Data -/

/-- How many bytes a round of the loops copies: up to the end of the block, or up to `stop`. The comparison is with the
32-bit sum, which wraps in the last block of the offset range. -/
def chunk (off stop : Nat) : K (FsState σ) Nat := do
  let copyLen := BLOCK_SIZE - off % BLOCK_SIZE
  if stop < (← addW P 32 off copyLen) then return stop - off else return copyLen

/-- The loop of `inode_read_data` up to the offset `stop`, into a buffer of `dstLen` bytes. -/
def readFrom (k : Slot) (stop dstLen : Nat) : Nat → Nat → Nat → Block → K (FsState σ) Block
  | 0, _, _, _ => throw .diverge
  | fuel + 1, off, dstOff, dst =>
    if off < stop then do
      let copyLen ← chunk P off stop
      match ← locateOrAddBlock P B sb k (off / BLOCK_SIZE) false with
      | some blockNo =>
        let b ← (fsStore B).read blockNo
        let data ← (fsStore B).load b
        K.panicIf (dstLen < dstOff + copyLen) .wildAccess
        (fsStore B).release b
        let next ← addW P 32 off copyLen
        readFrom k stop dstLen fuel next (dstOff + copyLen) (blit data (off % BLOCK_SIZE) copyLen dstOff dst)
      | none =>
        K.panicIf (dstLen < dstOff + copyLen) .wildAccess
        let next ← addW P 32 off copyLen
        readFrom k stop dstLen fuel next (dstOff + copyLen) (blit (fun _ => 0) 0 copyLen dstOff dst)
    else return dst

/-- The number of bytes read, and the buffer of `dstLen` bytes afterwards. Every round advances in the buffer. -/
def inodeReadData (k : Slot) (off len dstLen : Nat) (dst : Block) : K (FsState σ) (Nat × Block) := do
  let size := (← getInode k).disk.size
  if size ≤ off then return (0, dst)
  else
    let len := if size < (← addW P 32 off len) then size - off else len
    let stop ← addW P 32 off len
    let dst ← readFrom P B sb k stop dstLen (dstLen + 1) off 0 dst
    return (len, dst)

/-- The loop of `inode_write_data` up to the offset `stop`, from a buffer of `srcLen` bytes. -/
def writeFrom (k : Slot) (stop srcLen : Nat) (src : Block) : Nat → Nat → Nat → K (FsState σ) Unit
  | 0, _, _ => throw .diverge
  | fuel + 1, off, srcOff =>
    if off < stop then do
      let copyLen ← chunk P off stop
      match ← locateOrAddBlock P B sb k (off / BLOCK_SIZE) true with
      | some blockNo =>
        let b ← (fsStore B).read blockNo
        K.panicIf (srcLen < srcOff + copyLen) .wildAccess
        (fsStore B).modify b (blit src srcOff copyLen (off % BLOCK_SIZE))
        (fsStore B).write b
        (fsStore B).release b
        let next ← addW P 32 off copyLen
        writeFrom k stop srcLen src fuel next (srcOff + copyLen)
      | none => throw .expectFailed
    else return ()

def inodeWriteData (k : Slot) (off len srcLen : Nat) (src : Block) : K (FsState σ) Nat := do
  let stop ← addW P 32 off len
  writeFrom P B sb k stop srcLen src (srcLen + 1) off 0
  if (← getInode k).disk.size < stop then
    modifyMem fun m => m.setDisk k { (m.inodes k).disk with size := stop }
    inodeRw P B sb k true
    return len
  else return len

def inodeCreate (type_ major minor : Nat) : K (FsState σ) Slot := do
  let inum ← Inode.alloc P (fsStore B) sb
  let k ← inodeGet P B sb inum
  modifyMem (·.setDisk k ⟨type_, major, minor, 1, 0, fun _ => 0⟩)
  inodeRw P B sb k true
  return k

end Model

end Glenda.Fs
