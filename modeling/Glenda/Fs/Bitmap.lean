import Glenda.Fs.Store
import Glenda.Lib.Bytes

/-!
# The bitmaps

Model of `fs/bitmap.rs` and of `alloc` and `free` of `fs/inode.rs`, over any store of blocks. One block holds the bitmap of
the data blocks and one the bitmap of the inodes. Both allocators scan for the first clear bit.
-/

namespace Glenda.Fs
open Glenda.Lib

structure SuperBlock where
  magic : Nat
  size : Nat
  nblocks : Nat
  ninodes : Nat
  inodeStart : Nat
  bmapStart : Nat
  deriving DecidableEq, Repr

/-- The inner loop over the bits of a byte, from the bit `j` on. -/
def scanByte (data : Block) (i : Nat) : Nat → Nat → Option Nat
  | 0, _ => none
  | n + 1, j => if (data i &&& 1 <<< UInt8.ofNat j) = 0 then some (i * 8 + j) else scanByte data i n (j + 1)

/-- The outer loop over the bytes of the bitmap, from the byte `i` on. -/
def scan (data : Block) : Nat → Nat → Option Nat
  | 0, _ => none
  | n + 1, i =>
    if data i ≠ 0xFF then
      match scanByte data i 8 0 with
      | some k => some k
      | none => scan data n (i + 1)
    else scan data n (i + 1)

section Model

variable {σ : Type} (P : Profile) (B : BlockStore σ Block) (sb : SuperBlock)

/-- The scan of a bitmap in both allocators: the first clear bit is set, unless it is out of range. -/
def allocBit (block limit : Nat) (full : Panic) : K σ Nat := do
  let b ← B.read block
  let data ← B.load b
  match scan data BLOCK_SIZE 0 with
  | some bitIdx =>
    if limit ≤ bitIdx then
      B.release b
      throw full
    else
      B.modify b (setBit bitIdx)
      B.write b
      B.release b
      return bitIdx
  | none =>
    B.release b
    throw full

/-- The bit is cleared in the byte `bitIdx / 8` from the start of the data of the buffer. -/
def freeBit (block bitIdx : Nat) (clear : Panic) : K σ Unit := do
  let b ← B.read block
  let data ← B.load b
  K.panicIf (BLOCK_SIZE ≤ bitIdx / 8) .wildAccess
  K.panicIf (bit data bitIdx = false) clear
  B.modify b (clearBit bitIdx)
  B.write b
  B.release b

namespace Bitmap

def alloc : K σ Nat := do
  let bitIdx ← allocBit B sb.bmapStart sb.nblocks .outOfBlocks
  let dataStart ← addW P 32 sb.bmapStart 1
  let absBlock ← addW P 32 dataStart bitIdx
  let zeroBuf ← B.read absBlock
  B.modify zeroBuf fun _ _ => 0
  B.write zeroBuf
  B.release zeroBuf
  return absBlock

def free (blockNo : Nat) : K σ Unit := do
  let dataStart ← addW P 32 sb.bmapStart 1
  K.panicIf (blockNo < dataStart) .blockOutOfRange
  let last ← addW P 32 dataStart sb.nblocks
  K.panicIf (last ≤ blockNo) .blockOutOfRange
  freeBit B sb.bmapStart (blockNo - dataStart) .blockAlreadyFree

end Bitmap

namespace Inode

def alloc : K σ Nat := do
  let ibmapBlock ← subW P 32 sb.inodeStart 1
  allocBit B ibmapBlock sb.ninodes .outOfInodes

/-- Unlike `bitmap::free` this does not compare the number with the range. -/
def free (inodeIdx : Nat) : K σ Unit := do
  let ibmapBlock ← subW P 32 sb.inodeStart 1
  freeBit B ibmapBlock inodeIdx .inodeAlreadyFree

end Inode

end Model

/-! ### The scan -/

variable {data : Block} {k i j n : Nat}

lemma bit_byte (data : Block) (i : Nat) (hj : j < 8) : bit data (i * 8 + j) = ((data i &&& 1 <<< UInt8.ofNat j) != 0) := by
  unfold bit
  rw [show (i * 8 + j) / 8 = i by omega, show (i * 8 + j) % 8 = j by omega]

/-- A result of a scan is the first clear bit from `lo` on, and it is below `hi`. -/
structure FirstClear (data : Block) (lo hi k : Nat) : Prop where
  ge : lo ≤ k
  lt : k < hi
  clear : bit data k = false
  before : ∀ j, lo ≤ j → j < k → bit data j = true

lemma scanByte_some (hn : j + n = 8) (h : scanByte data i n j = some k) : FirstClear data (i * 8 + j) (i * 8 + 8) k := by
  induction n generalizing j with
  | zero => cases h
  | succ n ih =>
    have hbit := bit_byte data i (j := j) (by omega)
    rw [scanByte] at h
    split_ifs at h with hz
    · cases h
      exact ⟨le_rfl, by omega, by simp [hbit, hz], fun j' hge hlt => by omega⟩
    · obtain ⟨hge, hlt, hclear, hbefore⟩ := ih (by omega) h
      refine ⟨by omega, hlt, hclear, fun j' hge' hlt' => ?_⟩
      by_cases he : j' = i * 8 + j
      · simp [he, hbit, hz]
      · exact hbefore j' (by omega) hlt'

lemma scanByte_none (hn : j + n = 8) (h : scanByte data i n j = none) :
    ∀ j', i * 8 + j ≤ j' → j' < i * 8 + 8 → bit data j' = true := by
  induction n generalizing j with
  | zero =>
    intro j' hge hlt
    omega
  | succ n ih =>
    have hbit := bit_byte data i (j := j) (by omega)
    rw [scanByte] at h
    split_ifs at h with hz
    intro j' hge hlt
    by_cases he : j' = i * 8 + j
    · simp [he, hbit, hz]
    · exact ih (by omega) h j' (by omega) hlt

lemma scan_succ (data : Block) (n i : Nat) :
    (∃ k, scan data (n + 1) i = some k ∧ FirstClear data (i * 8) (i * 8 + 8) k) ∨
      scan data (n + 1) i = scan data n (i + 1) ∧ ∀ j, i * 8 ≤ j → j < i * 8 + 8 → bit data j = true := by
  rw [scan]
  split_ifs with hfull
  · cases hb : scanByte data i 8 0 with
    | some k => exact .inl ⟨k, rfl, scanByte_some rfl hb⟩
    | none => exact .inr ⟨rfl, scanByte_none rfl hb⟩
  · right
    refine ⟨rfl, fun j hge hlt => ?_⟩
    have hall := (byte_full_iff data i).mp (not_not.mp hfull) (j - i * 8) (by omega)
    rwa [show i * 8 + (j - i * 8) = j by omega] at hall

lemma scan_some (h : scan data n i = some k) : FirstClear data (i * 8) ((i + n) * 8) k := by
  induction n generalizing i with
  | zero => cases h
  | succ n ih =>
    rcases scan_succ data n i with ⟨k', hk', hfirst⟩ | ⟨hnext, hall⟩
    · rw [hk'] at h
      cases h
      exact ⟨hfirst.ge, by have := hfirst.lt; omega, hfirst.clear, hfirst.before⟩
    · rw [hnext] at h
      obtain ⟨hge, hlt, hclear, hbefore⟩ := ih h
      refine ⟨by omega, by omega, hclear, fun j hge' hlt' => ?_⟩
      by_cases hj : j < i * 8 + 8
      · exact hall j hge' hj
      · exact hbefore j (by omega) hlt'

lemma scan_none (h : scan data n i = none) : ∀ j, i * 8 ≤ j → j < (i + n) * 8 → bit data j = true := by
  induction n generalizing i with
  | zero =>
    intro j hge hlt
    omega
  | succ n ih =>
    rcases scan_succ data n i with ⟨k', hk', -⟩ | ⟨hnext, hall⟩
    · rw [hk'] at h
      cases h
    · rw [hnext] at h
      intro j hge hlt
      by_cases hj : j < i * 8 + 8
      · exact hall j hge hj
      · exact ih h j (by omega) (by omega)

/-! ### What the operations do -/

section Spec

variable {σ : Type} {P : Profile} {B : BlockStore σ Block} {cap : Nat} {Rep : σ → (Nat → Block) → List (Nat × Nat) → Prop}
  {sb : SuperBlock} {s : σ} {d : Nat → Block} {H : List (Nat × Nat)} {E : Panic → Prop} {block limit : Nat} {p : Panic}

lemma allocBit_ends (L : B.Lawful cap Rep) (hr : Rep s d H) (hn : ∀ x ∈ H, x.2 ≠ block) (hc : H.length < cap)
    (hfull : (∀ k < limit, k < 32768 → bit (d block) k = true) → E p) :
    (allocBit B block limit p).Ends s E fun k s' =>
      (FirstClear (d block) 0 limit k ∧ k < 32768) ∧ Rep s' (Function.update d block (setBit k (d block))) H := by
  refine L.read_bind hr hn hc fun b s1 hr1 => L.load_bind hr1 List.mem_cons_self ?_
  cases hscan : scan (d block) BLOCK_SIZE 0 with
  | none =>
    refine L.release_bind hr1 fun s2 _ => .throw (hfull fun k _ hk => ?_)
    exact scan_none hscan k (by omega) (by unfold BLOCK_SIZE; omega)
  | some k =>
    have hk := scan_some hscan
    dsimp only
    split_ifs with hlim
    · exact L.release_bind hr1 fun s2 _ => .throw (hfull fun j hj _ => hk.before j (by omega) (by omega))
    · refine L.store_bind hr1 List.mem_cons_self fun s2 hr2 => L.release_bind hr2 fun s3 hr3 => .pure ⟨⟨?_, ?_⟩, hr3⟩
      · exact ⟨hk.ge, by omega, hk.clear, fun j hge => hk.before j (by omega)⟩
      · have hlt := hk.lt
        unfold BLOCK_SIZE at hlt
        omega

lemma freeBit_ends (L : B.Lawful cap Rep) (hr : Rep s d H) (hn : ∀ x ∈ H, x.2 ≠ block) (hc : H.length < cap)
    (hk : k < 32768) (hset : bit (d block) k = true) :
    (freeBit B block k p).Ends s E fun _ s' => Rep s' (Function.update d block (clearBit k (d block))) H := by
  refine L.read_bind hr hn hc fun b s1 hr1 => L.load_bind hr1 List.mem_cons_self ?_
  refine .bind_of_ok (K.panicIf_of_not (by unfold BLOCK_SIZE; omega)) (.bind_of_ok (K.panicIf_of_not (by simp [hset])) ?_)
  exact L.store_bind hr1 List.mem_cons_self fun s2 hr2 => L.release_ends hr2

/-- The blocks behind the bitmap have numbers. -/
def SuperBlock.BlocksFit (sb : SuperBlock) : Prop := sb.bmapStart + 1 + sb.nblocks < 2 ^ 32

lemma Bitmap.alloc_ends (L : B.Lawful cap Rep) (hfit : sb.BlocksFit) (hr : Rep s d H) (hn : ∀ x ∈ H, x.2 ≠ sb.bmapStart)
    (hused : ∀ x ∈ H, ∀ k < sb.nblocks, bit (d sb.bmapStart) k = false → x.2 ≠ sb.bmapStart + 1 + k) (hc : H.length < cap)
    (hfull : (∀ k < sb.nblocks, k < 32768 → bit (d sb.bmapStart) k = true) → E .outOfBlocks) :
    (Bitmap.alloc P B sb).Ends s E fun b s' => ∃ k, b = sb.bmapStart + 1 + k ∧
      (FirstClear (d sb.bmapStart) 0 sb.nblocks k ∧ k < 32768) ∧
      Rep s' (Function.update (Function.update d sb.bmapStart (setBit k (d sb.bmapStart))) b fun _ => 0) H := by
  unfold SuperBlock.BlocksFit at hfit
  refine .bind (allocBit_ends L hr hn hc hfull) fun k s1 _ hk => ?_
  obtain ⟨hfirst, hr1⟩ := hk
  have hlt := hfirst.1.lt
  rw [addW_of_lt P (by omega), pure_bind, addW_of_lt P (by omega), pure_bind]
  refine L.read_bind hr1 (fun x hx => hused x hx k hlt hfirst.1.clear) hc fun b s2 hr2 => ?_
  exact L.store_bind hr2 List.mem_cons_self fun s3 hr3 => L.release_bind hr3 fun s4 hr4 => .pure ⟨k, rfl, hfirst, hr4⟩

lemma Bitmap.free_ends (L : B.Lawful cap Rep) (hfit : sb.BlocksFit) (hr : Rep s d H) (hn : ∀ x ∈ H, x.2 ≠ sb.bmapStart)
    (hc : H.length < cap) (hk : k < sb.nblocks) (hk' : k < 32768) (hset : bit (d sb.bmapStart) k = true) :
    (Bitmap.free P B sb (sb.bmapStart + 1 + k)).Ends s E fun _ s' =>
      Rep s' (Function.update d sb.bmapStart (clearBit k (d sb.bmapStart))) H := by
  unfold SuperBlock.BlocksFit at hfit
  unfold Bitmap.free
  rw [addW_of_lt P (by omega), pure_bind]
  refine .bind_of_ok (K.panicIf_of_not (by omega)) ?_
  rw [addW_of_lt P (by omega), pure_bind]
  refine .bind_of_ok (K.panicIf_of_not (by omega)) ?_
  rw [Nat.add_sub_cancel_left]
  exact freeBit_ends L hr hn hc hk' hset

section

variable (L : B.Lawful cap Rep) (hstart : 1 ≤ sb.inodeStart) (hr : Rep s d H) (hn : ∀ x ∈ H, x.2 ≠ sb.inodeStart - 1) (hc : H.length < cap)
include L hstart hr hn hc

lemma Inode.alloc_ends (hfull : (∀ k < sb.ninodes, k < 32768 → bit (d (sb.inodeStart - 1)) k = true) → E .outOfInodes) :
    (Inode.alloc P B sb).Ends s E fun k s' => (FirstClear (d (sb.inodeStart - 1)) 0 sb.ninodes k ∧ k < 32768) ∧
      Rep s' (Function.update d (sb.inodeStart - 1) (setBit k (d (sb.inodeStart - 1)))) H := by
  unfold Inode.alloc
  rw [subW_of_le P hstart, pure_bind]
  exact allocBit_ends L hr hn hc hfull

lemma Inode.free_ends (hk : k < 32768)
    (hset : bit (d (sb.inodeStart - 1)) k = true) :
    (Inode.free P B sb k).Ends s E fun _ s' =>
      Rep s' (Function.update d (sb.inodeStart - 1) (clearBit k (d (sb.inodeStart - 1)))) H := by
  unfold Inode.free
  rw [subW_of_le P hstart, pure_bind]
  exact freeBit_ends L hr hn hc hk hset

end

end Spec

end Glenda.Fs
