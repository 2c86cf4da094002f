import Glenda.Fs.FileData
import Glenda.Fs.Allocators

/-!
# Reading and writing files

The operations of `fs/inode.rs` on the buffer cache. A file is an array of bytes up to the last block of the 32-bit offsets,
where the sums of the loops no longer fit.
-/

namespace Glenda.Fs
open Glenda.Lib

/-- The blocks of the device. -/
def blocks (t : FsState BufState) : Nat → Block := t.store.disk.blocks

/-- A well-formed file system whose inode `i` is in the slot `k`, between two operations. -/
structure FileAt (sb : SuperBlock) (t : FsState BufState) (k : Slot) (i : Nat) : Prop where
  layout : sb.Layout
  quiet : Quiet t.store
  owned : Owned sb (blocks t) fun _ => False
  used : Used sb (blocks t) i
  holds : Holds sb (blocks t) t.mem k i

/-- There are no bytes behind the end. A file is so from its creation on until it is truncated. -/
def CleanTail (sb : SuperBlock) (d : Nat → Block) (i : Nat) : Prop :=
  ∀ o, (dinode sb d i).size ≤ o → o < 2 ^ 32 → fileByte sb d i o = 0

variable {P : Profile} {sb : SuperBlock} {t t' : FsState BufState} {m : FsMem} {k : Slot} {i off len srcLen dstLen stop fuel : Nat}
  {src dst : Block} {d d' : Nat → Block}

lemma FileAt.at (h : FileAt sb t k i) : At Stored t.mem t (blocks t) [] := ⟨rfl, h.quiet⟩

lemma At.blocks_eq {H : List (Nat × Nat)} (h : At Stored m t d H) : blocks t = d := h.2.blocks_eq

lemma FileAt.of_at (lay : sb.Layout) (ow : Owned sb d fun _ => False) (hi : Used sb d i)
    (hr : At Stored (m.setDisk k (dinode sb d i)) t d []) (hnum : (m.inodes k).inodeNum = i) : FileAt sb t k i := by
  obtain rfl := hr.blocks_eq
  refine ⟨lay, hr.2, ow, hi, ?_⟩
  rw [hr.1]
  exact Holds.setDisk hnum _

lemma cleanTail_of_fresh (h : ∀ n, (dinode sb d i).index n = 0) : CleanTail sb d i := by
  intro o _ ho
  unfold fileByte
  rw [if_pos (ptr_eq_zero h (leafPath_isPath (div_lt_maxBlocks ho)))]

lemma WroteData.cleanTail (h : WroteData sb d d' i off len src) (hc : CleanTail sb d i) : CleanTail sb d' i := by
  intro o hge ho
  rw [h.self] at hge
  dsimp only at hge
  rw [h.bytes o (div_lt_maxBlocks ho)]
  unfold blit
  rw [if_neg (by omega)]
  exact hc o (by omega) ho

/-! ### Files as arrays of bytes -/

/-- The bytes of a file after a write. -/
def written (sb : SuperBlock) (d : Nat → Block) (i off len : Nat) (src : Block) (o : Nat) : UInt8 :=
  if off ≤ o ∧ o < off + len then src (o - off) else if o < (dinode sb d i).size then fileByte sb d i o else 0

/-- Reading any range of the file `i` gives the bytes `f`, as far as they reach. -/
def ReadsAs (P : Profile) (sb : SuperBlock) (t : FsState BufState) (k : Slot) (size : Nat) (f : Nat → UInt8) : Prop :=
  ∀ off len dstLen dst, off + len ≤ MAXOFFSET → len ≤ dstLen → ∃ t',
    inodeReadData P (cacheStore P) sb k off len dstLen dst t =
      .ok ((min len (size - off), blit f off (min len (size - off)) 0 dst), t') ∧ blocks t' = blocks t ∧ t'.mem = t.mem

lemma FileAt.readsAs (h : FileAt sb t k i) :
    ReadsAs P sb t k (dinode sb (blocks t) i).size (fileByte sb (blocks t) i) := by
  intro off len dstLen dst hmax hdst
  have hends := inodeReadData_ends (P := P) (E := fun _ => False) dst (cacheStore_lawful P) h.layout (by decide) h.owned h.used
    h.holds h.at hdst (by unfold MAXOFFSET at hmax; omega) (.inr ((Nat.min_le_left _ _).trans hmax))
  obtain ⟨r, t', he, hr, hn, hbytes⟩ := hends.exists_ok
  refine ⟨t', ?_, hr.blocks_eq, hr.1⟩
  rw [he, ← hn, ← hbytes]

lemma ReadsAs.congr {size : Nat} {f g : Nat → UInt8} (h : ReadsAs P sb t k size f) (hfg : ∀ o < size, f o = g o) :
    ReadsAs P sb t k size g := by
  intro off len dstLen dst hmax hdst
  obtain ⟨t', he, hb⟩ := h off len dstLen dst hmax hdst
  refine ⟨t', ?_, hb⟩
  rw [he, blit_congr fun q hq => hfg (off + q) (by omega)]

/-- File contents refine a byte array. -/
theorem write_refines_bytes (h : FileAt sb t k i) (src : Block) (hmax : off + len ≤ MAXOFFSET) (hsrc : len ≤ srcLen)
    (hfree : 3 * blocksOf off (off + len) ≤ freeBlocks sb (blocks t)) :
    ∃ t', inodeWriteData P (cacheStore P) sb k off len srcLen src t = .ok (len, t') ∧ FileAt sb t' k i ∧
      (dinode sb (blocks t') i).size = max (dinode sb (blocks t) i).size (off + len) ∧
      (∀ o, off ≤ o → o < off + len → fileByte sb (blocks t') i o = src (o - off)) ∧
      (∀ o < (dinode sb (blocks t) i).size, ¬(off ≤ o ∧ o < off + len) →
        fileByte sb (blocks t') i o = fileByte sb (blocks t) i o) ∧
      ReadsAs P sb t' k (dinode sb (blocks t') i).size (fileByte sb (blocks t') i) ∧
      (CleanTail sb (blocks t) i → CleanTail sb (blocks t') i ∧
        ReadsAs P sb t' k (dinode sb (blocks t') i).size (written sb (blocks t) i off len src)) ∧
      ∀ j, Used sb (blocks t) j → j ≠ i → Used sb (blocks t') j ∧ dinode sb (blocks t') j = dinode sb (blocks t) j ∧
        ∀ o < 2 ^ 32, fileByte sb (blocks t') j o = fileByte sb (blocks t) j o := by
  have hoff : off + len ≤ 2 ^ 32 := hmax.trans (Nat.sub_le _ _)
  have hroom := card_lacking_le sb (blocks t) i off (off + len)
  have hends := inodeWriteData_ends (P := P) (E := fun _ => False) src (cacheStore_lawful P) h.layout (by decide) h.owned
    h.used h.holds h.at hsrc (by unfold MAXOFFSET at hmax; omega) (.inr hmax) (fileNodes_isPath hoff) Finset.Subset.rfl
    (fun hfew => by omega)
  obtain ⟨n, t', he, rfl, d', hr, hw, -⟩ := hends.exists_ok
  have hi' := (hw.used i).mpr h.used
  have hfile := FileAt.of_at h.layout hw.owned hi' hr h.holds.num
  obtain rfl := hr.blocks_eq
  have hsize : (dinode sb (blocks t') i).size = max (dinode sb (blocks t) i).size (off + n) := by rw [hw.self]
  have hlt := (dinode_fits sb (blocks t') i).size
  have hbytes : ∀ o < 2 ^ 32, fileByte sb (blocks t') i o = blit src 0 n off (fileByte sb (blocks t) i) o :=
    fun o ho => hw.bytes o (div_lt_maxBlocks ho)
  have hin : ∀ o, off ≤ o → o < off + n → fileByte sb (blocks t') i o = src (o - off) := by
    intro o hge hlt'
    rw [hbytes o (by omega)]
    unfold blit
    rw [if_pos ⟨hge, hlt'⟩, Nat.zero_add]
  have hout : ∀ o < 2 ^ 32, ¬(off ≤ o ∧ o < off + n) → fileByte sb (blocks t') i o = fileByte sb (blocks t) i o := by
    intro o ho hnot
    rw [hbytes o ho]
    exact if_neg hnot
  refine ⟨t', he, hfile, hsize, hin, fun o ho hnot => hout o (by omega) hnot, hfile.readsAs, fun hclean => ?_, fun j hj hne => ?_⟩
  · refine ⟨hw.cleanTail hclean, hfile.readsAs.congr fun o ho => ?_⟩
    unfold written
    split_ifs with hrange hold
    · exact hin o hrange.1 hrange.2
    · exact hout o (by omega) hrange
    · rw [hout o (by omega) hrange]
      exact hclean o (by omega) (by omega)
  · exact ⟨(hw.used j).mpr hj, hw.other j hj hne, fun o ho => hw.rest j o hj hne (div_lt_maxBlocks ho)⟩

/-! ### A small file system -/

/-- A disk on which the inode 0 is in use and has no blocks. -/
def oneDisk : Disk := ⟨fun b i => if b = 1 ∧ i = 0 then 1 else 0, fun _ => true⟩

/-- The inode 0 of `oneDisk` is in the slot 0. -/
def oneFile : FsState BufState := ⟨⟨LRUCache.new.init, oneDisk⟩, FsMem.new.setInode 0 ⟨.zero, true, 0, 1⟩⟩

lemma leNat_zero (w o : Nat) : leNat w (fun _ => 0) o = 0 := by
  induction w generalizing o with
  | zero => rfl
  | succ w ih => simp [leNat, ih]

lemma smallSb_layout : smallSb.Layout := by
  constructor
  · decide
  · decide
  · exact show 12 < 2 ^ 32 by decide
  · decide
  · decide

lemma oneDisk_dinode (j : Nat) : dinode smallSb oneDisk.blocks j = .zero := by
  have hblock : oneDisk.blocks (smallSb.inodeStart + j / IPB) = fun _ => 0 := by
    funext i
    refine if_neg ?_
    rintro ⟨h, -⟩
    have hblock : 2 + j / 64 = 1 := h
    omega
  unfold dinode
  rw [hblock]
  unfold InodeDisk.decode InodeDisk.zero
  simp only [leNat_zero, ite_self]

lemma oneFile_fileAt : FileAt smallSb oneFile 0 0 := by
  refine ⟨smallSb_layout, stored_init oneDisk fun _ => rfl, ?_, ⟨by decide, by decide⟩, rfl, (oneDisk_dinode 0).symm⟩
  apply owned_of_index
  · intro i _ n
    change (dinode smallSb oneDisk.blocks i).index n = 0
    rw [oneDisk_dinode]
    rfl
  · rintro b ⟨n, hn, -, hbit⟩
    revert hbit
    revert n
    decide

theorem write_refines_bytes_oneFile : FileAt smallSb oneFile 0 0 ∧ CleanTail smallSb (blocks oneFile) 0 ∧
    ∃ t', inodeWriteData .dev (cacheStore .dev) smallSb 0 4090 10 10 (fun _ => 7) oneFile = .ok (10, t') ∧
      (dinode smallSb (blocks t') 0).size = 4100 ∧
      ReadsAs .dev smallSb t' 0 4100 (written smallSb (blocks oneFile) 0 4090 10 fun _ => 7) := by
  have hclean : CleanTail smallSb (blocks oneFile) 0 := cleanTail_of_fresh fun n => by
    change (dinode smallSb oneDisk.blocks 0).index n = 0
    rw [oneDisk_dinode]
    rfl
  have hold : (dinode smallSb (blocks oneFile) 0).size = 0 := congrArg InodeDisk.size (oneDisk_dinode 0)
  obtain ⟨t', he, -, hsize, -, -, -, hwritten, -⟩ := write_refines_bytes (P := .dev) oneFile_fileAt (fun _ => 7)
    (show 4090 + 10 ≤ MAXOFFSET by decide) (le_refl 10) (by decide)
  rw [hold] at hsize
  have hreads := (hwritten hclean).2
  rw [hsize] at hreads
  exact ⟨oneFile_fileAt, hclean, t', he, hsize, hreads⟩

/-! ### The end of the offsets -/

/-- A write of a buffer of `len` bytes is exact: no sum wraps, and it reports how many bytes it has written. -/
structure WritesExactly (sb : SuperBlock) (t : FsState BufState) (k : Slot) (i off len : Nat) (src : Block) : Prop where
  noWrap : inodeWriteData .dev (cacheStore .dev) sb k off len len src t ≠ .error .overflow
  exact : ∀ P, ∃ n t', inodeWriteData P (cacheStore P) sb k off len len src t = .ok (n, t') ∧ n ≤ len ∧ off + n < 2 ^ 32 ∧
    (off + len < 2 ^ 32 → n = len) ∧
    (∀ o < 2 ^ 32, fileByte sb (blocks t') i o = blit src 0 n off (fileByte sb (blocks t) i) o) ∧
    ∀ j, Used sb (blocks t) j → j ≠ i → dinode sb (blocks t') j = dinode sb (blocks t) j ∧
      ∀ o < 2 ^ 32, fileByte sb (blocks t') j o = fileByte sb (blocks t) j o

/-- A read into a buffer of `len` bytes is exact: no sum wraps, and it reports how many bytes of the file it has read. -/
structure ReadsExactly (sb : SuperBlock) (t : FsState BufState) (k : Slot) (i off len : Nat) (dst : Block) : Prop where
  noWrap : inodeReadData .dev (cacheStore .dev) sb k off len len dst t ≠ .error .overflow
  exact : ∀ P, ∃ n t', inodeReadData P (cacheStore P) sb k off len len dst t =
    .ok ((n, blit (fileByte sb (blocks t) i) off n 0 dst), t') ∧ n = min len ((dinode sb (blocks t) i).size - off) ∧
    blocks t' = blocks t

section Overflow

variable {σ : Type} {B : BlockStore σ Block} {cap srcOff dstOff : Nat} {Rep : σ → (Nat → Block) → List (Nat × Nat) → Prop}
  {u : FsState σ}

lemma chunk_overflow (hge : MAXOFFSET ≤ off) (hlt : off < 2 ^ 32) : (chunk .dev off stop : K (FsState σ) Nat) = throw .overflow := by
  unfold chunk BLOCK_SIZE
  unfold MAXOFFSET at hge
  dsimp only
  rw [addW_dev (by omega)]
  rfl

lemma chunk_full (hoff : off < MAXOFFSET) (hstop : MAXOFFSET < stop) :
    (chunk P off stop : K (FsState σ) Nat) = pure (BLOCK_SIZE - off % BLOCK_SIZE) ∧
      off + (BLOCK_SIZE - off % BLOCK_SIZE) ≤ MAXOFFSET := by
  unfold MAXOFFSET at *
  unfold chunk BLOCK_SIZE
  dsimp only
  rw [addW_of_lt P (by omega), pure_bind, if_neg (by omega)]
  exact ⟨rfl, by omega⟩

section

variable (L : B.Lawful cap Rep) (lay : sb.Layout) (hc : 1 < cap) (ow : Owned sb d fun _ => False) (hi : Used sb d i)
  (hk : Holds sb d m k i) (hr : At Rep m u d []) (hoff : off < stop) (hlow : MAXOFFSET < stop) (hstop : stop < 2 ^ 32) (hfuel : stop - off < fuel)
include L lay hc ow hi hk hr hoff hlow hstop hfuel

lemma writeFrom_overflow (hsrc : srcOff + (stop - off) ≤ srcLen) :
    (writeFrom .dev B sb k stop srcLen src fuel off srcOff).Ends u (fun e => e = .overflow ∨ e = .outOfBlocks)
      fun _ _ => False := by
  induction fuel generalizing off srcOff d m u with
  | zero => omega
  | succ fuel ih =>
    by_cases hlast : MAXOFFSET ≤ off
    · unfold writeFrom
      rw [if_pos hoff, chunk_overflow hlast (by omega)]
      exact .throw (.inl rfl)
    · obtain ⟨hchunk, hle⟩ := chunk_full (P := .dev) (σ := σ) (not_le.mp hlast) hlow
      have hpos : 0 < BLOCK_SIZE - off % BLOCK_SIZE := Nat.sub_pos_of_lt (Nat.mod_lt _ (by decide))
      refine writeFrom_succ_ends L lay hc ow hi hk hr hoff hchunk le_rfl (by omega) (fun _ => by omega)
        (fileNodes_isPath hstop.le) (nodes_subset_fileNodes le_rfl hoff) (fun _ => .inr rfl) fun t1 d1 hr1 hw _ => ?_
      rw [addW_of_lt .dev (by omega), pure_bind]
      exact ih hw.owned ((hw.used i).mpr hi) (Holds.setDisk hk.num d1) hr1 (by omega) (by omega) (by omega)

lemma readFrom_overflow (hdst : dstOff + (stop - off) ≤ dstLen) :
    (readFrom .dev B sb k stop dstLen fuel off dstOff dst).Ends u (fun e => e = .overflow) fun _ _ => False := by
  induction fuel generalizing off dstOff dst u with
  | zero => omega
  | succ fuel ih =>
    by_cases hlast : MAXOFFSET ≤ off
    · unfold readFrom
      rw [if_pos hoff, chunk_overflow hlast (by omega)]
      exact .throw rfl
    · obtain ⟨hchunk, hle⟩ := chunk_full (P := .dev) (σ := σ) (not_le.mp hlast) hlow
      have hpos : 0 < BLOCK_SIZE - off % BLOCK_SIZE := Nat.sub_pos_of_lt (Nat.mod_lt _ (by decide))
      refine readFrom_succ_ends L lay hc ow hi hk hr hoff hchunk le_rfl (by omega) (by omega) fun t1 hr1 => ?_
      exact ih hr1 (by omega) (by omega) (by omega)

end

end Overflow

/-- A write that reaches the last block stops in the dev profile, if the disk does not fill up before. -/
lemma FileAt.write_overflow (h : FileAt sb t k i) (src : Block) (hlen : 0 < len) (hmax : MAXOFFSET < off + len) :
    inodeWriteData .dev (cacheStore .dev) sb k off len len src t = .error .overflow ∨
      inodeWriteData .dev (cacheStore .dev) sb k off len len src t = .error .outOfBlocks := by
  have hends : (inodeWriteData .dev (cacheStore .dev) sb k off len len src).Ends t (fun e => e = .overflow ∨ e = .outOfBlocks)
      fun _ _ => False := by
    unfold inodeWriteData
    by_cases hsum : off + len < 2 ^ 32
    · rw [addW_of_lt .dev hsum, pure_bind]
      refine .bind (writeFrom_overflow (cacheStore_lawful .dev) h.layout (by decide) h.owned h.used h.holds h.at (by omega) hmax hsum
        (by omega) (by omega)) ?_
      rintro - t1 - ⟨⟩
    · rw [addW_dev (by omega)]
      exact .throw (.inl rfl)
  cases he : inodeWriteData .dev (cacheStore .dev) sb k off len len src t with
  | error e =>
    rcases hends.error e he with rfl | rfl
    · exact .inl rfl
    · exact .inr rfl
  | ok r => exact (hends.ok r.1 r.2 he).elim

lemma FileAt.read_overflow (h : FileAt sb t k i) (hsize : off < (dinode sb (blocks t) i).size) (hlen : 0 < len)
    (hmax : 2 ^ 32 ≤ off + len ∨ MAXOFFSET < min (off + len) (dinode sb (blocks t) i).size) :
    inodeReadData .dev (cacheStore .dev) sb k off len len dst t = .error .overflow := by
  have hlt := (dinode_fits sb (blocks t) i).size
  have hends : (inodeReadData .dev (cacheStore .dev) sb k off len len dst).Ends t (fun e => e = .overflow) fun _ _ => False := by
    refine getInode_bind h.at ?_
    rw [h.holds.disk]
    dsimp only
    rw [if_neg (by omega)]
    by_cases hsum : off + len < 2 ^ 32
    · have hlen' : (if (dinode sb (blocks t) i).size < off + len then (dinode sb (blocks t) i).size - off else len) =
          min len ((dinode sb (blocks t) i).size - off) := by
        split_ifs with hcut
        · omega
        · omega
      rw [addW_of_lt .dev hsum, pure_bind, hlen', addW_of_lt .dev (by omega), pure_bind]
      refine .bind (readFrom_overflow (cacheStore_lawful .dev) h.layout (by decide) h.owned h.used h.holds h.at (by omega) (by omega)
        (by omega) (by omega) (by omega)) ?_
      rintro - t1 - ⟨⟩
    · rw [addW_dev (by omega)]
      exact .throw rfl
  cases he : inodeReadData .dev (cacheStore .dev) sb k off len len dst t with
  | error e => rw [hends.error e he]
  | ok r => exact (hends.ok r.1 r.2 he).elim

/-- Reads and writes are exact below the last block of the offsets. -/
theorem file_io_exact_iff (h : FileAt sb t k i) (hoff : off < 2 ^ 32) (hlen : len < 2 ^ 32) (src dst : Block) :
    ((∀ P, inodeWriteData P (cacheStore P) sb k off len len src t ≠ .error .outOfBlocks) →
      (WritesExactly sb t k i off len src ↔ len = 0 ∨ off + len ≤ MAXOFFSET)) ∧
    (ReadsExactly sb t k i off len dst ↔ (dinode sb (blocks t) i).size ≤ off ∨ len = 0 ∨
      off + len < 2 ^ 32 ∧ min (off + len) (dinode sb (blocks t) i).size ≤ MAXOFFSET) := by
  constructor
  · intro hroom
    constructor
    · intro hexact
      by_contra hnot
      rcases h.write_overflow src (by omega) (show MAXOFFSET < off + len by omega) with he | he
      · exact hexact.noWrap he
      · exact hroom .dev he
    · intro hcond
      have hrun : ∀ P, ∃ t', inodeWriteData P (cacheStore P) sb k off len len src t = .ok (len, t') ∧
          WroteData sb (blocks t) (blocks t') i off len src := by
        intro P
        have hstop : off + len ≤ 2 ^ 32 := by
          unfold MAXOFFSET at hcond
          omega
        have hends := inodeWriteData_ends (P := P) (E := fun e => e = .outOfBlocks) src (cacheStore_lawful P) h.layout
          (by decide) h.owned h.used h.holds h.at le_rfl hoff hcond (fileNodes_isPath hstop) Finset.Subset.rfl fun _ => rfl
        cases he : inodeWriteData P (cacheStore P) sb k off len len src t with
        | error e =>
          obtain rfl := hends.error e he
          exact (hroom P he).elim
        | ok r =>
          obtain ⟨hn, d', hr, hw, -⟩ := hends.ok r.1 r.2 he
          obtain rfl := hr.blocks_eq
          exact ⟨r.2, by rw [← hn], hw⟩
      refine ⟨fun he => ?_, fun P => ?_⟩
      · obtain ⟨t', he', -⟩ := hrun .dev
        rw [he] at he'
        cases he'
      · obtain ⟨t', he, hw⟩ := hrun P
        refine ⟨len, t', he, le_rfl, ?_, fun _ => rfl, fun o ho => hw.bytes o (div_lt_maxBlocks ho), fun j hj hne => ?_⟩
        · unfold MAXOFFSET at hcond
          omega
        · exact ⟨hw.other j hj hne, fun o ho => hw.rest j o hj hne (div_lt_maxBlocks ho)⟩
  · constructor
    · intro hexact
      by_contra hnot
      push Not at hnot
      refine hexact.noWrap (h.read_overflow hnot.1 (by omega) ?_)
      by_cases hsum : off + len < 2 ^ 32
      · exact .inr (hnot.2.2 hsum)
      · exact .inl (by omega)
    · intro hcond
      have hrun : ∀ P, ∃ n t', inodeReadData P (cacheStore P) sb k off len len dst t =
          .ok ((n, blit (fileByte sb (blocks t) i) off n 0 dst), t') ∧ n = min len ((dinode sb (blocks t) i).size - off) ∧
          blocks t' = blocks t := by
        intro P
        by_cases hend : (dinode sb (blocks t) i).size ≤ off
        · refine ⟨0, t, ?_, by omega, rfl⟩
          have hends : (inodeReadData P (cacheStore P) sb k off len len dst).Ends t (fun _ => False)
              fun r t' => r = (0, dst) ∧ t' = t := by
            refine getInode_bind h.at ?_
            rw [h.holds.disk]
            dsimp only
            rw [if_pos hend]
            exact .pure ⟨rfl, rfl⟩
          obtain ⟨r, t', he, rfl, rfl⟩ := hends.exists_ok
          rw [he, blit_zero]
        · have hends : (inodeReadData P (cacheStore P) sb k off len len dst).Ends t (fun _ => False) _ :=
            inodeReadData_ends dst (cacheStore_lawful P) h.layout (by decide) h.owned h.used h.holds h.at le_rfl (by omega)
              (by omega)
          obtain ⟨r, t', he, hr, hn, hbytes⟩ := hends.exists_ok
          refine ⟨r.1, t', ?_, hn, hr.blocks_eq⟩
          rw [he, ← hbytes]
      refine ⟨fun he => ?_, hrun⟩
      obtain ⟨n, t', he', -⟩ := hrun .dev
      rw [he] at he'
      cases he'

theorem file_io_exact_oneFile : FileAt smallSb oneFile 0 0 ∧ WritesExactly smallSb oneFile 0 0 4090 10 (fun _ => 7) ∧
    ReadsExactly smallSb oneFile 0 0 4090 10 fun _ => 7 := by
  have hio := file_io_exact_iff oneFile_fileAt (show 4090 < 2 ^ 32 by decide) (show 10 < 2 ^ 32 by decide) (fun _ => 7) fun _ => 7
  refine ⟨oneFile_fileAt, (hio.1 fun P he => ?_).mpr (.inr (by decide)), hio.2.mpr (.inr (.inr ⟨by decide, ?_⟩))⟩
  · have hroom := card_lacking_le smallSb (blocks oneFile) 0 4090 (4090 + 10)
    have hfree : 3 * blocksOf 4090 (4090 + 10) ≤ freeBlocks smallSb (blocks oneFile) := by decide
    have hends : (inodeWriteData P (cacheStore P) smallSb 0 4090 10 10 fun _ => 7).Ends oneFile (fun _ => False) _ :=
      inodeWriteData_ends _ (cacheStore_lawful P) smallSb_layout (by decide) oneFile_fileAt.owned oneFile_fileAt.used
        oneFile_fileAt.holds oneFile_fileAt.at (by decide) (by decide) (.inr (by decide)) (fileNodes_isPath (by decide))
        Finset.Subset.rfl fun hfew => by omega
    exact hends.error _ he
  · exact (Nat.min_le_left _ _).trans (by decide)

/-- In the last block a write of ten bytes copies bytes from behind the buffer, and a write of the whole block reports 4096
bytes and writes none. -/
theorem write_at_end_of_offsets :
    (inodeWriteData .dev (cacheStore .dev) smallSb 0 (2 ^ 32 - 4096) 10 10 fun _ => 7).run' oneFile = .error .overflow ∧
    (inodeWriteData .release (cacheStore .release) smallSb 0 (2 ^ 32 - 4096) 10 10 fun _ => 7).run' oneFile = .error .wildAccess ∧
    ∃ t', inodeWriteData .release (cacheStore .release) smallSb 0 (2 ^ 32 - 4096) 4096 4096 (fun _ => 7) oneFile =
      .ok (4096, t') ∧ blocks t' = blocks oneFile := by
  refine ⟨by decide +kernel, by decide +kernel, oneFile, ?_, rfl⟩
  rfl

end Glenda.Fs
