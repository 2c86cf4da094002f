import Glenda.Fs.Bitmap

/-!
# The allocators of blocks and inodes

Runs of `alloc` and `free` on the buffer cache. The set bits are the numbers that are taken, and `alloc` returns the least
one that is not. `free` of inodes is also reached from user code with any number.
-/

namespace Glenda.Fs
open Glenda.Lib

/-- No buffer is in use and the cache agrees with the disk. -/
def Quiet (s : BufState) : Prop := Stored s s.disk.blocks []

lemma Stored.blocks_eq {s : BufState} {d : Nat → Block} {H : List (Nat × Nat)} (h : Stored s d H) : s.disk.blocks = d := by
  obtain ⟨l, hl⟩ := h.refines
  exact hl.blocks

lemma Stored.quiet {s : BufState} {d : Nat → Block} (h : Stored s d []) : Quiet s := by
  unfold Quiet
  rwa [h.blocks_eq]

inductive Pool
  | blocks
  | inodes

namespace Pool

variable (P : Profile) (sb : SuperBlock)

def bitmapBlock : Pool → Nat
  | blocks => sb.bmapStart
  | inodes => sb.inodeStart - 1

def limit : Pool → Nat
  | blocks => sb.nblocks
  | inodes => sb.ninodes

/-- The number that stands for a bit. -/
def number (k : Nat) : Pool → Nat
  | blocks => sb.bmapStart + 1 + k
  | inodes => k

def alloc : Pool → K BufState Nat
  | blocks => Bitmap.alloc P (cacheStore P) sb
  | inodes => Inode.alloc P (cacheStore P) sb

def free (n : Nat) : Pool → K BufState Unit
  | blocks => Bitmap.free P (cacheStore P) sb n
  | inodes => Inode.free P (cacheStore P) sb n

def exhausted : Pool → Panic
  | blocks => .outOfBlocks
  | inodes => .outOfInodes

/-- The block numbers that the allocator computes fit into 32 bits. -/
def Fits : Pool → Prop
  | blocks => sb.BlocksFit
  | inodes => 1 ≤ sb.inodeStart

/-- The bitmap in a state. -/
def bits (pool : Pool) (s : BufState) : Nat → Bool := bit (s.disk.blocks (pool.bitmapBlock sb))

/-- What `alloc` does when it returns the number of the bit `k`. -/
structure Allocates (pool : Pool) (s s' : BufState) (k : Nat) : Prop where
  bits : ∀ j, pool.bits sb s' j = (decide (j = k) || pool.bits sb s j)
  zero : pool = blocks → s'.disk.blocks (pool.number sb k) = fun _ => 0
  other : ∀ b, b ≠ pool.bitmapBlock sb → (pool = blocks → b ≠ pool.number sb k) → s'.disk.blocks b = s.disk.blocks b

/-- What `free` does to the bit `k`. -/
structure Frees (pool : Pool) (s s' : BufState) (k : Nat) : Prop where
  bits : ∀ j, pool.bits sb s' j = (decide (j ≠ k) && pool.bits sb s j)
  other : ∀ b, b ≠ pool.bitmapBlock sb → s'.disk.blocks b = s.disk.blocks b

variable {P} {sb} {pool : Pool} {s s' : BufState} {k : Nat}

lemma number_inj {j : Nat} : pool.number sb j = pool.number sb k ↔ j = k := by
  cases pool with
  | blocks =>
    dsimp only [number]
    omega
  | inodes => rfl

lemma alloc_ends (hfit : pool.Fits sb) (hs : Quiet s) :
    (pool.alloc P sb).Ends s (fun e => e = pool.exhausted ∧ ∀ k < pool.limit sb, k < 32768 → pool.bits sb s k = true)
      fun n s' => Quiet s' ∧ ∃ k, n = pool.number sb k ∧
        FirstClear (s.disk.blocks (pool.bitmapBlock sb)) 0 (pool.limit sb) k ∧ pool.Allocates sb s s' k := by
  cases pool with
  | blocks =>
    refine .mono (Bitmap.alloc_ends (cacheStore_lawful P) hfit hs nofun nofun (by decide) fun h => ⟨rfl, h⟩) fun n s' hn => ?_
    obtain ⟨k, rfl, ⟨hfirst, -⟩, hr⟩ := hn
    refine ⟨hr.quiet, k, rfl, hfirst, fun j => ?_, fun _ => ?_, fun b hb hbn => ?_⟩
    · dsimp only [bits, bitmapBlock]
      rw [hr.blocks_eq, Function.update_of_ne (by omega), Function.update_self, bit_setBit]
    · dsimp only [number]
      rw [hr.blocks_eq, Function.update_self]
    · have hne : b ≠ sb.bmapStart + 1 + k := hbn rfl
      dsimp only [bitmapBlock] at hb
      rw [hr.blocks_eq, Function.update_of_ne hne, Function.update_of_ne hb]
  | inodes =>
    refine .mono (Inode.alloc_ends (cacheStore_lawful P) hfit hs nofun (by decide) fun h => ⟨rfl, h⟩) fun n s' hn => ?_
    obtain ⟨⟨hfirst, -⟩, hr⟩ := hn
    refine ⟨hr.quiet, n, rfl, hfirst, fun j => ?_, nofun, fun b hb _ => ?_⟩
    · dsimp only [bits, bitmapBlock]
      rw [hr.blocks_eq, Function.update_self, bit_setBit]
    · dsimp only [bitmapBlock] at hb
      rw [hr.blocks_eq, Function.update_of_ne hb]

lemma free_ends (hfit : pool.Fits sb) (hs : Quiet s) (hk : k < pool.limit sb) (hk' : k < 32768)
    (hset : pool.bits sb s k = true) {E : Panic → Prop} :
    (pool.free P sb (pool.number sb k)).Ends s E fun _ s' => Quiet s' ∧ pool.Frees sb s s' k := by
  have hfrees : ∀ s', Stored s' (Function.update s.disk.blocks (pool.bitmapBlock sb)
      (clearBit k (s.disk.blocks (pool.bitmapBlock sb)))) [] → Quiet s' ∧ pool.Frees sb s s' k := by
    intro s' hr
    refine ⟨hr.quiet, fun j => ?_, fun b hb => ?_⟩
    · unfold bits
      rw [hr.blocks_eq, Function.update_self, bit_clearBit]
    · rw [hr.blocks_eq, Function.update_of_ne hb]
  cases pool with
  | blocks => exact .mono (Bitmap.free_ends (cacheStore_lawful P) hfit hs nofun (by decide) hk hk' hset) fun _ => hfrees
  | inodes => exact .mono (Inode.free_ends (cacheStore_lawful P) hfit hs nofun (by decide) hk' hset) fun _ => hfrees

end Pool

/-! ### Runs -/

/-- Calls of `alloc` and `free` in any order from the state `s₀`. Only numbers of the set `got` are freed, which `alloc` has
returned and which have not been freed since. -/
inductive PoolRun (P : Profile) (sb : SuperBlock) (pool : Pool) (s₀ : BufState) : BufState → Set Nat → Prop
  | start : PoolRun P sb pool s₀ s₀ ∅
  | alloc {s s' : BufState} {got : Set Nat} {n : Nat} (h : PoolRun P sb pool s₀ s got)
      (he : pool.alloc P sb s = .ok (n, s')) : PoolRun P sb pool s₀ s' (insert n got)
  | free {s s' : BufState} {got : Set Nat} {n : Nat} {u : Unit} (h : PoolRun P sb pool s₀ s got) (hn : n ∈ got)
      (he : pool.free P sb n s = .ok (u, s')) : PoolRun P sb pool s₀ s' (got \ {n})

/-- The number of the bit `k` is taken: it was at the start, or it was allocated and not freed since. -/
def Outstanding (sb : SuperBlock) (pool : Pool) (s₀ : BufState) (got : Set Nat) (k : Nat) : Prop :=
  pool.bits sb s₀ k = true ∨ pool.number sb k ∈ got

structure PoolInv (sb : SuperBlock) (pool : Pool) (s₀ s : BufState) (got : Set Nat) : Prop where
  quiet : Quiet s
  bits : ∀ k, pool.bits sb s k = true ↔ Outstanding sb pool s₀ got k
  got : ∀ n ∈ got, ∃ k < pool.limit sb, n = pool.number sb k ∧ pool.bits sb s₀ k = false

variable {P : Profile} {sb : SuperBlock} {pool : Pool} {s₀ s s' : BufState} {got : Set Nat} {n : Nat}

lemma PoolInv.alloc (h : PoolInv sb pool s₀ s got) (hfit : pool.Fits sb) (he : pool.alloc P sb s = .ok (n, s')) :
    PoolInv sb pool s₀ s' (insert n got) := by
  obtain ⟨hq, k, rfl, hfirst, hall⟩ := (Pool.alloc_ends hfit h.quiet).ok n s' he
  have hclear : ¬Outstanding sb pool s₀ got k := by
    rw [← h.bits]
    simp [Pool.bits, hfirst.clear]
  refine ⟨hq, fun j => ?_, fun m hm => ?_⟩
  · rw [hall.bits, Bool.or_eq_true, decide_eq_true_eq, h.bits]
    unfold Outstanding
    rw [Set.mem_insert_iff, Pool.number_inj]
    tauto
  · rcases Set.mem_insert_iff.mp hm with rfl | hm
    · refine ⟨k, hfirst.lt, rfl, ?_⟩
      by_contra hn
      exact hclear (.inl (by simpa using hn))
    · exact h.got m hm

lemma PoolInv.free (h : PoolInv sb pool s₀ s got) (hfit : pool.Fits sb) (hlim : pool.limit sb ≤ 32768) (hn : n ∈ got) :
    ∃ k s', n = pool.number sb k ∧ pool.free P sb n s = .ok ((), s') ∧ pool.Frees sb s s' k ∧
      PoolInv sb pool s₀ s' (got \ {n}) := by
  obtain ⟨k, hk, rfl, hclear⟩ := h.got n hn
  have hset : pool.bits sb s k = true := (h.bits k).mpr (.inr hn)
  obtain ⟨u, s', he, hq, hfree⟩ := (Pool.free_ends (P := P) hfit h.quiet hk (by omega) hset).exists_ok
  refine ⟨k, s', rfl, he, hfree, hq, fun j => ?_, fun m hm => h.got m hm.1⟩
  rw [hfree.bits, Bool.and_eq_true, decide_eq_true_eq, h.bits]
  unfold Outstanding
  rw [Set.mem_sdiff, Set.mem_singleton_iff, Pool.number_inj]
  constructor
  · rintro ⟨hne, hj | hj⟩
    · exact .inl hj
    · exact .inr ⟨hj, hne⟩
  · rintro (hj | ⟨hj, hne⟩)
    · refine ⟨?_, .inl hj⟩
      rintro rfl
      rw [hclear] at hj
      cases hj
    · exact ⟨hne, .inr hj⟩

lemma PoolRun.inv (hfit : pool.Fits sb) (hlim : pool.limit sb ≤ 32768) (hs0 : Quiet s₀) (hr : PoolRun P sb pool s₀ s got) :
    PoolInv sb pool s₀ s got := by
  induction hr with
  | start => exact ⟨hs0, fun k => by simp [Outstanding], fun n hn => hn.elim⟩
  | alloc _ he ih => exact ih.alloc hfit he
  | free _ hn he ih =>
    obtain ⟨k, s1, -, he1, -, hinv⟩ := ih.free (P := P) hfit hlim hn
    rw [he] at he1
    cases he1
    exact hinv

/-- The bitmaps are set allocators. -/
theorem bitmaps_allocate (hfit : pool.Fits sb) (hlim : pool.limit sb ≤ 32768) (hs₀ : Quiet s₀)
    (hr : PoolRun P sb pool s₀ s got) :
    (∀ k, pool.bits sb s k = true ↔ Outstanding sb pool s₀ got k) ∧
    (∀ e, pool.alloc P sb s = .error e → e = pool.exhausted ∧ ∀ k < pool.limit sb, Outstanding sb pool s₀ got k) ∧
    (∀ n s', pool.alloc P sb s = .ok (n, s') → ∃ k, n = pool.number sb k ∧
      IsLeast {j | j < pool.limit sb ∧ ¬Outstanding sb pool s₀ got j} k ∧ pool.Allocates sb s s' k) ∧
    ∀ n ∈ got, ∃ k s', n = pool.number sb k ∧ pool.free P sb n s = .ok ((), s') ∧ pool.Frees sb s s' k := by
  have hinv := hr.inv hfit hlim hs₀
  have hends := Pool.alloc_ends (P := P) hfit hinv.quiet
  refine ⟨hinv.bits, fun e he => ?_, fun n s' he => ?_, fun n hn => ?_⟩
  · obtain ⟨rfl, hall⟩ := hends.error e he
    exact ⟨rfl, fun k hk => (hinv.bits k).mp (hall k hk (by omega))⟩
  · obtain ⟨-, k, rfl, hfirst, hall⟩ := hends.ok n s' he
    refine ⟨k, rfl, ⟨⟨hfirst.lt, ?_⟩, fun j hj => ?_⟩, hall⟩
    · rw [← hinv.bits]
      simp [Pool.bits, hfirst.clear]
    · by_contra hlt
      exact hj.2 ((hinv.bits j).mp (hfirst.before j (by omega) (by omega)))
  · obtain ⟨k, s', hk, he, hfree, -⟩ := hinv.free (P := P) hfit hlim hn
    exact ⟨k, s', hk, he, hfree⟩

/-- The disk of a file system with 4 inodes and 8 data blocks behind the bitmap in block 3. -/
def smallSb : SuperBlock := ⟨0x10203040, 12, 8, 4, 2, 3⟩

lemma quiet_zero : Quiet ⟨LRUCache.new.init, zeroDisk⟩ := stored_init zeroDisk fun _ => rfl

theorem bitmaps_allocate_twice : ∃ s, PoolRun .dev smallSb .blocks ⟨LRUCache.new.init, zeroDisk⟩ s {5, 4} ∧
    Pool.bits smallSb .blocks s 1 = true ∧ ∃ s', Pool.free .dev smallSb 4 .blocks s = .ok ((), s') := by
  let test : K BufState (Nat × Nat) := do
    let a ← Pool.alloc .dev smallSb .blocks
    let b ← Pool.alloc .dev smallSb .blocks
    return (a, b)
  obtain ⟨s, htest⟩ := K.exists_of_run' (a := (4, 5)) (s := ⟨LRUCache.new.init, zeroDisk⟩) (x := test) (by decide +kernel)
  obtain ⟨a, s₁, ha, htest⟩ := K.bind_eq_ok.mp htest
  obtain ⟨b, s₂, hb, htest⟩ := K.bind_eq_ok.mp htest
  obtain ⟨⟨rfl, rfl⟩, rfl⟩ : (a = 4 ∧ b = 5) ∧ s₂ = s := by simpa using htest
  have hrun := (PoolRun.start.alloc ha).alloc hb
  rw [insert_empty_eq] at hrun
  have hfit : Pool.Fits smallSb .blocks := show 12 < 2 ^ 32 by decide
  have hall := bitmaps_allocate hfit (by decide) quiet_zero hrun
  refine ⟨s₂, hrun, (hall.1 1).mpr (.inr (by decide)), ?_⟩
  obtain ⟨k, s', -, he, -⟩ := hall.2.2.2 4 (by simp)
  exact ⟨s', he⟩

/-- With a bitmap in the last block the number of the first data block overflows, and so does the number of the bitmap
block of the inodes if these start in block 0. -/
theorem bitmaps_overflow :
    (Pool.alloc .dev ⟨0x10203040, 12, 8, 4, 2, 2 ^ 32 - 1⟩ .blocks).run' ⟨LRUCache.new.init, zeroDisk⟩ = .error .overflow ∧
    (Pool.alloc .dev ⟨0x10203040, 12, 8, 4, 0, 3⟩ .inodes).run' ⟨LRUCache.new.init, zeroDisk⟩ = .error .overflow := by
  decide +kernel

/-! ### Numbers from user code -/

/-- The block of the bitmap of the inodes, also where its number wraps. -/
def ibmapBlock (sb : SuperBlock) : Nat := (sb.inodeStart + 2 ^ 32 - 1) % 2 ^ 32

/-- `free` stays inside the bitmap block, and if it returns it has cleared one bit that was set and stands for an inode. -/
def Inode.FreesInRange (P : Profile) (sb : SuperBlock) (s : BufState) (inodeIdx : Nat) : Prop :=
  Inode.free P (cacheStore P) sb inodeIdx s ≠ .error .wildAccess ∧
  ∀ u s', Inode.free P (cacheStore P) sb inodeIdx s = .ok (u, s') → ∃ k < sb.ninodes,
    bit (s.disk.blocks (ibmapBlock sb)) k = true ∧
    (∀ j, bit (s'.disk.blocks (ibmapBlock sb)) j = (decide (j ≠ k) && bit (s.disk.blocks (ibmapBlock sb)) j)) ∧
    ∀ b, b ≠ ibmapBlock sb → s'.disk.blocks b = s.disk.blocks b

section FreeBit

variable {block k : Nat} {p : Panic}

lemma freeBit_wild (hs : Quiet s) (hk : 32768 ≤ k) : freeBit (cacheStore P) block k p s = .error .wildAccess := by
  obtain ⟨i, s1, he, hr⟩ := (cacheStore_lawful P).read (n := block) hs nofun (by decide)
  unfold freeBit
  rw [K.bind_of_ok he, K.bind_of_ok ((cacheStore_lawful P).load hr List.mem_cons_self)]
  refine K.bind_of_error (K.panicIf_eq_error.mpr ⟨?_, rfl⟩)
  unfold BLOCK_SIZE
  omega

lemma freeBit_clear (hs : Quiet s) (hk : k < 32768) (hclear : bit (s.disk.blocks block) k = false) :
    freeBit (cacheStore P) block k p s = .error p := by
  obtain ⟨i, s1, he, hr⟩ := (cacheStore_lawful P).read (n := block) hs nofun (by decide)
  unfold freeBit
  rw [K.bind_of_ok he, K.bind_of_ok ((cacheStore_lawful P).load hr List.mem_cons_self),
    K.bind_of_ok (K.panicIf_of_not (by unfold BLOCK_SIZE; omega))]
  exact K.bind_of_error (K.panicIf_eq_error.mpr ⟨hclear, rfl⟩)

end FreeBit

/-- Where the number of the bitmap block does not overflow, `free` goes on to clear the bit. -/
lemma Inode.free_eq (hstart : sb.inodeStart < 2 ^ 32) (h : ¬(P = .dev ∧ sb.inodeStart = 0)) (n : Nat) :
    Inode.free P (cacheStore P) sb n = freeBit (cacheStore P) (ibmapBlock sb) n .inodeAlreadyFree := by
  unfold Inode.free ibmapBlock
  by_cases hz : sb.inodeStart = 0
  · cases P with
    | dev => exact absurd ⟨rfl, hz⟩ h
    | release => rw [subW_release (by omega), pure_bind]
  · rw [subW_of_le P (by omega), pure_bind, show (sb.inodeStart + 2 ^ 32 - 1) % 2 ^ 32 = sb.inodeStart - 1 by omega]

theorem inode_free_in_range_iff (hs : Quiet s) (hstart : sb.inodeStart < 2 ^ 32) (inodeIdx : Nat) :
    Inode.FreesInRange P sb s inodeIdx ↔ P = .dev ∧ sb.inodeStart = 0 ∨
      inodeIdx < 32768 ∧ (bit (s.disk.blocks (ibmapBlock sb)) inodeIdx = true → inodeIdx < sb.ninodes) := by
  unfold Inode.FreesInRange
  by_cases hdev : P = .dev ∧ sb.inodeStart = 0
  · obtain ⟨rfl, hz⟩ := hdev
    have he : Inode.free .dev (cacheStore .dev) sb inodeIdx s = .error .overflow := by
      unfold Inode.free
      refine K.bind_of_error ?_
      rw [hz]
      rfl
    rw [he]
    exact ⟨fun _ => .inl ⟨rfl, hz⟩, fun _ => ⟨nofun, nofun⟩⟩
  rw [Inode.free_eq hstart hdev]
  by_cases hlt : inodeIdx < 32768
  · cases hbit : bit (s.disk.blocks (ibmapBlock sb)) inodeIdx with
    | false =>
      rw [freeBit_clear hs hlt hbit]
      exact ⟨fun _ => .inr ⟨hlt, nofun⟩, fun _ => ⟨nofun, nofun⟩⟩
    | true =>
      have hends := freeBit_ends (E := fun _ => False) (p := .inodeAlreadyFree) (cacheStore_lawful P) hs nofun (by decide)
        hlt hbit
      obtain ⟨u, s', he, hr⟩ := hends.exists_ok
      have hbits : ∀ j, bit (s'.disk.blocks (ibmapBlock sb)) j =
          (decide (j ≠ inodeIdx) && bit (s.disk.blocks (ibmapBlock sb)) j) := by
        intro j
        rw [hr.blocks_eq, Function.update_self, bit_clearBit]
      rw [he]
      constructor
      · rintro ⟨-, hok⟩
        obtain ⟨k, hk, -, hbits', -⟩ := hok u s' rfl
        right
        refine ⟨hlt, fun _ => ?_⟩
        have hsame : inodeIdx = k := by
          by_contra hne
          have h₁ := hbits inodeIdx
          rw [hbits' inodeIdx, hbit] at h₁
          simp [hne] at h₁
        rwa [hsame]
      · rintro (hd | ⟨-, hin⟩)
        · exact absurd hd hdev
        · refine ⟨nofun, ?_⟩
          rintro u' s'' ⟨⟩
          refine ⟨inodeIdx, hin rfl, hbit, hbits, fun b hb => ?_⟩
          rw [hr.blocks_eq, Function.update_of_ne hb]
  · rw [freeBit_wild hs (by omega)]
    exact ⟨fun h => absurd rfl h.1, fun h => h.elim (fun hd => absurd hd hdev) fun hl => absurd hl.1 hlt⟩

theorem inode_free_in_range_zero : Quiet ⟨LRUCache.new.init, zeroDisk⟩ ∧
    Inode.FreesInRange .dev smallSb ⟨LRUCache.new.init, zeroDisk⟩ 3 :=
  ⟨quiet_zero, (inode_free_in_range_iff quiet_zero (by decide) 3).mpr (.inr ⟨by decide, fun _ => by decide⟩)⟩

/-- A disk on which the bitmap of the inodes has the bit 5 set. -/
def strayDisk : Disk := ⟨fun b i => if b = 1 ∧ i = 0 then 0x20 else 0, fun _ => true⟩

/-- Number 32768 is looked up behind the end of the bitmap block, and number 5 of 4 inodes is freed. -/
theorem inode_free_out_of_range :
    Inode.free .dev (cacheStore .dev) smallSb 32768 ⟨LRUCache.new.init, zeroDisk⟩ = .error .wildAccess ∧
    ∃ s', Inode.free .dev (cacheStore .dev) smallSb 5 ⟨LRUCache.new.init, strayDisk⟩ = .ok ((), s') ∧
      bit (strayDisk.blocks 1) 5 = true ∧ smallSb.ninodes ≤ 5 ∧ bit (s'.disk.blocks 1) 5 = false := by
  have hstray : Quiet ⟨LRUCache.new.init, strayDisk⟩ := stored_init strayDisk fun _ => rfl
  constructor
  · rw [Inode.free_eq (by decide) (by decide)]
    exact freeBit_wild quiet_zero (by decide)
  · rw [Inode.free_eq (by decide) (by decide)]
    have hends : (freeBit (cacheStore .dev) 1 5 .inodeAlreadyFree).Ends ⟨LRUCache.new.init, strayDisk⟩ (fun _ => False) _ :=
      freeBit_ends (cacheStore_lawful .dev) hstray nofun (by decide) (by decide) (by decide)
    obtain ⟨u, s', he, hr⟩ := hends.exists_ok
    refine ⟨s', he, by decide, by decide, ?_⟩
    rw [hr.blocks_eq, Function.update_self, bit_clearBit]
    rfl

end Glenda.Fs
