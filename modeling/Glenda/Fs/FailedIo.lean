import Glenda.Fs.ChunkedIo

/-!
# Reads and writes that fail

`fs_read` and `fs_write` fail when a chunk cannot be copied from or to user memory. The chunks before it have been transferred by
then, and the offset of the file has moved.
-/

namespace Glenda.Fs
open Glenda.Lib Glenda.Mem

variable {P : Profile} {sb : SuperBlock} {s s' : Sys BufState} {t : FsState BufState} {m : FsMem} {d d₀ : Nat → Block} {f : FileId}
  {k : Slot} {fd i o off len size total n fuel u c : Nat} {src buf : Block} {v : Picture} {stop goal : Nat} {A : Nat → Prop} {r : Option Nat}

/-! ### Chunks in the last block of the offsets -/

section LastBlock

variable {σ : Type} {B : BlockStore σ Block} {x : FsState σ}

lemma inodeWriteData_result (src : Block) : (inodeWriteData P B sb k off len len src).Ends x (fun _ => True) fun n _ => n = len := by
  refine .bind (.any fun _ => trivial) fun stop x1 _ _ => .bind (.any fun _ => trivial) fun _ x2 _ _ => ?_
  refine .bind (.any fun _ => trivial) fun inode x3 _ _ => ?_
  split_ifs with hlt
  · exact .modify_bind (.bind (.any fun _ => trivial) fun _ _ _ _ => .pure rfl)
  · exact .pure rfl

lemma chunk_last (hge : MAXOFFSET ≤ off) (hlt : off < 2 ^ 32) :
    (chunk P off stop).Ends x (fun _ => True) fun n _ => off + n = 2 ^ 32 := by
  have hend : off + (BLOCK_SIZE - off % BLOCK_SIZE) = 2 ^ 32 := by
    unfold MAXOFFSET at hge
    unfold BLOCK_SIZE
    omega
  unfold chunk
  cases P with
  | dev =>
    dsimp only
    rw [addW_dev hend.ge]
    exact .throw trivial
  | release =>
    dsimp only
    rw [addW_release, hend, Nat.mod_self, pure_bind, if_neg (Nat.not_lt_zero _)]
    exact .pure hend

lemma inodeWriteData_last (src : Block) (hge : MAXOFFSET ≤ off) (hlt : off + 512 < 2 ^ 32) :
    (inodeWriteData P B sb k off 512 512 src).Ends x (fun _ => True) fun _ _ => False := by
  unfold inodeWriteData
  rw [addW_of_lt P hlt, pure_bind]
  refine .bind (Q := fun _ _ => False) ?_ fun _ _ _ => False.elim
  unfold writeFrom
  rw [if_pos (by omega)]
  refine .bind (chunk_last hge (by omega)) fun n x1 _ hn => .bind (.any fun _ => trivial) fun blk x2 _ _ => ?_
  cases blk with
  | none => exact .throw trivial
  | some blk => exact .bind (.any fun _ => trivial) fun b x3 _ _ => .panicIf_bind (fun _ => trivial) fun hfit => by omega

lemma readFrom_last (hge : MAXOFFSET ≤ off) (hlt : off + 512 < 2 ^ 32) (hstop : off < stop) :
    (readFrom P B sb k stop 512 513 off 0 buf).Ends x (fun _ => True) fun _ _ => False := by
  unfold readFrom
  rw [if_pos hstop]
  refine .bind (chunk_last hge (by omega)) fun n x1 _ hn => .bind (.any fun _ => trivial) fun blk x2 _ _ => ?_
  cases blk with
  | none => exact .panicIf_bind (fun _ => trivial) fun hfit => by omega
  | some blk =>
    refine .bind (.any fun _ => trivial) fun b x3 _ _ => .bind (.any fun _ => trivial) fun data x4 _ _ => ?_
    exact .panicIf_bind (fun _ => trivial) fun hfit => by omega

end LastBlock

/-! ### Offsets -/

/-- How far full chunks have moved an offset. They do not get across the last block, but a first chunk can start so close to its
end that it wraps around. -/
def Moved (off total o : Nat) : Prop :=
  total = 0 ∧ o = off ∨ 512 ≤ total ∧ o + 3584 < 2 ^ 32 ∧ (o = off + total ∨ 2 ^ 32 ≤ off + 512 ∧ o + 2 ^ 32 = off + total)

lemma Moved.step (h : Moved off total o) (ho : o < 2 ^ 32) (hlast : MAXOFFSET ≤ o → 2 ^ 32 ≤ o + 512) :
    Moved off (total + 512) ((o + 512) % 2 ^ 32) := by
  unfold Moved at *
  unfold MAXOFFSET at hlast
  omega

lemma Moved.ne (h : Moved off total o) (hoff : off < 2 ^ 32) (hpos : 0 < total) : o ≠ off := by
  unfold Moved at h
  omega

/-- How many bytes a read goes for. -/
def available (off size len : Nat) : Nat :=
  if size ≤ off then 0 else if 2 ^ 32 ≤ off + min len 512 then len else min len (size - off)

/-- What one chunk reads. -/
def chunkRead (o size c : Nat) : Nat := if size ≤ o then 0 else if 2 ^ 32 ≤ o + c then c else min c (size - o)

lemma available_le (off size len : Nat) : available off size len ≤ len := by
  unfold available
  split_ifs <;> omega

lemma Moved.chunkRead_eq (h : Moved off total o) (hlt : total < len) (hin : total ≤ available off size len) :
    chunkRead o size (min (len - total) 512) = min (available off size len - total) 512 := by
  unfold Moved at h
  unfold chunkRead
  unfold available at *
  split_ifs at hin ⊢ <;> omega

/-- The first chunk is the one that fails, unless the transfer does not fail or a later one does. -/
lemma Moved.first_iff (h : Moved off total o) (hall : ∀ q < total, A q)
    (hfail : ¬∀ q < min (goal - total) 512, A (total + q)) : total = 0 ↔ (∀ q < goal, A q) ∨ ¬∀ q < min goal 512, A q := by
  constructor
  · rintro rfl
    refine .inr fun hfirst => hfail fun q hq => ?_
    rw [Nat.zero_add]
    exact hfirst q hq
  · rintro (hgoal | hfirst)
    · exact absurd (fun q hq => hgoal (total + q) (by omega)) hfail
    · by_contra hpos
      unfold Moved at h
      exact hfirst fun q hq => hall q (by omega)

lemma Working.write (hw : Working sb m f k t d o) (src : Block) :
    (inodeWriteData P (cacheStore P) sb k o c c src).Ends t (fun _ => True) fun n t' => n = c ∧ (c = 512 → MAXOFFSET ≤ o → 2 ^ 32 ≤ o + 512) ∧
      ∃ d', Working sb m f k t' d' o := by
  have hlast : (inodeWriteData P (cacheStore P) sb k o c c src).Ends t (fun _ => True) fun _ _ =>
      c = 512 → MAXOFFSET ≤ o → 2 ^ 32 ≤ o + 512 := by
    by_cases h : c = 512 ∧ MAXOFFSET ≤ o ∧ o + 512 < 2 ^ 32
    · obtain ⟨rfl, hge, hlt⟩ := h
      exact (inodeWriteData_last src hge hlt).mono fun _ _ => False.elim
    · exact (K.Ends.any fun _ => trivial).mono fun _ _ _ => by omega
  refine ((inodeWriteData_result src).and (hlast.and (inodeWriteData_keeps (cacheStore_lawful P) hw.layout (by decide) hw.owned
    hw.used hw.holds hw.at_ hw.off))).mono ?_
  rintro n t' ⟨hn, hl, d', hr, he⟩
  refine ⟨hn, hl, d', hw.layout, he.owned, (he.used _).mpr hw.used, ?_, hw.off⟩
  rwa [FsMem.setDisk_setOff, FsMem.setDisk_setDisk] at hr

lemma Working.read (hw : Working sb m f k t d o) (buf : Block) (hsize : size = (dinode sb d (m.inodes k).inodeNum).size) (hc : c ≤ 512) :
    (inodeReadData P (cacheStore P) sb k o c c buf).Ends t (fun _ => True) fun r t' => r.1 = chunkRead o size c ∧
      (0 < r.1 → c = 512 → MAXOFFSET ≤ o → 2 ^ 32 ≤ o + 512) ∧ Working sb m f k t' d o := by
  have hlt := (dinode_fits sb d (m.inodes k).inodeNum).size
  rw [← hsize] at hlt
  have hresult : (inodeReadData P (cacheStore P) sb k o c c buf).Ends t (fun _ => True) fun r _ => r.1 = chunkRead o size c ∧
      (0 < r.1 → c = 512 → MAXOFFSET ≤ o → 2 ^ 32 ≤ o + 512) := by
    unfold chunkRead
    refine getInode_bind hw.at_ ?_
    rw [hw.holds.disk, ← hsize]
    dsimp only
    by_cases hend : size ≤ o
    · rw [if_pos hend, if_pos hend]
      exact .pure ⟨rfl, fun h => absurd h (lt_irrefl _)⟩
    · rw [if_neg hend, if_neg hend]
      by_cases hsum : o + c < 2 ^ 32
      · have hmin : (if size < o + c then size - o else c) = min c (size - o) := by
          split_ifs with hcut
          · omega
          · omega
        rw [addW_of_lt P hsum, pure_bind, hmin, addW_of_lt P (by omega), pure_bind, if_neg (by omega)]
        by_cases hbad : c = 512 ∧ MAXOFFSET ≤ o
        · obtain ⟨rfl, hge⟩ := hbad
          refine .bind (readFrom_last hge hsum (by omega)) ?_
          rintro - - - ⟨⟩
        · exact .bind (.any fun _ => trivial) fun _ _ _ _ => .pure ⟨rfl, fun _ h h' => absurd ⟨h, h'⟩ hbad⟩
      · rw [if_pos (by omega)]
        cases P with
        | dev =>
          rw [addW_dev (by omega)]
          exact .throw trivial
        | release =>
          have hwrap : (o + c) % 2 ^ 32 = o + c - 2 ^ 32 := by
            have ho := hw.off
            omega
          rw [addW_release, pure_bind, hwrap, if_neg (by omega), addW_release, pure_bind]
          exact .bind (.any fun _ => trivial) fun _ _ _ _ => .pure ⟨rfl, fun _ hfull _ => by omega⟩
  refine (hresult.and (inodeReadData_keeps (cacheStore_lawful P) hw.layout (by decide) hw.owned hw.used hw.holds hw.at_ hw.off)).mono ?_
  rintro r t' ⟨⟨hr, hl⟩, hat⟩
  exact ⟨hr, hl, hw.layout, hw.owned, hw.used, hat, hw.off⟩

/-! ### The loops -/

/-- How the transfer of `goal` bytes in chunks ends, when the user can access the addresses with `A`. It fails at the first chunk that
is not accessible, with the offset moved by the chunks before. -/
def Transferred (A : Nat → Prop) (off goal : Nat) (r : Option Nat) (total o : Nat) : Prop :=
  (r ≠ none ∧ ∀ q < goal, A q) ∨ r = none ∧ Moved off total o ∧ (∀ q < total, A q) ∧ ¬∀ q < min (goal - total) 512, A (total + q)

lemma writeChunks_transfers (hu : u < 2 ^ 64) (hlen : len < 2 ^ 64) (hw : Working sb m f k s.fs d o) (hle : total ≤ len)
    (hmoved : total < len → Moved off total o) (hall : UserRange s PTE_R u total) (hfirst : total = 0 → d = d₀) :
    (writeChunks P (cacheStore P) sb f k u len fuel total).Ends s (fun _ => True) fun r s' => s'.proc = s.proc ∧
      ∃ d' o' n, Working sb m f k s'.fs d' o' ∧ (n = 0 → d' = d₀) ∧
        Transferred (fun q => Uvm.Access s.ph.mem s.proc.table PTE_R ((u + q) / PGSIZE)) off len r n o' := by
  induction fuel generalizing s d o total with
  | zero => exact .throw trivial
  | succ fuel ih =>
    unfold writeChunks
    by_cases hlt : total < len
    · have hm := hmoved hlt
      have hva := (user_end_lt hall).elim (fun hz => hz ▸ hu) id
      rw [if_pos hlt]
      dsimp only
      rw [addW_of_lt P hva, pure_bind]
      refine getProc_bind (onUser_of_ok (Uvm.copyin_eq P s.ph s.proc.table _ (u + total)) ?_)
      cases hload : Uvm.load s.ph s.proc.table (min (len - total) 512) (u + total) with
      | error e =>
        refine .pure ⟨rfl, d, o, total, hw, hfirst, .inr ⟨rfl, hm, hall, fun hacc => ?_⟩⟩
        have hok : ∃ bs, Uvm.load s.ph s.proc.table (min (len - total) 512) (u + total) = .ok bs := by
          refine Uvm.load_ok.mpr fun q hq => ?_
          rw [Nat.add_assoc]
          exact hacc q hq
        obtain ⟨bs, hbs⟩ := hok
        rw [hload] at hbs
        cases hbs
      | ok bs =>
        have hacc := Uvm.load_ok.mp ⟨bs, hload⟩
        refine onFs_getFile ?_
        rw [hw.file_off]
        refine onFs_bind (hw.write _) ?_
        rintro n t ⟨rfl, hlast, d', hw'⟩
        rw [addW_of_lt P (by omega), pure_bind]
        refine addW_mod (fun _ => trivial) (onFs_bind (hw'.setOff (Nat.mod_lt _ (by decide))) fun _ t2 hw2 => ?_)
        rw [if_neg (lt_irrefl _)]
        refine ih (s := { s with fs := t2 }) hw2 (by omega) (fun hnext => ?_) (fun q hq => ?_) (by omega)
        · have hfull : min (len - total) 512 = 512 := by omega
          rw [hfull] at hlast ⊢
          exact hm.step hw.off (hlast rfl)
        · by_cases hq' : q < total
          · exact hall q hq'
          · have hnew := hacc (q - total) (by omega)
            rwa [Nat.add_assoc, Nat.add_sub_of_le (not_lt.mp hq')] at hnew
    · rw [if_neg hlt]
      obtain rfl : total = len := by omega
      exact .pure ⟨rfl, d, o, total, hw, hfirst, .inl ⟨Option.some_ne_none _, hall⟩⟩

lemma toBytes_lt {b n : Nat} (h : b ∈ toBytes buf n) : b < 256 := by
  obtain ⟨q, -, rfl⟩ := List.mem_map.mp h
  exact UInt8.toNat_lt _

lemma length_toBytes (buf : Block) (n : Nat) : (toBytes buf n).length = n := by
  unfold toBytes
  rw [List.length_map, List.length_range]

lemma readChunks_transfers {ph0 : Phys} {fixed : PageMap} {O : Nat → Prop} {old : Nat → Nat → Nat} (hu : u < 2 ^ 64) (hlen : len < 2 ^ 64)
    (hsize : size = (dinode sb d (m.inodes k).inodeNum).size) (hshows : Shows ph0 fixed s.proc.table O old s.ph v)
    (hw : Working sb m f k s.fs d o) (hle : total ≤ available off size len) (hmoved : total < len → Moved off total o)
    (hall : UserRange s PTE_W u total) :
    (readChunks P (cacheStore P) sb f k u len fuel total b).Ends s (fun _ => True) fun r s' => s'.proc = s.proc ∧
      ∃ o' n, Working sb m f k s'.fs d o' ∧
        Transferred (fun q => Uvm.Access s.ph.mem s.proc.table PTE_W ((u + q) / PGSIZE)) off (available off size len) r n o' := by
  have hmax := available_le off size len
  induction fuel generalizing s v o total b with
  | zero => exact .throw trivial
  | succ fuel ih =>
    unfold readChunks
    by_cases hlt : total < len
    · have hm := hmoved hlt
      have hva := (user_end_lt hall).elim (fun hz => hz ▸ hu) id
      rw [if_pos hlt]
      refine onFs_getFile ?_
      dsimp only
      rw [hw.file_off]
      refine onFs_bind (hw.read b hsize (Nat.min_le_right _ _)) ?_
      rintro ⟨n, buf'⟩ t ⟨hn, hlast, hw'⟩
      dsimp only at hn hlast ⊢
      rw [hm.chunkRead_eq hlt hle] at hn
      by_cases hzero : n = 0
      · rw [if_pos hzero]
        refine .pure ⟨rfl, o, 0, hw', .inl ⟨Option.some_ne_none _, ?_⟩⟩
        obtain rfl : total = available off size len := by omega
        exact hall
      · rw [if_neg hzero, addW_of_lt P hva, pure_bind]
        obtain ⟨r, ph', hcopy, hiff, -, j, hnext⟩ := hshows.copyout P (u + total) fun b hb => toBytes_lt hb
        rw [length_toBytes] at hiff
        have hacc : r = .ok () ↔ ∀ q < n, Uvm.Access s.ph.mem s.proc.table PTE_W ((u + (total + q)) / PGSIZE) := by
          rw [hiff]
          refine forall₂_congr fun q _ => ?_
          rw [Nat.add_assoc]
          exact (hshows.access_iff (by decide)).symm
        refine getProc_bind (onUser_of_ok hcopy ?_)
        cases r with
        | error e =>
          refine .pure ⟨rfl, o, total, hw', .inr ⟨rfl, hm, hall, fun hgood => ?_⟩⟩
          rw [← hn] at hgood
          cases hacc.mpr hgood
        | ok x =>
          have hnew := hacc.mp rfl
          have hsame : ∀ q, Uvm.Access ph'.mem s.proc.table PTE_W ((u + q) / PGSIZE) ↔ Uvm.Access s.ph.mem s.proc.table PTE_W ((u + q) / PGSIZE) :=
            fun q => (hnext.access_iff (by decide)).trans (hshows.access_iff (by decide)).symm
          have hall' : UserRange s PTE_W u (total + n) := by
            intro q hq
            by_cases hq' : q < total
            · exact hall q hq'
            · have hadd := hnew (q - total) (by omega)
              rwa [Nat.add_sub_of_le (not_lt.mp hq')] at hadd
          dsimp only
          rw [addW_of_lt P (by omega), pure_bind]
          refine addW_mod (fun _ => trivial) (onFs_bind (hw'.setOff (Nat.mod_lt _ (by decide))) fun _ t2 hw2 => ?_)
          by_cases hshort : n < min (len - total) 512
          · rw [if_pos hshort]
            obtain hend : total + n = available off size len := by omega
            exact .pure ⟨rfl, _, 0, hw2, .inl ⟨Option.some_ne_none _, hend ▸ hall'⟩⟩
          · rw [if_neg hshort]
            have hrest := ih (s := ⟨t2, s.proc, ph'⟩) (v := v.write (u + total) ((toBytes buf' n).take j)) (b := buf') hnext hw2 (by omega)
              (fun hmore => ?_) fun q hq => (hsame q).mpr (hall' q hq)
            · simp only [hsame] at hrest
              exact hrest
            · have hfull : n = 512 := by omega
              subst hfull
              exact hm.step hw.off (hlast (by decide) (by omega))
    · rw [if_neg hlt]
      obtain rfl : total = available off size len := by omega
      exact .pure ⟨rfl, o, 0, hw, .inl ⟨Option.some_ne_none _, hall⟩⟩

/-! ### The calls -/

/-- The offsets of the files, their sizes and their bytes are the same. -/
structure Untouched (sb : SuperBlock) (s s' : Sys BufState) : Prop where
  off : ∀ g, (s'.fs.mem.files g).off = (s.fs.mem.files g).off
  files : SameFiles sb (blocks s.fs) (blocks s'.fs)

lemma SameFiles.refl (sb : SuperBlock) (d : Nat → Block) : SameFiles sb d d := ⟨fun _ => Iff.rfl, fun _ _ => rfl, fun _ _ _ _ => rfl⟩

lemma Untouched.refl (sb : SuperBlock) (s : Sys BufState) : Untouched sb s s := ⟨fun _ => rfl, .refl sb _⟩

lemma Transferred.untouched_iff (h : Transferred A (s.fs.mem.files f).off goal r total o)
    (hoff : (s.fs.mem.files f).off < 2 ^ 32) (hw : Working sb s.fs.mem f k s'.fs d o) (hfirst : total = 0 → d = blocks s.fs) :
    (r = none → Untouched sb s s') ↔ (∀ q < goal, A q) ∨ ¬∀ q < min goal 512, A q := by
  rcases h with ⟨hr, hgoal⟩ | ⟨rfl, hm, hall, hfail⟩
  · exact iff_of_true (fun hnone => absurd hnone hr) (.inl hgoal)
  · rw [← hm.first_iff hall hfail]
    constructor
    · intro hun
      by_contra hpos
      refine hm.ne hoff (Nat.pos_of_ne_zero hpos) ?_
      rw [← hw.file_off, (hun rfl).off]
    · intro hz _
      have ho : o = (s.fs.mem.files f).off := by
        unfold Moved at hm
        omega
      refine ⟨fun g => ?_, ?_⟩
      · rw [hw.at_.1, ho]
        by_cases hg : g = f
        · rw [hg, FsMem.setOff_self]
        · rw [FsMem.setOff_of_ne hg]
          rfl
      · rw [hw.at_.blocks_eq, hfirst hz]
        exact .refl sb _

lemma Opened.write_transfers (h : Opened sb s fd f k) (hmode : (s.fs.mem.files f).writable = true) (hu : u < 2 ^ 64) (hlen : len < 2 ^ 64) :
    (fsWrite P (cacheStore P) sb fd u len).Ends s (fun _ => True) fun r s' =>
      (r = none → Untouched sb s s') ↔ UserRange s PTE_R u len ∨ ¬UserRange s PTE_R u (min len 512) := by
  refine getProc_bind ?_
  rw [h.fd]
  refine onFs_getFile ?_
  rw [hmode]
  refine h.bracket (.inr fun _ => trivial) (Q := fun r _ d o => ∃ n, (n = 0 → d = blocks s.fs) ∧
    Transferred (fun q => Uvm.Access s.ph.mem s.proc.table PTE_R ((u + q) / PGSIZE)) (s.fs.mem.files f).off len r n o) (fun r t hw => ?_) ?_
  · refine (writeChunks_transfers (s := { s with fs := t }) hu hlen hw (Nat.zero_le _) (fun _ => .inl ⟨rfl, rfl⟩) (fun q hq => by omega)
      fun _ => rfl).mono ?_
    rintro a s' ⟨-, d', o', n, hw', hfirst, htrans⟩
    exact ⟨d', o', hw', n, hfirst, htrans⟩
  · rintro a s' t d o ⟨n, hfirst, htrans⟩ hw -
    exact .pure (htrans.untouched_iff h.off hw hfirst)

/-- The bytes that a read of `len` bytes goes for. -/
def readGoal (sb : SuperBlock) (s : Sys BufState) (f : FileId) (len : Nat) : Nat :=
  available (s.fs.mem.files f).off (dinode sb (blocks s.fs) (s.fs.mem.files f).inum).size len

lemma Opened.read_transfers (h : Opened sb s fd f k) (hp : UserPaged s.ph s.proc.table) (hmode : (s.fs.mem.files f).readable = true)
    (hu : u < 2 ^ 64) (hlen : len < 2 ^ 64) : (fsRead P (cacheStore P) sb fd u len).Ends s (fun _ => True) fun r s' =>
      (r = none → Untouched sb s s') ↔
        UserRange s PTE_W u (readGoal sb s f len) ∨ ¬UserRange s PTE_W u (min (readGoal sb s f len) 512) := by
  obtain ⟨ph0, fixed, v, hshows⟩ := hp.shows
  refine getProc_bind ?_
  rw [h.fd]
  refine onFs_getFile ?_
  rw [hmode]
  refine h.bracket (.inr fun _ => trivial) (Q := fun r _ d o => d = blocks s.fs ∧ ∃ n,
    Transferred (fun q => Uvm.Access s.ph.mem s.proc.table PTE_W ((u + q) / PGSIZE)) (s.fs.mem.files f).off (readGoal sb s f len) r n o)
    (fun r t hw => ?_) ?_
  · have hnum : ((s.fs.mem.recount k r).inodes k).inodeNum = (s.fs.mem.files f).inum := by
      rw [FsMem.recount_self]
      exact h.inum
    refine (readChunks_transfers (s := { s with fs := t }) hu hlen (by rw [hnum]) hshows hw (Nat.zero_le _) (fun _ => .inl ⟨rfl, rfl⟩)
      fun q hq => by omega).mono ?_
    rintro a s' ⟨-, o', n, hw', htrans⟩
    exact ⟨_, o', hw', rfl, n, htrans⟩
  · rintro a s' t d o ⟨rfl, n, htrans⟩ hw -
    exact .pure (htrans.untouched_iff h.off hw fun _ => rfl)

/-- The range that a call transfers is accessible as a whole, or its first chunk is not. -/
def FaultsFirst (s : Sys BufState) (perm u goal : Nat) : Prop := UserRange s perm u goal ∨ ¬UserRange s perm u (min goal 512)

lemma fsWrite_untouched (hopen : ∀ f, s.proc.file fd = some f → ∃ k, Opened sb s fd f k) (hu : u < 2 ^ 64) (hlen : len < 2 ^ 64) :
    (fsWrite P (cacheStore P) sb fd u len).Ends s (fun _ => True) fun r s' => (r = none → Untouched sb s s') ↔
      ∀ f, s.proc.file fd = some f → (s.fs.mem.files f).writable = true → FaultsFirst s PTE_R u len := by
  by_cases h : ∃ f, s.proc.file fd = some f ∧ (s.fs.mem.files f).writable = true
  · obtain ⟨f, hfd, hmode⟩ := h
    obtain ⟨k, hk⟩ := hopen f hfd
    refine (hk.write_transfers hmode hu hlen).mono fun r s' hiff => hiff.trans ⟨fun hf g hg _ => hf, fun hall => hall f hfd hmode⟩
  · have hcond : ∀ f, s.proc.file fd = some f → (s.fs.mem.files f).writable = true → FaultsFirst s PTE_R u len :=
      fun f hfd hmode => absurd ⟨f, hfd, hmode⟩ h
    refine getProc_bind ?_
    cases hfd : s.proc.file fd with
    | none => exact .pure (iff_of_true (fun _ => .refl sb s) (hfd ▸ hcond))
    | some f =>
      refine onFs_getFile ?_
      rw [if_pos (by simpa using fun hmode => h ⟨f, hfd, hmode⟩)]
      exact .pure (iff_of_true (fun _ => .refl sb s) (hfd ▸ hcond))

lemma fsRead_untouched (hopen : ∀ f, s.proc.file fd = some f → ∃ k, Opened sb s fd f k) (hp : UserPaged s.ph s.proc.table)
    (hu : u < 2 ^ 64) (hlen : len < 2 ^ 64) :
    (fsRead P (cacheStore P) sb fd u len).Ends s (fun _ => True) fun r s' => (r = none → Untouched sb s s') ↔
      ∀ f, s.proc.file fd = some f → (s.fs.mem.files f).readable = true → FaultsFirst s PTE_W u (readGoal sb s f len) := by
  by_cases h : ∃ f, s.proc.file fd = some f ∧ (s.fs.mem.files f).readable = true
  · obtain ⟨f, hfd, hmode⟩ := h
    obtain ⟨k, hk⟩ := hopen f hfd
    refine (hk.read_transfers hp hmode hu hlen).mono fun r s' hiff => hiff.trans ⟨fun hf g hg _ => ?_, fun hall => hall f hfd hmode⟩
    rw [hfd] at hg
    cases hg
    exact hf
  · have hcond : ∀ f, s.proc.file fd = some f → (s.fs.mem.files f).readable = true → FaultsFirst s PTE_W u (readGoal sb s f len) :=
      fun f hfd hmode => absurd ⟨f, hfd, hmode⟩ h
    refine getProc_bind ?_
    cases hfd : s.proc.file fd with
    | none => exact .pure (iff_of_true (fun _ => .refl sb s) (hfd ▸ hcond))
    | some f =>
      refine onFs_getFile ?_
      rw [if_pos (by simpa using fun hmode => h ⟨f, hfd, hmode⟩)]
      exact .pure (iff_of_true (fun _ => .refl sb s) (hfd ▸ hcond))

/-- A failing call has no effect exactly if no chunk was transferred before the one that cannot be. -/
theorem failed_io_untouched_iff (hopen : ∀ f, s.proc.file fd = some f → ∃ k, Opened sb s fd f k) (hp : UserPaged s.ph s.proc.table)
    (hu : u < 2 ^ 64) (hlen : len < 2 ^ 64) :
    (∀ r s', fsWrite P (cacheStore P) sb fd u len s = .ok (r, s') → ((r = none → Untouched sb s s') ↔
      ∀ f, s.proc.file fd = some f → (s.fs.mem.files f).writable = true → FaultsFirst s PTE_R u len)) ∧
    ∀ r s', fsRead P (cacheStore P) sb fd u len s = .ok (r, s') → ((r = none → Untouched sb s s') ↔
      ∀ f, s.proc.file fd = some f → (s.fs.mem.files f).readable = true → FaultsFirst s PTE_W u (readGoal sb s f len)) :=
  ⟨fun r s' he => (fsWrite_untouched hopen hu hlen).ok r s' he, fun r s' he => (fsRead_untouched hopen hp hu hlen).ok r s' he⟩

/-- The result of a call, with the offset of a file and the size of an inode afterwards. -/
def outcome (x : K (Sys BufState) (Option Nat)) (sb : SuperBlock) (f : FileId) (i : Nat) (s : Sys BufState) : Option (Option Nat × Nat × Nat) :=
  (x s).toOption.map fun r => (r.1, (r.2.fs.mem.files f).off, (dinode sb (blocks r.2.fs) i).size)

lemma outcome_eq {x : K (Sys BufState) (Option Nat)} {i n : Nat} (h : outcome x sb f i s = some (r, o, n)) :
    ∃ s', x s = .ok (r, s') ∧ (s'.fs.mem.files f).off = o ∧ (dinode sb (blocks s'.fs) i).size = n := by
  obtain ⟨a, ha, hr⟩ := Option.map_eq_some_iff.mp h
  obtain ⟨r', s'⟩ := a
  cases hr
  cases hx : x s with
  | error e =>
    rw [hx] at ha
    cases ha
  | ok b =>
    rw [hx] at ha
    cases ha
    exact ⟨s', rfl, rfl, rfl⟩

lemma exists_outcome (u len : Nat) (a : Option (Option Nat × Nat × Nat)) (h : StateT.run' (do
      let _ ← Proc.onPhys (Proc.mapKernel .dev Proc.bootEnv)
      let b ← Proc.performAll .dev Proc.bootEnv (fun _ op _ => !op.isExec) [.create []]
      let k ← get
      return (b, decide (k.Active 0 ∧ ¬Uvm.Access k.ph.mem (k.procs 0).table PTE_R 2), outcome (fsWrite .dev (cacheStore .dev) smallSb 0 u len) smallSb 0 0
        (oneOpen.openAt 0 0 k.ph (k.procs 0).table 0 1))) Proc.bootKernel = .ok (true, true, a)) :
    ∃ ph table, UserPaged ph table ∧ ¬Uvm.Access ph.mem table PTE_R 2 ∧
      outcome (fsWrite .dev (cacheStore .dev) smallSb 0 u len) smallSb 0 0 (oneOpen.openAt 0 0 ph table 0 1) = a := by
  obtain ⟨k0, k, h0, hrun, hend⟩ := Proc.exists_run .dev (fun _ op _ => op.Typed ∧ (Profile.dev = .release → op.NoWrap))
    (fun _ op _ => !op.isExec) [.create []]
    (fun k => (decide (k.Active 0 ∧ ¬Uvm.Access k.ph.mem (k.procs 0).table PTE_R 2), outcome (fsWrite .dev (cacheStore .dev) smallSb 0 u len) smallSb 0 0
      (oneOpen.openAt 0 0 k.ph (k.procs 0).table 0 1))) (true, a)
    (fun k op _ b ht => ⟨Proc.Op.typed_of_not_exec (by simpa using ht), fun hp => by cases hp⟩) h
  simp only [Prod.mk.injEq, decide_eq_true_eq] at hend
  exact ⟨k.ph, (k.procs 0).table, reached_userPaged h0 hrun hend.1.1, hend.1.2, hend.2⟩

/-- A buffer that starts on a page which is not mapped. -/
theorem failed_io_first_chunk : ∃ ph table s', UserPaged ph table ∧
    fsWrite .dev (cacheStore .dev) smallSb 0 0x2000 1024 (oneOpen.openAt 0 0 ph table 0 1) = .ok (none, s') ∧
    Untouched smallSb (oneOpen.openAt 0 0 ph table 0 1) s' := by
  obtain ⟨ph, table, hp, hno, hout⟩ := exists_outcome 0x2000 1024 (some (none, 0, 0)) (by decide +kernel)
  obtain ⟨s', he, -, -⟩ := outcome_eq hout
  have hopen : Opened smallSb (oneOpen.openAt 0 0 ph table 0 1) 0 0 0 := oneOpen_openAt ph table (by decide) (by decide) (by decide)
  have hfirst : ¬UserRange (oneOpen.openAt 0 0 ph table 0 1) PTE_R 0x2000 (min 1024 512) := fun hall => hno (hall 0 (by decide))
  have hall : ∀ f, (oneOpen.openAt 0 0 ph table 0 1).proc.file 0 = some f → ∃ k, Opened smallSb (oneOpen.openAt 0 0 ph table 0 1) 0 f k := by
    intro f hf
    rw [hopen.fd] at hf
    cases hf
    exact ⟨0, hopen⟩
  have hiff := (failed_io_untouched_iff hall hp (by decide) (by decide)).1 none s' he
  exact ⟨ph, table, s', hp, he, hiff.mpr (fun _ _ _ => .inr hfirst) rfl⟩

/-- Of a buffer that reaches into a page which is not mapped, the first 512 bytes are written. -/
theorem failed_io_moves : ∃ ph table s', UserPaged ph table ∧ Opened smallSb (oneOpen.openAt 0 0 ph table 0 1) 0 0 0 ∧
    fsWrite .dev (cacheStore .dev) smallSb 0 0x1E00 1024 (oneOpen.openAt 0 0 ph table 0 1) = .ok (none, s') ∧
    (s'.fs.mem.files 0).off = 512 ∧ (dinode smallSb (blocks s'.fs) 0).size = 512 := by
  obtain ⟨ph, table, hp, -, hout⟩ := exists_outcome 0x1E00 1024 (some (none, 512, 512)) (by decide +kernel)
  obtain ⟨s', he, hoff, hsize⟩ := outcome_eq hout
  exact ⟨ph, table, s', hp, oneOpen_openAt ph table (by decide) (by decide) (by decide), he, hoff, hsize⟩

end Glenda.Fs
