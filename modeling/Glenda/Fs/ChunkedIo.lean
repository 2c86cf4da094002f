import Glenda.Fs.Seek
import Glenda.Mem.UserImage
import Glenda.Proc.Boot

/-!
# Reading and writing through a descriptor

`fs_read` and `fs_write` go through a buffer of 512 bytes. Their chunks add up to the transfer of the whole range.
-/

namespace Glenda.Fs
open Glenda.Lib Glenda.Mem

variable {P : Profile} {sb : SuperBlock} {s s' : Sys BufState} {m : FsMem} {d d₀ d₁ d₂ d₃ : Nat → Block} {f : FileId}
  {k : Slot} {fd i off len n n' total fuel uSrc uDst : Nat} {E : Panic → Prop} {src src' buf : Block} {v : Picture} {bs : List Nat} {ph0 ph : Phys}
  {fixed : PageMap} {O : Nat → Prop} {old : Nat → Nat → Nat}

/-! ### Bytes -/

lemma WroteData.trans (h : WroteData sb d₁ d₂ i off n src) (h' : WroteData sb d₂ d₃ i (off + n) n' src')
    (hsrc : ∀ q < n', src' q = src (n + q)) : WroteData sb d₁ d₃ i off (n + n') src := by
  constructor
  · exact h'.owned
  · exact fun j => (h'.used j).trans (h.used j)
  · exact fun j hj hne => (h'.other j ((h.used j).mpr hj) hne).trans (h.other j hj hne)
  · rw [h'.self, h.self]
    dsimp only
    rw [Nat.max_assoc, Nat.max_eq_right (Nat.le_add_right _ _), Nat.add_assoc]
  · exact fun j o hj hne ho => (h'.rest j o ((h.used j).mpr hj) hne ho).trans (h.rest j o hj hne ho)
  · intro o ho
    have hbase : blit src' 0 n' (off + n) (fileByte sb d₂ i) o = blit src' 0 n' (off + n) (blit src 0 n off (fileByte sb d₁ i)) o := by
      change (if _ then _ else fileByte sb d₂ i o) = _
      rw [h.bytes o ho]
      rfl
    have hshift : ∀ q < n', src' (0 + q) = src (0 + n + q) := by
      intro q hq
      rw [Nat.zero_add, Nat.zero_add]
      exact hsrc q hq
    rw [h'.bytes o ho, hbase, blit_congr hshift, blit_blit]
  · exact h.kept.trans h.used h'.kept

lemma WroteData.congr (h : WroteData sb d₁ d₂ i off n src) (hsrc : ∀ q < n, src q = src' q) : WroteData sb d₁ d₂ i off n src' := by
  refine ⟨h.owned, h.used, h.other, h.self, h.rest, fun o ho => ?_, h.kept⟩
  have hbytes : blit src 0 n off (fileByte sb d₁ i) = blit src' 0 n off (fileByte sb d₁ i) :=
    blit_congr fun q hq => by rw [Nat.zero_add]; exact hsrc q hq
  rw [h.bytes o ho, hbytes]

lemma ofBytes_take {q : Nat} (h : q < n) : ofBytes ((bs.drop total).take n) q = ofBytes bs (total + q) := by
  unfold ofBytes
  rw [List.getD_eq_getElem?_getD, List.getD_eq_getElem?_getD, List.getElem?_take_of_lt h, List.getElem?_drop]

lemma holds_part (h : v.Holds uSrc bs) (hn : total + n ≤ bs.length) :
    v.Holds (uSrc + total) ((bs.drop total).take n) ∧ ((bs.drop total).take n).length = n := by
  have hsplit : bs = bs.take total ++ ((bs.drop total).take n ++ (bs.drop total).drop n) := by
    rw [List.take_append_drop, List.take_append_drop]
  have hlen : (bs.take total).length = total := by
    rw [List.length_take]
    omega
  rw [hsplit, Picture.holds_append, Picture.holds_append, hlen] at h
  refine ⟨h.2.1, ?_⟩
  rw [List.length_take, List.length_drop]
  omega

/-- Bytes of a file. -/
def fileBytes (sb : SuperBlock) (d : Nat → Block) (i off n : Nat) : List Nat :=
  (List.range n).map fun q => (fileByte sb d i (off + q)).toNat

lemma length_fileBytes (sb : SuperBlock) (d : Nat → Block) (i off n : Nat) : (fileBytes sb d i off n).length = n := by
  unfold fileBytes
  rw [List.length_map, List.length_range]

lemma fileBytes_lt {b : Nat} (h : b ∈ fileBytes sb d i off n) : b < 256 := by
  obtain ⟨q, -, rfl⟩ := List.mem_map.mp h
  exact UInt8.toNat_lt _

lemma fileBytes_add (sb : SuperBlock) (d : Nat → Block) (i off n n' : Nat) :
    fileBytes sb d i off (n + n') = fileBytes sb d i off n ++ fileBytes sb d i (off + n) n' := by
  unfold fileBytes
  rw [List.range_add, List.map_append, List.map_map]
  simp only [Function.comp_def, Nat.add_assoc]

lemma toBytes_blit (sb : SuperBlock) (d : Nat → Block) (i off n : Nat) (buf : Block) :
    toBytes (blit (fileByte sb d i) off n 0 buf) n = fileBytes sb d i off n := by
  unfold toBytes fileBytes
  refine List.map_congr_left fun q hq => ?_
  have hlt := List.mem_range.mp hq
  unfold blit
  rw [if_pos (by omega), Nat.sub_zero]

/-! ### Writing -/

lemma writeChunks_exact (hreads : Reads s.ph s.proc.table v) (hv : v.Holds uSrc bs)
    (hva : bs.length = 0 ∨ uSrc + bs.length < 2 ^ 64) (hw : Working sb m f k s.fs d (off + total)) (hmax : off + bs.length ≤ MAXOFFSET) (htotal : total ≤ bs.length)
    (hfuel : bs.length - total < fuel)
    (hwrote : total = 0 ∧ d = d₀ ∨ 0 < total ∧ WroteData sb d₀ d (m.inodes k).inodeNum off total (ofBytes bs))
    (hroom : (lacking sb d (m.inodes k).inodeNum (fileNodes off (off + bs.length))).card ≤ freeBlocks sb d) :
    (writeChunks P (cacheStore P) sb f k uSrc bs.length fuel total).Ends s E fun r s' => r = some bs.length ∧ s'.proc = s.proc ∧
      s'.ph = s.ph ∧ ∃ d', Working sb m f k s'.fs d' (off + bs.length) ∧
        (bs.length = 0 ∧ d' = d₀ ∨ 0 < bs.length ∧ WroteData sb d₀ d' (m.inodes k).inodeNum off bs.length (ofBytes bs)) := by
  induction fuel generalizing s d total with
  | zero => omega
  | succ fuel ih =>
    unfold writeChunks
    by_cases hlt : total < bs.length
    · rw [if_pos hlt]
      set c := min (bs.length - total) 512 with hc
      have hcpos : 0 < c := by omega
      have hcle : total + c ≤ bs.length := by omega
      obtain ⟨hpart, hlen⟩ := holds_part hv hcle
      dsimp only
      rw [addW_of_lt P (by omega), pure_bind]
      refine getProc_bind (onUser_of_ok (Uvm.copyin_eq P s.ph s.proc.table c (uSrc + total)) ?_)
      rw [hreads.load_ok.mpr ⟨hlen, hpart⟩]
      dsimp only
      refine onFs_getFile ?_
      rw [hw.file_off]
      have hnodes : fileNodes (off + total) (off + total + c) ⊆ fileNodes off (off + bs.length) :=
        fileNodes_mono (by omega) (by omega)
      refine onFs_bind (inodeWriteData_ends (E := E) (ofBytes ((bs.drop total).take c)) (cacheStore_lawful P) hw.layout (by decide)
        hw.owned hw.used hw.holds hw.at_ le_rfl hw.off (.inr (by omega)) (fileNodes_isPath (by unfold MAXOFFSET at hmax; omega)) hnodes
        fun hfull => by omega) ?_
      rintro w t ⟨rfl, d₁, hr, hwr, hbud⟩
      have hw1 : Working sb m f k t d₁ (off + total) := by
        refine ⟨hw.layout, hwr.owned, (hwr.used _).mpr hw.used, ?_, hw.off⟩
        rwa [FsMem.setDisk_setOff, FsMem.setDisk_setDisk] at hr
      rw [addW_of_lt P (by omega), pure_bind, addW_of_lt P (by unfold MAXOFFSET at hmax; omega), pure_bind]
      refine onFs_bind (hw1.setOff (by unfold MAXOFFSET at hmax; omega)) fun _ t2 hw2 => ?_
      rw [if_neg (lt_irrefl _)]
      have hsrc : ∀ q < c, ofBytes ((bs.drop total).take c) q = ofBytes bs (total + q) := fun q hq => ofBytes_take hq
      refine ih (s := { s with fs := t2 }) hreads (Nat.add_assoc off total c ▸ hw2) hcle (by omega) (.inr ⟨by omega, ?_⟩) ?_
      · rcases hwrote with ⟨rfl, rfl⟩ | ⟨-, hwrote⟩
        · rw [Nat.zero_add]
          exact hwr.congr fun q hq => by rw [hsrc q hq, Nat.zero_add]
        · exact hwrote.trans hwr hsrc
      · by_contra hfull
        have hroom0 := hbud.room (not_le.mp hfull)
        omega
    · rw [if_neg hlt]
      obtain rfl : total = bs.length := by omega
      exact .pure ⟨rfl, rfl, rfl, d, hw, hwrote⟩

/-! ### Reading -/

lemma readChunks_exact {size : Nat}
    (hsize : size = (dinode sb d (m.inodes k).inodeNum).size)
    (hshows : Shows ph0 fixed s.proc.table O old s.ph (v.write uDst (fileBytes sb d (m.inodes k).inodeNum off total)))
    (ha : v.AllowsAll PTE_W uDst len) (hva : len = 0 ∨ uDst + len < 2 ^ 64) (hw : Working sb m f k s.fs d (off + total))
    (hmax : off + len ≤ MAXOFFSET) (htotal : total ≤ min len (size - off)) (hfuel : len - total < fuel) :
    (readChunks P (cacheStore P) sb f k uDst len fuel total buf).Ends s E fun r s' => r = some (min len (size - off)) ∧
      s'.proc = s.proc ∧ Working sb m f k s'.fs d (off + min len (size - off)) ∧
      Shows ph0 fixed s.proc.table O old s'.ph (v.write uDst (fileBytes sb d (m.inodes k).inodeNum off (min len (size - off)))) := by
  induction fuel generalizing s total buf with
  | zero => omega
  | succ fuel ih =>
    unfold readChunks
    by_cases hlt : total < len
    · rw [if_pos hlt]
      set c := min (len - total) 512 with hc
      have hoff : off + total + c ≤ MAXOFFSET := by omega
      have hfit : off + total + c < 2 ^ 32 := by
        unfold MAXOFFSET at hoff
        omega
      refine onFs_getFile ?_
      dsimp only
      rw [hw.file_off]
      refine onFs_bind (inodeReadData_ends (E := E) buf (cacheStore_lawful P) hw.layout (by decide) hw.owned hw.used hw.holds hw.at_
        le_rfl hfit (.inr ((Nat.min_le_left _ _).trans hoff))) ?_
      rintro ⟨read, buf'⟩ t ⟨hr, hread, hbuf⟩
      dsimp only at hread hbuf ⊢
      rw [← hsize] at hread
      have hw1 : Working sb m f k t d (off + total) := ⟨hw.layout, hw.owned, hw.used, hr, hw.off⟩
      by_cases hzero : read = 0
      · rw [if_pos hzero]
        obtain rfl : total = min len (size - off) := by omega
        exact .pure ⟨rfl, rfl, hw1, hshows⟩
      · rw [if_neg hzero, addW_of_lt P (by omega), pure_bind]
        have hbytes : toBytes buf' read = fileBytes sb d (m.inodes k).inodeNum (off + total) read := by
          rw [hbuf, toBytes_blit]
        have hlow : ∀ b ∈ toBytes buf' read, b < 256 := fun b hb => fileBytes_lt (hbytes ▸ hb)
        obtain ⟨r, ph', hcopy, hiff, hnext, -⟩ := hshows.copyout P (uDst + total) hlow
        have hok : r = .ok () := by
          refine hiff.mpr fun q hq => ?_
          rw [hbytes, length_fileBytes] at hq
          rw [Nat.add_assoc]
          exact ha (total + q) (by omega)
        subst hok
        refine getProc_bind (onUser_of_ok hcopy ?_)
        dsimp only
        rw [addW_of_lt P (by omega), pure_bind, addW_of_lt P (by omega), pure_bind]
        have hmoved : off + total + read < 2 ^ 32 := by omega
        refine onFs_bind (hw1.setOff hmoved) fun _ t2 hw2 => ?_
        rw [Nat.add_assoc] at hw2
        have hshows2 : Shows ph0 fixed s.proc.table O old ph'
            (v.write uDst (fileBytes sb d (m.inodes k).inodeNum off (total + read))) := by
          have hall := Picture.write_write v uDst (fileBytes sb d (m.inodes k).inodeNum off total) (toBytes buf' read)
          rw [length_fileBytes, hbytes, ← fileBytes_add] at hall
          rw [← hall, ← hbytes]
          exact hnext rfl
        by_cases hshort : read < c
        · rw [if_pos hshort]
          have hend : total + read = min len (size - off) := by omega
          rw [hend] at hw2 hshows2 ⊢
          exact .pure ⟨rfl, rfl, hw2, hshows2⟩
        · rw [if_neg hshort]
          exact ih (s := ⟨t2, s.proc, ph'⟩) hshows2 hw2 (by omega) (by omega)
    · rw [if_neg hlt]
      obtain rfl : total = min len (size - off) := by omega
      exact .pure ⟨rfl, rfl, hw, hshows⟩

/-! ### The calls -/

/-- The bytes at addresses of the user. -/
def userBytes (ph : Phys) (table va n : Nat) : List Nat := (List.range n).map fun q => ph.byte (Uvm.translate ph.mem table (va + q))

lemma length_userBytes (ph : Phys) (table va n : Nat) : (userBytes ph table va n).length = n := by
  unfold userBytes
  rw [List.length_map, List.length_range]

lemma userBytes_holds {table va : Nat} (h : Reads ph table v) (ha : ∀ q < n, Uvm.Access ph.mem table PTE_R ((va + q) / PGSIZE)) :
    v.Holds va (userBytes ph table va n) := by
  have hall := h.allows_iff.mp ha
  refine ⟨by rwa [length_userBytes], fun q hq => ?_⟩
  simp only [userBytes, List.getElem_map, List.getElem_range]
  exact (h.byte PTE_R _ (hall q (by rwa [length_userBytes] at hq))).symm

lemma user_end_lt {table va perm : Nat} (ha : ∀ q < n, Uvm.Access ph.mem table perm ((va + q) / PGSIZE)) :
    n = 0 ∨ va + n < 2 ^ 64 := by
  by_cases hn : n = 0
  · exact .inl hn
  have hlast := (ha (n - 1) (by omega)).va_lt
  unfold VA_MAX at hlast
  omega

lemma Opened.write_exact (h : Opened sb s fd f k) (hcount : (s.fs.mem.inodes k).refcnt + 1 < 2 ^ 32)
    (hmode : (s.fs.mem.files f).writable = true) (hreads : Reads s.ph s.proc.table v) (hv : v.Holds uSrc bs)
    (hva : bs.length = 0 ∨ uSrc + bs.length < 2 ^ 64) (hmax : (s.fs.mem.files f).off + bs.length ≤ MAXOFFSET)
    (hroom : (lacking sb (blocks s.fs) (s.fs.mem.inodes k).inodeNum (fileNodes (s.fs.mem.files f).off
      ((s.fs.mem.files f).off + bs.length))).card ≤ freeBlocks sb (blocks s.fs)) :
    (fsWrite P (cacheStore P) sb fd uSrc bs.length).Ends s E fun r s' => r = some bs.length ∧ s'.proc = s.proc ∧ s'.ph = s.ph ∧
      ∃ d, Working sb s.fs.mem f k s'.fs d ((s.fs.mem.files f).off + bs.length) ∧ (bs.length = 0 ∧ d = blocks s.fs ∨
        0 < bs.length ∧ WroteData sb (blocks s.fs) d (s.fs.mem.inodes k).inodeNum (s.fs.mem.files f).off bs.length (ofBytes bs)) := by
  refine getProc_bind ?_
  rw [h.fd]
  refine onFs_getFile ?_
  rw [hmode]
  refine h.bracket (.inl hcount) (Q := fun r s' d o => r = some bs.length ∧ s'.proc = s.proc ∧ s'.ph = s.ph ∧
    o = (s.fs.mem.files f).off + bs.length ∧ (bs.length = 0 ∧ d = blocks s.fs ∨
      0 < bs.length ∧ WroteData sb (blocks s.fs) d (s.fs.mem.inodes k).inodeNum (s.fs.mem.files f).off bs.length (ofBytes bs))) (fun r t hw => ?_) ?_
  · have hnum : ((s.fs.mem.recount k r).inodes k).inodeNum = (s.fs.mem.inodes k).inodeNum := by rw [FsMem.recount_self]
    have hw0 : Working sb (s.fs.mem.recount k r) f k t (blocks s.fs) ((s.fs.mem.files f).off + 0) := hw
    refine (writeChunks_exact (s := { s with fs := t }) hreads hv hva hw0 hmax (Nat.zero_le _) (by omega) (.inl ⟨rfl, rfl⟩) (by rwa [hnum])).mono ?_
    rintro a s' ⟨rfl, hproc, hph, d, hw', hwrote⟩
    rw [hnum] at hwrote
    exact ⟨d, _, hw', rfl, hproc, hph, rfl, hwrote⟩
  · rintro a s' t d o ⟨rfl, hproc, hph, rfl, hwrote⟩ hw -
    exact .pure ⟨rfl, hproc, hph, d, hw, hwrote⟩

lemma Opened.read_exact (h : Opened sb s fd f k)
    (hcount : (s.fs.mem.inodes k).refcnt + 1 < 2 ^ 32) (hmode : (s.fs.mem.files f).readable = true)
    (hshows : Shows ph0 fixed s.proc.table O old s.ph v) (ha : v.AllowsAll PTE_W uDst len)
    (hva : len = 0 ∨ uDst + len < 2 ^ 64) (hmax : (s.fs.mem.files f).off + len ≤ MAXOFFSET)
    (hn : n = min len ((dinode sb (blocks s.fs) (s.fs.mem.inodes k).inodeNum).size - (s.fs.mem.files f).off)) :
    (fsRead P (cacheStore P) sb fd uDst len).Ends s E fun r s' => r = some n ∧ s'.proc = s.proc ∧
      Working sb s.fs.mem f k s'.fs (blocks s.fs) ((s.fs.mem.files f).off + n) ∧ Shows ph0 fixed s.proc.table O old s'.ph
        (v.write uDst (fileBytes sb (blocks s.fs) (s.fs.mem.inodes k).inodeNum (s.fs.mem.files f).off n)) := by
  refine getProc_bind ?_
  rw [h.fd]
  refine onFs_getFile ?_
  rw [hmode]
  refine h.bracket (.inl hcount) (Q := fun r s' d o => r = some n ∧ s'.proc = s.proc ∧ d = blocks s.fs ∧
    o = (s.fs.mem.files f).off + n ∧ Shows ph0 fixed s.proc.table O old s'.ph
      (v.write uDst (fileBytes sb (blocks s.fs) (s.fs.mem.inodes k).inodeNum (s.fs.mem.files f).off n))) (fun r t hw => ?_) ?_
  · have hnum : ((s.fs.mem.recount k r).inodes k).inodeNum = (s.fs.mem.inodes k).inodeNum := by rw [FsMem.recount_self]
    have hnone : fileBytes sb (blocks s.fs) (s.fs.mem.inodes k).inodeNum (s.fs.mem.files f).off 0 = [] := rfl
    have hw0 : Working sb (s.fs.mem.recount k r) f k t (blocks s.fs) ((s.fs.mem.files f).off + 0) := hw
    refine (readChunks_exact (s := { s with fs := t }) rfl (by rw [hnum, hnone, Picture.write_nil]; exact hshows) ha hva hw0 hmax
      (Nat.zero_le _) (by omega)).mono ?_
    rintro a s' ⟨rfl, hproc, hw', hshows'⟩
    rw [hnum, ← hn] at hw' hshows' ⊢
    exact ⟨_, _, hw', rfl, hproc, rfl, rfl, hshows'⟩
  · rintro a s' t d o ⟨rfl, hproc, rfl, rfl, hshows'⟩ hw -
    exact .pure ⟨rfl, hproc, hw, hshows'⟩

/-- The same files, with the same sizes and bytes. -/
structure SameFiles (sb : SuperBlock) (d d' : Nat → Block) : Prop where
  used : ∀ j, Used sb d' j ↔ Used sb d j
  size : ∀ j, Used sb d j → (dinode sb d' j).size = (dinode sb d j).size
  bytes : ∀ j o, Used sb d j → o < 2 ^ 32 → fileByte sb d' j o = fileByte sb d j o

lemma WroteData.sameFiles (h : WroteData sb d d₁ i off n src) (h' : WroteData sb d d₂ i off n src) : SameFiles sb d₁ d₂ := by
  refine ⟨fun j => (h'.used j).trans (h.used j).symm, fun j hj => ?_, fun j o hj ho => ?_⟩
  · have hu := (h.used j).mp hj
    by_cases hji : j = i
    · rw [hji, h.self, h'.self]
    · rw [h.other j hu hji, h'.other j hu hji]
  · have hu := (h.used j).mp hj
    have hblock := div_lt_maxBlocks ho
    by_cases hji : j = i
    · rw [hji, h.bytes o hblock, h'.bytes o hblock]
    · rw [h.rest j o hu hji hblock, h'.rest j o hu hji hblock]

lemma WroteData.edits (h : WroteData sb d d₁ i off n src) : Edits sb d d₁ i := by
  refine ⟨h.owned, h.used, h.other, ?_, h.rest, h.kept⟩
  rw [h.self]

lemma WroteData.fileBytes_eq (h : WroteData sb d d₁ i off len (ofBytes bs)) (hl : bs.length = len) (hb : ∀ b ∈ bs, b < 256)
    (hmax : off + len ≤ 2 ^ 32) : fileBytes sb d₁ i off len = bs := by
  subst hl
  refine List.ext_getElem (length_fileBytes ..) fun q hq hq' => ?_
  simp only [fileBytes, List.getElem_map, List.getElem_range]
  rw [h.bytes (off + q) (div_lt_maxBlocks (by omega))]
  unfold blit ofBytes
  rw [if_pos (by omega), Nat.zero_add, Nat.add_sub_cancel_left, List.getD_eq_getElem _ _ hq']
  exact UInt8.toNat_ofNat_of_lt' (hb _ (List.getElem_mem hq'))

lemma userBytes_lt {table va b : Nat} (h : b ∈ userBytes ph table va n) : b < 256 := by
  obtain ⟨q, -, rfl⟩ := List.mem_map.mp h
  exact Nat.mod_lt _ (by decide)

lemma userBytes_take {table va : Nat} (h : n ≤ n') : (userBytes ph table va n').take n = userBytes ph table va n := by
  unfold userBytes
  rw [← List.map_take, List.take_range, Nat.min_eq_left h]

lemma fileBytes_take (h : n ≤ n') : (fileBytes sb d i off n').take n = fileBytes sb d i off n := by
  unfold fileBytes
  rw [← List.map_take, List.take_range, Nat.min_eq_left h]

/-! ### Whole transfers -/

/-- The user can use `len` bytes at `va`. -/
def UserRange (s : Sys BufState) (perm va len : Nat) : Prop :=
  ∀ q < len, Uvm.Access s.ph.mem s.proc.table perm ((va + q) / PGSIZE)

/-- There are blocks for what a write of `len` bytes at the offset of the file adds to its inode. -/
def Room (sb : SuperBlock) (s : Sys BufState) (f : FileId) (k : Slot) (len : Nat) : Prop :=
  (lacking sb (blocks s.fs) (s.fs.mem.inodes k).inodeNum (fileNodes (s.fs.mem.files f).off ((s.fs.mem.files f).off + len))).card ≤
    freeBlocks sb (blocks s.fs)

/-- `fs_write` does what one `inode_write_data` of the whole buffer would do. -/
def WritesWhole (P : Profile) (sb : SuperBlock) (s : Sys BufState) (fd : Nat) (f : FileId) (k : Slot) (uSrc len : Nat) : Prop :=
  ∃ s', fsWrite P (cacheStore P) sb fd uSrc len s = .ok (some len, s') ∧ s'.ph = s.ph ∧ s'.proc = s.proc ∧
    (s'.fs.mem.files f).off = (s.fs.mem.files f).off + len ∧
    ∃ t, inodeWriteData P (cacheStore P) sb k (s.fs.mem.files f).off len len (ofBytes (userBytes s.ph s.proc.table uSrc len)) s.fs =
      .ok (len, t) ∧ SameFiles sb (blocks s'.fs) (blocks t)

/-- `fs_read` copies as much of the range as the file has, and nothing else. -/
def ReadsWhole (P : Profile) (sb : SuperBlock) (s : Sys BufState) (fd : Nat) (f : FileId) (i uDst len : Nat) : Prop :=
  let n := min len ((dinode sb (blocks s.fs) i).size - (s.fs.mem.files f).off)
  ∃ s', fsRead P (cacheStore P) sb fd uDst len s = .ok (some n, s') ∧ s'.proc = s.proc ∧ blocks s'.fs = blocks s.fs ∧
    (s'.fs.mem.files f).off = (s.fs.mem.files f).off + n ∧
    userBytes s'.ph s.proc.table uDst n = fileBytes sb (blocks s.fs) i (s.fs.mem.files f).off n ∧
    ∀ va perm, ¬(uDst ≤ va ∧ va < uDst + n) → perm &&& 0x3FF = perm → Uvm.Access s.ph.mem s.proc.table perm (va / PGSIZE) →
      s'.ph.byte (Uvm.translate s'.ph.mem s.proc.table va) = s.ph.byte (Uvm.translate s.ph.mem s.proc.table va)

/-- What was written at the offset of the file is read back after seeking to where it starts. -/
def ReadsBack (P : Profile) (sb : SuperBlock) (s : Sys BufState) (fd₁ fd₂ fd₃ : Nat) (f : FileId) (uSrc len uDst len' : Nat) : Prop :=
  ∃ s₁ s₂ s₃ n, fsWrite P (cacheStore P) sb fd₁ uSrc len s = .ok (some len, s₁) ∧
    fsLseek P (cacheStore P) sb fd₂ (s.fs.mem.files f).off 0 s₁ = .ok (some (s.fs.mem.files f).off, s₂) ∧
    fsRead P (cacheStore P) sb fd₃ uDst len' s₂ = .ok (some n, s₃) ∧ min len len' ≤ n ∧
    userBytes s₃.ph s.proc.table uDst (min len len') = userBytes s.ph s.proc.table uSrc (min len len')

section

variable (h : Opened sb s fd f k) (hp : UserPaged s.ph s.proc.table) (hcount : (s.fs.mem.inodes k).refcnt + 1 < 2 ^ 32) (hmode :
  (s.fs.mem.files f).writable = true) (ha : UserRange s PTE_R uSrc len) (hmax : (s.fs.mem.files f).off + len ≤ MAXOFFSET) (hroom : Room sb s f k len)
include h hp hcount hmode ha hmax hroom

lemma Opened.writes :
    ∃ s', (fsWrite P (cacheStore P) sb fd uSrc len s = .ok (some len, s') ∧ s'.ph = s.ph ∧ s'.proc = s.proc) ∧
      ∃ d, Working sb s.fs.mem f k s'.fs d ((s.fs.mem.files f).off + len) ∧ (len = 0 ∧ d = blocks s.fs ∨
        0 < len ∧ WroteData sb (blocks s.fs) d (s.fs.mem.inodes k).inodeNum (s.fs.mem.files f).off len
          (ofBytes (userBytes s.ph s.proc.table uSrc len))) := by
  obtain ⟨ph0, fixed, v, hshows⟩ := hp.shows
  have hl := length_userBytes s.ph s.proc.table uSrc len
  unfold Room at hroom
  obtain ⟨r, s', he, rfl, hproc, hph, d, hw, hwrote⟩ := (h.write_exact (P := P) (E := fun _ => False) hcount hmode hshows.reads
    (userBytes_holds hshows.reads ha) (by rw [hl]; exact user_end_lt ha) (by rwa [hl]) (by rwa [hl])).exists_ok
  rw [hl] at he hw hwrote
  exact ⟨s', ⟨he, hph, hproc⟩, d, hw, hwrote⟩

lemma Opened.writesWhole (hlen : 0 < len) :
    WritesWhole P sb s fd f k uSrc len := by
  obtain ⟨s', ⟨he, hph, hproc⟩, d, hw, hwrote⟩ := h.writes (P := P) hp hcount hmode ha hmax hroom
  have hall := (hwrote.resolve_left fun hz => hlen.ne' hz.1).2
  have h0 := h.working
  obtain ⟨r, t, het, rfl, d', hr, hone, -⟩ := (inodeWriteData_ends (P := P) (E := fun _ => False)
    (ofBytes (userBytes s.ph s.proc.table uSrc len)) (cacheStore_lawful P) h0.layout (by decide) h0.owned h0.used h0.holds h0.at_ le_rfl h.off (.inr hmax)
    (fileNodes_isPath (by unfold MAXOFFSET at hmax; omega)) subset_rfl fun hfull => absurd hroom (not_le.mpr hfull)).exists_ok
  refine ⟨s', he, hph, hproc, hw.file_off, t, het, ?_⟩
  rw [hw.at_.blocks_eq, hr.blocks_eq]
  exact hall.sameFiles hone

end

lemma Opened.reads (h : Opened sb s fd f k) (hp : UserPaged s.ph s.proc.table) (hcount : (s.fs.mem.inodes k).refcnt + 1 < 2 ^ 32)
    (hmode : (s.fs.mem.files f).readable = true) (ha : UserRange s PTE_W uDst len) (hmax : (s.fs.mem.files f).off + len ≤ MAXOFFSET) :
    ReadsWhole P sb s fd f (s.fs.mem.inodes k).inodeNum uDst len := by
  obtain ⟨ph0, fixed, v, hshows⟩ := hp.shows
  have hall : v.AllowsAll PTE_W uDst len := fun q hq => (hshows.reads.access PTE_W _ (by decide)).mp (ha q hq)
  obtain ⟨r, s', he, rfl, hproc, hw, hshows'⟩ := (h.read_exact (P := P) (E := fun _ => False) hcount hmode hshows hall (user_end_lt ha)
    hmax rfl).exists_ok
  refine ⟨s', he, hproc, hw.at_.blocks_eq, hw.file_off, ?_, fun va perm hout hperm hacc => ?_⟩
  · refine List.ext_getElem (by rw [length_userBytes, length_fileBytes]) fun q hq hq' => ?_
    rw [length_userBytes] at hq
    have hbyte := hshows'.reads.byte PTE_W (uDst + q) (hall q (by omega))
    simp only [userBytes, List.getElem_map, List.getElem_range]
    rw [hbyte, Picture.byte_write hq']
  · have hallow := (hshows.reads.access perm _ hperm).mp hacc
    rw [hshows'.reads.byte perm va hallow, hshows.reads.byte perm va hallow, Picture.byte_write_of_not]
    rwa [length_fileBytes]

lemma Opened.readsBack {fd1 fd2 fd3 len' : Nat} (h1 : Opened sb s fd1 f k) (h2 : Opened sb s fd2 f k) (h3 : Opened sb s fd3 f k)
    (hp : UserPaged s.ph s.proc.table) (hcount : (s.fs.mem.inodes k).refcnt + 1 < 2 ^ 32)
    (hwrite : (s.fs.mem.files f).writable = true) (hread : (s.fs.mem.files f).readable = true) (hsrc : UserRange s PTE_R uSrc len)
    (hdst : UserRange s PTE_W uDst len') (hmax : (s.fs.mem.files f).off + len ≤ MAXOFFSET)
    (hmax' : (s.fs.mem.files f).off + len' ≤ MAXOFFSET) (hroom : Room sb s f k len) (hoff : (s.fs.mem.files f).off < 2 ^ 31) :
    ReadsBack P sb s fd1 fd2 fd3 f uSrc len uDst len' := by
  obtain ⟨s1, ⟨he1, hph1, hproc1⟩, d, hw1, hwrote⟩ := h1.writes (P := P) hp hcount hwrite hsrc hmax hroom
  have hedits : Edits sb (blocks s.fs) d (s.fs.mem.inodes k).inodeNum := by
    rcases hwrote with ⟨-, rfl⟩ | ⟨-, hwrote⟩
    · exact .refl h1.mounted.owned _
    · exact hwrote.edits
  have hnum : (s1.fs.mem.inodes k).inodeNum = (s.fs.mem.inodes k).inodeNum := by
    rw [hw1.at_.1, FsMem.setOff_inodes, FsMem.setDisk_self]
  -- seeking works on the state after the write, through the second descriptor
  have h2' : Opened sb s1 fd2 f k := h2.after hw1 hedits hproc1
  have h3' : Opened sb s1 fd3 f k := h3.after hw1 hedits hproc1
  have hin : InI32 ((s.fs.mem.files f).off : Int) := by
    unfold InI32
    omega
  have hin0 : InI32 (asI32 (seekBase s1 f k 0) + ((s.fs.mem.files f).off : Int)) := by
    rwa [show asI32 (seekBase s1 f k 0) = 0 from rfl, Int.zero_add]
  obtain ⟨r, s2, he2, -, ⟨v, hv, -, hr⟩, hw2, hproc2, hph2⟩ := (fsLseek_ends (P := P) (E := fun _ => False) h2'
    (.inl (by rwa [hw1.refcnt])) hin (Nat.zero_le 2) fun hout => absurd hin0 hout).exists_ok
  obtain rfl : v = (s.fs.mem.files f).off := by
    rw [hv.resolve_right fun hw => hw.1 hin0, show asI32 (seekBase s1 f k 0) = 0 from rfl, Int.zero_add]
  rw [if_neg (by omega), Int.toNat_natCast] at hr
  subst hr
  have hfile : s2.fs.mem.files f = s.fs.mem.files f := by
    rw [hw2.file, hw1.file]
    rfl
  have h3'' : Opened sb s2 fd3 f k := h3'.after hw2 (.refl h3'.mounted.owned _) hproc2
  have hph : s2.ph = s.ph := hph2.trans hph1
  have hproc : s2.proc = s.proc := hproc2.trans hproc1
  have hnum2 : (s2.fs.mem.inodes k).inodeNum = (s.fs.mem.inodes k).inodeNum := by
    rw [hw2.at_.1, FsMem.setOff_inodes, FsMem.setDisk_self]
    exact hnum
  have hblocks : blocks s2.fs = d := hw2.at_.blocks_eq.trans hw1.at_.blocks_eq
  obtain ⟨s3, he3, -, -, -, hbytes, -⟩ := h3''.reads (P := P) (by rwa [hph, hproc]) (by rwa [hw2.refcnt, hw1.refcnt]) (by rwa [hfile])
    (by unfold UserRange; rwa [hph, hproc]) (by rwa [hfile])
  rw [hfile, hnum2, hblocks] at he3 hbytes
  rw [hproc] at hbytes
  refine ⟨s1, s2, s3, _, he1, he2, he3, ?_, ?_⟩
  · rcases hwrote with ⟨rfl, -⟩ | ⟨-, hwrote⟩
    · omega
    · rw [hwrote.self]
      dsimp only
      omega
  · rcases hwrote with ⟨rfl, -⟩ | ⟨-, hwrote⟩
    · rw [Nat.zero_min]
      rfl
    · have hsize : min len len' ≤ min len' ((dinode sb d (s.fs.mem.inodes k).inodeNum).size - (s.fs.mem.files f).off) := by
        rw [hwrote.self]
        dsimp only
        omega
      have hfileBytes := hwrote.fileBytes_eq (length_userBytes ..) (fun _ hb => userBytes_lt hb) (by unfold MAXOFFSET at hmax; omega)
      rw [← userBytes_take hsize, hbytes, fileBytes_take hsize, ← fileBytes_take (Nat.min_le_left len len'), hfileBytes,
        userBytes_take (Nat.min_le_left len len')]

lemma fsDup_opened {fd' : Nat} (h : Opened sb s fd f k) (he : fsDup P fd s = .ok (some fd', s')) : Opened sb s' fd' f k := by
  have hends : (fsDup P fd).Ends s (fun _ => True) fun r s' => ∀ fd', r = some fd' → Opened sb s' fd' f k := by
    refine getProc_bind ?_
    rw [h.fd]
    refine onFs_getFile (addW_bind P _ _ trivial fun r _ => onFs_bind (modifyMem_ends h.mounted.at_) fun _ t ht => ?_)
    have hself : t.mem.files f = { s.fs.mem.files f with refcnt := r } := by
      rw [ht.1]
      exact Function.update_self ..
    have hinodes : t.mem.inodes = s.fs.mem.inodes := by
      rw [ht.1]
      rfl
    refine .bind (allocFd_ends f) ?_
    rintro a s1 - (⟨free, rfl, -, rfl⟩ | ⟨rfl, rfl, -⟩)
    · refine .pure fun fd' hr => ?_
      cases hr
      have hco := h.mounted.coherent
      have hrests : Rests Stored sb t (blocks s.fs) (s.fs.mem.setFile f { s.fs.mem.files f with refcnt := r }) :=
        ⟨⟨h.mounted.layout, h.mounted.owned, hco.valid, hco.used, hco.disk, hco.unique⟩, ht⟩
      refine ⟨FsProc.file_setFd .., hrests.mounted, ?_, ?_, ?_, ?_⟩
      · exact hinodes ▸ h.held
      · exact hinodes ▸ h.bound
      · exact hinodes ▸ hself ▸ h.inum
      · exact hself ▸ h.off
    · refine .bind (Q := fun _ _ => True) ⟨fun _ _ => trivial, fun _ _ _ => trivial⟩ fun _ _ _ _ => ?_
      refine .bind (Q := fun _ _ => True) ⟨fun _ _ => trivial, fun _ _ _ => trivial⟩ fun _ _ _ _ => ?_
      exact .bind (Q := fun _ _ => True) ⟨fun _ _ => trivial, fun _ _ _ => trivial⟩ fun _ _ _ _ => .pure nofun
  exact hends.ok _ _ he fd' rfl

lemma reached_userPaged {P : Profile} {E : Proc.Env} {ring : Nat → Prop} {k0 k : Proc.Kernel} {i : Nat} (h0 : Proc.Booted E ring k0)
    (hrun : Proc.Reaches P E (fun _ op _ => op.Typed ∧ (P = .release → op.NoWrap)) k0 k) (hi : k.Active i) :
    UserPaged k.ph (k.procs i).table := by
  obtain ⟨A0, hA0, -⟩ := h0.shared
  obtain ⟨A, used, ids, free, hA, -⟩ := hA0.run hrun fun _ _ _ ha => ha
  obtain ⟨node, m, htable, hm⟩ := (hA.owns i hi.2.1).2.table
  exact ⟨_, _, node, m, used, hA.estate.userTable htable hm hA.bounds⟩

/-- Transfers in chunks are transfers of the whole range, through any descriptor of the file. -/
theorem chunked_io_exact (h : Opened sb s fd f k) (hp : UserPaged s.ph s.proc.table)
    (hcount : (s.fs.mem.inodes k).refcnt + 1 < 2 ^ 32) :
    (∀ uSrc len, (s.fs.mem.files f).writable = true → UserRange s PTE_R uSrc len → (s.fs.mem.files f).off + len ≤ MAXOFFSET →
      Room sb s f k len → (0 < len → WritesWhole P sb s fd f k uSrc len) ∧
      (len = 0 → ∃ s', fsWrite P (cacheStore P) sb fd uSrc len s = .ok (some 0, s') ∧ blocks s'.fs = blocks s.fs ∧
        (s'.fs.mem.files f).off = (s.fs.mem.files f).off)) ∧
    (∀ uDst len, (s.fs.mem.files f).readable = true → UserRange s PTE_W uDst len → (s.fs.mem.files f).off + len ≤ MAXOFFSET →
      ReadsWhole P sb s fd f (s.fs.mem.inodes k).inodeNum uDst len) ∧
    (∀ fd₂ fd₃ uSrc len uDst len', Opened sb s fd₂ f k → Opened sb s fd₃ f k → (s.fs.mem.files f).writable = true →
      (s.fs.mem.files f).readable = true → UserRange s PTE_R uSrc len → UserRange s PTE_W uDst len' →
      (s.fs.mem.files f).off + len ≤ MAXOFFSET → (s.fs.mem.files f).off + len' ≤ MAXOFFSET → Room sb s f k len →
      (s.fs.mem.files f).off < 2 ^ 31 → ReadsBack P sb s fd fd₂ fd₃ f uSrc len uDst len') ∧
    ∀ fd' s', fsDup P fd s = .ok (some fd', s') → Opened sb s' fd' f k := by
  refine ⟨fun uSrc len hmode ha hmax hroom => ⟨h.writesWhole hp hcount hmode ha hmax hroom, ?_⟩,
    fun uDst len hmode ha hmax => h.reads hp hcount hmode ha hmax, ?_, fun _ _ he => fsDup_opened h he⟩
  · rintro rfl
    obtain ⟨s', ⟨he, -, -⟩, d, hw, hwrote⟩ := h.writes (P := P) hp hcount hmode ha hmax hroom
    refine ⟨s', he, ?_, hw.file_off⟩
    rw [hw.at_.blocks_eq]
    exact (hwrote.resolve_right fun hpos => lt_irrefl _ hpos.1).2
  · intro fd₂ fd₃ uSrc len uDst len' h₂ h₃ hwrite hread hsrc hdst hmax hmax' hroom hoff
    exact h.readsBack h₂ h₃ hp hcount hwrite hread hsrc hdst hmax hmax' hroom hoff

lemma exists_userPaged : ∃ ph table, UserPaged ph table ∧ (∀ perm ∈ [PTE_R, PTE_W], Uvm.Access ph.mem table perm 1) ∧
    ∀ perm ∈ [PTE_R, PTE_W], ¬Uvm.Access ph.mem table perm 2 := by
  obtain ⟨k0, k, h0, hrun, hend⟩ := Proc.exists_run .dev (fun _ op _ => op.Typed ∧ (Profile.dev = .release → op.NoWrap))
    (fun _ op _ => !op.isExec) [.create []]
    (fun k => (decide (k.Active 0), decide (∀ perm ∈ [PTE_R, PTE_W], Uvm.Access k.ph.mem (k.procs 0).table perm 1),
      decide (∀ perm ∈ [PTE_R, PTE_W], ¬Uvm.Access k.ph.mem (k.procs 0).table perm 2))) (true, true, true)
    (fun k op _ b ht => ⟨Proc.Op.typed_of_not_exec (by simpa using ht), nofun⟩) (by decide +kernel)
  simp only [Prod.mk.injEq, decide_eq_true_eq] at hend
  exact ⟨k.ph, (k.procs 0).table, reached_userPaged h0 hrun hend.1, hend.2⟩

/-- Another memory, offset of the file and number of references to the inode. -/
def Sys.openAt (s : Sys BufState) (f : FileId) (k : Slot) (ph : Phys) (table off refcnt : Nat) : Sys BufState where
  fs := { s.fs with mem := (s.fs.mem.setOff f off).recount k refcnt }
  proc := { s.proc with table := table }
  ph := ph

lemma oneOpen_openAt {refcnt : Nat} (ph : Phys) (table : Nat) (hoff : off < 2 ^ 32) (hpos : 0 < refcnt) (hmax : refcnt < 2 ^ 32) :
    Opened smallSb (oneOpen.openAt 0 0 ph table off refcnt) 0 0 0 := by
  have hfile := oneFile_mounted.coherent
  have hset : Coherent smallSb (blocks oneFile) (oneOpen.fs.mem.setOff 0 off) := ⟨hfile.valid, hfile.used, hfile.disk, hfile.unique⟩
  have hheld : 0 < (oneFile.mem.inodes 0).refcnt := by decide
  have hco := hset.recount hheld refcnt
  exact ⟨rfl, ⟨⟨smallSb_layout, oneFile_mounted.owned, hco.valid, hco.used, hco.disk, hco.unique⟩, rfl, oneFile_mounted.at_.2⟩, hpos, hmax,
    rfl, hoff⟩

lemma oneOpen_room (ph : Phys) (table : Nat) (hlen : off + len ≤ 4096) : Room smallSb (oneOpen.openAt 0 0 ph table off 1) 0 0 len := by
  have hroom := card_lacking_le smallSb (blocks oneFile) 0 off (off + len)
  have hfree : 3 ≤ freeBlocks smallSb (blocks (oneOpen.openAt 0 0 ph table off 1).fs) := show 3 ≤ freeBlocks smallSb (blocks oneFile) by decide
  have hone : blocksOf off (off + len) ≤ 1 := by
    unfold blocksOf BLOCK_SIZE
    split_ifs
    · omega
    · omega
  exact hroom.trans (by omega)

/-- Three bytes, written and read back. -/
theorem chunked_io_oneFile : ∃ ph table, Opened smallSb (oneOpen.openAt 0 0 ph table 0 1) 0 0 0 ∧ UserPaged ph table ∧
    WritesWhole .dev smallSb (oneOpen.openAt 0 0 ph table 0 1) 0 0 0 0x1000 3 ∧ ReadsWhole .dev smallSb (oneOpen.openAt 0 0 ph table 0 1) 0 0 0 0x1000 3 ∧
    ReadsBack .dev smallSb (oneOpen.openAt 0 0 ph table 0 1) 0 0 0 0 0x1000 3 0x1010 3 := by
  obtain ⟨ph, table, hp, hacc, -⟩ := exists_userPaged
  have hopen : Opened smallSb (oneOpen.openAt 0 0 ph table 0 1) 0 0 0 := oneOpen_openAt ph table (by decide) (by decide) (by decide)
  have hrange : ∀ perm ∈ [PTE_R, PTE_W], ∀ va, 0x1000 ≤ va → va + 3 ≤ 0x2000 → UserRange (oneOpen.openAt 0 0 ph table 0 1) perm va 3 := by
    intro perm hperm va hlow hhigh q hq
    have hpage : (va + q) / PGSIZE = 1 := by
      unfold PGSIZE
      omega
    rw [hpage]
    exact hacc perm hperm
  have hmax : ((oneOpen.openAt 0 0 ph table 0 1).fs.mem.files 0).off + 3 ≤ MAXOFFSET := show 0 + 3 ≤ MAXOFFSET by decide
  have hlow : ((oneOpen.openAt 0 0 ph table 0 1).fs.mem.files 0).off < 2 ^ 31 := show 0 < 2 ^ 31 by decide
  obtain ⟨hwrite, hread, hback, -⟩ := chunked_io_exact (P := .dev) hopen hp (show 1 + 1 < 2 ^ 32 by decide)
  have hr := hrange PTE_R (by simp) 0x1000 le_rfl (by decide)
  have hw := hrange PTE_W (by simp)
  have hroom : Room smallSb (oneOpen.openAt 0 0 ph table 0 1) 0 0 3 := oneOpen_room ph table (by decide)
  refine ⟨ph, table, hopen, hp, (hwrite 0x1000 3 rfl hr hmax hroom).1 (by decide), hread 0x1000 3 rfl (hw 0x1000 le_rfl (by decide)) hmax, ?_⟩
  exact hback 0 0 0x1000 3 0x1010 3 hopen hopen rfl rfl hr (hw 0x1010 (by decide) (by decide)) hmax hmax hroom hlow

/-- Writing nothing behind the end of a file leaves its size, but `inode_write_data` with no bytes extends it. When the inode has
as many references as can be counted the calls stop. -/
theorem chunked_io_differs : ∃ ph table, UserPaged ph table ∧
    (Opened smallSb (oneOpen.openAt 0 0 ph table 100 1) 0 0 0 ∧ Room smallSb (oneOpen.openAt 0 0 ph table 100 1) 0 0 0 ∧
      (∃ s', fsWrite .dev (cacheStore .dev) smallSb 0 0x1000 0 (oneOpen.openAt 0 0 ph table 100 1) = .ok (some 0, s') ∧
        (dinode smallSb (blocks s'.fs) 0).size = 0) ∧
      ∃ t, inodeWriteData .dev (cacheStore .dev) smallSb 0 100 0 0 (ofBytes (userBytes ph table 0x1000 0)) (oneOpen.openAt 0 0 ph table 100 1).fs =
        .ok (0, t) ∧ (dinode smallSb (blocks t) 0).size = 100) ∧
    Opened smallSb (oneOpen.openAt 0 0 ph table 0 (2 ^ 32 - 1)) 0 0 0 ∧
      (fsRead .dev (cacheStore .dev) smallSb 0 0x1000 0).run' (oneOpen.openAt 0 0 ph table 0 (2 ^ 32 - 1)) = .error .overflow := by
  obtain ⟨ph, table, hp, hacc, -⟩ := exists_userPaged
  have hopen : Opened smallSb (oneOpen.openAt 0 0 ph table 100 1) 0 0 0 := oneOpen_openAt ph table (by decide) (by decide) (by decide)
  have hroom : Room smallSb (oneOpen.openAt 0 0 ph table 100 1) 0 0 0 := oneOpen_room ph table (by decide)
  refine ⟨ph, table, hp, ⟨hopen, hroom, ?_, ?_⟩, oneOpen_openAt ph table (by decide) (by decide) (by decide), rfl⟩
  · obtain ⟨s', ⟨he, -, -⟩, d, hw, hwrote⟩ := hopen.writes (P := .dev) hp (show 1 + 1 < 2 ^ 32 by decide) rfl
      (show UserRange (oneOpen.openAt 0 0 ph table 100 1) PTE_R 0x1000 0 from fun q hq => by omega) (show 100 + 0 ≤ MAXOFFSET by decide) hroom
    refine ⟨s', he, ?_⟩
    rw [hw.at_.blocks_eq, (hwrote.resolve_right fun hpos => lt_irrefl _ hpos.1).2]
    exact show (dinode smallSb (blocks oneFile) 0).size = 0 by decide +kernel
  · have h₀ := hopen.working
    have hends : (inodeWriteData .dev (cacheStore .dev) smallSb 0 100 0 0 (ofBytes (userBytes ph table 0x1000 0))).Ends
        (oneOpen.openAt 0 0 ph table 100 1).fs (fun _ => False) _ :=
      inodeWriteData_ends _ (cacheStore_lawful .dev) h₀.layout (by decide) h₀.owned h₀.used h₀.holds h₀.at_ le_rfl (by decide) (.inl rfl)
        (fileNodes_isPath (by decide)) subset_rfl fun hfull => absurd hroom (not_le.mpr hfull)
    obtain ⟨r, t, het, rfl, d', hr, hone, -⟩ := hends.exists_ok
    refine ⟨t, het, ?_⟩
    have hself : dinode smallSb d' 0 = _ := hone.self
    rw [hr.blocks_eq, hself]
    exact show max (dinode smallSb (blocks oneFile) 0).size (100 + 0) = 100 by decide +kernel

end Glenda.Fs
