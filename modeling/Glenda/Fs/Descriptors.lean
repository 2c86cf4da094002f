import Glenda.Fs.Syscalls

/-!
# Calls on a descriptor

A file in the file table keeps its inode in a slot of the inode cache. A call takes one more reference to it, works on the data
and puts the reference back, so that only the inode of the file and its offset change.
-/

namespace Glenda.Fs
open Glenda.Lib Glenda.Mem

section Rules

variable {σ α β : Type} {s : Sys σ} {E : Panic → Prop} {Q : α → FsState σ → Prop} {R : β → Sys σ → Prop} {g : α → K (Sys σ) β}

lemma onFs_bind {x : K (FsState σ) α} (hx : x.Ends s.fs E Q)
    (hg : ∀ a t, Q a t → (g a).Ends { s with fs := t } E R) : (onFs x >>= g).Ends s E R := by
  refine .bind hx.focus ?_
  rintro a s' - ⟨t, rfl, hQ⟩
  exact hg a t hQ

lemma onFs_getFile {f : FileId} {g : File → K (Sys σ) β} (hg : (g (s.fs.mem.files f)).Ends s E R) :
    (onFs (getFile f) >>= g).Ends s E R := ⟨hg.error, hg.ok⟩

lemma getProc_bind {g : FsProc → K (Sys σ) β} (hg : (g s.proc).Ends s E R) : (getProc >>= g).Ends s E R := ⟨hg.error, hg.ok⟩

lemma onUser_bind {x : K Phys α} (hE : ∀ e, E e)
    (hg : ∀ a ph, (g a).Ends { s with ph := ph } E R) : (onUser x >>= g).Ends s E R := by
  have hx : x.Ends s.ph E fun _ _ => True := ⟨fun e _ => hE e, fun _ _ _ => trivial⟩
  refine .bind hx.focus ?_
  rintro a s' - ⟨ph, rfl, -⟩
  exact hg a ph

lemma onUser_of_ok {x : K Phys α} {a : α} {ph : Phys} (hx : x s.ph = .ok (a, ph))
    (hg : (g a).Ends { s with ph := ph } E R) : (onUser x >>= g).Ends s E R := .bind_of_ok (K.focus_of_ok hx) hg

lemma allocFd_ends (f : FileId) : (allocFd f).Ends s E fun r s' =>
    (∃ fd : Fd, r = some fd.val ∧ s.proc.openFiles fd = none ∧ s' = { s with proc := s.proc.setFd fd (some f) }) ∨
      r = none ∧ s' = s ∧ ∀ fd, s.proc.openFiles fd ≠ none := by
  refine getProc_bind ?_
  cases hfind : (List.finRange NOFILE).find? fun fd => (s.proc.openFiles fd).isNone with
  | none =>
    refine .pure (.inr ⟨rfl, rfl, fun fd hfd => ?_⟩)
    have hnot := List.find?_eq_none.mp hfind fd (List.mem_finRange fd)
    rw [hfd] at hnot
    exact hnot rfl
  | some fd =>
    have hnone := List.find?_some (p := fun fd => (s.proc.openFiles fd).isNone) hfind
    exact .modify_bind (.pure (.inl ⟨fd, rfl, Option.isNone_iff_eq_none.mp hnone, rfl⟩))

end Rules

lemma FsProc.file_setFd (p : FsProc) (fd : Fd) (f : Option FileId) : (p.setFd fd f).file fd = f := by
  unfold FsProc.file FsProc.setFd
  rw [dif_pos fd.isLt]
  exact Function.update_self ..

namespace FsMem

variable {m : FsMem} {k : Slot} {f : FileId} {x : InodeDisk} {o : Nat}

def recount (m : FsMem) (k : Slot) (r : Nat) : FsMem := m.setInode k { m.inodes k with refcnt := r }

lemma recount_self (m : FsMem) (k : Slot) (r : Nat) : (m.recount k r).inodes k = { m.inodes k with refcnt := r } :=
  setInode_self _ _ _

@[simp] lemma setOff_inodes (m : FsMem) (f : FileId) (o : Nat) : (m.setOff f o).inodes = m.inodes := rfl

lemma setOff_self (m : FsMem) (f : FileId) (o : Nat) : (m.setOff f o).files f = { m.files f with off := o } :=
  Function.update_self _ _ _

lemma setOff_of_ne {f' : FileId} (h : f' ≠ f) : (m.setOff f o).files f' = m.files f' := Function.update_of_ne h _ _

lemma setOff_setOff (m : FsMem) (f : FileId) (o o' : Nat) : (m.setOff f o).setOff f o' = m.setOff f o' := by
  simp only [setOff, setFile, Function.update_self, Function.update_idem]

lemma setOff_eq_self (m : FsMem) (f : FileId) : m.setOff f (m.files f).off = m := by
  unfold setOff setFile
  rw [Function.update_eq_self]

lemma setDisk_setOff (m : FsMem) (k : Slot) (x : InodeDisk) (f : FileId) (o : Nat) :
    (m.setOff f o).setDisk k x = (m.setDisk k x).setOff f o := rfl

/-- The tables with a reference taken, the inode stored and the reference put back. -/
lemma recount_put (m : FsMem) (k : Slot) (r : Nat) (x : InodeDisk) (f : FileId) (o : Nat) :
    (((m.recount k r).setDisk k x).setOff f o).recount k (m.inodes k).refcnt = (m.setDisk k x).setOff f o := by
  unfold recount setDisk setOff setFile setInode
  simp only [Function.update_self, Function.update_idem]

end FsMem

variable {P : Profile} {sb : SuperBlock} {s s' : Sys BufState} {t : FsState BufState} {m : FsMem} {d d' : Nat → Block} {f : FileId}
  {k : Slot} {fd o : Nat} {E : Panic → Prop}

/-- A descriptor of a file whose inode is in the slot `k`, between two calls. -/
structure Opened (sb : SuperBlock) (s : Sys BufState) (fd : Nat) (f : FileId) (k : Slot) : Prop where
  fd : s.proc.file fd = some f
  mounted : Mounted sb s.fs
  held : 0 < (s.fs.mem.inodes k).refcnt
  bound : (s.fs.mem.inodes k).refcnt < 2 ^ 32
  inum : (s.fs.mem.inodes k).inodeNum = (s.fs.mem.files f).inum
  off : (s.fs.mem.files f).off < 2 ^ 32

/-- The tables are `m`, but for the inode in the slot `k`, which is as it is stored in `d`, and for the offset of the file `f`. -/
structure Working (sb : SuperBlock) (m : FsMem) (f : FileId) (k : Slot) (t : FsState BufState) (d : Nat → Block) (o : Nat) :
    Prop where
  layout : sb.Layout
  owned : Owned sb d fun _ => False
  used : Used sb d (m.inodes k).inodeNum
  at_ : At Stored ((m.setDisk k (dinode sb d (m.inodes k).inodeNum)).setOff f o) t d []
  off : o < 2 ^ 32

lemma Working.holds (_ : Working sb m f k t d o) :
    Holds sb d ((m.setDisk k (dinode sb d (m.inodes k).inodeNum)).setOff f o) k (m.inodes k).inodeNum :=
  let hd : Holds sb d (m.setDisk k (dinode sb d (m.inodes k).inodeNum)) k (m.inodes k).inodeNum := Holds.setDisk rfl d
  ⟨hd.num, hd.disk⟩

lemma Working.setOff (h : Working sb m f k t d o) {o' : Nat} (ho : o' < 2 ^ 32) :
    (modifyMem (·.setOff f o') : K (FsState BufState) Unit).Ends t E fun _ t' => Working sb m f k t' d o' := by
  refine (modifyMem_ends h.at_).mono fun _ t' hr => ⟨h.layout, h.owned, h.used, ?_, ho⟩
  rwa [FsMem.setOff_setOff] at hr

lemma Working.file (h : Working sb m f k t d o) : t.mem.files f = { m.files f with off := o } := by
  rw [h.at_.1]
  exact FsMem.setOff_self _ f o

lemma Working.file_off (h : Working sb m f k t d o) : (t.mem.files f).off = o := by rw [h.file]

lemma Working.refcnt (h : Working sb m f k t d o) : (t.mem.inodes k).refcnt = (m.inodes k).refcnt := by
  rw [h.at_.1, FsMem.setOff_inodes, FsMem.setDisk_self]

lemma Opened.working (h : Opened sb s fd f k) : Working sb s.fs.mem f k s.fs (blocks s.fs) (s.fs.mem.files f).off := by
  refine ⟨h.mounted.layout, h.mounted.owned, h.mounted.coherent.used k h.held, ?_, h.off⟩
  rw [FsMem.setDisk_eq_self (h.mounted.coherent.disk k h.held), FsMem.setOff_eq_self]
  exact h.mounted.at_

lemma Opened.after (h : Opened sb s fd f k) (hw : Working sb s.fs.mem f k s'.fs d o)
    (he : Edits sb (blocks s.fs) d (s.fs.mem.inodes k).inodeNum) (hproc : s'.proc = s.proc) : Opened sb s' fd f k := by
  have hmem := hw.at_.1
  have hco := h.mounted.coherent.setDisk h.held he.used he.other
  have hslot : s'.fs.mem.inodes k = { s.fs.mem.inodes k with disk := dinode sb d (s.fs.mem.inodes k).inodeNum } := by
    rw [hmem, FsMem.setOff_inodes, FsMem.setDisk_self]
  refine ⟨by rw [hproc, h.fd], ?_, ?_, ?_, ?_, ?_⟩
  · have hrests : Rests Stored sb s'.fs d ((s.fs.mem.setDisk k (dinode sb d (s.fs.mem.inodes k).inodeNum)).setOff f o) :=
      ⟨⟨hw.layout, hw.owned, hco.valid, hco.used, hco.disk, hco.unique⟩, hw.at_⟩
    exact hrests.mounted
  · rw [hslot]
    exact h.held
  · rw [hslot]
    exact h.bound
  · rw [hslot, hw.file]
    exact h.inum
  · rw [hw.file_off]
    exact hw.off

/-! ### Taking a reference and putting it back -/

/-- A further reference to an inode in a slot. When the counter is full it stops, or wraps to zero. -/
lemma inodeGet_held (co : Coherent sb d m) (hr : At Stored m t d []) (hk : 0 < (m.inodes k).refcnt)
    (hbound : (m.inodes k).refcnt < 2 ^ 32) (hmax : (m.inodes k).refcnt + 1 < 2 ^ 32 ∨ ∀ e, E e) :
    (inodeGet P (cacheStore P) sb (m.inodes k).inodeNum).Ends t E fun a t' => a = k ∧ ∃ r, At Stored (m.recount k r) t' d [] ∧
      (r = (m.inodes k).refcnt + 1 ∧ r < 2 ^ 32 ∨ r = 0 ∧ ∀ e, E e) := by
  refine .get_bind ?_
  dsimp only
  rw [hr.1]
  cases hfind : (List.finRange N_INODE).find? fun a =>
      decide (0 < (m.inodes a).refcnt) && (m.inodes a).inodeNum == (m.inodes k).inodeNum && (m.inodes a).valid with
  | none =>
    have hnot := List.find?_eq_none.mp hfind k (List.mem_finRange k)
    simp [hk, co.valid k hk] at hnot
  | some a =>
    have ha := List.find?_some hfind
    simp only [Bool.and_eq_true, decide_eq_true_eq, beq_iff_eq] at ha
    obtain rfl : a = k := co.unique a k ha.1.1 hk ha.1.2
    dsimp only
    by_cases hlt : (m.inodes a).refcnt + 1 < 2 ^ 32
    · rw [addW_of_lt P hlt, pure_bind]
      exact modifyMem_bind hr fun t1 hr1 => .pure ⟨rfl, _, hr1, .inl ⟨rfl, hlt⟩⟩
    · have hE := hmax.resolve_left hlt
      have hfull : (m.inodes a).refcnt + 1 = 2 ^ 32 := by omega
      cases P with
      | dev =>
        rw [addW_dev hfull.ge]
        exact .throw (hE _)
      | release =>
        rw [addW_release, hfull, pure_bind]
        exact modifyMem_bind hr fun t1 hr1 => .pure ⟨rfl, _, hr1, .inr ⟨Nat.mod_self _, hE⟩⟩

lemma inodePut_held {r : Nat} (hw : Working sb (m.recount k r) f k t d o) (hk : 0 < (m.inodes k).refcnt)
    (hr : r = (m.inodes k).refcnt + 1 ∧ r < 2 ^ 32 ∨ r = 0 ∧ ∀ e, E e) :
    (inodePut P (cacheStore P) sb k).Ends t E fun _ t' => (m.inodes k).refcnt + 1 < 2 ^ 32 ∧ Working sb m f k t' d o := by
  have hnum : ((m.recount k r).inodes k).inodeNum = (m.inodes k).inodeNum := by rw [FsMem.recount_self]
  have hcount : ((((m.recount k r).setDisk k (dinode sb d ((m.recount k r).inodes k).inodeNum)).setOff f o).inodes k).refcnt = r := by
    rw [FsMem.setOff_inodes, FsMem.setDisk_self, FsMem.recount_self]
  refine getInode_bind hw.at_ ?_
  rw [hcount]
  rcases hr with ⟨hr, hlt⟩ | ⟨hr, hE⟩
  · refine .panicIf_bind (fun h => by omega) fun _ => modifyMem_bind hw.at_ fun t1 hr1 => getInode_bind hr1 ?_
    rw [FsMem.setInode_self]
    dsimp only
    rw [hcount, if_neg (by omega)]
    refine .pure ⟨hr ▸ hlt, hw.layout, hw.owned, hnum ▸ hw.used, ?_, hw.off⟩
    have hback : r - 1 = (m.inodes k).refcnt := by omega
    have hput := FsMem.recount_put m k r (dinode sb d (m.inodes k).inodeNum) f o
    rw [hnum] at hr1 hcount
    rw [hcount, hback] at hr1
    rwa [← hput]
  · exact .panicIf_bind (fun _ => hE _) fun h => absurd hr h


section Calls

variable {α β : Type} {R : β → Sys BufState → Prop} {Q : α → Sys BufState → (Nat → Block) → Nat → Prop}

lemma Opened.bracket {x : Slot → K (Sys BufState) α} {g : α → K (Sys BufState) β} (h : Opened sb s fd f k)
    (hmax : (s.fs.mem.inodes k).refcnt + 1 < 2 ^ 32 ∨ ∀ e, E e)
    (hx : ∀ r t, Working sb (s.fs.mem.recount k r) f k t (blocks s.fs) (s.fs.mem.files f).off →
      (x k).Ends { s with fs := t } E fun a s' => ∃ d o, Working sb (s.fs.mem.recount k r) f k s'.fs d o ∧ Q a s' d o)
    (hg : ∀ a s' t d o, Q a s' d o → Working sb s.fs.mem f k t d o → (s.fs.mem.inodes k).refcnt + 1 < 2 ^ 32 →
      (g a).Ends { s' with fs := t } E R) :
    (onFs (inodeGet P (cacheStore P) sb (s.fs.mem.files f).inum) >>= fun k => x k >>= fun a =>
      onFs (inodePut P (cacheStore P) sb k) >>= fun _ => g a).Ends s E R := by
  have hget := inodeGet_held (P := P) h.mounted.coherent h.mounted.at_ h.held h.bound hmax
  rw [h.inum] at hget
  refine onFs_bind hget ?_
  rintro a t ⟨rfl, r, hr, hcase⟩
  have hself := FsMem.recount_self s.fs.mem a r
  have hw : Working sb (s.fs.mem.recount a r) f a t (blocks s.fs) (s.fs.mem.files f).off := by
    refine ⟨h.mounted.layout, h.mounted.owned, ?_, ?_, h.off⟩
    · rw [hself]
      exact h.mounted.coherent.used a h.held
    · rw [FsMem.setDisk_eq_self (by rw [hself]; exact h.mounted.coherent.disk a h.held)]
      exact (FsMem.setOff_eq_self (s.fs.mem.recount a r) f).symm ▸ hr
  refine .bind (hx r t hw) ?_
  rintro b s' - ⟨d, o, hw', hQ⟩
  exact onFs_bind (inodePut_held hw' h.held hcase) fun _ t' hw'' => hg b s' t' d o hQ hw''.2 hw''.1

end Calls

/-! ### The loops -/

lemma readChunks_keeps {uDst len fuel total : Nat} {buf : Block} (hw : Working sb m f k s.fs d o) :
    (readChunks P (cacheStore P) sb f k uDst len fuel total buf).Ends s (fun _ => True) fun _ s' =>
      ∃ o', Working sb m f k s'.fs d o' ∧ s'.proc = s.proc := by
  induction fuel generalizing s o total buf with
  | zero => exact .throw trivial
  | succ fuel ih =>
    unfold readChunks
    split_ifs with hlt
    · refine onFs_getFile (onFs_bind ((inodeReadData_keeps (cacheStore_lawful P) hw.layout (by decide) hw.owned hw.used hw.holds
        hw.at_ ?_).imp fun _ _ => trivial) fun r t hr => ?_)
      · rw [hw.file_off]
        exact hw.off
      · have hw1 : Working sb m f k t d o := ⟨hw.layout, hw.owned, hw.used, hr, hw.off⟩
        obtain ⟨read, buf'⟩ := r
        dsimp only
        by_cases hzero : read = 0
        · rw [if_pos hzero]
          exact .pure ⟨o, hw1, rfl⟩
        · rw [if_neg hzero]
          refine addW_bind P _ _ trivial fun dst _ => getProc_bind (onUser_bind (fun _ => trivial) fun r ph => ?_)
          cases r with
          | error e => exact .pure ⟨o, hw1, rfl⟩
          | ok u =>
            refine addW_bind P _ _ trivial fun total' _ => addW_bind P _ _ trivial fun off' hoff' => ?_
            refine onFs_bind (hw1.setOff hoff') fun _ t2 hw2 => ?_
            split_ifs with hshort
            · exact .pure ⟨off', hw2, rfl⟩
            · exact ih hw2
    · exact .pure ⟨o, hw, rfl⟩

lemma writeChunks_keeps {uSrc len fuel total : Nat} (hw : Working sb m f k s.fs d o) :
    (writeChunks P (cacheStore P) sb f k uSrc len fuel total).Ends s (fun _ => True) fun _ s' =>
      ∃ d' o', Working sb m f k s'.fs d' o' ∧ Edits sb d d' (m.inodes k).inodeNum ∧ s'.proc = s.proc := by
  induction fuel generalizing s o d total with
  | zero => exact .throw trivial
  | succ fuel ih =>
    have hrefl := Edits.refl hw.owned (m.inodes k).inodeNum
    unfold writeChunks
    split_ifs with hlt
    · refine addW_bind P _ _ trivial fun src _ => getProc_bind (onUser_bind (fun _ => trivial) fun r ph => ?_)
      cases r with
      | error e => exact .pure ⟨d, o, hw, hrefl, rfl⟩
      | ok bs =>
        refine onFs_getFile (onFs_bind ((inodeWriteData_keeps (cacheStore_lawful P) hw.layout (by decide) hw.owned hw.used hw.holds
          hw.at_ ?_).imp fun _ _ => trivial) fun written t hr => ?_)
        · rw [hw.file_off]
          exact hw.off
        · obtain ⟨d1, hr, he⟩ := hr
          have hw1 : Working sb m f k t d1 o := by
            refine ⟨hw.layout, he.owned, (he.used _).mpr hw.used, ?_, hw.off⟩
            rwa [FsMem.setDisk_setOff, FsMem.setDisk_setDisk] at hr
          refine addW_bind P _ _ trivial fun total' _ => addW_bind P _ _ trivial fun off' hoff' => ?_
          refine onFs_bind (hw1.setOff hoff') fun _ t2 hw2 => ?_
          split_ifs with hshort
          · exact .pure ⟨d1, off', hw2, he, rfl⟩
          · refine (ih hw2).mono ?_
            rintro r s' ⟨d', o', hw', he', hproc⟩
            exact ⟨d', o', hw', he.trans he', hproc⟩
    · exact .pure ⟨d, o, hw, hrefl, rfl⟩

lemma fsRead_keeps {uDst len : Nat} (h : Opened sb s fd f k) :
    (fsRead P (cacheStore P) sb fd uDst len).Ends s (fun _ => True) fun _ s' => Opened sb s' fd f k := by
  refine getProc_bind ?_
  rw [h.fd]
  refine onFs_getFile ?_
  split_ifs with hread
  · exact .pure h
  · refine h.bracket (.inr fun _ => trivial) (Q := fun _ s' d _ => d = blocks s.fs ∧ s'.proc = s.proc) (fun r t hw => ?_) ?_
    · refine (readChunks_keeps (s := { s with fs := t }) hw).mono ?_
      rintro a s' ⟨o', hw', hproc⟩
      exact ⟨_, o', hw', rfl, hproc⟩
    · rintro a s' t d o ⟨rfl, hproc⟩ hw -
      exact .pure (h.after hw (.refl h.mounted.owned _) hproc)

lemma fsWrite_keeps {uSrc len : Nat} (h : Opened sb s fd f k) :
    (fsWrite P (cacheStore P) sb fd uSrc len).Ends s (fun _ => True) fun _ s' => Opened sb s' fd f k := by
  refine getProc_bind ?_
  rw [h.fd]
  refine onFs_getFile ?_
  split_ifs with hwrite
  · exact .pure h
  · refine h.bracket (.inr fun _ => trivial)
      (Q := fun _ s' d _ => Edits sb (blocks s.fs) d (s.fs.mem.inodes k).inodeNum ∧ s'.proc = s.proc) (fun r t hw => ?_) ?_
    · refine (writeChunks_keeps (s := { s with fs := t }) hw).mono ?_
      rintro a s' ⟨d', o', hw', he, hproc⟩
      rw [FsMem.recount_self] at he
      exact ⟨d', o', hw', he, hproc⟩
    · rintro a s' t d o ⟨he, hproc⟩ hw -
      exact .pure (h.after hw he hproc)

/-! ### A process with a descriptor -/

/-- The process has the file of `oneFile` open, and one page of memory. -/
def oneOpen : Sys BufState where
  fs := { oneFile with mem := oneFile.mem.setFile 0 ⟨.inode, true, true, 0, 0, 1⟩ }
  proc := ⟨fun fd => if fd = 0 then some 0 else none, ROOT_INODE, 5⟩
  ph := Uvm.twoPages 9

lemma oneOpen_opened : Opened smallSb oneOpen 0 0 0 := by
  refine ⟨rfl, ?_, by decide, by decide, by decide, by decide⟩
  have hco := oneFile_mounted.coherent
  exact ⟨⟨smallSb_layout, oneFile_mounted.owned, hco.valid, hco.used, hco.disk, hco.unique⟩, rfl, oneFile_mounted.at_.2⟩

end Glenda.Fs
