import Glenda.Fs.InodeTable

/-!
# References to inodes

Between two operations a slot with references is determined by the number of its inode, since it holds the inode as it is stored.
The operations are stated here for the blocks, and for the references that are held in addition to those of a table.
-/

namespace Glenda.Fs
open Glenda.Lib

variable {sb : SuperBlock} {d d' : Nat → Block} {m m' m₁ m₂ : FsMem} {k k' : Slot} {i j n : Nat} {x : InodeDisk}
  {held held' : List Slot}

/-- The file system on the disk is well-formed, and the inode cache agrees with it. -/
structure Tidy (sb : SuperBlock) (d : Nat → Block) (m : FsMem) : Prop where
  layout : sb.Layout
  owned : Owned sb d fun _ => False
  coherent : Coherent sb d m

/-- The tables `m'` are `m` with the further references `held`, up to slots that are not in use. -/
structure Refd (m m' : FsMem) (held : List Slot) : Prop where
  refcnt : ∀ k, (m'.inodes k).refcnt = (m.inodes k).refcnt + held.count k
  num : ∀ k, 0 < (m.inodes k).refcnt → (m'.inodes k).inodeNum = (m.inodes k).inodeNum
  files : m'.files = m.files

/-- Every slot can count `n` more references. -/
def Spare (n : Nat) (m : FsMem) : Prop := ∀ k, (m.inodes k).refcnt + n < 2 ^ 32

namespace Refd

lemma refl (m : FsMem) : Refd m m [] := ⟨fun _ => rfl, fun _ _ => rfl, rfl⟩

lemma count_cons_eq (held : List Slot) (k a : Slot) : (k :: held).count a = held.count a + [k].count a := by
  rw [List.count_cons, List.count_singleton]

lemma cons (h : Refd m m₁ held) (h' : Refd m₁ m₂ [k]) : Refd m m₂ (k :: held) := by
  refine ⟨fun a => ?_, fun a ha => ?_, h'.files.trans h.files⟩
  · rw [h'.refcnt a, h.refcnt a, count_cons_eq held, Nat.add_assoc]
  · have hpos : 0 < (m₁.inodes a).refcnt := by
      rw [h.refcnt a]
      omega
    rw [h'.num a hpos, h.num a ha]

lemma put (h : Refd m m₁ (k :: held)) (h' : Refd m₂ m₁ [k]) : Refd m m₂ held := by
  have hcount : ∀ a, (m₂.inodes a).refcnt = (m.inodes a).refcnt + held.count a := by
    intro a
    have hnew := h.refcnt a
    rw [h'.refcnt a, count_cons_eq held] at hnew
    omega
  refine ⟨hcount, fun a ha => ?_, h'.files.symm.trans h.files⟩
  have hpos : 0 < (m₂.inodes a).refcnt := by
    rw [hcount a]
    omega
  rw [← h'.num a hpos, h.num a ha]

lemma trans (h : Refd m m₁ held) (h' : Refd m₁ m₂ []) : Refd m m₂ held := by
  refine ⟨fun a => ?_, fun a ha => ?_, h'.files.trans h.files⟩
  · rw [h'.refcnt a, h.refcnt a, List.count_nil, Nat.add_zero]
  · rw [h'.num a (by rw [h.refcnt a]; omega), h.num a ha]

lemma perm (h : Refd m m' held) (hp : held.Perm held') : Refd m m' held' :=
  ⟨fun a => by rw [h.refcnt a, hp.count_eq], h.num, h.files⟩

lemma pos (h : Refd m m' held) (hk : k ∈ held) : 0 < (m'.inodes k).refcnt := by
  rw [h.refcnt k]
  have hcount := List.count_pos_iff.mpr hk
  omega

lemma spare (h : Refd m m' held) (hs : Spare (n + held.length) m) : Spare n m' := by
  intro a
  have hle := List.count_le_length (a := a) (l := held)
  have hmax := hs a
  rw [h.refcnt a]
  omega

lemma setDisk (m : FsMem) (k : Slot) (x : InodeDisk) : Refd m (m.setDisk k x) [] := by
  have hslot : ∀ a, ((m.setDisk k x).inodes a).refcnt = (m.inodes a).refcnt ∧
      ((m.setDisk k x).inodes a).inodeNum = (m.inodes a).inodeNum := by
    intro a
    by_cases he : a = k
    · rw [he, FsMem.setDisk_self]
      exact ⟨rfl, rfl⟩
    · rw [FsMem.setDisk_of_ne he]
      exact ⟨rfl, rfl⟩
  exact ⟨fun a => (hslot a).1, fun a _ => (hslot a).2, rfl⟩

lemma setInode {y : Inode} (hy : y.refcnt = (m.inodes k).refcnt + 1)
    (hnum : 0 < (m.inodes k).refcnt → y.inodeNum = (m.inodes k).inodeNum) : Refd m (m.setInode k y) [k] := by
  refine ⟨fun a => ?_, fun a ha => ?_, rfl⟩
  · by_cases he : a = k
    · rw [he, FsMem.setInode_self, hy, List.count_singleton_self]
    · rw [FsMem.setInode_of_ne he, List.count_singleton, if_neg (by simpa using Ne.symm he), Nat.add_zero]
  · by_cases he : a = k
    · rw [he, FsMem.setInode_self]
      exact hnum (he ▸ ha)
    · rw [FsMem.setInode_of_ne he]

lemma unsetInode {y : Inode} (hy : (m.inodes k).refcnt = y.refcnt + 1)
    (hnum : 0 < y.refcnt → (m.inodes k).inodeNum = y.inodeNum) : Refd (m.setInode k y) m [k] := by
  refine ⟨fun a => ?_, fun a ha => ?_, rfl⟩
  · by_cases he : a = k
    · rw [he, FsMem.setInode_self, hy, List.count_singleton_self]
    · rw [FsMem.setInode_of_ne he, List.count_singleton, if_neg (by simpa using Ne.symm he), Nat.add_zero]
  · by_cases he : a = k
    · rw [he, FsMem.setInode_self] at ha ⊢
      exact hnum ha
    · rw [FsMem.setInode_of_ne he]

end Refd

section Model

variable {σ : Type} (P : Profile) (B : BlockStore σ Block) (sb : SuperBlock)

/-- A caller changes fields of an inode and stores it, as `fs_open`, `fs_mkdir`, `fs_link` and `fs_unlink` do. -/
def updateInode (k : Slot) (f : InodeDisk → InodeDisk) : K (FsState σ) Unit := do
  modifyMem fun m => m.setDisk k (f (m.inodes k).disk)
  inodeRw P B sb k true

end Model

section Spec

variable {σ : Type} {P : Profile} {B : BlockStore σ Block} {cap : Nat} {Rep : σ → (Nat → Block) → List (Nat × Nat) → Prop}
  {t : FsState σ} {E : Panic → Prop}

/-- The state after an operation: its blocks and tables are tidy. -/
structure Rests (Rep : σ → (Nat → Block) → List (Nat × Nat) → Prop) (sb : SuperBlock) (t : FsState σ) (d : Nat → Block)
    (m : FsMem) : Prop extends Tidy sb d m where
  at_ : At Rep m t d []

lemma inodeGet_refd (L : B.Lawful cap Rep) (hc : 0 < cap) (h : Rests Rep sb t d m) (hi : Used sb d i) (hmax : Spare 1 m)
    (hfull : (∀ k, 0 < (m.inodes k).refcnt) → (∀ k, (m.inodes k).inodeNum ≠ i) → E .noFreeInode) :
    (inodeGet P B sb i).Ends t E fun k t' => ∃ m', Rests Rep sb t' d m' ∧ Refd m m' [k] ∧ (m'.inodes k).inodeNum = i := by
  refine (inodeGet_ends L h.layout hc h.coherent h.at_ hi.1 (fun k _ => hmax k) hfull).mono fun k t' ⟨hk, hr⟩ => ?_
  refine ⟨_, ⟨⟨h.layout, h.owned, h.coherent.take hi hk⟩, hr⟩, Refd.setInode rfl fun hpos => ?_, ?_⟩
  · rcases hk with ⟨-, hnum⟩ | ⟨hz, -⟩
    · exact hnum.symm
    · omega
  · unfold FsMem.take
    rw [FsMem.setInode_self]

lemma inodeDup_refd (h : Rests Rep sb t d m) (hk : 0 < (m.inodes k).refcnt) (hmax : Spare 1 m) :
    (inodeDup P k : K (FsState σ) Unit).Ends t E fun _ t' => ∃ m', Rests Rep sb t' d m' ∧ Refd m m' [k] :=
  (inodeDup_ends h.at_ (hmax k)).mono fun _ _ hr =>
    ⟨_, ⟨⟨h.layout, h.owned, h.coherent.recount hk _⟩, hr⟩, Refd.setInode rfl fun _ => rfl⟩

lemma inodePut_refd (L : B.Lawful cap Rep) (hc : 2 < cap) (h : Rests Rep sb t d m) (hk : 0 < (m.inodes k).refcnt) :
    (inodePut P B sb k).Ends t E fun _ t' => ∃ d' m', Rests Rep sb t' d' m' ∧ Refd m' m [k] ∧
      (¬LastRef m k ∧ d' = d ∨ LastRef m k ∧ Deleted sb d d' (m.inodes k).inodeNum) := by
  refine (inodePut_ends L h.layout hc h.owned h.coherent h.at_ hk).mono fun _ t' hend => ?_
  rcases hend with ⟨hlast, hr⟩ | ⟨hlast, y, d', hr, hdel⟩
  · refine ⟨d, _, ⟨⟨h.layout, h.owned, h.coherent.recount hk _⟩, hr⟩, Refd.unsetInode ?_ fun _ => rfl, .inl ⟨hlast, rfl⟩⟩
    change _ = (m.inodes k).refcnt - 1 + 1
    omega
  · have hco : Coherent sb d' (m.setInode k ⟨y, false, 0, 0⟩) := by
      refine (h.coherent.release rfl).congr fun a ha => ?_
      have hne : a ≠ k := by
        rintro rfl
        rw [FsMem.setInode_self] at ha
        exact Nat.lt_irrefl 0 ha
      rw [FsMem.setInode_of_ne hne] at ha ⊢
      have hnum : (m.inodes a).inodeNum ≠ (m.inodes k).inodeNum := fun he => hne (h.coherent.unique a k ha hk he)
      exact ⟨(hdel.used _).mpr ⟨h.coherent.used a ha, hnum⟩, hdel.other _ (h.coherent.used a ha) hnum⟩
    exact ⟨d', _, ⟨⟨h.layout, hdel.owned, hco⟩, hr⟩, Refd.unsetInode hlast.1 (fun hz => by cases hz), .inr ⟨hlast, hdel⟩⟩

/-- The inode `i` has a name, or a reference among those of `m`. -/
def Anchored (sb : SuperBlock) (d : Nat → Block) (m : FsMem) (i : Nat) : Prop :=
  (dinode sb d i).nlink ≠ 0 ∨ ∃ k, 0 < (m.inodes k).refcnt ∧ (m.inodes k).inodeNum = i

lemma Anchored.not_lastRef (hi : Anchored sb d m (m'.inodes k).inodeNum) (co : Coherent sb d m') (h : Refd m m' held)
    (hk : k ∈ held) : ¬LastRef m' k := by
  rintro ⟨hone, hlink⟩
  have hpos := h.pos hk
  rcases hi with hname | ⟨a, ha, hnum⟩
  · exact hname (co.disk k hpos ▸ hlink)
  · have hpos' : 0 < (m'.inodes a).refcnt := by
      rw [h.refcnt a]
      omega
    obtain rfl : a = k := co.unique a k hpos' hpos (by rw [h.num a ha, hnum])
    have hcount := List.count_pos_iff.mpr hk
    have hsum := h.refcnt a
    omega

lemma inodePut_anchored (L : B.Lawful cap Rep) (hc : 2 < cap) (h : Rests Rep sb t d m') (hk : Refd m m' (k :: held))
    (hi : Anchored sb d m (m'.inodes k).inodeNum) : (inodePut P B sb k).Ends t E fun _ t' =>
      ∃ m₂, Rests Rep sb t' d m₂ ∧ Refd m m₂ held ∧ ∀ a ∈ held, (m₂.inodes a).inodeNum = (m'.inodes a).inodeNum := by
  refine (inodePut_refd L hc h (hk.pos List.mem_cons_self)).mono ?_
  rintro - t' ⟨d', m₂, h2, hput, ⟨-, rfl⟩ | ⟨hlast, -⟩⟩
  · have hheld := hk.put hput
    exact ⟨m₂, h2, hheld, fun a ha => (hput.num a (hheld.pos ha)).symm⟩
  · exact (hi.not_lastRef h.coherent hk List.mem_cons_self hlast).elim

lemma inodeCreate_refd {type_ major minor : Nat} (L : B.Lawful cap Rep) (hc : 0 < cap) (h : Rests Rep sb t d m)
    (htype : type_ < 2 ^ 16) (hmajor : major < 2 ^ 16) (hminor : minor < 2 ^ 16)
    (hinodes : (∀ i < sb.ninodes, Used sb d i) → E .outOfInodes) (hfull : (∀ k, 0 < (m.inodes k).refcnt) → E .noFreeInode) :
    (inodeCreate P B sb type_ major minor).Ends t E fun k t' => ∃ i d' m', Rests Rep sb t' d' m' ∧ Refd m m' [k] ∧
      (m.inodes k).refcnt = 0 ∧ (m'.inodes k).inodeNum = i ∧ Created sb d d' i (.fresh type_ major minor) := by
  refine (inodeCreate_ends L h.layout hc h.owned h.coherent h.at_ htype hmajor hminor hinodes hfull).mono ?_
  rintro k t' ⟨i, d', hzero, hr, hnew⟩
  have hco : Coherent sb d' (m.setInode k ⟨.fresh type_ major minor, true, i, 1⟩) := by
    rw [← hnew.self]
    refine (h.coherent.congr fun a ha => ?_).setInode ((hnew.used i).mpr (.inr rfl)) fun a _ ha he => ?_
    · have hused := h.coherent.used a ha
      exact ⟨(hnew.used _).mpr (.inl hused), hnew.other _ hused⟩
    · exact hnew.fresh (he ▸ h.coherent.used a ha)
  refine ⟨i, d', _, ⟨⟨h.layout, hnew.owned, hco⟩, hr⟩, Refd.setInode (by rw [hzero]) (fun hpos => by omega), hzero, ?_, hnew⟩
  rw [FsMem.setInode_self]

lemma Rests.setDisk (h : Rests Rep sb t d m) {t' : FsState σ} (hk : 0 < (m.inodes k).refcnt) (ow : Owned sb d' fun _ => False)
    (hused : ∀ j, Used sb d' j ↔ Used sb d j)
    (hother : ∀ j, Used sb d j → j ≠ (m.inodes k).inodeNum → dinode sb d' j = dinode sb d j)
    (hr : At Rep (m.setDisk k (dinode sb d' (m.inodes k).inodeNum)) t' d' []) :
    Rests Rep sb t' d' (m.setDisk k (dinode sb d' (m.inodes k).inodeNum)) :=
  ⟨⟨h.layout, ow, h.coherent.setDisk hk hused hother⟩, hr⟩

lemma inodeWriteData_edits {off len srcLen : Nat} {src : Block} (L : B.Lawful cap Rep) (hc : 1 < cap) (h : Rests Rep sb t d m)
    (hk : 0 < (m.inodes k).refcnt) (hoff : off < 2 ^ 32) :
    (inodeWriteData P B sb k off len srcLen src).Ends t DataPanic fun _ t' => ∃ d' m', Rests Rep sb t' d' m' ∧ Refd m m' [] ∧
      Edits sb d d' (m.inodes k).inodeNum := by
  refine (inodeWriteData_keeps L h.layout hc h.owned (h.coherent.used k hk) (h.coherent.holds hk) h.at_ hoff).mono ?_
  rintro n t' ⟨d', hr, he⟩
  exact ⟨d', _, h.setDisk hk he.owned he.used he.other hr, Refd.setDisk _ _ _, he⟩

lemma inodeWriteData_wrote {off len srcLen : Nat} {N : Finset (List Nat)} (src : Block) (L : B.Lawful cap Rep) (hc : 1 < cap) (h : Rests Rep sb t d m)
    (hk : 0 < (m.inodes k).refcnt) (hsrc : len ≤ srcLen) (hoff : off < 2 ^ 32) (hmax : len = 0 ∨ off + len ≤ MAXOFFSET)
    (hN : ∀ q ∈ N, IsPath q) (hsub : fileNodes off (off + len) ⊆ N)
    (hfull : freeBlocks sb d < (lacking sb d (m.inodes k).inodeNum N).card → E .outOfBlocks) :
    (inodeWriteData P B sb k off len srcLen src).Ends t E fun n t' => n = len ∧ ∃ d' m', Rests Rep sb t' d' m' ∧ Refd m m' [] ∧
      WroteData sb d d' (m.inodes k).inodeNum off len src ∧ Budget sb d d' (m.inodes k).inodeNum N := by
  refine (inodeWriteData_ends src L h.layout hc h.owned (h.coherent.used k hk) (h.coherent.holds hk) h.at_ hsrc hoff hmax hN hsub
    hfull).mono ?_
  rintro n t' ⟨hn, d', hr, hw, hbud⟩
  exact ⟨hn, d', _, h.setDisk hk hw.owned hw.used hw.other hr, Refd.setDisk _ _ _, hw, hbud⟩

lemma updateInode_ends (L : B.Lawful cap Rep) (hc : 0 < cap) (h : Rests Rep sb t d m) (hk : 0 < (m.inodes k).refcnt)
    {f : InodeDisk → InodeDisk} (hf : ∀ y, y.Fits → (f y).Fits) (hindex : ∀ y, (f y).index = y.index) :
    (updateInode P B sb k f).Ends t E fun _ t' => ∃ d' m', Rests Rep sb t' d' m' ∧ Refd m m' [] ∧
      Restored sb d d' (m.inodes k).inodeNum (f (dinode sb d (m.inodes k).inodeNum)) := by
  have hi := h.coherent.used k hk
  have hre := restored_putInode h.layout h.owned hi (hf _ (dinode_fits sb d _)) (hindex _)
  refine modifyMem_bind h.at_ fun t1 hr1 => (inodeRw_write_ends L h.layout hc hr1 ?_).mono fun _ t2 hr2 => ?_
  · rw [FsMem.setDisk_self]
    exact hi.1
  · rw [FsMem.setDisk_self, h.coherent.disk k hk] at hr2
    refine ⟨_, _, h.setDisk hk hre.owned hre.used (fun j _ hne => hre.other j hne) ?_, Refd.setDisk m k _, hre⟩
    rwa [hre.self]

end Spec

end Glenda.Fs
