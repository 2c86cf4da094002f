import Glenda.Fs.Deletion
import Glenda.Fs.FileData

/-!
# The inode cache

A slot of the cache with references holds an inode as it is stored. `inode_get` gives out references, `inode_put` takes them
back and deletes an inode that has neither names nor references left.
-/

namespace Glenda.Fs
open Glenda.Lib
open FsMem (setDisk setDisk_of_ne setDisk_self setInode_of_ne setInode_self setInode_setInode)

variable {sb : SuperBlock} {d d' : Nat → Block} {m : FsMem} {k k' : Slot} {i j n : Nat} {x y : InodeDisk}

/-- Slots with references hold inodes in use as they are stored, and no inode is in two of them. -/
structure Coherent (sb : SuperBlock) (d : Nat → Block) (m : FsMem) : Prop where
  valid : ∀ k, 0 < (m.inodes k).refcnt → (m.inodes k).valid = true
  used : ∀ k, 0 < (m.inodes k).refcnt → Used sb d (m.inodes k).inodeNum
  disk : ∀ k, 0 < (m.inodes k).refcnt → (m.inodes k).disk = dinode sb d (m.inodes k).inodeNum
  unique : ∀ k k', 0 < (m.inodes k).refcnt → 0 < (m.inodes k').refcnt → (m.inodes k).inodeNum = (m.inodes k').inodeNum → k = k'

/-- The slot that `inode_get` chooses for the inode `i`: the one that holds it, or else a free one. -/
def Chosen (m : FsMem) (k : Slot) (i : Nat) : Prop :=
  (0 < (m.inodes k).refcnt ∧ (m.inodes k).inodeNum = i) ∨
    ((m.inodes k).refcnt = 0 ∧ ∀ k', 0 < (m.inodes k').refcnt → (m.inodes k').inodeNum ≠ i)

/-- The tables after a reference to the inode `i` in the slot `k` was given out. -/
def FsMem.take (m : FsMem) (k : Slot) (x : InodeDisk) (i : Nat) : FsMem :=
  m.setInode k ⟨x, true, i, (m.inodes k).refcnt + 1⟩

/-- The tables after a reference was taken back. -/
def FsMem.drop (m : FsMem) (k : Slot) : FsMem := m.setInode k { m.inodes k with refcnt := (m.inodes k).refcnt - 1 }

namespace Coherent

section

variable (h : Coherent sb d m)
include h

lemma holds (hk : 0 < (m.inodes k).refcnt) : Holds sb d m k (m.inodes k).inodeNum := ⟨rfl, h.disk k hk⟩

lemma congr (hd : ∀ k, 0 < (m.inodes k).refcnt → Used sb d' (m.inodes k).inodeNum ∧
      dinode sb d' (m.inodes k).inodeNum = dinode sb d (m.inodes k).inodeNum) : Coherent sb d' m := by
  refine ⟨h.valid, fun k hk => (hd k hk).1, fun k hk => ?_, h.unique⟩
  rw [(hd k hk).2]
  exact h.disk k hk

lemma setInode {r : Nat} (hi : Used sb d i)
    (hother : ∀ k', k' ≠ k → 0 < (m.inodes k').refcnt → (m.inodes k').inodeNum ≠ i) :
    Coherent sb d (m.setInode k ⟨dinode sb d i, true, i, r⟩) := by
  constructor
  · intro k' hk'
    by_cases he : k' = k
    · rw [he, setInode_self]
    · rw [setInode_of_ne he] at hk' ⊢
      exact h.valid k' hk'
  · intro k' hk'
    by_cases he : k' = k
    · rw [he, setInode_self]
      exact hi
    · rw [setInode_of_ne he] at hk' ⊢
      exact h.used k' hk'
  · intro k' hk'
    by_cases he : k' = k
    · rw [he, setInode_self]
    · rw [setInode_of_ne he] at hk' ⊢
      exact h.disk k' hk'
  · intro a b ha hb hab
    by_cases hea : a = k
    · by_cases heb : b = k
      · rw [hea, heb]
      · rw [hea, setInode_self, setInode_of_ne heb] at hab
        rw [setInode_of_ne heb] at hb
        exact (hother b heb hb hab.symm).elim
    · rw [setInode_of_ne hea] at ha hab
      by_cases heb : b = k
      · rw [heb, setInode_self] at hab
        exact (hother a hea ha hab).elim
      · rw [setInode_of_ne heb] at hb hab
        exact h.unique a b ha hb hab

lemma chosen_other (hk : Chosen m k i) (k' : Slot) (hne : k' ≠ k) (hk' : 0 < (m.inodes k').refcnt) :
    (m.inodes k').inodeNum ≠ i := by
  rcases hk with ⟨hpos, hnum⟩ | ⟨-, hnone⟩
  · intro he
    exact hne (h.unique k' k hk' hpos (he.trans hnum.symm))
  · exact hnone k' hk'

lemma take (hi : Used sb d i) (hk : Chosen m k i) : Coherent sb d (m.take k (dinode sb d i) i) :=
  h.setInode hi (h.chosen_other hk)

lemma release {z : Inode} (hz : z.refcnt = 0) : Coherent sb d (m.setInode k z) := by
  have hself : ∀ k', 0 < ((m.setInode k z).inodes k').refcnt → k' ≠ k := by
    rintro k' hpos rfl
    rw [setInode_self] at hpos
    omega
  constructor
  · intro k' hk'
    have hne := hself k' hk'
    rw [setInode_of_ne hne] at hk' ⊢
    exact h.valid k' hk'
  · intro k' hk'
    have hne := hself k' hk'
    rw [setInode_of_ne hne] at hk' ⊢
    exact h.used k' hk'
  · intro k' hk'
    have hne := hself k' hk'
    rw [setInode_of_ne hne] at hk' ⊢
    exact h.disk k' hk'
  · intro a b ha hb hab
    have hnea := hself a ha
    have hneb := hself b hb
    rw [setInode_of_ne hnea] at ha hab
    rw [setInode_of_ne hneb] at hb hab
    exact h.unique a b ha hb hab

lemma recount (hk : 0 < (m.inodes k).refcnt) (r : Nat) :
    Coherent sb d (m.setInode k { m.inodes k with refcnt := r }) := by
  have hslot : ({ m.inodes k with refcnt := r } : Inode) =
      ⟨dinode sb d (m.inodes k).inodeNum, true, (m.inodes k).inodeNum, r⟩ := by
    rw [← h.disk k hk, ← h.valid k hk]
  rw [hslot]
  exact h.setInode (h.used k hk) fun k' hne hpos he => hne (h.unique k' k hpos hk he)

lemma setDisk (hk : 0 < (m.inodes k).refcnt) (hused : ∀ j, Used sb d' j ↔ Used sb d j)
    (hother : ∀ j, Used sb d j → j ≠ (m.inodes k).inodeNum → dinode sb d' j = dinode sb d j) :
    Coherent sb d' (m.setDisk k (dinode sb d' (m.inodes k).inodeNum)) := by
  constructor
  · intro k' hk'
    by_cases he : k' = k
    · rw [he, setDisk_self]
      exact h.valid k hk
    · rw [setDisk_of_ne he] at hk' ⊢
      exact h.valid k' hk'
  · intro k' hk'
    by_cases he : k' = k
    · rw [he, setDisk_self]
      exact (hused _).mpr (h.used k hk)
    · rw [setDisk_of_ne he] at hk' ⊢
      exact (hused _).mpr (h.used k' hk')
  · intro k' hk'
    by_cases he : k' = k
    · rw [he, setDisk_self]
    · rw [setDisk_of_ne he] at hk' ⊢
      rw [hother _ (h.used k' hk') fun hnum => he (h.unique k' k hk' hk hnum)]
      exact h.disk k' hk'
  · have hslot : ∀ a, ((m.setDisk k (dinode sb d' (m.inodes k).inodeNum)).inodes a).refcnt = (m.inodes a).refcnt ∧
        ((m.setDisk k (dinode sb d' (m.inodes k).inodeNum)).inodes a).inodeNum = (m.inodes a).inodeNum := by
      intro a
      by_cases he : a = k
      · rw [he, setDisk_self]
        exact ⟨rfl, rfl⟩
      · rw [setDisk_of_ne he]
        exact ⟨rfl, rfl⟩
    intro a b ha hb hab
    rw [(hslot a).1] at ha
    rw [(hslot b).1] at hb
    rw [(hslot a).2, (hslot b).2] at hab
    exact h.unique a b ha hb hab

end

end Coherent

/-! ### The operations -/

section Spec

variable {σ : Type} {P : Profile} {B : BlockStore σ Block} {cap : Nat} {Rep : σ → (Nat → Block) → List (Nat × Nat) → Prop}
  {t : FsState σ} {E : Panic → Prop}

lemma inodeGet_ends (L : B.Lawful cap Rep) (lay : sb.Layout) (hc : 0 < cap) (co : Coherent sb d m) (hr : At Rep m t d [])
    (hi : i < sb.ninodes) (hmax : ∀ k, (m.inodes k).inodeNum = i → (m.inodes k).refcnt + 1 < 2 ^ 32)
    (hfull : (∀ k, 0 < (m.inodes k).refcnt) → (∀ k, (m.inodes k).inodeNum ≠ i) → E .noFreeInode) :
    (inodeGet P B sb i).Ends t E fun k t' => Chosen m k i ∧ At Rep (m.take k (dinode sb d i) i) t' d [] := by
  refine .get_bind ?_
  dsimp only
  rw [hr.1]
  cases hfind : (List.finRange N_INODE).find? fun k =>
      decide (0 < (m.inodes k).refcnt) && (m.inodes k).inodeNum == i && (m.inodes k).valid with
  | some k =>
    have hk := List.find?_some hfind
    simp only [Bool.and_eq_true, decide_eq_true_eq, beq_iff_eq] at hk
    obtain ⟨⟨hpos, hnum⟩, hvalid⟩ := hk
    dsimp only
    rw [addW_of_lt P (hmax k hnum), pure_bind]
    refine modifyMem_bind hr fun t1 hr1 => .pure ⟨.inl ⟨hpos, hnum⟩, ?_⟩
    have hslot : ({ m.inodes k with refcnt := (m.inodes k).refcnt + 1 } : Inode) =
        ⟨dinode sb d i, true, i, (m.inodes k).refcnt + 1⟩ := by
      rw [← hnum, ← co.disk k hpos, ← hvalid]
    rw [hslot] at hr1
    exact hr1
  | none =>
    have hnone : ∀ k, 0 < (m.inodes k).refcnt → (m.inodes k).inodeNum ≠ i := by
      intro k hpos hnum
      have hk := List.find?_eq_none.mp hfind k (List.mem_finRange k)
      simp [hpos, hnum, co.valid k hpos] at hk
    dsimp only
    cases hfree : (List.finRange N_INODE).find? fun k => (m.inodes k).refcnt == 0 with
    | some k =>
      have hzero : (m.inodes k).refcnt = 0 := by simpa using List.find?_some hfree
      refine modifyMem_bind hr fun t1 hr1 => ?_
      refine .bind (inodeRw_read_ends L lay hc hr1 (by rwa [setInode_self])) fun _ t2 _ hr2 => ?_
      refine modifyMem_bind hr2 fun t3 hr3 => .pure ⟨.inr ⟨hzero, hnone⟩, ?_⟩
      rw [setInode_self, setDisk_self, setInode_self] at hr3
      unfold setDisk at hr3
      rw [setInode_setInode, setInode_setInode] at hr3
      unfold FsMem.take
      rw [hzero]
      exact hr3
    | none =>
      have hused : ∀ k, 0 < (m.inodes k).refcnt := by
        intro k
        have hk := List.find?_eq_none.mp hfree k (List.mem_finRange k)
        simp at hk
        omega
      exact .throw (hfull hused fun k => hnone k (hused k))

lemma inodeDup_ends (hr : At Rep m t d []) (hmax : (m.inodes k).refcnt + 1 < 2 ^ 32) :
    (inodeDup P k : K (FsState σ) Unit).Ends t E fun _ t' =>
      At Rep (m.setInode k { m.inodes k with refcnt := (m.inodes k).refcnt + 1 }) t' d [] := by
  refine getInode_bind hr ?_
  rw [addW_of_lt P hmax, pure_bind]
  exact modifyMem_ends hr

/-- The last reference to an inode without names. -/
def LastRef (m : FsMem) (k : Slot) : Prop := (m.inodes k).refcnt = 1 ∧ (m.inodes k).disk.nlink = 0

lemma inodePut_ends (L : B.Lawful cap Rep) (lay : sb.Layout) (hc : 2 < cap) (ow : Owned sb d fun _ => False)
    (co : Coherent sb d m) (hr : At Rep m t d []) (hk : 0 < (m.inodes k).refcnt) :
    (inodePut P B sb k).Ends t E fun _ t' =>
      (¬LastRef m k ∧ At Rep (m.drop k) t' d []) ∨
      (LastRef m k ∧ ∃ y d', At Rep (m.setInode k ⟨y, false, 0, 0⟩) t' d' [] ∧ Deleted sb d d' (m.inodes k).inodeNum) := by
  refine getInode_bind hr (.panicIf_bind (fun h => by omega) fun _ => ?_)
  refine modifyMem_bind hr fun t1 hr1 => getInode_bind hr1 ?_
  rw [setInode_self]
  have hiff : ((m.inodes k).refcnt - 1 = 0 ∧ (m.inodes k).disk.nlink = 0) ↔ LastRef m k := by
    unfold LastRef
    constructor
    · rintro ⟨h, hn⟩
      exact ⟨by omega, hn⟩
    · rintro ⟨h, hn⟩
      exact ⟨by omega, hn⟩
  dsimp only
  by_cases hlast : LastRef m k
  · rw [if_pos (hiff.mpr hlast)]
    have hholds : Holds sb d (m.drop k) k (m.inodes k).inodeNum := by
      unfold FsMem.drop
      refine ⟨by rw [setInode_self], ?_⟩
      rw [setInode_self]
      exact co.disk k hk
    refine (inodeDelete_ends L lay hc ow (co.used k hk) hr1 hholds).mono fun _ t2 ⟨y, d', hr2, hdel⟩ => ?_
    rw [setInode_setInode, setInode_self] at hr2
    dsimp only at hr2
    rw [hlast.1] at hr2
    exact .inr ⟨hlast, y, d', hr2, hdel⟩
  · rw [if_neg fun h => hlast (hiff.mp h)]
    exact .pure (.inl ⟨hlast, hr1⟩)

/-- A new inode `i` with the contents `x`, and otherwise the same files. -/
structure Created (sb : SuperBlock) (d d' : Nat → Block) (i : Nat) (x : InodeDisk) : Prop where
  fresh : ¬Used sb d i
  owned : Owned sb d' fun _ => False
  used : ∀ j, Used sb d' j ↔ Used sb d j ∨ j = i
  marked : ∀ c, Marked sb d' c ↔ Marked sb d c
  self : dinode sb d' i = x
  other : ∀ j, Used sb d j → dinode sb d' j = dinode sb d j
  bytes : ∀ j o, Used sb d j → o / BLOCK_SIZE < MAXBLOCKS → fileByte sb d' j o = fileByte sb d j o

lemma created_putInode (lay : sb.Layout) (ow : Owned sb d fun _ => False) (hi : i < sb.ninodes)
    (hclear : bit (d (sb.inodeStart - 1)) i = false) (hx : x.Fits) (hindex : ∀ n, x.index n = 0) :
    Created sb d (putInode sb (Function.update d (sb.inodeStart - 1) (setBit i (d (sb.inodeStart - 1)))) i x) i x := by
  have hib := lay.ibmap
  have hin := lay.inodes
  have hlt := lay.inode_lt hi
  have hfresh : ¬Used sb d i := by
    rintro ⟨-, hbit⟩
    rw [hclear] at hbit
    cases hbit
  generalize hd1 : Function.update d (sb.inodeStart - 1) (setBit i (d (sb.inodeStart - 1))) = d1
  have hkeep : ∀ n, n ≠ sb.inodeStart - 1 → d1 n = d n := by
    intro n hn
    rw [← hd1, Function.update_of_ne hn]
  have hblock : ∀ n, sb.bmapStart < n → putInode sb d1 i x n = d n := by
    intro n hn
    rw [putInode_of_ne (by omega)]
    exact hkeep n (by omega)
  have hused : ∀ j, Used sb (putInode sb d1 i x) j ↔ Used sb d j ∨ j = i := by
    intro j
    rw [used_putInode lay]
    unfold Used
    rw [← hd1, Function.update_self, bit_setBit, Bool.or_eq_true, decide_eq_true_eq]
    constructor
    · rintro ⟨hj, rfl | hbit⟩
      · exact .inr rfl
      · exact .inl ⟨hj, hbit⟩
    · rintro (⟨hj, hbit⟩ | rfl)
      · exact ⟨hj, .inr hbit⟩
      · exact ⟨hi, .inl rfl⟩
  have hmarked : ∀ c, Marked sb (putInode sb d1 i x) c ↔ Marked sb d c := by
    intro c
    rw [marked_putInode lay hi, marked_congr (hkeep _ (by omega))]
  have hself : dinode sb (putInode sb d1 i x) i = x := by rw [dinode_putInode hx, if_pos rfl]
  have hother : ∀ j, Used sb d j → dinode sb (putInode sb d1 i x) j = dinode sb d j := by
    intro j hj
    have hne : j ≠ i := fun he => hfresh (he ▸ hj)
    have hjne : sb.inodeStart + j / IPB ≠ sb.inodeStart - 1 := by
      unfold IPB
      omega
    rw [dinode_putInode hx, if_neg hne]
    exact dinode_congr (hkeep _ hjne)
  have hptr : ∀ {j p}, Used sb d j → IsPath p → ptr sb (putInode sb d1 i x) j p = ptr sb d j p := by
    intro j p hj hp
    unfold ptr
    rw [hother j hj]
    exact pointer_congr (fun _ => rfl) (fun q hq hz => hblock _ (ow.ptr_lt hj hq.isPath hz)) hp
  have hnew : ∀ {p}, IsPath p → ptr sb (putInode sb d1 i x) i p = 0 := by
    intro p hp
    refine ptr_eq_zero (fun n => ?_) hp
    rw [hself]
    exact hindex n
  have hold : ∀ {j p}, Used sb (putInode sb d1 i x) j → IsPath p → ptr sb (putInode sb d1 i x) j p ≠ 0 → Used sb d j := by
    intro j p hj hp hz
    rcases (hused j).mp hj with hj | rfl
    · exact hj
    · exact (hz (hnew hp)).elim
  refine ⟨hfresh, ⟨?_, ?_, ?_, False.elim⟩, hused, hmarked, hself, hother, ?_⟩
  · intro j p hj hp hz
    have hj' := hold hj hp hz
    rw [hptr hj' hp] at hz ⊢
    exact (hmarked _).mpr (ow.marked hj' hp hz)
  · intro j j' p p' hj hj' hp hp' hz he
    have hu := hold hj hp hz
    have hu' := hold hj' hp' (he ▸ hz)
    rw [hptr hu hp] at hz he
    rw [hptr hu' hp'] at he
    exact ow.inj hu hu' hp hp' hz he
  · intro c hc
    rcases ow.owner ((hmarked c).mp hc) with hf | ⟨j, p, hj, hp, he⟩
    · exact hf.elim
    · exact .inr ⟨j, p, (hused j).mpr (.inl hj), hp, (hptr hj hp).trans he⟩
  · intro j o hj ho
    have hpath := leafPath_isPath ho
    unfold fileByte
    rw [hptr hj hpath]
    split_ifs with hz
    · rfl
    · rw [hblock _ (ow.ptr_lt hj hpath hz)]

/-- The contents of a new inode. -/
def InodeDisk.fresh (type_ major minor : Nat) : InodeDisk := ⟨type_, major, minor, 1, 0, fun _ => 0⟩

lemma inodeCreate_ends {type_ major minor : Nat} (L : B.Lawful cap Rep) (lay : sb.Layout) (hc : 0 < cap)
    (ow : Owned sb d fun _ => False) (co : Coherent sb d m) (hr : At Rep m t d []) (htype : type_ < 2 ^ 16)
    (hmajor : major < 2 ^ 16) (hminor : minor < 2 ^ 16) (hinodes : (∀ i < sb.ninodes, Used sb d i) → E .outOfInodes)
    (hfull : (∀ k, 0 < (m.inodes k).refcnt) → E .noFreeInode) :
    (inodeCreate P B sb type_ major minor).Ends t E fun k t' => ∃ i d', (m.inodes k).refcnt = 0 ∧
      At Rep (m.setInode k ⟨.fresh type_ major minor, true, i, 1⟩) t' d' [] ∧ Created sb d d' i (.fresh type_ major minor) := by
  have hmax := lay.ninodes
  have hib := lay.ibmap
  refine .bind (Inode.alloc_ends (fsStore_lawful L m) lay.ibmap hr (by simp) hc fun hall => hinodes fun i hi =>
    ⟨hi, hall i hi (by omega)⟩) ?_
  rintro i t1 - ⟨⟨hfirst, -⟩, hr1⟩
  have hi := hfirst.lt
  have hfresh : ¬Used sb d i := by
    rintro ⟨-, hbit⟩
    rw [hfirst.clear] at hbit
    cases hbit
  have hnone : ∀ k, 0 < (m.inodes k).refcnt → (m.inodes k).inodeNum ≠ i := fun k hk he => hfresh (he ▸ co.used k hk)
  have hkeep : ∀ j, dinode sb (Function.update d (sb.inodeStart - 1) (setBit i (d (sb.inodeStart - 1)))) j = dinode sb d j := by
    intro j
    have hne : sb.inodeStart + j / IPB ≠ sb.inodeStart - 1 := by
      unfold IPB
      omega
    exact dinode_congr (Function.update_of_ne hne _ _)
  have co1 : Coherent sb (Function.update d (sb.inodeStart - 1) (setBit i (d (sb.inodeStart - 1)))) m := by
    refine co.congr fun k hk => ⟨⟨(co.used k hk).1, ?_⟩, hkeep _⟩
    rw [Function.update_self, bit_setBit, (co.used k hk).2, Bool.or_true]
  have hget : (inodeGet P B sb i).Ends t1 E fun k t' => Chosen m k i ∧
      At Rep (m.take k (dinode sb d i) i) t' (Function.update d (sb.inodeStart - 1) (setBit i (d (sb.inodeStart - 1)))) [] := by
    rw [← hkeep i]
    refine inodeGet_ends L lay hc co1 hr1 hi (fun k hnum => ?_) fun hused _ => hfull hused
    have hzero : (m.inodes k).refcnt = 0 := by
      by_contra hpos
      exact hnone k (by omega) hnum
    rw [hzero]
    decide
  refine .bind hget ?_
  rintro k t2 - ⟨hk, hr2⟩
  have hzero : (m.inodes k).refcnt = 0 := by
    rcases hk with ⟨hpos, hnum⟩ | ⟨hz, -⟩
    · exact (hnone k hpos hnum).elim
    · exact hz
  refine modifyMem_bind hr2 fun t3 hr3 => ?_
  have hslot : (m.take k (dinode sb d i) i).setDisk k ⟨type_, major, minor, 1, 0, fun _ => 0⟩ =
      m.setInode k ⟨.fresh type_ major minor, true, i, 1⟩ := by
    unfold FsMem.take setDisk
    rw [setInode_self, setInode_setInode, hzero]
    rfl
  rw [hslot] at hr3
  refine .bind (inodeRw_write_ends L lay hc hr3 (by rwa [setInode_self])) fun _ t4 _ hr4 => .pure ?_
  rw [setInode_self] at hr4
  refine ⟨i, _, hzero, hr4, created_putInode lay ow hi hfirst.clear ?_ fun _ => rfl⟩
  exact ⟨htype, hmajor, hminor, show 1 < 2 ^ 16 by decide, Nat.two_pow_pos 32, fun _ => Nat.two_pow_pos 32, fun _ _ => rfl⟩

end Spec

end Glenda.Fs
