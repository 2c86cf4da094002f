import Glenda.Fs.Pointers

/-!
# Finding and adding blocks

`locate_or_add_block` finds the block number at the path of a block of the file. When it adds blocks, each of them gets its
place right after its allocation, and all files read as before.
-/

namespace Glenda.Fs
open Glenda.Lib

section State

variable {σ α : Type} {P : Profile} {B : BlockStore σ Block} {cap : Nat} {Rep : σ → (Nat → Block) → List (Nat × Nat) → Prop}
  {m : FsMem} {t : FsState σ} {d : Nat → Block} {H : List (Nat × Nat)} {E : Panic → Prop} {R : α → FsState σ → Prop} {k : Slot}

/-- The state has the tables `m`, the blocks `d` and the handles `H`. -/
abbrev At (Rep : σ → (Nat → Block) → List (Nat × Nat) → Prop) (m : FsMem) :
    FsState σ → (Nat → Block) → List (Nat × Nat) → Prop := BlockStore.Within FsState.store FsState.mem Rep m

lemma fsStore_lawful (L : B.Lawful cap Rep) (m : FsMem) : (fsStore B).Lawful cap (At Rep m) := by
  unfold fsStore At
  apply L.lift
  · exact fun _ _ => rfl
  · exact fun _ => rfl
  · exact fun _ _ => rfl

lemma getInode_bind {f : Inode → K (FsState σ) α} (hr : At Rep m t d H) (hf : (f (m.inodes k)).Ends t E R) :
    (getInode k >>= f).Ends t E R := by
  rw [← hr.1] at hf
  exact ⟨hf.error, hf.ok⟩

lemma modifyMem_bind {g : FsMem → FsMem} {f : PUnit → K (FsState σ) α} (hr : At Rep m t d H)
    (hf : ∀ t', At Rep (g m) t' d H → (f ⟨⟩).Ends t' E R) : (modifyMem g >>= f).Ends t E R := by
  refine .modify_bind (hf _ ⟨?_, hr.2⟩)
  change g t.mem = g m
  rw [hr.1]

lemma modifyMem_ends {g : FsMem → FsMem} (hr : At Rep m t d H) :
    (modifyMem g : K (FsState σ) Unit).Ends t E fun _ t' => At Rep (g m) t' d H := by
  refine .of_ok rfl ⟨?_, hr.2⟩
  change g t.mem = g m
  rw [hr.1]

end State

/-! ### The tables -/

namespace FsMem

variable {m : FsMem} {k k' : Slot} {x y : InodeDisk}

@[simp] lemma setInode_self (m : FsMem) (k : Slot) (x : Inode) : (m.setInode k x).inodes k = x := Function.update_self _ _ _

lemma setInode_of_ne {x : Inode} (h : k' ≠ k) : (m.setInode k x).inodes k' = m.inodes k' := Function.update_of_ne h _ _

@[simp] lemma setInode_files (m : FsMem) (k : Slot) (x : Inode) : (m.setInode k x).files = m.files := rfl

@[simp] lemma setInode_setInode (m : FsMem) (k : Slot) (x y : Inode) : (m.setInode k x).setInode k y = m.setInode k y := by
  unfold setInode
  rw [Function.update_idem]

@[simp] lemma setDisk_self (m : FsMem) (k : Slot) (x : InodeDisk) :
    (m.setDisk k x).inodes k = { m.inodes k with disk := x } := setInode_self _ _ _

@[simp] lemma setDisk_files (m : FsMem) (k : Slot) (x : InodeDisk) : (m.setDisk k x).files = m.files := rfl

lemma setDisk_of_ne (h : k' ≠ k) : (m.setDisk k x).inodes k' = m.inodes k' := setInode_of_ne h

@[simp] lemma setDisk_setDisk (m : FsMem) (k : Slot) (x y : InodeDisk) : (m.setDisk k x).setDisk k y = m.setDisk k y := by
  unfold setDisk
  rw [setInode_setInode, setInode_self]

lemma setDisk_eq_self (h : (m.inodes k).disk = x) : m.setDisk k x = m := by
  unfold setDisk setInode
  rw [← h]
  exact congrArg (fun f => { m with inodes := f }) (Function.update_eq_self k m.inodes)

end FsMem

/-- The slot `k` holds the inode `i` as it is stored. -/
structure Holds (sb : SuperBlock) (d : Nat → Block) (m : FsMem) (k : Slot) (i : Nat) : Prop where
  num : (m.inodes k).inodeNum = i
  disk : (m.inodes k).disk = dinode sb d i

section Spec

variable {σ α : Type} {P : Profile} {B : BlockStore σ Block} {cap : Nat} {Rep : σ → (Nat → Block) → List (Nat × Nat) → Prop}
  {sb : SuperBlock} {m : FsMem} {t : FsState σ} {d d' : Nat → Block} {E : Panic → Prop} {k : Slot} {i idx j lbn n : Nat}
  {grow : Bool} {p : List Nat} {N : Finset (List Nat)}

lemma Holds.setDisk_eq (h : Holds sb d m k i) : m.setDisk k (dinode sb d i) = m := FsMem.setDisk_eq_self h.disk

lemma Holds.setDisk (h : (m.inodes k).inodeNum = i) (d' : Nat → Block) : Holds sb d' (m.setDisk k (dinode sb d' i)) k i :=
  ⟨by rw [FsMem.setDisk_self, h], by rw [FsMem.setDisk_self]⟩

lemma SuperBlock.Layout.inode_block (lay : sb.Layout) (hi : i < sb.ninodes) :
    (addW P 32 sb.inodeStart (i / IPB) : K σ Nat) = pure (sb.inodeStart + i / IPB) := by
  have hlt := lay.inode_lt hi
  have hfit := lay.fit
  unfold SuperBlock.BlocksFit at hfit
  exact addW_of_lt P (by omega)

section

variable (L : B.Lawful cap Rep) (lay : sb.Layout) (hc : 0 < cap) (hr : At Rep m t d []) (hi : (m.inodes k).inodeNum < sb.ninodes)
include L lay hc hr hi

lemma inodeRw_write_ends : (inodeRw P B sb k true).Ends t E fun _ t' =>
      At Rep m t' (putInode sb d (m.inodes k).inodeNum (m.inodes k).disk) [] := by
  have L' := fsStore_lawful L m
  refine getInode_bind hr ?_
  rw [lay.inode_block hi, pure_bind]
  refine L'.read_bind hr (by simp) hc fun b t1 hr1 => ?_
  rw [if_pos rfl]
  exact L'.store_bind hr1 List.mem_cons_self fun t2 hr2 => L'.release_ends hr2

lemma inodeRw_read_ends : (inodeRw P B sb k false).Ends t E fun _ t' =>
      At Rep (m.setDisk k (dinode sb d (m.inodes k).inodeNum)) t' d [] := by
  have L' := fsStore_lawful L m
  refine getInode_bind hr ?_
  rw [lay.inode_block hi, pure_bind]
  refine L'.read_bind hr (by simp) hc fun b t1 hr1 => ?_
  rw [if_neg (by decide)]
  refine L'.load_bind hr1 List.mem_cons_self (modifyMem_bind hr1 fun t2 hr2 => ?_)
  exact (fsStore_lawful L _).release_ends hr2

end

/-! ### A place for a block -/

/-- The result `o` is the block number at the path `p`, which is there if the file may grow. -/
structure Located (sb : SuperBlock) (d d' : Nat → Block) (i : Nat) (p : List Nat) (grow : Bool) (N : Finset (List Nat))
    (o : Option Nat) : Prop where
  owned : Owned sb d' fun _ => False
  grows : Grows sb d d' i
  result : o = if ptr sb d' i p = 0 then none else some (ptr sb d' i p)
  grown : grow = true → ptr sb d' i p ≠ 0
  same : grow = false → d' = d
  budget : Budget sb d d' i N

lemma Located.here (ow : Owned sb d fun _ => False) (grow : Bool) (N : Finset (List Nat)) (h : grow = true → ptr sb d i p ≠ 0) :
    Located sb d d i p grow N (if ptr sb d i p = 0 then none else some (ptr sb d i p)) :=
  ⟨ow, .refl sb d i, rfl, h, fun _ => rfl, .refl sb d i N⟩

lemma Located.added {d1 : Nat → Block} {b : Nat} (ow : Owned sb d1 (· = b)) (hi : Used sb d i) (hp : IsPath p) (hN : ∀ q ∈ N, IsPath q)
    (hmem : p ∈ N) (hzero : ptr sb d i p = 0) (hsame : ∀ {q}, IsPath q → ptr sb d1 i q = ptr sb d i q) (hgrow : Grows sb d d1 i)
    (hlink : Relink sb d1 d' i p b) (hstep : Grows sb d1 d' i) (hfree : freeBlocks sb d ≤ freeBlocks sb d' + 1) :
    Located sb d d' i p true N (some b) := by
  have hi1 := (hgrow.used i).mpr hi
  have hb : b ≠ 0 := ((ow.loose rfl).1).ne_zero
  have hptr : ptr sb d' i p = b := by rw [hlink.ptr hi1 hp, if_pos ⟨rfl, rfl⟩]
  have hnew : ptr sb d' i p ≠ 0 := by rwa [hptr]
  have hother : ∀ q ∈ N, q ≠ p → ptr sb d' i q = ptr sb d i q := by
    intro q hq hne
    rw [hlink.ptr hi1 (hN q hq), if_neg fun h => hne h.2, hsame (hN q hq)]
  refine ⟨hlink.owned ow hi1 hp ((hsame hp).trans hzero), hgrow.trans hstep, ?_, fun _ => hnew, (fun h => by cases h),
    .of_link hmem hzero hnew hother hfree⟩
  rw [hptr, if_neg hb]

lemma alloc_loose (L : B.Lawful cap Rep) (lay : sb.Layout) {H : List (Nat × Nat)} (hr : At Rep m t d H) (hH : ∀ x ∈ H, Marked sb d x.2) (hc : H.length < cap)
    (hfull : freeBlocks sb d < 1 → E .outOfBlocks) :
    (Bitmap.alloc P (fsStore B) sb).Ends t E fun b t' => ∃ k < sb.nblocks, b = sb.bmapStart + 1 + k ∧
      bit (d sb.bmapStart) k = false ∧ At Rep m t' (putBlock sb d k) H := by
  have hends := Bitmap.alloc_ends (P := P) (E := E) (fsStore_lawful L m) lay.fit hr (fun x hx => ?_) (fun x hx k _ hclear he => ?_) hc
    (fun hall => hfull (by rw [freeBlocks_eq_zero lay hall]; decide))
  · refine hends.mono ?_
    rintro b t' ⟨k, rfl, ⟨hfirst, _⟩, hr'⟩
    exact ⟨k, hfirst.lt, rfl, hfirst.clear, hr'⟩
  · have hlt := (hH x hx).lt
    omega
  · have hm := hH x hx
    rw [he] at hm
    exact not_marked_of_clear hclear hm

lemma directEntry_ends (L : B.Lawful cap Rep) (lay : sb.Layout) (hc : 0 < cap) (ow : Owned sb d fun _ => False)
    (hi : Used sb d i) (hr : At Rep m t d []) (hk : Holds sb d m k i) (hidx : idx < INODE_INDEX_3) (hne : idx ≠ 11)
    (hN : ∀ q ∈ N, IsPath q) (hsub : nodes [idx] ⊆ N) (hfull : grow = true → freeBlocks sb d < (lacking sb d i N).card → E .outOfBlocks) :
    (directEntry P B sb k idx grow).Ends t E fun o t' => ∃ d', At Rep (m.setDisk k (dinode sb d' i)) t' d' [] ∧
      Located sb d d' i [idx] grow N o := by
  have hptr : (m.inodes k).disk.index idx = ptr sb d i [idx] := by
    rw [hk.disk]
    rfl
  have hhere : At Rep (m.setDisk k (dinode sb d i)) t d [] := by rwa [hk.setDisk_eq]
  refine getInode_bind hr ?_
  rw [hptr]
  by_cases hz : ptr sb d i [idx] = 0
  · rw [if_pos hz]
    cases grow with
    | false =>
      refine .pure ⟨d, hhere, ?_⟩
      have hloc := Located.here (i := i) (p := [idx]) ow false N (fun h => by cases h)
      rwa [if_pos hz] at hloc
    | true =>
      have hmem := hsub (self_mem_nodes idx [])
      refine .bind (alloc_loose L lay hr (by simp) hc fun hlt => hfull rfl (hlt.trans_le (card_lacking_pos hmem hz))) ?_
      rintro b t1 - ⟨n, hn, rfl, hclear, hr1⟩
      have ow1 := ow.putBlock lay hn hclear
      have hi1 : Used sb (putBlock sb d n) i := (used_putBlock lay).mpr hi
      have hd1 := dinode_putBlock (d := d) (k := n) lay hi.1
      have hz1 : ptr sb (putBlock sb d n) i [idx] = 0 := (ptr_putBlock lay ow hclear hi (.top hidx hne)).trans hz
      have hbm := (ow1.loose rfl).1
      have hlink := relink_inode lay ow1 hi1 hidx (putBlock_self sb d n) hz1
      have hfits := (dinode_fits sb (putBlock sb d n) i).setIndex hidx (hbm.lt_max lay)
      have hlt := lay.inode_lt hi.1
      refine modifyMem_bind hr1 fun t2 hr2 => ?_
      have hnum : ((m.setDisk k ((m.inodes k).disk.setIndex idx (sb.bmapStart + 1 + n))).inodes k).inodeNum = i := by
        rw [FsMem.setDisk_self, hk.num]
      refine .bind (inodeRw_write_ends L lay hc hr2 (by rw [hnum]; exact hi.1)) fun _ t3 _ hr3 => .pure ?_
      rw [hnum, FsMem.setDisk_self, hk.disk, ← hd1] at hr3
      refine ⟨_, ?_, Located.added ow1 hi (.top hidx hne) hN hmem hz (ptr_putBlock lay ow hclear hi)
        (grows_putBlock lay ow hclear hi) hlink ?_ ?_⟩
      · rwa [dinode_putInode hfits, if_pos rfl]
      · refine ⟨hlink.used, fun j _ hji => ?_, ?_, fun j off hj hoff => ?_, hlink.kept hz1⟩
        · rw [dinode_putInode hfits, if_neg hji]
        · rw [dinode_putInode hfits, if_pos rfl]
          rfl
        · refine hlink.bytes hz1 ?_ (fun j q hj hq _ hne => ?_) hj hoff
          · rw [putInode_of_ne (by omega), putBlock_self]
          · have hq := ow1.ptr_lt hj hq hne
            exact putInode_of_ne (by omega)
      · have hput := freeBlocks_putBlock hn hclear
        rw [freeBlocks_congr (putInode_of_ne (by omega))]
        omega
  · rw [if_neg hz]
    refine .pure ⟨d, hhere, ?_⟩
    have hloc := Located.here (i := i) (p := [idx]) ow grow N fun _ => hz
    rwa [if_neg hz] at hloc

lemma indirectEntry_ends (L : B.Lawful cap Rep) (lay : sb.Layout) (hc : 1 < cap) (ow : Owned sb d fun _ => False)
    (hi : Used sb d i) (hr : At Rep m t d []) (hk : Holds sb d m k i) (hp : IsInner p) (hj : j < NINDIRECT)
    (hne : ptr sb d i p ≠ 0) (hN : ∀ q ∈ N, IsPath q) (hsub : nodes (j :: p) ⊆ N)
    (hfull : grow = true → freeBlocks sb d < (lacking sb d i N).card → E .outOfBlocks) :
    (indirectEntry P B sb (ptr sb d i p) j grow).Ends t E fun o t' => ∃ d', At Rep (m.setDisk k (dinode sb d' i)) t' d' [] ∧
      Located sb d d' i (j :: p) grow N o := by
  have L' := fsStore_lawful L m
  have hptr : entry (d (ptr sb d i p)) j = ptr sb d i (j :: p) := by rw [ptr_cons hp, child_of_ne hne]
  have hpath := hp.cons hj
  have hrm := ow.marked hi hp.isPath hne
  refine L'.read_bind hr (by simp) (Nat.zero_lt_of_lt hc) fun b t1 hr1 => L'.load_bind hr1 List.mem_cons_self ?_
  rw [hptr]
  by_cases hz : ptr sb d i (j :: p) = 0
  · rw [if_pos hz]
    cases grow with
    | false =>
      refine L'.release_bind hr1 fun t2 hr2 => .pure ⟨d, by rwa [hk.setDisk_eq], ?_⟩
      have hloc := Located.here (i := i) (p := j :: p) ow false N (fun h => by cases h)
      rwa [if_pos hz] at hloc
    | true =>
      have hmem := hsub (self_mem_nodes j p)
      refine .bind (alloc_loose L lay hr1 (by simpa using hrm) (by simpa using hc) fun hlt =>
        hfull rfl (hlt.trans_le (card_lacking_pos hmem hz))) ?_
      rintro c t2 - ⟨n, hn, rfl, hclear, hr2⟩
      have ow1 := ow.putBlock lay hn hclear
      have hi1 : Used sb (putBlock sb d n) i := (used_putBlock lay).mpr hi
      have hr0 := ptr_putBlock lay ow hclear hi hp.isPath
      have hz1 : ptr sb (putBlock sb d n) i (j :: p) = 0 := (ptr_putBlock lay ow hclear hi hpath).trans hz
      have hne1 : ptr sb (putBlock sb d n) i p ≠ 0 := by rwa [hr0]
      have hzero : entry (putBlock sb d n (ptr sb (putBlock sb d n) i p)) j = 0 := by
        rw [← hz1, ptr_cons hp, child_of_ne hne1]
      have hlink := relink_entry lay ow1 hi1 hp (putBlock_self sb d n) hne1 hzero
      have hrlt := hrm.lt
      refine L'.store_bind hr2 List.mem_cons_self fun t3 hr3 => L'.release_bind hr3 fun t4 hr4 => .pure ?_
      have hsame : ∀ x, x ≠ ptr sb d i p →
          putEntry (putBlock sb d n) (ptr sb (putBlock sb d n) i p) j (sb.bmapStart + 1 + n) x = putBlock sb d n x := by
        intro x hx
        rw [hr0]
        exact Function.update_of_ne hx _ _
      have hd : ∀ x, x < sb.ninodes → dinode sb (putEntry (putBlock sb d n) (ptr sb (putBlock sb d n) i p) j
          (sb.bmapStart + 1 + n)) x = dinode sb (putBlock sb d n) x := by
        intro x hx
        have hlt := lay.inode_lt hx
        exact dinode_congr (hsame _ (by omega))
      refine ⟨_, ?_, Located.added ow1 hi hpath hN hmem hz (ptr_putBlock lay ow hclear hi) (grows_putBlock lay ow hclear hi)
        hlink ?_ ?_⟩
      · rw [hd i hi.1, dinode_putBlock lay hi.1, hk.setDisk_eq, hr0]
        exact hr4
      · refine ⟨hlink.used, fun x hx _ => hd x hx.1, by rw [hd i hi.1], fun x off hx hoff => ?_, hlink.kept hz1⟩
        refine hlink.bytes hz1 ?_ (fun y q hy hq hin hney => hsame _ fun he => ?_) hx hoff
        · rw [hsame _ fun he => ow.ptr_ne hclear hi hp.isPath hne he.symm, putBlock_self]
        · -- an index block is not at the place of a block of data
          have hpq := (ow1.inj hy hi1 hq hp.isPath hney (he.trans hr0.symm)).2
          exact hin (hpq ▸ hp)
      · have hput := freeBlocks_putBlock hn hclear
        rw [freeBlocks_congr (hsame _ (by omega))]
        omega
  · rw [if_neg hz]
    refine L'.release_bind hr1 fun t2 hr2 => .pure ⟨d, by rwa [hk.setDisk_eq], ?_⟩
    have hloc := Located.here (i := i) (p := j :: p) ow grow N fun _ => hz
    rwa [if_neg hz] at hloc

lemma thenEntry_assoc (x : K (FsState σ) (Option Nat)) (f g : Nat → K (FsState σ) (Option Nat)) :
    (thenEntry x fun r => thenEntry (f r) g) = thenEntry (thenEntry x f) g := by
  unfold thenEntry
  rw [bind_assoc]
  congr 1
  funext o
  cases o with
  | none => rfl
  | some r => rfl

lemma thenEntry_ends {x : K (FsState σ) (Option Nat)} (L : B.Lawful cap Rep) (lay : sb.Layout) (hc : 1 < cap)
    (hi : Used sb d i) (hnum : (m.inodes k).inodeNum = i) (hp : IsInner p) (hj : j < NINDIRECT) (hN : ∀ q ∈ N, IsPath q)
    (hsub : nodes (j :: p) ⊆ N) (hfull : grow = true → freeBlocks sb d < (lacking sb d i N).card → E .outOfBlocks)
    (hx : x.Ends t E fun o t' => ∃ d', At Rep (m.setDisk k (dinode sb d' i)) t' d' [] ∧ Located sb d d' i p grow N o) :
    (thenEntry x fun r => indirectEntry P B sb r j grow).Ends t E fun o t' => ∃ d',
      At Rep (m.setDisk k (dinode sb d' i)) t' d' [] ∧ Located sb d d' i (j :: p) grow N o := by
  refine .bind hx ?_
  rintro o t1 - ⟨d1, hr1, hloc⟩
  have hi1 := (hloc.grows.used i).mpr hi
  rw [hloc.result]
  by_cases hz : ptr sb d1 i p = 0
  · rw [if_pos hz]
    have hno : ¬grow = true := fun h => hloc.grown h hz
    refine .pure ⟨d1, hr1, hloc.owned, hloc.grows, ?_, fun h => (hno h).elim, hloc.same, hloc.budget⟩
    rw [ptr_cons hp, hz, child_zero, if_pos rfl]
  · rw [if_neg hz]
    have hnext : (indirectEntry P B sb (ptr sb d1 i p) j grow).Ends t1 E _ :=
      indirectEntry_ends L lay hc hloc.owned hi1 hr1 (Holds.setDisk hnum d1) hp hj hz hN hsub fun hg hlt =>
        hfull hg (hloc.budget.room hlt)
    refine hnext.mono ?_
    rintro o' t2 ⟨d2, hr2, hloc2⟩
    rw [FsMem.setDisk_setDisk] at hr2
    exact ⟨d2, hr2, hloc2.owned, hloc.grows.trans hloc2.grows, hloc2.result, hloc2.grown,
      fun hg => (hloc2.same hg).trans (hloc.same hg), hloc.budget.trans hloc2.budget⟩

/-- The block and the index blocks above it are added where they are lacking. -/
theorem locateOrAddBlock_ends (L : B.Lawful cap Rep) (lay : sb.Layout) (hc : 1 < cap) (ow : Owned sb d fun _ => False)
    (hi : Used sb d i) (hr : At Rep m t d []) (hk : Holds sb d m k i) (hlbn : lbn < MAXBLOCKS) (hN : ∀ q ∈ N, IsPath q)
    (hsub : nodes (leafPath lbn) ⊆ N) (hfull : grow = true → freeBlocks sb d < (lacking sb d i N).card → E .outOfBlocks) :
    (locateOrAddBlock P B sb k lbn grow).Ends t E fun o t' => ∃ d', At Rep (m.setDisk k (dinode sb d' i)) t' d' [] ∧
      Located sb d d' i (leafPath lbn) grow N o := by
  have hdirect : ∀ idx < INODE_INDEX_3, idx ≠ 11 → nodes [idx] ⊆ N → (directEntry P B sb k idx grow).Ends t E fun o t' => ∃ d',
      At Rep (m.setDisk k (dinode sb d' i)) t' d' [] ∧ Located sb d d' i [idx] grow N o := fun idx hidx hne hin =>
    directEntry_ends L lay (Nat.zero_lt_of_lt hc) ow hi hr hk hidx hne hN hin hfull
  unfold locateOrAddBlock
  unfold leafPath at hsub ⊢
  split_ifs at hsub ⊢ with hdir hind
  · refine hdirect lbn (hdir.trans (by decide)) ?_ hsub
    unfold INODE_INDEX_1 at hdir
    omega
  · have hin := (nodes_cons_subset _ _).trans hsub
    exact thenEntry_ends L lay hc hi hk.num .single hind hN hsub hfull (hdirect INODE_INDEX_1 (by decide) (by decide) hin)
  · have hdbl : lbn - INODE_INDEX_1 - NINDIRECT < NINDIRECT * NINDIRECT := by
      unfold MAXBLOCKS at hlbn
      omega
    have hmid : (lbn - INODE_INDEX_1 - NINDIRECT) / NINDIRECT < NINDIRECT := Nat.div_lt_of_lt_mul hdbl
    have hlast : (lbn - INODE_INDEX_1 - NINDIRECT) % NINDIRECT < NINDIRECT := Nat.mod_lt _ (by decide)
    have hin := (nodes_cons_subset _ _).trans hsub
    have hfirst := thenEntry_ends (P := P) L lay hc hi hk.num .double hmid hN hin hfull
      (hdirect INODE_INDEX_2 (by decide) (by decide) ((nodes_cons_subset _ _).trans hin))
    dsimp only
    rw [if_pos hdbl, thenEntry_assoc]
    exact thenEntry_ends L lay hc hi hk.num (.middle hmid) hlast hN hsub hfull hfirst

end Spec

end Glenda.Fs
