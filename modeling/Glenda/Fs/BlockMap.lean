import Glenda.Fs.InodeRuns

/-!
# The block map of an inode

`locate_or_add_block` maps the blocks of a file to blocks of the device. What it has mapped once stays mapped while inodes grow.
-/

namespace Glenda.Fs
open Glenda.Lib

variable {P : Profile} {sb : SuperBlock} {t t' t₁ t₂ t₃ : FsState BufState} {d d' : Nat → Block} {k k' : Slot} {i off off' b : Nat}
  {grow grow' : Bool} {E : Panic → Prop}

/-! ### One call -/

lemma Located.edits {p : List Nat} {N : Finset (List Nat)} {o : Option Nat} (h : Located sb d d' i p grow N o) : Edits sb d d' i := by
  refine ⟨h.owned, h.grows.used, h.grows.other, ?_, fun j o hj _ ho => h.grows.bytes j o hj ho, h.grows.kept⟩
  rw [h.grows.self]

/-- What the growth of inodes leaves as it was. -/
structure Grown (sb : SuperBlock) (t t' : FsState BufState) : Prop where
  mounted : Mounted sb t'
  refcnt : ∀ k, (t'.mem.inodes k).refcnt = (t.mem.inodes k).refcnt
  inodeNum : ∀ k, (t'.mem.inodes k).inodeNum = (t.mem.inodes k).inodeNum
  used : ∀ j, Used sb (blocks t') j ↔ Used sb (blocks t) j
  kept : Kept sb (blocks t) (blocks t')

lemma Grown.refl (h : Mounted sb t) : Grown sb t t :=
  ⟨h, fun _ => rfl, fun _ => rfl, fun _ => Iff.rfl, fun _ _ _ _ _ => rfl⟩

lemma Grown.trans (h : Grown sb t₁ t₂) (h' : Grown sb t₂ t₃) : Grown sb t₁ t₃ := by
  constructor
  · exact h'.mounted
  · exact fun k => (h'.refcnt k).trans (h.refcnt k)
  · exact fun k => (h'.inodeNum k).trans (h.inodeNum k)
  · exact fun j => (h'.used j).trans (h.used j)
  · exact h.kept.trans h.used h'.kept

lemma Edits.grown (he : Edits sb (blocks t) d (t.mem.inodes k).inodeNum) (h : Mounted sb t) (hk : 0 < (t.mem.inodes k).refcnt)
    (hr : At Stored (t.mem.setDisk k (dinode sb d (t.mem.inodes k).inodeNum)) t' d []) : Grown sb t t' := by
  have hblocks := hr.blocks_eq
  have hslot : ∀ a, (t'.mem.inodes a).refcnt = (t.mem.inodes a).refcnt ∧ (t'.mem.inodes a).inodeNum = (t.mem.inodes a).inodeNum := by
    intro a
    rw [hr.1]
    by_cases ha : a = k
    · rw [ha, FsMem.setDisk_self]
      exact ⟨rfl, rfl⟩
    · rw [FsMem.setDisk_of_ne ha]
      exact ⟨rfl, rfl⟩
  refine ⟨(h.setDisk hk he.owned he.used he.other hr).mounted, fun a => (hslot a).1, fun a => (hslot a).2, ?_, ?_⟩
  · rw [hblocks]
    exact he.used
  · rw [hblocks]
    exact he.kept

/-- The block of the device that a block of a file is mapped to. -/
def mapped (sb : SuperBlock) (d : Nat → Block) (i lbn : Nat) : Option Nat :=
  if ptr sb d i (leafPath lbn) = 0 then none else some (ptr sb d i (leafPath lbn))

lemma mapped_eq_some {lbn : Nat} : mapped sb d i lbn = some b ↔ ptr sb d i (leafPath lbn) = b ∧ b ≠ 0 := by
  unfold mapped
  split_ifs with hz
  · exact iff_of_false nofun fun hb => hb.2 (hb.1.symm.trans hz)
  · rw [Option.some_inj]
    exact ⟨fun he => ⟨he, fun hb => hz (he.trans hb)⟩, fun hb => hb.1⟩

/-- There are blocks for all that is missing on the way to a block of the file. -/
def CanMap (sb : SuperBlock) (d : Nat → Block) (i lbn : Nat) : Prop :=
  (lacking sb d i (nodes (leafPath lbn))).card ≤ freeBlocks sb d

lemma canMap_of_mapped (hoff : off < 2 ^ 32) (hb : mapped sb d i (off / BLOCK_SIZE) = some b) : CanMap sb d i (off / BLOCK_SIZE) := by
  obtain ⟨he, hne⟩ := mapped_eq_some.mp hb
  have hnone : lacking sb d i (nodes (leafPath (off / BLOCK_SIZE))) = ∅ := by
    refine Finset.filter_eq_empty_iff.mpr fun p hp => ?_
    exact ptr_ne_zero_of_mem_nodes (leafPath_isPath (div_lt_maxBlocks hoff)) (he.trans_ne hne) hp
  unfold CanMap
  rw [hnone, Finset.card_empty]
  exact Nat.zero_le _

lemma locate_grown (grow : Bool) (h : Mounted sb t) (hk : 0 < (t.mem.inodes k).refcnt) (hoff : off < 2 ^ 32)
    (hE : grow = true → ¬CanMap sb (blocks t) (t.mem.inodes k).inodeNum (off / BLOCK_SIZE) → E .outOfBlocks) :
    (locateOrAddBlock P (cacheStore P) sb k (off / BLOCK_SIZE) grow).Ends t E fun o t' => Grown sb t t' ∧
      o = mapped sb (blocks t') (t.mem.inodes k).inodeNum (off / BLOCK_SIZE) ∧ (grow = true → o ≠ none) ∧
      (grow = false → t'.mem = t.mem ∧ blocks t' = blocks t) := by
  have hlbn := div_lt_maxBlocks hoff
  have hpaths : ∀ q ∈ nodes (leafPath (off / BLOCK_SIZE)), IsPath q := fun q hq => (leafPath_isPath hlbn).of_mem_nodes hq
  refine (locateOrAddBlock_ends (cacheStore_lawful P) h.layout (by decide) h.owned (h.coherent.used k hk) h.at_ (h.coherent.holds hk) hlbn
    hpaths Finset.Subset.rfl fun hg hfew => hE hg (not_le.mpr hfew)).mono ?_
  rintro o t' ⟨d', hr, hloc⟩
  have hblocks := hr.blocks_eq
  refine ⟨hloc.edits.grown h hk hr, ?_, fun hg => ?_, fun hg => ?_⟩
  · rw [hblocks, hloc.result]
    rfl
  · rw [hloc.result, if_neg (hloc.grown hg)]
    nofun
  · obtain rfl := hloc.same hg
    refine ⟨?_, hblocks⟩
    rw [hr.1, FsMem.setDisk_eq_self (h.coherent.disk k hk)]

lemma Grown.mapped_eq (h : Grown sb t t') (hi : Used sb (blocks t) i) (hoff : off < 2 ^ 32)
    (hb : mapped sb (blocks t) i (off / BLOCK_SIZE) = some b) : mapped sb (blocks t') i (off / BLOCK_SIZE) = some b := by
  obtain ⟨he, hne⟩ := mapped_eq_some.mp hb
  have hkept := h.kept i _ hi (leafPath_isPath (div_lt_maxBlocks hoff)) (he.trans_ne hne)
  exact mapped_eq_some.mpr ⟨hkept.trans he, hne⟩

lemma mapped_inj {i' : Nat} (h : Mounted sb t) (hi : Used sb (blocks t) i) (hi' : Used sb (blocks t) i') (hoff : off < 2 ^ 32)
    (hoff' : off' < 2 ^ 32) (hb : mapped sb (blocks t) i (off / BLOCK_SIZE) = some b)
    (hb' : mapped sb (blocks t) i' (off' / BLOCK_SIZE) = some b) : i = i' ∧ off / BLOCK_SIZE = off' / BLOCK_SIZE := by
  obtain ⟨he, hne⟩ := mapped_eq_some.mp hb
  obtain ⟨he', -⟩ := mapped_eq_some.mp hb'
  obtain ⟨hii, hpp⟩ := h.owned.inj hi hi' (leafPath_isPath (div_lt_maxBlocks hoff)) (leafPath_isPath (div_lt_maxBlocks hoff'))
    (he.trans_ne hne) (he.trans he'.symm)
  exact ⟨hii, leafPath_inj hpp⟩

/-! ### Growth -/

/-- The calls that can give blocks to an inode. -/
inductive GrowOp
  | locate (off : Nat) (grow : Bool)
  | write (off len srcLen : Nat) (src : Block)

def GrowOp.exec (P : Profile) (sb : SuperBlock) (k : Slot) : GrowOp → K (FsState BufState) Unit
  | .locate off grow => do let _ ← locateOrAddBlock P (cacheStore P) sb k (off / BLOCK_SIZE) grow
  | .write off len srcLen src => do let _ ← inodeWriteData P (cacheStore P) sb k off len srcLen src

/-- Offsets are of type `u32`. -/
def GrowOp.Typed : GrowOp → Prop
  | .locate off _ => off < 2 ^ 32
  | .write off _ _ _ => off < 2 ^ 32

/-- Inodes in use grow. -/
abbrev GrowRun (P : Profile) (sb : SuperBlock) : FsState BufState → FsState BufState → Prop :=
  Relation.ReflTransGen fun t t' => ∃ k, ∃ op : GrowOp, 0 < (t.mem.inodes k).refcnt ∧ op.Typed ∧ op.exec P sb k t = .ok ((), t')

lemma GrowOp.exec_grown {op : GrowOp} (h : Mounted sb t) (hk : 0 < (t.mem.inodes k).refcnt) (ht : op.Typed) :
    (op.exec P sb k).Ends t (fun _ => True) fun _ t' => Grown sb t t' := by
  cases op with
  | locate off grow =>
    refine .bind (locate_grown _ h hk ht fun _ _ => trivial) ?_
    rintro o t' - ⟨hg, -⟩
    exact .pure hg
  | write off len srcLen src =>
    refine .bind ((inodeWriteData_keeps (cacheStore_lawful P) h.layout (by decide) h.owned (h.coherent.used k hk) (h.coherent.holds hk)
      h.at_ ht).imp fun _ _ => trivial) ?_
    rintro n t' - ⟨d', hr, he⟩
    exact .pure (he.grown h hk hr)

lemma GrowRun.grown (h : Mounted sb t) (hrun : GrowRun P sb t t') : Grown sb t t' := by
  induction hrun with
  | refl => exact .refl h
  | tail _ hstep ih =>
    obtain ⟨k, op, hk, ht, he⟩ := hstep
    exact ih.trans ((op.exec_grown ih.mounted hk ht).ok _ _ he)

/-- The block map is total, what it has mapped stays mapped while any inodes grow, and it is injective. -/
theorem block_map_stable (h : Mounted sb t) (hk : 0 < (t.mem.inodes k).refcnt) (hoff : off < 2 ^ 32) :
    (∀ grow, locateOrAddBlock P (cacheStore P) sb k (off / BLOCK_SIZE) grow t ≠ .error .blockIndexOutOfRange) ∧
    (CanMap sb (blocks t) (t.mem.inodes k).inodeNum (off / BLOCK_SIZE) → ∃ b t₁,
      locateOrAddBlock P (cacheStore P) sb k (off / BLOCK_SIZE) true t = .ok (some b, t₁) ∧ ∀ t₂, GrowRun P sb t₁ t₂ →
        ∀ grow, ∃ t₃, locateOrAddBlock P (cacheStore P) sb k (off / BLOCK_SIZE) grow t₂ = .ok (some b, t₃)) ∧
    (∃ o t₁, locateOrAddBlock P (cacheStore P) sb k (off / BLOCK_SIZE) false t = .ok (o, t₁) ∧ t₁.mem = t.mem ∧ blocks t₁ = blocks t ∧
      (o = none ↔ ptr sb (blocks t) (t.mem.inodes k).inodeNum (leafPath (off / BLOCK_SIZE)) = 0)) ∧
    ∀ k' off' grow grow' b b' t₁ t₂ t₃, off' < 2 ^ 32 → locateOrAddBlock P (cacheStore P) sb k (off / BLOCK_SIZE) grow t = .ok (some b, t₁) →
      GrowRun P sb t₁ t₂ → 0 < (t₂.mem.inodes k').refcnt →
      locateOrAddBlock P (cacheStore P) sb k' (off' / BLOCK_SIZE) grow' t₂ = .ok (some b', t₃) →
      (k ≠ k' ∨ off / BLOCK_SIZE ≠ off' / BLOCK_SIZE) → b ≠ b' := by
  have hi := h.coherent.used k hk
  -- what a call that returned a block tells about every later state
  have hlater : ∀ {grow b t₁ t₂}, locateOrAddBlock P (cacheStore P) sb k (off / BLOCK_SIZE) grow t = .ok (some b, t₁) → GrowRun P sb t₁ t₂ →
      Grown sb t t₂ ∧ mapped sb (blocks t₂) (t.mem.inodes k).inodeNum (off / BLOCK_SIZE) = some b := by
    intro grow b t₁ t₂ he hrun
    obtain ⟨hg, hb, -⟩ := (locate_grown (P := P) (E := fun _ => True) _ h hk hoff fun _ _ => trivial).ok _ _ he
    have hg₂ := hrun.grown hg.mounted
    exact ⟨hg.trans hg₂, hg₂.mapped_eq ((hg.used _).mpr hi) hoff hb.symm⟩
  refine ⟨fun grow he => ?_, fun hroom => ?_, ?_, ?_⟩
  · have hends := locate_grown (P := P) (E := (· = .outOfBlocks)) grow h hk hoff fun _ _ => rfl
    exact absurd (hends.error _ he) nofun
  · obtain ⟨o, t₁, he, -, -, hsome, -⟩ := (locate_grown (P := P) (E := fun _ => False) true h hk hoff fun _ hno =>
      hno hroom).exists_ok
    obtain ⟨b, rfl⟩ := Option.ne_none_iff_exists'.mp (hsome rfl)
    refine ⟨b, t₁, he, fun t₂ hrun grow => ?_⟩
    obtain ⟨hg, hb⟩ := hlater he hrun
    have hk₂ : 0 < (t₂.mem.inodes k).refcnt := by rwa [hg.refcnt]
    have hcan : CanMap sb (blocks t₂) (t₂.mem.inodes k).inodeNum (off / BLOCK_SIZE) := by
      rw [hg.inodeNum]
      exact canMap_of_mapped hoff hb
    obtain ⟨o, t₃, he₃, hg₃, ho, -⟩ := (locate_grown (P := P) (E := fun _ => False) grow hg.mounted hk₂ hoff fun _ hno =>
      hno hcan).exists_ok
    rw [hg.inodeNum, hg₃.mapped_eq ((hg.used _).mpr hi) hoff hb] at ho
    exact ⟨t₃, ho ▸ he₃⟩
  · obtain ⟨o, t₁, he, -, ho, -, hsame⟩ := (locate_grown (P := P) (E := fun _ => False) false h hk hoff nofun).exists_ok
    obtain ⟨hmem, hblocks⟩ := hsame rfl
    refine ⟨o, t₁, he, hmem, hblocks, ?_⟩
    rw [ho, hblocks]
    unfold mapped
    split_ifs with hz
    · exact iff_of_true rfl hz
    · exact iff_of_false nofun hz
  · rintro k' off' grow grow' b b' t₁ t₂ t₃ hoff' he hrun hk' he' hne rfl
    obtain ⟨hg, hb⟩ := hlater he hrun
    obtain ⟨hg₃, hb', -⟩ := (locate_grown (P := P) (E := fun _ => True) _ hg.mounted hk' hoff' fun _ _ => trivial).ok _ _ he'
    have hi₂ := (hg.used _).mpr hi
    have hb₃ := hg₃.mapped_eq hi₂ hoff hb
    have hi' := hg.mounted.coherent.used k' hk'
    obtain ⟨hnum, hlbn⟩ := mapped_inj hg₃.mounted ((hg₃.used _).mpr hi₂) ((hg₃.used _).mpr hi') hoff hoff' hb₃ hb'.symm
    rw [← hg.inodeNum] at hnum
    exact hne.elim (fun hkk => hkk (hg.mounted.coherent.unique k k' (by rwa [hg.refcnt]) hk' hnum)) fun hl => hl hlbn

/-- The first block of the file of `oneFile`, and the one behind it. -/
theorem block_map_oneFile : ∃ b t₁, locateOrAddBlock .dev (cacheStore .dev) smallSb 0 0 true oneFile = .ok (some b, t₁) ∧
    (∃ t₃, locateOrAddBlock .dev (cacheStore .dev) smallSb 0 0 false t₁ = .ok (some b, t₃)) ∧
    ∀ b' t₃, locateOrAddBlock .dev (cacheStore .dev) smallSb 0 1 true t₁ = .ok (some b', t₃) → b ≠ b' := by
  have hheld : 0 < (oneFile.mem.inodes 0).refcnt := by decide
  obtain ⟨-, hgrow, -, hinj⟩ := block_map_stable (P := .dev) oneFile_mounted hheld (show 0 < 2 ^ 32 by decide)
  have hcan : CanMap smallSb (blocks oneFile) 0 (0 / BLOCK_SIZE) := by
    have hnodes := card_nodes_le (leafPath (0 / BLOCK_SIZE))
    have hfree : (leafPath (0 / BLOCK_SIZE)).length ≤ freeBlocks smallSb (blocks oneFile) := by decide
    exact (Finset.card_filter_le _ _).trans (hnodes.trans hfree)
  obtain ⟨b, t₁, he, hlater⟩ := hgrow hcan
  refine ⟨b, t₁, he, hlater t₁ .refl false, fun b' t₃ he' => ?_⟩
  have hrefcnt : 0 < (t₁.mem.inodes 0).refcnt := by
    have hends := locate_grown (P := .dev) (E := fun _ => True) true oneFile_mounted hheld (show 0 < 2 ^ 32 by decide)
      fun _ _ => trivial
    rw [(hends.ok _ _ he).1.refcnt]
    exact hheld
  exact hinj 0 4096 true true b b' t₁ t₁ t₃ (by decide) he .refl hrefcnt he' (.inr (by decide))

end Glenda.Fs
