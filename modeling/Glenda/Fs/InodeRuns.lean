import Glenda.Fs.References
import Glenda.Fs.FileIo

/-!
# Runs of the inode operations

Callers get references to inodes, write to them, change their link counts and put them back. Whatever they do in this way, every
block of the disk has one owner and the inode cache agrees with the disk.
-/

namespace Glenda.Fs
open Glenda.Lib

inductive InodeOp
  | get (inum : Nat)
  | dup (k : Slot)
  | put (k : Slot)
  | create (type_ major minor : Nat)
  | write (k : Slot) (off len srcLen : Nat) (src : Block)
  | setNlink (k : Slot) (nlink : Nat)
  | truncate (k : Slot)

section Model

variable {σ : Type} (P : Profile) (B : BlockStore σ Block) (sb : SuperBlock)

/-- The operation, and the reference that it gives out. -/
def InodeOp.exec : InodeOp → K (FsState σ) (Option Slot)
  | .get inum => do return some (← inodeGet P B sb inum)
  | .dup k => do
    inodeDup P k
    return some k
  | .put k => do
    inodePut P B sb k
    return none
  | .create type_ major minor => do return some (← inodeCreate P B sb type_ major minor)
  | .write k off len srcLen src => do
    let _ ← inodeWriteData P B sb k off len srcLen src
    return none
  | .setNlink k nlink => do
    updateInode P B sb k ({ · with nlink := nlink })
    return none
  | .truncate k => do
    updateInode P B sb k ({ · with size := 0 })
    return none

end Model

/-- How many references to each slot callers have. -/
abbrev Refs := Slot → Nat

namespace InodeOp

/-- Callers use the references that they have and get inodes that are in use. No slot has more references than it can count. -/
def Allowed (sb : SuperBlock) (d : Nat → Block) (m : FsMem) (h : Refs) : InodeOp → Prop
  | .get inum => Used sb d inum ∧ Spare 1 m
  | .dup k => 0 < h k ∧ Spare 1 m
  | .put k => 0 < h k
  | .create type_ major minor => type_ < 2 ^ 16 ∧ major < 2 ^ 16 ∧ minor < 2 ^ 16
  | .write k off _ _ _ => 0 < h k ∧ off < 2 ^ 32
  | .setNlink k nlink => 0 < h k ∧ nlink < 2 ^ 16
  | .truncate k => 0 < h k

/-- The references after an operation that gave out `r`. -/
def refs (h : Refs) : InodeOp → Option Slot → Refs
  | .put k, _ => Function.update h k (h k - 1)
  | _, some k => Function.update h k (h k + 1)
  | _, none => h

end InodeOp

/-- The slots count the references of the callers. -/
def Counted (m : FsMem) (h : Refs) : Prop := ∀ k, (m.inodes k).refcnt = h k

/-- How an operation on inodes may stop. -/
inductive InodePanic : Panic → Prop
  | data {e : Panic} (h : DataPanic e) : InodePanic e
  | outOfInodes : InodePanic .outOfInodes
  | noFreeInode : InodePanic .noFreeInode

section Spec

variable {σ : Type} {P : Profile} {B : BlockStore σ Block} {cap : Nat} {Rep : σ → (Nat → Block) → List (Nat × Nat) → Prop}
  {sb : SuperBlock} {t : FsState σ} {d : Nat → Block} {m m' : FsMem} {k : Slot} {h : Refs} {E : Panic → Prop} {op : InodeOp}

lemma Counted.same (hm : Counted m h) (hr : Refd m m' []) : Counted m' h := fun a => by
  rw [hr.refcnt a, hm a, List.count_nil, Nat.add_zero]

lemma Counted.taken (hm : Counted m h) (hr : Refd m m' [k]) : Counted m' (Function.update h k (h k + 1)) := by
  intro a
  rw [hr.refcnt a, hm a]
  by_cases he : a = k
  · rw [he, List.count_singleton_self, Function.update_self]
  · rw [Function.update_of_ne he, List.count_singleton, if_neg (by simpa using Ne.symm he), Nat.add_zero]

lemma Counted.dropped (hm : Counted m h) (hr : Refd m' m [k]) : Counted m' (Function.update h k (h k - 1)) := by
  intro a
  have hcount := hr.refcnt a
  rw [hm a] at hcount
  by_cases he : a = k
  · rw [he, List.count_singleton_self] at hcount
    rw [he, Function.update_self]
    omega
  · rw [List.count_singleton, if_neg (by simpa using Ne.symm he), Nat.add_zero] at hcount
    rw [Function.update_of_ne he, hcount]

lemma InodeOp.exec_ends (L : B.Lawful cap Rep) (hc : 2 < cap) (hs : Rests Rep sb t d m) (hm : Counted m h)
    (ha : op.Allowed sb d m h) : (op.exec P B sb).Ends t InodePanic fun r t' => ∃ d' m', Rests Rep sb t' d' m' ∧
      Counted m' (op.refs h r) := by
  have hheld : ∀ {k}, 0 < h k → 0 < (m.inodes k).refcnt := fun {k} hk => by rwa [hm k]
  have hc0 : 0 < cap := by omega
  cases op with
  | get inum =>
    refine .bind (inodeGet_refd L hc0 hs ha.1 ha.2 fun _ _ => .noFreeInode) ?_
    rintro k t' - ⟨m', hs', hr, -⟩
    exact .pure ⟨d, m', hs', hm.taken hr⟩
  | dup k =>
    refine .bind (inodeDup_refd hs (hheld ha.1) ha.2) ?_
    rintro - t' - ⟨m', hs', hr⟩
    exact .pure ⟨d, m', hs', hm.taken hr⟩
  | put k =>
    refine .bind (inodePut_refd L hc hs (hheld ha)) ?_
    rintro - t' - ⟨d', m', hs', hr, -⟩
    exact .pure ⟨d', m', hs', hm.dropped hr⟩
  | create type_ major minor =>
    refine .bind (inodeCreate_refd L hc0 hs ha.1 ha.2.1 ha.2.2 (fun _ => .outOfInodes) fun _ => .noFreeInode) ?_
    rintro k t' - ⟨i, d', m', hs', hr, -⟩
    exact .pure ⟨d', m', hs', hm.taken hr⟩
  | write k off len srcLen src =>
    refine .bind ((inodeWriteData_edits L (by omega) hs (hheld ha.1) ha.2).imp fun _ => .data) ?_
    rintro n t' - ⟨d', m', hs', hr, -⟩
    exact .pure ⟨d', m', hs', hm.same hr⟩
  | setNlink k nlink =>
    refine .bind (updateInode_ends L hc0 hs (hheld ha.1) (fun y hy => ?_) fun _ => rfl) ?_
    · exact ⟨hy.type_, hy.major, hy.minor, ha.2, hy.size, hy.index, hy.rest⟩
    · rintro - t' - ⟨d', m', hs', hr, -⟩
      exact .pure ⟨d', m', hs', hm.same hr⟩
  | truncate k =>
    refine .bind (updateInode_ends L hc0 hs (hheld ha) (fun y hy => ?_) fun _ => rfl) ?_
    · exact ⟨hy.type_, hy.major, hy.minor, hy.nlink, Nat.two_pow_pos 32, hy.index, hy.rest⟩
    · rintro - t' - ⟨d', m', hs', hr, -⟩
      exact .pure ⟨d', m', hs', hm.same hr⟩

end Spec

/-! ### Runs -/

/-- A state between two operations. -/
abbrev Mounted (sb : SuperBlock) (t : FsState BufState) : Prop := Rests Stored sb t (blocks t) t.mem

def InodeStep (P : Profile) (sb : SuperBlock) (s s' : FsState BufState × Refs) : Prop :=
  ∃ op : InodeOp, op.Allowed sb (blocks s.1) s.1.mem s.2 ∧ ∃ r, op.exec P (cacheStore P) sb s.1 = .ok (r, s'.1) ∧
    s'.2 = op.refs s.2 r

abbrev InodeRun (P : Profile) (sb : SuperBlock) : FsState BufState × Refs → FsState BufState × Refs → Prop :=
  Relation.ReflTransGen (InodeStep P sb)

variable {P : Profile} {sb : SuperBlock} {t : FsState BufState} {d : Nat → Block} {m : FsMem} {s s' s₀ : FsState BufState × Refs}

lemma Rests.mounted (h : Rests Stored sb t d m) : Mounted sb t := by
  obtain rfl := h.at_.blocks_eq
  obtain rfl := h.at_.1
  exact h

lemma InodeStep.inv (hstep : InodeStep P sb s s') (hs : Mounted sb s.1) (hm : Counted s.1.mem s.2) :
    Mounted sb s'.1 ∧ Counted s'.1.mem s'.2 := by
  obtain ⟨op, ha, r, he, hrefs⟩ := hstep
  obtain ⟨d', m', hs', hm'⟩ := (op.exec_ends (P := P) (cacheStore_lawful P) (by decide) hs hm ha).ok r _ he
  obtain rfl := hs'.at_.1
  rw [← hrefs] at hm'
  exact ⟨hs'.mounted, hm'⟩

lemma InodeRun.inv (hrun : InodeRun P sb s₀ s) (hs : Mounted sb s₀.1) (hm : Counted s₀.1.mem s₀.2) :
    Mounted sb s.1 ∧ Counted s.1.mem s.2 := by
  induction hrun with
  | refl => exact ⟨hs, hm⟩
  | tail _ hstep ih => exact hstep.inv ih.1 ih.2

lemma Owned.marked_iff (ow : Owned sb d fun _ => False) (b : Nat) : Marked sb d b ↔ ∃ i, Used sb d i ∧ Owns sb d i b := by
  constructor
  · intro hb
    rcases ow.owner hb with hf | ⟨i, p, hi, hp, he⟩
    · exact hf.elim
    · exact ⟨i, hi, p, hp, he, hb.ne_zero⟩
  · rintro ⟨i, hi, p, hp, rfl, hz⟩
    exact ow.marked hi hp hz

/-- Disk blocks have exactly one owner. -/
theorem blocks_have_one_owner (hs : Mounted sb s₀.1) (hm : Counted s₀.1.mem s₀.2) (hrun : InodeRun P sb s₀ s) :
    (∀ b, Marked sb (blocks s.1) b ↔ ∃ i, Used sb (blocks s.1) i ∧ Owns sb (blocks s.1) i b) ∧
    (∀ i i' p p', Used sb (blocks s.1) i → Used sb (blocks s.1) i' → IsPath p → IsPath p' → ptr sb (blocks s.1) i p ≠ 0 →
      ptr sb (blocks s.1) i p = ptr sb (blocks s.1) i' p' → i = i' ∧ p = p') ∧
    (∀ op : InodeOp, op.Allowed sb (blocks s.1) s.1.mem s.2 → op.exec P (cacheStore P) sb s.1 ≠ .error .blockAlreadyFree ∧
      op.exec P (cacheStore P) sb s.1 ≠ .error .blockOutOfRange) ∧
    ∀ k, 0 < s.2 k → ∃ t', inodePut P (cacheStore P) sb k s.1 = .ok ((), t') ∧
      ∀ b, Marked sb (blocks t') b ↔ Marked sb (blocks s.1) b ∧
        ¬(LastRef s.1.mem k ∧ Owns sb (blocks s.1) (s.1.mem.inodes k).inodeNum b) := by
  obtain ⟨hs', hm'⟩ := hrun.inv hs hm
  refine ⟨hs'.owned.marked_iff, fun i i' p p' hi hi' hp hp' => hs'.owned.inj hi hi' hp hp', fun op ha => ?_, fun k hk => ?_⟩
  · have hends := op.exec_ends (P := P) (cacheStore_lawful P) (by decide) hs' hm' ha
    constructor
    · intro he
      rcases hends.error _ he with ⟨⟨⟩⟩
    · intro he
      rcases hends.error _ he with ⟨⟨⟩⟩
  · have hput : (inodePut P (cacheStore P) sb k).Ends s.1 (fun _ => False) _ :=
      inodePut_refd (cacheStore_lawful P) (by decide) hs' (by rwa [hm' k])
    obtain ⟨_, t', he, d', m', hs₁, -, hd⟩ := hput.exists_ok
    obtain rfl := hs₁.at_.blocks_eq
    refine ⟨t', he, fun b => ?_⟩
    rcases hd with ⟨hlast, hd⟩ | ⟨hlast, hdel⟩
    · rw [hd]
      simp [hlast]
    · rw [hdel.marked b]
      simp [hlast]

/-- The inode cache shows the disk. At most one slot holds an inode, its count is the number of references that callers have, and its
record is the one on the disk. So an inode whose slot was given up and taken again is the same. -/
theorem inode_cache_coherent (hs : Mounted sb s₀.1) (hm : Counted s₀.1.mem s₀.2) (hrun : InodeRun P sb s₀ s) :
    (∀ k, (s.1.mem.inodes k).refcnt = s.2 k) ∧
    (∀ k k', 0 < s.2 k → 0 < s.2 k' → (s.1.mem.inodes k).inodeNum = (s.1.mem.inodes k').inodeNum → k = k') ∧
    (∀ k, 0 < s.2 k → (s.1.mem.inodes k).disk = dinode sb (blocks s.1) (s.1.mem.inodes k).inodeNum) ∧
    ∀ k k' t t', 0 < s.2 k → ¬LastRef s.1.mem k → Spare 1 s.1.mem → inodePut P (cacheStore P) sb k s.1 = .ok ((), t) →
      inodeGet P (cacheStore P) sb (s.1.mem.inodes k).inodeNum t = .ok (k', t') →
      (t'.mem.inodes k').disk = (s.1.mem.inodes k).disk := by
  obtain ⟨hs', hm'⟩ := hrun.inv hs hm
  have hco := hs'.coherent
  have hheld : ∀ {k}, 0 < s.2 k → 0 < (s.1.mem.inodes k).refcnt := fun {k} hk => by rwa [hm' k]
  refine ⟨hm', fun k k' hk hk' => hco.unique k k' (hheld hk) (hheld hk'), fun k hk => hco.disk k (hheld hk), ?_⟩
  intro k k' t t' hk hlast hspare hput hget
  have hends : (inodePut P (cacheStore P) sb k).Ends s.1 (fun _ => False) _ :=
    inodePut_refd (cacheStore_lawful P) (by decide) hs' (hheld hk)
  obtain ⟨d', m', h1, hr, hd⟩ := hends.ok _ _ hput
  obtain ⟨-, rfl⟩ : ¬LastRef s.1.mem k ∧ d' = blocks s.1 := hd.resolve_right fun h => hlast h.1
  have hspare' : Spare 1 m' := fun a => by
    have hle := hspare a
    rw [hr.refcnt a] at hle
    omega
  obtain ⟨m2, h2, hr2, hnum⟩ := (inodeGet_refd (E := fun _ => True) (cacheStore_lawful P) (by decide) h1 (hco.used k (hheld hk))
    hspare' fun _ _ => trivial).ok _ _ hget
  obtain rfl := h2.at_.1
  rw [h2.coherent.disk k' (hr2.pos List.mem_cons_self), hnum, hco.disk k (hheld hk)]

lemma oneFile_mounted : Mounted smallSb oneFile := by
  have hone : ∀ k, 0 < (oneFile.mem.inodes k).refcnt → k = 0 := by decide
  refine ⟨⟨smallSb_layout, oneFile_fileAt.owned, ?_, ?_, ?_, ?_⟩, oneFile_fileAt.at⟩
  · intro k hk
    rw [hone k hk]
    rfl
  · intro k hk
    rw [hone k hk]
    exact oneFile_fileAt.used
  · intro k hk
    rw [hone k hk]
    exact oneFile_fileAt.holds.disk
  · intro k k' hk hk' _
    rw [hone k hk, hone k' hk']

/-- A file gets two blocks and an index block, and is deleted. -/
theorem blocks_have_one_owner_oneFile : ∃ s, InodeRun .dev smallSb (oneFile, fun k => (oneFile.mem.inodes k).refcnt) s ∧
    (∀ k, s.2 k = 0) ∧ ∀ b, Marked smallSb (blocks s.1) b ↔ ∃ i, Used smallSb (blocks s.1) i ∧ Owns smallSb (blocks s.1) i b := by
  obtain ⟨t', he⟩ := K.exists_of_run' (a := none) (s := oneFile) (x := do
    let _ ← (InodeOp.write 0 40955 10 10 fun _ => 7).exec .dev (cacheStore .dev) smallSb
    (InodeOp.put 0).exec .dev (cacheStore .dev) smallSb) (by decide +kernel)
  obtain ⟨r, t₁, hwrite, hput⟩ := K.bind_eq_ok.mp he
  have hfirst : InodeStep .dev smallSb (oneFile, fun k => (oneFile.mem.inodes k).refcnt)
      (t₁, fun k => (oneFile.mem.inodes k).refcnt) := by
    refine ⟨.write 0 40955 10 10 fun _ => 7, ⟨by decide, by decide⟩, r, hwrite, ?_⟩
    obtain ⟨_, _, _, hr⟩ := K.bind_eq_ok.mp hwrite
    cases hr
    rfl
  have hsecond : InodeStep .dev smallSb (t₁, fun k => (oneFile.mem.inodes k).refcnt) (t', fun _ => 0) := by
    refine ⟨.put 0, show 0 < (oneFile.mem.inodes 0).refcnt by decide, none, hput, ?_⟩
    change (fun _ => 0) = Function.update (fun k => (oneFile.mem.inodes k).refcnt) 0 0
    decide
  have hrun := (Relation.ReflTransGen.single hfirst).tail hsecond
  exact ⟨_, hrun, fun _ => rfl, (blocks_have_one_owner oneFile_mounted (fun _ => rfl) hrun).1⟩

theorem inode_cache_coherent_dup : ∃ s, InodeRun .dev smallSb (oneFile, fun k => (oneFile.mem.inodes k).refcnt) s ∧
    (s.1.mem.inodes 0).refcnt = 2 := by
  obtain ⟨t, he⟩ := K.exists_of_run' (a := some 0) (s := oneFile) (x := (InodeOp.dup 0).exec .dev (cacheStore .dev) smallSb)
    (by decide +kernel)
  have hrun : InodeRun .dev smallSb (oneFile, fun k => (oneFile.mem.inodes k).refcnt)
      (t, (InodeOp.dup 0).refs (fun k => (oneFile.mem.inodes k).refcnt) (some 0)) :=
    .single ⟨.dup 0, ⟨by decide, by unfold Spare; decide⟩, some 0, he, rfl⟩
  exact ⟨_, hrun, (inode_cache_coherent oneFile_mounted (fun _ => rfl) hrun).1 0⟩

end Glenda.Fs
