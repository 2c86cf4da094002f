import Glenda.Fs.Parent
import Glenda.Fs.Descriptors

/-!
# The references of a call

The calls on paths take references to inodes and put them back. The references that a call holds at a point are a list, and each
operation says what it does to the list.
-/

namespace Glenda.Fs
open Glenda.Lib

variable {P : Profile} {sb : SuperBlock} {t t' : FsState BufState} {d : Nat → Block} {m m' : FsMem} {held : List Slot} {k k' : Slot}
  {E : Panic → Prop} {name path : List UInt8} {cwd i : Nat}

/-- The references `held`, in addition to those of the table `m`. -/
structure Holding (sb : SuperBlock) (m : FsMem) (held : List Slot) (t : FsState BufState) : Prop where
  mounted : Mounted sb t
  refs : Refd m t.mem held

lemma WellFormed.refd (wf : WellFormed sb d m) (h : Refd m m' held) : WellFormed sb d m' := by
  refine ⟨fun i hi => (wf.anchored i hi).imp_right ?_, wf.root, wf.entries, wf.sizes⟩
  rintro ⟨k, hk, hnum⟩
  exact ⟨k, by rw [h.refcnt k]; omega, by rw [h.num k hk, hnum]⟩

lemma Spare.mono {n n' : Nat} (h : Spare n m) (hle : n' ≤ n) : Spare n' m := by
  intro k
  have hk := h k
  omega

namespace Holding

lemma of_rests (h : Rests Stored sb t d m') (hr : Refd m m' held) : Holding sb m held t := by
  obtain rfl := h.at_.1
  exact ⟨h.mounted, hr⟩

lemma put (h : Holding sb m (k :: held) t) : (inodePut P (cacheStore P) sb k).Ends t E fun _ => Holding sb m held := by
  refine (inodePut_refd (cacheStore_lawful P) (by decide) h.mounted (h.refs.pos List.mem_cons_self)).mono ?_
  rintro - t' ⟨d', m', h', hr, -⟩
  exact of_rests h' (h.refs.put hr)

/-- The ends of a call. -/
lemma close (h : Holding sb m [k] t) (b : Bool) :
    (inodePut P (cacheStore P) sb k >>= fun _ => pure b).Ends t E fun _ => Holding sb m [] := .bind h.put fun _ _ _ h' => .pure h'

lemma closeTwo (h : Holding sb m [k, k'] t) (b : Bool) :
    (inodePut P (cacheStore P) sb k >>= fun _ => inodePut P (cacheStore P) sb k' >>= fun _ => pure b).Ends t E fun _ => Holding sb m [] :=
  .bind h.put fun _ _ _ h' => h'.close b

lemma create (h : Holding sb m held t) {type_ : Nat} (htype : type_ < 2 ^ 16) :
    (inodeCreate P (cacheStore P) sb type_ 0 0).Ends t InodePanic fun k => Holding sb m (k :: held) := by
  refine (inodeCreate_refd (cacheStore_lawful P) (by decide) h.mounted htype (by decide) (by decide) (fun _ => .outOfInodes)
    fun _ => .noFreeInode).mono ?_
  rintro k t' ⟨i, d', m', h', hr, -⟩
  exact of_rests h' (h.refs.cons hr)

lemma get (h : Holding sb m held t) (hi : Used sb (blocks t) i) (hspare : Spare (1 + held.length) m) :
    (inodeGet P (cacheStore P) sb i).Ends t InodePanic fun k => Holding sb m (k :: held) := by
  refine (inodeGet_refd (cacheStore_lawful P) (by decide) h.mounted hi (h.refs.spare hspare) fun _ _ => .noFreeInode).mono ?_
  rintro k t' ⟨m', h', hr, -⟩
  exact of_rests h' (h.refs.cons hr)

/-- An operation that changes the disk keeps the references. -/
lemma keeps {α : Type} {x : K (FsState BufState) α} {X : (Nat → Block) → Prop} (h : Holding sb m held t)
    (hx : x.Ends t E fun _ t' => ∃ d' m', Rests Stored sb t' d' m' ∧ Refd t.mem m' [] ∧ X d') : x.Ends t E fun _ => Holding sb m held := by
  refine hx.mono ?_
  rintro - t' ⟨d', m', h', hr, -⟩
  exact of_rests h' (h.refs.trans hr)

lemma setNlink (h : Holding sb m held t) (hk : k ∈ held) {n : Nat} (hn : n < 2 ^ 16) :
    (updateInode P (cacheStore P) sb k ({ · with nlink := n })).Ends t E fun _ => Holding sb m held :=
  h.keeps (updateInode_ends (f := ({ · with nlink := n })) (cacheStore_lawful P) (by decide) h.mounted (h.refs.pos hk)
    (fun _ hy => ⟨hy.type_, hy.major, hy.minor, hn, hy.size, hy.index, hy.rest⟩) fun _ => rfl)

lemma addName (h : Holding sb m held t) (hk : k ∈ held) :
    (dentryCreate P (cacheStore P) sb k i name).Ends t InodePanic fun _ => Holding sb m held :=
  h.keeps ((dentryCreate_edits (cacheStore_lawful P) (by decide) h.mounted (h.refs.pos hk)).imp fun _ => .data)

lemma dropName (h : Holding sb m held t) (hk : k ∈ held) :
    (dentryDelete P (cacheStore P) sb k name).Ends t InodePanic fun _ => Holding sb m held :=
  h.keeps ((dentryDelete_edits (cacheStore_lawful P) (by decide) h.mounted (h.refs.pos hk)).imp fun _ => .data)

lemma search (h : Holding sb m held t) (hk : k ∈ held) : (dentrySearch P (cacheStore P) sb k name).Ends t InodePanic fun r t' =>
    Holding sb m held t' ∧ blocks t' = blocks t ∧ r = lookup sb (blocks t) (t.mem.inodes k).inodeNum name := by
  refine (dentrySearch_ends (cacheStore_lawful P) (by decide) h.mounted (h.refs.pos hk) fun _ _ => .data).mono ?_
  rintro r t' ⟨h', hr⟩
  exact ⟨of_rests h' h.refs, h'.at_.blocks_eq, hr⟩

lemma walked {r : Option Nat} {o : Option Slot} (h : Holding sb m held t) (hw : Walked Stored sb (blocks t) t.mem t' r o) :
    Holding sb m (o.toList ++ held) t' ∧ blocks t' = blocks t ∧ o.map (fun k => (t'.mem.inodes k).inodeNum) = r := by
  obtain ⟨hres, h', hr⟩ := hw.rests
  refine ⟨of_rests h' ?_, h'.at_.blocks_eq, hres⟩
  cases o with
  | none => exact h.refs.trans hr
  | some k => exact h.refs.cons hr

end Holding

section Calls

variable (wf : WellFormed sb (blocks t) t.mem) (hcwd : Used sb (blocks t) cwd)
include wf hcwd

lemma Holding.find (h : Holding sb m held t) (hspare : Spare (2 + held.length) m) :
    (pathToInodeAt P (cacheStore P) sb cwd path).Ends t InodePanic fun o t' => Holding sb m (o.toList ++ held) t' ∧
      blocks t' = blocks t ∧ o.map (fun k => (t'.mem.inodes k).inodeNum) = resolve sb (blocks t) (startInum cwd path) (components path) := by
  refine (pathToInodeAt_ends (cacheStore_lawful P) (by decide) wf h.mounted hcwd (h.refs.spare hspare) fun _ => .noFreeInode).mono ?_
  exact fun o t' hw => h.walked hw

lemma Holding.parent (h : Holding sb m held t) (hspare : Spare (2 + held.length) m) :
    (pathToParentInodeAt P (cacheStore P) sb cwd path).Ends t InodePanic fun r t' => Holding sb m (r.1.toList ++ held) t' ∧
      blocks t' = blocks t ∧
      r.1.map (fun k => (t'.mem.inodes k).inodeNum) = resolve sb (blocks t) (startInum cwd path) (components path).dropLast := by
  refine (pathToParentInodeAt_ends (cacheStore_lawful P) (by decide) wf h.mounted hcwd (h.refs.spare hspare) fun _ => .noFreeInode).mono ?_
  exact fun r t' hw => h.walked hw.1

lemma mkdirAt_holding (hs : Mounted sb t) (hspare : Spare 2 t.mem) :
    (mkdirAt P (cacheStore P) sb cwd path).Ends t InodePanic fun _ => Holding sb t.mem [] := by
  refine .bind (Holding.parent wf hcwd ⟨hs, .refl _⟩ hspare) ?_
  rintro ⟨_ | parent, buf⟩ t1 - ⟨h1, -⟩
  · exact .pure h1
  dsimp only
  split_ifs with hname
  · exact h1.close false
  refine .bind (h1.search List.mem_cons_self) fun o t2 _ h2 => ?_
  split_ifs with hsome
  · exact h2.1.close false
  refine .bind (h2.1.create (by decide)) fun k t3 _ h3 => .bind (h3.setNlink List.mem_cons_self (by decide)) fun _ t4 _ h4 => ?_
  refine getInode_bind h4.mounted.at_ (.bind (h4.addName (List.mem_cons_of_mem _ List.mem_cons_self)) fun _ t5 _ h5 => ?_)
  exact h5.closeTwo true

lemma linkAt_holding {newPath : List UInt8} (hs : Mounted sb t) (hspare : Spare 3 t.mem) :
    (linkAt P (cacheStore P) sb cwd path newPath).Ends t InodePanic fun _ => Holding sb t.mem [] := by
  refine .bind (Holding.find wf hcwd ⟨hs, .refl _⟩ (hspare.mono (by decide))) ?_
  rintro (_ | old) t1 - ⟨h1, hb1, -⟩
  · exact .pure h1
  refine getInode_bind h1.mounted.at_ ?_
  split_ifs with hdir
  · exact h1.close false
  refine .bind (Holding.parent (hb1 ▸ wf.refd h1.refs) (hb1 ▸ hcwd) h1 hspare) ?_
  rintro ⟨_ | parent, buf⟩ t2 - ⟨h2, -⟩
  · exact h2.close false
  dsimp only
  split_ifs with hname
  · exact h2.closeTwo false
  refine .bind (h2.search List.mem_cons_self) fun o t3 _ h3 => ?_
  split_ifs with hsome
  · exact h3.1.closeTwo false
  refine getInode_bind h3.1.mounted.at_ (.bind (h3.1.addName List.mem_cons_self) fun _ t4 _ h4 => getInode_bind h4.mounted.at_ ?_)
  refine addW_bind P _ _ (.data .overflow) fun n hn => ?_
  exact .bind (h4.setNlink (List.mem_cons_of_mem _ List.mem_cons_self) hn) fun _ t5 _ h5 => h5.closeTwo true

/-- Names are looked up in directories. -/
def ParentIsDir (sb : SuperBlock) (d : Nat → Block) (cwd : Nat) (path : List UInt8) : Prop :=
  ∀ i, resolve sb d (startInum cwd path) (components path).dropLast = some i → (dinode sb d i).type_ = INODE_TYPE_DIR

lemma unlinkAt_holding (hs : Mounted sb t) (hspare : Spare 2 t.mem) (hdir : ParentIsDir sb (blocks t) cwd path) :
    (unlinkAt P (cacheStore P) sb cwd path).Ends t InodePanic fun _ => Holding sb t.mem [] := by
  refine .bind (Holding.parent wf hcwd ⟨hs, .refl _⟩ hspare) ?_
  rintro ⟨_ | parent, buf⟩ t1 - ⟨h1, hb1, hres⟩
  · exact .pure h1
  dsimp only
  split_ifs with hname
  · exact h1.close false
  refine .bind (h1.search List.mem_cons_self) ?_
  rintro (_ | inum) t2 - ⟨h2, hb2, hlook⟩
  · exact h2.close false
  have hused := h1.mounted.coherent.used parent (h1.refs.pos List.mem_cons_self)
  rw [hb1] at hused hlook
  have hi : Used sb (blocks t2) inum := by
    rw [hb2, hb1]
    exact wf.entries _ _ _ hused (hdir _ hres.symm) hlook.symm
  refine .bind (h2.get hi hspare) fun k t3 _ h3 => getInode_bind h3.mounted.at_ ?_
  split_ifs with htype
  · exact h3.closeTwo false
  refine .bind (h3.dropName (List.mem_cons_of_mem _ List.mem_cons_self)) fun _ t4 _ h4 => getInode_bind h4.mounted.at_ ?_
  rw [h4.mounted.coherent.disk k (h4.refs.pos List.mem_cons_self)]
  refine subW_bind P _ (.data .overflow) (dinode_fits sb _ _).nlink fun n hn => ?_
  exact .bind (h4.setNlink List.mem_cons_self hn) fun _ t5 _ h5 => h5.closeTwo true

end Calls

/-- The slots count the references that they counted in `m`. -/
def SameCounts (m : FsMem) (t : FsState BufState) : Prop := ∀ k, (t.mem.inodes k).refcnt = (m.inodes k).refcnt

/-- Whatever the calls on directories return, they have put back the references that they took. -/
theorem directory_calls_balance (hs : Mounted sb t) (wf : WellFormed sb (blocks t) t.mem) (hcwd : Used sb (blocks t) cwd)
    (hspare : Spare 3 t.mem) (path newPath : List UInt8) :
    ((mkdirAt P (cacheStore P) sb cwd path).Ends t InodePanic fun _ t' => Mounted sb t' ∧ SameCounts t.mem t') ∧
    ((linkAt P (cacheStore P) sb cwd path newPath).Ends t InodePanic fun _ t' => Mounted sb t' ∧ SameCounts t.mem t') ∧
    (ParentIsDir sb (blocks t) cwd path →
      (unlinkAt P (cacheStore P) sb cwd path).Ends t InodePanic fun _ t' => Mounted sb t' ∧ SameCounts t.mem t') := by
  have hspare2 : Spare 2 t.mem := hspare.mono (by decide)
  have hsame : ∀ {t'}, Holding sb t.mem [] t' → Mounted sb t' ∧ SameCounts t.mem t' := fun h => ⟨h.mounted, h.refs.refcnt⟩
  refine ⟨?_, ?_, fun hdir => ?_⟩
  · exact (mkdirAt_holding wf hcwd hs hspare2).mono fun _ _ => hsame
  · exact (linkAt_holding wf hcwd hs hspare).mono fun _ _ => hsame
  · exact (unlinkAt_holding wf hcwd hs hspare2 hdir).mono fun _ _ => hsame

theorem directory_calls_balance_tree :
    ((mkdirAt .dev (cacheStore .dev) smallSb 0 [98]).Ends tree InodePanic fun _ t' => Mounted smallSb t' ∧ SameCounts tree.mem t') ∧
      (mkdirAt .dev (cacheStore .dev) smallSb 0 [98]).run' tree = .ok true :=
  ⟨(directory_calls_balance tree_mounted tree_wellFormed (show Used smallSb (blocks tree) 0 from ⟨by decide, by decide⟩)
    (fun _ => show 0 + 3 < 2 ^ 32 by decide) [98] []).1, by decide +kernel⟩

end Glenda.Fs
