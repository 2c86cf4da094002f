import Glenda.Proc.Images
import Glenda.Proc.MmapNodes
import Glenda.Proc.Steps
import Glenda.Mem.Estates

/-!
# Who holds the memory of the machine

A page in use is held by the table of the kernel, the table or the trap frame of a process, or the ring of the disk.
Pages that a failed operation has lost are held by no one. `World` says so, with what a table holds
for each process and for the kernel.
-/

namespace Glenda.Proc
open Glenda.Lib Glenda.Mem Glenda.Mem.KernelVm

inductive Holder
  | kernel
  | ring
  | lost
  | table (i : Nat)
  | frame (i : Nat)
  | newTable
  | newFrame
  deriving DecidableEq

/-! ### The leaves of the kernel in the table of a process -/

def trapPage : Nat := TRAPFRAME_VA / PGSIZE

def trampPpn (E : Env) : Nat := alignDown E.trampoline / PGSIZE

def trampEntry (E : Env) : Entry := .new (trampPpn E) (PTE_R ||| PTE_X ||| PTE_A ||| PTE_V)

def trapframeEntry (n : Nat) : Entry := .new n (PTE_R ||| PTE_W ||| PTE_A ||| PTE_D ||| PTE_V)

def trampLeaf (E : Env) : PageMap := Function.update (fun _ => none) trampPage (some (trampEntry E))

def kernelLeaves (E : Env) (tf : Nat) : PageMap := Function.update (trampLeaf E) trapPage (some (trapframeEntry tf))

/-- The trampoline is in neither region. -/
structure Env.Fits (E : Env) (ph₀ : Phys) : Prop where
  small : trampPpn E < 2 ^ 43
  outside : ∀ k, ¬ph₀.InRegion k (trampPpn E)

/-! ### Processes and the machine -/

def Process.Live (p : Process) : Prop := p.state ≠ .unused

/-- What a live process has: its page table and its trap frame. -/
structure Process.Owns (E : Env) (ph₀ : Phys) (p : Process) (t f : Asset) : Prop where
  root : p.rootPtFrame = some p.rootPtPa ∧ PGSIZE ∣ p.rootPtPa
  table : ∃ node m, t = .table p.table node m (userOwn ph₀) ∧ UserMap ph₀ (kernelLeaves E (p.trapframe / PGSIZE)) m
  trapframe : p.trapframeFrame = some p.trapframe ∧ PGSIZE ∣ p.trapframe ∧ p.trapframeVa = TRAPFRAME_VA
  frame : f = .frame (p.trapframe / PGSIZE)
  small : p.table < 2 ^ 43 ∧ p.trapframe / PGSIZE < 2 ^ 43
  kstack : p.kstack = some p.pid
  heap : p.heapBase ≤ MMAP_BEGIN → p.heapTop ≤ MMAP_BEGIN

/-- The pages of kernel stacks that are mapped. The process id 0 is that of the kernel itself. -/
def Kernel.stackMapped (k : Kernel) (q : Nat) : Prop := stackOf 0 q ∨ ∃ i, (k.procs i).Live ∧ stackOf (k.procs i).pid q

structure World (E : Env) (ph₀ : Phys) (ring : Nat → Prop) (k : Kernel) (A : Holder → Asset) (used : Nat → Prop) : Prop where
  estate : Estate k.ph A used
  bounds : ph₀.SameBounds k.ph
  fits : E.Fits ph₀
  kernel : ∃ node m, A .kernel = .table E.kpt node m kernelOwn ∧ KernelMap ph₀ m k.stackMapped
  spare : A .newTable = .none ∧ A .newFrame = .none
  lost : ∃ S, A .lost = .pages S
  ring : A .ring = .pages ring
  owns : ∀ i, (k.procs i).Live → i < NPROC ∧ (k.procs i).Owns E ph₀ (A (.table i)) (A (.frame i))
  unused : ∀ i, ¬(k.procs i).Live → A (.table i) = .none ∧ A (.frame i) = .none
  pids : ∀ i, (k.procs i).Live → 0 < (k.procs i).pid ∧ (k.procs i).pid < k.globalPid
  apart : ∀ i j, (k.procs i).Live → (k.procs j).Live → (k.procs i).pid = (k.procs j).pid → i = j
  nextPid : 0 < k.globalPid ∧ k.globalPid < 2 ^ 14

lemma trampPage_ne_trapPage : trampPage ≠ trapPage := by decide

lemma kernelLeaves_tramp (E : Env) (tf : Nat) : kernelLeaves E tf trampPage = some (trampEntry E) := by
  unfold kernelLeaves trampLeaf
  rw [Function.update_of_ne trampPage_ne_trapPage, Function.update_self]

lemma kernelLeaves_trap (E : Env) (tf : Nat) : kernelLeaves E tf trapPage = some (trapframeEntry tf) := by
  unfold kernelLeaves
  rw [Function.update_self]

lemma kernelLeaves_eq_none {E : Env} {tf q : Nat} (h : q ≠ trampPage) (h' : q ≠ trapPage) : kernelLeaves E tf q = none := by
  unfold kernelLeaves trampLeaf
  rw [Function.update_of_ne h', Function.update_of_ne h]

lemma kernelLeaves_low {E : Env} {tf q : Nat} (h : q * PGSIZE < MMAP_END) : kernelLeaves E tf q = none := by
  have htramp : MMAP_END < trampPage * PGSIZE := by decide
  have htrap : MMAP_END < trapPage * PGSIZE := by decide
  refine kernelLeaves_eq_none ?_ ?_ <;> rintro rfl <;> omega

lemma Process.Owns.root_eq {E : Env} {ph₀ : Phys} {p : Process} {t f : Asset} (h : p.Owns E ph₀ t f) :
    p.rootPtPa = p.table * PGSIZE := (Nat.div_mul_cancel h.root.2).symm

lemma Process.Owns.trapframe_eq {E : Env} {ph₀ : Phys} {p : Process} {t f : Asset} (h : p.Owns E ph₀ t f) :
    p.trapframe = p.trapframe / PGSIZE * PGSIZE := (Nat.div_mul_cancel h.trapframe.2.1).symm

/-- The fields that are not about memory change, the heap within its bounds. -/
structure Process.Alike (p p' : Process) : Prop where
  live : p'.Live ↔ p.Live
  pid : p'.pid = p.pid
  root : p'.rootPtPa = p.rootPtPa ∧ p'.rootPtFrame = p.rootPtFrame
  trapframe : p'.trapframe = p.trapframe ∧ p'.trapframeFrame = p.trapframeFrame ∧ p'.trapframeVa = p.trapframeVa
  kstack : p'.kstack = p.kstack
  heap : (p.heapBase ≤ MMAP_BEGIN → p.heapTop ≤ MMAP_BEGIN) → p'.heapBase ≤ MMAP_BEGIN → p'.heapTop ≤ MMAP_BEGIN

lemma Process.Alike.refl (p : Process) : p.Alike p := ⟨Iff.rfl, rfl, ⟨rfl, rfl⟩, ⟨rfl, rfl, rfl⟩, rfl, id⟩

lemma Process.Owns.alike {E : Env} {ph₀ : Phys} {p p' : Process} {t f : Asset} (h : p.Owns E ph₀ t f) (ha : p.Alike p') :
    p'.Owns E ph₀ t f := by
  have htable : p'.table = p.table := by
    unfold Process.table
    rw [ha.root.1]
  refine ⟨?_, ?_, ?_, ?_, ?_, ?_, ha.heap h.heap⟩
  · rw [ha.root.1, ha.root.2]
    exact h.root
  · rw [htable, ha.trapframe.1]
    exact h.table
  · rw [ha.trapframe.1, ha.trapframe.2.1, ha.trapframe.2.2]
    exact h.trapframe
  · rw [ha.trapframe.1]
    exact h.frame
  · rw [htable, ha.trapframe.1]
    exact h.small
  · rw [ha.kstack, ha.pid]
    exact h.kstack

namespace World

variable {P : Profile} {E : Env} {ph₀ : Phys} {k k' : Kernel} {A A' : Holder → Asset} {ring used used' : Nat → Prop} {i : Nat}

lemma stackMapped_alike (hp : ∀ i, (k.procs i).Alike (k'.procs i)) (q : Nat) : k'.stackMapped q ↔ k.stackMapped q := by
  unfold Kernel.stackMapped
  refine or_congr_right (exists_congr fun i => ?_)
  rw [(hp i).live, (hp i).pid]

lemma stackMapped_born (hu : ¬(k.procs i).Live) (hl : (k'.procs i).Live) (ho : ∀ j, j ≠ i → k'.procs j = k.procs j) (q : Nat) :
    k'.stackMapped q ↔ k.stackMapped q ∨ stackOf (k'.procs i).pid q := by
  unfold Kernel.stackMapped
  rw [or_assoc]
  refine or_congr_right ⟨?_, ?_⟩
  · rintro ⟨j, hj, hq⟩
    by_cases hji : j = i
    · subst hji
      exact .inr hq
    · rw [ho j hji] at hj hq
      exact .inl ⟨j, hj, hq⟩
  · rintro (⟨j, hj, hq⟩ | hq)
    · have hji : j ≠ i := fun he => hu (he ▸ hj)
      refine ⟨j, ?_⟩
      rw [ho j hji]
      exact ⟨hj, hq⟩
    · exact ⟨i, hl, hq⟩

lemma stackMapped_gone (h : World E ph₀ ring k A used) (hl : (k.procs i).Live) (hu : ¬(k'.procs i).Live)
    (ho : ∀ j, j ≠ i → k'.procs j = k.procs j) (q : Nat) :
    k'.stackMapped q ↔ k.stackMapped q ∧ ¬stackOf (k.procs i).pid q := by
  have hpos := (h.pids i hl).1
  unfold Kernel.stackMapped
  constructor
  · rintro (hq | ⟨j, hj, hq⟩)
    · exact ⟨.inl hq, fun hc => by rw [stackOf_inj hc hq] at hpos; omega⟩
    · have hji : j ≠ i := fun he => hu (he ▸ hj)
      rw [ho j hji] at hj hq
      exact ⟨.inr ⟨j, hj, hq⟩, fun hc => hji (h.apart j i hj hl (stackOf_inj hq hc))⟩
  · rintro ⟨hq | ⟨j, hj, hq⟩, hnot⟩
    · exact .inl hq
    · have hji : j ≠ i := by
        rintro rfl
        exact hnot hq
      refine .inr ⟨j, ?_⟩
      rw [ho j hji]
      exact ⟨hj, hq⟩

lemma alike (h : World E ph₀ ring k A used) (hph : k'.ph = k.ph) (hg : k'.globalPid = k.globalPid)
    (hp : ∀ i, (k.procs i).Alike (k'.procs i)) : World E ph₀ ring k' A used := by
  refine ⟨hph ▸ h.estate, hph ▸ h.bounds, h.fits, ?_, h.spare, h.lost, h.ring, fun i hi => ?_, fun i hi => ?_, fun i hi => ?_,
    fun i j hi hj he => ?_, hg ▸ h.nextPid⟩
  · obtain ⟨node, m, hA, hm⟩ := h.kernel
    exact ⟨node, m, hA, hm.congr (stackMapped_alike hp)⟩
  · obtain ⟨hlt, hown⟩ := h.owns i ((hp i).live.mp hi)
    exact ⟨hlt, hown.alike (hp i)⟩
  · exact h.unused i fun hl => hi ((hp i).live.mpr hl)
  · rw [hg, (hp i).pid]
    exact h.pids i ((hp i).live.mp hi)
  · rw [(hp i).pid, (hp j).pid] at he
    exact h.apart i j ((hp i).live.mp hi) ((hp j).live.mp hj) he

lemma change (h : World E ph₀ ring k A used) (hest : Estate k'.ph A' used') (hb : ph₀.SameBounds k'.ph)
    (hA : ∀ l, l ≠ .table i → l ≠ .frame i → l ≠ .kernel → l ≠ .lost → A' l = A l) (hlost : ∃ S, A' .lost = .pages S)
    (hkernel : ∃ node m, A' .kernel = .table E.kpt node m kernelOwn ∧ KernelMap ph₀ m k'.stackMapped)
    (ho : ∀ j, j ≠ i → k'.procs j = k.procs j)
    (howns : (k'.procs i).Live → i < NPROC ∧ (k'.procs i).Owns E ph₀ (A' (.table i)) (A' (.frame i)))
    (hunused : ¬(k'.procs i).Live → A' (.table i) = .none ∧ A' (.frame i) = .none)
    (hpid : (k'.procs i).Live → 0 < (k'.procs i).pid ∧ (k'.procs i).pid < k'.globalPid ∧
      ∀ j, j ≠ i → (k.procs j).Live → (k.procs j).pid ≠ (k'.procs i).pid)
    (hg : k.globalPid ≤ k'.globalPid ∧ k'.globalPid < 2 ^ 14) : World E ph₀ ring k' A' used' := by
  have hother : ∀ j, j ≠ i → A' (.table j) = A (.table j) ∧ A' (.frame j) = A (.frame j) := by
    intro j hj
    exact ⟨hA _ (by simpa using hj) nofun nofun nofun, hA _ nofun (by simpa using hj) nofun nofun⟩
  refine ⟨hest, hb, h.fits, hkernel, ?_, hlost, (hA .ring nofun nofun nofun nofun).trans h.ring, fun j hj => ?_, fun j hj => ?_, fun j hj => ?_, fun j l hj hl he => ?_,
    h.nextPid.1.trans_le hg.1, hg.2⟩
  · exact ⟨(hA .newTable nofun nofun nofun nofun).trans h.spare.1, (hA .newFrame nofun nofun nofun nofun).trans h.spare.2⟩
  · by_cases hji : j = i
    · subst hji
      exact howns hj
    · rw [ho j hji] at hj ⊢
      rw [(hother j hji).1, (hother j hji).2]
      exact h.owns j hj
  · by_cases hji : j = i
    · subst hji
      exact hunused hj
    · rw [ho j hji] at hj
      rw [(hother j hji).1, (hother j hji).2]
      exact h.unused j hj
  · by_cases hji : j = i
    · subst hji
      exact ⟨(hpid hj).1, (hpid hj).2.1⟩
    · rw [ho j hji] at hj ⊢
      exact ⟨(h.pids j hj).1, (h.pids j hj).2.trans_le hg.1⟩
  · by_cases hji : j = i
    · by_cases hli : l = i
      · rw [hji, hli]
      · subst hji
        rw [ho l hli] at hl he
        exact absurd he.symm ((hpid hj).2.2 l hli hl)
    · rw [ho j hji] at hj he
      by_cases hli : l = i
      · subst hli
        exact absurd he ((hpid hl).2.2 j hji hj)
      · rw [ho l hli] at hl he
        exact h.apart j l hj hl he

end World

end Glenda.Proc
