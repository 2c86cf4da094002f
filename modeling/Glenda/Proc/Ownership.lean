import Glenda.Proc.Boot

/-!
# Every page has one owner

A page of the two regions is free, or one of these owns it: a user leaf of a process, the place of a table in the page
table of a process or of the kernel, the trap frame of a process, a leaf of the kernel stacks, or the ring of the disk. All of
this is read off the memory of the machine.
-/

namespace Glenda.Mem
open Glenda.Lib

lemma Space.denote_page {ph : Phys} {table q : Nat} {node : List Nat → Option Nat} {m : PageMap} {own : Nat → Entry → Prop}
    {used : Nat → Prop} (h : Space ph table node m own used) (hq : q * PGSIZE < VA_MAX) :
    PageTable.denote ph.mem table (q * PGSIZE) = m q := by
  rw [h.tree.denote_eq hq, Nat.mul_div_cancel _ (by decide)]

end Glenda.Mem

namespace Glenda.Proc
open Glenda.Lib Glenda.Mem Glenda.Mem.KernelVm

inductive Owner
  | leaf (i q : Nat)
  | table (i : Nat) (path : List Nat)
  | kernelTable (path : List Nat)
  | trapframe (i : Nat)
  | kstack (q : Nat)
  | ring

/-- Who owns the page `n`. -/
def Kernel.OwnedBy (E : Env) (ring : Nat → Prop) (k : Kernel) (n : Nat) : Owner → Prop
  | .leaf i q => (k.procs i).Live ∧ q * PGSIZE < VA_MAX ∧
    ∃ e, PageTable.denote k.ph.mem (k.procs i).table (q * PGSIZE) = some e ∧ e.User ∧ e.ppn = n
  | .table i path => (k.procs i).Live ∧ path.length ≤ 2 ∧ PageTable.tableAt k.ph.mem (k.procs i).table path = some n
  | .kernelTable path => path.length ≤ 2 ∧ PageTable.tableAt k.ph.mem E.kpt path = some n
  | .trapframe i => (k.procs i).Live ∧ (k.procs i).trapframeFrame = some (n * PGSIZE)
  | .kstack q => stackArea q ∧ ∃ e, PageTable.denote k.ph.mem E.kpt (q * PGSIZE) = some e ∧ e.ppn = n
  | .ring => ring n

/-- Every page of the two regions is on the free list of its region, or has exactly one owner. -/
def Kernel.SoleOwners (E : Env) (ring : Nat → Prop) (k : Kernel) : Prop :=
  ∀ b n, k.ph.InRegion b n → (k.ph.OnFree b (n * PGSIZE) ↔ ∀ o, ¬k.OwnedBy E ring n o) ∧
    ∀ o o', k.OwnedBy E ring n o → k.OwnedBy E ring n o' → o = o'

def Owner.holder : Owner → Holder
  | .leaf i _ | .table i _ => .table i
  | .kernelTable _ | .kstack _ => .kernel
  | .trapframe i => .frame i
  | .ring => .ring

namespace World

variable {P : Profile} {E : Env} {ph₀ : Phys} {k : Kernel} {A : Holder → Asset} {ring used : Nat → Prop} {n i q : Nat} {o o' : Owner}
  {path : List Nat}

lemma table_space (h : World E ph₀ ring k A used) (hi : (k.procs i).Live) : ∃ node m,
    A (.table i) = .table (k.procs i).table node m (userOwn ph₀) ∧ Space k.ph (k.procs i).table node m (userOwn ph₀) used ∧
      ∀ q e, m q = some e → e.User → userOwn ph₀ q e := by
  obtain ⟨node, m, hA, hm⟩ := (h.owns i hi).2.table
  exact ⟨node, m, hA, h.estate.space hA, fun q e hq hu => (h.estate.userTable hA hm h.bounds).owned hq hu⟩

lemma kernel_space (h : World E ph₀ ring k A used) : ∃ node m,
    A .kernel = .table E.kpt node m kernelOwn ∧ Space k.ph E.kpt node m kernelOwn used := by
  obtain ⟨node, m, hA, -⟩ := h.kernel
  exact ⟨node, m, hA, h.estate.space hA⟩

lemma stackArea_lt (hq : stackArea q) : q * PGSIZE < VA_MAX := by
  have hv : VA_MAX = (trampPage + 1) * PGSIZE := by decide
  have hlt := hq.2
  rw [hv]
  unfold PGSIZE
  omega

section

variable (h : World E ph₀ ring k A used)
include h

lemma held (ho : k.OwnedBy E ring n o) : (A o.holder).foot n := by
  cases o with
  | leaf i q =>
    obtain ⟨hi, hq, e, hd, hu, rfl⟩ := ho
    obtain ⟨node, m, hA, hs, hown⟩ := h.table_space hi
    rw [hs.denote_page hq] at hd
    rw [Owner.holder, hA]
    exact .inr ⟨q, e, hd, hown q e hd hu, rfl⟩
  | table i path =>
    obtain ⟨hi, hlen, hp⟩ := ho
    obtain ⟨node, m, hA, hs, -⟩ := h.table_space hi
    rw [Owner.holder, hA]
    exact .inl ⟨path, hs.tree.node_iff.mpr ⟨hlen, hp⟩⟩
  | kernelTable path =>
    obtain ⟨node, m, hA, hs⟩ := h.kernel_space
    rw [Owner.holder, hA]
    exact .inl ⟨path, hs.tree.node_iff.mpr ho⟩
  | trapframe i =>
    obtain ⟨hi, htf⟩ := ho
    obtain ⟨-, hown⟩ := h.owns i hi
    rw [hown.trapframe.1] at htf
    rw [Owner.holder, hown.frame, Option.some.inj htf, div_mul_PGSIZE]
    exact rfl
  | kstack q =>
    obtain ⟨hq, e, hd, rfl⟩ := ho
    obtain ⟨node, m, hA, hs⟩ := h.kernel_space
    rw [hs.denote_page (stackArea_lt hq)] at hd
    rw [Owner.holder, hA]
    exact .inr ⟨q, e, hd, hq, rfl⟩
  | ring =>
    rw [Owner.holder, h.ring]
    exact ho

lemma owned {l : Holder} (hn : (A l).foot n) (hlost : l ≠ .lost) : ∃ o, k.OwnedBy E ring n o := by
  cases l with
  | kernel =>
    obtain ⟨node, m, hA, hs⟩ := h.kernel_space
    rw [hA] at hn
    rcases hn with ⟨path, hp⟩ | ⟨q, e, hq, ho, rfl⟩
    · exact ⟨.kernelTable path, hs.tree.node_iff.mp hp⟩
    · exact ⟨.kstack q, ho, e, (hs.denote_page (stackArea_lt ho)).trans hq, rfl⟩
  | ring =>
    rw [h.ring] at hn
    exact ⟨.ring, hn⟩
  | lost => exact absurd rfl hlost
  | table i =>
    by_cases hi : (k.procs i).Live
    · obtain ⟨node, m, hA, hm⟩ := (h.owns i hi).2.table
      have hs := h.estate.space hA
      rw [hA] at hn
      rcases hn with ⟨path, hp⟩ | ⟨q, e, hq, ho, rfl⟩
      · exact ⟨.table i path, hi, hs.tree.node_iff.mp hp⟩
      · have hlt : q * PGSIZE < VA_MAX := by
          have hlow := hm.low q e hq
          unfold PGSIZE VA_MAX
          omega
        exact ⟨.leaf i q, hi, hlt, e, (hs.denote_page hlt).trans hq, ho.1, rfl⟩
    · rw [(h.unused i hi).1] at hn
      cases hn
  | frame i =>
    by_cases hi : (k.procs i).Live
    · obtain ⟨-, hown⟩ := h.owns i hi
      rw [hown.frame] at hn
      refine ⟨.trapframe i, hi, ?_⟩
      rw [show n = (k.procs i).trapframe / PGSIZE from hn, hown.trapframe.1, ← hown.trapframe_eq]
    · rw [(h.unused i hi).2] at hn
      cases hn
  | newTable =>
    rw [h.spare.1] at hn
    cases hn
  | newFrame =>
    rw [h.spare.2] at hn
    cases hn

lemma owner_unique (ho : k.OwnedBy E ring n o) (ho' : k.OwnedBy E ring n o') : o = o' := by
  have hh := h.estate.holding.apart _ _ n (h.held ho) (h.held ho')
  cases o with
  | leaf i q =>
    obtain ⟨hi, hq, e, hd, hu, rfl⟩ := ho
    obtain ⟨node, m, -, hs, hown⟩ := h.table_space hi
    rw [hs.denote_page hq] at hd
    cases o' with
    | leaf j q' =>
      cases hh
      obtain ⟨-, hq', e', hd', hu', he⟩ := ho'
      rw [hs.denote_page hq'] at hd'
      rw [hs.unique q q' e e' hd hd' (hown q e hd hu) (hown q' e' hd' hu') he.symm]
    | table j path =>
      cases hh
      exact absurd (hs.tree.node_iff.mpr ho'.2) (hs.apart q e path hd (hown q e hd hu))
    | _ => cases hh
  | table i path =>
    obtain ⟨hi, hp⟩ := ho
    obtain ⟨node, m, -, hs, hown⟩ := h.table_space hi
    have hp := hs.tree.node_iff.mpr hp
    cases o' with
    | leaf j q =>
      cases hh
      obtain ⟨-, hq, e, hd, hu, rfl⟩ := ho'
      rw [hs.denote_page hq] at hd
      exact absurd hp (hs.apart q e path hd (hown q e hd hu))
    | table j path' =>
      cases hh
      rw [hs.tree.inj path path' n hp (hs.tree.node_iff.mpr ho'.2)]
    | _ => cases hh
  | kernelTable path =>
    obtain ⟨node, m, -, hs⟩ := h.kernel_space
    have hp := hs.tree.node_iff.mpr ho
    cases o' with
    | kernelTable path' => rw [hs.tree.inj path path' n hp (hs.tree.node_iff.mpr ho')]
    | kstack q =>
      obtain ⟨hq, e, hd, rfl⟩ := ho'
      rw [hs.denote_page (stackArea_lt hq)] at hd
      exact absurd hp (hs.apart q e path hd hq)
    | _ => cases hh
  | kstack q =>
    obtain ⟨hq, e, hd, rfl⟩ := ho
    obtain ⟨node, m, -, hs⟩ := h.kernel_space
    rw [hs.denote_page (stackArea_lt hq)] at hd
    cases o' with
    | kernelTable path => exact absurd (hs.tree.node_iff.mpr ho') (hs.apart q e path hd hq)
    | kstack q' =>
      obtain ⟨hq', e', hd', he⟩ := ho'
      rw [hs.denote_page (stackArea_lt hq')] at hd'
      rw [hs.unique q q' e e' hd hd' hq hq' he.symm]
    | _ => cases hh
  | trapframe i =>
    cases o' with
    | trapframe j =>
      cases hh
      rfl
    | _ => cases hh
  | ring =>
    cases o' with
    | ring => rfl
    | _ => cases hh

lemma soleOwners (hlost : ∀ n, ¬(A .lost).foot n) : k.SoleOwners E ring := by
  intro b n hin
  refine ⟨⟨fun hfree o ho => ?_, fun hno => ?_⟩, fun o o' ho ho' => h.owner_unique ho ho'⟩
  · obtain ⟨free, hp⟩ := h.estate.pmem
    have hunused := hp.unused b _ (hp.onFree_iff.mp hfree)
    rw [div_mul_PGSIZE] at hunused
    exact hunused ((h.estate.holding.used_iff n).mpr ⟨_, h.held ho⟩)
  · rcases (h.estate.holding.accounted b n hin).1 with ⟨b', hfree⟩ | hu
    · obtain ⟨free, hp⟩ := h.estate.pmem
      have hbounds := hp.bounds b' _ (hp.onFree_iff.mp hfree)
      have hsplit := hp.split
      have hb : b' = b := by
        unfold Phys.InRegion at hin
        cases b <;> cases b' <;> first | rfl | omega
      rwa [← hb]
    · obtain ⟨l, hl⟩ := (h.estate.holding.used_iff n).mp hu
      have hne : l ≠ .lost := by
        rintro rfl
        exact hlost n hl
      obtain ⟨o, ho⟩ := h.owned hl hne
      exact absurd ho (hno o)

end

end World

/-- In a run without failures in which no region of `mmap` wraps around, every page has one owner at all times. -/
theorem pages_solely_owned {P : Profile} {E : Env} {ring : Nat → Prop} {k₀ k : Kernel} (h₀ : Booted E ring k₀)
    (h : Reaches P E (fun _ op b => b = true ∧ op.Typed ∧ (P = .release → op.NoWrap)) k₀ k) : k.SoleOwners E ring := by
  obtain ⟨A₀, hA₀, hlost₀⟩ := h₀.shared
  obtain ⟨A, ⟨used, ids, free, hw, -⟩, hlost⟩ := hA₀.run_ok h fun _ _ _ ha => ha
  refine hw.soleOwners fun n hn => ?_
  rw [hlost, hlost₀] at hn
  exact hn

/-- The first process maps a page and unmaps it again. -/
theorem pages_solely_owned_boot : ∃ k₀ k, Booted bootEnv (fun _ => False) k₀ ∧
    Reaches .release bootEnv (fun _ op b => b = true ∧ op.Typed ∧ (Profile.release = .release → op.NoWrap)) k₀ k ∧
    (k.procs 0).state = .runnable ∧ k.SoleOwners bootEnv fun _ => False := by
  obtain ⟨k₀, k, h₀, hrun, hstate⟩ := exists_run .release
    (fun _ op b => b = true ∧ op.Typed ∧ (Profile.release = .release → op.NoWrap))
    (fun _ op b => b && decide op.NoWrap && !op.isExec)
    [.create [], .mmap 0 0 4096, .munmap 0 MMAP_BEGIN 4096] (fun k => (k.procs 0).state) .runnable
    (fun k op _ b ht => by
      simp only [Bool.and_eq_true, decide_eq_true_eq, Bool.not_eq_true'] at ht
      exact ⟨ht.1.1, Op.typed_of_not_exec ht.2, fun _ => ht.1.2⟩)
    (by decide +kernel)
  exact ⟨k₀, k, h₀, hrun, hstate, pages_solely_owned h₀ hrun⟩

/-- The first process maps a region that wraps around, and then unmaps its trap frame. -/
theorem trapframe_freed : ∃ k₀ k n, Booted bootEnv (fun _ => False) k₀ ∧
    Reaches .release bootEnv (fun _ op b => b = true ∧ op.Typed) k₀ k ∧
    k.OwnedBy bootEnv (fun _ => False) n (.trapframe 0) ∧ k.ph.OnFree true (n * PGSIZE) := by
  obtain ⟨k₀, k, h₀, hrun, hend⟩ := exists_run .release (fun _ op b => b = true ∧ op.Typed)
    (fun _ op b => b && !op.isExec)
    [.create [], .mmap 0 MMAP_BEGIN (2 ^ 64 - 4096), .munmap 0 TRAPFRAME_VA 4096]
    (fun k => ((k.procs 0).state, (k.procs 0).trapframeFrame, (k.ph.region true).head,
      (Lib.lastFrom (freeNext k.ph.mem) 64 (k.ph.region true).head).isSome))
    (.runnable, some (0x80026 * PGSIZE), some (0x80026 * PGSIZE), true)
    (fun k op _ b ht => by
      simp only [Bool.and_eq_true, Bool.not_eq_true'] at ht
      exact ⟨ht.1, Op.typed_of_not_exec ht.2⟩)
    (by decide +kernel)
  simp only [Prod.mk.injEq] at hend
  obtain ⟨hstate, hframe, hhead, hlast⟩ := hend
  obtain ⟨o, ho⟩ := Option.isSome_iff_exists.mp hlast
  obtain ⟨l, hl⟩ := Chain.of_lastFrom ho
  refine ⟨k₀, k, 0x80026, h₀, hrun, ⟨?_, hframe⟩, l, hl, ?_⟩
  · unfold Process.Live
    rw [hstate]
    nofun
  · rw [hhead] at hl
    cases l with
    | nil => cases hl
    | cons x l =>
      cases hl.1
      exact List.mem_cons_self ..

end Glenda.Proc
