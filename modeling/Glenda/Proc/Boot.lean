import Glenda.Mem.PmemInit
import Glenda.Proc.WorldRuns

/-!
# The machine before the first process

Once the kernel has set up its page table it holds the tables and the stack of the process id 0, the disk has its
ring, and all other pages are free. The small machine of `bootKernel` gets there.
-/

namespace Glenda.Proc
open Glenda.Lib Glenda.Mem Glenda.Mem.KernelVm

def bootAssets (E : Env) (ring : Nat → Prop) (node : List Nat → Option Nat) (m : PageMap) : Holder → Asset
  | .kernel => .table E.kpt node m kernelOwn
  | .ring => .pages ring
  | .lost => .pages fun _ => False
  | _ => .none

structure Booted (E : Env) (ring : Nat → Prop) (k : Kernel) : Prop where
  procs : ∀ i, k.procs i = .new
  globalPid : k.globalPid = 1
  nodes : ∃ free, RegionLists k.wh none [] free
  fits : E.Fits k.ph
  memory : ∃ node m used, Estate k.ph (bootAssets E ring node m) used ∧ KernelMap k.ph m (stackOf 0)

variable {P : Profile} {E : Env} {ring : Nat → Prop} {k : Kernel} {ph ph' : Phys} {u : Unit}

lemma Booted.not_live (h : Booted E ring k) (i : Nat) : ¬(k.procs i).Live := by
  rw [h.procs i]
  exact not_not.mpr rfl

lemma Booted.shared_pid {g : Nat} (h : Booted E ring k) (hg : 0 < g ∧ g < 2 ^ 14) :
    ∃ A, Shared E k.ph ring { k with globalPid := g } A ∧ A .lost = .pages fun _ => False := by
  obtain ⟨node, m, used, hest, hm⟩ := h.memory
  obtain ⟨free, hfree⟩ := h.nodes
  have hdead := h.not_live
  refine ⟨_, ⟨used, fun _ => [], free, ⟨hest, .refl _, h.fits, ⟨node, m, rfl, hm.congr fun q => ?_⟩, ⟨rfl, rfl⟩, ⟨_, rfl⟩, rfl,
    fun i hi => absurd hi (hdead i), fun i _ => ⟨rfl, rfl⟩, fun i hi => absurd hi (hdead i),
    fun i j hi => absurd hi (hdead i), hg⟩, ⟨fun i _ => ?_, fun i _ j _ _ => List.disjoint_nil_left _,
    fun i _ _ => ?_⟩, fun i _ => .nil⟩, rfl⟩
  · refine or_iff_left ?_
    rintro ⟨i, hi, -⟩
    exact hdead i hi
  · dsimp only
    rw [h.procs i]
    exact hfree
  · dsimp only
    rw [h.procs i]
    rfl

lemma Booted.shared (h : Booted E ring k) : ∃ A, Shared E k.ph ring k A ∧ A .lost = .pages fun _ => False :=
  h.shared_pid (by rw [h.globalPid]; decide)

/-! ### The small machine -/

/-- What the kernel maps for itself beyond its identity map: the trampoline, and a stack. -/
def mapKernel (P : Profile) (E : Env) : K Phys Nat := do
  mapTrampoline P E E.kpt
  allocKstack P E.kpt 0

lemma chain_pagesDown {mem : Nat → Nat → Nat} {lo n : Nat} (hfirst : mem lo 0 = 0)
    (hnext : ∀ i, i + 1 < n → mem (lo + i + 1) 0 = (lo + i) * PGSIZE) (hlo : 0 < lo) :
    Chain (freeNext mem) (if n = 0 then none else some ((lo + (n - 1)) * PGSIZE)) (pagesDown lo n) := by
  induction n with
  | zero => rfl
  | succ n ih =>
    rw [if_neg (by omega), pagesDown, Chain, Seg.cons]
    refine ⟨rfl, ?_⟩
    have hprev := ih fun i hi => hnext i (by omega)
    unfold freeNext
    rw [div_mul_PGSIZE]
    cases n with
    | zero =>
      rw [Nat.add_zero, hfirst]
      rfl
    | succ n =>
      rw [← Nat.add_assoc, hnext n (by omega)]
      rw [if_neg (by omega), Nat.add_sub_cancel] at hprev
      have hpos : (lo + n) * PGSIZE ≠ 0 := Nat.mul_ne_zero (by omega) (by decide)
      rw [show ptr ((lo + n) * PGSIZE) = some ((lo + n) * PGSIZE) from if_neg hpos]
      exact hprev

lemma bootKernel_pmem : PmemInv bootKernel.ph (fun b => if b then pagesDown 0x80001 48 else pagesDown 0x80031 16) (· = 0x80000) := by
  have hpage : ∀ b a, a ∈ (if b then pagesDown 0x80001 48 else pagesDown 0x80031 16) →
      ∃ x, a = x * PGSIZE ∧ (bootKernel.ph.region b).lower ≤ x * 4096 ∧ x * 4096 < (bootKernel.ph.region b).upper := by
    intro b a ha
    cases b
    · obtain ⟨x, hlo, hlt, rfl⟩ := mem_pagesDown.mp ha
      exact ⟨x, rfl, (by show 0x80031000 ≤ _; omega), (by show _ < 0x80041000; omega)⟩
    · obtain ⟨x, hlo, hlt, rfl⟩ := mem_pagesDown.mp ha
      exact ⟨x, rfl, (by show 0x80001000 ≤ _; omega), (by show _ < 0x80031000; omega)⟩
  have hnext : ∀ n, 0x80001 < n ∧ n < 0x80031 ∨ 0x80031 < n ∧ n < 0x80041 → bootKernel.ph.mem n 0 = (n - 1) * PGSIZE :=
    fun n hn => if_pos ⟨rfl, hn⟩
  refine ⟨fun b => ?_, fun b => ?_, fun b a ha => ?_, fun b a ha => ?_, fun b a ha => rfl, fun b a ha => ?_, by decide, by decide⟩
  · cases b
    · exact @chain_pagesDown bootKernel.ph.mem 0x80031 16 (by decide) (fun i hi => hnext _ (by omega)) (by decide)
    · exact @chain_pagesDown bootKernel.ph.mem 0x80001 48 (by decide) (fun i hi => hnext _ (by omega)) (by decide)
  · cases b <;> exact nodup_pagesDown _ _
  · obtain ⟨x, rfl, -⟩ := hpage b a ha
    exact Nat.mul_mod_left _ _
  · obtain ⟨x, rfl, hlo, hlt⟩ := hpage b a ha
    exact ⟨hlo, hlt⟩
  · obtain ⟨x, rfl, hlo, -⟩ := hpage b a ha
    rw [div_mul_PGSIZE]
    rintro rfl
    cases b
    · exact absurd hlo (by decide)
    · exact absurd hlo (by decide)

lemma bootKernel_estate : Estate bootKernel.ph (bootAssets bootEnv (fun _ => False) (Space.rootNode 0x80000) fun _ => none) (· = 0x80000) := by
  have hfoot : ∀ l n, (bootAssets bootEnv (fun _ => False) (Space.rootNode 0x80000) (fun _ => none) l).foot n ↔
      l = .kernel ∧ n = 0x80000 := by
    intro l n
    cases l with
    | kernel => exact Space.foot_rootNode.trans (by simp)
    | _ => simp [bootAssets, Asset.foot]
  refine ⟨⟨⟨_, bootKernel_pmem⟩, fun n => ?_, fun l l' n hl hl' => ?_, fun b n hin => ⟨.inl ⟨b, ?_⟩, ?_⟩⟩, fun l => ?_⟩
  · simp [hfoot]
  · rw [((hfoot l n).mp hl).1, ((hfoot l' n).mp hl').1]
  · rw [bootKernel_pmem.onFree_iff]
    obtain ⟨hlo, hlt⟩ := hin
    cases b
    · change 0x80031000 ≤ n * 4096 at hlo
      change n * 4096 < 0x80041000 at hlt
      exact mem_pagesDown.mpr ⟨n, by omega, by omega, rfl⟩
    · change 0x80001000 ≤ n * 4096 at hlo
      change n * 4096 < 0x80031000 at hlt
      exact mem_pagesDown.mpr ⟨n, by omega, by omega, rfl⟩
  · rintro rfl
    cases b
    · exact absurd hin.1 (by decide)
    · exact absurd hin.1 (by decide)
  · cases l with
    | kernel => exact Space.root bootKernel_pmem rfl (funext fun i => if_neg fun hc => absurd hc.2 (by decide))
    | _ => trivial

lemma KernelMap.bounds {m : PageMap} {mapped : Nat → Prop} (h : KernelMap ph m mapped) (hb : ph.SameBounds ph') :
    KernelMap ph' m mapped := by
  obtain ⟨e, he, hk⟩ := h.tramp
  exact ⟨⟨e, he, fun k => by rw [hb.inRegion]; exact hk k⟩, h.stack⟩

lemma bootEnv_fits : bootEnv.Fits bootKernel.ph := by
  refine ⟨by decide, fun b => ?_⟩
  unfold Phys.InRegion
  cases b <;> decide

lemma bootKernel_booted {top : Nat} (he : mapKernel P bootEnv bootKernel.ph = .ok (top, ph')) :
    Booted bootEnv (fun _ => False) { bootKernel with ph := ph' } := by
  unfold mapKernel at he
  obtain ⟨u, ph1, htramp, he⟩ := K.bind_ok he
  unfold mapTrampoline at htramp
  have hpa : alignDown bootEnv.trampoline = trampPpn bootEnv * PGSIZE := (Nat.div_mul_cancel (Uvm.dvd_alignDown _)).symm
  rw [tramp_va, hpa, mappages_eq_ok] at htramp
  have hs := bootKernel_estate.space (i := .kernel) rfl
  have hown : ¬stackArea trampPage := fun hc => lt_irrefl _ hc.2
  obtain ⟨-, node1, used1, hext, hs1, -⟩ := hs.mapPage (by decide) (by decide) (bootEnv_fits.small.trans (by decide)) nofun (fun ho => absurd ho hown) htramp
  have hs1 := hs1 rfl
  have h1 : Estate ph1 (Function.update (bootAssets bootEnv (fun _ => False) (Space.rootNode 0x80000) fun _ => none) .kernel
      (.table bootEnv.kpt node1 (Function.update (fun _ => none) trampPage (some (trampEntry bootEnv))) kernelOwn)) used1 := by
    refine bootKernel_estate.step (hs1.shared hext fun q e ho => ?_) hs1.pmem hs1
    have hq : q ≠ trampPage := fun hq => hown (hq ▸ ho)
    rw [Function.update_of_ne hq]
  have hm1 : KernelMap bootKernel.ph (Function.update (fun _ => none) trampPage (some (trampEntry bootEnv))) fun _ => False := by
    refine ⟨⟨_, Function.update_self .., fun b => ?_⟩, fun q hq => ?_⟩
    · rw [bootEnv_fits.trampEntry_ppn]
      exact bootEnv_fits.outside b
    · have hq' : q ≠ trampPage := fun hc => hown (hc ▸ hq)
      simp [hq']
  obtain ⟨-, node2, m2, used2, h2, hm2, hb2⟩ := h1.allocKstack (Function.update_self ..) hm1 hext.takes.region (by decide) he
  rw [Function.update_idem] at h2
  have hassets : Function.update (bootAssets bootEnv (fun _ => False) (Space.rootNode 0x80000) fun _ => none) .kernel
      (.table bootEnv.kpt node2 m2 kernelOwn) = bootAssets bootEnv (fun _ => False) node2 m2 := by
    funext l
    cases l with
    | kernel => exact Function.update_self ..
    | _ => rfl
  rw [hassets] at h2
  have hnodes := (bootKernel_nodes.lists 0 (by decide))
  refine ⟨fun _ => rfl, rfl, ⟨_, hnodes⟩, ⟨bootEnv_fits.small, fun b => ?_⟩, node2, m2, used2, h2, ?_⟩
  · rw [hb2.inRegion]
    exact bootEnv_fits.outside b
  · exact KernelMap.bounds (hm2.congr fun q => by rw [false_or]) hb2

lemma exists_run {α : Type} (P : Profile) (allowed : Kernel → Op → Bool → Prop) (test : Kernel → Op → Bool → Bool) (ops : List Op)
    (f : Kernel → α) (a : α) (htest : ∀ k, ∀ op ∈ ops, ∀ b, test k op b = true → allowed k op b)
    (h : StateT.run' (do
      let _ ← onPhys (mapKernel P bootEnv)
      let b ← performAll P bootEnv test ops
      let k ← get
      return (b, f k)) bootKernel = .ok (true, a)) :
    ∃ k0 k, Booted bootEnv (fun _ => False) k0 ∧ Reaches P bootEnv allowed k0 k ∧ f k = a := by
  obtain ⟨k, he⟩ := K.exists_of_run' h
  obtain ⟨top, ph1, hkernel, he⟩ := onPhys_bind_ok he
  obtain ⟨b, k2, hall, he⟩ := K.bind_ok he
  obtain ⟨k3, k4, hget, he⟩ := K.bind_ok he
  cases hget
  simp only [K.pure_apply, Except.ok.injEq, Prod.mk.injEq] at he
  obtain ⟨⟨rfl, hf⟩, -⟩ := he
  exact ⟨_, k2, bootKernel_booted hkernel, .of_performAll htest .start hall, hf⟩

/-- A program with one segment, all zeros. -/
def zeroElf (vaddr memsz : Nat) : List Nat :=
  [0x7f, 0x45, 0x4c, 0x46] ++ List.replicate 20 0 ++ toNeBytes vaddr ++ toNeBytes 64 ++ List.replicate 14 0 ++
    [56, 0, 1, 0, 0, 0, 0, 0, 0, 0] ++ [1, 0, 0, 0, 7, 0, 0, 0] ++
    toNeBytes 0 ++ toNeBytes vaddr ++ toNeBytes vaddr ++ toNeBytes 0 ++ toNeBytes memsz ++ toNeBytes 0

/-- What `inode_read_data` returns for a file with the given contents. -/
def readBytes (contents : List Nat) (off len : Nat) : List Nat := (contents.drop off).take len

lemma bytes_readBytes {contents : List Nat} (h : ∀ b ∈ contents, b < 256) : Bytes (readBytes contents) :=
  fun _ _ b hb => h b (List.mem_of_mem_drop (List.mem_of_mem_take hb))

lemma bytes_zeroElf (vaddr memsz : Nat) : Bytes (readBytes (zeroElf vaddr memsz)) := by
  have hne : ∀ x, (∀ b ∈ toNeBytes x, b < 256) ↔ True := fun x => iff_of_true (toNeBytes_lt x) trivial
  apply bytes_readBytes
  simp only [zeroElf, List.forall_mem_append, hne, and_true]
  decide

end Glenda.Proc
