import Glenda.Proc.WorldSteps

/-!
# Exec and fork

Both build a second page table. `proc_exec` gives the old one up once the new one is complete, and loses pages if it
cannot be completed. `fork` copies the table of the parent, and gives the child a trap frame of its own.
-/

namespace Glenda.Proc
open Glenda.Lib Glenda.Mem Glenda.Mem.KernelVm
open Function (update update_idem update_of_ne update_self)

variable {P : Profile} {E : Env} {ph₀ ph ph' ph₁ ph₂ ph₃ ph₄ : Phys} {k k' : Kernel} {A A' : Holder → Asset}
  {ring used used' : Nat → Prop} {i j : Nat} {u u₁ u₂ : Unit} {argv : List Nat} {n q c : Nat}

namespace World

/-! ### Exec -/

/-- Two holders of its own have the new image of the process `i`. -/
structure Prepared (E : Env) (ph₀ ph : Phys) (A B : Holder → Asset) (used : Nat → Prop) (root tf : Nat)
    (node : List Nat → Option Nat) (m : PageMap) : Prop where
  estate : Estate ph B used
  bounds : ph₀.SameBounds ph
  aligned : PGSIZE ∣ root ∧ PGSIZE ∣ tf
  small : root / PGSIZE < 2 ^ 43 ∧ tf / PGSIZE < 2 ^ 43
  table : B .newTable = .table (root / PGSIZE) node m (userOwn ph₀)
  frame : B .newFrame = .frame (tf / PGSIZE)
  other : ∀ l, l ≠ .newTable → l ≠ .newFrame → B l = A l
  leaves : UserMap ph₀ (kernelLeaves E (tf / PGSIZE)) m

variable {B : Holder → Asset} {root tf : Nat} {node : List Nat → Option Nat} {m : PageMap}

section

variable (h : World E ph₀ ring k A used)
include h

lemma loaded {file : Nat → Nat → List Nat} {res : Except Unit (Nat × Nat)} {ph5 : Phys} (hfile : Bytes file)
    (hl : Loaded P E i file argv k root tf res ph₁ ph₂ ph₃ ph₄ ph5) :
    ∃ B used' node m, Prepared E ph₀ ph5 A B used' root tf node m ∧
      ∀ q, ¬imagePage file (file 0 64) q → m q = kernelLeaves E (tf / PGSIZE) q := by
  obtain ⟨haligned, hsmall, node, used4, h4, hm4, hb4, -⟩ := newImage (t := .newTable) (f := .newFrame) h.estate h.bounds h.fits
    h.spare.1 h.spare.2 nofun hl.allocRoot hl.mapTramp hl.allocFrame hl.mapFrame
  have hev : Evolves ph₀ (kernelLeaves E (tf / PGSIZE)) (root / PGSIZE) (imagePage file (file 0 64)) True ph₄ ph5 :=
    buildImage_evolves hfile (fun _ hq => hq) hl.build
  obtain ⟨node5, m5, used5, h5, hm5, hT, hb5⟩ := h4.evolves (update_self ..) hm4 hb4 hev
  rw [update_idem] at h5
  refine ⟨_, used5, node5, m5, ⟨h5, hb5, haligned, hsmall, by simp, by simp, fun l ht hf => ?_, hm5⟩, hT⟩
  rw [update_of_ne ht, update_of_ne hf]

/-- The new image is given up. The pages that it has besides its root and its trap frame are lost. -/
lemma dropImage (hp : Prepared E ph₀ ph A B used' root tf node m)
    (hframe : frameDrop (some tf) ph = .ok (u, ph₁)) (hroot : frameDrop (some root) ph₁ = .ok (u₁, ph₂)) :
    ∃ A' used', World E ph₀ ring { k with ph := ph₂ } A' used' := by
  obtain ⟨S, hS⟩ := h.lost
  rw [← Nat.div_mul_cancel hp.aligned.2] at hframe
  obtain ⟨used1, h1, hb1, -⟩ := hp.estate.freeFrame hp.frame (frameDrop_some hframe)
  have ht : update B .newFrame .none .newTable = .table (root / PGSIZE) node m (userOwn ph₀) := by
    simp [hp.table]
  have hl : update B .newFrame .none .lost = .pages S := by
    simp [hp.other, hS]
  rw [← Nat.div_mul_cancel hp.aligned.1] at hroot
  obtain ⟨S', used2, h2, hb2⟩ := h1.abandon ht hl nofun (frameDrop_some hroot)
  obtain ⟨nodeK, mK, hK, hmK⟩ := h.kernel
  have hA : ∀ l, l ≠ .lost →
      update (update (update B .newFrame .none) .newTable .none) .lost (.pages S') l = A l := by
    intro l hl
    rw [update_of_ne hl]
    by_cases ht : l = .newTable
    · rw [ht, update_self, h.spare.1]
    · rw [update_of_ne ht]
      by_cases hf : l = .newFrame
      · rw [hf, update_self, h.spare.2]
      · rw [update_of_ne hf, hp.other l ht hf]
  refine ⟨_, used2, h2, (hp.bounds.trans hb1).trans hb2, h.fits, ⟨nodeK, mK, ?_, hmK⟩, ?_, ⟨S', update_self ..⟩,
    ?_, fun j hj => ?_, fun j hj => ?_, h.pids, h.apart, h.nextPid⟩
  · rw [hA .kernel nofun, hK]
  · rw [hA .newTable nofun, hA .newFrame nofun]
    exact h.spare
  · rw [hA .ring nofun, h.ring]
  · rw [hA (.table j) nofun, hA (.frame j) nofun]
    exact h.owns j hj
  · rw [hA (.table j) nofun, hA (.frame j) nofun]
    exact h.unused j hj

lemma takeImage (hi : (k.procs i).Live) (hp : Prepared E ph₀ ph A B used' root tf node m)
    (hdrop : dropTable (k.procs i).rootPtFrame ph = .ok (u, ph₁)) (hwrite : WritesTo (tf / PGSIZE) ph₁ ph₂)
    (hframe : frameDrop (k.procs i).trapframeFrame ph₂ = .ok (u₁, k'.ph)) (hg : k'.globalPid = k.globalPid)
    (ho : ∀ j, j ≠ i → k'.procs j = k.procs j) (hlive : (k'.procs i).Live) (hpid : (k'.procs i).pid = (k.procs i).pid)
    (hown : ∀ t f, t = .table (root / PGSIZE) node m (userOwn ph₀) → f = .frame (tf / PGSIZE) → (k'.procs i).Owns E ph₀ t f) :
    ∃ A' used', World E ph₀ ring k' A' used' ∧ A' .lost = A .lost ∧ A' (.table i) = .table (root / PGSIZE) node m (userOwn ph₀) ∧
      (∀ x, (B .newTable).foot x → k'.ph.mem x = ph.mem x) ∧ k'.ph.mem (tf / PGSIZE) = ph₂.mem (tf / PGSIZE) := by
  obtain ⟨hlt, hold⟩ := h.owns i hi
  obtain ⟨node0, m0, hA, hm0⟩ := hold.table
  have hB : B (.table i) = .table (k.procs i).table node0 m0 (userOwn ph₀) := (hp.other (.table i) nofun nofun).trans hA
  have hBf : B (.frame i) = .frame ((k.procs i).trapframe / PGSIZE) := (hp.other (.frame i) nofun nofun).trans hold.frame
  rw [hold.root.1] at hdrop
  obtain ⟨u₂, ph₃, hdestroy, hdrop⟩ := K.bind_ok hdrop
  obtain ⟨used3, h3, hb3, hkept3⟩ := hp.estate.destroyUser hB hm0 hp.bounds hdestroy
  rw [hold.root_eq] at hdrop
  obtain ⟨used1, h1, hb1, hkept1⟩ := h3.freeFrame (update_self ..) (frameDrop_some hdrop)
  rw [update_idem] at h1
  have h2 := h1.writeFrame (i := .newFrame) (n := tf / PGSIZE) (by simp [hp.frame]) hwrite.mem hwrite.region hwrite.pageRef
  rw [hold.trapframe.1, hold.trapframe_eq] at hframe
  obtain ⟨used4, h4, hb4, hkept4⟩ := h2.freeFrame (i := .frame i) (by simp [hBf]) (frameDrop_some hframe)
  have hb2 : ph₁.SameBounds ph₂ := fun b => by rw [hwrite.region]; exact ⟨rfl, rfl⟩
  have h5 := (h4.move (i := .newTable) (j := .table i) (by simp) nofun).move (i := .newFrame) (j := .frame i) (by simp) nofun
  obtain ⟨nodeK, mK, hK, hmK⟩ := h.kernel
  have halike : ∀ q, k'.stackMapped q ↔ k.stackMapped q := by
    intro q
    unfold Kernel.stackMapped
    refine or_congr_right (exists_congr fun j => ?_)
    by_cases hj : j = i
    · rw [hj, hpid]
      exact and_congr_left fun _ => iff_of_true hlive hi
    · rw [ho j hj]
  refine ⟨_, used4, h.change (i := i) h5 ((((hp.bounds.trans hb3).trans hb1).trans hb2).trans hb4) (fun l h1 h2 h3 h4 => ?_) ?_ ?_ ho
    (fun _ => ⟨hlt, hown _ _ (by simp [hp.table]) (by simp [hp.frame])⟩) (fun hc => absurd hlive hc) (fun _ => ?_)
    (by rw [hg]; exact ⟨le_refl _, h.nextPid.2⟩), by simp [hp.other], by simp [hp.table], fun x hx => ?_, ?_⟩
  · by_cases hf : l = .newFrame
    · rw [hf, update_self, h.spare.2]
    · by_cases ht : l = .newTable
      · simp [ht, h.spare.1]
      · rw [update_of_ne hf, update_of_ne h2, update_of_ne ht, update_of_ne h1,
          update_of_ne h2, update_of_ne h1, hp.other l ht hf]
  · simpa [hp.other] using h.lost
  · exact ⟨nodeK, mK, by simp [hp.other, hK], hmK.congr halike⟩
  · rw [hpid, hg]
    exact ⟨(h.pids i hi).1, (h.pids i hi).2, fun j hj hj' he => hj (h.apart j i hj' hi he)⟩
  · have hne : x ≠ tf / PGSIZE := by
      rintro rfl
      exact absurd (hp.estate.holding.apart .newTable .newFrame _ hx (by rw [hp.frame]; exact rfl)) nofun
    rw [hkept4 .newTable x nofun (by simpa using hx), hwrite.mem x hne, hkept1 .newTable x nofun (by simpa using hx),
      hkept3 .newTable x nofun hx]
  · exact hkept4 .newFrame _ nofun (by simp [hp.frame, Asset.foot])

lemma commit {header : List Nat} {argc maxVa sp : Nat} (hi : (k.procs i).Live)
    (hp : Prepared E ph₀ ph A B used' root tf node m) (hx : Executed E i header argc k k' root tf ph (.ok (maxVa, sp)) (.ok ())) :
    (∃ A' used', World E ph₀ ring k' A' used' ∧ A' .lost = A .lost ∧ A' (.table i) = .table (root / PGSIZE) node m (userOwn ph₀)) ∧
      (∀ x, (B .newTable).foot x → k'.ph.mem x = ph.mem x) ∧
      ((k'.procs i).table = root / PGSIZE ∧ (k'.procs i).trapframe = tf ∧ (k'.procs i).heapBase = maxVa ∧ (k'.procs i).heapTop = maxVa) ∧
      k'.ph.mem (tf / PGSIZE) TF_SP = sp ∧ k'.ph.mem (tf / PGSIZE) TF_KERNEL_EPC = field header 24 32 ∧
      k'.ph.mem (tf / PGSIZE) TF_A0 = argc ∧ k'.ph.mem (tf / PGSIZE) TF_A1 = sp := by
  cases hx with
  | ok hdrop hpid hset hframe hk =>
    have hother : ∀ j, j ≠ i → k'.procs j = k.procs j := by
      intro j hj
      rw [hk]
      exact update_of_ne hj _ _
    have hself := congrFun (congrArg Kernel.procs hk) i
    dsimp only at hself
    rw [update_self] at hself
    obtain ⟨-, hold⟩ := h.owns i hi
    obtain ⟨A', used', hw, hlost, htable, hkept, hwords⟩ := h.takeImage hi hp hdrop (setTrapframe_writes hset) hframe (by rw [hk]) hother
      (by rw [hself]; exact hi) (by rw [hself]) fun t f ht hf => by
        rw [hself]
        exact ⟨⟨rfl, hp.aligned.1⟩, ⟨node, m, ht, hp.leaves⟩, ⟨rfl, hp.aligned.2, rfl⟩, hf, hp.small, hold.kstack, fun hle => hle⟩
    refine ⟨⟨A', used', hw, hlost, htable⟩, hkept, by rw [hself]; exact ⟨rfl, rfl, rfl, rfl⟩, ?_⟩
    rw [hwords, setTrapframe_eq hset]
    simp [Phys.setWord, TF_SP, TF_KERNEL_EPC, TF_A0, TF_A1, TF_KERNEL_SATP, TF_KERNEL_HARTID, TF_KERNEL_SP]

lemma exec {file : Option (Nat → Nat → List Nat)} {r : Except Unit Unit}
    (hi : (k.procs i).Live) (hfile : ∀ f, file = some f → Bytes f) (he : procExec P E i file argv k = .ok (r, k')) :
    ∃ A' used', World E ph₀ ring k' A' used' ∧ (r = .ok () → A' .lost = A .lost ∧ ∃ f node m, file = some f ∧
      A' (.table i) = .table (k'.procs i).table node m (userOwn ph₀) ∧
      ∀ q, ¬imagePage f (f 0 64) q → m q = kernelLeaves E ((k'.procs i).trapframe / PGSIZE) q) := by
  rcases procExec_ok he with ⟨rfl, rfl⟩ | ⟨f, root, tf, res, ph₁, ph₂, ph₃, ph₄, ph5, rfl, hl, hx⟩
  · exact ⟨A, used, h, nofun⟩
  · obtain ⟨B, used5, node, m, hp, hT⟩ := h.loaded (hfile f rfl) hl
    cases hx with
    | error hframe hroot hk =>
      obtain ⟨A', used', hw⟩ := h.dropImage hp hframe hroot
      rw [hk]
      exact ⟨A', used', hw, nofun⟩
    | ok hdrop hpid hset hframe hk =>
      obtain ⟨⟨A', used', hw, hlost, htable⟩, -, ⟨hroot, htf, -⟩, -⟩ := h.commit hi hp (.ok hdrop hpid hset hframe hk)
      refine ⟨A', used', hw, fun _ => ⟨hlost, f, node, m, rfl, ?_, ?_⟩⟩
      · rw [htable, hroot]
      · rw [htf]
        exact hT

end

/-! ### Fork -/

end World

lemma trampEntry_exec (E : Env) : (trampEntry E).Exec := by
  show ((PTE_R ||| PTE_X ||| PTE_A ||| PTE_V) % 2 ^ 10).testBit 3 = true
  decide

lemma trapframeEntry_not_exec (n : Nat) : ¬(trapframeEntry n).Exec := by
  show ¬((PTE_R ||| PTE_W ||| PTE_A ||| PTE_D ||| PTE_V) % 2 ^ 10).testBit 3 = true
  decide

lemma trapframeEntry_ppn (h : n < 2 ^ 43) : (trapframeEntry n).ppn = n := Nat.mod_eq_of_lt (by omega)

lemma Env.Fits.trampEntry_ppn (h : E.Fits ph₀) : (trampEntry E).ppn = trampPpn E :=
  Nat.mod_eq_of_lt (by have := h.small; omega)

lemma leaf_cases {m : PageMap} {e : Entry} (hm : UserMap ph₀ (kernelLeaves E n) m) (hq : m q = some e) :
    q = trampPage ∧ e = trampEntry E ∧ ¬e.User ∨ q = trapPage ∧ e = trapframeEntry n ∧ ¬e.User ∨
      (q ≠ trampPage ∧ q ≠ trapPage) ∧ userOwn ph₀ q e := by
  by_cases ht : q = trampPage
  · obtain ⟨hm', hu, -⟩ := hm.kernel q _ (by rw [ht]; exact kernelLeaves_tramp E n)
    rw [hq] at hm'
    cases hm'
    exact .inl ⟨ht, rfl, hu⟩
  · by_cases hf : q = trapPage
    · obtain ⟨hm', hu, -⟩ := hm.kernel q _ (by rw [hf]; exact kernelLeaves_trap E n)
      rw [hq] at hm'
      cases hm'
      exact .inr (.inl ⟨hf, rfl, hu⟩)
    · exact .inr (.inr ⟨⟨ht, hf⟩, hm.user q e hq (kernelLeaves_eq_none ht hf)⟩)

/-- What a copy of the table of a process has at a page number other than that of the trap frame. -/
lemma copied {m m' : PageMap} (hm : UserMap ph₀ (kernelLeaves E n) m) (hb : ph₀.SameBounds ph)
    (hq : q ≠ trapPage) (hc : CopyOf ph ph' (m q) (m' q)) :
    (q = trampPage → m' q = some (trampEntry E)) ∧ (∀ e, m' q = some e → q ≠ trampPage → userOwn ph₀ q e) ∧
      (m' q = none ↔ m q = none) := by
  have htramp : q = trampPage → m q = some (trampEntry E) := by
    rintro rfl
    exact (hm.kernel _ _ (kernelLeaves_tramp E n)).1
  have hcases : ∀ e, m q = some e → (e = trampEntry E ∧ q = trampPage) ∧ ¬e.User ∨ q ≠ trampPage ∧ userOwn ph₀ q e := by
    intro e he
    rcases leaf_cases hm he with ⟨hq', he, hu⟩ | ⟨hq', -⟩ | ⟨hq', ho⟩
    · exact .inl ⟨⟨he, hq'⟩, hu⟩
    · exact absurd hq' hq
    · exact .inr ⟨hq'.1, ho⟩
  generalize m q = o at hc hcases htramp ⊢
  generalize m' q = o' at hc ⊢
  cases hc with
  | none => exact ⟨htramp, nofun, Iff.rfl⟩
  | page b hk hin hnew hlt hmem =>
    rcases hcases _ rfl with ⟨⟨rfl, -⟩, hu⟩ | ⟨ht, ho⟩
    · rcases hk with hk | hk
      · exact absurd hk.1 hu
      · exact absurd (trampEntry_exec E) hk.2.1
    · refine ⟨fun hc => absurd hc ht, fun e he _ => ?_, iff_of_false nofun nofun⟩
      cases he
      rcases hk with ⟨hu, rfl⟩ | hk
      · exact ⟨hu, hb.inRegion.mp hnew⟩
      · exact absurd ho.1 hk.1
  | shared hu hx =>
    rcases hcases _ rfl with ⟨⟨rfl, ht⟩, -⟩ | ⟨-, ho⟩
    · exact ⟨fun _ => rfl, fun e _ hq' => absurd ht hq', iff_of_false nofun nofun⟩
    · exact absurd ho.1 hu
  | skipped h =>
    rcases hcases _ rfl with ⟨⟨rfl, -⟩, hu⟩ | ⟨-, ho⟩
    · rcases h with h | h
      · exact absurd h.1 hu
      · exact absurd (trampEntry_exec E) h.2.1
    · rcases h with h | h
      · exact absurd (hb.inRegion.mpr ho.2) h.2
      · exact absurd ho.1 h.1

namespace World

lemma copyable {node : List Nat → Option Nat} {m : PageMap} (h : World E ph₀ ring k A used)
    (ht : A (.table i) = .table (k.procs i).table node m (userOwn ph₀)) (hf : A (.frame i) = .frame n) (hn : n < 2 ^ 43)
    (hm : UserMap ph₀ (kernelLeaves E n) m) : Copyable k.ph m used (PageTable.inRegions k.ph) := by
  have hout : ∀ b, ¬k.ph.InRegion b (trampEntry E).ppn := by
    intro b
    rw [h.bounds.inRegion, h.fits.trampEntry_ppn]
    exact h.fits.outside b
  refine ⟨hm.low, fun q e b hq hin => ?_, fun q e b x hq hk hx => ⟨b, hx⟩, fun q e hq hu hx => ?_⟩
  · rcases leaf_cases hm hq with ⟨-, rfl, -⟩ | ⟨-, rfl, -⟩ | ⟨-, ho⟩
    · exact absurd hin (hout b)
    · rw [trapframeEntry_ppn hn]
      exact (h.estate.holding.used_iff n).mpr ⟨.frame i, by rw [hf]; exact rfl⟩
    · exact (h.estate.space ht).leaf q e hq ho
  · rintro ⟨b, hin⟩
    rcases leaf_cases hm hq with ⟨-, rfl, -⟩ | ⟨-, rfl, -⟩ | ⟨-, ho⟩
    · exact hout b hin
    · exact absurd hx (trapframeEntry_not_exec n)
    · exact absurd ho.1 hu

/-- The copy of the table of the process `i` goes to the slot `c`, with the trap frame `n` in place of the copied one. -/
structure Cloned (E : Env) (ph₀ ph : Phys) (A B : Holder → Asset) (used : Nat → Prop) (c dst tf : Nat)
    (node : List Nat → Option Nat) (m m' : PageMap) : Prop where
  estate : Estate ph B used
  bounds : ph₀.SameBounds ph
  table : B (.table c) = .table dst node m' (userOwn ph₀)
  leaves : UserMap ph₀ (kernelLeaves E tf) m'
  same : ∀ q, m' q = none ↔ m q = none
  other : ∀ l, l ≠ .table c → B l = A l

lemma replaceFrame {dst tf : Nat} {node : List Nat → Option Nat} {m m' : PageMap} (hest : Estate ph A used)
    (hb : ph₀.SameBounds ph) (hE : E.Fits ph₀) (ht : A (.table c) = .table dst node m' (PageTable.inRegions ph₁))
    (hb1 : ph₀.SameBounds ph₁) (hm : UserMap ph₀ (kernelLeaves E n) m) (hcopy : ∀ q, CopyOf ph₁ ph₂ (m q) (m' q))
    (htf : tf < 2 ^ 43) (hreg : ¬ph₀.InRegion false tf)
    (hunmap : unmappages P dst (trapPage * PGSIZE) PGSIZE true ph = .ok (u, ph₃))
    (hmap : mapTrapframe P dst (trapPage * PGSIZE) (tf * PGSIZE) ph₃ = .ok (u₁, ph₄)) :
    ∃ B used' node' m'', Cloned E ph₀ ph₄ A B used' c dst tf node' m m'' := by
  obtain ⟨htramp, hu, hout⟩ := hm.kernel trampPage _ (kernelLeaves_tramp E n)
  obtain ⟨htrap, hu', -⟩ := hm.kernel trapPage _ (kernelLeaves_trap E n)
  have hown : ∀ q e, trapPage ≤ q → q < trapPage + 1 → m' q = some e → PageTable.inRegions ph₁ q e := by
    intro q e hle hlt hq
    obtain rfl : q = trapPage := by omega
    have hc := hcopy trapPage
    rw [hq, htrap] at hc
    cases hc with
    | page b hk hin hnew hlt hmem => exact ⟨b, hnew⟩
    | shared hu hx => exact absurd hx (trapframeEntry_not_exec n)
  rw [unmappages_eq_ok, show PGSIZE = 1 * PGSIZE from rfl, ← Nat.mul_assoc, Nat.mul_one] at hunmap
  obtain ⟨j, hj, hb3, -, m1, used1, hs1, hshrunk⟩ := (hest.space ht).unmap (by decide) (by decide) hown hunmap
  obtain rfl : j = 1 := of_decide_eq_true hb3.symm
  have hnone : m1 trapPage = none := (hshrunk.gone trapPage (by omega)).1
  have hold : ∀ q, q ≠ trapPage → m1 q = m' q := fun q hq => hshrunk.old q (by omega)
  have hcopied : ∀ q, q ≠ trapPage → (q = trampPage → m1 q = some (trampEntry E)) ∧
      (∀ e, m1 q = some e → q ≠ trampPage → userOwn ph₀ q e) ∧ (m1 q = none ↔ m q = none) := by
    intro q hq
    rw [hold q hq]
    exact copied hm hb1 hq (hcopy q)
  have hne : ∀ q e, m1 q = some e → q ≠ trapPage := by
    rintro q e hq rfl
    rw [hnone] at hq
    cases hq
  have h1 : Estate ph₃ (update A (.table c) (.table dst node m1 (PageTable.inRegions ph₁))) used1 := by
    refine hest.step ?_ hs1.pmem hs1
    rw [ht]
    exact hs1.shrunk hshrunk
  have h2 : Estate ph₃ (update (update A (.table c) (.table dst node m1 (PageTable.inRegions ph₁))) (.table c)
      (.table dst node m1 (userOwn ph₀))) used1 := by
    refine h1.reown (update_self ..) fun q e hq => ?_
    by_cases hqt : q = trampPage
    · rw [(hcopied q (hne q e hq)).1 hqt] at hq
      cases hq
      refine iff_of_false (fun ho => hu ho.1) ?_
      rintro ⟨b, hin⟩
      rw [hb1.inRegion, hE.trampEntry_ppn] at hin
      exact hE.outside b hin
    · have ho := (hcopied q (hne q e hq)).2.1 e hq hqt
      exact iff_of_true ho ⟨false, hb1.inRegion.mpr ho.2⟩
  rw [update_idem] at h2
  have hm2 : UserMap ph₀ (trampLeaf E) m1 := by
    refine ⟨fun q e hq => ?_, fun q e hq hf => ?_, fun q e hq => ?_⟩
    · unfold trampLeaf at hq
      by_cases hqt : q = trampPage
      · subst hqt
        rw [update_self] at hq
        cases hq
        exact ⟨(hcopied trampPage trampPage_ne_trapPage).1 rfl, hu, hout⟩
      · rw [update_of_ne hqt] at hq
        cases hq
    · refine (hcopied q (hne q e hq)).2.1 e hq ?_
      rintro rfl
      unfold trampLeaf at hf
      rw [update_self] at hf
      cases hf
    · cases hmq : m q with
      | none =>
        rw [(hcopied q (hne q e hq)).2.2.mpr hmq] at hq
        cases hq
      | some e' => exact hm.low q e' hmq
  obtain ⟨node4, used4, h4, hm4, hb4, -⟩ := h2.mapFixed (update_self ..) hm2 (hb.trans hshrunk.gives.region)
    (by decide) (by decide) (by decide) htf hreg hnone hmap
  rw [update_idem] at h4
  refine ⟨_, used4, node4, _, h4, hb4, update_self .., hm4, fun q => ?_, fun l hl => update_of_ne hl _ _⟩
  by_cases hq : q = trapPage
  · rw [hq, update_self, htrap]
    exact iff_of_false nofun nofun
  · rw [update_of_ne hq]
    exact (hcopied q hq).2.2

lemma clone {root tf : Nat} (h : World E ph₀ ring k A used) (hi : (k.procs i).Live) (hu : ¬(k.procs c).Live)
    (hcopy : PageTable.copy P (k.procs i).table k.ph = .ok (.ok root, ph₁)) (hframe : frameAlloc ph₁ = .ok (some tf, ph₂)) :
    ∃ dst n node m node' m' used', (root = dst * PGSIZE ∧ dst < 2 ^ 43) ∧ (tf = n * PGSIZE ∧ n < 2 ^ 43 ∧ ¬ph₀.InRegion false n) ∧
      A (.table i) = .table (k.procs i).table node m (userOwn ph₀) ∧
      UserMap ph₀ (kernelLeaves E ((k.procs i).trapframe / PGSIZE)) m ∧ (∀ q, CopyOf k.ph ph₁ (m q) (m' q)) ∧
      Estate ph₂ (update (update A (.table c) (.table dst node' m' (PageTable.inRegions k.ph))) (.frame c)
        (.frame n)) used' ∧ ph₀.SameBounds ph₂ := by
  obtain ⟨-, hown⟩ := h.owns i hi
  obtain ⟨node, m, hA, hm⟩ := hown.table
  obtain ⟨ht, hf⟩ := h.unused c hu
  obtain ⟨dst, node1, m1, used1, hroot, hsmall, hcl⟩ :=
    (PageTable.copy_ends (h.copyable hA hown.frame hown.small.2 hm) (h.estate.space hA)).ok _ _ hcopy
  cases hroot
  have h1 : Estate ph₁ (update A (.table c) (.table dst node1 m1 (PageTable.inRegions k.ph))) used1 := by
    refine h.estate.step ?_ hcl.space.pmem hcl.space
    rw [ht]
    exact hcl.effect
  have hb1 : ph₀.SameBounds ph₁ := h.bounds.trans hcl.effect.region
  obtain ⟨pa, hpa, ha⟩ := frameAlloc_ok hframe
  cases hpa
  obtain ⟨n, used2, rfl, -, hlt, hreg, h2, hb2, -⟩ := h1.allocFrame (i := .frame c) (by simp [hf]) ha
  have hnot : ¬ph₀.InRegion false n := by
    rw [← hb1.inRegion]
    exact h1.region_apart hreg
  exact ⟨dst, n, node, m, node1, m1, used2, ⟨rfl, hsmall⟩, ⟨rfl, hlt, hnot⟩, hA, hm, fun q => hcl.done q trivial, h2, hb1.trans hb2⟩

lemma fork (h : World E ph₀ ring k A used) (hi : (k.procs i).Live) (he : fork P E i k = .ok (c, k')) :
    ∃ A' used', World E ph₀ ring k' A' used' ∧ A' .lost = A .lost ∧ ∃ node m node' m',
      A (.table i) = .table (k.procs i).table node m (userOwn ph₀) ∧
      A' (.table c) = .table (k'.procs c).table node' m' (userOwn ph₀) ∧ (∀ q, m' q = none ↔ m q = none) ∧
      ∀ l, l ≠ .table c → l ≠ .frame c → l ≠ .kernel → A' l = A l := by
  unfold Proc.fork at he
  obtain ⟨o, k1, halloc, he⟩ := K.bind_ok he
  obtain ⟨c', k2, hsome, he⟩ := K.bind_ok he
  obtain ⟨u, k3, hin, hret⟩ := K.bind_ok he
  cases hret
  obtain ⟨rfl, rfl⟩ := expect_ok hsome
  rcases alloc_ok halloc with ⟨hnone, -⟩ | ⟨c', hc, hlt, hu, -, rfl⟩
  · cases hnone
  · cases hc
    have hunused : ¬(k.procs c).Live := not_not.mpr hu
    have hci : i ≠ c := by
      rintro rfl
      exact hunused hi
    obtain ⟨root, tf, ph₁, ph₂, ph₃, ph₄, ph5, ph6, hF⟩ := forkInto_ok hin
    obtain ⟨hcopy, hframe, ⟨kstackTop, hstack⟩, hunmap, hmap, hwrites, hresult, hk⟩ := hF
    dsimp only at hcopy hstack hunmap hmap hresult hk
    rw [update_of_ne hci] at hcopy hunmap hmap hresult hk
    rw [update_self] at hstack hk
    rw [update_idem] at hk
    dsimp only at hstack hk
    obtain ⟨-, hown⟩ := h.owns i hi
    obtain ⟨dst, n, node, m, node1, m1, used2, ⟨rfl, hsmall⟩, ⟨rfl, hlt', hnot⟩, hA, hm, hcopied, h2, hb2⟩ :=
      h.clone hi hunused hcopy hframe
    rw [div_mul_PGSIZE] at hunmap hmap
    obtain ⟨nodeK, mK, hK, hmK⟩ := h.kernel
    have hK' : update (update A (.table c) (.table dst node1 m1 (PageTable.inRegions k.ph))) (.frame c)
        (.frame n) .kernel = .table E.kpt nodeK mK kernelOwn := by
      simp [hK]
    obtain ⟨hpid, node3, m3, used3, h3, hm3, hb3⟩ := h2.allocKstack hK' hmK hb2
      (by have := h.nextPid.2; omega) hstack
    rw [hown.trapframe.2.2, trapframe_va] at hunmap hmap
    have ht3 : update (update (update A (.table c) (.table dst node1 m1 (PageTable.inRegions k.ph)))
        (.frame c) (.frame n)) .kernel (.table E.kpt node3 m3 kernelOwn) (.table c) =
        .table dst node1 m1 (PageTable.inRegions k.ph) := by
      simp
    obtain ⟨B, used5, node5, m5, hcloned⟩ := replaceFrame h3 hb3 h.fits ht3 h.bounds hm hcopied hlt' hnot
      hunmap hmap
    rw [div_mul_PGSIZE] at hwrites
    have hBc : B (.frame c) = .frame n := by
      rw [hcloned.other (.frame c) nofun]
      simp
    have hBi : B (.frame i) = .frame ((k.procs i).trapframe / PGSIZE) := by
      rw [hcloned.other (.frame i) nofun]
      simp [hci, hown.frame]
    have h6 := hcloned.estate.writeFrame hBc hwrites.mem hwrites.region hwrites.pageRef
    have h7 := h6.writeFrame hBi hresult.mem hresult.region hresult.pageRef
    have hb7 : ph₀.SameBounds k'.ph := hcloned.bounds.trans fun b => by
      rw [hresult.region, hwrites.region]
      exact ⟨rfl, rfl⟩
    have hother : ∀ l, l ≠ .table c → l ≠ .frame c → l ≠ .kernel → B l = A l := by
      intro l h1 h2 h3
      rw [hcloned.other l h1, update_of_ne h3, update_of_ne h2, update_of_ne h1]
    refine ⟨B, used5, h.born hlt hunused h7 hb7 hother ⟨node3, m3, ?_, hm3⟩ (fun j hj => ?_) ?_ ?_ ?_ hpid ?_, hother .lost nofun nofun nofun,
      node, m, node5, m5, hA, ?_, hcloned.same, hother⟩
    · rw [hcloned.other .kernel nofun, update_self]
    · rw [hk]
      simp [hj]
    · rw [hk]
      simp [Process.Live]
    · rw [hk]
      simp
    · rw [hk]
    · rw [hk]
      dsimp only
      rw [update_self]
      refine ⟨⟨rfl, Nat.dvd_mul_left _ _⟩, ⟨node5, m5, ?_, ?_⟩, ⟨rfl, Nat.dvd_mul_left _ _, hown.trapframe.2.2⟩, ?_, ?_, rfl, hown.heap⟩
      · rw [hcloned.table, Process.table, div_mul_PGSIZE]
      · dsimp only
        rw [div_mul_PGSIZE]
        exact hcloned.leaves
      · dsimp only
        rw [div_mul_PGSIZE, hBc]
      · unfold Process.table
        dsimp only
        rw [div_mul_PGSIZE, div_mul_PGSIZE]
        exact ⟨hsmall, hlt'⟩
    · rw [hk]
      dsimp only
      rw [update_self, hcloned.table, Process.table, div_mul_PGSIZE]

end World

end Glenda.Proc
