import Glenda.Proc.World

/-!
# What the operations do to the holders

Every operation that returns keeps `World`. One that reports success loses no page.
-/

namespace Glenda.Proc
open Glenda.Lib Glenda.Mem Glenda.Mem.KernelVm
open Function (update update_comm update_idem update_of_ne update_self)

variable {P : Profile} {E : Env} {ph₀ ph ph' ph₁ ph₂ ph₃ ph₄ : Phys} {k k' : Kernel} {A A' : Holder → Asset}
  {ring used used' : Nat → Prop} {i j : Nat} {u u₁ u₂ : Unit} {t f : Holder} {payload : List Nat} {r : Except UvmError Unit} {g : Process → Process}

lemma tramp_va : TRAMP_VA = trampPage * PGSIZE := by decide

lemma trapframe_va : TRAPFRAME_VA = trapPage * PGSIZE := by decide

lemma newImage {root tf : Nat} (h : Estate ph A used) (hb : ph₀.SameBounds ph) (hE : E.Fits ph₀) (ht : A t = .none)
    (hf : A f = .none) (hne : t ≠ f) (hroot : frameAlloc ph = .ok (some root, ph₁))
    (htramp : mapTrampoline P E (root / PGSIZE) (ph₁.zeroPage (root / PGSIZE)) = .ok (u₁, ph₂))
    (hframe : frameAlloc ph₂ = .ok (some tf, ph₃))
    (hmap : mapTrapframe P (root / PGSIZE) TRAPFRAME_VA tf ph₃ = .ok (u₂, ph₄)) :
    (PGSIZE ∣ root ∧ PGSIZE ∣ tf) ∧ (root / PGSIZE < 2 ^ 43 ∧ tf / PGSIZE < 2 ^ 43) ∧ ∃ node used', Estate ph₄ (update (update A f (.frame (tf / PGSIZE))) t
        (.table (root / PGSIZE) node (kernelLeaves E (tf / PGSIZE)) (userOwn ph₀))) used' ∧
      UserMap ph₀ (kernelLeaves E (tf / PGSIZE)) (kernelLeaves E (tf / PGSIZE)) ∧ ph₀.SameBounds ph₄ ∧
      ∀ j x, j ≠ t → j ≠ f → (A j).foot x → ph₄.mem x = ph.mem x := by
  obtain ⟨pa, hpa, ha⟩ := frameAlloc_ok hroot
  cases hpa
  obtain ⟨n, used1, rfl, -, hsmall, -, h1, hb1, hkept1⟩ := h.allocTable (userOwn ph₀) ht ha
  rw [div_mul_PGSIZE] at htramp hmap ⊢
  have hb1 := hb.trans hb1
  have hempty : UserMap ph₀ (fun _ => none) (fun _ => none) :=
    ⟨nofun, nofun, nofun⟩
  have hpa : alignDown E.trampoline = trampPpn E * PGSIZE := (Nat.div_mul_cancel (Uvm.dvd_alignDown _)).symm
  unfold mapTrampoline at htramp
  rw [tramp_va, hpa] at htramp
  obtain ⟨node2, used2, h2, hm2, hb2, hkept2⟩ := h1.mapFixed (update_self ..) hempty hb1 (by decide) (by decide) (by decide)
    hE.small (hE.outside false) rfl htramp
  rw [update_idem] at h2
  obtain ⟨pa, hpa, ha'⟩ := frameAlloc_ok hframe
  cases hpa
  obtain ⟨n', used3, rfl, -, hlt, hin, h3, hb3, hkept3⟩ := h2.allocFrame (i := f) (by rw [update_of_ne hne.symm, hf]) ha'
  rw [div_mul_PGSIZE]
  have hreg : ¬ph₀.InRegion false n' := by
    rw [← hb2.inRegion]
    exact h2.region_apart hin
  unfold mapTrapframe at hmap
  rw [trapframe_va] at hmap
  obtain ⟨node4, used4, h4, hm4, hb4, hkept4⟩ := h3.mapFixed (i := t)
    (by rw [update_of_ne hne, update_self]) hm2 (hb2.trans hb3) (by decide) (by decide) (by decide) hlt hreg
    (by rw [update_of_ne trampPage_ne_trapPage.symm]) hmap
  refine ⟨⟨Nat.dvd_mul_left _ _, Nat.dvd_mul_left _ _⟩, ⟨hsmall, hlt⟩, node4, used4, ?_, hm4, hb4, fun j x hjt hjf hx => ?_⟩
  · rw [update_comm hne, update_idem] at h4
    exact h4
  · rw [hkept4 j x hjt (by simpa [hjt, hjf] using hx), hkept3 j x hjf (by simpa [hjt] using hx),
      hkept2 j x hjt (by simpa [hjt] using hx), hkept1 j x hjt hx]

namespace World

lemma born (h : World E ph₀ ring k A used) (hi : i < NPROC) (hu : ¬(k.procs i).Live) (hest : Estate k'.ph A' used')
    (hb : ph₀.SameBounds k'.ph) (hA : ∀ l, l ≠ .table i → l ≠ .frame i → l ≠ .kernel → A' l = A l)
    (hkernel : ∃ node m, A' .kernel = .table E.kpt node m kernelOwn ∧
      KernelMap ph₀ m (fun q => k.stackMapped q ∨ stackOf k.globalPid q))
    (ho : ∀ j, j ≠ i → k'.procs j = k.procs j) (hlive : (k'.procs i).Live) (hpid : (k'.procs i).pid = k.globalPid)
    (hg : k'.globalPid = (k.globalPid + 1) % 2 ^ 64) (hlt : k.globalPid + 1 < 2 ^ 14)
    (hp : (k'.procs i).Owns E ph₀ (A' (.table i)) (A' (.frame i))) : World E ph₀ ring k' A' used' := by
  rw [Nat.mod_eq_of_lt (by omega)] at hg
  refine h.change (i := i) hest hb (fun l h1 h2 h3 _ => hA l h1 h2 h3) ?_ ?_ ho (fun _ => ⟨hi, hp⟩) (fun hc => absurd hlive hc)
    (fun _ => ?_) (by omega)
  · rw [hA .lost nofun nofun nofun]
    exact h.lost
  · obtain ⟨node, m, hK, hm⟩ := hkernel
    refine ⟨node, m, hK, hm.congr fun q => ?_⟩
    rw [stackMapped_born hu hlive ho q, hpid]
  · rw [hpid, hg]
    refine ⟨h.nextPid.1, by omega, fun j _ hj he => ?_⟩
    have := (h.pids j hj).2
    omega

lemma image {root tf top : Nat} {ph5 : Phys} (h : World E ph₀ ring k A used) (hu : ¬(k.procs i).Live)
    (hroot : frameAlloc k.ph = .ok (some root, ph₁))
    (htramp : mapTrampoline P E (root / PGSIZE) (ph₁.zeroPage (root / PGSIZE)) = .ok (u, ph₂))
    (hframe : frameAlloc ph₂ = .ok (some tf, ph₃)) (hmap : mapTrapframe P (root / PGSIZE) TRAPFRAME_VA tf ph₃ = .ok (u₁, ph₄))
    (hload : loadPayload P (root / PGSIZE) payload ph₄ = .ok (top, ph5)) :
    (PGSIZE ∣ root ∧ PGSIZE ∣ tf) ∧ (root / PGSIZE < 2 ^ 43 ∧ tf / PGSIZE < 2 ^ 43) ∧ ∃ node m used',
      Estate ph5 (update (update A (.frame i) (.frame (tf / PGSIZE))) (.table i)
        (.table (root / PGSIZE) node m (userOwn ph₀))) used' ∧
      UserMap ph₀ (kernelLeaves E (tf / PGSIZE)) m ∧ ph₀.SameBounds ph5 := by
  obtain ⟨ht, hf⟩ := h.unused i hu
  obtain ⟨haligned, hsmall, node, used4, h4, hm4, hb4, -⟩ :=
    newImage (t := .table i) (f := .frame i) h.estate h.bounds h.fits ht hf nofun hroot htramp hframe hmap
  have hev : Evolves ph₀ (kernelLeaves E (tf / PGSIZE)) (root / PGSIZE) (fun _ => True) True ph₄ ph5 :=
    (loadPayload_evolves (fun _ _ _ => trivial) hload).2
  obtain ⟨node5, m5, used5, h5, hm5, -, hb5⟩ := h4.evolves (update_self ..) hm4 hb4 hev
  rw [update_idem] at h5
  exact ⟨haligned, hsmall, node5, m5, used5, h5, hm5, hb5⟩

lemma create (h : World E ph₀ ring k A used) (he : create P E payload k = .ok (i, k')) :
    ∃ A' used', World E ph₀ ring k' A' used' ∧ A' .lost = A .lost := by
  unfold Proc.create at he
  obtain ⟨o, k1, halloc, he⟩ := K.bind_ok he
  obtain ⟨c, k2, hsome, he⟩ := K.bind_ok he
  obtain ⟨u, k3, hin, hret⟩ := K.bind_ok he
  cases hret
  obtain ⟨rfl, rfl⟩ := expect_ok hsome
  rcases alloc_ok halloc with ⟨hnone, -⟩ | ⟨c', hc, hlt, hu, -, rfl⟩
  · cases hnone
  · cases hc
    obtain ⟨root, tf, top, ph₁, ph₂, ph₃, ph₄, ph5, ph6, hC⟩ := createIn_ok hin
    have hunused : ¬(k.procs i).Live := not_not.mpr hu
    obtain ⟨⟨hroot, htf⟩, hsmall, node5, m5, used5, h5, hm5, hb5⟩ :=
      h.image hunused hC.allocRoot hC.mapTramp hC.allocFrame hC.mapFrame hC.load
    obtain ⟨nodeK, mK, hK, hmK⟩ := h.kernel
    obtain ⟨kstackTop, hstack⟩ := hC.kstack
    dsimp only at hstack
    rw [update_self] at hstack
    dsimp only at hstack
    have hK' : update (update A (.frame i) (.frame (tf / PGSIZE))) (.table i)
        (.table (root / PGSIZE) node5 m5 (userOwn ph₀)) .kernel = .table E.kpt nodeK mK kernelOwn := by
      simp [hK]
    obtain ⟨hpid, node6, m6, used6, h6, hm6, hb6⟩ := h5.allocKstack hK' hmK hb5
      (by have := h.nextPid.2; omega) hstack
    have h7 := h6.writeFrame (i := .frame i) (by simp) hC.writes.mem hC.writes.region hC.writes.pageRef
    have hb7 : ph₀.SameBounds k'.ph := hb6.trans fun b => by rw [hC.writes.region]; exact ⟨rfl, rfl⟩
    have hk := hC.kernel
    dsimp only at hk
    rw [update_idem, update_self] at hk
    refine ⟨_, used6, h.born hlt hunused h7 hb7 (fun l h1 h2 h3 => ?_) ⟨node6, m6, update_self .., hm6⟩
      (fun j hj => ?_) ?_ ?_ ?_ hpid ?_, ?_⟩
    · rw [update_of_ne h3, update_of_ne h1, update_of_ne h2]
    · rw [hk]
      simp [hj]
    · rw [hk]
      simp [Process.Live]
    · rw [hk]
      simp
    · rw [hk]
    · rw [hk]
      dsimp only
      rw [update_self]
      exact ⟨⟨rfl, hroot⟩, ⟨node5, m5, by simp [Process.table], hm5⟩, ⟨rfl, htf, rfl⟩, by simp, hsmall, rfl, fun hle => hle⟩
    · simp

/-! ### The memory of one process -/

/-- Only the table of the process `i` has changed, at the page numbers `T`, and pages may be lost. -/
structure Local (E : Env) (ph₀ : Phys) (k k' : Kernel) (A A' : Holder → Asset) (used : Nat → Prop) (i : Nat) (T : Nat → Prop)
    (ok : Prop) : Prop where
  lost : ok → A' .lost = A .lost
  other : ∀ l, l ≠ .table i → l ≠ .lost → A' l = A l
  procs : ∀ j, j ≠ i → k'.procs j = k.procs j
  alike : (k.procs i).Alike (k'.procs i)
  mem : ∀ n, used n → ¬(A (.table i)).foot n → k'.ph.mem n = k.ph.mem n
  table : ∃ node m node' m', A (.table i) = .table (k.procs i).table node m (userOwn ph₀) ∧
    A' (.table i) = .table (k.procs i).table node' m' (userOwn ph₀) ∧ ∀ q, ¬T q → m' q = m q

variable {T : Nat → Prop} {ok : Prop}

lemma evolve (h : World E ph₀ ring k A used) (hi : (k.procs i).Live)
    (hev : ∀ node m, UserTable ph₀ k.ph (kernelLeaves E ((k.procs i).trapframe / PGSIZE)) (k.procs i).table node m used →
      Evolved ph₀ k.ph k'.ph (kernelLeaves E ((k.procs i).trapframe / PGSIZE)) (k.procs i).table T ok node m used)
    (hg : k'.globalPid = k.globalPid) (ho : ∀ j, j ≠ i → k'.procs j = k.procs j) (ha : (k.procs i).Alike (k'.procs i)) :
    ∃ A' used', World E ph₀ ring k' A' used' ∧ Local E ph₀ k k' A A' used i T ok := by
  obtain ⟨hlt, hown⟩ := h.owns i hi
  obtain ⟨node, m, hA, hm⟩ := hown.table
  obtain ⟨S, hS⟩ := h.lost
  obtain ⟨node', m', used', S', hest, hm', hT, hS', hb, hmem⟩ :=
    h.estate.evolve hA (hev node m (h.estate.userTable hA hm h.bounds)) hS nofun
  have halike : ∀ j, (k.procs j).Alike (k'.procs j) := by
    intro j
    by_cases hj : j = i
    · rw [hj]
      exact ha
    · rw [ho j hj]
      exact .refl _
  have hlive : (k'.procs i).Live := ha.live.mpr hi
  refine ⟨_, used', h.change (i := i) hest hb (fun l h1 h2 h3 h4 => ?_) ⟨S', update_self ..⟩ ?_ ho (fun _ => ⟨hlt, ?_⟩)
    (fun hc => absurd hlive hc) (fun _ => ?_) (by rw [hg]; exact ⟨le_refl _, h.nextPid.2⟩), fun hok => ?_, fun l h1 h2 => ?_, ho, ha, hmem,
    node, m, node', m', hA, by simp, hT⟩
  · rw [update_of_ne h4, update_of_ne h1]
  · obtain ⟨nodeK, mK, hK, hmK⟩ := h.kernel
    exact ⟨nodeK, mK, by simp [hK], hmK.congr (stackMapped_alike halike)⟩
  · refine Process.Owns.alike ⟨hown.root, ⟨node', m', by simp, hm'⟩, hown.trapframe, ?_, hown.small, hown.kstack, hown.heap⟩ ha
    simp [hown.frame]
  · rw [ha.pid, hg]
    exact ⟨(h.pids i hi).1, (h.pids i hi).2, fun j hj hj' he => hj (h.apart j i hj' hi he)⟩
  · rw [update_self, hS, hS' hok]
  · rw [update_of_ne h2, update_of_ne h1]

lemma Active.live (h : k.Active i) : (k.procs i).Live := h.2.1

lemma copyout {va : Nat} {src : List Nat} {r : Except CopyError Unit} (h : World E ph₀ ring k A used) (hi : (k.procs i).Live)
    (he : onPhys (Uvm.copyout P (k.procs i).table va src) k = .ok (r, k')) :
    ∃ A' used', World E ph₀ ring k' A' used' ∧ Local E ph₀ k k' A A' used i (fun _ => False) True := by
  obtain ⟨ph', hcopy, rfl⟩ := onPhys_ok he
  exact h.evolve hi (fun node m hu => Uvm.copyout_evolves hcopy node m used hu) rfl (fun _ _ => rfl) (.refl _)

lemma ustackGrow {faultVa : Nat} (h : World E ph₀ ring k A used) (hi : (k.procs i).Live)
    (he : ustackGrow P i faultVa k = .ok (r, k')) :
    ∃ A' used', World E ph₀ ring k' A' used' ∧ Local E ph₀ k k' A A' used i Uvm.stackPage (r = .ok ()) := by
  unfold Proc.ustackGrow at he
  obtain ⟨p, k1, hp, he⟩ := K.bind_ok he
  cases hp
  obtain ⟨ph', hgrow, rfl⟩ := onPhys_ok he
  exact h.evolve hi (fun node m hu => Uvm.ustackGrow_evolves (fun _ hq => hq) hgrow node m used hu) rfl (fun _ _ => rfl) (.refl _)

/-- The pages that `sys_brk` can change. -/
def heapPage (p : Process) (newTop q : Nat) : Prop :=
  p.heapBase ≤ newTop ∧ (p.heapTop ≤ q * PGSIZE ∧ q * PGSIZE < Uvm.pageSize newTop ∨
    newTop ≤ q * PGSIZE ∧ q * PGSIZE < Uvm.pageSize p.heapTop)

lemma sysBrk {newTop r : Nat} (h : World E ph₀ ring k A used) (hi : (k.procs i).Live) (he : sysBrk P i newTop k = .ok (r, k')) :
    ∃ A' used', World E ph₀ ring k' A' used' ∧ Local E ph₀ k k' A A' used i (heapPage (k.procs i) newTop) (r ≠ USIZE_MAX) := by
  obtain ⟨-, hown⟩ := h.owns i hi
  rcases sysBrk_ok he with ⟨rfl, -⟩ | ⟨-, hmax, hbase, top, res, ph', halign, hmove, hres⟩
  · exact h.evolve hi (fun node m hu => Evolves.refl _ node m used hu) rfl (fun _ _ => rfl) (.refl _)
  · have hlt : newTop + 4095 < 2 ^ 64 := by
      have hw := mmap_window.2.2.2
      have hv : VA_MAX < 2 ^ 63 := by decide
      omega
    rw [Uvm.alignUp_eq hlt] at halign
    cases halign
    have hend : Uvm.pageSize newTop ≤ MMAP_BEGIN := by
      obtain ⟨c, hc⟩ := mmap_window.1
      unfold Uvm.pageSize
      unfold PGSIZE at hc
      omega
    have hle : newTop ≤ Uvm.pageSize newTop := by
      unfold Uvm.pageSize
      omega
    have hidem : Uvm.pageSize (Uvm.pageSize newTop) = Uvm.pageSize newTop := by
      unfold Uvm.pageSize
      omega
    have hold : (k.procs i).heapTop ≤ MMAP_BEGIN := hown.heap (by omega)
    have hev : Evolves ph₀ (kernelLeaves E ((k.procs i).trapframe / PGSIZE)) (k.procs i).table
        (heapPage (k.procs i) newTop) (res = .ok ()) k.ph ph' := by
      unfold moveHeap at hmove
      split_ifs at hmove with hup hdown
      · refine Uvm.heapGrow_evolves (fun q hq => kernelLeaves_low hq) (fun q hq hq' => ⟨hbase, .inl ⟨hq, ?_⟩⟩) hup hmove
        rwa [hidem] at hq'
      · exact Uvm.heapUngrow_evolves (fun q hq => kernelLeaves_low hq)
          (fun q hq hq' => ⟨hbase, .inr ⟨by omega, hq'⟩⟩) hold hmove
      · cases hmove
        exact .refl _
    rcases hres with ⟨e, rfl, rfl, rfl⟩ | ⟨rfl, rfl, rfl⟩
    · exact h.evolve hi (fun node m hu => hev.mono (fun _ hq => hq) (fun hc => absurd rfl hc) node m used hu) rfl
        (fun _ _ => rfl) (.refl _)
    · refine h.evolve hi (fun node m hu => hev.mono (fun _ hq => hq) (fun _ => rfl) node m used hu) rfl
        (fun j hj => update_of_ne hj _ _) ?_
      dsimp only
      rw [update_self]
      exact ⟨Iff.rfl, rfl, ⟨rfl, rfl⟩, ⟨rfl, rfl, rfl⟩, rfl, fun _ _ => hend⟩

/-! ### Regions -/

end World

/-- The regions of each process are ranges of the window. -/
structure RegionsHeld (k : Kernel) (ids : Nat → List Nat) (free : List Nat) : Prop extends ListsHeld k ids free where
  regions : ∀ i < NPROC, Regions (k.wh.spans (ids i))

namespace RegionsHeld

variable {ids : Nat → List Nat} {free ids' free' : List Nat}

lemma same (h : RegionsHeld k ids free) (hs : SameLists k k') : RegionsHeld k' ids free :=
  ⟨h.toListsHeld.same hs, fun i hi => by rw [hs.wh]; exact h.regions i hi⟩

lemma change (h : RegionsHeld k ids free) (hi : i < NPROC) (hl : RegionLists k'.wh (k'.procs i).mmapHead ids' free')
    (hsub : ∀ n ∈ ids' ++ free', n ∈ ids i ++ free)
    (hother : ∀ n < N_MMAP, n ∉ ids i ++ free → k'.wh.nodeList n = k.wh.nodeList n) (hr : Regions (k'.wh.spans ids'))
    (ho : ∀ j, j ≠ i → k'.procs j = k.procs j) (hu : (k'.procs i).state = .unused → (k'.procs i).mmapHead = none) :
    RegionsHeld k' (update ids i ids') free' := by
  refine ⟨h.toListsHeld.change hi hl hsub hother ho hu, fun j hj => ?_⟩
  by_cases hji : j = i
  · subst hji
    rw [update_self]
    exact hr
  · rw [update_of_ne hji, MmapWarehouse.spans_congr fun n hn => MmapWarehouse.span_eq ?_]
    · exact h.regions j hj
    · exact hother n ((h.lists j hj).lt n (List.mem_append_left _ hn)) (h.not_mem hi hj hji hn)

lemma reaped (h : RegionsHeld k ids free) (hi : i < NPROC) (hwh : k'.wh = headFreed k.wh (k.procs i).mmapHead)
    (hnew : (k'.procs i).mmapHead = none) (ho : ∀ j, j ≠ i → k'.procs j = k.procs j) : ∃ ids' free', RegionsHeld k' ids' free' := by
  obtain ⟨free', hl, hsub, hother, -⟩ := h.toListsHeld.freed hi
  rw [← hwh] at hl hother
  rw [← hnew] at hl
  exact ⟨_, _, h.change hi hl (fun n hn => hsub n hn) hother .nil ho fun _ => hnew⟩

end RegionsHeld

namespace World

variable {T : Nat → Prop} {ok : Prop} {ids : Nat → List Nat} {free : List Nat}

section

variable (h : World E ph₀ ring k A used) (hr : RegionsHeld k ids free) (hi : (k.procs i).Live)
include h hr hi

lemma remapped {α : Type} {a : α} {x : K Vm α}
    (hx : ∀ node m s', UserTable ph₀ k.ph (kernelLeaves E ((k.procs i).trapframe / PGSIZE)) (k.procs i).table node m used →
      RegionLists k.wh (k.procs i).mmapHead (ids i) free → Regions (k.wh.spans (ids i)) →
      x ⟨k.ph, k.wh, (k.procs i).mmapHead⟩ = .ok (a, s') →
      Uvm.Remapped ph₀ ⟨k.ph, k.wh, (k.procs i).mmapHead⟩ s' (kernelLeaves E ((k.procs i).trapframe / PGSIZE)) (k.procs i).table
        ok node m used (ids i) free) (he : onVm i x k = .ok (a, k')) :
    ∃ A' used' ids' free', World E ph₀ ring k' A' used' ∧ RegionsHeld k' ids' free' ∧ Local E ph₀ k k' A A' used i Uvm.windowPage ok := by
  obtain ⟨s', hrun, hk⟩ := onVm_ok he
  obtain ⟨hlt, hown⟩ := h.owns i hi
  obtain ⟨node, m, hA, hm⟩ := hown.table
  obtain ⟨⟨ids', free', hl, hmv, hreg⟩, -⟩ :=
    hx node m s' (h.estate.userTable hA hm h.bounds) (hr.lists i hlt) (hr.regions i hlt) hrun
  have ho : ∀ j, j ≠ i → k'.procs j = k.procs j := by
    intro j hj
    rw [hk]
    exact update_of_ne hj _ _
  have hself : k'.procs i = { k.procs i with mmapHead := s'.head } := by
    rw [hk]
    exact update_self ..
  have hev : ∀ node m, UserTable ph₀ k.ph (kernelLeaves E ((k.procs i).trapframe / PGSIZE)) (k.procs i).table node m used →
      Evolved ph₀ k.ph k'.ph (kernelLeaves E ((k.procs i).trapframe / PGSIZE)) (k.procs i).table Uvm.windowPage ok node m used := by
    intro node m hu
    rw [hk]
    exact (hx node m s' hu (hr.lists i hlt) (hr.regions i hlt) hrun).2
  obtain ⟨A', used', hw, hloc⟩ := h.evolve hi hev (by rw [hk]) ho
    (by rw [hself]; exact ⟨Iff.rfl, rfl, ⟨rfl, rfl⟩, ⟨rfl, rfl, rfl⟩, rfl, id⟩)
  have hwh : k'.wh = s'.wh := by rw [hk]
  have hhead : (k'.procs i).mmapHead = s'.head := by rw [hself]
  rw [← hwh] at hreg
  refine ⟨A', used', _, free', hw, hr.change hlt (by rw [hwh, hhead]; exact hl) (fun n hn => hmv.perm.mem_iff.mp hn)
    (by rw [hwh]; exact hmv.other) hreg ho fun hu => ?_, hloc⟩
  rw [hself] at hu
  exact absurd hu hi

lemma sysMmap {begin len : Nat} {r : Except UvmError Nat} (hwrap : P = .release → begin + Uvm.pageSize len < 2 ^ 64)
    (he : sysMmap P i begin len k = .ok (r, k')) :
    ∃ A' used' ids' free', World E ph₀ ring k' A' used' ∧ RegionsHeld k' ids' free' ∧
      Local E ph₀ k k' A A' used i Uvm.windowPage (∃ lo, r = .ok lo) := by
  unfold Proc.sysMmap at he
  obtain ⟨p, k1, hp, he⟩ := K.bind_ok he
  cases hp
  refine h.remapped hr hi (fun node m s' hu hl hreg hrun => ?_) he
  exact Uvm.mmap_remapped hu (fun q hq => kernelLeaves_low hq) hl hreg hwrap hrun

lemma sysMunmap {begin len : Nat} (he : sysMunmap P i begin len k = .ok (r, k')) :
    ∃ A' used' ids' free', World E ph₀ ring k' A' used' ∧ RegionsHeld k' ids' free' ∧
      Local E ph₀ k k' A A' used i Uvm.windowPage True := by
  unfold Proc.sysMunmap at he
  obtain ⟨p, k1, hp, he⟩ := K.bind_ok he
  cases hp
  refine h.remapped hr hi (fun node m s' hu hl hreg hrun => ?_) he
  exact Uvm.munmap_remapped hu (fun q hq => kernelLeaves_low hq) hl hreg hrun

end

/-! ### Exit and wait -/

lemma frameDrop_some {addr : Nat} (he : frameDrop (some addr) ph = .ok (u, ph')) : Pmem.free addr ph = .ok (u, ph') := he

lemma reap (h : World E ph₀ ring k A used) (hj : (k.procs j).Live)
    (hdestroy : PageTable.destroy (k.procs j).table k.ph = .ok (u, ph₁))
    (hroot : frameDrop (k.procs j).rootPtFrame ph₁ = .ok (u, ph₂))
    (hstack : kstackDrop P E (k.procs j).kstack ph₂ = .ok (u, ph₃))
    (hframe : frameDrop (k.procs j).trapframeFrame ph₃ = .ok (u, k'.ph)) (hg : k'.globalPid = k.globalPid)
    (ho : ∀ l, l ≠ j → k'.procs l = k.procs l) (hnew : k'.procs j = .new) :
    ∃ A' used', World E ph₀ ring k' A' used' ∧ A' .lost = A .lost := by
  obtain ⟨-, hown⟩ := h.owns j hj
  obtain ⟨node, m, hA, hm⟩ := hown.table
  obtain ⟨used1, h1, hb1, -⟩ := h.estate.destroyUser hA hm h.bounds hdestroy
  rw [hown.root.1, hown.root_eq] at hroot
  obtain ⟨used2, h2, hb2, -⟩ := h1.freeFrame (update_self ..) (frameDrop_some hroot)
  rw [update_idem] at h2
  have hbound : (k.procs j).pid + 1 < 2 ^ 14 := by
    have := (h.pids j hj).2
    have := h.nextPid.2
    omega
  rw [hown.kstack] at hstack
  obtain ⟨nodeK, mK, hK, hmK⟩ := h.kernel
  have hK' : update A (.table j) .none .kernel = .table E.kpt nodeK mK kernelOwn := by simp [hK]
  obtain ⟨mK', used3, h3, hm3, hb3⟩ := h2.freeKstack hK' hmK ((h.bounds.trans hb1).trans hb2) hbound hstack
  rw [hown.trapframe.1, hown.trapframe_eq] at hframe
  obtain ⟨used4, h4, hb4, -⟩ := h3.freeFrame (i := .frame j) (by simp [hown.frame]) (frameDrop_some hframe)
  have hdead : ¬(k'.procs j).Live := by
    rw [hnew]
    exact not_not.mpr rfl
  refine ⟨_, used4, h.change (i := j) h4 (hb3.trans hb4) (fun l h1 h2 h3 _ => ?_) ?_ ⟨nodeK, mK', by simp, ?_⟩ ho
    (fun hl => absurd hl hdead) (fun _ => ⟨by simp, by simp⟩) (fun hl => absurd hl hdead) (by rw [hg]; exact ⟨le_refl _, h.nextPid.2⟩),
    by simp⟩
  · rw [update_of_ne h2, update_of_ne h3, update_of_ne h1]
  · simpa using h.lost
  · exact hm3.congr (h.stackMapped_gone hj hdead ho)

end World

/-- Nothing that concerns memory has changed. -/
structure SameMemory (k k' : Kernel) : Prop where
  ph : k'.ph = k.ph
  globalPid : k'.globalPid = k.globalPid
  procs : ∀ i, (k.procs i).Alike (k'.procs i)

lemma Process.Alike.trans {p p' p'' : Process} (h : p.Alike p') (h' : p'.Alike p'') : p.Alike p'' :=
  ⟨h'.live.trans h.live, h'.pid.trans h.pid, ⟨h'.root.1.trans h.root.1, h'.root.2.trans h.root.2⟩,
    ⟨h'.trapframe.1.trans h.trapframe.1, h'.trapframe.2.1.trans h.trapframe.2.1, h'.trapframe.2.2.trans h.trapframe.2.2⟩,
    h'.kstack.trans h.kstack, fun hh => h'.heap (h.heap hh)⟩

lemma Process.Alike.state {p : Process} {s : ProcState} (h : p.Live) (hs : s ≠ .unused) : p.Alike { p with state := s } :=
  ⟨iff_of_true hs h, rfl, ⟨rfl, rfl⟩, ⟨rfl, rfl, rfl⟩, rfl, id⟩

instance : IsPreorder Kernel SameMemory where
  refl _ := ⟨rfl, rfl, fun _ => .refl _⟩
  trans _ _ _ h h' := ⟨h'.ph.trans h.ph, h'.globalPid.trans h.globalPid, fun i => (h.procs i).trans (h'.procs i)⟩

namespace SameMemory

lemma setProc (hg : (k.procs i).Alike (g (k.procs i))) (he : setProc i g k = .ok (u, k')) :
    SameMemory k k' := by
  cases he
  refine ⟨rfl, rfl, fun j => ?_⟩
  by_cases hj : j = i
  · subst hj
    simpa using hg
  · simpa [hj] using Process.Alike.refl _

lemma keeps_mapProcs (hg : ∀ p : Process, p.Alike (g p)) : K.Keeps SameMemory (mapProcs g) := by
  refine .modify fun k => ⟨rfl, rfl, fun j => ?_⟩
  dsimp only
  split_ifs
  · exact hg _
  · exact .refl _

lemma wakeParent (o : Option Nat) : K.Keeps SameMemory (wakeParent o) := by
  cases o with
  | none => exact .pure _
  | some parent =>
    unfold Proc.wakeParent wakeup
    refine keeps_mapProcs fun p => ?_
    split_ifs with hs
    · refine ⟨iff_of_true nofun ?_, rfl, ⟨rfl, rfl⟩, ⟨rfl, rfl, rfl⟩, rfl, id⟩
      unfold Process.Live
      rw [hs.1]
      nofun
    · exact .refl _

lemma sysExit {code : Nat} (hi : (k.procs i).Live) (he : sysExit i code k = .ok (u, k')) : SameMemory k k' := by
  unfold Proc.sysExit exit at he
  obtain ⟨u₁, k1, h1, he⟩ := K.bind_ok he
  obtain ⟨p, k2, h2, he⟩ := K.bind_ok he
  cases h2
  obtain ⟨u₂, k2, h2, he⟩ := K.bind_ok he
  obtain ⟨u3, k3, h3, he⟩ := K.bind_ok he
  have hcode : SameMemory k k1 := setProc ⟨Iff.rfl, rfl, ⟨rfl, rfl⟩, ⟨rfl, rfl, rfl⟩, rfl, id⟩ h1
  have hwake : SameMemory k1 k2 := wakeParent _ _ _ _ h2
  have hparent : SameMemory k2 k3 := by
    refine keeps_mapProcs (fun p => ?_) _ _ _ h3
    split_ifs
    · exact ⟨Iff.rfl, rfl, ⟨rfl, rfl⟩, ⟨rfl, rfl, rfl⟩, rfl, id⟩
    · exact .refl _
  have hsame : SameMemory k k3 := trans_of SameMemory hcode (trans_of SameMemory hwake hparent)
  exact trans_of SameMemory hsame (setProc (.state ((hsame.procs i).live.mpr hi) ProcState.noConfusion) he)

lemma afterSwitch (he : afterSwitch i k = .ok (u, k')) : SameMemory k k' := by
  refine setProc ?_ he
  split_ifs with hs
  · refine .state ?_ nofun
    unfold Process.Live
    rw [hs]
    nofun
  · exact .refl _

end SameMemory

namespace World

variable {T : Nat → Prop} {ok : Prop} {ids : Nat → List Nat} {free : List Nat}

lemma same (h : World E ph₀ ring k A used) (hs : SameMemory k k') : World E ph₀ ring k' A used := h.alike hs.ph hs.globalPid hs.procs

lemma wait {r : WaitResult} (h : World E ph₀ ring k A used) (hr : RegionsHeld k ids free) (hi : (k.procs i).Live)
    (he : wait P E i k = .ok (r, k')) :
    ∃ A' used' ids' free', World E ph₀ ring k' A' used' ∧ RegionsHeld k' ids' free' ∧ A' .lost = A .lost := by
  rcases wait_ok he with ⟨j, ph₁, ph₂, ph₃, ph₄, hz, -, hdestroy, hroot, hstack, hframe, hk⟩ | ⟨-, ⟨-, rfl⟩ | ⟨-, rfl⟩⟩
  · obtain ⟨hj, -, hstate⟩ := Kernel.firstZombie_eq hz
    have hlive : (k.procs j).Live := by
      unfold Process.Live
      rw [hstate]
      nofun
    have ho : ∀ l, l ≠ j → k'.procs l = k.procs l := by
      intro l hl
      rw [hk]
      exact update_of_ne hl _ _
    have hnew : k'.procs j = .new := by
      rw [hk]
      exact update_self ..
    have hph : k'.ph = ph₄ := by rw [hk]
    rw [← hph] at hframe
    obtain ⟨A', used', hw, hlost⟩ := h.reap hlive hdestroy hroot hstack hframe (by rw [hk]) ho hnew
    obtain ⟨ids', free', hr'⟩ := hr.reaped hj (by rw [hk]) (by rw [hnew]; rfl) ho
    exact ⟨A', used', ids', free', hw, hr', hlost⟩
  · exact ⟨A, used, ids, free, h, hr, rfl⟩
  · refine ⟨A, used, ids, free, h.same ?_, hr.same ⟨rfl, fun j => ?_, fun j hj => ?_⟩, rfl⟩
    · refine SameMemory.setProc (u := ⟨⟩) (g := fun p => { p with state := .sleeping, sleepChan := some i }) ?_ rfl
      exact ⟨iff_of_true nofun hi, rfl, ⟨rfl, rfl⟩, ⟨rfl, rfl, rfl⟩, rfl, id⟩
    · by_cases hji : j = i
      · subst hji
        simp
      · simp [hji]
    · by_cases hji : j = i
      · subst hji
        simp at hj
      · simpa [hji] using hj

end World

end Glenda.Proc
