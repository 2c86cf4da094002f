import Glenda.Proc.Runs

/-!
# The steps of the operations

What an operation that returns has done to memory, step by step, and the process it leaves behind.
-/

namespace Glenda.Proc
open Glenda.Lib Glenda.Mem

variable {P : Profile} {E : Env} {k k' : Kernel} {i c : Nat} {u : Unit} {ph ph' : Phys} {ws : List (Nat × Nat)}

lemma frameAlloc_ok {o : Option Nat} (he : frameAlloc ph = .ok (o, ph')) :
    ∃ pa, o = some pa ∧ Pmem.alloc true ph = .ok (pa, ph') := by
  unfold frameAlloc at he
  obtain ⟨pa, ph1, ha, he⟩ := K.bind_ok he
  cases he
  refine ⟨pa, if_neg fun hzero => ?_, ha⟩
  subst hzero
  unfold Pmem.alloc Pmem.allocate at ha
  obtain ⟨o, ph1, h, ha⟩ := K.bind_ok ha
  obtain ⟨ph2, ph3, hget, h⟩ := K.bind_ok h
  cases hget
  cases hhead : (ph.region true).head with
  | none =>
    rw [hhead] at h
    cases h
    cases ha
  | some p =>
    rw [hhead] at h
    obtain ⟨u1, ph2, hset, h⟩ := K.bind_ok h
    obtain ⟨idx, ph3, hidx, h⟩ := K.bind_ok h
    obtain ⟨-, -, hlow, -⟩ := Pmem.paToIndex_ok hidx
    obtain ⟨u2, ph4, -, h⟩ := K.bind_ok h
    obtain ⟨u3, ph5, -, h⟩ := K.bind_ok h
    obtain ⟨u4, ph6, -, h⟩ := K.bind_ok h
    cases h
    cases ha
    exact absurd hlow (by decide)

/-- Writes to the page of a trap frame. -/
structure WritesTo (n : Nat) (ph ph' : Phys) : Prop where
  mem : ∀ x, x ≠ n → ph'.mem x = ph.mem x
  region : ph'.region = ph.region
  pageRef : ph'.pageRef = ph.pageRef

lemma setTrapframe_writes {tf : Nat} (he : setTrapframe tf ws ph = .ok (u, ph')) :
    WritesTo (tf / PGSIZE) ph ph' := by
  refine K.forM_induct (I := fun _ ph1 => WritesTo (tf / PGSIZE) ph ph1) (fun _ w ph1 ph2 _ hI hs => ?_) he
    ⟨fun _ _ => rfl, rfl, rfl⟩
  cases hs
  refine ⟨fun x hx => ?_, hI.region, hI.pageRef⟩
  rw [← hI.mem x hx]
  exact Function.update_of_ne hx _ _

lemma setTrapframe_eq {tf : Nat} (he : setTrapframe tf ws ph = .ok (u, ph')) :
    ph' = ws.foldl (fun ph w => ph.setWord (tf / PGSIZE) w.1 w.2) ph := by
  induction ws generalizing ph with
  | nil =>
    cases he
    rfl
  | cons w ws ih => exact ih he

lemma copyTrapframe_writes {src dst : Nat} (he : copyTrapframe src dst ph = .ok (u, ph')) : WritesTo (dst / PGSIZE) ph ph' := by
  unfold copyTrapframe at he
  obtain ⟨ph1, ph2, hget, he⟩ := K.bind_ok he
  cases hget
  exact setTrapframe_writes he

/-- What `create` does to the slot `i`. -/
structure Created (P : Profile) (E : Env) (i : Nat) (payload : List Nat) (k k' : Kernel) (root tf top : Nat)
    (ph₁ ph₂ ph₃ ph₄ ph₅ ph₆ : Phys) : Prop where
  allocRoot : frameAlloc k.ph = .ok (some root, ph₁)
  mapTramp : mapTrampoline P E (root / PGSIZE) (ph₁.zeroPage (root / PGSIZE)) = .ok ((), ph₂)
  allocFrame : frameAlloc ph₂ = .ok (some tf, ph₃)
  mapFrame : mapTrapframe P (root / PGSIZE) TRAPFRAME_VA tf ph₃ = .ok ((), ph₄)
  load : loadPayload P (root / PGSIZE) payload ph₄ = .ok (top, ph₅)
  kstack : ∃ kstackTop, KernelVm.allocKstack P E.kpt (k.procs i).pid ph₅ = .ok (kstackTop, ph₆)
  writes : WritesTo (tf / PGSIZE) ph₆ k'.ph
  kernel : k' = { k with
    ph := k'.ph
    procs := Function.update k.procs i { k.procs i with
      state := .runnable, rootPtPa := root, rootPtFrame := some root, trapframeVa := TRAPFRAME_VA, trapframe := tf
      trapframeFrame := some tf, entryVa := PGSIZE, heapTop := top, heapBase := top, kstack := some (k.procs i).pid
      userSpVa := Uvm.STACK_TOP } }

lemma createIn_ok {payload : List Nat} (he : createIn P E i payload k = .ok (u, k')) :
    ∃ root tf top ph1 ph2 ph3 ph4 ph5 ph6, Created P E i payload k k' root tf top ph1 ph2 ph3 ph4 ph5 ph6 := by
  unfold createIn at he
  obtain ⟨o, ph1, hroot, he⟩ := onPhys_bind_ok he
  obtain ⟨root, k1, h, he⟩ := K.bind_ok he
  obtain ⟨rfl, rfl⟩ := expect_ok h
  obtain ⟨u1, k1, h, he⟩ := K.bind_ok he
  cases h
  obtain ⟨u1, k1, h, he⟩ := K.bind_ok he
  cases h
  obtain ⟨u1, ph2, htramp, he⟩ := onPhys_bind_ok he
  obtain ⟨o, ph3, hframe, he⟩ := onPhys_bind_ok he
  obtain ⟨tf, k1, h, he⟩ := K.bind_ok he
  obtain ⟨rfl, rfl⟩ := expect_ok h
  obtain ⟨u1, k1, h, he⟩ := K.bind_ok he
  cases h
  obtain ⟨u1, ph4, htrap, he⟩ := onPhys_bind_ok he
  obtain ⟨top, ph5, himage, he⟩ := onPhys_bind_ok he
  obtain ⟨u1, k1, h, he⟩ := K.bind_ok he
  cases h
  obtain ⟨p, k1, h, he⟩ := K.bind_ok he
  cases h
  obtain ⟨kstackTop, ph6, hkstack, he⟩ := onPhys_bind_ok he
  obtain ⟨u1, k1, h, he⟩ := K.bind_ok he
  cases h
  obtain ⟨u1, ph7, hset, he⟩ := onPhys_bind_ok he
  cases he
  simp only [Function.update_self] at hkstack
  exact ⟨root, tf, top, ph1, ph2, ph3, ph4, ph5, ph6, hroot, htramp, hframe, htrap, himage, ⟨kstackTop, hkstack⟩,
    setTrapframe_writes hset, by simp⟩

/-- What `fork` does for the process `i` in the slot `c` of the child. -/
structure Forked (P : Profile) (E : Env) (i c : Nat) (k k' : Kernel) (root tf : Nat)
    (ph₁ ph₂ ph₃ ph₄ ph₅ ph₆ : Phys) : Prop where
  copy : PageTable.copy P (k.procs i).table k.ph = .ok (.ok root, ph₁)
  allocFrame : frameAlloc ph₁ = .ok (some tf, ph₂)
  kstack : ∃ kstackTop, KernelVm.allocKstack P E.kpt (k.procs c).pid ph₂ = .ok (kstackTop, ph₃)
  unmap : KernelVm.unmappages P (root / PGSIZE) (k.procs i).trapframeVa PGSIZE true ph₃ = .ok ((), ph₄)
  mapFrame : mapTrapframe P (root / PGSIZE) (k.procs i).trapframeVa tf ph₄ = .ok ((), ph₅)
  writes : WritesTo (tf / PGSIZE) ph₅ ph₆
  result : WritesTo ((k.procs i).trapframe / PGSIZE) ph₆ k'.ph
  kernel : k' = { k with
    ph := k'.ph
    procs := Function.update k.procs c { k.procs c with
      state := .runnable, parent := some i, entryVa := (k.procs i).entryVa, userSpVa := (k.procs i).userSpVa
      trapframeVa := (k.procs i).trapframeVa, rootPtPa := root, rootPtFrame := some root
      heapBase := (k.procs i).heapBase, heapTop := (k.procs i).heapTop, stackPages := (k.procs i).stackPages
      trapframe := tf, trapframeFrame := some tf, kstack := some (k.procs c).pid } }

lemma forkInto_ok (he : forkInto P E i c k = .ok (u, k')) :
    ∃ root tf ph1 ph2 ph3 ph4 ph5 ph6, Forked P E i c k k' root tf ph1 ph2 ph3 ph4 ph5 ph6 := by
  unfold forkInto at he
  obtain ⟨p, k1, h, he⟩ := K.bind_ok he
  cases h
  obtain ⟨u1, k1, h, he⟩ := K.bind_ok he
  cases h
  obtain ⟨r, ph1, hcopy, he⟩ := onPhys_bind_ok he
  cases r with
  | error e => cases he
  | ok root =>
    obtain ⟨u1, k1, h, he⟩ := K.bind_ok he
    cases h
    obtain ⟨o, ph2, hframe, he⟩ := onPhys_bind_ok he
    obtain ⟨tf, k1, h, he⟩ := K.bind_ok he
    obtain ⟨rfl, rfl⟩ := expect_ok h
    obtain ⟨u1, k1, h, he⟩ := K.bind_ok he
    cases h
    obtain ⟨p, k1, h, he⟩ := K.bind_ok he
    cases h
    obtain ⟨kstackTop, ph3, hkstack, he⟩ := onPhys_bind_ok he
    obtain ⟨u1, k1, h, he⟩ := K.bind_ok he
    cases h
    obtain ⟨u1, ph7, hrest, he⟩ := onPhys_bind_ok he
    cases he
    obtain ⟨u1, ph4, hunmap, hrest⟩ := K.bind_ok hrest
    obtain ⟨u2, ph5, hmap, hrest⟩ := K.bind_ok hrest
    obtain ⟨u3, ph6, hcopied, hrest⟩ := K.bind_ok hrest
    obtain ⟨ph8, ph9, hget, hrest⟩ := K.bind_ok hrest
    cases hget
    obtain ⟨u4, ph9, hset, hrest⟩ := K.bind_ok hrest
    have hfirst := copyTrapframe_writes hcopied
    have hsecond := setTrapframe_writes hset
    simp only [Function.update_self] at hkstack
    refine ⟨root, tf, ph1, ph2, ph3, ph4, ph5, ph9, hcopy, hframe, ⟨kstackTop, hkstack⟩, hunmap, hmap,
      ⟨fun x hx => (hsecond.mem x hx).trans (hfirst.mem x hx), hsecond.region.trans hfirst.region,
        hsecond.pageRef.trans hfirst.pageRef⟩, setTrapframe_writes hrest, by simp⟩

/-- What `proc_exec` does up to the point where the new image is complete or cannot be completed. -/
structure Loaded (P : Profile) (E : Env) (i : Nat) (file : Nat → Nat → List Nat) (argv : List Nat) (k : Kernel) (root tf : Nat)
    (r : Except Unit (Nat × Nat)) (ph₁ ph₂ ph₃ ph₄ ph₅ : Phys) : Prop where
  allocRoot : frameAlloc k.ph = .ok (some root, ph₁)
  mapTramp : mapTrampoline P E (root / PGSIZE) (ph₁.zeroPage (root / PGSIZE)) = .ok ((), ph₂)
  allocFrame : frameAlloc ph₂ = .ok (some tf, ph₃)
  mapFrame : mapTrapframe P (root / PGSIZE) TRAPFRAME_VA tf ph₃ = .ok ((), ph₄)
  build : buildImage P file (file 0 64) argv (k.procs i).table (root / PGSIZE) ph₄ = .ok (r, ph₅)

/-- What `proc_exec` does with the image: it gives the old one up, or the new one. -/
inductive Executed (E : Env) (i : Nat) (header : List Nat) (argc : Nat) (k k' : Kernel) (root tf : Nat) (ph : Phys) :
    Except Unit (Nat × Nat) → Except Unit Unit → Prop
  | ok {maxVa sp pid kstackTop : Nat} {ph₁ ph₂ : Phys} (hdrop : dropTable (k.procs i).rootPtFrame ph = .ok ((), ph₁))
      (hpid : (k.procs i).kstack = some pid)
      (hset : setTrapframe tf [(TF_SP, sp), (TF_KERNEL_EPC, field header 24 32), (TF_A0, argc), (TF_A1, sp), (TF_KERNEL_SATP, E.satp),
        (TF_KERNEL_HARTID, E.hartid), (TF_KERNEL_SP, kstackTop)] ph₁ = .ok ((), ph₂))
      (hframe : frameDrop (k.procs i).trapframeFrame ph₂ = .ok ((), k'.ph))
      (hk : k' = { k with
        ph := k'.ph
        procs := Function.update k.procs i { k.procs i with
          rootPtPa := root, rootPtFrame := some root, trapframe := tf, trapframeFrame := some tf, trapframeVa := TRAPFRAME_VA
          heapBase := maxVa, heapTop := maxVa, stackPages := Uvm.STACK_SIZE / PGSIZE, entryVa := field header 24 32
          userSpVa := sp } }) : Executed E i header argc k k' root tf ph (.ok (maxVa, sp)) (.ok ())
  | error {ph₁ : Phys} (hframe : frameDrop (some tf) ph = .ok ((), ph₁)) (hroot : frameDrop (some root) ph₁ = .ok ((), k'.ph))
      (hk : k' = { k with ph := k'.ph }) : Executed E i header argc k k' root tf ph (.error ()) (.error ())

lemma procExec_ok {file : Option (Nat → Nat → List Nat)} {argv : List Nat} {r : Except Unit Unit}
    (he : procExec P E i file argv k = .ok (r, k')) :
    (r = .error () ∧ k' = k) ∨ ∃ f root tf res ph1 ph2 ph3 ph4 ph5, file = some f ∧
      Loaded P E i f argv k root tf res ph1 ph2 ph3 ph4 ph5 ∧ Executed E i (f 0 64) argv.length k k' root tf ph5 res r := by
  cases file with
  | none =>
    cases he
    exact .inl ⟨rfl, rfl⟩
  | some f =>
    unfold procExec at he
    dsimp only at he
    split_ifs at he with hlen hmagic
    · cases he
      exact .inl ⟨rfl, rfl⟩
    · cases he
      exact .inl ⟨rfl, rfl⟩
    · obtain ⟨p, k1, h, he⟩ := K.bind_ok he
      cases h
      obtain ⟨o, ph1, hroot, he⟩ := onPhys_bind_ok he
      cases o with
      | none =>
        obtain ⟨pa, hpa, -⟩ := frameAlloc_ok hroot
        cases hpa
      | some root =>
        obtain ⟨u1, k1, h, he⟩ := K.bind_ok he
        cases h
        obtain ⟨u1, ph2, htramp, he⟩ := onPhys_bind_ok he
        obtain ⟨o, ph3, htf, he⟩ := onPhys_bind_ok he
        cases o with
        | none =>
          obtain ⟨pa, hpa, -⟩ := frameAlloc_ok htf
          cases hpa
        | some tf =>
          obtain ⟨u1, ph4, hmap, he⟩ := onPhys_bind_ok he
          obtain ⟨res, ph5, hbuild, he⟩ := onPhys_bind_ok he
          refine .inr ⟨f, root, tf, res, ph1, ph2, ph3, ph4, ph5, rfl, ⟨hroot, htramp, htf, hmap, hbuild⟩, ?_⟩
          cases res with
          | error e =>
            obtain ⟨u1, ph6, hdrop, he⟩ := onPhys_bind_ok he
            obtain ⟨u1, ph7, hdrop', he⟩ := onPhys_bind_ok he
            cases he
            exact .error hdrop hdrop' rfl
          | ok v =>
            obtain ⟨maxVa, sp⟩ := v
            obtain ⟨u1, ph6, hdrop, he⟩ := onPhys_bind_ok he
            obtain ⟨u1, k1, h, he⟩ := K.bind_ok he
            cases h
            obtain ⟨pid, k1, h, he⟩ := K.bind_ok he
            obtain ⟨hpid, rfl⟩ := expect_ok h
            obtain ⟨base, k1, h, he⟩ := K.bind_ok he
            obtain ⟨x, k2, hx, h⟩ := K.bind_ok h
            obtain ⟨rfl, -⟩ := mulW_ok hx
            obtain ⟨rfl, -⟩ := addW_ok h
            obtain ⟨top, k1, h, he⟩ := K.bind_ok he
            obtain ⟨rfl, -⟩ := addW_ok h
            obtain ⟨u1, ph7, hset, he⟩ := onPhys_bind_ok he
            obtain ⟨u1, ph8, hfree, he⟩ := onPhys_bind_ok he
            cases he
            exact .ok hdrop hpid hset hfree rfl

lemma sysBrk_ok {newTop r : Nat} (he : sysBrk P i newTop k = .ok (r, k')) :
    (k' = k ∧ (newTop = 0 ∧ r = (k.procs i).heapTop ∨
      r = USIZE_MAX ∧ newTop ≠ 0 ∧ (MMAP_BEGIN < newTop ∨ newTop < (k.procs i).heapBase))) ∨
    newTop ≠ 0 ∧ newTop ≤ MMAP_BEGIN ∧ (k.procs i).heapBase ≤ newTop ∧ ∃ top res ph', alignUp P newTop k = .ok (top, k) ∧
      moveHeap P (k.procs i).table (k.procs i).heapTop top k.ph = .ok (res, ph') ∧
      ((∃ e, res = .error e ∧ r = USIZE_MAX ∧ k' = { k with ph := ph' }) ∨ res = .ok () ∧ r = top ∧ k' = { k with
        ph := ph', procs := Function.update k.procs i { k.procs i with heapTop := top } }) := by
  unfold sysBrk at he
  obtain ⟨p, k1, h, he⟩ := K.bind_ok he
  cases h
  split_ifs at he with hzero hhigh hlow
  · cases he
    exact .inl ⟨rfl, .inl ⟨hzero, rfl⟩⟩
  · cases he
    exact .inl ⟨rfl, .inr ⟨rfl, hzero, .inl hhigh⟩⟩
  · cases he
    exact .inl ⟨rfl, .inr ⟨rfl, hzero, .inr hlow⟩⟩
  · obtain ⟨top, k1, halign, he⟩ := K.bind_ok he
    obtain rfl := (alignUp_ok halign).1
    obtain ⟨res, ph', hmove, he⟩ := onPhys_bind_ok he
    refine .inr ⟨hzero, by omega, by omega, top, res, ph', halign, hmove, ?_⟩
    cases res with
    | error e =>
      cases he
      exact .inl ⟨e, rfl, rfl, rfl⟩
    | ok v =>
      cases he
      exact .inr ⟨rfl, rfl, rfl⟩

end Glenda.Proc
