import Glenda.Proc.Boot

/-!
# Kernel stacks

The kernel stack of a process stands at an address that its process id determines. Process ids are never used
again, and the stack of the last one that fits ends below the trampoline.
-/

namespace Glenda.Proc
open Glenda.Lib Glenda.Mem Glenda.Mem.KernelVm

/-- `Process::root_satp`. The mode of Sv39 is 8. -/
def Process.rootSatp (p : Process) : Nat :=
  8 <<< 60 ||| (p.pid <<< 44) % 2 ^ 64 ||| ((p.rootPtPa >>> 12) &&& (1 <<< (64 - 12)) - 1)

/-- The fields of `satp`: mode, address space and page of the root. -/
def satpFields (satp : Nat) : Nat × Nat × Nat := (satp / 2 ^ 60, satp / 2 ^ 44 % 2 ^ 16, satp % 2 ^ 44)

/-- The stacks of the processes lie in the region for them, below the page of the trampoline, and apart from
each other. -/
structure Kernel.StacksFit (P : Profile) (k : Kernel) : Prop where
  inside : ∀ i, (k.procs i).Live → ∃ base, (kstackBase P (k.procs i).pid : K Kernel Nat) k = .ok (base, k) ∧
    KSTACK_VA_BASE ≤ base ∧ base + KSTACK_SIZE ≤ VA_MAX - PGSIZE
  apart : ∀ i j base base', i ≠ j → (k.procs i).Live → (k.procs j).Live →
    (kstackBase P (k.procs i).pid : K Kernel Nat) k = .ok (base, k) →
    (kstackBase P (k.procs j).pid : K Kernel Nat) k = .ok (base', k) → base + KSTACK_SIZE ≤ base' ∨ base' + KSTACK_SIZE ≤ base
  satp : ∀ i, (k.procs i).Live → satpFields (k.procs i).rootSatp = (8, (k.procs i).pid, (k.procs i).table)

/-- An operation calls `KernelStack::new` for a process id, with memory as it is then. -/
inductive KstackCall (P : Profile) (E : Env) (k : Kernel) : Op → Nat → Phys → Prop
  | create {payload : List Nat} {i root tf top : Nat} {k₁ : Kernel} {ph₁ ph₂ ph₃ ph₄ ph₅ : Phys}
      (halloc : alloc k = .ok (some i, k₁)) (hroot : frameAlloc k₁.ph = .ok (some root, ph₁))
      (htramp : mapTrampoline P E (root / PGSIZE) (ph₁.zeroPage (root / PGSIZE)) = .ok ((), ph₂))
      (hframe : frameAlloc ph₂ = .ok (some tf, ph₃)) (hmap : mapTrapframe P (root / PGSIZE) TRAPFRAME_VA tf ph₃ = .ok ((), ph₄))
      (hload : loadPayload P (root / PGSIZE) payload ph₄ = .ok (top, ph₅)) :
      KstackCall P E k (.create payload) (k₁.procs i).pid ph₅
  | fork {i c root tf : Nat} {k₁ : Kernel} {ph₁ ph₂ : Phys} (halloc : alloc k = .ok (some c, k₁))
      (hcopy : PageTable.copy P (k₁.procs i).table k₁.ph = .ok (.ok root, ph₁)) (hframe : frameAlloc ph₁ = .ok (some tf, ph₂)) :
      KstackCall P E k (.fork i) (k₁.procs c).pid ph₂

variable {P : Profile} {E : Env} {ph₀ ph : Phys} {k k₀ : Kernel} {A B : Holder → Asset} {ring used used' : Nat → Prop} {pid : Nat} {op : Op}

lemma satpFields_eq {pid ppn : Nat} (hpid : pid < 2 ^ 16) (hppn : ppn < 2 ^ 44) :
    satpFields (8 <<< 60 ||| (pid <<< 44) % 2 ^ 64 ||| ppn) = (8, pid, ppn) := by
  have hlow : pid <<< 44 ||| ppn = pid * 2 ^ 44 + ppn := by
    rw [← Nat.shiftLeft_add_eq_or_of_lt hppn, Nat.shiftLeft_eq]
  have hmod : (pid <<< 44) % 2 ^ 64 = pid <<< 44 := by
    rw [Nat.shiftLeft_eq]
    omega
  have hsum : 8 <<< 60 ||| pid <<< 44 ||| ppn = 8 * 2 ^ 60 + (pid * 2 ^ 44 + ppn) := by
    rw [Nat.or_assoc, hlow, ← Nat.shiftLeft_add_eq_or_of_lt (by omega), Nat.shiftLeft_eq]
  rw [hmod, hsum]
  unfold satpFields
  refine Prod.ext ?_ (Prod.ext ?_ ?_) <;> dsimp only <;> omega

lemma Process.rootSatp_fields {p : Process} (hpid : p.pid < 2 ^ 16) (htable : p.table < 2 ^ 44) :
    satpFields p.rootSatp = (8, p.pid, p.table) := by
  have hppn : (p.rootPtPa >>> 12) &&& (1 <<< (64 - 12)) - 1 = p.table := by
    rw [show (1 <<< (64 - 12)) - 1 = 2 ^ 52 - 1 from rfl, Nat.and_two_pow_sub_one_eq_mod, Nat.shiftRight_eq_div_pow]
    exact Nat.mod_eq_of_lt (htable.trans (by decide))
  unfold rootSatp
  rw [hppn]
  exact satpFields_eq hpid htable

namespace World

section

variable (h : World E ph₀ ring k A used)
include h

lemma pid_lt {i : Nat} (hi : (k.procs i).Live) : (k.procs i).pid + 1 < 2 ^ 14 := by
  have hpid := (h.pids i hi).2
  have hnext := h.nextPid.2
  omega

lemma stacksFit : k.StacksFit P := by
  have hbase : ∀ i, (k.procs i).Live → (kstackBase P (k.procs i).pid : K Kernel Nat) k =
      .ok (KSTACK_VA_BASE + (k.procs i).pid * KSTACK_SIZE, k) := by
    intro i hi
    have := h.pid_lt hi
    rw [kstackBase_eq (by omega)]
    rfl
  have hsize : KSTACK_SIZE = 2 ^ 14 := rfl
  refine ⟨fun i hi => ⟨_, hbase i hi, by omega, ?_⟩, fun i j base base' hne hi hj hb hb' => ?_, fun i hi => ?_⟩
  · have hlt := h.pid_lt hi
    have hend : VA_MAX - PGSIZE = KSTACK_VA_BASE + (2 ^ 28 - 2 ^ 12) := by decide
    rw [hsize, hend]
    omega
  · rw [hbase i hi] at hb
    rw [hbase j hj] at hb'
    cases hb
    cases hb'
    have hpid : (k.procs i).pid ≠ (k.procs j).pid := fun he => hne (h.apart i j hi hj he)
    rw [hsize]
    omega
  · have hlt := h.pid_lt hi
    have hsmall := (h.owns i hi).2.small.1
    exact Process.rootSatp_fields (by omega) (by omega)

lemma nextStack {m : PageMap} (hlt : k.globalPid + 1 < 2 ^ 14)
    (hm : KernelMap ph₀ m k.stackMapped) {q : Nat} (hq : stackOf k.globalPid q) : m q = none := by
  by_contra hne
  have hpos := h.nextPid.1
  rcases (hm.stack q (stackOf_area hlt hq)).mp hne with h0 | ⟨i, hi, hqi⟩
  · have := stackOf_inj hq h0
    omega
  · have heq := stackOf_inj hq hqi
    have hpid := (h.pids i hi).2
    omega

/-- Whoever has got to `KernelStack::new` without a change to the kernel's own table can only run out of memory. -/
lemma newStack_error {e : Panic} (hlt : k.globalPid + 1 < 2 ^ 14) (hB : Estate ph B used')
    (hb : ph₀.SameBounds ph) (hK : B .kernel = A .kernel) (he : allocKstack P E.kpt k.globalPid ph = .error e) :
    e ∈ Pmem.allocErrors := by
  obtain ⟨node, m, hA, hm⟩ := h.kernel
  exact allocKstack_error (hB.kernelTable (hK.trans hA) hm hb) hlt (fun q hq => h.nextStack hlt hm hq) he

lemma kstackCall_error {e : Panic} (hr : op.Ready k) (hlt : k.globalPid + 1 < 2 ^ 14)
    (hc : KstackCall P E k op pid ph) (he : allocKstack P E.kpt pid ph = .error e) : e ∈ Pmem.allocErrors := by
  cases hc with
  | create halloc hroot htramp hframe hmap hload =>
    rcases alloc_ok halloc with ⟨hnone, -⟩ | ⟨c, hc, -, hu, -, rfl⟩
    · cases hnone
    · cases hc
      dsimp only at hroot he
      rw [Function.update_self] at he
      obtain ⟨-, -, node, m, used', hB, -, hb⟩ := h.image (not_not.mpr hu) hroot htramp hframe hmap hload
      exact h.newStack_error hlt hB hb (by simp) he
  | fork halloc hcopy hframe =>
    rename_i i c root tf k1 ph1
    rcases alloc_ok halloc with ⟨hnone, -⟩ | ⟨c', hc, -, hu, -, rfl⟩
    · cases hnone
    · cases hc
      have hdead : ¬(k.procs c).Live := not_not.mpr hu
      have hne : i ≠ c := by
        rintro rfl
        exact hdead hr.2.1
      dsimp only at hcopy he
      rw [Function.update_self] at he
      rw [Function.update_of_ne hne] at hcopy
      obtain ⟨dst, n, node, m, node', m', used', -, -, -, -, -, hB, hb⟩ := h.clone hr.2.1 hdead hcopy hframe
      exact h.newStack_error hlt hB hb (by simp) he

end

end World

/-- In every run the stacks of the processes fit. As long as the next process id is below 16383, a new stack can be
mapped if there is memory for it. -/
theorem kernel_stacks_fit (h₀ : Booted E ring k₀) (h : Reaches P E (fun _ op _ => op.Typed ∧ (P = .release → op.NoWrap)) k₀ k) :
    k.StacksFit P ∧ (k.globalPid < 16383 → ∀ op pid ph e, op.Ready k → KstackCall P E k op pid ph →
      allocKstack P E.kpt pid ph = .error e → e ∈ Pmem.allocErrors) := by
  obtain ⟨A₀, hA₀, -⟩ := h₀.shared
  obtain ⟨A, used, ids, free, hw, -⟩ := hA₀.run h fun _ _ _ ha => ha
  exact ⟨hw.stacksFit, fun hlt op pid ph e hr hc he => hw.kstackCall_error hr (by omega) hc he⟩

/-- Two processes, and the stack of the next one. -/
theorem kernel_stacks_fit_boot : ∃ k₀ k, Booted bootEnv (fun _ => False) k₀ ∧
    Reaches .dev bootEnv (fun _ op _ => op.Typed ∧ (Profile.dev = .release → op.NoWrap)) k₀ k ∧ k.globalPid = 3 ∧
    k.StacksFit .dev ∧ ∀ op pid ph e, op.Ready k → KstackCall .dev bootEnv k op pid ph →
      allocKstack .dev bootEnv.kpt pid ph = .error e → e ∈ Pmem.allocErrors := by
  obtain ⟨k₀, k, h₀, hrun, hpid⟩ := exists_run .dev (fun _ op _ => op.Typed ∧ (Profile.dev = .release → op.NoWrap))
    (fun _ op _ => !op.isExec) [.create [], .create []] Kernel.globalPid 3
    (fun k op _ b ht => ⟨Op.typed_of_not_exec (by simpa using ht), nofun⟩) (by decide +kernel)
  obtain ⟨hfit, hnew⟩ := kernel_stacks_fit h₀ hrun
  exact ⟨k₀, k, h₀, hrun, hpid, hfit, hnew (by rw [hpid]; decide)⟩

/-- The page of the trampoline is in the way of the process id 16383. -/
theorem kernel_stack_in_the_way : ∃ k A ph, Shared bootEnv k.ph (fun _ => False) k A ∧ k.globalPid = 16383 ∧
    KstackCall .dev bootEnv k (.create []) 16383 ph ∧ allocKstack .dev bootEnv.kpt 16383 ph = .error .vmMappages := by
  obtain ⟨k, he⟩ := K.exists_of_run' (a := some Panic.vmMappages) (s := bootKernel) (x := do
    let _ ← onPhys (mapKernel .dev bootEnv)
    set { (← get) with globalPid := 16383 }
    let o ← alloc
    let i ← expect o
    let root ← expect (← onPhys frameAlloc)
    onPhys (modify (·.zeroPage (root / PGSIZE)))
    onPhys (mapTrampoline .dev bootEnv (root / PGSIZE))
    let tf ← expect (← onPhys frameAlloc)
    onPhys (mapTrapframe .dev (root / PGSIZE) TRAPFRAME_VA tf)
    let _ ← onPhys (loadPayload .dev (root / PGSIZE) [])
    let k ← get
    match allocKstack .dev bootEnv.kpt (k.procs i).pid k.ph with
    | .error e => return some e
    | .ok _ => return none) (by decide +kernel)
  obtain ⟨top, k₀, hmap, he⟩ := K.bind_eq_ok.mp he
  obtain ⟨ph₀, hkernel, rfl⟩ := onPhys_eq_ok.mp hmap
  obtain ⟨k', k'', hget, he⟩ := K.bind_eq_ok.mp he
  cases hget
  obtain ⟨u, k', hset, he⟩ := K.bind_eq_ok.mp he
  cases hset
  obtain ⟨A, hA, -⟩ := (bootKernel_booted hkernel).shared_pid (g := 16383) (by decide)
  obtain ⟨o, k₁, halloc, he⟩ := K.bind_eq_ok.mp he
  obtain ⟨i, k₂, hslot, he₁⟩ := K.bind_eq_ok.mp he
  obtain ⟨rfl, rfl⟩ := expect_eq_ok.mp hslot
  obtain ⟨o, k₃, halloc₁, he₁⟩ := K.bind_eq_ok.mp he₁
  obtain ⟨ph₁, hroot, rfl⟩ := onPhys_eq_ok.mp halloc₁
  obtain ⟨root, k₃, hsome, he₂⟩ := K.bind_eq_ok.mp he₁
  obtain ⟨rfl, rfl⟩ := expect_eq_ok.mp hsome
  obtain ⟨u₁, k₃, hzero, he₃⟩ := K.bind_eq_ok.mp he₂
  cases hzero
  obtain ⟨u₁, k₃, hmap₁, he₃⟩ := K.bind_eq_ok.mp he₃
  obtain ⟨ph₂, htramp, rfl⟩ := onPhys_eq_ok.mp hmap₁
  obtain ⟨o, k₃, halloc₂, he₃⟩ := K.bind_eq_ok.mp he₃
  obtain ⟨ph₃, hframe, rfl⟩ := onPhys_eq_ok.mp halloc₂
  obtain ⟨tf, k₃, hsome₁, he₄⟩ := K.bind_eq_ok.mp he₃
  obtain ⟨rfl, rfl⟩ := expect_eq_ok.mp hsome₁
  obtain ⟨u₁, k₃, hmap₂, he₅⟩ := K.bind_eq_ok.mp he₄
  obtain ⟨ph₄, htrap, rfl⟩ := onPhys_eq_ok.mp hmap₂
  obtain ⟨top', k₃, hload₁, he₅⟩ := K.bind_eq_ok.mp he₅
  obtain ⟨ph₅, hload, rfl⟩ := onPhys_eq_ok.mp hload₁
  obtain ⟨k₃, k₄, hget₁, hend⟩ := K.bind_eq_ok.mp he₅
  cases hget₁
  have hpid : (k₂.procs i).pid = 16383 := by
    rcases alloc_ok halloc with ⟨hnone, -⟩ | ⟨c, hc, -, -, -, rfl⟩
    · cases hnone
    · cases hc
      simp
  have hcall := KstackCall.create halloc hroot htramp hframe htrap hload
  dsimp only at hend
  rw [hpid] at hcall hend
  refine ⟨_, A, ph₅, hA, rfl, hcall, ?_⟩
  cases hstack : allocKstack .dev bootEnv.kpt 16383 ph₅ with
  | error e =>
    rw [hstack] at hend
    cases hend
    rfl
  | ok r =>
    rw [hstack] at hend
    cases hend

end Glenda.Proc
