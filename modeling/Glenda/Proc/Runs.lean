import Glenda.Proc.Process
import Glenda.Lib.Keeps

/-!
# Runs of the kernel

The operations that processes ask the kernel for, and what any series of them reaches.
-/

namespace Glenda.Proc
open Glenda.Lib Glenda.Mem
open Function (update update_self)

section Primitives

variable {α : Type} {k k' : Kernel} {a : α} {x : K Phys α} {o : Option α}

lemma onPhys_eq_ok : onPhys x k = .ok (a, k') ↔ ∃ ph', x k.ph = .ok (a, ph') ∧ k' = { k with ph := ph' } := by
  constructor
  · exact fun h => K.focus_ok (show K.focus Kernel.ph (fun ph k => { k with ph := ph }) x k = _ from h)
  · rintro ⟨ph', hx, rfl⟩
    simp [onPhys, hx, Except.map]

lemma onPhys_ok (h : onPhys x k = .ok (a, k')) : ∃ ph', x k.ph = .ok (a, ph') ∧ k' = { k with ph := ph' } :=
  onPhys_eq_ok.mp h

lemma onPhys_bind_ok {β : Type} {b : β} {f : α → K Kernel β} (h : (onPhys x >>= f) k = .ok (b, k')) :
    ∃ a ph, x k.ph = .ok (a, ph) ∧ f a { k with ph := ph } = .ok (b, k') := by
  obtain ⟨a, k1, h1, h⟩ := K.bind_ok h
  obtain ⟨ph, hx, rfl⟩ := onPhys_ok h1
  exact ⟨a, ph, hx, h⟩

lemma onVm_ok {i : Nat} {x : K Vm α} (h : onVm i x k = .ok (a, k')) :
    ∃ s', x ⟨k.ph, k.wh, (k.procs i).mmapHead⟩ = .ok (a, s') ∧ k' = { k with
      ph := s'.ph, wh := s'.wh, procs := update k.procs i { k.procs i with mmapHead := s'.head } } :=
  K.focus_ok (show K.focus (fun k => ⟨k.ph, k.wh, (k.procs i).mmapHead⟩) (fun s k => { k with
    ph := s.ph, wh := s.wh, procs := update k.procs i { k.procs i with mmapHead := s.head } }) x k = _ from h)

lemma expect_eq_ok {σ : Type} {s s' : σ} : expect o s = .ok (a, s') ↔ o = some a ∧ s' = s := by
  cases o with
  | none => simp [expect]
  | some b => simp [expect, eq_comm]

lemma expect_ok {σ : Type} {s s' : σ} (h : expect o s = .ok (a, s')) : o = some a ∧ s' = s :=
  expect_eq_ok.mp h

lemma alloc_ok {o : Option Nat} (he : alloc k = .ok (o, k')) :
    (o = none ∧ k' = k) ∨ ∃ i, o = some i ∧ i < NPROC ∧ (k.procs i).state = .unused ∧
      (∀ j < i, (k.procs j).state ≠ .unused) ∧ k' = { k with
        globalPid := (k.globalPid + 1) % 2 ^ 64
        procs := update k.procs i { k.procs i with
          pid := k.globalPid, parent := none, exitCode := 0, sleepChan := none, state := .runnable } } := by
  unfold alloc at he
  obtain ⟨k1, k2, hget, he⟩ := K.bind_ok he
  cases hget
  cases hf : (List.range NPROC).find? fun i => (k.procs i).state = .unused with
  | none =>
    rw [hf] at he
    cases he
    exact .inl ⟨rfl, rfl⟩
  | some i =>
    rw [hf] at he
    cases he
    obtain ⟨hu, hi, hfirst⟩ := List.find?_range_eq_some.mp hf
    refine .inr ⟨i, rfl, List.mem_range.mp hi, by simpa using hu, fun j hj => ?_, rfl⟩
    simpa using hfirst j hj

/-- The warehouse after `region_free`. -/
def headFreed (wh : MmapWarehouse) : Option Nat → MmapWarehouse
  | none => wh
  | some x => { wh.setNode x ⟨.zero, wh.head⟩ with head := some x }

lemma regionFree_ok {o : Option Nat} {u : Unit} {s s' : Vm} (he : regionFree o s = .ok (u, s')) :
    s' = { s with wh := headFreed s.wh o } := by
  cases o <;> cases he <;> rfl

variable {P : Profile} {E : Env}

lemma free_ok {i : Nat} {u : Unit} (he : free P E i k = .ok (u, k')) :
    ∃ ph1 ph2 ph3, PageTable.destroy (k.procs i).table k.ph = .ok ((), ph1) ∧
      frameDrop (k.procs i).rootPtFrame ph1 = .ok ((), ph2) ∧ kstackDrop P E (k.procs i).kstack ph2 = .ok ((), ph3) ∧
      k' = { k with
        ph := ph3, wh := headFreed k.wh (k.procs i).mmapHead
        procs := update k.procs i { k.procs i with rootPtFrame := none, kstack := none } } := by
  unfold free at he
  obtain ⟨p, k1, hp, he⟩ := K.bind_ok he
  cases hp
  obtain ⟨u1, ph1, h1, he⟩ := onPhys_bind_ok he
  obtain ⟨u2, ph2, h2, he⟩ := onPhys_bind_ok he
  obtain ⟨u3, k3, hset, he⟩ := K.bind_ok he
  cases hset
  obtain ⟨u4, k3, hregion, he⟩ := K.bind_ok he
  obtain ⟨s', hs', rfl⟩ := onVm_ok hregion
  obtain rfl := regionFree_ok hs'
  obtain ⟨u5, ph3, h3, he⟩ := onPhys_bind_ok he
  cases he
  refine ⟨ph1, ph2, ph3, h1, h2, h3, ?_⟩
  simp

lemma wait_ok {i : Nat} {r : WaitResult} (he : wait P E i k = .ok (r, k')) :
    (∃ j ph1 ph2 ph3 ph4, k.firstZombie i = some j ∧ r = .reaped (k.procs j).pid (k.procs j).exitCode ∧
      PageTable.destroy (k.procs j).table k.ph = .ok ((), ph1) ∧
      frameDrop (k.procs j).rootPtFrame ph1 = .ok ((), ph2) ∧ kstackDrop P E (k.procs j).kstack ph2 = .ok ((), ph3) ∧
      frameDrop (k.procs j).trapframeFrame ph3 = .ok ((), ph4) ∧
      k' = { k with
        ph := ph4, wh := headFreed k.wh (k.procs j).mmapHead, procs := update k.procs j .new }) ∨
    k.firstZombie i = none ∧ (r = .noChildren ∧ k' = k ∨ r = .slept ∧
      k' = { k with procs := update k.procs i { k.procs i with state := .sleeping, sleepChan := some i } }) := by
  unfold wait at he
  obtain ⟨k1, k2, hget, he⟩ := K.bind_ok he
  cases hget
  cases hz : k.firstZombie i with
  | none =>
    rw [hz] at he
    dsimp only at he
    split_ifs at he
    · cases he
      exact .inr ⟨rfl, .inr ⟨rfl, rfl⟩⟩
    · cases he
      exact .inr ⟨rfl, .inl ⟨rfl, rfl⟩⟩
  | some j =>
    rw [hz] at he
    obtain ⟨u1, k1, hfree, he⟩ := K.bind_ok he
    obtain ⟨ph1, ph2, ph3, h1, h2, h3, rfl⟩ := free_ok hfree
    obtain ⟨p, k1, hp, he⟩ := K.bind_ok he
    cases hp
    obtain ⟨u2, ph4, h4, he⟩ := onPhys_bind_ok he
    cases he
    simp only [update_self] at h4
    exact .inl ⟨j, ph1, ph2, ph3, ph4, rfl, rfl, h1, h2, h3, h4, by simp⟩

lemma Kernel.firstZombie_eq {i j : Nat} (h : k.firstZombie i = some j) :
    j < NPROC ∧ (k.procs j).parent = some i ∧ (k.procs j).state = .zombie := by
  refine ⟨List.mem_range.mp (List.mem_of_find?_eq_some h), ?_⟩
  simpa using List.find?_some h

end Primitives

/-! ### What memory has no part in -/

/-- The fields of a process that the scheduler reads and writes. -/
structure Slot where
  state : ProcState
  parent : Option Nat
  exitCode : Nat
  sleepChan : Option Nat
  pid : Nat
  deriving DecidableEq

def Process.slot (p : Process) : Slot := ⟨p.state, p.parent, p.exitCode, p.sleepChan, p.pid⟩

/-- `f` touches neither the slot of a process nor its list of regions. -/
def MemoryOnly (f : Process → Process) : Prop := ∀ p, (f p).slot = p.slot ∧ (f p).mmapHead = p.mmapHead

/-- A relation that holds across everything that is done to pages and to the other fields of a process. -/
structure MemoryFrame (R : Kernel → Kernel → Prop) : Prop where
  phys : ∀ {α : Type} (x : K Phys α), K.Keeps R (onPhys x)
  proc : ∀ (i : Nat) (f : Process → Process), MemoryOnly f → K.Keeps R (setProc i f)

namespace MemoryFrame

variable {P : Profile} {E : Env} {R : Kernel → Kernel → Prop} {α : Type} {k k' : Kernel} {i c : Nat} {u : Unit}

lemma set (F : MemoryFrame R) {f : Process → Process} (he : setProc i f k = .ok (u, k')) (hf : MemoryOnly f) : R k k' :=
  F.proc i f hf k u k' he

variable [IsPreorder Kernel R]

lemma expect (o : Option α) : K.Keeps R (expect o : K Kernel α) := by
  cases o with
  | none => exact .throw _
  | some a => exact .pure a

lemma getProc (i : Nat) : K.Keeps R (getProc i) := .bind .get fun _ => .pure _

lemma procExec (F : MemoryFrame R) (i : Nat) (file : Option (Nat → Nat → List Nat)) (argv : List Nat) :
    K.Keeps R (procExec P E i file argv) := by
  cases file with
  | none => exact .pure _
  | some file =>
    refine .ite (.pure _) (.ite (.pure _) (.bind (getProc i) fun p => .bind (F.phys _) fun r => ?_))
    cases r with
    | none => exact .pure _
    | some root =>
      refine .bind (F.phys _) fun _ => .bind (F.phys _) fun _ => .bind (F.phys _) fun r => ?_
      cases r with
      | none => exact .bind (F.phys _) fun _ => .pure _
      | some tf =>
        refine .bind (F.phys _) fun _ => .bind (F.phys _) fun r => ?_
        cases r with
        | error e => exact .bind (F.phys _) fun _ => .bind (F.phys _) fun _ => .pure _
        | ok v =>
          refine .bind (F.phys _) fun _ => .bind (F.proc _ _ fun _ => ⟨rfl, rfl⟩) fun _ => .bind (expect _) fun pid => ?_
          refine .bind (.bind .mulW fun _ => .addW) fun _ => .bind .addW fun _ => ?_
          exact .bind (F.phys _) fun _ => .bind (F.phys _) fun _ => .pure _

lemma sysBrk (F : MemoryFrame R) (i newTop : Nat) : K.Keeps R (sysBrk P i newTop) := by
  refine .bind (getProc i) fun p => .ite (.pure _) (.ite (.pure _) (.ite (.pure _) ?_))
  refine .bind (.bind .addW fun _ => .pure _) fun _ => .bind (F.phys _) fun r => ?_
  cases r with
  | error e => exact .pure _
  | ok u => exact .bind (F.proc _ _ fun _ => ⟨rfl, rfl⟩) fun _ => .pure _

lemma ustackGrow (F : MemoryFrame R) (i faultVa : Nat) : K.Keeps R (ustackGrow P i faultVa) :=
  .bind (getProc i) fun _ => F.phys _

end MemoryFrame

inductive Op
  | create (payload : List Nat)
  | fork (i : Nat)
  | exec (i : Nat) (file : Option (Nat → Nat → List Nat)) (argv : List Nat)
  | brk (i newTop : Nat)
  | mmap (i begin len : Nat)
  | munmap (i begin len : Nat)
  | stack (i faultVa : Nat)
  | exit (i code : Nat)
  | switch (i : Nat)
  | wait (i : Nat)

/-- The process can ask for an operation: it has been created and has not exited. -/
def Kernel.Active (k : Kernel) (i : Nat) : Prop :=
  i < NPROC ∧ (k.procs i).state ≠ .unused ∧ (k.procs i).state ≠ .dying ∧ (k.procs i).state ≠ .zombie

instance (k : Kernel) (i : Nat) : Decidable (k.Active i) := inferInstanceAs (Decidable (_ ∧ _))

def Op.Ready (k : Kernel) : Op → Prop
  | .create _ => True
  | .fork i | .exec i _ _ | .brk i _ | .mmap i _ _ | .munmap i _ _ | .stack i _ | .exit i _ | .wait i => k.Active i
  | .switch i => i < NPROC

instance (k : Kernel) (op : Op) : Decidable (op.Ready k) :=
  match op with
  | .create _ => .isTrue trivial
  | .fork i | .exec i _ _ | .brk i _ | .mmap i _ _ | .munmap i _ _ | .stack i _ | .exit i _ | .wait i =>
    inferInstanceAs (Decidable (k.Active i))
  | .switch i => inferInstanceAs (Decidable (i < NPROC))

/-- The operation, and whether it reports success. -/
def Op.perform (P : Profile) (E : Env) : Op → K Kernel Bool
  | .create payload => do
    let _ ← Proc.create P E payload
    return true
  | .fork i => do
    let _ ← Proc.fork P E i
    return true
  | .exec i file argv => return (← procExec P E i file argv).isOk
  | .brk i newTop => return (← sysBrk P i newTop) ≠ USIZE_MAX
  | .mmap i begin len => return (← sysMmap P i begin len).isOk
  | .munmap i begin len => return (← sysMunmap P i begin len).isOk
  | .stack i faultVa => return (← ustackGrow P i faultVa).isOk
  | .exit i code => do
    sysExit i code
    return true
  | .switch i => do
    afterSwitch i
    return true
  | .wait i => do
    let _ ← Proc.wait P E i
    return true

/-- The states that operations reach from `k₀`, where each is allowed in the state it meets, with the result it has. -/
inductive Reaches (P : Profile) (E : Env) (allowed : Kernel → Op → Bool → Prop) (k₀ : Kernel) : Kernel → Prop
  | start : Reaches P E allowed k₀ k₀
  | step {k k' : Kernel} {op : Op} {b : Bool} (h : Reaches P E allowed k₀ k) (hr : op.Ready k) (ha : allowed k op b)
      (he : op.perform P E k = .ok (b, k')) : Reaches P E allowed k₀ k'

/-- An invariant of the steps holds in every state that is reached. -/
theorem Reaches.invariant {P : Profile} {E : Env} {allowed : Kernel → Op → Bool → Prop} {k0 k : Kernel}
    {I : Kernel → Prop} (h : Reaches P E allowed k0 k) (h0 : I k0)
    (hstep : ∀ k k' op b, I k → op.Ready k → allowed k op b → op.perform P E k = .ok (b, k') → I k') : I k := by
  induction h with
  | start => exact h0
  | step _ hr ha he ih => exact hstep _ _ _ _ ih hr ha he

/-- A series of operations, as long as each is ready and passes a test. -/
def performAll (P : Profile) (E : Env) (test : Kernel → Op → Bool → Bool) : List Op → K Kernel Bool
  | [] => return true
  | op :: ops => do
    let k ← get
    let b ← op.perform P E
    if op.Ready k ∧ test k op b = true then performAll P E test ops else return false

lemma Reaches.of_performAll {P : Profile} {E : Env} {allowed : Kernel → Op → Bool → Prop} {test : Kernel → Op → Bool → Bool}
    {ops : List Op} {k0 k k' : Kernel} (htest : ∀ k, ∀ op ∈ ops, ∀ b, test k op b = true → allowed k op b)
    (h : Reaches P E allowed k0 k) (he : performAll P E test ops k = .ok (true, k')) : Reaches P E allowed k0 k' := by
  induction ops generalizing k with
  | nil =>
    cases he
    exact h
  | cons op ops ih =>
    unfold performAll at he
    obtain ⟨k1, k2, hget, he⟩ := K.bind_ok he
    cases hget
    obtain ⟨b, k1, hop, he⟩ := K.bind_ok he
    split_ifs at he with hok
    · exact ih (fun k op hmem => htest k op (List.mem_cons_of_mem _ hmem)) (.step h hok.1 (htest _ _ List.mem_cons_self _ hok.2) hop) he
    · cases he

/-! ### A small machine -/

/-- A machine with 48 pages for the kernel and 16 for users, before the first process. -/
def bootKernel : Kernel where
  ph := {
    mem n i := if i = 0 ∧ (0x80001 < n ∧ n < 0x80031 ∨ 0x80031 < n ∧ n < 0x80041) then (n - 1) * 4096 else 0
    pageRef _ := 0
    region k :=
      if k then ⟨0x80001000, 0x80031000, some 0x80030000, 48⟩ else ⟨0x80031000, 0x80041000, some 0x80040000, 16⟩ }
  wh := ⟨none, fun _ => ⟨.zero, none⟩, false⟩
  procs _ := .new
  globalPid := 1

def bootEnv : Env := ⟨0x80000, 0x80200000, 0, 0⟩

end Glenda.Proc
