import Glenda.Irq.Trampoline

/-!
# Traps from user mode

Model of `irq/trap/user.rs` and of `trap_kernel_handler` over the trampoline. A trap goes
through `user_vector`, `trap_user_handler`, `trap_user_return` and `user_return`; what the
rest of the kernel does in between is given by `Services`. Nesting counts, console output
and the fields of `Process` that this path does not read are left out.
-/

namespace Glenda.Irq
open Glenda.Lib

def PGSIZE : Nat := 4096

structure Process where
  trapframe : Nat
  trapframeVa : Nat
  rootSatp : Nat
  kstackTop : Nat

/-- The page table of the process maps the frame at `trapframeVa`. -/
def Process.translate (p : Process) (satp va : Nat) : Nat :=
  if satp = p.rootSatp ∧ p.trapframeVa ≤ va ∧ va < p.trapframeVa + PGSIZE then
    p.trapframe + (va - p.trapframeVa)
  else va

abbrev TrapContext := Reg → Nat

/-- What the kernel shares between processes: memory, `sepc`, its page table, and the number of
the hart that runs. -/
structure World where
  mem : Nat → Nat
  sepc : Nat
  satp : Nat
  hartid : Nat

inductive Cause
  | exception (code : Nat)
  | interrupt (code : Nat)
  deriving DecidableEq, Repr

/-- The rest of the kernel. A service that does not return gives `none`. Other processes may
run in `dispatch` and in `yieldProc`; only a system call can change the process record, and
only `exec` does. -/
structure Services where
  dispatch : TrapContext → World → Process → Option (Nat × World × Process)
  ustackGrow : Nat → World → Option (Bool × World)
  externalHandler : World → Option World
  tick : World → World
  yieldProc : World → Option World
  trapUserHandler : Nat

section Handlers

variable (S : Services)

def syscallHandler (ctx : TrapContext) (w : World) (p : Process) :
    Option (TrapContext × World × Process) := do
  let (ret, w, p) ← S.dispatch ctx w p
  return (Function.update ctx .a0 ret, w, p)

def exceptionHandler (e epc tval : Nat) (ctx : TrapContext) (w : World) (p : Process) :
    Option (TrapContext × World × Process) := do
  if e = 8 then
    let (ctx, w, p) ← syscallHandler S ctx w p
    return (ctx, { w with sepc := (epc + 4) % 2 ^ 64 }, p)
  if e = 13 ∨ e = 15 then
    let (ok, w) ← S.ustackGrow tval w
    if ok then return (ctx, w, p)
  none

/-- `timer_handler_ssip` and `timer_handler_stip`. -/
def timerHandler (sstatus : Nat) (w : World) : Option World :=
  if sstatus.testBit 8 then some (S.tick w) else S.yieldProc (S.tick w)

def interruptHandler (e sstatus : Nat) (w : World) : Option World :=
  match e with
  | 9 => S.externalHandler w
  | 5 => timerHandler S sstatus w
  | 1 => timerHandler S sstatus w
  | _ => some w

def trapKernelHandler (cause : Cause) (tval sstatus : Nat) (ctx : TrapContext) (w : World) (p : Process) :
    Option (TrapContext × World × Process) :=
  match cause with
  | .exception e => exceptionHandler S e w.sepc tval ctx w p
  | .interrupt e => (interruptHandler S e sstatus w).map fun w => (ctx, w, p)

/-- The registers of the frame at `ctx`. -/
def loadContext (mem : Nat → Nat) (ctx : Nat) : TrapContext := fun r => mem (ctx + offset r)

def allRegs : List Reg := .a0 :: slots.map Prod.fst

def storeContext (mem : Nat → Nat) (ctx : Nat) (kctx : TrapContext) : Nat → Nat :=
  writeAll mem (allRegs.map fun r => (ctx + offset r, kctx r))

/-- `trap_user_return` up to the jump to `user_return`; `regs` are the registers of the kernel
at that point. -/
def trapUserReturn (w : World) (p : Process) (regs : Reg → Nat) : Machine :=
  let ctx := p.trapframe
  { regs := Function.update (Function.update regs .a0 p.trapframeVa) .a1 p.rootSatp
    csr := fun c => match c with
      | .sscratch => p.trapframeVa
      | .satp => w.satp
    sepc := w.mem (ctx + 24)
    pc := 0
    mem := writeAll w.mem [(ctx + 280, ctx), (ctx + 16, S.trapUserHandler), (ctx, w.satp),
      (ctx + 32, w.hartid), (ctx + 8, p.kstackTop)] }

def trapUserHandler (cause : Cause) (tval sstatus : Nat) (ctx : Nat) (w : World) (p : Process)
    (regs : Reg → Nat) : Option (Machine × Process) := do
  let w := { w with mem := Function.update w.mem (ctx + 24) w.sepc }
  let (kctx, w, p) ← trapKernelHandler S cause tval sstatus (loadContext w.mem ctx) w p
  let mem := Function.update (storeContext w.mem ctx kctx) (ctx + 24) w.sepc
  return (trapUserReturn S { w with mem := mem } p regs, p)

/-- A trap from user mode, from `user_vector` to the `sret` of `user_return`. -/
def userTrap (cause : Cause) (tval sstatus : Nat) (m : Machine) (p : Process) (regs : Reg → Nat) :
    Option (Machine × Process) := do
  let m := run p.translate userVector m
  if m.pc = S.trapUserHandler then
    let (m, p) ← trapUserHandler S cause tval sstatus (m.regs .a0)
      ⟨m.mem, m.sepc, m.csr .satp, m.regs .tp⟩ p regs
    return (run p.translate userReturn m, p)
  else none

end Handlers

/-! ### What a trap does to the registers -/

/-- The machine in user mode as `trap_user_return` leaves it, whatever the user program did to
the registers since. -/
structure Ready (S : Services) (m : Machine) (p : Process) : Prop where
  sscratch : m.csr .sscratch = p.trapframeVa
  satp : m.csr .satp = p.rootSatp
  handler : m.mem (p.trapframe + 16) = S.trapUserHandler
  frame : m.mem (p.trapframe + 280) = p.trapframe

/-- The context that `trap_user_handler` hands on. -/
def passedContext (m : Machine) (p : Process) : TrapContext :=
  loadContext (run p.translate userVector m).mem ((run p.translate userVector m).regs .a0)

variable {S : Services} {cause : Cause} {tval sstatus : Nat} {m m' : Machine} {p p' : Process}
  {regs : Reg → Nat}

lemma Process.translate_frame (p : Process) {off : Nat} (hoff : off < 288) :
    p.translate p.rootSatp (p.trapframeVa + off) = p.trapframe + off := by
  rw [Process.translate, if_pos ⟨rfl, by omega, by unfold PGSIZE; omega⟩]
  omega

lemma Ready.saved (hr : Ready S m p) : Saved m (run p.translate userVector m) p.trapframe := by
  apply run_userVector
  intro off hoff
  rw [hr.satp, hr.sscratch]
  exact p.translate_frame hoff

lemma passedContext_eq (hr : Ready S m p) (r : Reg) : passedContext m p r =
    if r = .a3 then p.trapframe else if r = .tp then m.mem (p.trapframe + 32) else m.regs r := by
  unfold passedContext loadContext
  rw [hr.saved.a0, hr.frame, hr.saved.reg, hr.frame]

lemma loadContext_epc (mem : Nat → Nat) (ctx x : Nat) :
    loadContext (Function.update mem (ctx + 24) x) ctx = loadContext mem ctx := by
  funext r
  have hb := offset_bounds r
  exact Function.update_of_ne (by omega) _ _

lemma storeContext_reg (mem : Nat → Nat) (ctx : Nat) (kctx : TrapContext) (r : Reg) :
    storeContext mem ctx kctx (ctx + offset r) = kctx r := by
  apply writeAll_of_mem
  · have hnd : (allRegs.map offset).Nodup := by decide
    have heq : (allRegs.map fun r => (ctx + offset r, kctx r)).map Prod.fst =
        (allRegs.map offset).map (ctx + ·) := by
      rw [List.map_map, List.map_map]
      rfl
    rw [heq]
    exact hnd.map fun _ _ => Nat.add_left_cancel
  · have hmem : r ∈ allRegs := by cases r <;> decide
    exact List.mem_map.mpr ⟨r, hmem, rfl⟩

lemma trapKernelHandler_cases {ctx ctx' : TrapContext} {w w' : World}
    (h : trapKernelHandler S cause tval sstatus ctx w p = some (ctx', w', p')) :
    (cause = .exception 8 ∧ ∃ ret, ctx' = Function.update ctx .a0 ret) ∨
      (cause ≠ .exception 8 ∧ ctx' = ctx ∧ p' = p) := by
  cases cause with
  | interrupt e =>
    obtain ⟨w1, -, hw⟩ := Option.map_eq_some_iff.mp h
    cases hw
    exact .inr ⟨by simp, rfl, rfl⟩
  | exception e =>
    dsimp only [trapKernelHandler, exceptionHandler] at h
    by_cases h8 : e = 8
    · subst h8
      rw [if_pos rfl] at h
      obtain ⟨⟨ctx1, w1, p1⟩, hs, hw⟩ := Option.bind_eq_some_iff.mp h
      obtain ⟨⟨ret, w2, p2⟩, -, hd⟩ := Option.bind_eq_some_iff.mp hs
      cases hd
      cases hw
      exact .inl ⟨rfl, ret, rfl⟩
    · refine .inr ⟨by simpa using h8, ?_⟩
      by_cases hf : e = 13 ∨ e = 15
      · simp only [h8, hf, if_false, if_true] at h
        obtain ⟨⟨ok, w1⟩, -, hw⟩ := Option.bind_eq_some_iff.mp h
        cases ok
        · cases hw
        · cases hw
          exact ⟨rfl, rfl⟩
      · simp [h8, hf] at h

/-- The machine and the process after a trap, from what `trap_kernel_handler` returned. -/
lemma userTrap_cases (hr : Ready S m p)
    (h : userTrap S cause tval sstatus m p regs = some (m', p')) :
    ∃ (w w' : World) (kctx : TrapContext),
      trapKernelHandler S cause tval sstatus (passedContext m p) w p = some (kctx, w', p') ∧
      m' = run p'.translate userReturn (trapUserReturn S { w' with
        mem := Function.update (storeContext w'.mem p.trapframe kctx) (p.trapframe + 24) w'.sepc } p' regs) := by
  have hpc : (run p.translate userVector m).pc = S.trapUserHandler := by rw [hr.saved.pc, hr.handler]
  have hctx : (run p.translate userVector m).regs .a0 = p.trapframe := by rw [hr.saved.a0, hr.frame]
  unfold userTrap at h
  unfold passedContext
  generalize run p.translate userVector m = m0 at h hpc hctx ⊢
  rw [if_pos hpc] at h
  obtain ⟨⟨m1, p1⟩, hh, hm⟩ := Option.bind_eq_some_iff.mp h
  obtain ⟨⟨kctx, w', p2⟩, hk, hret⟩ := Option.bind_eq_some_iff.mp hh
  cases hret
  cases hm
  rw [hctx, loadContext_epc, ← hctx] at hk
  refine ⟨_, w', kctx, hk, ?_⟩
  rw [hctx]

lemma userReturn_regs (w : World) : let m' := run p.translate userReturn (trapUserReturn S w p regs)
    Ready S m' p ∧ (∀ r, m'.regs r = m'.mem (p.trapframe + offset r)) ∧
      ∀ r, m'.regs r = if r = .t6 then p.trapframe else w.mem (p.trapframe + offset r) := by
  have ht : ∀ off < 288, p.translate ((trapUserReturn S w p regs).regs .a1)
      ((trapUserReturn S w p regs).regs .a0 + off) = p.trapframe + off := by
    intro off hoff
    have h1 : (trapUserReturn S w p regs).regs .a1 = p.rootSatp := by simp [trapUserReturn]
    have h0 : (trapUserReturn S w p regs).regs .a0 = p.trapframeVa := by simp [trapUserReturn]
    rw [h1, h0]
    exact p.translate_frame hoff
  rw [run_userReturn ht]
  refine ⟨⟨?_, ?_, ?_, ?_⟩, fun r => rfl, fun r => ?_⟩
  · simp [trapUserReturn]
  · simp [trapUserReturn]
  · simp [trapUserReturn]
  · simp [trapUserReturn]
  · by_cases hr : r = .t6
    · simp [hr, trapUserReturn, offset]
    · have h280 : p.trapframe + offset r ≠ p.trapframe + 280 :=
        fun he => hr (offset_injective (Nat.add_left_cancel he))
      have hb := offset_bounds r
      rw [if_neg hr]
      refine (writeAll_of_forall_ne ?_ : writeAll w.mem _ _ = _)
      intro x hx
      simp only [List.mem_cons, List.not_mem_nil, or_false] at hx
      rcases hx with rfl | rfl | rfl | rfl | rfl
      · exact h280.symm
      all_goals
        dsimp only
        omega

/-- Whether the registers survived, with `ctx` the context that the handler passed on. -/
def Survives (cause : Cause) (m m' : Machine) (ctx : TrapContext) : Prop :=
  if cause = .exception 8 then
    (∀ r, r ≠ .a0 → m'.regs r = m.regs r) ∧
      ∀ r ∈ [.a0, .a1, .a2, .a3, .a4, .a5, .a6, .a7], ctx r = m.regs r
  else ∀ r, m'.regs r = m.regs r

/-- The registers that the trap path takes for itself already hold what it puts there. -/
def Reserved (m : Machine) (p : Process) : Prop :=
  m.regs .a3 = p.trapframe ∧ m.regs .t6 = p.trapframe ∧ m.regs .tp = m.mem (p.trapframe + 32)

lemma passedContext_args (hr : Ready S m p) :
    (∀ r ∈ [.a0, .a1, .a2, .a3, .a4, .a5, .a6, .a7], passedContext m p r = m.regs r) ↔
      m.regs .a3 = p.trapframe := by
  simp [passedContext_eq hr, eq_comm]

section

variable (hr : Ready S m p) (h : userTrap S cause tval sstatus m p regs = some (m', p')) (hp : p'.trapframe = p.trapframe)
include hr h hp

lemma userTrap_regs (r : Reg) (ha0 : cause = .exception 8 → r ≠ .a0) :
    m'.regs r = if r = .t6 then p.trapframe else passedContext m p r := by
  obtain ⟨w, w', kctx, hk, rfl⟩ := userTrap_cases hr h
  have hb := offset_bounds r
  rw [(userReturn_regs _).2.2 r, hp]
  dsimp only
  rw [Function.update_of_ne (by omega), storeContext_reg]
  congr 1
  rcases trapKernelHandler_cases hk with ⟨h8, ret, rfl⟩ | ⟨-, rfl, -⟩
  · exact Function.update_of_ne (ha0 h8) _ _
  · rfl

lemma userTrap_reserved {Q : Reg → Prop} (hQ : Q .a3 ∧ Q .t6 ∧ Q .tp)
    (ha0 : ∀ r, Q r → cause = .exception 8 → r ≠ .a0) :
    (∀ r, Q r → m'.regs r = m.regs r) ↔ Reserved m p := by
  have hregs : ∀ r, Q r → m'.regs r = if r = .t6 then p.trapframe else if r = .a3 then p.trapframe
      else if r = .tp then m.mem (p.trapframe + 32) else m.regs r := by
    intro r hq
    rw [userTrap_regs hr h hp r (ha0 r hq), passedContext_eq hr]
  constructor
  · intro hs
    refine ⟨?_, ?_, ?_⟩
    · rw [← hs .a3 hQ.1, hregs .a3 hQ.1]
      rfl
    · rw [← hs .t6 hQ.2.1, hregs .t6 hQ.2.1]
      rfl
    · rw [← hs .tp hQ.2.2, hregs .tp hQ.2.2]
      rfl
  · rintro ⟨ha3, ht6, htp⟩ r hq
    rw [hregs r hq]
    split_ifs with h1 h2 h3
    · rw [h1, ht6]
    · rw [h2, ha3]
    · rw [h3, htp]
    · rfl

end

/-- A machine that runs the user program of `p`: `trap_user_return` has resumed it, and the
program cannot reach the page of the frame, which is mapped without `PTE_U`. -/
inductive InUser (S : Services) : Machine → Process → Prop
  | resume (w : World) (p : Process) (regs : Reg → Nat) :
      InUser S (run p.translate userReturn (trapUserReturn S w p regs)) p
  | user {m m' : Machine} {p : Process} (h : InUser S m p) (hcsr : m'.csr = m.csr)
      (hmem : ∀ off < PGSIZE, m'.mem (p.trapframe + off) = m.mem (p.trapframe + off)) : InUser S m' p

lemma InUser.ready (h : InUser S m p) : Ready S m p := by
  induction h with
  | resume w p regs => exact (userReturn_regs w).1
  | user h hcsr hmem ih =>
    refine ⟨?_, ?_, ?_, ?_⟩
    · rw [hcsr, ih.sscratch]
    · rw [hcsr, ih.satp]
    · rw [hmem 16 (by decide), ih.handler]
    · rw [hmem 280 (by decide), ih.frame]

/-- The registers survive a trap exactly when the user program keeps the address of the frame in
`a3` and `t6` and the number of the hart in `tp`. A successful `exec` gives the process a new
frame, from which the registers are loaded. -/
theorem registers_survive_iff (hu : InUser S m p)
    (h : userTrap S cause tval sstatus m p regs = some (m', p')) :
    Survives cause m m' (passedContext m p) ↔
      if p'.trapframe = p.trapframe then Reserved m p
      else m.regs .a3 = p.trapframe ∧ m.regs .t6 = p'.trapframe ∧
        ∀ r, r ≠ .a0 → r ≠ .t6 → m'.mem (p'.trapframe + offset r) = m.regs r := by
  have hr := hu.ready
  have hfinal : ∀ r, m'.regs r = m'.mem (p'.trapframe + offset r) := by
    obtain ⟨w, w', kctx, hk, rfl⟩ := userTrap_cases hr h
    exact (userReturn_regs _).2.1
  have ht6 : m'.regs .t6 = p'.trapframe := by
    obtain ⟨w, w', kctx, hk, rfl⟩ := userTrap_cases hr h
    exact (userReturn_regs _).2.2 .t6
  unfold Survives
  split_ifs with h8 hp hp
  · rw [passedContext_args hr, userTrap_reserved hr h hp (by decide) fun r hq _ => hq]
    exact and_iff_left_of_imp fun hres => hres.1
  · rw [passedContext_args hr]
    constructor
    · rintro ⟨hs, ha3⟩
      refine ⟨ha3, ?_, fun r ha0 _ => ?_⟩
      · rw [← hs .t6 (by decide), ht6]
      · rw [← hfinal r, hs r ha0]
    · rintro ⟨ha3, hr6, hs⟩
      refine ⟨fun r ha0 => ?_, ha3⟩
      by_cases h6 : r = .t6
      · rw [h6, ht6, hr6]
      · rw [hfinal r, hs r ha0 h6]
  · have hall := userTrap_reserved (Q := fun _ => True) hr h hp ⟨trivial, trivial, trivial⟩
      fun _ _ he => absurd he h8
    rw [← hall]
    simp
  · exfalso
    obtain ⟨w, w', kctx, hk, -⟩ := userTrap_cases hr h
    rcases trapKernelHandler_cases hk with ⟨he, -⟩ | ⟨-, -, rfl⟩
    · exact h8 he
    · exact hp rfl

/-! A timer interrupt of a process that is alone on the hart. -/

def idleServices : Services where
  dispatch := fun _ w p => some (0, w, p)
  ustackGrow := fun _ w => some (true, w)
  externalHandler := some
  tick := id
  yieldProc := some
  trapUserHandler := 64

def sampleProcess : Process := ⟨4096, 2 ^ 38 - 8192, 1, 8192⟩

/-- The user program after it has set its registers. -/
def sampleMachine (regs : Reg → Nat) : Machine :=
  { run sampleProcess.translate userReturn
      (trapUserReturn idleServices ⟨fun _ => 0, 0, 2, 0⟩ sampleProcess fun _ => 0) with regs := regs }

lemma sampleMachine_inUser (regs : Reg → Nat) : InUser idleServices (sampleMachine regs) sampleProcess :=
  .user (.resume _ _ _) rfl fun _ _ => rfl

lemma sampleMachine_hartid (regs : Reg → Nat) : (sampleMachine regs).mem (sampleProcess.trapframe + 32) = 0 :=
  rfl

lemma userTrap_timer (hr : Ready idleServices m p) (regs : Reg → Nat) :
    ∃ m', userTrap idleServices (.interrupt 5) 0 0 m p regs = some (m', p) := by
  have hpc : (run p.translate userVector m).pc = idleServices.trapUserHandler := by
    rw [hr.saved.pc, hr.handler]
  unfold userTrap
  generalize run p.translate userVector m = m0 at hpc ⊢
  rw [if_pos hpc]
  exact ⟨_, rfl⟩

theorem registers_survive_reserved : ∃ m m' : Machine, InUser idleServices m sampleProcess ∧
    userTrap idleServices (.interrupt 5) 0 0 m sampleProcess (fun _ => 0) = some (m', sampleProcess) ∧
    Survives (.interrupt 5) m m' (passedContext m sampleProcess) := by
  have hu := sampleMachine_inUser fun r => if r = .tp then 0 else 4096
  obtain ⟨m', hm'⟩ := userTrap_timer hu.ready fun _ => 0
  refine ⟨_, m', hu, hm', (registers_survive_iff hu hm').mpr ?_⟩
  rw [if_pos rfl]
  exact ⟨rfl, rfl, (sampleMachine_hartid _).symm⟩

theorem timer_clobbers_registers : ∃ m m' : Machine, InUser idleServices m sampleProcess ∧
    (∀ r, m.regs r = 7) ∧
    userTrap idleServices (.interrupt 5) 0 0 m sampleProcess (fun _ => 0) = some (m', sampleProcess) ∧
    m'.regs .a3 = 4096 ∧ m'.regs .t6 = 4096 ∧ m'.regs .tp = 0 ∧
    ¬Survives (.interrupt 5) m m' (passedContext m sampleProcess) := by
  have hu := sampleMachine_inUser fun _ => 7
  obtain ⟨m', hm'⟩ := userTrap_timer hu.ready fun _ => 0
  have hregs : ∀ r, m'.regs r = if r = .t6 then 4096 else
      passedContext (sampleMachine fun _ => 7) sampleProcess r :=
    fun r => userTrap_regs hu.ready hm' rfl r fun h => by cases h
  have ha3 : m'.regs .a3 = 4096 := by
    rw [hregs, passedContext_eq hu.ready]
    rfl
  refine ⟨_, m', hu, fun _ => rfl, hm', ha3, hregs .t6, ?_, ?_⟩
  · rw [hregs, passedContext_eq hu.ready]
    exact sampleMachine_hartid _
  · intro hs
    have h7 : m'.regs .a3 = 7 := hs .a3
    omega

end Glenda.Irq
