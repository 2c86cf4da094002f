import Glenda.Lib.Update
import Mathlib.Algebra.Group.Nat.Defs
import Mathlib.Tactic.Common

/-!
# The trampoline

The instructions of `asm/trampoline.S` and a machine that runs them: the general registers,
the control registers they use, and physical memory by aligned doublewords.
-/

namespace Glenda.Irq
open Glenda.Lib
open Function (update update_apply update_of_ne)

inductive Reg
  | ra | sp | gp | tp | t0 | t1 | t2 | s0 | s1 | a0 | a1 | a2 | a3 | a4 | a5 | a6 | a7
  | s2 | s3 | s4 | s5 | s6 | s7 | s8 | s9 | s10 | s11 | t3 | t4 | t5 | t6
  deriving DecidableEq, Repr

inductive Csr
  | sscratch
  | satp
  deriving DecidableEq, Repr

structure Machine where
  regs : Reg → Nat
  csr : Csr → Nat
  sepc : Nat
  pc : Nat
  mem : Nat → Nat

inductive Instr
  | csrrw (rd : Reg) (csr : Csr) (rs : Reg)
  | csrr (rd : Reg) (csr : Csr)
  | csrw (csr : Csr) (rs : Reg)
  | ld (rd : Reg) (off : Nat) (base : Reg)
  | sd (rs : Reg) (off : Nat) (base : Reg)
  | mv (rd rs : Reg)
  | sfenceVma
  | jr (rs : Reg)
  | sret

def Machine.setReg (m : Machine) (r : Reg) (x : Nat) : Machine :=
  { m with regs := Function.update m.regs r x }

def Machine.setCsr (m : Machine) (c : Csr) (x : Nat) : Machine :=
  { m with csr := Function.update m.csr c x }

/-- One instruction, where `translate satp va` is the physical address of `va` under the page
table that `satp` selects. -/
def Instr.exec (translate : Nat → Nat → Nat) (m : Machine) : Instr → Machine
  | .csrrw rd csr rs => (m.setCsr csr (m.regs rs)).setReg rd (m.csr csr)
  | .csrr rd csr => m.setReg rd (m.csr csr)
  | .csrw csr rs => m.setCsr csr (m.regs rs)
  | .ld rd off base => m.setReg rd (m.mem (translate (m.csr .satp) (m.regs base + off)))
  | .sd rs off base =>
    { m with mem := Function.update m.mem (translate (m.csr .satp) (m.regs base + off)) (m.regs rs) }
  | .mv rd rs => m.setReg rd (m.regs rs)
  | .sfenceVma => m
  | .jr rs => { m with pc := m.regs rs }
  | .sret => { m with pc := m.sepc }

def run (translate : Nat → Nat → Nat) (code : List Instr) (m : Machine) : Machine :=
  code.foldl (Instr.exec translate) m

/-- The registers of a frame in the order of `user_vector` and `user_return`, with the offsets
at which both find them; `a0` is treated apart. -/
def slots : List (Reg × Nat) :=
  [(.ra, 40), (.sp, 48), (.gp, 56), (.tp, 64), (.t0, 72), (.t1, 80), (.t2, 88), (.s0, 96), (.s1, 104),
    (.a1, 120), (.a2, 128), (.a3, 136), (.a4, 144), (.a5, 152), (.a6, 160), (.a7, 168), (.s2, 176),
    (.s3, 184), (.s4, 192), (.s5, 200), (.s6, 208), (.s7, 216), (.s8, 224), (.s9, 232), (.s10, 240),
    (.s11, 248), (.t3, 256), (.t4, 264), (.t5, 272), (.t6, 280)]

def userVector : List Instr :=
  [.csrrw .a0 .sscratch .a0, .ld .a3 280 .a0] ++
  slots.map (fun x => .sd x.1 x.2 .a0) ++
  [.csrr .t0 .sscratch, .sd .t0 112 .a0,
    .ld .sp 8 .a0, .ld .tp 32 .a0, .sd .tp 64 .a0, .ld .t0 16 .a0,
    .ld .t1 0 .a0, .csrw .satp .t1, .sfenceVma,
    .mv .a0 .a3, .jr .t0]

def userReturn : List Instr :=
  [.csrw .satp .a1, .sfenceVma, .csrw .sscratch .a0] ++
  slots.map (fun x => .ld x.1 x.2 .a0) ++
  [.ld .a0 112 .a0, .sret]

/-- The offset of a register in `TrapFrame`, whose fields are laid out in order after the five
words of the kernel. -/
def offset : Reg → Nat
  | .ra => 40 | .sp => 48 | .gp => 56 | .tp => 64 | .t0 => 72 | .t1 => 80 | .t2 => 88 | .s0 => 96
  | .s1 => 104 | .a0 => 112 | .a1 => 120 | .a2 => 128 | .a3 => 136 | .a4 => 144 | .a5 => 152
  | .a6 => 160 | .a7 => 168 | .s2 => 176 | .s3 => 184 | .s4 => 192 | .s5 => 200 | .s6 => 208
  | .s7 => 216 | .s8 => 224 | .s9 => 232 | .s10 => 240 | .s11 => 248 | .t3 => 256 | .t4 => 264
  | .t5 => 272 | .t6 => 280

section

variable {translate : Nat → Nat → Nat} {m : Machine} {tf va satp : Nat}

lemma run_append (l1 l2 : List Instr) (m : Machine) :
    run translate (l1 ++ l2) m = run translate l2 (run translate l1 m) := List.foldl_append

lemma run_cons (i : Instr) (l : List Instr) (m : Machine) :
    run translate (i :: l) m = run translate l (i.exec translate m) := rfl

lemma offset_of_mem {x : Reg × Nat} (hx : x ∈ slots) : x.2 = offset x.1 := by
  revert x
  decide

lemma mem_slots {r : Reg} (hr : r ≠ .a0) : (r, offset r) ∈ slots := by
  cases r <;> first | exact absurd rfl hr | decide

lemma offset_injective {r r' : Reg} (h : offset r = offset r') : r = r' := by
  cases r <;> cases r' <;> first | rfl | cases h

lemma offset_bounds (r : Reg) : 40 ≤ offset r ∧ offset r < 288 := by
  cases r <;> decide

lemma run_sd (tf : Nat) (ht : ∀ off < 288, translate (m.csr .satp) (m.regs .a0 + off) = tf + off)
    (l : List (Reg × Nat)) (hl : ∀ x ∈ l, x.2 < 288) :
    run translate (l.map fun x => .sd x.1 x.2 .a0) m =
      { m with mem := writeAll m.mem (l.map fun x => (tf + x.2, m.regs x.1)) } := by
  induction l generalizing m with
  | nil => rfl
  | cons x l ih =>
    rw [List.map_cons, run_cons, Instr.exec, ht x.2 (hl x List.mem_cons_self)]
    rw [ih (by exact ht) fun y hy => hl y (List.mem_cons_of_mem _ hy)]
    rfl

lemma run_ld (tf : Nat) (ht : ∀ off < 288, translate (m.csr .satp) (m.regs .a0 + off) = tf + off)
    (l : List (Reg × Nat)) (hl : ∀ x ∈ l, x.2 < 288 ∧ x.1 ≠ .a0) :
    run translate (l.map fun x => .ld x.1 x.2 .a0) m =
      { m with regs := writeAll m.regs (l.map fun x => (x.1, m.mem (tf + x.2))) } := by
  induction l generalizing m with
  | nil => rfl
  | cons x l ih =>
    obtain ⟨hlt, hne⟩ := hl x List.mem_cons_self
    rw [List.map_cons, run_cons, Instr.exec, ht x.2 hlt, Machine.setReg]
    rw [ih ?_ fun y hy => hl y (List.mem_cons_of_mem _ hy)]
    · rfl
    · dsimp only
      rw [update_of_ne hne.symm]
      exact ht

/-- Memory after the registers `regs` have been saved to the frame, `a0` excepted. -/
def savedFrame (mem : Nat → Nat) (regs : Reg → Nat) (tf : Nat) : Nat → Nat :=
  writeAll mem (slots.map fun x => (tf + x.2, regs x.1))

variable {mem : Nat → Nat} {regs : Reg → Nat}

lemma savedFrame_reg {r : Reg} (hr : r ≠ .a0) : savedFrame mem regs tf (tf + offset r) = regs r := by
  apply writeAll_of_mem
  · have hnd : (slots.map Prod.snd).Nodup := by decide
    have heq : (slots.map fun x => (tf + x.2, regs x.1)).map Prod.fst =
        (slots.map Prod.snd).map (tf + ·) := by
      rw [List.map_map, List.map_map]
      rfl
    rw [heq]
    exact hnd.map fun _ _ => Nat.add_left_cancel
  · exact List.mem_map.mpr ⟨_, mem_slots hr, rfl⟩

lemma savedFrame_other {a : Nat} (ha : ∀ r, r ≠ .a0 → a ≠ tf + offset r) :
    savedFrame mem regs tf a = mem a := by
  apply writeAll_of_forall_ne
  intro x hx
  obtain ⟨y, hy, rfl⟩ := List.mem_map.mp hx
  have hne : ∀ y ∈ slots, y.1 ≠ .a0 := by decide
  rw [offset_of_mem hy]
  exact (ha y.1 (hne y hy)).symm

lemma savedFrame_kernel {off : Nat} (hoff : off < 40) : savedFrame mem regs tf (tf + off) = mem (tf + off) := by
  apply savedFrame_other
  intro r _ he
  have hb := offset_bounds r
  omega

/-- The machine when `user_vector` jumps to the handler. The frame has the registers of the
user except `a3`, which held the address of the frame by then, and `tp`, which is overwritten
with the hart. -/
structure Saved (m m' : Machine) (tf : Nat) : Prop where
  reg : ∀ r, m'.mem (tf + offset r) =
    if r = .a3 then m.mem (tf + 280) else if r = .tp then m.mem (tf + 32) else m.regs r
  kernel : ∀ off < 40, m'.mem (tf + off) = m.mem (tf + off)
  other : ∀ a, a < tf ∨ tf + 288 ≤ a → m'.mem a = m.mem a
  a0 : m'.regs .a0 = m.mem (tf + 280)
  sp : m'.regs .sp = m.mem (tf + 8)
  tp : m'.regs .tp = m.mem (tf + 32)
  satp : m'.csr .satp = m.mem tf
  pc : m'.pc = m.mem (tf + 16)
  sepc : m'.sepc = m.sepc

/-- `user_vector`, where `sscratch` holds an address at which the page table maps the frame. -/
theorem run_userVector (ht : ∀ off < 288, translate (m.csr .satp) (m.csr .sscratch + off) = tf + off) :
    Saved m (run translate userVector m) tf := by
  set regs := update (update m.regs .a0 (m.csr .sscratch)) .a3 (m.mem (tf + 280)) with hregs
  have hfirst : run translate [.csrrw .a0 .sscratch .a0, .ld .a3 280 .a0] m =
      { m with regs := regs, csr := update m.csr .sscratch (m.regs .a0) } := by
    have h280 := ht 280 (by decide)
    simp [run, Instr.exec, Machine.setReg, Machine.setCsr, h280, hregs]
  have hslots : ∀ x ∈ slots, x.2 < 288 := by decide
  have hbase : regs .a0 = m.csr .sscratch := by simp [hregs]
  unfold userVector
  rw [run_append, run_append, hfirst, run_sd tf (by simpa [hbase] using ht) slots hslots]
  have hmem : writeAll m.mem (slots.map fun x => (tf + x.2, regs x.1)) = savedFrame m.mem regs tf := rfl
  simp only [hmem]
  have ht0 : translate (m.csr .satp) (m.csr .sscratch) = tf := ht 0 (by decide)
  have hk : ∀ off < 40, savedFrame m.mem regs tf (tf + off) = m.mem (tf + off) := fun _ => savedFrame_kernel
  have hk0 : savedFrame m.mem regs tf tf = m.mem tf := hk 0 (by decide)
  set M := savedFrame m.mem regs tf with hM
  have htail : run translate [.csrr .t0 .sscratch, .sd .t0 112 .a0, .ld .sp 8 .a0, .ld .tp 32 .a0,
      .sd .tp 64 .a0, .ld .t0 16 .a0, .ld .t1 0 .a0, .csrw .satp .t1, .sfenceVma, .mv .a0 .a3, .jr .t0]
      { m with regs := regs, csr := update m.csr .sscratch (m.regs .a0), mem := M } =
      { m with
        regs := writeAll regs [(.t0, m.regs .a0), (.sp, m.mem (tf + 8)), (.tp, m.mem (tf + 32)),
          (.t0, m.mem (tf + 16)), (.t1, m.mem tf), (.a0, m.mem (tf + 280))]
        csr := writeAll m.csr [(.sscratch, m.regs .a0), (.satp, m.mem tf)]
        pc := m.mem (tf + 16)
        mem := writeAll M [(tf + 112, m.regs .a0), (tf + 64, m.mem (tf + 32))] } := by
    simp [run, Instr.exec, Machine.setReg, Machine.setCsr, ht, ht0, hk, hk0, hregs]
  rw [htail]
  refine ⟨fun r => ?_, fun off hoff => ?_, fun a ha => ?_, ?_, ?_, ?_, ?_, rfl, rfl⟩
  · by_cases htp : r = .tp
    · simp [htp, offset]
    · by_cases ha0 : r = .a0
      · simp [ha0, offset]
      · have h64 : tf + offset r ≠ tf + 64 := fun h => htp (offset_injective (Nat.add_left_cancel h))
        have h112 : tf + offset r ≠ tf + 112 := fun h => ha0 (offset_injective (Nat.add_left_cancel h))
        simp only [writeAll_cons, writeAll_nil, update_of_ne h64, update_of_ne h112, hM, savedFrame_reg ha0, if_neg htp, hregs]
        simp [update_apply, ha0]
  · have h64 : tf + off ≠ tf + 64 := by omega
    have h112 : tf + off ≠ tf + 112 := by omega
    simp only [writeAll_cons, writeAll_nil, update_of_ne h64, update_of_ne h112, hk off hoff]
  · have h64 : a ≠ tf + 64 := by omega
    have h112 : a ≠ tf + 112 := by omega
    simp only [writeAll_cons, writeAll_nil, update_of_ne h64, update_of_ne h112]
    apply savedFrame_other
    intro r _ he
    have hb := offset_bounds r
    omega
  all_goals simp [hregs]

/-- `user_return`, called with the address of the frame and the page table of the user. -/
theorem run_userReturn (ht : ∀ off < 288, translate (m.regs .a1) (m.regs .a0 + off) = tf + off) :
    run translate userReturn m =
      { m with
        regs := fun r => m.mem (tf + offset r)
        csr := writeAll m.csr [(.satp, m.regs .a1), (.sscratch, m.regs .a0)]
        pc := m.sepc } := by
  have hslots : ∀ x ∈ slots, x.2 < 288 ∧ x.1 ≠ .a0 := by decide
  unfold userReturn
  have hfirst : run translate [.csrw .satp .a1, .sfenceVma, .csrw .sscratch .a0] m =
      { m with csr := writeAll m.csr [(.satp, m.regs .a1), (.sscratch, m.regs .a0)] } := by
    simp [run, Instr.exec, Machine.setCsr]
  rw [run_append, run_append, hfirst, run_ld tf (by simpa using ht) slots hslots]
  have hregs : ∀ r, r ≠ .a0 →
      writeAll m.regs (slots.map fun x => (x.1, m.mem (tf + x.2))) r = m.mem (tf + offset r) := by
    intro r hr
    apply writeAll_of_mem
    · have hnd : (slots.map Prod.fst).Nodup := by decide
      rw [List.map_map]
      exact hnd
    · exact List.mem_map.mpr ⟨_, mem_slots hr, rfl⟩
  have ha0 : writeAll m.regs (slots.map fun x => (x.1, m.mem (tf + x.2))) .a0 = m.regs .a0 := by
    apply writeAll_of_forall_ne
    intro x hx
    obtain ⟨y, hy, rfl⟩ := List.mem_map.mp hx
    exact (hslots y hy).2
  simp only [run, List.foldl_cons, List.foldl_nil, Instr.exec, Machine.setReg]
  congr 1
  funext r
  by_cases hr : r = .a0
  · subst hr
    have h112 := ht 112 (by decide)
    simp [ha0, h112, offset]
  · rw [update_of_ne hr, hregs r hr]

end

end Glenda.Irq
