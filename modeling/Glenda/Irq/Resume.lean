import Mathlib.Algebra.Group.Nat.Defs
import Mathlib.Logic.Function.Basic
import Mathlib.Tactic.Common

/-!
# Where processes resume

The processes of one hart, as far as the program counter of the user goes: the register
`sepc` of the hart, the word `kernel_epc` of every frame, and where the kernel stands in each
process. `switch_context` moves the hart from one process to another and leaves `sepc` alone.
Handlers run with interrupts off, so a trap in kernel mode only hits the idle loop of
`scheduler`.
-/

namespace Glenda.Irq.Resume

/-- Why a process trapped: `other` stands for the external interrupts, the interrupts that are
only reported and the page faults that grow the stack. -/
inductive Cause
  | syscall
  | timer
  | other
  deriving DecidableEq, Repr

/-- Where a process stands. `epc` is the local variable of `trap_kernel_handler`. -/
inductive Phase
  | fresh
  | user
  | handler (cause : Cause) (epc : Nat)
  deriving DecidableEq, Repr

structure Sys where
  sepc : Nat
  current : Option Nat
  kernelEpc : Nat → Nat
  phase : Nat → Option Phase

inductive Event
  | create (i entry : Nat)
  | fork (j : Nat)
  | dispatch (i : Nat)
  | trap (cause : Cause) (pc : Nat)
  | block
  | ret
  | exec (entry : Nat)
  | exit
  | kernelTrap (pc : Nat)
  deriving DecidableEq, Repr

namespace Sys

def setPhase (s : Sys) (i : Nat) (ph : Option Phase) : Sys :=
  { s with phase := Function.update s.phase i ph }

def setKernelEpc (s : Sys) (i x : Nat) : Sys :=
  { s with kernelEpc := Function.update s.kernelEpc i x }

def trapUserReturn (s : Sys) (i : Nat) : Sys :=
  { s with sepc := s.kernelEpc i }.setPhase i (some .user)

/-- `trap_user_handler` up to the point where the handler switches to another process or
returns. A timer interrupt yields at once. -/
def trapUserHandler (s : Sys) (i : Nat) (cause : Cause) : Sys :=
  { (s.setKernelEpc i s.sepc).setPhase i (some (.handler cause s.sepc)) with
    current := if cause = .timer then none else some i }

/-- The rest of `exception_handler` and `trap_user_handler`. -/
def finish (s : Sys) (i : Nat) (cause : Cause) (epc : Nat) : Sys :=
  let s := if cause = .syscall then { s with sepc := (epc + 4) % 2 ^ 64 } else s
  (s.setKernelEpc i s.sepc).trapUserReturn i

/-- The events of the running process `i`. -/
def stepRunning (s : Sys) (i : Nat) : Phase → Event → Option Sys
  | .fresh, .ret => some (s.trapUserReturn i)
  | .user, .trap cause pc => some ({ s with sepc := pc }.trapUserHandler i cause)
  | .handler cause epc, .ret => some (s.finish i cause epc)
  | .handler .syscall _, .block => some { s with current := none }
  | .handler .syscall _, .fork j =>
    if s.phase j = none then
      some ((s.setKernelEpc j ((s.kernelEpc i + 4) % 2 ^ 64)).setPhase j (some .fresh))
    else none
  -- the process goes on with a frame of its own, `finish` still writes to the old one
  | .handler .syscall _, .exec entry => some ((s.setKernelEpc i entry).trapUserReturn i)
  | .handler .syscall _, .exit => some { s.setPhase i none with current := none }
  | _, _ => none

def step (s : Sys) (e : Event) : Option Sys :=
  match e with
  | .create i entry =>
    if s.phase i = none then some ((s.setKernelEpc i entry).setPhase i (some .fresh)) else none
  | .dispatch i =>
    if s.current = none ∧ s.phase i ≠ none then some { s with current := some i } else none
  | .kernelTrap pc => if s.current = none then some { s with sepc := pc } else none
  | e => match s.current with
    | none => none
    | some i => match s.phase i with
      | none => none
      | some ph => s.stepRunning i ph e

end Sys

def Event.writesSepc : Event → Bool
  | .trap _ _ => true
  | .ret => true
  | .exec _ => true
  | .kernelTrap _ => true
  | _ => false

/-- Where a process that traps has to resume. -/
def Event.resumePc : Event → Option Nat
  | .trap .syscall pc => some ((pc + 4) % 2 ^ 64)
  | .trap _ pc => some pc
  | _ => none

/-- The system with its history: where each process has to resume after its last trap, and
whether something else has written `sepc` since that trap. -/
structure Tracked where
  sys : Sys
  trapPc : Nat → Nat
  touched : Nat → Bool

namespace Tracked

/-- The history after the event `e`, which leads to `s`. -/
def next (t : Tracked) (e : Event) (s : Sys) : Tracked where
  sys := s
  trapPc := fun k => if t.sys.current = some k then e.resumePc.getD (t.trapPc k) else t.trapPc k
  touched := fun k =>
    if t.sys.current = some k then t.touched k && e.resumePc.isNone else t.touched k || e.writesSepc

/-- A process that yielded in its timer interrupt goes on only if nothing wrote `sepc` since. -/
def Allowed (t : Tracked) (e : Event) : Prop :=
  ∀ i epc, e = .ret → t.sys.current = some i → t.sys.phase i = some (.handler .timer epc) →
    t.touched i = false

/-- If the event resumes a process after a trap, it does so at its own program counter. -/
def Resumes (t : Tracked) (e : Event) : Prop :=
  ∀ i cause epc s, e = .ret → t.sys.current = some i → t.sys.phase i = some (.handler cause epc) →
    t.sys.step e = some s → s.sepc = t.trapPc i

/-- What holds of a process in each phase. -/
def Good (t : Tracked) (i : Nat) : Phase → Prop
  | .fresh => True
  | .user => t.sys.current = some i
  | .handler .syscall epc => t.trapPc i = (epc + 4) % 2 ^ 64
  | .handler .other _ => t.sys.current = some i ∧ t.sys.sepc = t.trapPc i
  | .handler .timer _ => t.touched i = false → t.sys.sepc = t.trapPc i

def Inv (t : Tracked) : Prop := ∀ i ph, t.sys.phase i = some ph → t.Good i ph

variable {t : Tracked} {e : Event} {s : Sys} {t' : Tracked} {k i : Nat}

lemma resumes_of_inv (h : t.Inv) (ha : t.Allowed e) : t.Resumes e := by
  rintro i cause epc s rfl hc hp hs
  have hg := h i _ hp
  simp only [Sys.step, hc, hp, Sys.stepRunning, Option.some.injEq] at hs
  subst hs
  cases cause with
  | syscall => simpa [Sys.finish, Sys.trapUserReturn, Sys.setKernelEpc, Sys.setPhase] using hg.symm
  | timer =>
    simpa [Sys.finish, Sys.trapUserReturn, Sys.setKernelEpc, Sys.setPhase] using hg (ha i epc rfl hc hp)
  | other => simpa [Sys.finish, Sys.trapUserReturn, Sys.setKernelEpc, Sys.setPhase] using hg.2

/-- A process that does not run keeps what holds of it, unless `sepc` is written: then it counts
as touched. -/
lemma Good.other {ph : Phase} (h : t.Good k ph) (hc : t.sys.current ≠ some k)
    (ht : t'.trapPc k = t.trapPc k)
    (hs : t'.touched k = true ∨ t'.touched k = t.touched k ∧ t'.sys.sepc = t.sys.sepc) : t'.Good k ph := by
  cases ph with
  | fresh => trivial
  | user => exact absurd h hc
  | handler cause epc =>
    cases cause with
    | syscall => exact ht.trans h
    | other => exact absurd h.1 hc
    | timer =>
      intro htouched
      rcases hs with hs | ⟨htk, hsepc⟩
      · rw [hs] at htouched
        cases htouched
      · rw [hsepc, ht]
        exact h (htk ▸ htouched)

lemma inv_running (h : t.Inv) (hc : t.sys.current = some i)
    (hphase : ∀ k, k ≠ i → t'.sys.phase k = t.sys.phase k)
    (htrap : ∀ k, k ≠ i → t'.trapPc k = t.trapPc k)
    (htouched : ∀ k, k ≠ i →
      t'.touched k = true ∨ t'.touched k = t.touched k ∧ t'.sys.sepc = t.sys.sepc)
    (hi : ∀ ph, t'.sys.phase i = some ph → t'.Good i ph) : t'.Inv := by
  intro k ph hk
  by_cases hki : k = i
  · rw [hki] at hk ⊢
    exact hi ph hk
  · rw [hphase k hki] at hk
    refine (h k ph hk).other ?_ (htrap k hki) (htouched k hki)
    rw [hc]
    exact fun he => hki (Option.some.inj he).symm

lemma next_other (hc : t.sys.current = some i) (hk : k ≠ i) :
    (t.next e s).trapPc k = t.trapPc k ∧ (t.next e s).touched k = (t.touched k || e.writesSepc) := by
  have hne : t.sys.current ≠ some k := by
    rw [hc]
    exact fun he => hk (Option.some.inj he).symm
  exact ⟨if_neg hne, if_neg hne⟩

/-- A step of the running process `i` to a state in which only its own phase is new. -/
lemma inv_next (ph : Option Phase) (h : t.Inv) (hc : t.sys.current = some i)
    (hphase : s.phase = Function.update t.sys.phase i ph)
    (hsepc : e.writesSepc = true ∨ e.writesSepc = false ∧ s.sepc = t.sys.sepc)
    (hi : ∀ ph', ph = some ph' → (t.next e s).Good i ph') : (t.next e s).Inv := by
  refine inv_running h hc (fun k hk => ?_) (fun k hk => (next_other hc hk).1) (fun k hk => ?_) fun ph' hph => ?_
  · rw [show (t.next e s).sys.phase = _ from hphase, Function.update_of_ne hk]
  · rw [(next_other hc hk).2]
    rcases hsepc with hw | ⟨hw, hs⟩
    · exact .inl (by simp [hw])
    · exact .inr ⟨by simp [hw], hs⟩
  · rw [show (t.next e s).sys.phase = _ from hphase, Function.update_self] at hph
    exact hi ph' hph

lemma inv_fresh {j x : Nat} (h : t.Inv) (hw : e.writesSepc = false) (hr : e.resumePc = none) :
    (t.next e ((t.sys.setKernelEpc j x).setPhase j (some .fresh))).Inv := by
  have hnext : ∀ s, t.next e s = ⟨s, t.trapPc, t.touched⟩ := by
    intro s
    simp [next, hw, hr]
  rw [hnext]
  intro k ph hk
  by_cases hkj : k = j
  · obtain rfl : Phase.fresh = ph := by simpa [Sys.setPhase, hkj] using hk
    trivial
  · have hold := h k ph (by simpa [Sys.setPhase, Sys.setKernelEpc, hkj] using hk)
    cases ph with
    | handler cause epc => cases cause <;> exact hold
    | _ => exact hold

lemma inv_stepRunning {ph : Phase} (h : t.Inv) (hc : t.sys.current = some i)
    (hp : t.sys.phase i = some ph) (hs : t.sys.stepRunning i ph e = some s) : (t.next e s).Inv := by
  unfold Sys.stepRunning at hs
  split at hs
  · cases hs
    refine inv_next _ h hc rfl (.inl rfl) ?_
    rintro _ ⟨⟩
    exact hc
  · rename_i cause pc
    cases hs
    refine inv_next _ h hc rfl (.inl rfl) ?_
    rintro _ ⟨⟩
    cases cause with
    | syscall => simp [Good, next, hc, Event.resumePc]
    | timer => exact fun _ => by simp [next, hc, Event.resumePc, Sys.trapUserHandler, Sys.setKernelEpc, Sys.setPhase]
    | other => exact ⟨rfl, by simp [next, hc, Event.resumePc, Sys.trapUserHandler, Sys.setKernelEpc, Sys.setPhase]⟩
  · rename_i cause epc
    cases hs
    refine inv_next (some .user) h hc ?_ (.inl rfl) ?_
    · cases cause <;> rfl
    · rintro _ ⟨⟩
      cases cause <;> exact hc
  · cases hs
    refine inv_next (t.sys.phase i) h hc (Function.update_eq_self i _).symm (.inr ⟨rfl, rfl⟩) fun ph' hph => ?_
    obtain rfl := Option.some.inj (hp.symm.trans hph)
    simpa [Good, next, Event.resumePc] using h i _ hp
  · split at hs
    · cases hs
      exact inv_fresh h rfl rfl
    · cases hs
  · cases hs
    refine inv_next _ h hc rfl (.inl rfl) ?_
    rintro _ ⟨⟩
    exact hc
  · cases hs
    exact inv_next _ h hc rfl (.inr ⟨rfl, rfl⟩) (by rintro _ ⟨⟩)
  · cases hs

lemma inv_step (h : t.Inv) (hs : t.sys.step e = some s) : (t.next e s).Inv := by
  unfold Sys.step at hs
  split at hs
  · split at hs
    · cases hs
      exact inv_fresh h rfl rfl
    · cases hs
  · split_ifs at hs with hc
    cases hs
    intro k ph hk
    exact (h k ph hk).other (by simp [hc.1]) (by simp [next, hc.1]) (.inr (by simp [next, hc.1, Event.writesSepc]))
  · split_ifs at hs with hc
    cases hs
    intro k ph hk
    exact (h k ph hk).other (by simp [hc]) (by simp [next, hc]) (.inl (by simp [next, hc, Event.writesSepc]))
  · split at hs
    · cases hs
    · rename_i i hc
      split at hs
      · cases hs
      · rename_i ph hp
        exact inv_stepRunning h hc hp hs

end Tracked

/-- The runs of the system from the state without processes, with their states and events. -/
inductive Run (sepc : Nat) : List (Tracked × Event) → Tracked → Prop
  | nil : Run sepc [] ⟨⟨sepc, none, fun _ => 0, fun _ => none⟩, fun _ => 0, fun _ => false⟩
  | snoc {tr : List (Tracked × Event)} {t : Tracked} {e : Event} {s : Sys} (hr : Run sepc tr t)
      (hs : t.sys.step e = some s) : Run sepc (tr ++ [(t, e)]) (t.next e s)

lemma Run.inv {sepc : Nat} {tr : List (Tracked × Event)} {t : Tracked} (hr : Run sepc tr t) : t.Inv := by
  induction hr with
  | nil => rintro i ph ⟨⟩
  | snoc hr hs ih => exact Tracked.inv_step ih hs

/-- In every run in which nothing writes `sepc` between the yield of a process in its timer
interrupt and its return, every process resumes at its own program counter. -/
theorem resumes_at_own_pc {sepc : Nat} {tr : List (Tracked × Event)} {t : Tracked}
    (hr : Run sepc tr t) (ha : ∀ x ∈ tr, x.1.Allowed x.2) : ∀ x ∈ tr, x.1.Resumes x.2 := by
  induction hr with
  | nil => simp
  | @snoc tr t e s hr hs ih =>
    intro x hx
    rcases List.mem_append.mp hx with hx | hx
    · exact ih (fun y hy => ha y (List.mem_append_left _ hy)) x hx
    · obtain rfl := List.mem_singleton.mp hx
      exact Tracked.resumes_of_inv hr.inv (ha (t, e) (by simp))

lemma Tracked.allowed_of_ne {t : Tracked} {e : Event} (he : e ≠ .ret) : t.Allowed e :=
  fun _ _ h => absurd h he

/-- Process 1 alone: it yields at 104, is dispatched again and goes on at 104. -/
theorem resumes_after_yield_alone : ∃ (tr : List (Tracked × Event)) (t : Tracked), Run 0 tr t ∧
    tr.map Prod.snd = [.create 1 100, .dispatch 1, .ret, .trap .timer 104, .dispatch 1, .ret] ∧
    (∀ x ∈ tr, x.1.Resumes x.2) ∧ t.sys.sepc = 104 := by
  have hr₀ : Run 0 [] _ := .nil
  have hr₁ := (hr₀.snoc (e := .create 1 100) rfl).snoc (e := .dispatch 1) rfl
  have hr₂ := (hr₁.snoc (e := .ret) rfl).snoc (e := .trap .timer 104) rfl
  have hr₃ := (hr₂.snoc (e := .dispatch 1) rfl).snoc (e := .ret) rfl
  refine ⟨_, _, hr₃, rfl, resumes_at_own_pc hr₃ ?_, rfl⟩
  simp only [List.forall_mem_append, List.forall_mem_singleton, List.nil_append]
  refine ⟨⟨⟨⟨⟨?_, ?_⟩, ?_⟩, ?_⟩, ?_⟩, ?_⟩
  · exact Tracked.allowed_of_ne (by decide)
  · exact Tracked.allowed_of_ne (by decide)
  · rintro i epc - ⟨⟩ hp
    cases hp
  · exact Tracked.allowed_of_ne (by decide)
  · exact Tracked.allowed_of_ne (by decide)
  · rintro i epc - ⟨⟩ -
    rfl

/-- Process 2 runs while process 1 is switched out in its timer interrupt at 104, and traps at
208. Process 1 then resumes at 208. -/
theorem resumes_at_other_pc : ∃ (tr : List (Tracked × Event)) (t : Tracked), Run 0 tr t ∧
    tr.map Prod.snd = [.create 1 100, .create 2 200, .dispatch 1, .ret, .trap .timer 104, .dispatch 2,
      .ret, .trap .timer 208, .dispatch 1, .ret] ∧
    t.sys.current = some 1 ∧ t.sys.phase 1 = some .user ∧ t.trapPc 1 = 104 ∧ t.sys.sepc = 208 ∧
    ∃ x ∈ tr, ¬x.1.Resumes x.2 := by
  have hr₀ : Run 0 [] _ := .nil
  have hr₁ := (hr₀.snoc (e := .create 1 100) rfl).snoc (e := .create 2 200) rfl
  have hr₂ := ((hr₁.snoc (e := .dispatch 1) rfl).snoc (e := .ret) rfl).snoc (e := .trap .timer 104) rfl
  have hr₃ := ((hr₂.snoc (e := .dispatch 2) rfl).snoc (e := .ret) rfl).snoc (e := .trap .timer 208) rfl
  have hr₄ := (hr₃.snoc (e := .dispatch 1) rfl).snoc (e := .ret) rfl
  refine ⟨_, _, hr₄, rfl, rfl, rfl, rfl, rfl, _, List.mem_append_right _ List.mem_cons_self, fun h => ?_⟩
  have hpc := h 1 .timer 104 _ rfl rfl rfl rfl
  exact absurd hpc (by decide)

end Glenda.Irq.Resume
