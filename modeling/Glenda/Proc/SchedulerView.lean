import Glenda.Proc.Scheduler

/-!
# What the scheduler decides on

A `View` is the machine without memory and locks: the slots of the processes, the bitmap, and who runs. `View.Step`
lists what can happen to it, and `Act.refines` says that an act of the machine is one of these steps.
-/

namespace Glenda.Proc
open Glenda.Lib Glenda.Mem

variable {f : Process → Process} {g : Slot → Slot} {b : BitVec 64} {o : Option Nat} {k : Kernel}

@[ext]
structure View where
  slots : Nat → Slot
  nextPid : Nat
  bits : Nat → Bool
  current : Option Nat
  inside : Nat → Inside

def Machine.view (m : Machine) : View where
  slots i := (m.k.procs i).slot
  nextPid := m.k.globalPid
  bits := m.bitmap.getLsbD
  current := m.proc
  inside := m.inside

lemma Machine.view_slots (m : Machine) (i : Nat) : m.view.slots i = (m.k.procs i).slot := rfl

namespace Slot

def empty : Slot := ⟨.unused, none, 0, none, 0⟩

def woken (chan : Nat) (s : Slot) : Slot :=
  if s.state = .sleeping ∧ s.sleepChan = some chan then { s with state := .runnable, sleepChan := none } else s

/-- The child of a process that exits goes to the first slot. -/
def adopted (i : Nat) (s : Slot) : Slot := if s.parent = some i then { s with parent := some 0 } else s

end Slot

namespace View

variable (v : View)

@[simps]
def setSlot (i : Nat) (s : Slot) : View := { v with slots := Function.update v.slots i s }

@[simps]
def setBit (i : Nat) (b : Bool) : View := { v with bits := Function.update v.bits i b }

@[simps]
def setInside (i : Nat) (w : Inside) : View := { v with inside := Function.update v.inside i w }

@[simps]
def switch (o : Option Nat) : View := { v with current := o }

@[simps]
def spawn (c : Nat) (parent : Option Nat) : View where
  slots := Function.update v.slots c ⟨.runnable, parent, 0, none, v.nextPid⟩
  nextPid := (v.nextPid + 1) % 2 ^ 64
  bits := Function.update v.bits c true
  current := v.current
  inside := Function.update v.inside c .user

def run (i : Nat) : View := ((v.setSlot i { v.slots i with state := .running }).setBit i false).switch (some i)

def yield (i : Nat) : View := ((v.setSlot i { v.slots i with state := .runnable }).setBit i true).switch none

def block (i chan : Nat) (w : Inside) : View :=
  (((v.setSlot i { v.slots i with state := .sleeping, sleepChan := some chan }).setBit i false).setInside i w).switch none

@[simps]
def mapSlots (g : Slot → Slot) : View := { v with slots := fun j => if j < NPROC then g (v.slots j) else v.slots j }

@[simps]
def wake (chan : Nat) : View where
  slots := (v.mapSlots (Slot.woken chan)).slots
  nextPid := v.nextPid
  bits j := v.bits j || (j < NPROC ∧ (v.slots j).state = .sleeping ∧ (v.slots j).sleepChan = some chan)
  current := v.current
  inside := v.inside

def wakeParent : Option Nat → View
  | none => v
  | some parent => v.wake parent

def exit (i code : Nat) : View :=
  ((((v.wakeParent (v.slots i).parent).mapSlots (Slot.adopted i)).setSlot i
    { (v.slots i).adopted i with state := .zombie, exitCode := code }).setBit i false).switch none

def reap (i j : Nat) : View := (v.setSlot j .empty).setInside i .user

def FirstFree (c : Nat) : Prop := c < NPROC ∧ (v.slots c).state = .unused ∧ ∀ j < c, (v.slots j).state ≠ .unused

/-- What an act does, and what is told. -/
inductive Step (v : View) : List Event → View → Prop
  | stay : Step v [] v
  | create (c : Nat) (hcur : v.current = none) (hfree : v.FirstFree c) (hpid : v.nextPid < 2 ^ 14) :
      Step v [] (v.spawn c none)
  | fork (i c : Nat) (hcur : v.current = some i) (hfree : v.FirstFree c) (hpid : v.nextPid < 2 ^ 14) :
      Step v [.forked (v.slots i).pid v.nextPid] (v.spawn c (some i))
  | dispatch (i : Nat) (hcur : v.current = none) (hi : i < NPROC) (hstate : (v.slots i).state = .runnable) :
      Step v [] (v.run i)
  | wake (chan : Nat) : Step v [] (v.wake chan)
  | yield (i : Nat) (hcur : v.current = some i) : Step v [] (v.yield i)
  | interrupt (i : Nat) (hcur : v.current = some i) : Step v [] ((v.wake TICKS_CHAN).yield i)
  | sleep (i chan : Nat) (w : Inside) (hcur : v.current = some i) (hw : w ≠ .wait) : Step v [] (v.block i chan w)
  | wait (i : Nat) (hcur : v.current = some i)
      (hkids : ∀ j < NPROC, (v.slots j).parent = some i → (v.slots j).state ≠ .zombie) : Step v [] (v.block i i .wait)
  | reap (i j : Nat) (hcur : v.current = some i) (hj : j < NPROC) (hparent : (v.slots j).parent = some i)
      (hstate : (v.slots j).state = .zombie) :
      Step v [.reaped (v.slots i).pid (v.slots j).pid (v.slots j).exitCode] (v.reap i j)
  | leave (i : Nat) (hcur : v.current = some i) : Step v [] (v.setInside i .user)
  | exit (i code : Nat) (hcur : v.current = some i) : Step v [.exited (v.slots i).pid code] (v.exit i code)

/-- The bitmap says who is runnable, and the process that runs is the only one that is running. -/
structure Agrees : Prop where
  bits : ∀ i, v.bits i = true ↔ (v.slots i).state = .runnable
  running : ∀ i, (v.slots i).state = .running ↔ v.current = some i
  outside : ∀ i, NPROC ≤ i → (v.slots i).state = .unused
  pid : v.nextPid ≤ 2 ^ 14

end View

/-! ### The functions of the model -/

section Functions

variable {P : Profile} {E : Env} {A : TableLayout} {α : Type} {m m' : Machine} {i c chan : Nat} {u : Unit}

lemma onKernel_ok {x : K Kernel α} {a : α} (he : onKernel x m = (.ok a, m')) :
    ∃ k', x m.k = .ok (a, k') ∧ m' = { m with k := k' } := by
  unfold onKernel at he
  cases hx : x m.k with
  | error p =>
    rw [hx] at he
    cases he
  | ok r =>
    rw [hx] at he
    cases he
    exact ⟨r.2, rfl, rfl⟩

lemma withLock_ok {l : Lock} {x : T Machine α} {a : α} (he : withLock l x m = (.ok a, m')) :
    ∃ m1 m2, m1.view = m.view ∧ x m1 = (.ok a, m2) ∧ m'.view = m2.view := by
  unfold withLock at he
  obtain ⟨u1, m1, hlock, he⟩ := T.bind_ok he
  have hview : m1.view = m.view := by
    cases hlock
    rfl
  obtain ⟨b, m2, hx, he⟩ := T.bind_ok he
  cases he
  exact ⟨m1, m2, hview, hx, rfl⟩

lemma state_ok {s : ProcState} (he : state i m = (.ok s, m')) : s = (m.view.slots i).state ∧ m' = m := by
  cases he
  exact ⟨rfl, rfl⟩

lemma setProc_view (hf : ∀ p, (f p).slot = g p.slot)
    (he : onKernel (setProc i f) m = (.ok u, m')) :
    m'.view = m.view.setSlot i (g (m.view.slots i)) := by
  obtain ⟨k', hk, rfl⟩ := onKernel_ok he
  cases hk
  refine View.ext (funext fun j => ?_) rfl rfl rfl rfl
  by_cases hj : j = i
  · subst hj
    simp [Machine.view_slots, hf]
  · simp [Machine.view_slots, hj]

lemma mapProcs_view (hf : ∀ p, (f p).slot = g p.slot)
    (he : onKernel (mapProcs f) m = (.ok u, m')) : m'.view = m.view.mapSlots g := by
  obtain ⟨k', hk, rfl⟩ := onKernel_ok he
  cases hk
  refine View.ext (funext fun j => ?_) rfl rfl rfl rfl
  by_cases hj : j < NPROC
  · simp [Machine.view_slots, hj, hf]
  · simp [Machine.view_slots, hj]

lemma getLsbD_mark (hi : i < NPROC) : (mark b i).getLsbD = Function.update b.getLsbD i true := by
  unfold mark
  rw [if_neg (by omega)]
  unfold NPROC at hi
  funext j
  by_cases hj : j = i
  · subst hj
    simp [hi]
  · have hne : ¬(j < 64 ∧ ¬j < i ∧ j - i = 0) := by omega
    simp [hj, BitVec.getLsbD_one]
    omega

lemma getLsbD_unmark (hi : i < NPROC) : (unmark b i).getLsbD = Function.update b.getLsbD i false := by
  unfold unmark
  rw [if_neg (by omega)]
  unfold NPROC at hi
  funext j
  by_cases hj : j = i
  · subst hj
    simp [hi]
  · simp [hj, BitVec.getLsbD_one]
    intro hb
    have := b.lt_of_getLsbD hb
    omega

lemma findRunnable_some (h : findRunnable b = some i) : i < NPROC ∧ b.getLsbD i = true := by
  unfold findRunnable trailingZeros at h
  split_ifs at h with h0 hlt
  cases hf : (List.range 64).find? b.getLsbD with
  | none =>
    rw [hf] at hlt
    cases (show ¬(64 < NPROC) by decide) hlt
  | some j =>
    rw [hf] at h hlt
    cases h
    exact ⟨hlt, List.find?_some hf⟩

lemma findRunnable_none (h : findRunnable b = none) : b.getLsbD i = false := by
  unfold findRunnable at h
  split_ifs at h with h0 hlt
  · rw [h0]
    simp
  · by_contra hi
    rw [Bool.not_eq_false] at hi
    have hlt' := b.lt_of_getLsbD hi
    refine hlt ?_
    unfold trailingZeros
    cases hf : (List.range 64).find? b.getLsbD with
    | none =>
      rw [List.find?_eq_none] at hf
      exact absurd hi (hf i (List.mem_range.mpr hlt'))
    | some j => exact List.mem_range.mp (List.mem_of_find?_eq_some hf)

lemma markRunnable_view (hi : i < NPROC) (he : markRunnable i m = (.ok u, m')) :
    m'.view = m.view.setBit i true := by
  cases he
  exact View.ext rfl rfl (getLsbD_mark hi) rfl rfl

lemma markNotRunnable_view (hi : i < NPROC) (he : markNotRunnable i m = (.ok u, m')) :
    m'.view = m.view.setBit i false := by
  cases he
  exact View.ext rfl rfl (getLsbD_unmark hi) rfl rfl

lemma TableLayout.index_addr (hi : i < NPROC) : A.index (A.addr i) = some i := by
  unfold TableLayout.index TableLayout.addr
  rw [if_neg (by omega)]
  have hidx : (A.base + i * A.size - A.base) / A.size = i := by
    rw [Nat.add_sub_cancel_left, Nat.mul_div_cancel _ A.size_pos]
  rw [hidx]
  exact if_pos ⟨hi, rfl⟩

lemma findProcIndex_ok (hi : i < NPROC) (he : findProcIndex A i m = (.ok o, m')) :
    o = some i ∧ m'.view = m.view := by
  obtain ⟨m1, m2, h1, hx, h2⟩ := withLock_ok he
  cases hx
  exact ⟨TableLayout.index_addr hi, h2.trans h1⟩

lemma markAll_view {l : List Nat} (hl : ∀ j ∈ l, j < NPROC) (he : l.forM markRunnable m = (.ok u, m')) :
    m'.view = ⟨m.view.slots, m.view.nextPid, fun j => m.view.bits j || j ∈ l, m.view.current, m.view.inside⟩ := by
  induction l generalizing m with
  | nil =>
    cases he
    refine View.ext rfl rfl (funext fun j => ?_) rfl rfl
    simp
  | cons n l ih =>
    obtain ⟨u1, m1, h1, he⟩ := T.bind_ok he
    have hview := ih (fun j hj => hl j (List.mem_cons_of_mem _ hj)) he
    rw [markRunnable_view (hl n List.mem_cons_self) h1] at hview
    rw [hview]
    refine View.ext rfl rfl (funext fun j => ?_) rfl rfl
    by_cases hj : j = n
    · simp [hj]
    · simp [hj]

lemma Kernel.mem_sleepers {j : Nat} : j ∈ k.sleepers chan ↔
    j < NPROC ∧ (k.procs j).state = .sleeping ∧ (k.procs j).sleepChan = some chan := by
  simp [Kernel.sleepers]

lemma wakeup_view (he : wakeupLocked chan m = (.ok u, m')) : m'.view = m.view.wake chan := by
  obtain ⟨m1, m2, h1, he, h2⟩ := withLock_ok he
  obtain ⟨m3, m4, h3, he, h4⟩ := withLock_ok he
  obtain ⟨m5, m6, hget, he⟩ := T.bind_ok he
  cases hget
  obtain ⟨u1, m6, hwake, he⟩ := T.bind_ok he
  have hmap := mapProcs_view (g := Slot.woken chan) (fun p => by unfold Slot.woken Process.slot; split_ifs <;> rfl) hwake
  have hview := markAll_view (fun j hj => List.mem_range.mp (List.mem_filter.mp hj).1) he
  rw [h2, h4, hview, hmap, ← h1, ← h3]
  refine View.ext rfl rfl (funext fun j => ?_) rfl rfl
  exact congrArg (m3.view.bits j || ·) (decide_eq_decide.mpr (Kernel.mem_sleepers (k := m3.k)))

lemma switchBack_view (hi : i < NPROC) (he : switchBack i m = (.ok u, m')) :
    ((m.view.slots i).state = .dying ∧
      m'.view = (m.view.setSlot i { m.view.slots i with state := .zombie }).switch none) ∨
    ((m.view.slots i).state = .runnable ∧ m'.view = (m.view.setBit i true).switch none) ∨
    ((m.view.slots i).state ≠ .dying ∧ (m.view.slots i).state ≠ .runnable ∧ m'.view = m.view.switch none) := by
  obtain ⟨u1, m0, hset, he⟩ := T.bind_ok he
  cases hset
  obtain ⟨m1, m2, h1, he, h2⟩ := withLock_ok he
  obtain ⟨m3, m4, h3, he, h4⟩ := withLock_ok he
  have hv : m3.view = m.view.switch none := h3.trans h1
  have hslots : m3.view.slots = m.view.slots := by
    rw [hv]
    rfl
  obtain ⟨s, m5, hs, he⟩ := T.bind_ok he
  obtain ⟨rfl, rfl⟩ := state_ok hs
  rw [h2, h4]
  rw [hslots] at he
  split_ifs at he with hd
  · refine .inl ⟨hd, ?_⟩
    rw [setProc_view (g := fun s => { s with state := .zombie }) (fun p => rfl) he, hv]
    rfl
  · obtain ⟨s, m6, hs, he⟩ := T.bind_ok he
    obtain ⟨rfl, rfl⟩ := state_ok hs
    rw [hslots] at he
    split_ifs at he with hr
    · refine .inr (.inl ⟨hr, ?_⟩)
      rw [markRunnable_view hi he, hv]
      rfl
    · cases he
      exact .inr (.inr ⟨hd, hr, hv⟩)

lemma yieldProc_view (hi : i < NPROC) (hrun : (m.view.slots i).state = .running) (he : yieldProc A i m = (.ok u, m')) :
    m'.view = m.view.yield i := by
  obtain ⟨s, m1, hs, he⟩ := T.bind_ok he
  obtain ⟨rfl, rfl⟩ := state_ok hs
  rw [if_pos hrun] at he
  obtain ⟨u1, m2, hset, he⟩ := T.bind_ok he
  have h2 := setProc_view (g := fun s => { s with state := .runnable }) (fun p => rfl) hset
  obtain ⟨o, m3, hidx, he⟩ := T.bind_ok he
  obtain ⟨rfl, h3⟩ := findProcIndex_ok hi hidx
  obtain ⟨u2, m4, hmark, he⟩ := T.bind_ok he
  have h4 := markRunnable_view hi hmark
  rw [h3, h2] at h4
  have hstate : (m4.view.slots i).state = .runnable := by simp [h4]
  rcases switchBack_view hi he with ⟨hd, -⟩ | ⟨-, hv⟩ | ⟨-, hr, -⟩
  · rw [hstate] at hd
    cases hd
  · rw [hv, h4]
    exact View.ext rfl rfl (Function.update_idem ..) rfl rfl
  · exact absurd hstate hr

lemma switchAsleep_view {v : View} {w : Inside} (hi : i < NPROC)
    (hv : m.view = ((v.setSlot i { v.slots i with state := .sleeping, sleepChan := some chan }).setBit i false).setInside i w)
    (he : switchBack i m = (.ok u, m')) : m'.view = v.block i chan w := by
  have hstate : (m.view.slots i).state = .sleeping := by simp [hv]
  rcases switchBack_view hi he with ⟨hd, -⟩ | ⟨hr, -⟩ | ⟨-, -, h⟩
  · rw [hstate] at hd
    cases hd
  · rw [hstate] at hr
    cases hr
  · rw [h, hv]
    rfl

lemma sleep_view (hi : i < NPROC) (he : sleep A i chan m = (.ok u, m')) : m'.view = m.view.block i chan (m.inside i) := by
  obtain ⟨u1, m1, hlock, he⟩ := T.bind_ok he
  refine switchAsleep_view hi ?_ he
  obtain ⟨m2, m3, h2, hx, h3⟩ := withLock_ok hlock
  obtain ⟨u2, m4, hset, hx⟩ := T.bind_ok hx
  have h4 := setProc_view (g := fun s => { s with state := .sleeping, sleepChan := some chan }) (fun p => rfl) hset
  obtain ⟨o, m5, hidx, hx⟩ := T.bind_ok hx
  obtain ⟨rfl, h5⟩ := findProcIndex_ok hi hidx
  have h6 := markNotRunnable_view hi hx
  rw [h3, h6, h5, h4, h2]
  exact View.ext rfl rfl rfl rfl (Function.update_eq_self ..).symm

lemma dispatch_view (h : m.view.Agrees) (he : dispatch m = (.ok u, m')) :
    (findRunnable m.bitmap = none ∧ m'.view = m.view) ∨
      ∃ i < NPROC, (m.view.slots i).state = .runnable ∧ m'.view = m.view.run i := by
  obtain ⟨m0, m1, hget, he⟩ := T.bind_ok he
  cases hget
  cases hf : findRunnable m.bitmap with
  | none =>
    rw [hf] at he
    cases he
    exact .inl ⟨rfl, rfl⟩
  | some i =>
    rw [hf] at he
    obtain ⟨hi, hbit⟩ := findRunnable_some hf
    have hstate := (h.bits i).mp hbit
    refine .inr ⟨i, hi, hstate, ?_⟩
    obtain ⟨found, m1, hlock, he⟩ := T.bind_ok he
    obtain ⟨m2, m3, h2, hx, h3⟩ := withLock_ok hlock
    obtain ⟨m4, m5, h4, hx, h5⟩ := withLock_ok hx
    obtain ⟨s, m6, hs, hx⟩ := T.bind_ok hx
    obtain ⟨rfl, rfl⟩ := state_ok hs
    rw [h4, h2, if_pos hstate] at hx
    obtain ⟨u1, m7, hset, hx⟩ := T.bind_ok hx
    have h7 := setProc_view (g := fun s => { s with state := .running }) (fun p => rfl) hset
    obtain ⟨u2, m8, hclear, hx⟩ := T.bind_ok hx
    have h8 := markNotRunnable_view hi hclear
    cases hx
    rw [if_pos rfl] at he
    have hlast : m'.view = m1.view.switch (some i) := by
      cases he
      rfl
    rw [hlast, h3, h5, h8, h7, h4, h2]
    rfl

lemma alloc_view (he : allocLocked m = (.ok o, m')) :
    o = none ∨ ∃ c, o = some c ∧ m.view.FirstFree c ∧ m'.view = m.view.spawn c none := by
  obtain ⟨m1, m2, h1, hx, h2⟩ := withLock_ok he
  obtain ⟨o', m3, halloc, hx⟩ := T.bind_ok hx
  obtain ⟨k', hk, rfl⟩ := onKernel_ok halloc
  rcases alloc_ok hk with ⟨rfl, -⟩ | ⟨c, rfl, hc, hu, hfirst, rfl⟩
  · cases hx
    exact .inl rfl
  · obtain ⟨u1, m4, hin, hx⟩ := T.bind_ok hx
    obtain ⟨u2, m5, hmark, hx⟩ := T.bind_ok hx
    cases hx
    have h5 := markRunnable_view hc hmark
    refine .inr ⟨c, rfl, ?_, ?_⟩
    · rw [← h1]
      exact ⟨hc, hu, hfirst⟩
    · rw [h2, h5, ← h1]
      cases hin
      refine View.ext (funext fun j => ?_) rfl rfl rfl rfl
      by_cases hj : j = c
      · subst hj
        simp [Machine.view, Process.slot]
      · simp [Machine.view_slots, hj]

end Functions

/-! ### What memory has no part in -/

structure SameSlots (k k' : Kernel) : Prop where
  slot : ∀ i, (k'.procs i).slot = (k.procs i).slot
  pid : k'.globalPid = k.globalPid

instance : IsPreorder Kernel SameSlots where
  refl _ := ⟨fun _ => rfl, rfl⟩
  trans _ _ _ h h' := ⟨fun i => (h'.slot i).trans (h.slot i), h'.pid.trans h.pid⟩

namespace SameSlots

variable {P : Profile} {E : Env} {α : Type} {m : Machine} {k' : Kernel}

lemma onPhys (x : K Phys α) : K.Keeps SameSlots (onPhys x) := by
  intro k a k' he
  obtain ⟨ph', -, rfl⟩ := onPhys_ok he
  exact ⟨fun _ => rfl, rfl⟩

lemma onVm (i : Nat) (x : K Vm α) : K.Keeps SameSlots (onVm i x) := by
  intro k a k' he
  obtain ⟨s', -, rfl⟩ := onVm_ok he
  refine ⟨fun j => ?_, rfl⟩
  by_cases hj : j = i
  · subst hj
    simp [Process.slot]
  · simp [hj]

lemma frame : MemoryFrame SameSlots where
  phys := onPhys
  proc i f hf := by
    refine .modify fun k => ⟨fun j => ?_, rfl⟩
    by_cases hj : j = i
    · subst hj
      simp [(hf _).1]
    · simp [hj]

lemma sysMmap (i begin len : Nat) : K.Keeps SameSlots (sysMmap P i begin len) :=
  .bind (MemoryFrame.getProc i) fun _ => onVm i _

lemma sysMunmap (i begin len : Nat) : K.Keeps SameSlots (sysMunmap P i begin len) :=
  .bind (MemoryFrame.getProc i) fun _ => onVm i _

lemma view (h : SameSlots m.k k') : Machine.view { m with k := k' } = m.view :=
  View.ext (funext h.slot) h.pid rfl rfl rfl

lemma onKernel {x : K Kernel α} {a : α} {m' : Machine} (hx : K.Keeps SameSlots x) (he : onKernel x m = (.ok a, m')) :
    m'.view = m.view := by
  obtain ⟨k', hk, rfl⟩ := onKernel_ok he
  exact (hx _ _ _ hk).view

end SameSlots

/-! ### Processes -/

section Processes

variable {P : Profile} {E : Env} {A : TableLayout} {m m' : Machine} {i c code : Nat} {u : Unit}

lemma Machine.view_update {k' : Kernel} {p : Process}
    (hk : k' = { m.k with ph := k'.ph, procs := Function.update m.k.procs c p }) :
    Machine.view { m with k := k' } = m.view.setSlot c p.slot := by
  rw [hk]
  refine View.ext (funext fun j => ?_) rfl rfl rfl rfl
  by_cases hj : j = c
  · simp [Machine.view_slots, hj]
  · simp [Machine.view_slots, hj]

lemma Machine.slot_of_spawn {v : View} (hv : m.view = v.spawn c none) :
    (m.k.procs c).slot = ⟨.runnable, none, 0, none, v.nextPid⟩ := by
  rw [← Machine.view_slots, hv]
  simp

lemma create_view {payload : List Nat} (hpid : m.view.nextPid ≤ 2 ^ 14) (he : createLocked P E payload m = (.ok u, m')) :
    ∃ c, m.view.FirstFree c ∧ m.view.nextPid < 2 ^ 14 ∧ m'.view = m.view.spawn c none := by
  obtain ⟨o, m1, halloc, he⟩ := T.bind_ok he
  obtain ⟨c, m2, hexp, he⟩ := T.bind_ok he
  obtain ⟨k2, hk, rfl⟩ := onKernel_ok hexp
  obtain ⟨rfl, rfl⟩ := expect_ok hk
  rcases alloc_view halloc with ho | ⟨c', ho, hfree, hv⟩
  · cases ho
  · cases ho
    obtain ⟨k', hk, rfl⟩ := onKernel_ok he
    obtain ⟨root, tf, top, ph1, ph2, ph3, ph4, ph5, ph6, hC⟩ := createIn_ok hk
    have hslot := Machine.slot_of_spawn hv
    simp only [Process.slot, Slot.mk.injEq] at hslot
    obtain ⟨kstackTop, hstack⟩ := hC.kstack
    rw [hslot.2.2.2.2] at hstack
    refine ⟨c, hfree, KernelVm.allocKstack_lt (by omega) hstack, ?_⟩
    rw [Machine.view_update hC.kernel, hv]
    refine View.ext (funext fun j => ?_) rfl rfl rfl rfl
    by_cases hj : j = c
    · simp [hj, Process.slot, hslot]
    · simp [hj]

lemma fork_view (hpid : m.view.nextPid ≤ 2 ^ 14) (he : forkLocked P E i m = (.ok c, m')) :
    m.view.FirstFree c ∧ m.view.nextPid < 2 ^ 14 ∧ m'.view = m.view.spawn c (some i) := by
  obtain ⟨o, m1, halloc, he⟩ := T.bind_ok he
  obtain ⟨c', m2, hexp, he⟩ := T.bind_ok he
  obtain ⟨k2, hk, rfl⟩ := onKernel_ok hexp
  obtain ⟨rfl, rfl⟩ := expect_ok hk
  obtain ⟨u, m3, hinto, he⟩ := T.bind_ok he
  cases he
  rcases alloc_view halloc with ho | ⟨c', ho, hfree, hv⟩
  · cases ho
  · cases ho
    obtain ⟨k', hk, rfl⟩ := onKernel_ok hinto
    obtain ⟨root, tf, ph1, ph2, ph3, ph4, ph5, ph6, hF⟩ := forkInto_ok hk
    have hslot := Machine.slot_of_spawn hv
    simp only [Process.slot, Slot.mk.injEq] at hslot
    obtain ⟨kstackTop, hstack⟩ := hF.kstack
    rw [hslot.2.2.2.2] at hstack
    refine ⟨hfree, KernelVm.allocKstack_lt (by omega) hstack, ?_⟩
    rw [Machine.view_update hF.kernel, hv]
    refine View.ext (funext fun j => ?_) rfl rfl rfl rfl
    by_cases hj : j = c
    · simp [hj, Process.slot, hslot]
    · simp [hj]

lemma View.wakeParent_of_awake {v : View} (h : (v.slots i).state ≠ .sleeping) :
    (v.wakeParent o).slots i = v.slots i := by
  cases o with
  | none => rfl
  | some parent => simp [View.wakeParent, Slot.woken, h]

lemma View.setSlot_wakeParent {v : View} {s : Slot} (hrun : (v.slots i).state = .running)
    (hs : s.state = .running) : (v.setSlot i s).wakeParent o = (v.wakeParent o).setSlot i s := by
  cases o with
  | none => rfl
  | some chan =>
    refine View.ext (funext fun j => ?_) rfl (funext fun j => ?_) rfl rfl
    · by_cases hj : j = i
      · simp [View.wakeParent, hj, Slot.woken, hs]
      · simp [View.wakeParent, hj]
    · by_cases hj : j = i
      · simp [View.wakeParent, hj, hs, hrun]
      · simp [View.wakeParent, hj]

lemma exitLocked_view (hi : i < NPROC) (hrun : (m.view.slots i).state = .running) (he : exitLocked i m = (.ok u, m')) :
    m'.view = (((m.view.wakeParent (m.view.slots i).parent).mapSlots (Slot.adopted i)).setBit i false).setSlot i
      { (m.view.slots i).adopted i with state := .dying } := by
  obtain ⟨m0, m1, hget, he⟩ := T.bind_ok he
  cases hget
  have hwake : ∃ m1 : Machine, m1.view = m.view.wakeParent (m.view.slots i).parent ∧ (do
      withLock .procTable do
        onKernel (mapProcs fun p => if p.parent = some i then { p with parent := some 0 } else p)
        markNotRunnable i
      onKernel (setProc i ({ · with state := .dying }))) m1 = (.ok u, m') := by
    show ∃ m1 : Machine, m1.view = m.view.wakeParent (m.k.procs i).parent ∧ _
    cases hp : (m.k.procs i).parent with
    | none =>
      rw [hp] at he
      exact ⟨m, rfl, he⟩
    | some parent =>
      rw [hp] at he
      obtain ⟨u1, m1, hw, he⟩ := T.bind_ok he
      exact ⟨m1, wakeup_view hw, he⟩
  obtain ⟨m1, h1, he⟩ := hwake
  obtain ⟨u1, m2, hlock, he⟩ := T.bind_ok he
  obtain ⟨m3, m4, h3, hx, h4⟩ := withLock_ok hlock
  obtain ⟨u2, m5, hmap, hx⟩ := T.bind_ok hx
  have h5 := mapProcs_view (g := Slot.adopted i) (fun p => by unfold Slot.adopted Process.slot; split_ifs <;> rfl) hmap
  have h6 := markNotRunnable_view hi hx
  have h7 := setProc_view (g := fun s => { s with state := .dying }) (fun p => rfl) he
  rw [h3, h1] at h5
  rw [h7, h4, h6, h5]
  have hslot : (((m.view.wakeParent (m.view.slots i).parent).mapSlots (Slot.adopted i)).setBit i false).slots i =
      (m.view.slots i).adopted i := by
    simp only [View.setBit_slots, View.mapSlots_slots, if_pos hi, View.wakeParent_of_awake (by rw [hrun]; decide)]
  rw [hslot]

lemma exit_view (hi : i < NPROC) (hrun : (m.view.slots i).state = .running) (he : sysExitLocked A i code m = (.ok u, m')) :
    m'.view = m.view.exit i code := by
  obtain ⟨u1, m1, hcode, he⟩ := T.bind_ok he
  have h1 := setProc_view (g := fun s => { s with exitCode := code }) (fun p => rfl) hcode
  obtain ⟨u2, m2, hexit, he⟩ := T.bind_ok he
  have hrun1 : (m1.view.slots i).state = .running := by simp [h1, hrun]
  have hparent : (m1.view.slots i).parent = (m.view.slots i).parent := by simp [h1]
  have h2 := exitLocked_view hi hrun1 hexit
  rw [hparent] at h2
  have hdying : (m2.view.slots i).state = .dying := by simp [h2]
  obtain ⟨s, m3, hs, he⟩ := T.bind_ok he
  obtain ⟨rfl, rfl⟩ := state_ok hs
  rw [hdying, if_neg (by decide)] at he
  rcases switchBack_view hi he with ⟨-, hv⟩ | ⟨hr, -⟩ | ⟨hd, -⟩
  · rw [hv, h2, h1, View.setSlot_wakeParent hrun (by simpa using hrun)]
    refine View.ext (funext fun j => ?_) rfl rfl rfl rfl
    by_cases hj : j = i
    · subst hj
      simp only [View.exit, View.setSlot_slots, View.setBit_slots, View.switch_slots, Function.update_self]
      unfold Slot.adopted
      split_ifs <;> rfl
    · simp [View.exit, hj]
  · rw [hdying] at hr
    cases hr
  · exact absurd hdying hd

lemma Kernel.firstZombie_none {j : Nat} (h : k.firstZombie i = none) (hj : j < NPROC)
    (hp : (k.procs j).parent = some i) : (k.procs j).state ≠ .zombie := by
  have hnot := List.find?_eq_none.mp h j (List.mem_range.mpr hj)
  simpa [hp] using hnot

/-- A pass of `wait` collects a child, finds that there is none, or puts the process to sleep because none of its
children is a zombie. -/
lemma wait_view {r : WaitResult} (hi : i < NPROC) (he : waitLocked P E A i m = (.ok r, m')) :
    (∃ j < NPROC, (m.view.slots j).parent = some i ∧ (m.view.slots j).state = .zombie ∧
      r = .reaped (m.view.slots j).pid (m.view.slots j).exitCode ∧ m'.view = m.view.reap i j) ∨
    (r = .noChildren ∧ m'.view = m.view.setInside i .user) ∨
    (r = .slept ∧ (∀ j < NPROC, (m.view.slots j).parent = some i → (m.view.slots j).state ≠ .zombie) ∧
      m'.view = m.view.block i i .wait) := by
  obtain ⟨r', m1, hlock, he⟩ := T.bind_ok he
  obtain ⟨m2, m3, h2, hx, h3⟩ := withLock_ok hlock
  obtain ⟨r'', m4, hwait, hx⟩ := T.bind_ok hx
  obtain ⟨k', hk, rfl⟩ := onKernel_ok hwait
  obtain ⟨u1, m5, hin, he⟩ := T.bind_ok he
  rw [← h2]
  rcases wait_ok hk with ⟨j, ph1, ph2, ph3, ph4, hz, rfl, -, -, -, -, rfl⟩ | ⟨hz, ⟨rfl, rfl⟩ | ⟨rfl, rfl⟩⟩
  · cases hx
    cases he
    obtain ⟨hj, hp, hs⟩ := Kernel.firstZombie_eq hz
    refine .inl ⟨j, hj, hp, hs, rfl, ?_⟩
    have hlast : m'.view = m1.view.setInside i .user := by
      cases hin
      rfl
    rw [hlast, h3]
    refine View.ext (funext fun n => ?_) rfl rfl rfl rfl
    by_cases hn : n = j
    · subst hn
      simp [Machine.view_slots, View.reap, Process.new, Process.slot, Slot.empty]
    · simp [Machine.view_slots, View.reap, hn]
  · cases hx
    cases he
    refine .inr (.inl ⟨rfl, ?_⟩)
    have hlast : m'.view = m1.view.setInside i .user := by
      cases hin
      rfl
    rw [hlast, h3]
  · refine .inr (.inr ?_)
    obtain ⟨o, m6, hidx, hx⟩ := T.bind_ok hx
    obtain ⟨rfl, h6⟩ := findProcIndex_ok hi hidx
    obtain ⟨u2, m7, hmark, hx⟩ := T.bind_ok hx
    have h7 := markNotRunnable_view hi hmark
    cases hx
    have hslept : (m5.view = m1.view.setInside i .wait) := by
      cases hin
      rfl
    obtain ⟨u3, m8, hswitch, he⟩ := T.bind_ok he
    cases he
    refine ⟨rfl, fun j hj hp => Kernel.firstZombie_none hz hj hp, switchAsleep_view hi ?_ hswitch⟩
    rw [hslept, h3, h7, h6]
    refine View.ext (funext fun n => ?_) rfl rfl rfl rfl
    by_cases hn : n = i
    · subst hn
      simp [Machine.view_slots, Process.slot]
    · simp [Machine.view_slots, hn]

lemma timerPass_view {target : Nat} (hi : i < NPROC) (he : timerPass A i target m = (.ok u, m')) :
    m'.view = m.view.setInside i .user ∨ m'.view = m.view.block i TICKS_CHAN (.timer target) := by
  obtain ⟨m0, m1, hget, he⟩ := T.bind_ok he
  cases hget
  split_ifs at he
  · obtain ⟨u1, m1, hin, he⟩ := T.bind_ok he
    have hview : m1.view = m.view.setInside i (.timer target) := by
      cases hin
      rfl
    have hinside : m1.inside i = .timer target := by
      show m1.view.inside i = _
      simp [hview]
    refine .inr ?_
    rw [sleep_view hi he, hview, hinside]
    exact View.ext rfl rfl rfl rfl (Function.update_idem ..)
  · cases he
    exact .inl rfl

lemma timerUpdate_view (he : timerUpdate m = (.ok u, m')) : m'.view = m.view.wake TICKS_CHAN := by
  obtain ⟨u1, m1, hset, he⟩ := T.bind_ok he
  have hview : m1.view = m.view := by
    cases hset
    rfl
  rw [wakeup_view he, hview]

end Processes

section Acts

variable {P : Profile} {E : Env} {A : TableLayout} {m m' : Machine} {ev : List Event} {i : Nat}

lemma HeadAction.refines {a : HeadAction} (h : m.view.Agrees) (hp : m.proc = none) (he : a.perform P E m = (.ok ev, m')) :
    m.view.Step ev m'.view := by
  cases a with
  | create payload =>
    obtain ⟨u, m1, hop, he⟩ := T.bind_ok he
    cases he
    obtain ⟨c, hfree, hpid, hv⟩ := create_view h.pid hop
    rw [hv]
    exact .create c hp hfree hpid
  | dispatch =>
    obtain ⟨u, m1, hop, he⟩ := T.bind_ok he
    cases he
    rcases dispatch_view h hop with ⟨-, hv⟩ | ⟨i, hi, hstate, hv⟩
    · rw [hv]
      exact .stay
    · rw [hv]
      exact .dispatch i hp hi hstate
  | tick =>
    obtain ⟨u, m1, hop, he⟩ := T.bind_ok he
    cases he
    rw [timerUpdate_view hop]
    exact .wake _

lemma wait_refines (h : m.view.Agrees) (hi : i < NPROC) (hp : m.proc = some i)
    (he : waitEvents P E A i m = (.ok ev, m')) : m.view.Step ev m'.view := by
  obtain ⟨r, m1, hop, he⟩ := T.bind_ok he
  cases he
  show m.view.Step (r.events (m'.view.slots i).pid) m'.view
  rcases wait_view hi hop with ⟨j, hj, hparent, hz, rfl, hv⟩ | ⟨rfl, hv⟩ | ⟨rfl, hkids, hv⟩
  · have hne : i ≠ j := by
      rintro rfl
      rw [(h.running i).mpr hp] at hz
      cases hz
    have hpid : (m'.view.slots i).pid = (m.view.slots i).pid := by simp [hv, View.reap, hne]
    rw [hpid, hv]
    exact .reap i j hp hj hparent hz
  · rw [hv]
    exact .leave i hp
  · rw [hv]
    exact .wait i hp hkids

lemma Call.refines {c : Call} (h : m.view.Agrees) (hi : i < NPROC) (hp : m.proc = some i) (hr : c.Ready m i)
    (he : c.perform P E A i m = (.ok ev, m')) : m.view.Step ev m'.view := by
  have hrun := (h.running i).mpr hp
  cases c with
  | fork =>
    obtain ⟨c, m1, hop, he⟩ := T.bind_ok he
    cases he
    obtain ⟨hfree, hpid, hv⟩ := fork_view h.pid hop
    have hne : i ≠ c := by
      rintro rfl
      have hunused := hfree.2.1
      rw [hrun] at hunused
      cases hunused
    have hi : (m'.view.slots i).pid = (m.view.slots i).pid := by simp [hv, hne]
    have hc : (m'.view.slots c).pid = m.view.nextPid := by simp [hv]
    show m.view.Step [.forked (m'.view.slots i).pid (m'.view.slots c).pid] m'.view
    rw [hi, hc, hv]
    exact .fork i c hp hfree hpid
  | exec file argv =>
    obtain ⟨r, m1, hop, he⟩ := T.bind_ok he
    cases he
    rw [SameSlots.onKernel (SameSlots.frame.procExec i file argv) hop]
    exact .stay
  | brk newTop =>
    obtain ⟨r, m1, hop, he⟩ := T.bind_ok he
    cases he
    rw [SameSlots.onKernel (SameSlots.frame.sysBrk i newTop) hop]
    exact .stay
  | mmap begin len =>
    obtain ⟨r, m1, hop, he⟩ := T.bind_ok he
    cases he
    rw [SameSlots.onKernel (SameSlots.sysMmap i begin len) hop]
    exact .stay
  | munmap begin len =>
    obtain ⟨r, m1, hop, he⟩ := T.bind_ok he
    cases he
    rw [SameSlots.onKernel (SameSlots.sysMunmap i begin len) hop]
    exact .stay
  | stack faultVa =>
    obtain ⟨r, m1, hop, he⟩ := T.bind_ok he
    cases he
    rw [SameSlots.onKernel (SameSlots.frame.ustackGrow i faultVa) hop]
    exact .stay
  | exit code =>
    obtain ⟨pid, m1, hpid, he⟩ := T.bind_ok he
    cases hpid
    obtain ⟨u, m1, hop, he⟩ := T.bind_ok he
    cases he
    rw [exit_view hi hrun hop]
    exact .exit i code hp
  | wait => exact wait_refines h hi hp he
  | sleep ticks =>
    obtain ⟨u, m1, hop, he⟩ := T.bind_ok he
    cases he
    obtain ⟨m0, m1, hget, hop⟩ := T.bind_ok hop
    cases hget
    obtain ⟨target, m1, hadd, hop⟩ := T.bind_ok hop
    have hv := SameSlots.onKernel .addW hadd
    rcases timerPass_view hi hop with hpass | hpass
    · rw [hpass, hv]
      exact .leave i hp
    · rw [hpass, hv]
      exact .sleep i _ _ hp nofun
  | yield =>
    obtain ⟨u, m1, hop, he⟩ := T.bind_ok he
    cases he
    rw [yieldProc_view hi hrun hop]
    exact .yield i hp
  | interrupt =>
    obtain ⟨u, m1, hop, he⟩ := T.bind_ok he
    obtain ⟨u, m2, hyield, he⟩ := T.bind_ok he
    cases he
    have hv := timerUpdate_view hop
    have hrun1 : (m1.view.slots i).state = .running := by simp [hv, Slot.woken, hrun]
    rw [yieldProc_view hi hrun1 hyield, hv]
    exact .interrupt i hp
  | block chan =>
    obtain ⟨u, m1, hop, he⟩ := T.bind_ok he
    cases he
    rw [sleep_view hi hop]
    refine .sleep i chan _ hp ?_
    rw [show m.inside i = .user from hr]
    nofun
  | wake chan =>
    obtain ⟨u, m1, hop, he⟩ := T.bind_ok he
    cases he
    rw [wakeup_view hop]
    exact .wake chan
  | resume =>
    obtain ⟨m0, m1, hget, he⟩ := T.bind_ok he
    cases hget
    cases hin : m.inside i with
    | user =>
      rw [hin] at he
      cases he
      exact .stay
    | wait =>
      rw [hin] at he
      exact wait_refines h hi hp he
    | timer target =>
      rw [hin] at he
      obtain ⟨u, m1, hop, he⟩ := T.bind_ok he
      cases he
      rcases timerPass_view hi hop with hpass | hpass
      · rw [hpass]
        exact .leave i hp
      · rw [hpass]
        exact .sleep i _ _ hp nofun

lemma View.Agrees.current_lt {v : View} (h : v.Agrees) (hp : v.current = some i) : i < NPROC := by
  by_contra hi
  have hrun := (h.running i).mpr hp
  rw [h.outside i (by omega)] at hrun
  cases hrun

/-- An act of the machine is a step of its view. -/
theorem Act.refines {act : Act} (h : m.view.Agrees) (hr : act.Ready m) (he : act.perform P E A m = (.ok ev, m')) :
    m.view.Step ev m'.view := by
  cases act with
  | head a => exact a.refines h hr.1 he
  | call i c => exact c.refines h (h.current_lt hr.1) hr.1 hr.2 he

end Acts

end Glenda.Proc
