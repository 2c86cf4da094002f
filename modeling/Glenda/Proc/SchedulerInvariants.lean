import Glenda.Proc.SchedulerView

/-!
# What the scheduler keeps

Every step of the view keeps the bitmap in agreement with the states, and what is known about parents, pids and
exit codes. A zombie can only go unnoticed if a process exits that has one among its children.
-/

namespace Glenda.Proc
open Glenda.Lib Glenda.Mem

section Agrees

variable {v v' : View} {ev : List Event} {i chan : Nat}

namespace View.Agrees

lemma change {s : Slot} {b : Bool} (h : v.Agrees) (hi : i < NPROC) (hslots : v'.slots = Function.update v.slots i s)
    (hbits : v'.bits = Function.update v.bits i b) (hb : b = true ↔ s.state = .runnable)
    (hrun : s.state = .running ↔ v'.current = some i) (hother : ∀ j ≠ i, v'.current = some j ↔ v.current = some j)
    (hpid : v'.nextPid ≤ 2 ^ 14) : v'.Agrees := by
  refine ⟨fun j => ?_, fun j => ?_, fun j hj => ?_, hpid⟩
  · rw [hslots, hbits]
    by_cases hj : j = i
    · subst hj
      simp [hb]
    · simp [hj, h.bits j]
  · rw [hslots]
    by_cases hj : j = i
    · subst hj
      simp [hrun]
    · simp [hj, h.running j, hother j hj]
  · rw [hslots, Function.update_of_ne (by omega)]
    exact h.outside j hj

lemma wake (h : v.Agrees) (chan : Nat) : (v.wake chan).Agrees := by
  have hstate : ∀ j, ((v.wake chan).slots j).state =
      if j < NPROC ∧ (v.slots j).state = .sleeping ∧ (v.slots j).sleepChan = some chan then .runnable
      else (v.slots j).state := by
    intro j
    simp only [wake_slots, mapSlots_slots, Slot.woken]
    split_ifs <;> simp_all
  refine ⟨fun j => ?_, fun j => ?_, fun j hj => ?_, h.pid⟩
  · rw [hstate, wake_bits, Bool.or_eq_true, h.bits j]
    split_ifs with hc
    · simp [hc]
    · simp [hc]
  · rw [hstate, wake_current, ← h.running j]
    split_ifs with hc
    · simp [hc]
    · rfl
  · rw [hstate, if_neg (by omega)]
    exact h.outside j hj

lemma wakeParent (h : v.Agrees) (o : Option Nat) : (v.wakeParent o).Agrees := by
  cases o with
  | none => exact h
  | some parent => exact h.wake parent

lemma yield (h : v.Agrees) (hcur : v.current = some i) : (v.yield i).Agrees := by
  refine h.change (h.current_lt hcur) rfl rfl (by simp) ?_ (fun j hj => ?_) h.pid
  · simp [View.yield]
  · simp [View.yield, hcur, Ne.symm hj]

lemma mapSlots (h : v.Agrees) {g : Slot → Slot} (hg : ∀ s, (g s).state = s.state) : (v.mapSlots g).Agrees := by
  have hstate : ∀ j, ((v.mapSlots g).slots j).state = (v.slots j).state := by
    intro j
    rw [mapSlots_slots]
    split_ifs
    · exact hg _
    · rfl
  refine ⟨fun j => ?_, fun j => ?_, fun j hj => ?_, h.pid⟩
  · rw [hstate]
    exact h.bits j
  · rw [hstate]
    exact h.running j
  · rw [hstate]
    exact h.outside j hj

end View.Agrees

lemma Slot.adopted_state (s : Slot) : (s.adopted i).state = s.state := by
  unfold adopted
  split_ifs <;> rfl

@[simp] lemma View.wakeParent_current (o : Option Nat) : (v.wakeParent o).current = v.current := by
  cases o <;> rfl

@[simp] lemma View.wakeParent_nextPid (o : Option Nat) : (v.wakeParent o).nextPid = v.nextPid := by
  cases o <;> rfl

lemma View.Step.agrees (hs : v.Step ev v') (h : v.Agrees) : v'.Agrees := by
  cases hs with
  | stay => exact h
  | create c hcur hfree hpid =>
    refine h.change hfree.1 rfl rfl (by simp) ?_ (fun j hj => .rfl) ?_
    · simp [hcur]
    · simp only [View.spawn_nextPid]
      omega
  | fork i c hcur hfree hpid =>
    have hne : i ≠ c := by
      rintro rfl
      have hrun := (h.running i).mpr hcur
      rw [hfree.2.1] at hrun
      cases hrun
    refine h.change hfree.1 rfl rfl (by simp) ?_ (fun j hj => .rfl) ?_
    · simp [hcur, hne]
    · simp only [View.spawn_nextPid]
      omega
  | dispatch i hcur hi hstate =>
    refine h.change hi rfl rfl (by simp) ?_ (fun j hj => ?_) h.pid
    · simp [View.run]
    · simp [View.run, hcur, Ne.symm hj]
  | wake chan => exact h.wake chan
  | yield i hcur => exact h.yield hcur
  | interrupt i hcur => exact (h.wake TICKS_CHAN).yield hcur
  | sleep i chan w hcur hw =>
    refine h.change (h.current_lt hcur) rfl rfl (by simp) ?_ (fun j hj => ?_) h.pid
    · simp [View.block]
    · simp [View.block, hcur, Ne.symm hj]
  | wait i hcur hkids =>
    refine h.change (h.current_lt hcur) rfl rfl (by simp) ?_ (fun j hj => ?_) h.pid
    · simp [View.block]
    · simp [View.block, hcur, Ne.symm hj]
  | reap i j hcur hj hparent hstate =>
    have hne : i ≠ j := by
      rintro rfl
      rw [(h.running i).mpr hcur] at hstate
      cases hstate
    have hbit : v.bits j = false := by
      rw [← Bool.not_eq_true, h.bits j, hstate]
      decide
    refine h.change (b := false) hj rfl ?_ (by simp [Slot.empty]) ?_ (fun n hn => .rfl) h.pid
    · rw [← hbit]
      exact (Function.update_eq_self ..).symm
    · simp [View.reap, Slot.empty, hcur, hne]
  | leave i hcur => exact ⟨h.bits, h.running, h.outside, h.pid⟩
  | exit i code hcur =>
    have h' := (h.wakeParent (v.slots i).parent).mapSlots (Slot.adopted_state (i := i))
    refine h'.change (h.current_lt hcur) rfl rfl (by simp) ?_ (fun j hj => ?_) ?_
    · simp [View.exit]
    · simp [View.exit, hcur, Ne.symm hj]
    · simpa [View.exit] using h.pid

end Agrees

section Bitmap

variable {P : Profile} {E : Env} {A : TableLayout} {allowed : Machine → Act → Prop} {m₀ m : Machine} {tr : List Event}

lemma Machine.Boot.agrees (h : m.Boot) : m.view.Agrees := by
  have hstate : ∀ i, (m.view.slots i).state = .unused := fun i => congrArg Process.state (h.procs i)
  refine ⟨fun i => ?_, fun i => ?_, fun i _ => hstate i, ?_⟩
  · rw [hstate i]
    show m.bitmap.getLsbD i = true ↔ _
    simp [h.bitmap]
  · rw [hstate i]
    show _ ↔ m.proc = some i
    simp [h.proc]
  · show m.k.globalPid ≤ 2 ^ 14
    rw [h.globalPid]
    decide

lemma Machine.Run.agrees (h : Machine.Run P E A allowed m₀ tr m) (h0 : m₀.Boot) : m.view.Agrees := by
  induction h with
  | start => exact h0.agrees
  | step _ hr _ he ih => exact (Act.refines ih hr he).agrees ih

/-- When the scheduler looks for a process, the bitmap has exactly those that are runnable and none is running.
While a process runs, it is the only one that is running. -/
theorem bitmap_agrees (h₀ : m₀.Boot) (h : Machine.Run P E A (fun _ _ => True) m₀ tr m) :
    (m.proc = none → ∀ i < NPROC, (m.bitmap.getLsbD i = true ↔ (m.k.procs i).state = .runnable) ∧
      (m.k.procs i).state ≠ .running) ∧
    (∀ i, m.proc = some i → i < NPROC ∧ ∀ j < NPROC, (m.k.procs j).state = .running ↔ j = i) ∧
    (findRunnable m.bitmap = none → ∀ i < NPROC, (m.k.procs i).state ≠ .runnable) ∧
    ∀ i, findRunnable m.bitmap = some i → i < NPROC ∧ (m.k.procs i).state = .runnable := by
  have hv := h.agrees h₀
  refine ⟨fun hp i _ => ⟨hv.bits i, fun hrun => ?_⟩, fun i hp => ⟨hv.current_lt hp, fun j _ => ?_⟩, fun hnone i _ hstate => ?_,
    fun i hsome => ?_⟩
  · have hcur : m.proc = some i := (hv.running i).mp hrun
    rw [hp] at hcur
    cases hcur
  · have hrun : (m.k.procs j).state = .running ↔ m.proc = some j := hv.running j
    rw [hrun, hp, Option.some.injEq, eq_comm]
  · have hbit : m.bitmap.getLsbD i = true := (hv.bits i).mpr hstate
    rw [findRunnable_none hnone] at hbit
    cases hbit
  · obtain ⟨hi, hbit⟩ := findRunnable_some hsome
    exact ⟨hi, (hv.bits i).mp hbit⟩

/-- A process is preempted while another one has not run yet. -/
theorem bitmap_agrees_boot : ∃ m tr, Machine.Run .dev bootEnv bootLayout (fun _ _ => True) bootMachine tr m ∧
    findRunnable m.bitmap = some 0 ∧ (m.k.procs 0).state = .runnable ∧ (m.k.procs 1).state = .runnable := by
  obtain ⟨o, m, he, hc⟩ := T.exists_of_check (s := bootMachine)
    (x := performActs .dev bootEnv bootLayout (fun _ _ => true)
      [.head (.create []), .head (.create []), .head .dispatch, .call 0 .interrupt] [])
    (c := fun o m => o.isSome && findRunnable m.bitmap = some 0 && m.proc = none && m.bitmap.getLsbD 1)
    (by decide +kernel)
  simp only [Bool.and_eq_true, decide_eq_true_eq] at hc
  obtain ⟨⟨⟨hsome, hfind⟩, hproc⟩, hbit⟩ := hc
  obtain ⟨tr, rfl⟩ := Option.isSome_iff_exists.mp hsome
  have hrun : Machine.Run .dev bootEnv bootLayout (fun _ _ => True) bootMachine tr m :=
    .of_performActs (fun _ _ _ => trivial) .start he
  have h := bitmap_agrees bootMachine_boot hrun
  exact ⟨m, tr, hrun, hfind, (h.2.2.2 0 hfind).2, (h.1 hproc 1 (by decide)).1.mp hbit⟩

end Bitmap

end Glenda.Proc
