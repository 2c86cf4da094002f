import Glenda.Proc.Families

/-!
# Zombies that go unnoticed

A process that sleeps in `wait` is woken by the exit of a child. A zombie that it inherits wakes it only if it is
also the parent of the process whose children it inherits.
-/

namespace Glenda.Proc
open Glenda.Lib Glenda.Mem

namespace View

variable {v v' : View} {tr ev : List Event} {i p j chan : Nat}

/-- The process sleeps in `wait`. -/
def Waits (v : View) (p : Nat) : Prop :=
  (v.slots p).state = .sleeping ∧ (v.slots p).sleepChan = some p ∧ v.inside p = .wait

def Noticed (v : View) : Prop := ∀ p j, v.Waits p → (v.slots j).parent = some p → (v.slots j).state ≠ .zombie

/-- If the process exits, no zombie goes to the first process while that one sleeps and is not woken. -/
def Watched (v : View) (i : Nat) : Prop :=
  (v.slots i).parent ≠ some 0 → v.Waits 0 → ∀ j, (v.slots j).parent = some i → (v.slots j).state ≠ .zombie

lemma Noticed.mono (h : v.Noticed) (hw : ∀ p, v'.Waits p → v.Waits p)
    (hz : ∀ j, (v'.slots j).state = .zombie → (v.slots j).state = .zombie ∧ (v'.slots j).parent = (v.slots j).parent) :
    v'.Noticed := by
  intro p j hp hj hzj
  obtain ⟨hzv, hpar⟩ := hz j hzj
  rw [hpar] at hj
  exact h p j (hw p hp) hj hzv

/-- One slot changes to a state other than zombie, and its process does not begin to wait. -/
lemma Noticed.update {s : Slot} (h : v.Noticed) (hslots : v'.slots = Function.update v.slots i s)
    (hs : s.state ≠ .zombie) (hi : ¬v'.Waits i) (hin : ∀ p ≠ i, v'.inside p = v.inside p) : v'.Noticed := by
  refine h.mono (fun p hp => ?_) fun j hj => ?_
  · have hne : p ≠ i := by
      rintro rfl
      exact hi hp
    unfold Waits at hp ⊢
    rw [hslots, Function.update_of_ne hne, hin p hne] at hp
    exact hp
  · rw [hslots] at hj ⊢
    have hne : j ≠ i := by
      rintro rfl
      rw [Function.update_self] at hj
      exact hs hj
    rw [Function.update_of_ne hne] at hj ⊢
    exact ⟨hj, rfl⟩

lemma Noticed.wake (h : v.Noticed) (chan : Nat) : (v.wake chan).Noticed := by
  refine h.mono (fun p hp => ?_) fun j hj => ?_
  · unfold Waits at hp ⊢
    simp only [wake_slots, mapSlots_slots, Slot.woken] at hp
    split_ifs at hp
    · cases hp.1
    · exact hp
    · exact hp
  · have hs := SameFamily.wake v chan
    exact ⟨(hs.zombie j hj).1, hs.parent j⟩

lemma Waits.of_wakeParent {o : Option Nat} (hp : p < NPROC) (h : (v.wakeParent o).Waits p) : v.Waits p ∧ o ≠ some p := by
  cases o with
  | none => exact ⟨h, nofun⟩
  | some chan =>
    unfold Waits at h ⊢
    simp only [View.wakeParent, wake_slots, mapSlots_slots, if_pos hp, Slot.woken, wake_inside] at h
    split_ifs at h with hc
    · cases h.1
    · refine ⟨h, ?_⟩
      rintro ⟨⟩
      exact hc ⟨h.1, h.2.1⟩

lemma Waits.wakeParent {o : Option Nat} (h : v.Waits p) (ho : o ≠ some p) : (v.wakeParent o).Waits p := by
  cases o with
  | none => exact h
  | some chan =>
    have hne : chan ≠ p := by
      rintro rfl
      exact ho rfl
    unfold Waits at h ⊢
    simp [View.wakeParent, Slot.woken, h, Ne.symm hne]

section Exit

variable {code : Nat} (ha : v.Agrees) (hcur : v.current = some i)

include ha hcur

lemma exit_waits : (v.exit i code).Waits p ↔ (v.wakeParent (v.slots i).parent).Waits p := by
  have hrun := (ha.running i).mpr hcur
  by_cases hp : p = i
  · subst hp
    refine iff_of_false ?_ ?_
    · intro h
      have hstate := h.1
      rw [exit_slots_self] at hstate
      cases hstate
    · intro h
      have hstate := h.1
      rw [View.wakeParent_of_awake (by rw [hrun]; decide), hrun] at hstate
      cases hstate
  · unfold Waits
    have hchan : ((v.exit i code).slots p).sleepChan = ((v.wakeParent (v.slots i).parent).slots p).sleepChan := by
      rw [exit_slots_of_ne hp]
      split_ifs
      · exact Slot.adopted_sleepChan _
      · rfl
    rw [exit_state_of_ne hp, hchan]
    rfl

lemma Noticed.exit (h : v.Noticed) (hf : v.Family tr) : (v.exit i code).Noticed ↔ v.Watched i := by
  have hrun := (ha.running i).mpr hcur
  constructor
  · intro hnew hparent hwaits j hj hz
    have hne : j ≠ i := by
      rintro rfl
      rw [hrun] at hz
      cases hz
    have hlt := ha.lt_of_zombie hz
    refine hnew 0 j ((exit_waits ha hcur).mpr (hwaits.wakeParent hparent)) ?_ ?_
    · rw [exit_parent hlt, if_pos hj]
    · rw [exit_state_of_ne hne, View.wakeParent_of_awake (by rw [hz]; decide), hz]
  · intro hwatched p j hwaits hj hz
    have hwaits' := (exit_waits ha hcur).mp hwaits
    have hlt : p < NPROC := by
      refine (ha.wakeParent (v.slots i).parent).lt_of_live ?_
      unfold Live
      rw [hwaits'.1]
      decide
    obtain ⟨hwv, hpi⟩ := hwaits'.of_wakeParent hlt
    by_cases hji : j = i
    · -- the parent of the process that exits has been woken
      subst hji
      rw [exit_parent (ha.current_lt hcur), if_neg (hf.other j (ha.live hcur))] at hj
      exact hpi hj
    · rw [exit_state_of_ne hji] at hz
      have hzv := ((SameFamily.wakeParent v _).zombie j hz).1
      rw [exit_parent (ha.lt_of_zombie hzv)] at hj
      split_ifs at hj with hadopted
      · cases hj
        exact hwatched hpi hwv j hadopted hzv
      · exact h p j hwv hj hzv

end Exit

lemma Step.noticed (hs : v.Step ev v') (hexit : ∀ i code, .exited (v.slots i).pid code ∉ ev) (ha : v.Agrees) (h : v.Noticed) :
    v'.Noticed := by
  cases hs with
  | stay => exact h
  | create c hcur hfree hpid =>
    refine h.update (i := c) rfl (by simp) (fun hw => ?_) fun p hp => ?_
    · have hstate := hw.1
      simp at hstate
    · simp [hp]
  | fork i c hcur hfree hpid =>
    refine h.update (i := c) rfl (by simp) (fun hw => ?_) fun p hp => ?_
    · have hstate := hw.1
      simp at hstate
    · simp [hp]
  | dispatch i hcur hi hstate =>
    refine h.update (i := i) rfl (by simp) (fun hw => ?_) fun p hp => rfl
    have hstate := hw.1
    simp [View.run] at hstate
  | wake chan => exact h.wake chan
  | yield i hcur =>
    refine h.update (i := i) rfl (by simp) (fun hw => ?_) fun p hp => rfl
    have hstate := hw.1
    simp [View.yield] at hstate
  | interrupt i hcur =>
    refine (h.wake TICKS_CHAN).update (i := i) rfl (by simp) (fun hw => ?_) fun p hp => rfl
    have hstate := hw.1
    simp [View.yield] at hstate
  | sleep i chan w hcur hw =>
    refine h.update (i := i) rfl (by simp) (fun hw' => ?_) fun p hp => ?_
    · have hin := hw'.2.2
      simp [View.block] at hin
      exact hw hin
    · simp [View.block, hp]
  | wait i hcur hkids =>
    intro p j hw hj hz
    have hji : j ≠ i := by
      rintro rfl
      simp [View.block] at hz
    have hslot : (v.block i i .wait).slots j = v.slots j := by simp [View.block, hji]
    rw [hslot] at hj hz
    by_cases hp : p = i
    · subst hp
      exact hkids j (ha.lt_of_zombie hz) hj hz
    · unfold Waits at hw
      simp [View.block, hp] at hw
      exact h p j hw hj hz
  | reap i j hcur hj hparent hstate =>
    refine h.mono (fun p hp => ?_) fun n hn => ?_
    · have hpj : p ≠ j := by
        rintro rfl
        have hstate := hp.1
        simp [View.reap, Slot.empty] at hstate
      have hpi : p ≠ i := by
        rintro rfl
        have hin := hp.2.2
        simp [View.reap] at hin
      unfold Waits at hp ⊢
      simpa [View.reap, hpj, hpi] using hp
    · have hnj : n ≠ j := by
        rintro rfl
        simp [View.reap, Slot.empty] at hn
      have hslot : (v.reap i j).slots n = v.slots n := by simp [View.reap, hnj]
      rw [hslot] at hn ⊢
      exact ⟨hn, rfl⟩
  | leave i hcur =>
    refine h.mono (fun p hp => ?_) fun n hn => ⟨hn, rfl⟩
    have hpi : p ≠ i := by
      rintro rfl
      have hin := hp.2.2
      simp at hin
    unfold Waits at hp ⊢
    simpa [hpi] using hp
  | exit i code hcur => exact absurd List.mem_cons_self (hexit i code)

end View

section Machine

variable {P : Profile} {E : Env} {A : TableLayout} {allowed : Machine → Act → Prop} {m₀ m m' : Machine}
  {tr ev : List Event} {act : Act} {i j c : Nat}

lemma nil_of_bind {α : Type} {x : T Machine α} (he : (do
    let _ ← x
    return []) m = (.ok ev, m')) : ev = [] := by
  obtain ⟨a, m1, -, he⟩ := T.bind_ok he
  cases he
  rfl

lemma waitEvents_exited {q code : Nat} (he : waitEvents P E A i m = (.ok ev, m')) : .exited q code ∉ ev := by
  obtain ⟨r, m1, -, he⟩ := T.bind_ok he
  cases he
  cases r <;> simp [WaitResult.events]

lemma Act.exit_of_mem {q code : Nat} (he : act.perform P E A m = (.ok ev, m')) (hmem : .exited q code ∈ ev) :
    ∃ i code, act = .call i (.exit code) := by
  cases act with
  | head a => cases a <;> rw [nil_of_bind he] at hmem <;> cases hmem
  | call i c =>
    cases c with
    | exit code => exact ⟨i, code, rfl⟩
    | fork =>
      obtain ⟨c, m1, -, he⟩ := T.bind_ok he
      cases he
      cases List.mem_singleton.mp hmem
    | wait => exact absurd hmem (waitEvents_exited he)
    | interrupt =>
      obtain ⟨u, m1, -, he⟩ := T.bind_ok he
      rw [nil_of_bind he] at hmem
      cases hmem
    | resume =>
      obtain ⟨m1, m2, hget, he⟩ := T.bind_ok he
      cases hget
      cases hin : m.inside i with
      | user =>
        rw [hin] at he
        cases he
        cases hmem
      | wait =>
        rw [hin] at he
        exact absurd hmem (waitEvents_exited he)
      | timer target =>
        rw [hin] at he
        rw [nil_of_bind he] at hmem
        cases hmem
    | exec file argv | brk newTop | mmap begin len | munmap begin len | stack faultVa | sleep ticks | yield
    | block chan | wake chan =>
      rw [nil_of_bind he] at hmem
      cases hmem

/-- No process sleeps in `wait` while one of its children is a zombie. -/
def Machine.Noticed (m : Machine) : Prop :=
  ∀ p < NPROC, (m.k.procs p).state = .sleeping → (m.k.procs p).sleepChan = some p → m.inside p = .wait →
    ∀ j < NPROC, (m.k.procs j).parent = some p → (m.k.procs j).state ≠ .zombie

/-- A process exits only if none of its children is a zombie, or its parent is the first process, or that one does
not sleep in `wait`. -/
def Watched (m : Machine) (act : Act) : Prop :=
  ∀ i code, act = .call i (.exit code) → (m.k.procs i).parent ≠ some 0 → (m.k.procs 0).state = .sleeping →
    (m.k.procs 0).sleepChan = some 0 → m.inside 0 = .wait →
    ∀ j < NPROC, (m.k.procs j).parent = some i → (m.k.procs j).state ≠ .zombie

lemma Machine.noticed_iff (ha : m.view.Agrees) : m.Noticed ↔ m.view.Noticed := by
  constructor
  · rintro h p j ⟨hs, hc, hin⟩ hj hz
    have hp : p < NPROC := by
      refine ha.lt_of_live ?_
      unfold View.Live
      rw [hs]
      decide
    exact h p hp hs hc hin j (ha.lt_of_zombie hz) hj hz
  · intro h p _ hs hc hin j _ hj hz
    exact h p j ⟨hs, hc, hin⟩ hj hz

lemma Machine.Noticed.perform (ha : m.view.Agrees) (hf : m.view.Family tr) (h : m.Noticed) (hr : act.Ready m)
    (he : act.perform P E A m = (.ok ev, m')) : m'.Noticed ↔ Watched m act := by
  have hs := Act.refines ha hr he
  rw [Machine.noticed_iff (hs.agrees ha)]
  have hv := (Machine.noticed_iff ha).mp h
  by_cases hex : ∃ i code, act = .call i (.exit code)
  · obtain ⟨i, code, rfl⟩ := hex
    have hcur : m.view.current = some i := hr.1
    obtain ⟨pid, m1, hpid, he⟩ := T.bind_ok he
    cases hpid
    obtain ⟨u, m1, hop, he⟩ := T.bind_ok he
    cases he
    rw [exit_view (ha.current_lt hcur) ((ha.running i).mpr hcur) hop, hv.exit ha hcur hf]
    constructor
    · rintro hw _ _ ⟨⟩ hparent hs hc hin j _ hj hz
      exact hw hparent ⟨hs, hc, hin⟩ j hj hz
    · intro hw hparent hwaits j hj hz
      exact hw i code rfl hparent hwaits.1 hwaits.2.1 hwaits.2.2 j (ha.lt_of_zombie hz) hj hz
  · refine iff_of_true (hs.noticed (fun i code hmem => ?_) ha hv) fun i code hact => ?_
    · exact hex (Act.exit_of_mem he hmem)
    · exact absurd ⟨i, code, hact⟩ hex

/-- Zombies are noticed as long as nobody exits with a zombie child that goes to the first process in its sleep, and
such an exit leaves it unnoticed. -/
theorem zombies_noticed (h₀ : m₀.Boot) :
    (∀ tr m, Machine.Run P E A Watched m₀ tr m → m.Noticed) ∧
    ∀ tr m, Machine.Run P E A (fun _ _ => True) m₀ tr m → m.Noticed → ∀ (act : Act) (ev : List Event) (m' : Machine),
      act.Ready m → act.perform P E A m = (.ok ev, m') → (m'.Noticed ↔ Watched m act) := by
  refine ⟨fun tr m h => ?_, fun tr m h hn act ev m' hr he => hn.perform (h.agrees h₀) (h.family h₀) hr he⟩
  induction h with
  | start =>
    intro p _ hs
    rw [h₀.procs p] at hs
    cases hs
  | step hrun hr hw he ih => exact (ih.perform (hrun.agrees h₀) (hrun.family h₀) hr he).mpr hw

/-- A test for `Watched` on runs in which no process has children but the first. -/
def watchedTest (m : Machine) : Act → Bool
  | .call i (.exit _) => (m.k.procs i).parent = some 0
  | _ => true

theorem zombies_noticed_boot : ∃ m tr, Machine.Run .dev bootEnv bootLayout Watched bootMachine tr m ∧
    (m.k.procs 1).state = .zombie ∧ (m.k.procs 0).state = .runnable ∧ m.Noticed := by
  obtain ⟨o, m, he, hc⟩ := T.exists_of_check (s := bootMachine)
    (x := performActs .dev bootEnv bootLayout watchedTest
      [.head (.create []), .head .dispatch, .call 0 .fork, .call 0 .wait, .head .dispatch, .call 1 (.exit 7)] [])
    (c := fun o m => o.isSome && (m.k.procs 1).state = .zombie && (m.k.procs 0).state = .runnable) (by decide +kernel)
  simp only [Bool.and_eq_true, decide_eq_true_eq] at hc
  obtain ⟨⟨hsome, hzombie⟩, hrunnable⟩ := hc
  obtain ⟨tr, rfl⟩ := Option.isSome_iff_exists.mp hsome
  have hrun : Machine.Run .dev bootEnv bootLayout Watched bootMachine tr m := by
    refine .of_performActs (fun m act htest i code hact hparent => ?_) .start he
    rw [hact] at htest
    exact absurd (of_decide_eq_true htest) hparent
  exact ⟨m, tr, hrun, hzombie, hrunnable, (zombies_noticed bootMachine_boot).1 tr m hrun⟩

/-- The child of a grandchild exits before its parent does. Then the first process has a zombie among its children
and sleeps. -/
theorem zombie_unnoticed : ∃ m tr, Machine.Run .dev bootEnv bootLayout (fun _ _ => True) bootMachine tr m ∧
    m.proc = none ∧ ¬m.Noticed := by
  obtain ⟨o, m, he, hc⟩ := T.exists_of_check (s := bootMachine)
    (x := performActs .dev bootEnv bootLayout (fun _ _ => true) [.head (.create []), .head .dispatch, .call 0 .fork,
      .call 0 .wait, .head .dispatch, .call 1 .fork, .call 1 .wait, .head .dispatch, .call 2 .fork, .call 2 (.sleep 1),
      .head .dispatch, .call 3 (.exit 0), .head .tick, .head .dispatch, .call 2 .resume, .call 2 (.exit 0)] [])
    (c := fun o m => o.isSome && m.proc = none && (m.k.procs 0).state = .sleeping && (m.k.procs 0).sleepChan = some 0 &&
      m.inside 0 = .wait && (m.k.procs 3).parent = some 0 && (m.k.procs 3).state = .zombie) (by decide +kernel)
  simp only [Bool.and_eq_true, decide_eq_true_eq] at hc
  obtain ⟨⟨⟨⟨⟨⟨hsome, hproc⟩, hsleeping⟩, hchan⟩, hinside⟩, hparent⟩, hzombie⟩ := hc
  obtain ⟨tr, rfl⟩ := Option.isSome_iff_exists.mp hsome
  refine ⟨m, tr, .of_performActs (fun _ _ _ => trivial) .start he, hproc, fun h => ?_⟩
  exact h 0 (by decide) hsleeping hchan hinside 3 (by decide) hparent hzombie

end Machine

end Glenda.Proc
