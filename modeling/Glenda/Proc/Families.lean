import Glenda.Proc.SchedulerInvariants

/-!
# Parents and children

What has been told on the way to a state says which process forked which and which have exited. A slot is
given to another process only after its exit has been collected, so a parent pointer never leads to a
stranger, and each exit is collected once.
-/

namespace Glenda.Proc
open Glenda.Lib Glenda.Mem

def Event.reapedPid : Event → Option Nat
  | .reaped _ child _ => some child
  | _ => none

def reapedPids (tr : List Event) : List Nat := tr.filterMap Event.reapedPid

/-- The process `q` is a child of the one in the slot `p`: that one forked it, or it is the first one and the parent
has exited. -/
def Descends (tr : List Event) (p pid q : Nat) : Prop :=
  Event.forked pid q ∈ tr ∨ p = 0 ∧ ∃ r code, Event.forked r q ∈ tr ∧ Event.exited r code ∈ tr

section Slots

variable {i : Nat} (s : Slot)

lemma Slot.adopted_pid : (s.adopted i).pid = s.pid := by
  unfold adopted
  split_ifs <;> rfl

lemma Slot.adopted_exitCode : (s.adopted i).exitCode = s.exitCode := by
  unfold adopted
  split_ifs <;> rfl

lemma Slot.adopted_sleepChan : (s.adopted i).sleepChan = s.sleepChan := by
  unfold adopted
  split_ifs <;> rfl

lemma Slot.adopted_parent : (s.adopted i).parent = if s.parent = some i then some 0 else s.parent := by
  unfold adopted
  split_ifs <;> rfl

end Slots

namespace View

def Live (v : View) (i : Nat) : Prop := (v.slots i).state ≠ .unused

structure Family (v : View) (tr : List Event) : Prop where
  parent : ∀ j p, v.Live j → (v.slots j).parent = some p → v.Live p ∧ Descends tr p (v.slots p).pid (v.slots j).pid
  first : ∀ i, v.Live i → v.Live 0
  orphan : (v.slots 0).parent = none
  other : ∀ j, v.Live j → (v.slots j).parent ≠ some j
  pid_inj : ∀ i j, v.Live i → v.Live j → (v.slots i).pid = (v.slots j).pid → i = j
  pid_lt : ∀ i, v.Live i → (v.slots i).pid < v.nextPid
  dead : ∀ j, (v.slots j).state = .zombie → Event.exited (v.slots j).pid (v.slots j).exitCode ∈ tr
  childless : ∀ j n, (v.slots j).state = .zombie → v.Live n → (v.slots n).parent = some j → j = 0
  gone : ∀ q ∈ reapedPids tr, q < v.nextPid ∧ ∀ j, v.Live j → (v.slots j).pid ≠ q
  once : (reapedPids tr).Nodup

variable {v v' : View} {tr ev : List Event} {i j c : Nat}

/-- What a family depends on. -/
structure SameFamily (v v' : View) : Prop where
  live : ∀ i, v'.Live i ↔ v.Live i
  parent : ∀ i, (v'.slots i).parent = (v.slots i).parent
  pid : ∀ i, (v'.slots i).pid = (v.slots i).pid
  zombie : ∀ i, (v'.slots i).state = .zombie → (v.slots i).state = .zombie ∧ (v'.slots i).exitCode = (v.slots i).exitCode
  nextPid : v'.nextPid = v.nextPid

lemma SameFamily.refl (v : View) : SameFamily v v := ⟨fun _ => .rfl, fun _ => rfl, fun _ => rfl, fun _ h => ⟨h, rfl⟩, rfl⟩

lemma SameFamily.trans {v'' : View} (h : SameFamily v v') (h' : SameFamily v' v'') : SameFamily v v'' where
  live i := (h'.live i).trans (h.live i)
  parent i := (h'.parent i).trans (h.parent i)
  pid i := (h'.pid i).trans (h.pid i)
  zombie i hz := ⟨(h.zombie i (h'.zombie i hz).1).1, (h'.zombie i hz).2.trans (h.zombie i (h'.zombie i hz).1).2⟩
  nextPid := h'.nextPid.trans h.nextPid

/-- The state of one slot changes, between states that are neither unused nor zombie. -/
lemma SameFamily.of_update {s : Slot} (hslots : v'.slots = Function.update v.slots i s) (hpid : v'.nextPid = v.nextPid)
    (hl : v.Live i) (hs : s.state ≠ .unused) (hz : s.state ≠ .zombie) (hp : s.parent = (v.slots i).parent)
    (hq : s.pid = (v.slots i).pid) : SameFamily v v' := by
  refine ⟨fun j => ?_, fun j => ?_, fun j => ?_, fun j hj => ?_, hpid⟩
  · unfold Live
    rw [hslots]
    by_cases hj : j = i
    · subst hj
      unfold Live at hl
      simp [hs, hl]
    · simp [hj]
  · rw [hslots]
    by_cases hj : j = i
    · subst hj
      simp [hp]
    · simp [hj]
  · rw [hslots]
    by_cases hj : j = i
    · subst hj
      simp [hq]
    · simp [hj]
  · rw [hslots] at hj ⊢
    by_cases hji : j = i
    · subst hji
      rw [Function.update_self] at hj
      exact absurd hj hz
    · rw [Function.update_of_ne hji] at hj ⊢
      exact ⟨hj, rfl⟩

lemma SameFamily.wake (v : View) (chan : Nat) : SameFamily v (v.wake chan) := by
  have hslot : ∀ j, (v.wake chan).slots j = v.slots j ∨ (v.slots j).state = .sleeping ∧
      (v.wake chan).slots j = { v.slots j with state := .runnable, sleepChan := none } := by
    intro j
    simp only [wake_slots, mapSlots_slots, Slot.woken]
    split_ifs with hj hs
    · exact .inr ⟨hs.1, rfl⟩
    · exact .inl rfl
    · exact .inl rfl
  refine ⟨fun j => ?_, fun j => ?_, fun j => ?_, fun j hj => ?_, rfl⟩
  · unfold Live
    rcases hslot j with h | ⟨hs, h⟩
    · rw [h]
    · rw [h, hs]
      exact iff_of_true (fun hc => by cases hc) fun hc => by cases hc
  · rcases hslot j with h | ⟨-, h⟩ <;> rw [h]
  · rcases hslot j with h | ⟨-, h⟩ <;> rw [h]
  · rcases hslot j with h | ⟨-, h⟩
    · rw [h] at hj ⊢
      exact ⟨hj, rfl⟩
    · rw [h] at hj
      cases hj

lemma SameFamily.wakeParent (v : View) (o : Option Nat) : SameFamily v (v.wakeParent o) := by
  cases o with
  | none => exact .refl v
  | some parent => exact .wake v parent

lemma Family.same (h : v.Family tr) (hs : SameFamily v v') : v'.Family tr where
  parent j p hj hp := by
    rw [hs.parent] at hp
    rw [hs.live, hs.pid, hs.pid]
    exact h.parent j p ((hs.live j).mp hj) hp
  first i hi := (hs.live 0).mpr (h.first i ((hs.live i).mp hi))
  orphan := (hs.parent 0).trans h.orphan
  other j hj := by
    rw [hs.parent]
    exact h.other j ((hs.live j).mp hj)
  pid_inj i j hi hj he := by
    rw [hs.pid, hs.pid] at he
    exact h.pid_inj i j ((hs.live i).mp hi) ((hs.live j).mp hj) he
  pid_lt i hi := by
    rw [hs.pid, hs.nextPid]
    exact h.pid_lt i ((hs.live i).mp hi)
  dead j hj := by
    obtain ⟨hz, hcode⟩ := hs.zombie j hj
    rw [hs.pid, hcode]
    exact h.dead j hz
  childless j n hj hn hp := by
    rw [hs.parent] at hp
    exact h.childless j n (hs.zombie j hj).1 ((hs.live n).mp hn) hp
  gone q hq := by
    rw [hs.nextPid]
    refine ⟨(h.gone q hq).1, fun j hj => ?_⟩
    rw [hs.pid]
    exact (h.gone q hq).2 j ((hs.live j).mp hj)
  once := h.once

lemma Descends.mono {p pid q : Nat} (ev : List Event) (h : Descends tr p pid q) : Descends (ev ++ tr) p pid q := by
  rcases h with h | ⟨hp, r, code, hf, he⟩
  · exact .inl (List.mem_append_right _ h)
  · exact .inr ⟨hp, r, code, List.mem_append_right _ hf, List.mem_append_right _ he⟩

lemma Family.tell (h : v.Family tr) (hev : reapedPids ev = []) : v.Family (ev ++ tr) where
  parent j p hj hp := ⟨(h.parent j p hj hp).1, Descends.mono ev (h.parent j p hj hp).2⟩
  first := h.first
  orphan := h.orphan
  other := h.other
  pid_inj := h.pid_inj
  pid_lt := h.pid_lt
  dead j hj := List.mem_append_right _ (h.dead j hj)
  childless := h.childless
  gone q hq := by
    unfold reapedPids at hq hev
    rw [List.filterMap_append, hev, List.nil_append] at hq
    exact h.gone q hq
  once := by
    unfold reapedPids at hev ⊢
    rw [List.filterMap_append, hev, List.nil_append]
    exact h.once

lemma Family.spawn {o : Option Nat} (h : v.Family tr) (hfree : v.FirstFree c) (hpid : v.nextPid < 2 ^ 14)
    (ho : ∀ p, o = some p → Event.forked (v.slots p).pid v.nextPid ∈ tr ∧ (v.slots p).state = .running) :
    (v.spawn c o).Family tr := by
  have hrunning : ∀ p, o = some p → v.Live p := by
    intro p hp
    unfold Live
    rw [(ho p hp).2]
    decide
  have hnext : (v.nextPid + 1) % 2 ^ 64 = v.nextPid + 1 := Nat.mod_eq_of_lt (by omega)
  have hslot : ∀ j, j ≠ c → (v.spawn c o).slots j = v.slots j := fun j hj => by simp [hj]
  have hnew : (v.spawn c o).slots c = ⟨.runnable, o, 0, none, v.nextPid⟩ := by simp
  have hlive : ∀ j, j ≠ c → ((v.spawn c o).Live j ↔ v.Live j) := by
    intro j hj
    unfold Live
    rw [hslot j hj]
  have hc : (v.spawn c o).Live c := by
    unfold Live
    rw [hnew]
    nofun
  have hkeep : ∀ j, v.Live j → j ≠ c := by
    rintro j hj rfl
    exact hj hfree.2.1
  refine ⟨fun j p hj hp => ?_, fun i _ => ?_, ?_, fun j hj => ?_, fun i j hi hj he => ?_, fun i hi => ?_, fun j hj => ?_,
    fun j n hj hn hp => ?_, fun q hq => ?_, h.once⟩
  · by_cases hjc : j = c
    · subst hjc
      rw [hnew] at hp ⊢
      have hlp := hrunning p hp
      refine ⟨(hlive p (hkeep p hlp)).mpr hlp, .inl ?_⟩
      rw [hslot p (hkeep p hlp)]
      exact (ho p hp).1
    · rw [hslot j hjc] at hp ⊢
      obtain ⟨hlp, hd⟩ := h.parent j p ((hlive j hjc).mp hj) hp
      refine ⟨(hlive p (hkeep p hlp)).mpr hlp, ?_⟩
      rw [hslot p (hkeep p hlp)]
      exact hd
  · by_cases h0 : c = 0
    · subst h0
      exact hc
    · have hzero := hfree.2.2 0 (by omega)
      exact (hlive 0 (Ne.symm h0)).mpr hzero
  · by_cases h0 : c = 0
    · subst h0
      rw [hnew]
      cases ho' : o with
      | none => rfl
      | some p =>
        exact absurd hfree.2.1 (h.first p (hrunning p ho'))
    · rw [hslot 0 (Ne.symm h0)]
      exact h.orphan
  · by_cases hjc : j = c
    · subst hjc
      rw [hnew]
      exact fun hp => hkeep j (hrunning j hp) rfl
    · rw [hslot j hjc]
      exact h.other j ((hlive j hjc).mp hj)
  · by_cases hic : i = c
    · by_cases hjc : j = c
      · rw [hic, hjc]
      · subst hic
        rw [hnew, hslot j hjc] at he
        have hlt := h.pid_lt j ((hlive j hjc).mp hj)
        exact absurd he (by dsimp only; omega)
    · by_cases hjc : j = c
      · subst hjc
        rw [hnew, hslot i hic] at he
        have hlt := h.pid_lt i ((hlive i hic).mp hi)
        exact absurd he (by dsimp only; omega)
      · rw [hslot i hic, hslot j hjc] at he
        exact h.pid_inj i j ((hlive i hic).mp hi) ((hlive j hjc).mp hj) he
  · rw [spawn_nextPid, hnext]
    by_cases hic : i = c
    · subst hic
      rw [hnew]
      exact Nat.lt_succ_self _
    · rw [hslot i hic]
      exact Nat.lt_succ_of_lt (h.pid_lt i ((hlive i hic).mp hi))
  · by_cases hjc : j = c
    · subst hjc
      rw [hnew] at hj
      cases hj
    · rw [hslot j hjc] at hj ⊢
      exact h.dead j hj
  · by_cases hjc : j = c
    · subst hjc
      rw [hnew] at hj
      cases hj
    · rw [hslot j hjc] at hj
      by_cases hnc : n = c
      · subst hnc
        rw [hnew] at hp
        rw [(ho j hp).2] at hj
        cases hj
      · rw [hslot n hnc] at hp
        exact h.childless j n hj ((hlive n hnc).mp hn) hp
  · obtain ⟨hlt, hother⟩ := h.gone q hq
    rw [spawn_nextPid, hnext]
    refine ⟨Nat.lt_succ_of_lt hlt, fun j hj => ?_⟩
    by_cases hjc : j = c
    · subst hjc
      rw [hnew]
      exact fun he => absurd he (by dsimp only; omega)
    · rw [hslot j hjc]
      exact hother j ((hlive j hjc).mp hj)

lemma Family.reap (h : v.Family tr) (hp : (v.slots j).parent = some i) (hz : (v.slots j).state = .zombie) :
    (v.reap i j).Family (.reaped (v.slots i).pid (v.slots j).pid (v.slots j).exitCode :: tr) := by
  have hlj : v.Live j := by
    unfold Live
    rw [hz]
    decide
  have hslot : ∀ n, n ≠ j → (v.reap i j).slots n = v.slots n := fun n hn => by simp [View.reap, hn]
  have hlive : ∀ n, (v.reap i j).Live n → n ≠ j ∧ v.Live n := by
    intro n hn
    have hne : n ≠ j := by
      rintro rfl
      exact hn (by simp [View.reap, Slot.empty])
    unfold Live at hn
    rw [hslot n hne] at hn
    exact ⟨hne, hn⟩
  have hback : ∀ n, n ≠ j → v.Live n → (v.reap i j).Live n := by
    intro n hn hl
    unfold Live
    rwa [hslot n hn]
  have h0 : j ≠ 0 := by
    rintro rfl
    rw [h.orphan] at hp
    cases hp
  have hpids : reapedPids (.reaped (v.slots i).pid (v.slots j).pid (v.slots j).exitCode :: tr) =
      (v.slots j).pid :: reapedPids tr := rfl
  refine ⟨fun n p hn hnp => ?_, fun n hn => ?_, ?_, fun n hn => ?_, fun n n' hn hn' he => ?_, fun n hn => ?_, fun n hn => ?_,
    fun n n' hn hn' hnp => ?_, fun q hq => ?_, ?_⟩
  · obtain ⟨hne, hl⟩ := hlive n hn
    rw [hslot n hne] at hnp ⊢
    obtain ⟨hlp, hd⟩ := h.parent n p hl hnp
    have hpj : p ≠ j := by
      rintro rfl
      exact h0 (h.childless p n hz hl hnp)
    rw [hslot p hpj]
    exact ⟨hback p hpj hlp, Descends.mono [_] hd⟩
  · exact hback 0 (Ne.symm h0) (h.first n (hlive n hn).2)
  · rw [hslot 0 (Ne.symm h0)]
    exact h.orphan
  · obtain ⟨hne, hl⟩ := hlive n hn
    rw [hslot n hne]
    exact h.other n hl
  · obtain ⟨hne, hl⟩ := hlive n hn
    obtain ⟨hne', hl'⟩ := hlive n' hn'
    rw [hslot n hne, hslot n' hne'] at he
    exact h.pid_inj n n' hl hl' he
  · obtain ⟨hne, hl⟩ := hlive n hn
    rw [hslot n hne]
    exact h.pid_lt n hl
  · have hne : n ≠ j := by
      rintro rfl
      simp [View.reap, Slot.empty] at hn
    rw [hslot n hne] at hn ⊢
    exact List.mem_cons_of_mem _ (h.dead n hn)
  · have hne : n ≠ j := by
      rintro rfl
      simp [View.reap, Slot.empty] at hn
    obtain ⟨hne', hl'⟩ := hlive n' hn'
    rw [hslot n hne] at hn
    rw [hslot n' hne'] at hnp
    exact h.childless n n' hn hl' hnp
  · rw [hpids] at hq
    rcases List.mem_cons.mp hq with rfl | hq
    · refine ⟨h.pid_lt j hlj, fun n hn he => ?_⟩
      obtain ⟨hne, hl⟩ := hlive n hn
      rw [hslot n hne] at he
      exact hne (h.pid_inj n j hl hlj he)
    · refine ⟨(h.gone q hq).1, fun n hn => ?_⟩
      obtain ⟨hne, hl⟩ := hlive n hn
      rw [hslot n hne]
      exact (h.gone q hq).2 n hl
  · rw [hpids]
    refine List.nodup_cons.mpr ⟨fun hmem => ?_, h.once⟩
    exact (h.gone _ hmem).2 j hlj rfl

lemma Agrees.live (h : v.Agrees) (hcur : v.current = some i) : v.Live i := by
  unfold Live
  rw [(h.running i).mpr hcur]
  decide

lemma Agrees.lt_of_live (h : v.Agrees) (hl : v.Live i) : i < NPROC := by
  by_contra hge
  exact hl (h.outside i (by omega))

lemma Agrees.lt_of_zombie (h : v.Agrees) (hz : (v.slots i).state = .zombie) : i < NPROC := by
  refine h.lt_of_live ?_
  unfold Live
  rw [hz]
  decide

section Exit

variable {code n : Nat}

lemma exit_slots_self : (v.exit i code).slots i = { (v.slots i).adopted i with state := .zombie, exitCode := code } := by
  simp [View.exit]

lemma exit_slots_of_ne (hn : n ≠ i) : (v.exit i code).slots n =
    if n < NPROC then ((v.wakeParent (v.slots i).parent).slots n).adopted i
    else (v.wakeParent (v.slots i).parent).slots n := by
  simp [View.exit, hn]

lemma exit_state_of_ne (hn : n ≠ i) :
    ((v.exit i code).slots n).state = ((v.wakeParent (v.slots i).parent).slots n).state := by
  rw [exit_slots_of_ne hn]
  split_ifs
  · exact Slot.adopted_state _
  · rfl

lemma exit_exitCode_of_ne (hn : n ≠ i) :
    ((v.exit i code).slots n).exitCode = ((v.wakeParent (v.slots i).parent).slots n).exitCode := by
  rw [exit_slots_of_ne hn]
  split_ifs
  · exact Slot.adopted_exitCode _
  · rfl

lemma exit_pid : ((v.exit i code).slots n).pid = (v.slots n).pid := by
  by_cases hn : n = i
  · subst hn
    rw [exit_slots_self]
    exact Slot.adopted_pid _
  · rw [exit_slots_of_ne hn, ← (SameFamily.wakeParent v (v.slots i).parent).pid n]
    split_ifs
    · exact Slot.adopted_pid _
    · rfl

lemma exit_live (hl : v.Live i) : (v.exit i code).Live n ↔ v.Live n := by
  by_cases hn : n = i
  · subst hn
    refine iff_of_true ?_ hl
    unfold Live
    rw [exit_slots_self]
    nofun
  · unfold Live
    rw [exit_state_of_ne hn]
    exact (SameFamily.wakeParent v _).live n

lemma exit_parent (hn : n < NPROC) : ((v.exit i code).slots n).parent =
    if (v.slots n).parent = some i then some 0 else (v.slots n).parent := by
  by_cases hni : n = i
  · subst hni
    rw [exit_slots_self]
    exact Slot.adopted_parent _
  · rw [exit_slots_of_ne hni, if_pos hn, ← (SameFamily.wakeParent v (v.slots i).parent).parent n]
    exact Slot.adopted_parent _

lemma exit_nextPid : (v.exit i code).nextPid = v.nextPid := by simp [View.exit]

lemma Family.exit (h : v.Family tr) (ha : v.Agrees) (hcur : v.current = some i) :
    (v.exit i code).Family (.exited (v.slots i).pid code :: tr) := by
  have hli := ha.live hcur
  have hw := SameFamily.wakeParent v (v.slots i).parent
  have hlive : ∀ n, (v.exit i code).Live n → v.Live n := fun n hn => (exit_live hli).mp hn
  refine ⟨fun j p hj hp => ?_, fun n hn => ?_, ?_, fun n hn hp => ?_, fun n n' hn hn' he => ?_, fun n hn => ?_,
    fun n hn => ?_, fun n n' hn hn' hp => ?_, fun q hq => ?_, h.once⟩
  · have hlj := hlive j hj
    rw [exit_parent (ha.lt_of_live hlj)] at hp
    rw [exit_live hli, exit_pid, exit_pid]
    split_ifs at hp with hpi
    · cases hp
      refine ⟨h.first i hli, .inr ⟨rfl, ?_⟩⟩
      rcases (h.parent j i hlj hpi).2 with hf | ⟨-, r, code', hf, he⟩
      · exact ⟨_, code, List.mem_cons_of_mem _ hf, List.mem_cons_self⟩
      · exact ⟨r, code', List.mem_cons_of_mem _ hf, List.mem_cons_of_mem _ he⟩
    · obtain ⟨hlp, hd⟩ := h.parent j p hlj hp
      exact ⟨hlp, Descends.mono [_] hd⟩
  · exact (exit_live hli).mpr (h.first n (hlive n hn))
  · rw [exit_parent (by decide), h.orphan]
    rfl
  · have hln := hlive n hn
    rw [exit_parent (ha.lt_of_live hln)] at hp
    split_ifs at hp with hpi
    · cases hp
      rw [h.orphan] at hpi
      cases hpi
    · exact h.other n hln hp
  · rw [exit_pid, exit_pid] at he
    exact h.pid_inj n n' (hlive n hn) (hlive n' hn') he
  · rw [exit_pid, exit_nextPid]
    exact h.pid_lt n (hlive n hn)
  · rw [exit_pid]
    by_cases hni : n = i
    · subst hni
      rw [exit_slots_self]
      exact List.mem_cons_self
    · rw [exit_state_of_ne hni] at hn
      obtain ⟨hz, hcode⟩ := hw.zombie n hn
      rw [exit_exitCode_of_ne hni, hcode]
      exact List.mem_cons_of_mem _ (h.dead n hz)
  · have hln := hlive n' hn'
    rw [exit_parent (ha.lt_of_live hln)] at hp
    split_ifs at hp with hpi
    · cases hp
      rfl
    · have hni : n ≠ i := by
        rintro rfl
        exact hpi hp
      rw [exit_state_of_ne hni] at hn
      exact h.childless n n' (hw.zombie n hn).1 hln hp
  · obtain ⟨hlt, hother⟩ := h.gone q hq
    rw [exit_nextPid]
    refine ⟨hlt, fun n hn => ?_⟩
    rw [exit_pid]
    exact hother n (hlive n hn)

end Exit

/-- What a step is to a family. -/
inductive FamilyStep (v : View) : List Event → View → Prop
  | same {v' : View} (h : SameFamily v v') : FamilyStep v [] v'
  | spawn (c : Nat) (o : Option Nat) (ev : List Event) (hfree : v.FirstFree c) (hpid : v.nextPid < 2 ^ 14)
      (hev : reapedPids ev = [])
      (ho : ∀ p, o = some p → Event.forked (v.slots p).pid v.nextPid ∈ ev ∧ (v.slots p).state = .running) :
      FamilyStep v ev (v.spawn c o)
  | reap (i j : Nat) (hcur : v.current = some i) (hj : j < NPROC) (hparent : (v.slots j).parent = some i)
      (hstate : (v.slots j).state = .zombie) :
      FamilyStep v [.reaped (v.slots i).pid (v.slots j).pid (v.slots j).exitCode] (v.reap i j)
  | exit (i code : Nat) (hcur : v.current = some i) : FamilyStep v [.exited (v.slots i).pid code] (v.exit i code)

lemma Step.familyStep (hs : v.Step ev v') (ha : v.Agrees) : v.FamilyStep ev v' := by
  cases hs with
  | stay => exact .same (.refl v)
  | create c hcur hfree hpid => exact .spawn c none [] hfree hpid rfl nofun
  | fork i c hcur hfree hpid =>
    refine .spawn c (some i) _ hfree hpid rfl ?_
    rintro _ ⟨⟩
    exact ⟨List.mem_cons_self, (ha.running i).mpr hcur⟩
  | dispatch i hcur hi hstate =>
    have hl : v.Live i := by
      unfold Live
      rw [hstate]
      decide
    exact .same (.of_update rfl rfl hl nofun nofun rfl rfl)
  | wake chan => exact .same (.wake v chan)
  | yield i hcur => exact .same (.of_update rfl rfl (ha.live hcur) nofun nofun rfl rfl)
  | interrupt i hcur =>
    have hwake := SameFamily.wake v TICKS_CHAN
    exact .same (hwake.trans (.of_update rfl rfl ((hwake.live i).mpr (ha.live hcur)) nofun nofun rfl rfl))
  | sleep i chan w hcur hw => exact .same (.of_update rfl rfl (ha.live hcur) nofun nofun rfl rfl)
  | wait i hcur hkids => exact .same (.of_update rfl rfl (ha.live hcur) nofun nofun rfl rfl)
  | reap i j hcur hj hparent hstate => exact .reap i j hcur hj hparent hstate
  | leave i hcur => exact .same ⟨fun _ => .rfl, fun _ => rfl, fun _ => rfl, fun _ hz => ⟨hz, rfl⟩, rfl⟩
  | exit i code hcur => exact .exit i code hcur

lemma FamilyStep.family (hs : v.FamilyStep ev v') (ha : v.Agrees) (h : v.Family tr) : v'.Family (ev ++ tr) := by
  cases hs with
  | same hs => exact h.same hs
  | spawn c o ev hfree hpid hev ho =>
    refine (h.tell hev).spawn hfree hpid fun p hp => ?_
    exact ⟨List.mem_append_left _ (ho p hp).1, (ho p hp).2⟩
  | reap i j hcur hj hparent hstate => exact h.reap hparent hstate
  | exit i code hcur => exact h.exit ha hcur

/-- A slot becomes free only when the exit of its process is collected by its parent. -/
lemma FamilyStep.freed (hs : v.FamilyStep ev v') (ha : v.Agrees) (hl : v.Live j) (hfree : ¬v'.Live j) :
    ∃ i, v.current = some i ∧ (v.slots j).parent = some i ∧ (v.slots j).state = .zombie ∧
      ev = [.reaped (v.slots i).pid (v.slots j).pid (v.slots j).exitCode] := by
  cases hs with
  | same hs => exact absurd ((hs.live j).mpr hl) hfree
  | spawn c o ev hfirst hpid hev ho =>
    refine absurd ?_ hfree
    unfold Live at hl ⊢
    by_cases hj : j = c
    · simp [hj]
    · simpa [hj] using hl
  | reap i n hcur hn hparent hstate =>
    have hjn : j = n := by
      by_contra hne
      refine hfree ?_
      unfold Live at hl ⊢
      simpa [View.reap, hne] using hl
    subst hjn
    exact ⟨i, hcur, hparent, hstate, rfl⟩
  | exit i code hcur => exact absurd ((exit_live (ha.live hcur)).mpr hl) hfree

lemma FamilyStep.reaped {q code : Nat} (hs : v.FamilyStep ev v') (hmem : .reaped q c code ∈ ev) :
    ∃ i j, v.current = some i ∧ (v.slots i).pid = q ∧ j < NPROC ∧ (v.slots j).pid = c ∧ (v.slots j).exitCode = code ∧
      (v.slots j).state = .zombie ∧ (v.slots j).parent = some i := by
  cases hs with
  | same hs => cases hmem
  | spawn n o ev hfree hpid hev ho =>
    have hin : c ∈ reapedPids ev := List.mem_filterMap.mpr ⟨_, hmem, rfl⟩
    rw [hev] at hin
    cases hin
  | reap i j hcur hj hparent hstate =>
    cases List.mem_singleton.mp hmem
    exact ⟨i, j, hcur, rfl, hj, rfl, rfl, hstate, hparent⟩
  | exit i code' hcur => cases List.mem_singleton.mp hmem

end View

section Collected

variable {P : Profile} {E : Env} {A : TableLayout} {allowed : Machine → Act → Prop} {m₀ m : Machine} {tr : List Event}

lemma Machine.Boot.family (h : m.Boot) : m.view.Family [] := by
  have hslot : ∀ i, m.view.slots i = Slot.empty := by
    intro i
    rw [Machine.view_slots, h.procs i]
    rfl
  have hdead : ∀ i, ¬m.view.Live i := by
    intro i hl
    exact hl (by rw [hslot i]; rfl)
  refine ⟨fun j _ hj => absurd hj (hdead j), fun i hi => absurd hi (hdead i), by rw [hslot 0]; rfl,
    fun j hj => absurd hj (hdead j), fun i _ hi => absurd hi (hdead i), fun i hi => absurd hi (hdead i), fun j hj => ?_, fun j n hj => ?_, nofun, .nil⟩
  · rw [hslot j] at hj
    cases hj
  · rw [hslot j] at hj
    cases hj

lemma Machine.Run.family (h : Machine.Run P E A allowed m₀ tr m) (h0 : m₀.Boot) : m.view.Family tr := by
  induction h with
  | start => exact h0.family
  | step hrun hr _ he ih =>
    have ha := hrun.agrees h0
    exact ((Act.refines ha hr he).familyStep ha).family ha ih

/-- Each exit is collected at most once, by the parent, and only that frees a slot. A parent pointer leads to a
slot that is in use. -/
theorem exits_collected (h₀ : m₀.Boot) (h : Machine.Run P E A (fun _ _ => True) m₀ tr m) :
    (∀ j < NPROC, (m.k.procs j).state ≠ .unused → ∀ p, (m.k.procs j).parent = some p →
      p < NPROC ∧ (m.k.procs p).state ≠ .unused) ∧
    (∀ (act : Act) (ev : List Event) (m' : Machine), act.Ready m → act.perform P E A m = (.ok ev, m') →
      (∀ q c code, .reaped q c code ∈ ev → ∃ i j, m.proc = some i ∧ (m.k.procs i).pid = q ∧ j < NPROC ∧
        (m.k.procs j).pid = c ∧ (m.k.procs j).exitCode = code ∧ (m.k.procs j).state = .zombie ∧
        (m.k.procs j).parent = some i ∧ .exited c code ∈ tr ∧ Descends tr i q c) ∧
      ∀ j < NPROC, (m.k.procs j).state ≠ .unused → (m'.k.procs j).state = .unused →
        ∃ i, m.proc = some i ∧ (m.k.procs j).parent = some i ∧
          ev = [.reaped (m.k.procs i).pid (m.k.procs j).pid (m.k.procs j).exitCode]) ∧
    (reapedPids tr).Nodup := by
  have ha := h.agrees h₀
  have hf := h.family h₀
  refine ⟨fun j _ hj p hp => ⟨ha.lt_of_live (hf.parent j p hj hp).1, (hf.parent j p hj hp).1⟩, fun act ev m' hr he => ?_, hf.once⟩
  have hs := (Act.refines ha hr he).familyStep ha
  refine ⟨fun q c code hmem => ?_, fun j _ hj hfree => ?_⟩
  · obtain ⟨i, j, hcur, hq, hj, hc, hcode, hz, hp⟩ := hs.reaped hmem
    refine ⟨i, j, hcur, hq, hj, hc, hcode, hz, hp, ?_, ?_⟩
    · rw [← hc, ← hcode]
      exact hf.dead j hz
    · have hl : m.view.Live j := by
        unfold View.Live
        rw [hz]
        decide
      rw [← hq, ← hc]
      exact (hf.parent j i hl hp).2
  · obtain ⟨i, hcur, hp, -, hev⟩ := hs.freed ha hj (fun hl => hl hfree)
    exact ⟨i, hcur, hp, hev⟩

/-- A child exits with the code 7 while its parent waits for it. -/
theorem exits_collected_boot : ∃ m, Machine.Run .dev bootEnv bootLayout (fun _ _ => True) bootMachine
    [.reaped 1 2 7, .exited 2 7, .forked 1 2] m ∧ (m.k.procs 1).state = .unused ∧
      (reapedPids [.reaped 1 2 7, .exited 2 7, .forked 1 2]).Nodup := by
  obtain ⟨o, m, he, hc⟩ := T.exists_of_check (s := bootMachine)
    (x := performActs .dev bootEnv bootLayout (fun _ _ => true) [.head (.create []), .head .dispatch, .call 0 .fork,
      .call 0 .wait, .head .dispatch, .call 1 (.exit 7), .head .dispatch, .call 0 .resume] [])
    (c := fun o m => o = some [.reaped 1 2 7, .exited 2 7, .forked 1 2] && (m.k.procs 1).state = .unused)
    (by decide +kernel)
  simp only [Bool.and_eq_true, decide_eq_true_eq] at hc
  obtain ⟨rfl, hunused⟩ := hc
  have hrun : Machine.Run .dev bootEnv bootLayout (fun _ _ => True) bootMachine _ m :=
    .of_performActs (fun _ _ _ => trivial) .start he
  exact ⟨m, hrun, hunused, (exits_collected bootMachine_boot hrun).2.2⟩

end Collected

end Glenda.Proc
