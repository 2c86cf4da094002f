import Glenda.Proc.SchedulerView

/-!
# The locks of process management

`BITMAP_LOCK` is always taken before `PROC_TABLE`. `find_proc_index` takes `PROC_TABLE`, and `wait` and `sleep` call it
while they hold that lock, so a process that has to sleep locks itself out.
-/

namespace Glenda.Proc
open Glenda.Lib Glenda.Mem

section Quiet

variable {α β : Type} (Q : Lock × List Lock → Prop) (past : List (Lock × List Lock)) {x : T Machine α}

/-- The attempts since `past` meet `Q`. -/
def Tried (m : Machine) : Prop := ∃ l, m.attempts = l ++ past ∧ ∀ a ∈ l, Q a

/-- From a state in which the locks `h` are held, all attempts meet `Q`, and in the end the same locks are held. -/
def Quiet (h : List Lock) (x : T Machine α) : Prop :=
  T.Spec (fun m => m.held = h ∧ Tried Q past m) x (fun _ m => m.held = h ∧ Tried Q past m) (Tried Q past)

namespace Quiet

variable {Q past} {h : List Lock} {i : Nat}

lemma pure (a : α) : Quiet Q past h (pure a) := T.Spec.pure fun _ hm => hm

lemma bind {f : α → T Machine β} (hx : Quiet Q past h x) (hf : ∀ a, Quiet Q past h (f a)) :
    Quiet Q past h (x >>= f) := T.Spec.bind hx hf

lemma ite {c : Prop} [Decidable c] {y : T Machine α} (hx : Quiet Q past h x) (hy : Quiet Q past h y) :
    Quiet Q past h (if c then x else y) := T.Spec.ite (fun _ => hx) fun _ => hy

lemma get : Quiet Q past h get := T.Spec.get fun _ hm => hm

lemma modify {g : Machine → Machine} (hheld : ∀ m, (g m).held = m.held) (hatt : ∀ m, (g m).attempts = m.attempts) :
    Quiet Q past h (modify g) := by
  refine T.Spec.modify fun m hm => ⟨(hheld m).trans hm.1, ?_⟩
  obtain ⟨l, hl, hq⟩ := hm.2
  exact ⟨l, (hatt m).trans hl, hq⟩

lemma onKernel (x : K Kernel α) : Quiet Q past h (onKernel x) := by
  intro m hm
  unfold Proc.onKernel
  cases x m.k with
  | error p => exact hm.2
  | ok r => exact hm

lemma withLock {l : Lock} (hq : Q (l, h)) (hx : Quiet Q past (l :: h) x) :
    Quiet Q past h (withLock l x) := by
  have hlock : T.Spec (fun m => m.held = h ∧ Tried Q past m) (lock l) (fun _ m => m.held = l :: h ∧ Tried Q past m)
      (Tried Q past) := by
    refine T.Spec.modify fun m hm => ⟨congrArg (l :: ·) hm.1, ?_⟩
    obtain ⟨t, ht, hall⟩ := hm.2
    refine ⟨(l, m.held) :: t, congrArg ((l, m.held) :: ·) ht, fun a ha => ?_⟩
    rcases List.mem_cons.mp ha with rfl | ha
    · rw [hm.1]
      exact hq
    · exact hall a ha
  have hunlock : T.Spec (fun m => m.held = l :: h ∧ Tried Q past m) unlock (fun _ m => m.held = h ∧ Tried Q past m)
      (Tried Q past) := T.Spec.modify fun m hm => ⟨congrArg List.tail hm.1, hm.2⟩
  exact T.Spec.bind hlock fun _ => T.Spec.bind hx fun _ => T.Spec.bind hunlock fun _ => Quiet.pure _

lemma forM {l : List Nat} {f : Nat → T Machine Unit} (hf : ∀ i, Quiet Q past h (f i)) : Quiet Q past h (l.forM f) := by
  induction l with
  | nil => exact .pure _
  | cons i l ih => exact .bind (hf i) fun _ => ih

lemma tried {m : Machine} (hx : Quiet Q past h x) (hm : m.held = h) (ht : Tried Q past m) :
    Tried Q past (x m).2 := by
  have hend := hx m ⟨hm, ht⟩
  rcases hr : x m with ⟨_ | a, t⟩
  · rw [hr] at hend
    exact hend
  · rw [hr] at hend
    exact hend.2

lemma held {m m' : Machine} {a : α} (hx : Quiet Q past h x) (hm : m.held = h) (ht : Tried Q past m)
    (he : x m = (.ok a, m')) : m'.held = h := by
  have hend := hx m ⟨hm, ht⟩
  rw [he] at hend
  exact hend.1

lemma state (i : Nat) : Quiet Q past h (state i) := .bind .get fun _ => .pure _

lemma pidOf (i : Nat) : Quiet Q past h (pidOf i) := .bind .get fun _ => .pure _

lemma markRunnable (i : Nat) : Quiet Q past h (markRunnable i) := .modify (fun _ => rfl) fun _ => rfl

lemma markNotRunnable (i : Nat) : Quiet Q past h (markNotRunnable i) := .modify (fun _ => rfl) fun _ => rfl

end Quiet

end Quiet

/-! ### The functions -/

/-- The acts that can put a process to sleep. -/
def Act.maySleep : Act → Bool
  | .call _ .wait | .call _ (.sleep _) | .call _ (.block _) | .call _ .resume => true
  | _ => false

section Functions

variable {Q : Lock × List Lock → Prop} {past : List (Lock × List Lock)} {P : Profile} {E : Env} {A : TableLayout} {i : Nat}

/-- What holds of the attempts that are made without a lock, or for `PROC_TABLE` under `BITMAP_LOCK`. -/
structure Usual (Q : Lock × List Lock → Prop) : Prop where
  bitmap : Q (.bitmap, [])
  table : Q (.procTable, [])
  nested : Q (.procTable, [.bitmap])

namespace Quiet

lemma findProcIndex {h : List Lock} (hq : Q (.procTable, h)) : Quiet Q past h (findProcIndex A i) :=
  .withLock hq (.pure _)

section

variable (U : Usual Q)
include U

lemma switchBack : Quiet Q past [] (switchBack i) := by
  refine .bind (.modify (fun _ => rfl) fun _ => rfl) fun _ => .withLock U.bitmap (.withLock U.nested ?_)
  exact .bind (.state i) fun _ => .ite (.onKernel _) (.bind (.state i) fun _ => .ite (.markRunnable i) (.pure _))

lemma dispatch : Quiet Q past [] dispatch := by
  refine .bind .get fun m => ?_
  cases findRunnable m.bitmap with
  | none => exact .pure _
  | some i =>
    refine .bind (.withLock U.bitmap (.withLock U.nested (.bind (.state i) fun _ => .ite ?_ ?_))) fun _ =>
      .ite (.modify (fun _ => rfl) fun _ => rfl) (.pure _)
    · exact .bind (.onKernel _) fun _ => .bind (.markNotRunnable i) fun _ => .pure _
    · exact .bind (.markNotRunnable i) fun _ => .pure _

lemma yieldProc : Quiet Q past [] (yieldProc A i) := by
  refine .bind (.state i) fun _ => .ite (.bind (.onKernel _) fun _ => ?_) (.switchBack U)
  refine .bind (.findProcIndex U.table) fun o => ?_
  cases o with
  | none => exact .switchBack U
  | some idx => exact .bind (.markRunnable idx) fun _ => .switchBack U

lemma wakeupLocked (chan : Nat) : Quiet Q past [] (wakeupLocked chan) := by
  refine .withLock U.bitmap (.withLock U.nested (.bind .get fun _ => .bind (.onKernel _) fun _ => ?_))
  exact .forM fun i => .markRunnable i

lemma allocLocked : Quiet Q past [] allocLocked := by
  refine .withLock U.table (.bind (.onKernel _) fun o => ?_)
  cases o with
  | none => exact .pure _
  | some i => exact .bind (.modify (fun _ => rfl) fun _ => rfl) fun _ => .bind (.markRunnable i) fun _ => .pure _

lemma createLocked (payload : List Nat) : Quiet Q past [] (createLocked P E payload) :=
  .bind (.allocLocked U) fun _ => .bind (.onKernel _) fun _ => .onKernel _

lemma forkLocked : Quiet Q past [] (forkLocked P E i) :=
  .bind (.allocLocked U) fun _ => .bind (.onKernel _) fun _ => .bind (.onKernel _) fun _ => .pure _

lemma exitLocked : Quiet Q past [] (exitLocked i) := by
  have hrest : Quiet Q past [] (do
      Proc.withLock .procTable do
        Proc.onKernel (mapProcs fun p => if p.parent = some i then { p with parent := some 0 } else p)
        Proc.markNotRunnable i
      Proc.onKernel (setProc i ({ · with state := .dying }))) :=
    .bind (.withLock U.table (.bind (.onKernel _) fun _ => .markNotRunnable i)) fun _ => .onKernel _
  refine .bind .get fun m => ?_
  cases (m.k.procs i).parent with
  | none => exact hrest
  | some parent => exact .bind (.wakeupLocked U parent) fun _ => hrest

lemma sysExitLocked (code : Nat) : Quiet Q past [] (sysExitLocked A i code) :=
  .bind (.onKernel _) fun _ => .bind (.exitLocked U) fun _ => .yieldProc U

lemma timerUpdate : Quiet Q past [] timerUpdate :=
  .bind (.modify (fun _ => rfl) fun _ => rfl) fun _ => .wakeupLocked U _

section

variable (hq : Q (.procTable, [.procTable]))
include hq

lemma sleep (chan : Nat) : Quiet Q past [] (sleep A i chan) := by
  refine .bind (.withLock U.table (.bind (.onKernel _) fun _ => .bind (.findProcIndex hq) fun o => ?_)) fun _ => .switchBack U
  cases o with
  | none => exact .pure _
  | some idx => exact .markNotRunnable idx

lemma waitLocked : Quiet Q past [] (waitLocked P E A i) := by
  refine .bind (.withLock U.table (.bind (.onKernel _) fun r => .ite (.bind (.findProcIndex hq) fun o => ?_) (.pure _)))
    fun r => ?_
  · cases o with
    | none => exact .pure _
    | some idx => exact .bind (.markNotRunnable idx) fun _ => .pure _
  · refine .bind (.modify (fun _ => rfl) fun _ => rfl) fun _ => .ite (.bind (.switchBack U) fun _ => .pure _) (.pure _)

lemma timerPass (target : Nat) : Quiet Q past [] (timerPass A i target) := by
  refine .bind .get fun m => .ite ?_ (.modify (fun _ => rfl) fun _ => rfl)
  exact .bind (.modify (fun _ => rfl) fun _ => rfl) fun _ => .sleep U hq _

lemma waitEvents : Quiet Q past [] (waitEvents P E A i) :=
  .bind (.waitLocked U hq) fun _ => .bind (.pidOf i) fun _ => .pure _

end

lemma perform_awake {act : Act} (hact : act.maySleep = false) : Quiet Q past [] (act.perform P E A) := by
  cases act with
  | head a =>
    cases a with
    | create payload => exact .bind (.createLocked U payload) fun _ => .pure _
    | dispatch => exact .bind (.dispatch U) fun _ => .pure _
    | tick => exact .bind (.timerUpdate U) fun _ => .pure _
  | call i c =>
    cases c with
    | fork => exact .bind (.forkLocked U) fun _ => .bind (.pidOf i) fun _ => .bind (.pidOf _) fun _ => .pure _
    | exec file argv => exact .bind (.onKernel _) fun _ => .pure _
    | brk newTop => exact .bind (.onKernel _) fun _ => .pure _
    | mmap begin len => exact .bind (.onKernel _) fun _ => .pure _
    | munmap begin len => exact .bind (.onKernel _) fun _ => .pure _
    | stack faultVa => exact .bind (.onKernel _) fun _ => .pure _
    | exit code => exact .bind (.pidOf i) fun _ => .bind (.sysExitLocked U code) fun _ => .pure _
    | yield => exact .bind (.yieldProc U) fun _ => .pure _
    | interrupt => exact .bind (.timerUpdate U) fun _ => .bind (.yieldProc U) fun _ => .pure _
    | wake chan => exact .bind (.wakeupLocked U chan) fun _ => .pure _
    | wait | sleep _ | block _ | resume => cases hact

lemma perform (hq : Q (.procTable, [.procTable])) (act : Act) : Quiet Q past [] (act.perform P E A) := by
  by_cases hact : act.maySleep = false
  · exact perform_awake U hact
  · cases act with
    | head a => exact absurd rfl hact
    | call i c =>
      cases c with
      | wait => exact .waitEvents U hq
      | sleep ticks =>
        exact .bind (.bind .get fun _ => .bind (.onKernel _) fun _ => .timerPass U hq _) fun _ => .pure _
      | block chan => exact .bind (.sleep U hq chan) fun _ => .pure _
      | resume =>
        refine .bind .get fun m => ?_
        cases m.inside i with
        | user => exact .pure _
        | wait => exact .waitEvents U hq
        | timer target => exact .bind (.timerPass U hq target) fun _ => .pure _
      | _ => exact absurd rfl hact

end

end Quiet

end Functions

/-! ### Who sleeps -/

/-- The process has children, and none of them is a zombie. -/
def Kernel.MustWait (k : Kernel) (i : Nat) : Prop :=
  (∃ j < NPROC, (k.procs j).parent = some i) ∧ ∀ j < NPROC, (k.procs j).parent = some i → (k.procs j).state ≠ .zombie

/-- The act puts the process to sleep: it waits for a child and none is a zombie, it waits for ticks to come, or it calls
`sleep`. -/
def Act.Blocks (m : Machine) : Act → Prop
  | .call i .wait => m.k.MustWait i
  | .call _ (.sleep ticks) => 0 < ticks ∧ m.ticks + ticks < 2 ^ 64
  | .call _ (.block _) => True
  | .call i .resume =>
    match m.inside i with
    | .user => False
    | .wait => m.k.MustWait i
    | .timer target => m.ticks < target
  | _ => False

section Blocks

variable {P : Profile} {E : Env} {A : TableLayout} {i chan : Nat} {m : Machine} {k k' : Kernel} {act : Act}

lemma wait_of_mustWait (h : k.MustWait i) : ∃ k', wait P E i k = .ok (.slept, k') := by
  have hz : k.firstZombie i = none := by
    refine List.find?_eq_none.mpr fun j hj => ?_
    simpa using h.2 j (List.mem_range.mp hj)
  have hany : ((List.range NPROC).any fun j => decide ((k.procs j).parent = some i)) = true := by
    obtain ⟨j, hj, hp⟩ := h.1
    exact List.any_eq_true.mpr ⟨j, List.mem_range.mpr hj, decide_eq_true hp⟩
  unfold wait
  simp only [K.bind_apply, K.get_apply, Except.bind, hz, hany, if_true]
  exact ⟨_, rfl⟩

lemma mustWait_of_slept (he : wait P E i k = .ok (.slept, k')) : k.MustWait i := by
  have hz : k.firstZombie i = none := by
    rcases wait_ok he with ⟨_, _, _, _, _, _, hr, _⟩ | ⟨hz, -⟩
    · cases hr
    · exact hz
  unfold wait at he
  simp only [K.bind_apply, K.get_apply, Except.bind, hz] at he
  split_ifs at he with hany
  · obtain ⟨j, hj, hp⟩ := List.any_eq_true.mp hany
    exact ⟨⟨j, List.mem_range.mp hj, of_decide_eq_true hp⟩, fun j hj hp => Kernel.firstZombie_none hz hj hp⟩
  · cases he

/-- `PROC_TABLE` is tried while it is held, once the attempts `past` have been made. -/
def LockedOut (past : List (Lock × List Lock)) (m : Machine) : Prop :=
  ∃ l, m.attempts = l ++ past ∧ (.procTable, [.procTable]) ∈ l

lemma LockedOut.bind {α β : Type} {past : List (Lock × List Lock)} {x : T Machine α} {f : α → T Machine β} {a : α}
    {m1 : Machine} (he : x m = (.ok a, m1)) (hheld : m1.held = []) (hl : LockedOut past m1)
    (hf : Quiet (fun _ => True) m1.attempts [] (f a)) : LockedOut past ((x >>= f) m).2 := by
  rw [T.bind_of_ok he]
  obtain ⟨l, hpast, hmem⟩ := hl
  obtain ⟨l', hl', -⟩ := hf.tried hheld ⟨[], rfl, nofun⟩
  refine ⟨l' ++ l, ?_, List.mem_append_right _ hmem⟩
  rw [hl', hpast, List.append_assoc]

lemma LockedOut.bind_of_exists {α β : Type} {past : List (Lock × List Lock)} {x : T Machine α} {f : α → T Machine β} (a : α)
    (hx : ∃ m1, x m = (.ok a, m1) ∧ m1.held = [] ∧ m1.attempts = [(.procTable, [.procTable]), (.procTable, [])] ++ past)
    (hf : ∀ past, Quiet (fun _ => True) past [] (f a)) : LockedOut past ((x >>= f) m).2 := by
  obtain ⟨m1, he, hheld, hatt⟩ := hx
  exact .bind he hheld ⟨_, hatt, List.mem_cons_self⟩ (hf _)

lemma usual_true : Usual fun _ => True := ⟨trivial, trivial, trivial⟩

lemma sleep_lockedOut (hheld : m.held = []) : LockedOut m.attempts (sleep A i chan m).2 := by
  refine .bind_of_exists () ?_ fun _ => .switchBack usual_true
  cases hidx : A.index (A.addr i) <;>
  simp [withLock, lock, unlock, findProcIndex, T.bind_apply, onKernel, setProc, markNotRunnable, hheld, hidx]

lemma waitLocked_lockedOut (hheld : m.held = []) (hw : m.k.MustWait i) :
    LockedOut m.attempts (waitLocked P E A i m).2 := by
  obtain ⟨k', hk⟩ := wait_of_mustWait (P := P) (E := E) hw
  refine .bind_of_exists .slept ?_ fun _ => .bind (.modify (fun _ => rfl) fun _ => rfl) fun _ => ?_
  · cases hidx : A.index (A.addr i) <;>
    simp [withLock, lock, unlock, findProcIndex, T.bind_apply, onKernel, markNotRunnable, hheld, hidx, hk]
  · exact .bind (.switchBack usual_true) fun _ => .pure _

/-- A pass of `wait` that does not put the process to sleep takes `PROC_TABLE` once. -/
lemma waitLocked_attempts (hw : ¬m.k.MustWait i) :
    (waitLocked P E A i m).2.attempts = (.procTable, m.held) :: m.attempts := by
  cases hr : wait P E i m.k with
  | error p => simp [waitLocked, withLock, lock, T.bind_apply, onKernel, hr]
  | ok r =>
    obtain ⟨r, k'⟩ := r
    have hne : r ≠ .slept := by
      rintro rfl
      exact hw (mustWait_of_slept hr)
    simp [waitLocked, withLock, lock, unlock, T.bind_apply, onKernel, hr, hne]

lemma timerPass_lockedOut {target : Nat} (hheld : m.held = []) (ht : m.ticks < target) :
    LockedOut m.attempts (timerPass A i target m).2 := by
  unfold timerPass
  rw [T.bind_of_ok (T.get_apply m), if_pos ht, T.bind_of_ok (T.modify_apply _ m)]
  exact sleep_lockedOut hheld

lemma timerPass_attempts {target : Nat} (ht : ¬m.ticks < target) : (timerPass A i target m).2.attempts = m.attempts := by
  unfold timerPass
  rw [T.bind_of_ok (T.get_apply m), if_neg ht]
  rfl

lemma timerWait_attempts {ticks : Nat} (hheld : m.held = []) (hticks : ticks < 2 ^ 64) :
    (0 < ticks ∧ m.ticks + ticks < 2 ^ 64 → LockedOut m.attempts (timerWait P A i ticks m).2) ∧
    (¬(0 < ticks ∧ m.ticks + ticks < 2 ^ 64) → (timerWait P A i ticks m).2.attempts = m.attempts) := by
  have hadd : ∀ target, (addW P 64 m.ticks ticks : K Kernel Nat) m.k = .ok (target, m.k) →
      timerWait P A i ticks m = timerPass A i target m := by
    intro target he
    have hk : onKernel (addW P 64 m.ticks ticks) m = (.ok target, m) := by
      unfold onKernel
      rw [he]
    unfold timerWait
    rw [T.bind_of_ok (T.get_apply m), T.bind_of_ok hk]
  by_cases hlt : m.ticks + ticks < 2 ^ 64
  · have he := hadd (m.ticks + ticks) (by rw [addW_of_lt P hlt]; rfl)
    rw [he]
    refine ⟨fun h => timerPass_lockedOut hheld (by omega), fun h => timerPass_attempts (by omega)⟩
  · refine ⟨fun h => absurd h.2 hlt, fun _ => ?_⟩
    cases P with
    | dev =>
      have hover : (addW .dev 64 m.ticks ticks : K Kernel Nat) = throw .overflow := if_neg hlt
      simp [timerWait, T.bind_apply, onKernel, hover]
    | release =>
      have hwrap : (addW .release 64 m.ticks ticks : K Kernel Nat) = pure ((m.ticks + ticks) % 2 ^ 64) := if_neg hlt
      rw [hadd ((m.ticks + ticks) % 2 ^ 64) (by rw [hwrap]; rfl)]
      exact timerPass_attempts (by omega)

lemma LockedOut.then {α β : Type} {past : List (Lock × List Lock)} {x : T Machine α} {f : α → T Machine β}
    (hx : Quiet (fun _ => True) m.attempts [] x) (hheld : m.held = []) (h : LockedOut past (x m).2)
    (hf : ∀ past a, Quiet (fun _ => True) past [] (f a)) : LockedOut past ((x >>= f) m).2 := by
  rcases hr : x m with ⟨_ | a, m1⟩
  · rw [T.bind_apply, hr]
    rw [hr] at h
    exact h
  · rw [hr] at h
    exact .bind hr (hx.held hheld ⟨[], rfl, nofun⟩ hr) h (hf _ a)

lemma attempts_then {α β : Type} {x : T Machine α} {f : α → T Machine β} {l : List (Lock × List Lock)}
    (h : (x m).2.attempts = l) (hf : ∀ a m, (f a m).2.attempts = m.attempts) : ((x >>= f) m).2.attempts = l := by
  rw [T.bind_apply]
  rcases hr : x m with ⟨_ | a, m1⟩
  · rw [hr] at h
    exact h
  · rw [hr] at h
    exact (hf a m1).trans h

lemma waitEvents_attempts (hheld : m.held = []) :
    (m.k.MustWait i → LockedOut m.attempts (waitEvents P E A i m).2) ∧
    (¬m.k.MustWait i → (waitEvents P E A i m).2.attempts = (.procTable, []) :: m.attempts) := by
  refine ⟨fun hw => ?_, fun hw => ?_⟩
  · refine .then (.waitLocked usual_true trivial) hheld (waitLocked_lockedOut hheld hw) fun _ r => ?_
    exact .bind (.pidOf i) fun _ => .pure _
  · refine attempts_then ?_ fun r m => rfl
    rw [waitLocked_attempts hw, hheld]

lemma Act.attempts (hact : act.maySleep = true) (hheld : m.held = []) (hr : act.Ready m) :
    (act.Blocks m → LockedOut m.attempts (act.perform P E A m).2) ∧
    (¬act.Blocks m → ∃ l, (act.perform P E A m).2.attempts = l ++ m.attempts ∧ ∀ a ∈ l, a = (.procTable, [])) := by
  have hnone : ∀ {x : T Machine (List Event)}, (x m).2.attempts = m.attempts →
      ∃ l, (x m).2.attempts = l ++ m.attempts ∧ ∀ a ∈ l, a = (Lock.procTable, []) := fun h => ⟨[], h, nofun⟩
  have hone : ∀ {x : T Machine (List Event)}, (x m).2.attempts = (.procTable, []) :: m.attempts →
      ∃ l, (x m).2.attempts = l ++ m.attempts ∧ ∀ a ∈ l, a = (Lock.procTable, []) :=
    fun h => ⟨[_], h, fun a ha => List.mem_singleton.mp ha⟩
  cases act with
  | head a => cases hact
  | call i c =>
    cases c with
    | wait => exact ⟨(waitEvents_attempts hheld).1, fun h => hone ((waitEvents_attempts hheld).2 h)⟩
    | sleep ticks =>
      have h := timerWait_attempts (P := P) (A := A) (i := i) hheld hr.2.2
      refine ⟨fun hb => ?_, fun hb => hnone (attempts_then (h.2 hb) fun _ _ => rfl)⟩
      refine .then ?_ hheld (h.1 hb) fun _ _ => .pure _
      exact .bind .get fun _ => .bind (.onKernel _) fun _ => .timerPass usual_true trivial _
    | block chan =>
      refine ⟨fun _ => ?_, fun hb => absurd trivial hb⟩
      exact .then (.sleep usual_true trivial chan) hheld (sleep_lockedOut hheld) fun _ _ => .pure _
    | resume =>
      dsimp only [Act.Blocks, Act.perform, Call.perform]
      rw [T.bind_of_ok (T.get_apply m)]
      cases m.inside i with
      | user => exact ⟨False.elim, fun _ => hnone rfl⟩
      | wait => exact ⟨(waitEvents_attempts hheld).1, fun h => hone ((waitEvents_attempts hheld).2 h)⟩
      | timer target =>
        refine ⟨fun hb => ?_, fun hb => hnone (attempts_then (timerPass_attempts hb) fun _ _ => rfl)⟩
        exact .then (.timerPass usual_true trivial target) hheld (timerPass_lockedOut hheld hb) fun _ _ => .pure _
    | _ => cases hact

end Blocks

section Runs

variable {P : Profile} {E : Env} {A : TableLayout} {allowed : Machine → Act → Prop} {m₀ m : Machine} {tr : List Event}

end Runs

end Glenda.Proc
