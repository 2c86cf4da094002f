import Glenda.Fs.BufferInvariant

/-!
# Runs of the buffer cache

The calls of `fs/buffer/mod.rs` in any order, from the cache that `init` builds. Besides the
state of the cache a run carries the number of outstanding holds of each buffer, which the
code does not store.
-/

namespace Glenda.Fs
open Glenda.Lib

inductive Call
  | read (dev blockno : Nat)
  | modify (idx : Nat) (f : Block → Block)
  | write (idx : Nat)
  | release (idx : Nat)

/-- A call, with the index of the buffer it concerns as the result. -/
def Call.exec (P : Profile) : Call → K BufState Nat
  | .read dev blockno => Buffer.read P dev blockno
  | .modify idx f => do Buffer.modifyData idx f; return idx
  | .write idx => do Buffer.write idx; return idx
  | .release idx => do Buffer.release P idx; return idx

/-- What a call on the buffer `id` does to the state and to the two lists. A release is only
described where the buffer is referenced. -/
inductive Effect (s : BufState) (l : ListKind → List BufferId) :
    Call → BufferId → BufState → (ListKind → List BufferId) → Prop
  | hit {dev blockno : Nat} {id : BufferId} (hid : id ∈ l .active)
      (hl : (s.cache.buffers id).label = (dev, blockno)) :
      Effect s l (.read dev blockno) id
        { s with cache := s.cache.updBuffer id ({ · with locked := true }) } l
  | take {dev blockno : Nat} {id : BufferId} {s' : BufState} (ht : Taken s s' l dev blockno id) :
      Effect s l (.read dev blockno) id s' (LRUCache.moveTo .active l id)
  | modify {id : BufferId} {f : Block → Block} :
      Effect s l (.modify id.val f) id
        { s with cache := s.cache.updBuffer id (fun b => { b with data := f b.data }) } l
  | write {id : BufferId} {disk : Disk} (hd : disk = if s.disk.outcome 0 then
        { s.disk.next with
          blocks := Function.update s.disk.blocks (s.cache.buffers id).blockNo (s.cache.buffers id).data }
        else s.disk.next) :
      Effect s l (.write id.val) id ⟨s.cache.updBuffer id ({ · with dirty := false }), disk⟩ l
  | release {id : BufferId} {c : LRUCache} (hid : id ∈ l .active)
      (hl : c.Linked (LRUCache.moveTo .inactive l id))
      (hb : c.buffers = Function.update s.cache.buffers id
        { s.cache.buffers id with refcnt := 0, locked := false }) :
      Effect s l (.release id.val) id { s with cache := c } (LRUCache.moveTo .inactive l id)

variable {P : Profile} {s s' : BufState} {l l' : ListKind → List BufferId} {c : Call} {idx : Nat}
  {id : BufferId}

theorem exec_effect (h : CacheInv s.cache l) (he : c.exec P s = .ok (idx, s'))
    (hg : ∀ id : BufferId, c = .release id.val → (s.cache.buffers id).refcnt ≠ 0) :
    ∃ (id : BufferId) (l' : ListKind → List BufferId), idx = id.val ∧ Effect s l c id s' l' := by
  cases c with
  | read dev blockno =>
    obtain ⟨id, hi, ⟨hid, hl, rfl⟩ | ht⟩ := read_cases P h he
    · exact ⟨id, l, hi, .hit hid hl⟩
    · exact ⟨id, _, hi, .take ht⟩
  | modify i f =>
    obtain ⟨u, s1, h1, h2⟩ := K.bind_ok he
    obtain ⟨id, rfl⟩ := modifyData_cases h1
    rw [modifyData_val] at h1
    cases h1
    cases h2
    exact ⟨id, l, rfl, .modify⟩
  | write i =>
    obtain ⟨u, s1, h1, h2⟩ := K.bind_ok he
    obtain ⟨id, rfl⟩ := write_cases h1
    rw [write_val] at h1
    cases h1
    cases h2
    exact ⟨id, l, rfl, .write rfl⟩
  | release i =>
    obtain ⟨u, s1, h1, h2⟩ := K.bind_ok he
    obtain ⟨id, s2, h3, -⟩ := K.bind_ok h1
    obtain ⟨rfl, -⟩ := idOf_ok h3
    have hid : id ∈ l .active := (h.active_iff id).mpr (hg id rfl)
    obtain ⟨c', hr, hl, hb⟩ := release_active P h hid
    rw [hr] at h1
    cases h1
    cases h2
    exact ⟨id, _, rfl, .release hid hl hb⟩

lemma CacheInv.updBuffer {c : LRUCache} (h : CacheInv c l) (id : BufferId) (f : Buffer → Buffer)
    (hf : ∀ b : Buffer, (f b).refcnt = b.refcnt ∧ (f b).label = b.label ∧ (f b).valid = b.valid) :
    CacheInv (c.updBuffer id f) l := by
  refine h.congr (h.linked.updBuffer id f) fun j => ?_
  by_cases hj : j = id
  · subst hj
    simpa [LRUCache.updBuffer] using hf _
  · simp [LRUCache.updBuffer, hj]

theorem Effect.inv (h : CacheInv s.cache l) (he : Effect s l c id s' l') : CacheInv s'.cache l' := by
  cases he with
  | hit hid hl =>
    dsimp only
    exact h.updBuffer id _ fun _ => ⟨rfl, rfl, rfl⟩
  | take ht =>
    refine h.take ht.absent ht.candidate ht.linked (fun j hj => ?_) ht.refcnt ht.label ht.valid
    rw [ht.other j hj]
    exact ⟨rfl, rfl, rfl⟩
  | modify =>
    dsimp only
    exact h.updBuffer id _ fun _ => ⟨rfl, rfl, rfl⟩
  | write =>
    dsimp only
    exact h.updBuffer id _ fun _ => ⟨rfl, rfl, rfl⟩
  | release hid hl hb =>
    refine h.put hid hl (by simp [hb]) (fun j hj => by simp [hb, hj]) (fun j => ?_)
    by_cases hj : j = id
    · subst hj
      simp [hb, Buffer.label]
    · simp [hb, hj]

lemma Effect.label (he : Effect s l c id s' l') (j : BufferId) :
    (s'.cache.buffers j).label = (s.cache.buffers j).label ∧
        (s'.cache.buffers j).valid = (s.cache.buffers j).valid ∨
      j = id ∧ ∃ dev blockno, c = .read dev blockno ∧ Taken s s' l dev blockno id := by
  by_cases hj : j = id
  · subst hj
    cases he with
    | hit => exact .inl (by simp [LRUCache.updBuffer, Buffer.label])
    | take ht => exact .inr ⟨rfl, _, _, rfl, ht⟩
    | modify => exact .inl (by simp [LRUCache.updBuffer, Buffer.label])
    | write => exact .inl (by simp [LRUCache.updBuffer, Buffer.label])
    | release hid hl hb => exact .inl (by simp [hb, Buffer.label])
  · cases he with
    | take ht => exact .inl (by simp [ht.other j hj])
    | release hid hl hb => exact .inl (by simp [hb, hj])
    | _ => exact .inl (by simp [LRUCache.updBuffer, hj])

/-! ### Every reachable state -/

/-- The states reached from the initialised cache by calls that read the devices in `D` and
release only buffers that are referenced. -/
inductive Reachable (P : Profile) (D : Set Nat) (disk : Disk) : BufState → Prop
  | init : Reachable P D disk ⟨LRUCache.new.init, disk⟩
  | step {s s' : BufState} {c : Call} {idx : Nat} (hs : Reachable P D disk s)
      (hd : ∀ dev blockno, c = .read dev blockno → dev ∈ D)
      (hg : ∀ id : BufferId, c = .release id.val → (s.cache.buffers id).refcnt ≠ 0)
      (he : c.exec P s = .ok (idx, s')) : Reachable P D disk s'

lemma Reachable.inv {D : Set Nat} {disk : Disk} (hs : Reachable P D disk s) :
    ∃ l, CacheInv s.cache l ∧
      ∀ id, (s.cache.buffers id).valid = true → (s.cache.buffers id).label.1 ∈ D := by
  induction hs with
  | init => exact ⟨_, CacheInv.init, fun _ hv => absurd hv (by simp [LRUCache.init, LRUCache.new, Buffer.new])⟩
  | step hs hd hg he ih =>
    obtain ⟨l, hl, hv⟩ := ih
    obtain ⟨id, l', -, hf⟩ := exec_effect hl he hg
    refine ⟨l', hf.inv hl, fun j hj => ?_⟩
    rcases hf.label j with ⟨hlab, hval⟩ | ⟨rfl, dev, blockno, rfl, ht⟩
    · rw [hval] at hj
      rw [hlab]
      exact hv j hj
    · rw [ht.label]
      exact hd dev blockno rfl

theorem reachable_representation {D : Set Nat} {disk : Disk} (hs : Reachable P D disk s) :
    ∃ act inact : List BufferId,
      DList s.cache.nodes s.cache.activeHead act ∧ DList s.cache.nodes s.cache.inactiveHead inact ∧
      (∀ id, (act ++ inact).count id = 1) ∧
      (∀ id, id ∈ act ↔ (s.cache.buffers id).refcnt ≠ 0) ∧
      (∀ i j, (s.cache.buffers i).valid = true → (s.cache.buffers j).valid = true →
        (s.cache.buffers i).label = (s.cache.buffers j).label → i = j) ∧
      (D ⊆ {0} → ∀ i j, (s.cache.buffers i).valid = true → (s.cache.buffers j).valid = true →
        (s.cache.buffers i).blockNo = (s.cache.buffers j).blockNo → i = j) ∧
      (∀ id dev blockno, (s.cache.buffers id).valid = true →
        (s.cache.buffers id).label = (dev, blockno) →
        s.cache.findActive dev blockno = some (some id) ∨
          s.cache.findActive dev blockno = some none ∧
            s.cache.findInactive dev blockno = some (some id)) ∧
      (∀ dev blockno, s.cache.findActive dev blockno ≠ none ∧ s.cache.findInactive dev blockno ≠ none) ∧
      s.cache.getLru ≠ none := by
  obtain ⟨l, hl, hv⟩ := hs.inv
  refine ⟨l .active, l .inactive, hl.linked.dlist .active, hl.linked.dlist .inactive, ?_, hl.active_iff,
    hl.unique, ?_, fun id dev blockno => hl.find_valid, fun dev blockno => ?_, ?_⟩
  · intro id
    have hnd : (l .active ++ l .inactive).Nodup :=
      (hl.nodup .active).append (hl.nodup .inactive) (fun i hi hj => hl.linked.disjoint i hi hj)
    exact List.count_eq_one_of_mem hnd (by simpa using hl.mem id)
  · intro hD i j hi hj hij
    have h0 : ∀ id, (s.cache.buffers id).valid = true → (s.cache.buffers id).dev = 0 :=
      fun id hid => hD (hv id hid)
    exact hl.unique i j hi hj (Prod.ext ((h0 i hi).trans (h0 j hj).symm) hij)
  · unfold LRUCache.findActive LRUCache.findInactive
    rw [hl.find_eq, hl.find_eq]
    exact ⟨Option.some_ne_none _, Option.some_ne_none _⟩
  · rw [hl.getLru_eq]
    exact Option.some_ne_none _

lemma read_first (P : Profile) (disk : Disk) : ∃ s', Buffer.read P 0 5 ⟨LRUCache.new.init, disk⟩ =
    .ok ((31 : BufferId).val, s') ∧ Taken ⟨LRUCache.new.init, disk⟩ s' CacheInv.initLists 0 5 31 :=
  have hc : CacheInv.candidate LRUCache.new.init CacheInv.initLists 0 5 = some 31 := by decide
  read_candidate P CacheInv.init rfl hc

def zeroDisk : Disk := ⟨fun _ _ => 0, fun _ => true⟩

theorem reachable_representation_first : ∃ s, Reachable .dev {0} zeroDisk s ∧
    (s.cache.buffers 31).label = (0, 5) ∧ ∃ act inact : List BufferId,
      DList s.cache.nodes s.cache.activeHead act ∧ (∀ id, (act ++ inact).count id = 1) ∧ 31 ∈ act := by
  obtain ⟨s, hr, ht⟩ := read_first .dev zeroDisk
  have hs : Reachable .dev {0} zeroDisk s :=
    .step .init (by rintro _ _ ⟨⟩; rfl) (by rintro _ ⟨⟩) (c := .read 0 5) hr
  obtain ⟨act, inact, hact, -, hcount, hiff, -⟩ := reachable_representation hs
  exact ⟨s, hs, ht.label, act, inact, hact, hcount, (hiff 31).mpr (by simp [ht.refcnt])⟩

/-! ### Counting holds -/

/-- A state of the cache with the outstanding holds of every buffer: the reads that returned
it minus its releases. -/
structure Held where
  state : BufState
  holds : BufferId → Nat

def Call.count (holds : BufferId → Nat) (id : BufferId) : Call → BufferId → Nat
  | .read _ _ => Function.update holds id (holds id + 1)
  | .release _ => Function.update holds id (holds id - 1)
  | .modify _ _ => holds
  | .write _ => holds

/-- The run with the trace `tr` of states and calls, in which each release matches an earlier
read of the same buffer. -/
inductive Run (P : Profile) (disk : Disk) : List (Held × Call) → Held → Prop
  | nil : Run P disk [] ⟨⟨LRUCache.new.init, disk⟩, fun _ => 0⟩
  | snoc {tr : List (Held × Call)} {h : Held} {c : Call} {id : BufferId} {s' : BufState}
      (hr : Run P disk tr h) (hm : ∀ i : BufferId, c = .release i.val → h.holds i ≠ 0)
      (he : c.exec P h.state = .ok (id.val, s')) :
      Run P disk (tr ++ [(h, c)]) ⟨s', c.count h.holds id⟩

/-- What the counts are for. -/
structure Held.Safe (P : Profile) (h : Held) : Prop where
  refcnt : ∀ id, h.holds id = (h.state.cache.buffers id).refcnt
  active : ∀ id, h.holds id ≠ 0 →
    ∃ act, DList h.state.cache.nodes h.state.cache.activeHead act ∧ id ∈ act
  recycle : ∀ id, h.holds id ≠ 0 → h.state.cache.getLru ≠ some (some id)
  relabel : ∀ id dev blockno idx s', h.holds id ≠ 0 →
    Buffer.read P dev blockno h.state = .ok (idx, s') →
    (s'.cache.buffers id).label = (h.state.cache.buffers id).label
  release : ∀ id, h.holds id ≠ 0 → ∃ s', Buffer.release P id.val h.state = .ok ((), s')

/-- The call does not read a block whose buffer is held. -/
def Held.Allowed (h : Held) (c : Call) : Prop :=
  ∀ dev blockno id, c = .read dev blockno → h.holds id ≠ 0 →
    (h.state.cache.buffers id).label ≠ (dev, blockno)

lemma Held.safe_of_inv {h : Held} (hl : CacheInv h.state.cache l)
    (hh : ∀ id, h.holds id = (h.state.cache.buffers id).refcnt) : h.Safe P := by
  have hact : ∀ id, h.holds id ≠ 0 → id ∈ l .active := by
    intro id hid
    rw [hh id] at hid
    exact (hl.active_iff id).mpr hid
  refine ⟨hh, fun id hid => ⟨_, hl.linked.dlist .active, hact id hid⟩, ?_, ?_, ?_⟩
  · intro id hid hlru
    rw [hl.getLru_eq, Option.some.injEq] at hlru
    exact hl.linked.disjoint id (hact id hid) (List.mem_of_getLast? hlru)
  · intro id dev blockno idx s' hid hr
    obtain ⟨j, -, ⟨-, -, rfl⟩ | ht⟩ := read_cases P hl hr
    · by_cases hj : id = j
      · subst hj
        simp [LRUCache.updBuffer, Buffer.label]
      · simp [LRUCache.updBuffer, hj]
    · have hj : id ≠ j := by
        rintro rfl
        exact hl.linked.disjoint id (hact id hid) (CacheInv.candidate_mem ht.candidate)
      rw [ht.other id hj]
  · intro id hid
    obtain ⟨c', hr, -⟩ := release_active P hl (hact id hid)
    exact ⟨_, hr⟩

lemma Effect.count {holds : BufferId → Nat} (hl : CacheInv s.cache l)
    (hh : ∀ j, holds j = (s.cache.buffers j).refcnt)
    (ha : (⟨s, holds⟩ : Held).Allowed c) (he : Effect s l c id s' l') (j : BufferId) :
    c.count holds id j = (s'.cache.buffers j).refcnt := by
  cases he with
  | hit hid hlab => exact absurd hlab (ha _ _ id rfl (by simpa [hh] using (hl.active_iff id).mp hid))
  | take ht =>
    have hid : (s.cache.buffers id).refcnt = 0 := by
      by_contra hn
      exact hl.linked.disjoint id ((hl.active_iff id).mpr hn) (CacheInv.candidate_mem ht.candidate)
    by_cases hj : j = id
    · subst hj
      simp [Call.count, hh, hid, ht.refcnt]
    · simp [Call.count, hj, hh, ht.other j hj]
  | modify =>
    by_cases hj : j = id
    · subst hj
      simp [Call.count, hh, LRUCache.updBuffer]
    · simp [Call.count, hh, LRUCache.updBuffer, hj]
  | write =>
    by_cases hj : j = id
    · subst hj
      simp [Call.count, hh, LRUCache.updBuffer]
    · simp [Call.count, hh, LRUCache.updBuffer, hj]
  | release hid _ hb =>
    by_cases hj : j = id
    · subst hj
      have h1 := hl.refcnt_le j
      simp [Call.count, hh, hb]
      omega
    · simp [Call.count, hj, hh, hb]

variable {disk : Disk} {tr : List (Held × Call)} {h : Held}

lemma Run.inv (hr : Run P disk tr h) (ha : ∀ x ∈ tr, x.1.Allowed x.2) :
    ∃ l, CacheInv h.state.cache l ∧ ∀ id, h.holds id = (h.state.cache.buffers id).refcnt := by
  induction hr with
  | nil => exact ⟨_, CacheInv.init, fun _ => rfl⟩
  | @snoc tr h c id s' hr hm he ih =>
    obtain ⟨l, hl, hh⟩ := ih fun x hx => ha x (List.mem_append_left _ hx)
    have hg : ∀ i : BufferId, c = .release i.val → (h.state.cache.buffers i).refcnt ≠ 0 := by
      intro i hc
      rw [← hh i]
      exact hm i hc
    obtain ⟨id', l', hid, hf⟩ := exec_effect hl he hg
    obtain rfl := Fin.ext hid
    exact ⟨l', hf.inv hl, hf.count hl hh (ha (h, c) (by simp))⟩

/-- A read of a block whose buffer is held leaves the reference count of that buffer as it is. -/
lemma read_held (hl : CacheInv s.cache l) {dev blockno : Nat} {i : BufferId}
    (hi : (s.cache.buffers i).refcnt ≠ 0) (hlab : (s.cache.buffers i).label = (dev, blockno))
    (he : Buffer.read P dev blockno s = .ok (id.val, s')) :
    id = i ∧ (s'.cache.buffers i).refcnt = (s.cache.buffers i).refcnt := by
  have hact : i ∈ l .active := (hl.active_iff i).mpr hi
  obtain ⟨j, hj, ⟨hjact, hjlab, rfl⟩ | ht⟩ := read_cases P hl he
  · obtain rfl := Fin.ext hj
    have hij : id = i :=
      hl.unique id i (hl.valid_of_active hjact) (hl.valid_of_active hact) (hjlab.trans hlab.symm)
    subst hij
    simp [LRUCache.updBuffer]
  · have hn := List.find?_eq_none.mp ht.absent i hact
    simp [hlab] at hn

/-- Every state of a run is safe exactly when no block is read while its buffer is held. -/
theorem run_safe_iff_allowed (hr : Run P disk tr h) :
    ((∀ x ∈ tr, x.1.Safe P) ∧ h.Safe P) ↔ ∀ x ∈ tr, x.1.Allowed x.2 := by
  constructor
  · rintro ⟨htr, hs⟩
    induction hr with
    | nil => simp
    | @snoc tr h c id s' hr hm he ih =>
      have hs₀ : h.Safe P := htr (h, c) (by simp)
      have hpre := ih (fun x hx => htr x (List.mem_append_left _ hx)) hs₀
      intro x hx
      rcases List.mem_append.mp hx with hx | hx
      · exact hpre x hx
      · obtain rfl := List.mem_singleton.mp hx
        rintro dev blockno i rfl hi hlab
        obtain ⟨l, hl, hh⟩ := hr.inv hpre
        dsimp only at hi hlab
        obtain ⟨rfl, href⟩ := read_held hl (by rwa [← hh i]) hlab he
        have hcnt := hs.refcnt id
        simp only [Call.count, Function.update_self, href, hh] at hcnt
        omega
  · intro ha
    induction hr with
    | nil =>
      exact ⟨by simp, Held.safe_of_inv CacheInv.init fun _ => rfl⟩
    | @snoc tr h c id s' hr hm he ih =>
      obtain ⟨htr, hs⟩ := ih fun x hx => ha x (List.mem_append_left _ hx)
      obtain ⟨l, hl, hh⟩ := (hr.snoc hm he).inv ha
      refine ⟨fun x hx => ?_, Held.safe_of_inv hl hh⟩
      rcases List.mem_append.mp hx with hx | hx
      · exact htr x hx
      · obtain rfl := List.mem_singleton.mp hx
        exact hs

lemma run_first (hr : Buffer.read P 0 5 ⟨LRUCache.new.init, disk⟩ = .ok ((31 : BufferId).val, s)) :
    Run P disk [(⟨⟨LRUCache.new.init, disk⟩, fun _ => 0⟩, .read 0 5)]
      ⟨s, Function.update (fun _ => 0) 31 1⟩ :=
  Run.nil.snoc (c := .read 0 5) (by rintro _ ⟨⟩) hr

theorem run_safe_first_read : ∃ h : Held, Run .dev zeroDisk
    [(⟨⟨LRUCache.new.init, zeroDisk⟩, fun _ => 0⟩, .read 0 5)] h ∧ h.holds 31 = 1 ∧ h.Safe .dev := by
  obtain ⟨s, hr, ht⟩ := read_first .dev zeroDisk
  refine ⟨_, run_first hr, by simp, ((run_safe_iff_allowed (run_first hr)).mpr ?_).2⟩
  intro x hx
  obtain rfl := List.mem_singleton.mp hx
  exact fun _ _ _ _ h0 => absurd rfl h0

lemma release_unreferenced (hid : (s.cache.buffers id).refcnt = 0) :
    Buffer.release .dev id.val s = .error .overflow := by
  unfold Buffer.release
  rw [idOf_val]
  simp [K.bind_apply, Except.bind, hid, subW]

/-- Block 5 is read twice, so that its buffer has two holds and one reference. The first
release takes it out of the active list, and the second one, which matches the other read,
underflows. -/
theorem reread_loses_hold : ∃ (tr : List (Held × Call)) (h : Held), Run .dev zeroDisk tr h ∧
    tr.map Prod.snd = [.read 0 5, .read 0 5, .release 31] ∧
    h.holds 31 = 1 ∧ (h.state.cache.buffers 31).refcnt = 0 ∧
    (∃ inact, DList h.state.cache.nodes h.state.cache.inactiveHead inact ∧ 31 ∈ inact) ∧
    Buffer.release .dev 31 h.state = .error .overflow := by
  obtain ⟨s, hr, ht⟩ := read_first .dev zeroDisk
  have hl := Effect.inv CacheInv.init (.take ht)
  have hact : 31 ∈ LRUCache.moveTo .active CacheInv.initLists 31 .active := by simp [LRUCache.moveTo]
  have hfind : (LRUCache.moveTo .active CacheInv.initLists 31 .active).find?
      (fun id => (s.cache.buffers id).label = (0, 5)) = some 31 := by
    simp [LRUCache.moveTo, ht.label]
  have hr₂ := read_active .dev hl hfind
  set s₂ : BufState := { s with cache := s.cache.updBuffer 31 ({ · with locked := true }) }
  have hl₂ : CacheInv s₂.cache _ := hl.updBuffer 31 ({ · with locked := true }) fun _ => ⟨rfl, rfl, rfl⟩
  obtain ⟨c, hr₃, hlink, hb⟩ := release_active .dev hl₂ hact
  have hrun₂ := (run_first hr).snoc (c := .read 0 5) (by rintro _ ⟨⟩) hr₂
  have hexec : Call.exec .dev (.release (31 : BufferId).val) s₂ =
      .ok ((31 : BufferId).val, { s₂ with cache := c }) := by
    simp only [Call.exec, K.bind_apply, hr₃, Except.bind, K.pure_apply]
  have hrun₃ := hrun₂.snoc (c := .release (31 : BufferId).val) (by
    intro i hi
    obtain rfl : i = 31 := Fin.ext (Call.release.inj hi).symm
    simp [Call.count]) hexec
  have href : (c.buffers 31).refcnt = 0 := by simp [hb]
  have hrel : Buffer.release .dev (31 : BufferId).val ⟨c, s₂.disk⟩ = .error .overflow :=
    release_unreferenced href
  exact ⟨_, _, hrun₃, rfl, by simp [Call.count], href,
    ⟨_, hlink.dlist .inactive, by simp [LRUCache.moveTo]⟩, hrel⟩

end Glenda.Fs
