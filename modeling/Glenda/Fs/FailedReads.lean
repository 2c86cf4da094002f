import Glenda.Fs.BufferRuns

/-!
# Failed reads

The driver waits until the status byte of a request is written and does not look at its value, and `read` marks the buffer
valid in any case. Here a run carries, for each buffer, the block with which its contents were last exchanged. A valid
buffer has been exchanged with the block of its label exactly as long as the requests of `read` succeed.
-/

namespace Glenda.Fs
open Glenda.Lib
open Function (update update_of_ne update_self)

variable {α : Type} {p : α → Bool} {fuel : Nat} {a : Option α}

/-- The cache, and the block that the contents of each buffer were last read from or written to. -/
structure Sourced where
  state : BufState
  origin : BufferId → Option (Nat × Nat)

/-- A read that returns the buffer `id` asks the device, since the buffer is not a valid copy of the block. -/
def Asks (s : BufState) (id : BufferId) (dev blockno : Nat) : Prop :=
  ¬((s.cache.buffers id).valid = true ∧ (s.cache.buffers id).label = (dev, blockno))

instance (s : BufState) (id : BufferId) (dev blockno : Nat) : Decidable (Asks s id dev blockno) :=
  inferInstanceAs (Decidable ¬_)

/-- Only a request that succeeds transfers data. -/
def Call.origin (s : BufState) (o : BufferId → Option (Nat × Nat)) (id : BufferId) : Call → BufferId → Option (Nat × Nat)
  | .read dev blockno =>
    if Asks s id dev blockno ∧ s.disk.outcome 0 = true then Function.update o id (some (dev, blockno)) else o
  | .write _ => if s.disk.outcome 0 then Function.update o id (some (s.cache.buffers id).label) else o
  | .modify _ _ | .release _ => o

/-- Every valid buffer was exchanged with the block of its label. -/
def Sourced.Sound (h : Sourced) : Prop :=
  ∀ id, (h.state.cache.buffers id).valid = true → h.origin id = some (h.state.cache.buffers id).label

/-- If the call is a read that asks the device, then the request succeeds, or the buffer has been exchanged with that block
before. -/
def Sourced.Served (h : Sourced) (c : Call) (id : BufferId) : Prop :=
  ∀ dev blockno, c = .read dev blockno → Asks h.state id dev blockno →
    h.state.disk.outcome 0 = true ∨ h.origin id = some (dev, blockno)

/-! ### The calls, with any lists -/

variable {P : Profile} {s s' : BufState} {c c' : LRUCache} {id : BufferId} {dev blockno idx : Nat}

lemma findFrom_some {next : α → Option α} {x : α}
    (hf : findFrom next p fuel a = some (some x)) : p x = true := by
  induction fuel generalizing a with
  | zero => cases a <;> cases hf
  | succ fuel ih =>
    cases a with
    | none => cases hf
    | some y =>
      rw [findFrom] at hf
      split_ifs at hf with hy
      · cases hf
        exact hy
      · exact ih hf

lemma lastFrom_of_findFrom {next : α → Option α} {x : α}
    (hf : findFrom next p fuel a = some none) (hl : lastFrom next fuel a = some (some x)) : p x = false := by
  induction fuel generalizing a with
  | zero => cases a <;> cases hl
  | succ fuel ih =>
    cases a with
    | none => cases hl
    | some y =>
      rw [findFrom] at hf
      rw [lastFrom] at hl
      split_ifs at hf with hy
      · cases hf
      split_ifs at hl with hn
      · cases hl
        simpa using hy
      · exact ih hf hl

/-- The buffer that `get` returns has the label, and is valid only if it was valid with that label before. -/
structure Got (c c' : LRUCache) (dev blockno : Nat) (id : BufferId) : Prop where
  other : ∀ j, j ≠ id → c'.buffers j = c.buffers j
  label : (c'.buffers id).label = (dev, blockno)
  data : (c'.buffers id).data = (c.buffers id).data
  valid : (c'.buffers id).valid = true ↔ (c.buffers id).valid = true ∧ (c.buffers id).label = (dev, blockno)

lemma label_of_find {k : ListKind} (hf : c.find k dev blockno = some (some id)) : (c.buffers id).label = (dev, blockno) := by
  have hp := findFrom_some hf
  simpa [Buffer.label, Prod.ext_iff] using hp

lemma walk_ok {σ : Type} {o : Option α} {a : α} {t t' : σ} (h : (LRUCache.walk o : K σ α) t = .ok (a, t')) :
    o = some a ∧ t' = t := by
  cases o with
  | none => cases h
  | some b =>
    cases h
    exact ⟨rfl, rfl⟩

lemma Got.of_found {f : Buffer → Buffer} (hb : c'.buffers = update c.buffers id (f (c.buffers id)))
    (hlab : (c.buffers id).label = (dev, blockno))
    (hf : ∀ b : Buffer, (f b).label = b.label ∧ (f b).data = b.data ∧ (f b).valid = b.valid) : Got c c' dev blockno id := by
  obtain ⟨hl, hd, hv⟩ := hf (c.buffers id)
  refine ⟨fun j hj => ?_, ?_, ?_, ?_⟩
  · rw [hb, update_of_ne hj]
  · rw [hb, update_self, hl, hlab]
  · rw [hb, update_self, hd]
  · rw [hb, update_self, hv]
    exact ⟨fun h => ⟨h, hlab⟩, fun h => h.1⟩

lemma recycleLru_got (hi : c.findInactive dev blockno = some none) (h : LRUCache.recycleLru P dev blockno c = .ok (id, c')) :
    Got c c' dev blockno id := by
  unfold LRUCache.recycleLru at h
  obtain ⟨c0, c1, hget, h⟩ := K.bind_ok h
  cases hget
  obtain ⟨o, c2, hwalk, h⟩ := K.bind_ok h
  obtain ⟨hlru, rfl⟩ := walk_ok hwalk
  cases o with
  | none => cases h
  | some lru =>
    have hmiss : ¬(c2.buffers lru).label = (dev, blockno) := by
      have hp := lastFrom_of_findFrom hi hlru
      simpa [Buffer.label, Prod.ext_iff] using hp
    obtain ⟨c3, c4, hget, h⟩ := K.bind_ok h
    cases hget
    split_ifs at h with hassert
    · cases h
    obtain ⟨u, c5, hmod, h⟩ := K.bind_ok h
    obtain ⟨v, c6, hins, h⟩ := K.bind_ok h
    cases hmod
    cases hins
    cases h
    have hb : ∀ (d : LRUCache) (f : Buffer → Buffer), ((d.updBuffer id f).insertActiveHead id).buffers =
        update d.buffers id (f (d.buffers id)) := fun _ _ => LRUCache.insertHead_buffers _ _ _
    refine ⟨fun j hj => ?_, ?_, ?_, ?_⟩
    · rw [hb, update_of_ne hj]
    · rw [hb, update_self]
      rfl
    · rw [hb, update_self]
    · rw [hb, update_self]
      simp [hmiss]

lemma get_got (h : Buffer.get P dev blockno c = .ok (id, c')) : Got c c' dev blockno id := by
  unfold Buffer.get at h
  obtain ⟨c0, c1, hget, h⟩ := K.bind_ok h
  cases hget
  obtain ⟨o, c2, hwalk, h⟩ := K.bind_ok h
  obtain ⟨hact, rfl⟩ := walk_ok hwalk
  cases o with
  | some j =>
    obtain ⟨u, c3, hmod, h⟩ := K.bind_ok h
    cases hmod
    cases h
    exact .of_found (f := ({ · with locked := true })) rfl (label_of_find hact) fun _ => ⟨rfl, rfl, rfl⟩
  | none =>
    obtain ⟨c3, c4, hget, h⟩ := K.bind_ok h
    cases hget
    obtain ⟨o, c5, hwalk', h⟩ := K.bind_ok h
    obtain ⟨hin, rfl⟩ := walk_ok hwalk'
    cases o with
    | some j =>
      obtain ⟨u, c6, hprom, h⟩ := K.bind_ok h
      unfold LRUCache.promoteToActive at hprom
      obtain ⟨c7, c8, hget, hprom⟩ := K.bind_ok hprom
      cases hget
      obtain ⟨n, c9, hadd, hprom⟩ := K.bind_ok hprom
      obtain ⟨rfl, -⟩ := addW_ok hadd
      cases hprom
      obtain ⟨v, c10, hmod, h⟩ := K.bind_ok h
      cases hmod
      cases h
      refine .of_found (f := ({ · with refcnt := n, locked := true })) ?_ (label_of_find hin) fun _ => ⟨rfl, rfl, rfl⟩
      simp [LRUCache.updBuffer, LRUCache.insertActiveHead, LRUCache.insertHead_buffers]
    | none => exact recycleLru_got hin h

lemma onCache_ok {x : K LRUCache α} {a : α} (h : onCache x s = .ok (a, s')) :
    x s.cache = .ok (a, s'.cache) ∧ s'.disk = s.disk := by
  unfold onCache at h
  cases hx : x s.cache with
  | error e =>
    rw [hx] at h
    cases h
  | ok r =>
    rw [hx] at h
    cases h
    exact ⟨rfl, rfl⟩

lemma rw_read (id : BufferId) (blockno : Nat) (s : BufState) : ∃ s', rw id blockno false s = .ok ((), s') ∧
    (s'.cache.buffers id).label = (s.cache.buffers id).label ∧ ∀ j, j ≠ id → s'.cache.buffers j = s.cache.buffers j := by
  cases ho : s.disk.outcome 0 with
  | true =>
    refine ⟨_, rfl, ?_, fun j hj => ?_⟩
    · simp [ho, LRUCache.updBuffer, Buffer.label]
    · simp [ho, LRUCache.updBuffer, hj]
  | false =>
    refine ⟨_, rfl, ?_, fun j hj => ?_⟩
    · simp [ho]
    · simp [ho]

/-- After a read the buffer is valid with the label of the block, whatever the device did. -/
lemma read_returned (h : Buffer.read P dev blockno s = .ok (idx, s')) : ∃ id : BufferId, idx = id.val ∧
    (s'.cache.buffers id).valid = true ∧ (s'.cache.buffers id).label = (dev, blockno) ∧
    ∀ j, j ≠ id → s'.cache.buffers j = s.cache.buffers j := by
  unfold Buffer.read at h
  obtain ⟨id, s1, hget, h⟩ := K.bind_ok h
  obtain ⟨hgot, -⟩ := onCache_ok hget
  have hg := get_got hgot
  obtain ⟨s2, s3, hs, h⟩ := K.bind_ok h
  cases hs
  refine ⟨id, ?_⟩
  split_ifs at h with hv
  · obtain ⟨s4, hrw, hlab, hother⟩ := rw_read id blockno s1
    rw [K.bind_of_ok hrw] at h
    cases h
    refine ⟨rfl, ?_, ?_, fun j hj => ?_⟩
    · simp [LRUCache.updBuffer]
    · rw [← hg.label, ← hlab]
      simp [LRUCache.updBuffer, Buffer.label]
    · rw [← hg.other j hj, ← hother j hj]
      simp [LRUCache.updBuffer, hj]
  · cases h
    exact ⟨rfl, by simpa using hv, hg.label, hg.other⟩

lemma exec_label {c : Call} (h : c.exec P s = .ok (idx, s')) (hc : ∀ dev blockno, c ≠ .read dev blockno) (j : BufferId) :
    (s'.cache.buffers j).label = (s.cache.buffers j).label ∧ (s'.cache.buffers j).valid = (s.cache.buffers j).valid := by
  have hupd : ∀ (i : BufferId) (f : Buffer → Buffer), (∀ b, (f b).label = b.label ∧ (f b).valid = b.valid) →
      ((s.cache.updBuffer i f).buffers j).label = (s.cache.buffers j).label ∧
        ((s.cache.updBuffer i f).buffers j).valid = (s.cache.buffers j).valid := by
    intro i f hf
    by_cases hj : j = i
    · subst hj
      simpa [LRUCache.updBuffer] using hf (s.cache.buffers j)
    · simp [LRUCache.updBuffer, hj]
  cases c with
  | read dev blockno => exact absurd rfl (hc dev blockno)
  | modify i f =>
    obtain ⟨u, s1, h1, h2⟩ := K.bind_ok h
    obtain ⟨i, rfl⟩ := modifyData_cases h1
    rw [modifyData_val] at h1
    cases h1
    cases h2
    dsimp only
    exact hupd _ _ fun _ => ⟨rfl, rfl⟩
  | write i =>
    obtain ⟨u, s1, h1, h2⟩ := K.bind_ok h
    obtain ⟨i, rfl⟩ := write_cases h1
    rw [write_val] at h1
    cases h1
    cases h2
    dsimp only
    exact hupd _ _ fun _ => ⟨rfl, rfl⟩
  | release i =>
    obtain ⟨u, s1, hrel, hret⟩ := K.bind_ok h
    cases hret
    obtain ⟨i, s2, hid, hsub⟩ := K.bind_ok hrel
    obtain ⟨-, hs⟩ := idOf_ok hid
    subst hs
    obtain ⟨s3, s4, hget, hsub'⟩ := K.bind_ok hsub
    cases hget
    obtain ⟨n, s5, hn, hupdate⟩ := K.bind_ok hsub'
    obtain rfl := subW_state hn
    rw [K.bind_of_ok (onCache_modify _ _)] at hupdate
    split_ifs at hupdate with hzero
    · cases hupdate
      have hb : ∀ d : LRUCache, (d.insertInactiveHead i).buffers = d.buffers := fun _ => LRUCache.insertHead_buffers _ _ _
      dsimp only
      rw [hb]
      exact hupd _ _ fun _ => ⟨rfl, rfl⟩
    · cases hupdate
      dsimp only
      exact hupd _ _ fun _ => ⟨rfl, rfl⟩

/-! ### Runs -/

/-- The run with the trace `tr` of states, calls and the buffers they concern. Any calls may be made in any order. -/
inductive SourcedRun (P : Profile) (disk : Disk) : List (Sourced × Call × BufferId) → Sourced → Prop
  | nil : SourcedRun P disk [] ⟨⟨LRUCache.new.init, disk⟩, fun _ => none⟩
  | snoc {tr : List (Sourced × Call × BufferId)} {h : Sourced} {c : Call} {id : BufferId} {s' : BufState}
      (hr : SourcedRun P disk tr h) (he : c.exec P h.state = .ok (id.val, s')) :
      SourcedRun P disk (tr ++ [(h, c, id)]) ⟨s', c.origin h.state h.origin id⟩

variable {h : Sourced} {disk : Disk} {tr : List (Sourced × Call × BufferId)}

lemma Sourced.Sound.step {c : Call} (hs : h.Sound) (he : c.exec P h.state = .ok (id.val, s')) :
    Sourced.Sound ⟨s', c.origin h.state h.origin id⟩ ↔ h.Served c id := by
  by_cases hc : ∃ dev blockno, c = .read dev blockno
  · obtain ⟨dev, blockno, rfl⟩ := hc
    obtain ⟨i, hi, hvalid, hlab, hother⟩ := read_returned he
    obtain rfl := Fin.ext hi
    have hrest : ∀ j, j ≠ id → (s'.cache.buffers j).valid = true →
        (Call.read dev blockno).origin h.state h.origin id j = some (s'.cache.buffers j).label := by
      intro j hj hv
      rw [hother j hj] at hv ⊢
      have hsame : (Call.read dev blockno).origin h.state h.origin id j = h.origin j := by
        dsimp only [Call.origin]
        split_ifs
        · exact update_of_ne hj _ _
        · rfl
      rw [hsame]
      exact hs j hv
    have hiff : Sourced.Sound ⟨s', (Call.read dev blockno).origin h.state h.origin id⟩ ↔
        (Call.read dev blockno).origin h.state h.origin id id = some (dev, blockno) := by
      constructor
      · intro hsound
        rw [← hlab]
        exact hsound id hvalid
      · intro horigin j hv
        by_cases hj : j = id
        · subst hj
          rw [hlab]
          exact horigin
        · exact hrest j hj hv
    rw [hiff]
    constructor
    · rintro horigin dev' blockno' ⟨⟩ hask
      by_cases ho : h.state.disk.outcome 0 = true
      · exact .inl ho
      · right
        rwa [Call.origin, if_neg fun hc => ho hc.2] at horigin
    · intro hserved
      dsimp only [Call.origin]
      split_ifs with hask
      · exact update_self _ _ _
      · by_cases ha : Asks h.state id dev blockno
        · exact (hserved dev blockno rfl ha).resolve_left fun ho => hask ⟨ha, ho⟩
        · obtain ⟨hv, hl⟩ := not_not.mp ha
          rw [← hl]
          exact hs id hv
  · have hnot : ∀ dev blockno, c ≠ .read dev blockno := fun dev blockno hd => hc ⟨dev, blockno, hd⟩
    refine ⟨fun _ dev blockno hd => absurd hd (hnot dev blockno), fun _ j hv => ?_⟩
    obtain ⟨hlab, hval⟩ := exec_label he hnot j
    dsimp only at hv ⊢
    rw [hval] at hv
    rw [hlab]
    cases c with
    | read dev blockno => exact absurd rfl (hnot dev blockno)
    | modify i f => exact hs j hv
    | release i => exact hs j hv
    | write i =>
      dsimp only [Call.origin]
      split_ifs
      · by_cases hj : j = id
        · rw [hj, update_self]
        · rw [update_of_ne hj]
          exact hs j hv
      · exact hs j hv

lemma SourcedRun.sound (hr : SourcedRun P disk tr h) (hserved : ∀ x ∈ tr, x.1.Served x.2.1 x.2.2) : h.Sound := by
  induction hr with
  | nil =>
    intro id hv
    cases hv
  | @snoc tr h c id s' hr he ih =>
    have hs := ih fun x hx => hserved x (List.mem_append_left _ hx)
    exact (hs.step he).mpr (hserved (h, c, id) (by simp))

/-- Calls one after the other. -/
def Sourced.exec (P : Profile) : List Call → Sourced → Option Sourced
  | [], h => some h
  | c :: cs, h =>
    match c.exec P h.state with
    | .error _ => none
    | .ok (idx, s') => (BufferId.new idx).bind fun id => Sourced.exec P cs ⟨s', c.origin h.state h.origin id⟩

lemma SourcedRun.exec {cs : List Call} {h' : Sourced} (hr : SourcedRun P disk tr h) (he : h.exec P cs = some h') :
    ∃ tr', SourcedRun P disk tr' h' ∧ tr'.map (fun x => x.2.1) = tr.map (fun x => x.2.1) ++ cs := by
  induction cs generalizing tr h with
  | nil =>
    cases he
    exact ⟨tr, hr, by simp⟩
  | cons c cs ih =>
    rw [Sourced.exec] at he
    cases hc : c.exec P h.state with
    | error e =>
      rw [hc] at he
      cases he
    | ok r =>
      obtain ⟨idx, s'⟩ := r
      rw [hc] at he
      obtain ⟨id, hid, he⟩ := Option.bind_eq_some_iff.mp he
      have hval : idx = id.val := by
        unfold BufferId.new at hid
        split_ifs at hid
        cases hid
        rfl
      rw [hval] at hc
      obtain ⟨tr', hr', hcalls⟩ := ih (hr.snoc hc) he
      exact ⟨tr', hr', by simp [hcalls]⟩

end Glenda.Fs
