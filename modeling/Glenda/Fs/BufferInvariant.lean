import Glenda.Fs.Buffer

/-!
# The representation invariant of the buffer cache

`CacheInv` holds after `init` and is kept by every operation on buffers. The two results on
whole runs are `reachable_representation`, on the lists and the labels, and
`holds_eq_refcnt_iff`, on the number of times a buffer is held.
-/

namespace Glenda.Fs
open Glenda.Lib
open LRUCache (moveTo updBuffer)

namespace CacheInv

variable {c c' : LRUCache} {l : ListKind → List BufferId} {dev blockno : Nat} {id : BufferId}

/-- The invariant reads only the links, the reference counts, the labels and the valid flags. -/
lemma congr (h : CacheInv c l) (hl : c'.Linked l)
    (hb : ∀ id, (c'.buffers id).refcnt = (c.buffers id).refcnt ∧
      (c'.buffers id).label = (c.buffers id).label ∧ (c'.buffers id).valid = (c.buffers id).valid) :
    CacheInv c' l := by
  refine ⟨hl, h.mem, ?_, ?_, ?_, ?_, ?_⟩
  · intro id
    rw [(hb id).1]
    exact h.active_iff id
  · intro id
    rw [(hb id).1]
    exact h.refcnt_le id
  · intro id
    rw [(hb id).1, (hb id).2.1, (hb id).2.2]
    exact h.unused id
  · intro i j
    rw [(hb i).2.1, (hb j).2.1, (hb i).2.2, (hb j).2.2]
    exact h.unique i j
  · refine h.behind.imp ?_
    intro i j hij
    rw [(hb i).2.2, (hb j).2.2]
    exact hij

lemma valid_of_active (h : CacheInv c l) (hid : id ∈ l .active) : (c.buffers id).valid = true := by
  by_contra hn
  exact (h.active_iff id).mp hid (h.unused id (by simpa using hn)).2

lemma nodup (h : CacheInv c l) (k : ListKind) : (l k).Nodup := (h.linked.dlist k).nodup

section

variable (h : CacheInv c l) (hf : (l .active).find? (fun id => (c.buffers id).label = (dev, blockno)) = none)
  (hc : candidate c l dev blockno = some id)
include h hf hc

/-- No valid buffer carries the label that `get` gives to a buffer of the inactive list, except
that buffer itself. -/
lemma candidate_unique (j : BufferId) (hj : (c.buffers j).valid = true)
    (hjl : (c.buffers j).label = (dev, blockno)) : j = id := by
  rcases h.find_valid hj hjl with hv | ⟨-, hv⟩
  · rw [LRUCache.findActive, h.find_eq, hf] at hv
    cases hv
  · rw [LRUCache.findInactive, h.find_eq, Option.some.injEq] at hv
    rw [candidate, hv] at hc
    exact Option.some.inj hc

lemma take (hl : c'.Linked (moveTo .active l id))
    (ho : ∀ j, j ≠ id → (c'.buffers j).refcnt = (c.buffers j).refcnt ∧
      (c'.buffers j).label = (c.buffers j).label ∧ (c'.buffers j).valid = (c.buffers j).valid)
    (hr : (c'.buffers id).refcnt = 1) (hlab : (c'.buffers id).label = (dev, blockno))
    (hv : (c'.buffers id).valid = true) : CacheInv c' (moveTo .active l id) := by
  have hmem := candidate_mem hc
  have hnot : id ∉ l .active := fun ha => h.linked.disjoint id ha hmem
  have huniq := h.candidate_unique hf hc
  refine ⟨hl, ?_, ?_, ?_, ?_, ?_, ?_⟩
  · intro j
    by_cases hj : j = id
    · exact .inl (by simp [moveTo, hj])
    · simpa [moveTo, hj, List.mem_erase_of_ne hj] using h.mem j
  · intro j
    by_cases hj : j = id
    · simp [moveTo, hj, hr]
    · simpa [moveTo, hj, List.mem_erase_of_ne hj, (ho j hj).1] using h.active_iff j
  · intro j
    by_cases hj : j = id
    · rw [hj, hr]
    · rw [(ho j hj).1]
      exact h.refcnt_le j
  · intro j hjv
    by_cases hj : j = id
    · rw [hj, hv] at hjv
      cases hjv
    · rw [(ho j hj).2.2] at hjv
      rw [(ho j hj).1, (ho j hj).2.1]
      exact h.unused j hjv
  · intro i j hi hj hij
    by_cases hie : i = id <;> by_cases hje : j = id
    · rw [hie, hje]
    · subst hie
      rw [(ho j hje).2.2] at hj
      rw [hlab, (ho j hje).2.1] at hij
      exact (huniq j hj hij.symm).symm
    · subst hje
      rw [(ho i hie).2.2] at hi
      rw [hlab, (ho i hie).2.1] at hij
      exact huniq i hi hij
    · rw [(ho i hie).2.2] at hi
      rw [(ho j hje).2.2] at hj
      rw [(ho i hie).2.1, (ho j hje).2.1] at hij
      exact h.unique i j hi hj hij
  · have hsub : (moveTo .active l id .inactive).Sublist (l .inactive) := by
      simpa [moveTo] using List.erase_sublist
    have hne : ∀ j ∈ moveTo .active l id .inactive, j ≠ id := by
      intro j hj he
      simp only [moveTo, reduceCtorEq, if_false] at hj
      exact (h.nodup .inactive).not_mem_erase (he ▸ hj)
    refine (h.behind.sublist hsub).imp_of_mem ?_
    intro i j hi hj hij
    rw [(ho i (hne i hi)).2.2, (ho j (hne j hj)).2.2]
    exact hij

end

lemma put (h : CacheInv c l) (hid : id ∈ l .active) (hl : c'.Linked (moveTo .inactive l id))
    (hr : (c'.buffers id).refcnt = 0)
    (ho : ∀ j, j ≠ id → (c'.buffers j).refcnt = (c.buffers j).refcnt)
    (hb : ∀ j, (c'.buffers j).label = (c.buffers j).label ∧ (c'.buffers j).valid = (c.buffers j).valid) :
    CacheInv c' (moveTo .inactive l id) := by
  have hnot : id ∉ l .inactive := h.linked.disjoint id hid
  have hval := h.valid_of_active hid
  refine ⟨hl, ?_, ?_, ?_, ?_, ?_, ?_⟩
  · intro j
    by_cases hj : j = id
    · exact .inr (by simp [moveTo, hj])
    · simpa [moveTo, hj, List.mem_erase_of_ne hj] using h.mem j
  · intro j
    by_cases hj : j = id
    · simp [moveTo, hj, hr, (h.nodup .active).not_mem_erase]
    · simpa [moveTo, hj, List.mem_erase_of_ne hj, ho j hj] using h.active_iff j
  · intro j
    by_cases hj : j = id
    · simp [hj, hr]
    · rw [ho j hj]
      exact h.refcnt_le j
  · intro j hjv
    rw [(hb j).2] at hjv
    by_cases hj : j = id
    · rw [hj, hval] at hjv
      cases hjv
    · rw [(hb j).1, ho j hj]
      exact h.unused j hjv
  · intro i j
    rw [(hb i).1, (hb j).1, (hb i).2, (hb j).2]
    exact h.unique i j
  · simp only [moveTo, if_true, List.erase_of_not_mem hnot, List.pairwise_cons]
    refine ⟨fun j _ _ => by rw [(hb id).2, hval], h.behind.imp ?_⟩
    intro i j hij
    rw [(hb i).2, (hb j).2]
    exact hij

def initLists : ListKind → List BufferId
  | .active => []
  | .inactive => List.finRange N_BUFFER

lemma init_nodes : ∀ i : BufferId, LRUCache.new.init.nodes i =
    ⟨if i.val = 0 then none else (initLists .inactive)[i.val - 1]?, (initLists .inactive)[i.val + 1]?⟩ := by
  decide

lemma init : CacheInv LRUCache.new.init initLists := by
  have hnew : ∀ i : BufferId, LRUCache.new.init.buffers i = Buffer.new := fun _ => rfl
  refine ⟨⟨fun k => ?_, fun _ hi => absurd hi List.not_mem_nil⟩, fun id => .inr (List.mem_finRange id),
    fun id => ?_, fun id => ?_, fun id _ => ?_, fun i j hi => ?_, ?_⟩
  · cases k with
    | active => exact .of_getElem? rfl List.nodup_nil (by intro i y hy; cases hy)
    | inactive =>
      refine .of_getElem? rfl (List.nodup_finRange _) ?_
      intro i y hy
      obtain ⟨hi, hyi⟩ := List.getElem?_eq_some_iff.mp hy
      have hval : y.val = i := by
        rw [← hyi]
        exact congrArg Fin.val (List.getElem_finRange ..)
      rw [init_nodes, hval]
  · rw [hnew]
    exact ⟨fun hi => absurd hi List.not_mem_nil, fun hi => absurd rfl hi⟩
  · rw [hnew]
    exact Nat.zero_le 1
  · rw [hnew]
    exact ⟨rfl, rfl⟩
  · rw [hnew] at hi
    cases hi
  · exact List.pairwise_of_forall (fun i j hj => by rw [hnew] at hj; cases hj)

end CacheInv

/-! ### The operations -/

section Operations

variable (P : Profile) {s : BufState} {l : ListKind → List BufferId} {dev blockno : Nat} {id : BufferId} {idx : Nat} {s' : BufState}

lemma idOf_val {σ : Type} (id : BufferId) : (Buffer.idOf id.val : K σ BufferId) = pure id := by
  simp [Buffer.idOf, BufferId.new]

lemma onCache_modify (g : LRUCache → LRUCache) (s : BufState) :
    onCache (modify g) s = .ok ((), { s with cache := g s.cache }) := rfl

lemma read_active (h : CacheInv s.cache l)
    (hf : (l .active).find? (fun id => (s.cache.buffers id).label = (dev, blockno)) = some id) :
    Buffer.read P dev blockno s =
      .ok (id.val, { s with cache := s.cache.updBuffer id ({ · with locked := true }) }) := by
  have hv := h.valid_of_active (List.mem_of_find?_eq_some hf)
  simp [Buffer.read, K.bind_apply, onCache, h.get_active P hf, updBuffer, hv, Except.bind, Except.map]

lemma read_none (h : CacheInv s.cache l)
    (hf : (l .active).find? (fun id => (s.cache.buffers id).label = (dev, blockno)) = none)
    (hi : l .inactive = []) : Buffer.read P dev blockno s = .error .noBuffersAvailable := by
  simp [Buffer.read, K.bind_apply, onCache, h.get_none P hf hi, Except.bind, Except.map]

/-- A read that takes the buffer `id` from the inactive list. The device is asked unless the
buffer holds a valid copy of the block. -/
structure Taken (s s' : BufState) (l : ListKind → List BufferId) (dev blockno : Nat) (id : BufferId) :
    Prop where
  absent : (l .active).find? (fun id => (s.cache.buffers id).label = (dev, blockno)) = none
  candidate : CacheInv.candidate s.cache l dev blockno = some id
  linked : s'.cache.Linked (moveTo .active l id)
  other : ∀ j, j ≠ id → s'.cache.buffers j = s.cache.buffers j
  refcnt : (s'.cache.buffers id).refcnt = 1
  label : (s'.cache.buffers id).label = (dev, blockno)
  valid : (s'.cache.buffers id).valid = true
  data : if (s.cache.buffers id).valid = true ∧ (s.cache.buffers id).label = (dev, blockno) then
      (s'.cache.buffers id).data = (s.cache.buffers id).data ∧ s'.disk = s.disk
    else (s'.cache.buffers id).data =
        (if s.disk.outcome 0 then s.disk.blocks blockno else (s.cache.buffers id).data) ∧
      s'.disk = s.disk.next

lemma read_candidate (h : CacheInv s.cache l)
    (hf : (l .active).find? (fun id => (s.cache.buffers id).label = (dev, blockno)) = none)
    (hc : CacheInv.candidate s.cache l dev blockno = some id) :
    ∃ s', Buffer.read P dev blockno s = .ok (id.val, s') ∧ Taken s s' l dev blockno id := by
  obtain ⟨c', hget, hl, ho, hid⟩ := h.get_candidate P hf hc
  by_cases hv : (s.cache.buffers id).valid = true ∧ (s.cache.buffers id).label = (dev, blockno)
  · refine ⟨{ s with cache := c' }, ?_, hf, hc, hl, ho, ?_, ?_, ?_, ?_⟩
    · simp [Buffer.read, K.bind_apply, onCache, hget, hid, hv.1, hv.2, Except.bind, Except.map]
    · simp [hid]
    · simp [hid, Buffer.label]
    · simp [hid, hv.1, hv.2]
    · rw [if_pos hv]
      simp [hid]
  · have hv' : ((s.cache.buffers id).valid && decide ((s.cache.buffers id).label = (dev, blockno))) = false := by
      simpa using hv
    cases ho0 : s.disk.outcome 0 with
    | true =>
      refine ⟨⟨(c'.updBuffer id ({ · with data := s.disk.blocks blockno })).updBuffer id
        ({ · with valid := true }), s.disk.next⟩, ?_, hf, hc, ?_, ?_, ?_, ?_, ?_, ?_⟩
      · simp [Buffer.read, K.bind_apply, onCache, hget, hid, hv', rw, ho0, Except.bind, Except.map]
      · dsimp only
        exact (hl.updBuffer id _).updBuffer id _
      · intro j hj
        simp [updBuffer, hj, ho j hj]
      · simp [updBuffer, hid]
      · simp [updBuffer, hid, Buffer.label]
      · simp [updBuffer]
      · rw [if_neg hv]
        simp [updBuffer, hid, ho0]
    | false =>
      refine ⟨⟨c'.updBuffer id ({ · with valid := true }), s.disk.next⟩, ?_, hf, hc, ?_, ?_, ?_, ?_, ?_, ?_⟩
      · simp [Buffer.read, K.bind_apply, onCache, hget, hid, hv', rw, ho0, Except.bind, Except.map]
      · dsimp only
        exact hl.updBuffer id _
      · intro j hj
        simp [updBuffer, hj, ho j hj]
      · simp [updBuffer, hid]
      · simp [updBuffer, hid, Buffer.label]
      · simp [updBuffer]
      · rw [if_neg hv]
        simp [updBuffer, hid, ho0]

lemma release_active (h : CacheInv s.cache l) (hid : id ∈ l .active) :
    ∃ c', Buffer.release P id.val s = .ok ((), { s with cache := c' }) ∧
      c'.Linked (moveTo .inactive l id) ∧
      c'.buffers = Function.update s.cache.buffers id
        { s.cache.buffers id with refcnt := 0, locked := false } := by
  have href : (s.cache.buffers id).refcnt = 1 := by
    have h1 := h.refcnt_le id
    have h2 := (h.active_iff id).mp hid
    omega
  refine ⟨LRUCache.insertHead .inactive (s.cache.updBuffer id ({ · with refcnt := 0, locked := false })) id,
    ?_, (h.linked.updBuffer id _).insertHead .inactive hid, ?_⟩
  · unfold Buffer.release
    rw [idOf_val]
    simp only [K.bind_apply, K.get_apply, Except.bind, K.pure_apply, href, subW_of_le _ (le_refl 1),
      onCache_modify, Nat.sub_self, if_true, LRUCache.demoteToInactive, LRUCache.insertInactiveHead]
  · rw [LRUCache.insertHead_buffers, updBuffer]

lemma read_cases (h : CacheInv s.cache l)
    (hr : Buffer.read P dev blockno s = .ok (idx, s')) : ∃ id : BufferId, idx = id.val ∧
      ((id ∈ l .active ∧ (s.cache.buffers id).label = (dev, blockno) ∧
          s' = { s with cache := s.cache.updBuffer id ({ · with locked := true }) }) ∨
        Taken s s' l dev blockno id) := by
  cases hf : (l .active).find? (fun id => (s.cache.buffers id).label = (dev, blockno)) with
  | some id =>
    rw [read_active P h hf] at hr
    cases hr
    exact ⟨id, rfl, .inl ⟨List.mem_of_find?_eq_some hf, by simpa using List.find?_some hf, rfl⟩⟩
  | none =>
    cases hc : CacheInv.candidate s.cache l dev blockno with
    | some id =>
      obtain ⟨s1, h1, ht⟩ := read_candidate P h hf hc
      rw [h1] at hr
      cases hr
      exact ⟨id, rfl, .inr ht⟩
    | none =>
      have hi : l .inactive = [] := by
        rw [CacheInv.candidate, Option.or_eq_none_iff] at hc
        exact List.getLast?_eq_none_iff.mp hc.2
      rw [read_none P h hf hi] at hr
      cases hr

lemma idOf_ok {σ : Type} {t t' : σ} (h : (Buffer.idOf idx : K σ BufferId) t = .ok (id, t')) :
    idx = id.val ∧ t' = t := by
  unfold Buffer.idOf BufferId.new at h
  by_cases hi : idx < N_BUFFER
  · simp only [hi, dite_true, K.pure_apply, Except.ok.injEq, Prod.mk.injEq] at h
    exact ⟨congrArg Fin.val h.1, h.2.symm⟩
  · simp [hi] at h

lemma write_val (id : BufferId) (s : BufState) : Buffer.write id.val s = .ok ((),
    ⟨s.cache.updBuffer id ({ · with dirty := false }),
      if s.disk.outcome 0 then
        { s.disk.next with
          blocks := Function.update s.disk.blocks (s.cache.buffers id).blockNo (s.cache.buffers id).data }
      else s.disk.next⟩) := by
  unfold Buffer.write
  rw [idOf_val]
  cases h : s.disk.outcome 0 <;>
    simp [K.bind_apply, Except.bind, rw, onCache_modify, h]

lemma write_cases {u : Unit} (hw : Buffer.write idx s = .ok (u, s')) :
    ∃ id : BufferId, idx = id.val := by
  obtain ⟨id, s1, h1, -⟩ := K.bind_ok hw
  exact ⟨id, (idOf_ok h1).1⟩

lemma modifyData_val (id : BufferId) (f : Block → Block) (s : BufState) : Buffer.modifyData id.val f s =
    .ok ((), { s with cache := s.cache.updBuffer id (fun b => { b with data := f b.data }) }) := by
  unfold Buffer.modifyData
  rw [idOf_val]
  simp only [K.bind_apply, K.pure_apply, Except.bind, onCache_modify]

lemma modifyData_cases {f : Block → Block} {u : Unit}
    (hm : Buffer.modifyData idx f s = .ok (u, s')) : ∃ id : BufferId, idx = id.val := by
  obtain ⟨id, s1, h1, -⟩ := K.bind_ok hm
  exact ⟨id, (idOf_ok h1).1⟩

end Operations

end Glenda.Fs
