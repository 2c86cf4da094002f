import Glenda.Fs.BufferRuns

/-!
# Which buffer is recycled

The inactive list is ordered by the last release of its buffers, the latest one first, with the buffers that were never
used at its end. `eviction_least_recent` reads the choice of a read that misses off that order.
-/

namespace Glenda.Fs
open Glenda.Lib

/-- The times of the last releases after the call number `n`. -/
def Call.stamp (n : Nat) (t : BufferId → Option Nat) : Call → BufferId → Option Nat
  | .release idx => fun id => if id.val = idx then some n else t id
  | .read _ _ | .modify _ _ | .write _ => t

/-- The position in the trace of the last release of each buffer. -/
def lastRelease (tr : List (Held × Call)) : BufferId → Option Nat :=
  tr.zipIdx.foldl (fun t x => x.1.2.stamp x.2 t) fun _ => none

/-- The buffer `i` is recycled before `j`. -/
def Older (t : BufferId → Option Nat) (i j : BufferId) : Prop :=
  match t i, t j with
  | none, none => j < i
  | none, some _ => True
  | some _, none => False
  | some a, some b => a < b

lemma lastRelease_snoc (tr : List (Held × Call)) (h : Held) (c : Call) :
    lastRelease (tr ++ [(h, c)]) = c.stamp tr.length (lastRelease tr) := by
  unfold lastRelease
  rw [List.zipIdx_append, List.foldl_append]
  simp

lemma Older.congr {t t' : BufferId → Option Nat} {i j : BufferId} (h : Older t i j) (hi : t' i = t i) (hj : t' j = t j) :
    Older t' i j := by
  unfold Older at *
  rwa [hi, hj]

/-- What a run keeps: the order of the inactive list, and that a buffer is invalid as long as it was never used. -/
structure Recency (t : BufferId → Option Nat) (n : Nat) (c : LRUCache) (l : ListKind → List BufferId) : Prop where
  ordered : (l .inactive).Pairwise fun i j => Older t j i
  past : ∀ id a, t id = some a → a < n
  unused : ∀ id, (c.buffers id).valid = false → t id = none
  used : ∀ id ∈ l .inactive, (c.buffers id).valid = true → t id ≠ none

variable {P : Profile} {disk : Disk} {tr : List (Held × Call)} {h : Held} {s s' : BufState} {l l' : ListKind → List BufferId}
  {c : Call} {id : BufferId} {t : BufferId → Option Nat} {n dev blockno : Nat}

lemma Recency.init : Recency (fun _ => none) 0 LRUCache.new.init CacheInv.initLists := by
  refine ⟨?_, nofun, fun _ _ => rfl, fun id _ hv => ?_⟩
  · exact (List.pairwise_lt_finRange N_BUFFER).imp fun hlt => hlt
  · cases hv

/-- The stamps and the flags that matter are unchanged, and no buffer joins the inactive list. -/
lemma Recency.keep (h : Recency t n s.cache l) (hsub : (l' .inactive).Sublist (l .inactive))
    (hv : ∀ j, (s.cache.buffers j).valid = true → (s'.cache.buffers j).valid = true)
    (hold : ∀ j ∈ l' .inactive, (s'.cache.buffers j).valid = true → (s.cache.buffers j).valid = true) :
    Recency t (n + 1) s'.cache l' := by
  refine ⟨h.ordered.sublist hsub, fun j a hj => ?_, fun j hj => ?_, fun j hj hjv => ?_⟩
  · have hlt := h.past j a hj
    omega
  · apply h.unused
    by_contra hn
    rw [hv j (by simpa using hn)] at hj
    cases hj
  · exact h.used j (hsub.subset hj) (hold j hj hjv)

lemma Recency.release (h : Recency t n s.cache l) (hc : CacheInv s.cache l) (hid : id ∈ l .active)
    (hv : ∀ j, (s'.cache.buffers j).valid = (s.cache.buffers j).valid) :
    Recency (Call.stamp n t (.release id.val)) (n + 1) s'.cache (LRUCache.moveTo .inactive l id) := by
  have hnot : id ∉ l .inactive := hc.linked.disjoint id hid
  have hlist : LRUCache.moveTo .inactive l id .inactive = id :: l .inactive := by
    unfold LRUCache.moveTo
    rw [if_pos rfl, List.erase_of_not_mem hnot]
  have hself : Call.stamp n t (.release id.val) id = some n := if_pos rfl
  have hother : ∀ j, j ≠ id → Call.stamp n t (.release id.val) j = t j := by
    intro j hj
    exact if_neg fun he => hj (Fin.ext he)
  refine ⟨?_, fun j a hj => ?_, fun j hj => ?_, fun j hj hjv => ?_⟩
  · rw [hlist, List.pairwise_cons]
    constructor
    · intro j hj
      have hne : j ≠ id := fun he => hnot (he ▸ hj)
      unfold Older
      rw [hself, hother j hne]
      cases ht : t j with
      | none => trivial
      | some a => exact h.past j a ht
    · refine h.ordered.imp_of_mem fun {i j} hi hj hold => hold.congr ?_ ?_
      · exact hother j fun he => hnot (he ▸ hj)
      · exact hother i fun he => hnot (he ▸ hi)
  · by_cases hji : j = id
    · rw [hji, hself] at hj
      cases hj
      omega
    · rw [hother j hji] at hj
      have hlt := h.past j a hj
      omega
  · rw [hv] at hj
    have hne : j ≠ id := by
      rintro rfl
      rw [hc.valid_of_active hid] at hj
      cases hj
    rw [hother j hne]
    exact h.unused j hj
  · by_cases hji : j = id
    · rw [hji, hself]
      nofun
    · rw [hother j hji]
      rw [hlist] at hj
      exact h.used j ((List.mem_cons.mp hj).resolve_left hji) (hv j ▸ hjv)

lemma Recency.step (h : Recency t n s.cache l) (hc : CacheInv s.cache l) (he : Effect s l c id s' l')
    (hhit : ∀ dev blockno, c = .read dev blockno → ∀ j ∈ l .active, (s.cache.buffers j).label ≠ (dev, blockno)) :
    Recency (c.stamp n t) (n + 1) s'.cache l' := by
  have hupd : ∀ f : Buffer → Buffer, (∀ b, (f b).valid = b.valid) →
      ∀ j, ((s.cache.updBuffer id f).buffers j).valid = (s.cache.buffers j).valid := by
    intro f hf j
    unfold LRUCache.updBuffer
    by_cases hj : j = id
    · rw [hj]
      exact (congrArg Buffer.valid (Function.update_self ..)).trans (hf _)
    · exact congrArg Buffer.valid (Function.update_of_ne hj ..)
  cases he with
  | hit hid hl => exact absurd hl (hhit _ _ rfl id hid)
  | take ht =>
    have hsub : (LRUCache.moveTo .active l id .inactive).Sublist (l .inactive) := by
      unfold LRUCache.moveTo
      rw [if_neg (by decide)]
      exact List.erase_sublist
    refine h.keep hsub (fun j hj => ?_) fun j hj hjv => ?_
    · by_cases hji : j = id
      · rw [hji]
        exact ht.valid
      · rw [ht.other j hji]
        exact hj
    · have hji : j ≠ id := by
        rintro rfl
        unfold LRUCache.moveTo at hj
        rw [if_neg (by decide)] at hj
        exact (hc.nodup .inactive).not_mem_erase hj
      rwa [ht.other j hji] at hjv
  | @modify id f =>
    have hv := hupd (fun b => { b with data := f b.data }) fun _ => rfl
    exact h.keep (List.Sublist.refl _) (fun j hj => (hv j).trans hj) fun j _ hj => (hv j).symm.trans hj
  | write hd =>
    have hv := hupd ({ · with dirty := false }) fun _ => rfl
    exact h.keep (List.Sublist.refl _) (fun j hj => (hv j).trans hj) fun j _ hj => (hv j).symm.trans hj
  | release hid hl hb =>
    refine h.release hc hid fun j => ?_
    dsimp only
    rw [hb]
    by_cases hj : j = id
    · rw [hj, Function.update_self]
    · rw [Function.update_of_ne hj]

lemma Run.recency (hr : Run P disk tr h) (ha : ∀ x ∈ tr, x.1.Allowed x.2) : ∃ l, CacheInv h.state.cache l ∧
    (∀ id, h.holds id = (h.state.cache.buffers id).refcnt) ∧ Recency (lastRelease tr) tr.length h.state.cache l := by
  induction hr with
  | nil => exact ⟨_, CacheInv.init, fun _ => rfl, .init⟩
  | @snoc tr h c id s' hr hm he ih =>
    obtain ⟨l, hl, hh, hrec⟩ := ih fun x hx => ha x (List.mem_append_left _ hx)
    have hallow := ha (h, c) (by simp)
    have hg : ∀ i : BufferId, c = .release i.val → (h.state.cache.buffers i).refcnt ≠ 0 := by
      intro i hc
      rw [← hh i]
      exact hm i hc
    obtain ⟨id', l', hid, hf⟩ := exec_effect hl he hg
    obtain rfl := Fin.ext hid
    refine ⟨l', hf.inv hl, hf.count hl hh hallow, ?_⟩
    rw [lastRelease_snoc, List.length_append, List.length_singleton]
    refine hrec.step hl hf fun dev blockno hc j hj => ?_
    apply hallow dev blockno j hc
    rw [hh]
    exact (hl.active_iff j).mp hj

/-! ### The choice -/

lemma Recency.older_of_last (h : Recency t n s.cache l) (hlast : (l .inactive).getLast? = some id) {j : BufferId}
    (hj : j ∈ l .inactive) (hne : j ≠ id) : Older t id j := by
  obtain ⟨l0, hl⟩ := List.getLast?_eq_some_iff.mp hlast
  have hord := h.ordered
  rw [hl] at hord hj
  have hj0 : j ∈ l0 := by simpa [hne] using hj
  exact (List.pairwise_append.mp hord).2.2 j hj0 id (List.mem_singleton_self id)

/-- A read that misses recycles the least recently released buffer, a buffer that was never used first and of these the
one with the highest index. Only a read of block 0 takes the lowest one, since the buffers that were never used carry
that number. A read that hits changes no label. -/
theorem eviction_least_recent (hr : Run P disk tr h) (ha : ∀ x ∈ tr, x.1.Allowed x.2) (hallow : h.Allowed (.read dev blockno))
    {idx : Nat} (he : Buffer.read P dev blockno h.state = .ok (idx, s')) : ∃ id : BufferId, idx = id.val ∧
    ((∃ j, (h.state.cache.buffers j).valid = true ∧ (h.state.cache.buffers j).label = (dev, blockno)) →
      (h.state.cache.buffers id).label = (dev, blockno) ∧
        ∀ j, (s'.cache.buffers j).label = (h.state.cache.buffers j).label) ∧
    ((∀ j, (h.state.cache.buffers j).valid = true → (h.state.cache.buffers j).label ≠ (dev, blockno)) →
      h.holds id = 0 ∧ (∀ j, j ≠ id → s'.cache.buffers j = h.state.cache.buffers j) ∧
      ((dev, blockno) ≠ (0, 0) ∨ (∀ j, h.holds j = 0 → lastRelease tr j ≠ none) →
        ∀ j, h.holds j = 0 → j ≠ id → Older (lastRelease tr) id j) ∧
      ((dev, blockno) = (0, 0) → (∃ j, h.holds j = 0 ∧ lastRelease tr j = none) →
        lastRelease tr id = none ∧ ∀ j, h.holds j = 0 → lastRelease tr j = none → id ≤ j)) := by
  obtain ⟨l, hl, hh, hrec⟩ := hr.recency ha
  have hin : ∀ j, h.holds j = 0 ↔ j ∈ l .inactive := by
    intro j
    have hact := hl.active_iff j
    have hmem := hl.mem j
    have hdisj := hl.linked.disjoint j
    rw [hh]
    tauto
  obtain ⟨id, hid, ⟨hact, hlab, rfl⟩ | ht⟩ := read_cases P hl he
  · refine absurd hlab (hallow dev blockno id rfl ?_)
    rw [hh]
    exact (hl.active_iff id).mp hact
  · refine ⟨id, hid, ?_, fun hmiss => ?_⟩
    · rintro ⟨j, hv, hlab⟩
      obtain rfl := hl.candidate_unique ht.absent ht.candidate j hv hlab
      refine ⟨hlab, fun i => ?_⟩
      by_cases hi : i = j
      · rw [hi, ht.label, hlab]
      · rw [ht.other i hi]
    · have hcand := ht.candidate
      unfold CacheInv.candidate at hcand
      refine ⟨(hin id).mpr (CacheInv.candidate_mem ht.candidate), ht.other, fun hcase j hj hne => ?_, fun hzero hnew => ?_⟩
      · have hnone : (l .inactive).find? (fun i => (h.state.cache.buffers i).label = (dev, blockno)) = none := by
          rw [List.find?_eq_none]
          intro i hi hlab
          have hlab : (h.state.cache.buffers i).label = (dev, blockno) := by simpa using hlab
          cases hv : (h.state.cache.buffers i).valid with
          | true => exact hmiss i hv hlab
          | false =>
            rcases hcase with hcase | hcase
            · exact hcase (hlab.symm.trans (hl.unused i hv).1)
            · exact hcase i ((hin i).mpr hi) (hrec.unused i hv)
        rw [hnone, Option.none_or] at hcand
        exact hrec.older_of_last hcand ((hin j).mp hj) hne
      · have hfree : ∀ j, h.holds j = 0 → lastRelease tr j = none → (h.state.cache.buffers j).label = (dev, blockno) := by
          intro j hj hnone
          rw [hzero]
          apply (hl.unused j _).1
          by_contra hv
          exact hrec.used j ((hin j).mp hj) (by simpa using hv) hnone
        obtain ⟨i, hi, hnone⟩ := hnew
        cases hf : (l .inactive).find? (fun i => (h.state.cache.buffers i).label = (dev, blockno)) with
        | none => exact absurd (hfree i hi hnone) (by simpa using List.find?_eq_none.mp hf i ((hin i).mp hi))
        | some j =>
          rw [hf, Option.some_or] at hcand
          cases hcand
          obtain ⟨hlab, l₁, l₂, hlist, hbefore⟩ := List.find?_eq_some_iff_append.mp hf
          have hlab : (h.state.cache.buffers id).label = (dev, blockno) := by simpa using hlab
          have hnoneid : lastRelease tr id = none := by
            apply hrec.unused
            by_contra hv
            exact hmiss id (by simpa using hv) hlab
          refine ⟨hnoneid, fun j hj hjnone => ?_⟩
          have hmem := (hin j).mp hj
          have hord := hrec.ordered
          rw [hlist] at hmem hord
          rcases List.mem_append.mp hmem with hmem | hmem
          · exact absurd (hfree j hj hjnone) (by simpa using hbefore j hmem)
          · rcases List.mem_cons.mp hmem with rfl | hmem
            · exact le_refl j
            · have hold := (List.pairwise_cons.mp (List.pairwise_append.mp hord).2.1).1 j hmem
              unfold Older at hold
              rw [hjnone, hnoneid] at hold
              exact le_of_lt hold

/-- The first read of a block takes the last buffer. -/
theorem eviction_least_recent_first : ∃ s', Buffer.read .dev 0 5 ⟨LRUCache.new.init, zeroDisk⟩ = .ok ((31 : BufferId).val, s') ∧
    ∀ j : BufferId, j ≠ 31 → Older (lastRelease []) 31 j := by
  obtain ⟨s', he, -⟩ := read_first .dev zeroDisk
  refine ⟨s', he, fun j hj => ?_⟩
  obtain ⟨id, hid, -, hmiss⟩ := @eviction_least_recent .dev zeroDisk _ _ _ _ _ .nil (by simp)
    (fun _ _ _ _ hh => absurd rfl hh) _ he
  obtain rfl := Fin.ext hid
  obtain ⟨-, -, hold, -⟩ := hmiss (fun j hv => by cases hv)
  exact hold (.inl (by decide)) j rfl hj

/-- No buffer is valid, but a read of block 0 takes the first buffer although the last one comes before it. -/
theorem first_buffer_taken : ∃ s', Buffer.read .dev 0 0 ⟨LRUCache.new.init, zeroDisk⟩ = .ok ((0 : BufferId).val, s') ∧
    (∀ j, (LRUCache.new.init.buffers j).valid = false) ∧ Older (lastRelease []) 31 0 ∧ ¬Older (lastRelease []) 0 31 := by
  have hc : CacheInv.candidate LRUCache.new.init CacheInv.initLists 0 0 = some 0 := by decide
  obtain ⟨s', he, -⟩ := read_candidate .dev (s := ⟨LRUCache.new.init, zeroDisk⟩) CacheInv.init rfl hc
  exact ⟨s', he, fun _ => rfl, show (0 : BufferId) < 31 by decide, show ¬(31 : BufferId) < 0 by decide⟩

end Glenda.Fs
