import Glenda.Fs.BufferRuns

/-!
# The cache against an uncached disk

`Plain` is a disk without a cache: a read hands out a private copy of the block, a write
stores the copy back. `Refines` relates the cache to it. The result is
`cache_transparent`: clients that follow the discipline `Plain.Allows` cannot tell the two
apart.
-/

namespace Glenda.Fs
open Glenda.Lib

/-- A copy of a block in the hands of a client; `clean` if it was not modified since the last
write. -/
structure Handle where
  block : Nat
  data : Block
  clean : Bool

structure Plain where
  blocks : Nat → Block
  held : BufferId → Option Handle

namespace Plain

/-- A block is not read again while it is held, the copies are used while they are held only,
a modified copy is written before its release, and there is a free handle for a read. -/
def Allows (p : Plain) : Call → Prop
  | .read dev blockno => dev = 0 ∧ (∀ id h, p.held id = some h → h.block ≠ blockno) ∧
      ∃ id, p.held id = none
  | .modify idx _ => ∃ (id : BufferId) (h : Handle), idx = id.val ∧ p.held id = some h
  | .write idx => ∃ (id : BufferId) (h : Handle), idx = id.val ∧ p.held id = some h
  | .release idx => ∃ (id : BufferId) (h : Handle), idx = id.val ∧ p.held id = some h ∧ h.clean = true

/-- The disk after a call on the handle `id`. -/
def next (p : Plain) (id : BufferId) : Call → Plain
  | .read _ blockno =>
    { p with held := Function.update p.held id (some ⟨blockno, p.blocks blockno, true⟩) }
  | .modify _ f =>
    { p with held := Function.update p.held id ((p.held id).map fun h => ⟨h.block, f h.data, false⟩) }
  | .write _ => match p.held id with
    | some h => ⟨Function.update p.blocks h.block h.data,
        Function.update p.held id (some { h with clean := true })⟩
    | none => p
  | .release _ => { p with held := Function.update p.held id none }

end Plain

/-- What the cache keeps for a handle, or for no handle, in one buffer. -/
def Agrees (b : Buffer) (blocks : Nat → Block) : Option Handle → Prop
  | some h => b.label = (0, h.block) ∧ b.data = h.data ∧ (h.clean = true → h.data = blocks h.block)
  | none => b.valid = true → b.label.1 = 0 ∧ b.data = blocks b.label.2

structure Refines (s : BufState) (p : Plain) (l : ListKind → List BufferId) : Prop where
  inv : CacheInv s.cache l
  device : ∀ n, s.disk.outcome n = true
  blocks : s.disk.blocks = p.blocks
  active : ∀ id, id ∈ l .active ↔ p.held id ≠ none
  agrees : ∀ id, Agrees (s.cache.buffers id) p.blocks (p.held id)

namespace Refines

variable {P : Profile} {s : BufState} {p : Plain} {l : ListKind → List BufferId} {id : BufferId}
  {h : Handle} {blockno : Nat}

lemma init (disk : Disk) (hd : ∀ n, disk.outcome n = true) :
    Refines ⟨LRUCache.new.init, disk⟩ ⟨disk.blocks, fun _ => none⟩ CacheInv.initLists := by
  refine ⟨CacheInv.init, hd, rfl, fun id => by simp [CacheInv.initLists], fun id hv => ?_⟩
  simp [LRUCache.init, LRUCache.new, Buffer.new] at hv

section

variable (hr : Refines s p l)
include hr

lemma mem_active (hh : p.held id = some h) : id ∈ l .active :=
  (hr.active id).mpr (by simp [hh])

lemma held (hh : p.held id = some h) : (s.cache.buffers id).label = (0, h.block) ∧
    (s.cache.buffers id).data = h.data ∧ (h.clean = true → h.data = p.blocks h.block) := by
  have hag := hr.agrees id
  rwa [hh] at hag

lemma dev (hv : (s.cache.buffers id).valid = true) :
    (s.cache.buffers id).label.1 = 0 := by
  have hag := hr.agrees id
  cases hh : p.held id with
  | some h => rw [(hr.held hh).1]
  | none =>
    rw [hh] at hag
    exact (hag hv).1

lemma taken {s' : BufState} (ht : Taken s s' l 0 blockno id) (hid : p.held id = none) :
    (s'.cache.buffers id).data = p.blocks blockno ∧ s'.disk.blocks = p.blocks ∧
      ∀ n, s'.disk.outcome n = true := by
  have hdata := ht.data
  split at hdata
  · rename_i hv
    have hag := hr.agrees id
    rw [hid] at hag
    have hcopy := (hag hv.1).2
    rw [hv.2] at hcopy
    exact ⟨hdata.1.trans hcopy, hdata.2 ▸ hr.blocks, hdata.2 ▸ hr.device⟩
  · rw [if_pos (hr.device 0), hr.blocks] at hdata
    refine ⟨hdata.1, ?_, ?_⟩
    · rw [hdata.2]
      exact hr.blocks
    · rw [hdata.2]
      exact fun n => hr.device (n + 1)

lemma read (ha : p.Allows (.read 0 blockno)) :
    ∃ (id : BufferId) (s' : BufState) (l' : ListKind → List BufferId),
      Buffer.read P 0 blockno s = .ok (id.val, s') ∧ p.held id = none ∧
      Refines s' (p.next id (.read 0 blockno)) l' := by
  obtain ⟨-, hne, free, hfree⟩ := ha
  have hfind : (l .active).find? (fun id => (s.cache.buffers id).label = (0, blockno)) = none := by
    rw [List.find?_eq_none]
    intro j hj
    obtain ⟨g, hg⟩ := Option.ne_none_iff_exists'.mp ((hr.active j).mp hj)
    simpa [(hr.held hg).1] using hne j g hg
  have hin : free ∈ l .inactive :=
    (hr.inv.mem free).resolve_left fun hact => (hr.active free).mp hact hfree
  obtain ⟨id, hc⟩ : ∃ id, CacheInv.candidate s.cache l 0 blockno = some id := by
    rw [CacheInv.candidate, List.getLast?_eq_getLast_of_ne_nil (List.ne_nil_of_mem hin)]
    exact ⟨_, Option.or_some⟩
  obtain ⟨s', hread, ht⟩ := read_candidate P hr.inv hfind hc
  have hid : p.held id = none := by
    by_contra hn
    exact hr.inv.linked.disjoint id ((hr.active id).mpr hn) (CacheInv.candidate_mem hc)
  obtain ⟨hdata, hblocks, hdevice⟩ := hr.taken ht hid
  refine ⟨id, s', _, hread, hid, Effect.inv hr.inv (.take ht), hdevice, hblocks, fun j => ?_, fun j => ?_⟩
  · by_cases hj : j = id
    · simp [hj, LRUCache.moveTo, Plain.next]
    · simpa [LRUCache.moveTo, Plain.next, hj, List.mem_erase_of_ne hj] using hr.active j
  · by_cases hj : j = id
    · simp [hj, Plain.next, Agrees, ht.label, hdata]
    · simpa [Plain.next, hj, ht.other j hj] using hr.agrees j

lemma updBuffer (hh : p.held id = some h) {f : Buffer → Buffer} {g : Handle}
    {p' : Plain} {disk : Disk}
    (hf : ∀ b : Buffer, (f b).refcnt = b.refcnt ∧ (f b).label = b.label ∧ (f b).valid = b.valid)
    (hg : g.block = h.block) (hd : ∀ n, disk.outcome n = true) (hb : disk.blocks = p'.blocks)
    (hheld : p'.held = Function.update p.held id (some g))
    (hother : ∀ b, b ≠ h.block → p'.blocks b = p.blocks b)
    (hdata : (f (s.cache.buffers id)).data = g.data)
    (hclean : g.clean = true → g.data = p'.blocks g.block) :
    Refines ⟨s.cache.updBuffer id f, disk⟩ p' l := by
  refine ⟨hr.inv.updBuffer id f hf, hd, hb, fun j => ?_, fun j => ?_⟩
  · by_cases hj : j = id
    · simpa [hj, hheld] using hr.mem_active hh
    · simpa [hj, hheld] using hr.active j
  · by_cases hj : j = id
    · subst hj
      simp only [hheld, Function.update_self, Agrees, LRUCache.updBuffer, (hf _).2.1, hg, hdata,
        (hr.held hh).1, true_and]
      rwa [hg] at hclean
    · have hne : (s.cache.buffers j).valid = true → (s.cache.buffers j).label.2 ≠ h.block := by
        intro hv he
        apply hj
        apply hr.inv.unique j id hv (hr.inv.valid_of_active (hr.mem_active hh))
        rw [(hr.held hh).1]
        exact Prod.ext (hr.dev hv) he
      have hag := hr.agrees j
      simp only [hheld, LRUCache.updBuffer, Function.update_of_ne hj]
      cases hk : p.held j with
      | some k =>
        obtain ⟨hlab, hdat, hcl⟩ := hr.held hk
        have hkb : k.block ≠ h.block := by
          simpa [hlab] using hne (hr.inv.valid_of_active (hr.mem_active hk))
        exact ⟨hlab, hdat, fun hc => by rw [hother _ hkb, hcl hc]⟩
      | none =>
        rw [hk] at hag
        intro hv
        rw [hother _ (hne hv)]
        exact hag hv

lemma modify (hh : p.held id = some h) (f : Block → Block) :
    ∃ s', Buffer.modifyData id.val f s = .ok ((), s') ∧ Refines s' (p.next id (.modify id.val f)) l := by
  refine ⟨_, modifyData_val id f s, ?_⟩
  exact hr.updBuffer (g := ⟨h.block, f h.data, false⟩) hh (fun _ => ⟨rfl, rfl, rfl⟩) rfl hr.device hr.blocks
    (by simp [Plain.next, hh]) (fun _ _ => rfl) (by simp [(hr.held hh).2.1]) (by simp)

lemma write (hh : p.held id = some h) :
    ∃ s', Buffer.write id.val s = .ok ((), s') ∧ Refines s' (p.next id (.write id.val)) l := by
  refine ⟨_, write_val id s, ?_⟩
  have hblock : (s.cache.buffers id).blockNo = h.block := congrArg Prod.snd (hr.held hh).1
  rw [if_pos (hr.device 0), hblock, (hr.held hh).2.1, hr.blocks]
  refine hr.updBuffer (g := { h with clean := true }) hh (fun _ => ⟨rfl, rfl, rfl⟩) rfl
    (fun n => hr.device (n + 1)) (by simp [Plain.next, hh]) (by simp [Plain.next, hh]) ?_
    (hr.held hh).2.1 (by simp [Plain.next, hh])
  intro b hb
  simp [Plain.next, hh, hb]

lemma release (hh : p.held id = some h) (hc : h.clean = true) :
    ∃ s' l', Buffer.release P id.val s = .ok ((), s') ∧ Refines s' (p.next id (.release id.val)) l' := by
  obtain ⟨c', hrel, hl, hb⟩ := release_active P hr.inv (hr.mem_active hh)
  refine ⟨_, _, hrel, Effect.inv hr.inv (.release (hr.mem_active hh) hl hb), hr.device, hr.blocks,
    fun j => ?_, fun j => ?_⟩
  · by_cases hj : j = id
    · subst hj
      simp [LRUCache.moveTo, Plain.next, (hr.inv.nodup .active).mem_erase_iff]
    · simpa [LRUCache.moveTo, Plain.next, hj, List.mem_erase_of_ne hj] using hr.active j
  · by_cases hj : j = id
    · subst hj
      obtain ⟨hlab, hdat, hcl⟩ := hr.held hh
      have hlab' : (c'.buffers j).label = (0, h.block) := by simpa [hb, Buffer.label] using hlab
      have hdat' : (c'.buffers j).data = h.data := by simpa [hb] using hdat
      simp [Plain.next, Agrees, hlab', hdat', hcl hc]
    · simpa [Plain.next, hj, hb] using hr.agrees j

/-- One call on both sides. The handle is the one named by the call, or a free one for a read. -/
lemma step {c : Call} (ha : p.Allows c) :
    ∃ (id : BufferId) (s' : BufState) (l' : ListKind → List BufferId),
      c.exec P s = .ok (id.val, s') ∧ Refines s' (p.next id c) l' := by
  cases c with
  | read dev blockno =>
    obtain rfl := ha.1
    obtain ⟨id, s', l', he, -, hr'⟩ := hr.read (P := P) ha
    exact ⟨id, s', l', he, hr'⟩
  | modify idx f =>
    obtain ⟨id, h, rfl, hh⟩ := ha
    obtain ⟨s', he, hr'⟩ := hr.modify hh f
    exact ⟨id, s', l, by simp only [Call.exec, K.bind_apply, he, Except.bind, K.pure_apply], hr'⟩
  | write idx =>
    obtain ⟨id, h, rfl, hh⟩ := ha
    obtain ⟨s', he, hr'⟩ := hr.write hh
    exact ⟨id, s', l, by simp only [Call.exec, K.bind_apply, he, Except.bind, K.pure_apply], hr'⟩
  | release idx =>
    obtain ⟨id, h, rfl, hh, hc⟩ := ha
    obtain ⟨s', l', he, hr'⟩ := hr.release (P := P) hh hc
    exact ⟨id, s', l', by simp only [Call.exec, K.bind_apply, he, Except.bind, K.pure_apply], hr'⟩

end

end Refines

/-- The cache and the plain disk under the same allowed calls. -/
inductive Runs (P : Profile) (disk : Disk) : BufState → Plain → Prop
  | init : Runs P disk ⟨LRUCache.new.init, disk⟩ ⟨disk.blocks, fun _ => none⟩
  | step {s s' : BufState} {p : Plain} {c : Call} {id : BufferId} (hr : Runs P disk s p)
      (ha : p.Allows c) (he : c.exec P s = .ok (id.val, s')) : Runs P disk s' (p.next id c)

lemma Runs.refines {P : Profile} {disk : Disk} {s : BufState} {p : Plain}
    (hd : ∀ n, disk.outcome n = true) (hr : Runs P disk s p) : ∃ l, Refines s p l := by
  induction hr with
  | init => exact ⟨_, .init disk hd⟩
  | step hr ha he ih =>
    obtain ⟨l, hl⟩ := ih
    obtain ⟨id, s', l', he', hr'⟩ := hl.step ha
    rw [he] at he'
    obtain ⟨hid, rfl⟩ : _ ∧ _ := by simpa using he'
    obtain rfl := Fin.ext hid
    exact ⟨l', hr'⟩

/-- After any allowed calls every allowed call succeeds, a read of a block makes visible what
the plain disk holds there, and the copies in the hands of the clients are the same. -/
theorem cache_transparent {P : Profile} {disk : Disk} (hd : ∀ n, disk.outcome n = true)
    {s : BufState} {p : Plain} (hr : Runs P disk s p) :
    (∀ c, p.Allows c → ∃ (id : BufferId) (s' : BufState), c.exec P s = .ok (id.val, s')) ∧
    (∀ blockno, p.Allows (.read 0 blockno) → ∀ idx s', Buffer.read P 0 blockno s = .ok (idx, s') →
      Buffer.getData idx s' = .ok (p.blocks blockno, s')) ∧
    (∀ id h, p.held id = some h → Buffer.getData id.val s = .ok (h.data, s)) ∧
    s.disk.blocks = p.blocks := by
  obtain ⟨l, hl⟩ := hr.refines hd
  have hget : ∀ (id : BufferId) (t : BufState),
      Buffer.getData id.val t = .ok ((t.cache.buffers id).data, t) := by
    intro id t
    unfold Buffer.getData
    rw [idOf_val]
    rfl
  refine ⟨fun c ha => ?_, fun blockno ha idx s' he => ?_, fun id h hh => ?_, hl.blocks⟩
  · obtain ⟨id, s', -, he, -⟩ := hl.step (P := P) ha
    exact ⟨id, s', he⟩
  · obtain ⟨id, s₁, l', he', -, hr'⟩ := hl.read (P := P) ha
    rw [he] at he'
    obtain ⟨rfl, rfl⟩ : _ ∧ _ := by simpa using he'
    have hheld : (p.next id (.read 0 blockno)).held id = some ⟨blockno, p.blocks blockno, true⟩ := by
      simp [Plain.next]
    rw [hget, (hr'.held hheld).2.1]
  · rw [hget, (hl.held hh).2.1]

theorem cache_transparent_second_read : ∃ (s : BufState) (p : Plain) (id : BufferId),
    Runs .dev zeroDisk s p ∧ p.held id ≠ none ∧ ∃ (j : BufferId) (s' : BufState),
      Buffer.read .dev 0 6 s = .ok (j.val, s') ∧ Buffer.getData j.val s' = .ok (fun _ => 0, s') := by
  have hd : ∀ n, zeroDisk.outcome n = true := fun _ => rfl
  have hr₀ : Runs .dev zeroDisk ⟨LRUCache.new.init, zeroDisk⟩ ⟨zeroDisk.blocks, fun _ => none⟩ := .init
  have ha₀ : Plain.Allows ⟨zeroDisk.blocks, fun _ => none⟩ (.read 0 5) :=
    ⟨rfl, fun _ _ h => (Option.some_ne_none _ h.symm).elim, 0, rfl⟩
  obtain ⟨id, s, he⟩ := (cache_transparent hd hr₀).1 (.read 0 5) ha₀
  have hr₁ := hr₀.step ha₀ he
  have ha₁ : (Plain.next ⟨zeroDisk.blocks, fun _ => none⟩ id (.read 0 5)).Allows (.read 0 6) := by
    refine ⟨rfl, fun j h hj => ?_, id + 1, ?_⟩
    · by_cases hji : j = id
      · obtain rfl : ⟨5, zeroDisk.blocks 5, true⟩ = h := by simpa [Plain.next, hji] using hj
        decide
      · simp [Plain.next, hji] at hj
    · simp [Plain.next, Function.update]
  obtain ⟨j, s', he'⟩ := (cache_transparent hd hr₁).1 (.read 0 6) ha₁
  exact ⟨s, _, id, hr₁, by simp [Plain.next], j, s', he', (cache_transparent hd hr₁).2.1 6 ha₁ j.val s' he'⟩

end Glenda.Fs
