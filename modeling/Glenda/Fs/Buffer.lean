import Glenda.Fs.LRUCache

/-!
# The buffer cache: reading, writing and releasing blocks

Model of `fs/buffer/mod.rs` over the disk driver. A request to the device is served at
once; `outcome` tells which requests succeed, and a failed one transfers nothing. The
driver looks at the status byte only to see that the request is no longer in progress.
-/

namespace Glenda.Fs
open Glenda.Lib
open LRUCache (find findActive findInactive insertActiveHead insertHead_buffers moveTo promoteToActive recycleLru updBuffer walk)

structure Disk where
  blocks : Nat → Block
  outcome : Nat → Bool

/-- The device after a request that transferred nothing to it. -/
def Disk.next (d : Disk) : Disk := { d with outcome := fun n => d.outcome (n + 1) }

structure BufState where
  cache : LRUCache
  disk : Disk

def onCache {α : Type} (x : K LRUCache α) : K BufState α := fun s =>
  (x s.cache).map (fun r => (r.1, { s with cache := r.2 }))

/-- `virtio::disk::rw` on the data of a buffer. -/
def rw (id : BufferId) (blockno : Nat) (write : Bool) : K BufState Unit := modify fun s =>
  if s.disk.outcome 0 then
    if write then
      { s with disk := { s.disk.next with
          blocks := Function.update s.disk.blocks blockno (s.cache.buffers id).data } }
    else ⟨s.cache.updBuffer id ({ · with data := s.disk.blocks blockno }), s.disk.next⟩
  else { s with disk := s.disk.next }

namespace Buffer

variable (P : Profile)

def get (dev blockno : Nat) : K LRUCache BufferId := do
  match ← walk ((← MonadState.get).findActive dev blockno) with
  | some id =>
    modify (·.updBuffer id ({ · with locked := true }))
    return id
  | none =>
    match ← walk ((← MonadState.get).findInactive dev blockno) with
    | some id =>
      promoteToActive P id
      modify (·.updBuffer id ({ · with locked := true }))
      return id
    | none => recycleLru P dev blockno

def read (dev blockno : Nat) : K BufState Nat := do
  let id ← onCache (get P dev blockno)
  if !((← MonadState.get).cache.buffers id).valid then
    rw id blockno false
    onCache (modify (·.updBuffer id ({ · with valid := true })))
  return id.val

def idOf {σ : Type} (idx : Nat) : K σ BufferId :=
  match BufferId.new idx with
  | some id => pure id
  | none => throw .invalidBufferIndex

def write (idx : Nat) : K BufState Unit := do
  let id ← idOf idx
  rw id ((← MonadState.get).cache.buffers id).blockNo true
  onCache (modify (·.updBuffer id ({ · with dirty := false })))

def release (idx : Nat) : K BufState Unit := do
  let id ← idOf idx
  let refcnt ← subW P 32 ((← MonadState.get).cache.buffers id).refcnt 1
  onCache (modify (·.updBuffer id ({ · with refcnt := refcnt, locked := false })))
  if refcnt = 0 then
    onCache (LRUCache.demoteToInactive id)

/-- A load through the pointer that `get_data_ptr` returns. -/
def getData (idx : Nat) : K BufState Block := do
  let id ← idOf idx
  return ((← MonadState.get).cache.buffers id).data

/-- Stores through the pointer that `get_data_ptr` returns. -/
def modifyData (idx : Nat) (f : Block → Block) : K BufState Unit := do
  let id ← idOf idx
  onCache (modify (·.updBuffer id (fun b => { b with data := f b.data })))

end Buffer

/-! ### Where the lists stand -/

/-- The representation invariant between two operations, for the two lists `l`: a buffer is
active as long as it is referenced, valid copies are unique, and the buffers that were never
used, which all carry the label of block 0, stand behind every used one. -/
structure CacheInv (c : LRUCache) (l : ListKind → List BufferId) : Prop where
  linked : c.Linked l
  mem : ∀ id, id ∈ l .active ∨ id ∈ l .inactive
  active_iff : ∀ id, id ∈ l .active ↔ (c.buffers id).refcnt ≠ 0
  refcnt_le : ∀ id, (c.buffers id).refcnt ≤ 1
  unused : ∀ id, (c.buffers id).valid = false →
    (c.buffers id).label = (0, 0) ∧ (c.buffers id).refcnt = 0
  unique : ∀ i j, (c.buffers i).valid = true → (c.buffers j).valid = true →
    (c.buffers i).label = (c.buffers j).label → i = j
  behind : (l .inactive).Pairwise (fun i j => (c.buffers j).valid = true → (c.buffers i).valid = true)

namespace CacheInv

variable {c : LRUCache} {l : ListKind → List BufferId} {dev blockno : Nat} {id : BufferId}

lemma length_le (h : CacheInv c l) (k : ListKind) : (l k).length ≤ N_BUFFER := by
  simpa using (h.linked.dlist k).nodup.length_le_card

lemma find_eq (h : CacheInv c l) (k : ListKind) :
    c.find k dev blockno = some ((l k).find? (fun id => (c.buffers id).label = (dev, blockno))) := by
  unfold find
  rw [(h.linked.dlist k).chain.findFrom (h.length_le k)]
  congr 2
  funext id
  rw [Bool.eq_iff_iff]
  simp [Buffer.label, Prod.ext_iff]

lemma getLru_eq (h : CacheInv c l) : c.getLru = some (l .inactive).getLast? :=
  (h.linked.dlist .inactive).chain.lastFrom (h.length_le .inactive)

lemma find_valid (h : CacheInv c l) (hv : (c.buffers id).valid = true)
    (hl : (c.buffers id).label = (dev, blockno)) :
    c.findActive dev blockno = some (some id) ∨
      c.findActive dev blockno = some none ∧ c.findInactive dev blockno = some (some id) := by
  have hact : ∀ j ∈ l .active, (c.buffers j).label = (dev, blockno) → j = id := by
    intro j hj hjl
    have hjv : (c.buffers j).valid = true := by
      by_contra hn
      exact (h.active_iff j).mp hj (h.unused j (by simpa using hn)).2
    exact h.unique j id hjv hv (hjl.trans hl.symm)
  unfold findActive findInactive
  rw [h.find_eq, h.find_eq]
  cases ha : (l .active).find? (fun j => (c.buffers j).label = (dev, blockno)) with
  | some j =>
    have hj := List.find?_some ha
    exact .inl (by rw [hact j (List.mem_of_find?_eq_some ha) (by simpa using hj)])
  | none =>
    right
    refine ⟨rfl, ?_⟩
    rw [List.find?_eq_none] at ha
    have hin : id ∈ l .inactive := (h.mem id).resolve_left (fun hm => ha id hm (by simpa using hl))
    cases hi : (l .inactive).find? (fun j => (c.buffers j).label = (dev, blockno)) with
    | none => exact absurd (by simpa using hl) (List.find?_eq_none.mp hi id hin)
    | some j =>
      obtain ⟨hjl, l1, l2, he, hbefore⟩ := List.find?_eq_some_iff_append.mp hi
      have hjl : (c.buffers j).label = (dev, blockno) := by simpa using hjl
      rw [he] at hin
      rcases List.mem_append.mp hin with hin | hin
      · exact absurd hl (by simpa using hbefore id hin)
      · rcases List.mem_cons.mp hin with rfl | hin
        · rfl
        · have hp := h.behind
          rw [he, List.pairwise_append, List.pairwise_cons] at hp
          rw [h.unique j id (hp.2.1.1 id hin hv) hv (hjl.trans hl.symm)]

/-! ### What `get` does -/

variable (P : Profile)

/-- The buffer that `get` takes from the inactive list, if any: the first one with the label,
else the last one. -/
def candidate (c : LRUCache) (l : ListKind → List BufferId) (dev blockno : Nat) : Option BufferId :=
  ((l .inactive).find? (fun id => (c.buffers id).label = (dev, blockno))).or (l .inactive).getLast?

lemma candidate_mem (h : candidate c l dev blockno = some id) : id ∈ l .inactive := by
  unfold candidate at h
  cases hf : (l .inactive).find? (fun id => (c.buffers id).label = (dev, blockno)) with
  | some j =>
    obtain rfl : j = id := by simpa [hf] using h
    exact List.mem_of_find?_eq_some hf
  | none => exact List.mem_of_getLast? (by simpa [hf] using h)

lemma get_active (h : CacheInv c l)
    (hf : (l .active).find? (fun id => (c.buffers id).label = (dev, blockno)) = some id) :
    Buffer.get P dev blockno c = .ok (id, c.updBuffer id ({ · with locked := true })) := by
  simp [Buffer.get, K.bind_apply, findActive, h.find_eq, hf, walk, Except.bind, Except.map]

section

variable (h : CacheInv c l) (hf : (l .active).find? (fun id => (c.buffers id).label = (dev, blockno)) = none)
include h hf

lemma get_none (hi : l .inactive = []) : Buffer.get P dev blockno c = .error .noBuffersAvailable := by
  simp [Buffer.get, K.bind_apply, findActive, findInactive, recycleLru,
    h.find_eq, hf, hi, h.getLru_eq, walk, Except.bind]

/-- A buffer taken from the inactive list is labelled with the block and referenced once; it
stays valid only when it had the label before. -/
lemma get_candidate (hc : candidate c l dev blockno = some id) :
    ∃ c', Buffer.get P dev blockno c = .ok (id, c') ∧ c'.Linked (moveTo .active l id) ∧
      (∀ j, j ≠ id → c'.buffers j = c.buffers j) ∧
      c'.buffers id = { c.buffers id with
        dev := dev, blockNo := blockno, refcnt := 1, locked := true
        valid := (c.buffers id).valid && (c.buffers id).label = (dev, blockno) } := by
  have hmem := candidate_mem hc
  have hlink : ∀ f, LRUCache.Linked ((c.updBuffer id f).insertActiveHead id) (moveTo .active l id) :=
    fun f => (h.linked.updBuffer id f).insertHead .active hmem
  have href : (c.buffers id).refcnt = 0 := by
    by_contra hn
    exact h.linked.disjoint id ((h.active_iff id).mpr hn) hmem
  have hbuf : ∀ f, ((c.updBuffer id f).insertActiveHead id).buffers =
      Function.update c.buffers id (f (c.buffers id)) := fun f => insertHead_buffers _ _ _
  cases hi : (l .inactive).find? (fun id => (c.buffers id).label = (dev, blockno)) with
  | some j =>
    obtain rfl : j = id := by simpa [candidate, hi] using hc
    have hlab : (c.buffers j).label = (dev, blockno) := by simpa using List.find?_some hi
    refine ⟨((c.updBuffer j ({ · with refcnt := 1 })).insertActiveHead j).updBuffer j
      ({ · with locked := true }), ?_, (hlink _).updBuffer j _, ?_, ?_⟩
    · simp [Buffer.get, K.bind_apply, findActive, findInactive, h.find_eq, hf, hi,
        walk, promoteToActive, href, addW, Except.bind, Except.map]
    · intro i hij
      simp [updBuffer, hij, insertActiveHead, insertHead_buffers]
    · obtain ⟨hd, hb⟩ := Prod.ext_iff.mp hlab
      simp only [Buffer.label] at hd hb
      simp [updBuffer, insertActiveHead, insertHead_buffers, hlab, hd, hb]
  | none =>
    have hlast : (l .inactive).getLast? = some id := by simpa [candidate, hi] using hc
    have hlab : ¬(c.buffers id).label = (dev, blockno) := by
      simpa using List.find?_eq_none.mp hi id hmem
    refine ⟨_, ?_, hlink (fun b =>
      { b with dev := dev, blockNo := blockno, valid := false, refcnt := 1, locked := true }), ?_, ?_⟩
    · simp [Buffer.get, K.bind_apply, findActive, findInactive, h.find_eq, hf, hi,
        walk, recycleLru, h.getLru_eq, hlast, href, Except.bind, Except.map]
    · intro i hij
      rw [hbuf, Function.update_of_ne hij]
    · rw [hbuf, Function.update_self]
      simp [hlab]

end

end CacheInv

end Glenda.Fs
