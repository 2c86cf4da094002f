import Glenda.Basic
import Glenda.Lib.LinkedList

/-!
# The buffer cache: lists of buffers

Model of `fs/buffer/lru.rs`. The cache holds `N_BUFFER` buffers that stand in two doubly
linked lists, the active one (buffers in use) and the inactive one (recycled from its tail).
-/

namespace Glenda.Fs
open Glenda.Lib

abbrev BLOCK_SIZE : Nat := 4096

abbrev N_BUFFER : Nat := 32

/-- The bytes of a block; indices below `BLOCK_SIZE` are meaningful. -/
abbrev Block := Nat → UInt8

structure Buffer where
  data : Block
  blockNo : Nat
  dev : Nat
  refcnt : Nat
  valid : Bool
  dirty : Bool
  locked : Bool

def Buffer.new : Buffer := ⟨fun _ => 0, 0, 0, 0, false, false, false⟩

def Buffer.label (b : Buffer) : Nat × Nat := (b.dev, b.blockNo)

abbrev BufferId := Fin N_BUFFER

def BufferId.new (idx : Nat) : Option BufferId := if h : idx < N_BUFFER then some ⟨idx, h⟩ else none

abbrev ListNode := Link BufferId

def ListNode.new : ListNode := ⟨none, none⟩

structure LRUCache where
  buffers : BufferId → Buffer
  nodes : BufferId → ListNode
  activeHead : Option BufferId
  inactiveHead : Option BufferId

inductive ListKind
  | active
  | inactive
  deriving DecidableEq, Repr

namespace LRUCache

def new : LRUCache := ⟨fun _ => Buffer.new, fun _ => ListNode.new, none, none⟩

def head (c : LRUCache) : ListKind → Option BufferId
  | .active => c.activeHead
  | .inactive => c.inactiveHead

def setHead (c : LRUCache) (k : ListKind) (h : Option BufferId) : LRUCache :=
  match k with
  | .active => { c with activeHead := h }
  | .inactive => { c with inactiveHead := h }

/-- `get_buffer_mut` followed by an assignment to fields of the buffer. -/
def updBuffer (c : LRUCache) (id : BufferId) (f : Buffer → Buffer) : LRUCache :=
  { c with buffers := Function.update c.buffers id (f (c.buffers id)) }

def setNode (c : LRUCache) (id : BufferId) (n : ListNode) : LRUCache :=
  { c with nodes := Function.update c.nodes id n }

def removeNode (c : LRUCache) (id : BufferId) : LRUCache :=
  let prev := (c.nodes id).prev
  let next := (c.nodes id).next
  let c := match prev with
    | some p => c.setNode p { c.nodes p with next := next }
    | none =>
      if c.activeHead = some id then { c with activeHead := next }
      else if c.inactiveHead = some id then { c with inactiveHead := next }
      else c
  let c := match next with
    | some n => c.setNode n { c.nodes n with prev := prev }
    | none => c
  c.setNode id ⟨none, none⟩

def linkHead (k : ListKind) (c : LRUCache) (id : BufferId) : LRUCache :=
  let oldHead := c.head k
  let c := c.setNode id ⟨none, oldHead⟩
  let c := match oldHead with
    | some h => c.setNode h { c.nodes h with prev := some id }
    | none => c
  c.setHead k (some id)

/-- `insert_active_head` and `insert_inactive_head`: detach the node from the list it is in
and make it the head of the list of kind `k`. -/
def insertHead (k : ListKind) (c : LRUCache) (id : BufferId) : LRUCache :=
  linkHead k (c.removeNode id) id

def insertActiveHead : LRUCache → BufferId → LRUCache := insertHead .active

def insertInactiveHead : LRUCache → BufferId → LRUCache := insertHead .inactive

def getLru (c : LRUCache) : Option (Option BufferId) :=
  lastFrom (fun id => (c.nodes id).next) N_BUFFER c.inactiveHead

def find (k : ListKind) (c : LRUCache) (dev blockno : Nat) : Option (Option BufferId) :=
  findFrom (fun id => (c.nodes id).next)
    (fun id => (c.buffers id).dev == dev && (c.buffers id).blockNo == blockno) N_BUFFER (c.head k)

def findActive : LRUCache → Nat → Nat → Option (Option BufferId) := find .active

def findInactive : LRUCache → Nat → Nat → Option (Option BufferId) := find .inactive

variable (P : Profile)

def promoteToActive (id : BufferId) : K LRUCache Unit := do
  let refcnt ← addW P 32 ((← get).buffers id).refcnt 1
  modify (fun c => (c.updBuffer id ({ · with refcnt := refcnt })).insertActiveHead id)

def demoteToInactive (id : BufferId) : K LRUCache Unit :=
  modify (·.insertInactiveHead id)

/-- The result of a walk along a list; a walk that does not end is a loop that does not. -/
def walk {σ α : Type} : Option α → K σ α
  | some a => pure a
  | none => throw .diverge

def recycleLru (dev blockno : Nat) : K LRUCache BufferId := do
  match ← walk (← get).getLru with
  | none => throw .noBuffersAvailable
  | some lru =>
    if P = .dev ∧ ((← get).buffers lru).refcnt ≠ 0 then throw .debugAssert
    modify (·.updBuffer lru (fun b =>
      { b with dev := dev, blockNo := blockno, valid := false, refcnt := 1, locked := true }))
    modify (·.insertActiveHead lru)
    return lru

def init (c : LRUCache) : LRUCache :=
  { c with
    nodes := fun i => ⟨if 0 < i.val then BufferId.new (i.val - 1) else none,
      if i.val < N_BUFFER - 1 then BufferId.new (i.val + 1) else none⟩
    inactiveHead := BufferId.new 0
    activeHead := none }

/-! ### The links after a move -/

lemma removeNode_nodes (c : LRUCache) (id y : BufferId) (hy : y ≠ id) :
    (c.removeNode id).nodes y =
      ⟨if some y = (c.nodes id).next then (c.nodes id).prev else (c.nodes y).prev,
        if some y = (c.nodes id).prev then (c.nodes id).next else (c.nodes y).next⟩ := by
  unfold removeNode setNode
  rcases c.nodes id with ⟨prev, next⟩
  cases prev with
  | none =>
    cases next <;> split_ifs <;> simp_all [Function.update_apply]
  | some p =>
    cases next <;> simp only [Function.update_apply, hy, if_false, Option.some.injEq] <;>
      split_ifs <;> simp_all

lemma removeNode_head (c : LRUCache) (id : BufferId) (k : ListKind)
    (h : ¬(c.activeHead = some id ∧ c.inactiveHead = some id)) :
    (c.removeNode id).head k =
      if (c.nodes id).prev = none ∧ c.head k = some id then (c.nodes id).next else c.head k := by
  unfold removeNode setNode head
  rcases c.nodes id with ⟨prev, next⟩
  cases prev <;> cases next <;> cases k <;> simp_all <;> split_ifs <;> simp_all

lemma removeNode_buffers (c : LRUCache) (id : BufferId) : (c.removeNode id).buffers = c.buffers := by
  unfold removeNode setNode
  rcases c.nodes id with ⟨prev, next⟩
  cases prev <;> cases next <;> simp only <;> split_ifs <;> rfl

lemma linkHead_buffers (k : ListKind) (c : LRUCache) (id : BufferId) :
    (linkHead k c id).buffers = c.buffers := by
  unfold linkHead setHead setNode
  cases c.head k <;> cases k <;> rfl

lemma linkHead_head (k k' : ListKind) (c : LRUCache) (id : BufferId) :
    (linkHead k c id).head k' = if k' = k then some id else c.head k' := by
  unfold linkHead setHead setNode
  generalize c.head k = o
  cases o <;> cases k <;> cases k' <;> rfl

lemma linkHead_nodes (k : ListKind) (c : LRUCache) (id y : BufferId) (hy : y ≠ id) :
    (linkHead k c id).nodes y =
      ⟨if some y = c.head k then some id else (c.nodes y).prev, (c.nodes y).next⟩ := by
  unfold linkHead setHead setNode
  generalize c.head k = o
  cases o <;> cases k <;> simp only [Function.update_apply, hy, if_false, Option.some.injEq] <;>
    split_ifs <;> simp_all

lemma linkHead_nodes_self (k : ListKind) (c : LRUCache) (id : BufferId) (h : c.head k ≠ some id) :
    (linkHead k c id).nodes id = ⟨none, c.head k⟩ := by
  unfold linkHead setHead setNode
  revert h
  generalize c.head k = o
  intro h
  cases o <;> cases k <;> simp_all [eq_comm]

lemma insertHead_buffers (k : ListKind) (c : LRUCache) (id : BufferId) :
    (insertHead k c id).buffers = c.buffers := by
  rw [insertHead, linkHead_buffers, removeNode_buffers]

/-- `l k` is the list of kind `k`: both lists are well linked and share no buffer. -/
structure Linked (c : LRUCache) (l : ListKind → List BufferId) : Prop where
  dlist : ∀ k, DList c.nodes (c.head k) (l k)
  disjoint : ∀ id, id ∈ l .active → id ∉ l .inactive

/-- The lists after `id` has become the head of the list of kind `k`. -/
def moveTo (k : ListKind) (l : ListKind → List BufferId) (id : BufferId) : ListKind → List BufferId :=
  fun k' => if k' = k then id :: (l k').erase id else (l k').erase id

namespace Linked

variable {c : LRUCache} {l : ListKind → List BufferId} {id : BufferId}

lemma not_mem (h : Linked c l) {k k' : ListKind} (hne : k' ≠ k) (hid : id ∈ l k) : id ∉ l k' := by
  cases k <;> cases k' <;> try exact absurd rfl hne
  · exact h.disjoint id hid
  · exact fun h' => h.disjoint id h' hid

lemma head_ne (h : Linked c l) {k : ListKind} (hid : id ∉ l k) : c.head k ≠ some id := by
  intro he
  rw [(h.dlist k).head_eq] at he
  exact hid (List.mem_of_head? he)

lemma removeNode (h : Linked c l) {k : ListKind} (hid : id ∈ l k) :
    Linked (c.removeNode id) (fun k' => (l k').erase id) := by
  obtain ⟨a, b, hl⟩ := List.append_of_mem hid
  have hnode := (h.dlist k).link a id b hl
  have hnd : (a ++ id :: b).Nodup := hl ▸ (h.dlist k).nodup
  have hboth : ¬(c.activeHead = some id ∧ c.inactiveHead = some id) := by
    rintro ⟨ha, hi⟩
    refine h.disjoint id ?_ ?_
    · exact List.mem_of_head? ((h.dlist .active).head_eq ▸ ha)
    · exact List.mem_of_head? ((h.dlist .inactive).head_eq ▸ hi)
  have herase : (l k).erase id = a ++ b := by
    rw [hl, List.erase_append_right _ (fun ha => (List.nodup_append.mp hnd).2.2 id ha id (by simp) rfl)]
    simp
  refine ⟨fun k' => ?_, fun y hy hy' => h.disjoint y (List.mem_of_mem_erase hy) (List.mem_of_mem_erase hy')⟩
  by_cases hk : k' = k
  · subst hk
    rw [herase]
    refine DList.erase (hl ▸ h.dlist k') ?_ (fun y hy => ?_)
    · rw [removeNode_head c id k' hboth, hnode, (h.dlist k').head_eq, hl]
      cases a <;> simp
    · have hne : y ≠ id := by
        rintro rfl
        exact (List.nodup_cons.mp (List.nodup_middle.mp hnd)).1 hy
      rw [removeNode_nodes c id y hne, hnode]
  · have hni : id ∉ l k' := h.not_mem hk hid
    have hmem : ∀ y ∈ a ++ b, y ∉ l k' := by
      intro y hy
      have hyk : y ∈ l k := by
        rw [hl]
        simp only [List.mem_append, List.mem_cons] at hy ⊢
        tauto
      exact h.not_mem hk hyk
    rw [List.erase_of_not_mem hni, removeNode_head c id k' hboth, if_neg (fun hc => h.head_ne hni hc.2)]
    refine (h.dlist k').congr (fun y hy => ?_)
    have h1 : y ≠ id := fun he => hni (he ▸ hy)
    have h2 : some y ≠ b.head? := fun he => hmem y (by simp [List.mem_of_head? he.symm]) hy
    have h3 : some y ≠ a.getLast? := fun he => hmem y (by simp [List.mem_of_getLast? he.symm]) hy
    rw [removeNode_nodes c id y h1, hnode, if_neg h2, if_neg h3]

lemma linkHead (h : Linked c l) (k : ListKind) (hid : ∀ k, id ∉ l k) :
    Linked (linkHead k c id) (fun k' => if k' = k then id :: l k' else l k') := by
  have hne : ∀ k, ∀ y ∈ l k, y ≠ id := fun k y hy he => hid k (he ▸ hy)
  refine ⟨fun k' => ?_, ?_⟩
  · rw [linkHead_head]
    by_cases hk : k' = k
    · subst hk
      rw [if_pos rfl, if_pos rfl]
      exact (h.dlist k').push (hid k') (linkHead_nodes_self k' c id (h.head_ne (hid k')))
        (fun y hy => linkHead_nodes k' c id y (hne k' y hy))
    · rw [if_neg hk, if_neg hk]
      refine (h.dlist k').congr (fun y hy => ?_)
      have hhead : some y ≠ c.head k := fun he => h.head_ne (h.not_mem (Ne.symm hk) hy) he.symm
      rw [linkHead_nodes k c id y (hne k' y hy), if_neg hhead]
  · intro y hy hy'
    have hd := h.disjoint y
    have ha := hid .active
    have hi := hid .inactive
    cases k <;> simp only [reduceCtorEq, if_true, if_false, List.mem_cons] at hy hy'
    · rcases hy with rfl | hy
      · exact hi hy'
      · exact hd hy hy'
    · rcases hy' with rfl | hy'
      · exact ha hy
      · exact hd hy hy'

lemma insertHead (h : Linked c l) (k : ListKind) {k0 : ListKind} (hid : id ∈ l k0) :
    Linked (insertHead k c id) (moveTo k l id) := by
  refine (h.removeNode hid).linkHead k (fun k' => ?_)
  exact (h.dlist k').nodup.not_mem_erase

lemma updBuffer (h : Linked c l) (id : BufferId) (f : Buffer → Buffer) : Linked (c.updBuffer id f) l :=
  ⟨h.dlist, h.disjoint⟩

end Linked

end LRUCache

end Glenda.Fs
