import Mathlib

/-!
# Linked lists in an indexed store

Nodes are elements of a type `α` and links are functions on it. `Seg next a l b` says that
following `next` from `a` visits exactly the nodes of `l` and then stands at `b`; `DList`
is the doubly linked version with a head pointer. The two walks `findFrom` and `lastFrom`
stop at a bound, and return a result on every well-formed list whose length is within it.
-/

namespace Glenda.Lib

variable {α : Type} {p : α → Bool} {fuel : Nat} {l1 m : List α}

/-- The path from `a` to `b` along `next` that visits the nodes of the list. -/
def Seg (next : α → Option α) : Option α → List α → Option α → Prop
  | a, [], b => a = b
  | a, x :: l, b => a = some x ∧ Seg next (next x) l b

def Chain (next : α → Option α) (a : Option α) (l : List α) : Prop := Seg next a l none

namespace Seg

variable {next next' : α → Option α} {a b c : Option α} {l l' : List α} {x : α}

@[simp] lemma nil : Seg next a [] b ↔ a = b := Iff.rfl

@[simp] lemma cons : Seg next a (x :: l) b ↔ a = some x ∧ Seg next (next x) l b := Iff.rfl

lemma append : Seg next a (l ++ l') c ↔ ∃ b, Seg next a l b ∧ Seg next b l' c := by
  induction l generalizing a with
  | nil => simp
  | cons x l ih => simp only [List.cons_append, cons, ih, and_assoc, exists_and_left]

lemma congr (h : Seg next a l b) (hn : ∀ x ∈ l, next' x = next x) : Seg next' a l b := by
  induction l generalizing a with
  | nil => exact h
  | cons x l ih =>
    refine ⟨h.1, ?_⟩
    rw [hn x (by simp)]
    exact ih h.2 (fun y hy => hn y (by simp [hy]))

lemma head_eq (h : Seg next a l b) : a = l.head?.or b := by
  cases l with
  | nil => simpa using h
  | cons x l => simpa using h.1

end Seg

namespace Chain

variable {next : α → Option α} {a : Option α} {l l' : List α} {x : α}

@[simp] lemma nil : Chain next a [] ↔ a = none := Iff.rfl

@[simp] lemma cons : Chain next a (x :: l) ↔ a = some x ∧ Chain next (next x) l := Iff.rfl

lemma head_eq (h : Chain next a l) : a = l.head? := by
  simpa using Seg.head_eq h

lemma append : Chain next a (l ++ l') ↔ ∃ b, Seg next a l b ∧ Chain next b l' := Seg.append

lemma unique (h : Chain next a l) (h' : Chain next a l') : l = l' := by
  induction l generalizing a l' with
  | nil =>
    cases l' with
    | nil => rfl
    | cons y l' => simp_all
  | cons x l ih =>
    cases l' with
    | nil => simp_all
    | cons y l' =>
      obtain ⟨ha, hl⟩ := cons.mp h
      obtain ⟨ha', hl'⟩ := cons.mp h'
      obtain rfl : x = y := by simpa using ha.symm.trans ha'
      rw [ih hl hl']

end Chain

/-! ### Walks -/

/-- Walk along `next` to the first node that satisfies `p`. The outer `none` is a walk that
has not ended after `fuel` nodes. -/
def findFrom (next : α → Option α) (p : α → Bool) : Nat → Option α → Option (Option α)
  | _, none => some none
  | 0, some _ => none
  | fuel + 1, some x => if p x then some (some x) else findFrom next p fuel (next x)

def lastFrom (next : α → Option α) : Nat → Option α → Option (Option α)
  | _, none => some none
  | 0, some _ => none
  | fuel + 1, some x => if (next x).isNone then some (some x) else lastFrom next fuel (next x)

lemma Chain.not_of_findFrom {next : α → Option α} {a : Option α} {l : List α}
    (h : Chain next a l) (hf : Lib.findFrom next p fuel a = some none) : ∀ x ∈ l, p x = false := by
  induction l generalizing a fuel with
  | nil => simp
  | cons x l ih =>
    obtain ⟨rfl, hl⟩ := Chain.cons.mp h
    cases fuel with
    | zero => cases hf
    | succ fuel =>
      rw [Lib.findFrom] at hf
      split_ifs at hf with hp
      · cases hf
      · intro y hy
        rcases List.mem_cons.mp hy with rfl | hy
        · simpa using hp
        · exact ih hl hf y hy

lemma Chain.findFrom {next : α → Option α} {a : Option α} {l : List α}
    (h : Chain next a l) (hf : l.length ≤ fuel) : findFrom next p fuel a = some (l.find? p) := by
  induction l generalizing a fuel with
  | nil =>
    rw [Chain.nil.mp h]
    cases fuel <;> rfl
  | cons x l ih =>
    obtain ⟨rfl, hl⟩ := Chain.cons.mp h
    obtain ⟨n, rfl⟩ : ∃ n, fuel = n + 1 := ⟨fuel - 1, by simp at hf; omega⟩
    rw [Lib.findFrom, List.find?_cons]
    by_cases hp : p x
    · simp [hp]
    · simp only [hp, Bool.false_eq_true, if_false]
      exact ih hl (by simpa using hf)

lemma Chain.of_lastFrom {next : α → Option α} {a o : Option α} (h : Lib.lastFrom next fuel a = some o) :
    ∃ l, Chain next a l := by
  induction fuel generalizing a with
  | zero =>
    cases a with
    | none => exact ⟨[], rfl⟩
    | some x => cases h
  | succ fuel ih =>
    cases a with
    | none => exact ⟨[], rfl⟩
    | some x =>
      rw [Lib.lastFrom] at h
      split_ifs at h with hx
      · exact ⟨[x], rfl, Option.isNone_iff_eq_none.mp hx⟩
      · obtain ⟨l, hl⟩ := ih h
        exact ⟨x :: l, rfl, hl⟩

lemma Chain.lastFrom {next : α → Option α} {a : Option α} {l : List α}
    (h : Chain next a l) (hf : l.length ≤ fuel) : lastFrom next fuel a = some l.getLast? := by
  induction l generalizing a fuel with
  | nil =>
    rw [Chain.nil.mp h]
    cases fuel <;> rfl
  | cons x l ih =>
    obtain ⟨rfl, hl⟩ := Chain.cons.mp h
    obtain ⟨n, rfl⟩ : ∃ n, fuel = n + 1 := ⟨fuel - 1, by simp at hf; omega⟩
    rw [Lib.lastFrom, ih hl (by simpa using hf), hl.head_eq]
    cases l with
    | nil => simp
    | cons y l => simp

/-! ### Doubly linked lists -/

structure Link (α : Type) where
  prev : Option α
  next : Option α
  deriving DecidableEq, Repr

/-- `l` is the doubly linked list with the given head: it has no repetition, and the links
of each of its nodes are its two neighbours in `l`. -/
structure DList (nd : α → Link α) (head : Option α) (l : List α) : Prop where
  head_eq : head = l.head?
  nodup : l.Nodup
  link : ∀ l₁ x l₂, l = l₁ ++ x :: l₂ → nd x = ⟨l₁.getLast?, l₂.head?⟩

namespace DList

variable {nd nd' : α → Link α} {head head' : Option α} {l a b : List α} {x : α}

lemma chain (h : DList nd head l) : Chain (fun y => (nd y).next) head l := by
  suffices hs : ∀ l2 l1, l = l1 ++ l2 → Chain (fun y => (nd y).next) l2.head? l2 by
    rw [h.head_eq]
    exact hs l [] rfl
  intro l2
  induction l2 with
  | nil => simp
  | cons y l2 ih =>
    intro l1 hl
    refine Chain.cons.mpr ⟨rfl, ?_⟩
    rw [show (nd y).next = l2.head? by rw [h.link l1 y l2 hl]]
    exact ih (l1 ++ [y]) (by simp [hl])

lemma congr (h : DList nd head l) (hn : ∀ y ∈ l, nd' y = nd y) : DList nd' head l :=
  ⟨h.head_eq, h.nodup, fun l1 x l2 hl => by rw [hn x (by simp [hl])]; exact h.link l1 x l2 hl⟩

lemma of_getElem? (hh : head = l.head?) (hl : l.Nodup) (h : ∀ i y, l[i]? = some y →
    nd y = ⟨if i = 0 then none else l[i - 1]?, l[i + 1]?⟩) : DList nd head l := by
  refine ⟨hh, hl, ?_⟩
  rintro l1 y l2 rfl
  rw [h l1.length y (by simp)]
  have hnext : (l1 ++ y :: l2)[l1.length + 1]? = l2.head? := by
    rw [List.getElem?_append_right (by omega)]
    simp [List.head?_eq_getElem?]
  rw [hnext]
  by_cases hz : l1.length = 0
  · rw [if_pos hz, List.eq_nil_of_length_eq_zero hz]
    rfl
  · rw [if_neg hz, List.getElem?_append_left (by omega), List.getLast?_eq_getElem?]

lemma split_append {l2 : List α} (h : a ++ b = l1 ++ x :: l2) :
    (∃ m, b = m ++ x :: l2 ∧ l1 = a ++ m) ∨ ∃ m, a = l1 ++ x :: m ∧ l2 = m ++ b := by
  rcases List.append_eq_append_iff.mp h with ⟨m, hl, hb⟩ | ⟨m, ha, hm⟩
  · exact .inl ⟨m, hb, hl⟩
  · cases m with
    | nil => exact .inl ⟨[], by simpa using hm.symm, by simpa using ha.symm⟩
    | cons z m =>
      obtain ⟨rfl, rfl⟩ := List.cons.inj hm
      exact .inr ⟨m, ha, rfl⟩

lemma ne_getLast? {y w : α} (h : (l1 ++ y :: w :: m).Nodup) :
    some y ≠ (l1 ++ y :: w :: m).getLast? := by
  intro he
  rw [List.getLast?_append, List.getLast?_cons_cons] at he
  have hmem : y ∈ w :: m := by
    cases hq : (w :: m).getLast? with
    | none => simp at hq
    | some q =>
      rw [hq] at he
      obtain rfl : y = q := by simpa using he
      exact List.mem_of_getLast? hq
  exact (List.nodup_cons.mp (List.nodup_append.mp h).2.1).1 hmem

lemma ne_head? {y w : α} (h : (w :: l1 ++ y :: m).Nodup) :
    some y ≠ (w :: l1 ++ y :: m).head? := by
  intro he
  obtain rfl : y = w := by simpa using he
  exact (List.nodup_cons.mp h).1 (by simp)

variable [DecidableEq α]

lemma erase (h : DList nd head (a ++ x :: b)) (hhead : head' = (a ++ b).head?)
    (hn : ∀ y ∈ a ++ b, nd' y = ⟨if some y = b.head? then a.getLast? else (nd y).prev,
      if some y = a.getLast? then b.head? else (nd y).next⟩) :
    DList nd' head' (a ++ b) := by
  have hnd : (a ++ b).Nodup := (List.nodup_middle.mp h.nodup).of_cons
  have hdisj : ∀ y ∈ a, y ∉ b := fun y hy hy' => (List.nodup_append.mp hnd).2.2 y hy y hy' rfl
  refine ⟨hhead, hnd, ?_⟩
  intro l1 y l2 hl
  rw [hn y (by simp [hl])]
  rcases split_append hl with ⟨m, rfl, rfl⟩ | ⟨m, rfl, rfl⟩
  · have hlast : some y ≠ a.getLast? := fun he => hdisj y (List.mem_of_getLast? he.symm) (by simp)
    rw [if_neg hlast, h.link (a ++ x :: m) y l2 (by simp)]
    cases m with
    | nil => simp
    | cons z m =>
      rw [if_neg (ne_head? (List.nodup_append.mp hnd).2.1)]
      simp [List.getLast?_append]
  · have hhd : some y ≠ b.head? := fun he => hdisj y (by simp) (List.mem_of_head? he.symm)
    rw [if_neg hhd, h.link l1 y (m ++ x :: b) (by simp)]
    cases m with
    | nil => simp
    | cons w m =>
      rw [if_neg (ne_getLast? (List.nodup_append.mp hnd).1)]
      simp

lemma push (h : DList nd head l) (hx : x ∉ l) (hnx : nd' x = ⟨none, head⟩)
    (hn : ∀ y ∈ l, nd' y = ⟨if some y = head then some x else (nd y).prev, (nd y).next⟩) :
    DList nd' (some x) (x :: l) := by
  refine ⟨rfl, List.nodup_cons.mpr ⟨hx, h.nodup⟩, ?_⟩
  intro l1 y l2 hl
  cases l1 with
  | nil =>
    obtain ⟨rfl, rfl⟩ := List.cons.inj hl
    rw [hnx, h.head_eq]
    rfl
  | cons z l1 =>
    simp only [List.cons_append, List.cons.injEq] at hl
    obtain ⟨rfl, rfl⟩ := hl
    rw [hn y (by simp), h.link l1 y l2 rfl, h.head_eq]
    cases l1 with
    | nil => simp
    | cons w l1 =>
      rw [if_neg (ne_head? h.nodup)]
      simp

end DList

end Glenda.Lib
