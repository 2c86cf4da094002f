import Mathlib.Logic.Function.Basic
import Mathlib.Data.List.Nodup

/-!
# A series of updates of a function

Stores to a memory or loads into a register file, one after the other, at the keys of a list.
-/

namespace Glenda.Lib

variable {α β : Type} [DecidableEq α] {f : α → β} {l : List (α × β)} {a : α} {b : β}

def writeAll (f : α → β) (l : List (α × β)) : α → β :=
  l.foldl (fun g x => Function.update g x.1 x.2) f

@[simp] lemma writeAll_nil (f : α → β) : writeAll f [] = f := rfl

@[simp] lemma writeAll_cons (f : α → β) (x : α × β) (l : List (α × β)) :
    writeAll f (x :: l) = writeAll (Function.update f x.1 x.2) l := rfl

lemma writeAll_of_forall_ne (h : ∀ x ∈ l, x.1 ≠ a) : writeAll f l a = f a := by
  induction l generalizing f with
  | nil => rfl
  | cons x l ih =>
    rw [writeAll_cons, ih fun y hy => h y (List.mem_cons_of_mem _ hy)]
    exact Function.update_of_ne (h x List.mem_cons_self).symm _ _

lemma writeAll_of_mem (hn : (l.map Prod.fst).Nodup) (h : (a, b) ∈ l) : writeAll f l a = b := by
  induction l generalizing f with
  | nil => cases h
  | cons x l ih =>
    rw [List.map_cons, List.nodup_cons] at hn
    rw [writeAll_cons]
    rcases List.mem_cons.mp h with rfl | h
    · rw [writeAll_of_forall_ne, Function.update_self]
      intro y hy he
      exact hn.1 (List.mem_map.mpr ⟨y, hy, he⟩)
    · exact ih hn.2 h

end Glenda.Lib
