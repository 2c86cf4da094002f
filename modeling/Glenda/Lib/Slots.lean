import Mathlib.Data.Option.Basic
import Mathlib.Logic.Function.Basic

/-!
# Tables of slots

A table whose slots are empty or hold a key and a value is a map if no key is in two slots.
-/

namespace Glenda.Lib
open Function (update)

variable {ι κ β : Type} [DecidableEq ι]

/-- No key is in two slots. -/
def Distinct (s : ι → Option (κ × β)) : Prop := ∀ a b k v w, s a = some (k, v) → s b = some (k, w) → a = b

/-- The table `s` holds exactly what the map `D` has. -/
def Denotes (s : ι → Option (κ × β)) (D : κ → Option β) : Prop := ∀ k v, D k = some v ↔ ∃ a, s a = some (k, v)

variable {s : ι → Option (κ × β)} {D : κ → Option β} {j : ι} {k : κ} {v : β}

lemma Distinct.insert (h : Distinct s) (hk : ∀ a v, s a ≠ some (k, v)) : Distinct (update s j (some (k, v))) := by
  intro a b
  grind [Distinct, Function.update_apply]

lemma Distinct.erase (h : Distinct s) : Distinct (update s j none) := by
  intro a b
  grind [Distinct, Function.update_apply]

lemma Denotes.insert [DecidableEq κ] (h : Denotes s D) (hj : s j = none) (hk : D k = none) :
    Denotes (update s j (some (k, v))) (update D k (some v)) := by
  intro k' v'
  rw [Function.exists_update_iff (p := fun _ e => e = some (k', v')), Function.update_apply]
  grind [Denotes]

lemma Denotes.erase [DecidableEq κ] (h : Denotes s D) (hd : Distinct s) (hj : s j = some (k, v)) : Denotes (update s j none) (update D k none) := by
  intro k' v'
  rw [Function.exists_update_iff (p := fun _ e => e = some (k', v')), Function.update_apply]
  grind [Denotes, Distinct]

end Glenda.Lib
