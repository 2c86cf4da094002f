import Glenda.Mem.Pte

/-!
# Page maps

What a page table is for: a partial map from page numbers to physical pages with flags, and
the two operations on it, one page after the other. A page that is mapped can only be mapped
again to the same physical page.
-/

namespace Glenda.Mem

structure Entry where
  ppn : Nat
  flags : Nat
  deriving DecidableEq, Repr

abbrev PageMap := Nat → Option Entry

/-- Physical page numbers have 44 bits and flags have ten. -/
def Entry.new (ppn flags : Nat) : Entry := ⟨ppn % 2 ^ 44, flags % 1024⟩

namespace PageMap

def Accepts (m : PageMap) (p ppn : Nat) : Prop := ∀ e, m p = some e → e.ppn = ppn

instance (m : PageMap) (p ppn : Nat) : Decidable (m.Accepts p ppn) :=
  match h : m p with
  | none => isTrue fun e he => by rw [h] at he; cases he
  | some e =>
    if he : e.ppn = ppn then isTrue fun e' he' => by rw [h] at he'; cases he'; exact he
    else isFalse fun hf => he (hf e h)

/-- Map `n` pages from `p` on to consecutive physical pages, up to the first one refused. -/
def mapPages (flags : Nat) : Nat → Nat → Nat → PageMap → PageMap × Bool
  | 0, _, _, m => (m, true)
  | n + 1, p, ppn, m =>
    if m.Accepts p ppn then mapPages flags n (p + 1) (ppn + 1) (Function.update m p (some (.new ppn flags)))
    else (m, false)

/-- Remove `n` pages from `p` on, up to the first one that is not mapped. -/
def unmapPages : Nat → Nat → PageMap → PageMap × Bool
  | 0, _, m => (m, true)
  | n + 1, p, m => if m p = none then (m, false) else unmapPages n (p + 1) (Function.update m p none)

/-- The number of pages of `[align_down(va), align_up(va + len))`. -/
def pages (va len : Nat) : Nat := (va + len + 4095) / 4096 - va / 4096

def map (va pa len flags : Nat) (m : PageMap) : PageMap × Bool :=
  if len = 0 then (m, false) else mapPages flags (pages va len) (va / PGSIZE) (pa / PGSIZE) m

def unmap (va len : Nat) (m : PageMap) : PageMap × Bool :=
  if len = 0 then (m, false) else unmapPages (pages va len) (va / PGSIZE) m

/-- `m` with the `n` pages from `p` on replaced by those of `f`. -/
def replace (m : PageMap) (p n : Nat) (f : Nat → Option Entry) : PageMap :=
  fun q => if p ≤ q ∧ q < p + n then f q else m q

lemma replace_zero (m : PageMap) (p : Nat) (f : Nat → Option Entry) : m.replace p 0 f = m := by
  funext q
  unfold replace
  rw [if_neg (by omega)]

lemma replace_update (m : PageMap) (p n : Nat) (f : Nat → Option Entry) :
    replace (Function.update m p (f p)) (p + 1) n f = m.replace p (n + 1) f := by
  funext q
  unfold replace
  by_cases hq : q = p
  · subst hq
    rw [if_neg (by omega), if_pos (by omega), Function.update_self]
  · rw [Function.update_of_ne hq]
    exact if_congr (by omega) rfl rfl

/-- The pages that are mapped are a prefix of the range, and the whole range if the result is
`true`; the next page refuses. -/
theorem mapPages_eq (flags n p ppn : Nat) (m : PageMap) :
    ∃ k ≤ n, mapPages flags n p ppn m =
      (m.replace p k fun q => some (.new (ppn + (q - p)) flags), decide (k = n)) ∧
      (k < n → ¬m.Accepts (p + k) (ppn + k)) := by
  induction n generalizing p ppn m with
  | zero => exact ⟨0, le_refl 0, by rw [mapPages, replace_zero]; rfl, by simp⟩
  | succ n ih =>
    rw [mapPages]
    split_ifs with ha
    · obtain ⟨k, hk, heq, hnext⟩ := ih (p + 1) (ppn + 1) (Function.update m p (some (.new ppn flags)))
      refine ⟨k + 1, by omega, ?_, fun hlt hacc => ?_⟩
      · rw [heq, ← replace_update]
        refine Prod.ext ?_ (by simp)
        funext q
        dsimp only [replace]
        by_cases hq : p + 1 ≤ q ∧ q < p + 1 + k
        · rw [if_pos hq, if_pos hq, show ppn + 1 + (q - (p + 1)) = ppn + (q - p) by omega]
        · rw [if_neg hq, if_neg hq, Nat.sub_self, Nat.add_zero]
      · apply hnext (by omega)
        intro e he
        rw [Function.update_of_ne (by omega)] at he
        rw [hacc e (by rw [← he]; congr 1; omega)]
        omega
    · exact ⟨0, by omega, by rw [replace_zero]; simp, fun _ => ha⟩

/-- A removal takes away the mapped pages up to the first gap. -/
theorem unmapPages_eq (n p : Nat) (m : PageMap) :
    ∃ k ≤ n, unmapPages n p m = (m.replace p k fun _ => none, decide (k = n)) ∧
      (k < n → m (p + k) = none) ∧ ∀ q, p ≤ q → q < p + k → m q ≠ none := by
  induction n generalizing p m with
  | zero => exact ⟨0, le_refl 0, by rw [unmapPages, replace_zero]; rfl, by simp, fun q hq hq' => by omega⟩
  | succ n ih =>
    rw [unmapPages]
    split_ifs with hp
    · exact ⟨0, by omega, by rw [replace_zero]; simp, fun _ => hp, fun q hq hq' => by omega⟩
    · obtain ⟨k, hk, heq, hnext, hmapped⟩ := ih (p + 1) (Function.update m p none)
      refine ⟨k + 1, by omega, ?_, fun hlt => ?_, fun q hq hq' => ?_⟩
      · rw [heq, ← replace_update]
        simp
      · have hnone := hnext (by omega)
        rw [Function.update_of_ne (by omega)] at hnone
        rw [← hnone]
        congr 1
        omega
      · by_cases hqp : q = p
        · rwa [hqp]
        · have hne := hmapped q (by omega) (by omega)
          rwa [Function.update_of_ne hqp] at hne

end PageMap

end Glenda.Mem
