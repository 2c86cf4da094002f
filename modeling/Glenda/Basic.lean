import Mathlib

/-!
# Kernel computations

A kernel function that reads and writes a state `σ` is a computation `K σ α`: it either
returns a value with the new state or stops in a `Panic`. The kernel is built with
`panic = "abort"`, so nothing is observed after a panic.
-/

namespace Glenda

/-- The cargo profile the kernel is built with: `dev` has overflow checks and debug
assertions, `release` has neither. -/
inductive Profile
  | dev
  | release
  deriving DecidableEq, Repr

/-- The ways a kernel computation can stop without returning. `diverge` is a loop that
does not end, `wildAccess` an access through a raw pointer outside the object it was made
for; every other constructor is a Rust panic. -/
inductive Panic
  | diverge
  | wildAccess
  | overflow
  | debugAssert
  | invalidBufferIndex
  | noBuffersAvailable
  | paTooLow
  | paTooHigh
  | refCountCorrupted
  | regionExhausted
  | freeOutOfBounds
  | freeOutOfRegions
  | doubleFree
  | unmapOutOfBounds
  | vmMappages
  | vmUnmappages
  | expectFailed
  | kernelBeyondMemory
  | outOfBlocks
  | blockOutOfRange
  | blockAlreadyFree
  | outOfInodes
  | inodeAlreadyFree
  | blockIndexOutOfRange
  | noFreeInode
  | inodeRefcntZero
  | fileFree
  | invalidMagic
  | selfTest
  | sliceIndex
  deriving DecidableEq, Repr

abbrev K (σ : Type) := StateT σ (Except Panic)

namespace K

variable {σ α β : Type} {x : K σ α} {f : α → K σ β} {s s' : σ} {a : α} {p : Panic} {c : Prop} {g : α → K σ PUnit} {I : List α → σ → Prop}

@[simp] lemma pure_apply (a : α) (s : σ) : (pure a : K σ α) s = .ok (a, s) := rfl

@[simp] lemma throw_apply (p : Panic) (s : σ) : (throw p : K σ α) s = .error p := rfl

@[simp] lemma get_apply (s : σ) : (get : K σ σ) s = .ok (s, s) := rfl

@[simp] lemma set_apply (t s : σ) : (set t : K σ PUnit) s = .ok (⟨⟩, t) := rfl

@[simp] lemma modify_apply (g : σ → σ) (s : σ) : (modify g : K σ PUnit) s = .ok (⟨⟩, g s) := rfl

@[simp] lemma map_apply (g : α → β) (x : K σ α) (s : σ) :
    (g <$> x) s = (x s).map (fun r => (g r.1, r.2)) := by
  change (do let r ← x s; pure (g r.1, r.2)) = _
  cases x s <;> rfl

lemma bind_apply (x : K σ α) (f : α → K σ β) (s : σ) :
    (x >>= f) s = (x s).bind (fun r => f r.1 r.2) := rfl

lemma bind_of_ok (h : x s = .ok (a, s')) : (x >>= f) s = f a s' := by
  rw [bind_apply, h]
  rfl

lemma bind_of_error (h : x s = .error p) : (x >>= f) s = .error p := by
  rw [bind_apply, h]
  rfl

lemma bind_eq_ok {r : β × σ} :
    (x >>= f) s = .ok r ↔ ∃ a s', x s = .ok (a, s') ∧ f a s' = .ok r := by
  rw [bind_apply]
  cases h : x s with
  | error p => simp [Except.bind]
  | ok v => exact ⟨fun h' => ⟨v.1, v.2, rfl, h'⟩, by rintro ⟨a, t, ⟨rfl⟩, h'⟩; exact h'⟩

lemma bind_ok {r : β × σ} (h : (x >>= f) s = .ok r) : ∃ a s', x s = .ok (a, s') ∧ f a s' = .ok r :=
  bind_eq_ok.mp h

lemma bind_eq_error :
    (x >>= f) s = .error p ↔
      x s = .error p ∨ ∃ a s', x s = .ok (a, s') ∧ f a s' = .error p := by
  rw [bind_apply]
  cases h : x s with
  | error q => simp [Except.bind]
  | ok v =>
    refine ⟨fun h' => .inr ⟨v.1, v.2, rfl, h'⟩, ?_⟩
    rintro (h' | ⟨a, t, ⟨rfl⟩, h'⟩)
    · cases h'
    · exact h'

lemma exists_outcome {f : α → σ → β} {b : β} (h : (x s).map (fun r => f r.1 r.2) = .ok b) : ∃ a s', x s = .ok (a, s') ∧ f a s' = b := by
  cases hx : x s with
  | error p =>
    rw [hx] at h
    cases h
  | ok r =>
    rw [hx] at h
    cases h
    exact ⟨r.1, r.2, rfl, rfl⟩

lemma exists_of_run' (h : x.run' s = .ok a) : ∃ s', x s = .ok (a, s') := by
  obtain ⟨b, s', hx, rfl⟩ := exists_outcome (f := fun a _ => a) h
  exact ⟨s', hx⟩

/-- The computation on the component that `get` reads and `set` writes. -/
def focus {τ : Type} (get : τ → σ) (set : σ → τ → τ) (x : K σ α) : K τ α := fun t => (x (get t)).map fun r => (r.1, set r.2 t)

section Focus

variable {τ : Type} {get : τ → σ} {set : σ → τ → τ} {t t' : τ}

lemma focus_of_ok (h : x (get t) = .ok (a, s')) : focus get set x t = .ok (a, set s' t) := by
  unfold focus
  rw [h]
  rfl

lemma focus_ok (h : focus get set x t = .ok (a, t')) : ∃ s', x (get t) = .ok (a, s') ∧ t' = set s' t := by
  unfold focus at h
  cases hx : x (get t) with
  | error p =>
    rw [hx] at h
    cases h
  | ok r =>
    rw [hx] at h
    cases h
    exact ⟨r.2, rfl, rfl⟩

end Focus

/-- An assertion of the code. -/
def panicIf (c : Prop) [Decidable c] (p : Panic) : K σ Unit := if c then throw p else pure ()

lemma panicIf_of_not [Decidable c] (h : ¬c) : panicIf c p s = .ok ((), s) := by
  unfold panicIf
  rw [if_neg h]
  rfl

lemma panicIf_eq_ok [Decidable c] {u : Unit} :
    panicIf c p s = .ok (u, s') ↔ ¬c ∧ s' = s := by
  unfold panicIf
  split_ifs with h
  · simp [h]
  · simp [h, eq_comm]

lemma panicIf_eq_error [Decidable c] {q : Panic} : panicIf c p s = .error q ↔ c ∧ q = p := by
  unfold panicIf
  split_ifs with h
  · simp [h, eq_comm]
  · simp [h]

lemma forM_induct {l : List α} {u : PUnit}
    (hstep : ∀ done a s s', a ∈ l → I done s → g a s = .ok (⟨⟩, s') → I (done ++ [a]) s')
    (h : l.forM g s = .ok (u, s')) (h0 : I [] s) : I l s' := by
  have hgen : ∀ (todo done : List α) (s : σ), (∀ a ∈ todo, a ∈ l) → I done s → todo.forM g s = .ok (u, s') →
      I (done ++ todo) s' := by
    intro todo
    induction todo with
    | nil =>
      intro done s _ hI he
      cases he
      rwa [List.append_nil]
    | cons a todo ih =>
      intro done s hsub hI he
      obtain ⟨u1, s1, h1, he⟩ := bind_ok (show (g a >>= fun _ => todo.forM g) s = .ok (u, s') from he)
      have hnext := ih (done ++ [a]) s1 (fun b hb => hsub b (List.mem_cons_of_mem _ hb))
        (hstep done a s s1 (hsub a List.mem_cons_self) hI h1) he
      rwa [List.append_assoc, List.singleton_append] at hnext
  exact hgen l [] s (fun _ ha => ha) h0 h

lemma forM_error {l : List α}
    (hstep : ∀ done a s s', a ∈ l → I done s → g a s = .ok (⟨⟩, s') → I (done ++ [a]) s')
    (h : l.forM g s = .error p) (h0 : I [] s) : ∃ done a rest t, l = done ++ a :: rest ∧ I done t ∧ g a t = .error p := by
  have hgen : ∀ (todo done : List α) (s : σ), l = done ++ todo → I done s → todo.forM g s = .error p →
      ∃ done a rest t, l = done ++ a :: rest ∧ I done t ∧ g a t = .error p := by
    intro todo
    induction todo with
    | nil =>
      intro done s _ _ he
      cases he
    | cons a todo ih =>
      intro done s hl hI he
      rcases bind_eq_error.mp (show (g a >>= fun _ => todo.forM g) s = .error p from he) with he | ⟨u, s1, h1, he⟩
      · exact ⟨done, a, todo, s, hl, hI, he⟩
      · have ha : a ∈ l := by simp [hl]
        exact ih (done ++ [a]) s1 (by simp [hl]) (hstep done a s s1 ha hI h1) he
  exact hgen l [] s rfl h0 h

end K

/-! ### Fixed-width arithmetic -/

section Arithmetic

variable {σ : Type} (P : Profile) (w : Nat)

def addW (a b : Nat) : K σ Nat :=
  if a + b < 2 ^ w then pure (a + b)
  else match P with
    | .dev => throw .overflow
    | .release => pure ((a + b) % 2 ^ w)

def subW (a b : Nat) : K σ Nat :=
  if b ≤ a then pure (a - b)
  else match P with
    | .dev => throw .overflow
    | .release => pure ((a + 2 ^ w - b) % 2 ^ w)

def mulW (a b : Nat) : K σ Nat :=
  if a * b < 2 ^ w then pure (a * b)
  else match P with
    | .dev => throw .overflow
    | .release => pure ((a * b) % 2 ^ w)

variable {w} {a b : Nat}

lemma addW_of_lt (h : a + b < 2 ^ w) : (addW P w a b : K σ Nat) = pure (a + b) := if_pos h

lemma subW_of_le (h : b ≤ a) : (subW P w a b : K σ Nat) = pure (a - b) := if_pos h

lemma mulW_of_lt (h : a * b < 2 ^ w) : (mulW P w a b : K σ Nat) = pure (a * b) := if_pos h

lemma addW_dev (h : 2 ^ w ≤ a + b) : (addW .dev w a b : K σ Nat) = throw .overflow := if_neg (not_lt.mpr h)

lemma addW_release : (addW .release w a b : K σ Nat) = pure ((a + b) % 2 ^ w) := by
  unfold addW
  split_ifs with h
  · rw [Nat.mod_eq_of_lt h]
  · rfl

lemma subW_release (h : a < b) : (subW .release w a b : K σ Nat) = pure ((a + 2 ^ w - b) % 2 ^ w) := if_neg (not_le.mpr h)

variable {P} {n : Nat} {t t' : σ}

lemma addW_ok (h : addW P w a b t = .ok (n, t')) : t = t' ∧ n = (a + b) % 2 ^ w := by
  unfold addW at h
  split_ifs at h with hlt
  · cases h
    exact ⟨rfl, (Nat.mod_eq_of_lt hlt).symm⟩
  · cases P with
    | dev => cases h
    | release =>
      cases h
      exact ⟨rfl, rfl⟩

lemma subW_ok (ha : a < 2 ^ w) (h : subW P w a b t = .ok (n, t')) : t = t' ∧ n = (a + 2 ^ w - b) % 2 ^ w := by
  unfold subW at h
  split_ifs at h with hle
  · cases h
    refine ⟨rfl, ?_⟩
    rw [show a + 2 ^ w - b = a - b + 2 ^ w by omega, Nat.add_mod_right, Nat.mod_eq_of_lt (by omega)]
  · cases P with
    | dev => cases h
    | release =>
      cases h
      exact ⟨rfl, rfl⟩

lemma subW_state (h : subW P w a b t = .ok (n, t')) : t = t' := by
  unfold subW at h
  split_ifs at h with hle
  · cases h
    rfl
  · cases P with
    | dev => cases h
    | release =>
      cases h
      rfl

lemma mulW_ok (h : mulW P w a b t = .ok (n, t')) : t = t' ∧ n = a * b % 2 ^ w := by
  unfold mulW at h
  split_ifs at h with hlt
  · cases h
    exact ⟨rfl, (Nat.mod_eq_of_lt hlt).symm⟩
  · cases P with
    | dev => cases h
    | release =>
      cases h
      exact ⟨rfl, rfl⟩

end Arithmetic

end Glenda
