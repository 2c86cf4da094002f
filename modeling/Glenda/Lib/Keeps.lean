import Glenda.Basic

/-!
# What a computation keeps

`K.Keeps R x` says that `x` takes every state only to states that `R` relates it to, if it returns. For a
preorder `R` the rules below follow the structure of a program.
-/

namespace Glenda.K

variable {σ α β : Type} {R : σ → σ → Prop}

def Keeps (R : σ → σ → Prop) (x : K σ α) : Prop := ∀ s a s', x s = .ok (a, s') → R s s'

namespace Keeps

lemma throw (p : Panic) : Keeps R (throw p : K σ α) := fun _ _ _ h => by cases h

lemma modify {f : σ → σ} (h : ∀ s, R s (f s)) : Keeps R (modify f : K σ PUnit) := by
  rintro s a s' ⟨⟩
  exact h s

lemma ite {c : Prop} [Decidable c] {x y : K σ α} (hx : Keeps R x) (hy : Keeps R y) : Keeps R (if c then x else y) := by
  split_ifs
  · exact hx
  · exact hy

variable [IsPreorder σ R]

lemma pure (a : α) : Keeps R (pure a : K σ α) := by
  rintro s _ _ ⟨⟩
  exact refl_of R s

lemma get : Keeps R (get : K σ σ) := by
  rintro s _ _ ⟨⟩
  exact refl_of R s

lemma bind {x : K σ α} {f : α → K σ β} (hx : Keeps R x) (hf : ∀ a, Keeps R (f a)) : Keeps R (x >>= f) := by
  intro s b s' h
  obtain ⟨a, s1, h1, h2⟩ := bind_ok h
  exact trans_of R (hx s a s1 h1) (hf a s1 b s' h2)

variable {P : Profile} {w m n : Nat}

lemma addW : Keeps R (addW P w m n : K σ Nat) := by
  unfold Glenda.addW
  refine .ite (.pure _) ?_
  cases P with
  | dev => exact .throw _
  | release => exact .pure _

lemma mulW : Keeps R (mulW P w m n : K σ Nat) := by
  unfold Glenda.mulW
  refine .ite (.pure _) ?_
  cases P with
  | dev => exact .throw _
  | release => exact .pure _

end Keeps

end Glenda.K
