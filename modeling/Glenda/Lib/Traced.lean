import Glenda.Basic

/-!
# Computations that keep their state

A computation `T σ α` has a state even if it stops in a panic, so that one can tell what it did until then.
`T.Spec pre x post stop` says what holds when `x` returns and what holds when it stops.
-/

namespace Glenda

def T (σ α : Type) : Type := σ → Except Panic α × σ

namespace T

variable {σ α β : Type} {x : T σ α} {f : α → T σ β} {s t : σ} {a : α} {b : β}

def bind (x : T σ α) (f : α → T σ β) : T σ β := fun s =>
  match x s with
  | (.ok a, t) => f a t
  | (.error p, t) => (.error p, t)

instance : Monad (T σ) where
  pure a s := (.ok a, s)
  bind := bind

instance : MonadStateOf σ (T σ) where
  get s := (.ok s, s)
  set t _ := (.ok ⟨⟩, t)
  modifyGet g s := (.ok (g s).1, (g s).2)

instance : MonadExceptOf Panic (T σ) where
  throw p s := (.error p, s)
  tryCatch x h s := match x s with
    | (.ok a, t) => (.ok a, t)
    | (.error p, t) => h p t

@[simp] lemma pure_apply (a : α) (s : σ) : (pure a : T σ α) s = (.ok a, s) := rfl

@[simp] lemma throw_apply (p : Panic) (s : σ) : (throw p : T σ α) s = (.error p, s) := rfl

@[simp] lemma get_apply (s : σ) : (get : T σ σ) s = (.ok s, s) := rfl

@[simp] lemma modify_apply (g : σ → σ) (s : σ) : (modify g : T σ PUnit) s = (.ok ⟨⟩, g s) := rfl

lemma bind_apply (x : T σ α) (f : α → T σ β) (s : σ) :
    (x >>= f) s = match x s with
      | (.ok a, t) => f a t
      | (.error p, t) => (.error p, t) := rfl

lemma bind_ok (h : (x >>= f) s = (.ok b, t)) : ∃ a s1, x s = (.ok a, s1) ∧ f a s1 = (.ok b, t) := by
  rw [bind_apply] at h
  rcases hx : x s with ⟨_ | a, s1⟩
  · rw [hx] at h
    cases h
  · rw [hx] at h
    exact ⟨a, s1, rfl, h⟩

lemma bind_of_ok {s1 : σ} (h : x s = (.ok a, s1)) : (x >>= f) s = f a s1 := by
  rw [bind_apply, h]

/-- The computation returns, and the result passes a test. -/
def check (x : T σ α) (c : α → σ → Bool) (s : σ) : Bool :=
  match x s with
  | (.ok a, t) => c a t
  | (.error _, _) => false

lemma exists_of_check {c : α → σ → Bool} (h : x.check c s = true) : ∃ a t, x s = (.ok a, t) ∧ c a t = true := by
  unfold check at h
  rcases hr : x s with ⟨_ | a, t⟩
  · rw [hr] at h
    cases h
  · rw [hr] at h
    exact ⟨a, t, rfl, h⟩

/-- From `pre`, the computation returns with `post`, or stops with `stop`. -/
def Spec (pre : σ → Prop) (x : T σ α) (post : α → σ → Prop) (stop : σ → Prop) : Prop :=
  ∀ s, pre s → match x s with
    | (.ok a, t) => post a t
    | (.error _, t) => stop t

namespace Spec

variable {pre mid : σ → Prop} {post : α → σ → Prop} {stop : σ → Prop}

lemma pure (h : ∀ s, pre s → post a s) : Spec pre (pure a) post stop := h

lemma modify {g : σ → σ} {post : PUnit → σ → Prop} (h : ∀ s, pre s → post ⟨⟩ (g s)) : Spec pre (modify g) post stop := h

lemma get {post : σ → σ → Prop} (h : ∀ s, pre s → post s s) : Spec pre get post stop := h

lemma bind {post : α → σ → Prop} {last : β → σ → Prop} (hx : Spec pre x post stop)
    (hf : ∀ a, Spec (post a) (f a) last stop) : Spec pre (x >>= f) last stop := by
  intro s hs
  have h := hx s hs
  rw [bind_apply]
  rcases hr : x s with ⟨_ | a, t⟩
  · rw [hr] at h
    exact h
  · rw [hr] at h
    exact hf a t h

lemma ite {c : Prop} [Decidable c] {y : T σ α} (hx : c → Spec pre x post stop) (hy : ¬c → Spec pre y post stop) :
    Spec pre (if c then x else y) post stop := by
  split_ifs with h
  · exact hx h
  · exact hy h

end Spec

end T

end Glenda
