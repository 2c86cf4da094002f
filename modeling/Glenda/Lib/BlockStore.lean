import Glenda.Lib.Ends

/-!
# Stores of blocks

A store gives out handles on blocks. A client reads a block to get a handle, loads and changes the contents through it,
writes them back and releases the handle. `Lawful` says what a client may rely on that reads no block twice at a time, uses
at most `cap` handles and writes what it has changed: the store behaves like the plain contents `d`.
-/

namespace Glenda.Lib

structure BlockStore (σ β : Type) where
  read : Nat → K σ Nat
  load : Nat → K σ β
  modify : Nat → (β → β) → K σ Unit
  write : Nat → K σ Unit
  release : Nat → K σ Unit

namespace BlockStore

variable {σ β α : Type} {B : BlockStore σ β} {cap : Nat} {Rep : σ → (Nat → β) → List (Nat × Nat) → Prop}

/-- `Rep s d H` says that `s` stores the blocks `d` and that the handles in use are `H`, each with its block, the last one
first. -/
structure Lawful (B : BlockStore σ β) (cap : Nat) (Rep : σ → (Nat → β) → List (Nat × Nat) → Prop) : Prop where
  read : ∀ {s d H n}, Rep s d H → (∀ x ∈ H, x.2 ≠ n) → H.length < cap →
    ∃ i s', B.read n s = .ok (i, s') ∧ Rep s' d ((i, n) :: H)
  load : ∀ {s d H i n}, Rep s d H → (i, n) ∈ H → B.load i s = .ok (d n, s)
  store : ∀ {s d H i n} (f : β → β), Rep s d H → (i, n) ∈ H → ∃ s₁ s', B.modify i f s = .ok ((), s₁) ∧
    B.write i s₁ = .ok ((), s') ∧ Rep s' (Function.update d n (f (d n))) H
  release : ∀ {s d H i n}, Rep s d ((i, n) :: H) → ∃ s', B.release i s = .ok ((), s') ∧ Rep s' d H

namespace Lawful

variable {s : σ} {d : Nat → β} {H : List (Nat × Nat)} {i n : Nat} {E : Panic → Prop} {R : α → σ → Prop}

lemma read_bind {f : Nat → K σ α} (L : B.Lawful cap Rep) (hr : Rep s d H) (hn : ∀ x ∈ H, x.2 ≠ n) (hc : H.length < cap)
    (hf : ∀ i s', Rep s' d ((i, n) :: H) → (f i).Ends s' E R) : (B.read n >>= f).Ends s E R := by
  obtain ⟨i, s', he, hr'⟩ := L.read hr hn hc
  exact .bind_of_ok he (hf i s' hr')

lemma load_bind {f : β → K σ α} (L : B.Lawful cap Rep) (hr : Rep s d H) (hi : (i, n) ∈ H) (hf : (f (d n)).Ends s E R) :
    (B.load i >>= f).Ends s E R :=
  .bind_of_ok (L.load hr hi) hf

lemma store_bind {g : β → β} {f : Unit → K σ α} (L : B.Lawful cap Rep) (hr : Rep s d H) (hi : (i, n) ∈ H)
    (hf : ∀ s', Rep s' (Function.update d n (g (d n))) H → (f ()).Ends s' E R) :
    (B.modify i g >>= fun _ => B.write i >>= f).Ends s E R := by
  obtain ⟨s1, s', hmod, hwrite, hr'⟩ := L.store g hr hi
  exact .bind_of_ok hmod (.bind_of_ok hwrite (hf s' hr'))

lemma release_bind {f : Unit → K σ α} (L : B.Lawful cap Rep) (hr : Rep s d ((i, n) :: H))
    (hf : ∀ s', Rep s' d H → (f ()).Ends s' E R) : (B.release i >>= f).Ends s E R := by
  obtain ⟨s', he, hr'⟩ := L.release hr
  exact .bind_of_ok he (hf s' hr')

lemma release_ends (L : B.Lawful cap Rep) (hr : Rep s d ((i, n) :: H)) : (B.release i).Ends s E fun _ s' => Rep s' d H := by
  obtain ⟨s', he, hr'⟩ := L.release hr
  exact .of_ok he hr'

end Lawful

/-! ### A store inside a larger state -/

/-- The store that is a component of a larger state. -/
def lift {τ : Type} (get : τ → σ) (set : σ → τ → τ) (B : BlockStore σ β) : BlockStore τ β where
  read n := K.focus get set (B.read n)
  load i := K.focus get set (B.load i)
  modify i f := K.focus get set (B.modify i f)
  write i := K.focus get set (B.write i)
  release i := K.focus get set (B.release i)

/-- The component represents the blocks, and the rest of the larger state is `r`. -/
def Within {τ ρ : Type} (get : τ → σ) (rest : τ → ρ) (Rep : σ → (Nat → β) → List (Nat × Nat) → Prop) (r : ρ) (t : τ)
    (d : Nat → β) (H : List (Nat × Nat)) : Prop := rest t = r ∧ Rep (get t) d H

lemma Lawful.lift {τ ρ : Type} {get : τ → σ} {set : σ → τ → τ} {rest : τ → ρ} (L : B.Lawful cap Rep)
    (hget : ∀ s t, get (set s t) = s) (hset : ∀ t, set (get t) t = t) (hrest : ∀ s t, rest (set s t) = rest t) (r : ρ) :
    (B.lift get set).Lawful cap (Within get rest Rep r) := by
  have hwithin : ∀ {t s' d H}, rest t = r → Rep s' d H → Within get rest Rep r (set s' t) d H := by
    intro t s' d H ht hr
    refine ⟨(hrest s' t).trans ht, ?_⟩
    rwa [hget]
  constructor
  · rintro t d H n ⟨ht, hr⟩ hn hc
    obtain ⟨i, s', he, hr'⟩ := L.read hr hn hc
    exact ⟨i, _, K.focus_of_ok he, hwithin ht hr'⟩
  · rintro t d H i n ⟨ht, hr⟩ hi
    have he : K.focus get set (B.load i) t = .ok (d n, set (get t) t) := K.focus_of_ok (L.load hr hi)
    rwa [hset] at he
  · rintro t d H i n f ⟨ht, hr⟩ hi
    obtain ⟨s1, s', hmod, hwrite, hr'⟩ := L.store f hr hi
    refine ⟨set s1 t, set s' (set s1 t), K.focus_of_ok hmod, K.focus_of_ok ?_, ?_⟩
    · rwa [hget]
    · exact hwithin ((hrest s1 t).trans ht) hr'
  · rintro t d H i n ⟨ht, hr⟩
    obtain ⟨s', he, hr'⟩ := L.release hr
    exact ⟨_, K.focus_of_ok he, hwithin ht hr'⟩

end BlockStore

end Glenda.Lib
