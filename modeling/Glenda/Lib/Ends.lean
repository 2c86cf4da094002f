import Glenda.Basic

/-!
# How a computation ends

`x.Ends s E Q` says that from the state `s` the computation `x` stops in a panic of `E`, or returns a value and a
state that satisfy `Q`. The rules follow the structure of a program.
-/

namespace Glenda.K

variable {σ α β : Type} {E : Panic → Prop} {Q Q' : α → σ → Prop} {R : β → σ → Prop} {x : K σ α} {f : α → K σ β} {s : σ} {a : α} {E' : Panic → Prop}

structure Ends (x : K σ α) (s : σ) (E : Panic → Prop) (Q : α → σ → Prop) : Prop where
  error : ∀ e, x s = .error e → E e
  ok : ∀ a s', x s = .ok (a, s') → Q a s'

namespace Ends

lemma pure (h : Q a s) : Ends (pure a) s E Q := by
  refine ⟨fun e he => ?_, fun b s' he => ?_⟩
  · cases he
  · cases he
    exact h

lemma mono (h : x.Ends s E Q) (hQ : ∀ a s', Q a s' → Q' a s') : x.Ends s E Q' :=
  ⟨h.error, fun a s' he => hQ a s' (h.ok a s' he)⟩

lemma and (h : x.Ends s E Q) (h' : x.Ends s E' Q') : x.Ends s E fun a s' => Q a s' ∧ Q' a s' :=
  ⟨h.error, fun a s' he => ⟨h.ok a s' he, h'.ok a s' he⟩⟩

lemma any (hE : ∀ e, E e) : x.Ends s E fun _ _ => True := ⟨fun e _ => hE e, fun _ _ _ => trivial⟩

lemma imp (h : x.Ends s E Q) (hE : ∀ e, E e → E' e) : x.Ends s E' Q := ⟨fun e he => hE e (h.error e he), h.ok⟩

lemma bind (hx : x.Ends s E Q) (hf : ∀ a s', x s = .ok (a, s') → Q a s' → (f a).Ends s' E R) : (x >>= f).Ends s E R := by
  refine ⟨fun e he => ?_, fun b s' he => ?_⟩
  · rcases bind_eq_error.mp he with he | ⟨a, s1, hx1, he⟩
    · exact hx.error e he
    · exact (hf a s1 hx1 (hx.ok a s1 hx1)).error e he
  · obtain ⟨a, s1, hx1, he⟩ := bind_ok he
    exact (hf a s1 hx1 (hx.ok a s1 hx1)).ok b s' he

lemma of_ok {s' : σ} (h : x s = .ok (a, s')) (hQ : Q a s') : x.Ends s E Q := by
  refine ⟨fun e he => ?_, fun b t he => ?_⟩
  · rw [h] at he
    cases he
  · rw [h] at he
    cases he
    exact hQ

lemma throw {e : Panic} (h : E e) : Ends (throw e : K σ α) s E Q := by
  refine ⟨fun e' he => ?_, fun a s' he => ?_⟩
  · cases he
    exact h
  · cases he

lemma bind_of_ok {s' : σ} (h : x s = .ok (a, s')) (hf : (f a).Ends s' E R) : (x >>= f).Ends s E R := by
  refine ⟨fun e he => ?_, fun b t he => ?_⟩
  · rw [K.bind_of_ok h] at he
    exact hf.error e he
  · rw [K.bind_of_ok h] at he
    exact hf.ok b t he

lemma forM_range {n : Nat} {g : Nat → K σ PUnit} {I : Nat → σ → Prop} (h0 : I 0 s)
    (hstep : ∀ i s, i < n → I i s → (g i).Ends s E fun _ s' => I (i + 1) s') :
    ((List.range n).forM g).Ends s E fun _ s' => I n s' := by
  have hgen : ∀ (k a : Nat) (s : σ), a + k = n → I a s → ((List.range' a k).forM g).Ends s E fun _ s' => I n s' := by
    intro k
    induction k with
    | zero =>
      intro a s hak hI
      exact .pure (by rwa [show n = a by omega])
    | succ k ih =>
      intro a s hak hI
      rw [List.range'_succ]
      change (g a >>= fun _ => (List.range' (a + 1) k).forM g).Ends s E fun _ s' => I n s'
      exact .bind (hstep a s (by omega) hI) fun _ s1 _ hI1 => ih (a + 1) s1 (by omega) hI1
  rw [List.range_eq_range']
  exact hgen n 0 s (by omega) h0

lemma exists_ok (h : x.Ends s (fun _ => False) Q) : ∃ a s', x s = .ok (a, s') ∧ Q a s' := by
  cases hx : x s with
  | error e => exact (h.error e hx).elim
  | ok r => exact ⟨r.1, r.2, rfl, h.ok r.1 r.2 hx⟩

lemma get_bind {f : σ → K σ β} (h : (f s).Ends s E R) : (get >>= f).Ends s E R := ⟨h.error, h.ok⟩

lemma modify_bind {g : σ → σ} {f : PUnit → K σ β} (h : (f ⟨⟩).Ends (g s) E R) : (modify g >>= f).Ends s E R := ⟨h.error, h.ok⟩

lemma panicIf_bind {c : Prop} [Decidable c] {e : Panic} {f : Unit → K σ β} (hc : c → E e) (hf : ¬c → (f ()).Ends s E R) :
    (panicIf c e >>= f).Ends s E R := by
  by_cases h : c
  · refine ⟨fun e' he => ?_, fun b s' he => ?_⟩
    · rw [K.bind_of_error (panicIf_eq_error.mpr ⟨h, rfl⟩)] at he
      cases he
      exact hc h
    · rw [K.bind_of_error (panicIf_eq_error.mpr ⟨h, rfl⟩)] at he
      cases he
  · exact .bind_of_ok (panicIf_of_not h) (hf h)

end Ends

/-! ### Computations on a component -/

variable {τ : Type} {get : τ → σ} {set : σ → τ → τ}

lemma Ends.focus {t : τ} (h : x.Ends (get t) E Q) : (K.focus get set x).Ends t E fun a t' => ∃ s', t' = set s' t ∧ Q a s' := by
  refine ⟨fun e he => ?_, fun a t' he => ?_⟩
  · unfold K.focus at he
    cases hx : x (get t) with
    | error e' =>
      rw [hx] at he
      cases he
      exact h.error e hx
    | ok r =>
      rw [hx] at he
      cases he
  · obtain ⟨s', hx, rfl⟩ := focus_ok he
    exact ⟨s', rfl, h.ok a s' hx⟩

end Glenda.K

namespace Glenda

variable {σ β : Type} {E : Panic → Prop} {R : β → σ → Prop} {s : σ} {w : Nat} {g : Nat → K σ β}

lemma addW_bind (P : Profile) (a b : Nat) (hE : E .overflow) (hg : ∀ v < 2 ^ w, (g v).Ends s E R) : (addW P w a b >>= g).Ends s E R := by
  by_cases h : a + b < 2 ^ w
  · rw [addW_of_lt P h, pure_bind]
    exact hg _ h
  · cases P with
    | dev =>
      rw [addW_dev (by omega)]
      exact .throw hE
    | release =>
      rw [addW_release, pure_bind]
      exact hg _ (Nat.mod_lt _ (Nat.two_pow_pos w))

lemma subW_bind (P : Profile) {a : Nat} (b : Nat) (hE : E .overflow) (ha : a < 2 ^ w) (hg : ∀ v < 2 ^ w, (g v).Ends s E R) :
    (subW P w a b >>= g).Ends s E R := by
  by_cases h : b ≤ a
  · rw [subW_of_le P h, pure_bind]
    exact hg _ (by omega)
  · cases P with
    | dev => exact .bind (Q := fun _ _ => False) (by unfold subW; rw [if_neg h]; exact .throw hE) fun _ _ _ => False.elim
    | release =>
      rw [subW_release (by omega), pure_bind]
      exact hg _ (Nat.mod_lt _ (Nat.two_pow_pos w))

lemma addW_mod {P : Profile} {a b : Nat} (hE : ∀ e, E e) (hg : (g ((a + b) % 2 ^ w)).Ends s E R) : (addW P w a b >>= g).Ends s E R := by
  refine .bind (Q := fun n x' => s = x' ∧ n = (a + b) % 2 ^ w) ⟨fun e _ => hE e, fun n x' he => addW_ok he⟩ ?_
  rintro n x' - ⟨rfl, rfl⟩
  exact hg

end Glenda
