import Glenda.Lib.BlockStore

/-!
# Watching the clients of a store

A watched store keeps the list of the handles in use. It stops a client that reads a block which it holds, that takes more than
`cap` handles, or that uses or releases a handle which it does not hold. For a client that is never stopped the watched store is
the store itself.
-/

namespace Glenda.K

variable {σ τ α β : Type} {f : σ → τ} {p : Panic}

/-- The computation `x` is `y` on the part of the state that `f` shows, unless it is stopped by `p`. -/
structure Watches (f : σ → τ) (p : Panic) (x : K σ α) (y : K τ α) : Prop where
  run : ∀ s, x s = .error p ∨ (x s).map (fun r => (r.1, f r.2)) = y (f s)

namespace Watches

lemma pure (a : α) : Watches f p (pure a : K σ α) (pure a) := ⟨fun _ => .inr rfl⟩

lemma throw (e : Panic) : Watches f p (throw e : K σ α) (throw e) := ⟨fun _ => .inr rfl⟩

lemma bind {x : K σ α} {y : K τ α} {g : α → K σ β} {h : α → K τ β} (hx : Watches f p x y) (hg : ∀ a, Watches f p (g a) (h a)) :
    Watches f p (x >>= g) (y >>= h) := by
  refine ⟨fun s => ?_⟩
  cases hxs : x s with
  | error e =>
    rw [K.bind_of_error hxs]
    refine (hx.run s).imp (fun hs => ?_) fun hs => ?_
    · rw [hxs] at hs
      cases hs
      rfl
    · rw [hxs] at hs
      rw [K.bind_of_error hs.symm]
      rfl
  | ok r =>
    have hs := (hx.run s).resolve_left fun hs => by rw [hxs] at hs; cases hs
    rw [hxs] at hs
    rw [K.bind_of_ok hxs, K.bind_of_ok hs.symm]
    exact (hg r.1).run r.2

lemma modify {g : σ → σ} {h : τ → τ} (hf : ∀ s, f (g s) = h (f s)) : Watches f p (modify g : K σ PUnit) (modify h) := by
  refine ⟨fun s => .inr ?_⟩
  change Except.ok ((), f (g s)) = Except.ok ((), h (f s))
  rw [hf]

lemma panicIf (c : Prop) [Decidable c] (e : Panic) : Watches f p (K.panicIf c e : K σ Unit) (K.panicIf c e) := by
  unfold K.panicIf
  split_ifs
  · exact throw e
  · exact pure ()

lemma addW (P : Profile) (w a b : Nat) : Watches f p (addW P w a b : K σ Nat) (addW P w a b) := by
  unfold Glenda.addW
  split_ifs
  · exact pure _
  · cases P with
    | dev => exact throw _
    | release => exact pure _

lemma subW (P : Profile) (w a b : Nat) : Watches f p (subW P w a b : K σ Nat) (subW P w a b) := by
  unfold Glenda.subW
  split_ifs
  · exact pure _
  · cases P with
    | dev => exact throw _
    | release => exact pure _

lemma forM {l : List β} {g : β → K σ PUnit} {h : β → K τ PUnit} (hg : ∀ b, Watches f p (g b) (h b)) : Watches f p (l.forM g) (l.forM h) := by
  induction l with
  | nil => exact pure _
  | cons b l ih => exact bind (hg b) fun _ => ih

end Watches

end Glenda.K

namespace Glenda.Lib.BlockStore

variable {σ τ β : Type} {B : BlockStore σ β} {C : BlockStore τ β} {cap cap' : Nat} {p : Panic} {f : σ → τ}
  {Rep : σ → (Nat → β) → List (Nat × Nat) → Prop}

/-- A computation that needs a handle `i`. -/
def holding {α : Type} (p : Panic) (i : Nat) (x : K σ α) : K (σ × List (Nat × Nat)) α := fun t =>
  if t.2.any (·.1 == i) then (x t.1).map fun r => (r.1, r.2, t.2) else .error p

def watched (B : BlockStore σ β) (cap : Nat) (p : Panic) : BlockStore (σ × List (Nat × Nat)) β where
  read n := fun t => if t.2.all (·.2 != n) && decide (t.2.length < cap) then (B.read n t.1).map fun r => (r.1, r.2, (r.1, n) :: t.2)
    else .error p
  load i := holding p i (B.load i)
  modify i f := holding p i (B.modify i f)
  write i := holding p i (B.write i)
  release i := fun t => if t.2.any (·.1 == i) then (B.release i t.1).map fun r => (r.1, r.2, t.2.eraseP (·.1 == i)) else .error p

/-- The list of a watched store is that of the handles in use. -/
def WatchedRep (Rep : σ → (Nat → β) → List (Nat × Nat) → Prop) (t : σ × List (Nat × Nat)) (d : Nat → β) (H : List (Nat × Nat)) :
    Prop := Rep t.1 d H ∧ t.2 = H

lemma holding_of_ok {α : Type} {x : K σ α} {t : σ × List (Nat × Nat)} {a : α} {s : σ} {i n : Nat} (hi : (i, n) ∈ t.2)
    (h : x t.1 = .ok (a, s)) : holding p i x t = .ok (a, s, t.2) := by
  have hany : (t.2.any fun x => x.1 == i) = true := List.any_eq_true.mpr ⟨(i, n), hi, by simp⟩
  unfold holding
  rw [if_pos hany, h]
  rfl

/-- Who keeps to the rules is served by the watched store as by the store. -/
theorem Lawful.watched (L : B.Lawful cap' Rep) (hcap : cap ≤ cap') (p : Panic) : (B.watched cap p).Lawful cap (WatchedRep Rep) := by
  constructor
  · rintro ⟨s, H⟩ d H n ⟨hr, rfl⟩ hn hc
    obtain ⟨i, s', he, hr'⟩ := L.read hr hn (hc.trans_le hcap)
    refine ⟨i, (s', (i, n) :: H), ?_, hr', rfl⟩
    have hok : (H.all (·.2 != n) && decide (H.length < cap)) = true := by simpa using ⟨fun a b hx => hn (a, b) hx, hc⟩
    change (if _ then (B.read n s).map _ else _) = _
    rw [if_pos hok, he]
    rfl
  · rintro ⟨s, H⟩ d H i n ⟨hr, rfl⟩ hi
    exact holding_of_ok hi (L.load hr hi)
  · rintro ⟨s, H⟩ d H i n f ⟨hr, rfl⟩ hi
    obtain ⟨s1, s', hmod, hwrite, hr'⟩ := L.store f hr hi
    exact ⟨(s1, H), (s', H), holding_of_ok (t := (s, H)) hi hmod, holding_of_ok (t := (s1, H)) hi hwrite, hr', rfl⟩
  · rintro ⟨s, H'⟩ d H i n ⟨hr, rfl⟩
    obtain ⟨s', he, hr'⟩ := L.release hr
    refine ⟨(s', ((i, n) :: H).eraseP (·.1 == i)), ?_, hr', ?_⟩
    · change (if _ then (B.release i s).map _ else _) = _
      rw [if_pos (List.any_eq_true.mpr ⟨(i, n), List.mem_cons_self, by simp⟩), he]
      rfl
    · dsimp only
      rw [List.eraseP_cons_of_pos (by simp)]

lemma holding_watches {α : Type} (i : Nat) (x : K σ α) : K.Watches Prod.fst p (holding p i x) x := by
  refine ⟨fun t => ?_⟩
  unfold holding
  split_ifs
  · right
    cases x t.1 with
    | error e => rfl
    | ok r => rfl
  · exact .inl rfl

/-- The operations of one store are those of the other on a part of the state, unless they are stopped. -/
structure Watches (f : σ → τ) (p : Panic) (B : BlockStore σ β) (C : BlockStore τ β) : Prop where
  read : ∀ n, K.Watches f p (B.read n) (C.read n)
  load : ∀ i, K.Watches f p (B.load i) (C.load i)
  modify : ∀ i g, K.Watches f p (B.modify i g) (C.modify i g)
  write : ∀ i, K.Watches f p (B.write i) (C.write i)
  release : ∀ i, K.Watches f p (B.release i) (C.release i)

lemma watched_watches (B : BlockStore σ β) (cap : Nat) (p : Panic) : Watches Prod.fst p (B.watched cap p) B := by
  constructor
  · refine fun n => ⟨fun t => ?_⟩
    change (if _ then (B.read n t.1).map _ else _) = _ ∨ (if _ then (B.read n t.1).map _ else _).map _ = _
    split_ifs
    · right
      cases B.read n t.1 with
      | error e => rfl
      | ok r => rfl
    · exact .inl rfl
  · exact fun i => holding_watches i _
  · exact fun i g => holding_watches i _
  · exact fun i => holding_watches i _
  · refine fun i => ⟨fun t => ?_⟩
    change (if _ then (B.release i t.1).map _ else _) = _ ∨ (if _ then (B.release i t.1).map _ else _).map _ = _
    split_ifs
    · right
      cases B.release i t.1 with
      | error e => rfl
      | ok r => rfl
    · exact .inl rfl

end Glenda.Lib.BlockStore
