import Mathlib

/-!
# Lists of intervals

Half-open intervals `[r.1, r.2)` of a linear order, kept in a list. A list is `Separated` if its
intervals are not empty, in ascending order, and any two of them leave a gap. Adding an interval
that meets the gap between two neighbours and cutting an interval out keep lists separated, and
act on the covered set as union and difference.
-/

namespace Glenda.Lib

variable {α : Type} [LinearOrder α]

def cover (l : List (α × α)) : Set α := {x | ∃ r ∈ l, r.1 ≤ x ∧ x < r.2}

structure Separated (l : List (α × α)) : Prop where
  lt : ∀ r ∈ l, r.1 < r.2
  gap : l.Pairwise fun r r' => r.2 < r'.1

section Cover

variable {l l' : List (α × α)} {r : α × α} {x : α}

@[simp] lemma mem_cover_nil : x ∉ cover ([] : List (α × α)) := by
  rintro ⟨r, hr, -⟩
  cases hr

@[simp] lemma mem_cover_cons : x ∈ cover (r :: l) ↔ (r.1 ≤ x ∧ x < r.2) ∨ x ∈ cover l := by
  constructor
  · rintro ⟨r', hr', hx⟩
    rcases List.mem_cons.mp hr' with rfl | hr'
    · exact .inl hx
    · exact .inr ⟨r', hr', hx⟩
  · rintro (hx | ⟨r', hr', hx⟩)
    · exact ⟨r, List.mem_cons_self, hx⟩
    · exact ⟨r', List.mem_cons_of_mem _ hr', hx⟩

@[simp] lemma mem_cover_append : x ∈ cover (l ++ l') ↔ x ∈ cover l ∨ x ∈ cover l' := by
  induction l with
  | nil => simp
  | cons r l ih => rw [List.cons_append, mem_cover_cons, mem_cover_cons, ih, or_assoc]

end Cover

namespace Separated

variable {l l' : List (α × α)} {r : α × α} {x s e : α}

lemma nil : Separated ([] : List (α × α)) := ⟨by simp, .nil⟩

lemma cons_iff : Separated (r :: l) ↔ r.1 < r.2 ∧ (∀ r' ∈ l, r.2 < r'.1) ∧ Separated l := by
  constructor
  · intro h
    obtain ⟨hgap, hrest⟩ := List.pairwise_cons.mp h.gap
    exact ⟨h.lt r List.mem_cons_self, hgap, fun r' hr' => h.lt r' (List.mem_cons_of_mem _ hr'), hrest⟩
  · rintro ⟨hlt, hgap, h⟩
    refine ⟨fun r' hr' => ?_, List.pairwise_cons.mpr ⟨hgap, h.gap⟩⟩
    rcases List.mem_cons.mp hr' with rfl | hr'
    · exact hlt
    · exact h.lt r' hr'

lemma append_iff : Separated (l ++ l') ↔ Separated l ∧ Separated l' ∧ ∀ r ∈ l, ∀ r' ∈ l', r.2 < r'.1 := by
  constructor
  · intro h
    obtain ⟨h1, h2, h3⟩ := List.pairwise_append.mp h.gap
    exact ⟨⟨fun r hr => h.lt r (List.mem_append_left _ hr), h1⟩,
      ⟨fun r hr => h.lt r (List.mem_append_right _ hr), h2⟩, h3⟩
  · rintro ⟨h1, h2, h3⟩
    refine ⟨fun r hr => ?_, List.pairwise_append.mpr ⟨h1.gap, h2.gap, h3⟩⟩
    rcases List.mem_append.mp hr with hr | hr
    · exact h1.lt r hr
    · exact h2.lt r hr

end Separated

/-! ### Joining -/

/-- `left` is what there is of a list of intervals that ends at `b`, and `lo` is where it starts. -/
def EndsAt (pre left : List (α × α)) (lo b : α) : Prop :=
  (left = [] ∧ lo = b ∧ ∀ r ∈ pre, r.2 < b) ∨ left = [(lo, b)]

def StartsAt (right post : List (α × α)) (e hi : α) : Prop :=
  (right = [] ∧ hi = e ∧ ∀ r ∈ post, e < r.1) ∨ right = [(e, hi)]

section Join

variable {pre left right post : List (α × α)} {b e lo hi x : α}

lemma EndsAt.bounds (hl : EndsAt pre left lo b) (h : Separated (pre ++ left)) : lo ≤ b ∧ ∀ r ∈ pre, r.2 < lo := by
  rcases hl with ⟨rfl, rfl, hpre⟩ | rfl
  · exact ⟨le_rfl, hpre⟩
  · obtain ⟨-, hone, hgap⟩ := Separated.append_iff.mp h
    exact ⟨(hone.lt (lo, b) (by simp)).le, fun r hr => hgap r hr (lo, b) (by simp)⟩

lemma StartsAt.bounds (hr : StartsAt right post e hi) (h : Separated (right ++ post)) :
    e ≤ hi ∧ ∀ r ∈ post, hi < r.1 := by
  rcases hr with ⟨rfl, rfl, hpost⟩ | rfl
  · exact ⟨le_rfl, hpost⟩
  · obtain ⟨hone, -, hgap⟩ := Separated.append_iff.mp h
    exact ⟨(hone.lt (e, hi) (by simp)).le, fun r hr => hgap (e, hi) (by simp) r hr⟩

lemma EndsAt.mem (hl : EndsAt pre left lo b) : x ∈ cover left ↔ lo ≤ x ∧ x < b := by
  rcases hl with ⟨rfl, rfl, -⟩ | rfl
  · rw [iff_false_left mem_cover_nil]
    exact fun h => absurd h.2 (not_lt.mpr h.1)
  · simp

lemma StartsAt.mem (hr : StartsAt right post e hi) : x ∈ cover right ↔ e ≤ x ∧ x < hi := by
  rcases hr with ⟨rfl, rfl, -⟩ | rfl
  · rw [iff_false_left mem_cover_nil]
    exact fun h => absurd h.2 (not_lt.mpr h.1)
  · simp

lemma Separated.join (h : Separated ((pre ++ left) ++ (right ++ post))) (hbe : b < e) (hl : EndsAt pre left lo b)
    (hr : StartsAt right post e hi) : Separated (pre ++ (lo, hi) :: post) := by
  obtain ⟨h1, h2, hgap⟩ := append_iff.mp h
  obtain ⟨hlo, hpre⟩ := hl.bounds h1
  obtain ⟨hhi, hpost⟩ := hr.bounds h2
  have hlt : lo < hi := (hlo.trans_lt hbe).trans_le hhi
  refine append_iff.mpr ⟨(append_iff.mp h1).1, cons_iff.mpr ⟨hlt, hpost, (append_iff.mp h2).2.1⟩, ?_⟩
  intro r hr r' hr'
  rcases List.mem_cons.mp hr' with rfl | hr'
  · exact hpre r hr
  · exact hgap r (List.mem_append_left _ hr) r' (List.mem_append_right _ hr')

lemma mem_cover_join (hbe : b < e) (hl : EndsAt pre left lo b) (hr : StartsAt right post e hi) (hlo : lo ≤ b)
    (hhi : e ≤ hi) : x ∈ cover (pre ++ (lo, hi) :: post) ↔
      x ∈ cover ((pre ++ left) ++ (right ++ post)) ∨ (b ≤ x ∧ x < e) := by
  have hmid : (lo ≤ x ∧ x < hi) ↔ (lo ≤ x ∧ x < b) ∨ (e ≤ x ∧ x < hi) ∨ (b ≤ x ∧ x < e) := by
    constructor
    · rintro ⟨h1, h2⟩
      rcases lt_or_ge x b with hb | hb
      · exact .inl ⟨h1, hb⟩
      · rcases lt_or_ge x e with he | he
        · exact .inr (.inr ⟨hb, he⟩)
        · exact .inr (.inl ⟨he, h2⟩)
    · rintro (⟨h1, h2⟩ | ⟨h1, h2⟩ | ⟨h1, h2⟩)
      · exact ⟨h1, (h2.trans hbe).trans_le hhi⟩
      · exact ⟨(hlo.trans hbe.le).trans h1, h2⟩
      · exact ⟨hlo.trans h1, h2.trans_le hhi⟩
  simp only [mem_cover_append, mem_cover_cons, hl.mem, hr.mem, hmid, or_assoc]
  refine or_congr_right (or_congr_right (or_congr_right ?_))
  exact or_comm

/-- The list `l'` is `l` with `[b, e)` added; `lo` is where the interval starts that holds it. -/
def Joined (l l' : List (α × α)) (b e lo : α) : Prop :=
  ∃ pre left right post hi, l = (pre ++ left) ++ (right ++ post) ∧ l' = pre ++ (lo, hi) :: post ∧
    EndsAt pre left lo b ∧ StartsAt right post e hi

variable {l l' : List (α × α)}

section

variable (h : Joined l l' b e lo)
include h

lemma Joined.separated (hbe : b < e) (hl : Separated l) : Separated l' := by
  obtain ⟨pre, left, right, post, hi, rfl, rfl, hleft, hright⟩ := h
  exact hl.join hbe hleft hright

lemma Joined.mem_cover (hbe : b < e) (hl : Separated l) :
    x ∈ cover l' ↔ x ∈ cover l ∨ (b ≤ x ∧ x < e) := by
  obtain ⟨pre, left, right, post, hi, rfl, rfl, hleft, hright⟩ := h
  obtain ⟨h1, h2, -⟩ := Separated.append_iff.mp hl
  exact mem_cover_join hbe hleft hright (hleft.bounds h1).1 (hright.bounds h2).1

lemma Joined.length_eq (hbe : b < e) (hlt : ∀ r ∈ l, r.1 < r.2)
    (hapart : ∀ r ∈ l, r.2 < b ∨ e < r.1) : l'.length = l.length + 1 := by
  obtain ⟨pre, left, right, post, hi, rfl, rfl, hleft, hright⟩ := h
  have hl : left = [] := by
    rcases hleft with ⟨rfl, -⟩ | rfl
    · rfl
    · rcases hapart (lo, b) (by simp) with hb | he
      · exact absurd hb (lt_irrefl b)
      · exact absurd ((he.trans (hlt (lo, b) (by simp))).trans hbe) (lt_irrefl e)
  have hr : right = [] := by
    rcases hright with ⟨rfl, -⟩ | rfl
    · rfl
    · rcases hapart (e, hi) (by simp) with hb | he
      · exact absurd ((hlt (e, hi) (by simp)).trans (hb.trans hbe)) (lt_irrefl e)
      · exact absurd he (lt_irrefl e)
  rw [hl, hr]
  simp only [List.append_nil, List.nil_append, List.length_append, List.length_cons]
  omega

lemma Joined.bounds {r : α × α} (hr : r ∈ l') :
    (r.1 = b ∨ ∃ r' ∈ l, r'.1 = r.1) ∧ (r.2 = e ∨ ∃ r' ∈ l, r'.2 = r.2) := by
  obtain ⟨pre, left, right, post, hi, rfl, rfl, hleft, hright⟩ := h
  rw [List.mem_append, List.mem_cons] at hr
  rcases hr with hr | rfl | hr
  · exact ⟨.inr ⟨r, by simp [hr], rfl⟩, .inr ⟨r, by simp [hr], rfl⟩⟩
  · constructor
    · rcases hleft with ⟨-, rfl, -⟩ | rfl
      · exact .inl rfl
      · exact .inr ⟨(lo, b), by simp, rfl⟩
    · rcases hright with ⟨-, rfl, -⟩ | rfl
      · exact .inl rfl
      · exact .inr ⟨(e, hi), by simp, rfl⟩
  · exact ⟨.inr ⟨r, by simp [hr], rfl⟩, .inr ⟨r, by simp [hr], rfl⟩⟩

lemma Joined.start (hbe : b < e) (hl : Separated l) : lo = b ∧ (∀ r ∈ l, r.2 ≠ b) ∨
    lo < b ∧ (lo, b) ∈ l := by
  obtain ⟨pre, left, right, post, hi, rfl, rfl, hleft, hright⟩ := h
  rcases hleft with ⟨rfl, rfl, hpre⟩ | rfl
  · refine .inl ⟨rfl, fun r hr => ?_⟩
    obtain ⟨-, h2, -⟩ := Separated.append_iff.mp hl
    rw [List.append_nil, List.mem_append, List.mem_append] at hr
    rcases hr with hr | hr | hr
    · exact (hpre r hr).ne
    · rcases hright with ⟨rfl, -, -⟩ | rfl
      · cases hr
      · rw [List.mem_singleton] at hr
        subst hr
        exact ((hbe.trans (h2.lt (e, hi) (by simp)))).ne'
    · have hlt := (hright.bounds h2).2 r hr
      have hhi := (hright.bounds h2).1
      exact (((hbe.trans_le hhi).trans hlt).trans (h2.lt r (by simp [hr]))).ne'
  · exact .inr ⟨hl.lt (lo, b) (by simp), by simp⟩

end

end Join

/-! ### Cutting out -/

/-- What is left of an interval without `[s, e)`. -/
def cut (s e : α) (r : α × α) : List (α × α) :=
  (if r.1 < min r.2 s then [(r.1, min r.2 s)] else []) ++ (if max r.1 e < r.2 then [(max r.1 e, r.2)] else [])

lemma cut_of_le {s e : α} {r : α × α} (hlt : r.1 < r.2) (hse : s < e) (h : r.2 ≤ s ∨ e ≤ r.1) : cut s e r = [r] := by
  unfold cut
  rcases h with h | h
  · rw [min_eq_left h, if_pos hlt, if_neg]
    · rfl
    · rw [not_lt]
      exact (h.trans hse.le).trans (le_max_right _ _)
  · rw [max_eq_left h, if_pos hlt, if_neg]
    · rfl
    · rw [not_lt]
      exact (min_le_right _ _).trans (hse.le.trans h)

lemma cut_max_min (s e : α) (r : α × α) : cut (max s r.1) (min e r.2) r = cut s e r := by
  unfold cut
  congr 1
  · rcases le_total s r.1 with h | h
    · rw [max_eq_right h, if_neg (by simp), if_neg (by simp [h])]
    · rw [max_eq_left h]
  · rcases le_total e r.2 with h | h
    · rw [min_eq_left h]
    · rw [min_eq_right h, if_neg (by simp), if_neg (by simp [h])]

lemma cut_of_start_le {s s' e : α} {r : α × α} (h : s ≤ r.1) (h' : s' ≤ r.1) : cut s e r = cut s' e r := by
  have h1 : ¬r.1 < min r.2 s := by simp [h]
  have h2 : ¬r.1 < min r.2 s' := by simp [h']
  unfold cut
  rw [if_neg h1, if_neg h2]

lemma flatMap_cut_of_le {s e : α} {l : List (α × α)} (hl : ∀ r ∈ l, r.1 < r.2) (hse : s < e)
    (h : ∀ r ∈ l, r.2 ≤ s ∨ e ≤ r.1) : l.flatMap (cut s e) = l := by
  induction l with
  | nil => rfl
  | cons r l ih =>
    rw [List.flatMap_cons, cut_of_le (hl r (by simp)) hse (h r (by simp)),
      ih (fun r hr => hl r (by simp [hr])) fun r hr => h r (by simp [hr])]
    rfl

lemma mem_cut {s e x : α} {r : α × α} :
    x ∈ cover (cut s e r) ↔ (r.1 ≤ x ∧ x < r.2) ∧ ¬(s ≤ x ∧ x < e) := by
  unfold cut
  have hleft : x ∈ cover (if r.1 < min r.2 s then [(r.1, min r.2 s)] else []) ↔ r.1 ≤ x ∧ x < r.2 ∧ x < s := by
    split_ifs with h
    · simp
    · rw [iff_false_left mem_cover_nil]
      rintro ⟨h1, h2, h3⟩
      exact h (h1.trans_lt (lt_min h2 h3))
  have hright : x ∈ cover (if max r.1 e < r.2 then [(max r.1 e, r.2)] else []) ↔ r.1 ≤ x ∧ e ≤ x ∧ x < r.2 := by
    split_ifs with h
    · simp [and_assoc]
    · rw [iff_false_left mem_cover_nil]
      rintro ⟨h1, h2, h3⟩
      exact h ((max_le h1 h2).trans_lt h3)
  rw [mem_cover_append, hleft, hright]
  constructor
  · rintro (⟨h1, h2, h3⟩ | ⟨h1, h2, h3⟩)
    · exact ⟨⟨h1, h2⟩, fun h => absurd h3 (not_lt.mpr h.1)⟩
    · exact ⟨⟨h1, h3⟩, fun h => absurd h.2 (not_lt.mpr h2)⟩
  · rintro ⟨⟨h1, h2⟩, h3⟩
    rcases lt_or_ge x s with h | h
    · exact .inl ⟨h1, h2, h⟩
    · exact .inr ⟨h1, not_lt.mp fun h' => h3 ⟨h, h'⟩, h2⟩

lemma mem_cut_bounds {s e : α} {r r' : α × α} (h : r' ∈ cut s e r) : r.1 ≤ r'.1 ∧ r'.1 < r'.2 ∧ r'.2 ≤ r.2 := by
  unfold cut at h
  rcases List.mem_append.mp h with h | h
  · split_ifs at h with hlt
    · rw [List.mem_singleton] at h
      subst h
      exact ⟨le_rfl, hlt, min_le_left _ _⟩
    · cases h
  · split_ifs at h with hlt
    · rw [List.mem_singleton] at h
      subst h
      exact ⟨le_max_left _ _, hlt, le_rfl⟩
    · cases h

lemma mem_cut_eq {s e : α} {r r' : α × α} (h : r' ∈ cut s e r) : (r'.1 = r.1 ∨ r'.1 = e) ∧ (r'.2 = r.2 ∨ r'.2 = s) := by
  unfold cut at h
  rcases List.mem_append.mp h with h | h
  · split_ifs at h
    · rw [List.mem_singleton] at h
      subst h
      exact ⟨.inl rfl, min_choice _ _⟩
    · cases h
  · split_ifs at h
    · rw [List.mem_singleton] at h
      subst h
      exact ⟨max_choice _ _, .inl rfl⟩
    · cases h

lemma separated_cut {s e : α} (hse : s < e) (r : α × α) : Separated (cut s e r) := by
  have hone : ∀ a b : α, Separated (if a < b then [(a, b)] else []) := by
    intro a b
    split_ifs with h
    · exact Separated.cons_iff.mpr ⟨h, by simp, .nil⟩
    · exact .nil
  refine Separated.append_iff.mpr ⟨hone _ _, hone _ _, fun r1 h1 r2 h2 => ?_⟩
  split_ifs at h1 h2
  · rw [List.mem_singleton] at h1 h2
    rw [h1, h2]
    exact ((min_le_right _ _).trans_lt hse).trans_le (le_max_right _ _)
  all_goals first | exact absurd h1 List.not_mem_nil | exact absurd h2 List.not_mem_nil

variable {s e x : α} {l : List (α × α)}

lemma mem_cover_flatMap_cut : x ∈ cover (l.flatMap (cut s e)) ↔ x ∈ cover l ∧ ¬(s ≤ x ∧ x < e) := by
  induction l with
  | nil => simp
  | cons r l ih => rw [List.flatMap_cons, mem_cover_append, mem_cut, ih, mem_cover_cons, or_and_right]

lemma Separated.flatMap_cut (hse : s < e) (h : Separated l) : Separated (l.flatMap (cut s e)) := by
  induction l with
  | nil => exact .nil
  | cons r l ih =>
    obtain ⟨hlt, hgap, hl⟩ := cons_iff.mp h
    rw [List.flatMap_cons]
    refine append_iff.mpr ⟨separated_cut hse r, ih hl, fun r1 h1 r2 h2 => ?_⟩
    obtain ⟨r', hr', hr2⟩ := List.mem_flatMap.mp h2
    exact (mem_cut_bounds h1).2.2.trans_lt ((hgap r' hr').trans_le (mem_cut_bounds hr2).1)

lemma Separated.length_flatMap_cut (h : Separated l) (hse : s < e) (hin : ∃ r ∈ l, r.1 < s ∧ e < r.2) :
    (l.flatMap (cut s e)).length = l.length + 1 := by
  obtain ⟨r, hr, hs, he⟩ := hin
  obtain ⟨pre, post, rfl⟩ := List.append_of_mem hr
  obtain ⟨hpre, hpost, hgap⟩ := append_iff.mp h
  obtain ⟨hlt, hnext, hpost⟩ := cons_iff.mp hpost
  rw [List.flatMap_append, List.flatMap_cons,
    flatMap_cut_of_le hpre.lt hse fun r' hr' => .inl ((hgap r' hr' r (by simp)).trans hs).le,
    flatMap_cut_of_le hpost.lt hse fun r' hr' => .inr (he.trans (hnext r' hr')).le]
  unfold cut
  rw [min_eq_right (hse.trans he).le, max_eq_right (hs.trans hse).le, if_pos hs, if_pos he]
  simp only [List.length_append, List.length_cons, List.length_nil]
  omega

end Glenda.Lib
