import Glenda.Mem.MmapLists
import Glenda.Mem.Holders

/-!
# What `mmap` and `munmap` do

On well-formed lists and as long as no address wraps, `mmap` joins its range to the ranges of the
list and maps its pages, and `munmap` cuts its range out of them and unmaps what it cuts out.
-/

namespace Glenda.Mem
open Glenda.Lib

variable {σ : Type} {r : Except UvmError Nat} {i f p c npages fuel cursor size begin v x us fin : Nat} {o cur : Option Nat} {t t' : σ}

/-- The ranges of a list: separated, page-aligned and inside the window. -/
structure Regions (l : List (Nat × Nat)) : Prop where
  separated : Separated l
  dvd : ∀ r ∈ l, PGSIZE ∣ r.1 ∧ PGSIZE ∣ r.2
  bounds : ∀ r ∈ l, MMAP_BEGIN ≤ r.1 ∧ r.2 ≤ MMAP_END

/-- The pages of the regions. -/
def pagesOf (l : List (Nat × Nat)) (q : Nat) : Prop := q * PGSIZE ∈ cover l

lemma mmap_window : PGSIZE ∣ MMAP_BEGIN ∧ PGSIZE ∣ MMAP_END ∧ 0 < MMAP_BEGIN ∧ MMAP_BEGIN < MMAP_END ∧
    MMAP_END < VA_MAX := by
  decide

lemma VA_MAX_lt : VA_MAX < 2 ^ 64 := by decide

namespace Regions

variable {l l' : List (Nat × Nat)} {b e lo : Nat}

lemma nil : Regions [] := ⟨.nil, by simp, by simp⟩

lemma join (h : Regions l) (hj : Joined l l' b e lo) (hbe : b < e) (hb : PGSIZE ∣ b) (he : PGSIZE ∣ e)
    (hlow : MMAP_BEGIN ≤ b) (hhigh : e ≤ MMAP_END) : Regions l' := by
  refine ⟨hj.separated hbe h.separated, fun r hr => ?_, fun r hr => ?_⟩
  · obtain ⟨h1, h2⟩ := hj.bounds hr
    constructor
    · rcases h1 with h1 | ⟨r', hr', h1⟩
      · rwa [h1]
      · rw [← h1]
        exact (h.dvd r' hr').1
    · rcases h2 with h2 | ⟨r', hr', h2⟩
      · rwa [h2]
      · rw [← h2]
        exact (h.dvd r' hr').2
  · obtain ⟨h1, h2⟩ := hj.bounds hr
    constructor
    · rcases h1 with h1 | ⟨r', hr', h1⟩
      · rwa [h1]
      · rw [← h1]
        exact (h.bounds r' hr').1
    · rcases h2 with h2 | ⟨r', hr', h2⟩
      · rwa [h2]
      · rw [← h2]
        exact (h.bounds r' hr').2

lemma cut (h : Regions l) {s : Nat} (hse : s < e) (hs : PGSIZE ∣ s) (he : PGSIZE ∣ e) :
    Regions (l.flatMap (Lib.cut s e)) := by
  refine ⟨h.separated.flatMap_cut hse, fun r hr => ?_, fun r hr => ?_⟩
  · obtain ⟨r', hr', hr⟩ := List.mem_flatMap.mp hr
    obtain ⟨h1, h2⟩ := h.dvd r' hr'
    obtain ⟨hb, he'⟩ := mem_cut_eq hr
    constructor
    · rcases hb with hb | hb <;> rwa [hb]
    · rcases he' with hb | hb <;> rwa [hb]
  · obtain ⟨r', hr', hr⟩ := List.mem_flatMap.mp hr
    have hb := h.bounds r' hr'
    have hin := mem_cut_bounds hr
    omega

lemma right {l' : List (Nat × Nat)} (h : Regions (l ++ l')) : Regions l' :=
  ⟨(Separated.append_iff.mp h.separated).2.1, fun r hr => h.dvd r (List.mem_append_right _ hr),
    fun r hr => h.bounds r (List.mem_append_right _ hr)⟩

lemma tail {r : Nat × Nat} (h : Regions (r :: l)) : Regions l := right (l := [r]) h

lemma cutOne {pre post : List (Nat × Nat)} {c : Nat × Nat} {s : Nat} (h : Regions (pre ++ c :: post)) (hse : s < e)
    (hs : PGSIZE ∣ s) (he : PGSIZE ∣ e) (hc : c.1 ≤ s) (hc' : e ≤ c.2) : Regions (pre ++ Lib.cut s e c ++ post) := by
  have hcut := h.cut hse hs he
  obtain ⟨hsep, hsep', hgap⟩ := Separated.append_iff.mp h.separated
  obtain ⟨-, hpost, hsep'⟩ := Separated.cons_iff.mp hsep'
  rw [List.flatMap_append, List.flatMap_cons, flatMap_cut_of_le hsep.lt hse fun r hr => .inl ?_,
    flatMap_cut_of_le hsep'.lt hse fun r hr => .inr ?_, ← List.append_assoc] at hcut
  · exact hcut
  · have hg := hpost r hr
    omega
  · have hg := hgap r hr c (by simp)
    omega

end Regions

namespace MmapWarehouse

def spans (wh : MmapWarehouse) (ids : List Nat) : List (Nat × Nat) := ids.map wh.span

variable {wh wh' : MmapWarehouse} {ids ids' : List Nat}

@[simp] lemma spans_nil (wh : MmapWarehouse) : wh.spans [] = [] := rfl

@[simp] lemma spans_cons (wh : MmapWarehouse) (i : Nat) : wh.spans (i :: ids) = wh.span i :: wh.spans ids := rfl

@[simp] lemma spans_append (wh : MmapWarehouse) : wh.spans (ids ++ ids') = wh.spans ids ++ wh.spans ids' := List.map_append

lemma spans_congr (h : ∀ i ∈ ids, wh'.span i = wh.span i) : wh'.spans ids = wh.spans ids := List.map_congr_left h

lemma mem_spans (h : i ∈ ids) : wh.span i ∈ wh.spans ids := List.mem_map_of_mem h

end MmapWarehouse

open MmapWarehouse (given_of_ne mem_spans region_setRegion_self setRegion_of_ne span span_eq spans_append spans_congr spans_cons)

namespace Uvm

variable {P : Profile} {s s' : Vm} {ids pre post free : List Nat} {table : Nat}

lemma regionEnd_eq {wh : MmapWarehouse} (h : Regions (wh.spans ids)) (hi : i ∈ ids) :
    (regionEnd P (wh.region i) : K σ Nat) = pure (wh.span i).2 := by
  have hb := (h.bounds _ (mem_spans hi)).2
  have hw := mmap_window.2.2.2.2
  have hv := VA_MAX_lt
  unfold span at hb ⊢
  dsimp only at hb ⊢
  unfold regionEnd
  rw [mulW_of_lt P (by omega), pure_bind, addW_of_lt P (by omega)]

lemma prevEnd_eq {wh : MmapWarehouse} (h : Regions (wh.spans ids)) (hi : ∀ i, o = some i → i ∈ ids) :
    (prevEnd P wh o : K σ (Option Nat)) = pure (o.map fun i => (wh.span i).2) := by
  cases o with
  | none => rfl
  | some i =>
    dsimp only [prevEnd]
    rw [regionEnd_eq h (hi i rfl)]
    rfl

lemma span_setRegion {wh : MmapWarehouse} (f : MmapRegion → MmapRegion) :
    (wh.setRegion i f).span i = ((f (wh.region i)).begin, (f (wh.region i)).begin + (f (wh.region i)).npages * PGSIZE) := by
  unfold span
  rw [region_setRegion_self]

lemma spans_replace {wh wh' : MmapWarehouse} {x : Nat × Nat} (hnew : wh'.span p = x) (hsame : ∀ i ∈ pre ++ post, wh'.span i = wh.span i) :
    wh'.spans (pre ++ p :: post) = wh.spans pre ++ x :: wh.spans post := by
  rw [spans_append, spans_cons, hnew, spans_congr fun i hi => hsame i (List.mem_append_left _ hi),
    spans_congr fun i hi => hsame i (List.mem_append_right _ hi)]

/-- What `placeRegion` does to the list when it returns `Ok(lo)`. -/
def Placed (s s' : Vm) (ids free : List Nat) (b f lo : Nat) : Prop :=
  ∃ ids' free', RegionLists s'.wh s'.head ids' free' ∧ Moves s.wh s'.wh ids free ids' free' ∧
    Joined (s.wh.spans ids) (s'.wh.spans ids') b f lo

/-- The result of a call that has mapped its pages with the result `res`. -/
def Finished (s s' : Vm) (ids free : List Nat) (b f : Nat) (res : Except UvmError Unit) (r : Except UvmError Nat) : Prop :=
  (∃ e, res = .error e ∧ r = .error e ∧ s'.wh = s.wh ∧ s'.head = s.head) ∨
    (res = .ok () ∧ r = .error .noMem ∧ free = [] ∧ (∀ x ∈ s.wh.spans ids, x.2 < b ∨ f < x.1) ∧ s'.wh = s.wh.init ∧
      s'.head = s.head) ∨
    (res = .ok () ∧ ∃ lo, r = .ok lo ∧ Placed s s' ids free b f lo)

/-- No region before ends after the last one, and no region after begins before the first one. -/
lemma spans_lt {wh : MmapWarehouse} {b : Nat} (h : Separated (wh.spans pre)) (hpre : ∀ i ∈ pre, (wh.span i).1 < b)
    (hlast : ∀ p, pre.getLast? = some p → (wh.span p).2 < b) : ∀ r ∈ wh.spans pre, r.2 < b := by
  rcases List.eq_nil_or_concat pre with rfl | ⟨pre, p, rfl⟩
  · simp
  · simp only [List.concat_eq_append, spans_append] at *
    intro r hr
    rcases List.mem_append.mp hr with hr | hr
    · have hgap := (Separated.append_iff.mp h).2.2 r hr (wh.span p) (by simp)
      exact hgap.trans (hpre p (by simp))
    · rw [show r = wh.span p by simpa using hr]
      exact hlast p (by simp)

lemma lt_spans {wh : MmapWarehouse} (h : Separated (wh.spans post))
    (hhead : ∀ c, post.head? = some c → f < (wh.span c).1) : ∀ r ∈ wh.spans post, f < r.1 := by
  cases post with
  | nil => simp
  | cons c post =>
    intro r hr
    have hc := hhead c rfl
    obtain ⟨hlt, hgap, -⟩ := Separated.cons_iff.mp h
    rcases List.mem_cons.mp hr with rfl | hr
    · exact hc
    · have hg := hgap r hr
      omega

lemma extendPrev_spec {b mergedEnd : Nat} {next : Option Nat}
    (h : RegionLists s.wh s.head (pre ++ p :: post) free) (hr : Regions (s.wh.spans (pre ++ p :: post)))
    (hp : (s.wh.span p).2 = b) (hbf : b < f) (hf : PGSIZE ∣ f) (hmax : f ≤ MMAP_END)
    (hnext : (next = none ∧ mergedEnd = f ∧ ∀ r ∈ s.wh.spans post, f < r.1) ∨
      ∃ c post', post = c :: post' ∧ next = some c ∧ (s.wh.span c).1 = f ∧ mergedEnd = (s.wh.span c).2)
    (he : extendPrev P table p next f mergedEnd s = .ok (r, s')) :
    ∃ res, mapPages P table b ((f - b) / PGSIZE) s.ph = .ok (res, s'.ph) ∧
      Finished s s' (pre ++ p :: post) free b f res r := by
  have hp' : p ∈ pre ++ p :: post := by simp
  have hpspan : s.wh.span p ∈ s.wh.spans (pre ++ p :: post) := mem_spans hp'
  obtain ⟨prevEnd, res, ph', hend, hgrow, hcases⟩ := extendPrev_ok he
  rw [regionEnd_eq hr hp'] at hend
  obtain rfl : (s.wh.span p).2 = prevEnd := by cases hend; rfl
  unfold growTo at hgrow
  rw [hp, if_pos hbf] at hgrow
  refine ⟨res, ?_⟩
  rcases hcases with ⟨e, rfl, rfl, rfl⟩ | ⟨rfl, rfl, n, wh1, t, hn, hwh, hrest⟩
  · exact ⟨hgrow, .inl ⟨e, rfl, rfl, rfl, rfl⟩⟩
  have hlt : (s.wh.span p).1 < b := hp ▸ hr.separated.lt _ hpspan
  have hdvd := (hr.dvd _ hpspan).1
  have hbeg : (s.wh.span p).1 = (s.wh.region p).begin := rfl
  have hw := mmap_window.2.2.2.2
  have hleft : EndsAt (s.wh.spans pre) [((s.wh.region p).begin, b)] (s.wh.region p).begin b := .inr rfl
  have hspanp : s.wh.span p = ((s.wh.region p).begin, b) := Prod.ext rfl hp
  have hotherp : ∀ i ∈ pre ++ post, i ≠ p := by
    rintro i hi rfl
    exact (List.nodup_cons.mp (List.nodup_middle.mp (List.nodup_append.mp h.nodup).1)).1 hi
  have h1 : RegionLists wh1 s.head (pre ++ p :: post) free := hwh ▸ h.setRegion hp' rfl
  have hm1 : Moves s.wh wh1 (pre ++ p :: post) free (pre ++ p :: post) free :=
    hwh ▸ RegionLists.moves_setRegion hp' _
  rcases hnext with ⟨rfl, rfl, hpost⟩ | ⟨c, post', rfl, rfl, hc, rfl⟩
  · rcases hrest with ⟨-, rfl⟩ | ⟨c, -, n', -, hc, -⟩
    · refine ⟨hgrow, .inr (.inr ⟨rfl, _, rfl, pre ++ p :: post, free, h1, hm1, s.wh.spans pre, _, [], s.wh.spans post,
        mergedEnd, ?_, ?_, hleft, .inl ⟨rfl, rfl, hpost⟩⟩)⟩
      · simp [hspanp]
      · have hsize := pagesBetween_ok (by omega) (by omega) hdvd hf hn
        have hnew : wh1.span p = ((s.wh.region p).begin, mergedEnd) := by
          rw [hwh, span_setRegion]
          dsimp only
          rw [hsize, ← hbeg, Nat.add_sub_cancel' (by omega)]
        have hsame : ∀ i ∈ pre ++ post, wh1.span i = s.wh.span i := fun i hi => by
          rw [hwh]
          exact span_eq (setRegion_of_ne (hotherp i hi) _)
        exact spans_replace hnew hsame
    · cases hc
  · rcases hrest with ⟨hnone, -⟩ | ⟨c', e, n', t', hc', hend', hn', rfl⟩
    · cases hnone
    · obtain rfl := Option.some.inj hc'
      have hcmem : c ∈ pre ++ p :: c :: post' := by simp
      have hcspan : s.wh.span c ∈ s.wh.spans (pre ++ p :: c :: post') := mem_spans hcmem
      have hcb := hr.bounds _ hcspan
      have hclt := hr.separated.lt _ hcspan
      have hregc : wh1.region c = s.wh.region c := by
        unfold MmapWarehouse.region
        rw [hwh, setRegion_of_ne (hotherp c (by simp))]
      rw [hregc, regionEnd_eq hr hcmem] at hend'
      obtain rfl : (s.wh.span c).2 = e := by cases hend'; rfl
      obtain ⟨h2, hm2⟩ := RegionLists.dropNext ({ · with npages := n', next := wh1.nextRegion c }) h1 rfl
      refine ⟨hgrow, .inr (.inr ⟨rfl, _, rfl, pre ++ p :: post', c :: free, h2, hm1.trans hm2, s.wh.spans pre, _,
        [(f, (s.wh.span c).2)], s.wh.spans post', (s.wh.span c).2, ?_, ?_, hleft, .inr rfl⟩)⟩
      · have hspanc : s.wh.span c = (f, (s.wh.span c).2) := Prod.ext hc rfl
        simp [hspanp, ← hspanc]
      · have hsize := pagesBetween_ok (by omega) (by omega) hdvd (hr.dvd _ hcspan).2 hn'
        have hpc : p ≠ c := (hotherp c (by simp)).symm
        have hregp : (wh1.region p).begin = (s.wh.region p).begin := by
          rw [hwh, region_setRegion_self]
        have hnew : ((wh1.setRegion p ({ · with npages := n', next := wh1.nextRegion c })).given c).span p =
            ((s.wh.region p).begin, (s.wh.span c).2) := by
          rw [span_eq (given_of_ne hpc), span_setRegion]
          dsimp only
          rw [hsize, hregp, ← hbeg, Nat.add_sub_cancel' (by omega)]
        have hnd := List.nodup_cons.mp (List.nodup_middle.mp (show ((pre ++ [p]) ++ c :: post').Nodup by
          simpa using (List.nodup_append.mp h.nodup).1))
        have hsame : ∀ i ∈ pre ++ post', ((wh1.setRegion p ({ · with npages := n', next := wh1.nextRegion c })).given
            c).span i = s.wh.span i := by
          intro i hi
          have hip : i ≠ p := hotherp i (by
            rw [List.mem_append] at hi ⊢
            exact hi.imp_right (List.mem_cons_of_mem c))
          have hic : i ≠ c := by
            rintro rfl
            apply hnd.1
            rw [List.mem_append] at hi
            rcases hi with hi | hi <;> simp [hi]
          rw [span_eq (given_of_ne hic),
            span_eq (setRegion_of_ne hip _), hwh,
            span_eq (setRegion_of_ne hip _)]
        exact spans_replace hnew hsame

lemma extendNext_spec {b mergedEnd : Nat}
    (h : RegionLists s.wh s.head (pre ++ c :: post) free) (hr : Regions (s.wh.spans (pre ++ c :: post)))
    (hc : (s.wh.span c).1 = f) (hbf : b < f) (hb : PGSIZE ∣ b) (hmerged : mergedEnd = (s.wh.span c).2)
    (hpre : ∀ r ∈ s.wh.spans pre, r.2 < b)
    (he : extendNext P table c pre.getLast? b f mergedEnd s = .ok (r, s')) :
    ∃ res, mapPages P table b ((f - b) / PGSIZE) s.ph = .ok (res, s'.ph) ∧
      Finished s s' (pre ++ c :: post) free b f res r := by
  have hc' : c ∈ pre ++ c :: post := by simp
  have hcspan : s.wh.span c ∈ s.wh.spans (pre ++ c :: post) := mem_spans hc'
  have hcb := hr.bounds _ hcspan
  have hclt := hr.separated.lt _ hcspan
  have hw := mmap_window.2.2.2.2
  have hotherc : ∀ i ∈ pre ++ post, i ≠ c := by
    rintro i hi rfl
    exact (List.nodup_cons.mp (List.nodup_middle.mp (List.nodup_append.mp h.nodup).1)).1 hi
  obtain ⟨size, res, ph', hsize, hmap, hcases⟩ := extendNext_ok he
  rw [subW_of_le P (by omega)] at hsize
  obtain rfl : f - b = size := by cases hsize; rfl
  refine ⟨res, ?_⟩
  rcases hcases with ⟨e, rfl, rfl, rfl⟩ | ⟨rfl, rfl, n, u, t, hn, hlink⟩
  · exact ⟨hmap, .inl ⟨e, rfl, rfl, rfl, rfl⟩⟩
  obtain ⟨wh1, hwh⟩ : ∃ w, w = s.wh.setRegion c ({ · with begin := b, npages := n }) := ⟨_, rfl⟩
  rw [← hwh] at hlink
  have h1 : RegionLists wh1 s.head (pre ++ c :: post) free := hwh ▸ h.setRegion hc' rfl
  have hm1 : Moves s.wh wh1 (pre ++ c :: post) free (pre ++ c :: post) free :=
    hwh ▸ RegionLists.moves_setRegion hc' _
  obtain ⟨h2, hm2, hph, hspan⟩ := link_self (s := ⟨ph', wh1, s.head⟩) h1 hlink
  dsimp only at hph hspan
  have hpages := pagesBetween_ok (by omega) (by omega) hb (hmerged ▸ (hr.dvd _ hcspan).2) hn
  have hnew : s'.wh.span c = (b, (s.wh.span c).2) := by
    rw [hspan, hwh, span_setRegion]
    dsimp only
    rw [hpages, hmerged, Nat.add_sub_cancel' (by omega)]
  have hsame : ∀ i ∈ pre ++ post, s'.wh.span i = s.wh.span i := by
    intro i hi
    rw [hspan, hwh]
    exact span_eq (setRegion_of_ne (hotherc i hi) _)
  refine ⟨by rw [hph]; exact hmap, .inr (.inr ⟨rfl, b, rfl, pre ++ c :: post, free, h2, hm1.trans hm2, s.wh.spans pre, [],
    [(f, (s.wh.span c).2)], s.wh.spans post, (s.wh.span c).2, ?_, ?_, .inl ⟨rfl, rfl, hpre⟩, .inr rfl⟩)⟩
  · have hspanc : s.wh.span c = (f, (s.wh.span c).2) := Prod.ext hc rfl
    simp [← hspanc]
  · exact spans_replace hnew hsame

lemma insertNew_spec {b : Nat} (h : RegionLists s.wh s.head (pre ++ post) free)
    (hf : f = b + npages * PGSIZE) (hmax : f ≤ MMAP_END) (hpre : ∀ r ∈ s.wh.spans pre, r.2 < b)
    (hpost : ∀ r ∈ s.wh.spans post, f < r.1)
    (he : insertNew P table b npages pre.getLast? post.head? s = .ok (r, s')) :
    ∃ res, mapPages P table b ((f - b) / PGSIZE) s.ph = .ok (res, s'.ph) ∧
      Finished s s' (pre ++ post) free b f res r := by
  have hsize : (f - b) / PGSIZE = npages := by
    rw [hf, Nat.add_sub_cancel_left, Nat.mul_div_cancel _ (by decide)]
  obtain ⟨res, ph', hmap, hcases⟩ := insertNew_ok h he
  rw [hsize]
  refine ⟨res, ?_⟩
  rcases hcases with ⟨e, rfl, rfl, rfl⟩ | ⟨rfl, ⟨rfl, hfree, rfl⟩ | ⟨x, rest, u, rfl, rfl, hlink⟩⟩
  · exact ⟨hmap, .inl ⟨e, rfl, rfl, rfl, rfl⟩⟩
  · refine ⟨hmap, .inr (.inl ⟨rfl, rfl, hfree, fun x hx => ?_, rfl, rfl⟩)⟩
    rw [spans_append, List.mem_append] at hx
    exact hx.imp (hpre x) (hpost x)
  · have h1 : RegionLists ({ s with ph := ph' } : Vm).wh ({ s with ph := ph' } : Vm).head (pre ++ post) (x :: rest) := h
    obtain ⟨h2, hm, hph, hspan, hnew⟩ := h1.insert rfl hlink
    have hlt : npages % 2 ^ 32 = npages := by
      have hw := mmap_window.2.2.2.2
      unfold VA_MAX at hw
      unfold PGSIZE at hf
      exact Nat.mod_eq_of_lt (by omega)
    dsimp only at hnew
    rw [hlt, ← hf] at hnew
    refine ⟨by rw [hph]; exact hmap, .inr (.inr ⟨rfl, b, rfl, pre ++ x :: post, rest, h2, hm, s.wh.spans pre, [], [],
      s.wh.spans post, f, by simp, ?_, .inl ⟨rfl, rfl, hpre⟩, .inl ⟨rfl, rfl, hpost⟩⟩)⟩
    exact spans_replace hnew hspan

/-- The range is refused because of the region before it or of the one behind it. Otherwise it ends the previous region, or goes
before the next one, or stands alone. -/
lemma placeRegion_cases {b : Nat} (hr : Regions (s.wh.spans (pre ++ post))) (hpre : ∀ i ∈ pre, (s.wh.span i).1 < b) :
    (placeRegion P table b f npages pre.getLast? post.head? s = .ok (.error .outOfRange, s) ∧
      ((∃ p ∈ pre, b < (s.wh.span p).2) ∨ ∃ c, post.head? = some c ∧ (s.wh.span c).1 < f)) ∨
      (∀ r ∈ s.wh.spans pre, r.2 ≤ b) ∧ (∀ c, post.head? = some c → f ≤ (s.wh.span c).1) ∧
      ((∃ pre' p next mergedEnd, pre = pre' ++ [p] ∧ (s.wh.span p).2 = b ∧
          ((next = none ∧ mergedEnd = f ∧ ∀ r ∈ s.wh.spans post, f < r.1) ∨
            ∃ c post', post = c :: post' ∧ next = some c ∧ (s.wh.span c).1 = f ∧ mergedEnd = (s.wh.span c).2) ∧
          placeRegion P table b f npages pre.getLast? post.head? s = extendPrev P table p next f mergedEnd s) ∨
        (∃ c post', post = c :: post' ∧ (s.wh.span c).1 = f ∧ (∀ r ∈ s.wh.spans pre, r.2 < b) ∧
          placeRegion P table b f npages pre.getLast? post.head? s =
            extendNext P table c pre.getLast? b f (s.wh.span c).2 s) ∨
        (∀ r ∈ s.wh.spans pre, r.2 < b) ∧ (∀ r ∈ s.wh.spans post, f < r.1) ∧
          placeRegion P table b f npages pre.getLast? post.head? s =
            insertNew P table b npages pre.getLast? post.head? s) := by
  have hsep := hr.separated
  rw [spans_append, Separated.append_iff] at hsep
  have hlast : ∀ p, pre.getLast? = some p → p ∈ pre ++ post := fun p hp => by simp [List.mem_of_getLast? hp]
  obtain ⟨run, hrun⟩ : ∃ run, placeRegion P table b f npages pre.getLast? post.head? s = run := ⟨_, rfl⟩
  rw [hrun]
  unfold placeRegion at hrun
  rw [K.bind_of_ok (K.get_apply s), prevEnd_eq hr hlast, pure_bind] at hrun
  split_ifs at hrun with h1 h2
  · refine .inl ⟨hrun.symm, .inl ?_⟩
    cases hp : pre.getLast? with
    | none =>
      rw [hp] at h1
      cases h1
    | some p =>
      rw [hp] at h1
      exact ⟨p, List.mem_of_getLast? hp, by simpa using h1⟩
  · refine .inl ⟨hrun.symm, .inr ?_⟩
    cases hc : post.head? with
    | none =>
      rw [hc] at h2
      cases h2
    | some c =>
      rw [hc] at h2
      exact ⟨c, rfl, by simpa [span] using h2⟩
  · -- the previous region ends at `b` or before, and the next one begins at `f` or after
    have hprev : ∀ p, pre.getLast? = some p → (s.wh.span p).2 ≤ b := by
      intro p hp
      rw [hp] at h1
      simpa using h1
    have hnext : ∀ c, post.head? = some c → f ≤ (s.wh.span c).1 := by
      intro c hc
      rw [hc] at h2
      simpa [span] using h2
    have hle := spans_lt (b := b + 1) hsep.1 (fun i hi => (hpre i hi).trans (by omega)) fun p hp => Nat.lt_succ_of_le (hprev p hp)
    refine .inr ⟨fun r hr' => Nat.le_of_lt_succ (hle r hr'), hnext, ?_⟩
    have hafter : post.head?.filter (fun c => (s.wh.region c).begin = f) = none → ∀ r ∈ s.wh.spans post, f < r.1 := by
      intro hnone
      refine lt_spans hsep.2.1 fun c hc => (hnext c hc).lt_of_ne fun heq => ?_
      rw [hc, Option.filter_some, if_pos (by simpa [span] using heq.symm)] at hnone
      cases hnone
    have htail : ∀ c, post.head?.filter (fun c => (s.wh.region c).begin = f) = some c →
        ∃ post', post = c :: post' ∧ (s.wh.span c).1 = f := by
      intro c hc
      obtain ⟨hhead, hbeg⟩ := Option.filter_eq_some_iff.mp hc
      obtain ⟨post', rfl⟩ := List.head?_eq_some_iff.mp hhead
      exact ⟨post', rfl, by simpa [span] using hbeg⟩
    have hmerged : ∀ c, post.head?.filter (fun c => (s.wh.region c).begin = f) = some c →
        (mergedEnd P s.wh f (some c) : K Vm Nat) = pure (s.wh.span c).2 := by
      intro c hc
      obtain ⟨post', rfl, -⟩ := htail c hc
      exact regionEnd_eq hr (by simp)
    cases hp : pre.getLast?.filter (fun _ => pre.getLast?.map (fun i => (s.wh.span i).2) = some b) with
    | some p =>
      rw [hp] at hrun
      obtain ⟨hpl, hpe⟩ := Option.filter_eq_some_iff.mp hp
      have hpe' : (s.wh.span p).2 = b := by
        rw [hpl] at hpe
        simpa using hpe
      obtain ⟨pre, rfl⟩ := List.getLast?_eq_some_iff.mp hpl
      cases hn : post.head?.filter (fun c => (s.wh.region c).begin = f) with
      | none =>
        rw [hn] at hrun
        exact .inl ⟨pre, p, none, f, rfl, hpe', .inl ⟨rfl, rfl, hafter hn⟩, hrun.symm⟩
      | some c =>
        obtain ⟨post', rfl, hc⟩ := htail c hn
        rw [hn] at hrun
        dsimp only at hrun
        rw [hmerged c hn, pure_bind] at hrun
        exact .inl ⟨pre, p, some c, _, rfl, hpe', .inr ⟨c, post', rfl, rfl, hc, rfl⟩, hrun.symm⟩
    | none =>
      have hbefore : ∀ r ∈ s.wh.spans pre, r.2 < b := by
        refine spans_lt hsep.1 hpre fun p hpl => (hprev p hpl).lt_of_ne fun heq => ?_
        rw [hpl, Option.filter_some, if_pos (by simp [heq])] at hp
        cases hp
      rw [hp] at hrun
      cases hn : post.head?.filter (fun c => (s.wh.region c).begin = f) with
      | some c =>
        obtain ⟨post', rfl, hc⟩ := htail c hn
        rw [hn] at hrun
        dsimp only at hrun
        rw [hmerged c hn, pure_bind] at hrun
        exact .inr (.inl ⟨c, post', rfl, hc, hbefore, hrun.symm⟩)
      | none =>
        rw [hn] at hrun
        exact .inr (.inr ⟨hbefore, hafter hn, hrun.symm⟩)

/-- The range is refused because it meets a region, or its pages are mapped and joined to the list. -/
lemma placeRegion_spec {b : Nat} (h : RegionLists s.wh s.head (pre ++ post) free)
    (hr : Regions (s.wh.spans (pre ++ post))) (hf : f = b + npages * PGSIZE) (hb : PGSIZE ∣ b) (hbf : b < f)
    (hmax : f ≤ MMAP_END) (hpre : ∀ i ∈ pre, (s.wh.span i).1 < b)
    (hpost : ∀ i, post.head? = some i → b ≤ (s.wh.span i).1)
    (he : placeRegion P table b f npages pre.getLast? post.head? s = .ok (r, s')) :
    (r = .error .outOfRange ∧ s' = s ∧ ∃ x ∈ cover (s.wh.spans (pre ++ post)), b ≤ x ∧ x < f) ∨
      (∀ x ∈ cover (s.wh.spans (pre ++ post)), ¬(b ≤ x ∧ x < f)) ∧
      ∃ res, mapPages P table b ((f - b) / PGSIZE) s.ph = .ok (res, s'.ph) ∧
        Finished s s' (pre ++ post) free b f res r := by
  have hdvd : PGSIZE ∣ f := hf ▸ Nat.dvd_add hb (Nat.dvd_mul_left _ _)
  rcases @placeRegion_cases f npages P s pre post table b hr hpre with ⟨hrun, hmeet⟩ | ⟨hle, hnext, hcases⟩
  · rw [hrun] at he
    cases he
    refine .inl ⟨rfl, rfl, ?_⟩
    rcases hmeet with ⟨p, hp, hlt⟩ | ⟨c, hc, hlt⟩
    · exact ⟨b, ⟨_, mem_spans (List.mem_append_left _ hp), (hpre p hp).le, hlt⟩, le_rfl, hbf⟩
    · have hcmem : s.wh.span c ∈ s.wh.spans (pre ++ post) := mem_spans (by simp [List.mem_of_head? hc])
      exact ⟨_, ⟨_, hcmem, le_rfl, hr.separated.lt _ hcmem⟩, hpost c hc, hlt⟩
  have hdisj : ∀ x ∈ cover (s.wh.spans (pre ++ post)), ¬(b ≤ x ∧ x < f) := by
    have hsep := hr.separated
    rw [spans_append, Separated.append_iff] at hsep
    have hge := lt_spans (f := f - 1) hsep.2.1 fun c hc => by have := hnext c hc; omega
    intro x hx hx'
    rw [spans_append, mem_cover_append] at hx
    rcases hx with ⟨r, hr', hx⟩ | ⟨r, hr', hx⟩
    · have := hle r hr'
      omega
    · have := hge r hr'
      omega
  refine .inr ⟨hdisj, ?_⟩
  rcases hcases with ⟨pre', p, next, me, rfl, hp, hnext, hrun⟩ | ⟨c, post', rfl, hc, hbefore, hrun⟩ | ⟨hbefore, hafter, hrun⟩
  · rw [hrun] at he
    rw [List.append_assoc, List.singleton_append] at h hr ⊢
    exact extendPrev_spec h hr hp hbf hdvd hmax hnext he
  · rw [hrun] at he
    exact extendNext_spec h hr hc hbf hb rfl hbefore he
  · rw [hrun] at he
    exact insertNew_spec h hf hmax hbefore hafter he

/-- The search ends at the cursor if no region is in the way, and otherwise at the end of a region. It does not pass by a gap. -/
lemma findGap_ok {wh : MmapWarehouse} {r : Bool × Nat}
    (hc : Chain wh.nextRegion cur post) (hr : Regions (wh.spans post)) (hsize : npages * PGSIZE < 2 ^ 64)
    (hcur : ∀ r ∈ wh.spans post, cursor ≤ r.1) (hd : PGSIZE ∣ cursor)
    (he : findGap P wh npages fuel cur cursor t = .ok (r, t')) :
    (r.1 = true → r.2 + npages * PGSIZE ≤ MMAP_END) ∧
      (r.2 = cursor ∧ (∀ r' ∈ wh.spans post, cursor + npages * PGSIZE ≤ r'.1) ∨
        (∃ r' ∈ wh.spans post, r'.1 < cursor + npages * PGSIZE) ∧ ∃ r' ∈ wh.spans post, r'.2 = r.2) ∧
      cursor ≤ r.2 ∧ PGSIZE ∣ r.2 ∧ (∀ x ∈ wh.spans post, x.2 ≤ r.2 ∨ r.2 + npages * PGSIZE ≤ x.1) ∧
      ∀ b, cursor ≤ b → (∀ x ∈ wh.spans post, x.2 ≤ b ∨ b + npages * PGSIZE ≤ x.1) → r.2 ≤ b := by
  induction post generalizing fuel cur cursor with
  | nil =>
    rw [Chain.nil.mp hc] at he
    cases fuel <;> cases he <;> exact ⟨by simp, .inl ⟨rfl, by simp⟩, le_rfl, hd, by simp, fun b hb _ => hb⟩
  | cons x post ih =>
    obtain ⟨rfl, hrest⟩ := Chain.cons.mp hc
    obtain ⟨hlt, hgap, hsep⟩ := Separated.cons_iff.mp hr.separated
    have hx : wh.span x ∈ wh.spans (x :: post) := List.mem_cons_self
    have hbegin : (wh.span x).1 = (wh.region x).begin := rfl
    have hxcur : cursor ≤ (wh.region x).begin := hcur _ hx
    cases fuel with
    | zero => cases he
    | succ fuel =>
      rw [findGap, if_pos hxcur, mulW_of_lt P hsize, pure_bind] at he
      split_ifs at he with hfit
      · cases he
        have hb := (hr.bounds _ hx).2
        have hall : ∀ y ∈ wh.spans (x :: post), cursor + npages * PGSIZE ≤ y.1 := by
          intro y hy
          rcases List.mem_cons.mp hy with rfl | hy
          · omega
          · have hg := hgap y hy
            omega
        exact ⟨fun _ => by dsimp only; omega, .inl ⟨rfl, hall⟩, le_rfl, hd, fun y hy => .inr (hall y hy), fun b hb _ => hb⟩
      · rw [regionEnd_eq hr List.mem_cons_self, pure_bind] at he
        obtain ⟨hfound, hres, hle, hd', hclear, hfirst⟩ := ih hrest hr.tail (fun r hr => (hgap r hr).le) (hr.dvd _ hx).2 he
        refine ⟨hfound, .inr ⟨⟨_, hx, by omega⟩, ?_⟩, by omega, hd', fun y hy => ?_,
          fun b hb hall => hfirst b ?_ fun y hy => hall y (List.mem_cons_of_mem _ hy)⟩
        · rcases hres with ⟨hcursor, -⟩ | ⟨-, r', hr', heq⟩
          · exact ⟨_, hx, hcursor.symm⟩
          · exact ⟨r', List.mem_cons_of_mem _ hr', heq⟩
        · rcases List.mem_cons.mp hy with rfl | hy
          · exact .inl hle
          · exact hclear y hy
        · rcases hall _ hx with hafter | hbefore
          · exact hafter
          · omega

/-- `size` bytes from `b` on are free of regions: whole pages in the window. -/
def Vacant (l : List (Nat × Nat)) (b size : Nat) : Prop :=
  PGSIZE ∣ b ∧ MMAP_BEGIN ≤ b ∧ b + size ≤ MMAP_END ∧ ∀ x ∈ cover l, ¬(b ≤ x ∧ x < b + size)

lemma Vacant.apart {l : List (Nat × Nat)} {b : Nat} (h : Vacant l b size) (hsize : 0 < size) {r : Nat × Nat}
    (hr : r ∈ l) (hlt : r.1 < r.2) : r.2 ≤ b ∨ b + size ≤ r.1 := by
  by_contra hcon
  have hx : max b r.1 ∈ cover l := ⟨r, hr, by omega, by omega⟩
  exact h.2.2.2 _ hx ⟨by omega, by omega⟩

lemma startAt_first (h : RegionLists s.wh s.head ids free) (hr : Regions (s.wh.spans ids))
    (hpos : 0 < npages) (hsize : npages * PGSIZE < 2 ^ 64)
    (he : startAt P 0 npages MMAP_BEGIN MMAP_END s = .ok (o, s')) :
    (∀ b, o = some b → Vacant (s.wh.spans ids) b (npages * PGSIZE)) ∧
      ∀ b, Vacant (s.wh.spans ids) b (npages * PGSIZE) → ∃ c, o = some c ∧ c ≤ b := by
  have hpg : 0 < npages * PGSIZE := Nat.mul_pos hpos (by decide)
  unfold startAt at he
  rw [if_pos rfl] at he
  obtain ⟨s0, s1, hget, he⟩ := K.bind_ok he
  cases hget
  obtain ⟨⟨found, cursor⟩, s1, hgap, he⟩ := K.bind_ok he
  obtain ⟨hend, -, hle, hd, hclear, hfirst⟩ := findGap_ok h.regions hr hsize (fun r hr' => (hr.bounds r hr').1) mmap_window.1 hgap
  have hleast : ∀ b, Vacant (s.wh.spans ids) b (npages * PGSIZE) → cursor ≤ b := fun b hb =>
    hfirst b hb.2.1 fun r hr' => hb.apart hpg hr' (hr.separated.lt r hr')
  have hvacant : cursor + npages * PGSIZE ≤ MMAP_END → Vacant (s.wh.spans ids) cursor (npages * PGSIZE) := by
    refine fun hmax => ⟨hd, hle, hmax, ?_⟩
    rintro x ⟨r, hr', hx⟩ hx'
    have := hclear r hr'
    omega
  dsimp only at he hend
  split_ifs at he with hf
  · cases he
    refine ⟨?_, fun b hb => ⟨cursor, rfl, hleast b hb⟩⟩
    rintro b ⟨⟩
    exact hvacant (hend hf)
  · rw [mulW_of_lt P hsize, pure_bind] at he
    split_ifs at he with hfit
    · cases he
      refine ⟨?_, fun b hb => ⟨cursor, rfl, hleast b hb⟩⟩
      rintro b ⟨⟩
      exact hvacant (by omega)
    · cases he
      refine ⟨nofun, fun b hb => ?_⟩
      have := hleast b hb
      have := hb.2.2.1
      omega

/-- Where `mmap` puts a range of the given size. -/
def Starts (l : List (Nat × Nat)) (begin size b : Nat) : Prop :=
  if begin = 0 then b + size ≤ MMAP_END ∧ (b = MMAP_BEGIN ∧ (∀ r ∈ l, MMAP_BEGIN + size ≤ r.1) ∨
    (∃ r ∈ l, r.1 < MMAP_BEGIN + size) ∧ ∃ r ∈ l, r.2 = b)
  else b = begin

lemma startAt_ok {b : Nat} (h : RegionLists s.wh s.head ids free) (hr : Regions (s.wh.spans ids))
    (hpos : 0 < npages) (hsize : npages * PGSIZE < 2 ^ 64)
    (he : startAt P begin npages MMAP_BEGIN MMAP_END s = .ok (some b, s')) :
    Starts (s.wh.spans ids) begin (npages * PGSIZE) b := by
  unfold startAt at he
  unfold Starts
  split_ifs at he ⊢ with hz
  · obtain ⟨s0, s1, hget, he⟩ := K.bind_ok he
    cases hget
    obtain ⟨⟨found, cursor⟩, s1, hgap, he⟩ := K.bind_ok he
    obtain ⟨hfound, hres, -⟩ := findGap_ok h.regions hr hsize (fun r hr' => (hr.bounds r hr').1) mmap_window.1 hgap
    dsimp only at he hfound hres
    split_ifs at he with hf
    · cases he
      exact ⟨hfound hf, hres⟩
    · rw [mulW_of_lt P hsize, pure_bind] at he
      split_ifs at he with hfit
      · cases he
        have hpg : 0 < npages * PGSIZE := Nat.mul_pos hpos (by decide)
        exact ⟨by omega, hres⟩
      · cases he
  · cases he
    rfl

lemma dvd_iff_and {b : Nat} : b &&& (PGSIZE - 1) = 0 ↔ PGSIZE ∣ b := by
  rw [show PGSIZE - 1 = 2 ^ 12 - 1 from rfl, Nat.and_two_pow_sub_one_eq_mod, Nat.dvd_iff_mod_eq_zero]
  rfl

/-- A range with the end `f` is refused, or goes between the regions that start before it and the others. -/
lemma mmapAt_eq (table : Nat) {b : Nat} (h : RegionLists s.wh s.head ids free) (hn : npages * PGSIZE < 2 ^ 64)
    (hf : (addW P 64 b (npages * PGSIZE) : K Vm Nat) = pure f) :
    (mmapAt P table b npages MMAP_BEGIN MMAP_END s = .ok (.error .outOfRange, s) ∧
      ¬(PGSIZE ∣ b ∧ MMAP_BEGIN ≤ b ∧ f ≤ MMAP_END)) ∨
      PGSIZE ∣ b ∧ MMAP_BEGIN ≤ b ∧ f ≤ MMAP_END ∧ ∃ pre post, ids = pre ++ post ∧
        (∀ i ∈ pre, (s.wh.span i).1 < b) ∧ (∀ i, post.head? = some i → b ≤ (s.wh.span i).1) ∧
        mmapAt P table b npages MMAP_BEGIN MMAP_END s = placeRegion P table b f npages pre.getLast? post.head? s := by
  unfold mmapAt
  rw [mulW_of_lt P hn, pure_bind, hf, pure_bind]
  split_ifs with hlow hbad
  · exact .inl ⟨rfl, fun hin => by omega⟩
  · refine .inl ⟨rfl, fun hin => ?_⟩
    rcases hbad with hbad | hbad
    · omega
    · exact hbad (dvd_iff_and.mpr hin.1)
  · rw [not_or, not_lt, not_not, dvd_iff_and] at hbad
    obtain ⟨pre, post, rfl, hrun, hpre, hpost⟩ := findPos_eq [] (fun r => return decide (b ≤ r.begin))
      (fun i => decide (b ≤ (s.wh.span i).1)) (t := s) (fun _ _ => rfl) h.regions h.length_le
    refine .inr ⟨hbad.2, by omega, hbad.1, pre, post, rfl, fun i hi => ?_, fun i hi => ?_, ?_⟩
    · have hstop := hpre i hi
      rwa [decide_eq_false_iff_not, not_le] at hstop
    · exact of_decide_eq_true (hpost i hi)
    · rw [List.getLast?_nil, List.nil_append] at hrun
      rw [K.bind_of_ok (K.get_apply s), K.bind_of_ok hrun]

lemma mmapAt_spec {b : Nat} (h : RegionLists s.wh s.head ids free)
    (hr : Regions (s.wh.spans ids)) (hpos : 0 < npages) (hwrap : b + npages * PGSIZE < 2 ^ 64)
    (he : mmapAt P table b npages MMAP_BEGIN MMAP_END s = .ok (r, s')) :
    (r = .error .outOfRange ∧ s' = s ∧ ¬Vacant (s.wh.spans ids) b (npages * PGSIZE)) ∨
      (PGSIZE ∣ b ∧ MMAP_BEGIN ≤ b ∧ b + npages * PGSIZE ≤ MMAP_END ∧
      (∀ x ∈ cover (s.wh.spans ids), ¬(b ≤ x ∧ x < b + npages * PGSIZE)) ∧
      ∃ res, mapPages P table b npages s.ph = .ok (res, s'.ph) ∧
        Finished s s' ids free b (b + npages * PGSIZE) res r) := by
  have hpg : 0 < npages * PGSIZE := Nat.mul_pos hpos (by decide)
  rcases mmapAt_eq table h (by omega) (addW_of_lt P hwrap) with ⟨hrun, hnot⟩ |
    ⟨hd, hlow, hmax, pre, post, rfl, hlt, hge, hrun⟩
  · rw [hrun] at he
    cases he
    exact .inl ⟨rfl, rfl, fun hv => hnot ⟨hv.1, hv.2.1, hv.2.2.1⟩⟩
  · rw [hrun] at he
    rcases placeRegion_spec h hr rfl hd (by omega) hmax hlt hge he with ⟨rfl, rfl, x, hx, hx'⟩ | ⟨hdisj, res, hmap, hfin⟩
    · exact .inl ⟨rfl, rfl, fun hv => hv.2.2.2 x hx hx'⟩
    · rw [Nat.add_sub_cancel_left, Nat.mul_div_cancel _ (by decide)] at hmap
      exact .inr ⟨hd, hlow, hmax, hdisj, res, hmap, hfin⟩

/-- The number of bytes that `mmap` maps for `len` bytes. -/
def pageSize (len : Nat) : Nat := (len + 4095) / 4096 * 4096

lemma alignUp_eq (h : v + 4095 < 2 ^ 64) : (alignUp P v : K σ Nat) = pure (pageSize v) := by
  unfold alignUp PGMASK PGSIZE pageSize
  rw [addW_of_lt P h, pure_bind, alignDown_eq]

lemma mmap_spec {len : Nat} (h : RegionLists s.wh s.head ids free)
    (hr : Regions (s.wh.spans ids)) (hwrap : begin + pageSize len < 2 ^ 64)
    (he : mmap P table begin len MMAP_BEGIN MMAP_END s = .ok (r, s')) :
    (r = .error .outOfRange ∧ s' = s ∧ (0 < len → ∀ b, (begin ≠ 0 → b = begin) → ¬Vacant (s.wh.spans ids) b (pageSize len))) ∨
      ∃ b, 0 < len ∧ PGSIZE ∣ b ∧ MMAP_BEGIN ≤ b ∧ b + pageSize len ≤ MMAP_END ∧
      (Starts (s.wh.spans ids) begin (pageSize len) b ∧ (begin = 0 → ∀ c, Vacant (s.wh.spans ids) c (pageSize len) → b ≤ c)) ∧
      (∀ x ∈ cover (s.wh.spans ids), ¬(b ≤ x ∧ x < b + pageSize len)) ∧
      ∃ res, mapPages P table b (pageSize len / PGSIZE) s.ph = .ok (res, s'.ph) ∧
        Finished s s' ids free b (b + pageSize len) res r := by
  unfold mmap at he
  split_ifs at he with hlen
  · cases he
    exact .inl ⟨rfl, rfl, fun hpos => by omega⟩
  · have hsize : pageSize len / PGSIZE * PGSIZE = pageSize len := by
      unfold pageSize PGSIZE
      omega
    have hnp : 0 < pageSize len / PGSIZE := by
      unfold pageSize PGSIZE
      omega
    rw [alignUp_eq (by unfold pageSize at hwrap; omega), pure_bind, if_neg (by omega)] at he
    obtain ⟨o, s1, hstart, he⟩ := K.bind_ok he
    obtain rfl := startAt_state hstart
    have hfirst : begin = 0 → (∀ b, o = some b → Vacant (s.wh.spans ids) b (pageSize len)) ∧
        ∀ c, Vacant (s.wh.spans ids) c (pageSize len) → ∃ b, o = some b ∧ b ≤ c := by
      rintro rfl
      rw [← hsize]
      exact startAt_first h hr hnp (by omega) hstart
    cases o with
    | none =>
      cases he
      refine .inl ⟨rfl, rfl, fun _ c hbegin hc => ?_⟩
      by_cases hz : begin = 0
      · obtain ⟨b, hb, -⟩ := (hfirst hz).2 c hc
        cases hb
      · rw [startAt, if_neg hz] at hstart
        cases hstart
    | some b =>
      have hst := startAt_ok h hr hnp (by omega) hstart
      rw [hsize] at hst
      have hb : b + pageSize len < 2 ^ 64 := by
        have hw := mmap_window.2.2.2.2
        have hv := VA_MAX_lt
        unfold Starts at hst
        split_ifs at hst
        · omega
        · omega
      rcases mmapAt_spec h hr hnp (by omega) he with ⟨rfl, rfl, hnot⟩ | ⟨hdvd, hlow, hhigh, hdisj, res, hmap, hfin⟩
      · rw [hsize] at hnot
        refine .inl ⟨rfl, rfl, fun _ c hbegin hc => ?_⟩
        by_cases hz : begin = 0
        · exact hnot ((hfirst hz).1 b rfl)
        · rw [startAt, if_neg hz] at hstart
          cases hstart
          exact hnot (hbegin hz ▸ hc)
      · rw [hsize] at hhigh hdisj hfin
        refine .inr ⟨b, by omega, hdvd, hlow, hhigh, ⟨hst, fun hz c hc => ?_⟩, hdisj, res, hmap, hfin⟩
        obtain ⟨b', hb', hle⟩ := (hfirst hz).2 c hc
        cases hb'
        exact hle

/-! ### The pages -/

section Pages

variable {ph ph' : Phys} {node : List Nat → Option Nat} {m : PageMap} {own : Nat → Entry → Prop} {used : Nat → Prop}

lemma isLeaf_MMAP_FLAGS : isLeaf MMAP_FLAGS = true := by decide

/-- New leaves own their pages, as do those that are there. -/
structure Ownable (ph : Phys) (m : PageMap) (own : Nat → Entry → Prop) (S : Nat → Prop) : Prop where
  new : ∀ q x, S q → ph.InRegion false x → x < 2 ^ 43 → own q (.new x (MMAP_FLAGS ||| PTE_V))
  old : ∀ q e, S q → m q = some e → own q e

/-- Pages of `S` have been mapped before one was refused, which is lost. -/
def Refused (ph ph' : Phys) (table : Nat) (node : List Nat → Option Nat) (m : PageMap) (own : Nat → Entry → Prop)
    (used S : Nat → Prop) : Prop :=
  ∃ ph₁ node₁ m₁ used₁ node' used' x, (∃ S', (∀ q, S' q → S q) ∧ Grown ph ph₁ node node₁ m m₁ own used used₁ S') ∧
    Space ph₁ table node₁ m₁ own used₁ ∧ Space ph' table node' m₁ own used' ∧
    Effect ph₁ ph' (Space.foot node₁ m₁ own) (fun y => Space.foot node' m₁ own y ∨ y = x) used₁ used'

/-- The page numbers `S` are mapped to pages of zeros that the user may read and write. -/
def NewPages (ph : Phys) (m : PageMap) (S : Nat → Prop) : Prop :=
  ∀ q, S q → ∃ n, m q = some (.new n (MMAP_FLAGS ||| PTE_V)) ∧ ph.InRegion false n ∧ n < 2 ^ 43 ∧ ph.mem n = fun _ => 0

/-- A page has left the free lists. -/
def Loses (ph ph' : Phys) : Prop := ∃ k p, ph.OnFree k p ∧ ¬ph'.OnFree k p

lemma NewPages.cons {node' : List Nat → Option Nat} {m' : PageMap} {used' S S' : Nat → Prop}
    (h : NewPages ph' m' S) (hsp : Space ph' table node' m' own used')
    (hg : Grown ph ph' node node' m m' own used used' S) (hm : m p = some (.new x (MMAP_FLAGS ||| PTE_V)))
    (hown : own p (.new x (MMAP_FLAGS ||| PTE_V))) (hu : used x) (hx : ph.InRegion false x) (hlt : x < 2 ^ 43)
    (hz : ph.mem x = fun _ => 0) (hS : ∀ q, S' q → q = p ∨ S q) : NewPages ph' m' S' := by
  intro q hq
  by_cases hqS : S q
  · exact h q hqS
  · obtain rfl := (hS q hq).resolve_right hqS
    have hm' : m' q = some (.new x (MMAP_FLAGS ||| PTE_V)) := by rw [hg.old q hqS, hm]
    have hppn : (Entry.new x (MMAP_FLAGS ||| PTE_V)).ppn = x := Nat.mod_eq_of_lt (by omega)
    refine ⟨x, hm', hg.takes.region.inRegion.mpr hx, hlt, ?_⟩
    rw [hg.mem x hu fun s hs => hsp.apart q _ s hm' hown (by rw [hppn]; exact hs), hz]

theorem mapPagesFrom_ok {n : Nat} {r : Except UvmError Unit} (h : Space ph table node m own used)
    (hva : p + n ≤ 2 ^ 26) (hfuel : n < fuel) (hown : Ownable ph m own fun q => p ≤ q ∧ q < p + n)
    (he : mapPagesFrom P table ((p + n) * PGSIZE) fuel (p * PGSIZE) ph = .ok (r, ph')) :
    (r = .ok () ∧ ∃ node' m' used', Space ph' table node' m' own used' ∧
      Grown ph ph' node node' m m' own used used' (fun q => p ≤ q ∧ q < p + n) ∧
      NewPages ph' m' fun q => p ≤ q ∧ q < p + n) ∨
      (r = .error .mapFailed ∧ (∃ q, p ≤ q ∧ q < p + n ∧ m q ≠ none) ∧
        (Refused ph ph' table node m own used fun q => p ≤ q ∧ q < p + n) ∧ Loses ph ph') := by
  induction fuel generalizing n p ph node m used with
  | zero => omega
  | succ fuel ih =>
    rw [mapPagesFrom] at he
    cases n with
    | zero =>
      rw [Nat.add_zero, if_neg (lt_irrefl _)] at he
      cases he
      exact .inl ⟨rfl, node, m, used, h, (Grown.refl _ node m own used).congr fun q => ⟨False.elim, fun hq => by omega⟩,
        fun q hq => by omega⟩
    | succ n =>
      have hlt : p * PGSIZE < (p + (n + 1)) * PGSIZE := by
        unfold PGSIZE
        omega
      rw [if_pos hlt] at he
      obtain ⟨pa, ph1, halloc, he⟩ := K.bind_ok he
      by_cases hpa : pa = 0
      · obtain ⟨x, rfl, hx, -⟩ := h.alloc halloc
        exact absurd hpa (Nat.mul_ne_zero (by have := hx.pos; omega) (by decide))
      · rw [if_neg hpa] at he
        obtain ⟨b, ph2, hmap, he⟩ := K.bind_ok he
        have hleaf : ∀ e, m p = some e → used e.ppn ∨ ¬ph.InRegion false e.ppn :=
          fun e hm => .inl (h.leaf p e hm (hown.old p e ⟨by omega, by omega⟩ hm))
        obtain ⟨-, hb, hgrow⟩ := h.growPage isLeaf_MMAP_FLAGS (by omega)
          (fun x => hown.new p x ⟨by omega, by omega⟩) hleaf halloc hmap
        by_cases hnone : m p = none
        · rw [hb, decide_eq_true hnone, if_pos rfl, addW_of_lt P (PageTable.page_add_lt (by omega)), pure_bind,
            ← Nat.succ_mul, show p + (n + 1) = p + 1 + n by omega] at he
          obtain ⟨node1, used1, x, hx, hxlt, hz, h1, hg1⟩ := hgrow hnone
          have hown1 : Ownable ph2 (Function.update m p (some (.new x (MMAP_FLAGS ||| PTE_V)))) own
              fun q => p + 1 ≤ q ∧ q < p + 1 + n := by
            refine ⟨fun q y hq hy => hown.new q y ⟨by omega, by omega⟩ ?_, fun q e hq hm => ?_⟩
            · exact hg1.takes.region.inRegion.mp hy
            · rw [Function.update_of_ne (by omega)] at hm
              exact hown.old q e ⟨by omega, by omega⟩ hm
          rcases ih h1 (by omega) (by omega) hown1 he with ⟨rfl, node', m', used', h2, hg2, hnew⟩ |
            ⟨rfl, ⟨q, hq, hq', hm⟩, ⟨ph3, node3, m3, used3, node', used', y, ⟨S', hS', hg3⟩, hrest⟩, k, a, ha, ha'⟩
          · have hself := Function.update_self p (some (Entry.new x (MMAP_FLAGS ||| PTE_V))) m
            have hownx := hown.new p x ⟨by omega, by omega⟩ hx hxlt
            have hux := h1.leaf p _ hself hownx
            rw [show (Entry.new x (MMAP_FLAGS ||| PTE_V)).ppn = x from Nat.mod_eq_of_lt (by omega)] at hux
            exact .inl ⟨rfl, node', m', used', h2, (hg1.trans hg2).congr fun q => by omega,
              hnew.cons h2 hg2 hself hownx hux (hg1.takes.region.inRegion.mpr hx) hxlt hz fun q hq => by omega⟩
          · rw [Function.update_of_ne (by omega)] at hm
            refine .inr ⟨rfl, ⟨q, by omega, by omega, hm⟩, ⟨ph3, node3, m3, used3, node', used', y,
              ⟨_, fun q hq => ?_, hg1.trans hg3⟩, hrest⟩, k, a, hg1.takes.shrinks k a ha, ha'⟩
            rcases hq with rfl | hq
            · omega
            · have := hS' q hq
              omega
        · obtain ⟨node', used', y, h', heff, k, hlost⟩ := h.growRefused isLeaf_MMAP_FLAGS (by omega) hnone hleaf halloc
            (fun _ _ => rfl) rfl rfl hmap
          rw [hb, decide_eq_false hnone] at he
          cases he
          exact .inr ⟨rfl, ⟨p, by omega, by omega, hnone⟩, ⟨ph, node, m, used, node', used', y,
            ⟨_, fun _ hq => hq.elim, .refl _ node m own used⟩, h, h', heff⟩, k, _, hlost⟩

theorem mapPages_ok {b : Nat} {r : Except UvmError Unit} (h : Space ph table node m own used) (hb : PGSIZE ∣ b)
    (hsize : PGSIZE ∣ size) (hmax : b + size ≤ VA_MAX)
    (hown : Ownable ph m own fun q => b ≤ q * PGSIZE ∧ q * PGSIZE < b + size)
    (he : mapPages P table b (size / PGSIZE) ph = .ok (r, ph')) :
    (r = .ok () ∧ ∃ node' m' used', Space ph' table node' m' own used' ∧
      Grown ph ph' node node' m m' own used used' (fun q => b ≤ q * PGSIZE ∧ q * PGSIZE < b + size)) ∨
      (r = .error .mapFailed ∧ (∃ q, (b ≤ q * PGSIZE ∧ q * PGSIZE < b + size) ∧ m q ≠ none) ∧
        Refused ph ph' table node m own used fun q => b ≤ q * PGSIZE ∧ q * PGSIZE < b + size) := by
  obtain ⟨p, rfl⟩ := hb
  obtain ⟨n, rfl⟩ := hsize
  have hrange : ∀ q, (p ≤ q ∧ q < p + n) ↔ PGSIZE * p ≤ q * PGSIZE ∧ q * PGSIZE < PGSIZE * p + PGSIZE * n := by
    intro q
    unfold PGSIZE
    omega
  have hva : p + n ≤ 2 ^ 26 := by
    unfold VA_MAX PGSIZE at hmax
    omega
  have hdown : alignDown (PGSIZE * p) = p * PGSIZE := by
    rw [alignDown_eq]
    unfold PGSIZE
    omega
  have hlast : p * PGSIZE + n * PGSIZE = (p + n) * PGSIZE := (Nat.add_mul ..).symm
  have hlt : (p + n) * PGSIZE < 2 ^ 64 := by
    unfold PGSIZE
    omega
  unfold mapPages at he
  rw [hdown, Nat.mul_div_cancel_left n (by decide), mulW_of_lt P (by omega), pure_bind, addW_of_lt P (by omega),
    pure_bind, hlast] at he
  have hown' : Ownable ph m own fun q => p ≤ q ∧ q < p + n :=
    ⟨fun q x hq => hown.new q x ((hrange q).mp hq), fun q e hq => hown.old q e ((hrange q).mp hq)⟩
  rcases mapPagesFrom_ok h hva (by omega) hown' he with ⟨rfl, node', m', used', h', hg, -⟩ | ⟨rfl, ⟨q, hq, hq', hm⟩, href, -⟩
  · exact .inl ⟨rfl, node', m', used', h', hg.congr hrange⟩
  · simp only [hrange] at href
    exact .inr ⟨rfl, ⟨q, (hrange q).mp ⟨hq, hq'⟩, hm⟩, href⟩

/-- In the window every leaf owns its page. -/
def WindowOwned (m : PageMap) (own : Nat → Entry → Prop) : Prop :=
  ∀ q e, MMAP_BEGIN ≤ q * PGSIZE → q * PGSIZE < MMAP_END → m q = some e → own q e

lemma unmap_ok {e : Nat} {b : Bool} (h : Space ph table node m own used) (hown : WindowOwned m own) (hlt : x < e)
    (hx : PGSIZE ∣ x) (hd : PGSIZE ∣ e) (hlow : MMAP_BEGIN ≤ x) (hhigh : e ≤ MMAP_END)
    (he : PageTable.unmap P table x (e - x) true ph = .ok (b, ph')) :
    (b = true ∧ ∃ m' used', Space ph' table node m' own used' ∧
      Shrunk ph ph' node m m' own used used' (fun q => x ≤ q * PGSIZE ∧ q * PGSIZE < e)) ∨
      (b = false ∧ (∃ q, (x ≤ q * PGSIZE ∧ q * PGSIZE < e) ∧ m q = none) ∧ ∃ m' used' S,
        (∀ q, S q → x ≤ q * PGSIZE ∧ q * PGSIZE < e) ∧ Space ph' table node m' own used' ∧
        Shrunk ph ph' node m m' own used used' S) := by
  obtain ⟨p, rfl⟩ := hx
  obtain ⟨n, hn⟩ := Nat.dvd_sub hd (Nat.dvd_mul_right PGSIZE p)
  have hpos : 0 < n := by
    rcases Nat.eq_zero_or_pos n with rfl | hpos
    · omega
    · exact hpos
  have hrange : ∀ q, (p ≤ q ∧ q < p + n) ↔ PGSIZE * p ≤ q * PGSIZE ∧ q * PGSIZE < e := by
    intro q
    unfold PGSIZE at *
    omega
  have hva : p + n ≤ 2 ^ 26 := by
    have hw := mmap_window.2.2.2.2
    unfold VA_MAX at hw
    unfold PGSIZE at hn hlt
    omega
  have hleaf : ∀ q e, p ≤ q → q < p + n → m q = some e → own q e := by
    intro q e' hq hq'
    obtain ⟨h1, h2⟩ := (hrange q).mp ⟨hq, hq'⟩
    exact hown q e' (hlow.trans h1) (h2.trans_le hhigh)
  rw [hn, Nat.mul_comm PGSIZE p, Nat.mul_comm PGSIZE n] at he
  obtain ⟨k, hk, hb, hstop, m', used', h', hs⟩ := h.unmap hpos hva hleaf he
  by_cases hkn : k = n
  · subst hkn
    exact .inl ⟨by simpa using hb, m', used', h', hs.congr hrange⟩
  · exact .inr ⟨by simpa [hkn] using hb, ⟨p + k, (hrange _).mp ⟨by omega, by omega⟩, hstop (by omega)⟩, m', used', _,
      fun q hq => (hrange q).mp ⟨hq.1, by omega⟩, h', hs⟩

/-- The state of a call of `munmap` that stopped with an error: the list is sound, and pages are gone from the table. -/
def Stopped (s s' : Vm) (table : Nat) (node : List Nat → Option Nat) (m : PageMap) (own : Nat → Entry → Prop)
    (used : Nat → Prop) (ids free : List Nat) : Prop :=
  ∃ ids' free' m' used' S, RegionLists s'.wh s'.head ids' free' ∧ Moves s.wh s'.wh ids free ids' free' ∧
    (Regions (s.wh.spans ids) → Regions (s'.wh.spans ids')) ∧
    (∀ q, S q → MMAP_BEGIN ≤ q * PGSIZE ∧ q * PGSIZE < MMAP_END) ∧ Space s'.ph table node m' own used' ∧
    Shrunk s.ph s'.ph node m m' own used used' S

/-- `munmap` has unmapped its range inside one region but finds no node for the part behind it. -/
def Torn (s s' : Vm) (table : Nat) (node : List Nat → Option Nat) (m : PageMap) (own : Nat → Entry → Prop)
    (used : Nat → Prop) (l : List (Nat × Nat)) (us fin : Nat) : Prop :=
  (∃ r ∈ l, r.1 < us ∧ fin < r.2) ∧ ∃ m' used', Space s'.ph table node m' own used' ∧
    Shrunk s.ph s'.ph node m m' own used used' fun q => us ≤ q * PGSIZE ∧ q * PGSIZE < fin

/-- What the loop of `munmap` makes of the regions `post` that are left: they are cut from `start` on, and
their pages from `us` on are unmapped. -/
def Unmapped (s s' : Vm) (table : Nat) (node : List Nat → Option Nat) (m : PageMap) (own : Nat → Entry → Prop)
    (used : Nat → Prop) (pre post free : List Nat) (start us fin : Nat) : Prop :=
  ∃ ids' free' m' used', RegionLists s'.wh s'.head ids' free' ∧ Moves s.wh s'.wh (pre ++ post) free ids' free' ∧
    s'.wh.spans ids' = s.wh.spans pre ++ (s.wh.spans post).flatMap (cut start fin) ∧
    Space s'.ph table node m' own used' ∧
    Shrunk s.ph s'.ph node m m' own used used'
      (fun q => q * PGSIZE ∈ cover (s.wh.spans post) ∧ us ≤ q * PGSIZE ∧ q * PGSIZE < fin)

lemma Unmapped.rest {start : Nat} (h : RegionLists s.wh s.head (pre ++ post) free)
    (hr : Regions (s.wh.spans post)) (hstart : start < fin) (hsp : Space s.ph table node m own used)
    (hafter : ∀ r ∈ s.wh.spans post, fin ≤ r.1) : Unmapped s s table node m own used pre post free start us fin := by
  refine ⟨pre ++ post, free, m, used, h, .refl _ _ _, ?_, hsp, (Shrunk.refl _ node m own used).congr fun q =>
    ⟨False.elim, ?_⟩⟩
  · rw [flatMap_cut_of_le hr.separated.lt hstart fun r hr' => .inr (hafter r hr'), spans_append]
  · rintro ⟨⟨r, hr', hq, -⟩, -, hq'⟩
    exact absurd (hafter r hr') (by omega)

lemma Unmapped.step {s1 : Vm} {start : Nat} {mid free1 : List Nat} {m1 : PageMap} {used1 : Nat → Prop}
    (hr : Regions (s.wh.spans (c :: post))) (hmeet : us < (s.wh.span c).2 ∧ (s.wh.span c).1 < fin)
    (hm : Moves s.wh s1.wh (pre ++ c :: post) free (pre ++ mid ++ post) free1)
    (hspan : ∀ i ∈ pre ++ post, s1.wh.span i = s.wh.span i) (hmid : s1.wh.spans mid = cut start fin (s.wh.span c))
    (hs1 : Shrunk s.ph s1.ph node m m1 own used used1
      (fun q => max us (s.wh.span c).1 ≤ q * PGSIZE ∧ q * PGSIZE < min fin (s.wh.span c).2))
    (h : Unmapped s1 s' table node m1 own used1 (pre ++ mid) post free1 start (min fin (s.wh.span c).2) fin) :
    Unmapped s s' table node m own used pre (c :: post) free start us fin := by
  obtain ⟨ids', free', m', used', h2, hm2, hspans, hsp2, hs2⟩ := h
  obtain ⟨hlt, hgap, -⟩ := Separated.cons_iff.mp hr.separated
  have hpre : s1.wh.spans pre = s.wh.spans pre := spans_congr fun i hi => hspan i (List.mem_append_left _ hi)
  have hpost : s1.wh.spans post = s.wh.spans post :=
    spans_congr fun i hi => hspan i (List.mem_append_right _ hi)
  refine ⟨ids', free', m', used', h2, hm.trans hm2, ?_, hsp2, (hs1.trans hs2).congr fun q => ?_⟩
  · rw [hspans, spans_append, hmid, hpre, hpost, spans_cons, List.flatMap_cons,
      List.append_assoc]
  · rw [hpost, spans_cons, mem_cover_cons]
    constructor
    · rintro (hq | ⟨hq, hq'⟩)
      · exact ⟨.inl (by omega), by omega⟩
      · refine ⟨.inr hq, ?_, hq'.2⟩
        obtain ⟨r, hr', hq1, -⟩ := hq
        have hg := hgap r hr'
        omega
    · rintro ⟨hq | hq, hq'⟩
      · exact .inl (by omega)
      · refine .inr ⟨hq, ?_, hq'.2⟩
        obtain ⟨r, hr', hq1, -⟩ := hq
        have hg := hgap r hr'
        omega

lemma spans_middle {wh wh' : MmapWarehouse} {mid : List Nat} {l : List (Nat × Nat)}
    (hspan : ∀ i ∈ pre ++ post, wh'.span i = wh.span i) (hmid : mid.map wh'.span = l) :
    wh'.spans (pre ++ mid ++ post) = wh.spans pre ++ l ++ wh.spans post := by
  rw [spans_append, spans_append, show wh'.spans mid = l from hmid,
    spans_congr fun i hi => hspan i (List.mem_append_left _ hi),
    spans_congr fun i hi => hspan i (List.mem_append_right _ hi)]

theorem munmapFrom_spec {start : Nat} {r : Except UvmError Unit} (h : RegionLists s.wh s.head (pre ++ post) free)
    (hr : Regions (s.wh.spans post)) (hdvd : PGSIZE ∣ us ∧ PGSIZE ∣ fin) (hstart : start < fin)
    (hfrom : us = start ∨ start ≤ us ∧ ∀ r ∈ s.wh.spans post, us ≤ r.1) (hend : ∀ r ∈ s.wh.spans post, us < r.2)
    (hsp : Space s.ph table node m own used) (hown : WindowOwned m own)
    (he : munmapFrom P table fin fuel pre.getLast? post.head? us s = .ok (r, s')) :
    (r = .error .mapFailed ∧ (∃ q, q * PGSIZE ∈ cover (s.wh.spans post) ∧ m q = none) ∧
      Stopped s s' table node m own used (pre ++ post) free) ∨
      (r = .error .noMem ∧ free = [] ∧ Torn s s' table node m own used (s.wh.spans post) us fin ∧
        Stopped s s' table node m own used (pre ++ post) free) ∨
      (r = .ok () ∧ Unmapped s s' table node m own used pre post free start us fin) := by
  induction fuel generalizing s pre post free us m used with
  | zero =>
    cases post with
    | nil =>
      cases he
      exact .inr (.inr ⟨rfl, .rest h hr hstart hsp (by simp)⟩)
    | cons c post => cases he
  | succ fuel ih =>
    cases post with
    | nil =>
      cases he
      exact .inr (.inr ⟨rfl, .rest h hr hstart hsp (by simp)⟩)
    | cons c post =>
      obtain ⟨hlt, hgap, hsep⟩ := Separated.cons_iff.mp hr.separated
      have hcmem : s.wh.span c ∈ s.wh.spans (c :: post) := List.mem_cons_self
      have hcb := hr.bounds _ hcmem
      have hcd := hr.dvd _ hcmem
      have hcend := hend _ hcmem
      have hr' : Regions (s.wh.spans post) := hr.tail
      rw [List.head?_cons, munmapFrom] at he
      by_cases huf : us < fin
      · rw [if_pos huf] at he
        obtain ⟨s0, s1, hget, he⟩ := K.bind_eq_ok.mp he
        cases hget
        rw [regionEnd_eq hr (List.mem_cons_self ..), pure_bind,
          show (s.wh.region c).begin = (s.wh.span c).1 from rfl] at he
        dsimp only at he
        by_cases hbefore : fin ≤ (s.wh.span c).1
        · rw [if_pos hbefore] at he
          cases he
          refine .inr (.inr ⟨rfl, .rest h hr hstart hsp fun r hr' => ?_⟩)
          rcases List.mem_cons.mp hr' with rfl | hr'
          · exact hbefore
          · have hg := hgap r hr'
            omega
        · obtain ⟨x, hx⟩ : ∃ x, x = max us (s.wh.span c).1 := ⟨_, rfl⟩
          obtain ⟨e, hee⟩ : ∃ e, e = min fin (s.wh.span c).2 := ⟨_, rfl⟩
          have hxe : x < e := by omega
          have hxd : PGSIZE ∣ x := by
            rcases max_choice us (s.wh.span c).1 with hm | hm <;> rw [hx, hm]
            · exact hdvd.1
            · exact hcd.1
          have hed : PGSIZE ∣ e := by
            rcases min_choice fin (s.wh.span c).2 with hm | hm <;> rw [hee, hm]
            · exact hdvd.2
            · exact hcd.2
          rw [if_neg hbefore, ← hx, ← hee, if_pos hxe] at he
          obtain ⟨ok, s1, hunmap, he⟩ := K.bind_ok he
          obtain ⟨ph', hrun, rfl⟩ := onPhys_ok hunmap
          rcases unmap_ok hsp hown hxe hxd hed (by omega) (by omega) hrun with
            ⟨rfl, m1, used1, hsp1, hs1⟩ | ⟨rfl, ⟨q, hq, hm⟩, m1, used1, S, hS, hsp1, hs1⟩
          · rw [if_pos rfl] at he
            obtain ⟨o, s2, htrim, he⟩ := K.bind_ok he
            have h1 : RegionLists ({ s with ph := ph' } : Vm).wh ({ s with ph := ph' } : Vm).head (pre ++ c :: post) free := h
            obtain ⟨mid, free1, h2, hm2, hph, hspan, ⟨rfl, hfree, hinner, hmid⟩ | ⟨p, rfl, hp, hcut⟩⟩ := trimRegion_ok h1 htrim
            · cases he
              dsimp only at hph
              rw [← hph] at hsp1 hs1
              have hrange : ∀ q, (x ≤ q * PGSIZE ∧ q * PGSIZE < e) ↔ us ≤ q * PGSIZE ∧ q * PGSIZE < fin := by
                intro q
                omega
              refine .inr (.inl ⟨rfl, hfree, ⟨⟨_, hcmem, by omega, by omega⟩, m1, used1, hsp1, hs1.congr hrange⟩, _, _, m1, used1, _,
                h2, hm2, fun hall => ?_, fun q hq => ?_, hsp1, hs1⟩)
              · rw [spans_append, spans_cons] at hall
                rw [spans_middle hspan hmid, List.append_assoc]
                exact hall
              · exact ⟨by omega, by omega⟩
            · have hfits : Fits (s.wh.span c).1 (s.wh.span c).2 x e :=
                ⟨by omega, hxe, by omega, by have := mmap_window.2.2.2.2; omega, hcd.1, hcd.2, hxd, hed⟩
              have hcutx := hcut rfl hfits
              have hmid : s2.wh.spans mid = cut start fin (s.wh.span c) := by
                refine hcutx.trans ?_
                rw [hx, hee]
                refine (cut_max_min us fin (s.wh.span c)).trans ?_
                rcases hfrom with rfl | ⟨hle, hall⟩
                · rfl
                · exact cut_of_start_le (hall _ hcmem) (hle.trans (hall _ hcmem))
              have hspost : s2.wh.spans post = s.wh.spans post :=
                spans_congr fun i hi => hspan i (List.mem_append_right _ hi)
              have hr2 : Regions (s2.wh.spans post) := by rwa [hspost]
              dsimp only at hph he
              rw [← hph] at hsp1 hs1
              rw [Nat.add_sub_cancel' hxe.le] at he
              have hstep : Unmapped s2 s' table node m1 own used1 (pre ++ mid) post free1 start e fin →
                  Unmapped s s' table node m own used pre (c :: post) free start us fin := by
                intro hun
                rw [hee] at hun
                refine Unmapped.step hr ⟨hcend, by omega⟩ hm2 hspan hmid ?_ hun
                rwa [← hx, ← hee]
              have hstop : Stopped s2 s' table node m1 own used1 (pre ++ mid ++ post) free1 →
                  Stopped s s' table node m own used (pre ++ c :: post) free := by
                rintro ⟨ids', free', m', used', S, h3, hm3, hreg, hS, hsp3, hs3⟩
                refine ⟨ids', free', m', used', _, h3, hm2.trans hm3, fun hall => hreg ?_, fun q hq => ?_, hsp3, hs1.trans hs3⟩
                · rw [spans_append, spans_cons] at hall
                  rw [spans_middle hspan hcutx]
                  exact hall.cutOne hxe hxd hed (by omega) (by omega)
                · rcases hq with hq | hq
                  · exact ⟨by omega, by omega⟩
                  · exact hS q hq
              by_cases hends : e = (s.wh.span c).2
              · rw [hp (.inl hends)] at he
                have hafter : ∀ r ∈ s2.wh.spans post, e < r.1 := by
                  rw [hspost, hends]
                  exact hgap
                have hend2 : ∀ r ∈ s2.wh.spans post, e < r.2 := fun r hr' => (hafter r hr').trans (hr2.separated.lt r hr')
                have hown2 : WindowOwned m1 own := by
                  intro q e' hq hq' hmq
                  refine hown q e' hq hq' ?_
                  rw [← hs1.old q fun hS => ?_, hmq]
                  rw [(hs1.gone q hS).1] at hmq
                  cases hmq
                rcases ih h2 hr2 ⟨hed, hdvd.2⟩ (.inr ⟨by omega, fun r hr' => (hafter r hr').le⟩) hend2 hsp1 hown2 he with
                  ⟨rfl, ⟨q, hq, hmq⟩, hstopped⟩ | ⟨rfl, -, ⟨⟨r, hr', hlow, -⟩, -⟩, -⟩ | ⟨rfl, hun⟩
                · refine .inl ⟨rfl, ⟨q, ?_, ?_⟩, hstop hstopped⟩
                  · rw [hspost] at hq
                    exact mem_cover_cons.mpr (.inr hq)
                  · rw [← hs1.old q fun hS => ?_, hmq]
                    obtain ⟨r, hr', hq1, -⟩ := hq
                    have hlt' := hafter r hr'
                    omega
                · -- the regions after the first one are cut from their start on
                  exact absurd (hafter r hr') (by omega)
                · exact .inr (.inr ⟨rfl, hstep hun⟩)
              · obtain ⟨rfl, rfl⟩ := munmapFrom_done (by omega) he
                refine .inr (.inr ⟨rfl, hstep (.rest h2 hr2 hstart hsp1 fun r hr' => ?_)⟩)
                rw [hspost] at hr'
                have hg := hgap r hr'
                omega
          · cases he
            refine .inl ⟨rfl, ⟨q, ⟨_, hcmem, by omega⟩, hm⟩, _, free, m1, used1, S, h, .refl _ _ _, id, fun q hq => ?_, hsp1, hs1⟩
            have := hS q hq
            exact ⟨by omega, by omega⟩
      · rw [if_neg huf] at he
        cases he
        refine .inr (.inr ⟨rfl, .rest h hr hstart hsp fun r hr' => ?_⟩)
        rcases hfrom with rfl | ⟨-, hle⟩
        · omega
        · have := hle r hr'
          omega

/-- What a successful `mmap` does: it returns `lo` after it has mapped `[b, b + size)`. -/
def MmapOk (s s' : Vm) (table : Nat) (node : List Nat → Option Nat) (m : PageMap) (own : Nat → Entry → Prop)
    (used : Nat → Prop) (ids free : List Nat) (begin size lo : Nat) : Prop :=
  ∃ b ids' free' node' m' used', PGSIZE ∣ b ∧ MMAP_BEGIN ≤ b ∧ b + size ≤ MMAP_END ∧
    Starts (s.wh.spans ids) begin size b ∧ (∀ x ∈ cover (s.wh.spans ids), ¬(b ≤ x ∧ x < b + size)) ∧
    RegionLists s'.wh s'.head ids' free' ∧ Moves s.wh s'.wh ids free ids' free' ∧
    Joined (s.wh.spans ids) (s'.wh.spans ids') b (b + size) lo ∧ Space s'.ph table node' m' own used' ∧
    Grown s.ph s'.ph node node' m m' own used used' (fun q => b ≤ q * PGSIZE ∧ q * PGSIZE < b + size)

/-- `mmap` has mapped its pages but finds no node for the region. -/
def MmapNoNode (s s' : Vm) (table : Nat) (node : List Nat → Option Nat) (m : PageMap) (own : Nat → Entry → Prop)
    (used : Nat → Prop) : Prop :=
  s'.wh = s.wh.init ∧ s'.head = s.head ∧ ∃ node' m' used' S, (∀ q, S q → MMAP_BEGIN ≤ q * PGSIZE ∧ q * PGSIZE < MMAP_END) ∧
    Space s'.ph table node' m' own used' ∧ Grown s.ph s'.ph node node' m m' own used used' S

/-- `mmap` refuses its range, runs out of nodes, meets a page that is mapped outside the regions, or
succeeds. -/
theorem mmap_ok {len : Nat} (h : RegionLists s.wh s.head ids free)
    (hr : Regions (s.wh.spans ids)) (hwrap : begin + pageSize len < 2 ^ 64) (hsp : Space s.ph table node m own used)
    (hown : Ownable s.ph m own fun q => MMAP_BEGIN ≤ q * PGSIZE ∧ q * PGSIZE < MMAP_END)
    (he : mmap P table begin len MMAP_BEGIN MMAP_END s = .ok (r, s')) :
    (r = .error .outOfRange ∧ s' = s) ∨ (r = .error .noMem ∧ free = [] ∧ MmapNoNode s s' table node m own used) ∨
      (r = .error .mapFailed ∧ (∃ q, (MMAP_BEGIN ≤ q * PGSIZE ∧ q * PGSIZE < MMAP_END) ∧ m q ≠ none ∧
        ¬pagesOf (s.wh.spans ids) q) ∧ s'.wh = s.wh ∧ s'.head = s.head ∧
        Refused s.ph s'.ph table node m own used fun q => MMAP_BEGIN ≤ q * PGSIZE ∧ q * PGSIZE < MMAP_END) ∨
      ∃ lo, r = .ok lo ∧ 0 < len ∧ MmapOk s s' table node m own used ids free begin (pageSize len) lo := by
  rcases mmap_spec h hr hwrap he with ⟨hout, hsame, -⟩ | ⟨b, hlen, hb, hlow, hhigh, ⟨hst, -⟩, hdisj, res, hmap, hfin⟩
  · exact .inl ⟨hout, hsame⟩
  · have hsize : PGSIZE ∣ pageSize len := Nat.dvd_mul_left _ _
    have hwindow : ∀ q, b ≤ q * PGSIZE ∧ q * PGSIZE < b + pageSize len → MMAP_BEGIN ≤ q * PGSIZE ∧ q * PGSIZE < MMAP_END :=
      fun q hq => ⟨by omega, by omega⟩
    have hown' : Ownable s.ph m own fun q => b ≤ q * PGSIZE ∧ q * PGSIZE < b + pageSize len :=
      ⟨fun q x hq => hown.new q x (hwindow q hq), fun q e hq => hown.old q e (hwindow q hq)⟩
    rcases mapPages_ok hsp hb hsize (hhigh.trans mmap_window.2.2.2.2.le) hown' hmap with
      ⟨rfl, node', m', used', hsp', hg⟩ | ⟨rfl, ⟨q, hq, hm⟩, href⟩
    · rcases hfin with ⟨e, he, -⟩ | ⟨-, hnomem, hfree, -, hwh, hhead⟩ | ⟨-, lo, hlo, ids', free', h', hm', hj⟩
      · cases he
      · exact .inr (.inl ⟨hnomem, hfree, hwh, hhead, node', m', used', _, hwindow, hsp', hg⟩)
      · exact .inr (.inr (.inr ⟨lo, hlo, hlen, b, ids', free', node', m', used', hb, hlow, hhigh, hst, hdisj, h', hm', hj,
          hsp', hg⟩))
    · rcases hfin with ⟨e, he, hr', hwh, hhead⟩ | ⟨he, -⟩ | ⟨he, -⟩
      · cases he
        obtain ⟨ph1, node1, m1, used1, node', used', x, ⟨S', hS', hg⟩, hrest⟩ := href
        exact .inr (.inr (.inl ⟨hr', ⟨q, hwindow q hq, hm, fun hc => hdisj _ hc hq⟩, hwh, hhead, ph1, node1, m1, used1,
          node', used', x, ⟨S', fun q hq => hwindow q (hS' q hq), hg⟩, hrest⟩))
      · cases he
      · cases he

/-- What a successful `munmap` of the range `[start, fin)` does. -/
def MunmapOk (s s' : Vm) (table : Nat) (node : List Nat → Option Nat) (m : PageMap) (own : Nat → Entry → Prop)
    (used : Nat → Prop) (ids free : List Nat) (start fin : Nat) : Prop :=
  ∃ ids' free' m' used', RegionLists s'.wh s'.head ids' free' ∧ Moves s.wh s'.wh ids free ids' free' ∧
    s'.wh.spans ids' = (s.wh.spans ids).flatMap (cut start fin) ∧ Space s'.ph table node m' own used' ∧
    Shrunk s.ph s'.ph node m m' own used used'
      (fun q => pagesOf (s.wh.spans ids) q ∧ start ≤ q * PGSIZE ∧ q * PGSIZE < fin)

lemma alignUp_dvd (he : alignUp P v t = .ok (x, t')) : t = t' ∧ PGSIZE ∣ x := by
  unfold alignUp at he
  obtain ⟨y, t1, hy, he⟩ := K.bind_ok he
  obtain rfl := addW_state hy
  cases he
  refine ⟨rfl, ?_⟩
  rw [alignDown_eq]
  exact Nat.dvd_mul_left _ _

lemma munmapRange_eq (P : Profile) (table start fin : Nat) (h : RegionLists s.wh s.head ids free) (hr : Regions (s.wh.spans ids)) :
    ∃ pre post, ids = pre ++ post ∧
      (do
        let s ← get
        let (prev, cur) ← findPos s.wh (fun r => return decide (start < (← regionEnd P r))) N_MMAP none s.head
        munmapFrom P table fin N_MMAP prev cur start : K Vm (Except UvmError Unit)) s =
          munmapFrom P table fin N_MMAP pre.getLast? post.head? start s ∧
      (∀ r ∈ s.wh.spans pre, r.2 ≤ start) ∧ ∀ r ∈ s.wh.spans post, start < r.2 := by
  obtain ⟨pre, post, rfl, hrun, hpre, hpost⟩ := findPos_eq []
    (fun r => return decide (start < (← regionEnd P r))) (fun i => decide (start < (s.wh.span i).2)) (t := s) (fun i hi => by rw [regionEnd_eq hr hi, pure_bind]) h.regions h.length_le
  refine ⟨pre, post, rfl, ?_, fun r hr' => ?_, ?_⟩
  · rw [List.getLast?_nil, List.nil_append] at hrun
    rw [K.bind_of_ok (K.get_apply s), K.bind_of_ok hrun]
  · obtain ⟨i, hi, rfl⟩ := List.mem_map.mp hr'
    have hstop := hpre i hi
    rwa [decide_eq_false_iff_not, not_lt] at hstop
  · rw [spans_append] at hr
    have hsep := hr.right.separated
    cases post with
    | nil => simp
    | cons c post =>
      obtain ⟨hlt, hgap, -⟩ := Separated.cons_iff.mp hsep
      have hc : start < (s.wh.span c).2 := of_decide_eq_true (hpost c rfl)
      intro r hr'
      rcases List.mem_cons.mp hr' with rfl | hr'
      · exact hc
      · have hg := hgap r hr'
        have hl := hsep.lt r (List.mem_cons_of_mem _ hr')
        omega

lemma munmapRange_spec {start : Nat} {r : Except UvmError Unit} (h : RegionLists s.wh s.head ids free)
    (hr : Regions (s.wh.spans ids)) (hlt : start < fin) (hdvd : PGSIZE ∣ start ∧ PGSIZE ∣ fin)
    (hsp : Space s.ph table node m own used) (hown : WindowOwned m own)
    (he : (do
      let s ← get
      let (prev, cur) ← findPos s.wh (fun r => return decide (start < (← regionEnd P r))) N_MMAP none s.head
      munmapFrom P table fin N_MMAP prev cur start : K Vm (Except UvmError Unit)) s = .ok (r, s')) :
    (r = .error .mapFailed ∧ (∃ q, pagesOf (s.wh.spans ids) q ∧ m q = none) ∧ Stopped s s' table node m own used ids free) ∨
      (r = .error .noMem ∧ free = [] ∧ Torn s s' table node m own used (s.wh.spans ids) start fin ∧
        Stopped s s' table node m own used ids free) ∨
      (r = .ok () ∧ MunmapOk s s' table node m own used ids free start fin) := by
  obtain ⟨pre, post, rfl, hrun, hbefore, hend⟩ := munmapRange_eq P table start fin h hr
  rw [hrun] at he
  rw [spans_append] at hr
  have hsep1 := (Separated.append_iff.mp hr.separated).1
  rcases munmapFrom_spec h hr.right hdvd hlt (.inl rfl) hend hsp hown he with
    ⟨rfl, ⟨q, hq, hm⟩, hst⟩ | ⟨rfl, hfree, ⟨⟨r, hr', hin⟩, htorn⟩, hst⟩ |
    ⟨rfl, ids', free', m', used', h', hm', hspans, hsp', hs'⟩
  · refine .inl ⟨rfl, ⟨q, ?_, hm⟩, hst⟩
    unfold pagesOf
    rw [spans_append, mem_cover_append]
    exact .inr hq
  · rw [spans_append]
    exact .inr (.inl ⟨rfl, hfree, ⟨⟨r, List.mem_append_right _ hr', hin⟩, htorn⟩, hst⟩)
  · refine .inr (.inr ⟨rfl, ids', free', m', used', h', hm', ?_, hsp', hs'.congr fun q => ?_⟩)
    · rw [hspans, spans_append, List.flatMap_append,
        flatMap_cut_of_le hsep1.lt hlt fun r hr' => .inl (hbefore r hr')]
    · unfold pagesOf
      rw [spans_append, mem_cover_append]
      constructor
      · rintro ⟨hq, hq'⟩
        exact ⟨.inr hq, hq'⟩
      · rintro ⟨⟨r, hr', hq⟩ | hq, hq'⟩
        · have hle := hbefore r hr'
          omega
        · exact ⟨hq, hq'⟩

lemma dvd_alignDown (v : Nat) : PGSIZE ∣ alignDown v := by
  rw [alignDown_eq]
  exact Nat.dvd_mul_left _ _

/-- `munmap` cuts its range out of the regions and unmaps the pages it cuts out. -/
theorem munmap_spec {len : Nat} {r : Except UvmError Unit} (h : RegionLists s.wh s.head ids free)
    (hr : Regions (s.wh.spans ids)) (hlen : 0 < len) (hwrap : begin + len + 4095 < 2 ^ 64)
    (hsp : Space s.ph table node m own used) (hown : WindowOwned m own) (he : munmap P table begin len s = .ok (r, s')) :
    (r = .error .mapFailed ∧ (∃ q, pagesOf (s.wh.spans ids) q ∧ m q = none) ∧ Stopped s s' table node m own used ids free) ∨
      (r = .error .noMem ∧ free = [] ∧
        Torn s s' table node m own used (s.wh.spans ids) (alignDown begin) (pageSize (begin + len)) ∧
        Stopped s s' table node m own used ids free) ∨
      (r = .ok () ∧ MunmapOk s s' table node m own used ids free (alignDown begin) (pageSize (begin + len))) := by
  have hrange : alignDown begin < pageSize (begin + len) := by
    rw [alignDown_eq]
    unfold pageSize
    omega
  unfold munmap at he
  rw [if_neg (by omega), addW_of_lt P (by omega), pure_bind, alignUp_eq (by omega), pure_bind, if_neg (by omega)] at he
  exact munmapRange_spec h hr hrange ⟨dvd_alignDown begin, Nat.dvd_mul_left _ _⟩ hsp hown he

/-- Whatever its arguments are, `munmap` does nothing, or cuts out a range that starts at the page of `begin`. -/
theorem munmap_cases {len : Nat} {r : Except UvmError Unit} (h : RegionLists s.wh s.head ids free)
    (hr : Regions (s.wh.spans ids)) (hsp : Space s.ph table node m own used) (hown : WindowOwned m own)
    (he : munmap P table begin len s = .ok (r, s')) :
    (r = .ok () ∧ s' = s) ∨ (r ≠ .ok () ∧ Stopped s s' table node m own used ids free) ∨
      ∃ fin, alignDown begin < fin ∧ PGSIZE ∣ fin ∧ r = .ok () ∧
        MunmapOk s s' table node m own used ids free (alignDown begin) fin := by
  unfold munmap at he
  by_cases hlen : len = 0
  · rw [if_pos hlen] at he
    cases he
    exact .inl ⟨rfl, rfl⟩
  · rw [if_neg hlen] at he
    obtain ⟨sum, s1, hsum, he⟩ := K.bind_ok he
    obtain rfl := addW_state hsum
    obtain ⟨fin, s1, hfin, he⟩ := K.bind_ok he
    obtain ⟨rfl, hdvd⟩ := alignUp_dvd hfin
    by_cases hle : fin ≤ alignDown begin
    · rw [if_pos hle] at he
      cases he
      exact .inl ⟨rfl, rfl⟩
    · rw [if_neg hle] at he
      rcases munmapRange_spec h hr (by omega) ⟨dvd_alignDown begin, hdvd⟩ hsp hown he with
        ⟨rfl, -, hst⟩ | ⟨rfl, -, -, hst⟩ | ⟨rfl, hok⟩
      · exact .inr (.inl ⟨nofun, hst⟩)
      · exact .inr (.inl ⟨nofun, hst⟩)
      · exact .inr (.inr ⟨fin, by omega, hdvd, rfl, hok⟩)

end Pages

end Uvm

end Glenda.Mem
