import Glenda.Mem.MmapRuns

/-!
# Panics of `mmap` and `munmap`

On well-formed lists and as long as no address wraps, the loops of `mmap` and `munmap` end and their arithmetic is
exact. A call that does not return has been stopped by the page allocator.
-/

namespace Glenda.Mem
open Glenda.Lib

variable {ph : Phys} {fuel p b npages begin f c fin : Nat} {cur prev : Option Nat}

lemma Pmem.alloc_lt {ph' : Phys} {k : Bool} {pa : Nat} (h : Pmem.alloc k ph = .ok (pa, ph')) : pa / PGSIZE ≤ 2 ^ 44 := by
  unfold alloc allocate at h
  obtain ⟨r, ph1, ha, h⟩ := K.bind_ok h
  obtain ⟨ph0, ph2, hget, ha⟩ := K.bind_ok ha
  cases hget
  cases hhead : (ph.region k).head with
  | none =>
    rw [hhead] at ha
    cases ha
    cases h
  | some p =>
    rw [hhead] at ha
    obtain ⟨u, ph3, -, ha⟩ := K.bind_ok ha
    obtain ⟨idx, ph4, hidx, ha⟩ := K.bind_ok ha
    obtain ⟨v, ph5, -, ha⟩ := K.bind_ok ha
    obtain ⟨w, ph6, -, ha⟩ := K.bind_ok ha
    cases ha
    cases h
    obtain ⟨u', ph7, -, hidx⟩ := K.bind_ok hidx
    obtain ⟨v', ph8, hhigh, -⟩ := K.bind_ok hidx
    have hlt := (K.panicIf_eq_ok.mp hhigh).1
    unfold TOTAL_PAGES PHY_MEM_START PGSIZE at hlt
    unfold PGSIZE
    omega

lemma PageTable.unmap_error {P : Profile} {table va len : Nat} {e : Panic} (hva : va + len ≤ VA_MAX)
    (h : unmap P table va len true ph = .error e) : e ∈ .unmapOutOfBounds :: Pmem.freeErrors :=
  PtCall.exec_error (c := .unmap va len true) hva h

namespace Uvm

variable {P : Profile} {s s' : Vm} {ids pre post free : List Nat} {table : Nat} {e : Panic}

lemma onPhys_eq_error {α : Type} {x : K Phys α} (h : onPhys x s = .error e) : x s.ph = .error e := by
  unfold onPhys at h
  cases hx : x s.ph with
  | error e' =>
    rw [hx] at h
    cases h
    rfl
  | ok r =>
    rw [hx] at h
    cases h

/-! ### Pages -/

lemma mapPagesFrom_error {n : Nat} (hva : p + n ≤ 2 ^ 26) (hfuel : n < fuel)
    (h : mapPagesFrom P table ((p + n) * PGSIZE) fuel (p * PGSIZE) ph = .error e) : e ∈ Pmem.allocErrors := by
  induction fuel generalizing n p ph with
  | zero => omega
  | succ fuel ih =>
    rw [mapPagesFrom] at h
    cases n with
    | zero =>
      rw [Nat.add_zero, if_neg (lt_irrefl _)] at h
      cases h
    | succ n =>
      rw [if_pos (by unfold PGSIZE; omega)] at h
      rcases K.bind_eq_error.mp h with h | ⟨pa, ph1, halloc, h⟩
      · exact Pmem.alloc_error h
      split_ifs at h
      · cases h
      rcases K.bind_eq_error.mp h with h | ⟨b, ph2, -, h⟩
      · exact PageTable.mapPage_error (by omega) (Pmem.alloc_lt halloc) h
      split_ifs at h
      · rw [addW_of_lt P (PageTable.page_add_lt (by omega)), pure_bind, ← Nat.succ_mul,
          show p + (n + 1) = p + 1 + n by omega] at h
        exact ih (by omega) (by omega) h
      · cases h

lemma mapPages_error {size : Nat} (hb : PGSIZE ∣ b) (hsize : PGSIZE ∣ size) (hmax : b + size ≤ VA_MAX)
    (h : mapPages P table b (size / PGSIZE) ph = .error e) : e ∈ Pmem.allocErrors := by
  obtain ⟨p, rfl⟩ := hb
  obtain ⟨n, rfl⟩ := hsize
  have hdown : alignDown (PGSIZE * p) = p * PGSIZE := by
    rw [alignDown_eq]
    unfold PGSIZE
    omega
  obtain ⟨hva, hlast, hlt⟩ : p + n ≤ 2 ^ 26 ∧ p * PGSIZE + n * PGSIZE = (p + n) * PGSIZE ∧ (p + n) * PGSIZE < 2 ^ 64 := by
    unfold VA_MAX PGSIZE at *
    omega
  unfold mapPages at h
  rw [hdown, Nat.mul_div_cancel_left n (by decide), mulW_of_lt P (by omega), pure_bind, addW_of_lt P (by omega),
    pure_bind, hlast] at h
  exact mapPagesFrom_error hva (by omega) h

/-! ### The walks -/

lemma findGap_returns {σ : Type} {wh : MmapWarehouse} {cursor : Nat} {t : σ}
    (hc : Chain wh.nextRegion cur post) (hr : Regions (wh.spans post)) (hsize : npages * PGSIZE < 2 ^ 64)
    (hfuel : post.length ≤ fuel) : findGap P wh npages fuel cur cursor t ≠ .error e := by
  induction post generalizing fuel cur cursor with
  | nil =>
    rw [Chain.nil.mp hc]
    intro he
    cases fuel with
    | zero => cases he
    | succ fuel => cases he
  | cons x post ih =>
    obtain ⟨rfl, hrest⟩ := Chain.cons.mp hc
    have hr' : Regions (wh.spans post) := hr.tail
    rw [List.length_cons] at hfuel
    cases fuel with
    | zero => omega
    | succ fuel =>
      rw [findGap, mulW_of_lt P hsize, pure_bind, regionEnd_eq hr List.mem_cons_self, pure_bind]
      split_ifs
      · intro he
        cases he
      · exact ih hrest hr' (by omega)
      · exact ih hrest hr' (by omega)

lemma startAt_returns (h : RegionLists s.wh s.head ids free) (hr : Regions (s.wh.spans ids))
    (hsize : npages * PGSIZE < 2 ^ 64) : startAt P begin npages MMAP_BEGIN MMAP_END s ≠ .error e := by
  intro he
  unfold startAt at he
  split_ifs at he
  · rcases K.bind_eq_error.mp he with he | ⟨s0, s1, hget, he⟩
    · cases he
    cases hget
    rcases K.bind_eq_error.mp he with he | ⟨⟨found, cursor⟩, s1, -, he⟩
    · exact findGap_returns h.regions hr hsize h.length_le he
    dsimp only at he
    rw [mulW_of_lt P hsize, pure_bind] at he
    split_ifs at he <;> cases he
  · cases he

lemma regionAlloc_returns : regionAlloc s ≠ .error e := by
  intro he
  unfold regionAlloc at he
  rcases K.bind_eq_error.mp he with he | ⟨u, s1, -, he⟩
  · cases he
  rcases K.bind_eq_error.mp he with he | ⟨s2, s3, -, he⟩
  · cases he
  cases hw : s2.wh.head with
  | none =>
    rw [hw] at he
    cases he
  | some first =>
    rw [hw] at he
    cases he

lemma link_returns {x : Option Nat} : link prev x s ≠ .error e := by
  cases prev <;> exact nofun

lemma pagesBetween_eq {σ : Type} (h : b ≤ f) :
    (pagesBetween P f b : K σ Nat) = pure ((f - b) / PGSIZE % 2 ^ 32) := by
  unfold pagesBetween
  rw [subW_of_le P h, pure_bind]

/-! ### `mmap` -/

lemma extendPrev_error {mergedEnd : Nat} {next : Option Nat} (hr : Regions (s.wh.spans ids)) (hp : p ∈ ids)
    (hb : (s.wh.span p).2 < f) (hf : PGSIZE ∣ f) (hmax : f ≤ MMAP_END) (hmerged : f ≤ mergedEnd)
    (hnext : ∀ c, next = some c → c ∈ ids ∧ c ≠ p ∧ f ≤ (s.wh.span c).2)
    (he : extendPrev P table p next f mergedEnd s = .error e) : e ∈ Pmem.allocErrors := by
  have hspan : s.wh.span p ∈ s.wh.spans ids := MmapWarehouse.mem_spans hp
  have hlt := hr.separated.lt _ hspan
  have hbegin : (s.wh.span p).1 = (s.wh.region p).begin := rfl
  have hw := mmap_window.2.2.2.2
  unfold extendPrev at he
  rw [K.bind_of_ok (K.get_apply s), regionEnd_eq hr hp, pure_bind] at he
  rcases K.bind_eq_error.mp he with he | ⟨res, s1, hmap, he⟩
  · have hrun := onPhys_eq_error he
    unfold growTo at hrun
    rw [if_pos hb] at hrun
    exact mapPages_error (hr.dvd _ hspan).2 (Nat.dvd_sub hf (hr.dvd _ hspan).2) (by omega) hrun
  obtain ⟨ph', -, rfl⟩ := onPhys_ok hmap
  cases res with
  | error e' => cases he
  | ok u =>
    dsimp only at he
    rw [pagesBetween_eq (by omega), pure_bind] at he
    rcases K.bind_eq_error.mp he with he | ⟨v, s2, hset, he⟩
    · cases he
    cases hset
    cases next with
    | none => cases he
    | some c =>
      obtain ⟨hc, hcp, hle⟩ := hnext c rfl
      dsimp only at he
      rw [K.bind_of_ok (K.get_apply _)] at he
      have hregion : (s.wh.setRegion p ({ · with npages := (mergedEnd - (s.wh.region p).begin) / PGSIZE % 2 ^ 32 })).region c =
          s.wh.region c := by
        unfold MmapWarehouse.region
        rw [MmapWarehouse.setRegion_of_ne hcp]
      dsimp only at he
      rw [hregion, regionEnd_eq hr hc, pure_bind, pagesBetween_eq (by omega), pure_bind] at he
      cases he

lemma extendNext_error {mergedEnd : Nat} (hb : PGSIZE ∣ b) (hf : PGSIZE ∣ f) (hbf : b < f)
    (hmax : f ≤ MMAP_END) (hmerged : f ≤ mergedEnd)
    (he : extendNext P table c prev b f mergedEnd s = .error e) : e ∈ Pmem.allocErrors := by
  have hw := mmap_window.2.2.2.2
  unfold extendNext at he
  rw [subW_of_le P hbf.le, pure_bind] at he
  rcases K.bind_eq_error.mp he with he | ⟨res, s1, -, he⟩
  · exact mapPages_error hb (Nat.dvd_sub hf hb) (by omega) (onPhys_eq_error he)
  cases res with
  | error e' => cases he
  | ok u =>
    dsimp only at he
    rw [pagesBetween_eq (by omega), pure_bind] at he
    rcases K.bind_eq_error.mp he with he | ⟨v, s2, -, he⟩
    · cases he
    rcases K.bind_eq_error.mp he with he | ⟨w, s3, -, he⟩
    · exact absurd he link_returns
    · cases he

lemma insertNew_eq_error (he : insertNew P table b npages prev cur s = .error e) :
    mapPages P table b npages s.ph = .error e := by
  unfold insertNew at he
  rcases K.bind_eq_error.mp he with he | ⟨res, s1, -, he⟩
  · exact onPhys_eq_error he
  cases res with
  | error e' => cases he
  | ok u =>
    rcases K.bind_eq_error.mp he with he | ⟨o, s2, -, he⟩
    · exact absurd he regionAlloc_returns
    cases o with
    | none => cases he
    | some node =>
      rcases K.bind_eq_error.mp he with he | ⟨v, s3, -, he⟩
      · cases he
      rcases K.bind_eq_error.mp he with he | ⟨w, s4, -, he⟩
      · exact absurd he link_returns
      · cases he

lemma insertNew_error (hb : PGSIZE ∣ b) (hmax : b + npages * PGSIZE ≤ VA_MAX)
    (he : insertNew P table b npages prev cur s = .error e) : e ∈ Pmem.allocErrors := by
  have hrun := insertNew_eq_error he
  rw [← Nat.mul_div_cancel npages (show 0 < PGSIZE by decide)] at hrun
  exact mapPages_error hb (Nat.dvd_mul_left _ _) hmax hrun

lemma placeRegion_error (h : RegionLists s.wh s.head (pre ++ post) free)
    (hr : Regions (s.wh.spans (pre ++ post))) (hf : f = b + npages * PGSIZE) (hb : PGSIZE ∣ b) (hbf : b < f)
    (hmax : f ≤ MMAP_END) (hpre : ∀ i ∈ pre, (s.wh.span i).1 < b)
    (he : placeRegion P table b f npages pre.getLast? post.head? s = .error e) : e ∈ Pmem.allocErrors := by
  have hdvd : PGSIZE ∣ f := hf ▸ Nat.dvd_add hb (Nat.dvd_mul_left _ _)
  have hw := mmap_window.2.2.2.2
  rcases @placeRegion_cases f npages P s pre post table b hr hpre with ⟨hrun, -⟩ |
    ⟨-, -, ⟨pre', p, next, me, rfl, hp, hnext, hrun⟩ | ⟨c, post', rfl, hc, -, hrun⟩ | ⟨-, -, hrun⟩⟩
  · rw [hrun] at he
    cases he
  · rw [hrun] at he
    have hpm : p ∈ pre' ++ [p] ++ post := by simp
    have hme : f ≤ me ∧ ∀ c, next = some c → c ∈ pre' ++ [p] ++ post ∧ c ≠ p ∧ f ≤ (s.wh.span c).2 := by
      rcases hnext with ⟨rfl, rfl, -⟩ | ⟨c, post', rfl, rfl, hc, rfl⟩
      · exact ⟨le_rfl, nofun⟩
      · have hcm : c ∈ pre' ++ [p] ++ c :: post' := by simp
        have hlt := hr.separated.lt _ (MmapWarehouse.mem_spans hcm)
        refine ⟨by omega, ?_⟩
        rintro c' ⟨⟩
        refine ⟨hcm, ?_, by omega⟩
        rintro rfl
        omega
    exact extendPrev_error hr hpm (by omega) hdvd hmax hme.1 hme.2 he
  · rw [hrun] at he
    have hlt := hr.separated.lt _ (MmapWarehouse.mem_spans (show c ∈ pre ++ c :: post' by simp))
    exact extendNext_error hb hdvd hbf hmax (by omega) he
  · rw [hrun] at he
    exact insertNew_error hb (by omega) he

lemma mmapAt_error (h : RegionLists s.wh s.head ids free) (hr : Regions (s.wh.spans ids))
    (hpos : 0 < npages) (hwrap : b + npages * PGSIZE < 2 ^ 64)
    (he : mmapAt P table b npages MMAP_BEGIN MMAP_END s = .error e) : e ∈ Pmem.allocErrors := by
  have hpg : 0 < npages * PGSIZE := Nat.mul_pos hpos (by decide)
  rcases mmapAt_eq table h (by omega) (addW_of_lt P hwrap) with ⟨hrun, -⟩ |
    ⟨hd, hlow, hmax, pre, post, rfl, hlt, hge, hrun⟩
  · rw [hrun] at he
    cases he
  · rw [hrun] at he
    exact placeRegion_error h hr rfl hd (by omega) hmax hlt he

/-- If `mmap` does not return, the allocator has panicked. -/
theorem mmap_error {len : Nat} (h : RegionLists s.wh s.head ids free) (hr : Regions (s.wh.spans ids))
    (hwrap : begin + pageSize len < 2 ^ 64) (he : mmap P table begin len MMAP_BEGIN MMAP_END s = .error e) :
    e ∈ Pmem.allocErrors := by
  have hsize : pageSize len / PGSIZE * PGSIZE = pageSize len := by
    unfold pageSize PGSIZE
    omega
  unfold mmap at he
  split_ifs at he with hlen
  · cases he
  have hnp : 0 < pageSize len / PGSIZE := by
    unfold pageSize PGSIZE
    omega
  rw [alignUp_eq (by unfold pageSize at hwrap; omega), pure_bind, if_neg (by omega)] at he
  rcases K.bind_eq_error.mp he with he | ⟨o, s1, hstart, he⟩
  · exact absurd he (startAt_returns h hr (by omega))
  obtain rfl := startAt_state hstart
  cases o with
  | none => cases he
  | some b =>
    have hst := startAt_ok h hr hnp (by omega) hstart
    have hb : b + pageSize len < 2 ^ 64 := by
      have hw := mmap_window.2.2.2.2
      have hv := VA_MAX_lt
      unfold Starts at hst
      split_ifs at hst
      · omega
      · omega
    exact mmapAt_error h hr hnp (by omega) he

/-! ### `munmap` -/

lemma trimRegion_returns {x y : Nat} (hx : b ≤ x) (hy : y ≤ f) :
    trimRegion P prev c b f x y s ≠ .error e := by
  intro he
  unfold trimRegion at he
  rw [K.bind_of_ok (K.get_apply s), pagesBetween_eq hy, pure_bind, pagesBetween_eq hx] at he
  split_ifs at he
  · rcases K.bind_eq_error.mp he with he | ⟨u, s1, -, he⟩
    · exact link_returns he
    · cases he
  · cases he
  · cases he
  · rcases K.bind_eq_error.mp he with he | ⟨o, s1, -, he⟩
    · exact regionAlloc_returns he
    cases o with
    | none => cases he
    | some right =>
      dsimp only at he
      rw [pure_bind, pure_bind] at he
      cases he

lemma munmapFrom_error {us : Nat} (h : RegionLists s.wh s.head (pre ++ post) free)
    (hr : Regions (s.wh.spans post)) (hdvd : PGSIZE ∣ us ∧ PGSIZE ∣ fin) (hend : ∀ r ∈ s.wh.spans post, us < r.2)
    (hfuel : post.length ≤ fuel) (he : munmapFrom P table fin fuel pre.getLast? post.head? us s = .error e) :
    e ∈ .unmapOutOfBounds :: Pmem.freeErrors := by
  induction fuel generalizing s pre post free us with
  | zero =>
    obtain rfl := List.length_eq_zero_iff.mp (Nat.le_zero.mp hfuel)
    cases he
  | succ fuel ih =>
    cases post with
    | nil => cases he
    | cons c post =>
      obtain ⟨hlt, hgap, hsep⟩ := Separated.cons_iff.mp hr.separated
      have hcmem : s.wh.span c ∈ s.wh.spans (c :: post) := List.mem_cons_self
      have hcb := hr.bounds _ hcmem
      have hcd := hr.dvd _ hcmem
      have hcend := hend _ hcmem
      have hw := mmap_window.2.2.2.2
      rw [List.length_cons] at hfuel
      rw [List.head?_cons, munmapFrom] at he
      split_ifs at he with huf
      · rw [K.bind_of_ok (K.get_apply s), regionEnd_eq hr List.mem_cons_self, pure_bind,
          show (s.wh.region c).begin = (s.wh.span c).1 from rfl] at he
        dsimp only at he
        split_ifs at he with hbefore hxe
        · cases he
        · rcases K.bind_eq_error.mp he with he | ⟨ok, s1, hunmap, he⟩
          · refine PageTable.unmap_error ?_ (onPhys_eq_error he)
            omega
          obtain ⟨ph', -, rfl⟩ := onPhys_ok hunmap
          cases ok with
          | false => cases he
          | true =>
            rw [if_pos rfl] at he
            rcases K.bind_eq_error.mp he with he | ⟨o, s2, htrim, he⟩
            · exact absurd he (trimRegion_returns (by omega) (by omega))
            have h1 : RegionLists ({ s with ph := ph' } : Vm).wh ({ s with ph := ph' } : Vm).head (pre ++ c :: post) free := h
            obtain ⟨mid, free1, h2, -, -, hspan, ⟨rfl, -⟩ | ⟨p, rfl, hp, -⟩⟩ := trimRegion_ok h1 htrim
            · cases he
            · have hspost : s2.wh.spans post = s.wh.spans post :=
                MmapWarehouse.spans_congr fun i hi => hspan i (List.mem_append_right _ hi)
              dsimp only at he
              rw [Nat.add_sub_cancel' hxe.le] at he
              by_cases hlast : min fin (s.wh.span c).2 = (s.wh.span c).2
              · rw [hp (.inl hlast), hlast] at he
                refine ih h2 (by rw [hspost]; exact hr.tail) ⟨hcd.2, hdvd.2⟩ (fun r hr' => ?_) (by omega) he
                rw [hspost] at hr'
                exact (hgap r hr').trans (hsep.lt r hr')
              · -- the range ends inside the region, and so does the loop
                rw [show min fin (s.wh.span c).2 = fin by omega] at he
                cases post with
                | nil => cases fuel <;> cases he
                | cons d post =>
                  cases fuel with
                  | zero => simp at hfuel
                  | succ fuel =>
                    rw [List.head?_cons, munmapFrom, if_neg (lt_irrefl _)] at he
                    cases he
        · omega
      · cases he

lemma munmapRange_error {start : Nat} (h : RegionLists s.wh s.head ids free) (hr : Regions (s.wh.spans ids))
    (hdvd : PGSIZE ∣ start ∧ PGSIZE ∣ fin)
    (he : (do
      let s ← get
      let (prev, cur) ← findPos s.wh (fun r => return decide (start < (← regionEnd P r))) N_MMAP none s.head
      munmapFrom P table fin N_MMAP prev cur start : K Vm (Except UvmError Unit)) s = .error e) :
    e ∈ .unmapOutOfBounds :: Pmem.freeErrors := by
  obtain ⟨pre, post, rfl, hrun, -, hend⟩ := munmapRange_eq P table start fin h hr
  rw [hrun] at he
  have hlen := h.length_le
  rw [List.length_append] at hlen
  rw [MmapWarehouse.spans_append] at hr
  exact munmapFrom_error h hr.right hdvd hend (by omega) he

/-- If `munmap` does not return, it could not give a page back. -/
theorem munmap_error {len : Nat} (h : RegionLists s.wh s.head ids free) (hr : Regions (s.wh.spans ids))
    (hwrap : begin + len + 4095 < 2 ^ 64) (he : munmap P table begin len s = .error e) :
    e ∈ .unmapOutOfBounds :: Pmem.freeErrors := by
  unfold munmap at he
  split_ifs at he with hlen
  · cases he
  rw [addW_of_lt P (by omega), pure_bind, alignUp_eq (by omega), pure_bind] at he
  split_ifs at he with hle
  · cases he
  exact munmapRange_error h hr ⟨dvd_alignDown begin, Nat.dvd_mul_left _ _⟩ he

end Uvm

end Glenda.Mem
