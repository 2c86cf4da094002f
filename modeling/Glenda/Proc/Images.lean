import Glenda.Proc.Process
import Glenda.Mem.UserSpace

/-!
# Loading a program

The loaders of `create` and `proc_exec` change the table of the new program only: they map fresh pages of the user
region where nothing is mapped, and fill pages that the table owns. `T` are the pages that the program asks for.
-/

namespace Glenda.Proc
open Glenda.Lib Glenda.Mem

variable {P : Profile} {E : Env} {ph₀ ph ph' : Phys} {fixed : PageMap} {table : Nat} {T : Nat → Prop} {ok : Prop} {u : Unit}
  {pa flags fuel n oldTable : Nat} {bs argv : List Nat} {p : Phdr} {r : Except Unit Nat}

/-! ### Pages -/

/-- The flags of a page of a program. -/
structure UserFlags (flags : Nat) : Prop where
  leaf : isLeaf flags = true
  user : flags.testBit 4 = true

lemma filled_evolves {va : Nat} {ph1 ph2 : Phys} (hf : UserFlags flags) (hdvd : PGSIZE ∣ va) (hva : va < 2 ^ 64)
    (hT : ∀ q, q * PGSIZE = va → T q) (ha : Pmem.alloc false ph = .ok (pa, ph1))
    (hmem : ∀ x, x ≠ pa / PGSIZE → ph2.mem x = ph1.mem x) (hr : ph2.region = ph1.region) (hc : ph2.pageRef = ph1.pageRef)
    (he : KernelVm.mappages P table va pa PGSIZE flags ph2 = .ok (u, ph')) :
    va < VA_MAX ∧ Evolves ph₀ fixed table T ok ph ph' := by
  rw [KernelVm.mappages_eq_ok] at he
  have hlt := PageTable.map_lt hdvd hva he
  obtain ⟨q, rfl⟩ := hdvd
  rw [Nat.mul_comm] at he hT hlt ⊢
  have hq : q < 2 ^ 26 := by
    unfold PGSIZE VA_MAX at hlt
    omega
  exact ⟨hlt, (Evolves.grow hf.leaf hf.user hq (hT q rfl) ha hmem hr hc he).mono (fun _ h => h) fun _ => rfl⟩

lemma mapZeroed_evolves {va : Nat} (hf : UserFlags flags) (hdvd : PGSIZE ∣ va) (hva : va < 2 ^ 64)
    (hT : ∀ q, q * PGSIZE = va → T q) (he : mapZeroed P table va flags ph = .ok (pa, ph')) :
    va < VA_MAX ∧ Evolves ph₀ fixed table T ok ph ph' := by
  unfold mapZeroed at he
  obtain ⟨pa', ph1, ha, he⟩ := K.bind_ok he
  obtain ⟨u1, ph2, hz, he⟩ := K.bind_ok he
  cases hz
  obtain ⟨u2, ph2, hmap, he⟩ := K.bind_ok he
  cases he
  exact filled_evolves hf hdvd hva hT ha (fun x hx => Function.update_of_ne hx _ _) (by simp) (by simp) hmap

/-! ### The payload of `create` -/

lemma loadPages_evolves {va : Nat} (hdvd : PGSIZE ∣ va) (hva : va < 2 ^ 64)
    (hT : ∀ q, va ≤ q * PGSIZE → q * PGSIZE < va + bs.length → T q)
    (he : loadPages P table fuel va bs ph = .ok (u, ph')) : Evolves ph₀ fixed table T ok ph ph' := by
  induction fuel generalizing va bs ph with
  | zero =>
    cases bs with
    | nil =>
      cases he
      exact .refl _
    | cons b bs => cases he
  | succ fuel ih =>
    cases bs with
    | nil =>
      cases he
      exact .refl _
    | cons b bs =>
      rw [loadPages] at he
      obtain ⟨pa, ph1, ha, he⟩ := K.bind_ok he
      obtain ⟨u1, ph2, hz, he⟩ := K.bind_ok he
      cases hz
      obtain ⟨u2, ph2, hw, he⟩ := K.bind_ok he
      cases hw
      obtain ⟨u3, ph2, hmap, he⟩ := K.bind_ok he
      have hlt := PageTable.map_lt hdvd hva (KernelVm.mappages_eq_ok.mp hmap)
      have hstep : Evolves ph₀ fixed table T ok ph ph2 := by
        intro node m used h
        obtain ⟨n, rfl, -⟩ := h.space.alloc ha
        have hmem : ∀ x, x ≠ n * PGSIZE / PGSIZE →
            ((ph1.zeroPage (n * PGSIZE / PGSIZE)).writeBytes (n * PGSIZE) ((b :: bs).take PGSIZE)).mem x = ph1.mem x := by
          intro x hx
          rw [Phys.writeBytes_other _ fun i hi hc => hx ?_]
          · exact Function.update_of_ne hx _ _
          · -- a page holds what is taken of the payload
            rw [List.length_take] at hi
            rw [← hc]
            unfold PGSIZE at *
            omega
        exact (filled_evolves ⟨by decide, by decide⟩ hdvd hva (fun q hq => hT q hq.ge (by rw [hq]; simp)) ha hmem
          (by simp) (by simp) hmap).2 node m used h
      have hnext := ih (Nat.dvd_add_right hdvd |>.mpr (dvd_refl _)) (by unfold PGSIZE VA_MAX at *; omega)
        (fun q hq hq' => hT q (by omega) (by
          rw [List.length_drop] at hq'
          omega)) he
      exact (hstep.trans hnext).mono (fun _ h => h) fun h => ⟨h, h⟩

/-- The end of what `create` maps for a payload. -/
def payloadTop (payload : List Nat) : Nat := PGSIZE + max 1 ((payload.length + (PGSIZE - 1)) / PGSIZE) * PGSIZE

lemma loadPayload_evolves {payload : List Nat} {top : Nat}
    (hT : ∀ q, PGSIZE ≤ q * PGSIZE → q * PGSIZE < payloadTop payload → T q)
    (he : loadPayload P table payload ph = .ok (top, ph')) :
    top = payloadTop payload ∧ Evolves ph₀ fixed table T ok ph ph' := by
  unfold payloadTop at hT ⊢
  unfold loadPayload at he
  split_ifs at he with hnil
  · subst hnil
    obtain ⟨pa, ph1, hmap, he⟩ := K.bind_ok he
    cases he
    refine ⟨rfl, (mapZeroed_evolves ⟨by decide, by decide⟩ (dvd_refl _) (by decide) (fun q hq => hT q hq.ge ?_) hmap).2⟩
    rw [hq]
    decide
  · obtain ⟨u, ph1, hload, he⟩ := K.bind_ok he
    cases he
    have hlen : 0 < payload.length := List.length_pos_iff.mpr hnil
    constructor
    · rw [alignDown_eq]
      unfold PGSIZE
      omega
    · refine loadPages_evolves (dvd_refl _) (by decide) (fun q hq hq' => hT q hq ?_) hload
      unfold PGSIZE at *
      omega

/-! ### The segments of `proc_exec` -/

/-- What a file holds are bytes. -/
def Bytes (file : Nat → Nat → List Nat) : Prop := ∀ off len, ∀ b ∈ file off len, b < 256

lemma fromLeBytes_lt (h : ∀ b ∈ bs, b < 256) : fromLeBytes bs < 256 ^ bs.length := by
  induction bs with
  | nil => simp [fromLeBytes]
  | cons b bs ih =>
    have hb := h b List.mem_cons_self
    have hrest := ih fun c hc => h c (List.mem_cons_of_mem _ hc)
    rw [fromLeBytes, List.length_cons, pow_succ]
    omega

lemma fromLeBytes_digits (n x : Nat) : fromLeBytes ((List.range n).map fun i => x / 256 ^ i % 256) = x % 256 ^ n := by
  induction n generalizing x with
  | zero => rw [List.range_zero, List.map_nil, fromLeBytes, pow_zero, Nat.mod_one]
  | succ n ih =>
    have hrest : (List.range n).map ((fun i => x / 256 ^ i % 256) ∘ Nat.succ) = (List.range n).map fun i => x / 256 / 256 ^ i % 256 := by
      refine List.map_congr_left fun i _ => ?_
      rw [Function.comp_apply, Nat.div_div_eq_div_mul, ← pow_succ']
    rw [List.range_succ_eq_map, List.map_cons, List.map_map, hrest, fromLeBytes, ih, pow_zero, Nat.div_one, pow_succ', Nat.mod_mul]

lemma fromLeBytes_toNeBytes {x : Nat} (h : x < 2 ^ 64) : fromLeBytes (toNeBytes x) = x :=
  (fromLeBytes_digits 8 x).trans (Nat.mod_eq_of_lt h)

lemma fromLeBytes_eq_zero : fromLeBytes bs = 0 ↔ ∀ b ∈ bs, b = 0 := by
  induction bs with
  | nil => simp [fromLeBytes]
  | cons b bs ih =>
    rw [fromLeBytes, List.forall_mem_cons, ← ih]
    omega

lemma toNeBytes_lt (x : Nat) : ∀ b ∈ toNeBytes x, b < 256 := by
  intro b hb
  obtain ⟨j, -, rfl⟩ := List.mem_map.mp hb
  exact Nat.mod_lt _ (by decide)

lemma field_lt {lo hi : Nat} (h : ∀ b ∈ bs, b < 256) : field bs lo hi < 256 ^ (hi - lo) := by
  refine (fromLeBytes_lt fun b hb => h b (List.mem_of_mem_take (List.mem_of_mem_drop hb))).trans_le ?_
  refine Nat.pow_le_pow_right (by decide) ?_
  rw [List.length_drop, List.length_take]
  omega

lemma Phdr.vaddr_lt (h : ∀ b ∈ bs, b < 256) (hp : Phdr.parse bs = some p) : p.vaddr < 2 ^ 64 := by
  unfold Phdr.parse at hp
  split_ifs at hp
  cases hp
  exact field_lt h

lemma Phdr.userFlags_perm (p : Phdr) : UserFlags p.perm := by
  unfold Phdr.perm
  split_ifs <;> exact ⟨by decide, by decide⟩

/-- The pages of a segment. -/
def Phdr.pages (p : Phdr) (q : Nat) : Prop := alignDown p.vaddr ≤ q * PGSIZE ∧ q * PGSIZE < p.vaddr + p.memsz

/-- The program headers that the loop of `proc_exec` goes through. -/
def segmentOf (file : Nat → Nat → List Nat) (phoff phentsize n : Nat) (p : Phdr) : Prop :=
  ∃ i < n, Phdr.parse (file ((phoff + i * phentsize % 2 ^ 32) % 2 ^ 32) 56) = some p

lemma mapSegment_evolves {endVa va : Nat} (hf : UserFlags flags) (hdvd : PGSIZE ∣ va) (hva : va < 2 ^ 64)
    (hT : ∀ q, va ≤ q * PGSIZE → q * PGSIZE < endVa → T q)
    (he : mapSegment P table endVa flags fuel va ph = .ok (u, ph')) : Evolves ph₀ fixed table T ok ph ph' := by
  induction fuel generalizing va ph with
  | zero => cases he
  | succ fuel ih =>
    rw [mapSegment] at he
    split_ifs at he with hlt
    · obtain ⟨pa, ph1, hmap, he⟩ := K.bind_ok he
      obtain ⟨next, ph2, hnext, he⟩ := K.bind_ok he
      obtain ⟨hmax, hstep⟩ : va < VA_MAX ∧ Evolves ph₀ fixed table T ok ph ph1 :=
        mapZeroed_evolves hf hdvd hva (fun q hq => hT q hq.ge (by omega)) hmap
      have hbound : va + PGSIZE < 2 ^ 64 := by
        unfold VA_MAX at hmax
        unfold PGSIZE
        omega
      rw [addW_of_lt P hbound] at hnext
      cases hnext
      have hrest := ih (Nat.dvd_add hdvd (dvd_refl _)) hbound (fun q hq hq' => hT q (by omega) hq') he
      exact (hstep.trans hrest).mono (fun _ h => h) fun h => ⟨h, h⟩
    · cases he
      exact .refl _

lemma readSegment_evolves {file : Nat → Nat → List Nat} {readOff : Nat} {r : Except Unit Unit}
    (he : readSegment P file table p fuel readOff ph = .ok (r, ph')) : Evolves ph₀ fixed table T ok ph ph' := by
  induction fuel generalizing readOff ph with
  | zero => cases he
  | succ fuel ih =>
    rw [readSegment] at he
    split_ifs at he with hlt
    · obtain ⟨off, ph1, hoff, he⟩ := K.bind_eq_ok.mp he
      obtain ⟨rfl, -⟩ := addW_ok hoff
      split_ifs at he with hlen
      · cases he
        exact .refl _
      · obtain ⟨va, ph1, hva, he⟩ := K.bind_ok he
        obtain ⟨rfl, -⟩ := addW_ok hva
        obtain ⟨res, ph1, hcopy, he⟩ := K.bind_ok he
        have hstep : Evolves ph₀ fixed table T ok ph ph1 := Uvm.copyout_evolves hcopy
        cases res with
        | error e =>
          cases he
          exact hstep
        | ok v => exact (hstep.trans (ih he)).mono (fun _ h => h) fun h => ⟨h, h⟩
    · cases he
      exact .refl _

lemma loadSegment_evolves {file : Nat → Nat → List Nat} (hva : p.vaddr < 2 ^ 64)
    (hT : ∀ q, p.pages q → T q) (he : loadSegment P file table p ph = .ok (r, ph')) : Evolves ph₀ fixed table T ok ph ph' := by
  unfold loadSegment at he
  obtain ⟨endVa, ph1, hend, he⟩ := K.bind_ok he
  unfold Phdr.endVa at hend
  obtain ⟨x, ph2, hx, hend⟩ := K.bind_ok hend
  obtain ⟨rfl, hx⟩ := addW_ok hx
  obtain ⟨y, ph2, hy, hend⟩ := K.bind_ok hend
  obtain ⟨rfl, hy⟩ := addW_ok hy
  obtain ⟨z, ph2, hz, hend⟩ := K.bind_ok hend
  obtain ⟨rfl, hz⟩ := subW_ok (by omega) hz
  cases hend
  obtain ⟨u, ph1, hmap, he⟩ := K.bind_ok he
  have hdvd : PGSIZE ∣ alignDown p.vaddr := Uvm.dvd_alignDown _
  have hle : alignDown p.vaddr ≤ p.vaddr := by
    rw [alignDown_eq]
    omega
  have hstep : Evolves ph₀ fixed table T ok ph ph1 := by
    refine mapSegment_evolves p.userFlags_perm hdvd (by omega) (fun q hq hq' => hT q ⟨hq, ?_⟩) hmap
    rw [alignDown_eq] at hq'
    unfold PGSIZE at *
    omega
  obtain ⟨res, ph2, hread, he⟩ := K.bind_ok he
  have hph : ph2 = ph' := by
    cases res <;> cases he <;> rfl
  subst hph
  exact (hstep.trans (readSegment_evolves hread)).mono (fun _ h => h) fun h => ⟨h, h⟩

lemma loadSegments_evolves {file : Nat → Nat → List Nat} {phoff phentsize i maxVa : Nat}
    (hfile : Bytes file) (hT : ∀ p, segmentOf file phoff phentsize (i + n) p → ∀ q, p.pages q → T q)
    (he : loadSegments P file table phoff phentsize n i maxVa ph = .ok (r, ph')) : Evolves ph₀ fixed table T ok ph ph' := by
  induction n generalizing i maxVa ph with
  | zero =>
    cases he
    exact .refl _
  | succ n ih =>
    rw [loadSegments] at he
    obtain ⟨off, ph1, hoff, he⟩ := K.bind_eq_ok.mp he
    obtain ⟨rfl, heq⟩ := addW_ok hoff
    have hnext : ∀ p, segmentOf file phoff phentsize (i + 1 + n) p → ∀ q, p.pages q → T q := by
      intro p hp
      rw [show i + 1 + n = i + (n + 1) by omega] at hp
      exact hT p hp
    split_ifs at he with hlen
    · cases he
      exact .refl _
    · cases hp : Phdr.parse (file off 56) with
      | none =>
        rw [hp] at he
        exact ih hnext he
      | some p =>
        rw [hp] at he
        obtain ⟨res, ph1, hload, he⟩ := K.bind_ok he
        have hseg : segmentOf file phoff phentsize (i + (n + 1)) p := ⟨i, by omega, by rw [← heq]; exact hp⟩
        have hstep : Evolves ph₀ fixed table T ok ph ph1 :=
          loadSegment_evolves (Phdr.vaddr_lt (hfile off 56) hp) (hT p hseg) hload
        cases res with
        | error e =>
          cases he
          exact hstep
        | ok endVa => exact (hstep.trans (ih hnext he)).mono (fun _ h => h) fun h => ⟨h, h⟩

/-! ### The stack and the arguments of `proc_exec` -/

lemma setupStack_evolves (hT : ∀ q, Uvm.stackPage q → T q) (he : setupStack P table ph = .ok (u, ph')) :
    Evolves ph₀ fixed table T ok ph ph' := by
  refine K.forM_induct (I := fun _ ph1 => Evolves ph₀ fixed table T ok ph ph1) (fun _ va ph1 ph2 hva hI hs => ?_) he (.refl _)
  obtain ⟨i, hi, rfl⟩ := List.mem_map.mp hva
  have hi : i < 6 := List.mem_range.mp hi
  have hpage : Uvm.STACK_TOP - (i + 1) * PGSIZE = (37 - i) * PGSIZE := by
    have htop : Uvm.STACK_TOP = 38 * PGSIZE := rfl
    rw [htop, ← Nat.sub_mul]
    congr 1
    omega
  obtain ⟨ph3, ph4, hget, hs⟩ := K.bind_ok hs
  cases hget
  split_ifs at hs with hnone
  · obtain ⟨pa, ph4, hmap, hs⟩ := K.bind_ok hs
    cases hs
    have hstep : Evolves ph₀ fixed table T ok ph1 ph2 := by
      refine (mapZeroed_evolves ⟨by decide, by decide⟩ (by rw [hpage]; exact Nat.dvd_mul_left _ _)
        (by rw [hpage]; unfold PGSIZE; omega) (fun q hq => hT q ?_) hmap).2
      have hbase : Uvm.STACK_BASE = 32 * PGSIZE := rfl
      have htop : Uvm.STACK_TOP = 38 * PGSIZE := rfl
      unfold Uvm.stackPage
      rw [hq, hpage, hbase, htop]
      unfold PGSIZE
      omega
    exact (hI.trans hstep).mono (fun _ h => h) fun h => ⟨h, h⟩
  · cases hs
    exact hI

lemma copyinStrFrom_state {va : Nat} {r : Except CopyError (List Nat)}
    (he : Uvm.copyinStrFrom P table fuel n va ph = .ok (r, ph')) : ph' = ph := by
  induction fuel generalizing n va r ph' with
  | zero =>
    cases n <;> cases he
    rfl
  | succ fuel ih =>
    cases n with
    | zero =>
      cases he
      rfl
    | succ n =>
      rw [Uvm.copyinStrFrom, K.bind_apply, K.get_apply] at he
      dsimp only [Except.bind] at he
      cases hpage : Uvm.userPage ph.mem table va PTE_R with
      | error e =>
        rw [hpage] at he
        cases he
        rfl
      | ok pa =>
        rw [hpage] at he
        dsimp only at he
        split_ifs at he
        · cases he
          rfl
        · obtain ⟨next, ph1, hnext, he⟩ := K.bind_ok he
          obtain ⟨rfl, -⟩ := addW_ok hnext
          obtain ⟨res, ph1, hrest, he⟩ := K.bind_ok he
          obtain rfl := ih hrest
          cases res <;> cases he <;> rfl

lemma pushArgs_evolves {sp : Nat} {stackArgv : List Nat} {r : Except Unit (Nat × List Nat)}
    (he : pushArgs P oldTable table argv sp stackArgv ph = .ok (r, ph')) : Evolves ph₀ fixed table T ok ph ph' := by
  induction argv generalizing sp stackArgv ph with
  | nil =>
    cases he
    exact .refl _
  | cons uarg rest ih =>
    rw [pushArgs] at he
    obtain ⟨res, ph1, hin, he⟩ := K.bind_ok he
    obtain rfl := copyinStrFrom_state hin
    cases res with
    | error e =>
      cases he
      exact .refl _
    | ok bs =>
      obtain ⟨sp', ph2, hsp, he⟩ := K.bind_ok he
      obtain rfl := subW_state hsp
      obtain ⟨res, ph2, hout, he⟩ := K.bind_ok he
      have hstep : Evolves ph₀ fixed table T ok ph1 ph2 := Uvm.copyout_evolves hout
      cases res with
      | error e =>
        cases he
        exact hstep
      | ok v => exact (hstep.trans (ih he)).mono (fun _ h => h) fun h => ⟨h, h⟩

lemma pushPointers_evolves {va : Nat} {args : List Nat} {r : Except Unit Unit}
    (he : pushPointers P table va args ph = .ok (r, ph')) : Evolves ph₀ fixed table T ok ph ph' := by
  induction args generalizing va ph with
  | nil =>
    cases he
    exact .refl _
  | cons arg rest ih =>
    rw [pushPointers] at he
    obtain ⟨res, ph1, hout, he⟩ := K.bind_ok he
    have hstep : Evolves ph₀ fixed table T ok ph ph1 := Uvm.copyout_evolves hout
    cases res with
    | error e =>
      cases he
      exact hstep
    | ok v => exact (hstep.trans (ih he)).mono (fun _ h => h) fun h => ⟨h, h⟩

lemma setupArgs_evolves (he : setupArgs P oldTable table argv ph = .ok (r, ph')) : Evolves ph₀ fixed table T ok ph ph' := by
  unfold setupArgs at he
  obtain ⟨res, ph1, hargs, he⟩ := K.bind_ok he
  have hstep : Evolves ph₀ fixed table T ok ph ph1 := pushArgs_evolves hargs
  cases res with
  | error e =>
    cases he
    exact hstep
  | ok v =>
    obtain ⟨sp, stackArgv⟩ := v
    dsimp only at he
    obtain ⟨sp', ph2, hsp, he⟩ := K.bind_ok he
    obtain rfl := subW_state hsp
    obtain ⟨res, ph2, hptr, he⟩ := K.bind_ok he
    have hph : ph2 = ph' := by
      cases res <;> cases he <;> rfl
    subst hph
    exact (hstep.trans (pushPointers_evolves hptr)).mono (fun _ h => h) fun h => ⟨h, h⟩

/-- The pages that a program asks for: its segments and the stack. -/
def imagePage (file : Nat → Nat → List Nat) (header : List Nat) (q : Nat) : Prop :=
  Uvm.stackPage q ∨ ∃ p, segmentOf file (field header 32 40 % 2 ^ 32) (field header 54 56) (field header 56 58) p ∧ p.pages q

lemma buildImage_evolves {file : Nat → Nat → List Nat} {header : List Nat} {r : Except Unit (Nat × Nat)}
    (hfile : Bytes file) (hT : ∀ q, imagePage file header q → T q)
    (he : buildImage P file header argv oldTable table ph = .ok (r, ph')) : Evolves ph₀ fixed table T ok ph ph' := by
  unfold buildImage at he
  obtain ⟨res, ph1, hload, he⟩ := K.bind_ok he
  have hsegs : Evolves ph₀ fixed table T ok ph ph1 := by
    refine loadSegments_evolves hfile (fun p hp q hq => hT q (.inr ⟨p, ?_, hq⟩)) hload
    rwa [Nat.zero_add] at hp
  cases res with
  | error e =>
    cases he
    exact hsegs
  | ok maxVa =>
    obtain ⟨u, ph2, hstack, he⟩ := K.bind_ok he
    obtain ⟨res, ph3, hargs, he⟩ := K.bind_ok he
    have hph : ph3 = ph' := by
      cases res <;> cases he <;> rfl
    subst hph
    have hstep : Evolves ph₀ fixed table T ok ph1 ph2 := setupStack_evolves (fun q hq => hT q (.inl hq)) hstack
    exact (hsegs.trans (hstep.trans (setupArgs_evolves hargs))).mono (fun _ h => h) fun h => ⟨h, h, h⟩

end Glenda.Proc
