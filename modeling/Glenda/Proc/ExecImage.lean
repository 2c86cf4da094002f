import Glenda.Mem.MmapPanics
import Glenda.Mem.UserImage
import Glenda.Proc.Images

/-!
# The image that `proc_exec` builds

What the new program sees, as a function of its file: the pages of its segments, the bytes that are read into them, and
the page that is mapped for its stack. The loader shows that picture, as long as each segment fits into what is not
mapped yet; when it does not fit, the loader does not return.
-/

namespace Glenda.Proc
open Glenda.Lib Glenda.Mem

variable {P : Profile} {E : Env} {ph₀ ph : Phys} {fixed : PageMap} {table : Nat} {O : Nat → Prop} {old : Nat → Nat → Nat}
  {v : Picture} {file : Nat → Nat → List Nat} {p : Phdr}

/-! ### Pages -/

lemma mapZeroed_ends {q flags : Nat} (h : Shows ph₀ fixed table O old ph v) (hf : UserFlags flags) (hlt : flags < 2 ^ 10)
    (hva : q * PGSIZE < 2 ^ 64) :
    (mapZeroed P table (q * PGSIZE) flags).Ends ph (fun e => v.Free q → e ∈ Pmem.allocErrors)
      fun _ ph' => v.Free q ∧ Shows ph₀ fixed table O old ph' (v.map q flags) := by
  obtain ⟨node, m, used, h⟩ := h
  refine .bind (Q := fun _ _ => True) ⟨fun e he _ => Pmem.alloc_error he, fun _ _ _ => trivial⟩ fun pa ph1 ha _ => .modify_bind ?_
  refine .bind (Q := fun _ ph' => v.Free q ∧ Shows ph₀ fixed table O old ph' (v.map q flags)) ?_ fun _ ph' _ hQ => .pure hQ
  have hspec : ∀ b ph', q < 2 ^ 26 → PageTable.map P table (q * PGSIZE) pa PGSIZE flags (ph1.zeroPage (pa / PGSIZE)) = .ok (b, ph') →
      b = (v.flags q).isNone ∧ (b = true → Shows ph₀ fixed table O old ph' (v.map q flags)) :=
    fun b ph' hq he => h.grow hf.leaf hf.user hlt hq ha rfl he
  refine ⟨fun e he hfree => ?_, fun u ph' he => ?_⟩
  · rcases K.bind_eq_error.mp he with he | ⟨b, ph', hmap, he⟩
    · exact PageTable.mapPage_error hfree.1 (Pmem.alloc_lt ha) he
    · obtain ⟨hb, -⟩ := hspec b ph' hfree.1 hmap
      rw [hfree.2] at hb
      subst hb
      cases he
  · have hmap := KernelVm.mappages_eq_ok.mp he
    have hmax := PageTable.map_lt (Nat.dvd_mul_left _ _) hva hmap
    have hq : q < 2 ^ 26 := by
      unfold PGSIZE VA_MAX at hmax
      omega
    obtain ⟨hb, hshows⟩ := hspec true ph' hq hmap
    exact ⟨⟨hq, Option.isNone_iff_eq_none.mp hb.symm⟩, hshows rfl⟩

/-! ### The segments -/

/-- The first page of a segment, and the one behind its last. -/
def Phdr.first (p : Phdr) : Nat := p.vaddr / PGSIZE

def Phdr.last (p : Phdr) : Nat := (p.vaddr + p.memsz + (PGSIZE - 1)) % 2 ^ 64 / PGSIZE

def Phdr.covers (p : Phdr) (q : Nat) : Prop := p.first ≤ q ∧ q < p.last

instance (p : Phdr) (q : Nat) : Decidable (p.covers q) := inferInstanceAs (Decidable (_ ∧ _))

/-- What the loop over the contents of a segment reads, up to the first read that comes up short. -/
def segmentBytes (file : Nat → Nat → List Nat) (p : Phdr) : Nat → Nat → List Nat
  | 0, _ => []
  | fuel + 1, readOff =>
    if readOff < p.filesz then
      let chunk := min (p.filesz - readOff) 512
      let bs := file ((p.offset + readOff) % 2 ^ 64 % 2 ^ 32) chunk
      if bs.length ≠ chunk then [] else bs ++ segmentBytes file p fuel (readOff + chunk)
    else []

def Phdr.bytes (file : Nat → Nat → List Nat) (p : Phdr) : List Nat := segmentBytes file p (p.filesz + 1) 0

/-- The picture with the pages of a segment, still empty. -/
def Phdr.map (p : Phdr) (v : Picture) : Picture := v.mapRange p.first p.last p.perm

def Phdr.load (file : Nat → Nat → List Nat) (p : Phdr) (v : Picture) : Picture := (p.map v).write p.vaddr (p.bytes file)

/-- The ends of a segment are addresses, where they are checked. -/
def Phdr.Bounded (P : Profile) (p : Phdr) : Prop := P = .dev → p.vaddr + p.memsz + PGSIZE < 2 ^ 64

/-- None of the pages of a segment is mapped. -/
def Phdr.Fits (p : Phdr) (v : Picture) : Prop := ∀ q, p.covers q → v.Free q

/-- The contents of a segment go to pages that are mapped. -/
def Phdr.Filled (file : Nat → Nat → List Nat) (p : Phdr) (v : Picture) : Prop :=
  (p.map v).AllowsAll PTE_W p.vaddr (p.bytes file).length

/-- A read that is complete ends before the last offset. -/
def Short (file : Nat → Nat → List Nat) : Prop := ∀ off len, 0 < len → (file off len).length = len → off + len < 2 ^ 32

lemma Phdr.perm_lt (p : Phdr) : p.perm < 2 ^ 10 := by
  unfold Phdr.perm
  split_ifs <;> decide

lemma Phdr.endVa_ends {σ : Type} {s : σ} (hva : p.vaddr < 2 ^ 64) :
    (p.endVa P : K σ Nat).Ends s (fun _ => ¬p.Bounded P) fun e s' => e = p.last * PGSIZE ∧ s' = s ∧ p.Bounded P := by
  have hval : ∀ x, alignDown x = x / PGSIZE * PGSIZE := alignDown_eq
  unfold Phdr.endVa Phdr.last Phdr.Bounded
  cases P with
  | dev =>
    by_cases hb : p.vaddr + p.memsz + PGSIZE < 2 ^ 64
    · rw [addW_of_lt _ (by omega), pure_bind, addW_of_lt _ hb, pure_bind, subW_of_le _ (by unfold PGSIZE; omega), pure_bind]
      refine .pure ⟨?_, rfl, fun _ => hb⟩
      rw [hval, Nat.mod_eq_of_lt (by omega), show p.vaddr + p.memsz + PGSIZE - 1 = p.vaddr + p.memsz + (PGSIZE - 1) from rfl]
    · refine ⟨fun _ _ h => hb (h rfl), fun e s' he => ?_⟩
      obtain ⟨x, s1, hx, he⟩ := K.bind_ok he
      by_cases hsum : p.vaddr + p.memsz < 2 ^ 64
      · rw [addW_of_lt _ hsum] at hx
        cases hx
        rw [addW_dev (by omega)] at he
        cases he
      · rw [addW_dev (by omega)] at hx
        cases hx
  | release =>
    rw [addW_release, pure_bind, addW_release, pure_bind]
    by_cases hz : 1 ≤ ((p.vaddr + p.memsz) % 2 ^ 64 + PGSIZE) % 2 ^ 64
    · rw [subW_of_le _ hz, pure_bind]
      refine .pure ⟨?_, rfl, nofun⟩
      have hsum : ((p.vaddr + p.memsz) % 2 ^ 64 + PGSIZE) % 2 ^ 64 - 1 = (p.vaddr + p.memsz + (PGSIZE - 1)) % 2 ^ 64 := by
        unfold PGSIZE at *
        omega
      rw [hval, hsum]
    · rw [subW_release (by omega), pure_bind]
      refine .pure ⟨?_, rfl, nofun⟩
      have hsum : (((p.vaddr + p.memsz) % 2 ^ 64 + PGSIZE) % 2 ^ 64 + 2 ^ 64 - 1) % 2 ^ 64 =
          (p.vaddr + p.memsz + (PGSIZE - 1)) % 2 ^ 64 := by
        unfold PGSIZE at *
        omega
      rw [hval, hsum]

lemma mapSegment_ends {fuel q l flags : Nat} (h : Shows ph₀ fixed table O old ph v) (hf : UserFlags flags) (hlt : flags < 2 ^ 10)
    (hva : q * PGSIZE < 2 ^ 64) (hfuel : l - q < fuel) :
    (mapSegment P table (l * PGSIZE) flags fuel (q * PGSIZE)).Ends ph (fun e => (∀ x, q ≤ x → x < l → v.Free x) → e ∈ Pmem.allocErrors)
      fun _ ph' => (∀ x, q ≤ x → x < l → v.Free x) ∧ Shows ph₀ fixed table O old ph' (v.mapRange q l flags) := by
  induction fuel generalizing q ph v with
  | zero => omega
  | succ fuel ih =>
    rw [mapSegment]
    by_cases hql : q < l
    · rw [if_pos (by unfold PGSIZE; omega)]
      refine .bind ((mapZeroed_ends h hf hlt hva).imp fun e he hall => he (hall q le_rfl hql)) fun _ ph1 _ hstep => ?_
      obtain ⟨hfree, h1⟩ := hstep
      have hlow := hfree.1
      have hnext : q * PGSIZE + PGSIZE = (q + 1) * PGSIZE := (Nat.succ_mul q PGSIZE).symm
      have hbound : (q + 1) * PGSIZE < 2 ^ 64 := by
        unfold PGSIZE
        omega
      rw [addW_of_lt P (by rw [hnext]; exact hbound), pure_bind, hnext]
      have hrest : ∀ x, (∀ x, q ≤ x → x < l → v.Free x) → q + 1 ≤ x → x < l → (v.map q flags).Free x := by
        intro x hall hx hx'
        refine ⟨(hall x (by omega) hx').1, ?_⟩
        unfold Picture.map
        dsimp only
        rw [Function.update_of_ne (by omega)]
        exact (hall x (by omega) hx').2
      refine ((ih h1 hbound (by omega)).imp fun e he hall => he fun x hx hx' => hrest x hall hx hx').mono fun _ ph' hQ => ?_
      obtain ⟨hall, hshows⟩ := hQ
      rw [Picture.map_mapRange v flags hql] at hshows
      refine ⟨fun x hx hx' => ?_, hshows⟩
      by_cases hxq : x = q
      · rw [hxq]
        exact hfree
      · obtain ⟨hxlow, hxnone⟩ := hall x (by omega) hx'
        unfold Picture.map at hxnone
        dsimp only at hxnone
        rw [Function.update_of_ne hxq] at hxnone
        exact ⟨hxlow, hxnone⟩
    · rw [if_neg (by unfold PGSIZE; omega)]
      refine .pure ⟨fun x hx hx' => by omega, ?_⟩
      rw [Picture.mapRange_of_le v flags (by omega)]
      exact h

lemma readSegment_ends {fuel readOff : Nat} (h : Shows ph₀ fixed table O old ph v) (hfile : Bytes file)
    (hoff : Short file → p.offset + readOff < 2 ^ 64) (hva : p.vaddr + readOff < 2 ^ 64) (hfuel : p.filesz - readOff < fuel) :
    (readSegment P file table p fuel readOff).Ends ph (fun _ => ¬Short file) fun r ph' =>
      (r = .ok () ↔ v.AllowsAll PTE_W (p.vaddr + readOff) (segmentBytes file p fuel readOff).length) ∧
      (r = .ok () → Shows ph₀ fixed table O old ph' (v.write (p.vaddr + readOff) (segmentBytes file p fuel readOff))) ∧
      ∃ v', v'.flags = v.flags ∧ Shows ph₀ fixed table O old ph' v' := by
  induction fuel generalizing readOff ph v with
  | zero => omega
  | succ fuel ih =>
    have hnil : ∀ va, v.AllowsAll PTE_W va ([] : List Nat).length := fun va i hi => absurd hi (Nat.not_lt_zero i)
    have hdone : ∀ va, (Except.ok () = (Except.ok () : Except Unit Unit) ↔ v.AllowsAll PTE_W va ([] : List Nat).length) ∧
        (Except.ok () = (Except.ok () : Except Unit Unit) → Shows ph₀ fixed table O old ph (v.write va [])) ∧
        ∃ v', v'.flags = v.flags ∧ Shows ph₀ fixed table O old ph v' := by
      intro va
      rw [Picture.write_nil]
      exact ⟨iff_of_true rfl (hnil va), fun _ => h, v, rfl, h⟩
    rw [readSegment, segmentBytes]
    by_cases hlt : readOff < p.filesz
    · rw [if_pos hlt, if_pos hlt]
      set chunk := min (p.filesz - readOff) 512 with hchunk
      have hsum : (addW P 64 p.offset readOff : K Phys Nat).Ends ph (fun _ => ¬Short file)
          fun x ph' => x = (p.offset + readOff) % 2 ^ 64 ∧ ph' = ph := by
        refine ⟨fun e he hs => ?_, fun x ph' he => ?_⟩
        · rw [addW_of_lt P (hoff hs)] at he
          cases he
        · obtain ⟨rfl, rfl⟩ := addW_ok he
          exact ⟨rfl, rfl⟩
      refine .bind hsum fun x ph' _ hx => ?_
      obtain ⟨rfl, rfl⟩ := hx
      dsimp only
      set bs := file ((p.offset + readOff) % 2 ^ 64 % 2 ^ 32) chunk with hbs
      by_cases hlen : bs.length ≠ chunk
      · rw [if_pos hlen, if_pos hlen]
        exact .pure (hdone _)
      · rw [if_neg hlen, if_neg hlen]
        rw [not_not] at hlen
        rw [addW_of_lt P hva, pure_bind]
        have hbytes : ∀ b ∈ bs, b < 256 := hfile _ _
        obtain ⟨r, ph1, hcopy, hiff, hshows, k, hpart⟩ := h.copyout P (p.vaddr + readOff) hbytes
        refine .bind_of_ok hcopy ?_
        have hpos : 0 < chunk := by omega
        cases r with
        | error e =>
          refine .pure ⟨iff_of_false (fun hr => by cases hr) fun hall => ?_, (fun hr => by cases hr), v.write (p.vaddr + readOff) (bs.take k), rfl, hpart⟩
          have hbad : ¬v.AllowsAll PTE_W (p.vaddr + readOff) bs.length := fun hc => by cases hiff.mpr hc
          refine hbad fun i hi => hall i ?_
          rw [List.length_append]
          omega
        | ok u =>
          have hall := hiff.mp rfl
          have hstep := hshows rfl
          have hmax : p.vaddr + readOff + (chunk - 1) < VA_MAX := by
            obtain ⟨node, m, used, hd⟩ := h
            have hacc := (hd.access_iff (show PTE_W &&& 0x3FF = PTE_W from rfl)).mpr (hall (chunk - 1) (by omega))
            exact hacc.va_lt
          unfold VA_MAX at hmax
          have hassoc : p.vaddr + (readOff + chunk) = p.vaddr + readOff + bs.length := by omega
          refine (ih hstep (fun hs => ?_) (by omega) (by omega)).mono fun r ph' hQ => ?_
          · have hend := hs _ _ hpos hlen
            have hcur := hoff hs
            omega
          · obtain ⟨hiff', hshows', v', hflags, hv'⟩ := hQ
            rw [hassoc] at hiff' hshows'
            rw [Picture.write_write] at hshows'
            refine ⟨?_, hshows', v', hflags, hv'⟩
            rw [hiff']
            constructor
            · intro hc i hi
              by_cases hib : i < bs.length
              · exact hall i hib
              · rw [List.length_append] at hi
                have hi' := hc (i - bs.length) (by omega)
                rwa [show p.vaddr + readOff + bs.length + (i - bs.length) = p.vaddr + readOff + i by omega] at hi'
            · intro hc i hi
              have hi' := hc (bs.length + i) (by rw [List.length_append]; omega)
              rwa [← Nat.add_assoc] at hi'
    · rw [if_neg hlt, if_neg hlt]
      exact .pure (hdone _)

lemma loadSegment_ends (h : Shows ph₀ fixed table O old ph v) (hfile : Bytes file) (hva : p.vaddr < 2 ^ 64) (hoff : p.offset < 2 ^ 64) :
    (loadSegment P file table p).Ends ph (fun e => Short file → p.Bounded P → p.Fits v → e ∈ Pmem.allocErrors) fun r ph' =>
      (p.Bounded P ∧ p.Fits v) ∧ ((∃ e, r = .ok e) ↔ p.Filled file v) ∧
      (∀ e, r = .ok e → e = p.last * PGSIZE ∧ Shows ph₀ fixed table O old ph' (p.load file v)) ∧
      ∃ v', v'.flags = (p.map v).flags ∧ Shows ph₀ fixed table O old ph' v' := by
  have hfirst : alignDown p.vaddr = p.first * PGSIZE := alignDown_eq _
  have hfuel : (p.last * PGSIZE - p.first * PGSIZE) / PGSIZE + 1 = p.last - p.first + 1 := by
    unfold PGSIZE
    omega
  have hlow : p.first * PGSIZE < 2 ^ 64 := by
    unfold Phdr.first PGSIZE
    omega
  refine .bind ((Phdr.endVa_ends hva).imp fun e he _ hb => absurd hb he) fun endVa ph1 _ hend => ?_
  obtain ⟨rfl, rfl, hb⟩ := hend
  rw [hfirst, hfuel]
  refine .bind ((mapSegment_ends h p.userFlags_perm p.perm_lt hlow (by omega)).imp fun e he _ _ hfit => he fun x hx hx' => hfit x ⟨hx, hx'⟩)
    fun _ ph2 _ hmap => ?_
  obtain ⟨hfit, h2⟩ := hmap
  have hfit : p.Fits v := fun q hq => hfit q hq.1 hq.2
  refine .bind ((readSegment_ends h2 hfile (fun _ => hoff) hva (by omega)).imp fun e he hs => absurd hs he) fun r ph3 _ hread => ?_
  obtain ⟨hiff, hshows, v', hflags, hv'⟩ := hread
  rw [Nat.add_zero] at hiff hshows
  cases r with
  | error e =>
    refine .pure ⟨⟨hb, hfit⟩, iff_of_false (by simp) fun hc => ?_, nofun, v', hflags, hv'⟩
    exact absurd (hiff.mpr hc) nofun
  | ok u =>
    refine .pure ⟨⟨hb, hfit⟩, iff_of_true ⟨_, rfl⟩ (hiff.mp rfl), fun e he => ?_, v', hflags, hv'⟩
    cases he
    exact ⟨rfl, hshows rfl⟩

/-! ### The program headers -/

/-- What is read for the program header `i`. -/
def rawHeader (file : Nat → Nat → List Nat) (phoff phentsize i : Nat) : List Nat :=
  file ((phoff + i * phentsize % 2 ^ 32) % 2 ^ 32) 56

/-- The segments among the next `n` headers, up to the first header that cannot be read. -/
def segments (file : Nat → Nat → List Nat) (phoff phentsize : Nat) : Nat → Nat → List Phdr
  | 0, _ => []
  | n + 1, i =>
    if (rawHeader file phoff phentsize i).length ≠ 56 then []
    else
      match Phdr.parse (rawHeader file phoff phentsize i) with
      | none => segments file phoff phentsize n (i + 1)
      | some p => p :: segments file phoff phentsize n (i + 1)

def loadAll (file : Nat → Nat → List Nat) (ps : List Phdr) (v : Picture) : Picture := ps.foldl (fun v p => p.load file v) v

/-- The end of the highest segment. -/
def highest (ps : List Phdr) (maxVa : Nat) : Nat := ps.foldl (fun x p => max x (p.last * PGSIZE)) maxVa

/-- Each segment finds its pages free when it is loaded, and has its contents in pages that are mapped by then. -/
def Loadable (P : Profile) (file : Nat → Nat → List Nat) : List Phdr → Picture → Prop
  | [], _ => True
  | p :: ps, v => p.Bounded P ∧ p.Fits v ∧ p.Filled file v ∧ Loadable P file ps (p.load file v)

/-- The loop over the headers meets neither a sum that overflows nor a page that cannot be mapped. It may end early. -/
def Harmless (P : Profile) (file : Nat → Nat → List Nat) (phoff phentsize : Nat) : Nat → Nat → Picture → Prop
  | 0, _, _ => True
  | n + 1, i, v => (P = .dev → phoff + i * phentsize % 2 ^ 32 < 2 ^ 32) ∧
    ((rawHeader file phoff phentsize i).length = 56 →
      match Phdr.parse (rawHeader file phoff phentsize i) with
      | none => Harmless P file phoff phentsize n (i + 1) v
      | some p => p.Bounded P ∧ p.Fits v ∧ (p.Filled file v → Harmless P file phoff phentsize n (i + 1) (p.load file v)))

lemma Phdr.offset_lt {bs : List Nat} (h : ∀ b ∈ bs, b < 256) (hp : Phdr.parse bs = some p) : p.offset < 2 ^ 64 := by
  unfold Phdr.parse at hp
  split_ifs at hp
  cases hp
  exact field_lt h

lemma loadSegments_ends {phoff phentsize n i maxVa : Nat} (h : Shows ph₀ fixed table O old ph v) (hfile : Bytes file) :
    (loadSegments P file table phoff phentsize n i maxVa).Ends ph
      (fun e => Short file → Harmless P file phoff phentsize n i v → e ∈ Pmem.allocErrors) fun r ph' =>
      Harmless P file phoff phentsize n i v ∧
      (∀ x, r = .ok x → x = highest (segments file phoff phentsize n i) maxVa ∧
        Loadable P file (segments file phoff phentsize n i) v ∧
        Shows ph₀ fixed table O old ph' (loadAll file (segments file phoff phentsize n i) v)) ∧
      ∃ v', Shows ph₀ fixed table O old ph' v' := by
  induction n generalizing i maxVa ph v with
  | zero => exact .pure ⟨trivial, fun x hx => by cases hx; exact ⟨rfl, trivial, h⟩, v, h⟩
  | succ n ih =>
    rw [loadSegments, segments]
    have hsum : (addW P 32 phoff (i * phentsize % 2 ^ 32) : K Phys Nat).Ends ph
        (fun _ => ¬(P = .dev → phoff + i * phentsize % 2 ^ 32 < 2 ^ 32)) fun x ph' =>
          (P = .dev → phoff + i * phentsize % 2 ^ 32 < 2 ^ 32) ∧ x = (phoff + i * phentsize % 2 ^ 32) % 2 ^ 32 ∧ ph' = ph := by
      by_cases hlt : phoff + i * phentsize % 2 ^ 32 < 2 ^ 32
      · rw [addW_of_lt P hlt, Nat.mod_eq_of_lt hlt]
        exact .pure ⟨fun _ => hlt, rfl, rfl⟩
      · cases P with
        | dev =>
          rw [addW_dev (by omega)]
          exact .throw fun hc => hlt (hc rfl)
        | release =>
          rw [addW_release]
          exact .pure ⟨(fun hc => by cases hc), rfl, rfl⟩
    refine .bind (hsum.imp fun e he _ hh => absurd hh.1 he) fun off ph1 _ hoff => ?_
    obtain ⟨hover, rfl, rfl⟩ := hoff
    change K.Ends (if (rawHeader file phoff phentsize i).length ≠ 56 then _ else _) _ _ _
    by_cases hlen : (rawHeader file phoff phentsize i).length ≠ 56
    · rw [if_pos hlen, if_pos hlen]
      refine .pure ⟨⟨hover, fun hc => absurd hc hlen⟩, fun x hx => ?_, v, h⟩
      cases hx
      exact ⟨rfl, trivial, h⟩
    · rw [if_neg hlen, if_neg hlen]
      rw [not_not] at hlen
      cases hp : Phdr.parse (rawHeader file phoff phentsize i) with
      | none =>
        change K.Ends (match Phdr.parse (rawHeader file phoff phentsize i) with | none => _ | some p => _) _ _ _
        rw [hp]
        refine ((ih h).imp fun e he hs hh => he hs ?_).mono fun r ph' hQ => ?_
        · have hnext := hh.2 hlen
          rw [hp] at hnext
          exact hnext
        · obtain ⟨hh, hok, hv'⟩ := hQ
          refine ⟨⟨hover, fun _ => ?_⟩, hok, hv'⟩
          rw [hp]
          exact hh
      | some p =>
        change K.Ends (match Phdr.parse (rawHeader file phoff phentsize i) with | none => _ | some p => _) _ _ _
        rw [hp]
        have hva := Phdr.vaddr_lt (hfile _ _) hp
        have hoff := Phdr.offset_lt (hfile _ _) hp
        refine .bind ((loadSegment_ends h hfile hva hoff).imp fun e he hs hh => ?_) fun r ph1 _ hseg => ?_
        · have hnext := hh.2 hlen
          rw [hp] at hnext
          exact he hs hnext.1 hnext.2.1
        · obtain ⟨⟨hb, hfit⟩, hiff, hload, v', -, hv'⟩ := hseg
          cases r with
          | error e =>
            refine .pure ⟨⟨hover, fun _ => ?_⟩, (fun x hx => by cases hx), v', hv'⟩
            rw [hp]
            refine ⟨hb, hfit, fun hc => ?_⟩
            obtain ⟨x, hx⟩ := hiff.mpr hc
            cases hx
          | ok x =>
            obtain ⟨rfl, hshows⟩ := hload x rfl
            have hfill := hiff.mp ⟨_, rfl⟩
            refine ((ih hshows).imp fun e he hs hh => he hs ?_).mono fun r ph' hQ => ?_
            · have hnext := hh.2 hlen
              rw [hp] at hnext
              exact hnext.2.2 hfill
            · obtain ⟨hh, hok, hv'⟩ := hQ
              refine ⟨⟨hover, fun _ => ?_⟩, fun x hx => ?_, hv'⟩
              · rw [hp]
                exact ⟨hb, hfit, fun _ => hh⟩
              · obtain ⟨hx, hl, hs⟩ := hok x hx
                exact ⟨hx, ⟨hb, hfit, hfill, hl⟩, hs⟩

/-! ### The stack -/

/-- The picture with a page for the top of the stack. -/
def stackOn (v : Picture) : Picture := v.map 37 Uvm.MMAP_FLAGS

/-- What `proc_exec` maps for the stack: its first page, if none of the first 512 pages has a table, and nothing otherwise. -/
def StackSet (v v' : Picture) : Prop := v' = v ∨ v' = stackOn v ∧ ∀ q < 512, v.flags q = none

lemma setupStack_ends (h : Shows ph₀ fixed table O old ph v) :
    (setupStack P table).Ends ph (· ∈ Pmem.allocErrors) fun _ ph' => ∃ v', StackSet v v' ∧ Shows ph₀ fixed table O old ph' v' := by
  have hlist : ((List.range (Uvm.STACK_SIZE / PGSIZE)).map fun i => Uvm.STACK_TOP - (i + 1) * PGSIZE) =
      37 * PGSIZE :: [36, 35, 34, 33, 32].map (· * PGSIZE) := by decide
  -- once there is a table, nothing more is mapped
  have hskip : ∀ (v' : Picture) (ph' : Phys) (qs : List Nat), Shows ph₀ fixed table O old ph' v' → (∀ q ∈ qs, q < 512) →
      PageTable.lookup ph'.mem table (37 * PGSIZE) ≠ none →
      ((qs.map (· * PGSIZE)).forM fun va => (do
        if (PageTable.lookup (← get).mem table va).isNone then
          let _ ← mapZeroed P table va Uvm.MMAP_FLAGS : K Phys PUnit)) ph' = .ok (⟨⟩, ph') := by
    intro v' ph' qs h' hqs hsome
    induction qs with
    | nil => rfl
    | cons q qs ih =>
      have hq : (PageTable.lookup ph'.mem table (q * PGSIZE)).isNone = false := by
        rw [Option.isNone_eq_false_iff, Option.isSome_iff_ne_none]
        exact fun hc => hsome ((h'.lookup_low_iff (hqs q List.mem_cons_self) (by decide)).mp hc)
      have hstep : (do
          if (PageTable.lookup (← get).mem table (q * PGSIZE)).isNone then
            let _ ← mapZeroed P table (q * PGSIZE) Uvm.MMAP_FLAGS : K Phys PUnit) ph' = .ok (⟨⟩, ph') := by
        rw [K.bind_of_ok (K.get_apply ph'), hq]
        rfl
      rw [List.map_cons, List.forM, K.bind_of_ok hstep]
      exact ih fun x hx => hqs x (List.mem_cons_of_mem _ hx)
  unfold setupStack
  rw [hlist, List.forM]
  have hqs : ∀ q ∈ [36, 35, 34, 33, 32], q < 512 := by decide
  cases hfirst : PageTable.lookup ph.mem table (37 * PGSIZE) with
  | some x =>
    have hall := hskip v ph [37, 36, 35, 34, 33, 32] h (by decide) (by rw [hfirst]; nofun)
    rw [List.map_cons, List.forM] at hall
    exact .of_ok hall ⟨v, .inl rfl, h⟩
  | none =>
    have hnone : ∀ q < 512, v.flags q = none := fun q hq => h.flags_low (by decide) hq hfirst
    have hfree : v.Free 37 := ⟨by decide, hnone 37 (by decide)⟩
    refine .bind (Q := fun _ ph' => Shows ph₀ fixed table O old ph' (stackOn v)) ?_ fun _ ph' _ h' => ?_
    · refine .get_bind ?_
      rw [hfirst]
      refine .bind (Q := fun _ ph' => Shows ph₀ fixed table O old ph' (stackOn v)) ?_ fun _ _ _ h' => .pure h'
      refine ((mapZeroed_ends h ⟨by decide, by decide⟩ (by decide) (by decide)).imp fun e he => he hfree).mono fun _ _ h' => h'.2
    · refine .of_ok (hskip _ ph' _ h' hqs fun hc => ?_) ⟨_, .inr ⟨rfl, hnone⟩, h'⟩
      have hmapped : (stackOn v).flags 37 = none := h'.flags_low (by decide) (by decide) hc
      unfold stackOn Picture.map at hmapped
      dsimp only at hmapped
      rw [Function.update_self] at hmapped
      cases hmapped

end Glenda.Proc
