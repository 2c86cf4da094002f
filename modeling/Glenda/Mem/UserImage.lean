import Glenda.Mem.UserCopy

/-!
# User memory as a program sees it

To a program its memory consists of pages with flags and of bytes at virtual addresses. A `Picture` has no more than
that, and `Depicts` says that a page table shows it. Mapping a zeroed page and copying bytes out are functions on pictures,
and reading through the table reads the picture. The pages in `O` belong to others and are still what they were in
`old`.
-/

namespace Glenda.Mem
open Glenda.Lib
open Function (update_of_ne update_self)

variable {q l x off : Nat} {e : Entry}

structure Picture where
  flags : Nat → Option Nat
  byte : Nat → Nat

namespace Picture

variable {v : Picture} {va : Nat} {bs cs : List Nat}

/-- A zeroed page. -/
def map (v : Picture) (q flags : Nat) : Picture := { v with flags := Function.update v.flags q (some (flags ||| PTE_V)) }

def write (v : Picture) (va : Nat) (bs : List Nat) : Picture :=
  { v with byte := fun x => if va ≤ x ∧ x < va + bs.length then bs.getD (x - va) 0 else v.byte x }

/-- The user may access the page in the way of `perm`. -/
def Allows (v : Picture) (perm q : Nat) : Prop := ∃ f ∈ v.flags q, f &&& PTE_U ≠ 0 ∧ f &&& perm ≠ 0

/-- The page can be mapped. -/
def Free (v : Picture) (q : Nat) : Prop := q < 2 ^ 26 ∧ v.flags q = none

/-- Zeroed pages from `q` up to `l`. -/
def mapRange (v : Picture) (q l flags : Nat) : Picture :=
  { v with flags := fun x => if q ≤ x ∧ x < l then some (flags ||| PTE_V) else v.flags x }

/-- So may it at the addresses of a range. -/
def AllowsAll (v : Picture) (perm va n : Nat) : Prop := ∀ i < n, v.Allows perm ((va + i) / PGSIZE)

/-- The bytes at `va` are `bs`, and can be read. -/
def Holds (v : Picture) (va : Nat) (bs : List Nat) : Prop :=
  v.AllowsAll PTE_R va bs.length ∧ ∀ i (hi : i < bs.length), v.byte (va + i) = bs[i]

@[simp] lemma write_flags (v : Picture) (va : Nat) (bs : List Nat) : (v.write va bs).flags = v.flags := rfl

@[simp] lemma map_byte (v : Picture) (q flags : Nat) : (v.map q flags).byte = v.byte := rfl

lemma mapRange_of_le (v : Picture) (flags : Nat) (h : l ≤ q) : v.mapRange q l flags = v := by
  unfold mapRange
  congr 1
  funext x
  rw [if_neg (by omega)]

lemma map_mapRange (v : Picture) (flags : Nat) (h : q < l) :
    (v.map q flags).mapRange (q + 1) l flags = v.mapRange q l flags := by
  unfold mapRange map
  congr 1
  funext x
  dsimp only
  by_cases hx : x = q
  · rw [if_neg (by omega), if_pos (by omega), hx, update_self]
  · rw [update_of_ne hx]
    by_cases hin : q ≤ x ∧ x < l
    · rw [if_pos (by omega), if_pos hin]
    · rw [if_neg (by omega), if_neg hin]

lemma write_nil (v : Picture) (va : Nat) : v.write va [] = v := by
  unfold write
  congr 1
  funext x
  rw [if_neg]
  simp only [List.length_nil]
  omega

lemma byte_write {i : Nat} (hi : i < bs.length) : (v.write va bs).byte (va + i) = bs[i] := by
  unfold write
  dsimp only
  rw [if_pos ⟨by omega, by omega⟩, Nat.add_sub_cancel_left, List.getD_eq_getElem _ _ hi]

lemma byte_write_of_not (h : ¬(va ≤ x ∧ x < va + bs.length)) : (v.write va bs).byte x = v.byte x := if_neg h

lemma write_write (v : Picture) (va : Nat) (bs cs : List Nat) :
    (v.write va bs).write (va + bs.length) cs = v.write va (bs ++ cs) := by
  unfold write
  congr 1
  funext x
  dsimp only
  rw [List.length_append]
  by_cases hlow : va ≤ x ∧ x < va + bs.length
  · rw [if_neg (by omega), if_pos hlow, if_pos (by omega), List.getD_append _ _ _ _ (by omega)]
  · rw [if_neg hlow]
    by_cases hhigh : va + bs.length ≤ x ∧ x < va + bs.length + cs.length
    · rw [if_pos hhigh, if_pos (by omega), List.getD_append_right _ _ _ _ (by omega), Nat.sub_sub]
    · rw [if_neg hhigh, if_neg (by omega)]

lemma allowsAll_add {perm n n' : Nat} : v.AllowsAll perm va (n + n') ↔ v.AllowsAll perm va n ∧ v.AllowsAll perm (va + n) n' := by
  refine ⟨fun h => ⟨fun i hi => h i (by omega), fun i hi => ?_⟩, fun h i hi => ?_⟩
  · rw [Nat.add_assoc]
    exact h (n + i) (by omega)
  · by_cases hlow : i < n
    · exact h.1 i hlow
    · have hrest := h.2 (i - n) (by omega)
      rwa [Nat.add_assoc, Nat.add_sub_of_le (by omega)] at hrest

lemma holds_append : v.Holds va (bs ++ cs) ↔ v.Holds va bs ∧ v.Holds (va + bs.length) cs := by
  have hlen : (bs ++ cs).length = bs.length + cs.length := List.length_append
  constructor
  · rintro ⟨hall, h⟩
    rw [hlen, allowsAll_add] at hall
    refine ⟨⟨hall.1, fun i hi => ?_⟩, hall.2, fun i hi => ?_⟩
    · rw [h i (by omega), List.getElem_append_left hi]
    · rw [Nat.add_assoc, h (bs.length + i) (by omega), List.getElem_append_right (by omega)]
      simp only [Nat.add_sub_cancel_left]
  · rintro ⟨⟨hb, h⟩, hc, h'⟩
    refine ⟨by rw [hlen, allowsAll_add]; exact ⟨hb, hc⟩, fun i hi => ?_⟩
    by_cases hlow : i < bs.length
    · rw [h i hlow, List.getElem_append_left hlow]
    · rw [List.getElem_append_right (by omega), ← h' (i - bs.length) (by omega)]
      congr 1
      omega

end Picture

/-! ### Tables and leaves -/

namespace Tree

variable {mem : Nat → Nat → Nat} {table : Nat} {node : List Nat → Option Nat} {m : PageMap}

lemma pteAt_eq (h : Tree mem table node m) (hlow : ∀ q e, m q = some e → q < 2 ^ 26) (q : Nat) :
    Uvm.pteAt mem table q = encLeaf (m q) := by
  unfold Uvm.pteAt
  by_cases hq : q < 2 ^ 26
  · have hva : q * PGSIZE < VA_MAX := by
      unfold PGSIZE VA_MAX
      omega
    have hpage := pageNo_va hva
    rw [div_mul_PGSIZE] at hpage
    rw [h.lookup_eq hva]
    cases hn : node [vpn (q * PGSIZE) 2, vpn (q * PGSIZE) 1] with
    | none =>
      have hnone := h.absent hn (vpn_lt _ 1) (vpn_lt (q * PGSIZE) 0)
      rw [hpage] at hnone
      rw [hnone]
      rfl
    | some n =>
      have hword := h.leaf _ n hn rfl _ (vpn_lt (q * PGSIZE) 0)
      rw [hpage] at hword
      exact hword
  · have hnone : m q = none := by
      cases hm : m q with
      | none => rfl
      | some e => exact absurd (hlow q e hm) hq
    unfold PageTable.lookup
    rw [if_pos (by unfold PGSIZE VA_MAX; omega), hnone]
    rfl

lemma node_of_walk (h : Tree mem table node m) {level n : Nat} (hn : PageTable.Node mem table level n) :
    level ≤ 2 ∧ ∃ s, node s = some n ∧ s.length + level = 2 := by
  induction hn with
  | root => exact ⟨le_refl 2, [], h.root, rfl⟩
  | @child level n i _ hi hv hl ih =>
    obtain ⟨hle, s, hs, hlen⟩ := ih
    rw [h.table s n hs (by omega) i hi] at hv ⊢
    cases hc : node (s ++ [i]) with
    | none =>
      rw [hc] at hv
      cases hv
    | some x =>
      rw [getPpn_encTable (h.child_lt hc)]
      refine ⟨by omega, s ++ [i], hc, ?_⟩
      rw [List.length_append, List.length_singleton]
      omega

end Tree

lemma grants_encLeaf {perm : Nat} {o : Option Entry} (hwf : ∀ e, o = some e → e.WF) (hp : perm &&& 0x3FF = perm) :
    Uvm.Grants perm (encLeaf o) ↔ ∃ f ∈ o.map Entry.flags, f &&& PTE_U ≠ 0 ∧ f &&& perm ≠ 0 := by
  cases o with
  | none =>
    refine iff_of_false (fun h => ?_) (by simp)
    have hv := h.1
    cases hv
  | some e =>
    have he := hwf e rfl
    have hflags : encLeaf (some e) &&& 0x3FF = e.flags := (Nat.and_two_pow_sub_one_eq_mod _ 10).trans he.mod
    have hbits : ∀ x, x &&& 0x3FF = x → encLeaf (some e) &&& x = e.flags &&& x := by
      intro x hx
      rw [← hflags, Uvm.and_flags _ hx]
    unfold Uvm.Grants
    rw [he.isValid, he.isLeaf, hbits PTE_U rfl, hbits perm hp]
    simp

variable {P : Profile} {ph₀ ph ph' : Phys} {fixed : PageMap} {table : Nat} {O : Nat → Prop} {old : Nat → Nat → Nat}
  {v : Picture} {node : List Nat → Option Nat} {m : PageMap} {used : Nat → Prop}

lemma Phys.byte_zero {n : Nat} (h : ph.mem n = fun _ => 0) (hoff : off < PGSIZE) : ph.byte (n * PGSIZE + off) = 0 := by
  have hpage : (n * PGSIZE + off) / PGSIZE = n := by
    unfold PGSIZE at *
    omega
  unfold byte
  rw [hpage, h]
  simp

lemma Phys.byte_congr {n : Nat} (h : ph'.mem n = ph.mem n) (hoff : off < PGSIZE) :
    ph'.byte (n * PGSIZE + off) = ph.byte (n * PGSIZE + off) := by
  have hpage : (n * PGSIZE + off) / PGSIZE = n := by
    unfold PGSIZE at *
    omega
  unfold byte
  rw [hpage, h]

/-! ### Reading -/

/-- Reading through the table reads the picture. -/
structure Reads (ph : Phys) (table : Nat) (v : Picture) : Prop where
  access : ∀ perm q, perm &&& 0x3FF = perm → (Uvm.Access ph.mem table perm q ↔ v.Allows perm q)
  byte : ∀ perm va, v.Allows perm (va / PGSIZE) → ph.byte (Uvm.translate ph.mem table va) = v.byte va

/-- A string with its end. -/
def Terminated (bs : List Nat) : Prop := bs.getLast? = some 0 ∧ ∀ b ∈ bs.dropLast, b ≠ 0

lemma exists_reads (ph : Phys) (table : Nat) : ∃ v, Reads ph table v := by
  refine ⟨⟨fun q => if isValid (Uvm.pteAt ph.mem table q) && isLeaf (Uvm.pteAt ph.mem table q) then some (Uvm.pteAt ph.mem table q &&& 0x3FF)
    else none, fun va => ph.byte (Uvm.translate ph.mem table va)⟩, fun perm q hp => ?_, fun _ _ _ => rfl⟩
  unfold Uvm.Access Uvm.Grants Picture.Allows
  dsimp only
  set pte := Uvm.pteAt ph.mem table q
  have hu : pte &&& 0x3FF &&& PTE_U = pte &&& PTE_U := Uvm.and_flags pte (by decide)
  by_cases hleaf : (isValid pte && isLeaf pte) = true
  · rw [if_pos hleaf]
    rw [Bool.and_eq_true] at hleaf
    simp [hleaf.1, hleaf.2, hu, Uvm.and_flags pte hp]
  · rw [if_neg hleaf]
    rw [Bool.and_eq_true] at hleaf
    refine iff_of_false (fun h => hleaf ⟨h.1, h.2.1⟩) ?_
    rintro ⟨f, hf, -⟩
    cases hf

lemma Terminated.ne_nil {bs : List Nat} (h : Terminated bs) : bs ≠ [] := by
  rintro rfl
  cases h.1

lemma Terminated.eq_nil {b : Nat} {bs : List Nat} (h : Terminated (b :: bs)) (hb : b = 0) : bs = [] := by
  cases bs with
  | nil => rfl
  | cons c cs => exact absurd hb (h.2 b List.mem_cons_self)

namespace Reads

variable {va n : Nat} {bs : List Nat}

lemma allows_iff (h : Reads ph table v) : (∀ i < n, Uvm.Access ph.mem table PTE_R ((va + i) / PGSIZE)) ↔ v.AllowsAll PTE_R va n :=
  forall₂_congr fun i _ => h.access PTE_R _ (by decide)

lemma load_ok (h : Reads ph table v) : Uvm.load ph table n va = .ok bs ↔ bs.length = n ∧ v.Holds va bs := by
  have hbytes : v.AllowsAll PTE_R va n → (List.range n).map (fun i => ph.byte (Uvm.translate ph.mem table (va + i))) =
      (List.range n).map fun i => v.byte (va + i) := by
    intro ha
    exact List.map_congr_left fun i hi => h.byte PTE_R _ (ha i (List.mem_range.mp hi))
  constructor
  · intro hload
    have ha := h.allows_iff.mp (Uvm.load_ok.mp ⟨bs, hload⟩)
    have hbs := Uvm.load_eq hload
    rw [hbytes ha] at hbs
    have hlen : bs.length = n := by
      rw [hbs, List.length_map, List.length_range]
    refine ⟨hlen, by rw [hlen]; exact ha, fun i hi => ?_⟩
    rw [List.getElem_of_eq hbs, List.getElem_map, List.getElem_range]
  · rintro ⟨rfl, ha, hv⟩
    obtain ⟨cs, hcs⟩ := Uvm.load_ok.mpr (h.allows_iff.mpr ha)
    rw [hcs, Uvm.load_eq hcs, hbytes ha]
    congr 1
    refine List.ext_getElem (by simp) fun i hi hi' => ?_
    rw [List.getElem_map, List.getElem_range, hv i hi']

lemma isString (h : Reads ph table v) (hv : v.Holds va bs) : Uvm.IsString ph table va bs.length ↔ Terminated bs := by
  have hbyte : ∀ i (hi : i < bs.length), ph.byte (Uvm.translate ph.mem table (va + i)) = bs[i] := by
    intro i hi
    rw [h.byte PTE_R _ (hv.1 i hi), hv.2 i hi]
  have hbefore : (∀ b ∈ bs.dropLast, b ≠ 0) ↔ ∀ i, i < bs.length - 1 → ∀ hi : i < bs.length, bs[i] ≠ 0 := by
    rw [List.forall_mem_iff_forall_getElem]
    simp only [List.length_dropLast, List.getElem_dropLast]
    exact ⟨fun h i hi _ => h i hi, fun h i hi => h i hi (by omega)⟩
  constructor
  · intro hs
    have hpos := hs.pos
    refine ⟨?_, hbefore.mpr fun i hi hi' => ?_⟩
    · rw [List.getLast?_eq_getElem?, List.getElem?_eq_getElem (by omega), ← hbyte _ (by omega), hs.ends]
    · rw [← hbyte i hi']
      exact hs.before i hi
  · rintro ⟨hlast, hne⟩
    have hpos : 0 < bs.length := List.length_pos_iff.mpr (Terminated.ne_nil ⟨hlast, hne⟩)
    refine ⟨hpos, h.allows_iff.mpr hv.1, ?_, fun i hi => ?_⟩
    · rw [List.getLast?_eq_getElem?, List.getElem?_eq_getElem (by omega), Option.some.injEq] at hlast
      rw [hbyte _ (by omega), hlast]
    · rw [hbyte i (by omega)]
      exact hbefore.mp hne i hi _

lemma loadStr_ok (h : Reads ph table v) : Uvm.loadStr ph table n va = .ok bs ↔ bs.length ≤ n ∧ Terminated bs ∧ v.Holds va bs := by
  constructor
  · intro hload
    obtain ⟨hlen, hstr, hall⟩ := Uvm.loadStr_ok hload
    have hv := (h.load_ok.mp hall).2
    exact ⟨hlen, (h.isString hv).mp hstr, hv⟩
  · rintro ⟨hlen, hterm, hv⟩
    obtain ⟨cs, hcs, hcl⟩ := ((h.isString hv).mpr hterm).loadStr hlen
    have hload := (Uvm.loadStr_ok hcs).2.2
    rw [hcl, h.load_ok.mpr ⟨rfl, hv⟩] at hload
    cases hload
    exact hcs

end Reads

namespace UserTable

section

variable (h : UserTable ph₀ ph fixed table node m used)
include h

lemma pteAt_eq (q : Nat) : Uvm.pteAt ph.mem table q = encLeaf (m q) :=
  h.space.tree.pteAt_eq h.low q

lemma wf (hm : m q = some e) : e.WF :=
  (h.space.tree.present q e hm).1

lemma translate_eq {va : Nat} (hm : m (va / PGSIZE) = some e) :
    Uvm.translate ph.mem table va = e.ppn * PGSIZE + va % PGSIZE := by
  unfold Uvm.translate
  rw [h.pteAt_eq, hm, pteToPa_encLeaf (h.wf hm)]

lemma access_iff (hf : ∀ q, v.flags q = (m q).map Entry.flags) {perm : Nat}
    (hp : perm &&& 0x3FF = perm) : Uvm.Access ph.mem table perm q ↔ v.Allows perm q := by
  unfold Uvm.Access Picture.Allows
  rw [h.pteAt_eq, hf, grants_encLeaf (fun e he => h.wf he) hp]

lemma leaf_of_allows (hf : ∀ q, v.flags q = (m q).map Entry.flags) {perm : Nat}
    (ha : v.Allows perm q) : ∃ e, m q = some e ∧ e.User ∧ userOwn ph₀ q e := by
  obtain ⟨f, hv, hu, -⟩ := ha
  rw [hf] at hv
  obtain ⟨e, hm, rfl⟩ := Option.map_eq_some_iff.mp hv
  have huser : e.User := by
    have hbit : e.flags &&& 2 ^ 4 ≠ 0 := hu
    rw [ne_eq, Nat.and_two_pow] at hbit
    unfold Entry.User
    cases hb : e.flags.testBit 4 with
    | true => rfl
    | false => simp [hb] at hbit
  exact ⟨e, hm, huser, h.owned hm huser⟩

lemma reads :
    Reads ph table ⟨fun q => (m q).map Entry.flags, fun va => ph.byte (Uvm.translate ph.mem table va)⟩ :=
  ⟨fun _ _ hp => h.access_iff (fun _ => rfl) hp, fun _ _ _ => rfl⟩

lemma reads_congr (hmem : ∀ n, userFoot ph₀ node m n → ph'.mem n = ph.mem n)
    (hr : Reads ph table v) : Reads ph' table v := by
  have htree : Tree ph'.mem table node m := h.space.tree.congr fun s n hs => hmem n (.inl ⟨s, hs⟩)
  have hpte : ∀ q, Uvm.pteAt ph'.mem table q = Uvm.pteAt ph.mem table q := fun q => by
    rw [htree.pteAt_eq h.low, h.pteAt_eq]
  have htrans : ∀ va, Uvm.translate ph'.mem table va = Uvm.translate ph.mem table va := fun va => by
    unfold Uvm.translate
    rw [hpte]
  have hacc : ∀ perm q, perm &&& 0x3FF = perm → (Uvm.Access ph'.mem table perm q ↔ v.Allows perm q) := by
    intro perm q hp
    unfold Uvm.Access
    rw [hpte]
    exact hr.access perm q hp
  refine ⟨hacc, fun perm va ha => ?_⟩
  -- any access to a page is an access in the way of one of the flags
  obtain ⟨f, hf, hu, -⟩ := ha
  have hu' : v.Allows PTE_U (va / PGSIZE) := ⟨f, hf, hu, hu⟩
  have hin := (h.reads.access PTE_U _ (by decide)).mp ((hr.access PTE_U _ (by decide)).mpr hu')
  obtain ⟨e, hm, -, hown⟩ := h.leaf_of_allows (fun _ => rfl) hin
  rw [htrans, ← hr.byte PTE_U va hu', h.translate_eq hm]
  exact Phys.byte_congr (hmem _ (.inr ⟨_, e, hm, hown, rfl⟩)) (Nat.mod_lt _ (by decide))

end

end UserTable

/-! ### Pictures -/

structure Depicts (ph₀ : Phys) (fixed : PageMap) (table : Nat) (O : Nat → Prop) (old : Nat → Nat → Nat) (ph : Phys) (v : Picture)
    (node : List Nat → Option Nat) (m : PageMap) (used : Nat → Prop) : Prop where
  table : UserTable ph₀ ph fixed table node m used
  flags : ∀ q, v.flags q = (m q).map Entry.flags
  bytes : ∀ q e off, m q = some e → e.User → off < PGSIZE → ph.byte (e.ppn * PGSIZE + off) = v.byte (q * PGSIZE + off)
  blank : ∀ q off, m q = none → off < PGSIZE → v.byte (q * PGSIZE + off) = 0
  others : ∀ n, O n → used n ∧ ¬userFoot ph₀ node m n ∧ ph.mem n = old n

/-- The table shows the picture. -/
def Shows (ph₀ : Phys) (fixed : PageMap) (table : Nat) (O : Nat → Prop) (old : Nat → Nat → Nat) (ph : Phys) (v : Picture) : Prop :=
  ∃ node m used, Depicts ph₀ fixed table O old ph v node m used

namespace Depicts

section

variable (h : Depicts ph₀ fixed table O old ph v node m used)
include h

lemma access_iff {perm : Nat} (hp : perm &&& 0x3FF = perm) :
    Uvm.Access ph.mem table perm q ↔ v.Allows perm q :=
  h.table.access_iff h.flags hp

lemma leaf_of_allows {perm : Nat} (ha : v.Allows perm q) :
    ∃ e, m q = some e ∧ e.User ∧ userOwn ph₀ q e :=
  h.table.leaf_of_allows h.flags ha

lemma reads : Reads ph table v := by
  refine ⟨fun perm q hp => h.access_iff hp, fun perm va ha => ?_⟩
  obtain ⟨e, hm, hu, -⟩ := h.leaf_of_allows ha
  rw [h.table.translate_eq hm, h.bytes _ e _ hm hu (Nat.mod_lt _ (by decide)), Nat.div_add_mod']

lemma separate : Uvm.Separate ph.mem table := by
  intro q level n ha hn heq
  obtain ⟨e, hm, -, hown⟩ := h.leaf_of_allows ((h.access_iff (by decide)).mp ha)
  obtain ⟨-, s, hs, -⟩ := h.table.space.tree.node_of_walk hn
  rw [h.table.pteAt_eq, hm, (h.table.wf hm).getPpn] at heq
  exact h.table.space.apart q e s hm hown (by rw [heq]; exact hs)

lemma translate_inj {perm va va' : Nat} (ha : v.Allows perm (va / PGSIZE))
    (hm' : m (va' / PGSIZE) = some e) (hu' : e.User)
    (heq : Uvm.translate ph.mem table va = e.ppn * PGSIZE + va' % PGSIZE) : va = va' := by
  obtain ⟨e1, hm, hu, hown⟩ := h.leaf_of_allows ha
  rw [h.table.translate_eq hm] at heq
  have hlt : va % PGSIZE < PGSIZE := Nat.mod_lt _ (by decide)
  have hlt' : va' % PGSIZE < PGSIZE := Nat.mod_lt _ (by decide)
  have hppn : e1.ppn = e.ppn := by
    unfold PGSIZE at *
    omega
  have hq := h.table.space.unique _ _ e1 e hm hm' hown (h.table.owned hm' hu') hppn
  unfold PGSIZE at *
  omega

/-! ### Writing -/

lemma store (perm va : Nat) {bs : List Nat} (hb : ∀ b ∈ bs, b < 256)
    (ha : v.AllowsAll perm va bs.length) :
    Depicts ph₀ fixed table O old (ph.storeAt (Uvm.translate ph.mem table) va bs) (v.write va bs) node m used := by
  set ph' := ph.storeAt (Uvm.translate ph.mem table) va bs with hph'
  have hst := Phys.storeAt_stored (Uvm.translate ph.mem table) va ph hb
  -- every store is to a page that the table owns
  have hown : ∀ i < bs.length, ∃ e, m ((va + i) / PGSIZE) = some e ∧ e.User ∧ userOwn ph₀ ((va + i) / PGSIZE) e ∧
      Uvm.translate ph.mem table (va + i) / PGSIZE = e.ppn := by
    intro i hi
    obtain ⟨e, hm, hu, ho⟩ := h.leaf_of_allows (ha i hi)
    refine ⟨e, hm, hu, ho, ?_⟩
    rw [h.table.translate_eq hm]
    have hlt : (va + i) % PGSIZE < PGSIZE := Nat.mod_lt _ (by decide)
    unfold PGSIZE at *
    omega
  have hmem : ∀ n, ¬(∃ q e, m q = some e ∧ userOwn ph₀ q e ∧ e.ppn = n) → ph'.mem n = ph.mem n := by
    intro n hn
    refine Phys.storeAt_mem_of_ne ph fun i hi heq => hn ?_
    obtain ⟨e, hm, -, ho, hp⟩ := hown i hi
    exact ⟨_, e, hm, ho, by rw [← hp, heq]⟩
  have hfoot : ∀ n, ¬userFoot ph₀ node m n → ph'.mem n = ph.mem n := by
    intro n hn
    exact hmem n fun ⟨q, e, hm, ho, hp⟩ => hn (.inr ⟨q, e, hm, ho, hp⟩)
  obtain ⟨free, hp⟩ := h.table.space.pmem
  obtain ⟨heff, hinv⟩ := Effect.write hp h.table.space.foot_used hfoot hst.region hst.pageRef
  have htree : Tree ph'.mem table node m := by
    refine h.table.space.tree.congr fun s n hs => hmem n ?_
    rintro ⟨q, e, hm, ho, rfl⟩
    exact h.table.space.apart q e s hm ho hs
  refine ⟨⟨h.table.bounds.trans heff.region, ⟨⟨htree, ⟨free, hinv⟩, h.table.space.nodes⟩, h.table.space.leaf, h.table.space.unique,
    h.table.space.apart⟩, h.table.kernel, h.table.user, h.table.low⟩, h.flags, ?_, ?_, fun n hn => ?_⟩
  · intro q e off hm hu hoff
    have hpage : (q * PGSIZE + off) / PGSIZE = q ∧ (q * PGSIZE + off) % PGSIZE = off := by
      unfold PGSIZE at *
      omega
    by_cases hin : va ≤ q * PGSIZE + off ∧ q * PGSIZE + off < va + bs.length
    · obtain ⟨i, hi⟩ : ∃ i, q * PGSIZE + off = va + i := ⟨q * PGSIZE + off - va, by omega⟩
      have hlt : i < bs.length := by omega
      have haddr : e.ppn * PGSIZE + off = Uvm.translate ph.mem table (va + i) := by
        rw [← hi, h.table.translate_eq (by rw [hpage.1]; exact hm), hpage.2]
      rw [haddr, hi, Picture.byte_write hlt]
      refine hst.bytes i hlt fun j hij hj heq => ?_
      obtain ⟨e', hm', hu', -, -⟩ := hown i hlt
      have hsame := h.translate_inj (ha j hj) hm' hu' (by rw [heq, h.table.translate_eq hm'])
      omega
    · rw [Picture.byte_write_of_not hin, ← h.bytes q e off hm hu hoff]
      refine hst.other _ fun i hi heq => hin ?_
      have hsame := @translate_inj e _ _ _ _ _ _ _ _ _ _ h perm (va + i) (q * PGSIZE + off) (ha i hi)
        (by rw [hpage.1]; exact hm) hu (by rw [heq, hpage.2])
      omega
  · intro q off hm hoff
    rw [Picture.byte_write_of_not, h.blank q off hm hoff]
    rintro ⟨hlow, hhigh⟩
    obtain ⟨e, hm', -⟩ := hown (q * PGSIZE + off - va) (by omega)
    rw [show (va + (q * PGSIZE + off - va)) / PGSIZE = q by unfold PGSIZE at *; omega, hm] at hm'
    cases hm'
  · obtain ⟨hu, hf, ho⟩ := h.others n hn
    exact ⟨hu, hf, (hfoot n hf).trans ho⟩

lemma grow {b : Bool} {pa flags : Nat} {ph1 ph2 : Phys} (hf : isLeaf flags = true)
    (hu : flags.testBit 4 = true) (hlt : flags < 2 ^ 10) (hq : q < 2 ^ 26) (ha : Pmem.alloc false ph = .ok (pa, ph1))
    (hph2 : ph2 = ph1.zeroPage (pa / PGSIZE)) (he : PageTable.map P table (q * PGSIZE) pa PGSIZE flags ph2 = .ok (b, ph')) :
    b = (v.flags q).isNone ∧ (b = true → Shows ph₀ fixed table O old ph' (v.map q flags)) := by
  have hmem : ∀ x, x ≠ pa / PGSIZE → ph2.mem x = ph1.mem x := by
    intro x hx
    rw [hph2]
    exact update_of_ne hx _ _
  have hnone : (v.flags q).isNone = decide (m q = none) := by
    rw [h.flags]
    cases m q <;> rfl
  obtain ⟨-, hb, hgrow⟩ := h.table.space.growFilled hf hq (fun n hn hlt => h.table.own_new hu hn hlt) (fun e hm => h.table.used_or hm)
    ha hmem (by rw [hph2]; rfl) (by rw [hph2]; rfl) he
  refine ⟨by rw [hnone, hb], fun hbt => ?_⟩
  have hm0 : m q = none := by
    rw [hb] at hbt
    exact of_decide_eq_true hbt
  obtain ⟨node', used', n, -, hn, hzero, hspace, hg⟩ := hgrow hm0
  have hzero : ph'.mem n = fun _ => 0 := by
    rw [hzero, hph2]
    exact update_self ..
  have hppn : (Entry.new n (flags ||| PTE_V)).ppn = n := Nat.mod_eq_of_lt (by omega)
  have hbits : (Entry.new n (flags ||| PTE_V)).flags = flags ||| PTE_V := by
    refine Nat.mod_eq_of_lt ?_
    exact Nat.or_lt_two_pow hlt (by decide)
  have htable := h.table.grown hspace hg fun q' hq' => by
    rw [hq']
    exact hq
  -- what was in use and is no table stays as it is
  have hkept : ∀ x, used x → (∀ s, node s ≠ some x) → (∀ s, node' s ≠ some x) ∧ ph'.mem x = ph.mem x := by
    intro x hx hs
    have hs' : ∀ s, node' s ≠ some x := by
      intro s hs'
      rcases hg.fresh s x hs' with h' | h'
      · exact hs s h'
      · exact h' hx
    exact ⟨hs', hg.mem x hx hs'⟩
  refine ⟨node', _, used', htable, fun q' => ?_, fun q' e off hm hu' hoff => ?_, fun q' off hm hoff => ?_, fun x hx => ?_⟩
  · unfold Picture.map
    dsimp only
    by_cases hqq : q' = q
    · rw [hqq, update_self, update_self, Option.map_some, hbits]
    · rw [update_of_ne hqq, update_of_ne hqq, h.flags]
  · rw [Picture.map_byte]
    by_cases hqq : q' = q
    · subst hqq
      rw [update_self, Option.some.injEq] at hm
      subst hm
      rw [hppn, Phys.byte_zero hzero hoff, h.blank q' off hm0 hoff]
    · rw [update_of_ne hqq] at hm
      have hown := h.table.owned hm hu'
      obtain ⟨-, hsame⟩ := hkept e.ppn (h.table.space.leaf q' e hm hown) (h.table.space.apart q' e · hm hown)
      rw [Phys.byte_congr hsame hoff, h.bytes q' e off hm hu' hoff]
  · by_cases hqq : q' = q
    · subst hqq
      rw [update_self] at hm
      cases hm
    · rw [update_of_ne hqq] at hm
      exact h.blank q' off hm hoff
  · obtain ⟨hused, hfoot, hold⟩ := h.others x hx
    obtain ⟨hs', hsame⟩ := hkept x hused fun s hs => hfoot (.inl ⟨s, hs⟩)
    refine ⟨hg.takes.uses x hused, ?_, hsame.trans hold⟩
    rintro (⟨s, hs⟩ | ⟨q', e, hm, ho, rfl⟩)
    · exact hs' s hs
    · by_cases hqq : q' = q
      · subst hqq
        obtain ⟨-, e', hm', -, hnew⟩ := hg.new q' rfl
        rw [hm] at hm'
        cases hm'
        exact hnew hused
      · rw [update_of_ne hqq] at hm
        exact hfoot (.inr ⟨q', e, hm, ho, rfl⟩)

end

end Depicts

namespace Shows

section

variable (h : Shows ph₀ fixed table O old ph v)
include h

/-- `copyout` writes all of the bytes if the user may write at all of their addresses, and some of them otherwise. -/
lemma copyout (P : Profile) (va : Nat) {src : List Nat} (hb : ∀ b ∈ src, b < 256) :
    ∃ r ph', Uvm.copyout P table va src ph = .ok (r, ph') ∧ (r = .ok () ↔ v.AllowsAll PTE_W va src.length) ∧
      (r = .ok () → Shows ph₀ fixed table O old ph' (v.write va src)) ∧ ∃ k, Shows ph₀ fixed table O old ph' (v.write va (src.take k)) := by
  obtain ⟨node, m, used, h⟩ := h
  have hacc : ∀ i, Uvm.Access ph.mem table PTE_W ((va + i) / PGSIZE) ↔ v.Allows PTE_W ((va + i) / PGSIZE) :=
    fun i => h.access_iff (by decide)
  obtain ⟨r, k, hk, hrun, hin, hok, herr⟩ := @Uvm.copyoutFrom_eq P ph _ _ va _ _ (le_refl src.length) h.separate fun _ _ _ => rfl
  have hlen : (src.take k).length = k := by
    rw [List.length_take]
    omega
  have htake : ∀ b ∈ src.take k, b < 256 := fun b hb' => hb b (List.mem_of_mem_take hb')
  have hstore := h.store PTE_W va htake fun i hi => (hacc i).mp (hin i (by rwa [hlen] at hi))
  have hall : r = .ok () → src.take k = src := fun hr => List.take_of_length_le (hok hr).ge
  refine ⟨r, _, hrun, ⟨fun hr i hi => ?_, fun ha => ?_⟩, fun hr => ?_, k, node, m, used, hstore⟩
  · refine (hacc i).mp (hin i ?_)
    rw [hok hr]
    exact hi
  · by_contra hr
    obtain ⟨hlt, hno, -⟩ := herr hr
    exact hno ((hacc k).mpr (ha k hlt))
  · rw [hall hr] at hstore ⊢
    exact ⟨node, m, used, hstore⟩

lemma reads : Reads ph table v := by
  obtain ⟨node, m, used, h⟩ := h
  exact h.reads

lemma others {n : Nat} (hn : O n) : ph.mem n = old n := by
  obtain ⟨node, m, used, h⟩ := h
  exact (h.others n hn).2.2

lemma access_iff {perm : Nat} (hp : perm &&& 0x3FF = perm) :
    Uvm.Access ph.mem table perm q ↔ v.Allows perm q := by
  obtain ⟨node, m, used, h⟩ := h
  exact h.access_iff hp

end

end Shows

/-- The table is one that the kernel gives to a process, with any contents of the pages. -/
def UserPaged (ph : Phys) (table : Nat) : Prop :=
  ∃ ph₀ fixed node m used, UserTable ph₀ ph fixed table node m used

lemma UserPaged.shows (h : UserPaged ph table) :
    ∃ ph₀ fixed v, Shows ph₀ fixed table (fun _ => False) ph.mem ph v := by
  obtain ⟨ph₀, fixed, node, m, used, h⟩ := h
  refine ⟨ph₀, fixed, ⟨fun q => (m q).map Entry.flags, fun va => if m (va / PGSIZE) = none then 0 else
    ph.byte (Uvm.translate ph.mem table va)⟩, node, m, used, h, fun _ => rfl, fun q e off hm _ hoff => ?_, fun q off hm hoff => ?_,
    fun _ => False.elim⟩
  · have hq : (q * PGSIZE + off) / PGSIZE = q := by
      unfold PGSIZE at *
      omega
    have hmod : (q * PGSIZE + off) % PGSIZE = off := by
      unfold PGSIZE at *
      omega
    have hm' : m ((q * PGSIZE + off) / PGSIZE) = some e := by rw [hq, hm]
    dsimp only
    rw [if_neg (by rw [hm']; exact nofun), h.translate_eq hm', hmod]
  · refine if_pos ?_
    rw [← hm]
    congr 1
    unfold PGSIZE at *
    omega

/-! ### The first table -/

lemma vpn_low (hq : q < 512) : vpn (q * PGSIZE) 2 = 0 ∧ vpn (q * PGSIZE) 1 = 0 := by
  rw [vpn_eq, vpn_eq]
  unfold PGSIZE
  omega

lemma Depicts.lookup_low (h : Depicts ph₀ fixed table O old ph v node m used) (hq : q < 512) :
    PageTable.lookup ph.mem table (q * PGSIZE) = none ↔ node [0, 0] = none := by
  rw [h.table.space.tree.lookup_eq (by unfold PGSIZE VA_MAX; omega), (vpn_low hq).1, (vpn_low hq).2, Option.map_eq_none_iff]

lemma Shows.flags_low (h : Shows ph₀ fixed table O old ph v) (hq : q < 512) (hx : x < 512)
    (hnone : PageTable.lookup ph.mem table (q * PGSIZE) = none) : v.flags x = none := by
  obtain ⟨node, m, used, h⟩ := h
  have habsent := h.table.space.tree.absent ((h.lookup_low hq).mp hnone) (by decide) hx
  rw [show pageNo [0, 0] x = x by simp [pageNo]] at habsent
  rw [h.flags, habsent]
  rfl

lemma Shows.lookup_low_iff (h : Shows ph₀ fixed table O old ph v) (hq : q < 512) (hx : x < 512) :
    PageTable.lookup ph.mem table (q * PGSIZE) = none ↔ PageTable.lookup ph.mem table (x * PGSIZE) = none := by
  obtain ⟨node, m, used, h⟩ := h
  rw [h.lookup_low hq, h.lookup_low hx]

end Glenda.Mem
