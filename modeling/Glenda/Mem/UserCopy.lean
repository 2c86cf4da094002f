import Glenda.Mem.UserSpace

/-!
# Copies from and to user memory

`copyin`, `copyout` and `copyin_str` translate once for each page. They are compared here with byte-wise accesses that
translate every address: `load` and `loadStr` read, `Stored` says what a series of stores leaves. Memory is arbitrary, so
a table may be any tree of pages that `lookup` can walk; copies into it are compared only if the tree does not lie in the
pages that are written.
-/

namespace Glenda.Mem
open Glenda.Lib

variable {f : Nat → Nat} {bs : List Nat} {level k fuel : Nat}

/-! ### Bytes of words -/

lemma replaceByte_byte (w b : Nat) (k j : Nat) :
    replaceByte w k b / 256 ^ j % 256 = if j = k then b % 256 else w / 256 ^ j % 256 := by
  have hpos : ∀ e, 0 < 256 ^ e := fun e => Nat.pow_pos (by decide)
  have hrest : w % 256 ^ k < 256 ^ k := Nat.mod_lt _ (hpos k)
  have hsucc : 256 ^ (k + 1) = 256 ^ k * 256 := Nat.pow_succ ..
  have hhigh : replaceByte w k b / 256 ^ k = w / 256 ^ (k + 1) * 256 + b % 256 := by
    unfold replaceByte
    rw [hsucc, ← Nat.mul_assoc, Nat.mul_right_comm, ← Nat.add_mul, Nat.mul_comm _ (256 ^ k),
      Nat.mul_add_div (hpos k), Nat.div_eq_of_lt hrest, Nat.add_zero]
  rcases Nat.lt_trichotomy j k with hlt | rfl | hgt
  · rw [if_neg (by omega)]
    -- The bytes below `k` are those of the remainder.
    obtain ⟨d, rfl⟩ : ∃ d, k = j + 1 + d := ⟨k - (j + 1), by omega⟩
    have hmod : replaceByte w (j + 1 + d) b % 256 ^ (j + 1 + d) = w % 256 ^ (j + 1 + d) := by
      unfold replaceByte
      rw [hsucc, ← Nat.mul_assoc, Nat.mul_right_comm, ← Nat.add_mul, Nat.mul_comm _ (256 ^ (j + 1 + d)), Nat.mul_add_mod,
        Nat.mod_mod]
    have hlow : ∀ x : Nat, x / 256 ^ j % 256 = x % 256 ^ (j + 1 + d) % 256 ^ (j + 1) / 256 ^ j := by
      intro x
      rw [Nat.mod_mod_of_dvd _ (Nat.pow_dvd_pow 256 (by omega)), Nat.pow_succ, Nat.mod_mul_right_div_self]
    rw [hlow, hlow w, hmod]
  · rw [if_pos rfl, hhigh]
    omega
  · rw [if_neg (by omega)]
    obtain ⟨d, rfl⟩ : ∃ d, j = k + 1 + d := ⟨j - (k + 1), by omega⟩
    have hword : replaceByte w k b / 256 ^ (k + 1) = w / 256 ^ (k + 1) := by
      rw [hsucc, ← Nat.div_div_eq_div_mul, hhigh, ← hsucc]
      omega
    rw [Nat.pow_add _ (k + 1), ← Nat.div_div_eq_div_mul, hword, Nat.div_div_eq_div_mul]

namespace Phys

lemma byte_setByte (ph : Phys) (pa b pa' : Nat) : (ph.setByte pa b).byte pa' = if pa' = pa then b % 256 else ph.byte pa' := by
  unfold byte setByte setWord
  dsimp only
  by_cases hpage : pa' / PGSIZE = pa / PGSIZE
  · rw [hpage, Function.update_self]
    by_cases hword : pa' % PGSIZE / 8 = pa % PGSIZE / 8
    · rw [hword, Function.update_self, replaceByte_byte]
      have heq : pa' % 8 = pa % 8 ↔ pa' = pa := by
        unfold PGSIZE at *
        omega
      simp only [heq]
    · rw [Function.update_of_ne hword, if_neg]
      rintro rfl
      exact hword rfl
  · rw [Function.update_of_ne hpage, if_neg]
    rintro rfl
    exact hpage rfl

lemma readBytes_succ (ph : Phys) (pa n : Nat) : ph.readBytes pa (n + 1) = ph.byte pa :: ph.readBytes (pa + 1) n := by
  unfold readBytes
  rw [List.range_succ_eq_map, List.map_cons, List.map_map, Nat.add_zero]
  congr 1
  refine List.map_congr_left fun i _ => ?_
  simp only [Function.comp_apply]
  rw [Nat.add_assoc, Nat.add_comm 1]

/-- One store for each byte, at the addresses that `f` gives. -/
def storeAt (f : Nat → Nat) : Nat → List Nat → Phys → Phys
  | _, [], ph => ph
  | va, b :: bs, ph => storeAt f (va + 1) bs (ph.setByte (f va) b)

/-- The bytes `bs` stand at the addresses that `f` gives for `va`, `va + 1` and so on, unless one of them was written
again, and nothing else has changed. -/
structure Stored (f : Nat → Nat) (va : Nat) (bs : List Nat) (ph ph' : Phys) : Prop where
  bytes : ∀ i (h : i < bs.length), (∀ j, i < j → j < bs.length → f (va + j) ≠ f (va + i)) → ph'.byte (f (va + i)) = bs[i]
  other : ∀ pa, (∀ i < bs.length, f (va + i) ≠ pa) → ph'.byte pa = ph.byte pa
  region : ph'.region = ph.region
  pageRef : ph'.pageRef = ph.pageRef

lemma storeAt_append (f : Nat → Nat) (va : Nat) (bs cs : List Nat) (ph : Phys) :
    storeAt f va (bs ++ cs) ph = storeAt f (va + bs.length) cs (storeAt f va bs ph) := by
  induction bs generalizing va ph with
  | nil => rfl
  | cons b bs ih =>
    rw [List.cons_append, storeAt, storeAt, ih, List.length_cons, Nat.add_assoc, Nat.add_comm 1]

lemma storeAt_byte_of_ne {va pa : Nat} (ph : Phys) (h : ∀ i < bs.length, f (va + i) ≠ pa) :
    (storeAt f va bs ph).byte pa = ph.byte pa := by
  induction bs generalizing va ph with
  | nil => rfl
  | cons b bs ih =>
    rw [storeAt, ih, byte_setByte, if_neg]
    · intro he
      exact h 0 (by simp) he.symm
    · intro i hi
      rw [Nat.add_assoc, Nat.add_comm 1]
      exact h (i + 1) (by simpa using hi)

lemma storeAt_fields (f : Nat → Nat) (va : Nat) (bs : List Nat) (ph : Phys) :
    (storeAt f va bs ph).region = ph.region ∧ (storeAt f va bs ph).pageRef = ph.pageRef := by
  induction bs generalizing va ph with
  | nil => exact ⟨rfl, rfl⟩
  | cons b bs ih => exact ih _ _

lemma storeAt_mem_of_ne {va n : Nat} (ph : Phys) (h : ∀ i < bs.length, f (va + i) / PGSIZE ≠ n) :
    (storeAt f va bs ph).mem n = ph.mem n := by
  induction bs generalizing va ph with
  | nil => rfl
  | cons b bs ih =>
    rw [storeAt, ih]
    · exact Function.update_of_ne (Ne.symm (h 0 (by simp))) _ _
    · intro i hi
      rw [Nat.add_assoc, Nat.add_comm 1]
      exact h (i + 1) (by simpa using hi)

lemma storeAt_stored (f : Nat → Nat) (va : Nat) (ph : Phys) (hb : ∀ b ∈ bs, b < 256) :
    Stored f va bs ph (storeAt f va bs ph) := by
  refine ⟨?_, fun pa => storeAt_byte_of_ne ph, (storeAt_fields f va bs ph).1, (storeAt_fields f va bs ph).2⟩
  intro i hi hlast
  -- The stores up to `i`, the store of the byte itself, and the later ones, which leave it alone.
  have hsplit : bs = bs.take i ++ bs[i] :: bs.drop (i + 1) := by
    rw [List.cons_getElem_drop_succ, List.take_append_drop]
  have hlen : (bs.take i).length = i := by
    rw [List.length_take]
    omega
  have hrun : storeAt f va bs ph =
      storeAt f (va + i + 1) (bs.drop (i + 1)) ((storeAt f va (bs.take i) ph).setByte (f (va + i)) bs[i]) := by
    conv_lhs => rw [hsplit]
    rw [storeAt_append, hlen, storeAt]
  rw [hrun, storeAt_byte_of_ne, byte_setByte, if_pos rfl, Nat.mod_eq_of_lt (hb _ (List.getElem_mem hi))]
  intro j hj
  rw [List.length_drop] at hj
  rw [Nat.add_assoc (va + i), Nat.add_assoc va]
  exact hlast (i + (1 + j)) (by omega) (by omega)

lemma storeAt_writeBytes {va pa : Nat} (ph : Phys) (h : ∀ i < bs.length, f (va + i) = pa + i) :
    storeAt f va bs ph = ph.writeBytes pa bs := by
  induction bs generalizing va pa ph with
  | nil => rfl
  | cons b bs ih =>
    have hfirst : f va = pa := h 0 (by simp)
    rw [storeAt, writeBytes, hfirst, ih]
    intro i hi
    rw [Nat.add_assoc, Nat.add_assoc, Nat.add_comm 1]
    exact h (i + 1) (by simpa using hi)

end Phys

/-! ### Tables -/

namespace PageTable

/-- The pages that hold tables of the tree under `table`, with their levels. -/
inductive Node (mem : Nat → Nat → Nat) (table : Nat) : Nat → Nat → Prop
  | root : Node mem table 2 table
  | child {level n i : Nat} (h : Node mem table (level + 1) n) (hi : i < 512) (hv : isValid (mem n i) = true)
      (hl : isLeaf (mem n i) = false) : Node mem table level (getPpn (mem n i))

variable {mem mem' : Nat → Nat → Nat} {table va : Nat}

lemma vpn_lt_512 (va level : Nat) : vpn va level < 512 := by
  rw [vpn_eq]
  exact Nat.mod_lt _ (by decide)

lemma lookupFrom_congr (h : ∀ level n, Node mem table level n → mem' n = mem n) {n : Nat} (hn : Node mem table level n) :
    lookupFrom mem' va level n = lookupFrom mem va level n ∧
      ∀ x i, lookupFrom mem va level n = some (x, i) → mem' x = mem x := by
  induction level generalizing n with
  | zero =>
    refine ⟨rfl, ?_⟩
    intro x i hx
    cases hx
    exact h 0 n hn
  | succ level ih =>
    rw [lookupFrom, lookupFrom, h _ n hn]
    split_ifs with hv hl hp
    · exact ⟨rfl, fun x i hx => by cases hx⟩
    · exact ⟨rfl, fun x i hx => by cases hx⟩
    · exact ih (.child hn (vpn_lt_512 va (level + 1)) hv (by simpa using hl))
    · exact ⟨rfl, fun x i hx => by cases hx⟩

end PageTable

namespace Uvm

/-! ### Translation of addresses -/

/-- The entry that `lookup` finds for the page `q`, or 0. -/
def pteAt (mem : Nat → Nat → Nat) (table q : Nat) : Nat :=
  match PageTable.lookup mem table (q * PGSIZE) with
  | none => 0
  | some (n, i) => mem n i

/-- A valid leaf entry with the flags `U` and `perm`. -/
def Grants (perm pte : Nat) : Prop := isValid pte = true ∧ isLeaf pte = true ∧ pte &&& PTE_U ≠ 0 ∧ pte &&& perm ≠ 0

instance (perm pte : Nat) : Decidable (Grants perm pte) := inferInstanceAs (Decidable (_ ∧ _))

abbrev Access (mem : Nat → Nat → Nat) (table perm q : Nat) : Prop := Grants perm (pteAt mem table q)

def translate (mem : Nat → Nat → Nat) (table va : Nat) : Nat := pteToPa (pteAt mem table (va / PGSIZE)) + va % PGSIZE

/-- No table of the tree lies in a page that the user may write. -/
def Separate (mem : Nat → Nat → Nat) (table : Nat) : Prop :=
  ∀ q level n, Access mem table PTE_W q → PageTable.Node mem table level n → getPpn (pteAt mem table q) ≠ n

/-- No two pages have leaves with the same physical page. -/
def Unshared (mem : Nat → Nat → Nat) (table : Nat) : Prop :=
  ∀ q q', isValid (pteAt mem table q) = true → isValid (pteAt mem table q') = true →
    getPpn (pteAt mem table q) = getPpn (pteAt mem table q') → q = q'

variable {P : Profile} {ph ph' : Phys} {mem mem' : Nat → Nat → Nat} {table va n perm pa : Nat}

lemma pageOffset_eq (va : Nat) : pageOffset va = va % PGSIZE := Nat.and_two_pow_sub_one_eq_mod va 12

lemma alignDown_page (va : Nat) : alignDown va = va / PGSIZE * PGSIZE := alignDown_eq va

lemma and_flags (pte : Nat) (h : perm &&& 0x3FF = perm) : pte &&& 0x3FF &&& perm = pte &&& perm := by
  rw [Nat.and_assoc, Nat.and_comm 0x3FF, h]

lemma userPage_eq (hp : perm &&& 0x3FF = perm) : userPage mem table va perm =
    if Grants perm (pteAt mem table (va / PGSIZE)) then .ok (pteToPa (pteAt mem table (va / PGSIZE)))
    else if isValid (pteAt mem table (va / PGSIZE)) ∧ isLeaf (pteAt mem table (va / PGSIZE)) then .error .noPerm
    else .error .notMapped := by
  have hcheck : userPage mem table va perm =
      if !isValid (pteAt mem table (va / PGSIZE)) || !isLeaf (pteAt mem table (va / PGSIZE)) then .error .notMapped
      else if pteAt mem table (va / PGSIZE) &&& 0x3FF &&& 0xE = 0 then .error .notMapped
      else if pteAt mem table (va / PGSIZE) &&& 0x3FF &&& PTE_U = 0 ∨ pteAt mem table (va / PGSIZE) &&& 0x3FF &&& perm = 0 then
        .error .noPerm
      else .ok (pteToPa (pteAt mem table (va / PGSIZE))) := by
    unfold userPage pteAt
    rw [alignDown_page]
    cases PageTable.lookup mem table (va / PGSIZE * PGSIZE) with
    | none => exact (if_pos (show (!isValid 0 || !isLeaf 0) = true from rfl)).symm
    | some r => rfl
  rw [hcheck]
  generalize pteAt mem table (va / PGSIZE) = pte
  have hleaf : isLeaf pte = decide (pte &&& 0xE ≠ 0) := rfl
  rw [and_flags _ (show 0xE &&& 0x3FF = 0xE from rfl), and_flags _ (show PTE_U &&& 0x3FF = PTE_U from rfl), and_flags _ hp]
  cases hv : isValid pte with
  | false => simp [Grants, hv]
  | true =>
    cases hl : isLeaf pte with
    | false => simp [Grants, hl]
    | true =>
      have hne : pte &&& 0xE ≠ 0 := by
        rw [hleaf] at hl
        exact of_decide_eq_true hl
      by_cases hu : pte &&& PTE_U = 0
      · simp [Grants, hv, hl, hu, hne]
      · by_cases hperm : pte &&& perm = 0
        · simp [Grants, hv, hl, hperm, hne]
        · simp [Grants, hv, hl, hu, hperm, hne]

lemma userPage_ok_iff (hp : perm &&& 0x3FF = perm) : userPage mem table va perm = .ok pa ↔
    Access mem table perm (va / PGSIZE) ∧ pa = pteToPa (pteAt mem table (va / PGSIZE)) := by
  rw [userPage_eq hp]
  split_ifs with ha hv
  · simp [ha, eq_comm]
  · simp [ha]
  · simp [ha]

lemma userPage_not_tooLong (hp : perm &&& 0x3FF = perm) : userPage mem table va perm ≠ .error .tooLong := by
  rw [userPage_eq hp]
  split_ifs <;> simp

lemma Access.va_lt (h : Access mem table perm (va / PGSIZE)) : va < VA_MAX := by
  by_contra hge
  have hle : VA_MAX ≤ va / PGSIZE * PGSIZE := by
    have hv : VA_MAX = 2 ^ 26 * PGSIZE := rfl
    unfold PGSIZE at *
    omega
  have hnone : pteAt mem table (va / PGSIZE) = 0 := by
    unfold pteAt PageTable.lookup
    rw [if_pos hle]
  have hvalid := h.1
  rw [hnone] at hvalid
  cases hvalid

lemma page_add (h : va % PGSIZE + k < PGSIZE) : (va + k) / PGSIZE = va / PGSIZE ∧ (va + k) % PGSIZE = va % PGSIZE + k := by
  unfold PGSIZE at *
  omega

lemma translate_add (h : va % PGSIZE + k < PGSIZE) : translate mem table (va + k) = translate mem table va + k := by
  unfold translate
  rw [(page_add h).1, (page_add h).2, Nat.add_assoc]

/-! ### Reading -/

/-- `n` bytes, each one translated for itself, up to the first that cannot be read. -/
def load (ph : Phys) (table : Nat) : Nat → Nat → Except CopyError (List Nat)
  | 0, _ => .ok []
  | n + 1, va =>
    match userPage ph.mem table va PTE_R with
    | .error e => .error e
    | .ok pa => (load ph table n (va + 1)).map (ph.byte (pa + va % PGSIZE) :: ·)

/-- The bytes up to the first zero, among at most `n`. -/
def loadStr (ph : Phys) (table : Nat) : Nat → Nat → Except CopyError (List Nat)
  | 0, _ => .error .tooLong
  | n + 1, va =>
    match userPage ph.mem table va PTE_R with
    | .error e => .error e
    | .ok pa =>
      if ph.byte (pa + va % PGSIZE) = 0 then .ok [0]
      else (loadStr ph table n (va + 1)).map (ph.byte (pa + va % PGSIZE) :: ·)

lemma userPage_add (h : va % PGSIZE + k < PGSIZE) : userPage mem table (va + k) perm = userPage mem table va perm := by
  unfold userPage
  rw [alignDown_page, alignDown_page, (page_add h).1]

lemma load_page (hp : userPage ph.mem table va PTE_R = .ok pa) (hk : va % PGSIZE + k ≤ PGSIZE) (n : Nat) :
    load ph table (k + n) va = (load ph table n (va + k)).map (ph.readBytes (pa + va % PGSIZE) k ++ ·) := by
  induction k generalizing va with
  | zero =>
    rw [Nat.zero_add, Nat.add_zero]
    cases load ph table n va <;> rfl
  | succ k ih =>
    rw [Nat.add_right_comm, load, hp]
    dsimp only
    rw [Phys.readBytes_succ]
    by_cases hk0 : k = 0
    · subst hk0
      rw [Nat.zero_add]
      cases load ph table n (va + (0 + 1)) <;> rfl
    · have hin : va % PGSIZE + 1 < PGSIZE := by omega
      have hoff := (page_add hin).2
      rw [ih ((userPage_add hin).trans hp) (by omega), hoff, ← Nat.add_assoc pa, Nat.add_assoc va, Nat.add_comm 1 k]
      cases load ph table n (va + (k + 1)) <;> rfl

lemma copyinFrom_eq (hf : n ≤ fuel) : copyinFrom P table fuel n va ph = .ok (load ph table n va, ph) := by
  induction fuel generalizing n va with
  | zero =>
    obtain rfl : n = 0 := by omega
    rfl
  | succ fuel ih =>
    cases n with
    | zero => rfl
    | succ n =>
      rw [copyinFrom, K.bind_of_ok (K.get_apply ph)]
      cases hp : userPage ph.mem table va PTE_R with
      | error e =>
        rw [load, hp]
        rfl
      | ok pa =>
        have hva := ((userPage_ok_iff (by decide)).mp hp).1.va_lt
        have hoff : va % PGSIZE < PGSIZE := Nat.mod_lt _ (by decide)
        dsimp only
        rw [pageOffset_eq]
        generalize hk : min (PGSIZE - va % PGSIZE) (n + 1) = k
        have hlt : va + k < 2 ^ 64 := by
          unfold VA_MAX PGSIZE at *
          omega
        have hload := load_page hp (k := k) (by omega) (n + 1 - k)
        rw [show k + (n + 1 - k) = n + 1 by omega] at hload
        rw [addW_of_lt P hlt, K.bind_of_ok (K.pure_apply _ ph), K.bind_of_ok (ih (by omega)), hload]
        cases load ph table (n + 1 - k) (va + k) <;> rfl

lemma copyin_eq (P : Profile) (ph : Phys) (table n va : Nat) : copyin P table n va ph = .ok (load ph table n va, ph) :=
  copyinFrom_eq (le_refl n)

lemma load_ok : (∃ bs, load ph table n va = .ok bs) ↔ ∀ i < n, Access ph.mem table PTE_R ((va + i) / PGSIZE) := by
  induction n generalizing va with
  | zero => exact ⟨fun _ i hi => by omega, fun _ => ⟨[], rfl⟩⟩
  | succ n ih =>
    have hrest : (∀ i < n + 1, Access ph.mem table PTE_R ((va + i) / PGSIZE)) ↔
        Access ph.mem table PTE_R (va / PGSIZE) ∧ ∀ i < n, Access ph.mem table PTE_R ((va + 1 + i) / PGSIZE) := by
      constructor
      · intro h
        refine ⟨h 0 (by omega), fun i hi => ?_⟩
        rw [Nat.add_assoc, Nat.add_comm 1]
        exact h (i + 1) (by omega)
      · rintro ⟨h0, h⟩ i hi
        cases i with
        | zero => exact h0
        | succ i =>
          have hi' := h i (by omega)
          rwa [Nat.add_assoc, Nat.add_comm 1] at hi'
    rw [hrest, load]
    cases hp : userPage ph.mem table va PTE_R with
    | error e =>
      refine ⟨nofun, fun h => ?_⟩
      rw [(userPage_ok_iff (by decide)).mpr ⟨h.1, rfl⟩] at hp
      cases hp
    | ok pa =>
      have ha := ((userPage_ok_iff (by decide)).mp hp).1
      rw [← ih]
      cases load ph table n (va + 1) with
      | error e => exact ⟨nofun, fun h => h.2.elim nofun⟩
      | ok bs => exact ⟨fun _ => ⟨ha, bs, rfl⟩, fun _ => ⟨_, rfl⟩⟩

lemma load_eq (h : load ph table n va = .ok bs) :
    bs = (List.range n).map fun i => ph.byte (translate ph.mem table (va + i)) := by
  induction n generalizing va bs with
  | zero =>
    cases h
    rfl
  | succ n ih =>
    rw [load] at h
    cases hp : userPage ph.mem table va PTE_R with
    | error e =>
      rw [hp] at h
      cases h
    | ok pa =>
      rw [hp] at h
      obtain ⟨-, rfl⟩ := (userPage_ok_iff (by decide)).mp hp
      cases hl : load ph table n (va + 1) with
      | error e =>
        rw [hl] at h
        cases h
      | ok cs =>
        rw [hl] at h
        cases h
        rw [ih hl, List.range_succ_eq_map, List.map_cons, List.map_map, List.cons.injEq]
        refine ⟨rfl, List.map_congr_left fun i _ => ?_⟩
        simp only [Function.comp_apply]
        rw [Nat.add_assoc, Nat.add_comm 1]

/-! ### Writing -/

/-- The writes so far have left the tables alone. -/
def TablesKept (mem mem' : Nat → Nat → Nat) (table : Nat) : Prop := ∀ level x, PageTable.Node mem table level x → mem' x = mem x

lemma TablesKept.pteAt_eq (h : TablesKept mem mem' table) (q : Nat) : pteAt mem' table q = pteAt mem table q := by
  obtain ⟨hlook, hword⟩ := @PageTable.lookupFrom_congr _ _ _ _ (q * PGSIZE) h _ .root
  unfold pteAt PageTable.lookup
  by_cases hq : VA_MAX ≤ q * PGSIZE
  · rw [if_pos hq, if_pos hq]
  · rw [if_neg hq, if_neg hq, hlook]
    cases hr : PageTable.lookupFrom mem (q * PGSIZE) 2 table with
    | none => rfl
    | some r => exact congrFun (hword r.1 r.2 hr) r.2

lemma TablesKept.translate_eq (h : TablesKept mem mem' table) (va : Nat) : translate mem' table va = translate mem table va := by
  unfold translate
  rw [h.pteAt_eq]

lemma translate_div (mem : Nat → Nat → Nat) (table va : Nat) :
    translate mem table va / PGSIZE = getPpn (pteAt mem table (va / PGSIZE)) := by
  unfold translate
  rw [pteToPa_eq]
  unfold PGSIZE
  omega

lemma TablesKept.storeAt (h : TablesKept mem ph.mem table) (hsep : Separate mem table)
    (ha : ∀ i < bs.length, Access mem table PTE_W ((va + i) / PGSIZE)) :
    TablesKept mem (ph.storeAt (translate mem table) va bs).mem table := by
  intro level x hx
  rw [Phys.storeAt_mem_of_ne, h level x hx]
  intro i hi
  rw [translate_div]
  exact hsep _ level x (ha i hi) hx

lemma copyoutFrom_eq {fuel : Nat} {src : List Nat} (hf : src.length ≤ fuel) (hsep : Separate mem table)
    (hkept : TablesKept mem ph.mem table) :
    ∃ r, ∃ k ≤ src.length, copyoutFrom P table fuel src va ph = .ok (r, ph.storeAt (translate mem table) va (src.take k)) ∧
      (∀ i < k, Access mem table PTE_W ((va + i) / PGSIZE)) ∧ (r = .ok () → k = src.length) ∧
      (r ≠ .ok () → k < src.length ∧ ¬Access mem table PTE_W ((va + k) / PGSIZE) ∧ (k = 0 ∨ (va + k) % PGSIZE = 0)) := by
  induction fuel generalizing src va ph with
  | zero =>
    obtain rfl := List.length_eq_zero_iff.mp (Nat.le_zero.mp hf)
    exact ⟨.ok (), 0, le_refl 0, rfl, fun i hi => by omega, fun _ => rfl, fun h => absurd rfl h⟩
  | succ fuel ih =>
    cases src with
    | nil => exact ⟨.ok (), 0, le_refl 0, rfl, fun i hi => by omega, fun _ => rfl, fun h => absurd rfl h⟩
    | cons b bs =>
      rw [copyoutFrom, K.bind_of_ok (K.get_apply ph)]
      cases hp : userPage ph.mem table va PTE_W with
      | error e =>
        refine ⟨.error e, 0, by omega, rfl, fun i hi => by omega, (fun hr => by cases hr), fun _ => ⟨by simp, fun ha => ?_, .inl rfl⟩⟩
        rw [Nat.add_zero, Access, ← hkept.pteAt_eq] at ha
        rw [(userPage_ok_iff (by decide)).mpr ⟨ha, rfl⟩] at hp
        cases hp
      | ok pa =>
        obtain ⟨ha, rfl⟩ := (userPage_ok_iff (by decide)).mp hp
        have hva := ha.va_lt
        have hoff : va % PGSIZE < PGSIZE := Nat.mod_lt _ (by decide)
        rw [Access, hkept.pteAt_eq] at ha
        dsimp only
        rw [pageOffset_eq, hkept.pteAt_eq]
        generalize hk : min (PGSIZE - va % PGSIZE) (bs.length + 1) = k
        have hlt : va + k < 2 ^ 64 := by
          unfold VA_MAX PGSIZE at *
          omega
        have hlen : ((b :: bs).take k).length = k := by
          rw [List.length_take, List.length_cons]
          omega
        have hin : ∀ i < k, Access mem table PTE_W ((va + i) / PGSIZE) := by
          intro i hi
          rw [(page_add (by omega)).1]
          exact ha
        have hwrite : ph.writeBytes (pteToPa (pteAt mem table (va / PGSIZE)) + va % PGSIZE) ((b :: bs).take k) =
            ph.storeAt (translate mem table) va ((b :: bs).take k) := by
          rw [Phys.storeAt_writeBytes]
          intro i hi
          rw [translate_add (by omega)]
          rfl
        have hnext : TablesKept mem (ph.storeAt (translate mem table) va ((b :: bs).take k)).mem table := by
          apply hkept.storeAt hsep
          rwa [hlen]
        obtain ⟨r, k', hk', hrun, hacc, hok, herr⟩ := @ih _ (va + k) ((b :: bs).drop k)
          (by rw [List.length_drop]; simp only [List.length_cons] at *; omega) hnext
        rw [List.length_drop, List.length_cons] at hk' hok herr
        refine ⟨r, k + k', by rw [List.length_cons]; omega, ?_, ?_, ?_, ?_⟩
        · rw [K.bind_of_ok (K.modify_apply _ ph), hwrite, addW_of_lt P hlt, K.bind_of_ok (K.pure_apply _ _), hrun,
            List.take_add, Phys.storeAt_append, hlen]
        · intro i hi
          by_cases hik : i < k
          · exact hin i hik
          · have hi' := hacc (i - k) (by omega)
            rwa [show va + k + (i - k) = va + i by omega] at hi'
        · intro hr
          rw [List.length_cons]
          have := hok hr
          omega
        · intro hr
          obtain ⟨hlt', hno, hend⟩ := herr hr
          rw [← Nat.add_assoc, List.length_cons]
          refine ⟨by omega, hno, .inr ?_⟩
          rcases hend with rfl | hend
          · unfold PGSIZE at *
            omega
          · exact hend

/-- `copyin` reads exactly the translated bytes. If the tables lie outside of the pages that the user may write,
`copyout` writes exactly the translated bytes, or a prefix that ends where a page ends, and `copyin` returns what it
wrote. -/
theorem copies_translated_bytes (P : Profile) (ph : Phys) (table va n : Nat) (src : List Nat) (hb : ∀ b ∈ src, b < 256) :
    (∃ r, copyin P table n va ph = .ok (r, ph) ∧
      ((∃ bs, r = .ok bs) ↔ ∀ i < n, Access ph.mem table PTE_R ((va + i) / PGSIZE)) ∧
      ∀ bs, r = .ok bs → bs = (List.range n).map fun i => ph.byte (translate ph.mem table (va + i))) ∧
    (Separate ph.mem table → ∃ r ph', copyout P table va src ph = .ok (r, ph') ∧
      (r = .ok () ↔ ∀ i < src.length, Access ph.mem table PTE_W ((va + i) / PGSIZE)) ∧
      (r = .ok () → Phys.Stored (translate ph.mem table) va src ph ph') ∧
      (r ≠ .ok () → ∃ k < src.length, (k = 0 ∨ (va + k) % PGSIZE = 0) ∧
        Phys.Stored (translate ph.mem table) va (src.take k) ph ph') ∧
      (∀ x, (∀ q, Access ph.mem table PTE_W q → getPpn (pteAt ph.mem table q) ≠ x) → ph'.mem x = ph.mem x) ∧
      (Unshared ph.mem table → r = .ok () → (∀ i < src.length, Access ph.mem table PTE_R ((va + i) / PGSIZE)) →
        copyin P table src.length va ph' = .ok (.ok src, ph'))) := by
  refine ⟨⟨_, copyin_eq P ph table n va, load_ok, fun bs => load_eq⟩, fun hsep => ?_⟩
  obtain ⟨r, k, hk, hrun, hacc, hok, herr⟩ := @copyoutFrom_eq P ph _ _ va _ _ (le_refl src.length) hsep fun _ _ _ => rfl
  have htake : ∀ b ∈ src.take k, b < 256 := fun b h => hb b (List.mem_of_mem_take h)
  have hlen : (src.take k).length = k := by
    rw [List.length_take]
    omega
  have hstored := Phys.storeAt_stored (translate ph.mem table) va ph htake
  have hall : r = .ok () → src.take k = src := fun hr => List.take_of_length_le (hok hr).ge
  refine ⟨r, _, hrun, ?_, ?_, ?_, ?_, ?_⟩
  · constructor
    · intro hr
      rw [← hok hr]
      exact hacc
    · intro h
      by_contra hr
      obtain ⟨hlt, hno, -⟩ := herr hr
      exact hno (h k hlt)
  · intro hr
    rw [hall hr] at hstored ⊢
    exact hstored
  · intro hr
    obtain ⟨hlt, -, hend⟩ := herr hr
    exact ⟨k, hlt, hend, hstored⟩
  · intro x hx
    rw [Phys.storeAt_mem_of_ne]
    intro i hi
    rw [translate_div]
    exact hx _ (hacc i (by omega))
  · intro hun hr hread
    have hkept : TablesKept ph.mem (ph.storeAt (translate ph.mem table) va (src.take k)).mem table := by
      apply TablesKept.storeAt (fun _ _ _ => rfl) hsep
      rwa [hlen]
    rw [hall hr] at hstored hkept ⊢
    obtain ⟨bs, hbs⟩ := load_ok.mpr fun i hi => show Access (ph.storeAt (translate ph.mem table) va src).mem table PTE_R _ by
      rw [Access, hkept.pteAt_eq]
      exact hread i hi
    rw [copyin_eq, hbs, load_eq hbs]
    congr 3
    refine List.ext_getElem (by simp) fun i hi hi' => ?_
    rw [List.getElem_map, List.getElem_range, hkept.translate_eq]
    -- Distinct addresses translate to distinct ones.
    refine hstored.bytes i hi' fun j hij hj he => ?_
    have hpage : translate ph.mem table (va + j) / PGSIZE = translate ph.mem table (va + i) / PGSIZE := by rw [he]
    rw [translate_div, translate_div] at hpage
    have hq := hun _ _ (hread j hj).1 (hread i (by omega)).1 hpage
    unfold translate at he
    rw [hq] at he
    unfold PGSIZE at *
    omega

/-- A table at page 5 with two user pages, the last ones of the table at page 7. -/
def twoPages (ppn : Nat) : Phys where
  mem n i :=
    if n = 5 then if i = 0 then 6 * 1024 + 1 else 0
    else if n = 6 then if i = 0 then 7 * 1024 + 1 else 0
    else if n = 7 then if i = 510 then ppn * 1024 + 23 else if i = 511 then 8 * 1024 + 23 else 0
    else 0
  pageRef _ := 0
  region _ := ⟨0, 0, none, 0⟩

lemma twoPages_root (ppn i : Nat) : (twoPages ppn).mem 5 i = if i = 0 then 6 * 1024 + 1 else 0 := rfl

lemma twoPages_middle (ppn i : Nat) : (twoPages ppn).mem 6 i = if i = 0 then 7 * 1024 + 1 else 0 := rfl

lemma twoPages_last (ppn i : Nat) :
    (twoPages ppn).mem 7 i = if i = 510 then ppn * 1024 + 23 else if i = 511 then 8 * 1024 + 23 else 0 := rfl

lemma twoPages_pteAt (ppn q : Nat) : pteAt (twoPages ppn).mem 5 q =
    if q = 510 then ppn * 1024 + 23 else if q = 511 then 8 * 1024 + 23 else 0 := by
  unfold pteAt PageTable.lookup
  by_cases hq : VA_MAX ≤ q * PGSIZE
  · have hlarge : 2 ^ 26 ≤ q := by
      unfold VA_MAX PGSIZE at hq
      omega
    rw [if_pos hq, if_neg (by omega), if_neg (by omega)]
  · have hsmall : q < 2 ^ 26 := by
      unfold VA_MAX PGSIZE at hq
      omega
    have hv : ∀ level, vpn (q * PGSIZE) level = q / 512 ^ level % 512 := by
      intro level
      rw [vpn_eq, Nat.pow_add, Nat.pow_mul, ← Nat.div_div_eq_div_mul, show PGSIZE = 2 ^ 12 from rfl, Nat.mul_div_cancel _ (by decide)]
    rw [if_neg hq, PageTable.lookupFrom, twoPages_root, hv]
    by_cases h2 : q / 512 ^ 2 % 512 = 0
    · rw [if_pos h2, if_pos (by decide), if_neg (by decide), if_neg (by decide), show getPpn (6 * 1024 + 1) = 6 from rfl,
        PageTable.lookupFrom, twoPages_middle, hv]
      by_cases h1 : q / 512 ^ 1 % 512 = 0
      · rw [if_pos h1, if_pos (by decide), if_neg (by decide), if_neg (by decide), show getPpn (7 * 1024 + 1) = 7 from rfl,
          PageTable.lookupFrom]
        dsimp only
        rw [twoPages_last, hv, show q / 512 ^ 0 % 512 = q by omega]
      · rw [if_neg h1, if_neg (by decide), if_neg (by omega), if_neg (by omega)]
    · rw [if_neg h2, if_neg (by decide), if_neg (by omega), if_neg (by omega)]

lemma twoPages_node {ppn n : Nat} (h : PageTable.Node (twoPages ppn).mem 5 level n) :
    level = 2 ∧ n = 5 ∨ level = 1 ∧ n = 6 ∨ level = 0 ∧ n = 7 := by
  induction h with
  | root => exact .inl ⟨rfl, rfl⟩
  | @child level n i h hi hv hl ih =>
    rcases ih with ⟨hlevel, rfl⟩ | ⟨hlevel, rfl⟩ | ⟨hlevel, rfl⟩
    · rw [twoPages_root] at hv ⊢
      split_ifs at hv ⊢ with h0
      · exact .inr (.inl ⟨by omega, rfl⟩)
      · cases hv
    · rw [twoPages_middle] at hv ⊢
      split_ifs at hv ⊢ with h0
      · exact .inr (.inr ⟨by omega, rfl⟩)
      · cases hv
    · omega

lemma twoPages_ppn {ppn q : Nat} (h : isValid (pteAt (twoPages ppn).mem 5 q) = true) (hp : ppn < 2 ^ 44) :
    q = 510 ∧ getPpn (pteAt (twoPages ppn).mem 5 q) = ppn ∨ q = 511 ∧ getPpn (pteAt (twoPages ppn).mem 5 q) = 8 := by
  rw [twoPages_pteAt] at h ⊢
  rw [getPpn_eq]
  split_ifs at h ⊢ with h1 h2
  · exact .inl ⟨h1, by omega⟩
  · exact .inr ⟨h2, by omega⟩
  · cases h

theorem copies_translated_bytes_example : ∃ ph', copyout .dev 5 (510 * PGSIZE + 4094) [1, 2, 3] (twoPages 9) = .ok (.ok (), ph') ∧
    ph'.byte (8 * PGSIZE) = 3 ∧ copyin .dev 5 3 (510 * PGSIZE + 4094) ph' = .ok (.ok [1, 2, 3], ph') := by
  have hsep : Separate (twoPages 9).mem 5 := by
    intro q level n ha hn
    have hppn := twoPages_ppn ha.1 (by decide)
    have hnode := twoPages_node hn
    omega
  have hun : Unshared (twoPages 9).mem 5 := by
    intro q q' hv hv' he
    have hppn := twoPages_ppn hv (by decide)
    have hppn' := twoPages_ppn hv' (by decide)
    omega
  obtain ⟨-, hout⟩ := copies_translated_bytes .dev (twoPages 9) 5 (510 * PGSIZE + 4094) 3 [1, 2, 3] (by decide)
  obtain ⟨r, ph', hrun, hok, hstored, -, -, hback⟩ := hout hsep
  obtain rfl := hok.mpr (by decide +kernel)
  refine ⟨ph', hrun, ?_, hback hun rfl (by decide +kernel)⟩
  exact (hstored rfl).bytes 2 (by decide) (fun j h h' => by simp only [List.length_cons, List.length_nil] at h'; omega)

/-- The user may write the page that holds the table, and the first eight bytes clear the entry of the next page. -/
theorem copyout_into_table : (∀ i < 9, Access (twoPages 7).mem 5 PTE_W ((510 * PGSIZE + 4088 + i) / PGSIZE)) ∧
    ∃ ph', copyout .dev 5 (510 * PGSIZE + 4088) [0, 0, 0, 0, 0, 0, 0, 0, 1] (twoPages 7) = .ok (.error .notMapped, ph') := by
  refine ⟨by decide +kernel, K.exists_of_run' ?_⟩
  decide +kernel

/-! ### Strings -/

/-- The string at `va` has `k` bytes, of which the last one is its only zero, and all of them can be read. -/
structure IsString (ph : Phys) (table va k : Nat) : Prop where
  pos : 1 ≤ k
  access : ∀ i < k, Access ph.mem table PTE_R ((va + i) / PGSIZE)
  ends : ph.byte (translate ph.mem table (va + (k - 1))) = 0
  before : ∀ i < k - 1, ph.byte (translate ph.mem table (va + i)) ≠ 0

/-- The bytes of one page at once: they contain the end of the string or are all of them read. -/
lemma loadStr_page (hp : userPage ph.mem table va PTE_R = .ok pa) (hk : va % PGSIZE + k ≤ PGSIZE) (n : Nat) :
    if (stringBytes ph k (pa + va % PGSIZE)).2 then loadStr ph table (k + n) va = .ok (stringBytes ph k (pa + va % PGSIZE)).1
    else (stringBytes ph k (pa + va % PGSIZE)).1.length = k ∧
      loadStr ph table (k + n) va = (loadStr ph table n (va + k)).map ((stringBytes ph k (pa + va % PGSIZE)).1 ++ ·) := by
  induction k generalizing va with
  | zero =>
    rw [Nat.zero_add, Nat.add_zero, if_neg (by simp [stringBytes])]
    refine ⟨rfl, ?_⟩
    cases loadStr ph table n va <;> rfl
  | succ k ih =>
    rw [Nat.add_right_comm, loadStr, hp, stringBytes]
    dsimp only
    by_cases hz : ph.byte (pa + va % PGSIZE) = 0
    · rw [if_pos hz, if_pos hz, if_pos rfl, hz]
    · rw [if_neg hz, if_neg hz]
      by_cases hk0 : k = 0
      · subst hk0
        rw [if_neg (by simp [stringBytes]), show 0 + n = n from Nat.zero_add n]
        refine ⟨rfl, ?_⟩
        cases loadStr ph table n (va + (0 + 1)) <;> rfl
      · have hin : va % PGSIZE + 1 < PGSIZE := by omega
        have hnext := ih ((userPage_add hin).trans hp) (by rw [(page_add hin).2]; omega)
        rw [(page_add hin).2, ← Nat.add_assoc pa] at hnext
        dsimp only
        split_ifs at hnext ⊢ with hend
        · rw [hnext]
          rfl
        · refine ⟨by rw [List.length_cons, hnext.1], ?_⟩
          rw [hnext.2, Nat.add_assoc va, Nat.add_comm 1 k]
          cases loadStr ph table n (va + (k + 1)) <;> rfl

lemma copyinStrFrom_eq (hf : n ≤ fuel) : copyinStrFrom P table fuel n va ph = .ok (loadStr ph table n va, ph) := by
  induction fuel generalizing n va with
  | zero =>
    obtain rfl : n = 0 := by omega
    rfl
  | succ fuel ih =>
    cases n with
    | zero => rfl
    | succ n =>
      rw [copyinStrFrom, K.bind_of_ok (K.get_apply ph)]
      cases hp : userPage ph.mem table va PTE_R with
      | error e =>
        rw [loadStr, hp]
        rfl
      | ok pa =>
        have hva := ((userPage_ok_iff (by decide)).mp hp).1.va_lt
        have hoff : va % PGSIZE < PGSIZE := Nat.mod_lt _ (by decide)
        dsimp only
        rw [pageOffset_eq, alignDown_page]
        generalize hk : min (PGSIZE - va % PGSIZE) (n + 1) = k
        have hlt : va / PGSIZE * PGSIZE + PGSIZE < 2 ^ 64 := by
          unfold VA_MAX PGSIZE at *
          omega
        have hload := loadStr_page hp (k := k) (by omega) (n + 1 - k)
        rw [show k + (n + 1 - k) = n + 1 by omega] at hload
        split_ifs at hload ⊢ with hend
        · rw [hload]
          rfl
        · rw [addW_of_lt P hlt, K.bind_of_ok (K.pure_apply _ ph), hload.1, K.bind_of_ok (ih (by omega)), hload.2]
          -- Either the buffer is full or the page ends here.
          have hrest : loadStr ph table (n + 1 - k) (va / PGSIZE * PGSIZE + PGSIZE) = loadStr ph table (n + 1 - k) (va + k) := by
            by_cases hfull : n + 1 ≤ PGSIZE - va % PGSIZE
            · rw [show n + 1 - k = 0 by omega]
              rfl
            · rw [show va / PGSIZE * PGSIZE + PGSIZE = va + k by unfold PGSIZE at *; omega]
          rw [hrest]
          cases loadStr ph table (n + 1 - k) (va + k) <;> rfl

lemma copyinStr_eq (P : Profile) (ph : Phys) (table n va : Nat) : copyinStr P table n va ph = .ok (loadStr ph table n va, ph) :=
  copyinStrFrom_eq (le_refl n)

lemma isString_succ (hk : k ≠ 0) : IsString ph table va (k + 1) ↔ Access ph.mem table PTE_R (va / PGSIZE) ∧
    ph.byte (translate ph.mem table va) ≠ 0 ∧ IsString ph table (va + 1) k := by
  have hshift : ∀ i, va + 1 + i = va + (i + 1) := fun i => by omega
  constructor
  · intro h
    refine ⟨h.access 0 (by omega), h.before 0 (by omega), by omega, fun i hi => ?_, ?_, fun i hi => ?_⟩
    · rw [hshift]
      exact h.access (i + 1) (by omega)
    · rw [hshift, show k - 1 + 1 = k + 1 - 1 by omega]
      exact h.ends
    · rw [hshift]
      exact h.before (i + 1) (by omega)
  · rintro ⟨ha, hz, h⟩
    refine ⟨by omega, fun i hi => ?_, ?_, fun i hi => ?_⟩
    · cases i with
      | zero => exact ha
      | succ i =>
        rw [← hshift]
        exact h.access i (by omega)
    · rw [show k + 1 - 1 = k - 1 + 1 by omega, ← hshift]
      exact h.ends
    · cases i with
      | zero => exact hz
      | succ i =>
        rw [← hshift]
        exact h.before i (by omega)

lemma isString_one : IsString ph table va 1 ↔ Access ph.mem table PTE_R (va / PGSIZE) ∧ ph.byte (translate ph.mem table va) = 0 := by
  constructor
  · intro h
    exact ⟨h.access 0 (by omega), h.ends⟩
  · rintro ⟨ha, hz⟩
    refine ⟨le_refl 1, fun i hi => ?_, hz, fun i hi => by omega⟩
    obtain rfl : i = 0 := by omega
    exact ha

lemma loadStr_ok (h : loadStr ph table n va = .ok bs) :
    bs.length ≤ n ∧ IsString ph table va bs.length ∧ load ph table bs.length va = .ok bs := by
  induction n generalizing va bs with
  | zero => cases h
  | succ n ih =>
    rw [loadStr] at h
    cases hp : userPage ph.mem table va PTE_R with
    | error e =>
      rw [hp] at h
      cases h
    | ok pa =>
      rw [hp] at h
      obtain ⟨ha, rfl⟩ := (userPage_ok_iff (by decide)).mp hp
      dsimp only at h
      split_ifs at h with hz
      · cases h
        refine ⟨by simp, isString_one.mpr ⟨ha, hz⟩, ?_⟩
        rw [List.length_singleton, load, hp]
        dsimp only
        rw [hz]
        rfl
      · cases hl : loadStr ph table n (va + 1) with
        | error e =>
          rw [hl] at h
          cases h
        | ok cs =>
          rw [hl] at h
          cases h
          obtain ⟨hlen, hstr, hload⟩ := ih hl
          rw [List.length_cons]
          have hpos := hstr.pos
          refine ⟨by omega, (isString_succ (by omega)).mpr ⟨ha, hz, hstr⟩, ?_⟩
          rw [load, hp, hload]
          rfl

lemma IsString.loadStr (h : IsString ph table va k) (hk : k ≤ n) :
    ∃ bs, loadStr ph table n va = .ok bs ∧ bs.length = k := by
  induction n generalizing va k with
  | zero =>
    have hpos := h.pos
    omega
  | succ n ih =>
    have hp := (@userPage_ok_iff _ _ _ PTE_R (pteToPa (pteAt ph.mem table (va / PGSIZE))) (by decide)).mpr
      ⟨h.access 0 h.pos, rfl⟩
    rw [Nat.add_zero] at hp
    rw [Uvm.loadStr, hp]
    dsimp only
    obtain ⟨k, rfl⟩ : ∃ j, k = j + 1 := ⟨k - 1, by have := h.pos; omega⟩
    by_cases hk0 : k = 0
    · subst hk0
      rw [if_pos (show ph.byte (pteToPa (pteAt ph.mem table (va / PGSIZE)) + va % PGSIZE) = 0 from (isString_one.mp h).2)]
      exact ⟨[0], rfl, rfl⟩
    · obtain ⟨-, hz, h'⟩ := (isString_succ hk0).mp h
      obtain ⟨bs, hbs, hlen⟩ := ih h' (by omega)
      rw [if_neg (show ¬ph.byte (pteToPa (pteAt ph.mem table (va / PGSIZE)) + va % PGSIZE) = 0 from hz), hbs]
      exact ⟨_, rfl, by rw [List.length_cons, hlen]⟩

lemma loadStr_tooLong : loadStr ph table n va = .error .tooLong ↔
    ∀ i < n, Access ph.mem table PTE_R ((va + i) / PGSIZE) ∧ ph.byte (translate ph.mem table (va + i)) ≠ 0 := by
  induction n generalizing va with
  | zero => exact ⟨fun _ i hi => by omega, fun _ => rfl⟩
  | succ n ih =>
    have hshift : ∀ i, va + 1 + i = va + (i + 1) := fun i => by omega
    rw [loadStr]
    constructor
    · intro h
      cases hp : userPage ph.mem table va PTE_R with
      | error e =>
        rw [hp] at h
        cases h
        exact absurd hp (userPage_not_tooLong (show PTE_R &&& 0x3FF = PTE_R from rfl))
      | ok pa =>
        rw [hp] at h
        obtain ⟨ha, rfl⟩ := (userPage_ok_iff (by decide)).mp hp
        dsimp only at h
        split_ifs at h with hz
        cases hl : loadStr ph table n (va + 1) with
        | ok cs =>
          rw [hl] at h
          cases h
        | error e =>
          rw [hl] at h
          cases h
          intro i hi
          cases i with
          | zero => exact ⟨ha, hz⟩
          | succ i =>
            rw [← hshift]
            exact ih.mp hl i (by omega)
    · intro h
      have hp := (@userPage_ok_iff _ _ _ PTE_R (pteToPa (pteAt ph.mem table (va / PGSIZE))) (by decide)).mpr
        ⟨(h 0 (by omega)).1, rfl⟩
      have hl := ih.mpr fun i hi => by
        rw [hshift]
        exact h (i + 1) (by omega)
      rw [Nat.add_zero] at hp
      rw [hp]
      dsimp only
      rw [if_neg (show ¬ph.byte (pteToPa (pteAt ph.mem table (va / PGSIZE)) + va % PGSIZE) = 0 from (h 0 (by omega)).2), hl]
      rfl

lemma loadStr_error {e : CopyError} (h : loadStr ph table n va = .error e) (hne : e ≠ .tooLong) :
    load ph table n va = .error e := by
  induction n generalizing va with
  | zero =>
    cases h
    exact absurd rfl hne
  | succ n ih =>
    rw [loadStr] at h
    rw [load]
    cases hp : userPage ph.mem table va PTE_R with
    | error e' =>
      rw [hp] at h
      cases h
      rfl
    | ok pa =>
      rw [hp] at h
      dsimp only at h ⊢
      split_ifs at h with hz
      cases hl : loadStr ph table n (va + 1) with
      | ok cs =>
        rw [hl] at h
        cases h
      | error e' =>
        rw [hl] at h
        cases h
        rw [ih hl]
        rfl

/-- `copyin_str` returns the string at the address, as `copyin` would, or fails as `copyin` would, or the string does not
fit. The result depends on the bytes up to the terminator and the entries of their pages only. -/
theorem copyin_str_agrees (P : Profile) (ph : Phys) (table va m : Nat) : ∃ r, copyinStr P table m va ph = .ok (r, ph) ∧
    (∀ k, (∃ bs, r = .ok bs ∧ bs.length = k) ↔ k ≤ m ∧ IsString ph table va k) ∧
    (∀ bs, r = .ok bs → copyin P table bs.length va ph = .ok (.ok bs, ph)) ∧
    (r = .error .tooLong ↔
      ∀ i < m, Access ph.mem table PTE_R ((va + i) / PGSIZE) ∧ ph.byte (translate ph.mem table (va + i)) ≠ 0) ∧
    (∀ e, r = .error e → e ≠ .tooLong → copyin P table m va ph = .ok (.error e, ph)) ∧
    ∀ bs ph', r = .ok bs → (∀ i < bs.length, pteAt ph'.mem table ((va + i) / PGSIZE) = pteAt ph.mem table ((va + i) / PGSIZE) ∧
        ph'.byte (translate ph.mem table (va + i)) = ph.byte (translate ph.mem table (va + i))) →
      copyinStr P table m va ph' = .ok (.ok bs, ph') := by
  refine ⟨_, copyinStr_eq P ph table m va, fun k => ?_, fun bs h => ?_, loadStr_tooLong, fun e h hne => ?_, fun bs ph' h hsame => ?_⟩
  · constructor
    · rintro ⟨bs, h, rfl⟩
      exact ⟨(loadStr_ok h).1, (loadStr_ok h).2.1⟩
    · rintro ⟨hk, h⟩
      exact h.loadStr hk
  · rw [copyin_eq, (loadStr_ok h).2.2]
  · rw [copyin_eq, loadStr_error h hne]
  · obtain ⟨hlen, hstr, hload⟩ := loadStr_ok h
    have hbyte : ∀ i < bs.length, ph'.byte (translate ph'.mem table (va + i)) = ph.byte (translate ph.mem table (va + i)) := by
      intro i hi
      unfold translate
      rw [(hsame i hi).1]
      exact (hsame i hi).2
    have hpos := hstr.pos
    have hstr' : IsString ph' table va bs.length := by
      refine ⟨hpos, fun i hi => ?_, ?_, fun i hi => ?_⟩
      · rw [Access, (hsame i hi).1]
        exact hstr.access i hi
      · rw [hbyte _ (by omega)]
        exact hstr.ends
      · rw [hbyte i (by omega)]
        exact hstr.before i hi
    obtain ⟨cs, hcs, hlen'⟩ := hstr'.loadStr hlen
    rw [copyinStr_eq, hcs, load_eq (loadStr_ok hcs).2.2, hlen', load_eq hload]
    congr 3
    rw [List.length_map, List.length_range]
    exact List.map_congr_left fun i hi => hbyte i (List.mem_range.mp hi)

end Uvm

end Glenda.Mem
