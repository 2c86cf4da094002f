import Glenda.Basic

/-!
# The UTF-8 decoder of the console

Model of `Utf8Decoder` in `drivers/uart/utf8.rs`. The decoder collects the bytes of one character. `core::str::from_utf8`
is the decoding that the strings of Lean have.
-/

namespace Glenda.Drivers.Utf8

structure Utf8Decoder where
  buf : Fin 4 → UInt8
  len : Nat
  need : Nat

inductive Utf8PushResult
  | pending
  | completed (c : Char)
  | invalid
  deriving DecidableEq, Repr

def Utf8Decoder.new : Utf8Decoder := ⟨fun _ => 0, 0, 0⟩

def Utf8Decoder.clear (d : Utf8Decoder) : Utf8Decoder := { d with len := 0, need := 0 }

def Utf8Decoder.hasPending (d : Utf8Decoder) : Bool := 0 < d.len

/-- `core::str::from_utf8`, and the characters of the string. -/
def fromUtf8 (bs : List UInt8) : Option (List Char) := (String.fromUTF8? bs.toByteArray).map String.toList

def utf8ExpectedLen (b : UInt8) : Nat :=
  if 0xC2 ≤ b ∧ b ≤ 0xDF then 2
  else if 0xE0 ≤ b ∧ b ≤ 0xEF then 3
  else if 0xF0 ≤ b ∧ b ≤ 0xF4 then 4
  else 0

def isContinuation (b : UInt8) : Bool := b &&& 0b11000000 == 0b10000000

def replacement : Char := '�'

/-- What `push` does when the last byte of a character is in. -/
def finish : K Utf8Decoder Utf8PushResult := do
  let d ← get
  K.panicIf (4 < d.len) .sliceIndex
  match fromUtf8 ((List.ofFn d.buf).take d.len) with
  | some cs =>
    set d.clear
    return if cs.tail = [] then .completed (cs.headD replacement) else .invalid
  | none =>
    set d.clear
    return .invalid

def push (P : Profile) (b : UInt8) : K Utf8Decoder Utf8PushResult := do
  let d ← get
  if d.len = 0 then
    let need := utf8ExpectedLen b
    if need = 0 then return .invalid
    else
      set ({ buf := Function.update d.buf 0 b, len := 1, need := need } : Utf8Decoder)
      return .pending
  else if !isContinuation b then
    set d.clear
    return .invalid
  else
    let buf := if h : d.len < 4 then Function.update d.buf ⟨d.len, h⟩ b else d.buf
    let len ← addW P 8 d.len 1
    set { d with buf, len }
    if len = d.need then finish else return .pending

/-! ### What the standard library decodes -/

lemma flatMap_utf8EncodeChar_injective {cs cs' : List Char}
    (h : cs.flatMap String.utf8EncodeChar = cs'.flatMap String.utf8EncodeChar) : cs = cs' := by
  have hstring : String.ofList cs = String.ofList cs' := by
    rw [← String.toByteArray_inj, String.toByteArray_ofList, String.toByteArray_ofList]
    exact congrArg List.toByteArray h
  have hlist := congrArg String.toList hstring
  rwa [String.toList_ofList, String.toList_ofList] at hlist

lemma fromUtf8_eq_some {bs : List UInt8} {cs : List Char} : fromUtf8 bs = some cs ↔ cs.flatMap String.utf8EncodeChar = bs := by
  unfold fromUtf8 String.fromUTF8?
  constructor
  · intro h
    split_ifs at h with hv
    · have hcs : (String.fromUTF8 bs.toByteArray hv).toList = cs := Option.some.inj h
      have henc : cs.utf8Encode = bs.toByteArray := by rw [← hcs, String.utf8Encode_toList]; rfl
      exact List.toByteArray_inj.mp henc
    · cases h
  · rintro rfl
    have hv : (cs.flatMap String.utf8EncodeChar).toByteArray.IsValidUTF8 := ⟨cs, rfl⟩
    rw [dif_pos hv]
    apply congrArg some
    apply flatMap_utf8EncodeChar_injective
    apply List.toByteArray_inj.mp
    exact String.utf8Encode_toList

lemma isContinuation_ofNat : ∀ x < 64, isContinuation (UInt8.ofNat (x + 128)) = true := by decide

lemma ofNat_mem_range {n lo hi : Nat} (hn : n < 256) (hlo : lo < 256) (hhi : hi < 256) :
    (UInt8.ofNat lo ≤ UInt8.ofNat n ∧ UInt8.ofNat n ≤ UInt8.ofNat hi) ↔ lo ≤ n ∧ n ≤ hi := by
  rw [UInt8.le_iff_toNat_le, UInt8.le_iff_toNat_le, UInt8.toNat_ofNat_of_lt' hn, UInt8.toNat_ofNat_of_lt' hlo,
    UInt8.toNat_ofNat_of_lt' hhi]

lemma utf8ExpectedLen_ofNat {n : Nat} (hn : n < 256) : utf8ExpectedLen (UInt8.ofNat n) =
    if 0xC2 ≤ n ∧ n ≤ 0xDF then 2 else if 0xE0 ≤ n ∧ n ≤ 0xEF then 3 else if 0xF0 ≤ n ∧ n ≤ 0xF4 then 4 else 0 := by
  unfold utf8ExpectedLen
  refine if_congr (ofNat_mem_range hn (by decide) (by decide)) rfl ?_
  refine if_congr (ofNat_mem_range hn (by decide) (by decide)) rfl ?_
  exact if_congr (ofNat_mem_range hn (by decide) (by decide)) rfl rfl

/-- The encoding of a character beyond ASCII starts with a byte that tells its length. All others are continuation bytes. -/
lemma utf8EncodeChar_shape {c : Char} (hc : 0x80 ≤ c.toNat) : ∃ b rest, String.utf8EncodeChar c = b :: rest ∧
    utf8ExpectedLen b = rest.length + 1 ∧ 0 < rest.length ∧ rest.length ≤ 3 ∧ ∀ x ∈ rest, isContinuation x = true := by
  have hcont : ∀ v, isContinuation (UInt8.ofNat (v % 64 + 128)) = true := fun v => isContinuation_ofNat _ (Nat.mod_lt _ (by decide))
  have hmax : c.val.toNat < 0x110000 := by
    have hvalid := c.valid
    unfold UInt32.isValidChar Nat.isValidChar at hvalid
    omega
  have hval : c.toNat = c.val.toNat := rfl
  unfold String.utf8EncodeChar
  dsimp only
  split_ifs with h1 h2 h3
  · omega
  · refine ⟨_, _, rfl, ?_, by simp, by simp, ?_⟩
    · rw [utf8ExpectedLen_ofNat (by omega), if_pos (by omega)]
      rfl
    · simp only [List.forall_mem_singleton, hcont]
  · refine ⟨_, _, rfl, ?_, by simp, by simp, ?_⟩
    · rw [utf8ExpectedLen_ofNat (by omega), if_neg (by omega), if_pos (by omega)]
      rfl
    · simp only [List.forall_mem_cons, List.not_mem_nil, false_implies, implies_true, hcont, and_self]
  · refine ⟨_, _, rfl, ?_, by simp, by simp, ?_⟩
    · rw [utf8ExpectedLen_ofNat (by omega), if_neg (by omega), if_neg (by omega), if_pos (by omega)]
      rfl
    · simp only [List.forall_mem_cons, List.not_mem_nil, false_implies, implies_true, hcont, and_self]

/-! ### One byte -/

/-- The decoder has collected the bytes `bs` of a character. -/
structure Collected (d : Utf8Decoder) (bs : List UInt8) : Prop where
  len : d.len = bs.length
  bytes : (List.ofFn d.buf).take d.len = bs
  short : d.len < d.need
  need : d.need ≤ 4

/-- The decoder after bytes that it was given since it was last empty. -/
def Holding (d : Utf8Decoder) (bs : List UInt8) : Prop := d.len = 0 ∧ bs = [] ∨ bs ≠ [] ∧ Collected d bs

/-- What `push` returns for all the bytes of a character. -/
def decoded (bs : List UInt8) : Utf8PushResult :=
  match fromUtf8 bs with
  | some cs => if cs.tail = [] then .completed (cs.headD replacement) else .invalid
  | none => .invalid

variable {P : Profile} {d : Utf8Decoder} {b : UInt8} {bs rest : List UInt8}

lemma decoded_encode (c : Char) : decoded (String.utf8EncodeChar c) = .completed c := by
  have h : fromUtf8 (String.utf8EncodeChar c) = some [c] := fromUtf8_eq_some.mpr (List.flatMap_singleton _ c)
  unfold decoded
  rw [h]
  rfl

lemma decoded_eq_completed {c : Char} (hne : bs ≠ []) (h : decoded bs = .completed c) : bs = String.utf8EncodeChar c := by
  unfold decoded at h
  cases hf : fromUtf8 bs with
  | none =>
    rw [hf] at h
    cases h
  | some cs =>
    rw [hf] at h
    dsimp only at h
    have henc := fromUtf8_eq_some.mp hf
    split_ifs at h with htail
    cases cs with
    | nil => exact (hne henc.symm).elim
    | cons x cs =>
      cases h
      obtain rfl : cs = [] := htail
      rw [← henc, List.flatMap_singleton]
      rfl

lemma take_ofFn_update (buf : Fin 4 → UInt8) {n : Nat} (h : n < 4) (b : UInt8) :
    (List.ofFn (Function.update buf ⟨n, h⟩ b)).take (n + 1) = (List.ofFn buf).take n ++ [b] := by
  apply List.ext_getElem
  · simp
    omega
  · intro i hi hi'
    have hlt : i < n + 1 := by
      rw [List.length_take] at hi
      omega
    rw [List.getElem_take, List.getElem_ofFn, List.getElem_append]
    simp only [List.length_take, List.length_ofFn, List.getElem_take, List.getElem_ofFn, List.getElem_singleton]
    by_cases hin : i = n
    · subst hin
      rw [dif_neg (by omega), Function.update_self]
    · rw [dif_pos (by omega), Function.update_of_ne]
      simpa using hin

lemma push_invalid (hd : d.len = 0) (hb : utf8ExpectedLen b = 0) : push P b d = .ok (.invalid, d) := by
  unfold push
  rw [K.bind_of_ok (K.get_apply d), if_pos hd, if_pos hb]
  rfl

lemma push_first (hd : d.len = 0) (hb : 2 ≤ utf8ExpectedLen b) (hb' : utf8ExpectedLen b ≤ 4) :
    ∃ d', push P b d = .ok (.pending, d') ∧ Collected d' [b] ∧ d'.need = utf8ExpectedLen b := by
  refine ⟨⟨Function.update d.buf 0 b, 1, utf8ExpectedLen b⟩, ?_, ⟨rfl, ?_, by dsimp only; omega, hb'⟩, rfl⟩
  · unfold push
    rw [K.bind_of_ok (K.get_apply d), if_pos hd, if_neg (by omega)]
    rfl
  · exact take_ofFn_update d.buf (by decide) b

lemma push_broken (hd : d.len ≠ 0) (hb : isContinuation b = false) : push P b d = .ok (.invalid, d.clear) := by
  unfold push
  rw [K.bind_of_ok (K.get_apply d), if_neg hd, hb]
  rfl

lemma push_more (h : Collected d bs) (hne : bs ≠ []) (hb : isContinuation b = true) (hmore : bs.length + 1 < d.need) :
    ∃ d', push P b d = .ok (.pending, d') ∧ Collected d' (bs ++ [b]) ∧ d'.need = d.need := by
  have hneed := h.need
  have hlen := h.len
  have hlt : d.len < 4 := by omega
  have hpos : d.len ≠ 0 := by
    have := List.length_pos_iff.mpr hne
    omega
  refine ⟨⟨Function.update d.buf ⟨d.len, hlt⟩ b, d.len + 1, d.need⟩, ?_, ⟨?_, ?_, ?_, hneed⟩, rfl⟩
  · unfold push
    rw [K.bind_of_ok (K.get_apply d), if_neg hpos, hb]
    dsimp only
    rw [if_neg (by decide), dif_pos hlt, addW_of_lt P (by omega), pure_bind, K.bind_of_ok (K.set_apply _ _), if_neg (by omega)]
    rfl
  · dsimp only
    rw [List.length_append, hlen]
    rfl
  · dsimp only
    rw [take_ofFn_update, h.bytes]
  · dsimp only
    omega

lemma push_last (h : Collected d bs) (hne : bs ≠ []) (hb : isContinuation b = true) (hlast : bs.length + 1 = d.need) :
    ∃ d', push P b d = .ok (decoded (bs ++ [b]), d') ∧ d'.len = 0 ∧ d'.need = 0 := by
  have hneed := h.need
  have hlen := h.len
  have hlt : d.len < 4 := by omega
  have hpos : d.len ≠ 0 := by
    have := List.length_pos_iff.mpr hne
    omega
  refine ⟨(⟨Function.update d.buf ⟨d.len, hlt⟩ b, d.len + 1, d.need⟩ : Utf8Decoder).clear, ?_, rfl, rfl⟩
  unfold push
  rw [K.bind_of_ok (K.get_apply d), if_neg hpos, hb]
  dsimp only
  rw [if_neg (by decide), dif_pos hlt, addW_of_lt P (by omega), pure_bind, K.bind_of_ok (K.set_apply _ _), if_pos (by omega)]
  unfold finish
  rw [K.bind_of_ok (K.get_apply _), K.bind_of_ok (K.panicIf_of_not (by dsimp only; omega))]
  dsimp only
  rw [take_ofFn_update, h.bytes]
  unfold decoded
  cases fromUtf8 (bs ++ [b]) with
  | none => rfl
  | some cs => rfl

/-! ### Any bytes -/

lemma utf8ExpectedLen_cases (b : UInt8) : utf8ExpectedLen b = 0 ∨ 2 ≤ utf8ExpectedLen b ∧ utf8ExpectedLen b ≤ 4 := by
  unfold utf8ExpectedLen
  split_ifs
  · decide
  · decide
  · decide
  · decide

lemma push_holding (P : Profile) (h : Holding d bs) (b : UInt8) : ∃ r d', push P b d = .ok (r, d') ∧
    Holding d' (if d'.len = 0 then [] else bs ++ [b]) ∧ ∀ c, r = .completed c → bs ++ [b] = String.utf8EncodeChar c := by
  rcases h with ⟨hd, rfl⟩ | ⟨hne, h⟩
  · rcases utf8ExpectedLen_cases b with hb | ⟨hb, hb'⟩
    · refine ⟨.invalid, d, push_invalid hd hb, ?_, nofun⟩
      rw [if_pos hd]
      exact .inl ⟨hd, rfl⟩
    · obtain ⟨d', he, hcol, -⟩ := push_first (P := P) hd hb hb'
      have hlen := hcol.len
      refine ⟨.pending, d', he, ?_, nofun⟩
      rw [if_neg (by simp [hlen])]
      exact .inr ⟨by simp, hcol⟩
  · have hd : d.len ≠ 0 := by
      rw [h.len]
      simpa using hne
    cases hb : isContinuation b with
    | false =>
      refine ⟨.invalid, d.clear, push_broken hd hb, ?_, nofun⟩
      rw [if_pos (show d.clear.len = 0 from rfl)]
      exact .inl ⟨rfl, rfl⟩
    | true =>
      have hlen := h.len
      have hshort := h.short
      by_cases hmore : bs.length + 1 < d.need
      · obtain ⟨d', he, hcol, -⟩ := push_more (P := P) h hne hb hmore
        have hlen' := hcol.len
        refine ⟨.pending, d', he, ?_, nofun⟩
        rw [if_neg (by simp [hlen'])]
        exact .inr ⟨by simp, hcol⟩
      · obtain ⟨d', he, hlen', -⟩ := push_last (P := P) h hne hb (by omega)
        refine ⟨_, d', he, ?_, fun c hc => decoded_eq_completed (by simp) hc⟩
        rw [if_pos hlen']
        exact .inl ⟨hlen', rfl⟩

/-- The states that the decoder gets to, each with the bytes that were pushed since it was last empty. -/
inductive Fed (P : Profile) : Utf8Decoder → List UInt8 → Prop
  | new : Fed P .new []
  | push {d d' : Utf8Decoder} {bs : List UInt8} {b : UInt8} {r : Utf8PushResult} :
    Fed P d bs → push P b d = .ok (r, d') → Fed P d' (if d'.len = 0 then [] else bs ++ [b])

lemma Fed.holding (h : Fed P d bs) : Holding d bs := by
  induction h with
  | new => exact .inl ⟨rfl, rfl⟩
  | push _ he ih =>
    obtain ⟨r', d1, he', hh, -⟩ := push_holding P ih _
    rw [he] at he'
    cases he'
    exact hh

/-! ### Encoded characters -/

/-- What `push` returns for the bytes of a character: it is complete at the last one. -/
def answers (c : Char) : List Utf8PushResult := List.replicate (c.utf8Size - 1) .pending ++ [.completed c]

lemma push_rest (h : Collected d bs) (hne : bs ≠ []) (hrest : rest ≠ []) (hcont : ∀ x ∈ rest, isContinuation x = true)
    (hneed : bs.length + rest.length = d.need) : ∃ d', rest.mapM (push P) d =
      .ok (List.replicate (rest.length - 1) .pending ++ [decoded (bs ++ rest)], d') ∧ d'.len = 0 ∧ d'.need = 0 := by
  induction rest generalizing d bs with
  | nil => exact (hrest rfl).elim
  | cons b rest ih =>
    have hb := hcont b List.mem_cons_self
    rw [List.mapM_cons]
    rw [List.length_cons] at hneed
    by_cases hnil : rest = []
    · subst hnil
      obtain ⟨d', he, hempty⟩ := push_last (P := P) h hne hb hneed
      refine ⟨d', ?_, hempty⟩
      rw [K.bind_of_ok he]
      rfl
    · have hpos := List.length_pos_iff.mpr hnil
      obtain ⟨d1, he, hcol, hn⟩ := push_more (P := P) h hne hb (by omega)
      obtain ⟨d', he', hempty⟩ := ih hcol (by simp) hnil (fun x hx => hcont x (List.mem_cons_of_mem b hx)) (by
        rw [hn, List.length_append, List.length_singleton]
        omega)
      refine ⟨d', ?_, hempty⟩
      rw [K.bind_of_ok he, K.bind_of_ok he']
      have hsucc : (b :: rest).length - 1 = (rest.length - 1) + 1 := by
        rw [List.length_cons]
        omega
      rw [hsucc, List.replicate_succ, List.append_assoc]
      rfl

lemma push_char {c : Char} (hc : 0x80 ≤ c.toNat) (hd : d.len = 0) :
    ∃ d', (String.utf8EncodeChar c).mapM (push P) d = .ok (answers c, d') ∧ d'.len = 0 ∧ d'.need = 0 := by
  obtain ⟨b, rest, henc, hlen, hpos, hmax, hcont⟩ := utf8EncodeChar_shape hc
  obtain ⟨d1, he, hcol, hneed⟩ := push_first (P := P) (d := d) (b := b) hd (by omega) (by omega)
  obtain ⟨d', he', hempty⟩ := push_rest (P := P) hcol (by simp) (List.length_pos_iff.mp hpos) hcont (by
    rw [hneed, hlen, List.length_singleton]
    omega)
  have hsize : c.utf8Size - 1 = (rest.length - 1) + 1 := by
    rw [← String.length_utf8EncodeChar, henc, List.length_cons]
    omega
  refine ⟨d', ?_, hempty⟩
  rw [List.singleton_append, ← henc, decoded_encode] at he'
  unfold answers
  rw [henc, List.mapM_cons, K.bind_of_ok he, K.bind_of_ok he', hsize, List.replicate_succ]
  rfl

lemma push_chars {cs : List Char} (hcs : ∀ c ∈ cs, 0x80 ≤ c.toNat) (hd : d.len = 0 ∧ d.need = 0) :
    ∃ d', (cs.flatMap String.utf8EncodeChar).mapM (push P) d = .ok (cs.flatMap answers, d') ∧ d'.len = 0 ∧ d'.need = 0 := by
  induction cs generalizing d with
  | nil => exact ⟨d, rfl, hd⟩
  | cons c cs ih =>
    obtain ⟨d1, he, hd1⟩ := push_char (P := P) (hcs c List.mem_cons_self) hd.1
    obtain ⟨d', he', hd'⟩ := ih (fun x hx => hcs x (List.mem_cons_of_mem c hx)) hd1
    refine ⟨d', ?_, hd'⟩
    rw [List.flatMap_cons, List.mapM_append, K.bind_of_ok he, K.bind_of_ok he', List.flatMap_cons]
    rfl

/-- Encoded characters come out in order, each at its last byte. Whatever the bytes are, the decoder stays inside its buffer
and completes a character only for the bytes that encode it. -/
theorem utf8_decodes_losslessly (P : Profile) :
    (∀ cs : List Char, (∀ c ∈ cs, 0x80 ≤ c.toNat) → ∃ d', (cs.flatMap String.utf8EncodeChar).mapM (push P) .new =
      .ok (cs.flatMap answers, d') ∧ d'.len = 0 ∧ d'.need = 0) ∧
    ∀ d bs, Fed P d bs → (d.hasPending = true → d.len < d.need ∧ d.need ≤ 4) ∧ ∀ b, ∃ r d', push P b d = .ok (r, d') ∧
      ∀ c, r = .completed c → bs ++ [b] = String.utf8EncodeChar c := by
  refine ⟨fun cs hcs => push_chars hcs ⟨rfl, rfl⟩, fun d bs h => ⟨fun hp => ?_, fun b => ?_⟩⟩
  · rcases h.holding with ⟨hd, -⟩ | ⟨-, hcol⟩
    · unfold Utf8Decoder.hasPending at hp
      simp [hd] at hp
    · exact ⟨hcol.short, hcol.need⟩
  · obtain ⟨r, d', he, -, hc⟩ := push_holding P h.holding b
    exact ⟨r, d', he, hc⟩

theorem utf8_decodes_euro : (∃ d', ([0xE2, 0x82, 0xAC] : List UInt8).mapM (push .dev) .new =
    .ok ([.pending, .pending, .completed '€'], d') ∧ d'.len = 0) ∧ ∃ r d', push .dev 0x80 .new = .ok (r, d') := by
  obtain ⟨hchars, hbytes⟩ := utf8_decodes_losslessly .dev
  obtain ⟨d', he, hd, -⟩ := hchars ['€'] fun c hc => by
    obtain rfl := List.mem_singleton.mp hc
    exact (by decide : 0x80 ≤ 0x20AC)
  obtain ⟨r, d₁, hpush, -⟩ := (hbytes .new [] .new).2 0x80
  exact ⟨⟨d', he, hd⟩, r, d₁, hpush⟩

end Glenda.Drivers.Utf8
