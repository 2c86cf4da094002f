import Glenda.Drivers.Utf8
import Glenda.Lib.Ends

/-!
# The console

Model of `handler` in `drivers/uart/irq.rs`, with `uart-unicode`, and of `ConsoleEcho` in `drivers/uart/utf8.rs`. A character
beyond ASCII is echoed unless an unfinished one is pending when it comes: then its first byte is lost.
-/

namespace Glenda.Drivers.Utf8

abbrev LINEBUF_CAP : Nat := 256

structure ConsoleEcho where
  decoder : Utf8Decoder
  widths : Fin LINEBUF_CAP → Nat
  len : Nat

def ConsoleEcho.new : ConsoleEcho := ⟨.new, fun _ => 0, 0⟩

def ConsoleEcho.clearLine (e : ConsoleEcho) : ConsoleEcho := { e with len := 0 }

/-- A full line loses its first width. -/
def ConsoleEcho.pushWidth (e : ConsoleEcho) (w : Nat) : ConsoleEcho :=
  if w = 0 then e
  else if h : e.len < LINEBUF_CAP then { e with widths := Function.update e.widths ⟨e.len, h⟩ w, len := e.len + 1 }
  else
    let shifted := (List.finRange 255).foldl (fun ws i => Function.update ws i.castSucc (ws i.succ)) e.widths
    { e with widths := Function.update shifted (Fin.last 255) w }

def popWidth : K ConsoleEcho (Option Nat) := do
  let e ← get
  if e.len = 0 then return none
  else
    set { e with len := e.len - 1 }
    if h : e.len - 1 < LINEBUF_CAP then return some (e.widths ⟨e.len - 1, h⟩) else throw .sliceIndex

def charDisplayWidth (c : Char) : Nat :=
  if c.toNat < 0x80 then 1
  else if [(0x1100, 0x115F), (0x2329, 0x232A), (0x2E80, 0xA4CF), (0xAC00, 0xD7A3), (0xF900, 0xFAFF), (0xFE10, 0xFE19), (0xFE30, 0xFE6F),
      (0xFF00, 0xFF60), (0xFFE0, 0xFFE6), (0x1F300, 0x1F64F), (0x1F900, 0x1F9FF), (0x20000, 0x2FFFD), (0x30000, 0x3FFFD)].any
      fun (lo, hi) => lo ≤ c.toNat && c.toNat ≤ hi then 2
  else 1

/-- The console and all that was echoed. -/
structure Console where
  echo : ConsoleEcho
  out : List Char

def Console.new : Console := ⟨.new, []⟩

def puts (cs : List Char) : K Console Unit := modify fun con => { con with out := con.out ++ cs }

def modifyEcho (g : ConsoleEcho → ConsoleEcho) : K Console Unit := modify fun con => { con with echo := g con.echo }

def onEcho {α : Type} (x : K ConsoleEcho α) : K Console α := K.focus Console.echo (fun e con => { con with echo := e }) x

def onDecoder {α : Type} (x : K Utf8Decoder α) : K Console α :=
  onEcho (K.focus ConsoleEcho.decoder (fun d e => { e with decoder := d }) x)

/-- One round of the loop of `handler`. -/
def handleByte (P : Profile) (b : UInt8) : K Console Unit := do
  if b = 0x0D ∨ b = 0x0A then
    modifyEcho fun e => { e with decoder := e.decoder.clear }
    modifyEcho (·.clearLine)
    puts ['\n']
  else if b = 0x08 ∨ b = 0x7F then
    if (← get).echo.decoder.hasPending then modifyEcho fun e => { e with decoder := e.decoder.clear }
    else
      match ← onEcho popWidth with
      | some w => (List.range w).forM fun _ => puts ['\x08', ' ', '\x08']
      | none => return ()
  else if b < 0x80 then
    if (← get).echo.decoder.hasPending then
      puts [replacement]
      modifyEcho (·.pushWidth 1)
      modifyEcho fun e => { e with decoder := e.decoder.clear }
    puts [Char.ofNat b.toNat]
    modifyEcho (·.pushWidth 1)
  else
    match ← onDecoder (push P b) with
    | .pending => return ()
    | .completed c =>
      puts [c]
      modifyEcho (·.pushWidth (charDisplayWidth c))
    | .invalid =>
      puts [replacement]
      modifyEcho (·.pushWidth 1)

/-- The bytes that the device has are handled one after the other. -/
def handler (P : Profile) (bs : List UInt8) : K Console Unit := bs.forM (handleByte P)

variable {P : Profile} {con con' : Console} {d d' : Utf8Decoder} {b : UInt8} {bs rest s t : List UInt8} {n : Nat} {E : Panic → Prop}

/-! ### One byte -/

/-- What is echoed for an answer of the decoder. -/
def shown : Utf8PushResult → List Char
  | .pending => []
  | .completed c => [c]
  | .invalid => [replacement]

@[simp] lemma ConsoleEcho.pushWidth_decoder (e : ConsoleEcho) (w : Nat) : (e.pushWidth w).decoder = e.decoder := by
  unfold pushWidth
  split_ifs
  · rfl
  · rfl
  · rfl

lemma ConsoleEcho.pushWidth_len {e : ConsoleEcho} (h : e.len ≤ LINEBUF_CAP) (w : Nat) : (e.pushWidth w).len ≤ LINEBUF_CAP := by
  unfold pushWidth
  split_ifs with hz hlt
  · exact h
  · exact hlt
  · exact h

lemma handleByte_push {r : Utf8PushResult} (hb : ¬b < 0x80) (hlen : con.echo.len ≤ LINEBUF_CAP)
    (he : push P b con.echo.decoder = .ok (r, d')) : ∃ con', handleByte P b con = .ok ((), con') ∧ con'.echo.decoder = d' ∧
      con'.out = con.out ++ shown r ∧ con'.echo.len ≤ LINEBUF_CAP := by
  have hline : ¬(b = 0x0D ∨ b = 0x0A) := by
    rintro (rfl | rfl)
    · exact hb (by decide)
    · exact hb (by decide)
  have hback : ¬(b = 0x08 ∨ b = 0x7F) := by
    rintro (rfl | rfl)
    · exact hb (by decide)
    · exact hb (by decide)
  have hpush : onDecoder (push P b) con = .ok (r, { con with echo := { con.echo with decoder := d' } }) := by
    unfold onDecoder onEcho
    exact K.focus_of_ok (K.focus_of_ok he)
  have hnew : ∀ w, (ConsoleEcho.pushWidth { con.echo with decoder := d' } w).len ≤ LINEBUF_CAP := ConsoleEcho.pushWidth_len hlen
  unfold handleByte
  rw [if_neg hline, if_neg hback, if_neg hb, K.bind_of_ok hpush]
  cases r with
  | pending => exact ⟨_, rfl, rfl, (List.append_nil _).symm, hlen⟩
  | completed c => exact ⟨_, rfl, ConsoleEcho.pushWidth_decoder .., rfl, hnew _⟩
  | invalid => exact ⟨_, rfl, ConsoleEcho.pushWidth_decoder .., rfl, hnew _⟩

lemma hasPending_iff (d : Utf8Decoder) : d.hasPending = true ↔ d.len ≠ 0 := by
  unfold Utf8Decoder.hasPending
  rw [decide_eq_true_eq, Nat.pos_iff_ne_zero]

lemma popWidth_ends {e : ConsoleEcho} (hlen : e.len ≤ LINEBUF_CAP) : popWidth.Ends e E fun _ e' =>
    e'.decoder = e.decoder ∧ e'.len ≤ LINEBUF_CAP := by
  unfold popWidth
  refine .get_bind ?_
  split_ifs with hz hlt
  · exact .pure ⟨rfl, hlen⟩
  · exact .of_ok rfl ⟨rfl, by dsimp only; omega⟩
  · omega

lemma handleByte_ascii (hb : b < 0x80) (hlen : con.echo.len ≤ LINEBUF_CAP) : (handleByte P b).Ends con E fun _ con' =>
    con'.echo.decoder.len = 0 ∧ con'.echo.len ≤ LINEBUF_CAP := by
  have hcap := ConsoleEcho.pushWidth_len hlen 1
  unfold handleByte
  split_ifs with hline hback
  · exact .modify_bind (.modify_bind (.of_ok rfl ⟨rfl, Nat.zero_le _⟩))
  · refine .get_bind ?_
    by_cases hp : con.echo.decoder.hasPending = true
    · rw [if_pos hp]
      exact .of_ok rfl ⟨rfl, hlen⟩
    · rw [if_neg hp]
      rw [hasPending_iff, not_not] at hp
      refine .bind (popWidth_ends hlen).focus ?_
      rintro r con1 - ⟨e, rfl, hd, he⟩
      have hzero : e.decoder.len = 0 := by rw [hd, hp]
      cases r with
      | none => exact .pure ⟨hzero, he⟩
      | some w =>
        refine .forM_range (I := fun _ (c : Console) => c.echo.decoder.len = 0 ∧ c.echo.len ≤ LINEBUF_CAP) ⟨hzero, he⟩ ?_
        exact fun _ _ _ hI => .of_ok rfl hI
  · refine .get_bind ?_
    by_cases hp : con.echo.decoder.hasPending = true
    · rw [if_pos hp]
      refine .modify_bind (.modify_bind (.modify_bind (.modify_bind (.of_ok rfl ?_))))
      have hcleared := ConsoleEcho.pushWidth_len (e := { con.echo.pushWidth 1 with decoder := (con.echo.pushWidth 1).decoder.clear }) hcap 1
      refine ⟨?_, hcleared⟩
      rw [ConsoleEcho.pushWidth_decoder]
      rfl
    · rw [if_neg hp]
      rw [hasPending_iff, not_not] at hp
      refine .modify_bind (.of_ok rfl ⟨?_, hcap⟩)
      rw [ConsoleEcho.pushWidth_decoder]
      exact hp

/-! ### Bytes for the decoder -/

lemma handler_pushes {rs : List Utf8PushResult} (hbs : ∀ b ∈ bs, ¬b < 0x80) (hlen : con.echo.len ≤ LINEBUF_CAP)
    (he : bs.mapM (push P) con.echo.decoder = .ok (rs, d')) : ∃ con', handler P bs con = .ok ((), con') ∧ con'.echo.decoder = d' ∧
      con'.out = con.out ++ rs.flatMap shown ∧ con'.echo.len ≤ LINEBUF_CAP := by
  induction bs generalizing con rs with
  | nil =>
    cases he
    exact ⟨con, rfl, rfl, (List.append_nil _).symm, hlen⟩
  | cons b bs ih =>
    rw [List.mapM_cons] at he
    obtain ⟨r, d1, hpush, he⟩ := K.bind_ok he
    obtain ⟨rs', d2, hrest, he⟩ := K.bind_ok he
    cases he
    obtain ⟨con1, he1, hd1, hout1, hlen1⟩ := handleByte_push (hbs b List.mem_cons_self) hlen hpush
    rw [← hd1] at hrest
    obtain ⟨con2, he2, hd2, hout2, hlen2⟩ := ih (fun x hx => hbs x (List.mem_cons_of_mem b hx)) hlen1 hrest
    refine ⟨con2, ?_, hd2, ?_, hlen2⟩
    · change (handleByte P b >>= fun _ => handler P bs) con = _
      rw [K.bind_of_ok he1, he2]
    · rw [hout2, hout1, List.flatMap_cons, List.append_assoc]

lemma byte_cases : ∀ n < 256, (isContinuation (UInt8.ofNat n) = true → utf8ExpectedLen (UInt8.ofNat n) = 0 ∧ ¬UInt8.ofNat n < 0x80) ∧
    (utf8ExpectedLen (UInt8.ofNat n) ≠ 0 → ¬UInt8.ofNat n < 0x80) := by decide +kernel

lemma isContinuation_expected (h : isContinuation b = true) : utf8ExpectedLen b = 0 ∧ ¬b < 0x80 := by
  have hcases := byte_cases b.toNat b.toNat_lt
  rw [UInt8.ofNat_toNat] at hcases
  exact hcases.1 h

lemma not_ascii_of_expected (h : utf8ExpectedLen b ≠ 0) : ¬b < 0x80 ∧ isContinuation b = false := by
  have hcases := byte_cases b.toNat b.toNat_lt
  rw [UInt8.ofNat_toNat] at hcases
  refine ⟨hcases.2 h, ?_⟩
  by_contra hc
  rw [Bool.not_eq_false] at hc
  exact h (hcases.1 hc).1

lemma push_stray (hrest : ∀ x ∈ rest, isContinuation x = true) (hd : d.len = 0) :
    rest.mapM (push P) d = .ok (List.replicate rest.length .invalid, d) := by
  induction rest with
  | nil => rfl
  | cons b rest ih =>
    have hb := (isContinuation_expected (hrest b List.mem_cons_self)).1
    rw [List.mapM_cons, K.bind_of_ok (push_invalid hd hb), K.bind_of_ok (ih fun x hx => hrest x (List.mem_cons_of_mem b hx))]
    rfl

/-- A first byte that comes while another character is pending is lost, and the bytes after it are invalid. -/
lemma push_swallowed (hb : utf8ExpectedLen b ≠ 0) (hrest : ∀ x ∈ rest, isContinuation x = true) (hd : d.len ≠ 0) :
    (b :: rest).mapM (push P) d = .ok (List.replicate (rest.length + 1) .invalid, d.clear) := by
  rw [List.mapM_cons, K.bind_of_ok (push_broken hd (not_ascii_of_expected hb).2), K.bind_of_ok (push_stray hrest rfl)]
  rfl

lemma push_part (h : Collected d bs) (hne : bs ≠ []) (hrest : ∀ x ∈ rest, isContinuation x = true)
    (hmore : bs.length + rest.length < d.need) : ∃ d', rest.mapM (push P) d = .ok (List.replicate rest.length .pending, d') ∧
      d'.len ≠ 0 := by
  induction rest generalizing d bs with
  | nil =>
    refine ⟨d, rfl, ?_⟩
    rw [h.len]
    exact (List.length_pos_iff.mpr hne).ne'
  | cons b rest ih =>
    rw [List.length_cons] at hmore
    obtain ⟨d1, he, hcol, hneed⟩ := push_more (P := P) h hne (hrest b List.mem_cons_self) (by omega)
    obtain ⟨d', he', hd'⟩ := ih hcol (by simp) (fun x hx => hrest x (List.mem_cons_of_mem b hx)) (by
      rw [hneed, List.length_append, List.length_singleton]
      omega)
    refine ⟨d', ?_, hd'⟩
    rw [List.mapM_cons, K.bind_of_ok he, K.bind_of_ok he']
    rfl

/-! ### Broken characters -/

/-- The first bytes of a character, without the last ones. -/
def IsTruncated (t : List UInt8) : Prop :=
  ∃ b rest, t = b :: rest ∧ rest.length + 1 < utf8ExpectedLen b ∧ ∀ x ∈ rest, isContinuation x = true

/-- At the end of `s` there are `n` truncated characters, one directly after the other. -/
inductive Trailing : List UInt8 → Nat → Prop
  | none {s : List UInt8} (h : ∀ p t, s = p ++ t → ¬IsTruncated t) : Trailing s 0
  | more {s t : List UInt8} {n : Nat} (h : Trailing s n) (ht : IsTruncated t) : Trailing (s ++ t) (n + 1)

lemma exists_trailing (s : List UInt8) : ∃ n, Trailing s n := by
  induction hn : s.length using Nat.strong_induction_on generalizing s with
  | _ n ih =>
    by_cases h : ∃ p t, s = p ++ t ∧ IsTruncated t
    · obtain ⟨p, t, rfl, ht⟩ := h
      have hpos : 0 < t.length := by
        obtain ⟨b, rest, rfl, -⟩ := ht
        exact Nat.succ_pos _
      obtain ⟨m, hm⟩ := ih p.length (by rw [← hn, List.length_append]; omega) p rfl
      exact ⟨m + 1, .more hm ht⟩
    · exact ⟨0, .none fun p t hs ht => h ⟨p, t, hs, ht⟩⟩

lemma handler_append (h : handler P s con = .ok ((), con')) : handler P (s ++ t) con = handler P t con' := by
  unfold handler at h ⊢
  rw [List.forM_eq_forM] at h ⊢
  rw [List.forM_append, K.bind_of_ok h]

lemma handler_truncated (ht : IsTruncated t) (hlen : con.echo.len ≤ LINEBUF_CAP) : ∃ con', handler P t con = .ok ((), con') ∧
    (con'.echo.decoder.len ≠ 0 ↔ con.echo.decoder.len = 0) ∧ con'.echo.len ≤ LINEBUF_CAP := by
  obtain ⟨b, rest, rfl, hshort, hrest⟩ := ht
  have hb : utf8ExpectedLen b ≠ 0 := by omega
  have hbytes : ∀ x ∈ b :: rest, ¬x < 0x80 := by
    intro x hx
    rcases List.mem_cons.mp hx with rfl | hx
    · exact (not_ascii_of_expected hb).1
    · exact (isContinuation_expected (hrest x hx)).2
  by_cases hd : con.echo.decoder.len = 0
  · have hmax := utf8ExpectedLen_cases b
    obtain ⟨d1, he, hcol, hneed⟩ := push_first (P := P) hd (by omega : 2 ≤ utf8ExpectedLen b) (by omega)
    obtain ⟨d', he', hd'⟩ := push_part (P := P) hcol (by simp) hrest (by rw [hneed, List.length_singleton]; omega)
    have hall : (b :: rest).mapM (push P) con.echo.decoder = .ok (.pending :: List.replicate rest.length .pending, d') := by
      rw [List.mapM_cons, K.bind_of_ok he, K.bind_of_ok he']
      rfl
    obtain ⟨con', hcon, hdec, -, hlen'⟩ := handler_pushes hbytes hlen hall
    exact ⟨con', hcon, iff_of_true (by rwa [hdec]) hd, hlen'⟩
  · obtain ⟨con', hcon, hdec, -, hlen'⟩ := handler_pushes hbytes hlen (push_swallowed (P := P) hb hrest hd)
    exact ⟨con', hcon, iff_of_false (by rw [hdec]; exact fun h => h rfl) hd, hlen'⟩

/-- What the decoder has collected from the end of `s`. -/
structure Pending (d : Utf8Decoder) (t : List UInt8) : Prop where
  collected : Collected d t
  first : ∃ b rest, t = b :: rest ∧ d.need = utf8ExpectedLen b ∧ ∀ x ∈ rest, isContinuation x = true

lemma push_pending (P : Profile) (h : d.len = 0 ∨ ∃ p t, s = p ++ t ∧ Pending d t) (b : UInt8) : ∃ r d', push P b d = .ok (r, d') ∧
    (d'.len = 0 ∨ ∃ p t, s ++ [b] = p ++ t ∧ Pending d' t) := by
  rcases h with hd | ⟨p, t, rfl, ht⟩
  · rcases utf8ExpectedLen_cases b with hb | ⟨hb, hb'⟩
    · exact ⟨_, d, push_invalid hd hb, .inl hd⟩
    · obtain ⟨d', he, hcol, hneed⟩ := push_first (P := P) hd hb hb'
      exact ⟨_, d', he, .inr ⟨s, [b], rfl, hcol, b, [], rfl, hneed, by simp⟩⟩
  · obtain ⟨a, rest, hcons, hneed, hrest⟩ := ht.first
    have hne : t ≠ [] := by
      rw [hcons]
      nofun
    have hlen := ht.collected.len
    have hpos := List.length_pos_iff.mpr hne
    have hshort := ht.collected.short
    cases hb : isContinuation b with
    | false => exact ⟨_, d.clear, push_broken (by omega) hb, .inl rfl⟩
    | true =>
      by_cases hmore : t.length + 1 < d.need
      · obtain ⟨d', he, hcol, hsame⟩ := push_more (P := P) ht.collected hne hb hmore
        refine ⟨_, d', he, .inr ⟨p, t ++ [b], List.append_assoc .., hcol, a, rest ++ [b], ?_, hsame.trans hneed, ?_⟩⟩
        · rw [hcons]
          rfl
        · intro x hx
          rcases List.mem_append.mp hx with hx | hx
          · exact hrest x hx
          · rwa [List.mem_singleton.mp hx]
      · obtain ⟨d', he, hd', -⟩ := push_last (P := P) ht.collected hne hb (by omega)
        exact ⟨_, d', he, .inl hd'⟩

lemma Pending.truncated (h : Pending d t) : IsTruncated t := by
  obtain ⟨b, rest, rfl, hneed, hrest⟩ := h.first
  have hlen := h.collected.len
  have hshort := h.collected.short
  rw [List.length_cons] at hlen
  exact ⟨b, rest, rfl, by omega, hrest⟩

/-- All bytes are handled, and what is pending is a truncated character at the end. -/
lemma handler_pending (P : Profile) (s : List UInt8) : ∃ con, handler P s .new = .ok ((), con) ∧ con.echo.len ≤ LINEBUF_CAP ∧
    (con.echo.decoder.len = 0 ∨ ∃ p t, s = p ++ t ∧ Pending con.echo.decoder t) := by
  induction s using List.reverseRecOn with
  | nil => exact ⟨.new, rfl, Nat.zero_le _, .inl rfl⟩
  | append_singleton s b ih =>
    obtain ⟨con, he, hlen, hp⟩ := ih
    rw [handler_append he]
    by_cases hb : b < 0x80
    · obtain ⟨u, con', he', hd, hlen'⟩ := (handleByte_ascii (P := P) (E := fun _ => False) hb hlen).exists_ok
      refine ⟨con', ?_, hlen', .inl hd⟩
      change (handleByte P b >>= fun _ => handler P []) con = _
      rw [K.bind_of_ok he']
      rfl
    · obtain ⟨r, d', hpush, hd'⟩ := push_pending P hp b
      obtain ⟨con', he', hdec, -, hlen'⟩ := handleByte_push hb hlen hpush
      refine ⟨con', ?_, hlen', by rwa [hdec]⟩
      change (handleByte P b >>= fun _ => handler P []) con = _
      rw [K.bind_of_ok he']
      rfl

lemma Trailing.pending_iff (h : Trailing s n) : ∃ con, handler P s .new = .ok ((), con) ∧ con.echo.len ≤ LINEBUF_CAP ∧
    (con.echo.decoder.len ≠ 0 ↔ Odd n) := by
  induction h with
  | none hnone =>
    obtain ⟨con, he, hlen, hp⟩ := handler_pending P _
    refine ⟨con, he, hlen, iff_of_false (fun hd => ?_) (by decide)⟩
    obtain ⟨p, t, hs, ht⟩ := hp.resolve_left hd
    exact hnone p t hs ht.truncated
  | more _ ht ih =>
    obtain ⟨con, he, hlen, hiff⟩ := ih
    obtain ⟨con', he', hnext, hlen'⟩ := handler_truncated (P := P) ht hlen
    refine ⟨con', (handler_append he).trans he', hlen', ?_⟩
    rw [hnext, Nat.odd_add_one, ← hiff, not_not]

/-! ### Characters after any bytes -/

lemma getLast_shown {c : Char} (out : List Char) : (out ++ (answers c).flatMap shown).getLast? = some c := by
  unfold answers
  rw [List.flatMap_append, ← List.append_assoc]
  exact List.getLast?_concat

/-- A character beyond ASCII is echoed after bytes that end in an even number of truncated characters, and after no others. -/
theorem console_resyncs_iff (P : Profile) (s : List UInt8) {c : Char} (hc : 0x80 ≤ c.toNat) : ∃ con,
    handler P (s ++ String.utf8EncodeChar c) .new = .ok ((), con) ∧
      (con.out.getLast? = some c ↔ c = replacement ∨ ∃ n, Even n ∧ Trailing s n) := by
  obtain ⟨n, hn⟩ := exists_trailing s
  obtain ⟨con, he, hlen, hodd⟩ := hn.pending_iff (P := P)
  have hn' : (∃ n, Even n ∧ Trailing s n) ↔ con.echo.decoder.len = 0 := by
    constructor
    · rintro ⟨m, heven, hm⟩
      obtain ⟨con', he', -, hodd'⟩ := hm.pending_iff (P := P)
      rw [he] at he'
      cases he'
      by_contra hd
      exact Nat.not_odd_iff_even.mpr heven (hodd'.mp hd)
    · exact fun hd => ⟨n, Nat.not_odd_iff_even.mp fun ho => hodd.mpr ho hd, hn⟩
  obtain ⟨b, rest, henc, hexp, -, -, hrest⟩ := utf8EncodeChar_shape hc
  have hb : utf8ExpectedLen b ≠ 0 := by omega
  have hbytes : ∀ x ∈ String.utf8EncodeChar c, ¬x < 0x80 := by
    rw [henc]
    intro x hx
    rcases List.mem_cons.mp hx with rfl | hx
    · exact (not_ascii_of_expected hb).1
    · exact (isContinuation_expected (hrest x hx)).2
  rw [handler_append he, hn']
  by_cases hd : con.echo.decoder.len = 0
  · obtain ⟨d', hall, -⟩ := push_char (P := P) hc hd
    obtain ⟨con', hcon, -, hout, -⟩ := handler_pushes hbytes hlen hall
    refine ⟨con', hcon, iff_of_true ?_ (.inr hd)⟩
    rw [hout, getLast_shown]
  · have hall := push_swallowed (P := P) hb hrest hd
    rw [← henc] at hall
    obtain ⟨con', hcon, -, hout, -⟩ := handler_pushes hbytes hlen hall
    refine ⟨con', hcon, ?_⟩
    rw [hout, List.flatMap_replicate]
    change (con.out ++ (List.replicate (rest.length + 1) [replacement]).flatten).getLast? = some c ↔ _
    rw [List.replicate_succ', List.flatten_append, ← List.append_assoc]
    refine Iff.trans ?_ (or_iff_left hd).symm
    change (_ ++ [replacement]).getLast? = some c ↔ _
    rw [List.getLast?_concat, Option.some_inj, eq_comm]

theorem console_resyncs_euro : ∃ con, handler .dev ([0xE2, 0xE2] ++ String.utf8EncodeChar '€') .new = .ok ((), con) ∧
    con.out.getLast? = some '€' := by
  have hc : 0x80 ≤ '€'.toNat := by decide
  obtain ⟨con, he, hiff⟩ := console_resyncs_iff .dev [0xE2, 0xE2] hc
  have ht : IsTruncated [0xE2] := ⟨0xE2, [], rfl, by decide, by simp⟩
  have hnone : Trailing [] 0 := .none fun p t hs ht => by
    obtain ⟨b, rest, rfl, -⟩ := ht
    simp at hs
  exact ⟨con, he, hiff.mpr (.inr ⟨2, by decide, .more (.more hnone ht) ht⟩)⟩

/-- After one truncated character all bytes of the next one are lost. After ASCII nothing is. -/
theorem console_swallows : (handler .dev ([0xE2] ++ String.utf8EncodeChar 'é') .new).map (fun r => r.2.out) =
      .ok [replacement, replacement] ∧
    (handler .dev ([0xE2, 0x41] ++ String.utf8EncodeChar 'é') .new).map (fun r => r.2.out) = .ok [replacement, 'A', 'é'] := by
  decide +kernel

end Glenda.Drivers.Utf8
