import Prerequisite.Proofs.ByteOrder
import Prerequisite.Proofs.Passages
import Prerequisite.Text.Utf8

/-!
# Bytes that encode a text

A sequence of bytes is decoded to a text exactly when it is the encoding of the text.  On the one
hand, the encoding of each character is decoded to that character, whatever stands before.  On the
other hand, the bytes that have been read are at any time the encoding of the characters that are
complete, followed by the bytes that begin the next one.
-/

namespace Prerequisite.Utf8

/-! ### Decoding of what is encoded -/

/-- The bytes that encode some characters. -/
def encode (text : List Char) : List UInt8 := text.flatMap String.utf8EncodeChar

theorem encode_append (text text' : List Char) :
  encode (text ++ text') = encode text ++ encode text'
  := List.flatMap_append

/-- A character among the first is encoded as its number. -/
theorem encode_cons_of_lt {c : Char} (h : c.toNat < 0x80) (rest : List Char) :
  encode (c :: rest) = UInt8.ofNat c.toNat :: encode rest
  := by
  have hcode : c.val.toNat ≤ 127 := Nat.le_of_lt_succ h
  rw [encode, List.flatMap_cons, String.utf8EncodeChar, if_pos hcode]
  rfl

theorem toNat_ofNat_of_lt {c : Char} (h : c.toNat < 0x80) :
  Char.ofNat (UInt8.ofNat c.toNat).toNat = c
  := by
  rw [UInt8.toNat_ofNat', Nat.mod_eq_of_lt (by omega), Char.ofNat_toNat]

theorem encode_toList (s : String) :
  encode s.toList = s.toByteArray.data.toList
  := by
  rw [← String.utf8Encode_toList, List.utf8Encode, List.toList_data_toByteArray]
  rfl

theorem lead_of_lt {b : UInt8} (h : b.toNat < 0x80) :
  lead b = .complete (Char.ofNat b.toNat)
  := by
  have hlt : b < 0x80 := UInt8.lt_iff_toNat_lt.mpr h
  rw [lead, if_pos hlt]

/-- The first of two bytes. -/
theorem lead_two {b : UInt8} (hlow : 0xC2 ≤ b.toNat) (hhigh : b.toNat < 0xE0) :
  lead b = .opens ⟨b.toNat - 0xC0, 1, 1, 0x80, 0xBF⟩
  := by
  simp only [lead, UInt8.lt_iff_toNat_lt, UInt8.toNat_ofNat]
  rw [if_neg (by omega), if_neg (by omega), if_pos (by omega)]

/-- The first of three bytes. -/
theorem lead_three {b : UInt8} (hlow : 0xE0 ≤ b.toNat) (hhigh : b.toNat < 0xF0) :
  lead b = .opens ⟨b.toNat - 0xE0, 1, 2, if b.toNat = 0xE0 then 0xA0 else 0x80,
    if b.toNat = 0xED then 0x9F else 0xBF⟩
  := by
  simp only [lead, UInt8.lt_iff_toNat_lt, ← UInt8.toNat_inj, UInt8.toNat_ofNat]
  rw [if_neg (by omega), if_neg (by omega), if_neg (by omega)]
  split_ifs <;> first | omega | rfl

/-- The first of four bytes. -/
theorem lead_four {b : UInt8} (hlow : 0xF0 ≤ b.toNat) (hhigh : b.toNat ≤ 0xF4) :
  lead b = .opens ⟨b.toNat - 0xF0, 1, 3, if b.toNat = 0xF0 then 0x90 else 0x80,
    if b.toNat = 0xF4 then 0x8F else 0xBF⟩
  := by
  simp only [lead, UInt8.lt_iff_toNat_lt, ← UInt8.toNat_inj, UInt8.toNat_ofNat]
  rw [if_neg (by omega), if_neg (by omega), if_neg (by omega), if_neg (by omega),
    if_neg (by omega), if_neg (by omega)]
  split_ifs <;> first | omega | rfl

section Step

variable {start code taken owed : ℕ} {reversed : List Char} {low high b : UInt8}

theorem step_of_lead_eq_complete {c : Char} (h : lead b = .complete c) :
  step ⟨start, reversed, none⟩ b = .ok ⟨start + 1, c :: reversed, none⟩
  := by
  simp only [step, h]

theorem step_of_lead_eq_opens {p : Pending} (h : lead b = .opens p) :
  step ⟨start, reversed, none⟩ b = .ok ⟨start, reversed, some p⟩
  := by
  simp only [step, h]

/-- A byte within the bounds adds six bits. -/
theorem step_inner (hlow : low.toNat ≤ b.toNat) (hhigh : b.toNat ≤ high.toNat) :
  step ⟨start, reversed, some ⟨code, taken, owed + 2, low, high⟩⟩ b
    = .ok ⟨start, reversed,
        some ⟨code * 64 + (b.toNat - 0x80), taken + 1, owed + 1, 0x80, 0xBF⟩⟩
  := by
  have hbounds : low ≤ b ∧ b ≤ high :=
    ⟨UInt8.le_iff_toNat_le.mpr hlow, UInt8.le_iff_toNat_le.mpr hhigh⟩
  simp [step, hbounds]

/-- The last byte adds six bits, and then the character is complete. -/
theorem step_last (hlow : low.toNat ≤ b.toNat) (hhigh : b.toNat ≤ high.toNat) :
  step ⟨start, reversed, some ⟨code, taken, 1, low, high⟩⟩ b
    = .ok ⟨start + taken + 1, Char.ofNat (code * 64 + (b.toNat - 0x80)) :: reversed, none⟩
  := by
  have hbounds : low ≤ b ∧ b ≤ high :=
    ⟨UInt8.le_iff_toNat_le.mpr hlow, UInt8.le_iff_toNat_le.mpr hhigh⟩
  simp [step, hbounds]

end Step

/-- The encoding of a character is decoded to that character. -/
theorem foldlM_step_encodeChar (c : Char) (start : ℕ) (reversed : List Char) :
  ∃ start', (String.utf8EncodeChar c).foldlM step ⟨start, reversed, none⟩
    = .ok ⟨start', c :: reversed, none⟩
  := by
  have hvalid : c.toNat < 0xD800 ∨ 0xDFFF < c.toNat ∧ c.toNat < 0x110000 := c.valid
  have hencoding := Text.encoding_eq c
  unfold Text.encoding at hencoding
  split_ifs at hencoding with hone htwo hthree
  -- The code that is read is put together from six bits of each byte after the first.
  all_goals simp only [List.map_eq_cons_iff, List.map_eq_nil_iff] at hencoding
  · obtain ⟨b, _, hbytes, hb, rfl⟩ := hencoding
    have hlead := lead_of_lt (b := b) (by omega)
    rw [hb, Char.ofNat_toNat] at hlead
    rw [hbytes, foldlM_cons_of_step (step_of_lead_eq_complete hlead)]
    exact ⟨_, rfl⟩
  · obtain ⟨b₀, _, hbytes, h₀, b₁, _, rfl, h₁, rfl⟩ := hencoding
    have hlead := lead_two (b := b₀) (by omega) (by omega)
    have hcode : (b₀.toNat - 0xC0) * 64 + (b₁.toNat - 0x80) = c.toNat := by omega
    rw [hbytes, foldlM_cons_of_step (step_of_lead_eq_opens hlead),
      foldlM_cons_of_step (step_last (by simp; omega) (by simp; omega)), hcode, Char.ofNat_toNat]
    exact ⟨_, rfl⟩
  · obtain ⟨b₀, _, hbytes, h₀, b₁, _, rfl, h₁, b₂, _, rfl, h₂, rfl⟩ := hencoding
    have hlead := lead_three (b := b₀) (by omega) (by omega)
    have hcode :
        ((b₀.toNat - 0xE0) * 64 + (b₁.toNat - 0x80)) * 64 + (b₂.toNat - 0x80) = c.toNat := by
      omega
    rw [hbytes, foldlM_cons_of_step (step_of_lead_eq_opens hlead),
      foldlM_cons_of_step (step_inner (by split_ifs <;> simp <;> omega)
        (by split_ifs <;> simp <;> omega)),
      foldlM_cons_of_step (step_last (by simp; omega) (by simp; omega)), hcode, Char.ofNat_toNat]
    exact ⟨_, rfl⟩
  · obtain ⟨b₀, _, hbytes, h₀, b₁, _, rfl, h₁, b₂, _, rfl, h₂, b₃, _, rfl, h₃, rfl⟩ := hencoding
    have hlead := lead_four (b := b₀) (by omega) (by omega)
    have hcode :
        (((b₀.toNat - 0xF0) * 64 + (b₁.toNat - 0x80)) * 64 + (b₂.toNat - 0x80)) * 64
          + (b₃.toNat - 0x80) = c.toNat := by
      omega
    rw [hbytes, foldlM_cons_of_step (step_of_lead_eq_opens hlead),
      foldlM_cons_of_step (step_inner (by split_ifs <;> simp <;> omega)
        (by split_ifs <;> simp <;> omega)),
      foldlM_cons_of_step (step_inner (by simp; omega) (by simp; omega)),
      foldlM_cons_of_step (step_last (by simp; omega) (by simp; omega)), hcode, Char.ofNat_toNat]
    exact ⟨_, rfl⟩

/-- What some characters are encoded to is decoded to these characters. -/
theorem decode_encode (text : List Char) :
  decode (encode text) = .ok text
  := by
  have hrun : ∀ (start : ℕ) (reversed : List Char), ∃ start',
      (encode text).foldlM step ⟨start, reversed, none⟩
        = .ok ⟨start', text.reverse ++ reversed, none⟩ := by
    induction text with
    | nil => exact fun start reversed => ⟨start, rfl⟩
    | cons c rest ih =>
      intro start reversed
      obtain ⟨middle, hhead⟩ := foldlM_step_encodeChar c start reversed
      obtain ⟨start', hrest⟩ := ih middle (c :: reversed)
      use start'
      rw [encode, List.flatMap_cons, foldlM_append_of_foldlM hhead, List.reverse_cons,
        List.append_assoc]
      exact hrest
  obtain ⟨start', hdecoded⟩ := hrun 0 []
  rw [decode, hdecoded, List.append_nil]
  simp only [pure, Except.pure, bind, Except.bind, List.reverse_reverse]

/-! ### Encoding of what is decoded -/

/-- The numbers of the bytes of a character that is not complete, as they are kept. The character
has two, three or four bytes, and the bounds exclude those that no character has. -/
inductive Begins (p : Pending) (opened : List ℕ) : Prop where
  | oneOfTwo : p.owed = 1 → opened = [192 + p.code] → 0x02 ≤ p.code → p.code < 0x20 →
      Begins p opened
  | oneOfThree : p.owed = 2 → opened = [224 + p.code] → p.code < 0x10 →
      (p.code = 0x00 → 0xA0 ≤ p.low.toNat) → (p.code = 0x0D → p.high.toNat ≤ 0x9F) →
      Begins p opened
  | twoOfThree : p.owed = 1 → opened = [224 + p.code / 64, 128 + p.code % 64] →
      0x20 ≤ p.code → p.code < 0x360 ∨ 0x37F < p.code ∧ p.code < 0x400 → Begins p opened
  | oneOfFour : p.owed = 3 → opened = [240 + p.code] → p.code ≤ 0x04 →
      (p.code = 0x00 → 0x90 ≤ p.low.toNat) → (p.code = 0x04 → p.high.toNat ≤ 0x8F) →
      Begins p opened
  | twoOfFour : p.owed = 2 → opened = [240 + p.code / 64, 128 + p.code % 64] →
      0x10 ≤ p.code → p.code < 0x110 → Begins p opened
  | threeOfFour : p.owed = 1 →
      opened = [240 + p.code / 64 / 64, 128 + p.code / 64 % 64, 128 + p.code % 64] →
      0x400 ≤ p.code → p.code < 0x4400 → Begins p opened

/-- The bytes that may continue a character are among those that continue characters. -/
def Pending.IsBounded (p : Pending) : Prop := 0x80 ≤ p.low.toNat ∧ p.high.toNat ≤ 0xBF

theorem toNat_ofNat_of_isValidChar {n : ℕ} (h : n.isValidChar) :
  (Char.ofNat n).toNat = n
  := by
  rw [Char.ofNat, dif_pos h]
  rfl

theorem encoding_of_lead {b : UInt8} {c : Char} (h : lead b = .complete c) :
  Text.encoding c = [b.toNat]
  := by
  simp only [lead, UInt8.lt_iff_toNat_lt, UInt8.toNat_ofNat] at h
  split_ifs at h with hlow
  simp only [Lead.complete.injEq] at h
  subst h
  rw [Text.encoding_eq, toNat_ofNat_of_isValidChar (.inl (by omega)), if_pos (by omega)]

section Continuation

variable {p : Pending} {opened : List ℕ} {b : UInt8}

/-- The first byte of a character begins it. -/
theorem begins_of_lead (h : lead b = .opens p) :
  p.IsBounded ∧ Begins p [b.toNat]
  := by
  simp only [lead, UInt8.lt_iff_toNat_lt, ← UInt8.toNat_inj, UInt8.toNat_ofNat] at h
  split_ifs at h
  all_goals
    obtain rfl := Lead.opens.inj h
    refine ⟨by simp [Pending.IsBounded], ?_⟩
  · apply Begins.oneOfTwo <;> simp <;> omega
  · apply Begins.oneOfThree <;> simp <;> omega
  · apply Begins.oneOfThree <;> simp <;> omega
  · apply Begins.oneOfThree <;> simp <;> omega
  · apply Begins.oneOfFour <;> simp <;> omega
  · apply Begins.oneOfFour <;> simp <;> omega
  · apply Begins.oneOfFour <;> simp <;> omega

variable (hbounded : p.IsBounded) (hlow : p.low.toNat ≤ b.toNat) (hhigh : b.toNat ≤ p.high.toNat)

include hbounded hlow hhigh

/-- A byte that continues a character adds six bits. -/
theorem Begins.append (h : Begins p opened) (howed : p.owed ≠ 1) :
  Begins ⟨p.code * 64 + (b.toNat - 0x80), p.taken + 1, p.owed - 1, 0x80, 0xBF⟩
    (opened ++ [b.toNat])
  := by
  obtain ⟨hlow', hhigh'⟩ := hbounded
  cases h with
  | oneOfTwo howed' => omega
  | twoOfThree howed' => omega
  | threeOfFour howed' => omega
  | oneOfThree howed' hopened =>
    apply Begins.twoOfThree <;> simp [hopened, howed'] <;> omega
  | oneOfFour howed' hopened =>
    apply Begins.twoOfFour <;> simp [hopened, howed'] <;> omega
  | twoOfFour howed' hopened =>
    apply Begins.threeOfFour <;> simp [hopened, howed'] <;> omega

/-- The last byte of a character completes its encoding. -/
theorem Begins.encoding_eq (h : Begins p opened) (howed : p.owed = 1) :
  Text.encoding (Char.ofNat (p.code * 64 + (b.toNat - 0x80))) = opened ++ [b.toNat]
  := by
  obtain ⟨hlow', hhigh'⟩ := hbounded
  have hvalid : (p.code * 64 + (b.toNat - 0x80)).isValidChar := by
    unfold Nat.isValidChar
    cases h <;> omega
  rw [Text.encoding_eq, toNat_ofNat_of_isValidChar hvalid]
  cases h with
  | oneOfThree howed' => omega
  | oneOfFour howed' => omega
  | twoOfFour howed' => omega
  | oneOfTwo _ hopened =>
    rw [if_neg (by omega), if_pos (by omega)]
    simp [hopened]
    omega
  | twoOfThree _ hopened =>
    rw [if_neg (by omega), if_neg (by omega), if_pos (by omega)]
    simp [hopened]
    omega
  | threeOfFour _ hopened =>
    rw [if_neg (by omega), if_neg (by omega), if_neg (by omega)]
    simp [hopened]
    omega

end Continuation

/-- What has been read so far is the encoding of the characters that are complete, and then the
bytes that begin the next one. -/
def IsAfter (s : Progress) (bytes : List UInt8) : Prop :=
  ∃ opened : List ℕ, bytes.map UInt8.toNat = s.reversed.reverse.flatMap Text.encoding ++ opened
    ∧ (s.pending = none ∧ opened = [] ∨ ∃ p, s.pending = some p ∧ p.IsBounded ∧ Begins p opened)

/-- One more byte is read. -/
theorem IsAfter.append {s s' : Progress} {bytes : List UInt8} {b : UInt8} (h : IsAfter s bytes)
    (hstep : step s b = .ok s') :
  IsAfter s' (bytes ++ [b])
  := by
  obtain ⟨opened, hbytes, ⟨hpending, rfl⟩ | ⟨p, hpending, hbounded, hbegins⟩⟩ := h
  · simp only [step, hpending] at hstep
    cases hlead : lead b with
    | complete c =>
      obtain rfl : _ = s' := by simpa [hlead] using hstep
      use []
      simp [hbytes, encoding_of_lead hlead]
    | opens p =>
      obtain rfl : _ = s' := by simpa [hlead] using hstep
      use [b.toNat]
      simp [hbytes, begins_of_lead hlead]
    | invalid => simp [hlead] at hstep
  · simp only [step, hpending] at hstep
    split_ifs at hstep with hwithin howed
    all_goals obtain rfl := Except.ok.inj hstep
    all_goals obtain ⟨hlow, hhigh⟩ := hwithin
    all_goals rw [UInt8.le_iff_toNat_le] at hlow hhigh
    · use []
      simp [hbytes, hbegins.encoding_eq hbounded hlow hhigh howed]
    · use opened ++ [b.toNat]
      simp [hbytes, hbegins.append hbounded hlow hhigh howed, Pending.IsBounded]

theorem isAfter_of_foldlM {s : Progress} {before bytes : List UInt8} (h : IsAfter s before)
    {s' : Progress} (hrun : bytes.foldlM step s = .ok s') :
  IsAfter s' (before ++ bytes)
  := by
  induction bytes generalizing s before with
  | nil =>
    obtain rfl := Except.ok.inj hrun
    rwa [List.append_nil]
  | cons b rest ih =>
    rw [List.foldlM_cons, bind_eq_ok_iff] at hrun
    obtain ⟨next, hstep, hrest⟩ := hrun
    rw [List.append_cons]
    apply ih (h.append hstep) hrest

/-- Some bytes are decoded to a text exactly when they are its encoding. -/
theorem decode_eq_ok_iff {bytes : List UInt8} {text : List Char} :
  decode bytes = .ok text ↔ bytes = encode text
  := by
  constructor
  · intro h
    rw [decode, bind_eq_ok_iff] at h
    obtain ⟨s, hrun, hdone⟩ := h
    have hempty : IsAfter {} [] := ⟨[], rfl, .inl ⟨rfl, rfl⟩⟩
    obtain ⟨opened, hbytes, ⟨hpending, rfl⟩ | ⟨p, hpending, -⟩⟩ := isAfter_of_foldlM hempty hrun
    · simp only [hpending] at hdone
      obtain rfl := Except.ok.inj hdone
      apply List.map_injective_iff.mpr fun _ _ => UInt8.toNat_inj.mp
      rw [← List.nil_append bytes, hbytes, List.append_nil, encode, List.map_flatMap]
      rfl
    · simp only [hpending] at hdone
      cases hdone
  · rintro rfl
    apply decode_encode

/-- Bytes that encode no text are refused. -/
theorem exists_decode_eq_error_iff {bytes : List UInt8} :
  (∃ fault, decode bytes = .error fault) ↔ ¬ ∃ text, bytes = encode text
  := by
  simp only [← decode_eq_ok_iff]
  cases decode bytes <;> simp

/-- Each character has a byte. -/
theorem length_le_length_encode (text : List Char) :
  text.length ≤ (encode text).length
  := by
  induction text with
  | nil => apply le_rfl
  | cons c rest ih =>
    have hpos := List.length_pos_iff.mpr (String.utf8EncodeChar_ne_nil (c := c))
    rw [encode, List.flatMap_cons, List.length_append, List.length_cons, ← encode]
    omega

end Prerequisite.Utf8
