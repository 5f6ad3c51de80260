/-!
# UTF-8

Decoding of a sequence of bytes.  A sequence that is not well-formed is refused at the
first byte that cannot continue a well-formed sequence, and the fault tells where the
offending character begins and how many of its bytes were acceptable.
-/

namespace Prerequisite.Utf8

/-- The reason why a sequence of bytes is not well-formed. -/
inductive Fault where
  /-- After `start` bytes come `length` bytes which no continuation makes a character. -/
  | invalid (start length : Nat)
  /-- The sequence ends inside the character that begins after `start` bytes. -/
  | incomplete (start : Nat)
  deriving DecidableEq, Repr

/-- A character of which some bytes have been read. -/
structure Pending where
  /-- The bits read so far. -/
  code : Nat
  /-- The number of bytes read. -/
  taken : Nat
  /-- The number of bytes that are still to come. -/
  owed : Nat
  /-- The least next byte. -/
  low : UInt8
  /-- The greatest next byte. -/
  high : UInt8

/-- What a byte does at the beginning of a character. -/
inductive Lead where
  | complete (c : Char)
  | opens (p : Pending)
  | invalid

/-- The effect of the first byte of a character. The bounds on the second byte exclude
overlong forms, surrogates and numbers beyond the last code point. -/
def lead (b : UInt8) : Lead :=
  let opens (mark owed : Nat) (low high : UInt8) : Lead :=
    .opens ⟨b.toNat - mark, 1, owed, low, high⟩
  if b < 0x80 then .complete (Char.ofNat b.toNat)
  else if b < 0xC2 then .invalid
  else if b < 0xE0 then opens 0xC0 1 0x80 0xBF
  else if b = 0xE0 then opens 0xE0 2 0xA0 0xBF
  else if b = 0xED then opens 0xE0 2 0x80 0x9F
  else if b < 0xF0 then opens 0xE0 2 0x80 0xBF
  else if b = 0xF0 then opens 0xF0 3 0x90 0xBF
  else if b < 0xF4 then opens 0xF0 3 0x80 0xBF
  else if b = 0xF4 then opens 0xF0 3 0x80 0x8F
  else .invalid

/-- A text under construction: the number of bytes that form whole characters, these
characters in reverse, and the character that has been begun. -/
structure Progress where
  start : Nat := 0
  reversed : List Char := []
  pending : Option Pending := none

/-- The effect of one byte. -/
def step (s : Progress) (b : UInt8) : Except Fault Progress :=
  match s.pending with
  | none =>
    match lead b with
    | .complete c => .ok { s with start := s.start + 1, reversed := c :: s.reversed }
    | .opens p => .ok { s with pending := some p }
    | .invalid => .error (.invalid s.start 1)
  | some p =>
    if p.low ≤ b ∧ b ≤ p.high then
      let code := p.code * 64 + (b.toNat - 0x80)
      if p.owed = 1 then
        .ok { start := s.start + p.taken + 1, reversed := Char.ofNat code :: s.reversed }
      else
        .ok { s with pending := some ⟨code, p.taken + 1, p.owed - 1, 0x80, 0xBF⟩ }
    else
      .error (.invalid s.start p.taken)

/-- The characters that a sequence of bytes encodes. -/
def decode (bytes : List UInt8) : Except Fault (List Char) := do
  let s ← bytes.foldlM step {}
  match s.pending with
  | none => return s.reversed.reverse
  | some _ => throw (.incomplete s.start)

end Prerequisite.Utf8
