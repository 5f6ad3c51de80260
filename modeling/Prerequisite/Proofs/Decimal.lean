import Mathlib.Algebra.Order.Ring.Nat
import Prerequisite.Decimal

/-!
# Numerals read back

The numeral of a 64-bit integer is read as that integer.  A text of digits is read as the
number they spell as long as that number is in range: the number read so far never falls, so
that no digit before the last can carry it out of range.  A text is read as an integer exactly when
it is a numeral of that integer, which may have a sign and leading zeros that are not written.
-/

namespace Prerequisite.Decimal

/-! ### The characters of a numeral -/

/-- The numeral of a natural number consists of digits. -/
theorem isDigit_of_mem_toDigits {n : ℕ} {c : Char} (h : c ∈ Nat.toDigits 10 n) :
  c.isDigit
  := Nat.isDigit_of_mem_toDigits (by decide) (by decide) h

/-- A numeral consists of minus signs and digits. -/
theorem eq_minus_or_isDigit_of_mem_digits {n : Int64} {c : Char} (h : c ∈ digits n) :
  c = '-' ∨ c.isDigit
  := by
  unfold digits at h
  split at h
  · obtain rfl | hmem := List.mem_cons.mp h
    · left
      rfl
    · right
      apply isDigit_of_mem_toDigits hmem
  · right
    apply isDigit_of_mem_toDigits h

/-- A numeral does not begin with a superfluous zero. -/
theorem toDigits_eq_zero_or (n : ℕ) :
  n = 0 ∧ Nat.toDigits 10 n = ['0'] ∨ ∃ c rest, Nat.toDigits 10 n = c :: rest ∧ c ≠ '0'
  := by
  induction n using Nat.strongRecOn with
  | ind n ih =>
    rw [Nat.toDigits_eq_if (by decide)]
    split
    case isTrue hlt =>
      have hdigit : ∀ m < 10, m ≠ 0 → m.digitChar ≠ '0' := by decide
      by_cases hzero : n = 0
      · left
        use hzero
        rw [hzero]
        rfl
      · right
        use n.digitChar, [], rfl, hdigit n hlt hzero
    case isFalse hle =>
      right
      obtain ⟨hzero, -⟩ | ⟨c, rest, hdigits, hne⟩ := ih (n / 10) (by omega)
      · omega
      · use c, rest ++ [(n % 10).digitChar]
        rw [hdigits]
        exact ⟨rfl, hne⟩

theorem exists_toDigits_eq_cons (n : ℕ) :
  ∃ c rest, Nat.toDigits 10 n = c :: rest ∧ c.isDigit ∧ ∀ d ∈ rest, d.isDigit
  := by
  obtain ⟨c, rest, hdigits⟩ := List.exists_cons_of_ne_nil (Nat.toDigits_ne_nil (n := n) (b := 10))
  have hdigit : ∀ d ∈ Nat.toDigits 10 n, d.isDigit := fun d => isDigit_of_mem_toDigits
  rw [hdigits, List.forall_mem_cons] at hdigit
  use c, rest, hdigits

/-! ### Reading digits -/

/-- Further digits do not make a number smaller. -/
theorem le_ofDigitChars (text : List Char) (value : Nat) :
  value ≤ Nat.ofDigitChars 10 text value
  := by
  rw [Nat.ofDigitChars_eq_ofDigitChars_zero]
  have hone : 1 ≤ 10 ^ text.length := Nat.one_le_pow _ _ (by decide)
  calc
    value = 1 * value := (one_mul value).symm
    _ ≤ 10 ^ text.length * value := Nat.mul_le_mul_right value hone
    _ ≤ 10 ^ text.length * value + Nat.ofDigitChars 10 text 0 := Nat.le_add_right _ _

/-- Digits are read as the number that they spell, if it is within the bound. -/
theorem readDigits_of_le {bound : Nat} {excess : Fault} {text : List Char}
    (hdigit : ∀ c ∈ text, c.isDigit) {value : Nat}
    (hbound : Nat.ofDigitChars 10 text value ≤ bound) :
  readDigits bound excess value text = .ok (Nat.ofDigitChars 10 text value)
  := by
  induction text generalizing value with
  | nil => rfl
  | cons c rest ih =>
    obtain ⟨hhead, hrest⟩ := List.forall_mem_cons.mp hdigit
    rw [Nat.ofDigitChars_cons] at hbound ⊢
    have hnext := (le_ofDigitChars rest _).trans hbound
    rw [readDigits, if_pos hhead]
    simp only [if_pos hnext]
    apply ih hrest hbound

/-- The digits of a number are read as that number, if it is within the bound. -/
theorem readDigits_toDigits {bound : Nat} {excess : Fault} {n : Nat} (hbound : n ≤ bound) :
  readDigits bound excess 0 (Nat.toDigits 10 n) = .ok n
  := by
  have hdigit : ∀ c ∈ Nat.toDigits 10 n, c.isDigit := fun c => isDigit_of_mem_toDigits
  rw [readDigits_of_le hdigit] <;> rw [Nat.ofDigitChars_ten_toDigits]
  apply hbound

/-! ### Reading numerals -/

/-- What follows a minus sign is read as an absolute value. -/
theorem read_minus {text : List Char} (h : text ≠ []) :
  read ('-' :: text)
    = (readDigits negativeBound .tooSmall 0 text).map fun n : Nat => Int64.ofInt (-(n : Int))
  := by
  cases text with
  | nil => contradiction
  | cons c rest =>
    simp only [read]
    cases readDigits negativeBound .tooSmall 0 (c :: rest) <;> rfl

/-- A text without a sign is read as digits. -/
theorem read_unsigned {c : Char} (hminus : c ≠ '-') (hplus : c ≠ '+') (rest : List Char) :
  read (c :: rest) = (readDigits positiveBound .tooLarge 0 (c :: rest)).map Int64.ofNat
  := by
  unfold read
  split <;> simp_all

/-- A text that begins with a digit has no sign. -/
theorem read_of_isDigit {c : Char} (h : c.isDigit) (rest : List Char) :
  read (c :: rest) = (readDigits positiveBound .tooLarge 0 (c :: rest)).map Int64.ofNat
  := by
  apply read_unsigned
  · rintro rfl
    contradiction
  · rintro rfl
    contradiction

/-- The numeral of an integer is read as that integer. The absolute value of the smallest
integer exceeds the largest integer, but not the bound for what follows a minus sign. -/
theorem read_digits (n : Int64) :
  read (digits n) = .ok n
  := by
  have hlower := n.le_toInt
  have hupper := n.toInt_lt
  unfold digits
  split
  case isTrue hnegative =>
    have hneg : n.toInt < 0 := Int64.lt_iff_toInt_lt.mp hnegative
    have hbound : n.toInt.natAbs ≤ negativeBound := by unfold negativeBound; omega
    have htoInt : -(n.toInt.natAbs : Int) = n.toInt := by omega
    rw [read_minus Nat.toDigits_ne_nil, readDigits_toDigits hbound]
    simp only [Except.map, htoInt, Int64.ofInt_toInt]
  case isFalse hnonnegative =>
    have hnonneg : 0 ≤ n.toInt := by
      rw [Int64.lt_iff_toInt_lt] at hnonnegative
      exact not_lt.mp hnonnegative
    have hbound : n.toInt.natAbs ≤ positiveBound := by unfold positiveBound; omega
    have htoInt : (n.toInt.natAbs : Int) = n.toInt := Int.natAbs_of_nonneg hnonneg
    obtain ⟨c, rest, hdigits, hdigit, -⟩ := exists_toDigits_eq_cons n.toInt.natAbs
    rw [hdigits, read_of_isDigit hdigit, ← hdigits, readDigits_toDigits hbound]
    simp only [Except.map, ← Int64.ofInt_eq_ofNat, htoInt, Int64.ofInt_toInt]

/-! ### What numerals denote -/

/-- The text is a numeral of the integer: an optional sign, and then digits, one at least, that
spell its absolute value. -/
def Denotes (text : List Char) (n : Int64) : Prop :=
  ∃ digits : List Char, digits ≠ [] ∧ (∀ c ∈ digits, c.isDigit)
    ∧ ((text = digits ∨ text = '+' :: digits) ∧ n.toInt = Nat.ofDigitChars 10 digits 0
      ∨ text = '-' :: digits ∧ n.toInt = -Nat.ofDigitChars 10 digits 0)

/-- What is read are digits, and they spell the number that is read. -/
theorem readDigits_eq_ok_iff {bound : Nat} {excess : Fault} {text : List Char} {value n : Nat}
    (hvalue : value ≤ bound) :
  readDigits bound excess value text = .ok n
    ↔ (∀ c ∈ text, c.isDigit) ∧ Nat.ofDigitChars 10 text value = n ∧ n ≤ bound
  := by
  constructor
  · intro h
    induction text generalizing value with
    | nil =>
      obtain rfl := Except.ok.inj h
      simpa using hvalue
    | cons c rest ih =>
      unfold readDigits at h
      split at h
      case isFalse => cases h
      case isTrue hdigit =>
        simp only at h
        split at h
        case isFalse => cases h
        case isTrue hnext =>
          rw [List.forall_mem_cons, Nat.ofDigitChars_cons, and_assoc]
          use hdigit
          apply ih hnext h
  · rintro ⟨hdigit, rfl, hbound⟩
    apply readDigits_of_le hdigit hbound

/-- Let the bound for absolute values be the one for the sign of a numeral. Then its digits are read
exactly when they spell an integer with that sign. -/
theorem map_readDigits_eq_ok_iff
    {bound : Nat} {excess : Fault} {toInteger : Nat → Int64} {signed : Nat → Int}
    (hbound : ∀ (m : Nat) (n : Int64), m ≤ bound ∧ toInteger m = n ↔ n.toInt = signed m)
    {text : List Char} {n : Int64} :
  (readDigits bound excess 0 text).map toInteger = .ok n
    ↔ (∀ c ∈ text, c.isDigit) ∧ n.toInt = signed (Nat.ofDigitChars 10 text 0)
  := by
  rw [← hbound]
  constructor
  · intro h
    rcases hread : readDigits bound excess 0 text with _ | m <;> rw [hread] at h
    · cases h
    · obtain ⟨hdigit, rfl, hle⟩ := (readDigits_eq_ok_iff bound.zero_le).mp hread
      use hdigit, hle, Except.ok.inj h
  · rintro ⟨hdigit, hle, rfl⟩
    rw [readDigits_of_le hdigit hle]
    rfl

theorem ofNat_eq_iff (m : Nat) (n : Int64) :
  m ≤ positiveBound ∧ Int64.ofNat m = n ↔ n.toInt = m
  := by
  have hupper := n.toInt_lt
  unfold positiveBound
  constructor
  · rintro ⟨hle, rfl⟩
    apply Int64.toInt_ofNat_of_lt
    omega
  · intro h
    constructor
    · omega
    · rw [← Int64.ofInt_eq_ofNat, ← h, Int64.ofInt_toInt]

theorem ofInt_neg_eq_iff (m : Nat) (n : Int64) :
  m ≤ negativeBound ∧ Int64.ofInt (-(m : Int)) = n ↔ n.toInt = -m
  := by
  have hlower := n.le_toInt
  unfold negativeBound
  constructor
  · rintro ⟨hle, rfl⟩
    apply Int64.toInt_ofInt_of_le <;> omega
  · intro h
    constructor
    · omega
    · rw [← h, Int64.ofInt_toInt]

/-- What follows a plus sign is read as it is without the sign. -/
theorem read_plus {text : List Char} (h : text ≠ []) :
  read ('+' :: text) = (readDigits positiveBound .tooLarge 0 text).map Int64.ofNat
  := by
  cases text with
  | nil => contradiction
  | cons c rest => rfl

theorem denotes_minus_iff {text : List Char} {n : Int64} :
  Denotes ('-' :: text) n
    ↔ text ≠ [] ∧ (∀ c ∈ text, c.isDigit) ∧ n.toInt = -Nat.ofDigitChars 10 text 0
  := by
  constructor
  · rintro ⟨digits, hne, hdigit, ⟨rfl | hplus, -⟩ | ⟨hminus, hvalue⟩⟩
    · exact absurd (hdigit '-' List.mem_cons_self) (by decide)
    · cases hplus
    · obtain ⟨-, rfl⟩ := List.cons.inj hminus
      use hne
  · rintro ⟨hne, hdigit, hvalue⟩
    use text, hne, hdigit, .inr ⟨rfl, hvalue⟩

theorem denotes_plus_iff {text : List Char} {n : Int64} :
  Denotes ('+' :: text) n
    ↔ text ≠ [] ∧ (∀ c ∈ text, c.isDigit) ∧ n.toInt = Nat.ofDigitChars 10 text 0
  := by
  constructor
  · rintro ⟨digits, hne, hdigit, ⟨rfl | hplus, hvalue⟩ | ⟨hminus, -⟩⟩
    · exact absurd (hdigit '+' List.mem_cons_self) (by decide)
    · obtain ⟨-, rfl⟩ := List.cons.inj hplus
      use hne
    · cases hminus
  · rintro ⟨hne, hdigit, hvalue⟩
    use text, hne, hdigit, .inl ⟨.inr rfl, hvalue⟩

theorem denotes_unsigned_iff {c : Char} (hminus : c ≠ '-') (hplus : c ≠ '+') {rest : List Char}
    {n : Int64} :
  Denotes (c :: rest) n
    ↔ (∀ d ∈ c :: rest, d.isDigit) ∧ n.toInt = Nat.ofDigitChars 10 (c :: rest) 0
  := by
  constructor
  · rintro ⟨digits, -, hdigit, ⟨rfl | h, hvalue⟩ | ⟨h, -⟩⟩
    · use hdigit
    · exact absurd (List.cons.inj h).1 hplus
    · exact absurd (List.cons.inj h).1 hminus
  · rintro ⟨hdigit, hvalue⟩
    use c :: rest, List.cons_ne_nil _ _, hdigit, .inl ⟨.inl rfl, hvalue⟩

/-- A text is read as an integer exactly when it is a numeral of the integer. -/
theorem read_eq_ok_iff {text : List Char} {n : Int64} :
  read text = .ok n ↔ Denotes text n
  := by
  rcases text with _ | ⟨c, rest⟩
  · simp [read, Denotes]
  by_cases hminus : c = '-'
  · rw [hminus, denotes_minus_iff]
    by_cases hempty : rest = []
    · simp [hempty, read]
    · rw [read_minus hempty, map_readDigits_eq_ok_iff ofInt_neg_eq_iff]
      simp [hempty]
  by_cases hplus : c = '+'
  · rw [hplus, denotes_plus_iff]
    by_cases hempty : rest = []
    · simp [hempty, read]
    · rw [read_plus hempty, map_readDigits_eq_ok_iff ofNat_eq_iff]
      simp [hempty]
  · rw [read_unsigned hminus hplus, denotes_unsigned_iff hminus hplus,
      map_readDigits_eq_ok_iff ofNat_eq_iff]

end Prerequisite.Decimal
