import Mathlib.Data.List.TakeWhile
import Mathlib.Data.List.TakeDrop
import Prerequisite.Proofs.Decimal
import Prerequisite.Proofs.Json.Text

/-!
# Tokens of what is written

The written form of a value is cut into the tokens of that value.  A number and a word end only with
the character after them, so that there are two sorts of boundaries between pieces of a text: those
where nothing is being read, and those where a token may still wait for its end.  A value begins at
one of the first sort and may end at one of the second; a bracket, a separator or the beginning of a
line ends whatever waits.
-/

namespace Prerequisite.Json

open Token

/-! ### Boundaries between tokens -/

/-- The scan is at a boundary between tokens, after the given ones in reverse.  A number or a word
may wait for its end. -/
def Settled (s : Scan) (before : List Token) : Prop :=
  match s.reading with
  | .between => s.reversed = before
  | .word word => ∃ token, ofWord? word.reverse = some token ∧ token :: s.reversed = before
  | .number spelling =>
    ∃ token, ofNumber? spelling.reverse = some token ∧ token :: s.reversed = before
  | _ => False

/-- The scan is at a boundary between tokens, after the given ones in reverse, and nothing waits for
its end. -/
def Between (s : Scan) (before : List Token) : Prop := s = ⟨.between, before⟩

/-- From a boundary of the one sort, a text leads to a boundary of the other sort, and it has the
tokens in between. -/
def Scans (source target : Scan → List Token → Prop) (text : List Char) (tokens : List Token) :
    Prop :=
  ∀ s before, source s before →
    ∃ s', (Utf8.encode text).foldlM Scan.step s = some s' ∧ target s' (tokens.reverse ++ before)

section Scans

variable {source middle target : Scan → List Token → Prop} {text text' : List Char}
    {tokens tokens' : List Token}

theorem Between.settled {s : Scan} {before : List Token} (h : Between s before) :
  Settled s before
  := by
  rw [h]
  rfl

theorem Scans.append (h : Scans source middle text tokens)
    (h' : Scans middle target text' tokens') :
  Scans source target (text ++ text') (tokens ++ tokens')
  := by
  intro s before hs
  obtain ⟨s', hrun, hs'⟩ := h s before hs
  obtain ⟨s'', hrun', hs''⟩ := h' s' _ hs'
  use s''
  rw [Utf8.encode_append, foldlM_append_of_foldlM hrun, List.reverse_append, List.append_assoc]
  use hrun'

theorem Scans.from_between (h : Scans Settled target text tokens) :
  Scans Between target text tokens
  := fun s before hs => h s before hs.settled

theorem Scans.to_settled (h : Scans source Between text tokens) :
  Scans source Settled text tokens
  := by
  intro s before hs
  obtain ⟨s', hrun, hs'⟩ := h s before hs
  use s', hrun, hs'.settled

end Scans

/-! ### Characters between tokens -/

/-- A character that belongs neither to a number nor to a word ends what waits. -/
theorem Settled.step {s : Scan} {before : List Token} (h : Settled s before) {b : UInt8}
    (hnumber : ¬ isNumberChar (Char.ofNat b.toNat)) (hword : ¬ (Char.ofNat b.toNat).isAlpha) :
  s.step b = Scan.start before (Char.ofNat b.toNat)
  := by
  obtain ⟨reading, reversed⟩ := s
  cases reading with
  | between =>
    obtain rfl : reversed = before := h
    rfl
  | word word =>
    obtain ⟨token, htoken, rfl⟩ := h
    simp [Scan.step, hword, htoken]
  | number spelling =>
    obtain ⟨token, htoken, rfl⟩ := h
    simp [Scan.step, hnumber, htoken]
  | text | escape | hexadecimal => contradiction

theorem scans_char {c : Char} {tokens : List Token} (hcode : c.toNat < 0x80)
    (hnumber : ¬ isNumberChar c) (hword : ¬ c.isAlpha)
    (hstart : ∀ before, Scan.start before c = some ⟨.between, tokens.reverse ++ before⟩) :
  Scans Settled Between [c] tokens
  := by
  intro s before hs
  have hc := Utf8.toNat_ofNat_of_lt hcode
  use ⟨.between, tokens.reverse ++ before⟩
  rw [Utf8.encode_cons_of_lt hcode]
  constructor
  · rw [foldlM_cons_of_step]
    · rfl
    · rw [hs.step (by rwa [hc]) (by rwa [hc]), hc]
      apply hstart
  · rfl

theorem scans_comma :
  Scans Settled Between [','] [.comma]
  := scans_char (by decide) (by decide) (by decide) fun _ => rfl

theorem scans_colon :
  Scans Settled Between [':'] [.colon]
  := scans_char (by decide) (by decide) (by decide) fun _ => rfl

theorem scans_space :
  Scans Settled Between [' '] []
  := scans_char (by decide) (by decide) (by decide) fun _ => rfl

theorem scans_newline :
  Scans Settled Between ['\n'] []
  := scans_char (by decide) (by decide) (by decide) fun _ => rfl

theorem scans_lineStart (indent : ℕ) :
  Scans Settled Between (lineStart indent).toList []
  := by
  rw [lineStart, String.toList_ofList]
  induction indent with
  | zero => exact scans_newline
  | succ n ih =>
    rw [List.replicate_succ', ← List.cons_append]
    apply ih.append scans_space.from_between

/-! ### Words and numbers -/

theorem scans_null :
  Scans Between Settled "null".toList [.null]
  := by
  rintro s before rfl
  use ⟨.word "null".toList.reverse, before⟩, rfl, .null, rfl
  rfl

theorem scans_bool (b : Bool) :
  Scans Between Settled (if b then "true" else "false").toList [.bool b]
  := by
  rintro s before rfl
  cases b
  · use ⟨.word "false".toList.reverse, before⟩, rfl, .bool false, rfl
    rfl
  · use ⟨.word "true".toList.reverse, before⟩, rfl, .bool true, rfl
    rfl

theorem toNat_lt_of_isDigit {c : Char} (h : c.isDigit) :
  c.toNat < 0x80
  := by
  obtain ⟨-, hle⟩ := Char.isDigit_iff_toNat.mp h
  exact Nat.lt_of_le_of_lt hle (by decide)

theorem spanDigits_of_isDigit {text : List Char} (h : ∀ c ∈ text, c.isDigit) :
  spanDigits text = (text, [])
  := by
  rw [spanDigits, List.span_eq_takeWhile_dropWhile, List.takeWhile_eq_self_iff.mpr h,
    List.dropWhile_eq_nil_iff.mpr h]

/-- The digits of a number are the spelling of a number, and so they are after a minus sign. -/
theorem isNumber_toDigits (n : ℕ) :
  isNumber (Nat.toDigits 10 n) ∧ isNumber ('-' :: Nat.toDigits 10 n)
  := by
  have hdigit : ∀ c ∈ Nat.toDigits 10 n, c.isDigit := fun c => Decimal.isDigit_of_mem_toDigits
  have hspan := spanDigits_of_isDigit hdigit
  obtain ⟨-, hdigits⟩ | ⟨c, rest, hdigits, hne⟩ := Decimal.toDigits_eq_zero_or n
  · rw [hdigits]
    decide
  · rw [hdigits] at hspan hdigit ⊢
    have hminus : c ≠ '-' := by
      rintro rfl
      exact absurd (hdigit '-' List.mem_cons_self) (by decide)
    simp [isNumber, hspan, hne, hminus, isTail, isExponent]

theorem step_number_of_isDigit {c : Char} (h : c.isDigit) (spelling : List Char)
    (before : List Token) :
  Scan.step ⟨.number spelling, before⟩ (UInt8.ofNat c.toNat)
    = some ⟨.number (c :: spelling), before⟩
  := by
  have hc := Utf8.toNat_ofNat_of_lt (toNat_lt_of_isDigit h)
  simp only [Scan.step, hc, isNumberChar, h, Bool.true_or, if_true]

/-- Further digits belong to the number. -/
theorem foldlM_step_digits {text : List Char} (h : ∀ c ∈ text, c.isDigit) (spelling : List Char)
    (before : List Token) :
  (Utf8.encode text).foldlM Scan.step ⟨.number spelling, before⟩
    = some ⟨.number (text.reverse ++ spelling), before⟩
  := by
  induction text generalizing spelling with
  | nil => rfl
  | cons c rest ih =>
    obtain ⟨hhead, hrest⟩ := List.forall_mem_cons.mp h
    rw [Utf8.encode_cons_of_lt (toNat_lt_of_isDigit hhead),
      foldlM_cons_of_step (step_number_of_isDigit hhead spelling before), ih hrest (c :: spelling)]
    simp

theorem start_of_isDigit {c : Char} (h : c.isDigit ∨ c = '-') (before : List Token) :
  Scan.start before c = some ⟨.number [c], before⟩
  := by
  obtain hdigit | rfl := h
  · have hne : ∀ d : Char, ¬ d.isDigit → c ≠ d := by
      rintro d hd rfl
      contradiction
    simp (disch := decide) [Scan.start, hne, hdigit]
  · rfl

theorem scans_number {c : Char} {rest : List Char} (hhead : c.isDigit ∨ c = '-')
    (hrest : ∀ d ∈ rest, d.isDigit) (hnumber : isNumber (c :: rest)) :
  Scans Between Settled (c :: rest) [.number (c :: rest)]
  := by
  rintro s before rfl
  have hcode : c.toNat < 0x80 := by
    obtain hdigit | rfl := hhead
    · exact toNat_lt_of_isDigit hdigit
    · decide
  use ⟨.number (rest.reverse ++ [c]), before⟩
  constructor
  · rw [Utf8.encode_cons_of_lt hcode, foldlM_cons_of_step]
    · apply foldlM_step_digits hrest
    · rw [Scan.step, Utf8.toNat_ofNat_of_lt hcode]
      apply start_of_isDigit hhead
  · use .number (c :: rest)
    simp [ofNumber?, hnumber]

theorem scans_toDigits (n : ℕ) :
  Scans Between Settled (Nat.toDigits 10 n) [.number (Nat.toDigits 10 n)]
  := by
  have hnumber := (isNumber_toDigits n).1
  obtain ⟨c, rest, hdigits, hhead, hrest⟩ := Decimal.exists_toDigits_eq_cons n
  rw [hdigits] at hnumber ⊢
  apply scans_number (.inl hhead) hrest hnumber

theorem scans_digits (n : Int64) :
  Scans Between Settled (Decimal.digits n) [.number (Decimal.digits n)]
  := by
  rw [Decimal.digits]
  split
  case isTrue =>
    apply scans_number (.inr rfl) _ (isNumber_toDigits _).2
    intro c hmem
    apply Decimal.isDigit_of_mem_toDigits hmem
  case isFalse => apply scans_toDigits

/-! ### Texts -/

theorem toNat_ofNat_toNat (b : UInt8) :
  (Char.ofNat b.toNat).toNat = b.toNat
  := by
  have hvalid : b.toNat.isValidChar := by
    have hlt := b.toNat_lt
    left
    omega
  rw [Char.ofNat, dif_pos hvalid]
  rfl

/-- A byte that is no quote, no backslash and no control character belongs to the text. -/
theorem step_text_of_plain {b : UInt8} (hquote : b.toNat ≠ 34) (hbackslash : b.toNat ≠ 92)
    (hcontrol : 32 ≤ b.toNat) (content : List UInt8) (before : List Token) :
  Scan.step ⟨.text content, before⟩ b = some ⟨.text (b :: content), before⟩
  := by
  have hcode := toNat_ofNat_toNat b
  have hquote' : Char.ofNat b.toNat ≠ '"' := by
    intro h
    rw [h] at hcode
    exact hquote hcode.symm
  have hbackslash' : Char.ofNat b.toNat ≠ '\\' := by
    intro h
    rw [h] at hcode
    exact hbackslash hcode.symm
  have hcontrol' : ¬ b < 0x20 := by
    rw [UInt8.lt_iff_toNat_lt]
    exact Nat.not_lt.mpr hcontrol
  simp only [Scan.step, if_neg hquote', if_neg hbackslash', if_neg hcontrol']

/-- The bytes of a character that is no quote, no backslash and no control character are none
either. -/
theorem plain_of_mem_utf8EncodeChar {c : Char} (hquote : c ≠ '"') (hbackslash : c ≠ '\\')
    (hcontrol : 0x20 ≤ c.toNat) {b : UInt8} (hmem : b ∈ String.utf8EncodeChar c) :
  b.toNat ≠ 34 ∧ b.toNat ≠ 92 ∧ 32 ≤ b.toNat
  := by
  have hquote' : c.toNat ≠ 34 := fun h => hquote (Char.toNat_inj.mp h)
  have hbackslash' : c.toNat ≠ 92 := fun h => hbackslash (Char.toNat_inj.mp h)
  have hmem' : b.toNat ∈ Text.encoding c := List.mem_map_of_mem hmem
  rw [Text.encoding_eq] at hmem'
  split_ifs at hmem'
  <;> simp only [List.mem_cons, List.not_mem_nil, or_false] at hmem'
  <;> omega

theorem foldlM_step_plain {bytes : List UInt8}
    (h : ∀ b ∈ bytes, b.toNat ≠ 34 ∧ b.toNat ≠ 92 ∧ 32 ≤ b.toNat) (content : List UInt8)
    (before : List Token) :
  bytes.foldlM Scan.step ⟨.text content, before⟩
    = some ⟨.text (bytes.reverse ++ content), before⟩
  := by
  induction bytes generalizing content with
  | nil => rfl
  | cons b rest ih =>
    obtain ⟨⟨hquote, hbackslash, hcontrol⟩, hrest⟩ := List.forall_mem_cons.mp h
    rw [foldlM_cons_of_step (step_text_of_plain hquote hbackslash hcontrol content before),
      ih hrest (b :: content)]
    simp

theorem toNat_lt_of_isHexDigit {c : Char} (h : isHexDigit c) :
  c.toNat < 0x80
  := by
  rw [isHexDigit, Bool.or_eq_true, decide_eq_true_eq] at h
  obtain hdigit | hletter := h
  · exact toNat_lt_of_isDigit hdigit
  · have hall : ("abcdefABCDEF".toList.all fun d => d.toNat < 0x80) = true := rfl
    exact of_decide_eq_true (List.all_eq_true.mp hall c hletter)

theorem step_hexadecimal {c : Char} (h : isHexDigit c) (digits : ℕ) (content : List UInt8)
    (before : List Token) :
  Scan.step ⟨.hexadecimal digits content, before⟩ (UInt8.ofNat c.toNat)
    = if digits = 1 then some ⟨.text (UInt8.ofNat c.toNat :: content), before⟩
      else some ⟨.hexadecimal (digits - 1) (UInt8.ofNat c.toNat :: content), before⟩
  := by
  have hc := Utf8.toNat_ofNat_of_lt (toNat_lt_of_isHexDigit h)
  simp only [Scan.step, hc, h, if_true]

/-- What stands for a character inside quotes belongs to the text. -/
theorem StandsFor.foldlM_step {c : Char} {spelling : List Char} (h : StandsFor c spelling)
    (content : List UInt8) (before : List Token) :
  (Utf8.encode spelling).foldlM Scan.step ⟨.text content, before⟩
    = some ⟨.text ((Utf8.encode spelling).reverse ++ content), before⟩
  := by
  cases h with
  | @short letter hletter hescape =>
    simp only [List.mem_cons, List.not_mem_nil, or_false] at hletter
    rcases hletter with rfl | rfl | rfl | rfl | rfl | rfl | rfl | rfl <;> rfl
  | @hexadecimal high low hhigh hlow hnumber hcontrol =>
    have hprefix : (Utf8.encode ['\\', 'u', '0', '0']).foldlM Scan.step ⟨.text content, before⟩
        = some ⟨.hexadecimal 2 ([48, 48, 117, 92] ++ content), before⟩ := rfl
    have hsplit : ['\\', 'u', '0', '0', high, low] = ['\\', 'u', '0', '0'] ++ [high, low] := rfl
    rw [hsplit, Utf8.encode_append, foldlM_append_of_foldlM hprefix,
      Utf8.encode_cons_of_lt (toNat_lt_of_isHexDigit hhigh),
      Utf8.encode_cons_of_lt (toNat_lt_of_isHexDigit hlow),
      foldlM_cons_of_step (step_hexadecimal hhigh 2 _ before),
      foldlM_cons_of_step (step_hexadecimal hlow 1 _ before)]
    rfl
  | plain hquote hbackslash hcode =>
    apply foldlM_step_plain
    intro b hmem
    rw [Utf8.encode, List.flatMap_singleton] at hmem
    apply plain_of_mem_utf8EncodeChar hquote hbackslash hcode hmem

theorem foldlM_step_content (text : List Char) (content : List UInt8) (before : List Token) :
  (Utf8.encode (text.flatMap escaped)).foldlM Scan.step ⟨.text content, before⟩
    = some ⟨.text ((Utf8.encode (text.flatMap escaped)).reverse ++ content), before⟩
  := by
  induction text generalizing content with
  | nil => rfl
  | cons c rest ih =>
    rw [List.flatMap_cons, Utf8.encode_append,
      foldlM_append_of_foldlM ((standsFor_escaped c).foldlM_step content before), ih,
      List.reverse_append, List.append_assoc]

theorem scans_quoted (s : String) :
  Scans Settled Between (quoted s).toList [.text (content s)]
  := by
  intro scan before hscan
  have hopening : (Utf8.encode ['"']).foldlM Scan.step scan = some ⟨.text [], before⟩ := by
    have hstart : scan.step (UInt8.ofNat '"'.toNat) = some ⟨.text [], before⟩ :=
      hscan.step (by decide) (by decide)
    rw [Utf8.encode_cons_of_lt (by decide), foldlM_cons_of_step hstart]
    rfl
  have hsplit : (quoted s).toList = ['"'] ++ (s.toList.flatMap escaped ++ ['"']) := by
    rw [quoted, String.toList_ofList]
    rfl
  use ⟨.between, .text (content s) :: before⟩
  constructor
  · rw [hsplit, Utf8.encode_append, foldlM_append_of_foldlM hopening, Utf8.encode_append,
      foldlM_append_of_foldlM (foldlM_step_content s.toList [] before), List.append_nil]
    have hclosing : Scan.step ⟨.text (content s).reverse, before⟩ (UInt8.ofNat '"'.toNat)
        = some ⟨.between, .text (content s) :: before⟩ := by
      simp [Scan.step]
    exact foldlM_cons_of_step hclosing []
  · rfl

/-! ### Values -/

mutual

/-- The tokens of a value. -/
def tokens : Json → List Token
  | .null => [.null]
  | .bool b => [.bool b]
  | .integer n => [.number (Decimal.digits n)]
  | .natural n => [.number (Nat.toDigits 10 n)]
  | .text s => [.text (content s)]
  | .array elements =>
    .openArray :: [Token.comma].intercalate (tokensOfElements elements) ++ [.closeArray]
  | .object fields =>
    .openObject :: [Token.comma].intercalate (tokensOfFields fields) ++ [.closeObject]

/-- The tokens of some values. -/
def tokensOfElements : List Json → List (List Token)
  | [] => []
  | v :: rest => v.tokens :: tokensOfElements rest

/-- The tokens of some fields. -/
def tokensOfFields : List (String × Json) → List (List Token)
  | [] => []
  | (key, v) :: rest => (.text (content key) :: .colon :: v.tokens) :: tokensOfFields rest

end

@[simp]
theorem tokensOfElements_eq_map (elements : List Json) :
  tokensOfElements elements = elements.map tokens
  := by
  induction elements with
  | nil => rfl
  | cons v rest ih => simp [tokensOfElements, ih]

@[simp]
theorem tokensOfFields_eq_map (fields : List (String × Json)) :
  tokensOfFields fields
    = fields.map fun field => .text (content field.1) :: .colon :: field.2.tokens
  := by
  induction fields with
  | nil => rfl
  | cons field rest ih => simp [tokensOfFields, ih]

section Enclosed

variable {α : Type} {write : α → String} {cut : α → List Token} {items : List α}

/-- Items that stand on lines of their own have the tokens of these items between commas. -/
theorem scans_intercalate (hne : items ≠ [])
    (h : ∀ item ∈ items, Scans Between Settled (write item).toList (cut item)) (indent : ℕ) :
  Scans Between Settled (("," ++ lineStart indent).intercalate (items.map write)).toList
    ([Token.comma].intercalate (items.map cut))
  := by
  have hseparator : Scans Settled Between ("," ++ lineStart indent).toList [.comma] := by
    rw [String.toList_append]
    exact scans_comma.append (scans_lineStart indent).from_between
  rw [String.toList_intercalate]
  induction items with
  | nil => contradiction
  | cons item rest ih =>
    obtain ⟨hhead, hrest⟩ := List.forall_mem_cons.mp h
    cases rest with
    | nil =>
      simp only [List.map_cons, List.map_nil, List.intercalate_singleton]
      exact hhead
    | cons next rest =>
      have htail := ih (List.cons_ne_nil next rest) hrest
      simp only [List.map_cons, List.intercalate_cons_cons] at htail ⊢
      exact (hhead.append hseparator).append htail

theorem scans_enclosed {opening closing : String} {first last : Token}
    (hopening : Scans Settled Between opening.toList [first])
    (hclosing : Scans Settled Between closing.toList [last])
    (h : ∀ item ∈ items, Scans Between Settled (write item).toList (cut item)) (indent : ℕ) :
  Scans Between Settled (enclosed opening closing indent (items.map write)).toList
    (first :: [Token.comma].intercalate (items.map cut) ++ [last])
  := by
  cases items with
  | nil =>
    rw [enclosed, List.map_nil, if_pos List.isEmpty_nil, String.toList_append]
    exact (hopening.append hclosing.from_between).from_between.to_settled
  | cons item rest =>
    have hitems := scans_intercalate (List.cons_ne_nil item rest) h (indent + 2)
    have hstart := hopening.append (scans_lineStart (indent + 2)).from_between
    have hend := (scans_lineStart indent).append hclosing.from_between
    rw [enclosed, if_neg (by simp)]
    simp only [String.toList_append, List.append_assoc] at hend ⊢
    have hall := (hstart.append hitems).append hend
    simp only [List.append_assoc] at hall
    exact hall.from_between.to_settled

end Enclosed

/-- The written form of a value is cut into the tokens of the value. -/
theorem scans_pretty (v : Json) (indent : ℕ) :
  Scans Between Settled (v.pretty indent).toList v.tokens
  := by
  induction v using Json.induction generalizing indent with
  | null => exact scans_null
  | bool b =>
    have hbool := scans_bool b
    cases b <;> exact hbool
  | integer n =>
    rw [pretty, Decimal.numeral, String.toList_ofList]
    exact scans_digits n
  | natural n =>
    rw [pretty, Decimal.natural, String.toList_ofList]
    exact scans_toDigits n
  | text s => exact (scans_quoted s).from_between.to_settled
  | array elements ih =>
    have hopening : Scans Settled Between "[".toList [.openArray] :=
      scans_char (by decide) (by decide) (by decide) fun _ => rfl
    have hclosing : Scans Settled Between "]".toList [.closeArray] :=
      scans_char (by decide) (by decide) (by decide) fun _ => rfl
    rw [pretty, tokens, prettyElements_eq_map, tokensOfElements_eq_map]
    apply scans_enclosed hopening hclosing
    intro v hv
    apply ih v hv
  | object fields ih =>
    have hopening : Scans Settled Between "\x7b".toList [.openObject] :=
      scans_char (by decide) (by decide) (by decide) fun _ => rfl
    have hclosing : Scans Settled Between "\x7d".toList [.closeObject] :=
      scans_char (by decide) (by decide) (by decide) fun _ => rfl
    rw [pretty, tokens, prettyFields_eq_map, tokensOfFields_eq_map]
    apply scans_enclosed hopening hclosing
    intro field hfield
    have hkey := scans_quoted field.1
    have hcolon : Scans Settled Between ": ".toList [.colon] :=
      scans_colon.append scans_space.from_between
    simp only [String.toList_append]
    exact ((hkey.append hcolon.from_between).append (ih field hfield _)).from_between

/-- A document that ends at a boundary is cut into its tokens. -/
theorem scan?_of_scans {text : List Char} {tokens : List Token}
    (h : Scans Between Settled text tokens) :
  Token.scan? (Utf8.encode text) = some tokens
  := by
  obtain ⟨⟨reading, reversed⟩, hrun, hsettled⟩ := h {} [] rfl
  rw [List.append_nil] at hsettled
  rw [Token.scan?, hrun]
  cases reading with
  | between =>
    obtain rfl : reversed = tokens.reverse := hsettled
    simp
  | word word =>
    obtain ⟨token, htoken, hreversed⟩ := hsettled
    simp only [htoken, Option.pure_def, Option.bind_eq_bind, Option.bind_some, hreversed,
      List.reverse_reverse]
  | number spelling =>
    obtain ⟨token, htoken, hreversed⟩ := hsettled
    simp only [htoken, Option.pure_def, Option.bind_eq_bind, Option.bind_some, hreversed,
      List.reverse_reverse]
  | text | escape | hexadecimal => contradiction

end Prerequisite.Json
