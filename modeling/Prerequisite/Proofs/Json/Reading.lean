import Prerequisite.Json.Document
import Prerequisite.Proofs.Json.Tokens

/-!
# Values read back

The tokens of a value are put together to that value, whatever containers are open around it.  So
the written form of a value is a document of that value, with the numbers and the texts as they are
spelled.
-/

namespace Prerequisite.Json

open Source

/-! ### Values as they are spelled -/

mutual

/-- The value as a document spells it. -/
def source : Json → Source
  | .null => .null
  | .bool b => .bool b
  | .integer n => .number (Decimal.digits n)
  | .natural n => .number (Nat.toDigits 10 n)
  | .text s => .text (content s)
  | .array elements => .array (sourceOfElements elements)
  | .object fields => .object (sourceOfFields fields)

/-- The values as a document spells them. -/
def sourceOfElements : List Json → List Source
  | [] => []
  | v :: rest => v.source :: sourceOfElements rest

/-- The fields as a document spells them. -/
def sourceOfFields : List (String × Json) → List (List UInt8 × Source)
  | [] => []
  | (key, v) :: rest => (content key, v.source) :: sourceOfFields rest

end

@[simp]
theorem sourceOfElements_eq_map (elements : List Json) :
  sourceOfElements elements = elements.map source
  := by
  induction elements with
  | nil => rfl
  | cons v rest ih => simp [sourceOfElements, ih]

@[simp]
theorem sourceOfFields_eq_map (fields : List (String × Json)) :
  sourceOfFields fields = fields.map fun field => (content field.1, field.2.source)
  := by
  induction fields with
  | nil => rfl
  | cons field rest ih => simp [sourceOfFields, ih]

/-! ### Assembly -/

/-- The assembly has to go on with a value, and the given containers are open. -/
def AwaitsValue (containers : List Container) (a : Assembly) : Prop :=
  a = ⟨containers, .value⟩ ∨ a = ⟨containers, .elementOrEnd⟩

/-- The assembly has to go on with a key of an object that has the given fields, in reverse. -/
def AwaitsKey (containers : List Container) (fields : List (List UInt8 × Source)) (a : Assembly) :
    Prop :=
  a = ⟨containers, .key fields⟩ ∨ a = ⟨containers, .keyOrEnd⟩ ∧ fields = []

/-- The tokens are put together to the value. -/
def Assembles (tokens : List Token) (value : Source) : Prop :=
  ∀ containers a, AwaitsValue containers a →
    tokens.foldlM Assembly.step a = some (Assembly.complete containers value)

theorem AwaitsValue.step {containers : List Container} {a : Assembly}
    (h : AwaitsValue containers a) {token : Token} (hne : token ≠ .closeArray) :
  a.step token = Assembly.beginValue? containers token
  := by
  obtain rfl | rfl := h
  · cases token <;> rfl
  · cases token <;> first | rfl | contradiction

theorem assembles_single {token : Token} {value : Source} (hne : token ≠ .closeArray)
    (h : ∀ containers,
      Assembly.beginValue? containers token = some (Assembly.complete containers value)) :
  Assembles [token] value
  := by
  intro containers a ha
  have hstep := ha.step hne
  rw [h] at hstep
  exact foldlM_cons_of_step hstep []

section Containers

variable {containers : List Container}

/-- Elements between commas are put together to elements of the innermost array. -/
theorem foldlM_step_elements {elements : List Json} (hne : elements ≠ [])
    (h : ∀ v ∈ elements, Assembles v.tokens v.source) {reversed : List Source} {a : Assembly}
    (ha : AwaitsValue (.array reversed :: containers) a) :
  ([Token.comma].intercalate (elements.map tokens)).foldlM Assembly.step a
    = some ⟨.array ((elements.map source).reverse ++ reversed) :: containers, .separator⟩
  := by
  -- The next element is read behind the ones before it, so the induction is over all of these.
  induction elements generalizing reversed a with
  | nil => contradiction
  | cons v rest ih =>
    obtain ⟨hhead, hrest⟩ := List.forall_mem_cons.mp h
    have hv := hhead _ a ha
    cases rest with
    | nil =>
      simp only [List.map_cons, List.map_nil, List.intercalate_singleton]
      exact hv
    | cons next rest =>
      have hcomma : Assembly.step ⟨.array (v.source :: reversed) :: containers, .separator⟩ .comma
          = some ⟨.array (v.source :: reversed) :: containers, .value⟩ := rfl
      simp only [List.map_cons, List.intercalate_cons_cons] at ih ⊢
      rw [List.append_assoc, foldlM_append_of_foldlM hv, List.singleton_append, Assembly.complete,
        foldlM_cons_of_step hcomma, ih (List.cons_ne_nil next rest) hrest (.inl rfl)]
      simp

/-- Fields between commas are put together to fields of the innermost object. -/
theorem foldlM_step_fields {fields : List (String × Json)} (hne : fields ≠ [])
    (h : ∀ field ∈ fields, Assembles field.2.tokens field.2.source)
    {reversed : List (List UInt8 × Source)} {a : Assembly} (ha : AwaitsKey containers reversed a) :
  ∃ key, ([Token.comma].intercalate (tokensOfFields fields)).foldlM Assembly.step a
    = some ⟨.object ((sourceOfFields fields).reverse ++ reversed) key :: containers, .separator⟩
  := by
  induction fields generalizing reversed a with
  | nil => contradiction
  | cons field rest ih =>
    obtain ⟨key, v⟩ := field
    obtain ⟨hhead, hrest⟩ := List.forall_mem_cons.mp h
    have hkey : a.step (.text (content key))
        = some ⟨containers, .colon reversed (content key)⟩ := by
      obtain rfl | ⟨rfl, rfl⟩ := ha <;> rfl
    have hcolon : Assembly.step ⟨containers, .colon reversed (content key)⟩ .colon
        = some ⟨.object reversed (content key) :: containers, .value⟩ := rfl
    have hv := hhead (.object reversed (content key) :: containers) _ (.inl rfl)
    have hfield : (Token.text (content key) :: .colon :: v.tokens).foldlM Assembly.step a
        = some ⟨.object ((content key, v.source) :: reversed) (content key) :: containers,
            .separator⟩ := by
      rw [foldlM_cons_of_step hkey, foldlM_cons_of_step hcolon, hv, Assembly.complete]
    cases rest with
    | nil =>
      use content key
      simp only [tokensOfFields, List.intercalate_singleton]
      exact hfield
    | cons next rest =>
      have hcomma : Assembly.step
          ⟨.object ((content key, v.source) :: reversed) (content key) :: containers, .separator⟩
            .comma
          = some ⟨containers, .key ((content key, v.source) :: reversed)⟩ := rfl
      obtain ⟨last, htail⟩ := ih (List.cons_ne_nil next rest) hrest (.inl rfl)
      use last
      simp only [tokensOfFields, List.intercalate_cons_cons] at htail ⊢
      rw [List.append_assoc, foldlM_append_of_foldlM hfield, List.singleton_append,
        foldlM_cons_of_step hcomma, htail]
      simp [sourceOfFields]

end Containers

/-- The tokens of a value are put together to that value. -/
theorem assembles_tokens (v : Json) :
  Assembles v.tokens v.source
  := by
  induction v using Json.induction with
  | null => exact assembles_single (by simp) fun _ => rfl
  | bool b => exact assembles_single (by simp) fun _ => rfl
  | integer n => exact assembles_single (by simp) fun _ => rfl
  | natural n => exact assembles_single (by simp) fun _ => rfl
  | text s => exact assembles_single (by simp) fun _ => rfl
  | array elements ih =>
    intro containers a ha
    have hopening : a.step .openArray = some ⟨.array [] :: containers, .elementOrEnd⟩ :=
      ha.step (by simp)
    rw [tokens, List.cons_append, foldlM_cons_of_step hopening, tokensOfElements_eq_map]
    cases elements with
    | nil => rfl
    | cons v rest =>
      rw [foldlM_append_of_foldlM (foldlM_step_elements (List.cons_ne_nil v rest) ih (.inr rfl))]
      simp [source, Assembly.step]
  | object fields ih =>
    intro containers a ha
    have hopening : a.step .openObject = some ⟨containers, .keyOrEnd⟩ := ha.step (by simp)
    rw [tokens, List.cons_append, foldlM_cons_of_step hopening]
    cases fields with
    | nil => rfl
    | cons field rest =>
      obtain ⟨key, hfields⟩ :=
        foldlM_step_fields (List.cons_ne_nil field rest) ih (.inr ⟨rfl, rfl⟩)
      rw [foldlM_append_of_foldlM hfields]
      simp [source, Assembly.step]

/-! ### Documents -/

/-- A text with the tokens of a value is a document of that value. -/
theorem ofBytes?_of_scans {text : List Char} {v : Json} (h : Scans Between Settled text v.tokens) :
  ofBytes? (Utf8.encode text) = some v.source
  := by
  have hassembled := assembles_tokens v [] {} (.inl rfl)
  rw [ofBytes?, scan?_of_scans h]
  simp only [Option.bind_eq_bind, Option.bind_some, hassembled]
  rfl

/-- The written form of a value is a document of that value. -/
theorem ofBytes?_render (v : Json) :
  ofBytes? (Utf8.encode v.render.toList) = some v.source
  := ofBytes?_of_scans (scans_pretty v 0)

/-- A newline may follow. -/
theorem ofBytes?_render_newline (v : Json) :
  ofBytes? (Utf8.encode (v.render ++ "\n").toList) = some v.source
  := by
  apply ofBytes?_of_scans
  have hall := (scans_pretty v 0).append scans_newline.to_settled
  rw [List.append_nil] at hall
  rw [String.toList_append]
  exact hall

end Prerequisite.Json
