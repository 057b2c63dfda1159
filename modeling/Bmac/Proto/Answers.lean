import Bmac.Proto.BmacUi
import Bmac.Proto.Numbers

/-!
# Checked answers

`check_field_value` of `bmac-proto/src/bmac_ui.rs`, and `Field::normalize` of `bmac-core/src/job.rs`:
what an answer's values are like once `check_values` took them. A number of JSON is the decimal that
its text writes.
-/

namespace Bmac.Proto

open Bmac.Core Bmac.Bmacd

def maxOptions : Nat := 1000

/-! ## Fields -/

def isEventId (id : String) : Bool :=
  !id.isEmpty && decide (Text.len id ≤ 128) &&
    id.toList.all fun c => Text.isAlphanumeric c || c ∈ ['_', '-', '.', ':']

def checkId (kind id : String) : Except String Unit :=
  if isEventId id then .ok () else .error s!"unsafe {kind} {id.quote}"

def Field.normalize (field : Field) : Except String Field := do
  checkId "field id" field.id
  let field := if field.kind = .password then { field with sensitive := true } else field
  let field := if field.isSensitive then { field with default := none } else field
  if maxOptions < field.options.length then throw s!"field {field.id} has too many options"
  if (field.kind = .select ∨ field.kind = .multiselect) ∧ field.options.isEmpty then
    throw s!"field {field.id} has no options"
  return { field with label := truncate field.label }

/-- A field as `normalize` leaves it. -/
def Field.Normalized (field : Field) : Prop := ∃ raw : Field, raw.normalize = .ok field

/-! ## One value -/

/-- A value that stands for none. -/
def isEmptyValue : Value → Bool
  | .null => true
  | .string s => s.isEmpty
  | .array items => items.isEmpty
  | _ => false

def Field.hasOption (field : Field) (text : String) : Bool := field.options.any (·.value = text)

def Field.isNumeric (field : Field) : Bool :=
  match field.kind with
  | .integer | .number | .bytes | .duration => true
  | _ => false

def jsonNumber (text : String) : Option Decimal := parseDecimal text.toList

def numberOf : Value → Option F64
  | .number text => (jsonNumber text).map .finite
  | .string s => parseF64 (Text.trim s)
  | _ => none

def bound (text : Option String) : Option ℚ := (text.bind jsonNumber).map (·.value)

/-- `Value::from(f64)`: what isn't finite becomes null. -/
def fromF64 : F64 → Value
  | .finite d => .number d.text
  | _ => .null

/-- A whole number that isn't too large is written as an `i64`. -/
def numberValue (number : F64) : Value :=
  match number with
  | .finite d =>
    if d.value.den = 1 ∧ |d.value| < 9 * 10 ^ 15 then .number (toString d.value.num)
    else fromF64 number
  | _ => fromF64 number

def checkNumber (field : Field) (value : Value) : Except String Value :=
  match numberOf value with
  | none =>
    if field.kind = .duration then
      match value with
      | .string s => .ok (.string s)
      | _ => .error "expected a duration"
    else .error "expected a number"
  | some number =>
    if field.kind = .integer && !number.isWhole then .error "expected a whole number"
    else if (bound field.min).any number.below || (bound field.max).any number.above then
      .error "out of range"
    else .ok (numberValue number)

/-- The options among the items, each once. -/
def choose (field : Field) : List Value → List String → Except String (List String)
  | [], chosen => .ok chosen
  | .string text :: rest, chosen =>
    if !field.hasOption text then .error s!"{text.quote} is not one of the options"
    else choose field rest (if text ∈ chosen then chosen else chosen ++ [text])
  | _ :: _, _ => .error "expected option values"

def checkChoice (field : Field) (value : Value) : Except String Value :=
  match value with
  | .array items => do
    let chosen ← choose field items []
    let count := chosen.length % 2 ^ 32
    match field.minSelected.filter (count < ·) with
    | some min => throw s!"select at least {min}"
    | none =>
      match field.maxSelected.filter (· < count) with
      | some max => throw s!"select at most {max}"
      | none => return .array (chosen.map .string)
  | _ => .error "expected a list"

def checkText (field : Field) (value : Value) : Except String Value :=
  match value with
  | .string text =>
    if maxText < Text.len text ∨ '\x00' ∈ text.toList then
      .error "the value is too long or contains a NUL"
    else if field.kind ≠ .multiline ∧ field.kind ≠ .sshPublicKey ∧ '\n' ∈ text.toList then
      .error "the value must be a single line"
    else .ok value
  | _ => .error "expected text"

def checkEmpty (field : Field) : Except String Value :=
  if field.required ∧ field.kind ≠ .multiselect then .error "a value is required"
  else if field.kind = .multiselect then
    match field.minSelected.filter (0 < ·) with
    | some min => .error s!"select at least {min}"
    | none => .ok (.array [])
  else .ok (.string "")

def checkFieldValue (field : Field) (value : Value) : Except String Value :=
  if isEmptyValue value then checkEmpty field
  else
    match field.kind with
    | .boolean =>
      match value with
      | .bool _ => .ok value
      | _ => .error "expected true or false"
    | .integer | .number | .bytes | .duration => checkNumber field value
    | .select =>
      match value with
      | .string text => if field.hasOption text then .ok value else .error "not one of the options"
      | _ => .error "expected one option"
    | .multiselect => checkChoice field value
    | _ => checkText field value

/-! ## All of them -/

def given (values : Dict Value) (field : Field) : Value := (values.get? field.id).getD .null

def shown (field : Field) (value : Value) : Value :=
  match value with
  | .null => .null
  | value => if field.isSensitive then .string redacted else value

/-- A field's value once it is checked. -/
def answered (check : Field → Value → Except String Value) (values : Dict Value) (field : Field) :
    Value :=
  match check field (given values field) with
  | .ok value => value
  | .error _ => .null

def filled (value : Field → Value) (fields : List Field) (d : Dict Value) : Dict Value :=
  fields.foldl (fun d field => d.insert field.id (value field)) d

variable {field : Field}

section

variable {value : Field → Value} {fields : List Field} {d : Dict Value}

theorem get?_filled_of_not_mem {key : String} (h : key ∉ fields.map (·.id)) :
    (filled value fields d).get? key = d.get? key := by
  induction fields generalizing d with
  | nil => rfl
  | cons field rest ih =>
    rw [List.map_cons, List.mem_cons, not_or] at h
    exact (ih h.2).trans (Dict.get?_insert_of_ne d (value field) h.1)

theorem get?_filled (hdistinct : (fields.map (·.id)).Nodup) (h : field ∈ fields) :
    (filled value fields d).get? field.id = some (value field) := by
  induction fields generalizing d with
  | nil => cases h
  | cons first rest ih =>
    obtain ⟨hfirst, hrest⟩ := List.nodup_cons.mp hdistinct
    rcases List.mem_cons.mp h with rfl | h
    · exact (get?_filled_of_not_mem hfirst).trans (Dict.get?_insert d field.id (value field))
    · exact ih hrest h

theorem sorted_filled (h : d.Sorted) : (filled value fields d).Sorted := by
  induction fields generalizing d with
  | nil => exact h
  | cons field rest ih => exact ih (h.insert field.id (value field))

end

section

variable {check : Field → Value → Except String Value} {fields : List Field} {values : Dict Value}
  {clean safe : Dict Value}

/-- One pass of `check_values`. -/
theorem checkField_eq_ok {maps : Dict Value × Dict Value}
    {step : ForInStep (Dict Value × Dict Value)} :
    (do
        let value ← Except.mapError (fun why => toString field.label ++ toString ": " ++ toString why)
          (check field ((values.get? field.id).getD Value.null))
        pure (ForInStep.yield (maps.1.insert field.id value,
          maps.2.insert field.id (shown field value)))) = (Except.ok step : Except String _) ↔
      check field (given values field) = .ok (answered check values field) ∧
        step = .yield (maps.1.insert field.id (answered check values field),
          maps.2.insert field.id (shown field (answered check values field))) := by
  unfold answered given
  cases check field ((values.get? field.id).getD Value.null) with
  | error why => simp [Except.mapError]
  | ok value => simp [Except.mapError, eq_comm]

theorem checkValues_eq_ok (h : checkValues check fields values = .ok (clean, safe)) :
    (∀ field ∈ fields, check field (given values field) = .ok (answered check values field)) ∧
      clean = filled (answered check values) fields [] ∧
      safe = filled (fun field => shown field (answered check values field)) fields [] := by
  unfold checkValues at h
  rw [Base.bind_eq_ok] at h
  obtain ⟨-, -, h⟩ := h
  dsimp only at h
  rw [Base.bind_eq_ok] at h
  obtain ⟨maps, hloop, hmaps⟩ := h
  suffices hsuff : ∀ (fields : List Field) (maps maps' : Dict Value × Dict Value),
      (forIn fields maps fun field maps => do
          let value ← Except.mapError (fun why => toString field.label ++ toString ": " ++ toString why)
            (check field ((values.get? field.id).getD Value.null))
          pure (ForInStep.yield (maps.1.insert field.id value,
            maps.2.insert field.id (shown field value)))) = Except.ok maps' →
        (∀ field ∈ fields, check field (given values field) = .ok (answered check values field)) ∧
          maps'.1 = filled (answered check values) fields maps.1 ∧
          maps'.2 = filled (fun field => shown field (answered check values field)) fields maps.2 by
    obtain ⟨hchecked, hclean, hsafe⟩ := hsuff fields ([], []) maps hloop
    cases Base.pure_eq_ok.mp hmaps
    exact ⟨hchecked, hclean, hsafe⟩
  intro fields
  induction fields with
  | nil =>
    intro maps maps' hloop
    cases Base.pure_eq_ok.mp hloop
    exact ⟨fun _ hmem => (nomatch hmem), rfl, rfl⟩
  | cons field rest ih =>
    intro maps maps' hloop
    rw [List.forIn_cons, Base.bind_eq_ok] at hloop
    obtain ⟨step, hstep, hrest⟩ := hloop
    obtain ⟨hfield, rfl⟩ := checkField_eq_ok.mp hstep
    obtain ⟨hchecked, hclean, hsafe⟩ := ih _ _ hrest
    refine ⟨fun other hmem => ?_, hclean, hsafe⟩
    rcases List.mem_cons.mp hmem with rfl | hmem
    · exact hfield
    · exact hchecked other hmem

end

/-! ## What a checked value is like -/

def notFinite (field : Field) (value : Value) : Bool :=
  field.isNumeric &&
    match numberOf value with
    | some .nan => true
    | some (.infinite _) => true
    | _ => false

def IsOption (field : Field) (value : Value) : Prop :=
  ∃ text, value = .string text ∧ field.hasOption text = true

/-- A list of options, each once and as many as the field takes. -/
def IsChoice (field : Field) (value : Value) : Prop :=
  ∃ chosen : List String, value = .array (chosen.map .string) ∧ chosen.Nodup ∧
    (∀ text ∈ chosen, field.hasOption text = true) ∧
    (∀ min ∈ field.minSelected, min ≤ chosen.length) ∧
    ∀ max ∈ field.maxSelected, chosen.length ≤ max

/-- A number within the field's bounds. -/
def InRange (field : Field) (value : Value) : Prop :=
  ∃ text d, value = .number text ∧ jsonNumber text = some d ∧
    (∀ low ∈ bound field.min, low ≤ d.value) ∧ ∀ high ∈ bound field.max, d.value ≤ high

/-- A duration that is no number stays the text that it is. -/
def IsDurationText (field : Field) (asked value : Value) : Prop :=
  field.kind = .duration ∧ value = asked ∧ ∃ text, value = .string text ∧ numberOf value = none

/-- A field that is left open has the empty text. -/
def IsOpen (field : Field) (value : Value) : Prop := field.required = false ∧ value = .string ""

/-- What the check makes of `asked`. -/
structure Fits (field : Field) (asked value : Value) : Prop where
  notNull : value ≠ .null
  required : field.required = true → field.kind ≠ .multiselect → isEmptyValue value = false
  select : field.kind = .select → IsOption field value ∨ IsOpen field value
  multiselect : field.kind = .multiselect → IsChoice field value
  numeric : field.isNumeric = true →
    InRange field value ∨ IsDurationText field asked value ∨ IsOpen field value

section

variable {field : Field} {asked value : Value}

theorem fits_of_checkEmpty (h : checkEmpty field = .ok value) : Fits field asked value := by
  unfold checkEmpty at h
  by_cases hkind : field.kind = .multiselect
  · rw [if_neg fun hrequired => hrequired.2 hkind, if_pos hkind] at h
    split at h
    · cases h
    · rename_i hmin
      cases h
      have hchoice : IsChoice field (.array []) := by
        refine ⟨[], rfl, List.nodup_nil, fun _ hmem => (nomatch hmem), fun min hmem => ?_, fun _ _ =>
          Nat.zero_le _⟩
        rw [Option.mem_def.mp hmem] at hmin
        simpa [Option.filter] using hmin
      exact {
        notNull := nofun
        required := fun _ hne => absurd hkind hne
        select := fun hselect => by rw [hkind] at hselect; cases hselect
        multiselect := fun _ => hchoice
        numeric := fun hnum => by rw [Field.isNumeric, hkind] at hnum; cases hnum }
  · by_cases hrequired : field.required = true
    · rw [if_pos ⟨hrequired, hkind⟩] at h
      cases h
    · rw [if_neg fun hboth => hrequired hboth.1, if_neg hkind] at h
      cases h
      have hopen : IsOpen field (.string "") := ⟨by simpa using hrequired, rfl⟩
      exact {
        notNull := nofun
        required := fun hreq => absurd hreq hrequired
        select := fun _ => .inr hopen
        multiselect := fun hmulti => absurd hmulti hkind
        numeric := fun _ => .inr (.inr hopen) }

theorem value_num (d : Decimal) (h : d.value.den = 1) : (⟨d.value.num, 0⟩ : Decimal).value = d.value := by
  unfold Decimal.value
  rw [zpow_zero, mul_one]
  exact Rat.den_eq_one_iff _ |>.mp h

theorem inRange_numberValue {d : Decimal} (hlow : (bound field.min).any (F64.finite d).below = false)
    (hhigh : (bound field.max).any (F64.finite d).above = false) :
    InRange field (numberValue (.finite d)) := by
  have hbounds : (∀ low ∈ bound field.min, low ≤ d.value) ∧
      ∀ high ∈ bound field.max, d.value ≤ high := by
    constructor
    · intro low hmem
      rw [Option.mem_def.mp hmem] at hlow
      simpa [F64.below] using hlow
    · intro high hmem
      rw [Option.mem_def.mp hmem] at hhigh
      simpa [F64.above] using hhigh
  unfold numberValue
  dsimp only
  split
  · rename_i hwhole
    refine ⟨_, ⟨d.value.num, 0⟩, rfl, parseDecimal_toString _, ?_⟩
    rw [value_num d hwhole.1]
    exact hbounds
  · exact ⟨_, d, rfl, parseDecimal_text d, hbounds⟩

theorem fits_of_checkNumber (hnumeric : field.isNumeric = true) (hfinite : notFinite field asked = false)
    (hne : isEmptyValue asked = false) (h : checkNumber field asked = .ok value) :
    Fits field asked value := by
  have hresult : InRange field value ∨ IsDurationText field asked value := by
    unfold checkNumber at h
    cases hnumber : numberOf asked with
    | none =>
      rw [hnumber] at h
      dsimp only at h
      split at h
      · rename_i hduration
        split at h
        · cases h
          exact .inr ⟨hduration, rfl, _, rfl, hnumber⟩
        · cases h
      · cases h
    | some number =>
      rw [hnumber] at h
      dsimp only at h
      split at h
      · cases h
      · split at h
        · cases h
        · rename_i hbounds
          cases h
          rw [notFinite, hnumeric, hnumber, Bool.true_and] at hfinite
          cases number with
          | nan => cases hfinite
          | infinite negative => cases hfinite
          | finite d =>
            rw [Bool.not_eq_true, Bool.or_eq_false_iff] at hbounds
            exact .inl (inRange_numberValue hbounds.1 hbounds.2)
  have hkind : field.kind ≠ .select ∧ field.kind ≠ .multiselect := by
    unfold Field.isNumeric at hnumeric
    constructor <;> intro hkind <;> rw [hkind] at hnumeric <;> cases hnumeric
  have hfull : value ≠ .null ∧ isEmptyValue value = false := by
    rcases hresult with ⟨text, d, rfl, -⟩ | ⟨-, rfl, text, rfl, -⟩
    · exact ⟨nofun, rfl⟩
    · exact ⟨nofun, hne⟩
  exact {
    notNull := hfull.1
    required := fun _ _ => hfull.2
    select := fun hselect => absurd hselect hkind.1
    multiselect := fun hmulti => absurd hmulti hkind.2
    numeric := fun _ => hresult.imp_right .inl }

theorem choose_eq_ok {items : List Value} {chosen chosen' : List String}
    (h : choose field items chosen = .ok chosen') (hnodup : chosen.Nodup)
    (hoptions : ∀ text ∈ chosen, field.hasOption text = true) :
    chosen'.Nodup ∧ ∀ text ∈ chosen', field.hasOption text = true := by
  fun_induction choose field items chosen with
  | case1 chosen =>
    cases h
    exact ⟨hnodup, hoptions⟩
  | case2 => cases h
  | case3 text rest chosen hoption ih =>
    refine ih h ?_ ?_
    · split
      · exact hnodup
      · rename_i hnew
        exact List.nodup_append.mpr ⟨hnodup, List.nodup_singleton text,
          fun a ha b hb hab => hnew (List.mem_singleton.mp hb ▸ hab ▸ ha)⟩
    · split
      · exact hoptions
      · intro other hmem
        rcases List.mem_append.mp hmem with hmem | hmem
        · exact hoptions other hmem
        · rw [List.mem_singleton.mp hmem]
          simpa using hoption
  | case4 => cases h

/-- There are no more different options than the field has. -/
theorem length_le_options {chosen : List String} (hnodup : chosen.Nodup)
    (hoptions : ∀ text ∈ chosen, field.hasOption text = true) :
    chosen.length ≤ field.options.length := by
  have hsub : chosen ⊆ field.options.map (·.value) := by
    intro text hmem
    obtain ⟨option, hoption, hvalue⟩ := List.any_eq_true.mp (hoptions text hmem)
    exact List.mem_map.mpr ⟨option, hoption, of_decide_eq_true hvalue⟩
  have hlen := (List.subperm_of_subset hnodup hsub).length_le
  rwa [List.length_map] at hlen

theorem normalized_options (h : field.Normalized) : field.options.length ≤ maxOptions := by
  obtain ⟨raw, hraw⟩ := h
  unfold Field.normalize at hraw
  rw [Base.bind_eq_ok] at hraw
  obtain ⟨-, -, hraw⟩ := hraw
  dsimp only at hraw
  rw [Base.check_eq_ok, Base.check_eq_ok, Base.pure_eq_ok] at hraw
  obtain ⟨hmany, -, rfl⟩ := hraw
  exact Nat.le_of_not_lt hmany

theorem fits_of_checkChoice (hkind : field.kind = .multiselect) (hnorm : field.Normalized)
    (h : checkChoice field asked = .ok value) : Fits field asked value := by
  have hchoice : IsChoice field value := by
    unfold checkChoice at h
    split at h
    · rename_i items
      rw [Base.bind_eq_ok] at h
      obtain ⟨chosen, hchosen, h⟩ := h
      obtain ⟨hnodup, hoptions⟩ := choose_eq_ok hchosen List.nodup_nil fun _ hmem => nomatch hmem
      have hcount : chosen.length % 2 ^ 32 = chosen.length := by
        have hle := (length_le_options hnodup hoptions).trans (normalized_options hnorm)
        exact Nat.mod_eq_of_lt (hle.trans_lt (by decide))
      dsimp only at h
      rw [hcount] at h
      split at h
      · cases h
      · rename_i hmin
        split at h
        · cases h
        · rename_i hmax
          cases h
          refine ⟨chosen, rfl, hnodup, hoptions, fun min hmem => ?_, fun max hmem => ?_⟩
          · rw [Option.mem_def.mp hmem] at hmin
            simpa [Option.filter] using hmin
          · rw [Option.mem_def.mp hmem] at hmax
            simpa [Option.filter] using hmax
    · cases h
  have hnumeric : field.isNumeric = false := by
    unfold Field.isNumeric
    rw [hkind]
  obtain ⟨chosen, hvalue, hrest⟩ := hchoice
  exact {
    notNull := by
      rw [hvalue]
      nofun
    required := fun _ hne => absurd hkind hne
    select := fun hselect => by rw [hkind] at hselect; cases hselect
    multiselect := fun _ => ⟨chosen, hvalue, hrest⟩
    numeric := fun hnum => by rw [hnumeric] at hnum; cases hnum }

/-- A value that is neither a list of options nor a number stays as it is. -/
theorem fits_of_same (hmulti : field.kind ≠ .multiselect) (hnumeric : field.isNumeric = false)
    (hne : isEmptyValue value = false)
    (hselect : field.kind = .select → IsOption field value) : Fits field asked value where
  notNull := by
    rintro rfl
    cases hne
  required _ _ := hne
  select hkind := .inl (hselect hkind)
  multiselect hkind := absurd hkind hmulti
  numeric hnum := by
    rw [hnumeric] at hnum
    cases hnum

theorem checkText_eq_ok (h : checkText field asked = .ok value) : value = asked := by
  unfold checkText at h
  split at h
  · split at h
    · cases h
    · split at h
      · cases h
      · cases h
        rfl
  · cases h

theorem fits_of_checkFieldValue (hnorm : field.Normalized) (hfinite : notFinite field asked = false)
    (h : checkFieldValue field asked = .ok value) : Fits field asked value := by
  unfold checkFieldValue at h
  split at h
  · exact fits_of_checkEmpty h
  · rename_i hne
    rw [Bool.not_eq_true] at hne
    cases hkind : field.kind with
    | boolean =>
      rw [hkind] at h
      dsimp only at h
      split at h
      · cases h
        refine fits_of_same (by rw [hkind]; decide) (by rw [Field.isNumeric, hkind]) hne fun hselect => ?_
        rw [hkind] at hselect
        cases hselect
      · cases h
    | integer | number | bytes | duration =>
      rw [hkind] at h
      exact fits_of_checkNumber (by rw [Field.isNumeric, hkind]) hfinite hne h
    | select =>
      rw [hkind] at h
      dsimp only at h
      split at h
      · rename_i text
        split at h
        · rename_i hoption
          cases h
          exact fits_of_same (by rw [hkind]; decide) (by rw [Field.isNumeric, hkind]) hne
            fun _ => ⟨text, rfl, hoption⟩
        · cases h
      · cases h
    | multiselect =>
      rw [hkind] at h
      exact fits_of_checkChoice hkind hnorm h
    | string | multiline | password | hostname | ipAddress | cidr | macAddress | path | file
    | directory | sshPublicKey =>
      rw [hkind] at h
      obtain rfl := checkText_eq_ok h
      refine fits_of_same (by rw [hkind]; decide) (by rw [Field.isNumeric, hkind]) hne fun hselect => ?_
      rw [hkind] at hselect
      cases hselect

end

/-! ## Accepted answers -/

/-- An answer that `check_values` takes for normalized fields with distinct ids. -/
structure Accepted (fields : List Field) (values clean safe : Dict Value) : Prop where
  normalized : ∀ field ∈ fields, field.Normalized
  distinct : (fields.map (·.id)).Nodup
  accepted : checkValues checkFieldValue fields values = .ok (clean, safe)

/-- Two answers that differ only in values of sensitive fields, neither of them null. -/
def SameButSecrets (fields : List Field) (values values' : Dict Value) : Prop :=
  ∀ field ∈ fields, given values field = given values' field ∨
    (field.isSensitive = true ∧ given values field ≠ .null ∧ given values' field ≠ .null)

/-- No sensitive field is given a text that is read as NaN or as an infinity. -/
def FiniteSecrets (fields : List Field) (values : Dict Value) : Prop :=
  ∀ field ∈ fields, field.isSensitive = true → notFinite field (given values field) = false

theorem shown_of_fits {asked value : Value} (h : Fits field asked value)
    (hsensitive : field.isSensitive = true) : shown field value = .string redacted := by
  unfold shown
  split
  · exact absurd rfl h.notNull
  · exact if_pos hsensitive

/-- An accepted answer has a value for each field and no other, each fits its field where it isn't a
text that is read as NaN or as an infinity, and the redacted copy doesn't tell the secrets. -/
theorem answers_fit (fields : List Field) (values clean safe : Dict Value)
    (h : Accepted fields values clean safe) :
    clean.Sorted ∧ (∀ key, (clean.get? key).isSome = true ↔ key ∈ fields.map (·.id)) ∧
      (∀ field ∈ fields, notFinite field (given values field) = false →
        ∃ value, clean.get? field.id = some value ∧ Fits field (given values field) value) ∧
      ∀ values' clean' safe', Accepted fields values' clean' safe' →
        FiniteSecrets fields values → FiniteSecrets fields values' →
        SameButSecrets fields values values' → safe = safe' := by
  obtain ⟨hchecked, hclean, hsafe⟩ := checkValues_eq_ok h.accepted
  refine ⟨?_, fun key => ?_, fun field hmem hfinite => ?_, ?_⟩
  · rw [hclean]
    exact sorted_filled List.Pairwise.nil
  · constructor
    · intro hsome
      by_contra hkey
      rw [hclean, get?_filled_of_not_mem hkey] at hsome
      cases hsome
    · intro hkey
      obtain ⟨field, hmem, rfl⟩ := List.mem_map.mp hkey
      rw [hclean, get?_filled h.distinct hmem]
      rfl
  · refine ⟨_, ?_, fits_of_checkFieldValue (h.normalized field hmem) hfinite (hchecked field hmem)⟩
    rw [hclean, get?_filled h.distinct hmem]
  · intro values' clean' safe' h' hsecrets hsecrets' hsame
    obtain ⟨hchecked', -, hsafe'⟩ := checkValues_eq_ok h'.accepted
    rw [hsafe, hsafe']
    refine List.foldl_ext _ _ _ fun d field hmem => ?_
    have hshown : shown field (answered checkFieldValue values field) =
        shown field (answered checkFieldValue values' field) := by
      rcases hsame field hmem with hgiven | ⟨hsensitive, -, -⟩
      · unfold answered
        rw [hgiven]
      · have hfits := fits_of_checkFieldValue (h.normalized field hmem)
          (hsecrets field hmem hsensitive) (hchecked field hmem)
        have hfits' := fits_of_checkFieldValue (h.normalized field hmem)
          (hsecrets' field hmem hsensitive) (hchecked' field hmem)
        rw [shown_of_fits hfits hsensitive, shown_of_fits hfits' hsensitive]
    dsimp only
    rw [hshown]

/-! A form with an optional choice, a secret duration. -/

def formField (id : String) (kind : FieldType) (required sensitive : Bool)
    (options : List FieldOption) : Field where
  id := id
  kind := kind
  label := id
  help := none
  required := required
  default := none
  placeholder := none
  suffix := none
  min := none
  max := none
  minSelected := none
  maxSelected := none
  pattern := none
  sensitive := sensitive
  disabled := false
  options := options
  filters := []

def modeField : Field := formField "mode" .select false false [⟨"raid1", "Mirror", none⟩]

def waitField : Field := formField "wait" .duration true true []

def form : List Field := [modeField, waitField]

theorem normalized_form : ∀ field ∈ form, field.Normalized := by
  intro field hmem
  refine ⟨field, ?_⟩
  fin_cases hmem
  · rfl
  · rfl

theorem accepted_text : Accepted form [("wait", .string "soon")]
    [("mode", .string ""), ("wait", .string "soon")]
    [("mode", .string ""), ("wait", .string redacted)] :=
  ⟨normalized_form, by decide, by rfl⟩

theorem accepted_nan : Accepted form [("wait", .string "NaN")]
    [("mode", .string ""), ("wait", .null)] [("mode", .string ""), ("wait", .null)] :=
  ⟨normalized_form, by decide, by rfl⟩

theorem accepted_later : Accepted form [("wait", .string "later")]
    [("mode", .string ""), ("wait", .string "later")]
    [("mode", .string ""), ("wait", .string redacted)] :=
  ⟨normalized_form, by decide, by rfl⟩

/-- The choice is left open, the duration is a text, and another one gives the same redacted copy. -/
theorem answers_fit_form :
    (∃ value, Dict.get? [("mode", .string ""), ("wait", .string "soon")] "mode" = some value ∧
      Fits modeField .null value) ∧
    (∃ value, Dict.get? [("mode", .string ""), ("wait", .string "soon")] "wait" = some value ∧
      Fits waitField (.string "soon") value) ∧
    ([("mode", .string ""), ("wait", .string redacted)] : Dict Value) =
      [("mode", .string ""), ("wait", .string redacted)] := by
  obtain ⟨-, -, hfits, hsafe⟩ := answers_fit form [("wait", .string "soon")] _ _ accepted_text
  refine ⟨hfits modeField (by simp [form]) (by decide), hfits waitField (by simp [form]) (by decide +kernel),
    hsafe _ _ _ accepted_later ?_ ?_ ?_⟩
  · intro field hmem _
    fin_cases hmem <;> decide +kernel
  · intro field hmem _
    fin_cases hmem <;> decide +kernel
  · intro field hmem
    fin_cases hmem
    · exact .inl rfl
    · exact .inr ⟨rfl, nofun, nofun⟩

/-- An optional choice may be left empty, a duration may be a text, and `NaN` becomes null. -/
theorem not_answers_fit :
    (¬ ∀ fields values clean safe, Accepted fields values clean safe → ∀ field ∈ fields,
      field.kind = .select → ∃ value, clean.get? field.id = some value ∧ IsOption field value) ∧
    (¬ ∀ fields values clean safe, Accepted fields values clean safe → ∀ field ∈ fields,
      field.isNumeric = true → ∃ value, clean.get? field.id = some value ∧
        (isEmptyValue value = false → InRange field value)) ∧
    (¬ ∀ fields values clean safe, Accepted fields values clean safe → ∀ field ∈ fields,
      field.required = true → field.kind ≠ .multiselect → ∃ value,
        clean.get? field.id = some value ∧ isEmptyValue value = false) ∧
    ¬ ∀ fields values clean safe values' clean' safe', Accepted fields values clean safe →
      Accepted fields values' clean' safe' → SameButSecrets fields values values' → safe = safe' := by
  refine ⟨fun h => ?_, fun h => ?_, fun h => ?_, fun h => ?_⟩
  · obtain ⟨value, hget, text, rfl, hoption⟩ :=
      h form _ _ _ accepted_text modeField (by simp [form]) rfl
    cases hget
    cases hoption
  · obtain ⟨value, hget, hrange⟩ := h form _ _ _ accepted_text waitField (by simp [form]) rfl
    cases hget
    obtain ⟨text, d, htext, -⟩ := hrange rfl
    cases htext
  · obtain ⟨value, hget, hfull⟩ :=
      h form _ _ _ accepted_nan waitField (by simp [form]) rfl (by decide)
    cases hget
    cases hfull
  · have hsame : SameButSecrets form [("wait", .string "soon")] [("wait", .string "NaN")] := by
      intro field hmem
      fin_cases hmem
      · exact .inl rfl
      · exact .inr ⟨rfl, nofun, nofun⟩
    have hsafe := h form _ _ _ _ _ _ accepted_text accepted_nan hsame
    cases hsafe

end Bmac.Proto
