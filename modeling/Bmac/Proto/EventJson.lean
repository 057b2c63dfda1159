import Bmac.Proto.BmacUi

/-!
# Events as JSON

`serde_json::to_value` of a `WorkflowEvent`, its members in the order of the declarations, and the
strings of a JSON value: its texts and its objects' keys. Members without a value are left out.
-/

namespace Bmac.Proto

open Bmac.Core Bmac.Bmacd

/-! ## The strings of a value -/

mutual

def texts : Value → List String
  | .string s => [s]
  | .array items => itemTexts items
  | .object fields => fieldTexts fields
  | .null => []
  | .bool _ => []
  | .number _ => []

def itemTexts : List Value → List String
  | [] => []
  | item :: rest => texts item ++ itemTexts rest

def fieldTexts : List (String × Value) → List String
  | [] => []
  | (_, value) :: rest => texts value ++ fieldTexts rest

end

theorem itemTexts_cons (item : Value) (rest : List Value) :
    itemTexts (item :: rest) = texts item ++ itemTexts rest := rfl

theorem fieldTexts_cons (key : String) (value : Value) (rest : List (String × Value)) :
    fieldTexts ((key, value) :: rest) = texts value ++ fieldTexts rest := rfl

mutual

def keys : Value → List String
  | .array items => itemKeys items
  | .object fields => fieldKeys fields
  | .string _ => []
  | .null => []
  | .bool _ => []
  | .number _ => []

def itemKeys : List Value → List String
  | [] => []
  | item :: rest => keys item ++ itemKeys rest

def fieldKeys : List (String × Value) → List String
  | [] => []
  | (key, value) :: rest => key :: keys value ++ fieldKeys rest

end

theorem itemKeys_cons (item : Value) (rest : List Value) :
    itemKeys (item :: rest) = keys item ++ itemKeys rest := rfl

theorem fieldKeys_cons (key : String) (value : Value) (rest : List (String × Value)) :
    fieldKeys ((key, value) :: rest) = key :: keys value ++ fieldKeys rest := rfl

section

variable (f : String → String)

mutual

theorem texts_mapTexts : ∀ value, texts (mapTexts f value) = (texts value).map f
  | .string _ => rfl
  | .array items => itemTexts_mapItems items
  | .object fields => fieldTexts_mapFields fields
  | .null => rfl
  | .bool _ => rfl
  | .number _ => rfl

theorem itemTexts_mapItems : ∀ items, itemTexts (mapItems f items) = (itemTexts items).map f
  | [] => rfl
  | item :: rest => by
    rw [mapItems_cons, itemTexts_cons, itemTexts_cons, List.map_append, texts_mapTexts item,
      itemTexts_mapItems rest]

theorem fieldTexts_mapFields : ∀ fields, fieldTexts (mapFields f fields) = (fieldTexts fields).map f
  | [] => rfl
  | (key, value) :: rest => by
    rw [mapFields_cons, fieldTexts_cons, fieldTexts_cons, List.map_append, texts_mapTexts value,
      fieldTexts_mapFields rest]

end

mutual

theorem keys_mapTexts : ∀ value, keys (mapTexts f value) = keys value
  | .array items => itemKeys_mapItems items
  | .object fields => fieldKeys_mapFields fields
  | .string _ => rfl
  | .null => rfl
  | .bool _ => rfl
  | .number _ => rfl

theorem itemKeys_mapItems : ∀ items, itemKeys (mapItems f items) = itemKeys items
  | [] => rfl
  | item :: rest => by
    rw [mapItems_cons, itemKeys_cons, itemKeys_cons, keys_mapTexts item, itemKeys_mapItems rest]

theorem fieldKeys_mapFields : ∀ fields, fieldKeys (mapFields f fields) = fieldKeys fields
  | [] => rfl
  | (key, value) :: rest => by
    rw [mapFields_cons, fieldKeys_cons, fieldKeys_cons, keys_mapTexts value, fieldKeys_mapFields rest]

end

end

/-! ## The JSON of an event -/

/-- A member that is left out without a value. -/
def optional {α : Type} (key : String) (toValue : α → Value) (x : Option α) : List (String × Value) :=
  x.toList.map fun a => (key, toValue a)

/-- A list that is left out when it's empty. -/
def nonempty (key : String) (items : List Value) : List (String × Value) :=
  if items.isEmpty then [] else [(key, .array items)]

def count (n : Nat) : Value := .number (toString n)

def signed (n : Int) : Value := .number (toString n)

def FieldOption.toJson (option : FieldOption) : Value :=
  .object ([("value", .string option.value), ("label", .string option.label)] ++
    optional "help" .string option.help)

def FileFilter.toJson (filter : FileFilter) : Value :=
  .object [("name", .string filter.name), ("extensions", .array (filter.extensions.map .string))]

def Field.toJson (field : Field) : Value :=
  .object ([("id", .string field.id), ("type", .string field.kind.word),
      ("label", .string field.label)] ++
    optional "help" .string field.help ++
    [("required", .bool field.required)] ++
    optional "default" (fun value => value) field.default ++
    optional "placeholder" .string field.placeholder ++
    optional "suffix" .string field.suffix ++
    optional "min" .number field.min ++
    optional "max" .number field.max ++
    optional "min_selected" count field.minSelected ++
    optional "max_selected" count field.maxSelected ++
    optional "pattern" .string field.pattern ++
    [("sensitive", .bool field.sensitive), ("disabled", .bool field.disabled)] ++
    nonempty "options" (field.options.map (·.toJson)) ++
    nonempty "filters" (field.filters.map (·.toJson)))

def Instruction.toJson : Instruction → Value
  | text t => .string t
  | withCopy t copy runOn =>
    .object ([("text", .string t), ("copy", .string copy)] ++ optional "run_on" .string runOn)

def PlanItem.toJson (item : PlanItem) : Value :=
  .object [("kind", .string item.kind.word), ("target", .string item.target),
    ("description", .string item.description)]

def textMap (map : Dict String) : Value := .object (map.map fun (key, text) => (key, .string text))

def RequestForm.members (id : String) : RequestForm → List (String × Value)
  | input title description context field =>
    [("type", .string "input"), ("request_id", .string id)] ++
      optional "title" .string title ++ optional "description" .string description ++
      optional "context" .string context ++ [("field", field.toJson)]
  | inputGroup title description context layout fields =>
    [("type", .string "input_group"), ("request_id", .string id), ("title", .string title)] ++
      optional "description" .string description ++ optional "context" .string context ++
      optional "layout" .string layout ++ [("fields", .array (fields.map (·.toJson)))]
  | confirm title message severity confirmLabel cancelLabel confirmationText context details =>
    [("type", .string "confirm"), ("request_id", .string id), ("title", .string title),
        ("message", .string message), ("severity", .string severity.word)] ++
      optional "confirm_label" .string confirmLabel ++ optional "cancel_label" .string cancelLabel ++
      optional "confirmation_text" .string confirmationText ++ optional "context" .string context ++
      nonempty "details" (details.map .string)
  | manualAction title instructions acknowledgeLabel context =>
    [("type", .string "manual_action"), ("request_id", .string id), ("title", .string title),
        ("instructions", .array (instructions.map (·.toJson)))] ++
      optional "acknowledge_label" .string acknowledgeLabel ++ optional "context" .string context

namespace WorkflowEvent

def members : WorkflowEvent → List (String × Value)
  | protocol name version bmacVersion =>
    [("type", .string "protocol"), ("protocol", .string name), ("version", count version)] ++
      optional "bmac_version" .string bmacVersion
  | workflowStarted workflow runId script argv pid startedAt =>
    [("type", .string "workflow_started"), ("workflow", .string workflow),
        ("run_id", .string runId)] ++
      optional "script" .string script ++ [("argv", .array (argv.map .string))] ++
      optional "pid" count pid ++ optional "started_at" .string startedAt
  | workflowMetadata workflow title description category destructive supportsDryRun supportsCancel =>
    [("type", .string "workflow_metadata")] ++
      optional "workflow" .string workflow ++ optional "title" .string title ++
      optional "description" .string description ++ optional "category" .string category ++
      optional "destructive" .bool destructive ++ optional "supports_dry_run" .bool supportsDryRun ++
      optional "supports_cancel" .bool supportsCancel
  | request id form => form.members id
  | progress message current total unit in_ =>
    [("type", .string "progress"), ("message", .string message)] ++
      optional "current" .number current ++ optional "total" .number total ++
      optional "unit" .string unit ++ optional "phase" .string in_
  | phase id label status cancelAllowed =>
    [("type", .string "phase"), ("id", .string id), ("label", .string label),
        ("status", .string status.word)] ++
      optional "cancel_allowed" .bool cancelAllowed
  | plan title description items dryRun =>
    [("type", .string "plan"), ("title", .string title)] ++
      optional "description" .string description ++
      [("items", .array (items.map (·.toJson))), ("dry_run", .bool dryRun)]
  | info message => [("type", .string "info"), ("message", .string message)]
  | warning message => [("type", .string "warning"), ("message", .string message)]
  | error code message details recoverable =>
    [("type", .string "error")] ++ optional "code" .string code ++ [("message", .string message)] ++
      optional "details" .string details ++ [("recoverable", .bool recoverable)]
  | validationError id fieldErrors message =>
    [("type", .string "validation_error"), ("request_id", .string id),
        ("field_errors", textMap fieldErrors)] ++
      optional "message" .string message
  | log stream level text source =>
    [("type", .string "log")] ++ optional "stream" .string stream ++
      [("level", .string level.word), ("text", .string text)] ++ optional "source" .string source
  | result data => [("type", .string "result"), ("data", data)]
  | nextStep text command workflow args =>
    [("type", .string "next_step"), ("text", .string text)] ++ optional "command" .string command ++
      optional "workflow" .string workflow ++ optional "args" textMap args
  | completed status message exitCode finishedAt =>
    [("type", .string "completed"), ("status", .string status.word)] ++
      optional "message" .string message ++
      optional "exit_code" signed exitCode ++
      optional "finished_at" .string finishedAt

def toJson (event : WorkflowEvent) : Value := .object event.members

end WorkflowEvent

/-! ## Rewriting the texts -/

section

variable {f : String → String}

@[simp] theorem mapFields_append (xs ys : List (String × Value)) :
    mapFields f (xs ++ ys) = mapFields f xs ++ mapFields f ys := by
  induction xs with
  | nil => rfl
  | cons x xs ih =>
    obtain ⟨key, value⟩ := x
    rw [List.cons_append, mapFields_cons, ih, mapFields_cons, List.cons_append]

@[simp] theorem mapItems_eq_map (items : List Value) : mapItems f items = items.map (mapTexts f) := by
  induction items with
  | nil => rfl
  | cons item rest ih => rw [mapItems_cons, ih, List.map_cons]

theorem mapFields_optional {α : Type} {toValue : α → Value} {g : α → α}
    (h : ∀ a, mapTexts f (toValue a) = toValue (g a)) (key : String) (x : Option α) :
    mapFields f (optional key toValue x) = optional key toValue (x.map g) := by
  cases x with
  | none => rfl
  | some a =>
    change [(key, mapTexts f (toValue a))] = [(key, toValue (g a))]
    rw [h]

/-- A member whose value has no text. -/
theorem mapFields_kept {α : Type} {toValue : α → Value} (h : ∀ a, mapTexts f (toValue a) = toValue a)
    (key : String) (x : Option α) : mapFields f (optional key toValue x) = optional key toValue x := by
  rw [@mapFields_optional f α toValue id h, Option.map_id_fun, id]

@[simp] theorem mapFields_string (key : String) (x : Option String) :
    mapFields f (optional key .string x) = optional key .string (x.map f) :=
  @mapFields_optional f String _ f (fun _ => rfl) key x

@[simp] theorem mapFields_value (key : String) (x : Option Value) :
    mapFields f (optional key (fun value => value) x) =
      optional key (fun value => value) (x.map (mapTexts f)) :=
  @mapFields_optional f Value (fun value => value) (mapTexts f) (fun _ => rfl) key x

@[simp] theorem mapFields_number (key : String) (x : Option String) :
    mapFields f (optional key .number x) = optional key .number x := mapFields_kept (fun _ => rfl) key x

@[simp] theorem mapFields_count (key : String) (x : Option Nat) :
    mapFields f (optional key count x) = optional key count x := mapFields_kept (fun _ => rfl) key x

@[simp] theorem mapFields_bool (key : String) (x : Option Bool) :
    mapFields f (optional key .bool x) = optional key .bool x := mapFields_kept (fun _ => rfl) key x

@[simp] theorem mapFields_signed (key : String) (x : Option Int) :
    mapFields f (optional key signed x) = optional key signed x := mapFields_kept (fun _ => rfl) key x

@[simp] theorem mapFields_nonempty (key : String) (items : List Value) :
    mapFields f (nonempty key items) = nonempty key (items.map (mapTexts f)) := by
  cases items with
  | nil => rfl
  | cons item rest =>
    change [(key, Value.array (mapItems f (item :: rest)))] = _
    rw [mapItems_eq_map]
    rfl

@[simp] theorem mapTexts_textMap (map : Dict String) :
    mapTexts f (textMap map) = textMap (map.map fun (key, text) => (key, f text)) := by
  unfold textMap
  rw [mapTexts_object]
  congr 1
  induction map with
  | nil => rfl
  | cons x rest ih =>
    rw [List.map_cons, mapFields_cons, ih]
    rfl

@[simp] theorem mapFields_textMap (key : String) (x : Option (Dict String)) :
    mapFields f (optional key textMap x) =
      optional key textMap (x.map fun map => map.map fun (key, text) => (key, f text)) :=
  mapFields_optional mapTexts_textMap key x

@[simp] theorem toJson_option (option : FieldOption) :
    FieldOption.toJson ⟨f option.value, f option.label, option.help.map f⟩ =
      mapTexts f option.toJson := by
  simp [FieldOption.toJson]

@[simp] theorem toJson_filter (filter : FileFilter) :
    FileFilter.toJson ⟨f filter.name, filter.extensions.map f⟩ = mapTexts f filter.toJson := by
  simp [FileFilter.toJson, Function.comp_def]

@[simp] theorem toJson_instruction (instruction : Instruction) :
    (instruction.mapTexts f).toJson = mapTexts f instruction.toJson := by
  cases instruction with
  | text t => rfl
  | withCopy t copy runOn => simp [Instruction.mapTexts, Instruction.toJson]

theorem toJson_field {field : Field} (h : f field.kind.word = field.kind.word) :
    (field.mapTexts f).toJson = mapTexts f field.toJson := by
  simp [Field.mapTexts, Field.toJson, h, Function.comp_def]

theorem toJson_item {item : PlanItem} (h : f item.kind.word = item.kind.word) :
    PlanItem.toJson ⟨item.kind, f item.target, f item.description⟩ = mapTexts f item.toJson := by
  simp [PlanItem.toJson, h]

theorem members_form {id : String} {form : RequestForm} (h : ∀ word ∈ form.words, f word = word) :
    (form.mapTexts f).members (f id) = mapFields f (form.members id) := by
  cases form with
  | input title description context field =>
    have htype := h "input" (by simp [RequestForm.words])
    have hfield := toJson_field (h field.kind.word (by simp [RequestForm.words]))
    simp [RequestForm.mapTexts, RequestForm.members, htype, hfield]
  | inputGroup title description context layout fields =>
    have htype := h "input_group" (by simp [RequestForm.words])
    have hfields : ∀ field ∈ fields, (field.mapTexts f).toJson = mapTexts f field.toJson :=
      fun field hmem => toJson_field (h _ (List.mem_cons_of_mem _ (List.mem_map_of_mem hmem)))
    have hmap : (fields.map fun field => (field.mapTexts f).toJson) =
        fields.map fun field => mapTexts f field.toJson := List.map_congr_left hfields
    simp [RequestForm.mapTexts, RequestForm.members, htype, hmap,
      Function.comp_def]
  | confirm title message severity confirmLabel cancelLabel confirmationText context details =>
    have htype := h "confirm" (by simp [RequestForm.words])
    have hseverity := h severity.word (by simp [RequestForm.words])
    simp [RequestForm.mapTexts, RequestForm.members, htype, hseverity,
      Function.comp_def]
  | manualAction title instructions acknowledgeLabel context =>
    have htype := h "manual_action" (by simp [RequestForm.words])
    simp [RequestForm.mapTexts, RequestForm.members, htype, Function.comp_def]

theorem WorkflowEvent.toJson_mapTexts {event : WorkflowEvent}
    (h : ∀ word ∈ event.words, f word = word) :
    (event.mapTexts f).toJson = Proto.mapTexts f event.toJson := by
  unfold WorkflowEvent.toJson
  rw [mapTexts_object]
  congr 1
  cases event with
  | request id form => exact members_form h
  | phase id label status cancelAllowed =>
    have htype := h "phase" (by simp [words])
    have hstatus := h status.word (by simp [words])
    simp [WorkflowEvent.mapTexts, members, htype, hstatus]
  | plan title description items dryRun =>
    have htype := h "plan" (by simp [words])
    have hitems : ∀ item ∈ items,
        PlanItem.toJson ⟨item.kind, f item.target, f item.description⟩ =
          Proto.mapTexts f item.toJson :=
      fun item hmem => toJson_item (h _ (List.mem_cons_of_mem _ (List.mem_map_of_mem hmem)))
    have hmap := List.map_congr_left hitems
    simp [WorkflowEvent.mapTexts, members, htype, hmap, Function.comp_def]
  | log stream level text source =>
    have htype := h "log" (by simp [words])
    have hlevel := h level.word (by simp [words])
    simp [WorkflowEvent.mapTexts, members, htype, hlevel]
  | completed status message exitCode finishedAt =>
    have htype := h "completed" (by simp [words])
    have hstatus := h status.word (by simp [words])
    simp [WorkflowEvent.mapTexts, members, htype, hstatus]
  | protocol | workflowStarted | workflowMetadata | progress | info | warning | error
  | validationError | result | nextStep =>
    have htype := h _ (List.mem_singleton_self _)
    simp [WorkflowEvent.mapTexts, members, htype, count,
      Function.comp_def]

end

/-! ## Its words -/

variable {text : String}

theorem mem_itemTexts {item : Value} {items : List Value} (hitem : item ∈ items)
    (h : text ∈ texts item) : text ∈ itemTexts items := by
  induction items with
  | nil => cases hitem
  | cons first rest ih =>
    rw [itemTexts_cons, List.mem_append]
    rcases List.mem_cons.mp hitem with rfl | hrest
    · exact .inl h
    · exact .inr (ih hrest)

theorem mem_fieldTexts (key : String) (value : Value) {fields : List (String × Value)}
    (hfield : (key, value) ∈ fields) (h : text ∈ texts value) : text ∈ fieldTexts fields := by
  induction fields with
  | nil => cases hfield
  | cons first rest ih =>
    rw [fieldTexts_cons, List.mem_append]
    rcases List.mem_cons.mp hfield with rfl | hrest
    · exact .inl h
    · exact .inr (ih hrest)

theorem mem_texts_string (key : String) {fields : List (String × Value)}
    (h : (key, .string text) ∈ fields) : text ∈ fieldTexts fields :=
  mem_fieldTexts key _ h (List.mem_singleton_self _)

theorem kind_mem_texts (field : Field) : field.kind.word ∈ texts field.toJson := by
  refine mem_texts_string "type" ?_
  simp

theorem words_form {id word : String} {form : RequestForm} (h : word ∈ form.words) :
    word ∈ fieldTexts (form.members id) := by
  cases form with
  | input title description context field =>
    rcases List.mem_cons.mp h with rfl | h
    · exact mem_texts_string "type" (by simp [RequestForm.members])
    · obtain rfl := List.mem_singleton.mp h
      refine mem_fieldTexts "field" _ ?_ (kind_mem_texts field)
      simp [RequestForm.members]
  | inputGroup title description context layout fields =>
    rcases List.mem_cons.mp h with rfl | h
    · exact mem_texts_string "type" (by simp [RequestForm.members])
    · obtain ⟨field, hfield, rfl⟩ := List.mem_map.mp h
      have hitem : field.kind.word ∈ itemTexts (fields.map (·.toJson)) :=
        mem_itemTexts (List.mem_map_of_mem hfield) (kind_mem_texts field)
      refine mem_fieldTexts "fields" (.array (fields.map Field.toJson)) ?_ hitem
      simp [RequestForm.members]
  | confirm title message severity confirmLabel cancelLabel confirmationText context details =>
    rcases List.mem_cons.mp h with rfl | h
    · exact mem_texts_string "type" (by simp [RequestForm.members])
    · obtain rfl := List.mem_singleton.mp h
      exact mem_texts_string "severity" (by simp [RequestForm.members])
  | manualAction title instructions acknowledgeLabel context =>
    obtain rfl := List.mem_singleton.mp h
    exact mem_texts_string "type" (by simp [RequestForm.members])

theorem WorkflowEvent.mem_texts_of_mem_words {event : WorkflowEvent} {word : String}
    (h : word ∈ event.words) : word ∈ texts event.toJson := by
  change word ∈ fieldTexts event.members
  cases event with
  | request id form => exact words_form h
  | phase id label status cancelAllowed =>
    rcases List.mem_cons.mp h with rfl | h
    · exact mem_texts_string "type" (by simp [members])
    · obtain rfl := List.mem_singleton.mp h
      exact mem_texts_string "status" (by simp [members])
  | plan title description items dryRun =>
    rcases List.mem_cons.mp h with rfl | h
    · exact mem_texts_string "type" (by simp [members])
    · obtain ⟨item, hmem, rfl⟩ := List.mem_map.mp h
      have hkind : item.kind.word ∈ texts item.toJson :=
        mem_texts_string "kind" (by simp)
      have hitem : item.kind.word ∈ itemTexts (items.map (·.toJson)) :=
        mem_itemTexts (List.mem_map_of_mem hmem) hkind
      refine mem_fieldTexts "items" (.array (items.map PlanItem.toJson)) ?_ hitem
      simp [members]
  | log stream level text source =>
    rcases List.mem_cons.mp h with rfl | h
    · exact mem_texts_string "type" (by simp [members])
    · obtain rfl := List.mem_singleton.mp h
      exact mem_texts_string "level" (by simp [members])
  | completed status message exitCode finishedAt =>
    rcases List.mem_cons.mp h with rfl | h
    · exact mem_texts_string "type" (by simp [members])
    · obtain rfl := List.mem_singleton.mp h
      exact mem_texts_string "status" (by simp [members])
  | protocol | workflowStarted | workflowMetadata | progress | info | warning | error
  | validationError | result | nextStep =>
    obtain rfl := List.mem_singleton.mp h
    exact mem_texts_string "type" (by simp [members])

end Bmac.Proto
