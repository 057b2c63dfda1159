import Bmac.Base.Replace
import Bmac.Bmacd.Supervisor
import Bmac.Proto.EventJson

/-!
# What scrubbing leaves

The strings of an event after `scrub`, in its JSON: its texts, and its objects' keys. Keys stay as they
are, an event whose tag or enumerations have a secret stays whole, and an inserted redaction can spell a
secret together with the text beside it.
-/

namespace Bmac.Bmacd.Supervisor

open Bmac.Core Bmac.Bmacd Bmac.Proto

/-! ## One text -/

/-- `str::contains`. -/
def Contains (text secret : String) : Prop := secret.toList <:+: text.toList

instance (text secret : String) : Decidable (Contains text secret) :=
  inferInstanceAs (Decidable (secret.toList <:+: text.toList))

section

variable {secrets : List String} {text secret : String}

theorem replaceFrom_eq (pat new : List Char) (skip : Nat) (cs : List Char) :
    Text.replaceFrom pat new skip cs =
      Base.replaceBy (fun cs => pat.isPrefixOf cs) pat.length new skip cs := by
  induction cs generalizing skip with
  | nil =>
    cases skip with
    | zero => rfl
    | succ skip => rfl
  | cons c cs ih =>
    cases skip with
    | succ skip => exact ih skip
    | zero =>
      rw [Text.replaceFrom, Base.replaceBy]
      split
      · rw [ih]
      · rw [ih]

theorem replace_of_not_contains (h : ¬ Contains text secret) :
    Text.replace secret redacted text = text := by
  unfold Text.replace
  rw [replaceFrom_eq, Base.replaceBy_of_miss, String.ofList_toList]
  intro suffix hs _
  refine Bool.eq_false_iff.mpr fun hhit => h ?_
  exact (List.isPrefixOf_iff_prefix.mp hhit).isInfix.trans hs.isInfix

theorem contains_redacted_of_replaced (hne : secret ≠ "") (h : Contains text secret) :
    Contains (Text.replace secret redacted text) redacted := by
  unfold Contains Text.replace
  rw [String.toList_ofList, replaceFrom_eq]
  obtain ⟨suffix, hprefix, hsuffix⟩ := List.infix_iff_prefix_suffix.mp h
  refine Base.infix_replaceBy hsuffix ?_ (List.isPrefixOf_iff_prefix.mpr hprefix)
  rintro rfl
  exact hne (String.toList_eq_nil_iff.mp (List.prefix_nil.mp hprefix))

theorem redact_cons (secret : String) (secrets : List String) (text : String) :
    redact (secret :: secrets) text = redact secrets (Text.replace secret redacted text) := rfl

theorem redact_of_clean (h : ∀ secret ∈ secrets, ¬ Contains text secret) :
    redact secrets text = text := by
  induction secrets with
  | nil => rfl
  | cons first secrets ih =>
    rw [redact_cons, replace_of_not_contains (h first (List.mem_cons_self ..))]
    exact ih fun secret hmem => h secret (List.mem_cons_of_mem _ hmem)

theorem contains_redacted (hne : ∀ secret ∈ secrets, secret ≠ "")
    (h : Contains text redacted ∨ ∃ secret ∈ secrets, Contains text secret) :
    Contains (redact secrets text) redacted := by
  induction secrets generalizing text with
  | nil =>
    rcases h with h | ⟨secret, hmem, -⟩
    · exact h
    · cases hmem
  | cons first secrets ih =>
    rw [redact_cons]
    refine ih (fun secret hmem => hne secret (List.mem_cons_of_mem _ hmem)) ?_
    by_cases hfirst : Contains text first
    · exact .inl (contains_redacted_of_replaced (hne first (List.mem_cons_self ..)) hfirst)
    · rw [replace_of_not_contains hfirst]
      rcases h with h | ⟨secret, hmem, hsecret⟩
      · exact .inl h
      · rcases List.mem_cons.mp hmem with rfl | hmem
        · exact absurd hsecret hfirst
        · exact .inr ⟨secret, hmem, hsecret⟩

end

/-! ## Inserted characters -/

/-- A text's characters, and whether each was inserted. -/
abbrev Marked := List (Char × Bool)

def replaceMarked (secret : String) (text : Marked) : Marked :=
  Base.replaceBy (fun cs => secret.toList.isPrefixOf (cs.map Prod.fst)) secret.toList.length
    (redacted.toList.map (·, true)) 0 text

def redactMarked (secrets : List String) (text : Marked) : Marked :=
  secrets.foldl (fun text secret => replaceMarked secret text) text

/-- Inserted characters help to spell a secret. -/
def Rejoined (secrets : List String) (text : String) : Prop :=
  ∃ secret ∈ secrets, ∃ block, block <:+: redactMarked secrets (text.toList.map (·, false)) ∧
    block.map Prod.fst = secret.toList ∧ ∃ c, (c, true) ∈ block

section

variable {secrets : List String} {text secret : String} {marked : Marked}

theorem map_replaceMarked (secret : String) (marked : Marked) :
    (replaceMarked secret marked).map Prod.fst =
      (Text.replace secret redacted (String.ofList (marked.map Prod.fst))).toList := by
  unfold replaceMarked Text.replace
  rw [String.toList_ofList, String.toList_ofList, replaceFrom_eq,
    Base.map_replaceBy Prod.fst (fun cs => secret.toList.isPrefixOf cs), List.map_map]
  congr 1

theorem map_redactMarked (secrets : List String) (marked : Marked) :
    (redactMarked secrets marked).map Prod.fst =
      (redact secrets (String.ofList (marked.map Prod.fst))).toList := by
  induction secrets generalizing marked with
  | nil => exact String.toList_ofList.symm
  | cons first secrets ih =>
    rw [redact_cons]
    refine (ih (replaceMarked first marked)).trans ?_
    rw [map_replaceMarked, String.ofList_toList]

theorem unmarked_apart (hne : secret ≠ "") :
    Base.Apart (redacted.toList.map (·, true)) (secret.toList.map (·, false)) := by
  refine Base.Apart.of_disjoint ?_ (by decide) ?_
  · simpa using hne
  · intro x hx hnew
    obtain ⟨c, -, rfl⟩ := List.mem_map.mp hx
    obtain ⟨d, -, hd⟩ := List.mem_map.mp hnew
    cases hd

theorem not_unmarked_redactMarked (hne : ∀ secret ∈ secrets, secret ≠ "") (hmem : secret ∈ secrets)
    (marked : Marked) : ¬ secret.toList.map (·, false) <:+: redactMarked secrets marked := by
  have happart := unmarked_apart (hne secret hmem)
  have hkept : ∀ others marked, secret.toList.map (·, false) <:+: redactMarked others marked →
      secret.toList.map (·, false) <:+: marked := by
    intro others
    induction others with
    | nil => exact fun marked h => h
    | cons other others ih =>
      exact fun marked h => Base.infix_of_replaceBy happart 0 marked (ih _ h)
  induction secrets generalizing marked with
  | nil => cases hmem
  | cons first secrets ih =>
    rcases List.mem_cons.mp hmem with rfl | hmem
    · intro h
      refine Base.not_infix_replaceBy happart (fun cs hcs => ?_) 0 marked (hkept secrets _ h)
      obtain ⟨rest, rfl⟩ := hcs
      rw [List.map_append, List.map_map, List.isPrefixOf_iff_prefix]
      exact ⟨rest.map Prod.fst, by congr 1; exact (List.map_id _).symm⟩
    · exact ih (fun secret hmem => hne secret (List.mem_cons_of_mem _ hmem)) hmem _

theorem eq_unmarked {block : Marked} (h : ∀ c, (c, true) ∉ block) :
    block = (block.map Prod.fst).map (·, false) := by
  rw [List.map_map]
  refine (List.map_id block).symm.trans (List.map_congr_left fun x hx => ?_)
  obtain ⟨c, inserted⟩ := x
  cases inserted with
  | true => exact absurd hx (h c)
  | false => rfl

/-- A redacted text has a secret exactly if inserted characters help to spell one. -/
theorem rejoined_iff (hne : ∀ secret ∈ secrets, secret ≠ "") :
    Rejoined secrets text ↔ ∃ secret ∈ secrets, Contains (redact secrets text) secret := by
  have hchars : (redactMarked secrets (text.toList.map (·, false))).map Prod.fst =
      (redact secrets text).toList := by
    rw [map_redactMarked, List.map_map]
    congr 2
    exact (congrArg String.ofList (List.map_id _)).trans String.ofList_toList
  constructor
  · rintro ⟨secret, hmem, block, hblock, hspelled, -⟩
    refine ⟨secret, hmem, ?_⟩
    unfold Contains
    rw [← hchars, ← hspelled]
    exact hblock.map Prod.fst
  · rintro ⟨secret, hmem, hcontains⟩
    unfold Contains at hcontains
    rw [← hchars] at hcontains
    obtain ⟨block, hblock, hspelled⟩ := List.infix_map_iff.mp hcontains
    refine ⟨secret, hmem, block, hblock, hspelled.symm, ?_⟩
    by_contra hnone
    have hunmarked := @eq_unmarked block fun c hc => hnone ⟨c, hc⟩
    rw [← hspelled] at hunmarked
    rw [hunmarked] at hblock
    exact not_unmarked_redactMarked hne hmem _ hblock

/-- Secrets that share no end with the redaction aren't put together again. -/
theorem not_rejoined_of_apart (hne : ∀ secret ∈ secrets, secret ≠ "")
    (happart : ∀ secret ∈ secrets, Base.Apart redacted.toList secret.toList) (text : String) :
    ¬ Rejoined secrets text := by
  rw [rejoined_iff hne]
  rintro ⟨secret, hmem, h⟩
  have hkept : ∀ others text, Contains (redact others text) secret → Contains text secret := by
    intro others
    induction others with
    | nil => exact fun text h => h
    | cons other others ih =>
      intro text h
      have hreplaced := ih _ h
      unfold Contains Text.replace at hreplaced
      rw [String.toList_ofList, replaceFrom_eq] at hreplaced
      exact Base.infix_of_replaceBy (happart secret hmem) 0 _ hreplaced
  induction secrets generalizing text with
  | nil => cases hmem
  | cons first secrets ih =>
    rcases List.mem_cons.mp hmem with rfl | hrest
    · have hreplaced := hkept secrets _ h
      unfold Contains Text.replace at hreplaced
      rw [String.toList_ofList, replaceFrom_eq] at hreplaced
      exact Base.not_infix_replaceBy (happart secret hmem)
        (fun cs hcs => List.isPrefixOf_iff_prefix.mpr hcs) 0 _ hreplaced
    · exact ih (fun secret hmem => hne secret (List.mem_cons_of_mem _ hmem))
        (fun secret hmem => happart secret (List.mem_cons_of_mem _ hmem)) _ hrest h

end

/-! ## An event -/

/-- None of the texts has a secret. -/
def Clean (secrets texts : List String) : Prop :=
  ∀ text ∈ texts, ∀ secret ∈ secrets, ¬ Contains text secret

instance (secrets texts : List String) : Decidable (Clean secrets texts) :=
  inferInstanceAs (Decidable (∀ text ∈ texts, ∀ secret ∈ secrets, ¬ Contains text secret))

def strings (event : WorkflowEvent) : List String := texts event.toJson ++ keys event.toJson

section

variable {secrets : List String} {event : WorkflowEvent} {word : String}

theorem brace_not_mem_words (h : word ∈ event.words) : '[' ∉ word.toList := by
  have hfield : ∀ kind : FieldType, '[' ∉ kind.word.toList := fun kind => by cases kind <;> simp [FieldType.word]
  have hseverity : ∀ severity : Severity, '[' ∉ severity.word.toList :=
    fun severity => by cases severity <;> simp [Severity.word]
  have hstatus : ∀ status : PhaseStatus, '[' ∉ status.word.toList :=
    fun status => by cases status <;> simp [PhaseStatus.word]
  have hkind : ∀ kind : PlanKind, '[' ∉ kind.word.toList := fun kind => by cases kind <;> simp [PlanKind.word]
  have hlevel : ∀ level : LogLevel, '[' ∉ level.word.toList := fun level => by cases level <;> simp [LogLevel.word]
  have hdone : ∀ status : CompletedStatus, '[' ∉ status.word.toList :=
    fun status => by cases status <;> simp [CompletedStatus.word]
  cases event with
  | request id form =>
    cases form with
    | input title description context field =>
      rcases List.mem_cons.mp h with rfl | h
      · simp
      · exact List.mem_singleton.mp h ▸ hfield field.kind
    | inputGroup title description context layout fields =>
      rcases List.mem_cons.mp h with rfl | h
      · simp
      · obtain ⟨field, -, rfl⟩ := List.mem_map.mp h
        exact hfield field.kind
    | confirm title message severity =>
      rcases List.mem_cons.mp h with rfl | h
      · simp
      · exact List.mem_singleton.mp h ▸ hseverity severity
    | manualAction =>
      obtain rfl := List.mem_singleton.mp h
      simp
  | phase id label status cancelAllowed =>
    rcases List.mem_cons.mp h with rfl | h
    · simp
    · exact List.mem_singleton.mp h ▸ hstatus status
  | plan title description items dryRun =>
    rcases List.mem_cons.mp h with rfl | h
    · simp
    · obtain ⟨item, -, rfl⟩ := List.mem_map.mp h
      exact hkind item.kind
  | log stream level text source =>
    rcases List.mem_cons.mp h with rfl | h
    · simp
    · exact List.mem_singleton.mp h ▸ hlevel level
  | completed status message exitCode finishedAt =>
    rcases List.mem_cons.mp h with rfl | h
    · simp
    · exact List.mem_singleton.mp h ▸ hdone status
  | protocol | workflowStarted | workflowMetadata | progress | info | warning | error
  | validationError | result | nextStep =>
    obtain rfl := List.mem_singleton.mp h
    simp

/-- A word with a secret doesn't come through the redaction. -/
theorem redact_word (hne : ∀ secret ∈ secrets, secret ≠ "") (h : word ∈ event.words) :
    redact secrets word = word ↔ ∀ secret ∈ secrets, ¬ Contains word secret := by
  constructor
  · intro heq secret hmem hcontains
    have hredacted := contains_redacted hne (.inr ⟨secret, hmem, hcontains⟩)
    rw [heq] at hredacted
    exact brace_not_mem_words h (hredacted.subset (by decide))
  · exact redact_of_clean

theorem scrub_of_clean_words (h : Clean secrets event.words) :
    scrub secrets event = event.mapTexts (redact secrets) ∨ secrets = [] := by
  unfold scrub
  split
  · rename_i hempty
    exact .inr (List.isEmpty_iff.mp hempty)
  · rw [if_pos]
    · exact .inl rfl
    · simpa using fun word hword => redact_of_clean (h word hword)

theorem scrub_of_word {secret : String} (hne : ∀ secret ∈ secrets, secret ≠ "")
    (hword : word ∈ event.words) (hmem : secret ∈ secrets) (h : Contains word secret) :
    scrub secrets event = event := by
  unfold scrub
  split
  · rfl
  · rw [if_neg]
    simp only [List.all_eq_true, decide_eq_true_eq]
    intro hall
    exact (redact_word hne hword).mp (hall word hword) secret hmem h

/-- What the script's event must be like: no key and no word with a secret, and no text where the
redaction helps to spell one. -/
structure Scrubs (secrets : List String) (event : WorkflowEvent) : Prop where
  keys : Clean secrets (Proto.keys event.toJson)
  words : Clean secrets event.words
  texts : ∀ text ∈ Proto.texts event.toJson, ¬ Rejoined secrets text

/-- The event that `scrub` returns has no secret exactly if no key and no word had one and no
redaction helps to spell one. -/
theorem scrub_clean_iff (secrets : List String) (event : WorkflowEvent)
    (hlen : ∀ secret ∈ secrets, minSecret ≤ Text.len secret) :
    Clean secrets (strings (scrub secrets event)) ↔ Scrubs secrets event := by
  have hne : ∀ secret ∈ secrets, secret ≠ "" := by
    rintro secret hmem rfl
    exact absurd (hlen _ hmem) (by decide)
  by_cases hwords : Clean secrets event.words
  · rcases scrub_of_clean_words hwords with hscrub | rfl
    · have hjson := @WorkflowEvent.toJson_mapTexts (redact secrets) event
        fun word hword => redact_of_clean (hwords word hword)
      unfold strings
      rw [hscrub, hjson, texts_mapTexts, keys_mapTexts]
      constructor
      · intro hclean
        refine ⟨fun key hkey => hclean key (List.mem_append_right _ hkey), hwords, ?_⟩
        intro text htext
        rw [rejoined_iff hne]
        rintro ⟨secret, hmem, hcontains⟩
        exact hclean _ (List.mem_append_left _ (List.mem_map_of_mem htext)) secret hmem hcontains
      · intro hscrubs text htext secret hmem hcontains
        rcases List.mem_append.mp htext with htext | hkey
        · obtain ⟨before, hbefore, rfl⟩ := List.mem_map.mp htext
          exact hscrubs.texts before hbefore ((rejoined_iff hne).mpr ⟨secret, hmem, hcontains⟩)
        · exact hscrubs.keys text hkey secret hmem hcontains
    · constructor
      · intro _
        refine ⟨fun _ _ _ hmem => (nomatch hmem), hwords, ?_⟩
        rintro text - ⟨secret, hmem, -⟩
        cases hmem
      · intro _ text _ secret hmem
        cases hmem
  · refine ⟨fun hclean => ?_, fun hscrubs => absurd hscrubs.words hwords⟩
    unfold Clean at hwords
    push Not at hwords
    obtain ⟨word, hword, secret, hmem, hcontains⟩ := hwords
    rw [scrub_of_word hne hword hmem hcontains] at hclean
    have htext := WorkflowEvent.mem_texts_of_mem_words hword
    exact absurd hcontains (hclean word (List.mem_append_left _ htext) secret hmem)

end

/-! A secret in a message is redacted; one that is a key of a result is not, nor is one in a message
that the redaction completes. -/

def typedSecret : List String := ["hunter2"]

theorem scrub_clean_message :
    Clean typedSecret (strings (scrub typedSecret (.info "the password is hunter2"))) := by
  refine (scrub_clean_iff typedSecret _ (by decide)).mpr ⟨by decide, by decide, ?_⟩
  intro text _
  exact not_rejoined_of_apart (by decide) (by decide) text

theorem not_scrub_clean : ¬ ∀ (secrets : List String) (event : WorkflowEvent),
    (∀ secret ∈ secrets, minSecret ≤ Text.len secret) →
    (∀ secret ∈ secrets, ¬ Contains redacted secret) →
    Clean secrets (strings (scrub secrets event)) := by
  intro h
  have hclean := h typedSecret (.result (.object [("hunter2", .bool true)])) (by decide) (by decide)
  exact absurd hclean (by decide +kernel)

example : ¬ Clean ["ed]tail"] (strings (scrub ["ed]tail"] (.info "ed]tailtail"))) := by decide +kernel

end Bmac.Bmacd.Supervisor
