import Bmac.Bmacd.JobLocks
import Bmac.Bmacd.RegistryChecks

/-!
# A launch's arguments

What `prepare` makes of an operation that the registry took: its options, the flag of a dry run and its
positionals, in this order, and locks that an absent parameter only widens.
-/

namespace Bmac.Bmacd

open Bmac.Core

/-! ## What each parameter gives -/

/-- A parameter's value, if there is one and it isn't blank. -/
def present (values : Dict Value) (param : Param) : Option Value :=
  (values.get? param.id).filter (!isBlank ·)

/-- The text and the arguments that a parameter's value gives. -/
def valueOf (values : Dict Value) (param : Param) : Option (String × List String) :=
  match present values param with
  | none => none
  | some value =>
    match paramArguments param value with
    | .ok (some text, args) => some (text, args)
    | _ => none

def argumentsOf (values : Dict Value) (param : Param) : List String :=
  match valueOf values param with
  | some (_, args) => args
  | none => []

def optionsOf (values : Dict Value) (params : List Param) : List String :=
  params.flatMap fun param => if isPositional param then [] else argumentsOf values param

def positionalsOf (values : Dict Value) (params : List Param) : List String :=
  params.flatMap fun param => if isPositional param then argumentsOf values param else []

def addText (values : Dict Value) (summary : Dict String) (param : Param) : Dict String :=
  match valueOf values param with
  | some (text, _) => summary.insert param.id text
  | none => summary

/-- A choice that the launch gives after its parameter's flag. -/
def Chosen (values : Dict Value) (params : List Param) (text : String) : Prop :=
  ∃ param ∈ params, param.kind = .choice ∧ param.flag.isSome = true ∧
    ∃ value, present values param = some value ∧ scalarText value = some text

variable {text : String} {params : List Param}

section

variable {values : Dict Value} {param : Param} {value : Value} {g : Gathered} {args : List String}

/-- A value that isn't a flag's: its text, after its parameter's flag if it has one. -/
theorem paramArguments_eq_ok {text : Option String}
    (hkind : param.kind ≠ .flag ∧ param.kind ≠ .flagChoice)
    (h : paramArguments param value = .ok (text, args)) : ∃ given canonical,
      scalarText value = some given ∧ canonicalValue param given = .ok canonical ∧
      text = some canonical ∧ args = param.flag.toList ++ [canonical] := by
  unfold paramArguments at h
  split at h
  · exact absurd ‹_› hkind.1
  · exact absurd ‹_› hkind.2
  · split at h
    · cases h
    · rename_i given hgiven
      rw [Base.bind_eq_ok] at h
      obtain ⟨canonical, hcanonical, h⟩ := h
      refine ⟨given, canonical, hgiven, hcanonical, ?_⟩
      split at h
      · rename_i flag hflag
        cases Base.pure_eq_ok.mp h
        rw [hflag]
        exact ⟨rfl, rfl⟩
      · rename_i hflag
        cases Base.pure_eq_ok.mp h
        rw [hflag]
        exact ⟨rfl, rfl⟩

theorem kind_of_isPositional (h : isPositional param = true) :
    param.flag = none ∧ param.kind ≠ .flag ∧ param.kind ≠ .flagChoice := by
  unfold isPositional at h
  simpa [Option.isNone_iff_eq_none, and_assoc] using h

theorem gather_none (hpresent : present values param = none) : gather values g param =
    if param.required then { g with fieldErrors := g.fieldErrors.insert param.id "required" }
    else g := by
  unfold gather
  rw [show (values.get? param.id).filter (!isBlank ·) = none from hpresent]

theorem gather_some (hpresent : present values param = some value) : gather values g param =
    match paramArguments param value with
    | .error why => { g with fieldErrors := g.fieldErrors.insert param.id why }
    | .ok (none, _) => g
    | .ok (some text, args) =>
      if isPositional param && Text.startsWith '-' text then
        { g with fieldErrors := g.fieldErrors.insert param.id "may not start with '-'" }
      else if isPositional param then
        { g with positional := g.positional ++ args, summary := g.summary.insert param.id text }
      else { g with options := g.options ++ args, summary := g.summary.insert param.id text } := by
  unfold gather
  generalize hfound : (values.get? param.id).filter (!isBlank ·) = found
  obtain rfl : found = some value := hfound.symm.trans hpresent
  rfl

/-- What a pass of `prepare` that leaves no error adds. -/
structure Added (values : Dict Value) (param : Param) (g g' : Gathered) : Prop where
  errors : g.fieldErrors = []
  options : g'.options = g.options ++ if isPositional param then [] else argumentsOf values param
  positional :
    g'.positional = g.positional ++ if isPositional param then argumentsOf values param else []
  summary : g'.summary = addText values g.summary param
  noDash : isPositional param = true →
    ∀ arg ∈ argumentsOf values param, Text.startsWith '-' arg = false
  taken : ∀ value, present values param = some value →
    ∃ result, paramArguments param value = .ok result

theorem Added.of_none (hvalue : valueOf values param = none) (herrors : g.fieldErrors = [])
    (htaken : ∀ value, present values param = some value →
      ∃ result, paramArguments param value = .ok result) : Added values param g g := by
  have hargs : argumentsOf values param = [] := by rw [argumentsOf, hvalue]
  refine ⟨herrors, ?_, ?_, ?_, ?_, htaken⟩
  · rw [hargs, ite_self, List.append_nil]
  · rw [hargs, ite_self, List.append_nil]
  · rw [addText, hvalue]
  · intro _ arg harg
    rw [hargs] at harg
    cases harg

/-- One pass of `prepare`. -/
theorem added_gather (h : (gather values g param).fieldErrors = []) :
    Added values param g (gather values g param) := by
  cases hpresent : present values param with
  | none =>
    rw [gather_none hpresent] at h ⊢
    split at h
    · exact absurd h (Dict.insert_ne_nil _ _ _)
    · rename_i hrequired
      rw [if_neg hrequired]
      refine .of_none (by rw [valueOf, hpresent]) h fun value hvalue => ?_
      rw [hpresent] at hvalue
      cases hvalue
  | some value =>
    have htaken (result) (hresult : paramArguments param value = .ok result) :
        ∀ value', present values param = some value' →
          ∃ result, paramArguments param value' = .ok result := by
      intro value' hvalue'
      obtain rfl := Option.some.inj (hpresent.symm.trans hvalue')
      exact ⟨result, hresult⟩
    rw [gather_some hpresent] at h ⊢
    cases hresult : paramArguments param value with
    | error why =>
      rw [hresult] at h
      exact absurd h (Dict.insert_ne_nil _ _ _)
    | ok result =>
      obtain ⟨text, args⟩ := result
      rw [hresult] at h
      cases text with
      | none =>
        exact .of_none (by rw [valueOf, hpresent]; dsimp only; rw [hresult]) h (htaken _ hresult)
      | some text =>
        have hvalue : valueOf values param = some (text, args) := by
          rw [valueOf, hpresent]
          dsimp only
          rw [hresult]
        have hargs : argumentsOf values param = args := by rw [argumentsOf, hvalue]
        have htext : addText values g.summary param = g.summary.insert param.id text := by
          rw [addText, hvalue]
        dsimp only at h ⊢
        split at h
        · exact absurd h (Dict.insert_ne_nil _ _ _)
        · rename_i hdash
          rw [if_neg hdash]
          cases hpos : isPositional param with
          | true =>
            rw [hpos, Bool.true_and, Bool.not_eq_true] at hdash
            obtain ⟨hflag, hkind⟩ := kind_of_isPositional hpos
            obtain ⟨given, canonical, -, -, hcanonical, hlist⟩ := paramArguments_eq_ok hkind hresult
            cases hcanonical
            refine ⟨?_, ?_, ?_, htext.symm, ?_, htaken _ hresult⟩
            · rwa [hpos, if_pos rfl] at h
            · simp [hpos]
            · simp [hpos, hargs]
            · intro _ arg harg
              rw [hargs, hlist, hflag] at harg
              rw [List.mem_singleton.mp harg]
              exact hdash
          | false =>
            refine ⟨?_, ?_, ?_, htext.symm, ?_, htaken _ hresult⟩
            · rwa [hpos, if_neg Bool.false_ne_true] at h
            · simp [hpos, hargs]
            · simp [hpos]
            · intro htrue
              rw [hpos] at htrue
              cases htrue

/-- What all the passes add. -/
structure AddedAll (values : Dict Value) (params : List Param) (g g' : Gathered) : Prop where
  errors : g.fieldErrors = []
  options : g'.options = g.options ++ optionsOf values params
  positional : g'.positional = g.positional ++ positionalsOf values params
  summary : g'.summary = params.foldl (addText values) g.summary
  noDash : ∀ param ∈ params, isPositional param = true →
    ∀ arg ∈ argumentsOf values param, Text.startsWith '-' arg = false
  taken : ∀ param ∈ params, ∀ value, present values param = some value →
    ∃ result, paramArguments param value = .ok result

theorem added_foldl (h : (params.foldl (gather values) g).fieldErrors = []) :
    AddedAll values params g (params.foldl (gather values) g) := by
  induction params generalizing g with
  | nil =>
    exact ⟨h, (List.append_nil _).symm, (List.append_nil _).symm, rfl, fun _ hmem => (nomatch hmem),
      fun _ hmem => nomatch hmem⟩
  | cons param rest ih =>
    have hrest := ih h
    have hfirst := added_gather hrest.errors
    refine ⟨hfirst.errors, ?_, ?_, ?_, ?_, ?_⟩
    · rw [List.foldl_cons, hrest.options, hfirst.options, List.append_assoc]
      rfl
    · rw [List.foldl_cons, hrest.positional, hfirst.positional, List.append_assoc]
      rfl
    · rw [List.foldl_cons, hrest.summary, hfirst.summary, List.foldl_cons]
    · intro other hmem
      rcases List.mem_cons.mp hmem with rfl | hmem
      · exact hfirst.noDash
      · exact hrest.noDash other hmem
    · intro other hmem
      rcases List.mem_cons.mp hmem with rfl | hmem
      · exact hfirst.taken
      · exact hrest.taken other hmem

/-! ## Launches -/

/-- What a prepared launch has. -/
structure Launched (operation : Operation) (values : Dict Value) (dryRun : Bool) (prepared : Prepared) :
    Prop where
  args : prepared.args = optionsOf values operation.params ++
    (if dryRun && operation.kind = .script then [dryRunFlag] else []) ++
    positionalsOf values operation.params
  summary : prepared.summary = operation.params.foldl (addText values) []
  locks : prepared.locks = operation.locks.map (resolveLock · prepared.summary)
  noDash : ∀ param ∈ operation.params, isPositional param = true →
    ∀ arg ∈ argumentsOf values param, Text.startsWith '-' arg = false
  taken : ∀ param ∈ operation.params, ∀ value, present values param = some value →
    ∃ result, paramArguments param value = .ok result

theorem prepare_eq_ok {operation : Operation} {dryRun : Bool} {prepared : Prepared}
    (h : prepare operation values dryRun = .ok prepared) :
    Launched operation values dryRun prepared := by
  unfold prepare at h
  dsimp only at h
  split at h
  · cases h
  · split at h
    · cases h
    · rename_i herrors
      rw [Bool.not_eq_true, Bool.not_eq_false', List.isEmpty_iff] at herrors
      have hall := added_foldl herrors
      cases h
      exact ⟨by rw [hall.options, hall.positional]; rfl, hall.summary, rfl, hall.noDash, hall.taken⟩

/-! ## Reserved arguments -/

theorem startsWith_append {c : Char} {a b : String} (h : a.toList ≠ []) :
    Text.startsWith c (a ++ b) = Text.startsWith c a := by
  unfold Text.startsWith
  rw [String.toList_append, List.head?_append_of_ne_nil _ h]

theorem host_noDash (host : HostSlot) : Text.startsWith '-' host.text = false := by
  rw [show host.text = "mox" ++ toString host.number from rfl, startsWith_append (by decide)]
  decide

theorem guest_noDash (guest : GuestName) : Text.startsWith '-' guest.text = false := by
  cases guest with
  | production n =>
    rw [show (GuestName.production n).text = "prod" ++ toString n from rfl,
      startsWith_append (by decide)]
    decide
  | staging n source =>
    rw [show (GuestName.staging n source).text = "stage" ++ toString n ++ "prod" ++ toString source
        from rfl,
      String.append_assoc, String.append_assoc, startsWith_append (by decide)]
    decide

theorem integer_noDash (h : isInteger text = true) : Text.startsWith '-' text = false := by
  refine Bool.eq_false_iff.mpr fun hdash => ?_
  unfold isInteger at h
  rw [Bool.and_eq_true, Bool.and_eq_true] at h
  have hdigits := List.all_eq_true.mp h.1.2
  obtain ⟨cs, hcs⟩ := List.head?_eq_some_iff.mp (beq_iff_eq.mp hdash)
  have hdigit := hdigits '-' (by rw [hcs]; exact List.mem_cons_self)
  exact absurd hdigit (by decide)

theorem toLower_eq_dash {c : Char} (h : c.toLower = '-') : c = '-' := by
  unfold Char.toLower at h
  split at h
  · rename_i hupper
    exfalso
    have hlow : 65 ≤ c.toNat := UInt32.le_iff_toNat_le.mp hupper.1
    have hhigh : c.toNat ≤ 90 := UInt32.le_iff_toNat_le.mp hupper.2
    have hval := congrArg UInt32.toNat (congrArg Char.val h)
    simp [UInt32.toNat_add] at hval
    omega
  · exact h

theorem hostname_noDash (h : isHostname text = true) :
    Text.startsWith '-' (Text.toLower text) = false := by
  refine Bool.eq_false_iff.mpr fun hdash => ?_
  unfold isHostname at h
  rw [Bool.and_eq_true] at h
  have hlabels := List.all_eq_true.mp h.2
  obtain ⟨cs, hcs⟩ := List.head?_eq_some_iff.mp (beq_iff_eq.mp hdash)
  unfold Text.toLower at hcs
  rw [String.toList_map] at hcs
  obtain ⟨c, rest, htext, hc, -⟩ := List.map_eq_cons_iff.mp hcs
  obtain rfl := toLower_eq_dash hc
  -- The first label would start with the dash.
  have hsplit : Text.split '.' text =
      ((rest.splitOn '.').modifyHead (List.cons '-')).map String.ofList := by
    unfold Text.split
    rw [htext, List.splitOn_cons_eq_if_modifyHead, if_neg (by decide)]
  cases hrest : rest.splitOn '.' with
  | nil => exact List.splitOn_ne_nil '.' rest hrest
  | cons label labels =>
    rw [hsplit, hrest] at hlabels
    have hfirst := hlabels (String.ofList ('-' :: label)) (by simp)
    simp [Text.startsWith] at hfirst

theorem found_eq_ok {x : Option String} {why : String}
    (h : (match x with
      | some text => (.ok text : Except String String)
      | none => .error why) = .ok text) : x = some text := by
  cases x with
  | none => cases h
  | some text => cases h; rfl

theorem canonicalValue_noDash {canonical : String} (hkind : param.kind ≠ .choice)
    (h : canonicalValue param text = .ok canonical) : Text.startsWith '-' canonical = false := by
  unfold canonicalValue at h
  split at h
  · exact absurd ‹_› hkind
  · obtain ⟨host, -, rfl⟩ := Option.map_eq_some_iff.mp (found_eq_ok h)
    exact host_noDash host
  · obtain ⟨guest, -, rfl⟩ := Option.map_eq_some_iff.mp (found_eq_ok h)
    exact guest_noDash guest
  · obtain ⟨guest, -, rfl⟩ := Option.map_eq_some_iff.mp (found_eq_ok h)
    exact guest_noDash guest
  · obtain ⟨guest, -, rfl⟩ := Option.map_eq_some_iff.mp (found_eq_ok h)
    exact guest_noDash guest
  · have hinteger := found_eq_ok h
    split at hinteger
    · cases hinteger
      exact integer_noDash ‹_›
    · cases hinteger
  · have hhost := found_eq_ok h
    split at hhost
    · cases hhost
      exact hostname_noDash ‹_›
    · cases hhost
  · cases h
  · cases h

theorem reserved_dash (h : text ∈ reservedFlags) : Text.startsWith '-' text = true := by
  have hall : ∀ text ∈ reservedFlags, Text.startsWith '-' text = true := by decide
  exact hall text h

theorem valueOf_eq_some (h : valueOf values param = some (text, args)) :
    ∃ value, present values param = some value ∧ paramArguments param value = .ok (some text, args) := by
  unfold valueOf at h
  split at h
  · cases h
  · rename_i value hvalue
    split at h
    · cases h
      exact ⟨value, hvalue, ‹_›⟩
    · cases h

theorem canonicalValue_choice {given canonical : String} (hkind : param.kind = .choice)
    (h : canonicalValue param given = .ok canonical) : canonical = given := by
  unfold canonicalValue at h
  rw [hkind] at h
  dsimp only at h
  cases hchoice : (param.choices.find? (·.value = given)).map (·.value) with
  | none =>
    rw [hchoice] at h
    cases h
  | some value =>
    rw [hchoice] at h
    cases h
    obtain ⟨choice, hfound, rfl⟩ := Option.map_eq_some_iff.mp hchoice
    have hvalue := List.find?_some hfound
    exact of_decide_eq_true hvalue

theorem mem_flags {arg : String} (hkind : param.kind = .flag ∨ param.kind = .flagChoice)
    (h : paramArguments param value = .ok (some text, args)) (harg : arg ∈ args) :
    arg ∈ param.flag ∨ ∃ choice ∈ param.choices, arg ∈ choice.flag := by
  unfold paramArguments at h
  split at h
  · left
    split at h
    · rename_i on
      rw [Except.ok.injEq, Prod.mk.injEq] at h
      obtain ⟨-, rfl⟩ := h
      cases hflag : param.flag with
      | none =>
        rw [hflag] at harg
        cases harg
      | some flag =>
        rw [hflag] at harg
        cases on with
        | false => cases harg
        | true =>
          rw [List.mem_singleton.mp harg]
          rfl
    · cases h
  · right
    split at h
    · split at h
      · rename_i choice hchoice
        cases h
        exact ⟨choice, List.mem_of_find?_eq_some hchoice, Option.mem_toList.mp harg⟩
      · cases h
    · cases h
  · rename_i hflag hchoice
    exact absurd hkind (not_or.mpr ⟨hflag, hchoice⟩)

theorem chosen_of_reserved (hmem : param ∈ params) (hflag : Unreserved param.flag)
    (hchoices : ∀ choice ∈ param.choices, Unreserved choice.flag)
    (hpositional : isPositional param = false) (hreserved : text ∈ reservedFlags)
    (h : text ∈ argumentsOf values param) : Chosen values params text := by
  unfold argumentsOf at h
  split at h
  · rename_i shown args hvalueOf
    obtain ⟨value, hpresent, hargs⟩ := valueOf_eq_some hvalueOf
    by_cases hkind : param.kind = .flag ∨ param.kind = .flagChoice
    · rcases mem_flags hkind hargs h with hmemflag | ⟨choice, hchoice, hmemflag⟩
      · exact absurd hreserved (hflag text hmemflag)
      · exact absurd hreserved (hchoices choice hchoice text hmemflag)
    · rw [not_or] at hkind
      obtain ⟨given, canonical, hgiven, hcanonical, -, rfl⟩ := paramArguments_eq_ok hkind hargs
      rcases List.mem_append.mp h with hmemflag | hlast
      · exact absurd hreserved (hflag text (Option.mem_toList.mp hmemflag))
      · obtain rfl := List.mem_singleton.mp hlast
        have hchoice : param.kind = .choice := by
          by_contra hother
          have hdash := canonicalValue_noDash hother hcanonical
          rw [reserved_dash hreserved] at hdash
          cases hdash
        have hsome : param.flag.isSome = true := by
          cases hnone : param.flag with
          | some flag => rfl
          | none =>
            unfold isPositional at hpositional
            rw [hnone, hchoice] at hpositional
            cases hpositional
        obtain rfl := canonicalValue_choice hchoice hcanonical
        exact ⟨param, hmem, hchoice, hsome, value, hpresent, hgiven⟩
  · cases h

theorem mem_optionsOf_of_chosen
    (htaken : ∀ param ∈ params, ∀ value, present values param = some value →
      ∃ result, paramArguments param value = .ok result)
    (h : Chosen values params text) : text ∈ optionsOf values params := by
  obtain ⟨param, hmem, hchoice, hflag, value, hpresent, hgiven⟩ := h
  obtain ⟨⟨shown, args⟩, hargs⟩ := htaken param hmem value hpresent
  have hkind : param.kind ≠ .flag ∧ param.kind ≠ .flagChoice := by
    rw [hchoice]
    decide
  obtain ⟨given, canonical, hgiven', hcanonical, rfl, rfl⟩ := paramArguments_eq_ok hkind hargs
  obtain rfl := Option.some.inj (hgiven.symm.trans hgiven')
  obtain rfl := canonicalValue_choice hchoice hcanonical
  have hpositional : isPositional param = false := by
    unfold isPositional
    rw [Option.isNone_eq_false_iff.mpr hflag]
    rfl
  refine List.mem_flatMap.mpr ⟨param, hmem, ?_⟩
  rw [hpositional, if_neg Bool.false_ne_true, argumentsOf, valueOf, hpresent]
  dsimp only
  rw [hargs]
  simp

/-! ## Locks -/

/-- Two summaries agree but for a parameter that the first leaves out. -/
structure Widened (id : String) (summary summary' : Dict String) : Prop where
  absent : summary.get? id = none
  same : ∀ key, key ≠ id → summary'.get? key = summary.get? key

variable {summary summary' : Dict String} {id : String}

theorem lockName_isPrefix (h : Widened id summary summary') (parts : List LockPart) :
    lockName summary parts <+: lockName summary' parts := by
  induction parts with
  | nil => exact List.prefix_rfl
  | cons part rest ih =>
    cases part with
    | literal text => exact List.cons_prefix_cons.mpr ⟨rfl, ih⟩
    | param key optional =>
      by_cases hkey : key = id
      · rw [hkey, lockName, h.absent]
        exact List.nil_prefix
      · rw [lockName, lockName, h.same key hkey]
        cases summary.get? key with
        | none => exact List.prefix_rfl
        | some value => exact List.cons_prefix_cons.mpr ⟨rfl, ih⟩

theorem toList_join (parts : List String) :
    (Text.join ":" parts).toList = [':'].intercalate (parts.map String.toList) := by
  unfold Text.join
  rw [String.toList_intercalate]
  rfl

/-- A name whose parts begin another's covers it. -/
theorem locksConflict_join {short long : List String} (hne : short ≠ []) (h : short <+: long) :
    locksConflict (Text.join ":" short) (Text.join ":" long) = true := by
  obtain ⟨rest, rfl⟩ := h
  rw [locksConflict_iff]
  refine .inl (split_isPrefix_iff.mpr ?_)
  by_cases hrest : rest = []
  · rw [hrest, List.append_nil]
    exact .inl rfl
  · refine .inr ⟨(Text.join ":" rest).toList, ?_⟩
    rw [toList_join, toList_join, toList_join, List.map_append,
      Base.intercalate_append (by simpa using hne) (by simpa using hrest), List.append_assoc]
    rfl

theorem resolveLock_conflict {template cls : String} {rest : List LockPart}
    (hparts : lockParts template = some (.literal cls :: rest)) (h : Widened id summary summary') :
    locksConflict (resolveLock template summary) (resolveLock template summary') = true := by
  unfold resolveLock
  rw [hparts, Option.getD_some]
  exact locksConflict_join (List.cons_ne_nil _ _) (lockName_isPrefix h _)

theorem widened_addText {values' : Dict Value}
    (habsent : (values.get? id).filter (!isBlank ·) = none)
    (hsame : ∀ key, key ≠ id → values'.get? key = values.get? key)
    (h : Widened id summary summary') :
    Widened id (addText values summary param) (addText values' summary' param) := by
  by_cases hid : param.id = id
  · have hnone : valueOf values param = none := by
      rw [valueOf, present, hid, habsent]
    refine ⟨?_, fun key hkey => ?_⟩
    · rw [addText, hnone]
      exact h.absent
    · rw [addText, addText, hnone]
      cases valueOf values' param with
      | none => exact h.same key hkey
      | some given => exact (Dict.get?_insert_of_ne _ _ (hid ▸ hkey)).trans (h.same key hkey)
  · have hvalue : valueOf values' param = valueOf values param := by
      rw [valueOf, valueOf, present, present, hsame param.id hid]
    unfold addText
    rw [hvalue]
    cases valueOf values param with
    | none => exact h
    | some given =>
      refine ⟨(Dict.get?_insert_of_ne _ _ (Ne.symm hid)).trans h.absent, fun key hkey => ?_⟩
      by_cases hparam : key = param.id
      · rw [hparam, Dict.get?_insert, Dict.get?_insert]
      · rw [Dict.get?_insert_of_ne _ _ hparam, Dict.get?_insert_of_ne _ _ hparam]
        exact h.same key hkey

theorem widened_foldl {values' : Dict Value} (habsent : (values.get? id).filter (!isBlank ·) = none)
    (hsame : ∀ key, key ≠ id → values'.get? key = values.get? key) (h : Widened id summary summary') :
    Widened id (params.foldl (addText values) summary) (params.foldl (addText values') summary') := by
  induction params generalizing summary summary' with
  | nil => exact h
  | cons param rest ih => exact ih (widened_addText habsent hsame h)

end

/-! ## Launches of the registry's operations -/

/-- What holds of a prepared launch: its arguments in their order, what the reserved flags come from, and
locks that only widen when the value of `id` is left out. -/
structure Sound (operation : Operation) (values : Dict Value) (dryRun : Bool) (prepared : Prepared) :
    Prop where
  args : prepared.args = optionsOf values operation.params ++
    (if dryRun && operation.kind = .script then [dryRunFlag] else []) ++
    positionalsOf values operation.params
  noDash : ∀ arg ∈ positionalsOf values operation.params, Text.startsWith '-' arg = false
  dryRun : dryRunFlag ∈ prepared.args ↔
    (dryRun = true ∧ operation.kind = .script) ∨ Chosen values operation.params dryRunFlag
  json : "--json" ∈ prepared.args ↔ Chosen values operation.params "--json"
  locks : ∀ id values' dryRun' prepared', (values.get? id).filter (!isBlank ·) = none →
    (∀ key, key ≠ id → values'.get? key = values.get? key) →
    prepare operation values' dryRun' = .ok prepared' →
    List.Forall₂ (fun lock lock' => locksConflict lock lock' = true) prepared.locks prepared'.locks

theorem mem_positionalsOf {values : Dict Value} {arg : String}
    (h : arg ∈ positionalsOf values params) :
    ∃ param ∈ params, isPositional param = true ∧ arg ∈ argumentsOf values param := by
  obtain ⟨param, hmem, harg⟩ := List.mem_flatMap.mp h
  split at harg
  · exact ⟨param, hmem, ‹_›, harg⟩
  · cases harg

theorem mem_args_iff {decl : OperationDecl} {values : Dict Value} {dryRun : Bool} {prepared : Prepared}
    (hchecked : decl.Checked)
    (hlaunched : Launched decl.operation values dryRun prepared) (hreserved : text ∈ reservedFlags) :
    text ∈ prepared.args ↔
      text ∈ (if dryRun && decl.operation.kind = .script then [dryRunFlag] else []) ∨
        Chosen values decl.operation.params text := by
  rw [hlaunched.args, List.mem_append, List.mem_append]
  constructor
  · rintro ((hoption | hdry) | hpositional)
    · obtain ⟨param, hmem, harg⟩ := List.mem_flatMap.mp hoption
      obtain ⟨declared, hdeclared, rfl⟩ := List.mem_map.mp hmem
      obtain ⟨hflag, hchoices⟩ := hchecked.flags declared hdeclared
      split at harg
      · cases harg
      · rename_i hpos
        rw [Bool.not_eq_true] at hpos
        exact .inr (chosen_of_reserved hmem hflag hchoices hpos hreserved harg)
    · exact .inl hdry
    · obtain ⟨param, hmem, hpos, harg⟩ := mem_positionalsOf hpositional
      have hdash := hlaunched.noDash param hmem hpos text harg
      rw [reserved_dash hreserved] at hdash
      cases hdash
  · rintro (hdry | hchosen)
    · exact .inl (.inr hdry)
    · exact .inl (.inl (mem_optionsOf_of_chosen hlaunched.taken hchosen))

/-- The launches of an operation that the registry took are sound. -/
theorem launch_sound (decls : List OperationDecl) (registry : Registry) (decl : OperationDecl)
    (values : Dict Value) (dryRun : Bool) (prepared : Prepared)
    (hnew : Registry.new decls = .ok registry) (hdecl : decl ∈ decls)
    (hprepared : prepare decl.operation values dryRun = .ok prepared) :
    Sound decl.operation values dryRun prepared := by
  have hchecked := checked_of_new hnew hdecl
  have hlaunched := prepare_eq_ok hprepared
  refine ⟨hlaunched.args, ?_, ?_, ?_, ?_⟩
  · intro arg harg
    obtain ⟨param, hmem, hpos, harg⟩ := mem_positionalsOf harg
    exact hlaunched.noDash param hmem hpos arg harg
  · rw [mem_args_iff hchecked hlaunched (by decide)]
    refine or_congr_left ?_
    by_cases hasked : dryRun = true ∧ decl.operation.kind = .script
    · simp [hasked]
    · simp [hasked]
  · rw [mem_args_iff hchecked hlaunched (by decide)]
    refine or_iff_right ?_
    split <;> decide
  · intro id values' dryRun' prepared' habsent hsame hprepared'
    have hlaunched' := prepare_eq_ok hprepared'
    have hwidened : Widened id prepared.summary prepared'.summary := by
      rw [hlaunched.summary, hlaunched'.summary]
      exact widened_foldl habsent hsame ⟨rfl, fun _ _ => rfl⟩
    rw [hlaunched.locks, hlaunched'.locks, List.forall₂_map_left_iff, List.forall₂_map_right_iff,
      List.forall₂_same]
    intro template htemplate
    obtain ⟨cls, rest, hparts⟩ := hchecked.locks template htemplate
    exact resolveLock_conflict hparts hwidened

/-! A script operation with a choice that looks like a reserved flag. -/

def resourceParam : ParamDecl where
  id := "resource"
  label := "VM"
  kind := .production
  flag := none
  required := true
  choices := []
  default := none
  suggest := none

def hostParam : ParamDecl where
  id := "host"
  label := "Host"
  kind := .host
  flag := some "--host"
  required := false
  choices := []
  default := none
  suggest := none

def formatParam : ParamDecl where
  id := "format"
  label := "Format"
  kind := .choice
  flag := some "--format"
  required := false
  choices := [⟨"text", none⟩, ⟨"--json", none⟩]
  default := none
  suggest := none

def exampleDecl : OperationDecl where
  id := "prod.example"
  title := "Example"
  summary := "s"
  description := "d"
  kind := .script
  script := some "scripts/example.sh"
  minRole := .operator
  mutating := true
  destructive := false
  supportsDryRun := true
  params := [resourceParam, hostParam, formatParam]
  locks := ["production:\x7bresource\x7d", "host:\x7bhost?\x7d"]
  target := .owner "resource"
  cancel := .script
  resume := .never

theorem new_example : Registry.new [exampleDecl] = .ok ⟨[exampleDecl.operation]⟩ := by rfl

def exampleValues (format : String) : Dict Value :=
  [("format", .string format), ("resource", .string "prod3")]

def examplePrepared (format : String) (dryRun : List String) : Prepared where
  args := ["--format", format] ++ dryRun ++ ["prod3"]
  summary := [("format", format), ("resource", "prod3")]
  locks := ["production:prod3", "host"]
  dryRun := !dryRun.isEmpty

theorem prepare_text : prepare exampleDecl.operation (exampleValues "text") true =
    .ok (examplePrepared "text" ["--dry-run"]) := by rfl

theorem prepare_json : prepare exampleDecl.operation (exampleValues "--json") false =
    .ok (examplePrepared "--json" []) := by rfl

theorem launch_sound_example :
    Sound exampleDecl.operation (exampleValues "text") true (examplePrepared "text" ["--dry-run"]) :=
  launch_sound [exampleDecl] ⟨[exampleDecl.operation]⟩ exampleDecl _ true _ new_example (by simp)
    prepare_text

theorem not_unreserved : ¬ ∀ (decls : List OperationDecl) (registry : Registry) (decl : OperationDecl)
    (values : Dict Value) (dryRun : Bool) (prepared : Prepared),
    Registry.new decls = .ok registry → decl ∈ decls →
    prepare decl.operation values dryRun = .ok prepared →
    (dryRunFlag ∈ prepared.args ↔ dryRun = true ∧ decl.kind = .script) ∧ "--json" ∉ prepared.args := by
  intro h
  have hnone := h [exampleDecl] _ exampleDecl (exampleValues "--json") false _ new_example (by simp)
    prepare_json
  exact hnone.2 (by decide)

end Bmac.Bmacd
