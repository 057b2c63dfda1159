import Bmac.Core.Text

/-!
# JSON

`json.dumps` and `json.loads` of Python on lists of characters. A value is printed by a function of
its level of indentation (`Printed`), and `readValue` reads a text up to the end of a value; what was
printed is read (`Reads`). A string with half of a surrogate pair isn't read.
-/

namespace Bmac.Base

open Bmac.Core

inductive Json where
  | null
  | bool (value : Bool)
  /-- A number is kept as its text. -/
  | number (text : List Char)
  | string (text : List Char)
  | array (items : List Json)
  | object (members : List (List Char × Json))

namespace Json

def isWs (c : Char) : Bool := c = ' ' || c = '\t' || c = '\n' || c = '\r'

def skip (cs : List Char) : List Char := cs.dropWhile isWs

/-! ## Strings -/

/-- The characters that are written with a letter after a backslash. -/
def escapes : List (Char × Char) :=
  [('"', '"'), ('\\', '\\'), ('n', '\n'), ('r', '\r'), ('t', '\t'), ('b', '\x08'), ('f', '\x0c')]

/-- `\uXXXX`. -/
def unit (n : Nat) : List Char := '\\' :: 'u' :: (Text.hex 4 n).toList

/-- A character with `ensure_ascii`. -/
def escape (c : Char) : List Char :=
  match escapes.find? (·.2 = c) with
  | some e => ['\\', e.1]
  | none =>
    if ' ' ≤ c ∧ c ≤ '~' then [c]
    else if c.toNat < 0x10000 then unit c.toNat
    else unit (0xd800 + (c.toNat - 0x10000) / 0x400) ++ unit (0xdc00 + (c.toNat - 0x10000) % 0x400)

def hexValue (c : Char) : Option Nat :=
  if '0' ≤ c ∧ c ≤ '9' then some (c.toNat - 48)
  else if 'a' ≤ c ∧ c ≤ 'f' then some (c.toNat - 87)
  else if 'A' ≤ c ∧ c ≤ 'F' then some (c.toNat - 55)
  else none

def readUnit : List Char → Option (Nat × List Char)
  | a :: b :: c :: d :: rest => do
    return ((((← hexValue a) * 16 + (← hexValue b)) * 16 + (← hexValue c)) * 16 + (← hexValue d), rest)
  | _ => none

def readEscape : List Char → Option (Char × List Char)
  | [] => none
  | 'u' :: cs => do
    let (n, cs) ← readUnit cs
    if 0xd800 ≤ n ∧ n ≤ 0xdbff then
      let cs ← ['\\', 'u'].isPrefixOf? cs
      let (m, cs) ← readUnit cs
      if 0xdc00 ≤ m ∧ m ≤ 0xdfff then
        return (Char.ofNat (0x10000 + (n - 0xd800) * 0x400 + (m - 0xdc00)), cs)
      else none
    else if 0xdc00 ≤ n ∧ n ≤ 0xdfff then none
    else return (Char.ofNat n, cs)
  | c :: cs => (((('/', '/') :: escapes).find? (·.1 = c)).map (·.2)).map fun e => (e, cs)

/-- The text of a string after its first quote, and what comes after its last one. -/
def readString : Nat → List Char → Option (List Char × List Char)
  | 0, _ => none
  | _, [] => none
  | fuel + 1, c :: cs =>
    if c = '"' then some ([], cs)
    else if c = '\\' then do
      let (e, cs) ← readEscape cs
      let (text, rest) ← readString fuel cs
      return (e :: text, rest)
    else if c.toNat < 0x20 then none
    else do
      let (text, rest) ← readString fuel cs
      return (c :: text, rest)

/-! ## Numbers -/

def readInt : List Char → Option (List Char × List Char)
  | '0' :: cs => some (['0'], cs)
  | cs =>
    if cs.takeWhile Text.isDigit = [] then none
    else some (cs.takeWhile Text.isDigit, cs.dropWhile Text.isDigit)

def readFraction : List Char → List Char × List Char
  | '.' :: cs =>
    if cs.takeWhile Text.isDigit = [] then ([], '.' :: cs)
    else ('.' :: cs.takeWhile Text.isDigit, cs.dropWhile Text.isDigit)
  | cs => ([], cs)

def readSign : List Char → List Char × List Char
  | '-' :: cs => (['-'], cs)
  | '+' :: cs => (['+'], cs)
  | cs => ([], cs)

def readExponent : List Char → List Char × List Char
  | [] => ([], [])
  | e :: cs =>
    let (sign, rest) := readSign cs
    if (e = 'e' ∨ e = 'E') ∧ rest.takeWhile Text.isDigit ≠ [] then
      (e :: sign ++ rest.takeWhile Text.isDigit, rest.dropWhile Text.isDigit)
    else ([], e :: cs)

/-- `NUMBER_RE`. -/
def readNumber (cs : List Char) : Option (List Char × List Char) := do
  let (sign, cs) := match cs with
    | '-' :: cs => (['-'], cs)
    | cs => ([], cs)
  let (int, cs) ← readInt cs
  let (fraction, cs) := readFraction cs
  let (exponent, cs) := readExponent cs
  return (sign ++ int ++ fraction ++ exponent, cs)

/-! ## Values -/

def literals : List (List Char × Json) :=
  [("null".toList, .null), ("true".toList, .bool true), ("false".toList, .bool false),
    ("NaN".toList, .number "NaN".toList), ("Infinity".toList, .number "Infinity".toList),
    ("-Infinity".toList, .number "-Infinity".toList)]

def readLiteral (cs : List Char) : Option (Json × List Char) :=
  literals.findSome? fun e => (e.1.isPrefixOf? cs).map fun rest => (e.2, rest)

section

variable {V : Type} (value : List Char → Option (V × List Char))

def readMembers : Nat → List Char → Option (List (List Char × V) × List Char)
  | 0, _ => none
  | fuel + 1, cs =>
    match cs with
    | '"' :: cs => do
      let (key, cs) ← readString (cs.length + 1) cs
      match skip cs with
      | ':' :: cs =>
        let (v, cs) ← value (skip cs)
        match skip cs with
        | ',' :: cs =>
          let (members, rest) ← readMembers fuel (skip cs)
          return ((key, v) :: members, rest)
        | '}' :: rest => return ([(key, v)], rest)
        | _ => none
      | _ => none
    | _ => none

def readItems : Nat → List Char → Option (List V × List Char)
  | 0, _ => none
  | fuel + 1, cs => do
    let (v, cs) ← value cs
    match skip cs with
    | ',' :: cs =>
      let (items, rest) ← readItems fuel (skip cs)
      return (v :: items, rest)
    | ']' :: rest => return ([v], rest)
    | _ => none

end

/-- What an `object_pairs_hook` makes of an object's members, if it doesn't refuse them. -/
abbrev Hook := List (List Char × Json) → Option Json

/-- The value that a text begins with, and the rest of the text. -/
def readValue (hook : Hook) : Nat → List Char → Option (Json × List Char)
  | 0, _ => none
  | fuel + 1, cs =>
    match cs with
    | '"' :: cs => (readString (cs.length + 1) cs).map fun (text, rest) => (.string text, rest)
    | '{' :: cs =>
      match skip cs with
      | '}' :: rest => (hook []).map fun v => (v, rest)
      | cs => do
        let (members, rest) ← readMembers (readValue hook fuel) cs.length cs
        return (← hook members, rest)
    | '[' :: cs =>
      match skip cs with
      | ']' :: rest => some (.array [], rest)
      | cs => (readItems (readValue hook fuel) cs.length cs).map fun (items, rest) =>
        (.array items, rest)
    | cs =>
      match readLiteral cs with
      | some found => some found
      | none => (readNumber cs).map fun (text, rest) => (.number text, rest)

/-- `json.loads`. -/
def loads (hook : Hook) (text : List Char) : Option Json :=
  match readValue hook (text.length + 1) (skip text) with
  | some (v, rest) => if skip rest = [] then some v else none
  | none => none

/-! ## Printing -/

/-- The text of a value at a level of indentation. -/
abbrev Printed := Nat → List Char

/-- What `json.dumps` puts before an item and after a colon: blanks. -/
structure Layout where
  newline : Nat → List Char
  space : List Char
  blankNewline : ∀ level, ∀ c ∈ newline level, isWs c = true
  blankSpace : ∀ c ∈ space, isWs c = true

/-- `separators=(",", ":")`. -/
def compact : Layout := ⟨fun _ => [], [], by simp, by simp⟩

/-- `indent`. -/
def indented (width : Nat) : Layout where
  newline level := '\n' :: List.replicate (width * level) ' '
  space := [' ']
  blankNewline level c hc := by
    rcases List.mem_cons.mp hc with rfl | hc
    · rfl
    · rw [List.eq_of_mem_replicate hc]
      rfl
  blankSpace c hc := by
    rw [List.mem_singleton.mp hc]
    rfl

def printString (s : List Char) : Printed := fun _ => '"' :: (s.flatMap escape ++ ['"'])

def printInt (n : Int) : Printed := fun _ =>
  if n < 0 then '-' :: n.natAbs.repr.toList else n.natAbs.repr.toList

section

variable (layout : Layout)

/-- Some items between two brackets. -/
def printItems (first last : Char) (items : List Printed) : Printed := fun level =>
  if items = [] then [first, last]
  else
    first :: (layout.newline (level + 1) ++
      (',' :: layout.newline (level + 1)).intercalate (items.map (· (level + 1))) ++
      layout.newline level ++ [last])

def printArray (items : List Printed) : Printed := printItems layout '[' ']' items

def printMember (key : List Char) (value : Printed) : Printed := fun level =>
  printString key level ++ ':' :: (layout.space ++ value level)

def printObject (members : List (List Char × Printed)) : Printed :=
  printItems layout '{' '}' (members.map fun (key, value) => printMember layout key value)

end

/-! ## What is printed is read -/

theorem skip_append {ws cs : List Char} (h : ∀ c ∈ ws, isWs c = true) : skip (ws ++ cs) = skip cs := by
  induction ws with
  | nil => rfl
  | cons c ws ih =>
    rw [List.cons_append, skip, List.dropWhile_cons_of_pos (h c List.mem_cons_self)]
    exact ih fun d hd => h d (List.mem_cons_of_mem c hd)

variable {c : Char} {rest : List Char}

theorem skip_cons {cs : List Char} (h : isWs c = false) : skip (c :: cs) = c :: cs :=
  List.dropWhile_cons_of_neg (by simp [h])

theorem hexValue_hexDigit : ∀ n < 16, hexValue (Text.hexDigit n) = some n := by decide

theorem readUnit_hex {n : Nat} (h : n < 0x10000) (cs : List Char) :
    readUnit ((Text.hex 4 n).toList ++ cs) = some (n, cs) := by
  have hdigits : (Text.hex 4 n).toList = [Text.hexDigit (n / 16 ^ 3 % 16),
      Text.hexDigit (n / 16 ^ 2 % 16), Text.hexDigit (n / 16 ^ 1 % 16),
      Text.hexDigit (n / 16 ^ 0 % 16)] := by
    rw [Text.hex, String.toList_ofList]
    rfl
  have hd (k : Nat) : hexValue (Text.hexDigit (k % 16)) = some (k % 16) :=
    hexValue_hexDigit _ (Nat.mod_lt _ (by omega))
  simp only [hdigits, List.cons_append, List.nil_append, readUnit, hd, Option.bind_eq_bind,
    Option.bind_some, Option.pure_def, Option.some.injEq, Prod.mk.injEq, and_true]
  omega

theorem readEscape_letter {e : Char × Char} (he : e ∈ escapes) (cs : List Char) :
    readEscape (e.1 :: cs) = some (e.2, cs) := by
  simp only [escapes, List.mem_cons, List.not_mem_nil, or_false] at he
  rcases he with rfl | rfl | rfl | rfl | rfl | rfl | rfl <;> rfl

theorem char_bounds (c : Char) : c.toNat < 0xd800 ∨ 0xdfff < c.toNat ∧ c.toNat < 0x110000 := c.valid

theorem readEscape_unit (h : c.toNat < 0x10000) (cs : List Char) :
    readEscape ('u' :: ((Text.hex 4 c.toNat).toList ++ cs)) = some (c, cs) := by
  have hc := char_bounds c
  simp only [readEscape, readUnit_hex h, Option.bind_eq_bind, Option.bind_some, Option.pure_def]
  rw [if_neg (by omega), if_neg (by omega), Char.ofNat_toNat]

theorem readEscape_pair (h : 0x10000 ≤ c.toNat) (cs : List Char) :
    readEscape ('u' :: ((Text.hex 4 (0xd800 + (c.toNat - 0x10000) / 0x400)).toList ++
      (unit (0xdc00 + (c.toNat - 0x10000) % 0x400) ++ cs))) = some (c, cs) := by
  have hc := char_bounds c
  obtain ⟨high, hhigh⟩ : ∃ high, high = 0xd800 + (c.toNat - 0x10000) / 0x400 := ⟨_, rfl⟩
  obtain ⟨low, hlow⟩ : ∃ low, low = 0xdc00 + (c.toNat - 0x10000) % 0x400 := ⟨_, rfl⟩
  rw [← hhigh, ← hlow]
  have hn : 0x10000 + (high - 0xd800) * 0x400 + (low - 0xdc00) = c.toNat := by omega
  have hnext (t : List Char) : ['\\', 'u'].isPrefixOf? ('\\' :: 'u' :: t) = some t := rfl
  simp only [readEscape, unit, List.cons_append, readUnit_hex (show high < 0x10000 by omega),
    Option.bind_eq_bind, Option.bind_some, Option.pure_def, hnext,
    readUnit_hex (show low < 0x10000 by omega), hn, Char.ofNat_toNat]
  rw [if_pos (by omega), if_pos (by omega)]

theorem readString_escape (fuel : Nat) (c : Char) (cs : List Char) :
    readString (fuel + 1) (escape c ++ cs) =
      (readString fuel cs).map fun (text, rest) => (c :: text, rest) := by
  have hescaped (t : List Char) (h : readEscape t = some (c, cs)) :
      readString (fuel + 1) ('\\' :: t) =
        (readString fuel cs).map fun (text, rest) => (c :: text, rest) := by
    rw [readString, if_neg (by decide), if_pos rfl, h]
    simp only [Option.bind_eq_bind, Option.bind_some]
    cases readString fuel cs <;> rfl
  unfold escape
  cases hfind : escapes.find? (·.2 = c) with
  | some e =>
    have hc : e.2 = c := by simpa using List.find?_some hfind
    refine hescaped _ ?_
    rw [← hc]
    exact readEscape_letter (List.mem_of_find?_eq_some hfind) cs
  | none =>
    have hplain (d : Char) (hd : d ∈ escapes.map (·.2)) : c ≠ d := by
      rintro rfl
      obtain ⟨e, he, rfl⟩ := List.mem_map.mp hd
      simpa using List.find?_eq_none.mp hfind e he
    dsimp only
    split
    · rename_i hprint
      have hlow : ¬c.toNat < 0x20 := fun h => absurd (show 0x20 ≤ c.toNat from hprint.1) (by omega)
      rw [List.singleton_append, readString, if_neg (hplain _ (by decide)),
        if_neg (hplain _ (by decide)), if_neg hlow]
      cases readString fuel cs <;> rfl
    · split
      · rename_i hsmall
        rw [unit, List.cons_append, List.cons_append]
        exact hescaped _ (readEscape_unit hsmall cs)
      · rename_i hlarge
        have hpair := readEscape_pair (not_lt.mp hlarge) cs
        rw [List.append_assoc, unit, List.cons_append, List.cons_append]
        exact hescaped _ hpair

theorem readString_escaped (s rest : List Char) {fuel : Nat} (h : s.length < fuel) :
    readString fuel (s.flatMap escape ++ '"' :: rest) = some (s, rest) := by
  induction s generalizing fuel with
  | nil =>
    obtain ⟨fuel, rfl⟩ := Nat.exists_eq_add_of_lt h
    rw [List.flatMap_nil, List.nil_append, readString, if_pos rfl]
  | cons c s ih =>
    obtain ⟨fuel, rfl⟩ := Nat.exists_eq_add_of_lt h
    rw [List.flatMap_cons, List.append_assoc, readString_escape, ih (by simp; omega)]
    rfl

/-- A text that no number goes on with. -/
def Stops (rest : List Char) : Prop :=
  ∀ c cs, rest = c :: cs → Text.isDigit c = false ∧ c ≠ '.' ∧ c ≠ 'e' ∧ c ≠ 'E'

theorem stops_of_ws {ws : List Char} (hws : ∀ d ∈ ws, isWs d = true)
    (hc : c = ',' ∨ c = '}') (rest : List Char) : Stops (ws ++ c :: rest) := by
  intro d ds hd
  cases ws with
  | nil =>
    obtain rfl := (List.cons.inj hd).1
    rcases hc with rfl | rfl <;> decide
  | cons w ws =>
    obtain rfl := (List.cons.inj hd).1
    have hw := hws w List.mem_cons_self
    simp only [isWs, Bool.or_eq_true, decide_eq_true_eq] at hw
    rcases hw with ((rfl | rfl) | rfl) | rfl <;> decide

theorem stops_cons {c : Char} (hc : c = ',' ∨ c = ']' ∨ c = '}' ∨ c = '\n') (rest : List Char) :
    Stops (c :: rest) := by
  intro d ds hd
  obtain rfl := (List.cons.inj hd).1
  rcases hc with rfl | rfl | rfl | rfl <;> decide

theorem readInt_repr (n : Nat) (h : Stops rest) :
    readInt (n.repr.toList ++ rest) = some (n.repr.toList, rest) := by
  have hall : ∀ c ∈ n.repr.toList, Text.isDigit c = true := fun _ => Text.isDigit_of_mem_repr
  have htake : (n.repr.toList ++ rest).takeWhile Text.isDigit = n.repr.toList := by
    rw [List.takeWhile_append_of_pos hall]
    cases rest with
    | nil => simp
    | cons c cs => simp [(h c cs rfl).1]
  have hdrop : (n.repr.toList ++ rest).dropWhile Text.isDigit = rest := by
    rw [List.dropWhile_append_of_pos hall]
    cases rest with
    | nil => rfl
    | cons c cs => simp [(h c cs rfl).1]
  by_cases hn : n = 0
  · subst hn
    rfl
  · unfold readInt
    split
    · rename_i cs hcs
      have hhead := Text.head_repr hn
      rw [← @List.head?_append_of_ne_nil _ _ rest (Text.repr_ne_nil n), hcs] at hhead
      exact absurd rfl hhead
    · rw [htake, hdrop, if_neg (Text.repr_ne_nil n)]

theorem readFraction_stops (h : Stops rest) : readFraction rest = ([], rest) := by
  unfold readFraction
  split
  · exact absurd rfl (h _ _ rfl).2.1
  · rfl

theorem readExponent_stops (h : Stops rest) : readExponent rest = ([], rest) := by
  unfold readExponent
  split
  · rfl
  · rename_i e cs
    obtain ⟨-, -, he, hE⟩ := h e cs rfl
    simp [he, hE]

theorem repr_ne_minus (n : Nat) (rest cs : List Char) : n.repr.toList ++ rest ≠ '-' :: cs := by
  intro heq
  obtain ⟨c, ds, hds⟩ := List.exists_cons_of_ne_nil (Text.repr_ne_nil n)
  rw [hds] at heq
  obtain rfl := (List.cons.inj heq).1
  exact absurd (Text.isDigit_of_mem_repr (hds ▸ List.mem_cons_self)) (by decide)

theorem readNumber_repr (n : Nat) (h : Stops rest) :
    readNumber (n.repr.toList ++ rest) = some (n.repr.toList, rest) := by
  unfold readNumber
  split
  rename_i heq
  split at heq
  · rename_i heq'
    exact absurd heq' (repr_ne_minus n rest _)
  · cases heq
    simp only [readInt_repr n h, readFraction_stops h, readExponent_stops h, Option.bind_eq_bind,
      Option.bind_some, Option.pure_def, List.nil_append, List.append_nil]

theorem readNumber_neg (n : Nat) (h : Stops rest) :
    readNumber ('-' :: (n.repr.toList ++ rest)) = some ('-' :: n.repr.toList, rest) := by
  simp only [readNumber, readInt_repr n h, readFraction_stops h, readExponent_stops h,
    Option.bind_eq_bind, Option.bind_some, Option.pure_def, List.append_nil, List.cons_append,
    List.nil_append]

/-- What is printed is read as a value, with this many levels. -/
structure Reads (hook : Hook) (depth : Nat) (p : Printed) (v : Json) : Prop where
  head : ∀ level, ∃ c cs, p level = c :: cs ∧ isWs c = false
  reads : ∀ level fuel rest, depth ≤ fuel → Stops rest →
    readValue hook fuel (p level ++ rest) = some (v, rest)

variable {v : Json} {p : Printed}

section

variable {hook : Hook} {depth : Nat} {layout : Layout}

theorem escape_ne_nil (c : Char) : escape c ≠ [] := by
  unfold escape unit
  split
  · exact List.cons_ne_nil _ _
  · split
    · exact List.cons_ne_nil _ _
    · split <;> exact List.cons_ne_nil _ _

theorem length_le_escaped (s : List Char) : s.length ≤ (s.flatMap escape).length := by
  induction s with
  | nil => exact Nat.le_refl _
  | cons c s ih =>
    have hc := List.length_pos_iff.mpr (escape_ne_nil c)
    rw [List.flatMap_cons, List.length_append, List.length_cons]
    omega

theorem readString_text (s rest : List Char) :
    readString ((s.flatMap escape ++ '"' :: rest).length + 1) (s.flatMap escape ++ '"' :: rest) =
      some (s, rest) := by
  refine readString_escaped s rest ?_
  have hlen := length_le_escaped s
  rw [List.length_append]
  omega

theorem reads_string (s : List Char) : Reads hook 1 (printString s) (.string s) where
  head _ := ⟨'"', _, rfl, rfl⟩
  reads level fuel rest hfuel _ := by
    obtain ⟨fuel, rfl⟩ := Nat.exists_eq_add_of_le' hfuel
    simp only [printString, List.cons_append, List.append_assoc, List.nil_append, readValue,
      readString_text, Option.map_some]

theorem readLiteral_digit (h : Text.isDigit c = true) (cs : List Char) :
    readLiteral (c :: cs) = none := by
  have hne (d : Char) (hd : Text.isDigit d = false) : d ≠ c := by
    rintro rfl
    rw [h] at hd
    cases hd
  simp [readLiteral, literals, List.isPrefixOf?, hne 'n' rfl, hne 't' rfl, hne 'f' rfl, hne 'N' rfl,
    hne 'I' rfl, hne '-' rfl]

theorem reads_nat (n : Nat) : Reads hook 1 (printInt n) (.number n.repr.toList) := by
  have hprint (level : Nat) : printInt n level = n.repr.toList := by
    rw [printInt, if_neg (by omega), Int.natAbs_natCast]
  obtain ⟨c, cs, hcs⟩ := List.exists_cons_of_ne_nil (Text.repr_ne_nil n)
  have hdigit : Text.isDigit c = true := Text.isDigit_of_mem_repr (hcs ▸ List.mem_cons_self)
  have hne (d : Char) (hd : Text.isDigit d = false) : c ≠ d := by
    rintro rfl
    rw [hdigit] at hd
    cases hd
  constructor
  case head =>
    intro level
    refine ⟨c, cs, (hprint level).trans hcs, ?_⟩
    simp [isWs, hne ' ' rfl, hne '\t' rfl, hne '\n' rfl, hne '\r' rfl]
  case reads =>
    intro level fuel rest hfuel hrest
    obtain ⟨fuel, rfl⟩ := Nat.exists_eq_add_of_le' hfuel
    have hnumber := readNumber_repr n hrest
    rw [hprint]
    rw [hcs, List.cons_append] at hnumber ⊢
    unfold readValue
    split
    · rename_i heq
      exact absurd (List.cons.inj heq).1 (hne '"' rfl)
    · rename_i heq
      exact absurd (List.cons.inj heq).1 (hne '{' rfl)
    · rename_i heq
      exact absurd (List.cons.inj heq).1 (hne '[' rfl)
    · rw [readLiteral_digit hdigit, hnumber]
      rfl

theorem readMembers_member {key : List Char} (h : Reads hook depth p v)
    {level fuel n : Nat} (hfuel : depth ≤ fuel) (hrest : Stops rest) :
    readMembers (readValue hook fuel) (n + 1) (printMember layout key p level ++ rest) =
      match skip rest with
      | ',' :: cs =>
        (readMembers (readValue hook fuel) n (skip cs)).map fun (members, rest) =>
          ((key, v) :: members, rest)
      | '}' :: rest => some ([(key, v)], rest)
      | _ => none := by
  have hcolon (cs : List Char) : skip (':' :: cs) = ':' :: cs := skip_cons rfl
  have hvalue : skip (layout.space ++ (p level ++ rest)) = p level ++ rest := by
    obtain ⟨c, cs, hc, hws⟩ := h.head level
    rw [skip_append layout.blankSpace, hc]
    exact skip_cons hws
  simp only [printMember, printString, List.cons_append, List.append_assoc, List.nil_append,
    readMembers, readString_text, Option.bind_eq_bind, Option.bind_some, hcolon, hvalue,
    h.reads level fuel rest hfuel hrest]
  split
  · cases readMembers (readValue hook fuel) n (skip _) <;> rfl
  · rfl
  · rfl

def ReadMembers (hook : Hook) (depth : Nat) : List (List Char × Printed) →
    List (List Char × Json) → Prop :=
  List.Forall₂ fun m v => m.1 = v.1 ∧ Reads hook depth m.2 v.2

theorem members_head {ms : List (List Char × Printed)} (hne : ms ≠ []) (sep : List Char)
    (level : Nat) :
    ∃ cs, sep.intercalate (ms.map fun m => printMember layout m.1 m.2 level) = '"' :: cs := by
  obtain ⟨m, ms, rfl⟩ := List.exists_cons_of_ne_nil hne
  by_cases hms : ms = []
  · subst hms
    exact ⟨_, rfl⟩
  · rw [List.map_cons, List.intercalate_cons_of_ne_nil (by simpa using hms), List.append_assoc]
    exact ⟨_, rfl⟩

theorem length_le_intercalate {sep : List Char} {xs : List (List Char)} (h : ∀ x ∈ xs, x ≠ []) :
    xs.length ≤ (sep.intercalate xs).length := by
  induction xs with
  | nil => exact Nat.zero_le _
  | cons x xs ih =>
    have hx := List.length_pos_iff.mpr (h x List.mem_cons_self)
    have hxs := ih fun y hy => h y (List.mem_cons_of_mem x hy)
    by_cases hnil : xs = []
    · subst hnil
      rw [List.intercalate_singleton]
      exact hx
    · rw [List.intercalate_cons_of_ne_nil hnil, List.length_append, List.length_append,
        List.length_cons]
      omega

theorem readMembers_members (layout : Layout) {ms : List (List Char × Printed)}
    {vs : List (List Char × Json)} (h : ReadMembers hook depth ms vs) (hne : ms ≠ [])
    (level outer : Nat) {fuel n : Nat} (hfuel : depth ≤ fuel) (hn : ms.length ≤ n)
    (rest : List Char) :
    readMembers (readValue hook fuel) n
      ((',' :: layout.newline level).intercalate
          (ms.map fun m => printMember layout m.1 m.2 level) ++
        (layout.newline outer ++ '}' :: rest)) = some (vs, rest) := by
  have hclose : skip (layout.newline outer ++ '}' :: rest) = '}' :: rest := by
    rw [skip_append (layout.blankNewline outer), skip_cons rfl]
  induction h generalizing n with
  | nil => exact absurd rfl hne
  | @cons m v ms vs hm hms ih =>
    obtain ⟨n, rfl⟩ := Nat.exists_eq_add_of_le' (show 1 ≤ n by rw [List.length_cons] at hn; omega)
    obtain ⟨hkey, hreads⟩ := hm
    by_cases hlast : ms = []
    · subst hlast
      cases hms
      have hstops := stops_of_ws (layout.blankNewline outer) (.inr rfl) rest
      rw [List.map_singleton, List.intercalate_singleton, readMembers_member hreads hfuel hstops,
        hclose, hkey]
      rfl
    · have hmap : ms.map (fun m => printMember layout m.1 m.2 level) ≠ [] := by simpa using hlast
      obtain ⟨cs, hcs⟩ := @members_head layout ms hlast (',' :: layout.newline level) level
      have hnext : skip (layout.newline level ++ ('"' :: cs ++ (layout.newline outer ++ '}' :: rest))) =
          '"' :: cs ++ (layout.newline outer ++ '}' :: rest) := by
        rw [skip_append (layout.blankNewline level), List.cons_append, skip_cons rfl]
      have hstops (cs : List Char) : Stops (',' :: cs) :=
        stops_of_ws (List.forall_mem_nil _) (.inl rfl) cs
      have hih := ih hlast (n := n) (by rw [List.length_cons] at hn; omega)
      rw [hcs] at hih
      rw [List.map_cons, List.intercalate_cons_of_ne_nil hmap, hcs]
      simp only [List.append_assoc, List.cons_append] at hnext hih ⊢
      rw [readMembers_member hreads hfuel (hstops _), skip_cons rfl]
      simp only [hnext, hih, Option.map_some, hkey]

theorem reads_object {ms : List (List Char × Printed)} {vs : List (List Char × Json)}
    (h : ReadMembers hook depth ms vs) (hhook : hook vs = some v) :
    Reads hook (depth + 1) (printObject layout ms) v where
  head level := by
    unfold printObject printItems
    split
    · exact ⟨'{', _, rfl, rfl⟩
    · exact ⟨'{', _, rfl, rfl⟩
  reads level fuel rest hfuel _ := by
    obtain ⟨fuel, rfl⟩ := Nat.exists_eq_add_of_le' (show 1 ≤ fuel by omega)
    by_cases hne : ms = []
    · subst hne
      cases h
      simp [printObject, printItems, readValue, skip_cons, isWs, hhook]
    · obtain ⟨cs, hcs⟩ := @members_head layout ms hne (',' :: layout.newline (level + 1)) (level + 1)
      have hprint : printObject layout ms level = '{' :: (layout.newline (level + 1) ++
          (',' :: layout.newline (level + 1)).intercalate
            (ms.map fun m => printMember layout m.1 m.2 (level + 1)) ++
          layout.newline level ++ ['}']) := by
        rw [printObject, printItems, if_neg (by simpa using hne), List.map_map]
        rfl
      have hskip : skip (layout.newline (level + 1) ++
          '"' :: (cs ++ (layout.newline level ++ '}' :: rest))) =
            '"' :: (cs ++ (layout.newline level ++ '}' :: rest)) := by
        rw [skip_append (layout.blankNewline _), skip_cons rfl]
      have hlen : ms.length ≤ ('"' :: (cs ++ (layout.newline level ++ '}' :: rest))).length := by
        have hmembers := @length_le_intercalate (',' :: layout.newline (level + 1))
          (ms.map fun m => printMember layout m.1 m.2 (level + 1)) fun x hx => by
            obtain ⟨m, -, rfl⟩ := List.mem_map.mp hx
            exact List.cons_ne_nil _ _
        rw [hcs, List.length_map, List.length_cons] at hmembers
        rw [List.length_cons, List.length_append]
        omega
      have hread := readMembers_members layout h hne (level + 1) level
        (show depth ≤ fuel by omega) hlen rest
      rw [hcs] at hread
      rw [hprint, hcs]
      simp only [List.append_assoc, List.cons_append, List.nil_append] at hread ⊢
      rw [readValue, hskip]
      split
      · rename_i heq
        cases heq
      · simp only [hread, Option.bind_eq_bind, Option.bind_some, hhook, Option.pure_def]

end

theorem Reads.mono {hook : Hook} {depth depth' : Nat}
    (h : Reads hook depth p v) (hle : depth ≤ depth') : Reads hook depth' p v :=
  ⟨h.head, fun level fuel rest hfuel => h.reads level fuel rest (hle.trans hfuel)⟩

theorem readMembers_strings (hook : Hook) (entries : List (List Char × List Char)) :
    ReadMembers hook 1 (entries.map fun e => (e.1, printString e.2))
      (entries.map fun e => (e.1, .string e.2)) := by
  induction entries with
  | nil => exact .nil
  | cons e entries ih => exact .cons ⟨rfl, reads_string e.2⟩ ih

theorem two_le_length_object (layout : Layout) (ms : List (List Char × Printed)) (level : Nat) :
    2 ≤ (printObject layout ms level).length := by
  unfold printObject printItems
  split
  · exact Nat.le_refl 2
  · rw [List.length_cons, List.length_append, List.length_singleton]
    omega

/-- `json.loads` of `json.dumps`, with a newline at its end. -/
theorem loads_print {hook : Hook} {depth : Nat} (h : Reads hook depth p v)
    (hdepth : depth ≤ (p 0).length + 1) : loads hook (p 0 ++ ['\n']) = some v := by
  obtain ⟨c, cs, hc, hws⟩ := h.head 0
  have hskip : skip (p 0 ++ ['\n']) = p 0 ++ ['\n'] := by
    rw [hc]
    exact skip_cons hws
  have hstops : Stops ['\n'] := by
    intro d ds hd
    obtain rfl := (List.cons.inj hd).1
    decide
  have hread := h.reads 0 ((p 0 ++ ['\n']).length + 1) ['\n'] (by
    rw [List.length_append]
    omega) hstops
  rw [loads, hskip, hread]
  rfl

end Json

end Bmac.Base
