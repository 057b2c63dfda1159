import Bmac.Base.JsonValue

/-!
# Canonical JSON

`canonical_json` of `bmac-pmxcfs/src/json.rs`, the text that records are hashed over and stored as. It is
printable ASCII, and two values that differ in the order of keys have one text. The store reads it back as the
value as long as no 128 arrays and objects are within each other (`canonicalJson_faithful`).
-/

namespace Bmac.Pmxcfs

open Bmac.Base Bmac.Core

/-- `serde_json::Number`. -/
inductive Number (F : Type) where
  | posInt (n : UInt64)
  | negInt (n : Int64) (negative : n < 0)
  | float (f : F)

namespace Number

variable {F : Type}

def asI64 : Number F → Option Int64
  | posInt n => if n ≤ 9223372036854775807 then some n.toInt64 else none
  | negInt n _ => some n
  | float _ => none

def asU64 : Number F → Option UInt64
  | posInt n => some n
  | negInt _ _ => none
  | float _ => none

def IsInt : Number F → Prop
  | posInt _ => True
  | negInt _ _ => True
  | float _ => False

/-- The number that `serde_json` reads a text as. A float may be out of range. -/
def ofText (readFloat : List Char → Option F) (text : List Char) : Option (Number F) :=
  match text with
  | '-' :: digits =>
    if negative : digits.all Text.isDigit ∧ Text.decimal digits ≤ 9223372036854775808 ∧
        Int64.ofInt (-Text.decimal digits) < 0 then
      some (negInt (Int64.ofInt (-Text.decimal digits)) negative.2.2)
    else (readFloat text).map float
  | digits =>
    if digits.all Text.isDigit ∧ Text.decimal digits < 18446744073709551616 then
      some (posInt (UInt64.ofNat (Text.decimal digits)))
    else (readFloat text).map float

end Number

abbrev PyValue (F : Type) := JsonValue (Number F)

section

variable {F : Type} (pythonFloat : Number F → List Char)

/-- `pythonFloat` is `python_float` of a number's `as_f64`. -/
def writeNumber (number : Number F) : List Char :=
  match number.asI64 with
  | some i => Json.printInt i.toInt 0
  | none => match number.asU64 with
    | some u => Json.printInt u.toNat 0
    | none => pythonFloat number

/-- `char::encode_utf16`. -/
def encodeUtf16 (c : Char) : List Nat :=
  if c.toNat < 0x10000 then [c.toNat]
  else [0xd800 + (c.toNat - 0x10000) / 0x400, 0xdc00 + (c.toNat - 0x10000) % 0x400]

def escape (c : Char) : List Char :=
  match c with
  | '"' => ['\\', '"']
  | '\\' => ['\\', '\\']
  | '\n' => ['\\', 'n']
  | '\r' => ['\\', 'r']
  | '\t' => ['\\', 't']
  | '\x08' => ['\\', 'b']
  | '\x0c' => ['\\', 'f']
  | c => if ' ' ≤ c ∧ c ≤ '~' then [c] else (encodeUtf16 c).flatMap Json.unit

def writer : JsonValue.Writer (Number F) := ⟨writeNumber pythonFloat, escape⟩

def canonicalJson (value : PyValue F) : List Char := (writer pythonFloat).write value ++ ['\n']

end

/-- `serde_json::from_slice`, as the store reads a record: it goes into 127 arrays and objects. -/
def parseJson {F : Type} (readFloat : List Char → Option F) (text : List Char) : Option (PyValue F) :=
  (JsonValue.read (Number.ofText readFloat) 128 text).map JsonValue.kept

/-! ## Characters -/

/-- How a character may be written. -/
inductive Escaped : Char → List Char → Prop where
  | plain {c : Char} (h : ' ' ≤ c ∧ c ≤ '~') (hquote : c ≠ '"') (hslash : c ≠ '\\') : Escaped c [c]
  | letter {e : Char × Char} (h : e ∈ Json.escapes) : Escaped e.2 ['\\', e.1]
  | unit {c : Char} (h : c.toNat < 0x10000) : Escaped c (Json.unit c.toNat)
  /-- A surrogate pair. -/
  | pair {c : Char} {high low : Nat} (hhigh : 0xd800 ≤ high ∧ high < 0xdc00)
    (hlow : 0xdc00 ≤ low ∧ low < 0xe000)
    (h : c.toNat = 0x10000 + (high - 0xd800) * 0x400 + (low - 0xdc00)) :
    Escaped c (Json.unit high ++ Json.unit low)

theorem escape_eq (c : Char) : escape c = Json.escape c := by
  unfold escape
  split
  case h_8 hquote hslash hn hr ht hb hf =>
    have hnone : Json.escapes.find? (·.2 = c) = none := by
      refine List.find?_eq_none.mpr fun e he => ?_
      simp only [Json.escapes, List.mem_cons, List.not_mem_nil, or_false] at he
      rw [decide_eq_true_eq]
      rintro rfl
      rcases he with rfl | rfl | rfl | rfl | rfl | rfl | rfl
      · exact hquote rfl
      · exact hslash rfl
      · exact hn rfl
      · exact hr rfl
      · exact ht rfl
      · exact hb rfl
      · exact hf rfl
    unfold Json.escape encodeUtf16
    rw [hnone]
    dsimp only
    split
    · rfl
    · split
      · exact List.flatMap_singleton ..
      · simp only [List.flatMap_cons, List.flatMap_nil, List.append_nil]
  all_goals rfl

theorem escaped_escape (c : Char) : Escaped c (escape c) := by
  have hc := Json.char_bounds c
  unfold escape
  split
  case h_8 hquote hslash _ _ _ _ _ =>
    split
    · rename_i hplain
      exact .plain hplain hquote hslash
    · unfold encodeUtf16
      split
      · rename_i hsmall
        rw [List.flatMap_singleton]
        exact .unit hsmall
      · rename_i hlarge
        simp only [List.flatMap_cons, List.flatMap_nil, List.append_nil]
        exact .pair (by omega) (by omega) (by omega)
  · exact .letter (e := ('"', '"')) (by decide)
  · exact .letter (e := ('\\', '\\')) (by decide)
  · exact .letter (e := ('n', '\n')) (by decide)
  · exact .letter (e := ('r', '\r')) (by decide)
  · exact .letter (e := ('t', '\t')) (by decide)
  · exact .letter (e := ('b', '\x08')) (by decide)
  · exact .letter (e := ('f', '\x0c')) (by decide)

theorem printable_unit (n : Nat) : ∀ c ∈ Json.unit n, ' ' ≤ c ∧ c ≤ '~' := by
  have hdigits : ∀ k < 16, ' ' ≤ Text.hexDigit k ∧ Text.hexDigit k ≤ '~' := by decide
  intro c hc
  rw [Json.unit, Text.hex, String.toList_ofList] at hc
  rcases List.mem_cons.mp hc with rfl | hc
  · decide
  · rcases List.mem_cons.mp hc with rfl | hc
    · decide
    · obtain ⟨i, -, rfl⟩ := List.mem_map.mp hc
      exact hdigits _ (Nat.mod_lt _ (by omega))

theorem Escaped.printable {c : Char} {text : List Char} (h : Escaped c text) : ∀ d ∈ text, ' ' ≤ d ∧ d ≤ '~' := by
  cases h with
  | plain h => exact fun d hd => by rwa [List.mem_singleton.mp hd]
  | @letter e he =>
    have hletters : ∀ e ∈ Json.escapes, ∀ d ∈ ['\\', e.1], ' ' ≤ d ∧ d ≤ '~' := by decide
    exact hletters e he
  | unit h => exact printable_unit _
  | pair hhigh hlow h =>
    intro d hd
    rcases List.mem_append.mp hd with hd | hd
    · exact printable_unit _ d hd
    · exact printable_unit _ d hd

/-! ## Numbers -/

section

variable {F : Type} {pythonFloat : Number F → List Char} {readFloat : List Char → Option F}

theorem ofText_nat {n : Nat} (h : n < 18446744073709551616) :
    Number.ofText readFloat n.repr.toList = some (.posInt (UInt64.ofNat n)) := by
  have hdigits : n.repr.toList.all Text.isDigit = true :=
    List.all_eq_true.mpr fun c hc => Text.isDigit_of_mem_repr hc
  unfold Number.ofText
  split
  · rename_i heq
    have hminus := Json.repr_ne_minus n [] _ ((List.append_nil _).trans heq)
    exact hminus.elim
  · rw [Text.decimal_repr]
    exact if_pos ⟨hdigits, h⟩

theorem ofText_neg {i : Int64} (h : i < 0) :
    Number.ofText readFloat ('-' :: i.toInt.natAbs.repr.toList) = some (.negInt i h) := by
  have hdigits : i.toInt.natAbs.repr.toList.all Text.isDigit = true :=
    List.all_eq_true.mpr fun c hc => Text.isDigit_of_mem_repr hc
  have hneg : i.toInt < 0 := Int64.lt_iff_toInt_lt.mp h
  have hlow : -9223372036854775808 ≤ i.toInt := Int64.le_toInt i
  have habs : -(i.toInt.natAbs : Int) = i.toInt := by omega
  have hback : Int64.ofInt (-(i.toInt.natAbs : Int)) = i := by
    rw [habs]
    exact Int64.ofInt_toInt i
  have hcond : i.toInt.natAbs.repr.toList.all Text.isDigit ∧
      Text.decimal i.toInt.natAbs.repr.toList ≤ 9223372036854775808 ∧
      Int64.ofInt (-Text.decimal i.toInt.natAbs.repr.toList) < 0 := by
    rw [Text.decimal_repr]
    exact ⟨hdigits, by omega, by rwa [hback]⟩
  rw [Text.decimal_repr, hback] at hcond
  simp only [Number.ofText, Text.decimal_repr, hback]
  exact dif_pos hcond

theorem writeNumber_ofText {n : Number F} (h : n.IsInt) :
    ∃ k : Int, writeNumber pythonFloat n = Json.printInt k 0 ∧
      Number.ofText readFloat (Json.printInt k 0) = some n := by
  cases n with
  | posInt u =>
    have hprint : writeNumber pythonFloat (.posInt u) = Json.printInt u.toNat 0 := by
      unfold writeNumber Number.asI64
      by_cases hle : u ≤ 9223372036854775807
      · have hle' : u.toNat ≤ 9223372036854775807 := hle
        have hint : u.toInt64.toInt = u.toNat :=
          BitVec.toInt_eq_toNat_of_lt (show 2 * u.toNat < 2 ^ 64 by omega)
        simp only [if_pos hle, hint]
      · simp only [if_neg hle, Number.asU64]
    refine ⟨u.toNat, hprint, ?_⟩
    have htext : Json.printInt u.toNat 0 = u.toNat.repr.toList := by
      rw [Json.printInt, if_neg (by omega), Int.natAbs_natCast]
    rw [htext, ofText_nat u.toNat_lt, UInt64.ofNat_toNat]
  | negInt i negative =>
    have hneg : i.toInt < 0 := Int64.lt_iff_toInt_lt.mp negative
    refine ⟨i.toInt, rfl, ?_⟩
    have htext : Json.printInt i.toInt 0 = '-' :: i.toInt.natAbs.repr.toList := if_pos hneg
    rw [htext, ofText_neg negative]
  | float f => exact h.elim

theorem writer_readBy : (writer pythonFloat).ReadBy (Number.ofText readFloat) Number.IsInt where
  number n hn := writeNumber_ofText hn
  escape fuel c cs := by
    show Json.readString (fuel + 1) (escape c ++ cs) = _
    rw [escape_eq]
    exact Json.readString_escape fuel c cs
  escape_ne c := by
    show escape c ≠ []
    rw [escape_eq]
    exact Json.escape_ne_nil c

theorem isWs_newline : ∀ c ∈ ['\n'], Json.isWs c = true := by decide

variable {value : PyValue F}

theorem parseJson_canonicalJson (h : value.WellFormed Number.IsInt) (hdepth : value.depth < 128) :
    parseJson readFloat (canonicalJson pythonFloat value) = some value.sorted := by
  have hread := (@writer_readBy F pythonFloat readFloat).read_write h hdepth isWs_newline
  rw [parseJson, canonicalJson, hread, Option.map_some, JsonValue.kept_sorted h]

theorem parseJson_deep (h : value.WellFormed Number.IsInt) (hdepth : 128 ≤ value.depth) :
    parseJson readFloat (canonicalJson pythonFloat value) = none := by
  have hread := (@writer_readBy F pythonFloat readFloat).read_write_none h hdepth isWs_newline
  rw [parseJson, canonicalJson, hread, Option.map_none]

theorem printable_write (h : value.WellFormed Number.IsInt) :
    ∀ c ∈ (writer pythonFloat).write value, ' ' ≤ c ∧ c ≤ '~' := by
  have hdigits : ∀ c, Text.isDigit c = true → ' ' ≤ c ∧ c ≤ '~' := by
    intro c hc
    simp only [Text.isDigit, Bool.and_eq_true, decide_eq_true_eq] at hc
    exact ⟨Char.le_trans (show ' ' ≤ '0' by decide) hc.1, Char.le_trans hc.2 (show '9' ≤ '~' by decide)⟩
  refine JsonValue.Writer.forall_write (fun n hn c hc => ?_) (fun c d hd => ?_) (by decide) h
  · obtain ⟨k, htext, -⟩ := @writeNumber_ofText _ pythonFloat (fun _ => none) n hn
    rw [show (writer pythonFloat).number n = Json.printInt k 0 from htext, Json.printInt] at hc
    split at hc
    · rcases List.mem_cons.mp hc with rfl | hc
      · decide
      · exact hdigits c (Text.isDigit_of_mem_repr hc)
    · exact hdigits c (Text.isDigit_of_mem_repr hc)
  · exact (escaped_escape c).printable d hd

/-- Canonical JSON is printable ASCII, with every other character of a string escaped and those outside the
basic plane as surrogate pairs. It is read back as the value if and only if that isn't 128 deep, and is the same
whatever the order of keys. -/
theorem canonicalJson_faithful {F : Type} (pythonFloat : Number F → List Char) (readFloat : List Char → Option F)
    (value : PyValue F) (h : value.WellFormed Number.IsInt) :
    (∃ text, canonicalJson pythonFloat value = text ++ ['\n'] ∧ ∀ c ∈ text, ' ' ≤ c ∧ c ≤ '~') ∧
    (∀ s : String, ∃ parts, List.Forall₂ Escaped s.toList parts ∧
      canonicalJson pythonFloat (.string s) = '"' :: (parts.flatten ++ ['"', '\n'])) ∧
    (value.depth < 128 →
      ∃ read, parseJson readFloat (canonicalJson pythonFloat value) = some read ∧ value.Reordered read) ∧
    (128 ≤ value.depth → parseJson readFloat (canonicalJson pythonFloat value) = none) ∧
    ∀ other, value.Reordered other → canonicalJson pythonFloat other = canonicalJson pythonFloat value := by
  have hw := @writer_readBy F pythonFloat readFloat
  refine ⟨⟨(writer pythonFloat).write value, rfl, printable_write h⟩, fun s => ?_, fun hdepth => ?_,
    parseJson_deep h, fun other hother => ?_⟩
  · refine ⟨s.toList.map escape, ?_, ?_⟩
    · exact List.forall₂_map_right_iff.mpr (List.forall₂_same.mpr fun c _ => escaped_escape c)
    · show '"' :: (s.toList.flatMap escape ++ ['"']) ++ ['\n'] = _
      rw [List.flatMap_def, List.cons_append, List.append_assoc]
      rfl
  · exact ⟨value.sorted, parseJson_canonicalJson h hdepth, value.reordered_sorted⟩
  · rw [canonicalJson, canonicalJson, ((hw.write_eq_iff h (hother.write_eq (writer pythonFloat) h).1).mpr hother)]

/-- A musical clef and a control character under keys that are not in order. -/
def clefValue : PyValue Unit := .object [("b", .string "𝄞\x01"), ("a", .array [.number (.posInt 7), .null])]

theorem canonicalJson_faithful_clef :
    (∃ text, canonicalJson (fun _ => []) clefValue = text ++ ['\n'] ∧ ∀ c ∈ text, ' ' ≤ c ∧ c ≤ '~') ∧
    (∀ s : String, ∃ parts, List.Forall₂ Escaped s.toList parts ∧
      canonicalJson (fun _ : Number Unit => []) (.string s) = '"' :: (parts.flatten ++ ['"', '\n'])) ∧
    (∃ read, parseJson (fun _ => none) (canonicalJson (fun _ => []) clefValue) = some read ∧
      clefValue.Reordered read) ∧
    ∀ other, clefValue.Reordered other →
      canonicalJson (fun _ => []) other = canonicalJson (fun _ => []) clefValue := by
  have hformed : clefValue.WellFormed Number.IsInt := by
    refine .object (by decide) (List.forall_mem_cons.mpr ⟨.string _, List.forall_mem_singleton.mpr (.array ?_)⟩)
    exact List.forall_mem_cons.mpr ⟨.number trivial, List.forall_mem_singleton.mpr .null⟩
  obtain ⟨hascii, hstrings, hread, -, hsame⟩ :=
    canonicalJson_faithful (fun _ => []) (fun _ => none) clefValue hformed
  exact ⟨hascii, hstrings, hread (by decide), hsame⟩

def nestedValue {F : Type} : Nat → PyValue F
  | 0 => .null
  | n + 1 => .array [nestedValue n]

theorem wellFormed_nestedValue (n : Nat) : (nestedValue (F := F) n).WellFormed Number.IsInt := by
  induction n with
  | zero => exact .null
  | succ n ih => exact .array (List.forall_mem_singleton.mpr ih)

theorem depth_nestedValue (n : Nat) : (nestedValue (F := F) n).depth = n := by
  induction n with
  | zero => rfl
  | succ n ih => exact congrArg Nat.succ ((Nat.max_zero _).trans ih)

/-- 128 arrays are written and aren't read. -/
theorem nestedValue_not_read : ¬ ∃ (F : Type) (pythonFloat : Number F → List Char) (readFloat : List Char → Option F),
    ∀ value : PyValue F, value.WellFormed Number.IsInt →
      ∃ read, parseJson readFloat (canonicalJson pythonFloat value) = some read ∧ value.Reordered read := by
  rintro ⟨F, pythonFloat, readFloat, hall⟩
  have hformed := @wellFormed_nestedValue F 128
  obtain ⟨read, hread, -⟩ := hall (nestedValue 128) hformed
  rw [parseJson_deep hformed (depth_nestedValue 128).ge] at hread
  cases hread

end

end Bmac.Pmxcfs
