import Bmac.Base.Bytes
import Bmac.Base.Checked
import Bmac.Base.Checks
import Bmac.Base.Lines
import Bmac.Core.Dict

/-!
# ZFS label lists

`decode_nvlist` and `encode_nvlist` of `bmac-inventory/src/zfs.rs`: the pairs of a packed XDR list. A
`usize` has 64 bits; a sum that leaves it and a slice outside its bytes stop the program with
`panicked`, and the `None` of the source is `refused`.
-/

namespace Bmac.Inventory

open Bmac.Base Bmac.Base.Bytes Bmac.Core

inductive NvValue where
  | u64 (n : UInt64)
  | str (s : String)
  | list (pairs : List (String × NvValue))
  | lists (lists : List (List (String × NvValue)))

/-- How reading ends without a value. `unfinished` is a loop that went all rounds it may. -/
inductive Stop where
  | refused
  | panicked
  | unfinished

abbrev Decode (α : Type) := Except Stop α

def xdr : UInt8 := 1

def uint64Type : Int := 8

def stringType : Int := 9

def nvlistType : Int := 19

def nvlistArrayType : Int := 20

/-! ## Decoding -/

/-- A sum in `usize`. -/
def plus (a b : Nat) : Decode Nat := ofOption (Checked.fits 64 (a + b)) .panicked

/-- `checked_add` and its `?`. -/
def checkedPlus (a b : Nat) : Decode Nat := ofOption (Checked.fits 64 (a + b)) .refused

/-- `get` of a range and its `?`. -/
def get (buf : List UInt8) (start stop : Nat) : Decode (List UInt8) := ofOption (slice buf start stop) .refused

/-- `&buf[start..stop]`. -/
def index (buf : List UInt8) (start stop : Nat) : Decode (List UInt8) := ofOption (slice buf start stop) .panicked

def beI32 (buf : List UInt8) (pos : Nat) : Decode Int := do
  let stop ← plus pos 4
  let bytes ← get buf pos stop
  return signed 32 (number bytes)

def xdrString (buf : List UInt8) (pos : Nat) : Decode (String × Nat) := do
  let len ← beI32 buf pos
  if len < 0 then throw .refused
  let start ← plus pos 4
  let stop ← checkedPlus start len.toNat
  let bytes ← get buf start stop
  let text ← ofOption (Lines.decodeUtf8 bytes) .refused
  let padded ← ofOption (Checked.fits 64 ((len.toNat ⌈/⌉ 4) * 4)) .panicked
  return (String.ofList text, ← plus start padded)

def pairValue (pair : List UInt8) (kind count : Int) (pos : Nat) : Decode (Option NvValue) :=
  if kind = uint64Type ∧ count = 1 then do
    let bytes ← get pair pos (← plus pos 8)
    return some (.u64 (UInt64.ofNat (number bytes)))
  else if kind = stringType ∧ count = 1 then do
    let (value, _) ← xdrString pair pos
    return some (.str value)
  else return none

def readPair (pair : List UInt8) : Decode (String × Option NvValue) := do
  let (name, pos) ← xdrString pair 8
  let kind ← beI32 pair pos
  let count ← beI32 pair (← plus pos 4)
  return (name, ← pairValue pair kind count (← plus pos 8))

/-- The end of the pair at a position; `none` at the list's end. -/
def pairEnd (buf : List UInt8) (pos : Nat) : Decode (Option Nat) := do
  let encoded ← beI32 buf pos
  let decoded ← beI32 buf (← plus pos 4)
  if encoded = 0 ∧ decoded = 0 then return none
  if encoded < 24 ∨ decoded ≤ 0 then throw .refused
  let stop ← checkedPlus pos encoded.toNat
  if buf.length < stop then throw .refused
  return some stop

/-- `decode_nvlist`'s loop from a position. -/
def decodeFrom (buf : List UInt8) : Nat → Nat → Dict NvValue → Decode (Dict NvValue)
  | 0, _, _ => throw .unfinished
  | rounds + 1, pos, pairs => do
    match ← pairEnd buf pos with
    | none => return pairs
    | some stop =>
      let pair ← index buf pos stop
      let (name, value) ← readPair pair
      decodeFrom buf rounds stop (value.elim pairs (pairs.insert name))

def decodeNvlist (rounds : Nat) (buf : List UInt8) : Decode (Dict NvValue) := do
  if buf.length < 12 ∨ buf.head? ≠ some xdr then throw .refused
  decodeFrom buf rounds 12 []

/-! ## Encoding -/

def putString (text : String) : List UInt8 :=
  let bytes := Lines.utf8 text.toList
  be 4 bytes.length ++ bytes ++ List.replicate ((4 - bytes.length % 4) % 4) 0

namespace NvValue

def kind : NvValue → Int
  | u64 _ => uint64Type
  | str _ => stringType
  | list _ => nvlistType
  | lists _ => nvlistArrayType

def count : NvValue → Nat
  | lists ls => ls.length
  | _ => 1

/-- An array of no lists, whose pair has no data. -/
def isEmptyArray : NvValue → Bool
  | lists [] => true
  | _ => false

/-- What an embedded list doesn't hold. -/
def data : NvValue → List UInt8
  | u64 n => be 8 n.toNat
  | str s => putString s
  | _ => []

end NvValue

def body (name : String) (value : NvValue) (embedded : List UInt8) : List UInt8 :=
  putString name ++ be 4 value.kind.toNat ++ be 4 value.count ++ value.data ++ embedded

def putPair (name : String) (value : NvValue) (embedded : List UInt8) : List UInt8 :=
  be 4 (8 + (body name value embedded).length) ++ be 4 (8 + (body name value embedded).length) ++
    body name value embedded

def putList (pairs : List UInt8) : List UInt8 := be 4 0 ++ be 4 1 ++ pairs ++ List.replicate 8 0

mutual

def embedded : NvValue → List UInt8
  | .list pairs => putList (putPairs pairs)
  | .lists lists => putLists lists
  | .u64 _ => []
  | .str _ => []

def putPairs : List (String × NvValue) → List UInt8
  | [] => []
  | (name, value) :: rest => putPair name value (embedded value) ++ putPairs rest

def putLists : List (List (String × NvValue)) → List UInt8
  | [] => []
  | pairs :: rest => putList (putPairs pairs) ++ putLists rest

end

def encodeNvlist (pairs : List (String × NvValue)) : List UInt8 := [xdr, 1, 0, 0] ++ putList (putPairs pairs)

/-! ## What is read of what was written -/

def topValue : NvValue → Option NvValue
  | .u64 n => some (.u64 n)
  | .str s => some (.str s)
  | .list _ => none
  | .lists _ => none

theorem plus_eq {a b : Nat} (h : a + b < 2 ^ 64) : plus a b = .ok (a + b) := by
  rw [plus, Checked.fits_eq h]
  rfl

theorem checkedPlus_eq {a b : Nat} (h : a + b < 2 ^ 64) : checkedPlus a b = .ok (a + b) := by
  rw [checkedPlus, Checked.fits_eq h]
  rfl

variable {text : String} {value : NvValue} {pos : Nat} {buf : List UInt8}

section

variable {buf : List UInt8} {pos : Nat} (hbuf : buf.length < 2 ^ 63)

include hbuf

theorem beI32_held {n : Nat} (h : Holds buf pos (be 4 n)) : beI32 buf pos = .ok (signed 32 (n % 2 ^ 32)) := by
  have hlen := h.length
  have hslice := h.slice
  rw [length_be] at hlen hslice
  rw [beI32, plus_eq (by omega), ok_bind, get, hslice, ofOption_some, ok_bind, number_be]
  rfl

theorem beI32_small {n : Nat} (h : Holds buf pos (be 4 n)) (hn : n < 2 ^ 31) : beI32 buf pos = .ok n := by
  rw [beI32_held hbuf h, Nat.mod_eq_of_lt (by omega), signed_of_lt hn]

omit hbuf in
theorem length_putString (text : String) :
    (putString text).length = 4 + ((Lines.utf8 text.toList).length ⌈/⌉ 4) * 4 := by
  simp only [putString, List.length_append, length_be, List.length_replicate, Nat.ceilDiv_eq_add_pred_div]
  omega

theorem xdrString_held (h : Holds buf pos (putString text))
    (hsize : (putString text).length < 2 ^ 31) : xdrString buf pos = .ok (text, pos + (putString text).length) := by
  have hlen := h.length
  have hbytes := (h.left.right).slice
  rw [length_be] at hbytes
  rw [length_putString] at hlen hsize ⊢
  have hle := Checked.le_ceilDiv_mul (Lines.utf8 text.toList).length (show 0 < 4 by decide)
  rw [xdrString, beI32_small hbuf h.left.left (by omega), ok_bind, if_neg (by omega), plus_eq (by omega)]
  simp only [Int.toNat_natCast, ok_bind]
  rw [checkedPlus_eq (by omega), ok_bind, get, hbytes, ofOption_some, ok_bind, Lines.decodeUtf8_utf8,
    ofOption_some, ok_bind, Checked.fits_eq (by omega), ofOption_some, ok_bind, plus_eq (by omega),
    String.ofList_toList, Nat.add_assoc]
  rfl

end

theorem putPair_eq (name : String) (value : NvValue) (embedded : List UInt8) : putPair name value embedded =
    be 4 (8 + (body name value embedded).length) ++ be 4 (8 + (body name value embedded).length) ++
      body name value embedded := rfl

theorem length_putPair (name : String) (value : NvValue) (embedded : List UInt8) :
    (putPair name value embedded).length = 8 + (body name value embedded).length := by
  rw [putPair_eq, List.length_append, List.length_append, length_be]

theorem kind_range (value : NvValue) : value.kind.toNat < 2 ^ 31 ∧ (value.kind.toNat : Int) = value.kind := by
  cases value <;> exact ⟨of_decide_eq_true rfl, rfl⟩

/-- The value of a pair is read, unless it's embedded. -/
theorem pairValue_held {pair : List UInt8} {read : Int}
    (hpair : pair.length < 2 ^ 31) (h : Holds pair pos value.data)
    (hcount : topValue value ≠ none → read = 1) : pairValue pair value.kind read pos = .ok (topValue value) := by
  have hlen := h.length
  cases value with
  | u64 n =>
    have hread := hcount (Option.some_ne_none _)
    have hslice := h.slice
    have hn := @number_be_of_lt 8 n.toNat n.toNat_lt
    simp only [NvValue.data, length_be] at hlen hslice
    rw [pairValue, if_pos ⟨rfl, hread⟩, plus_eq (by omega), ok_bind, get, hslice, ofOption_some, ok_bind, hn]
    simp only [UInt64.ofNat_toNat]
    rfl
  | str s =>
    have hread := hcount (Option.some_ne_none _)
    have hsize : (putString s).length < 2 ^ 31 := by
      simp only [NvValue.data] at hlen
      omega
    have hstring : xdrString pair pos = .ok (s, pos + (putString s).length) :=
      xdrString_held (by omega) h hsize
    have hkind : stringType ≠ uint64Type := by decide
    rw [pairValue, if_neg fun h => hkind h.1, if_pos ⟨rfl, hread⟩, hstring]
    rfl
  | list pairs => rfl
  | lists ls => rfl

theorem holds_self (part : List UInt8) : Holds part 0 part := ⟨Nat.zero_le _, List.prefix_rfl⟩

theorem readPair_put {name : String} {embedded : List UInt8}
    (h : (putPair name value embedded).length < 2 ^ 31) :
    readPair (putPair name value embedded) = .ok (name, topValue value) := by
  have hself := holds_self (putPair name value embedded)
  generalize hpair : putPair name value embedded = pair at h hself ⊢
  have hbuf : pair.length < 2 ^ 63 := by omega
  have hbody : Holds pair 8 (body name value embedded) := by
    have hsizes : Holds pair 0 (putPair name value embedded) := hpair.symm ▸ hself
    rw [putPair_eq] at hsizes
    have hright := hsizes.right
    rw [List.length_append, length_be] at hright
    exact hright
  have hname : Holds pair 8 (putString name) := hbody.left.left.left.left
  have hkind := hbody.left.left.left.right
  have hcount := hbody.left.left.right
  have hdata := hbody.left.right
  have hlen := hbody.left.length
  simp only [List.length_append, length_be] at hcount hdata hlen
  rw [readPair, xdrString_held hbuf hname (by omega), ok_bind]
  dsimp only
  rw [beI32_small hbuf hkind (kind_range value).1, ok_bind, plus_eq (by omega), ok_bind,
    beI32_held hbuf (by rwa [← Nat.add_assoc] at hcount), ok_bind, plus_eq (by omega), ok_bind,
    (kind_range value).2, pairValue_held h (by convert hdata using 1; omega)]
  · rfl
  · intro htop
    cases value with
    | u64 n => rfl
    | str s => rfl
    | list pairs => exact absurd rfl htop
    | lists ls => exact absurd rfl htop

theorem pairEnd_put {name : String} {embedded : List UInt8}
    (hbuf : buf.length < 2 ^ 63) (h : Holds buf pos (putPair name value embedded))
    (hsize : (putPair name value embedded).length < 2 ^ 31)
    (hleast : 24 ≤ (putPair name value embedded).length) :
    pairEnd buf pos = .ok (some (pos + (putPair name value embedded).length)) := by
  have hlen := h.length
  rw [length_putPair] at hsize hleast hlen ⊢
  rw [putPair_eq] at h
  have hsecond := h.left.right
  rw [length_be] at hsecond
  rw [pairEnd, beI32_small hbuf h.left.left hsize, ok_bind, plus_eq (by omega), ok_bind,
    beI32_small hbuf hsecond hsize, ok_bind, if_neg (by omega), if_neg (by omega), Int.toNat_natCast,
    checkedPlus_eq (by omega), ok_bind, if_neg (by omega)]
  rfl

theorem pairEnd_zeros (hbuf : buf.length < 2 ^ 63)
    (h : Holds buf pos (List.replicate 8 0)) : pairEnd buf pos = .ok none := by
  have hzeros : Holds buf pos (be 4 0 ++ be 4 0) := h
  have hlen := h.length
  have hsecond := hzeros.right
  rw [length_be] at hsecond
  rw [List.length_replicate] at hlen
  rw [pairEnd, beI32_small hbuf hzeros.left (by omega), ok_bind, plus_eq (by omega), ok_bind,
    beI32_small hbuf hsecond (by omega), ok_bind, if_pos ⟨rfl, rfl⟩]
  rfl

/-! ## The whole list -/

def keepTop (found : Dict NvValue) (pair : String × NvValue) : Dict NvValue :=
  (topValue pair.2).elim found (found.insert pair.1)

/-- An empty array has no pair of an empty name: its pair would be too short. -/
def Named (pair : String × NvValue) : Prop := pair.1 ≠ "" ∨ pair.2.isEmptyArray = false

theorem length_putList (pairs : List UInt8) : (putList pairs).length = pairs.length + 16 := by
  simp only [putList, List.length_append, length_be, List.length_replicate]
  omega

theorem putPairs_cons (pair : String × NvValue) (pairs : List (String × NvValue)) :
    putPairs (pair :: pairs) = putPair pair.1 pair.2 (embedded pair.2) ++ putPairs pairs := rfl

theorem utf8_pos (h : text ≠ "") : 0 < (Lines.utf8 text.toList).length := by
  obtain ⟨c, cs, hcs⟩ := List.exists_cons_of_ne_nil (mt String.toList_eq_nil_iff.mp h)
  have := Char.utf8Size_pos c
  rw [hcs, Lines.length_utf8, List.map_cons, List.sum_cons]
  omega

theorem length_pair {pair : String × NvValue} (h : Named pair) :
    24 ≤ (putPair pair.1 pair.2 (embedded pair.2)).length := by
  obtain ⟨name, value⟩ := pair
  rw [length_putPair]
  simp only [body, List.length_append, length_be]
  have hstring := length_putString name
  rcases h with hname | hvalue
  · have hpos : 0 < (Lines.utf8 name.toList).length := utf8_pos hname
    have hle := Checked.le_ceilDiv_mul (Lines.utf8 name.toList).length (show 0 < 4 by decide)
    omega
  · have hdata : 4 ≤ value.data.length + (embedded value).length := by
      cases value with
      | u64 n =>
        have : (be 8 n.toNat).length = 8 := length_be 8 _
        exact le_add_right (by rw [NvValue.data, this]; decide)
      | str s =>
        have := length_putString s
        exact le_add_right (by rw [NvValue.data, this]; exact Nat.le_add_right 4 _)
      | list pairs =>
        have := length_putList (putPairs pairs)
        exact le_add_left (by rw [embedded, this]; omega)
      | lists ls =>
        cases ls with
        | nil => cases hvalue
        | cons pairs ls =>
          have := length_putList (putPairs pairs)
          exact le_add_left (by rw [embedded, putLists, List.length_append, this]; omega)
    omega

theorem decodeFrom_put {pairs : List (String × NvValue)} {rounds : Nat}
    {found : Dict NvValue} (hbuf : buf.length < 2 ^ 63) (hnamed : ∀ pair ∈ pairs, Named pair)
    (h : Holds buf pos (putPairs pairs ++ List.replicate 8 0)) (hsize : (putPairs pairs).length < 2 ^ 31)
    (hrounds : pairs.length < rounds) : decodeFrom buf rounds pos found = .ok (pairs.foldl keepTop found) := by
  induction pairs generalizing pos rounds found with
  | nil =>
    obtain ⟨rounds, rfl⟩ := Nat.exists_eq_succ_of_ne_zero (Nat.ne_zero_of_lt hrounds)
    rw [decodeFrom, pairEnd_zeros hbuf h]
    rfl
  | cons pair pairs ih =>
    obtain ⟨rounds, rfl⟩ := Nat.exists_eq_succ_of_ne_zero (Nat.ne_zero_of_lt hrounds)
    rw [putPairs_cons, List.append_assoc] at h
    rw [putPairs_cons, List.length_append] at hsize
    have hput := h.left
    rw [decodeFrom, pairEnd_put hbuf hput (by omega) (length_pair (hnamed pair List.mem_cons_self)), ok_bind]
    dsimp only
    rw [index, hput.slice, ofOption_some, ok_bind, readPair_put (by omega), ok_bind]
    exact ih (fun p hp => hnamed p (List.mem_cons_of_mem pair hp)) h.right (by omega)
      (Nat.lt_of_succ_lt_succ hrounds)

def lastFirst (pairs : List (String × NvValue)) : List (String × NvValue) :=
  pairs.reverse.filterMap fun pair => (topValue pair.2).map fun value => (pair.1, value)

theorem lastFirst_snoc (pairs : List (String × NvValue)) (pair : String × NvValue) :
    lastFirst (pairs ++ [pair]) =
      ((topValue pair.2).map fun value => (pair.1, value)).toList ++ lastFirst pairs := by
  rw [lastFirst, List.reverse_append, List.reverse_singleton, List.singleton_append, List.filterMap_cons]
  cases topValue pair.2 <;> rfl

theorem get?_keepTop (pairs : List (String × NvValue)) (name : String) :
    (pairs.foldl keepTop []).get? name = (lastFirst pairs).lookup name := by
  induction pairs using List.reverseRecOn with
  | nil => rfl
  | append_singleton pairs pair ih =>
    rw [List.foldl_append, List.foldl_cons, List.foldl_nil, lastFirst_snoc, keepTop]
    cases htop : topValue pair.2 with
    | none => exact ih
    | some value =>
      rw [Option.elim_some, Option.map_some, Option.toList_some, List.singleton_append]
      by_cases hname : name = pair.1
      · rw [hname, Dict.get?_insert, List.lookup_cons, beq_self_eq_true]
      · rw [Dict.get?_insert_of_ne _ _ hname, ih, List.lookup_cons, beq_eq_false_iff_ne.mpr hname]

theorem sorted_keepTop (pairs : List (String × NvValue)) : (pairs.foldl keepTop []).Sorted := by
  induction pairs using List.reverseRecOn with
  | nil => exact List.Pairwise.nil
  | append_singleton pairs pair ih =>
    rw [List.foldl_append, List.foldl_cons, List.foldl_nil, keepTop]
    cases topValue pair.2 with
    | none => exact ih
    | some value => exact ih.insert pair.1 value

/-- A list is read back with what follows it: the last number or string of each name, in the order of
the names, and nothing of what is embedded. -/
theorem nvlist_read_back {pairs : List (String × NvValue)} (hnamed : ∀ pair ∈ pairs, Named pair)
    (hsize : (encodeNvlist pairs).length < 2 ^ 31) (trailing : List UInt8)
    (htotal : (encodeNvlist pairs ++ trailing).length < 2 ^ 63) :
    ∃ found : Dict NvValue, found.Sorted ∧ (∀ name, found.get? name = (lastFirst pairs).lookup name) ∧
      ∀ rounds > pairs.length, decodeNvlist rounds (encodeNvlist pairs ++ trailing) = .ok found := by
  refine ⟨_, sorted_keepTop pairs, get?_keepTop pairs, fun rounds hrounds => ?_⟩
  have hheld : Holds (encodeNvlist pairs ++ trailing) 12 (putPairs pairs ++ List.replicate 8 0) := by
    have hsplit : encodeNvlist pairs ++ trailing =
        ([xdr, 1, 0, 0] ++ be 4 0 ++ be 4 1) ++ ((putPairs pairs ++ List.replicate 8 0) ++ trailing) := by
      simp only [encodeNvlist, putList, List.append_assoc]
    rw [hsplit]
    exact Holds.mk _ _ _
  have hlen := hheld.length
  have hpairs : (putPairs pairs).length < 2 ^ 31 := by
    rw [encodeNvlist, List.length_append, length_putList] at hsize
    omega
  have hstart : ¬ ((encodeNvlist pairs ++ trailing).length < 12 ∨
      (encodeNvlist pairs ++ trailing).head? ≠ some xdr) := by
    rintro (hshort | hhead)
    · omega
    · exact hhead rfl
  rw [decodeNvlist, if_neg hstart]
  exact decodeFrom_put htotal hnamed hheld hpairs hrounds

def smallLabel : List (String × NvValue) := [("tree", .list [("guid", .u64 9)]), ("guid", .u64 7)]

theorem length_smallLabel : (encodeNvlist smallLabel).length = 124 := by rfl

theorem named_smallLabel : ∀ pair ∈ smallLabel, Named pair :=
  List.forall_mem_cons.mpr ⟨.inl (show "tree" ≠ "" by decide),
    List.forall_mem_singleton.mpr (.inl (show "guid" ≠ "" by decide))⟩

theorem nvlist_read_back_tree : ∃ found : Dict NvValue, found.get? "guid" = some (.u64 7) ∧
    found.get? "tree" = none ∧
    ∀ rounds > 2, decodeNvlist rounds (encodeNvlist smallLabel ++ [255]) = .ok found := by
  have hlen := length_smallLabel
  obtain ⟨found, -, hget, hfound⟩ :=
    nvlist_read_back named_smallLabel (by omega) [255] (by rw [List.length_append, List.length_singleton]; omega)
  exact ⟨found, hget _, hget _, hfound⟩

/-! ## Reading ends -/

/-- A value or the source's `None`. -/
def Ends {α : Type} (x : Decode α) : Prop := x ≠ .error .panicked ∧ x ≠ .error .unfinished

theorem ends_ok {α : Type} (a : α) : Ends (.ok a) := by
  refine ⟨?_, ?_⟩ <;> rintro ⟨⟩

theorem ends_refused {α : Type} : Ends (.error .refused : Decode α) := by
  refine ⟨?_, ?_⟩ <;> rintro ⟨⟩

theorem Ends.cases {α : Type} {x : Decode α} (h : Ends x) : (∃ a, x = .ok a) ∨ x = .error .refused := by
  cases x with
  | ok a => exact .inl ⟨a, rfl⟩
  | error e =>
    cases e with
    | refused => exact .inr rfl
    | panicked => exact absurd rfl h.1
    | unfinished => exact absurd rfl h.2

theorem Ends.bind {α β : Type} {x : Decode α} {f : α → Decode β} (h : Ends x)
    (hf : ∀ a, x = .ok a → Ends (f a)) : Ends (x >>= f) := by
  rcases h.cases with ⟨a, rfl⟩ | rfl
  · exact hf a rfl
  · exact ends_refused

theorem ends_check {α : Type} {c : Prop} [Decidable c] {k : PUnit → Decode α} {x : Decode α}
    (h : ¬ c → Ends x) : Ends (if c then throw .refused >>= k else x) := by
  split
  · exact ends_refused
  · rename_i hc
    exact h hc

theorem ends_refusal {α : Type} (x : Option α) : Ends (ofOption x .refused) := by
  cases x with
  | none => exact ends_refused
  | some a => exact ends_ok a

theorem bind_plus {β : Type} {a b : Nat} {f : Nat → Decode β} (h : a + b < 2 ^ 64) (hf : Ends (f (a + b))) :
    Ends (plus a b >>= f) := by
  rw [plus_eq h]
  exact hf

theorem fits_eq_some {width n m : Nat} (h : Checked.fits width n = some m) : m = n := by
  unfold Checked.fits at h
  split at h
  · exact (Option.some.inj h).symm
  · cases h

section

variable {buf : List UInt8} {pos : Nat}

theorem beI32_ok {n : Int} (h : beI32 buf pos = .ok n) : pos + 4 ≤ buf.length ∧ n < 2 ^ 31 := by
  simp only [beI32, plus, get, bind_eq_ok, ofOption_eq_ok, pure_eq_ok] at h
  obtain ⟨stop, hstop, bytes, hbytes, rfl⟩ := h
  obtain rfl := fits_eq_some hstop
  obtain ⟨hlen, -, hle⟩ := length_of_slice hbytes
  have hlt := number_lt bytes
  rw [hlen, Nat.add_sub_cancel_left] at hlt
  refine ⟨hle, ?_⟩
  unfold signed
  split <;> omega

/-- A string ends in the bytes, but for its padding. -/
theorem xdrString_ok {stop : Nat} (h : xdrString buf pos = .ok (text, stop)) :
    stop ≤ buf.length + 3 := by
  simp only [xdrString, plus, checkedPlus, get, bind_eq_ok, ofOption_eq_ok, pure_eq_ok, check_eq_ok] at h
  obtain ⟨len, hlen, -, start, hstart, last, hlast, bytes, hbytes, cs, -, padded, hpadded, stop', hstop, heq⟩ := h
  obtain ⟨-, rfl⟩ := Prod.mk.inj heq
  obtain rfl := fits_eq_some hstop
  obtain rfl := fits_eq_some hstart
  obtain rfl := fits_eq_some hlast
  obtain rfl := fits_eq_some hpadded
  obtain ⟨-, -, hle⟩ := length_of_slice hbytes
  have hround := Checked.ceilDiv_mul_lt len.toNat (show 0 < 4 by decide)
  omega

theorem pairEnd_ok {stop : Nat} (h : pairEnd buf pos = .ok (some stop)) :
    pos + 24 ≤ stop ∧ stop ≤ buf.length := by
  simp only [pairEnd, bind_eq_ok] at h
  obtain ⟨encoded, hencoded, next, -, decoded, -, h⟩ := h
  split at h
  · cases h
  · simp only [check_eq_ok, checkedPlus, bind_eq_ok, ofOption_eq_ok, pure_eq_ok, Option.some.injEq] at h
    obtain ⟨hmany, last, hlast, hle, rfl⟩ := h
    obtain rfl := fits_eq_some hlast
    omega

variable (hbuf : buf.length < 2 ^ 63)

include hbuf

theorem ends_beI32 (hpos : pos ≤ buf.length + 16) : Ends (beI32 buf pos) := by
  unfold beI32
  exact bind_plus (by omega) ((ends_refusal _).bind fun bytes _ => ends_ok _)

theorem ends_xdrString (hpos : pos ≤ buf.length + 16) : Ends (xdrString buf pos) := by
  unfold xdrString
  refine (ends_beI32 hbuf hpos).bind fun len hlen => ends_check fun hneg => ?_
  obtain ⟨hfits, hlt⟩ := beI32_ok hlen
  refine bind_plus (by omega) ((ends_refusal _).bind fun stop _ => (ends_refusal _).bind fun bytes _ =>
    (ends_refusal _).bind fun text _ => ?_)
  have hround := Checked.ceilDiv_mul_lt len.toNat (show 0 < 4 by decide)
  rw [Checked.fits_eq (by omega), ofOption_some, ok_bind]
  exact bind_plus (by omega) (ends_ok _)

theorem ends_readPair : Ends (readPair buf) := by
  unfold readPair
  refine (ends_xdrString hbuf (by omega)).bind ?_
  rintro ⟨name, stop⟩ hstring
  have hstop := xdrString_ok hstring
  refine (ends_beI32 hbuf (by omega)).bind fun kind _ => bind_plus (by omega) ?_
  refine (ends_beI32 hbuf (by omega)).bind fun count _ => bind_plus (by omega) ?_
  refine Ends.bind ?_ fun value _ => ends_ok _
  unfold pairValue
  split
  · exact bind_plus (by omega) ((ends_refusal _).bind fun bytes _ => ends_ok _)
  · split
    · exact (ends_xdrString hbuf (by omega)).bind fun value _ => ends_ok _
    · exact ends_ok _

theorem ends_pairEnd (hpos : pos ≤ buf.length) : Ends (pairEnd buf pos) := by
  unfold pairEnd
  refine (ends_beI32 hbuf (by omega)).bind fun encoded _ => bind_plus (by omega) ?_
  refine (ends_beI32 hbuf (by omega)).bind fun decoded _ => ?_
  split
  · exact ends_ok _
  · exact ends_check fun _ => (ends_refusal _).bind fun stop _ => ends_check fun _ => ends_ok _

theorem ends_decodeFrom {rounds : Nat} {found : Dict NvValue} (hpos : pos ≤ buf.length)
    (hrounds : buf.length - pos < rounds) : Ends (decodeFrom buf rounds pos found) := by
  induction rounds generalizing pos found with
  | zero => exact absurd hrounds (Nat.not_lt_zero _)
  | succ rounds ih =>
    unfold decodeFrom
    refine (ends_pairEnd hbuf hpos).bind fun next hnext => ?_
    cases next with
    | none => exact ends_ok _
    | some stop =>
      obtain ⟨hlow, hhigh⟩ := pairEnd_ok hnext
      have hslice : slice buf pos stop = some ((buf.drop pos).take (stop - pos)) := if_pos ⟨by omega, hhigh⟩
      have hpart := (length_of_slice hslice).1
      dsimp only
      rw [index, hslice, ofOption_some, ok_bind]
      refine (ends_readPair (by omega)).bind ?_
      rintro ⟨name, value⟩ -
      exact ih hhigh (by omega)

/-- Reading any bytes ends with a list or without one, and no step of it panics. -/
theorem nvlist_ends {rounds : Nat} (hrounds : buf.length < rounds) :
    (∃ found, decodeNvlist rounds buf = .ok found) ∨ decodeNvlist rounds buf = .error .refused := by
  refine Ends.cases (ends_check fun hstart => ends_decodeFrom hbuf ?_ ?_)
  · omega
  · omega

end

/-- A string whose length leaves the pair. -/
theorem nvlist_ends_cut : (∃ found, decodeNvlist 37 (encodeNvlist [("a", .u64 7)] |>.take 36) = .ok found) ∨
    decodeNvlist 37 (encodeNvlist [("a", .u64 7)] |>.take 36) = .error .refused :=
  have hlen : ((encodeNvlist [("a", .u64 7)]).take 36).length = 36 := by rfl
  nvlist_ends (by omega) (by omega)

end Bmac.Inventory
