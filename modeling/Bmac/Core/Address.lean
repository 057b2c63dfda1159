import Bmac.Base.Checks
import Bmac.Base.Split
import Bmac.Core.Ipv6

/-!
# Appliance addresses

`bmac-core/src/address.rs`. `Accepted` is the texts that are an address and an optional port; `parse`
takes these and, as `u16::from_str` reads a plus sign, also the ones of `PlusPort`
(`parse_iff`). How an IPv6 address is shown is a parameter; that it is read back is assumed of it.
-/

namespace Bmac.Core

open Bmac.Base

inductive IpAddr where
  | v4 (number : Nat)
  | v6 (groups : List Nat)
  deriving DecidableEq

def IpAddr.parse (text : String) : Option IpAddr :=
  match Ipv4.parse text with
  | some n => some (.v4 n)
  | none => (Ipv6.parse text).map .v6

inductive AddressHost where
  | ip (ip : IpAddr)
  /-- Lowercase, without a trailing dot. -/
  | name (name : String)
  deriving DecidableEq

structure ApplianceAddress where
  host : AddressHost
  port : Option Nat
  deriving DecidableEq

namespace ApplianceAddress

def nameMax : Nat := 253

def checkLabel (label : String) : Except String Unit := do
  if label = "" ∨ Text.len label > 63 then throw "each part of a name must be 1 to 63 characters"
  if Text.startsWith '-' label ∨ Text.endsWith '-' label then
    throw "a part of a name must not start or end with a hyphen"
  if ¬ label.toList.all fun c => Text.isAlphanumeric c || c = '-' then
    throw "a name has only letters, digits, hyphens, and dots"

def dnsName (text : String) : Except String String := do
  let name := (Text.stripEnd "." text).getD text
  if name = "" ∨ Text.len name > nameMax then throw "a name must be 1 to 253 characters"
  let labels := Text.split '.' name
  labels.forM checkLabel
  if labels.getLast?.any fun label => label.toList.all Text.isDigit then
    throw "not an IP address, and a name can't end in a number"
  return Text.toLower name

def parsePort (text : String) : Except String Nat :=
  match Text.parseUnsigned (2 ^ 16) text with
  | some p => if p > 0 ∧ ¬ Text.startsWith '0' text then .ok p else .error "the port must be 1 to 65535"
  | none => .error "the port must be 1 to 65535"

/-- Whether `str::contains` finds `://` or a character of a URL. -/
def isUrl (text : String) : Bool :=
  (Text.splitBefore "://".toList text.toList).isSome || text.toList.any fun c => "/@?#".toList.contains c

/-- ASCII whitespace or a control character. -/
def isBlank (c : Char) : Bool := c.toNat ≤ 0x20 || c.toNat = 0x7f

def parseAfter (after : String) : Except String (Option Nat) :=
  if after = "" then .ok none
  else do
    let text ← ofOption (Text.stripStart ":" after) "a port follows ] after a colon"
    return some (← parsePort text)

def parseHost (host : String) : Except String AddressHost :=
  match IpAddr.parse host with
  | some ip => .ok (.ip ip)
  | none => (dnsName host).map .name

/-- `parse` after its checks of the whole text. -/
def parseChecked (text : String) : Except String ApplianceAddress :=
  match Text.stripStart "[" text with
  | some rest => do
    let (ip, after) ← ofOption (Text.splitOnce ']' rest) "an IPv6 address needs its closing ]"
    let ip ← ofOption (Ipv6.parse ip) "not an IPv6 address"
    return ⟨.ip (.v6 ip), ← parseAfter after⟩
  | none =>
    match IpAddr.parse text with
    | some ip => .ok ⟨.ip ip, none⟩
    | none =>
      if text.toList.count ':' > 1 then
        .error "not an IPv6 address; write one with a port as [address]:port"
      else
        match Text.rsplitOnce ':' text with
        | some (host, p) => do
          let port ← parsePort p
          return ⟨← parseHost host, some port⟩
        | none => do return ⟨← parseHost text, none⟩

def parse (text : String) : Except String ApplianceAddress := do
  if text = "" then throw "it is empty"
  if isUrl text then throw "give only a name or IP address and an optional port, not a URL"
  if text.toList.any isBlank then throw "it must not contain spaces"
  parseChecked text

def hostText (show6 : List Nat → String) : AddressHost → String
  | .ip (.v4 n) => Ipv4.text n
  | .ip (.v6 groups) => show6 groups
  | .name name => name

def display (show6 : List Nat → String) (a : ApplianceAddress) : String :=
  match a.host, a.port with
  | .ip (.v6 groups), some port => "[" ++ show6 groups ++ "]" ++ ":" ++ port.repr
  | host, some port => hostText show6 host ++ ":" ++ port.repr
  | host, none => hostText show6 host

/-! ## The texts of an address -/

/-- Letters, digits and inner hyphens. -/
def Label (label : String) : Prop :=
  1 ≤ label.length ∧ label.length ≤ 63 ∧ (∀ c ∈ label.toList, Text.isAlphanumeric c = true ∨ c = '-') ∧
    label.toList.head? ≠ some '-' ∧ label.toList.getLast? ≠ some '-'

/-- A text without one dot at its end. -/
def undotted (text : String) : String := (Text.stripEnd "." text).getD text

def DnsName (text : String) : Prop :=
  1 ≤ (undotted text).length ∧ (undotted text).length ≤ 253 ∧
    (∀ label ∈ Text.split '.' (undotted text), Label label) ∧
    ∀ label, (Text.split '.' (undotted text)).getLast? = some label → ¬ ∀ c ∈ label.toList, Text.isDigit c = true

/-- Digits of a number from 1 to 65535. -/
def Digits (cs : List Char) (n : Nat) : Prop :=
  cs ≠ [] ∧ (∀ c ∈ cs, Text.isDigit c = true) ∧ Text.decimal cs = n ∧ 1 ≤ n ∧ n ≤ 65535

/-- A port without a leading zero. -/
def IsPort (p : String) (n : Nat) : Prop := Digits p.toList n ∧ p.toList.head? ≠ some '0'

/-- A port after a plus sign. -/
def IsPlusPort (p : String) (n : Nat) : Prop := ∃ cs, p.toList = '+' :: cs ∧ Digits cs n

/-- The hosts that a port may follow. -/
inductive HostText : String → AddressHost → Prop
  | bracketed {ip : String} {groups : List Nat} (h : Ipv6.parse ip = some groups) :
    HostText ("[" ++ ip ++ "]") (.ip (.v6 groups))
  | ipv4 {text : String} {n : Nat} (h : Ipv4.parse text = some n) : HostText text (.ip (.v4 n))
  | name {text : String} (h : DnsName text) : HostText text (.name (Text.toLower (undotted text)))

/-- The address of a text whose port, if it has one, is so. -/
inductive Parses (port : String → Nat → Prop) : String → ApplianceAddress → Prop
  | ipv6 {text : String} {groups : List Nat} (h : Ipv6.parse text = some groups) :
    Parses port text ⟨.ip (.v6 groups), none⟩
  | host {text : String} {host : AddressHost} (h : HostText text host) : Parses port text ⟨host, none⟩
  | hostPort {text p : String} {host : AddressHost} {n : Nat} (h : HostText text host) (hp : port p n) :
    Parses port (text ++ ":" ++ p) ⟨host, some n⟩

/-- An IP address, a bracketed IPv6 address or a DNS name, and an optional port. -/
def Accepted (text : String) : Prop := ∃ a, Parses IsPort text a

/-- A host with a port that has a plus sign. -/
def PlusPort (text : String) : Prop :=
  ∃ host p a n, HostText host a ∧ IsPlusPort p n ∧ text = host ++ ":" ++ p

/-! ## Ports -/

variable {text : String} {n : Nat} {c : Char} {a : ApplianceAddress}

theorem parsePort_eq_ok : parsePort text = .ok n ↔ IsPort text n ∨ IsPlusPort text n := by
  unfold parsePort
  constructor
  · intro h
    split at h
    · rename_i p hp
      split at h
      · rename_i hport
        cases h
        obtain ⟨hpos, hzero⟩ := hport
        obtain ⟨cs, hcs, hne, hall, hvalue, hlt⟩ := Text.parseUnsigned_eq_some.mp hp
        have hdigits : Digits cs n := ⟨hne, hall, hvalue, hpos, by omega⟩
        rcases hcs with hcs | hcs
        · exact .inl ⟨hcs ▸ hdigits, by simpa [Text.startsWith] using hzero⟩
        · exact .inr ⟨cs, hcs, hdigits⟩
      · cases h
    · cases h
  · intro h
    have hparse : Text.parseUnsigned (2 ^ 16) text = some n ∧ 1 ≤ n ∧ ¬ Text.startsWith '0' text := by
      rcases h with ⟨⟨hne, hall, hvalue, hpos, hle⟩, hzero⟩ | ⟨cs, hcs, hne, hall, hvalue, hpos, hle⟩
      · refine ⟨Text.parseUnsigned_eq_some.mpr ⟨_, .inl rfl, hne, hall, hvalue, by omega⟩, hpos, ?_⟩
        simpa [Text.startsWith] using hzero
      · refine ⟨Text.parseUnsigned_eq_some.mpr ⟨cs, .inr hcs, hne, hall, hvalue, by omega⟩, hpos, ?_⟩
        simp [Text.startsWith, hcs]
    obtain ⟨hparse, hpos, hzero⟩ := hparse
    rw [hparse]
    exact if_pos ⟨hpos, hzero⟩

theorem isPort_repr (h : 1 ≤ n) (h' : n ≤ 65535) : IsPort n.repr n := by
  exact ⟨⟨Text.repr_ne_nil n, fun c => Text.isDigit_of_mem_repr, Text.decimal_repr n, h, h'⟩,
    Text.head_repr (by omega)⟩

/-! ## Names -/

theorem checkLabel_eq_ok {label : String} : checkLabel label = .ok () ↔ Label label := by
  have hascii : (∀ c ∈ label.toList, Text.isAlphanumeric c = true ∨ c = '-') →
      Text.len label = label.length := by
    refine fun h => Text.len_eq_length fun c hc => ?_
    rcases h c hc with halpha | rfl
    · have := Text.isAlphanumeric_iff.mp halpha
      omega
    · decide
  have hempty : label = "" ↔ label.length = 0 := by
    rw [← String.length_toList, List.length_eq_zero_iff, String.toList_eq_nil_iff]
  unfold checkLabel Label
  simp only [check_eq_ok, last_check_eq_ok, Text.startsWith, Text.endsWith, List.all_eq_true, Bool.or_eq_true,
    decide_eq_true_eq, beq_iff_eq, not_or, not_not, hempty, pure_eq_ok, and_true]
  constructor
  · rintro ⟨⟨hne, hlen⟩, ⟨hfirst, hlast⟩, hall⟩
    have := hascii hall
    exact ⟨by omega, by omega, hall, hfirst, hlast⟩
  · rintro ⟨hne, hlen, hall, hfirst, hlast⟩
    have := hascii hall
    exact ⟨⟨by omega, by omega⟩, ⟨hfirst, hlast⟩, hall⟩

theorem mem_split {sep : Char} {s : String} (h : c ∈ s.toList) :
    c = sep ∨ ∃ part ∈ Text.split sep s, c ∈ part.toList := by
  have hparts : [sep].intercalate (s.toList.splitOn sep) = s.toList := List.intercalate_splitOn sep
  rw [← hparts] at h
  rcases mem_intercalate h with hsep | ⟨part, hpart, hc⟩
  · exact .inl (List.mem_singleton.mp hsep)
  · exact .inr ⟨String.ofList part, List.mem_map_of_mem hpart, by rwa [String.toList_ofList]⟩

/-- The characters of a name or an IPv4 address. -/
def IsNameChar (c : Char) : Prop := c = '.' ∨ Text.isAlphanumeric c = true ∨ c = '-'

instance (c : Char) : Decidable (IsNameChar c) := inferInstanceAs (Decidable (_ ∨ _))

theorem mem_name {name : String} (h : ∀ label ∈ Text.split '.' name, Label label) :
    ∀ c ∈ name.toList, IsNameChar c := by
  intro c hc
  have hparts : c = '.' ∨ ∃ part ∈ Text.split '.' name, c ∈ part.toList := mem_split hc
  rcases hparts with hdot | ⟨label, hlabel, hc⟩
  · exact .inl hdot
  · exact .inr ((h label hlabel).2.2.1 c hc)

theorem undotted_eq (text : String) :
    text.toList = (undotted text).toList ∨ text.toList = (undotted text).toList ++ ['.'] := by
  unfold undotted
  cases h : Text.stripEnd "." text with
  | none => exact .inl rfl
  | some rest => exact .inr (Text.stripEnd_eq_some.mp h)

theorem dnsName_eq_ok {name : String} :
    dnsName text = .ok name ↔ DnsName text ∧ name = Text.toLower (undotted text) := by
  have hempty : undotted text = "" ↔ (undotted text).length = 0 := by
    rw [← String.length_toList, List.length_eq_zero_iff, String.toList_eq_nil_iff]
  have hascii : (∀ label ∈ Text.split '.' (undotted text), Label label) →
      Text.len (undotted text) = (undotted text).length := by
    refine fun h => Text.len_eq_length fun c hc => ?_
    rcases mem_name h c hc with rfl | halpha | rfl
    · decide
    · have := Text.isAlphanumeric_iff.mp halpha
      omega
    · decide
  have hlast : (Text.split '.' (undotted text)).getLast?.any (fun label => label.toList.all Text.isDigit) = true ↔
      ∃ label, (Text.split '.' (undotted text)).getLast? = some label ∧
        ∀ c ∈ label.toList, Text.isDigit c = true := by
    simp only [Option.any_eq_true, List.all_eq_true]
  unfold dnsName DnsName
  rw [show (Text.stripEnd "." text).getD text = undotted text from rfl]
  simp only [check_eq_ok, bind_eq_ok, pure_eq_ok, hlast, hempty, nameMax, not_or, not_exists, not_and]
  constructor
  · rintro ⟨⟨hne, hlen⟩, _, hlabels, hnumber, rfl⟩
    have hlabels := fun label hlabel => checkLabel_eq_ok.mp (forM_eq_ok_iff.mp hlabels label hlabel)
    have := hascii hlabels
    exact ⟨⟨by omega, by omega, hlabels, hnumber⟩, rfl⟩
  · rintro ⟨⟨hne, hlen, hlabels, hnumber⟩, rfl⟩
    have := hascii hlabels
    have hall := fun label hlabel => checkLabel_eq_ok.mpr (hlabels label hlabel)
    exact ⟨⟨by omega, by omega⟩, (), forM_eq_ok_iff.mpr hall, hnumber, rfl⟩

theorem DnsName.mem (h : DnsName text) : ∀ c ∈ text.toList, IsNameChar c := by
  intro c hc
  obtain ⟨-, -, hlabels, -⟩ := h
  rcases undotted_eq text with heq | heq
  · rw [heq] at hc
    exact mem_name hlabels c hc
  · rw [heq] at hc
    rcases List.mem_append.mp hc with hc | hc
    · exact mem_name hlabels c hc
    · exact .inl (List.mem_singleton.mp hc)

/-- A text whose last part isn't empty has no dot at its end. -/
theorem undotted_of_last (h : ∀ label ∈ Text.split '.' text, label ≠ "") :
    undotted text = text := by
  unfold undotted
  cases hstrip : Text.stripEnd "." text with
  | none => rfl
  | some rest =>
    have heq := Text.stripEnd_eq_some.mp hstrip
    refine absurd rfl (h "" ?_)
    rw [Text.split, heq, show ".".toList = ['.'] from rfl, List.splitOn_append_cons_self]
    simp

/-- A name isn't an IP address. -/
theorem DnsName.not_ipv4 (h : DnsName text) : Ipv4.parse text = none := by
  cases hparse : Ipv4.parse text with
  | none => rfl
  | some n =>
    exfalso
    obtain ⟨rfl, -⟩ := Ipv4.text_of_parse hparse
    have hsplit : Text.split '.' (Ipv4.text n) = (Ipv4.octets n).map Nat.repr := by
      rw [Text.split, Ipv4.splitOn_text, List.map_map]
      exact List.map_congr_left fun o _ => String.ofList_toList
    have hself : undotted (Ipv4.text n) = Ipv4.text n := by
      refine undotted_of_last fun label hlabel => ?_
      rw [hsplit] at hlabel
      obtain ⟨o, -, rfl⟩ := List.mem_map.mp hlabel
      exact fun hempty => Text.repr_ne_nil o (String.toList_eq_nil_iff.mpr hempty)
    obtain ⟨-, -, -, hlast⟩ := h
    rw [hself, hsplit] at hlast
    exact hlast _ rfl fun c hc => Text.isDigit_of_mem_repr hc

theorem not_ipv6_of_count (h : text.toList.count ':' ≤ 1) : Ipv6.parse text = none := by
  cases hparse : Ipv6.parse text with
  | none => rfl
  | some groups =>
    have := (Ipv6.colons_of_parse hparse).1
    omega

/-! ## Lowercase -/

theorem toNat_toLower (c : Char) :
    c.toLower.toNat = if 65 ≤ c.toNat ∧ c.toNat ≤ 90 then c.toNat + 32 else c.toNat := by
  unfold Char.toLower
  split
  · rename_i hupper
    have hlow : 65 ≤ c.toNat := UInt32.le_iff_toNat_le.mp hupper.1
    have hhigh : c.toNat ≤ 90 := UInt32.le_iff_toNat_le.mp hupper.2
    rw [if_pos ⟨hlow, hhigh⟩]
    have hsum : (c.val + 32).toNat = (c.toNat + 32) % 4294967296 := UInt32.toNat_add c.val 32
    exact hsum.trans (Nat.mod_eq_of_lt (by omega))
  · rename_i hupper
    rw [if_neg]
    rintro ⟨hlow, hhigh⟩
    exact hupper ⟨UInt32.le_iff_toNat_le.mpr hlow, UInt32.le_iff_toNat_le.mpr hhigh⟩

theorem toLower_toLower (c : Char) : c.toLower.toLower = c.toLower := by
  rw [← Char.toNat_inj, toNat_toLower, toNat_toLower]
  split
  · rw [if_neg (by omega)]
  · rfl

/-- A character that isn't a letter is lowercase of itself only. -/
theorem toLower_eq_iff {d : Char} (h : Text.isAlphanumeric d = false ∨ Text.isDigit d = true) :
    c.toLower = d ↔ c = d := by
  have hd : ¬ (97 ≤ d.toNat ∧ d.toNat ≤ 122) ∧ ¬ (65 ≤ d.toNat ∧ d.toNat ≤ 90) := by
    rcases h with h | h
    · have hnot : ¬ Text.isAlphanumeric d = true := Bool.eq_false_iff.mp h
      rw [Text.isAlphanumeric_iff] at hnot
      omega
    · rw [Text.isDigit_iff] at h
      omega
  rw [← Char.toNat_inj, ← Char.toNat_inj, toNat_toLower]
  split
  · omega
  · rfl

theorem isAlphanumeric_toLower (c : Char) : Text.isAlphanumeric c.toLower = Text.isAlphanumeric c := by
  rw [Bool.eq_iff_iff, Text.isAlphanumeric_iff, Text.isAlphanumeric_iff, toNat_toLower]
  split
  · omega
  · rfl

theorem isDigit_toLower (c : Char) : Text.isDigit c.toLower = Text.isDigit c := by
  rw [Bool.eq_iff_iff, Text.isDigit_iff, Text.isDigit_iff, toNat_toLower]
  split
  · omega
  · rfl

theorem splitOn_map {f : Char → Char} {sep : Char} (hf : ∀ c, f c = sep ↔ c = sep) (cs : List Char) :
    (cs.map f).splitOn sep = (cs.splitOn sep).map (List.map f) := by
  induction cs with
  | nil => rfl
  | cons c cs ih =>
    rw [List.map_cons, List.splitOn_cons_eq_if_modifyHead, List.splitOn_cons_eq_if_modifyHead, ih]
    by_cases hc : c = sep
    · simp [hc, (hf sep).mpr rfl]
    · have hfc : ¬ f c = sep := fun h => hc ((hf c).mp h)
      simp only [beq_iff_eq, hc, hfc, if_false]
      cases cs.splitOn sep with
      | nil => rfl
      | cons part parts => rfl

theorem split_toLower (name : String) :
    Text.split '.' (Text.toLower name) = (Text.split '.' name).map Text.toLower := by
  have hmap : (name.toList.map Char.toLower).splitOn '.' = _ := splitOn_map (fun _ => toLower_eq_iff (.inl rfl)) _
  rw [Text.split, Text.toLower, String.toList_map, hmap, Text.split, List.map_map, List.map_map]
  refine List.map_congr_left fun cs _ => ?_
  rw [← String.toList_inj]
  simp [Text.toLower]

theorem Label.toLower {label : String} (h : Label label) : Label (Text.toLower label) := by
  obtain ⟨hne, hlen, hall, hfirst, hlast⟩ := h
  have hlist : (Text.toLower label).toList = label.toList.map Char.toLower := String.toList_map
  have hlength : (Text.toLower label).length = label.length := by
    rw [← String.length_toList, ← String.length_toList, hlist, List.length_map]
  refine ⟨by omega, by omega, ?_, ?_, ?_⟩
  · rw [hlist]
    intro _ hlower
    obtain ⟨c, hc, rfl⟩ := List.mem_map.mp hlower
    rw [isAlphanumeric_toLower, toLower_eq_iff (.inl rfl)]
    exact hall c hc
  · rw [hlist, List.head?_map]
    intro h
    obtain ⟨c, hc, heq⟩ := Option.map_eq_some_iff.mp h
    exact hfirst (hc.trans (congrArg some ((toLower_eq_iff (.inl rfl)).mp heq)))
  · rw [hlist, List.getLast?_map]
    intro h
    obtain ⟨c, hc, heq⟩ := Option.map_eq_some_iff.mp h
    exact hlast (hc.trans (congrArg some ((toLower_eq_iff (.inl rfl)).mp heq)))

theorem DnsName.toLower {text : String} (h : DnsName text) :
    DnsName (Text.toLower (undotted text)) ∧
      Text.toLower (undotted (Text.toLower (undotted text))) = Text.toLower (undotted text) := by
  obtain ⟨hne, hlen, hlabels, hlast⟩ := h
  have hlower : ∀ label ∈ Text.split '.' (Text.toLower (undotted text)), Label label := by
    rw [split_toLower]
    intro _ hmem
    obtain ⟨label, hlabel, rfl⟩ := List.mem_map.mp hmem
    exact (hlabels label hlabel).toLower
  have hself : undotted (Text.toLower (undotted text)) = Text.toLower (undotted text) := by
    refine undotted_of_last fun label hlabel => ?_
    rintro rfl
    exact absurd (hlower "" hlabel).1 (by decide)
  have hlist : (Text.toLower (undotted text)).toList = (undotted text).toList.map Char.toLower := String.toList_map
  have hlength : (Text.toLower (undotted text)).length = (undotted text).length := by
    rw [← String.length_toList, ← String.length_toList, hlist, List.length_map]
  refine ⟨⟨?_, ?_, ?_, ?_⟩, ?_⟩
  · rw [hself, hlength]
    exact hne
  · rw [hself, hlength]
    exact hlen
  · rw [hself]
    exact hlower
  · rw [hself, split_toLower]
    intro _ hlower
    rw [List.getLast?_map] at hlower
    obtain ⟨label, hlabel, rfl⟩ := Option.map_eq_some_iff.mp hlower
    refine fun hall => hlast label hlabel fun c hc => ?_
    rw [← isDigit_toLower]
    have hlist : (Text.toLower label).toList = label.toList.map Char.toLower := String.toList_map
    exact hall _ (hlist ▸ List.mem_map_of_mem hc)
  · rw [hself, ← String.toList_inj, Text.toLower, String.toList_map, hlist, List.map_map]
    exact List.map_congr_left fun c _ => toLower_toLower c

/-! ## Parsing -/

/-- The characters that an address and its port are made of. -/
def isPlain (c : Char) : Bool := Text.isAlphanumeric c || [':', '.', '-', '[', ']', '+'].contains c

theorem isPlain_of_name (h : IsNameChar c) : isPlain c = true := by
  rcases h with rfl | h | rfl
  · rfl
  · simp [isPlain, h]
  · rfl

theorem isPlain_of_address (h : Ipv6.isAddressChar c = true) : isPlain c = true := by
  simp only [Ipv6.isAddressChar, Ipv6.isHexDigit, Bool.or_eq_true, Bool.and_eq_true, decide_eq_true_eq] at h
  rcases h with (((h | h) | h) | rfl) | rfl
  · simp [isPlain, Text.isAlphanumeric, h]
  · have hle : c ≤ 'z' := Char.le_trans h.2 (show 'f' ≤ 'z' by decide)
    simp [isPlain, Text.isAlphanumeric, Text.isLower, h.1, hle]
  · have hle : c ≤ 'Z' := Char.le_trans h.2 (show 'F' ≤ 'Z' by decide)
    simp [isPlain, Text.isAlphanumeric, Text.isUpper, h.1, hle]
  · rfl
  · rfl

theorem isPlain_of_digit (h : Text.isDigit c = true) : isPlain c = true := by
  simp [isPlain, Text.isAlphanumeric, h]

theorem not_isBlank_of_plain (h : isPlain c = true) : isBlank c = false := by
  simp only [isPlain, Bool.or_eq_true, List.contains_eq_mem, decide_eq_true_eq, List.mem_cons, List.not_mem_nil,
    or_false] at h
  rcases h with h | h | h | h | h | h | h
  · have := Text.isAlphanumeric_iff.mp h
    simp only [isBlank, Bool.or_eq_false_iff, decide_eq_false_iff_not]
    omega
  all_goals
    rw [h]
    rfl

theorem not_url_of_plain (h : isPlain c = true) : "/@?#".toList.contains c = false := by
  simp only [isPlain, Bool.or_eq_true, List.contains_eq_mem, decide_eq_true_eq, List.mem_cons, List.not_mem_nil,
    or_false] at h
  rcases h with h | h | h | h | h | h | h
  · have hrange := Text.isAlphanumeric_iff.mp h
    have hne (d : Char) (hd : ¬ (48 ≤ d.toNat ∧ d.toNat ≤ 57) ∧ ¬ (97 ≤ d.toNat ∧ d.toNat ≤ 122) ∧
        ¬ (65 ≤ d.toNat ∧ d.toNat ≤ 90)) : c ≠ d := by
      rintro rfl
      omega
    simp [hne '/' (by decide), hne '@' (by decide), hne '?' (by decide), hne '#' (by decide)]
  all_goals
    rw [h]
    rfl

theorem prefix_of_splitBefore {pat cs before rest : List Char}
    (h : Text.splitBefore pat cs = some (before, rest)) : cs = before ++ rest ∧ pat <+: rest := by
  induction cs generalizing before with
  | nil =>
    obtain ⟨rfl, h⟩ := Option.ite_none_right_eq_some.mp h
    cases h
    exact ⟨rfl, List.prefix_rfl⟩
  | cons c cs ih =>
    unfold Text.splitBefore at h
    split at h
    · rename_i hprefix
      cases h
      exact ⟨rfl, List.isPrefixOf_iff_prefix.mp hprefix⟩
    · obtain ⟨⟨before', rest'⟩, hsplit, heq⟩ := Option.map_eq_some_iff.mp h
      cases heq
      obtain ⟨hcs, hpat⟩ := ih hsplit
      exact ⟨by rw [hcs]; rfl, hpat⟩

theorem parse_plain (hne : text ≠ "") (h : ∀ c ∈ text.toList, isPlain c = true) :
    parse text = parseChecked text := by
  have hblank : text.toList.any isBlank = false := List.any_eq_false.mpr fun c hc =>
    Bool.eq_false_iff.mp (not_isBlank_of_plain (h c hc))
  have hslash : (Text.splitBefore "://".toList text.toList).isSome = false := by
    cases hsplit : Text.splitBefore "://".toList text.toList with
    | none => rfl
    | some found =>
      obtain ⟨before, rest⟩ := found
      obtain ⟨htext, hpat⟩ := prefix_of_splitBefore hsplit
      have hmem : '/' ∈ text.toList := by
        rw [htext]
        exact List.mem_append_right before (hpat.subset (by decide))
      exact absurd (not_url_of_plain (h _ hmem)) (by decide)
  have hurl : isUrl text = false := by
    rw [isUrl, hslash, Bool.false_or]
    exact List.any_eq_false.mpr fun c hc => Bool.eq_false_iff.mp (not_url_of_plain (h c hc))
  unfold parse
  rw [if_neg hne, hurl, hblank]
  rfl

theorem parse_eq_ok (h : parse text = .ok a) : parseChecked text = .ok a := by
  simp only [parse, check_eq_ok] at h
  exact h.2.2.2

theorem ipAddr_v4 : IpAddr.parse text = some (.v4 n) ↔ Ipv4.parse text = some n := by
  unfold IpAddr.parse
  cases Ipv4.parse text with
  | none => simp
  | some m => simp

theorem ipAddr_v6 {groups : List Nat} :
    IpAddr.parse text = some (.v6 groups) ↔ Ipv4.parse text = none ∧ Ipv6.parse text = some groups := by
  unfold IpAddr.parse
  cases Ipv4.parse text with
  | none => simp
  | some m => simp

theorem ipAddr_none :
    IpAddr.parse text = none ↔ Ipv4.parse text = none ∧ Ipv6.parse text = none := by
  unfold IpAddr.parse
  cases Ipv4.parse text with
  | none => simp
  | some m => simp

theorem mem_ipv4 (h : Ipv4.parse text = some n) : ∀ c ∈ text.toList, IsNameChar c := by
  obtain ⟨rfl, -⟩ := Ipv4.text_of_parse h
  intro c hc
  rw [Ipv4.text, String.toList_ofList] at hc
  rcases mem_intercalate hc with hdot | ⟨cs, hcs, hc⟩
  · exact .inl (List.mem_singleton.mp hdot)
  · obtain ⟨o, -, rfl⟩ := List.mem_map.mp hcs
    exact .inr (.inl (by simp [Text.isAlphanumeric, Text.isDigit_of_mem_repr hc]))

theorem not_mem_colon {cs : List Char} (h : ∀ c ∈ cs, IsNameChar c) : ':' ∉ cs :=
  fun hmem => absurd (h ':' hmem) (by decide)

/-- A port as the code reads it. -/
def Port (p : String) (n : Nat) : Prop := IsPort p n ∨ IsPlusPort p n

theorem Port.mem {p : String} (h : Port p n) : ∀ c ∈ p.toList, isPlain c = true ∧ c ≠ ':' := by
  have hdigit {c : Char} (hc : Text.isDigit c = true) : isPlain c = true ∧ c ≠ ':' := by
    refine ⟨isPlain_of_digit hc, ?_⟩
    rintro rfl
    cases hc
  intro c hc
  rcases h with h | ⟨cs, hcs, h⟩
  · exact hdigit (h.1.2.1 c hc)
  · rw [hcs] at hc
    rcases List.mem_cons.mp hc with rfl | hc
    · exact ⟨rfl, by decide⟩
    · exact hdigit (h.2.1 c hc)

theorem Port.range {p : String} (h : Port p n) : 1 ≤ n ∧ n ≤ 65535 := by
  rcases h with h | ⟨cs, -, h⟩
  · exact h.1.2.2.2
  · exact h.2.2.2

theorem stripStart_bracket {text : String} (h : '[' ∉ text.toList) : Text.stripStart "[" text = none := by
  cases hstrip : Text.stripStart "[" text with
  | none => rfl
  | some rest =>
    rw [Text.stripStart_eq_some.mp hstrip] at h
    exact absurd (List.mem_append_left _ (by decide)) h

/-- A host without brackets. -/
structure BareHost (text : String) (host : AddressHost) : Prop where
  nonempty : text ≠ ""
  mem : ∀ c ∈ text.toList, IsNameChar c
  parsed : parseHost text = .ok host

namespace BareHost

variable {text p : String} {host : AddressHost} {n : Nat}

theorem of_ipv4 (h : Ipv4.parse text = some n) : BareHost text (.ip (.v4 n)) where
  nonempty := by
    rintro rfl
    cases h
  mem := mem_ipv4 h
  parsed := by
    rw [parseHost, ipAddr_v4.mpr h]

theorem of_name (h : DnsName text) : BareHost text (.name (Text.toLower (undotted text))) where
  nonempty := by
    rintro rfl
    have hlength := h.1
    rcases undotted_eq "" with heq | heq
    · rw [← String.length_toList, ← heq] at hlength
      cases hlength
    · simp at heq
  mem := h.mem
  parsed := by
    have hcolon : "".toList.count ':' = 0 := rfl
    have hcount : text.toList.count ':' = 0 := List.count_eq_zero.mpr (not_mem_colon h.mem)
    rw [parseHost, ipAddr_none.mpr ⟨h.not_ipv4, not_ipv6_of_count (by omega)⟩, dnsName_eq_ok.mpr ⟨h, rfl⟩]
    rfl

theorem parse (h : BareHost text host) : parse text = .ok ⟨host, none⟩ := by
  have hcolon := not_mem_colon h.mem
  have hbracket : '[' ∉ text.toList := fun hmem => absurd (h.mem '[' hmem) (by decide)
  rw [parse_plain h.nonempty fun c hc => isPlain_of_name (h.mem c hc), parseChecked, stripStart_bracket hbracket]
  have hparsed := h.parsed
  unfold parseHost at hparsed
  cases hip : IpAddr.parse text with
  | some ip =>
    rw [hip] at hparsed
    obtain rfl := Except.ok.inj hparsed
    rfl
  | none =>
    dsimp only
    rw [if_neg (by rw [List.count_eq_zero.mpr hcolon]; decide), Text.rsplitOnce_eq_none hcolon]
    dsimp only
    rw [h.parsed]
    rfl

theorem parse_port (h : BareHost text host) (hp : Port p n) :
    ApplianceAddress.parse (text ++ ":" ++ p) = .ok ⟨host, some n⟩ := by
  have hcolon := not_mem_colon h.mem
  have hcolon' : ':' ∉ p.toList := fun hmem => (hp.mem ':' hmem).2 rfl
  have hlist : (text ++ ":" ++ p).toList = text.toList ++ ':' :: p.toList := by simp
  have hcount : (text ++ ":" ++ p).toList.count ':' = 1 := by
    rw [hlist, List.count_append, List.count_cons_self, List.count_eq_zero.mpr hcolon,
      List.count_eq_zero.mpr hcolon']
  have hplain : ∀ c ∈ (text ++ ":" ++ p).toList, isPlain c = true := by
    rw [hlist]
    intro c hc
    rcases List.mem_append.mp hc with hc | hc
    · exact isPlain_of_name (h.mem c hc)
    · rcases List.mem_cons.mp hc with rfl | hc
      · rfl
      · exact (hp.mem c hc).1
  have hne : text ++ ":" ++ p ≠ "" := by
    intro hempty
    rw [hempty] at hcount
    cases hcount
  have hv4 : Ipv4.parse (text ++ ":" ++ p) = none := by
    cases hparse : Ipv4.parse (text ++ ":" ++ p) with
    | none => rfl
    | some m => exact absurd (by rw [hlist]; simp) (not_mem_colon (mem_ipv4 hparse))
  have hip := ipAddr_none.mpr ⟨hv4, not_ipv6_of_count hcount.le⟩
  have hstrip : Text.stripStart "[" (text ++ ":" ++ p) = none := by
    cases hstrip : Text.stripStart "[" (text ++ ":" ++ p) with
    | none => rfl
    | some rest =>
      exfalso
      have hstart := Text.stripStart_eq_some.mp hstrip
      rw [hlist] at hstart
      obtain ⟨c, cs, htext⟩ := List.exists_cons_of_ne_nil (mt String.toList_eq_nil_iff.mp h.nonempty)
      rw [htext] at hstart
      obtain rfl := (List.cons.inj hstart).1
      exact absurd (h.mem '[' (htext ▸ List.mem_cons_self)) (by decide)
  rw [parse_plain hne hplain, parseChecked, hstrip, hip]
  dsimp only
  rw [if_neg (by omega), Text.rsplitOnce_eq_some.mpr ⟨hlist, hcolon'⟩]
  dsimp only
  rw [parsePort_eq_ok.mpr hp, h.parsed]
  rfl

end BareHost

theorem parseAfter_eq_ok {after : String} {port : Option Nat} : parseAfter after = .ok port ↔
    (after = "" ∧ port = none) ∨ ∃ p n, after = ":" ++ p ∧ Port p n ∧ port = some n := by
  unfold parseAfter
  split
  · rename_i hempty
    subst hempty
    constructor
    · rintro h
      exact .inl ⟨rfl, (Except.ok.inj h).symm⟩
    · rintro (⟨-, rfl⟩ | ⟨p, n, hp, -⟩)
      · rfl
      · have := congrArg String.toList hp
        simp at this
  · rename_i hne
    simp only [bind_eq_ok, ofOption_eq_ok, Text.stripStart_eq_some, parsePort_eq_ok, pure_eq_ok, hne, false_and,
      false_or]
    constructor
    · rintro ⟨p, hp, n, hport, rfl⟩
      exact ⟨p, n, String.toList_inj.mp (by simpa using hp), hport, rfl⟩
    · rintro ⟨p, n, rfl, hport, rfl⟩
      exact ⟨p, String.toList_append, n, hport, rfl⟩

/-- A bracketed IPv6 address and what follows it. -/
theorem parse_bracketed {ip after : String} {groups : List Nat} {port : Option Nat}
    (hip : Ipv6.parse ip = some groups) (hafter : parseAfter after = .ok port) :
    parse ("[" ++ ip ++ "]" ++ after) = .ok ⟨.ip (.v6 groups), port⟩ := by
  have hlist : ("[" ++ ip ++ "]" ++ after).toList = '[' :: (ip.toList ++ ']' :: after.toList) := by simp
  have hmem := (Ipv6.colons_of_parse hip).2
  have hafterPlain : ∀ c ∈ after.toList, isPlain c = true := by
    rcases parseAfter_eq_ok.mp hafter with ⟨rfl, -⟩ | ⟨p, n, rfl, hp, -⟩
    · exact List.forall_mem_nil _
    · intro c hc
      rw [String.toList_append] at hc
      rcases List.mem_append.mp hc with hc | hc
      · rw [List.mem_singleton.mp hc]
        rfl
      · exact (hp.mem c hc).1
  have hplain : ∀ c ∈ ("[" ++ ip ++ "]" ++ after).toList, isPlain c = true := by
    rw [hlist]
    intro c hc
    rcases List.mem_cons.mp hc with rfl | hc
    · rfl
    · rcases List.mem_append.mp hc with hc | hc
      · exact isPlain_of_address (hmem c hc)
      · rcases List.mem_cons.mp hc with rfl | hc
        · rfl
        · exact hafterPlain c hc
  have hne : "[" ++ ip ++ "]" ++ after ≠ "" := by
    intro hempty
    rw [hempty] at hlist
    cases hlist
  have hstrip : Text.stripStart "[" ("[" ++ ip ++ "]" ++ after) = some (ip ++ "]" ++ after) :=
    Text.stripStart_eq_some.mpr (by simp)
  have hsplit : Text.splitOnce ']' (ip ++ "]" ++ after) = some (ip, after) :=
    Text.splitOnce_eq_some.mpr ⟨by simp, fun h => absurd (hmem ']' h) (by decide)⟩
  rw [parse_plain hne hplain, parseChecked, hstrip]
  dsimp only
  rw [hsplit, ofOption_some, ok_bind]
  dsimp only
  rw [hip, ofOption_some, ok_bind, hafter]
  rfl

theorem parse_of_parses (h : Parses Port text a) : parse text = .ok a := by
  cases h with
  | ipv6 h =>
    obtain ⟨hcount, hmem⟩ := Ipv6.colons_of_parse h
    have hne : text ≠ "" := by
      rintro rfl
      exact absurd hcount (by decide)
    have hbracket : '[' ∉ text.toList := fun hin => absurd (hmem '[' hin) (by decide)
    have hv4 : Ipv4.parse text = none := by
      cases hparse : Ipv4.parse text with
      | none => rfl
      | some m =>
        have := List.count_eq_zero.mpr (not_mem_colon (mem_ipv4 hparse))
        omega
    rw [parse_plain hne fun c hc => isPlain_of_address (hmem c hc), parseChecked, stripStart_bracket hbracket,
      ipAddr_v6.mpr ⟨hv4, h⟩]
  | host h =>
    cases h with
    | bracketed h =>
      have hparse := parse_bracketed h (show parseAfter "" = .ok none from rfl)
      rwa [String.append_empty] at hparse
    | ipv4 h => exact (BareHost.of_ipv4 h).parse
    | name h => exact (BareHost.of_name h).parse
  | hostPort h hp =>
    cases h with
    | bracketed h =>
      have hparse := parse_bracketed h (parseAfter_eq_ok.mpr (.inr ⟨_, _, rfl, hp, rfl⟩))
      rwa [← String.append_assoc] at hparse
    | ipv4 h => exact (BareHost.of_ipv4 h).parse_port hp
    | name h => exact (BareHost.of_name h).parse_port hp

theorem hostText_of_ok {host : String} {h : AddressHost} (hcount : host.toList.count ':' ≤ 1)
    (hparse : parseHost host = .ok h) : HostText host h := by
  unfold parseHost at hparse
  split at hparse
  · rename_i ip hip
    obtain rfl := Except.ok.inj hparse
    cases ip with
    | v4 n => exact .ipv4 (ipAddr_v4.mp hip)
    | v6 groups =>
      have hsome := (ipAddr_v6.mp hip).2
      rw [not_ipv6_of_count hcount] at hsome
      cases hsome
  · obtain ⟨name, hname, rfl⟩ := map_eq_ok.mp hparse
    obtain ⟨hdns, rfl⟩ := dnsName_eq_ok.mp hname
    exact .name hdns

theorem parses_of_ok (h : parseChecked text = .ok a) : Parses Port text a := by
  unfold parseChecked at h
  split at h
  · rename_i rest hrest
    simp only [bind_eq_ok, ofOption_eq_ok, pure_eq_ok] at h
    obtain ⟨⟨ip, after⟩, hsplit, groups, hip, port, hafter, rfl⟩ := h
    obtain ⟨hrest', -⟩ := Text.splitOnce_eq_some.mp hsplit
    have htext : text = "[" ++ ip ++ "]" ++ after := by
      rw [← String.toList_inj, Text.stripStart_eq_some.mp hrest, hrest']
      simp
    subst htext
    rcases parseAfter_eq_ok.mp hafter with ⟨rfl, rfl⟩ | ⟨p, n, rfl, hp, rfl⟩
    · rw [String.append_empty]
      exact .host (.bracketed hip)
    · rw [← String.append_assoc]
      exact .hostPort (.bracketed hip) hp
  · split at h
    · rename_i ip hip
      obtain rfl := Except.ok.inj h
      cases ip with
      | v4 n => exact .host (.ipv4 (ipAddr_v4.mp hip))
      | v6 groups => exact .ipv6 (ipAddr_v6.mp hip).2
    · split at h
      · cases h
      · rename_i hcount
        split at h
        · rename_i host p hsplit
          simp only [bind_eq_ok, pure_eq_ok] at h
          obtain ⟨n, hport, found, hhost, rfl⟩ := h
          obtain ⟨hlist, -⟩ := Text.rsplitOnce_eq_some.mp hsplit
          have htext : text = host ++ ":" ++ p := by
            rw [← String.toList_inj, hlist]
            simp
          subst htext
          rw [hlist, List.count_append, List.count_cons_self] at hcount
          exact .hostPort (hostText_of_ok (by omega) hhost) (parsePort_eq_ok.mp hport)
        · simp only [bind_eq_ok, pure_eq_ok] at h
          obtain ⟨found, hhost, rfl⟩ := h
          exact .host (hostText_of_ok (by omega) hhost)

theorem parse_iff : parse text = .ok a ↔ Parses Port text a :=
  ⟨fun h => parses_of_ok (parse_eq_ok h), parse_of_parses⟩

/-! ## Showing -/

section

variable {show6 : List Nat → String}

/-- What is shown of an address is a text of it, if that is so of IPv6 addresses. -/
theorem parses_display (hshow : ∀ text groups, Ipv6.parse text = some groups → Ipv6.parse (show6 groups) = some groups)
    (h : Parses Port text a) : Parses Port (display show6 a) a := by
  cases h with
  | ipv6 h => exact .ipv6 (hshow _ _ h)
  | host h =>
    cases h with
    | bracketed h => exact .ipv6 (hshow _ _ h)
    | ipv4 h => exact .host (.ipv4 (Ipv4.parse_text (Ipv4.text_of_parse h).2))
    | name h =>
      have hname := HostText.name h.toLower.1
      rw [h.toLower.2] at hname
      exact .host hname
  | hostPort h hp =>
    have hport : Port _ _ := .inl (isPort_repr hp.range.1 hp.range.2)
    cases h with
    | bracketed h => exact .hostPort (.bracketed (hshow _ _ h)) hport
    | ipv4 h => exact .hostPort (.ipv4 (Ipv4.parse_text (Ipv4.text_of_parse h).2)) hport
    | name h =>
      have hname := HostText.name h.toLower.1
      rw [h.toLower.2] at hname
      exact .hostPort hname hport

/-! ## The texts that are taken -/

theorem not_mem_plus (h : Parses IsPort text a) : '+' ∉ text.toList := by
  have hip {ip : String} {groups : List Nat} (hip : Ipv6.parse ip = some groups) : '+' ∉ ip.toList :=
    fun hmem => absurd ((Ipv6.colons_of_parse hip).2 '+' hmem) (by decide)
  have hname {cs : List Char} (hcs : ∀ c ∈ cs, IsNameChar c) : '+' ∉ cs :=
    fun hmem => absurd (hcs '+' hmem) (by decide)
  have hhost {text : String} {host : AddressHost} (h : HostText text host) : '+' ∉ text.toList := by
    cases h with
    | bracketed h => simpa using hip h
    | ipv4 h => exact hname (mem_ipv4 h)
    | name h => exact hname h.mem
  cases h with
  | ipv6 h => exact hip h
  | host h => exact hhost h
  | @hostPort host p a n h hp =>
    have hport : '+' ∉ p.toList := fun hmem => absurd (hp.1.2.1 '+' hmem) (by decide)
    simpa using ⟨hhost h, hport⟩

theorem plusPort_taken (h : PlusPort text) : (∃ a, parse text = .ok a) ∧ ¬ Accepted text := by
  obtain ⟨host, p, a, n, hhost, hp, rfl⟩ := h
  refine ⟨⟨_, parse_of_parses (.hostPort hhost (.inr hp))⟩, ?_⟩
  rintro ⟨a, ha⟩
  obtain ⟨cs, hcs, -⟩ := hp
  exact not_mem_plus ha (by simp [hcs])

theorem accepted_of_parses (h : Parses Port text a) (hplus : ¬ PlusPort text) : Accepted text := by
  cases h with
  | ipv6 h => exact ⟨_, .ipv6 h⟩
  | host h => exact ⟨_, .host h⟩
  | hostPort h hp =>
    rcases hp with hp | hp
    · exact ⟨_, .hostPort h hp⟩
    · exact absurd ⟨_, _, _, _, h, hp, rfl⟩ hplus

/-- What is shown of an address is read as that address. A text is taken exactly if it is an address and
an optional port, but for the texts whose port has a plus sign, which all are taken. -/
theorem addresses_taken
    (hshow : ∀ text groups, Ipv6.parse text = some groups → Ipv6.parse (show6 groups) = some groups) :
    (∀ text a, parse text = .ok a → parse (display show6 a) = .ok a) ∧
      ∀ text, ((∃ a, parse text = .ok a) ↔ Accepted text) ↔ ¬ PlusPort text := by
  refine ⟨fun text a h => parse_of_parses (parses_display hshow (parse_iff.mp h)), fun text => ⟨?_, ?_⟩⟩
  · intro h hplus
    obtain ⟨htaken, hnot⟩ := plusPort_taken hplus
    exact hnot (h.mp htaken)
  · intro hplus
    constructor
    · rintro ⟨a, ha⟩
      exact accepted_of_parses (parse_iff.mp ha) hplus
    · rintro ⟨a, ha⟩
      cases ha with
      | ipv6 h => exact ⟨_, parse_of_parses (.ipv6 h)⟩
      | host h => exact ⟨_, parse_of_parses (.host h)⟩
      | hostPort h hp => exact ⟨_, parse_of_parses (.hostPort h (.inl hp))⟩

end

/-- A port with a plus sign, and with a zero after it. -/
theorem plus_port_taken : ¬ ∀ text, (∃ a, parse text = .ok a) ↔ Accepted text := by
  intro h
  have htaken : parse "backup.example.org:+08445" = .ok ⟨.name "backup.example.org", some 8445⟩ := by
    decide +kernel
  obtain ⟨a, ha⟩ := (h _).mp ⟨_, htaken⟩
  exact not_mem_plus ha (by decide)

/-- Some text of an address, and the usual one of `::1`. -/
noncomputable def someText (groups : List Nat) : String :=
  open Classical in
  if groups = [0, 0, 0, 0, 0, 0, 0, 1] then "::1"
  else if h : ∃ text, Ipv6.parse text = some groups then h.choose else ""

theorem someText_parse (text : String) (groups : List Nat) (h : Ipv6.parse text = some groups) :
    Ipv6.parse (someText groups) = some groups := by
  unfold someText
  split
  · rename_i heq
    rw [heq]
    decide
  · have hsome : ∃ text, Ipv6.parse text = some groups := ⟨text, h⟩
    rw [dif_pos hsome]
    exact hsome.choose_spec

theorem addresses_taken_loopback :
    parse (display someText ⟨.ip (.v6 [0, 0, 0, 0, 0, 0, 0, 1]), some 9445⟩) =
      .ok ⟨.ip (.v6 [0, 0, 0, 0, 0, 0, 0, 1]), some 9445⟩ :=
  (addresses_taken someText_parse).1 "[::1]:9445" _ (by rfl)

end ApplianceAddress

end Bmac.Core
