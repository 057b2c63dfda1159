import Bmac.Core.Text

/-!
# IPv4 addresses

An address is its 32-bit number. `Ipv4Addr::from_str` of Rust and `ipaddress.IPv4Address` of Python
read the same texts: four decimal numbers without leading zeros, so that an address has one text
(`text_of_parse`). `Network` and `ipNetwork`, `ipInterface` are Python's.
-/

namespace Bmac.Core

namespace Ipv4

/-- `_parse_octet`. -/
def octet (cs : List Char) : Option Nat :=
  if cs ≠ [] ∧ cs.all Text.isDigit ∧ cs.length ≤ 3 ∧ (cs = ['0'] ∨ cs.head? ≠ some '0') ∧
      Text.decimal cs ≤ 255 then
    some (Text.decimal cs)
  else none

def number (a b c d : Nat) : Nat := ((a * 256 + b) * 256 + c) * 256 + d

def parse (s : String) : Option Nat :=
  match s.toList.splitOn '.' with
  | [a, b, c, d] => do return number (← octet a) (← octet b) (← octet c) (← octet d)
  | _ => none

def octets (n : Nat) : List Nat := [n / 2 ^ 24, n / 2 ^ 16 % 256, n / 2 ^ 8 % 256, n % 256]

def text (n : Nat) : String :=
  String.ofList (['.'].intercalate ((octets n).map fun o => o.repr.toList))

theorem octet_repr : ∀ n < 256, octet n.repr.toList = some n := by
  have hdigits : ∀ n < 256, octet (Nat.toDigits 10 n) = some n := by decide +kernel
  intro n hn
  rw [show n.repr.toList = Nat.toDigits 10 n from String.toList_ofList]
  exact hdigits n hn

theorem octet_eq_some {cs : List Char} {n : Nat} :
    octet cs = some n ↔ cs = n.repr.toList ∧ n ≤ 255 := by
  constructor
  · intro h
    unfold octet at h
    split at h
    · rename_i hc
      obtain ⟨hne, hall, -, hzero, hle⟩ := hc
      cases h
      exact ⟨(Text.repr_decimal hne (List.all_eq_true.mp hall) hzero).symm, hle⟩
    · cases h
  · rintro ⟨rfl, h⟩
    exact octet_repr n (by omega)

theorem octets_number {a b c d : Nat} (hb : b ≤ 255) (hc : c ≤ 255) (hd : d ≤ 255) :
    octets (number a b c d) = [a, b, c, d] := by
  simp only [octets, number]
  congr 1
  · omega
  congr 1
  · omega
  congr 1
  · omega
  congr 1
  omega

theorem number_octets (n : Nat) :
    number (n / 2 ^ 24) (n / 2 ^ 16 % 256) (n / 2 ^ 8 % 256) (n % 256) = n := by
  simp only [number]
  omega

theorem not_dot_mem_repr (n : Nat) : '.' ∉ n.repr.toList := by
  intro h
  have := Text.isDigit_of_mem_repr h
  exact absurd this (by decide)

theorem splitOn_text (n : Nat) :
    (text n).toList.splitOn '.' = (octets n).map fun o => o.repr.toList := by
  rw [text, String.toList_ofList]
  refine List.splitOn_intercalate '.' ?_ ?_
  · intro l hl
    obtain ⟨o, -, rfl⟩ := List.mem_map.mp hl
    exact not_dot_mem_repr o
  · simp [octets]

theorem parse_text {n : Nat} (h : n < 2 ^ 32) : parse (text n) = some n := by
  have ho (o : Nat) (ho : o < 256) : octet o.repr.toList = some o := octet_repr o ho
  unfold parse
  rw [splitOn_text]
  simp only [octets, List.map_cons, List.map_nil]
  rw [ho _ (by omega), ho _ (by omega), ho _ (by omega), ho _ (by omega)]
  simp only [Option.bind_eq_bind, Option.bind_some, number_octets, Option.pure_def]

theorem text_of_parse {s : String} {n : Nat} (h : parse s = some n) : text n = s ∧ n < 2 ^ 32 := by
  unfold parse at h
  split at h
  · rename_i a b c d heq
    simp only [Option.bind_eq_bind, Option.pure_def, Option.bind_eq_some_iff,
      Option.some.injEq] at h
    obtain ⟨a', ha, b', hb, c', hc, d', hd, rfl⟩ := h
    obtain ⟨rfl, hla⟩ := octet_eq_some.mp ha
    obtain ⟨rfl, hlb⟩ := octet_eq_some.mp hb
    obtain ⟨rfl, hlc⟩ := octet_eq_some.mp hc
    obtain ⟨rfl, hld⟩ := octet_eq_some.mp hd
    constructor
    · have hs : ['.'].intercalate (s.toList.splitOn '.') = s.toList :=
        List.intercalate_splitOn '.'
      rw [text, octets_number hlb hlc hld]
      simp only [List.map_cons, List.map_nil]
      rw [← heq, hs, String.ofList_toList]
    · simp only [number]
      omega
  · cases h

end Ipv4

/-- `IPv4Network`, whose address has no host bits. -/
structure Network where
  address : Nat
  len : Nat
  deriving DecidableEq

namespace Network

/-- `num_addresses`. -/
def size (net : Network) : Nat := 2 ^ (32 - net.len)

/-- `in`. -/
def contains (net : Network) (ip : Nat) : Bool := ip - ip % net.size = net.address

def around (ip len : Nat) : Network := ⟨ip - ip % 2 ^ (32 - len), len⟩

def text (net : Network) : String := s!"{Ipv4.text net.address}/{net.len}"

end Network

/-- The length of a netmask, or of a hostmask, as `_make_netmask` reads it. -/
def maskLength (mask : Nat) : Option Nat :=
  ((List.range 33).find? fun len => mask = 2 ^ 32 - 2 ^ (32 - len)) <|>
    ((List.range 33).find? fun len => mask + 1 = 2 ^ (32 - len))

/-- A prefix length: a number up to 32, or a mask. -/
def prefixLength (s : String) : Option Nat :=
  if s.toList ≠ [] ∧ s.toList.all Text.isDigit then
    if Text.decimal s.toList ≤ 32 then some (Text.decimal s.toList) else none
  else (Ipv4.parse s).bind maskLength

/-- `ip_interface`: an address, and the length of its network. -/
def ipInterface (s : String) : Option (Nat × Nat) :=
  match Text.split '/' s with
  | [a] => do return (← Ipv4.parse a, 32)
  | [a, len] => do return (← Ipv4.parse a, ← prefixLength len)
  | _ => none

/-- `ip_network(value, strict=True)`. -/
def ipNetwork (s : String) : Option Network := do
  let (ip, len) ← ipInterface s
  if ip % 2 ^ (32 - len) = 0 then some ⟨ip, len⟩ else none

end Bmac.Core
