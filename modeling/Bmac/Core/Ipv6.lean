import Bmac.Core.Ipv4

/-!
# IPv6 addresses

`Ipv6Addr::from_str` of Rust. An address is its eight groups; the last two may be written as an IPv4
address, and `::` stands for one group of zero or more. A text that is one has only hexadecimal digits,
colons and dots, and two colons or more (`colons_of_parse`).
-/

namespace Bmac.Core.Ipv6

def isHexDigit (c : Char) : Bool := Text.isDigit c || ('a' ≤ c && c ≤ 'f') || ('A' ≤ c && c ≤ 'F')

def hexValue (c : Char) : Nat :=
  if Text.isDigit c then c.toNat - 48 else if 'a' ≤ c then c.toNat - 87 else c.toNat - 55

/-- A group: a number of at most four hexadecimal digits. -/
def readGroup (cs : List Char) : Option (Nat × List Char) :=
  let digits := cs.takeWhile isHexDigit
  if digits ≠ [] ∧ digits.length ≤ 4 then
    some (digits.foldl (fun n c => 16 * n + hexValue c) 0, cs.dropWhile isHexDigit)
  else none

def readOctet (cs : List Char) : Option (Nat × List Char) :=
  (Ipv4.octet (cs.takeWhile Text.isDigit)).map fun n => (n, cs.dropWhile Text.isDigit)

/-- What follows a separator. -/
def skip (sep : Char) : List Char → Option (List Char)
  | [] => none
  | c :: cs => if c = sep then some cs else none

/-- An IPv4 address as two groups. -/
def readIpv4 (cs : List Char) : Option (List Nat × List Char) := do
  let (a, cs) ← readOctet cs
  let (b, cs) ← readOctet (← skip '.' cs)
  let (c, cs) ← readOctet (← skip '.' cs)
  let (d, cs) ← readOctet (← skip '.' cs)
  return ([a * 256 + b, c * 256 + d], cs)

/-- What is read after a colon, or at once when it is the first. -/
def separated {α : Type} (first : Bool) (read : List Char → Option α) (cs : List Char) : Option α :=
  if first then read cs else (skip ':' cs).bind read

/-- Groups while there are some, at most so many, and whether an IPv4 address ends them. -/
def readGroups : Nat → Bool → List Char → List Nat × Bool × List Char
  | 0, _, cs => ([], false, cs)
  | left + 1, first, cs =>
    match if left = 0 then none else separated first readIpv4 cs with
    | some (groups, rest) => (groups, true, rest)
    | none =>
      match separated first readGroup cs with
      | none => ([], false, cs)
      | some (group, rest) =>
        let (groups, ipv4, rest) := readGroups left false rest
        (group :: groups, ipv4, rest)

def parse (text : String) : Option (List Nat) :=
  let whole (groups : List Nat) (rest : List Char) := if rest = [] then some groups else none
  let (head, ipv4, rest) := readGroups 8 true text.toList
  if head.length = 8 then whole head rest
  else if ipv4 then none
  else do
    let rest ← skip ':' (← skip ':' rest)
    let (tail, _, rest) := readGroups (7 - head.length) true rest
    whole (head ++ List.replicate (8 - head.length - tail.length) 0 ++ tail) rest

/-! ## What a text is made of -/

theorem skip_eq_some {sep : Char} {cs rest : List Char} : skip sep cs = some rest ↔ cs = sep :: rest := by
  cases cs with
  | nil => simp [skip]
  | cons c cs => simp [skip]

def isAddressChar (c : Char) : Bool := isHexDigit c || c = ':' || c = '.'

/-- `rest` is left of `cs` when some characters of an address are read, so many colons among them. -/
def Reads (colons : Nat) (cs rest : List Char) : Prop :=
  ∃ used, cs = used ++ rest ∧ (∀ c ∈ used, isAddressChar c = true) ∧ colons ≤ used.count ':'

namespace Reads

variable {m n : Nat} {as bs cs : List Char}

theorem refl (cs : List Char) : Reads 0 cs cs := ⟨[], rfl, List.forall_mem_nil _, Nat.zero_le _⟩

theorem trans (h : Reads m as bs) (h' : Reads n bs cs) : Reads (m + n) as cs := by
  obtain ⟨used, rfl, hused, hm⟩ := h
  obtain ⟨used', rfl, hused', hn⟩ := h'
  refine ⟨used ++ used', (List.append_assoc used used' cs).symm, ?_, ?_⟩
  · exact fun c hc => (List.mem_append.mp hc).elim (hused c) (hused' c)
  · rw [List.count_append]
    exact Nat.add_le_add hm hn

theorem mono (h : Reads m as bs) (hle : n ≤ m) : Reads n as bs := by
  obtain ⟨used, heq, hused, hm⟩ := h
  exact ⟨used, heq, hused, Nat.le_trans hle hm⟩

theorem span {p : Char → Bool} (hp : ∀ c, p c = true → isAddressChar c = true) (cs : List Char) :
    Reads 0 cs (cs.dropWhile p) :=
  ⟨cs.takeWhile p, List.takeWhile_append_dropWhile.symm, fun c hc => hp c (List.all_eq_true.mp List.all_takeWhile c hc),
    Nat.zero_le _⟩

theorem skip {sep : Char} (hsep : isAddressChar sep = true) (h : Ipv6.skip sep as = some bs) : Reads 0 as bs :=
  ⟨[sep], skip_eq_some.mp h, List.forall_mem_singleton.mpr hsep, Nat.zero_le _⟩

theorem colon (h : Ipv6.skip ':' as = some bs) : Reads 1 as bs :=
  ⟨[':'], skip_eq_some.mp h, List.forall_mem_singleton.mpr rfl, Nat.le_refl 1⟩

theorem group {group : Nat} (h : readGroup as = some (group, bs)) : Reads 0 as bs := by
  obtain ⟨-, h⟩ := Option.ite_none_right_eq_some.mp h
  obtain ⟨-, rfl⟩ := Prod.mk.inj (Option.some.inj h)
  exact span (fun c hc => by simp [isAddressChar, hc]) as

theorem octet {n : Nat} (h : readOctet as = some (n, bs)) : Reads 0 as bs := by
  obtain ⟨m, -, h⟩ := Option.map_eq_some_iff.mp h
  obtain ⟨-, rfl⟩ := Prod.mk.inj h
  exact span (fun c hc => by simp [isAddressChar, isHexDigit, hc]) as

theorem ipv4 {groups : List Nat} (h : readIpv4 as = some (groups, bs)) : Reads 0 as bs ∧ groups.length = 2 := by
  simp only [readIpv4, Option.bind_eq_bind, Option.bind_eq_some_iff, Option.pure_def, Option.some.injEq,
    Prod.mk.injEq, Prod.exists] at h
  obtain ⟨a, as1, ha, bs1, hdot1, b, as2, hb, bs2, hdot2, c, as3, hc, bs3, hdot3, d, as4, hd, rfl, rfl⟩ := h
  have hreads := (octet ha).trans ((skip rfl hdot1).trans ((octet hb).trans ((skip rfl hdot2).trans
    ((octet hc).trans ((skip rfl hdot3).trans (octet hd))))))
  exact ⟨hreads, rfl⟩

/-- A part after its colon. -/
theorem separated {α : Type} {first : Bool} {read : List Char → Option (α × List Char)} {a : α}
    (hread : ∀ {as bs}, read as = some (a, bs) → Reads 0 as bs)
    (h : Ipv6.separated first read as = some (a, bs)) : Reads (if first then 0 else 1) as bs := by
  unfold Ipv6.separated at h
  cases first with
  | true => exact hread h
  | false =>
    obtain ⟨cs, hskip, h⟩ := Option.bind_eq_some_iff.mp h
    exact (colon hskip).trans (hread h)

end Reads

/-- All groups but two have a colon before them, when the first has none and the last two may be an
IPv4 address. -/
theorem reads_readGroups (left : Nat) (first : Bool) (cs : List Char) :
    ∃ colons, Reads colons cs (readGroups left first cs).2.2 ∧
      (readGroups left first cs).1.length ≤ colons + 1 + if first then 1 else 0 := by
  induction left generalizing first cs with
  | zero => exact ⟨0, Reads.refl cs, Nat.zero_le _⟩
  | succ left ih =>
    unfold readGroups
    split
    · rename_i groups rest hipv4
      obtain ⟨-, hipv4⟩ := Option.ite_none_left_eq_some.mp hipv4
      have hlength : groups.length = 2 := by
        unfold separated at hipv4
        split at hipv4
        · exact (Reads.ipv4 hipv4).2
        · obtain ⟨ds, -, hread⟩ := Option.bind_eq_some_iff.mp hipv4
          exact (Reads.ipv4 hread).2
      refine ⟨_, Reads.separated (fun h => (Reads.ipv4 h).1) hipv4, ?_⟩
      dsimp only
      rw [hlength]
      cases first
      · exact Nat.le_refl 2
      · exact Nat.le_refl 2
    · split
      · exact ⟨0, Reads.refl cs, Nat.zero_le _⟩
      · rename_i group rest hgroup
        obtain ⟨colons, hrest, hlength⟩ := ih false rest
        refine ⟨_, (Reads.separated Reads.group hgroup).trans hrest, ?_⟩
        dsimp only at hlength ⊢
        rw [List.length_cons]
        cases first
        · simp only [Bool.false_eq_true, if_false] at hlength ⊢
          omega
        · simp only [Bool.false_eq_true, if_false, if_true] at hlength ⊢
          omega

/-- An address has two colons or more, and only its own characters. -/
theorem reads_of_parse {text : String} {ip : List Nat} (h : parse text = some ip) : Reads 2 text.toList [] := by
  obtain ⟨colons, hhead, hlength⟩ := reads_readGroups 8 true text.toList
  unfold parse at h
  dsimp only at h
  split at h
  · rename_i height
    obtain ⟨hnil, -⟩ := Option.ite_none_right_eq_some.mp h
    rw [hnil] at hhead
    rw [height, if_pos rfl] at hlength
    exact hhead.mono (by omega)
  · split at h
    · cases h
    · simp only [Option.bind_eq_bind, Option.bind_eq_some_iff] at h
      obtain ⟨as, hfirst, bs, hsecond, h⟩ := h
      obtain ⟨hnil, -⟩ := Option.ite_none_right_eq_some.mp h
      obtain ⟨colons', htail, -⟩ := reads_readGroups (7 - (readGroups 8 true text.toList).1.length) true bs
      rw [hnil] at htail
      exact (hhead.trans ((Reads.colon hfirst).trans ((Reads.colon hsecond).trans htail))).mono (by omega)

theorem colons_of_parse {text : String} {ip : List Nat} (h : parse text = some ip) :
    2 ≤ text.toList.count ':' ∧ ∀ c ∈ text.toList, isAddressChar c = true := by
  obtain ⟨used, heq, hused, hcount⟩ := reads_of_parse h
  rw [List.append_nil] at heq
  rw [heq]
  exact ⟨hcount, hused⟩

example : parse "2001:db8::1" = some [0x2001, 0xdb8, 0, 0, 0, 0, 0, 1] := by decide

end Bmac.Core.Ipv6
