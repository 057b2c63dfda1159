import Bmac.Core.Text

/-!
# Identifiers

`bmac-core/src/ids.rs`. A UUID is its 128-bit number, whose order is that of its bytes.
-/

namespace Bmac.Core

abbrev Uuid := Fin (2 ^ 128)

instance Uuid.neZero : NeZero (2 ^ 128) := ⟨by decide⟩

instance Uuid.lawfulBEq : LawfulBEq Uuid := inferInstance

/-- Lowercase and hyphenated. -/
def Uuid.text (id : Uuid) : String :=
  let n := id.val
  Text.join "-" [Text.hex 8 (n / 2 ^ 96), Text.hex 4 (n / 2 ^ 80), Text.hex 4 (n / 2 ^ 64),
    Text.hex 4 (n / 2 ^ 48), Text.hex 12 n]

abbrev JobId := Uuid

abbrev SnapshotGuid := UInt64

abbrev OperationId := String

/-- A host slot, written `moxN`. -/
structure HostSlot where
  number : Nat
  range : 1 ≤ number ∧ number ≤ 32
  deriving DecidableEq

theorem HostSlot.range_one : 1 ≤ 1 ∧ 1 ≤ 32 := by decide

theorem HostSlot.range_two : 1 ≤ 2 ∧ 2 ≤ 32 := by decide

def HostSlot.new (number : Nat) : Option HostSlot :=
  if h : 1 ≤ number ∧ number ≤ 32 then some ⟨number, h⟩ else none

def HostSlot.parse (text : String) : Option HostSlot := do
  let digits ← Text.stripStart "mox" text
  if !Text.positiveDecimal digits || Text.len digits > 2 then none
  else HostSlot.new (Text.decimal digits.toList)

def HostSlot.text (host : HostSlot) : String := s!"mox{host.number}"

instance : ToString HostSlot := ⟨HostSlot.text⟩

/-- A managed guest: production `prodN`, or staging `stageMprodN`, the M-th copy of `prodN`. -/
inductive GuestName where
  | production (number : Nat)
  | staging (number source : Nat)
  deriving DecidableEq

namespace GuestName

def isProduction : GuestName → Bool
  | production _ => true
  | staging _ _ => false

/-- `u32::from_str` on the digits of a positive number. -/
def number (digits : String) : Option Nat :=
  let n := Text.decimal digits.toList
  if Text.positiveDecimal digits && n < 2 ^ 32 then some n else none

def parseProd (text : String) : Option Nat := do
  number (← Text.stripStart "prod" text)

def parse (text : String) : Option GuestName :=
  match parseProd text with
  | some n => some (.production n)
  | none => do
    let rest ← Text.stripStart "stage" text
    let (digits, source) ← Text.splitBefore "prod".toList rest.toList
    return .staging (← number (String.ofList digits)) (← parseProd (String.ofList source))

def text : GuestName → String
  | production number => s!"prod{number}"
  | staging number source => s!"stage{number}prod{source}"

instance : ToString GuestName := ⟨text⟩

end GuestName

end Bmac.Core
