import CilWeaver.Error
import CilWeaver.Text.Blank

/-!
Times of day in whole seconds.
-/

namespace CilWeaver

structure TimeOfDay where
  seconds : Nat
  seconds_lt : seconds < 86400
deriving DecidableEq

namespace TimeOfDay

def secondsPerDay : Nat := 86400

def midnight : TimeOfDay := ⟨0, by decide⟩

instance : Inhabited TimeOfDay := ⟨midnight⟩

def ofSeconds (seconds : Nat) : Result TimeOfDay :=
  if h : seconds < 86400 then .ok ⟨seconds, h⟩ else .error (.timeOfDay seconds)

/-- The largest number of seconds that a failure reports. -/
def maxReported : Nat := 2 ^ 32 - 1

/-- The time with the given hours, minutes and seconds, each of which must be in its range. -/
def ofHms (hours minutes seconds : Nat) : Result TimeOfDay :=
  if h : hours < 24 ∧ minutes < 60 ∧ seconds < 60 then
    .ok ⟨hours * 3600 + minutes * 60 + seconds, by omega⟩
  else .error (.timeOfDay (min (hours * 3600 + minutes * 60 + seconds) maxReported))

/-- The number that woven methods answer. -/
def constant (t : TimeOfDay) : Int32 := .ofNat t.seconds

def text (t : TimeOfDay) : String :=
  let two (n : Nat) : String := Text.decimal n 2
  ":".intercalate [two (t.seconds / 3600), two (t.seconds / 60 % 60), two (t.seconds % 60)]

/-- Reads up to two digits, of which there must be one; blanks may stand in front. -/
def readPart (text : List Char) : Option (Nat × List Char) :=
  let text := text.dropWhile Text.isBlank
  match text.takeWhile Char.isDigit with
  | [] => none
  | [a] => some (a.toNat - '0'.toNat, text.drop 1)
  | a :: b :: _ => some (10 * (a.toNat - '0'.toNat) + (b.toNat - '0'.toNat), text.drop 2)

def readColon : List Char → Option (List Char)
  | ':' :: text => some text
  | _ => none

/-- Reads hours, minutes and seconds between colons. The second sixty, a leap second, counts as the
    one before it. -/
def ofText? (text : String) : Option TimeOfDay := do
  let (hours, rest) ← readPart text.toList
  let (minutes, rest) ← readPart (← readColon rest)
  let (seconds, rest) ← readPart (← readColon rest)
  if !rest.isEmpty then none
  else if seconds = 60 then (ofHms hours minutes 59).toOption
  else (ofHms hours minutes seconds).toOption

end TimeOfDay

end CilWeaver
