import Relay.Calendar
import Relay.Model.TaskVault

/-!
# Dates in the script of the task vault

`ConvertFrom-Json` turns a text with a date and an offset into a local time; the casts of the script
print the local time in the invariant culture, and `[DateTimeOffset]::Parse` reads the text in the
current culture and the local zone.

* `Zone`, `Culture`: what the machine is set to;
* `invariantText`, `PowerShell.parseDate`: printing and reading;
* `PowerShell.item`: an item as the loop of `SubmitBatch` hands it on.
-/

namespace Relay

/-! ### What the machine is set to -/

/-- A time zone. -/
structure Zone where
  /-- the offset of a moment, in seconds -/
  utcOffset : Time → ℤ
  /-- the offset with which a local time is read that comes without one -/
  localOffset : Time → ℤ
  bounded : ∀ t, |utcOffset t| ≤ 50400 ∧ |localOffset t| ≤ 50400
  /-- a local time that one moment only shows is read as that moment -/
  unambiguous : ∀ t, (∀ t', t' + seconds (utcOffset t') = t + seconds (utcOffset t) → t' = t) →
    localOffset (t + seconds (utcOffset t)) = utcOffset t

/-- `DateTime.ToLocalTime`. -/
def Zone.localTime (z : Zone) (t : Time) : Time := t + seconds (z.utcOffset t)

/-- The calendar of a culture; years of another one than the Gregorian are counted differently. -/
inductive Calendar
  | gregorian
  | other (read : (year month day : ℕ) → Option ℤ)
      (far : ∀ year month day month' day' r g, read year month day = some r →
        Time.gregorian year month' day' = some g → 2 ≤ |r - g|)

/-- The day of a year, a month and a day of the month. -/
def Calendar.day : Calendar → ℕ → ℕ → ℕ → Option ℤ
  | .gregorian => Time.gregorian
  | .other read _ => read

/-- What a culture does with a date of two numbers and a year of four digits. -/
structure Culture where
  /-- the short date pattern has the month before the day -/
  monthFirst : Bool
  calendar : Calendar

/-- The day that the numbers denote. -/
def Culture.readDate (c : Culture) (first second year : ℕ) : Option ℤ :=
  if c.monthFirst then c.calendar.day year first second else c.calendar.day year second first

/-! ### Printing and reading -/

/-- The numbers of a date and a time. -/
structure DateNumbers where
  first : ℕ
  second : ℕ
  year : ℕ
  hours : ℕ
  minutes : ℕ
  seconds : ℕ
  deriving DecidableEq

/-- The numbers as they are printed: two digits each, and four for the year. -/
def DateNumbers.text (n : DateNumbers) : String :=
  String.ofList (Time.decimals 2 n.first ++ '/' :: (Time.decimals 2 n.second ++ '/' ::
    (Time.decimals 4 n.year ++ ' ' :: (Time.decimals 2 n.hours ++ ':' ::
      (Time.decimals 2 n.minutes ++ ':' :: Time.decimals 2 n.seconds)))))

/-- The numbers of a local time, with month and day in this order. -/
def dateNumbers (wall : Time) : DateNumbers :=
  let (y, m, d) := Time.civil (Time.day wall)
  let s := (wall % days 1 / Relay.seconds 1).toNat
  ⟨m.toNat, d.toNat, y.toNat, s / 3600, s / 60 % 60, s % 60⟩

/-- `[string]` of a `DateTime`: `MM/dd/yyyy HH:mm:ss`. -/
def invariantText (wall : Time) : String := (dateNumbers wall).text

/-- The value of decimal digits. -/
def decimalValue (l : List Char) : ℕ := l.foldl (fun n c => 10 * n + (c.toNat - 48)) 0

/-- The numbers of a text of this form. -/
def readNumbers (text : String) : Option DateNumbers :=
  match (Text.splitOn (fun c => c = '/' || c = ' ' || c = ':') text.toList).map decimalValue with
  | [first, second, year, hours, minutes, seconds] =>
    let n : DateNumbers := ⟨first, second, year, hours, minutes, seconds⟩
    if n.text = text ∧ hours < 24 ∧ minutes < 60 ∧ seconds < 60 then some n else none
  | _ => none

/-- The local time on a day. -/
def DateNumbers.onDay (n : DateNumbers) (day : ℤ) : Time :=
  days day + Relay.seconds (3600 * n.hours + 60 * n.minutes + n.seconds)

/-- The machine of the script. -/
structure PowerShell where
  zone : Zone
  culture : Culture
  /-- the moment of a text in which `ConvertFrom-Json` sees a date with an offset -/
  jsonDate : (text : String) → Option Time
  /-- `[DateTimeOffset]::Parse` of texts of other forms -/
  otherDate : (text : String) → Option Time
  /-- the local time is a `DateTime` -/
  representable : ∀ text t, jsonDate text = some t →
    1 ≤ (Time.civil (Time.day (zone.localTime t))).1 ∧ (Time.civil (Time.day (zone.localTime t))).1 ≤ 9999

namespace PowerShell

/-- `[string]$item.scheduled_for`, for the text that the manifest has. -/
def manifestText (p : PowerShell) (text : String) : String :=
  match p.jsonDate text with
  | some t => invariantText (p.zone.localTime t)
  | none => text

/-- `[DateTimeOffset]::Parse(text)`. -/
def parseDate (p : PowerShell) (text : String) : Option Time :=
  match readNumbers text with
  | some n => (p.culture.readDate n.first n.second n.year).map fun day =>
    n.onDay day - Relay.seconds (p.zone.localOffset (n.onDay day))
  | none => p.otherDate text

/-- The machine with its files. -/
def workstation (p : PowerShell) (file : (path : String) → Option VaultFile)
    (resolve : (path : String) → String) : Workstation :=
  ⟨file, resolve, p.parseDate⟩

/-- An item as the loop of `SubmitBatch` hands it on. -/
def item (p : PowerShell) (item : ManifestItem) : ManifestItem :=
  { item with scheduledFor := p.manifestText item.scheduledFor }

end PowerShell

end Relay
