import Mathlib.Algebra.Group.Int.Defs
import Mathlib.Algebra.Group.Nat.Defs
import Mathlib.Data.Int.Basic

namespace Presence.Go

/-! # Go's `time` package

Instants and durations are integers counting nanoseconds, instants from the Unix
epoch.  A `Time` also carries the UTC offset of its location, which decides the
calendar date it prints and nothing else.  A duration is an `int64`: `Sub`
saturates at its limits, multiplication and negation wrap.
-/

structure Time where
  instant : Int
  offset : Int
deriving DecidableEq, Repr

def millisecond : Int := 1000000

def second : Int := 1000 * millisecond

def minute : Int := 60 * second

def hour : Int := 60 * minute

def day : Int := 24 * hour

/-- `time.Time{}`, the first of January of the year 1. -/
def zeroInstant : Int := -62135596800 * second

def maxDuration : Int := 2 ^ 63 - 1

def minDuration : Int := -2 ^ 63

def wrap64 (value : Int) : Int := Int.bmod value (2 ^ 64)

def sub (later earlier : Int) : Int :=
  max minDuration (min maxDuration (later - earlier))

def milliseconds (duration : Int) : Int := duration.tdiv millisecond

/-- `int(d.Seconds())`.  `Seconds` is a `float64`; for the whole microseconds that
a database holds it rounds no fraction up to the next second. -/
def seconds (duration : Int) : Int := duration.tdiv second

/-- `Year`, `Month` and `Day` together, as the number of days since 1970-01-01. -/
def Time.date (time : Time) : Int := (time.instant + time.offset) / day

/-! ## Locations

A location tells the UTC offset in force at each instant.
-/

structure Location where
  offset : Int → Int

namespace Location

/-- `time.FixedZone`. -/
def fixed (offset : Int) : Location := ⟨fun _ => offset⟩

/-- `t.In(loc)`. -/
def timeIn (location : Location) (instant : Int) : Time := ⟨instant, location.offset instant⟩

/-- `time.Date(year, month, day, 0, 0, 0, 0, loc)`.  The offset in force when a
clock on UTC shows that midnight leads to a first guess of the instant, and the
offset in force there is the one subtracted. -/
def midnight (location : Location) (date : Int) : Time :=
  let unix := date * day
  let guess := location.offset unix
  if guess = 0 then location.timeIn unix
  else location.timeIn (unix - location.offset (unix - guess))

theorem midnight_fixed (offset date : Int) :
    (fixed offset).midnight date = ⟨date * day - offset, offset⟩ := by
  by_cases zero : offset = 0 <;> simp [midnight, fixed, timeIn, zero]

/-- The zone shows the date when it is asked for its midnight. -/
def HasMidnight (location : Location) (date : Int) : Prop := (location.midnight date).date = date

instance (location : Location) (date : Int) : Decidable (location.HasMidnight date) :=
  inferInstanceAs (Decidable (_ = _))

theorem hasMidnight_fixed (offset date : Int) : (fixed offset).HasMidnight date := by
  have whole : date * day - offset + offset = date * day := by omega
  rw [HasMidnight, midnight_fixed, Time.date, whole, Int.mul_ediv_cancel _ (by decide)]

/-- A midnight shows the date wanted if it is that of the date, or by missing its own. -/
theorem midnight_date_iff {location : Location} {reached date : Int} :
    (location.midnight reached).date = date ↔
      reached = date ∧ location.HasMidnight date ∨
        reached ≠ date ∧ (location.midnight reached).date = date := by
  by_cases same : reached = date
  · subst same
    simp [HasMidnight]
  · simp [same]

theorem midnight_inj {location : Location} {first last : Int}
    (firstHas : location.HasMidnight first) (lastHas : location.HasMidnight last) :
    location.midnight first = location.midnight last ↔ first = last := by
  constructor
  · intro same
    calc first = (location.midnight first).date := firstHas.symm
      _ = (location.midnight last).date := by rw [same]
      _ = last := lastHas
  · exact congrArg location.midnight

end Location

theorem sub_gt_iff {later earlier limit : Int}
    (low : minDuration ≤ limit) (high : limit < maxDuration) :
    limit < sub later earlier ↔ limit < later - earlier := by
  simp only [sub, minDuration, maxDuration] at *
  omega

theorem sub_lt_iff {later earlier limit : Int}
    (low : minDuration < limit) (high : limit ≤ maxDuration) :
    sub later earlier < limit ↔ later - earlier < limit := by
  simp only [sub, minDuration, maxDuration] at *
  omega

end Presence.Go
