import Presence.Attendance.Rules

namespace Presence.Attendance

open Presence.Go

/-! # Business dates and the clock on the wall

A business day starts when the clock shows the boundary.  `BusinessDate` goes back by
the boundary as a length of time and reads the date there, so the two agree as long
as no change of the offset in between moves the date and the date has a midnight.
-/

variable {rules : Rules} {instant : Int}

/-- The date the clock shows, or the one before while it shows less than the boundary. -/
def wallDate (instant : Int) (rules : Rules) : Int :=
  let shown := rules.location.timeIn instant
  if rules.dayBoundary ≤ (instant + shown.offset) % day then shown.date else shown.date - 1

namespace Rules

/-- The date shown at the instant that the boundary leads back to. -/
def reached (rules : Rules) (instant : Int) : Int :=
  (rules.location.timeIn (instant - rules.dayBoundary)).date

structure Undisturbed (rules : Rules) (instant : Int) : Prop where
  /-- The clock of the instant and the clock of the instant reached agree on the date there. -/
  clock : (instant - rules.dayBoundary + rules.location.offset instant) / day =
    (instant - rules.dayBoundary + rules.location.offset (instant - rules.dayBoundary)) / day
  midnight : rules.location.HasMidnight (wallDate instant rules)

/-- A change of the offset moves the date and the missing midnight of the date reached
moves it back. -/
structure Cancelled (rules : Rules) (instant : Int) : Prop where
  moved : rules.reached instant ≠ wallDate instant rules
  back : (rules.location.midnight (rules.reached instant)).date = wallDate instant rules

def Follows (rules : Rules) (instant : Int) : Prop :=
  rules.Undisturbed instant ∨ rules.Cancelled instant

end Rules

/-- Within a day of the boundary the two cases of the clock are one subtraction. -/
theorem wallDate_eq (lower : 0 ≤ rules.dayBoundary) (upper : rules.dayBoundary < day) :
    wallDate instant rules =
      (instant - rules.dayBoundary + rules.location.offset instant) / day := by
  have length : day = 86400000000000 := rfl
  unfold wallDate
  dsimp only [Time.date, Location.timeIn]
  rw [length] at upper ⊢
  split
  next late => omega
  next early => omega

/-- Where the clocks agree the date reached is that on the wall. -/
theorem reached_eq_wallDate_iff (lower : 0 ≤ rules.dayBoundary) (upper : rules.dayBoundary < day) :
    rules.reached instant = wallDate instant rules ↔
      (instant - rules.dayBoundary + rules.location.offset instant) / day =
        (instant - rules.dayBoundary + rules.location.offset (instant - rules.dayBoundary)) / day := by
  rw [wallDate_eq lower upper]
  exact eq_comm

theorem businessDate_eq_midnight (instant : Int) (rules : Rules) :
    businessDate instant rules = rules.location.midnight (rules.reached instant) := rfl

theorem Rules.Undisturbed.reached (calm : rules.Undisturbed instant)
    (lower : 0 ≤ rules.dayBoundary) (upper : rules.dayBoundary < day) :
    rules.reached instant = wallDate instant rules :=
  (reached_eq_wallDate_iff lower upper).mpr calm.clock

theorem businessDate_date_iff (lower : 0 ≤ rules.dayBoundary) (upper : rules.dayBoundary < day) :
    (businessDate instant rules).date = wallDate instant rules ↔ rules.Follows instant := by
  rw [businessDate_eq_midnight, Location.midnight_date_iff]
  apply or_congr
  · rw [reached_eq_wallDate_iff lower upper]
    exact ⟨fun ⟨clock, midnight⟩ => ⟨clock, midnight⟩, fun calm => ⟨calm.clock, calm.midnight⟩⟩
  · exact ⟨fun ⟨moved, back⟩ => ⟨moved, back⟩, fun cancelled => ⟨cancelled.moved, cancelled.back⟩⟩

/-- Two instants with the dates on the wall share a bucket only on one date. -/
theorem wallDate_eq_of_businessDate_eq {first last : Int} (lower : 0 ≤ rules.dayBoundary)
    (upper : rules.dayBoundary < day) (firstFollows : rules.Follows first)
    (lastFollows : rules.Follows last) (same : businessDate first rules = businessDate last rules) :
    wallDate first rules = wallDate last rules := by
  calc wallDate first rules = (businessDate first rules).date :=
        ((businessDate_date_iff lower upper).mpr firstFollows).symm
    _ = (businessDate last rules).date := by rw [same]
    _ = wallDate last rules := (businessDate_date_iff lower upper).mpr lastFollows

/-- The date of an instant is that on the wall exactly when no change of the offset and no
missing midnight moves it, or when two such moves cancel.  Undisturbed instants share a
bucket exactly when they share the date; with a cancelled one they do so exactly when the
dates reached have one midnight. -/
theorem businessDate_wallClock (rules : Rules) (lower : 0 ≤ rules.dayBoundary)
    (upper : rules.dayBoundary < day) :
    (∀ instant, (businessDate instant rules).date = wallDate instant rules ↔
      rules.Follows instant) ∧
    (∀ first last, rules.Undisturbed first → rules.Undisturbed last →
      (businessDate first rules = businessDate last rules ↔
        wallDate first rules = wallDate last rules)) ∧
    (∀ first last, rules.Follows first → rules.Follows last →
      ((businessDate first rules = businessDate last rules ↔
          wallDate first rules = wallDate last rules) ↔
        (wallDate first rules = wallDate last rules →
          rules.location.midnight (rules.reached first) =
            rules.location.midnight (rules.reached last)))) := by
  refine ⟨fun instant => businessDate_date_iff lower upper, ?_, ?_⟩
  · intro first last firstCalm lastCalm
    rw [businessDate_eq_midnight, businessDate_eq_midnight, firstCalm.reached lower upper,
      lastCalm.reached lower upper]
    exact Location.midnight_inj firstCalm.midnight lastCalm.midnight
  · intro first last firstFollows lastFollows
    constructor
    · exact fun shared => shared.mpr
    · intro shared
      exact ⟨wallDate_eq_of_businessDate_eq lower upper firstFollows lastFollows, shared⟩

/-! New York goes from five hours behind UTC to four at 02:00 on the eighth of March 2026. -/

def springForward : Location where
  offset instant := if instant < 20520 * day + 7 * hour then -5 * hour else -4 * hour

theorem businessDate_wallClock_springForward :
    (businessDate (20520 * day + 9 * hour) (defaultRules springForward)).date =
        wallDate (20520 * day + 9 * hour) (defaultRules springForward) ↔
      (defaultRules springForward).Follows (20520 * day + 9 * hour) :=
  (businessDate_wallClock (defaultRules springForward) (by decide) (by decide)).1 _

/-- At half past four, after the boundary, the day before still runs. -/
theorem businessDate_behindTheClock :
    (businessDate (20520 * day + 8 * hour + 30 * minute) (defaultRules springForward)).date = 20519 ∧
    wallDate (20520 * day + 8 * hour + 30 * minute) (defaultRules springForward) = 20520 := by
  decide

end Presence.Attendance
