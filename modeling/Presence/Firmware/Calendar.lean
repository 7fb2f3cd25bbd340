import Presence.Firmware.EventsJson

namespace Presence.Firmware

open Presence.Go

/-! # The calendar of a timestamp

`civil` counts years from March, so that a leap day is the last of its year; reading
the date back counts the days up again.
-/

/-- The day within a year that starts in March; the last one is a leap day. -/
theorem dayOfYear_spec {doe yoe : Int} (low : 0 ≤ doe) (high : doe ≤ 146096)
    (year : yoe = (doe - doe / 1460 + doe / 36524 - doe / 146096) / 365) :
    0 ≤ doe - (365 * yoe + yoe / 4 - yoe / 100) ∧
      (doe - (365 * yoe + yoe / 4 - yoe / 100) ≤ 364 ∨
        doe - (365 * yoe + yoe / 4 - yoe / 100) = 365 ∧ yoe % 4 = 3 ∧
          (yoe % 100 ≠ 99 ∨ yoe = 399)) := by
  have centuries : doe / 36524 = 0 ∨ doe / 36524 = 1 ∨ doe / 36524 = 2 ∨ doe / 36524 = 3 ∨
      doe / 36524 = 4 := by
    omega
  have last : doe / 146096 = 0 ∨ doe / 146096 = 1 := by omega
  have within : yoe / 100 = 0 ∨ yoe / 100 = 1 ∨ yoe / 100 = 2 ∨ yoe / 100 = 3 := by omega
  -- with the centuries known what is left is linear
  rcases centuries with c | c | c | c | c <;> rcases last with l | l <;> rw [c, l] at year <;>
    rcases within with w | w | w | w <;> rw [w] <;> omega

theorem month_spec {doy mp : Int} (low : 0 ≤ doy) (high : doy ≤ 365)
    (month : mp = (5 * doy + 2) / 153) :
    0 ≤ mp ∧ mp ≤ 11 ∧ 0 ≤ doy - (153 * mp + 2) / 5 ∧
      doy - (153 * mp + 2) / 5 ≤
        (if mp = 11 then 28 else if mp = 1 ∨ mp = 3 ∨ mp = 6 ∨ mp = 8 then 29 else 30) := by
  split
  · omega
  · split <;> omega

/-- The first millisecond of the year 10000. -/
def year10000Ms : Int := 253402300800000

/-- What `civil` passes through: the days since March of the year 0, their era, the day in
it, and the year and the month since March. -/
structure FromMarch (epochMs z era doe yoe doy mp : Int) : Prop where
  hz : z = epochMs / 86400000 + 719468
  hera : era = z / 146097
  hdoe : doe = z - era * 146097
  hyoe : yoe = (doe - doe / 1460 + doe / 36524 - doe / 146096) / 365
  hdoy : doy = doe - (365 * yoe + yoe / 4 - yoe / 100)
  hmp : mp = (5 * doy + 2) / 153

theorem exists_fromMarch (epochMs : Int) :
    ∃ z era doe yoe doy mp, FromMarch epochMs z era doe yoe doy mp :=
  ⟨_, _, _, _, _, _, rfl, rfl, rfl, rfl, rfl, rfl⟩

section

variable {epochMs z era doe yoe doy mp : Int} (march : FromMarch epochMs z era doe yoe doy mp)

include march

namespace FromMarch

theorem doe_range : 0 ≤ doe ∧ doe ≤ 146096 := by
  have hera := march.hera
  have hdoe := march.hdoe
  omega

theorem yoe_range : 0 ≤ yoe ∧ yoe ≤ 399 := by
  have doeRange := march.doe_range
  have hyoe := march.hyoe
  omega

theorem doy_range :
    0 ≤ doy ∧ (doy ≤ 364 ∨ doy = 365 ∧ yoe % 4 = 3 ∧ (yoe % 100 ≠ 99 ∨ yoe = 399)) := by
  obtain ⟨doeLow, doeHigh⟩ := march.doe_range
  have range := dayOfYear_spec doeLow doeHigh march.hyoe
  rwa [← march.hdoy] at range

theorem doy_le : doy ≤ 365 := by
  have doyRange := march.doy_range
  omega

theorem mp_range : 0 ≤ mp ∧ mp ≤ 11 := by
  have spec := month_spec march.doy_range.1 march.doy_le march.hmp
  exact ⟨spec.1, spec.2.1⟩

theorem one_le_day : 1 ≤ doy - (153 * mp + 2) / 5 + 1 := by
  have spec := month_spec march.doy_range.1 march.doy_le march.hmp
  omega

theorem month_range :
    1 ≤ mp + (if mp < 10 then 3 else -9) ∧ mp + (if mp < 10 then 3 else -9) ≤ 12 := by
  have mpRange := march.mp_range
  split <;> omega

end FromMarch

variable (past : 0 ≤ epochMs)

include past

/-- Nothing in it is negative, so that its divisions round down. -/
theorem civil_eq :
    civil epochMs =
      { year :=
          min (yoe + era * 400 + if mp + (if mp < 10 then 3 else -9) ≤ 2 then 1 else 0) 9999
        month := mp + if mp < 10 then 3 else -9
        day := doy - (153 * mp + 2) / 5 + 1
        hour := epochMs % 86400000 / 3600000
        minute := epochMs % 86400000 / 60000 % 60
        second := epochMs % 86400000 / 1000 % 60
        milli := epochMs % 86400000 % 1000 } := by
  have yoeRange := march.yoe_range
  have doyRange := march.doy_range
  have mpRange := march.mp_range
  have doeLow := march.doe_range.1
  obtain ⟨hz, hera, hdoe, hyoe, hdoy, hmp⟩ := march
  unfold civil
  rw [if_neg (show ¬ epochMs < 0 by omega)]
  extract_lets epoch days msOfDay zLet eraLet doeLet yoeLet doyLet mpLet monthLet yearLet
  have sameZ : zLet = z := by
    simp only [zLet, days, epoch]
    rw [hz, Int.tdiv_eq_ediv_of_nonneg past]
  have sameEra : eraLet = era := by
    simp only [eraLet, sameZ]
    rw [if_pos (by omega), Int.tdiv_eq_ediv_of_nonneg (by omega), hera]
  have sameDoe : doeLet = doe := by simp only [doeLet, sameZ, sameEra, hdoe]
  have sameYoe : yoeLet = yoe := by
    simp only [yoeLet, sameDoe]
    rw [Int.tdiv_eq_ediv_of_nonneg doeLow, Int.tdiv_eq_ediv_of_nonneg doeLow,
      Int.tdiv_eq_ediv_of_nonneg doeLow, Int.tdiv_eq_ediv_of_nonneg (by omega), hyoe]
  have sameDoy : doyLet = doy := by
    simp only [doyLet, sameDoe, sameYoe]
    rw [Int.tdiv_eq_ediv_of_nonneg yoeRange.1, Int.tdiv_eq_ediv_of_nonneg yoeRange.1, hdoy]
  have sameMp : mpLet = mp := by
    simp only [mpLet, sameDoy]
    rw [Int.tdiv_eq_ediv_of_nonneg (by omega), hmp]
  have sameMs : msOfDay = epochMs % 86400000 := Int.tmod_eq_emod_of_nonneg past
  have sameMonth : monthLet = mp + if mp < 10 then 3 else -9 := by simp only [monthLet, sameMp]
  have sameYear : yearLet = yoe + era * 400 + if monthLet ≤ 2 then 1 else 0 := by
    simp only [yearLet, sameYoe, sameEra]
  rw [sameMonth] at sameYear
  have nonneg : 0 ≤ yearLet := by
    rw [sameYear]
    split <;> omega
  have pinned : (if yearLet > 9999 then 9999 else yearLet) = min yearLet 9999 := by
    split <;> omega
  simp only [sameMonth, sameDoy, sameMp, sameMs]
  rw [if_neg (by omega), pinned, sameYear, Int.tdiv_eq_ediv_of_nonneg (by omega),
    Int.tdiv_eq_ediv_of_nonneg (by omega), Int.tdiv_eq_ediv_of_nonneg (by omega),
    Int.tdiv_eq_ediv_of_nonneg (by omega), Int.tmod_eq_emod_of_nonneg (by omega),
    Int.tmod_eq_emod_of_nonneg (by omega), Int.tmod_eq_emod_of_nonneg (by omega)]

end

theorem day_le_daysIn (era : Int) {yoe doy mp : Int}
    (doyRange : 0 ≤ doy ∧ (doy ≤ 364 ∨ doy = 365 ∧ yoe % 4 = 3 ∧ (yoe % 100 ≠ 99 ∨ yoe = 399)))
    (month : mp = (5 * doy + 2) / 153) :
    doy - (153 * mp + 2) / 5 + 1 ≤
      daysIn (yoe + era * 400 + if mp + (if mp < 10 then 3 else -9) ≤ 2 then 1 else 0)
        (mp + if mp < 10 then 3 else -9) := by
  have twelve : mp = 0 ∨ mp = 1 ∨ mp = 2 ∨ mp = 3 ∨ mp = 4 ∨ mp = 5 ∨ mp = 6 ∨ mp = 7 ∨ mp = 8 ∨
      mp = 9 ∨ mp = 10 ∨ mp = 11 := by
    omega
  rcases twelve with h | h | h | h | h | h | h | h | h | h | h | february
  iterate 11
    · subst h
      simp [daysIn]
      omega
  · subst february
    change doy - 337 + 1 ≤ if isLeap (yoe + era * 400 + 1) = true then 29 else 28
    by_cases last : doy = 365
    · have leap : isLeap (yoe + era * 400 + 1) = true := by
        simp [isLeap]
        omega
      rw [if_pos leap]
      omega
    · split <;> omega

/-- The clock within a day. -/
theorem clock_spec {ms : Int} (low : 0 ≤ ms) (high : ms < 86400000) :
    (0 ≤ ms / 3600000 ∧ ms / 3600000 ≤ 23) ∧ (0 ≤ ms / 60000 % 60 ∧ ms / 60000 % 60 ≤ 59) ∧
      (0 ≤ ms / 1000 % 60 ∧ ms / 1000 % 60 ≤ 59) ∧ (0 ≤ ms % 1000 ∧ ms % 1000 ≤ 999) ∧
      ((ms / 3600000 * 60 + ms / 60000 % 60) * 60 + ms / 1000 % 60) * 1000 + ms % 1000 = ms := by
  omega

/-- Counting the days of a date that was counted from March. -/
theorem days_spec (era doy : Int) {yoe mp : Int} (range : 0 ≤ yoe ∧ yoe ≤ 399) (low : 0 ≤ mp)
    (high : mp ≤ 11) :
    let month := mp + if mp < 10 then 3 else -9
    let year := yoe + era * 400 + if month ≤ 2 then 1 else 0
    let march := if month ≤ 2 then year - 1 else year
    let shifted := if month ≤ 2 then month + 9 else month - 3
    365 * march + march / 4 - march / 100 + march / 400 +
        ((153 * shifted + 2) / 5 + (doy - (153 * mp + 2) / 5 + 1) - 1) =
      era * 146097 + (365 * yoe + yoe / 4 - yoe / 100) + doy := by
  intro month year march shifted
  have sameMonth : shifted = mp := by
    simp only [shifted, month]
    split <;> split <;> omega
  have sameYear : march = yoe + era * 400 := by
    simp only [march, year]
    split <;> omega
  rw [sameMonth, sameYear]
  omega

/-- The ranges of the fields, and the instant they stand for. -/
theorem civil_spec {epochMs : Int} (past : 0 ≤ epochMs) (bounded : epochMs < year10000Ms) :
    let date := civil epochMs
    (0 ≤ date.year ∧ date.year ≤ 9999) ∧ (1 ≤ date.month ∧ date.month ≤ 12) ∧
      (1 ≤ date.day ∧ date.day ≤ daysIn date.year date.month) ∧ (0 ≤ date.hour ∧ date.hour ≤ 23) ∧
      (0 ≤ date.minute ∧ date.minute ≤ 59) ∧ (0 ≤ date.second ∧ date.second ≤ 59) ∧
      (0 ≤ date.milli ∧ date.milli ≤ 999) ∧
      date.instant = some ⟨epochMs * millisecond, 0⟩ := by
  obtain ⟨z, era, doe, yoe, doy, mp, march⟩ := exists_fromMarch epochMs
  rw [civil_eq march past]
  simp only [year10000Ms] at bounded
  have yoeRange := march.yoe_range
  have doyRange := march.doy_range
  have mpRange := march.mp_range
  have monthRange := march.month_range
  have dayLow := march.one_le_day
  have dayHigh := day_le_daysIn era doyRange march.hmp
  have clock := clock_spec (Int.emod_nonneg epochMs (by decide))
    (Int.emod_lt_of_pos epochMs (show 0 < 86400000 by decide))
  have counted := days_spec era doy yoeRange mpRange.1 mpRange.2
  obtain ⟨hz, hera, hdoe, hyoe, hdoy, hmp⟩ := march
  have whole : (yoe + era * 400 + if mp + (if mp < 10 then 3 else -9) ≤ 2 then 1 else 0) ≤ 9999 := by
    split <;> split <;> omega
  rw [Int.min_eq_left whole]
  refine ⟨?_, monthRange, ⟨dayLow, dayHigh⟩, clock.1, clock.2.1, clock.2.2.1, clock.2.2.2.1, ?_⟩
  · dsimp only
    split <;> split <;> omega
  · rw [Civil.instant, if_pos ⟨monthRange.1, monthRange.2, dayLow, dayHigh⟩]
    dsimp only at counted ⊢
    have day := Int.mul_ediv_add_emod epochMs 86400000
    congr 2
    simp only [second, millisecond]
    omega

end Presence.Firmware
