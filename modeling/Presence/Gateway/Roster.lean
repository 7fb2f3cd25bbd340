import Mathlib.Data.List.Sort
import Mathlib.Data.List.TakeWhile
import Presence.Data.Keyed
import Presence.Gateway.Schema

namespace Presence.Gateway

open Presence.Data Presence.Postgres

/-! # The roster of a terminal

`store.RosterDelta`: one pass over the slot bindings of a device, past and present, with a
note of the slots that had a live one.  The query orders them by slot only, so which row
of a slot comes first is up to the database.
-/

structure RosterPerson where
  id : Uuid
  fullName : String
deriving DecidableEq, Repr

/-- `device_slot` with its partial unique index and its reference to `person`. -/
structure RosterTables where
  person : Keyed RosterPerson.id
  deviceSlot : List DeviceSlotRow
  liveUnique : ((deviceSlot.filter (·.validTo.isNone)).map
    fun slot => (slot.deviceId, slot.slotNo)).Nodup
  personRef : ∀ slot ∈ deviceSlot, (person.lookup slot.personId).isSome = true

/-- A row of the query. -/
structure RosterRow where
  slotNo : Int
  displayName : String
  personRef : String
  removed : Bool
deriving DecidableEq, Repr

structure RosterEntry where
  slotNo : Int
  displayName : String
  personRef : String
deriving DecidableEq, Repr

structure RosterResponse where
  rosterVersion : Int
  fullResync : Bool
  upserts : List RosterEntry
  removals : List Int
deriving DecidableEq, Repr

/-- `left(text, count)` -/
def left (text : String) (count : Nat) : String := String.ofList (text.toList.take count)

def displayName (person : RosterPerson) : String := left person.fullName 24

namespace RosterTables

def rosterRow (tables : RosterTables) (slot : DeviceSlotRow) : Option RosterRow := do
  let person ← tables.person.lookup slot.personId
  return ⟨slot.slotNo, displayName person, uuidOut person.id, slot.validTo.isSome⟩

def rosterRows (tables : RosterTables) (device : Uuid) : List RosterRow :=
  (tables.deviceSlot.filter (·.deviceId = device)).filterMap tables.rosterRow

/-- What the query may return. -/
structure Returns (tables : RosterTables) (device : Uuid) (rows : List RosterRow) : Prop where
  perm : rows.Perm (tables.rosterRows device)
  ordered : rows.Pairwise fun first second => first.slotNo ≤ second.slotNo

end RosterTables

def RosterRow.entry (row : RosterRow) : RosterEntry := ⟨row.slotNo, row.displayName, row.personRef⟩

/-- The variables of the loop. -/
structure RosterLoop where
  seen : List Int
  upserts : List RosterEntry
  removals : List Int

def RosterLoop.advance (loop : RosterLoop) (row : RosterRow) : RosterLoop :=
  if row.removed then
    if row.slotNo ∈ loop.seen then loop
    else { loop with removals := loop.removals ++ [row.slotNo] }
  else { loop with seen := row.slotNo :: loop.seen, upserts := loop.upserts ++ [row.entry] }

def rosterDelta (rosterVersion since : Int) (rows : List RosterRow) : RosterResponse :=
  let loop := rows.foldl RosterLoop.advance ⟨[], [], []⟩
  ⟨rosterVersion, decide (since ≤ 0), loop.upserts, loop.removals⟩

/-! ## What the loop lists -/

variable {rows : List RosterRow} {row : RosterRow} {slotNo : Int} {loop : RosterLoop}

/-- The rows of a slot, in the order they came. -/
def rowsOf (rows : List RosterRow) (slotNo : Int) : List RosterRow :=
  rows.filter (·.slotNo = slotNo)

theorem foldl_advance_upserts (loop : RosterLoop) (rows : List RosterRow) :
    (rows.foldl RosterLoop.advance loop).upserts =
      loop.upserts ++ (rows.filter (!·.removed)).map RosterRow.entry := by
  induction rows generalizing loop with
  | nil => simp
  | cons row rest ih =>
      rw [List.foldl_cons, ih]
      cases removed : row.removed with
      | true =>
          have same : (loop.advance row).upserts = loop.upserts := by
            simp only [RosterLoop.advance, removed, if_true]
            split <;> rfl
          rw [same, List.filter_cons_of_neg (by simp [removed])]
      | false =>
          rw [List.filter_cons_of_pos (by simp [removed])]
          simp [RosterLoop.advance, removed]

/-- A closed row is listed until a live one of its slot has been seen. -/
theorem count_foldl_advance_removals (loop : RosterLoop) (rows : List RosterRow) (slotNo : Int) :
    (rows.foldl RosterLoop.advance loop).removals.count slotNo =
      loop.removals.count slotNo +
        if slotNo ∈ loop.seen then 0 else ((rowsOf rows slotNo).takeWhile (·.removed)).length := by
  induction rows generalizing loop with
  | nil => simp [rowsOf]
  | cons row rest ih =>
      rw [List.foldl_cons, ih]
      by_cases here : row.slotNo = slotNo
      · have kept : rowsOf (row :: rest) slotNo = row :: rowsOf rest slotNo :=
          List.filter_cons_of_pos (by simp [here])
        rw [kept]
        cases removed : row.removed with
        | true =>
            by_cases seen : slotNo ∈ loop.seen
            · simp [RosterLoop.advance, removed, here, seen]
            · simp [RosterLoop.advance, removed, here, seen]
              omega
        | false => simp [RosterLoop.advance, removed, here]
      · have dropped : rowsOf (row :: rest) slotNo = rowsOf rest slotNo :=
          List.filter_cons_of_neg (by simp [here])
        rw [dropped]
        cases removed : row.removed with
        | true =>
            by_cases seen : row.slotNo ∈ loop.seen
            · simp [RosterLoop.advance, removed, seen]
            · simp [RosterLoop.advance, removed, seen, here]
        | false => simp [RosterLoop.advance, removed, Ne.symm here]

theorem count_removals (rosterVersion since : Int) (rows : List RosterRow) (slotNo : Int) :
    (rosterDelta rosterVersion since rows).removals.count slotNo =
      ((rowsOf rows slotNo).takeWhile (·.removed)).length := by
  have counted := count_foldl_advance_removals ⟨[], [], []⟩ rows slotNo
  simpa [rosterDelta] using counted

theorem upserts_eq (rosterVersion since : Int) (rows : List RosterRow) :
    (rosterDelta rosterVersion since rows).upserts =
      (rows.filter (!·.removed)).map RosterRow.entry := by
  have listed := foldl_advance_upserts ⟨[], [], []⟩ rows
  simpa [rosterDelta] using listed

/-! ## What the query returns -/

namespace RosterTables

variable {tables : RosterTables} {device : Uuid} {slot : DeviceSlotRow}

theorem mem_rosterRows :
    row ∈ tables.rosterRows device ↔
      ∃ slot ∈ tables.deviceSlot, slot.deviceId = device ∧ tables.rosterRow slot = some row := by
  simp [rosterRows, List.mem_filterMap, and_assoc]

theorem rosterRow_eq_some (found : tables.rosterRow slot = some row) :
    ∃ person, tables.person.lookup slot.personId = some person ∧
      row = ⟨slot.slotNo, displayName person, uuidOut person.id, slot.validTo.isSome⟩ := by
  simp only [rosterRow, Option.bind_eq_bind, Option.bind_eq_some_iff] at found
  obtain ⟨person, held, same⟩ := found
  exact ⟨person, held, (Option.some.inj same).symm⟩

theorem exists_rosterRow (stored : slot ∈ tables.deviceSlot) :
    ∃ person, tables.person.lookup slot.personId = some person ∧
      tables.rosterRow slot =
        some ⟨slot.slotNo, displayName person, uuidOut person.id, slot.validTo.isSome⟩ := by
  obtain ⟨person, held⟩ := Option.isSome_iff_exists.mp (tables.personRef slot stored)
  exact ⟨person, held, by simp [rosterRow, held]⟩

/-- A slot of the device has one live row at most. -/
theorem live_distinct (tables : RosterTables) (device : Uuid) :
    (((tables.rosterRows device).filter (!·.removed)).map RosterRow.slotNo).Nodup := by
  have live := tables.liveUnique
  rw [List.Nodup, List.pairwise_map, List.pairwise_filter] at live ⊢
  rw [rosterRows, List.pairwise_filterMap]
  apply (live.filter (·.deviceId = device)).imp_of_mem
  intro first second firstIn secondIn different left leftFound right rightFound leftLive rightLive same
  obtain ⟨person, -, rfl⟩ := rosterRow_eq_some leftFound
  obtain ⟨other, -, rfl⟩ := rosterRow_eq_some rightFound
  have firstDevice := (List.mem_filter.mp firstIn).2
  have secondDevice := (List.mem_filter.mp secondIn).2
  rw [decide_eq_true_iff] at firstDevice secondDevice
  refine different ?_ ?_ (Prod.ext (firstDevice.trans secondDevice.symm) same)
  · simpa using leftLive
  · simpa using rightLive

/-- Each slot with a live binding is listed once, with its person, and not removed; each
slot with closed bindings only is removed once and not listed. -/
structure Consistent (tables : RosterTables) (device : Uuid) (response : RosterResponse) : Prop where
  live : ∀ slot ∈ tables.deviceSlot, slot.deviceId = device → slot.validTo = none →
    (∃ person, tables.person.lookup slot.personId = some person ∧
      response.upserts.filter (·.slotNo = slot.slotNo) =
        [⟨slot.slotNo, displayName person, uuidOut person.id⟩]) ∧
    slot.slotNo ∉ response.removals
  closed : ∀ slot ∈ tables.deviceSlot, slot.deviceId = device →
    (∀ other ∈ tables.deviceSlot, other.deviceId = device → other.slotNo = slot.slotNo →
      other.validTo ≠ none) →
    response.removals.count slot.slotNo = 1 ∧
      ∀ entry ∈ response.upserts, entry.slotNo ≠ slot.slotNo

end RosterTables

/-- The live row of a slot comes before its closed ones, and a slot without a live row has
one row. -/
structure Tidy (rows : List RosterRow) : Prop where
  liveFirst : ∀ row ∈ rows, row.removed = false → (rowsOf rows row.slotNo).head? = some row
  closedOnce : ∀ row ∈ rows, (∀ other ∈ rows, other.slotNo = row.slotNo → other.removed = true) →
    (rowsOf rows row.slotNo).length = 1

theorem mem_rowsOf : row ∈ rowsOf rows slotNo ↔ row ∈ rows ∧ row.slotNo = slotNo := by
  simp [rowsOf]

theorem takeWhile_of_closed
    (closed : ∀ other ∈ rows, other.slotNo = slotNo → other.removed = true) :
    (rowsOf rows slotNo).takeWhile (·.removed) = rowsOf rows slotNo := by
  rw [List.takeWhile_eq_self_iff]
  intro other member
  obtain ⟨listed, same⟩ := mem_rowsOf.mp member
  exact closed other listed same

namespace RosterTables

variable {tables : RosterTables} {device : Uuid} {slot : DeviceSlotRow} {rosterVersion since : Int}

namespace Returns

theorem live_distinct (returns : tables.Returns device rows) :
    ((rows.filter (!·.removed)).map RosterRow.slotNo).Nodup :=
  ((returns.perm.filter _).map _).nodup_iff.mpr (tables.live_distinct device)

theorem mem_iff (returns : tables.Returns device rows) :
    row ∈ rows ↔
      ∃ slot ∈ tables.deviceSlot, slot.deviceId = device ∧ tables.rosterRow slot = some row :=
  returns.perm.mem_iff.trans mem_rosterRows

/-- The slots of a number are all closed when its rows are. -/
theorem closed_iff (returns : tables.Returns device rows) :
    (∀ other ∈ rows, other.slotNo = slotNo → other.removed = true) ↔
      ∀ other ∈ tables.deviceSlot, other.deviceId = device → other.slotNo = slotNo →
        other.validTo ≠ none := by
  constructor
  · intro closed other stored bound same
    obtain ⟨person, -, found⟩ := exists_rosterRow stored
    have removed := closed _ (returns.mem_iff.mpr ⟨other, stored, bound, found⟩) same
    exact Option.isSome_iff_ne_none.mp removed
  · intro closed row member same
    obtain ⟨other, stored, bound, found⟩ := returns.mem_iff.mp member
    obtain ⟨person, -, rfl⟩ := rosterRow_eq_some found
    exact Option.isSome_iff_ne_none.mpr (closed other stored bound same)

theorem tidy_of_consistent (returns : tables.Returns device rows)
    (consistent : tables.Consistent device (rosterDelta rosterVersion since rows)) : Tidy rows where
  liveFirst := by
    intro row member live
    obtain ⟨slot, stored, bound, found⟩ := returns.mem_iff.mp member
    have inside : row ∈ rowsOf rows row.slotNo := mem_rowsOf.mpr ⟨member, rfl⟩
    obtain ⟨person, -, same⟩ := rosterRow_eq_some found
    have current : slot.validTo = none := by
      rw [same] at live
      simpa using live
    have kept := (consistent.live slot stored bound current).2
    have number : slot.slotNo = row.slotNo := by rw [same]
    rw [number, ← List.count_eq_zero, count_removals] at kept
    cases rowsHere : rowsOf rows row.slotNo with
    | nil => simp [rowsHere] at inside
    | cons first rest =>
        obtain ⟨firstIn, firstNumber⟩ := mem_rowsOf.mp (rowsHere ▸ List.mem_cons_self ..)
        have firstLive : first.removed = false := by
          by_contra removed
          rw [rowsHere, List.takeWhile_cons_of_pos (by simpa using removed)] at kept
          simp at kept
        have alike : first = row := List.inj_on_of_nodup_map returns.live_distinct
          (List.mem_filter.mpr ⟨firstIn, by simp [firstLive]⟩)
          (List.mem_filter.mpr ⟨member, by simp [live]⟩) firstNumber
        rw [List.head?_cons, alike]
  closedOnce := by
    intro row member closed
    obtain ⟨slot, stored, bound, found⟩ := returns.mem_iff.mp member
    obtain ⟨person, -, same⟩ := rosterRow_eq_some found
    have number : slot.slotNo = row.slotNo := by rw [same]
    have once := (consistent.closed slot stored bound (number ▸ returns.closed_iff.mp closed)).1
    rwa [number, count_removals, takeWhile_of_closed closed] at once

theorem consistent_of_tidy (returns : tables.Returns device rows) (tidy : Tidy rows) :
    tables.Consistent device (rosterDelta rosterVersion since rows) where
  live := by
    intro slot stored bound current
    obtain ⟨person, held, found⟩ := exists_rosterRow stored
    have member := returns.mem_iff.mpr ⟨slot, stored, bound, found⟩
    have first := tidy.liveFirst _ member (by simp [current])
    constructor
    · refine ⟨person, held, ?_⟩
      have alone := filter_of_mem returns.live_distinct
        (List.mem_filter.mpr ⟨member, by simp [current]⟩)
      rw [upserts_eq, List.filter_map]
      exact congrArg (List.map RosterRow.entry) alone
    · rw [← List.count_eq_zero, count_removals]
      cases rowsHere : rowsOf rows slot.slotNo with
      | nil => rfl
      | cons row rest =>
          rw [rowsHere, List.head?_cons] at first
          cases first
          simp [current]
  closed := by
    intro slot stored bound closed
    obtain ⟨person, -, found⟩ := exists_rosterRow stored
    have member := returns.mem_iff.mpr ⟨slot, stored, bound, found⟩
    have removed := returns.closed_iff.mpr closed
    constructor
    · rw [count_removals, takeWhile_of_closed removed]
      exact tidy.closedOnce _ member removed
    · intro entry listed same
      rw [upserts_eq] at listed
      obtain ⟨row, here, rfl⟩ := List.mem_map.mp listed
      obtain ⟨rowIn, live⟩ := List.mem_filter.mp here
      rw [removed row rowIn same] at live
      cases live

end Returns

/-! ## Whatever the order -/

/-- Closed rows first. -/
def closedFirst (first second : RosterRow) : Prop :=
  first.slotNo < second.slotNo ∨
    first.slotNo = second.slotNo ∧ (first.removed = true ∨ second.removed = false)

instance (first second : RosterRow) : Decidable (closedFirst first second) :=
  inferInstanceAs (Decidable (_ ∨ _))

instance : Std.Total closedFirst where
  total first second := by
    simp only [closedFirst]
    cases first.removed <;> cases second.removed <;> simp <;> omega

instance : IsTrans RosterRow closedFirst where
  trans first second third := by
    simp only [closedFirst]
    cases first.removed <;> cases second.removed <;> cases third.removed <;> simp <;> omega

theorem returns_closedFirst (tables : RosterTables) (device : Uuid) :
    tables.Returns device ((tables.rosterRows device).insertionSort closedFirst) where
  perm := List.perm_insertionSort closedFirst _
  ordered := (List.pairwise_insertionSort closedFirst _).imp fun before => by
    simp only [closedFirst] at before
    omega

/-- A slot with two rows has one order that is not tidy: the closed ones first. -/
theorem length_le_of_tidy (tidy : Tidy ((tables.rosterRows device).insertionSort closedFirst))
    (slotNo : Int) : (rowsOf (tables.rosterRows device) slotNo).length ≤ 1 := by
  have returns := tables.returns_closedFirst device
  have sorted := List.pairwise_insertionSort closedFirst (tables.rosterRows device)
  have distinct := returns.live_distinct
  rw [List.Nodup, List.pairwise_map, List.pairwise_filter] at distinct
  generalize (tables.rosterRows device).insertionSort closedFirst = rows at *
  have same : (rowsOf rows slotNo).length = (rowsOf (tables.rosterRows device) slotNo).length :=
    (returns.perm.filter _).length_eq
  have inside : (rowsOf rows slotNo).Sublist rows := List.filter_sublist
  rw [← same]
  by_contra many
  cases rowsHere : rowsOf rows slotNo with
  | nil => simp [rowsHere] at many
  | cons first others =>
      cases others with
      | nil => simp [rowsHere] at many
      | cons second rest =>
          have firstIn := mem_rowsOf.mp (rowsHere ▸ List.mem_cons_self ..)
          have secondIn := mem_rowsOf.mp (rowsHere ▸ List.mem_cons_of_mem _ (List.mem_cons_self ..))
          have before := sorted.sublist inside
          have apart := distinct.sublist inside
          rw [rowsHere] at before apart
          have order := (List.pairwise_cons.mp before).1 second (List.mem_cons_self ..)
          have clash := (List.pairwise_cons.mp apart).1 second (List.mem_cons_self ..)
          by_cases closed : ∀ other ∈ rows, other.slotNo = slotNo → other.removed = true
          · have once := tidy.closedOnce first firstIn.1 (firstIn.2 ▸ closed)
            rw [firstIn.2, rowsHere] at once
            simp at once
          · -- the live row is first, so the second is live as well
            push Not at closed
            obtain ⟨live, liveIn, number, current⟩ := closed
            have head := tidy.liveFirst live liveIn (by simpa using current)
            rw [number, rowsHere, List.head?_cons] at head
            cases head
            have secondLive : second.removed = false := by
              simp only [closedFirst] at order
              rw [firstIn.2, secondIn.2] at order
              simpa [current] using order
            exact clash (by simpa using current) (by simp [secondLive]) (firstIn.2.trans secondIn.2.symm)

theorem tidy_of_length_le (returns : tables.Returns device rows)
    (single : ∀ slotNo, (rowsOf (tables.rosterRows device) slotNo).length ≤ 1) : Tidy rows := by
  have alone : ∀ row ∈ rows, rowsOf rows row.slotNo = [row] := by
    intro row member
    have same : (rowsOf rows row.slotNo).length =
        (rowsOf (tables.rosterRows device) row.slotNo).length := (returns.perm.filter _).length_eq
    have inside : row ∈ rowsOf rows row.slotNo := mem_rowsOf.mpr ⟨member, rfl⟩
    have short := single row.slotNo
    rw [← same] at short
    cases rowsHere : rowsOf rows row.slotNo with
    | nil => simp [rowsHere] at inside
    | cons first others =>
        rw [rowsHere] at short inside
        have none : others = [] := List.length_eq_zero_iff.mp (by simpa using short)
        subst none
        rw [List.mem_singleton.mp inside]
  constructor
  · intro row member _
    rw [alone row member, List.head?_cons]
  · intro row member _
    rw [alone row member, List.length_singleton]

/-- An answer is consistent exactly when the rows it was made from are tidy.  Every order of
the rows of a slot gives a consistent answer exactly when no slot has more than one. -/
theorem rosterDelta_consistent_iff (tables : RosterTables) (device : Uuid)
    (rosterVersion since : Int) :
    (∀ rows, tables.Returns device rows →
      (tables.Consistent device (rosterDelta rosterVersion since rows) ↔ Tidy rows)) ∧
    ((∀ rows, tables.Returns device rows →
        tables.Consistent device (rosterDelta rosterVersion since rows)) ↔
      ∀ slotNo, (rowsOf (tables.rosterRows device) slotNo).length ≤ 1) := by
  have each : ∀ rows, tables.Returns device rows →
      (tables.Consistent device (rosterDelta rosterVersion since rows) ↔ Tidy rows) :=
    fun rows returns => ⟨returns.tidy_of_consistent, returns.consistent_of_tidy⟩
  refine ⟨each, fun consistent => ?_, fun single rows returns => ?_⟩
  · have returns := tables.returns_closedFirst device
    exact length_le_of_tidy ((each _ returns).mp (consistent _ returns))
  · exact (each rows returns).mpr (tidy_of_length_le returns single)

/-- A slot that was somebody else's before is both listed and removed. -/
theorem rosterDelta_reusedSlot :
    ∃ tables : RosterTables, ∃ rows, tables.Returns 1 rows ∧
      (rosterDelta 0 0 rows).upserts.map (fun entry => (entry.slotNo, entry.displayName)) =
        [(7, "Brian")] ∧
      (rosterDelta 0 0 rows).removals = [7] ∧
      ¬ tables.Consistent 1 (rosterDelta 0 0 rows) := by
  let tables : RosterTables :=
    { person := ⟨[⟨5, "Amina"⟩, ⟨6, "Brian"⟩], by decide⟩
      deviceSlot := [⟨1, 7, 10, 5, 0, some 1000⟩, ⟨1, 7, 11, 6, 2000, none⟩]
      liveUnique := by decide
      personRef := by decide }
  refine ⟨tables, tables.rosterRows 1, ⟨.refl _, by decide +kernel⟩, by decide +kernel,
    by decide +kernel, fun consistent => ?_⟩
  refine (consistent.live ⟨1, 7, 11, 6, 2000, none⟩ (by decide) rfl rfl).2 ?_
  decide +kernel

end RosterTables

end Presence.Gateway
