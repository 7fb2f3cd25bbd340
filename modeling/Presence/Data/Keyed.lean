import Mathlib.Data.List.Induction
import Mathlib.Data.List.Nodup
import Mathlib.Logic.Function.Basic

namespace Presence.Data

/-! Finite maps whose values hold their own key.

A `Keyed` map is the list of its values, no two of which have one key.  It stands
for a Go map filled by `m[v.Key()] = v`, whose order of iteration is anyone's
choice, and for a table with a primary key.  `diff` lists what turns one such map
into another, given the comparison that decides whether a value changed.
-/

universe u v w

variable {α : Type u} {κ : Type v} {β : Type w} {key : α → κ}

/-- Where keys differ, a search by key finds the value that has it. -/
theorem find_of_mem [DecidableEq κ] {values : List α} (distinct : (values.map key).Nodup) {value : α}
    (member : value ∈ values) : values.find? (key · = key value) = some value := by
  cases found : values.find? (key · = key value) with
  | none => simpa using List.find?_eq_none.mp found value member
  | some other =>
      have same : key other = key value := by simpa using List.find?_some found
      exact congrArg some
        (List.inj_on_of_nodup_map distinct (List.mem_of_find?_eq_some found) member same)

theorem filter_of_mem [DecidableEq κ] {values : List α} (distinct : (values.map key).Nodup) {value : α}
    (member : value ∈ values) : values.filter (key · = key value) = [value] := by
  induction values with
  | nil => cases member
  | cons first rest ih =>
      obtain ⟨new, others⟩ := List.nodup_cons.mp distinct
      rcases List.mem_cons.mp member with rfl | later
      · have none : rest.filter (key · = key value) = [] := by
          refine List.filter_eq_nil_iff.mpr fun other listed same => new ?_
          exact List.mem_map.mpr ⟨other, listed, by simpa using same⟩
        rw [List.filter_cons_of_pos (by simp), none]
      · have apart : ¬ key first = key value := fun same =>
          new (same ▸ List.mem_map_of_mem later)
        rw [List.filter_cons_of_neg (by simpa using apart), ih others later]

structure Keyed (key : α → κ) where
  values : List α
  distinct : (values.map key).Nodup

namespace Keyed

def empty : Keyed key := ⟨[], List.nodup_nil⟩

theorem eq_of_key (map : Keyed key) {first second : α} (left : first ∈ map.values)
    (right : second ∈ map.values) (same : key first = key second) : first = second :=
  List.inj_on_of_nodup_map map.distinct left right same

/-- `DELETE`: the values that are left. -/
def filter (map : Keyed key) (left : α → Bool) : Keyed key :=
  ⟨map.values.filter left, map.distinct.sublist (List.filter_sublist.map key)⟩

@[simp] theorem mem_filter {map : Keyed key} {left : α → Bool} {value : α} :
    value ∈ (map.filter left).values ↔ value ∈ map.values ∧ left value = true :=
  List.mem_filter

def snoc (map : Keyed key) (value : α) (unused : ∀ old ∈ map.values, key old ≠ key value) :
    Keyed key where
  values := map.values ++ [value]
  distinct := by
    simp only [List.map_append, List.map_cons, List.map_nil]
    refine List.nodup_append.mpr ⟨map.distinct, List.nodup_singleton _, ?_⟩
    intro name member other new same
    obtain ⟨old, kept, rfl⟩ := List.mem_map.mp member
    exact unused old kept (same.trans (List.mem_singleton.mp new))

variable [DecidableEq κ]

def lookup (map : Keyed key) (name : κ) : Option α := map.values.find? (key · = name)

theorem lookup_eq_some {map : Keyed key} {name : κ} {value : α} :
    map.lookup name = some value ↔ value ∈ map.values ∧ key value = name := by
  constructor
  · intro found
    exact ⟨List.mem_of_find?_eq_some found, by simpa using List.find?_some found⟩
  · intro given
    obtain ⟨member, rfl⟩ := given
    exact find_of_mem map.distinct member

theorem lookup_eq_none {map : Keyed key} {name : κ} :
    map.lookup name = none ↔ ∀ value ∈ map.values, key value ≠ name := by
  simp [lookup]

/-- `m[v.Key()] = v`. -/
def set (map : Keyed key) (value : α) : Keyed key :=
  (map.filter (key · ≠ key value)).snoc value fun _ old => by simpa using (mem_filter.mp old).2

/-- `INSERT` under a primary key. -/
def add (map : Keyed key) (value : α) : Option (Keyed key) :=
  if unused : ∀ old ∈ map.values, key old ≠ key value then some (map.snoc value unused) else none

theorem mem_set {map : Keyed key} {value other : α} :
    other ∈ (map.set value).values ↔ other = value ∨ other ∈ map.values ∧ key other ≠ key value := by
  simp [set, snoc, filter, or_comm]

theorem add_eq_some {map next : Keyed key} {value : α} (added : map.add value = some next) :
    next.values = map.values ++ [value] := by
  simp only [add] at added
  split at added
  next unused =>
    cases added
    rfl
  next => cases added

def ofList (values : List α) : Keyed key := values.foldl set empty

theorem mem_foldl_set {values : List α} {map : Keyed key} (distinct : (values.map key).Nodup)
    (fresh : ∀ old ∈ map.values, ∀ new ∈ values, key old ≠ key new) {value : α} :
    value ∈ (values.foldl set map).values ↔ value ∈ map.values ∨ value ∈ values := by
  induction values generalizing map with
  | nil => simp
  | cons first rest ih =>
      simp only [List.map_cons, List.nodup_cons] at distinct
      have later : ∀ old ∈ (map.set first).values, ∀ new ∈ rest, key old ≠ key new := by
        intro old member new new_mem same
        rcases mem_set.mp member with rfl | ⟨kept, -⟩
        · exact distinct.1 (List.mem_map.mpr ⟨new, new_mem, same.symm⟩)
        · exact fresh old kept new (List.mem_cons_of_mem _ new_mem) same
      rw [List.foldl_cons, ih distinct.2 later, mem_set, List.mem_cons]
      constructor
      · intro given
        rcases given with (rfl | ⟨kept, -⟩) | member
        · exact .inr (.inl rfl)
        · exact .inl kept
        · exact .inr (.inr member)
      · intro given
        rcases given with kept | rfl | member
        · exact .inl (.inr ⟨kept, fresh value kept first (List.mem_cons_self ..)⟩)
        · exact .inl (.inl rfl)
        · exact .inr member

/-- Where no key repeats, the map holds what was put into it. -/
theorem mem_ofList {values : List α} (distinct : (values.map key).Nodup) {value : α} :
    value ∈ (ofList values : Keyed key).values ↔ value ∈ values := by
  rw [ofList, mem_foldl_set distinct (by simp [empty])]
  simp [empty]

/-- What a map read from a list holds was in the list. -/
theorem mem_of_mem_foldl_set {values : List α} {map : Keyed key} {value : α}
    (member : value ∈ (values.foldl set map).values) : value ∈ map.values ∨ value ∈ values := by
  induction values generalizing map with
  | nil => exact .inl member
  | cons first rest ih =>
      rcases ih member with kept | later
      · rcases mem_set.mp kept with rfl | ⟨old, -⟩
        · exact .inr (List.mem_cons_self ..)
        · exact .inl old
      · exact .inr (List.mem_cons_of_mem _ later)

/-- A value put in is still there, or another of its key is. -/
theorem exists_mem_foldl_set {values : List α} {map : Keyed key} {value : α}
    (member : value ∈ map.values ∨ value ∈ values) :
    ∃ kept ∈ (values.foldl set map).values, key kept = key value := by
  induction values generalizing map value with
  | nil => exact ⟨value, by simpa using member, rfl⟩
  | cons first rest ih =>
      simp only [List.foldl_cons]
      by_cases same : key value = key first
      · obtain ⟨kept, here, named⟩ := ih (.inl (mem_set.mpr (.inl rfl)))
        exact ⟨kept, here, named.trans same.symm⟩
      · apply ih
        rcases member with old | new
        · exact .inl (mem_set.mpr (.inr ⟨old, same⟩))
        · rcases List.mem_cons.mp new with rfl | later
          · exact absurd rfl same
          · exact .inr later

end Keyed

/-! ## Differences -/

inductive Change (α : Type u) where
  | upserted (value : α)
  | removed (value : α)
deriving DecidableEq, Repr

namespace Change

def subject : Change α → α
  | .upserted value | .removed value => value

/-- What the changed key holds afterwards, as far as `view` tells. -/
def outcome (view : α → β) : Change α → Option β
  | .upserted value => some (view value)
  | .removed _ => none

end Change

namespace Keyed

variable [DecidableEq κ]

/-- The value of the other map under this key passes for this one. -/
def unchanged (same : α → α → Bool) (before : Keyed key) (next : α) : Bool :=
  match before.lookup (key next) with
  | some prev => same prev next
  | none => false

def diff (same : α → α → Bool) (before after : Keyed key) : List (Change α) :=
  (after.values.filter fun next => !unchanged same before next).map .upserted ++
    (before.values.filter fun prev => (after.lookup (key prev)).isNone).map .removed

variable {same : α → α → Bool} {before after : Keyed key} {value : α}

theorem unchanged_iff : unchanged same before value = true ↔
    ∃ prev ∈ before.values, key prev = key value ∧ same prev value = true := by
  simp only [unchanged]
  cases found : before.lookup (key value) with
  | none =>
      have absent := lookup_eq_none.mp found
      simp only [Bool.false_eq_true, false_iff]
      intro given
      obtain ⟨prev, member, named, -⟩ := given
      exact absent prev member named
  | some prev =>
      obtain ⟨member, named⟩ := lookup_eq_some.mp found
      constructor
      · intro passes
        exact ⟨prev, member, named, passes⟩
      · intro given
        obtain ⟨other, here, alike, passes⟩ := given
        rwa [before.eq_of_key here member (alike.trans named.symm)] at passes

theorem upserted_mem_diff : .upserted value ∈ diff same before after ↔
    value ∈ after.values ∧ ¬ ∃ prev ∈ before.values, key prev = key value ∧ same prev value = true := by
  simp [diff, ← unchanged_iff]

theorem removed_mem_diff : .removed value ∈ diff same before after ↔
    value ∈ before.values ∧ ∀ next ∈ after.values, key next ≠ key value := by
  simp [diff, lookup_eq_none]

theorem diff_eq_nil (passed : ∀ next ∈ after.values, ∃ prev ∈ before.values,
      key prev = key next ∧ same prev next = true)
    (stays : ∀ prev ∈ before.values, ∃ next ∈ after.values, key next = key prev) :
    diff same before after = [] := by
  apply List.eq_nil_iff_forall_not_mem.mpr
  intro change member
  cases change with
  | upserted next =>
      obtain ⟨here, changed⟩ := upserted_mem_diff.mp member
      exact changed (passed next here)
  | removed prev =>
      obtain ⟨here, gone⟩ := removed_mem_diff.mp member
      obtain ⟨next, there, alike⟩ := stays prev here
      exact gone next there alike

/-! ## Applying a difference

Whoever holds the contents of `before` and overwrites each changed key ends with
the contents of `after` exactly if the comparison sees every difference that the
contents show.
-/

def contents (view : α → β) (map : Keyed key) (name : κ) : Option β :=
  (map.lookup name).map view

variable {view : α → β}

end Keyed

/-! ## Maps of lists -/

section Grouping

variable [DecidableEq κ]

/-- `m[k] = append(m[k], v)`, the keys in the order they came. -/
def appendTo (name : κ) (value : β) : List (κ × List β) → List (κ × List β)
  | [] => [(name, [value])]
  | (known, values) :: rest =>
      if known = name then (known, values ++ [value]) :: rest
      else (known, values) :: appendTo name value rest

def groupBy (name : α → κ) (value : α → β) (items : List α) : List (κ × List β) :=
  items.foldl (fun groups item => appendTo (name item) (value item) groups) []

theorem appendTo_perm (name : κ) (value : β) (groups : List (κ × List β)) :
    ((appendTo name value groups).flatMap Prod.snd).Perm (value :: groups.flatMap Prod.snd) := by
  induction groups with
  | nil => rfl
  | cons first rest ih =>
      obtain ⟨known, values⟩ := first
      simp only [appendTo]
      split
      next => simp [List.perm_middle]
      next =>
        simp only [List.flatMap_cons]
        exact (ih.append_left values).trans List.perm_middle

/-- Every item falls into one group. -/
theorem groupBy_perm (name : α → κ) (value : α → β) (items : List α) :
    ((groupBy name value items).flatMap Prod.snd).Perm (items.map value) := by
  have folded : ∀ groups : List (κ × List β),
      ((items.foldl (fun groups item => appendTo (name item) (value item) groups)
        groups).flatMap Prod.snd).Perm (items.map value ++ groups.flatMap Prod.snd) := by
    induction items with
    | nil => exact fun groups => .refl _
    | cons first rest ih =>
        intro groups
        apply (ih _).trans
        exact ((appendTo_perm (name first) (value first) groups).append_left _).trans
          List.perm_middle
  simpa [groupBy] using folded []

theorem fst_mem_appendTo {name : κ} {value : β} {groups : List (κ × List β)} {group : κ × List β}
    (member : group ∈ appendTo name value groups) :
    group.1 = name ∨ ∃ known ∈ groups, group.1 = known.1 := by
  induction groups with
  | nil => exact .inl (by simp_all [appendTo])
  | cons first rest ih =>
      obtain ⟨known, values⟩ := first
      simp only [appendTo] at member
      split at member
      next same =>
        rcases List.mem_cons.mp member with rfl | later
        · exact .inl same
        · exact .inr ⟨group, List.mem_cons_of_mem _ later, rfl⟩
      next =>
        rcases List.mem_cons.mp member with rfl | later
        · exact .inr ⟨_, List.mem_cons_self .., rfl⟩
        · rcases ih later with new | ⟨old, here, named⟩
          · exact .inl new
          · exact .inr ⟨old, List.mem_cons_of_mem _ here, named⟩

/-- Every group is named by an item. -/
theorem groupBy_name (name : α → κ) (value : α → β) (items : List α) :
    ∀ group ∈ groupBy name value items, ∃ item ∈ items, group.1 = name item := by
  apply List.foldlRecOn (motive := fun groups : List (κ × List β) =>
    ∀ group ∈ groups, ∃ item ∈ items, group.1 = name item) items _ (by simp)
  intro groups known item member group new
  rcases fst_mem_appendTo new with here | ⟨old, before, same⟩
  · exact ⟨item, member, here⟩
  · rw [same]
    exact known old before

/-- The group of a name, empty where there is none. -/
def valuesOf (name : κ) (groups : List (κ × List β)) : List β :=
  ((groups.find? (·.1 = name)).map Prod.snd).getD []

theorem valuesOf_appendTo (other name : κ) (value : β) (groups : List (κ × List β)) :
    valuesOf other (appendTo name value groups) =
      if name = other then valuesOf other groups ++ [value] else valuesOf other groups := by
  induction groups with
  | nil =>
      by_cases same : name = other <;> simp [appendTo, valuesOf, same]
  | cons first rest ih =>
      obtain ⟨known, values⟩ := first
      simp only [valuesOf] at ih ⊢
      by_cases here : known = name
      · by_cases same : name = other <;> simp [appendTo, here, same]
      · by_cases found : known = other
        · simp [appendTo, found, show ¬ other = name from fun same => here (found.trans same),
            show ¬ name = other from fun same => here (found.trans same.symm)]
        · simp [appendTo, here, found, ih]

theorem groupBy_concat (name : α → κ) (value : α → β) (items : List α) (item : α) :
    groupBy name value (items ++ [item]) = appendTo (name item) (value item) (groupBy name value items) := by
  simp [groupBy]

theorem valuesOf_groupBy (name : α → κ) (value : α → β) (items : List α) (wanted : κ) :
    valuesOf wanted (groupBy name value items) = (items.filter (name · = wanted)).map value := by
  induction items using List.reverseRecOn with
  | nil => rfl
  | append_singleton items item ih =>
      rw [groupBy_concat, valuesOf_appendTo, ih]
      by_cases same : name item = wanted <;> simp [same]

theorem appendTo_distinct {name : κ} {value : β} {groups : List (κ × List β)}
    (distinct : (groups.map Prod.fst).Nodup) :
    ((appendTo name value groups).map Prod.fst).Nodup := by
  induction groups with
  | nil => simp [appendTo]
  | cons first rest ih =>
      obtain ⟨known, values⟩ := first
      obtain ⟨fresh, others⟩ := List.nodup_cons.mp distinct
      simp only [appendTo]
      split
      next => exact distinct
      next different =>
        refine List.nodup_cons.mpr ⟨fun member => ?_, ih others⟩
        obtain ⟨group, inside, same⟩ := List.mem_map.mp member
        rcases fst_mem_appendTo inside with here | ⟨old, before, here⟩
        · exact different (same.symm.trans here)
        · exact fresh (List.mem_map.mpr ⟨old, before, here.symm.trans same⟩)

theorem groupBy_distinct (name : α → κ) (value : α → β) (items : List α) :
    ((groupBy name value items).map Prod.fst).Nodup := by
  apply List.foldlRecOn (motive := fun groups : List (κ × List β) => (groups.map Prod.fst).Nodup) items
    _ (by simp)
  exact fun groups distinct item _ => appendTo_distinct distinct

theorem valuesOf_of_mem {groups : List (κ × List β)} {group : κ × List β}
    (distinct : (groups.map Prod.fst).Nodup) (member : group ∈ groups) :
    valuesOf group.1 groups = group.2 := by
  have found : groups.find? (·.1 = group.1) = some group := find_of_mem distinct member
  rw [valuesOf, found]
  rfl

theorem mem_of_valuesOf {groups : List (κ × List β)} {name : κ} (found : valuesOf name groups ≠ []) :
    (name, valuesOf name groups) ∈ groups := by
  simp only [valuesOf] at found ⊢
  cases looked : groups.find? (·.1 = name) with
  | none => simp [looked] at found
  | some group =>
      have same : group.1 = name := by simpa using List.find?_some looked
      have member := List.mem_of_find?_eq_some looked
      rw [← same]
      exact member

theorem appendTo_filter (kept : κ → Bool) (name : κ) (value : β) (groups : List (κ × List β)) :
    (appendTo name value groups).filter (kept ·.1) =
      if kept name then appendTo name value (groups.filter (kept ·.1))
      else groups.filter (kept ·.1) := by
  induction groups with
  | nil => by_cases here : kept name <;> simp [appendTo, here]
  | cons first rest ih =>
      obtain ⟨known, values⟩ := first
      by_cases same : known = name
      · subst same
        by_cases here : kept known <;> simp [appendTo, here]
      · by_cases first : kept known <;> by_cases here : kept name <;>
          simp_all [appendTo]

/-- Groups can be left out before or after grouping. -/
theorem groupBy_filter (kept : κ → Bool) (name : α → κ) (value : α → β) (items : List α) :
    (groupBy name value items).filter (kept ·.1) = groupBy name value (items.filter (kept <| name ·)) := by
  induction items using List.reverseRecOn with
  | nil => rfl
  | append_singleton items item ih =>
      rw [groupBy_concat, appendTo_filter, ih, List.filter_append]
      by_cases here : kept (name item) <;> simp [here, groupBy_concat]

end Grouping

end Presence.Data
