import Mathlib.Data.List.Induction
import Presence.Attendance.Padding

namespace Presence.Attendance

open Presence.Data Presence.Go

/-! # What `Pair` makes of the punches

A tap and the taps that repeat it are one action.  Without the repeated taps
pairing is simple: an arrival takes the departure right after it, and whatever is
left over stands alone.  The loop of `Pair` computes just that, one punch at a time.
-/

/-- An action, with the punches that were suppressed as repeating it. -/
structure Action where
  punch : Punch
  again : List Punch

namespace Action

def punches (action : Action) : List Punch := action.punch :: action.again

/-- When it was last repeated. -/
def lastAt (action : Action) : Int := (action.again.getLast?.getD action.punch).instant

/-- The flag that repetitions leave on the span of the action. -/
def mark (action : Action) (span : Span) : Span :=
  if action.again.isEmpty then span else span.flag .duplicate

def arrived (action : Action) : Span := action.mark (Pairing.arrival action.punch)

/-- The span of an arrival that nobody closed. -/
def unanswered (action : Action) : Span := action.arrived.flag .missingOut

def orphaned (action : Action) : Span := action.mark (Pairing.orphan action.punch)

def closing (rules : Rules) (arrival departure : Action) : Span :=
  departure.mark (Pairing.close rules arrival.arrived departure.punch)

end Action

variable {rules : Rules}

/-- The same direction, within the window. -/
def repeating (rules : Rules) (before punch : Punch) : Prop :=
  punch.direction = before.direction ∧ sub punch.instant before.instant ≤ rules.duplicateWindow

instance (before punch : Punch) : Decidable (repeating rules before punch) :=
  inferInstanceAs (Decidable (_ ∧ _))

/-- One more punch, actions newest first. -/
def act (rules : Rules) (actions : List Action) (punch : Punch) : List Action :=
  match actions with
  | [] => [⟨punch, []⟩]
  | action :: older =>
      if punch.direction = action.punch.direction ∧
          sub punch.instant action.lastAt ≤ rules.duplicateWindow then
        ⟨action.punch, action.again ++ [punch]⟩ :: older
      else ⟨punch, []⟩ :: action :: older

/-- The spans of the actions, both newest first. -/
def spansOf (rules : Rules) : List Action → List Span
  | [] => []
  | [action] =>
      match action.punch.direction with
      | .in => [action.unanswered]
      | .out => [action.orphaned]
  | action :: before :: older =>
      match action.punch.direction, before.punch.direction with
      | .in, _ => action.unanswered :: spansOf rules (before :: older)
      | .out, .in => before.closing rules action :: spansOf rules older
      | .out, .out => action.orphaned :: spansOf rules (before :: older)

/-- The variables of the loop after these actions. -/
def pairingOf (rules : Rules) : List Action → Pairing
  | [] => .start
  | action :: older =>
      match action.punch.direction with
      | .in => ⟨spansOf rules older, some action.arrived, some (.in, action.lastAt)⟩
      | .out => ⟨spansOf rules (action :: older), none, some (.out, action.lastAt)⟩

/-! ## The loop computes it -/

section

variable {action before : Action} {actions older : List Action} {punch : Punch} {span : Span}

theorem mark_again (action : Action) (punch : Punch) (span : Span) :
    Action.mark ⟨action.punch, action.again ++ [punch]⟩ span = (action.mark span).flag .duplicate := by
  have marked : Action.mark ⟨action.punch, action.again ++ [punch]⟩ span = span.flag .duplicate := by
    simp [Action.mark]
  rw [marked, Action.mark]
  split
  next => rfl
  next => rw [Pairing.flag_of_mem (Pairing.mem_flag span .duplicate)]

theorem spansOf_in (arriving : action.punch.direction = .in) :
    spansOf rules (action :: older) = action.unanswered :: spansOf rules older := by
  cases older <;> simp [spansOf, arriving]

theorem spansOf_closing (leaving : action.punch.direction = .out)
    (arriving : before.punch.direction = .in) :
    spansOf rules (action :: before :: older) = before.closing rules action :: spansOf rules older := by
  simp [spansOf, leaving, arriving]

theorem spansOf_orphaned (leaving : action.punch.direction = .out)
    (alone : ∀ before ∈ older.head?, before.punch.direction = .out) :
    spansOf rules (action :: older) = action.orphaned :: spansOf rules older := by
  cases older with
  | nil => simp [spansOf, leaving]
  | cons before older => simp [spansOf, leaving, alone before rfl]

/-- Repeating the newest action flags its span and nothing else. -/
theorem spansOf_again (leaving : action.punch.direction = .out) (punch : Punch) :
    spansOf rules (⟨action.punch, action.again ++ [punch]⟩ :: older) =
      Pairing.flagNewest (spansOf rules (action :: older)) := by
  cases older with
  | nil =>
      simp only [spansOf, leaving, Action.orphaned, mark_again]
      rfl
  | cons before older =>
      cases direction : before.punch.direction with
      | «in» =>
          simp only [spansOf, leaving, direction, Action.closing, mark_again]
          rfl
      | out =>
          simp only [spansOf, leaving, direction, Action.orphaned, mark_again]
          rfl

theorem pairingOf_in (arriving : action.punch.direction = .in) :
    pairingOf rules (action :: older) =
      ⟨spansOf rules older, some action.arrived, some (.in, action.lastAt)⟩ := by
  simp [pairingOf, arriving]

theorem pairingOf_out (leaving : action.punch.direction = .out) :
    pairingOf rules (action :: older) =
      ⟨spansOf rules (action :: older), none, some (.out, action.lastAt)⟩ := by
  simp [pairingOf, leaving]

theorem pairingOf_repeats :
    (pairingOf rules (action :: older)).repeats rules punch =
      decide (punch.direction = action.punch.direction ∧
        sub punch.instant action.lastAt ≤ rules.duplicateWindow) := by
  cases direction : action.punch.direction with
  | «in» => simp [pairingOf_in direction, Pairing.repeats]
  | out => simp [pairingOf_out direction, Pairing.repeats]

theorem advance_pairingOf (rules : Rules) (actions : List Action) (punch : Punch) :
    (pairingOf rules actions).advance rules punch = pairingOf rules (act rules actions punch) := by
  cases actions with
  | nil =>
      cases direction : punch.direction with
      | «in» =>
          rw [act, @pairingOf_in rules ⟨punch, []⟩ [] direction, Pairing.advance_in rfl direction]
          rfl
      | out =>
          rw [act, @pairingOf_out rules ⟨punch, []⟩ [] direction, Pairing.advance_orphan rfl direction rfl,
            @spansOf_orphaned rules ⟨punch, []⟩ [] direction (by simp)]
          rfl
  | cons action older =>
      have repeats := @pairingOf_repeats rules action older punch
      by_cases again : punch.direction = action.punch.direction ∧
          sub punch.instant action.lastAt ≤ rules.duplicateWindow
      · rw [act, if_pos again]
        rw [decide_eq_true again] at repeats
        rw [Pairing.advance_repeat repeats]
        cases direction : action.punch.direction with
        | «in» =>
            rw [pairingOf_in direction, @pairingOf_in rules ⟨action.punch, action.again ++ [punch]⟩ older direction, again.1,
              direction]
            simp [Pairing.flagDuplicate, Action.arrived, mark_again, Action.lastAt]
        | out =>
            rw [pairingOf_out direction, @pairingOf_out rules ⟨action.punch, action.again ++ [punch]⟩ older direction, again.1,
              direction, Pairing.flagDuplicate_none, spansOf_again direction]
            simp [Action.lastAt]
      · rw [act, if_neg again]
        rw [decide_eq_false again] at repeats
        cases direction : punch.direction with
        | «in» =>
            rw [Pairing.advance_in repeats direction, @pairingOf_in rules ⟨punch, []⟩ _ direction]
            cases before : action.punch.direction with
            | «in» =>
                rw [pairingOf_in before, spansOf_in before]
                rfl
            | out =>
                rw [pairingOf_out before]
                rfl
        | out =>
            rw [@pairingOf_out rules ⟨punch, []⟩ _ direction]
            cases before : action.punch.direction with
            | «in» =>
                have opened : (pairingOf rules (action :: older)).opened = some action.arrived := by
                  rw [pairingOf_in before]
                rw [Pairing.advance_close repeats direction opened, pairingOf_in before,
                  @spansOf_closing rules ⟨punch, []⟩ action older direction before]
                rfl
            | out =>
                have empty : (pairingOf rules (action :: older)).opened = none := by
                  rw [pairingOf_out before]
                rw [Pairing.advance_orphan repeats direction empty, pairingOf_out before,
                  @spansOf_orphaned rules ⟨punch, []⟩ (action :: older) direction (by simp [before])]
                rfl

theorem abandon_pairingOf (rules : Rules) (actions : List Action) :
    (pairingOf rules actions).abandon.spans = spansOf rules actions := by
  cases actions with
  | nil => rfl
  | cons action older =>
      cases direction : action.punch.direction with
      | «in» =>
          rw [pairingOf_in direction, spansOf_in direction]
          rfl
      | out =>
          rw [pairingOf_out direction]
          rfl

end

/-- The actions of punches in order, newest first. -/
def actionsOf (rules : Rules) (ordered : List Punch) : List Action := ordered.foldl (act rules) []

theorem foldl_advance (rules : Rules) (ordered : List Punch) :
    ordered.foldl (Pairing.advance rules) .start = pairingOf rules (actionsOf rules ordered) := by
  induction ordered using List.reverseRecOn with
  | nil => rfl
  | append_singleton ordered punch ih =>
      rw [List.foldl_concat, ih, advance_pairingOf, actionsOf, actionsOf, List.foldl_concat]

/-- `Pair` gives the spans of the actions. -/
theorem pair_eq_spansOf (punches : List Punch) (rules : Rules) :
    pair punches rules = (spansOf rules (actionsOf rules (punches.insertionSort precedes))).reverse := by
  rw [pair, foldl_advance, abandon_pairingOf]

/-! ## Suppressed punches -/

/-- The punches that repeat the one just before them. -/
def suppressed (rules : Rules) : List Punch → List Punch
  | before :: punch :: rest =>
      if repeating rules before punch then punch :: suppressed rules (punch :: rest)
      else suppressed rules (punch :: rest)
  | _ => []

theorem suppressed_concat (ordered : List Punch) (before punch : Punch) :
    suppressed rules (ordered ++ [before] ++ [punch]) =
      suppressed rules (ordered ++ [before]) ++ if repeating rules before punch then [punch] else [] := by
  induction ordered with
  | nil =>
      by_cases again : repeating rules before punch <;> simp [suppressed, again]
  | cons first rest ih =>
      cases rest with
      | nil => by_cases again : repeating rules first before <;> simp [suppressed, again]
      | cons second rest =>
          by_cases again : repeating rules first second <;> simp [suppressed, again] at ih ⊢ <;> exact ih

def Action.lastPunch (action : Action) : Punch := action.again.getLast?.getD action.punch

theorem Action.punches_eq (action : Action) :
    ∃ front, action.punches = front ++ [action.lastPunch] := by
  obtain ⟨punch, again⟩ := action
  induction again using List.reverseRecOn with
  | nil => exact ⟨[], rfl⟩
  | append_singleton again last _ =>
      exact ⟨punch :: again, by simp [Action.punches, Action.lastPunch]⟩

/-- The actions hold the punches in order, and of each action all but the first were
suppressed. -/
structure Explains (rules : Rules) (ordered : List Punch) (actions : List Action) : Prop where
  punches : ordered = actions.reverse.flatMap Action.punches
  again : suppressed rules ordered = actions.reverse.flatMap Action.again
  alike : ∀ action ∈ actions, ∀ punch ∈ action.again, punch.direction = action.punch.direction

theorem Explains.act {ordered : List Punch} {actions : List Action}
    (explains : Explains rules ordered actions) (punch : Punch) :
    Explains rules (ordered ++ [punch]) (act rules actions punch) := by
  cases actions with
  | nil =>
      have empty : ordered = [] := explains.punches
      subst empty
      exact ⟨rfl, rfl, by simp [Attendance.act]⟩
  | cons action older =>
      obtain ⟨kept, dropped, alike⟩ := explains
      obtain ⟨first, others⟩ := List.forall_mem_cons.mp alike
      have same : action.lastPunch.direction = action.punch.direction := by
        simp only [Action.lastPunch]
        cases last : action.again.getLast? with
        | none => rfl
        | some repeated => exact first repeated (List.mem_of_getLast? last)
      obtain ⟨front, ending⟩ := action.punches_eq
      have split : ordered = older.reverse.flatMap Action.punches ++ front ++ [action.lastPunch] := by
        rw [kept, List.reverse_cons, List.flatMap_append, List.flatMap_singleton, ending,
          List.append_assoc]
      have next := @suppressed_concat rules (older.reverse.flatMap Action.punches ++ front)
        action.lastPunch punch
      rw [← split, dropped, List.reverse_cons, List.flatMap_append, List.flatMap_singleton] at next
      rw [List.reverse_cons, List.flatMap_append, List.flatMap_singleton] at kept
      by_cases again : punch.direction = action.punch.direction ∧
          sub punch.instant action.lastAt ≤ rules.duplicateWindow
      · have repeated : repeating rules action.lastPunch punch := ⟨again.1.trans same.symm, again.2⟩
        rw [if_pos repeated] at next
        rw [Attendance.act, if_pos again]
        refine ⟨?_, ?_, ?_⟩
        · rw [kept]
          simp [Action.punches]
        · rw [next]
          simp
        · refine List.forall_mem_cons.mpr ⟨fun other member => ?_, others⟩
          rcases List.mem_append.mp member with old | new
          · exact first other old
          · rw [List.mem_singleton.mp new]
            exact again.1
      · have fresh : ¬ repeating rules action.lastPunch punch := fun repeated =>
          again ⟨repeated.1.trans same, repeated.2⟩
        rw [if_neg fresh] at next
        rw [Attendance.act, if_neg again]
        refine ⟨?_, ?_, List.forall_mem_cons.mpr ⟨by simp, alike⟩⟩
        · rw [kept]
          simp [Action.punches]
        · rw [next]
          simp

theorem explains_actionsOf (rules : Rules) (ordered : List Punch) :
    Explains rules ordered (actionsOf rules ordered) := by
  induction ordered using List.reverseRecOn with
  | nil => exact ⟨rfl, rfl, by simp [actionsOf]⟩
  | append_singleton ordered punch ih =>
      rw [actionsOf, List.foldl_concat]
      exact ih.act punch

/-! ## No punch lost and none used twice -/

section

variable {action arrival departure : Action} {actions : List Action} {span : Span}

@[simp] theorem mark_inEventId : (action.mark span).inEventId = span.inEventId := by
  simp only [Action.mark]
  split <;> simp

@[simp] theorem mark_outEventId : (action.mark span).outEventId = span.outEventId := by
  simp only [Action.mark]
  split <;> simp

@[simp] theorem mark_startedAt : (action.mark span).startedAt = span.startedAt := by
  simp only [Action.mark]
  split <;> simp

@[simp] theorem mark_endedAt : (action.mark span).endedAt = span.endedAt := by
  simp only [Action.mark]
  split <;> simp

@[simp] theorem arrived_inEventId : action.arrived.inEventId = some action.punch.eventId := by
  simp [Action.arrived, Pairing.arrival]

@[simp] theorem arrived_outEventId : action.arrived.outEventId = none := by
  simp [Action.arrived, Pairing.arrival]

@[simp] theorem arrived_startedAt : action.arrived.startedAt = action.punch.instant := by
  simp [Action.arrived]

@[simp] theorem arrived_endedAt : action.arrived.endedAt = none := by
  simp [Action.arrived, Pairing.arrival]

@[simp] theorem orphaned_inEventId : action.orphaned.inEventId = none := by
  simp [Action.orphaned, Pairing.orphan]

@[simp] theorem orphaned_outEventId : action.orphaned.outEventId = some action.punch.eventId := by
  simp [Action.orphaned, Pairing.orphan]

def Action.isIn (action : Action) : Bool := action.punch.direction == .in

def Action.isOut (action : Action) : Bool := action.punch.direction == .out

/-- Every arrival opens one span. -/
theorem spansOf_inEventId (rules : Rules) (actions : List Action) :
    (spansOf rules actions).filterMap Span.inEventId =
      (actions.filter Action.isIn).map (·.punch.eventId) := by
  fun_induction spansOf rules actions with
  | case1 => rfl
  | case2 action direction => simp [Action.isIn, direction, Action.unanswered]
  | case3 action direction => simp [Action.isIn, direction]
  | case4 action before older direction ih =>
      simpa [Action.isIn, direction, Action.unanswered] using ih
  | case5 action before older arriving direction ih =>
      simpa [Action.isIn, direction, arriving, Action.closing] using ih
  | case6 action before older leaving direction ih =>
      simpa [Action.isIn, direction, leaving] using ih

/-- Every departure ends one. -/
theorem spansOf_outEventId (rules : Rules) (actions : List Action) :
    (spansOf rules actions).filterMap Span.outEventId =
      (actions.filter Action.isOut).map (·.punch.eventId) := by
  fun_induction spansOf rules actions with
  | case1 => rfl
  | case2 action direction => simp [Action.isOut, direction, Action.unanswered]
  | case3 action direction => simp [Action.isOut, direction]
  | case4 action before older direction ih =>
      simpa [Action.isOut, direction, Action.unanswered] using ih
  | case5 action before older arriving direction ih =>
      simpa [Action.isOut, direction, arriving, Action.closing] using ih
  | case6 action before older leaving direction ih =>
      simpa [Action.isOut, direction, leaving] using ih

end

/-- The span was made of these actions. -/
inductive Built (rules : Rules) (actions : List Action) : Span → Prop where
  | unanswered {action : Action} (listed : action ∈ actions) (arriving : action.punch.direction = .in) :
      Built rules actions action.unanswered
  | orphaned {action : Action} (listed : action ∈ actions) (leaving : action.punch.direction = .out) :
      Built rules actions action.orphaned
  | closing {arrival departure : Action} (first : arrival ∈ actions) (second : departure ∈ actions)
      (arriving : arrival.punch.direction = .in) (leaving : departure.punch.direction = .out) :
      Built rules actions (arrival.closing rules departure)

theorem Built.mono {actions more : List Action} {span : Span} (subset : actions ⊆ more)
    (built : Built rules actions span) : Built rules more span := by
  cases built with
  | unanswered listed arriving => exact .unanswered (subset listed) arriving
  | orphaned listed leaving => exact .orphaned (subset listed) leaving
  | closing first second arriving leaving =>
      exact .closing (subset first) (subset second) arriving leaving

theorem built_of_mem {actions : List Action} : ∀ span ∈ spansOf rules actions, Built rules actions span := by
  fun_induction spansOf rules actions with
  | case1 => simp
  | case2 action direction =>
      intro span member
      rw [List.mem_singleton.mp member]
      exact .unanswered (by simp) direction
  | case3 action direction =>
      intro span member
      rw [List.mem_singleton.mp member]
      exact .orphaned (by simp) direction
  | case4 action before older direction ih =>
      refine List.forall_mem_cons.mpr ⟨.unanswered (by simp) direction, fun span member => ?_⟩
      exact (ih span member).mono (List.subset_cons_self ..)
  | case5 action before older arriving direction ih =>
      refine List.forall_mem_cons.mpr ⟨.closing (by simp) (by simp) arriving direction,
        fun span member => ?_⟩
      exact (ih span member).mono fun other listed => by simp [listed]
  | case6 action before older leaving direction ih =>
      refine List.forall_mem_cons.mpr ⟨.orphaned (by simp) direction, fun span member => ?_⟩
      exact (ih span member).mono (List.subset_cons_self ..)

/-! The punch that a suppressed one repeats: the last before it that was not
suppressed. -/

def Repeats (rules : Rules) (ordered : List Punch) (punch origin : Punch) : Prop :=
  ∃ front chain back, ordered = front ++ origin :: (chain ++ punch :: back) ∧
    origin ∉ suppressed rules ordered ∧ ∀ other ∈ chain ++ [punch], other ∈ suppressed rules ordered

section

variable {ordered : List Punch} {actions : List Action}

theorem punches_perm (actions : List Action) :
    (actions.flatMap Action.punches).Perm
      (actions.map Action.punch ++ actions.flatMap Action.again) := by
  induction actions with
  | nil => rfl
  | cons action actions ih =>
      simp only [List.flatMap_cons, List.map_cons, Action.punches, List.cons_append]
      refine List.Perm.cons _ ((ih.append_left action.again).trans ?_)
      rw [← List.append_assoc, ← List.append_assoc]
      exact List.perm_append_comm.append_right _

theorem Explains.perm (explains : Explains rules ordered actions) :
    ordered.Perm (actions.map Action.punch ++ suppressed rules ordered) := by
  have both := punches_perm actions.reverse
  rw [← explains.punches, ← explains.again] at both
  exact both.trans ((actions.reverse_perm.map Action.punch).append_right _)

/-- A punch is that of an action or was suppressed, and not both. -/
theorem Explains.punch_notMem (explains : Explains rules ordered actions) (distinct : ordered.Nodup)
    {action : Action} (listed : action ∈ actions) : action.punch ∉ suppressed rules ordered := by
  have apart := (List.nodup_append.mp (explains.perm.nodup_iff.mp distinct)).2.2
  exact fun member => apart action.punch (List.mem_map_of_mem listed) action.punch member rfl

theorem Explains.repeats_iff (explains : Explains rules ordered actions) (distinct : ordered.Nodup)
    {punch origin : Punch} :
    Repeats rules ordered punch origin ↔
      ∃ action ∈ actions, origin = action.punch ∧ punch ∈ action.again := by
  constructor
  · rintro ⟨front, chain, back, split, unsuppressed, repeated⟩
    have known : origin ∈ actions.map Action.punch := by
      have member : origin ∈ actions.map Action.punch ++ suppressed rules ordered :=
        explains.perm.mem_iff.mp (by rw [split]; simp)
      exact (List.mem_append.mp member).resolve_right unsuppressed
    obtain ⟨action, listed, rfl⟩ := List.mem_map.mp known
    refine ⟨action, listed, rfl, ?_⟩
    obtain ⟨earlier, later, cut⟩ := List.append_of_mem (List.mem_reverse.mpr listed)
    have whole : ordered = earlier.flatMap Action.punches ++
        action.punch :: (action.again ++ later.flatMap Action.punches) := by
      rw [explains.punches, cut]
      simp [Action.punches]
    have follows : chain ++ [punch] ++ back = action.again ++ later.flatMap Action.punches := by
      have alone := distinct
      rw [whole] at split alone
      obtain ⟨early, late⟩ := not_or.mp (List.mem_append.not.mp (List.nodup_middle.mp alone).notMem)
      rw [((List.append_cons_inj_of_notMem early late).mp split).2.2, List.append_assoc,
        List.singleton_append]
    -- the chain stops before the next action, which was not suppressed
    rcases List.append_eq_append_iff.mp follows with ⟨rest, again, -⟩ | ⟨rest, overrun, next⟩
    · rw [again]
      simp
    · cases rest with
      | nil =>
          have inside : punch ∈ action.again ++ [] := by
            rw [← overrun]
            simp
          simpa using inside
      | cons first rest =>
          cases later with
          | nil => cases next
          | cons following later =>
              have named : following.punch = first := (List.cons.inj next).1
              have listed : following ∈ actions := by
                rw [← List.mem_reverse, cut]
                simp
              have dropped := repeated first (by rw [overrun]; simp)
              exact absurd (named ▸ dropped) (explains.punch_notMem distinct listed)
  · rintro ⟨action, listed, rfl, member⟩
    obtain ⟨earlier, later, cut⟩ := List.append_of_mem (List.mem_reverse.mpr listed)
    obtain ⟨chain, rest, again⟩ := List.append_of_mem member
    refine ⟨earlier.flatMap Action.punches, chain, rest ++ later.flatMap Action.punches, ?_,
      explains.punch_notMem distinct listed, fun other inside => ?_⟩
    · rw [explains.punches, cut]
      simp [Action.punches, again]
    · rw [explains.again]
      refine List.mem_flatMap.mpr ⟨action, List.mem_reverse.mpr listed, ?_⟩
      rw [again]
      simp only [List.mem_append, List.mem_cons, List.not_mem_nil, or_false] at inside ⊢
      tauto

end

/-! ## The flags of a span -/

section

variable {span : Span} {anomaly given : Anomaly} {action arrival departure : Action} {punch : Punch}

theorem mem_flag_iff : given ∈ (span.flag anomaly).anomalies ↔
    given ∈ span.anomalies ∨ given = anomaly := by
  simp only [Span.flag]
  split
  next member =>
    constructor
    · exact .inl
    · rintro (old | rfl)
      · exact old
      · exact member
  next => simp

theorem mem_flagIf_iff {condition : Prop} [Decidable condition] :
    given ∈ (if condition then span.flag anomaly else span).anomalies ↔
      given ∈ span.anomalies ∨ given = anomaly ∧ condition := by
  split
  next met => simp [mem_flag_iff, met]
  next unmet => simp [unmet]

theorem flagIf_startedAt {condition : Prop} [Decidable condition] :
    (if condition then span.flag anomaly else span).startedAt = span.startedAt := by
  split <;> simp

theorem mem_lowConf_iff : given ∈ (span.lowConf punch).anomalies ↔
    given ∈ span.anomalies ∨ given = .lowConfidence ∧ punch.confidence = .low := by
  simp only [Span.lowConf]
  exact mem_flagIf_iff

theorem mem_mark_iff : given ∈ (action.mark span).anomalies ↔
    given ∈ span.anomalies ∨ given = .duplicate ∧ action.again ≠ [] := by
  simp only [Action.mark]
  split
  next none => simp [List.isEmpty_iff.mp none]
  next some => simp [mem_flag_iff, List.isEmpty_iff.not.mp some]

theorem mem_arrived_iff : given ∈ action.arrived.anomalies ↔
    given = .lowConfidence ∧ action.punch.confidence = .low ∨ given = .duplicate ∧ action.again ≠ [] := by
  simp [Action.arrived, Pairing.arrival, mem_mark_iff, mem_lowConf_iff]

theorem mem_close_iff : given ∈ (Pairing.close rules span punch).anomalies ↔
    given ∈ span.anomalies ∨ given = .lowConfidence ∧ punch.confidence = .low ∨
      given = .implausibleSpan ∧ rules.maxPlausibleSpan < sub punch.instant span.startedAt ∨
      given = .overnight ∧ (businessDate span.startedAt rules).instant ≠
        (businessDate punch.instant rules).instant := by
  unfold Pairing.close
  dsimp only
  simp only [mem_flagIf_iff, flagIf_startedAt, mem_lowConf_iff, Span.lowConf_startedAt, Span.duration,
    Span.lowConf_endedAt, gt_iff_lt, or_assoc]

/-! No flag is set twice. -/

theorem nodup_flag (once : span.anomalies.Nodup) : (span.flag anomaly).anomalies.Nodup := by
  simp only [Span.flag]
  split
  next => exact once
  next new =>
    refine List.nodup_append.mpr ⟨once, List.nodup_singleton _, ?_⟩
    intro left here right there same
    exact new (List.mem_singleton.mp there ▸ same ▸ here)

theorem nodup_lowConf (once : span.anomalies.Nodup) : (span.lowConf punch).anomalies.Nodup := by
  simp only [Span.lowConf]
  split
  next => exact nodup_flag once
  next => exact once

theorem nodup_mark (once : span.anomalies.Nodup) : (action.mark span).anomalies.Nodup := by
  simp only [Action.mark]
  split
  next => exact once
  next => exact nodup_flag once

theorem nodup_arrived : action.arrived.anomalies.Nodup :=
  nodup_mark (nodup_lowConf List.nodup_nil)

theorem nodup_close (once : span.anomalies.Nodup) :
    (Pairing.close rules span punch).anomalies.Nodup := by
  unfold Pairing.close
  dsimp only
  split <;> split
  · exact nodup_flag (nodup_flag (nodup_lowConf once))
  · exact nodup_flag (nodup_lowConf once)
  · exact nodup_flag (nodup_lowConf once)
  · exact nodup_lowConf once

theorem Built.nodup {actions : List Action} (built : Built rules actions span) :
    span.anomalies.Nodup := by
  cases built with
  | unanswered => exact nodup_flag nodup_arrived
  | orphaned => exact nodup_mark (nodup_lowConf (nodup_flag List.nodup_nil))
  | closing => exact nodup_mark (nodup_close nodup_arrived)

end

/-! ## Spans and punches -/

/-- What an anomaly says about a span that was made of these punches. -/
def Says (rules : Rules) (punches : List Punch) (span : Span) : Anomaly → Prop
  | .missingOut => span.endedAt = none
  | .missingIn => span.inEventId = none
  | .implausibleSpan =>
      span.inEventId.isSome = true ∧ span.outEventId.isSome = true ∧
        rules.maxPlausibleSpan < span.duration
  | .overnight =>
      ∃ arrival ∈ punches, ∃ departure ∈ punches, span.inEventId = some arrival.eventId ∧
        span.outEventId = some departure.eventId ∧
        (businessDate arrival.instant rules).instant ≠ (businessDate departure.instant rules).instant
  | .lowConfidence => ∃ punch ∈ punches, punch.eventId ∈ span.ids ∧ punch.confidence = .low
  | .duplicate =>
      ∃ punch origin, Repeats rules (punches.insertionSort precedes) punch origin ∧
        origin.eventId ∈ span.ids

section

variable {punches : List Punch} {actions : List Action} {span : Span}
  (distinct : (punches.map Punch.eventId).Nodup)
  (explains : Explains rules (punches.insertionSort precedes) actions)

include distinct in
theorem nodup_insertionSort : (punches.insertionSort precedes).Nodup := by
  rw [(List.perm_insertionSort precedes punches).nodup_iff]
  exact distinct.of_map

include explains in
theorem Explains.punch_mem {action : Action} (listed : action ∈ actions) : action.punch ∈ punches := by
  have inside : action.punch ∈ actions.map Action.punch ++
      suppressed rules (punches.insertionSort precedes) :=
    List.mem_append_left _ (List.mem_map_of_mem listed)
  exact (List.mem_insertionSort precedes).mp (explains.perm.mem_iff.mpr inside)

include distinct explains

theorem Explains.eq_of_eventId {first second : Action} (left : first ∈ actions)
    (right : second ∈ actions) (same : first.punch.eventId = second.punch.eventId) : first = second := by
  have once : (actions.map Action.punch).Nodup :=
    (List.nodup_append.mp (explains.perm.nodup_iff.mp (nodup_insertionSort distinct))).1
  apply List.inj_on_of_nodup_map once left right
  exact List.inj_on_of_nodup_map distinct (explains.punch_mem left)
    (explains.punch_mem right) same

/-- A span tells of its own actions only. -/
theorem Explains.says_lowConfidence {own : List Action} (listed : ∀ action ∈ own, action ∈ actions)
    (ids : span.ids = own.map (·.punch.eventId)) :
    Says rules punches span .lowConfidence ↔ ∃ action ∈ own, action.punch.confidence = .low := by
  simp only [Says, ids, List.mem_map]
  constructor
  · rintro ⟨punch, member, ⟨action, held, same⟩, low⟩
    have equal := List.inj_on_of_nodup_map distinct (explains.punch_mem (listed action held))
      member same
    exact ⟨action, held, equal ▸ low⟩
  · rintro ⟨action, held, low⟩
    exact ⟨action.punch, explains.punch_mem (listed action held), ⟨action, held, rfl⟩, low⟩

theorem Explains.says_duplicate {own : List Action} (listed : ∀ action ∈ own, action ∈ actions)
    (ids : span.ids = own.map (·.punch.eventId)) :
    Says rules punches span .duplicate ↔ ∃ action ∈ own, action.again ≠ [] := by
  simp only [Says, ids, List.mem_map, explains.repeats_iff (nodup_insertionSort distinct)]
  constructor
  · rintro ⟨punch, origin, ⟨other, known, rfl, repeated⟩, action, held, same⟩
    have equal := explains.eq_of_eventId distinct (listed action held) known same
    exact ⟨action, held, equal ▸ List.ne_nil_of_mem repeated⟩
  · rintro ⟨action, held, some⟩
    obtain ⟨punch, repeated⟩ := List.exists_mem_of_ne_nil _ some
    exact ⟨punch, action.punch, ⟨action, listed action held, rfl, repeated⟩, action, held, rfl⟩

theorem Explains.says_overnight {arrival departure : Action} (first : arrival ∈ actions)
    (second : departure ∈ actions) (arrived : span.inEventId = some arrival.punch.eventId)
    (left : span.outEventId = some departure.punch.eventId) :
    Says rules punches span .overnight ↔
      (businessDate arrival.punch.instant rules).instant ≠
        (businessDate departure.punch.instant rules).instant := by
  simp only [Says, arrived, left, Option.some.injEq]
  constructor
  · rintro ⟨one, here, other, there, sameIn, sameOut, different⟩
    have arrivals := List.inj_on_of_nodup_map distinct (explains.punch_mem first) here sameIn
    have departures := List.inj_on_of_nodup_map distinct (explains.punch_mem second) there sameOut
    rwa [arrivals, departures]
  · intro different
    exact ⟨_, explains.punch_mem first, _, explains.punch_mem second, rfl, rfl, different⟩

/-- A span is flagged with exactly the anomalies it has. -/
theorem Explains.says_iff (built : Built rules actions span) (anomaly : Anomaly) :
    anomaly ∈ span.anomalies ↔ Says rules punches span anomaly := by
  cases built with
  | @unanswered action listed arriving =>
      have own : ∀ other ∈ [action], other ∈ actions := by simpa using listed
      have ids : action.unanswered.ids = [action].map (·.punch.eventId) := by
        simp [Action.unanswered, Span.ids]
      rw [Action.unanswered, mem_flag_iff, mem_arrived_iff, ← Action.unanswered]
      cases anomaly with
      | lowConfidence => simp [explains.says_lowConfidence distinct own ids]
      | duplicate => simp [explains.says_duplicate distinct own ids]
      | missingOut => simp [Says, Action.unanswered]
      | missingIn => simp [Says, Action.unanswered]
      | implausibleSpan => simp [Says, Action.unanswered]
      | overnight => simp [Says, Action.unanswered]
  | @orphaned action listed leaving =>
      have own : ∀ other ∈ [action], other ∈ actions := by simpa using listed
      have ids : action.orphaned.ids = [action].map (·.punch.eventId) := by
        simp [Span.ids]
      rw [Action.orphaned, mem_mark_iff, Pairing.orphan, mem_lowConf_iff, mem_flag_iff,
        ← Pairing.orphan, ← Action.orphaned]
      cases anomaly with
      | lowConfidence => simp [explains.says_lowConfidence distinct own ids]
      | duplicate => simp [explains.says_duplicate distinct own ids]
      | missingOut => simp [Says, Action.orphaned, Pairing.orphan]
      | missingIn => simp [Says]
      | implausibleSpan => simp [Says]
      | overnight => simp [Says]
  | @closing arrival departure first second arriving leaving =>
      have own : ∀ other ∈ [arrival, departure], other ∈ actions := by
        simp [first, second]
      have arrived : (arrival.closing rules departure).inEventId = some arrival.punch.eventId := by
        simp [Action.closing]
      have left : (arrival.closing rules departure).outEventId = some departure.punch.eventId := by
        simp [Action.closing]
      have ids : (arrival.closing rules departure).ids = [arrival, departure].map (·.punch.eventId) := by
        simp [Span.ids, arrived, left]
      rw [Action.closing, mem_mark_iff, mem_close_iff, mem_arrived_iff, ← Action.closing, arrived_startedAt]
      cases anomaly with
      | lowConfidence => simp [explains.says_lowConfidence distinct own ids]
      | duplicate => simp [explains.says_duplicate distinct own ids]
      | missingOut => simp [Says, Action.closing]
      | missingIn => simp [Says, arrived]
      | implausibleSpan => simp [Says, Span.duration, Action.closing]
      | overnight => simp [explains.says_overnight distinct first second arrived left]

end

/-! ## Every punch is accounted for -/

/-- Right after a punch of the same direction, within the window. -/
def RepeatsPrevious (rules : Rules) (ordered : List Punch) (punch : Punch) : Prop :=
  ∃ front before back, ordered = front ++ before :: punch :: back ∧ repeating rules before punch

/-- How many spans the punch of this id opens, and how many it ends. -/
def roles (spans : List Span) (id : Int) : Nat × Nat :=
  (spans.countP fun span => span.inEventId == some id,
    spans.countP fun span => span.outEventId == some id)

/-- The role of a punch that was not suppressed. -/
def Direction.role : Direction → Nat × Nat
  | .in => (1, 0)
  | .out => (0, 1)

theorem mem_suppressed_iff {ordered : List Punch} {punch : Punch} :
    punch ∈ suppressed rules ordered ↔ RepeatsPrevious rules ordered punch := by
  constructor
  · fun_induction suppressed rules ordered with
    | case1 before next rest again ih =>
        intro member
        rcases List.mem_cons.mp member with rfl | later
        · exact ⟨[], before, rest, rfl, again⟩
        · obtain ⟨front, last, back, split, follows⟩ := ih later
          exact ⟨before :: front, last, back, by rw [split]; rfl, follows⟩
    | case2 before next rest fresh ih =>
        intro member
        obtain ⟨front, last, back, split, follows⟩ := ih member
        exact ⟨before :: front, last, back, by rw [split]; rfl, follows⟩
    | case3 => simp
  · rintro ⟨front, before, back, rfl, follows⟩
    induction front with
    | nil => simp [suppressed, follows]
    | cons first front ih =>
        have later : punch ∈ suppressed rules (first :: (front ++ before :: punch :: back)) := by
          cases front with
          | nil =>
              simp only [List.nil_append, suppressed, follows, if_true]
              split <;> simp
          | cons second front =>
              simp only [List.cons_append, suppressed] at ih ⊢
              split
              next => exact List.mem_cons_of_mem _ ih
              next => exact ih
        exact later

section

variable {punches : List Punch} {actions : List Action} {action : Action} {punch : Punch}
  (distinct : (punches.map Punch.eventId).Nodup)
  (explains : Explains rules (punches.insertionSort precedes) actions)

include distinct explains

theorem Explains.nodup_eventId :
    (actions.map (·.punch.eventId) ++
      (suppressed rules (punches.insertionSort precedes)).map Punch.eventId).Nodup := by
  have sorted : ((punches.insertionSort precedes).map Punch.eventId).Nodup :=
    ((List.perm_insertionSort precedes punches).map Punch.eventId).nodup_iff.mpr distinct
  have apart := (explains.perm.map Punch.eventId).nodup_iff.mp sorted
  rw [List.map_append, List.map_map] at apart
  exact apart

theorem Explains.count_filter (listed : action ∈ actions) (select : Action → Bool) :
    ((actions.filter select).map (·.punch.eventId)).count action.punch.eventId =
      if select action then 1 else 0 := by
  have once : ((actions.filter select).map (·.punch.eventId)).Nodup :=
    (List.nodup_append.mp (explains.nodup_eventId distinct)).1.sublist
      (List.filter_sublist.map _)
  split
  next chosen =>
    exact List.count_eq_one_of_mem once
      (List.mem_map_of_mem (List.mem_filter.mpr ⟨listed, chosen⟩))
  next left =>
    refine List.count_eq_zero_of_not_mem fun member => ?_
    obtain ⟨other, inside, same⟩ := List.mem_map.mp member
    obtain ⟨known, chosen⟩ := List.mem_filter.mp inside
    exact left (explains.eq_of_eventId distinct known listed same ▸ chosen)

theorem Explains.count_suppressed (dropped : punch ∈ suppressed rules (punches.insertionSort precedes))
    (select : Action → Bool) :
    ((actions.filter select).map (·.punch.eventId)).count punch.eventId = 0 := by
  have apart := (List.nodup_append.mp (explains.nodup_eventId distinct)).2.2
  refine List.count_eq_zero_of_not_mem fun member => ?_
  exact apart punch.eventId ((List.filter_sublist.map _).subset member) punch.eventId
    (List.mem_map_of_mem dropped) rfl

end

theorem roles_pair (punches : List Punch) (rules : Rules) (id : Int) :
    let actions := actionsOf rules (punches.insertionSort precedes)
    roles (pair punches rules) id =
      (((actions.filter Action.isIn).map (·.punch.eventId)).count id,
        ((actions.filter Action.isOut).map (·.punch.eventId)).count id) := by
  intro actions
  rw [← spansOf_inEventId rules actions, ← spansOf_outEventId rules actions, roles, pair_eq_spansOf,
    List.countP_reverse, List.countP_reverse, List.count_filterMap, List.count_filterMap]

theorem held_of_roles {spans : List Span} {id : Int} {direction : Direction}
    (role : roles spans id = direction.role) : ∃ span ∈ spans, id ∈ span.ids := by
  cases direction with
  | «in» =>
      have opens : 0 < spans.countP fun span => span.inEventId == some id := by
        rw [(Prod.mk.inj role).1]
        exact Nat.one_pos
      obtain ⟨span, member, same⟩ := List.countP_pos_iff.mp opens
      exact ⟨span, member, by simp [Span.ids, eq_of_beq same]⟩
  | out =>
      have ends : 0 < spans.countP fun span => span.outEventId == some id := by
        rw [(Prod.mk.inj role).2]
        exact Nat.one_pos
      obtain ⟨span, member, same⟩ := List.countP_pos_iff.mp ends
      exact ⟨span, member, by simp [Span.ids, eq_of_beq same]⟩

section

variable {punches : List Punch} {action : Action} {punch : Punch}
  (distinct : (punches.map Punch.eventId).Nodup)

include distinct

theorem roles_of_action (listed : action ∈ actionsOf rules (punches.insertionSort precedes)) :
    roles (pair punches rules) action.punch.eventId = action.punch.direction.role := by
  have explains := explains_actionsOf rules (punches.insertionSort precedes)
  rw [roles_pair, explains.count_filter distinct listed, explains.count_filter distinct listed]
  cases direction : action.punch.direction <;> simp [Action.isIn, Action.isOut, direction, Direction.role]

theorem roles_of_suppressed (dropped : punch ∈ suppressed rules (punches.insertionSort precedes)) :
    roles (pair punches rules) punch.eventId = (0, 0) := by
  have explains := explains_actionsOf rules (punches.insertionSort precedes)
  rw [roles_pair, explains.count_suppressed distinct dropped, explains.count_suppressed distinct dropped]

theorem anomalies_iff {span : Span} (member : span ∈ pair punches rules) (anomaly : Anomaly) :
    anomaly ∈ span.anomalies ↔ Says rules punches span anomaly := by
  rw [pair_eq_spansOf, List.mem_reverse] at member
  exact (explains_actionsOf rules _).says_iff distinct (built_of_mem span member) anomaly

theorem repeated_flagged {origin : Punch}
    (repeats : Repeats rules (punches.insertionSort precedes) punch origin) :
    ∃ span ∈ pair punches rules, origin.eventId ∈ span.ids ∧ .duplicate ∈ span.anomalies := by
  have explains := explains_actionsOf rules (punches.insertionSort precedes)
  obtain ⟨action, listed, rfl, -⟩ := (explains.repeats_iff (nodup_insertionSort distinct)).mp repeats
  obtain ⟨span, member, held⟩ := held_of_roles (roles_of_action distinct listed)
  exact ⟨span, member, held, (anomalies_iff distinct member .duplicate).mpr ⟨punch, _, repeats, held⟩⟩

end

theorem ids_of_mem_pair {punches : List Punch} {span : Span} (member : span ∈ pair punches rules) :
    ∀ id ∈ span.ids, id ∈ punches.map Punch.eventId := by
  intro id held
  have counted := count_ids_pair punches rules id
  have present : id ∈ (pair punches rules).flatMap Span.ids := List.mem_flatMap.mpr ⟨span, member, held⟩
  exact List.count_pos_iff.mp ((List.count_pos_iff.mpr present).trans_le counted)

/-! The punches at the two ends of a span. -/

section

variable {rules : Rules} {punches : List Punch} {span : Span} {id : Int}

theorem built_of_mem_pair (member : span ∈ pair punches rules) :
    Built rules (actionsOf rules (punches.insertionSort precedes)) span := by
  rw [pair_eq_spansOf, List.mem_reverse] at member
  exact built_of_mem span member

theorem inEvent_of_mem_pair (member : span ∈ pair punches rules) (arrived : span.inEventId = some id) :
    ∃ punch ∈ punches, punch.eventId = id ∧ punch.direction = .in ∧ punch.instant = span.startedAt := by
  have explains := explains_actionsOf rules (punches.insertionSort precedes)
  cases built_of_mem_pair member with
  | @unanswered action listed arriving =>
      refine ⟨action.punch, explains.punch_mem listed, ?_, arriving, ?_⟩
      · simpa [Action.unanswered] using arrived
      · simp [Action.unanswered]
  | orphaned listed leaving => simp at arrived
  | @closing arrival departure first second arriving leaving =>
      refine ⟨arrival.punch, explains.punch_mem first, ?_, arriving, ?_⟩
      · simpa [Action.closing] using arrived
      · simp [Action.closing]

theorem outEvent_of_mem_pair (member : span ∈ pair punches rules) (left : span.outEventId = some id) :
    ∃ punch ∈ punches, punch.eventId = id ∧ punch.direction = .out := by
  have explains := explains_actionsOf rules (punches.insertionSort precedes)
  cases built_of_mem_pair member with
  | unanswered listed arriving => simp [Action.unanswered] at left
  | @orphaned action listed leaving =>
      exact ⟨action.punch, explains.punch_mem listed, by simpa using left, leaving⟩
  | @closing arrival departure first second arriving leaving =>
      exact ⟨departure.punch, explains.punch_mem second, by simpa [Action.closing] using left, leaving⟩

end

theorem Span.ids_ne_nil (span : Span) : span.ids ≠ [] := by
  intro empty
  obtain ⟨noIn, noOut⟩ := List.append_eq_nil_iff.mp empty
  have anchored := span.anchored
  rw [Option.toList_eq_nil_iff.mp noIn, Option.toList_eq_nil_iff.mp noOut] at anchored
  cases anchored

/-- Every punch opens or ends one span, unless it repeats the one before it; then it
flags the span of the punch it repeats. -/
theorem pair_conserves_punches (rules : Rules) (punches : List Punch)
    (distinct : (punches.map Punch.eventId).Nodup) :
    (∀ punch ∈ punches,
      ¬ RepeatsPrevious rules (punches.insertionSort precedes) punch ∧
          roles (pair punches rules) punch.eventId = punch.direction.role ∨
        RepeatsPrevious rules (punches.insertionSort precedes) punch ∧
          roles (pair punches rules) punch.eventId = (0, 0) ∧
          (∃ origin, Repeats rules (punches.insertionSort precedes) punch origin) ∧
          ∀ origin, Repeats rules (punches.insertionSort precedes) punch origin →
            ∃ span ∈ pair punches rules, origin.eventId ∈ span.ids ∧ .duplicate ∈ span.anomalies) ∧
    ∀ span ∈ pair punches rules,
      span.ids ≠ [] ∧ ∀ id ∈ span.ids, id ∈ punches.map Punch.eventId := by
  have explains := explains_actionsOf rules (punches.insertionSort precedes)
  have once := nodup_insertionSort distinct
  refine ⟨fun punch member => ?_, fun span held => ⟨span.ids_ne_nil, ids_of_mem_pair held⟩⟩
  have sorted : punch ∈ punches.insertionSort precedes := (List.mem_insertionSort precedes).mpr member
  rw [← mem_suppressed_iff]
  rcases List.mem_append.mp (explains.perm.mem_iff.mp sorted) with kept | dropped
  · obtain ⟨action, listed, rfl⟩ := List.mem_map.mp kept
    exact .inl ⟨explains.punch_notMem once listed, roles_of_action distinct listed⟩
  · refine .inr ⟨dropped, roles_of_suppressed distinct dropped, ?_,
      fun origin repeats => repeated_flagged distinct repeats⟩
    rw [explains.again] at dropped
    obtain ⟨action, listed, again⟩ := List.mem_flatMap.mp dropped
    exact ⟨action.punch,
      (explains.repeats_iff once).mpr ⟨action, List.mem_reverse.mp listed, rfl, again⟩⟩

/-- The second tap on the way out of the night shift is the one suppressed. -/
theorem pair_conserves_punches_nightShift :
    (∀ punch ∈ nightShift,
      ¬ RepeatsPrevious (defaultRules (.fixed 0)) (nightShift.insertionSort precedes) punch ∧
          roles (pair nightShift (defaultRules (.fixed 0))) punch.eventId = punch.direction.role ∨
        RepeatsPrevious (defaultRules (.fixed 0)) (nightShift.insertionSort precedes) punch ∧
          roles (pair nightShift (defaultRules (.fixed 0))) punch.eventId = (0, 0) ∧
          (∃ origin, Repeats (defaultRules (.fixed 0)) (nightShift.insertionSort precedes) punch origin) ∧
          ∀ origin,
            Repeats (defaultRules (.fixed 0)) (nightShift.insertionSort precedes) punch origin →
            ∃ span ∈ pair nightShift (defaultRules (.fixed 0)),
              origin.eventId ∈ span.ids ∧ .duplicate ∈ span.anomalies) ∧
    ∀ span ∈ pair nightShift (defaultRules (.fixed 0)),
      span.ids ≠ [] ∧ ∀ id ∈ span.ids, id ∈ nightShift.map Punch.eventId :=
  pair_conserves_punches (defaultRules (.fixed 0)) nightShift (by decide)

/-! ## Days to review -/

theorem foldl_addSpan_needsReview (spans : List Span) (day : Day) :
    (spans.foldl Day.addSpan day).needsReview =
      (day.needsReview || spans.any fun span => !span.anomalies.isEmpty || span.isOpen) := by
  induction spans generalizing day with
  | nil => simp
  | cons first rest ih =>
      rw [List.foldl_cons, ih, List.any_cons]
      simp only [Day.addSpan, Bool.or_assoc]

theorem rollup_needsReview (date : Time) (spans : List Span) (schedule : Option Schedule)
    (rules : Rules) :
    (rollup date spans schedule rules).needsReview =
      spans.any fun span => !span.anomalies.isEmpty || span.isOpen := by
  obtain ⟨isLate, same⟩ := rollup_eq date spans schedule rules
  rw [same]
  exact foldl_addSpan_needsReview spans _

theorem nodup_anomalies {punches : List Punch} {span : Span} (member : span ∈ pair punches rules) :
    span.anomalies.Nodup := by
  rw [pair_eq_spansOf, List.mem_reverse] at member
  exact (built_of_mem span member).nodup

theorem reviewed_iff {punches : List Punch} {span : Span}
    (distinct : (punches.map Punch.eventId).Nodup) (member : span ∈ pair punches rules) :
    (!span.anomalies.isEmpty || span.isOpen) = true ↔ ∃ anomaly, Says rules punches span anomaly := by
  simp only [Bool.or_eq_true, Bool.not_eq_true', List.isEmpty_eq_false_iff_exists_mem]
  constructor
  · rintro (⟨anomaly, flagged⟩ | isOpen)
    · exact ⟨anomaly, (anomalies_iff distinct member anomaly).mp flagged⟩
    · exact ⟨.missingOut, Option.isNone_iff_eq_none.mp isOpen⟩
  · rintro ⟨anomaly, said⟩
    exact .inl ⟨anomaly, (anomalies_iff distinct member anomaly).mpr said⟩

/-- A span is flagged with what is wrong with it and nothing else, and a day is put up
for review just when one of its spans has something wrong with it. -/
theorem anomalies_say_what_is_wrong (rules : Rules) (punches : List Punch)
    (distinct : (punches.map Punch.eventId).Nodup) :
    (∀ span ∈ pair punches rules,
      (∀ anomaly, anomaly ∈ span.anomalies ↔ Says rules punches span anomaly) ∧
        span.anomalies.Nodup) ∧
    ∀ date spans schedule, spans ⊆ pair punches rules →
      ((rollup date spans schedule rules).needsReview = true ↔
        ∃ span ∈ spans, ∃ anomaly, Says rules punches span anomaly) := by
  constructor
  · intro span member
    exact ⟨anomalies_iff distinct member, nodup_anomalies member⟩
  · intro date spans schedule subset
    rw [rollup_needsReview, List.any_eq_true]
    constructor
    · rintro ⟨span, member, reviewed⟩
      exact ⟨span, member, (reviewed_iff distinct (subset member)).mp reviewed⟩
    · rintro ⟨span, member, said⟩
      exact ⟨span, member, (reviewed_iff distinct (subset member)).mpr said⟩

theorem anomalies_say_what_is_wrong_nightShift :
    (∀ span ∈ pair nightShift (defaultRules (.fixed 0)),
      (∀ anomaly, anomaly ∈ span.anomalies ↔ Says (defaultRules (.fixed 0)) nightShift span anomaly) ∧
        span.anomalies.Nodup) ∧
    ∀ date spans schedule, spans ⊆ pair nightShift (defaultRules (.fixed 0)) →
      ((rollup date spans schedule (defaultRules (.fixed 0))).needsReview = true ↔
        ∃ span ∈ spans, ∃ anomaly, Says (defaultRules (.fixed 0)) nightShift span anomaly) :=
  anomalies_say_what_is_wrong (defaultRules (.fixed 0)) nightShift (by decide)

end Presence.Attendance
