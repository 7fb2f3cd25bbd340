import Mathlib.Algebra.Order.Group.Nat
import Mathlib.Data.Nat.Find
import Mathlib.Order.Monotone.Basic

namespace Presence.Firmware

/-! # The reset button

`HoldTrigger` of `wifi_provision.h`.  It is given the 32 bits of `millis()`, which a
button held for long enough outlasts.
-/

structure HoldTrigger where
  holdMs : UInt32
  sinceMs : UInt32
  armed : Bool
  holding : Bool
  fired : Bool
deriving DecidableEq

namespace HoldTrigger

def make (holdMs : UInt32) : HoldTrigger := ⟨holdMs, 0, false, false, false⟩

def update (trigger : HoldTrigger) (pressed : Bool) (nowMs : UInt32) : HoldTrigger × Bool :=
  if !pressed then
    ({ trigger with armed := true, holding := false, fired := false }, false)
  else if !trigger.armed then (trigger, false)
  else
    let trigger :=
      if !trigger.holding then { trigger with holding := true, sinceMs := nowMs } else trigger
    if !trigger.fired && nowMs - trigger.sinceMs ≥ trigger.holdMs then
      ({ trigger with fired := true }, true)
    else (trigger, false)

end HoldTrigger

/-! ## Samples

What the button and the clock show at each sample, the clock in true time.
-/

section Samples

variable (holdMs : UInt32) (pressed : Nat → Bool) (time : Nat → Nat)

/-- The trigger before a sample. -/
def triggerAt : Nat → HoldTrigger
  | 0 => .make holdMs
  | n + 1 => ((triggerAt n).update (pressed n) (UInt32.ofNat (time n))).1

def fires (n : Nat) : Bool :=
  ((triggerAt holdMs pressed time n).update (pressed n) (UInt32.ofNat (time n))).2

/-- Time does not go back, and the samples do not come too far apart. -/
def Paced : Prop :=
  ∀ n, time n ≤ time (n + 1) ∧ time (n + 1) - time n < 2 ^ 32 - holdMs.toNat

/-- The button was released at one sample and has been pressed at all after it up to another. -/
def HeldSince (released n : Nat) : Prop :=
  released < n ∧ pressed released = false ∧ ∀ j, released < j → j ≤ n → pressed j = true

/-- Long enough since the first sample of the hold. -/
def LongEnough (released n : Nat) : Prop := holdMs.toNat ≤ time n - time (released + 1)

end Samples

section Trigger

variable {holdMs : UInt32} {pressed : Nat → Bool} {time : Nat → Nat}

theorem Paced.le (paced : Paced holdMs time) {first second : Nat} (order : first ≤ second) :
    time first ≤ time second :=
  monotone_nat_of_le_succ (fun n => (paced n).1) order

/-- A difference that did not wrap around. -/
theorem elapsed_toNat {since now : Nat} (order : since ≤ now) (bounded : now - since < 2 ^ 32) :
    (UInt32.ofNat now - UInt32.ofNat since).toNat = now - since := by
  rw [UInt32.toNat_sub, UInt32.toNat_ofNat', UInt32.toNat_ofNat']
  omega

/-- What the flags say of the samples before one. -/
structure Tracks (holdMs : UInt32) (pressed : Nat → Bool) (time : Nat → Nat)
    (trigger : HoldTrigger) (n : Nat) : Prop where
  limit : trigger.holdMs = holdMs
  unseen : trigger.armed = false → ∀ j < n, pressed j = true
  seen : trigger.armed = true → ∃ released < n, pressed released = false ∧
    (∀ j, released < j → j < n → pressed j = true) ∧
    (trigger.holding = true ↔ released + 1 < n) ∧
    (released + 1 < n → trigger.sinceMs = UInt32.ofNat (time (released + 1))) ∧
    (trigger.fired = true ↔ ∃ j, released < j ∧ j < n ∧ LongEnough holdMs time released j)

theorem tracks_make : Tracks holdMs pressed time (.make holdMs) 0 where
  limit := rfl
  unseen := fun _ j early => absurd early (Nat.not_lt_zero j)
  seen := nofun

/-- The comparison is one of true time as long as the trigger has not fired. -/
theorem elapsed_iff (paced : Paced holdMs time) {released n : Nat} (order : released < n)
    (fresh : ∀ j, released < j → j < n → ¬ LongEnough holdMs time released j) :
    UInt32.ofNat (time n) - UInt32.ofNat (time (released + 1)) ≥ holdMs ↔
      LongEnough holdMs time released n := by
  have bounded : time n - time (released + 1) < 2 ^ 32 := by
    have small := holdMs.toNat_lt
    rcases Nat.lt_or_eq_of_le (Nat.succ_le_of_lt order) with later | first
    · obtain ⟨m, rfl⟩ : ∃ m, n = m + 1 := ⟨n - 1, by omega⟩
      have before := fresh m (by omega) (by omega)
      have gap := paced m
      have since := paced.le (show released + 1 ≤ m by omega)
      rw [LongEnough] at before
      omega
    · rw [← first, Nat.sub_self]
      decide
  rw [ge_iff_le, UInt32.le_iff_toNat_le, elapsed_toNat (paced.le order) bounded, LongEnough]

/-- A released sample arms the trigger and forgets the hold. -/
theorem Tracks.up {trigger : HoldTrigger} {n : Nat}
    (tracks : Tracks holdMs pressed time trigger n) (released : pressed n = false) :
    (trigger.update false (UInt32.ofNat (time n))).2 = false ∧
      Tracks holdMs pressed time (trigger.update false (UInt32.ofNat (time n))).1 (n + 1) := by
  refine ⟨rfl, tracks.limit, nofun, fun _ => ⟨n, n.lt_succ_self, released, ?_, ?_, ?_, ?_⟩⟩
  · intro j after before
    omega
  · exact iff_of_false Bool.false_ne_true (by omega)
  · intro beyond
    omega
  · refine iff_of_false Bool.false_ne_true ?_
    rintro ⟨j, after, before, -⟩
    omega

/-- A button pressed since the start is not heeded. -/
theorem Tracks.stuck {trigger : HoldTrigger} {n : Nat}
    (tracks : Tracks holdMs pressed time trigger n) (down : pressed n = true)
    (unarmed : trigger.armed = false) :
    (trigger.update true (UInt32.ofNat (time n))).2 = false ∧
      Tracks holdMs pressed time (trigger.update true (UInt32.ofNat (time n))).1 (n + 1) := by
  have same : trigger.update true (UInt32.ofNat (time n)) = (trigger, false) := by
    simp [HoldTrigger.update, unarmed]
  rw [same]
  refine ⟨rfl, tracks.limit, fun _ j before => ?_, fun armed => ?_⟩
  · rcases Nat.lt_succ_iff_lt_or_eq.mp before with earlier | rfl
    · exact tracks.unseen unarmed j earlier
    · exact down
  · exact absurd armed (by simp [unarmed])

/-- A pressed sample of a hold. -/
theorem HoldTrigger.update_armed {trigger : HoldTrigger} {now first : UInt32}
    (armed : trigger.armed = true)
    (since : (if trigger.holding then trigger.sinceMs else now) = first) :
    trigger.update true now =
      ({ trigger with holding := true, sinceMs := first,
                      fired := trigger.fired || decide (now - first ≥ trigger.holdMs) },
        !trigger.fired && decide (now - first ≥ trigger.holdMs)) := by
  obtain ⟨limit, sinceMs, armedNow, holding, fired⟩ := trigger
  subst since
  cases holding <;> cases fired <;> simp_all [HoldTrigger.update] <;> split <;> simp_all

/-- A sample of a hold fires the trigger if it is the first that comes late enough. -/
theorem Tracks.down (paced : Paced holdMs time) {trigger : HoldTrigger} {n : Nat}
    (tracks : Tracks holdMs pressed time trigger n) (down : pressed n = true)
    (armed : trigger.armed = true) : ∃ released, HeldSince pressed released n ∧
      ((trigger.update true (UInt32.ofNat (time n))).2 = true ↔
        LongEnough holdMs time released n ∧
          ∀ j, released < j → j < n → ¬ LongEnough holdMs time released j) ∧
      Tracks holdMs pressed time (trigger.update true (UInt32.ofNat (time n))).1 (n + 1) := by
  obtain ⟨released, order, up, held, holding, since, fired⟩ := tracks.seen armed
  have heldNow : ∀ j, released < j → j < n + 1 → pressed j = true := by
    intro j after before
    rcases Nat.lt_succ_iff_lt_or_eq.mp before with earlier | rfl
    · exact held j after earlier
    · exact down
  have first : (if trigger.holding then trigger.sinceMs else UInt32.ofNat (time n)) =
      UInt32.ofNat (time (released + 1)) := by
    split
    next continued => exact since (holding.mp continued)
    next fresh =>
      have start : n = released + 1 := by
        have := mt holding.mpr fresh
        omega
      rw [start]
  have outcome : ((!trigger.fired && decide (UInt32.ofNat (time n) -
        UInt32.ofNat (time (released + 1)) ≥ holdMs)) = true ↔
        LongEnough holdMs time released n ∧
          ∀ j, released < j → j < n → ¬ LongEnough holdMs time released j) ∧
      ((trigger.fired || decide (UInt32.ofNat (time n) -
        UInt32.ofNat (time (released + 1)) ≥ holdMs)) = true ↔
        ∃ j, released < j ∧ j < n + 1 ∧ LongEnough holdMs time released j) := by
    by_cases late : ∃ j, released < j ∧ j < n ∧ LongEnough holdMs time released j
    · obtain ⟨j, after, before, long⟩ := late
      have done : trigger.fired = true := fired.mpr ⟨j, after, before, long⟩
      rw [done]
      exact ⟨iff_of_false Bool.false_ne_true fun claimed => claimed.2 j after before long,
        iff_of_true rfl ⟨j, after, by omega, long⟩⟩
    · have ready : trigger.fired = false := Bool.eq_false_iff.mpr (mt fired.mp late)
      have fresh : ∀ j, released < j → j < n → ¬ LongEnough holdMs time released j :=
        fun j after before long => late ⟨j, after, before, long⟩
      rw [ready, Bool.not_false, Bool.true_and, Bool.false_or, decide_eq_true_iff,
        elapsed_iff paced order fresh]
      refine ⟨⟨fun long => ⟨long, fresh⟩, And.left⟩, fun long => ⟨n, order, by omega, long⟩, ?_⟩
      rintro ⟨j, after, before, long⟩
      rcases Nat.lt_succ_iff_lt_or_eq.mp before with earlier | rfl
      · exact absurd long (fresh j after earlier)
      · exact long
  rw [HoldTrigger.update_armed armed first, tracks.limit]
  refine ⟨released, ⟨order, up, fun j after before => heldNow j after (by omega)⟩, outcome.1,
    rfl, fun unarmed => absurd armed (Bool.eq_false_iff.mp unarmed), fun _ => ?_⟩
  exact ⟨released, by omega, up, heldNow, iff_of_true rfl (by omega), fun _ => rfl, outcome.2⟩

/-- The trigger follows the samples. -/
theorem triggerAt_tracks (paced : Paced holdMs time) (n : Nat) :
    Tracks holdMs pressed time (triggerAt holdMs pressed time n) n := by
  induction n with
  | zero => exact tracks_make
  | succ n ih =>
    rw [triggerAt]
    cases state : pressed n with
    | false => exact (ih.up state).2
    | true =>
      cases armed : (triggerAt holdMs pressed time n).armed with
      | false => exact (ih.stuck state armed).2
      | true =>
        obtain ⟨released, -, -, next⟩ := ih.down paced state armed
        exact next

theorem HeldSince.unique {first second n : Nat} (one : HeldSince pressed first n)
    (other : HeldSince pressed second n) : first = second := by
  obtain ⟨before, up, held⟩ := one
  obtain ⟨after, down, kept⟩ := other
  by_contra different
  rcases Nat.lt_or_gt_of_ne different with order | order
  · exact Bool.false_ne_true (down.symm.trans (held second order after.le))
  · exact Bool.false_ne_true (up.symm.trans (kept first order before.le))

theorem HeldSince.before {released m n : Nat} (held : HeldSince pressed released n)
    (inside : released < m) (order : m ≤ n) : HeldSince pressed released m :=
  ⟨inside, held.2.1, fun j after early => held.2.2 j after (early.trans order)⟩

/-- Where the trigger fires. -/
theorem fires_iff_first (paced : Paced holdMs time) (n : Nat) :
    fires holdMs pressed time n = true ↔ ∃ released, HeldSince pressed released n ∧
      LongEnough holdMs time released n ∧
      ∀ j, released < j → j < n → ¬ LongEnough holdMs time released j := by
  have tracks := @triggerAt_tracks holdMs pressed time paced n
  rw [fires]
  cases state : pressed n with
  | false =>
    rw [(tracks.up state).1]
    refine iff_of_false Bool.false_ne_true ?_
    rintro ⟨released, ⟨before, -, held⟩, -⟩
    exact Bool.false_ne_true (state.symm.trans (held n before le_rfl))
  | true =>
    cases armed : (triggerAt holdMs pressed time n).armed with
    | false =>
      rw [(tracks.stuck state armed).1]
      refine iff_of_false Bool.false_ne_true ?_
      rintro ⟨released, ⟨before, up, -⟩, -⟩
      exact Bool.false_ne_true (up.symm.trans (tracks.unseen armed released before))
    | true =>
      obtain ⟨released, held, outcome, -⟩ := tracks.down paced state armed
      rw [outcome]
      refine ⟨fun late => ⟨released, held, late⟩, ?_⟩
      rintro ⟨other, same, late⟩
      rw [held.unique same]
      exact late

/-- Two firings are of two holds. -/
theorem released_between (paced : Paced holdMs time) {m n : Nat} (order : m < n)
    (one : fires holdMs pressed time m = true) (other : fires holdMs pressed time n = true) :
    ∃ released, m < released ∧ released < n ∧ pressed released = false := by
  obtain ⟨first, held, long, -⟩ := (fires_iff_first paced m).mp one
  obtain ⟨second, kept, -, fresh⟩ := (fires_iff_first paced n).mp other
  refine ⟨second, ?_, kept.1, kept.2.1⟩
  by_contra early
  have different : m ≠ second := by
    rintro rfl
    exact Bool.false_ne_true (kept.2.1.symm.trans (held.2.2 m held.1 le_rfl))
  have inside : second < m := by omega
  have same : first = second := held.unique (kept.before inside order.le)
  subst same
  exact fresh m inside order long

/-- A hold that lasts long enough fires the trigger at one of its samples. -/
theorem fires_once (paced : Paced holdMs time) {released last : Nat}
    (held : HeldSince pressed released last)
    (lasts : ∃ n, released < n ∧ n ≤ last ∧ LongEnough holdMs time released n) :
    ∃! n, released < n ∧ n ≤ last ∧ fires holdMs pressed time n = true := by
  classical
  obtain ⟨after, before, long⟩ := Nat.find_spec lasts
  have fresh : ∀ j, released < j → j < Nat.find lasts → ¬ LongEnough holdMs time released j :=
    fun j late early enough => Nat.find_min lasts early ⟨late, by omega, enough⟩
  have fired : fires holdMs pressed time (Nat.find lasts) = true :=
    (fires_iff_first paced _).mpr ⟨released, held.before after before, long, fresh⟩
  refine ⟨Nat.find lasts, ⟨after, before, fired⟩, ?_⟩
  rintro n ⟨late, early, other⟩
  by_contra different
  have between : ∃ j, released < j ∧ j ≤ last ∧ pressed j = false := by
    rcases Nat.lt_or_gt_of_ne different with order | order
    · obtain ⟨j, more, less, up⟩ := released_between paced order other fired
      exact ⟨j, by omega, by omega, up⟩
    · obtain ⟨j, more, less, up⟩ := released_between paced order fired other
      exact ⟨j, by omega, by omega, up⟩
  obtain ⟨j, more, less, up⟩ := between
  exact Bool.false_ne_true (up.symm.trans (held.2.2 j more less))

/-- The reset button fires once for each hold that lasts long enough after a release. -/
theorem reset_once_per_hold (paced : Paced holdMs time) :
    (∀ n, fires holdMs pressed time n = true ↔ ∃ released, HeldSince pressed released n ∧
      LongEnough holdMs time released n ∧
      ∀ j, released < j → j < n → ¬ LongEnough holdMs time released j) ∧
    (∀ released last, HeldSince pressed released last →
      (∃ n, released < n ∧ n ≤ last ∧ LongEnough holdMs time released n) →
      ∃! n, released < n ∧ n ≤ last ∧ fires holdMs pressed time n = true) ∧
    (∀ n, fires holdMs pressed time n = true → ∃ released < n, pressed released = false) ∧
    ∀ m n, m < n → fires holdMs pressed time m = true → fires holdMs pressed time n = true →
      ∃ released, m < released ∧ released < n ∧ pressed released = false := by
  refine ⟨fires_iff_first paced, fun _ _ => fires_once paced, fun n fired => ?_,
    fun _ _ => released_between paced⟩
  obtain ⟨released, ⟨before, up, -⟩, -⟩ := (fires_iff_first paced n).mp fired
  exact ⟨released, before, up⟩

end Trigger

/-- A button down at the start, let go once and then held for good, past the clock's end. -/
def heldForGood : Nat → Bool := fun n => n != 1

def everySecond : Nat → Nat := fun n => 4294950000 + 1000 * n

theorem reset_once_per_hold_sample :
    Paced 10000 everySecond ∧ fires 10000 heldForGood everySecond 12 = true ∧
      ∀ n, 12 < n → fires 10000 heldForGood everySecond n = false := by
  have paced : Paced 10000 everySecond := by
    intro n
    simp only [everySecond]
    exact ⟨by omega, by change _ < 4294957296; omega⟩
  refine ⟨paced, by decide, fun n order => ?_⟩
  by_contra twice
  obtain ⟨j, late, -, up⟩ := (reset_once_per_hold paced).2.2.2 12 n order (by decide)
    (Bool.eq_true_of_not_eq_false twice)
  have first : j = 1 := by simpa [heldForGood] using up
  omega

end Presence.Firmware
