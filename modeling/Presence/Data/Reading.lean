import Mathlib.Data.List.Basic

namespace Presence.Data

/-! # Computations that read a buffer

A computation looks at elements of a buffer by their index.  It returns, or stops with
an error, or looks where the buffer has nothing, and then it has no outcome at all.

`Meets` says of one buffer that nothing is read beyond its end and what the outcome
fulfils; `Stable` says that an outcome does not change when the buffer grows.
-/

variable {α ε β γ : Type}

def Reading (α ε β : Type) := List α → Option (Except ε β)

namespace Reading

instance : Monad (Reading α ε) where
  pure b := fun _ => some (.ok b)
  bind first next := fun buf =>
    match first buf with
    | none => none
    | some (.error e) => some (.error e)
    | some (.ok b) => next b buf

def stop (e : ε) : Reading α ε β := fun _ => some (.error e)

def stopIf (e : ε) (condition : Prop) [Decidable condition] : Reading α ε Unit :=
  if condition then stop e else pure ()

def orStop (e : ε) : Option β → Reading α ε β
  | none => stop e
  | some b => pure b

/-- What is at a pointer that may be null. -/
def deref : Option β → Reading α ε β
  | none => fun _ => none
  | some b => pure b

def peek (i : Nat) : Reading α ε α := fun buf => buf[i]?.map .ok

/-- How far behind `start` the first element is that passes the test, of so many. -/
def find (test : α → Bool) (start : Nat) : Nat → Reading α ε (Option Nat)
  | 0 => pure none
  | count + 1 => do
      if test (← peek start) then pure (some 0)
      else
        let found ← find test (start + 1) count
        pure (found.map (· + 1))

def slice (start : Nat) : Nat → Reading α ε (List α)
  | 0 => pure []
  | count + 1 => do
      let first ← peek start
      let rest ← slice (start + 1) count
      pure (first :: rest)

/-- Element by element, up to the first one that differs. -/
def agrees (same : α → α → Bool) (start : Nat) : List α → Reading α ε Bool
  | [] => pure true
  | expected :: rest => do
      if same (← peek start) expected then agrees same (start + 1) rest else pure false

section

variable {reading : Reading α ε β} {next : β → Reading α ε γ} {buf : List α}

theorem bind_of_ok {b : β} (read : reading buf = some (.ok b)) : (reading >>= next) buf = next b buf := by
  simp only [Bind.bind, read]

theorem bind_of_error {e : ε} (read : reading buf = some (.error e)) :
    (reading >>= next) buf = some (.error e) := by
  simp only [Bind.bind, read]

theorem bind_eq_some {outcome : Except ε γ} (read : (reading >>= next) buf = some outcome) :
    (∃ e, reading buf = some (.error e) ∧ outcome = .error e) ∨
      ∃ b, reading buf = some (.ok b) ∧ next b buf = some outcome := by
  simp only [Bind.bind] at read
  split at read
  next => cases read
  next e stopped => exact .inl ⟨e, stopped, (Option.some.inj read).symm⟩
  next b returned => exact .inr ⟨b, returned, read⟩

theorem find_lt {test : α → Bool} {start count k : Nat}
    (found : (find test start count : Reading α ε (Option Nat)) buf = some (.ok (some k))) : k < count := by
  induction count generalizing start k with
  | zero => cases found
  | succ count ih =>
      obtain ⟨_, _, stopped⟩ | ⟨c, -, found⟩ := bind_eq_some found
      · cases stopped
      split at found
      next =>
        cases found
        exact Nat.succ_pos count
      next =>
        obtain ⟨_, _, stopped⟩ | ⟨later, looked, found⟩ := bind_eq_some found
        · cases stopped
        cases later with
        | none => cases found
        | some k =>
            cases found
            exact Nat.succ_lt_succ (ih looked)

end

/-! ## Outcomes -/

def Meets (reading : Reading α ε β) (buf : List α) (stopped : ε → Prop) (post : β → Prop) : Prop :=
  match reading buf with
  | none => False
  | some (.error e) => stopped e
  | some (.ok b) => post b

section

variable {reading : Reading α ε β} {next : β → Reading α ε γ} {buf : List α} {stopped : ε → Prop}

theorem Meets.outcome {post : β → Prop} (meets : reading.Meets buf stopped post) :
    (∃ e, reading buf = some (.error e) ∧ stopped e) ∨ ∃ b, reading buf = some (.ok b) ∧ post b := by
  unfold Meets at meets
  split at meets
  next => exact meets.elim
  next e same => exact .inl ⟨e, same, meets⟩
  next b same => exact .inr ⟨b, same, meets⟩

theorem meets_pure {b : β} {post : β → Prop} (holds : post b) :
    Meets (pure b : Reading α ε β) buf stopped post := holds

theorem meets_of_ok {b : β} {post : β → Prop} (read : reading buf = some (.ok b)) (holds : post b) :
    reading.Meets buf stopped post := by
  simpa only [Meets, read] using holds

theorem meets_stop {e : ε} {post : β → Prop} (holds : stopped e) :
    Meets (stop e : Reading α ε β) buf stopped post := holds

theorem Meets.bind {post : γ → Prop}
    (meets : reading.Meets buf stopped fun b => (next b).Meets buf stopped post) :
    Meets (reading >>= next) buf stopped post := by
  obtain ⟨e, same, holds⟩ | ⟨b, same, holds⟩ := meets.outcome
  · simpa only [Meets, Bind.bind, same] using holds
  · simpa only [Meets, Bind.bind, same] using holds

theorem Meets.imp {halted : ε → Prop} {post weaker : β → Prop} (meets : reading.Meets buf stopped post)
    (stops : ∀ e, stopped e → halted e) (imply : ∀ b, post b → weaker b) :
    reading.Meets buf halted weaker := by
  obtain ⟨e, same, holds⟩ | ⟨b, same, holds⟩ := meets.outcome
  · simpa only [Meets, same] using stops e holds
  · simpa only [Meets, same] using imply b holds

theorem Meets.mono {post weaker : β → Prop} (meets : reading.Meets buf stopped post)
    (imply : ∀ b, post b → weaker b) : reading.Meets buf stopped weaker :=
  meets.imp (fun _ holds => holds) imply

theorem meets_stopIf {e : ε} {condition : Prop} [Decidable condition] {post : Unit → Prop}
    (stops : condition → stopped e) (goes : ¬ condition → post ()) :
    Meets (stopIf e condition : Reading α ε Unit) buf stopped post := by
  unfold stopIf
  split
  next holds => exact meets_stop (stops holds)
  next fails => exact meets_pure (goes fails)

/-- So many elements from an index on, and what is around them. -/
theorem exists_window {start count : Nat} (inside : start + count ≤ buf.length) :
    ∃ before mid after, buf = before ++ (mid ++ after) ∧ before.length = start ∧ mid.length = count := by
  refine ⟨buf.take start, (buf.drop start).take count, (buf.drop start).drop count, ?_, ?_, ?_⟩
  · rw [List.take_append_drop, List.take_append_drop]
  · rw [List.length_take]
    omega
  · rw [List.length_take, List.length_drop]
    omega

theorem meets_peek {before after : List α} {c : α} {i : Nat} {post : α → Prop}
    (shape : buf = before ++ c :: after) (index : before.length = i) (holds : post c) :
    Meets (peek i : Reading α ε α) buf stopped post := by
  subst shape index
  simpa only [Meets, peek, List.getElem?_append_right (Nat.le_refl _), Nat.sub_self,
    List.getElem?_cons_zero, Option.map_some] using holds

/-- The first element that passes, if there is one among `mid`. -/
theorem meets_find {test : α → Bool} {before mid after : List α} {start count : Nat}
    {post : Option Nat → Prop} (shape : buf = before ++ (mid ++ after)) (index : before.length = start)
    (length : mid.length = count) (absent : (∀ c ∈ mid, test c = false) → post none)
    (present : ∀ front c back, mid = front ++ c :: back → (∀ d ∈ front, test d = false) →
      test c = true → post (some front.length)) :
    Meets (find test start count : Reading α ε (Option Nat)) buf stopped post := by
  induction mid generalizing before start count post with
  | nil =>
      subst length
      exact meets_pure (absent (by simp))
  | cons c mid ih =>
      subst length
      apply Meets.bind
      refine meets_peek shape index ?_
      split
      next passes => exact meets_pure (present [] c mid rfl (by simp) passes)
      next fails =>
        have fails : test c = false := by simpa using fails
        apply Meets.bind
        refine ih (shape.trans (List.append_cons before c _)) (by simp [index]) rfl ?_ ?_
        · intro none
          exact meets_pure (absent (by simpa [fails] using none))
        · intro front d back split before passes
          exact meets_pure (present (c :: front) d back (by rw [split]; rfl)
            (by simpa [fails] using before) passes)

theorem meets_slice {before mid after : List α} {start count : Nat} {post : List α → Prop}
    (shape : buf = before ++ (mid ++ after)) (index : before.length = start)
    (length : mid.length = count) (holds : post mid) :
    Meets (slice start count : Reading α ε (List α)) buf stopped post := by
  induction mid generalizing before start count post with
  | nil =>
      subst length
      exact meets_pure holds
  | cons c mid ih =>
      subst length
      apply Meets.bind
      refine meets_peek shape index ?_
      apply Meets.bind
      exact ih (shape.trans (List.append_cons before c _)) (by simp [index]) rfl (meets_pure holds)

theorem meets_agrees {same : α → α → Bool} {before mid after text : List α} {start : Nat}
    {post : Bool → Prop} (shape : buf = before ++ (mid ++ after)) (index : before.length = start)
    (length : mid.length = text.length)
    (holds : ∀ b, (b = true ↔ List.Forall₂ (fun c expected => same c expected = true) mid text) → post b) :
    Meets (agrees same start text : Reading α ε Bool) buf stopped post := by
  induction text generalizing before mid start post with
  | nil =>
      have empty : mid = [] := List.eq_nil_of_length_eq_zero length
      subst empty
      exact meets_pure (holds true (by simp))
  | cons expected text ih =>
      cases mid with
      | nil => cases length
      | cons c mid =>
          apply Meets.bind
          refine meets_peek shape index ?_
          split
          next equal =>
            refine ih (shape.trans (List.append_cons before c _)) (by simp [index]) (by simpa using length) ?_
            intro b iff
            exact holds b (by rw [iff, List.forall₂_cons]; simp [equal])
          next different =>
            exact meets_pure (holds false (by rw [List.forall₂_cons]; simp [different]))

end

/-! ## Growing buffers -/

/-- Any outcome of one on a buffer is that of the other on a longer one. -/
def Extends (first second : Reading α ε β) (buf longer : List α) : Prop :=
  ∀ outcome, first buf = some outcome → second longer = some outcome

theorem Extends.bind {first second : Reading α ε β} {next later : β → Reading α ε γ} {buf longer : List α}
    (extend : first.Extends second buf longer)
    (after : ∀ b, first buf = some (.ok b) → (next b).Extends (later b) buf longer) :
    (first >>= next).Extends (second >>= later) buf longer := by
  intro outcome same
  obtain ⟨e, stopped, rfl⟩ | ⟨b, returned, same⟩ := bind_eq_some same
  · exact bind_of_error (extend _ stopped)
  · rw [bind_of_ok (extend _ returned)]
    exact after b returned outcome same

def Stable (reading : Reading α ε β) : Prop :=
  ∀ buf more, reading.Extends reading buf (buf ++ more)

section

variable {reading : Reading α ε β} {next : β → Reading α ε γ}

theorem stable_pure (b : β) : Stable (pure b : Reading α ε β) := fun _ _ _ same => same

theorem stable_stop (e : ε) : Stable (stop e : Reading α ε β) := fun _ _ _ same => same

theorem Stable.bind (first : Stable reading) (later : ∀ b, Stable (next b)) : Stable (reading >>= next) :=
  fun buf more => (first buf more).bind fun b _ => later b buf more

theorem stable_stopIf (e : ε) (condition : Prop) [Decidable condition] :
    Stable (stopIf e condition : Reading α ε Unit) := by
  unfold stopIf
  split
  next => exact stable_stop e
  next => exact stable_pure ()

theorem stable_orStop (e : ε) (b : Option β) : Stable (orStop e b : Reading α ε β) := by
  cases b with
  | none => exact stable_stop e
  | some b => exact stable_pure b

theorem stable_deref (b : Option β) : Stable (deref b : Reading α ε β) := by
  cases b with
  | none =>
      intro buf more outcome same
      cases same
  | some b => exact stable_pure b

theorem stable_peek (i : Nat) : Stable (peek i : Reading α ε α) := by
  intro buf more outcome same
  simp only [peek, Option.map_eq_some_iff] at same ⊢
  obtain ⟨c, inside, rfl⟩ := same
  obtain ⟨bound, -⟩ := List.getElem?_eq_some_iff.mp inside
  exact ⟨c, by rwa [List.getElem?_append_left bound], rfl⟩

theorem stable_find (test : α → Bool) (start count : Nat) :
    Stable (find test start count : Reading α ε (Option Nat)) := by
  induction count generalizing start with
  | zero => exact stable_pure none
  | succ count ih =>
      refine (stable_peek start).bind fun c => ?_
      split
      next => exact stable_pure _
      next => exact (ih (start + 1)).bind fun found => stable_pure _

theorem stable_slice (start count : Nat) : Stable (slice start count : Reading α ε (List α)) := by
  induction count generalizing start with
  | zero => exact stable_pure []
  | succ count ih =>
      exact (stable_peek start).bind fun first => (ih (start + 1)).bind fun rest => stable_pure _

theorem stable_agrees (same : α → α → Bool) (start : Nat) (text : List α) :
    Stable (agrees same start text : Reading α ε Bool) := by
  induction text generalizing start with
  | nil => exact stable_pure true
  | cons expected rest ih =>
      refine (stable_peek start).bind fun c => ?_
      split
      next => exact ih (start + 1)
      next => exact stable_pure false

end

end Reading

end Presence.Data
