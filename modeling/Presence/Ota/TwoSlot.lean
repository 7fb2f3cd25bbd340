import Presence.Ota.Terminal

namespace Presence.Ota

open Presence.Data

/-! # One slot always works

The home slot holds the image that was confirmed last, and the bootloader comes
back to it unless a newer image waits in the other slot for its one chance.
-/

section

variable (builtAs : List UInt8 → List UInt8)

def codeOf (image : List UInt8) : Option UInt64 := parseOtaVersion (builtAs image)

/-- Both are versioned, and the first is strictly newer. -/
def Newer (image older : List UInt8) : Prop :=
  ∃ candidate running, codeOf builtAs image = some candidate ∧
    codeOf builtAs older = some running ∧ running < candidate

structure Home (flash : Flash) (home : SlotId) (current : List UInt8) (earlier : List (List UInt8)) :
    Prop where
  confirmed : flash.confirmed = current :: earlier
  increasing : flash.confirmed.Pairwise (Newer builtAs)
  held : (flash.device.slot home).image = some current
  bootable : (flash.device.slot home).hasEntry = true ∧ (flash.device.slot home).state = .valid ∨
    home = .app0 ∧ (flash.device.slot home).hasEntry = false

/-- The bootloader passes over the other slot. -/
def Resting (home other : Slot) : Prop :=
  other.hasEntry = false ∨ other.state = .aborted ∨ other.state = .invalid ∨
    home.hasEntry = true ∧ other.state = .valid ∧ other.seq < home.seq

/-- A newer image that has not been confirmed. -/
structure Candidate (home other : Slot) (current image : List UInt8) : Prop where
  entry : other.hasEntry = true
  held : other.image = some image
  newer : Newer builtAs image current
  ahead : home.hasEntry = true → home.seq < other.seq

/-- The other slot while the power is off. -/
def Spare (home other : Slot) (current : List UInt8) : Prop :=
  Resting home other ∨
    ∃ image, Candidate builtAs home other current image ∧
      (other.state = .new ∨ other.state = .pendingVerify)

/-- The floor is a version that ran and was confirmed. -/
def Proven (confirmed : List (List UInt8)) (floor : UInt64) : Prop :=
  floor = 0 ∨ ∃ image ∈ confirmed, codeOf builtAs image = some floor

def Persistent (flash : Flash) : Prop :=
  ∃ home current earlier, Home builtAs flash home current earlier ∧
    Spare builtAs (flash.device.slot home) (flash.device.slot home.other) current ∧
    Proven builtAs flash.confirmed flash.floor

/-- The confirmed image runs. -/
structure AtHome (flash : Flash) (home : SlotId) (current : List UInt8)
    (earlier : List (List UInt8)) : Prop extends Home builtAs flash home current earlier where
  running : flash.device.running = home
  resting : Resting (flash.device.slot home) (flash.device.slot home.other)

/-- The candidate runs, or was just given up and has not been reset yet. -/
structure OnTrial (flash : Flash) (home : SlotId) (current image : List UInt8)
    (earlier : List (List UInt8)) : Prop extends Home builtAs flash home current earlier where
  running : flash.device.running = home.other
  candidate : Candidate builtAs (flash.device.slot home) (flash.device.slot home.other) current image
  state : (flash.device.slot home.other).state = .pendingVerify ∨
    (flash.device.slot home.other).state = .invalid

/-- What the guard knows in RAM of what is in NVS. -/
structure Informed (flash : Flash) (guard : OtaGuard) : Prop where
  magic : guard.st.magic = kOtaStateMagic
  proven : Proven builtAs flash.confirmed guard.st.floor
  floor : flash.floor ≤ guard.st.floor

end

/-! ## The bootloader -/

section

variable {builtAs : List UInt8 → List UInt8} {flash : Flash} {home : SlotId}
  {current image : List UInt8} {earlier : List (List UInt8)}

theorem pick_home {slot : SlotId → Slot}
    (bootable : (slot home).hasEntry = true ∧ (slot home).state = .valid ∨
      home = .app0 ∧ (slot home).hasEntry = false)
    (resting : Resting (slot home) (slot home.other)) : SimDevice.pick slot = home := by
  have passed : (slot home.other).selectable = false ∨
      (slot home).hasEntry = true ∧ (slot home.other).seq < (slot home).seq := by
    rcases resting with absent | aborted | invalid | older
    · exact .inl (by simp [Slot.selectable, absent])
    · exact .inl (by simp [Slot.selectable, aborted])
    · exact .inl (by simp [Slot.selectable, invalid])
    · exact .inr ⟨older.1, older.2.2⟩
  rcases bootable with ⟨entry, valid⟩ | ⟨rfl, absent⟩
  · have selectable : (slot home).selectable = true := by simp [Slot.selectable, entry, valid]
    cases home with
    | app0 =>
        rcases passed with skipped | ⟨-, older⟩
        · have skipped : (slot .app1).selectable = false := skipped
          simp [SimDevice.pick, selectable, skipped]
        · have older : (slot .app1).seq < (slot .app0).seq := older
          have order : ¬ (slot .app0).seq < (slot .app1).seq := by omega
          simp [SimDevice.pick, selectable, order]
    | app1 =>
        rcases passed with skipped | ⟨-, older⟩
        · have skipped : (slot .app0).selectable = false := skipped
          simp [SimDevice.pick, selectable, skipped]
        · have older : (slot .app0).seq < (slot .app1).seq := older
          simp [SimDevice.pick, selectable, older]
  · have skipped : (slot .app1).selectable = false := by
      rcases passed with skipped | ⟨entry, -⟩
      · exact skipped
      · rw [absent] at entry
        cases entry
    have unnamed : (slot .app0).selectable = false := by simp [Slot.selectable, absent]
    simp [SimDevice.pick, unnamed, skipped]

theorem pick_other {slot : SlotId → Slot} (candidate : (slot home.other).selectable = true)
    (bootable : (slot home).hasEntry = true ∧ (slot home).state = .valid ∨
      home = .app0 ∧ (slot home).hasEntry = false)
    (ahead : (slot home).hasEntry = true → (slot home).seq < (slot home.other).seq) :
    SimDevice.pick slot = home.other := by
  rcases bootable with ⟨entry, valid⟩ | ⟨rfl, absent⟩
  · have selectable : (slot home).selectable = true := by simp [Slot.selectable, entry, valid]
    have older := ahead entry
    cases home with
    | app0 =>
        have candidate : (slot .app1).selectable = true := candidate
        have older : (slot .app0).seq < (slot .app1).seq := older
        simp [SimDevice.pick, selectable, candidate, older, SlotId.other]
    | app1 =>
        have candidate : (slot .app0).selectable = true := candidate
        have older : (slot .app1).seq < (slot .app0).seq := older
        have order : ¬ (slot .app0).seq < (slot .app1).seq := by omega
        simp [SimDevice.pick, candidate, order, SlotId.other]
  · have candidate : (slot .app1).selectable = true := candidate
    have skipped : (slot .app0).selectable = false := by simp [Slot.selectable, absent]
    simp [SimDevice.pick, candidate, skipped, SlotId.other]

theorem SlotId.eq_or_eq_other (home id : SlotId) : id = home ∨ id = home.other := by
  cases home <;> cases id <;> simp [SlotId.other]

theorem abortPending_of_ne {slot : Slot} (other : slot.state ≠ .pendingVerify) :
    SimDevice.abortPending slot = slot := by
  simp [SimDevice.abortPending, other]

theorem abortPending_of_absent {slot : Slot} (absent : slot.hasEntry = false) :
    SimDevice.abortPending slot = slot := by
  simp [SimDevice.abortPending, absent]

theorem Home.abortPending (stands : Home builtAs flash home current earlier) :
    SimDevice.abortPending (flash.device.slot home) = flash.device.slot home := by
  rcases stands.bootable with ⟨-, valid⟩ | ⟨-, absent⟩
  · exact abortPending_of_ne (by simp [valid])
  · exact abortPending_of_absent absent

theorem Home.not_new (stands : Home builtAs flash home current earlier) :
    ((flash.device.slot home).hasEntry && (flash.device.slot home).state == .new) = false := by
  rcases stands.bootable with ⟨-, valid⟩ | ⟨-, absent⟩
  · simp [valid]
  · simp [absent]

theorem Resting.abortPending {slot other : Slot} (resting : Resting slot other) :
    SimDevice.abortPending other = other := by
  rcases resting with absent | aborted | invalid | older
  · exact abortPending_of_absent absent
  · exact abortPending_of_ne (by simp [aborted])
  · exact abortPending_of_ne (by simp [invalid])
  · exact abortPending_of_ne (by simp [older.2.1])

theorem bootloader_eq {device : SimDevice} {slot : SlotId → Slot} {running : SlotId}
    (aborted : (fun id => SimDevice.abortPending (device.slot id)) = slot)
    (picked : SimDevice.pick slot = running) :
    device.bootloader =
      ⟨if (slot running).hasEntry && (slot running).state == .new then
        Function.update slot running { slot running with state := .pendingVerify }
      else slot, running⟩ := by
  subst aborted picked
  rfl

theorem bootloader_resting (stands : Home builtAs flash home current earlier)
    (resting : Resting (flash.device.slot home) (flash.device.slot home.other)) :
    flash.device.bootloader = { flash.device with running := home } := by
  have kept : (fun id => SimDevice.abortPending (flash.device.slot id)) = flash.device.slot := by
    funext id
    rcases SlotId.eq_or_eq_other home id with rfl | rfl
    · exact stands.abortPending
    · exact resting.abortPending
  rw [bootloader_eq kept (pick_home stands.bootable resting), stands.not_new]
  rfl

theorem bootloader_pending (stands : Home builtAs flash home current earlier)
    (candidate : Candidate builtAs (flash.device.slot home) (flash.device.slot home.other)
      current image)
    (pending : (flash.device.slot home.other).state = .pendingVerify) :
    flash.device.bootloader =
      ⟨Function.update flash.device.slot home.other
        { flash.device.slot home.other with state := .aborted }, home⟩ := by
  have aborted : (fun id => SimDevice.abortPending (flash.device.slot id)) =
      Function.update flash.device.slot home.other
        { flash.device.slot home.other with state := .aborted } := by
    funext id
    rcases SlotId.eq_or_eq_other home id with rfl | rfl
    · rw [Function.update_of_ne (SlotId.ne_other _)]
      exact stands.abortPending
    · simp [SimDevice.abortPending, candidate.entry, pending]
  have picked : SimDevice.pick (Function.update flash.device.slot home.other
      { flash.device.slot home.other with state := .aborted }) = home := by
    apply pick_home
    · simpa using stands.bootable
    · exact .inr (.inl (by simp))
  rw [bootloader_eq aborted picked, Function.update_of_ne (SlotId.ne_other _), stands.not_new]
  rfl

theorem bootloader_new (stands : Home builtAs flash home current earlier)
    (candidate : Candidate builtAs (flash.device.slot home) (flash.device.slot home.other)
      current image)
    (fresh : (flash.device.slot home.other).state = .new) :
    flash.device.bootloader =
      ⟨Function.update flash.device.slot home.other
        { flash.device.slot home.other with state := .pendingVerify }, home.other⟩ := by
  have kept : (fun id => SimDevice.abortPending (flash.device.slot id)) = flash.device.slot := by
    funext id
    rcases SlotId.eq_or_eq_other home id with rfl | rfl
    · exact stands.abortPending
    · exact abortPending_of_ne (by simp [fresh])
  have selectable : (flash.device.slot home.other).selectable = true := by
    simp [Slot.selectable, candidate.entry, fresh]
  rw [bootloader_eq kept (pick_other selectable stands.bootable candidate.ahead), candidate.entry,
    fresh]
  rfl

/-! ## Calls -/

/-- The floor in NVS is proven and at least what it was. -/
structure Sound (builtAs : List UInt8 → List UInt8) (lower : UInt64) (flash : Flash) : Prop where
  persistent : Persistent builtAs flash
  floor : lower ≤ flash.floor

/-- The confirmed image runs under its guard. -/
structure Serving (builtAs : List UInt8 → List UInt8) (lower : UInt64) (guard : OtaGuard)
    (home : SlotId) (current : List UInt8) (earlier : List (List UInt8)) (flash : Flash) : Prop where
  atHome : AtHome builtAs flash home current earlier
  informed : Informed builtAs flash guard
  proven : Proven builtAs flash.confirmed flash.floor
  floor : lower ≤ flash.floor

/-- The candidate runs under its guard. -/
structure Trying (builtAs : List UInt8 → List UInt8) (lower : UInt64) (guard : OtaGuard)
    (home : SlotId) (current image : List UInt8) (earlier : List (List UInt8)) (flash : Flash) :
    Prop where
  onTrial : OnTrial builtAs flash home current image earlier
  informed : Informed builtAs flash guard
  proven : Proven builtAs flash.confirmed flash.floor
  floor : lower ≤ flash.floor

variable {lower : UInt64} {guard : OtaGuard} {st : OtaPersistedState}

theorem Serving.sound (serving : Serving builtAs lower guard home current earlier flash) :
    Sound builtAs lower flash :=
  ⟨⟨home, current, earlier, serving.atHome.toHome, .inl serving.atHome.resting, serving.proven⟩,
    serving.floor⟩

theorem OnTrial.spare (trial : OnTrial builtAs flash home current image earlier) :
    Spare builtAs (flash.device.slot home) (flash.device.slot home.other) current := by
  rcases trial.state with pending | invalid
  · exact .inr ⟨image, trial.candidate, .inr pending⟩
  · exact .inl (.inr (.inr (.inl invalid)))

theorem Trying.sound (trying : Trying builtAs lower guard home current image earlier flash) :
    Sound builtAs lower flash :=
  ⟨⟨home, current, earlier, trying.onTrial.toHome, trying.onTrial.spare, trying.proven⟩,
    trying.floor⟩

theorem floor_save (magic : st.magic = kOtaStateMagic) :
    (flash.perform (.guard (.save st))).floor = st.floor := by
  change (OtaPersistedState.usable (some st)).floor = _
  rw [OtaPersistedState.usable_of_magic magic]

/-- Saving a blob that knows at least the floor in RAM. -/
theorem Informed.save (informed : Informed builtAs flash guard)
    (magic : st.magic = kOtaStateMagic) (floor : st.floor = guard.st.floor) :
    Informed builtAs (flash.perform (.guard (.save st))) guard := by
  refine ⟨informed.magic, informed.proven, ?_⟩
  rw [floor_save magic, floor]
  exact UInt64.le_refl _

theorem Home.transfer {next : Flash} (stands : Home builtAs flash home current earlier)
    (confirmed : next.confirmed = flash.confirmed)
    (kept : next.device.slot home = flash.device.slot home) :
    Home builtAs next home current earlier := by
  obtain ⟨listed, increasing, held, bootable⟩ := stands
  rw [← confirmed] at listed increasing
  rw [← kept] at held bootable
  exact ⟨listed, increasing, held, bootable⟩

theorem Serving.save (serving : Serving builtAs lower guard home current earlier flash)
    (magic : st.magic = kOtaStateMagic) (floor : st.floor = guard.st.floor) :
    Serving builtAs lower guard home current earlier (flash.perform (.guard (.save st))) := by
  obtain ⟨⟨home, running, resting⟩, informed, proven, lower⟩ := serving
  refine ⟨⟨home.transfer rfl rfl, running, resting⟩, informed.save magic floor, ?_, ?_⟩
  · rw [floor_save magic, floor]
    exact informed.proven
  · rw [floor_save magic, floor]
    exact UInt64.le_trans lower informed.floor

theorem Trying.save (trying : Trying builtAs lower guard home current image earlier flash)
    (magic : st.magic = kOtaStateMagic) (floor : st.floor = guard.st.floor) :
    Trying builtAs lower guard home current image earlier (flash.perform (.guard (.save st))) := by
  obtain ⟨⟨home, running, candidate, state⟩, informed, proven, lower⟩ := trying
  refine ⟨⟨home.transfer rfl rfl, running, candidate, state⟩, informed.save magic floor, ?_, ?_⟩
  · rw [floor_save magic, floor]
    exact informed.proven
  · rw [floor_save magic, floor]
    exact UInt64.le_trans lower informed.floor

theorem AtHome.idle (atHome : AtHome builtAs flash home current earlier) :
    flash.device.idle = home.other := by
  rw [SimDevice.idle, atHome.running]

theorem AtHome.writeIdle (atHome : AtHome builtAs flash home current earlier)
    (content : Option (List UInt8)) :
    AtHome builtAs { flash with device := flash.device.writeIdle content } home current earlier := by
  have kept : (flash.device.writeIdle content).slot home = flash.device.slot home := by
    simp [SimDevice.writeIdle, SimDevice.set, atHome.idle]
  have other : (flash.device.writeIdle content).slot home.other =
      { flash.device.slot home.other with image := content } := by
    simp [SimDevice.writeIdle, SimDevice.set, atHome.idle]
  refine ⟨atHome.toHome.transfer rfl kept, atHome.running, ?_⟩
  rw [kept, other]
  exact atHome.resting

theorem Serving.writeIdle (serving : Serving builtAs lower guard home current earlier flash)
    (content : Option (List UInt8)) :
    Serving builtAs lower guard home current earlier
      { flash with device := flash.device.writeIdle content } :=
  ⟨serving.atHome.writeIdle content, ⟨serving.informed.magic, serving.informed.proven,
    serving.informed.floor⟩, serving.proven, serving.floor⟩

theorem Serving.perform (serving : Serving builtAs lower guard home current earlier flash)
    {call : FlashCall} (harmless : Harmless guard.st call) :
    Serving builtAs lower guard home current earlier (flash.perform call) := by
  cases harmless with
  | eraseIdle => exact serving.writeIdle none
  | writeIdle image => exact serving.writeIdle (some image)
  | save keeps => exact serving.save (keeps.magic.trans serving.informed.magic) keeps.floor

theorem Serving.performAll (serving : Serving builtAs lower guard home current earlier flash)
    {calls : List FlashCall} (harmless : ∀ call ∈ calls, Harmless guard.st call) :
    Throughout Flash.perform (Serving builtAs lower guard home current earlier) flash calls :=
  throughout_of_preserved serving fun _ call member before => before.perform (harmless call member)

/-- Making a newer image bootable leaves the way back open. -/
theorem Serving.setBootIdle (serving : Serving builtAs lower guard home current earlier flash)
    (written : (flash.device.slot home.other).image = some image)
    (newer : Newer builtAs image current) : Sound builtAs lower (flash.perform .setBootIdle) := by
  have atHome := serving.atHome
  have kept : (flash.perform .setBootIdle).device.slot home = flash.device.slot home := by
    simp [Flash.perform, SimDevice.setBootIdle, SimDevice.set, atHome.idle]
  have other : (flash.perform .setBootIdle).device.slot home.other =
      { flash.device.slot home.other with
        hasEntry := true
        seq := max (flash.device.slot .app0).seq (flash.device.slot .app1).seq + 1
        state := .new } := by
    simp [Flash.perform, SimDevice.setBootIdle, SimDevice.set, atHome.idle]
  refine ⟨⟨home, current, earlier, atHome.toHome.transfer rfl kept, ?_, serving.proven⟩,
    serving.floor⟩
  rw [kept, other]
  refine .inr ⟨image, ⟨rfl, written, newer, fun _ => ?_⟩, .inl rfl⟩
  change (flash.device.slot home).seq < max _ _ + 1
  cases home with
  | app0 => omega
  | app1 => omega

theorem Trying.rollback (trying : Trying builtAs lower guard home current image earlier flash) :
    Trying builtAs lower guard home current image earlier (flash.perform (.guard .rollback)) := by
  obtain ⟨trial, informed, proven, lower⟩ := trying
  refine ⟨?_, ⟨informed.magic, informed.proven, informed.floor⟩, proven, lower⟩
  by_cases back : (flash.device.slot flash.device.idle).selectable = true
  · have kept : (flash.perform (.guard .rollback)).device.slot home = flash.device.slot home := by
      simp [Flash.perform, SimDevice.rollback, SimDevice.set, back, trial.running]
    have other : (flash.perform (.guard .rollback)).device.slot home.other =
        { flash.device.slot home.other with state := .invalid } := by
      simp [Flash.perform, SimDevice.rollback, SimDevice.set, SimDevice.runningSlot, back,
        trial.running]
    have running : (flash.perform (.guard .rollback)).device.running = home.other := by
      simp [Flash.perform, SimDevice.rollback, SimDevice.set, back, trial.running]
    refine ⟨trial.toHome.transfer rfl kept, running, ?_, ?_⟩
    · rw [kept, other]
      exact ⟨trial.candidate.entry, trial.candidate.held, trial.candidate.newer,
        trial.candidate.ahead⟩
    · exact .inr (congrArg Slot.state other)
  · have same : flash.device.rollback = flash.device := by
      simp only [SimDevice.rollback, back, if_false, Bool.false_eq_true]
    change OnTrial builtAs { flash with device := flash.device.rollback } home current image earlier
    rw [same]
    exact trial

/-- The confirmed candidate takes over as the image to fall back to. -/
theorem OnTrial.markValid (trial : OnTrial builtAs flash home current image earlier) :
    AtHome builtAs (flash.perform (.guard .markValid)) home.other image (current :: earlier) := by
  have runningSlot : flash.device.runningSlot = flash.device.slot home.other := by
    rw [SimDevice.runningSlot, trial.running]
  have marked : flash.device.markValid =
      flash.device.set home.other { flash.device.slot home.other with state := .valid } := by
    simp [SimDevice.markValid, runningSlot, trial.candidate.entry, trial.running]
  have confirmed : (flash.perform (.guard .markValid)).confirmed = image :: current :: earlier := by
    change flash.device.runningSlot.image.toList ++ flash.confirmed = _
    rw [runningSlot, trial.candidate.held, trial.confirmed]
    rfl
  have device : (flash.perform (.guard .markValid)).device =
      flash.device.set home.other { flash.device.slot home.other with state := .valid } := marked
  have older : ((flash.perform (.guard .markValid)).device.slot home) = flash.device.slot home := by
    rw [device]
    simp [SimDevice.set]
  have newest : ((flash.perform (.guard .markValid)).device.slot home.other) =
      { flash.device.slot home.other with state := .valid } := by
    rw [device]
    simp [SimDevice.set]
  refine ⟨⟨confirmed, ?_, ?_, ?_⟩, ?_, ?_⟩
  · rw [confirmed]
    have sorted := trial.increasing
    rw [trial.confirmed] at sorted
    refine List.pairwise_cons.mpr ⟨?_, sorted⟩
    intro older member
    rcases List.mem_cons.mp member with rfl | below
    · exact trial.candidate.newer
    · obtain ⟨candidate, running, read, known, less⟩ := trial.candidate.newer
      obtain ⟨middle, oldest, same, old, lesser⟩ := (List.pairwise_cons.mp sorted).1 older below
      rw [known] at same
      cases same
      exact ⟨candidate, oldest, read, old, UInt64.lt_trans lesser less⟩
  · rw [newest]
    exact trial.candidate.held
  · rw [newest]
    exact .inl ⟨trial.candidate.entry, rfl⟩
  · rw [device]
    exact trial.running
  · rw [SlotId.other_other, older, newest]
    rcases trial.bootable with ⟨entry, valid⟩ | ⟨-, absent⟩
    · exact .inr (.inr (.inr ⟨trial.candidate.entry, valid, trial.candidate.ahead entry⟩))
    · exact .inl absent

theorem Proven.cons {confirmed : List (List UInt8)} {floor : UInt64}
    (proven : Proven builtAs confirmed floor) (image : List UInt8) :
    Proven builtAs (image :: confirmed) floor := by
  rcases proven with zero | ⟨older, member, read⟩
  · exact .inl zero
  · exact .inr ⟨older, List.mem_cons_of_mem _ member, read⟩

theorem Serving.kept {after : OtaGuard}
    (serving : Serving builtAs lower guard home current earlier flash) (kept : Kept guard after) :
    Serving builtAs lower after home current earlier flash := by
  refine ⟨serving.atHome, ⟨kept.keeps.magic.trans serving.informed.magic, ?_, ?_⟩,
    serving.proven, serving.floor⟩
  · rw [kept.keeps.floor]
    exact serving.informed.proven
  · rw [kept.keeps.floor]
    exact serving.informed.floor

theorem Serving.saves (serving : Serving builtAs lower guard home current earlier flash)
    {calls : List Call} (saves : OtaGuard.Saves guard.st calls) :
    Throughout Flash.perform (Serving builtAs lower guard home current earlier) flash
      (calls.map .guard) := by
  rcases saves with rfl | rfl
  · exact serving
  · exact ⟨serving, serving.save serving.informed.magic rfl⟩

theorem Trying.saves (trying : Trying builtAs lower guard home current image earlier flash)
    {calls : List Call} (saves : OtaGuard.Saves guard.st calls) :
    Throughout Flash.perform (Trying builtAs lower guard home current image earlier) flash
      (calls.map .guard) := by
  rcases saves with rfl | rfl
  · exact trying
  · exact ⟨trying, trying.save trying.informed.magic rfl⟩

/-- The floor a healthy image leaves is proven once that image is confirmed. -/
theorem proven_settled {confirmed : List (List UInt8)}
    (proven : Proven builtAs confirmed guard.st.floor) (member : image ∈ confirmed)
    (running : guard.running = codeOf builtAs image) :
    Proven builtAs confirmed guard.settled.floor := by
  obtain ⟨-, -, -, same | ⟨raised, -⟩⟩ := guard.settled_spec
  · rw [same]
    exact proven
  · exact .inr ⟨image, member, by rw [← running, raised]⟩

theorem floor_le_settled (guard : OtaGuard) : guard.st.floor ≤ guard.settled.floor := by
  obtain ⟨-, -, -, same | ⟨-, higher⟩⟩ := guard.settled_spec
  · rw [same]
    exact UInt64.le_refl _
  · exact UInt64.le_of_lt higher

/-! ## What the invariant gives -/

/-- At most one boot away the bootloader comes to this slot.  A boot before that is
the one chance of an update. -/
def FallsBack (device : SimDevice) (id : SlotId) : Prop :=
  device.bootloader.running = id ∨
    device.bootloader.runningPending = true ∧ device.bootloader.bootloader.running = id

theorem Persistent.fallsBack (persistent : Persistent builtAs flash) :
    ∃ id, ∃ image ∈ flash.confirmed, (flash.device.slot id).image = some image ∧
      FallsBack flash.device id := by
  obtain ⟨home, current, earlier, stands, spare, -⟩ := persistent
  refine ⟨home, current, by simp [stands.confirmed], stands.held, ?_⟩
  rcases spare with resting | ⟨image, candidate, fresh | pending⟩
  · exact .inl (by rw [bootloader_resting stands resting])
  · right
    have booted := bootloader_new stands candidate fresh
    let next : Flash := { flash with device := flash.device.bootloader }
    have later : Home builtAs next home current earlier :=
      stands.transfer rfl (by simp [next, booted])
    have waits : Candidate builtAs (next.device.slot home) (next.device.slot home.other) current
        image := by
      simpa [next, booted] using
        ⟨candidate.entry, candidate.held, candidate.newer, candidate.ahead⟩
    have unconfirmed : (next.device.slot home.other).state = .pendingVerify := by
      simp [next, booted]
    have running : next.device.running = home.other := by simp [next, booted]
    constructor
    · change next.device.runningPending = true
      simp [SimDevice.runningPending, SimDevice.runningSlot, running, waits.entry, unconfirmed]
    · change next.device.bootloader.running = home
      rw [bootloader_pending later waits unconfirmed]
  · exact .inl (by rw [bootloader_pending stands candidate pending])

/-- The image that runs was confirmed. -/
def RunsConfirmed (flash : Flash) : Prop :=
  flash.device.runningPending = false ∧
    ∃ image ∈ flash.confirmed, flash.device.runningSlot.image = some image

theorem AtHome.runsConfirmed
    (atHome : AtHome builtAs flash home current earlier) : RunsConfirmed flash := by
  have slot : flash.device.runningSlot = flash.device.slot home := by
    rw [SimDevice.runningSlot, atHome.running]
  refine ⟨?_, current, by simp [atHome.confirmed], by rw [slot, atHome.held]⟩
  rw [SimDevice.runningPending, slot]
  rcases atHome.bootable with ⟨-, valid⟩ | ⟨-, absent⟩
  · simp [valid]
  · simp [absent]

end

end Presence.Ota
