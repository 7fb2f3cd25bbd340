import Presence.Ota.SerialLine

namespace Presence.Ota.Loader

open Presence.Data Presence.Firmware

/-! # What a session of the loader keeps

A session is in one of five stages, whatever the two ends and the other tasks do; a
sender that gave up leaves the terminal's part of the stage as it was.
-/

variable {package : Package} {board : Board} {guard : OtaGuard} {bench next final : Bench}
  {input : Input}

/-- How the image came over the line, if it did. -/
def Carried (package : Package) (transfer : Transfer) : Prop :=
  transfer = .truncated ∨ transfer = .writeFailed ∨
    ∃ held : Nat → UInt8 → UInt8,
      transfer = .complete fun i => held i (package.image.getD i 0)

/-- The update is what `applyOta` makes of the image that was sent. -/
structure Truthful (board : Board) (package : Package) (guard : OtaGuard) (update : Update) :
    Prop where
  before : update.guard = guard
  target : update.offer = package.offer
  carried : ∃ transfer, Carried package transfer ∧ (update.calls, update.result) =
    (applyOta board.release guard package.offer { update.flashing with transfer } update.outcome).2

/-- What the host may print of the first update. -/
def Reports (exit : Exit) (result : OtaResult) : Prop :=
  match exit with
  | .accepted => result = .applied
  | .rejected reason => ∃ text, (result = .transient text ∨ result = .rejected text) ∧
      reason = ascii text
  | .unexpected _ => False
  | .timedOut => True

def Waits (bench : Bench) (sent : Nat) : Prop :=
  bench.host = .waiting sent ∨ bench.host = .done .timedOut

inductive Stage (board : Board) (package : Package) (guard : OtaGuard) (bench : Bench) : Prop where
  | asked (host : Waits bench 0) (same : bench.guard = guard) (doing : bench.doing = .idle)
      (none : bench.updates = []) (sent : bench.toTerminal = package.header ++ [newline])
      (quiet : bench.toHost.filter isOta = [])
  | granted (flashing : Flashing) (written : List UInt8) (host : Waits bench written.length)
      (same : bench.guard = guard)
      (doing : bench.doing = .loading package.offer flashing written [])
      (opened : openOta board.release guard package.offer flashing = none)
      (none : bench.updates = []) (clear : bench.toTerminal = [])
      (grant : bench.toHost.filter isOta = [nextLine])
      (copied : written = package.image.take written.length)
      (more : written.length < package.image.length)
  | sending (flashing : Flashing) (written got : List UInt8)
      (host : Waits bench (min (written.length + kOtaChunk) package.image.length))
      (same : bench.guard = guard)
      (doing : bench.doing = .loading package.offer flashing written got)
      (opened : openOta board.release guard package.offer flashing = none)
      (none : bench.updates = [])
      (chunk : got ++ bench.toTerminal = (package.image.drop written.length).take kOtaChunk)
      (quiet : bench.toHost.filter isOta = [])
      (copied : written = package.image.take written.length)
      (more : written.length < package.image.length)
  /-- A grant from before the verdict may still be unread. -/
  | decided (sent : Nat) (host : Waits bench sent) (update : Update)
      (first : bench.updates.head? = some update) (truthful : Truthful board package guard update)
      (stale : Bool) (rest : List (List UInt8))
      (said : bench.toHost.filter isOta =
        (if stale then [nextLine] else []) ++ verdictLine update.result :: rest)
      (bounded : bench.toTerminal.length ≤ if stale then 0 else kOtaChunk)
  | exited (exit : Exit) (host : bench.host = .done exit) (update : Update)
      (first : bench.updates.head? = some update) (truthful : Truthful board package guard update)
      (reports : Reports exit update.result) (bounded : bench.toTerminal.length ≤ kOtaChunk)

/-- The terminal's own steps: it says more and forgets nothing. -/
structure Extends (bench next : Bench) : Prop where
  host : next.host = bench.host
  updates : bench.updates <+: next.updates
  said : bench.toHost <+: next.toHost
  read : next.toTerminal.length ≤ bench.toTerminal.length

theorem Extends.trans {last : Bench} (first : Extends bench next) (second : Extends next last) :
    Extends bench last :=
  ⟨second.host.trans first.host, first.updates.trans second.updates,
    first.said.trans second.said, second.read.trans first.read⟩

theorem extends_say (line : List UInt8) {doing : Doing} {guard : OtaGuard}
    {calls : List FlashCall} :
    Extends bench ({ bench with doing, guard, calls }.say line) :=
  ⟨rfl, List.prefix_rfl, List.prefix_append _ _, le_rfl⟩

theorem extends_ends (offer : Offer) (flashing : Flashing) (outcome : Outcome)
    (done : OtaGuard × List FlashCall × OtaResult) :
    Extends bench (bench.ends offer flashing outcome done) :=
  ⟨rfl, List.prefix_append _ _, List.prefix_append _ _, le_rfl⟩

theorem extends_refl : Extends bench bench :=
  ⟨rfl, List.prefix_rfl, List.prefix_rfl, le_rfl⟩

theorem extends_serialCommands (board : Board) (line : List UInt8) (flashing : Flashing)
    (outcome : Outcome) : Extends bench (bench.serialCommands board line flashing outcome) := by
  simp only [Bench.serialCommands]
  split
  · simp only [Bench.benchSerialOta]
    split
    · exact extends_say _
    split
    · exact extends_say _
    split
    · exact extends_refl
    split
    · exact extends_say _
    split
    · exact extends_ends _ _ _ _
    · exact extends_say _
  · exact extends_refl

def Input.isTerminal : Input → Bool
  | .command .. | .takes _ | .stores .. | .terminalTimesOut _ => true
  | _ => false

theorem step_extends (own : input.isTerminal = true)
    (taken : bench.step board package input = some next) : Extends bench next := by
  cases input with
  | hostReads | hostTimesOut | chatter => cases own
  | command flashing outcome =>
      simp only [Bench.step] at taken
      split at taken
      · split at taken
        · cases taken
        · rename_i toTerminal behind
          cases taken
          have shorter : Extends bench { bench with toTerminal } := by
            refine ⟨rfl, List.prefix_rfl, List.prefix_rfl, ?_⟩
            have suffix := (List.dropWhile_suffix (l := bench.toTerminal) (· != newline)).length_le
            rw [behind, List.length_cons] at suffix
            exact Nat.le_of_succ_le suffix
          exact shorter.trans (extends_serialCommands board _ flashing outcome)
      · cases taken
  | takes count =>
      simp only [Bench.step] at taken
      split at taken
      · split at taken
        · cases taken
          exact ⟨rfl, List.prefix_rfl, List.prefix_rfl, by simp⟩
        · cases taken
      · cases taken
  | stores good held outcome =>
      simp only [Bench.step] at taken
      split at taken
      · split at taken
        · cases taken
        split at taken
        · cases taken
          exact extends_ends _ _ _ _
        split at taken
        · cases taken
          exact extends_say _
        · cases taken
          exact extends_ends _ _ _ _
      · cases taken
  | terminalTimesOut outcome =>
      simp only [Bench.step] at taken
      split at taken
      · split at taken
        · cases taken
        · cases taken
          exact extends_ends _ _ _ _
      · cases taken

theorem Stage.later (stage : Stage board package guard bench)
    (ended : bench.updates.head?.isSome = true) (extends_ : Extends bench next) :
    Stage board package guard next := by
  have kept {update : Update} (first : bench.updates.head? = some update) :
      next.updates.head? = some update := by
    obtain ⟨more, updates⟩ := extends_.updates
    rw [← updates, List.head?_append, first]
    rfl
  cases stage with
  | asked host same doing none sent quiet => simp [none] at ended
  | granted flashing written host same doing opened none => simp [none] at ended
  | sending flashing written got host same doing opened none => simp [none] at ended
  | decided sent host update first truthful stale rest said bounded =>
      obtain ⟨more, lines⟩ := extends_.said
      refine .decided sent ?_ update (kept first) truthful stale (rest ++ more.filter isOta) ?_
        (extends_.read.trans bounded)
      · simpa only [Waits, extends_.host] using host
      · rw [← lines, List.filter_append, said, List.append_assoc, List.cons_append]
  | exited exit host update first truthful reports bounded =>
      exact .exited exit (extends_.host.trans host) update (kept first) truthful reports
        (extends_.read.trans bounded)

/-- `applyOta` ended the first update. -/
theorem decided_ends {sent : Nat} (host : Waits bench sent) (same : bench.guard = guard)
    (none : bench.updates = []) (stale : Bool)
    (quiet : bench.toHost.filter isOta = if stale then [nextLine] else [])
    (bounded : bench.toTerminal.length ≤ if stale then 0 else kOtaChunk) {transfer : Transfer}
    (carried : Carried package transfer) (flashing : Flashing) (outcome : Outcome)
    {done : OtaGuard × List FlashCall × OtaResult}
    (applied : done.2 = (applyOta board.release guard package.offer { flashing with transfer }
      outcome).2) :
    Stage board package guard (bench.ends package.offer flashing outcome done) := by
  let update : Update := ⟨bench.guard, package.offer, flashing, outcome, done.2.1, done.2.2⟩
  have truthful : Truthful board package guard update :=
    ⟨same, rfl, transfer, carried, applied⟩
  have ota : isOta (verdictLine done.2.2) = true := by
    cases done.2.2 <;> rfl
  refine .decided sent host update ?_ truthful stale [] ?_ bounded
  · simp [Bench.ends, none, update]
  · simp [Bench.ends, quiet, ota, update]

/-- The header is read: the first chunk is asked for, or nothing is. -/
theorem stage_asked (sendable : package.Sendable) {flashing : Flashing} {outcome : Outcome}
    (host : Waits bench 0) (same : bench.guard = guard) (doing : bench.doing = .idle)
    (none : bench.updates = []) (sent : bench.toTerminal = package.header ++ [newline])
    (quiet : bench.toHost.filter isOta = [])
    (taken : bench.step board package (.command flashing outcome) = some next) :
    Stage board package guard next := by
  obtain ⟨line, behind⟩ := takeWhile_header sendable
  simp only [Bench.step, doing, sent, line, behind, Option.some.injEq] at taken
  rw [trim_header, serialCommands_header sendable] at taken
  subst taken
  subst same
  cases opened : openOta board.release bench.guard package.offer flashing with
  | some refusal =>
      have applied := applyOta_eq board.release bench.guard package.offer
        { flashing with transfer := .truncated } outcome
      have refused : openOta board.release bench.guard package.offer
        { flashing with transfer := .truncated } = some refusal := opened
      rw [refused] at applied
      have start : Waits { bench with toTerminal := [] } 0 := host
      exact decided_ends start rfl none false quiet (Nat.zero_le _) (Or.inl rfl) flashing outcome
        (congrArg Prod.snd applied.symm)
  | none =>
      refine .granted flashing [] host rfl rfl opened none rfl ?_ rfl ?_
      · simp [Bench.say, quiet]
        rfl
      · exact List.length_pos_iff.mpr sendable.nonempty

theorem stage_takes {flashing : Flashing} {written got : List UInt8} {count : Nat}
    (host : Waits bench (min (written.length + kOtaChunk) package.image.length))
    (same : bench.guard = guard)
    (doing : bench.doing = .loading package.offer flashing written got)
    (opened : openOta board.release guard package.offer flashing = none)
    (none : bench.updates = [])
    (chunk : got ++ bench.toTerminal = (package.image.drop written.length).take kOtaChunk)
    (quiet : bench.toHost.filter isOta = []) (copied : written = package.image.take written.length)
    (more : written.length < package.image.length)
    (taken : bench.step board package (.takes count) = some next) :
    Stage board package guard next := by
  simp only [Bench.step, doing, Option.ite_none_right_eq_some, Option.some.injEq] at taken
  obtain ⟨-, rfl⟩ := taken
  refine .sending flashing written _ host same rfl opened none ?_ quiet copied more
  rw [List.append_assoc, List.take_append_drop]
  exact chunk

/-- A whole chunk has come, and nothing is on its way. -/
theorem chunk_whole {written got toTerminal image : List UInt8} {offer : Offer}
    (size : offer.size = image.length)
    (chunk : got ++ toTerminal = (image.drop written.length).take kOtaChunk)
    (whole : got.length = want offer written) :
    toTerminal = [] ∧ got = (image.drop written.length).take kOtaChunk := by
  have long := congrArg List.length chunk
  rw [List.length_append, whole, want, size, List.length_take, List.length_drop] at long
  have empty : toTerminal = [] := List.eq_nil_of_length_eq_zero (by omega)
  refine ⟨empty, ?_⟩
  rw [empty, List.append_nil] at chunk
  exact chunk

theorem take_chunk {written image : List UInt8} (copied : written = image.take written.length) :
    written ++ (image.drop written.length).take kOtaChunk =
      image.take (written.length + kOtaChunk) := by
  conv_lhs => rw [copied, List.length_take]
  by_cases inside : written.length ≤ image.length
  · rw [Nat.min_eq_left inside, List.take_add]
  · rw [Nat.min_eq_right (by omega), List.drop_length, List.take_nil, List.append_nil,
      List.take_of_length_le (by omega), List.take_of_length_le (by omega)]

theorem opened_transfer {flashing : Flashing} {transfer : Transfer} {outcome : Outcome}
    (opened : openOta board.release guard package.offer flashing = none) :
    storeOta board.release guard package.offer { flashing with transfer } outcome =
      applyOta board.release guard package.offer { flashing with transfer } outcome := by
  have same : openOta board.release guard package.offer { flashing with transfer } = none := opened
  rw [applyOta_eq, same]

/-- A chunk goes into the flash while nothing is on its way. -/
theorem stage_stores {flashing : Flashing} {written got : List UInt8} {good : Bool}
    {held : Nat → UInt8 → UInt8} {outcome : Outcome}
    (host : Waits bench (min (written.length + kOtaChunk) package.image.length))
    (same : bench.guard = guard)
    (doing : bench.doing = .loading package.offer flashing written got)
    (opened : openOta board.release guard package.offer flashing = none)
    (none : bench.updates = [])
    (chunk : got ++ bench.toTerminal = (package.image.drop written.length).take kOtaChunk)
    (quiet : bench.toHost.filter isOta = []) (copied : written = package.image.take written.length)
    (taken : bench.step board package (.stores good held outcome) = some next) :
    Stage board package guard next := by
  subst same
  simp only [Bench.step, doing] at taken
  split at taken
  · cases taken
  rename_i whole
  obtain ⟨empty, filled⟩ := chunk_whole rfl chunk (not_not.mp whole)
  have bounded : bench.toTerminal.length ≤ kOtaChunk := by
    rw [empty]
    exact Nat.zero_le _
  have reached : written ++ got = package.image.take (written.length + kOtaChunk) := by
    rw [filled, take_chunk copied]
  have length :
      (written ++ got).length = min (written.length + kOtaChunk) package.image.length := by
    rw [reached, List.length_take]
  split at taken
  · cases taken
    rw [opened_transfer opened]
    exact decided_ends host rfl none false quiet bounded (Or.inr (Or.inl rfl)) _ outcome rfl
  split at taken
  · rename_i further
    cases taken
    have further : (written ++ got).length < package.image.length := further
    refine .granted flashing (written ++ got) ?_ rfl rfl opened none empty ?_ ?_ further
    · rw [length]
      exact host
    · simp [Bench.say, quiet]
      rfl
    · rw [length, ← List.take_take, List.take_length]
      exact reached
  · rename_i last
    cases taken
    have last : ¬ (written ++ got).length < package.image.length := last
    have all : written ++ got = package.image := by
      rw [reached, List.take_of_length_le (by omega)]
    rw [opened_transfer opened]
    exact decided_ends host rfl none false quiet bounded
      (Or.inr (Or.inr ⟨held, by rw [all]⟩)) _ outcome rfl

theorem stage_timesOut {flashing : Flashing} {written got : List UInt8} {outcome : Outcome}
    {sent : Nat} (host : Waits bench sent) (same : bench.guard = guard)
    (doing : bench.doing = .loading package.offer flashing written got)
    (opened : openOta board.release guard package.offer flashing = none)
    (none : bench.updates = []) (stale : Bool)
    (bounded : bench.toTerminal.length ≤ if stale then 0 else kOtaChunk)
    (quiet : bench.toHost.filter isOta = if stale then [nextLine] else [])
    (taken : bench.step board package (.terminalTimesOut outcome) = some next) :
    Stage board package guard next := by
  subst same
  simp only [Bench.step, doing] at taken
  split at taken
  · cases taken
  · cases taken
    rw [opened_transfer opened]
    exact decided_ends host rfl none stale quiet bounded (Or.inl rfl) _ outcome rfl

theorem stage_terminal (sendable : package.Sendable) (stage : Stage board package guard bench)
    (own : input.isTerminal = true) (taken : bench.step board package input = some next) :
    Stage board package guard next := by
  have after := step_extends own taken
  cases stage with
  | asked host same doing none sent quiet =>
      cases input with
      | hostReads | hostTimesOut | chatter => cases own
      | command flashing outcome => exact stage_asked sendable host same doing none sent quiet taken
      | takes | stores | terminalTimesOut =>
          simp only [Bench.step, doing] at taken
          cases taken
  | granted flashing written host same doing opened none clear grant copied more =>
      cases input with
      | hostReads | hostTimesOut | chatter => cases own
      | command =>
          simp only [Bench.step, doing] at taken
          cases taken
      | takes count =>
          simp only [Bench.step, doing, clear, Option.ite_none_right_eq_some] at taken
          obtain ⟨⟨positive, available, -⟩, -⟩ := taken
          simp at available
          omega
      | stores good held outcome =>
          have waits : ([] : List UInt8).length ≠ want package.offer written := by
            simp only [want, Package.offer, kOtaChunk, List.length_nil]
            omega
          simp only [Bench.step, doing, if_pos waits] at taken
          cases taken
      | terminalTimesOut outcome =>
          exact stage_timesOut host same doing opened none true (by simp [clear]) grant taken
  | sending flashing written got host same doing opened none chunk quiet copied more =>
      have bounded : bench.toTerminal.length ≤ kOtaChunk := by
        have long := congrArg List.length chunk
        rw [List.length_append, List.length_take] at long
        omega
      cases input with
      | hostReads | hostTimesOut | chatter => cases own
      | command =>
          simp only [Bench.step, doing] at taken
          cases taken
      | takes count =>
          exact stage_takes host same doing opened none chunk quiet copied more taken
      | stores good held outcome =>
          exact stage_stores host same doing opened none chunk quiet copied taken
      | terminalTimesOut outcome =>
          exact stage_timesOut host same doing opened none false bounded quiet taken
  | decided sent host update first truthful stale rest said bounded =>
      exact Stage.later (.decided sent host update first truthful stale rest said bounded)
        (by rw [first]; rfl) after
  | exited exit host update first truthful reports bounded =>
      exact Stage.later (.exited exit host update first truthful reports bounded)
        (by rw [first]; rfl) after

theorem reads_verdict {sent : Nat} (result : OtaResult) :
    ∃ exit, (Host.waiting sent).reads package (verdictLine result) = (.done exit, []) ∧
      Reports exit result := by
  have starts (reason : List UInt8) :
      (ascii "OTA REJECT").isPrefixOf (ascii "OTA REJECT " ++ reason) = true := rfl
  have ota (reason : List UInt8) : isOta (ascii "OTA REJECT " ++ reason) = true := rfl
  have other (reason : List UInt8) : ascii "OTA REJECT " ++ reason ≠ nextLine := nofun
  have refused (reason : List UInt8) : ascii "OTA REJECT " ++ reason ≠ ascii "OTA OK" := nofun
  cases result with
  | applied => exact ⟨.accepted, rfl, rfl⟩
  | transient reason =>
      refine ⟨.rejected (ascii reason), ?_, reason, Or.inl rfl, rfl⟩
      simp only [Host.reads, verdictLine, ota, other, refused, starts, Bool.not_true,
        Bool.false_eq_true, if_false, if_true]
      rfl
  | rejected reason =>
      refine ⟨.rejected (ascii reason), ?_, reason, Or.inr rfl, rfl⟩
      simp only [Host.reads, verdictLine, ota, other, refused, starts, Bool.not_true,
        Bool.false_eq_true, if_false, if_true]
      rfl

/-- Nothing of a session depends on what the other tasks print. -/
theorem Stage.quiet (stage : Stage board package guard bench) {toHost : List (List UInt8)}
    (same : toHost.filter isOta = bench.toHost.filter isOta) :
    Stage board package guard { bench with toHost } := by
  cases stage with
  | asked host guarded doing none sent quiet =>
      exact .asked host guarded doing none sent (same.trans quiet)
  | granted flashing written host guarded doing opened none clear grant copied more =>
      exact .granted flashing written host guarded doing opened none clear (same.trans grant)
        copied more
  | sending flashing written got host guarded doing opened none chunk quiet copied more =>
      exact .sending flashing written got host guarded doing opened none chunk (same.trans quiet)
        copied more
  | decided sent host update first truthful stale rest said bounded =>
      exact .decided sent host update first truthful stale rest (same.trans said) bounded
  | exited exit host update first truthful reports bounded =>
      exact .exited exit host update first truthful reports bounded

theorem Stage.timesOut (stage : Stage board package guard bench) {sent : Nat}
    (waiting : bench.host = .waiting sent) :
    Stage board package guard { bench with host := .done .timedOut } := by
  have gone (sent : Nat) : Waits { bench with host := .done .timedOut } sent := Or.inr rfl
  cases stage with
  | asked host guarded doing none sent quiet => exact .asked (gone 0) guarded doing none sent quiet
  | granted flashing written host guarded doing opened none clear grant copied more =>
      exact .granted flashing written (gone _) guarded doing opened none clear grant copied more
  | sending flashing written got host guarded doing opened none chunk quiet copied more =>
      exact .sending flashing written got (gone _) guarded doing opened none chunk quiet copied more
  | decided sent host update first truthful stale rest said bounded =>
      exact .decided sent (gone _) update first truthful stale rest said bounded
  | exited exit host update first truthful reports bounded =>
      rw [host] at waiting
      cases waiting

/-- The host reads a line of the loader. -/
theorem Stage.hostReads (stage : Stage board package guard bench) {sent : Nat}
    (waiting : bench.host = .waiting sent) {line : List UInt8} {toHost : List (List UInt8)}
    (first : bench.toHost = line :: toHost) (ota : isOta line = true) :
    Stage board package guard { bench with
      host := (bench.host.reads package line).1, toHost
      toTerminal := bench.toTerminal ++ (bench.host.reads package line).2 } := by
  have lines : bench.toHost.filter isOta = line :: toHost.filter isOta := by
    rw [first, List.filter_cons_of_pos ota]
  have sentOf {count : Nat} (host : Waits bench count) : sent = count := by
    obtain waits | gone := host
    · exact Host.waiting.inj (waiting.symm.trans waits)
    · rw [waiting] at gone
      cases gone
  cases stage with
  | asked host guarded doing none sent quiet =>
      rw [lines] at quiet
      cases quiet
  | sending flashing written got host guarded doing opened none chunk quiet copied more =>
      rw [lines] at quiet
      cases quiet
  | exited exit host update first truthful reports bounded =>
      rw [waiting] at host
      cases host
  | granted flashing written host guarded doing opened none clear grant copied more =>
      obtain ⟨rfl, rest⟩ := List.cons.inj (lines.symm.trans grant)
      rw [sentOf host] at waiting
      have answer : bench.host.reads package nextLine =
          (.waiting (min (written.length + kOtaChunk) package.image.length),
            (package.image.drop written.length).take kOtaChunk) := by
        rw [waiting, Host.reads]
        simp only [ota, Bool.not_true, Bool.false_eq_true, if_false, if_true, if_pos more]
      rw [answer, clear]
      exact .sending flashing written [] (Or.inl rfl) guarded doing opened none rfl rest copied more
  | decided count host update head truthful stale rest said bounded =>
      rw [lines] at said
      cases stale with
      | true =>
          obtain ⟨rfl, rest'⟩ := List.cons.inj said
          have empty : bench.toTerminal = [] :=
            List.eq_nil_of_length_eq_zero (Nat.le_zero.mp bounded)
          rw [waiting, empty, Host.reads]
          simp only [ota, Bool.not_true, Bool.false_eq_true, if_false, if_true]
          split
          · exact .decided _ (Or.inl rfl) update head truthful false rest rest' (by simp)
          · exact .decided sent (Or.inl rfl) update head truthful false rest rest' (by simp)
      | false =>
          obtain ⟨rfl, rest'⟩ := List.cons.inj said
          obtain ⟨exit, answer, reports⟩ := @reads_verdict package sent update.result
          rw [waiting, answer, List.append_nil]
          exact .exited exit rfl update head truthful reports bounded

theorem Stage.step (sendable : package.Sendable) (stage : Stage board package guard bench)
    (taken : bench.step board package input = some next) : Stage board package guard next := by
  cases input with
  | command | takes | stores | terminalTimesOut => exact stage_terminal sendable stage rfl taken
  | hostTimesOut =>
      simp only [Bench.step] at taken
      split at taken
      · cases taken
      · rename_i sent waiting
        cases taken
        exact stage.timesOut waiting
  | chatter line =>
      simp only [Bench.step] at taken
      split at taken
      · cases taken
      · rename_i other
        cases taken
        exact stage.quiet (by simp [other])
  | hostReads =>
      simp only [Bench.step] at taken
      split at taken
      · cases taken
      · cases taken
      · rename_i sent line toHost waiting first
        cases taken
        by_cases ota : isOta line = true
        · exact stage.hostReads waiting first ota
        · have skipped : bench.host.reads package line = (bench.host, []) := by
            rw [waiting, Host.reads, if_pos (by simpa using ota)]
          rw [skipped, List.append_nil]
          exact stage.quiet (by rw [first, List.filter_cons_of_neg ota])

theorem stage_start (package : Package) (board : Board) (guard : OtaGuard) :
    Stage board package guard (.start package guard) :=
  .asked (Or.inl rfl) rfl rfl rfl rfl rfl

/-! ## Whole sessions -/

variable {inputs : List Input}

theorem stage_run (sendable : package.Sendable)
    (ran : run (Bench.step board package) (.start package guard) inputs = some final) :
    Stage board package guard final :=
  run_invariant (fun _ _ _ holds taken => Stage.step sendable holds taken)
    (stage_start package board guard) ran

theorem length_header (sendable : package.Sendable) : package.header.length ≤ 226 := by
  obtain ⟨code, parsed⟩ := Option.isSome_iff_exists.mp sendable.version
  obtain ⟨version, spelled, -⟩ := parse_eq_some_iff.mp parsed
  have short := version.length_text.2
  rw [← spelled, maxLen] at short
  have fits := sendable.fits
  have digits : (asciiNumerals.text package.image.length).length ≤ 10 := by
    rw [Numerals.text, List.length_map]
    exact length_decimalDigits_le (by decide) (by omega)
  simp [Package.header, toHex, ascii]
  omega

/-- While a chunk goes into the flash, nothing is on the line. -/
def Idle (bench : Bench) : Prop :=
  ∀ offer flashing written got, bench.doing = .loading offer flashing written got →
    got.length = want offer written → bench.toTerminal = []

theorem Stage.line (sendable : package.Sendable) (stage : Stage board package guard bench) :
    bench.toTerminal.length ≤ kOtaChunk + 256 ∧ (bench.updates = [] → Idle bench) := by
  cases stage with
  | asked host same doing none sent quiet =>
      have short := length_header sendable
      refine ⟨?_, fun _ offer flashing written got loading => ?_⟩
      · rw [sent, List.length_append, List.length_singleton, kOtaChunk]
        omega
      · rw [doing] at loading
        cases loading
  | granted flashing written host same doing opened none clear grant copied more =>
      exact ⟨by simp [clear], fun _ _ _ _ _ _ _ => clear⟩
  | sending flashing written got host same doing opened none chunk quiet copied more =>
      refine ⟨?_, fun _ offer flashing' written' got' loading whole => ?_⟩
      · have long := congrArg List.length chunk
        rw [List.length_append, List.length_take] at long
        omega
      · cases doing.symm.trans loading
        exact (chunk_whole rfl chunk whole).1
  | decided sent host update first truthful stale rest said bounded =>
      refine ⟨?_, fun none => by simp [none] at first⟩
      cases stale
      · exact Nat.le_add_right_of_le bounded
      · exact Nat.le_add_left_of_le (Nat.le_zero.mp bounded ▸ Nat.zero_le _)
  | exited exit host update first truthful reports bounded =>
      exact ⟨Nat.le_add_right_of_le bounded, fun none => by simp [none] at first⟩

theorem Stage.verdicts (stage : Stage board package guard bench) :
    (∀ update, bench.updates.head? = some update → Truthful board package guard update) ∧
      ∀ exit, bench.host = .done exit → exit = .timedOut ∨
        ∃ update, bench.updates.head? = some update ∧ Reports exit update.result := by
  have early {sent : Nat} (none : bench.updates = []) (host : Waits bench sent) :
      (∀ update, bench.updates.head? = some update → Truthful board package guard update) ∧
        ∀ exit, bench.host = .done exit → exit = .timedOut ∨
          ∃ update, bench.updates.head? = some update ∧ Reports exit update.result := by
    refine ⟨fun update first => by simp [none] at first, fun exit done => Or.inl ?_⟩
    obtain waits | gone := host
    · rw [waits] at done
      cases done
    · exact Host.done.inj (done.symm.trans gone)
  cases stage with
  | asked host same doing none sent quiet => exact early none host
  | granted flashing written host same doing opened none clear grant copied more =>
      exact early none host
  | sending flashing written got host same doing opened none chunk quiet copied more =>
      exact early none host
  | decided sent host update first truthful stale rest said bounded =>
      refine ⟨fun other head => Option.some.inj (first.symm.trans head) ▸ truthful,
        fun exit done => Or.inl ?_⟩
      obtain waits | gone := host
      · rw [waits] at done
        cases done
      · exact Host.done.inj (done.symm.trans gone)
  | exited exit host update first truthful reports bounded =>
      refine ⟨fun other head => Option.some.inj (first.symm.trans head) ▸ truthful,
        fun exit' done => Or.inr ⟨update, first, ?_⟩⟩
      exact Host.done.inj (host.symm.trans done) ▸ reports

def threeBytes : Package where
  version := ascii "1.2.0"
  image := [7, 8, 9]
  sha256 := digest [7, 8, 9]
  signature := .replicate 64 1

def looseBoard : Board := ⟨⟨⟨fun _ _ _ => true⟩, .replicate 32 5⟩, ascii "1.1.0"⟩

def olderGuard : OtaGuard :=
  (OtaGuard.begin 60000 none (ascii "1.1.0") false 0 ⟨true, true, true⟩).1

def goodFlash : Flashing := ⟨100000, true, true, true, .truncated, true, true, true, true⟩

end Presence.Ota.Loader
