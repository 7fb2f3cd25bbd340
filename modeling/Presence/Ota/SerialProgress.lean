import Presence.Ota.SerialLoader

namespace Presence.Ota.Loader

open Presence.Data

/-! # A session of the loader is never stuck -/

variable {package : Package} {board : Board} {guard : OtaGuard} {bench next final : Bench}
  {input : Input} {inputs : List Input}

def Input.isTimeout : Input → Bool
  | .hostTimesOut | .terminalTimesOut _ => true
  | _ => false

/-- The two can come to a verdict without a timeout. -/
def CanFinish (board : Board) (package : Package) (bench : Bench) : Prop :=
  ∃ inputs last exit, (∀ input ∈ inputs, input.isTimeout = false) ∧
    run (Bench.step board package) bench inputs = some last ∧ last.host = .done exit ∧
      exit ≠ .timedOut

theorem CanFinish.step (rest : CanFinish board package next) (patient : input.isTimeout = false)
    (taken : bench.step board package input = some next) : CanFinish board package bench := by
  obtain ⟨inputs, last, exit, all, ran, done, verdict⟩ := rest
  refine ⟨input :: inputs, last, exit, List.forall_mem_cons.mpr ⟨patient, all⟩, ?_, done, verdict⟩
  rw [run_cons inputs taken]
  exact ran

theorem step_skip {sent : Nat} {line : List UInt8} {toHost : List (List UInt8)}
    (waiting : bench.host = .waiting sent) (first : bench.toHost = line :: toHost)
    (other : isOta line = false) :
    bench.step board package .hostReads = some { bench with toHost } := by
  have skipped : bench.host.reads package line = (bench.host, []) := by
    rw [waiting, Host.reads, if_pos (by simp [other])]
  simp only [Bench.step, waiting, first]
  rw [waiting] at skipped
  rw [skipped, List.append_nil]

theorem step_reads {sent : Nat} {line : List UInt8} {toHost : List (List UInt8)}
    (waiting : bench.host = .waiting sent) (first : bench.toHost = line :: toHost) :
    bench.step board package .hostReads = some { bench with
      host := (bench.host.reads package line).1, toHost
      toTerminal := bench.toTerminal ++ (bench.host.reads package line).2 } := by
  simp only [Bench.step, waiting, first]

theorem canFinish_done {exit : Exit} (done : bench.host = .done exit) (verdict : exit ≠ .timedOut) :
    CanFinish board package bench :=
  ⟨[], bench, exit, by simp, rfl, done, verdict⟩

theorem reads_exit {sent : Nat} {line : List UInt8} {exit : Exit}
    (done : ((Host.waiting sent).reads package line).1 = .done exit) : exit ≠ .timedOut := by
  simp only [Host.reads] at done
  split at done
  · cases done
  split at done
  · split at done <;> cases done
  split at done
  · cases done
    simp
  split at done
  · cases done
    simp
  · cases done
    simp

/-- The verdict is on the line. -/
theorem Stage.unread {sent : Nat} (stage : Stage board package guard bench)
    (ended : bench.updates ≠ []) (waiting : bench.host = .waiting sent) : bench.toHost ≠ [] := by
  intro empty
  cases stage with
  | asked host same doing none sent quiet => exact ended none
  | granted flashing written host same doing opened none => exact ended none
  | sending flashing written got host same doing opened none => exact ended none
  | decided count host update first truthful stale rest said bounded =>
      rw [empty, List.filter_nil] at said
      cases stale <;> cases said
  | exited exit host =>
      rw [waiting] at host
      cases host

theorem finish_decided (sendable : package.Sendable) {sent : Nat}
    (stage : Stage board package guard bench) (ended : bench.updates ≠ [])
    (waiting : bench.host = .waiting sent) : CanFinish board package bench := by
  generalize lines : bench.toHost = toHost
  induction toHost generalizing bench sent with
  | nil => exact absurd lines (stage.unread ended waiting)
  | cons line toHost ih =>
      have taken : bench.step board package .hostReads = some _ := step_reads waiting lines
      have after := stage.step sendable taken
      refine CanFinish.step ?_ rfl taken
      cases host : (bench.host.reads package line).1 with
      | done exit => exact canFinish_done rfl (reads_exit (waiting ▸ host))
      | waiting count =>
          rw [host] at after
          exact ih after ended rfl rfl

/-- The grant is on the line; it lets the next chunk through. -/
theorem finish_granted {flashing : Flashing} {written : List UInt8}
    (waiting : bench.host = .waiting written.length)
    (doing : bench.doing = .loading package.offer flashing written [])
    (clear : bench.toTerminal = []) (grant : bench.toHost.filter isOta = [nextLine])
    (more : written.length < package.image.length)
    (sending : ∀ after : Bench,
      after.host = .waiting (min (written.length + kOtaChunk) package.image.length) →
      after.guard = bench.guard → after.updates = bench.updates →
      after.doing = .loading package.offer flashing written [] →
      after.toTerminal = (package.image.drop written.length).take kOtaChunk →
      after.toHost.filter isOta = [] → CanFinish board package after) :
    CanFinish board package bench := by
  generalize lines : bench.toHost = toHost
  induction toHost generalizing bench with
  | nil =>
      rw [lines] at grant
      cases grant
  | cons line toHost ih =>
      by_cases ota : isOta line = true
      · rw [lines, List.filter_cons_of_pos ota] at grant
        obtain ⟨rfl, rest⟩ := List.cons.inj grant
        refine CanFinish.step ?_ rfl (step_reads waiting lines)
        have answer : bench.host.reads package nextLine =
            (.waiting (min (written.length + kOtaChunk) package.image.length),
              (package.image.drop written.length).take kOtaChunk) := by
          rw [waiting, Host.reads]
          simp only [ota, Bool.not_true, Bool.false_eq_true, if_false, if_true, if_pos more]
        rw [answer, clear]
        exact sending _ rfl rfl rfl doing rfl rest
      · have skipped : isOta line = false := Bool.of_not_eq_true ota
        rw [lines, List.filter_cons_of_neg ota] at grant
        refine CanFinish.step ?_ rfl (step_skip waiting lines skipped)
        exact ih waiting doing clear grant sending rfl

theorem want_chunk (package : Package) (written : List UInt8) :
    ((package.image.drop written.length).take kOtaChunk).length = want package.offer written := by
  rw [List.length_take, List.length_drop, want, Nat.min_comm]
  rfl

/-- The stage of a chunk, with a host that waits. -/
structure Sending (board : Board) (package : Package) (guard : OtaGuard) (flashing : Flashing)
    (written got : List UInt8) (bench : Bench) : Prop where
  waiting : bench.host = .waiting (min (written.length + kOtaChunk) package.image.length)
  same : bench.guard = guard
  doing : bench.doing = .loading package.offer flashing written got
  opened : openOta board.release guard package.offer flashing = none
  none : bench.updates = []
  chunk : got ++ bench.toTerminal = (package.image.drop written.length).take kOtaChunk
  quiet : bench.toHost.filter isOta = []
  copied : written = package.image.take written.length
  more : written.length < package.image.length

variable {flashing : Flashing} {written got : List UInt8}

theorem Sending.stage (sending : Sending board package guard flashing written got bench) :
    Stage board package guard bench :=
  .sending flashing written got (Or.inl sending.waiting) sending.same sending.doing sending.opened
    sending.none sending.chunk sending.quiet sending.copied sending.more

/-- A chunk that has come in full is written. -/
theorem finish_full (sendable : package.Sendable)
    (sending : Sending board package guard flashing written got bench)
    (clear : bench.toTerminal = [])
    (later : ∀ more after, written.length < (written ++ more).length →
      Sending board package guard flashing (written ++ more) [] after →
      CanFinish board package after) : CanFinish board package bench := by
  have filled := sending.chunk
  rw [clear, List.append_nil] at filled
  have whole : got.length = want package.offer written := by
    rw [filled]
    exact want_chunk package written
  have reached : written ++ got = package.image.take (written.length + kOtaChunk) := by
    rw [filled, take_chunk sending.copied]
  have length :
      (written ++ got).length = min (written.length + kOtaChunk) package.image.length := by
    rw [reached, List.length_take]
  by_cases further : (written ++ got).length < package.offer.size
  · have taken : bench.step board package (.stores true (fun _ byte => byte) ⟨true, true, true⟩) =
        some ({ bench with doing := .loading package.offer flashing (written ++ got) [] }.say
          nextLine) := by
      simp only [Bench.step, sending.doing]
      rw [if_neg (not_not.mpr whole), if_neg (by simp), if_pos further]
    refine CanFinish.step ?_ rfl taken
    refine finish_granted ?_ rfl clear ?_ further ?_
    · rw [length]
      exact sending.waiting
    · simp [Bench.say, sending.quiet]
      rfl
    · intro after waiting same none doing line quiet
      refine later got after ?_ ⟨waiting, same.trans sending.same, doing, sending.opened,
        none.trans sending.none, line, quiet, ?_, further⟩
      · have positive := sending.more
        rw [length, kOtaChunk]
        omega
      · rw [length, ← List.take_take, List.take_length]
        exact reached
  · obtain ⟨next, taken, ended, waiting⟩ : ∃ next,
        bench.step board package (.stores true (fun _ byte => byte) ⟨true, true, true⟩) =
          some next ∧ next.updates ≠ [] ∧ next.host = bench.host := by
      simp only [Bench.step, sending.doing]
      rw [if_neg (not_not.mpr whole), if_neg (by simp), if_neg further]
      exact ⟨_, rfl, by simp [Bench.ends], rfl⟩
    refine CanFinish.step ?_ rfl taken
    exact finish_decided sendable (sending.stage.step sendable taken) ended
      (waiting.trans sending.waiting)

theorem finish_sending (sendable : package.Sendable)
    (sending : Sending board package guard flashing written got bench) :
    CanFinish board package bench := by
  generalize remaining : package.image.length - written.length = rest
  induction rest using Nat.strongRecOn generalizing bench written got with
  | ind rest ih =>
      have later : ∀ more after, written.length < (written ++ more).length →
          Sending board package guard flashing (written ++ more) [] after →
          CanFinish board package after := by
        intro more after longer begun
        have inside := sending.more
        exact ih _ (by omega) begun rfl
      have long := congrArg List.length sending.chunk
      rw [List.length_append, want_chunk] at long
      by_cases some : 0 < bench.toTerminal.length
      · -- what is on the line is taken first
        have room : 0 < bench.toTerminal.length ∧
            bench.toTerminal.length ≤ bench.toTerminal.length ∧
            got.length + bench.toTerminal.length ≤ want package.offer written :=
          ⟨some, le_rfl, long.le⟩
        have taken : bench.step board package (.takes bench.toTerminal.length) = .some { bench with
            doing := .loading package.offer flashing written (got ++ bench.toTerminal)
            toTerminal := [] } := by
          simp only [Bench.step, sending.doing]
          rw [if_pos room, List.take_length, List.drop_length]
        refine CanFinish.step ?_ rfl taken
        refine finish_full sendable ⟨sending.waiting, sending.same, rfl, sending.opened,
          sending.none, ?_, sending.quiet, sending.copied, sending.more⟩ rfl later
        rw [List.append_nil]
        exact sending.chunk
      · exact finish_full sendable sending (List.eq_nil_of_length_eq_zero (by omega)) later

/-- From the first grant on, or the first verdict. -/
theorem Stage.finish (sendable : package.Sendable) (stage : Stage board package guard bench)
    {sent : Nat} (waiting : bench.host = .waiting sent)
    (begun : bench.doing ≠ .idle ∨ bench.updates ≠ []) : CanFinish board package bench := by
  by_cases ended : bench.updates = []
  · have sentOf {count : Nat} (host : Waits bench count) : bench.host = .waiting count := by
      obtain waits | gone := host
      · exact waits
      · rw [waiting] at gone
        cases gone
    cases stage with
    | asked host same doing none sent quiet =>
        obtain busy | decided := begun
        · exact absurd doing busy
        · exact absurd none decided
    | granted flashing written host same doing opened none clear grant copied more =>
        refine finish_granted (sentOf host) doing clear grant more ?_
        intro after waits guarded updates loading line quiet
        exact finish_sending sendable ⟨waits, guarded.trans same, loading, opened,
          updates.trans none, line, quiet, copied, more⟩
    | sending flashing written got host same doing opened none chunk quiet copied more =>
        exact finish_sending sendable ⟨sentOf host, same, doing, opened, none, chunk, quiet, copied,
          more⟩
    | decided count host update first => simp [ended] at first
    | exited exit host update first => simp [ended] at first
  · exact finish_decided sendable stage ended waiting

/-- However far a session has come, with any log lines in between, the two still reach a verdict
without waiting for a timeout, unless the sender has given up. -/
theorem loader_never_stuck (board : Board) (guard : OtaGuard) (sendable : package.Sendable)
    (ran : run (Bench.step board package) (.start package guard) inputs = some final) {sent : Nat}
    (waiting : final.host = .waiting sent) : CanFinish board package final := by
  have stage := stage_run sendable ran
  by_cases begun : final.doing ≠ .idle ∨ final.updates ≠ []
  · exact stage.finish sendable waiting begun
  · obtain ⟨idle, none⟩ := not_or.mp begun
    have idle := not_not.mp idle
    have none := not_not.mp none
    cases stage with
    | asked host same doing none sent quiet =>
        obtain ⟨line, behind⟩ := takeWhile_header sendable
        obtain ⟨next, taken, begun, kept⟩ : ∃ next,
            final.step board package (.command goodFlash ⟨true, true, true⟩) = some next ∧
              (next.doing ≠ .idle ∨ next.updates ≠ []) ∧ next.host = final.host := by
          simp only [Bench.step, doing, sent, line, behind]
          rw [trim_header, serialCommands_header sendable]
          split
          · exact ⟨_, rfl, Or.inr (by simp [Bench.ends]), rfl⟩
          · exact ⟨_, rfl, Or.inl (fun same => by cases same), rfl⟩
        refine CanFinish.step ?_ rfl taken
        exact (stage_run sendable ran |>.step sendable taken).finish sendable
          (kept.trans waiting) begun
    | granted flashing written host same doing =>
        rw [doing] at idle
        cases idle
    | sending flashing written got host same doing =>
        rw [doing] at idle
        cases idle
    | decided count host update first => simp [none] at first
    | exited exit host update first => simp [none] at first

/-- The sender has heard a grant that the terminal took back. -/
theorem loader_never_stuck_late : ∃ final,
    run (Bench.step looseBoard threeBytes) (.start threeBytes olderGuard)
      [.command goodFlash ⟨true, true, true⟩, .terminalTimesOut ⟨true, true, true⟩, .hostReads] =
        some final ∧ CanFinish looseBoard threeBytes final := by
  have sendable : threeBytes.Sendable := ⟨by decide, by decide, by decide⟩
  have waits : (run (Bench.step looseBoard threeBytes) (.start threeBytes olderGuard)
      [.command goodFlash ⟨true, true, true⟩, .terminalTimesOut ⟨true, true, true⟩,
        .hostReads]).map Bench.host = some (.waiting 3) := by
    decide +kernel
  obtain ⟨final, ran, host⟩ := Option.map_eq_some_iff.mp waits
  exact ⟨final, ran, loader_never_stuck looseBoard olderGuard sendable ran host⟩

end Presence.Ota.Loader
