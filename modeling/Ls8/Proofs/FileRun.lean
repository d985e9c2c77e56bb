import Ls8.CommandLine.Run
import Ls8.Proofs.RunEnding
import Ls8.Proofs.StoredFiles

/-!
# What comes of running a file

A file that is run either gives no program, or a program that fails, or one that halts; and all but
the last is reported. Main statement: a run from the command line ends in just these ways, with the
status and the bytes on either sink that go with them (`run_eq_some_iff_ends`).
-/

namespace Ls8

/-- Only loading refuses for size, and a run loads nothing. -/
theorem Machine.error_ne_tooLarge_of_run {m : Machine} {failure : Failure}
    (h : m.run = some (.error failure)) (size : Nat) : failure.error ≠ .programTooLarge size := by
  obtain ⟨before, _, hactive, hstep⟩ := exists_step_of_stepUpTo_error (P := fun _ => True)
    (fun _ _ => trivial) _ m trivial (stepUpTo_of_run h)
  intro hsize
  rcases step_eq_error hstep with ⟨hhalted, _⟩ | ⟨_, ⟨hrefusal, _⟩ | ⟨i, _, _, rfl⟩⟩
  · rw [hactive] at hhalted
    cases hhalted
  · rw [hsize] at hrefusal
    cases hrefusal
  · cases hsize

namespace Program

variable {read : Reader} {path listing : String} {p : Program} {error : LoadError}

/-- The error of a listing is that of one of its lines, or that there are too many. -/
theorem error_of_mapM_byte {entries : List Listing.Entry}
    (h : entries.mapM Listing.Entry.byte = .error error) :
    ∃ entry : Listing.Entry, entry.byte = .error error := by
  induction entries with
  | nil => cases h
  | cons entry rest ih =>
    rw [List.mapM_cons] at h
    cases hentry : entry.byte with
    | error found =>
      rw [hentry] at h
      cases h
      exact ⟨entry, hentry⟩
    | ok byte =>
      cases hrest : rest.mapM Listing.Entry.byte with
      | error found =>
        rw [hentry, hrest] at h
        cases h
        exact ih hrest
      | ok bytes =>
        rw [hentry, hrest] at h
        cases h

/-- A listing that is no program has been read all the same. -/
theorem ne_unreadable_of_parse (h : parse listing = .error error) (cause : ReadError) :
    error ≠ .unreadable path cause := by
  rintro rfl
  unfold parse at h
  cases hbytes : (Listing.entries listing.toList).mapM Listing.Entry.byte with
  | error found =>
    obtain ⟨entry, hentry⟩ := error_of_mapM_byte hbytes
    rw [hbytes] at h
    cases h
    unfold Listing.Entry.byte at hentry
    split at hentry <;> cases hentry
  | ok bytes =>
    simp only [hbytes, bind, Except.bind] at h
    split at h <;> cases h

theorem fromFile_of_error {cause : ReadError} (h : read path = .error cause) :
    fromFile read path = .error (.unreadable path cause) := by
  rw [fromFile, h]

theorem fromFile_of_ok (h : read path = .ok listing) : fromFile read path = parse listing := by
  rw [fromFile, h]

theorem fromFile_eq_ok_iff :
    fromFile read path = .ok p ↔ ∃ listing, read path = .ok listing ∧ parse listing = .ok p := by
  cases hread : read path with
  | error cause => simp [fromFile_of_error hread]
  | ok listing => simp [fromFile_of_ok hread]

end Program

namespace CommandLine

/-- The bytes of a message and of the end of its line. -/
def lineOf (message : String) : List UInt8 :=
  (message ++ "\n").toUTF8.toList

/-- A machine just switched on, with a program in its memory. -/
def started (p : Program) (out : Sink) : Machine where
  toCpu := Cpu.booted p.bytes
  out := out

/-- How the run of a file ends: with a message or with none, and with what has been printed. -/
inductive Ends (read : Reader) (out : Sink) : Option String → Option String → Sink → Prop
  | missingFile : Ends read out none (some "You must specify the file to run.") out
  | notFound {path : String} : read path = .error .notFound →
      Ends read out (some path) (some ("File not found: " ++ path)) out
  | unreadable {path : String} {cause : ReadError} : read path = .error cause →
      cause ≠ .notFound →
      Ends read out (some path) (some (LoadError.unreadable path cause).message) out
  | unparsable {path listing : String} {error : LoadError} : read path = .ok listing →
      Program.parse listing = .error error → Ends read out (some path) (some error.message) out
  | failed {path listing : String} {p : Program} {n : Nat} {failure : Failure} :
      read path = .ok listing → Program.parse listing = .ok p →
      (started p out).stepUpTo n = .error failure →
      Ends read out (some path) (some failure.error.message) failure.machine.out
  | halted {path listing : String} {p : Program} {n : Nat} {last : Machine} :
      read path = .ok listing → Program.parse listing = .ok p →
      (started p out).stepUpTo n = .ok last → last.halted = true →
      Ends read out (some path) none last.out

/-- What becomes of a message: the exit status, and what the sink for problems then holds. -/
inductive Reports (diag : Sink) : Option String → Except WriteError UInt8 → Sink → Prop
  | silent : Reports diag none (.ok 0) diag
  | told {message : String} : (∀ room, diag.room = some room → (lineOf message).length ≤ room) →
      Reports diag (some message) (.ok 1) (diag.gain (lineOf message))
  | cut {message : String} {room : Nat} : diag.room = some room →
      room < (lineOf message).length →
      Reports diag (some message) (.error .full) (diag.gain ((lineOf message).take room))

variable {read : Reader} {file : Option String} {path listing : String} {p : Program}
  {out diag : Sink} {report : Report} {error : LoadError}

/-! ## Reporting -/

theorem reports_fail (problem : Problem) {message : String} (hmessage : problem.message = message)
    (out diag : Sink) : Reports diag (some message) (fail problem out diag).status
      (fail problem out diag).diag := by
  subst hmessage
  cases hfits : diag.fits problem.line with
  | true =>
    rw [fail, Sink.put_of_fits hfits, if_pos hfits]
    exact .told (Sink.fits_iff.1 hfits)
  | false =>
    obtain ⟨room, hroom, hlt⟩ := Sink.not_fits_iff.1 hfits
    rw [fail, Sink.put_of_room_eq_some hroom, if_neg (Bool.eq_false_iff.1 hfits)]
    exact .cut hroom hlt

/-- There is only one way in which a message can be reported. -/
theorem Reports.unique {message : Option String} {status status' : Except WriteError UInt8}
    {left left' : Sink} (h : Reports diag message status left)
    (h' : Reports diag message status' left') : status = status' ∧ left = left' := by
  cases h with
  | silent =>
    cases h'
    exact ⟨rfl, rfl⟩
  | told hfits =>
    cases h' with
    | told _ => exact ⟨rfl, rfl⟩
    | cut hroom hlt => exact absurd (hfits _ hroom) (Nat.not_le.2 hlt)
  | cut hroom hlt =>
    cases h' with
    | told hfits => exact absurd (hfits _ hroom) (Nat.not_le.2 hlt)
    | cut hroom' _ =>
      rw [hroom] at hroom'
      cases hroom'
      exact ⟨rfl, rfl⟩

theorem fail_eq_of_reports (problem : Problem) {message : String}
    (hmessage : problem.message = message)
    (h : Reports diag (some message) report.status report.diag) :
    fail problem report.out diag = report := by
  obtain ⟨status, printed, left⟩ := report
  obtain ⟨rfl, rfl⟩ := h.unique (reports_fail problem hmessage printed diag)
  rfl

theorem succeed_eq_of_reports (h : Reports diag none report.status report.diag) :
    succeed report.out diag = report := by
  obtain ⟨status, printed, left⟩ := report
  cases h
  rfl

/-! ## Running -/

/-- Memory has room for whatever a file gives. -/
theorem load_of_fromFile (h : Program.fromFile read path = .ok p) (out : Sink) :
    (Machine.withOutput out).load p = .ok (started p out) := by
  obtain ⟨listing, _, hparse⟩ := Program.fromFile_eq_ok_iff.1 h
  exact Machine.load_of_fits _ (Program.size_le_of_parse hparse)

theorem run_of_fromFile_ok (h : Program.fromFile read path = .ok p) :
    run read (some path) out diag = (started p out).run.map (conclude · diag) := by
  simp only [run, prepare, h, load_of_fromFile h out]

theorem run_of_fromFile_error (h : Program.fromFile read path = .error error) :
    run read (some path) out diag = some (fail (.load error) out diag) := by
  simp only [run, prepare, h]

/-- A problem of the loader is told as the loader tells it, unless there is no file. -/
theorem message_load (h : ∀ path, error ≠ .unreadable path .notFound) :
    (Problem.load error).message = error.message := by
  unfold Problem.message
  split
  · next hmissing => cases hmissing
  · next path hload =>
    cases hload
    exact absurd rfl (h path)
  · next cause _ hload =>
    cases hload
    rfl
  · next hmachine => cases hmachine

theorem message_unreadable {cause : ReadError} (h : cause ≠ .notFound) :
    (Problem.load (.unreadable path cause)).message = (LoadError.unreadable path cause).message := by
  refine message_load ?_
  rintro _ ⟨⟩
  exact h rfl

theorem message_unparsable (h : Program.parse listing = .error error) :
    (Problem.load error).message = error.message :=
  message_load fun _ => Program.ne_unreadable_of_parse h .notFound

theorem ends_of_run (h : run read file out diag = some report) :
    ∃ message, Ends read out file message report.out ∧
      Reports diag message report.status report.diag := by
  cases file with
  | none =>
    cases h
    exact ⟨_, .missingFile, reports_fail .missingFile rfl out diag⟩
  | some path =>
    cases hread : read path with
    | error cause =>
      rw [run_of_fromFile_error (Program.fromFile_of_error hread)] at h
      cases h
      by_cases hcause : cause = .notFound
      · subst hcause
        exact ⟨_, .notFound hread, reports_fail (.load (.unreadable path .notFound)) rfl out diag⟩
      · exact ⟨_, .unreadable hread hcause, reports_fail _ (message_unreadable hcause) out diag⟩
    | ok listing =>
      cases hparse : Program.parse listing with
      | error error =>
        rw [run_of_fromFile_error ((Program.fromFile_of_ok hread).trans hparse)] at h
        cases h
        exact ⟨_, .unparsable hread hparse, reports_fail _ (message_unparsable hparse) out diag⟩
      | ok p =>
        rw [run_of_fromFile_ok ((Program.fromFile_of_ok hread).trans hparse)] at h
        -- the run is given up after some number of steps, which then have ended the machine
        obtain ⟨o, hrun, rfl⟩ := Option.map_eq_some_iff.1 h
        obtain ⟨hended, n, hn⟩ := Machine.run_eq_some_iff.1 hrun
        cases o with
        | ok last => exact ⟨none, .halted hread hparse hn hended, .silent⟩
        | error failure =>
          exact ⟨_, .failed hread hparse hn, reports_fail (.machine failure.error) rfl _ diag⟩

theorem run_of_ends {message : Option String} (hends : Ends read out file message report.out)
    (hreports : Reports diag message report.status report.diag) :
    run read file out diag = some report := by
  obtain ⟨status, printed, left⟩ := report
  cases hends with
  | missingFile => exact congrArg some (fail_eq_of_reports .missingFile rfl hreports)
  | @notFound path hread =>
    rw [run_of_fromFile_error (Program.fromFile_of_error hread)]
    exact congrArg some (fail_eq_of_reports (.load (.unreadable path .notFound)) rfl hreports)
  | unreadable hread hcause =>
    rw [run_of_fromFile_error (Program.fromFile_of_error hread)]
    exact congrArg some (fail_eq_of_reports _ (message_unreadable hcause) hreports)
  | unparsable hread hparse =>
    rw [run_of_fromFile_error ((Program.fromFile_of_ok hread).trans hparse)]
    exact congrArg some (fail_eq_of_reports _ (message_unparsable hparse) hreports)
  | @failed path listing p n failure hread hparse hn =>
    have hrun : (started p out).run = some (.error failure) :=
      Machine.run_eq_some_iff.2 ⟨trivial, n, hn⟩
    rw [run_of_fromFile_ok ((Program.fromFile_of_ok hread).trans hparse), hrun]
    exact congrArg some (fail_eq_of_reports (.machine failure.error) rfl hreports)
  | @halted path listing p n last hread hparse hn hhalted =>
    have hrun : (started p out).run = some (.ok last) :=
      Machine.run_eq_some_iff.2 ⟨hhalted, n, hn⟩
    rw [run_of_fromFile_ok ((Program.fromFile_of_ok hread).trans hparse), hrun]
    exact congrArg some (succeed_eq_of_reports hreports)

/-- A run from the command line ends with a report just if reading, parsing and executing come to
what it reports. A program that a file gives is never too large for memory, and is given the sink as
running it by itself would be. -/
theorem run_eq_some_iff_ends (read : Reader) (file : Option String) (out diag : Sink) :
    (∀ report, run read file out diag = some report ↔
      ∃ message, Ends read out file message report.out ∧
        Reports diag message report.status report.diag) ∧
    ∀ path p, file = some path → Program.fromFile read path = .ok p →
      (Machine.withOutput out).load p = .ok (started p out) ∧
      (run read file out diag).map Report.out = (started p out).run.map (·.machine.out) ∧
      ∀ failure size, (started p out).run = some (.error failure) →
        failure.error ≠ .programTooLarge size := by
  refine ⟨fun report => ⟨ends_of_run, ?_⟩, ?_⟩
  · rintro ⟨message, hends, hreports⟩
    exact run_of_ends hends hreports
  · rintro path p rfl hprogram
    refine ⟨load_of_fromFile hprogram out, ?_, ?_⟩
    · rw [run_of_fromFile_ok hprogram, Option.map_map]
      refine congrArg (Option.map · (started p out).run) (funext fun o => ?_)
      cases o <;> rfl
    · intro failure size hrun
      exact Machine.error_ne_tooLarge_of_run hrun size

/-- Reads files where there is only one, whose only line writes a byte that is no instruction. -/
def wrongFile : Reader :=
  (FileStore.addFile {} ["wrong.ls8"] "11111111 # not an instruction".toUTF8.data.toList).read

theorem read_wrongFile : wrongFile "wrong.ls8" = .ok "11111111 # not an instruction" := by
  have hname : FileStore.ProperName "wrong.ls8" :=
    ⟨by decide, by decide, by decide, by decide, by decide, by decide⟩
  exact FileStore.read_addFile _ (FileStore.leads_of_proper hname)

theorem read_wrongFile_missing : wrongFile "nope.ls8" = .error .notFound := by
  have hname : FileStore.ProperName "nope.ls8" :=
    ⟨by decide, by decide, by decide, by decide, by decide, by decide⟩
  exact FileStore.read_of_leads (FileStore.leads_of_proper hname) (FileStore.way_singleton _ _)

/-- The message is cut where the sink for problems is full, and the status says so. A file that is not
there is reported by its path. -/
theorem run_eq_some_iff_ends_wrongFile :
    run wrongFile (some "wrong.ls8") Sink.unlimited (Sink.limitedTo 7) = some
      { status := .error .full
        out := Sink.unlimited
        diag := (Sink.limitedTo 7).gain "illegal".toUTF8.toList } ∧
    run wrongFile (some "nope.ls8") Sink.unlimited Sink.unlimited = some
      { status := .ok 1
        out := Sink.unlimited
        diag := Sink.unlimited.gain (lineOf "File not found: nope.ls8") } := by
  have hparse : Program.parse "11111111 # not an instruction" = .ok ⟨[255]⟩ := by decide +kernel
  have herror : ((started ⟨[255]⟩ Sink.unlimited).stepUpTo 1).error? =
      some (.illegalInstruction 255 0) := by decide +kernel
  have hout : ((started ⟨[255]⟩ Sink.unlimited).stepUpTo 1).machine.out = Sink.unlimited := by
    decide +kernel
  have hends := Ends.failed read_wrongFile hparse (Outcome.eq_error_of_error? herror)
  have hline : (lineOf (Error.illegalInstruction 255 0).message).take 7 =
      "illegal".toUTF8.toList := by decide +kernel
  have hreports : Reports (Sink.limitedTo 7) (some (Error.illegalInstruction 255 0).message)
      (.error .full) ((Sink.limitedTo 7).gain "illegal".toUTF8.toList) := by
    rw [← hline]
    exact .cut rfl (by decide +kernel)
  rw [hout] at hends
  have hrun := (run_eq_some_iff_ends wrongFile (some "wrong.ls8") Sink.unlimited
    (Sink.limitedTo 7)).1
  have hmissing := (run_eq_some_iff_ends wrongFile (some "nope.ls8") Sink.unlimited
    Sink.unlimited).1
  exact ⟨(hrun _).2 ⟨_, hends, hreports⟩,
    (hmissing _).2 ⟨_, .notFound read_wrongFile_missing, .told nofun⟩⟩

end CommandLine

end Ls8
