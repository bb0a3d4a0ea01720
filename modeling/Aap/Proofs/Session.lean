import Aap.Proofs.Message
import Aap.Proofs.Process

/-!
# What a session does

A session that names readable images that fit runs a simulator which holds just
these images, and otherwise ends with the first of its faults.  Its process
leaves behind the bytes that the program wrote, then those of one line that tells
how the run ended.
-/

namespace Aap

namespace CommandLine

open Text (textBytes spelled lineBytes)

/-- What is wrong with an image file, if anything is. -/
def imageFaults (files : Files) (path : String) (address limit : Nat)
    (tooLong : Nat → StartError) : List StartError :=
  match files path with
  | .error error => [.unreadable path error]
  | .ok contents =>
      if address + contents.length ≤ limit then [] else [tooLong contents.length]

/-- All that keeps a run from starting, each found without regard to the others. -/
def faults (files : Files) (codePath : String) (settings : Settings) : List StartError :=
  imageFaults files codePath settings.codeAddress 131072
    (fun length => .codeImage ⟨.code, settings.codeAddress, length⟩) ++
  settings.dataPath.toList.flatMap fun path =>
    imageFaults files path settings.dataAddress 65536
      fun length => .dataImage ⟨.data, settings.dataAddress, length⟩

/-- The byte at an address of a memory that holds a section and zeros around it. -/
def byteAt (first : Nat) (contents : List Byte) (address : Nat) : Byte :=
  if first ≤ address then (contents[address - first]?).getD 0 else 0

/-- A new simulator that holds two sections, with the settings of a run. -/
structure IsSetUp (settings : Settings) (code data : List Byte) (simulator : Simulator) :
    Prop where
  unknownOpcode : simulator.config.unknownOpcode =
    if settings.abortOnUnknown then .abort else .trap
  invalidInstruction : simulator.config.invalidInstruction =
    if settings.resync then .resync else .stop
  maxSteps : simulator.config.maxSteps = settings.maxSteps
  registers : ∀ register, simulator.machine.read register = 0
  pc : simulator.pc = settings.entry
  overflow : simulator.machine.processor.overflow = false
  exitCode : simulator.machine.processor.exitCode = 0
  code : ∀ address, simulator.machine.code.read address =
    byteAt settings.codeAddress code address
  data : ∀ address, simulator.machine.data.read address =
    byteAt settings.dataAddress data address
  console : simulator.console = .empty

theorem loadCode_eq (simulator : Simulator) (contents : List Byte) (address : Nat) :
    loadCode simulator contents address =
      if address + contents.length ≤ 131072 then
        .ok { simulator with
          machine := { simulator.machine with
            code := simulator.machine.code.writeAll address contents } }
      else
        .error (.codeImage ⟨.code, address, contents.length⟩) := by
  rw [loadCode, Simulator.loadCode, Memory.load]
  have sizeEq : Space.code.size = 131072 := rfl
  rw [sizeEq]
  split_ifs <;> rfl

theorem loadData_eq (simulator : Simulator) (contents : List Byte) (address : Nat) :
    loadData simulator contents address =
      if address + contents.length ≤ 65536 then
        .ok { simulator with
          machine := { simulator.machine with
            data := simulator.machine.data.writeAll address contents } }
      else
        .error (.dataImage ⟨.data, address, contents.length⟩) := by
  rw [loadData, Simulator.loadData, Memory.load]
  have sizeEq : Space.data.size = 65536 := rfl
  rw [sizeEq]
  split_ifs <;> rfl

theorem readImage_of_ok {files : Files} {path : String} {contents : List Byte}
    (filesEq : files path = .ok contents) : readImage files path = .ok contents := by
  rw [readImage, filesEq]

theorem readImage_of_error {files : Files} {path : String} {error : FileError}
    (filesEq : files path = .error error) :
    readImage files path = .error (.unreadable path error) := by
  rw [readImage, filesEq]

theorem imageFaults_cases (files : Files) (path : String) (address limit : Nat)
    (tooLong : Nat → StartError) :
    (∃ error, files path = .error error ∧
      imageFaults files path address limit tooLong = [.unreadable path error]) ∨
    (∃ contents, files path = .ok contents ∧ ¬ address + contents.length ≤ limit ∧
      imageFaults files path address limit tooLong = [tooLong contents.length]) ∨
    ∃ contents, files path = .ok contents ∧ address + contents.length ≤ limit ∧
      imageFaults files path address limit tooLong = [] := by
  unfold imageFaults
  cases files path with
  | error error => exact .inl ⟨error, rfl, rfl⟩
  | ok contents =>
      by_cases fits : address + contents.length ≤ limit
      · exact .inr (.inr ⟨contents, rfl, fits, if_pos fits⟩)
      · exact .inr (.inl ⟨contents, rfl, fits, if_neg fits⟩)

theorem read_writeAll_zero {space : Space} {first : Nat} {contents : List Byte}
    (fits : first + contents.length ≤ space.size) (address : Nat) :
    ((Memory.zero space).writeAll first contents).read address = byteAt first contents address := by
  rw [Memory.read_writeAll _ _ _ fits, Memory.read_zero, byteAt]

theorem isSetUp_of_read {settings : Settings} {code data : List Byte}
    {codeMemory : Memory .code} {dataMemory : Memory .data}
    (codeRead : ∀ address, codeMemory.read address = byteAt settings.codeAddress code address)
    (dataRead : ∀ address, dataMemory.read address = byteAt settings.dataAddress data address) :
    IsSetUp settings code data
      (Simulator.setPc ⟨settings.config, ⟨Processor.zero, codeMemory, dataMemory⟩, .empty⟩
        settings.entry) := by
  refine ⟨rfl, rfl, rfl, ?_, rfl, rfl, rfl, codeRead, dataRead, rfl⟩
  intro register
  exact Vector.getElem_replicate register.isLt

/-- The data section of a run: the contents of the data file, if one is given. -/
def DataIs (files : Files) (settings : Settings) (data : List Byte) : Prop :=
  match settings.dataPath with
  | none => data = []
  | some path => files path = .ok data

/-- The simulator with the code section in place. -/
def withCode (settings : Settings) (code : List Byte) : Simulator :=
  ⟨settings.config,
    ⟨Processor.zero, (Memory.zero .code).writeAll settings.codeAddress code, Memory.zero .data⟩,
    .empty⟩

section Prepared

variable {files : Files} {codePath : String} {settings : Settings} {code : List Byte}
  (codeEq : files codePath = .ok code)
  (fits : settings.codeAddress + code.length ≤ 131072)

include codeEq fits

theorem prepare_without_data (pathEq : settings.dataPath = none) :
    prepare files codePath settings =
      .ok ((withCode settings code).setPc settings.entry) := by
  rw [prepare, readImage_of_ok codeEq, pathEq]
  change loadCode _ code _ >>= _ = _
  rw [loadCode_eq, if_pos fits]
  rfl

theorem prepare_with_data {path : String} (pathEq : settings.dataPath = some path) :
    prepare files codePath settings =
      readImage files path >>= fun data =>
        loadData (withCode settings code) data settings.dataAddress >>= fun loaded =>
          .ok (loaded.setPc settings.entry) := by
  rw [prepare, readImage_of_ok codeEq, pathEq]
  change loadCode _ code _ >>= _ = _
  rw [loadCode_eq, if_pos fits]
  rfl

end Prepared

/-- A run that cannot start fails with its first fault; one that can is set up. -/
theorem prepare_cases (files : Files) (codePath : String) (settings : Settings) :
    match (faults files codePath settings).head? with
    | some fault => prepare files codePath settings = .error fault
    | none => ∃ code data simulator, files codePath = .ok code ∧ DataIs files settings data ∧
        prepare files codePath settings = .ok simulator ∧
        IsSetUp settings code data simulator := by
  unfold faults
  rcases imageFaults_cases files codePath settings.codeAddress 131072
      (fun length => .codeImage ⟨.code, settings.codeAddress, length⟩) with
    ⟨error, codeEq, faultsEq⟩ | ⟨code, codeEq, tooLong, faultsEq⟩ | ⟨code, codeEq, fits, faultsEq⟩
  · rw [faultsEq, prepare, readImage_of_error codeEq]
    rfl
  · rw [faultsEq, prepare, readImage_of_ok codeEq]
    change loadCode _ code _ >>= _ = _
    rw [loadCode_eq, if_neg tooLong]
    rfl
  · -- Data is looked at only when there is nothing wrong with the code.
    rw [faultsEq, List.nil_append]
    cases pathEq : settings.dataPath with
    | none =>
        refine ⟨code, [], _, codeEq, ?_, prepare_without_data codeEq fits pathEq,
          isSetUp_of_read (read_writeAll_zero fits) ?_⟩
        · rw [DataIs, pathEq]
        · intro address
          simp [byteAt]
    | some path =>
        rw [Option.toList_some, List.flatMap_singleton, prepare_with_data codeEq fits pathEq]
        rcases imageFaults_cases files path settings.dataAddress 65536
            (fun length => .dataImage ⟨.data, settings.dataAddress, length⟩) with
          ⟨error, dataEq, faultsEq⟩ | ⟨data, dataEq, tooLong, faultsEq⟩ |
          ⟨data, dataEq, dataFits, faultsEq⟩
        · rw [faultsEq, readImage_of_error dataEq]
          rfl
        · rw [faultsEq, readImage_of_ok dataEq]
          change loadData _ data _ >>= _ = _
          rw [loadData_eq, if_neg tooLong]
          rfl
        · rw [faultsEq, readImage_of_ok dataEq]
          refine ⟨code, data, _, codeEq, ?_, ?_, isSetUp_of_read (read_writeAll_zero fits)
            (read_writeAll_zero dataFits)⟩
          · rw [DataIs, pathEq]
            exact dataEq
          · change loadData _ data _ >>= _ = _
            rw [loadData_eq, if_pos dataFits]
            rfl

/-- What there is to see of a session whose run has ended: the output of the program,
then the bytes of one line that tells how the run ended, or those in which an
abandoned simulation leaves its error there. -/
def Concludes (run : Run) (written : Console) (status : Nat) : Prop :=
  let shown := run.simulator.console
  let machine := run.simulator.machine
  written.bytes .stdout = shown.bytes .stdout ∧
  match run.outcome with
  | .ok outcome =>
      let words := textBytes (spelled (reportPieces machine outcome))
      written.bytes .stderr = shown.bytes .stderr ++ words ++ [0x0A] ∧ 0x0A ∉ words ∧
      status =
        match outcome.status with
        | .quit => machine.processor.exitCode.toNat % 256
        | .breakpoint => 0x85
        | .trap => 0x86
        | .invalidInstruction => 0x84
        | .ok => 0x87
  | .error error =>
      (∃ last, written.bytes .stderr = shown.bytes .stderr ++ last ∧
        textBytes (spelled error.pieces) <:+: last) ∧
      status = 101

theorem concludes (run : Run) :
    Concludes run (conclude run).console (conclude run).exitStatus := by
  unfold Concludes conclude
  cases outcomeEq : run.outcome with
  | ok outcome =>
      have reportEq := Text.toUtf8_of_line (toList_report run.simulator.machine outcome)
      refine ⟨?_, ?_, Text.newline_notMem_textBytes (newline_notMem_report _ _), ?_⟩
      · simp [Transcript.console, Console.bytes]
      · simp [Transcript.console, Console.bytes, reportEq, lineBytes]
      · change exitStatus outcome.status _ = _
        cases outcome.status <;> rfl
  | error error =>
      have messageEq : (error.message ++ "\n").toList = spelled error.pieces ++ ['\n'] := by
        rw [String.toList_append, error.toList_message]
        rfl
      refine ⟨?_, ⟨lineBytes error.pieces, ?_, (List.prefix_append _ _).isInfix⟩, rfl⟩
      · simp [Transcript.console, Console.bytes]
      · simp [Transcript.console, Console.bytes, Text.toUtf8_of_line messageEq]

/-- The process exits exactly if the run of the simulator ends, after one turn for each
step. -/
structure Serves (process : Process) (simulator : Simulator) : Prop where
  ends : ∀ fuel run, simulator.run? fuel = some run →
    ∃ written status, Concludes run written status ∧
      ∀ turns shown exitStatus, process.Leaves turns shown exitStatus ↔
        turns = run.steps ∧ shown = written ∧ exitStatus = status
  endsOnly : ∀ turns shown exitStatus, process.Leaves turns shown exitStatus →
    ∃ fuel run, simulator.run? fuel = some run

/-- The process never runs a simulator: it exits at once, with nothing but the bytes of
an error. -/
structure Fails (process : Process) (message : List Byte) : Prop where
  idle : ∀ run, process ≠ .running run
  leaves : ∃ written, written.bytes .stdout = [] ∧ written.bytes .stderr = message ∧
    ∀ turns shown exitStatus, process.Leaves turns shown exitStatus ↔
      turns = 0 ∧ shown = written ∧ exitStatus = 1

theorem Process.Leaves.iff {process : Process} {turns : Nat} {written : Console} {status : Nat}
    (leaves : process.Leaves turns written status) (otherTurns : Nat) (shown : Console)
    (exitStatus : Nat) :
    process.Leaves otherTurns shown exitStatus ↔
      otherTurns = turns ∧ shown = written ∧ exitStatus = status := by
  constructor
  · exact leaves.unique
  · rintro ⟨rfl, rfl, rfl⟩
    exact leaves

theorem serves_ready {simulator : Simulator} (consoleEq : simulator.console = .empty) :
    Serves (.ofSession (.ready simulator)) simulator := by
  obtain ⟨ends, endsOnly⟩ := Process.leaves_ready consoleEq
  constructor
  · intro fuel run ran
    exact ⟨_, _, concludes run, (ends fuel run ran).iff⟩
  · intro turns shown exitStatus leaves
    exact endsOnly ⟨turns, shown, exitStatus, leaves⟩

theorem fails_of_failure {lines : List String} {message : List Byte}
    (messageEq : lines.flatMap Text.toUtf8 = message) :
    Fails (.ofSession (.ended (failure lines))) message := by
  rw [← Text.toUtf8_join] at messageEq
  subst messageEq
  constructor
  · rintro run ⟨⟩
  · refine ⟨(failure lines).console, ?_, ?_, (Process.Leaves.exit rfl).iff⟩
    · simp [Transcript.console, failure, Console.bytes]
    · simp [Transcript.console, failure, Console.bytes]

theorem begin_of_error {files : Files} {arguments : List String} {error : ArgumentError}
    (parseEq : parse arguments = .error error) :
    begin files arguments = .ended (failure [s!"error: {error.message}\n", usage, "\n"]) := by
  rw [begin, parseEq]

theorem begin_of_help {files : Files} {arguments : List String}
    (parseEq : parse arguments = .ok .help) :
    begin files arguments = .ended ⟨0, Text.toUtf8 (usage ++ "\n"), [], none⟩ := by
  rw [begin, parseEq]

theorem begin_of_fault {files : Files} {arguments : List String} {codePath : String}
    {settings : Settings} {fault : StartError}
    (parseEq : parse arguments = .ok (.run codePath settings))
    (prepareEq : prepare files codePath settings = .error fault) :
    begin files arguments = .ended (failure [s!"error: {fault.message}\n"]) := by
  simp only [begin, parseEq, prepareEq]

theorem begin_of_prepared {files : Files} {arguments : List String} {codePath : String}
    {settings : Settings} {simulator : Simulator}
    (parseEq : parse arguments = .ok (.run codePath settings))
    (prepareEq : prepare files codePath settings = .ok simulator) :
    begin files arguments = .ready simulator := by
  simp only [begin, parseEq, prepareEq]

/-- The process of a session is a faithful front end of the simulator: it runs the
program that its arguments and files describe, and shows just what that run does, or
reports the first fault of its arguments and files without a run.  The help text,
which also follows a fault of the arguments, names all options. -/
theorem process_is_faithful :
    ∃ help : List Byte, (∀ name ∈ optionNames, textBytes name.toList <:+: help) ∧
      ∀ (files : Files) (arguments : List String),
        let process := Process.ofSession (begin files arguments)
        match parse arguments with
        | .error error => Fails process (errorBytes error.pieces ++ help)
        | .ok .help => ∀ turns shown exitStatus, process.Leaves turns shown exitStatus ↔
            turns = 0 ∧ shown = ⟨help.toArray, #[]⟩ ∧ exitStatus = 0
        | .ok (.run codePath settings) =>
            match (faults files codePath settings).head? with
            | some fault => Fails process (errorBytes fault.pieces)
            | none => ∃ code data simulator, files codePath = .ok code ∧
                DataIs files settings data ∧ IsSetUp settings code data simulator ∧
                Serves process simulator := by
  refine ⟨helpBytes, infix_helpBytes, ?_⟩
  intro files arguments
  cases parseEq : parse arguments with
  | error error =>
      rw [begin_of_error parseEq]
      apply fails_of_failure
      rw [List.flatMap_cons, toUtf8_error error.toList_message, helpBytes, Text.toUtf8_append]
      rfl
  | ok request =>
      cases request with
      | help =>
          rw [begin_of_help parseEq]
          exact (Process.Leaves.exit rfl).iff
      | run codePath settings =>
          have prepared := prepare_cases files codePath settings
          cases firstEq : (faults files codePath settings).head? with
          | some fault =>
              rw [firstEq] at prepared
              rw [begin_of_fault parseEq prepared]
              simp only [firstEq]
              apply fails_of_failure
              rw [List.flatMap_cons, toUtf8_error fault.toList_message]
              exact List.append_nil _
          | none =>
              rw [firstEq] at prepared
              obtain ⟨code, data, simulator, codeEq, dataIs, preparedEq, setUp⟩ := prepared
              rw [begin_of_prepared parseEq preparedEq]
              simp only [firstEq]
              exact ⟨code, data, simulator, codeEq, dataIs, setUp, serves_ready setUp.console⟩

/-- An option that is unknown, an empty program under a budget, which meets a breakpoint
at once, and a data file that is missing. -/
theorem process_is_faithful_at_breakpoint_and_missing_file :
    let files : Files := fun path => if path = "code.bin" then .ok [] else .error .notFound
    let ascii (text : String) : List Byte :=
      text.toList.map fun character => BitVec.ofNat 8 character.toNat
    (∃ help, ascii "--entry" <:+: help ∧
      Fails (.ofSession (begin files ["--fast", "code.bin"]))
        (ascii "error: unknown option: --fast\n" ++ help)) ∧
    (∃ written,
      Process.Leaves (.ofSession (begin files ["code.bin", "--max-steps", "5"])) 1 written 0x85 ∧
      written.bytes .stdout = [] ∧
      written.bytes .stderr = ascii "aap-run: breakpoint at pc 0x0001 after 1 steps\n") ∧
    Fails (.ofSession (begin files ["--data", "data.bin", "code.bin"]))
      (ascii "error: failed to read data.bin: No such file or directory (os error 2)\n") := by
  intro files ascii
  obtain ⟨help, names, faithful⟩ := process_is_faithful
  have codeEq : files "code.bin" = .ok [] := if_pos rfl
  refine ⟨⟨help, ?_, ?_⟩, ?_, ?_⟩
  · have nameEq : ascii "--entry" = textBytes "--entry".toList := by decide +kernel
    rw [nameEq]
    exact names "--entry" (by decide)
  · have unknown := faithful files ["--fast", "code.bin"]
    have parseEq : parse ["--fast", "code.bin"] = .error (.unknownOption "--fast") := rfl
    have messageEq : errorBytes (ArgumentError.unknownOption "--fast").pieces =
        ascii "error: unknown option: --fast\n" := by
      decide +kernel
    simp only [parseEq, messageEq] at unknown
    exact unknown
  · have served := faithful files ["code.bin", "--max-steps", "5"]
    let settings : Settings := { maxSteps := some 5 }
    have parseEq : parse ["code.bin", "--max-steps", "5"] = .ok (.run "code.bin" settings) := rfl
    have faultless : (faults files "code.bin" settings).head? = none := by
      rw [faults, imageFaults, codeEq]
      rfl
    simp only [parseEq, faultless] at served
    obtain ⟨code, data, simulator, foundEq, dataIs, setUp, serves⟩ := served
    cases codeEq.symm.trans foundEq
    have pcEq : simulator.pc = 0 := setUp.pc
    have readEq (address : Nat) : simulator.machine.code.read address = 0 := by
      rw [setUp.code]
      simp [byteAt]
    have fetchedEq : simulator.fetched = .ok ⟨⟨.short, .nop, rfl⟩, .nop 0 0⟩ := by
      rw [Simulator.fetched, pcEq, Memory.fetch_eq_decode _ (by decide)]
      simp only [readEq]
      decide +kernel
    have budgetNe : simulator.config.maxSteps ≠ some 0 := by
      rw [setUp.maxSteps]
      decide
    obtain ⟨run, ran, outcomeEq, endEq⟩ :=
      Simulator.run?_of_breakpoint fetchedEq rfl budgetNe Nat.one_pos
    rw [Simulator.iteration_of_breakpoint fetchedEq rfl, pcEq] at endEq
    have stepsEq : run.steps = 1 := ((Simulator.traces_of_run? ran).outcome_cases outcomeEq).1
    have consoleEq : run.simulator.console = .empty := by
      rw [endEq]
      exact setUp.console
    have runPcEq : run.simulator.machine.processor.pc = 1 := by
      rw [endEq]
      rfl
    obtain ⟨written, status, ⟨stdoutEq, told⟩, leaves⟩ := serves.ends 1 run ran
    simp only [outcomeEq] at told
    obtain ⟨stderrEq, _, rfl⟩ := told
    have wordsEq : textBytes (spelled (reportPieces run.simulator.machine ⟨1, .breakpoint⟩)) ++
        [0x0A] = ascii "aap-run: breakpoint at pc 0x0001 after 1 steps\n" := by
      simp only [reportPieces, runPcEq]
      decide +kernel
    rw [consoleEq] at stdoutEq stderrEq
    refine ⟨written, (leaves 1 written 0x85).mpr ⟨stepsEq.symm, rfl, rfl⟩, stdoutEq, ?_⟩
    rw [stderrEq, ← wordsEq]
    rfl
  · have missing := faithful files ["--data", "data.bin", "code.bin"]
    have parseEq : parse ["--data", "data.bin", "code.bin"] =
        .ok (.run "code.bin" { dataPath := some "data.bin" }) := rfl
    have dataEq : files "data.bin" = .error .notFound := if_neg (by decide)
    have firstEq : (faults files "code.bin" { dataPath := some "data.bin" }).head? =
        some (.unreadable "data.bin" .notFound) := by
      rw [faults, imageFaults, codeEq]
      simp [imageFaults, dataEq]
    have messageEq : errorBytes (StartError.unreadable "data.bin" .notFound).pieces =
        ascii "error: failed to read data.bin: No such file or directory (os error 2)\n" := by
      decide +kernel
    simp only [parseEq, firstEq, messageEq] at missing
    exact missing

end CommandLine

end Aap
