import Aap.Proofs.Checkpoint
import Aap.Proofs.Reachable
import Aap.Proofs.WriteOnly

/-!
# Starting over

A simulator that is reset keeps its memories and its console, and nothing else of
what was done to it.  A host that goes on with it learns what it would learn from
a new simulator into which the same memories were loaded.
-/

namespace Aap

/-- What a host can ask of a simulator. -/
inductive Access where
  | loadCode (contents : List Byte) (address : Nat)
  | loadData (contents : List Byte) (address : Nat)
  | writeRegister (index : Nat) (value : Word)
  | setPc (pc : Word)
  | setOverflow (overflow : Bool)
  | setExitCode (exitCode : Word)
  | writeCode (address : Nat) (byte : Byte)
  | writeData (address : Word) (byte : Byte)
  | reset
  | move (move : Move)
  deriving DecidableEq

/-- What a host learns from an access. -/
inductive Response where
  | done
  | loaded (result : Except LoadError Unit)
  | written (result : Except RegisterIndexError Unit)
  | moved (report : Report)
  deriving DecidableEq

namespace Simulator

/-- Whether an access succeeded; if it did not, the simulator stays as it is. -/
def attempt {Error : Type} (simulator : Simulator) :
    Except Error Simulator → Except Error Unit × Simulator
  | .ok next => (.ok (), next)
  | .error error => (.error error, simulator)

/-- The response to an access, and the simulator after it. -/
def serve (simulator : Simulator) : Access → Response × Simulator
  | .loadCode contents address =>
      (simulator.attempt (simulator.loadCode contents address)).map .loaded id
  | .loadData contents address =>
      (simulator.attempt (simulator.loadData contents address)).map .loaded id
  | .writeRegister index value =>
      (simulator.attempt (simulator.writeRegister index value)).map .written id
  | .setPc pc => (.done, simulator.setPc pc)
  | .setOverflow overflow => (.done, simulator.setOverflow overflow)
  | .setExitCode exitCode => (.done, simulator.setExitCode exitCode)
  | .writeCode address byte => (.done, simulator.writeCode address byte)
  | .writeData address byte => (.done, simulator.writeData address byte)
  | .reset => (.done, simulator.reset)
  | .move move => (simulator.move move).map .moved id

section Behind

variable (simulator : Simulator) (earlier : Console)

theorem attempt_behind {Error : Type} (result : Except Error Simulator) :
    (simulator.behind earlier).attempt (result.map fun next => next.behind earlier) =
      ((simulator.attempt result).1, (simulator.attempt result).2.behind earlier) := by
  cases result with
  | ok next => rfl
  | error error => rfl

theorem loadCode_behind (contents : List Byte) (address : Nat) :
    (simulator.behind earlier).loadCode contents address =
      (simulator.loadCode contents address).map fun next => next.behind earlier := by
  change (simulator.machine.code.load contents address >>= _) = _
  rw [loadCode]
  cases simulator.machine.code.load contents address <;> rfl

theorem loadData_behind (contents : List Byte) (address : Nat) :
    (simulator.behind earlier).loadData contents address =
      (simulator.loadData contents address).map fun next => next.behind earlier := by
  change (simulator.machine.data.load contents address >>= _) = _
  rw [loadData]
  cases simulator.machine.data.load contents address <;> rfl

theorem writeRegister_behind (index : Nat) (value : Word) :
    (simulator.behind earlier).writeRegister index value =
      (simulator.writeRegister index value).map fun next => next.behind earlier := by
  rw [writeRegister, writeRegister]
  cases Reg.ofIndex index <;> rfl

theorem move_behind (move : Move) :
    (simulator.behind earlier).move move =
      ((simulator.move move).1, (simulator.move move).2.behind earlier) := by
  cases move with
  | step =>
      have stepEq := (unnoticed_behind earlier).step simulator
      simp only [Simulator.move, stepEq]
  | run fuel =>
      have followEq : (simulator.behind earlier).follow fuel =
          { simulator.follow fuel with
            simulator := (simulator.follow fuel).simulator.behind earlier } :=
        Run.continueFor_of_unnoticed (unnoticed_behind earlier) (Run.start simulator) _
      simp only [Simulator.move, followEq, run?_behind, Option.map_map]
      rfl

/-- No access looks at what was written to the console before. -/
theorem serve_behind (access : Access) :
    (simulator.behind earlier).serve access =
      ((simulator.serve access).1, (simulator.serve access).2.behind earlier) := by
  cases access with
  | loadCode contents address =>
      rw [serve, serve, loadCode_behind, attempt_behind]
      rfl
  | loadData contents address =>
      rw [serve, serve, loadData_behind, attempt_behind]
      rfl
  | writeRegister index value =>
      rw [serve, serve, writeRegister_behind, attempt_behind]
      rfl
  | move move =>
      rw [serve, serve, move_behind]
      rfl
  | _ => rfl

theorem inTurn_behind (accesses : List Access) :
    inTurn serve (simulator.behind earlier) accesses =
      ((inTurn serve simulator accesses).1, (inTurn serve simulator accesses).2.behind earlier) := by
  induction accesses generalizing simulator with
  | nil => rfl
  | cons first rest induction => simp only [inTurn, serve_behind, induction]

end Behind

theorem config_attempt {Error : Type} {simulator : Simulator} {result : Except Error Simulator}
    (kept : ∀ next, result = .ok next → next.config = simulator.config) :
    (simulator.attempt result).2.config = simulator.config := by
  cases result with
  | ok next => exact kept next rfl
  | error error => rfl

theorem config_move (simulator : Simulator) (move : Move) :
    (simulator.move move).2.config = simulator.config := by
  cases move with
  | step => exact simulator.config_step
  | run fuel => exact simulator.config_runWithin _

theorem config_serve (simulator : Simulator) (access : Access) :
    (simulator.serve access).2.config = simulator.config := by
  cases access with
  | loadCode contents address =>
      apply config_attempt
      intro next loadedEq
      obtain ⟨code, rfl⟩ := exists_of_bind_pure loadedEq
      rfl
  | loadData contents address =>
      apply config_attempt
      intro next loadedEq
      obtain ⟨data, rfl⟩ := exists_of_bind_pure loadedEq
      rfl
  | writeRegister index value =>
      apply config_attempt
      intro next writtenEq
      obtain ⟨register, rfl⟩ := exists_of_bind_pure writtenEq
      rfl
  | move move => exact simulator.config_move move
  | _ => rfl

theorem config_inTurn (simulator : Simulator) (accesses : List Access) :
    (inTurn serve simulator accesses).2.config = simulator.config := by
  induction accesses generalizing simulator with
  | nil => rfl
  | cons first rest induction =>
      exact (induction _).trans (simulator.config_serve first)

end Simulator

/-- A new memory into which all bytes of another one are loaded is that memory. -/
theorem Memory.load_bytes {space : Space} (memory : Memory space) :
    (zero space).load memory.bytes.toList 0 = .ok memory := by
  have lengthEq : memory.bytes.toList.length = space.size := memory.bytes.length_toList
  have fits : 0 + memory.bytes.toList.length ≤ space.size := by omega
  rw [load, if_pos fits]
  congr 1
  apply ext_read
  intro address
  rw [read_writeAll _ _ _ fits, if_pos (Nat.zero_le _), read_zero, Nat.sub_zero, read,
    Vector.getElem?_toList]

namespace Simulator

/-- A simulator that was reset behaves like a new one into which the bytes that it
holds are loaded, whatever was done to it before. -/
theorem reset_is_fresh_start (config : Config) (history continuation : List Access) :
    let held := (inTurn serve (create config) history).2
    ∃ withCode fresh,
      (create config).loadCode held.machine.code.bytes.toList 0 = .ok withCode ∧
      withCode.loadData held.machine.data.bytes.toList 0 = .ok fresh ∧
      let (responses, ended) := inTurn serve held.reset continuation
      let (freshResponses, freshEnded) := inTurn serve fresh continuation
      responses = freshResponses ∧ ended.config = freshEnded.config ∧
      ended.machine = freshEnded.machine ∧
      ∃ added, ended.console = held.console ++ added ∧
        freshEnded.console = fresh.console ++ added := by
  intro held
  let fresh : Simulator :=
    ⟨config, ⟨Processor.zero, held.machine.code, held.machine.data⟩, .empty⟩
  let withCode : Simulator :=
    ⟨config, ⟨Processor.zero, held.machine.code, Memory.zero .data⟩, .empty⟩
  have codeEq : (create config).loadCode held.machine.code.bytes.toList 0 = .ok withCode := by
    change (Memory.load (Memory.zero .code) _ 0 >>= _) = _
    rw [Memory.load_bytes]
    rfl
  have dataEq : withCode.loadData held.machine.data.bytes.toList 0 = .ok fresh := by
    change (Memory.load (Memory.zero .data) _ 0 >>= _) = _
    rw [Memory.load_bytes]
    rfl
  have resetEq : held.reset = fresh.behind held.console := by
    refine Simulator.ext ?_ rfl (held.console.append_empty).symm
    exact (create config).config_inTurn history
  refine ⟨withCode, fresh, codeEq, dataEq, ?_⟩
  rw [resetEq, inTurn_behind]
  let written := (inTurn serve fresh continuation).2.console
  exact ⟨rfl, rfl, rfl, written, rfl, (Console.empty_append written).symm⟩

end Simulator

end Aap
