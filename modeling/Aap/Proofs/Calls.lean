import Aap.Proofs.Trace

/-!
# Calls and returns

A call leaves the address of the instruction behind it in its link register, and a
jump through a register goes where the register leads.  Which registers an
operation writes is told by its operands, so that the return address stays in the
link register over any number of steps that do not name it as one of those, and
the jump through it leads back behind the call.
-/

namespace Aap

namespace Operation

/-- Whether an operation writes a register: its destination, its link, or a pointer
that it moves. -/
def Writes (operation : Operation) (register : Reg) : Prop :=
  match operation with
  | move rd _ | moveImmediate rd _ | alu _ rd _ _ | aluImmediate _ rd _ _ => register = rd
  | load _ mode rd base _ => register = rd ∨ mode ≠ .plain ∧ register = base
  | store _ mode base _ _ => mode ≠ .plain ∧ register = base
  | branchAndLink _ link | jumpAndLink _ link => register = link
  | nop _ _ | branch _ _ _ _ | branchAlways _ | jump _ | jumpConditional _ _ _ _ => False

/-- Whether an operation is a call with a link register. -/
def Calls (operation : Operation) (link : Reg) : Prop :=
  (∃ offset, operation = branchAndLink offset link) ∨
    ∃ target, operation = jumpAndLink target link

/-- The registers that an operation writes are those of its recorded writes. -/
theorem mem_registerWrites_iff (operation : Operation) (machine : Machine) (pc fallThrough : Word)
    (register : Reg) :
    register ∈ (operation.execute machine pc fallThrough).2.registerWrites.map Prod.fst ↔
      operation.Writes register := by
  cases operation with
  | nop reg command =>
      unfold execute
      match command with
      | 0 | 1 | 2 | 3 | 4 | n + 5 => simp [Request.ofCommand, Writes]
  | load width mode rd base offset =>
      cases mode <;>
        simp [execute, Writes, Mode.writesBefore, Mode.writesAfter, Mode.pointerAfter?, or_comm]
  | store width mode base offset rs =>
      cases mode <;>
        simp [execute, Writes, Mode.writesBefore, Mode.writesAfter, Mode.pointerAfter?]
  | branch condition offset ra rb =>
      rw [execute]
      split <;> simp [Writes]
  | _ => simp [execute, Writes]

end Operation

theorem overwrite_of_notMem {Cell Value : Type} [DecidableEq Cell] (cells : Cell → Value)
    {writes : List (Cell × Value)} {cell : Cell} (spared : cell ∉ writes.map Prod.fst) :
    overwrite cells writes cell = cells cell := by
  induction writes generalizing cells with
  | nil => rfl
  | cons entry writes induction =>
      rw [List.map_cons, List.mem_cons, not_or] at spared
      rw [overwrite, induction _ spared.2, Function.update_of_ne spared.1]

namespace Simulator

variable {simulator : Simulator} {instruction : Instruction}

/-- A step keeps the registers that its instruction does not write. -/
theorem read_step (fetchedEq : simulator.fetched = .ok instruction) {register : Reg}
    (spared : ¬ instruction.operation.Writes register) :
    simulator.step.simulator.machine.read register = simulator.machine.read register := by
  by_cases conditional : instruction.operation.IsConditionalJump
  · rw [simulator_step_of_conditionalJump fetchedEq conditional]
  · obtain ⟨outcome, effects, _, executeEq, stepEq⟩ := step_of_meaningful fetchedEq conditional
    rw [← instruction.operation.mem_registerWrites_iff simulator.machine simulator.pc
      (simulator.pc + BitVec.ofNat 16 instruction.words), executeEq] at spared
    have committedEq :=
      congrFun (congrArg Observation.registers (observe_commit simulator effects)) register
    rw [stepEq]
    exact committedEq.trans (overwrite_of_notMem _ spared)

/-- A call leaves the address behind it in its link register, also if it jumps
through that register itself. -/
theorem step_of_call (fetchedEq : simulator.fetched = .ok instruction) {link : Reg}
    (calls : instruction.operation.Calls link) :
    simulator.step.result.status = .ok .ok ∧
      simulator.step.simulator.machine.read link =
        simulator.pc + BitVec.ofNat 16 instruction.words := by
  have observed := congrArg Observation.registers (observe_step fetchedEq)
  have meaningful : ¬ instruction.operation.IsConditionalJump := by
    rintro ⟨condition, target, ra, rb, operationEq⟩
    rcases calls with ⟨_, callEq⟩ | ⟨_, callEq⟩ <;> cases operationEq.symm.trans callEq
  obtain ⟨outcome, effects, _, executeEq, stepEq⟩ := step_of_meaningful fetchedEq meaningful
  -- The meaning writes the link last, whatever register the target came from.
  rcases calls with ⟨offset, operationEq⟩ | ⟨target, operationEq⟩
  all_goals
    rw [operationEq] at observed executeEq
    cases executeEq
    refine ⟨?_, (congrFun observed link).trans (if_pos rfl)⟩
    rw [stepEq]
    rfl

theorem step_of_jump (fetchedEq : simulator.fetched = .ok instruction) {target : Reg}
    (operationEq : instruction.operation = .jump target) :
    simulator.step.result.status = .ok .ok ∧
      simulator.step.simulator.pc = simulator.machine.read target := by
  have meaningful : ¬ instruction.operation.IsConditionalJump := by
    simp [operationEq, Operation.IsConditionalJump]
  obtain ⟨outcome, effects, _, executeEq, stepEq⟩ := step_of_meaningful fetchedEq meaningful
  rw [operationEq] at executeEq
  cases executeEq
  rw [stepEq]
  exact ⟨rfl, rfl⟩

/-- Where steps lead that all end well and execute no instruction that writes a
register. -/
inductive StepsSparing (register : Reg) (origin : Simulator) : Simulator → Prop where
  | start : StepsSparing register origin origin
  | step {last : Simulator} {instruction : Instruction}
      (earlier : StepsSparing register origin last) (fetchedEq : last.fetched = .ok instruction)
      (spared : ¬ instruction.operation.Writes register)
      (statusEq : last.step.result.status = .ok .ok) :
      StepsSparing register origin last.step.simulator

theorem StepsSparing.read_eq {register : Reg} {origin last : Simulator}
    (steps : StepsSparing register origin last) :
    last.machine.read register = origin.machine.read register := by
  induction steps with
  | start => rfl
  | step earlier fetchedEq spared statusEq induction =>
      exact (read_step fetchedEq spared).trans induction

/-- A jump through the link register of a call leads behind the call, after any steps
that do not write the register. -/
theorem calls_return (origin last : Simulator) {call back : Instruction} {link : Reg}
    (callEq : origin.fetched = .ok call) (calls : call.operation.Calls link)
    (body : StepsSparing link origin.step.simulator last)
    (backEq : last.fetched = .ok back) (jumps : back.operation = .jump link) :
    origin.step.result.status = .ok .ok ∧
    last.step.result.status = .ok .ok ∧
    last.step.simulator.pc = BitVec.ofNat 16 (origin.pc.toNat + call.size / 2) := by
  obtain ⟨callStatus, linkEq⟩ := step_of_call callEq calls
  obtain ⟨backStatus, pcEq⟩ := step_of_jump backEq jumps
  have wordsEq : call.size / 2 = call.words := by
    rw [call.size_eq]
    omega
  refine ⟨callStatus, backStatus, ?_⟩
  rw [pcEq, body.read_eq, linkEq, wordsEq, BitVec.ofNat_add, BitVec.ofNat_toNat,
    BitVec.setWidth_eq]

/-- A long call in the last two words of code, through its own link register, to a
move and the return, which leads to the first word. -/
theorem calls_return_around_end :
    let origin := (((((((create {}).writeCode 0x1FFFC 0x41).writeCode 0x1FFFD 0xD2).writeCode 4
      0x88).writeCode 5 0x12).writeCode 6 0x40).writeCode 7 0x50).commit
        { registerWrites := [(1, 2)], nextPc := 0xFFFE }
    let called := origin.step.simulator
    let last := called.step.simulator
    origin.fetched = .ok ⟨⟨.long, .jumpAndLink, rfl⟩, .jumpAndLink 1 1⟩ ∧
    StepsSparing 1 called last ∧
    last.fetched = .ok ⟨⟨.short, .jump, rfl⟩, .jump 1⟩ ∧
    last.step.simulator.pc = 0 := by
  intro origin called last
  have callEq : origin.fetched = .ok ⟨⟨.long, .jumpAndLink, rfl⟩, .jumpAndLink 1 1⟩ := by
    change origin.machine.code.fetch 0xFFFE = _
    rw [Memory.fetch_eq_decode _ (by decide)]
    simp [origin, commit, writeCode, create, Machine.zero, Memory.read_write, Space.size]
    decide +kernel
  obtain ⟨_, _, _, executeEq, calledEq⟩ :=
    step_of_meaningful callEq (by simp [Operation.IsConditionalJump])
  cases executeEq
  have calledPc : called.pc = 2 := by
    change origin.step.simulator.pc = 2
    rw [calledEq]
    rfl
  have calledCode : called.machine.code = origin.machine.code := by simp only [called, code_step]
  have moveEq : called.fetched = .ok ⟨⟨.short, .move, rfl⟩, .move 2 1⟩ := by
    rw [fetched, calledPc, calledCode, Memory.fetch_eq_decode _ (by decide)]
    simp [origin, commit, writeCode, create, Machine.zero, Memory.read_write, Space.size]
    decide +kernel
  obtain ⟨_, _, _, executeEq, lastEq⟩ :=
    step_of_meaningful moveEq (by simp [Operation.IsConditionalJump])
  cases executeEq
  have lastPc : last.pc = 3 := by
    change called.step.simulator.pc = 3
    rw [lastEq]
    change called.pc + 1 = 3
    rw [calledPc]
    rfl
  have lastCode : last.machine.code = origin.machine.code := by
    simp only [last, code_step, calledCode]
  have jumpEq : last.fetched = .ok ⟨⟨.short, .jump, rfl⟩, .jump 1⟩ := by
    rw [fetched, lastPc, lastCode, Memory.fetch_eq_decode _ (by decide)]
    simp [origin, commit, writeCode, create, Machine.zero, Memory.read_write, Space.size]
    decide +kernel
  have body : StepsSparing 1 called last :=
    StepsSparing.start.step moveEq (by simp [Operation.Writes]) (by rw [lastEq]; rfl)
  obtain ⟨_, _, pcEq⟩ := calls_return origin last callEq (.inr ⟨1, rfl⟩) body jumpEq rfl
  refine ⟨callEq, body, jumpEq, ?_⟩
  have originPc : origin.pc = 0xFFFE := rfl
  rw [pcEq, originPc]
  decide

end Simulator

end Aap
