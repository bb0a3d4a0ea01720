import Aap.Proofs.Run

/-!
# A machine of fixed resources

This machine does what the simulator does with as little as hardware would give
it: sums on thirty-two signed bits, shifts by less than the width of a word,
sixty-four registers, and while an instruction executes three slots for register
writes and two for bytes of memory.  Whatever goes beyond that is a fault.  An
operation whose immediate is in the range of a word never faults, and its record
holds all its effects.
-/

namespace Aap

namespace Bounded

/-- What goes beyond the resources. -/
inductive Fault where
  /-- A sum leaves thirty-two signed bits. -/
  | sum
  /-- A word is shifted by its width or more. -/
  | shift
  | registerIndex
  | registerSlots
  | memorySlots
  /-- A byte is written outside data memory, where it would be dropped. -/
  | memoryAddress
  | unsupported (error : Unsupported)
  deriving DecidableEq

def add (left right : BitVec 32) : Except Fault (BitVec 32) :=
  if left.saddOverflow right then .error .sum else .ok (left + right)

def sub (left right : BitVec 32) : Except Fault (BitVec 32) :=
  if left.ssubOverflow right then .error .sum else .ok (left - right)

/-- A shift of a word, given by its direction. -/
def shift (direction : Word → Nat → Word) (word amount : Word) : Except Fault Word :=
  if amount.toNat < 16 then .ok (direction word amount.toNat) else .error .shift

/-- The slots after an entry is put into the first free one. -/
def fill {Entry : Type} : List (Option Entry) → Entry → Option (List (Option Entry))
  | [], _ => none
  | none :: slots, entry => some (some entry :: slots)
  | some taken :: slots, entry => (fill slots entry).map (some taken :: ·)

/-- The state after the writes in the filled slots, in order. -/
def writeSlots {State Entry : Type} (write : State → Entry → Except Fault State) :
    State → List (Option Entry) → Except Fault State
  | state, [] => .ok state
  | state, none :: slots => writeSlots write state slots
  | state, some entry :: slots => do
      let written ← write state entry
      writeSlots write written slots

/-- The changes of an instruction in a fixed number of slots. -/
structure Record where
  registerSlots : List (Option (Reg × Word)) := List.replicate 3 none
  memorySlots : List (Option (Word × Byte)) := List.replicate 2 none
  output : Option (Stream × Byte) := none
  exitCode : Option Word := none
  overflow : Option Bool := none
  nextPc : Word

namespace Record

/-- The record of no change. -/
def empty (nextPc : Word) : Record where
  nextPc := nextPc

def writeRegister (record : Record) (register : Reg) (value : Word) : Except Fault Record :=
  match fill record.registerSlots (register, value) with
  | some registerSlots => .ok { record with registerSlots }
  | none => .error .registerSlots

def writeMemory (record : Record) (address : Word) (byte : Byte) : Except Fault Record :=
  match fill record.memorySlots (address, byte) with
  | some memorySlots => .ok { record with memorySlots }
  | none => .error .memorySlots

/-- The record whose first slots hold the given effects. -/
def ofEffects (effects : Effects) : Record where
  registerSlots := effects.registerWrites.map some ++
    List.replicate (3 - effects.registerWrites.length) none
  memorySlots := effects.memoryWrites.map some ++
    List.replicate (2 - effects.memoryWrites.length) none
  output := effects.output
  exitCode := effects.exitCode
  overflow := effects.overflow
  nextPc := effects.nextPc

end Record

end Bounded

open Bounded

/-- The computation on thirty-two bits, with every sum and shift checked. -/
def AluOp.computeWithin (op : AluOp) (left : Word) (right : BitVec 32) (flag : Bool) :
    Except Fault (Word × Option Bool) := do
  let wide := left.signExtend 32
  let carry := (BitVec.ofBool flag).setWidth 32
  let amount := right.setWidth 16 &&& 0xF
  match op with
  | .add => return settled (← Bounded.add wide right)
  | .addWithCarry => return settled (← Bounded.add (← Bounded.add wide right) carry)
  | .sub => return settled (← Bounded.sub wide right)
  | .subWithBorrow => return settled (← Bounded.sub (← Bounded.sub wide right) carry)
  | .and => return (left &&& right.setWidth 16, none)
  | .or => return (left ||| right.setWidth 16, none)
  | .xor => return (left ^^^ right.setWidth 16, none)
  | .asr => return (← shift BitVec.sshiftRight left amount, none)
  | .lsl => return (← shift BitVec.shiftLeft left amount, none)
  | .lsr => return (← shift BitVec.ushiftRight left amount, none)
where
  settled (sum : BitVec 32) : Word × Option Bool :=
    let (word, overflow) := Word.truncate sum
    (word, some overflow)

/-- The value of the register at an index of the register file. -/
def Processor.readAt (processor : Processor) (index : Nat) : Except Fault Word :=
  match processor.registers[index]? with
  | some value => .ok value
  | none => .error .registerIndex

def Processor.writeAt (processor : Processor) (index : Nat) (value : Word) :
    Except Fault Processor :=
  if inside : index < 64 then
    .ok { processor with registers := processor.registers.set index value }
  else
    .error .registerIndex

def Memory.writeAt (data : Memory .data) (address : Nat) (byte : Byte) :
    Except Fault (Memory .data) :=
  if address < Space.data.size then .ok (data.write address byte) else .error .memoryAddress

namespace Operation

/-- The outcome of an operation and the record of its changes. -/
def executeWithin (operation : Operation) (machine : Machine) (pc fallThrough : Word) :
    Except Fault (Outcome × Record) := do
  let record := Record.empty fallThrough
  let read (register : Reg) := machine.processor.readAt register.val
  match operation with
  | nop reg command =>
      let value ← read reg
      match Request.ofCommand command with
      | .breakpoint => return (.breakpoint, record)
      | .quit => return (.quit, { record with exitCode := some value })
      | .put stream =>
          return (.retired, { record with output := some (stream, Word.lowByte value) })
      | .ignore => return (.retired, record)
  | move rd rs => return (.retired, ← record.writeRegister rd (← read rs))
  | moveImmediate rd imm =>
      return (.retired, ← record.writeRegister rd (BitVec.ofNat 16 imm))
  | alu op rd ra rb =>
      let right ← read rb
      let (result, overflow) ←
        op.computeWithin (← read ra) (right.signExtend 32) machine.processor.overflow
      return (.retired, { ← record.writeRegister rd result with overflow })
  | aluImmediate op rd ra imm =>
      let (result, overflow) ←
        op.computeWithin (← read ra) (BitVec.ofNat 32 imm) machine.processor.overflow
      return (.retired, { ← record.writeRegister rd result with overflow })
  | load width mode rd base offset =>
      let pointer := mode.pointerBefore width (← read base)
      let record ← if mode = .preDecrement then record.writeRegister base pointer else pure record
      let value := machine.loaded width (Word.displace pointer offset)
      let record ← record.writeRegister rd value
      match mode.pointerAfter? width pointer with
      | some advanced => return (.retired, ← record.writeRegister base advanced)
      | none => return (.retired, record)
  | store width mode base offset rs =>
      let value ← read rs
      let pointer := mode.pointerBefore width (← read base)
      let record ← if mode = .preDecrement then record.writeRegister base pointer else pure record
      let address := Word.displace pointer offset
      let record ← record.writeMemory address (Word.lowByte value)
      let record ←
        if width = .word then record.writeMemory (address + 1) (Word.highByte value)
        else pure record
      match mode.pointerAfter? width pointer with
      | some advanced => return (.retired, ← record.writeRegister base advanced)
      | none => return (.retired, record)
  | branchAndLink offset link =>
      let record ← record.writeRegister link fallThrough
      return (.retired, { record with nextPc := Word.displace pc offset })
  | jumpAndLink target link =>
      let value ← read target
      let record ← record.writeRegister link fallThrough
      return (.retired, { record with nextPc := value })
  | branch condition offset ra rb =>
      if condition.holds (← read ra) (← read rb) then
        return (.retired, { record with nextPc := Word.displace pc offset })
      else
        return (.retired, record)
  | branchAlways offset => return (.retired, { record with nextPc := Word.displace pc offset })
  | jump target => return (.retired, { record with nextPc := ← read target })
  | jumpConditional _ _ _ _ => return (.unimplemented, Record.empty pc)

end Operation

namespace Bounded

@[simp]
theorem ok_bind {Value Result : Type} (value : Value) (next : Value → Except Fault Result) :
    (Except.ok value >>= next) = next value := rfl

@[simp]
theorem pure_eq_ok {Value : Type} (value : Value) : (pure value : Except Fault Value) = .ok value :=
  rfl

theorem add_eq_ok {left right : BitVec 32} {first second : Int} (leftEq : left.toInt = first)
    (rightEq : right.toInt = second) (fits : FitsSigned32 (first + second)) :
    ∃ sum, add left right = .ok sum ∧ sum.toInt = first + second := by
  subst leftEq rightEq
  have within : ¬ left.saddOverflow right = true := by
    obtain ⟨lower, upper⟩ := fits
    simp only [BitVec.saddOverflow, Bool.or_eq_true, decide_eq_true_eq, not_or]
    omega
  exact ⟨_, if_neg within, BitVec.toInt_add_of_not_saddOverflow within⟩

theorem sub_eq_ok {left right : BitVec 32} {first second : Int} (leftEq : left.toInt = first)
    (rightEq : right.toInt = second) (fits : FitsSigned32 (first - second)) :
    ∃ difference, sub left right = .ok difference ∧ difference.toInt = first - second := by
  subst leftEq rightEq
  have within : ¬ left.ssubOverflow right = true := by
    obtain ⟨lower, upper⟩ := fits
    simp only [BitVec.ssubOverflow, Bool.or_eq_true, decide_eq_true_eq, not_or]
    omega
  exact ⟨_, if_neg within, BitVec.toInt_sub_of_not_ssubOverflow within⟩

theorem shift_eq_ok (direction : Word → Nat → Word) (word amount : Word) :
    shift direction word (amount &&& 0xF) = .ok (direction word (amount.toNat % 16)) := by
  have amountEq : (amount &&& 0xF).toNat = amount.toNat % 16 := by
    rw [BitVec.toNat_and]
    exact Nat.and_two_pow_sub_one_eq_mod amount.toNat 4
  rw [shift, amountEq, if_pos (Nat.mod_lt _ (by decide))]

/-- The first free slot of a list that is filled from its front. -/
theorem fill_map_some {Entry : Type} (entries : List Entry) (entry : Entry) (free : Nat) :
    fill (entries.map some ++ List.replicate (free + 1) none) entry =
      some ((entries ++ [entry]).map some ++ List.replicate free none) := by
  induction entries with
  | nil => rfl
  | cons first entries induction =>
      simp only [List.map_cons, List.cons_append, fill, induction, Option.map_some]

/-- Writing from slots filled with a list makes the writes of the list. -/
theorem writeSlots_eq_ok {State Entry : Type} {write : State → Entry → Except Fault State}
    {written : State → Entry → State}
    (writeEq : ∀ state entry, write state entry = .ok (written state entry)) (state : State)
    (entries : List Entry) (free : Nat) :
    writeSlots write state (entries.map some ++ List.replicate free none) =
      .ok (entries.foldl written state) := by
  induction entries generalizing state with
  | nil =>
      induction free with
      | zero => rfl
      | succ free induction => exact induction
  | cons entry entries induction =>
      rw [List.map_cons, List.cons_append, writeSlots, writeEq, ok_bind, induction,
        List.foldl_cons]

namespace Record

@[simp]
theorem empty_eq_ofEffects (nextPc : Word) : empty nextPc = ofEffects { nextPc } := rfl

@[simp]
theorem writeRegister_ofEffects (effects : Effects) (register : Reg) (value : Word)
    (free : effects.registerWrites.length < 3) :
    (ofEffects effects).writeRegister register value =
      .ok (ofEffects
        { effects with registerWrites := effects.registerWrites ++ [(register, value)] }) := by
  have freeEq : 3 - effects.registerWrites.length =
      3 - (effects.registerWrites ++ [(register, value)]).length + 1 := by
    rw [List.length_append, List.length_singleton]
    omega
  simp only [writeRegister, ofEffects, freeEq, fill_map_some]

@[simp]
theorem writeMemory_ofEffects (effects : Effects) (address : Word) (byte : Byte)
    (free : effects.memoryWrites.length < 2) :
    (ofEffects effects).writeMemory address byte =
      .ok (ofEffects
        { effects with memoryWrites := effects.memoryWrites ++ [(address, byte)] }) := by
  have freeEq : 2 - effects.memoryWrites.length =
      2 - (effects.memoryWrites ++ [(address, byte)]).length + 1 := by
    rw [List.length_append, List.length_singleton]
    omega
  simp only [writeMemory, ofEffects, freeEq, fill_map_some]

end Record

end Bounded

namespace AluOp

theorem computeWithin_settled {wide : BitVec 32} {sum : Int} (sumEq : wide.toInt = sum) :
    computeWithin.settled wide = compute.settled sum := by
  rw [computeWithin.settled, compute.settled, ← sumEq, settle_toInt]

/-- With a second operand in the range of a word no sum and no shift faults. -/
theorem computeWithin_eq_ok (op : AluOp) (left : Word) (right : Operand) (flag : Bool)
    (lower : -2 ^ 15 ≤ right.summand) (upper : right.summand < 2 ^ 15) :
    op.computeWithin left right.wide flag = .ok (op.compute left right flag) := by
  have leftEq : (left.signExtend 32).toInt = left.toInt :=
    BitVec.toInt_signExtend_of_le (by decide)
  have rightEq := right.summand_eq_toInt_wide
  have carryEq : ((BitVec.ofBool flag).setWidth 32).toInt = flag.toInt := by
    cases flag <;> rfl
  -- The sum without the carry is that of the plain computation.
  have fits (op : AluOp) := op.fitsSigned32_of_lt left lower upper flag
  have amountEq (direction : Word → Nat → Word) :
      Bounded.shift direction left (right.wide.setWidth 16 &&& 0xF) =
        .ok (direction left right.amount) := by
    rw [← right.bits_eq_setWidth_wide, Bounded.shift_eq_ok]
    rfl
  cases op with
  | add =>
      obtain ⟨sum, sumOk, sumEq⟩ := Bounded.add_eq_ok leftEq rightEq.symm (fits .add _ rfl)
      simp only [computeWithin, sumOk, ok_bind]
      exact congrArg Except.ok (computeWithin_settled sumEq)
  | addWithCarry =>
      obtain ⟨sum, sumOk, sumEq⟩ := Bounded.add_eq_ok leftEq rightEq.symm (fits .add _ rfl)
      obtain ⟨total, totalOk, totalEq⟩ :=
        Bounded.add_eq_ok sumEq carryEq (fits .addWithCarry _ rfl)
      simp only [computeWithin, sumOk, totalOk, ok_bind]
      exact congrArg Except.ok (computeWithin_settled totalEq)
  | sub =>
      obtain ⟨sum, sumOk, sumEq⟩ := Bounded.sub_eq_ok leftEq rightEq.symm (fits .sub _ rfl)
      simp only [computeWithin, sumOk, ok_bind]
      exact congrArg Except.ok (computeWithin_settled sumEq)
  | subWithBorrow =>
      obtain ⟨sum, sumOk, sumEq⟩ := Bounded.sub_eq_ok leftEq rightEq.symm (fits .sub _ rfl)
      obtain ⟨total, totalOk, totalEq⟩ :=
        Bounded.sub_eq_ok sumEq carryEq (fits .subWithBorrow _ rfl)
      simp only [computeWithin, sumOk, totalOk, ok_bind]
      exact congrArg Except.ok (computeWithin_settled totalEq)
  | and => simp only [computeWithin, compute, right.bits_eq_setWidth_wide]; rfl
  | or => simp only [computeWithin, compute, right.bits_eq_setWidth_wide]; rfl
  | xor => simp only [computeWithin, compute, right.bits_eq_setWidth_wide]; rfl
  | asr => simp only [computeWithin, compute, amountEq]; rfl
  | lsl => simp only [computeWithin, compute, amountEq]; rfl
  | lsr => simp only [computeWithin, compute, amountEq]; rfl

example : computeWithin .add 1 0x7FFFFFFF#32 false = .error .sum := rfl

end AluOp

@[simp]
theorem Processor.readAt_val (processor : Processor) (register : Reg) :
    processor.readAt register.val = .ok (processor.read register) := by
  simp [readAt, read]

@[simp]
theorem Processor.writeAt_val (processor : Processor) (register : Reg) (value : Word) :
    processor.writeAt register.val value = .ok (processor.write register value) :=
  dif_pos register.isLt

@[simp]
theorem Memory.writeAt_toNat (data : Memory .data) (address : Word) (byte : Byte) :
    data.writeAt address.toNat byte = .ok (data.write address.toNat byte) :=
  if_pos address.isLt

namespace Operation

/-- The immediate of an operation is less than the bound, if there is one. -/
def ImmediateLt (operation : Operation) (bound : Nat) : Prop :=
  ∀ op rd ra imm, operation = aluImmediate op rd ra imm → imm < bound

variable (machine : Machine) (pc fallThrough : Word)

/-- An operation changes two registers and two bytes of memory at most. -/
theorem length_writes_le (operation : Operation) :
    (operation.execute machine pc fallThrough).2.registerWrites.length ≤ 2 ∧
      (operation.execute machine pc fallThrough).2.memoryWrites.length ≤ 2 := by
  cases operation with
  | nop reg command =>
      cases requestEq : Request.ofCommand command <;> simp [execute, requestEq]
  | load width mode rd base offset =>
      cases mode <;> simp [execute, Mode.writesBefore, Mode.writesAfter, Mode.pointerAfter?]
  | store width mode base offset rs =>
      cases width <;> cases mode <;>
        simp [execute, Mode.writesBefore, Mode.writesAfter, Mode.pointerAfter?, Width.storedBytes]
  | branch condition offset ra rb =>
      rw [execute]
      split <;> simp
  | _ => simp [execute]

/-- With an immediate in the range of a word the record of an operation holds
all its effects. -/
theorem executeWithin_eq_ok (operation : Operation) (small : operation.ImmediateLt (2 ^ 15)) :
    operation.executeWithin machine pc fallThrough =
      .ok ((operation.execute machine pc fallThrough).1,
        Record.ofEffects (operation.execute machine pc fallThrough).2) := by
  have readEq (register : Reg) : machine.processor.readAt register.val =
      .ok (machine.read register) := machine.processor.readAt_val register
  cases operation with
  | nop reg command =>
      cases requestEq : Request.ofCommand command <;>
        simp [executeWithin, execute, readEq, requestEq] <;> rfl
  | move rd rs => simp [executeWithin, execute, readEq]
  | moveImmediate rd imm => simp [executeWithin, execute]
  | alu op rd ra rb =>
      have computeEq := op.computeWithin_eq_ok (machine.read ra) (.register (machine.read rb))
        machine.processor.overflow (BitVec.le_toInt _) BitVec.toInt_lt
      rw [Operand.wide] at computeEq
      simp [executeWithin, execute, readEq, computeEq]
      rfl
  | aluImmediate op rd ra imm =>
      -- Immediates are not signed, so only their upper bound is at stake.
      have immLt := small op rd ra imm rfl
      have immEq := Operand.summand_immediate immLt
      have computeEq := op.computeWithin_eq_ok (machine.read ra) (.immediate imm)
        machine.processor.overflow (by omega) (by omega)
      rw [Operand.wide] at computeEq
      simp [executeWithin, execute, readEq, computeEq]
      rfl
  | load width mode rd base offset =>
      cases mode <;>
        simp [executeWithin, execute, readEq, Mode.writesBefore, Mode.writesAfter,
          Mode.pointerAfter?]
  | store width mode base offset rs =>
      cases width <;> cases mode <;>
        simp [executeWithin, execute, readEq, Mode.writesBefore, Mode.writesAfter,
          Mode.pointerAfter?, Width.storedBytes]
  | branchAndLink offset link =>
      simp [executeWithin, execute]
      rfl
  | jumpAndLink target link =>
      simp [executeWithin, execute, readEq]
      rfl
  | branch condition offset ra rb =>
      simp only [executeWithin, execute, readEq, ok_bind]
      split <;> rfl
  | branchAlways offset => rfl
  | jump target =>
      simp only [executeWithin, execute, readEq, ok_bind]
      rfl
  | jumpConditional condition target ra rb => rfl

end Operation

theorem Instruction.immediateLt_of_decode {bytes : List Byte} {address : Nat}
    {instruction : Instruction} (decoded : decode bytes address = .ok instruction) :
    instruction.operation.ImmediateLt (2 ^ 15) := by
  intro op rd ra imm operationEq
  have immLt := (begins_of_decode decoded).immediate_lt operationEq
  omega

end Aap
