import Aap.Proofs.Arithmetic
import Aap.Proofs.Observation
import Mathlib.Tactic.SplitIfs

/-!
# Instructions in one piece

The simulator first records what an instruction changes and then commits the
record.  Here every operation is given its whole meaning at once, from the
observation before it to the observation after it: all registers, the flag and
all bytes are read from the state before, whatever registers coincide.  The
two ways to execute an instruction agree.
-/

namespace Aap

/-- Whether a condition holds between the signed or unsigned values of words. -/
def Condition.Holds (condition : Condition) (left right : Word) : Prop :=
  match condition with
  | equal => left = right
  | notEqual => left ≠ right
  | lessSigned => left.toInt < right.toInt
  | greaterSigned => left.toInt > right.toInt
  | lessUnsigned => left.toNat < right.toNat
  | greaterUnsigned => left.toNat > right.toNat

instance (condition : Condition) (left right : Word) :
    Decidable (condition.Holds left right) := by
  unfold Condition.Holds
  cases condition <;> infer_instance

/-- The word at a distance from another, modulo `2 ^ 16`. -/
def Word.reach (start : Word) (distance : Int) : Word :=
  BitVec.ofInt 16 (start.toNat + distance)

namespace Observation

/-- The pointer with which an access is made. -/
def pointer (before : Observation) (width : Width) (mode : Mode) (base : Reg) : Word :=
  match mode with
  | .preDecrement => Word.reach (before.registers base) (-width.bytes)
  | .plain | .postIncrement => before.registers base

/-- The value read at an address: a byte with zeros above it, or a byte and
the one at the next address above it. -/
def value (before : Observation) (width : Width) (address : Word) : Word :=
  match width with
  | .byte => BitVec.ofNat 16 (before.data address).toNat
  | .word =>
      BitVec.ofNat 16
        ((before.data address).toNat + 256 * (before.data (Word.reach address 1)).toNat)

end Observation

namespace Operation

/-- The observation after an operation found at `pc`, with `fallThrough` as the
program counter after it.  A conditional jump has no meaning. -/
def interpret (operation : Operation) (pc fallThrough : Word) (before : Observation) :
    Observation :=
  match operation with
  | nop reg command =>
      { before with
        pc := fallThrough
        exitCode := if command = 2 then before.registers reg else before.exitCode
        output := fun stream =>
          let byte := BitVec.ofNat 8 (before.registers reg).toNat
          match stream with
          | .stdout => if command = 3 then before.output stream ++ [byte] else before.output stream
          | .stderr => if command = 4 then before.output stream ++ [byte] else before.output stream }
  | move rd rs =>
      { before with
        pc := fallThrough
        registers := fun register =>
          if register = rd then before.registers rs else before.registers register }
  | moveImmediate rd imm =>
      { before with
        pc := fallThrough
        registers := fun register =>
          if register = rd then BitVec.ofNat 16 imm else before.registers register }
  | alu op rd ra rb =>
      let result :=
        op.evaluate (before.registers ra) ((before.registers rb).signExtend 32) before.overflow
      { before with
        pc := fallThrough
        registers := fun register => if register = rd then result.1 else before.registers register
        overflow := result.2 }
  | aluImmediate op rd ra imm =>
      let result := op.evaluate (before.registers ra) (BitVec.ofNat 32 imm) before.overflow
      { before with
        pc := fallThrough
        registers := fun register => if register = rd then result.1 else before.registers register
        overflow := result.2 }
  | load width mode rd base offset =>
      let pointer := before.pointer width mode base
      let value := before.value width (Word.reach pointer offset)
      { before with
        pc := fallThrough
        registers := fun register =>
          match mode with
          | .plain => if register = rd then value else before.registers register
          | .preDecrement =>
              if register = rd then value
              else if register = base then pointer
              else before.registers register
          | .postIncrement =>
              if register = base then Word.reach pointer width.bytes
              else if register = rd then value
              else before.registers register }
  | store width mode base offset rs =>
      let pointer := before.pointer width mode base
      let address := Word.reach pointer offset
      let value := (before.registers rs).toNat
      { before with
        pc := fallThrough
        registers := fun register =>
          match mode with
          | .plain => before.registers register
          | .preDecrement => if register = base then pointer else before.registers register
          | .postIncrement =>
              if register = base then Word.reach pointer width.bytes
              else before.registers register
        data := fun cell =>
          if cell = address then BitVec.ofNat 8 value
          else if width = .word ∧ cell = Word.reach address 1 then BitVec.ofNat 8 (value / 256)
          else before.data cell }
  | branchAndLink offset link =>
      { before with
        pc := Word.reach pc offset
        registers := fun register =>
          if register = link then fallThrough else before.registers register }
  | jumpAndLink target link =>
      { before with
        pc := before.registers target
        registers := fun register =>
          if register = link then fallThrough else before.registers register }
  | branch condition offset ra rb =>
      { before with
        pc :=
          if condition.Holds (before.registers ra) (before.registers rb) then
            Word.reach pc offset
          else
            fallThrough }
  | branchAlways offset => { before with pc := Word.reach pc offset }
  | jump target => { before with pc := before.registers target }
  | jumpConditional _ _ _ _ => before

/-- Every sum that the operation forms with an immediate fits into thirty-two
signed bits. -/
def SumFits (operation : Operation) (before : Observation) : Prop :=
  match operation with
  | aluImmediate op _ ra imm =>
      ∀ sum ∈ op.sum? (before.registers ra).toInt (BitVec.ofNat 32 imm).toInt before.overflow,
        FitsSigned32 sum
  | _ => True

/-- Whether the machine gives the operation no meaning. -/
def IsConditionalJump (operation : Operation) : Prop :=
  ∃ condition target ra rb, operation = jumpConditional condition target ra rb

end Operation

end Aap
