import Aap.Proofs.Step

/-!
# Loads after stores

A store puts the bytes of a register at consecutive addresses, the least
significant one first, and a load reads as many bytes as it is wide.  Addresses
go around at `2 ^ 16`, within an access as well.  Whatever widths, modes and
registers a store and a load after it have, each byte that the load reads is one
of the store if the store covered its address, and the byte there before
otherwise.
-/

namespace Aap

namespace Word

/-- How far an address is behind another one, modulo `2 ^ 16`. -/
def distance (start address : Word) : Nat :=
  (address - start).toNat

theorem reach_reach (start : Word) (first second : Int) :
    reach (reach start first) second = reach start (first + second) := by
  simp only [← displace_eq_reach, displace, BitVec.ofInt_add, BitVec.add_assoc]

theorem reach_zero (start : Word) : reach start 0 = start := by
  rw [reach, Int.add_zero, BitVec.ofInt_natCast, BitVec.ofNat_toNat, BitVec.setWidth_eq]

theorem reach_distance (start address : Word) :
    reach start (distance start address) = address := by
  rw [← add_ofNat_eq_reach, distance, BitVec.ofNat_toNat, BitVec.setWidth_eq, BitVec.add_comm,
    BitVec.sub_add_cancel]

theorem distance_reach (start : Word) {count : Nat} (countLt : count < 2 ^ 16) :
    distance start (reach start count) = count := by
  rw [← add_ofNat_eq_reach, distance, BitVec.add_comm, BitVec.add_sub_cancel, BitVec.toNat_ofNat,
    Nat.mod_eq_of_lt countLt]

theorem distance_eq_iff {start address : Word} {count : Nat} (countLt : count < 2 ^ 16) :
    distance start address = count ↔ address = reach start count := by
  constructor
  · rintro rfl
    exact (reach_distance start address).symm
  · rintro rfl
    exact distance_reach start countLt

end Word

/-- The number that bytes stand for, the first of them being the least significant. -/
def numberOf : List Byte → Nat
  | [] => 0
  | byte :: rest => byte.toNat + 256 * numberOf rest

theorem ofNat_numberOf_pair (low high : Byte) :
    BitVec.ofNat 16 (numberOf [low, high]) = Word.ofBytes low high := by
  apply BitVec.eq_of_toNat_eq
  have lowLt := low.isLt
  have highLt := high.isLt
  simp only [numberOf, Word.toNat_ofBytes, BitVec.toNat_ofNat]
  omega

namespace Width

/-- The bytes of a value that an access moves, the least significant one first. -/
def pieces (width : Width) (value : Word) : List Byte :=
  (List.range width.bytes).map fun place => BitVec.ofNat 8 (value.toNat / 256 ^ place)

/-- What is left of a value that was stored and loaded: all of it, or its low byte
with zeros above. -/
def kept (width : Width) (value : Word) : Word :=
  match width with
  | byte => BitVec.ofNat 16 (value.toNat % 256)
  | word => value

@[simp]
theorem length_pieces (width : Width) (value : Word) :
    (width.pieces value).length = width.bytes := by
  simp [pieces]

theorem pieces_byte (value : Word) : pieces byte value = [Word.lowByte value] := by
  simp [pieces, bytes, Word.lowByte_eq_ofNat]

theorem pieces_word (value : Word) :
    pieces word value = [Word.lowByte value, Word.highByte value] := by
  simp [pieces, bytes, List.range_succ, Word.lowByte_eq_ofNat, Word.highByte_eq_ofNat]

theorem ofNat_numberOf_pieces (width : Width) (value : Word) :
    BitVec.ofNat 16 (numberOf (width.pieces value)) = width.kept value := by
  apply BitVec.eq_of_toNat_eq
  have valueLt := value.isLt
  cases width with
  | byte => simp [pieces_byte, numberOf, kept, Word.toNat_lowByte]
  | word => rw [pieces_word, ofNat_numberOf_pair, Word.ofBytes_lowByte_highByte, kept]

end Width

/-- The bytes at consecutive addresses. -/
def bytesFrom (data : Word → Byte) (start : Word) (count : Nat) : List Byte :=
  (List.range count).map fun place : Nat => data (Word.reach start place)

/-- The data after bytes were put at consecutive addresses: what the bytes do not
reach is as before. -/
def putFrom (data : Word → Byte) (start : Word) (bytes : List Byte) : Word → Byte :=
  fun address => bytes[Word.distance start address]?.getD (data address)

@[simp]
theorem length_bytesFrom (data : Word → Byte) (start : Word) (count : Nat) :
    (bytesFrom data start count).length = count := by
  simp [bytesFrom]

theorem bytesFrom_add (data : Word → Byte) (start : Word) (first second : Nat) :
    bytesFrom data start (first + second) =
      bytesFrom data start first ++ bytesFrom data (Word.reach start first) second := by
  simp only [bytesFrom, List.range_add, List.map_append, List.map_map, Word.reach_reach]
  rfl

theorem bytesFrom_two (data : Word → Byte) (start : Word) :
    bytesFrom data start 2 = [data start, data (Word.reach start 1)] := by
  simp [bytesFrom, List.range_succ, Word.reach_zero]

section Put

variable (data : Word → Byte) (start : Word) (bytes : List Byte)

theorem putFrom_reach {place : Nat} (placeLt : place < 2 ^ 16) :
    putFrom data start bytes (Word.reach start place) =
      bytes[place]?.getD (data (Word.reach start place)) := by
  rw [putFrom, Word.distance_reach start placeLt]

theorem putFrom_of_length_le {address : Word}
    (beyond : bytes.length ≤ Word.distance start address) :
    putFrom data start bytes address = data address := by
  rw [putFrom, List.getElem?_eq_none beyond, Option.getD_none]

/-- Bytes are found where they were put. -/
theorem bytesFrom_putFrom (room : bytes.length ≤ 2 ^ 16) :
    bytesFrom (putFrom data start bytes) start bytes.length = bytes := by
  apply List.ext_getElem
  · exact length_bytesFrom _ _ _
  · intro place _ placeLt
    simp only [bytesFrom, List.getElem_map, List.getElem_range]
    rw [putFrom_reach data start bytes (by omega), List.getElem?_eq_getElem placeLt,
      Option.getD_some]

/-- What lies behind bytes that are put stays, as far as they do not come around
to it. -/
theorem bytesFrom_behind_putFrom (count : Nat) (room : bytes.length + count ≤ 2 ^ 16) :
    bytesFrom (putFrom data start bytes) (Word.reach start bytes.length) count =
      bytesFrom data (Word.reach start bytes.length) count := by
  apply List.map_congr_left
  intro place member
  have placeLt : place < count := List.mem_range.mp member
  rw [Word.reach_reach, ← Int.natCast_add, putFrom_reach data start bytes (by omega),
    List.getElem?_eq_none (Nat.le_add_right _ _), Option.getD_none]

/-- Two bytes from the second of two that are put. -/
theorem bytesFrom_two_above (low high : Byte) :
    bytesFrom (putFrom data start [low, high]) (Word.reach start 1) 2 =
      [high, data (Word.reach start 2)] := by
  have highEq := putFrom_reach data start [low, high] (by decide : 1 < 2 ^ 16)
  have behindEq := putFrom_reach data start [low, high] (by decide : 2 < 2 ^ 16)
  rw [bytesFrom_two, Word.reach_reach]
  exact congrArg₂ (fun first second => [first, second]) highEq behindEq

/-- Two bytes of which the second is the first of two that are put. -/
theorem bytesFrom_two_below (low high : Byte) :
    bytesFrom (putFrom data start [low, high]) (Word.reach start (-1)) 2 =
      [data (Word.reach start (-1)), low] := by
  -- A distance is counted upwards, so that one below is all the way around.
  have below : Word.reach start (-1) = Word.reach start 65535 := by
    rw [← Word.displace_eq_reach, ← Word.displace_eq_reach]
    rfl
  have lowEq := putFrom_reach data start [low, high] (by decide : 0 < 2 ^ 16)
  have belowEq := putFrom_reach data start [low, high] (by decide : 65535 < 2 ^ 16)
  rw [bytesFrom_two, Word.reach_reach, below]
  exact congrArg₂ (fun first second => [first, second]) belowEq lowEq

end Put

section Overlap

variable (data : Word → Byte) (start value : Word)

theorem read_where_put (width : Width) :
    BitVec.ofNat 16
        (numberOf (bytesFrom (putFrom data start (width.pieces value)) start width.bytes)) =
      width.kept value := by
  have room : (width.pieces value).length ≤ 2 ^ 16 := by
    rw [Width.length_pieces]
    cases width <;> decide
  have readEq := bytesFrom_putFrom data start (width.pieces value) room
  rw [Width.length_pieces] at readEq
  rw [readEq, Width.ofNat_numberOf_pieces]

theorem read_word_above_put :
    BitVec.ofNat 16
        (numberOf (bytesFrom (putFrom data start (Width.word.pieces value))
          (Word.reach start 1) 2)) =
      Word.ofBytes (Word.highByte value) (data (Word.reach start 2)) := by
  rw [Width.pieces_word, bytesFrom_two_above, ofNat_numberOf_pair]

theorem read_word_below_put :
    BitVec.ofNat 16
        (numberOf (bytesFrom (putFrom data start (Width.word.pieces value))
          (Word.reach start (-1)) 2)) =
      Word.ofBytes (data (Word.reach start (-1))) (Word.lowByte value) := by
  rw [Width.pieces_word, bytesFrom_two_below, ofNat_numberOf_pair]

end Overlap

/-- An operation between the program counter at which it is found and the one
behind it. -/
structure Located where
  operation : Operation
  pc : Word
  fallThrough : Word
  deriving DecidableEq

namespace Simulator

/-- The simulator after an operation is executed, with its effects committed unless
it has no meaning. -/
def perform (simulator : Simulator) (located : Located) : Simulator :=
  let (outcome, effects) :=
    located.operation.execute simulator.machine located.pc located.fallThrough
  simulator.conclude outcome effects

theorem perform_of_conditionalJump (simulator : Simulator) {located : Located}
    (conditional : located.operation.IsConditionalJump) :
    simulator.perform located = simulator := by
  obtain ⟨condition, target, ra, rb, operationEq⟩ := conditional
  rw [perform, operationEq]
  rfl

theorem perform_of_meaningful (simulator : Simulator) {located : Located}
    (meaningful : ¬ located.operation.IsConditionalJump) :
    simulator.perform located =
      simulator.commit
        (located.operation.execute simulator.machine located.pc located.fallThrough).2 := by
  rw [← Operation.execute_eq_unimplemented_iff located.pc located.fallThrough _
    simulator.machine] at meaningful
  unfold perform
  generalize located.operation.execute simulator.machine located.pc located.fallThrough =
    executed at meaningful
  obtain ⟨outcome, effects⟩ := executed
  cases outcome with
  | unimplemented => exact absurd rfl meaningful
  | _ => rfl

/-- A step performs the operation that it fetches. -/
theorem simulator_step_eq_perform {simulator : Simulator} {instruction : Instruction}
    (fetchedEq : simulator.fetched = .ok instruction) :
    simulator.step.simulator =
      simulator.perform
        ⟨instruction.operation, simulator.pc,
          simulator.pc + BitVec.ofNat 16 instruction.words⟩ := by
  by_cases conditional : instruction.operation.IsConditionalJump
  · rw [simulator_step_of_conditionalJump fetchedEq conditional,
      perform_of_conditionalJump simulator conditional]
  · obtain ⟨outcome, effects, _, executeEq, stepEq⟩ := step_of_meaningful fetchedEq conditional
    rw [perform_of_meaningful simulator conditional, executeEq, stepEq]

theorem observe_perform (simulator : Simulator) (located : Located)
    (fits : located.operation.SumFits simulator.observe) :
    (simulator.perform located).observe =
      located.operation.interpret located.pc located.fallThrough simulator.observe := by
  by_cases conditional : located.operation.IsConditionalJump
  · rw [perform_of_conditionalJump simulator conditional]
    obtain ⟨condition, target, ra, rb, operationEq⟩ := conditional
    rw [operationEq]
    rfl
  · rw [perform_of_meaningful simulator conditional, observe_commit,
      located.operation.commit_execute simulator located.pc located.fallThrough conditional fits]

end Simulator

namespace Observation

variable (before : Observation)

/-- The first address of an access. -/
def address (width : Width) (mode : Mode) (base : Reg) (offset : Int) : Word :=
  Word.reach (before.pointer width mode base) offset

/-- The value at an address is the number of the bytes from there on. -/
theorem value_eq_numberOf (width : Width) (address : Word) :
    before.value width address =
      BitVec.ofNat 16 (numberOf (bytesFrom before.data address width.bytes)) := by
  cases width with
  | byte => simp [value, bytesFrom, Width.bytes, numberOf, Word.reach_zero]
  | word => simp [value, bytesFrom, Width.bytes, List.range_succ, numberOf, Word.reach_zero]

end Observation

namespace Operation

variable (before : Observation) (pc fallThrough : Word) (width : Width) (mode : Mode)
  (base : Reg) (offset : Int)

/-- A store puts the bytes of its register from its address on. -/
theorem data_interpret_store (rs : Reg) :
    ((store width mode base offset rs).interpret pc fallThrough before).data =
      putFrom before.data (before.address width mode base offset)
        (width.pieces (before.registers rs)) := by
  funext cell
  let start := before.address width mode base offset
  have zeroIff : Word.distance start cell = 0 ↔ cell = start := by
    rw [Word.distance_eq_iff (by decide), Int.ofNat_zero, Word.reach_zero]
  have oneIff : Word.distance start cell = 1 ↔ cell = Word.reach start 1 :=
    Word.distance_eq_iff (by decide)
  change (if cell = start then _ else if width = .word ∧ cell = Word.reach start 1 then _ else _) =
    putFrom before.data start _ cell
  simp only [putFrom, ← zeroIff, ← oneIff]
  cases width with
  | byte =>
      rw [Width.pieces_byte, Word.lowByte_eq_ofNat]
      rcases Word.distance start cell with _ | place <;> simp
  | word =>
      rw [Width.pieces_word, Word.lowByte_eq_ofNat, Word.highByte_eq_ofNat]
      rcases Word.distance start cell with _ | _ | place <;> simp

theorem data_interpret_load (rd : Reg) :
    ((load width mode rd base offset).interpret pc fallThrough before).data = before.data :=
  rfl

/-- The register that a load names holds the loaded value afterwards, unless it is
the pointer that moves on. -/
theorem registers_interpret_load {rd : Reg} (apart : mode = .postIncrement → rd ≠ base) :
    ((load width mode rd base offset).interpret pc fallThrough before).registers rd =
      BitVec.ofNat 16
        (numberOf (bytesFrom before.data (before.address width mode base offset) width.bytes)) := by
  rw [← Observation.value_eq_numberOf]
  cases mode with
  | plain => exact if_pos rfl
  | preDecrement => exact if_pos rfl
  | postIncrement => exact (if_neg (apart rfl)).trans (if_pos rfl)

end Operation

namespace Simulator

variable (simulator : Simulator) (pc fallThrough : Word) (width : Width) (mode : Mode)
  (base : Reg) (offset : Int)

theorem data_perform_store (rs : Reg) :
    (simulator.perform ⟨.store width mode base offset rs, pc, fallThrough⟩).observe.data =
      putFrom simulator.observe.data (simulator.observe.address width mode base offset)
        (width.pieces (simulator.observe.registers rs)) := by
  rw [observe_perform simulator ⟨.store width mode base offset rs, pc, fallThrough⟩ trivial,
    Operation.data_interpret_store]

theorem data_perform_load (rd : Reg) :
    (simulator.perform ⟨.load width mode rd base offset, pc, fallThrough⟩).observe.data =
      simulator.observe.data := by
  rw [observe_perform simulator ⟨.load width mode rd base offset, pc, fallThrough⟩ trivial,
    Operation.data_interpret_load]

theorem read_perform_load {rd : Reg} (apart : mode = .postIncrement → rd ≠ base) :
    (simulator.perform ⟨.load width mode rd base offset, pc, fallThrough⟩).machine.read rd =
      BitVec.ofNat 16
        (numberOf (bytesFrom simulator.observe.data
          (simulator.observe.address width mode base offset) width.bytes)) := by
  have performedEq :=
    observe_perform simulator ⟨.load width mode rd base offset, pc, fallThrough⟩ trivial
  have registersEq := congrFun (congrArg Observation.registers performedEq) rd
  exact registersEq.trans
    (Operation.registers_interpret_load simulator.observe pc fallThrough width mode base offset
      apart)

/-- A load records the number of the bytes from its address on for its register. -/
theorem mem_registerWrites_load (rd : Reg) :
    (rd, BitVec.ofNat 16
        (numberOf (bytesFrom simulator.observe.data
          (simulator.observe.address width mode base offset) width.bytes))) ∈
      ((Operation.load width mode rd base offset).execute simulator.machine pc
        fallThrough).2.registerWrites := by
  rw [← Observation.value_eq_numberOf, Observation.address,
    ← Observation.pointerBefore_eq_pointer, ← Word.displace_eq_reach,
    ← Observation.loaded_eq_value]
  exact List.mem_append_right _ List.mem_cons_self

end Simulator

namespace Simulator

/-- A load after a store reads the bytes of the store where that covered them, and
the old bytes elsewhere; of two words, whether they begin at one address or are
one byte apart. -/
theorem load_reads_over_store (simulator : Simulator) (storeWidth loadWidth : Width)
    (storeMode loadMode : Mode) (storeBase source loadBase target : Reg)
    (storeOffset loadOffset : Int) (storePc storeNext loadPc loadNext : Word) :
    let before := simulator.observe
    let stored := simulator.perform
      ⟨.store storeWidth storeMode storeBase storeOffset source, storePc, storeNext⟩
    let load := Operation.load loadWidth loadMode target loadBase loadOffset
    let loaded := stored.perform ⟨load, loadPc, loadNext⟩
    let start := before.address storeWidth storeMode storeBase storeOffset
    let address := stored.observe.address loadWidth loadMode loadBase loadOffset
    let value := before.registers source
    let data := putFrom before.data start (storeWidth.pieces value)
    let result := BitVec.ofNat 16 (numberOf (bytesFrom data address loadWidth.bytes))
    (target, result) ∈ (load.execute stored.machine loadPc loadNext).2.registerWrites ∧
    ((loadMode = .postIncrement → target ≠ loadBase) → loaded.machine.read target = result) ∧
    stored.observe.data = data ∧ loaded.observe.data = data ∧
    (storeWidth = loadWidth → address = start → result = loadWidth.kept value) ∧
    (storeWidth = .word → loadWidth = .word →
      (address = Word.reach start 1 →
        result = Word.ofBytes (Word.highByte value) (before.data (Word.reach start 2))) ∧
      (address = Word.reach start (-1) →
        result = Word.ofBytes (before.data address) (Word.lowByte value))) := by
  intro before stored load loaded start address value data result
  have storedData : stored.observe.data = data :=
    simulator.data_perform_store storePc storeNext storeWidth storeMode storeBase storeOffset
      source
  have resultEq : result =
      BitVec.ofNat 16 (numberOf (bytesFrom stored.observe.data address loadWidth.bytes)) := by
    rw [storedData]
  refine ⟨?_, ?_, storedData, ?_, ?_, ?_⟩
  · rw [resultEq]
    exact stored.mem_registerWrites_load loadPc loadNext loadWidth loadMode loadBase loadOffset
      target
  · intro apart
    rw [resultEq]
    exact stored.read_perform_load loadPc loadNext loadWidth loadMode loadBase loadOffset apart
  · rw [← storedData]
    exact stored.data_perform_load loadPc loadNext loadWidth loadMode loadBase loadOffset target
  · rintro rfl addressEq
    simp only [result, data, addressEq]
    exact read_where_put before.data start value storeWidth
  · rintro rfl rfl
    constructor
    · intro addressEq
      simp only [result, data, addressEq]
      exact read_word_above_put before.data start value
    · intro addressEq
      simp only [result, data, addressEq]
      exact read_word_below_put before.data start value

/-- A word stored to the last address and the first one, and a word loaded from the
first address by the next step: its low byte is the high byte of the stored word. -/
theorem load_reads_over_store_around_end :
    let origin := ((((create {}).writeCode 0 0x50).writeCode 1 0x38).writeCode 2 0xC9).writeCode 3
      0x28 |>.commit { registerWrites := [(1, 0xFFFF), (2, 0xA55A)], nextPc := 0 }
    let stored := origin.step.simulator
    let start := origin.observe.address .word .plain 1 0
    origin.fetched = .ok ⟨⟨.short, .store .word .plain, rfl⟩, .store .word .plain 1 0 2⟩ ∧
    stored.fetched = .ok ⟨⟨.short, .load .word .plain, rfl⟩, .load .word .plain 3 1 1⟩ ∧
    stored.observe.address .word .plain 1 1 = Word.reach start 1 ∧
    stored.step.simulator.machine.read 3 = 0x00A5 := by
  intro origin stored start
  have fetchedEq : origin.fetched =
      .ok ⟨⟨.short, .store .word .plain, rfl⟩, .store .word .plain 1 0 2⟩ := by
    change origin.machine.code.fetch 0 = _
    rw [Memory.fetch_eq_decode _ (by decide)]
    simp [origin, commit, writeCode, create, Machine.zero, Memory.read_write, Space.size]
    decide +kernel
  have storedEq : stored = origin.perform ⟨.store .word .plain 1 0 2, 0, 1⟩ :=
    simulator_step_eq_perform fetchedEq
  have nextEq : stored.fetched =
      .ok ⟨⟨.short, .load .word .plain, rfl⟩, .load .word .plain 3 1 1⟩ := by
    rw [storedEq]
    change origin.machine.code.fetch 1 = _
    rw [Memory.fetch_eq_decode _ (by decide)]
    simp [origin, commit, writeCode, create, Machine.zero, Memory.read_write, Space.size]
    decide +kernel
  have addressEq : stored.observe.address .word .plain 1 1 = Word.reach start 1 := by
    rw [storedEq]
    rfl
  have valueEq : origin.observe.registers 2 = 0xA55A := rfl
  have behind : origin.observe.data (Word.reach start 2) = 0 := Memory.read_zero .data _
  obtain ⟨_, readEq, _, _, _, overlap⟩ :=
    load_reads_over_store origin .word .word .plain .plain 1 2 1 3 0 1 0 1 1 2
  rw [← storedEq] at readEq overlap
  refine ⟨fetchedEq, nextEq, addressEq, ?_⟩
  have loadedEq : stored.step.simulator = stored.perform ⟨.load .word .plain 3 1 1, 1, 2⟩ := by
    rw [simulator_step_eq_perform nextEq, storedEq]
    rfl
  rw [loadedEq, readEq (by simp), (overlap rfl rfl).1 addressEq, behind, valueEq]
  decide

end Simulator

end Aap
