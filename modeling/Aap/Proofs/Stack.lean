import Aap.Proofs.LoadStore
import Mathlib.Data.List.Forall2

/-!
# Stacks

Stores that first decrement their pointer and loads that then increment it keep a
stack in data memory.  What lies on it is read off the bytes from the pointer on:
a push puts one value before them, and a pop takes the first one away.  The stack
may grow around the first address, and up to the whole of memory.
-/

namespace Aap

/-- Operations that push registers, in order. -/
def Pushes (width : Width) (base : Reg) (offset : Int) : List Located → List Reg → Prop :=
  List.Forall₂ fun located source =>
    located.operation = .store width .preDecrement base offset source

/-- Operations that pop values into registers, in order. -/
def Pops (width : Width) (base : Reg) (offset : Int) : List Located → List Reg → Prop :=
  List.Forall₂ fun located target =>
    located.operation = .load width .postIncrement target base offset

/-- The addresses from a pointer with its offset downwards. -/
def Below (pointer : Word) (offset : Int) (count : Nat) (address : Word) : Prop :=
  ∃ distance : Nat, 1 ≤ distance ∧ distance ≤ count ∧
    address = Word.reach pointer (offset - distance)

theorem below_of_distance_lt {pointer address : Word} {offset : Int} {count : Nat}
    (covered : Word.distance (Word.reach pointer (offset - count)) address < count) :
    Below pointer offset count address := by
  have addressEq := Word.reach_distance (Word.reach pointer (offset - count)) address
  generalize Word.distance (Word.reach pointer (offset - count)) address = place
    at addressEq covered
  refine ⟨count - place, by omega, by omega, ?_⟩
  rw [← addressEq, Word.reach_reach]
  congr 1
  omega

namespace Simulator

/-- The simulator after operations are performed one after the other. -/
def performAll (simulator : Simulator) (program : List Located) : Simulator :=
  program.foldl perform simulator

/-- Values lie one behind the other from where a pointer leads, as many bytes of each
as an access moves. -/
def Stacked (simulator : Simulator) (width : Width) (base : Reg) (offset : Int)
    (values : List Word) : Prop :=
  bytesFrom simulator.observe.data (Word.reach (simulator.machine.read base) offset)
    (values.length * width.bytes) = values.flatMap width.pieces

theorem stacked_cons_iff (simulator : Simulator) (width : Width) (base : Reg) (offset : Int)
    (value : Word) (values : List Word) :
    simulator.Stacked width base offset (value :: values) ↔
      bytesFrom simulator.observe.data (Word.reach (simulator.machine.read base) offset)
        width.bytes = width.pieces value ∧
      bytesFrom simulator.observe.data
        (Word.reach (simulator.machine.read base) (offset + width.bytes))
        (values.length * width.bytes) = values.flatMap width.pieces := by
  have lengthEq (data : Word → Byte) (start : Word) :
      (bytesFrom data start width.bytes).length = (width.pieces value).length := by
    rw [length_bytesFrom, Width.length_pieces]
  rw [Stacked, List.length_cons, Nat.add_one_mul, Nat.add_comm, bytesFrom_add, Word.reach_reach,
    List.flatMap_cons]
  constructor
  · intro stacked
    exact List.append_inj stacked (lengthEq _ _)
  · rintro ⟨topEq, restEq⟩
    rw [topEq, restEq]

theorem stacked_nil (simulator : Simulator) (width : Width) (base : Reg) (offset : Int) :
    simulator.Stacked width base offset [] := by
  simp [Stacked, bytesFrom]

section Push

variable {width : Width} {base source : Reg} {offset : Int} {push : Located}
  (pushes : push.operation = .store width .preDecrement base offset source)
  (simulator : Simulator)

include pushes

theorem observe_push :
    (simulator.perform push).observe =
      (Operation.store width .preDecrement base offset source).interpret push.pc push.fallThrough
        simulator.observe := by
  rw [observe_perform simulator push (pushes ▸ trivial), pushes]

theorem read_base_push :
    (simulator.perform push).machine.read base =
      Word.reach (simulator.machine.read base) (-width.bytes) := by
  have registersEq := congrFun (congrArg Observation.registers (observe_push pushes simulator)) base
  exact registersEq.trans (if_pos rfl)

theorem read_push {register : Reg} (apart : register ≠ base) :
    (simulator.perform push).machine.read register = simulator.machine.read register := by
  have registersEq :=
    congrFun (congrArg Observation.registers (observe_push pushes simulator)) register
  exact registersEq.trans (if_neg apart)

theorem data_push :
    (simulator.perform push).observe.data =
      putFrom simulator.observe.data
        (Word.reach ((simulator.perform push).machine.read base) offset)
        (width.pieces (simulator.machine.read source)) := by
  rw [observe_push pushes, Operation.data_interpret_store, read_base_push pushes]
  rfl

theorem data_push_of_not_below {address : Word}
    (outside : ¬ Below (simulator.machine.read base) offset width.bytes address) :
    (simulator.perform push).observe.data address = simulator.observe.data address := by
  have startEq : Word.reach ((simulator.perform push).machine.read base) offset =
      Word.reach (simulator.machine.read base) (offset - width.bytes) := by
    rw [read_base_push pushes, Word.reach_reach]
    congr 1
    omega
  rw [data_push pushes, startEq]
  apply putFrom_of_length_le
  rw [Width.length_pieces]
  by_contra covered
  exact outside (below_of_distance_lt (Nat.lt_of_not_le covered))

/-- A push puts its value on top, unless the stack would come around to itself. -/
theorem stacked_push {values : List Word}
    (room : (values.length + 1) * width.bytes ≤ 2 ^ 16)
    (stacked : simulator.Stacked width base offset values) :
    (simulator.perform push).Stacked width base offset
      (simulator.machine.read source :: values) := by
  let top := Word.reach ((simulator.perform push).machine.read base) offset
  let pieces := width.pieces (simulator.machine.read source)
  have behindEq : Word.reach ((simulator.perform push).machine.read base)
      (offset + width.bytes) = Word.reach (simulator.machine.read base) offset := by
    rw [read_base_push pushes, Word.reach_reach]
    congr 1
    omega
  have lengthEq : pieces.length = width.bytes := Width.length_pieces width _
  rw [Nat.add_one_mul] at room
  have topEq := bytesFrom_putFrom simulator.observe.data top pieces (by omega)
  have restEq := bytesFrom_behind_putFrom simulator.observe.data top pieces
    (values.length * width.bytes) (by omega)
  rw [lengthEq] at topEq restEq
  rw [Word.reach_reach, behindEq] at restEq
  rw [stacked_cons_iff, data_push pushes, behindEq]
  exact ⟨topEq, restEq.trans stacked⟩

end Push

section Pop

variable {width : Width} {base target : Reg} {offset : Int} {pop : Located}
  (pops : pop.operation = .load width .postIncrement target base offset)
  (simulator : Simulator)

include pops

theorem observe_pop :
    (simulator.perform pop).observe =
      (Operation.load width .postIncrement target base offset).interpret pop.pc pop.fallThrough
        simulator.observe := by
  rw [observe_perform simulator pop (pops ▸ trivial), pops]

theorem read_base_pop :
    (simulator.perform pop).machine.read base =
      Word.reach (simulator.machine.read base) width.bytes := by
  have registersEq := congrFun (congrArg Observation.registers (observe_pop pops simulator)) base
  exact registersEq.trans (if_pos rfl)

theorem data_pop : (simulator.perform pop).observe.data = simulator.observe.data := by
  rw [observe_pop pops, Operation.data_interpret_load]

/-- A pop takes away the first value of a stack. -/
theorem stacked_pop {value : Word} {values : List Word}
    (stacked : simulator.Stacked width base offset (value :: values)) :
    (simulator.perform pop).Stacked width base offset values := by
  rw [stacked_cons_iff] at stacked
  rw [Stacked, data_pop pops, read_base_pop pops, Word.reach_reach, Int.add_comm]
  exact stacked.2

theorem read_pop (apart : target ≠ base) {value : Word} {values : List Word}
    (stacked : simulator.Stacked width base offset (value :: values)) :
    (simulator.perform pop).machine.read target = width.kept value := by
  rw [stacked_cons_iff] at stacked
  have registersEq := congrFun (congrArg Observation.registers (observe_pop pops simulator)) target
  refine registersEq.trans ?_
  rw [Operation.registers_interpret_load simulator.observe _ _ width .postIncrement base offset
    fun _ => apart, ← Width.ofNat_numberOf_pieces, ← stacked.1]
  rfl

end Pop

section Pushes

variable {width : Width} {base : Reg} {offset : Int} {pushes : List Located} {sources : List Reg}

theorem read_pushes (pushing : Pushes width base offset pushes sources) (simulator : Simulator)
    {register : Reg} (apart : register ≠ base) :
    (simulator.performAll pushes).machine.read register = simulator.machine.read register := by
  induction pushing generalizing simulator with
  | nil => rfl
  | cons push rest induction => exact (induction _).trans (read_push push simulator apart)

theorem read_base_pushes (pushing : Pushes width base offset pushes sources)
    (simulator : Simulator) :
    (simulator.performAll pushes).machine.read base =
      Word.reach (simulator.machine.read base) (-(sources.length * width.bytes : Nat)) := by
  induction pushing generalizing simulator with
  | nil => rw [List.length_nil, Nat.zero_mul, Int.ofNat_zero, Int.neg_zero, Word.reach_zero]; rfl
  | cons push rest induction =>
      refine (induction _).trans ?_
      rw [read_base_push push, Word.reach_reach, List.length_cons, Nat.add_one_mul]
      congr 1
      omega

theorem data_pushes_of_not_below (pushing : Pushes width base offset pushes sources)
    (simulator : Simulator) {address : Word}
    (outside : ¬ Below (simulator.machine.read base) offset (sources.length * width.bytes)
      address) :
    (simulator.performAll pushes).observe.data address = simulator.observe.data address := by
  induction pushing generalizing simulator with
  | nil => rfl
  | cons push rest induction =>
      rw [List.length_cons, Nat.add_one_mul] at outside
      refine (induction _ ?_).trans (data_push_of_not_below push simulator ?_)
      · rw [read_base_push push]
        rintro ⟨distance, positive, distanceLe, rfl⟩
        refine outside ⟨distance + width.bytes, by omega, by omega, ?_⟩
        rw [Word.reach_reach]
        congr 1
        omega
      · rintro ⟨distance, positive, distanceLe, rfl⟩
        exact outside ⟨distance, positive, by omega, rfl⟩

/-- Pushes pile up their values, the last one on top. -/
theorem stacked_pushes (pushing : Pushes width base offset pushes sources)
    (apart : base ∉ sources) (simulator : Simulator) {values : List Word}
    (room : (values.length + sources.length) * width.bytes ≤ 2 ^ 16)
    (stacked : simulator.Stacked width base offset values) :
    (simulator.performAll pushes).Stacked width base offset
      ((sources.map simulator.machine.read).reverse ++ values) := by
  -- Each push moves one value from the registers that are left to those on the stack,
  -- which leaves the room that both need together as it is.
  induction pushing generalizing simulator values with
  | nil => exact stacked
  | @cons push source _ sources pushes rest induction =>
      rw [List.mem_cons, not_or] at apart
      have countEq : values.length + (source :: sources).length =
          (simulator.machine.read source :: values).length + sources.length := by
        simp only [List.length_cons]
        omega
      rw [countEq] at room
      have pushed := stacked_push pushes simulator
        (Nat.le_trans (Nat.mul_le_mul_right _ (Nat.le_add_right _ _)) room) stacked
      have keptEq : sources.map (simulator.perform push).machine.read =
          sources.map simulator.machine.read := by
        apply List.map_congr_left
        intro register member
        exact read_push pushes simulator (ne_of_mem_of_not_mem member apart.2)
      have piled := induction apart.2 (simulator.perform push) room pushed
      rw [keptEq] at piled
      rw [List.map_cons, List.reverse_cons, List.append_assoc, List.singleton_append]
      exact piled

end Pushes

section Pops

variable {width : Width} {base : Reg} {offset : Int} {pops : List Located} {targets : List Reg}

theorem read_base_pops (popping : Pops width base offset pops targets) (simulator : Simulator) :
    (simulator.performAll pops).machine.read base =
      Word.reach (simulator.machine.read base) (targets.length * width.bytes : Nat) := by
  induction popping generalizing simulator with
  | nil => rw [List.length_nil, Nat.zero_mul, Int.ofNat_zero, Word.reach_zero]; rfl
  | cons pop rest induction =>
      refine (induction _).trans ?_
      rw [read_base_pop pop, Word.reach_reach, List.length_cons, Nat.add_one_mul]
      congr 1
      omega

theorem data_pops (popping : Pops width base offset pops targets) (simulator : Simulator) :
    (simulator.performAll pops).observe.data = simulator.observe.data := by
  induction popping generalizing simulator with
  | nil => rfl
  | cons pop rest induction => exact (induction _).trans (data_pop pop simulator)

/-- Each of several pops delivers the value that is then on top. -/
theorem read_pops (popping : Pops width base offset pops targets) (apart : base ∉ targets)
    (simulator : Simulator) {values : List Word}
    (stacked : simulator.Stacked width base offset values) {index : Nat} {target : Reg}
    {value : Word} (targetEq : targets[index]? = some target)
    (valueEq : values[index]? = some value) :
    (simulator.performAll (pops.take (index + 1))).machine.read target = width.kept value := by
  induction popping generalizing simulator values index with
  | nil => cases targetEq
  | cons pop rest induction =>
      rw [List.mem_cons, not_or] at apart
      cases values with
      | nil => cases valueEq
      | cons top values =>
          cases index with
          | zero =>
              cases targetEq
              cases valueEq
              exact read_pop pop simulator (Ne.symm apart.1) stacked
          | succ index =>
              exact induction apart.2 _ (stacked_pop pop simulator stacked) targetEq valueEq

end Pops

/-- What was pushed is popped in the opposite order, as long as the stack has room
in the whole of data memory.  The pointer ends where it began, and no byte beside
the stack changes. -/
theorem pops_return_pushed (origin : Simulator) (width : Width) (base : Reg) (offset : Int)
    {pushes pops : List Located} {sources targets : List Reg}
    (pushing : Pushes width base offset pushes sources)
    (popping : Pops width base offset pops targets) (sourcesApart : base ∉ sources)
    (targetsApart : base ∉ targets) (lengthEq : targets.length = sources.length)
    (room : sources.length * width.bytes ≤ 2 ^ 16) :
    let pushed := origin.performAll pushes
    let popped := pushed.performAll pops
    (∀ (index count : Nat) (target source : Reg), index + count + 1 = sources.length →
      targets[index]? = some target → sources[count]? = some source →
      let stored := (origin.performAll (pushes.take count)).machine.read source
      (pushed.performAll (pops.take (index + 1))).machine.read target = width.kept stored ∧
      stored = origin.machine.read source) ∧
    popped.machine.read base = origin.machine.read base ∧
    ∀ address, ¬ Below (origin.machine.read base) offset (sources.length * width.bytes) address →
      popped.machine.dataByte address = origin.machine.dataByte address := by
  intro pushed popped
  have stacked :
      pushed.Stacked width base offset ((sources.map origin.machine.read).reverse ++ []) :=
    stacked_pushes pushing sourcesApart origin (by simpa using room) (origin.stacked_nil _ _ _)
  rw [List.append_nil] at stacked
  refine ⟨?_, ?_, ?_⟩
  · intro index count target source together targetEq sourceEq stored
    have apart : source ≠ base := ne_of_mem_of_not_mem (List.mem_of_getElem? sourceEq) sourcesApart
    have storedEq : stored = origin.machine.read source :=
      read_pushes (List.forall₂_take count pushing) origin apart
    have valueEq : (sources.map origin.machine.read).reverse[index]? = some stored := by
      have indexLt : index < (sources.map origin.machine.read).length := by
        rw [List.length_map]
        omega
      have countEq : (sources.map origin.machine.read).length - 1 - index = count := by
        rw [List.length_map]
        omega
      rw [List.getElem?_reverse indexLt, countEq, List.getElem?_map, sourceEq, storedEq]
      rfl
    exact ⟨read_pops popping targetsApart pushed stacked targetEq valueEq, storedEq⟩
  · rw [read_base_pops popping, read_base_pushes pushing, Word.reach_reach, lengthEq,
      Int.add_left_neg, Word.reach_zero]
  · intro address outside
    have dataEq := data_pushes_of_not_below pushing origin outside
    rw [← data_pops popping pushed] at dataEq
    exact dataEq

/-- Two words pushed from address one downwards, across the first address, and
popped again. -/
theorem pops_return_pushed_across_first_address :
    let origin := (create {}).commit
      { registerWrites := [(1, 0x1234), (2, 0xA55A), (7, 1)], nextPc := 0 }
    let pushes : List Located :=
      [⟨.store .word .preDecrement 7 0 1, 0, 1⟩, ⟨.store .word .preDecrement 7 0 2, 1, 2⟩]
    let pops : List Located :=
      [⟨.load .word .postIncrement 3 7 0, 2, 3⟩, ⟨.load .word .postIncrement 4 7 0, 3, 4⟩]
    let popped := (origin.performAll pushes).performAll pops
    Pushes .word 7 0 pushes [1, 2] ∧ Pops .word 7 0 pops [3, 4] ∧
    ((origin.performAll pushes).performAll (pops.take 1)).machine.read 3 = 0xA55A ∧
    popped.machine.read 4 = 0x1234 ∧ popped.machine.read 7 = 1 ∧
    popped.machine.dataByte 1 = 0 := by
  intro origin pushes pops popped
  have pushing : Pushes .word 7 0 pushes [1, 2] := .cons rfl (.cons rfl .nil)
  have popping : Pops .word 7 0 pops [3, 4] := .cons rfl (.cons rfl .nil)
  obtain ⟨delivered, pointerEq, outside⟩ :=
    pops_return_pushed origin .word 7 0 pushing popping (by decide) (by decide) rfl (by decide)
  obtain ⟨firstEq, storedLast⟩ := delivered 0 1 3 2 rfl rfl rfl
  obtain ⟨secondEq, storedFirst⟩ := delivered 1 0 4 1 rfl rfl rfl
  refine ⟨pushing, popping, ?_, ?_, pointerEq, ?_⟩
  · rw [firstEq, storedLast]
    rfl
  · rw [storedFirst] at secondEq
    exact secondEq
  · rw [outside 1]
    · exact Memory.read_zero .data _
    · rintro ⟨distance, positive, distanceLe, addressEq⟩
      change distance ≤ 4 at distanceLe
      change (1 : Word) = Word.reach 1 (0 - distance) at addressEq
      have distanceCases : distance = 1 ∨ distance = 2 ∨ distance = 3 ∨ distance = 4 := by omega
      rcases distanceCases with rfl | rfl | rfl | rfl <;> exact absurd addressEq (by decide)

end Simulator

end Aap
