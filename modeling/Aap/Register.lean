/-!
# Registers

The register file has sixty-four general registers.  Short instructions name
only the first eight of them, long instructions name all.
-/

namespace Aap

/-- A general register, named by its index. -/
abbrev Reg := Fin 64

/-- An index that names no register. -/
structure RegisterIndexError where
  index : Nat
  deriving DecidableEq

def RegisterIndexError.message (error : RegisterIndexError) : String :=
  s!"register index {error.index} is outside r0..r63"

namespace Reg

def ofIndex (index : Nat) : Except RegisterIndexError Reg :=
  if indexLt : index < 64 then .ok ⟨index, indexLt⟩ else .error ⟨index⟩

/-- The name of a register in listings. -/
def text (register : Reg) : String :=
  s!"r{register.val}"

@[simp]
theorem ofIndex_val (register : Reg) : ofIndex register.val = .ok register := by
  simp [ofIndex]

theorem ofIndex_eq_ok_iff (index : Nat) (register : Reg) :
    ofIndex index = .ok register ↔ register.val = index := by
  simp only [ofIndex]
  split
  · simp [Fin.ext_iff, eq_comm]
  · have registerLt := register.isLt
    simp
    omega

end Reg

/-- The registers that a field of an instruction can name. -/
inductive RegisterClass where
  /-- The first eight registers, named by three-bit fields. -/
  | narrow
  /-- All registers, named by six-bit fields. -/
  | full
  deriving DecidableEq

namespace RegisterClass

def size : RegisterClass → Nat
  | narrow => 8
  | full => 64

def name : RegisterClass → String
  | narrow => "Narrow"
  | full => "Full"

/-- The registers of a class in the order of the fields that name them. -/
def registers : RegisterClass → List Reg
  | narrow => (List.finRange 64).take 8
  | full => List.finRange 64

/-- The register that a field names, if the class holds one. -/
def register? (registerClass : RegisterClass) (index : Nat) : Option Reg :=
  registerClass.registers[index]?

@[simp]
theorem length_registers (registerClass : RegisterClass) :
    registerClass.registers.length = registerClass.size := by
  cases registerClass <;> simp [registers, size]

/-- Within a class the fields name the registers one to one. -/
theorem register?_eq_some_iff (registerClass : RegisterClass) (index : Nat)
    (register : Reg) :
    registerClass.register? index = some register ↔
      register.val = index ∧ index < registerClass.size := by
  cases registerClass with
  | narrow =>
      simp only [register?, registers, size, List.getElem?_take]
      split
      · next indexLt =>
          have bound : index < 64 := by omega
          simp [bound, indexLt, Fin.ext_iff, eq_comm]
      · next indexGe => simp [indexGe]
  | full =>
      simp only [register?, registers, size]
      by_cases indexLt : index < 64
      · simp [indexLt, Fin.ext_iff, eq_comm]
      · simp [indexLt]

end RegisterClass

end Aap
