import Mathlib.Algebra.Ring.Nat
import Mathlib.Logic.Function.Basic

/-!
# Straight-line code on an x86 processor

The fences, moves and subtractions a timing probe is made of, on the registers it uses.
Memory does not change; the time stamp counter shows one reading after another, and
`rdtsc` takes the next one.  An instruction that writes 32 bits clears the upper half of
the register.  The flags are left out: nothing here reads them.

`run_frame` says that code leaves the registers alone that none of its instructions
writes, and `toNat_sub_low` that a difference of two readings can be taken on their low
halves.
-/
namespace StraightLine

inductive Reg
  | rax
  | rcx
  | rdx
  | rsi
  deriving DecidableEq, Repr

inductive Instr
  | mfence
  | lfence
  | rdtsc
  /-- `movl %src, %dst`. -/
  | movl (src dst : Reg)
  /-- `movl (%addr), %dst`. -/
  | load (addr dst : Reg)
  /-- `subl %src, %dst`. -/
  | subl (src dst : Reg)
  deriving DecidableEq, Repr

abbrev Registers := Reg → BitVec 64

/-- The low half of a word. -/
def low (v : BitVec 64) : BitVec 32 := v.setWidth 32

/-- The high half of a word. -/
def high (v : BitVec 64) : BitVec 32 := (v >>> 32).setWidth 32

/-- Write the low half of a register, and zero to the upper half. -/
def write32 (r : Registers) (x : Reg) (v : BitVec 32) : Registers :=
  Function.update r x (v.setWidth 64)

/-- `edx:eax = t`. -/
def readCounter (r : Registers) (t : BitVec 64) : Registers :=
  write32 (write32 r .rax (low t)) .rdx (high t)

/-- The registers, and what the counter will show. -/
structure State where
  regs : Registers
  counter : List (BitVec 64)

/-- Execute one instruction; `none` if there is no reading left. -/
def Instr.exec (memory : BitVec 64 → BitVec 32) (s : State) : Instr → Option State
  | .mfence | .lfence => some s
  | .rdtsc =>
    match s.counter with
    | [] => none
    | t :: ts => some ⟨readCounter s.regs t, ts⟩
  | .movl src dst => some { s with regs := write32 s.regs dst (low (s.regs src)) }
  | .load addr dst => some { s with regs := write32 s.regs dst (memory (s.regs addr)) }
  | .subl src dst =>
    some { s with regs := write32 s.regs dst (low (s.regs dst) - low (s.regs src)) }

/-- Execute the code to its end. -/
def run (memory : BitVec 64 → BitVec 32) : List Instr → State → Option State
  | [], s => some s
  | i :: is, s => (i.exec memory s).bind (run memory is)

/-! ## Registers -/

variable {memory : BitVec 64 → BitVec 32}

theorem write32_self (r : Registers) (x : Reg) (v : BitVec 32) :
    write32 r x v x = v.setWidth 64 := Function.update_self ..

theorem write32_of_ne (r : Registers) {x y : Reg} (h : y ≠ x) (v : BitVec 32) :
    write32 r x v y = r y := Function.update_of_ne h ..

/-- What was written to a low half is read back, whatever was in the upper half. -/
theorem low_write32 (r : Registers) (x : Reg) (v : BitVec 32) : low (write32 r x v x) = v := by
  rw [write32_self, low, BitVec.setWidth_setWidth_of_le v (by decide), BitVec.setWidth_eq]

theorem low_readCounter (r : Registers) (t : BitVec 64) : low (readCounter r t .rax) = low t := by
  rw [readCounter, write32_of_ne _ (by decide), low_write32]

theorem readCounter_of_ne (r : Registers) (t : BitVec 64) {x : Reg} (hrax : x ≠ .rax)
    (hrdx : x ≠ .rdx) : readCounter r t x = r x := by
  rw [readCounter, write32_of_ne _ hrdx, write32_of_ne _ hrax]

/-- The registers an instruction writes. -/
def Instr.writes : Instr → List Reg
  | .mfence | .lfence => []
  | .rdtsc => [.rax, .rdx]
  | .movl _ dst | .load _ dst | .subl _ dst => [dst]

theorem Instr.exec_frame {i : Instr} {s s' : State} (h : i.exec memory s = some s') {x : Reg}
    (hx : x ∉ i.writes) : s'.regs x = s.regs x := by
  cases i with
  | mfence | lfence =>
    obtain rfl := Option.some.inj h
    rfl
  | movl src dst | load addr dst | subl src dst =>
    obtain rfl := Option.some.inj h
    exact write32_of_ne _ (List.ne_of_not_mem_cons hx) _
  | rdtsc =>
    obtain ⟨regs, counter⟩ := s
    cases counter with
    | nil => cases h
    | cons t ts =>
      obtain rfl := Option.some.inj h
      obtain ⟨hrax, hrdx⟩ := not_or.mp fun ho => hx (List.mem_cons.mpr ho)
      exact readCounter_of_ne _ _ hrax (List.ne_of_not_mem_cons hrdx)

/-- **Code leaves the registers alone that it does not write.** -/
theorem run_frame {is : List Instr} {s s' : State} (h : run memory is s = some s') {x : Reg}
    (hx : ∀ i ∈ is, x ∉ i.writes) : s'.regs x = s.regs x := by
  induction is generalizing s with
  | nil =>
    obtain rfl := Option.some.inj h
    rfl
  | cons i is ih =>
    obtain ⟨hi, his⟩ := List.forall_mem_cons.mp hx
    obtain ⟨s₁, hs₁, hrest⟩ := Option.bind_eq_some_iff.mp h
    exact (ih hrest his).trans (Instr.exec_frame hs₁ hi)

/-! ## Readings -/

/-- **Time that has passed**, if it is less than `2 ^ 32`, is the difference of the low
halves of two readings; it does not matter whether these wrapped around in between. -/
theorem toNat_sub_low {s e : BitVec 64} (hle : s.toNat ≤ e.toNat)
    (hlt : e.toNat - s.toNat < 2 ^ 32) :
    ((low e - low s).setWidth 64).toNat = e.toNat - s.toNat := by
  have hs : (low s).toNat = s.toNat % 2 ^ 32 := BitVec.toNat_setWidth ..
  have he : (low e).toNat = e.toNat % 2 ^ 32 := BitVec.toNat_setWidth ..
  rw [BitVec.toNat_setWidth, BitVec.toNat_sub, hs, he]
  omega

end StraightLine
