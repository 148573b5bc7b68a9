import EcrToolkit.Device
import EcrToolkit.StraightLine

/-!
# The two probes

The `asm` statements of `cache_timing_probe` and `memory_timing_probe`.  Each takes the
counter twice, around a load, and keeps the low half of the first reading in `esi`.  Both
return the difference of the low halves (`probes_return`), which is the time that passed
as long as that is less than `2 ^ 32` (`probes_elapsed`).
-/
namespace EcrToolkit

open StraightLine

/-- The `asm` of `cache_timing_probe`. -/
def cacheTimingProbeAsm : List Instr :=
  [ .mfence,
    .rdtsc,
    .movl .rax .rsi,
    .load .rcx .rax,
    .lfence,
    .rdtsc,
    .subl .rsi .rax ]

/-- The `asm` of `memory_timing_probe`. -/
def memoryTimingProbeAsm : List Instr :=
  [ .mfence,
    .lfence,
    .rdtsc,
    .lfence,
    .movl .rax .rsi,
    .load .rcx .rax,
    .lfence,
    .rdtsc,
    .subl .rsi .rax ]

/-- The operands of both: `"c"(addr)` is in `rcx` at the beginning, and `"=a"(time)` in
`rax` at the end. -/
def timed (asm : List Instr) (memory : BitVec 64 → BitVec 32) (regs : Registers)
    (addr : BitVec 64) (counter : List (BitVec 64)) : Option (BitVec 64) :=
  (run memory asm ⟨Function.update regs .rcx addr, counter⟩).map (·.regs .rax)

/-- `cache_timing_probe(addr)`, entered with any registers. -/
def cacheTimingProbe := timed cacheTimingProbeAsm

/-- `memory_timing_probe(addr)`. -/
def memoryTimingProbe := timed memoryTimingProbeAsm

variable (memory : BitVec 64 → BitVec 32) (regs : Registers) (addr s e : BitVec 64)

/-- The registers when the counter is read again: the first reading is in `esi`, whatever
the load has put in `eax`. -/
def betweenReadings : Registers :=
  let r₁ := readCounter (Function.update regs .rcx addr) s
  let r₂ := write32 r₁ .rsi (low (r₁ .rax))
  write32 r₂ .rax (memory (r₂ .rcx))

theorem low_rsi_betweenReadings : low (betweenReadings memory regs addr s .rsi) = low s := by
  rw [betweenReadings, write32_of_ne _ (by decide), low_write32, low_readCounter]

/-- The end of both: `rdtsc` and `subl`. -/
theorem run_readAgain (r : Registers) : (run memory [.rdtsc, .subl .rsi .rax] ⟨r, [e]⟩).map
    (·.regs .rax) = some ((low e - low (r .rsi)).setWidth 64) := by
  show some (write32 (readCounter r e) .rax
    (low (readCounter r e .rax) - low (readCounter r e .rsi)) .rax) = _
  rw [write32_self, low_readCounter, readCounter_of_ne _ _ (by decide) (by decide)]

/-- **What both probes return**, for all readings: the difference of their low halves. -/
theorem probes_return :
    cacheTimingProbe memory regs addr [s, e] = some ((low e - low s).setWidth 64) ∧
      memoryTimingProbe memory regs addr [s, e] = some ((low e - low s).setWidth 64) := by
  have hend := run_readAgain memory e (betweenReadings memory regs addr s)
  rw [low_rsi_betweenReadings] at hend
  exact ⟨hend, hend⟩

/-- The answer of a probe in `Device` is what the `asm` returns. -/
theorem probes_answer (env : Device.Env) (h : env.cycles = low e - low s) :
    cacheTimingProbe memory regs addr [s, e] = some (env.answer .probe) ∧
      memoryTimingProbe memory regs addr [s, e] = some (env.answer .probe) := by
  have hreturn := probes_return memory regs addr s e
  rw [← h] at hreturn
  exact hreturn

/-- Only the output and the declared clobbers, `esi` and `edx`, are written. -/
theorem probes_frame {asm : List Instr}
    (hasm : asm ∈ [cacheTimingProbeAsm, memoryTimingProbeAsm]) {st st' : State}
    (h : run memory asm st = some st') {x : Reg} (hx : x ∉ [Reg.rax, .rsi, .rdx]) :
    st'.regs x = st.regs x := by
  have hwrites : ∀ asm ∈ [cacheTimingProbeAsm, memoryTimingProbeAsm], ∀ i ∈ asm,
      i.writes ⊆ [.rax, .rsi, .rdx] := by decide
  exact run_frame h fun i hi hmem => hx (hwrites asm hasm i hi hmem)

/-- **Both probes return the time that passed**, and so the same for the same readings:
with any registers and any memory, also when the low halves of the counter wrap around. -/
theorem probes_elapsed (memory memory' : BitVec 64 → BitVec 32) (regs regs' : Registers)
    (addr addr' s e : BitVec 64) (hle : s.toNat ≤ e.toNat)
    (hlt : e.toNat - s.toNat < 2 ^ 32) : ∃ t : BitVec 64, t.toNat = e.toNat - s.toNat ∧
      cacheTimingProbe memory regs addr [s, e] = some t ∧
        memoryTimingProbe memory' regs' addr' [s, e] = some t := by
  refine ⟨(low e - low s).setWidth 64, toNat_sub_low hle hlt, ?_, ?_⟩
  · exact (probes_return memory regs addr s e).1
  · exact (probes_return memory' regs' addr' s e).2

/-- The low halves wrap around between these two readings. -/
theorem probes_elapsed_wrap : ∃ t : BitVec 64, t.toNat = 0x20 ∧
    cacheTimingProbe (fun _ => 0xFFFFFFFF) (fun _ => -1) 0x1000 [0x1FFFFFFF0, 0x200000010] =
      some t ∧
    memoryTimingProbe (fun _ => 0) (fun _ => 0) 0x2000 [0x1FFFFFFF0, 0x200000010] = some t :=
  probes_elapsed (fun _ => 0xFFFFFFFF) (fun _ => 0) (fun _ => -1) (fun _ => 0) 0x1000 0x2000
    0x1FFFFFFF0 0x200000010 (by decide) (by decide)

end EcrToolkit
