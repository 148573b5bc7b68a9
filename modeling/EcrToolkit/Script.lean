import EcrToolkit.TextTools

/-!
# The statistics of `ecr.sh`

The instruction lists, and `average` and `variance` in the arithmetic of the shell:
64-bit words that wrap around, and a division that truncates.
-/
namespace EcrToolkit

open TextTools

/-- `standard_instructions`. -/
def standardInstructions : List String :=
  ["XOR", "CPUID", "RDTSC", "RDTSCP", "INVD", "CLTS", "INB", "OUTB", "INVLPG", "INVPCID",
    "MOV_FROM_CR8", "MOV_TO_CR0", "MOV_TO_CR3", "MOV_TO_CR4", "MOV_TO_CR8", "MOV_DR0", "MOV_DR1",
    "MOV_DR2", "MOV_DR3", "MOV_DR4", "MOV_DR5", "MOV_DR6", "MOV_DR7", "RDMSR", "RDPMC", "RDRAND",
    "RDSEED", "WBINVD", "WRMSR", "MOVNTDQA", "MOVNTDQ"]

/-- `flush_instructions`. -/
def flushInstructions : List String := ["CLFLUSH", "SFENCE", "MFENCE"]

/-- `if [ "$count" -eq "0" ] ; then count=1 ; fi`. -/
def divisor (count : BitVec 64) : BitVec 64 := if count = 0 then 1 else count

/-- `average`. -/
def average (temp : List (BitVec 64)) : BitVec 64 :=
  let r : BitVec 64 × BitVec 64 :=
    temp.foldl (fun (avg, count) i => (avg + i, count + 1)) (0, 0)
  r.1.sdiv (divisor r.2)

/-- `variance`. -/
def variance (avg : BitVec 64) (arr : List (BitVec 64)) : BitVec 64 :=
  let r : BitVec 64 × BitVec 64 :=
    arr.foldl (fun (var, count) i => (var + (i - avg) * (i - avg), count + 1)) (0, 0)
  r.1.sdiv (divisor r.2)

/-- `${array[@]}` assigned to a variable: the elements, with blanks in between. -/
def scalar (elements : List Line) : Line := List.intercalate [' '] elements

/-- `wall_avg_X` and `wall_var_X` for the array `wall_arr_X`.  `value` is what a word
stands for in an arithmetic expansion. -/
def statistics (value : Line → BitVec 64) (elements : List Line) : BitVec 64 × BitVec 64 :=
  let arr := (words (scalar elements)).map value
  (average arr, variance (average arr) arr)

/-- Empty elements leave only blanks. -/
theorem words_scalar_of_empty {elements : List Line} (h : ∀ e ∈ elements, e = []) :
    words (scalar elements) = [] := by
  refine words_of_blank ?_
  unfold scalar
  induction elements with
  | nil => nofun
  | cons e es ih =>
    obtain ⟨rfl, hes⟩ := List.forall_mem_cons.mp h
    cases es with
    | nil => nofun
    | cons e' es =>
      rw [List.intercalate_cons_cons]
      exact List.forall_mem_cons.mpr ⟨by decide, ih hes⟩

theorem average_nil : average [] = 0 := by decide

theorem variance_nil (avg : BitVec 64) : variance avg [] = 0 := by
  have hzero : (0 : BitVec 64).sdiv (divisor 0) = 0 := by decide
  exact hzero

/-- **Without samples both are zero.** -/
theorem statistics_of_empty (value : Line → BitVec 64) {elements : List Line}
    (h : ∀ e ∈ elements, e = []) : statistics value elements = (0, 0) := by
  rw [statistics, words_scalar_of_empty h, List.map_nil, variance_nil, average_nil]

end EcrToolkit
