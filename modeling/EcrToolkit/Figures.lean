import EcrToolkit.WallRun
import EcrToolkit.KernelLog

/-!
# The figures of the wall, cache and memory timers

What the three timers print, as a function of what the clock and the probes answered.
`TIMING_LOOP` prints `tv_nsec` of the difference of two times, and nothing of its
seconds.  `cache_timing_handler` adds up unsigned 64-bit results in a signed 32-bit word,
and `memory_timing_start` prints a result as a signed 32-bit word.
-/
namespace EcrToolkit

open AtomicProgram TextTools

/-- One operation of a run, with its answer. -/
abbrev Answered := (o : Op) × o.Res

/-- What `getnstimeofday` answered. -/
def clockReading : Answered → Option Timespec
  | ⟨.getnstimeofday, now⟩ => some now
  | _ => none

/-- Where a probe read, and how long it took. -/
def probeResult : Answered → Option (BitVec 64 × BitVec 64)
  | ⟨.access _ .probe p, t⟩ => some (p, t)
  | _ => none

def clockReadings (t : List Answered) : List Timespec := t.filterMap clockReading

def probeResults (t : List Answered) : List (BitVec 64 × BitVec 64) := t.filterMap probeResult

/-- What was logged. -/
def logged (t : List Answered) : List Record := t.filterMap (·.1.record?)

/-- What holds of every operation of a trace. -/
theorem ops_of_safe {α : Type} {φ : Op → Prop} {p : Code α} {t : List Answered} {a : α}
    (hp : Prog.Safe (fun _ _ => True) φ p) (h : p.Traces t a) : ∀ e ∈ t, φ e.1 := fun e he =>
  hp.runs (fun _ _ => trivial) h.runs e.1 (List.mem_map_of_mem he)

/-! ## `TIMING_LOOP` -/

/-- The nanoseconds since the epoch. -/
def Timespec.ns (t : Timespec) : Int := t.sec * 1000000000 + t.nsec

def Timespec.Normalised (t : Timespec) : Prop := 0 ≤ t.nsec ∧ t.nsec < 1000000000

instance (t : Timespec) : Decidable t.Normalised := inferInstanceAs (Decidable (_ ∧ _))

/-- The kernel's `timespec_sub` loses nothing. -/
theorem timespecSub_ns (lhs rhs : Timespec) : (timespecSub lhs rhs).ns = lhs.ns - rhs.ns := by
  simp only [timespecSub, Timespec.ns]
  omega

theorem timespecSub_normalised (lhs rhs : Timespec) : (timespecSub lhs rhs).Normalised :=
  ⟨Int.emod_nonneg _ (by decide), Int.emod_lt_of_pos _ (by decide)⟩

/-- The functions under test neither read the clock nor log. -/
theorem call_unseen (f : InstrF) : Prog.Safe (fun _ _ => True)
    (fun o : Op => o ≠ .getnstimeofday ∧ o.record? = none) f.call := by
  cases f
  case movntdqa | movntdq | clflush =>
    exact Prog.safe_op ⟨nofun, rfl⟩ fun _ _ => Prog.safe_op ⟨nofun, rfl⟩ fun _ _ =>
      Prog.safe_ret _
  all_goals exact Prog.safe_op ⟨nofun, rfl⟩ fun _ _ => Prog.safe_ret _

/-- The calls of a loop are not seen. -/
theorem calls_unseen {l : TimingLoop} {t : List Answered} {u : Unit}
    (h : (Prog.forLoop l.loopIterations () fun _ _ => l.functionCall.call).Traces t u) :
    clockReadings t = [] ∧ logged t = [] := by
  have hunseen := ops_of_safe (Prog.safe_forFrom (fun _ _ => call_unseen _) _ _ _) h
  constructor
  · refine List.filterMap_eq_nil_iff.mpr fun e he => ?_
    have hne := (hunseen e he).1
    obtain ⟨o, r⟩ := e
    cases o
    case getnstimeofday => exact absurd rfl hne
    all_goals rfl
  · exact List.filterMap_eq_nil_iff.mpr fun e he => (hunseen e he).2

/-- **What a timing loop reads and prints.** -/
theorem timingLoop_traces {l : TimingLoop} {t : List Answered} {u : Unit}
    (h : (timingLoop l).Traces t u) : ∃ start stop, clockReadings t = [start, stop] ∧
      logged t = [.wall l.printName (timespecSub stop start).nsec.toNat] := by
  obtain ⟨start, t₁, rfl, h₁⟩ := Prog.traces_perform.mp h
  obtain ⟨calls, _, t₂, rfl, hcalls, h₂⟩ := Prog.traces_bind.mp h₁
  obtain ⟨stop, t₃, rfl, h₃⟩ := Prog.traces_perform.mp h₂
  obtain ⟨_, t₄, rfl, h₄⟩ := Prog.traces_op.mp h₃
  obtain ⟨rfl, -⟩ := Prog.traces_ret.mp h₄
  obtain ⟨hclock, hlogged⟩ := calls_unseen hcalls
  unfold clockReadings logged at *
  refine ⟨start, stop, ?_, ?_⟩
  · have hstart : clockReading ⟨.getnstimeofday, start⟩ = some start := rfl
    rw [List.filterMap_cons_some hstart, List.filterMap_append, hclock]
    rfl
  · rw [List.filterMap_cons_none rfl, List.filterMap_append, hlogged]
    rfl

/-- A run of `TIMING_LOOP`, on a clock that was not stepped back. -/
structure LoopRun where
  loop : TimingLoop
  trace : List Answered
  ran : (timingLoop loop).Traces trace ()
  start : Timespec
  stop : Timespec
  clock : clockReadings trace = [start, stop]
  start_normalised : start.Normalised
  stop_normalised : stop.Normalised
  forward : start.ns ≤ stop.ns

/-- The nanoseconds from `start` to `stop`. -/
def LoopRun.elapsed (r : LoopRun) : Nat := (r.stop.ns - r.start.ns).toNat

/-- The run prints the number `n` after `WALL_<name>: `, and nothing else. -/
def LoopRun.Prints (r : LoopRun) (n : Nat) : Prop :=
  (logged r.trace).map Record.text = ["WALL_" ++ r.loop.printName ++ ": " ++ Nat.repr n]

/-- **A run prints the elapsed time modulo a second.** -/
theorem LoopRun.prints_iff (r : LoopRun) (n : Nat) :
    r.Prints n ↔ n = r.elapsed % 1000000000 := by
  obtain ⟨start, stop, hclock, hlogged⟩ := timingLoop_traces r.ran
  have hreadings := r.clock.symm.trans hclock
  obtain ⟨hstart, hstop⟩ : r.start = start ∧ r.stop = stop := by
    rw [List.cons.injEq, List.cons.injEq] at hreadings
    exact ⟨hreadings.1, hreadings.2.1⟩
  have hnsec : (timespecSub stop start).nsec.toNat = r.elapsed % 1000000000 := by
    have hle := r.forward
    rw [LoopRun.elapsed]
    rw [hstart, hstop] at hle ⊢
    simp only [timespecSub, Timespec.ns] at hle ⊢
    omega
  rw [LoopRun.Prints, hlogged, hnsec, List.map_singleton, List.cons.injEq, and_iff_left rfl]
  show "WALL_" ++ r.loop.printName ++ ": " ++ Nat.repr _ = _ ↔ _
  rw [← String.toList_inj]
  simp only [String.toList_append, List.append_assoc, List.append_cancel_left_eq, repr_inj]
  exact eq_comm

/-- **The number printed is the elapsed time** exactly when that is below a second; and
of two such loops the longer one prints the larger number. -/
theorem wallFigure_iff (r : LoopRun) :
    (r.Prints r.elapsed ↔ r.elapsed < 1000000000) ∧
      ∀ r' : LoopRun, r.elapsed < r'.elapsed → r'.elapsed < 1000000000 →
        ∀ n n', r.Prints n → r'.Prints n' → n < n' := by
  constructor
  · rw [r.prints_iff]
    omega
  · intro r' hlt hsecond n n' hn hn'
    rw [r.prints_iff] at hn
    rw [r'.prints_iff] at hn'
    omega

/-! ### A loop over a second -/

/-- What a quiet machine answers: probes take `cycles`, and the clock stands at `now`. -/
def quiet (cycles : BitVec 64) (now : Timespec) : (o : Op) → o.Res
  | .access _ _ _ => cycles
  | .readVmem | .readVmemAligned | .kmalloc _ => (0 : BitVec 64)
  | .getnstimeofday => now
  | .bootCpuHas _ | .cpuidVmx | .localIrqSave => false
  | .miscRegister => (0 : Int)
  | .prInfo _ | .prAlert _ | .writeVmem _ | .writeVmemAligned _ | .kfree _ | .execute _
  | .msleep | .localIrqDisable | .localIrqRestore _ | .localIrqEnable | .miscDeregister => ()

/-- A loop can take any time. -/
theorem exists_loopRun (l : TimingLoop) {start stop : Timespec} (hstart : start.Normalised)
    (hstop : stop.Normalised) (hle : start.ns ≤ stop.ns) :
    ∃ r : LoopRun, r.loop = l ∧ r.start = start ∧ r.stop = stop := by
  have hcalls := Prog.traces_respond (quiet 0 start)
    (Prog.forLoop l.loopIterations () fun _ _ => l.functionCall.call)
  have hran : (timingLoop l).Traces (⟨.getnstimeofday, start⟩ ::
      ((Prog.respond (quiet 0 start) (Prog.forLoop l.loopIterations ()
        fun _ _ => l.functionCall.call)).1 ++ [⟨.getnstimeofday, stop⟩,
          ⟨.prInfo (.wall l.printName (timespecSub stop start).nsec.toNat), ()⟩])) () :=
    Prog.traces_perform.mpr ⟨start, _, rfl, Prog.traces_bind.mpr ⟨_, _, _, rfl, hcalls,
      Prog.traces_perform.mpr ⟨stop, _, rfl, Prog.traces_op.mpr
        ⟨(), _, rfl, .ret ()⟩⟩⟩⟩
  refine ⟨⟨l, _, hran, start, stop, ?_, hstart, hstop, hle⟩, rfl, rfl, rfl⟩
  have hreading : clockReading ⟨.getnstimeofday, start⟩ = some start := rfl
  rw [clockReadings, List.filterMap_cons_some hreading, List.filterMap_append]
  have hnone := (calls_unseen hcalls).1
  rw [clockReadings] at hnone
  rw [hnone]
  rfl

/-- **A loop that takes a second prints `0`.** -/
theorem wallFigure_not_elapsed : ¬ ∀ r : LoopRun, r.Prints r.elapsed := by
  intro hall
  have hnormalised : ∀ s, Timespec.Normalised ⟨s, 0⟩ := fun s =>
    ⟨Int.le_refl 0, show (0 : Int) < 1000000000 by decide⟩
  obtain ⟨r, -, hstart, hstop⟩ := exists_loopRun (.plain .cpuid "CPUID" 100)
    (hnormalised 5) (hnormalised 6) (by decide)
  have helapsed : r.elapsed = 1000000000 := by
    rw [LoopRun.elapsed, hstart, hstop]
    rfl
  have h := (r.prints_iff _).mp (hall r)
  rw [helapsed] at h
  exact absurd h (by decide)

/-! ## `cache_timing_handler` -/

/-- The cycles of all probes. -/
def totalCycles (t : List Answered) : Nat := ((probeResults t).map (·.2.toNat)).sum

theorem probeResults_append (t t' : List Answered) :
    probeResults (t ++ t') = probeResults t ++ probeResults t' := List.filterMap_append

theorem logged_append (t t' : List Answered) : logged (t ++ t') = logged t ++ logged t' :=
  List.filterMap_append

/-- The sum is taken modulo `2^32`. -/
theorem addCycles_toNat (avg : BitVec 32) (t : BitVec 64) :
    (addCycles avg t).toNat = (avg.toNat + t.toNat) % 2 ^ 32 := by
  have hself : (avg.signExtend 64).setWidth 32 = avg := by
    refine BitVec.eq_of_getElem_eq fun i hi => ?_
    rw [BitVec.getElem_setWidth, BitVec.getLsbD_signExtend, if_pos hi]
    simp [hi]
    omega
  rw [addCycles, BitVec.truncate_eq_setWidth, BitVec.setWidth_add _ _ (by decide), hself,
    BitVec.toNat_add, BitVec.toNat_setWidth, Nat.add_mod_mod]

/-- The loop of `cache_timing_handler`. -/
def cacheLoop (offset : BitVec 32) (n : Nat) : Code (BitVec 32) :=
  Prog.forLoop n 0 fun _ avg => do
    let a ← readVmemAligned
    let _ ← access .vmemAligned .flush (elementAddress a offset)
    msleep
    let a ← readVmemAligned
    let t ← access .vmemAligned .probe (elementAddress a offset)
    return addCycles avg t

/-- The report of `cache_timing_handler`, on a buffer at `a`. -/
def cacheReport (a : BitVec 64) (offset avg : BitVec 32) : List Answered :=
  [⟨.readVmemAligned, a⟩, ⟨.prInfo (.averageCycles (a + offset.signExtend 64) offset avg), ()⟩]

/-- The two parts of `cache_timing_handler`. -/
theorem cacheTimingHandler_split {offset : BitVec 32} {t : List Answered} {u : Unit}
    (h : (cacheTimingHandler offset).Traces t u) : ∃ t₁ sum a,
      (cacheLoop offset cacheCount).Traces t₁ sum ∧
        t = t₁ ++ cacheReport a offset (sum.sdiv (BitVec.ofNat 32 cacheCount)) := by
  obtain ⟨t₁, sum, t₂, rfl, hloop, h₂⟩ := Prog.traces_bind.mp h
  obtain ⟨a, t₃, rfl, h₃⟩ := Prog.traces_perform.mp h₂
  obtain ⟨_, t₄, rfl, h₄⟩ := Prog.traces_op.mp h₃
  obtain ⟨rfl, -⟩ := Prog.traces_ret.mp h₄
  exact ⟨t₁, sum, a, hloop, rfl⟩

/-- A turn of the loop, in which `vmem_aligned` is `a` and then `a'`. -/
def cacheTurn (offset : BitVec 32) (a flushed a' cycles : BitVec 64) : List Answered :=
  [⟨.readVmemAligned, a⟩, ⟨.access .vmemAligned .flush (elementAddress a offset), flushed⟩,
    ⟨.msleep, ()⟩, ⟨.readVmemAligned, a'⟩,
    ⟨.access .vmemAligned .probe (elementAddress a' offset), cycles⟩]

/-- **The rule for the loop**: what holds of no turn, and of one turn more. -/
theorem cacheLoop_rule {offset : BitVec 32}
    {P : Nat → BitVec 32 → List Answered → BitVec 32 → Prop} (hzero : ∀ avg, P 0 avg [] avg)
    (hturn : ∀ n avg a flushed a' cycles t sum, P n (addCycles avg cycles) t sum →
      P (n + 1) avg (cacheTurn offset a flushed a' cycles ++ t) sum)
    {n : Nat} {t : List Answered} {sum : BitVec 32} (h : (cacheLoop offset n).Traces t sum) :
    P n 0 t sum := by
  refine h.forFrom (P := fun _ n avg t sum => P n avg t sum) (fun _ => hzero) ?_
  intro i n avg t avg' t' sum hbody hrest
  obtain ⟨a, t₁, rfl, h₁⟩ := Prog.traces_perform.mp hbody
  obtain ⟨flushed, t₂, rfl, h₂⟩ := Prog.traces_perform.mp h₁
  obtain ⟨_, t₃, rfl, h₃⟩ := Prog.traces_perform.mp h₂
  obtain ⟨a', t₄, rfl, h₄⟩ := Prog.traces_perform.mp h₃
  obtain ⟨cycles, t₅, rfl, h₅⟩ := Prog.traces_perform.mp h₄
  obtain ⟨rfl, rfl⟩ := Prog.traces_ret.mp h₅
  exact hturn n avg a flushed a' cycles t' sum hrest

/-- What the loop adds up. -/
theorem cacheLoop_traces {offset : BitVec 32} {n : Nat} {t : List Answered} {sum : BitVec 32}
    (h : (cacheLoop offset n).Traces t sum) :
    (probeResults t).length = n ∧ logged t = [] ∧ sum.toNat = totalCycles t % 2 ^ 32 := by
  have hloop := cacheLoop_rule (P := fun n avg t sum => (probeResults t).length = n ∧
    logged t = [] ∧ sum.toNat = (avg.toNat + totalCycles t) % 2 ^ 32) ?_ ?_ h
  · obtain ⟨hlength, hlogged, hsum⟩ := hloop
    have hzero : (0 : BitVec 32).toNat = 0 := rfl
    rw [hzero, Nat.zero_add] at hsum
    exact ⟨hlength, hlogged, hsum⟩
  · intro avg
    refine ⟨rfl, rfl, ?_⟩
    rw [totalCycles]
    exact (Nat.mod_eq_of_lt avg.isLt).symm
  · rintro n avg a flushed a' cycles t sum ⟨hlength, hlogged, hsum⟩
    refine ⟨congrArg (· + 1) hlength, hlogged, ?_⟩
    rw [hsum, addCycles_toNat avg cycles, Nat.mod_add_mod, Nat.add_assoc]
    rfl

/-- **What `cache_timing_handler` prints.** -/
theorem cacheTimingHandler_traces {offset : BitVec 32} {t : List Answered} {u : Unit}
    (h : (cacheTimingHandler offset).Traces t u) : (probeResults t).length = cacheCount ∧
      ∃ (address : BitVec 64) (sum : BitVec 32), logged t =
          [.averageCycles address offset (sum.sdiv (BitVec.ofNat 32 cacheCount))] ∧
        sum.toNat = totalCycles t % 2 ^ 32 := by
  obtain ⟨t₁, sum, a, hloop, rfl⟩ := cacheTimingHandler_split h
  obtain ⟨hlength, hlogged, hsum⟩ := cacheLoop_traces hloop
  have hnone : ∀ avg, probeResults (cacheReport a offset avg) = [] := fun _ => rfl
  rw [totalCycles, probeResults_append, hnone, List.append_nil, logged_append, hlogged]
  exact ⟨hlength, _, sum, rfl, hsum⟩

/-- The signed word is right, or it is negative or too small. -/
theorem sdiv_toInt_eq_iff {total : Nat} {sum : BitVec 32} (h : sum.toNat = total % 2 ^ 32) :
    ((sum.sdiv (BitVec.ofNat 32 cacheCount)).toInt = (total / cacheCount : Nat) ∧
      0 ≤ (sum.sdiv (BitVec.ofNat 32 cacheCount)).toInt) ↔ total < 2 ^ 31 := by
  have hcount : (BitVec.ofNat 32 cacheCount).toInt = 100 := by decide
  have hne : BitVec.ofNat 32 cacheCount ≠ -1 := by decide
  rw [BitVec.toInt_sdiv_of_ne_or_ne _ _ (Or.inr hne), hcount, BitVec.toInt_eq_toNat_cond, h,
    cacheCount]
  rcases Nat.lt_or_ge (total % 2 ^ 32) (2 ^ 31) with hlow | hhigh
  · rw [if_pos (by omega), Int.tdiv_eq_ediv_of_nonneg (by omega)]
    omega
  · rw [if_neg (by omega)]
    have hneg : 0 ≤ (-((total % 2 ^ 32 : Nat) - (2 ^ 32 : Nat) : Int)).tdiv 100 :=
      Int.tdiv_nonneg (by omega) (by decide)
    rw [Int.neg_tdiv] at hneg
    omega

/-! ## `memory_timing_start` -/

/-- The report of page `i`, the `k`-th of a run: two probes of the page, and the record
with the second result. -/
def PageReport (array : BitVec 64) (i k : Nat) (t : List Answered) : Prop :=
  ∃ first second, (probeResults t)[2 * k]? = some (pageAddress array i, first) ∧
    (probeResults t)[2 * k + 1]? = some (pageAddress array i, second) ∧
      (logged t)[k]? = some (.pageCycles (BitVec.ofNat 32 i) (second.truncate 32))

/-- What the loop of `memory_timing_start` does. -/
theorem memoryLoop_traces {array : BitVec 64} {n : Nat} {t : List Answered} {u : Unit}
    (h : (Prog.forLoop n () fun i _ => do
      let _ ← access .vmemAligned .probe (pageAddress array i)
      let t ← access .vmemAligned .probe (pageAddress array i)
      prInfo (.pageCycles (BitVec.ofNat 32 i) (t.truncate 32))).Traces t u) :
    ∀ k < n, PageReport array k k t := by
  have hloop := h.forFrom (P := fun i n _ t _ => ∀ k < n, PageReport array (i + k) k t) ?_ ?_
  · intro k hk
    have hreport := hloop k hk
    rwa [Nat.zero_add] at hreport
  · intro i _ k hk
    exact absurd hk (Nat.not_lt_zero k)
  · intro i n _ t _ t' _ hbody hrest k hk
    obtain ⟨first, t₁, rfl, h₁⟩ := Prog.traces_perform.mp hbody
    obtain ⟨second, t₂, rfl, h₂⟩ := Prog.traces_perform.mp h₁
    obtain ⟨_, t₃, rfl, h₃⟩ := Prog.traces_op.mp h₂
    obtain ⟨rfl, -⟩ := Prog.traces_ret.mp h₃
    cases k with
    | zero => exact ⟨first, second, rfl, rfl, rfl⟩
    | succ k =>
      have hreport := hrest k (Nat.lt_of_succ_lt_succ hk)
      rw [Nat.add_right_comm, Nat.add_assoc] at hreport
      exact hreport

theorem memoryTimingStart_traces {t : List Answered} {r : Int}
    (h : memoryTimingStart.Traces t r) : ∃ array, ∀ k < 10, PageReport array k k t := by
  obtain ⟨array, t₁, rfl, h₁⟩ := Prog.traces_perform.mp h
  obtain ⟨t₂, _, t₃, rfl, hloop, h₃⟩ := Prog.traces_bind.mp h₁
  obtain ⟨rfl, -⟩ := Prog.traces_ret.mp h₃
  rw [List.append_nil]
  have hpages := memoryLoop_traces hloop
  exact ⟨array, hpages⟩

/-- A result printed as a signed word. -/
theorem truncate_toInt_eq_iff (t : BitVec 64) :
    ((t.truncate 32).toInt = t.toNat ∧ 0 ≤ (t.truncate 32).toInt) ↔ t.toNat < 2 ^ 31 := by
  rw [BitVec.truncate_eq_setWidth, BitVec.toInt_eq_toNat_cond, BitVec.toNat_setWidth]
  split <;> omega

/-! ## Both reports -/

/-- A run of `cache_timing_handler(offset)`. -/
structure CacheRun where
  offset : BitVec 32
  trace : List Answered
  ran : (cacheTimingHandler offset).Traces trace ()

/-- The run prints the floor of the mean of its probes, and it is not negative. -/
def CacheRun.PrintsMean (r : CacheRun) : Prop :=
  (probeResults r.trace).length = cacheCount ∧
    ∃ address avg, logged r.trace = [.averageCycles address r.offset avg] ∧
      avg.toInt = (totalCycles r.trace / cacheCount : Nat) ∧ 0 ≤ avg.toInt

/-- A run of `memory_timing_start`. -/
structure MemoryRun where
  trace : List Answered
  ret : Int
  ran : memoryTimingStart.Traces trace ret

/-- The second result of page `k`. -/
def MemoryRun.second (r : MemoryRun) (k : Nat) : Nat :=
  ((probeResults r.trace)[2 * k + 1]?.map (·.2.toNat)).getD 0

/-- The run prints for page `k` the second result of that page, and it is not negative. -/
def MemoryRun.PrintsSecond (r : MemoryRun) (k : Nat) : Prop :=
  ∃ array first second x, (probeResults r.trace)[2 * k]? = some (pageAddress array k, first) ∧
    (probeResults r.trace)[2 * k + 1]? = some (pageAddress array k, second) ∧
      (logged r.trace)[k]? = some (.pageCycles (BitVec.ofNat 32 k) x) ∧
        x.toInt = second.toNat ∧ 0 ≤ x.toInt

theorem CacheRun.printsMean_iff (r : CacheRun) :
    r.PrintsMean ↔ totalCycles r.trace < 2 ^ 31 := by
  obtain ⟨hlength, address, sum, hlogged, hsum⟩ := cacheTimingHandler_traces r.ran
  rw [← sdiv_toInt_eq_iff hsum]
  constructor
  · rintro ⟨-, address', avg, hlogged', hmean⟩
    rw [hlogged, List.cons.injEq, Record.averageCycles.injEq] at hlogged'
    rw [hlogged'.1.2.2]
    exact hmean
  · intro hmean
    exact ⟨hlength, address, _, hlogged, hmean⟩

theorem MemoryRun.printsSecond_iff (r : MemoryRun) (k : Fin 10) :
    r.PrintsSecond k ↔ r.second k < 2 ^ 31 := by
  obtain ⟨array, hpages⟩ := memoryTimingStart_traces r.ran
  obtain ⟨first, second, hfirst, hsecond, hlogged⟩ := hpages k k.isLt
  have hr : r.second k = second.toNat := by
    rw [MemoryRun.second, hsecond]
    rfl
  rw [hr, ← truncate_toInt_eq_iff]
  constructor
  · rintro ⟨_, _, second', x, -, hsecond', hlogged', hx⟩
    rw [hsecond, Option.some.injEq, Prod.mk.injEq] at hsecond'
    rw [hlogged, Option.some.injEq, Record.pageCycles.injEq] at hlogged'
    rw [hlogged'.2, hsecond'.2]
    exact hx
  · intro hx
    exact ⟨array, first, second, _, hfirst, hsecond, hlogged, hx⟩

/-- **When the cycle reports are true**: if the sum of the probes fits in an `int`, and if
the second result of the page does. -/
theorem cycleFigures_iff (r : CacheRun) (m : MemoryRun) (k : Fin 10) :
    (r.PrintsMean ↔ totalCycles r.trace < 2 ^ 31) ∧
      (m.PrintsSecond k ↔ m.second k < 2 ^ 31) :=
  ⟨r.printsMean_iff, m.printsSecond_iff k⟩

/-- A run in which every probe takes `cycles`. -/
theorem exists_quiet_trace {α : Type} (cycles : BitVec 64) (p : Code α) :
    ∃ t a, p.Traces t a ∧ ∀ e ∈ probeResults t, e.2 = cycles := by
  refine ⟨_, _, Prog.traces_respond (quiet cycles ⟨0, 0⟩) p, fun e he => ?_⟩
  obtain ⟨⟨o, r⟩, ho, he⟩ := List.mem_filterMap.mp he
  have hr := Prog.respond_answers (quiet cycles ⟨0, 0⟩) p _ ho
  cases o
  case access via a address =>
    cases a
    case probe =>
      cases he
      exact hr
    all_goals cases he
  all_goals cases he

theorem totalCycles_of_constant {t : List Answered} {cycles : BitVec 64}
    (h : ∀ e ∈ probeResults t, e.2 = cycles) :
    totalCycles t = (probeResults t).length * cycles.toNat := by
  have hmap : (probeResults t).map (·.2.toNat) = (probeResults t).map fun _ => cycles.toNat :=
    List.map_congr_left fun e he => by rw [h e he]
  rw [totalCycles, hmap, List.map_const', List.sum_replicate_nat]

/-- **Neither report is always true**: a hundred probes of `2^25` cycles, and a page
that takes `2^31`. -/
theorem cycleFigures_not_true :
    (¬ ∀ r : CacheRun, (∀ p ∈ probeResults r.trace, p.2.toNat < 2 ^ 32) → r.PrintsMean) ∧
      ¬ ∀ r : MemoryRun, (∀ p ∈ probeResults r.trace, p.2.toNat < 2 ^ 32) →
        ∀ k : Fin 10, r.PrintsSecond k := by
  constructor
  · intro hall
    obtain ⟨t, u, hran, hcycles⟩ := exists_quiet_trace (2 ^ 25) (cacheTimingHandler 0)
    have hbelow : ∀ p ∈ probeResults t, p.2.toNat < 2 ^ 32 := by
      intro p hp
      rw [hcycles p hp]
      decide
    have h := (CacheRun.printsMean_iff ⟨0, t, hran⟩).mp (hall ⟨0, t, hran⟩ hbelow)
    rw [totalCycles_of_constant hcycles, (cacheTimingHandler_traces hran).1] at h
    exact absurd h (by decide)
  · intro hall
    obtain ⟨t, r, hran, hcycles⟩ := exists_quiet_trace (2 ^ 31) memoryTimingStart
    have hbelow : ∀ p ∈ probeResults t, p.2.toNat < 2 ^ 32 := by
      intro p hp
      rw [hcycles p hp]
      decide
    have hprints := hall ⟨t, r, hran⟩ hbelow 0
    have h := (MemoryRun.printsSecond_iff ⟨t, r, hran⟩ 0).mp hprints
    obtain ⟨_, _, second, _, -, hsecond, -, -, -⟩ := hprints
    have hvalue : second = 2 ^ 31 := hcycles _ (List.mem_of_getElem? hsecond)
    rw [MemoryRun.second, hsecond, hvalue] at h
    have hsmall : (2 ^ 31 : BitVec 64).toNat < 2 ^ 31 := h
    exact absurd hsmall (by decide)

end EcrToolkit
