import EcrToolkit.CycleLog
import EcrToolkit.ScriptRun

/-!
# The tables of `ecr.sh -l` and `ecr.sh -m`

From the probes of one ioctl to the figures of the table.  The module sums and prints in
32 bits, `printk` adds the text, other lines come between, and `cache_parse` and
`memory_parse` take the last word of what they find: a figure of the table is right
exactly when the sum, or the result, fits in an `int` (`cacheTable_iff`,
`memoryTable_iff`).
-/
namespace EcrToolkit

open AtomicProgram TextTools

/-! ## The ioctls -/

/-- A `TIMING_IOCTL_CACHE` or `TIMING_IOCTL_MEMORY` that succeeds has found a buffer. -/
theorem bufferCommand_split {commencing : Record} {start : Code Int} {t : List Answered}
    (h : (bufferCommand commencing start).Traces t (.value 0)) :
    ∃ (v : BitVec 64) (t' : List Answered),
      t = ⟨.prInfo commencing, ()⟩ :: ⟨.readVmem, v⟩ :: t' ∧ start.Traces t' 0 := by
  obtain ⟨_, t₁, rfl, h₁⟩ := Prog.traces_perform.mp h
  obtain ⟨(v : BitVec 64), t₂, rfl, h₂⟩ := Prog.traces_perform.mp h₁
  have hcase : Prog.Traces (if v = 0 then (prAlert .memoryNotAllocated).bind fun _ =>
    .ret (Return.value (-eFault)) else start.bind fun r => .ret (.value r)) t₂ (.value 0) := h₂
  split at hcase
  case isTrue =>
    obtain ⟨_, t₃, rfl, h₃⟩ := Prog.traces_perform.mp hcase
    exact absurd (Return.value.inj (Prog.traces_ret.mp h₃).2) (by decide)
  case isFalse =>
    obtain ⟨t₃, r, t₄, rfl, h₃, h₄⟩ := Prog.traces_bind.mp hcase
    obtain ⟨rfl, hr⟩ := Prog.traces_ret.mp h₄
    obtain rfl := Return.value.inj hr
    rw [List.append_nil]
    exact ⟨v, t₃, rfl, h₃⟩

theorem cacheIoctl_split {t : List Answered}
    (h : (timingUnlockedIoctl timingIoctlCache).Traces t (.value 0)) :
    ∃ heading t', t = heading ++ t' ∧
      logged heading = [.commandReceived timingIoctlCache, .commencingCache] ∧
        cacheTimingStart.Traces t' 0 := by
  obtain ⟨_, t₁, rfl, h₁⟩ := Prog.traces_perform.mp h
  have hcommand : (bufferCommand .commencingCache cacheTimingStart).Traces t₁ (.value 0) := h₁
  obtain ⟨v, t₂, rfl, h₂⟩ := bufferCommand_split hcommand
  exact ⟨[⟨.prInfo (.commandReceived timingIoctlCache), ()⟩, ⟨.prInfo .commencingCache, ()⟩,
    ⟨.readVmem, v⟩], t₂, rfl, rfl, h₂⟩

theorem memoryIoctl_split {t : List Answered}
    (h : (timingUnlockedIoctl timingIoctlMemory).Traces t (.value 0)) :
    ∃ heading t', t = heading ++ t' ∧
      logged heading = [.commandReceived timingIoctlMemory, .commencingMemory] ∧
        memoryTimingStart.Traces t' 0 := by
  obtain ⟨_, t₁, rfl, h₁⟩ := Prog.traces_perform.mp h
  have hcommand : (bufferCommand .commencingMemory memoryTimingStart).Traces t₁ (.value 0) := h₁
  obtain ⟨v, t₂, rfl, h₂⟩ := bufferCommand_split hcommand
  exact ⟨[⟨.prInfo (.commandReceived timingIoctlMemory), ()⟩, ⟨.prInfo .commencingMemory, ()⟩,
    ⟨.readVmem, v⟩], t₂, rfl, rfl, h₂⟩

/-- The calls of `cache_timing_handler`. -/
theorem exists_cacheRuns {t : List Answered} {r : Int} (h : cacheTimingStart.Traces t r) :
    ∃ runs : List CacheRun, runs.map (·.offset) = [0, 64, 128, 256, 4096] ∧
      t = runs.flatMap (·.trace) := by
  have hcall : ∀ {offset : BitVec 32} {q : Code Int} {t : List Answered} {offsets},
      ((cacheTimingHandler offset).bind fun _ => q).Traces t r →
      (∀ t', q.Traces t' r → ∃ runs : List CacheRun, runs.map (·.offset) = offsets ∧
        t' = runs.flatMap (·.trace)) →
      ∃ runs : List CacheRun, runs.map (·.offset) = offset :: offsets ∧
        t = runs.flatMap (·.trace) := by
    intro offset q t offsets h hq
    obtain ⟨t₁, _, t₂, rfl, h₁, h₂⟩ := Prog.traces_bind.mp h
    obtain ⟨runs, rfl, rfl⟩ := hq t₂ h₂
    exact ⟨⟨offset, t₁, h₁⟩ :: runs, rfl, rfl⟩
  refine hcall h fun t h => hcall h fun t h => hcall h fun t h => hcall h fun t h =>
    hcall h fun t h => ?_
  obtain ⟨rfl, -⟩ := Prog.traces_ret.mp h
  exact ⟨[], rfl, rfl⟩

/-! ## The log of a run of the script -/

/-- The log of a run of `ecr.sh -l` or `ecr.sh -m`.  `run` is what is logged while the ioctl
`cmd` runs, which succeeds, with lines of somebody else between; no figure is reported
`later`. -/
structure TableLog (cmd : BitVec 32) extends CycleLog where
  before : List LogLine
  run : List LogLine
  later : List LogLine
  since_eq : since = before ++ (run ++ later)
  visible : since.length ≤ 100000000
  trace : List Answered
  ran : (timingUnlockedIoctl cmd).Traces trace (.value 0)
  run_eq : run.filterMap (·.record?) = logged trace
  newest : ∀ i ∈ later, (∀ v, i.cacheFigure v = none) ∧ ∀ k, i.pageFigure k = none

section
variable {cmd : BitVec 32} (g : TableLog cmd)

/-- `dmesg`, when `n` lines follow the run. -/
def TableLog.readAfter (n : Nat) : List Line := g.read ((g.before ++ g.run).length + n)

theorem TableLog.seen_eq (n : Nat) :
    g.seen ((g.before ++ g.run).length + n) = g.before ++ g.run ++ g.later.take n := by
  have hlines : g.since.take ((g.before ++ g.run).length + n) =
      g.before ++ g.run ++ g.later.take n := by
    rw [g.since_eq, ← List.append_assoc, List.take_length_add_append]
  have hlength : (g.since.take ((g.before ++ g.run).length + n)).length ≤ 100000000 :=
    (List.take_sublist _ _).length_le.trans g.visible
  rw [CycleLog.seen, List.take_of_length_le hlength, hlines]

/-- The figure that the run reports once is the one found. -/
theorem TableLog.latest {figure : Record → Option (BitVec 32)}
    (hlast : ∀ i ∈ g.later, i.record?.bind figure = none) {x : BitVec 32}
    (hx : (logged g.trace).filterMap figure = [x]) (n : Nat) :
    ((g.seen ((g.before ++ g.run).length + n)).filterMap
      fun i => i.record?.bind figure).getLast? = some x := by
  have hrun : g.run.filterMap (fun i => i.record?.bind figure) = [x] := by
    rw [← hx, ← g.run_eq, List.filterMap_filterMap]
  have hlater : (g.later.take n).filterMap (fun i => i.record?.bind figure) = [] := by
    rw [List.filterMap_eq_nil_iff]
    intro i hi
    exact hlast i (List.mem_of_mem_take hi)
  rw [g.seen_eq, List.filterMap_append, List.filterMap_append, hrun, hlater, List.append_nil,
    List.getLast?_concat]

end

/-! ## `ecr.sh -l` -/

/-- An address that is no offset. -/
def Record.isHigh : Record → Bool
  | .averageCycles address _ _ => 2 ^ 32 ≤ address.toNat
  | _ => true

/-- `cache_arr`.  `cache_parse` reads the log twice for every offset. -/
def TableLog.cacheArr (g : TableLog timingIoctlCache) (first second : Line → Nat) : List Line :=
  (EcrSh.addressOffsets.map String.toList).map fun i =>
    cacheParse (g.read (first i)) (g.readAfter (second i)) i

theorem TableLog.cacheParse_readAfter {cmd : BitVec 32} (g : TableLog cmd) {v avg : BitVec 32}
    (h : (logged g.trace).filterMap (·.cacheFigure v) = [avg]) (first n : Nat) :
    cacheParse (g.read first) (g.readAfter n) (hexWord v.toNat) = decimal avg.toInt := by
  have hlast : ((g.seen ((g.before ++ g.run).length + n)).filterMap
      (·.cacheFigure v)).getLast? = some avg := g.latest (fun i hi => (g.newest i hi).1 v) h n
  rw [TableLog.readAfter, cacheParse_eq, hlast]
  rfl

/-- The texts of the offsets. -/
theorem addressOffsets_eq : EcrSh.addressOffsets.map String.toList =
    [0, 64, 128, 256, 4096].map fun v : BitVec 32 => hexWord v.toNat := by
  decide +kernel

/-- What `cache_parse` finds of a run with another offset, or with this one. -/
theorem CacheRun.cacheFigure_eq (r : CacheRun) (hhigh : ∀ rec ∈ logged r.trace, rec.isHigh = true)
    (v : BitVec 32) : ∃ avg : BitVec 32,
      (logged r.trace).filterMap (·.cacheFigure v) = (if r.offset = v then [avg] else []) ∧
        (avg.toInt = (totalCycles r.trace / cacheCount : Nat) ↔ totalCycles r.trace < 2 ^ 31) := by
  obtain ⟨-, address, sum, hlogged, hsum⟩ := cacheTimingHandler_traces r.ran
  refine ⟨_, ?_, (and_iff_left_of_imp fun h => ?_).symm.trans (sdiv_toInt_eq_iff hsum)⟩
  · have haddress : address.toNat ≠ v.toNat := by
      have hle : 2 ^ 32 ≤ address.toNat := of_decide_eq_true
        (hhigh (.averageCycles address r.offset (sum.sdiv (BitVec.ofNat 32 cacheCount)))
          (by rw [hlogged]; exact List.mem_singleton_self _))
      have hlt := v.isLt
      omega
    rw [hlogged, List.filterMap_cons, List.filterMap_nil]
    simp only [Record.cacheFigure, haddress, or_false]
    by_cases h : r.offset = v
    · rw [if_pos h, if_pos h]
    · rw [if_neg h, if_neg h]
  · rw [h]
    exact Int.natCast_nonneg _

/-- Different runs have different offsets, so each is found for its own. -/
theorem cacheFigure_runs {runs : List CacheRun} (hnodup : (runs.map (·.offset)).Nodup)
    (hhigh : ∀ r ∈ runs, ∀ rec ∈ logged r.trace, rec.isHigh = true) {r : CacheRun} (hr : r ∈ runs) :
    ∃ avg : BitVec 32, (runs.flatMap fun r => logged r.trace).filterMap (·.cacheFigure r.offset) =
      [avg] ∧ (avg.toInt = (totalCycles r.trace / cacheCount : Nat) ↔
        totalCycles r.trace < 2 ^ 31) := by
  obtain ⟨s, t, rfl⟩ := List.append_of_mem hr
  obtain ⟨avg, hself, hmean⟩ := r.cacheFigure_eq (hhigh r hr) r.offset
  rw [if_pos rfl] at hself
  have hother : ∀ l : List CacheRun, (∀ r' ∈ l, r' ∈ s ++ r :: t ∧ r'.offset ≠ r.offset) →
      (l.flatMap fun r => logged r.trace).filterMap (·.cacheFigure r.offset) = [] := by
    intro l hl
    rw [List.filterMap_flatMap, List.flatMap_eq_nil_iff]
    intro r' hr'
    obtain ⟨_, hne, -⟩ := r'.cacheFigure_eq (hhigh r' (hl r' hr').1) r.offset
    rw [hne, if_neg (hl r' hr').2]
  rw [List.map_append, List.map_cons, List.nodup_append, List.nodup_cons] at hnodup
  obtain ⟨-, ⟨hafter, -⟩, hbefore⟩ := hnodup
  refine ⟨avg, ?_, hmean⟩
  rw [List.flatMap_append, List.flatMap_cons, List.filterMap_append, List.filterMap_append, hself,
    hother s, hother t]
  · rfl
  · intro r' hr'
    refine ⟨List.mem_append_right s (List.mem_cons_of_mem r hr'), fun h => hafter ?_⟩
    exact h ▸ List.mem_map_of_mem hr'
  · intro r' hr'
    exact ⟨List.mem_append_left _ hr', hbefore _ (List.mem_map_of_mem hr') _ List.mem_cons_self⟩

/-- **The table of `ecr.sh -l`**: five runs of a hundred probes each, and every figure is
the mean of its run if and only if the sum of that run fits in an `int`. -/
theorem cacheTable_iff (g : TableLog timingIoctlCache)
    (hhigh : ∀ rec ∈ logged g.trace, rec.isHigh = true) (first second : Line → Nat) :
    ∃ runs : List CacheRun,
      runs.map (·.offset) = [0, 64, 128, 256, 4096] ∧ runs.flatMap (·.trace) <:+ g.trace ∧
        List.Forall₂ (fun figure run => figure =
          (Nat.repr (totalCycles run.trace / cacheCount)).toList ↔ totalCycles run.trace < 2 ^ 31)
          (g.cacheArr first second) runs := by
  obtain ⟨heading, t, ht, hheading, hstart⟩ := cacheIoctl_split g.ran
  obtain ⟨runs, hoffsets, rfl⟩ := exists_cacheRuns hstart
  have hlogged : logged g.trace = [.commandReceived timingIoctlCache, .commencingCache] ++
      runs.flatMap fun r => logged r.trace := by
    rw [ht, logged_append, hheading, logged, List.filterMap_flatMap]
    rfl
  refine ⟨runs, hoffsets, ⟨heading, ht.symm⟩, ?_⟩
  have harr : g.cacheArr first second = runs.map fun run =>
      cacheParse (g.read (first (hexWord run.offset.toNat)))
        (g.readAfter (second (hexWord run.offset.toNat))) (hexWord run.offset.toNat) := by
    rw [TableLog.cacheArr, addressOffsets_eq, ← hoffsets, List.map_map, List.map_map]
    simp only [Function.comp_def]
  rw [harr, List.forall₂_map_left_iff, List.forall₂_same]
  intro run hrun
  have hnodup : (runs.map (·.offset)).Nodup := by
    rw [hoffsets]
    decide
  obtain ⟨avg, hfigure, hmean⟩ := cacheFigure_runs hnodup (fun r hr rec hrec =>
    hhigh rec (by rw [hlogged]; exact List.mem_append_right _ (List.mem_flatMap.mpr ⟨r, hr, hrec⟩)))
    hrun
  have hone : (logged g.trace).filterMap (·.cacheFigure run.offset) = [avg] := by
    rw [hlogged, List.filterMap_append, hfigure]
    rfl
  rw [g.cacheParse_readAfter hone, decimal_eq_repr_iff]
  exact hmean

/-! ## `ecr.sh -m` -/

/-- A list in which one element has a value. -/
theorem filterMap_eq_singleton {α β : Type} {f : α → Option β} {l : List α} {k : Nat} {a : α}
    {b : β} (hk : l[k]? = some a) (ha : f a = some b)
    (hother : ∀ j a, l[j]? = some a → j ≠ k → f a = none) : l.filterMap f = [b] := by
  obtain ⟨hlt, hget⟩ := List.getElem?_eq_some_iff.mp hk
  have hsplit : l = l.take k ++ a :: l.drop (k + 1) := by
    rw [← hget, ← List.drop_eq_getElem_cons hlt, List.take_append_drop]
  have hbefore : (l.take k).filterMap f = [] := by
    rw [List.filterMap_eq_nil_iff]
    intro a ha
    obtain ⟨j, hj⟩ := List.mem_iff_getElem?.mp ha
    rw [List.getElem?_take] at hj
    split at hj
    case isTrue hjk => exact hother j a hj (Nat.ne_of_lt hjk)
    case isFalse => cases hj
  have hafter : (l.drop (k + 1)).filterMap f = [] := by
    rw [List.filterMap_eq_nil_iff]
    intro a ha
    obtain ⟨j, hj⟩ := List.mem_iff_getElem?.mp ha
    rw [List.getElem?_drop] at hj
    exact hother _ a hj (by omega)
  rw [hsplit, List.filterMap_append, hbefore, List.filterMap_cons_some ha, hafter]
  rfl

/-- There are ten reports. -/
theorem memoryTimingStart_length {t : List Answered} {r : Int} (h : memoryTimingStart.Traces t r) :
    (logged t).length = 10 := by
  obtain ⟨array, t₁, rfl, h₁⟩ := Prog.traces_perform.mp h
  obtain ⟨t₂, _, t₃, rfl, hloop, h₃⟩ := Prog.traces_bind.mp h₁
  obtain ⟨rfl, -⟩ := Prog.traces_ret.mp h₃
  rw [List.append_nil]
  refine hloop.forFrom (P := fun _ n _ t _ => (logged t).length = n) (fun _ _ => rfl) ?_
  intro i n _ t _ t' _ hbody hrest
  obtain ⟨first, t₁, rfl, h₁⟩ := Prog.traces_perform.mp hbody
  obtain ⟨second, t₂, rfl, h₂⟩ := Prog.traces_perform.mp h₁
  obtain ⟨_, t₃, rfl, h₃⟩ := Prog.traces_op.mp h₂
  obtain ⟨rfl, -⟩ := Prog.traces_ret.mp h₃
  exact congrArg (· + 1) hrest

/-- **What `memory_parse` finds of a run** for page `k`: the second result, in 32 bits. -/
theorem MemoryRun.pageFigure_eq (m : MemoryRun) (k : Fin 10) : ∃ x : BitVec 32,
    (logged m.trace).filterMap (·.pageFigure k) = [x] ∧
      (x.toInt = m.second k ↔ m.second k < 2 ^ 31) := by
  obtain ⟨array, hpages⟩ := memoryTimingStart_traces m.ran
  obtain ⟨first, second, -, hsecond, hreport⟩ := hpages k k.isLt
  have hm : m.second k = second.toNat := by
    rw [MemoryRun.second, hsecond]
    rfl
  have hpage : ∀ j < 10, (BitVec.ofNat 32 j).toNat = j := fun j hj =>
    Nat.mod_eq_of_lt (Nat.lt_trans hj (by decide))
  refine ⟨second.truncate 32, filterMap_eq_singleton hreport ?_ ?_, ?_⟩
  · exact if_pos (hpage k k.isLt)
  · intro j rec hj hne
    have hlt : j < 10 := by
      have hlength := (List.getElem?_eq_some_iff.mp hj).1
      rwa [memoryTimingStart_length m.ran] at hlength
    obtain ⟨_, _, -, -, hrec⟩ := hpages j hlt
    obtain rfl := Option.some.inj (hj.symm.trans hrec)
    refine if_neg fun h => hne ?_
    rwa [hpage j hlt] at h
  · rw [hm, ← truncate_toInt_eq_iff]
    exact (and_iff_left_of_imp fun h => h ▸ Int.natCast_nonneg _).symm

/-- `memory_arr`. -/
def TableLog.memoryArr (g : TableLog timingIoctlMemory) (first second : Fin 10 → Nat) (k : Fin 10) :
    Line := memoryParse (g.read (first k)) (g.readAfter (second k)) (Nat.repr k).toList

/-- **The table of `ecr.sh -m`**: one run of ten pages, and the figure of every page is its
second result if and only if that fits in an `int`. -/
theorem memoryTable_iff (g : TableLog timingIoctlMemory) (first second : Fin 10 → Nat) :
    ∃ m : MemoryRun, m.trace <:+ g.trace ∧ ∀ k : Fin 10,
      g.memoryArr first second k = (Nat.repr (m.second k)).toList ↔ m.second k < 2 ^ 31 := by
  obtain ⟨heading, t, ht, hheading, hstart⟩ := memoryIoctl_split g.ran
  refine ⟨⟨t, 0, hstart⟩, ⟨heading, ht.symm⟩, fun k => ?_⟩
  obtain ⟨x, hfigure, hx⟩ := MemoryRun.pageFigure_eq ⟨t, 0, hstart⟩ k
  have hone : (logged g.trace).filterMap (·.pageFigure k) = [x] := by
    rw [ht, logged_append, List.filterMap_append, hheading, hfigure]
    rfl
  have hlast : ((g.seen ((g.before ++ g.run).length + second k)).filterMap
      (·.pageFigure k)).getLast? = some x := g.latest (fun i hi => (g.newest i hi).2 k) hone _
  have hcell : g.memoryArr first second k = decimal x.toInt := by
    rw [TableLog.memoryArr, TableLog.readAfter, memoryParse_eq, hlast]
    rfl
  rw [hcell, decimal_eq_repr_iff]
  exact hx

/-! ## Two logs -/

/-- A record without the letters of the two phrases. -/
def Record.lacksPhrases (r : Record) : Bool := r.text.toList.all fun c => c != 'A' && c != 'p'

theorem legible_of_notMem (stamp : Stamp) {r : Record} (h : r.lacksPhrases = true) :
    (LogLine.entry ⟨stamp, r⟩).CycleLegible := by
  have hchars : ∀ c ∈ r.text.toList, c ≠ 'A' ∧ c ≠ 'p' := by
    simpa [Record.lacksPhrases] using h
  refine Or.inr (Or.inr ⟨fun hin => ?_, fun hin => ?_⟩)
  · exact (hchars 'A' (hin.subset (by decide))).1 rfl
  · exact (hchars 'p' (hin.subset (by decide))).2 rfl

/-- The records of the two ioctls are legible. -/
theorem cacheIoctl_legible {t : List Answered}
    (h : (timingUnlockedIoctl timingIoctlCache).Traces t (.value 0)) (stamp : Stamp) :
    ∀ r ∈ logged t, (LogLine.entry ⟨stamp, r⟩).CycleLegible := by
  obtain ⟨heading, t', rfl, hheading, hstart⟩ := cacheIoctl_split h
  obtain ⟨runs, -, rfl⟩ := exists_cacheRuns hstart
  intro r hr
  rw [logged_append, hheading, logged, List.filterMap_flatMap] at hr
  rcases List.mem_append.mp hr with hr | hr
  · exact legible_of_notMem stamp (List.all_eq_true.mp (by decide +kernel) r hr)
  · obtain ⟨run, -, hr⟩ := List.mem_flatMap.mp hr
    obtain ⟨-, address, sum, hlogged, -⟩ := cacheTimingHandler_traces run.ran
    rw [← logged, hlogged, List.mem_singleton] at hr
    exact Or.inl ⟨address, run.offset, _, hr⟩

theorem memoryIoctl_legible {t : List Answered}
    (h : (timingUnlockedIoctl timingIoctlMemory).Traces t (.value 0)) (stamp : Stamp) :
    ∀ r ∈ logged t, (LogLine.entry ⟨stamp, r⟩).CycleLegible := by
  obtain ⟨heading, t', rfl, hheading, hstart⟩ := memoryIoctl_split h
  obtain ⟨array, hpages⟩ := memoryTimingStart_traces hstart
  intro r hr
  rw [logged_append, hheading] at hr
  rcases List.mem_append.mp hr with hr | hr
  · exact legible_of_notMem stamp (List.all_eq_true.mp (by decide +kernel) r hr)
  · obtain ⟨k, hk⟩ := List.mem_iff_getElem?.mp hr
    have hlt : k < 10 := by
      have hlength := (List.getElem?_eq_some_iff.mp hk).1
      rwa [memoryTimingStart_length hstart] at hlength
    obtain ⟨_, second, -, -, hreport⟩ := hpages k hlt
    obtain rfl := Option.some.inj (hk.symm.trans hreport)
    refine Or.inr (Or.inl ⟨_, _, rfl, ?_⟩)
    rwa [BitVec.toNat_ofNat, Nat.mod_eq_of_lt (Nat.lt_trans hlt (by decide))]

/-- A buffer at `base`, where every probe takes `cycles`. -/
def buffered (base cycles : BitVec 64) : (o : Op) → o.Res
  | .readVmem | .readVmemAligned => base
  | .access _ _ _ => cycles
  | o => quiet 0 ⟨0, 0⟩ o

/-- An ioctl on that machine. -/
def bufferedTrace (cmd : BitVec 32) : List Answered :=
  (Prog.respond (buffered 0x800000000000 50) (timingUnlockedIoctl cmd)).1

/-- Its lines. -/
def bufferedLines (cmd : BitVec 32) : List LogLine :=
  (logged (bufferedTrace cmd)).map fun r => .entry ⟨stampAt 1, r⟩

theorem bufferedLines_records (cmd : BitVec 32) :
    (bufferedLines cmd).filterMap (·.record?) = logged (bufferedTrace cmd) := by
  rw [bufferedLines, List.filterMap_map]
  exact List.filterMap_some

/-- A log of nothing else. -/
def bufferedTable (cmd : BitVec 32)
    (ran : (timingUnlockedIoctl cmd).Traces (bufferedTrace cmd) (.value 0))
    (legible : ∀ r ∈ logged (bufferedTrace cmd), (LogLine.entry ⟨stampAt 1, r⟩).CycleLegible)
    (unique : ∀ l ∈ (bufferedLines cmd).map (·.line), selects (stampAt 200).digits l = false)
    (last : ∀ l ∈ (bufferedLines cmd).map (·.line), selects "Inserting".toList l = false)
    (visible : (bufferedLines cmd).length ≤ 100000000) : TableLog cmd where
  earlier := []
  stamp := stampAt 200
  after := (bufferedLines cmd).map (·.line)
  unique := by rwa [List.nil_append]
  last := last
  since := bufferedLines cmd
  after_eq := rfl
  legible := by
    intro i hi
    obtain ⟨r, hr, rfl⟩ := List.mem_map.mp hi
    exact legible r hr
  before := []
  run := bufferedLines cmd
  later := []
  since_eq := by rw [List.append_nil, List.nil_append]
  visible := visible
  trace := bufferedTrace cmd
  ran := ran
  run_eq := bufferedLines_records cmd
  newest := nofun

theorem buffered_ran {cmd : BitVec 32}
    (h : (Prog.respond (buffered 0x800000000000 50) (timingUnlockedIoctl cmd)).2 = .value 0) :
    (timingUnlockedIoctl cmd).Traces (bufferedTrace cmd) (.value 0) := by
  rw [← h]
  exact Prog.traces_respond _ _

def bufferedCache : TableLog timingIoctlCache :=
  have hran := buffered_ran (by decide +kernel)
  bufferedTable _ hran (cacheIoctl_legible hran _) (by decide +kernel) (by decide +kernel)
    (by decide +kernel)

def bufferedMemory : TableLog timingIoctlMemory :=
  have hran := buffered_ran (by decide +kernel)
  bufferedTable _ hran (memoryIoctl_legible hran _) (by decide +kernel) (by decide +kernel)
    (by decide +kernel)

/-- The two tables of these logs. -/
theorem cacheTable_buffered : ∃ runs : List CacheRun,
    runs.map (·.offset) = [0, 64, 128, 256, 4096] ∧ runs.flatMap (·.trace) <:+ bufferedCache.trace ∧
      List.Forall₂ (fun figure run => figure =
        (Nat.repr (totalCycles run.trace / cacheCount)).toList ↔ totalCycles run.trace < 2 ^ 31)
        (bufferedCache.cacheArr (fun _ => 0) fun _ => 0) runs := by
  have hhigh : ∀ rec ∈ logged (bufferedTrace timingIoctlCache), rec.isHigh = true := by
    decide +kernel
  exact cacheTable_iff bufferedCache hhigh _ _

theorem memoryTable_buffered : ∃ m : MemoryRun, m.trace <:+ bufferedMemory.trace ∧ ∀ k : Fin 10,
    bufferedMemory.memoryArr (fun _ => 0) (fun _ => 0) k = (Nat.repr (m.second k)).toList ↔
      m.second k < 2 ^ 31 :=
  memoryTable_iff bufferedMemory (fun _ => 0) fun _ => 0

end EcrToolkit
