import EcrToolkit.AllocationLog
import EcrToolkit.KmallocOutcome

/-!
# The addresses that are reported

`cache_timing_handler` flushes and probes `vmem_aligned + offset`, with the offset in
elements of eight bytes, and reports the address `offset` bytes above `vmem_aligned`.
`TIMING_IOCTL_KMALLOC` reports what `vmem` and `vmem_aligned` point to, not the pointers.
`reportedAddress_iff` says when these are the addresses that are measured.
-/
namespace EcrToolkit

open AtomicProgram Device TextTools

/-! ## `cache_timing_handler` -/

/-- Where memory was flushed. -/
def flushedAt : Answered → Option (BitVec 64)
  | ⟨.access _ .flush p, _⟩ => some p
  | _ => none

def flushes (t : List Answered) : List (BitVec 64) := t.filterMap flushedAt

/-- Whenever it is read, `vmem_aligned` is `base`. -/
def Based (base : BitVec 64) (t : List Answered) : Prop :=
  ∀ a : BitVec 64, (⟨.readVmemAligned, a⟩ : Answered) ∈ t → a = base

/-- A run of `cache_timing_handler(offset)` on a buffer. -/
structure BasedRun extends CacheRun where
  base : BitVec 64
  based : Based base trace

/-- The address flushed, the address probed and the address reported are the same, and
they are the base plus the offset reported. -/
def BasedRun.ReportsMeasured (r : BasedRun) : Prop :=
  ∃ address avg, logged r.trace = [.averageCycles address r.offset avg] ∧
    address = r.base + r.offset.signExtend 64 ∧
      (∀ p ∈ flushes r.trace, p = address) ∧ ∀ p ∈ probeResults r.trace, p.1 = address

/-- What the loop flushes and probes. -/
theorem cacheLoop_addresses {offset : BitVec 32} {base : BitVec 64} {n : Nat} {t : List Answered}
    {sum : BitVec 32} (h : (cacheLoop offset n).Traces t sum) (hbase : Based base t) :
    (∀ p ∈ flushes t, p = elementAddress base offset) ∧
      ∀ p ∈ probeResults t, p.1 = elementAddress base offset := by
  have hloop := cacheLoop_rule (P := fun _ _ t _ => Based base t →
    (∀ p ∈ flushes t, p = elementAddress base offset) ∧
      ∀ p ∈ probeResults t, p.1 = elementAddress base offset) ?_ ?_ h
  · exact hloop hbase
  · exact fun _ _ => ⟨nofun, nofun⟩
  · intro n avg a flushed a' cycles t sum hrest hbase
    obtain ⟨hflushes, hprobes⟩ := hrest fun x hx => hbase x (List.mem_append_right _ hx)
    obtain rfl := hbase a (by simp [cacheTurn])
    obtain rfl := hbase a' (by simp [cacheTurn])
    exact ⟨List.forall_mem_cons.mpr ⟨rfl, hflushes⟩, List.forall_mem_cons.mpr ⟨rfl, hprobes⟩⟩

/-- Seven divides no power of two. -/
theorem eq_zero_of_eight_mul {m n : Nat} (hm : m.Coprime 7) (hn : n < m) (h : 8 * n % m = n) :
    n = 0 := by
  have hdiv := Nat.div_add_mod (8 * n) m
  have hseven : 7 * n = m * (8 * n / m) := by omega
  exact Nat.eq_zero_of_dvd_of_lt (hm.dvd_of_dvd_mul_left ⟨_, hseven⟩) hn

/-- Elements of eight bytes and bytes agree at the base only. -/
theorem elementAddress_eq_iff (base : BitVec 64) (offset : BitVec 32) :
    elementAddress base offset = base + offset.signExtend 64 ↔ offset = 0 := by
  have hsigned : (0 : BitVec 64).toInt = (0 : BitVec 32).toInt := by decide
  have hzero : offset.signExtend 64 = 0 ↔ offset = 0 := by
    rw [← BitVec.toInt_inj, BitVec.toInt_signExtend_of_le (by decide), hsigned, BitVec.toInt_inj]
  rw [elementAddress, BitVec.add_right_inj, ← hzero]
  constructor
  · intro h
    have height : (8 : BitVec 64).toNat = 8 := by decide
    rw [← BitVec.toNat_inj, BitVec.toNat_mul, height] at h
    have hodd : (2 ^ 64).Coprime 7 := by decide
    exact BitVec.eq_of_toNat_eq (eq_zero_of_eight_mul hodd (BitVec.isLt _) h)
  · intro h
    rw [h]
    decide

/-- **A run reports the address it measures** if and only if its offset is zero. -/
theorem BasedRun.reportsMeasured_iff (r : BasedRun) : r.ReportsMeasured ↔ r.offset = 0 := by
  obtain ⟨t₁, sum, a, hloop, htrace⟩ := cacheTimingHandler_split r.ran
  obtain ⟨hlength, hlogged, -⟩ := cacheLoop_traces hloop
  have hbased := r.based
  rw [htrace] at hbased
  obtain ⟨hflushes, hprobes⟩ := cacheLoop_addresses hloop fun x hx =>
    hbased x (List.mem_append_left _ hx)
  obtain rfl : a = r.base := hbased a (List.mem_append_right _ (List.mem_cons_self ..))
  have hflushed : flushes r.trace = flushes t₁ := by
    rw [htrace, flushes, List.filterMap_append]
    exact List.append_nil _
  have hprobed : probeResults r.trace = probeResults t₁ := by
    rw [htrace, probeResults_append]
    exact List.append_nil _
  have hreported : logged r.trace = [.averageCycles (r.base + r.offset.signExtend 64)
      r.offset (sum.sdiv (BitVec.ofNat 32 cacheCount))] := by
    rw [htrace, logged_append, hlogged]
    rfl
  unfold BasedRun.ReportsMeasured
  rw [hflushed, hprobed, hreported, ← elementAddress_eq_iff r.base]
  constructor
  · rintro ⟨address, avg, -, hbase, -, hall⟩
    -- there is a first probe
    have hpos : 0 < (probeResults t₁).length := by
      rw [hlength]
      decide
    have hfirst := List.getElem_mem hpos
    rw [← hprobes _ hfirst, hall _ hfirst, hbase]
  · intro h
    rw [h] at hflushes hprobes
    exact ⟨_, _, rfl, rfl, hflushes, hprobes⟩

/-! ## `TIMING_IOCTL_KMALLOC` -/

/-- The machine performs these operations one after another, with these answers, and
takes the memory from `m` to `m'`. -/
inductive Performed (env : Env) (content : BitVec 64 → BitVec 64) :
    Memory → List Answered → Memory → Prop
  | nil (m : Memory) : Performed env content m [] m
  | cons {m m₁ m' : Memory} (o : Op) (r : o.Res) {t : List Answered}
    (h : perform (envAt env content o) m o = some (r, m₁)) (ht : Performed env content m₁ t m') :
    Performed env content m (⟨o, r⟩ :: t) m'

section
variable {env : Env} {content : BitVec 64 → BitVec 64} {m m' : Memory} {t t' : List Answered}

theorem performed_cons {o : Op} {r : o.Res} : Performed env content m (⟨o, r⟩ :: t) m' ↔
    ∃ m₁, perform (envAt env content o) m o = some (r, m₁) ∧ Performed env content m₁ t m' := by
  constructor
  · intro h
    cases h with
    | cons _ _ h ht => exact ⟨_, h, ht⟩
  · rintro ⟨m₁, h, ht⟩
    exact .cons o r h ht

theorem performed_append : Performed env content m (t ++ t') m' ↔
    ∃ m₁, Performed env content m t m₁ ∧ Performed env content m₁ t' m' := by
  constructor
  · intro h
    induction t generalizing m with
    | nil => exact ⟨m, .nil m, h⟩
    | cons e t ih =>
      obtain ⟨m₁, he, ht⟩ := performed_cons.mp h
      obtain ⟨m₂, h₁, h₂⟩ := ih ht
      exact ⟨m₂, .cons _ _ he h₁, h₂⟩
  · rintro ⟨m₁, h₁, h₂⟩
    induction h₁ with
    | nil => exact h₂
    | cons o r h _ ih => exact .cons o r h (ih h₂)

/-- **A call is a trace that the machine performs.** -/
theorem call_iff_performed {α : Type} {p : Code α} {a : α} : call env content m p = some (a, m') ↔
    ∃ t, p.Traces t a ∧ Performed env content m t m' := by
  constructor
  · intro h
    induction p generalizing m with
    | ret b =>
      obtain ⟨rfl, rfl⟩ := Prod.mk.inj (Option.some.inj h)
      exact ⟨[], .ret _, .nil _⟩
    | op o k ih =>
      obtain ⟨⟨r, m₁⟩, hr, hk⟩ := Option.bind_eq_some_iff.mp h
      obtain ⟨t, ht, hp⟩ := ih r hk
      exact ⟨_, .op o r ht, .cons o r hr hp⟩
  · rintro ⟨t, ht, hp⟩
    induction ht generalizing m with
    | ret a =>
      cases hp
      rfl
    | op o r _ ih =>
      obtain ⟨m₁, hr, hrest⟩ := performed_cons.mp hp
      exact Option.bind_eq_some_iff.mpr ⟨(r, m₁), hr, ih hrest⟩

/-- A load answers what the memory holds. -/
theorem Performed.word {via : Pointer} {q : BitVec 64} {x : BitVec 64}
    (h : Performed env content m (⟨.access via .word q, x⟩ :: t) m') :
    x = content q ∧ Performed env content m t m' := by
  obtain ⟨m₁, hperform, ht⟩ := performed_cons.mp h
  have hanswer : (if q ≠ 0 ∧ true = true then some (content q, m) else none) = some (x, m₁) :=
    hperform
  split at hanswer
  case isTrue =>
    obtain ⟨rfl, rfl⟩ := Prod.mk.inj (Option.some.inj hanswer)
    exact ⟨rfl, ht⟩
  case isFalse => cases hanswer

theorem Performed.readVmem {v : BitVec 64}
    (h : Performed env content m (⟨.readVmem, v⟩ :: t) m') :
    v = m.vmem ∧ Performed env content m t m' := by
  obtain ⟨m₁, hperform, ht⟩ := performed_cons.mp h
  obtain ⟨rfl, rfl⟩ := Prod.mk.inj (Option.some.inj hperform)
  exact ⟨rfl, ht⟩

theorem Performed.readVmemAligned {a : BitVec 64}
    (h : Performed env content m (⟨.readVmemAligned, a⟩ :: t) m') :
    a = m.vmemAligned ∧ Performed env content m t m' := by
  obtain ⟨m₁, hperform, ht⟩ := performed_cons.mp h
  obtain ⟨rfl, rfl⟩ := Prod.mk.inj (Option.some.inj hperform)
  exact ⟨rfl, ht⟩

/-- Operations that keep the memory find it as it was. -/
theorem Performed.based (h : Performed env content m t m')
    (hkeeps : ∀ e ∈ t, keepsMemory e.1 = true) : Based m.vmemAligned t := by
  induction h with
  | nil => exact nofun
  | @cons m m₁ m' o r t hperform _ ih =>
    have hsame := perform_keepsMemory (hkeeps _ (List.mem_cons_self ..)) hperform
    rw [hsame] at ih
    intro a ha
    rcases List.mem_cons.mp ha with ha | ha
    · cases ha
      cases hperform
      rfl
    · exact ih (fun e he => hkeeps e (List.mem_cons_of_mem _ he)) a ha

end

/-! ### What is measured -/

/-- In memory `m` the cache timing and the memory timing work on a buffer at `a`. -/
def MeasuresFrom (m : Memory) (a : BitVec 64) : Prop :=
  ∀ env content t m', Performed env content m t m' →
    (∀ r, cacheTimingStart.Traces t r → ∃ runs : List BasedRun, (∀ run ∈ runs, run.base = a) ∧
      runs.map (·.offset) = [0, 64, 128, 256, 4096] ∧ t = runs.flatMap (·.trace)) ∧
    ∀ r, memoryTimingStart.Traces t r → ∀ k < 10, PageReport a k k t

theorem Based.append {base : BitVec 64} {t t' : List Answered} (h : Based base (t ++ t')) :
    Based base t ∧ Based base t' :=
  ⟨fun a ha => h a (List.mem_append_left _ ha), fun a ha => h a (List.mem_append_right _ ha)⟩

/-- A timing that calls `cache_timing_handler` again and again. -/
theorem exists_runs {base : BitVec 64} {offset : BitVec 32} {q : Code Int} {t : List Answered}
    {r : Int} {offsets : List (BitVec 32)}
    (h : ((cacheTimingHandler offset).bind fun _ => q).Traces t r) (hbase : Based base t)
    (hq : ∀ t', q.Traces t' r → Based base t' → ∃ runs : List BasedRun,
      (∀ run ∈ runs, run.base = base) ∧ runs.map (·.offset) = offsets ∧
        t' = runs.flatMap (·.trace)) :
    ∃ runs : List BasedRun, (∀ run ∈ runs, run.base = base) ∧
      runs.map (·.offset) = offset :: offsets ∧ t = runs.flatMap (·.trace) := by
  obtain ⟨t₁, _, t₂, rfl, h₁, h₂⟩ := Prog.traces_bind.mp h
  obtain ⟨hbase₁, hbase₂⟩ := hbase.append
  obtain ⟨runs, hbases, rfl, rfl⟩ := hq t₂ h₂ hbase₂
  exact ⟨⟨⟨offset, t₁, h₁⟩, base, hbase₁⟩ :: runs, List.forall_mem_cons.mpr ⟨rfl, hbases⟩,
    rfl, rfl⟩

/-- **Both timings measure from `vmem_aligned`.** -/
theorem measuresFrom (m : Memory) : MeasuresFrom m m.vmemAligned := by
  intro env content t m' hperformed
  have hprobing : Allows timingIoctlCache (fun _ _ => True) (keepsMemory · = true) := by
    refine ⟨fun o ho => ?_, fun _ _ _ _ _ _ _ _ => rfl, fun _ _ _ _ _ _ _ => rfl⟩
    cases o
    case access => rfl
    all_goals exact ho
  constructor
  · intro r h
    have hbase := hperformed.based
      (ops_of_safe (hprobing.cacheTimingStart fun _ _ _ => rfl) h)
    refine exists_runs h hbase fun t h hbase => ?_
    refine exists_runs h hbase fun t h hbase => ?_
    refine exists_runs h hbase fun t h hbase => ?_
    refine exists_runs h hbase fun t h hbase => ?_
    refine exists_runs h hbase fun t h hbase => ?_
    obtain ⟨rfl, -⟩ := Prog.traces_ret.mp h
    exact ⟨[], nofun, rfl, rfl⟩
  · intro r h
    have hbase := hperformed.based
      (ops_of_safe (hprobing.memoryTimingStart fun _ _ _ => rfl) h)
    obtain ⟨array, t₁, rfl, h₁⟩ := Prog.traces_perform.mp h
    obtain rfl := hbase array (List.mem_cons_self ..)
    obtain ⟨t₂, _, t₃, rfl, hloop, h₃⟩ := Prog.traces_bind.mp h₁
    obtain ⟨rfl, -⟩ := Prog.traces_ret.mp h₃
    rw [List.append_nil]
    have hpages := memoryLoop_traces hloop
    exact hpages

/-! ### What is displayed -/

/-- The words in the record are those the two pointers point to. -/
theorem Performed.report {env : Env} {content : BitVec 64 → BitVec 64} {m m' : Memory}
    {v x a y : BitVec 64} (h : Performed env content m (allocationReport v x a y) m') :
    y = content m'.vmemAligned := by
  obtain ⟨-, h₁⟩ := h.readVmem
  obtain ⟨-, h₂⟩ := h₁.word
  obtain ⟨ha, h₃⟩ := h₂.readVmemAligned
  obtain ⟨hy, h₄⟩ := h₃.word
  obtain ⟨m₁, hlog, h₅⟩ := performed_cons.mp h₄
  cases hlog
  cases h₅
  rw [hy, ha]

/-- The value of a text of hexadecimal digits. -/
def hexValue (cs : Line) : Nat :=
  cs.foldl (fun n c => 16 * n + if c.isDigit then c.toNat - 48 else c.toNat - 87) 0

theorem hexValue_toDigits (n : Nat) : hexValue (Nat.toDigits 16 n) = n := by
  have hdigit : ∀ d < 16, (if d.digitChar.isDigit then d.digitChar.toNat - 48
    else d.digitChar.toNat - 87) = d := by decide
  induction n using Nat.strong_induction_on with
  | _ n ih =>
    rw [Nat.toDigits_eq_if (by decide)]
    split
    case isTrue hn =>
      rw [hexValue, List.foldl_cons, List.foldl_nil, hdigit n hn]
      omega
    case isFalse hn =>
      have hrest := ih (n / 16) (Nat.div_lt_self (by omega) (by decide))
      rw [hexValue] at hrest
      rw [hexValue, List.foldl_append, hrest, List.foldl_cons, List.foldl_nil,
        hdigit _ (Nat.mod_lt n (by decide))]
      omega

/-- `%p` prints different pointers differently. -/
theorem printedPointer_inj {p q : BitVec 64} (h : printedPointer p = printedPointer q) : p = q := by
  have hvalue : ∀ p : BitVec 64, hexValue (hexPointer p).toList = p.toNat := by
    intro p
    rw [hexPointer, String.toList_ofList, hexValue, List.foldl_append]
    have hzeros : ∀ k, (List.replicate k '0').foldl (fun n c =>
        16 * n + if c.isDigit then c.toNat - 48 else c.toNat - 87) 0 = 0 := by
      intro k
      induction k with
      | zero => rfl
      | succ k ih => exact ih
    rw [hzeros, ← hexValue, hexValue_toDigits]
  have hdigits := List.append_cancel_left h
  apply BitVec.eq_of_toNat_eq
  rw [← hvalue p, hdigits, hvalue]

/-- A successful `TIMING_IOCTL_KMALLOC`: the memory before and after, and the log. -/
structure AllocationReport where
  env : Env
  content : BitVec 64 → BitVec 64
  before : Memory
  after : Memory
  log : AllocationLog
  succeeded : log.ret = 0
  performed : Performed env content before log.trace after

/-- The script displays the address from which the timings then measure. -/
def AllocationReport.DisplaysMeasured (g : AllocationReport) : Prop :=
  MeasuresFrom g.after g.after.vmemAligned ∧
    allocationStep g.log.lines = some (printedPointer g.after.vmemAligned)

/-- The script displays the word that `vmem_aligned` points to. -/
theorem AllocationReport.step_eq (g : AllocationReport) :
    allocationStep g.log.lines = some (printedPointer (g.content g.after.vmemAligned)) := by
  have hran := g.log.ran
  have hperformed := g.performed
  rw [g.succeeded] at hran
  obtain ⟨t₁, t₂, htrace, hlogged, hverify⟩ := kmallocIoctl_split hran
  obtain ⟨t₃, t₄, rfl, hsilent, hend⟩ := kmallocVerify_split hverify
  obtain ⟨-, hret⟩ | ⟨v, x, a, y, rfl, -⟩ := hend
  · -- `-EFAULT` is no success
    exact absurd (Return.value.inj hret) (by decide)
  · have hrecords : logged g.log.trace = [.commandReceived timingIoctlKmalloc, .allocatingMemory,
        .memoryAllocated x y kmallocSize] := by
      rw [htrace, logged_append, logged_append, hlogged, hsilent]
      rfl
    rw [htrace] at hperformed
    obtain ⟨_, -, hlast⟩ := performed_append.mp hperformed
    obtain ⟨_, -, hreport⟩ := performed_append.mp hlast
    rw [g.log.step_of_allocated hrecords g.succeeded, hreport.report]

/-- `vmem_aligned` after a success. -/
theorem AllocationReport.vmemAligned_eq (g : AllocationReport) :
    g.after.vmemAligned = (g.before.buffer g.env.kmalloc).2 := by
  have hran := g.log.ran
  rw [g.succeeded] at hran
  have hcall := call_iff_performed.mpr ⟨_, hran, g.performed⟩
  rw [call_kmalloc, call_kmallocVerify] at hcall
  have hafter : g.after = g.before.allocate g.env.kmalloc := by
    split at hcall
    case isTrue => cases hcall
    split at hcall
    case isTrue => cases hcall
    split at hcall
    case isTrue => cases hcall
    split at hcall
    case isTrue => cases hcall
    exact (Prod.mk.inj (Option.some.inj hcall)).2.symm
  rw [hafter, Memory.allocate_vmemAligned]

/-- **An allocation displays the address that is measured** if and only if the buffer
holds that address. -/
theorem AllocationReport.displaysMeasured_iff (g : AllocationReport) : g.DisplaysMeasured ↔
    g.content (g.before.buffer g.env.kmalloc).2 = (g.before.buffer g.env.kmalloc).2 := by
  rw [AllocationReport.DisplaysMeasured, and_iff_right (measuresFrom _), g.step_eq,
    ← g.vmemAligned_eq]
  constructor
  · intro h
    exact printedPointer_inj (Option.some.inj h)
  · intro h
    rw [h]

/-- **When the addresses reported are the addresses measured**: at the offset zero, and
with a buffer that begins with its own address. -/
theorem reportedAddress_iff (r : BasedRun) (g : AllocationReport) :
    (r.ReportsMeasured ↔ r.offset = 0) ∧ (g.DisplaysMeasured ↔
      g.content (g.before.buffer g.env.kmalloc).2 = (g.before.buffer g.env.kmalloc).2) :=
  ⟨r.reportsMeasured_iff, g.displaysMeasured_iff⟩

/-! ### Two addresses that are not measured -/

/-- What a quiet machine answers with a buffer at `base`. -/
def quietAt (base : BitVec 64) : (o : Op) → o.Res
  | .readVmemAligned => base
  | o => quiet 0 ⟨0, 0⟩ o

/-- Every offset and every base occurs in a run. -/
theorem exists_basedRun (base : BitVec 64) (offset : BitVec 32) :
    ∃ r : BasedRun, r.base = base ∧ r.offset = offset := by
  obtain ⟨t, u, hran, hbased⟩ : ∃ t u, (cacheTimingHandler offset).Traces t u ∧ Based base t :=
    ⟨_, _, Prog.traces_respond (quietAt base) _, fun _ ha => Prog.respond_answers _ _ _ ha⟩
  exact ⟨⟨⟨offset, t, hran⟩, base, hbased⟩, rfl, rfl⟩

/-- Every successful call is reported. -/
theorem exists_allocationReport {env : Env} {content : BitVec 64 → BitVec 64} {m m' : Memory}
    (h : call env content m (timingUnlockedIoctl timingIoctlKmalloc) = some (.value 0, m')) :
    ∃ g : AllocationReport, g.env = env ∧ g.content = content ∧ g.before = m := by
  obtain ⟨t, ht, hperformed⟩ := call_iff_performed.mp h
  let records := Record.openSucceeded :: (logged t ++ [.releaseSucceeded])
  have hrecords : (records.map fun rec => (⟨stampAt 1, rec⟩ : Entry)).map (·.record) = records := by
    rw [List.map_map]
    exact List.map_id _
  exact ⟨⟨env, content, m, m', ⟨[], t, 0, ht, _, hrecords⟩, rfl, hperformed⟩, rfl, rfl, rfl⟩

/-- **Neither address is always right**: a buffer at `0x1000` that holds ones. -/
theorem reportedAddress_fails :
    (¬ ∀ r : BasedRun, r.ReportsMeasured) ∧ ¬ ∀ g : AllocationReport, g.DisplaysMeasured := by
  constructor
  · intro hall
    obtain ⟨r, -, hoffset⟩ := exists_basedRun 0x1000 64
    have h := r.reportsMeasured_iff.mp (hall r)
    rw [hoffset] at h
    exact absurd h (by decide)
  · intro hall
    have hcall : call (answering 0x1000) (fun _ => 1) .zero
        (timingUnlockedIoctl timingIoctlKmalloc) =
          some (.value 0, Memory.allocate .zero 0x1000) := by
      rw [call_kmalloc, call_kmallocVerify]
      rfl
    obtain ⟨g, henv, hcontent, hbefore⟩ := exists_allocationReport hcall
    have h := g.displaysMeasured_iff.mp (hall g)
    rw [henv, hcontent, hbefore] at h
    have haligned : (Memory.zero.buffer 0x1000).2 = 0x1000 := by decide +kernel
    have hword : (1 : BitVec 64) = (Memory.zero.buffer 0x1000).2 := h
    rw [haligned] at hword
    exact absurd hword (by decide)

end EcrToolkit
