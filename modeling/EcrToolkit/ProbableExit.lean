import EcrToolkit.Figures
import EcrToolkit.TimingTable
import EcrToolkit.Verdict

/-!
# From the threads to the column "Probable Exit"

`ecr.sh` measures, averages and compares.  Nothing is lost on the way: a wall figure is
below a second (`Iteration.values_lt`), there are at most as many turns as lines that can
be read, and so the signed words of `evaluate_exiting` are the means they stand for and
its two differences do not overflow.  What is left of the comparison is a rule about
means, `probableExit`: an instruction looks slow on a clock when twice its mean is above
the sum of the means of `CPUID` and `XOR`.

`exitFlag_eq_probableExit` is that rule for every run of the measurement loop.  An
instruction for which the module has reported nothing has the mean `0`, and so have the
baselines of a run with `-f`.
-/
namespace EcrToolkit

open AtomicProgram
open NopTimer (begun threadEvents)
open Expansion TextTools Transitions

/-! ## A wall figure is below a second -/

/-- A time that is logged is below a second. -/
def Op.Subsecond (o : Op) : Prop := ∀ name n, o.record? = some (.wall name n) → n < 1000000000

theorem Op.Subsecond.of_silent {o : Op} (h : o.record? = none) : o.Subsecond := by
  intro name n hr
  rw [h] at hr
  cases hr

theorem timingLoop_subsecond (l : TimingLoop) :
    Prog.Safe (fun _ _ => True) Op.Subsecond (timingLoop l) := by
  refine Prog.safe_op (.of_silent rfl) fun (tsStart : Timespec) _ => ?_
  refine (Prog.safe_forFrom (fun _ _ => ?_) _ _ _).bind fun _ => ?_
  · exact (call_silent _).mono (fun _ _ => id) fun _ => .of_silent
  · refine Prog.safe_op (.of_silent rfl) fun (tsEnd : Timespec) _ => ?_
    refine Prog.safe_op (fun name n hr => ?_) fun _ _ => Prog.safe_ret _
    obtain ⟨rfl, rfl⟩ := Record.wall.inj (Option.some.inj hr)
    obtain ⟨hnonneg, hlt⟩ := timespecSub_normalised tsEnd tsStart
    omega

theorem wallTimingLoop_subsecond (l : TimingLoop) :
    Prog.Safe (fun _ _ => True) Op.Subsecond (wallTimingLoop l) := by
  have hloop := timingLoop_subsecond l
  unfold wallTimingLoop
  split
  case h_1 => exact hloop
  case h_2 =>
    refine Prog.safe_op (.of_silent rfl) fun _ _ => Prog.safe_op (.of_silent rfl) fun _ _ => ?_
    refine hloop.bind fun _ => ?_
    exact Prog.safe_op (.of_silent rfl) fun _ _ => Prog.safe_op (.of_silent rfl) fun _ _ =>
      Prog.safe_ret _
  case h_3 =>
    refine Prog.safe_op (.of_silent rfl) fun (has : Bool) _ => ?_
    show Prog.Safe _ _ (if has = true then timingLoop l else .ret ())
    split
    · exact hloop
    · exact Prog.safe_ret _
  case h_4 =>
    refine Prog.safe_op (.of_silent rfl) fun (a : BitVec 64) _ => ?_
    show Prog.Safe _ _ (if a ≠ 0 then timingLoop l else prInfo _)
    split
    · exact hloop
    · exact Prog.safe_op (fun _ _ hr => by cases hr) fun _ _ => Prog.safe_ret _

theorem wallTimingLoops_subsecond (ls : List TimingLoop) :
    Prog.Safe (fun _ _ => True) Op.Subsecond (wallTimingLoops ls) := by
  induction ls with
  | nil => exact Prog.safe_ret _
  | cons l ls ih => exact (wallTimingLoop_subsecond l).bind fun _ => ih

/-- A record of the heading is logged. -/
theorem safe_heading {α : Type} {o : Op} {r : Record} (ho : o.record? = some r)
    (hr : r ∈ wallHeadings) {k : o.Res → Code α}
    (hk : ∀ res, Prog.Safe (fun _ _ => True) Op.Subsecond (k res)) :
    Prog.Safe (fun _ _ => True) Op.Subsecond (.op o k) := by
  refine Prog.safe_op (fun name n hwall => ?_) fun res _ => hk res
  obtain rfl := Option.some.inj (ho.symm.trans hwall)
  simp [wallHeadings] at hr

theorem bufferFlushStart_subsecond :
    Prog.Safe (fun _ _ => True) Op.Subsecond bufferFlushStart := by
  refine safe_heading rfl (by decide) fun _ => ?_
  exact (wallTimingLoops_subsecond _).bind fun _ => Prog.safe_ret _

theorem wallTimingStart_subsecond :
    Prog.Safe (fun _ _ => True) Op.Subsecond wallTimingStart := by
  refine Prog.safe_op (.of_silent rfl) fun (vmx : Bool) _ => ?_
  cases vmx
  case true | false =>
    refine safe_heading rfl (by decide) fun _ => safe_heading rfl (by decide) fun _ => ?_
    exact (wallTimingLoops_subsecond _).bind fun _ => Prog.safe_ret _

theorem wallIoctl_subsecond (flush : Bool) :
    Prog.Safe (fun _ _ => True) Op.Subsecond (timingUnlockedIoctl (wallCommand flush)) := by
  cases flush with
  | true =>
    refine safe_heading rfl (by decide) fun _ => safe_heading rfl (by decide) fun _ => ?_
    exact bufferFlushStart_subsecond.bind fun _ => Prog.safe_ret _
  | false =>
    refine safe_heading rfl (by decide) fun _ => safe_heading rfl (by decide) fun _ => ?_
    exact wallTimingStart_subsecond.bind fun _ => Prog.safe_ret _

theorem Iteration.values_lt (it : Iteration) (x : String) :
    ∀ v ∈ it.values x, v < 1000000000 := by
  intro v hv
  obtain ⟨r, hr, hvalue⟩ := List.mem_filterMap.mp hv
  obtain ⟨o, ho, hrecord⟩ := List.mem_filterMap.mp hr
  have hsubsecond := (wallIoctl_subsecond it.flush).runs (fun _ _ => trivial) it.ran o ho
  obtain ⟨report, rfl, -, rfl⟩ := exists_report hvalue
  cases report with
  | measured name n => exact hsubsecond name n hrecord
  | zero name => exact (by decide : (0 : Nat) < 1000000000)

/-- What a run prints for one label. -/
theorem Iteration.values_sum_lt (it : Iteration) (x : String) :
    (it.values x).sum < 1000000000 := by
  have hlt := it.values_lt x
  have hlen := it.values_length_le x
  generalize it.values x = vs at hlt hlen
  match vs, hlen with
  | [], _ => exact (by decide : (0 : Nat) < 1000000000)
  | [v], _ => exact hlt v List.mem_cons_self

/-- A number is printed for a loop of the table. -/
theorem Iteration.mem_loops_of_value (it : Iteration) {x : String} {v : Nat}
    (h : v ∈ it.values x) : x ∈ (wallLoops it.flush).map (·.printName) := by
  obtain ⟨r, hr, hvalue⟩ := List.mem_filterMap.mp h
  obtain ⟨heading, rs, heq, hheading, reports, rfl, hsub⟩ := wallIoctl_shows it.flush _ _ it.ran
  rw [heq] at hr
  rcases List.mem_append.mp hr with hr | hr
  · rw [wallValue_eq_none x (wallHeadings_plain r (hheading r hr))] at hvalue
    cases hvalue
  · obtain ⟨report, hreport, rfl⟩ := List.mem_map.mp hr
    rw [report.wallValue_record] at hvalue
    obtain ⟨rfl, -⟩ := Option.ite_none_right_eq_some.mp hvalue
    exact hsub.subset (List.mem_map_of_mem hreport)

/-- A run reports loops of its table. -/
theorem NopRun.mem_loops_of_report (u : NopRun) {r : NopReport} (h : r ∈ u.reports) :
    r.name ∈ (NopTimer.nopLoops u.action).map (·.printName) := by
  have hmem : r.name ∈ u.reports.map (·.name) := List.mem_map_of_mem h
  rw [u.complete] at hmem
  exact (List.filter_sublist.map _).subset hmem

/-! ## What `nop_parse` finds of an instruction that is not reported -/

/-- The records of a WALL run do not have the label of a NOP run. -/
theorem Iteration.nopPlain (it : Iteration) :
    ∀ r ∈ it.wall.filterMap (·.record?), ¬ nopPrefix <:+: r.text.toList := by
  have hloops : ∀ flush, ∀ l ∈ wallLoops flush,
      ¬ nopPrefix <:+: label wallPrefix l.printName.toList := by
    intro flush
    cases flush
    case true | false => decide +kernel
  have hheadings : ∀ r ∈ wallHeadings, ¬ nopPrefix <:+: r.text.toList := by decide +kernel
  intro r hr
  rw [it.wall_eq] at hr
  rcases List.mem_cons.mp hr with rfl | hr
  · decide +kernel
  · rcases List.mem_append.mp hr with hr | hr
    · obtain ⟨heading, rs, heq, hheading, reports, rfl, hsub⟩ := wallIoctl_shows it.flush _ _ it.ran
      rw [heq] at hr
      rcases List.mem_append.mp hr with hr | hr
      · exact hheadings r (hheading r hr)
      · obtain ⟨report, hreport, rfl⟩ := List.mem_map.mp hr
        obtain ⟨l, hl, hname⟩ := List.mem_map.mp (hsub.subset (List.mem_map_of_mem hreport))
        rw [report.text]
        intro hin
        rcases infix_append_cons (by decide) hin with hin | hin
        · rw [← hname] at hin
          exact hloops it.flush l hl hin
        · exact repr_notMem (by decide) (hin.subset (List.mem_cons_self (a := 'N')))
    · obtain rfl := List.mem_singleton.mp hr
      decide +kernel

/-- A record without the prefix has no label. -/
theorem labels_of_plain (x : String) {r : Record} (h : ¬ nopPrefix <:+: r.text.toList) :
    r.labels x = false := by
  refine Bool.eq_false_iff.mpr fun hlab => h ?_
  rcases (by simpa [Record.labels] using hlab : r = .nopLabel x ∨ r = .nopZero x) with rfl | rfl
  · rw [nopLabel_text, label, List.append_assoc, List.append_assoc]
    exact (List.prefix_append _ _).isInfix
  · rw [nopZero_text, label, List.append_assoc, List.append_assoc]
    exact (List.prefix_append _ _).isInfix

/-- The records of a run that does not report `x`. -/
theorem NopRun.labels_of_not_reported (u : NopRun) {x : String}
    (h : ∀ r ∈ u.reports, r.name ≠ x) : ∀ r ∈ u.records, r.labels x = false := by
  intro r hr
  rcases List.mem_append.mp hr with hr | hr
  · rw [NopRun.heading] at hr
    split at hr
    case isTrue | isFalse =>
      simp only [List.mem_cons, List.not_mem_nil, or_false] at hr
      rcases hr with rfl | rfl | rfl | rfl <;> rfl
  · rcases List.mem_append.mp hr with hr | hr
    · refine Bool.eq_false_iff.mpr fun hlab => ?_
      obtain ⟨r', hr', hname⟩ := NopReport.name_of_labels hr hlab
      exact h r' hr' hname
    · obtain rfl := List.mem_singleton.mp hr
      rfl

/-- **No line of a turn has the label** of an instruction it does not report. -/
theorem Turn.selects_of_not_reported (t : Turn) {x : String} (hx : x ∈ instructions)
    (hforeign : ∀ i ∈ t.lines, i.NopUnlabelled) (h : ∀ r ∈ t.nopRun.reports, r.name ≠ x) :
    ∀ i ∈ t.lines, selects (label nopPrefix x.toList) i.line = false := by
  intro i hi
  have hline := hforeign i hi
  rcases List.mem_append.mp hi with hi | hi
  · refine selects_nop_eq_false hx hline fun r hr => ?_
    have hplain := t.nopPlain r (List.mem_filterMap.mpr ⟨i, hi, hr⟩)
    exact ⟨Or.inr hplain, labels_of_plain x hplain⟩
  · refine selects_nop_eq_false hx hline fun r hr => ?_
    have hmem : r ∈ t.nopRun.records := by
      have hmem : r ∈ t.rest.filterMap (·.record?) := List.mem_filterMap.mpr ⟨i, hi, hr⟩
      rw [t.rest_eq, t.nopRuns_eq, List.flatMap_singleton] at hmem
      exact hmem
    exact ⟨t.nopRun.legible r hmem, t.nopRun.labels_of_not_reported h r hmem⟩

/-- The elements of `nop_arr_X` are empty when nothing in the log has the label. -/
theorem nopArrFrom_of_not_reported {g : InsertedLog} {x : String} (hx : x ∈ instructions)
    {logged : List LogLine} {ts : List Turn}
    (hsub : (logged ++ ts.flatMap (·.lines)).map (·.line) ⊆ g.after)
    (hlen : (logged ++ ts.flatMap (·.lines)).length ≤ 100000000)
    (h : ∀ i ∈ logged ++ ts.flatMap (·.lines),
      selects (label nopPrefix x.toList) i.line = false) :
    nopArrFrom g x logged ts = List.replicate ts.length [] := by
  induction ts generalizing logged with
  | nil => rfl
  | cons t ts ih =>
    rw [List.flatMap_cons, ← List.append_assoc] at hsub hlen h
    have hpre : ∀ n, logged ++ (t.wall ++ (t.thread ++ t.others.take n)) <+:
        logged ++ t.lines ++ ts.flatMap (·.lines) := by
      intro n
      refine List.IsPrefix.trans ?_ (List.prefix_append _ _)
      rw [Iteration.lines, t.rest_split, List.prefix_append_right_inj,
        List.prefix_append_right_inj, List.prefix_append_right_inj]
      exact List.take_prefix n t.others
    have hin : ∀ n, (logged ++ (t.wall ++ (t.thread ++ t.others.take n))).map (·.line) ⊆ g.after :=
      fun n => List.Subset.trans (List.map_subset _ (hpre n).subset) hsub
    have hfirst : selects (label nopPrefix x.toList) g.stamp.inserting = false :=
      selects_label_of_absent g.stamp (instructions_nopSafe x hx) (by decide +kernel)
    have hnone : ∀ l ∈ g.stamp.inserting ::
        (logged ++ (t.wall ++ (t.thread ++ t.others.take (t.nopSecond x)))).map (·.line),
          selects (label nopPrefix x.toList) l = false := by
      refine List.forall_mem_cons.mpr ⟨hfirst, fun l hl => ?_⟩
      obtain ⟨i, hi, rfl⟩ := List.mem_map.mp hl
      exact h i ((hpre _).subset hi)
    have hshort := (hpre (t.nopSecond x)).length_le.trans hlen
    rw [nopArrFrom, ih hsub hlen h, nopParse, g.sinceInsertion_dmesg (hin _) (hin _),
      List.take_of_length_le (by rwa [List.length_map]), grepAfter,
      grepAfterFrom_of_none false false 0 hnone]
    exact congrArg (· :: _) echo_nil

/-! ## What the statistics loop reads -/

section
variable {ι : Type} [DecidableEq ι] (g : TimingLog ι)

/-- The samples of the statistics loop. -/
def TimingLog.samples (flush : Bool) : Samples where
  flush := flush
  samples
    | .wall, x => (words (scalar (g.wallArr x))).map shellNumber
    | .nop, x => (words (scalar (g.nopArr x))).map shellNumber

/-- `wall_avg_X` and `nop_avg_X`. -/
def TimingLog.avg : Clock → String → BitVec 64
  | .wall, x => g.wallAvg x
  | .nop, x => g.nopAvg x

theorem TimingLog.samples_avg {flush : Bool} {x : String} (hx : x ∈ instructionArray flush)
    (c : Clock) : (g.samples flush).avg c x = g.avg c x := by
  have hmem : x ∈ instructionArray (g.samples flush).flush := hx
  rw [Samples.avg, Vars.value, Samples.vars, statisticsLoop_avg, if_pos hmem]
  cases c
  case wall | nop => rfl

/-- Every turn has measured `X` on both clocks. -/
def TimingLog.Measured (x : String) : Prop :=
  ∀ t ∈ g.turns, t.values x ≠ [] ∧ ∃ c, .counted x c ∈ t.nopRun.reports

/-- No turn has reported anything for `X`. -/
def TimingLog.Unmeasured (x : String) : Prop :=
  ∀ t ∈ g.turns, t.values x = [] ∧ ∀ r ∈ t.nopRun.reports, r.name ≠ x

/-- The NOP threads have executed `n` `nop`s in the rounds of `X`, all calls together. -/
def TimingLog.Executed (x : String) (n : Nat) : Prop :=
  ∃ counts : List Nat,
    List.Forall₂ (fun i m => ∃ k, NopTimer.round NopTimer.wrap i x k <:+: threadEvents g.events ∧
      k.counted = m) (begun g.events) counts ∧ counts.sum = n

/-- The mean of the turns on one clock, rounded down. -/
def TimingLog.IsMean : Clock → String → Nat → Prop
  | .wall, x, m => m = (g.walls x).sum / g.turns.length
  | .nop, x, m => ∃ n, g.Executed x n ∧ m = n / g.turns.length

variable {g}

/-- What the WALL ioctls print adds up to a word, and to a good deal less. -/
theorem TimingLog.walls_sum_lt (hvisible : g.Visible) (x : String) : (g.walls x).sum < 2 ^ 63 := by
  have hsum : (g.walls x).sum ≤ 1000000000 * g.turns.length := by
    unfold TimingLog.walls
    generalize g.turns = ts
    induction ts with
    | nil => exact Nat.le_refl _
    | cons t ts ih =>
      have hlt := t.values_sum_lt x
      rw [List.flatMap_cons, List.sum_append, List.length_cons]
      omega
  have hturns := g.turns_length hvisible
  omega

/-- **The average is the mean** of an instruction that every turn has measured. -/
theorem TimingLog.avg_of_measured (hvisible : g.Visible) (hforeign : g.NopUnlabelled)
    (hadjoined : g.Adjoined) {x : String} (hx : x ∈ instructions) (hne : g.turns ≠ [])
    (hfits : ∀ n, g.Executed x n → n < 2 ^ 63) (h : g.Measured x) (c : Clock) :
    ∃ m : Nat, (g.avg c x).toInt = m ∧ g.IsMean c x m := by
  cases c with
  | wall =>
    have hmean := g.wallAvg_eq_mean_iff hvisible hx hne fun t ht => (h t ht).1
    exact ⟨_, hmean.mpr (g.walls_sum_lt hvisible x), rfl⟩
  | nop =>
    obtain ⟨counts, hcalls, hturns⟩ := g.exists_counts fun t ht => (h t ht).2
    have hexecuted : g.Executed x counts.sum := ⟨counts, hcalls, rfl⟩
    have hmean := g.nopAvg_eq_mean_iff hvisible hforeign hadjoined hx hne hturns
    exact ⟨_, hmean.mpr (hfits _ hexecuted), _, hexecuted, rfl⟩

/-- **The average is `0`** of an instruction that no turn has reported. -/
theorem TimingLog.avg_of_unmeasured (hvisible : g.Visible) (hforeign : g.NopUnlabelled)
    {x : String} (hx : x ∈ instructions) (h : g.Unmeasured x) (c : Clock) : g.avg c x = 0 := by
  cases c with
  | wall =>
    have harr : g.wallArr x = List.replicate (g.turns.map (·.toIteration)).length [] := by
      refine wallArrFrom_of_not_printed hx (g.inLog hvisible) rfl fun it hit => ?_
      obtain ⟨t, ht, rfl⟩ := List.mem_map.mp hit
      exact (h t ht).1
    show g.wallAvg x = 0
    rw [TimingLog.wallAvg, harr, statistics_of_empty _ fun e he => List.eq_of_mem_replicate he]
  | nop =>
    have harr : g.nopArr x = List.replicate g.turns.length [] := by
      obtain ⟨hsub, hlen⟩ := g.turns_visible hvisible
      refine nopArrFrom_of_not_reported hx hsub hlen fun i hi => ?_
      obtain ⟨t, ht, hi⟩ := List.mem_flatMap.mp hi
      exact t.selects_of_not_reported hx (hforeign t ht) (h t ht).2 i hi
    show g.nopAvg x = 0
    rw [TimingLog.nopAvg, harr, statistics_of_empty _ fun e he => List.eq_of_mem_replicate he]

end

/-! ## The rule -/

/-- The mean of `X` is beyond the midpoint of those of `CPUID` and `XOR`. -/
def LooksSlow (mean : String → Nat) (x : String) : Prop :=
  mean "CPUID" + mean "XOR" < 2 * mean x

instance (mean : String → Nat) (x : String) : Decidable (LooksSlow mean x) :=
  inferInstanceAs (Decidable (_ < _))

/-- What the column "Probable Exit" shows, by the means of the two clocks. -/
def probableExit (mean : Clock → String → Nat) (x : String) : String :=
  if x = "INB" ∨ x = "OUTB" then "-"
  else if LooksSlow (mean .wall) x ∧ LooksSlow (mean .nop) x then "X"
  else if LooksSlow (mean .wall) x ∨ LooksSlow (mean .nop) x then "?"
  else ""

/-- Words that are not negative do not overflow when they are subtracted. -/
theorem ssubOverflow_of_nonneg {a b : BitVec 64} (ha : 0 ≤ a.toInt) (hb : 0 ≤ b.toInt) :
    a.ssubOverflow b = false := by
  have ha' := a.toInt_lt
  have hb' := b.toInt_lt
  simp only [BitVec.ssubOverflow, Bool.or_eq_false_iff, decide_eq_false_iff_not]
  omega

/-- A clock compares the mean with the midpoint. -/
theorem clockSays_iff_looksSlow {mean : String → Nat} {x : String} {cpuid xor t : BitVec 64}
    (hcpuid : cpuid.toInt = mean "CPUID") (hxor : xor.toInt = mean "XOR")
    (ht : t.toInt = mean x) : clockSays cpuid xor t = true ↔ LooksSlow mean x := by
  have hsafe : NoOverflow cpuid xor t :=
    ⟨ssubOverflow_of_nonneg (by omega) (by omega), ssubOverflow_of_nonneg (by omega) (by omega)⟩
  rw [clockSays_iff hsafe, hcpuid, hxor, ht, LooksSlow]
  omega

/-- The flag is the rule, when the averages are the means and no file stands in for it. -/
theorem TableRun.exitFlag_eq {r : TableRun} {mean : Clock → String → Nat} {x : Instruction}
    (hcpuid : ∀ c, (r.avg c "CPUID").toInt = mean c "CPUID")
    (hxor : ∀ c, (r.avg c "XOR").toInt = mean c "XOR")
    (hx : ∀ c, (r.avg c x.1).toInt = mean c x.1)
    (hfiles : probableExit mean x.1 = "?" → Harmless (r.directory x) x) :
    r.exitFlag x = (probableExit mean x.1).toList := by
  have hclock := fun c => clockSays_iff_looksSlow (hcpuid c) (hxor c) (hx c)
  have hflag : r.exiting x.1 =
      if LooksSlow (mean .wall) x.1 ∧ LooksSlow (mean .nop) x.1 then "X"
      else if LooksSlow (mean .wall) x.1 ∨ LooksSlow (mean .nop) x.1 then "?" else "" := by
    rw [r.exiting_eq]
    simp only [Bool.and_eq_true, Bool.or_eq_true]
    exact if_congr (and_congr (hclock .wall) (hclock .nop)) rfl
      (if_congr (or_congr (hclock .wall) (hclock .nop)) rfl rfl)
  by_cases hport : x.1 = "INB" ∨ x.1 = "OUTB"
  · rw [TableRun.exitFlag, probableExit, if_pos hport, if_pos hport]
  · rw [probableExit, if_neg hport, ← hflag] at hfiles ⊢
    exact TableRun.exitFlag_of_kept hport hfiles

section
variable {ι : Type} [DecidableEq ι] {g : TimingLog ι}

/-- The two ioctls of every turn are those of the option. -/
def TimingLog.Runs (g : TimingLog ι) (flush : Bool) : Prop :=
  ∀ t ∈ g.turns, t.flush = flush ∧ t.nopRun.action = !flush

/-- A name that no loop of the table prints. -/
theorem TimingLog.Runs.unmeasured {flush : Bool} (h : g.Runs flush) {x : String}
    (hx : x ∉ (wallLoops flush).map (·.printName)) : g.Unmeasured x := by
  intro t ht
  obtain ⟨hflush, haction⟩ := h t ht
  refine ⟨List.eq_nil_iff_forall_not_mem.mpr fun v hv => hx ?_, fun r hr hname => hx ?_⟩
  · rw [← hflush]
    exact t.mem_loops_of_value hv
  · have htable : NopTimer.nopLoops (!flush) = wallLoops flush := by cases flush <;> rfl
    rw [← hname, ← htable, ← haction]
    exact t.nopRun.mem_loops_of_report hr

/-- The script measures `INVPCID`; the module has no loop for it. -/
theorem TimingLog.Runs.unmeasured_invpcid {flush : Bool} (h : g.Runs flush) :
    g.Unmeasured "INVPCID" := by
  refine h.unmeasured ?_
  cases flush
  case true | false => decide +kernel

/-- The means of all instructions. -/
theorem TimingLog.exists_mean (hvisible : g.Visible) (hforeign : g.NopUnlabelled)
    (hadjoined : g.Adjoined) (hne : g.turns ≠ [])
    (hfits : ∀ x n, g.Executed x n → n < 2 ^ 63) : ∃ mean : Clock → String → Nat,
      ∀ c, ∀ x ∈ instructions,
        (g.Measured x → (g.avg c x).toInt = mean c x ∧ g.IsMean c x (mean c x)) ∧
          (g.Unmeasured x → (g.avg c x).toInt = mean c x ∧ mean c x = 0) := by
  have hall : ∀ c x, ∃ m : Nat, x ∈ instructions →
      (g.Measured x → (g.avg c x).toInt = m ∧ g.IsMean c x m) ∧
        (g.Unmeasured x → (g.avg c x).toInt = m ∧ m = 0) := by
    intro c x
    by_cases hx : x ∈ instructions
    · by_cases hm : g.Measured x
      · obtain ⟨m, hmean⟩ :=
          TimingLog.avg_of_measured hvisible hforeign hadjoined hx hne (hfits x) hm c
        refine ⟨m, fun _ => ⟨fun _ => hmean, fun hu => ?_⟩⟩
        obtain ⟨t, ht⟩ := List.exists_mem_of_ne_nil _ hne
        exact absurd (hu t ht).1 (hm t ht).1
      · refine ⟨0, fun _ => ⟨fun hm' => absurd hm' hm, fun hu => ⟨?_, rfl⟩⟩⟩
        rw [TimingLog.avg_of_unmeasured hvisible hforeign hx hu c]
        rfl
    · exact ⟨0, fun hx' => absurd hx' hx⟩
  choose mean hmean using hall
  exact ⟨mean, hmean⟩

/-- With `-f` the baselines are not measured, and their variables are not set. -/
theorem TimingLog.baseline_of_flush {y : String} (hy : y ∈ ["CPUID", "XOR"]) :
    y ∉ instructionArray true ∧ (g.Runs true → g.Unmeasured y) := by
  have hout : ∀ y ∈ ["CPUID", "XOR"],
      y ∉ instructionArray true ∧ y ∉ (wallLoops true).map (·.printName) := by decide +kernel
  exact ⟨(hout y hy).1, fun h => h.unmeasured (hout y hy).2⟩

/-- What the script makes of the log. -/
def TimingLog.tableRun (g : TimingLog ι) (flush : Bool) (directory : Instruction → Directory)
    (other : Instruction → Line → Line) : TableRun where
  toSamples := g.samples flush
  directory := directory
  other := other

/-- **The column "Probable Exit"** of every run of the measurement loop, whatever the threads,
the clock and the log, unless files stand in for a `?`.  A mean is that of the nanoseconds the
WALL ioctls have printed or of the `nop`s that the NOP threads have executed in the rounds of the
instruction, and `0` for an instruction of which nothing is reported. -/
theorem exitFlag_eq_probableExit {flush : Bool} (directory : Instruction → Directory)
    (other : Instruction → Line → Line) (hvisible : g.Visible) (hforeign : g.NopUnlabelled)
    (hadjoined : g.Adjoined) (hne : g.turns ≠ []) (hruns : g.Runs flush)
    (hfits : ∀ x n, g.Executed x n → n < 2 ^ 63)
    (hbase : flush = false → g.Measured "CPUID" ∧ g.Measured "XOR") :
    ∃ mean : Clock → String → Nat,
      (∀ c, ∀ x ∈ instructions, g.Measured x → g.IsMean c x (mean c x)) ∧
      (∀ c, ∀ x ∈ instructions, g.Unmeasured x → mean c x = 0) ∧
      ∀ x : Instruction, x.1 ∈ instructionArray flush → g.Measured x.1 ∨ g.Unmeasured x.1 →
        (probableExit mean x.1 = "?" → Harmless (directory x) x) →
          (g.tableRun flush directory other).exitFlag x = (probableExit mean x.1).toList := by
  obtain ⟨mean, hmean⟩ := TimingLog.exists_mean hvisible hforeign hadjoined hne hfits
  refine ⟨mean, fun c x hx hm => ((hmean c x hx).1 hm).2,
    fun c x hx hu => ((hmean c x hx).2 hu).2, fun x hx hcase hfiles => ?_⟩
  have harray : ∀ y ∈ instructionArray flush, y ∈ instructions := by
    cases flush
    case true => exact fun y hy => List.mem_append_right _ hy
    case false => exact fun y hy => List.mem_append_left _ hy
  -- the averages of the script are the means
  have havg : ∀ y ∈ instructionArray flush, g.Measured y ∨ g.Unmeasured y → ∀ c,
      ((g.samples flush).avg c y).toInt = mean c y := by
    intro y hy hcase c
    rw [g.samples_avg hy]
    rcases hcase with hm | hu
    · exact ((hmean c y (harray y hy)).1 hm).1
    · exact ((hmean c y (harray y hy)).2 hu).1
  have hbaseline : ∀ y ∈ ["CPUID", "XOR"], ∀ c,
      ((g.samples flush).avg c y).toInt = mean c y := by
    intro y hy c
    have hin : ∀ y ∈ ["CPUID", "XOR"], y ∈ instructionArray false := by decide
    cases flush with
    | false =>
      refine havg y (hin y hy) (Or.inl ?_) c
      rcases List.mem_pair.mp hy with rfl | rfl
      · exact (hbase rfl).1
      · exact (hbase rfl).2
    | true =>
      obtain ⟨harr, hunmeasured⟩ := TimingLog.baseline_of_flush (g := g) hy
      have hmem : y ∈ instructions := List.mem_append_left _ (hin y hy)
      rw [Samples.avg_of_notMem c harr, ((hmean c y hmem).2 (hunmeasured hruns)).2]
      rfl
  exact TableRun.exitFlag_eq (hbaseline "CPUID" (by decide)) (hbaseline "XOR" (by decide))
    (havg x.1 hx hcase) hfiles

end

/-- A round has no more `nop`s than events. -/
theorem counted_le_of_round {ι : Type} {f : Nat → Nat} {i : ι} {x : String} {k : NopTimer.Nops}
    {evs : List (NopTimer.Event ι)} (h : NopTimer.round f i x k <:+: evs) :
    k.counted ≤ evs.length := by
  refine Nat.le_trans ?_ h.length_le
  simp only [NopTimer.round, NopTimer.answered, NopTimer.printing, NopTimer.labelled,
    NopTimer.called, NopTimer.inCall, NopTimer.armed, NopTimer.requested, NopTimer.nops,
    NopTimer.Nops.counted, List.length_append, List.length_cons, List.length_replicate,
    List.length_nil]
  omega

/-- The `nop`s executed are events of the run. -/
theorem TimingLog.Executed.le {ι : Type} [DecidableEq ι] {g : TimingLog ι} {x : String} {n : Nat}
    (h : g.Executed x n) : n ≤ (threadEvents g.events).length * (begun g.events).length := by
  obtain ⟨counts, hcalls, rfl⟩ := h
  generalize begun g.events = is at hcalls ⊢
  induction hcalls with
  | nil => exact Nat.zero_le _
  | @cons i m is counts hm _ ih =>
    obtain ⟨k, hround, rfl⟩ := hm
    have hle := counted_le_of_round hround
    rw [List.sum_cons, List.length_cons, Nat.mul_succ]
    omega

/-! ## A run without `-f` -/

/-- `TIMING_IOCTL_THREAD` on two CPUs, with no buffer allocated and no `nop` counted. -/
def standardRun : NopRun where
  action := true
  bootCpuHas _ := true
  reports := standardLoops.map fun l =>
    if l.guard = .kmalloc then .single l.printName else .counted l.printName 0
  complete := by decide +kernel

/-- The call, from its first statement to its return. -/
def completeStandardCall : List (NopTimer.Action Unit) :=
  [.begin () true] ++ List.replicate 11 (.call () none) ++ List.replicate 2 (.nop ()) ++
    List.replicate 3 (.instr () NopTimer.twoCpus) ++ standardLoops.flatMap (NopTimer.visit ()) ++
    [.instr () NopTimer.twoCpus] ++ List.replicate 2 (.call () none) ++
    List.replicate 2 (.nop ()) ++ List.replicate 2 (.call () none) ++
    [.instr () NopTimer.twoCpus, .call () none]

/-- What `TIMING_IOCTL_WALL` does when every operation takes 7 ns. -/
def standardOps : List Op := (Prog.exec (answer 7) 0 (timingUnlockedIoctl (wallCommand false))).1

/-- A turn with both. -/
def standardTurn : Turn where
  flush := false
  ops := standardOps
  ret := _
  ran := Prog.runs_exec (answer 7) 0 _
  wall := entriesFrom 300
    (.openSucceeded :: (standardOps.filterMap Op.record? ++ [.releaseSucceeded]))
  wall_eq := record?_entriesFrom _ _
  nopRuns := [standardRun]
  rest := entriesFrom 400 standardRun.records
  rest_eq := by
    rw [record?_entriesFrom]
    exact (List.append_nil _).symm
  unlabelled := by
    intro i hi
    rcases List.mem_append.mp hi with hi | hi
    · exact unlabelled_entriesFrom _ _ i hi
    · exact unlabelled_entriesFrom _ _ i hi
  firstRead _ := 0
  secondRead _ := 0
  nopRun := standardRun
  nopRuns_eq := rfl
  thread := entriesFrom 400 standardRun.records
  others := []
  rest_split := (List.append_nil _).symm
  others_eq := idleTurn.others_eq
  nopFirst _ := 0
  nopSecond _ := 0

theorem standardTurn_nopUnlabelled : ∀ i ∈ standardTurn.lines, i.NopUnlabelled := by
  intro i hi
  rcases List.mem_append.mp hi with hi | hi
  · exact nopUnlabelled_entriesFrom _ _ i hi
  · exact nopUnlabelled_entriesFrom _ _ i hi

/-- The log of that turn. -/
theorem exists_standardLog : ∃ g : TimingLog Unit, g.turns = [standardTurn] ∧ g.Visible ∧
    (threadEvents g.events).length * (begun g.events).length < 2 ^ 63 := by
  obtain ⟨evs, s, hrun, houtside, hrecords, hshort⟩ := System.Run.exists_of_exec NopTimer.system
    (fun s a => NopTimer.Creates s a ∧ NopTimer.Serial s a ∧
      NopTimer.SameCpu (fun _ => true) s a) NopTimer.initial completeStandardCall
    (fun evs s => (∀ i, ¬ (s.call i).pc.InSection) ∧
      NopTimer.recordsOf evs = ([standardTurn].map (·.nopRun)).flatMap (·.timed) ∧
        (threadEvents evs).length * (begun evs).length < 2 ^ 63) (by decide +kernel)
  let g : TimingLog Unit := {
    earlier := []
    stamp := stampAt 200
    after := ([standardTurn].flatMap (·.lines)).map (·.line)
    unique := by decide +kernel
    last := by decide +kernel
    turns := [standardTurn]
    after_eq := rfl
    features := fun _ => true
    events := evs
    state := s
    ran := hrun
    outside := houtside
    timed_eq := hrecords }
  have hvisible : g.Visible := by
    show (([standardTurn].flatMap (·.lines)).map (·.line)).length ≤ 100000000
    decide +kernel
  exact ⟨g, rfl, hvisible, hshort⟩

/-- `RDTSC` is as fast as both baselines, and nothing is reported of `INVPCID`. -/
theorem exitFlag_rdtsc : ∃ g : TimingLog Unit, g.turns = [standardTurn] ∧ g.Visible ∧
    g.NopUnlabelled ∧ g.Adjoined ∧
    ∃ mean : Clock → String → Nat, (∀ x ∈ ["CPUID", "XOR", "RDTSC"], mean .wall x = 707) ∧
      mean .wall "INVPCID" = 0 ∧ ∀ x : Instruction, x.1 ∈ ["RDTSC", "INVPCID"] →
        (g.tableRun false (fun _ => ⟨[], List.nodup_nil, nofun⟩) fun _ _ => []).exitFlag x =
          (probableExit mean x.1).toList := by
  obtain ⟨g, hturns, hvisible, hshort⟩ := exists_standardLog
  have hruns : g.Runs false := by
    rw [TimingLog.Runs, hturns]
    exact List.forall_mem_singleton.mpr ⟨rfl, rfl⟩
  have hforeign : g.NopUnlabelled := by
    rw [TimingLog.NopUnlabelled, hturns]
    exact List.forall_mem_singleton.mpr standardTurn_nopUnlabelled
  have hadjoined : g.Adjoined := by
    rw [TimingLog.Adjoined, hturns]
    exact List.forall_mem_singleton.mpr (adjoined_run standardRun 400)
  let d : Directory := ⟨[], List.nodup_nil, nofun⟩
  have hfiles : ∀ x, Harmless d x := fun x => ⟨nofun, nofun⟩
  have hmeasured : ∀ x ∈ ["CPUID", "XOR", "RDTSC"], x ∈ instructions ∧ g.Measured x := by
    intro x hx
    rw [TimingLog.Measured, hturns]
    have hturn : ∀ x ∈ ["CPUID", "XOR", "RDTSC"], x ∈ instructions ∧
        standardTurn.values x ≠ [] ∧ .counted x 0 ∈ standardTurn.nopRun.reports := by
      decide +kernel
    obtain ⟨hin, hwall, hnop⟩ := hturn x hx
    exact ⟨hin, List.forall_mem_singleton.mpr ⟨hwall, 0, hnop⟩⟩
  have hcpuid := (hmeasured "CPUID" (by decide)).2
  have hxor := (hmeasured "XOR" (by decide)).2
  obtain ⟨mean, hmean, hzero, hflag⟩ := exitFlag_eq_probableExit (fun _ => d) (fun _ _ => [])
    hvisible hforeign hadjoined (by rw [hturns]; nofun) hruns
    (fun x n h => h.le.trans_lt hshort) fun _ => ⟨hcpuid, hxor⟩
  refine ⟨g, hturns, hvisible, hforeign, hadjoined, mean, fun x hx => ?_,
    hzero .wall "INVPCID" (by decide) hruns.unmeasured_invpcid, fun x hx => ?_⟩
  · obtain ⟨hin, hmeas⟩ := hmeasured x hx
    have hwall : mean .wall x = (g.walls x).sum / g.turns.length := hmean .wall x hin hmeas
    have hturn : ∀ x ∈ ["CPUID", "XOR", "RDTSC"],
        ([standardTurn].flatMap (·.values x)).sum / 1 = 707 := by decide +kernel
    rw [hwall, TimingLog.walls, hturns]
    exact hturn x hx
  · have hboth : ∀ y ∈ ["RDTSC", "INVPCID"], y ∈ instructionArray false := by decide
    refine hflag x (hboth x.1 hx) ?_ fun _ => hfiles x
    rcases List.mem_pair.mp hx with hname | hname
    · rw [hname]
      exact Or.inl (hmeasured "RDTSC" (by decide)).2
    · rw [hname]
      exact Or.inr hruns.unmeasured_invpcid

end EcrToolkit
