import EcrToolkit.NopLog
import EcrToolkit.Script
import EcrToolkit.WallRun

/-!
# What the measurement loop collects

`ecr.sh` runs a WALL ioctl, reads the number of every instruction out of the log with
`wall_parse`, runs a NOP ioctl, and starts again.  The log only grows; every call of
`wall_parse` reads it twice from the beginning.

`wallArr_eq` says that element `i` of `wall_arr_X` is what run `i` has printed for `X`,
as long as no more than 100000000 lines follow the insertion of the module.
-/
namespace EcrToolkit

open AtomicProgram TextTools

/-! ## The log of the loop -/

/-- `WALL_`. -/
def wallPrefix : Line := ['W', 'A', 'L', 'L', '_']

/-- The instructions of both lists. -/
def instructions : List String := standardInstructions ++ flushInstructions

/-- A line of the log: a record of the module, or a line of somebody else. -/
inductive LogLine
  | entry (e : Entry)
  | foreign (l : Line)

namespace LogLine

def line : LogLine → Line
  | entry e => e.line
  | foreign l => l

def record? : LogLine → Option Record
  | entry e => some e.record
  | foreign _ => none

/-- A line of somebody else has none of the labels. -/
def Unlabelled : LogLine → Prop
  | entry _ => True
  | foreign l => ∀ x ∈ instructions, ¬ label wallPrefix x.toList <:+: l

instance : (i : LogLine) → Decidable i.Unlabelled
  | entry _ => inferInstanceAs (Decidable True)
  | foreign l => inferInstanceAs (Decidable (∀ x ∈ instructions, ¬ label wallPrefix x.toList <:+: l))

end LogLine

/-- One turn of the measurement loop.  `wall` is what is logged until the WALL ioctl has
returned and the device is closed, `rest` what is logged from there to the next turn; lines of
somebody else may stand anywhere.  `firstRead x` and `secondRead x` lines of `rest` are
there when `wall_parse` calls `dmesg` for `x`. -/
structure Iteration where
  flush : Bool
  ops : List Op
  ret : Return
  ran : Prog.Runs (timingUnlockedIoctl (wallCommand flush)) ops ret
  wall : List LogLine
  wall_eq : wall.filterMap (·.record?) =
    .openSucceeded :: (ops.filterMap Op.record? ++ [.releaseSucceeded])
  nopRuns : List NopRun
  rest : List LogLine
  rest_eq : rest.filterMap (·.record?) = nopRuns.flatMap (·.records)
  unlabelled : ∀ i ∈ wall ++ rest, i.Unlabelled
  firstRead : String → Nat
  secondRead : String → Nat

def Iteration.lines (it : Iteration) : List LogLine := it.wall ++ it.rest

/-- The number a record reports for `x`. -/
def Record.wallValue (x : String) : Record → Option Nat
  | .wall name nsec => if name = x then some nsec else none
  | .wallZero name => if name = x then some 0 else none
  | _ => none

/-- The numbers the run has printed for `x`. -/
def Iteration.values (it : Iteration) (x : String) : List Nat :=
  (it.ops.filterMap Op.record?).filterMap (·.wallValue x)

/-- The log of a run of the script. -/
structure WallLog extends InsertedLog where
  iterations : List Iteration
  after_eq : after = (iterations.flatMap (·.lines)).map (·.line)

/-- `wall_arr_X`, from the turn on before which `logged` has been logged. -/
def wallArrFrom (g : InsertedLog) (x : String) : (logged : List LogLine) → List Iteration →
    List Line
  | _, [] => []
  | logged, it :: its =>
    let dmesg n := g.dmesg ((logged ++ (it.wall ++ it.rest.take n)).map (·.line))
    wallParse (dmesg (it.firstRead x)) (dmesg (it.secondRead x)) (label wallPrefix x.toList) ::
      wallArrFrom g x (logged ++ it.lines) its

/-- `wall_arr_X`. -/
def WallLog.wallArr (g : WallLog) (x : String) : List Line :=
  wallArrFrom g.toInsertedLog x [] g.iterations

/-! ## Which lines have the label -/

def LogLine.wallValue (x : String) (i : LogLine) : Option Nat := i.record?.bind (·.wallValue x)

/-- The records of the runs: reports with a label that is not ambiguous, and records in
which no label stands. -/
def Record.WallLegible (r : Record) : Prop :=
  (∃ report : WallReport, LabelSafe wallPrefix report.name.toList ∧ r = report.record) ∨
    ¬ wallPrefix <:+: r.text.toList

theorem instructions_safe : ∀ x ∈ instructions, LabelSafe wallPrefix x.toList := by
  decide +kernel

theorem wallLoops_safe (flush : Bool) :
    ∀ l ∈ wallLoops flush, LabelSafe wallPrefix l.printName.toList := by
  cases flush
  case true | false => decide +kernel

theorem wallHeadings_plain : ∀ r ∈ wallHeadings, ¬ wallPrefix <:+: r.text.toList := by
  decide +kernel

theorem ReportsOf.legible {flush : Bool} {rs : List Record} (h : ReportsOf (wallLoops flush) rs) :
    ∀ r ∈ rs, r.WallLegible := by
  obtain ⟨reports, rfl, hsub⟩ := h
  intro r hr
  obtain ⟨report, hreport, rfl⟩ := List.mem_map.mp hr
  have hname : report.name ∈ reports.map (·.name) := List.mem_map_of_mem hreport
  obtain ⟨l, hl, hname⟩ := List.mem_map.mp (hsub.subset hname)
  exact Or.inl ⟨report, hname ▸ wallLoops_safe flush l hl, rfl⟩

/-- The records of a NOP run do not have the label of a WALL run. -/
theorem NopRun.wallPlain (u : NopRun) : ∀ r ∈ u.records, ¬ wallPrefix <:+: r.text.toList := by
  have hheading : ∀ action, ∀ r ∈ NopRun.heading action, ¬ wallPrefix <:+: r.text.toList := by
    intro action
    cases action
    case true | false => decide +kernel
  have hlabel : ∀ action, ∀ l ∈ NopTimer.nopLoops action,
      ¬ wallPrefix <:+: (Record.nopLabel l.printName).text.toList ∧
        ¬ wallPrefix <:+: (Record.nopZero l.printName).text.toList := by
    intro action
    cases action
    case true | false => decide +kernel
  intro r hr
  rcases List.mem_append.mp hr with hr | hr
  · exact hheading u.action r hr
  · rcases List.mem_append.mp hr with hr | hr
    · obtain ⟨p, hp, hr⟩ := List.mem_flatMap.mp hr
      have hname : p.name ∈ u.reports.map (·.name) := List.mem_map_of_mem hp
      rw [u.complete] at hname
      obtain ⟨l, hl, hname⟩ := List.mem_map.mp hname
      have hplain := hlabel u.action l (List.mem_filter.mp hl).1
      rw [hname] at hplain
      cases p with
      | counted name n =>
        rcases List.mem_pair.mp hr with rfl | rfl
        · exact hplain.1
        · intro hin
          have hmem : 'W' ∈ (Nat.repr n).toList := hin.subset (List.mem_cons_self ..)
          exact repr_notMem (by decide) hmem
      | single name =>
        obtain rfl := List.mem_singleton.mp hr
        exact hplain.2
    · obtain rfl := List.mem_singleton.mp hr
      decide +kernel

/-- The text of a report. -/
theorem WallReport.text (report : WallReport) : report.record.text.toList =
    label wallPrefix report.name.toList ++ ' ' :: (Nat.repr report.value).toList := by
  cases report with
  | measured name nsec =>
    have htext : (Record.wall name nsec).text = "WALL_" ++ name ++ ": " ++ Nat.repr nsec := rfl
    rw [WallReport.record, htext, String.toList_append, String.toList_append, String.toList_append,
      label, List.append_assoc _ [':'], List.append_assoc _ ": ".toList]
    rfl
  | zero name =>
    have htext : (Record.wallZero name).text = "WALL_" ++ name ++ ": 0" := rfl
    have hzero : (Nat.repr (WallReport.zero name).value).toList = ['0'] := repr_zero
    rw [WallReport.record, htext, String.toList_append, String.toList_append, label,
      List.append_assoc _ [':'], hzero]
    rfl

theorem WallReport.wallValue_record (report : WallReport) (x : String) :
    report.record.wallValue x = if report.name = x then some report.value else none := by
  cases report <;> rfl

/-- A record that reports a number. -/
theorem exists_report {x : String} {r : Record} {v : Nat} (h : r.wallValue x = some v) :
    ∃ report : WallReport, r = report.record ∧ report.name = x ∧ report.value = v := by
  cases r
  case wall name nsec =>
    obtain ⟨hname, hv⟩ := Option.ite_none_right_eq_some.mp h
    exact ⟨.measured name nsec, rfl, hname, Option.some.inj hv⟩
  case wallZero name =>
    obtain ⟨hname, hv⟩ := Option.ite_none_right_eq_some.mp h
    exact ⟨.zero name, rfl, hname, Option.some.inj hv⟩
  all_goals cases h

/-- A record without the prefix reports no number. -/
theorem wallValue_eq_none (x : String) {r : Record} (h : ¬ wallPrefix <:+: r.text.toList) :
    r.wallValue x = none := by
  refine Option.eq_none_iff_forall_ne_some.mpr fun v hv => h ?_
  obtain ⟨report, hr, -⟩ := exists_report hv
  rw [hr, report.text, label, List.append_assoc, List.append_assoc]
  exact (List.prefix_append _ _).isInfix

/-- A line of a run, or one of somebody else. -/
def LogLine.Legible : LogLine → Prop
  | .entry e => e.record.WallLegible
  | .foreign l => (LogLine.foreign l).Unlabelled

/-- **`grep WALL_X:` selects the lines that report a number for `X`**, and nothing else. -/
theorem selects_wall_iff {x : String} (hx : x ∈ instructions) {i : LogLine} (hi : i.Legible) :
    selects (label wallPrefix x.toList) i.line = (i.wallValue x).isSome := by
  have hsafe := instructions_safe x hx
  cases i with
  | foreign l => exact (selects_eq_false_iff hsafe.dot_notMem).mpr (hi x hx)
  | entry e =>
    show selects _ (e.stamp.line e.record.text.toList) = (e.record.wallValue x).isSome
    rcases hi with ⟨report, hy, hr⟩ | hplain
    · rw [hr, report.text, report.wallValue_record]
      by_cases hxy : report.name = x
      · rw [hxy, selects_label_self, if_pos rfl]
        rfl
      · have hcolon : ':' ∉ ' ' :: (Nat.repr report.value).toList := by
          rw [List.mem_cons, not_or]
          exact ⟨by decide, repr_notMem (by decide)⟩
        rw [selects_label_of_ne e.stamp hsafe hy hcolon fun h => hxy (String.toList_inj.mp h).symm,
          if_neg hxy]
        rfl
    · rw [selects_label_of_absent e.stamp hsafe hplain]
      refine (Option.isSome_eq_false_iff.mpr (Option.isNone_iff_eq_none.mpr ?_)).symm
      exact wallValue_eq_none x hplain

/-- The number is what comes after the colon. -/
theorem value_of_line {x : String} {i : LogLine} {v : Nat} (h : i.wallValue x = some v) :
    echo (afterLast [':', ' '] i.line) = (Nat.repr v).toList := by
  cases i with
  | foreign l => cases h
  | entry e =>
    obtain ⟨report, hr, rfl, rfl⟩ := exists_report (r := e.record) h
    have hline : (LogLine.entry e).line =
        ('[' :: e.stamp.text ++ [']', ' '] ++ (wallPrefix ++ report.name.toList)) ++
          ':' :: ([' '] ++ (Nat.repr report.value).toList) := by
      show e.stamp.line e.record.text.toList = _
      rw [hr, report.text, Stamp.line_eq, label]
      simp only [List.append_assoc, List.cons_append, List.nil_append]
    have hcolon : ¬ [':', ' '] <:+: [' '] ++ (Nat.repr report.value).toList := by
      intro hin
      have hmem : ':' ∈ [' '] ++ (Nat.repr report.value).toList := hin.subset List.mem_cons_self
      rcases List.mem_append.mp hmem with hmem | hmem
      · exact absurd (List.mem_singleton.mp hmem) (by decide)
      · exact repr_notMem (by decide) hmem
    rw [hline, afterLast_append _ hcolon]
    exact echo_singleton (repr_ne_nil _) repr_not_blank

/-- The last line with the label has the last number. -/
theorem echo_lastLine {x : String} (hx : x ∈ instructions) (first : Line)
    (hfirst : selects (label wallPrefix x.toList) first = false) {ls : List LogLine}
    (hls : ∀ i ∈ ls, i.Legible) :
    echo (afterLast [':', ' '] (lastLine (grep (label wallPrefix x.toList)
        (first :: ls.map (·.line))))) =
      ((ls.filterMap (·.wallValue x)).getLast?.map fun v => (Nat.repr v).toList).getD [] := by
  cases h : (ls.filterMap (·.wallValue x)).getLast? with
  | none =>
    have hnil := List.getLast?_eq_none_iff.mp h
    have hnone : ∀ l ∈ first :: ls.map (·.line), selects (label wallPrefix x.toList) l = false := by
      refine List.forall_mem_cons.mpr ⟨hfirst, fun l hl => ?_⟩
      obtain ⟨i, hi, rfl⟩ := List.mem_map.mp hl
      rw [selects_wall_iff hx (hls i hi), List.filterMap_eq_nil_iff.mp hnil i hi]
      rfl
    rw [lastLine_grep_of_none hnone]
    exact echo_nil
  | some v =>
    rw [List.getLast?_filterMap, List.findSome?_eq_some_iff] at h
    obtain ⟨after, i, before, heq, hi, hafter⟩ := h
    have hsplit : ls = before.reverse ++ i :: after.reverse := by
      rw [← List.reverse_reverse ls, heq]
      simp
    subst hsplit
    have hsel : selects (label wallPrefix x.toList) i.line = true := by
      rw [selects_wall_iff hx (hls i (by simp)), hi]
      rfl
    have hnone : ∀ l ∈ after.reverse.map (·.line),
        selects (label wallPrefix x.toList) l = false := by
      intro l hl
      obtain ⟨j, hj, rfl⟩ := List.mem_map.mp hl
      rw [selects_wall_iff hx (hls j (by simp [List.mem_reverse.mp hj])),
        hafter j (List.mem_reverse.mp hj)]
      rfl
    rw [List.map_append, List.map_cons, ← List.cons_append, lastLine_grep _ hsel hnone]
    exact value_of_line hi

/-! ## One turn of the loop -/

theorem Iteration.wall_legible (it : Iteration) :
    ∀ r ∈ it.wall.filterMap (·.record?), r.WallLegible := by
  intro r hr
  rw [it.wall_eq] at hr
  rcases List.mem_cons.mp hr with rfl | hr
  · exact Or.inr (by decide +kernel)
  · rcases List.mem_append.mp hr with hr | hr
    · obtain ⟨heading, reports, heq, hheading, hreports⟩ := wallIoctl_shows it.flush _ _ it.ran
      rw [heq] at hr
      rcases List.mem_append.mp hr with hr | hr
      · exact Or.inr (wallHeadings_plain r (hheading r hr))
      · exact hreports.legible r hr
    · obtain rfl := List.mem_singleton.mp hr
      exact Or.inr (by decide +kernel)

theorem Iteration.rest_legible (it : Iteration) :
    ∀ r ∈ it.rest.filterMap (·.record?), r.WallLegible := by
  intro r hr
  rw [it.rest_eq] at hr
  obtain ⟨u, -, hr⟩ := List.mem_flatMap.mp hr
  exact Or.inr (u.wallPlain r hr)

theorem Iteration.legible (it : Iteration) : ∀ i ∈ it.lines, i.Legible := by
  intro i hi
  cases i with
  | foreign l => exact it.unlabelled _ hi
  | entry e =>
    rcases List.mem_append.mp hi with hi | hi
    · exact it.wall_legible _ (List.mem_filterMap.mpr ⟨_, hi, rfl⟩)
    · exact it.rest_legible _ (List.mem_filterMap.mpr ⟨_, hi, rfl⟩)

theorem filterMap_wallValue (x : String) (ls : List LogLine) :
    ls.filterMap (·.wallValue x) = (ls.filterMap (·.record?)).filterMap (·.wallValue x) :=
  List.filterMap_filterMap.symm

theorem Iteration.wall_values (it : Iteration) (x : String) :
    it.wall.filterMap (·.wallValue x) = it.values x := by
  rw [filterMap_wallValue, it.wall_eq, List.filterMap_cons_none rfl, List.filterMap_append]
  exact List.append_nil _

/-- No number is reported until the next turn. -/
theorem Iteration.rest_values (it : Iteration) (x : String) :
    ∀ i ∈ it.rest, i.wallValue x = none := by
  have hnone : ∀ r ∈ it.rest.filterMap (·.record?), r.wallValue x = none := by
    intro r hr
    rw [it.rest_eq] at hr
    obtain ⟨u, -, hr⟩ := List.mem_flatMap.mp hr
    exact wallValue_eq_none x (u.wallPlain r hr)
  intro i hi
  cases i with
  | foreign l => rfl
  | entry e => exact hnone _ (List.mem_filterMap.mpr ⟨_, hi, rfl⟩)

theorem reports_length_le (x : String) {reports : List WallReport}
    (h : (reports.map (·.name)).Nodup) :
    ((reports.map (·.record)).filterMap (·.wallValue x)).length ≤ 1 := by
  induction reports with
  | nil => exact Nat.zero_le 1
  | cons report reports ih =>
    rw [List.map_cons, List.nodup_cons] at h
    obtain ⟨hnotMem, hnodup⟩ := h
    rw [List.map_cons]
    by_cases hx : report.name = x
    · -- no later report has this name
      have hnone : (reports.map (·.record)).filterMap (·.wallValue x) = [] := by
        refine List.filterMap_eq_nil_iff.mpr fun r hr => ?_
        obtain ⟨report', hreport', rfl⟩ := List.mem_map.mp hr
        rw [report'.wallValue_record, if_neg]
        intro hx'
        exact hnotMem (List.mem_map.mpr ⟨report', hreport', hx'.trans hx.symm⟩)
      have hsome : report.record.wallValue x = some report.value := by
        rw [report.wallValue_record, if_pos hx]
      rw [List.filterMap_cons_some hsome, hnone]
      exact Nat.le_refl 1
    · have hnone : report.record.wallValue x = none := by
        rw [report.wallValue_record, if_neg hx]
      rw [List.filterMap_cons_none hnone]
      exact ih hnodup

/-- **A run prints at most one number for a label.** -/
theorem Iteration.values_length_le (it : Iteration) (x : String) : (it.values x).length ≤ 1 := by
  obtain ⟨heading, rs, heq, hheading, reports, rfl, hsub⟩ := wallIoctl_shows it.flush _ _ it.ran
  have hnone : heading.filterMap (·.wallValue x) = [] :=
    List.filterMap_eq_nil_iff.mpr fun r hr =>
      wallValue_eq_none x (wallHeadings_plain r (hheading r hr))
  have hnodup : ((wallLoops it.flush).map (·.printName)).Nodup := by
    cases it.flush
    case true | false => decide +kernel
  rw [Iteration.values, heq, List.filterMap_append, hnone, List.nil_append]
  exact reports_length_le x (hnodup.sublist hsub)

/-! ## All turns -/

/-- What `wall_parse` returns: the number printed last, if there is one. -/
theorem InsertedLog.wallParse_eq (g : InsertedLog) {x : String} (hx : x ∈ instructions)
    {ls ls' : List LogLine} (hls : ls.map (·.line) ⊆ g.after)
    (hls' : ls'.map (·.line) ⊆ g.after) (hlen : ls'.length ≤ 100000000)
    (hlegible : ∀ i ∈ ls', i.Legible) :
    wallParse (g.dmesg (ls.map (·.line))) (g.dmesg (ls'.map (·.line)))
        (label wallPrefix x.toList) =
      ((ls'.filterMap (·.wallValue x)).getLast?.map fun v => (Nat.repr v).toList).getD [] := by
  have hinserting : ¬ wallPrefix <:+: Record.inserting.text.toList := by decide +kernel
  have hfirst : selects (label wallPrefix x.toList) g.stamp.inserting = false :=
    selects_label_of_absent g.stamp (instructions_safe x hx) hinserting
  have htake : (ls'.map (·.line)).take 100000000 = ls'.map (·.line) :=
    List.take_of_length_le (by rwa [List.length_map])
  rw [wallParse, g.sinceInsertion_dmesg hls hls', htake]
  exact echo_lastLine hx _ hfirst hlegible

/-- The turns from `its` on, after `logged`, are in the log and can all be seen. -/
structure InLog (g : InsertedLog) (logged : List LogLine) (its : List Iteration) : Prop where
  lines : (logged ++ its.flatMap (·.lines)).map (·.line) ⊆ g.after
  length : (logged ++ its.flatMap (·.lines)).length ≤ 100000000
  legible : ∀ i ∈ logged ++ its.flatMap (·.lines), i.Legible

theorem InLog.next {g : InsertedLog} {logged : List LogLine} {it : Iteration}
    {its : List Iteration} (h : InLog g logged (it :: its)) : InLog g (logged ++ it.lines) its := by
  obtain ⟨hlines, hlength, hlegible⟩ := h
  rw [List.flatMap_cons, ← List.append_assoc] at hlines hlength hlegible
  exact ⟨hlines, hlength, hlegible⟩

/-- What `wall_parse` returns in the first of the turns. -/
theorem InLog.wallParse_eq {g : InsertedLog} {logged : List LogLine} {it : Iteration}
    {its : List Iteration} (h : InLog g logged (it :: its)) {x : String} (hx : x ∈ instructions)
    (n n' : Nat) :
    wallParse (g.dmesg ((logged ++ (it.wall ++ it.rest.take n)).map (·.line)))
        (g.dmesg ((logged ++ (it.wall ++ it.rest.take n')).map (·.line)))
        (label wallPrefix x.toList) =
      ((logged.filterMap (·.wallValue x) ++ it.values x).getLast?.map fun v =>
        (Nat.repr v).toList).getD [] := by
  have hpre : ∀ m, logged ++ (it.wall ++ it.rest.take m) <+:
      logged ++ (it :: its).flatMap (·.lines) := by
    intro m
    rw [List.flatMap_cons, List.prefix_append_right_inj, Iteration.lines, List.append_assoc,
      List.prefix_append_right_inj]
    exact (List.take_prefix m it.rest).trans (List.prefix_append _ _)
  have hsub : ∀ m, (logged ++ (it.wall ++ it.rest.take m)).map (·.line) ⊆ g.after := fun m =>
    List.Subset.trans (List.map_subset _ (hpre m).subset) h.lines
  have hrest : (it.rest.take n').filterMap (·.wallValue x) = [] :=
    List.filterMap_eq_nil_iff.mpr fun i hi => it.rest_values x i (List.mem_of_mem_take hi)
  rw [g.wallParse_eq hx (hsub n) (hsub n') ((hpre n').length_le.trans h.length)
    fun i hi => h.legible i ((hpre n').subset hi)]
  rw [List.filterMap_append, List.filterMap_append, it.wall_values, hrest, List.append_nil]

/-- The elements of the array, when every run prints a number. -/
theorem wallArrFrom_of_printed {g : InsertedLog} {x : String} (hx : x ∈ instructions)
    {logged : List LogLine} {its : List Iteration} (h : InLog g logged its)
    (hprinted : ∀ it ∈ its, it.values x ≠ []) :
    wallArrFrom g x logged its =
      (its.flatMap (·.values x)).map fun v => (Nat.repr v).toList := by
  induction its generalizing logged with
  | nil => rfl
  | cons it its ih =>
    obtain ⟨hit, hits⟩ := List.forall_mem_cons.mp hprinted
    obtain ⟨v, hv⟩ : ∃ v, it.values x = [v] := by
      have hlen := it.values_length_le x
      have hpos := List.length_pos_iff.mpr hit
      exact List.length_eq_one_iff.mp (by omega)
    have hparse := h.wallParse_eq hx (it.firstRead x) (it.secondRead x)
    rw [hv, List.getLast?_concat] at hparse
    rw [wallArrFrom, ih h.next hits, hparse, List.flatMap_cons, hv]
    rfl

/-- The elements of the array, when no run prints a number. -/
theorem wallArrFrom_of_not_printed {g : InsertedLog} {x : String} (hx : x ∈ instructions)
    {logged : List LogLine} {its : List Iteration} (h : InLog g logged its)
    (hlogged : logged.filterMap (·.wallValue x) = []) (hnone : ∀ it ∈ its, it.values x = []) :
    wallArrFrom g x logged its = List.replicate its.length [] := by
  induction its generalizing logged with
  | nil => rfl
  | cons it its ih =>
    obtain ⟨hit, hits⟩ := List.forall_mem_cons.mp hnone
    have hrest : it.rest.filterMap (·.wallValue x) = [] :=
      List.filterMap_eq_nil_iff.mpr (it.rest_values x)
    have hnext : (logged ++ it.lines).filterMap (·.wallValue x) = [] := by
      rw [Iteration.lines, List.filterMap_append, List.filterMap_append, hlogged, it.wall_values,
        hit, hrest]
      rfl
    have hparse := h.wallParse_eq hx (it.firstRead x) (it.secondRead x)
    rw [hit, hlogged] at hparse
    rw [wallArrFrom, ih h.next hnext hits, hparse]
    rfl

/-- The whole loop. -/
theorem WallLog.inLog (g : WallLog) (hlen : g.after.length ≤ 100000000) :
    InLog g.toInsertedLog [] g.iterations where
  lines := by
    rw [List.nil_append, ← g.after_eq]
    exact List.Subset.refl _
  length := by
    rwa [g.after_eq, List.length_map] at hlen
  legible := by
    intro i hi
    obtain ⟨it, -, hi⟩ := List.mem_flatMap.mp hi
    exact it.legible i hi

/-- **The wall samples**: a label that every run prints has the numbers of the runs, in
their order; a label that no run prints has empty elements, and average and variance `0`. -/
theorem wallArr_eq (g : WallLog) (hlen : g.after.length ≤ 100000000) {x : String}
    (hx : x ∈ instructions) :
    ((∀ it ∈ g.iterations, it.values x ≠ []) →
      g.wallArr x = (g.iterations.flatMap (·.values x)).map fun v => (Nat.repr v).toList) ∧
    ((∀ it ∈ g.iterations, it.values x = []) →
      g.wallArr x = List.replicate g.iterations.length [] ∧
        ∀ value, statistics value (g.wallArr x) = (0, 0)) := by
  have hlog := g.inLog hlen
  refine ⟨wallArrFrom_of_printed hx hlog, fun hnone => ?_⟩
  have harr : g.wallArr x = List.replicate g.iterations.length [] :=
    wallArrFrom_of_not_printed hx hlog rfl hnone
  refine ⟨harr, fun value => statistics_of_empty value fun e he => ?_⟩
  rw [harr] at he
  exact List.eq_of_mem_replicate he

/-! ## Two logs -/

/-- No buffer, no CPU feature, and a clock that goes on with every operation. -/
def answer (tick : Nat) (n : Nat) : (o : Op) → o.Res
  | .readVmem | .readVmemAligned | .kmalloc _ | .access _ _ _ => (0 : BitVec 64)
  | .getnstimeofday => (⟨5, tick * n⟩ : Timespec)
  | .bootCpuHas _ | .cpuidVmx | .localIrqSave => false
  | .miscRegister => (0 : Int)
  | .prInfo _ | .prAlert _ | .writeVmem _ | .writeVmemAligned _ | .kfree _ | .execute _
  | .msleep | .localIrqDisable | .localIrqRestore _ | .localIrqEnable | .miscDeregister => ()

/-- What `TIMING_IOCTL_WALL_FL` does then. -/
def flushOps (tick : Nat) : List Op :=
  (Prog.exec (answer tick) 0 (timingUnlockedIoctl (wallCommand true))).1

/-- The records, one microsecond after the other. -/
def entriesFrom (n : Nat) (rs : List Record) : List LogLine :=
  (rs.zipIdx n).map fun e => .entry ⟨stampAt e.2, e.1⟩

theorem record?_entriesFrom (n : Nat) (rs : List Record) :
    (entriesFrom n rs).filterMap (·.record?) = rs := by
  induction rs generalizing n with
  | nil => rfl
  | cons r rs ih => exact congrArg (r :: ·) (ih (n + 1))

theorem unlabelled_entriesFrom (n : Nat) (rs : List Record) :
    ∀ i ∈ entriesFrom n rs, i.Unlabelled := by
  intro i hi
  obtain ⟨e, -, rfl⟩ := List.mem_map.mp hi
  trivial

/-- A turn whose run comes after `noise` lines of somebody else. -/
def flushTurn (tick n noise : Nat) : Iteration where
  flush := true
  ops := flushOps tick
  ret := _
  ran := Prog.runs_exec (answer tick) 0 _
  wall := List.replicate noise (.foreign "usb".toList) ++ entriesFrom n
    (.openSucceeded :: ((flushOps tick).filterMap Op.record? ++ [.releaseSucceeded]))
  wall_eq := by
    rw [List.filterMap_append, record?_entriesFrom,
      List.filterMap_eq_nil_iff.mpr fun i hi => by rw [List.eq_of_mem_replicate hi]; rfl]
    rfl
  nopRuns := [flushRun]
  rest := entriesFrom (n + 50) flushRun.records
  rest_eq := by
    rw [record?_entriesFrom]
    exact (List.append_nil _).symm
  unlabelled := by
    intro i hi
    rcases List.mem_append.mp hi with hi | hi
    · rcases List.mem_append.mp hi with hi | hi
      · rw [List.eq_of_mem_replicate hi]
        decide +kernel
      · exact unlabelled_entriesFrom _ _ i hi
    · exact unlabelled_entriesFrom _ _ i hi
  firstRead _ := 0
  secondRead _ := 0

/-- Two turns, after an earlier insertion with a number for `SFENCE`. -/
def flushSamples : WallLog where
  earlier := [(stampAt 100).inserting, (stampAt 101).line "WALL_SFENCE: 5".toList]
  stamp := stampAt 200
  after := ([flushTurn 7 300 0, flushTurn 9 400 1].flatMap (·.lines)).map (·.line)
  unique := by decide +kernel
  last := by decide +kernel
  iterations := [flushTurn 7 300 0, flushTurn 9 400 1]
  after_eq := rfl

theorem wallArr_flushSamples :
    flushSamples.wallArr "SFENCE" = ["707".toList, "909".toList] ∧
      flushSamples.wallArr "XOR" = [[], []] := by
  have hlen : flushSamples.after.length ≤ 100000000 := by decide +kernel
  obtain ⟨hprinted, -⟩ := wallArr_eq flushSamples hlen (x := "SFENCE") (by decide +kernel)
  obtain ⟨-, hnone⟩ := wallArr_eq flushSamples hlen (x := "XOR") (by decide +kernel)
  refine ⟨(hprinted (by decide +kernel)).trans (by decide +kernel), ?_⟩
  exact (hnone (by decide +kernel)).1

theorem flushTurn_wall (tick n noise : Nat) :
    (flushTurn tick n noise).wall.map (·.line) =
      List.replicate noise "usb".toList ++ (flushTurn tick n 0).wall.map (·.line) := by
  show List.map _ (List.replicate noise _ ++ _) = _
  rw [List.map_append, List.map_replicate]
  rfl

theorem flushTurn_lines (tick n noise : Nat) :
    (flushTurn tick n noise).lines.map (·.line) =
      List.replicate noise "usb".toList ++ (flushTurn tick n 0).lines.map (·.line) := by
  rw [Iteration.lines, Iteration.lines, List.map_append, List.map_append, flushTurn_wall,
    List.append_assoc]
  rfl

/-- What holds of the lines of somebody else and of the run holds of the turn. -/
theorem forall_mem_flushTurn {P : Line → Prop} {noise : Nat} (husb : P "usb".toList)
    (hrun : ∀ l ∈ (flushTurn 7 300 0).lines.map (·.line), P l) :
    ∀ l ∈ (flushTurn 7 300 noise).lines.map (·.line), P l := by
  intro l hl
  rw [flushTurn_lines] at hl
  rcases List.mem_append.mp hl with hl | hl
  · rwa [List.eq_of_mem_replicate hl]
  · exact hrun l hl

/-- One turn, whose run comes after `noise` lines of somebody else. -/
def noisyLog (noise : Nat) : WallLog where
  earlier := []
  stamp := stampAt 200
  after := (flushTurn 7 300 noise).lines.map (·.line)
  unique := by exact forall_mem_flushTurn (by decide +kernel) (by decide +kernel)
  last := by exact forall_mem_flushTurn (by decide +kernel) (by decide +kernel)
  iterations := [flushTurn 7 300 noise]
  after_eq := by rw [List.flatMap_singleton]

/-- The run is not seen. -/
theorem wallArr_noisyLog {noise : Nat} (h : 100000000 ≤ noise) {x : String}
    (hx : x ∈ instructions) : (noisyLog noise).wallArr x = [[]] := by
  have hsafe := instructions_safe x hx
  have hinserting : ¬ wallPrefix <:+: Record.inserting.text.toList := by decide +kernel
  have husb : 'W' ∉ "usb".toList := by decide +kernel
  have hsub : ∀ n, ([] ++ ((flushTurn 7 300 noise).wall ++
      (flushTurn 7 300 noise).rest.take n)).map (fun i : LogLine => i.line) ⊆
        (noisyLog noise).after := by
    intro n
    rw [List.nil_append]
    refine List.map_subset _ (List.append_subset.mpr ⟨List.subset_append_left _ _, ?_⟩)
    exact List.Subset.trans (List.take_subset _ _) (List.subset_append_right _ _)
  have htake : ∀ n, ∃ m, (([] ++ ((flushTurn 7 300 noise).wall ++
      (flushTurn 7 300 noise).rest.take n)).map (fun i : LogLine => i.line)).take 100000000 =
        List.replicate m "usb".toList := by
    intro n
    rw [List.nil_append, List.map_append, flushTurn_wall, List.append_assoc,
      List.take_append_of_le_length (by rwa [List.length_replicate]), List.take_replicate]
    exact ⟨_, rfl⟩
  have hnone : ∀ m, ∀ l ∈ (stampAt 200).inserting :: List.replicate m "usb".toList,
      selects (label wallPrefix x.toList) l = false := by
    refine fun m => List.forall_mem_cons.mpr ⟨?_, fun l hl => ?_⟩
    · exact selects_label_of_absent _ hsafe hinserting
    · rw [List.eq_of_mem_replicate hl]
      exact selects_of_notMem hsafe.dot_notMem husb
  have hlist : (noisyLog noise).iterations = [flushTurn 7 300 noise] := rfl
  have hstamp : (noisyLog noise).stamp = stampAt 200 := rfl
  rw [WallLog.wallArr, hlist, wallArrFrom, wallArrFrom]
  obtain ⟨m, hm⟩ := htake ((flushTurn 7 300 noise).secondRead x)
  rw [wallParse, (noisyLog noise).sinceInsertion_dmesg (hsub _) (hsub _), hm, hstamp,
    lastLine_grep_of_none (hnone m)]
  exact congrArg (fun l => [l]) echo_nil

/-- **Beyond 100000000 lines nothing is read**: the samples of a run that comes after them
are lost. -/
theorem wallArr_not_all :
    ¬ ∀ (g : WallLog) (x : String), x ∈ instructions →
      ((∀ it ∈ g.iterations, it.values x ≠ []) →
        g.wallArr x = (g.iterations.flatMap (·.values x)).map fun v => (Nat.repr v).toList) ∧
      ((∀ it ∈ g.iterations, it.values x = []) →
        g.wallArr x = List.replicate g.iterations.length [] ∧
          ∀ value, statistics value (g.wallArr x) = (0, 0)) := by
  intro hall
  have hprinted : (flushTurn 7 300 0).values "SFENCE" ≠ [] := by decide +kernel
  have harr := (hall (noisyLog 100000000) "SFENCE" (by decide +kernel)).1
    (List.forall_mem_singleton.mpr hprinted)
  rw [wallArr_noisyLog (Nat.le_refl _) (by decide +kernel)] at harr
  have hmem : [] ∈ ((noisyLog 100000000).iterations.flatMap (·.values "SFENCE")).map
      fun v => (Nat.repr v).toList := harr ▸ List.mem_singleton_self []
  obtain ⟨v, -, hv⟩ := List.mem_map.mp hmem
  exact repr_ne_nil v hv

end EcrToolkit
