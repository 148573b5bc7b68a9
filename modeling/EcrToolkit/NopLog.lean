import EcrToolkit.Handlers
import EcrToolkit.KernelLog
import EcrToolkit.NopTimer
import Mathlib.Data.List.Chain

/-!
# What `nop_parse` finds

The module reports the measurement of an instruction in one of two forms: a record
with the label and a second one with the number, which the NOP thread logs, or a
single record with the label and `0`.  `nop_parse` reads the last word of the line
after the label in both cases.

`nopParse_eq_iff` says exactly when that is the number reported last: if the label
is followed by it, or if it is `0` and the next line happens to be another report
in one record.
-/
namespace EcrToolkit

open NopTimer (nopLoops)
open TextTools

/-! ## The runs -/

/-- The report of one measurement. -/
inductive NopReport
  /-- `pr_info("NOP_%s: ")` by the INSTR thread, then `pr_info("%lu\n")` by the NOP
  thread. -/
  | counted (name : String) (n : Nat)
  /-- `pr_info("NOP_%s: 0\n")`. -/
  | single (name : String)
  deriving DecidableEq

def NopReport.name : NopReport → String
  | .counted name _ | .single name => name

/-- The number reported. -/
def NopReport.value : NopReport → Nat
  | .counted _ n => n
  | .single _ => 0

def NopReport.records : NopReport → List Record
  | .counted name n => [.nopLabel name, .count n]
  | .single name => [.nopZero name]

/-- The timing loop is not left out for want of a CPU feature. -/
def TimingLoop.executed (bootCpuHas : Feature → Bool) (l : TimingLoop) : Bool :=
  match l.guard with
  | .bootFeature f => bootCpuHas f
  | _ => true

/-- A complete `TIMING_IOCTL_THREAD` (`action`) or `TIMING_IOCTL_THREAD_FL`: a report
for every loop of the table that is executed, each in either form. -/
structure NopRun where
  action : Bool
  bootCpuHas : Feature → Bool
  reports : List NopReport
  complete : reports.map (·.name) =
    ((nopLoops action).filter (·.executed bootCpuHas)).map (·.printName)

/-- What is logged before the first report. -/
def NopRun.heading (action : Bool) : List Record :=
  if action then
    [.openSucceeded, .commandReceived timingIoctlThread, .commencingNop, .aggregatingNop]
  else
    [.openSucceeded, .commandReceived timingIoctlThreadFl, .commencingNopFl, .aggregatingNopFl]

/-- The records of a run, from `timing_open` to `timing_release`. -/
def NopRun.records (u : NopRun) : List Record :=
  NopRun.heading u.action ++ (u.reports.flatMap (·.records) ++ [.releaseSucceeded])

/-- A log with any number of runs since the insertion. -/
structure NopLog extends InsertedLog where
  runs : List NopRun
  entries : List Entry
  after_eq : after = entries.map (·.line)
  records_eq : entries.map (·.record) = runs.flatMap (·.records)

/-- The most recent report of `x`. -/
def NopLog.latest (g : NopLog) (x : String) : Option NopReport :=
  ((g.runs.flatMap (·.reports)).filter (·.name = x)).getLast?

/-! ## What may follow a report -/

/-- The record has the label of `x`. -/
def Record.labels (x : String) (r : Record) : Bool := r = .nopLabel x || r = .nopZero x

/-- The last record with the label of `x`, and the one after it. -/
def lastReport (x : String) : List Record → Option (Record × Option Record)
  | [] => none
  | r :: rs => (lastReport x rs).or (if r.labels x then some (r, rs.head?) else none)

/-- The label of `x` is followed by `v`; or it stands in one record with `0`, with
nothing after it or another report in one record, and `v` is `0`. -/
def Readable (x : String) (v : Nat) (rs : List Record) : Prop :=
  match lastReport x rs with
  | some (.nopLabel _, some (.count n)) => n = v
  | some (.nopZero _, none) | some (.nopZero _, some (.nopZero _)) => v = 0
  | _ => False

theorem lastReport_eq_none {x : String} {rs : List Record} (h : lastReport x rs = none) :
    ∀ r ∈ rs, r.labels x = false := by
  induction rs with
  | nil => nofun
  | cons r rs ih =>
    rw [lastReport, Option.or_eq_none_iff] at h
    obtain ⟨hrs, hr⟩ := h
    refine List.forall_mem_cons.mpr ⟨?_, ih hrs⟩
    by_contra hlab
    rw [if_pos (Bool.not_eq_false _ ▸ hlab)] at hr
    cases hr

theorem lastReport_eq_some {x : String} {rs : List Record} {r : Record} {next : Option Record}
    (h : lastReport x rs = some (r, next)) :
    ∃ before after, rs = before ++ r :: after ∧ after.head? = next ∧ r.labels x = true ∧
      ∀ r' ∈ after, r'.labels x = false := by
  induction rs with
  | nil => cases h
  | cons d rs ih =>
    rw [lastReport, Option.or_eq_some_iff] at h
    rcases h with h | ⟨hnone, h⟩
    · obtain ⟨before, after, rfl, hrest⟩ := ih h
      exact ⟨d :: before, after, rfl, hrest⟩
    · by_cases hlab : d.labels x
      · rw [if_pos hlab] at h
        obtain ⟨rfl, rfl⟩ := Prod.mk.inj (Option.some.inj h)
        exact ⟨[], rs, rfl, rfl, hlab, lastReport_eq_none hnone⟩
      · rw [if_neg hlab] at h
        cases h

/-- What the module logs after a record. -/
def Follows : Record → Record → Prop
  | .nopLabel _, .count _ => True
  | .nopLabel _, _ => False
  | .nopZero _, .nopLabel _ | .nopZero _, .nopZero _ | .nopZero _, .releaseSucceeded => True
  | .nopZero _, _ => False
  | _, _ => True

theorem follows_reports (reports : List NopReport) {rs : List Record}
    (h : (.releaseSucceeded :: rs).IsChain Follows) :
    (reports.flatMap (·.records) ++ .releaseSucceeded :: rs).IsChain Follows := by
  induction reports with
  | nil => exact h
  | cons r reports ih =>
    cases r with
    | counted name n =>
      refine List.isChain_cons_cons.mpr ⟨trivial, ih.cons fun _ _ => trivial⟩
    | single name =>
      refine ih.cons fun next hnext => ?_
      cases reports with
      | nil =>
        obtain rfl := Option.some.inj hnext
        trivial
      | cons r' reports =>
        cases r' <;> obtain rfl := Option.some.inj hnext <;> trivial

theorem follows_heading (action : Bool) {rs : List Record} (h : rs.IsChain Follows) :
    (NopRun.heading action ++ rs).IsChain Follows := by
  cases action
  case true | false =>
    refine .cons (.cons (.cons (.cons h ?_) ?_) ?_) ?_
    all_goals exact fun _ _ => trivial

/-- **What follows a report**: the number after a label, the next report or the
release after a report in one record. -/
theorem follows_runs (runs : List NopRun) : (runs.flatMap (·.records)).IsChain Follows := by
  induction runs with
  | nil => exact .nil
  | cons u runs ih =>
    have hrelease : (.releaseSucceeded :: runs.flatMap (·.records)).IsChain Follows :=
      ih.cons fun _ _ => trivial
    rw [List.flatMap_cons, NopRun.records, List.append_assoc, List.append_assoc]
    exact follows_heading u.action (follows_reports u.reports hrelease)

/-! ## Which lines have the label -/

/-- `NOP_`. -/
def nopPrefix : Line := ['N', 'O', 'P', '_']

/-- The records of the runs: reports of loops with a label that is not ambiguous, and
records in which no label stands. -/
def Record.Legible (r : Record) : Prop :=
  (∃ y, LabelSafe nopPrefix y.toList ∧ (r = .nopLabel y ∨ r = .nopZero y)) ∨
    ¬ nopPrefix <:+: r.text.toList

theorem nopLoops_safe (action : Bool) :
    ∀ l ∈ nopLoops action, LabelSafe nopPrefix l.printName.toList := by
  cases action
  case true | false => decide +kernel

theorem NopRun.name_safe (u : NopRun) {r : NopReport} (hr : r ∈ u.reports) :
    LabelSafe nopPrefix r.name.toList := by
  have hname : r.name ∈ u.reports.map (·.name) := List.mem_map_of_mem hr
  rw [u.complete] at hname
  obtain ⟨l, hl, hname⟩ := List.mem_map.mp hname
  rw [← hname]
  exact nopLoops_safe u.action l (List.mem_filter.mp hl).1

theorem legible_heading (action : Bool) : ∀ r ∈ NopRun.heading action, r.Legible := by
  intro r hr
  refine Or.inr ?_
  revert r
  cases action
  case true | false => decide +kernel

theorem NopRun.legible (u : NopRun) : ∀ r ∈ u.records, r.Legible := by
  intro r hr
  rcases List.mem_append.mp hr with hr | hr
  · exact legible_heading u.action r hr
  · rcases List.mem_append.mp hr with hr | hr
    · obtain ⟨p, hp, hr⟩ := List.mem_flatMap.mp hr
      have hsafe := u.name_safe hp
      cases p with
      | counted name n =>
        rcases List.mem_pair.mp hr with rfl | rfl
        · exact Or.inl ⟨name, hsafe, Or.inl rfl⟩
        · refine Or.inr fun hin => ?_
          have hmem : 'N' ∈ (Nat.repr n).toList := hin.subset (List.mem_cons_self ..)
          exact repr_notMem (by decide) hmem
      | single name =>
        obtain rfl := List.mem_singleton.mp hr
        exact Or.inl ⟨name, hsafe, Or.inr rfl⟩
    · obtain rfl := List.mem_singleton.mp hr
      exact Or.inr (by decide +kernel)

/-- What follows the label in the text of a report. -/
theorem nopLabel_text (y : String) :
    (Record.nopLabel y).text.toList = label nopPrefix y.toList ++ [' '] := by
  have htext : (Record.nopLabel y).text = "NOP_" ++ y ++ ": " := rfl
  rw [htext, String.toList_append, String.toList_append, label, List.append_assoc _ [':']]
  rfl

theorem nopZero_text (y : String) :
    (Record.nopZero y).text.toList = label nopPrefix y.toList ++ [' ', '0'] := by
  have htext : (Record.nopZero y).text = "NOP_" ++ y ++ ": 0" := rfl
  rw [htext, String.toList_append, String.toList_append, label, List.append_assoc _ [':']]
  rfl

/-- **`grep NOP_X:` selects the reports of `X`**, and nothing else. -/
theorem selects_label_iff {x : String} (hx : LabelSafe nopPrefix x.toList) (e : Entry)
    (he : e.record.Legible) :
    selects (label nopPrefix x.toList) e.line = e.record.labels x := by
  rcases he with ⟨y, hy, hr⟩ | hplain
  · obtain ⟨rest, hcolon, htext⟩ : ∃ rest, ':' ∉ rest ∧
        e.record.text.toList = label nopPrefix y.toList ++ rest := by
      rcases hr with hr | hr
      · exact ⟨[' '], by decide, hr ▸ nopLabel_text y⟩
      · exact ⟨[' ', '0'], by decide, hr ▸ nopZero_text y⟩
    rw [Entry.line, htext]
    by_cases hxy : x = y
    · subst hxy
      rw [selects_label_self]
      rcases hr with hr | hr <;> simp [hr, Record.labels]
    · rw [selects_label_of_ne e.stamp hx hy hcolon fun h => hxy (String.toList_inj.mp h)]
      rcases hr with hr | hr <;> simp [hr, Record.labels, Ne.symm hxy]
  · rw [Entry.line, selects_label_of_absent e.stamp hx hplain]
    refine (Bool.eq_false_iff.mpr fun hlab => hplain ?_).symm
    simp only [Record.labels, Bool.or_eq_true, decide_eq_true_eq] at hlab
    rcases hlab with hr | hr
    · rw [hr, nopLabel_text, label, List.append_assoc, List.append_assoc]
      exact (List.prefix_append _ _).isInfix
    · rw [hr, nopZero_text, label, List.append_assoc, List.append_assoc]
      exact (List.prefix_append _ _).isInfix

/-! ## What is read -/

/-- The entries `grep -A100000000` shows. -/
def NopLog.shown (g : NopLog) : List Entry := g.entries.take 100000000

theorem NopLog.legible (g : NopLog) : ∀ e ∈ g.entries, e.record.Legible := by
  intro e he
  have hr : e.record ∈ g.entries.map (·.record) := List.mem_map_of_mem he
  rw [g.records_eq] at hr
  obtain ⟨u, -, hr⟩ := List.mem_flatMap.mp hr
  exact u.legible _ hr

theorem NopLog.shown_legible (g : NopLog) : ∀ e ∈ g.shown, e.record.Legible :=
  fun e he => g.legible e (List.mem_of_mem_take he)

theorem NopLog.shown_follows (g : NopLog) : (g.shown.map (·.record)).IsChain Follows := by
  rw [NopLog.shown, List.map_take, g.records_eq]
  exact (follows_runs g.runs).take _

theorem NopLog.sinceInsertion_eq (g : NopLog) :
    sinceInsertion g.lines g.lines = g.stamp.inserting :: g.shown.map (·.line) := by
  have hall : g.after ⊆ g.after := List.Subset.refl _
  rw [InsertedLog.lines, g.sinceInsertion_dmesg hall hall, NopLog.shown, List.map_take,
    ← g.after_eq]

section
variable {x : String} (hx : LabelSafe nopPrefix x.toList) {es : List Entry}
include hx

/-- `grep NOP_X: -A 1 | tail -1` finds the line after the last report. -/
theorem lastLine_of_report (hes : ∀ e ∈ es, e.record.Legible) (first : Line) {r : Record}
    {next : Option Record} (h : lastReport x (es.map (·.record)) = some (r, next)) :
    ∃ t : Stamp, lastLine (grepAfter (label nopPrefix x.toList) 1 (first :: es.map (·.line))) =
      t.line (next.getD r).text.toList := by
  obtain ⟨before, after, heq, hnext, hlab, hafter⟩ := lastReport_eq_some h
  obtain ⟨es₁, es₂, rfl, -, heq⟩ := List.map_eq_append_iff.mp heq
  obtain ⟨e, es₃, rfl, rfl, rfl⟩ := List.map_eq_cons_iff.mp heq
  have hsel : selects (label nopPrefix x.toList) e.line = true := by
    rw [selects_label_iff hx e (hes e (by simp))]
    exact hlab
  have hnone : ∀ l ∈ es₃.map (·.line), selects (label nopPrefix x.toList) l = false := by
    intro l hl
    obtain ⟨e', he', rfl⟩ := List.mem_map.mp hl
    rw [selects_label_iff hx e' (hes e' (by simp [he']))]
    exact hafter _ (List.mem_map_of_mem he')
  rw [List.map_append, List.map_cons, ← List.cons_append, lastLine_grepAfter_one _ hsel hnone,
    ← hnext]
  cases es₃ with
  | nil => exact ⟨e.stamp, rfl⟩
  | cons e' es₃ => exact ⟨e'.stamp, rfl⟩

theorem lastLine_of_no_report (hes : ∀ e ∈ es, e.record.Legible)
    (h : lastReport x (es.map (·.record)) = none) :
    lastLine (grepAfter (label nopPrefix x.toList) 1 (es.map (·.line))) = [] := by
  have hnone : ∀ l ∈ es.map (·.line), selects (label nopPrefix x.toList) l = false := by
    intro l hl
    obtain ⟨e, he, rfl⟩ := List.mem_map.mp hl
    rw [selects_label_iff hx e (hes e he)]
    exact lastReport_eq_none h _ (List.mem_map_of_mem he)
  rw [grepAfter, grepAfterFrom_of_none false false 0 hnone]
  rfl

end

theorem lastWord_nopLabel (y : String) : lastWord (Record.nopLabel y).text.toList = [] := by
  rw [nopLabel_text]
  exact lastWord_blank _

theorem lastWord_nopZero (y : String) :
    lastWord (Record.nopZero y).text.toList = (Nat.repr 0).toList := by
  rw [nopZero_text, repr_zero]
  exact lastWord_append _ (List.cons_ne_nil _ _) (List.forall_mem_singleton.mpr rfl)

theorem lastWord_count (n : Nat) :
    lastWord (Record.count n).text.toList = (Nat.repr n).toList :=
  lastWord_self (repr_ne_nil n) repr_not_blank

/-- The line that is read. -/
theorem NopLog.nopParse_of_report (g : NopLog) {x : String} (hx : LabelSafe nopPrefix x.toList)
    {r : Record} {next : Option Record}
    (h : lastReport x (g.shown.map (·.record)) = some (r, next)) :
    nopParse g.lines g.lines (label nopPrefix x.toList) =
      lastWord (next.getD r).text.toList := by
  obtain ⟨t, ht⟩ := lastLine_of_report hx g.shown_legible g.stamp.inserting h
  rw [nopParse, g.sinceInsertion_eq, ht, t.lastWord_line]

theorem NopLog.nopParse_of_no_report (g : NopLog) {x : String}
    (hx : LabelSafe nopPrefix x.toList) (h : lastReport x (g.shown.map (·.record)) = none) :
    nopParse g.lines g.lines (label nopPrefix x.toList) = [] := by
  have hinserting : Record.inserting.Legible := Or.inr (by decide +kernel)
  have hes : ∀ e ∈ ⟨g.stamp, .inserting⟩ :: g.shown, e.record.Legible :=
    List.forall_mem_cons.mpr ⟨hinserting, g.shown_legible⟩
  have hnone : lastReport x ((⟨g.stamp, .inserting⟩ :: g.shown).map (·.record)) = none := by
    rw [List.map_cons, lastReport, h]
    rfl
  have hlast := lastLine_of_no_report hx hes hnone
  rw [nopParse, g.sinceInsertion_eq]
  exact congrArg lastWord hlast

/-- **What `nop_parse` reads as `v`.** -/
theorem NopLog.reads_iff (g : NopLog) {x : String} (hx : LabelSafe nopPrefix x.toList) (v : Nat) :
    nopParse g.lines g.lines (label nopPrefix x.toList) = (Nat.repr v).toList ↔
      Readable x v (g.shown.map (·.record)) := by
  cases h : lastReport x (g.shown.map (·.record)) with
  | none =>
    rw [g.nopParse_of_no_report hx h, Readable, h]
    exact ⟨fun he => repr_ne_nil v he.symm, False.elim⟩
  | some found =>
    obtain ⟨r, next⟩ := found
    obtain ⟨before, after, heq, hnext, hlab, -⟩ := lastReport_eq_some h
    have hfollows : ∀ s ∈ after.head?, Follows r s := by
      have hchain := g.shown_follows
      rw [heq] at hchain
      exact (List.isChain_cons.mp hchain.right_of_append).1
    rw [g.nopParse_of_report hx h, Readable, h]
    simp only [Record.labels, Bool.or_eq_true, decide_eq_true_eq] at hlab
    cases next with
    | none =>
      -- the report is the last line shown
      rcases hlab with rfl | rfl
      · rw [Option.getD_none, lastWord_nopLabel]
        exact ⟨fun he => repr_ne_nil v he.symm, False.elim⟩
      · rw [Option.getD_none, lastWord_nopZero, repr_inj]
        exact eq_comm
    | some s =>
      have hs := hfollows s hnext
      rw [Option.getD_some]
      rcases hlab with rfl | rfl
      · cases s
        case count n => rw [lastWord_count, repr_inj]
        all_goals exact hs.elim
      · cases s
        case nopLabel y =>
          rw [lastWord_nopLabel]
          exact ⟨fun he => repr_ne_nil v he.symm, False.elim⟩
        case nopZero y =>
          rw [lastWord_nopZero, repr_inj]
          exact eq_comm
        case releaseSucceeded =>
          refine ⟨fun he => ?_, False.elim⟩
          have hmem : 'u' ∈ (Nat.repr v).toList := by
            rw [← he]
            decide +kernel
          exact repr_notMem (by decide) hmem
        all_goals exact hs.elim

theorem NopLog.latest_split {g : NopLog} {x : String} {r : NopReport}
    (h : g.latest x = some r) : ∃ before after, g.runs.flatMap (·.reports) = before ++ r :: after ∧
      r.name = x ∧ ∀ r' ∈ after, r'.name ≠ x := by
  rw [NopLog.latest, List.getLast?_filter, List.find?_eq_some_iff_append] at h
  obtain ⟨hname, after, before, heq, hafter⟩ := h
  refine ⟨before.reverse, after.reverse, ?_, of_decide_eq_true hname, fun r' hr' => ?_⟩
  · rw [← List.reverse_reverse (g.runs.flatMap (·.reports)), heq]
    simp
  · simpa using hafter r' (List.mem_reverse.mp hr')

theorem NopLog.latest_safe {g : NopLog} {x : String} {r : NopReport} (h : g.latest x = some r) :
    LabelSafe nopPrefix x.toList := by
  obtain ⟨before, after, heq, hname, -⟩ := NopLog.latest_split h
  have hr : r ∈ g.runs.flatMap (·.reports) := by
    rw [heq]
    exact List.mem_append_right before List.mem_cons_self
  obtain ⟨u, -, hr⟩ := List.mem_flatMap.mp hr
  rw [← hname]
  exact u.name_safe hr

/-! ## Logs that are shown in full -/

theorem lastReport_append {x : String} (before : List Record) {r : Record} {after : List Record}
    (hlab : r.labels x = true) (hafter : ∀ r' ∈ after, r'.labels x = false) :
    lastReport x (before ++ r :: after) = some (r, after.head?) := by
  have hnone : lastReport x after = none := by
    induction after with
    | nil => rfl
    | cons s after ih =>
      obtain ⟨hs, hrest⟩ := List.forall_mem_cons.mp hafter
      rw [lastReport, ih hrest, hs]
      rfl
  induction before with
  | nil =>
    rw [List.nil_append, lastReport, hnone, if_pos hlab]
    rfl
  | cons d before ih =>
    rw [List.cons_append, lastReport, ih]
    rfl

theorem NopReport.name_of_labels {x : String} {reports : List NopReport} {s : Record}
    (hs : s ∈ reports.flatMap (·.records)) (hlab : s.labels x = true) :
    ∃ r ∈ reports, r.name = x := by
  obtain ⟨r, hr, hs⟩ := List.mem_flatMap.mp hs
  refine ⟨r, hr, ?_⟩
  cases r with
  | counted name n =>
    rcases List.mem_pair.mp hs with rfl | rfl
    · simpa [Record.labels, NopReport.name] using hlab
    · cases hlab
  | single name =>
    obtain rfl := List.mem_singleton.mp hs
    simpa [Record.labels, NopReport.name] using hlab

theorem heading_not_labels (x : String) (action : Bool) :
    ∀ s ∈ NopRun.heading action, s.labels x = false := by
  cases action
  case true | false =>
    refine List.forall_mem_cons.mpr ⟨rfl, List.forall_mem_cons.mpr ⟨rfl, ?_⟩⟩
    exact List.forall_mem_cons.mpr ⟨rfl, List.forall_mem_singleton.mpr rfl⟩

theorem NopRun.name_of_labels {x : String} {runs : List NopRun} {s : Record}
    (hs : s ∈ runs.flatMap (·.records)) (hlab : s.labels x = true) :
    ∃ r ∈ runs.flatMap (·.reports), r.name = x := by
  obtain ⟨u, hu, hs⟩ := List.mem_flatMap.mp hs
  rcases List.mem_append.mp hs with hs | hs
  · rw [heading_not_labels x u.action s hs] at hlab
    cases hlab
  · rcases List.mem_append.mp hs with hs | hs
    · obtain ⟨r, hr, hname⟩ := NopReport.name_of_labels hs hlab
      exact ⟨r, List.mem_flatMap.mpr ⟨u, hu, hr⟩, hname⟩
    · obtain rfl := List.mem_singleton.mp hs
      cases hlab

/-- A report and what is logged after it. -/
theorem NopRun.records_split {runs : List NopRun} {before after : List NopReport} {r : NopReport}
    (h : runs.flatMap (·.reports) = before ++ r :: after) :
    ∃ earlier later, runs.flatMap (·.records) = earlier ++ (r.records ++ later) ∧ later ≠ [] ∧
      ∀ x, ∀ s ∈ later, s.labels x = true → ∃ r' ∈ after, r'.name = x := by
  induction runs generalizing before with
  | nil => simp at h
  | cons u runs ih =>
    rw [List.flatMap_cons] at h
    rcases List.append_eq_append_iff.mp h with ⟨as, rfl, hrest⟩ | ⟨bs, hu, hrest⟩
    · obtain ⟨earlier, later, heq, hlater⟩ := ih hrest
      refine ⟨u.records ++ earlier, later, ?_, hlater⟩
      rw [List.flatMap_cons, heq, List.append_assoc]
    · cases bs with
      | nil =>
        obtain ⟨earlier, later, heq, hlater⟩ := @ih [] hrest.symm
        refine ⟨u.records ++ earlier, later, ?_, hlater⟩
        rw [List.flatMap_cons, heq, List.append_assoc]
      | cons r' bs =>
        obtain ⟨rfl, rfl⟩ := List.cons.inj hrest
        refine ⟨NopRun.heading u.action ++ before.flatMap (·.records),
          bs.flatMap (·.records) ++ .releaseSucceeded :: runs.flatMap (·.records), ?_, by simp, ?_⟩
        · rw [List.flatMap_cons, NopRun.records, hu]
          simp
        · intro x s hs hlab
          rcases List.mem_append.mp hs with hs | hs
          · obtain ⟨r', hr', hname⟩ := NopReport.name_of_labels hs hlab
            exact ⟨r', List.mem_append_left _ hr', hname⟩
          · rcases List.mem_cons.mp hs with rfl | hs
            · cases hlab
            · obtain ⟨r', hr', hname⟩ := NopRun.name_of_labels hs hlab
              exact ⟨r', List.mem_append_right _ hr', hname⟩

/-- **The report read from a log that is shown in full**: one in two records is, one in
a single record is if another one in a single record comes next. -/
theorem NopLog.readable_iff_of_length_le (g : NopLog) {x : String} {r : NopReport}
    (h : g.latest x = some r) (hlen : g.after.length ≤ 100000000) :
    Readable x r.value (g.shown.map (·.record)) ↔ (∃ n, r = .counted x n) ∨
      ∃ y, lastReport x (g.entries.map (·.record)) = some (.nopZero x, some (.nopZero y)) := by
  have hshown : g.shown = g.entries := by
    rw [g.after_eq, List.length_map] at hlen
    exact List.take_of_length_le hlen
  obtain ⟨before, after, heq, rfl, hafter⟩ := NopLog.latest_split h
  obtain ⟨earlier, later, hrecords, hne, hlater⟩ := NopRun.records_split heq
  have hnone : ∀ s ∈ later, s.labels r.name = false := by
    intro s hs
    by_contra hlab
    obtain ⟨r', hr', hname⟩ := hlater r.name s hs (Bool.not_eq_false _ ▸ hlab)
    exact hafter r' hr' hname
  rw [hshown, g.records_eq, hrecords, Readable]
  cases r with
  | counted x n =>
    have hreport : lastReport (NopReport.counted x n).name
        (earlier ++ ((NopReport.counted x n).records ++ later)) =
          some (.nopLabel x, some (.count n)) :=
      lastReport_append earlier (by simp [Record.labels, NopReport.name])
        (List.forall_mem_cons.mpr ⟨rfl, hnone⟩)
    rw [hreport]
    exact ⟨fun _ => Or.inl ⟨n, rfl⟩, fun _ => rfl⟩
  | single x =>
    obtain ⟨s, later, rfl⟩ := List.exists_cons_of_ne_nil hne
    have hreport : lastReport (NopReport.single x).name
        (earlier ++ ((NopReport.single x).records ++ s :: later)) = some (.nopZero x, some s) :=
      lastReport_append earlier (by simp [Record.labels, NopReport.name]) hnone
    rw [hreport]
    constructor
    · intro hread
      cases s
      case nopZero y => exact Or.inr ⟨y, rfl⟩
      all_goals exact hread.elim
    · rintro (⟨n, hr⟩ | ⟨y, hs⟩)
      · cases hr
      · obtain rfl : s = .nopZero y := Option.some.inj (Prod.mk.inj (Option.some.inj hs)).2
        rfl

/-! ## The number reported last -/

/-- **The number reported last is read** if and only if its report is readable. -/
theorem nopParse_latest_iff (g : NopLog) {x : String} {r : NopReport} (h : g.latest x = some r) :
    nopParse g.lines g.lines (label nopPrefix x.toList) = (Nat.repr r.value).toList ↔
      Readable x r.value (g.shown.map (·.record)) :=
  g.reads_iff (NopLog.latest_safe h) r.value

/-- `TIMING_IOCTL_THREAD_FL` on two CPUs, with no buffer allocated. -/
def flushRun : NopRun where
  action := false
  bootCpuHas _ := false
  reports := [.single "CLFLUSH", .counted "SFENCE" 91, .counted "MFENCE" 87]
  complete := by decide

/-- The log of the second insertion of the module, with one run. -/
def flushLog : NopLog where
  earlier := [(stampAt 100).inserting]
  stamp := stampAt 200
  after := (flushRun.records.zipIdx 201).map fun e => (⟨stampAt e.2, e.1⟩ : Entry).line
  unique := by decide +kernel
  last := by decide +kernel
  runs := [flushRun]
  entries := (flushRun.records.zipIdx 201).map fun e => ⟨stampAt e.2, e.1⟩
  after_eq := List.map_map.symm
  records_eq := by decide +kernel

theorem nopParse_sfence :
    nopParse flushLog.lines flushLog.lines (label nopPrefix "SFENCE".toList) = "91".toList :=
  (nopParse_latest_iff flushLog (x := "SFENCE") (r := .counted "SFENCE" 91)
    (by decide +kernel)).mpr
    ((flushLog.readable_iff_of_length_le (by decide +kernel) (by decide +kernel)).mpr
      (Or.inl ⟨91, rfl⟩))

/-- **The number is not always read**: here `CLFLUSH` is reported in one record, and the
line after it is the label of `SFENCE`. -/
theorem nopParse_not_latest :
    ¬ ∀ (g : NopLog) (x : String) (r : NopReport), g.latest x = some r →
      nopParse g.lines g.lines (label nopPrefix x.toList) = (Nat.repr r.value).toList := by
  intro hall
  have hread := hall flushLog "CLFLUSH" (.single "CLFLUSH") (by decide +kernel)
  exact absurd hread (by decide +kernel)

end EcrToolkit
