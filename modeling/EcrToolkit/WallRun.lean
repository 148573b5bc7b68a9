import EcrToolkit.Handlers

/-!
# What a WALL ioctl logs

`timing_unlocked_ioctl` logs a few records before the first measurement, and then for
every loop of the table at most one record with its label: the time measured, `0`
for want of the buffer, or nothing for want of a CPU feature.
-/
namespace EcrToolkit

open AtomicProgram

/-- The record an operation logs. -/
def Op.record? : Op → Option Record
  | .prInfo r | .prAlert r => some r
  | _ => none

/-- The report of one measurement. -/
inductive WallReport
  /-- `pr_info("WALL_%s: %lu\n")`. -/
  | measured (name : String) (nsec : Nat)
  /-- `pr_info("WALL_%s: 0\n")`. -/
  | zero (name : String)
  deriving DecidableEq

def WallReport.name : WallReport → String
  | .measured name _ | .zero name => name

/-- The number reported. -/
def WallReport.value : WallReport → Nat
  | .measured _ nsec => nsec
  | .zero _ => 0

def WallReport.record : WallReport → Record
  | .measured name nsec => .wall name nsec
  | .zero name => .wallZero name

/-- The command of a run. -/
def wallCommand (flush : Bool) : BitVec 32 :=
  if flush then timingIoctlWallFl else timingIoctlWall

/-- The loops of `wall_timing_start` and of `buffer_flush_start`. -/
def wallLoops (flush : Bool) : List TimingLoop := if flush then flushLoops else standardLoops

/-- The records are reports of some of the loops, in their order. -/
def ReportsOf (ls : List TimingLoop) (rs : List Record) : Prop :=
  ∃ reports : List WallReport, rs = reports.map (·.record) ∧
    (reports.map (·.name)).Sublist (ls.map (·.printName))

/-- What is logged before the first report. -/
def wallHeadings : List Record :=
  [.commandReceived timingIoctlWall, .commandReceived timingIoctlWallFl, .commencingWall,
    .commencingWallFl, .vmxSupported, .vmxNotSupported, .aggregatingWall, .aggregatingWallFl]

/-- The records are some of the headings and then reports. -/
def HeadingAndReports (ls : List TimingLoop) (rs : List Record) : Prop :=
  ∃ heading reports, rs = heading ++ reports ∧ (∀ r ∈ heading, r ∈ wallHeadings) ∧
    ReportsOf ls reports

theorem call_silent (f : InstrF) :
    Prog.Safe (fun _ _ => True) (fun o : Op => o.record? = none) f.call := by
  cases f
  case movntdqa | movntdq | clflush =>
    exact Prog.safe_op rfl fun _ _ => Prog.safe_op rfl fun _ _ => Prog.safe_ret _
  all_goals exact Prog.safe_op rfl fun _ _ => Prog.safe_ret _

theorem ReportsOf.single {l : TimingLoop} (report : WallReport) (h : report.name = l.printName) :
    ReportsOf [l] [report.record] :=
  ⟨[report], rfl, by rw [List.map_singleton, h]; exact List.Sublist.refl _⟩

theorem ReportsOf.nil (ls : List TimingLoop) : ReportsOf ls [] := ⟨[], rfl, List.nil_sublist _⟩

theorem ReportsOf.append {ls ls' : List TimingLoop} {rs rs' : List Record} (h : ReportsOf ls rs)
    (h' : ReportsOf ls' rs') : ReportsOf (ls ++ ls') (rs ++ rs') := by
  obtain ⟨reports, rfl, hsub⟩ := h
  obtain ⟨reports', rfl, hsub'⟩ := h'
  refine ⟨reports ++ reports', List.map_append.symm, ?_⟩
  rw [List.map_append, List.map_append]
  exact hsub.append hsub'

theorem prInfo_shows {P : List Record → Prop} {r : Record} (h : P [r]) :
    Prog.Shows Op.record? P (prInfo r) := by
  have hr : (Op.prInfo r).record? = some r := rfl
  exact Prog.shows_seen hr fun _ => Prog.shows_ret h _

theorem timingLoop_shows (l : TimingLoop) :
    Prog.Shows Op.record? (ReportsOf [l]) (timingLoop l) := by
  refine Prog.shows_hidden rfl fun tsStart => ?_
  refine (Prog.Safe.shows (Prog.safe_forFrom (fun _ _ => call_silent _) _ _ _)).bind ?_
  rintro _ rs rfl
  refine Prog.shows_hidden rfl fun tsEnd => prInfo_shows ?_
  exact .single (.measured l.printName _) rfl

/-- A timing loop in its wrapper reports at most once. -/
theorem wallTimingLoop_shows (l : TimingLoop) :
    Prog.Shows Op.record? (ReportsOf [l]) (wallTimingLoop l) := by
  unfold wallTimingLoop
  split
  case h_1 => exact timingLoop_shows l
  case h_2 =>
    refine Prog.shows_hidden rfl fun _ => Prog.shows_hidden rfl fun _ => ?_
    refine (timingLoop_shows l).bind fun _ rs hrs => ?_
    refine Prog.shows_hidden rfl fun _ => Prog.shows_hidden rfl fun _ => Prog.shows_ret ?_ _
    rw [List.append_nil]
    exact hrs
  case h_3 f =>
    refine Prog.shows_hidden rfl fun (has : Bool) => ?_
    show Prog.Shows _ _ (if has = true then timingLoop l else .ret ())
    split
    · exact timingLoop_shows l
    · exact Prog.shows_ret (.nil _) _
  case h_4 =>
    refine Prog.shows_hidden rfl fun (a : BitVec 64) => ?_
    show Prog.Shows _ _ (if a ≠ 0 then timingLoop l else prInfo _)
    split
    · exact timingLoop_shows l
    · exact prInfo_shows (.single (.zero l.printName) rfl)

theorem wallTimingLoops_shows (ls : List TimingLoop) :
    Prog.Shows Op.record? (ReportsOf ls) (wallTimingLoops ls) := by
  induction ls with
  | nil => exact Prog.shows_ret (.nil _) _
  | cons l ls ih =>
    refine (wallTimingLoop_shows l).bind fun _ rs hrs => ?_
    exact ih.mono fun rs' hrs' => hrs.append hrs'

theorem HeadingAndReports.of_reports {ls : List TimingLoop} {rs : List Record}
    (h : ReportsOf ls rs) : HeadingAndReports ls rs := ⟨[], rs, rfl, nofun, h⟩

theorem HeadingAndReports.cons {ls : List TimingLoop} {rs : List Record} {r : Record}
    (hr : r ∈ wallHeadings) (h : HeadingAndReports ls rs) : HeadingAndReports ls (r :: rs) := by
  obtain ⟨heading, reports, rfl, hheading, hreports⟩ := h
  exact ⟨r :: heading, reports, rfl, List.forall_mem_cons.mpr ⟨hr, hheading⟩, hreports⟩

/-- A record of the heading is logged. -/
theorem shows_heading {α : Type} {ls : List TimingLoop} {o : Op} {r : Record}
    (ho : o.record? = some r) (hr : r ∈ wallHeadings) {k : o.Res → Code α}
    (hk : ∀ res, Prog.Shows Op.record? (HeadingAndReports ls) (k res)) :
    Prog.Shows Op.record? (HeadingAndReports ls) (.op o k) :=
  Prog.shows_seen ho fun res => (hk res).mono fun _ => .cons hr

theorem bufferFlushStart_shows :
    Prog.Shows Op.record? (HeadingAndReports flushLoops) bufferFlushStart := by
  refine shows_heading rfl (by decide) fun _ => ?_
  exact ((wallTimingLoops_shows flushLoops).mono fun _ => .of_reports).map _

theorem wallTimingStart_shows :
    Prog.Shows Op.record? (HeadingAndReports standardLoops) wallTimingStart := by
  have hrest : Prog.Shows Op.record? (HeadingAndReports standardLoops)
      (.op (.prInfo .aggregatingWall) fun _ => (wallTimingLoops standardLoops).bind fun _ =>
        .ret (0 : Int)) := by
    refine shows_heading rfl (by decide) fun _ => ?_
    exact ((wallTimingLoops_shows standardLoops).mono fun _ => .of_reports).map _
  refine Prog.shows_hidden rfl fun (vmx : Bool) => ?_
  cases vmx with
  | true => exact shows_heading rfl (by decide) fun _ => hrest
  | false => exact shows_heading rfl (by decide) fun _ => hrest

/-- **What a WALL ioctl logs**, whatever the clock, the boot CPU and `vmem_aligned` say. -/
theorem wallIoctl_shows (flush : Bool) :
    Prog.Shows Op.record? (HeadingAndReports (wallLoops flush))
      (timingUnlockedIoctl (wallCommand flush)) := by
  cases flush with
  | true =>
    refine shows_heading rfl (by decide) fun _ => shows_heading rfl (by decide) fun _ => ?_
    exact bufferFlushStart_shows.map _
  | false =>
    refine shows_heading rfl (by decide) fun _ => shows_heading rfl (by decide) fun _ => ?_
    exact wallTimingStart_shows.map _

end EcrToolkit
