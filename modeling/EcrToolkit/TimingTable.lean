import EcrToolkit.NopReports
import EcrToolkit.Statistics
import EcrToolkit.WallLog

/-!
# The table of `ecr.sh`

From the threads and the clock to a row of the table.  Every turn of the measurement loop
is one WALL ioctl and one THREAD ioctl; the threads interleave as they like, `printk` adds
the text, lines of somebody else come between, `wall_parse` and `nop_parse` search the log
as it is at that moment, and `average` computes in 64-bit words.  Both figures of a row are
the means they stand for exactly when the samples add up to less than `2 ^ 63`
(`timingRow_iff`).
-/
namespace EcrToolkit

open NopTimer (Item aggregating begun recordsOf threadEvents)
open TextTools Transitions

/-! ## The records determine the runs -/

/-- The headings and the reports of a log of runs. -/
def readItems : List Record → List Item
  | .aggregatingNop :: rs => .heading true :: readItems rs
  | .aggregatingNopFl :: rs => .heading false :: readItems rs
  | .nopLabel name :: .count n :: rs => .report (.counted name n) :: readItems rs
  | .nopZero name :: rs => .report (.single name) :: readItems rs
  | _ => []

theorem readItems_records (items : List Item) :
    readItems (items.flatMap (·.records)) = items := by
  induction items with
  | nil => rfl
  | cons x items ih =>
    rw [List.flatMap_cons]
    cases x with
    | heading action =>
      cases action
      case true | false => exact congrArg (_ :: ·) ih
    | report r =>
      cases r with
      | counted name n => exact congrArg (_ :: ·) ih
      | single name => exact congrArg (_ :: ·) ih

/-- The heading of a run and its reports. -/
def NopRun.items (u : NopRun) : List Item := .heading u.action :: u.reports.map .report

theorem NopRun.items_records (u : NopRun) : u.items.flatMap (·.records) = u.timed := by
  rw [NopRun.items, List.flatMap_cons, List.flatMap_map]
  rfl

/-- The reports before the first heading, and the reports after each heading. -/
def splitItems : List Item → List NopReport × List (List NopReport)
  | [] => ([], [])
  | .heading _ :: items => ([], (splitItems items).1 :: (splitItems items).2)
  | .report r :: items => (r :: (splitItems items).1, (splitItems items).2)

theorem splitItems_reports (reports : List NopReport) (items : List Item) :
    splitItems (reports.map .report ++ items) =
      (reports ++ (splitItems items).1, (splitItems items).2) := by
  induction reports with
  | nil => rfl
  | cons r reports ih =>
    rw [List.map_cons, List.cons_append, splitItems, ih]
    rfl

theorem splitItems_runs (runs : List NopRun) :
    splitItems (runs.flatMap (·.items)) = ([], runs.map (·.reports)) := by
  induction runs with
  | nil => rfl
  | cons u runs ih =>
    rw [List.flatMap_cons, NopRun.items, List.cons_append, splitItems, splitItems_reports, ih,
      List.append_nil]
    rfl

/-- **Two ways to read one log as runs** have the same reports. -/
theorem reports_inj {runs runs' : List NopRun}
    (h : runs.flatMap (·.timed) = runs'.flatMap (·.timed)) :
    runs.map (·.reports) = runs'.map (·.reports) := by
  have hread : ∀ us : List NopRun, readItems (us.flatMap (·.timed)) = us.flatMap (·.items) := by
    intro us
    simp only [← NopRun.items_records, ← List.flatMap_assoc]
    exact readItems_records _
  have hitems : runs.flatMap (·.items) = runs'.flatMap (·.items) := by
    rw [← hread, ← hread, h]
  have hsplit := congrArg (fun items => (splitItems items).2) hitems
  rwa [splitItems_runs, splitItems_runs] at hsplit

/-! ## The numbers in the arithmetic of the shell -/

/-- What a word without leading zeros stands for in an arithmetic expansion: a decimal
numeral for its value, and a name for that of a variable which is not set. -/
def shellNumber (w : Line) : BitVec 64 :=
  if w ≠ [] ∧ w.all Char.isDigit = true then BitVec.ofNat 64 (Nat.ofDigitChars 10 w 0) else 0

theorem shellNumber_repr (n : Nat) : shellNumber (Nat.repr n).toList = BitVec.ofNat 64 n := by
  have hdigits : (Nat.repr n).toList = Nat.toDigits 10 n := String.toList_ofList
  have hnumeral : (Nat.repr n).toList ≠ [] ∧ (Nat.repr n).toList.all Char.isDigit = true :=
    ⟨repr_ne_nil n, List.all_eq_true.mpr fun c hc => digit_of_mem_repr hc⟩
  rw [shellNumber, if_pos hnumeral, hdigits, Nat.ofDigitChars_ten_toDigits]

/-- The words of an array without blanks and empty elements. -/
theorem words_scalar {elements : List Line}
    (h : ∀ e ∈ elements, e ≠ [] ∧ ∀ c ∈ e, isBlank c = false) :
    words (scalar elements) = elements := by
  induction elements with
  | nil => exact words_nil
  | cons e es ih =>
    obtain ⟨⟨hne, he⟩, hes⟩ := List.forall_mem_cons.mp h
    cases es with
    | nil =>
      rw [scalar, List.intercalate_singleton]
      exact words_singleton hne he
    | cons e' es =>
      have hcons : scalar (e :: e' :: es) = e ++ ' ' :: scalar (e' :: es) := by
        rw [scalar, List.intercalate_cons_cons, List.append_assoc]
        rfl
      have hsplit : words (scalar (e :: e' :: es)) = words e ++ words (scalar (e' :: es)) := by
        rw [hcons, words, List.splitOnP_append_cons _ _ (by decide), List.filter_append]
        rfl
      rw [hsplit, ih hes, words_singleton hne he]
      rfl

/-- `average` of an array of decimal numerals. -/
theorem statistics_repr (ns : List Nat) :
    (statistics shellNumber (ns.map fun n => (Nat.repr n).toList)).1 =
      average (ns.map (BitVec.ofNat 64)) := by
  have hwords : ∀ e ∈ ns.map (fun n => (Nat.repr n).toList),
      e ≠ [] ∧ ∀ c ∈ e, isBlank c = false := by
    intro e he
    obtain ⟨n, -, rfl⟩ := List.mem_map.mp he
    exact ⟨repr_ne_nil n, repr_not_blank⟩
  rw [statistics, words_scalar hwords, List.map_map]
  exact congrArg average (List.map_congr_left fun n _ => shellNumber_repr n)

/-- The loop of `average` wraps around only once, at the end. -/
theorem average_ofNat (ns : List Nat) : average (ns.map (BitVec.ofNat 64)) =
    (BitVec.ofNat 64 ns.sum).sdiv (divisor (BitVec.ofNat 64 ns.length)) := by
  have hloop : ∀ a c : Nat, (ns.map (BitVec.ofNat 64)).foldl (fun r i => (r.1 + i, r.2 + 1))
      (BitVec.ofNat 64 a, BitVec.ofNat 64 c) =
        (BitVec.ofNat 64 (a + ns.sum), BitVec.ofNat 64 (c + ns.length)) := by
    induction ns with
    | nil => exact fun a c => rfl
    | cons n ns ih =>
      intro a c
      have hcount : (BitVec.ofNat 64 c) + 1 = BitVec.ofNat 64 (c + 1) :=
        (BitVec.ofNat_add c 1).symm
      rw [List.map_cons, List.foldl_cons]
      show List.foldl _ (BitVec.ofNat 64 a + BitVec.ofNat 64 n, BitVec.ofNat 64 c + 1) _ = _
      rw [← BitVec.ofNat_add, hcount, ih, List.sum_cons, List.length_cons, Nat.add_assoc,
        Nat.add_assoc, Nat.add_comm 1]
  have hall : (ns.map (BitVec.ofNat 64)).foldl (fun r i => (r.1 + i, r.2 + 1))
      ((0, 0) : BitVec 64 × BitVec 64) = (BitVec.ofNat 64 ns.sum, BitVec.ofNat 64 ns.length) := by
    rw [← Nat.zero_add ns.sum, ← Nat.zero_add ns.length]
    exact hloop 0 0
  simp only [average, hall]

theorem tdiv_nonpos {z n : Int} (hz : z ≤ 0) (hn : 0 < n) : z.tdiv n ≤ 0 := by
  have hneg : 0 ≤ (-z).tdiv n := Int.tdiv_nonneg (by omega) hn.le
  rw [Int.neg_tdiv] at hneg
  omega

/-- A dividend that has lost more than the divisor gives too small a quotient. -/
theorem tdiv_lt_ediv {z s n : Int} (hn : 0 < n) (hs : n ≤ s) (h : z + n ≤ s) :
    z.tdiv n < s / n := by
  have hq : 1 ≤ s / n := (Int.le_ediv_iff_mul_le hn).mpr (by omega)
  rcases Int.le_total 0 z with hz | hz
  · have hsucc : (z + n) / n = z / n + 1 := by
      rw [Int.add_ediv_of_dvd_right (Int.dvd_refl n), Int.ediv_self hn.ne']
    have hle := Int.ediv_le_ediv hn h
    rw [Int.tdiv_eq_ediv_of_nonneg hz]
    omega
  · have hnonpos := tdiv_nonpos hz hn
    omega

/-- **The average is the mean rounded down** exactly when the sum fits in 63 bits. -/
theorem average_eq_mean_iff {ns : List Nat} (hne : ns ≠ []) (hlen : ns.length < 2 ^ 63) :
    (average (ns.map (BitVec.ofNat 64))).toInt = (ns.sum / ns.length : Nat) ↔
      ns.sum < 2 ^ 63 := by
  have hpos : 0 < ns.length := List.length_pos_iff.mpr hne
  have hcount : (divisor (BitVec.ofNat 64 ns.length)).toInt = ns.length := by
    have hnat : (BitVec.ofNat 64 ns.length).toNat = ns.length := by
      rw [BitVec.toNat_ofNat]
      omega
    have hnz : BitVec.ofNat 64 ns.length ≠ 0 := by
      intro h
      rw [h] at hnat
      exact absurd hnat.symm hpos.ne'
    rw [divisor, if_neg hnz, BitVec.toInt_eq_toNat_of_lt (by omega), hnat]
  rw [average_ofNat, BitVec.toInt_sdiv, hcount]
  generalize ns.length = n at hlen hpos ⊢
  generalize ns.sum = s
  have hword : s < 2 ^ 63 ∧ (BitVec.ofNat 64 s).toInt = s ∨
      2 ^ 63 ≤ s ∧ (BitVec.ofNat 64 s).toInt + 2 ^ 64 ≤ s := by
    rw [BitVec.toInt_ofNat', Int.bmod_def]
    split <;> omega
  have hlo := (BitVec.ofNat 64 s).le_toInt
  have hhi := (BitVec.ofNat 64 s).toInt_lt
  generalize (BitVec.ofNat 64 s).toInt = z at *
  -- a quotient by a positive number stays in the word
  have hfits : (z.tdiv n).bmod (2 ^ 64) = z.tdiv n := by
    have habs := Int.natAbs_tdiv_le_natAbs z n
    have hle : z.tdiv n ≤ max z 0 := by
      rcases Int.le_total 0 z with hz | hz
      · rw [Int.tdiv_eq_ediv_of_nonneg hz]
        exact (Int.ediv_le_self _ hz).trans (le_max_left z 0)
      · exact (tdiv_nonpos hz (by omega)).trans (le_max_right z 0)
    exact Int.bmod_eq_of_le_mul_two (by omega) (by omega)
  rw [hfits, Int.natCast_ediv]
  rcases hword with ⟨hlt, rfl⟩ | ⟨hge, hlost⟩
  · exact iff_of_true (Int.tdiv_eq_ediv_of_nonneg (by omega)) hlt
  · refine iff_of_false (fun heq => ?_) (by omega)
    have hless := tdiv_lt_ediv (z := z) (s := s) (n := n) (by omega) (by omega) (by omega)
    omega

/-! ## The log of the loop -/

/-- A line of somebody else has none of the labels of `nop_parse`. -/
def LogLine.NopUnlabelled : LogLine → Prop
  | .entry _ => True
  | .foreign l => ∀ x ∈ instructions, ¬ label nopPrefix x.toList <:+: l

/-- The number of a report comes right after its label. -/
def Adjoins (i j : LogLine) : Prop :=
  ∀ x, i.record? = some (.nopLabel x) → ∃ n, j.record? = some (.count n)

/-- One turn of the measurement loop of the script: an `Iteration` with one THREAD ioctl.
`thread` is what is logged until that ioctl has returned and the device is closed, and
`nopFirst x` and `nopSecond x` lines of what follows are there when `nop_parse` calls `dmesg`
for `x`. -/
structure Turn extends Iteration where
  nopRun : NopRun
  nopRuns_eq : nopRuns = [nopRun]
  thread : List LogLine
  others : List LogLine
  rest_split : rest = thread ++ others
  others_eq : others.filterMap (·.record?) = []
  nopFirst : String → Nat
  nopSecond : String → Nat

/-- The log of the timing branch of the script, with the threads of its THREAD ioctls: their
records are those of a run of serialised calls. -/
structure TimingLog (ι : Type) [DecidableEq ι] extends InsertedLog where
  turns : List Turn
  after_eq : after = (turns.flatMap (·.lines)).map (·.line)
  features : Feature → Bool
  events : List (NopTimer.Event ι)
  state : NopTimer.State ι
  ran : NopTimer.system.Run (fun s a => NopTimer.Creates s a ∧ NopTimer.Serial s a ∧
    NopTimer.SameCpu features s a) NopTimer.initial events state
  outside : ∀ i, ¬ (state.call i).pc.InSection
  timed_eq : recordsOf events = (turns.map (·.nopRun)).flatMap (·.timed)

/-- `nop_arr_X`, from the turn on before which `logged` has been logged. -/
def nopArrFrom (g : InsertedLog) (x : String) : (logged : List LogLine) → List Turn → List Line
  | _, [] => []
  | logged, t :: ts =>
    let dmesg n := g.dmesg ((logged ++ (t.wall ++ (t.thread ++ t.others.take n))).map (·.line))
    nopParse (dmesg (t.nopFirst x)) (dmesg (t.nopSecond x)) (label nopPrefix x.toList) ::
      nopArrFrom g x (logged ++ t.lines) ts

section
variable {ι : Type} [DecidableEq ι] (g : TimingLog ι)

/-- `wall_arr_X`. -/
def TimingLog.wallArr (x : String) : List Line :=
  wallArrFrom g.toInsertedLog x [] (g.turns.map (·.toIteration))

/-- `nop_arr_X`. -/
def TimingLog.nopArr (x : String) : List Line := nopArrFrom g.toInsertedLog x [] g.turns

/-- `grep -A100000000` reaches the end of the log. -/
def TimingLog.Visible : Prop := g.after.length ≤ 100000000

/-- The lines of somebody else have none of the labels of `nop_parse`. -/
def TimingLog.NopUnlabelled : Prop := ∀ t ∈ g.turns, ∀ i ∈ t.lines, i.NopUnlabelled

/-- No line comes between a label of `nop_parse` and the number that belongs to it. -/
def TimingLog.Adjoined : Prop := ∀ t ∈ g.turns, t.rest.IsChain Adjoins

/-- `wall_avg_X`. -/
def TimingLog.wallAvg (x : String) : BitVec 64 := (statistics shellNumber (g.wallArr x)).1

/-- `nop_avg_X`. -/
def TimingLog.nopAvg (x : String) : BitVec 64 := (statistics shellNumber (g.nopArr x)).1

/-- What the WALL ioctls have printed for `X`. -/
def TimingLog.walls (x : String) : List Nat := g.turns.flatMap (·.values x)

end

/-! ## What `nop_parse` finds in a turn -/

theorem instructions_nopSafe : ∀ x ∈ instructions, LabelSafe nopPrefix x.toList := by
  decide +kernel

theorem nopLoops_nodup (action : Bool) :
    ((NopTimer.nopLoops action).map (·.printName)).Nodup := by
  cases action
  case true | false => decide +kernel

/-- A run reports a name once. -/
theorem NopRun.names_nodup (u : NopRun) : (u.reports.map (·.name)).Nodup := by
  rw [u.complete]
  exact (nopLoops_nodup u.action).sublist (List.filter_sublist.map _)

/-- After a report in two records, the name is not reported again. -/
theorem NopRun.records_of_counted (u : NopRun) {x : String} {n : Nat}
    (h : .counted x n ∈ u.reports) : ∃ before after,
      u.records = before ++ .nopLabel x :: .count n :: after ∧ ∀ r ∈ after, r.labels x = false := by
  obtain ⟨rs, rs', hreports⟩ := List.append_of_mem h
  have hnodup := u.names_nodup
  rw [hreports, List.map_append, List.map_cons] at hnodup
  have hnew : x ∉ rs'.map (·.name) := (List.nodup_cons.mp hnodup.of_append_right).1
  refine ⟨NopRun.heading u.action ++ rs.flatMap (·.records),
    rs'.flatMap (·.records) ++ [.releaseSucceeded], ?_, fun r hr => ?_⟩
  · rw [NopRun.records, hreports]
    simp [NopReport.records]
  · rcases List.mem_append.mp hr with hr | hr
    · refine Bool.eq_false_iff.mpr fun hlab => hnew ?_
      obtain ⟨r', hr', hname⟩ := NopReport.name_of_labels hr hlab
      exact List.mem_map.mpr ⟨r', hr', hname⟩
    · obtain rfl := List.mem_singleton.mp hr
      rfl

theorem Turn.thread_records (t : Turn) : t.thread.filterMap (·.record?) = t.nopRun.records := by
  have hrest := t.rest_eq
  rw [t.rest_split, List.filterMap_append, t.others_eq, List.append_nil, t.nopRuns_eq,
    List.flatMap_singleton] at hrest
  exact hrest

/-- `grep NOP_X:` does not select the line. -/
theorem selects_nop_eq_false {x : String} (hx : x ∈ instructions) {i : LogLine}
    (hi : i.NopUnlabelled) (hr : ∀ r, i.record? = some r → r.Legible ∧ r.labels x = false) :
    selects (label nopPrefix x.toList) i.line = false := by
  have hsafe := instructions_nopSafe x hx
  cases i with
  | foreign l => exact (selects_eq_false_iff hsafe.dot_notMem).mpr (hi x hx)
  | entry e =>
    obtain ⟨hlegible, hlab⟩ := hr e.record rfl
    rw [← hlab]
    exact selects_label_iff hsafe e hlegible

/-- The label of `x` and its number are two lines of the log, and no line after them has the
label. -/
theorem Turn.thread_of_counted (t : Turn) (hforeign : ∀ i ∈ t.lines, i.NopUnlabelled)
    (hadjoined : t.rest.IsChain Adjoins) {x : String} (hx : x ∈ instructions) {n : Nat}
    (h : .counted x n ∈ t.nopRun.reports) : ∃ before i j after,
      t.thread = before ++ i :: j :: after ∧ i.record? = some (.nopLabel x) ∧
        j.record? = some (.count n) ∧
          ∀ k ∈ j :: (after ++ t.others), selects (label nopPrefix x.toList) k.line = false := by
  obtain ⟨rs, rs', hrecords, hlater⟩ := t.nopRun.records_of_counted h
  have hthread := t.thread_records
  rw [hrecords] at hthread
  obtain ⟨before, rest, hsplit, -, hrest⟩ := List.filterMap_eq_append_iff.mp hthread
  obtain ⟨quiet, i, after, rfl, hquiet, hi, hafter⟩ := List.filterMap_eq_cons_iff.mp hrest
  have hchain := hadjoined
  rw [t.rest_split, hsplit, ← List.append_assoc, List.append_assoc, List.cons_append] at hchain
  cases after with
  | nil => cases hafter
  | cons j after =>
    obtain ⟨m, hj⟩ := (List.isChain_cons.mp hchain.right_of_append).1 j rfl x hi
    rw [List.filterMap_cons_some hj] at hafter
    obtain ⟨hcount, hrecs⟩ := List.cons.inj hafter
    obtain rfl : m = n := Record.count.inj hcount
    refine ⟨before ++ quiet, i, j, after, by rw [hsplit, List.append_assoc], hi, hj, ?_⟩
    have hlegible : ∀ r ∈ .count m :: rs', r.Legible := fun r hr =>
      t.nopRun.legible r (by
        rw [hrecords]
        exact List.mem_append_right _ (List.mem_cons_of_mem _ hr))
    have hrest : ∀ k ∈ j :: (after ++ t.others), k ∈ t.rest := by
      intro k hk
      rw [t.rest_split, hsplit, List.append_assoc, List.append_assoc]
      exact List.mem_append_right _ (List.mem_append_right _ (List.mem_cons_of_mem _ hk))
    intro k hk
    have hline := hforeign k (List.mem_append_right _ (hrest k hk))
    refine selects_nop_eq_false hx hline fun r hr => ?_
    rcases List.mem_cons.mp hk with rfl | hk
    · obtain rfl : .count m = r := Option.some.inj (hj.symm.trans hr)
      exact ⟨hlegible _ List.mem_cons_self, rfl⟩
    · rcases List.mem_append.mp hk with hk | hk
      · have hmem : r ∈ rs' := by
          rw [← hrecs]
          exact List.mem_filterMap.mpr ⟨k, hk, hr⟩
        exact ⟨hlegible r (List.mem_cons_of_mem _ hmem), hlater r hmem⟩
      · rw [List.filterMap_eq_nil_iff.mp t.others_eq k hk] at hr
        cases hr

/-- **What `nop_parse` returns in a turn** that has reported a count: that count, whatever was
logged before. -/
theorem Turn.nopParse_eq (t : Turn) (hforeign : ∀ i ∈ t.lines, i.NopUnlabelled)
    (hadjoined : t.rest.IsChain Adjoins) {g : InsertedLog} {logged : List LogLine}
    (hsub : (logged ++ t.lines).map (·.line) ⊆ g.after)
    (hlen : (logged ++ t.lines).length ≤ 100000000) {x : String} (hx : x ∈ instructions) {c : Nat}
    (h : .counted x c ∈ t.nopRun.reports) (n n' : Nat) :
    nopParse (g.dmesg ((logged ++ (t.wall ++ (t.thread ++ t.others.take n))).map (·.line)))
        (g.dmesg ((logged ++ (t.wall ++ (t.thread ++ t.others.take n'))).map (·.line)))
        (label nopPrefix x.toList) = (Nat.repr c).toList := by
  obtain ⟨before, i, j, after, hsplit, hi, hj, hnone⟩ := t.thread_of_counted hforeign hadjoined hx h
  have hpre : ∀ m, logged ++ (t.wall ++ (t.thread ++ t.others.take m)) <+: logged ++ t.lines := by
    intro m
    rw [Iteration.lines, t.rest_split, List.prefix_append_right_inj,
      List.prefix_append_right_inj, List.prefix_append_right_inj]
    exact List.take_prefix m t.others
  have hin : ∀ m, (logged ++ (t.wall ++ (t.thread ++ t.others.take m))).map (·.line) ⊆ g.after :=
    fun m => List.Subset.trans (List.map_subset _ (hpre m).subset) hsub
  have hshort := (hpre n').length_le.trans hlen
  have hsel : selects (label nopPrefix x.toList) i.line = true := by
    cases i with
    | foreign l => cases hi
    | entry e =>
      have hr : e.record = .nopLabel x := Option.some.inj hi
      have hlegible : e.record.Legible := by
        rw [hr]
        exact Or.inl ⟨x, instructions_nopSafe x hx, Or.inl rfl⟩
      have hlab := selects_label_iff (instructions_nopSafe x hx) e hlegible
      rw [hr] at hlab
      exact hlab.trans (by simp [Record.labels])
  have hlines : (logged ++ (t.wall ++ (t.thread ++ t.others.take n'))).map (·.line) =
      (logged ++ t.wall ++ before).map (·.line) ++
        i.line :: (j :: (after ++ t.others.take n')).map (·.line) := by
    rw [hsplit]
    simp
  have hlater : ∀ l ∈ (j :: (after ++ t.others.take n')).map (·.line),
      selects (label nopPrefix x.toList) l = false := by
    intro l hl
    obtain ⟨k, hk, rfl⟩ := List.mem_map.mp hl
    have hfew : after ++ t.others.take n' ⊆ after ++ t.others :=
      List.append_subset.mpr ⟨List.subset_append_left _ _,
        List.Subset.trans (List.take_subset _ _) (List.subset_append_right _ _)⟩
    exact hnone k (List.cons_subset_cons j hfew hk)
  rw [nopParse, g.sinceInsertion_dmesg (hin n) (hin n'),
    List.take_of_length_le (by rwa [List.length_map]), hlines, ← List.cons_append,
    lastLine_grepAfter_one _ hsel hlater]
  cases j with
  | foreign l => cases hj
  | entry e =>
    have hr : e.record = .count c := Option.some.inj hj
    show lastWord (e.stamp.line e.record.text.toList) = _
    rw [e.stamp.lastWord_line, hr]
    exact lastWord_count c

/-! ## A row of the table -/

/-- The elements of `nop_arr_X`, when every turn reports a count. -/
theorem nopArrFrom_eq {g : InsertedLog} {x : String} (hx : x ∈ instructions)
    {logged : List LogLine} {ts : List Turn} {counts : List Nat}
    (hsub : (logged ++ ts.flatMap (·.lines)).map (·.line) ⊆ g.after)
    (hlen : (logged ++ ts.flatMap (·.lines)).length ≤ 100000000)
    (hforeign : ∀ t ∈ ts, ∀ i ∈ t.lines, i.NopUnlabelled)
    (hadjoined : ∀ t ∈ ts, t.rest.IsChain Adjoins)
    (h : List.Forall₂ (fun t c => .counted x c ∈ t.nopRun.reports) ts counts) :
    nopArrFrom g x logged ts = counts.map fun c => (Nat.repr c).toList := by
  induction h generalizing logged with
  | nil => rfl
  | @cons t c ts counts ht hts ih =>
    rw [List.flatMap_cons, ← List.append_assoc] at hsub hlen
    have hpre : logged ++ t.lines <+: logged ++ t.lines ++ ts.flatMap (·.lines) :=
      List.prefix_append _ _
    obtain ⟨hline, hlines⟩ := List.forall_mem_cons.mp hforeign
    obtain ⟨hchain, hchains⟩ := List.forall_mem_cons.mp hadjoined
    have hparse := t.nopParse_eq hline hchain
      (List.Subset.trans (List.map_subset _ hpre.subset) hsub) (hpre.length_le.trans hlen) hx ht
      (t.nopFirst x) (t.nopSecond x)
    rw [nopArrFrom, hparse, ih hsub hlen hlines hchains, List.map_cons]

theorem Iteration.lines_ne_nil (it : Iteration) : it.lines ≠ [] := by
  have hwall : it.wall ≠ [] := by
    intro h
    have heq := it.wall_eq
    rw [h] at heq
    cases heq
  exact List.append_ne_nil_of_left_ne_nil hwall _

section
variable {ι : Type} [DecidableEq ι] (g : TimingLog ι)

/-- All turns are in the log and can be seen. -/
theorem TimingLog.turns_visible (hvisible : g.Visible) :
    (g.turns.flatMap (·.lines)).map (·.line) ⊆ g.after ∧
      (g.turns.flatMap (·.lines)).length ≤ 100000000 := by
  rw [TimingLog.Visible, g.after_eq, List.length_map] at hvisible
  refine ⟨?_, hvisible⟩
  rw [← g.after_eq]
  exact List.Subset.refl _

theorem TimingLog.turns_length (hvisible : g.Visible) : g.turns.length ≤ 100000000 := by
  have hle : ∀ ts : List Turn, ts.length ≤ (ts.flatMap (·.lines)).length := by
    intro ts
    induction ts with
    | nil => exact Nat.le_refl _
    | cons t ts ih =>
      have hpos := List.length_pos_iff.mpr t.lines_ne_nil
      rw [List.flatMap_cons, List.length_cons, List.length_append]
      omega
  exact (hle _).trans (g.turns_visible hvisible).2

theorem TimingLog.inLog (hvisible : g.Visible) :
    InLog g.toInsertedLog [] (g.turns.map (·.toIteration)) := by
  have hlines : (g.turns.map (·.toIteration)).flatMap (·.lines) = g.turns.flatMap (·.lines) :=
    List.flatMap_map ..
  obtain ⟨hsub, hlen⟩ := g.turns_visible hvisible
  refine ⟨?_, ?_, fun i hi => ?_⟩
  · rwa [List.nil_append, hlines]
  · rwa [List.nil_append, hlines]
  · obtain ⟨it, -, hi⟩ := List.mem_flatMap.mp hi
    exact it.legible i hi

/-- What the WALL ioctls have printed is in the array. -/
theorem TimingLog.wallArr_of_printed (hvisible : g.Visible) {x : String} (hx : x ∈ instructions)
    (hprinted : ∀ t ∈ g.turns, t.values x ≠ []) :
    g.wallArr x = (g.walls x).map fun v => (Nat.repr v).toList := by
  have harr := wallArrFrom_of_printed hx (g.inLog hvisible) (by simpa using hprinted)
  rw [List.flatMap_map] at harr
  exact harr

theorem TimingLog.walls_length {x : String} (hprinted : ∀ t ∈ g.turns, t.values x ≠ []) :
    (g.walls x).length = g.turns.length := by
  unfold TimingLog.walls
  generalize g.turns = ts at hprinted
  induction ts with
  | nil => rfl
  | cons t ts ih =>
    obtain ⟨ht, hts⟩ := List.forall_mem_cons.mp hprinted
    have hpos := List.length_pos_iff.mpr ht
    have hle := t.values_length_le x
    rw [List.flatMap_cons, List.length_append, ih hts, List.length_cons]
    omega

/-- The call of every turn, and the count it has reported. -/
theorem TimingLog.exists_counts {x : String}
    (hcounted : ∀ t ∈ g.turns, ∃ c, .counted x c ∈ t.nopRun.reports) : ∃ counts : List Nat,
      List.Forall₂ (fun i n => ∃ k, NopTimer.round NopTimer.wrap i x k <:+: threadEvents g.events ∧
        k.counted = n) (begun g.events) counts ∧
      List.Forall₂ (fun t n => .counted x (NopTimer.wrap n) ∈ t.nopRun.reports) g.turns counts := by
  obtain ⟨runs, hrecords, hcalls⟩ := exists_callRuns g.ran g.outside
  have hreports := reports_inj (hrecords.symm.trans g.timed_eq)
  have hturns : List.Forall₂ (fun i (t : Turn) => ∀ name n, .counted name n ∈ t.nopRun.reports →
      ∃ k, NopTimer.round NopTimer.wrap i name k <:+: threadEvents g.events ∧
        n = NopTimer.wrap k.counted) (begun g.events) g.turns := by
    rw [List.map_map] at hreports
    have hall : List.Forall₂ (fun i (rs : List NopReport) => ∀ name n, .counted name n ∈ rs →
        ∃ k, NopTimer.round NopTimer.wrap i name k <:+: threadEvents g.events ∧
          n = NopTimer.wrap k.counted) (begun g.events) (runs.map (·.reports)) :=
      List.forall₂_map_right_iff.mpr (hcalls.imp fun _ _ hu => hu.counted)
    rw [hreports] at hall
    exact List.forall₂_map_right_iff.mp hall
  clear hrecords hcalls hreports
  generalize begun g.events = is, g.turns = ts at hturns hcounted
  induction hturns with
  | nil => exact ⟨[], .nil, .nil⟩
  | @cons i t is ts ht hts ih =>
    obtain ⟨⟨c, hc⟩, hcs⟩ := List.forall_mem_cons.mp hcounted
    obtain ⟨k, hk, rfl⟩ := ht x c hc
    obtain ⟨counts, hcalls, hturns⟩ := ih hcs
    exact ⟨k.counted :: counts, .cons ⟨k, hk, rfl⟩ hcalls, .cons hc hturns⟩

/-- The numbers of `nop`s counted are in the array, as an `unsigned long` holds them. -/
theorem TimingLog.nopArr_of_counted (hvisible : g.Visible) (hforeign : g.NopUnlabelled)
    (hadjoined : g.Adjoined) {x : String} (hx : x ∈ instructions) {counts : List Nat}
    (h : List.Forall₂ (fun t n => .counted x (NopTimer.wrap n) ∈ t.nopRun.reports)
      g.turns counts) :
    g.nopArr x = (counts.map NopTimer.wrap).map fun c => (Nat.repr c).toList := by
  obtain ⟨hsub, hlen⟩ := g.turns_visible hvisible
  exact nopArrFrom_eq hx hsub hlen hforeign hadjoined (List.forall₂_map_right_iff.mpr h)

/-- An `unsigned long` and a word of the shell wrap around alike. -/
theorem map_ofNat_wrap (counts : List Nat) :
    (counts.map NopTimer.wrap).map (BitVec.ofNat 64) = counts.map (BitVec.ofNat 64) := by
  rw [List.map_map]
  exact List.map_congr_left fun n _ => BitVec.eq_of_toNat_eq (Nat.mod_mod n (2 ^ 64))

/-- The wall figure of an instruction that every turn prints. -/
theorem TimingLog.wallAvg_eq_mean_iff (hvisible : g.Visible) {x : String}
    (hx : x ∈ instructions) (hne : g.turns ≠ []) (hprinted : ∀ t ∈ g.turns, t.values x ≠ []) :
    (g.wallAvg x).toInt = ((g.walls x).sum / g.turns.length : Nat) ↔
      (g.walls x).sum < 2 ^ 63 := by
  have hlen : g.turns.length < 2 ^ 63 := Nat.lt_of_le_of_lt (g.turns_length hvisible) (by decide)
  have hwalls := g.walls_length hprinted
  have hsome : g.walls x ≠ [] := by
    intro h
    rw [h] at hwalls
    exact hne (List.length_eq_zero_iff.mp hwalls.symm)
  rw [TimingLog.wallAvg, g.wallArr_of_printed hvisible hx hprinted, statistics_repr, ← hwalls]
  exact average_eq_mean_iff hsome (by rwa [hwalls])

/-- The NOP figure of an instruction that every turn counts. -/
theorem TimingLog.nopAvg_eq_mean_iff (hvisible : g.Visible) (hforeign : g.NopUnlabelled)
    (hadjoined : g.Adjoined) {x : String} (hx : x ∈ instructions) (hne : g.turns ≠ [])
    {counts : List Nat}
    (h : List.Forall₂ (fun t n => .counted x (NopTimer.wrap n) ∈ t.nopRun.reports)
      g.turns counts) :
    (g.nopAvg x).toInt = (counts.sum / g.turns.length : Nat) ↔ counts.sum < 2 ^ 63 := by
  have hlen : g.turns.length < 2 ^ 63 := Nat.lt_of_le_of_lt (g.turns_length hvisible) (by decide)
  have hcounts := h.length_eq
  have hsome : counts ≠ [] := by
    intro h
    rw [h] at hcounts
    exact hne (List.length_eq_zero_iff.mp hcounts)
  rw [TimingLog.nopAvg, g.nopArr_of_counted hvisible hforeign hadjoined hx h, statistics_repr,
    map_ofNat_wrap, hcounts]
  exact average_eq_mean_iff hsome (by rwa [← hcounts])

/-- **A row of the table**: what a run of `ecr.sh` shows for `X` when every turn has measured
it.  The wall figure is the mean of what the WALL ioctls have printed, and the NOP figure the
mean of the numbers of `nop`s that the NOP threads have executed in the rounds of `X`, each
rounded down, exactly when they add up to less than `2 ^ 63`. -/
theorem timingRow_iff (hvisible : g.Visible) (hforeign : g.NopUnlabelled)
    (hadjoined : g.Adjoined) {x : String} (hx : x ∈ instructions) (hne : g.turns ≠ [])
    (hprinted : ∀ t ∈ g.turns, t.values x ≠ [])
    (hcounted : ∀ t ∈ g.turns, ∃ c, .counted x c ∈ t.nopRun.reports) :
    ((g.wallAvg x).toInt = ((g.walls x).sum / g.turns.length : Nat) ↔
      (g.walls x).sum < 2 ^ 63) ∧
    ∃ counts : List Nat,
      List.Forall₂ (fun i n => ∃ k, NopTimer.round NopTimer.wrap i x k <:+: threadEvents g.events ∧
        k.counted = n) (begun g.events) counts ∧
      ((g.nopAvg x).toInt = (counts.sum / g.turns.length : Nat) ↔ counts.sum < 2 ^ 63) := by
  obtain ⟨counts, hcalls, hturns⟩ := g.exists_counts hcounted
  exact ⟨g.wallAvg_eq_mean_iff hvisible hx hne hprinted, counts, hcalls,
    g.nopAvg_eq_mean_iff hvisible hforeign hadjoined hx hne hturns⟩

end

/-- `TIMING_IOCTL_THREAD_FL` on two CPUs, with no buffer allocated and no `nop` counted. -/
def idleRun : NopRun where
  action := false
  bootCpuHas _ := true
  reports := [.single "CLFLUSH", .counted "SFENCE" 0, .counted "MFENCE" 0]
  complete := by decide

theorem adjoined_entriesFrom {rs : List Record} (h : rs.IsChain Follows) (n : Nat) :
    (entriesFrom n rs).IsChain Adjoins := by
  induction rs generalizing n with
  | nil => exact .nil
  | cons r rs ih =>
    obtain ⟨hr, hrs⟩ := List.isChain_cons.mp h
    refine List.isChain_cons.mpr ⟨fun j hj x hx => ?_, ih hrs (n + 1)⟩
    cases rs with
    | nil => cases hj
    | cons s rs =>
      cases hj
      cases hx
      have hs := hr s rfl
      cases s
      case count m => exact ⟨m, rfl⟩
      all_goals exact hs.elim

/-- A turn with that run. -/
def idleTurn : Turn where
  toIteration := { flushTurn 7 300 0 with
    nopRuns := [idleRun]
    rest := entriesFrom 350 idleRun.records
    rest_eq := by
      rw [record?_entriesFrom]
      exact (List.append_nil _).symm
    unlabelled := by
      intro i hi
      rcases List.mem_append.mp hi with hi | hi
      · exact (flushTurn 7 300 0).unlabelled i (List.mem_append_left _ hi)
      · exact unlabelled_entriesFrom _ _ i hi }
  nopRun := idleRun
  nopRuns_eq := rfl
  thread := entriesFrom 350 idleRun.records
  others := []
  rest_split := (List.append_nil _).symm
  others_eq := rfl
  nopFirst _ := 0
  nopSecond _ := 0

theorem nopUnlabelled_entriesFrom (n : Nat) (rs : List Record) :
    ∀ i ∈ entriesFrom n rs, i.NopUnlabelled := by
  intro i hi
  obtain ⟨e, -, rfl⟩ := List.mem_map.mp hi
  trivial

/-- A log of one turn in which nobody else has logged anything. -/
theorem adjoined_run (u : NopRun) (n : Nat) : (entriesFrom n u.records).IsChain Adjoins := by
  have hfollows := follows_runs [u]
  rw [List.flatMap_singleton] at hfollows
  exact adjoined_entriesFrom hfollows n

theorem idleTurn_nopUnlabelled : ∀ i ∈ idleTurn.lines, i.NopUnlabelled := by
  intro i hi
  rcases List.mem_append.mp hi with hi | hi
  · exact nopUnlabelled_entriesFrom _ _ i hi
  · exact nopUnlabelled_entriesFrom _ _ i hi

/-- A run of `ecr.sh -f` with one turn, and the row of `SFENCE`. -/
theorem timingRow_sfence : ∃ g : TimingLog Unit, g.turns = [idleTurn] ∧ g.Visible ∧
    g.NopUnlabelled ∧ g.Adjoined ∧
    ((g.wallAvg "SFENCE").toInt = ((g.walls "SFENCE").sum / g.turns.length : Nat) ↔
      (g.walls "SFENCE").sum < 2 ^ 63) ∧
    ∃ counts : List Nat,
      List.Forall₂ (fun i n => ∃ k,
        NopTimer.round NopTimer.wrap i "SFENCE" k <:+: threadEvents g.events ∧
          k.counted = n) (begun g.events) counts ∧
      ((g.nopAvg "SFENCE").toInt = (counts.sum / g.turns.length : Nat) ↔ counts.sum < 2 ^ 63) := by
  obtain ⟨evs, s, hrun, houtside, hrecords⟩ := System.Run.exists_of_exec NopTimer.system
    (fun s a => NopTimer.Creates s a ∧ NopTimer.Serial s a ∧
      NopTimer.SameCpu (fun _ => true) s a) NopTimer.initial (NopTimer.completeCall ())
    (fun evs s => (∀ i, ¬ (s.call i).pc.InSection) ∧
      recordsOf evs = ([idleTurn].map (·.nopRun)).flatMap (·.timed)) (by decide +kernel)
  let g : TimingLog Unit := {
    earlier := []
    stamp := stampAt 200
    after := ([idleTurn].flatMap (·.lines)).map (·.line)
    unique := by decide +kernel
    last := by decide +kernel
    turns := [idleTurn]
    after_eq := rfl
    features := fun _ => true
    events := evs
    state := s
    ran := hrun
    outside := houtside
    timed_eq := hrecords }
  have hvisible : g.Visible := by
    show (([idleTurn].flatMap (·.lines)).map (·.line)).length ≤ 100000000
    decide +kernel
  have hforeign : g.NopUnlabelled := List.forall_mem_singleton.mpr idleTurn_nopUnlabelled
  have hadjoined : g.Adjoined := List.forall_mem_singleton.mpr (adjoined_run idleRun 350)
  exact ⟨g, rfl, hvisible, hforeign, hadjoined, timingRow_iff g hvisible hforeign hadjoined
    (by decide) (List.cons_ne_nil _ _)
    (List.forall_mem_singleton.mpr (by decide +kernel))
    (List.forall_mem_singleton.mpr ⟨0, by decide +kernel⟩)⟩

end EcrToolkit
