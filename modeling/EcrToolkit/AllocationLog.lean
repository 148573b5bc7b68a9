import EcrToolkit.Figures

/-!
# What the script makes of a `TIMING_IOCTL_KMALLOC`

`ecr.sh` ignores the exit status of `mod_ioctl` and looks for an address in the log, in
the lines with `Allocating memory` and the ones after them: all of them, not only those
of this run (`allocationStep`).  After a failed allocation it finds the address of an
earlier one, if there was one (`allocation_detected_iff`).
-/
namespace EcrToolkit

open AtomicProgram TextTools

/-! ## What the handler logs -/

/-- How `TIMING_IOCTL_KMALLOC` ends: the record and the value returned. -/
inductive AllocationEnd : Record → Return → Prop
  | failed : AllocationEnd .allocationFailed (.value (-eFault))
  | allocated (x y : BitVec 64) : AllocationEnd (.memoryAllocated x y kmallocSize) (.value 0)

theorem AllocationEnd.cases {rec : Record} {ret : Int} (h : AllocationEnd rec (.value ret)) :
    (rec = .allocationFailed ∧ ret = -eFault) ∨
      ∃ x y, rec = .memoryAllocated x y kmallocSize ∧ ret = 0 := by
  generalize hr : Return.value ret = r at h
  cases h with
  | failed =>
    obtain rfl := Return.value.inj hr
    exact Or.inl ⟨rfl, rfl⟩
  | allocated x y =>
    obtain rfl := Return.value.inj hr
    exact Or.inr ⟨x, y, rfl, rfl⟩

/-- The two loads are not logged. -/
theorem kmallocFailed_silent {t : List Answered} {b : Bool} (h : kmallocFailed.Traces t b) :
    logged t = [] := by
  have hsafe : Prog.Safe (fun _ _ => True) (fun o : Op => o.record? = none) kmallocFailed := by
    refine Prog.safe_op rfl fun _ _ => Prog.safe_op rfl fun (x : BitVec 64) _ => ?_
    show Prog.Safe _ _ (if x = 0 then .ret true else _)
    split
    · exact Prog.safe_ret _
    · exact Prog.safe_op rfl fun _ _ => Prog.safe_op rfl fun _ _ => Prog.safe_ret _
  exact List.filterMap_eq_nil_iff.mpr (ops_of_safe hsafe h)

/-- The report of a success: both pointers are read again, and both words. -/
def allocationReport (v x a y : BitVec 64) : List Answered :=
  [⟨.readVmem, v⟩, ⟨.access .vmem .word v, x⟩, ⟨.readVmemAligned, a⟩,
    ⟨.access .vmemAligned .word a, y⟩, ⟨.prInfo (.memoryAllocated x y kmallocSize), ()⟩]

/-- **How the handler ends**, after the two loads. -/
theorem kmallocVerify_split {t : List Answered} {r : Return} (h : kmallocVerify.Traces t r) :
    ∃ t₁ t₂, t = t₁ ++ t₂ ∧ logged t₁ = [] ∧
      ((t₂ = [⟨.prAlert .allocationFailed, ()⟩] ∧ r = .value (-eFault)) ∨
        ∃ v x a y, t₂ = allocationReport v x a y ∧ r = .value 0) := by
  obtain ⟨t₁, b, t₂, rfl, h₁, h₂⟩ := Prog.traces_bind.mp h
  refine ⟨t₁, t₂, rfl, kmallocFailed_silent h₁, ?_⟩
  cases b with
  | true =>
    -- `pr_alert`, and `-EFAULT`
    obtain ⟨_, t₃, rfl, h₃⟩ := Prog.traces_perform.mp h₂
    obtain ⟨rfl, rfl⟩ := Prog.traces_ret.mp h₃
    exact Or.inl ⟨rfl, rfl⟩
  | false =>
    obtain ⟨v, t₃, rfl, h₃⟩ := Prog.traces_perform.mp h₂
    obtain ⟨x, t₄, rfl, h₄⟩ := Prog.traces_perform.mp h₃
    obtain ⟨a, t₅, rfl, h₅⟩ := Prog.traces_perform.mp h₄
    obtain ⟨y, t₆, rfl, h₆⟩ := Prog.traces_perform.mp h₅
    obtain ⟨_, t₇, rfl, h₇⟩ := Prog.traces_perform.mp h₆
    obtain ⟨rfl, rfl⟩ := Prog.traces_ret.mp h₇
    exact Or.inr ⟨v, x, a, y, rfl, rfl⟩

/-- **What comes before**: the command and the allocation are logged. -/
theorem kmallocIoctl_split {t : List Answered} {r : Return}
    (h : (timingUnlockedIoctl timingIoctlKmalloc).Traces t r) :
    ∃ t₁ t₂, t = t₁ ++ t₂ ∧
      logged t₁ = [.commandReceived timingIoctlKmalloc, .allocatingMemory] ∧
        kmallocVerify.Traces t₂ r := by
  obtain ⟨_, t₁, rfl, h₁⟩ := Prog.traces_perform.mp h
  have hcommand : kmallocCommand.Traces t₁ r := h₁
  obtain ⟨_, t₂, rfl, h₂⟩ := Prog.traces_perform.mp hcommand
  obtain ⟨(v : BitVec 64), t₃, rfl, h₃⟩ := Prog.traces_perform.mp h₂
  have hcase : (if v = 0 then kmallocAllocate else kmallocVerify).Traces t₃ r := h₃
  split at hcase
  case isFalse => exact ⟨[_, _, _], t₃, rfl, rfl, hcase⟩
  case isTrue =>
    obtain ⟨_, t₄, rfl, h₄⟩ := Prog.traces_perform.mp hcase
    obtain ⟨_, t₅, rfl, h₅⟩ := Prog.traces_perform.mp h₄
    obtain ⟨_, t₆, rfl, h₆⟩ := Prog.traces_perform.mp h₅
    obtain ⟨_, t₇, rfl, h₇⟩ := Prog.traces_perform.mp h₆
    exact ⟨[_, _, _, _, _, _, _], t₇, rfl, rfl, h₇⟩

/-- **What a `TIMING_IOCTL_KMALLOC` logs.** -/
theorem kmallocIoctl_logged {t : List Answered} {r : Return}
    (h : (timingUnlockedIoctl timingIoctlKmalloc).Traces t r) :
    ∃ rec, logged t = [.commandReceived timingIoctlKmalloc, .allocatingMemory, rec] ∧
      AllocationEnd rec r := by
  obtain ⟨t₁, t₂, rfl, hlogged, hverify⟩ := kmallocIoctl_split h
  obtain ⟨t₃, t₄, rfl, hsilent, hend⟩ := kmallocVerify_split hverify
  rw [logged_append, logged_append, hlogged, hsilent]
  obtain ⟨rfl, rfl⟩ | ⟨v, x, a, y, rfl, rfl⟩ := hend
  · exact ⟨_, rfl, .failed⟩
  · exact ⟨_, rfl, .allocated x y⟩

/-! ## The allocation step of the script -/

/-- `dmesg | grep "Allocating memory" -A 1 | grep -o "0x[a-fA-F0-9]*" | tail -1`; `none` if
that is empty and the script gives up. -/
def allocationStep (dmesg : List Line) : Option Line :=
  let dm := lastLine (grepHex (grepAfter "Allocating memory".toList 1 dmesg))
  if dm = [] then none else some dm

theorem allocationStep_eq_none_iff {dmesg : List Line} : allocationStep dmesg = none ↔
    grepHex (grepAfter "Allocating memory".toList 1 dmesg) = [] := by
  rw [← lastLine_grepHex_eq_nil_iff]
  unfold allocationStep
  dsimp only
  split
  case isTrue h => exact iff_of_true rfl h
  case isFalse h => exact iff_of_false (Option.some_ne_none _) h

/-- `0x%p`. -/
def printedPointer (p : BitVec 64) : Line := "0x".toList ++ (hexPointer p).toList

/-- The log after `mod_ioctl 7`: arbitrary earlier lines, and what was logged from
`timing_open` to `timing_release`. -/
structure AllocationLog where
  earlier : List Line
  trace : List Answered
  ret : Int
  ran : (timingUnlockedIoctl timingIoctlKmalloc).Traces trace (.value ret)
  entries : List Entry
  records_eq : entries.map (·.record) = .openSucceeded :: (logged trace ++ [.releaseSucceeded])

def AllocationLog.lines (g : AllocationLog) : List Line :=
  g.earlier ++ g.entries.map (·.line)

/-- The script goes on if and only if the ioctl returned `0`, and then displays an
address of its record. -/
def AllocationLog.Detected (g : AllocationLog) : Prop :=
  (allocationStep g.lines ≠ none ↔ g.ret = 0) ∧
    ∀ dm, allocationStep g.lines = some dm → ∃ x y size,
      .memoryAllocated x y size ∈ logged g.trace ∧ (dm = printedPointer x ∨ dm = printedPointer y)

/-! ## The lines of the run -/

/-- The digits of `%p`. -/
theorem mem_hexPointer {p : BitVec 64} {c : Char} (h : c ∈ (hexPointer p).toList) :
    c ∈ "0123456789abcdef".toList := by
  have hdigit : ∀ d < 16, Nat.digitChar d ∈ "0123456789abcdef".toList := by decide
  have hdigits : ∀ n, ∀ c ∈ Nat.toDigits 16 n, c ∈ "0123456789abcdef".toList := by
    intro n
    induction n using Nat.strong_induction_on with
    | _ n ih =>
      intro c hc
      rw [Nat.toDigits_eq_if (by decide)] at hc
      split at hc
      case isTrue hn => exact List.mem_singleton.mp hc ▸ hdigit n hn
      case isFalse hn =>
        rcases List.mem_append.mp hc with hc | hc
        · exact ih (n / 16) (Nat.div_lt_self (by omega) (by decide)) c hc
        · exact List.mem_singleton.mp hc ▸ hdigit _ (Nat.mod_lt n (by decide))
  rw [hexPointer, String.toList_ofList] at h
  rcases List.mem_append.mp h with h | h
  · exact List.eq_of_mem_replicate h ▸ by decide
  · exact hdigits _ c h

/-- The pattern of the script does not stand in a text without an `A`. -/
theorem not_selected (t : Stamp) {text : Line} (h : 'A' ∉ text) :
    selects "Allocating memory".toList (t.line text) = false := by
  rw [selects_eq_false_iff (by decide)]
  intro hin
  exact h (((t.infix_line_iff (by decide)).mp hin).subset (by decide))

theorem notMem_line (t : Stamp) {c : Char} (hc : offStamp c = true) {text : Line} (h : c ∉ text) :
    c ∉ t.line text := by
  rw [← List.singleton_infix_iff, t.infix_line_iff hc, List.singleton_infix_iff]
  exact h

/-- A line without an `x` has no match. -/
theorem hexMatches_line (t : Stamp) {text : Line} (h : 'x' ∉ text) :
    hexMatchesFrom none (t.line text) = [] :=
  hexMatchesFrom_of_notMem (notMem_line t (by decide) h)

theorem allocated_text (x y : BitVec 64) (size : Nat) :
    (Record.memoryAllocated x y size).text.toList =
      "Memory allocated at virtual address 0x".toList ++ (hexPointer x).toList ++
        " (aligned at 0x".toList ++ (hexPointer y).toList ++
          ") with a buffer size of ".toList ++ (Nat.repr size).toList ++ " bytes".toList := by
  rw [← String.toList_append, ← String.toList_append, ← String.toList_append,
    ← String.toList_append, ← String.toList_append, ← String.toList_append]
  rfl

/-- **The addresses of the success record.** -/
theorem hexMatches_allocated (t : Stamp) (x y : BitVec 64) (size : Nat) :
    hexMatchesFrom none (t.line (Record.memoryAllocated x y size).text.toList) =
      [printedPointer x, printedPointer y] := by
  have hdigits : ∀ p : BitVec 64, ∀ c ∈ (hexPointer p).toList, isHexDigit c = true := by
    intro p c hc
    have hall : "0123456789abcdef".toList.all isHexDigit = true := by decide
    exact List.all_eq_true.mp hall c (mem_hexPointer hc)
  have h1 : "Memory allocated at virtual address 0x".toList =
      "Memory allocated at virtual address ".toList ++ ['0', 'x'] := by decide
  have h2 : " (aligned at 0x".toList = ' ' :: ("(aligned at ".toList ++ ['0', 'x']) := by decide
  have h3 : ") with a buffer size of ".toList = ')' :: " with a buffer size of ".toList := by
    decide
  have htext : t.line (Record.memoryAllocated x y size).text.toList =
      t.line "Memory allocated at virtual address ".toList ++
        '0' :: 'x' :: ((hexPointer x).toList ++ ' ' :: ("(aligned at ".toList ++
          '0' :: 'x' :: ((hexPointer y).toList ++ ')' :: (" with a buffer size of ".toList ++
            ((Nat.repr size).toList ++ " bytes".toList))))) := by
    rw [allocated_text, h1, h2, h3, Stamp.line_eq, Stamp.line_eq]
    simp only [List.append_assoc, List.cons_append, List.nil_append]
  have hfirst : 'x' ∉ t.line "Memory allocated at virtual address ".toList :=
    notMem_line t (by decide) (by decide)
  have hrest : 'x' ∉ " with a buffer size of ".toList ++
      ((Nat.repr size).toList ++ " bytes".toList) := by
    rw [List.mem_append, List.mem_append, not_or, not_or]
    exact ⟨by decide, repr_notMem (by decide), by decide⟩
  rw [htext, hexMatchesFrom_append hfirst, hexMatchesFrom_digits (hdigits x),
    hexMatchesFrom_end (c := ' ') (by decide),
    hexMatchesFrom_append (s := "(aligned at ".toList) (by decide),
    hexMatchesFrom_digits (hdigits y), hexMatchesFrom_end (c := ')') (by decide),
    hexMatchesFrom_of_notMem hrest]
  rfl

theorem AllocationEnd.not_selected {rec : Record} {r : Return} (h : AllocationEnd rec r)
    (t : Stamp) : selects "Allocating memory".toList (t.line rec.text.toList) = false := by
  refine EcrToolkit.not_selected t ?_
  cases h with
  | failed => decide
  | allocated x y =>
    have hdigits : ∀ p : BitVec 64, 'A' ∉ (hexPointer p).toList := fun p hA =>
      absurd (mem_hexPointer hA) (by decide)
    have hsize : 'A' ∉ (Nat.repr kmallocSize).toList := repr_notMem (by decide)
    rw [allocated_text]
    simp only [List.mem_append, not_or]
    exact ⟨⟨⟨⟨⟨⟨by decide, hdigits x⟩, by decide⟩, hdigits y⟩, by decide⟩, hsize⟩, by decide⟩

/-- What the script finds in the lines of this run, after any `left` lines of context. -/
theorem grepHex_own {es : List Entry} {rec : Record} {r : Return} (hrec : AllocationEnd rec r)
    (hes : es.map (·.record) = [.openSucceeded, .commandReceived timingIoctlKmalloc,
      .allocatingMemory, rec, .releaseSucceeded])
    (printed skipped : Bool) {left : Nat} (hleft : left ≤ 1) : ∃ t : Stamp,
    grepHex (grepAfterFrom "Allocating memory".toList 1 printed skipped left
      (es.map (·.line))) = hexMatchesFrom none (t.line rec.text.toList) := by
  obtain ⟨e₁, es₁, rfl, h₁, hes₁⟩ := List.map_eq_cons_iff.mp hes
  obtain ⟨e₂, es₂, rfl, h₂, hes₂⟩ := List.map_eq_cons_iff.mp hes₁
  obtain ⟨e₃, es₃, rfl, h₃, hes₃⟩ := List.map_eq_cons_iff.mp hes₂
  obtain ⟨e₄, es₄, rfl, h₄, hes₄⟩ := List.map_eq_cons_iff.mp hes₃
  obtain ⟨e₅, es₅, rfl, h₅, hes₅⟩ := List.map_eq_cons_iff.mp hes₄
  obtain rfl := List.map_eq_nil_iff.mp hes₅
  have hl₁ : e₁.line = e₁.stamp.line Record.openSucceeded.text.toList := by rw [Entry.line, h₁]
  have hl₃ : e₃.line = e₃.stamp.line Record.allocatingMemory.text.toList := by
    rw [Entry.line, h₃]
  have hl₄ : e₄.line = e₄.stamp.line rec.text.toList := by rw [Entry.line, h₄]
  have hs₁ : selects "Allocating memory".toList e₁.line = false := by
    rw [hl₁]
    exact not_selected _ (by decide)
  have hs₂ : selects "Allocating memory".toList e₂.line = false := by
    rw [Entry.line, h₂]
    exact not_selected _ (by decide +kernel)
  have hs₃ : selects "Allocating memory".toList e₃.line = true := by
    rw [hl₃]
    exact selects_of_infix ((Stamp.infix_line_iff _ (by decide)).mpr ⟨[], _, rfl⟩)
  have hs₄ : selects "Allocating memory".toList e₄.line = false := by
    rw [hl₄]
    exact hrec.not_selected _
  have hs₅ : selects "Allocating memory".toList e₅.line = false := by
    rw [Entry.line, h₅]
    exact not_selected _ (by decide)
  have hx₁ : hexMatchesFrom none e₁.line = [] := by
    rw [hl₁]
    exact hexMatches_line _ (by decide)
  have hx₃ : hexMatchesFrom none e₃.line = [] := by
    rw [hl₃]
    exact hexMatches_line _ (by decide)
  refine ⟨e₄.stamp, ?_⟩
  -- the record is printed with the line before it
  have hlast : grepHex (grepAfterFrom "Allocating memory".toList 1 printed true 0
      [e₃.line, e₄.line, e₅.line]) = hexMatchesFrom none e₄.line := by
    rw [grepAfterFrom_selected printed true 0 _ hs₃, grepAfterFrom_context true false 0 _ hs₄,
      grepAfterFrom_skip true false _ hs₅, grepHex, List.flatMap_append, List.flatMap_cons, hx₃,
      List.flatMap_cons]
    have hdashes : List.flatMap (hexMatchesFrom none)
        (if (printed && true) = true then [['-', '-']] else []) = [] := by
      split
      · decide
      · rfl
    rw [hdashes]
    exact List.append_nil _
  rw [← hl₄, List.map_cons, List.map_cons]
  -- the first line may still be context of an earlier match
  cases left with
  | zero =>
    rw [grepAfterFrom_skip printed skipped _ hs₁, grepAfterFrom_skip printed true _ hs₂]
    exact hlast
  | succ left =>
    obtain rfl : left = 0 := by omega
    rw [grepAfterFrom_context printed skipped 0 _ hs₁, grepAfterFrom_skip printed skipped _ hs₂,
      grepHex, List.flatMap_cons, hx₁, List.nil_append]
    exact hlast

/-- **What the script finds in the log**: the addresses of earlier lines, and then those of
the record of this run. -/
theorem AllocationLog.matches_eq (g : AllocationLog) {rec : Record}
    (hlogged : logged g.trace = [.commandReceived timingIoctlKmalloc, .allocatingMemory, rec])
    (hrec : AllocationEnd rec (.value g.ret)) :
    ∃ t : Stamp, grepHex (grepAfter "Allocating memory".toList 1 g.lines) =
      grepHex (grepAfter "Allocating memory".toList 1 g.earlier) ++
        hexMatchesFrom none (t.line rec.text.toList) := by
  obtain ⟨printed, skipped, left, hleft, hsplit⟩ :=
    grepAfterFrom_split "Allocating memory".toList 1 false false 0 g.earlier
  obtain ⟨t, hown⟩ := grepHex_own hrec (by rw [g.records_eq, hlogged]; rfl) printed skipped
    (hleft (Nat.zero_le 1))
  refine ⟨t, ?_⟩
  rw [grepAfter, AllocationLog.lines, hsplit, grepHex, List.flatMap_append, ← grepHex, ← grepHex,
    hown]
  rfl

/-- **After a success** the script displays the second address of the record. -/
theorem AllocationLog.step_of_allocated (g : AllocationLog) {x y : BitVec 64}
    (hlogged : logged g.trace = [.commandReceived timingIoctlKmalloc, .allocatingMemory,
      .memoryAllocated x y kmallocSize])
    (hret : g.ret = 0) : allocationStep g.lines = some (printedPointer y) := by
  obtain ⟨t, hmatches⟩ := g.matches_eq hlogged (hret ▸ .allocated x y)
  rw [allocationStep, hmatches, hexMatches_allocated, ← List.singleton_append,
    ← List.append_assoc, lastLine_append_singleton]
  exact if_neg (List.cons_ne_nil _ _)

/-- **When the script notices** how the allocation ended: if it succeeded, or if no
earlier one left an address in the log. -/
theorem allocation_detected_iff (g : AllocationLog) : g.Detected ↔
    g.ret = 0 ∨ ∀ l ∈ grepAfter "Allocating memory".toList 1 g.earlier,
      ¬ "0x".toList <:+: l := by
  obtain ⟨rec, hlogged, hrec⟩ := kmallocIoctl_logged g.ran
  have hnone : (∀ l ∈ grepAfter "Allocating memory".toList 1 g.earlier, ¬ "0x".toList <:+: l) ↔
      grepHex (grepAfter "Allocating memory".toList 1 g.earlier) = [] := grepHex_eq_nil_iff.symm
  rw [hnone]
  rcases hrec.cases with ⟨rfl, hret⟩ | ⟨x, y, rfl, hret⟩
  · -- the address, if there is one, is an earlier one
    obtain ⟨t, hmatches⟩ := g.matches_eq hlogged hrec
    have hnothing : hexMatchesFrom none (t.line Record.allocationFailed.text.toList) = [] :=
      hexMatches_line t (by decide)
    rw [hnothing, List.append_nil] at hmatches
    have hfailed : g.ret ≠ 0 := by
      rw [hret]
      decide
    have hstep : allocationStep g.lines = none ↔
        grepHex (grepAfter "Allocating memory".toList 1 g.earlier) = [] := by
      rw [allocationStep_eq_none_iff, hmatches]
    rw [or_iff_right hfailed, ← hstep]
    constructor
    · intro h
      by_contra hsome
      exact hfailed (h.1.mp hsome)
    · intro h
      refine ⟨iff_of_false (not_not_intro h) hfailed, fun dm hdm => ?_⟩
      rw [h] at hdm
      cases hdm
  · have hstep := g.step_of_allocated hlogged hret
    refine iff_of_true ⟨iff_of_true ?_ hret, fun dm hdm => ?_⟩ (Or.inl hret)
    · rw [hstep]
      exact Option.some_ne_none _
    · rw [hstep] at hdm
      refine ⟨x, y, kmallocSize, ?_, Or.inr (Option.some.inj hdm).symm⟩
      rw [hlogged]
      exact List.mem_of_mem_getLast? rfl

/-- An allocation whose block begins with zeroes, after one that succeeded. -/
def failedAllocation : AllocationLog where
  earlier := [(stampAt 1).line Record.allocatingMemory.text.toList,
    (stampAt 2).line (Record.memoryAllocated 3 5 kmallocSize).text.toList]
  trace := [⟨.prInfo (.commandReceived timingIoctlKmalloc), ()⟩, ⟨.prInfo .allocatingMemory, ()⟩,
    ⟨.readVmem, (0 : BitVec 64)⟩, ⟨.kmalloc kmallocSize, (0x1000 : BitVec 64)⟩,
    ⟨.writeVmem 0x1000, ()⟩, ⟨.readVmem, (0x1000 : BitVec 64)⟩, ⟨.writeVmemAligned 0x1000, ()⟩,
    ⟨.readVmem, (0x1000 : BitVec 64)⟩, ⟨.access .vmem .word 0x1000, (0 : BitVec 64)⟩,
    ⟨.prAlert .allocationFailed, ()⟩]
  ret := -eFault
  ran := .op _ _ <| .op _ _ <| .op _ _ <| .op _ _ <| .op _ _ <| .op _ _ <| .op _ _ <| .op _ _ <|
    .op _ _ <| .op _ _ <| .ret _
  entries := [⟨stampAt 3, .openSucceeded⟩, ⟨stampAt 4, .commandReceived timingIoctlKmalloc⟩,
    ⟨stampAt 5, .allocatingMemory⟩, ⟨stampAt 6, .allocationFailed⟩, ⟨stampAt 7, .releaseSucceeded⟩]
  records_eq := rfl

/-- **The failure is not noticed** after an earlier success. -/
theorem allocation_detected_fails : ¬ ∀ g : AllocationLog, g.Detected := by
  intro hall
  rcases (allocation_detected_iff failedAllocation).mp (hall failedAllocation) with h | h
  · exact absurd h (by decide)
  · have hprinted : (stampAt 2).line (Record.memoryAllocated 3 5 kmallocSize).text.toList ∈
        grepAfter "Allocating memory".toList 1 failedAllocation.earlier := by decide +kernel
    have haddress : ['0', 'x'] <:+:
        (stampAt 2).line (Record.memoryAllocated 3 5 kmallocSize).text.toList := by
      by_contra hno
      have hmatches := hexMatches_allocated (stampAt 2) 3 5 kmallocSize
      rw [hexMatchesFrom_eq_nil_iff.mpr hno] at hmatches
      cases hmatches
    exact h _ hprinted haddress

end EcrToolkit
