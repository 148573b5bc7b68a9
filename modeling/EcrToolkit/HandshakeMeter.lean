import EcrToolkit.NopTimer

/-!
# What a NOP measurement is

The events of the two threads, told without the threads: outside the measurements
nothing but log headers, `0` records, `nop`s and `finish`; a measurement is one
`round` — request, acknowledgement, the measured calls, the label, the print
request, one read of `count` with its record, the acknowledgement, the end — with
any number of `nop`s in between.  The number recorded is `f` of the number of
`nop`s between the acknowledged reset and the read.  `HandshakeLog f` is a list of
such events, the last round perhaps unfinished.

`meter f` is the machine that reads such a list event by event.  It accepts
exactly the handshake logs (`meter_accepts_iff`), so a program is measured right
if the meter can follow its steps.
-/
namespace EcrToolkit.NopTimer

open Transitions

variable {ι : Type}

/-- Whether an event is a step of one of the two kernel threads. -/
def Event.ofThreads : Event ι → Bool
  | .begin _ | .stopNop _ _ | .stopInstr _ _ | .ret _ | .badPointer _ => false
  | _ => true

/-- The steps of the kernel threads in a run. -/
def threadEvents (evs : List (Event ι)) : List (Event ι) := evs.filter Event.ofThreads

theorem threadEvents_append (evs es : List (Event ι)) :
    threadEvents (evs ++ es) = threadEvents evs ++ threadEvents es := List.filter_append ..

/-- What the threads do outside the measurements. -/
def Event.outside : Event ι → Bool
  | .header _ _ | .zero _ _ | .nop _ | .finish _ => true
  | _ => false

/-! ## Rounds -/

/-- How many `nop`s fall between the handshake steps of one round. -/
structure Nops where
  toAck : Nat
  toCall : Nat
  inCall : Nat
  toLabel : Nat
  toPrint : Nat
  toRead : Nat
  toLeave : Nat

/-- The `nop`s from the acknowledged reset to the read of `count`. -/
def Nops.counted (k : Nops) : Nat := k.toCall + k.inCall + k.toLabel + k.toPrint + k.toRead

def nops (i : ι) (n : Nat) : List (Event ι) := List.replicate n (.nop i)

theorem threadEvents_nops (i : ι) (n : Nat) : threadEvents (nops i n) = nops i n := by
  refine List.filter_eq_self.mpr fun e he => ?_
  rw [List.eq_of_mem_replicate he]
  rfl

section Round
variable (f : Nat → Nat) (i : ι) (name : String) (k : Nops)

/-- The round up to the acknowledgement of the reset. -/
def requested : List (Event ι) := .enter i name :: nops i k.toAck

/-- The round up to the first measured call. -/
def armed : List (Event ι) := requested i name k ++ .ackReset i :: nops i k.toCall

/-- The round up to the end of the measured calls. -/
def inCall : List (Event ι) := armed i name k ++ .callEnter i name :: nops i k.inCall

/-- The round up to the label. -/
def called : List (Event ι) := inCall i name k ++ .callLeave i name :: nops i k.toLabel

/-- The round up to the print request. -/
def labelled : List (Event ι) := called i name k ++ .label i name :: nops i k.toPrint

/-- The round up to the read of `count`. -/
def printing : List (Event ι) := labelled i name k ++ .printRequest i name :: nops i k.toRead

/-- The round up to its last step. -/
def answered : List (Event ι) :=
  printing i name k ++ .readCount i :: .count i (f k.counted) :: .ackPrint i :: nops i k.toLeave

/-- **One measurement**, with the number `f` makes of the `nop`s counted. -/
def round : List (Event ι) := answered f i name k ++ [.leave i name]

end Round

/-- Complete rounds, and what is done outside them. -/
inductive Rounds (f : Nat → Nat) : List (Event ι) → Prop
  | nil : Rounds f []
  | outside {evs} (e : Event ι) : Rounds f evs → e.outside = true → Rounds f (evs ++ [e])
  | round {evs} (i : ι) (name : String) (k : Nops) : Rounds f evs →
      Rounds f (evs ++ NopTimer.round f i name k)

/-- **A log of measurements**, the last one perhaps unfinished. -/
def HandshakeLog (f : Nat → Nat) (evs : List (Event ι)) : Prop :=
  ∃ done tail, evs = done ++ tail ∧ Rounds f done ∧
    (tail = [] ∨ ∃ i name k, tail <+: round f i name k)

/-! ## The meter -/

/-- The stretches of a round in which `nop`s count. -/
inductive Stretch
  | armed
  | inCall
  | called
  | labelled
  | printing
  deriving DecidableEq

/-- Where in a round the meter is, and how many `nop`s it has counted. -/
inductive Phase (ι : Type)
  | idle
  | requested (i : ι) (name : String)
  | counting (i : ι) (name : String) (st : Stretch) (n : Nat)
  | read (i : ι) (name : String) (n : Nat)
  | recorded (i : ι) (name : String)
  | answered (i : ι) (name : String)
  deriving DecidableEq

variable [DecidableEq ι]

/-- The meter reads a `nop` of the NOP thread of call `i`. -/
def Phase.onNop (i : ι) : Phase ι → Option (Phase ι)
  | .idle => some .idle
  | .requested j name => if i = j then some (.requested j name) else none
  | .counting j name st n => if i = j then some (.counting j name st (n + 1)) else none
  | .answered j name => if i = j then some (.answered j name) else none
  | .read _ _ _ | .recorded _ _ => none

/-- The meter reads any other event. -/
def Phase.onStep (f : Nat → Nat) : Phase ι → Event ι → Option (Phase ι)
  | .idle, .enter i name => some (.requested i name)
  | .idle, e => if e.outside then some .idle else none
  | .requested i name, e => if e = .ackReset i then some (.counting i name .armed 0) else none
  | .counting i name .armed n, e =>
    if e = .callEnter i name then some (.counting i name .inCall n) else none
  | .counting i name .inCall n, e =>
    if e = .callLeave i name then some (.counting i name .called n) else none
  | .counting i name .called n, e =>
    if e = .label i name then some (.counting i name .labelled n) else none
  | .counting i name .labelled n, e =>
    if e = .printRequest i name then some (.counting i name .printing n) else none
  | .counting i name .printing n, e =>
    if e = .readCount i then some (.read i name (f n)) else none
  | .read i name n, e => if e = .count i n then some (.recorded i name) else none
  | .recorded i name, e => if e = .ackPrint i then some (.answered i name) else none
  | .answered i name, e => if e = .leave i name then some .idle else none

/-- The meter reads one event. -/
def meterNext (f : Nat → Nat) (m : Phase ι) : Event ι → Option (Phase ι)
  | .nop i => m.onNop i
  | e => m.onStep f e

/-- **The meter**: it follows a log of measurements and refuses anything else. -/
def meter (f : Nat → Nat) : Monitor (Phase ι) (Event ι) := ⟨.idle, meterNext f⟩

/-! ## Accepted logs are handshake logs -/

omit [DecidableEq ι] in
theorem nops_succ (i : ι) (n : Nat) : nops i (n + 1) = nops i n ++ [.nop i] :=
  List.replicate_succ'

/-- What the meter has read since the last complete round. -/
def Open (f : Nat → Nat) : Phase ι → List (Event ι) → Prop
  | .idle, tail => tail = []
  | .requested i name, tail => ∃ k, tail = requested i name k
  | .counting i name .armed n, tail => ∃ k, tail = armed i name k ∧ n = k.toCall
  | .counting i name .inCall n, tail => ∃ k, tail = inCall i name k ∧ n = k.toCall + k.inCall
  | .counting i name .called n, tail =>
    ∃ k, tail = called i name k ∧ n = k.toCall + k.inCall + k.toLabel
  | .counting i name .labelled n, tail =>
    ∃ k, tail = labelled i name k ∧ n = k.toCall + k.inCall + k.toLabel + k.toPrint
  | .counting i name .printing n, tail => ∃ k, tail = printing i name k ∧ n = k.counted
  | .read i name n, tail => ∃ k, tail = printing i name k ++ [.readCount i] ∧ n = f k.counted
  | .recorded i name, tail =>
    ∃ k, tail = printing i name k ++ [.readCount i, .count i (f k.counted)]
  | .answered i name, tail => ∃ k, tail = answered f i name k

/-- A `nop` prolongs the stretch the meter is in. -/
theorem Open.nop {f : Nat → Nat} {m m' : Phase ι} {i : ι} {tail : List (Event ι)}
    (h : Open f m tail) (hm : m ≠ .idle) (hn : m.onNop i = some m') :
    Open f m' (tail ++ [.nop i]) := by
  cases m with
  | idle => exact absurd rfl hm
  | requested j name =>
    obtain ⟨k, rfl⟩ := h
    obtain ⟨rfl, hm'⟩ := Option.ite_none_right_eq_some.mp hn
    cases hm'
    exact ⟨{ k with toAck := k.toAck + 1 }, by simp [requested, nops_succ]⟩
  | counting j name st n =>
    obtain ⟨rfl, hm'⟩ := Option.ite_none_right_eq_some.mp hn
    cases hm'
    cases st with
    | armed =>
      obtain ⟨k, rfl, rfl⟩ := h
      exact ⟨{ k with toCall := k.toCall + 1 }, by simp [armed, requested, nops_succ], rfl⟩
    | inCall =>
      obtain ⟨k, rfl, rfl⟩ := h
      exact ⟨{ k with inCall := k.inCall + 1 },
        by simp [inCall, armed, requested, nops_succ], rfl⟩
    | called =>
      obtain ⟨k, rfl, rfl⟩ := h
      exact ⟨{ k with toLabel := k.toLabel + 1 },
        by simp [called, inCall, armed, requested, nops_succ], rfl⟩
    | labelled =>
      obtain ⟨k, rfl, rfl⟩ := h
      exact ⟨{ k with toPrint := k.toPrint + 1 },
        by simp [labelled, called, inCall, armed, requested, nops_succ], rfl⟩
    | printing =>
      obtain ⟨k, rfl, rfl⟩ := h
      exact ⟨{ k with toRead := k.toRead + 1 },
        by simp [printing, labelled, called, inCall, armed, requested, nops_succ], rfl⟩
  | read j name n | recorded j name => cases hn
  | answered j name =>
    obtain ⟨k, rfl⟩ := h
    obtain ⟨rfl, hm'⟩ := Option.ite_none_right_eq_some.mp hn
    cases hm'
    refine ⟨{ k with toLeave := k.toLeave + 1 }, ?_⟩
    show _ = printing i name k ++ _
    simp [answered, nops_succ, Nops.counted]

/-- A handshake step opens the next stretch. -/
theorem Open.step {f : Nat → Nat} {m m' : Phase ι} {e : Event ι} {tail : List (Event ι)}
    (h : Open f m tail) (hm : m ≠ .idle) (hn : m.onStep f e = some m') :
    Open f m' (tail ++ [e]) ∨ m' = .idle ∧ ∃ i name k, tail ++ [e] = round f i name k := by
  cases m with
  | idle => exact absurd rfl hm
  | requested i name =>
    obtain ⟨k, rfl⟩ := h
    obtain ⟨rfl, hm'⟩ := Option.ite_none_right_eq_some.mp hn
    cases hm'
    exact Or.inl ⟨{ k with toCall := 0 }, rfl, rfl⟩
  | counting i name st n =>
    cases st with
    | armed =>
      obtain ⟨k, rfl, rfl⟩ := h
      obtain ⟨rfl, hm'⟩ := Option.ite_none_right_eq_some.mp hn
      cases hm'
      exact Or.inl ⟨{ k with inCall := 0 }, rfl, rfl⟩
    | inCall =>
      obtain ⟨k, rfl, rfl⟩ := h
      obtain ⟨rfl, hm'⟩ := Option.ite_none_right_eq_some.mp hn
      cases hm'
      exact Or.inl ⟨{ k with toLabel := 0 }, rfl, rfl⟩
    | called =>
      obtain ⟨k, rfl, rfl⟩ := h
      obtain ⟨rfl, hm'⟩ := Option.ite_none_right_eq_some.mp hn
      cases hm'
      exact Or.inl ⟨{ k with toPrint := 0 }, rfl, rfl⟩
    | labelled =>
      obtain ⟨k, rfl, rfl⟩ := h
      obtain ⟨rfl, hm'⟩ := Option.ite_none_right_eq_some.mp hn
      cases hm'
      exact Or.inl ⟨{ k with toRead := 0 }, rfl, rfl⟩
    | printing =>
      obtain ⟨k, rfl, rfl⟩ := h
      obtain ⟨rfl, hm'⟩ := Option.ite_none_right_eq_some.mp hn
      cases hm'
      exact Or.inl ⟨k, rfl, rfl⟩
  | read i name n =>
    obtain ⟨k, rfl, rfl⟩ := h
    obtain ⟨rfl, hm'⟩ := Option.ite_none_right_eq_some.mp hn
    cases hm'
    exact Or.inl ⟨k, by simp⟩
  | recorded i name =>
    obtain ⟨k, rfl⟩ := h
    obtain ⟨rfl, hm'⟩ := Option.ite_none_right_eq_some.mp hn
    cases hm'
    refine Or.inl ⟨{ k with toLeave := 0 }, ?_⟩
    show _ = printing i name k ++ _
    simp [nops, Nops.counted]
  | answered i name =>
    obtain ⟨k, rfl⟩ := h
    obtain ⟨rfl, hm'⟩ := Option.ite_none_right_eq_some.mp hn
    cases hm'
    exact Or.inr ⟨rfl, i, name, k, rfl⟩

omit [DecidableEq ι] in
/-- What the meter has read of a round is the start of one. -/
theorem Open.prefix {f : Nat → Nat} {m : Phase ι} {tail : List (Event ι)} (h : Open f m tail) :
    tail = [] ∨ ∃ i name k, tail <+: round f i name k := by
  have late : ∀ {i : ι} {name k} {l : List (Event ι)}, l <+: printing i name k →
      l <+: round f i name k := by
    intro i name k l hl
    rw [round, answered, List.append_assoc]
    exact hl.trans (List.prefix_append _ _)
  cases m with
  | idle => exact Or.inl h
  | requested i name =>
    obtain ⟨k, rfl⟩ := h
    refine Or.inr ⟨i, name, k, late ?_⟩
    simp [printing, labelled, called, inCall, armed, List.append_assoc]
  | counting i name st n =>
    cases st
    case armed =>
      obtain ⟨k, rfl, -⟩ := h
      refine Or.inr ⟨i, name, k, late ?_⟩
      simp [printing, labelled, called, inCall, List.append_assoc]
    case inCall =>
      obtain ⟨k, rfl, -⟩ := h
      refine Or.inr ⟨i, name, k, late ?_⟩
      simp [printing, labelled, called, List.append_assoc]
    case called =>
      obtain ⟨k, rfl, -⟩ := h
      refine Or.inr ⟨i, name, k, late ?_⟩
      simp [printing, labelled, List.append_assoc]
    case labelled =>
      obtain ⟨k, rfl, -⟩ := h
      exact Or.inr ⟨i, name, k, late (by simp [printing])⟩
    case printing =>
      obtain ⟨k, rfl, -⟩ := h
      exact Or.inr ⟨i, name, k, late (List.prefix_refl _)⟩
  | read i name n =>
    obtain ⟨k, rfl, -⟩ := h
    exact Or.inr ⟨i, name, k, by simp [round, answered]⟩
  | recorded i name =>
    obtain ⟨k, rfl⟩ := h
    exact Or.inr ⟨i, name, k, by simp [round, answered]⟩
  | answered i name =>
    obtain ⟨k, rfl⟩ := h
    exact Or.inr ⟨i, name, k, List.prefix_append _ _⟩

/-- What the meter has accepted is complete rounds, and a beginning that leads to its
phase. -/
theorem exists_open_of_accepts {f : Nat → Nat} {evs : List (Event ι)} {m : Phase ι}
    (h : (meter f).Accepts evs m) :
    ∃ done tail, evs = done ++ tail ∧ Rounds f done ∧ Open f m tail := by
  refine Monitor.Accepts.induction (M := meter f)
    (P := fun evs m => ∃ done tail, evs = done ++ tail ∧ Rounds f done ∧ Open f m tail)
    ⟨[], [], rfl, .nil, rfl⟩ ?_ h
  rintro evs m e m' ⟨done, tail, rfl, hd, ht⟩ hn
  by_cases hm : m = .idle
  · subst hm
    obtain rfl : tail = [] := ht
    by_cases he : ∃ i name, e = .enter i name
    · obtain ⟨i, name, rfl⟩ := he
      cases hn
      exact ⟨done, [.enter i name], by simp, hd, ⟨0, 0, 0, 0, 0, 0, 0⟩, rfl⟩
    · have hout : e.outside = true ∧ m' = .idle := by
        cases e <;> simp_all [meter, meterNext, Phase.onNop, Phase.onStep, Event.outside]
      exact ⟨done ++ [e], [], by simp, .outside e hd hout.1, by rw [hout.2]; rfl⟩
  · have hnext : Open f m' (tail ++ [e]) ∨
        m' = .idle ∧ ∃ i name k, tail ++ [e] = round f i name k := by
      by_cases he : ∃ i, e = .nop i
      · obtain ⟨i, rfl⟩ := he
        exact Or.inl (ht.nop hm hn)
      · refine ht.step hm ?_
        cases e <;> first | exact hn | exact absurd ⟨_, rfl⟩ he
    rcases hnext with hopen | ⟨rfl, i, name, k, hround⟩
    · exact ⟨done, tail ++ [e], by simp, hd, hopen⟩
    · refine ⟨done ++ (tail ++ [e]), [], by simp, ?_, rfl⟩
      rw [hround]
      exact .round i name k hd

/-- **What the meter accepts is a handshake log.** -/
theorem handshakeLog_of_accepts {f : Nat → Nat} {evs : List (Event ι)} {m : Phase ι}
    (h : (meter f).Accepts evs m) : HandshakeLog f evs := by
  obtain ⟨done, tail, rfl, hd, ht⟩ := exists_open_of_accepts h
  exact ⟨done, tail, rfl, hd, ht.prefix⟩

/-- When the meter is idle, all rounds are complete. -/
theorem rounds_of_accepts {f : Nat → Nat} {evs : List (Event ι)}
    (h : (meter f).Accepts evs .idle) : Rounds f evs := by
  obtain ⟨done, tail, rfl, hd, ht⟩ := exists_open_of_accepts h
  obtain rfl : tail = [] := ht
  rwa [List.append_nil]

/-! ## Handshake logs are accepted -/

/-- Read the one event of a step. -/
theorem read_one {f : Nat → Nat} {m m' : Phase ι} {e : Event ι} (he : e.ofThreads = true)
    (hn : meterNext f m e = some m') : (meter f).readFrom m (threadEvents [e]) = some m' := by
  rw [threadEvents, List.filter_cons_of_pos he, List.filter_nil, Monitor.readFrom_singleton]
  exact hn

section Reading
variable (f : Nat → Nat) (i : ι) (name : String) (k : Nops)

theorem read_nops_requested (n : Nat) :
    (meter f).readFrom (.requested i name) (nops i n) = some (.requested i name) := by
  induction n with
  | zero => rfl
  | succ n ih =>
    rw [nops_succ, Monitor.readFrom_append, ih]
    simp [Monitor.readFrom_singleton, meter, meterNext, Phase.onNop]

theorem read_nops_counting (st : Stretch) (c n : Nat) :
    (meter f).readFrom (.counting i name st c) (nops i n) = some (.counting i name st (c + n)) := by
  induction n with
  | zero => rfl
  | succ n ih =>
    rw [nops_succ, Monitor.readFrom_append, ih]
    simp [Monitor.readFrom_singleton, meter, meterNext, Phase.onNop, Nat.add_assoc]

theorem read_nops_answered (n : Nat) :
    (meter f).readFrom (.answered i name) (nops i n) = some (.answered i name) := by
  induction n with
  | zero => rfl
  | succ n ih =>
    rw [nops_succ, Monitor.readFrom_append, ih]
    simp [Monitor.readFrom_singleton, meter, meterNext, Phase.onNop]

/-- Read a handshake step and the `nop`s of the stretch it opens. -/
theorem read_stretch {m : Phase ι} {e : Event ι} {l : List (Event ι)} {t : Stretch} {c : Nat}
    (hl : (meter f).readFrom .idle l = some m)
    (he : (meter f).next m e = some (.counting i name t c)) (n : Nat) :
    (meter f).readFrom .idle (l ++ e :: nops i n) = some (.counting i name t (c + n)) := by
  rw [Monitor.readFrom_append, hl]
  show (meter f).readFrom m (e :: nops i n) = _
  rw [Monitor.readFrom_cons_of_next _ he, read_nops_counting]

theorem read_printing :
    (meter f).readFrom .idle (printing i name k) =
      some (.counting i name .printing (0 + k.counted)) := by
  have hreq : (meter f).readFrom .idle (requested i name k) = some (.requested i name) :=
    read_nops_requested f i name k.toAck
  have harmed := read_stretch f i name (e := .ackReset i) (t := .armed) (c := 0) hreq
    (by simp [meter, meterNext, Phase.onStep]) k.toCall
  have hcall := read_stretch f i name (e := .callEnter i name) (t := .inCall) harmed
    (if_pos rfl) k.inCall
  have hcalled := read_stretch f i name (e := .callLeave i name) (t := .called) hcall
    (if_pos rfl) k.toLabel
  have hlabel := read_stretch f i name (e := .label i name) (t := .labelled) hcalled
    (if_pos rfl) k.toPrint
  have hprint := read_stretch f i name (e := .printRequest i name) (t := .printing) hlabel
    (if_pos rfl) k.toRead
  simp only [Nat.add_assoc] at hprint
  rw [Nops.counted]
  simp only [Nat.add_assoc]
  exact hprint

/-- **A round takes the meter from idle to idle.** -/
theorem read_round : (meter f).readFrom .idle (round f i name k) = some .idle := by
  have hp := read_printing f i name k
  rw [Nat.zero_add] at hp
  rw [round, answered, Monitor.readFrom_append, Monitor.readFrom_append, hp]
  show ((meter f).readFrom _ (_ :: _ :: _ :: _)).bind _ = _
  have hread : (meter f).next (.counting i name .printing k.counted) (.readCount i) =
      some (.read i name (f k.counted)) := if_pos rfl
  have hcount : (meter f).next (.read i name (f k.counted)) (.count i (f k.counted)) =
      some (.recorded i name) := if_pos rfl
  have hack : (meter f).next (.recorded i name) (.ackPrint i) = some (.answered i name) :=
    if_pos rfl
  rw [Monitor.readFrom_cons_of_next _ hread, Monitor.readFrom_cons_of_next _ hcount,
    Monitor.readFrom_cons_of_next _ hack, read_nops_answered]
  show (meter f).readFrom _ [_] = _
  rw [Monitor.readFrom_singleton]
  exact if_pos rfl

end Reading

theorem Rounds.accepts {f : Nat → Nat} {evs : List (Event ι)} (h : Rounds f evs) :
    (meter f).Accepts evs .idle := by
  induction h with
  | nil => rfl
  | outside e _ hout ih =>
    refine ih.append ?_
    rw [Monitor.readFrom_singleton]
    cases e <;> first | rfl | cases hout
  | round i name k _ ih => exact ih.append (read_round f i name k)

/-- **The meter accepts exactly the handshake logs.** -/
theorem meter_accepts_iff {f : Nat → Nat} {evs : List (Event ι)} :
    (∃ m, (meter f).Accepts evs m) ↔ HandshakeLog f evs := by
  constructor
  · rintro ⟨m, hm⟩
    exact handshakeLog_of_accepts hm
  · rintro ⟨done, tail, rfl, hd, ht⟩
    have htail : ∃ m, (meter f).readFrom .idle tail = some m := by
      rcases ht with rfl | ⟨i, name, k, hle⟩
      · exact ⟨.idle, rfl⟩
      · exact Monitor.exists_readFrom_of_prefix _ hle (read_round f i name k)
    obtain ⟨m, hm⟩ := htail
    exact ⟨m, hd.accepts.append hm⟩

end EcrToolkit.NopTimer
