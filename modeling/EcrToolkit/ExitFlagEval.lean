import EcrToolkit.ExitFlag
import EcrToolkit.Expansion

/-!
# The exit flag and the working directory

`evaluate_exiting` prints its flag with `echo $exiting`, and the loop stores it with `eval
exit_flag_$j=$(evaluate_exiting ...)`.  Both are unquoted, and the flag `?` is a pattern:
it stands for the files with a name of one character, and `exit_flag_XOR=?` for the files
with such a name.  `keepsVerdict_iff` says in which directories the flag survives.
-/
namespace EcrToolkit

open TextTools Expansion

/-- What the caller of `evaluate_exiting` substitutes: the output of `echo $exiting`. -/
def flagIn (d : Directory) (b : Baselines) (temp1 temp2 : BitVec 64) : Line :=
  substitution (joined (d.expand (evaluateExiting b temp1 temp2).toList) ++ ['\n'])

/-- An instruction of one of the two lists. -/
abbrev Instruction := {j : String // j ∈ standardInstructions ++ flushInstructions}

/-- `exit_flag_$j`. -/
def flagVariable (j : Instruction) : Line := "exit_flag_".toList ++ j.1.toList

/-- The command that `eval exit_flag_$j=$(evaluate_exiting $wall_avg $nop_avg)` executes. -/
def evalCommand (d : Directory) (j : Instruction) (b : Baselines) (wallAvg nopAvg : BitVec 64) :
    Line :=
  joined (d.expand (flagVariable j ++ '=' :: flagIn d b wallAvg nopAvg))

/-- The flag is the same in both directories and one of the three, and in each of them
`eval` assigns it to the variable and does nothing else. -/
def KeepsVerdict (d d' : Directory) (j : Instruction) (b : Baselines)
    (wallAvg nopAvg : BitVec 64) : Prop :=
  flagIn d b wallAvg nopAvg = flagIn d' b wallAvg nopAvg ∧
    flagIn d b wallAvg nopAvg ∈ ["".toList, "?".toList, "X".toList] ∧
      assignment? (evalCommand d j b wallAvg nopAvg) =
        some (flagVariable j, flagIn d b wallAvg nopAvg) ∧
      assignment? (evalCommand d' j b wallAvg nopAvg) =
        some (flagVariable j, flagIn d' b wallAvg nopAvg)

/-- No file stands in for the flag `?`, unless it has that name: none with a name of one
character, and none with the name `exit_flag_$j=` and one character. -/
def Harmless (d : Directory) (j : Instruction) : Prop :=
  (∀ c, c ≠ '.' → [c] ∈ d.names → c = '?') ∧
    ∀ c, flagVariable j ++ ['=', c] ∈ d.names → c = '?'

/-- Of the files with a name of one character, the hidden one apart, there is only `c`. -/
def OnlyName (d : Directory) (c : Char) : Prop :=
  [c] ∈ d.names ∧ ∀ c', c' ≠ '.' → [c'] ∈ d.names → c' = c

/-! ## `echo $exiting` -/

theorem evaluateExiting_mem (b : Baselines) (t1 t2 : BitVec 64) :
    evaluateExiting b t1 t2 ∈ ["", "?", "X"] := by
  rw [evaluateExiting_eq]
  split
  · decide
  · split <;> decide

variable {d d' : Directory} {j : Instruction} {b : Baselines} {t1 t2 : BitVec 64}

theorem mem_matched_question {n : Line} :
    n ∈ d.matched ['?'] ↔ ∃ c, c ≠ '.' ∧ n = [c] ∧ [c] ∈ d.names := by
  have hplain : Plain [] := ⟨nofun, nofun⟩
  rw [mem_matched]
  constructor
  · rintro ⟨hn, hmatch, hhides⟩
    obtain ⟨c, rfl⟩ := (matchesName_question hplain).mp hmatch
    refine ⟨c, ?_, rfl, hn⟩
    rintro rfl
    cases hhides
  · rintro ⟨c, hc, rfl, hn⟩
    refine ⟨hn, rfl, ?_⟩
    have hdot : (some c == some '.') = false := beq_false_of_ne fun h => hc (Option.some.inj h)
    rw [hides, List.head?_cons, hdot, Bool.false_and]

/-- The flag `?` as it comes out of `echo`. -/
theorem flagIn_question (h : evaluateExiting b t1 t2 = "?") :
    flagIn d b t1 t2 = substitution (joined (d.expandField ['?'])) := by
  have hchars : "?".toList = ['?'] := rfl
  rw [flagIn, h, substitution_newline, hchars,
    expand_of_not_blank (List.cons_ne_nil _ _) (List.forall_mem_singleton.mpr rfl)]

/-- No file stands in for it. -/
theorem flagIn_of_harmless (h : evaluateExiting b t1 t2 = "?")
    (hd : ∀ c, c ≠ '.' → [c] ∈ d.names → c = '?') : flagIn d b t1 t2 = ['?'] := by
  have hself : d.expandField ['?'] = [['?']] := by
    refine expandField_eq_self_iff.mpr fun n hn => ?_
    obtain ⟨c, hc, rfl, hmem⟩ := mem_matched_question.mp hn
    rw [hd c hc hmem]
  rw [flagIn_question h, hself, joined_singleton]
  exact substitution_singleton (by decide)

/-- One file does. -/
theorem flagIn_of_onlyName (h : evaluateExiting b t1 t2 = "?") {c : Char} (hc : c ≠ '.')
    (hd : OnlyName d c) : flagIn d b t1 t2 = if c = '\n' then [] else [c] := by
  have hmatched : d.matched ['?'] = [[c]] := by
    refine (eq_nil_or_singleton (nodup_matched d _) fun n hn => ?_).resolve_left ?_
    · obtain ⟨c', hc', rfl, hmem⟩ := mem_matched_question.mp hn
      rw [hd.2 c' hc' hmem]
    · exact List.ne_nil_of_mem (mem_matched_question.mpr ⟨c, hc, rfl, hd.1⟩)
  rw [flagIn_question h, Directory.expandField, hmatched, if_neg (List.cons_ne_nil _ _),
    joined_singleton, substitution, List.rdropWhile_singleton]
  simp only [beq_iff_eq]

/-- **What becomes of the flag `?`**: it stays, or one file stands in for it, or several
do. -/
theorem flagIn_question_cases (d : Directory) (h : evaluateExiting b t1 t2 = "?") :
    (∀ c, c ≠ '.' → [c] ∈ d.names → c = '?') ∨
      (∃ c, c ≠ '.' ∧ c ≠ '?' ∧ OnlyName d c) ∨ ' ' ∈ flagIn d b t1 t2 := by
  have hmem := fun n => mem_matched_question (d := d) (n := n)
  rcases hmatched : d.matched ['?'] with _ | ⟨n, _ | ⟨n', ns⟩⟩
  · refine Or.inl fun c hc hn => ?_
    have hin := (hmem [c]).mpr ⟨c, hc, rfl, hn⟩
    rw [hmatched] at hin
    cases hin
  · obtain ⟨c, hc, rfl, hn⟩ := (hmem n).mp (hmatched ▸ List.mem_cons_self ..)
    have honly : ∀ c', c' ≠ '.' → [c'] ∈ d.names → c' = c := by
      intro c' hc' hn'
      have hin := (hmem [c']).mpr ⟨c', hc', rfl, hn'⟩
      rw [hmatched, List.mem_singleton] at hin
      exact List.singleton_injective hin
    by_cases hquestion : c = '?'
    · exact Or.inl (hquestion ▸ honly)
    · exact Or.inr (Or.inl ⟨c, hc, hquestion, hn, honly⟩)
  · refine Or.inr (Or.inr ?_)
    rw [flagIn_question h, Directory.expandField, hmatched, if_neg (List.cons_ne_nil _ _)]
    exact mem_substitution (by decide) (blank_mem_joined n n' ns)

/-- A flag that is one of the three comes about in one of three ways. -/
theorem flagIn_mem_cases (h : evaluateExiting b t1 t2 = "?")
    (hflag : flagIn d b t1 t2 ∈ ["".toList, "?".toList, "X".toList]) :
    ((∀ c, c ≠ '.' → [c] ∈ d.names → c = '?') ∧ flagIn d b t1 t2 = ['?']) ∨
      (OnlyName d 'X' ∧ flagIn d b t1 t2 = ['X']) ∨
        (OnlyName d '\n' ∧ flagIn d b t1 t2 = []) := by
  rcases flagIn_question_cases d h with hself | ⟨c, hc, hne, honly⟩ | hseveral
  · exact Or.inl ⟨hself, flagIn_of_harmless h hself⟩
  · have hd := flagIn_of_onlyName h hc honly
    by_cases hnewline : c = '\n'
    · rw [if_pos hnewline] at hd
      exact Or.inr (Or.inr ⟨hnewline ▸ honly, hd⟩)
    · rw [if_neg hnewline] at hd
      rw [hd, List.mem_cons, List.mem_cons, List.mem_singleton] at hflag
      rcases hflag with hf | hf | hf
      · cases hf
      · exact absurd (List.singleton_injective hf) hne
      · obtain rfl : c = 'X' := List.singleton_injective hf
        exact Or.inr (Or.inl ⟨honly, hd⟩)
  · have hblank : ∀ flag ∈ ["".toList, "?".toList, "X".toList], ' ' ∉ flag := by decide
    exact absurd hseveral (hblank _ hflag)

/-- The other flags stay as they are. -/
theorem flagIn_of_ne (h : evaluateExiting b t1 t2 ≠ "?") :
    flagIn d b t1 t2 = (evaluateExiting b t1 t2).toList ∧
      ((evaluateExiting b t1 t2).toList = [] ∨ (evaluateExiting b t1 t2).toList = ['X']) := by
  have hflags := evaluateExiting_mem b t1 t2
  rw [List.mem_cons, List.mem_cons, List.mem_singleton] at hflags
  rw [flagIn, substitution_newline]
  rcases hflags with he | he | he
  · have hchars : "".toList = [] := rfl
    rw [he, hchars, expand_nil]
    exact ⟨rfl, Or.inl rfl⟩
  · exact absurd he h
  · have hchars : "X".toList = ['X'] := rfl
    rw [he, hchars, expand_of_not_blank (List.cons_ne_nil _ _) (List.forall_mem_singleton.mpr rfl),
      expandField_plain ⟨by decide, by decide⟩, joined_singleton]
    exact ⟨substitution_singleton (by decide), Or.inr rfl⟩

/-! ## `eval` -/

theorem isName_flagVariable (j : Instruction) : isName (flagVariable j) = true := by
  have hall : (standardInstructions ++ flushInstructions).all
      (fun j => isName ("exit_flag_".toList ++ j.toList)) = true := by decide +kernel
  exact List.all_eq_true.mp hall j.1 j.2

/-- The word that `eval` is given is one field, unless the flag has blanks. -/
theorem evalCommand_eq {flag : Line} (hflag : flagIn d b t1 t2 = flag)
    (hblank : ∀ c ∈ flag, isBlank c = false) : evalCommand d j b t1 t2 =
      joined (d.expandField (flagVariable j ++ '=' :: flag)) := by
  have hname := isName_flagVariable j
  rw [evalCommand, hflag, expand_of_not_blank]
  · exact List.append_ne_nil_of_right_ne_nil _ (List.cons_ne_nil _ _)
  · refine List.forall_mem_append.mpr ⟨fun c hc => isBlank_of_isName hname hc, ?_⟩
    exact List.forall_mem_cons.mpr ⟨rfl, hblank⟩

/-- A flag that is no pattern is assigned. -/
theorem assigned_plain {flag : Line} (hflag : flagIn d b t1 t2 = flag)
    (hplain : flag = [] ∨ flag = ['X']) :
    assignment? (evalCommand d j b t1 t2) = some (flagVariable j, flag) := by
  have hname := isName_flagVariable j
  rw [evalCommand_eq hflag, expandField_plain, joined_singleton, assignment?_eq hname]
  · rcases hplain with rfl | rfl <;> rfl
  · have hvariable := plain_of_isName hname
    rcases hplain with rfl | rfl
    · exact hvariable.append ⟨by decide, by decide⟩
    · exact hvariable.append ⟨by decide, by decide⟩
  · rcases hplain with rfl | rfl
    · nofun
    · exact List.forall_mem_singleton.mpr rfl

theorem mem_matched_flag {n : Line} : n ∈ d.matched (flagVariable j ++ ['=', '?']) ↔
    ∃ c, n = flagVariable j ++ ['=', c] ∧ flagVariable j ++ ['=', c] ∈ d.names := by
  have hplain : Plain (flagVariable j ++ ['=']) :=
    (plain_of_isName (isName_flagVariable j)).append ⟨by decide, by decide⟩
  have hword : ∀ c, flagVariable j ++ ['=', c] = (flagVariable j ++ ['=']) ++ [c] := fun c => by
    rw [List.append_assoc]
    rfl
  rw [mem_matched, hword, matchesName_question hplain]
  constructor
  · rintro ⟨hn, ⟨c, rfl⟩, -⟩
    exact ⟨c, (hword c).symm, hword c ▸ hn⟩
  · rintro ⟨c, rfl, hn⟩
    exact ⟨hn, ⟨c, hword c⟩, rfl⟩

/-- **The flag `?` is assigned** if and only if no other file matches the word. -/
theorem assigned_question_iff (hflag : flagIn d b t1 t2 = ['?']) :
    assignment? (evalCommand d j b t1 t2) = some (flagVariable j, ['?']) ↔
      ∀ c, flagVariable j ++ ['=', c] ∈ d.names → c = '?' := by
  have hname := isName_flagVariable j
  have hmem := fun n => mem_matched_flag (d := d) (j := j) (n := n)
  have hself : (∀ n ∈ d.matched (flagVariable j ++ ['=', '?']),
      n = flagVariable j ++ ['=', '?']) ↔ ∀ c, flagVariable j ++ ['=', c] ∈ d.names → c = '?' := by
    constructor
    · intro hall c hc
      have heq := List.append_cancel_left (hall _ ((hmem _).mpr ⟨c, rfl, hc⟩))
      exact (List.cons.inj (List.cons.inj heq).2).1
    · intro hall n hn
      obtain ⟨c, rfl, hc⟩ := (hmem n).mp hn
      rw [hall c hc]
  rw [evalCommand_eq hflag (List.forall_mem_singleton.mpr rfl), ← hself]
  constructor
  · intro h
    unfold Directory.expandField at h
    cases hmatched : d.matched (flagVariable j ++ ['=', '?']) with
    | nil => nofun
    | cons n ns =>
      rw [hmatched, if_neg (List.cons_ne_nil _ _)] at h
      obtain ⟨c, rfl, -⟩ := (hmem n).mp (hmatched ▸ List.mem_cons_self ..)
      cases ns with
      | nil =>
        -- the text of the only match is executed
        rw [joined_singleton, assignment?_eq hname] at h
        split at h
        case isTrue => cases h
        case isFalse =>
          have hvalue := (Prod.mk.inj (Option.some.inj h)).2
          rw [hvalue]
          exact List.forall_mem_singleton.mpr rfl
      | cons n' ns =>
        -- two words are no single assignment
        have hjoined : joined ((flagVariable j ++ ['=', c]) :: n' :: ns) =
            flagVariable j ++ '=' :: (c :: ' ' :: joined (n' :: ns)) := by
          rw [joined, List.intercalate_cons_cons, List.append_assoc, List.append_assoc]
          rfl
        have hsyntax : (c :: ' ' :: joined (n' :: ns)).any isSyntax = true :=
          List.any_eq_true.mpr ⟨' ', List.mem_cons_of_mem _ (List.mem_cons_self ..), by decide⟩
        rw [hjoined, assignment?_eq hname, if_pos hsyntax] at h
        cases h
  · intro hall
    rw [expandField_eq_self_iff.mpr hall, joined_singleton, assignment?_eq hname]
    rfl

/-! ## Two directories -/

/-- Two directories in which the flag is the same and no pattern. -/
theorem keepsVerdict_plain {flag : Line} (hplain : flag = [] ∨ flag = ['X'])
    (hd : flagIn d b t1 t2 = flag) (hd' : flagIn d' b t1 t2 = flag) :
    KeepsVerdict d d' j b t1 t2 := by
  unfold KeepsVerdict
  rw [assigned_plain hd hplain, assigned_plain hd' hplain, hd, hd']
  refine ⟨rfl, ?_, rfl, rfl⟩
  rcases hplain with rfl | rfl <;> decide

/-- **When the verdict survives**: the flag is not `?`, or in both directories no file
stands in for it, or in both of them `X` is the only name of one character, or a newline. -/
theorem keepsVerdict_iff (d d' : Directory) (j : Instruction) (b : Baselines)
    (t1 t2 : BitVec 64) : KeepsVerdict d d' j b t1 t2 ↔
      evaluateExiting b t1 t2 ≠ "?" ∨ (Harmless d j ∧ Harmless d' j) ∨
        (OnlyName d 'X' ∧ OnlyName d' 'X') ∨ (OnlyName d '\n' ∧ OnlyName d' '\n') := by
  by_cases h : evaluateExiting b t1 t2 = "?"
  case neg =>
    refine iff_of_true ?_ (Or.inl h)
    obtain ⟨hd, hplain⟩ := flagIn_of_ne (d := d) h
    exact keepsVerdict_plain hplain hd (flagIn_of_ne h).1
  rw [or_iff_right (not_not_intro h)]
  constructor
  · rintro ⟨hsame, hflag, hassigned, hassigned'⟩
    have hflag' := hflag
    rw [hsame] at hflag'
    rcases flagIn_mem_cases h hflag with ⟨hself, hd⟩ | ⟨hx, hd⟩ | ⟨hnewline, hd⟩ <;>
      rcases flagIn_mem_cases h hflag' with ⟨hself', hd'⟩ | ⟨hx', hd'⟩ | ⟨hnewline', hd'⟩
    case inl.inl =>
      rw [hd] at hassigned
      rw [hd'] at hassigned'
      exact Or.inl ⟨⟨hself, (assigned_question_iff hd).mp hassigned⟩,
        ⟨hself', (assigned_question_iff hd').mp hassigned'⟩⟩
    case inr.inl.inr.inl => exact Or.inr (Or.inl ⟨hx, hx'⟩)
    case inr.inr.inr.inr => exact Or.inr (Or.inr ⟨hnewline, hnewline'⟩)
    -- the flags differ
    all_goals
      rw [hd, hd'] at hsame
      exact absurd hsame (by decide)
  · rintro (⟨hd, hd'⟩ | ⟨hd, hd'⟩ | ⟨hd, hd'⟩)
    · have hflag := flagIn_of_harmless h hd.1
      have hflag' := flagIn_of_harmless h hd'.1
      unfold KeepsVerdict
      rw [hflag, hflag']
      exact ⟨rfl, by decide, (assigned_question_iff hflag).mpr hd.2,
        (assigned_question_iff hflag').mpr hd'.2⟩
    · exact keepsVerdict_plain (Or.inr rfl) (flagIn_of_onlyName h (by decide) hd)
        (flagIn_of_onlyName h (by decide) hd')
    · exact keepsVerdict_plain (Or.inl rfl) (flagIn_of_onlyName h (by decide) hd)
        (flagIn_of_onlyName h (by decide) hd')

/-- A directory with one file. -/
def oneFile (name : Line) (h : name ≠ [] ∧ '/' ∉ name) : Directory where
  names := [name]
  nodup := List.nodup_singleton name
  valid := List.forall_mem_singleton.mpr h

/-- **A file `a`** becomes the verdict of an instruction that one clock finds slow. -/
theorem keepsVerdict_fails : ¬ ∀ d d' j b t1 t2, KeepsVerdict d d' j b t1 t2 := by
  intro hall
  have h := (keepsVerdict_iff _ _ _ _ _ _).mp (hall ⟨[], List.nodup_nil, nofun⟩
    (oneFile ['a'] (by decide)) ⟨"CPUID", by decide⟩ ⟨100, 10, 90, 20⟩ 80 30)
  have ha : ['a'] ∈ (oneFile ['a'] (by decide)).names := List.mem_cons_self ..
  rcases h with h | ⟨-, h, -⟩ | ⟨⟨h, -⟩, -⟩ | ⟨⟨h, -⟩, -⟩
  · exact h (by decide)
  · exact absurd (h 'a' (by decide) ha) (by decide)
  · cases h
  · cases h

end EcrToolkit
