import Mathlib.Data.List.Basic

/-!
# Records of fields, as text

A record is written as its fields with `sep` between them and `stop` at its end, and a
sequence of records one after another.  Records that have a field, and neither character in
their fields, are read back as they were written (`decode_encode`).
-/
namespace Delimited

variable {α : Type} {sep stop : α}

variable (sep) in
/-- The fields with `sep` between them. -/
def line (fields : List (List α)) : List α := [sep].intercalate fields

variable (sep stop) in
/-- The text of a record. -/
def text (fields : List (List α)) : List α := line sep fields ++ [stop]

variable (sep stop) in
/-- A record that can be read back. -/
structure Clean (fields : List (List α)) : Prop where
  nonempty : fields ≠ []
  notMem : ∀ f ∈ fields, sep ∉ f ∧ stop ∉ f

theorem mem_intercalate {c : α} {ls : List (List α)} (h : c ∈ [sep].intercalate ls) :
    c = sep ∨ ∃ l ∈ ls, c ∈ l := by
  induction ls with
  | nil => cases h
  | cons l ls ih =>
    cases ls with
    | nil =>
      rw [List.intercalate_singleton] at h
      exact Or.inr ⟨l, List.mem_cons_self, h⟩
    | cons l' ls =>
      rw [List.intercalate_cons_cons] at h
      rcases List.mem_append.mp h with h | h
      · rcases List.mem_append.mp h with h | h
        · exact Or.inr ⟨l, List.mem_cons_self, h⟩
        · exact Or.inl (List.mem_singleton.mp h)
      · exact (ih h).imp_right fun ⟨x, hx, hc⟩ => ⟨x, List.mem_cons_of_mem _ hx, hc⟩

theorem Clean.stop_notMem {fields : List (List α)} (hc : Clean sep stop fields)
    (h : sep ≠ stop) : stop ∉ line sep fields := by
  intro hin
  rcases mem_intercalate hin with heq | ⟨f, hf, hmem⟩
  · exact h heq.symm
  · exact (hc.notMem f hf).2 hmem

/-- The text of records is their lines, and an empty one, with `stop` between them. -/
theorem flatMap_text (rs : List (List (List α))) :
    rs.flatMap (text sep stop) = [stop].intercalate (rs.map (line sep) ++ [[]]) := by
  induction rs with
  | nil => rfl
  | cons r rs ih =>
    have hcons : ∀ ls : List (List α), ls ≠ [] →
        [stop].intercalate (line sep r :: ls) = line sep r ++ [stop] ++ [stop].intercalate ls := by
      intro ls hls
      obtain ⟨l, ls, rfl⟩ := List.exists_cons_of_ne_nil hls
      exact List.intercalate_cons_cons ..
    rw [List.map_cons, List.cons_append, hcons _ (by simp), ← ih]
    rfl

variable [DecidableEq α]

variable (sep stop) in
/-- The fields of the records of a text; `none` if the last record is not ended. -/
def decode (s : List α) : Option (List (List (List α))) :=
  if (s.splitOn stop).getLast? = some [] then
    some ((s.splitOn stop).dropLast.map (·.splitOn sep))
  else none

/-- **Round trip**: records are read back as they were written. -/
theorem decode_encode (h : sep ≠ stop) {rs : List (List (List α))}
    (hrs : ∀ r ∈ rs, Clean sep stop r) :
    decode sep stop (rs.flatMap (text sep stop)) = some rs := by
  have hlines : (rs.flatMap (text sep stop)).splitOn stop = rs.map (line sep) ++ [[]] := by
    rw [flatMap_text]
    refine List.splitOn_intercalate stop (fun l hl => ?_) (by simp)
    rcases List.mem_append.mp hl with hl | hl
    · obtain ⟨r, hr, rfl⟩ := List.mem_map.mp hl
      exact (hrs r hr).stop_notMem h
    · rw [List.mem_singleton.mp hl]
      exact List.not_mem_nil
  rw [decode, hlines, List.getLast?_concat, if_pos rfl, List.dropLast_concat, List.map_map]
  refine congrArg some ((List.map_congr_left fun r hr => ?_).trans rs.map_id)
  exact List.splitOn_intercalate sep (fun f hf => ((hrs r hr).notMem f hf).1) (hrs r hr).nonempty

end Delimited
