import Formulary.Proofs.Filter.Verdict

/-! What becomes of properties that the checker has decided. Lines about properties without an answer are told by
    their question mark, wherever it stands in the line. Names of models have none, but instances may have one, and
    then it stands in every id: no decided property is kept exactly if the instance is without it. -/

namespace Formulary

namespace Verdict
variable {s : PropertySet}

/-! ### Remarks about properties -/

/-- What the checker finds out about a property. -/
inductive Finding where
  | unknown
  | holds
  | fails
deriving DecidableEq, Repr

def Finding.mark : Finding → String
  | unknown => "?"
  | holds => "TRUE"
  | fails => "FALSE"

/-- A line of the checker about the property at a position. -/
structure Remark where
  position : Nat
  finding : Finding
  tail : List Char

namespace Remark

def isOpen (r : Remark) : Bool := r.finding = .unknown

def line (s : PropertySet) (r : Remark) : List Char := about s r.position (r.finding.mark.toList ++ ' ' :: r.tail)

/-- The position is a machine word, and what follows the finding is a single line without question marks. -/
structure IsPlain (r : Remark) : Prop where
  position : r.position < UInt64.size
  newline : '\n' ∉ r.tail
  mark : '?' ∉ r.tail

variable {r : Remark}

theorem newline_not_mem_said (h : r.IsPlain) : '\n' ∉ r.finding.mark.toList ++ ' ' :: r.tail := by
  have hmark : '\n' ∉ r.finding.mark.toList := by cases r.finding <;> decide
  have hspace : '\n' ≠ ' ' := by decide
  simp [hmark, hspace, h.newline]

theorem newline_not_mem_line (hname : '\n' ∉ s.model.name.toList) (hinstance : '\n' ∉ s.model.instanceName.toList)
    (h : r.IsPlain) : '\n' ∉ r.line s :=
  newline_not_mem_about hname hinstance r.position (newline_not_mem_said h)

theorem mark_mem_stem (hname : '?' ∉ s.model.name.toList) : '?' ∈ s.stem ↔ '?' ∈ s.model.instanceName.toList := by
  have htag : '?' ∉ s.model.variant.tag.toList := by cases s.model.variant <;> decide
  have hcategory : '?' ∉ s.category.name.toList := by cases s.category <;> decide
  have hdash : '?' ≠ '-' := by decide
  rw [PropertySet.toList_stem]
  simp [hname, htag, hcategory, hdash]

/-- A line counts as one without an answer also if the question mark is the instance's. -/
theorem isUnknown_line_iff (hname : '?' ∉ s.model.name.toList) (h : r.IsPlain) :
    isUnknown (r.line s) = true ↔ r.isOpen = true ∨ '?' ∈ s.model.instanceName.toList := by
  have hword : '?' ∉ "FORMULA ".toList := by decide
  have hindex : '?' ∉ (PropertySet.indexText r.position).toList := fun hmem =>
    absurd (PropertySet.isDigit_indexText r.position _ hmem) Bool.false_ne_true
  have hmark : '?' ∈ r.finding.mark.toList ↔ r.isOpen = true := by
    unfold isOpen
    cases r.finding <;> decide
  have hsigns : '?' ≠ '-' ∧ '?' ≠ ' ' := by decide
  have hline : '?' ∈ r.line s ↔ r.isOpen = true ∨ '?' ∈ s.model.instanceName.toList := by
    unfold line
    rw [about_eq]
    simp only [List.mem_append, List.mem_cons, hword, mark_mem_stem hname, hindex, hmark, h.mark, hsigns.1, hsigns.2,
      false_or, or_false]
    exact or_comm
  exact List.contains_iff_mem.trans hline

end Remark

/-! ### Reports -/

/-- The remarks whose lines the stages leave. -/
def passed (s : PropertySet) (remarks : List Remark) : List Remark :=
  remarks.filter fun r => r.isOpen || s.model.instanceName.toList.contains '?'

variable {remarks : List Remark}

theorem unknown_remarks (hname : '?' ∉ s.model.name.toList) (hplain : ∀ r ∈ remarks, r.IsPlain) :
    (spoken (remarks.map (Remark.line s))).filter isUnknown = (passed s remarks).map (Remark.line s) := by
  have hspoken : spoken (remarks.map (Remark.line s)) = remarks.map (Remark.line s) := by
    unfold spoken
    rw [List.filter_eq_self]
    intro l hl
    obtain ⟨r, -, rfl⟩ := List.mem_map.mp hl
    have hlog : isLog (r.line s) = false := isLog_about s r.position _
    rw [hlog]
    rfl
  rw [hspoken, List.filter_map, passed]
  congr 1
  refine List.filter_congr fun r hr => ?_
  have hline := Remark.isUnknown_line_iff hname (hplain r hr)
  rw [Function.comp_apply, Bool.eq_iff_iff, Bool.or_eq_true, List.contains_iff_mem]
  exact hline

/-- What the stages leave of a report are the positions of the remarks that pass, in order. -/
theorem positions_of_passed (hname : '?' ∉ s.model.name.toList) (hdash : '-' ∉ s.model.name.toList)
    (hplain : ∀ r ∈ remarks, r.IsPlain) :
    positions (Text.ofLines (stages (positionField s.model.instanceName) (remarks.map (Remark.line s))).2) =
      ([], (passed s remarks).map (·.position)) := by
  have hpassed : ∀ r ∈ passed s remarks, r.IsPlain := fun r hr => hplain r (List.mem_filter.mp hr).1
  have hfields : (stages (positionField s.model.instanceName) (remarks.map (Remark.line s))).2 =
      ((passed s remarks).map (Remark.line s)).map (field (positionField s.model.instanceName)) := by
    unfold stages
    dsimp only
    rw [unknown_remarks hname hplain]
  rw [hfields, List.map_map]
  refine positions_ofLines ?_ ?_
  · intro v hv
    obtain ⟨r, hr, rfl⟩ := List.mem_map.mp hv
    exact newline_not_mem_field_about hdash r.position (Remark.newline_not_mem_said (hpassed r hr))
  · rw [List.map_map, List.map_map]
    refine List.map_congr_left fun r hr => ?_
    have hread := position?_field_about hdash (hpassed r hr).position (r.finding.mark.toList ++ ' ' :: r.tail)
    rw [Function.comp_apply, Function.comp_apply, Function.comp_apply, Remark.line, hread]

theorem passed_eq_open_iff (s : PropertySet) (remarks : List Remark) :
    (passed s remarks).map (·.position) = (remarks.filter (·.isOpen)).map (·.position) ↔
      '?' ∉ s.model.instanceName.toList ∨ ∀ r ∈ remarks, r.isOpen = true := by
  by_cases hmark : '?' ∈ s.model.instanceName.toList
  · have hall : passed s remarks = remarks := by simp [passed, hmark]
    constructor
    · intro h
      have hlength := congrArg List.length h
      rw [hall, List.length_map, List.length_map] at hlength
      exact .inr (List.length_filter_eq_length_iff.mp hlength.symm)
    · rintro (hnone | hopen)
      · exact absurd hmark hnone
      · rw [hall, List.filter_eq_self.mpr hopen]
  · have hopen : passed s remarks = remarks.filter (·.isOpen) := by simp [passed, hmark]
    rw [hopen]
    exact ⟨fun _ => .inl hmark, fun _ => rfl⟩

/-- The checker's reply keeps the positions that are read from its output, if that is a text. -/
theorem reply_of_positions {request : Request} {done : Completion} {K : List Nat} (hstatus : done.status = 0)
    (hnull : '\x00' ∉ done.output.toList)
    (h : positions (Text.ofLines
      (stages (positionField request.properties.model.instanceName) (Text.lines done.output.toList)).2) = ([], K)) :
    (Checker.reply request done).verdict = .ok K := by
  have hstages : ofOutput (positionField request.properties.model.instanceName) done.output.toList =
      stages (positionField request.properties.model.instanceName) (Text.lines done.output.toList) :=
    if_neg fun hmem => hnull (List.contains_iff_mem.mp hmem)
  unfold Checker.reply
  rw [hstages]
  dsimp only
  rw [if_pos hstatus, h]

/-- The positions that are read from a report are those of the properties without an answer exactly if the instance
    has no question mark or the checker has decided none of the properties. Otherwise they are all positions. The reply
    of the checker keeps what is read, unless its output holds null characters and is no text. -/
theorem positions_of_remarks {dir : String} (hdir : ModelKey.ofDirectoryName? dir = some s.model)
    (hplain : ∀ r ∈ remarks, r.IsPlain) :
    Text.lines (Text.ofLines (remarks.map (Remark.line s))) = remarks.map (Remark.line s) ∧
      ∀ output, Text.lines output = remarks.map (Remark.line s) →
        ∃ delivered,
          positions (Text.ofLines (stages (positionField s.model.instanceName) (Text.lines output)).2) =
            ([], delivered) ∧
          delivered = (passed s remarks).map (·.position) ∧
          (delivered = (remarks.filter (·.isOpen)).map (·.position) ↔
            '?' ∉ s.model.instanceName.toList ∨ ∀ r ∈ remarks, r.isOpen = true) ∧
          ('\x00' ∉ output → ∀ request done, request.properties = s → done.output.toList = output →
            done.status = 0 → (Checker.reply request done).verdict = .ok delivered) := by
  have hname : '?' ∉ s.model.name.toList := ModelKey.not_mem_name_of_ofDirectoryName? hdir (by decide)
  have hdash : '-' ∉ s.model.name.toList := ModelKey.not_mem_name_of_ofDirectoryName? hdir (by decide)
  have hnewline : '\n' ∉ s.model.name.toList := ModelKey.not_mem_name_of_ofDirectoryName? hdir (by decide)
  have hinstance := (ModelKey.of_ofDirectoryName? hdir).2
  refine ⟨Text.lines_ofLines ?_, ?_⟩
  · intro l hl
    obtain ⟨r, hr, rfl⟩ := List.mem_map.mp hl
    exact Remark.newline_not_mem_line hnewline hinstance (hplain r hr)
  · intro output houtput
    have hread := positions_of_passed hname hdash hplain
    rw [← houtput] at hread
    refine ⟨_, hread, rfl, passed_eq_open_iff s remarks, ?_⟩
    rintro hnull request done rfl rfl hstatus
    exact reply_of_positions hstatus hnull hread

/-- Properties of an instance with a question mark. -/
def markedSet : PropertySet := ⟨⟨"M", .placeTransition, "1?"⟩, .ctlFireability, []⟩

/-- Nothing is known about one property, and the other one holds. -/
def markedRemarks : List Remark := [⟨0, .unknown, ['-']⟩, ⟨1, .holds, "TECHNIQUES".toList⟩]

theorem markedRemarks_isPlain : ∀ r ∈ markedRemarks, r.IsPlain := by
  intro r hr
  simp only [markedRemarks, List.mem_cons, List.not_mem_nil, or_false] at hr
  rcases hr with rfl | rfl
  · exact ⟨by decide, by decide, by decide⟩
  · exact ⟨by decide, by decide, by decide⟩

theorem markedSet_ofDirectoryName? : ModelKey.ofDirectoryName? "M-PT-1?" = some markedSet.model := by
  decide +kernel

theorem markedSet_lines : Text.lines (Text.ofLines (markedRemarks.map (Remark.line markedSet))) =
    markedRemarks.map (Remark.line markedSet) := by
  refine Text.lines_ofLines fun l hl => ?_
  obtain ⟨r, hr, rfl⟩ := List.mem_map.mp hl
  exact Remark.newline_not_mem_line (by decide) (by decide) (markedRemarks_isPlain r hr)

theorem markedSet_positions_of_remarks :
    ∃ delivered,
      positions (Text.ofLines (stages (positionField "1?")
        (Text.lines (Text.ofLines (markedRemarks.map (Remark.line markedSet))))).2) = ([], delivered) ∧
      delivered = (passed markedSet markedRemarks).map (·.position) ∧
      (delivered = (markedRemarks.filter (·.isOpen)).map (·.position) ↔
        '?' ∉ "1?".toList ∨ ∀ r ∈ markedRemarks, r.isOpen = true) := by
  obtain ⟨hlines, hread⟩ := positions_of_remarks markedSet_ofDirectoryName? markedRemarks_isPlain
  obtain ⟨delivered, hdelivered, hpassed, hopen, -⟩ := hread _ hlines
  exact ⟨delivered, hdelivered, hpassed, hopen⟩

/-- The position of a property that holds is read, and the checker's reply keeps it. -/
theorem decided_position_read :
    ModelKey.ofDirectoryName? "M-PT-1?" = some markedSet.model ∧ (∀ r ∈ markedRemarks, r.IsPlain) ∧
      markedRemarks.map (fun r => (r.position, r.finding)) = [(0, .unknown), (1, .holds)] ∧
      positions (Text.ofLines (stages (positionField "1?")
        (Text.lines (Text.ofLines (markedRemarks.map (Remark.line markedSet))))).2) = ([], [0, 1]) ∧
      (Checker.reply ⟨"model.pnml", markedSet, 2⟩
        ⟨String.ofList (Text.ofLines (markedRemarks.map (Remark.line markedSet))), "", 0⟩).verdict = .ok [0, 1] := by
  have hread : positions (Text.ofLines (stages (positionField "1?")
      (Text.lines (Text.ofLines (markedRemarks.map (Remark.line markedSet))))).2) = ([], [0, 1]) := by
    rw [markedSet_lines]
    exact positions_of_passed (s := markedSet) (by decide) (by decide) markedRemarks_isPlain
  refine ⟨markedSet_ofDirectoryName?, markedRemarks_isPlain, rfl, hread, ?_⟩
  refine reply_of_positions rfl ?_ ?_
  · rw [String.toList_ofList]
    decide +kernel
  · rw [String.toList_ofList]
    exact hread

end Verdict
end Formulary
