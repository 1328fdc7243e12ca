import Formulary.Filter.Checker
import Formulary.Proofs.Property.Id

/-! The way of a position through the checker. It is written into the id of its property, the checker prints the id in
    a line about a property without an answer, and the stages leave the field of the line that starts with it. The
    field is found by counting dashes: an id has three before its position, and those of the instance. -/

namespace Formulary

namespace Verdict
variable {s : PropertySet}

/-! ### The field of a position -/

/-- A line about a property: its id, and what the checker says of it. -/
def about (s : PropertySet) (k : Nat) (said : List Char) : List Char :=
  "FORMULA ".toList ++ (s.id k).toList ++ ' ' :: said

theorem about_eq (s : PropertySet) (k : Nat) (said : List Char) : about s k said =
    ("FORMULA ".toList ++ s.stem) ++ '-' :: ((PropertySet.indexText k).toList ++ ' ' :: said) := by
  unfold about
  rw [PropertySet.toList_id]
  simp only [List.append_assoc, List.cons_append]

theorem newline_not_mem_about (hname : '\n' ∉ s.model.name.toList) (hinstance : '\n' ∉ s.model.instanceName.toList)
    (k : Nat) {said : List Char} (hsaid : '\n' ∉ said) : '\n' ∉ about s k said := by
  have hword : '\n' ∉ "FORMULA ".toList := by decide
  rw [about_eq]
  simp only [List.mem_append, List.mem_cons, hword, hsaid, PropertySet.newline_not_mem_indexText k,
    PropertySet.newline_not_mem_stem hname hinstance]
  decide

theorem field_about (hname : '-' ∉ s.model.name.toList) (k : Nat) (said : List Char) :
    field (positionField s.model.instanceName) (about s k said) =
      (PropertySet.indexText k).toList ++ ' ' :: said.takeWhile (· != '-') := by
  -- fields are counted from one, and the position comes after one dash more than the stem has
  have hcount : positionField s.model.instanceName - 1 = ("FORMULA ".toList ++ s.stem).count '-' + 1 := by
    have hword : "FORMULA ".toList.count '-' = 0 := by decide
    rw [List.count_append, hword, PropertySet.count_stem hname, positionField]
    omega
  have hdash : ∀ c ∈ (PropertySet.indexText k).toList, (c != '-') = true := by
    intro c hc
    rw [bne_iff_ne]
    rintro rfl
    exact PropertySet.dash_not_mem_indexText k hc
  rw [about_eq]
  unfold field
  rw [if_pos (List.contains_iff_mem.mpr (List.mem_append_right _ List.mem_cons_self)), hcount,
    Text.getD_splitOn_append, List.takeWhile_append_of_pos hdash]
  rfl

theorem newline_not_mem_field_about (hname : '-' ∉ s.model.name.toList) (k : Nat) {said : List Char}
    (hsaid : '\n' ∉ said) : '\n' ∉ field (positionField s.model.instanceName) (about s k said) := by
  have hrest : '\n' ∉ ' ' :: said.takeWhile (· != '-') := by
    intro hmem
    rcases List.mem_cons.mp hmem with hspace | hmem
    · exact absurd hspace (by decide)
    · exact hsaid ((List.takeWhile_sublist _).subset hmem)
  rw [field_about hname, List.mem_append]
  exact not_or.mpr ⟨PropertySet.newline_not_mem_indexText k, hrest⟩

theorem isLog_about (s : PropertySet) (k : Nat) (said : List Char) : isLog (about s k said) = false := by
  unfold about
  rw [List.append_assoc]
  rfl

/-- What a checker prints about a property without an answer. -/
def line (s : PropertySet) (k : Nat) (tail : List Char) : List Char :=
  "FORMULA ".toList ++ (s.id k).toList ++ " ? ".toList ++ tail

theorem line_eq (s : PropertySet) (k : Nat) (tail : List Char) : line s k tail = about s k ('?' :: ' ' :: tail) := by
  unfold line about
  rw [List.append_assoc]
  rfl

theorem newline_not_mem_said {tail : List Char} (htail : '\n' ∉ tail) : '\n' ∉ '?' :: ' ' :: tail := by
  simp [htail]

/-! ### Reading positions -/

theorem position?_indexText {k : Nat} (hk : k < UInt64.size) (rest : List Char) :
    position? ((PropertySet.indexText k).toList ++ ' ' :: rest) = some k := by
  have hdigit := PropertySet.isDigit_indexText k
  have hne := PropertySet.toList_indexText_ne_nil k
  -- the first digit is no space, and the space after the last one ends the number
  have hspace : ((PropertySet.indexText k).toList ++ ' ' :: rest).dropWhile Text.isBlank =
      (PropertySet.indexText k).toList ++ ' ' :: rest := by
    obtain ⟨c, cs, hcons⟩ := List.exists_cons_of_ne_nil hne
    have hblank := Text.isBlank_of_isDigit (hdigit c (hcons ▸ List.mem_cons_self))
    rw [hcons, List.cons_append, List.dropWhile_cons_of_neg (Bool.not_eq_true _ ▸ hblank)]
  have hdigits : ((PropertySet.indexText k).toList ++ ' ' :: rest).takeWhile Text.isDecimalDigit =
      (PropertySet.indexText k).toList := by
    have hstop : (' ' :: rest).takeWhile Text.isDecimalDigit = [] := List.takeWhile_cons_of_neg (by decide)
    rw [List.takeWhile_append_of_pos fun c hc => Text.isDecimalDigit_of_isDigit (hdigit c hc), hstop, List.append_nil]
  unfold position?
  rw [hspace, hdigits, Text.digits?_of_isDigit hne hdigit, PropertySet.ofDigitChars_indexText]
  exact if_pos hk

/-- A carriage return at the end of the field is lost, but it comes after the position. -/
theorem position?_field_about (hname : '-' ∉ s.model.name.toList) {k : Nat} (hk : k < UInt64.size)
    (said : List Char) :
    position? (Text.dropReturn (field (positionField s.model.instanceName) (about s k said))) = some k := by
  obtain ⟨rest, hrest⟩ := Text.dropReturn_cons (c := ' ') (by decide) (said.takeWhile (· != '-'))
  rw [field_about hname, Text.dropReturn_append _ _ (List.cons_ne_nil _ _), hrest]
  exact position?_indexText hk rest

/-- A line with a position is not all space. -/
theorem not_all_isBlank {l : List Char} {k : Nat} (h : position? l = some k) : l.all Text.isBlank = false := by
  rw [← Bool.not_eq_true]
  intro hblank
  rw [position?, List.dropWhile_eq_nil_iff.mpr (List.all_eq_true.mp hblank)] at h
  cases h

/-- If each line has a position, then the positions are read in order, and there is nothing to report. -/
theorem positions_ofLines {vs : List (List Char)} {K : List Nat} (hlines : ∀ v ∈ vs, '\n' ∉ v)
    (h : vs.map (fun v => position? (Text.dropReturn v)) = K.map some) : positions (Text.ofLines vs) = ([], K) := by
  have hpositions : (vs.map Text.dropReturn).map position? = K.map some := by rw [List.map_map]; exact h
  have hsome : ∀ l ∈ vs.map Text.dropReturn, ∃ k, position? l = some k := by
    intro l hl
    have hmem := List.mem_map_of_mem (f := position?) hl
    rw [hpositions] at hmem
    obtain ⟨k, -, hk⟩ := List.mem_map.mp hmem
    exact ⟨k, hk.symm⟩
  have hspoken : (vs.map Text.dropReturn).filter (fun l => !l.all Text.isBlank) = vs.map Text.dropReturn := by
    rw [List.filter_eq_self]
    intro l hl
    obtain ⟨k, hk⟩ := hsome l hl
    rw [not_all_isBlank hk]
    rfl
  have hsilent : (vs.map Text.dropReturn).filter (fun l => (position? l).isNone) = [] := by
    rw [List.filter_eq_nil_iff]
    intro l hl
    obtain ⟨k, hk⟩ := hsome l hl
    rw [hk]
    exact Bool.false_ne_true
  have hread : (vs.map Text.dropReturn).filterMap position? = K := by
    calc (vs.map Text.dropReturn).filterMap position?
      _ = ((vs.map Text.dropReturn).map position?).filterMap id :=
        (List.filterMap_map (f := position?) (g := id)).symm
      _ = K.filterMap some := by rw [hpositions, List.filterMap_map]; rfl
      _ = K := List.filterMap_some
  unfold positions
  rw [Text.returnedLines_ofLines hlines]
  dsimp only
  rw [hspoken, hsilent, hread]
  rfl

/-! ### Transcripts -/

/-- The lines that a checker prints: about the properties at given positions, which are without an answer, and others
    anywhere between them. -/
inductive Transcript (s : PropertySet) : List Nat → List (List Char) → Prop where
  | done : Transcript s [] []
  | unknown {K : List Nat} {ls : List (List Char)} (k : Nat) (tail : List Char) (hk : k < UInt64.size)
      (htail : '\n' ∉ tail) (h : Transcript s K ls) : Transcript s (k :: K) (line s k tail :: ls)
  | other {K : List Nat} {ls : List (List Char)} (l : List Char) (hl : "smc:".toList <+: l ∨ '?' ∉ l)
      (hline : '\n' ∉ l) (h : Transcript s K ls) : Transcript s K (l :: ls)

theorem Transcript.newline_not_mem {K : List Nat} {ls : List (List Char)} (h : Transcript s K ls)
    (hname : '\n' ∉ s.model.name.toList) (hinstance : '\n' ∉ s.model.instanceName.toList) :
    ∀ l ∈ ls, '\n' ∉ l := by
  induction h with
  | done => nofun
  | unknown k tail _ htail _ ih =>
    refine List.forall_mem_cons.mpr ⟨?_, ih⟩
    rw [line_eq]
    exact newline_not_mem_about hname hinstance k (newline_not_mem_said htail)
  | other l _ hline _ ih => exact List.forall_mem_cons.mpr ⟨hline, ih⟩

theorem isLog_line (s : PropertySet) (k : Nat) (tail : List Char) : isLog (line s k tail) = false := by
  rw [line_eq]
  exact isLog_about s k _

theorem isUnknown_line (s : PropertySet) (k : Nat) (tail : List Char) : isUnknown (line s k tail) = true :=
  List.contains_iff_mem.mpr (List.mem_append_left _ (List.mem_append_right _ (by decide)))

theorem unknown_cons_line (s : PropertySet) (k : Nat) (tail : List Char) (ls : List (List Char)) :
    (spoken (line s k tail :: ls)).filter isUnknown = line s k tail :: (spoken ls).filter isUnknown := by
  unfold spoken
  rw [List.filter_cons_of_pos (by rw [isLog_line]; rfl), List.filter_cons_of_pos (isUnknown_line s k tail)]

theorem unknown_cons_other {l : List Char} (hl : "smc:".toList <+: l ∨ '?' ∉ l) (ls : List (List Char)) :
    (spoken (l :: ls)).filter isUnknown = (spoken ls).filter isUnknown := by
  unfold spoken
  rcases hl with hlog | hmark
  · have hlog : isLog l = true := List.isPrefixOf_iff_prefix.mpr hlog
    rw [List.filter_cons_of_neg (by rw [hlog]; exact Bool.false_ne_true)]
  · have hmark : ¬ isUnknown l = true := fun h => hmark (List.contains_iff_mem.mp h)
    -- it may be of the log all the same
    rw [List.filter_cons]
    split
    · rw [List.filter_cons_of_neg hmark]
    · rfl

/-- The stages leave a field for each property without an answer, and it starts with the position. -/
theorem Transcript.fields {K : List Nat} {ls : List (List Char)} (h : Transcript s K ls)
    (hname : '-' ∉ s.model.name.toList) :
    (∀ v ∈ (stages (positionField s.model.instanceName) ls).2, '\n' ∉ v) ∧
      (stages (positionField s.model.instanceName) ls).2.map (fun v => position? (Text.dropReturn v)) =
        K.map some := by
  unfold stages
  dsimp only
  induction h with
  | done => exact ⟨nofun, rfl⟩
  | unknown k tail hk htail _ ih =>
    rw [unknown_cons_line, List.map_cons, List.map_cons, List.map_cons, ih.2, line_eq,
      position?_field_about hname hk]
    exact ⟨List.forall_mem_cons.mpr ⟨newline_not_mem_field_about hname k (newline_not_mem_said htail), ih.1⟩, rfl⟩
  | other l hl _ _ ih =>
    rw [unknown_cons_other hl]
    exact ih

/-! ### The way of a position -/

/-- The positions of the properties without an answer are those that the checker prints, in order, whatever the name
    of the instance and what follows the question marks. So the reply of the checker keeps these properties, unless
    its output holds null characters and is no text. -/
theorem positions_of_transcript {K : List Nat} {ls : List (List Char)} (hname : '-' ∉ s.model.name.toList)
    (hnewline : '\n' ∉ s.model.name.toList) (hinstance : '\n' ∉ s.model.instanceName.toList)
    (h : Transcript s K ls) :
    Text.lines (Text.ofLines ls) = ls ∧
      ∀ output, Text.lines output = ls →
        positions (Text.ofLines (stages (positionField s.model.instanceName) (Text.lines output)).2) = ([], K) ∧
          ('\x00' ∉ output → ∀ request done, request.properties = s → done.output.toList = output →
            done.status = 0 → (Checker.reply request done).verdict = .ok K) := by
  refine ⟨Text.lines_ofLines (h.newline_not_mem hnewline hinstance), ?_⟩
  rintro output rfl
  obtain ⟨hlines, hread⟩ := h.fields hname
  have hpositions := positions_ofLines hlines hread
  refine ⟨hpositions, ?_⟩
  rintro hnull request done rfl rfl hstatus
  have hstages : ofOutput (positionField request.properties.model.instanceName) done.output.toList =
      stages (positionField request.properties.model.instanceName) (Text.lines done.output.toList) :=
    if_neg fun hmem => hnull (List.contains_iff_mem.mp hmem)
  unfold Checker.reply
  rw [hstages]
  dsimp only
  rw [if_pos hstatus, hpositions]

/-- A property set of an instance with dashes. -/
def dashed : PropertySet := ⟨⟨"M", .colored, "a-1-b"⟩, .ctlFireability, []⟩

/-- Two lines of a log, and the largest position between lines about one property. -/
theorem dashed_positions_of_transcript :
    ∃ ls, Transcript dashed [3, 18446744073709551615, 3] ls ∧
      positions (Text.ofLines (stages (positionField "a-1-b") (Text.lines (Text.ofLines ls))).2) =
        ([], [3, 18446744073709551615, 3]) ∧
      (Checker.reply ⟨"model.pnml", dashed, 4⟩ ⟨String.ofList (Text.ofLines ls), "", 0⟩).verdict =
        .ok [3, 18446744073709551615, 3] := by
  have h : Transcript dashed [3, 18446744073709551615, 3] _ :=
    .other "smc: 2 - 3 properties ?".toList (.inl (by decide)) (by decide)
      (.unknown 3 "TECHNIQUES EXPLICIT - a-b".toList (by decide) (by decide)
        (.unknown 18446744073709551615 [] (by decide) (by decide)
          (.other "FORMULA M-COL-a-1-b-CTLFireability-04 TRUE".toList (.inr (by decide)) (by decide)
            (.unknown 3 "-\r".toList (by decide) (by decide) .done))))
  obtain ⟨hlines, hread⟩ := positions_of_transcript (s := dashed) (by decide) (by decide) (by decide) h
  obtain ⟨hpositions, hreply⟩ := hread _ hlines
  exact ⟨_, h, hpositions, hreply (by decide +kernel) _ _ rfl String.toList_ofList rfl⟩

end Verdict
end Formulary
