import Lineage.Proofs.Number.Digits
import Lineage.Version.Reader

namespace Lineage

theorem not_isSmallLetter_of_digitValue? {c : Char} {d : Nat} (value : Text.digitValue? c = some d) :
    isSmallLetter c = false := by
  rw [Bool.eq_false_iff]
  intro small
  simp only [isSmallLetter, Bool.and_eq_true, decide_eq_true_iff] at small
  have ascii : c.toNat < 0x80 := Nat.lt_of_le_of_lt small.2 (by decide)
  have bounds := Char.isDigit_iff_toNat.mp (Text.isDigit_of_digitValue? ascii value)
  exact absurd (Nat.le_trans small.1 bounds.2) (by decide)

theorem plain_of_isSmallLetter {c : Char} (small : isSmallLetter c = true) : c.toNat < 0x80 ∧ c ≠ '\n' := by
  refine ⟨?_, fun feed => absurd (feed ▸ small) (by decide)⟩
  simp only [isSmallLetter, Bool.and_eq_true, decide_eq_true_iff] at small
  exact Nat.lt_of_le_of_lt small.2 (by decide)

theorem plain_of_isDigit {c : Char} (digit : c.isDigit = true) : c.toNat < 0x80 ∧ c ≠ '\n' :=
  ⟨Nat.lt_of_le_of_lt (Char.isDigit_iff_toNat.mp digit).2 (by decide),
    fun feed => absurd (feed ▸ digit) (by decide)⟩

theorem Stage.ofName?_eq_some_iff {name : List Char} {s : Stage} :
    Stage.ofName? name = some s ↔ name = s.name.toList := by
  by_cases alpha : name = Stage.alpha.name.toList
  · cases s <;> simp [Stage.ofName?, alpha, Stage.name]
  · cases s <;> simp_all [Stage.ofName?, Stage.name]

/-- Items with a property at the start of a list are divided from the others if the others start with none. -/
theorem takeWhile_append_stops {α : Type} {p : α → Bool} {front back : List α} (all : ∀ x ∈ front, p x = true)
    (stops : back.takeWhile p = []) :
    (front ++ back).takeWhile p = front ∧ (front ++ back).dropWhile p = back := by
  have taken : (front ++ back).takeWhile p = front := by
    rw [List.takeWhile_append_of_pos all, stops, List.append_nil]
  have whole := List.takeWhile_append_dropWhile (p := p) (l := front ++ back)
  rw [taken] at whole
  exact ⟨taken, List.append_cancel_left whole⟩

/-- Only the end of a line is left out at the end of a text. -/
theorem exists_dropLineFeed (cs : List Char) : ∃ ending, cs = dropLineFeed cs ++ ending ∧
    (ending = [] ∨ ending = ['\n']) := by
  unfold dropLineFeed
  split
  · rename_i last
    exact ⟨['\n'], (List.dropLast_append_getLast? _ last).symm, Or.inr rfl⟩
  · exact ⟨[], (List.append_nil cs).symm, Or.inl rfl⟩

theorem dropLineFeed_append {cs ending : List Char} (continues : cs.getLast? ≠ some '\n')
    (ends : ending = [] ∨ ending = ['\n']) : dropLineFeed (cs ++ ending) = cs := by
  rcases ends with rfl | rfl
  · rw [List.append_nil, dropLineFeed, if_neg continues]
  · rw [dropLineFeed, if_pos (List.getLast?_concat ..), List.dropLast_concat]

namespace Level

/-- Whether characters are the name of a stage and then a number. -/
def Written (cs : List Char) (l : Level) : Prop :=
  ∃ digits, cs = l.stage.name.toList ++ digits ∧ Number.Written digits l.number

/-- Whether characters are a name in small letters and then decimal digits of any script, at least one of each,
and then nothing or the end of a line. -/
def Spells (cs name : List Char) (values : List Nat) : Prop :=
  ∃ digits ending, cs = name ++ digits ++ ending ∧ (ending = [] ∨ ending = ['\n']) ∧
    name ≠ [] ∧ (∀ c ∈ name, isSmallLetter c = true) ∧ values ≠ [] ∧ Number.Valued digits values

section Spells

variable {raw : String} {cs name : List Char} {values : List Nat}

theorem takeWhile_small {digits : List Char} (valued : Number.Valued digits values) :
    digits.takeWhile isSmallLetter = [] := by
  cases valued with
  | nil => rfl
  | cons value _ =>
    rw [List.takeWhile_cons, not_isSmallLetter_of_digitValue? value]
    rfl

/-- There is one way only to read a text as a name and digits. -/
theorem spells_iff : Spells cs name values ↔ (dropLineFeed cs).takeWhile isSmallLetter = name ∧ name ≠ [] ∧
    values ≠ [] ∧ Number.Valued ((dropLineFeed cs).dropWhile isSmallLetter) values := by
  constructor
  · rintro ⟨digits, ending, rfl, ends, named, small, filled, valued⟩
    have continues : (name ++ digits).getLast? ≠ some '\n' := by
      intro last
      rcases List.mem_append.mp (List.mem_of_getLast? last) with front | back
      · exact absurd (small _ front) (by decide)
      · obtain ⟨d, value⟩ := valued.exists_value _ back
        have none : Text.digitValue? '\n' = none := by decide
        rw [none] at value
        cases value
    rw [dropLineFeed_append continues ends]
    obtain ⟨front, back⟩ := takeWhile_append_stops small (takeWhile_small valued)
    exact ⟨front, named, filled, back.symm ▸ valued⟩
  · rintro ⟨rfl, named, filled, valued⟩
    obtain ⟨ending, whole, ends⟩ := exists_dropLineFeed cs
    refine ⟨_, ending, ?_, ends, named, fun c among => List.mem_takeWhile_imp among, filled, valued⟩
    rw [List.takeWhile_append_dropWhile]
    exact whole

/-- A text with a name and digits is read, unless the name is that of no stage or there are too many digits. -/
theorem parse_of_spells (spells : Spells raw.toList name values) : parse raw =
    match Stage.ofName? name with
    | none => .error (.levelUnknown raw)
    | some stage =>
      if values.length > Number.digitLimit then .error (.levelTooLong values.length)
      else .ok ⟨stage, Number.ofDigits values⟩ := by
  obtain ⟨front, named, filled, valued⟩ := spells_iff.mp spells
  generalize back : (dropLineFeed raw.toList).dropWhile isSmallLetter = digits at valued
  have numbered : digits ≠ [] := by
    rintro rfl
    exact filled (List.forall₂_nil_left_iff.mp valued)
  have all : ∀ c ∈ digits, Text.isDigit c = true := fun c among =>
    Option.isSome_iff_exists.mpr (valued.exists_value c among)
  have readable : ¬ (name.isEmpty || digits.isEmpty || !digits.all Text.isDigit) = true := by
    simp [named, numbered, List.all_eq_true.mpr all]
  cases staged : Stage.ofName? name with
  | none => simp only [parse, front, back, if_neg readable, staged]
  | some stage =>
    simp only [parse, front, back, if_neg readable, staged, valued.length_eq, valued.filterMap_eq]

/-- Any other text is refused. -/
theorem parse_of_not_spells (other : ∀ name values, ¬ Spells raw.toList name values) :
    parse raw = .error (.levelMalformed raw) := by
  rw [parse, if_pos]
  by_contra readable
  simp only [Bool.or_eq_true, List.isEmpty_iff, Bool.not_eq_true', ← Bool.not_eq_true, not_or, not_not,
    List.all_eq_true] at readable
  obtain ⟨⟨named, filled⟩, all⟩ := readable
  have valued := Number.valued_of_all all
  refine other _ _ (spells_iff.mpr ⟨rfl, named, fun none => ?_, valued⟩)
  rw [none] at valued
  exact filled (List.forall₂_nil_right_iff.mp valued)

theorem Spells.written_iff {n : Nat} (spells : Spells cs name values) :
    Number.Written (values.map Nat.digitChar) n ↔ Number.ofDigits values = n := by
  obtain ⟨_, _, filled, valued⟩ := spells_iff.mp spells
  exact valued.written_map_iff.trans (and_iff_right filled)

theorem Spells.length_le (spells : Spells cs name values) : values.length ≤ cs.length := by
  obtain ⟨digits, ending, rfl, _, _, _, _, valued⟩ := spells
  rw [← valued.length_eq, List.length_append, List.length_append]
  omega

end Spells

/-- What a text is answered with, by what it spells. -/
inductive Answers (raw : String) : Except VersionFault Level → Prop
  | read {l : Level} {values : List Nat} (spells : Spells raw.toList l.stage.name.toList values)
      (short : values.length ≤ Number.digitLimit)
      (number : Number.Written (values.map Nat.digitChar) l.number) : Answers raw (.ok l)
  | tooLong {stage : Stage} {values : List Nat} (spells : Spells raw.toList stage.name.toList values)
      (long : Number.digitLimit < values.length) : Answers raw (.error (.levelTooLong values.length))
  | unknown {name : List Char} {values : List Nat} (spells : Spells raw.toList name values)
      (strange : ∀ stage : Stage, name ≠ stage.name.toList) : Answers raw (.error (.levelUnknown raw))
  | malformed (other : ∀ name values, ¬ Spells raw.toList name values) :
      Answers raw (.error (.levelMalformed raw))

section Answers

variable {raw : String} {answer : Except VersionFault Level}

/-- Every text is answered by what it spells. -/
theorem answers_parse (raw : String) : Answers raw (parse raw) := by
  by_cases spelled : ∃ name values, Spells raw.toList name values
  · obtain ⟨name, values, spells⟩ := spelled
    rw [parse_of_spells spells]
    cases staged : Stage.ofName? name with
    | none =>
      refine .unknown spells fun stage same => ?_
      rw [Stage.ofName?_eq_some_iff.mpr same] at staged
      cases staged
    | some stage =>
      obtain rfl := Stage.ofName?_eq_some_iff.mp staged
      by_cases long : values.length > Number.digitLimit
      · simp only [if_pos long]
        exact .tooLong spells long
      · simp only [if_neg long]
        exact .read spells (Nat.le_of_not_lt long) (spells.written_iff.mpr rfl)
  · have other : ∀ name values, ¬ Spells raw.toList name values :=
      fun name values spells => spelled ⟨name, values, spells⟩
    rw [parse_of_not_spells other]
    exact .malformed other

/-- There is one answer to a text. -/
theorem Answers.parse_eq (answers : Answers raw answer) : parse raw = answer := by
  cases answers with
  | read spells short number =>
    rw [parse_of_spells spells, Stage.ofName?_eq_some_iff.mpr rfl]
    simp only [if_neg (Nat.not_lt.mpr short), spells.written_iff.mp number]
  | tooLong spells long =>
    rw [parse_of_spells spells, Stage.ofName?_eq_some_iff.mpr rfl]
    exact if_pos long
  | @unknown name _ spells strange =>
    have staged : Stage.ofName? name = none := by
      rw [Option.eq_none_iff_forall_ne_some]
      exact fun stage named => strange stage (Stage.ofName?_eq_some_iff.mp named)
    rw [parse_of_spells spells, staged]
  | malformed other => exact parse_of_not_spells other

theorem parse_eq_iff : parse raw = answer ↔ Answers raw answer :=
  ⟨fun same => same ▸ answers_parse raw, Answers.parse_eq⟩

end Answers

section Written

variable {raw : String} {cs : List Char} {l : Level}

theorem isSmallLetter_name {s : Stage} : ∀ c ∈ s.name.toList, isSmallLetter c = true := by
  have all : s.name.toList.all isSmallLetter = true := by cases s <;> rfl
  exact List.all_eq_true.mp all

theorem name_ne_nil (s : Stage) : s.name.toList ≠ [] := by
  cases s <;> decide

/-- What is written as a level is its text, with any zeros in front of the number. -/
theorem written_iff : l.Written cs ↔
    ∃ zeros, cs = l.stage.name.toList ++ (List.replicate zeros '0' ++ (toString l.number).toList) := by
  simp only [Written, Number.written_iff]
  exact ⟨fun ⟨_, whole, zeros, same⟩ => ⟨zeros, same ▸ whole⟩, fun ⟨zeros, whole⟩ => ⟨_, whole, zeros, rfl⟩⟩

theorem Written.plain (written : l.Written cs) : ∀ c ∈ cs, c.toNat < 0x80 ∧ c ≠ '\n' := by
  obtain ⟨digits, rfl, number⟩ := written
  intro c among
  rcases List.mem_append.mp among with front | back
  · exact plain_of_isSmallLetter (isSmallLetter_name c front)
  · exact plain_of_isDigit (number.decimal c back)

theorem spells_of_decimal {s : Stage} {digits : List Char} (filled : digits ≠ [])
    (decimal : ∀ c ∈ digits, c.isDigit = true) :
    Spells (s.name.toList ++ digits) s.name.toList (digits.map fun c => c.toNat - 0x30) :=
  ⟨digits, [], (List.append_nil _).symm, Or.inl rfl, name_ne_nil s, isSmallLetter_name,
    mt List.map_eq_nil_iff.mp filled, Number.valued_of_decimal decimal⟩

theorem Written.spells (written : l.Written cs) : ∃ values, Spells cs l.stage.name.toList values ∧
    Number.Written (values.map Nat.digitChar) l.number := by
  obtain ⟨digits, rfl, number⟩ := written
  have same := (Number.valued_of_decimal number.decimal).eq_map fun c among =>
    (plain_of_isDigit (number.decimal c among)).1
  exact ⟨_, spells_of_decimal number.nonempty number.decimal, same ▸ number⟩

theorem Spells.written {values : List Nat} (spells : Spells cs l.stage.name.toList values)
    (plain : ∀ c ∈ cs, c.toNat < 0x80 ∧ c ≠ '\n') (number : Number.Written (values.map Nat.digitChar) l.number) :
    l.Written cs := by
  obtain ⟨digits, ending, rfl, ends, _, _, _, valued⟩ := spells
  have same := valued.eq_map fun c among => (plain c (by simp [among])).1
  rcases ends with rfl | rfl
  · exact ⟨digits, List.append_nil _, same ▸ number⟩
  · exact absurd rfl (plain '\n' (by simp)).2

/-- Whether a text is read exactly if it is written as levels are, and is refused as no version if it is not. -/
structure AsWritten (raw : String) : Prop where
  reads : ∀ l, parse raw = .ok l ↔ l.Written raw.toList
  refuses : ∀ count, parse raw ≠ .error (.levelTooLong count)

/-- A text is read as it is written, unless it spells a level with a line feed at the end, with a digit of another
script or with too many digits. -/
theorem asWritten_iff : AsWritten raw ↔ ∀ (stage : Stage) values, Spells raw.toList stage.name.toList values →
    (∀ c ∈ raw.toList, c.toNat < 0x80 ∧ c ≠ '\n') ∧ values.length ≤ Number.digitLimit := by
  constructor
  · intro asWritten stage values spells
    have short : values.length ≤ Number.digitLimit := by
      by_contra long
      exact asWritten.refuses _ (Answers.tooLong spells (Nat.lt_of_not_le long)).parse_eq
    have read : parse raw = .ok ⟨stage, Number.ofDigits values⟩ :=
      (Answers.read (l := ⟨stage, _⟩) spells short (spells.written_iff.mpr rfl)).parse_eq
    exact ⟨((asWritten.reads _).mp read).plain, short⟩
  · intro sound
    refine ⟨fun l => ⟨fun read => ?_, fun written => ?_⟩, fun count read => ?_⟩
    · cases parse_eq_iff.mp read with
      | read spells short number => exact spells.written (sound _ _ spells).1 number
    · obtain ⟨values, spells, number⟩ := written.spells
      exact (Answers.read spells (sound _ _ spells).2 number).parse_eq
    · cases parse_eq_iff.mp read with
      | tooLong spells long => exact absurd (sound _ _ spells).2 (Nat.not_le.mpr long)

/-- Every text is answered by what it spells: small letters and then digits of any script, perhaps with a line
feed at the end. What is written as a level is the name of its stage and its number behind any zeros, and exactly
this is read, and all else refused as no version, exactly if a text that spells a level is in ASCII, has no line
feed and does not have too many digits. -/
theorem parse_decides_spelling (raw : String) : (∀ answer, parse raw = answer ↔ Answers raw answer) ∧
    (∀ l : Level, l.Written raw.toList ↔ ∃ zeros,
      raw.toList = l.stage.name.toList ++ (List.replicate zeros '0' ++ (toString l.number).toList)) ∧
    (AsWritten raw ↔ ∀ (stage : Stage) values, Spells raw.toList stage.name.toList values →
      (∀ c ∈ raw.toList, c.toNat < 0x80 ∧ c ≠ '\n') ∧ values.length ≤ Number.digitLimit) :=
  ⟨fun _ => parse_eq_iff, fun _ => written_iff, asWritten_iff⟩

/-- The first attempt at an alpha stage, with so many zeros in front that no more digits can be read. -/
def firstAlpha : String :=
  String.ofList (Stage.alpha.name.toList ++ (List.replicate Number.digitLimit '0' ++ (toString 1).toList))

/-- A line feed at the end is read over, a digit of another script is read like one in ASCII, and too many digits
are a fault of another kind. -/
theorem first_alpha_misread : parse "alpha1\n" = .ok ⟨.alpha, 1⟩ ∧ ¬ AsWritten "alpha1\n" ∧
    parse "alpha١" = .ok ⟨.alpha, 1⟩ ∧ ¬ AsWritten "alpha١" ∧
    Written firstAlpha.toList ⟨.alpha, 1⟩ ∧ parse firstAlpha = .error (.levelTooLong 4301) ∧
    ¬ AsWritten firstAlpha := by
  have feed : parse "alpha1\n" = .ok ⟨.alpha, 1⟩ := by decide +kernel
  have script : parse "alpha١" = .ok ⟨.alpha, 1⟩ := by decide +kernel
  have number : Number.Written (List.replicate Number.digitLimit '0' ++ (toString 1).toList) 1 :=
    Number.written_iff.mpr ⟨_, rfl⟩
  have text : firstAlpha.toList =
      Stage.alpha.name.toList ++ (List.replicate Number.digitLimit '0' ++ (toString 1).toList) :=
    String.toList_ofList
  have long : parse firstAlpha = .error (.levelTooLong 4301) := by
    have spells := spells_of_decimal (s := .alpha) number.nonempty number.decimal
    rw [← text] at spells
    have count : ((List.replicate Number.digitLimit '0' ++ (toString 1).toList).map fun c =>
        c.toNat - 0x30).length = 4301 := by
      rw [List.length_map, List.length_append, List.length_replicate]
      rfl
    rw [← count]
    exact (Answers.tooLong spells (by rw [count]; decide)).parse_eq
  refine ⟨feed, fun asWritten => ?_, script, fun asWritten => ?_, ⟨_, text, number⟩, long, fun asWritten => ?_⟩
  · exact (((asWritten.reads _).mp feed).plain '\n' (by decide)).2 rfl
  · exact absurd (((asWritten.reads _).mp script).plain '١' (by decide)).1 (by decide)
  · exact asWritten.refuses _ long

end Written

end Level

end Lineage
