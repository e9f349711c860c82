import Lineage.Proofs.Traversal
import Lineage.Proofs.Version.Level

namespace Lineage

/-- Whether a character can stand in a version. -/
def isVersionLetter (c : Char) : Bool :=
  isSmallLetter c || c.isDigit || c == '-'

theorem all_of_isLevelPart {cs : List Char} (part : isLevelPart cs = true) :
    ∀ c ∈ cs, isVersionLetter c = true := by
  simp only [isLevelPart, Bool.and_eq_true, List.all_eq_true] at part
  exact part.1.1.2

theorem all_of_divideVersion {digits rest : List Char} {parts : List Char × List Char}
    (divided : divideVersion digits rest = some parts) : ∀ c ∈ rest, isVersionLetter c = true := by
  fun_induction divideVersion digits rest with
  | case1 digits => exact nofun
  | case2 d e digits c rest part => exact all_of_isLevelPart part
  | case3 d e digits c rest part ih => exact fun x member => ih divided x (List.mem_cons_of_mem _ member)
  | case4 digits c rest short part => exact all_of_isLevelPart part
  | case5 digits c rest short part => cases divided

/-- A text that is read as a version has only letters of versions between its blanks. -/
theorem Version.all_of_parse {raw : String} {v : Version} (read : parse (some raw) = .ok v) :
    ∀ c ∈ Text.trim raw.toList, isVersionLetter c = true := by
  simp only [parse, Option.getD_some] at read
  split at read
  · cases read
  split at read
  · rename_i body text
    split at read
    · cases read
    split at read
    · cases read
    rename_i major level divided
    rw [text, ← List.takeWhile_append_dropWhile (p := Char.isDigit) (l := body)]
    intro c member
    rcases List.mem_cons.mp member with rfl | member
    · rfl
    rcases List.mem_append.mp member with front | back
    · simp [isVersionLetter, List.mem_takeWhile_imp front]
    · exact all_of_divideVersion divided c back
  · cases read

/-- No version is written with a slash. -/
theorem Version.slash_not_mem {raw : String} {v : Version} (read : parse (some raw) = .ok v) :
    '/' ∉ raw.toList := by
  intro member
  have letter := all_of_parse read _ (Text.mem_trim member (by decide))
  exact absurd letter (by decide)

/-- Whether characters are the letter of versions, a major number and then nothing, or the level of a version
that has one. -/
def Version.Written (cs : List Char) (v : Version) : Prop :=
  ∃ digits rest, cs = 'v' :: (digits ++ rest) ∧ Number.Written digits v.major ∧
    match v.level with
    | none => rest = []
    | some l => l.Written rest

theorem divideVersion_of_isLevelPart {digits rest : List Char} (part : isLevelPart rest = true) :
    divideVersion digits rest = some (digits.reverse, rest) := by
  cases rest with
  | nil => cases part
  | cons c rest => unfold divideVersion; split <;> simp_all

/-- A text is divided after its digits, or what comes after the major number starts with a digit. -/
theorem divideVersion_cases {digits rest major level : List Char}
    (divided : divideVersion digits rest = some (major, level)) : (level = [] ∨ isLevelPart level = true) ∧
      (major = digits.reverse ∧ level = rest ∨ ∃ d ∈ digits, level.head? = some d) := by
  fun_induction divideVersion digits rest with
  | case1 digits => cases divided; exact ⟨Or.inl rfl, Or.inl ⟨rfl, rfl⟩⟩
  | case2 d e digits c rest part => cases divided; exact ⟨Or.inr part, Or.inl ⟨rfl, rfl⟩⟩
  | case3 d e digits c rest part ih =>
    obtain ⟨shape, ⟨_, rfl⟩ | ⟨x, member, head⟩⟩ := ih divided
    · exact ⟨shape, Or.inr ⟨d, List.mem_cons_self .., rfl⟩⟩
    · exact ⟨shape, Or.inr ⟨x, List.mem_cons_of_mem _ member, head⟩⟩
  | case4 digits c rest short part => cases divided; exact ⟨Or.inr part, Or.inl ⟨rfl, rfl⟩⟩
  | case5 digits c rest short part => cases divided

theorem plain_of_isVersionLetter {c : Char} (letter : isVersionLetter c = true) : c.toNat < 0x80 ∧ c ≠ '\n' := by
  simp only [isVersionLetter, Bool.or_eq_true, beq_iff_eq] at letter
  rcases letter with (small | digit) | rfl
  · exact plain_of_isSmallLetter small
  · exact plain_of_isDigit digit
  · decide

theorem isDigit_eq_false_of_small {c : Char} (small : isSmallLetter c = true) : c.isDigit = false := by
  rw [Bool.eq_false_iff]
  intro digit
  rw [not_isSmallLetter_of_digitValue? (Text.digitValue?_of_isDigit digit)] at small
  cases small

theorem isBlank_of_isVersionLetter {c : Char} (letter : isVersionLetter c = true) : Text.isBlank c = false := by
  have bounds : 0x2D ≤ c.toNat ∧ c.toNat < 0x80 := by
    refine ⟨?_, (plain_of_isVersionLetter letter).1⟩
    simp only [isVersionLetter, isSmallLetter, Char.isDigit, Bool.or_eq_true, Bool.and_eq_true,
      decide_eq_true_iff, beq_iff_eq] at letter
    rcases letter with (small | digit) | rfl
    · exact Nat.le_trans (by decide) small.1
    · exact Nat.le_trans (by decide) digit.1
    · decide
  simp only [Text.isBlank, Bool.or_eq_false_iff, Bool.and_eq_false_iff, decide_eq_false_iff_not, beq_eq_false_iff_ne]
  omega

namespace Level

theorem length_le_of_isLevelPart {cs : List Char} (part : isLevelPart cs = true) : cs.length ≤ 62 := by
  simp only [isLevelPart, Bool.and_eq_true, decide_eq_true_iff] at part
  exact part.1.1.1.2

/-- What can stand after a major number is read as a level exactly if it is written as levels are. -/
theorem asWritten_of_isLevelPart {cs : List Char} (part : isLevelPart cs = true) :
    AsWritten (String.ofList cs) := by
  refine asWritten_iff.mpr fun stage values spells => ?_
  have bound := spells.length_le
  rw [String.toList_ofList] at bound ⊢
  exact ⟨fun c member => plain_of_isVersionLetter (all_of_isLevelPart part c member),
    bound.trans ((length_le_of_isLevelPart part).trans (by decide))⟩

theorem parse_part_eq_ok_iff {cs : List Char} {l : Level} (part : isLevelPart cs = true) :
    parse (String.ofList cs) = .ok l ↔ l.Written cs := by
  rw [(asWritten_of_isLevelPart part).reads, String.toList_ofList]

variable {cs : List Char} {l : Level}

theorem Written.head_small (written : l.Written cs) : ∃ c, cs.head? = some c ∧ isSmallLetter c = true := by
  obtain ⟨digits, rfl, _⟩ := written
  cases l with
  | mk stage number =>
    cases stage with
    | alpha => exact ⟨'a', by simp [Stage.name], by decide⟩
    | beta => exact ⟨'b', by simp [Stage.name], by decide⟩

/-- A level that is written and not too long has the form of one. -/
theorem Written.isLevelPart (written : l.Written cs) (short : cs.length ≤ 62) : isLevelPart cs = true := by
  obtain ⟨c, head, small⟩ := written.head_small
  obtain ⟨digits, rfl, number⟩ := written
  have last : (l.stage.name.toList ++ digits).getLast? = some (digits.getLast number.nonempty) := by
    rw [List.getLast?_append_of_ne_nil _ number.nonempty, List.getLast?_eq_some_getLast]
  have lastDigit := number.decimal _ (List.getLast_mem number.nonempty)
  have long : 2 ≤ (l.stage.name.toList ++ digits).length := by
    have name : 4 ≤ l.stage.name.toList.length := by cases l.stage <;> decide
    rw [List.length_append]
    omega
  have solid : ∀ c ∈ l.stage.name.toList ++ digits, (isSmallLetter c || c.isDigit || c == '-') = true := by
    intro x member
    rcases List.mem_append.mp member with front | back
    · rw [isSmallLetter_name x front, Bool.true_or, Bool.true_or]
    · rw [number.decimal x back, Bool.or_true, Bool.true_or]
  simp only [Lineage.isLevelPart, Bool.and_eq_true, decide_eq_true_iff, head, last, Option.any_some, small,
    lastDigit, Bool.true_or, Bool.or_true, List.all_eq_true, and_true]
  exact ⟨⟨long, short⟩, solid⟩

end Level

namespace Version

variable {raw : String} {v : Version}

/-- A text that is read as a version writes it, in few characters that are all in ASCII. -/
theorem written_of_parse (read : parse (some raw) = .ok v) : (∀ c ∈ Text.trim raw.toList, c.toNat < 0x80) ∧
    (Text.trim raw.toList).length ≤ 63 ∧ v.Written (Text.trim raw.toList) := by
  simp only [parse, Option.getD_some] at read
  split at read
  · cases read
  rename_i usable
  simp only [Bool.or_eq_true, List.isEmpty_iff, List.any_eq_true, decide_eq_true_iff, not_or, not_exists, not_and,
    not_le, Nat.not_lt] at usable
  refine ⟨usable.1.2, usable.2, ?_⟩
  split at read
  · rename_i body text
    split at read
    · cases read
    rename_i filled
    split at read
    · cases read
    rename_i major level divided
    rw [List.isEmpty_iff] at filled
    have decimal : ∀ c ∈ body.takeWhile Char.isDigit, c.isDigit = true :=
      fun c member => List.mem_takeWhile_imp member
    have number : Number.Written (body.takeWhile Char.isDigit)
        (Number.ofDigits ((body.takeWhile Char.isDigit).filterMap Text.digitValue?)) :=
      ⟨filled, decimal, (Number.ofDigits_filterMap decimal).symm⟩
    obtain ⟨shape, parts⟩ := divideVersion_cases divided
    rw [List.reverse_reverse] at parts
    rw [text]
    rcases shape with rfl | part
    · obtain ⟨rfl, none⟩ := parts.resolve_right (by simp)
      cases read
      exact ⟨body.takeWhile Char.isDigit, [], by rw [none, List.takeWhile_append_dropWhile], number, rfl⟩
    · have nonempty : level.isEmpty = false := by
        cases level with
        | nil => cases part
        | cons c rest => rfl
      simp only [nonempty, Bool.false_eq_true, if_false] at read
      obtain ⟨l, parsed, made⟩ := exists_of_bind read
      have written := (Level.parse_part_eq_ok_iff part).mp parsed
      -- A level starts with a letter, so that no digit of the major number was left to it.
      obtain ⟨rfl, rfl⟩ := parts.resolve_right (by
        rintro ⟨d, among, head⟩
        obtain ⟨c, start, small⟩ := written.head_small
        cases start.symm.trans head
        have digit := decimal d (List.mem_reverse.mp among)
        rw [isDigit_eq_false_of_small small] at digit
        cases digit)
      cases made
      exact ⟨body.takeWhile Char.isDigit, body.dropWhile Char.isDigit,
        by rw [List.takeWhile_append_dropWhile], number, written⟩
  · cases read

/-- A short text in ASCII that writes a version is read as it. -/
theorem parse_of_written (ascii : ∀ c ∈ Text.trim raw.toList, c.toNat < 0x80)
    (short : (Text.trim raw.toList).length ≤ 63) (written : v.Written (Text.trim raw.toList)) :
    parse (some raw) = .ok v := by
  obtain ⟨digits, rest, text, number, level⟩ := written
  rw [text] at ascii short
  have usable : ¬ ((('v' :: (digits ++ rest)).isEmpty || ('v' :: (digits ++ rest)).any fun c => 0x80 ≤ c.toNat) ||
      decide (('v' :: (digits ++ rest)).length > 63)) = true := by
    simp only [List.isEmpty_cons, Bool.false_or, Bool.or_eq_true, List.any_eq_true, decide_eq_true_iff, not_or,
      not_exists, not_and, not_le, Nat.not_lt]
    exact ⟨ascii, short⟩
  have stops : rest.takeWhile Char.isDigit = [] := by
    cases own : v.level with
    | none =>
      rw [own] at level
      rw [show rest = [] from level, List.takeWhile_nil]
    | some l =>
      rw [own] at level
      obtain ⟨c, head, small⟩ := Level.Written.head_small level
      obtain ⟨more, rfl⟩ := List.head?_eq_some_iff.mp head
      rw [List.takeWhile_cons, isDigit_eq_false_of_small small]
      rfl
  obtain ⟨front, back⟩ := takeWhile_append_stops number.decimal stops
  simp only [parse, Option.getD_some, text, if_neg usable, front, back, List.isEmpty_iff,
    if_neg number.nonempty]
  cases own : v.level with
  | none =>
    rw [own] at level
    obtain rfl : rest = [] := level
    simp only [divideVersion, List.reverse_reverse, if_true, Number.ofDigits_filterMap number.decimal, number.value]
    exact congrArg (fun level => Except.ok (Version.mk v.major level)) own.symm
  | some l =>
    rw [own] at level
    have bound : rest.length ≤ 62 := by
      simp only [List.length_cons, List.length_append] at short
      omega
    have part := Level.Written.isLevelPart level bound
    have filled : rest ≠ [] := by
      rintro rfl
      cases part
    simp only [divideVersion_of_isLevelPart part, List.reverse_reverse, if_neg filled,
      (Level.parse_part_eq_ok_iff part).mpr level, Number.ofDigits_filterMap number.decimal, number.value]
    exact congrArg (fun level => Except.ok (Version.mk v.major level)) own.symm

/-- No text has too many digits to be read as a version, since it would be too long. -/
theorem parse_ne_tooLong (raw : String) (count : Nat) : parse (some raw) ≠ .error (.levelTooLong count) := by
  intro read
  simp only [parse, Option.getD_some] at read
  split at read
  · cases read
  split at read
  · split at read
    · cases read
    split at read
    · cases read
    rename_i major level divided
    rcases (divideVersion_cases divided).1 with rfl | part
    · cases read
    · split at read
      · cases read
      rcases bind_eq_error_iff.mp read with fails | ⟨l, _, made⟩
      · exact (Level.asWritten_of_isLevelPart part).refuses count fails
      · cases made
  · cases read

/-- A version is written in letters and digits. -/
theorem Written.letters {cs : List Char} (written : v.Written cs) : ∀ c ∈ cs, isVersionLetter c = true := by
  obtain ⟨digits, rest, rfl, number, level⟩ := written
  have decimal : ∀ {digits n}, Number.Written digits n → ∀ c ∈ digits, isVersionLetter c = true := by
    intro digits n number c member
    rw [isVersionLetter, number.decimal c member, Bool.or_true, Bool.true_or]
  have staged : ∀ c ∈ rest, isVersionLetter c = true := by
    intro c member
    cases own : v.level with
    | none =>
      rw [own] at level
      rw [show rest = [] from level] at member
      cases member
    | some l =>
      rw [own] at level
      obtain ⟨more, rfl, attempt⟩ := level
      rcases List.mem_append.mp member with front | back
      · rw [isVersionLetter, Level.isSmallLetter_name c front, Bool.true_or, Bool.true_or]
      · exact decimal attempt c back
  intro c member
  rcases List.mem_cons.mp member with rfl | member
  · rfl
  · exact (List.mem_append.mp member).elim (decimal number c) (staged c)

/-- The text of a version is written as versions are. -/
theorem written_text (v : Version) : v.Written v.text.toList := by
  obtain ⟨major, level⟩ := v
  cases level with
  | none =>
    refine ⟨(toString major).toList, [], ?_, Number.written_toString major, rfl⟩
    simp [text]
  | some l =>
    refine ⟨(toString major).toList, l.text.toList, ?_, Number.written_toString major,
      (toString l.number).toList, ?_, Number.written_toString l.number⟩
    · simp [text]
    · simp [Level.text]

/-- A version is read from its text, unless this is longer than any text that is read. -/
theorem parse_text (short : v.text.length ≤ 63) : parse (some v.text) = .ok v := by
  have letters := (written_text v).letters
  have whole : Text.trim v.text.toList = v.text.toList :=
    Text.trim_of_solid fun c member => isBlank_of_isVersionLetter (letters c member)
  refine parse_of_written ?_ ?_ ?_
  · rw [whole]
    exact fun c member => (plain_of_isVersionLetter (letters c member)).1
  · rw [whole]
    exact short
  · rw [whole]
    exact written_text v

/-- A text is read as a version exactly if what is left of it without the blanks around it is in ASCII, not too
long and written as versions are; any other text is refused as none, and never as an integer that is too long.
The text of every version is read as that version, unless it is too long. -/
theorem parse_decides :
    (∀ raw v, parse (some raw) = .ok v ↔ (∀ c ∈ Text.trim raw.toList, c.toNat < 0x80) ∧
      (Text.trim raw.toList).length ≤ 63 ∧ v.Written (Text.trim raw.toList)) ∧
    (∀ raw, (∃ v, parse (some raw) = .ok v) ∨
      ∃ fault, parse (some raw) = .error fault ∧ ∀ count, fault ≠ .levelTooLong count) ∧
    ∀ v : Version, v.text.length ≤ 63 → parse (some v.text) = .ok v := by
  refine ⟨fun raw v => ⟨written_of_parse, fun written => ?_⟩, fun raw => ?_, fun v => parse_text⟩
  · exact parse_of_written written.1 written.2.1 written.2.2
  · cases read : parse (some raw) with
    | ok v => exact Or.inl ⟨v, rfl⟩
    | error fault =>
      refine Or.inr ⟨fault, rfl, ?_⟩
      rintro count rfl
      exact parse_ne_tooLong raw count read

/-- The longest text that is read: a level with its number after one digit, with blanks around it. -/
theorem parse_decides_longest : (⟨1, some ⟨.alpha, 10 ^ 55⟩⟩ : Version).text.length ≤ 63 ∧
    parse (some (⟨1, some ⟨.alpha, 10 ^ 55⟩⟩ : Version).text) = .ok ⟨1, some ⟨.alpha, 10 ^ 55⟩⟩ := by
  have short : (⟨1, some ⟨.alpha, 10 ^ 55⟩⟩ : Version).text.length ≤ 63 := by decide +kernel
  exact ⟨short, parse_decides.2.2 _ short⟩

end Version

end Lineage
