import Lineage.Code.Imports
import Lineage.Proofs.Entries
import Lineage.Proofs.Text

namespace Lineage.Code

/-- What is asked of the imports of a module. -/
inductive Request where
  | function (dotted : String)
  | container (typeName : String)
  deriving DecidableEq, Repr

namespace Imports

/-- Whether a function is imported, by a dotted name with a module in it. -/
def FromModule (dotted : String) : Prop :=
  (divide dotted).1 ≠ ""

instance : DecidablePred FromModule :=
  fun _ => inferInstanceAs (Decidable (_ ≠ _))

/-- The name of a function without its module. -/
def ownName (dotted : String) : String :=
  (divide dotted).2

/-- The alias that a function gets if it is not taken. -/
def plainAlias (dotted : String) : String :=
  "_" ++ ownName dotted

/-- The name of a function with the number of its place in the table. -/
def numberedName (dotted : String) (place : Nat) : String :=
  ownName dotted ++ "_" ++ toString place

/-- The alias that a function gets if the plain one is taken. -/
def numberedAlias (dotted : String) (place : Nat) : String :=
  "_" ++ numberedName dotted place

/-- The alias of what is asked for, and the imports with it. -/
def answer : Request → Imports → String × Imports
  | .function dotted => function dotted
  | .container typeName => container typeName

/-- The aliases of all that is asked for, one after the other, and the imports in the end. -/
def answers : List Request → Imports → List String × Imports
  | [], imports => ([], imports)
  | r :: rest, imports =>
    let (short, next) := answer r imports
    let (shorts, last) := answers rest next
    (short :: shorts, last)

/-- Whether an alias is the one that is in the tables. -/
def Answers (imports : Imports) : Request → String → Prop
  | .function dotted, short => imports.functions.get? dotted = some short
  | .container typeName, short => imports.nested.get? (Text.snakeCase typeName) = some short

/-- Whether imports have all that others have, in their order. -/
structure Grows (before after : Imports) : Prop where
  functions : before.functions <+: after.functions
  nested : before.nested <+: after.nested

/-- The alias of a function that is put after those of a table. -/
inductive Aliased (table : Entries String String) (dotted : String) : String → Prop
  | own (bare : ¬ FromModule dotted) : Aliased table dotted (ownName dotted)
  | plain (imported : FromModule dotted) (free : ∀ e ∈ table, e.2 ≠ plainAlias dotted) :
      Aliased table dotted (plainAlias dotted)
  | numbered (imported : FromModule dotted) (taken : ∃ e ∈ table, e.2 = plainAlias dotted) :
      Aliased table dotted (numberedAlias dotted table.length)

/-- What holds of imports however they were asked for: each function has the alias that it gets after
those before it, and each module that of its name. -/
structure Sound (imports : Imports) : Prop where
  distinct : (imports.functions.map (·.1)).Nodup
  aliased : ∀ i e, imports.functions[i]? = some e → Aliased (imports.functions.take i) e.1 e.2
  nested : ∀ e ∈ imports.nested, e.2 = "_nested_" ++ e.1

theorem aliased_freshAlias {imports : Imports} {dotted : String} (imported : FromModule dotted) :
    Aliased imports.functions dotted (imports.freshAlias (ownName dotted)) := by
  rw [freshAlias]
  split
  · rename_i taken
    obtain ⟨e, among, same⟩ := List.any_eq_true.mp taken
    have numbered := Aliased.numbered imported ⟨e, among, beq_iff_eq.mp same⟩
    rwa [numberedAlias, numberedName, ← String.append_assoc, ← String.append_assoc] at numbered
  · rename_i free
    refine .plain imported fun e among same => free ?_
    exact List.any_eq_true.mpr ⟨e, among, beq_iff_eq.mpr same⟩

theorem put_of_get?_none {entries : Entries String String} {key value : String}
    (new : entries.get? key = Option.none) : entries.put key value = entries ++ [(key, value)] := by
  refine Entries.put_of_new fun e among => ?_
  have absent := List.find?_eq_none.mp (Option.map_eq_none_iff.mp new) e among
  exact Bool.eq_false_iff.mpr absent

/-- A function that is asked for is in the table already, or it comes after all that are. -/
theorem function_cases (dotted : String) (imports : Imports) :
    (∃ short, imports.functions.get? dotted = some short ∧ imports.function dotted = (short, imports)) ∨
      imports.functions.get? dotted = Option.none ∧ ∃ short next, imports.function dotted = (short, next) ∧
        Aliased imports.functions dotted short ∧ next.functions = imports.functions ++ [(dotted, short)] ∧
        next.nested = imports.nested := by
  cases known : imports.functions.get? dotted with
  | some short =>
    refine Or.inl ⟨short, rfl, ?_⟩
    simp only [function, known]
  | none =>
    refine Or.inr ⟨rfl, (imports.function dotted).1, (imports.function dotted).2, rfl, ?_⟩
    have last := fun short => @put_of_get?_none imports.functions dotted short known
    by_cases imported : FromModule dotted
    · have apart : (divide dotted).1.isEmpty = false := by simpa [FromModule] using imported
      simp only [function, known, apart, last, Bool.false_eq_true, if_false, and_true]
      exact aliased_freshAlias imported
    · have bare : (divide dotted).1.isEmpty = true := by simpa [FromModule] using imported
      simp only [function, known, bare, last, if_true, and_true]
      exact .own imported

/-- The module of a container that is asked for is in the table already, or it comes after all that are. -/
theorem container_cases (typeName : String) (imports : Imports) :
    (∃ short, imports.nested.get? (Text.snakeCase typeName) = some short ∧
        imports.container typeName = (short, imports)) ∨
      imports.nested.get? (Text.snakeCase typeName) = Option.none ∧ ∃ short next,
        imports.container typeName = (short, next) ∧ short = "_nested_" ++ Text.snakeCase typeName ∧
        next.functions = imports.functions ∧
        next.nested = imports.nested ++ [(Text.snakeCase typeName, short)] := by
  cases known : imports.nested.get? (Text.snakeCase typeName) with
  | some short =>
    refine Or.inl ⟨short, rfl, ?_⟩
    simp only [container, known]
  | none =>
    refine Or.inr ⟨rfl, (imports.container typeName).1, (imports.container typeName).2, rfl, ?_⟩
    simp only [container, known, put_of_get?_none known, and_self]

/-- An entry of a table to which one is put is one of those before, at its place, or the new one. -/
theorem getElem?_concat_cases {table : Entries String String} {new e : String × String} {i : Nat}
    (there : (table ++ [new])[i]? = some e) :
    table[i]? = some e ∧ (table ++ [new]).take i = table.take i ∨
      e = new ∧ (table ++ [new]).take i = table := by
  rcases Nat.lt_trichotomy i table.length with below | equal | above
  · rw [List.getElem?_append_left below] at there
    exact Or.inl ⟨there, List.take_append_of_le_length below.le⟩
  · subst equal
    rw [List.getElem?_concat_length] at there
    exact Or.inr ⟨(Option.some.inj there).symm, List.take_left⟩
  · rw [List.getElem?_eq_none (by simp; omega)] at there
    cases there

namespace Sound

variable {imports next : Imports} (sound : Sound imports)
include sound

/-- A table of aliases stays sound when a function gets an alias. -/
theorem withFunction {dotted short : String} (new : imports.functions.get? dotted = Option.none)
    (aliased : Aliased imports.functions dotted short)
    (functions : next.functions = imports.functions ++ [(dotted, short)])
    (nested : next.nested = imports.nested) : Sound next where
  distinct := by
    have fresh : dotted ∉ imports.functions.map (·.1) := by
      intro among
      obtain ⟨short', known⟩ := Entries.mem_keys_iff.mp among
      cases new.symm.trans known
    rw [functions, List.map_append, List.map_singleton, ← List.concat_eq_append]
    exact sound.distinct.concat fresh
  aliased i e there := by
    rw [functions] at there ⊢
    rcases getElem?_concat_cases there with ⟨before, same⟩ | ⟨rfl, same⟩
    · rw [same]
      exact sound.aliased i e before
    · rwa [same]
  nested := nested ▸ sound.nested

theorem withContainer {module : String} (functions : next.functions = imports.functions)
    (nested : next.nested = imports.nested ++ [(module, "_nested_" ++ module)]) : Sound next where
  distinct := functions ▸ sound.distinct
  aliased := functions ▸ sound.aliased
  nested e among := by
    rw [nested, List.mem_append, List.mem_singleton] at among
    rcases among with before | rfl
    · exact sound.nested e before
    · rfl

end Sound

namespace Grows

theorem refl (imports : Imports) : Grows imports imports :=
  ⟨List.prefix_rfl, List.prefix_rfl⟩

theorem trans {first second third : Imports} (before : Grows first second) (after : Grows second third) :
    Grows first third :=
  ⟨before.functions.trans after.functions, before.nested.trans after.nested⟩

/-- An alias that was given once is given again. -/
theorem answers {before after : Imports} (grows : Grows before after) {r : Request} {short : String}
    (given : before.Answers r short) : after.Answers r short := by
  cases r with
  | function dotted =>
    obtain ⟨more, split⟩ := grows.functions
    rw [Answers, ← split, Entries.get?_append, given]
    rfl
  | container typeName =>
    obtain ⟨more, split⟩ := grows.nested
    rw [Answers, ← split, Entries.get?_append, given]
    rfl

end Grows

theorem get?_concat_self {entries : Entries String String} {key value : String}
    (new : entries.get? key = Option.none) : Entries.get? (entries ++ [(key, value)]) key = some value := by
  rw [Entries.get?_append, new]
  simp [Entries.get?]

/-- What is asked for gets the alias that is in the tables then, and nothing that was there changes. -/
theorem answer_sound {imports : Imports} (sound : Sound imports) (r : Request) :
    Sound (answer r imports).2 ∧ Grows imports (answer r imports).2 ∧
      (answer r imports).2.Answers r (answer r imports).1 := by
  cases r with
  | function dotted =>
    rcases function_cases dotted imports with
      ⟨short, known, run⟩ | ⟨new, short, next, run, aliased, functions, nested⟩
    · rw [answer, run]
      exact ⟨sound, .refl _, known⟩
    · rw [answer, run]
      refine ⟨sound.withFunction new aliased functions nested, ⟨?_, ?_⟩, ?_⟩
      · rw [functions]
        exact List.prefix_append ..
      · exact nested ▸ List.prefix_rfl
      · rw [Answers, functions]
        exact get?_concat_self new
  | container typeName =>
    rcases container_cases typeName imports with
      ⟨short, known, run⟩ | ⟨new, short, next, run, rfl, functions, nested⟩
    · rw [answer, run]
      exact ⟨sound, .refl _, known⟩
    · rw [answer, run]
      refine ⟨sound.withContainer functions nested, ⟨?_, ?_⟩, ?_⟩
      · exact functions ▸ List.prefix_rfl
      · rw [nested]
        exact List.prefix_append ..
      · rw [Answers, nested]
        exact get?_concat_self new

/-- All that is asked for gets the aliases that are in the tables in the end. -/
theorem answers_sound {imports : Imports} (sound : Sound imports) (rs : List Request) :
    Sound (answers rs imports).2 ∧ Grows imports (answers rs imports).2 ∧
      List.Forall₂ (answers rs imports).2.Answers rs (answers rs imports).1 := by
  induction rs generalizing imports with
  | nil => exact ⟨sound, .refl _, .nil⟩
  | cons r rest ih =>
    obtain ⟨here, grows, given⟩ := answer_sound sound r
    obtain ⟨last, onward, others⟩ := ih here
    exact ⟨last, grows.trans onward, .cons (onward.answers given) others⟩

section Aliases

variable {first second : String} {i j : Nat}

theorem prefixed_inj {s t : String} : "_" ++ s = "_" ++ t ↔ s = t := by
  constructor
  · intro same
    have chars := congrArg String.toList same
    rw [String.toList_append, String.toList_append] at chars
    exact String.toList_injective (List.append_cancel_left chars)
  · rintro rfl
    rfl

/-- The number of an alias can be read off it: it is what follows the last underscore. -/
theorem place_of_numberedAlias (same : numberedAlias first i = numberedAlias second j) : i = j := by
  have free : ∀ n : Nat, '_' ∉ (toString n).toList := by
    intro n among
    have digit := Text.isDigit_of_mem_toString among
    cases digit
  have last : ∀ (dotted : String) (n : Nat), Text.cutLast '_' (numberedName dotted n).toList =
      some ((ownName dotted).toList, (toString n).toList) := by
    intro dotted n
    have split : (numberedName dotted n).toList = (ownName dotted).toList ++ '_' :: (toString n).toList := by
      simp [numberedName]
    exact Text.cutLast_eq_some_iff.mpr ⟨split, free n⟩
  have parts := last first i
  rw [prefixed_inj.mp same, last second j] at parts
  exact (Text.toString_inj (Prod.mk.inj (Option.some.inj parts)).2).symm

theorem plainAlias_ne_numberedAlias (dotted : String) (place : Nat) :
    plainAlias dotted ≠ numberedAlias dotted place := by
  intro same
  have lengths := congrArg String.length (prefixed_inj.mp same)
  rw [numberedName, String.length_append, String.length_append] at lengths
  have one : "_".length = 1 := rfl
  omega

end Aliases

namespace Sound

variable {imports : Imports} (sound : Sound imports) {i j : Nat} {e f : String × String}
include sound

/-- A function from a module has its plain alias, or the one with the number of its place if the plain
one stands in the table before it. -/
theorem alias_cases (atI : imports.functions[i]? = some e) (imported : FromModule e.1) :
    (∀ f ∈ imports.functions.take i, f.2 ≠ plainAlias e.1) ∧ e.2 = plainAlias e.1 ∨
      (∃ f ∈ imports.functions.take i, f.2 = plainAlias e.1) ∧ e.2 = numberedAlias e.1 i := by
  have inside : i < imports.functions.length := (List.getElem?_eq_some_iff.mp atI).1
  have aliased := sound.aliased i e atI
  generalize short : e.2 = short at aliased ⊢
  cases aliased with
  | own bare => exact absurd imported bare
  | plain _ free => exact Or.inl ⟨free, rfl⟩
  | numbered _ taken =>
    rw [List.length_take, Nat.min_eq_left inside.le]
    exact Or.inr ⟨taken, rfl⟩

/-- Two functions from modules have the same alias exactly if the later one has a number and the name of
the earlier one, which has none, ends in that number. -/
theorem alias_eq_iff (atI : imports.functions[i]? = some e) (atJ : imports.functions[j]? = some f)
    (before : i < j) (importedE : FromModule e.1) (importedF : FromModule f.1) :
    e.2 = f.2 ↔ e.2 = plainAlias e.1 ∧ f.2 = numberedAlias f.1 j ∧ ownName e.1 = numberedName f.1 j := by
  have among : e ∈ imports.functions.take j := List.mem_of_getElem? (List.getElem?_take_of_lt before ▸ atI)
  constructor
  · intro same
    rcases sound.alias_cases atJ importedF with ⟨free, plain⟩ | ⟨_, numbered⟩
    · exact absurd (same.trans plain) (free e among)
    rcases sound.alias_cases atI importedE with ⟨_, plain⟩ | ⟨_, numbered'⟩
    · exact ⟨plain, numbered, prefixed_inj.mp (plain.symm.trans (same.trans numbered))⟩
    · have equal := place_of_numberedAlias (numbered'.symm.trans (same.trans numbered))
      omega
  · rintro ⟨plain, numbered, names⟩
    rw [plain, numbered, plainAlias, names]
    rfl

theorem alias_eq_prefixed_iff (atI : imports.functions[i]? = some e) (imported : FromModule e.1) (s : String) :
    e.2 = "_" ++ s ↔ e.2 = plainAlias e.1 ∧ ownName e.1 = s ∨
      e.2 = numberedAlias e.1 i ∧ numberedName e.1 i = s := by
  rcases sound.alias_cases atI imported with ⟨_, plain⟩ | ⟨_, numbered⟩
  · have other := plainAlias_ne_numberedAlias e.1 i
    simp only [plain, other, true_and, false_and, or_false]
    exact prefixed_inj
  · have other := (plainAlias_ne_numberedAlias e.1 i).symm
    simp only [numbered, other, true_and, false_and, false_or]
    exact prefixed_inj

end Sound

/-- Which aliases functions from modules get, and where these clash: with that of an earlier function, of
the module of a container, or with the function that looks for converters of types. -/
structure Clashes (imports : Imports) : Prop where
  assigned : ∀ (i : Nat) (e : String × String), imports.functions[i]? = some e → FromModule e.1 →
    (∀ f ∈ imports.functions.take i, f.2 ≠ plainAlias e.1) ∧ e.2 = plainAlias e.1 ∨
      (∃ f ∈ imports.functions.take i, f.2 = plainAlias e.1) ∧ e.2 = numberedAlias e.1 i
  functions : ∀ (i j : Nat) (e f : String × String), i < j → imports.functions[i]? = some e →
    imports.functions[j]? = some f → FromModule e.1 → FromModule f.1 →
      (e.2 = f.2 ↔ e.2 = plainAlias e.1 ∧ f.2 = numberedAlias f.1 j ∧ ownName e.1 = numberedName f.1 j)
  nested : ∀ (i : Nat) (e : String × String), imports.functions[i]? = some e → FromModule e.1 →
    ∀ n ∈ imports.nested, (e.2 = n.2 ↔ e.2 = plainAlias e.1 ∧ ownName e.1 = "nested_" ++ n.1 ∨
      e.2 = numberedAlias e.1 i ∧ numberedName e.1 i = "nested_" ++ n.1)
  converting : ∀ (i : Nat) (e : String × String), imports.functions[i]? = some e → FromModule e.1 →
    (e.2 = "_convert" ↔ e.2 = plainAlias e.1 ∧ ownName e.1 = "convert")

/-- In a sound table it can be told from the names alone which aliases clash. -/
theorem Sound.clashes {imports : Imports} (sound : Sound imports) : Clashes imports where
  assigned i e atI imported := sound.alias_cases atI imported
  functions i j e f before atI atJ importedE importedF :=
    sound.alias_eq_iff atI atJ before importedE importedF
  nested i e atI imported n among := by
    have named : n.2 = "_" ++ ("nested_" ++ n.1) := by
      rw [sound.nested n among, ← String.append_assoc]
      rfl
    rw [named]
    exact sound.alias_eq_prefixed_iff atI imported _
  converting i e atI imported := by
    have unnumbered : numberedName e.1 i ≠ "convert" := by
      intro same
      have among : '_' ∈ (numberedName e.1 i).toList := by simp [numberedName]
      rw [same] at among
      revert among
      decide
    have whole : "_convert" = "_" ++ "convert" := rfl
    rw [whole, sound.alias_eq_prefixed_iff atI imported]
    simp only [unnumbered, and_false, or_false]

theorem sound_none : Sound none where
  distinct := List.nodup_nil
  aliased i e there := by cases there
  nested e among := by cases among

/-- However imports are asked for, a function keeps the alias that it is given first. The alias of
another one is the same only if a number is put to the name of the later one that gives the name of the
earlier one. -/
theorem aliases_clash (rs : List Request) :
    List.Forall₂ (answers rs none).2.Answers rs (answers rs none).1 ∧
      ((answers rs none).2.functions.map (·.1)).Nodup ∧ Clashes (answers rs none).2 := by
  obtain ⟨sound, _, given⟩ := answers_sound sound_none rs
  exact ⟨given, sound.distinct, sound.clashes⟩

/-- The number that is put to a name is not looked for in the table, and the aliases of modules and that
of the function for converters are not in it. -/
theorem totals_clash :
    (answers [.function "pricing.total_2", .function "pricing.total", .function "taxes.total"] none).1 =
        ["_total_2", "_total", "_total_2"] ∧
      (answers [.function "places.nested_home", .container "Home", .function "places.convert"] none).1 =
        ["_nested_home", "_nested_home", "_convert"] ∧
      ∀ dotted ∈ ["pricing.total_2", "pricing.total", "taxes.total", "places.nested_home", "places.convert"],
        FromModule dotted := by
  decide +kernel

end Imports

end Lineage.Code
