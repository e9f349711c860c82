import Lineage.Proofs.Bundle
import Lineage.Proofs.Version.Reader
import Lineage.Rendering

namespace Lineage

/-- What all generations of a bundle have in common: each has the versions of the bundle, which are distinct
and written without slashes. -/
structure Bundle.Shares (b : Bundle) (e : String × Generation) : Prop where
  name : e.2.name = e.1
  versions : e.2.definitions.map (·.release.name) = b.versions.map (·.name)
  distinct : (b.versions.map (·.name)).Nodup
  free : ∀ v ∈ b.versions.map (·.name), '/' ∉ v.toList

/-- Every result of a bundle was generated from one of its containers, and stands under its name. -/
theorem Bundle.shares_of_mem_results {b : Bundle} {e : String × Generation}
    (member : e ∈ b.generate.results) : b.Shares e := by
  obtain ⟨name, g⟩ := e
  rw [generate_eq] at member
  have among := (Entries.get?_eq_some_iff (Entries.nodup_keys_ofList _)).mpr member
  obtain ⟨c, _, own⟩ := List.mem_filterMap.mp (Entries.mem_of_get?_ofList among)
  obtain ⟨h, made, same⟩ := Option.map_eq_some_iff.mp own
  cases same
  have run : Generation.ofContainer (b.adopt c) = .ok g := by
    have generated := made?_eq_some_iff.mp made
    unfold generateOne at generated
    split at generated
    · exact generated
    · cases generated
  have whole := Generation.made_of_ofContainer run
  have names : g.timeline.names = b.versions.map (·.name) := Generation.names_of_ofContainer run
  have named := congrArg Container.name whole.container
  refine ⟨named, ?_, names ▸ whole.sound.distinct, fun v declared => ?_⟩
  · rw [whole.definitions, List.map_map]
    exact names
  · obtain ⟨_, read⟩ := Generation.parsed_of_ofContainer run (names ▸ declared)
    exact Version.slash_not_mem read

namespace Format

/-- The paths of the files of a container with some versions; `base` is its name in snake case. -/
def paths (format : Format) (base : String) (versions : List String) : List String :=
  match format with
  | python => [base ++ ".py"]
  | yaml | json => versions.map fun v => s!"{base}/{v}.{format.name}"

variable {format : Format} {g : Generation} {own : Files} {base other path : String} {versions : List String}

/-- The paths of the files of a container follow from its name and the names of its versions. -/
theorem keys_of_render (run : format.render g = .ok own) :
    own.map (·.1) = format.paths (Text.snakeCase g.name) (g.definitions.map (·.release.name)) := by
  cases format with
  | python =>
    obtain ⟨text, _, same⟩ := exists_of_bind run
    cases same
    rfl
  | yaml | json =>
    simp only [render] at run
    rw [paths, List.map_map]
    refine map_eq_of_mapM run fun d f made => ?_
    obtain ⟨_, _, same⟩ := exists_of_bind made
    exact (congrArg Prod.fst (Except.ok.inj same)).symm

theorem toList_path (base v ending : String) :
    s!"{base}/{v}.{ending}".toList = base.toList ++ '/' :: (v.toList ++ '.' :: ending.toList) := by
  show (base ++ "/" ++ v ++ "." ++ ending).toList = _
  simp

theorem nodup_paths (distinct : versions.Nodup) : (format.paths base versions).Nodup := by
  have injective : Function.Injective fun v : String => s!"{base}/{v}.{format.name}" := by
    intro v w same
    have chars := congrArg String.toList same
    simp only [toList_path] at chars
    have behind := (List.cons.inj (List.append_cancel_left chars)).2
    exact String.toList_injective (List.append_cancel_right behind)
  cases format with
  | python => exact List.nodup_singleton _
  | yaml | json => exact distinct.map injective

/-- A path tells the name that it begins with, as there are no slashes in versions. -/
theorem base_of_mem_paths (free : ∀ v ∈ versions, '/' ∉ v.toList) (left : path ∈ format.paths base versions)
    (right : path ∈ format.paths other versions) : base = other := by
  have schemas : ∀ {v w : String}, v ∈ versions → w ∈ versions →
      s!"{base}/{v}.{format.name}" = s!"{other}/{w}.{format.name}" → base = other := by
    intro v w atV atW same
    have chars := congrArg String.toList same
    simp only [toList_path, ← List.cons_append, ← List.append_assoc] at chars
    have front := List.append_cancel_right chars
    have cut := Text.cutLast_eq_some_iff.mpr (And.intro (@rfl _ (base.toList ++ '/' :: v.toList)) (free v atV))
    have cut' := Text.cutLast_eq_some_iff.mpr (And.intro front (free w atW))
    exact String.toList_injective (Prod.mk.inj (Option.some.inj (cut.symm.trans cut'))).1
  cases format with
  | python =>
    have same := (List.mem_singleton.mp left).symm.trans (List.mem_singleton.mp right)
    have chars := congrArg String.toList same
    simp only [String.toList_append] at chars
    exact String.toList_injective (List.append_cancel_right chars)
  | yaml | json =>
    obtain ⟨v, atV, rfl⟩ := List.mem_map.mp left
    obtain ⟨w, atW, same⟩ := List.mem_map.mp right
    exact schemas atV atW same.symm

theorem mem_keys_flatten {lists : List Files} (listed : own ∈ lists) (among : path ∈ own.map (·.1)) :
    path ∈ lists.flatten.map (·.1) := by
  obtain ⟨f, inside, rfl⟩ := List.mem_map.mp among
  exact List.mem_map_of_mem (List.mem_flatten.mpr ⟨own, listed, inside⟩)

/-- What stands under a path comes from the last element whose files have this path. -/
theorem exists_last_of_get? {α : Type} {f : α → Except Failure Files} {xs : List α} {lists : List Files}
    {text : String} (run : xs.mapM f = .ok lists)
    (found : Entries.get? (Entries.ofList lists.flatten) path = some text) :
    ∃ before x after own, xs = before ++ x :: after ∧ f x = .ok own ∧ (path, text) ∈ own ∧
      ∀ y ∈ after, ∃ later, f y = .ok later ∧ path ∉ later.map (·.1) := by
  induction xs generalizing lists with
  | nil =>
    cases run
    cases found
  | cons x rest ih =>
    rw [List.mapM_cons] at run
    obtain ⟨own, first, run⟩ := exists_of_bind run
    obtain ⟨others, made, run⟩ := exists_of_bind run
    cases run
    rw [List.flatten_cons, Entries.get?_ofList_append] at found
    cases behind : Entries.get? (Entries.ofList others.flatten) path with
    | some other =>
      rw [behind] at found
      cases found
      obtain ⟨before, y, after, later, split, rest⟩ := ih made behind
      exact ⟨x :: before, y, after, later, congrArg (x :: ·) split, rest⟩
    | none =>
      rw [behind] at found
      refine ⟨[], x, rest, own, rfl, first, Entries.mem_of_get?_ofList found, fun y among => ?_⟩
      obtain ⟨later, listed, same⟩ := exists_mem_of_mapM made among
      refine ⟨later, same, fun present => ?_⟩
      obtain ⟨text, there⟩ := Entries.exists_get?_ofList_iff.mpr (mem_keys_flatten listed present)
      cases there.symm.trans behind

theorem foldl_putAll (entries : Files) (lists : List Files) :
    lists.foldl Entries.putAll entries = Entries.putAll entries lists.flatten := by
  induction lists generalizing entries with
  | nil => rfl
  | cons own rest ih => rw [List.foldl_cons, ih, List.flatten_cons, Entries.putAll_append]

/-- The results of a bundle in alphabetical order. -/
def alphabetical (results : Entries String Generation) : List (String × Generation) :=
  results.mergeSort fun a b => Text.inOrder a.1 b.1

theorem mem_alphabetical {results : Entries String Generation} {e : String × Generation} :
    e ∈ alphabetical results ↔ e ∈ results :=
  List.mem_mergeSort

theorem pairwise_alphabetical (results : Entries String Generation) :
    (alphabetical results).Pairwise fun a b => Text.inOrder a.1 b.1 = true :=
  @List.pairwise_mergeSort _ (fun a b : String × Generation => Text.inOrder a.1 b.1)
    (fun _ _ _ => Text.inOrder_trans) (fun a b => Text.inOrder_total a.1 b.1) results

/-- A bundle is rendered by putting the files of its results together, in the alphabetical order of their
names. -/
theorem renderBundle_eq_ok_iff {r : BundleResult} {files : Files} : format.renderBundle r = .ok files ↔
    ∃ lists, (alphabetical r.results).mapM (fun e => format.render e.2) = .ok lists ∧
      files = Entries.ofList lists.flatten := by
  constructor
  · intro run
    obtain ⟨lists, rendered, same⟩ := exists_of_bind run
    refine ⟨lists, rendered, ?_⟩
    rw [Entries.ofList, ← foldl_putAll]
    exact (Except.ok.inj same).symm
  · rintro ⟨lists, rendered, rfl⟩
    rw [Entries.ofList, ← foldl_putAll]
    exact congrArg (· >>= fun lists : List Files => Except.ok (lists.foldl Entries.putAll [])) rendered

/-- Whether files hold those of some generations, each under its path. -/
def Keeps (format : Format) (results : Entries String Generation) (files : Files) : Prop :=
  ∀ e ∈ results, ∀ own, format.render e.2 = .ok own → ∀ f ∈ own, Entries.get? files f.1 = some f.2

/-- Files under the same paths are the same if others hold both. -/
theorem eq_of_held {files left right : Files} (atLeft : ∀ f ∈ left, Entries.get? files f.1 = some f.2)
    (atRight : ∀ f ∈ right, Entries.get? files f.1 = some f.2) (keys : left.map (·.1) = right.map (·.1)) :
    left = right := by
  have read : ∀ own : Files, (∀ f ∈ own, Entries.get? files f.1 = some f.2) →
      own.map (fun f => (f.1, some f.2)) = (own.map (·.1)).map fun path => (path, Entries.get? files path) := by
    intro own held
    rw [List.map_map]
    exact List.map_congr_left fun f inside => Prod.ext rfl (held f inside).symm
  have injective : Function.Injective fun f : String × String => (f.1, some f.2) := by
    rintro ⟨path, text⟩ ⟨other, text'⟩ same
    cases same
    rfl
  exact List.map_injective_iff.mpr injective ((read left atLeft).trans (keys ▸ (read right atRight).symm))

/-- Whether a generation is the last in alphabetical order of those whose names are those of another in snake
case. -/
structure LastAlike (results : Entries String Generation) (name : String) (e : String × Generation) : Prop where
  member : e ∈ results
  alike : Text.snakeCase e.1 = Text.snakeCase name
  last : ∀ other ∈ results, Text.snakeCase other.1 = Text.snakeCase name → Text.inOrder other.1 e.1 = true

section Bundle

variable {b : Bundle} {e e' : String × Generation} {own' files : Files}

theorem keys_of_results (member : e ∈ b.generate.results) (made : format.render e.2 = .ok own) :
    own.map (·.1) = format.paths (Text.snakeCase e.1) (b.versions.map (·.name)) := by
  have shares := Bundle.shares_of_mem_results member
  rw [keys_of_render made, shares.name, shares.versions]

/-- Files of two generations of a bundle are under the same paths or have none in common. -/
theorem alike_of_common_path (member : e ∈ b.generate.results) (made : format.render e.2 = .ok own)
    (member' : e' ∈ b.generate.results) (made' : format.render e'.2 = .ok own')
    (left : path ∈ own.map (·.1)) (right : path ∈ own'.map (·.1)) :
    Text.snakeCase e.1 = Text.snakeCase e'.1 := by
  rw [keys_of_results member made] at left
  rw [keys_of_results member' made'] at right
  exact base_of_mem_paths (Bundle.shares_of_mem_results member).free left right

/-- A bundle can be rendered exactly if each of its results can. -/
theorem renderBundle_ok_iff : (∃ files, format.renderBundle b.generate = .ok files) ↔
    ∀ e ∈ b.generate.results, ∃ own, format.render e.2 = .ok own := by
  constructor
  · rintro ⟨files, rendered⟩ e member
    obtain ⟨lists, all, _⟩ := renderBundle_eq_ok_iff.mp rendered
    obtain ⟨own, _, made⟩ := exists_mem_of_mapM all (mem_alphabetical.mpr member)
    exact ⟨own, made⟩
  · intro renders
    cases all : (alphabetical b.generate.results).mapM fun e => format.render e.2 with
    | ok lists => exact ⟨_, renderBundle_eq_ok_iff.mpr ⟨lists, all, rfl⟩⟩
    | error failure =>
      obtain ⟨e, first, fails⟩ := mapM_eq_error_iff.mp all
      obtain ⟨own, made⟩ := renders e (mem_alphabetical.mp first.mem)
      cases made.symm.trans fails

section Rendered

variable (rendered : format.renderBundle b.generate = .ok files)
include rendered

/-- A file of a bundle has the text of the last result that writes to its path. -/
theorem exists_last (member : e ∈ b.generate.results) (made : format.render e.2 = .ok own)
    (among : path ∈ own.map (·.1)) : ∃ last own' text, LastAlike b.generate.results e.1 last ∧
      format.render last.2 = .ok own' ∧ (path, text) ∈ own' ∧ Entries.get? files path = some text := by
  obtain ⟨lists, all, rfl⟩ := renderBundle_eq_ok_iff.mp rendered
  have listed : own ∈ lists := by
    obtain ⟨other, there, same⟩ := exists_mem_of_mapM all (mem_alphabetical.mpr member)
    cases made.symm.trans same
    exact there
  obtain ⟨text, found⟩ := Entries.exists_get?_ofList_iff.mpr (mem_keys_flatten listed among)
  obtain ⟨before, last, after, own', split, made', inside, later⟩ := exists_last_of_get? all found
  have atLast : last ∈ b.generate.results :=
    mem_alphabetical.mp (split ▸ List.mem_append_right _ (List.mem_cons_self ..))
  refine ⟨last, own', text, ⟨atLast, ?_, fun other atOther alike => ?_⟩, made', inside, found⟩
  · exact alike_of_common_path atLast made' member made (List.mem_map_of_mem inside) among
  · have ordered := pairwise_alphabetical b.generate.results
    have place := mem_alphabetical.mpr atOther
    rw [split] at ordered place
    rcases List.mem_append.mp place with earlier | place
    · exact (List.pairwise_append.mp ordered).2.2 other earlier last (List.mem_cons_self ..)
    rcases List.mem_cons.mp place with rfl | behind
    · exact (Bool.or_self _).symm.trans (Text.inOrder_total other.1 other.1)
    · obtain ⟨others, same, free⟩ := later other behind
      rw [keys_of_results atOther same, alike, ← keys_of_results member made] at free
      exact absurd among free

/-- All files of all results are kept exactly if results that write to the same paths have the same files. -/
theorem keeps_iff : format.Keeps b.generate.results files ↔
    ∀ e ∈ b.generate.results, ∀ e' ∈ b.generate.results,
      Text.snakeCase e.1 = Text.snakeCase e'.1 → format.render e.2 = format.render e'.2 := by
  have renders := renderBundle_ok_iff.mp ⟨files, rendered⟩
  have distinct : ∀ e ∈ b.generate.results, ∀ own, format.render e.2 = .ok own → (own.map (·.1)).Nodup := by
    intro e member own made
    rw [keys_of_results member made]
    exact nodup_paths (Bundle.shares_of_mem_results member).distinct
  constructor
  · intro keeps e member e' member' alike
    obtain ⟨own, made⟩ := renders e member
    obtain ⟨own', made'⟩ := renders e' member'
    have keys : own.map (·.1) = own'.map (·.1) := by
      rw [keys_of_results member made, keys_of_results member' made', alike]
    rw [made, made', eq_of_held (keeps e member own made) (keeps e' member' own' made') keys]
  · intro same e member own made f inside
    obtain ⟨last, own', text, ⟨atLast, alike, _⟩, made', there, found⟩ :=
      exists_last rendered member made (List.mem_map_of_mem inside)
    rw [same last atLast e member alike, made] at made'
    cases made'
    rw [found, ← (Entries.get?_eq_some_iff (distinct e member own made)).mpr there]
    exact (Entries.get?_eq_some_iff (distinct e member own made)).mpr inside

end Rendered

/-- A bundle is rendered exactly if all its generations are. Under each path stands the file of the last
generation, in alphabetical order, of those whose names are the same in snake case. So all files are kept
exactly if generations with such names have the same files, and in particular if there are no such names. -/
theorem renderBundle_keeps (b : Bundle) (format : Format) :
    ((∃ files, format.renderBundle b.generate = .ok files) ↔
        ∀ e ∈ b.generate.results, ∃ own, format.render e.2 = .ok own) ∧
      ∀ files, format.renderBundle b.generate = .ok files →
        (∀ e ∈ b.generate.results, ∀ own, format.render e.2 = .ok own → ∀ path ∈ own.map (·.1),
          ∃ last own' text, LastAlike b.generate.results e.1 last ∧ format.render last.2 = .ok own' ∧
            (path, text) ∈ own' ∧ Entries.get? files path = some text) ∧
        (format.Keeps b.generate.results files ↔
          ∀ e ∈ b.generate.results, ∀ e' ∈ b.generate.results,
            Text.snakeCase e.1 = Text.snakeCase e'.1 → format.render e.2 = format.render e'.2) ∧
        ((b.generate.results.map fun e => Text.snakeCase e.1).Nodup →
          format.Keeps b.generate.results files) := by
  refine ⟨renderBundle_ok_iff, fun files rendered => ⟨fun e member own made path among => ?_, ?_, ?_⟩⟩
  · exact exists_last rendered member made among
  · exact keeps_iff rendered
  · intro distinct
    refine (keeps_iff rendered).mpr fun e member e' member' alike => ?_
    rw [List.inj_on_of_nodup_map distinct member member' alike]

/-- A stock with two containers whose names differ, but not in snake case. -/
def stock : Bundle where
  name := "stock"
  versions := [Declaration.named "v1"]
  containers := [("OrderLine", "sku", "str"), ("order_line", "id", "int")].map fun (name, item, type) =>
    { name := name
      kind := .struct
      doc := none
      versions := []
      items := [⟨item, some type, none, none, false, none, [], none⟩]
      options := ⟨false, false⟩
      resource := none }
  options := ⟨true, false⟩

/-- Of the two schemas only one is kept. -/
theorem stock_schema_lost : ∃ files, Format.json.renderBundle stock.generate = .ok files ∧
    (stock.containers.map (·.name)).Nodup ∧ stock.generate.results.map (·.1) = stock.containers.map (·.name) ∧
    ¬ Format.json.Keeps stock.generate.results files := by
  have names : stock.generate.results.map (·.1) = stock.containers.map (·.name) := by decide +kernel
  have renders : ∀ e ∈ stock.generate.results, (Format.json.render e.2).isOk = true := by decide +kernel
  have clash : ∃ e ∈ stock.generate.results, ∃ e' ∈ stock.generate.results,
      Text.snakeCase e.1 = Text.snakeCase e'.1 ∧
        (Format.json.render e.2).toOption ≠ (Format.json.render e'.2).toOption := by decide +kernel
  obtain ⟨files, rendered⟩ := renderBundle_ok_iff.mpr fun e member => exists_of_isOk (renders e member)
  refine ⟨files, rendered, by decide, names, fun keeps => ?_⟩
  obtain ⟨e, member, e', member', alike, differ⟩ := clash
  exact differ (congrArg Except.toOption ((keeps_iff rendered).mp keeps e member e' member' alike))

end Bundle

end Format

end Lineage
