import Mathlib.Data.List.Forall2
import Mathlib.Data.List.Nodup
import Lineage.Value.Key

namespace Lineage

/-- Only a text is the same key as a text. -/
theorem Value.beq_text {key : Value} {s : String} : (key == Value.text s) = true ↔ key = .text s := by
  constructor
  · intro same
    cases key with
    | text t =>
      rw [text_beq_text, beq_iff_eq] at same
      rw [same]
    | _ => simp [BEq.beq, sameKey, wholeNumber?, asInt?] at same
  · rintro rfl
    rw [text_beq_text, beq_self_eq_true]

theorem Value.text_beq {key : Value} {s : String} : (Value.text s == key) = true ↔ key = .text s := by
  constructor
  · intro same
    cases key with
    | text t =>
      rw [text_beq_text, beq_iff_eq] at same
      rw [same]
    | _ => simp [BEq.beq, sameKey, wholeNumber?, asInt?] at same
  · rintro rfl
    rw [text_beq_text, beq_self_eq_true]

namespace Entries

theorem putAll_append {α β : Type} [BEq α] (entries left right : Entries α β) :
    putAll entries (left ++ right) = putAll (putAll entries left) right :=
  List.foldl_append

theorem put_ne_nil {α β : Type} [BEq α] {entries : Entries α β} {key : α} {value : β} :
    put entries key value ≠ [] := by
  unfold put
  split
  · exact List.cons_ne_nil _ _
  · split <;> exact List.cons_ne_nil _ _

/-- Entries under distinct keys are put as they are. -/
theorem putAll_of_nodup {α β : Type} [BEq α] {entries new : Entries α β}
    (lawful : ∀ e ∈ new, ∀ key, (key == e.1) = true → key = e.1)
    (distinct : ((entries ++ new).map (·.1)).Nodup) : putAll entries new = entries ++ new := by
  induction new generalizing entries with
  | nil => simp [putAll]
  | cons e rest ih =>
    have apart : ∀ f ∈ entries, (f.1 == e.1) = false := by
      intro f member
      rw [← Bool.not_eq_true]
      intro same
      rw [List.map_append, List.nodup_append] at distinct
      exact distinct.2.2 _ (List.mem_map_of_mem member) _ (List.mem_map_of_mem (List.mem_cons_self ..))
        (lawful e (List.mem_cons_self ..) f.1 same)
    rw [← List.singleton_append, putAll_append, ← List.append_assoc,
      ← ih (fun f member => lawful f (List.mem_cons_of_mem _ member)) (by simpa using distinct)]
    exact congrArg (putAll · rest) (put_of_new apart)

/-- Entries under distinct names are put as they are. -/
theorem putAll_of_distinct {β : Type} {entries new : Entries Value β}
    (texts : ∀ e ∈ new, ∃ name, e.1 = .text name) (distinct : ((entries ++ new).map (·.1)).Nodup) :
    putAll entries new = entries ++ new := by
  refine putAll_of_nodup (fun e member key same => ?_) distinct
  obtain ⟨name, text⟩ := texts e member
  rw [text] at same ⊢
  exact Value.beq_text.mp same

theorem get?_append {α β : Type} [BEq α] (left right : Entries α β) (key : α) :
    get? (left ++ right) key = (get? left key).or (get? right key) := by
  rw [get?, List.find?_append, Option.map_or]
  rfl

section Map

variable {α β γ : Type} [BEq α] (f : β → γ)

theorem map_put (entries : Entries α β) (key : α) (value : β) :
    (put entries key value).map (fun e => (e.1, f e.2)) = put (entries.map fun e => (e.1, f e.2)) key (f value) := by
  induction entries with
  | nil => rfl
  | cons e rest ih =>
    by_cases here : (e.1 == key) = true
    · simp only [put, List.map_cons, if_pos here]
    · simp only [put, List.map_cons, if_neg here, ih]

/-- Values may be mapped before they are put or after that. -/
theorem map_ofList (new : List (α × β)) :
    (ofList new).map (fun e => (e.1, f e.2)) = ofList (new.map fun e => (e.1, f e.2)) := by
  have all (entries : Entries α β) : (putAll entries new).map (fun e => (e.1, f e.2)) =
      putAll (entries.map fun e => (e.1, f e.2)) (new.map fun e => (e.1, f e.2)) := by
    induction new generalizing entries with
    | nil => rfl
    | cons e rest ih =>
      have later := ih (put entries e.1 e.2)
      rw [map_put] at later
      exact later
  exact all []

end Map

section Keys

variable {α β : Type} [BEq α] [LawfulBEq α]

/-- Under a key stands what was put there last. -/
theorem get?_putAll (entries new : Entries α β) (key : α) :
    get? (putAll entries new) key = (get? new.reverse key).or (get? entries key) := by
  induction new generalizing entries with
  | nil => rfl
  | cons e rest ih =>
    rw [putAll, List.foldl_cons, ← putAll, ih, List.reverse_cons, get?_append, Option.or_assoc]
    congr 1
    by_cases same : key = e.1
    · rw [same, get?_put_self]
      simp [get?]
    · rw [get?_put_of_ne _ _ same]
      simp [get?, Ne.symm same]

theorem get?_ofList (new : List (α × β)) (key : α) : get? (ofList new) key = get? new.reverse key := by
  rw [ofList, get?_putAll]
  exact Option.or_none

theorem mem_keys_iff {entries : Entries α β} {key : α} :
    key ∈ entries.map (·.1) ↔ ∃ value, get? entries key = some value := by
  rw [← Option.isSome_iff_exists, ← has_eq_isSome_get?, has, List.any_eq_true, List.mem_map]
  simp only [beq_iff_eq]

theorem mem_of_get? {entries : Entries α β} {key : α} {value : β} (found : get? entries key = some value) :
    (key, value) ∈ entries := by
  obtain ⟨e, first, rfl⟩ := Option.map_eq_some_iff.mp found
  have same : (e.1 == key) = true := List.find?_some (p := fun f : α × β => f.1 == key) first
  exact eq_of_beq same ▸ List.mem_of_find?_eq_some first

theorem get?_eq_some_iff {entries : Entries α β} {key : α} {value : β} (distinct : (entries.map (·.1)).Nodup) :
    get? entries key = some value ↔ (key, value) ∈ entries := by
  refine ⟨mem_of_get?, fun member => ?_⟩
  obtain ⟨other, found⟩ := mem_keys_iff.mp (List.mem_map_of_mem member)
  cases List.inj_on_of_nodup_map distinct member (mem_of_get? found) rfl
  exact found

/-- Putting a value at a key adds no entry but the one of the key. -/
theorem mem_put {entries : Entries α β} {key : α} {value : β} {e : α × β} (member : e ∈ put entries key value) :
    e ∈ entries ∨ e = (key, value) := by
  induction entries with
  | nil => exact Or.inr (List.mem_singleton.mp member)
  | cons f rest ih =>
    rw [put] at member
    split at member
    · rename_i same
      rcases List.mem_cons.mp member with rfl | later
      · exact Or.inr (by rw [eq_of_beq same])
      · exact Or.inl (List.mem_cons_of_mem _ later)
    · rcases List.mem_cons.mp member with rfl | later
      · exact Or.inl (List.mem_cons_self ..)
      · exact (ih later).imp_left (List.mem_cons_of_mem _)

theorem nodup_keys_put {entries : Entries α β} {key : α} {value : β} (distinct : (entries.map (·.1)).Nodup) :
    ((put entries key value).map (·.1)).Nodup := by
  rw [keys_put]
  split
  · exact distinct
  · rename_i new
    rw [← List.concat_eq_append]
    exact distinct.concat new

theorem nodup_keys_ofList (new : List (α × β)) : ((ofList new).map (·.1)).Nodup := by
  have all : ∀ entries : Entries α β, (entries.map (·.1)).Nodup → ((putAll entries new).map (·.1)).Nodup := by
    induction new with
    | nil => exact fun _ distinct => distinct
    | cons e rest ih => exact fun entries distinct => ih _ (nodup_keys_put distinct)
  exact all [] .nil

theorem get?_ofList_append (left right : List (α × β)) (key : α) :
    get? (ofList (left ++ right)) key = (get? (ofList right) key).or (get? (ofList left) key) := by
  simp only [get?_ofList, List.reverse_append, get?_append]

theorem mem_of_get?_ofList {new : List (α × β)} {key : α} {value : β}
    (found : get? (ofList new) key = some value) : (key, value) ∈ new :=
  List.mem_reverse.mp (mem_of_get? ((get?_ofList new key).symm.trans found))

theorem exists_get?_ofList_iff {new : List (α × β)} {key : α} :
    (∃ value, get? (ofList new) key = some value) ↔ key ∈ new.map (·.1) := by
  simp only [get?_ofList]
  rw [← mem_keys_iff, List.map_reverse, List.mem_reverse]

theorem keys_ofList_subset (new : List (α × β)) : (ofList new).map (·.1) ⊆ new.map (·.1) :=
  fun _ among => exists_get?_ofList_iff.mp (mem_keys_iff.mp among)

theorem ofList_of_nodup {new : List (α × β)} (distinct : (new.map (·.1)).Nodup) : ofList new = new :=
  putAll_of_nodup (fun _ _ _ same => eq_of_beq same) distinct

end Keys

section Texts

variable {β : Type} {entries : Entries Value β} {name : String} {value : β}

theorem get?_put_text : get? (put entries (.text name) value) (.text name) = some value := by
  induction entries with
  | nil => simp [put, get?]
  | cons e rest ih =>
    cases here : e.1 == Value.text name with
    | true => simp [put, here, get?]
    | false =>
      simp only [get?] at ih
      simp [put, here, get?, ih]

/-- A value that is put at a text leaves those at other keys as they are. -/
theorem get?_put_of_ne_text {key : Value} (ne : key ≠ .text name) :
    get? (put entries (.text name) value) key = get? entries key := by
  have other : (Value.text name == key) = false := by
    rw [← Bool.not_eq_true, Value.text_beq]
    exact ne
  induction entries with
  | nil => simp [put, get?, other]
  | cons e rest ih =>
    cases here : e.1 == Value.text name with
    | true =>
      rw [Value.beq_text] at here
      simp [put, get?, here, other]
    | false =>
      simp only [get?] at ih
      simp only [put, here, Bool.false_eq_true, if_false, get?, List.find?_cons]
      split
      · rfl
      · exact ih

/-- Erasing what is at a text leaves what is at other keys as it is. -/
theorem get?_erase_of_ne_text {key : Value} (ne : key ≠ .text name) :
    get? (erase entries (.text name)) key = get? entries key := by
  induction entries with
  | nil => rfl
  | cons e rest ih =>
    cases here : e.1 == Value.text name with
    | true =>
      have other : (e.1 == key) = false := by
        rw [Value.beq_text] at here
        rw [here, ← Bool.not_eq_true, Value.text_beq]
        exact ne
      simp [erase, get?, here, other]
    | false =>
      simp only [get?, erase] at ih
      simp only [erase, get?, List.eraseP_cons, here, cond_false, List.find?_cons]
      split
      · rfl
      · exact ih

/-- Every entry was there before or is the one at the text. -/
theorem mem_put_text {e : Value × β} (member : e ∈ put entries (.text name) value) :
    e ∈ entries ∨ e.1 = .text name := by
  induction entries with
  | nil => exact Or.inr (congrArg Prod.fst (List.mem_singleton.mp member))
  | cons f rest ih =>
    cases here : f.1 == Value.text name with
    | true =>
      rw [put, if_pos here, List.mem_cons] at member
      rcases member with rfl | later
      · exact Or.inr (Value.beq_text.mp here)
      · exact Or.inl (List.mem_cons_of_mem _ later)
    | false =>
      rw [put, if_neg (Bool.eq_false_iff.mp here), List.mem_cons] at member
      rcases member with rfl | later
      · exact Or.inl (List.mem_cons_self ..)
      · exact (ih later).imp_left (List.mem_cons_of_mem _)

theorem key_of_find? {e : Value × β} (first : entries.find? (fun e => e.1 == Value.text name) = some e) :
    e.1 = .text name := by
  have here := List.find?_some first
  exact Value.beq_text.mp here

/-- Only keys that are there have values. -/
theorem exists_text_of_get? {names : List String} (keys : ∀ e ∈ entries, ∃ name ∈ names, e.1 = .text name)
    {key : Value} (found : get? entries key = some value) : ∃ name ∈ names, key = .text name := by
  obtain ⟨e, first, rfl⟩ := Option.map_eq_some_iff.mp found
  obtain ⟨name, listed, same⟩ := keys e (List.mem_of_find?_eq_some first)
  have here := List.find?_some first
  rw [same, Value.text_beq] at here
  exact ⟨name, listed, here⟩

variable (distinct : (entries.map (·.1)).Nodup)
include distinct

/-- Where keys are distinct, the value at a text is that of its entry. -/
theorem get?_text_iff : get? entries (.text name) = some value ↔ (Value.text name, value) ∈ entries := by
  constructor
  · intro found
    obtain ⟨e, first, rfl⟩ := Option.map_eq_some_iff.mp found
    have member := List.mem_of_find?_eq_some first
    rwa [← key_of_find? first]
  · intro member
    have present : (entries.find? fun e => e.1 == Value.text name).isSome :=
      List.find?_isSome.mpr ⟨_, member, Value.beq_text.mpr rfl⟩
    obtain ⟨e, first⟩ := Option.isSome_iff_exists.mp present
    have same := List.inj_on_of_nodup_map distinct (List.mem_of_find?_eq_some first) member (key_of_find? first)
    rw [get?, first, same]
    rfl

/-- Where keys are distinct, erasing a text takes away its entry and no other. -/
theorem mem_erase_text {e : Value × β} :
    e ∈ erase entries (.text name) ↔ e ∈ entries ∧ e.1 ≠ .text name := by
  unfold erase
  induction entries with
  | nil => simp
  | cons f rest ih =>
    obtain ⟨fresh, distinct⟩ := List.nodup_cons.mp distinct
    cases here : f.1 == Value.text name with
    | true =>
      rw [List.eraseP_cons, here, cond_true]
      rw [Value.beq_text] at here
      constructor
      · intro later
        refine ⟨List.mem_cons_of_mem _ later, fun same => fresh ?_⟩
        exact List.mem_map.mpr ⟨e, later, same.trans here.symm⟩
      · rintro ⟨member, other⟩
        rcases List.mem_cons.mp member with rfl | later
        · exact absurd here other
        · exact later
    | false =>
      have other : f.1 ≠ .text name := fun same => by simp [Value.beq_text.mpr same] at here
      rw [List.eraseP_cons, here, cond_false, List.mem_cons, List.mem_cons, ih distinct]
      constructor
      · rintro (rfl | ⟨later, apart⟩)
        · exact ⟨Or.inl rfl, other⟩
        · exact ⟨Or.inr later, apart⟩
      · rintro ⟨rfl | later, apart⟩
        · exact Or.inl rfl
        · exact Or.inr ⟨later, apart⟩

end Texts

end Entries

section Lookup

variable {entries : Entries Value Value} {key v : Value} {name : String}

theorem Value.member?_cons_self : Value.member? ((.text name, v) :: entries) name = some v := by
  simp [Value.member?, Entries.get?, Value.beq_text.mpr rfl]

theorem Value.member?_cons_of_ne (ne : key ≠ .text name) :
    Value.member? ((key, v) :: entries) name = Value.member? entries name := by
  have other : (key == Value.text name) = false := Bool.eq_false_iff.mpr fun same => ne (Value.beq_text.mp same)
  simp [Value.member?, Entries.get?, other]

theorem Value.member?_eq_none (absent : Value.text name ∉ entries.map (·.1)) :
    Value.member? entries name = none := by
  induction entries with
  | nil => rfl
  | cons entry rest ih =>
    rw [List.map_cons, List.mem_cons, not_or] at absent
    rw [member?_cons_of_ne (Ne.symm absent.1), ih absent.2]

end Lookup

/-- A map whose keys are some names in the order of all of them has its value for each of these names. -/
theorem Entries.eq_filterMap_of_sublist {names : List String} {entries : Entries Value Value}
    (distinct : names.Nodup) (keys : (entries.map (·.1)).Sublist (names.map Value.text)) :
    entries = names.filterMap fun name => (Value.member? entries name).map (.text name, ·) := by
  induction names generalizing entries with
  | nil =>
    rw [List.map_nil, List.sublist_nil, List.map_eq_nil_iff] at keys
    rw [keys, List.filterMap_nil]
  | cons name rest ih =>
    obtain ⟨fresh, distinct⟩ := List.nodup_cons.mp distinct
    have texts : Value.text name ∉ rest.map Value.text := by
      intro among
      obtain ⟨other, there, same⟩ := List.mem_map.mp among
      exact fresh (Value.text.inj same ▸ there)
    cases entries with
    | nil =>
      refine (List.filterMap_eq_nil_iff.mpr fun other _ => ?_).symm
      rfl
    | cons entry others =>
      obtain ⟨key, v⟩ := entry
      rw [List.map_cons, List.map_cons] at keys
      cases keys with
      | cons _ keys =>
        have missing : Value.member? ((key, v) :: others) name = none :=
          Value.member?_eq_none fun among => texts (keys.subset among)
        rw [List.filterMap_cons_none (by rw [missing, Option.map_none])]
        exact ih distinct keys
      | cons_cons _ keys =>
        rw [List.filterMap_cons_some (by rw [Value.member?_cons_self, Option.map_some])]
        refine congrArg (_ :: ·) ((ih distinct keys).trans (List.filterMap_congr fun other there => ?_))
        have apart : Value.text name ≠ .text other := fun same => fresh (Value.text.inj same ▸ there)
        rw [Value.member?_cons_of_ne apart]

theorem Entries.isSome_get?_iff {es : Entries Value Value} {key : Value} :
    (get? es key).isSome = true ↔ ∃ k ∈ es.map (·.1), (k == key) = true := by
  simp [get?, List.find?_isSome]

/-- Whether two values are equal up to the order of the entries in the maps that they consist of. -/
inductive Value.Alike : Value → Value → Prop
  | same (v : Value) : Alike v v
  | list {vs ws : List Value} (length : vs.length = ws.length)
      (each : ∀ pair ∈ vs.zip ws, Alike pair.1 pair.2) : Alike (.list vs) (.list ws)
  | map {es fs : Entries Value Value} (keys : (es.map (·.1)).Perm (fs.map (·.1)))
      (each : ∀ key v w, Entries.get? es key = some v → Entries.get? fs key = some w → Alike v w) :
      Alike (.map es) (.map fs)

namespace Value.Alike

variable {v : Value}

theorem eq_null (alike : v.Alike .null) : v = .null := by
  cases alike
  rfl

theorem eq_text {s : String} (alike : v.Alike (.text s)) : v = .text s := by
  cases alike
  rfl

theorem of_list {ws : List Value} (alike : v.Alike (.list ws)) :
    ∃ vs, v = .list vs ∧ List.Forall₂ Alike vs ws := by
  cases alike with
  | same => exact ⟨ws, rfl, List.forall₂_same.mpr fun w _ => same w⟩
  | @list vs _ length each =>
    refine ⟨vs, rfl, List.forall₂_iff_zip.mpr ⟨length, fun {a b} pair => each (a, b) pair⟩⟩

theorem list_of_forall₂ {vs ws : List Value} (each : List.Forall₂ Alike vs ws) :
    (Value.list vs).Alike (.list ws) := by
  obtain ⟨length, pairs⟩ := List.forall₂_iff_zip.mp each
  exact .list length fun pair listed => pairs listed

/-- A value is like a map if it is a map with like values at the same keys. -/
theorem of_map {fs : Entries Value Value} (alike : v.Alike (.map fs)) :
    ∃ es, v = .map es ∧ ∀ key, Option.Rel Alike (Entries.get? es key) (Entries.get? fs key) := by
  cases alike with
  | same =>
    refine ⟨fs, rfl, fun key => ?_⟩
    cases Entries.get? fs key with
    | none => exact .none
    | some w => exact .some (same w)
  | @map es _ keys each =>
    refine ⟨es, rfl, fun key => ?_⟩
    have both : (Entries.get? es key).isSome = true ↔ (Entries.get? fs key).isSome = true := by
      rw [Entries.isSome_get?_iff, Entries.isSome_get?_iff]
      exact exists_congr fun k => and_congr_left fun _ => keys.mem_iff
    cases left : Entries.get? es key with
    | none =>
      cases right : Entries.get? fs key with
      | none => exact .none
      | some w => simp [left, right] at both
    | some v =>
      cases right : Entries.get? fs key with
      | none => simp [left, right] at both
      | some w => exact .some (each key v w left right)

end Value.Alike

end Lineage
