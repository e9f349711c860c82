import Lineage.Proofs.Conversion.Tracked
import Lineage.Proofs.CustomResource.Object
import Lineage.Proofs.Version.Reader

namespace Lineage.CustomResource

/-- Whether an object has again the content of another, whose other fields it has kept, and records no
dropped values. -/
structure Restored (before after : Entries Value Value) : Prop where
  spec : ∃ content restored, Value.member? before "spec" = some (.map content) ∧
    Value.member? after "spec" = some (.map restored) ∧
    ∀ key, Entries.get? restored key = Entries.get? content key
  status : ∃ status, Value.member? after "status" = some (.map status) ∧
    Value.member? status "changedValues" = some (.list []) ∧
    ∀ key, key ≠ .text "changedValues" →
      Entries.get? status key = Entries.get? (Dispatcher.statusOf before) key
  others : ∀ key, key ≠ .text "spec" → key ≠ .text "status" → Entries.get? after key = Entries.get? before key

namespace Dispatcher

variable {ι : Type} {d : Dispatcher ι} {fields : Entries Value Value}

/-- A field names a version by the group, a slash and the name of the version. -/
theorem versionOf_eq_ok_iff {field : String} {v : Value} {name : String} :
    d.versionOf field v = .ok name ↔
      v = .text s!"{d.group}/{name}" ∧ d.timeline.has name = true ∧ '/' ∉ name.toList := by
  have written : s!"{d.group}/{name}".toList = d.group.toList ++ '/' :: name.toList := by
    show (d.group ++ "/" ++ name).toList = _
    simp
  constructor
  · intro known
    cases v with
    | text s =>
      simp only [versionOf] at known
      split at known
      · rename_i group version cut
        split at known
        · rename_i fits
          rw [Bool.and_eq_true, beq_iff_eq] at fits
          cases known
          obtain ⟨split, free⟩ := Text.cutLast_eq_some_iff.mp cut
          refine ⟨congrArg Value.text (String.toList_injective ?_), fits.2, by rwa [String.toList_ofList]⟩
          rw [written, ← fits.1, String.toList_ofList, String.toList_ofList, split]
        · cases known
      · cases known
    | _ => cases known
  · rintro ⟨rfl, declared, free⟩
    have cut := Text.cutLast_eq_some_iff.mpr ⟨written, free⟩
    simp only [versionOf, cut, String.ofList_toList, beq_self_eq_true, declared, Bool.and_self, if_true]

/-- What names a declared version is read as its name. -/
theorem versionOf_of_declared {c : Container} {g : Generation} (run : Generation.ofContainer c = .ok g)
    (own : d.runtime.generation = g) {r : Release} (member : r ∈ g.timeline.releases) (field : String) :
    d.versionOf field (.text s!"{d.group}/{r.name}") = .ok r.name := by
  have sound := (Generation.made_of_ofContainer run).sound
  obtain ⟨v, read⟩ := Generation.parsed_of_ofContainer run (List.mem_map_of_mem member)
  refine versionOf_eq_ok_iff.mpr ⟨rfl, ?_, Version.slash_not_mem read⟩
  rw [Timeline.has, timeline, own, sound.find?_iff.mpr ⟨member, rfl⟩]
  rfl

theorem specOf_of_map {spec : Entries Value Value} (own : Value.member? fields "spec" = some (.map spec)) :
    specOf fields = .map spec := by
  rw [specOf, own]
  cases spec with
  | nil => rfl
  | cons e rest => rfl

/-- The fields of an object that is converted with a tracker. -/
def converted (d : Dispatcher ι) (fields : Entries Value Value) (desired : String) (spec changed : Value) :
    Entries Value Value :=
  let renewed := Entries.put (Entries.put fields (.text "spec") spec) (.text "apiVersion")
    (.text s!"{d.group}/{desired}")
  Entries.put renewed (.text "status")
    (.map (Entries.put (statusOf fields) (.text "changedValues") changed))

section Converted

variable (d) (fields) (desired : String) (spec changed : Value)

theorem get?_converted {key : Value} (notSpec : key ≠ .text "spec") (notVersion : key ≠ .text "apiVersion")
    (notStatus : key ≠ .text "status") :
    Entries.get? (d.converted fields desired spec changed) key = Entries.get? fields key := by
  rw [converted, Entries.get?_put_of_ne_text notStatus, Entries.get?_put_of_ne_text notVersion,
    Entries.get?_put_of_ne_text notSpec]

theorem member?_converted_spec :
    Value.member? (d.converted fields desired spec changed) "spec" = some spec := by
  rw [Value.member?, converted, Entries.get?_put_of_ne_text (by simp),
    Entries.get?_put_of_ne_text (by simp), Entries.get?_put_text]

theorem member?_converted_version :
    Value.member? (d.converted fields desired spec changed) "apiVersion" =
      some (.text s!"{d.group}/{desired}") := by
  rw [Value.member?, converted, Entries.get?_put_of_ne_text (by simp), Entries.get?_put_text]

theorem member?_converted_status :
    Value.member? (d.converted fields desired spec changed) "status" =
      some (.map (Entries.put (statusOf fields) (.text "changedValues") changed)) := by
  rw [Value.member?, converted, Entries.get?_put_text]

theorem statusOf_converted :
    statusOf (d.converted fields desired spec changed) =
      Entries.put (statusOf fields) (.text "changedValues") changed := by
  rw [statusOf, member?_converted_status]

/-- An object becomes no deeper but by the record of what was dropped from its content. -/
theorem depth_converted_le {n : Nat} (others : Value.depth.entryDepth fields ≤ n) (content : spec.depth ≤ n)
    (record : changed.depth + 1 ≤ n) : (Value.map (d.converted fields desired spec changed)).depth ≤ n + 1 := by
  have status : Value.depth.entryDepth (statusOf fields) + 1 ≤ n := by
    rw [statusOf]
    split
    · rename_i status own
      have := Value.depth_lt_of_member? own
      simp only [Value.depth] at this
      omega
    · exact (Nat.succ_le_succ (Nat.zero_le _)).trans record
  refine Nat.succ_le_succ (Value.entryDepth_put_le (Value.entryDepth_put_le (Value.entryDepth_put_le others content)
    (Nat.zero_le n)) ?_)
  obtain ⟨m, rfl⟩ : ∃ m, n = m + 1 := Nat.exists_eq_succ_of_ne_zero (by omega)
  exact Nat.succ_le_succ (Value.entryDepth_put_le (Nat.le_of_succ_le_succ status) (Nat.le_of_succ_le_succ record))

theorem changedValues_converted : changedValues (d.converted fields desired spec changed) = changed := by
  rw [changedValues, statusOf_converted, Value.member?, Entries.get?_put_text]
  rfl

end Converted

/-- With a tracker an object is converted to its fields with a new content, under the desired version
and with the dropped values that are left. -/
theorem convertObject_tracked {version : Value} {current desired : String} {p q : Progress} {t u : Tracker}
    {spec changed : Value} (tracks : d.track = true)
    (named : Value.member? fields "apiVersion" = some version)
    (known : d.versionOf "apiVersion" version = .ok current)
    (copied : d.room.Copies (.map fields)) (different : current ≠ desired)
    (loaded : Tracker.ofValue (changedValues fields) = .ok t)
    (made : d.converter current desired (specOf fields) "" { p with tracker := some t } =
      (.ok spec, q)) (left : q.tracker = some u) (written : u.toValue = .ok changed) :
    d.convertObject (.map fields) desired p =
      (.ok (.map (d.converted fields desired spec changed)), { q with tracker := p.tracker }) := by
  have tracker : d.trackerOf fields = .ok (some t) := by
    rw [changedValues] at loaded
    rw [trackerOf, if_pos tracks, loaded]
    rfl
  have same : statusOf (Entries.put (Entries.put fields (.text "spec") spec) (.text "apiVersion")
      (.text s!"{d.group}/{desired}")) = statusOf fields := by
    rw [statusOf, Value.member?, Entries.get?_put_of_ne_text (by simp),
      Entries.get?_put_of_ne_text (by simp)]
    rfl
  rw [convertObject_of_loaded named known copied different tracker, Run.bind_of_ok (tracking_of_ok made), left]
  refine (Run.bind_of_ok (toValue_run written _)).trans ?_
  rw [same]
  rfl

/-- An object that records no dropped values has an empty tracker. -/
theorem ofValue_changedValues_of_fresh (fresh : ∀ v, Value.member? fields "status" = some v →
    ∃ status, v = .map status ∧ Value.member? status "changedValues" = none) :
    Tracker.ofValue (changedValues fields) = .ok .empty := by
  have unprobeFields : Value.member? (statusOf fields) "changedValues" = none := by
    cases own : Value.member? fields "status" with
    | none =>
      rw [statusOf, own]
      rfl
    | some v =>
      obtain ⟨status, rfl, none⟩ := fresh v own
      rw [statusOf, own]
      exact none
  rw [changedValues, unprobeFields]
  rfl

/-- An object that is converted down to a version and up again with a tracker is restored, if no change
alters a type and no item is nested: nothing that is dropped on the way down is lost. In between it is two
levels deeper at most; for each conversion it is copied, which takes room in which it fits. -/
theorem convertObject_restores {c : Container} {g : Generation} {a b : String} {first second : Definition}
    {back forth : List Edge} {version : Value} {spec : Entries Value Value}
    (run : Generation.ofContainer c = .ok g) (struct : c.kind = .struct)
    (keeps : ∀ item ∈ c.items, item.KeepsType) (flat : ∀ item ∈ c.items, item.nested = false)
    (own : d.runtime.generation = g) (tracks : d.track = true) (atA : g.definition a = .ok first)
    (atB : g.definition b = .ok second) (before : first.release.rank < second.release.rank)
    (down : g.edgesBetween b a = .ok back) (up : g.edgesBetween a b = .ok forth)
    (named : Value.member? fields "apiVersion" = some version)
    (known : d.versionOf "apiVersion" version = .ok b) (copied : d.room.Copies (.map fields))
    (content : Value.member? fields "spec" = some (.map spec))
    (keys : ∀ e ∈ spec, ∃ name ∈ second.names, e.1 = .text name)
    (filled : ∀ item ∈ c.items, first.memberOfItem? item.name = none →
      ∀ m, second.memberOfItem? item.name = some m → Value.member? spec m.name ≠ none)
    (fresh : ∀ v, Value.member? fields "status" = some v →
      ∃ status, v = .map status ∧ Value.member? status "changedValues" = none) (p : Progress) :
    ∃ mid q, d.convertObject (.map fields) a p = (.ok (.map mid), q) ∧
      (Value.map mid).depth ≤ (Value.map fields).depth + 2 ∧
      (d.room.Copies (.map mid) →
        ∀ p', ∃ out q', d.convertObject (.map mid) b p' = (.ok (.map out), q') ∧ Restored fields out) := by
  have made := Generation.made_of_ofContainer run
  obtain ⟨lo, atLo, gotLo, rfl⟩ := made.definition_of_name atA
  obtain ⟨hi, atHi, gotHi, rfl⟩ := made.definition_of_name atB
  obtain rfl : lo.name = a := Timeline.name_of_find? (Timeline.get_eq_ok_iff.mp gotLo)
  obtain rfl : hi.name = b := Timeline.name_of_find? (Timeline.get_eq_ok_iff.mp gotHi)
  have apart : hi.name ≠ lo.name := by
    intro same
    cases made.sound.eq_of_name atHi atLo same
    exact absurd before (lt_irrefl _)
  have complete : ∀ item ∈ c.items, (item.statusIn c.kind g.timeline lo).member? = none →
      ∀ m, (item.statusIn c.kind g.timeline hi).member? = some m → Value.member? spec m.1 ≠ none := by
    intro item listed absent m present
    refine filled item listed ?_ _
      ((made.memberOfItem?_eq listed hi).trans (congrArg (Option.map _) present))
    exact (made.memberOfItem?_eq listed lo).trans (congrArg (Option.map _) absent)
  have inside := Value.depth_lt_of_member? content
  obtain ⟨older, q, t, w, u, first, left, written, loaded, shallow, record, again⟩ :=
    made.convert_restores struct keeps flat own _ atLo atHi before "" p down up keys complete
      (copied.of_depth_le inside.le)
  refine ⟨_, _, convertObject_tracked tracks named known copied apart (ofValue_changedValues_of_fresh fresh)
    (by rw [specOf_of_map content]; exact first) left written, ?_, fun copied' p' => ?_⟩
  · simp only [Value.depth] at inside ⊢
    refine depth_converted_le d fields _ _ _ (by omega) ?_ (by omega)
    simp only [Value.depth]
    omega
  obtain ⟨newer, q', second, left', same⟩ := again p'
  refine ⟨_, _, convertObject_tracked tracks (member?_converted_version ..)
    (versionOf_of_declared run own atLo _) copied' apart.symm (by rw [changedValues_converted]; exact loaded)
    (by rw [specOf_of_map (member?_converted_spec ..)]; exact second) left' rfl, ?_, ?_, ?_⟩
  · exact ⟨spec, newer, content, member?_converted_spec .., same⟩
  · refine ⟨_, member?_converted_status .., Entries.get?_put_text, fun key other => ?_⟩
    rw [Entries.get?_put_of_ne_text other, statusOf_converted, Entries.get?_put_of_ne_text other]
  · intro key notSpec notStatus
    by_cases isVersion : key = .text "apiVersion"
    · rw [isVersion]
      refine (member?_converted_version ..).trans ?_
      rw [← (versionOf_eq_ok_iff.mp known).1]
      exact named.symm
    · rw [get?_converted _ _ _ _ _ notSpec isVersion notStatus,
        get?_converted _ _ _ _ _ notSpec isVersion notStatus]

/-- A struct with a field that is renamed, one that is renamed after it was added, and one that is added
last. -/
def probe : Container where
  name := "Probe"
  kind := .struct
  doc := none
  versions := ["v1", "v2", "v3"].map Declaration.named
  items := [⟨"reading", some "int", none, none, false, none, [⟨"v3", some "value", none, none, none⟩], none⟩,
    ⟨"unit", some "str", none, none, false, some ⟨"v2", none, none, none⟩,
      [⟨"v3", some "scale", none, none, none⟩], none⟩,
    ⟨"note", some "str", none, none, false, some ⟨"v3", none, none, none⟩, [], none⟩]
  options := ⟨true, false⟩
  resource := none

/-- An object of the newest version, with a null in the field that was added last. -/
def probeFields : Entries Value Value :=
  [(.text "apiVersion", .text "example.org/v3"),
    (.text "spec", .map [(.text "note", .null), (.text "unit", .text "mm"), (.text "reading", .int 7)])]

/-- A probe comes back from the oldest version with its null note. -/
theorem convertObject_restores_probe :
    ∃ g mid q, Generation.ofContainer probe = .ok g ∧
      (Dispatcher.mk (.single g .standard) "example.org" "Probe" true .standard).convertObject
        (.map probeFields) "v1" (Progress.start none) = (.ok (.map mid), q) ∧
      ∀ p, ∃ out q', (Dispatcher.mk (.single g .standard) "example.org" "Probe" true .standard).convertObject
        (.map mid) "v3" p = (.ok (.map out), q') ∧ Restored probeFields out := by
  have facts : (Generation.ofContainer probe).toOption.map (fun g =>
      ((g.definition "v1").toOption.map (·.release.rank),
        (g.definition "v3").toOption.map (fun d => (d.release.rank, d.names)),
        (g.edgesBetween "v3" "v1").isOk, (g.edgesBetween "v1" "v3").isOk, g.timeline.has "v3")) =
      some (some 0, some (2, ["reading", "unit", "note"]), true, true, true) := by decide +kernel
  obtain ⟨g, run, facts⟩ := exists_of_toOption_map facts
  simp only [Prod.mk.injEq] at facts
  obtain ⟨oldest, newest, down, up, declared⟩ := facts
  obtain ⟨first, atA, rankA⟩ := exists_of_toOption_map oldest
  obtain ⟨second, atB, rankB⟩ := exists_of_toOption_map newest
  obtain ⟨back, atBack⟩ := exists_of_isOk down
  obtain ⟨forth, atForth⟩ := exists_of_isOk up
  obtain ⟨rankB, names⟩ := Prod.mk.inj rankB
  have filled : ∀ m ∈ second.members, Value.member? [(.text "note", .null), (.text "unit", .text "mm"),
      (.text "reading", .int 7)] m.name ≠ none := by
    intro m member
    have named : m.name ∈ second.names := List.mem_map_of_mem member
    rw [names] at named
    simp only [List.mem_cons, List.not_mem_nil, or_false] at named
    rcases named with same | same | same <;> rw [same] <;> exact nofun
  have fits : ∀ n ∈ Room.standard.copied, (Value.map probeFields).depth + 2 ≤ n := by decide
  obtain ⟨mid, q, there, shallow, again⟩ := @convertObject_restores _
    (Dispatcher.mk (.single g .standard) "example.org" "Probe" true .standard) probeFields probe g "v1" "v3" first
    second back forth (.text "example.org/v3") _ run rfl (by simp [probe, Item.KeepsType]) (by simp [probe])
    rfl rfl atA atB (by omega) atBack atForth rfl (versionOf_eq_ok_iff.mpr ⟨rfl, declared, by decide⟩)
    (fun n among => Nat.le_of_add_right_le (fits n among)) rfl
    (by simp [names]) (fun item _ _ m found => filled m (List.mem_of_find?_eq_some found)) nofun
    (Progress.start none)
  exact ⟨g, mid, q, run, there, again fun n among => shallow.trans (fits n among)⟩

end Dispatcher

end Lineage.CustomResource
