import RobotMoney.Sort.Keyed

/-!
# The schema guard (`compare_schema`)

The applied migrations are compared with those of the binary as maps from versions to checksums, never by their maxima.
The guard agrees exactly where the maps are equal, and otherwise reports the lowest version where they differ, with the
difference that is there (`compareSchema_exact`).
-/

namespace RobotMoney.Indexer

open List Option Prod

structure AppliedMigration where
  version : Int
  checksum : List UInt8
  deriving DecidableEq, Repr

/-- What the guard reads of `sqlx::migrate::Migration`. -/
structure Migration where
  version : Int
  description : String
  checksum : List UInt8
  deriving DecidableEq, Repr

inductive SchemaDivergence where
  | neverMigrated (embedded : Int)
  | missingVersion (version : Int) (description : String) (appliedMax embedded : Int)
  | checksumMismatch (version : Int) (description : String)
  | unknownAppliedVersion (version embedded : Int)
  deriving DecidableEq, Repr

def SchemaDivergence.version : SchemaDivergence → Int
  | .neverMigrated _ => 0
  | .missingVersion version .. | .checksumMismatch version _ | .unknownAppliedVersion version _ => version

/-- `applied_by`: of two rows with one version the later one counts. -/
def appliedBy (applied : List AppliedMigration) (version : Int) : Option (List UInt8) :=
  ((applied.filter fun a => decide (a.version = version)).getLast?).map AppliedMigration.checksum

/-- The keys of `applied_by`. -/
def appliedVersions (applied : List AppliedMigration) : List Int :=
  Keyed.sortByKey id (applied.map AppliedMigration.version).dedup

/-- What an embedded migration contributes to `divergences`. -/
def embeddedDivergence (applied : List AppliedMigration) (appliedMax embeddedMax : Int) (m : Migration) :
    Option SchemaDivergence :=
  match appliedBy applied m.version with
  | none => some (.missingVersion m.version m.description appliedMax embeddedMax)
  | some checksum => if checksum ≠ m.checksum then some (.checksumMismatch m.version m.description) else none

def appliedDivergence (embedded : List Migration) (embeddedMax version : Int) : Option SchemaDivergence :=
  if version ∈ embedded.map Migration.version then none else some (.unknownAppliedVersion version embeddedMax)

def divergences (applied : List AppliedMigration) (embedded : List Migration) (appliedMax embeddedMax : Int) :
    List SchemaDivergence :=
  embedded.filterMap (embeddedDivergence applied appliedMax embeddedMax) ++
    (appliedVersions applied).filterMap (appliedDivergence embedded embeddedMax)

/-- `compare_schema`; `none` is the panic on an empty list of embedded migrations. -/
def compareSchema (applied : List AppliedMigration) (embedded : List Migration) :
    Option (Except SchemaDivergence Int) := do
  let embeddedMax ← (embedded.map Migration.version).max?
  match (applied.map AppliedMigration.version).max? with
  | none => return .error (.neverMigrated embeddedMax)
  | some appliedMax =>
    match (Keyed.sortByKey SchemaDivergence.version (divergences applied embedded appliedMax embeddedMax)).head? with
    | some d => return .error d
    | none => return .ok embeddedMax

def AppliedMigration.entry (a : AppliedMigration) : Int × List UInt8 := (a.version, a.checksum)

open AppliedMigration

def Migration.entry (m : Migration) : Int × List UInt8 := (m.version, m.checksum)

def SameMaps (applied : List AppliedMigration) (embedded : List Migration) : Prop :=
  ∀ p, p ∈ applied.map entry ↔ p ∈ embedded.map Migration.entry

def DifferAt (applied : List AppliedMigration) (embedded : List Migration) (version : Int) : Prop :=
  ∃ checksum, ¬ ((version, checksum) ∈ applied.map entry ↔
    (version, checksum) ∈ embedded.map Migration.entry)

def Highest (versions : List Int) (v : Int) : Prop := v ∈ versions ∧ ∀ w ∈ versions, w ≤ v

def SchemaDivergence.Holds (applied : List AppliedMigration) (embedded : List Migration) : SchemaDivergence → Prop
  | .neverMigrated top => applied = [] ∧ Highest (embedded.map Migration.version) top
  | .missingVersion version description appliedMax top =>
    version ∉ applied.map AppliedMigration.version ∧
      (∃ m ∈ embedded, m.version = version ∧ m.description = description) ∧
      Highest (applied.map AppliedMigration.version) appliedMax ∧ Highest (embedded.map Migration.version) top
  | .checksumMismatch version description =>
    ∃ a ∈ applied, ∃ m ∈ embedded, a.version = version ∧ m.version = version ∧ m.description = description ∧
      a.checksum ≠ m.checksum
  | .unknownAppliedVersion version top =>
    version ∈ applied.map AppliedMigration.version ∧ version ∉ embedded.map Migration.version ∧
      Highest (embedded.map Migration.version) top

variable {applied : List AppliedMigration} {embedded : List Migration} {versions : List Int} {v : Int}

private theorem highest_iff : versions.max? = some v ↔ Highest versions v := by
  rw [max?_eq_some_iff, Highest]

private theorem Highest.unique {w : Int} (hv : Highest versions v) (hw : Highest versions w) : v = w :=
  le_antisymm (hw.2 v hv.1) (hv.2 w hw.1)

variable {checksum : List UInt8}

private theorem appliedBy_eq_some (hdistinct : (applied.map version).Nodup) {version : Int} :
    appliedBy applied version = some checksum ↔ (version, checksum) ∈ applied.map entry := by
  rw [appliedBy, Option.map_eq_some_iff, List.mem_map]
  constructor
  · rintro ⟨a, ha, rfl⟩
    have hmem := mem_filter.1 (mem_of_getLast? ha)
    exact ⟨a, hmem.1, Prod.ext (of_decide_eq_true hmem.2) rfl⟩
  · rintro ⟨a, ha, hentry⟩
    cases hentry
    have hmem : a ∈ applied.filter fun b => decide (b.version = a.version) := by simp [ha]
    cases hlast : (applied.filter fun b => decide (b.version = a.version)).getLast? with
    | none =>
      rw [getLast?_eq_none_iff] at hlast
      rw [hlast] at hmem
      cases hmem
    | some b =>
      have hb := mem_filter.1 (mem_of_getLast? hlast)
      have hsame : b = a := inj_on_of_nodup_map hdistinct hb.1 ha (of_decide_eq_true hb.2)
      exact ⟨b, rfl, by rw [hsame]⟩

private theorem appliedBy_eq_none {version : Int} :
    appliedBy applied version = none ↔ version ∉ applied.map AppliedMigration.version := by
  rw [appliedBy, Option.map_eq_none_iff, List.getLast?_eq_none_iff, List.filter_eq_nil_iff, List.mem_map]
  constructor
  · rintro h ⟨a, ha, hversion⟩
    exact h a ha (decide_eq_true hversion)
  · intro h a ha hversion
    exact h ⟨a, ha, of_decide_eq_true hversion⟩

private theorem version_mem_applied {version : Int}
    (h : (version, checksum) ∈ applied.map entry) : version ∈ applied.map
      AppliedMigration.version := by
  obtain ⟨a, ha, hentry⟩ := mem_map.1 h
  exact mem_map.2 ⟨a, ha, congrArg fst hentry⟩

private theorem version_mem_embedded {version : Int}
    (h : (version, checksum) ∈ embedded.map Migration.entry) : version ∈ embedded.map Migration.version := by
  obtain ⟨m, hm, hentry⟩ := mem_map.1 h
  exact mem_map.2 ⟨m, hm, congrArg fst hentry⟩

private theorem mem_entry_applied (hdistinct : (applied.map version).Nodup) {a : AppliedMigration}
    (ha : a ∈ applied) : (a.version, checksum) ∈ applied.map entry ↔ checksum = a.checksum := by
  constructor
  · intro h
    obtain ⟨b, hb, hentry⟩ := mem_map.1 h
    have hsame : b = a := inj_on_of_nodup_map hdistinct hb ha (congrArg fst hentry)
    rw [← hsame]
    exact (congrArg snd hentry).symm
  · rintro rfl
    exact mem_map_of_mem ha

private theorem mem_entry_embedded (hdistinct : (embedded.map Migration.version).Nodup) {m : Migration}
    (hm : m ∈ embedded) {version : Int} (hversion : m.version = version) :
    (version, checksum) ∈ embedded.map Migration.entry ↔ checksum = m.checksum := by
  subst hversion
  constructor
  · intro h
    obtain ⟨n, hn, hentry⟩ := mem_map.1 h
    have hsame : n = m := inj_on_of_nodup_map hdistinct hn hm (congrArg fst hentry)
    rw [← hsame]
    exact (congrArg snd hentry).symm
  · rintro rfl
    exact mem_map_of_mem hm

section Compare

variable (happlied : (applied.map version).Nodup)
  (hembedded : (embedded.map Migration.version).Nodup) {appliedMax embeddedMax : Int}
  (hamax : Highest (applied.map version) appliedMax)
  (hemax : Highest (embedded.map Migration.version) embeddedMax)

include happlied hamax hemax

variable {d : SchemaDivergence}

/-- The list holds the divergences that are there, and no others. -/
theorem mem_divergences : d ∈ divergences applied embedded appliedMax embeddedMax ↔ d.Holds applied embedded := by
  rw [divergences, mem_append, mem_filterMap, mem_filterMap]
  constructor
  · rintro (⟨m, hm, hd⟩ | ⟨v, hv, hd⟩)
    · unfold embeddedDivergence at hd
      split at hd
      · rename_i hnone
        cases hd
        exact ⟨appliedBy_eq_none.1 hnone, ⟨m, hm, rfl, rfl⟩, hamax, hemax⟩
      rename_i checksum hsome
      split at hd
      · rename_i hne
        cases hd
        obtain ⟨a, ha, hentry⟩ := mem_map.1 ((appliedBy_eq_some happlied).1 hsome)
        have hchecksum : a.checksum = checksum := congrArg snd hentry
        exact ⟨a, ha, m, hm, congrArg fst hentry, rfl, rfl, hchecksum ▸ hne⟩
      · cases hd
    · unfold appliedDivergence at hd
      split at hd
      · cases hd
      rename_i hunknown
      cases hd
      refine ⟨?_, hunknown, hemax⟩
      rwa [appliedVersions, Keyed.mem_sortByKey, mem_dedup] at hv
  · intro hd
    cases d with
    | neverMigrated top =>
      rw [hd.1] at hamax
      cases hamax.1
    | missingVersion version description amax top =>
      obtain ⟨habsent, ⟨m, hm, rfl, rfl⟩, hamax', hemax'⟩ := hd
      left
      refine ⟨m, hm, ?_⟩
      rw [embeddedDivergence, appliedBy_eq_none.2 habsent, hamax.unique hamax', hemax.unique hemax']
    | checksumMismatch version description =>
      obtain ⟨a, ha, m, hm, hversion, rfl, rfl, hne⟩ := hd
      left
      refine ⟨m, hm, ?_⟩
      have hsome : appliedBy applied m.version = some a.checksum :=
        (appliedBy_eq_some happlied).2 (mem_map.2 ⟨a, ha, Prod.ext hversion rfl⟩)
      rw [embeddedDivergence, hsome]
      exact if_pos hne
    | unknownAppliedVersion version top =>
      obtain ⟨hmem, hunknown, hemax'⟩ := hd
      right
      refine ⟨version, ?_, ?_⟩
      · rwa [appliedVersions, Keyed.mem_sortByKey, mem_dedup]
      · rw [appliedDivergence, if_neg hunknown, hemax.unique hemax']

include hembedded

private theorem differAt_iff {version : Int} : DifferAt applied embedded version ↔
    ∃ d : SchemaDivergence, d.Holds applied embedded ∧ d.version = version := by
  constructor
  · rintro ⟨checksum, hdiffer⟩
    by_cases happ : version ∈ applied.map AppliedMigration.version
    · obtain ⟨a, ha, rfl⟩ := mem_map.1 happ
      by_cases hemb : a.version ∈ embedded.map Migration.version
      · obtain ⟨m, hm, hversion⟩ := mem_map.1 hemb
        refine ⟨.checksumMismatch a.version m.description, ⟨a, ha, m, hm, rfl, hversion, rfl, ?_⟩, rfl⟩
        intro hsame
        exact hdiffer ((mem_entry_applied happlied ha).trans (hsame ▸ (mem_entry_embedded hembedded hm hversion).symm))
      · exact ⟨.unknownAppliedVersion a.version embeddedMax, ⟨happ, hemb, hemax⟩, rfl⟩
    by_cases hemb : version ∈ embedded.map Migration.version
    · obtain ⟨m, hm, rfl⟩ := mem_map.1 hemb
      exact ⟨.missingVersion m.version m.description appliedMax embeddedMax,
        ⟨happ, ⟨m, hm, rfl, rfl⟩, hamax, hemax⟩, rfl⟩
    · exact absurd (iff_of_false (fun h => happ (version_mem_applied h)) fun h => hemb (version_mem_embedded h)) hdiffer
  · rintro ⟨d, hd, rfl⟩
    cases d with
    | neverMigrated top =>
      rw [hd.1] at hamax
      cases hamax.1
    | missingVersion version description amax top =>
      obtain ⟨habsent, ⟨m, hm, rfl, -⟩, -⟩ := hd
      exact ⟨m.checksum, fun h => habsent (version_mem_applied (h.2 (mem_map_of_mem hm)))⟩
    | checksumMismatch version description =>
      obtain ⟨a, ha, m, hm, rfl, hversion, -, hne⟩ := hd
      refine ⟨a.checksum, fun h => hne ?_⟩
      exact (mem_entry_embedded hembedded hm hversion).1 (h.1 (mem_map_of_mem ha))
    | unknownAppliedVersion version top =>
      obtain ⟨hmem, hunknown, -⟩ := hd
      obtain ⟨a, ha, rfl⟩ := mem_map.1 hmem
      exact ⟨a.checksum, fun h => hunknown (version_mem_embedded (h.1 (mem_map_of_mem ha)))⟩

omit happlied hemax in
/-- At a version one divergence at most is there. -/
theorem holds_unique {d' : SchemaDivergence} (hd : d.Holds applied embedded) (hd' : d'.Holds applied embedded)
    (h : d.version = d'.version) : d = d' := by
  have hdescription : ∀ m ∈ embedded, ∀ m' ∈ embedded, m.version = m'.version → m.description = m'.description :=
    fun m hm m' hm' hversion => congrArg Migration.description (inj_on_of_nodup_map hembedded hm hm' hversion)
  have hsome : ∀ d : SchemaDivergence, d.Holds applied embedded → ∀ top, d ≠ .neverMigrated top := by
    rintro d hd top rfl
    rw [hd.1] at hamax
    cases hamax.1
  cases d with
  | neverMigrated top => exact absurd rfl (hsome _ hd top)
  | missingVersion version description amax top =>
    obtain ⟨habsent, ⟨m, hm, rfl, rfl⟩, hamax', hemax'⟩ := hd
    cases d' with
    | neverMigrated top => exact absurd rfl (hsome _ hd' top)
    | missingVersion version description amax' top' =>
      obtain ⟨-, ⟨n, hn, rfl, rfl⟩, hamax'', hemax''⟩ := hd'
      rw [hdescription m hm n hn h, hamax'.unique hamax'', hemax'.unique hemax'', show m.version = n.version from h]
    | checksumMismatch version description =>
      obtain ⟨a, ha, n, hn, rfl, -⟩ := hd'
      exact absurd (List.mem_map.2 ⟨a, ha, h.symm⟩) habsent
    | unknownAppliedVersion version top' =>
      have hversion : m.version = version := h
      exact absurd (hversion ▸ hd'.1) habsent
  | checksumMismatch version description =>
    obtain ⟨a, ha, m, hm, rfl, hversion, rfl, -⟩ := hd
    cases d' with
    | neverMigrated top => exact absurd rfl (hsome _ hd' top)
    | missingVersion version description amax' top' => exact absurd (List.mem_map.2 ⟨a, ha, h⟩) hd'.1
    | checksumMismatch version description =>
      obtain ⟨b, hb, n, hn, rfl, hversion', rfl, -⟩ := hd'
      rw [show a.version = b.version from h, hdescription m hm n hn (hversion.trans (h.trans hversion'.symm))]
    | unknownAppliedVersion version top' => exact absurd (mem_map.2 ⟨m, hm, hversion.trans h⟩) hd'.2.1
  | unknownAppliedVersion version top =>
    obtain ⟨hmem, hunknown, hemax'⟩ := hd
    cases d' with
    | neverMigrated top => exact absurd rfl (hsome _ hd' top)
    | missingVersion version' description amax' top' =>
      have hversion : version = version' := h
      exact absurd (hversion ▸ hmem) hd'.1
    | checksumMismatch version' description =>
      obtain ⟨a, ha, n, hn, -, hversion', -⟩ := hd'
      exact absurd (mem_map.2 ⟨n, hn, hversion'.trans h.symm⟩) hunknown
    | unknownAppliedVersion version' top' => rw [show version = version' from h, hemax'.unique hd'.2.2]

theorem sameMaps_iff : SameMaps applied embedded ↔ divergences applied embedded appliedMax embeddedMax = [] := by
  rw [eq_nil_iff_forall_not_mem]
  constructor
  · intro hsame d hd
    have hholds := (mem_divergences happlied hamax hemax).1 hd
    obtain ⟨checksum, hdiffer⟩ := (differAt_iff happlied hembedded hamax hemax).2 ⟨d, hholds, rfl⟩
    exact hdiffer (hsame _)
  · rintro hnone ⟨version, checksum⟩
    by_contra hdiffer
    obtain ⟨d, hholds, -⟩ := (differAt_iff happlied hembedded hamax hemax).1 ⟨checksum, hdiffer⟩
    exact hnone d ((mem_divergences happlied hamax hemax).2 hholds)

omit happlied hembedded in
private theorem compareSchema_of_highest : compareSchema applied embedded =
    match (Keyed.sortByKey SchemaDivergence.version (divergences applied embedded appliedMax embeddedMax)).head? with
    | some d => some (.error d)
    | none => some (.ok embeddedMax) := by
  rw [compareSchema, highest_iff.2 hamax, highest_iff.2 hemax]
  rfl

private theorem head?_divergences_iff :
    (Keyed.sortByKey SchemaDivergence.version (divergences applied embedded appliedMax embeddedMax)).head? = some d ↔
      d.Holds applied embedded ∧ ∀ version, DifferAt applied embedded version → d.version ≤ version := by
  have hleast : ∀ d, (Keyed.sortByKey SchemaDivergence.version
      (divergences applied embedded appliedMax embeddedMax)).head? = some d →
      d.Holds applied embedded ∧ ∀ version, DifferAt applied embedded version → d.version ≤ version := by
    intro d hhead
    obtain ⟨hmem, hle⟩ := Keyed.head?_sortByKey hhead
    refine ⟨(mem_divergences happlied hamax hemax).1 hmem, fun version hdiffer => ?_⟩
    obtain ⟨e, hholds, rfl⟩ := (differAt_iff happlied hembedded hamax hemax).1 hdiffer
    exact hle e ((mem_divergences happlied hamax hemax).2 hholds)
  refine ⟨hleast d, fun ⟨hholds, hlow⟩ => ?_⟩
  have hmem := (mem_divergences happlied hamax hemax).2 hholds
  cases hhead : (Keyed.sortByKey SchemaDivergence.version
      (divergences applied embedded appliedMax embeddedMax)).head? with
  | none =>
    rw [Keyed.head?_sortByKey_eq_none] at hhead
    rw [hhead] at hmem
    cases hmem
  | some e =>
    obtain ⟨heholds, helow⟩ := hleast e hhead
    have hdiffer : ∀ e' : SchemaDivergence, e'.Holds applied embedded → DifferAt applied embedded e'.version :=
      fun e' he' => (differAt_iff happlied hembedded hamax hemax).2 ⟨e', he', rfl⟩
    have hversion : e.version = d.version := le_antisymm (helow _ (hdiffer d hholds)) (hlow _ (hdiffer e heholds))
    rw [holds_unique hembedded hamax heholds hholds hversion]

end Compare

private theorem exists_highest (h : versions ≠ []) : ∃ v, Highest versions v := by
  obtain ⟨v, hv⟩ := isSome_iff_exists.1 (isSome_max?_iff.2 h)
  exact ⟨v, highest_iff.1 hv⟩

/-- The guard accepts equal maps with their highest version, and nothing else; a database without migrations is told so,
and any other difference is reported at the lowest version that has one, in the shape that is there. -/
theorem compareSchema_exact (hne : embedded ≠ []) (happlied : (applied.map version).Nodup)
    (hembedded : (embedded.map Migration.version).Nodup) :
    compareSchema applied embedded ≠ none ∧
      (∀ v, compareSchema applied embedded = some (.ok v) ↔
        SameMaps applied embedded ∧ Highest (embedded.map Migration.version) v) ∧
      ∀ d, compareSchema applied embedded = some (.error d) ↔
        (applied = [] ∧ ∃ top, d = .neverMigrated top ∧ Highest (embedded.map Migration.version) top) ∨
          (applied ≠ [] ∧ d.Holds applied embedded ∧ DifferAt applied embedded d.version ∧
            ∀ version, DifferAt applied embedded version → d.version ≤ version) := by
  obtain ⟨embeddedMax, hemax⟩ := exists_highest (mt map_eq_nil_iff.1 hne)
  have hunique : ∀ v, Highest (embedded.map Migration.version) v ↔ v = embeddedMax :=
    fun v => ⟨fun h => h.unique hemax, fun h => h ▸ hemax⟩
  rcases eq_or_ne applied [] with rfl | happ
  · have hdiffers : ¬ SameMaps [] embedded := by
      intro hsame
      obtain ⟨m, hm⟩ := exists_mem_of_ne_nil _ hne
      cases (hsame m.entry).2 (mem_map_of_mem hm)
    have hresult : compareSchema [] embedded = some (.error (.neverMigrated embeddedMax)) := by
      rw [compareSchema, highest_iff.2 hemax]
      rfl
    rw [hresult]
    refine ⟨some_ne_none _, fun v => ⟨fun h => ?_, fun h => absurd h.1 hdiffers⟩, fun d => ?_⟩
    · cases h
    · constructor
      · intro h
        cases h
        exact .inl ⟨rfl, embeddedMax, rfl, hemax⟩
      · rintro (⟨-, top, rfl, htop⟩ | ⟨habs, -⟩)
        · rw [htop.unique hemax]
        · exact absurd rfl habs
  · obtain ⟨appliedMax, hamax⟩ := exists_highest (mt map_eq_nil_iff.1 happ)
    have hresult := compareSchema_of_highest hamax hemax
    have hhead := fun d => @head?_divergences_iff _ _ happlied hembedded _ _ hamax hemax d
    have hsame := sameMaps_iff happlied hembedded hamax hemax
    have hdiffer : ∀ d : SchemaDivergence, d.Holds applied embedded → DifferAt applied embedded d.version :=
      fun d hd => (differAt_iff happlied hembedded hamax hemax).2 ⟨d, hd, rfl⟩
    cases hfirst : (Keyed.sortByKey SchemaDivergence.version
        (divergences applied embedded appliedMax embeddedMax)).head? with
    | none =>
      rw [hfirst] at hresult
      rw [hresult]
      have hequal : SameMaps applied embedded := hsame.2 (Keyed.head?_sortByKey_eq_none.1 hfirst)
      refine ⟨some_ne_none _, fun v => ?_, fun d => ⟨fun h => ?_, ?_⟩⟩
      · rw [hunique v]
        constructor
        · intro h
          cases h
          exact ⟨hequal, rfl⟩
        · rintro ⟨-, rfl⟩
          rfl
      · cases h
      · rintro (⟨habs, -⟩ | ⟨-, hholds, ⟨checksum, hdiffers⟩, -⟩)
        · exact absurd habs happ
        · exact absurd (hequal _) hdiffers
    | some e =>
      rw [hfirst] at hresult
      rw [hresult]
      obtain ⟨heholds, helow⟩ := (hhead e).1 hfirst
      refine ⟨some_ne_none _, fun v => ⟨fun h => ?_, fun h => ?_⟩, fun d => ⟨fun h => ?_, ?_⟩⟩
      · cases h
      · obtain ⟨checksum, hdiffers⟩ := hdiffer e heholds
        exact absurd (h.1 _) hdiffers
      · cases h
        exact .inr ⟨happ, heholds, hdiffer e heholds, helow⟩
      · rintro (⟨habs, -⟩ | ⟨-, hholds, -, hlow⟩)
        · exact absurd habs happ
        · rw [(hhead d).2 ⟨hholds, hlow⟩] at hfirst
          cases hfirst
          rfl

/-- An unknown migration below a missing one, with equal maxima. -/
theorem compareSchema_exact_of_equal_maxima :
    DifferAt [⟨3, [7]⟩, ⟨1, [5]⟩] [⟨2, "roles", [6]⟩, ⟨3, "vaults", [7]⟩] 1 ∧
      ∀ version, DifferAt [⟨3, [7]⟩, ⟨1, [5]⟩] [⟨2, "roles", [6]⟩, ⟨3, "vaults", [7]⟩] version → 1 ≤ version := by
  have hresult : compareSchema [⟨3, [7]⟩, ⟨1, [5]⟩] [⟨2, "roles", [6]⟩, ⟨3, "vaults", [7]⟩] =
      some (.error (.unknownAppliedVersion 1 3)) := by decide
  have hexact := ((compareSchema_exact (by decide) (by decide) (by decide)).2.2 _).1 hresult
  rcases hexact with ⟨habs, -⟩ | ⟨-, -, hdiffers, hlow⟩
  · exact absurd habs (by decide)
  · exact ⟨hdiffers, hlow⟩

end RobotMoney.Indexer
