import NetlistPrep.Fingerprint
import NetlistPrep.Proofs.Json
import NetlistPrep.Proofs.Outcome
import NetlistPrep.Proofs.Path
import NetlistPrep.Settings

/-!
# Saving settings

Settings go to members (`toMembers`) and come from members (`ofMembers`).

* `ofMembers_toMembers`: what is saved is accepted and gives the settings back. Switches and name
  are there as they are, and the path is there as a text that means it.
* `ofMembers_congr`: reading looks at what stands under the keys and not at the order of members, so
  the settings come back in whatever order the members were put (`ofMembers_of_perm_toMembers`).
* `ofMembers_again` is the statement about members that were accepted.
-/

namespace NetlistPrep.Settings

open Outcome

variable {members members' : List (Text × Json)} {s : Settings}

/-! ## What reading looks at -/

theorem unknownKeys_eq_nil_iff : unknownKeys members = [] ↔ ∀ m ∈ members, m.1 ∈ keys := by
  rw [unknownKeys, ← List.length_eq_zero_iff, List.length_mergeSort, List.length_eq_zero_iff]
  simp

theorem check_congr (h : ∀ key, members.lookup key = members'.lookup key)
    (path : Except Fault (Option Path)) : check members path = check members' path := by
  simp only [check, switch, h]

/-- Members with known keys are read alike where the same stands under every key. -/
theorem ofMembers_congr (hmembers : unknownKeys members = [])
    (hmembers' : unknownKeys members' = []) (h : ∀ key, members.lookup key = members'.lookup key) :
    ofMembers members = ofMembers members' := by
  rw [ofMembers, ofMembers, hmembers, hmembers', h]
  simp only [check_congr h]

/-- The path of settings is the one that stands in the members they were read from. -/
theorem path?_of_ofMembers_eq_ok (h : ofMembers members = .ok s) :
    path? (members.lookup descriptorKey) = some s.descriptor := by
  unfold ofMembers at h
  split at h
  · split at h
    · rename_i path hpath
      simp only [check, bind_eq_ok_iff] at h
      obtain ⟨_, -, _, -, _, -, _, -, path', hpath', _, -, hs⟩ := h
      obtain rfl := Except.ok.inj hpath'
      obtain rfl := Except.ok.inj hs
      exact hpath
    · exact absurd h nofun
  · exact absurd h nofun

/-! ## Saved settings -/

theorem map_fst_toMembers (s : Settings) : s.toMembers.map (·.1) = keys := rfl

theorem nodup_map_fst_toMembers (s : Settings) : (s.toMembers.map (·.1)).Nodup := by
  rw [map_fst_toMembers]
  decide

theorem unknownKeys_toMembers (s : Settings) : unknownKeys s.toMembers = [] :=
  unknownKeys_eq_nil_iff.2 fun _ hm => map_fst_toMembers s ▸ List.mem_map_of_mem hm

theorem switch_toMembers (s : Settings) :
    switch s.toMembers "case_conversion".toList = .ok s.caseConversion ∧
      switch s.toMembers "section_defaults".toList = .ok s.sectionDefaults ∧
      switch s.toMembers "header".toList = .ok s.header ∧
      switch s.toMembers "calc_geometry".toList = .ok s.geometry :=
  ⟨rfl, rfl, rfl, rfl⟩

theorem path?_toMembers (s : Settings) :
    path? (s.toMembers.lookup descriptorKey) = some s.descriptor := by
  cases hpath : s.descriptor with
  | none =>
    have hlookup : s.toMembers.lookup descriptorKey = some .null := by
      rw [toMembers, hpath]
      rfl
    rw [hlookup]
    rfl
  | some p =>
    have hlookup : s.toMembers.lookup descriptorKey = some (.str p.text) := by
      rw [toMembers, hpath]
      rfl
    rw [hlookup, path?, p.ofText_text]

/-- The name of settings passes the check, because it did so when the settings were made. -/
theorem checkedName_toMembers (s : Settings) :
    checkedName ((s.toMembers.lookup generatorKey).getD (.str Banner.defaultGenerator)) =
      .ok ⟨s.generatorName, s.notBlank, s.oneLine⟩ := by
  have hlookup : s.toMembers.lookup generatorKey = some (.str s.generatorName) := rfl
  rw [hlookup, Option.getD_some, checkedName, dif_neg s.notBlank, dif_neg s.oneLine]

/-- **Saved settings are accepted and come back as they were.** -/
theorem ofMembers_toMembers (s : Settings) : ofMembers s.toMembers = .ok s := by
  obtain ⟨hcase, hsections, hheader, hgeometry⟩ := switch_toMembers s
  rw [ofMembers, unknownKeys_toMembers, path?_toMembers]
  simp only [check, hcase, hsections, hheader, hgeometry, checkedName_toMembers, ok_bind]
  rfl

/-- **They come back in whatever order their members were put.** -/
theorem ofMembers_of_perm_toMembers (h : members.Perm s.toMembers) : ofMembers members = .ok s := by
  have hknown : unknownKeys members = [] := unknownKeys_eq_nil_iff.2 fun m hm =>
    unknownKeys_eq_nil_iff.1 (unknownKeys_toMembers s) m (h.subset hm)
  have hlookup : ∀ key, members.lookup key = s.toMembers.lookup key := fun _ =>
    (Rows.lookup_eq_of_perm (nodup_map_fst_toMembers s) h.symm).symm
  rw [ofMembers_congr hknown (unknownKeys_toMembers s) hlookup, ofMembers_toMembers]

theorem fingerprint_of_perm_toMembers (h : members.Perm s.toMembers) :
    Fingerprint.ofJson (.obj members) = Fingerprint.ofJson s.toJson := by
  have hcanonical := Json.canonical_obj_eq_of_perm h.symm (nodup_map_fst_toMembers s)
  rw [Fingerprint.ofJson, Fingerprint.ofJson, toJson, hcanonical]

/-- **Settings that were accepted are accepted again as they are saved,** in whatever order, and
give the same settings; their fingerprint stays the same, too. The path in them is the normal form
of the one that was given, and bringing it into normal form again changes nothing. -/
theorem ofMembers_again (h : ofMembers members = .ok s) :
    ofMembers s.toMembers = .ok s ∧
    (∀ saved : List (Text × Json), saved.Perm s.toMembers →
      ofMembers saved = .ok s ∧ Fingerprint.ofJson (.obj saved) = Fingerprint.ofJson s.toJson) ∧
    path? (members.lookup descriptorKey) = some s.descriptor ∧
    ∀ t, Path.ofText (Path.ofText t).text = Path.ofText t :=
  ⟨ofMembers_toMembers s,
    fun _ hsaved => ⟨ofMembers_of_perm_toMembers hsaved, fingerprint_of_perm_toMembers hsaved⟩,
    path?_of_ofMembers_eq_ok h, fun t => (Path.ofText t).ofText_text⟩

/-- The path that is given starts with two slashes and is not in normal form, and the members are
read in reverse. -/
theorem ofMembers_again_two_slashes :
    let members : List (Text × Json) :=
      [("header".toList, .bool false),
        ("module_descriptor".toList, .str "//./cells//../inv.txt/".toList),
        ("generator_name".toList, .str " tool\r".toList)]
    ∃ s : Settings, ofMembers members = .ok s ∧
      s.toMembers.lookup descriptorKey = some (.str "//cells/../inv.txt".toList) ∧
      ofMembers s.toMembers = .ok s ∧ ofMembers s.toMembers.reverse = .ok s := by
  intro members
  have hknown : unknownKeys members = [] := by
    rw [unknownKeys_eq_nil_iff]
    simp only [members]
    decide
  let s : Settings := {
    header := false
    descriptor := some (.ofText "//./cells//../inv.txt/".toList)
    generatorName := " tool\r".toList }
  have h : ofMembers members = .ok s := by
    rw [ofMembers, hknown]
    rfl
  obtain ⟨hsame, hperm, -, -⟩ := ofMembers_again h
  exact ⟨s, h, rfl, hsame, (hperm _ s.toMembers.reverse_perm).1⟩

end NetlistPrep.Settings
