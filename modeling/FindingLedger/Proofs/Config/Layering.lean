import FindingLedger.Config.Basic

/-!
# Layers of a configuration

**Input.**  The root directory of a project, and layers that are all accepted: tables of documents
and overrides, from whatever working directories.

**Algorithm.**  A layer is one or two places where something can be set.  A `Setting` tells its
value in a configuration, and the value that a place sets, if it sets one: `null` and missing fields
set nothing.  `Setting.last` is the value that the last of some places sets, or a default.

**Results.**
* `Config.takeTable_eq_ok_iff`, `Config.override_eq_ok_iff`: what it comes to that a place is
  accepted.
* `Setting.Lawful.run`: along accepted places a setting has the value of the last one that sets
  it; the five settings are lawful, and so is the project root, which nothing sets.
* `Path.normal_text`, `Path.resolve_text`: paths are written in normal form, and resolving changes
  nothing in them.
* `last_place_wins`: so the settings of a configuration are those of the last places that set them,
  and a layer that is accepted twice in a row changes nothing the second time.
-/

namespace FindingLedger

open Toml (Value Table)

/-- A place where something can be set: the table of a document, or overrides. -/
inductive Place
  | document (t : Table)
  | overrides (o : Overrides)

/-- The places of a layer, the document before the overrides. -/
def Layer.places (l : Layer) : List Place :=
  (l.payload.map Place.document).toList ++ [.overrides l.overrides]

/-- A value that sets something. -/
def Toml.Value.nonNull? : Value → Option Value
  | .null => none
  | v => some v

/-- What a document sets in a field of a section. -/
def Toml.Table.entry? (name field : String) (t : Table) : Option Value :=
  match Table.get? name t with
  | some (.table members) => (Table.get? field members).bind Value.nonNull?
  | _ => none

/-- One thing that can be set: its value in a configuration, and the value that a place sets in a
project with the given root, if it sets one. -/
structure Setting (α : Type) where
  value : Config → α
  said? : Path → Place → Option α

namespace Setting

variable {α : Type}

/-- A boolean, by its section and field in documents and its field among overrides. -/
def boolean (name field : String) (ofConfig : Config → Bool) (ofOverrides : Overrides → Value) :
    Setting Value where
  value c := .boolean (ofConfig c)
  said? _
    | .document t => Table.entry? name field t
    | .overrides o => (ofOverrides o).nonNull?

def matchFileLevel : Setting Value :=
  boolean "tracking" "match_file_level_issues" (·.settings.matchFileLevel) (·.matchFileLevel)

def inheritSeverity : Setting Value :=
  boolean "tracking" "inherit_server_severity" (·.settings.inheritSeverity) (·.inheritSeverity)

def auditEnabled : Setting Value :=
  boolean "audit" "enabled" (·.auditEnabled) (·.auditEnabled)

/-- The path that a value of a document denotes. -/
def pathOf (root : Path) : Value → Option Path
  | .text s => some (root.resolve s)
  | _ => none

/-- A relative path is taken from the project root in a document, and from the working directory
among overrides. -/
def auditPath : Setting (Option Path) where
  value c := c.explicitAuditPath
  said? root
    | .document t => (Table.entry? "audit" "path" t).map (pathOf root)
    | .overrides o => o.auditPath.map fun text => some (o.workingDir.resolve text)

/-- No document sets the data directory. -/
def dataDir : Setting Path where
  value c := c.dataDir
  said? _
    | .document _ => none
    | .overrides o => o.dataDir.map o.workingDir.resolve

/-- Nothing sets the project root. -/
def projectRoot : Setting Path where
  value c := c.projectRoot
  said? _ _ := none

/-- The value that the last of some places sets, or a default if none of them does. -/
def last (s : Setting α) (root : Path) (places : List Place) (default : α) : α :=
  ((places.filterMap (s.said? root)).getLast?).getD default

theorem last_cons (s : Setting α) (root : Path) (p : Place) (places : List Place) (default : α) :
    s.last root (p :: places) default =
      s.last root places ((s.said? root p).getD default) := by
  rw [last, last, List.filterMap_cons]
  cases s.said? root p with
  | none => rfl
  | some v => rw [List.getLast?_cons, Option.getD_some, Option.getD_some]

/-- What was set last is set again by the same places. -/
theorem last_last (s : Setting α) (root : Path) (places : List Place) (default : α) :
    s.last root places (s.last root places default) = s.last root places default := by
  rw [last, last]
  cases (places.filterMap (s.said? root)).getLast? <;> rfl

end Setting

theorem bind_eq_ok_iff {ε α β : Type} {x : Except ε α} {f : α → Except ε β} {b : β} :
    x >>= f = .ok b ↔ ∃ a, x = .ok a ∧ f a = .ok b := by
  cases x <;> simp [bind, Except.bind]

namespace Config

variable {c c' d : Config} {t : Table} {o : Overrides}

section Reading

variable {field text : String} {base p : Path} {before path : Option Path} {b b' : Bool}
  {v : Value} {written : Option String}

theorem locate_eq_ok_iff :
    locate base text = .ok p ↔ ¬ HoldsNull base text ∧ base.resolve text = p := by
  rw [locate]
  split <;> simp_all

theorem map_locate_eq_ok_iff :
    (locate base text).map some = .ok path ↔
      ¬ HoldsNull base text ∧ some (base.resolve text) = path := by
  rw [locate]
  split <;> simp_all [Except.map]

/-- A boolean that is read is the one that is written, or else the one before. -/
theorem readBool_eq_ok_iff :
    readBool field b v = .ok b' ↔ .boolean b' = v.nonNull?.getD (.boolean b) := by
  cases v <;> simp [readBool, Value.nonNull?, eq_comm]

/-- Whether a boolean can be read does not depend on the one before. -/
theorem readBool_of_ok (h : readBool field b v = .ok b') (before : Bool) :
    ∃ b'', readBool field before v = .ok b'' := by
  cases v with
  | null => exact ⟨before, rfl⟩
  | boolean b'' => exact ⟨b'', rfl⟩
  | _ => simp [readBool] at h

theorem readPath_eq_ok (h : readPath field base before v = .ok path) :
    path = (v.nonNull?.map (Setting.pathOf base)).getD before := by
  cases v with
  | null => exact (Except.ok.inj h).symm
  | text s =>
      rw [readPath] at h
      split at h
      · simp at h
      · exact (map_locate_eq_ok_iff.1 h).2.symm
  | _ => simp [readPath] at h

theorem readPath_of_ok (h : readPath field base before v = .ok path) (before' : Option Path) :
    ∃ path', readPath field base before' v = .ok path' := by
  cases v with
  | null => exact ⟨before', rfl⟩
  | text s =>
      rw [readPath] at h ⊢
      split at h
      · simp at h
      · next hblank =>
          rw [if_neg hblank]
          exact ⟨_, map_locate_eq_ok_iff.2 ⟨(map_locate_eq_ok_iff.1 h).1, rfl⟩⟩
  | _ => simp [readPath] at h

theorem readOverride_eq_ok (h : readOverride base before written = .ok path) :
    path = (written.map fun text => some (base.resolve text)).getD before := by
  cases written with
  | none => exact (Except.ok.inj h).symm
  | some text => exact (map_locate_eq_ok_iff.1 h).2.symm

theorem readOverride_of_ok (h : readOverride base before written = .ok path)
    (before' : Option Path) : ∃ path', readOverride base before' written = .ok path' := by
  cases written with
  | none => exact ⟨before', rfl⟩
  | some text => exact ⟨path, h⟩

theorem nonNull?_fieldOf {name : String} {members : Table} (h : tableOf t name = .ok members)
    (field : String) : (fieldOf members field).nonNull? = Table.entry? name field t := by
  rw [tableOf] at h
  rw [fieldOf, Table.entry?]
  generalize Table.get? name t = found at h ⊢
  match found, h with
  | none, h =>
      obtain rfl := Except.ok.inj h
      rfl
  | some (.table members), h =>
      obtain rfl := Except.ok.inj h
      cases h : Table.get? field members <;> simp [h, Value.nonNull?]

end Reading

/-- What it comes to that the table of a document is taken in, by its two sections. -/
structure TakesTable (c : Config) (t tracking audit : Table) (c' : Config) : Prop where
  trackingSection : tableOf t "tracking" = .ok tracking
  auditSection : tableOf t "audit" = .ok audit
  trackingKeys :
    checkKeys "tracking" ["match_file_level_issues", "inherit_server_severity"] tracking = .ok ()
  auditKeys : checkKeys "audit" ["enabled", "path"] audit = .ok ()
  matchFileLevel : readBool "tracking.match_file_level_issues" c.settings.matchFileLevel
    (fieldOf tracking "match_file_level_issues") = .ok c'.settings.matchFileLevel
  inheritSeverity : readBool "tracking.inherit_server_severity" c.settings.inheritSeverity
    (fieldOf tracking "inherit_server_severity") = .ok c'.settings.inheritSeverity
  auditEnabled :
    readBool "audit.enabled" c.auditEnabled (fieldOf audit "enabled") = .ok c'.auditEnabled
  auditPath : readPath "audit.path" c.projectRoot c.explicitAuditPath (fieldOf audit "path") =
    .ok c'.explicitAuditPath
  projectRoot : c'.projectRoot = c.projectRoot
  dataDir : c'.dataDir = c.dataDir

theorem takeTable_eq_ok_iff :
    c.takeTable t = .ok c' ↔ ∃ tracking audit, TakesTable c t tracking audit c' := by
  simp only [takeTable, bind_eq_ok_iff]
  constructor
  · rintro ⟨tracking, htracking, audit, haudit, ⟨⟩, hkeys, ⟨⟩, hkeys', m, hm, i, hi, e, he, p, hp,
      hc⟩
    obtain rfl := Except.ok.inj hc
    exact ⟨tracking, audit, htracking, haudit, hkeys, hkeys', hm, hi, he, hp, rfl, rfl⟩
  · rintro ⟨tracking, audit, h⟩
    refine ⟨tracking, h.trackingSection, audit, h.auditSection, (), h.trackingKeys, (), h.auditKeys,
      _, h.matchFileLevel, _, h.inheritSeverity, _, h.auditEnabled, _, h.auditPath, ?_⟩
    rw [← h.projectRoot, ← h.dataDir]
    rfl

/-- What it comes to that overrides are taken in. -/
structure TakesOverrides (c : Config) (o : Overrides) (c' : Config) : Prop where
  matchFileLevel : readBool "overrides.match_file_level_issues" c.settings.matchFileLevel
    o.matchFileLevel = .ok c'.settings.matchFileLevel
  inheritSeverity : readBool "overrides.inherit_server_severity" c.settings.inheritSeverity
    o.inheritSeverity = .ok c'.settings.inheritSeverity
  auditEnabled :
    readBool "overrides.audit_enabled" c.auditEnabled o.auditEnabled = .ok c'.auditEnabled
  auditPath : readOverride o.workingDir c.explicitAuditPath o.auditPath = .ok c'.explicitAuditPath
  dataDir : locate o.workingDir (o.dataDir.getD c.dataDir.text) = .ok c'.dataDir
  projectRoot : c'.projectRoot = c.projectRoot

theorem override_eq_ok_iff : c.override o = .ok c' ↔ TakesOverrides c o c' := by
  simp only [override, bind_eq_ok_iff]
  constructor
  · rintro ⟨m, hm, i, hi, e, he, p, hp, d, hd, hc⟩
    obtain rfl := Except.ok.inj hc
    exact ⟨hm, hi, he, hp, hd, rfl⟩
  · intro h
    refine ⟨_, h.matchFileLevel, _, h.inheritSeverity, _, h.auditEnabled, _, h.auditPath, _,
      h.dataDir, ?_⟩
    rw [← h.projectRoot]
    rfl

/-- A table that is taken in once can be taken in by any configuration of the same project. -/
theorem takeTable_of_ok (h : c.takeTable t = .ok c') (hroot : d.projectRoot = c.projectRoot) :
    ∃ d', d.takeTable t = .ok d' ∧ d'.dataDir = d.dataDir := by
  obtain ⟨tracking, audit, h⟩ := takeTable_eq_ok_iff.1 h
  obtain ⟨m, hm⟩ := readBool_of_ok h.matchFileLevel d.settings.matchFileLevel
  obtain ⟨i, hi⟩ := readBool_of_ok h.inheritSeverity d.settings.inheritSeverity
  obtain ⟨e, he⟩ := readBool_of_ok h.auditEnabled d.auditEnabled
  obtain ⟨p, hp⟩ := readPath_of_ok h.auditPath d.explicitAuditPath
  rw [← hroot] at hp
  refine ⟨⟨d.projectRoot, d.dataDir, ⟨m, i⟩, e, p⟩,
    takeTable_eq_ok_iff.2 ⟨tracking, audit, ?_⟩, rfl⟩
  exact ⟨h.trackingSection, h.auditSection, h.trackingKeys, h.auditKeys, hm, hi, he, hp, rfl, rfl⟩

/-- Overrides that are taken in once can be taken in again: without a data directory among them, the
one that was resolved is resolved again. -/
theorem override_of_ok (h : c.override o = .ok c') (hd : d.dataDir = c'.dataDir) :
    ∃ d', d.override o = .ok d' := by
  have h := override_eq_ok_iff.1 h
  obtain ⟨m, hm⟩ := readBool_of_ok h.matchFileLevel d.settings.matchFileLevel
  obtain ⟨i, hi⟩ := readBool_of_ok h.inheritSeverity d.settings.inheritSeverity
  obtain ⟨e, he⟩ := readBool_of_ok h.auditEnabled d.auditEnabled
  obtain ⟨p, hp⟩ := readOverride_of_ok h.auditPath d.explicitAuditPath
  have hdir : locate o.workingDir (o.dataDir.getD d.dataDir.text) = .ok c'.dataDir := by
    have hdir := h.dataDir
    cases ho : o.dataDir with
    | some text => rwa [ho] at hdir
    | none =>
        -- What was resolved is the text of a path, and so is resolved to this path again.
        rw [ho, Option.getD_none] at hdir
        have hsame : c.dataDir = c'.dataDir := by
          rw [← (locate_eq_ok_iff.1 hdir).2, Path.resolve_text]
        rw [hsame] at hdir
        rwa [Option.getD_none, hd]
  exact ⟨⟨d.projectRoot, c'.dataDir, ⟨m, i⟩, e, p⟩,
    override_eq_ok_iff.2 ⟨hm, hi, he, hp, hdir, rfl⟩⟩

/-- Takes in what a place sets. -/
def take (c : Config) : Place → Except ConfigError Config
  | .document t => c.takeTable t
  | .overrides o => c.override o

theorem addLayer_eq (c : Config) (l : Layer) : c.addLayer l = l.places.foldlM take c := by
  obtain ⟨_ | t, o⟩ := l
  · simp [addLayer, Layer.places, take]
  · simp [addLayer, Layer.places, take, merge]

theorem projectRoot_take {p : Place} (h : c.take p = .ok c') : c'.projectRoot = c.projectRoot := by
  cases p with
  | document t =>
      obtain ⟨_, _, h⟩ := takeTable_eq_ok_iff.1 h
      exact h.projectRoot
  | overrides o => exact (override_eq_ok_iff.1 h).projectRoot

end Config

namespace Setting

open Config

variable {α : Type} {c c' : Config} {places : List Place}

/-- A place that is accepted gives the setting the value that it sets, or else leaves it. -/
def Lawful (s : Setting α) : Prop :=
  ∀ {c c' : Config} {p : Place}, c.take p = .ok c' →
    s.value c' = (s.said? c.projectRoot p).getD (s.value c)

theorem lawful_boolean {name field field₁ field₂ : String} {ofConfig : Config → Bool}
    {ofOverrides : Overrides → Value}
    (hdocument : ∀ {c c' t}, c.takeTable t = .ok c' → ∃ members, tableOf t name = .ok members ∧
      readBool field₁ (ofConfig c) (fieldOf members field) = .ok (ofConfig c'))
    (hoverrides : ∀ {c c' o}, c.override o = .ok c' →
      readBool field₂ (ofConfig c) (ofOverrides o) = .ok (ofConfig c')) :
    (boolean name field ofConfig ofOverrides).Lawful := by
  intro c c' p h
  cases p with
  | document t =>
      obtain ⟨members, hmembers, hread⟩ := hdocument h
      show Value.boolean (ofConfig c') =
        (Table.entry? name field t).getD (.boolean (ofConfig c))
      rw [← nonNull?_fieldOf hmembers]
      exact readBool_eq_ok_iff.1 hread
  | overrides o => exact readBool_eq_ok_iff.1 (hoverrides h)

theorem lawful_matchFileLevel : matchFileLevel.Lawful :=
  lawful_boolean
    (fun h =>
      have ⟨tracking, _, h⟩ := takeTable_eq_ok_iff.1 h
      ⟨tracking, h.trackingSection, h.matchFileLevel⟩)
    fun h => (override_eq_ok_iff.1 h).matchFileLevel

theorem lawful_inheritSeverity : inheritSeverity.Lawful :=
  lawful_boolean
    (fun h =>
      have ⟨tracking, _, h⟩ := takeTable_eq_ok_iff.1 h
      ⟨tracking, h.trackingSection, h.inheritSeverity⟩)
    fun h => (override_eq_ok_iff.1 h).inheritSeverity

theorem lawful_auditEnabled : auditEnabled.Lawful :=
  lawful_boolean
    (fun h =>
      have ⟨_, audit, h⟩ := takeTable_eq_ok_iff.1 h
      ⟨audit, h.auditSection, h.auditEnabled⟩)
    fun h => (override_eq_ok_iff.1 h).auditEnabled

theorem lawful_auditPath : auditPath.Lawful := by
  intro c c' p h
  cases p with
  | document t =>
      obtain ⟨_, _, h⟩ := takeTable_eq_ok_iff.1 h
      show c'.explicitAuditPath =
        ((Table.entry? "audit" "path" t).map (pathOf c.projectRoot)).getD c.explicitAuditPath
      rw [← nonNull?_fieldOf h.auditSection]
      exact readPath_eq_ok h.auditPath
  | overrides o => exact readOverride_eq_ok (override_eq_ok_iff.1 h).auditPath

theorem lawful_dataDir : dataDir.Lawful := by
  intro c c' p h
  cases p with
  | document t =>
      obtain ⟨_, _, h⟩ := takeTable_eq_ok_iff.1 h
      exact h.dataDir
  | overrides o =>
      obtain ⟨-, hdir⟩ := locate_eq_ok_iff.1 (override_eq_ok_iff.1 h).dataDir
      show c'.dataDir = (o.dataDir.map o.workingDir.resolve).getD c.dataDir
      rw [← hdir]
      cases o.dataDir with
      | none => exact Path.resolve_text _ _
      | some text => rfl

theorem lawful_projectRoot : projectRoot.Lawful := projectRoot_take

/-- **Along accepted places a setting has the value of the last one that sets it.** -/
theorem Lawful.run {s : Setting α} (hs : s.Lawful) (h : places.foldlM take c = .ok c') :
    s.value c' = s.last c.projectRoot places (s.value c) := by
  -- The value that a place leaves is the default for the places behind it.
  induction places generalizing c with
  | nil =>
      obtain rfl := Except.ok.inj h
      rfl
  | cons p places ih =>
      rw [List.foldlM_cons, bind_eq_ok_iff] at h
      obtain ⟨c₁, hp, hplaces⟩ := h
      rw [ih hplaces, projectRoot_take hp, hs hp, last_cons]

end Setting

namespace Path

/-- The text of a path from the root whose pieces all name something. -/
def Normal (text : String) : Prop :=
  text = "/" ∨ ∃ names ≠ [], (∀ n ∈ names, IsName n) ∧ Text.pieces '/' text.toList = [] :: names

theorem normal_text (p : Path) : Normal p.text := by
  obtain ⟨_ | ⟨n, ns⟩, hnames⟩ := p
  · exact Or.inl rfl
  · refine Or.inr ⟨n :: ns, by simp, hnames, ?_⟩
    simp [text, pieces_slashed n ns hnames]

/-- A name leads to an entry of the directory. -/
theorem names_resolve {name : String} (h : IsName name.toList) (p : Path) :
    (p.resolve name).names = p.names ++ [name.toList] := by
  have hhead : name.toList.head? ≠ some '/' := fun hhead =>
    h.2.2.2 (List.mem_of_mem_head? hhead)
  rw [resolve, if_neg hhead, Text.pieces_of_not_mem '/' h.2.2.2,
    walk_names p _ (by simpa using h)]

end Path

namespace Config

variable {c c' d : Config} {l : Layer} {layers : List Layer}

theorem foldlM_addLayer (c : Config) (layers : List Layer) :
    layers.foldlM addLayer c = (layers.flatMap Layer.places).foldlM take c := by
  induction layers generalizing c with
  | nil => rfl
  | cons l layers ih =>
      rw [List.foldlM_cons, List.flatMap_cons, List.foldlM_append, addLayer_eq]
      simp only [ih]

theorem projectRoot_foldlM {places : List Place} (h : places.foldlM take c = .ok c') :
    c'.projectRoot = c.projectRoot := by
  have hnone : places.filterMap (Setting.projectRoot.said? c.projectRoot) = [] :=
    List.filterMap_eq_nil_iff.2 fun _ _ => rfl
  have hlast := Setting.lawful_projectRoot.run h
  rwa [Setting.last, hnone] at hlast

/-- A configuration is its project root and its five settings. -/
theorem ext_settings (hroot : c.projectRoot = d.projectRoot)
    (hmatch : Setting.matchFileLevel.value c = Setting.matchFileLevel.value d)
    (hinherit : Setting.inheritSeverity.value c = Setting.inheritSeverity.value d)
    (henabled : Setting.auditEnabled.value c = Setting.auditEnabled.value d)
    (hpath : Setting.auditPath.value c = Setting.auditPath.value d)
    (hdir : Setting.dataDir.value c = Setting.dataDir.value d) : c = d := by
  obtain ⟨root, dir, ⟨m, i⟩, e, p⟩ := c
  obtain ⟨root', dir', ⟨m', i'⟩, e', p'⟩ := d
  obtain rfl : root = root' := hroot
  obtain rfl := Value.boolean.inj hmatch
  obtain rfl := Value.boolean.inj hinherit
  obtain rfl := Value.boolean.inj henabled
  obtain rfl : p = p' := hpath
  obtain rfl : dir = dir' := hdir
  rfl

/-- A layer that is accepted once is accepted again. -/
theorem addLayer_of_ok (h : c.addLayer l = .ok c') : ∃ d, c'.addLayer l = .ok d := by
  obtain ⟨_ | t, o⟩ := l
  · exact override_of_ok h rfl
  · obtain ⟨c₁, htable, hoverrides⟩ := bind_eq_ok_iff.1 h
    have hroot : c'.projectRoot = c.projectRoot :=
      (override_eq_ok_iff.1 hoverrides).projectRoot.trans
        (projectRoot_take (p := .document t) htable)
    obtain ⟨d₁, hd₁, hdir⟩ := takeTable_of_ok htable hroot
    obtain ⟨d, hd⟩ := override_of_ok hoverrides hdir
    exact ⟨d, bind_eq_ok_iff.2 ⟨d₁, hd₁, hd⟩⟩

/-- **A layer that is accepted twice in a row changes nothing the second time.** -/
theorem addLayer_twice (h : c.addLayer l = .ok c') : c'.addLayer l = .ok c' := by
  obtain ⟨d, hd⟩ := addLayer_of_ok h
  have hplaces : l.places.foldlM take c = .ok c' := addLayer_eq c l ▸ h
  have hplaces' : l.places.foldlM take c' = .ok d := addLayer_eq c' l ▸ hd
  have hroot := projectRoot_foldlM hplaces
  -- The second time every setting starts from the value that the same places gave it.
  have hvalue : ∀ {α : Type} {s : Setting α}, s.Lawful → s.value d = s.value c' := by
    intro α s hs
    rw [hs.run hplaces', hs.run hplaces, hroot, Setting.last_last]
  have hsame : d = c' := ext_settings (projectRoot_foldlM hplaces')
    (hvalue Setting.lawful_matchFileLevel) (hvalue Setting.lawful_inheritSeverity)
    (hvalue Setting.lawful_auditEnabled) (hvalue Setting.lawful_auditPath)
    (hvalue Setting.lawful_dataDir)
  rw [hd, hsame]

end Config

section Theorem

open Setting

/-- **The last place that sets something wins.**  When layers are accepted one after the other, each
setting ends up with the value of the last place that sets it, the document of a layer coming before
its overrides, or with its default.  No document sets the data directory, and nothing sets the
project root.  All paths are normal, so that resolving them again changes nothing.  The audit log is
at its explicit path, or else in the data directory.  And a layer that is accepted twice in a row
changes nothing the second time. -/
theorem last_place_wins {root : Path} {layers : List Layer} {c : Config}
    (h : layers.foldlM Config.addLayer (Config.initial root) = .ok c) :
    (matchFileLevel.value c =
        matchFileLevel.last root (layers.flatMap Layer.places) (.boolean true) ∧
      inheritSeverity.value c =
        inheritSeverity.last root (layers.flatMap Layer.places) (.boolean true) ∧
      auditEnabled.value c =
        auditEnabled.last root (layers.flatMap Layer.places) (.boolean false) ∧
      auditPath.value c = auditPath.last root (layers.flatMap Layer.places) none ∧
      dataDir.value c =
        dataDir.last root (layers.flatMap Layer.places) (root.resolve dataDirName)) ∧
    (∀ t c', c.takeTable t = .ok c' → c'.dataDir = c.dataDir) ∧
    c.projectRoot = root ∧
    (∀ p ∈ [c.projectRoot, c.dataDir, c.auditPath] ++ c.explicitAuditPath.toList,
      Path.Normal p.text ∧ ∀ base, Path.resolve base p.text = p) ∧
    (∀ p, c.explicitAuditPath = some p → c.auditPath = p) ∧
    (c.explicitAuditPath = none →
      c.auditPath.names = c.dataDir.names ++ [auditFileName.toList]) ∧
    ∀ l c', c.addLayer l = .ok c' → c'.addLayer l = .ok c' := by
  rw [Config.foldlM_addLayer] at h
  have hlast : ∀ {α : Type} {s : Setting α} {default : α}, s.Lawful →
      s.value (Config.initial root) = default →
        s.value c = s.last root (layers.flatMap Layer.places) default := by
    intro α s default hs hdefault
    rw [hs.run h, hdefault]
    rfl
  refine ⟨⟨hlast lawful_matchFileLevel rfl, hlast lawful_inheritSeverity rfl,
    hlast lawful_auditEnabled rfl, hlast lawful_auditPath rfl, hlast lawful_dataDir rfl⟩, ?_,
    Config.projectRoot_foldlM h, fun p _ => ⟨p.normal_text, fun base => Path.resolve_text base p⟩,
    ?_, ?_, fun l c' => Config.addLayer_twice⟩
  · intro t c' htable
    obtain ⟨_, _, htakes⟩ := Config.takeTable_eq_ok_iff.1 htable
    exact htakes.dataDir
  · intro p hp
    rw [Config.auditPath, hp, Option.getD_some]
  · intro hnone
    rw [Config.auditPath, hnone, Option.getD_none, Path.names_resolve (by decide)]

/-- Three layers: the first sets everything, the second only has overrides, from another working
directory, and the third takes one switch back. -/
theorem last_place_wins_three_layers :
    let root := Path.root.resolve "/p/q/.."
    let layers : List Layer :=
      [⟨some [("tracking", .table [("match_file_level_issues", .boolean false)]),
          ("audit", .table [("path", .text "log/../a.jsonl"), ("enabled", .boolean true)])],
        { dataDir := some "data//./d", inheritSeverity := .boolean false }⟩,
        ⟨none, { workingDir := Path.root.resolve "w", auditPath := some "../b.jsonl" }⟩,
        ⟨some [("tracking", .table [("match_file_level_issues", .boolean true)])], {}⟩]
    ∃ c, layers.foldlM Config.addLayer (Config.initial root) = .ok c ∧
      c.settings = ⟨true, false⟩ ∧ c.auditEnabled = true ∧
      c.explicitAuditPath = some (Path.root.resolve "/b.jsonl") ∧
      c.dataDir = Path.root.resolve "/data/d" ∧ c.projectRoot.text = "/p" := by
  intro root layers
  have haccepted : (layers.foldlM Config.addLayer (Config.initial root)).isOk = true := by
    decide +kernel
  obtain ⟨c, h⟩ : ∃ c, layers.foldlM Config.addLayer (Config.initial root) = .ok c := by
    cases h : layers.foldlM Config.addLayer (Config.initial root) with
    | ok c => exact ⟨c, rfl⟩
    | error e => simp [h, Except.isOk, Except.toBool] at haccepted
  obtain ⟨⟨hmatch, hinherit, henabled, hpath, hdir⟩, -, hroot, -⟩ := last_place_wins h
  have hlastPath : auditPath.last root (layers.flatMap Layer.places) none =
      some (Path.root.resolve "/b.jsonl") := by
    decide +kernel
  have hlastDir : dataDir.last root (layers.flatMap Layer.places) (root.resolve dataDirName) =
      Path.root.resolve "/data/d" := by
    decide +kernel
  have hsettings : c.settings = ⟨true, false⟩ := by
    rw [← Value.boolean.inj hmatch, ← Value.boolean.inj hinherit]
  have hon : c.auditEnabled = true := Value.boolean.inj henabled
  have hroot : c.projectRoot.text = "/p" := by
    rw [hroot]
    decide +kernel
  exact ⟨c, h, hsettings, hon, hpath.trans hlastPath, hdir.trans hlastDir, hroot⟩

end Theorem
end FindingLedger
