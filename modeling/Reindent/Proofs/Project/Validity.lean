import Mathlib.Data.Nat.Notation
import Reindent.Project.Load
import Reindent.Proofs.Toml.Statements

/-!
# Valid settings

What a document has to say to give settings, beside the checks that read it one by one.  Every
setting follows its own field, or its default where the document does not have the field, so nothing
else in a document matters.

A document that is not valid is an error of the settings, with one exception: a version with too
many digits cannot be named in the message, and the failure to name it is what comes out.
-/

namespace Reindent
namespace Settings

/-! ## What a document says -/

/-- The value of a field in a table of the document, if it has both. -/
def given? (document : Toml.Table) (heading name : String) : Option Toml.Value :=
  match document.lookup heading with
  | some (.table fields) => fields.lookup name
  | _ => none

/-- The tables that settings stand in. -/
def headings : List String := ["format", "paths", "mcp"]

/-- What stands under a heading, if anything, is a table. -/
def HasTable (document : Toml.Table) (heading : String) : Prop :=
  ∀ v, document.lookup heading = some v → ∃ fields, v = .table fields

/-- A list of strings. -/
def stringsValue (ss : List String) : Toml.Value :=
  .array (ss.map .string)

/-- The document can be used for settings. -/
structure Valid (document : Toml.Table) : Prop where
  version : document.lookup "version" = some (.integer 1)
  tables : ∀ heading ∈ headings, HasTable document heading
  indentStyle : ∀ v, given? document "format" "indent_style" = some v →
    v = .string "tab" ∨ v = .string "space"
  indentSize : ∀ v, given? document "format" "indent_size" = some v →
    ∃ n, 1 ≤ n ∧ v = .integer n
  included : ∀ v, given? document "paths" "include" = some v →
    ∃ ss, ss ≠ [] ∧ v = stringsValue ss
  excluded : ∀ v, given? document "paths" "exclude" = some v →
    ∃ ss, v = stringsValue ss
  extensions : ∀ v, given? document "paths" "extensions" = some v →
    ∃ ss, (∀ e ∈ ss, e.toList.head? = some '.') ∧ v = stringsValue ss
  toolsEnabled : ∀ v, given? document "mcp" "enabled" = some v →
    ∃ b, v = .boolean b

section

variable {α : Type}

/-- A setting is the one that a field gives, or the default if there is no field. -/
def Follows (field : Option Toml.Value) (default : α) (valueOf : α → Toml.Value) (a : α) : Prop :=
  field = some (valueOf a) ∨ field = none ∧ a = default

/-- There is a setting of some kind exactly when the field, if given, is the value of one. -/
theorem exists_follows_iff
    {field : Option Toml.Value} {default : α} {valueOf : α → Toml.Value} (kind : α → Prop)
    (hdefault : kind default) :
    (∃ a, kind a ∧ Follows field default valueOf a) ↔
      ∀ v, field = some v → ∃ a, kind a ∧ v = valueOf a := by
  constructor
  · rintro ⟨a, ha, hgiven | ⟨hnone, -⟩⟩ v hv
    · exact ⟨a, ha, Option.some.inj (hv.symm.trans hgiven)⟩
    · cases hnone.symm.trans hv
  · intro h
    cases hfield : field with
    | none => exact ⟨default, hdefault, Or.inr ⟨rfl, rfl⟩⟩
    | some v =>
        obtain ⟨a, ha, rfl⟩ := h v hfield
        exact ⟨a, ha, Or.inl rfl⟩

end

/-- The settings of a project that chooses nothing. -/
def defaults : Settings := {}

/-- Every setting follows its field. -/
structure Gives (document : Toml.Table) (settings : Settings) : Prop where
  version : settings.version = 1
  indentStyle : Follows (given? document "format" "indent_style") defaults.indentStyle
    (fun style => .string style.name) settings.indentStyle
  indentSize : Follows (given? document "format" "indent_size") defaults.indentSize
    .integer settings.indentSize
  included : Follows (given? document "paths" "include") defaults.included
    stringsValue settings.included
  excluded : Follows (given? document "paths" "exclude") defaults.excluded
    stringsValue settings.excluded
  extensions : Follows (given? document "paths" "extensions") defaults.extensions
    stringsValue settings.extensions
  toolsEnabled : Follows (given? document "mcp" "enabled") defaults.toolsEnabled
    .boolean settings.toolsEnabled

/-- What the checks after reading ask of settings. -/
structure WellFormed (settings : Settings) : Prop where
  size_pos : 1 ≤ settings.indentSize
  included_ne_nil : settings.included ≠ []
  extensions_dot : ∀ e ∈ settings.extensions, e.toList.head? = some '.'

/-! ## Reading fields -/

theorem asInteger_eq_ok_iff {name : String} {v : Toml.Value} {n : Int} :
    asInteger name v = .ok n ↔ v = .integer n := by
  cases v <;> simp [asInteger]

theorem asString_eq_ok_iff {name : String} {v : Toml.Value} {s : String} :
    asString name v = .ok s ↔ v = .string s := by
  cases v <;> simp [asString]

theorem asBoolean_eq_ok_iff {name : String} {v : Toml.Value} {b : Bool} :
    asBoolean name v = .ok b ↔ v = .boolean b := by
  cases v <;> simp [asBoolean]

theorem strings?_eq_some_iff {items : List Toml.Value} {ss : List String} :
    strings? items = some ss ↔ items = ss.map .string := by
  induction items generalizing ss with
  | nil => cases ss <;> simp [strings?]
  | cons v items ih =>
      cases v <;> cases ss <;> simp [strings?, ih]
      exact and_comm

theorem asStrings_eq_ok_iff {name : String} {v : Toml.Value} {ss : List String} :
    asStrings name v = .ok ss ↔ v = stringsValue ss := by
  cases v with
  | array items =>
      rw [asStrings, stringsValue, Toml.Value.array.injEq, ← strings?_eq_some_iff]
      cases strings? items <;> simp
  | _ => simp [asStrings, stringsValue]

theorem fieldOr_eq_ok_iff
    {α : Type} {fields : Toml.Table} {name : String} {default a : α}
    {read : Toml.Value → Except SettingsError α} {valueOf : α → Toml.Value}
    (hread : ∀ {v a}, read v = .ok a ↔ v = valueOf a) :
    fieldOr fields name default read = .ok a ↔ Follows (fields.lookup name) default valueOf a := by
  rw [fieldOr, Follows]
  cases fields.lookup name with
  | none => simp [eq_comm]
  | some v => simp [hread]

theorem tableAt_eq_ok_iff {document fields : Toml.Table} {heading : String} :
    tableAt document heading = .ok fields ↔
      document.lookup heading = some (.table fields) ∨
        document.lookup heading = none ∧ fields = [] := by
  rw [tableAt]
  cases document.lookup heading with
  | none => simp [eq_comm]
  | some v => cases v <;> simp

theorem hasTable_iff {document : Toml.Table} {heading : String} :
    HasTable document heading ↔ ∃ fields, tableAt document heading = .ok fields := by
  simp only [HasTable, tableAt_eq_ok_iff]
  cases document.lookup heading with
  | none => simp
  | some v => simp

theorem lookup_of_tableAt
    {document fields : Toml.Table} {heading : String} (h : tableAt document heading = .ok fields)
    (name : String) :
    fields.lookup name = given? document heading name := by
  rcases tableAt_eq_ok_iff.mp h with hgiven | ⟨hnone, rfl⟩
  · rw [given?, hgiven]
  · rw [given?, hnone]
    rfl

theorem versionOf_eq_ok_iff {document : Toml.Table} {n : Int} :
    versionOf document = .ok n ↔ document.lookup "version" = some (.integer 1) ∧ n = 1 := by
  rw [versionOf]
  cases document.lookup "version" with
  | none => simp
  | some v =>
      cases v with
      | integer m =>
          by_cases hm : m = 1
          · simp [asInteger, hm, bind, Except.bind, pure, Except.pure, eq_comm]
          · simp [asInteger, hm, bind, Except.bind, throw, throwThe, MonadExceptOf.throw]
      | _ => simp [asInteger, bind, Except.bind]

theorem styleNamed?_eq_some_iff {name : String} {style : IndentStyle} :
    styleNamed? name = some style ↔ name = style.name := by
  constructor
  · intro h
    have hname : style.name = name := by simpa using List.find?_some h
    exact hname.symm
  · rintro rfl
    cases style <;> rfl

/-! ## Settings from a document -/

/-- The checks after all fields are read.  The style is still a name. -/
def checked (styleName : String) (read : Settings) : Except SettingsError Settings :=
  match styleNamed? styleName with
  | none => .error .unknownStyle
  | some indentStyle =>
    if read.indentSize < 1 then .error .sizeTooSmall
    else if read.included = [] then .error .nothingIncluded
    else if read.extensions.any fun e => e.toList.head? ≠ some '.' then .error .extensionWithoutDot
    else .ok { read with indentStyle }

theorem ofToml_eq (document : Toml.Table) :
    ofToml document = (do
      let version ← versionOf document
      let format ← tableAt document "format"
      let paths ← tableAt document "paths"
      let tools ← tableAt document "mcp"
      let styleName ← fieldOr format "indent_style" defaults.indentStyle.name
        (asString "format.indent_style")
      let indentSize ← fieldOr format "indent_size" defaults.indentSize
        (asInteger "format.indent_size")
      let included ← fieldOr paths "include" defaults.included (asStrings "paths.include")
      let excluded ← fieldOr paths "exclude" defaults.excluded (asStrings "paths.exclude")
      let extensions ← fieldOr paths "extensions" defaults.extensions
        (asStrings "paths.extensions")
      let toolsEnabled ← fieldOr tools "enabled" defaults.toolsEnabled (asBoolean "mcp.enabled")
      checked styleName { version, indentSize, included, excluded, extensions, toolsEnabled }) :=
  rfl

theorem checked_eq_ok_iff {styleName : String} {read settings : Settings} :
    checked styleName read = .ok settings ↔
      ∃ style : IndentStyle, styleName = style.name ∧ read.WellFormed ∧
        settings = { read with indentStyle := style } := by
  constructor
  · intro h
    rw [checked] at h
    split at h
    · cases h
    · next style hstyle =>
      refine ⟨style, styleNamed?_eq_some_iff.mp hstyle, ?_⟩
      split at h
      · cases h
      · next hsize =>
        split at h
        · cases h
        · next hincluded =>
          split at h
          · cases h
          · next hdots =>
            exact ⟨⟨Int.not_lt.mp hsize, hincluded, by simpa using hdots⟩, (Except.ok.inj h).symm⟩
  · rintro ⟨style, hstyle, hread, rfl⟩
    have hdots : ¬ (read.extensions.any fun e => e.toList.head? ≠ some '.') = true := by
      simpa using hread.extensions_dot
    simp only [checked, styleNamed?_eq_some_iff.mpr hstyle]
    rw [if_neg (Int.not_lt.mpr hread.size_pos), if_neg hread.included_ne_nil, if_neg hdots]

theorem fieldOr_eq_ok_iff_of_tableAt
    {α : Type} {document fields : Toml.Table} {heading name : String} {default a : α}
    {read : Toml.Value → Except SettingsError α} {valueOf : α → Toml.Value}
    (hfields : tableAt document heading = .ok fields)
    (hread : ∀ {v a}, read v = .ok a ↔ v = valueOf a) :
    fieldOr fields name default read = .ok a ↔
      Follows (given? document heading name) default valueOf a := by
  rw [fieldOr_eq_ok_iff hread, lookup_of_tableAt hfields]

/-- The name of a style follows its field exactly when the style does. -/
theorem follows_name_iff {field : Option Toml.Value} {default style : IndentStyle} :
    Follows field default.name .string style.name ↔
      Follows field default (fun style => .string style.name) style := by
  have hname : style.name = default.name ↔ style = default := by
    cases style <;> cases default <;> decide
  rw [Follows, Follows, hname]

/-- A document gives settings exactly when its version and its tables are right, the settings follow
their fields, and they pass the checks. -/
theorem ofToml_eq_ok_iff {document : Toml.Table} {settings : Settings} :
    ofToml document = .ok settings ↔
      (document.lookup "version" = some (.integer 1) ∧
        ∀ heading ∈ headings, HasTable document heading) ∧
      Gives document settings ∧ settings.WellFormed := by
  rw [ofToml_eq]
  constructor
  · intro h
    obtain ⟨version, hversion, h⟩ := exists_of_bind_eq_ok h
    obtain ⟨format, hformat, h⟩ := exists_of_bind_eq_ok h
    obtain ⟨paths, hpaths, h⟩ := exists_of_bind_eq_ok h
    obtain ⟨tools, htools, h⟩ := exists_of_bind_eq_ok h
    obtain ⟨styleName, hstyleName, h⟩ := exists_of_bind_eq_ok h
    obtain ⟨indentSize, hsize, h⟩ := exists_of_bind_eq_ok h
    obtain ⟨included, hincluded, h⟩ := exists_of_bind_eq_ok h
    obtain ⟨excluded, hexcluded, h⟩ := exists_of_bind_eq_ok h
    obtain ⟨extensions, hextensions, h⟩ := exists_of_bind_eq_ok h
    obtain ⟨toolsEnabled, htoolsEnabled, h⟩ := exists_of_bind_eq_ok h
    obtain ⟨style, rfl, hchecked, rfl⟩ := checked_eq_ok_iff.mp h
    obtain ⟨hone, rfl⟩ := versionOf_eq_ok_iff.mp hversion
    refine ⟨⟨hone, ?_⟩, ⟨rfl, ?_, ?_, ?_, ?_, ?_, ?_⟩, ⟨hchecked.1, hchecked.2, hchecked.3⟩⟩
    · intro heading hheading
      simp only [headings, List.mem_cons, List.not_mem_nil, or_false] at hheading
      rcases hheading with rfl | rfl | rfl
      · exact hasTable_iff.mpr ⟨format, hformat⟩
      · exact hasTable_iff.mpr ⟨paths, hpaths⟩
      · exact hasTable_iff.mpr ⟨tools, htools⟩
    · exact follows_name_iff.mp
        ((fieldOr_eq_ok_iff_of_tableAt hformat asString_eq_ok_iff).mp hstyleName)
    · exact (fieldOr_eq_ok_iff_of_tableAt hformat asInteger_eq_ok_iff).mp hsize
    · exact (fieldOr_eq_ok_iff_of_tableAt hpaths asStrings_eq_ok_iff).mp hincluded
    · exact (fieldOr_eq_ok_iff_of_tableAt hpaths asStrings_eq_ok_iff).mp hexcluded
    · exact (fieldOr_eq_ok_iff_of_tableAt hpaths asStrings_eq_ok_iff).mp hextensions
    · exact (fieldOr_eq_ok_iff_of_tableAt htools asBoolean_eq_ok_iff).mp htoolsEnabled
  · rintro ⟨⟨hone, htables⟩, hgives, hchecked⟩
    obtain ⟨format, hformat⟩ := hasTable_iff.mp (htables "format" (by decide))
    obtain ⟨paths, hpaths⟩ := hasTable_iff.mp (htables "paths" (by decide))
    obtain ⟨tools, htools⟩ := hasTable_iff.mp (htables "mcp" (by decide))
    refine bind_eq_ok (versionOf_eq_ok_iff.mpr ⟨hone, rfl⟩) ?_
    refine bind_eq_ok hformat (bind_eq_ok hpaths (bind_eq_ok htools ?_))
    refine bind_eq_ok ((fieldOr_eq_ok_iff_of_tableAt hformat asString_eq_ok_iff).mpr
      (follows_name_iff.mpr hgives.indentStyle)) ?_
    refine bind_eq_ok ((fieldOr_eq_ok_iff_of_tableAt hformat asInteger_eq_ok_iff).mpr
      hgives.indentSize) ?_
    refine bind_eq_ok ((fieldOr_eq_ok_iff_of_tableAt hpaths asStrings_eq_ok_iff).mpr
      hgives.included) ?_
    refine bind_eq_ok ((fieldOr_eq_ok_iff_of_tableAt hpaths asStrings_eq_ok_iff).mpr
      hgives.excluded) ?_
    refine bind_eq_ok ((fieldOr_eq_ok_iff_of_tableAt hpaths asStrings_eq_ok_iff).mpr
      hgives.extensions) ?_
    refine bind_eq_ok ((fieldOr_eq_ok_iff_of_tableAt htools asBoolean_eq_ok_iff).mpr
      hgives.toolsEnabled) ?_
    refine checked_eq_ok_iff.mpr ⟨settings.indentStyle, rfl, ⟨?_, ?_, ?_⟩, ?_⟩
    · exact hchecked.size_pos
    · exact hchecked.included_ne_nil
    · exact hchecked.extensions_dot
    · rw [← hgives.version]

theorem exists_style_iff {v : Toml.Value} :
    (∃ style : IndentStyle, True ∧ v = .string style.name) ↔
      v = .string "tab" ∨ v = .string "space" := by
  constructor
  · rintro ⟨style, -, rfl⟩
    cases style
    · exact Or.inl rfl
    · exact Or.inr rfl
  · rintro (rfl | rfl)
    · exact ⟨.tab, trivial, rfl⟩
    · exact ⟨.space, trivial, rfl⟩

/-- The defaults pass the checks. -/
theorem wellFormed_defaults : defaults.WellFormed := by
  refine ⟨by decide, by decide, ?_⟩
  simp [defaults]

/-- The valid documents are those that give settings. -/
theorem exists_ofToml_eq_ok_iff {document : Toml.Table} :
    (∃ settings, ofToml document = .ok settings) ↔ Valid document := by
  simp only [ofToml_eq_ok_iff]
  constructor
  · rintro ⟨settings, ⟨hversion, htables⟩, hgives, hchecked⟩
    refine ⟨hversion, htables, fun v hv => ?_, ?_, ?_, fun v hv => ?_, ?_, fun v hv => ?_⟩
    · exact exists_style_iff.mp
        ((exists_follows_iff (fun _ => True) trivial).mp ⟨_, trivial, hgives.indentStyle⟩ v hv)
    · exact (exists_follows_iff (1 ≤ ·) wellFormed_defaults.size_pos).mp
        ⟨_, hchecked.size_pos, hgives.indentSize⟩
    · exact (exists_follows_iff (· ≠ []) wellFormed_defaults.included_ne_nil).mp
        ⟨_, hchecked.included_ne_nil, hgives.included⟩
    · obtain ⟨ss, -, hss⟩ :=
        (exists_follows_iff (fun _ => True) trivial).mp ⟨_, trivial, hgives.excluded⟩ v hv
      exact ⟨ss, hss⟩
    · exact (exists_follows_iff _ wellFormed_defaults.extensions_dot).mp
        ⟨_, hchecked.extensions_dot, hgives.extensions⟩
    · obtain ⟨b, -, hb⟩ :=
        (exists_follows_iff (fun _ => True) trivial).mp ⟨_, trivial, hgives.toolsEnabled⟩ v hv
      exact ⟨b, hb⟩
  · intro h
    obtain ⟨indentStyle, -, hstyle⟩ :=
      (exists_follows_iff (fun _ => True) trivial).mpr fun v hv =>
        exists_style_iff.mpr (h.indentStyle v hv)
    obtain ⟨indentSize, hpos, hsize⟩ :=
      (exists_follows_iff (1 ≤ ·) wellFormed_defaults.size_pos).mpr h.indentSize
    obtain ⟨included, hne, hincluded⟩ :=
      (exists_follows_iff (· ≠ []) wellFormed_defaults.included_ne_nil).mpr h.included
    obtain ⟨excluded, -, hexcluded⟩ :=
      (exists_follows_iff (fun _ => True) trivial).mpr fun v hv =>
        (h.excluded v hv).imp fun _ hss => ⟨trivial, hss⟩
    obtain ⟨extensions, hdots, hextensions⟩ :=
      (exists_follows_iff _ wellFormed_defaults.extensions_dot).mpr h.extensions
    obtain ⟨toolsEnabled, -, htools⟩ :=
      (exists_follows_iff (fun _ => True) trivial).mpr fun v hv =>
        (h.toolsEnabled v hv).imp fun _ hb => ⟨trivial, hb⟩
    exact ⟨{ indentStyle, indentSize, included, excluded, extensions, toolsEnabled },
      ⟨h.version, h.tables⟩, ⟨rfl, hstyle, hsize, hincluded, hexcluded, hextensions, htools⟩,
      ⟨hpos, hne, hdots⟩⟩

/-! ## What else a document says -/

/-- The fields that are settings, with the tables they stand in. -/
def knownFields : List (String × String) :=
  [("format", "indent_style"), ("format", "indent_size"), ("paths", "include"),
    ("paths", "exclude"), ("paths", "extensions"), ("mcp", "enabled")]

/-- Two documents say the same wherever there is a setting. -/
structure SameSettings (document other : Toml.Table) : Prop where
  version : document.lookup "version" = other.lookup "version"
  tables : ∀ heading ∈ headings, (HasTable document heading ↔ HasTable other heading)
  fields : ∀ field ∈ knownFields,
    given? document field.1 field.2 = given? other field.1 field.2

theorem tableAt_of_not_hasTable
    {document : Toml.Table} {heading : String} (h : ¬ HasTable document heading) :
    tableAt document heading = .error (.notTable heading) := by
  cases htable : tableAt document heading with
  | ok fields => exact absurd (hasTable_iff.mpr ⟨fields, htable⟩) h
  | error cause =>
      rw [tableAt] at htable
      split at htable
      · cases htable
      · cases htable
      · exact htable.symm

/-- What follows the reading of a table depends on the fields that are looked up in it. -/
theorem tableAt_bind_congr
    {α : Type} {document other : Toml.Table} {heading : String}
    {next next' : Toml.Table → Except SettingsError α}
    (htable : HasTable document heading ↔ HasTable other heading)
    (hnext : ∀ fields fields' : Toml.Table,
      (∀ name, fields.lookup name = given? document heading name) →
      (∀ name, fields'.lookup name = given? other heading name) → next fields = next' fields') :
    tableAt document heading >>= next = tableAt other heading >>= next' := by
  by_cases h : HasTable document heading
  · obtain ⟨fields, hfields⟩ := hasTable_iff.mp h
    obtain ⟨fields', hfields'⟩ := hasTable_iff.mp (htable.mp h)
    rw [hfields, hfields']
    exact hnext fields fields' (lookup_of_tableAt hfields) (lookup_of_tableAt hfields')
  · rw [tableAt_of_not_hasTable h, tableAt_of_not_hasTable (mt htable.mpr h)]
    rfl

/-- Whatever else documents say, they give the same settings, or fail alike. -/
theorem ofToml_congr
    {document other : Toml.Table} (h : SameSettings document other) :
    ofToml document = ofToml other := by
  have hversion : versionOf document = versionOf other := by
    rw [versionOf, versionOf, h.version]
  obtain ⟨hstyle, hsize, hincluded, hexcluded, hextensions, henabled⟩ :
      given? document "format" "indent_style" = given? other "format" "indent_style" ∧
      given? document "format" "indent_size" = given? other "format" "indent_size" ∧
      given? document "paths" "include" = given? other "paths" "include" ∧
      given? document "paths" "exclude" = given? other "paths" "exclude" ∧
      given? document "paths" "extensions" = given? other "paths" "extensions" ∧
      given? document "mcp" "enabled" = given? other "mcp" "enabled" := by
    simpa [knownFields] using h.fields
  rw [ofToml_eq, ofToml_eq, hversion]
  refine bind_congr fun version => ?_
  refine tableAt_bind_congr (h.tables "format" (by decide)) fun format format' hf hf' => ?_
  refine tableAt_bind_congr (h.tables "paths" (by decide)) fun paths paths' hp hp' => ?_
  refine tableAt_bind_congr (h.tables "mcp" (by decide)) fun tools tools' ht ht' => ?_
  simp only [fieldOr, hf, hf', hp, hp', ht, ht', hstyle, hsize, hincluded, hexcluded, hextensions,
    henabled]

/-! ## Documents that are not valid -/

/-- The computation does not fail over the number of a version. -/
def SparesVersion {α : Type} (result : Except SettingsError α) : Prop :=
  ∀ n, result ≠ .error (.unsupportedVersion n)

namespace SparesVersion

variable {α β : Type}

theorem ok (a : α) : SparesVersion (.ok a) := by
  intro n h
  cases h

theorem bind
    {first : Except SettingsError α} {next : α → Except SettingsError β}
    (hfirst : SparesVersion first) (hnext : ∀ a, SparesVersion (next a)) :
    SparesVersion (first >>= next) := by
  intro n h
  rcases error_cases_of_bind h with h | ⟨a, -, h⟩
  · exact hfirst n h
  · exact hnext a n h

theorem tableAt (document : Toml.Table) (heading : String) :
    SparesVersion (tableAt document heading) := by
  by_cases h : HasTable document heading
  · obtain ⟨fields, hfields⟩ := hasTable_iff.mp h
    exact hfields ▸ ok fields
  · intro n hn
    cases (tableAt_of_not_hasTable h).symm.trans hn

theorem fieldOr
    (fields : Toml.Table) (name : String) (default : α)
    {read : Toml.Value → Except SettingsError α} (hread : ∀ v, SparesVersion (read v)) :
    SparesVersion (fieldOr fields name default read) := by
  rw [Settings.fieldOr]
  split
  · exact ok default
  · exact hread _

theorem asInteger (name : String) (v : Toml.Value) : SparesVersion (asInteger name v) := by
  cases v <;> intro n h <;> cases h

theorem asString (name : String) (v : Toml.Value) : SparesVersion (asString name v) := by
  cases v <;> intro n h <;> cases h

theorem asBoolean (name : String) (v : Toml.Value) : SparesVersion (asBoolean name v) := by
  cases v <;> intro n h <;> cases h

theorem asStrings (name : String) (v : Toml.Value) : SparesVersion (asStrings name v) := by
  intro n h
  unfold Settings.asStrings at h
  split at h
  · split at h <;> cases h
  · cases h

theorem checked (styleName : String) (read : Settings) :
    SparesVersion (checked styleName read) := by
  intro n h
  rw [Settings.checked] at h
  split at h
  · cases h
  · split at h
    · cases h
    · split at h
      · cases h
      · split at h <;> cases h

end SparesVersion

theorem lookup_of_versionOf_eq_error
    {document : Toml.Table} {n : Int} (h : versionOf document = .error (.unsupportedVersion n)) :
    document.lookup "version" = some (.integer n) := by
  rw [versionOf] at h
  cases hlookup : document.lookup "version" with
  | none => simp [hlookup] at h
  | some v =>
      cases v with
      | integer m =>
          by_cases hm : m = 1
          · simp [hlookup, asInteger, hm, bind, Except.bind, pure, Except.pure] at h
          · have hn : m = n := by
              simpa [hlookup, asInteger, hm, bind, Except.bind, throw, throwThe,
                MonadExceptOf.throw] using h
            rw [hn]
      | _ => simp [hlookup, asInteger, bind, Except.bind] at h

/-- Only the number of the version itself is complained about as one. -/
theorem lookup_of_ofToml_eq_error
    {document : Toml.Table} {n : Int} (h : ofToml document = .error (.unsupportedVersion n)) :
    document.lookup "version" = some (.integer n) := by
  rw [ofToml_eq] at h
  rcases error_cases_of_bind h with h | ⟨version, -, h⟩
  · exact lookup_of_versionOf_eq_error h
  · refine absurd h (SparesVersion.bind (.tableAt _ _) (fun format => ?_) n)
    refine .bind (.tableAt _ _) fun paths => .bind (.tableAt _ _) fun tools => ?_
    refine .bind (.fieldOr _ _ _ (.asString _)) fun styleName => ?_
    refine .bind (.fieldOr _ _ _ (.asInteger _)) fun indentSize => ?_
    refine .bind (.fieldOr _ _ _ (.asStrings _)) fun included => ?_
    refine .bind (.fieldOr _ _ _ (.asStrings _)) fun excluded => ?_
    refine .bind (.fieldOr _ _ _ (.asStrings _)) fun extensions => ?_
    exact .bind (.fieldOr _ _ _ (.asBoolean _)) fun toolsEnabled => .checked _ _

/-- The version is a number with too many digits to be shown. -/
def HasLongVersion (document : Toml.Table) : Prop :=
  ∃ n, document.lookup "version" = some (.integer n) ∧ Text.tooLongToShow n = true

theorem HasLongVersion.ofToml_mapError
    {document : Toml.Table} (h : HasLongVersion document) :
    (ofToml document).mapError faultOf = .error (.crash .numberNotShown) := by
  obtain ⟨n, hlookup, hlong⟩ := h
  have hn : n ≠ 1 := by
    rintro rfl
    exact absurd hlong (by decide +kernel)
  have hversion : versionOf document = .error (.unsupportedVersion n) := by
    simp [versionOf, hlookup, asInteger, hn, bind, Except.bind, throw, throwThe,
      MonadExceptOf.throw]
  have hof : ofToml document = .error (.unsupportedVersion n) := by
    rw [ofToml_eq, hversion]
    rfl
  have hfault : faultOf (.unsupportedVersion n) = .crash .numberNotShown := by
    rw [faultOf, if_pos hlong]
  rw [hof]
  exact congrArg Except.error hfault

theorem faultOf_of_not_hasLongVersion
    {document : Toml.Table} {cause : SettingsError} (hof : ofToml document = .error cause)
    (h : ¬ HasLongVersion document) :
    faultOf cause = .settings cause := by
  cases cause with
  | unsupportedVersion n =>
      have hshown : ¬ Text.tooLongToShow n = true := fun hlong =>
        h ⟨n, lookup_of_ofToml_eq_error hof, hlong⟩
      rw [faultOf, if_neg hshown]
  | _ => rfl

/-! ## The unit of indentation -/

/-- So many spaces can be counted in a machine word and fit into memory. -/
def Writable (memory : ℕ) (count : Int) : Prop :=
  count < Text.wordLimit ∧ count ≤ memory

/-- The unit is a tab, or as many spaces as the settings say, if so many can be written. -/
structure UnitFollows (settings : Settings) (memory : ℕ) : Prop where
  tab : settings.indentStyle = .tab → settings.unit memory = .ok ['\t']
  spaces : settings.indentStyle = .space → Writable memory settings.indentSize →
    settings.unit memory = .ok (List.replicate settings.indentSize.toNat ' ')
  tooMany : settings.indentStyle = .space → ¬ Writable memory settings.indentSize →
    ∃ cause, settings.unit memory = .error cause

theorem checkRepeat_space_of_writable
    {memory : ℕ} {count : Int} (hpos : 1 ≤ count) (h : Writable memory count) :
    Text.checkRepeat [' '] count memory = .ok () := by
  obtain ⟨hword, hfits⟩ := h
  simp only [Text.checkRepeat, List.length_singleton, Nat.mul_one, Bool.or_eq_true,
    decide_eq_true_eq]
  rw [if_neg (by omega), if_neg (by omega), if_neg (by omega)]

theorem checkRepeat_space_of_not_writable
    {memory : ℕ} {count : Int} (h : ¬ Writable memory count) :
    ∃ cause, Text.checkRepeat [' '] count memory = .error cause := by
  rw [Writable] at h
  simp only [Text.checkRepeat, List.length_singleton, Nat.mul_one, Bool.or_eq_true,
    decide_eq_true_eq]
  split
  · exact ⟨_, rfl⟩
  · split
    · exact ⟨_, rfl⟩
    · rw [if_pos (by omega)]
      exact ⟨_, rfl⟩

theorem WellFormed.unitFollows
    {settings : Settings} (h : settings.WellFormed) (memory : ℕ) :
    settings.UnitFollows memory := by
  refine ⟨fun hstyle => ?_, fun hstyle hfits => ?_, fun hstyle hbeyond => ?_⟩
  · rw [unit, hstyle]
    rfl
  · rw [unit, hstyle]
    exact bind_eq_ok (checkRepeat_space_of_writable h.size_pos hfits) rfl
  · obtain ⟨cause, hcause⟩ := checkRepeat_space_of_not_writable hbeyond
    refine ⟨cause, ?_⟩
    rw [unit, hstyle]
    simp only [Layout.checkedSpaces, hcause]
    rfl

/-! ## Settings files -/

/-- The file at a path can be read, and its text is that of the document. -/
structure HoldsDocument
    (tree : FileTree) (cwd : Location) (path : Path) (document : Toml.Table) : Prop where
  not_hasNull : path.hasNull = false
  parsed : ∃ bytes text, tree.read cwd path = .ok bytes ∧ Text.ofUtf8? bytes = some text ∧
    Toml.parse text = .ok document

theorem HoldsDocument.load_eq
    {tree : FileTree} {cwd : Location} {path : Path} {document : Toml.Table}
    (h : HoldsDocument tree cwd path document) :
    load tree cwd path = (ofToml document).mapError faultOf := by
  obtain ⟨hnull, bytes, text, hread, htext, hparse⟩ := h
  simp only [load, hnull, hread, ofBytes, htext, hparse]
  rfl

/-- A settings file is loaded exactly when its document is valid, and then every setting follows its
field and the unit of indentation follows the settings, whatever the memory.  Otherwise the error is
one of the settings, unless the version has too many digits to be shown.  Nothing else in a document
matters. -/
theorem load_iff_valid
    {tree : FileTree} {cwd : Location} {path : Path} {document : Toml.Table}
    (h : HoldsDocument tree cwd path document) :
    ((∃ settings, load tree cwd path = .ok settings) ↔ Valid document) ∧
      (∀ settings, load tree cwd path = .ok settings →
        Gives document settings ∧ 1 ≤ settings.indentSize ∧
          ∀ memory, settings.UnitFollows memory) ∧
      (¬ Valid document → ¬ HasLongVersion document →
        ∃ cause, load tree cwd path = .error (.settings cause)) ∧
      (HasLongVersion document → load tree cwd path = .error (.crash .numberNotShown)) ∧
      ∀ tree' cwd' path' other, HoldsDocument tree' cwd' path' other →
        SameSettings document other → load tree' cwd' path' = load tree cwd path := by
  have hload := h.load_eq
  have hok : ∀ {settings}, load tree cwd path = .ok settings ↔ ofToml document = .ok settings := by
    intro settings
    rw [hload]
    refine ⟨eq_ok_of_mapError, fun hof => ?_⟩
    rw [hof]
    rfl
  refine ⟨?_, fun settings hsettings => ?_, fun hinvalid hshort => ?_, fun hlong => ?_, ?_⟩
  · simp only [hok]
    exact exists_ofToml_eq_ok_iff
  · obtain ⟨-, hgives, hchecked⟩ := ofToml_eq_ok_iff.mp (hok.mp hsettings)
    exact ⟨hgives, hchecked.size_pos, hchecked.unitFollows⟩
  · cases hof : ofToml document with
    | ok settings => exact absurd (exists_ofToml_eq_ok_iff.mp ⟨settings, hof⟩) hinvalid
    | error cause =>
        refine ⟨cause, ?_⟩
        rw [hload, hof]
        exact congrArg Except.error (faultOf_of_not_hasLongVersion hof hshort)
  · rw [hload, hlong.ofToml_mapError]
  · intro tree' cwd' path' other hother hsame
    rw [hother.load_eq, hload, ofToml_congr hsame]

/-- A project whose settings file has a field that is no setting. -/
def smallProject : FileTree where
  entries := [(["w"], .directory), (["w", "fubelt.toml"],
    .file "version=1\n[format]\nindent_style='space'\nwide=true".toUTF8)]

/-- The document in it. -/
def smallDocument : Toml.Table :=
  [("version", .integer 1),
    ("format", .table [("indent_style", .string "space"), ("wide", .boolean true)])]

/-- What has been read of the small document behind its header, with the fields that stand there. -/
def inFormat (fields : Toml.Table) : Toml.Progress where
  fields := [("version", .integer 1), ("format", .table fields)]
  locks := [Toml.declaration ["format"]]
  header := ["format"]

theorem parse_smallDocument :
    Toml.parse "version=1\n[format]\nindent_style='space'\nwide=true".toList =
      .ok smallDocument := by
  have hversion :
      Toml.statement {} "version=1\n[format]\nindent_style='space'\nwide=true".toList =
        .ok ({ fields := [("version", .integer 1)] },
          "\n[format]\nindent_style='space'\nwide=true".toList) := by
    have hkey : Toml.keyAndSign "version=1\n[format]\nindent_style='space'\nwide=true".toList =
        .ok (["version"], "1\n[format]\nindent_style='space'\nwide=true".toList) := rfl
    exact Toml.statement_of_field (p := {}) (v := .integer 1) rfl hkey rfl rfl rfl rfl
  have hformat (t : Text) :
      Toml.statement { fields := [("version", .integer 1)] } ("[format]".toList ++ '\n' :: t) =
        .ok (inFormat [], '\n' :: t) := by
    have hkey : Toml.key ("format]".toList ++ '\n' :: t) = .ok (["format"], ']' :: '\n' :: t) := rfl
    exact Toml.statement_of_header (by decide) hkey rfl rfl rfl
  have hstyle (t : Text) :
      Toml.statement (inFormat []) ("indent_style='space'".toList ++ '\n' :: t) =
        .ok (inFormat [("indent_style", .string "space")], '\n' :: t) := by
    have hkey : Toml.keyAndSign ("indent_style='space'".toList ++ '\n' :: t) =
        .ok (["indent_style"], "'space'".toList ++ '\n' :: t) := rfl
    exact Toml.statement_of_field (p := inFormat []) (v := .string "space") rfl hkey rfl rfl rfl rfl
  have hwide : Toml.statement (inFormat [("indent_style", .string "space")]) "wide=true".toList =
      .ok (inFormat [("indent_style", .string "space"), ("wide", .boolean true)], []) := by
    have hkey : Toml.keyAndSign "wide=true".toList = .ok (["wide"], "true".toList) := rfl
    exact Toml.statement_of_field (p := inFormat [("indent_style", .string "space")])
      (v := .boolean true) rfl hkey rfl rfl rfl rfl
  have hread :
      Toml.statements 50 {} "version=1\n[format]\nindent_style='space'\nwide=true".toList =
        .ok (inFormat [("indent_style", .string "space"), ("wide", .boolean true)]) := by
    calc
      _ = Toml.statements 49 _ _ := Toml.statements_of_line rfl (by decide) hversion rfl rfl 49
      _ = Toml.statements 48 _ _ := Toml.statements_of_line rfl (by decide) (hformat _) rfl rfl 48
      _ = Toml.statements 47 _ _ := Toml.statements_of_line rfl (by decide) (hstyle _) rfl rfl 47
      _ = .ok _ := Toml.statements_of_line rfl (by decide) hwide rfl rfl 46
  exact Toml.parse_of_statements
    (p := inFormat [("indent_style", .string "space"), ("wide", .boolean true)]) rfl hread

theorem load_smallProject :
    HoldsDocument smallProject ["w"] (Path.ofString "fubelt.toml") smallDocument ∧
      Valid smallDocument ∧
      ∃ settings, load smallProject ["w"] (Path.ofString "fubelt.toml") = .ok settings ∧
        settings.indentStyle = .space ∧ settings.indentSize = 4 ∧
        settings.unit 4 = .ok "    ".toList := by
  have hholds : HoldsDocument smallProject ["w"] (Path.ofString "fubelt.toml") smallDocument := by
    exact ⟨by decide +kernel, _,
      "version=1\n[format]\nindent_style='space'\nwide=true".toList, rfl, by decide +kernel,
      parse_smallDocument⟩
  have hvalid : Valid smallDocument := by
    constructor <;> simp [given?, HasTable, headings, smallDocument, List.lookup_cons]
  obtain ⟨hiff, hgives, -⟩ := load_iff_valid hholds
  obtain ⟨settings, hload⟩ := hiff.mpr hvalid
  obtain ⟨hgives, -, hunit⟩ := hgives settings hload
  have hstyle : settings.indentStyle = .space := by
    have hgiven : given? smallDocument "format" "indent_style" = some (.string "space") := rfl
    have hfollows := hgives.indentStyle
    cases hcase : settings.indentStyle with
    | tab => simp [Follows, hgiven, hcase, IndentStyle.name] at hfollows
    | space => rfl
  have hsize : settings.indentSize = 4 := by
    have hgiven : given? smallDocument "format" "indent_size" = none := rfl
    have hfollows := hgives.indentSize
    simpa [Follows, hgiven, defaults] using hfollows
  refine ⟨hholds, hvalid, settings, hload, hstyle, hsize, ?_⟩
  have hwritable : Writable 4 settings.indentSize := by
    rw [hsize]
    exact ⟨by decide +kernel, by decide⟩
  rw [(hunit 4).spaces hstyle hwritable, hsize]
  rfl

/-- A version with one digit more than can be shown. -/
def longVersion : Toml.Table :=
  [("version", .integer (Int.ofNat (Nat.pow 10 Text.digitLimit)))]

theorem ofToml_longVersion :
    ¬ Valid longVersion ∧
      (ofToml longVersion).mapError faultOf = .error (.crash .numberNotShown) := by
  have hlong : HasLongVersion longVersion :=
    ⟨Int.ofNat (Nat.pow 10 Text.digitLimit), rfl, by decide +kernel⟩
  refine ⟨fun hvalid => ?_, hlong.ofToml_mapError⟩
  obtain ⟨settings, hsettings⟩ := exists_ofToml_eq_ok_iff.mpr hvalid
  have hcrash := hlong.ofToml_mapError
  rw [hsettings] at hcrash
  cases hcrash

end Settings
end Reindent
