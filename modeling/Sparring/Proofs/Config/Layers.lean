import Mathlib.Data.List.Induction
import Sparring.Proofs.Config.Readings
import Sparring.Startup

/-!
# Layers of a configuration

A configuration is found in the file that counts, if there is one, and then overridden. That fails
exactly if there is such a file and it cannot be read or is no configuration. Otherwise every value
but the table comes from the last override that names it, else from the document in the file, else
it is the stock one; the table comes from the document or is the stock one (`layers_account`).

Overrides have three ways to name nothing: a value that is not there, an empty list of arguments,
and a switch that is off. `Overrides.named` brings them to one, and with it an override is one
equation for all values (`get_override`), from which everything about several of them follows.
-/

namespace Sparring

open Toml

/-! ## Values by their names -/

/-- A value of a configuration that can be overridden. -/
inductive Setting where
  | address
  | policy
  | preload
  | program
  | args
  | weightsDir
  | cacheSize

/-- What a setting can be. -/
def Setting.Kind : Setting → Type
  | address => String
  | policy => FailurePolicy
  | preload => Bool
  | program => String
  | args => List String
  | weightsDir => Option String
  | cacheSize => UInt32

/-- What a setting is in a configuration. -/
def Config.get (c : Config) : (s : Setting) → s.Kind
  | .address => c.address
  | .policy => c.policy
  | .preload => c.preload
  | .program => c.engine.program
  | .args => c.engine.args
  | .weightsDir => c.engine.weightsDir
  | .cacheSize => c.engine.cacheSize

theorem Config.ext_get {c c' : Config} (h : ∀ s, c.get s = c'.get s) (htable : c.table = c'.table) :
    c = c' := by
  obtain ⟨address, policy, preload, ⟨program, args, weightsDir, cacheSize⟩, table⟩ := c
  obtain rfl := h .address
  obtain rfl := h .policy
  obtain rfl := h .preload
  obtain rfl := h .program
  obtain rfl := h .args
  obtain rfl := h .weightsDir
  obtain rfl := h .cacheSize
  obtain rfl := htable
  rfl

/-! ## Overrides -/

namespace Overrides

/-- What overrides say a setting is, if they name it. -/
def named (o : Overrides) : (s : Setting) → Option s.Kind
  | .address => o.address
  | .policy => if o.abortOnViolation then some .abort else Option.none
  | .preload => if o.noPreload then some false else Option.none
  | .program => o.program
  | .args => if o.args.isEmpty then Option.none else some o.args
  | .weightsDir => o.weightsDir.map some
  | .cacheSize => o.cacheSize

/-- What the last overrides that name a setting say it is. -/
def lastNamed (os : List Overrides) (s : Setting) : Option s.Kind :=
  os.reverse.findSome? fun o => o.named s

/-- Two overrides in one, the second of which wins. -/
def merge (o o' : Overrides) : Overrides where
  address := o'.address <|> o.address
  program := o'.program <|> o.program
  args := if o'.args.isEmpty then o.args else o'.args
  weightsDir := o'.weightsDir <|> o.weightsDir
  cacheSize := o'.cacheSize <|> o.cacheSize
  abortOnViolation := o.abortOnViolation || o'.abortOnViolation
  noPreload := o.noPreload || o'.noPreload

/-- Several overrides in one, of which later ones win. -/
def mergeAll (os : List Overrides) : Overrides := os.foldl merge .none

/-- Whether no setting is named by both. -/
def Disjoint (o o' : Overrides) : Prop :=
  ∀ s, o.named s = Option.none ∨ o'.named s = Option.none

variable {os : List Overrides} {o o' : Overrides}

theorem lastNamed_concat (s : Setting) :
    lastNamed (os ++ [o]) s = (o.named s).or (lastNamed os s) := by
  unfold lastNamed
  rw [List.reverse_concat, List.findSome?_cons]
  cases o.named s with
  | none => rfl
  | some x => rfl

theorem named_none (s : Setting) : Overrides.none.named s = Option.none := by
  cases s <;> rfl

theorem named_merge (s : Setting) : (o.merge o').named s = (o'.named s).or (o.named s) := by
  obtain ⟨address, program, args, weightsDir, cacheSize, abort, lazy⟩ := o
  obtain ⟨address', program', args', weightsDir', cacheSize', abort', lazy'⟩ := o'
  cases s with
  | address => cases address' <;> rfl
  | program => cases program' <;> rfl
  | cacheSize => cases cacheSize' <;> rfl
  | weightsDir => cases weightsDir' <;> rfl
  | policy => cases abort <;> cases abort' <;> rfl
  | preload => cases lazy <;> cases lazy' <;> rfl
  | args => cases args' <;> rfl

theorem named_mergeAll (s : Setting) : (mergeAll os).named s = lastNamed os s := by
  induction os using List.reverseRecOn with
  | nil => exact named_none s
  | append_singleton os o ih =>
    have hstep : mergeAll (os ++ [o]) = (mergeAll os).merge o := by
      unfold mergeAll
      rw [List.foldl_concat]
    rw [hstep, named_merge, ih, lastNamed_concat]

end Overrides

namespace Config

variable {c : Config} {os : List Overrides} {o o' : Overrides}

/-- A setting is what the overrides say, or what it was. -/
theorem get_override (s : Setting) : (c.override o).get s = (o.named s).getD (c.get s) := by
  obtain ⟨address, program, args, weightsDir, cacheSize, abort, lazy⟩ := o
  obtain ⟨_, _, preload, _, _⟩ := c
  cases s with
  | address => rfl
  | program => rfl
  | cacheSize => rfl
  | policy => cases abort <;> rfl
  | preload => cases lazy <;> cases preload <;> rfl
  | weightsDir => cases weightsDir <;> rfl
  | args => cases args <;> rfl

theorem overrideAll_concat : c.overrideAll (os ++ [o]) = (c.overrideAll os).override o :=
  List.foldl_concat _ _ _ _

theorem get_overrideAll (s : Setting) :
    (c.overrideAll os).get s = (Overrides.lastNamed os s).getD (c.get s) := by
  induction os using List.reverseRecOn with
  | nil => rfl
  | append_singleton os o ih =>
    rw [overrideAll_concat, get_override, ih, Overrides.lastNamed_concat]
    cases o.named s with
    | none => rfl
    | some x => rfl

theorem table_overrideAll : (c.overrideAll os).table = c.table := by
  induction os using List.reverseRecOn with
  | nil => rfl
  | append_singleton os o ih =>
    rw [overrideAll_concat]
    exact ih

theorem overrideAll_eq_mergeAll : c.overrideAll os = c.override (Overrides.mergeAll os) := by
  refine ext_get (fun s => ?_) table_overrideAll
  rw [get_overrideAll, get_override, Overrides.named_mergeAll]

example : Overrides.mergeAll [{ Overrides.none with args := ["--quiet"], noPreload := true },
    { Overrides.none with program := some "stockfish" }] =
    ⟨none, some "stockfish", ["--quiet"], none, none, false, true⟩ := rfl

theorem override_override : (c.override o).override o = c.override o := by
  refine ext_get (fun s => ?_) rfl
  rw [get_override, get_override]
  cases o.named s with
  | none => rfl
  | some x => rfl

theorem override_comm (h : o.Disjoint o') :
    (c.override o).override o' = (c.override o').override o := by
  refine ext_get (fun s => ?_) rfl
  rw [get_override, get_override, get_override, get_override]
  rcases h s with hnone | hnone
  · rw [hnone]
    rfl
  · rw [hnone]
    rfl

/-- No override makes a violation harmless again. -/
theorem policy_overrideAll (h : c.policy = .abort) : (c.overrideAll os).policy = .abort := by
  induction os using List.reverseRecOn with
  | nil => exact h
  | append_singleton os o ih =>
    rw [overrideAll_concat]
    show (if o.abortOnViolation then .abort else (c.overrideAll os).policy) = _
    rw [ih, ite_self]

/-- No override has engines created in advance again. -/
theorem preload_overrideAll (h : c.preload = false) : (c.overrideAll os).preload = false := by
  induction os using List.reverseRecOn with
  | nil => exact h
  | append_singleton os o ih =>
    rw [overrideAll_concat]
    show ((c.overrideAll os).preload && !o.noPreload) = false
    rw [ih, Bool.false_and]

end Config

/-! ## What a document says -/

namespace Toml.Entries

variable {β : Type} {entries : Entries} {key : String} {decode : Value → Decoded β} {default x : β}

/-- What a key stands for, if it is there. -/
def value? (entries : Entries) (key : String) (decode : Value → Decoded β) : Option β :=
  (entries.lookup key).bind fun v => (decode v).toOption

theorem Reads.eq_getD (h : entries.Reads key decode default x) :
    x = (entries.value? key decode).getD default := by
  unfold value?
  cases hlookup : entries.lookup key with
  | none => exact (reads_iff_of_none hlookup).1 h
  | some v =>
    have hv := (reads_iff_of_some hlookup).1 h
    show x = (decode v).toOption.getD default
    rw [hv]
    rfl

end Toml.Entries

namespace Config

/-- The entries of the engine, by their keys if it is a table and by their places if it is an
array. -/
def engineEntries (entries : Entries) : Entries :=
  match entries.lookup "engine" with
  | some (.table inner) => inner
  | some (.array items) => (EngineSettings.fields.map Field.key).zip items
  | _ => []

/-- What a document says a setting is, if it says so. -/
def written (entries : Entries) : (s : Setting) → Option s.Kind
  | .address => entries.value? "bind" Value.decodeString
  | .policy => entries.value? "failure_policy" FailurePolicy.decode
  | .preload => entries.value? "preload" Value.decodeBool
  | .program => (engineEntries entries).value? "program" Value.decodeString
  | .args => (engineEntries entries).value? "args" (Value.decodeList Value.decodeString)
  | .weightsDir => (engineEntries entries).value? "weights_dir" fun v => some <$> v.decodeString
  | .cacheSize => (engineEntries entries).value? "cache_size" Value.decodeUInt32

variable {entries : Entries} {c : Config}

theorem ReadFrom.engineSettings (hproper : entries.Proper) (h : ReadFrom entries c) :
    EngineSettings.ReadFrom (engineEntries entries) c.engine := by
  -- An engine that is not there has no entries, and neither has a date in its place.
  have hempty : ∀ {s}, EngineSettings.decode (.table []) = .ok s → EngineSettings.ReadFrom [] s :=
    (EngineSettings.decode_table_eq_ok Entries.proper_nil.keys).1
  have hread := h.engine
  unfold engineEntries
  cases hlookup : entries.lookup "engine" with
  | none =>
    rw [(Entries.reads_iff_of_none hlookup).1 hread]
    exact hempty rfl
  | some v =>
    have hv : EngineSettings.decode v = .ok c.engine :=
      (Entries.reads_iff_of_some hlookup).1 hread
    have hvalue : v.Proper := hproper.values _ (mem_of_lookup_eq_some hlookup)
    cases v with
    | table inner =>
      exact (EngineSettings.decode_table_eq_ok (Entries.proper_of_table hvalue).keys).1 hv
    | array items =>
      rw [EngineSettings.decode_array] at hv
      exact (EngineSettings.decode_table_eq_ok
        (List.Nodup.sublist zip_keys_sublist (by decide))).1 hv
    | datetime => exact hempty hv
    | str | int | float | bool => cases hv

theorem ReadFrom.get_eq (hproper : entries.Proper) (h : ReadFrom entries c) (s : Setting) :
    c.get s = (written entries s).getD (stock.get s) := by
  have hengine := h.engineSettings hproper
  cases s with
  | address => exact h.address.eq_getD
  | policy => exact h.policy.eq_getD
  | preload => exact h.preload.eq_getD
  | program => exact hengine.program.eq_getD
  | args => exact hengine.args.eq_getD
  | weightsDir => exact hengine.weightsDir.eq_getD
  | cacheSize => exact hengine.cacheSize.eq_getD

end Config

/-! ## The file that counts -/

namespace Config

variable {files : Files} {named usual : Option String} {path : String}

/-- Whether a file counts: it is named, or none is named and it is the usual one and is there. -/
def Counts (files : Files) (named usual : Option String) (path : String) : Prop :=
  named = some path ∨ named = none ∧ usual = some path ∧ files.has path = true

theorem choose_eq_some_iff :
    choose files named usual = some path ↔ Counts files named usual path := by
  unfold choose Counts
  cases named with
  | some named => simp
  | none => simp [Option.filter_eq_some_iff]

/-- Whether a file holds no configuration: it cannot be read, or its text is none. -/
def Unusable (files : Files) (path : String) : Prop :=
  (∃ fault, files.readText path = .error fault) ∨
    ∃ text e, files.readText path = .ok text ∧ read text = .error e

/-- Whether a document counts: that of the file that counts, or an empty one if there is none. -/
def Speaks (files : Files) (named usual : Option String) (entries : Entries) : Prop :=
  (∃ path text, Counts files named usual path ∧ files.readText path = .ok text ∧
    Document.read? text = some entries) ∨
  (∀ path, ¬Counts files named usual path) ∧ entries = []

/-- The configuration that is found and overridden. -/
def layered (files : Files) (named usual : Option String) (os : List Overrides) :
    Except ConfigError Config :=
  (discover files named usual).map (·.overrideAll os)

/-- The program has the overrides of its command line as the only ones. -/
theorem configure_eq_layered (files : Files) (home : Option String) (c : CommandLine) :
    Startup.configure files home c =
      layered files c.config (home.map Startup.usualConfig) [c.overrides] := rfl

theorem load_eq_ok {c : Config} : load files path = .ok c ↔
    ∃ text, files.readText path = .ok text ∧ read text = .ok c := by
  unfold load
  cases files.readText path with
  | error fault => simp
  | ok text => cases h : read text <;> simp [h]

theorem load_eq_error : (∃ e, load files path = .error e) ↔ Unusable files path := by
  unfold load Unusable
  cases files.readText path with
  | error fault => simp
  | ok text => cases h : read text <;> simp [h]

theorem read_eq_ok {text : String} {c : Config} :
    read text = .ok c ↔ ∃ entries, Document.read? text = some entries ∧ ReadFrom entries c := by
  unfold read
  cases h : Document.read? text with
  | none => simp
  | some entries => simp [decode_eq_ok (Document.proper_of_read? h).keys]

theorem discover_eq_error : (∃ e, discover files named usual = .error e) ↔
    ∃ path, Counts files named usual path ∧ Unusable files path := by
  unfold discover
  cases h : choose files named usual with
  | none =>
    have hnot : ∀ path, ¬Counts files named usual path := by
      intro path hpath
      rw [← choose_eq_some_iff, h] at hpath
      cases hpath
    simp [hnot]
  | some path =>
    have hpath : ∀ path', Counts files named usual path' ↔ path' = path := by
      intro path'
      rw [← choose_eq_some_iff, h, Option.some.injEq, eq_comm]
    simp [hpath, load_eq_error]

theorem exists_readFrom {c : Config} (hc : discover files named usual = .ok c) :
    ∃ entries, Speaks files named usual entries ∧ entries.Proper ∧ ReadFrom entries c := by
  unfold discover at hc
  cases h : choose files named usual with
  | none =>
    rw [h] at hc
    cases hc
    refine ⟨[], Or.inr ⟨fun path hpath => ?_, rfl⟩, Entries.proper_nil, ?_⟩
    · rw [← choose_eq_some_iff, h] at hpath
      cases hpath
    · exact (decode_eq_ok Entries.proper_nil.keys).1 rfl
  | some path =>
    rw [h] at hc
    obtain ⟨text, htext, hread⟩ := load_eq_ok.1 hc
    obtain ⟨entries, hentries, hreadFrom⟩ := read_eq_ok.1 hread
    exact ⟨entries, Or.inl ⟨path, text, choose_eq_some_iff.1 h, htext, hentries⟩,
      Document.proper_of_read? hentries, hreadFrom⟩

/-! ## The account -/

/-- How a configuration comes of a file system and overrides. -/
structure LayersAccount (files : Files) (named usual : Option String) (os : List Overrides) :
    Prop where
  /-- It fails exactly if there is a file that counts and holds no configuration. -/
  fails : (∃ e, layered files named usual os = .error e) ↔
    ∃ path, Counts files named usual path ∧ Unusable files path
  /-- The last override that names a setting wins over the document, and this over the stock. -/
  holds : ∀ c, layered files named usual os = .ok c → ∃ entries,
    Speaks files named usual entries ∧
    (∀ s, c.get s = ((Overrides.lastNamed os s).or (written entries s)).getD (stock.get s)) ∧
    c.table = (entries.value? "buckets" Table.decode).getD stock.table
  /-- The two switches go in one direction only. -/
  switches : ∀ c : Config, (c.policy = .abort → (c.overrideAll os).policy = .abort) ∧
    (c.preload = false → (c.overrideAll os).preload = false)
  /-- Several overrides are as good as one. -/
  merged : ∀ c : Config, c.overrideAll os = c.override (Overrides.mergeAll os)
  /-- The same override does nothing the second time. -/
  repeated : ∀ (c : Config) o, (c.override o).override o = c.override o
  /-- Overrides that name no setting in common may change places. -/
  apart : ∀ (c : Config) o o', Overrides.Disjoint o o' →
    (c.override o).override o' = (c.override o').override o

/-- A configuration is made of the stock one, the document that counts and the overrides, of which
later ones win. -/
theorem layers_account (files : Files) (named usual : Option String) (os : List Overrides) :
    LayersAccount files named usual os := by
  refine ⟨?_, fun c hc => ?_, fun c => ⟨policy_overrideAll, preload_overrideAll⟩,
    fun c => overrideAll_eq_mergeAll, fun c o => override_override, fun c o o' => override_comm⟩
  · rw [← discover_eq_error]
    unfold layered
    cases discover files named usual with
    | error e => simp [Except.map]
    | ok c => simp [Except.map]
  · unfold layered at hc
    cases hfound : discover files named usual with
    | error e =>
      rw [hfound] at hc
      cases hc
    | ok found =>
      rw [hfound] at hc
      cases hc
      obtain ⟨entries, hspeaks, hproper, hread⟩ := exists_readFrom hfound
      refine ⟨entries, hspeaks, fun s => ?_, ?_⟩
      · show (found.overrideAll os).get s = _
        rw [get_overrideAll, hread.get_eq hproper]
        cases Overrides.lastNamed os s with
        | none => rfl
        | some x => rfl
      · show (found.overrideAll os).table = _
        rw [table_overrideAll]
        exact hread.table.eq_getD

end Config

end Sparring
