import Mathlib.Data.List.Forall2
import Sparring.Proofs.Config.Records
import Sparring.Proofs.Difficulty.Refusals

/-!
# Readings of a configuration

What a document has to say for a configuration to come of it, level by level: the document as a
whole (`Config.decode_eq_ok`), the settings of engines (`EngineSettings.decode_table_eq_ok`), the
array of buckets (`Table.decode_eq_ok`) and a bucket (`Bucket.decode_table_eq_ok`). On each level
one line for each field says which key it comes from and what it is where the key is not there.
-/

namespace Sparring

open Toml

/-! ## Results -/

namespace Decoded

variable {α β : Type} {x : Decoded α} {b : β}

theorem bind_eq_ok {f : α → Decoded β} : x >>= f = .ok b ↔ ∃ a, x = .ok a ∧ f a = .ok b := by
  cases x with
  | error e =>
    constructor
    · intro h
      cases h
    · rintro ⟨a, ha, -⟩
      cases ha
  | ok a =>
    constructor
    · intro h
      exact ⟨a, rfl, h⟩
    · rintro ⟨a', ha, h⟩
      cases ha
      exact h

theorem map_eq_ok {f : α → β} : f <$> x = .ok b ↔ ∃ a, x = .ok a ∧ f a = b := by
  cases x with
  | error e =>
    constructor
    · intro h
      cases h
    · rintro ⟨a, ha, -⟩
      cases ha
  | ok a =>
    constructor
    · intro h
      cases h
      exact ⟨a, rfl, rfl⟩
    · rintro ⟨a', ha, rfl⟩
      cases ha
      rfl

/-- Values are read one by one. -/
theorem mapM_eq_ok {decode : Value → Decoded β} {items : List Value} {bs : List β} :
    items.mapM decode = .ok bs ↔ List.Forall₂ (fun v b => decode v = .ok b) items bs := by
  induction items generalizing bs with
  | nil =>
    rw [List.mapM_nil, List.forall₂_nil_left_iff]
    constructor
    · intro h
      cases h
      rfl
    · rintro rfl
      rfl
  | cons v items ih =>
    rw [List.mapM_cons, bind_eq_ok, List.forall₂_cons_left_iff]
    constructor
    · rintro ⟨b, hb, h⟩
      obtain ⟨rest, hrest, heq⟩ := bind_eq_ok.1 h
      cases heq
      exact ⟨b, rest, hb, ih.1 hrest, rfl⟩
    · rintro ⟨b, rest, hb, hrest, rfl⟩
      exact ⟨b, hb, bind_eq_ok.2 ⟨rest, ih.2 hrest, rfl⟩⟩

end Decoded

namespace Toml.Entries

variable {β : Type} {entries : Entries} {key : String} {decode : Value → Decoded β}

/-- Whether a field holds what its key stands for, which has to be there. -/
def Needs (entries : Entries) (key : String) (decode : Value → Decoded β) (x : β) : Prop :=
  ∃ v, entries.lookup key = some v ∧ decode v = .ok x

theorem reads_some_iff {x : β} :
    entries.Reads key (fun v => some <$> decode v) none (some x) ↔ entries.Needs key decode x := by
  unfold Needs
  cases h : entries.lookup key with
  | none =>
    rw [reads_iff_of_none h]
    simp
  | some v =>
    rw [reads_iff_of_some h, Decoded.map_eq_ok]
    simp

end Toml.Entries

/-! ## The engine -/

/-- Whether a table says that engines have these settings. -/
structure EngineSettings.ReadFrom (entries : Entries) (s : EngineSettings) : Prop where
  program : entries.Reads "program" Value.decodeString stock.program s.program
  args : entries.Reads "args" (Value.decodeList Value.decodeString) stock.args s.args
  weightsDir : entries.Reads "weights_dir" (fun v => some <$> v.decodeString) stock.weightsDir
    s.weightsDir
  cacheSize : entries.Reads "cache_size" Value.decodeUInt32 stock.cacheSize s.cacheSize

theorem EngineSettings.decode_table (entries : Entries) :
    decode (.table entries) = Field.takeEntries layout.fields stock entries := by
  rw [layout_fields]
  rfl

theorem EngineSettings.decode_table_eq_ok {entries : Entries}
    (hkeys : (entries.map Prod.fst).Nodup) {s : EngineSettings} :
    decode (.table entries) = .ok s ↔ ReadFrom entries s := by
  rw [decode_table, Layout.takeEntries_eq_ok hkeys]
  constructor
  · intro h
    exact ⟨h .program, h .args, h .weightsDir, h .cacheSize⟩
  · intro h p
    cases p with
    | program => exact h.program
    | args => exact h.args
    | weightsDir => exact h.weightsDir
    | cacheSize => exact h.cacheSize

/-- An array of settings counts as a table with the keys of the first fields. -/
theorem EngineSettings.decode_array (items : List Value) :
    decode (.array items) = decode (.table ((fields.map Field.key).zip items)) := by
  have hkeys : layout.keys = fields.map Field.key := rfl
  rw [decode_table, ← hkeys, ← Layout.takeItems_eq_takeEntries, layout_fields]
  rfl

example : EngineSettings.decode (.array [.str "stockfish", .array [.str "--quiet"]]) =
    .ok ⟨"stockfish", ["--quiet"], none, 20000⟩ := rfl

/-! ## Buckets -/

/-- Whether a table says that a bucket is this one. -/
structure Bucket.ReadFrom (entries : Entries) (b : Bucket) : Prop where
  threshold : entries.Needs "max_difficulty" (Value.decodeBinary .double) b.threshold
  timeBudget : entries.Needs "time_budget_ms" Value.decodeUInt64 b.profile.timeBudget
  nodeBudget : entries.Reads "node_budget" Value.decodeUInt64 0 b.profile.nodeBudget
  depthBudget : entries.Reads "depth_budget" Value.decodeUInt32 0 b.profile.depthBudget
  temperature : entries.Needs "temperature" (Value.decodeBinary .single) b.profile.temperature
  model : entries.Needs "model_id" Value.decodeString b.profile.model

/-- A profile of which everything is known. -/
def ProfileDraft.full (p : Profile) : ProfileDraft :=
  ⟨some p.timeBudget, p.nodeBudget, p.depthBudget, some p.temperature, some p.model⟩

theorem ProfileDraft.finish_eq_ok {d : ProfileDraft} {p : Profile} :
    d.finish = .ok p ↔ d = full p := by
  constructor
  · intro h
    obtain ⟨time, nodes, depth, temperature, model⟩ := d
    cases time with
    | none => cases h
    | some time =>
      cases temperature with
      | none => cases h
      | some temperature =>
        cases model with
        | none => cases h
        | some model =>
          cases h
          rfl
  · rintro rfl
    rfl

theorem Bucket.decodeThreshold_eq_ok {entries : Entries} {x : Double} :
    decodeThreshold entries = .ok x ↔
      entries.Needs "max_difficulty" (Value.decodeBinary .double) x := by
  unfold decodeThreshold Entries.Needs
  cases h : entries.lookup "max_difficulty" with
  | none => simp
  | some v => simp

theorem Bucket.decode_table_eq_ok {entries : Entries} (hkeys : (entries.map Prod.fst).Nodup)
    {b : Bucket} : decode (.table entries) = .ok b ↔ ReadFrom entries b := by
  have hprofile : Field.takeEntries ProfileDraft.fields .blank entries =
      .ok (ProfileDraft.full b.profile) ↔ ∀ p, entries.Reads (ProfileDraft.layout.key p)
        (ProfileDraft.layout.decode p) (ProfileDraft.layout.get p .blank)
        (ProfileDraft.layout.get p (ProfileDraft.full b.profile)) := by
    rw [← ProfileDraft.layout_fields]
    exact Layout.takeEntries_eq_ok hkeys
  show (do
    let threshold ← decodeThreshold entries
    let profile ← Field.takeEntries ProfileDraft.fields .blank entries
    return (⟨threshold, ← profile.finish⟩ : Bucket)) = .ok b ↔ _
  constructor
  · intro h
    obtain ⟨threshold, hthreshold, h⟩ := Decoded.bind_eq_ok.1 h
    obtain ⟨draft, hdraft, h⟩ := Decoded.bind_eq_ok.1 h
    obtain ⟨profile, hfinish, h⟩ := Decoded.bind_eq_ok.1 h
    cases h
    rw [ProfileDraft.finish_eq_ok.1 hfinish] at hdraft
    have hreads := hprofile.1 hdraft
    exact ⟨decodeThreshold_eq_ok.1 hthreshold, Entries.reads_some_iff.1 (hreads .timeBudget),
      hreads .nodeBudget, hreads .depthBudget, Entries.reads_some_iff.1 (hreads .temperature),
      Entries.reads_some_iff.1 (hreads .model)⟩
  · intro h
    refine Decoded.bind_eq_ok.2 ⟨b.threshold, decodeThreshold_eq_ok.2 h.threshold, ?_⟩
    refine Decoded.bind_eq_ok.2 ⟨.full b.profile, hprofile.2 fun p => ?_, rfl⟩
    cases p with
    | timeBudget => exact Entries.reads_some_iff.2 h.timeBudget
    | nodeBudget => exact h.nodeBudget
    | depthBudget => exact h.depthBudget
    | temperature => exact Entries.reads_some_iff.2 h.temperature
    | model => exact Entries.reads_some_iff.2 h.model

/-- The rows of a table stand in an array, and pass all checks of a table. -/
theorem Table.decode_eq_ok {v : Value} {t : Table} :
    decode v = .ok t ↔
      ∃ items, v = .array items ∧
        List.Forall₂ (fun item row => Bucket.decode item = .ok row) items t.rows := by
  constructor
  · intro h
    obtain ⟨rows, hitems, h⟩ := Decoded.bind_eq_ok.1 h
    cases hrows : ofRows rows with
    | error e =>
      rw [hrows] at h
      cases h
    | ok table =>
      rw [hrows] at h
      cases h
      obtain rfl := ofRows_eq_ok.1 hrows
      cases v with
      | array items => exact ⟨items, rfl, Decoded.mapM_eq_ok.1 hitems⟩
      | str | int | float | bool | datetime | table => cases hitems
  · rintro ⟨items, rfl, hitems⟩
    refine Decoded.bind_eq_ok.2 ⟨t.rows, Decoded.mapM_eq_ok.2 hitems, ?_⟩
    rw [ofRows_eq_ok.2 rfl]
    rfl

/-! ## The whole document -/

/-- Whether a document says that the configuration is this one. -/
structure Config.ReadFrom (entries : Entries) (c : Config) : Prop where
  address : entries.Reads "bind" Value.decodeString stock.address c.address
  policy : entries.Reads "failure_policy" FailurePolicy.decode stock.policy c.policy
  preload : entries.Reads "preload" Value.decodeBool stock.preload c.preload
  engine : entries.Reads "engine" EngineSettings.decode stock.engine c.engine
  table : entries.Reads "buckets" Table.decode stock.table c.table

theorem Config.decode_eq_ok {entries : Entries} (hkeys : (entries.map Prod.fst).Nodup)
    {c : Config} : decode entries = .ok c ↔ ReadFrom entries c := by
  show Field.takeEntries layout.fields stock entries = .ok c ↔ _
  rw [Layout.takeEntries_eq_ok hkeys]
  constructor
  · intro h
    exact ⟨h .address, h .policy, h .preload, h .engine, h .table⟩
  · intro h p
    cases p with
    | address => exact h.address
    | policy => exact h.policy
    | preload => exact h.preload
    | engine => exact h.engine
    | table => exact h.table

end Sparring
