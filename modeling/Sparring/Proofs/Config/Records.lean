import Mathlib.Data.List.Nodup
import Sparring.Config.Decoding
import Sparring.Proofs.Toml.Keys

/-!
# Records

A record is read entry by entry, but for each of its fields only what stands behind the field's own
key counts (`takeEntries_eq_ok`). So the order of the entries does not matter, nor do the fields
that are not there, and an entry that no field has the key of may as well be left out
(`takeEntries_of_unknown`). An array stands for the table that has its values behind the keys of the
first fields (`takeItems_eq_takeEntries`).

All of this holds of any record with a `Layout`, which says what a field holds and that writing one
field leaves the others alone. There are three: engine settings, profiles and configurations.
-/

namespace Sparring

open Toml

/-! ## Readings of a key -/

namespace Toml.Entries

variable {β : Type}

/-- Whether a field holds what the entries have it hold: what its key stands for, or its default
if the key is not there. -/
def Reads (entries : Entries) (key : String) (decode : Value → Decoded β) (default x : β) : Prop :=
  match entries.lookup key with
  | none => x = default
  | some v => decode v = .ok x

variable {entries entries' : Entries} {key : String} {decode : Value → Decoded β} {default x : β}

theorem reads_iff_of_none (h : entries.lookup key = none) :
    entries.Reads key decode default x ↔ x = default := by
  unfold Reads
  rw [h]

theorem reads_iff_of_some {v : Value} (h : entries.lookup key = some v) :
    entries.Reads key decode default x ↔ decode v = .ok x := by
  unfold Reads
  rw [h]

theorem reads_congr (h : entries.lookup key = entries'.lookup key) :
    entries.Reads key decode default x ↔ entries'.Reads key decode default x := by
  unfold Reads
  rw [h]

theorem lookup_eq_none_of_not_mem (h : key ∉ entries.map Prod.fst) : entries.lookup key = none := by
  rw [List.lookup_eq_none_iff]
  intro e he
  have hne : key ≠ e.1 := by
    rintro rfl
    exact h (List.mem_map_of_mem he)
  simpa using hne

/-- What a key stands for does not depend on the order. -/
theorem lookup_eq_of_perm (hkeys : (entries.map Prod.fst).Nodup) (h : entries.Perm entries')
    (key : String) : entries.lookup key = entries'.lookup key := by
  have hkeys' : (entries'.map Prod.fst).Nodup := (h.map Prod.fst).nodup hkeys
  refine Option.ext fun v => ?_
  rw [lookup_eq_some_iff_mem hkeys, lookup_eq_some_iff_mem hkeys', h.mem_iff]

end Toml.Entries

/-! ## Records -/

/-- How a record is laid out that is read field by field. -/
structure Layout (α : Type) where
  /-- The fields. -/
  Part : Type
  /-- What a field holds. -/
  Slot : Part → Type
  key : Part → String
  decode : (p : Part) → Value → Decoded (Slot p)
  get : (p : Part) → α → Slot p
  put : (p : Part) → Slot p → α → α
  /-- All fields in the order that an array has them. -/
  order : List Part
  mem_order : ∀ p, p ∈ order
  key_injective : Function.Injective key
  get_put : ∀ p x a, get p (put p x a) = x
  get_put_of_ne : ∀ p q x a, q ≠ p → get q (put p x a) = get q a
  ext : ∀ a b, (∀ p, get p a = get p b) → a = b

namespace Layout

variable {α : Type} (l : Layout α)

/-- The field of a part. -/
def field (p : l.Part) : Field α := .of (l.key p) (l.decode p) (l.put p)

/-- The fields of a record. -/
def fields : List (Field α) := l.order.map l.field

/-- The keys of the fields in order. -/
def keys : List String := l.order.map l.key

/-- Whether no field has a key. -/
def Unknown (key : String) : Prop := ∀ p, l.key p ≠ key

variable {l}

theorem unknown_of_not_mem {key : String} (h : key ∉ l.keys) : l.Unknown key := by
  rintro p rfl
  exact h (List.mem_map_of_mem (l.mem_order p))

theorem find?_fields_of_key (p : l.Part) :
    l.fields.find? (fun f => f.key = l.key p) = some (l.field p) := by
  have hfind : l.order.find? (fun q => l.key q = l.key p) = some p := by
    cases h : l.order.find? (fun q => l.key q = l.key p) with
    | none =>
      have hnot := List.find?_eq_none.1 h p (l.mem_order p)
      simp at hnot
    | some q =>
      have hkey : l.key q = l.key p := by simpa using List.find?_some h
      rw [l.key_injective hkey]
  unfold fields
  rw [List.find?_map]
  exact congrArg (Option.map l.field) hfind

theorem find?_fields_of_unknown {key : String} (h : l.Unknown key) :
    l.fields.find? (fun f => f.key = key) = none := by
  rw [List.find?_eq_none]
  intro f hf
  obtain ⟨p, -, rfl⟩ := List.mem_map.1 hf
  have hne : (l.field p).key ≠ key := h p
  simpa using hne

/-- An entry with the key of a field sets this field. -/
theorem takeEntry_of_key (p : l.Part) (a : α) (v : Value) :
    Field.takeEntry l.fields a (l.key p, v) = (fun x => l.put p x a) <$> l.decode p v := by
  unfold Field.takeEntry
  rw [find?_fields_of_key]
  show (do return l.put p (← l.decode p v) a) = _
  cases l.decode p v with
  | error e => rfl
  | ok x => rfl

theorem takeEntry_of_unknown {key : String} (h : l.Unknown key) (a : α) (v : Value) :
    Field.takeEntry l.fields a (key, v) = .ok a := by
  unfold Field.takeEntry
  rw [find?_fields_of_unknown h]

theorem takeEntry_congr {p : l.Part} {v v' : Value} (h : l.decode p v = l.decode p v') (a : α) :
    Field.takeEntry l.fields a (l.key p, v) = Field.takeEntry l.fields a (l.key p, v') := by
  rw [takeEntry_of_key, takeEntry_of_key, h]

/-! ## What comes of the entries of a table -/

theorem takeEntries_cons (fields : List (Field α)) (a : α) (e : String × Value)
    (entries : Entries) : Field.takeEntries fields a (e :: entries) =
      Field.takeEntry fields a e >>= fun a' => Field.takeEntries fields a' entries :=
  List.foldlM_cons

theorem takeEntries_append (fields : List (Field α)) (a : α) (before after : Entries) :
    Field.takeEntries fields a (before ++ after) =
      Field.takeEntries fields a before >>= fun a' => Field.takeEntries fields a' after :=
  List.foldlM_append

/-- What comes of the entries if one is exchanged for another that does the same. -/
theorem takeEntries_congr {fields : List (Field α)} {e e' : String × Value}
    (h : ∀ a, Field.takeEntry fields a e = Field.takeEntry fields a e') (a : α)
    (before after : Entries) : Field.takeEntries fields a (before ++ e :: after) =
      Field.takeEntries fields a (before ++ e' :: after) := by
  simp only [takeEntries_append, takeEntries_cons, h]

/-- An entry that no field has the key of may be left out. -/
theorem takeEntries_of_unknown {key : String} (h : l.Unknown key) (v : Value) (a : α)
    (before after : Entries) : Field.takeEntries l.fields a (before ++ (key, v) :: after) =
      Field.takeEntries l.fields a (before ++ after) := by
  rw [takeEntries_append, takeEntries_append]
  congr 1
  funext a'
  rw [takeEntries_cons, takeEntry_of_unknown h]
  rfl

/-- A record holds in each field what the entries have it hold, and is refused if one of them
cannot be read. -/
theorem takeEntries_eq_ok {entries : Entries} (hkeys : (entries.map Prod.fst).Nodup) {a b : α} :
    Field.takeEntries l.fields a entries = .ok b ↔
      ∀ p, entries.Reads (l.key p) (l.decode p) (l.get p a) (l.get p b) := by
  induction entries generalizing a with
  | nil =>
    constructor
    · intro h p
      cases h
      rfl
    · intro h
      rw [l.ext b a h]
      rfl
  | cons e rest ih =>
    obtain ⟨key, v⟩ := e
    obtain ⟨hnot, hrest⟩ := List.nodup_cons.1 hkeys
    have hother : ∀ {k : String}, k ≠ key → List.lookup k ((key, v) :: rest) = rest.lookup k := by
      intro k hk
      rw [List.lookup_cons, beq_false_of_ne hk]
    rw [takeEntries_cons]
    by_cases hknown : l.Unknown key
    · rw [takeEntry_of_unknown hknown]
      refine (ih hrest).trans (forall_congr' fun p => Entries.reads_congr ?_)
      exact (hother (hknown p)).symm
    · -- The entry decides about its own field, and the rest about all others.
      obtain ⟨p, hp⟩ := not_forall.1 hknown
      obtain rfl := not_not.1 hp
      have hhere : List.lookup (l.key p) ((l.key p, v) :: rest) = some v := List.lookup_cons_self
      rw [takeEntry_of_key]
      cases hv : l.decode p v with
      | error e =>
        constructor
        · intro h
          cases h
        · intro h
          have hp := (Entries.reads_iff_of_some hhere).1 (h p)
          rw [hv] at hp
          cases hp
      | ok x =>
        refine (ih hrest).trans (forall_congr' fun q => ?_)
        by_cases hq : q = p
        · -- The key does not come again, so its field keeps what it was set to.
          subst hq
          rw [Entries.reads_iff_of_none (Entries.lookup_eq_none_of_not_mem hnot),
            Entries.reads_iff_of_some hhere, hv, l.get_put]
          simp [eq_comm]
        · rw [l.get_put_of_ne p q x a hq]
          exact Entries.reads_congr (hother fun h => hq (l.key_injective h)).symm

end Layout

/-! ## What comes of an array -/

section Zip

variable {keys : List String} {items : List Value}

theorem zip_keys_sublist : ((keys.zip items).map Prod.fst).Sublist keys := by
  induction keys generalizing items with
  | nil => simp
  | cons key keys ih =>
    cases items with
    | nil => simp
    | cons v items => exact (@ih items).cons_cons key

theorem proper_zip (hkeys : keys.Nodup) (hitems : ∀ v ∈ items, v.Proper) :
    Entries.Proper (keys.zip items) :=
  ⟨hkeys.sublist zip_keys_sublist, fun e he => hitems e.2 (List.of_mem_zip he).2⟩

end Zip

namespace Layout

variable {α : Type} {l : Layout α}

/-- The values of an array count as the entries with the keys of the first fields. -/
theorem takeItems_eq_takeEntries (a : α) (items : List Value) :
    Field.takeItems a l.fields items = Field.takeEntries l.fields a (l.keys.zip items) := by
  -- By induction on the fields that are left; entries are looked up among all of them.
  have hsome : ∀ (parts : List l.Part) (a : α) (items : List Value),
      Field.takeItems a (parts.map l.field) items =
        Field.takeEntries l.fields a ((parts.map l.key).zip items) := by
    intro parts
    induction parts with
    | nil =>
      intro a items
      cases items with
      | nil => rfl
      | cons => rfl
    | cons p parts ih =>
      intro a items
      cases items with
      | nil => rfl
      | cons v items =>
        rw [List.map_cons, List.map_cons, List.zip_cons_cons, takeEntries_cons, takeEntry_of_key,
          Field.takeItems]
        show (do return l.put p (← l.decode p v) a) >>= _ = _
        cases l.decode p v with
        | error e => rfl
        | ok x => exact ih _ _
  exact hsome l.order a items

end Layout

/-- A field that stores what it reads as something that is there. -/
theorem Field.of_some {α β : Type} (key : String) (decode : Value → Decoded β)
    (put : Option β → α → α) :
    Field.of key decode (fun x => put (some x)) =
      Field.of key (fun v => some <$> decode v) put := by
  unfold Field.of
  congr 1
  funext a v
  show (do return put (some (← decode v)) a) = (do return put (← some <$> decode v) a)
  cases decode v with
  | error e => rfl
  | ok x => rfl

/-! ## The three records -/

namespace EngineSettings

/-- The fields of engine settings. -/
inductive Part where
  | program
  | args
  | weightsDir
  | cacheSize

/-- How engine settings are laid out. -/
def layout : Layout EngineSettings where
  Part := Part
  Slot
    | .program => String
    | .args => List String
    | .weightsDir => Option String
    | .cacheSize => UInt32
  key
    | .program => "program"
    | .args => "args"
    | .weightsDir => "weights_dir"
    | .cacheSize => "cache_size"
  decode
    | .program => Value.decodeString
    | .args => Value.decodeList Value.decodeString
    | .weightsDir => fun v => some <$> v.decodeString
    | .cacheSize => Value.decodeUInt32
  get
    | .program => program
    | .args => args
    | .weightsDir => weightsDir
    | .cacheSize => cacheSize
  put
    | .program => fun program s => { s with program }
    | .args => fun args s => { s with args }
    | .weightsDir => fun weightsDir s => { s with weightsDir }
    | .cacheSize => fun cacheSize s => { s with cacheSize }
  order := [.program, .args, .weightsDir, .cacheSize]
  mem_order p := by cases p <;> simp
  key_injective p q h := by cases p <;> cases q <;> first | rfl | simp at h
  get_put p x a := by cases p <;> rfl
  get_put_of_ne p q x a h := by cases p <;> cases q <;> first | rfl | exact absurd rfl h
  ext a b h := by
    obtain ⟨program, args, weightsDir, cacheSize⟩ := a
    obtain rfl := h .program
    obtain rfl := h .args
    obtain rfl := h .weightsDir
    obtain rfl := h .cacheSize
    rfl

theorem layout_fields : layout.fields = fields := by
  have hdir : layout.field .weightsDir = .of "weights_dir" Value.decodeString fun dir s =>
      { s with weightsDir := some dir } := (Field.of_some _ _ _).symm
  show [layout.field .program, layout.field .args, layout.field .weightsDir,
    layout.field .cacheSize] = fields
  rw [hdir]
  rfl

end EngineSettings

namespace ProfileDraft

/-- The fields of a profile. -/
inductive Part where
  | timeBudget
  | nodeBudget
  | depthBudget
  | temperature
  | model

/-- How a profile is laid out. -/
def layout : Layout ProfileDraft where
  Part := Part
  Slot
    | .timeBudget => Option UInt64
    | .nodeBudget => UInt64
    | .depthBudget => UInt32
    | .temperature => Option Single
    | .model => Option String
  key
    | .timeBudget => "time_budget_ms"
    | .nodeBudget => "node_budget"
    | .depthBudget => "depth_budget"
    | .temperature => "temperature"
    | .model => "model_id"
  decode
    | .timeBudget => fun v => some <$> v.decodeUInt64
    | .nodeBudget => Value.decodeUInt64
    | .depthBudget => Value.decodeUInt32
    | .temperature => fun v => some <$> v.decodeBinary .single
    | .model => fun v => some <$> v.decodeString
  get
    | .timeBudget => timeBudget
    | .nodeBudget => nodeBudget
    | .depthBudget => depthBudget
    | .temperature => temperature
    | .model => model
  put
    | .timeBudget => fun timeBudget p => { p with timeBudget }
    | .nodeBudget => fun nodeBudget p => { p with nodeBudget }
    | .depthBudget => fun depthBudget p => { p with depthBudget }
    | .temperature => fun temperature p => { p with temperature }
    | .model => fun model p => { p with model }
  order := [.timeBudget, .nodeBudget, .depthBudget, .temperature, .model]
  mem_order p := by cases p <;> simp
  key_injective p q h := by cases p <;> cases q <;> first | rfl | simp at h
  get_put p x a := by cases p <;> rfl
  get_put_of_ne p q x a h := by cases p <;> cases q <;> first | rfl | exact absurd rfl h
  ext a b h := by
    obtain ⟨timeBudget, nodeBudget, depthBudget, temperature, model⟩ := a
    obtain rfl := h .timeBudget
    obtain rfl := h .nodeBudget
    obtain rfl := h .depthBudget
    obtain rfl := h .temperature
    obtain rfl := h .model
    rfl

theorem layout_fields : layout.fields = fields := by
  have htime : layout.field .timeBudget = .of "time_budget_ms" Value.decodeUInt64 fun time p =>
      { p with timeBudget := some time } := (Field.of_some _ _ _).symm
  have htemperature : layout.field .temperature = .of "temperature" (Value.decodeBinary .single)
      fun temperature p => { p with temperature := some temperature } :=
    (Field.of_some _ _ _).symm
  have hmodel : layout.field .model = .of "model_id" Value.decodeString fun model p =>
      { p with model := some model } := (Field.of_some _ _ _).symm
  show [layout.field .timeBudget, layout.field .nodeBudget, layout.field .depthBudget,
    layout.field .temperature, layout.field .model] = fields
  rw [htime, htemperature, hmodel]
  rfl

end ProfileDraft

namespace Config

/-- The fields of a configuration. -/
inductive Part where
  | address
  | policy
  | preload
  | engine
  | table

/-- How a configuration is laid out. -/
def layout : Layout Config where
  Part := Part
  Slot
    | .address => String
    | .policy => FailurePolicy
    | .preload => Bool
    | .engine => EngineSettings
    | .table => Table
  key
    | .address => "bind"
    | .policy => "failure_policy"
    | .preload => "preload"
    | .engine => "engine"
    | .table => "buckets"
  decode
    | .address => Value.decodeString
    | .policy => FailurePolicy.decode
    | .preload => Value.decodeBool
    | .engine => EngineSettings.decode
    | .table => Table.decode
  get
    | .address => address
    | .policy => policy
    | .preload => preload
    | .engine => engine
    | .table => table
  put
    | .address => fun address c => { c with address }
    | .policy => fun policy c => { c with policy }
    | .preload => fun preload c => { c with preload }
    | .engine => fun engine c => { c with engine }
    | .table => fun table c => { c with table }
  order := [.address, .policy, .preload, .engine, .table]
  mem_order p := by cases p <;> simp
  key_injective p q h := by cases p <;> cases q <;> first | rfl | simp at h
  get_put p x a := by cases p <;> rfl
  get_put_of_ne p q x a h := by cases p <;> cases q <;> first | rfl | exact absurd rfl h
  ext a b h := by
    obtain ⟨address, policy, preload, engine, table⟩ := a
    obtain rfl := h .address
    obtain rfl := h .policy
    obtain rfl := h .preload
    obtain rfl := h .engine
    obtain rfl := h .table
    rfl

theorem layout_fields : layout.fields = fields := rfl

end Config

end Sparring
