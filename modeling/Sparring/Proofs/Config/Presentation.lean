import Mathlib.Logic.Relation
import Sparring.Proofs.Config.Readings

/-!
# Presentation

A configuration says less than the document that it is read from. It does not say which keys there
were that nothing knows (`Pads`), in what order the keys came (`Reorders`), or whether the engine
was a table or an array. So documents that differ in nothing else are read alike;
`presentation_account` says this together with what each level makes of the keys that are there and
of those that are not.

That keys do not know of each other is a property of each record, and the readings of the levels
have it as one line for each field. What remains is that a change deep within a value is passed on
to the outside by every decoder on the way (`Stable`).
-/

namespace Sparring

open Toml

/-! ## Keys that nothing knows -/

/-- Whether a document is another one with one more key that nothing knows at its level. -/
inductive Config.Pads : Entries → Entries → Prop
  | top {key : String} (hkey : key ∉ fields.map Field.key) (v : Value) (before after : Entries) :
      Pads (before ++ after) (before ++ (key, v) :: after)
  | engine {key : String} (hkey : key ∉ EngineSettings.fields.map Field.key) (v : Value)
      (before after inner inner' : Entries) :
      Pads (before ++ ("engine", .table (inner ++ inner')) :: after)
        (before ++ ("engine", .table (inner ++ (key, v) :: inner')) :: after)
  | bucket {key : String} (hkey : key ∉ "max_difficulty" :: ProfileDraft.fields.map Field.key)
      (v : Value) (before after inner inner' : Entries) (rows rows' : List Value) :
      Pads (before ++ ("buckets", .array (rows ++ .table (inner ++ inner') :: rows')) :: after)
        (before ++
          ("buckets", .array (rows ++ .table (inner ++ (key, v) :: inner') :: rows')) :: after)

theorem EngineSettings.decode_of_unknown {key : String} (hkey : key ∉ fields.map Field.key)
    (v : Value) (inner inner' : Entries) :
    decode (.table (inner ++ (key, v) :: inner')) = decode (.table (inner ++ inner')) := by
  rw [decode_table, decode_table]
  exact Layout.takeEntries_of_unknown (Layout.unknown_of_not_mem hkey) v _ _ _

theorem Bucket.decode_of_unknown {key : String}
    (hkey : key ∉ "max_difficulty" :: ProfileDraft.fields.map Field.key) (v : Value)
    (inner inner' : Entries) :
    decode (.table (inner ++ (key, v) :: inner')) = decode (.table (inner ++ inner')) := by
  obtain ⟨hne, hprofile⟩ := not_or.1 (mt List.mem_cons.2 hkey)
  have hthreshold : decodeThreshold (inner ++ (key, v) :: inner') =
      decodeThreshold (inner ++ inner') := by
    unfold decodeThreshold
    rw [List.lookup_append, List.lookup_append, List.lookup_cons, beq_false_of_ne (Ne.symm hne)]
  have htake : Field.takeEntries ProfileDraft.fields .blank (inner ++ (key, v) :: inner') =
      Field.takeEntries ProfileDraft.fields .blank (inner ++ inner') := by
    rw [← ProfileDraft.layout_fields]
    exact Layout.takeEntries_of_unknown (Layout.unknown_of_not_mem hprofile) v _ _ _
  unfold decode
  simp only [Value.entries?, hthreshold, htake]

theorem Table.decode_congr {v v' : Value} (h : Bucket.decode v = Bucket.decode v')
    (rows rows' : List Value) :
    decode (.array (rows ++ v :: rows')) = decode (.array (rows ++ v' :: rows')) := by
  unfold decode Value.decodeList
  simp only [List.mapM_append, List.mapM_cons, h]

/-- A key that nothing knows changes nothing. -/
theorem Config.Pads.decode_eq {entries entries' : Entries} (h : Pads entries entries') :
    decode entries = decode entries' := by
  cases h with
  | top hkey v before after =>
    exact (Layout.takeEntries_of_unknown (l := layout) (Layout.unknown_of_not_mem hkey)
      v _ _ _).symm
  | engine hkey v before after inner inner' =>
    have hengine : layout.decode .engine (.table (inner ++ inner')) =
        layout.decode .engine (.table (inner ++ (_, v) :: inner')) :=
      (EngineSettings.decode_of_unknown hkey v inner inner').symm
    exact Layout.takeEntries_congr (Layout.takeEntry_congr hengine) _ before after
  | bucket hkey v before after inner inner' rows rows' =>
    have htable : layout.decode .table (.array (rows ++ .table (inner ++ inner') :: rows')) =
        layout.decode .table (.array (rows ++ .table (inner ++ (_, v) :: inner') :: rows')) :=
      Table.decode_congr (Bucket.decode_of_unknown hkey v inner inner').symm rows rows'
    exact Layout.takeEntries_congr (Layout.takeEntry_congr htable) _ before after

theorem Config.decode_eq_of_eqvGen {entries entries' : Entries}
    (h : Relation.EqvGen Pads entries entries') : decode entries = decode entries' := by
  induction h with
  | rel _ _ h => exact h.decode_eq
  | refl => rfl
  | symm _ _ _ ih => exact ih.symm
  | trans _ _ _ _ _ ih ih' => exact ih.trans ih'

/-! ## The order of keys -/

/-- Whether a value is another one with the keys of one table in another order. -/
inductive Reorders : Value → Value → Prop
  | here {entries entries' : Entries} (h : entries.Perm entries') :
      Reorders (.table entries) (.table entries')
  | entry {v v' : Value} (h : Reorders v v') (key : String) (before after : Entries) :
      Reorders (.table (before ++ (key, v) :: after)) (.table (before ++ (key, v') :: after))
  | item {v v' : Value} (h : Reorders v v') (before after : List Value) :
      Reorders (.array (before ++ v :: after)) (.array (before ++ v' :: after))

namespace Reorders

variable {v v' : Value} {entries entries' : Entries}

theorem exists_table (h : Reorders (.table entries) v') : ∃ entries', v' = .table entries' := by
  cases h with
  | here => exact ⟨_, rfl⟩
  | entry => exact ⟨_, rfl⟩

theorem proper (h : Reorders v v') (hv : v.Proper) : v'.Proper := by
  induction h with
  | here h =>
    cases hv with
    | table hkeys hvalues =>
      exact .table ((h.map Prod.fst).nodup hkeys) fun e he => hvalues e (h.mem_iff.2 he)
  | entry h key before after ih =>
    cases hv with
    | table hkeys hvalues =>
      rw [List.forall_mem_append, List.forall_mem_cons] at hvalues
      refine .table (by simpa using hkeys) ?_
      rw [List.forall_mem_append, List.forall_mem_cons]
      exact ⟨hvalues.1, ih hvalues.2.1, hvalues.2.2⟩
  | item h before after ih =>
    cases hv with
    | array hitems =>
      rw [List.forall_mem_append, List.forall_mem_cons] at hitems
      refine .array ?_
      rw [List.forall_mem_append, List.forall_mem_cons]
      exact ⟨hitems.1, ih hitems.2.1, hitems.2.2⟩

theorem cons (e : String × Value) (h : Reorders (.table entries) (.table entries')) :
    Reorders (.table (e :: entries)) (.table (e :: entries')) := by
  cases h with
  | here h => exact .here (h.cons e)
  | entry h key before after => exact .entry h key (e :: before) after

/-- A key stands for what it stood for, or for the value in which the keys are reordered. -/
theorem lookup (hproper : entries.Proper) (h : Reorders (.table entries) (.table entries'))
    (key : String) : entries.lookup key = entries'.lookup key ∨
      ∃ v v', entries.lookup key = some v ∧ entries'.lookup key = some v' ∧ v.Proper ∧
        Reorders v v' := by
  cases h with
  | here h => exact Or.inl (Entries.lookup_eq_of_perm hproper.keys h key)
  | @entry v v' h k before after =>
    by_cases hk : key = k
    · subst hk
      have hkeys' : ((before ++ (key, v') :: after).map Prod.fst).Nodup := by
        simpa using hproper.keys
      refine Or.inr ⟨v, v', ?_, ?_, ?_, h⟩
      · exact (lookup_eq_some_iff_mem hproper.keys).2 (by simp)
      · exact (lookup_eq_some_iff_mem hkeys').2 (by simp)
      · exact hproper.values (key, v) (by simp)
    · refine Or.inl ?_
      rw [List.lookup_append, List.lookup_append, List.lookup_cons, List.lookup_cons,
        beq_false_of_ne hk]

end Reorders

/-- Whether what is accepted stays accepted, with the same result, when keys are reordered. -/
def Stable {β : Type} (decode : Value → Decoded β) : Prop :=
  ∀ v v' x, v.Proper → Reorders v v' → decode v = .ok x → decode v' = .ok x

section Stable

variable {β γ : Type} {decode : Value → Decoded β}

/-- Where nothing with parts is accepted, there are no keys. -/
theorem stable_of_plain (htable : ∀ entries x, decode (.table entries) ≠ .ok x)
    (harray : ∀ items x, decode (.array items) ≠ .ok x) : Stable decode := by
  intro v v' x hproper h hx
  cases h with
  | here => exact absurd hx (htable _ _)
  | entry => exact absurd hx (htable _ _)
  | item => exact absurd hx (harray _ _)

theorem Stable.bind (hs : Stable decode) (f : β → Decoded γ) : Stable fun v => decode v >>= f := by
  intro v v' x hproper h hx
  obtain ⟨b, hb, hf⟩ := Decoded.bind_eq_ok.1 hx
  exact Decoded.bind_eq_ok.2 ⟨b, hs v v' b hproper h hb, hf⟩

theorem Stable.map (hs : Stable decode) (f : β → γ) : Stable fun v => f <$> decode v := by
  intro v v' x hproper h hx
  obtain ⟨b, hb, hf⟩ := Decoded.map_eq_ok.1 hx
  exact Decoded.map_eq_ok.2 ⟨b, hs v v' b hproper h hb, hf⟩

theorem stable_decodeString : Stable Value.decodeString :=
  stable_of_plain (fun _ _ h => by cases h) fun _ _ h => by cases h

theorem stable_decodeBool : Stable Value.decodeBool :=
  stable_of_plain (fun _ _ h => by cases h) fun _ _ h => by cases h

theorem stable_decodeNat (bound : Nat) : Stable (Value.decodeNat bound) :=
  stable_of_plain (fun _ _ h => by cases h) fun _ _ h => by cases h

theorem stable_decodeUInt32 : Stable Value.decodeUInt32 := (stable_decodeNat _).map _

theorem stable_decodeUInt64 : Stable Value.decodeUInt64 := (stable_decodeNat _).map _

theorem stable_decodeBinary (f : BinaryFormat) : Stable (Value.decodeBinary f) :=
  stable_of_plain (fun _ _ h => by cases h) fun _ _ h => by cases h

theorem Decoded.mapM_of_item {v v' : Value} (h : ∀ x, decode v = .ok x → decode v' = .ok x)
    {before after : List Value} {xs : List β} (hxs : (before ++ v :: after).mapM decode = .ok xs) :
    (before ++ v' :: after).mapM decode = .ok xs := by
  rw [mapM_eq_ok] at hxs ⊢
  induction before generalizing xs with
  | nil =>
    cases hxs with
    | cons hv hafter => exact .cons (h _ hv) hafter
  | cons u before ih =>
    cases hxs with
    | cons hu hrest => exact .cons hu (ih hrest)

theorem stable_decodeList (hs : Stable decode) : Stable (Value.decodeList decode) := by
  intro v v' xs hproper h hxs
  cases h with
  | here | entry => cases hxs
  | @item u u' h before after =>
    cases hproper with
    | array hitems => exact Decoded.mapM_of_item (fun x => hs u u' x (hitems u (by simp)) h) hxs

variable {entries entries' : Entries} {key : String} {default x : β}

theorem Toml.Entries.Reads.reorders (hs : Stable decode) (hproper : entries.Proper)
    (h : Reorders (.table entries) (.table entries')) (hx : entries.Reads key decode default x) :
    entries'.Reads key decode default x := by
  rcases h.lookup hproper key with heq | ⟨v, v', hv, hv', hvalue, hreorders⟩
  · exact (reads_congr heq).1 hx
  · exact (reads_iff_of_some hv').2 (hs v v' x hvalue hreorders ((reads_iff_of_some hv).1 hx))

theorem Toml.Entries.Needs.reorders (hs : Stable decode) (hproper : entries.Proper)
    (h : Reorders (.table entries) (.table entries')) (hx : entries.Needs key decode x) :
    entries'.Needs key decode x :=
  reads_some_iff.1 ((reads_some_iff.2 hx).reorders (hs.map some) hproper h)

/-- A record whose fields are read stably is read stably itself. -/
theorem Layout.takeEntries_reorders {α : Type} {l : Layout α} (hs : ∀ p, Stable (l.decode p))
    (hproper : entries.Proper) (h : Reorders (.table entries) (.table entries')) {a b : α}
    (hb : Field.takeEntries l.fields a entries = .ok b) :
    Field.takeEntries l.fields a entries' = .ok b := by
  have hproper' := Entries.proper_of_table (h.proper hproper.table)
  rw [takeEntries_eq_ok hproper.keys] at hb
  rw [takeEntries_eq_ok hproper'.keys]
  intro p
  exact (hb p).reorders (hs p) hproper h

end Stable

/-! ### The policy -/

theorem FailurePolicy.decode_table_eq_ok {entries : Entries} {policy : FailurePolicy} :
    decode (.table entries) = .ok policy ↔
      ∃ name content, entries = [(name, content)] ∧ ofName name = .ok policy ∧
        isNothing content = true := by
  cases entries with
  | nil => simp [decode]
  | cons e rest =>
    cases rest with
    | cons => simp [decode]
    | nil =>
      obtain ⟨name, content⟩ := e
      constructor
      · intro h
        obtain ⟨policy', hname, h⟩ := Decoded.bind_eq_ok.1 h
        by_cases hnothing : isNothing content = true
        · rw [if_pos hnothing] at h
          cases h
          exact ⟨name, content, rfl, hname, hnothing⟩
        · rw [if_neg hnothing] at h
          cases h
      · rintro ⟨name', content', heq, hname, hnothing⟩
        cases heq
        exact Decoded.bind_eq_ok.2 ⟨policy, hname, if_pos hnothing⟩

theorem FailurePolicy.isNothing_of_reorders {v v' : Value} (h : Reorders v v') :
    isNothing v = isNothing v' := by
  cases h with
  | here h => exact h.isEmpty_eq
  | entry h key before after =>
    cases before with
    | nil => rfl
    | cons => rfl
  | item h before after =>
    cases before with
    | nil => rfl
    | cons => rfl

theorem FailurePolicy.stable_decode : Stable decode := by
  intro v v' policy hproper h hpolicy
  cases h with
  | item => cases hpolicy
  | here h =>
    obtain ⟨name, content, rfl, -⟩ := decode_table_eq_ok.1 hpolicy
    rw [← List.singleton_perm.1 h]
    exact hpolicy
  | entry h key before after =>
    obtain ⟨name, content, heq, hname, hnothing⟩ := decode_table_eq_ok.1 hpolicy
    rcases List.append_eq_singleton_iff.1 heq with ⟨rfl, hsingle⟩ | ⟨-, hnone⟩
    · cases hsingle
      rw [isNothing_of_reorders h] at hnothing
      exact decode_table_eq_ok.2 ⟨_, _, rfl, hname, hnothing⟩
    · cases hnone

/-! ### The engine -/

/-- Keys in front of values that do not reach the one that is reordered do not tell. -/
theorem zip_reorders {v v' : Value} (h : Reorders v v') (keys : List String)
    (before after : List Value) :
    keys.zip (before ++ v :: after) = keys.zip (before ++ v' :: after) ∨
      Reorders (.table (keys.zip (before ++ v :: after)))
        (.table (keys.zip (before ++ v' :: after))) := by
  induction keys generalizing before with
  | nil => exact Or.inl rfl
  | cons key keys ih =>
    cases before with
    | nil => exact Or.inr (.entry h key [] (keys.zip after))
    | cons u before =>
      rcases ih before with heq | hr
      · exact Or.inl (congrArg ((key, u) :: ·) heq)
      · exact Or.inr (hr.cons (key, u))

theorem EngineSettings.stable_layout : ∀ p, Stable (layout.decode p)
  | .program => stable_decodeString
  | .args => stable_decodeList stable_decodeString
  | .weightsDir => stable_decodeString.map some
  | .cacheSize => stable_decodeUInt32

theorem EngineSettings.decode_table_reorders {entries entries' : Entries}
    (hproper : entries.Proper) (h : Reorders (.table entries) (.table entries'))
    {s : EngineSettings} (hs : decode (.table entries) = .ok s) :
    decode (.table entries') = .ok s := by
  rw [decode_table] at hs ⊢
  exact Layout.takeEntries_reorders stable_layout hproper h hs

theorem EngineSettings.stable_decode : Stable decode := by
  intro v v' s hproper h hs
  cases h with
  | here h => exact decode_table_reorders (Entries.proper_of_table hproper) (.here h) hs
  | entry h key before after =>
    exact decode_table_reorders (Entries.proper_of_table hproper) (.entry h key before after) hs
  | item h before after =>
    cases hproper with
    | array hitems =>
      rw [decode_array] at hs ⊢
      rcases zip_reorders h (fields.map Field.key) before after with heq | hr
      · rwa [← heq]
      · exact decode_table_reorders (proper_zip (by decide) hitems) hr hs

/-! ### Buckets -/

theorem Bucket.ReadFrom.reorders {entries entries' : Entries} {b : Bucket}
    (hproper : entries.Proper) (h : Reorders (.table entries) (.table entries'))
    (hb : ReadFrom entries b) : ReadFrom entries' b where
  threshold := hb.threshold.reorders (stable_decodeBinary _) hproper h
  timeBudget := hb.timeBudget.reorders stable_decodeUInt64 hproper h
  nodeBudget := hb.nodeBudget.reorders stable_decodeUInt64 hproper h
  depthBudget := hb.depthBudget.reorders stable_decodeUInt32 hproper h
  temperature := hb.temperature.reorders (stable_decodeBinary _) hproper h
  model := hb.model.reorders stable_decodeString hproper h

theorem Bucket.stable_decode : Stable decode := by
  intro v v' b hproper h hb
  have htable : ∀ entries entries', v = .table entries → v' = .table entries' →
      decode v' = .ok b := by
    rintro entries entries' rfl rfl
    have hentries := Entries.proper_of_table hproper
    have hentries' := Entries.proper_of_table (h.proper hproper)
    rw [decode_table_eq_ok hentries.keys] at hb
    rw [decode_table_eq_ok hentries'.keys]
    exact hb.reorders hentries h
  cases h with
  | here => exact htable _ _ rfl rfl
  | entry => exact htable _ _ rfl rfl
  | item => cases hb

theorem Table.stable_decode : Stable decode := (stable_decodeList Bucket.stable_decode).bind _

/-! ### The whole document -/

theorem Config.stable_layout : ∀ p, Stable (layout.decode p)
  | .address => stable_decodeString
  | .policy => FailurePolicy.stable_decode
  | .preload => stable_decodeBool
  | .engine => EngineSettings.stable_decode
  | .table => Table.stable_decode

theorem Config.decode_reorders {entries entries' : Entries} (hproper : entries.Proper)
    (h : Reorders (.table entries) (.table entries')) {c : Config} (hc : decode entries = .ok c) :
    decode entries' = .ok c :=
  Layout.takeEntries_reorders (l := layout) stable_layout hproper h hc

/-- Several tables may have their keys in another order. -/
theorem Config.decode_reorders_all {entries entries' : Entries} (hproper : entries.Proper)
    (h : Relation.ReflTransGen Reorders (.table entries) (.table entries')) {c : Config}
    (hc : decode entries = .ok c) : decode entries' = .ok c := by
  -- What is in between is a table as well, has its keys distinct, and is read alike.
  have hall : ∀ v, Relation.ReflTransGen Reorders (.table entries) v →
      ∃ entries' : Entries, v = .table entries' ∧ entries'.Proper ∧ decode entries' = .ok c := by
    intro v hv
    induction hv with
    | refl => exact ⟨entries, rfl, hproper, hc⟩
    | tail _ hstep ih =>
      obtain ⟨between, rfl, hbetween, hread⟩ := ih
      obtain ⟨next, rfl⟩ := hstep.exists_table
      have hnext := Entries.proper_of_table (hstep.proper hbetween.table)
      exact ⟨next, rfl, hnext, decode_reorders hbetween hstep hread⟩
  obtain ⟨last, heq, -, hread⟩ := hall _ h
  cases heq
  exact hread

/-! ## The account -/

namespace Config

/-- What of a document its configuration depends on. -/
structure PresentationAccount : Prop where
  /-- In the tree of a document no table has a key twice. -/
  documents : ∀ text (entries : Entries), Document.read? text = some entries → entries.Proper
  /-- Keys that nothing knows at their level may come and go. -/
  padding : ∀ entries entries', Relation.EqvGen Pads entries entries' →
    decode entries = decode entries'
  /-- Keys may change places, in any tables. -/
  reordering : ∀ (entries entries' : Entries) c, entries.Proper →
    Relation.ReflTransGen Reorders (.table entries) (.table entries') →
    decode entries = .ok c → decode entries' = .ok c
  /-- The engine may be an array with the values of its first fields. -/
  array : ∀ before items after, decode (before ++ ("engine", .array items) :: after) =
    decode (before ++
      ("engine", .table ((EngineSettings.fields.map Field.key).zip items)) :: after)
  /-- On each level a key decides about its own field alone, and so does its absence. -/
  top : ∀ (entries : Entries) c, entries.Proper → (decode entries = .ok c ↔ ReadFrom entries c)
  engine : ∀ (entries : Entries) s, entries.Proper →
    (EngineSettings.decode (.table entries) = .ok s ↔ EngineSettings.ReadFrom entries s)
  buckets : ∀ v t, Table.decode v = .ok t ↔ ∃ items, v = .array items ∧
    List.Forall₂ (fun item row => Bucket.decode item = .ok row) items t.rows
  bucket : ∀ (entries : Entries) b, entries.Proper →
    (Bucket.decode (.table entries) = .ok b ↔ Bucket.ReadFrom entries b)
  /-- The rows of every configuration pass all checks of a table. -/
  checked : ∀ entries c, decode entries = .ok c → Table.Acceptable c.table.rows

/-- A configuration depends on the values that its document has behind known keys, and on nothing
else. -/
theorem presentation_account : PresentationAccount where
  documents _ _ h := Document.proper_of_read? h
  padding _ _ h := decode_eq_of_eqvGen h
  reordering _ _ _ hproper h hc := decode_reorders_all hproper h hc
  array before items after := by
    have hengine : layout.decode .engine (.array items) = layout.decode .engine
        (.table ((EngineSettings.fields.map Field.key).zip items)) :=
      EngineSettings.decode_array items
    exact Layout.takeEntries_congr (Layout.takeEntry_congr hengine) _ before after
  top _ _ hproper := decode_eq_ok hproper.keys
  engine _ _ hproper := EngineSettings.decode_table_eq_ok hproper.keys
  buckets _ _ := Table.decode_eq_ok
  bucket _ _ hproper := Bucket.decode_table_eq_ok hproper.keys
  checked _ c _ := Table.acceptable_iff.2 ⟨c.table.rows_ne_nil, c.table.inOrder⟩

end Config

end Sparring
