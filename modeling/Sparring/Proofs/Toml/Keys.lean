import Mathlib.Data.List.Nodup
import Sparring.Toml.Document

/-!
# Keys of a document

No table of a document has a key twice, however deep it lies (`proper_of_read?`).

For the tables under construction this is an invariant of every statement (`proper_add`): each one
changes what a key stands for, or adds a key that is not there, at the end of the path that it goes.
Values come finished from their readers, and an inline table is under construction while it is read.
So it is a fact about readers too, and `Yields` carries it from the parts of a reader to the whole.
-/

namespace Sparring.Toml

/-! ## Distinct keys -/

theorem mem_of_lookup_eq_some {β : Type} {pairs : List (String × β)} {key : String} {b : β}
    (h : pairs.lookup key = some b) : (key, b) ∈ pairs := by
  obtain ⟨before, after, rfl, -⟩ := List.lookup_eq_some_iff.1 h
  exact List.mem_append_right _ List.mem_cons_self

/-- Where keys are distinct, a key stands for the one value that stands behind it. -/
theorem lookup_eq_some_iff_mem {β : Type} {pairs : List (String × β)}
    (hkeys : (pairs.map Prod.fst).Nodup) {key : String} {b : β} :
    pairs.lookup key = some b ↔ (key, b) ∈ pairs := by
  refine ⟨mem_of_lookup_eq_some, fun h => ?_⟩
  obtain ⟨before, after, rfl⟩ := List.append_of_mem h
  rw [List.map_append, List.nodup_append'] at hkeys
  refine List.lookup_eq_some_iff.2 ⟨before, after, rfl, fun p hp => ?_⟩
  have hne : key ≠ p.1 := by
    rintro rfl
    exact hkeys.2.2 (List.mem_map_of_mem hp) (by simp)
  simpa using hne

/-- Whether no table within a value has a key twice. -/
inductive Value.Proper : Value → Prop
  | str (s : String) : Proper (.str s)
  | int (n : Int64) : Proper (.int n)
  | float (x : Double) : Proper (.float x)
  | bool (b : Bool) : Proper (.bool b)
  | datetime : Proper .datetime
  | array {items : List Value} (h : ∀ v ∈ items, Proper v) : Proper (.array items)
  | table {entries : Entries} (hkeys : (entries.map Prod.fst).Nodup)
      (h : ∀ e ∈ entries, Proper e.2) : Proper (.table entries)

/-- Whether no table has a key twice, neither the one with these entries nor one within them. -/
structure Entries.Proper (entries : Entries) : Prop where
  keys : (entries.map Prod.fst).Nodup
  values : ∀ e ∈ entries, e.2.Proper

theorem Entries.proper_nil : Entries.Proper [] := ⟨List.nodup_nil, by simp⟩

theorem Entries.Proper.table {entries : Entries} (h : entries.Proper) :
    (Value.table entries).Proper :=
  .table h.keys h.values

theorem Entries.proper_of_table {entries : Entries} (h : (Value.table entries).Proper) :
    entries.Proper := by
  cases h with
  | table hkeys h => exact ⟨hkeys, h⟩

/-- The same of a node of a document under construction. -/
inductive Node.Proper : Node → Prop
  | value {v : Value} (h : v.Proper) : Proper (.value v)
  | table {origin : Origin} {entries : List (String × Node)} (hkeys : (entries.map Prod.fst).Nodup)
      (h : ∀ e ∈ entries, Proper e.2) : Proper (.table origin entries)
  | tables {elements : List (List (String × Node))}
      (hkeys : ∀ d ∈ elements, (d.map Prod.fst).Nodup) (h : ∀ d ∈ elements, ∀ e ∈ d, Proper e.2) :
      Proper (.tables elements)

/-- The same of a table under construction. -/
structure Draft.Proper (d : Draft) : Prop where
  keys : (d.map Prod.fst).Nodup
  nodes : ∀ e ∈ d, e.2.Proper

/-! ## Tables under construction -/

namespace Draft

theorem proper_nil : Proper [] := ⟨List.nodup_nil, by simp⟩

theorem Proper.node {d : Draft} (h : Proper d) (origin : Origin) : (Node.table origin d).Proper :=
  .table h.keys h.nodes

theorem proper_of_table {origin : Origin} {entries : Draft}
    (h : (Node.table origin entries).Proper) : Proper entries := by
  cases h with
  | table hkeys h => exact ⟨hkeys, h⟩

theorem tables_proper_iff {elements : List Draft} :
    (Node.tables elements).Proper ↔ ∀ d ∈ elements, Proper d := by
  constructor
  · intro h d hd
    cases h with
    | tables hkeys h => exact ⟨hkeys d hd, h d hd⟩
  · intro h
    exact .tables (fun d hd => (h d hd).keys) fun d hd => (h d hd).nodes

/-- A change adds no key but its own. -/
theorem mem_keys_change {key : String} {f : Option Node → Option Node} {d d' : Draft}
    (h : change key f d = some d') {k : String} (hk : k ∈ d'.map Prod.fst) :
    k ∈ d.map Prod.fst ∨ k = key := by
  induction d generalizing d' with
  | nil =>
    obtain ⟨node, -, rfl⟩ := Option.map_eq_some_iff.1 h
    exact Or.inr (by simpa using hk)
  | cons entry rest ih =>
    obtain ⟨k', node⟩ := entry
    rw [change] at h
    by_cases hkey : k' = key
    · rw [if_pos hkey] at h
      obtain ⟨node', -, rfl⟩ := Option.map_eq_some_iff.1 h
      subst hkey
      exact Or.inl (by simpa using hk)
    · rw [if_neg hkey] at h
      obtain ⟨rest', hrest, rfl⟩ := Option.map_eq_some_iff.1 h
      rw [List.map_cons, List.mem_cons] at hk ⊢
      rcases hk with hk | hk
      · exact Or.inl (Or.inl hk)
      · exact (ih hrest hk).imp_left Or.inr

/-- A change keeps the keys distinct if it makes a proper node of what a key stands for. -/
theorem proper_change {key : String} {f : Option Node → Option Node} {d d' : Draft}
    (hf : ∀ before, (∀ node ∈ before, Node.Proper node) →
      ∀ node, f before = some node → node.Proper)
    (hd : Proper d) (h : change key f d = some d') : Proper d' := by
  induction d generalizing d' with
  | nil =>
    obtain ⟨node, hnode, rfl⟩ := Option.map_eq_some_iff.1 h
    have hproper := hf none (by simp) node hnode
    exact ⟨List.nodup_singleton key, by simpa using hproper⟩
  | cons entry rest ih =>
    obtain ⟨k, node⟩ := entry
    obtain ⟨hnot, hkeys⟩ := List.nodup_cons.1 hd.keys
    obtain ⟨hnode, hnodes⟩ := List.forall_mem_cons.1 hd.nodes
    rw [change] at h
    by_cases hkey : k = key
    · rw [if_pos hkey] at h
      obtain ⟨node', hnode', rfl⟩ := Option.map_eq_some_iff.1 h
      subst hkey
      have hproper := hf (some node) (by simpa using hnode) node' hnode'
      exact ⟨hd.keys, List.forall_mem_cons.2 ⟨hproper, hnodes⟩⟩
    · rw [if_neg hkey] at h
      obtain ⟨rest', hrest, rfl⟩ := Option.map_eq_some_iff.1 h
      have hproper := ih ⟨hkeys, hnodes⟩ hrest
      refine ⟨List.nodup_cons.2 ⟨?_, hproper.keys⟩, List.forall_mem_cons.2 ⟨hnode, hproper.nodes⟩⟩
      intro hmem
      -- Further down only the key of the change may be new, and that is another one.
      rcases mem_keys_change hrest hmem with hold | hnew
      · exact hnot hold
      · exact hkey hnew

theorem forall_mem_of_changeLast {α : Type} {P : α → Prop} {f : α → Option α} {as as' : List α}
    (hf : ∀ a a', P a → f a = some a' → P a') (has : ∀ a ∈ as, P a)
    (h : changeLast f as = some as') : ∀ a ∈ as', P a := by
  induction as generalizing as' with
  | nil => cases h
  | cons a rest ih =>
    obtain ⟨ha, hrest⟩ := List.forall_mem_cons.1 has
    cases rest with
    | nil =>
      obtain ⟨a', ha', rfl⟩ := Option.map_eq_some_iff.1 h
      simpa using hf a a' ha ha'
    | cons b rest =>
      obtain ⟨rest', hrest', rfl⟩ := Option.map_eq_some_iff.1 h
      exact List.forall_mem_cons.2 ⟨ha, ih hrest hrest'⟩

/-- Whether a change of a table keeps its keys distinct. -/
def Keeps (f : Draft → Option Draft) : Prop := ∀ d d', Proper d → f d = some d' → Proper d'

theorem keeps_within {f : Draft → Option Draft} (hf : Keeps f) (path : List String) :
    Keeps (within f path) := by
  induction path with
  | nil => exact hf
  | cons k path ih =>
    intro d d' hd h
    -- The path goes on in a new table, in the one that is there, or in the last of several.
    refine proper_change (fun before hbefore node hnode => ?_) hd h
    cases before with
    | none =>
      obtain ⟨inner, hinner, rfl⟩ := Option.map_eq_some_iff.1 hnode
      exact (ih _ _ proper_nil hinner).node .implied
    | some old =>
      have hold := hbefore old rfl
      cases old with
      | value => cases hnode
      | table origin entries =>
        obtain ⟨inner, hinner, rfl⟩ := Option.map_eq_some_iff.1 hnode
        exact (ih _ _ (proper_of_table hold) hinner).node origin
      | tables elements =>
        obtain ⟨elements', helements, rfl⟩ := Option.map_eq_some_iff.1 hnode
        exact tables_proper_iff.2
          (forall_mem_of_changeLast ih (tables_proper_iff.1 hold) helements)

/-- A table that is opened moves to the end and takes its key along. -/
theorem proper_reopen {d inner : Draft} (hd : Proper d) (hinner : Proper inner) (key : String) :
    Proper (d.filter (·.1 ≠ key) ++ [(key, .table .header inner)]) := by
  refine ⟨?_, ?_⟩
  · rw [List.map_append, List.nodup_append']
    refine ⟨hd.keys.sublist (List.filter_sublist.map _), List.nodup_singleton key, ?_⟩
    intro k hk hkey
    obtain ⟨e, he, rfl⟩ := List.mem_map.1 hk
    have hne : e.1 ≠ key := by simpa using (List.mem_filter.1 he).2
    exact hne (by simpa using hkey)
  · intro e he
    rcases List.mem_append.1 he with hold | hnew
    · exact hd.nodes e (List.mem_filter.1 hold).1
    · rw [List.mem_singleton.1 hnew]
      exact hinner.node .header

theorem keeps_openTable (key : String) : Keeps (openTable key) := by
  intro d d' hd h
  unfold openTable at h
  cases hlookup : d.lookup key with
  | none =>
    rw [hlookup] at h
    cases h
    exact proper_reopen hd proper_nil key
  | some old =>
    rw [hlookup] at h
    have hold : old.Proper := hd.nodes _ (mem_of_lookup_eq_some hlookup)
    cases old with
    | value | tables => cases h
    | table origin inner =>
      cases origin with
      | header | dotted => cases h
      | implied =>
        cases h
        exact proper_reopen hd (proper_of_table hold) key

theorem keeps_openElement (key : String) : Keeps (openElement key) := by
  intro d d' hd h
  refine proper_change (fun before hbefore node hnode => ?_) hd h
  cases before with
  | none =>
    cases hnode
    exact tables_proper_iff.2 (by simpa using proper_nil)
  | some old =>
    have hold := hbefore old rfl
    cases old with
    | value | table => cases hnode
    | tables elements =>
      cases hnode
      refine tables_proper_iff.2 fun inner hinner => ?_
      rcases List.mem_append.1 hinner with hmem | hmem
      · exact tables_proper_iff.1 hold inner hmem
      · rw [List.mem_singleton.1 hmem]
        exact proper_nil

theorem keeps_assign (last : String) {v : Value} (hv : v.Proper) (path : List String) :
    Keeps (assign last v path) := by
  -- Along the path: what a key stands for is opened or made, and changed by the rest of the path.
  induction path with
  | nil =>
    intro d d' hd h
    refine proper_change (fun before _ node hnode => ?_) hd h
    cases before with
    | none =>
      cases hnode
      exact .value hv
    | some => cases hnode
  | cons k path ih =>
    intro d d' hd h
    refine proper_change (fun before hbefore node hnode => ?_) hd h
    cases before with
    | none =>
      obtain ⟨inner, hinner, rfl⟩ := Option.map_eq_some_iff.1 hnode
      exact (ih _ _ proper_nil hinner).node .dotted
    | some old =>
      have hold := hbefore old rfl
      cases old with
      | value => cases hnode
      | table origin entries =>
        simp only at hnode
        split at hnode
        · cases hnode
        · obtain ⟨inner, hinner, rfl⟩ := Option.map_eq_some_iff.1 hnode
          exact (ih _ _ (proper_of_table hold) hinner).node origin
      | tables elements =>
        simp only at hnode
        split at hnode
        · cases hnode
        · obtain ⟨elements', helements, rfl⟩ := Option.map_eq_some_iff.1 hnode
          exact tables_proper_iff.2
            (forall_mem_of_changeLast ih (tables_proper_iff.1 hold) helements)

/-! ## Finished tables -/

theorem toEntries_eq_map (d : Draft) : toEntries d = d.map fun e => (e.1, e.2.toValue) := by
  induction d with
  | nil => rfl
  | cons entry rest ih =>
    obtain ⟨key, node⟩ := entry
    rw [toEntries, ih]
    rfl

theorem toValues_eq_map (elements : List Draft) :
    toValues elements = elements.map fun d => .table (toEntries d) := by
  induction elements with
  | nil => rfl
  | cons d rest ih =>
    rw [toValues, ih]
    rfl

theorem keys_toEntries (d : Draft) : (toEntries d).map Prod.fst = d.map Prod.fst := by
  rw [toEntries_eq_map, List.map_map]
  rfl

theorem proper_toValue {node : Node} (h : node.Proper) : node.toValue.Proper := by
  induction h with
  | value h => exact h
  | @table origin entries hkeys h ih =>
    refine .table (by rwa [keys_toEntries]) ?_
    rw [toEntries_eq_map]
    intro e he
    obtain ⟨e', he', rfl⟩ := List.mem_map.1 he
    exact ih e' he'
  | @tables elements hkeys h ih =>
    refine .array ?_
    rw [toValues_eq_map]
    intro v hv
    obtain ⟨d, hd, rfl⟩ := List.mem_map.1 hv
    refine .table (by rw [keys_toEntries]; exact hkeys d hd) ?_
    rw [toEntries_eq_map]
    intro e he
    obtain ⟨e', he', rfl⟩ := List.mem_map.1 he
    exact ih d hd e' he'

theorem proper_toEntries {d : Draft} (h : Proper d) : Entries.Proper (toEntries d) := by
  refine ⟨by rw [keys_toEntries]; exact h.keys, ?_⟩
  rw [toEntries_eq_map]
  intro e he
  obtain ⟨e', he', rfl⟩ := List.mem_map.1 he
  exact proper_toValue (h.nodes e' he')

end Draft

/-! ## What readers yield -/

/-- Whether all that a reader can read satisfies a condition. -/
def Yields {α : Type} (r : Reader α) (P : α → Prop) : Prop :=
  ∀ text a rest, r text = some (a, rest) → P a

section Yields

variable {α β : Type} {P : α → Prop} {Q : β → Prop}

theorem yields_true (r : Reader α) : Yields r fun _ => True := fun _ _ _ _ => trivial

theorem yields_pure {a : α} (h : P a) : Yields (pure a) P := by
  intro text a' rest hr
  cases hr
  exact h

theorem yields_failure : Yields (failure : Reader α) P := by
  intro text a rest hr
  cases hr

theorem Yields.bind {r : Reader α} {f : α → Reader β} (hr : Yields r P)
    (hf : ∀ a, P a → Yields (f a) Q) : Yields (r >>= f) Q := by
  intro text b rest h
  obtain ⟨⟨a, rest'⟩, ha, hb⟩ := Option.bind_eq_some_iff.1 h
  exact hf a (hr _ _ _ ha) _ _ _ hb

theorem yields_bind {r : Reader α} {f : α → Reader β} (hf : ∀ a, Yields (f a) Q) :
    Yields (r >>= f) Q :=
  (yields_true r).bind fun a _ => hf a

theorem Yields.orElse {r s : Reader α} (hr : Yields r P) (hs : Yields s P) :
    Yields (r <|> s) P := by
  intro text a rest h
  have hcases : (r text <|> s text) = some (a, rest) := h
  cases hfirst : r text with
  | some first =>
    rw [hfirst] at hcases
    cases hcases
    exact hr _ _ _ hfirst
  | none =>
    rw [hfirst] at hcases
    exact hs _ _ _ hcases

theorem yields_ite {p : Prop} [Decidable p] {r s : Reader α} (hr : Yields r P)
    (hs : Yields s P) : Yields (if p then r else s) P := by
  by_cases hp : p
  · rwa [if_pos hp]
  · rwa [if_neg hp]

theorem yields_lift {o : Option α} (h : ∀ a ∈ o, P a) : Yields (liftM o : Reader α) P := by
  intro text a rest hr
  obtain ⟨a', ha', heq⟩ := Option.bind_eq_some_iff.1 hr
  cases heq
  exact h a ha'

end Yields

/-! ## Values without parts -/

theorem yields_bool : Yields bool Value.Proper :=
  yields_bind fun _ => yields_ite (yields_pure (.bool _))
    (yields_bind fun _ => yields_pure (.bool _))

theorem yields_datetime : Yields datetime Value.Proper := yields_bind fun _ => yields_pure .datetime

theorem yields_inRange (n : Int) : Yields (inRange n) Value.Proper :=
  yields_ite (yields_pure (.int _)) yields_failure

theorem yields_marked (mark : String) (radix : Nat) : Yields (marked mark radix) Value.Proper :=
  yields_bind fun _ => yields_bind fun _ => yields_inRange _

theorem yields_integer : Yields integer Value.Proper := by
  refine (yields_marked _ _).orElse ((yields_marked _ _).orElse ((yields_marked _ _).orElse ?_))
  exact yields_bind fun _ => yields_bind fun _ => yields_inRange _

theorem yields_float : Yields float Value.Proper := by
  have hdigits : Yields floatDigits Value.Proper :=
    yields_bind fun _ => yields_bind fun _ => yields_bind fun _ =>
      yields_ite yields_failure (yields_pure (.float _))
  have hword : Yields floatWord Value.Proper :=
    yields_bind fun _ => yields_bind fun _ =>
      yields_ite (yields_pure (.float _)) (yields_bind fun _ => yields_pure (.float _))
  exact hdigits.orElse hword

theorem yields_scalar : Yields scalar Value.Proper := by
  refine yields_bind fun text => ?_
  split
  · exact yields_bind fun _ => yields_pure (.str _)
  · exact yields_bind fun _ => yields_pure (.str _)
  · exact yields_bool.orElse (yields_datetime.orElse (yields_float.orElse yields_integer))

/-! ## Values with parts -/

section Parts

variable {r : Reader Value}

theorem yields_elements (hr : Yields r Value.Proper) (fuel : Nat) :
    Yields (elements r fuel) fun items => ∀ v ∈ items, v.Proper := by
  induction fuel with
  | zero => exact yields_failure
  | succ fuel ih =>
    refine yields_bind fun _ => yields_bind fun closed => yields_ite (yields_pure (by simp)) ?_
    refine hr.bind fun v hv => yields_bind fun _ => yields_bind fun comma => yields_ite ?_ ?_
    · exact ih.bind fun items hitems => yields_pure (List.forall_mem_cons.2 ⟨hv, hitems⟩)
    · exact yields_bind fun _ => yields_pure (by simpa using hv)

theorem yields_array (hr : Yields r Value.Proper) : Yields (array r) Value.Proper :=
  yields_bind fun _ => yields_bind fun _ =>
    (yields_elements hr _).bind fun _ hitems => yields_pure (.array hitems)

theorem yields_setting (hr : Yields r Value.Proper) : Yields (setting r) fun s => s.2.Proper :=
  yields_bind fun _ => yields_bind fun _ => yields_bind fun _ =>
    hr.bind fun _ hv => yields_pure hv

theorem yields_settings (hr : Yields r Value.Proper) (fuel : Nat) :
    Yields (settings r fuel) fun all => ∀ s ∈ all, s.2.Proper := by
  induction fuel with
  | zero => exact yields_failure
  | succ fuel ih =>
    refine (yields_setting hr).bind fun s hs => yields_bind fun _ => yields_bind fun comma =>
      yields_ite ?_ ?_
    · exact ih.bind fun all hall => yields_pure (List.forall_mem_cons.2 ⟨hs, hall⟩)
    · exact yields_bind fun _ => yields_pure (by simpa using hs)

/-- A table that settings with proper values are assigned to one by one stays proper. -/
theorem proper_of_foldlM_assign {all : List ((List String × String) × Value)}
    (hall : ∀ s ∈ all, s.2.Proper) {d d' : Draft} (hd : d.Proper)
    (h : all.foldlM (fun (d : Draft) s => Draft.assign s.1.2 s.2 s.1.1 d) d = some d') :
    d'.Proper := by
  induction all generalizing d with
  | nil =>
    cases h
    exact hd
  | cons s all ih =>
    obtain ⟨hs, hrest⟩ := List.forall_mem_cons.1 hall
    obtain ⟨next, hnext, hlast⟩ := Option.bind_eq_some_iff.1 h
    exact ih hrest (Draft.keeps_assign _ hs _ _ _ hd hnext) hlast

theorem yields_inlineTable (hr : Yields r Value.Proper) : Yields (inlineTable r) Value.Proper := by
  refine yields_bind fun _ => yields_bind fun _ => yields_bind fun closed => yields_ite ?_ ?_
  · exact yields_pure (.table List.nodup_nil (by simp))
  · refine yields_bind fun _ => (yields_settings hr _).bind fun all hall => ?_
    refine (yields_lift (P := Draft.Proper) fun d hd => ?_).bind fun d hd => yields_pure ?_
    · exact proper_of_foldlM_assign hall Draft.proper_nil hd
    · exact (Draft.proper_toEntries hd).table

theorem yields_value (layers : Nat) : Yields (value layers) Value.Proper := by
  induction layers with
  | zero => exact yields_scalar
  | succ layers ih => exact (yields_array ih).orElse ((yields_inlineTable ih).orElse yields_scalar)

end Parts

/-! ## Documents -/

/-- Whether the value of a statement is proper, if it has one. -/
def Statement.Proper : Statement → Prop
  | .table _ _ => True
  | .element _ _ => True
  | .setting _ _ v => v.Proper

theorem yields_header : Yields header Statement.Proper :=
  yields_bind fun _ => yields_ite
    (yields_bind fun _ => yields_bind fun _ => yields_pure trivial)
    (yields_bind fun _ => yields_bind fun _ => yields_bind fun _ => yields_pure trivial)

theorem yields_statement : Yields statement Statement.Proper := by
  refine yields_bind fun text => ?_
  split
  · exact yields_header
  · exact (yields_setting (yields_value depthLimit)).bind fun s hs => yields_pure hs

theorem yields_statements (fuel : Nat) :
    Yields (statements fuel) fun all => ∀ s ∈ all, s.Proper := by
  induction fuel with
  | zero => exact yields_failure
  | succ fuel ih =>
    refine yields_bind fun _ => yields_bind fun text => ?_
    split
    · exact yields_pure (by simp)
    · exact yields_bind fun _ => ih
    · exact yields_bind fun _ => ih
    · exact yields_bind fun _ => ih
    · refine yields_statement.bind fun s hs => yields_bind fun _ => ih.bind fun all hall => ?_
      exact yields_pure (List.forall_mem_cons.2 ⟨hs, hall⟩)

namespace Document

theorem proper_add {d d' : Document} {s : Statement} (hd : d.top.Proper) (hs : s.Proper)
    (h : d.add s = some d') : d'.top.Proper := by
  cases s with
  | table path last =>
    obtain ⟨top, htop, heq⟩ := Option.bind_eq_some_iff.1 h
    cases heq
    exact Draft.keeps_within (Draft.keeps_openTable last) path _ _ hd htop
  | element path last =>
    obtain ⟨top, htop, heq⟩ := Option.bind_eq_some_iff.1 h
    cases heq
    exact Draft.keeps_within (Draft.keeps_openElement last) path _ _ hd htop
  | setting path last v =>
    obtain ⟨top, htop, heq⟩ := Option.bind_eq_some_iff.1 h
    cases heq
    exact Draft.keeps_within (Draft.keeps_assign last hs path) d.current _ _ hd htop

theorem proper_addAll {all : List Statement} (hall : ∀ s ∈ all, s.Proper) {d d' : Document}
    (hd : d.top.Proper) (h : all.foldlM add d = some d') : d'.top.Proper := by
  induction all generalizing d with
  | nil =>
    cases h
    exact hd
  | cons s all ih =>
    obtain ⟨hs, hrest⟩ := List.forall_mem_cons.1 hall
    obtain ⟨next, hnext, hlast⟩ := Option.bind_eq_some_iff.1 h
    exact ih hrest (proper_add hd hs hnext) hlast

/-- No table of a document has a key twice. -/
theorem proper_of_read? {text : String} {entries : Entries} (h : read? text = some entries) :
    entries.Proper := by
  obtain ⟨⟨all, rest⟩, hall, h⟩ := Option.bind_eq_some_iff.1 h
  obtain ⟨d, hd, heq⟩ := Option.bind_eq_some_iff.1 h
  cases heq
  exact Draft.proper_toEntries
    (proper_addAll (yields_statements _ _ _ _ hall) Draft.proper_nil hd)

end Document

end Sparring.Toml
