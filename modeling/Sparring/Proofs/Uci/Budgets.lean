import Sparring.Proofs.Text.Words
import Sparring.Proofs.Uci.Framing

/-!
# Budgets on the way to an engine

The budgets of a profile become the limits of a search, and the limits become words of the line
that starts the search. `Budgets.read?` goes the other way: it reads the budgets off a `go` line,
and gives back those of the profile (`budgets_account`). So two profiles have the same line exactly
if their budgets are the same.

A `go` line names its limits, each with its number in the word after the name, and it does not
matter in which order they come, how many blanks there are between the words or what else is named:
to read a line is to look the names up in its settings (`Budgets.read?_of_settings`). What could go
wrong is that a number is taken for a name; but numbers consist of digits, and no limit has a name
that does.
-/

namespace Sparring.Uci

/-! ## Reading a `go` line -/

/-- The number that a word writes, if it is a row of digits. -/
def readNumber? (word : List Char) : Option Nat :=
  if word.isEmpty ∨ ¬word.all Char.isDigit then none else some (natOfDigits word)

/-- The number in the word after a name. -/
def numberAfter? (name : String) : List (List Char) → Option Nat
  | [] => none
  | word :: rest =>
    if word = name.toList then rest.head?.bind readNumber? else numberAfter? name rest

/-- A limit that need not be named, and is zero if it is not. -/
def limitIn? (name : String) (ws : List (List Char)) : Option Nat :=
  if name.toList ∈ ws then numberAfter? name ws else some 0

/-- How much a search may spend, where a depth or a number of nodes of zero is no limit. -/
structure Budgets where
  /-- Milliseconds. -/
  time : Nat
  depth : Nat
  nodes : Nat
deriving DecidableEq, Repr

namespace Budgets

/-- The budgets of a profile. -/
def ofProfile (p : Profile) : Budgets where
  time := p.timeBudget.toNat
  depth := p.depthBudget.toNat
  nodes := p.nodeBudget.toNat

/-- Reads a `go` line. It has to limit the time, and each limit that it names needs its number. -/
def read? (line : List Char) : Option Budgets :=
  match words line with
  | [] => none
  | first :: rest =>
    if first = "go".toList then do
      let time ← numberAfter? "movetime" rest
      let depth ← limitIn? "depth" rest
      let nodes ← limitIn? "nodes" rest
      return { time, depth, nodes }
    else none

end Budgets

/-! ## Settings as words -/

/-- The words of settings: each is a name and its number. -/
def settingWords (settings : List (String × Nat)) : List (List Char) :=
  settings.flatMap fun s => [s.1.toList, digitsOfNat s.2]

theorem all_isDigit_digitsOfNat (n : Nat) : (digitsOfNat n).all Char.isDigit = true :=
  List.all_eq_true.2 fun _ hc => Nat.isDigit_of_mem_toDigits (by decide) (by decide) hc

theorem readNumber?_digitsOfNat (n : Nat) : readNumber? (digitsOfNat n) = some n := by
  have hne : (digitsOfNat n).isEmpty = false := by
    rw [List.isEmpty_eq_false_iff]
    exact Nat.toDigits_ne_nil
  rw [readNumber?, if_neg (by simp [hne, all_isDigit_digitsOfNat]), natOfDigits_digitsOfNat]

section Settings

variable {name : String} (hname : ¬name.toList.all Char.isDigit)

include hname

theorem digitsOfNat_ne_name (n : Nat) : digitsOfNat n ≠ name.toList := fun h =>
  hname (h ▸ all_isDigit_digitsOfNat n)

/-- A number is found where its name is first set. -/
theorem numberAfter?_settingWords (settings : List (String × Nat)) :
    numberAfter? name (settingWords settings) = settings.lookup name := by
  induction settings with
  | nil => rfl
  | cons s settings ih =>
    obtain ⟨key, n⟩ := s
    rw [settingWords, List.flatMap_cons, List.cons_append, numberAfter?, List.lookup_cons]
    by_cases hkey : key = name
    · subst hkey
      rw [if_pos rfl, List.cons_append, List.head?_cons, Option.bind_some,
        readNumber?_digitsOfNat, beq_self_eq_true]
    · -- Both words of another setting are passed over.
      rw [if_neg (mt String.toList_inj.1 hkey), List.cons_append, numberAfter?,
        if_neg (digitsOfNat_ne_name hname n), List.nil_append, beq_false_of_ne (Ne.symm hkey)]
      exact ih

theorem mem_settingWords_iff (settings : List (String × Nat)) :
    name.toList ∈ settingWords settings ↔ (settings.lookup name).isSome = true := by
  induction settings with
  | nil => simp [settingWords]
  | cons s settings ih =>
    obtain ⟨key, n⟩ := s
    rw [settingWords, List.flatMap_cons, List.mem_append, List.lookup_cons]
    by_cases hkey : name = key
    · subst hkey
      simp
    · have hnumber := (digitsOfNat_ne_name hname n).symm
      have hhead : name.toList ∉ [key.toList, digitsOfNat n] := by
        simp [hnumber, String.toList_inj, hkey]
      rw [beq_false_of_ne hkey, ← ih]
      exact or_iff_right hhead

theorem limitIn?_settingWords (settings : List (String × Nat)) :
    limitIn? name (settingWords settings) = some ((settings.lookup name).getD 0) := by
  rw [limitIn?, numberAfter?_settingWords hname]
  cases hlookup : settings.lookup name with
  | none => exact if_neg (by rw [mem_settingWords_iff hname, hlookup]; exact Bool.false_ne_true)
  | some n => exact if_pos (by rw [mem_settingWords_iff hname, hlookup]; rfl)

end Settings

/-- Whatever a `go` line sets, in any order and between any blanks, the budgets are read by looking
them up. -/
theorem Budgets.read?_of_settings {line : List Char} {settings : List (String × Nat)}
    (h : words line = "go".toList :: settingWords settings) :
    read? line = (settings.lookup "movetime").map fun time =>
      { time
        depth := (settings.lookup "depth").getD 0
        nodes := (settings.lookup "nodes").getD 0 } := by
  unfold read?
  rw [h]
  simp only [if_true]
  rw [numberAfter?_settingWords (by decide), limitIn?_settingWords (by decide),
    limitIn?_settingWords (by decide)]
  cases settings.lookup "movetime" <;> rfl

/-- Other words than those that limit the search are passed over. -/
example : Budgets.read? "go  nodes 1 infinite wtime 300 movetime 200".toList =
    some ⟨200, 0, 1⟩ := by
  decide

/-! ## The line that starts a search -/

/-- The settings of the line that starts a search. -/
def settingsOf (l : SearchLimits) : List (String × Nat) :=
  ("movetime", l.moveTime.toNat) ::
    ((l.depth.map fun depth => ("depth", depth.toNat)).toList ++
      (l.nodes.map fun nodes => ("nodes", nodes.toNat)).toList)

theorem lookup_settingsOf (l : SearchLimits) :
    (settingsOf l).lookup "movetime" = some l.moveTime.toNat ∧
      (settingsOf l).lookup "depth" = l.depth.map UInt32.toNat ∧
      (settingsOf l).lookup "nodes" = l.nodes.map UInt64.toNat := by
  obtain ⟨time, depth, nodes⟩ := l
  cases depth <;> cases nodes <;> exact ⟨rfl, rfl, rfl⟩

theorem toList_toString (n : Nat) : (toString n).toList = digitsOfNat n := Nat.toList_repr

theorem isWord_digitsOfNat (n : Nat) : IsWord (digitsOfNat n) :=
  ⟨Nat.toDigits_ne_nil, fun c hc =>
    isBlank_of_isDigit (List.all_eq_true.1 (all_isDigit_digitsOfNat n) c hc)⟩

theorem isWord_of_mem_settingsOf {l : SearchLimits} {s : String × Nat} (h : s ∈ settingsOf l) :
    IsWord s.1.toList := by
  obtain ⟨time, depth, nodes⟩ := l
  simp only [settingsOf, List.mem_cons, List.mem_append, Option.mem_toList,
    Option.map_eq_some_iff] at h
  rcases h with rfl | ⟨d, -, rfl⟩ | ⟨n, -, rfl⟩
  · exact (by decide : IsWord "movetime".toList)
  · exact (by decide : IsWord "depth".toList)
  · exact (by decide : IsWord "nodes".toList)

/-- The line that starts a search consists of `go` and the settings. -/
theorem goCommand_eq (l : SearchLimits) : goCommand l =
    " ".intercalate ("go" :: (settingsOf l).flatMap fun s => [s.1, toString s.2]) := by
  obtain ⟨time, depth, nodes⟩ := l
  cases depth <;> cases nodes <;> rfl

theorem words_goCommand (l : SearchLimits) :
    words (goCommand l).toList = "go".toList :: settingWords (settingsOf l) := by
  have hwords : ∀ w ∈ "go" :: (settingsOf l).flatMap fun s => [s.1, toString s.2],
      IsWord w.toList := by
    rw [List.forall_mem_cons]
    refine ⟨by decide, fun w hw => ?_⟩
    obtain ⟨s, hs, hw⟩ := List.mem_flatMap.1 hw
    simp only [List.mem_cons, List.not_mem_nil, or_false] at hw
    rcases hw with rfl | rfl
    · exact isWord_of_mem_settingsOf hs
    · rw [toList_toString]
      exact isWord_digitsOfNat s.2
  rw [goCommand_eq, words_intercalate hwords, List.map_cons, List.map_flatMap]
  simp only [List.map_cons, List.map_nil, toList_toString]
  rfl

/-- An engine reads the limits of its search off the line that starts it. -/
theorem Budgets.read?_goCommand (l : SearchLimits) : read? (goCommand l).toList = some
    { time := l.moveTime.toNat
      depth := (l.depth.map UInt32.toNat).getD 0
      nodes := (l.nodes.map UInt64.toNat).getD 0 } := by
  obtain ⟨htime, hdepth, hnodes⟩ := lookup_settingsOf l
  rw [read?_of_settings (words_goCommand l), htime, hdepth, hnodes]
  rfl

theorem mem_words_goCommand_iff {name : String} (hname : ¬name.toList.all Char.isDigit)
    (hgo : name ≠ "go") (l : SearchLimits) :
    name.toList ∈ words (goCommand l).toList ↔ ((settingsOf l).lookup name).isSome = true := by
  rw [words_goCommand, List.mem_cons, mem_settingWords_iff hname]
  exact or_iff_right (mt String.toList_inj.1 hgo)

/-! ## The budgets of a profile -/

/-- A budget of zero is left out, and stands for itself again when it is missed. -/
theorem Budgets.read?_limits (p : Profile) :
    read? (goCommand p.limits).toList = some (ofProfile p) := by
  rw [read?_goCommand, SearchLimits.moveTime, Profile.limits, Duration.toNat_millis_ofMillis,
    ofProfile]
  by_cases hdepth : p.depthBudget = 0 <;> by_cases hnodes : p.nodeBudget = 0 <;>
    simp [hdepth, hnodes]

/-- What becomes of the budgets of a profile in the line that starts a search. -/
structure BudgetsAccount (p : Profile) : Prop where
  /-- The budgets are read off the line again. -/
  read : Budgets.read? (goCommand p.limits).toList = some (Budgets.ofProfile p)
  /-- The depth and the number of nodes are named in it unless they are zero. -/
  depth : p.depthBudget = 0 ↔ "depth".toList ∉ words (goCommand p.limits).toList
  nodes : p.nodeBudget = 0 ↔ "nodes".toList ∉ words (goCommand p.limits).toList
  /-- Exactly the profiles with these budgets have this line. -/
  same : ∀ q : Profile, goCommand p.limits = goCommand q.limits ↔
    p.timeBudget = q.timeBudget ∧ p.depthBudget = q.depthBudget ∧ p.nodeBudget = q.nodeBudget
  /-- It is a single line. -/
  line : linesIn (goCommand p.limits) = [(goCommand p.limits).toList]

/-- The budgets of a profile reach the engine, and nothing else of the profile does. -/
theorem budgets_account (p : Profile) : BudgetsAccount p := by
  obtain ⟨-, hdepth, hnodes⟩ := lookup_settingsOf p.limits
  refine ⟨Budgets.read?_limits p, ?_, ?_, fun q => ⟨fun h => ?_, fun h => ?_⟩,
    linesIn_of_not_hasLineBreak (not_hasLineBreak_goCommand p.limits)⟩
  · rw [mem_words_goCommand_iff (by decide) (by decide), hdepth, Profile.limits]
    by_cases hzero : p.depthBudget = 0 <;> simp [hzero]
  · rw [mem_words_goCommand_iff (by decide) (by decide), hnodes, Profile.limits]
    by_cases hzero : p.nodeBudget = 0 <;> simp [hzero]
  · have hread := Budgets.read?_limits p
    rw [h, Budgets.read?_limits q] at hread
    obtain ⟨htime, hdepth, hnodes⟩ := Budgets.mk.inj (Option.some.inj hread)
    exact ⟨(UInt64.toNat_inj.1 htime).symm, (UInt32.toNat_inj.1 hdepth).symm,
      (UInt64.toNat_inj.1 hnodes).symm⟩
  · rw [Profile.limits, Profile.limits, h.1, h.2.1, h.2.2]

end Sparring.Uci
