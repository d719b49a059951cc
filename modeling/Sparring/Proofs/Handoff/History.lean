import Sparring.Proofs.Handoff.Slot
import Sparring.Proofs.Run

/-!
# What a history of steps determines

A history is a list of steps on a new handoff. Everything a handoff ever says is a function of
it: which numbers were issued, which search is armed, and what each waiter gets.

The waiter of a search `n` is decided by the first step after its arming that *resolves* `n`: a
completion of any kind, or the disarming of `n` itself. Until then its search is armed and it
waits; from then on its mailbox holds the *verdict* of that step, whatever else happens, until
the waiter collects it or leaves.

**Theorem (`account`).** Numbers are issued in order and without gaps; the slot is armed with the
last of them exactly while nothing has resolved it; each waiter is told the verdict of the first
step that resolves its search, once; and a waiter that leaves is missed by nobody else.
-/

namespace Sparring.Handoff

/-- The handoff after a step. -/
def advance (h : Handoff) (step : Step) : Handoff := (h.perform step).2.2

/-- The handoff after a row of steps. -/
def run (h : Handoff) (steps : List Step) : Handoff := steps.foldl advance h

/-- The number that a step issues, if it does. -/
def issuedBy (h : Handoff) (step : Step) : List SearchId :=
  match (h.perform step).1 with
  | .armed n => [n]
  | _ => []

/-- The numbers issued in a row of steps, in order. -/
def numbers (h : Handoff) (steps : List Step) : List SearchId := observe advance issuedBy h steps

/-- The reply that a step gives to the waiter of `n`, if it does. -/
def replyTo (n : SearchId) (h : Handoff) (step : Step) : List Reply :=
  match step, (h.perform step).1 with
  | .collect m, .collected (.reply r) => if m = n then [r] else []
  | _, _ => []

/-- The replies given to the waiter of `n` in a row of steps. -/
def replies (h : Handoff) (n : SearchId) (steps : List Step) : List Reply :=
  observe advance (replyTo n) h steps

/-! ## Resolving a search -/

/-- A step that decides what the waiter of `n` gets, if nothing has decided it before. -/
def Step.resolves (n : SearchId) : Step → Bool
  | .fulfill _ | .deliver _ => true
  | .disarm m => m = n
  | _ => false

/-- What the waiter of `n` gets by a step that resolves `n`. -/
def Step.verdict (n : SearchId) : Step → Reply
  | .fulfill c | .deliver c => answer n c
  | _ => .error (.abandoned n)

/-- What has been decided for the waiter of `n` in the steps after its arming. -/
def verdict (n : SearchId) (steps : List Step) : Option Reply :=
  (steps.find? (·.resolves n)).map (·.verdict n)

/-- In the steps after the arming of `n`, its waiter has left or has got its reply. -/
def Gone (n : SearchId) (steps : List Step) : Prop :=
  .leave n ∈ steps ∨
    ∃ before after, steps = before ++ .collect n :: after ∧ verdict n before ≠ none

theorem verdict_concat (n : SearchId) (steps : List Step) (step : Step) :
    verdict n (steps ++ [step]) =
      (verdict n steps).or (if step.resolves n then some (step.verdict n) else none) := by
  unfold verdict
  rw [List.find?_append]
  cases steps.find? (·.resolves n) with
  | some _ => rfl
  | none => cases hr : step.resolves n <;> simp [hr]

theorem verdict_eq_none {n : SearchId} {steps : List Step} :
    verdict n steps = none ↔ ∀ step ∈ steps, step.resolves n = false := by
  simp [verdict]

theorem gone_concat {n : SearchId} {steps : List Step} {step : Step} :
    Gone n (steps ++ [step]) ↔
      Gone n steps ∨ step = .leave n ∨ step = .collect n ∧ verdict n steps ≠ none := by
  constructor
  · rintro (hl | ⟨before, after, he, hv⟩)
    · rcases List.mem_append.1 hl with hl | hl
      · exact Or.inl (Or.inl hl)
      · exact Or.inr (Or.inl (List.mem_singleton.1 hl).symm)
    · rcases concat_eq_append_cons.1 he with ⟨rfl, rfl, -⟩ | ⟨rest, -, rfl⟩
      · exact Or.inr (Or.inr ⟨rfl, hv⟩)
      · exact Or.inl (Or.inr ⟨before, rest, rfl, hv⟩)
  · rintro ((hl | ⟨before, after, rfl, hv⟩) | rfl | ⟨rfl, hv⟩)
    · exact Or.inl (List.mem_append_left _ hl)
    · exact Or.inr ⟨before, after ++ [step], by simp, hv⟩
    · exact Or.inl (by simp)
    · exact Or.inr ⟨steps, [], rfl, hv⟩

/-! ## The life of one search -/

theorem run_concat (h : Handoff) (steps : List Step) (step : Step) :
    h.run (steps ++ [step]) = (h.run steps).advance step := by
  simp [run]

theorem run_append (h : Handoff) (xs ys : List Step) : h.run (xs ++ ys) = (h.run xs).run ys := by
  simp [run]

theorem Sound.run {h : Handoff} (hs : h.Sound) (steps : List Step) : (h.run steps).Sound := by
  induction steps generalizing h with
  | nil => exact hs
  | cons step steps ih => exact ih (hs.perform step)

/-- An arming that is refused changes nothing, and one that is not issues the next number. -/
theorem advance_arm (h : Handoff) : h.advance .arm = h.arm.2 := by
  cases ha : h.armed with
  | some m => simp [advance, perform, arm_of_armed ha]
  | none => simp [advance, perform, arm_of_empty ha]

/-- A step issues the next number or none, and only an arming issues one. -/
theorem issuedBy_cases (h : Handoff) (step : Step) :
    h.issuedBy step = [] ∧ (h.advance step).issued = h.issued ∨
      step = .arm ∧ h.armed = none ∧ h.issuedBy step = [⟨h.issued + 1⟩] ∧
        (h.advance step).issued = h.issued + 1 := by
  cases step with
  | arm =>
    cases ha : h.armed with
    | some m => exact Or.inl (by simp [issuedBy, advance, perform, arm_of_armed ha])
    | none => exact Or.inr (by simp [issuedBy, advance, perform, arm_of_empty ha])
  | fulfill c | deliver c =>
    refine Or.inl ⟨?_, issued_fulfill h c⟩
    rcases hf : h.fulfill c with ⟨_ | _, _⟩ <;> simp [issuedBy, perform, hf, Report.ofExcept]
  | disarm m => exact Or.inl ⟨rfl, issued_disarm h m⟩
  | collect m => exact Or.inl ⟨rfl, issued_collect h m⟩
  | leave m => exact Or.inl ⟨rfl, issued_leave h m⟩
  | escalate _ => exact Or.inl ⟨rfl, rfl⟩

theorem issued_le_advance (h : Handoff) (step : Step) : h.issued ≤ (h.advance step).issued := by
  rcases h.issuedBy_cases step with ⟨-, hi⟩ | ⟨-, -, -, hi⟩ <;> omega

/-- A search that was issued stays armed until a step resolves it, and is never armed again. -/
theorem armed_advance {h : Handoff} {n : SearchId} (hn : n.number ≤ h.issued) (step : Step) :
    (h.advance step).armed = some n ↔ h.armed = some n ∧ step.resolves n = false := by
  cases step with
  | arm =>
    rw [advance_arm]
    cases ha : h.armed with
    | some m => simp [arm_of_armed ha, ha, Step.resolves]
    | none =>
      have hne : (⟨h.issued + 1⟩ : SearchId) ≠ n := by
        rintro rfl
        exact Nat.not_succ_le_self _ hn
      simp [arm_of_empty ha, hne]
  | fulfill c | deliver c => simp [advance, perform, Step.resolves]
  | disarm m =>
    have harmed : (h.advance (.disarm m)).armed = if h.armed = some m then none else h.armed :=
      armed_disarm h m
    rw [harmed]
    by_cases hm : m = n
    · subst hm
      by_cases ha : h.armed = some m <;> simp [ha, Step.resolves]
    · by_cases ha : h.armed = some m <;> simp [ha, hm, Step.resolves]
  | collect m => simp [advance, perform, Step.resolves]
  | leave m => simp [advance, perform, Step.resolves]
  | escalate _ => simp [advance, perform, Step.resolves]

/-- A mailbox that is gone does not come back. -/
theorem box?_advance_none {h : Handoff} (hs : h.Sound) {n : SearchId} (hn : n.number ≤ h.issued)
    (hb : h.box? n = none) (step : Step) : (h.advance step).box? n = none := by
  cases step with
  | arm =>
    rw [advance_arm]
    cases ha : h.armed with
    | some m => rw [arm_of_armed ha]; exact hb
    | none =>
      have hne : n ≠ ⟨h.issued + 1⟩ := by
        rintro rfl
        exact Nat.not_succ_le_self _ hn
      rw [hs.box?_arm ha, if_neg hne, hb]
  | fulfill c | deliver c => exact (box?_fulfill h n c).trans (by simp [hb])
  | disarm m => exact (box?_disarm h m n).trans (by simp [hb])
  | collect m => exact (box?_collect h m n).trans (by simp [hb])
  | leave m => exact (box?_leave h m n).trans (by simp [hb])
  | escalate _ => exact hb

/-- What a step does to a mailbox that it does not take away: it leaves the content, or puts in
the verdict if there is none. -/
theorem box?_advance {h : Handoff} (hs : h.Sound) {n : SearchId} (hn : n.number ≤ h.issued)
    {content : Option Reply} (hb : h.box? n = some content) {step : Step}
    (hleave : step ≠ .leave n) (hcollect : step = .collect n → content = none) :
    (h.advance step).box? n =
      some (content.or (if step.resolves n then some (step.verdict n) else none)) := by
  -- The content is there exactly when the search is not armed any more.
  have hcontent : h.armed = some n ∧ content = none ∨ h.armed ≠ some n ∧ ∃ r, content = some r := by
    cases content with
    | none => exact Or.inl ⟨hs.armed_of_pending n hb, rfl⟩
    | some r => exact Or.inr ⟨fun ha => hs.pending_of_armed n r ha hb, r, rfl⟩
  cases step with
  | arm =>
    rw [advance_arm]
    cases ha : h.armed with
    | some m => simp [arm_of_armed ha, hb, Step.resolves]
    | none =>
      have hne : n ≠ ⟨h.issued + 1⟩ := by
        rintro rfl
        exact Nat.not_succ_le_self _ hn
      simp [hs.box?_arm ha, hne, hb, Step.resolves]
  | fulfill c | deliver c =>
    refine (box?_fulfill h n c).trans ?_
    obtain ⟨ha, rfl⟩ | ⟨ha, r, rfl⟩ := hcontent
    · simp [ha, hb, Step.resolves, Step.verdict]
    · simp [ha, hb]
  | disarm m =>
    refine (box?_disarm h m n).trans ?_
    obtain ⟨ha, rfl⟩ | ⟨ha, r, rfl⟩ := hcontent
    · by_cases hm : m = n
      · subst hm
        simp [ha, hb, Step.resolves, Step.verdict]
      · simp [hb, hm, Ne.symm hm, Step.resolves]
    · have hnot : ¬(h.armed = some m ∧ n = m) := by
        rintro ⟨hm, rfl⟩
        exact ha hm
      simp [hnot, hb]
  | collect m =>
    refine (box?_collect h m n).trans ?_
    by_cases hm : m = n
    · subst hm
      have hnone := hcollect rfl
      subst hnone
      simp [hb, Step.resolves]
    · simp [hb, Ne.symm hm, Step.resolves]
  | leave m =>
    refine (box?_leave h m n).trans ?_
    have hm : n ≠ m := fun hm => hleave (by rw [hm])
    simp [hb, hm, Step.resolves]
  | escalate _ => simp [advance, perform, hb, Step.resolves]

section Life

variable {h : Handoff} {n : SearchId} (hs : h.Sound) (ha : h.arm.1 = .ok n)

include ha in
theorem arm_eq_of_issued : n = ⟨h.issued + 1⟩ ∧ h.armed = none := by
  cases he : h.armed with
  | some m => simp [arm_of_armed he] at ha
  | none =>
    rw [arm_of_empty he] at ha
    exact ⟨(Except.ok.inj ha).symm, rfl⟩

include ha in
theorem number_le_issued (steps : List Step) : n.number ≤ (h.arm.2.run steps).issued := by
  induction steps using List.reverseRecOn with
  | nil =>
    obtain ⟨rfl, he⟩ := arm_eq_of_issued ha
    simp [run, arm_of_empty he]
  | append_singleton steps step ih =>
    rw [run_concat]
    exact Nat.le_trans ih (issued_le_advance _ step)

include ha in
/-- A search is armed until something is decided for its waiter. -/
theorem armed_run_iff (steps : List Step) :
    (h.arm.2.run steps).armed = some n ↔ verdict n steps = none := by
  induction steps using List.reverseRecOn with
  | nil =>
    obtain ⟨rfl, he⟩ := arm_eq_of_issued ha
    simp [run, arm_of_empty he, verdict]
  | append_singleton steps step ih =>
    rw [run_concat, armed_advance (number_le_issued ha steps), ih, verdict_concat]
    cases verdict n steps <;> cases step.resolves n <;> simp

include hs ha in
/-- A waiter that is still there finds in its mailbox what has been decided. -/
theorem box?_run {steps : List Step} (hg : ¬Gone n steps) :
    (h.arm.2.run steps).box? n = some (verdict n steps) := by
  induction steps using List.reverseRecOn with
  | nil =>
    obtain ⟨rfl, he⟩ := arm_eq_of_issued ha
    exact (hs.box?_arm he _).trans (by simp [verdict])
  | append_singleton steps step ih =>
    rw [gone_concat, not_or, not_or] at hg
    obtain ⟨hgone, hleave, hcollect⟩ := hg
    rw [run_concat, verdict_concat]
    refine box?_advance (hs.arm.run steps) (number_le_issued ha steps) (ih hgone) hleave ?_
    exact fun he => by_contra fun hv => hcollect ⟨he, hv⟩

include hs ha in
theorem box?_run_of_gone {steps : List Step} (hg : Gone n steps) :
    (h.arm.2.run steps).box? n = none := by
  induction steps using List.reverseRecOn with
  | nil => obtain hl | ⟨before, after, he, -⟩ := hg <;> simp_all
  | append_singleton steps step ih =>
    rw [run_concat]
    have hn := number_le_issued ha steps
    have hsound := hs.arm.run steps
    by_cases hgone : Gone n steps
    · exact box?_advance_none hsound hn (ih hgone) step
    · have hbox := box?_run hs ha hgone
      obtain hg | rfl | ⟨rfl, hv⟩ := gone_concat.1 hg
      · exact absurd hg hgone
      · exact (box?_leave _ n n).trans (if_pos rfl)
      · refine (box?_collect _ n n).trans (if_pos ⟨rfl, ?_⟩)
        rw [hbox]
        exact Option.isSome_iff_ne_none.2 hv

end Life

/-! ## The numbers of a history -/

/-- The numbers of a history are issued in order and without gaps. -/
theorem numbers_new (steps : List Step) :
    numbers new steps = (List.range (new.run steps).issued).map fun k => ⟨k + 1⟩ := by
  induction steps using List.reverseRecOn with
  | nil => rfl
  | append_singleton steps step ih =>
    rw [numbers, observe_concat, run_concat]
    change numbers new steps ++ issuedBy (new.run steps) step = _
    rcases (new.run steps).issuedBy_cases step with ⟨hb, hi⟩ | ⟨-, -, hb, hi⟩
    · rw [hb, hi, ih, List.append_nil]
    · rw [hb, hi, ih, List.range_succ, List.map_append, List.map_singleton]

theorem arm_issues {h : Handoff} {n : SearchId} : n ∈ h.issuedBy .arm ↔ h.arm.1 = .ok n := by
  cases ha : h.armed with
  | some m => simp [issuedBy, perform, arm_of_armed ha]
  | none => simp [issuedBy, perform, arm_of_empty ha, eq_comm]

/-- A number of a history was issued by one of its armings. -/
theorem exists_arm_of_mem_numbers {steps : List Step} {n : SearchId}
    (hn : n ∈ numbers new steps) :
    ∃ before after, steps = before ++ .arm :: after ∧ (new.run before).arm.1 = .ok n := by
  obtain ⟨before, step, after, rfl, hmem⟩ := mem_observe.1 hn
  change n ∈ (new.run before).issuedBy step at hmem
  rcases (new.run before).issuedBy_cases step with ⟨hb, -⟩ | ⟨rfl, -⟩
  · rw [hb] at hmem
    cases hmem
  · exact ⟨before, after, rfl, arm_issues.1 hmem⟩

theorem mem_numbers_of_armed {steps : List Step} {n : SearchId}
    (ha : (new.run steps).armed = some n) : n ∈ numbers new steps := by
  induction steps using List.reverseRecOn with
  | nil => cases ha
  | append_singleton steps step ih =>
    rw [numbers, observe_concat]
    change n ∈ numbers new steps ++ issuedBy (new.run steps) step
    rw [run_concat] at ha
    by_cases hn : n.number ≤ (new.run steps).issued
    · exact List.mem_append_left _ (ih ((armed_advance hn step).1 ha).1)
    · -- The number is new, so this step has issued it.
      have hlast := (sound_new.run steps |>.perform step).armed_last n ha
      rcases (new.run steps).issuedBy_cases step with ⟨-, hi⟩ | ⟨-, -, hb, hi⟩
      · exact absurd (Nat.le_of_eq (hlast.trans hi)) hn
      · have he : n = ⟨(new.run steps).issued + 1⟩ :=
          congrArg SearchId.mk (hlast.trans hi)
        rw [hb, he]
        simp

theorem getLast?_numbers_of_armed {steps : List Step} {n : SearchId}
    (ha : (new.run steps).armed = some n) : (numbers new steps).getLast? = some n := by
  have hmem := mem_numbers_of_armed ha
  have hlast := (sound_new.run steps).armed_last n ha
  rw [numbers_new] at hmem ⊢
  obtain ⟨k, hk, rfl⟩ := List.mem_map.1 hmem
  rw [← hlast, List.range_succ]
  simp

/-! ## One reply for each waiter -/

theorem replyTo_cases (h : Handoff) (n : SearchId) (step : Step) :
    h.replyTo n step = [] ∨ ∃ r, step = .collect n ∧ h.box? n = some (some r) := by
  cases step with
  | collect m =>
    by_cases hm : m = n
    · subst hm
      rcases hb : h.box? m with _ | _ | r
      · exact Or.inl (by simp [replyTo, perform, collect_eq, hb])
      · exact Or.inl (by simp [replyTo, perform, collect_eq, hb])
      · exact Or.inr ⟨r, rfl, rfl⟩
    · left
      unfold replyTo
      split <;> simp_all
  | _ => exact Or.inl rfl

/-- Nobody is told twice. -/
theorem length_replies_le_one (n : SearchId) (steps : List Step) :
    (replies new n steps).length ≤ 1 ∧
      (replies new n steps ≠ [] →
        n.number ≤ (new.run steps).issued ∧ (new.run steps).box? n = none) := by
  induction steps using List.reverseRecOn with
  | nil => simp [replies]
  | append_singleton steps step ih =>
    obtain ⟨hle, hgone⟩ := ih
    have hs := sound_new.run steps
    have hrw : replies new n (steps ++ [step]) =
        replies new n steps ++ replyTo n (new.run steps) step := observe_concat ..
    rw [hrw, run_concat]
    rcases (new.run steps).replyTo_cases n step with hr | ⟨r, rfl, hb⟩
    · rw [hr, List.append_nil]
      refine ⟨hle, ?_⟩
      intro hne
      obtain ⟨hn, hbox⟩ := hgone hne
      exact ⟨Nat.le_trans hn (issued_le_advance _ step), box?_advance_none hs hn hbox step⟩
    · -- Whoever finds a reply has not had one before, and leaves.
      have hnil : replies new n steps = [] := by
        by_contra hne
        rw [(hgone hne).2] at hb
        cases hb
      refine ⟨?_, fun _ => ⟨?_, ?_⟩⟩
      · rw [hnil]
        simp [replyTo, perform, collect_eq, hb]
      · exact Nat.le_trans (hs.issued_of_box n (by simp [hb])) (issued_le_advance _ _)
      · exact (box?_collect _ n n).trans (if_pos ⟨rfl, by rw [hb]; rfl⟩)

/-! ## A waiter that leaves -/

/-- The waiter that a step is about. -/
def Step.waiter? : Step → Option SearchId
  | .collect m | .leave m => some m
  | _ => none

/-- Two handoffs that differ at most in the mailbox of `n`. -/
structure Apart (n : SearchId) (h h' : Handoff) : Prop where
  armed : h.armed = h'.armed
  issued : h.issued = h'.issued
  box : ∀ m, m ≠ n → h.box? m = h'.box? m

theorem apart_leave (h : Handoff) (n : SearchId) : Apart n (h.leave n).2 h where
  armed := rfl
  issued := rfl
  box m hm := (box?_leave h n m).trans (if_neg hm)

section Apart

variable {n : SearchId} {h h' : Handoff}

theorem Apart.arm (ha : Apart n h h') :
    h.arm.1 = h'.arm.1 ∧ Apart n h.arm.2 h'.arm.2 := by
  cases he : h'.armed with
  | some m =>
    rw [arm_of_armed he, arm_of_armed (ha.armed.trans he)]
    exact ⟨rfl, ha⟩
  | none =>
    rw [arm_of_empty he, arm_of_empty (ha.armed.trans he), ha.issued]
    refine ⟨rfl, rfl, rfl, ?_⟩
    intro m hm
    have hbox := ha.box m hm
    simp only [box?] at hbox ⊢
    rw [List.lookup_append, List.lookup_append, hbox]

theorem Apart.fulfill (ha : Apart n h h') (c : Completion) :
    (h.fulfill c).1 = (h'.fulfill c).1 ∧ Apart n (h.fulfill c).2 (h'.fulfill c).2 := by
  refine ⟨?_, ?_, ?_, ?_⟩
  · unfold Handoff.fulfill
    rw [ha.armed]
    split
    · rfl
    · split <;> rfl
  · simp
  · simpa using ha.issued
  · intro m hm
    rw [box?_fulfill, box?_fulfill, ha.armed, ha.box m hm]

theorem Apart.disarm (ha : Apart n h h') (k : SearchId) :
    Apart n (h.disarm k) (h'.disarm k) where
  armed := by rw [armed_disarm, armed_disarm, ha.armed]
  issued := by rw [issued_disarm, issued_disarm, ha.issued]
  box m hm := by rw [box?_disarm, box?_disarm, ha.armed, ha.box m hm]

theorem Apart.collect (ha : Apart n h h') {k : SearchId} (hk : k ≠ n) :
    (h.collect k).1 = (h'.collect k).1 ∧ Apart n (h.collect k).2 (h'.collect k).2 := by
  refine ⟨?_, ?_, ?_, ?_⟩
  · rw [collect_eq, collect_eq, ha.box k hk]
    split <;> rfl
  · simpa using ha.armed
  · simpa using ha.issued
  · intro m hm
    rw [box?_collect, box?_collect, ha.box k hk, ha.box m hm]

theorem Apart.leave (ha : Apart n h h') {k : SearchId} (hk : k ≠ n) :
    (h.leave k).1 = (h'.leave k).1 ∧ Apart n (h.leave k).2 (h'.leave k).2 := by
  refine ⟨congrArg Option.isSome (ha.box k hk), ha.armed, ha.issued, ?_⟩
  intro m hm
  rw [box?_leave, box?_leave, ha.box m hm]

theorem Apart.perform (ha : Apart n h h') {step : Step} (hstep : step.waiter? ≠ some n) :
    (h.perform step).1 = (h'.perform step).1 ∧ (h.perform step).2.1 = (h'.perform step).2.1 ∧
      Apart n (h.perform step).2.2 (h'.perform step).2.2 := by
  cases step with
  | arm =>
    have hs := ha.arm.2
    cases he : h'.armed with
    | some m =>
      simp only [Handoff.perform, arm_of_armed he, arm_of_armed (ha.armed.trans he)]
      exact ⟨trivial, trivial, ha⟩
    | none =>
      rw [arm_of_empty he, arm_of_empty (ha.armed.trans he), ha.issued] at hs
      simp only [Handoff.perform, arm_of_empty he, arm_of_empty (ha.armed.trans he), ha.issued]
      exact ⟨trivial, trivial, hs⟩
  | fulfill c | deliver c =>
    obtain ⟨hr, hs⟩ := ha.fulfill c
    simp only [Handoff.perform, hr]
    exact ⟨trivial, trivial, hs⟩
  | disarm k => exact ⟨rfl, rfl, ha.disarm k⟩
  | collect k =>
    obtain ⟨hr, hs⟩ := ha.collect (k := k) fun hk => hstep (by rw [hk]; rfl)
    exact ⟨congrArg Report.collected hr, rfl, hs⟩
  | leave k =>
    obtain ⟨hr, hs⟩ := ha.leave (k := k) fun hk => hstep (by rw [hk]; rfl)
    exact ⟨congrArg Report.left hr, rfl, hs⟩
  | escalate e => exact ⟨rfl, rfl, ha⟩

/-- Steps that are not about the waiter of `n` show the same on both. -/
theorem Apart.transcript_eq (policy : FailurePolicy) (ha : Apart n h h') {steps : List Step}
    (hsteps : ∀ step ∈ steps, step.waiter? ≠ some n) :
    transcript policy h steps = transcript policy h' steps := by
  induction steps generalizing h h' with
  | nil => rfl
  | cons step steps ih =>
    obtain ⟨hr, he, hs⟩ := ha.perform (hsteps step (by simp))
    have hrest := ih hs fun step' hmem => hsteps step' (by simp [hmem])
    simp only [transcript, hr, he, hs.armed, hrest]

end Apart

/-- Where nothing that is escalated ends the process, a history is never cut short. -/
theorem aborted_transcript_respond (h : Handoff) (steps : List Step) :
    (transcript .respond h steps).aborted = false := by
  induction steps generalizing h with
  | nil => rfl
  | cons step steps ih =>
    have hgo : ((h.perform step).2.1.any FailurePolicy.respond.aborts) = false := by
      cases (h.perform step).2.1 <;> rfl
    simp only [transcript, hgo]
    exact ih _

/-! ## The account -/

/-- What a history on a new handoff says, step by step. In the fields about a search `n`, the
history is split at the arming that issued `n`. -/
structure Account (steps : List Step) : Prop where
  /-- The `k`-th number issued is `k`, and an arming that is refused uses up none. -/
  numbers_eq : numbers new steps =
    (List.range (numbers new steps).length).map fun k => ⟨k + 1⟩
  /-- The armed search is the last that was issued, and nothing has resolved it since. -/
  armed_iff : ∀ n, (new.run steps).armed = some n ↔
    (numbers new steps).getLast? = some n ∧
      ∃ before after, steps = before ++ .arm :: after ∧ (new.run before).arm.1 = .ok n ∧
        ∀ step ∈ after, step.resolves n = false
  /-- A waiter waits exactly while its search is armed. -/
  pending_iff : ∀ before after n, steps = before ++ .arm :: after →
    (new.run before).arm.1 = .ok n → ¬Gone n after →
    ((new.run steps).collect n = (.pending, new.run steps) ↔ (new.run steps).armed = some n)
  /-- It gets an outcome exactly when that was reported for its search, and before all else. -/
  ok_iff : ∀ before after n, steps = before ++ .arm :: after →
    (new.run before).arm.1 = .ok n → ¬Gone n after →
    ∀ o, ((new.run steps).collect n).1 = .reply (.ok o) ↔
      after.find? (·.resolves n) = some (.fulfill ⟨some n, o⟩) ∨
        after.find? (·.resolves n) = some (.deliver ⟨some n, o⟩)
  /-- It gets a mismatch exactly when the first completion was for something else. -/
  mismatch_iff : ∀ before after n, steps = before ++ .arm :: after →
    (new.run before).arm.1 = .ok n → ¬Gone n after →
    ∀ g, ((new.run steps).collect n).1 = .reply (.error (.mismatch n g)) ↔
      g ≠ some n ∧ ∃ o, after.find? (·.resolves n) = some (.fulfill ⟨g, o⟩) ∨
        after.find? (·.resolves n) = some (.deliver ⟨g, o⟩)
  /-- It is told that its search was abandoned exactly when that was disarmed before any
  completion. -/
  abandoned_iff : ∀ before after n, steps = before ++ .arm :: after →
    (new.run before).arm.1 = .ok n → ¬Gone n after →
    (((new.run steps).collect n).1 = .reply (.error (.abandoned n)) ↔
      after.find? (·.resolves n) = some (.disarm n))
  /-- There are no other replies. -/
  reply_cases : ∀ before after n, steps = before ++ .arm :: after →
    (new.run before).arm.1 = .ok n → ∀ r, ((new.run steps).collect n).1 = .reply r → Fits n r
  /-- A waiter that has its reply or has left is not there any more. -/
  unknown_of_gone : ∀ before after n, steps = before ++ .arm :: after →
    (new.run before).arm.1 = .ok n → Gone n after → ((new.run steps).collect n).1 = .unknown
  /-- No waiter gets two replies. -/
  replies_le_one : ∀ n, (replies new n steps).length ≤ 1
  /-- A waiter that leaves is missed by nobody else, and the slot does not notice. -/
  leave_unnoticed : ∀ n later, (∀ step ∈ later, step.waiter? ≠ some n) →
    ((new.run steps).leave n).2.armed = (new.run steps).armed ∧
      transcript .respond ((new.run steps).leave n).2 later =
        transcript .respond (new.run steps) later
  /-- Disarming a search that is not armed changes nothing. -/
  disarm_other : ∀ m, (new.run steps).armed ≠ some m →
    (new.run steps).disarm m = new.run steps
  /-- The history goes on to its end. -/
  not_aborted : (transcript .respond new steps).aborted = false

section Account

variable {before after : List Step} {n : SearchId} (ha : (new.run before).arm.1 = .ok n)

theorem run_split (before after : List Step) :
    new.run (before ++ .arm :: after) = (new.run before).arm.2.run after := by
  rw [run_append, ← advance_arm]
  rfl

include ha in
theorem collect_run_of_gone (hg : Gone n after) :
    ((new.run (before ++ .arm :: after)).collect n).1 = .unknown := by
  rw [run_split, collect_eq, box?_run_of_gone (sound_new.run before) ha hg]

include ha in
theorem collect_run (hg : ¬Gone n after) :
    (new.run (before ++ .arm :: after)).collect n =
      match verdict n after with
      | none => (.pending, new.run (before ++ .arm :: after))
      | some r => (.reply r, ((new.run (before ++ .arm :: after)).leave n).2) := by
  rw [run_split, collect_eq, box?_run (sound_new.run before) ha hg]
  cases verdict n after <;> rfl

include ha in
theorem collect_run_eq_reply (hg : ¬Gone n after) {r : Reply} :
    ((new.run (before ++ .arm :: after)).collect n).1 = .reply r ↔ verdict n after = some r := by
  rw [collect_run ha hg]
  cases verdict n after <;> simp

/-- What is decided comes from a completion, or from the disarming of the search. -/
theorem verdict_eq_some {n : SearchId} {steps : List Step} {r : Reply} :
    verdict n steps = some r ↔
      (∃ c, (steps.find? (·.resolves n) = some (.fulfill c) ∨
          steps.find? (·.resolves n) = some (.deliver c)) ∧ answer n c = r) ∨
        steps.find? (·.resolves n) = some (.disarm n) ∧ r = .error (.abandoned n) := by
  unfold verdict
  cases hfind : steps.find? (·.resolves n) with
  | none => simp
  | some step =>
    have hres := List.find?_some hfind
    cases step with
    | fulfill c | deliver c => simp [Step.verdict]
    | disarm m =>
      have hm : m = n := by simpa [Step.resolves] using hres
      simp [Step.verdict, hm, eq_comm]
    | _ => cases hres

theorem answer_eq_ok {n : SearchId} {c : Completion} {o : Outcome} :
    answer n c = .ok o ↔ c = ⟨some n, o⟩ := by
  obtain ⟨search, outcome⟩ := c
  by_cases hs : search = some n <;> simp [answer, hs]

theorem answer_eq_mismatch {n : SearchId} {c : Completion} {g : Option SearchId} :
    answer n c = .error (.mismatch n g) ↔ g ≠ some n ∧ c.search = g := by
  by_cases hs : c.search = some n
  · simp only [answer, hs, if_true, reduceCtorEq, false_iff, not_and]
    exact fun hg he => hg he.symm
  · simp only [answer, if_neg hs, Except.error.injEq, HandoffError.mismatch.injEq, true_and]
    exact ⟨fun he => ⟨he ▸ hs, he⟩, fun h => h.2⟩

theorem answer_ne_abandoned {n m : SearchId} {c : Completion} :
    answer n c ≠ .error (.abandoned m) := by
  unfold answer
  split <;> simp

end Account

/-- **Every history is accounted for.** -/
theorem account (steps : List Step) : Account steps where
  numbers_eq := by
    rw [numbers_new, List.length_map, List.length_range]
  armed_iff n := by
    constructor
    · intro harmed
      -- Cut the steps at the arming: what follows it alone decides.
      obtain ⟨before, after, rfl, ha⟩ := exists_arm_of_mem_numbers (mem_numbers_of_armed harmed)
      refine ⟨getLast?_numbers_of_armed harmed, before, after, rfl, ha, ?_⟩
      rw [run_split, armed_run_iff ha] at harmed
      exact verdict_eq_none.1 harmed
    · rintro ⟨-, before, after, rfl, ha, hafter⟩
      rw [run_split, armed_run_iff ha]
      exact verdict_eq_none.2 hafter
  pending_iff := by
    rintro before after n rfl ha hg
    rw [collect_run ha hg, run_split, armed_run_iff ha]
    cases verdict n after <;> simp
  ok_iff := by
    rintro before after n rfl ha hg o
    rw [collect_run_eq_reply ha hg, verdict_eq_some]
    simp [answer_eq_ok]
  mismatch_iff := by
    rintro before after n rfl ha hg g
    rw [collect_run_eq_reply ha hg, verdict_eq_some]
    constructor
    · rintro (⟨⟨_, o⟩, hc, hr⟩ | ⟨-, hr⟩)
      · obtain ⟨hne, rfl⟩ := answer_eq_mismatch.1 hr
        exact ⟨hne, o, hc⟩
      · cases hr
    · rintro ⟨hne, o, hc⟩
      exact Or.inl ⟨⟨g, o⟩, hc, answer_eq_mismatch.2 ⟨hne, rfl⟩⟩
  abandoned_iff := by
    rintro before after n rfl ha hg
    rw [collect_run_eq_reply ha hg, verdict_eq_some]
    simp [answer_ne_abandoned]
  reply_cases := by
    rintro before after n rfl ha r hr
    rw [collect_eq] at hr
    split at hr
    · cases hr
    · cases hr
    next r' hb =>
      cases hr
      exact (sound_new.run _).fits n r hb
  unknown_of_gone := by
    rintro before after n rfl ha hg
    exact collect_run_of_gone ha hg
  replies_le_one n := (length_replies_le_one n steps).1
  leave_unnoticed n later hlater :=
    ⟨rfl, (apart_leave (new.run steps) n).transcript_eq .respond hlater⟩
  disarm_other _ hm := disarm_of_ne hm
  not_aborted := aborted_transcript_respond new steps

end Sparring.Handoff
