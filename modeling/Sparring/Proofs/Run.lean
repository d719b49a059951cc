import Mathlib.Data.List.Induction

/-!
# Runs and what they show

A machine is a step function `σ → ε → σ`. A run of it is a list of events, and `List.foldl`
gives the state that the run ends in. What can be seen of a run is put together event by event,
from what each event shows in the state that it meets: `observe`.
-/

namespace Sparring

variable {σ ε α : Type}

/-- An event of a run is the last one, or was there before. -/
theorem concat_eq_append_cons {es before later : List ε} {e x : ε} :
    es ++ [e] = before ++ x :: later ↔
      (es = before ∧ e = x ∧ later = []) ∨
        ∃ rest, later = rest ++ [e] ∧ es = before ++ x :: rest := by
  constructor
  · intro h
    rcases List.eq_nil_or_concat later with rfl | ⟨rest, y, rfl⟩
    · obtain ⟨hes, he⟩ := List.append_inj' h rfl
      exact Or.inl ⟨hes, List.singleton_inj.1 he, rfl⟩
    · have h' : es ++ [e] = (before ++ x :: rest) ++ [y] := by simpa using h
      obtain ⟨hes, rfl⟩ := List.append_singleton_inj.1 h'
      exact Or.inr ⟨rest, by simp, hes⟩
  · rintro (⟨rfl, rfl, rfl⟩ | ⟨rest, rfl, rfl⟩) <;> simp

theorem getElem?_of_isPrefix {xs ys : List α} (h : xs <+: ys) {i : Nat} {a : α}
    (ha : xs[i]? = some a) : ys[i]? = some a := by
  obtain ⟨zs, rfl⟩ := h
  rw [List.getElem?_append_left (List.getElem?_eq_some_iff.1 ha).1, ha]

theorem lookup_filter_ne {κ : Type} [DecidableEq κ] (m n : κ) (pairs : List (κ × α)) :
    (pairs.filter (·.1 ≠ m)).lookup n = if n = m then none else pairs.lookup n := by
  induction pairs with
  | nil => simp
  | cons b pairs ih =>
    obtain ⟨k, content⟩ := b
    by_cases hk : k = m
    · subst hk
      rw [List.filter_cons_of_neg (by simp), ih, List.lookup_cons]
      by_cases hn : n = k
      · simp [hn]
      · have hne : (n == k) = false := by simpa using hn
        rw [hne, if_neg hn]
    · rw [List.filter_cons_of_pos (by simpa using hk), List.lookup_cons, List.lookup_cons, ih]
      by_cases hn : n = k
      · subst hn
        simp [hk]
      · have hne : (n == k) = false := by simpa using hn
        rw [hne]

/-- Only an element that has not occurred is new. -/
theorem eraseDups_concat [DecidableEq α] (xs : List α) (a : α) : (xs ++ [a]).eraseDups =
    if a ∈ xs.eraseDups then xs.eraseDups else xs.eraseDups ++ [a] := by
  rw [List.eraseDups_append]
  by_cases ha : a ∈ xs <;> simp [ha, List.removeAll, List.eraseDups_cons]

theorem nodup_eraseDups [DecidableEq α] (xs : List α) : xs.eraseDups.Nodup := by
  induction xs using List.reverseRecOn with
  | nil => simp
  | append_singleton xs a ih =>
    rw [eraseDups_concat]
    split
    next => exact ih
    next ha =>
      refine List.nodup_append.2 ⟨ih, by simp, ?_⟩
      rintro b hb c hc rfl
      exact ha (List.mem_singleton.1 hc ▸ hb)

/-- What a run shows, if an event `e` in a state `s` shows `look s e`. -/
def observe (step : σ → ε → σ) (look : σ → ε → List α) (s : σ) : List ε → List α
  | [] => []
  | e :: es => look s e ++ observe step look (step s e) es

@[simp] theorem observe_nil (step : σ → ε → σ) (look : σ → ε → List α) (s : σ) :
    observe step look s [] = [] := rfl

theorem observe_append (step : σ → ε → σ) (look : σ → ε → List α) (s : σ) (xs ys : List ε) :
    observe step look s (xs ++ ys) =
      observe step look s xs ++ observe step look (xs.foldl step s) ys := by
  induction xs generalizing s with
  | nil => rfl
  | cons x xs ih =>
    simp only [List.cons_append, observe, List.foldl_cons]
    rw [ih, List.append_assoc]

/-- The last event of a run shows what it shows in the state before it. -/
theorem observe_concat (step : σ → ε → σ) (look : σ → ε → List α) (s : σ) (es : List ε) (e : ε) :
    observe step look s (es ++ [e]) = observe step look s es ++ look (es.foldl step s) e := by
  rw [observe_append]
  simp [observe]

/-- Whatever a run shows was shown by one of its events. -/
theorem mem_observe {step : σ → ε → σ} {look : σ → ε → List α} {s : σ} {es : List ε} {a : α} :
    a ∈ observe step look s es ↔
      ∃ before e after, es = before ++ e :: after ∧ a ∈ look (before.foldl step s) e := by
  constructor
  · intro ha
    induction es using List.reverseRecOn with
    | nil => simp at ha
    | append_singleton es e ih =>
      rw [observe_concat, List.mem_append] at ha
      rcases ha with ha | ha
      · obtain ⟨before, e', after, rfl, he⟩ := ih ha
        exact ⟨before, e', after ++ [e], by simp, he⟩
      · exact ⟨es, e, [], rfl, ha⟩
  · rintro ⟨before, e, after, rfl, ha⟩
    rw [observe_append, observe]
    exact List.mem_append_right _ (List.mem_append_left _ ha)

/-- What an event shows alone was shown after all that comes before it. -/
theorem observe_split {step : σ → ε → σ} {look : σ → ε → List α} {a : α}
    (halone : ∀ s e, a ∈ look s e → look s e = [a]) {s : σ} {es : List ε} {xs ys : List α}
    (h : observe step look s es = xs ++ a :: ys) :
    ∃ before e after, es = before ++ e :: after ∧ observe step look s before = xs ∧
      look (before.foldl step s) e = [a] := by
  induction es generalizing s xs with
  | nil => simp at h
  | cons e es ih =>
    rw [observe] at h
    rcases List.append_eq_append_iff.1 h with ⟨more, rfl, hrest⟩ | ⟨more, hlook, hrest⟩
    · obtain ⟨before, e', after, rfl, hxs, he⟩ := ih hrest
      exact ⟨e :: before, e', after, rfl, by rw [observe, hxs], he⟩
    -- The split lies between two events, or `a` is all that this event shows.
    · cases more with
      | nil =>
        rw [List.nil_append] at hrest
        obtain ⟨before, e', after, rfl, hxs, he⟩ := @ih (step s e) [] hrest.symm
        exact ⟨e :: before, e', after, rfl, by rw [observe, hxs, hlook]; simp, he⟩
      | cons b more =>
        cases (List.cons.inj hrest).1
        have hone := halone s e (by simp [hlook])
        have hxs : xs = [] := by
          rw [hone] at hlook
          cases xs with
          | nil => rfl
          | cons x xs =>
            have := congrArg List.length hlook
            simp at this
        exact ⟨[], e, es, rfl, by rw [hxs, observe_nil], hone⟩

end Sparring
