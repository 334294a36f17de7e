import Mathlib.Data.List.Basic
import Mathlib.Data.List.Induction

/-!
# Runs of an executable transition system

A `System` has one initial state and a partial step function driven by actions: whatever is
left open (which datagram arrives, which thread runs) is part of the action, so a run is a
list of actions and can be evaluated.

* `Steps ok s t` — `t` is reached from `s` by steps that all satisfy `ok`.
* `Steps.invariant` — the induction rule: what every admissible step preserves holds in
  every state reached.
* `Trace es t` — the same, with the list of (state, action) pairs kept, for laws that speak
  about the steps of a run and not only about its states.
* `Trace.of_run`, `Reach.of_run` — a concrete list of actions, evaluated by `run`, is a run.
-/

set_option autoImplicit false

namespace Hwdb.Lib

variable {σ α : Type}

/-- A deterministic step function over explicit actions. -/
structure System (σ α : Type) where
  init : σ
  next : σ → α → Option σ

namespace System

variable (S : System σ α)

/-- Finitely many steps, each satisfying `ok` in the state it starts from. -/
inductive Steps (ok : σ → α → Prop) : σ → σ → Prop where
  | refl (s : σ) : Steps ok s s
  | tail {s t u : σ} {a : α} : Steps ok s t → ok t a → S.next t a = some u → Steps ok s u

/-- States reached from the initial one by steps that satisfy `ok`. -/
abbrev Reach (ok : σ → α → Prop) (s : σ) : Prop := S.Steps ok S.init s

/-- The admissible run that takes the steps `es` (oldest first) and ends in `t`. -/
inductive Trace (ok : σ → α → Prop) : List (σ × α) → σ → Prop where
  | nil : Trace ok [] S.init
  | snoc {es : List (σ × α)} {t u : σ} {a : α} :
      Trace ok es t → ok t a → S.next t a = some u → Trace ok (es ++ [(t, a)]) u

variable {S} {ok ok' : σ → α → Prop}

/-- **Invariant rule.**  What holds at the start and is preserved by every admissible step
holds wherever the steps lead. -/
theorem Steps.invariant {I : σ → Prop} {s t : σ} (h : S.Steps ok s t) (h0 : I s)
    (hstep : ∀ t a u, I t → ok t a → S.next t a = some u → I u) : I t := by
  induction h with
  | refl => exact h0
  | tail _ hok hn ih => exact hstep _ _ _ ih hok hn

/-- The invariant rule with the reachability of the states on the way at hand. -/
theorem Steps.invariant_reach {I : σ → Prop} {s t : σ} (h : S.Steps ok s t) (h0 : I s)
    (hstep : ∀ t a u, S.Steps ok s t → I t → ok t a → S.next t a = some u → I u) : I t := by
  induction h with
  | refl => exact h0
  | tail hs hok hn ih => exact hstep _ _ _ hs ih hok hn

theorem Steps.mono {s t : σ} (h : S.Steps ok s t) (hok : ∀ t a, ok t a → ok' t a) :
    S.Steps ok' s t := by
  induction h with
  | refl => exact .refl _
  | tail _ ha hn ih => exact .tail ih (hok _ _ ha) hn

/-- A condition that follows where the steps have led. -/
theorem Steps.mono_reach {s t : σ} (h : S.Steps ok s t)
    (hok : ∀ t a, S.Steps ok s t → ok t a → ok' t a) : S.Steps ok' s t := by
  induction h with
  | refl => exact .refl _
  | tail hs ha hn ih => exact .tail ih (hok _ _ hs ha) hn

theorem Steps.trans {s t u : σ} (h₁ : S.Steps ok s t) (h₂ : S.Steps ok t u) :
    S.Steps ok s u := by
  induction h₂ with
  | refl => exact h₁
  | tail _ ha hn ih => exact .tail ih ha hn

theorem Trace.reach {es : List (σ × α)} {t : σ} (h : S.Trace ok es t) : S.Reach ok t := by
  induction h with
  | nil => exact .refl _
  | snoc _ ha hn ih => exact .tail ih ha hn

/-- The last step of a trace. -/
theorem Trace.unsnoc {es : List (σ × α)} {t u : σ} {a : α}
    (h : S.Trace ok (es ++ [(t, a)]) u) :
    S.Trace ok es t ∧ ok t a ∧ S.next t a = some u := by
  generalize hl : es ++ [(t, a)] = l at h
  cases h with
  | nil => simp at hl
  | snoc ht ha hn =>
    obtain ⟨rfl, he⟩ := List.append_inj' hl rfl
    cases he
    exact ⟨ht, ha, hn⟩

/-- The part of a trace before one of its steps. -/
theorem Trace.before {es : List (σ × α)} {e : σ × α} {after : List (σ × α)} {t : σ}
    (h : S.Trace ok (es ++ e :: after) t) :
    S.Trace ok es e.1 ∧ ok e.1 e.2 ∧ ∃ u, S.next e.1 e.2 = some u := by
  induction after using List.reverseRecOn generalizing t with
  | nil =>
    obtain ⟨ht, ha, hn⟩ := Trace.unsnoc (t := e.1) (a := e.2) h
    exact ⟨ht, ha, t, hn⟩
  | append_singleton after x ih =>
    rw [← List.cons_append, ← List.append_assoc] at h
    exact ih (Trace.unsnoc (t := x.1) (a := x.2) h).1

/-- Every step of a trace starts in a state that the trace reached and is a step. -/
theorem Trace.mem {es : List (σ × α)} {t : σ} (h : S.Trace ok es t) :
    ∀ e ∈ es, S.Reach ok e.1 ∧ ok e.1 e.2 ∧ ∃ u, S.next e.1 e.2 = some u := by
  induction h with
  | nil => intro e he; cases he
  | @snoc es t u a ht ha hn ih =>
    intro e he
    rcases List.mem_append.mp he with he | he
    · exact ih e he
    · rw [List.mem_singleton] at he
      subst he
      exact ⟨ht.reach, ha, u, hn⟩

/-- The state after a step of a trace is where the next step starts, or the end. -/
theorem Trace.succ {es : List (σ × α)} {t : σ} (h : S.Trace ok es t) :
    ∀ e ∈ es, ∃ u, S.next e.1 e.2 = some u ∧ (u = t ∨ ∃ e' ∈ es, e'.1 = u) := by
  induction h with
  | nil => intro e he; cases he
  | @snoc es t u a ht ha hn ih =>
    intro e he
    rcases List.mem_append.mp he with he | he
    · obtain ⟨v, hv, rfl | ⟨e', he', rfl⟩⟩ := ih e he
      · exact ⟨v, hv, .inr ⟨(v, a), by simp, rfl⟩⟩
      · exact ⟨_, hv, .inr ⟨e', List.mem_append_left _ he', rfl⟩⟩
    · rw [List.mem_singleton] at he
      subst he
      exact ⟨u, hn, .inl rfl⟩

theorem Trace.mono {es : List (σ × α)} {t : σ} (h : S.Trace ok es t)
    (hok : ∀ s a, ok s a → ok' s a) : S.Trace ok' es t := by
  induction h with
  | nil => exact .nil
  | snoc _ ha hn ih => exact .snoc ih (hok _ _ ha) hn

/-- **Invariant rule for traces**: the invariant may speak about the steps taken so far. -/
theorem Trace.invariant {I : List (σ × α) → σ → Prop} {es : List (σ × α)} {t : σ}
    (h : S.Trace ok es t) (h0 : I [] S.init)
    (hstep : ∀ es t a u, S.Trace ok es t → I es t → ok t a → S.next t a = some u →
      I (es ++ [(t, a)]) u) : I es t := by
  induction h with
  | nil => exact h0
  | snoc ht ha hn ih => exact hstep _ _ _ _ ht ih ha hn

/-- A trace whose steps all satisfy `ok'` as well is a trace of the stronger condition. -/
theorem Trace.and {es : List (σ × α)} {t : σ} (h : S.Trace ok es t)
    (h' : ∀ e ∈ es, ok' e.1 e.2) : S.Trace (fun s a => ok s a ∧ ok' s a) es t := by
  induction h with
  | nil => exact .nil
  | @snoc es t u a _ ha hn ih =>
    refine .snoc (ih fun e he => h' e (List.mem_append_left _ he)) ⟨ha, ?_⟩ hn
    exact h' (t, a) (by simp)

variable (S)

/-- Evaluate a list of actions. -/
def run (s : σ) : List α → Option σ
  | [] => some s
  | a :: as => (S.next s a).bind (run · as)

/-- Evaluate a list of actions and check a condition before each of them. -/
def runOk (ok : σ → α → Bool) (s : σ) : List α → Bool
  | [] => true
  | a :: as => ok s a && (match S.next s a with
    | some t => runOk ok t as
    | none => false)

/-- A list of actions that evaluates to a state with property `p`, each action passing the
check, is a trace to such a state. -/
theorem Trace.of_run (ok : σ → α → Prop) (okB : σ → α → Bool) (as : List α) (p : σ → Bool)
    (hB : ∀ s a, okB s a = true → ok s a) (hok : S.runOk okB S.init as = true)
    (hp : (S.run S.init as).map p = some true) : ∃ es t, S.Trace ok es t ∧ p t = true := by
  have key : ∀ (as : List α) (es : List (σ × α)) (s t : σ), S.Trace ok es s →
      S.run s as = some t → S.runOk okB s as = true → ∃ es', S.Trace ok es' t := by
    intro as
    induction as with
    | nil =>
      intro es s t hs hr _
      simp only [run, Option.some.injEq] at hr
      subst hr
      exact ⟨es, hs⟩
    | cons a as ih =>
      intro es s t hs hr hok
      simp only [run] at hr
      simp only [runOk, Bool.and_eq_true] at hok
      obtain ⟨u, hu, hr⟩ := Option.bind_eq_some_iff.mp hr
      rw [hu] at hok
      exact ih _ u t (hs.snoc (hB _ _ hok.1) hu) hr hok.2
  obtain ⟨t, hr, hpt⟩ := Option.map_eq_some_iff.mp hp
  obtain ⟨es, ht⟩ := key as [] S.init t .nil hr hok
  exact ⟨es, t, ht, hpt⟩

/-- The same for the state alone. -/
theorem Reach.of_run (ok : σ → α → Prop) (okB : σ → α → Bool) (as : List α) (p : σ → Bool)
    (hB : ∀ s a, okB s a = true → ok s a) (hok : S.runOk okB S.init as = true)
    (hp : (S.run S.init as).map p = some true) : ∃ t, S.Reach ok t ∧ p t = true := by
  obtain ⟨es, t, ht, hpt⟩ := Trace.of_run S ok okB as p hB hok hp
  exact ⟨t, ht.reach, hpt⟩

end System

end Hwdb.Lib
