import Mathlib.Logic.Relation

/-!
# Reachable states of a transition system

A system is an initial predicate and a step relation; a run is the reflexive
transitive closure of the step. `Reachable.invariant` is the induction every
safety theorem goes through, `Reachable.invariant_of` its relative form for an
invariant whose step needs another one, and `sticky` the form for a property
that holds from some state on, along a run whose steps are all of one kind.

Where the steps are acts of a function, `runActs` computes the run of a list of acts.
-/

namespace CameraLogs.Lib

open Relation (ReflTransGen)

variable {σ α : Type} {init : σ → Prop} {step step' : σ → σ → Prop} {I J : σ → Prop} {s t : σ}

/-- The states a run from an initial state can be in. -/
def Reachable (init : σ → Prop) (step : σ → σ → Prop) (s : σ) : Prop :=
  ∃ s₀, init s₀ ∧ ReflTransGen step s₀ s

theorem Reachable.initial (h : init s) : Reachable init step s := ⟨s, h, ReflTransGen.refl⟩

theorem Reachable.tail (h : Reachable init step s) (hst : step s t) : Reachable init step t := by
  obtain ⟨s₀, h₀, hr⟩ := h
  exact ⟨s₀, h₀, hr.tail hst⟩

/-- What one step preserves a run preserves. -/
theorem sticky (hstep : ∀ s t, step s t → I s → I t) (h : ReflTransGen step s t) (hs : I s) :
    I t := by
  induction h with
  | refl => exact hs
  | tail _ hst ih => exact hstep _ _ hst ih

/-- What holds initially and is preserved by every step holds in every reachable state. -/
theorem Reachable.invariant (hinit : ∀ s, init s → I s) (hstep : ∀ s t, step s t → I s → I t)
    (h : Reachable init step s) : I s := by
  obtain ⟨s₀, h₀, hr⟩ := h
  exact sticky hstep hr (hinit s₀ h₀)

/-- The same, where a step may use an invariant `J` already established. -/
theorem Reachable.invariant_of (hJ : ∀ s, Reachable init step s → J s) (hinit : ∀ s, init s → I s)
    (hstep : ∀ s t, J s → step s t → I s → I t) (h : Reachable init step s) : I s := by
  have hboth : Reachable init step s ∧ I s := by
    refine Reachable.invariant (I := fun s => Reachable init step s ∧ I s)
      (fun s hs => ⟨Reachable.initial hs, hinit s hs⟩) ?_ h
    rintro s t hst ⟨hr, hs⟩
    exact ⟨hr.tail hst, hstep s t (hJ s hr) hst hs⟩
  exact hboth.2

/-- A system with more steps reaches more. -/
theorem Reachable.mono (hle : ∀ s t, step s t → step' s t) (h : Reachable init step s) :
    Reachable init step' s := by
  obtain ⟨s₀, h₀, hr⟩ := h
  exact ⟨s₀, h₀, ReflTransGen.mono hle _ _ hr⟩

/-- The state after a list of acts, if each of them is possible. -/
def runActs (apply : α → σ → Option σ) : List α → σ → Option σ
  | [], s => some s
  | act :: acts, s => apply act s >>= runActs apply acts

theorem runActs_steps {apply : α → σ → Option σ} {acts : List α}
    (h : runActs apply acts s = some t) :
    ReflTransGen (fun s t => ∃ act, apply act s = some t) s t := by
  induction acts generalizing s with
  | nil =>
    cases h
    exact ReflTransGen.refl
  | cons act acts ih =>
    obtain ⟨s₁, h₁, h₂⟩ := Option.bind_eq_some_iff.mp h
    exact ReflTransGen.head ⟨act, h₁⟩ (ih h₂)

/-- The state a list of acts leads to, where it is known that they are possible. -/
theorem eq_some_getD {x : Option σ} (h : x.isSome = true) (d : σ) : x = some (x.getD d) := by
  obtain ⟨a, rfl⟩ := Option.isSome_iff_exists.mp h
  rfl

/-- An act that goes on past a guard meets it. -/
theorem of_guard {p : Prop} [Decidable p] {u : Unit} (h : guard p = some u) : p := by
  unfold guard at h
  split at h
  next hp => exact hp
  next => cases h

end CameraLogs.Lib
