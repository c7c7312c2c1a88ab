import Mathlib.Logic.Relation

/-!
# Transition Systems

A system given by its initial states and the steps each label can take, a
label being an operation of a data structure or a thread of a program. A
property of every state a run reaches is proved as an inductive invariant:
it holds in every initial state and every step keeps it.

Reachability is `Relation.ReflTransGen` of the unlabelled step from an
initial state, so that Mathlib's induction principles apply to runs.

## Main definitions

* `System`, `System.Next`, `System.Reach`: A system, its steps and its
  reachable states.
* `System.Inductive`: An inductive invariant.
* `System.ofFun`: The system of a partial step function.
* `System.Run`: A run with its labels.
* `System.runFun`: The run of a partial step function over a list of labels.
* `System.restrict`: The system whose steps stay among states of a property.

## Theorems

* `System.Inductive.reach`: An inductive invariant holds in every reachable
  state.
* `System.Reach.step`: A step from a reachable state reaches its target.
* `System.Run.of_append`: A run of two lists of labels passes through a
  state between them.
* `System.Run.reach`: A run from a reachable state ends in one.
* `System.exists_reach_of_runFun`: A computed run from an initial state
  reaches its last state.
* `System.Run.measure_add_length_le`: A measure that every step lowers
  bounds the length of every run.
* `System.Reach.of_restrict`: A state the restricted system reaches, the
  system reaches too, and it has the property.
-/

namespace TransitionSystem

/-- A system: its initial states and, for each label, its steps. -/
structure System (σ ι : Type) where
  init : σ → Prop
  step : ι → σ → σ → Prop

namespace System

variable {σ ι : Type} (S : System σ ι)

/-- One step of some label. -/
def Next (s s' : σ) : Prop := ∃ l, S.step l s s'

/-- The states that some run from an initial state reaches. -/
def Reach (s : σ) : Prop := ∃ s₀, S.init s₀ ∧ Relation.ReflTransGen S.Next s₀ s

/-- An inductive invariant: it holds initially and every step keeps it. -/
def Inductive (I : σ → Prop) : Prop :=
  (∀ s, S.init s → I s) ∧ ∀ l s s', I s → S.step l s s' → I s'

/-- The system of a partial step function: a label steps where the function
    returns a state. -/
def ofFun (init : σ → Prop) (next : ι → σ → Option σ) : System σ ι where
  init := init
  step l s s' := next l s = some s'

/-- Run a partial step function over a list of labels. -/
def runFun (next : ι → σ → Option σ) (s : σ) : List ι → Option σ
  | [] => some s
  | l :: ls => (next l s).bind fun s₁ => runFun next s₁ ls

variable {S}

theorem Reach.init {s : σ} (h : S.init s) : S.Reach s := ⟨s, h, .refl⟩

theorem Reach.step {s s' : σ} (hs : S.Reach s) {l : ι} (h : S.step l s s') : S.Reach s' := by
  rcases hs with ⟨s₀, h₀, hrun⟩
  exact ⟨s₀, h₀, hrun.tail ⟨l, h⟩⟩

theorem Inductive.reach {I : σ → Prop} (h : S.Inductive I) {s : σ} (hs : S.Reach s) : I s := by
  rcases hs with ⟨s₀, h₀, hrun⟩
  induction hrun with
  | refl => exact h.1 _ h₀
  | tail _ hnext ih =>
    rcases hnext with ⟨l, hl⟩
    exact h.2 l _ _ ih hl

/-- A run: the labels of its steps in order, from `s` to `s'`. -/
inductive Run (S : System σ ι) : σ → List ι → σ → Prop
  | nil (s : σ) : Run S s [] s
  | cons {s s₁ s' : σ} {l : ι} {ls : List ι} : S.step l s s₁ → Run S s₁ ls s' → Run S s (l :: ls) s'

theorem Run.append {s s₁ s' : σ} {ls ls' : List ι} (h : S.Run s ls s₁) (h' : S.Run s₁ ls' s') :
    S.Run s (ls ++ ls') s' := by
  induction h with
  | nil => exact h'
  | cons hstep _ ih => exact .cons hstep (ih h')

theorem Run.of_append {s s' : σ} {ls ls' : List ι} (h : S.Run s (ls ++ ls') s') :
    ∃ s₁, S.Run s ls s₁ ∧ S.Run s₁ ls' s' := by
  induction ls generalizing s with
  | nil => exact ⟨s, .nil s, h⟩
  | cons l ls ih =>
    cases h with
    | cons hstep hrest =>
      rcases ih hrest with ⟨s₁, h₁, h₂⟩
      exact ⟨s₁, .cons hstep h₁, h₂⟩

theorem Run.reach {s s' : σ} {ls : List ι} (hs : S.Reach s) (h : S.Run s ls s') : S.Reach s' := by
  induction h with
  | nil => exact hs
  | cons hstep _ ih => exact ih (hs.step hstep)

theorem Run.of_runFun {init : σ → Prop} {next : ι → σ → Option σ} {s s' : σ} {ls : List ι}
    (h : runFun next s ls = some s') : (ofFun init next).Run s ls s' := by
  induction ls generalizing s with
  | nil =>
    rw [runFun, Option.some_inj] at h
    subst h
    exact .nil _
  | cons l ls ih =>
    rw [runFun] at h
    cases hn : next l s with
    | none =>
      rw [hn] at h
      cases h
    | some s₁ =>
      rw [hn, Option.bind_some] at h
      exact .cons hn (ih h)

/-- A computed run from an initial state reaches a state, and a check of
    that state evaluated with the run carries over to it. -/
theorem exists_reach_of_runFun {init : σ → Prop} {next : ι → σ → Option σ} {s₀ : σ}
    {ls : List ι} {p : σ → Bool} (h₀ : init s₀) (h : (runFun next s₀ ls).map p = some true) :
    ∃ s, (ofFun init next).Reach s ∧ p s = true := by
  cases hr : runFun next s₀ ls with
  | none =>
    rw [hr] at h
    cases h
  | some s =>
    rw [hr, Option.map_some, Option.some_inj] at h
    exact ⟨s, (Run.of_runFun hr).reach (.init h₀), h⟩

/-- A measure that every step lowers, from the states of an invariant that
    the steps keep, bounds the length of every run from such a state: the
    run's length and the measure at its end add up to at most the measure at
    its start. -/
theorem Run.measure_add_length_le {I : σ → Prop} {μ : σ → Nat}
    (hI : ∀ l s s', I s → S.step l s s' → I s')
    (hμ : ∀ l s s', I s → S.step l s s' → μ s' < μ s)
    {s s' : σ} {ls : List ι} (h : S.Run s ls s') (hs : I s) : μ s' + ls.length ≤ μ s := by
  induction h with
  | nil => simp
  | cons hstep _ ih =>
    have hlt := hμ _ _ _ hs hstep
    have hrest := ih (hI _ _ _ hs hstep)
    rw [List.length_cons]
    omega

/-- The system restricted to the states with property `P`: it starts only in
    them, and takes only the steps that end in them. -/
def restrict (S : System σ ι) (P : σ → Prop) : System σ ι where
  init s := S.init s ∧ P s
  step l s s' := S.step l s s' ∧ P s'

theorem Reach.of_restrict {P : σ → Prop} {s : σ} (h : (S.restrict P).Reach s) : S.Reach s ∧ P s := by
  rcases h with ⟨s₀, ⟨h₀, hP₀⟩, hrun⟩
  induction hrun with
  | refl => exact ⟨.init h₀, hP₀⟩
  | tail _ hnext ih =>
    rcases hnext with ⟨l, hstep, hP⟩
    exact ⟨ih.1.step hstep, hP⟩

end System

end TransitionSystem
