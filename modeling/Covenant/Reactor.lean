import Covenant.Interaction
import Covenant.Labelled
import Mathlib.Data.List.Induction
import Mathlib.Logic.Function.Basic
import Mathlib.Logic.Relation

/-! Loops that wait for a tick, run a program over an interface, and wait again, until
they are told to quit. `Run` lists what such a loop has done; inside it every round is
a run of the loop's body (`Run.round`, `Run.event`). `System.Run` lets any number of
loops share an environment that answers their calls and also moves on its own. -/

namespace Reactor
open Interaction

variable {I : Interface} {H S : Type}

/-! ## One loop -/

/-- Where a loop is. -/
inductive Phase (I : Interface) (H S : Type) where
  | select (s : S)
  | busy (p : Prog I H S)
  | down (h : H)
  | exited

/-- What a loop does; a tick and its end carry the state of the loop. -/
inductive Action (I : Interface) (S : Type) where
  | tick (s : S)
  | event (e : Event I)
  | done (s : S)
  | crash
  | quit

/-- Waiting, the loop may take a tick or the request to quit, whichever is ready. -/
inductive Step (body : S → Prog I H S) : Phase I H S → Action I S → Phase I H S → Prop
  | tick (s : S) : Step body (.select s) (.tick s) (.busy (body s))
  | event (c : I.Call) (k : I.Answer c → Prog I H S) (a : I.Answer c) :
      Step body (.busy (.call c k)) (.event ⟨c, a⟩) (.busy (k a))
  | done (s : S) : Step body (.busy (.ret s)) (.done s) (.select s)
  | crash (h : H) : Step body (.busy (.halt h)) .crash (.down h)
  | quit (s : S) : Step body (.select s) .quit .exited

/-- What a loop that waits in the state `s₀` can do. -/
abbrev Run (body : S → Prog I H S) (s₀ : S) : List (Action I S) → Phase I H S → Prop :=
  Labelled.Run (Step body) (.select s₀)

variable {body : S → Prog I H S} {s₀ : S}

/-- A loop that is down does nothing more. -/
theorem not_step_down (h : H) (a : Action I S) (ph : Phase I H S) : ¬ Step body (.down h) a ph := by
  intro hs
  cases hs

/-- The actions determine where the loop is. -/
theorem Run.det {as : List (Action I S)} {ph ph' : Phase I H S} (h : Run body s₀ as ph)
    (h' : Run body s₀ as ph') : ph = ph' := by
  induction h generalizing ph' with
  | init => exact (Labelled.run_nil h').symm
  | snoc _ hs ih =>
    obtain ⟨ph₁, h₁, hs'⟩ := Labelled.run_snoc h'
    obtain rfl := ih h₁
    cases hs <;> cases hs' <;> rfl

/-- A busy loop is in a round: what it did since the tick is a run of the body. -/
theorem Run.busy {as : List (Action I S)} {ph : Phase I H S} {p : Prog I H S}
    (h : Run body s₀ as ph) (hp : ph = .busy p) :
    ∃ as' s t, as = as' ++ .tick s :: t.map .event ∧ Run body s₀ as' (.select s) ∧
      Prog.Steps (body s) t p := by
  induction h generalizing p with
  | init => cases hp
  | snoc hr hs ih =>
    cases hs with
    | tick s =>
      cases hp
      exact ⟨_, s, [], rfl, hr, .refl _⟩
    | event c k a =>
      cases hp
      obtain ⟨as', s, t, rfl, hr', ht⟩ := ih rfl
      refine ⟨as', s, t ++ [⟨c, a⟩], by simp, hr', ?_⟩
      exact ht.trans (.call a (.refl _))
    | done s => cases hp
    | crash x => cases hp
    | quit s => cases hp

/-- The events after a tick are a run of the body on the state of the tick. -/
theorem Run.round {as : List (Action I S)} {s : S} {t : Trace I} {ph : Phase I H S}
    (h : Run body s₀ (as ++ .tick s :: t.map .event) ph) :
    Run body s₀ as (.select s) ∧ ∃ p, ph = .busy p ∧ Prog.Steps (body s) t p := by
  induction t using List.reverseRecOn generalizing ph with
  | nil =>
    obtain ⟨_, hr, hs⟩ := Labelled.run_snoc h
    cases hs
    exact ⟨hr, _, rfl, .refl _⟩
  | append_singleton t e ih =>
    rw [List.map_append, ← List.cons_append, ← List.append_assoc] at h
    obtain ⟨ph', hr, hs⟩ := Labelled.run_snoc h
    obtain ⟨hsel, p, rfl, hp⟩ := ih hr
    cases hs with
    | event c k a => exact ⟨hsel, k a, rfl, hp.trans (.call a (.refl _))⟩

/-- A round that is done is a whole run of the body. -/
theorem Run.done {as bs : List (Action I S)} {s s' : S} {t : Trace I} {ph : Phase I H S}
    (h : Run body s₀ (as ++ .tick s :: t.map .event ++ .done s' :: bs) ph) :
    Prog.Steps (body s) t (.ret s') := by
  rw [List.append_cons] at h
  obtain ⟨_, h'⟩ := h.of_append
  obtain ⟨_, hr, hs⟩ := Labelled.run_snoc h'
  obtain ⟨_, p, rfl, hp⟩ := Run.round hr
  cases hs
  exact hp

/-- Every event belongs to a round. -/
theorem Run.event {as bs : List (Action I S)} {e : Event I} {ph : Phase I H S}
    (h : Run body s₀ (as ++ .event e :: bs) ph) :
    ∃ as' s t p, as = as' ++ .tick s :: t.map .event ∧ Prog.Steps (body s) (t ++ [e]) p := by
  rw [List.append_cons] at h
  obtain ⟨ph', h'⟩ := h.of_append
  have hbusy : ∃ p, ph' = .busy p := by
    obtain ⟨_, _, hs⟩ := Labelled.run_snoc h'
    cases hs
    exact ⟨_, rfl⟩
  obtain ⟨p, rfl⟩ := hbusy
  obtain ⟨as', s, t, heq, _, ht⟩ := Run.busy h' rfl
  cases t using List.reverseRecOn with
  | nil =>
    rw [List.map_nil] at heq
    have := (List.append_inj' heq rfl).2
    cases this
  | append_singleton t e' =>
    rw [List.map_append, ← List.cons_append, ← List.append_assoc] at heq
    obtain ⟨rfl, hlast⟩ := List.append_inj' heq rfl
    cases hlast
    exact ⟨as', s, t, p, rfl, ht⟩

/-- What the body keeps holds of the state whenever the loop waits or takes a tick. -/
theorem Run.invariant {P : S → Prop} (h₀ : P s₀)
    (hbody : ∀ s t s', P s → Prog.Steps (body s) t (.ret s') → P s') {as : List (Action I S)}
    {ph : Phase I H S} (h : Run body s₀ as ph) :
    (∀ s, ph = .select s → P s) ∧ ∀ s, .tick s ∈ as → P s := by
  induction h with
  | init =>
    constructor
    · intro s hs
      cases hs
      exact h₀
    · intro s hs
      cases hs
  | snoc hr hs ih =>
    obtain ⟨hsel, htick⟩ := ih
    cases hs with
    | tick s =>
      constructor
      · intro s' hs'
        cases hs'
      · intro s' hs'
        rcases List.mem_append.mp hs' with hs' | hs'
        · exact htick s' hs'
        · cases List.mem_singleton.mp hs'
          exact hsel s rfl
    | done s =>
      constructor
      · intro s' hs'
        cases hs'
        obtain ⟨as', s₁, t, rfl, _, ht⟩ := Run.busy hr rfl
        exact hbody s₁ t s (htick s₁ (by simp)) ht
      · intro s' hs'
        exact htick s' (by simpa using hs')
    | _ =>
      constructor
      · intro s' hs'
        cases hs'
      · intro s' hs'
        exact htick s' (by simpa using hs')

theorem Run.steps {as : List (Action I S)} {p q : Prog I H S} {t : Trace I}
    (h : Run body s₀ as (.busy p)) (ht : Prog.Steps p t q) :
    Run body s₀ (as ++ t.map .event) (.busy q) := by
  induction ht generalizing as with
  | refl p => simpa using h
  | call a _ ih =>
    rw [List.map_cons, List.append_cons]
    exact ih (h.snoc (.event _ _ a))

/-- A complete run of the body is a round after which the loop waits again. -/
theorem Run.complete {as : List (Action I S)} {s s' : S} {t : Trace I}
    (h : Run body s₀ as (.select s)) (ht : Prog.Steps (body s) t (.ret s')) :
    Run body s₀ (as ++ .tick s :: t.map .event ++ [.done s']) (.select s') := by
  rw [List.append_cons as (.tick s)]
  exact (Run.steps (h.snoc (.tick s)) ht).snoc (.done s')

/-- A step other than a tick. -/
def Winds (body : S → Prog I H S) (ph' ph : Phase I H S) : Prop :=
  ∃ a, Step body ph a ph' ∧ ∀ s, a ≠ .tick s

/-- Between two ticks a loop takes finitely many steps. -/
theorem winds_acc (ph : Phase I H S) : Acc (Winds body) ph := by
  have hdown : ∀ h, Acc (Winds body) (.down h) := by
    intro h
    constructor
    rintro ph' ⟨a, hs, _⟩
    cases hs
  have hexited : Acc (Winds body) .exited := by
    constructor
    rintro ph' ⟨a, hs, _⟩
    cases hs
  have hselect : ∀ s, Acc (Winds body) (.select s) := by
    intro s
    constructor
    rintro ph' ⟨a, hs, hne⟩
    cases hs with
    | tick s => exact absurd rfl (hne s)
    | quit s => exact hexited
  have hbusy : ∀ p, Acc (Winds body) (.busy p) := by
    intro p
    induction p with
    | ret s =>
      constructor
      rintro ph' ⟨a, hs, _⟩
      cases hs
      exact hselect s
    | halt h =>
      constructor
      rintro ph' ⟨a, hs, _⟩
      cases hs
      exact hdown h
    | call c k ih =>
      constructor
      rintro ph' ⟨a, hs, _⟩
      cases hs with
      | event c k a => exact ih a
  cases ph with
  | select s => exact hselect s
  | busy p => exact hbusy p
  | down h => exact hdown h
  | exited => exact hexited

/-- A loop that is down halted in the round it did last. -/
theorem Run.down {as : List (Action I S)} {h : H} (hr : Run body s₀ as (.down h)) :
    ∃ as' s t, as = as' ++ .tick s :: t.map .event ++ [.crash] ∧ Prog.Steps (body s) t (.halt h) := by
  generalize hp : Phase.down h = ph at hr
  cases hr with
  | init => cases hp
  | snoc hr hs =>
    cases hs with
    | crash x =>
      cases hp
      obtain ⟨as', s, t, rfl, _, ht⟩ := Run.busy hr rfl
      exact ⟨as', s, t, rfl, ht⟩
    | _ => cases hp

/-- A loop whose body has halted does nothing but go down. -/
theorem Run.halted {as bs : List (Action I S)} {h : H} {ph : Phase I H S}
    (has : Run body s₀ as (.busy (.halt h))) (hr : Run body s₀ (as ++ bs) ph) :
    bs = [] ∨ bs = [.crash] := by
  induction bs using List.reverseRecOn generalizing ph with
  | nil => exact Or.inl rfl
  | append_singleton bs b ih =>
    rw [← List.append_assoc] at hr
    obtain ⟨ph', hr', hs⟩ := Labelled.run_snoc hr
    rcases ih hr' with rfl | rfl
    · rw [List.append_nil] at hr'
      obtain rfl := Run.det hr' has
      cases hs
      exact Or.inr rfl
    · obtain ⟨ph'', hr'', hcrash⟩ := Labelled.run_snoc hr'
      obtain rfl := Run.det hr'' has
      cases hcrash
      cases hs

/-! ## Loops that share an environment -/

/-- An environment moves on its own, and when it answers a call of one of the loops. -/
structure Environment (ι : Type) (I : Interface) where
  State : Type
  evolve : State → State → Prop
  respond : ι → State → Event I → State → Prop

/-- The environment when its own moves are only those of `E`. -/
abbrev Environment.within {ι : Type} (env : Environment ι I) (E : env.State → env.State → Prop) :
    Environment ι I :=
  { env with evolve := E }

inductive Label (ι : Type) (I : Interface) (S : Type) where
  | env
  | act (i : ι) (a : Action I S)

variable {ι : Type} {env : Environment ι I}

/-- Only the answer to a call involves the environment. -/
def Reacts (env : Environment ι I) (i : ι) (e : env.State) : Action I S → env.State → Prop
  | .event ev, e' => env.respond i e ev e'
  | _, e' => e' = e

namespace System

/-- The interleavings of the loops `body i`, which begin in `ph₀ i`, with the environment. -/
inductive Run [DecidableEq ι] (env : Environment ι I) (body : ι → S → Prog I H S)
    (ph₀ : ι → Phase I H S) (e₀ : env.State) :
    List (Label ι I S) → (ι → Phase I H S) → env.State → Prop
  | init : Run env body ph₀ e₀ [] ph₀ e₀
  | env {ls : List (Label ι I S)} {ph : ι → Phase I H S} {e e' : env.State} :
      Run env body ph₀ e₀ ls ph e → env.evolve e e' → Run env body ph₀ e₀ (ls ++ [.env]) ph e'
  | act {ls : List (Label ι I S)} {ph : ι → Phase I H S} {e e' : env.State} {i : ι}
      {a : Action I S} {x : Phase I H S} :
      Run env body ph₀ e₀ ls ph e → Step (body i) (ph i) a x → Reacts env i e a e' →
      Run env body ph₀ e₀ (ls ++ [.act i a]) (Function.update ph i x) e'

/-- What loop `i` does. -/
def actionOf [DecidableEq ι] (i : ι) : Label ι I S → Option (Action I S)
  | .env => none
  | .act j a => if j = i then some a else none

def actions [DecidableEq ι] (i : ι) (ls : List (Label ι I S)) : List (Action I S) :=
  ls.filterMap (actionOf i)

variable [DecidableEq ι] {body : ι → S → Prog I H S} {ph₀ : ι → Phase I H S} {e₀ : env.State}

@[simp] theorem actions_append (i : ι) (ls ks : List (Label ι I S)) :
    actions i (ls ++ ks) = actions i ls ++ actions i ks := List.filterMap_append

@[simp] theorem actions_env (i : ι) : actions i ([.env] : List (Label ι I S)) = [] := rfl

@[simp] theorem actions_cons_self (i : ι) (a : Action I S) (ls : List (Label ι I S)) :
    actions i (.act i a :: ls) = a :: actions i ls :=
  List.filterMap_cons_some (if_pos rfl)

@[simp] theorem actions_cons_ne {i j : ι} (h : j ≠ i) (a : Action I S) (ls : List (Label ι I S)) :
    actions i (.act j a :: ls) = actions i ls :=
  List.filterMap_cons_none (if_neg h)

/-- Where an action of loop `i` stands in the log of the system. -/
theorem append_cons_of_actions {i : ι} {ls : List (Label ι I S)} {as bs : List (Action I S)}
    {a : Action I S} (h : actions i ls = as ++ a :: bs) :
    ∃ ls₁ ls₂, ls = ls₁ ++ .act i a :: ls₂ ∧ actions i ls₁ = as ∧ actions i ls₂ = bs := by
  obtain ⟨ls₁, ls', rfl, h₁, h'⟩ := List.filterMap_eq_append_iff.mp h
  obtain ⟨ks, l, ls₂, rfl, hnone, hl, h₂⟩ := List.filterMap_eq_cons_iff.mp h'
  have hlabel : l = .act i a := by
    cases l with
    | env => cases hl
    | act j b =>
      by_cases hj : j = i
      · rw [actionOf, if_pos hj] at hl
        cases hl
        rw [hj]
      · rw [actionOf, if_neg hj] at hl
        cases hl
  refine ⟨ls₁ ++ ks, ls₂, by simp [hlabel], ?_, h₂⟩
  have hks : ks.filterMap (actionOf i) = [] := List.filterMap_eq_nil_iff.mpr hnone
  unfold actions
  rw [List.filterMap_append, h₁, hks, List.append_nil]

/-- Each loop of a system runs as a loop on its own. -/
theorem Run.actions {ls : List (Label ι I S)} {ph : ι → Phase I H S} {e : env.State}
    (h : Run env body ph₀ e₀ ls ph e) (i : ι) :
    Labelled.Run (Step (body i)) (ph₀ i) (actions i ls) (ph i) := by
  induction h with
  | init => exact .init
  | env _ _ ih => simpa using ih
  | @act ls ph e e' j a x _ hs _ ih =>
    by_cases hj : j = i
    · subst hj
      rw [actions_append, actions_cons_self, Function.update_self]
      exact ih.snoc hs
    · rw [actions_append, actions_cons_ne hj, Function.update_of_ne (Ne.symm hj)]
      simpa [System.actions] using ih

theorem run_snoc {ls : List (Label ι I S)} {l : Label ι I S} {ph : ι → Phase I H S} {e : env.State}
    (h : Run env body ph₀ e₀ (ls ++ [l]) ph e) :
    (l = .env ∧ ∃ e', Run env body ph₀ e₀ ls ph e' ∧ env.evolve e' e) ∨
      ∃ i a ph' e', l = .act i a ∧ Run env body ph₀ e₀ ls ph' e' ∧ Reacts env i e' a e := by
  generalize hl : ls ++ [l] = l' at h
  cases h with
  | init => simp at hl
  | env hr he =>
    obtain ⟨rfl, hlast⟩ := List.append_inj' hl rfl
    exact Or.inl ⟨(List.cons.inj hlast).1, _, hr, he⟩
  | act hr hs he =>
    obtain ⟨rfl, hlast⟩ := List.append_inj' hl rfl
    exact Or.inr ⟨_, _, _, _, (List.cons.inj hlast).1, hr, he⟩

/-- What the environment keeps, together with the log, over a run. -/
theorem Run.environment {P : List (Label ι I S) → env.State → Prop} (hinit : P [] e₀)
    (henv : ∀ {ls e e'}, P ls e → env.evolve e e' → P (ls ++ [.env]) e')
    (hact : ∀ {ls i a e e'}, P ls e → Reacts env i e a e' → P (ls ++ [.act i a]) e')
    {ls : List (Label ι I S)} {ph : ι → Phase I H S} {e : env.State}
    (h : Run env body ph₀ e₀ ls ph e) : P ls e := by
  induction h with
  | init => exact hinit
  | env _ he ih => exact henv ih he
  | act _ _ ha ih => exact hact ih ha

/-- With fewer moves of the environment there are fewer runs. -/
theorem Run.of_within {E : env.State → env.State → Prop} (hE : ∀ {e e'}, E e e' → env.evolve e e')
    {ls : List (Label ι I S)} {ph : ι → Phase I H S} {e : (env.within E).State}
    (h : Run (env.within E) body ph₀ e₀ ls ph e) : Run env body ph₀ e₀ ls ph e := by
  induction h with
  | init => exact .init
  | env _ he ih => exact ih.env (hE he)
  | @act ls ph e e' i a x _ hs ha ih =>
    have hreacts : Reacts env i e a e' := by
      cases a <;> exact ha
    exact ih.act hs hreacts

/-- The environment answers the calls of loop `i` one after the other, undisturbed. -/
inductive Answers (env : Environment ι I) (i : ι) : env.State → Trace I → env.State → Prop
  | nil (e : env.State) : Answers env i e [] e
  | cons {e e' e'' : env.State} {ev : Event I} {t : Trace I} :
      env.respond i e ev e' → Answers env i e' t e'' → Answers env i e (ev :: t) e''

omit [DecidableEq ι] in
theorem Answers.within {E : env.State → env.State → Prop} {i : ι} {e e' : env.State} {t : Trace I}
    (h : Answers env i e t e') : Answers (env.within E) i e t e' := by
  induction h with
  | nil e => exact @Answers.nil I ι (env.within E) i e
  | cons hev _ ih => exact @Answers.cons I ι (env.within E) i _ _ _ _ _ hev ih

theorem Run.steps {ls : List (Label ι I S)} {ph : ι → Phase I H S} {e e' : env.State} {i : ι}
    {p q : Prog I H S} {t : Trace I} (h : Run env body ph₀ e₀ ls ph e) (hp : ph i = .busy p)
    (ht : Prog.Steps p t q) (ha : Answers env i e t e') :
    Run env body ph₀ e₀ (ls ++ t.map fun ev => .act i (.event ev))
      (Function.update ph i (.busy q)) e' := by
  induction ht generalizing ls ph e with
  | refl p =>
    cases ha
    rw [← hp, Function.update_eq_self]
    simpa using h
  | @call c k u q a _ ih =>
    cases ha with
    | cons hev ha =>
      have hstep : Step (body i) (ph i) (.event ⟨c, a⟩) (.busy (k a)) := hp ▸ Step.event c k a
      have hnext := h.act (a := .event ⟨c, a⟩) hstep hev
      have hrest := ih hnext (Function.update_self ..) ha
      rw [Function.update_idem] at hrest
      rw [List.map_cons, List.append_cons]
      exact hrest

/-- A whole round of loop `i`, undisturbed. -/
theorem Run.complete {ls : List (Label ι I S)} {ph : ι → Phase I H S} {e e' : env.State} {i : ι}
    {s s' : S} {t : Trace I} (h : Run env body ph₀ e₀ ls ph e) (hs : ph i = .select s)
    (ht : Prog.Steps (body i s) t (.ret s')) (ha : Answers env i e t e') :
    Run env body ph₀ e₀ (ls ++ .act i (.tick s) :: (t.map fun ev => .act i (.event ev)) ++
      [.act i (.done s')]) (Function.update ph i (.select s')) e' := by
  have hstep : Step (body i) (ph i) (.tick s) (.busy (body i s)) := hs ▸ Step.tick s
  have htick := h.act (a := .tick s) hstep rfl
  have hbusy := htick.steps (Function.update_self ..) ht ha
  rw [Function.update_idem] at hbusy
  have hlast : Step (body i) (Function.update ph i (.busy (.ret s')) i) (.done s') (.select s') := by
    rw [Function.update_self]
    exact .done s'
  have hdone := hbusy.act (a := .done s') hlast rfl
  rw [Function.update_idem] at hdone
  rw [List.append_cons ls]
  exact hdone

/-- The environment answers the calls of loop `i`, and moves on its own in between. -/
inductive Interleaves (env : Environment ι I) (i : ι) : env.State → Trace I → env.State → Prop
  | nil (e : env.State) : Interleaves env i e [] e
  | move {e e' e'' : env.State} {t : Trace I} :
      env.evolve e e' → Interleaves env i e' t e'' → Interleaves env i e t e''
  | answer {e e' e'' : env.State} {ev : Event I} {t : Trace I} :
      env.respond i e ev e' → Interleaves env i e' t e'' → Interleaves env i e (ev :: t) e''

omit [DecidableEq ι] in
/-- What moves and answers keep, together with the calls so far. -/
theorem Interleaves.invariant {i : ι} {P : Trace I → env.State → Prop}
    (hmove : ∀ {d e e'}, P d e → env.evolve e e' → P d e')
    (hanswer : ∀ {d ev e e'}, P d e → env.respond i e ev e' → P (d ++ [ev]) e')
    {d t : Trace I} {e e' : env.State} (h : Interleaves env i e t e') (hP : P d e) : P (d ++ t) e' := by
  induction h generalizing d with
  | nil e => simpa using hP
  | move hm _ ih => exact ih (hmove hP hm)
  | answer ha _ ih =>
    rw [List.append_cons]
    exact ih (hanswer hP ha)

omit [DecidableEq ι] in
/-- An answered call, with the environment before and after it. -/
theorem Interleaves.event {i : ι} {t u : Trace I} {ev : Event I} {e e' : env.State}
    (h : Interleaves env i e (t ++ ev :: u) e') :
    ∃ e₁ e₂, Interleaves env i e t e₁ ∧ env.respond i e₁ ev e₂ ∧ Interleaves env i e₂ u e' := by
  generalize hl : t ++ ev :: u = l at h
  induction h generalizing t with
  | nil e => simp at hl
  | move hm _ ih =>
    obtain ⟨e₁, e₂, h₁, hev, h₂⟩ := ih hl
    exact ⟨e₁, e₂, .move hm h₁, hev, h₂⟩
  | @answer e e₁ e₂ ev' t' ha hrest ih =>
    cases t with
    | nil =>
      cases hl
      exact ⟨e, e₁, .nil e, ha, hrest⟩
    | cons x t =>
      obtain ⟨rfl, htail⟩ := List.cons.inj hl
      obtain ⟨e₃, e₄, h₁, hev, h₂⟩ := ih htail
      exact ⟨e₃, e₄, .answer ha h₁, hev, h₂⟩

/-- A program of loop `i` that is run in such an environment. -/
theorem Run.interleaved {ls : List (Label ι I S)} {ph : ι → Phase I H S} {e e' : env.State} {i : ι}
    {p q : Prog I H S} {t : Trace I} (h : Run env body ph₀ e₀ ls ph e) (hp : ph i = .busy p)
    (ht : Prog.Steps p t q) (hi : Interleaves env i e t e') :
    ∃ ks, Run env body ph₀ e₀ (ls ++ ks) (Function.update ph i (.busy q)) e' := by
  induction hi generalizing ls ph p with
  | nil e =>
    cases ht
    refine ⟨[], ?_⟩
    rw [← hp, Function.update_eq_self, List.append_nil]
    exact h
  | move hm _ ih =>
    obtain ⟨ks, hks⟩ := ih (h.env hm) hp ht
    exact ⟨.env :: ks, by simpa using hks⟩
  | @answer e e₁ e₂ ev u ha _ ih =>
    cases ht with
    | @call c k _ _ a ht =>
      have hstep : Step (body i) (ph i) (.event ⟨c, a⟩) (.busy (k a)) := hp ▸ Step.event c k a
      obtain ⟨ks, hks⟩ := ih (h.act (a := .event ⟨c, a⟩) hstep ha) (Function.update_self ..) ht
      rw [Function.update_idem] at hks
      exact ⟨.act i (.event ⟨c, a⟩) :: ks, by simpa using hks⟩

section Monotone

variable {R : env.State → env.State → Prop} (hrefl : ∀ e, R e e)
  (htrans : ∀ {e₁ e₂ e₃}, R e₁ e₂ → R e₂ e₃ → R e₁ e₃) (hevolve : ∀ {e e'}, env.evolve e e' → R e e')
  (hrespond : ∀ {i e ev e'}, env.respond i e ev e' → R e e')
include hrefl htrans hevolve hrespond

/-- Along a run the environment only grows. -/
theorem Run.of_append {ls ks : List (Label ι I S)} {ph : ι → Phase I H S} {e : env.State}
    (h : Run env body ph₀ e₀ (ls ++ ks) ph e) :
    ∃ ph' e', Run env body ph₀ e₀ ls ph' e' ∧ R e' e := by
  induction ks using List.reverseRecOn generalizing ph e with
  | nil => exact ⟨ph, e, by simpa using h, hrefl e⟩
  | append_singleton ks k ih =>
    rw [← List.append_assoc] at h
    rcases run_snoc h with ⟨rfl, e', hr, he⟩ | ⟨i, a, ph', e', rfl, hr, he⟩
    · obtain ⟨ph₁, e₁, h₁, hle⟩ := ih hr
      exact ⟨ph₁, e₁, h₁, htrans hle (hevolve he)⟩
    · obtain ⟨ph₁, e₁, h₁, hle⟩ := ih hr
      refine ⟨ph₁, e₁, h₁, htrans hle ?_⟩
      cases a with
      | event ev => exact hrespond he
      | _ => exact he ▸ hrefl _

/-- An answered call, with the environment before it and one after it. -/
theorem Run.event {ls ks : List (Label ι I S)} {i : ι} {ev : Event I} {ph : ι → Phase I H S}
    {e : env.State} (h : Run env body ph₀ e₀ (ls ++ .act i (.event ev) :: ks) ph e) :
    ∃ ph₁ e₁ e₂, Run env body ph₀ e₀ ls ph₁ e₁ ∧ env.respond i e₁ ev e₂ ∧ R e₂ e := by
  rw [List.append_cons] at h
  obtain ⟨ph', e', h', hle⟩ := h.of_append hrefl htrans hevolve hrespond
  rcases run_snoc h' with ⟨hl, _⟩ | ⟨j, a, ph₁, e₁, hl, hr, he⟩
  · cases hl
  · cases hl
    exact ⟨ph₁, e₁, e', hr, he, hle⟩

end Monotone

end System

end Reactor
