import Mathlib.Data.List.Induction
import Mathlib.Logic.Relation
import Mathlib.Order.WellFounded

/-! Runs of a relation of labelled steps, with the log of their labels, and the states that are
gone through along a log (`Along`). Steps whose labels are internal wind a system down: what they
reach is reached by a run (`Run.winds`), and they come to an end where a rank and then a part of
the state go down (`winds_wellFounded`). -/

namespace Labelled

variable {S L T : Type} {step : S → L → S → Prop} {s₀ s s' : S} {ls ks : List L}

inductive Run (step : S → L → S → Prop) (s₀ : S) : List L → S → Prop
  | init : Run step s₀ [] s₀
  | snoc {ls : List L} {l : L} {s s' : S} :
      Run step s₀ ls s → step s l s' → Run step s₀ (ls ++ [l]) s'

theorem run_nil (h : Run step s₀ [] s) : s = s₀ := by
  generalize hl : ([] : List L) = ls at h
  cases h with
  | init => rfl
  | snoc => simp at hl

theorem run_snoc {l : L} (h : Run step s₀ (ls ++ [l]) s) : ∃ s₁, Run step s₀ ls s₁ ∧ step s₁ l s := by
  generalize hk : ls ++ [l] = ks at h
  cases h with
  | init => simp at hk
  | snoc hr hs =>
    obtain ⟨rfl, hlast⟩ := List.append_inj' hk rfl
    obtain rfl := (List.cons.inj hlast).1
    exact ⟨_, hr, hs⟩

theorem Run.of_append (h : Run step s₀ (ls ++ ks) s) : ∃ s₁, Run step s₀ ls s₁ := by
  induction ks using List.reverseRecOn generalizing s with
  | nil => exact ⟨s, by simpa using h⟩
  | append_singleton ks k ih =>
    rw [← List.append_assoc] at h
    obtain ⟨s₁, hr, _⟩ := run_snoc h
    exact ih hr

/-- From a state without steps there is only the empty run. -/
theorem run_of_stuck (hstuck : ∀ l s', ¬ step s₀ l s') (h : Run step s₀ ls s) : ls = [] ∧ s = s₀ := by
  induction h with
  | init => exact ⟨rfl, rfl⟩
  | snoc _ hs ih =>
    obtain ⟨_, rfl⟩ := ih
    exact absurd hs (hstuck _ _)

theorem Run.keeps {P : S → Prop} (hstep : ∀ {s l s'}, P s → step s l s' → P s')
    (h : Run step s₀ ls s) (h₀ : P s₀) : P s := by
  induction h with
  | init => exact h₀
  | snoc _ hs ih => exact hstep ih hs

/-! ## States along a log -/

variable {R : List L × S → List L × S → Prop}

/-- States from `s₀` to `s`, one for each prefix of `ls`, with `R` between neighbours. -/
def Along (R : List L × S → List L × S → Prop) (s₀ : S) (ls : List L) (s : S) : Prop :=
  ∃ f : Nat → S, f 0 = s₀ ∧ f ls.length = s ∧
    ∀ n < ls.length, R (ls.take n, f n) (ls.take (n + 1), f (n + 1))

theorem Along.nil (s : S) : Along R s [] s := ⟨fun _ => s, rfl, rfl, nofun⟩

theorem Along.snoc {l : L} (h : Along R s₀ ls s) (hl : R (ls, s) (ls ++ [l], s')) :
    Along R s₀ (ls ++ [l]) s' := by
  obtain ⟨f, hfirst, hlast, hf⟩ := h
  refine ⟨Function.update f (ls.length + 1) s', ?_, ?_, ?_⟩
  · rw [Function.update_of_ne (by omega), hfirst]
  · rw [List.length_append, List.length_singleton, Function.update_self]
  intro n hn
  rw [List.length_append, List.length_singleton] at hn
  rw [Function.update_of_ne (Nat.ne_of_lt hn)]
  by_cases hlt : n < ls.length
  · rw [Function.update_of_ne (by omega), List.take_append_of_le_length hlt.le,
      List.take_append_of_le_length hlt]
    exact hf n hlt
  · obtain rfl : n = ls.length := by omega
    rw [Function.update_self, hlast, List.take_left, List.take_of_length_le (by simp)]
    exact hl

variable {internal : L → Prop}

/-- An internal step. -/
def Winds (internal : L → Prop) (step : S → L → S → Prop) (s' s : S) : Prop :=
  ∃ l, internal l ∧ step s l s'

/-- What internal steps reach after a run is reached by a run. -/
theorem Run.winds (h : Run step s₀ ls s)
    (hw : Relation.ReflTransGen (fun s₁ s₂ => Winds internal step s₂ s₁) s s') :
    ∃ ks, Run step s₀ (ls ++ ks) s' := by
  induction hw with
  | refl => exact ⟨[], by simpa using h⟩
  | tail _ hstep ih =>
    obtain ⟨ks, hks⟩ := ih
    obtain ⟨l, _, hs⟩ := hstep
    exact ⟨ks ++ [l], by simpa using hks.snoc hs⟩

/-- Internal steps that lower a rank, or else a part of the state, come to an end. -/
theorem winds_wellFounded {r : T → T → Prop} (hr : WellFounded r) (rank : S → Nat) (part : S → T)
    (h : ∀ {s' s}, Winds internal step s' s →
      rank s' < rank s ∨ rank s' = rank s ∧ r (part s') (part s)) :
    WellFounded (Winds internal step) := by
  refine Subrelation.wf ?_ (InvImage.wf (fun s => (rank s, part s)) (Nat.lt_wfRel.wf.prod_lex hr))
  intro s' s hw
  rcases h hw with hlt | ⟨heq, hpart⟩
  · exact Prod.Lex.left _ _ hlt
  · show Prod.Lex _ _ (rank s', part s') (rank s, part s)
    rw [heq]
    exact Prod.Lex.right _ hpart

theorem not_forever (hwf : WellFounded (Winds internal step)) (s : S) :
    ¬ ∃ f : Nat → S, f 0 = s ∧ ∀ n, Winds internal step (f (n + 1)) (f n) := by
  rintro ⟨f, _, hf⟩
  exact (wellFounded_iff_isEmpty_descending_chain.mp hwf).false ⟨f, hf⟩

end Labelled
