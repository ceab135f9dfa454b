import Covenant.Reactor
import Covenant.Reference

/-! `Start` and `Stop`. Goroutines `τ` call them any number of times while the submission
loop runs; a `sync.Once` is kept together with how far its function has come, since a
caller leaves `Do` only when that function is done, whoever runs it. A loop that panics
takes the process down with it, after its deferred call has run. One invariant ties
the two `Once`s, the wait group, the quit channel and the loop (`Inv`), and gives
`lifecycle_safety`. -/

namespace Covenant.Lifecycle
open Outcome Interaction Bitcoin Emulator Loop Reference

/-! ## State -/

/-- A `sync.Once` whose function has the program points `P`. -/
inductive Once (P : Type) where
  | idle
  | running (p : P)
  | done
  deriving DecidableEq, Repr

/-- The function of `Start`: `ce.wg.Add(1)`, `go ce.covenantSigSubmissionLoop()`, the end. -/
inductive StartPoint
  | add
  | spawn
  | finish
  deriving DecidableEq, Repr

/-- The function of `Stop`: `close(ce.quit)`, `ce.wg.Wait()`, the end. -/
inductive StopPoint
  | close
  | wait
  | finish
  deriving DecidableEq, Repr

inductive Op
  | start
  | stop
  deriving DecidableEq, Repr

abbrev LoopPhase := Reactor.Phase clientController Halt CovenantEmulator
abbrev LoopAction := Reactor.Action clientController CovenantEmulator

/-- A goroutine that was spawned for the loop: until its deferred `wg.Done` has run, and after
that, when the loop has panicked and when it has returned. -/
inductive Goroutine
  | live (ph : LoopPhase)
  | unwound
  | finished

/-- What a goroutine adds to the wait group. -/
def Goroutine.count : Goroutine → Int
  | .live _ => 1
  | .unwound => 0
  | .finished => 0

/-- The calls that are going on (`none` outside of a call), and the fields of the
emulator. `startReturned` says that some call of `Start` has returned, `died` that a panic has
ended the process. -/
structure State (τ : Type) where
  calling : τ → Option Op
  startOnce : Once StartPoint
  stopOnce : Once StopPoint
  wg : Int
  closes : Nat
  loops : List Goroutine
  startReturned : Bool
  died : Bool

def initial (τ : Type) : State τ where
  calling _ := none
  startOnce := .idle
  stopOnce := .idle
  wg := 0
  closes := 0
  loops := []
  startReturned := false
  died := false

/-! ## Steps -/

inductive Label (τ : Type)
  | call (t : τ) (op : Op)
  | sync
  | ret (t : τ) (op : Op)
  | loop (k : Nat) (a : LoopAction)
  | release (k : Nat)
  | die

/-- The steps of a process that has not died. -/
inductive Move {τ : Type} [DecidableEq τ] (lib : Lib) (ce : CovenantEmulator) :
    State τ → Label τ → State τ → Prop
  | callStart (s : State τ) (t : τ) : s.calling t = none →
      Move lib ce s (.call t .start) { s with calling := Function.update s.calling t (some .start) }
  -- `RunUntilShutdown` stops the emulator after a call of `Start` has returned
  | callStop (s : State τ) (t : τ) : s.calling t = none → s.startReturned = true →
      Move lib ce s (.call t .stop) { s with calling := Function.update s.calling t (some .stop) }
  | enterStart (s : State τ) (t : τ) : s.calling t = some .start → s.startOnce = .idle →
      Move lib ce s .sync { s with startOnce := .running .add }
  | add (s : State τ) : s.startOnce = .running .add →
      Move lib ce s .sync { s with startOnce := .running .spawn, wg := s.wg + 1 }
  | spawn (s : State τ) : s.startOnce = .running .spawn →
      Move lib ce s .sync
        { s with startOnce := .running .finish, loops := s.loops ++ [.live (covenantSigSubmissionLoop ce)] }
  | finishStart (s : State τ) : s.startOnce = .running .finish →
      Move lib ce s .sync { s with startOnce := .done }
  | returnStart (s : State τ) (t : τ) : s.calling t = some .start → s.startOnce = .done →
      Move lib ce s (.ret t .start)
        { s with calling := Function.update s.calling t none, startReturned := true }
  | enterStop (s : State τ) (t : τ) : s.calling t = some .stop → s.stopOnce = .idle →
      Move lib ce s .sync { s with stopOnce := .running .close }
  | close (s : State τ) : s.stopOnce = .running .close →
      Move lib ce s .sync { s with stopOnce := .running .wait, closes := s.closes + 1 }
  | wait (s : State τ) : s.stopOnce = .running .wait → s.wg = 0 →
      Move lib ce s .sync { s with stopOnce := .running .finish }
  | finishStop (s : State τ) : s.stopOnce = .running .finish →
      Move lib ce s .sync { s with stopOnce := .done }
  | returnStop (s : State τ) (t : τ) : s.calling t = some .stop → s.stopOnce = .done →
      Move lib ce s (.ret t .stop) { s with calling := Function.update s.calling t none }
  -- a tick may still be taken when the channel is closed
  | loop (s : State τ) (k : Nat) (ph ph' : LoopPhase) (a : LoopAction) :
      s.loops[k]? = some (.live ph) → Reactor.Step (tick lib) ph a ph' →
      (a = .quit → 0 < s.closes) →
      Move lib ce s (.loop k a) { s with loops := s.loops.set k (.live ph') }
  | release (s : State τ) (k : Nat) : s.loops[k]? = some (.live .exited) →
      Move lib ce s (.release k) { s with loops := s.loops.set k .finished, wg := s.wg - 1 }
  -- the deferred call of a loop that panics, and then the end of the process
  | unwind (s : State τ) (k : Nat) (msg : String) : s.loops[k]? = some (.live (.down (.panic msg))) →
      Move lib ce s (.release k) { s with loops := s.loops.set k .unwound, wg := s.wg - 1 }
  | die (s : State τ) (k : Nat) : s.loops[k]? = some .unwound →
      Move lib ce s .die { s with died := true }

def Step {τ : Type} [DecidableEq τ] (lib : Lib) (ce : CovenantEmulator) (s : State τ) (l : Label τ)
    (s' : State τ) : Prop :=
  s.died = false ∧ Move lib ce s l s'

abbrev Run {τ : Type} [DecidableEq τ] (lib : Lib) (ce : CovenantEmulator) :
    List (Label τ) → State τ → Prop :=
  Labelled.Run (Step lib ce) (initial τ)

/-! ## The invariant -/

variable {τ : Type}

/-- What the progress of `Start` says about the loops and the wait group. -/
def StartInv (s : State τ) : Prop :=
  match s.startOnce with
  | .idle | .running .add => s.loops = [] ∧ s.wg = 0 ∧ s.startReturned = false
  | .running .spawn => s.loops = [] ∧ s.wg = 1 ∧ s.startReturned = false
  | .running .finish => ∃ g, s.loops = [g] ∧ s.wg = g.count ∧ s.startReturned = false
  | .done => ∃ g, s.loops = [g] ∧ s.wg = g.count

/-- What the progress of `Stop` says about the channel and the loops. -/
def StopInv (s : State τ) : Prop :=
  match s.stopOnce with
  | .idle | .running .close => s.closes = 0
  | .running .wait => s.closes = 1
  | .running .finish | .done => s.closes = 1 ∧ ∀ ph, .live ph ∉ s.loops

structure Inv (s : State τ) : Prop where
  start : StartInv s
  stop : StopInv s
  /-- `Stop` is called, and its function runs, after a call of `Start` has returned. -/
  calls : ∀ t, s.calling t = some .stop → s.startReturned = true
  stops : s.stopOnce ≠ .idle → s.startReturned = true

theorem inv_initial : Inv (initial τ) where
  start := ⟨rfl, rfl, rfl⟩
  stop := rfl
  calls t h := by cases h
  stops h := absurd rfl h

variable {lib : Lib} {ce : CovenantEmulator} {s s' : State τ} {l : Label τ} {ls : List (Label τ)}

/-- The function of `Start` is past the spawn. -/
def Spawned (s : State τ) : Prop :=
  s.startOnce = .done ∨ s.startOnce = .running .finish ∧ s.startReturned = false

theorem startInv_of_spawned {g : Goroutine} (h : Spawned s) (hl : s.loops = [g])
    (hwg : s.wg = g.count) : StartInv s := by
  rcases h with h | ⟨h, hr⟩
  · simp only [StartInv, h]
    exact ⟨g, hl, hwg⟩
  · simp only [StartInv, h]
    exact ⟨g, hl, hwg, hr⟩

/-- Either no loop was spawned yet, or there is exactly one. -/
theorem StartInv.cases (h : StartInv s) :
    (s.loops = [] ∧ s.startReturned = false ∧
      (s.startOnce ≠ .running .spawn ∧ s.wg = 0 ∨ s.startOnce = .running .spawn ∧ s.wg = 1)) ∨
      Spawned s ∧ ∃ g, s.loops = [g] ∧ s.wg = g.count := by
  rcases ho : s.startOnce with _ | (_ | _ | _) | _
  · simp only [StartInv, ho] at h
    exact Or.inl ⟨h.1, h.2.2, Or.inl ⟨by simp, h.2.1⟩⟩
  · simp only [StartInv, ho] at h
    exact Or.inl ⟨h.1, h.2.2, Or.inl ⟨by simp, h.2.1⟩⟩
  · simp only [StartInv, ho] at h
    exact Or.inl ⟨h.1, h.2.2, Or.inr ⟨rfl, h.2.1⟩⟩
  · simp only [StartInv, ho] at h
    obtain ⟨g, hl, hwg, hr⟩ := h
    exact Or.inr ⟨Or.inr ⟨ho, hr⟩, g, hl, hwg⟩
  · simp only [StartInv, ho] at h
    exact Or.inr ⟨Or.inl ho, h⟩

/-- After a call of `Start` has returned there is exactly one loop. -/
theorem StartInv.of_returned (h : StartInv s) (hr : s.startReturned = true) :
    s.startOnce = .done ∧ ∃ g, s.loops = [g] ∧ s.wg = g.count := by
  rcases h.cases with ⟨_, hr', _⟩ | ⟨ho | ⟨_, hr'⟩, hg⟩
  · rw [hr] at hr'
    cases hr'
  · exact ⟨ho, hg⟩
  · rw [hr] at hr'
    cases hr'

/-- A loop that takes a step is the only one, and counted. -/
theorem StartInv.of_live (h : StartInv s) {k : Nat} {ph : LoopPhase}
    (hk : s.loops[k]? = some (.live ph)) : Spawned s ∧ k = 0 ∧ s.loops = [.live ph] ∧ s.wg = 1 := by
  rcases h.cases with ⟨hl, _⟩ | ⟨hs, g, hl, hwg⟩
  · rw [hl] at hk
    cases hk
  · rw [hl] at hk
    obtain ⟨hlt, hg⟩ := List.getElem?_eq_some_iff.mp hk
    have hk0 : k = 0 := by
      simp only [List.length_singleton] at hlt
      omega
    subst hk0
    simp only [List.getElem_cons_zero] at hg
    rw [hg] at hl hwg
    exact ⟨hs, rfl, hl, hwg⟩

/-- While a loop is live, `Stop` has not waited for it yet. -/
theorem StopInv.of_live (h : StopInv s) {ph : LoopPhase} (hl : s.loops = [.live ph])
    (gs : List Goroutine) (n : Int) : StopInv { s with loops := gs, wg := n } := by
  have hlive : ¬ ∀ ph, .live ph ∉ s.loops := by
    rw [hl]
    exact fun hnone => hnone ph (List.mem_singleton_self _)
  rcases ho : s.stopOnce with _ | (_ | _ | _) | _
  · simp only [StopInv, ho] at h ⊢
    exact h
  · simp only [StopInv, ho] at h ⊢
    exact h
  · simp only [StopInv, ho] at h ⊢
    exact h
  · simp only [StopInv, ho] at h
    exact absurd h.2 hlive
  · simp only [StopInv, ho] at h
    exact absurd h.2 hlive

/-- What is not in a call of `Stop` afterwards was not before, but for the caller. -/
theorem calls_update [DecidableEq τ] (h : Inv s) (t : τ) {op : Option Op}
    (hop : op ≠ some .stop) (u : τ) (hu : Function.update s.calling t op u = some .stop) :
    s.startReturned = true := by
  by_cases hut : u = t
  · rw [hut, Function.update_self] at hu
    exact absurd hu hop
  · rw [Function.update_of_ne hut] at hu
    exact h.calls u hu

theorem not_live_of_wait (h : Inv s) (ho : s.stopOnce = .running .wait) (hwg : s.wg = 0) (ph : LoopPhase) :
    .live ph ∉ s.loops := by
  have hr : s.startReturned = true := h.stops (by simp [ho])
  obtain ⟨_, g, hl, hcount⟩ := h.start.of_returned hr
  rw [hl]
  intro hmem
  cases List.mem_singleton.mp hmem
  rw [hwg] at hcount
  cases hcount

/-- **Step lemma.** -/
theorem inv_step [DecidableEq τ] (h : Inv s) (hs : Step lib ce s l s') : Inv s' := by
  have hstart := h.start
  have hstop := h.stop
  have hended : ∀ {k ph}, s.loops[k]? = some (.live ph) → ∀ g : Goroutine, g.count = 0 →
      Inv { s with loops := s.loops.set k g, wg := s.wg - 1 } := by
    intro k ph hk g hg
    obtain ⟨hsp, rfl, hl, hwg⟩ := hstart.of_live hk
    have hset : s.loops.set 0 g = [g] := by
      rw [hl]
      rfl
    have hcount : s.wg - 1 = g.count := by
      rw [hwg, hg]
      rfl
    rw [hset]
    exact ⟨startInv_of_spawned hsp rfl hcount, hstop.of_live hl _ _, h.calls, h.stops⟩
  obtain ⟨_, hs⟩ := hs
  cases hs with
  | callStart t ht => exact ⟨hstart, hstop, calls_update h t (by simp), h.stops⟩
  | callStop t ht hr => exact ⟨hstart, hstop, fun _ _ => hr, h.stops⟩
  | enterStart t ht ho =>
    simp only [StartInv, ho] at hstart
    exact ⟨hstart, hstop, h.calls, h.stops⟩
  | add ho =>
    simp only [StartInv, ho] at hstart
    obtain ⟨hl, hwg, hr⟩ := hstart
    have hone : s.wg + 1 = 1 := by omega
    exact ⟨⟨hl, hone, hr⟩, hstop, h.calls, h.stops⟩
  | spawn ho =>
    simp only [StartInv, ho] at hstart
    obtain ⟨hl, hwg, hr⟩ := hstart
    -- nobody can have called `Stop` yet, so its function does not run
    have hidle : s.stopOnce = .idle := by
      by_contra hne
      rw [h.stops hne] at hr
      cases hr
    refine ⟨⟨.live (covenantSigSubmissionLoop ce), ?_, hwg, hr⟩, ?_, h.calls, h.stops⟩
    · simp [hl]
    · simp only [StopInv, hidle] at hstop ⊢
      exact hstop
  | finishStart ho =>
    simp only [StartInv, ho] at hstart
    obtain ⟨g, hl, hwg, _⟩ := hstart
    exact ⟨⟨g, hl, hwg⟩, hstop, h.calls, h.stops⟩
  | returnStart t ht ho =>
    simp only [StartInv, ho] at hstart
    refine ⟨?_, hstop, fun _ _ => rfl, fun _ => rfl⟩
    simp only [StartInv, ho]
    exact hstart
  | enterStop t ht ho =>
    simp only [StopInv, ho] at hstop
    exact ⟨hstart, hstop, h.calls, fun _ => h.calls t ht⟩
  | close ho =>
    simp only [StopInv, ho] at hstop
    have hone : s.closes + 1 = 1 := by omega
    exact ⟨hstart, hone, h.calls, fun _ => h.stops (by simp [ho])⟩
  | wait ho hwg =>
    have hnone := not_live_of_wait h ho hwg
    simp only [StopInv, ho] at hstop
    exact ⟨hstart, ⟨hstop, hnone⟩, h.calls, fun _ => h.stops (by simp [ho])⟩
  | finishStop ho =>
    simp only [StopInv, ho] at hstop
    exact ⟨hstart, hstop, h.calls, fun _ => h.stops (by simp [ho])⟩
  | returnStop t ht ho => exact ⟨hstart, hstop, calls_update h t (by simp), h.stops⟩
  | loop k ph ph' a hk hstep hq =>
    obtain ⟨hsp, rfl, hl, hwg⟩ := hstart.of_live hk
    have hset : s.loops.set 0 (.live ph') = [.live ph'] := by
      rw [hl]
      rfl
    rw [hset]
    exact ⟨startInv_of_spawned hsp rfl hwg, hstop.of_live hl _ _, h.calls, h.stops⟩
  | release k hk => exact hended hk .finished rfl
  | unwind k msg hk => exact hended hk .unwound rfl
  | die k hk => exact ⟨hstart, hstop, h.calls, h.stops⟩

/-- **Run lemma.** -/
theorem inv_run [DecidableEq τ] (h : Run lib ce ls s) : Inv s :=
  h.keeps inv_step inv_initial

/-! ## Safety -/

theorem StartInv.bounds (h : StartInv s) :
    s.loops.length ≤ 1 ∧ 0 ≤ s.wg ∧
      ((∃ ph, .live ph ∈ s.loops) ∨ s.startOnce = .running .spawn → 0 < s.wg) := by
  rcases h.cases with ⟨hl, _, ⟨hne, hwg⟩ | ⟨_, hwg⟩⟩ | ⟨hsp, g, hl, hwg⟩
  · refine ⟨by simp [hl], by omega, ?_⟩
    rintro (⟨ph, hph⟩ | ho)
    · simp [hl] at hph
    · exact absurd ho hne
  · exact ⟨by simp [hl], by omega, fun _ => by omega⟩
  · cases g with
    | live ph =>
      have hone : s.wg = 1 := hwg
      exact ⟨by simp [hl], by omega, fun _ => by omega⟩
    | _ =>
      have hzero : s.wg = 0 := hwg
      refine ⟨by simp [hl], by omega, ?_⟩
      rintro (⟨ph, hph⟩ | ho)
      · simp [hl] at hph
      · rcases hsp with hd | ⟨hf, _⟩
        · simp [hd] at ho
        · simp [hf] at ho

theorem StopInv.closes_le (h : StopInv s) : s.closes ≤ 1 := by
  rcases ho : s.stopOnce with _ | (_ | _ | _) | _
  all_goals
    simp only [StopInv, ho] at h
    omega

/-- `Stop` stays done. -/
theorem stop_done_step [DecidableEq τ] (hs : Move lib ce s l s') (h : s.stopOnce = .done) :
    s'.stopOnce = .done := by
  cases hs with
  | enterStop t ht ho => simp [ho] at h
  | close ho => simp [ho] at h
  | wait ho hwg => simp [ho] at h
  | finishStop ho => rfl
  | _ => exact h

theorem not_live_of_done (h : Inv s) (ho : s.stopOnce = .done) (ph : LoopPhase) : .live ph ∉ s.loops := by
  have hstop := h.stop
  simp only [StopInv, ho] at hstop
  exact hstop.2 ph

/-- When `Stop` is done, no loop takes a step. -/
theorem not_loop_of_done [DecidableEq τ] {k : Nat} {a : LoopAction} (h : Inv s)
    (ho : s.stopOnce = .done) (hs : Step lib ce s (.loop k a) s') : False := by
  obtain ⟨_, hs⟩ := hs
  cases hs with
  | loop k ph ph' a hk hstep hq => exact not_live_of_done h ho ph (List.mem_of_getElem? hk)

theorem stopped_of_run [DecidableEq τ] (h : Run lib ce ls s) :
    ∀ ls₁ t ls₂, ls = ls₁ ++ .ret t .stop :: ls₂ →
      s.stopOnce = .done ∧ ∀ k a, .loop k a ∉ ls₂ := by
  induction h with
  | init =>
    intro ls₁ t ls₂ heq
    simp at heq
  | @snoc ls l s s' hr hs ih =>
    intro ls₁ t ls₂ heq
    rcases List.eq_nil_or_concat' ls₂ with rfl | ⟨ls₂', x, rfl⟩
    · -- the step itself is the return of `Stop`
      obtain ⟨_, hl⟩ := List.append_inj' heq rfl
      cases hl
      obtain ⟨_, hs⟩ := hs
      cases hs with
      | returnStop t ht ho => exact ⟨ho, by simp⟩
    · rw [← List.cons_append, ← List.append_assoc] at heq
      obtain ⟨rfl, hl⟩ := List.append_inj' heq rfl
      cases hl
      obtain ⟨hdone, hnone⟩ := ih ls₁ t ls₂' rfl
      refine ⟨stop_done_step hs.2 hdone, ?_⟩
      intro k a hmem
      rcases List.mem_append.mp hmem with hmem | hmem
      · exact hnone k a hmem
      · obtain rfl := List.mem_singleton.mp hmem
        exact not_loop_of_done (inv_run hr) hdone hs

/-- **Lifecycle safety.** -/
theorem lifecycle_safety [DecidableEq τ] (lib : Lib) (ce : CovenantEmulator) (ls : List (Label τ))
    (s : State τ) (h : Run lib ce ls s) :
    s.loops.length ≤ 1 ∧ s.closes ≤ 1 ∧ 0 ≤ s.wg ∧
      ((∃ ph, .live ph ∈ s.loops) ∨ s.startOnce = .running .spawn → 0 < s.wg) ∧
      ∀ ls₁ t ls₂, ls = ls₁ ++ .ret t .stop :: ls₂ →
        (∀ ph, .live ph ∉ s.loops) ∧ ∀ k a, .loop k a ∉ ls₂ := by
  have hinv := inv_run h
  obtain ⟨hlen, hnonneg, hpos⟩ := hinv.start.bounds
  refine ⟨hlen, hinv.stop.closes_le, hnonneg, hpos, ?_⟩
  intro ls₁ t ls₂ heq
  obtain ⟨hdone, hnone⟩ := stopped_of_run h ls₁ t ls₂ heq
  exact ⟨not_live_of_done hinv hdone, hnone⟩

/-- A start, a stop by another goroutine, and the end of the loop in between. -/
def sampleLabels : List (Label Bool) :=
  [.call true .start, .sync, .sync, .sync, .sync, .ret true .start, .call false .stop, .sync, .sync,
    .loop 0 .quit, .release 0, .sync, .sync, .ret false .stop]

theorem run_sampleLabels : ∃ s, Run sampleLib sampleEmulator sampleLabels s := by
  have h0 : Run sampleLib sampleEmulator [] (initial Bool) := .init
  have h1 := h0.snoc ⟨rfl, .callStart _ true rfl⟩
  have h2 := h1.snoc ⟨rfl, .enterStart _ true rfl rfl⟩
  have h3 := h2.snoc ⟨rfl, .add _ rfl⟩
  have h4 := h3.snoc ⟨rfl, .spawn _ rfl⟩
  have h5 := h4.snoc ⟨rfl, .finishStart _ rfl⟩
  have h6 := h5.snoc ⟨rfl, .returnStart _ true rfl rfl⟩
  have h7 := h6.snoc ⟨rfl, .callStop _ false rfl rfl⟩
  have h8 := h7.snoc ⟨rfl, .enterStop _ false rfl rfl⟩
  have h9 := h8.snoc ⟨rfl, .close _ rfl⟩
  have h10 := h9.snoc ⟨rfl, .loop _ 0 _ _ _ rfl (.quit _) fun _ => Nat.zero_lt_one⟩
  have h11 := h10.snoc ⟨rfl, .release _ 0 rfl⟩
  have h12 := h11.snoc ⟨rfl, .wait _ rfl rfl⟩
  have h13 := h12.snoc ⟨rfl, .finishStop _ rfl⟩
  exact ⟨_, h13.snoc ⟨rfl, .returnStop _ false rfl rfl⟩⟩

theorem lifecycle_safety_sample :
    ∃ s, Run sampleLib sampleEmulator sampleLabels s ∧ s.closes ≤ 1 ∧ ∀ ph, .live ph ∉ s.loops := by
  obtain ⟨s, h⟩ := run_sampleLabels
  obtain ⟨_, hcloses, _, _, hstop⟩ := lifecycle_safety sampleLib sampleEmulator sampleLabels s h
  exact ⟨s, h, hcloses, (hstop (sampleLabels.take 13) false [] rfl).1⟩

end Covenant.Lifecycle
