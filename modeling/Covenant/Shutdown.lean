import Covenant.Lifecycle
import Covenant.Lists
import Covenant.Ticks
import Mathlib.Data.Fintype.Card
import Mathlib.Order.WellFounded
import Mathlib.Logic.Relation

/-! When `Start` and `Stop` return. Between new calls and ticks the emulator takes finitely
many steps, and where it can take no more, nobody is left waiting in a call, unless the loop
has panicked and the process is gone (`calls_return`). The batch size decides this: with a
batch size of zero a tick that is shown an unsigned delegation never ends, and `Stop` waits for
it forever (`stop_never_returns`). -/

namespace Covenant.Shutdown
open Outcome Lists Interaction Batching Bitcoin Covenant.Types Emulator Loop Reference Runs Ticks
  Lifecycle

variable {τ : Type} [DecidableEq τ] {lib : Lib} {ce : CovenantEmulator} {s s' : State τ}
  {ls ks : List (Label τ)}

/-! ## Winding down -/

/-- Neither a new call nor a tick. -/
def Internal : Label τ → Prop
  | .call _ _ => False
  | .loop _ (.tick _) => False
  | _ => True

abbrev Winds (lib : Lib) (ce : CovenantEmulator) : State τ → State τ → Prop :=
  Labelled.Winds Internal (Step lib ce)

/-- How many steps the function of `Start` is away from its end. -/
def startRank : Once StartPoint → Nat
  | .idle => 4
  | .running .add => 3
  | .running .spawn => 2
  | .running .finish => 1
  | .done => 0

def stopRank : Once StopPoint → Nat
  | .idle => 4
  | .running .close => 3
  | .running .wait => 2
  | .running .finish => 1
  | .done => 0

section

variable [Fintype τ]

/-- The goroutines that are in a call. -/
def callers (s : State τ) : Finset τ := Finset.univ.filter fun t => s.calling t ≠ none

def rank (s : State τ) : Nat :=
  startRank s.startOnce + stopRank s.stopOnce + (callers s).card + (!s.died).toNat

theorem callers_return (s : State τ) {t : τ} {op : Op} (ht : s.calling t = some op) (r : Bool) :
    (callers { s with calling := Function.update s.calling t none, startReturned := r }).card <
      (callers s).card := by
  apply Finset.card_lt_card
  rw [Finset.ssubset_iff_of_subset]
  · refine ⟨t, ?_, ?_⟩
    · simp [callers, ht]
    · simp [callers]
  · intro u hu
    simp only [callers, Finset.mem_filter, Finset.mem_univ, true_and] at hu ⊢
    by_cases hut : u = t
    · rw [hut, Function.update_self] at hu
      exact absurd rfl hu
    · rw [Function.update_of_ne hut] at hu
      exact hu

end

/-- A goroutine winds down with its loop, and ends. -/
def GoroutineWinds (lib : Lib) : Goroutine → Goroutine → Prop
  | .live ph', .live ph => Reactor.Winds (tick lib) ph' ph
  | _, .live _ => True
  | _, _ => False

theorem goroutineWinds_acc (lib : Lib) (g : Goroutine) : Acc (GoroutineWinds lib) g := by
  have hunwound : Acc (GoroutineWinds lib) .unwound := ⟨_, fun g h => by cases g <;> cases h⟩
  have hfinished : Acc (GoroutineWinds lib) .finished := ⟨_, fun g h => by cases g <;> cases h⟩
  cases g with
  | unwound => exact hunwound
  | finished => exact hfinished
  | live ph =>
    have hph : Acc (Reactor.Winds (tick lib)) ph := Reactor.winds_acc ph
    induction hph with
    | intro ph _ ih =>
      constructor
      intro g h
      cases g with
      | live ph' => exact ih ph' h
      | unwound => exact hunwound
      | finished => exact hfinished

/-- **Step lemma.** A step brings a call or a function nearer to its end, or else the loop. -/
theorem winds_step [Fintype τ] (h : Winds lib ce s' s) :
    rank s' < rank s ∨ rank s' = rank s ∧ StepsAt (GoroutineWinds lib) s'.loops s.loops := by
  obtain ⟨l, hl, halive, hs⟩ := h
  cases hs with
  | callStart t ht => cases hl
  | callStop t ht hr => cases hl
  | returnStart t ht ho =>
    left
    have hlt := callers_return s ht true
    unfold rank
    exact Nat.add_lt_add_right (Nat.add_lt_add_left hlt _) _
  | returnStop t ht ho =>
    left
    have hlt := callers_return s ht s.startReturned
    unfold rank
    exact Nat.add_lt_add_right (Nat.add_lt_add_left hlt _) _
  | loop k ph ph' a hk hstep hq =>
    right
    have hwinds : Reactor.Winds (tick lib) ph' ph := by
      refine ⟨a, hstep, ?_⟩
      rintro s₁ rfl
      cases hl
    exact ⟨rfl, k, .live ph, .live ph', hk, hwinds, rfl⟩
  | release k hk =>
    have hwinds : GoroutineWinds lib .finished (.live .exited) := trivial
    exact Or.inr ⟨rfl, k, .live .exited, .finished, hk, hwinds, rfl⟩
  | unwind k msg hk =>
    have hwinds : GoroutineWinds lib .unwound (.live (.down (.panic msg))) := trivial
    exact Or.inr ⟨rfl, k, .live (.down (.panic msg)), .unwound, hk, hwinds, rfl⟩
  | die k hk =>
    left
    simp [rank, callers, halive]
  | enterStart t ht ho =>
    left
    simp [rank, callers, ho, startRank]
  | enterStop t ht ho =>
    left
    simp [rank, callers, ho, stopRank]
  | add ho =>
    left
    simp [rank, callers, ho, startRank]
  | spawn ho =>
    left
    simp [rank, callers, ho, startRank]
  | finishStart ho =>
    left
    simp [rank, callers, ho, startRank]
  | close ho =>
    left
    simp [rank, callers, ho, stopRank]
  | wait ho hwg =>
    left
    simp [rank, callers, ho, stopRank]
  | finishStop ho =>
    left
    simp [rank, callers, ho, stopRank]

theorem winds_wellFounded [Fintype τ] (lib : Lib) (ce : CovenantEmulator) :
    WellFounded (Winds (τ := τ) lib ce) := by
  have hloops : WellFounded (StepsAt (GoroutineWinds lib)) := ⟨stepsAt_acc (goroutineWinds_acc lib)⟩
  exact Labelled.winds_wellFounded hloops rank State.loops winds_step

/-! ## The loop behind a goroutine -/

/-- A live goroutine has run the loop so far. -/
theorem reactor_run (h : Run lib ce ls s) :
    ∀ ph, .live ph ∈ s.loops →
      ∃ as, Labelled.Run (Reactor.Step (tick lib)) (covenantSigSubmissionLoop ce) as ph := by
  induction h with
  | init =>
    intro ph hph
    cases hph
  | @snoc ls l s s' _ hs ih =>
    obtain ⟨_, hs⟩ := hs
    have hset : ∀ {k g}, (∀ ph, g ≠ .live ph) → ∀ ph, .live ph ∈ s.loops.set k g →
        ∃ as, Labelled.Run (Reactor.Step (tick lib)) (covenantSigSubmissionLoop ce) as ph := by
      intro k g hg ph hph
      rcases List.mem_or_eq_of_mem_set hph with hmem | heq
      · exact ih ph hmem
      · exact absurd heq.symm (hg ph)
    cases hs with
    | spawn ho =>
      intro ph hph
      rcases List.mem_append.mp hph with hph | hph
      · exact ih ph hph
      · cases List.mem_singleton.mp hph
        exact ⟨[], .init⟩
    | loop k ph ph' a hk hstep hq =>
      intro ph₁ hph₁
      rcases List.mem_or_eq_of_mem_set hph₁ with hmem | heq
      · exact ih ph₁ hmem
      · cases heq
        obtain ⟨as, has⟩ := ih ph (List.mem_of_getElem? hk)
        exact ⟨as ++ [a], has.snoc hstep⟩
    | release k hk => exact hset (by simp)
    | unwind k msg hk => exact hset (by simp)
    | _ => exact ih

/-- It got its ticker, or has panicked. -/
theorem ticking_or_panicked (h : Run lib ce ls s) {ph : LoopPhase} (hph : .live ph ∈ s.loops) :
    (∃ as, Reactor.Run (tick lib) ce as ph) ∨
      ce.config.queryInterval ≤ 0 ∧ ∃ msg, ph = .down (.panic msg) := by
  obtain ⟨as, has⟩ := reactor_run h ph hph
  rcases covenantSigSubmissionLoop_cases (I := clientController) ce with ⟨_, hsel⟩ | ⟨hle, msg, hdown⟩
  · rw [hsel] at has
    exact Or.inl ⟨as, has⟩
  · rw [hdown] at has
    obtain ⟨_, rfl⟩ := Labelled.run_of_stuck (Reactor.not_step_down _) has
    exact Or.inr ⟨hle, msg, rfl⟩

/-- The loop has panicked, at its ticker or in a tick. -/
def Panicked (ce : CovenantEmulator) (ls : List (Label τ)) : Prop :=
  ce.config.queryInterval ≤ 0 ∨ ∃ k, .loop k .crash ∈ ls

omit [DecidableEq τ] in
theorem Panicked.mono (h : Panicked ce ls) : Panicked ce (ls ++ ks) :=
  h.imp id fun ⟨k, hk⟩ => ⟨k, List.mem_append_left _ hk⟩

/-- A goroutine whose loop is down, before and after its deferred call. -/
def Goroutine.Downed : Goroutine → Prop
  | .live (.down _) => True
  | .unwound => True
  | _ => False

/-- Nothing but a panic of the loop ends the process. -/
theorem panicked_of_run (h : Run lib ce ls s) :
    (s.died = true ∨ ∃ g ∈ s.loops, Goroutine.Downed g) → Panicked ce ls := by
  induction h with
  | init =>
    rintro (hdied | ⟨g, hg, _⟩)
    · cases hdied
    · cases hg
  | @snoc ls l s s' _ hs ih =>
    obtain ⟨halive, hs⟩ := hs
    have hold : (∃ g ∈ s.loops, Goroutine.Downed g) → Panicked ce (ls ++ [l]) :=
      fun hg => (ih (Or.inr hg)).mono
    have hset : ∀ {k g}, (Goroutine.Downed g → Panicked ce (ls ++ [l])) →
        (s.died = true ∨ ∃ g' ∈ s.loops.set k g, Goroutine.Downed g') → Panicked ce (ls ++ [l]) := by
      rintro k g hg (hdied | ⟨g', hg', hdown⟩)
      · exact (ih (Or.inl hdied)).mono
      · rcases List.mem_or_eq_of_mem_set hg' with hmem | rfl
        · exact hold ⟨g', hmem, hdown⟩
        · exact hg hdown
    cases hs with
    | spawn ho =>
      rintro (hdied | ⟨g, hg, hdown⟩)
      · exact (ih (Or.inl hdied)).mono
      · rcases List.mem_append.mp hg with hg | hg
        · exact hold ⟨g, hg, hdown⟩
        · rw [List.mem_singleton.mp hg] at hdown
          rcases covenantSigSubmissionLoop_cases (I := clientController) ce with ⟨_, hsel⟩ | ⟨hle, _⟩
          · rw [hsel] at hdown
            cases hdown
          · exact Or.inl hle
    | loop k ph ph' a hk hstep hq =>
      refine hset fun hdown => ?_
      cases hstep with
      | crash x => exact Or.inr ⟨k, by simp⟩
      | _ => cases hdown
    | release k hk => exact hset fun hdown => nomatch hdown
    | unwind k msg hk =>
      exact hset fun _ => hold ⟨_, List.mem_of_getElem? hk, trivial⟩
    | die k hk => exact fun _ => hold ⟨.unwound, List.mem_of_getElem? hk, trivial⟩
    | _ =>
      rintro (hdied | hg)
      · exact (ih (Or.inl hdied)).mono
      · exact hold hg

theorem config_of_tick {as : List LoopAction} {ph : LoopPhase} {ce₁ : CovenantEmulator}
    (h : Reactor.Run (tick lib) ce as ph) (ht : .tick ce₁ ∈ as) :
    ce₁.config = ce.config ∧ ce₁.pk = ce.pk := by
  refine (h.invariant (P := fun c => c.config = ce.config ∧ c.pk = ce.pk) ⟨rfl, rfl⟩ ?_).2 ce₁ ht
  rintro c t c' hc hs
  rcases (steps_tick hs).ret_eq rfl with rfl | ⟨p, rfl⟩
  · exact hc
  · exact hc

theorem removeAlreadySigned_ne_diverge (lib : Lib) (ce : CovenantEmulator)
    (dels : List (Option Delegation)) : removeAlreadySigned lib ce dels ≠ .error .diverge := by
  induction dels with
  | nil => simp [removeAlreadySigned, Pure.pure, Except.pure]
  | cons d dels ih =>
    cases d with
    | none => simp [removeAlreadySigned]
    | some d =>
      rw [removeAlreadySigned]
      cases hr : removeAlreadySigned lib ce dels with
      | error x =>
        rintro heq
        cases heq
        exact ih hr
      | ok sanitized =>
        intro heq
        cases heq

theorem workList_ne_diverge {dels : Slice (Option Delegation)} (hb : ce.config.sigsBatchSize ≠ 0) :
    workList lib ce dels.elems ≠ .error .diverge := by
  intro h
  unfold workList at h
  cases hr : removeAlreadySigned lib ce dels.elems with
  | error x =>
    rw [hr] at h
    cases h
    exact removeAlreadySigned_ne_diverge lib ce dels.elems hr
  | ok sanitized =>
    obtain ⟨ds, hds, rfl⟩ := (removeAlreadySigned_eq_ok_iff lib ce dels.elems sanitized).mp hr
    have hlen := dels.len_lt
    rw [hds, List.length_map] at hlen
    have hle : ((unsigned lib ce ds).map some).length < 2 ^ 63 := by
      rw [List.length_map]
      exact Nat.lt_of_le_of_lt (List.length_filter_le _ _) hlen
    obtain ⟨batches, hok, _⟩ := delegationsToBatches_spec ce hle hb
    rw [hr] at h
    change delegationsToBatches ce _ = _ at h
    rw [hok] at h
    cases h

/-- With a batch size the loop never hangs. -/
theorem not_diverged (hb : ce.config.sigsBatchSize ≠ 0) {as : List LoopAction}
    (h : Reactor.Run (tick lib) ce as (.down .diverge)) : False := by
  obtain ⟨_, ce₁, t, has, ht⟩ := h.down
  have htick : .tick ce₁ ∈ as := by simp [has]
  obtain ⟨hconfig, _⟩ := config_of_tick h htick
  obtain ⟨p, dels, _, _, hfatal⟩ := (steps_tick ht).halts rfl
  rcases hfatal with hw | ⟨_, _, _, _, _, _, hx⟩
  · have hb₁ : (withParams ce₁ p).config.sigsBatchSize ≠ 0 := by
      change ce₁.config.sigsBatchSize ≠ 0
      rw [hconfig]
      exact hb
    exact workList_ne_diverge hb₁ hw
  · cases hx

theorem live_ne_diverge (hb : ce.config.sigsBatchSize ≠ 0) (h : Run lib ce ls s) (ph : LoopPhase)
    (hph : .live ph ∈ s.loops) : ph ≠ .down .diverge := by
  rintro rfl
  rcases ticking_or_panicked h hph with ⟨as, has⟩ | ⟨_, msg, heq⟩
  · exact not_diverged hb has
  · cases heq

/-! ## Where nothing moves -/

theorem answer_nonempty (c : ClientCall) : Nonempty c.Answer := by
  cases c with
  | queryStakingParams => exact ⟨.error ""⟩
  | queryPendingDelegations limit => exact ⟨.error ""⟩
  | submitCovenantSigs covSigs => exact ⟨.error ""⟩
  | enter params btcDels => exact ⟨()⟩

/-- A process that has not died can take every move. -/
theorem winds_of_move (halive : s.died = false) {l : Label τ} (hm : Move lib ce s l s')
    (hl : Internal l) : ∃ s', Winds lib ce s' s :=
  ⟨s', l, hl, halive, hm⟩

/-- A live loop that has been told to quit can go on, unless it hangs. -/
theorem exists_winds_of_live (halive : s.died = false) {ph : LoopPhase} (hl : s.loops = [.live ph])
    (hc : 0 < s.closes) (hne : ph ≠ .down .diverge) : ∃ s', Winds lib ce s' s := by
  have hk : s.loops[0]? = some (.live ph) := by rw [hl]; rfl
  have hloop : ∀ {a ph'}, Reactor.Step (tick lib) ph a ph' → (∀ c, a ≠ .tick c) →
      ∃ s', Winds lib ce s' s := by
    intro a ph' hs ha
    refine winds_of_move halive (.loop s 0 ph ph' a hk hs fun _ => hc) ?_
    cases a with
    | tick c => exact ha c rfl
    | _ => trivial
  cases ph with
  | select c => exact hloop (.quit c) (by simp)
  | exited => exact winds_of_move halive (.release s 0 hk) trivial
  | down x =>
    cases x with
    | panic msg => exact winds_of_move halive (.unwind s 0 msg hk) trivial
    | diverge => exact absurd rfl hne
  | busy p =>
    cases p with
    | ret c => exact hloop (.done c) (by simp)
    | halt x => exact hloop (.crash x) (by simp)
    | call c k =>
      obtain ⟨a⟩ := answer_nonempty c
      exact hloop (.event c k a) (by simp)

theorem exists_winds_of_start (halive : s.died = false) {t : τ} (ht : s.calling t = some .start) :
    ∃ s', Winds lib ce s' s := by
  cases ho : s.startOnce with
  | idle => exact winds_of_move halive (.enterStart s t ht ho) trivial
  | running p =>
    cases p with
    | add => exact winds_of_move halive (.add s ho) trivial
    | spawn => exact winds_of_move halive (.spawn s ho) trivial
    | finish => exact winds_of_move halive (.finishStart s ho) trivial
  | done => exact winds_of_move halive (.returnStart s t ht ho) trivial

theorem exists_winds_of_stop (halive : s.died = false) (hinv : Inv s)
    (hdiv : ∀ ph, .live ph ∈ s.loops → ph ≠ .down .diverge) {t : τ} (ht : s.calling t = some .stop) :
    ∃ s', Winds lib ce s' s := by
  cases ho : s.stopOnce with
  | idle => exact winds_of_move halive (.enterStop s t ht ho) trivial
  | running p =>
    cases p with
    | close => exact winds_of_move halive (.close s ho) trivial
    | finish => exact winds_of_move halive (.finishStop s ho) trivial
    | wait =>
      obtain ⟨_, g, hl, hwg⟩ := hinv.start.of_returned (hinv.calls t ht)
      cases g with
      | live ph =>
        have hstop := hinv.stop
        simp only [StopInv, ho] at hstop
        exact exists_winds_of_live halive hl (by omega) (hdiv ph (by simp [hl]))
      | _ => exact winds_of_move halive (.wait s ho hwg) trivial
  | done => exact winds_of_move halive (.returnStop s t ht ho) trivial

theorem calling_eq_none (halive : s.died = false) (hinv : Inv s)
    (hdiv : ∀ ph, .live ph ∈ s.loops → ph ≠ .down .diverge) (hstuck : ∀ s', ¬ Winds lib ce s' s)
    (t : τ) : s.calling t = none := by
  cases ht : s.calling t with
  | none => rfl
  | some op =>
    have hw : ∃ s', Winds lib ce s' s := by
      cases op with
      | start => exact exists_winds_of_start halive ht
      | stop => exact exists_winds_of_stop halive hinv hdiv ht
    obtain ⟨s', hs'⟩ := hw
    exact absurd hs' (hstuck s')

/-- **Every call returns.** The steps of the emulator end, with nobody left in a call, or with
the process dead of a panic. -/
theorem calls_return [Fintype τ] (lib : Lib) (ce : CovenantEmulator)
    (hb : ce.config.sigsBatchSize ≠ 0) (ls : List (Label τ)) (s : State τ) (h : Run lib ce ls s) :
    (¬ ∃ f : Nat → State τ, f 0 = s ∧ ∀ n, Winds lib ce (f (n + 1)) (f n)) ∧
      ∀ s', Relation.ReflTransGen (fun s₁ s₂ => Winds lib ce s₂ s₁) s s' →
        (∀ s'', ¬ Winds lib ce s'' s') →
          (∀ t, s'.calling t = none) ∨
            s'.died = true ∧ ∃ ks, Run lib ce (ls ++ ks) s' ∧ Panicked ce (ls ++ ks) := by
  refine ⟨Labelled.not_forever (winds_wellFounded lib ce) s, ?_⟩
  intro s' hw hstuck
  obtain ⟨ks, hrun⟩ := h.winds hw
  cases hdied : s'.died with
  | true => exact Or.inr ⟨rfl, ks, hrun, panicked_of_run hrun (Or.inl hdied)⟩
  | false =>
    exact Or.inl (calling_eq_none hdied (inv_run hrun) (live_ne_diverge hb hrun) hstuck)

/-- A `Stop` that has closed the channel and waits for the loop. -/
theorem calls_return_sample :
    ∃ s : State Bool, Run sampleLib sampleEmulator (sampleLabels.take 9) s ∧
      s.calling false = some .stop ∧
      ∀ s', Relation.ReflTransGen (fun s₁ s₂ => Winds sampleLib sampleEmulator s₂ s₁) s s' →
        (∀ s'', ¬ Winds sampleLib sampleEmulator s'' s') → s'.calling false = none ∨ s'.died = true := by
  have h0 : Run sampleLib sampleEmulator [] (initial Bool) := .init
  have h1 := h0.snoc ⟨rfl, .callStart _ true rfl⟩
  have h2 := h1.snoc ⟨rfl, .enterStart _ true rfl rfl⟩
  have h3 := h2.snoc ⟨rfl, .add _ rfl⟩
  have h4 := h3.snoc ⟨rfl, .spawn _ rfl⟩
  have h5 := h4.snoc ⟨rfl, .finishStart _ rfl⟩
  have h6 := h5.snoc ⟨rfl, .returnStart _ true rfl rfl⟩
  have h7 := h6.snoc ⟨rfl, .callStop _ false rfl rfl⟩
  have h8 := h7.snoc ⟨rfl, .enterStop _ false rfl rfl⟩
  have h9 := h8.snoc ⟨rfl, .close _ rfl⟩
  refine ⟨_, h9, rfl, ?_⟩
  intro s' hw hstuck
  rcases (calls_return sampleLib sampleEmulator (by decide) _ _ h9).2 s' hw hstuck with hnone | ⟨hdied, _⟩
  · exact Or.inl (hnone false)
  · exact Or.inr hdied

/-! ## A tick that never ends -/

/-- The loop is in a computation that does not end. -/
def Hangs (ph : LoopPhase) : Prop := ph = .busy (.halt .diverge) ∨ ph = .down .diverge

def Hung (s : State τ) : Prop := ∃ ph, s.loops = [.live ph] ∧ Hangs ph

/-- A hung loop is not released, and `Stop` does not return. -/
theorem hung_step (hinv : Inv s) (h : Hung s) {l : Label τ} (hs : Step lib ce s l s') :
    Hung s' ∧ ∀ t, l ≠ .ret t .stop := by
  obtain ⟨ph, hl, hph⟩ := h
  have hlive : ∀ {k ph'}, s.loops[k]? = some (.live ph') → k = 0 ∧ ph' = ph := by
    intro k ph' hk
    obtain ⟨_, hk0, hl', _⟩ := hinv.start.of_live hk
    rw [hl] at hl'
    cases hl'
    exact ⟨hk0, rfl⟩
  obtain ⟨_, hs⟩ := hs
  cases hs with
  | spawn ho =>
    have hfirst : s.loops[0]? = some (.live ph) := by rw [hl]; rfl
    obtain ⟨hsp, _⟩ := hinv.start.of_live hfirst
    rcases hsp with hsp | ⟨hsp, _⟩
    · rw [ho] at hsp
      cases hsp
    · rw [ho] at hsp
      cases hsp
  | loop k ph₁ ph₂ a hk hstep hq =>
    obtain ⟨rfl, rfl⟩ := hlive hk
    refine ⟨⟨ph₂, by simp [hl], ?_⟩, nofun⟩
    rcases hph with rfl | rfl
    · cases hstep
      exact Or.inr rfl
    · cases hstep
  | release k hk =>
    obtain ⟨_, rfl⟩ := hlive hk
    rcases hph with heq | heq <;> cases heq
  | unwind k msg hk =>
    obtain ⟨_, rfl⟩ := hlive hk
    rcases hph with heq | heq <;> cases heq
  | returnStop t ht ho => exact absurd (by simp [hl]) (not_live_of_done hinv ho ph)
  | _ => exact ⟨⟨ph, hl, hph⟩, nofun⟩

theorem hung_run (h : Run lib ce (ls ++ ks) s) (hhung : ∀ s₁, Run lib ce ls s₁ → Hung s₁) :
    Hung s ∧ ∀ t, .ret t .stop ∉ ks := by
  induction ks using List.reverseRecOn generalizing s with
  | nil => exact ⟨hhung s (by simpa using h), fun t ht => nomatch ht⟩
  | append_singleton ks l ih =>
    rw [← List.append_assoc] at h
    obtain ⟨s₁, hr, hs⟩ := Labelled.run_snoc h
    obtain ⟨hs₁, hnone⟩ := ih hr
    obtain ⟨hs', hne⟩ := hung_step (inv_run hr) hs₁ hs
    refine ⟨hs', ?_⟩
    intro t ht
    rcases List.mem_append.mp ht with ht | ht
    · exact hnone t ht
    · exact hne t (List.mem_singleton.mp ht).symm

/-- Without a batch size, work that is there cannot be batched. -/
theorem workList_diverges (hb : ce.config.sigsBatchSize = 0) {dels : Slice (Option Delegation)}
    {ds : List Delegation} (hds : dels.elems = ds.map some) (hun : unsigned lib ce ds ≠ []) :
    workList lib ce dels.elems = .error .diverge := by
  have hlen := dels.len_lt
  rw [hds, List.length_map] at hlen
  have hle : ((unsigned lib ce ds).map some).length < 2 ^ 63 := by
    rw [List.length_map]
    exact Nat.lt_of_le_of_lt (List.length_filter_le _ _) hlen
  have hne : (unsigned lib ce ds).map some ≠ [] := by simpa using hun
  have hs := (removeAlreadySigned_eq_ok_iff lib ce dels.elems _).mpr ⟨ds, hds, rfl⟩
  unfold workList
  rw [hs]
  show delegationsToBatches ce _ = _
  unfold delegationsToBatches
  rw [hb, batchesFrom_zero hne hle]

theorem hung_of_queried (hb : ce.config.sigsBatchSize = 0) {limit : UInt64} {k : Nat}
    {dels : Slice (Option Delegation)} {ds : List Delegation} (hds : dels.elems = ds.map some)
    (hun : unsigned lib ce ds ≠ [])
    (h : Run lib ce (ls ++ [.loop k (.event ⟨.queryPendingDelegations limit, .ok dels⟩)]) s) :
    Hung s := by
  obtain ⟨s₁, hr, _, hs⟩ := Labelled.run_snoc h
  cases hs with
  | loop k ph ph' a hk hstep hq =>
    obtain ⟨_, rfl, hl, _⟩ := (inv_run hr).start.of_live hk
    refine ⟨ph', by simp [hl], Or.inl ?_⟩
    have hrun : ∃ as, Reactor.Run (tick lib) ce as ph := by
      refine (ticking_or_panicked hr (by simp [hl])).resolve_right ?_
      rintro ⟨_, msg, rfl⟩
      cases hstep
    obtain ⟨as, has⟩ := hrun
    have hnext := has.snoc hstep
    cases hstep with
    | event c k a =>
      obtain ⟨as', ce₁, t, heq, _, ht⟩ := Reactor.Run.busy hnext rfl
      have htick : (.tick ce₁ : LoopAction) ∈ as' ++ .tick ce₁ :: t.map .event := by simp
      rw [← heq] at htick
      obtain ⟨hconfig, hpk⟩ := config_of_tick hnext htick
      have hmem : (⟨.queryPendingDelegations limit, .ok dels⟩ : Event clientController) ∈ t := by
        rcases List.eq_nil_or_concat' t with rfl | ⟨t, e, rfl⟩
        · cases (List.append_inj' heq rfl).2
        · rw [List.map_append, ← List.cons_append, ← List.append_assoc] at heq
          cases (List.append_inj' heq rfl).2
          simp
      obtain ⟨errs, p, u, q', _, hq', hproc⟩ :=
        (steps_tick ht).processing_of_queried ((steps_tick ht).limit_eq hmem ▸ hmem)
      have hunsigned : unsigned lib (withParams ce₁ p) ds ≠ [] := by
        unfold unsigned alreadySigned at hun ⊢
        show ds.filter (fun del => !del.covenantSigs.any fun covSig =>
          lib.serializePubKey covSig.pk == lib.serializePubKey ce₁.pk) ≠ []
        rw [hpk]
        exact hun
      have hw : workList lib (withParams ce₁ p) dels.elems = .error .diverge :=
        workList_diverges (hconfig ▸ hb) hds hunsigned
      rcases steps_processDelegations hproc with ⟨x, hx, _, rfl⟩ | ⟨batches, hx, _⟩
      · rw [hw] at hx
        cases hx
        rw [hq']
        rfl
      · rw [hw] at hx
        cases hx

/-- **Stop never returns.** -/
theorem stop_never_returns (lib : Lib) (ce : CovenantEmulator) (hb : ce.config.sigsBatchSize = 0)
    (ls ks : List (Label τ)) (s : State τ) (k : Nat) (limit : UInt64)
    (dels : Slice (Option Delegation)) (ds : List Delegation) (hds : dels.elems = ds.map some)
    (hun : unsigned lib ce ds ≠ [])
    (h : Run lib ce (ls ++ .loop k (.event ⟨.queryPendingDelegations limit, .ok dels⟩) :: ks) s) :
    (∀ t, .ret t .stop ∉ ks) ∧ ∃ ph, s.loops = [.live ph] := by
  rw [List.append_cons] at h
  obtain ⟨⟨ph, hl, _⟩, hnone⟩ := hung_run h fun s₁ h₁ => hung_of_queried hb hds hun h₁
  exact ⟨hnone, ph, hl⟩

def zeroBatchSize : CovenantEmulator :=
  { startWith (key 1) with config := { (startWith (key 1)).config with sigsBatchSize := 0 } }

/-- The loop is started and takes a tick in which it is shown the sample delegation. -/
def hangingLabels : List (Label Bool) :=
  [.call true .start, .sync, .sync, .sync, .sync, .ret true .start, .loop 0 (.tick zeroBatchSize),
    .loop 0 (.event (fetched sampleParams))]

theorem run_hangingLabels : ∃ s : State Bool, Run sampleLib zeroBatchSize
    (hangingLabels ++ .loop 0 (.event (queried zeroBatchSize sampleDels)) :: [.call false .stop]) s := by
  obtain ⟨k, htick, hk⟩ := exists_tick_eq sampleLib zeroBatchSize
  have hfetch : Reactor.Step (tick sampleLib) (.busy (tick sampleLib zeroBatchSize))
      (.event (fetched sampleParams)) (.busy (k (.ok sampleParams))) := by
    rw [htick]
    exact .event _ k _
  rw [hk] at hfetch
  have hquery : ∀ f, Reactor.Step (tick sampleLib)
      (.busy (.call (.queryPendingDelegations zeroBatchSize.config.delegationLimit) f))
      (.event (queried zeroBatchSize sampleDels)) (.busy (f (.ok sampleDels))) :=
    fun f => .event _ f (Except.ok sampleDels)
  have h0 : Run sampleLib zeroBatchSize [] (initial Bool) := .init
  have h1 := h0.snoc ⟨rfl, .callStart _ true rfl⟩
  have h2 := h1.snoc ⟨rfl, .enterStart _ true rfl rfl⟩
  have h3 := h2.snoc ⟨rfl, .add _ rfl⟩
  have h4 := h3.snoc ⟨rfl, .spawn _ rfl⟩
  have h5 := h4.snoc ⟨rfl, .finishStart _ rfl⟩
  have h6 := h5.snoc ⟨rfl, .returnStart _ true rfl rfl⟩
  have h7 := h6.snoc ⟨rfl, .loop _ 0 _ _ _ rfl (.tick _) nofun⟩
  have h8 := h7.snoc ⟨rfl, .loop _ 0 _ _ _ rfl hfetch nofun⟩
  have h9 := h8.snoc ⟨rfl, .loop _ 0 _ _ _ rfl (hquery _) nofun⟩
  exact ⟨_, h9.snoc ⟨rfl, .callStop _ false rfl rfl⟩⟩

theorem stop_never_returns_sample :
    ∃ s : State Bool, Run sampleLib zeroBatchSize
      (hangingLabels ++ .loop 0 (.event (queried zeroBatchSize sampleDels)) :: [.call false .stop]) s ∧
      ∃ ph, s.loops = [.live ph] := by
  obtain ⟨s, h⟩ := run_hangingLabels
  refine ⟨s, h, ?_⟩
  exact (stop_never_returns sampleLib zeroBatchSize rfl hangingLabels [.call false .stop] s 0 _
    sampleDels [sampleDelegation] rfl (List.cons_ne_nil _ _) h).2

end Covenant.Shutdown
