import Covenant.Shutdown
import Mathlib.Algebra.BigOperators.Group.Finset.Basic
import Mathlib.Algebra.Order.BigOperators.Group.Finset

/-! `RunUntilShutdown`. Goroutines `τ` call it any number of times on one server; an
atomic counter lets the first of them through, which starts the emulator, waits for the
shutdown signal and stops the emulator when it leaves. Every run of the server is a run of the
emulator's lifecycle (`lifecycle_run`), so it stops no emulator that was not started. After the
signal every caller returns, unless the loop panics (`shutdown_completes`), and then no loop
is at work (`server_safety`). -/

namespace Covenant.Service
open Outcome Lists Interaction Bitcoin Emulator Loop Reference Ticks
open Lifecycle hiding Run Step Move Label initial State

/-! ## The server -/

/-- Where a goroutine is in `RunUntilShutdown`: before the call of `Start`, in it, before
the receive from the shutdown channel, and in the deferred call of `Stop`. -/
inductive Point
  | outside
  | passed
  | starting
  | waiting
  | stopping
  deriving DecidableEq, Repr

structure State (τ : Type) where
  started : Int32
  pc : τ → Point
  /-- The shutdown channel is closed. -/
  signalled : Bool
  emulator : Lifecycle.State τ

def initial (τ : Type) : State τ where
  started := 0
  pc _ := .outside
  signalled := false
  emulator := Lifecycle.initial τ

inductive Label (τ : Type)
  | skip (t : τ)
  | pass (t : τ)
  | callStart (t : τ)
  | startReturns (t : τ)
  | signal
  | callStop (t : τ)
  | stopReturns (t : τ)
  | inner (l : Lifecycle.Label τ)

variable {τ : Type} [DecidableEq τ]

/-- A step of the emulator that is neither a call nor a return. -/
def Inner : Lifecycle.Label τ → Prop
  | .call _ _ => False
  | .ret _ _ => False
  | _ => True

/-- The emulator while goroutine `t` is in a call. -/
def calls (e : Lifecycle.State τ) (t : τ) (op : Op) : Lifecycle.State τ :=
  { e with calling := Function.update e.calling t (some op) }

/-- The steps of a process that has not died. -/
inductive Move (lib : Lib) (ce : CovenantEmulator) : State τ → Label τ → State τ → Prop
  | skip (s : State τ) (t : τ) : s.pc t = .outside → s.started + 1 ≠ 1 →
      Move lib ce s (.skip t) { s with started := s.started + 1 }
  | pass (s : State τ) (t : τ) : s.pc t = .outside → s.started + 1 = 1 →
      Move lib ce s (.pass t) { s with started := s.started + 1, pc := Function.update s.pc t .passed }
  | callStart (s : State τ) (t : τ) : s.pc t = .passed →
      Move lib ce s (.callStart t)
        { s with pc := Function.update s.pc t .starting, emulator := calls s.emulator t .start }
  -- `Start` always returns nil
  | startReturns (s : State τ) (t : τ) (e : Lifecycle.State τ) : s.pc t = .starting →
      Lifecycle.Move lib ce s.emulator (.ret t .start) e →
      Move lib ce s (.startReturns t) { s with pc := Function.update s.pc t .waiting, emulator := e }
  | signal (s : State τ) : Move lib ce s .signal { s with signalled := true }
  | callStop (s : State τ) (t : τ) : s.pc t = .waiting → s.signalled = true →
      Move lib ce s (.callStop t)
        { s with pc := Function.update s.pc t .stopping, emulator := calls s.emulator t .stop }
  | stopReturns (s : State τ) (t : τ) (e : Lifecycle.State τ) : s.pc t = .stopping →
      Lifecycle.Move lib ce s.emulator (.ret t .stop) e →
      Move lib ce s (.stopReturns t) { s with pc := Function.update s.pc t .outside, emulator := e }
  | inner (s : State τ) (l : Lifecycle.Label τ) (e : Lifecycle.State τ) : Inner l →
      Lifecycle.Move lib ce s.emulator l e → Move lib ce s (.inner l) { s with emulator := e }

def Step (lib : Lib) (ce : CovenantEmulator) (s : State τ) (l : Label τ) (s' : State τ) : Prop :=
  s.emulator.died = false ∧ Move lib ce s l s'

abbrev Run (lib : Lib) (ce : CovenantEmulator) : List (Label τ) → State τ → Prop :=
  Labelled.Run (Step lib ce) (initial τ)

variable {lib : Lib} {ce : CovenantEmulator} {s s' : State τ} {l : Label τ} {ls ks : List (Label τ)}

/-! ## The lifecycle below -/

/-- The call of the emulator that a point of `RunUntilShutdown` is in. -/
def Point.call : Point → Option Op
  | .starting => some .start
  | .stopping => some .stop
  | _ => none

/-- A call of `Start` has returned before this point. -/
def Point.AfterStart : Point → Prop
  | .waiting => True
  | .stopping => True
  | _ => False

structure Inv (s : State τ) : Prop where
  calling : ∀ t, s.emulator.calling t = (s.pc t).call
  after : ∀ t, (s.pc t).AfterStart → s.emulator.startReturned = true

theorem update_call {t : τ} {p : Point} {pc : τ → Point} {calling : τ → Option Op} {op : Option Op}
    (h : ∀ u, calling u = (pc u).call) (hop : op = p.call) (u : τ) :
    Function.update calling t op u = (Function.update pc t p u).call := by
  by_cases hut : u = t
  · rw [hut, Function.update_self, Function.update_self, hop]
  · rw [Function.update_of_ne hut, Function.update_of_ne hut, h]

theorem update_after {t : τ} {p : Point} {pc : τ → Point} {b : Bool}
    (h : ∀ u, (pc u).AfterStart → b = true) (hp : p.AfterStart → b = true) (u : τ)
    (hu : (Function.update pc t p u).AfterStart) : b = true := by
  by_cases hut : u = t
  · rw [hut, Function.update_self] at hu
    exact hp hu
  · rw [Function.update_of_ne hut] at hu
    exact h u hu

/-- What the other steps of the emulator leave alone. -/
theorem inner_keeps {e e' : Lifecycle.State τ} {l : Lifecycle.Label τ} (hl : Inner l)
    (h : Lifecycle.Move lib ce e l e') :
    e'.calling = e.calling ∧ e'.startReturned = e.startReturned := by
  cases h with
  | callStart => cases hl
  | callStop => cases hl
  | returnStart => cases hl
  | returnStop => cases hl
  | _ => exact ⟨rfl, rfl⟩

/-- The steps of the emulator that a step of the server makes. -/
def emulatorLabels : Label τ → List (Lifecycle.Label τ)
  | .callStart t => [.call t .start]
  | .startReturns t => [.ret t .start]
  | .callStop t => [.call t .stop]
  | .stopReturns t => [.ret t .stop]
  | .inner l => [l]
  | _ => []

theorem inv_step (h : Inv s) (hs : Step lib ce s l s') : Inv s' := by
  obtain ⟨_, hs⟩ := hs
  cases hs with
  | skip t ht hne => exact ⟨h.calling, h.after⟩
  | pass t ht heq =>
    refine ⟨?_, update_after h.after nofun⟩
    have hnone : s.emulator.calling t = none := by
      rw [h.calling, ht]
      rfl
    have hcalling := update_call (t := t) (p := .passed) h.calling hnone
    rw [Function.update_eq_self] at hcalling
    exact hcalling
  | callStart t ht => exact ⟨update_call h.calling rfl, update_after h.after nofun⟩
  | startReturns t e ht he =>
    cases he with
    | returnStart _ hcall ho => exact ⟨update_call h.calling rfl, fun _ _ => rfl⟩
  | signal => exact ⟨h.calling, h.after⟩
  | callStop t ht hsig =>
    exact ⟨update_call h.calling rfl, update_after h.after fun _ => h.after t (ht ▸ trivial)⟩
  | stopReturns t e ht he =>
    cases he with
    | returnStop _ hcall ho => exact ⟨update_call h.calling rfl, update_after h.after nofun⟩
  | inner l e hl he =>
    obtain ⟨hcalling, hreturned⟩ := inner_keeps hl he
    exact ⟨fun t => (congrFun hcalling t).trans (h.calling t), fun t ht => hreturned.trans (h.after t ht)⟩

theorem inv_run (h : Run lib ce ls s) : Inv s :=
  h.keeps inv_step ⟨fun _ => rfl, fun _ h => nomatch h⟩

/-- **Refinement.** A step of the server is a step of the emulator or none. -/
theorem lifecycle_step (h : Inv s) (hs : Step lib ce s l s') {ks : List (Lifecycle.Label τ)}
    (hr : Lifecycle.Run lib ce ks s.emulator) :
    Lifecycle.Run lib ce (ks ++ emulatorLabels l) s'.emulator := by
  obtain ⟨halive, hs⟩ := hs
  cases hs with
  | skip t ht hne => simpa [emulatorLabels] using hr
  | pass t ht heq => simpa [emulatorLabels] using hr
  | callStart t ht => exact hr.snoc ⟨halive, .callStart _ t (by rw [h.calling, ht]; rfl)⟩
  | startReturns t e ht he => exact hr.snoc ⟨halive, he⟩
  | signal => simpa [emulatorLabels] using hr
  | callStop t ht hsig =>
    exact hr.snoc ⟨halive, .callStop _ t (by rw [h.calling, ht]; rfl) (h.after t (ht ▸ trivial))⟩
  | stopReturns t e ht he => exact hr.snoc ⟨halive, he⟩
  | inner l e hl he => exact hr.snoc ⟨halive, he⟩

theorem lifecycle_run (h : Run lib ce ls s) :
    Lifecycle.Run lib ce (ls.flatMap emulatorLabels) s.emulator := by
  induction h with
  | init => exact .init
  | snoc hr hs ih =>
    rw [List.flatMap_append, List.flatMap_singleton]
    exact lifecycle_step (inv_run hr) hs ih

/-! ## Safety -/

def isPass : Label τ → Bool
  | .pass _ => true
  | _ => false

def isEnter : Label τ → Bool
  | .skip _ => true
  | .pass _ => true
  | _ => false

/-- The calls of `RunUntilShutdown` in a run, and those that got through. -/
def enters (ls : List (Label τ)) : Nat := ls.countP isEnter

def passes (ls : List (Label τ)) : Nat := ls.countP isPass

theorem ofNat_succ_eq_one_iff (n : Nat) : Int32.ofNat n + 1 = 1 ↔ n % 2 ^ 32 = 0 := by
  rw [← Int32.toBitVec_inj, ← BitVec.toNat_inj]
  simp only [Int32.toBitVec_add, Int32.toBitVec_ofNat', BitVec.toNat_add, BitVec.toNat_ofNat]
  omega

/-- The counter is the number of calls, as far as it fits. -/
theorem started_eq (h : Run lib ce ls s) : s.started = Int32.ofNat (enters ls) := by
  induction h with
  | init => rfl
  | snoc _ hs ih =>
    obtain ⟨_, hs⟩ := hs
    cases hs <;> simp [enters, isEnter, List.countP_append, ih]

/-- The first call gets through, and then one in `2 ^ 32`. -/
theorem passes_eq (h : Run lib ce ls s) : passes ls = (enters ls + (2 ^ 32 - 1)) / 2 ^ 32 := by
  induction h with
  | init => simp [passes, enters]
  | @snoc ls l s s' hr hs ih =>
    have hstarted := started_eq hr
    unfold passes enters at ih hstarted ⊢
    rw [List.countP_append, List.countP_append, List.countP_singleton, List.countP_singleton]
    obtain ⟨_, hs⟩ := hs
    cases hs with
    | skip t ht hne =>
      rw [hstarted] at hne
      have hmod := mt (ofNat_succ_eq_one_iff _).mpr hne
      simp only [isPass, isEnter]
      simp
      omega
    | pass t ht heq =>
      rw [hstarted] at heq
      have hmod := (ofNat_succ_eq_one_iff _).mp heq
      simp only [isPass, isEnter]
      simp
      omega
    | _ => simpa [isPass, isEnter] using ih

theorem signalled_iff (h : Run lib ce ls s) : s.signalled = true ↔ .signal ∈ ls := by
  induction h with
  | init => exact ⟨nofun, nofun⟩
  | snoc _ hs ih =>
    obtain ⟨_, hs⟩ := hs
    rw [List.mem_append, ← ih]
    cases hs <;> simp

/-- Nobody is in the deferred call of `Stop` before the signal. -/
theorem signalled_of_stopping (h : Run lib ce ls s) : ∀ t, s.pc t = .stopping → s.signalled = true := by
  induction h with
  | init => exact fun t ht => nomatch ht
  | @snoc ls l s s' _ hs ih =>
    obtain ⟨_, hs⟩ := hs
    have hother : ∀ {t p}, p ≠ .stopping → ∀ u, Function.update s.pc t p u = .stopping →
        s.signalled = true := by
      intro t p hp u hu
      by_cases hut : u = t
      · rw [hut, Function.update_self] at hu
        exact absurd hu hp
      · rw [Function.update_of_ne hut] at hu
        exact ih u hu
    cases hs with
    | skip t ht hne => exact ih
    | pass t ht heq => exact hother nofun
    | callStart t ht => exact hother nofun
    | startReturns t e ht he => exact hother nofun
    | signal => exact fun _ _ => rfl
    | callStop t ht hsig => exact fun _ _ => hsig
    | stopReturns t e ht he => exact hother nofun
    | inner l e hl he => exact ih

/-- **Safety of the server.** -/
theorem server_safety (lib : Lib) (ce : CovenantEmulator) (ls : List (Label τ)) (s : State τ)
    (h : Run lib ce ls s) :
    passes ls = (enters ls + (2 ^ 32 - 1)) / 2 ^ 32 ∧ s.emulator.loops.length ≤ 1 ∧
      ∀ ls₁ t ls₂, ls = ls₁ ++ .stopReturns t :: ls₂ → .signal ∈ ls₁ ∧
        (∀ ph, .live ph ∉ s.emulator.loops) ∧ ∀ k a, .inner (.loop k a) ∉ ls₂ := by
  have hrun := lifecycle_run h
  have hinv := Lifecycle.inv_run hrun
  refine ⟨passes_eq h, hinv.start.bounds.1, ?_⟩
  rintro ls₁ t ls₂ rfl
  rw [List.flatMap_append, List.flatMap_cons] at hrun
  obtain ⟨hdone, hnone⟩ := stopped_of_run hrun _ t (ls₂.flatMap emulatorLabels) rfl
  refine ⟨?_, ?_, ?_⟩
  · rw [List.append_cons] at h
    obtain ⟨s₂, h₂⟩ := h.of_append
    obtain ⟨s₁, h₁, _, hs⟩ := Labelled.run_snoc h₂
    cases hs with
    | stopReturns t e ht he => exact (signalled_iff h₁).mp (signalled_of_stopping h₁ t ht)
  · exact not_live_of_done hinv hdone
  · intro k a hmem
    exact hnone k a (List.mem_flatMap.mpr ⟨_, hmem, List.mem_singleton_self _⟩)

/-- Two callers; the second one is turned away, the first one is told to shut down. -/
def serverLabels : List (Label Bool) :=
  [.pass true, .skip false, .callStart true, .inner .sync, .inner .sync, .inner .sync, .inner .sync,
    .startReturns true, .signal]

/-- It stops the emulator, and the second one calls again. -/
def stoppedLabels : List (Label Bool) :=
  [.callStop true, .inner .sync, .inner .sync, .inner (.loop 0 .quit), .inner (.release 0),
    .inner .sync, .inner .sync, .stopReturns true, .skip false]

theorem run_serverLabels : ∃ s : State Bool, Run sampleLib sampleEmulator serverLabels s ∧
    s.signalled = true ∧ ∃ s', Run sampleLib sampleEmulator (serverLabels ++ stoppedLabels) s' := by
  have h0 : Run sampleLib sampleEmulator [] (initial Bool) := .init
  have h1 := h0.snoc ⟨rfl, .pass _ true rfl (by decide)⟩
  have h2 := h1.snoc ⟨rfl, .skip _ false rfl (by decide)⟩
  have h3 := h2.snoc ⟨rfl, .callStart _ true rfl⟩
  have h4 := h3.snoc ⟨rfl, .inner _ .sync _ trivial (.enterStart _ true rfl rfl)⟩
  have h5 := h4.snoc ⟨rfl, .inner _ .sync _ trivial (.add _ rfl)⟩
  have h6 := h5.snoc ⟨rfl, .inner _ .sync _ trivial (.spawn _ rfl)⟩
  have h7 := h6.snoc ⟨rfl, .inner _ .sync _ trivial (.finishStart _ rfl)⟩
  have h8 := h7.snoc ⟨rfl, .startReturns _ true _ rfl (.returnStart _ true rfl rfl)⟩
  have h9 := h8.snoc ⟨rfl, .signal _⟩
  have h10 := h9.snoc ⟨rfl, .callStop _ true rfl rfl⟩
  have h11 := h10.snoc ⟨rfl, .inner _ .sync _ trivial (.enterStop _ true rfl rfl)⟩
  have h12 := h11.snoc ⟨rfl, .inner _ .sync _ trivial (.close _ rfl)⟩
  have h13 := h12.snoc ⟨rfl, .inner _ (.loop 0 .quit) _ trivial
    (.loop _ 0 _ _ _ rfl (.quit _) fun _ => Nat.zero_lt_one)⟩
  have h14 := h13.snoc ⟨rfl, .inner _ (.release 0) _ trivial (.release _ 0 rfl)⟩
  have h15 := h14.snoc ⟨rfl, .inner _ .sync _ trivial (.wait _ rfl rfl)⟩
  have h16 := h15.snoc ⟨rfl, .inner _ .sync _ trivial (.finishStop _ rfl)⟩
  have h17 := h16.snoc ⟨rfl, .stopReturns _ true _ rfl (.returnStop _ true rfl rfl)⟩
  exact ⟨_, h9, rfl, _, h17.snoc ⟨rfl, .skip _ false rfl (by decide)⟩⟩

theorem server_safety_sample :
    ∃ s : State Bool, Run sampleLib sampleEmulator (serverLabels ++ stoppedLabels) s ∧
      passes (serverLabels ++ stoppedLabels) = 1 ∧ .signal ∈ serverLabels ++ stoppedLabels.take 7 ∧
      ∀ ph, .live ph ∉ s.emulator.loops := by
  obtain ⟨_, _, _, s, h⟩ := run_serverLabels
  obtain ⟨hpasses, _, hstop⟩ := server_safety sampleLib sampleEmulator _ s h
  obtain ⟨hsig, hlive, _⟩ := hstop (serverLabels ++ stoppedLabels.take 7) true [.skip false] rfl
  exact ⟨s, h, hpasses, hsig, hlive⟩

/-! ## Shutdown -/

/-- Neither a new call, nor the signal, nor a tick. -/
def Internal : Label τ → Prop
  | .skip _ => False
  | .pass _ => False
  | .signal => False
  | .inner l => Shutdown.Internal l
  | _ => True

abbrev Winds (lib : Lib) (ce : CovenantEmulator) : State τ → State τ → Prop :=
  Labelled.Winds Internal (Step lib ce)

def pointRank : Point → Nat
  | .outside => 0
  | .stopping => 1
  | .waiting => 2
  | .starting => 3
  | .passed => 4

/-- How far the goroutines are from leaving `RunUntilShutdown`. -/
def distance [Fintype τ] (pc : τ → Point) : Nat := ∑ t, pointRank (pc t)

theorem distance_lt [Fintype τ] {pc : τ → Point} {t : τ} {p : Point}
    (h : pointRank p < pointRank (pc t)) : distance (Function.update pc t p) < distance pc := by
  apply Finset.sum_lt_sum
  · intro u _
    by_cases hut : u = t
    · rw [hut, Function.update_self]
      exact Nat.le_of_lt h
    · rw [Function.update_of_ne hut]
  · exact ⟨t, Finset.mem_univ t, by rw [Function.update_self]; exact h⟩

theorem winds_step [Fintype τ] (h : Winds lib ce s' s) :
    distance s'.pc < distance s.pc ∨
      distance s'.pc = distance s.pc ∧ Shutdown.Winds lib ce s'.emulator s.emulator := by
  obtain ⟨l, hl, halive, hs⟩ := h
  cases hs with
  | skip t ht hne => cases hl
  | pass t ht heq => cases hl
  | signal => cases hl
  | callStart t ht => exact Or.inl (distance_lt (by rw [ht]; decide))
  | startReturns t e ht he => exact Or.inl (distance_lt (by rw [ht]; decide))
  | callStop t ht hsig => exact Or.inl (distance_lt (by rw [ht]; decide))
  | stopReturns t e ht he => exact Or.inl (distance_lt (by rw [ht]; decide))
  | inner l e hi he => exact Or.inr ⟨rfl, l, hl, halive, he⟩

theorem winds_wellFounded [Fintype τ] (lib : Lib) (ce : CovenantEmulator) :
    WellFounded (Winds (τ := τ) lib ce) :=
  Labelled.winds_wellFounded (Shutdown.winds_wellFounded lib ce) (fun s => distance s.pc)
    State.emulator winds_step

/-- Where the emulator can go on, the server can. -/
theorem exists_winds_of_emulator (h : Inv s) {e : Lifecycle.State τ}
    (hw : Shutdown.Winds lib ce e s.emulator) : ∃ s', Winds lib ce s' s := by
  obtain ⟨l, hl, halive, hs⟩ := hw
  have hpoint : ∀ {t op}, s.emulator.calling t = some op →
      (op = .start → s.pc t = .starting) ∧ (op = .stop → s.pc t = .stopping) := by
    intro t op hop
    rw [h.calling] at hop
    cases hp : s.pc t <;> rw [hp] at hop <;> cases hop
    · exact ⟨fun _ => rfl, nofun⟩
    · exact ⟨nofun, fun _ => rfl⟩
  cases l with
  | call t op => cases hl
  | ret t op =>
    cases op with
    | start =>
      have hcall : s.emulator.calling t = some .start := by
        cases hs with
        | returnStart _ ht _ => exact ht
      exact ⟨_, .startReturns t, trivial, halive, .startReturns s t e ((hpoint hcall).1 rfl) hs⟩
    | stop =>
      have hcall : s.emulator.calling t = some .stop := by
        cases hs with
        | returnStop _ ht _ => exact ht
      exact ⟨_, .stopReturns t, trivial, halive, .stopReturns s t e ((hpoint hcall).2 rfl) hs⟩
  | sync => exact ⟨_, .inner .sync, hl, halive, .inner s .sync e trivial hs⟩
  | loop k a => exact ⟨_, .inner (.loop k a), hl, halive, .inner s (.loop k a) e trivial hs⟩
  | release k => exact ⟨_, .inner (.release k), hl, halive, .inner s (.release k) e trivial hs⟩
  | die => exact ⟨_, .inner .die, hl, halive, .inner s .die e trivial hs⟩

/-- After the signal, where the server can go no further every caller has returned. -/
theorem pc_eq_outside (hb : ce.config.sigsBatchSize ≠ 0) (h : Run lib ce ls s)
    (hsig : s.signalled = true) (halive : s.emulator.died = false)
    (hstuck : ∀ s', ¬ Winds lib ce s' s) (t : τ) : s.pc t = .outside := by
  have hinv := inv_run h
  have hrun := lifecycle_run h
  have hemulator : ∀ e, ¬ Shutdown.Winds lib ce e s.emulator := by
    intro e he
    obtain ⟨s', hs'⟩ := exists_winds_of_emulator hinv he
    exact hstuck s' hs'
  have hnone := Shutdown.calling_eq_none halive (Lifecycle.inv_run hrun)
    (Shutdown.live_ne_diverge hb hrun) hemulator t
  rw [hinv.calling] at hnone
  cases hp : s.pc t with
  | outside => rfl
  | passed => exact absurd ⟨.callStart t, trivial, halive, .callStart s t hp⟩ (hstuck _)
  | waiting => exact absurd ⟨.callStop t, trivial, halive, .callStop s t hp hsig⟩ (hstuck _)
  | starting =>
    rw [hp] at hnone
    cases hnone
  | stopping =>
    rw [hp] at hnone
    cases hnone

/-- The goroutine has started the emulator, or is at it, and will stop it. -/
def Point.Owns : Point → Prop
  | .starting => True
  | .waiting => True
  | .stopping => True
  | _ => False

theorem owns_update {pc : τ → Point} {t : τ} {p : Point} (hp : p.Owns ∨ ¬ (pc t).Owns)
    (h : ∃ u, (pc u).Owns) : ∃ u, (Function.update pc t p u).Owns := by
  obtain ⟨u, hu⟩ := h
  rcases hp with hp | hp
  · exact ⟨t, by rw [Function.update_self]; exact hp⟩
  · refine ⟨u, ?_⟩
    rw [Function.update_of_ne (by rintro rfl; exact hp hu)]
    exact hu

/-- An emulator that is started is stopped, or somebody will stop it. -/
def Owned (s : State τ) : Prop :=
  s.emulator.startOnce ≠ .idle → s.emulator.stopOnce = .done ∨ ∃ t, (s.pc t).Owns

theorem owned_inner (hinv : Inv s) (h : Owned s) {l : Lifecycle.Label τ} {e : Lifecycle.State τ}
    (hl : Inner l) (he : Lifecycle.Move lib ce s.emulator l e) :
    Owned { s with emulator := e } := by
  intro hne
  by_cases hidle : s.emulator.startOnce = .idle
  · cases he with
    | enterStart t ht ho =>
      refine Or.inr ⟨t, ?_⟩
      rw [hinv.calling] at ht
      cases hp : s.pc t <;> rw [hp] at ht <;> cases ht
      trivial
    | callStart => cases hl
    | callStop => cases hl
    | returnStart => cases hl
    | returnStop => cases hl
    | add ho => simp [hidle] at ho
    | spawn ho => simp [hidle] at ho
    | finishStart ho => simp [hidle] at ho
    | _ => exact absurd hidle hne
  · exact (h hidle).imp_left (stop_done_step he)

theorem owned_step (hinv : Inv s) (h : Owned s) (hs : Step lib ce s l s') : Owned s' := by
  obtain ⟨_, hs⟩ := hs
  cases hs with
  | skip t ht hne => exact h
  | pass t ht heq =>
    exact fun hne => (h hne).imp_right (owns_update (Or.inr (by rw [ht]; exact id)))
  | callStart t ht => exact fun hne => (h hne).imp_right (owns_update (Or.inl trivial))
  | startReturns t e ht he =>
    cases he with
    | returnStart _ hcall ho => exact fun hne => (h hne).imp_right (owns_update (Or.inl trivial))
  | signal => exact h
  | callStop t ht hsig => exact fun hne => (h hne).imp_right (owns_update (Or.inl trivial))
  | stopReturns t e ht he =>
    cases he with
    | returnStop _ hcall ho => exact fun _ => Or.inl ho
  | inner l e hl he => exact owned_inner hinv h hl he

theorem owned_run (h : Run lib ce ls s) : Owned s := by
  induction h with
  | init => exact fun hne => absurd rfl hne
  | snoc hr hs ih => exact owned_step (inv_run hr) ih hs

/-- When every caller has returned, no loop is left. -/
theorem no_loop_of_outside (h : Run lib ce ls s) (hout : ∀ t, s.pc t = .outside) (ph : LoopPhase) :
    .live ph ∉ s.emulator.loops := by
  intro hph
  have hinv := Lifecycle.inv_run (lifecycle_run h)
  have hne : s.emulator.startOnce ≠ .idle := by
    intro hidle
    have hstart := hinv.start
    simp only [StartInv, hidle] at hstart
    rw [hstart.1] at hph
    cases hph
  rcases owned_run h hne with hdone | ⟨t, ht⟩
  · exact not_live_of_done hinv hdone ph hph
  · rw [hout t] at ht
    cases ht

/-- **Shutdown completes.** After the signal the steps of the server end, with every caller out
of `RunUntilShutdown` and the loop over, or with the process dead of a panic. -/
theorem shutdown_completes [Fintype τ] (lib : Lib) (ce : CovenantEmulator)
    (hb : ce.config.sigsBatchSize ≠ 0) (ls : List (Label τ)) (s : State τ) (h : Run lib ce ls s)
    (hsig : s.signalled = true) :
    (¬ ∃ f : Nat → State τ, f 0 = s ∧ ∀ n, Winds lib ce (f (n + 1)) (f n)) ∧
      ∀ s', Relation.ReflTransGen (fun s₁ s₂ => Winds lib ce s₂ s₁) s s' →
        (∀ s'', ¬ Winds lib ce s'' s') →
          ((∀ t, s'.pc t = .outside) ∧ ∀ ph, .live ph ∉ s'.emulator.loops) ∨
            s'.emulator.died = true ∧ ∃ ks, Run lib ce (ls ++ ks) s' ∧
              Shutdown.Panicked ce ((ls ++ ks).flatMap emulatorLabels) := by
  refine ⟨Labelled.not_forever (winds_wellFounded lib ce) s, ?_⟩
  intro s' hw hstuck
  obtain ⟨ks, hrun⟩ := h.winds hw
  have hsig' : s'.signalled = true :=
    (signalled_iff hrun).mpr (List.mem_append_left ks ((signalled_iff h).mp hsig))
  cases hdied : s'.emulator.died with
  | true => exact Or.inr ⟨rfl, ks, hrun, Shutdown.panicked_of_run (lifecycle_run hrun) (Or.inl hdied)⟩
  | false =>
    have hout := pc_eq_outside hb hrun hsig' hdied hstuck
    exact Or.inl ⟨hout, no_loop_of_outside hrun hout⟩

theorem shutdown_completes_sample :
    ∃ s : State Bool, Run sampleLib sampleEmulator serverLabels s ∧ s.signalled = true ∧
      ∀ s', Relation.ReflTransGen (fun s₁ s₂ => Winds sampleLib sampleEmulator s₂ s₁) s s' →
        (∀ s'', ¬ Winds sampleLib sampleEmulator s'' s') →
          (∀ t, s'.pc t = .outside) ∨ s'.emulator.died = true := by
  obtain ⟨s, h, hsig, _⟩ := run_serverLabels
  refine ⟨s, h, hsig, ?_⟩
  intro s' hw hstuck
  rcases (shutdown_completes sampleLib sampleEmulator (by decide) _ s h hsig).2 s' hw hstuck with
    ⟨hout, _⟩ | ⟨hdied, _⟩
  · exact Or.inl hout
  · exact Or.inr hdied

end Covenant.Service
