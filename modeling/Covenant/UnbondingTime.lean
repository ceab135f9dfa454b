import Covenant.Calls
import Covenant.Ticks

/-! The unbonding times of the delegations that the loop submits signatures for. Step 2
compares them with `MinUnbondingTime`; the checkpoint finalization timeout, the other
part of `MinimumUnbondingTime`, is fetched but not looked at. What the library then gets
as lock time is the unbonding time cut to sixteen bits. -/

namespace Covenant.UnbondingTime
open Outcome Interaction Bitcoin Covenant.Types Emulator Signing Loop Reference Gate Runs Ticks Calls

/-! ## The minimum -/

abbrev Actions := List (Reactor.Action clientController CovenantEmulator)

/-- In these actions a call of `AddCovenantSignatures` under `params` submitted signatures
for `d`. -/
def SubmittedFor (as : Actions) (params : Option StakingParams) (d : Delegation) : Prop :=
  ∃ as₁ btcDels l res as₂, some d ∈ btcDels ∧
    as = as₁ ++ .event ⟨.enter params btcDels, ()⟩ :: .event ⟨.submitCovenantSigs l, res⟩ :: as₂

/-- Everything that is submitted has more than the minimum unbonding time of the parameters
it is submitted under. -/
def AboveMinimum (as : Actions) : Prop :=
  ∀ params d, SubmittedFor as params d →
    ∃ p, params = some p ∧ p.minimumUnbondingTime < d.unbondingTime.toUInt64

/-- Every delegation that a tick queries is stopped by `MinUnbondingTime` or has more than
the finalization timeout, both as fetched in that tick. -/
def TimeoutCovered (as : Actions) : Prop :=
  ∀ as₁ ce (t : ClientTrace) as₂ p dels d, as = as₁ ++ .tick ce :: t.map .event ++ as₂ →
    fetched p ∈ t → queried ce dels ∈ t → some d ∈ dels.elems →
    d.unbondingTime ≤ p.minUnbondingTime ∨ p.finalizationTimeoutBlocks < d.unbondingTime.toUInt64

/-- The check of step 2 holds of every delegation of a submitted batch. -/
theorem minUnbondingTime_lt_of_collectBatch {lib : Lib} {ce : CovenantEmulator} {p : StakingParams}
    {btcDels : List (Option Delegation)} {l : List CovenantSigs}
    (h : collectBatch lib (withParams ce p) btcDels = .ok (some l)) {d : Delegation}
    (hd : some d ∈ btcDels) : p.minUnbondingTime < d.unbondingTime := by
  have hpass := ((collectBatch_succeeds_iff lib _ btcDels).mp ⟨l, h⟩).2 _ hd
  obtain ⟨a⟩ := hpass
  have hp : p = a.params := Option.some.inj a.params_eq
  have hd : d = a.del := Option.some.inj a.del_eq
  have hgt := a.checks.unbondingTime_gt
  rw [← hp, ← hd] at hgt
  exact hgt

/-- A submission in a run: the tick it belongs to, and what it fetched and queried. -/
theorem submittedFor_round {lib : Lib} {ce₀ : CovenantEmulator} {as : Actions}
    {ph : Reactor.Phase clientController Halt CovenantEmulator}
    (h : Reactor.Run (tick lib) ce₀ as ph) {params : Option StakingParams} {d : Delegation}
    (hs : SubmittedFor as params d) :
    ∃ as₁ ce, ∃ t : ClientTrace, ∃ as₂ p dels,
      as = as₁ ++ .tick ce :: t.map .event ++ as₂ ∧ fetched p ∈ t ∧ queried ce dels ∈ t ∧
      some d ∈ dels.elems ∧ params = some p ∧ p.minUnbondingTime < d.unbondingTime := by
  obtain ⟨as₁, btcDels, l, res, as₂, hd, rfl⟩ := hs
  have hrun := h
  rw [List.append_cons] at hrun
  obtain ⟨as', ce, t, q, heq, ht⟩ := hrun.event
  -- the marker is the last event of the tick before the submission
  have hlast : ∃ v, t = v ++ [⟨.enter params btcDels, ()⟩] := by
    rcases List.eq_nil_or_concat' t with rfl | ⟨v, e, rfl⟩
    · cases (List.append_inj' heq rfl).2
    · rw [List.map_append, ← List.cons_append, ← List.append_assoc] at heq
      cases (List.append_inj' heq rfl).2
      exact ⟨v, rfl⟩
  obtain ⟨v, rfl⟩ := hlast
  rw [List.append_assoc, List.singleton_append] at ht
  obtain ⟨p, dels, batches, hp, hq, rfl, hw, hb, hc⟩ := (steps_tick ht).adjacent
  refine ⟨as', ce, v ++ [⟨.enter (some p) btcDels, ()⟩], .event ⟨.submitCovenantSigs l, res⟩ :: as₂, p,
    dels, ?_, List.mem_append_left _ hp, List.mem_append_left _ hq,
    (workList_mem dels.len_lt hw hb hd).1, rfl, minUnbondingTime_lt_of_collectBatch hc hd⟩
  rw [List.append_cons, heq]

/-- **Minimum unbonding time.** In every run whose ticks query only delegations that are
stopped by `MinUnbondingTime` or have more than the finalization timeout, everything
submitted has more than the minimum unbonding time. -/
theorem submitted_above_minimum (lib : Lib) (ce₀ : CovenantEmulator) (as : Actions)
    (ph : Reactor.Phase clientController Halt CovenantEmulator)
    (h : Reactor.Run (tick lib) ce₀ as ph) (hc : TimeoutCovered as) : AboveMinimum as := by
  intro params d hs
  obtain ⟨as₁, ce, t, as₂, p, dels, heq, hp, hq, hd, rfl, hmin⟩ := submittedFor_round h hs
  refine ⟨p, rfl, (p.minimumUnbondingTime_lt_iff _).mpr ⟨(toUInt64_lt_iff _ _).mpr hmin, ?_⟩⟩
  rcases hc as₁ ce t as₂ p dels d heq hp hq hd with hle | hlt
  · exact absurd hmin (UInt32.not_lt.mpr hle)
  · exact hlt

/-- The actions of one complete tick. -/
def tickActions (start : CovenantEmulator) (t : ClientTrace) (finish : CovenantEmulator) : Actions :=
  [] ++ .tick start :: t.map .event ++ [.done finish]

theorem run_tickActions {lib : Lib} {start finish : CovenantEmulator} {t : ClientTrace}
    (h : Prog.Steps (tick lib start) t (.ret finish)) :
    Reactor.Run (tick lib) start (tickActions start t finish) (.select finish) :=
  Reactor.Run.complete .init h

theorem submitted_above_minimum_sample :
    AboveMinimum (tickActions (startWith (key 1)) sampleTick sampleEmulator) := by
  refine submitted_above_minimum sampleLib (startWith (key 1)) _ _
    (run_tickActions (steps_tickWith _ _ likeSample _)) ?_
  intro as₁ ce t as₂ p dels d heq hp hq hd
  have hmem : ∀ e ∈ t, e ∈ sampleTick := by
    intro e he
    have hin : .event e ∈ tickActions (startWith (key 1)) sampleTick sampleEmulator := by
      rw [heq]
      simp [he]
    simpa [tickActions] using hin
  have hp' : p = sampleParams := by
    obtain ⟨e, he, hpe⟩ : ∃ e ∈ sampleTick, paramsOf e = some p := ⟨_, hmem _ hp, rfl⟩
    simp only [sampleTick, tickWith, List.mem_cons, List.not_mem_nil, or_false] at he
    rcases he with rfl | rfl | rfl | rfl <;> cases hpe
    rfl
  have hq' : dels = sampleDels := by
    obtain ⟨e, he, hqe⟩ : ∃ e ∈ sampleTick, delegationsOf e = some dels := ⟨_, hmem _ hq, rfl⟩
    simp only [sampleTick, tickWith, List.mem_cons, List.not_mem_nil, or_false] at he
    rcases he with rfl | rfl | rfl | rfl <;> cases hqe
    rfl
  subst hp' hq'
  obtain rfl : d = sampleDelegation := by simpa [sampleDels] using hd
  right
  decide

/-- A finalization timeout of 1000 blocks, above the minimum unbonding time of 100. -/
def lateParams : StakingParams := { sampleParams with finalizationTimeoutBlocks := 1000 }

theorem likeSample_lateParams : LikeSample lateParams := ⟨rfl, rfl, rfl, rfl, by decide⟩

/-- Under such parameters the sample delegation, with an unbonding time of 101, is
submitted. -/
theorem submits_below_timeout :
    Reactor.Run (tick sampleLib) (startWith (key 1))
        (tickActions (startWith (key 1)) (tickWith (key 1) lateParams (.ok ⟨"", []⟩))
          (emulatorWith (key 1) lateParams))
        (.select (emulatorWith (key 1) lateParams)) ∧
      ¬ AboveMinimum (tickActions (startWith (key 1)) (tickWith (key 1) lateParams (.ok ⟨"", []⟩))
          (emulatorWith (key 1) lateParams)) := by
  refine ⟨run_tickActions (steps_tickWith _ _ likeSample_lateParams _), ?_⟩
  intro h
  have hsub : SubmittedFor (tickActions (startWith (key 1))
      (tickWith (key 1) lateParams (.ok ⟨"", []⟩)) (emulatorWith (key 1) lateParams))
      (some lateParams) sampleDelegation :=
    ⟨[_, _, _], [some sampleDelegation], [sigsWith (key 1) lateParams], .ok ⟨"", []⟩, [_], by simp, rfl⟩
  obtain ⟨p, hp, hlt⟩ := h _ _ hsub
  obtain rfl := Option.some.inj hp
  exact absurd hlt (by decide)

/-! ## The enforced lock time -/

theorem toNat_toUInt16_iff (time : UInt32) :
    time.toUInt16.toNat = time.toNat ↔ time.toNat < 2 ^ 16 := by
  rw [UInt32.toNat_toUInt16]
  omega

def lockTimes (lib : Lib) (ce : CovenantEmulator) (d : Delegation) : List UInt16 :=
  (libCalls lib ce (some d)).filterMap lockTimeOf

/-- The two checks and the unbonding output get the delegation's unbonding time, so that
what they enforce is above the minimum. -/
def EnforcesUnbondingTime (lib : Lib) (ce : CovenantEmulator) (btcDel : Option Delegation) : Prop :=
  ∀ d params, btcDel = some d → ce.params = some params →
    (lockTimes lib ce d).map UInt16.toNat = List.replicate 3 d.unbondingTime.toNat ∧
      ∀ lock ∈ lockTimes lib ce d, params.minUnbondingTime.toNat < lock.toNat

theorem enforcesUnbondingTime_iff {lib : Lib} {ce : CovenantEmulator} {d : Delegation}
    (h : Passes lib ce (some d)) :
    EnforcesUnbondingTime lib ce (some d) ↔ d.unbondingTime.toNat < 2 ^ 16 := by
  have hlocks : lockTimes lib ce d = List.replicate 3 d.unbondingTime.toUInt16 :=
    lockTimes_of_passes h
  obtain ⟨a⟩ := h
  constructor
  · intro he
    obtain ⟨hmap, _⟩ := he d a.params rfl a.params_eq
    rw [hlocks, List.map_replicate] at hmap
    exact (toNat_toUInt16_iff d.unbondingTime).mp (List.cons.inj hmap).1
  · intro hlt d' params hd hparams
    obtain rfl := Option.some.inj hd
    have hnat := (toNat_toUInt16_iff d.unbondingTime).mpr hlt
    rw [hlocks, List.map_replicate, hnat]
    refine ⟨rfl, ?_⟩
    intro lock hlock
    rw [List.eq_of_mem_replicate hlock, hnat]
    have hgt := a.checks.unbondingTime_gt
    rw [← Option.some.inj a.del_eq, ← Option.some.inj (hparams.symm.trans a.params_eq)] at hgt
    exact UInt32.lt_iff_toNat_lt.mp hgt

/-- **Lock times.** The call submits only under the unbonding time it has compared exactly
when the batch is stopped before step 9 or the unbonding times fit into sixteen bits. -/
theorem enforcedTimes_iff (lib : Lib) (ce : CovenantEmulator) (btcDels : List (Option Delegation)) :
    SubmitsOnly lib ce (EnforcesUnbondingTime lib ce) btcDels ↔
      ((∃ d ∈ btcDels, ¬ Passes lib ce d) ∨
        ∀ d, some d ∈ btcDels → d.unbondingTime.toNat < 2 ^ 16) := by
  rw [submitsOnly_iff]
  by_cases hstop : ∃ d ∈ btcDels, ¬ Passes lib ce d
  · exact iff_of_true (Or.inl hstop) (Or.inl hstop)
  · simp only [hstop, false_or]
    have hpass : ∀ d ∈ btcDels, Passes lib ce d := by
      intro d hd
      by_contra hd'
      exact hstop ⟨d, hd, hd'⟩
    constructor
    · intro h d hd
      exact (enforcesUnbondingTime_iff (hpass _ hd)).mp (h _ hd)
    · intro h btcDel hd
      cases btcDel with
      | none => exact nofun
      | some d => exact (enforcesUnbondingTime_iff (hpass _ hd)).mpr (h d hd)

/-- Two unbonding times above the minimum that agree in their lower sixteen bits are
treated alike. -/
theorem passes_withUnbondingTime {lib : Lib} {ce : CovenantEmulator} {d : Delegation} (time : UInt32)
    (hnarrow : time.toUInt16 = d.unbondingTime.toUInt16)
    (hmin : ∀ params, ce.params = some params → params.minUnbondingTime < time)
    (h : Passes lib ce (some d)) : Passes lib ce (some { d with unbondingTime := time }) := by
  obtain ⟨⟨del, ud, params, c, m, hdel, hud, hparams, hq, hchecks, hsigning⟩⟩ := h
  cases hdel
  refine ⟨{ d with unbondingTime := time }, ud, params, c, m, rfl, hud, hparams, hq, ?_, ?_⟩
  · exact { hchecks with
      unbondingTime_gt := hmin params hparams
      slashing_checked := by rw [hnarrow]; exact hchecks.slashing_checked
      unbondingInfo_built := by rw [hnarrow]; exact hchecks.unbondingInfo_built
      unbondingSlashing_checked := by rw [hnarrow]; exact hchecks.unbondingSlashing_checked }
  · exact { hsigning with }

/-- The sample delegation with an unbonding time of 65637 blocks, for the same
transactions. -/
def longDelegation : Delegation := { sampleDelegation with unbondingTime := 65637 }

/-- Its transactions, locked for 101 blocks, are checked and signed. -/
theorem signs_narrowed_time : ¬ SubmitsOnly sampleLib sampleEmulator
    (EnforcesUnbondingTime sampleLib sampleEmulator) [some longDelegation] := by
  intro h
  have hpass : Passes sampleLib sampleEmulator (some longDelegation) := by
    apply passes_withUnbondingTime 65637 (by decide) _ ⟨sampleAccepted⟩
    intro params hparams
    obtain rfl := Option.some.inj hparams
    decide
  have he := forall_of_submitsOnly h (fun d hd => List.mem_singleton.mp hd ▸ hpass) _
    (List.mem_singleton.mpr rfl)
  exact absurd ((enforcesUnbondingTime_iff hpass).mp he) (by decide)

end Covenant.UnbondingTime
