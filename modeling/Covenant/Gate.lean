import Covenant.Reference

/-! What `AddCovenantSignatures` lets through. A batch reaches step 9 exactly when every
one of its delegations is accepted, and then all of them are submitted in one call
(`addCovenantSignatures_gate`). What it does not do is stated exactly: it does
not compare the outputs it signs for with the outputs it builds
(`protocolOutputs_iff`), a delegation that has its quorum ends the whole batch
(`quorum_batch_iff`), and the quorum test skips one kind of signature
(`quorum_covers_iff`). -/

namespace Covenant.Gate
open Outcome Interaction Bitcoin Covenant.Types Emulator Signing Loop Reference

/-! ## Submissions of one call -/

theorem collectBatch_eq_some_iff (lib : Lib) (ce : CovenantEmulator)
    (btcDels : List (Option Delegation)) (l : List CovenantSigs) :
    collectBatch lib ce btcDels = .ok (some l) ↔
      btcDels ≠ [] ∧
        List.Forall₂ (fun d s => signDelegation lib ce d = .ok (some s)) btcDels l := by
  unfold collectBatch
  cases btcDels with
  | nil => simp
  | cons d ds =>
    simp only [List.length_cons, Nat.succ_ne_zero, ↓reduceIte, collectSigs_eq_some_iff,
      List.nil_append, exists_eq_left', ne_eq, reduceCtorEq, not_false_eq_true, true_and]

/-- A batch is submitted exactly when it is not empty and all of it passes. -/
theorem collectBatch_succeeds_iff (lib : Lib) (ce : CovenantEmulator)
    (btcDels : List (Option Delegation)) :
    (∃ l, collectBatch lib ce btcDels = .ok (some l)) ↔
      btcDels ≠ [] ∧ ∀ d ∈ btcDels, Passes lib ce d := by
  simp only [collectBatch_eq_some_iff, exists_and_left, ← collectSigs_succeeds_iff,
    collectSigs_eq_some_iff, List.nil_append, exists_eq_left']

/-- Whatever the answers, the submissions are decided before step 9. -/
theorem submissions_play (lib : Lib) (ce : CovenantEmulator) (btcDels : List (Option Delegation))
    (ans : (c : ClientCall) → c.Answer) :
    submissions ((addCovenantSignatures lib ce btcDels).play ans).1 =
      match collectBatch lib ce btcDels with
      | .ok (some l) => [l]
      | _ => [] := by
  simp only [addCovenantSignatures, Prog.bind_eq, Prog.ask, Prog.call_bind, Prog.ret_bind,
    Prog.play_call]
  rcases collectBatch lib ce btcDels with (msg | err) | _ | l <;> rfl

/-- A chain on which every call fails. -/
def failingAnswers : (c : ClientCall) → c.Answer
  | .queryStakingParams => .error "unavailable"
  | .queryPendingDelegations _ => .error "unavailable"
  | .submitCovenantSigs _ => .error "unavailable"
  | .enter _ _ => ()

theorem submissions_steps {lib : Lib} {ce : CovenantEmulator} {btcDels : List (Option Delegation)}
    {t : ClientTrace} {q : Client (Except GoError (Option TxResponse))}
    (h : Prog.Steps (addCovenantSignatures lib ce btcDels) t q) :
    submissions t = [] ∨ ∃ l, ∃ res : Except GoError TxResponse, submissions t = [l] ∧
      collectBatch lib ce btcDels = .ok (some l) ∧ ⟨.submitCovenantSigs l, res⟩ ∈ t ∧
      q = .ret (res.map some) := by
  rcases steps_addCovenantSignatures h with ⟨rfl, _⟩ | ⟨rfl, _⟩ | ⟨l, res, hc, rfl, hq⟩
  · exact Or.inl rfl
  · exact Or.inl rfl
  · exact Or.inr ⟨l, res, rfl, hc, by simp, hq⟩

/-! ## The signing gate -/

/-- What stands behind an entry of a submitted list. `checks` holds the unbonding time, the
four decoded transactions and the two calls of `CheckTransactions`; `rules` is what
follows when `CheckTransactions` accepts only slashing transactions that spend the
given output and pay the slashing address its share. -/
structure Gated (lib : Lib) (ce : CovenantEmulator) (btcDel : Option Delegation)
    (entry : CovenantSigs) (a : Accepted lib ce btcDel) : Prop where
  entry_eq : entry = a.sigs
  present : btcDel = some a.del ∧ a.del.btcUndelegation = some a.undelegation
  params : ce.params = some a.params
  lacks_quorum : a.del.hasCovenantQuorum a.params.covenantQuorum = .ok false
  checks : ChecksPass lib ce.config.btcNetParams a.params a.del a.undelegation a.checked
  rules : ∀ payTo minSlashed, lib.CheckTransactionsSound payTo minSlashed →
    SpendsAndPays lib payTo minSlashed a.checked.slashingMsgTx a.checked.stakingMsgTx
        a.del.stakingOutputIdx a.params.slashingRate a.params.slashingAddress ∧
      SpendsAndPays lib payTo minSlashed a.checked.unbondingSlashingMsgTx a.checked.unbondingMsgTx
        0 a.params.slashingRate a.params.slashingAddress

theorem gated_of_accepted {lib : Lib} {ce : CovenantEmulator} {btcDel : Option Delegation}
    (a : Accepted lib ce btcDel) : Gated lib ce btcDel a.sigs a where
  entry_eq := rfl
  present := ⟨a.del_eq, a.undelegation_eq⟩
  params := a.params_eq
  lacks_quorum := a.no_quorum
  checks := a.checks
  rules _ _ hsound := ⟨hsound _ _ _ _ _ _ _ _ _ a.checks.slashing_checked,
    hsound _ _ _ _ _ _ _ _ _ a.checks.unbondingSlashing_checked⟩

/-- **Signing gate.** In every run of `AddCovenantSignatures` there is at most one
submission; a run that submits has left the loop without an exit and returns what
the submission answered; and the submitted entries are, in order, those of a sublist
of gated delegations. -/
theorem addCovenantSignatures_gate (lib : Lib) (ce : CovenantEmulator)
    (btcDels : List (Option Delegation)) (t : ClientTrace)
    (q : Client (Except GoError (Option TxResponse)))
    (h : Prog.Steps (addCovenantSignatures lib ce btcDels) t q) :
    (submissions t).length ≤ 1 ∧
      ∀ l ∈ submissions t,
        collectBatch lib ce btcDels = .ok (some l) ∧
          (∃ res : Except GoError TxResponse,
            ⟨.submitCovenantSigs l, res⟩ ∈ t ∧ q = .ret (res.map some)) ∧
          ∃ ds, ds.Sublist btcDels ∧
            List.Forall₂ (fun d entry => ∃ a, Gated lib ce d entry a) ds l := by
  rcases submissions_steps h with hs | ⟨l, res, hs, hc, hmem, hq⟩
  · simp [hs]
  · rw [hs]
    refine ⟨by simp, ?_⟩
    intro l' hl'
    obtain rfl := List.mem_singleton.mp hl'
    refine ⟨hc, ⟨res, hmem, hq⟩, btcDels, List.Sublist.refl _, ?_⟩
    have hf := ((collectBatch_eq_some_iff lib ce btcDels l').mp hc).2
    apply hf.imp
    intro d s hd
    obtain ⟨a, rfl⟩ := (signDelegation_eq_some_iff lib ce d s).mp hd
    exact ⟨a, gated_of_accepted a⟩

theorem collectBatch_like (pk : PublicKey) (params : StakingParams) (hp : LikeSample params) :
    collectBatch sampleLib (emulatorWith pk params) [some sampleDelegation] =
      .ok (some [sigsWith pk params]) := by
  rw [collectBatch_eq_some_iff]
  refine ⟨by simp, .cons ?_ .nil⟩
  exact (signDelegation_eq_some_iff _ _ _ _).mpr ⟨acceptedWith pk params _ _ _ hp honestPair, rfl⟩

/-- The sample delegation is submitted, and its slashing transaction spends the staking
output and pays the slashing address. -/
theorem addCovenantSignatures_gate_sample :
    (submissions [⟨.enter sampleEmulator.params [some sampleDelegation], ()⟩,
        ⟨.submitCovenantSigs [sampleAccepted.sigs], .ok ⟨"", []⟩⟩]).length = 1 ∧
      ∃ ds, ds.Sublist [some sampleDelegation] ∧
        List.Forall₂ (fun d entry => ∃ a, Gated sampleLib sampleEmulator d entry a ∧
          SpendsAndPays sampleLib payTo minSlashed a.checked.slashingMsgTx a.checked.stakingMsgTx
            a.del.stakingOutputIdx a.params.slashingRate a.params.slashingAddress)
          ds [sampleAccepted.sigs] := by
  refine ⟨rfl, ?_⟩
  have hall := (addCovenantSignatures_gate sampleLib sampleEmulator [some sampleDelegation] _ _
    (steps_of_collectBatch (collectBatch_like _ _ likeSample) (.ok ⟨"", []⟩))).2
  obtain ⟨_, _, ds, hds, hf⟩ := hall [sampleAccepted.sigs] (List.mem_singleton.mpr rfl)
  refine ⟨ds, hds, hf.imp ?_⟩
  rintro d s ⟨a, ha⟩
  exact ⟨a, ha, (ha.rules _ _ sampleLib_checkTransactionsSound).1⟩

/-! ## What submitted delegations satisfy -/

/-- Whenever the call submits, the entries belong to delegations of the batch that
satisfy `P`. -/
def SubmitsOnly (lib : Lib) (ce : CovenantEmulator) (P : Option Delegation → Prop)
    (btcDels : List (Option Delegation)) : Prop :=
  ∀ t q, Prog.Steps (addCovenantSignatures lib ce btcDels) t q → ∀ l ∈ submissions t,
    ∃ ds, ds.Sublist btcDels ∧
      List.Forall₂ (fun d entry => signDelegation lib ce d = .ok (some entry) ∧ P d) ds l

theorem forall_of_submitsOnly {lib : Lib} {ce : CovenantEmulator} {P : Option Delegation → Prop}
    {btcDels : List (Option Delegation)} (h : SubmitsOnly lib ce P btcDels)
    (hall : ∀ d ∈ btcDels, Passes lib ce d) : ∀ d ∈ btcDels, P d := by
  intro d hd
  have hne : btcDels ≠ [] := List.ne_nil_of_mem hd
  obtain ⟨l, hc⟩ := (collectBatch_succeeds_iff lib ce btcDels).mpr ⟨hne, hall⟩
  obtain ⟨ds, hds, hf⟩ :=
    h _ _ (steps_of_collectBatch hc (.error "")) l (List.mem_singleton.mpr rfl)
  have hlen : ds.length = btcDels.length := by
    rw [hf.length_eq, ((collectBatch_eq_some_iff lib ce btcDels l).mp hc).2.length_eq]
  obtain rfl := hds.eq_of_length hlen
  obtain ⟨i, hi, rfl⟩ := List.getElem_of_mem hd
  exact (hf.get hi (hf.length_eq ▸ hi)).2

theorem submitsOnly_of_forall {lib : Lib} {ce : CovenantEmulator} {P : Option Delegation → Prop}
    {btcDels : List (Option Delegation)}
    (h : (∀ d ∈ btcDels, Passes lib ce d) → ∀ d ∈ btcDels, P d) :
    SubmitsOnly lib ce P btcDels := by
  intro t q hs l hl
  rcases submissions_steps hs with he | ⟨l', res, he, hc, _, _⟩
  · rw [he] at hl
    cases hl
  · rw [he] at hl
    obtain rfl := List.mem_singleton.mp hl
    have hout := h ((collectBatch_succeeds_iff lib ce btcDels).mp ⟨l, hc⟩).2
    have hf := ((collectBatch_eq_some_iff lib ce btcDels l).mp hc).2
    refine ⟨btcDels, List.Sublist.refl _, ?_⟩
    rw [List.forall₂_iff_get] at hf ⊢
    refine ⟨hf.1, ?_⟩
    intro i hi hi'
    exact ⟨hf.2 i hi hi', hout _ (List.get_mem btcDels ⟨i, hi⟩)⟩

/-- A batch is submitted as a whole or not at all. -/
theorem submitsOnly_iff (lib : Lib) (ce : CovenantEmulator) (P : Option Delegation → Prop)
    (btcDels : List (Option Delegation)) :
    SubmitsOnly lib ce P btcDels ↔
      ((∃ d ∈ btcDels, ¬ Passes lib ce d) ∨ ∀ d ∈ btcDels, P d) := by
  constructor
  · intro h
    by_cases hall : ∀ d ∈ btcDels, Passes lib ce d
    · exact Or.inr (forall_of_submitsOnly h hall)
    · simp only [not_forall] at hall
      obtain ⟨d, hd, hp⟩ := hall
      exact Or.inl ⟨d, hd, hp⟩
  · rintro (⟨d, hd, hp⟩ | h)
    · exact submitsOnly_of_forall fun hall => absurd (hall d hd) hp
    · exact submitsOnly_of_forall fun _ => h

/-! ## Outputs that are signed for -/

/-- The staking transaction has the built staking output at its index, and the unbonding
transaction has one output, with the script of the built unbonding output. -/
structure ProtocolOutputs (lib : Lib) (net : NetParams) (params : StakingParams) (d : Delegation)
    (ud : Undelegation) : Prop where
  staking : ∃ tx time info, lib.newBTCTxFromHex d.stakingTxHex = .ok tx ∧
    d.getStakingTime = .ok time ∧
    lib.buildStakingInfo d.btcPk d.fpBtcPks params.covenantPks params.covenantQuorum time
      d.totalSat.toInt64 net = .ok info ∧
    ∃ out, tx.txOut[d.stakingOutputIdx.toNat]? = some out ∧
      out.pkScript = info.stakingOutput.pkScript ∧ out.value = info.stakingOutput.value
  unbonding : ∃ tx out info, lib.newBTCTxFromHex ud.unbondingTxHex = .ok tx ∧ tx.txOut = [out] ∧
    lib.buildUnbondingInfo d.btcPk d.fpBtcPks params.covenantPks params.covenantQuorum
      d.unbondingTime.toUInt16 out.value net = .ok info ∧
    out.pkScript = info.unbondingOutput.pkScript

/-- `ProtocolOutputs` for a delegation of a batch under the emulator's parameters. -/
def HasProtocolOutputs (lib : Lib) (ce : CovenantEmulator) (btcDel : Option Delegation) : Prop :=
  ∃ d ud params, btcDel = some d ∧ d.btcUndelegation = some ud ∧ ce.params = some params ∧
    ProtocolOutputs lib ce.config.btcNetParams params d ud

theorem protocolOutputs_of_accepted {lib : Lib} {ce : CovenantEmulator} {btcDel : Option Delegation}
    (a : Accepted lib ce btcDel) (h : HasProtocolOutputs lib ce btcDel) :
    ProtocolOutputs lib ce.config.btcNetParams a.params a.del a.undelegation := by
  obtain ⟨d, ud, params, hd, hud, hp, h⟩ := h
  obtain rfl := Option.some.inj (a.del_eq.symm.trans hd)
  obtain rfl := Option.some.inj (a.undelegation_eq.symm.trans hud)
  obtain rfl := Option.some.inj (a.params_eq.symm.trans hp)
  exact h

/-- Whenever the call submits, the entries belong to delegations with the protocol's
outputs. -/
def SignsProtocolOutputs (lib : Lib) (ce : CovenantEmulator) (btcDels : List (Option Delegation)) :
    Prop :=
  ∀ t q, Prog.Steps (addCovenantSignatures lib ce btcDels) t q → ∀ l ∈ submissions t,
    ∃ ds, ds.Sublist btcDels ∧
      List.Forall₂ (fun d entry => signDelegation lib ce d = .ok (some entry) ∧
        HasProtocolOutputs lib ce d) ds l

/-- **No output is compared.** The call signs only for the protocol's outputs exactly when
the batch is stopped before step 9 or its delegations have these outputs already. -/
theorem protocolOutputs_iff (lib : Lib) (ce : CovenantEmulator) (btcDels : List (Option Delegation)) :
    SignsProtocolOutputs lib ce btcDels ↔
      ((∃ d ∈ btcDels, ¬ Passes lib ce d) ∨ ∀ d ∈ btcDels, HasProtocolOutputs lib ce d) :=
  submitsOnly_iff lib ce (HasProtocolOutputs lib ce) btcDels

/-- A delegation whose unbonding transaction pays the stake to the staker's own key passes
every check, and is signed. -/
theorem signs_early_unbonding : ¬ SignsProtocolOutputs sampleLib sampleEmulator
    [some (delegationWith [key 8] earlyUnbondingTx earlySlashingTx)] := by
  intro h
  let a := acceptedWith (key 1) sampleParams [key 8] _ _ likeSample earlyPair
  have hout := forall_of_submitsOnly h
    (fun d hd => List.mem_singleton.mp hd ▸ ⟨a⟩) _ (List.mem_singleton.mpr rfl)
  obtain ⟨tx, out, info, htx, hone, hinfo, hscript⟩ := (protocolOutputs_of_accepted a hout).unbonding
  have hdecode := newBTCTxFromHex_txHex earlyUnbondingTx earlyPair.known.1
  obtain rfl := Except.ok.inj (hdecode.symm.trans htx)
  obtain rfl := (List.cons.inj hone).1
  obtain rfl := Except.ok.inj hinfo
  revert hscript
  decide +kernel

/-! ## Quorum -/

/-- The entries that a batch should get: one for each delegation without quorum, in order. -/
def SubmitsWithoutQuorum (lib : Lib) (ce : CovenantEmulator) (btcDels : List (Option Delegation))
    (submitted : List CovenantSigs) : Prop :=
  List.Forall₂ (fun d entry => signDelegation lib ce d = .ok (some entry))
    (btcDels.filter fun d => !quorumReached ce d) submitted

/-- The first delegation with quorum ends the loop, and what was collected is dropped. -/
theorem collectSigs_quorum {lib : Lib} {ce : CovenantEmulator} (acc : List CovenantSigs)
    {btcDels : List (Option Delegation)}
    (hall : ∀ d ∈ btcDels, quorumReached ce d = true ∨ Passes lib ce d)
    (hq : ∃ d ∈ btcDels, quorumReached ce d = true) :
    collectSigs lib ce acc btcDels = .ok none := by
  induction btcDels generalizing acc with
  | nil =>
    obtain ⟨d, hd, _⟩ := hq
    cases hd
  | cons d ds ih =>
    rw [collectSigs_cons]
    rcases hall d (List.mem_cons_self ..) with h | h
    · rw [(signDelegation_eq_none_iff lib ce d).mpr h]
    · obtain ⟨sigs, hs⟩ := (passes_iff lib ce d).mp h
      rw [hs]
      apply ih
      · intro d' hd'
        exact hall d' (List.mem_cons_of_mem _ hd')
      · obtain ⟨d', hd', hq'⟩ := hq
        rcases List.mem_cons.mp hd' with rfl | hd'
        · rw [quorumReached_of_passes h] at hq'
          cases hq'
        · exact ⟨d', hd', hq'⟩

theorem collectBatch_quorum {lib : Lib} {ce : CovenantEmulator} {btcDels : List (Option Delegation)}
    (hall : ∀ d ∈ btcDels, quorumReached ce d = true ∨ Passes lib ce d)
    (hq : ∃ d ∈ btcDels, quorumReached ce d = true) :
    collectBatch lib ce btcDels = .ok none := by
  have hne : btcDels.length ≠ 0 := by
    obtain ⟨d, hd, _⟩ := hq
    exact Nat.ne_of_gt (List.length_pos_of_mem hd)
  rw [collectBatch, if_neg hne]
  exact collectSigs_quorum [] hall hq

/-- With a quorum in the batch nothing is submitted, so the rest must have quorum too. -/
theorem all_quorum_of_submits {lib : Lib} {ce : CovenantEmulator} {btcDels : List (Option Delegation)}
    (hall : ∀ d ∈ btcDels, quorumReached ce d = true ∨ Passes lib ce d)
    (hq : ∃ d ∈ btcDels, quorumReached ce d = true) (ans : (c : ClientCall) → c.Answer)
    (h : SubmitsWithoutQuorum lib ce btcDels
      (submissions ((addCovenantSignatures lib ce btcDels).play ans).1).flatten) :
    ∀ d ∈ btcDels, quorumReached ce d = true := by
  rw [submissions_play, collectBatch_quorum hall hq] at h
  have hnil := List.forall₂_nil_right_iff.mp h
  intro d hd
  have := List.filter_eq_nil_iff.mp hnil d hd
  simpa using this

theorem submits_of_no_quorum {lib : Lib} {ce : CovenantEmulator} {btcDels : List (Option Delegation)}
    (hne : btcDels ≠ []) (hall : ∀ d ∈ btcDels, quorumReached ce d = true ∨ Passes lib ce d)
    (hq : ∀ d ∈ btcDels, quorumReached ce d = false) (ans : (c : ClientCall) → c.Answer) :
    SubmitsWithoutQuorum lib ce btcDels
      (submissions ((addCovenantSignatures lib ce btcDels).play ans).1).flatten := by
  have hp : ∀ d ∈ btcDels, Passes lib ce d := by
    intro d hd
    rcases hall d hd with h | h
    · rw [hq d hd] at h
      cases h
    · exact h
  obtain ⟨l, hc⟩ := (collectBatch_succeeds_iff lib ce btcDels).mpr ⟨hne, hp⟩
  have hfilter : (btcDels.filter fun d => !quorumReached ce d) = btcDels := by
    rw [List.filter_eq_self]
    intro d hd
    simp [hq d hd]
  rw [submissions_play, hc, SubmitsWithoutQuorum, hfilter]
  simpa using ((collectBatch_eq_some_iff lib ce btcDels l).mp hc).2

/-- **A quorum ends the batch.** On a batch in which every delegation has its quorum or
passes, the call submits the signatures of those without quorum exactly when none of
the delegations has its quorum, or all of them have. -/
theorem quorum_batch_iff (lib : Lib) (ce : CovenantEmulator) (btcDels : List (Option Delegation))
    (hne : btcDels ≠ [])
    (hall : ∀ d ∈ btcDels, quorumReached ce d = true ∨ Passes lib ce d) :
    (∀ ans : (c : ClientCall) → c.Answer, SubmitsWithoutQuorum lib ce btcDels
        (submissions ((addCovenantSignatures lib ce btcDels).play ans).1).flatten) ↔
      (∀ d ∈ btcDels, quorumReached ce d = false) ∨ ∀ d ∈ btcDels, quorumReached ce d = true := by
  constructor
  · intro h
    by_cases hq : ∃ d ∈ btcDels, quorumReached ce d = true
    · exact Or.inr (all_quorum_of_submits hall hq failingAnswers (h failingAnswers))
    · left
      intro d hd
      rw [Bool.eq_false_iff]
      exact fun hd' => hq ⟨d, hd, hd'⟩
  · rintro (hq | hq) ans
    · exact submits_of_no_quorum hne hall hq ans
    · have hex : ∃ d ∈ btcDels, quorumReached ce d = true := by
        obtain ⟨d, hd⟩ := List.exists_mem_of_ne_nil btcDels hne
        exact ⟨d, hd, hq d hd⟩
      have hfilter : (btcDels.filter fun d => !quorumReached ce d) = [] := by
        rw [List.filter_eq_nil_iff]
        intro d hd
        simp [hq d hd]
      rw [submissions_play, collectBatch_quorum hall hex, SubmitsWithoutQuorum, hfilter]
      exact .nil

/-- The sample delegation after two members have signed everything. -/
def quorumDelegation : Delegation :=
  { sampleDelegation with
    covenantSigs := [⟨key 2, []⟩, ⟨key 9, []⟩]
    btcUndelegation := some ⟨txHex unbondingTx, txHex unbondingSlashingTx,
      [⟨key 2, []⟩, ⟨key 9, []⟩], [⟨key 2, ⟨[]⟩⟩, ⟨key 9, ⟨[]⟩⟩], none⟩ }

theorem quorumReached_quorumDelegation :
    quorumReached sampleEmulator (some quorumDelegation) = true := by
  decide +kernel

/-- Where both delegations have their quorum nothing is to be submitted; where only the first
one has, the second one is lost. -/
theorem quorum_batch_iff_sample :
    (∀ ans : (c : ClientCall) → c.Answer,
      SubmitsWithoutQuorum sampleLib sampleEmulator [some quorumDelegation, some quorumDelegation]
        (submissions ((addCovenantSignatures sampleLib sampleEmulator
          [some quorumDelegation, some quorumDelegation]).play ans).1).flatten) ∧
      ¬ ∀ ans : (c : ClientCall) → c.Answer,
        SubmitsWithoutQuorum sampleLib sampleEmulator [some quorumDelegation, some sampleDelegation]
          (submissions ((addCovenantSignatures sampleLib sampleEmulator
            [some quorumDelegation, some sampleDelegation]).play ans).1).flatten := by
  have hq := quorumReached_quorumDelegation
  have hpasses : Passes sampleLib sampleEmulator (some sampleDelegation) := ⟨sampleAccepted⟩
  have hboth : ∀ d ∈ [some quorumDelegation, some quorumDelegation],
      quorumReached sampleEmulator d = true := by
    simp only [List.mem_cons, List.not_mem_nil, or_false, or_self, forall_eq]
    exact hq
  have hmixed : ∀ d ∈ [some quorumDelegation, some sampleDelegation],
      quorumReached sampleEmulator d = true ∨ Passes sampleLib sampleEmulator d := by
    simp only [List.mem_cons, List.not_mem_nil, or_false, forall_eq_or_imp, forall_eq]
    exact ⟨Or.inl hq, Or.inr hpasses⟩
  constructor
  · exact (quorum_batch_iff sampleLib sampleEmulator _ (by simp) fun d hd => Or.inl (hboth d hd)).mpr
      (Or.inr hboth)
  · rw [quorum_batch_iff sampleLib sampleEmulator _ (by simp) hmixed]
    rintro (hnone | hall)
    · exact Bool.false_ne_true ((hnone _ (by simp)).symm.trans hq)
    · have hfalse := quorumReached_of_passes hpasses
      rw [hall (some sampleDelegation) (by simp)] at hfalse
      cases hfalse

/-- Next to a delegation with quorum the sample delegation is not submitted. -/
theorem quorum_loses_batch : ¬ ∀ ans : (c : ClientCall) → c.Answer,
    SubmitsWithoutQuorum sampleLib sampleEmulator [some sampleDelegation, some quorumDelegation]
      (submissions ((addCovenantSignatures sampleLib sampleEmulator
        [some sampleDelegation, some quorumDelegation]).play ans).1).flatten := by
  intro h
  have hq := quorumReached_quorumDelegation
  have hall : ∀ d ∈ [some sampleDelegation, some quorumDelegation],
      quorumReached sampleEmulator d = true ∨ Passes sampleLib sampleEmulator d := by
    simp only [List.mem_cons, List.not_mem_nil, or_false, forall_eq_or_imp, forall_eq]
    exact ⟨Or.inr ⟨sampleAccepted⟩, Or.inl hq⟩
  have := all_quorum_of_submits hall ⟨_, by simp, hq⟩ failingAnswers (h failingAnswers)
    (some sampleDelegation) (by simp)
  rw [quorumReached_of_passes ⟨sampleAccepted⟩] at this
  cases this

/-! ## Full coverage -/

/-- Each of the three kinds of signatures has at least `quorum` entries. -/
def Covered (d : Delegation) (ud : Undelegation) (quorum : UInt32) : Prop :=
  quorum.toNat ≤ d.covenantSigs.length ∧ quorum.toNat ≤ ud.covenantSlashingSigs.length ∧
    quorum.toNat ≤ ud.covenantUnbondingSigs.length

/-- Exactly the covered delegations have a quorum, and the loop takes its quorum exit at no
other. -/
def OnlyCoveredDone (d : Delegation) (ud : Undelegation) (quorum : UInt32) : Prop :=
  (d.hasCovenantQuorum quorum = .ok true ↔ Covered d ud quorum) ∧
    ∀ lib ce params, ce.params = some params → params.covenantQuorum = quorum →
      signDelegation lib ce (some d) = .ok none → Covered d ud quorum

theorem hasCovenantQuorum_iff {d : Delegation} {ud : Undelegation} (hud : d.btcUndelegation = some ud)
    (hlen : d.covenantSigs.length < 2 ^ 32) (quorum : UInt32) :
    d.hasCovenantQuorum quorum = .ok true ↔
      quorum.toNat ≤ d.covenantSigs.length ∧ quorum.toNat ≤ ud.covenantUnbondingSigs.length := by
  have hnat : (UInt32.ofNat d.covenantSigs.length).toNat = d.covenantSigs.length := by
    rw [UInt32.toNat_ofNat']
    omega
  rw [Delegation.hasCovenantQuorum_eq hud, Except.ok.injEq, Bool.and_eq_true, decide_eq_true_eq,
    ge_iff_le, UInt32.le_iff_toNat_le, hnat]
  simp only [Undelegation.hasAllSignatures, Undelegation.hasCovenantQuorumOnUnbonding,
    Undelegation.hasCovenantQuorumOnSlashing, Bool.and_self, decide_eq_true_eq, ge_iff_le]

/-- **Coverage.** The unbonding signatures are counted twice and the slashing signatures of
the undelegation never, so the quorum test is right exactly when these suffice or
another list is too short already. -/
theorem quorum_covers_iff (d : Delegation) (ud : Undelegation) (hud : d.btcUndelegation = some ud)
    (hlen : d.covenantSigs.length < 2 ^ 32) (quorum : UInt32) :
    OnlyCoveredDone d ud quorum ↔
      (quorum.toNat ≤ ud.covenantSlashingSigs.length ∨ d.covenantSigs.length < quorum.toNat ∨
        ud.covenantUnbondingSigs.length < quorum.toNat) := by
  have hquorum := hasCovenantQuorum_iff hud hlen quorum
  constructor
  · rintro ⟨hiff, _⟩
    rw [hquorum] at hiff
    by_contra hnot
    simp only [not_or, Nat.not_le, Nat.not_lt] at hnot
    obtain ⟨_, hslashing, _⟩ := hiff.mp hnot.2
    omega
  · intro hcond
    have hiff : d.hasCovenantQuorum quorum = .ok true ↔ Covered d ud quorum := by
      rw [hquorum]
      unfold Covered
      omega
    refine ⟨hiff, ?_⟩
    intro lib ce params hparams hq hs
    apply hiff.mp
    have hreached := (signDelegation_eq_none_iff lib ce (some d)).mp hs
    simpa [quorumReached, hud, hparams, hq] using hreached

/-- The undelegation of `quorumDelegation`. -/
def fullySigned : Undelegation where
  unbondingTxHex := txHex unbondingTx
  slashingTxHex := txHex unbondingSlashingTx
  covenantSlashingSigs := [⟨key 2, []⟩, ⟨key 9, []⟩]
  covenantUnbondingSigs := [⟨key 2, ⟨[]⟩⟩, ⟨key 9, ⟨[]⟩⟩]
  delegatorUnbondingSig := none

theorem quorum_covers_iff_sample :
    OnlyCoveredDone quorumDelegation fullySigned 2 ↔
      ((2 : UInt32).toNat ≤ fullySigned.covenantSlashingSigs.length ∨
        quorumDelegation.covenantSigs.length < (2 : UInt32).toNat ∨
        fullySigned.covenantUnbondingSigs.length < (2 : UInt32).toNat) :=
  quorum_covers_iff quorumDelegation fullySigned rfl (by decide) 2

/-- Two members have signed the staking transactions and the unbonding transaction, and
nobody the slashing of the unbonding. -/
def halfSigned : Undelegation := { fullySigned with covenantSlashingSigs := [] }

/-- Such a delegation counts as done. -/
theorem half_signed_is_done :
    ¬ OnlyCoveredDone { quorumDelegation with btcUndelegation := some halfSigned } halfSigned 2 := by
  rintro ⟨hiff, _⟩
  obtain ⟨_, hslashing, _⟩ := hiff.mp (by decide +kernel)
  exact absurd hslashing (by decide)

end Covenant.Gate
