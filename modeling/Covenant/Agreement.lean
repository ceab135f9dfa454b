import Covenant.Committee

/-! What the members of a committee sign for one delegation. The transactions are the
same for all of them. The tapscript leaves are rebuilt from the parameters that each
tick fetches, so they are the same when the covenant keys and the quorum were
(`committee_agreement`), and differ when governance changed the quorum in between
(`leaves_differ_after_governance`). -/

namespace Covenant.Agreement
open Outcome Interaction Reactor Bitcoin Covenant.Types Emulator Signing Loop Controller Records
  Chain Runs Ticks Member Committee Reference

/-! ## What is signed -/

/-- The transactions that are signed, with the outputs they spend. -/
structure Transactions where
  stakingTx : MsgTx
  stakingOutputIdx : UInt32
  slashingTx : BTCSlashingTx
  unbondingTx : MsgTx
  unbondingSlashingTx : BTCSlashingTx

/-- The leaves that the signatures commit to: the slashing and the unbonding path of the
staking output, and the slashing path of the unbonding output. -/
structure Leaves where
  slashing : Bytes
  unbonding : Bytes
  unbondingSlashing : Bytes

variable {lib : Lib} {ce ce' : CovenantEmulator} {d d' : Delegation}

def transactions {btcDel : Option Delegation} (a : Accepted lib ce btcDel) : Transactions where
  stakingTx := a.checked.stakingMsgTx
  stakingOutputIdx := a.del.stakingOutputIdx
  slashingTx := a.checked.slashingTx
  unbondingTx := a.checked.unbondingMsgTx
  unbondingSlashingTx := a.signed.slashUnbondingTx

def leaves {btcDel : Option Delegation} (a : Accepted lib ce btcDel) : Leaves where
  slashing := a.signed.slashingPathInfo.getPkScriptPath
  unbonding := a.signed.stakingTxUnbondingPathInfo.getPkScriptPath
  unbondingSlashing := a.signed.unbondingTxSlashingPath.getPkScriptPath

/-- Two results of one call. -/
theorem ok_unique {ε α : Type} {x y : Except ε α} {a b : α} (h : x = .ok a) (h' : y = .ok b)
    (hxy : x = y) : a = b := by
  rw [h, h'] at hxy
  exact Except.ok.inj hxy

theorem terms_eq (hbare : bare d = bare d') :
    d.btcPk = d'.btcPk ∧ d.fpBtcPks = d'.fpBtcPks ∧ d.startHeight = d'.startHeight ∧
      d.endHeight = d'.endHeight ∧ d.totalSat = d'.totalSat ∧ d.stakingTxHex = d'.stakingTxHex ∧
      d.stakingOutputIdx = d'.stakingOutputIdx ∧ d.slashingTxHex = d'.slashingTxHex ∧
      d.unbondingTime = d'.unbondingTime := by
  simp only [bare, Delegation.mk.injEq] at hbare
  obtain ⟨h1, h2, h3, h4, h5, h6, h7, h8, h9, _⟩ := hbare
  exact ⟨h1, h2, h3, h4, h5, h6, h7, h8, h9⟩

theorem undelegation_hex_eq {ud ud' : Undelegation} (hbare : bare d = bare d')
    (h : d.btcUndelegation = some ud) (h' : d'.btcUndelegation = some ud') :
    ud.unbondingTxHex = ud'.unbondingTxHex ∧ ud.slashingTxHex = ud'.slashingTxHex := by
  have hud := congrArg Delegation.btcUndelegation hbare
  simp only [bare, h, h', Option.map_some, Option.some.injEq, Undelegation.mk.injEq] at hud
  exact ⟨hud.1, hud.2.1⟩

theorem transactions_eq (a : Accepted lib ce (some d)) (a' : Accepted lib ce' (some d'))
    (hbare : bare d = bare d') : transactions a = transactions a' := by
  obtain ⟨x, ud, p, c, s, hx, hud, hp, hq, hchecks, hsigning⟩ := a
  obtain ⟨x', ud', p', c', s', hx', hud', hp', hq', hchecks', hsigning'⟩ := a'
  obtain rfl := Option.some.inj hx
  obtain rfl := Option.some.inj hx'
  obtain ⟨hutx, hustx⟩ := undelegation_hex_eq hbare hud hud'
  obtain ⟨_, _, _, _, _, hstx, hidx, hsltx, _⟩ := terms_eq hbare
  have h1 := ok_unique hchecks.staking_parses hchecks'.staking_parses (by rw [hstx])
  have h2 := ok_unique hchecks.slashing_parses hchecks'.slashing_parses (by rw [hsltx])
  have h3 := ok_unique hchecks.unbonding_parses hchecks'.unbonding_parses (by rw [hutx])
  have h4 := ok_unique hsigning.slashUnbonding_parses hsigning'.slashUnbonding_parses (by rw [hustx])
  simp only [transactions, h1, h2, h3, h4, hidx]

/-- The leaves depend on the delegation, the covenant keys, the quorum and the network. -/
theorem leaves_eq (a : Accepted lib ce (some d)) (a' : Accepted lib ce' (some d'))
    (hbare : bare d = bare d') (hpks : a.params.covenantPks = a'.params.covenantPks)
    (hquorum : a.params.covenantQuorum = a'.params.covenantQuorum)
    (hnet : ce.config.btcNetParams = ce'.config.btcNetParams) : leaves a = leaves a' := by
  have htxs := transactions_eq a a' hbare
  obtain ⟨x, ud, p, c, s, hx, hud, hp, hq, hchecks, hsigning⟩ := a
  obtain ⟨x', ud', p', c', s', hx', hud', hp', hq', hchecks', hsigning'⟩ := a'
  obtain rfl := Option.some.inj hx
  obtain rfl := Option.some.inj hx'
  obtain ⟨hstaker, hfps, hstart, hend, hsat, _, _, _, hunb⟩ := terms_eq hbare
  have htime := ok_unique hsigning.stakingTime_eq hsigning'.stakingTime_eq
    (by rw [Delegation.getStakingTime, Delegation.getStakingTime, hstart, hend])
  have hinfo := ok_unique hsigning.stakingInfo_built hsigning'.stakingInfo_built
    (by rw [hstaker, hfps, hpks, hquorum, htime, hsat, hnet])
  have hutx : c.unbondingMsgTx = c'.unbondingMsgTx := congrArg Transactions.unbondingTx htxs
  obtain ⟨out, hout, hbuilt⟩ := hchecks.unbondingInfo_built
  obtain ⟨out', hout', hbuilt'⟩ := hchecks'.unbondingInfo_built
  rw [hutx, hout'] at hout
  obtain rfl := Option.some.inj hout
  have huinfo := ok_unique hbuilt hbuilt' (by rw [hstaker, hfps, hpks, hquorum, hunb, hnet])
  have h1 := ok_unique hsigning.slashingPath hsigning'.slashingPath (by rw [hinfo])
  have h2 := ok_unique hsigning.unbondingPath hsigning'.unbondingPath (by rw [hinfo])
  have h3 := ok_unique hsigning.unbondingSlashingPath hsigning'.unbondingSlashingPath (by rw [huinfo])
  simp only [leaves, h1, h2, h3]

/-! ## Submissions in a run -/

/-- A message that a member sent in one of its ticks: the parameters that were fetched, the
record and the delegation it is for, and how it was signed. -/
structure Submission (lib : Lib) (b : BabylonController)
    (as : List (Action bbnClient CovenantEmulator)) where
  emulator : CovenantEmulator
  calls : RpcTrace
  in_round : InRound as emulator calls
  message : MsgAddCovenantSigs
  sent : message ∈ (sends calls).flatten
  ckpt : BTCCheckpointParams
  staking : BTCStakingParams
  fetched : ⟨.btcCheckpointParams, .ok ckpt⟩ ∈ calls ∧ ⟨.btcStakingParams, .ok staking⟩ ∈ calls
  params : StakingParams
  params_eq : stakingParamsOf lib b ckpt staking = .ok params
  page : BTCDelegationsResponse
  page_mem : paged .pending ⟨none, emulator.config.delegationLimit⟩ page ∈ calls
  record : BTCDelegation
  record_mem : record ∈ page.btcDelegations.elems
  delegation : Delegation
  converted : convertDelegationType lib record = .ok delegation
  accepted : Accepted lib (withParams emulator params) (some delegation)
  message_eq : msgAddCovenantSigs lib b accepted.sigs = .ok message

variable {ι : Type} [DecidableEq ι] {bc : ι → BabylonController} {ce₀ : ι → CovenantEmulator}
  {c₀ : Ledger lib}

/-- Every message that is sent is such a submission, on a delegation that was shown as not
yet signed. -/
theorem exists_submission {b : BabylonController} {ce₁ : CovenantEmulator}
    {as bs : List (Action bbnClient CovenantEmulator)} {ph : Phase bbnClient Halt CovenantEmulator}
    {msgs : List MsgAddCovenantSigs} {answer : Except GoError RelayerTxResponse}
    {m : MsgAddCovenantSigs}
    (h : Reactor.Run (memberTick lib b) ce₁ (as ++ .event ⟨.reliablySendMsgs msgs, answer⟩ :: bs) ph)
    (hm : m ∈ msgs) :
    ∃ s : Submission lib b (as ++ .event ⟨.reliablySendMsgs msgs, answer⟩ :: bs),
      s.message = m ∧ alreadySigned lib s.emulator s.delegation = false := by
  obtain ⟨as', ce, t, ckpt, staking, p, res, rs, r, rfl, hsent, hmem, hr, d, s, hd, hun, hsign, hmsg⟩ :=
    sent_of_send h hm
  obtain ⟨a, rfl⟩ := (signDelegation_eq_some_iff _ _ _ _).mp hsign
  exact ⟨{ emulator := ce, calls := _, in_round := ⟨as', bs, by simp⟩, message := m, sent := hmem,
           ckpt := ckpt, staking := staking, fetched := ⟨hsent.ckpt_mem, hsent.staking_mem⟩,
           params := p, params_eq := hsent.params_eq, page := res, page_mem := hsent.page_mem,
           record := r, record_mem := hr, delegation := d, converted := hd, accepted := a,
           message_eq := hmsg }, rfl, hun⟩

/-- Submissions for one delegation, by any members and at any time, are on records that
differ only in signatures. -/
theorem Submission.bare_eq {ls : Log ι} {ph : ι → Phase bbnClient Halt CovenantEmulator}
    {c : Ledger lib} (h : CommitteeRun lib bc ce₀ c₀ ls ph c) {i j : ι}
    (s : Submission lib (bc i) (System.actions i ls)) (s' : Submission lib (bc j) (System.actions j ls))
    (hhash : s.message.stakingTxHash = s'.message.stakingTxHash) :
    bare s.delegation = bare s'.delegation := by
  obtain ⟨c₁, hpage, hg⟩ := page_of_mem h (s.in_round.event_mem s.page_mem)
  obtain ⟨c₂, hpage', hg'⟩ := page_of_mem h (s'.in_round.event_mem s'.page_mem)
  have hr := s.record_mem
  have hr' := s'.record_mem
  rw [hpage] at hr
  rw [hpage'] at hr'
  have hbare := bareRecord_eq_of_pages hg hg' hr hr'
    (concerns_of_accepted s.converted s.accepted s.message_eq)
    (concerns_of_accepted s'.converted s'.accepted s'.message_eq) hhash
  exact bare_eq_of_converts (convertDelegationType_eq_ok_iff.mp s.converted)
    (convertDelegationType_eq_ok_iff.mp s'.converted) hbare

theorem keys_of_stakingParamsOf {b : BabylonController} {ckpt : BTCCheckpointParams}
    {staking : BTCStakingParams} {p : StakingParams}
    (h : stakingParamsOf lib b ckpt staking = .ok p) :
    List.Forall₂ (fun x pk => lib.toBTCPK x = .ok pk) staking.covenantPks p.covenantPks ∧
      p.covenantQuorum = staking.covenantQuorum := by
  obtain ⟨pks, hpks, h⟩ := bind_eq_ok_iff.mp h
  obtain ⟨addr, _, h⟩ := bind_eq_ok_iff.mp h
  cases h
  refine ⟨(mapM_eq_ok_iff.mp hpks).imp ?_, rfl⟩
  intro x pk hx
  cases hpk : lib.toBTCPK x with
  | error err => simp [hpk] at hx
  | ok covPk => simpa [hpk] using hx

/-- The covenant keys are decoded the same way by every member. -/
theorem keys_unique {xs : List BIP340PubKey} {pks pks' : List PublicKey}
    (h : List.Forall₂ (fun x pk => lib.toBTCPK x = .ok pk) xs pks)
    (h' : List.Forall₂ (fun x pk => lib.toBTCPK x = .ok pk) xs pks') : pks = pks' := by
  have hunique : Relator.RightUnique fun (x : BIP340PubKey) pk => lib.toBTCPK x = .ok pk := by
    intro x pk pk' hpk hpk'
    exact ok_unique hpk hpk' rfl
  exact hunique.forall₂ h h'

/-- **Committee agreement.** -/
theorem committee_agreement (lib : Lib) (bc : ι → BabylonController) (ce₀ : ι → CovenantEmulator)
    (c₀ : Ledger lib) (ls : Log ι) (ph : ι → Phase bbnClient Halt CovenantEmulator) (c : Ledger lib)
    (h : CommitteeRun lib bc ce₀ c₀ ls ph c) (i j : ι) :
    (∀ as bs msgs answer, System.actions i ls = as ++ .event ⟨.reliablySendMsgs msgs, answer⟩ :: bs →
      ∀ m ∈ msgs, ∃ s : Submission lib (bc i) (System.actions i ls), s.message = m) ∧
    ∀ (s : Submission lib (bc i) (System.actions i ls))
      (s' : Submission lib (bc j) (System.actions j ls)),
      s.message.stakingTxHash = s'.message.stakingTxHash →
        transactions s.accepted = transactions s'.accepted ∧
        (s.staking.covenantPks = s'.staking.covenantPks →
          s.staking.covenantQuorum = s'.staking.covenantQuorum →
          (ce₀ i).config.btcNetParams = (ce₀ j).config.btcNetParams →
          leaves s.accepted = leaves s'.accepted) := by
  constructor
  · intro as bs msgs answer heq m hm
    have hrun := h.actions i
    rw [heq] at hrun ⊢
    obtain ⟨s, hs, _⟩ := exists_submission hrun hm
    exact ⟨s, hs⟩
  · intro s s' hhash
    have hbare := s.bare_eq h s' hhash
    refine ⟨transactions_eq _ _ hbare, ?_⟩
    intro hpks hquorum hnet
    obtain ⟨hkeys, hq⟩ := keys_of_stakingParamsOf s.params_eq
    obtain ⟨hkeys', hq'⟩ := keys_of_stakingParamsOf s'.params_eq
    have hparams : s.accepted.params = s.params := Option.some.inj s.accepted.params_eq.symm
    have hparams' : s'.accepted.params = s'.params := Option.some.inj s'.accepted.params_eq.symm
    obtain ⟨_, hconfig, _⟩ := steps_of_inRound (h.actions i) s.in_round
    obtain ⟨_, hconfig', _⟩ := steps_of_inRound (h.actions j) s'.in_round
    refine leaves_eq _ _ hbare ?_ ?_ ?_
    · rw [hparams, hparams']
      rw [hpks] at hkeys
      exact keys_unique hkeys hkeys'
    · rw [hparams, hparams', hq, hq', hquorum]
    · show s.emulator.config.btcNetParams = s'.emulator.config.btcNetParams
      rw [hconfig, hconfig', hnet]

/-- What a member of the sample committee sends in its tick. -/
def sampleSubmission (b : Bool) (quorum : UInt32) (hq : 0 < quorum)
    (as : List (Action bbnClient CovenantEmulator))
    (h : InRound as (startWith (memberKey b)) (rpcTick (memberKey b) quorum)) :
    Submission sampleLib sampleController as where
  emulator := startWith (memberKey b)
  calls := rpcTick (memberKey b) quorum
  in_round := h
  message := msgWith (memberKey b) quorum
  sent := List.mem_singleton_self _
  ckpt := (sampleLedger quorum []).ckptParams
  staking := (sampleLedger quorum []).stakingParams
  fetched := ⟨.head _, .tail _ (.head _)⟩
  params := paramsWith quorum
  params_eq := rfl
  page := samplePage
  page_mem := .tail _ (.tail _ (.head _))
  record := sampleRecord
  record_mem := List.mem_singleton_self _
  delegation := sampleDelegation
  converted := convertDelegationType_eq_ok_iff.mpr converts_sampleRecord
  accepted := acceptedWith (memberKey b) (paramsWith quorum) _ _ _ (likeSample_paramsWith hq) honestPair
  message_eq := msgAddCovenantSigs_sample _

theorem inRound_true : InRound (System.actions true sampleLog) (startWith (memberKey true))
    (rpcTick (memberKey true) 2) := ⟨[], _, rfl⟩

theorem inRound_false : InRound (System.actions false sampleLog) (startWith (memberKey false))
    (rpcTick (memberKey false) 3) := ⟨[], _, rfl⟩

/-- A tick of each member under the same parameters. -/
def agreeingLog : Log Bool := tickLog true 2 ++ tickLog false 2

theorem run_agreeingLog : ∃ ph c, CommitteeRun sampleLib (fun _ => sampleController)
    (fun b => startWith (memberKey b)) (sampleLedger 2 []) agreeingLog ph c := by
  have hinit : CommitteeRun sampleLib (fun _ => sampleController)
      (fun b => startWith (memberKey b)) (sampleLedger 2 []) [] _ (sampleLedger 2 []) := .init
  have hfirst := hinit.complete (i := true) rfl (steps_rpcTick (memberKey true) (by decide))
    (answers_rpcTick true (memberKey true) 2 [])
  have hsecond := hfirst.complete (i := false) rfl (steps_rpcTick (memberKey false) (by decide))
    (answers_rpcTick false (memberKey false) 2 [[msgWith (memberKey true) 2]])
  exact ⟨_, _, hsecond⟩

theorem inRound_agreeingLog (b : Bool) : InRound (System.actions b agreeingLog)
    (startWith (memberKey b)) (rpcTick (memberKey b) 2) := by
  cases b with
  | true => exact ⟨[], _, rfl⟩
  | false => exact ⟨[], _, rfl⟩

/-- What both members sign: the same transactions, whatever happens to the parameters in
between, and for the same leaves when nothing does. -/
theorem committee_agreement_sample :
    (∃ ph c, CommitteeRun sampleLib (fun _ => sampleController) (fun b => startWith (memberKey b))
        (sampleLedger 2 []) sampleLog ph c ∧
      transactions (sampleSubmission true 2 (by decide) _ inRound_true).accepted =
        transactions (sampleSubmission false 3 (by decide) _ inRound_false).accepted) ∧
    ∃ ph c, CommitteeRun sampleLib (fun _ => sampleController) (fun b => startWith (memberKey b))
        (sampleLedger 2 []) agreeingLog ph c ∧
      leaves (sampleSubmission true 2 (by decide) _ (inRound_agreeingLog true)).accepted =
        leaves (sampleSubmission false 2 (by decide) _ (inRound_agreeingLog false)).accepted := by
  obtain ⟨ph, c, h⟩ := run_sampleLog
  obtain ⟨ph', c', h'⟩ := run_agreeingLog
  have hname := fun pk pk' quorum quorum' =>
    (stakingTxHash_msgWith pk quorum).trans (stakingTxHash_msgWith pk' quorum').symm
  have hagree := (committee_agreement sampleLib _ _ _ _ ph c h true false).2
  have hagree' := (committee_agreement sampleLib _ _ _ _ ph' c' h' true false).2
  constructor
  · exact ⟨ph, c, h, (hagree (sampleSubmission true 2 (by decide) _ inRound_true)
      (sampleSubmission false 3 (by decide) _ inRound_false) (hname _ _ _ _)).1⟩
  · exact ⟨ph', c', h', (hagree' (sampleSubmission true 2 (by decide) _ (inRound_agreeingLog true))
      (sampleSubmission false 2 (by decide) _ (inRound_agreeingLog false)) (hname _ _ _ _)).2 rfl rfl rfl⟩

/-- The quorum was 2 at the tick of the one member and 3 at that of the other, and they
signed for different leaves. -/
theorem leaves_differ_after_governance :
    ∃ ph c, CommitteeRun sampleLib (fun _ => sampleController) (fun b => startWith (memberKey b))
        (sampleLedger 2 []) sampleLog ph c ∧
      ∃ (s : Submission sampleLib sampleController (System.actions true sampleLog))
        (s' : Submission sampleLib sampleController (System.actions false sampleLog)),
        s.message.stakingTxHash = s'.message.stakingTxHash ∧
          leaves s.accepted ≠ leaves s'.accepted := by
  obtain ⟨ph, c, h⟩ := run_sampleLog
  refine ⟨ph, c, h, sampleSubmission true 2 (by decide) _ inRound_true,
    sampleSubmission false 3 (by decide) _ inRound_false,
    (stakingTxHash_msgWith _ _).trans (stakingTxHash_msgWith _ _).symm, ?_⟩
  intro heq
  have hleaf : unbondingLeaf (key 7) covenantPks 2 = unbondingLeaf (key 7) covenantPks 3 :=
    congrArg Leaves.unbonding heq
  exact absurd hleaf (by decide)

end Covenant.Agreement
