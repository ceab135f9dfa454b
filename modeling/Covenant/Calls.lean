import Covenant.Interaction
import Covenant.Signing

/-! One iteration of `AddCovenantSignatures` with the library calls that fix a funding
output or a lock time made visible: a program over these calls, which computes what
`signDelegation` computes (`play_signDelegationCalls`). So the calls of an iteration,
with all their arguments, are a trace (`libCalls`), whether or not the iteration ends
well. -/

namespace Covenant.Calls
open Outcome Interaction Bitcoin Covenant.Types Emulator Signing

/-! ## The calls -/

/-- The transaction of the delegation whose output is spent. -/
inductive Funding
  | stakingTx
  | unbondingTx
  deriving DecidableEq, Repr

/-- The arguments stand in the order of `Lib`, after the funding transaction's name. -/
inductive LibCall
  | checkTransactions (funding : Funding) (slashingTx fundingTx : MsgTx) (fundingOutputIdx : UInt32)
      (slashingTxMinFee : Int64) (slashingRate : LegacyDec) (slashingAddress : Address)
      (stakerPk : PublicKey) (slashingChangeLockTime : UInt16) (net : NetParams)
  | buildUnbondingInfo (stakerPk : PublicKey) (fpPks covenantPks : List PublicKey)
      (covenantQuorum : UInt32) (unbondingTime : UInt16) (unbondingAmount : Int64) (net : NetParams)
  | encSign (funding : Funding) (tx : BTCSlashingTx) (fundingTx : MsgTx) (fundingOutputIdx : UInt32)
      (scriptPath : Bytes) (privKey : PrivateKey) (encKey : EncryptionKey)
  | signTxWithOneScriptSpendInputStrict (funding : Funding) (tx fundingTx : MsgTx)
      (fundingOutputIdx : UInt32) (scriptPath : Bytes) (privKey : PrivateKey)

abbrev LibCall.Answer : LibCall → Type
  | .checkTransactions .. => Except GoError Unit
  | .buildUnbondingInfo .. => Except GoError UnbondingInfo
  | .encSign .. => Except GoError AdaptorSignature
  | .signTxWithOneScriptSpendInputStrict .. => Except GoError Signature

abbrev libInterface : Interface where
  Call := LibCall
  Answer := LibCall.Answer

abbrev Signer (α : Type) := Prog libInterface Exit α

/-- The library answers by its functions. -/
def answer (lib : Lib) : (c : LibCall) → c.Answer
  | .checkTransactions _ slashing funding idx fee rate addr pk lock net =>
    lib.checkTransactions slashing funding idx fee rate addr pk lock net
  | .buildUnbondingInfo pk fps covs quorum time amount net =>
    lib.buildUnbondingInfo pk fps covs quorum time amount net
  | .encSign _ tx funding idx path sk encKey => lib.encSign tx funding idx path sk encKey
  | .signTxWithOneScriptSpendInputStrict _ tx funding idx path sk =>
    lib.signTxWithOneScriptSpendInputStrict tx funding idx path sk

/-! ## The iteration -/

def checkDelegationCalls (lib : Lib) (net : NetParams) (params : StakingParams) (btcDel : Delegation)
    (undelegation : Undelegation) : Signer Checked := do
  let unbondingTime := btcDel.unbondingTime
  let minUnbondingTime := params.minUnbondingTime
  Prog.ofExcept (rejectIf (unbondingTime ≤ minUnbondingTime)
    s!"unbonding time {unbondingTime} must be larger than {minUnbondingTime}")
  let stakingMsgTx ← Prog.ofExcept (orReturn (lib.newBTCTxFromHex btcDel.stakingTxHex))
  let slashingTx ← Prog.ofExcept (orReturn (lib.newBTCSlashingTxFromHex btcDel.slashingTxHex))
  let slashingMsgTx ← Prog.ofExcept (orReturn (lib.toMsgTx slashingTx))
  let err ← Prog.ask (I := libInterface) (.checkTransactions .stakingTx slashingMsgTx stakingMsgTx
    btcDel.stakingOutputIdx params.minSlashingTxFeeSat params.slashingRate params.slashingAddress
    btcDel.btcPk unbondingTime.toUInt16 net)
  Prog.ofExcept (orWrap "invalid txs in the delegation" err)
  let unbondingSlashingMsgTx ←
    Prog.ofExcept (orReturn (lib.newBTCTxFromHex undelegation.slashingTxHex))
  let unbondingMsgTx ← Prog.ofExcept (orReturn (lib.newBTCTxFromHex undelegation.unbondingTxHex))
  let unbondingOut ← Prog.ofExcept (index unbondingMsgTx.txOut 0)
  let info ← Prog.ask (I := libInterface) (.buildUnbondingInfo btcDel.btcPk btcDel.fpBtcPks
    params.covenantPks params.covenantQuorum unbondingTime.toUInt16 unbondingOut.value net)
  let unbondingInfo ← Prog.ofExcept (orReturn info)
  let err ← Prog.ask (I := libInterface) (.checkTransactions .unbondingTx unbondingSlashingMsgTx
    unbondingMsgTx 0 params.minSlashingTxFeeSat params.slashingRate params.slashingAddress
    btcDel.btcPk unbondingTime.toUInt16 net)
  Prog.ofExcept (orWrap "invalid txs in the undelegation" err)
  return { stakingMsgTx, slashingTx, slashingMsgTx, unbondingSlashingMsgTx, unbondingMsgTx,
           unbondingInfo }

def encSignEachCalls (lib : Lib) (funding : Funding) (tx : BTCSlashingTx) (fundingTx : MsgTx)
    (outputIdx : UInt32) (scriptPath : Bytes) (privKey : PrivateKey) :
    List PublicKey → Signer (List Bytes)
  | [] => return []
  | fpPk :: fpBtcPks => do
    let encKey ← Prog.ofExcept (orReturn (lib.newEncryptionKeyFromBTCPK fpPk))
    let sig ← Prog.ask (I := libInterface)
      (.encSign funding tx fundingTx outputIdx scriptPath privKey encKey)
    let covenantSig ← Prog.ofExcept (orReturn sig)
    let rest ← encSignEachCalls lib funding tx fundingTx outputIdx scriptPath privKey fpBtcPks
    return lib.mustMarshal covenantSig :: rest

def signCheckedCalls (lib : Lib) (ce : CovenantEmulator) (params : StakingParams)
    (btcDel : Delegation) (undelegation : Undelegation) (c : Checked) : Signer CovenantSigs := do
  let covenantPrivKey ←
    Prog.ofExcept (wrapError "failed to get Covenant private key" (ce.getPrivKey lib))
  let stakingTime ← Prog.ofExcept btcDel.getStakingTime
  let stakingInfo ← Prog.ofExcept (orReturn (lib.buildStakingInfo btcDel.btcPk btcDel.fpBtcPks
    params.covenantPks params.covenantQuorum stakingTime btcDel.totalSat.toInt64
    ce.config.btcNetParams))
  let slashingPathInfo ← Prog.ofExcept (orReturn (lib.stakingSlashingPathSpendInfo stakingInfo))
  let covSigs ← encSignEachCalls lib .stakingTx c.slashingTx c.stakingMsgTx btcDel.stakingOutputIdx
    slashingPathInfo.getPkScriptPath covenantPrivKey btcDel.fpBtcPks
  let stakingTxUnbondingPathInfo ←
    Prog.ofExcept (orReturn (lib.stakingUnbondingPathSpendInfo stakingInfo))
  let sig ← Prog.ask (I := libInterface) (.signTxWithOneScriptSpendInputStrict .stakingTx
    c.unbondingMsgTx c.stakingMsgTx btcDel.stakingOutputIdx
    stakingTxUnbondingPathInfo.getPkScriptPath covenantPrivKey)
  let covenantUnbondingSignature ← Prog.ofExcept (orWrap "failed to sign unbonding tx" sig)
  let slashUnbondingTx ←
    Prog.ofExcept (orReturn (lib.newBTCSlashingTxFromHex undelegation.slashingTxHex))
  let unbondingTxSlashingPath ←
    Prog.ofExcept (orReturn (lib.unbondingSlashingPathSpendInfo c.unbondingInfo))
  let covSlashingSigs ← encSignEachCalls lib .unbondingTx slashUnbondingTx c.unbondingMsgTx 0
    unbondingTxSlashingPath.getPkScriptPath covenantPrivKey btcDel.fpBtcPks
  return { publicKey := ce.pk
           stakingTxHash := lib.txHash c.stakingMsgTx
           slashingSigs := covSigs
           unbondingSig := covenantUnbondingSignature
           slashingUnbondingSigs := covSlashingSigs }

def signDelegationCalls (lib : Lib) (ce : CovenantEmulator) :
    Option Delegation → Signer (Option CovenantSigs)
  | none => .halt (.error "empty delegation")
  | some btcDel =>
    match btcDel.btcUndelegation with
    | none => .halt (.error "empty undelegation")
    | some undelegation => do
      let params ← Prog.ofExcept (deref ce.params)
      match ← Prog.ofExcept (btcDel.hasCovenantQuorum params.covenantQuorum) with
      | true => return none
      | false =>
        let c ← checkDelegationCalls lib ce.config.btcNetParams params btcDel undelegation
        let sigs ← signCheckedCalls lib ce params btcDel undelegation c
        return some sigs

/-- The calls of the iteration, in order, up to the one that ends it. -/
def libCalls (lib : Lib) (ce : CovenantEmulator) (btcDel : Option Delegation) : List LibCall :=
  ((signDelegationCalls lib ce btcDel).play (answer lib)).1.map (·.call)

/-! ## Agreement with `signDelegation` -/

theorem play_checkDelegationCalls (lib : Lib) (net : NetParams) (params : StakingParams)
    (btcDel : Delegation) (undelegation : Undelegation) :
    ((checkDelegationCalls lib net params btcDel undelegation).play (answer lib)).2 =
      checkDelegation lib net params btcDel undelegation := by
  simp only [checkDelegationCalls, checkDelegation, Prog.bind_eq, Prog.play_bind_snd,
    Prog.play_ofExcept, Prog.ask, Prog.call_bind, Prog.ret_bind, Prog.play_call, Prog.pure_eq,
    Prog.play_ret, answer]
  rfl

theorem play_encSignEachCalls (lib : Lib) (funding : Funding) (tx : BTCSlashingTx) (fundingTx : MsgTx)
    (outputIdx : UInt32) (scriptPath : Bytes) (privKey : PrivateKey) (fpBtcPks : List PublicKey) :
    ((encSignEachCalls lib funding tx fundingTx outputIdx scriptPath privKey fpBtcPks).play
        (answer lib)).2 =
      encSignEach lib tx fundingTx outputIdx scriptPath privKey fpBtcPks := by
  induction fpBtcPks with
  | nil => rfl
  | cons fpPk fpBtcPks ih =>
    rw [encSignEach] at ih ⊢
    rw [List.mapM_cons, ← ih]
    simp only [encSignEachCalls, Prog.bind_eq, Prog.play_bind_snd, Prog.play_ofExcept, Prog.ask,
      Prog.call_bind, Prog.ret_bind, Prog.play_call, Prog.pure_eq, Prog.play_ret, answer,
      bind_assoc, pure_bind]
    rfl

theorem play_signCheckedCalls (lib : Lib) (ce : CovenantEmulator) (params : StakingParams)
    (btcDel : Delegation) (undelegation : Undelegation) (c : Checked) :
    ((signCheckedCalls lib ce params btcDel undelegation c).play (answer lib)).2 =
      signChecked lib ce params btcDel undelegation c := by
  simp only [signCheckedCalls, signChecked, Prog.bind_eq, Prog.play_bind_snd, Prog.play_ofExcept,
    play_encSignEachCalls, Prog.ask, Prog.call_bind, Prog.ret_bind, Prog.play_call, Prog.pure_eq,
    Prog.play_ret, answer]
  rfl

/-- **Agreement.** Answered by the library, the program computes what the iteration does. -/
theorem play_signDelegationCalls (lib : Lib) (ce : CovenantEmulator) (btcDel : Option Delegation) :
    ((signDelegationCalls lib ce btcDel).play (answer lib)).2 = signDelegation lib ce btcDel := by
  cases btcDel with
  | none => rfl
  | some d =>
    cases hud : d.btcUndelegation with
    | none => simp [signDelegationCalls, signDelegation, hud]
    | some ud =>
      simp only [signDelegationCalls, signDelegation, hud, Prog.bind_eq, Prog.play_bind_snd,
        Prog.play_ofExcept]
      congr 1
      funext params
      congr 1
      funext quorum
      cases quorum with
      | true => rfl
      | false =>
        simp only [Prog.play_bind_snd, play_checkDelegationCalls, play_signCheckedCalls]
        rfl

theorem steps_libCalls {lib : Lib} {ce : CovenantEmulator} {btcDel : Option Delegation}
    {sigs : CovenantSigs} (h : signDelegation lib ce btcDel = .ok (some sigs)) :
    ∃ t, libCalls lib ce btcDel = t.map (·.call) ∧
      Prog.Steps (signDelegationCalls lib ce btcDel) t (.ret (some sigs)) := by
  have hs := Prog.steps_play (answer lib) (signDelegationCalls lib ce btcDel)
  rw [play_signDelegationCalls, h] at hs
  exact ⟨_, rfl, hs⟩

/-! ## Output indices and lock times -/

/-- The output index of a call that spends the staking transaction. -/
def stakingOutputOf : LibCall → Option UInt32
  | .checkTransactions .stakingTx _ _ idx _ _ _ _ _ _ => some idx
  | .encSign .stakingTx _ _ idx _ _ _ => some idx
  | .signTxWithOneScriptSpendInputStrict .stakingTx _ _ idx _ _ => some idx
  | _ => none

/-- The lock time of a call that checks a slashing change or builds the unbonding output. -/
def lockTimeOf : LibCall → Option UInt16
  | .checkTransactions _ _ _ _ _ _ _ _ lock _ => some lock
  | .buildUnbondingInfo _ _ _ _ time _ _ => some time
  | _ => none

/-- The output index that a call spends and the lock time it gives are the delegation's. -/
structure TakenFrom (btcDel : Delegation) (c : LibCall) : Prop where
  stakingOutput : ∀ idx, stakingOutputOf c = some idx → idx = btcDel.stakingOutputIdx
  lockTime : ∀ lock, lockTimeOf c = some lock → lock = btcDel.unbondingTime.toUInt16

theorem takenFrom_checkDelegationCalls (lib : Lib) (net : NetParams) (params : StakingParams)
    (btcDel : Delegation) (undelegation : Undelegation) :
    Prog.AllCalls (TakenFrom btcDel)
      (checkDelegationCalls lib net params btcDel undelegation) := by
  unfold checkDelegationCalls
  refine .bind (.ofExcept _) fun _ => .bind (.ofExcept _) fun _ => .bind (.ofExcept _) fun _ =>
    .bind (.ofExcept _) fun _ => .bind (.ask ?_) fun _ => .bind (.ofExcept _) fun _ =>
    .bind (.ofExcept _) fun _ => .bind (.ofExcept _) fun _ => .bind (.ofExcept _) fun _ =>
    .bind (.ask ?_) fun _ => .bind (.ofExcept _) fun _ => .bind (.ask ?_) fun _ =>
    .bind (.ofExcept _) fun _ => .ret _
  · exact ⟨fun _ h => (Option.some.inj h).symm, fun _ h => (Option.some.inj h).symm⟩
  · exact ⟨nofun, fun _ h => (Option.some.inj h).symm⟩
  · exact ⟨nofun, fun _ h => (Option.some.inj h).symm⟩

theorem allCalls_encSignEachCalls {P : LibCall → Prop} (lib : Lib) {funding : Funding}
    {tx : BTCSlashingTx} {fundingTx : MsgTx} {outputIdx : UInt32} {scriptPath : Bytes}
    {privKey : PrivateKey}
    (h : ∀ encKey, P (.encSign funding tx fundingTx outputIdx scriptPath privKey encKey))
    (fpBtcPks : List PublicKey) : Prog.AllCalls P
      (encSignEachCalls lib funding tx fundingTx outputIdx scriptPath privKey fpBtcPks) := by
  induction fpBtcPks with
  | nil => exact .ret _
  | cons fpPk fpBtcPks ih =>
    exact .bind (.ofExcept _) fun encKey => .bind (.ask (h encKey)) fun _ =>
      .bind (.ofExcept _) fun _ => .bind ih fun _ => .ret _

/-- The signing steps give no lock time. -/
theorem takenFrom_signCheckedCalls (lib : Lib) (ce : CovenantEmulator) (params : StakingParams)
    (btcDel : Delegation) (undelegation : Undelegation) (c : Checked) :
    Prog.AllCalls (fun call => TakenFrom btcDel call ∧ lockTimeOf call = none)
      (signCheckedCalls lib ce params btcDel undelegation c) := by
  unfold signCheckedCalls
  refine .bind (.ofExcept _) fun _ => .bind (.ofExcept _) fun _ => .bind (.ofExcept _) fun _ =>
    .bind (.ofExcept _) fun _ => .bind (allCalls_encSignEachCalls lib ?_ _) fun _ =>
    .bind (.ofExcept _) fun _ => .bind (.ask ?_) fun _ => .bind (.ofExcept _) fun _ =>
    .bind (.ofExcept _) fun _ => .bind (.ofExcept _) fun _ =>
    .bind (allCalls_encSignEachCalls lib ?_ _) fun _ => .ret _
  · intro encKey
    exact ⟨⟨fun _ h => (Option.some.inj h).symm, nofun⟩, rfl⟩
  · exact ⟨⟨fun _ h => (Option.some.inj h).symm, nofun⟩, rfl⟩
  · intro encKey
    exact ⟨⟨nofun, nofun⟩, rfl⟩

theorem takenFrom_libCalls (lib : Lib) (ce : CovenantEmulator) (btcDel : Delegation) :
    ∀ c ∈ libCalls lib ce (some btcDel), TakenFrom btcDel c := by
  have h : Prog.AllCalls (TakenFrom btcDel) (signDelegationCalls lib ce (some btcDel)) := by
    cases hud : btcDel.btcUndelegation with
    | none =>
      simp only [signDelegationCalls, hud]
      exact .halt _
    | some ud =>
      simp only [signDelegationCalls, hud]
      refine .bind (.ofExcept _) fun params => .bind (.ofExcept _) fun quorum => ?_
      cases quorum with
      | true => exact .ret _
      | false =>
        exact .bind (takenFrom_checkDelegationCalls lib _ params btcDel ud) fun c =>
          .bind ((takenFrom_signCheckedCalls lib ce params btcDel ud c).imp fun _ h => h.1)
            fun _ => .ret _
  intro c hc
  obtain ⟨e, he, rfl⟩ := List.mem_map.mp hc
  exact h.steps (Prog.steps_play (answer lib) _) e he

/-- The two checks and the unbonding output get a lock time. -/
theorem lockTimes_checkDelegationCalls {lib : Lib} {net : NetParams} {params : StakingParams}
    {btcDel : Delegation} {undelegation : Undelegation} {t : Trace libInterface} {c : Checked}
    (h : Prog.Steps (checkDelegationCalls lib net params btcDel undelegation) t (.ret c)) :
    t.filterMap (fun e => lockTimeOf e.call) = List.replicate 3 btcDel.unbondingTime.toUInt16 := by
  obtain ⟨_, _, h⟩ := Prog.steps_ofExcept_ret h
  obtain ⟨_, _, h⟩ := Prog.steps_ofExcept_ret h
  obtain ⟨_, _, h⟩ := Prog.steps_ofExcept_ret h
  obtain ⟨_, _, h⟩ := Prog.steps_ofExcept_ret h
  obtain ⟨_, u, rfl, h₁⟩ := Prog.steps_ask_ret h
  obtain ⟨_, _, h₁⟩ := Prog.steps_ofExcept_ret h₁
  obtain ⟨_, _, h₁⟩ := Prog.steps_ofExcept_ret h₁
  obtain ⟨_, _, h₁⟩ := Prog.steps_ofExcept_ret h₁
  obtain ⟨_, _, h₁⟩ := Prog.steps_ofExcept_ret h₁
  obtain ⟨_, v, rfl, h₂⟩ := Prog.steps_ask_ret h₁
  obtain ⟨_, _, h₂⟩ := Prog.steps_ofExcept_ret h₂
  obtain ⟨_, w, rfl, h₃⟩ := Prog.steps_ask_ret h₂
  obtain ⟨_, _, h₃⟩ := Prog.steps_ofExcept_ret h₃
  obtain ⟨rfl, _⟩ := Prog.steps_ret h₃
  rfl

theorem lockTimes_signCheckedCalls {lib : Lib} {ce : CovenantEmulator} {params : StakingParams}
    {btcDel : Delegation} {undelegation : Undelegation} {c : Checked} {t : Trace libInterface}
    {q : Signer CovenantSigs}
    (h : Prog.Steps (signCheckedCalls lib ce params btcDel undelegation c) t q) :
    t.filterMap (fun e => lockTimeOf e.call) = [] := by
  rw [List.filterMap_eq_nil_iff]
  intro e he
  exact ((takenFrom_signCheckedCalls lib ce params btcDel undelegation c).steps h e he).2

theorem lockTimes_of_passes {lib : Lib} {ce : CovenantEmulator} {btcDel : Delegation}
    (h : Passes lib ce (some btcDel)) :
    (libCalls lib ce (some btcDel)).filterMap lockTimeOf =
      List.replicate 3 btcDel.unbondingTime.toUInt16 := by
  obtain ⟨sigs, hs⟩ := (passes_iff lib ce _).mp h
  obtain ⟨t, ht, hrun⟩ := steps_libCalls hs
  rw [ht, List.filterMap_map]
  cases hud : btcDel.btcUndelegation with
  | none => simp [signDelegation, hud] at hs
  | some ud =>
    simp only [signDelegationCalls, hud] at hrun
    obtain ⟨params, _, hrun⟩ := Prog.steps_ofExcept_ret hrun
    obtain ⟨quorum, _, hrun⟩ := Prog.steps_ofExcept_ret hrun
    cases quorum with
    | true =>
      obtain ⟨_, hq⟩ := Prog.steps_ret hrun
      cases hq
    | false =>
      obtain ⟨c, u, v, rfl, hu, hv⟩ := Prog.steps_bind_ret hrun
      obtain ⟨_, v, w, rfl, hsign, hw⟩ := Prog.steps_bind_ret hv
      obtain ⟨rfl, _⟩ := Prog.steps_ret hw
      have happ : (u ++ v).filterMap (fun e => lockTimeOf e.call) = _ := List.filterMap_append
      rw [lockTimes_signCheckedCalls hsign, lockTimes_checkDelegationCalls hu, List.append_nil] at happ
      rw [List.append_nil]
      exact happ

end Covenant.Calls
