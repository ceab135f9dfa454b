import Covenant.Committee
import Covenant.Gate

/-! What a submission says. A batch that passes is sent in one call as one message for each
delegation, and `Content` describes a message by what its signatures are over: the
transactions that were checked, the outputs they spend, and the script paths. -/

namespace Covenant.Messages
open Outcome Lists Interaction Bitcoin Covenant.Types Emulator Signing Loop Controller Member Gate
  Reference Committee

/-! ## The content of a message -/

/-- One adaptor signature for each finality provider, in order, over `tx` spending output
`idx` of `fundingTx` by the script path `path`. -/
def AdaptorSigs (lib : Lib) (tx : BTCSlashingTx) (fundingTx : MsgTx) (idx : UInt32) (path : SpendInfo)
    (privKey : PrivateKey) (fpBtcPks : List PublicKey) (sigs : List Bytes) : Prop :=
  List.Forall₂ (fun fpPk bytes => ∃ encKey sig, lib.newEncryptionKeyFromBTCPK fpPk = .ok encKey ∧
    lib.encSign tx fundingTx idx path.getPkScriptPath privKey encKey = .ok sig ∧
    bytes = lib.mustMarshal sig) fpBtcPks sigs

theorem adaptorSigs_of_encSignEach {lib : Lib} {tx : BTCSlashingTx} {fundingTx : MsgTx}
    {idx : UInt32} {path : SpendInfo} {privKey : PrivateKey} {fpBtcPks : List PublicKey}
    {sigs : List Bytes}
    (h : encSignEach lib tx fundingTx idx path.getPkScriptPath privKey fpBtcPks = .ok sigs) :
    AdaptorSigs lib tx fundingTx idx path privKey fpBtcPks sigs := by
  rw [encSignEach, mapM_eq_ok_iff] at h
  apply h.imp
  intro fpPk bytes hs
  obtain ⟨encKey, hkey, hs⟩ := bind_eq_ok_iff.mp hs
  obtain ⟨sig, hsig, hs⟩ := bind_eq_ok_iff.mp hs
  exact ⟨encKey, sig, orReturn_eq_ok.mp hkey, orReturn_eq_ok.mp hsig, (Except.ok.inj hs).symm⟩

/-- `m` is the message for `d`. The transactions, scripts and paths are the library's, the
signatures are over these transactions, and each slashing transaction that is signed
is the one that `CheckTransactions` accepted. -/
structure Content (lib : Lib) (ce : CovenantEmulator) (d : Delegation) (m : MsgAddCovenantSigs) where
  params : StakingParams
  undelegation : Undelegation
  privKey : PrivateKey
  stakingTx : MsgTx
  unbondingTx : MsgTx
  slashingTx : BTCSlashingTx
  unbondingSlashingTx : BTCSlashingTx
  stakingTime : UInt16
  stakingInfo : StakingInfo
  unbondingInfo : UnbondingInfo
  slashingPath : SpendInfo
  unbondingPath : SpendInfo
  unbondingSlashingPath : SpendInfo
  params_eq : ce.params = some params
  undelegation_eq : d.btcUndelegation = some undelegation
  privKey_eq : ce.getPrivKey lib = .ok privKey
  stakingTx_parses : lib.newBTCTxFromHex d.stakingTxHex = .ok stakingTx
  unbondingTx_parses : lib.newBTCTxFromHex undelegation.unbondingTxHex = .ok unbondingTx
  slashingTx_parses : lib.newBTCSlashingTxFromHex d.slashingTxHex = .ok slashingTx
  unbondingSlashingTx_parses :
    lib.newBTCSlashingTxFromHex undelegation.slashingTxHex = .ok unbondingSlashingTx
  stakingTime_eq : d.getStakingTime = .ok stakingTime
  stakingInfo_built : lib.buildStakingInfo d.btcPk d.fpBtcPks params.covenantPks
    params.covenantQuorum stakingTime d.totalSat.toInt64 ce.config.btcNetParams = .ok stakingInfo
  unbondingInfo_built : ∃ out, unbondingTx.txOut[0]? = some out ∧
    lib.buildUnbondingInfo d.btcPk d.fpBtcPks params.covenantPks params.covenantQuorum
      d.unbondingTime.toUInt16 out.value ce.config.btcNetParams = .ok unbondingInfo
  slashingPath_eq : lib.stakingSlashingPathSpendInfo stakingInfo = .ok slashingPath
  unbondingPath_eq : lib.stakingUnbondingPathSpendInfo stakingInfo = .ok unbondingPath
  unbondingSlashingPath_eq :
    lib.unbondingSlashingPathSpendInfo unbondingInfo = .ok unbondingSlashingPath
  pk : m.pk = ce.pk.x
  stakingTxHash : m.stakingTxHash = lib.hashString (lib.txHash stakingTx)
  slashingTxSigs : AdaptorSigs lib slashingTx stakingTx d.stakingOutputIdx slashingPath privKey
    d.fpBtcPks m.slashingTxSigs
  unbondingTxSig : ∃ sig, lib.signTxWithOneScriptSpendInputStrict unbondingTx stakingTx
      d.stakingOutputIdx unbondingPath.getPkScriptPath privKey = .ok sig ∧
    m.unbondingTxSig = lib.newBIP340SignatureFromBTCSig sig
  slashingUnbondingTxSigs : AdaptorSigs lib unbondingSlashingTx unbondingTx 0 unbondingSlashingPath
    privKey d.fpBtcPks m.slashingUnbondingTxSigs
  slashingTx_checked : ∃ tx, lib.toMsgTx slashingTx = .ok tx ∧
    lib.checkTransactions tx stakingTx d.stakingOutputIdx params.minSlashingTxFeeSat
      params.slashingRate params.slashingAddress d.btcPk d.unbondingTime.toUInt16
      ce.config.btcNetParams = .ok ()
  unbondingSlashingTx_checked : ∃ tx, lib.toMsgTx unbondingSlashingTx = .ok tx ∧
    lib.checkTransactions tx unbondingTx 0 params.minSlashingTxFeeSat params.slashingRate
      params.slashingAddress d.btcPk d.unbondingTime.toUInt16 ce.config.btcNetParams = .ok ()

/-- The message that `signer` sends for the collected signatures. -/
def messageOf (lib : Lib) (signer : String) (covSig : CovenantSigs) : MsgAddCovenantSigs where
  signer := signer
  pk := lib.newBIP340PubKeyFromBTCPK covSig.publicKey
  stakingTxHash := lib.hashString covSig.stakingTxHash
  slashingTxSigs := covSig.slashingSigs
  unbondingTxSig := lib.newBIP340SignatureFromBTCSig covSig.unbondingSig
  slashingUnbondingTxSigs := covSig.slashingUnbondingSigs

theorem msgAddCovenantSigs_eq_ok_iff {lib : Lib} {bc : BabylonController} {covSig : CovenantSigs}
    {m : MsgAddCovenantSigs} :
    msgAddCovenantSigs lib bc covSig = .ok m ↔
      ∃ signer, bc.mustGetTxSigner = .ok signer ∧ m = messageOf lib signer covSig := by
  simp only [msgAddCovenantSigs, bind_eq_ok_iff, pure, Except.pure, Except.ok.injEq]
  constructor
  · rintro ⟨signer, hs, rfl⟩
    exact ⟨signer, hs, rfl⟩
  · rintro ⟨signer, hs, rfl⟩
    exact ⟨signer, hs, rfl⟩

/-- The second decoding of the unbonding slashing transaction gives what was checked. -/
def Content.ofAccepted {lib : Lib} (henc : lib.KeyEncoding) (hdec : lib.DecodersAgree)
    {ce : CovenantEmulator} {btcDel : Option Delegation} (a : Accepted lib ce btcDel)
    (signer : String) : Content lib ce a.del (messageOf lib signer a.sigs) :=
  { params := a.params
    undelegation := a.undelegation
    privKey := a.signed.covenantPrivKey
    stakingTx := a.checked.stakingMsgTx
    unbondingTx := a.checked.unbondingMsgTx
    slashingTx := a.checked.slashingTx
    unbondingSlashingTx := a.signed.slashUnbondingTx
    stakingTime := a.signed.stakingTime
    stakingInfo := a.signed.stakingInfo
    unbondingInfo := a.checked.unbondingInfo
    slashingPath := a.signed.slashingPathInfo
    unbondingPath := a.signed.stakingTxUnbondingPathInfo
    unbondingSlashingPath := a.signed.unbondingTxSlashingPath
    params_eq := a.params_eq
    undelegation_eq := a.undelegation_eq
    privKey_eq := a.signing.privKey
    stakingTx_parses := a.checks.staking_parses
    unbondingTx_parses := a.checks.unbonding_parses
    slashingTx_parses := a.checks.slashing_parses
    unbondingSlashingTx_parses := a.signing.slashUnbonding_parses
    stakingTime_eq := a.signing.stakingTime_eq
    stakingInfo_built := a.signing.stakingInfo_built
    unbondingInfo_built := a.checks.unbondingInfo_built
    slashingPath_eq := a.signing.slashingPath
    unbondingPath_eq := a.signing.unbondingPath
    unbondingSlashingPath_eq := a.signing.unbondingSlashingPath
    pk := henc.newBIP340PubKey_eq ce.pk
    stakingTxHash := rfl
    slashingTxSigs := adaptorSigs_of_encSignEach a.signing.slashing_signed
    unbondingTxSig := ⟨_, a.signing.unbonding_signed, rfl⟩
    slashingUnbondingTxSigs := adaptorSigs_of_encSignEach a.signing.unbondingSlashing_signed
    slashingTx_checked := ⟨_, a.checks.slashing_decodes, a.checks.slashing_checked⟩
    unbondingSlashingTx_checked :=
      ⟨_, hdec _ _ _ a.signing.slashUnbonding_parses a.checks.unbondingSlashing_parses,
        a.checks.unbondingSlashing_checked⟩ }

/-! ## One submission -/

/-- Over the Babylon client a batch that gets through the loop is sent once. -/
theorem sends_addCovenantSignatures {lib : Lib} {ce : CovenantEmulator} {bc : BabylonController}
    {btcDels : List (Option Delegation)} {l : List CovenantSigs} {msgs : List MsgAddCovenantSigs}
    (hl : collectBatch lib ce btcDels = .ok (some l))
    (hmsgs : l.mapM (msgAddCovenantSigs lib bc) = .ok msgs) (ans : (c : RpcCall) → c.Answer) :
    sends (((addCovenantSignatures lib ce btcDels).interp (babylonController lib bc)).play ans).1 =
      [msgs] := by
  have hprog : addCovenantSignatures lib ce btcDels =
      .call (.enter ce.params btcDels) fun _ =>
        .call (.submitCovenantSigs l) fun res => .ret (res.map some) := by
    simp only [addCovenantSignatures, hl]
    rfl
  rw [hprog]
  simp only [Prog.interp, babylonController, submitCovenantSigs, hmsgs, Prog.ask, Prog.call_bind,
    Prog.ret_bind, Prog.bind_eq, Prog.ofExcept, Prog.play_call]
  cases ans (.reliablySendMsgs msgs) <;> rfl

theorem exists_msgs {lib : Lib} {bc : BabylonController} {signer : String}
    (hsigner : bc.mustGetTxSigner = .ok signer) (l : List CovenantSigs) :
    ∃ msgs, l.mapM (msgAddCovenantSigs lib bc) = .ok msgs := by
  simp only [mapM_eq_ok_iff]
  apply exists_forall₂
  intro s _
  exact ⟨_, msgAddCovenantSigs_eq_ok_iff.mpr ⟨signer, hsigner, rfl⟩⟩

/-- **Submitted content.** A batch whose delegations all pass is submitted by one call, and
the messages built from it are one for each delegation, in order, each with the
content that belongs to it. -/
theorem submitted_content (lib : Lib) (henc : lib.KeyEncoding) (hdec : lib.DecodersAgree)
    (ce : CovenantEmulator) (btcDels : List (Option Delegation)) (hne : btcDels ≠ [])
    (hpass : ∀ d ∈ btcDels, Passes lib ce d) :
    ∃ l, (∀ ans, submissions ((addCovenantSignatures lib ce btcDels).play ans).1 = [l]) ∧
      ∀ bc : BabylonController,
        (∀ signer, bc.mustGetTxSigner = .ok signer →
          ∃ msgs, l.mapM (msgAddCovenantSigs lib bc) = .ok msgs) ∧
        ∀ msgs, l.mapM (msgAddCovenantSigs lib bc) = .ok msgs →
          (∀ ans, sends (((addCovenantSignatures lib ce btcDels).interp
            (babylonController lib bc)).play ans).1 = [msgs]) ∧
          List.Forall₂ (fun btcDel m => ∃ d, btcDel = some d ∧ Nonempty (Content lib ce d m))
            btcDels msgs := by
  obtain ⟨l, hl⟩ := (collectBatch_succeeds_iff lib ce btcDels).mpr ⟨hne, hpass⟩
  have hsigned := ((collectBatch_eq_some_iff lib ce btcDels l).mp hl).2
  refine ⟨l, ?_, ?_⟩
  · intro ans
    rw [submissions_play, hl]
  · intro bc
    refine ⟨fun signer hsigner => exists_msgs hsigner l, ?_⟩
    intro msgs hmsgs
    refine ⟨sends_addCovenantSignatures hl hmsgs, ?_⟩
    have hall := forall₂_trans hsigned (mapM_eq_ok_iff.mp hmsgs)
    apply hall.imp
    rintro btcDel m ⟨s, hs, hm⟩
    obtain ⟨a, rfl⟩ := (signDelegation_eq_some_iff lib ce btcDel s).mp hs
    obtain ⟨signer, _, rfl⟩ := msgAddCovenantSigs_eq_ok_iff.mp hm
    exact ⟨a.del, a.del_eq, ⟨Content.ofAccepted henc hdec a signer⟩⟩

/-- The same two finality providers in either order. -/
def providersDelegation (b : Bool) : Delegation :=
  delegationWith (if b then [key 8, key 10] else [key 10, key 8]) unbondingTx unbondingSlashingTx

theorem submitted_content_sample :
    ∃ l, (∀ ans, submissions ((addCovenantSignatures sampleLib sampleEmulator
        [some (providersDelegation true), some (providersDelegation false)]).play ans).1 = [l]) ∧
      ∀ bc : BabylonController,
        (∀ signer, bc.mustGetTxSigner = .ok signer →
          ∃ msgs, l.mapM (msgAddCovenantSigs sampleLib bc) = .ok msgs) ∧
        ∀ msgs, l.mapM (msgAddCovenantSigs sampleLib bc) = .ok msgs →
          (∀ ans, sends (((addCovenantSignatures sampleLib sampleEmulator
            [some (providersDelegation true), some (providersDelegation false)]).interp
              (babylonController sampleLib bc)).play ans).1 = [msgs]) ∧
          List.Forall₂ (fun btcDel m =>
              ∃ d, btcDel = some d ∧ Nonempty (Content sampleLib sampleEmulator d m))
            [some (providersDelegation true), some (providersDelegation false)] msgs := by
  have hpass : ∀ b, Passes sampleLib sampleEmulator (some (providersDelegation b)) := fun b =>
    ⟨acceptedWith (key 1) sampleParams _ _ _ likeSample honestPair⟩
  apply submitted_content sampleLib sampleLib_keyEncoding sampleLib_decodersAgree sampleEmulator
  · exact List.cons_ne_nil _ _
  · simp only [List.mem_cons, List.not_mem_nil, or_false, forall_eq_or_imp, forall_eq]
    exact ⟨hpass true, hpass false⟩

end Covenant.Messages
