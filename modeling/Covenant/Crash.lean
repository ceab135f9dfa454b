import Covenant.Gate

/-! When `AddCovenantSignatures` panics. A batch is safe unless the loop gets to a
delegation with one of three defects (`Crashes`): an unbonding transaction without
outputs, which is indexed before it is checked, a staking time that does not fit into
sixteen bits, which nothing checks, or a keyring record that holds no local key. -/

namespace Covenant.Crash
open Outcome Interaction Bitcoin Covenant.Types Emulator Signing Loop Reference Gate

/-! ## One delegation -/

/-- Steps 2 and 3 pass and the undelegation's transactions decode, the unbonding
transaction to `unbondingTx`. -/
structure ReachesUnbonding (lib : Lib) (net : NetParams) (params : StakingParams)
    (btcDel : Delegation) (undelegation : Undelegation) (unbondingTx : MsgTx) : Prop where
  unbondingTime_gt : params.minUnbondingTime < btcDel.unbondingTime
  slashing_checked : ∃ stakingTx slashingTx slashingMsgTx,
    lib.newBTCTxFromHex btcDel.stakingTxHex = .ok stakingTx ∧
    lib.newBTCSlashingTxFromHex btcDel.slashingTxHex = .ok slashingTx ∧
    lib.toMsgTx slashingTx = .ok slashingMsgTx ∧
    lib.checkTransactions slashingMsgTx stakingTx btcDel.stakingOutputIdx
      params.minSlashingTxFeeSat params.slashingRate params.slashingAddress btcDel.btcPk
      btcDel.unbondingTime.toUInt16 net = .ok ()
  unbondingSlashing_parses : ∃ tx, lib.newBTCTxFromHex undelegation.slashingTxHex = .ok tx
  unbonding_parses : lib.newBTCTxFromHex undelegation.unbondingTxHex = .ok unbondingTx

/-- The checks panic exactly at the first output of the unbonding transaction. -/
theorem checkDelegation_eq_panic_iff (lib : Lib) (net : NetParams) (params : StakingParams)
    (btcDel : Delegation) (undelegation : Undelegation) (msg : String) :
    checkDelegation lib net params btcDel undelegation = .error (.panic msg) ↔
      msg = "index out of range" ∧ ∃ unbondingTx,
        ReachesUnbonding lib net params btcDel undelegation unbondingTx ∧
          unbondingTx.txOut = [] := by
  simp only [checkDelegation, bind_eq_error_iff, rejectIf_ne_panic, orReturn_ne_panic,
    orWrap_ne_panic, index_eq_panic, rejectIf_eq_ok, orReturn_eq_ok, orWrap_eq_ok, false_or, pure,
    Except.pure, reduceCtorEq, and_false, exists_false, or_false]
  constructor
  · rintro ⟨_, ht, tx, h1, stx, h2, smsg, h3, _, h4, ustx, h5, utx, h6, hnone, rfl⟩
    have hout : utx.txOut = [] := by
      rw [List.getElem?_eq_none_iff] at hnone
      exact List.length_eq_zero_iff.mp (Nat.le_zero.mp hnone)
    exact ⟨rfl, utx, ⟨UInt32.not_le.mp ht, ⟨tx, stx, smsg, h1, h2, h3, h4⟩, ⟨ustx, h5⟩, h6⟩, hout⟩
  · rintro ⟨rfl, utx, ⟨ht, ⟨tx, stx, smsg, h1, h2, h3, h4⟩, ⟨ustx, h5⟩, h6⟩, hout⟩
    exact ⟨(), UInt32.not_le.mpr ht, tx, h1, stx, h2, smsg, h3, (), h4, ustx, h5, utx, h6,
      by rw [hout]; rfl, rfl⟩

theorem encSignEach_ne_panic (lib : Lib) (tx : BTCSlashingTx) (fundingTx : MsgTx) (idx : UInt32)
    (path : Bytes) (privKey : PrivateKey) (fps : List PublicKey) (msg : String) :
    encSignEach lib tx fundingTx idx path privKey fps ≠ .error (.panic msg) := by
  apply mapM_ne_panic
  intro fp msg h
  simp [bind_eq_error_iff, pure, Except.pure] at h

theorem getStakingTime_eq_panic_iff (d : Delegation) (msg : String) :
    d.getStakingTime = .error (.panic msg) ↔
      65535 < d.endHeight - d.startHeight ∧ msg = "invalid delegation in database" := by
  unfold Delegation.getStakingTime
  by_cases h : d.endHeight - d.startHeight > 65535
  · simp [h, eq_comm]
  · simp [h]

/-- The signing steps panic exactly at the private key or the staking time. -/
theorem signChecked_eq_panic_iff (lib : Lib) (ce : CovenantEmulator) (params : StakingParams)
    (btcDel : Delegation) (undelegation : Undelegation) (c : Checked) (msg : String) :
    signChecked lib ce params btcDel undelegation c = .error (.panic msg) ↔
      ce.getPrivKey lib = .error (.panic msg) ∨
        (∃ privKey, ce.getPrivKey lib = .ok privKey) ∧
          65535 < btcDel.endHeight - btcDel.startHeight ∧
          msg = "invalid delegation in database" := by
  simp only [signChecked, bind_eq_error_iff, orReturn_ne_panic, orWrap_ne_panic,
    encSignEach_ne_panic, wrapError_eq_panic, wrapError_eq_ok, getStakingTime_eq_panic_iff, pure,
    Except.pure, reduceCtorEq, and_false, exists_false, or_false, exists_and_right]

/-- A delegation at which the loop panics, under the parameters `params`. -/
inductive Crashes (lib : Lib) (ce : CovenantEmulator) (params : StakingParams) (d : Delegation) : Prop
  | noOutput {ud : Undelegation} {unbondingTx : MsgTx} : d.btcUndelegation = some ud →
      d.hasCovenantQuorum params.covenantQuorum = .ok false →
      ReachesUnbonding lib ce.config.btcNetParams params d ud unbondingTx →
      unbondingTx.txOut = [] → Crashes lib ce params d
  | noLocalKey {ud : Undelegation} {c : Checked} {msg : String} : d.btcUndelegation = some ud →
      d.hasCovenantQuorum params.covenantQuorum = .ok false →
      ChecksPass lib ce.config.btcNetParams params d ud c →
      ce.getPrivKey lib = .error (.panic msg) → Crashes lib ce params d
  | stakingTime {ud : Undelegation} {c : Checked} {privKey : PrivateKey} :
      d.btcUndelegation = some ud → d.hasCovenantQuorum params.covenantQuorum = .ok false →
      ChecksPass lib ce.config.btcNetParams params d ud c → ce.getPrivKey lib = .ok privKey →
      65535 < d.endHeight - d.startHeight → Crashes lib ce params d

section
variable {lib : Lib} {ce : CovenantEmulator} {params : StakingParams} {d : Delegation}
  {ud : Undelegation} (hparams : ce.params = some params) (hud : d.btcUndelegation = some ud)
  (hq : d.hasCovenantQuorum params.covenantQuorum = .ok false)
include hparams hud hq

theorem signDelegation_of_noQuorum : signDelegation lib ce (some d) =
    (checkDelegation lib ce.config.btcNetParams params d ud >>= fun c =>
      signChecked lib ce params d ud c >>= fun sigs => pure (some sigs)) := by
  simp only [signDelegation, hud, hparams, deref, hq, bind, Except.bind]

theorem signDelegation_of_signChecked {c : Checked} {e : Exit}
    (hchecks : ChecksPass lib ce.config.btcNetParams params d ud c)
    (hs : signChecked lib ce params d ud c = .error e) :
    signDelegation lib ce (some d) = .error e := by
  have hc := (checkDelegation_eq_ok_iff ..).mpr hchecks
  rw [signDelegation_of_noQuorum hparams hud hq]
  exact bind_eq_error_iff.mpr (Or.inr ⟨c, hc, bind_eq_error_iff.mpr (Or.inl hs)⟩)

/-- A panic comes from the checks or, when they pass, from the signing steps. -/
theorem crashes_of_panic {msg : String} (h : signDelegation lib ce (some d) = .error (.panic msg)) :
    Crashes lib ce params d := by
  rw [signDelegation_of_noQuorum hparams hud hq] at h
  rcases bind_eq_error_iff.mp h with h | ⟨c, hc, h⟩
  · obtain ⟨_, tx, htx, hout⟩ := (checkDelegation_eq_panic_iff ..).mp h
    exact .noOutput hud hq htx hout
  · have hchecks := (checkDelegation_eq_ok_iff ..).mp hc
    rcases bind_eq_error_iff.mp h with h | ⟨sigs, _, h⟩
    · rcases (signChecked_eq_panic_iff ..).mp h with hkey | ⟨⟨privKey, hkey⟩, hlong, _⟩
      · exact .noLocalKey hud hq hchecks hkey
      · exact .stakingTime hud hq hchecks hkey hlong
    · cases h

end

theorem signDelegation_panics_iff {lib : Lib} {ce : CovenantEmulator} {params : StakingParams}
    (hparams : ce.params = some params) (d : Delegation) :
    (∃ msg, signDelegation lib ce (some d) = .error (.panic msg)) ↔ Crashes lib ce params d := by
  constructor
  · rintro ⟨msg, h⟩
    cases hud : d.btcUndelegation with
    | none => simp [signDelegation, hud] at h
    | some ud =>
      obtain ⟨quorum, hq⟩ : ∃ b, d.hasCovenantQuorum params.covenantQuorum = .ok b :=
        ⟨_, Delegation.hasCovenantQuorum_eq hud _⟩
      cases quorum with
      | true =>
        simp [signDelegation, hud, hparams, deref, hq, bind, Except.bind, pure, Except.pure] at h
      | false => exact crashes_of_panic hparams hud hq h
  · intro h
    cases h with
    | noOutput hud hq htx hout =>
      have hc := (checkDelegation_eq_panic_iff ..).mpr ⟨rfl, _, htx, hout⟩
      rw [signDelegation_of_noQuorum hparams hud hq, hc]
      exact ⟨_, rfl⟩
    | @noLocalKey _ _ msg hud hq hchecks hkey =>
      refine ⟨msg, signDelegation_of_signChecked hparams hud hq hchecks ?_⟩
      exact (signChecked_eq_panic_iff ..).mpr (Or.inl hkey)
    | stakingTime hud hq hchecks hkey hlong =>
      refine ⟨"invalid delegation in database",
        signDelegation_of_signChecked hparams hud hq hchecks ?_⟩
      exact (signChecked_eq_panic_iff ..).mpr (Or.inr ⟨⟨_, hkey⟩, hlong, rfl⟩)

/-! ## A batch -/

/-- The loop panics at the first delegation that does, if all before it pass. -/
theorem collectSigs_panics_iff (lib : Lib) (ce : CovenantEmulator) (acc : List CovenantSigs)
    (btcDels : List (Option Delegation)) :
    (∃ msg, collectSigs lib ce acc btcDels = .error (.panic msg)) ↔
      ∃ pre d post, btcDels = pre ++ d :: post ∧ (∀ x ∈ pre, Passes lib ce x) ∧
        ∃ msg, signDelegation lib ce d = .error (.panic msg) := by
  induction btcDels generalizing acc with
  | nil =>
    constructor
    · rintro ⟨msg, h⟩
      cases h
    · rintro ⟨pre, d, post, h, _⟩
      cases pre <;> cases h
  | cons d ds ih =>
    rw [collectSigs_cons]
    constructor
    · rintro ⟨msg, h⟩
      rcases hd : signDelegation lib ce d with e | _ | sigs
      · rw [hd] at h
        cases h
        exact ⟨[], d, ds, rfl, by simp, msg, hd⟩
      · rw [hd] at h
        cases h
      · rw [hd] at h
        obtain ⟨pre, d', post, rfl, hpre, hpanic⟩ := (ih _).mp ⟨msg, h⟩
        refine ⟨d :: pre, d', post, rfl, ?_, hpanic⟩
        exact List.forall_mem_cons.mpr ⟨(passes_iff lib ce d).mpr ⟨sigs, hd⟩, hpre⟩
    · rintro ⟨pre, d', post, heq, hpre, msg, hpanic⟩
      cases pre with
      | nil =>
        cases heq
        rw [hpanic]
        exact ⟨msg, rfl⟩
      | cons x pre =>
        obtain ⟨rfl, rfl⟩ := List.cons.inj heq
        obtain ⟨hx, hpre⟩ := List.forall_mem_cons.mp hpre
        obtain ⟨sigs, hs⟩ := (passes_iff lib ce d).mp hx
        rw [hs]
        exact (ih _).mpr ⟨pre, d', post, rfl, hpre, msg, hpanic⟩

theorem collectBatch_panics_iff (lib : Lib) (ce : CovenantEmulator)
    (btcDels : List (Option Delegation)) :
    (∃ msg, collectBatch lib ce btcDels = .error (.panic msg)) ↔
      ∃ pre d post, btcDels = pre ++ d :: post ∧ (∀ x ∈ pre, Passes lib ce x) ∧
        ∃ msg, signDelegation lib ce d = .error (.panic msg) := by
  rw [← collectSigs_panics_iff lib ce []]
  unfold collectBatch
  cases btcDels with
  | nil => simp [collectSigs, pure, Except.pure]
  | cons d ds => simp

/-- A call returns unless a panic ends the loop. -/
theorem play_returns_iff (lib : Lib) (ce : CovenantEmulator) (btcDels : List (Option Delegation)) :
    (∀ ans, ∃ r, ((addCovenantSignatures lib ce btcDels).play ans).2 = .ok r) ↔
      ¬ ∃ msg, collectBatch lib ce btcDels = .error (.panic msg) := by
  simp only [addCovenantSignatures, Prog.bind_eq, Prog.ask, Prog.call_bind, Prog.ret_bind,
    Prog.play_call]
  rcases collectBatch lib ce btcDels with (msg | err) | _ | l
  · constructor
    · intro h
      obtain ⟨r, hr⟩ := h failingAnswers
      cases hr
    · intro h
      exact absurd ⟨msg, rfl⟩ h
  · exact iff_of_true (fun ans => ⟨_, rfl⟩) (by simp)
  · exact iff_of_true (fun ans => ⟨_, rfl⟩) (by simp)
  · exact iff_of_true (fun ans => ⟨_, rfl⟩) (by simp)

/-- **Crashes.** `AddCovenantSignatures` returns, whatever the chain answers, exactly when
no delegation at which it panics comes after delegations that all pass. -/
theorem returns_iff (lib : Lib) (ce : CovenantEmulator) (params : StakingParams)
    (hparams : ce.params = some params) (btcDels : List (Option Delegation)) :
    (∀ ans, ∃ r, ((addCovenantSignatures lib ce btcDels).play ans).2 = .ok r) ↔
      ∀ pre d post, btcDels = pre ++ some d :: post → (∀ x ∈ pre, Passes lib ce x) →
        ¬ Crashes lib ce params d := by
  rw [play_returns_iff, collectBatch_panics_iff]
  constructor
  · intro h pre d post heq hpre hcrash
    exact h ⟨pre, some d, post, heq, hpre, (signDelegation_panics_iff hparams d).mpr hcrash⟩
  · rintro h ⟨pre, btcDel, post, heq, hpre, hpanic⟩
    cases btcDel with
    | none =>
      obtain ⟨msg, hmsg⟩ := hpanic
      cases hmsg
    | some d => exact h pre d post heq hpre ((signDelegation_panics_iff hparams d).mp hpanic)

theorem returns_iff_sample :
    (∀ ans, ∃ r,
        ((addCovenantSignatures sampleLib sampleEmulator [some sampleDelegation]).play ans).2 =
          .ok r) ↔
      ∀ pre d post, [some sampleDelegation] = pre ++ some d :: post →
        (∀ x ∈ pre, Passes sampleLib sampleEmulator x) →
        ¬ Crashes sampleLib sampleEmulator sampleParams d :=
  returns_iff sampleLib sampleEmulator sampleParams rfl [some sampleDelegation]

/-! ### Two hostile delegations -/

/-- The sample delegation with its heights exchanged. -/
def backwardDelegation : Delegation :=
  { sampleDelegation with startHeight := 105, endHeight := 100 }

theorem backwardDelegation_crashes :
    Crashes sampleLib sampleEmulator sampleParams backwardDelegation := by
  have hq : backwardDelegation.hasCovenantQuorum sampleParams.covenantQuorum = .ok false :=
    noQuorum_sample sampleParams likeSample [key 8] unbondingTx unbondingSlashingTx
  have hchecks : ChecksPass sampleLib sampleEmulator.config.btcNetParams sampleParams
      backwardDelegation sampleAccepted.undelegation sampleAccepted.checked :=
    { sampleAccepted.checks with }
  exact .stakingTime rfl hq hchecks sampleAccepted.signing.privKey (by decide)

/-- An unbonding transaction that pays nobody. -/
def voidTx : MsgTx := spend stakingHash []

/-- A library whose decoder knows that transaction as well. -/
def voidLib : Lib :=
  { sampleLib with
    newBTCTxFromHex := fun s => if s = txHex voidTx then .ok voidTx else sampleLib.newBTCTxFromHex s }

theorem voidLib_newBTCTxFromHex (s : String) : voidLib.newBTCTxFromHex s =
    if s = txHex voidTx then .ok voidTx else sampleLib.newBTCTxFromHex s := rfl

theorem voidLib_decodes (tx : MsgTx) (h : tx ∈ knownTxs) :
    voidLib.newBTCTxFromHex (txHex tx) = .ok tx := by
  have hbytes : ∀ tx ∈ knownTxs, serialize tx ≠ serialize voidTx := by decide +kernel
  have hne : txHex tx ≠ txHex voidTx := fun heq => hbytes tx h (Hex.encodeToString_injective heq)
  rw [voidLib_newBTCTxFromHex, if_neg hne]
  exact newBTCTxFromHex_txHex tx h

def voidDelegation : Delegation := delegationWith [key 8] voidTx unbondingSlashingTx

theorem voidDelegation_crashes : Crashes voidLib sampleEmulator sampleParams voidDelegation := by
  have hvoid : voidLib.newBTCTxFromHex (txHex voidTx) = .ok voidTx := by
    rw [voidLib_newBTCTxFromHex, if_pos rfl]
  have hslashing : voidLib.newBTCSlashingTxFromHex = sampleLib.newBTCSlashingTxFromHex := rfl
  have hmsg : voidLib.toMsgTx = sampleLib.toMsgTx := rfl
  have hcheck : voidLib.checkTransactions = sampleLib.checkTransactions := rfl
  have hreaches : ReachesUnbonding voidLib .simNet sampleParams voidDelegation
      ⟨txHex voidTx, txHex unbondingSlashingTx, [], [], none⟩ voidTx := by
    refine ⟨by decide, ⟨stakingTx, ⟨serialize slashingTx⟩, slashingTx, ?_⟩,
      ⟨unbondingSlashingTx, ?_⟩, hvoid⟩
    · rw [hslashing, hmsg, hcheck]
      exact ⟨voidLib_decodes stakingTx stakingTx_known,
        newBTCSlashingTxFromHex_txHex slashingTx, toMsgTx_serialize slashingTx slashingTx_known,
        slashing_checked_sample⟩
    · exact voidLib_decodes unbondingSlashingTx honestPair.known.2
  exact .noOutput rfl (noQuorum_sample sampleParams likeSample [key 8] voidTx unbondingSlashingTx) hreaches rfl

/-- Heights in the wrong order, or an unbonding transaction without outputs, bring the
signer down. -/
theorem hostile_delegations_crash :
    (¬ ∀ ans, ∃ r,
      ((addCovenantSignatures sampleLib sampleEmulator [some backwardDelegation]).play ans).2 =
        .ok r) ∧
    ¬ ∀ ans, ∃ r,
      ((addCovenantSignatures voidLib sampleEmulator [some voidDelegation]).play ans).2 = .ok r := by
  have hpanics : ∀ lib d, Crashes lib sampleEmulator sampleParams d → ¬ ∀ ans, ∃ r,
      ((addCovenantSignatures lib sampleEmulator [some d]).play ans).2 = .ok r := by
    intro lib d hcrash h
    rw [play_returns_iff, collectBatch_panics_iff] at h
    exact h ⟨[], some d, [], rfl, by simp, (signDelegation_panics_iff rfl d).mpr hcrash⟩
  exact ⟨hpanics _ _ backwardDelegation_crashes, hpanics _ _ voidDelegation_crashes⟩

end Covenant.Crash
