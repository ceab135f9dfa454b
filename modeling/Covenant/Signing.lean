import Covenant.Emulator

/-! When `AddCovenantSignatures` signs a delegation. `ChecksPass` and `SigningPasses` list
what the checks and the signing steps ask of a delegation, and the iteration of the
loop succeeds exactly when a delegation is `Accepted`, that is, present with its
undelegation, without quorum, and passing both. -/

namespace Covenant.Signing
open Outcome Bitcoin Covenant.Types Emulator

/-! ## The checks -/

/-- Steps 2 to 4 pass and decode to `c`. -/
structure ChecksPass (lib : Lib) (net : NetParams) (params : StakingParams) (btcDel : Delegation)
    (undelegation : Undelegation) (c : Checked) : Prop where
  unbondingTime_gt : params.minUnbondingTime < btcDel.unbondingTime
  staking_parses : lib.newBTCTxFromHex btcDel.stakingTxHex = .ok c.stakingMsgTx
  slashing_parses : lib.newBTCSlashingTxFromHex btcDel.slashingTxHex = .ok c.slashingTx
  slashing_decodes : lib.toMsgTx c.slashingTx = .ok c.slashingMsgTx
  slashing_checked : lib.checkTransactions c.slashingMsgTx c.stakingMsgTx
    btcDel.stakingOutputIdx params.minSlashingTxFeeSat params.slashingRate params.slashingAddress
    btcDel.btcPk btcDel.unbondingTime.toUInt16 net = .ok ()
  unbondingSlashing_parses :
    lib.newBTCTxFromHex undelegation.slashingTxHex = .ok c.unbondingSlashingMsgTx
  unbonding_parses : lib.newBTCTxFromHex undelegation.unbondingTxHex = .ok c.unbondingMsgTx
  unbondingInfo_built : ∃ out, c.unbondingMsgTx.txOut[0]? = some out ∧
    lib.buildUnbondingInfo btcDel.btcPk btcDel.fpBtcPks params.covenantPks params.covenantQuorum
      btcDel.unbondingTime.toUInt16 out.value net = .ok c.unbondingInfo
  unbondingSlashing_checked : lib.checkTransactions c.unbondingSlashingMsgTx c.unbondingMsgTx 0
    params.minSlashingTxFeeSat params.slashingRate params.slashingAddress btcDel.btcPk
    btcDel.unbondingTime.toUInt16 net = .ok ()

theorem checkDelegation_eq_ok_iff (lib : Lib) (net : NetParams) (params : StakingParams)
    (btcDel : Delegation) (undelegation : Undelegation) (c : Checked) :
    checkDelegation lib net params btcDel undelegation = .ok c ↔
      ChecksPass lib net params btcDel undelegation c := by
  simp only [checkDelegation, bind_eq_ok_iff, rejectIf_eq_ok, orReturn_eq_ok, orWrap_eq_ok,
    index_eq_ok, pure, Except.pure, Except.ok.injEq]
  constructor
  · rintro ⟨_, ht, tx, h1, stx, h2, smsg, h3, _, h4, usmsg, h5, umsg, h6, out, h7, info, h8,
      _, h9, rfl⟩
    exact ⟨UInt32.not_le.mp ht, h1, h2, h3, h4, h5, h6, ⟨out, h7, h8⟩, h9⟩
  · intro h
    obtain ⟨out, h7, h8⟩ := h.unbondingInfo_built
    exact ⟨(), UInt32.not_le.mpr h.unbondingTime_gt, _, h.staking_parses, _, h.slashing_parses, _,
      h.slashing_decodes, (), h.slashing_checked, _, h.unbondingSlashing_parses, _,
      h.unbonding_parses, out, h7, _, h8, (), h.unbondingSlashing_checked, rfl⟩

/-! ## The signatures -/

/-- What steps 5 to 7 fetch, build and sign. -/
structure Signed where
  covenantPrivKey : PrivateKey
  stakingTime : UInt16
  stakingInfo : StakingInfo
  slashingPathInfo : SpendInfo
  covSigs : List Bytes
  stakingTxUnbondingPathInfo : SpendInfo
  covenantUnbondingSignature : Signature
  slashUnbondingTx : BTCSlashingTx
  unbondingTxSlashingPath : SpendInfo
  covSlashingSigs : List Bytes
  deriving DecidableEq, Repr

/-- Step 8. -/
def Signed.sigs (lib : Lib) (ce : CovenantEmulator) (c : Checked) (m : Signed) : CovenantSigs where
  publicKey := ce.pk
  stakingTxHash := lib.txHash c.stakingMsgTx
  slashingSigs := m.covSigs
  unbondingSig := m.covenantUnbondingSignature
  slashingUnbondingSigs := m.covSlashingSigs

/-- Steps 5 to 7 succeed with the values `m`. -/
structure SigningPasses (lib : Lib) (ce : CovenantEmulator) (params : StakingParams)
    (btcDel : Delegation) (undelegation : Undelegation) (c : Checked) (m : Signed) : Prop where
  privKey : ce.getPrivKey lib = .ok m.covenantPrivKey
  stakingTime_eq : btcDel.getStakingTime = .ok m.stakingTime
  stakingInfo_built : lib.buildStakingInfo btcDel.btcPk btcDel.fpBtcPks params.covenantPks
    params.covenantQuorum m.stakingTime btcDel.totalSat.toInt64 ce.config.btcNetParams =
      .ok m.stakingInfo
  slashingPath : lib.stakingSlashingPathSpendInfo m.stakingInfo = .ok m.slashingPathInfo
  slashing_signed : encSignEach lib c.slashingTx c.stakingMsgTx btcDel.stakingOutputIdx
    m.slashingPathInfo.getPkScriptPath m.covenantPrivKey btcDel.fpBtcPks = .ok m.covSigs
  unbondingPath :
    lib.stakingUnbondingPathSpendInfo m.stakingInfo = .ok m.stakingTxUnbondingPathInfo
  unbonding_signed : lib.signTxWithOneScriptSpendInputStrict c.unbondingMsgTx c.stakingMsgTx
    btcDel.stakingOutputIdx m.stakingTxUnbondingPathInfo.getPkScriptPath m.covenantPrivKey =
      .ok m.covenantUnbondingSignature
  slashUnbonding_parses :
    lib.newBTCSlashingTxFromHex undelegation.slashingTxHex = .ok m.slashUnbondingTx
  unbondingSlashingPath :
    lib.unbondingSlashingPathSpendInfo c.unbondingInfo = .ok m.unbondingTxSlashingPath
  unbondingSlashing_signed : encSignEach lib m.slashUnbondingTx c.unbondingMsgTx 0
    m.unbondingTxSlashingPath.getPkScriptPath m.covenantPrivKey btcDel.fpBtcPks =
      .ok m.covSlashingSigs

theorem signChecked_eq_ok_iff (lib : Lib) (ce : CovenantEmulator) (params : StakingParams)
    (btcDel : Delegation) (undelegation : Undelegation) (c : Checked) (sigs : CovenantSigs) :
    signChecked lib ce params btcDel undelegation c = .ok sigs ↔
      ∃ m, SigningPasses lib ce params btcDel undelegation c m ∧ sigs = m.sigs lib ce c := by
  simp only [signChecked, bind_eq_ok_iff, orReturn_eq_ok, orWrap_eq_ok, wrapError_eq_ok, pure,
    Except.pure, Except.ok.injEq]
  constructor
  · rintro ⟨sk, h1, time, h2, info, h3, path, h4, cs, h5, upath, h6, usig, h7, stx, h8, spath, h9,
      us, h10, rfl⟩
    exact ⟨⟨sk, time, info, path, cs, upath, usig, stx, spath, us⟩,
      ⟨h1, h2, h3, h4, h5, h6, h7, h8, h9, h10⟩, rfl⟩
  · rintro ⟨m, h, rfl⟩
    exact ⟨_, h.privKey, _, h.stakingTime_eq, _, h.stakingInfo_built, _, h.slashingPath, _,
      h.slashing_signed, _, h.unbondingPath, _, h.unbonding_signed, _, h.slashUnbonding_parses, _,
      h.unbondingSlashingPath, _, h.unbondingSlashing_signed, rfl⟩

/-! ## One iteration -/

/-- A delegation that the iteration signs, with everything it computes on the way. -/
structure Accepted (lib : Lib) (ce : CovenantEmulator) (btcDel : Option Delegation) where
  del : Delegation
  undelegation : Undelegation
  params : StakingParams
  checked : Checked
  signed : Signed
  del_eq : btcDel = some del
  undelegation_eq : del.btcUndelegation = some undelegation
  params_eq : ce.params = some params
  no_quorum : del.hasCovenantQuorum params.covenantQuorum = .ok false
  checks : ChecksPass lib ce.config.btcNetParams params del undelegation checked
  signing : SigningPasses lib ce params del undelegation checked signed

def Accepted.sigs {lib : Lib} {ce : CovenantEmulator} {btcDel : Option Delegation}
    (a : Accepted lib ce btcDel) : CovenantSigs :=
  a.signed.sigs lib ce a.checked

theorem signDelegation_eq_some_iff (lib : Lib) (ce : CovenantEmulator) (btcDel : Option Delegation)
    (sigs : CovenantSigs) :
    signDelegation lib ce btcDel = .ok (some sigs) ↔
      ∃ a : Accepted lib ce btcDel, sigs = a.sigs := by
  constructor
  · intro h
    cases btcDel with
    | none => cases h
    | some d =>
      cases hud : d.btcUndelegation with
      | none => simp [signDelegation, hud] at h
      | some ud =>
        simp only [signDelegation, hud, bind_eq_ok_iff, deref_eq_ok] at h
        obtain ⟨p, hp, quorum, hq, h⟩ := h
        cases quorum with
        | true => simp [pure, Except.pure] at h
        | false =>
          simp only [bind_eq_ok_iff, pure, Except.pure, Except.ok.injEq, Option.some.injEq] at h
          obtain ⟨c, hc, s, hs, rfl⟩ := h
          obtain ⟨m, hm, rfl⟩ := (signChecked_eq_ok_iff lib ce p d ud c s).mp hs
          exact ⟨⟨d, ud, p, c, m, rfl, hud, hp, hq,
            (checkDelegation_eq_ok_iff lib _ p d ud c).mp hc, hm⟩, rfl⟩
  · rintro ⟨⟨d, ud, p, c, m, rfl, hud, hp, hq, hchecks, hsigning⟩, rfl⟩
    have hc := (checkDelegation_eq_ok_iff lib _ _ _ _ _).mpr hchecks
    have hs := (signChecked_eq_ok_iff lib ce _ _ _ _ _).mpr ⟨m, hsigning, rfl⟩
    simp only [signDelegation, hud, hp, deref, hq, hc, hs, bind, Except.bind, pure, Except.pure]
    rfl

/-- The delegation is signed when its turn comes. -/
def Passes (lib : Lib) (ce : CovenantEmulator) (btcDel : Option Delegation) : Prop :=
  Nonempty (Accepted lib ce btcDel)

theorem passes_iff (lib : Lib) (ce : CovenantEmulator) (btcDel : Option Delegation) :
    Passes lib ce btcDel ↔ ∃ sigs, signDelegation lib ce btcDel = .ok (some sigs) := by
  constructor
  · rintro ⟨a⟩
    exact ⟨a.sigs, (signDelegation_eq_some_iff lib ce btcDel _).mpr ⟨a, rfl⟩⟩
  · rintro ⟨sigs, h⟩
    obtain ⟨a, _⟩ := (signDelegation_eq_some_iff lib ce btcDel sigs).mp h
    exact ⟨a⟩

/-- The delegation is there, with its undelegation, and already has its quorum. -/
def quorumReached (ce : CovenantEmulator) : Option Delegation → Bool
  | none => false
  | some d =>
    match d.btcUndelegation, ce.params with
    | some _, some params => d.hasCovenantQuorum params.covenantQuorum == .ok true
    | _, _ => false

theorem signDelegation_eq_none_iff (lib : Lib) (ce : CovenantEmulator)
    (btcDel : Option Delegation) :
    signDelegation lib ce btcDel = .ok none ↔ quorumReached ce btcDel = true := by
  cases btcDel with
  | none => simp [signDelegation, quorumReached]
  | some d =>
    cases hud : d.btcUndelegation with
    | none => simp [signDelegation, quorumReached, hud]
    | some ud =>
      cases hp : ce.params with
      | none => simp [signDelegation, quorumReached, hud, hp, deref, bind, Except.bind]
      | some p =>
        simp only [signDelegation, quorumReached, hud, hp, bind_eq_ok_iff, deref_eq_ok,
          Option.some.injEq, exists_eq_left', beq_iff_eq]
        constructor
        · rintro ⟨quorum, hq, h⟩
          cases quorum with
          | true => exact hq
          | false => simp [bind_eq_ok_iff, pure, Except.pure] at h
        · intro hq
          exact ⟨true, hq, rfl⟩

theorem quorumReached_of_passes {lib : Lib} {ce : CovenantEmulator} {btcDel : Option Delegation}
    (h : Passes lib ce btcDel) : quorumReached ce btcDel = false := by
  obtain ⟨sigs, hs⟩ := (passes_iff lib ce btcDel).mp h
  rw [Bool.eq_false_iff]
  intro hq
  rw [(signDelegation_eq_none_iff lib ce btcDel).mpr hq] at hs
  cases hs

/-! ## The loop over a batch -/

theorem collectSigs_cons (lib : Lib) (ce : CovenantEmulator) (acc : List CovenantSigs)
    (btcDel : Option Delegation) (btcDels : List (Option Delegation)) :
    collectSigs lib ce acc (btcDel :: btcDels) =
      match signDelegation lib ce btcDel with
      | .error e => .error e
      | .ok none => .ok none
      | .ok (some sigs) => collectSigs lib ce (acc ++ [sigs]) btcDels := by
  rw [collectSigs]
  rcases signDelegation lib ce btcDel with e | _ | sigs <;> rfl

/-- **Loop invariant.** The loop ends normally exactly when every iteration signs, and
then the accumulator has grown by their signatures in order. -/
theorem collectSigs_eq_some_iff (lib : Lib) (ce : CovenantEmulator) (acc : List CovenantSigs)
    (btcDels : List (Option Delegation)) (l : List CovenantSigs) :
    collectSigs lib ce acc btcDels = .ok (some l) ↔
      ∃ sigs, l = acc ++ sigs ∧
        List.Forall₂ (fun d s => signDelegation lib ce d = .ok (some s)) btcDels sigs := by
  induction btcDels generalizing acc with
  | nil =>
    simp only [collectSigs, pure, Except.pure, Except.ok.injEq, Option.some.injEq,
      List.forall₂_nil_left_iff]
    constructor
    · rintro rfl
      exact ⟨[], by simp, rfl⟩
    · rintro ⟨sigs, rfl, rfl⟩
      simp
  | cons d ds ih =>
    rw [collectSigs_cons]
    constructor
    · intro h
      rcases hd : signDelegation lib ce d with e | _ | s
      · rw [hd] at h; cases h
      · rw [hd] at h; cases h
      · rw [hd] at h
        obtain ⟨sigs, rfl, hf⟩ := (ih (acc ++ [s])).mp h
        exact ⟨s :: sigs, by simp, .cons hd hf⟩
    · rintro ⟨sigs, rfl, hf⟩
      obtain ⟨s, rest, hd, hr, rfl⟩ := List.forall₂_cons_left_iff.mp hf
      rw [hd]
      exact (ih (acc ++ [s])).mpr ⟨rest, by simp, hr⟩

/-- The batch gets through the loop exactly when each of its delegations passes. -/
theorem collectSigs_succeeds_iff (lib : Lib) (ce : CovenantEmulator)
    (btcDels : List (Option Delegation)) :
    (∃ l, collectSigs lib ce [] btcDels = .ok (some l)) ↔ ∀ d ∈ btcDels, Passes lib ce d := by
  simp only [collectSigs_eq_some_iff, List.nil_append, passes_iff]
  induction btcDels with
  | nil => simp
  | cons d ds ih =>
    constructor
    · rintro ⟨_, sigs, rfl, hf⟩
      obtain ⟨s, rest, hd, hr, rfl⟩ := List.forall₂_cons_left_iff.mp hf
      have hrest := ih.mp ⟨rest, rest, rfl, hr⟩
      simp only [List.mem_cons, forall_eq_or_imp]
      exact ⟨⟨s, hd⟩, hrest⟩
    · intro h
      simp only [List.mem_cons, forall_eq_or_imp] at h
      obtain ⟨⟨s, hs⟩, hrest⟩ := h
      obtain ⟨sigs, _, rfl, hf⟩ := ih.mpr hrest
      exact ⟨s :: sigs, s :: sigs, rfl, .cons hs hf⟩

end Covenant.Signing
