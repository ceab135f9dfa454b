import Covenant.Bitcoin

/-! The package `types`: delegations as the emulator reads them, the staking
parameters, and the signatures it submits. Pointers that the code tests for nil are
options; lists of pointers to records that are always allocated are plain lists. -/

namespace Covenant.Types
open Outcome Bitcoin

/-- The signatures of one covenant member on a slashing transaction, one for each
finality provider. -/
structure CovenantAdaptorSigInfo where
  pk : PublicKey
  sigs : List Bytes
  deriving DecidableEq, Repr

structure CovenantSchnorrSigInfo where
  pk : PublicKey
  sig : Signature
  deriving DecidableEq, Repr

structure Undelegation where
  unbondingTxHex : String
  slashingTxHex : String
  covenantSlashingSigs : List CovenantAdaptorSigInfo
  covenantUnbondingSigs : List CovenantSchnorrSigInfo
  delegatorUnbondingSig : Option BIP340Signature
  deriving DecidableEq, Repr

structure Delegation where
  btcPk : PublicKey
  fpBtcPks : List PublicKey
  startHeight : UInt64
  endHeight : UInt64
  totalSat : UInt64
  stakingTxHex : String
  stakingOutputIdx : UInt32
  slashingTxHex : String
  unbondingTime : UInt32
  covenantSigs : List CovenantAdaptorSigInfo
  btcUndelegation : Option Undelegation
  deriving DecidableEq, Repr

structure StakingParams where
  comfirmationTimeBlocks : UInt64
  finalizationTimeoutBlocks : UInt64
  minSlashingTxFeeSat : Int64
  covenantPks : List PublicKey
  slashingAddress : Address
  covenantQuorum : UInt32
  slashingRate : LegacyDec
  minComissionRate : LegacyDec
  minUnbondingTime : UInt32
  deriving DecidableEq, Repr

/-- What the emulator submits for one delegation. -/
structure CovenantSigs where
  publicKey : PublicKey
  stakingTxHash : Hash
  slashingSigs : List Bytes
  unbondingSig : Signature
  slashingUnbondingSigs : List Bytes
  deriving DecidableEq, Repr

structure RelayerEvent where
  eventType : String
  attributes : List (String × String)
  deriving DecidableEq, Repr

structure TxResponse where
  txHash : String
  events : List RelayerEvent
  deriving DecidableEq, Repr

/-! ## Quorum -/

/-- Reads the unbonding signatures, as the source does. -/
def Undelegation.hasCovenantQuorumOnSlashing (ud : Undelegation) (quorum : UInt32) : Bool :=
  decide (ud.covenantUnbondingSigs.length ≥ quorum.toNat)

def Undelegation.hasCovenantQuorumOnUnbonding (ud : Undelegation) (quorum : UInt32) : Bool :=
  decide (ud.covenantUnbondingSigs.length ≥ quorum.toNat)

def Undelegation.hasAllSignatures (ud : Undelegation) (covenantQuorum : UInt32) : Bool :=
  ud.hasCovenantQuorumOnUnbonding covenantQuorum && ud.hasCovenantQuorumOnSlashing covenantQuorum

/-- The undelegation is only dereferenced when the delegation's own list is long enough;
the length of that list is narrowed to 32 bits first. -/
def Delegation.hasCovenantQuorum (d : Delegation) (quorum : UInt32) : Go Bool :=
  if UInt32.ofNat d.covenantSigs.length ≥ quorum then do
    let ud ← deref d.btcUndelegation
    return ud.hasAllSignatures quorum
  else
    return false

/-- With an undelegation present the quorum test always answers. -/
theorem Delegation.hasCovenantQuorum_eq {d : Delegation} {ud : Undelegation}
    (h : d.btcUndelegation = some ud) (quorum : UInt32) :
    d.hasCovenantQuorum quorum =
      .ok (decide (UInt32.ofNat d.covenantSigs.length ≥ quorum) && ud.hasAllSignatures quorum) := by
  unfold hasCovenantQuorum
  by_cases hq : UInt32.ofNat d.covenantSigs.length ≥ quorum
  · simp [hq, h, deref, bind, Except.bind, pure, Except.pure]
  · simp [hq, pure, Except.pure]

/-! ## Times -/

/-- The subtraction wraps on 64 bits. -/
def Delegation.getStakingTime (d : Delegation) : Go UInt16 :=
  let diff := d.endHeight - d.startHeight
  if diff > 65535 then .error (.panic "invalid delegation in database") else .ok diff.toUInt16

/-- The larger of the minimum unbonding time and the finalization timeout. -/
def StakingParams.minimumUnbondingTime (p : StakingParams) : UInt64 :=
  if p.minUnbondingTime.toUInt64 < p.finalizationTimeoutBlocks then p.finalizationTimeoutBlocks
  else p.minUnbondingTime.toUInt64

theorem StakingParams.minimumUnbondingTime_lt_iff (p : StakingParams) (time : UInt64) :
    p.minimumUnbondingTime < time ↔
      p.minUnbondingTime.toUInt64 < time ∧ p.finalizationTimeoutBlocks < time := by
  unfold minimumUnbondingTime
  split <;> simp only [UInt64.lt_iff_toNat_lt] at * <;> omega

theorem toUInt64_lt_iff (a b : UInt32) : a.toUInt64 < b.toUInt64 ↔ a < b := by
  simp [UInt64.lt_iff_toNat_lt, UInt32.lt_iff_toNat_lt]

end Covenant.Types
