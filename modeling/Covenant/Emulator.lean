import Covenant.Types

/-! The emulator and the body of `AddCovenantSignatures`: what it computes for one
delegation, with every early exit, and the loop over a batch. The calls to the
consumer chain are in `Loop`. -/

namespace Covenant.Emulator
open Outcome Bitcoin Covenant.Types

/-! ## State -/

/-- `config.Config`, less the group of Babylon client options. -/
structure Config where
  logLevel : String
  queryInterval : Int64
  delegationLimit : UInt64
  sigsBatchSize : UInt64
  bitcoinNetwork : String
  btcNetParams : NetParams
  deriving DecidableEq, Repr

/-- A keyring record: the dynamic type of its cached private key, when it is local. -/
inductive CachedPrivKey
  | secp256k1 (key : Bytes)
  | other
  deriving DecidableEq, Repr

structure KeyRecord where
  getLocal : Option CachedPrivKey
  deriving DecidableEq, Repr

/-- `kr.Key` takes the passphrase from the input reader, which each call resets. -/
structure ChainKeyringController where
  key : (passphrase name : String) → Except GoError KeyRecord
  fpName : String

def ChainKeyringController.getChainPrivKey (kc : ChainKeyringController) (passphrase : String) :
    Go Bytes := do
  let k ← orWrap "failed to get private key" (kc.key passphrase kc.fpName)
  match ← deref k.getLocal with
  | .secp256k1 key => return key
  | .other => .error (.error "unsupported key type in keyring")

structure CovenantEmulator where
  pk : PublicKey
  kc : ChainKeyringController
  config : Config
  params : Option StakingParams
  passphrase : String

def CovenantEmulator.getPrivKey (lib : Lib) (ce : CovenantEmulator) : Go PrivateKey := do
  let sdkPrivKey ← ce.kc.getChainPrivKey ce.passphrase
  return lib.privKeyFromBytes sdkPrivKey

/-! ## One delegation -/

/-- What steps 3 and 4 decode and build. -/
structure Checked where
  stakingMsgTx : MsgTx
  slashingTx : BTCSlashingTx
  slashingMsgTx : MsgTx
  unbondingSlashingMsgTx : MsgTx
  unbondingMsgTx : MsgTx
  unbondingInfo : UnbondingInfo
  deriving DecidableEq, Repr

/-- Steps 2 to 4: the unbonding time, the staking and slashing transactions, the
unbonding transactions. The first output of the unbonding transaction is indexed
before its transactions are checked. -/
def checkDelegation (lib : Lib) (net : NetParams) (params : StakingParams) (btcDel : Delegation)
    (undelegation : Undelegation) : Go Checked := do
  let unbondingTime := btcDel.unbondingTime
  let minUnbondingTime := params.minUnbondingTime
  rejectIf (unbondingTime ≤ minUnbondingTime)
    s!"unbonding time {unbondingTime} must be larger than {minUnbondingTime}"
  let stakingMsgTx ← orReturn (lib.newBTCTxFromHex btcDel.stakingTxHex)
  let slashingTx ← orReturn (lib.newBTCSlashingTxFromHex btcDel.slashingTxHex)
  let slashingMsgTx ← orReturn (lib.toMsgTx slashingTx)
  orWrap "invalid txs in the delegation" (lib.checkTransactions slashingMsgTx stakingMsgTx
    btcDel.stakingOutputIdx params.minSlashingTxFeeSat params.slashingRate params.slashingAddress
    btcDel.btcPk unbondingTime.toUInt16 net)
  let unbondingSlashingMsgTx ← orReturn (lib.newBTCTxFromHex undelegation.slashingTxHex)
  let unbondingMsgTx ← orReturn (lib.newBTCTxFromHex undelegation.unbondingTxHex)
  let unbondingOut ← index unbondingMsgTx.txOut 0
  let unbondingInfo ← orReturn (lib.buildUnbondingInfo btcDel.btcPk btcDel.fpBtcPks
    params.covenantPks params.covenantQuorum unbondingTime.toUInt16 unbondingOut.value net)
  orWrap "invalid txs in the undelegation" (lib.checkTransactions unbondingSlashingMsgTx
    unbondingMsgTx 0 params.minSlashingTxFeeSat params.slashingRate params.slashingAddress
    btcDel.btcPk unbondingTime.toUInt16 net)
  return { stakingMsgTx, slashingTx, slashingMsgTx, unbondingSlashingMsgTx, unbondingMsgTx,
           unbondingInfo }

/-- The loop over the finality providers that steps 5 and 7 share: an adaptor
signature under each provider's key. -/
def encSignEach (lib : Lib) (tx : BTCSlashingTx) (fundingTx : MsgTx) (outputIdx : UInt32)
    (scriptPath : Bytes) (privKey : PrivateKey) (fpBtcPks : List PublicKey) : Go (List Bytes) :=
  fpBtcPks.mapM fun fpPk => do
    let encKey ← orReturn (lib.newEncryptionKeyFromBTCPK fpPk)
    let covenantSig ← orReturn (lib.encSign tx fundingTx outputIdx scriptPath privKey encKey)
    return lib.mustMarshal covenantSig

/-- Steps 5 to 8: the three kinds of signatures. The unbonding slashing transaction is
decoded a second time, for signing. -/
def signChecked (lib : Lib) (ce : CovenantEmulator) (params : StakingParams) (btcDel : Delegation)
    (undelegation : Undelegation) (c : Checked) : Go CovenantSigs := do
  let covenantPrivKey ← wrapError "failed to get Covenant private key" (ce.getPrivKey lib)
  let stakingTime ← btcDel.getStakingTime
  let stakingInfo ← orReturn (lib.buildStakingInfo btcDel.btcPk btcDel.fpBtcPks params.covenantPks
    params.covenantQuorum stakingTime btcDel.totalSat.toInt64 ce.config.btcNetParams)
  let slashingPathInfo ← orReturn (lib.stakingSlashingPathSpendInfo stakingInfo)
  let covSigs ← encSignEach lib c.slashingTx c.stakingMsgTx btcDel.stakingOutputIdx
    slashingPathInfo.getPkScriptPath covenantPrivKey btcDel.fpBtcPks
  let stakingTxUnbondingPathInfo ← orReturn (lib.stakingUnbondingPathSpendInfo stakingInfo)
  let covenantUnbondingSignature ← orWrap "failed to sign unbonding tx"
    (lib.signTxWithOneScriptSpendInputStrict c.unbondingMsgTx c.stakingMsgTx
      btcDel.stakingOutputIdx stakingTxUnbondingPathInfo.getPkScriptPath covenantPrivKey)
  let slashUnbondingTx ← orReturn (lib.newBTCSlashingTxFromHex undelegation.slashingTxHex)
  let unbondingTxSlashingPath ← orReturn (lib.unbondingSlashingPathSpendInfo c.unbondingInfo)
  let covSlashingSigs ← encSignEach lib slashUnbondingTx c.unbondingMsgTx 0
    unbondingTxSlashingPath.getPkScriptPath covenantPrivKey btcDel.fpBtcPks
  return { publicKey := ce.pk
           stakingTxHash := lib.txHash c.stakingMsgTx
           slashingSigs := covSigs
           unbondingSig := covenantUnbondingSignature
           slashingUnbondingSigs := covSlashingSigs }

/-- One iteration of the loop of `AddCovenantSignatures`. The value `none` is its
`return nil, nil` at a delegation that has its quorum. -/
def signDelegation (lib : Lib) (ce : CovenantEmulator) : Option Delegation → Go (Option CovenantSigs)
  | none => .error (.error "empty delegation")
  | some btcDel =>
    match btcDel.btcUndelegation with
    | none => .error (.error "empty undelegation")
    | some undelegation => do
      let params ← deref ce.params
      match ← btcDel.hasCovenantQuorum params.covenantQuorum with
      | true => return none
      | false =>
        let c ← checkDelegation lib ce.config.btcNetParams params btcDel undelegation
        let sigs ← signChecked lib ce params btcDel undelegation c
        return some sigs

/-- The loop over the batch, with the signatures collected so far. Every exit of an
iteration leaves the whole function; `none` is again `return nil, nil`. -/
def collectSigs (lib : Lib) (ce : CovenantEmulator) (covenantSigs : List CovenantSigs) :
    List (Option Delegation) → Go (Option (List CovenantSigs))
  | [] => return some covenantSigs
  | btcDel :: btcDels => do
    match ← signDelegation lib ce btcDel with
    | none => return none
    | some sigs => collectSigs lib ce (covenantSigs ++ [sigs]) btcDels

end Covenant.Emulator
