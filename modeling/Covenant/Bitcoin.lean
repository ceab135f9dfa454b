import Covenant.Hex
import Covenant.Outcome

/-! The values that the emulator exchanges with the Bitcoin and Babylon libraries,
and the library functions it calls. The libraries are not part of the repository:
`Lib` keeps every one of their functions as a parameter, and what a result relies
on is a named hypothesis about a `Lib` (`KeyEncoding`, `RecordEncoding`,
`DecodersAgree`, `CheckTransactionsSound`). -/

namespace Covenant.Bitcoin
open Outcome (GoError)

abbrev Bytes := List UInt8

/-- `chainhash.Hash`, a 32-byte array. -/
structure Hash where
  bytes : Bytes
  size : bytes.length = 32
  deriving DecidableEq, Repr

/-- `btcec.PublicKey`: a point of the curve, by its 32-byte x-coordinate and the
parity of its y-coordinate. -/
structure PublicKey where
  x : Bytes
  yOdd : Bool
  deriving DecidableEq, Repr

/-- `bbntypes.BIP340PubKey`: the x-only encoding of a key. -/
abbrev BIP340PubKey := Bytes

/-- `bbntypes.BIP340Signature`. -/
abbrev BIP340Signature := Bytes

/-- `btcec.PrivateKey`. -/
structure PrivateKey where
  key : Bytes
  deriving DecidableEq, Repr

/-- `schnorr.Signature`. -/
structure Signature where
  bytes : Bytes
  deriving DecidableEq, Repr

/-- `asig.EncryptionKey`. -/
structure EncryptionKey where
  bytes : Bytes
  deriving DecidableEq, Repr

/-- `asig.AdaptorSignature`. -/
structure AdaptorSignature where
  bytes : Bytes
  deriving DecidableEq, Repr

structure OutPoint where
  hash : Hash
  index : UInt32
  deriving DecidableEq, Repr

structure TxIn where
  previousOutPoint : OutPoint
  signatureScript : Bytes
  witness : List Bytes
  sequence : UInt32
  deriving DecidableEq, Repr

structure TxOut where
  value : Int64
  pkScript : Bytes
  deriving DecidableEq, Repr

/-- `wire.MsgTx`. -/
structure MsgTx where
  version : Int32
  txIn : List TxIn
  txOut : List TxOut
  lockTime : UInt32
  deriving DecidableEq, Repr

/-- `bstypes.BTCSlashingTx`: a serialized slashing transaction. -/
structure BTCSlashingTx where
  bytes : Bytes
  deriving DecidableEq, Repr

/-- `btcutil.Address`, by its encoding. -/
structure Address where
  encoded : String
  deriving DecidableEq, Repr

/-- `sdkmath.LegacyDec`: an integer scaled by ten to the eighteenth. -/
structure LegacyDec where
  i : Int
  deriving DecidableEq, Repr

/-- `chaincfg.Params`: the networks a configuration can name, and the zero value. -/
inductive NetParams
  | zero
  | mainNet
  | testNet3
  | regressionNet
  | simNet
  | sigNet
  deriving DecidableEq, Repr

/-- `btcstaking.SpendInfo`: the leaf script that a script path spend reveals. -/
structure SpendInfo where
  controlBlock : Bytes
  revealedLeaf : Bytes
  deriving DecidableEq, Repr

def SpendInfo.getPkScriptPath (si : SpendInfo) : Bytes := si.revealedLeaf

/-- `btcstaking.StakingInfo`: the staking output and its unexported script tree. -/
structure StakingInfo where
  stakingOutput : TxOut
  scriptHolder : List Bytes
  deriving DecidableEq, Repr

/-- `btcstaking.UnbondingInfo`: the unbonding output and its unexported script tree. -/
structure UnbondingInfo where
  unbondingOutput : TxOut
  scriptHolder : List Bytes
  deriving DecidableEq, Repr

/-- The library functions that the emulator calls. -/
structure Lib where
  newBTCTxFromHex : String → Except GoError MsgTx
  newBTCSlashingTxFromHex : String → Except GoError BTCSlashingTx
  toMsgTx : BTCSlashingTx → Except GoError MsgTx
  toHexStr : BTCSlashingTx → String
  txHash : MsgTx → Hash
  /-- `chainhash.Hash.String`. -/
  hashString : Hash → String
  hashString_injective : ∀ {h h'}, hashString h = hashString h' → h = h'
  /-- Slashing tx, funding tx, funding output index, minimal fee, slashing rate,
  slashing address, staker key, lock time of the slashing change, network. -/
  checkTransactions : MsgTx → MsgTx → UInt32 → Int64 → LegacyDec → Address → PublicKey →
    UInt16 → NetParams → Except GoError Unit
  /-- Staker key, finality provider keys, covenant keys, covenant quorum, staking
  time, staking amount, network. -/
  buildStakingInfo : PublicKey → List PublicKey → List PublicKey → UInt32 → UInt16 → Int64 →
    NetParams → Except GoError StakingInfo
  /-- Arguments as for `buildStakingInfo`, with the unbonding time and amount. -/
  buildUnbondingInfo : PublicKey → List PublicKey → List PublicKey → UInt32 → UInt16 → Int64 →
    NetParams → Except GoError UnbondingInfo
  /-- `StakingInfo.SlashingPathSpendInfo`. -/
  stakingSlashingPathSpendInfo : StakingInfo → Except GoError SpendInfo
  /-- `StakingInfo.UnbondingPathSpendInfo`. -/
  stakingUnbondingPathSpendInfo : StakingInfo → Except GoError SpendInfo
  /-- `UnbondingInfo.SlashingPathSpendInfo`. -/
  unbondingSlashingPathSpendInfo : UnbondingInfo → Except GoError SpendInfo
  newEncryptionKeyFromBTCPK : PublicKey → Except GoError EncryptionKey
  /-- `BTCSlashingTx.EncSign`: slashing tx, funding tx, funding output index, script
  path, private key, encryption key. -/
  encSign : BTCSlashingTx → MsgTx → UInt32 → Bytes → PrivateKey → EncryptionKey →
    Except GoError AdaptorSignature
  mustMarshal : AdaptorSignature → Bytes
  /-- Tx to sign, funding tx, funding output index, script path, private key. -/
  signTxWithOneScriptSpendInputStrict : MsgTx → MsgTx → UInt32 → Bytes → PrivateKey →
    Except GoError Signature
  /-- `schnorr.SerializePubKey`. -/
  serializePubKey : PublicKey → Bytes
  newBIP340PubKeyFromBTCPK : PublicKey → BIP340PubKey
  /-- `BIP340PubKey.ToBTCPK`, and `MustToBTCPK` where an error is a panic. -/
  toBTCPK : BIP340PubKey → Except GoError PublicKey
  newBIP340SignatureFromBTCSig : Signature → BIP340Signature
  toBTCSig : BIP340Signature → Except GoError Signature
  privKeyFromBytes : Bytes → PrivateKey
  decodeAddress : String → NetParams → Except GoError Address

/-- The two encoders give the x-coordinate of a key, and decoding an x-only key gives
a point with that x-coordinate, of whatever parity. -/
structure Lib.KeyEncoding (lib : Lib) : Prop where
  serializePubKey_eq : ∀ pk, lib.serializePubKey pk = pk.x
  newBIP340PubKey_eq : ∀ pk, lib.newBIP340PubKeyFromBTCPK pk = pk.x
  toBTCPK_x : ∀ b pk, lib.toBTCPK b = .ok pk → pk.x = b

/-- A slashing transaction is written as the hexadecimal text of its bytes, and a parsed
signature serializes to the bytes it was parsed from. -/
structure Lib.RecordEncoding (lib : Lib) : Prop where
  toHexStr_eq : ∀ tx, lib.toHexStr tx = Hex.encodeToString tx.bytes
  toBTCSig_bytes : ∀ b sig, lib.toBTCSig b = .ok sig → lib.newBIP340SignatureFromBTCSig sig = b

/-- A slashing transaction read from hexadecimal text is the transaction that the general
decoder reads from the same text. -/
def Lib.DecodersAgree (lib : Lib) : Prop :=
  ∀ s tx msgTx, lib.newBTCSlashingTxFromHex s = .ok tx → lib.newBTCTxFromHex s = .ok msgTx →
    lib.toMsgTx tx = .ok msgTx

/-- `slashing` spends output `idx` of `funding` and nothing else, and its first output
pays at least the slashing share of that output to the slashing script.
`minSlashed` is the library's rounding of value times rate, `payTo` its
address-to-script encoding. -/
structure SpendsAndPays (lib : Lib) (payTo : Address → Bytes) (minSlashed : Int64 → LegacyDec → Int64)
    (slashing funding : MsgTx) (idx : UInt32) (rate : LegacyDec) (addr : Address) : Prop where
  spends : ∃ i, slashing.txIn = [i] ∧ i.previousOutPoint = ⟨lib.txHash funding, idx⟩
  pays : ∃ fundingOut slashingOut, funding.txOut[idx.toNat]? = some fundingOut ∧
    slashing.txOut[0]? = some slashingOut ∧ slashingOut.pkScript = payTo addr ∧
    minSlashed fundingOut.value rate ≤ slashingOut.value

/-- What `CheckTransactions` promises about the slashing transactions it accepts. -/
def Lib.CheckTransactionsSound (lib : Lib) (payTo : Address → Bytes)
    (minSlashed : Int64 → LegacyDec → Int64) : Prop :=
  ∀ slashing funding idx fee rate addr pk lock net,
    lib.checkTransactions slashing funding idx fee rate addr pk lock net = .ok () →
      SpendsAndPays lib payTo minSlashed slashing funding idx rate addr

end Covenant.Bitcoin
