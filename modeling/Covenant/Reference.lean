import Mathlib.Algebra.Group.Int.Defs
import Covenant.Hex
import Covenant.Loop

/-! A small concrete library, for inputs on which the results can be tried. Its decoder
knows a few transactions in their wire format, its checker and signers test what
these spend and pay, and its builders lay out the leaf scripts, so the hypotheses
made about libraries hold of it (`sampleLib_keyEncoding`, `sampleLib_recordEncoding`,
`sampleLib_decodersAgree`, `sampleLib_checkTransactionsSound`). Signatures are stand-ins.
`acceptedWith` builds delegations that the emulator signs. -/

namespace Covenant.Reference
open Outcome Interaction Bitcoin Covenant.Types Emulator Signing Loop

/-! ## Scripts and transactions -/

def key (k : UInt8) : PublicKey := ⟨List.replicate 32 k, false⟩

/-- `n` bytes, least significant first. -/
def littleEndian : Nat → Nat → Bytes
  | 0, _ => []
  | n + 1, v => UInt8.ofNat v :: littleEndian n (v / 256)

/-- The wire format of a transaction without witnesses and with short scripts. -/
def serialize (tx : MsgTx) : Bytes :=
  littleEndian 4 tx.version.toUInt32.toNat ++ UInt8.ofNat tx.txIn.length :: tx.txIn.flatMap (fun i =>
    i.previousOutPoint.hash.bytes ++ littleEndian 4 i.previousOutPoint.index.toNat ++
      UInt8.ofNat i.signatureScript.length :: i.signatureScript ++ littleEndian 4 i.sequence.toNat) ++
  UInt8.ofNat tx.txOut.length :: tx.txOut.flatMap (fun o =>
    littleEndian 8 o.value.toUInt64.toNat ++ UInt8.ofNat o.pkScript.length :: o.pkScript) ++
  littleEndian 4 tx.lockTime.toNat

def txHex (tx : MsgTx) : String := Hex.encodeToString (serialize tx)

def timeLockLeaf (staker : PublicKey) (time : UInt16) : Bytes :=
  0x20 :: staker.x ++ 0xad :: littleEndian 2 time.toNat ++ [0xb2]

def multiSig (keys : List PublicKey) (quorum : UInt32) : Bytes :=
  keys.flatMap (fun k => 0x20 :: k.x ++ [0xba]) ++ [UInt8.ofNat quorum.toNat, 0x9c]

def unbondingLeaf (staker : PublicKey) (covenantPks : List PublicKey) (quorum : UInt32) : Bytes :=
  0x20 :: staker.x ++ 0xad :: multiSig covenantPks quorum

def slashingLeaf (staker : PublicKey) (fpPks covenantPks : List PublicKey) (quorum : UInt32) :
    Bytes :=
  0x20 :: staker.x ++ 0xad :: multiSig fpPks 1 ++ multiSig covenantPks quorum

/-- A taproot output script, with the sum of the leaves in the place of the tweaked key. -/
def taproot (leaves : List Bytes) : Bytes :=
  0x51 :: 0x20 :: List.replicate 32 (leaves.flatten.foldl (· + ·) 0)

def stakingHash : Hash where
  bytes := [115, 44, 188, 4, 78, 4, 36, 210, 115, 238, 151, 142, 172, 111, 79, 196, 153, 128, 76, 157,
    255, 188, 85, 219, 195, 182, 161, 215, 143, 164, 153, 56]
  size := rfl

def unbondingHash : Hash where
  bytes := [142, 114, 95, 41, 84, 254, 196, 158, 235, 120, 250, 111, 187, 115, 129, 115, 13, 239, 185,
    50, 232, 14, 141, 140, 72, 95, 195, 240, 220, 1, 126, 96]
  size := rfl

def earlyHash : Hash where
  bytes := [85, 19, 154, 183, 102, 167, 28, 183, 86, 109, 199, 88, 123, 19, 5, 147, 197, 46, 249, 98,
    47, 57, 76, 79, 216, 106, 248, 77, 81, 125, 95, 197]
  size := rfl

def otherHash : Hash where
  bytes := List.replicate 32 0x11
  size := rfl

def spend (hash : Hash) (outs : List TxOut) : MsgTx where
  version := 2
  txIn := [⟨⟨hash, 0⟩, [], [], 0xffffffff⟩]
  txOut := outs
  lockTime := 0

def slashingAddress : Address := ⟨"sb1qq5zs2pg9q5zs2pg9q5zs2pg9q5zs2pg96uwr7h"⟩

def payTo (addr : Address) : Bytes :=
  if addr = slashingAddress then 0x00 :: 0x14 :: List.replicate 20 5 else []

def minSlashed (value : Int64) (rate : LegacyDec) : Int64 :=
  Int64.ofInt (value.toInt * rate.i / 10 ^ 18)

def covenantPks : List PublicKey := [key 1, key 2, key 9]

def stakingTx : MsgTx :=
  spend otherHash [⟨200000000, taproot [timeLockLeaf (key 7) 5, unbondingLeaf (key 7) covenantPks 2,
    slashingLeaf (key 7) [key 8] covenantPks 2]⟩]

def slashingTx : MsgTx :=
  spend stakingHash [⟨20000000, payTo slashingAddress⟩, ⟨179999000, taproot [timeLockLeaf (key 7) 101]⟩]

def unbondingTx : MsgTx :=
  spend stakingHash [⟨199999000, taproot [timeLockLeaf (key 7) 101,
    slashingLeaf (key 7) [key 8] covenantPks 2]⟩]

def unbondingSlashingTx : MsgTx :=
  spend unbondingHash [⟨19999900, payTo slashingAddress⟩,
    ⟨179998100, taproot [timeLockLeaf (key 7) 101]⟩]

/-- Pays the stake to the staker's own key, without a time lock. -/
def earlyUnbondingTx : MsgTx := spend stakingHash [⟨199999000, 0x51 :: 0x20 :: (key 7).x⟩]

def earlySlashingTx : MsgTx :=
  spend earlyHash [⟨19999900, payTo slashingAddress⟩, ⟨179998100, taproot [timeLockLeaf (key 7) 101]⟩]

def knownTxs : List MsgTx :=
  [stakingTx, slashingTx, unbondingTx, unbondingSlashingTx, earlyUnbondingTx, earlySlashingTx]

/-! ## The library -/

def txHash (tx : MsgTx) : Hash :=
  if tx = stakingTx then stakingHash
  else if tx = unbondingTx then unbondingHash
  else if tx = earlyUnbondingTx then earlyHash
  else otherHash

def decodeTx (bytes : Bytes) : Except GoError MsgTx :=
  match knownTxs.find? (fun tx => serialize tx == bytes) with
  | some tx => .ok tx
  | none => .error "unexpected EOF"

def spendsOnly (tx funding : MsgTx) (idx : UInt32) : Bool :=
  tx.txIn.map (·.previousOutPoint) == [⟨txHash funding, idx⟩]

def checkTransactions (slashing funding : MsgTx) (idx : UInt32) (fee : Int64) (rate : LegacyDec)
    (addr : Address) (staker : PublicKey) (lock : UInt16) : Except GoError Unit :=
  match funding.txOut[idx.toNat]?, slashing.txOut with
  | some out, [slashed, change] =>
    if 0 < fee ∧ spendsOnly slashing funding idx ∧ slashed.pkScript = payTo addr ∧
        minSlashed out.value rate ≤ slashed.value ∧
        change.pkScript = taproot [timeLockLeaf staker lock] ∧
        slashed.value + change.value + fee ≤ out.value then .ok ()
    else .error "invalid slashing tx"
  | _, _ => .error "invalid slashing tx"

def leafInfo (holder : List Bytes) (i : Nat) : Except GoError SpendInfo :=
  match holder[i]? with
  | some leaf => .ok ⟨[0xc0], leaf⟩
  | none => .error "script not found"

def hexBytes (s : String) : Except GoError Bytes :=
  match Hex.decodeString s with
  | some bytes => .ok bytes
  | none => .error "invalid hex"

/-- The bytes in reverse order, in hexadecimal. -/
def hashString (hash : Hash) : String := Hex.encodeToString hash.bytes.reverse

theorem hashString_injective {h h' : Hash} (heq : hashString h = hashString h') : h = h' := by
  have hbytes := List.reverse_injective (Hex.encodeToString_injective heq)
  cases h
  cases h'
  cases hbytes
  rfl

def sampleLib : Lib where
  newBTCTxFromHex s := hexBytes s >>= decodeTx
  newBTCSlashingTxFromHex s := BTCSlashingTx.mk <$> hexBytes s
  toMsgTx tx := decodeTx tx.bytes
  toHexStr tx := Hex.encodeToString tx.bytes
  txHash := txHash
  hashString := hashString
  hashString_injective := hashString_injective
  checkTransactions slashing funding idx fee rate addr staker lock _ :=
    checkTransactions slashing funding idx fee rate addr staker lock
  buildStakingInfo staker fps covs quorum time amount _ :=
    let leaves := [timeLockLeaf staker time, unbondingLeaf staker covs quorum,
      slashingLeaf staker fps covs quorum]
    .ok ⟨⟨amount, taproot leaves⟩, leaves⟩
  buildUnbondingInfo staker fps covs quorum time amount _ :=
    let leaves := [timeLockLeaf staker time, slashingLeaf staker fps covs quorum]
    .ok ⟨⟨amount, taproot leaves⟩, leaves⟩
  stakingSlashingPathSpendInfo info := leafInfo info.scriptHolder 2
  stakingUnbondingPathSpendInfo info := leafInfo info.scriptHolder 1
  unbondingSlashingPathSpendInfo info := leafInfo info.scriptHolder 1
  newEncryptionKeyFromBTCPK pk := .ok ⟨pk.x⟩
  encSign tx funding idx path sk encKey := do
    let msgTx ← decodeTx tx.bytes
    if spendsOnly msgTx funding idx then return ⟨sk.key ++ encKey.bytes ++ path⟩
    else .error "invalid tx"
  mustMarshal sig := sig.bytes
  signTxWithOneScriptSpendInputStrict tx funding idx path sk :=
    if spendsOnly tx funding idx then .ok ⟨sk.key ++ path⟩ else .error "invalid tx"
  serializePubKey pk := pk.x
  newBIP340PubKeyFromBTCPK pk := pk.x
  toBTCPK x := .ok ⟨x, false⟩
  newBIP340SignatureFromBTCSig sig := sig.bytes
  toBTCSig bytes := .ok ⟨bytes⟩
  privKeyFromBytes bytes := ⟨bytes⟩
  decodeAddress s _ := .ok ⟨s⟩

theorem sampleLib_keyEncoding : sampleLib.KeyEncoding where
  serializePubKey_eq _ := rfl
  newBIP340PubKey_eq _ := rfl
  toBTCPK_x b pk h := by
    cases h
    rfl

theorem sampleLib_recordEncoding : sampleLib.RecordEncoding where
  toHexStr_eq _ := rfl
  toBTCSig_bytes b sig h := by
    cases h
    rfl

theorem sampleLib_decodersAgree : sampleLib.DecodersAgree := by
  intro s tx msgTx htx hmsg
  change BTCSlashingTx.mk <$> hexBytes s = .ok tx at htx
  change hexBytes s >>= decodeTx = .ok msgTx at hmsg
  cases hb : hexBytes s with
  | error err =>
    rw [hb] at htx
    cases htx
  | ok bytes =>
    rw [hb] at htx hmsg
    cases htx
    exact hmsg

theorem spendsOnly_iff (tx funding : MsgTx) (idx : UInt32) :
    spendsOnly tx funding idx = true ↔
      ∃ i, tx.txIn = [i] ∧ i.previousOutPoint = ⟨txHash funding, idx⟩ := by
  rw [spendsOnly, beq_iff_eq, List.map_eq_singleton_iff]

/-- The checker accepts only slashing transactions that spend the funding output and pay
the slashing script its share. -/
theorem sampleLib_checkTransactionsSound : sampleLib.CheckTransactionsSound payTo minSlashed := by
  intro slashing funding idx fee rate addr staker lock net h
  change checkTransactions slashing funding idx fee rate addr staker lock = .ok () at h
  unfold checkTransactions at h
  split at h
  · rename_i out slashed change hout houts
    split at h
    · rename_i hc
      obtain ⟨_, hspends, hscript, hmin, _, _⟩ := hc
      exact ⟨(spendsOnly_iff slashing funding idx).mp hspends,
        out, slashed, hout, by rw [houts]; rfl, hscript, hmin⟩
    · cases h
  · cases h

/-! ## Delegations that the emulator signs -/

def sampleParams : StakingParams where
  comfirmationTimeBlocks := 10
  finalizationTimeoutBlocks := 100
  minSlashingTxFeeSat := 1
  covenantPks := covenantPks
  slashingAddress := slashingAddress
  covenantQuorum := 2
  slashingRate := ⟨10 ^ 17⟩
  minComissionRate := ⟨0⟩
  minUnbondingTime := 100

def emulatorWith (pk : PublicKey) (params : StakingParams) : CovenantEmulator where
  pk := pk
  kc := ⟨fun _ _ => .ok ⟨some (.secp256k1 [42])⟩, "covenant-key"⟩
  config := ⟨"debug", 15000000000, 100, 20, "simnet", .simNet⟩
  params := some params
  passphrase := ""

/-- A delegation to the finality providers `fps`, with the unbonding transaction `utx`, slashed
by `ustx`. -/
def delegationWith (fps : List PublicKey) (utx ustx : MsgTx) : Delegation where
  btcPk := key 7
  fpBtcPks := fps
  startHeight := 100
  endHeight := 105
  totalSat := 200000000
  stakingTxHex := txHex stakingTx
  stakingOutputIdx := 0
  slashingTxHex := txHex slashingTx
  unbondingTime := 101
  covenantSigs := []
  btcUndelegation := some ⟨txHex utx, txHex ustx, [], [], none⟩

theorem hexBytes_txHex (tx : MsgTx) : hexBytes (txHex tx) = .ok (serialize tx) := by
  rw [hexBytes, txHex, Hex.decodeString_encodeToString]

theorem decodeTx_serialize (tx : MsgTx) (h : tx ∈ knownTxs) : decodeTx (serialize tx) = .ok tx := by
  revert tx
  decide +kernel

theorem stakingTx_known : stakingTx ∈ knownTxs := by
  decide +kernel

theorem slashingTx_known : slashingTx ∈ knownTxs := by
  decide +kernel

theorem newBTCTxFromHex_txHex (tx : MsgTx) (h : tx ∈ knownTxs) :
    sampleLib.newBTCTxFromHex (txHex tx) = .ok tx := by
  show hexBytes (txHex tx) >>= decodeTx = _
  rw [hexBytes_txHex]
  exact decodeTx_serialize tx h

theorem txHash_stakingTx : sampleLib.txHash stakingTx = stakingHash := by
  decide +kernel

theorem newBTCSlashingTxFromHex_txHex (tx : MsgTx) :
    sampleLib.newBTCSlashingTxFromHex (txHex tx) = .ok ⟨serialize tx⟩ := by
  show BTCSlashingTx.mk <$> hexBytes (txHex tx) = _
  rw [hexBytes_txHex]
  rfl

theorem toMsgTx_serialize (tx : MsgTx) (h : tx ∈ knownTxs) :
    sampleLib.toMsgTx ⟨serialize tx⟩ = .ok tx :=
  decodeTx_serialize tx h

theorem encSign_sample (tx funding : MsgTx) (path : Bytes) (sk : PrivateKey) (encKey : EncryptionKey)
    (h : tx ∈ knownTxs) (hs : spendsOnly tx funding 0 = true) :
    sampleLib.encSign ⟨serialize tx⟩ funding 0 path sk encKey =
      .ok ⟨sk.key ++ encKey.bytes ++ path⟩ := by
  simp [sampleLib, decodeTx_serialize tx h, hs, bind, Except.bind, pure, Except.pure]

theorem encSignEach_sample (tx funding : MsgTx) (path : Bytes) (sk : PrivateKey)
    (h : tx ∈ knownTxs) (hs : spendsOnly tx funding 0 = true) (fps : List PublicKey) :
    encSignEach sampleLib ⟨serialize tx⟩ funding 0 path sk fps =
      .ok (fps.map fun fp => sk.key ++ fp.x ++ path) := by
  rw [encSignEach, mapM_eq_ok_iff]
  induction fps with
  | nil => exact .nil
  | cons fp fps ih =>
    refine .cons ?_ ih
    have hk : sampleLib.newEncryptionKeyFromBTCPK fp = .ok ⟨fp.x⟩ := rfl
    rw [hk, orReturn]
    simp only [bind, Except.bind, encSign_sample tx funding path sk ⟨fp.x⟩ h hs, orReturn]
    rfl

/-- What the emulator decodes, builds and signs for such a delegation. -/
def checkedWith (params : StakingParams) (fps : List PublicKey) (utx ustx : MsgTx) (value : Int64) : Checked where
  stakingMsgTx := stakingTx
  slashingTx := ⟨serialize slashingTx⟩
  slashingMsgTx := slashingTx
  unbondingSlashingMsgTx := ustx
  unbondingMsgTx := utx
  unbondingInfo :=
    let leaves := [timeLockLeaf (key 7) 101,
      slashingLeaf (key 7) fps params.covenantPks params.covenantQuorum]
    ⟨⟨value, taproot leaves⟩, leaves⟩

def signedWith (params : StakingParams) (fps : List PublicKey) (ustx : MsgTx) : Signed :=
  let unbonding := unbondingLeaf (key 7) params.covenantPks params.covenantQuorum
  let slashing := slashingLeaf (key 7) fps params.covenantPks params.covenantQuorum
  let leaves := [timeLockLeaf (key 7) 5, unbonding, slashing]
  { covenantPrivKey := ⟨[42]⟩
    stakingTime := 5
    stakingInfo := ⟨⟨200000000, taproot leaves⟩, leaves⟩
    slashingPathInfo := ⟨[0xc0], slashing⟩
    covSigs := fps.map fun fp => [42] ++ fp.x ++ slashing
    stakingTxUnbondingPathInfo := ⟨[0xc0], unbonding⟩
    covenantUnbondingSignature := ⟨[42] ++ unbonding⟩
    slashUnbondingTx := ⟨serialize ustx⟩
    unbondingTxSlashingPath := ⟨[0xc0], slashing⟩
    covSlashingSigs := fps.map fun fp => [42] ++ fp.x ++ slashing }

/-- The parameters ask of the sample transactions what `sampleParams` does. -/
structure LikeSample (params : StakingParams) : Prop where
  minUnbondingTime : params.minUnbondingTime = 100
  fee : params.minSlashingTxFeeSat = 1
  rate : params.slashingRate = ⟨10 ^ 17⟩
  address : params.slashingAddress = slashingAddress
  quorum : 0 < params.covenantQuorum

/-- A pair of unbonding transactions that the sample library accepts. -/
structure UnbondingPair (utx ustx : MsgTx) : Prop where
  known : utx ∈ knownTxs ∧ ustx ∈ knownTxs
  spends : spendsOnly utx stakingTx 0 = true ∧ spendsOnly ustx utx 0 = true
  checked : sampleLib.checkTransactions ustx utx 0 1 ⟨10 ^ 17⟩ slashingAddress (key 7)
    (101 : UInt32).toUInt16 .simNet = .ok ()
  output : ∃ script, utx.txOut = [⟨199999000, script⟩]

theorem honestPair : UnbondingPair unbondingTx unbondingSlashingTx where
  known := by decide +kernel
  spends := by decide +kernel
  checked := by decide +kernel
  output := ⟨_, rfl⟩

theorem earlyPair : UnbondingPair earlyUnbondingTx earlySlashingTx where
  known := by decide +kernel
  spends := by decide +kernel
  checked := by decide +kernel
  output := ⟨_, rfl⟩

theorem slashing_checked_sample :
    sampleLib.checkTransactions slashingTx stakingTx 0 1 ⟨10 ^ 17⟩ slashingAddress (key 7)
      (101 : UInt32).toUInt16 .simNet = .ok () := by
  decide +kernel

theorem stakingTime_sample (fps : List PublicKey) (utx ustx : MsgTx) :
    (delegationWith fps utx ustx).getStakingTime = .ok 5 := by
  show (if (105 : UInt64) - 100 > 65535 then .error (.panic "invalid delegation in database")
    else .ok ((105 : UInt64) - 100).toUInt16) = (.ok 5 : Go UInt16)
  decide

theorem noQuorum_sample (params : StakingParams) (hp : LikeSample params) (fps : List PublicKey)
    (utx ustx : MsgTx) : (delegationWith fps utx ustx).hasCovenantQuorum params.covenantQuorum = .ok false := by
  have hq : ¬ UInt32.ofNat 0 ≥ params.covenantQuorum := UInt32.not_le.mpr hp.quorum
  rw [Delegation.hasCovenantQuorum_eq rfl]
  simp only [delegationWith, List.length_nil, hq, decide_false, Bool.false_and]

def acceptedWith (pk : PublicKey) (params : StakingParams) (fps : List PublicKey) (utx ustx : MsgTx)
    (hp : LikeSample params) (hu : UnbondingPair utx ustx) :
    Accepted sampleLib (emulatorWith pk params) (some (delegationWith fps utx ustx)) where
  del := delegationWith fps utx ustx
  undelegation := ⟨txHex utx, txHex ustx, [], [], none⟩
  params := params
  checked := checkedWith params fps utx ustx 199999000
  signed := signedWith params fps ustx
  del_eq := rfl
  undelegation_eq := rfl
  params_eq := rfl
  no_quorum := noQuorum_sample params hp fps utx ustx
  checks := {
    unbondingTime_gt := by rw [hp.minUnbondingTime]; show (100 : UInt32) < 101; decide
    staking_parses := newBTCTxFromHex_txHex stakingTx stakingTx_known
    slashing_parses := newBTCSlashingTxFromHex_txHex slashingTx
    slashing_decodes := toMsgTx_serialize slashingTx slashingTx_known
    slashing_checked := by rw [hp.fee, hp.rate, hp.address]; exact slashing_checked_sample
    unbondingSlashing_parses := newBTCTxFromHex_txHex ustx hu.known.2
    unbonding_parses := newBTCTxFromHex_txHex utx hu.known.1
    unbondingInfo_built := by
      obtain ⟨script, h⟩ := hu.output
      exact ⟨⟨199999000, script⟩, by simp [checkedWith, h], rfl⟩
    unbondingSlashing_checked := by rw [hp.fee, hp.rate, hp.address]; exact hu.checked }
  signing := {
    privKey := rfl
    stakingTime_eq := stakingTime_sample fps utx ustx
    stakingInfo_built := rfl
    slashingPath := rfl
    slashing_signed :=
      encSignEach_sample slashingTx stakingTx _ _ slashingTx_known (by decide +kernel) _
    unbondingPath := rfl
    unbonding_signed := if_pos hu.spends.1
    slashUnbonding_parses := newBTCSlashingTxFromHex_txHex ustx
    unbondingSlashingPath := rfl
    unbondingSlashing_signed := encSignEach_sample ustx utx _ _ hu.known.2 hu.spends.2 _ }

/-- The signatures of the member with key `pk` on the honest transactions. -/
def sigsWith (pk : PublicKey) (params : StakingParams) : CovenantSigs :=
  (signedWith params [key 8] unbondingSlashingTx).sigs sampleLib (emulatorWith pk params)
    (checkedWith params [key 8] unbondingTx unbondingSlashingTx 199999000)

theorem likeSample : LikeSample sampleParams := ⟨rfl, rfl, rfl, rfl, by decide⟩

def sampleEmulator : CovenantEmulator := emulatorWith (key 1) sampleParams

def sampleDelegation : Delegation := delegationWith [key 8] unbondingTx unbondingSlashingTx

def sampleAccepted : Accepted sampleLib sampleEmulator (some sampleDelegation) :=
  acceptedWith (key 1) sampleParams _ _ _ likeSample honestPair

end Covenant.Reference
