import Covenant.Hex
import Covenant.Loop

/-! `BabylonController`, the client controller for Babylon: each call of the interface is
a program over the calls that the Babylon client makes. Chain records are converted on
the way in (`convertDelegationType`), signatures on the way out
(`submitCovenantSigs`). -/

namespace Covenant.Controller
open Outcome Interaction Bitcoin Covenant.Types Emulator Loop

/-! ## Records and messages of the chain -/

/-- Parameters of the module `btccheckpoint`. -/
structure BTCCheckpointParams where
  btcConfirmationDepth : UInt64
  checkpointFinalizationTimeout : UInt64
  deriving DecidableEq, Repr

/-- Parameters of the module `btcstaking`, as far as they are read. -/
structure BTCStakingParams where
  covenantPks : List BIP340PubKey
  covenantQuorum : UInt32
  slashingAddress : String
  minSlashingTxFeeSat : Int64
  minCommissionRate : LegacyDec
  slashingRate : LegacyDec
  minUnbondingTime : UInt32
  deriving DecidableEq, Repr

structure CovenantAdaptorSignatures where
  covPk : BIP340PubKey
  adaptorSigs : List Bytes
  deriving DecidableEq, Repr

structure SignatureInfo where
  pk : BIP340PubKey
  sig : BIP340Signature
  deriving DecidableEq, Repr

structure BTCUndelegation where
  unbondingTx : Option Bytes
  slashingTx : Option BTCSlashingTx
  delegatorUnbondingSig : Option BIP340Signature
  covenantSlashingSigs : List CovenantAdaptorSignatures
  covenantUnbondingSigList : List SignatureInfo
  deriving DecidableEq, Repr

structure BTCDelegation where
  btcPk : BIP340PubKey
  fpBtcPkList : List BIP340PubKey
  startHeight : UInt64
  endHeight : UInt64
  totalSat : UInt64
  stakingTx : Option Bytes
  stakingOutputIdx : UInt32
  slashingTx : Option BTCSlashingTx
  covenantSigs : List CovenantAdaptorSignatures
  unbondingTime : UInt32
  btcUndelegation : Option BTCUndelegation
  deriving DecidableEq, Repr

inductive BTCDelegationStatus
  | pending
  | active
  | unbonded
  | any
  deriving DecidableEq, Repr

/-- `sdkquery.PageRequest`, less the options that are never set. -/
structure PageRequest where
  key : Option Bytes
  limit : UInt64
  deriving DecidableEq, Repr

structure BTCDelegationsResponse where
  btcDelegations : Slice BTCDelegation
  nextKey : Option Bytes

structure MsgAddCovenantSigs where
  signer : String
  pk : BIP340PubKey
  stakingTxHash : String
  slashingTxSigs : List Bytes
  unbondingTxSig : BIP340Signature
  slashingUnbondingTxSigs : List Bytes
  deriving DecidableEq, Repr

/-- `provider.RelayerTxResponse`, as far as it is read. -/
structure RelayerTxResponse where
  txHash : String
  events : List RelayerEvent
  deriving DecidableEq, Repr

/-! ## The Babylon client -/

/-- The calls of `bbnclient.Client`, and the marker of `ClientCall`. -/
inductive RpcCall
  | btcCheckpointParams
  | btcStakingParams
  | btcDelegations (status : BTCDelegationStatus) (pagination : PageRequest)
  | reliablySendMsgs (msgs : List MsgAddCovenantSigs)
  | enter (params : Option StakingParams) (btcDels : List (Option Delegation))

abbrev RpcCall.Answer : RpcCall → Type
  | .btcCheckpointParams => Except GoError BTCCheckpointParams
  | .btcStakingParams => Except GoError BTCStakingParams
  | .btcDelegations _ _ => Except GoError BTCDelegationsResponse
  | .reliablySendMsgs _ => Except GoError RelayerTxResponse
  | .enter _ _ => Unit

abbrev bbnClient : Interface where
  Call := RpcCall
  Answer := RpcCall.Answer

abbrev Rpc (α : Type) := Prog bbnClient Halt α
abbrev RpcTrace := Trace bbnClient

/-- `BabylonController`. The key record of the client's keyring is kept by what
`GetAddress` makes of it, and the address encoding is the SDK's. -/
structure BabylonController where
  key : String
  accountPrefix : String
  btcParams : NetParams
  keyring : String → Except GoError (Except GoError Bytes)
  mustBech32ifyAddressBytes : String → Bytes → Except Halt String

def BabylonController.getKeyAddress (bc : BabylonController) : Except Halt Bytes :=
  match bc.keyring bc.key with
  | .error err => .error (.panic s!"Failed to get key address: {err}")
  | .ok (.error err) => .error (.panic s!"Failed to get key address: {err}")
  | .ok (.ok addr) => .ok addr

def BabylonController.mustGetTxSigner (bc : BabylonController) : Except Halt String := do
  let signer ← bc.getKeyAddress
  bc.mustBech32ifyAddressBytes bc.accountPrefix signer

/-! ## Parameters -/

/-- What `QueryStakingParams` makes of the two answers. -/
def stakingParamsOf (lib : Lib) (bc : BabylonController) (ckpt : BTCCheckpointParams)
    (staking : BTCStakingParams) : Except GoError StakingParams := do
  let covenantPks ← staking.covenantPks.mapM fun pk =>
    match lib.toBTCPK pk with
    | .ok covPk => .ok covPk
    | .error _ => .error "invalid covenant public key"
  let slashingAddress ← lib.decodeAddress staking.slashingAddress bc.btcParams
  return { comfirmationTimeBlocks := ckpt.btcConfirmationDepth
           finalizationTimeoutBlocks := ckpt.checkpointFinalizationTimeout
           minSlashingTxFeeSat := staking.minSlashingTxFeeSat
           covenantPks := covenantPks
           slashingAddress := slashingAddress
           covenantQuorum := staking.covenantQuorum
           slashingRate := staking.slashingRate
           minComissionRate := staking.minCommissionRate
           minUnbondingTime := staking.minUnbondingTime }

def queryStakingParams (lib : Lib) (bc : BabylonController) : Rpc (Except GoError StakingParams) := do
  match ← Prog.ask (I := bbnClient) .btcCheckpointParams with
  | .error err => return .error s!"failed to query params of the btccheckpoint module: {err}"
  | .ok ckpt =>
    match ← Prog.ask (I := bbnClient) .btcStakingParams with
    | .error err => return .error s!"failed to query staking params: {err}"
    | .ok staking => return stakingParamsOf lib bc ckpt staking

/-! ## Delegations -/

/-- A panic where the library returns an error. -/
def must {α : Type} : Except GoError α → Except Halt α
  | .ok a => .ok a
  | .error err => .error (.panic err)

def convertAdaptorSigs (lib : Lib) (sigs : List CovenantAdaptorSignatures) :
    Except Halt (List CovenantAdaptorSigInfo) :=
  sigs.mapM fun s => do
    let pk ← must (lib.toBTCPK s.covPk)
    return { pk := pk, sigs := s.adaptorSigs }

def convertUndelegationType (lib : Lib) (undel : BTCUndelegation) : Except Halt Undelegation := do
  match undel.unbondingTx, undel.slashingTx with
  | none, _ => .error (.panic "staking tx should not be empty in undelegation")
  | some _, none => .error (.panic "slashing tx should not be empty in undelegation")
  | some unbondingTx, some slashingTx =>
    let covenantUnbondingSigs ← undel.covenantUnbondingSigList.mapM fun unbondingSig => do
      let sig ← must (lib.toBTCSig unbondingSig.sig)
      let pk ← must (lib.toBTCPK unbondingSig.pk)
      return ({ pk := pk, sig := sig } : CovenantSchnorrSigInfo)
    let covenantSlashingSigs ← convertAdaptorSigs lib undel.covenantSlashingSigs
    return { unbondingTxHex := Hex.encodeToString unbondingTx
             slashingTxHex := lib.toHexStr slashingTx
             covenantSlashingSigs := covenantSlashingSigs
             covenantUnbondingSigs := covenantUnbondingSigs
             delegatorUnbondingSig := undel.delegatorUnbondingSig }

/-- The index of the staking output is not copied: it is left at its zero value. -/
def convertDelegationType (lib : Lib) (del : BTCDelegation) : Except Halt Delegation := do
  match del.stakingTx, del.slashingTx with
  | none, _ => .error (.panic "staking tx should not be empty in delegation")
  | some _, none => .error (.panic "slashing tx should not be empty in delegation")
  | some stakingTx, some slashingTx =>
    let covenantSigs ← convertAdaptorSigs lib del.covenantSigs
    let undelegation ← del.btcUndelegation.mapM (convertUndelegationType lib)
    let fpBtcPks ← del.fpBtcPkList.mapM fun fp => must (lib.toBTCPK fp)
    let btcPk ← must (lib.toBTCPK del.btcPk)
    return { btcPk := btcPk
             fpBtcPks := fpBtcPks
             startHeight := del.startHeight
             endHeight := del.endHeight
             totalSat := del.totalSat
             stakingTxHex := Hex.encodeToString stakingTx
             stakingOutputIdx := 0
             slashingTxHex := lib.toHexStr slashingTx
             unbondingTime := del.unbondingTime
             covenantSigs := covenantSigs
             btcUndelegation := undelegation }

/-- The records of a page, converted one by one. -/
def convertAll (lib : Lib) (dels : Slice BTCDelegation) : Except Halt (Slice (Option Delegation)) :=
  match h : dels.elems.mapM (convertDelegationType lib) with
  | .error x => .error x
  | .ok ds => .ok ⟨ds.map some, by
      rw [List.length_map, ← (mapM_eq_ok_iff.mp h).length_eq]
      exact dels.len_lt⟩

def queryDelegationsWithStatus (lib : Lib) (status : BTCDelegationStatus) (limit : UInt64) :
    Rpc (Except GoError (Slice (Option Delegation))) := do
  match ← Prog.ask (I := bbnClient) (.btcDelegations status ⟨none, limit⟩) with
  | .error err => return .error s!"failed to query BTC delegations: {err}"
  | .ok res =>
    let dels ← Prog.ofExcept (convertAll lib res.btcDelegations)
    return .ok dels

def queryPendingDelegations (lib : Lib) (limit : UInt64) :
    Rpc (Except GoError (Slice (Option Delegation))) :=
  queryDelegationsWithStatus lib .pending limit

def queryActiveDelegations (lib : Lib) (limit : UInt64) :
    Rpc (Except GoError (Slice (Option Delegation))) :=
  queryDelegationsWithStatus lib .active limit

/-! ## Submissions -/

def msgAddCovenantSigs (lib : Lib) (bc : BabylonController) (covSig : CovenantSigs) :
    Except Halt MsgAddCovenantSigs := do
  let bip340UnbondingSig := lib.newBIP340SignatureFromBTCSig covSig.unbondingSig
  let signer ← bc.mustGetTxSigner
  return { signer := signer
           pk := lib.newBIP340PubKeyFromBTCPK covSig.publicKey
           stakingTxHash := lib.hashString covSig.stakingTxHash
           slashingTxSigs := covSig.slashingSigs
           unbondingTxSig := bip340UnbondingSig
           slashingUnbondingTxSigs := covSig.slashingUnbondingSigs }

def submitCovenantSigs (lib : Lib) (bc : BabylonController) (covSigs : List CovenantSigs) :
    Rpc (Except GoError TxResponse) := do
  let msgs ← Prog.ofExcept (covSigs.mapM (msgAddCovenantSigs lib bc))
  match ← Prog.ask (I := bbnClient) (.reliablySendMsgs msgs) with
  | .error err => return .error err
  | .ok res => return .ok { txHash := res.txHash, events := res.events }

/-- The client controller over the Babylon client. -/
def babylonController (lib : Lib) (bc : BabylonController) : (c : ClientCall) → Rpc c.Answer
  | .queryStakingParams => queryStakingParams lib bc
  | .queryPendingDelegations limit => queryPendingDelegations lib limit
  | .submitCovenantSigs covSigs => submitCovenantSigs lib bc covSigs
  | .enter params btcDels => Prog.ask (I := bbnClient) (.enter params btcDels)

/-- A tick of a member, down to the calls of the Babylon client. -/
def memberTick (lib : Lib) (bc : BabylonController) (ce : CovenantEmulator) : Rpc CovenantEmulator :=
  (tick lib ce).interp (babylonController lib bc)

/-! ## Runs of the calls -/

variable {lib : Lib} {bc : BabylonController}

theorem steps_queryStakingParams {t : RpcTrace}
    {q : Rpc (Except GoError StakingParams)} (h : Prog.Steps (queryStakingParams lib bc) t q) :
    (t = [] ∧ ∀ r, q ≠ .ret r) ∨
      (∃ err err', t = [⟨.btcCheckpointParams, .error err⟩] ∧ q = .ret (.error err')) ∨
      ∃ ckpt, (t = [⟨.btcCheckpointParams, .ok ckpt⟩] ∧ ∀ r, q ≠ .ret r) ∨
        (∃ err err', t = [⟨.btcCheckpointParams, .ok ckpt⟩, ⟨.btcStakingParams, .error err⟩] ∧
          q = .ret (.error err')) ∨
        ∃ staking, t = [⟨.btcCheckpointParams, .ok ckpt⟩, ⟨.btcStakingParams, .ok staking⟩] ∧
          q = .ret (stakingParamsOf lib bc ckpt staking) := by
  rcases Prog.steps_call h with ⟨rfl, rfl⟩ | ⟨a, u, rfl, hu⟩
  · exact Or.inl ⟨rfl, fun r hr => nomatch hr⟩
  · right
    cases a with
    | error err =>
      obtain ⟨rfl, rfl⟩ := Prog.steps_ret hu
      exact Or.inl ⟨err, _, rfl, rfl⟩
    | ok ckpt =>
      refine Or.inr ⟨ckpt, ?_⟩
      rcases Prog.steps_call hu with ⟨rfl, rfl⟩ | ⟨a, v, rfl, hv⟩
      · exact Or.inl ⟨rfl, fun r hr => nomatch hr⟩
      · right
        cases a with
        | error err =>
          obtain ⟨rfl, rfl⟩ := Prog.steps_ret hv
          exact Or.inl ⟨err, _, rfl, rfl⟩
        | ok staking =>
          obtain ⟨rfl, rfl⟩ := Prog.steps_ret hv
          exact Or.inr ⟨staking, rfl, rfl⟩

theorem steps_queryDelegationsWithStatus {status : BTCDelegationStatus} {limit : UInt64}
    {t : RpcTrace} {q : Rpc (Except GoError (Slice (Option Delegation)))}
    (h : Prog.Steps (queryDelegationsWithStatus lib status limit) t q) :
    (t = [] ∧ ∀ r, q ≠ .ret r) ∨
      (∃ err err', t = [⟨.btcDelegations status ⟨none, limit⟩, .error err⟩] ∧
        q = .ret (.error err')) ∨
      ∃ res, t = [⟨.btcDelegations status ⟨none, limit⟩, .ok res⟩] ∧
        ((∃ x, convertAll lib res.btcDelegations = .error x ∧ q = .halt x) ∨
          ∃ dels, convertAll lib res.btcDelegations = .ok dels ∧ q = .ret (.ok dels)) := by
  rcases Prog.steps_call h with ⟨rfl, rfl⟩ | ⟨a, u, rfl, hu⟩
  · exact Or.inl ⟨rfl, fun r hr => nomatch hr⟩
  · right
    cases a with
    | error err =>
      obtain ⟨rfl, rfl⟩ := Prog.steps_ret hu
      exact Or.inl ⟨err, _, rfl, rfl⟩
    | ok res =>
      simp only [Prog.ret_bind] at hu
      refine Or.inr ⟨res, ?_⟩
      cases hc : convertAll lib res.btcDelegations with
      | error x =>
        rw [hc] at hu
        obtain ⟨rfl, rfl⟩ := Prog.steps_halt hu
        exact ⟨rfl, Or.inl ⟨x, rfl, rfl⟩⟩
      | ok dels =>
        rw [hc] at hu
        obtain ⟨rfl, rfl⟩ := Prog.steps_ret hu
        exact ⟨rfl, Or.inr ⟨dels, rfl, rfl⟩⟩

theorem steps_submitCovenantSigs {covSigs : List CovenantSigs}
    {t : RpcTrace} {q : Rpc (Except GoError TxResponse)}
    (h : Prog.Steps (submitCovenantSigs lib bc covSigs) t q) :
    (t = [] ∧ ∀ r, q ≠ .ret r) ∨
      ∃ msgs res r, covSigs.mapM (msgAddCovenantSigs lib bc) = .ok msgs ∧
        t = [⟨.reliablySendMsgs msgs, res⟩] ∧ q = .ret r := by
  unfold submitCovenantSigs at h
  cases hm : covSigs.mapM (msgAddCovenantSigs lib bc) with
  | error x =>
    rw [hm] at h
    obtain ⟨rfl, rfl⟩ := Prog.steps_halt h
    exact Or.inl ⟨rfl, fun r hr => nomatch hr⟩
  | ok msgs =>
    rw [hm] at h
    rcases Prog.steps_call h with ⟨rfl, rfl⟩ | ⟨a, u, rfl, hu⟩
    · exact Or.inl ⟨rfl, fun r hr => nomatch hr⟩
    · right
      cases a with
      | error err =>
        obtain ⟨rfl, rfl⟩ := Prog.steps_ret hu
        exact ⟨msgs, _, _, rfl, rfl, rfl⟩
      | ok res =>
        obtain ⟨rfl, rfl⟩ := Prog.steps_ret hu
        exact ⟨msgs, _, _, rfl, rfl, rfl⟩

/-- The calls of the Babylon client that a call of the interface is made of. -/
def Issues : ClientCall → RpcCall → Prop
  | .queryStakingParams, .btcCheckpointParams => True
  | .queryStakingParams, .btcStakingParams => True
  | .queryPendingDelegations _, .btcDelegations _ _ => True
  | .submitCovenantSigs _, .reliablySendMsgs _ => True
  | .enter params btcDels, c => c = .enter params btcDels
  | _, _ => False

theorem issues_of_mem {c : ClientCall} {u : RpcTrace}
    {r : Rpc c.Answer} (h : Prog.Steps (babylonController lib bc c) u r) {e : Event bbnClient}
    (he : e ∈ u) : Issues c e.call := by
  cases c with
  | queryStakingParams =>
    rcases steps_queryStakingParams h with ⟨rfl, _⟩ | ⟨_, _, rfl, _⟩ | ⟨_, ⟨rfl, _⟩ | ⟨_, _, rfl, _⟩ |
      ⟨_, rfl, _⟩⟩
    all_goals
      simp only [List.mem_cons, List.not_mem_nil, or_false] at he
    · rw [he]
      trivial
    · rw [he]
      trivial
    · rcases he with rfl | rfl <;> trivial
    · rcases he with rfl | rfl <;> trivial
  | queryPendingDelegations limit =>
    rcases steps_queryDelegationsWithStatus h with ⟨rfl, _⟩ | ⟨_, _, rfl, _⟩ | ⟨_, rfl, _⟩
    · cases he
    · rw [List.mem_singleton.mp he]
      trivial
    · rw [List.mem_singleton.mp he]
      trivial
  | submitCovenantSigs covSigs =>
    rcases steps_submitCovenantSigs h with ⟨rfl, _⟩ | ⟨_, _, _, _, rfl, _⟩
    · cases he
    · rw [List.mem_singleton.mp he]
      trivial
  | enter params btcDels =>
    rcases Prog.steps_call h with ⟨rfl, _⟩ | ⟨_, v, rfl, hv⟩
    · cases he
    · obtain ⟨rfl, _⟩ := Prog.steps_ret hv
      rw [List.mem_singleton.mp he]
      rfl

theorem convertAll_of_mapM {dels : Slice BTCDelegation} {ds : List Delegation}
    (h : dels.elems.mapM (convertDelegationType lib) = .ok ds) :
    ∃ hlen, convertAll lib dels = .ok ⟨ds.map some, hlen⟩ := by
  unfold convertAll
  split
  · rename_i x hx
    rw [hx] at h
    cases h
  · rename_i ds' hds
    rw [hds] at h
    cases h
    have hlen : (ds.map some).length < 2 ^ 63 := by
      rw [List.length_map, ← (mapM_eq_ok_iff.mp hds).length_eq]
      exact dels.len_lt
    exact ⟨hlen, rfl⟩

theorem steps_of_convertAll {status : BTCDelegationStatus} {limit : UInt64}
    {res : BTCDelegationsResponse} {dels : Slice (Option Delegation)}
    (h : convertAll lib res.btcDelegations = .ok dels) :
    Prog.Steps (queryDelegationsWithStatus lib status limit)
      [⟨.btcDelegations status ⟨none, limit⟩, .ok res⟩] (.ret (.ok dels)) := by
  refine .call (I := bbnClient) (c := .btcDelegations status ⟨none, limit⟩) (.ok res) ?_
  simp only [Prog.ret_bind, h]
  exact .refl _

theorem steps_of_msgs {covSigs : List CovenantSigs}
    {msgs : List MsgAddCovenantSigs} (h : covSigs.mapM (msgAddCovenantSigs lib bc) = .ok msgs)
    (err : GoError) :
    Prog.Steps (submitCovenantSigs lib bc covSigs) [⟨.reliablySendMsgs msgs, .error err⟩]
      (.ret (.error err)) := by
  unfold submitCovenantSigs
  rw [h]
  exact .call (I := bbnClient) (c := .reliablySendMsgs msgs) (.error err) (.refl _)

end Covenant.Controller
