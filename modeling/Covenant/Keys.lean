import Covenant.Emulator
import Covenant.Stateful
import Mathlib.Logic.Function.Basic

/-! The package `keyring` and the two functions that the commands call on it:
`CreateCovenantKey`, which adds a key, and `NewCovenantEmulator`, which finds one. What
the SDK's keyring does is a parameter (`Sdk`); what is relied on is that a keyring holds
nothing but the accounts that were added to it, and that both libraries compute the same
public key (`Sdk.Lawful`). -/

namespace Covenant.Keys
open Outcome Bitcoin Covenant.Types Emulator

/-- Keyrings of the SDK, mnemonics, and public keys in both libraries. A keyring reads a
passphrase from its input. -/
structure Sdk where
  Location : Type
  Keyring : Type
  decEq : DecidableEq Location
  empty : Keyring
  /-- `keyring.New`, with the name of the application, the backend and the directory. A
  keyring in memory has no location. -/
  new : String → String → String → Except GoError (Option Location)
  /-- `NewSigningAlgoFromString` for secp256k1. -/
  signingAlgo : Except GoError Unit
  newMnemonic : Bytes → Except GoError String
  /-- The input, the name, the mnemonic, its passphrase and the path. -/
  newAccount : Keyring → String → String → String → String → String →
    Except GoError (KeyRecord × Keyring)
  /-- The input and the name. -/
  key : Keyring → String → String → Except GoError KeyRecord
  /-- `PrivKey.PubKey().Bytes()` of the SDK. -/
  pubKeyBytes : Bytes → Bytes
  parsePubKey : Bytes → Except GoError PublicKey
  /-- The public key of `btcec.PrivKeyFromBytes`. -/
  pubKeyFromBytes : Bytes → PublicKey

instance (sdk : Sdk) : DecidableEq sdk.Location := sdk.decEq

structure Sdk.Lawful (sdk : Sdk) : Prop where
  key_empty : ∀ input name record, sdk.key sdk.empty input name ≠ .ok record
  /-- Adding an account adds nothing else. -/
  key_newAccount : ∀ kr input name mnemonic passphrase hdPath record kr',
    sdk.newAccount kr input name mnemonic passphrase hdPath = .ok (record, kr') →
    ∀ input' name' record', sdk.key kr' input' name' = .ok record' →
      record' = record ∨ sdk.key kr input' name' = .ok record'
  /-- The account is found with the passphrase that was put in twice. -/
  key_created : ∀ kr name mnemonic passphrase hdPath record kr',
    sdk.newAccount kr (passphrase ++ "\n" ++ passphrase) name mnemonic passphrase hdPath =
      .ok (record, kr') → sdk.key kr' passphrase name = .ok record
  parse_pubKey : ∀ key, sdk.parsePubKey (sdk.pubKeyBytes key) = .ok (sdk.pubKeyFromBytes key)

/-- What `CreateClientCtx` asks of the system. -/
structure HomeDir where
  userHomeDir : Except GoError String
  join : String → String → String

/-- `client.Context`, as far as it is used. -/
structure ClientContext where
  chainID : String
  keyringDir : String

def createClientCtx (os : HomeDir) (keyringDir chainId : String) : Go ClientContext :=
  if keyringDir = "" then do
    let homeDir ← orReturn os.userHomeDir
    return ⟨chainId, os.join homeDir ".covenant-emulator"⟩
  else return ⟨chainId, keyringDir⟩

variable {sdk : Sdk}

/-! ## Keyrings -/

abbrev Keyrings (sdk : Sdk) := sdk.Location → sdk.Keyring

/-- The content of a keyring that has been opened. -/
def Keyrings.at (ks : Keyrings sdk) : Option sdk.Location → sdk.Keyring
  | none => sdk.empty
  | some loc => ks loc

/-- A keyring in memory is lost. -/
def Keyrings.put (ks : Keyrings sdk) (kr : sdk.Keyring) : Option sdk.Location → Keyrings sdk
  | none => ks
  | some loc => Function.update ks loc kr

@[simp] theorem Keyrings.at_put_self (ks : Keyrings sdk) (kr : sdk.Keyring) (loc : sdk.Location) :
    (ks.put kr (some loc)).at (some loc) = kr :=
  Function.update_self ..

/-- Every other keyring is left alone. -/
theorem Keyrings.at_put (ks : Keyrings sdk) (kr : sdk.Keyring) (loc loc' : Option sdk.Location) :
    (∃ l, loc = some l ∧ loc' = some l) ∨ (ks.put kr loc).at loc' = ks.at loc' := by
  cases loc with
  | none => exact Or.inr rfl
  | some l =>
    cases loc' with
    | none => exact Or.inr rfl
    | some l' =>
      by_cases heq : l' = l
      · exact Or.inl ⟨l, rfl, congrArg some heq⟩
      · exact Or.inr (Function.update_of_ne heq ..)

def createKeyring (sdk : Sdk) (os : HomeDir) (keyringDir chainId backend : String) :
    Go (Option sdk.Location) := do
  let ctx ← createClientCtx os keyringDir chainId
  rejectIf (backend = "") "the keyring backend should not be empty"
  orWrap "failed to create keyring" (sdk.new ctx.chainID backend ctx.keyringDir)

def newChainKeyringController (sdk : Sdk) (ctx : ClientContext) (name keyringBackend : String) :
    Go (Option sdk.Location) := do
  rejectIf (name = "") "the key name should not be empty"
  rejectIf (keyringBackend = "") "the keyring backend should not be empty"
  orWrap "failed to create keyring" (sdk.new ctx.chainID keyringBackend ctx.keyringDir)

def newChainKeyringControllerWithKeyring (kr : sdk.Keyring) (name : String) :
    Go ChainKeyringController := do
  rejectIf (name = "") "the key name should not be empty"
  return { key := sdk.key kr, fpName := name }

/-! ## Creating a key -/

structure ChainKeyInfo where
  name : String
  mnemonic : String
  publicKey : PublicKey
  privateKey : PrivateKey

/-- What is made of the record of a new account. -/
def chainKeyInfo (lib : Lib) (sdk : Sdk) (fpName mnemonic : String) (record : KeyRecord) :
    Go ChainKeyInfo := do
  match ← deref record.getLocal with
  | .secp256k1 key =>
    return { name := fpName, mnemonic := mnemonic, publicKey := sdk.pubKeyFromBytes key
             privateKey := lib.privKeyFromBytes key }
  | .other => .error (.error "unsupported key type in keyring")

/-- The mnemonic of a new key. The entropy is what `bip39.NewEntropy` returned. -/
def mnemonicOf (sdk : Sdk) (entropy : Except GoError Bytes) : Go String := do
  orReturn sdk.signingAlgo
  let entropySeed ← orReturn entropy
  orReturn (sdk.newMnemonic entropySeed)

/-- `kr.NewAccount`. The passphrase is put in twice, and is also that of the mnemonic. -/
def newAccount (fpName mnemonic passphrase hdPath : String) : Cmd sdk.Keyring KeyRecord := fun kr =>
  match sdk.newAccount kr (passphrase ++ "\n" ++ passphrase) fpName mnemonic passphrase hdPath with
  | .error err => (.error (.error err), kr)
  | .ok (record, kr) => (.ok record, kr)

def createChainKey (lib : Lib) (fpName passphrase hdPath : String) (entropy : Except GoError Bytes) :
    Cmd sdk.Keyring ChainKeyInfo := do
  let mnemonic ← Cmd.lift (mnemonicOf sdk entropy)
  let record ← newAccount fpName mnemonic passphrase hdPath
  Cmd.lift (chainKeyInfo lib sdk fpName mnemonic record)

def createCovenantKey (lib : Lib) (os : HomeDir)
    (keyringDir chainID keyName backend passphrase hdPath : String) (entropy : Except GoError Bytes) :
    Cmd (Keyrings sdk) ChainKeyInfo := do
  let sdkCtx ← Cmd.lift (createClientCtx os keyringDir chainID)
  let loc ← Cmd.lift (newChainKeyringController sdk sdkCtx keyName backend)
  Cmd.on (Keyrings.at · loc) (fun kr ks => ks.put kr loc)
    (createChainKey lib keyName passphrase hdPath entropy)

/-! ## Finding a key -/

/-- The options of `NewCovenantEmulator` in the group of the Babylon client. -/
structure KeyOptions where
  key : String
  keyDirectory : String
  chainID : String
  keyringBackend : String

def newCovenantEmulator (os : HomeDir) (ks : Keyrings sdk) (config : Config) (opts : KeyOptions)
    (passphrase : String) : Go CovenantEmulator := do
  let loc ← wrapError "failed to create keyring"
    (createKeyring sdk os opts.keyDirectory opts.chainID opts.keyringBackend)
  let kc ← newChainKeyringControllerWithKeyring (ks.at loc) opts.key
  let sk ← wrapError s!"covenant key {opts.key} is not found" (kc.getChainPrivKey passphrase)
  let pk ← orReturn (sdk.parsePubKey (sdk.pubKeyBytes sk))
  return { pk, kc, config, params := none, passphrase }

/-! ## What the two functions do -/

/-- A record that holds the private key `key`. -/
abbrev localKey (key : Bytes) : KeyRecord := ⟨some (.secp256k1 key)⟩

theorem getChainPrivKey_eq_ok_iff {kc : ChainKeyringController} {passphrase : String} {key : Bytes} :
    kc.getChainPrivKey passphrase = .ok key ↔ kc.key passphrase kc.fpName = .ok (localKey key) := by
  unfold ChainKeyringController.getChainPrivKey
  simp only [bind_eq_ok_iff, orWrap_eq_ok, deref_eq_ok]
  constructor
  · rintro ⟨record, hrecord, cached, hcached, h⟩
    cases cached with
    | secp256k1 key' =>
      cases h
      rw [hrecord]
      exact congrArg Except.ok (congrArg KeyRecord.mk hcached)
    | other => cases h
  · intro h
    exact ⟨_, h, _, rfl, rfl⟩

theorem chainKeyInfo_eq_ok_iff {lib : Lib} {fpName mnemonic : String} {record : KeyRecord}
    {info : ChainKeyInfo} : chainKeyInfo lib sdk fpName mnemonic record = .ok info ↔
      ∃ key, record = localKey key ∧
        info = ⟨fpName, mnemonic, sdk.pubKeyFromBytes key, lib.privKeyFromBytes key⟩ := by
  unfold chainKeyInfo
  simp only [bind_eq_ok_iff, deref_eq_ok]
  constructor
  · rintro ⟨cached, hcached, h⟩
    cases cached with
    | secp256k1 key =>
      cases h
      exact ⟨key, congrArg KeyRecord.mk hcached, rfl⟩
    | other => cases h
  · rintro ⟨key, rfl, rfl⟩
    exact ⟨_, rfl, rfl⟩

/-- The emulator that is built around the key `key`, found in the keyring `kr`. -/
def emulatorOf (kr : sdk.Keyring) (config : Config) (opts : KeyOptions) (passphrase : String)
    (key : Bytes) : CovenantEmulator where
  pk := sdk.pubKeyFromBytes key
  kc := { key := sdk.key kr, fpName := opts.key }
  config := config
  params := none
  passphrase := passphrase

theorem newCovenantEmulator_eq_ok_iff (hlaw : sdk.Lawful) {os : HomeDir} {ks : Keyrings sdk}
    {config : Config} {opts : KeyOptions} {passphrase : String} {ce : CovenantEmulator} :
    newCovenantEmulator os ks config opts passphrase = .ok ce ↔
      ∃ loc key, createKeyring sdk os opts.keyDirectory opts.chainID opts.keyringBackend = .ok loc ∧
        opts.key ≠ "" ∧ sdk.key (ks.at loc) passphrase opts.key = .ok (localKey key) ∧
        ce = emulatorOf (ks.at loc) config opts passphrase key := by
  unfold newCovenantEmulator newChainKeyringControllerWithKeyring
  simp only [bind_eq_ok_iff, wrapError_eq_ok, rejectIf_eq_ok, orReturn_eq_ok,
    getChainPrivKey_eq_ok_iff]
  constructor
  · rintro ⟨loc, hloc, kc, ⟨_, hname, hkc⟩, key, hkey, pk, hpk, hce⟩
    cases hkc
    rw [hlaw.parse_pubKey] at hpk
    cases hpk
    cases hce
    exact ⟨loc, key, hloc, hname, hkey, rfl⟩
  · rintro ⟨loc, key, hloc, hname, hkey, rfl⟩
    exact ⟨loc, hloc, _, ⟨(), hname, rfl⟩, key, hkey, _, hlaw.parse_pubKey key, rfl⟩

/-- Every private key in the keyring is that of a public key with `P`. -/
def Holds (P : PublicKey → Prop) (kr : sdk.Keyring) : Prop :=
  ∀ input name key, sdk.key kr input name = .ok (localKey key) → P (sdk.pubKeyFromBytes key)

/-- The same of every keyring. -/
def Known (P : PublicKey → Prop) (ks : Keyrings sdk) : Prop := ∀ loc, Holds P (ks loc)

theorem Known.at (hlaw : sdk.Lawful) {P : PublicKey → Prop} {ks : Keyrings sdk}
    (h : Known P ks) (loc : Option sdk.Location) : Holds P (ks.at loc) := by
  cases loc with
  | none =>
    intro input name key hkey
    exact absurd hkey (hlaw.key_empty input name _)
  | some loc => exact h loc

theorem Known.put {P Q : PublicKey → Prop} {ks : Keyrings sdk} (h : Known P ks)
    (hPQ : ∀ pk, P pk → Q pk) {kr : sdk.Keyring} (hkr : Holds Q kr) (loc : Option sdk.Location) :
    Known Q (ks.put kr loc) := by
  have hold : Known Q ks := fun loc input name key hkey => hPQ _ (h loc input name key hkey)
  cases loc with
  | none => exact hold
  | some loc =>
    intro loc'
    show Holds Q (Function.update ks loc kr loc')
    by_cases heq : loc' = loc
    · subst heq
      rw [Function.update_self]
      exact hkr
    · rw [Function.update_of_ne heq]
      exact hold loc'

/-- An account adds its own record. -/
theorem newAccount_holds (hlaw : sdk.Lawful) {P : PublicKey → Prop}
    (fpName mnemonic passphrase hdPath : String) :
    Cmd.Triple (Holds P : sdk.Keyring → Prop) (newAccount fpName mnemonic passphrase hdPath)
      (fun record => Holds fun pk => P pk ∨ ∃ key, record = localKey key ∧ pk = sdk.pubKeyFromBytes key)
      (Holds P) := by
  intro kr hkr
  unfold newAccount
  cases ha : sdk.newAccount kr (passphrase ++ "\n" ++ passphrase) fpName mnemonic passphrase hdPath with
  | error err =>
    constructor
    · intro a s' heq
      cases heq
    · intro e s' heq
      cases heq
      exact hkr
  | ok r =>
    constructor
    · intro record kr' heq input name key hkey
      cases heq
      rcases hlaw.key_newAccount _ _ _ _ _ _ _ _ ha input name _ hkey with hrec | hold
      · exact Or.inr ⟨key, hrec.symm, rfl⟩
      · exact Or.inl (hkr input name key hold)
    · intro e s' heq
      cases heq

theorem createChainKey_holds (hlaw : sdk.Lawful) {P : PublicKey → Prop} (lib : Lib)
    (fpName passphrase hdPath : String) (entropy : Except GoError Bytes) :
    Cmd.Triple (Holds P : sdk.Keyring → Prop) (createChainKey lib fpName passphrase hdPath entropy)
      (fun info => Holds fun pk => P pk ∨ pk = info.publicKey) (Holds P) := by
  unfold createChainKey
  refine .bind (.lift (Q := fun _ => Holds P) (fun _ _ _ hkr => hkr) fun _ _ _ hkr => hkr) ?_
  intro mnemonic
  refine .bind (newAccount_holds hlaw fpName mnemonic passphrase hdPath) ?_
  intro record
  refine .lift ?_ ?_
  · intro info kr hinfo hkr input name key hkey
    obtain ⟨key', rfl, rfl⟩ := chainKeyInfo_eq_ok_iff.mp hinfo
    rcases hkr input name key hkey with hold | ⟨key'', heq, hpk⟩
    · exact Or.inl hold
    · cases heq
      exact Or.inr hpk
  · intro e kr herr hkr input name key hkey
    rcases hkr input name key hkey with hold | ⟨key', rfl, _⟩
    · exact hold
    · rw [chainKeyInfo_eq_ok_iff.mpr ⟨key', rfl, rfl⟩] at herr
      cases herr

/-- **Creating a key** adds nothing to the keyrings but the key that is returned. -/
theorem createCovenantKey_known (hlaw : sdk.Lawful) {P : PublicKey → Prop} (lib : Lib)
    (os : HomeDir) (keyringDir chainID keyName backend passphrase hdPath : String)
    (entropy : Except GoError Bytes) :
    Cmd.Triple (Known P : Keyrings sdk → Prop)
      (createCovenantKey lib os keyringDir chainID keyName backend passphrase hdPath entropy)
      (fun info => Known fun pk => P pk ∨ pk = info.publicKey) (Known P) := by
  unfold createCovenantKey
  refine .bind (.lift (Q := fun _ => Known P) (fun _ _ _ hks => hks) fun _ _ _ hks => hks) ?_
  intro ctx
  refine .bind (.lift (Q := fun _ => Known P) (fun _ _ _ hks => hks) fun _ _ _ hks => hks) ?_
  intro loc
  refine (createChainKey_holds hlaw lib keyName passphrase hdPath entropy).on
    (fun ks hks => hks.at hlaw loc) ?_ ?_
  · intro ks info kr hks hkr
    exact hks.put (fun _ => Or.inl) hkr loc
  · intro ks kr hks hkr
    exact hks.put (fun _ h => h) hkr loc

/-- A key that has been created: where it is, and the account that holds it. -/
structure Created (lib : Lib) (os : HomeDir) (keyringDir chainID keyName backend passphrase : String)
    (ks ks' : Keyrings sdk) (loc : Option sdk.Location) (info : ChainKeyInfo) : Prop where
  located : createKeyring sdk os keyringDir chainID backend = .ok loc
  named : keyName ≠ ""
  stored : ∃ key kr, sdk.key kr passphrase keyName = .ok (localKey key) ∧ ks' = ks.put kr loc ∧
    info.publicKey = sdk.pubKeyFromBytes key

/-- **A key that is created** is found under its name with its passphrase. -/
theorem createCovenantKey_ok (hlaw : sdk.Lawful) {lib : Lib} {os : HomeDir}
    {keyringDir chainID keyName backend passphrase hdPath : String} {entropy : Except GoError Bytes}
    {ks ks' : Keyrings sdk} {info : ChainKeyInfo}
    (h : createCovenantKey lib os keyringDir chainID keyName backend passphrase hdPath entropy ks =
      (.ok info, ks')) :
    ∃ loc, Created lib os keyringDir chainID keyName backend passphrase ks ks' loc info := by
  obtain ⟨ctx, _, hctx, h₁⟩ := Cmd.bind_ok_iff.mp h
  obtain ⟨hctx', rfl⟩ := Cmd.lift_ok_iff.mp hctx
  obtain ⟨loc, _, hloc, h₂⟩ := Cmd.bind_ok_iff.mp h₁
  obtain ⟨hloc', rfl⟩ := Cmd.lift_ok_iff.mp hloc
  obtain ⟨kr, h₃, rfl⟩ := Cmd.on_ok_iff.mp h₂
  obtain ⟨mnemonic, _, _, h₄⟩ := Cmd.bind_ok_iff.mp h₃
  obtain ⟨record, _, hnew, h₅⟩ := Cmd.bind_ok_iff.mp h₄
  obtain ⟨hinfo, rfl⟩ := Cmd.lift_ok_iff.mp h₅
  obtain ⟨key, rfl, rfl⟩ := chainKeyInfo_eq_ok_iff.mp hinfo
  simp only [newChainKeyringController, bind_eq_ok_iff, rejectIf_eq_ok, orWrap_eq_ok] at hloc'
  obtain ⟨_, hname, _, hbackend, hnew'⟩ := hloc'
  refine ⟨loc, ?_, hname, key, kr, ?_, rfl, rfl⟩
  · simp only [createKeyring, bind_eq_ok_iff, rejectIf_eq_ok, orWrap_eq_ok]
    exact ⟨ctx, hctx', (), hbackend, hnew'⟩
  · unfold newAccount at hnew
    split at hnew
    · cases hnew
    · rename_i ha
      cases hnew
      exact hlaw.key_created _ _ _ _ _ _ _ ha

end Covenant.Keys
