import Covenant.Agreement
import Covenant.Commands
import Covenant.Provenance
import Covenant.Survival

/-! Sessions at the command line: any sequence of `init`, `create-key` and `start`, with any
flags, whether they succeed or fail. Whatever daemon comes up in a session that began with
empty keyrings, every message it ever sends is signed with a key whose public key
`create-key` has printed (`signs_with_printed_key`). The first start after `init` and
`create-key` finds the key exactly when both commands looked for the same keyring
(`first_start_iff`). -/

namespace Covenant.Session
open Outcome Interaction Reactor Bitcoin Covenant.Types Emulator Controller Covenant.Configuration Keys
  Commands Chain Member Committee Agreement Survival Reference Ticks

variable {os : Os} {sdk : Sdk} {lib : Lib}

/-! ## Sessions -/

inductive Command
  | init (home : String) (force : Bool)
  | createKey (flags : KeyFlags) (entropy : Except GoError Bytes)
  | start (home passphrase : String)

/-- The world after a command, however it ended. -/
def runCommand (lib : Lib) (w : World os sdk) : Command → World os sdk
  | .init home force => (initHome home force w).2
  | .createKey flags entropy => (createKey lib flags entropy w).2
  | .start home passphrase => (start home passphrase w).2

def session (lib : Lib) (w : World os sdk) (cs : List Command) : World os sdk :=
  cs.foldl (runCommand lib) w

/-- The public key has been printed, under some name. -/
def Printed (lib : Lib) (stdout : List CovenantKey) (pk : PublicKey) : Prop :=
  ∃ line ∈ stdout, line.publicKey = Hex.encodeToString (lib.newBIP340PubKeyFromBTCPK pk)

/-- Every key that is held has been printed. -/
def AllPrinted (lib : Lib) (w : World os sdk) : Prop := Known (Printed lib w.stdout) w.keyrings

/-! ## One command -/

/-- What has been printed is `out`, and so have been all keys. -/
def PrintedIn (lib : Lib) (out : List CovenantKey) (w : World os sdk) : Prop :=
  w.stdout = out ∧ Known (Printed lib out) w.keyrings

section
variable {out : List CovenantKey} {α : Type}

theorem keeps_onFiles (x : Cmd os.Files α) :
    Cmd.Triple (PrintedIn lib out : World os sdk → Prop) (onFiles x) (fun _ => PrintedIn lib out)
      (PrintedIn lib out) :=
  .frame fun _ _ h => h

theorem keeps_initHome (home : String) (force : Bool) :
    Cmd.Triple (PrintedIn lib out : World os sdk → Prop) (initHome home force)
      (fun _ => PrintedIn lib out) (PrintedIn lib out) :=
  .bind (.lift_self _) fun _ => .bind (.read_self _) fun _ => .bind (.lift_self _) fun _ =>
    .bind (keeps_onFiles _) fun _ => .bind (keeps_onFiles _) fun _ => .bind (.lift_self _) fun _ =>
      keeps_onFiles _

theorem keeps_start (home passphrase : String) :
    Cmd.Triple (PrintedIn lib out : World os sdk → Prop) (start home passphrase)
      (fun _ => PrintedIn lib out) (PrintedIn lib out) :=
  .bind (.lift_self _) fun _ => .bind (.read_self _) fun _ => .bind (.lift_self _) fun _ =>
    .bind (.wrap (keeps_onFiles _)) fun _ => .bind (.lift_self _) fun _ => .bind (.read_self _) fun _ =>
      .bind (.lift_self _) fun _ => .bind (.lift_self _) fun _ => .pure fun _ h => h

end

theorem allPrinted_of_printedIn {out : List CovenantKey} {w : World os sdk} (h : PrintedIn lib out w) :
    AllPrinted lib w := by
  obtain ⟨rfl, hknown⟩ := h
  exact hknown

/-- The key is printed once it is in the keyring, before the configuration is written. -/
theorem keeps_createKey (hlaw : sdk.Lawful) (flags : KeyFlags) (entropy : Except GoError Bytes)
    (out : List CovenantKey) :
    Cmd.Triple (PrintedIn lib out : World os sdk → Prop) (createKey lib flags entropy)
      (fun _ => AllPrinted lib) (AllPrinted lib) := by
  have hlift : ∀ {α : Type} (x : Go α), Cmd.Triple (PrintedIn lib out : World os sdk → Prop)
      (Cmd.lift x) (fun _ => PrintedIn lib out) (AllPrinted lib) := fun x =>
    .lift (fun _ _ _ h => h) fun _ _ _ h => allPrinted_of_printedIn h
  refine .bind (.read fun _ h => h) fun _ => .bind (hlift _) fun _ => ?_
  refine .bind (R := fun info w => w.stdout = out ∧
    Known (fun pk => Printed lib out pk ∨ pk = info.publicKey) w.keyrings) (.wrap ?_) fun info => ?_
  · refine (createCovenantKey_known (P := Printed lib out) hlaw lib os.toHomeDir flags.home
      flags.chainID flags.keyName flags.keyringBackend flags.passphrase flags.hdPath entropy).on ?_ ?_ ?_
    · intro w hw
      exact hw.2
    · intro w info ks hw hks
      exact ⟨hw.1, hks⟩
    · intro w ks hw hks
      exact allPrinted_of_printedIn ⟨hw.1, hks⟩
  · refine .bind (R := fun _ => AllPrinted lib) (.modify ?_) fun _ => .frame fun _ _ h => h
    rintro w ⟨rfl, hknown⟩ loc input name key hkey
    rcases hknown loc input name key hkey with ⟨line, hline, hpk⟩ | hpk
    · exact ⟨line, List.mem_append_left _ hline, hpk⟩
    · refine ⟨_, List.mem_append_right _ (List.mem_singleton_self _), ?_⟩
      rw [hpk]

/-! ## Any number of commands -/

theorem allPrinted_runCommand (hlaw : sdk.Lawful) {w : World os sdk} (h : AllPrinted lib w)
    (c : Command) : AllPrinted lib (runCommand lib w c) := by
  have hin : PrintedIn lib w.stdout w := ⟨rfl, h⟩
  cases c with
  | init home force => exact allPrinted_of_printedIn ((keeps_initHome home force).after hin)
  | createKey flags entropy => exact (keeps_createKey hlaw flags entropy w.stdout).after hin
  | start home passphrase => exact allPrinted_of_printedIn ((keeps_start home passphrase).after hin)

/-- What every command keeps, a session keeps. -/
theorem session_keeps {P : World os sdk → Prop} (hP : ∀ w c, P w → P (runCommand lib w c))
    {w : World os sdk} (h : P w) (cs : List Command) : P (session lib w cs) := by
  induction cs generalizing w with
  | nil => exact h
  | cons c cs ih => exact ih (hP w c h)

theorem allPrinted_session (hlaw : sdk.Lawful) {w : World os sdk} (h : AllPrinted lib w)
    (cs : List Command) : AllPrinted lib (session lib w cs) :=
  session_keeps (P := AllPrinted lib) (fun _ c hw => allPrinted_runCommand hlaw hw c) h cs

/-! ## The daemon -/

/-- What `start` went through before the daemon `d` was there. -/
structure Starts (w : World os sdk) (homePath passphrase : String) (cfg : FileConfig) (d : Daemon)
    (files : os.Files) : Prop where
  loaded : loadConfig os w.files homePath = .ok cfg
  logging : newRootLoggerWithFile os (logFile os homePath) cfg.config.logLevel w.files =
    (.ok d.logger, files)
  connected : newBabylonController os cfg.babylonConfig cfg.config.btcNetParams = .ok d.controller
  built : newCovenantEmulator os.toHomeDir w.keyrings cfg.config (keyOptions cfg.babylonConfig)
    passphrase = .ok d.emulator
  intercepted : os.intercept = .ok ()

theorem start_ok_iff {w w' : World os sdk} {home passphrase : String} {d : Daemon} :
    start home passphrase w = (.ok d, w') ↔ ∃ path cfg files, os.abs home = .ok path ∧
      Starts w (cleanAndExpandPath os path) passphrase cfg d files ∧ w' = { w with files := files } := by
  simp only [start, onFiles, Cmd.bind_ok_iff, Cmd.lift_ok_iff, Cmd.read_ok_iff, Cmd.wrap_ok_iff,
    Cmd.on_ok_iff, orReturn_eq_ok, wrapError_eq_ok]
  constructor
  · rintro ⟨path, _, ⟨hpath, rfl⟩, files, _, ⟨rfl, rfl⟩, cfg, _, ⟨hcfg, rfl⟩, logger, _,
      ⟨files', hlog, rfl⟩, bbnClient, _, ⟨hclient, rfl⟩, keyrings, _, ⟨rfl, rfl⟩, ce, _, ⟨hce, rfl⟩,
      _, _, ⟨hint, rfl⟩, hd⟩
    cases hd
    exact ⟨path, cfg, files', hpath, ⟨hcfg, hlog, hclient, hce, hint⟩, rfl⟩
  · rintro ⟨path, cfg, files', hpath, ⟨hcfg, hlog, hclient, hce, hint⟩, rfl⟩
    exact ⟨path, _, ⟨hpath, rfl⟩, _, _, ⟨rfl, rfl⟩, cfg, _, ⟨hcfg, rfl⟩, _, _, ⟨files', hlog, rfl⟩,
      _, _, ⟨hclient, rfl⟩, _, _, ⟨rfl, rfl⟩, _, _, ⟨hce, rfl⟩, _, _, ⟨hint, rfl⟩, rfl⟩

/-- What a daemon signs, it signs with the private key it was built around. -/
theorem privKey_of_submission {ι : Type} [DecidableEq ι] {bc : ι → BabylonController}
    {ce₀ : ι → CovenantEmulator} {c₀ c : Ledger lib} {ls : Log ι}
    {ph : ι → Phase bbnClient Halt CovenantEmulator} {i : ι}
    (h : CommitteeRun lib bc ce₀ c₀ ls ph c) (s : Submission lib (bc i) (System.actions i ls)) :
    (ce₀ i).getPrivKey lib = .ok s.accepted.signed.covenantPrivKey := by
  obtain ⟨as, bs, has⟩ := s.in_round
  have htick : .tick s.emulator ∈ System.actions i ls := by simp [has]
  have hce := withParams_of_run (h.actions i) htick s.params
  have hsame : s.emulator.getPrivKey lib = (ce₀ i).getPrivKey lib := by
    change (Runs.withParams s.emulator s.params).getPrivKey lib = _
    rw [hce]
    rfl
  rw [← hsame]
  exact s.accepted.signing.privKey

/-- The submission is signed with the key of a keyring, and the public key has been printed. -/
def SignedWithPrinted (sdk : Sdk) (stdout : List CovenantKey) {b : BabylonController}
    {as : List (Action bbnClient CovenantEmulator)} (s : Submission lib b as) : Prop :=
  ∃ key, s.accepted.signed.covenantPrivKey = lib.privKeyFromBytes key ∧
    s.message.pk = lib.newBIP340PubKeyFromBTCPK (sdk.pubKeyFromBytes key) ∧
    ∃ line ∈ stdout, line.publicKey = Hex.encodeToString s.message.pk

/-- **Signed with a printed key.** Whatever the started daemon sends, it has signed with a key
that an earlier `create-key` has printed. -/
theorem signs_with_printed_key (os : Os) (sdk : Sdk) (lib : Lib) (hlaw : sdk.Lawful)
    (henc : lib.KeyEncoding) (w₀ : World os sdk) (hempty : Known (fun _ => False) w₀.keyrings)
    (cs : List Command) (home passphrase : String) (d : Daemon) (w : World os sdk)
    (hstart : start home passphrase (session lib w₀ cs) = (.ok d, w)) {ι : Type} [DecidableEq ι]
    (bc : ι → BabylonController) (ce₀ : ι → CovenantEmulator) (c₀ : Ledger lib) (ls : Log ι)
    (ph : ι → Phase bbnClient Halt CovenantEmulator) (c : Ledger lib)
    (h : CommitteeRun lib bc ce₀ c₀ ls ph c) (i : ι) (hi : ce₀ i = d.emulator) :
    (∀ as bs msgs answer, System.actions i ls = as ++ .event ⟨.reliablySendMsgs msgs, answer⟩ :: bs →
      ∀ m ∈ msgs, ∃ s : Submission lib (bc i) (System.actions i ls), s.message = m) ∧
    ∀ s : Submission lib (bc i) (System.actions i ls),
      SignedWithPrinted sdk (session lib w₀ cs).stdout s := by
  constructor
  · intro as bs msgs answer heq m hm
    have hrun := h.actions i
    rw [heq] at hrun ⊢
    obtain ⟨s, hs, _⟩ := exists_submission hrun hm
    exact ⟨s, hs⟩
  intro s
  have hall : AllPrinted lib (session lib w₀ cs) :=
    allPrinted_session hlaw (fun loc input name key hkey => (hempty loc input name key hkey).elim) cs
  obtain ⟨_, cfg, _, _, hstarts, _⟩ := start_ok_iff.mp hstart
  obtain ⟨loc, key, _, _, hkey, hce⟩ := (newCovenantEmulator_eq_ok_iff hlaw).mp hstarts.built
  have hpriv : d.emulator.getPrivKey lib = .ok (lib.privKeyFromBytes key) := by
    have hsk : d.emulator.kc.getChainPrivKey d.emulator.passphrase = .ok key := by
      rw [hce]
      exact getChainPrivKey_eq_ok_iff.mpr hkey
    exact bind_eq_ok_iff.mpr ⟨key, hsk, rfl⟩
  have hpk : s.message.pk = lib.newBIP340PubKeyFromBTCPK (sdk.pubKeyFromBytes key) := by
    rw [Provenance.submission_pk henc h s, hi, hce, henc.newBIP340PubKey_eq]
    rfl
  refine ⟨key, ?_, hpk, ?_⟩
  · have hsigned := privKey_of_submission h s
    rw [hi, hpriv] at hsigned
    exact (Except.ok.inj hsigned).symm
  · rw [hpk]
    exact hall.at hlaw loc passphrase _ key hkey

/-- Keyrings that hold at most one account. -/
def sampleSdk : Sdk where
  Location := List String
  Keyring := Option KeyRecord
  decEq := inferInstance
  empty := none
  new app backend dir :=
    .ok (if backend = "memory" then none
      else some (if backend = "os" then [backend, app] else [backend, dir]))
  signingAlgo := .ok ()
  newMnemonic _ := .ok "zoo zoo zoo zoo zoo zoo zoo zoo zoo zoo zoo wrong"
  newAccount
    | none, _, _, _, _, _ => .ok (localKey [42], some (localKey [42]))
    | some _, _, _, _, _, _ => .error "public key already exists in keybase"
  key
    | none => fun _ name => .error s!"{name}.info: key not found"
    | some record => fun _ _ => .ok record
  pubKeyBytes bytes := bytes
  parsePubKey _ := .ok (memberKey true)
  pubKeyFromBytes _ := memberKey true

theorem lawful_sampleSdk : sampleSdk.Lawful where
  key_empty _ _ _ h := by cases h
  key_newAccount kr _ _ _ _ _ record kr' h := by
    cases kr with
    | none =>
      cases h
      intro _ _ record' h'
      cases h'
      exact Or.inl rfl
    | some _ => cases h
  key_created kr _ _ _ _ record kr' h := by
    cases kr with
    | none =>
      cases h
      rfl
    | some _ => cases h
  parse_pubKey _ := rfl

/-- The choices of the option. -/
def logLevels : List String := ["trace", "debug", "info", "warn", "error", "fatal"]

/-- Files that hold configurations. -/
def sampleOs : Os where
  userHomeDir := .ok "/root"
  join dir name := dir ++ "/" ++ name
  Files := String → Option FileConfig
  Text := FileConfig
  abs path := .ok path
  currentUser := .ok "/root"
  getenvHome := "/root"
  expandEnv path := path
  clean path := path
  dir path := path
  stat files name := (files name).elim (.error "no such file or directory") fun _ => .ok ()
  isNotExist _ := true
  mkdirAll files _ := (.ok (), files)
  brokenLink _ _ := none
  readFile files name := (files name).elim (.error "no such file or directory") .ok
  create files name text := (.ok (), Function.update files name (some text))
  openAppend files _ := (.ok (), files)
  parseIni text _ :=
    if logLevels.contains text.config.logLevel then
      .ok { text with config := { text.config with btcNetParams := .zero } }
    else .error "invalid value for option loglevel"
  writeIni cfg := cfg
  defaultBabylonConfig := ⟨⟨"node0", "chain-test", "http://localhost:26657", "https://localhost:9090",
    "bbn", "test", 4609434218613702656, "0.01ubbn", "", true, 20000000000, 0, "json", "direct"⟩, ""⟩
  validateBabylon _ := .ok ()
  newClient _ := .ok sampleController.keyring
  mustBech32ifyAddressBytes := sampleController.mustBech32ifyAddressBytes
  intercept := .ok ()

def sampleWorld : World sampleOs sampleSdk := ⟨fun _ => none, fun _ => none, []⟩

theorem known_sampleWorld : Known (fun _ => False) sampleWorld.keyrings := by
  intro _ _ _ _ h
  cases h

def sampleFlags : KeyFlags := ⟨"/covd", "chain-test", "covenant-key", "test", "", ""⟩

def sampleCommands (flags : KeyFlags) : List Command :=
  [.init "/covd" false, .createKey flags (.ok [])]

theorem start_sample : start "/covd" "" (session sampleLib sampleWorld (sampleCommands sampleFlags)) =
    (.ok ⟨⟨.console, .debug⟩, sampleController, startWith (memberKey true)⟩,
      session sampleLib sampleWorld (sampleCommands sampleFlags)) := by
  with_unfolding_all rfl

/-- The one message that the member sends. -/
theorem signs_with_printed_key_sample :
    ∃ s : Submission sampleLib sampleController (System.actions true sampleLog),
      s.message = msgWith (memberKey true) 2 ∧
        SignedWithPrinted sampleSdk (session sampleLib sampleWorld (sampleCommands sampleFlags)).stdout s := by
  obtain ⟨ph, c, h⟩ := run_sampleLog
  obtain ⟨hsent, hkey⟩ := signs_with_printed_key sampleOs sampleSdk sampleLib lawful_sampleSdk
    sampleLib_keyEncoding sampleWorld known_sampleWorld (sampleCommands sampleFlags) "/covd" "" _ _
    start_sample _ _ _ _ ph c h true rfl
  obtain ⟨s, hs⟩ := hsent ((System.actions true sampleLog).take 5) _ _ _ rfl _ (List.mem_singleton_self _)
  exact ⟨s, hs, hkey s⟩

/-! ## The first start -/

/-- What is relied on of files: a text is read as it was written. -/
structure Written (os : Os) : Prop where
  read_create : ∀ files name text files', os.create files name text = (.ok (), files') →
    os.readFile files' name = .ok text ∧ os.stat files' name = .ok ()

/-- The options are parsed as they were written. This is not so of every configuration: the
parser turns away an option that is none of its choices, and trims blanks. -/
def RoundTrips (os : Os) (cfg : FileConfig) : Prop :=
  os.parseIni (os.writeIni cfg) zeroFileConfig =
    .ok { cfg with config := { cfg.config with btcNetParams := .zero } }

theorem loadConfig_eq_ok_iff {files : os.Files} {homePath : String} {cfg : FileConfig} :
    loadConfig os files homePath = .ok cfg ↔
      ∃ parsed net, fileExists (env os files) (os.join homePath defaultConfigFileName) = true ∧
        parseFile os files (os.join homePath defaultConfigFileName) zeroFileConfig = .ok parsed ∧
        networkParams parsed.config.bitcoinNetwork = some net ∧
        cfg = { parsed with config := { parsed.config with btcNetParams := net } } := by
  unfold Commands.loadConfig
  change (if !fileExists (env os files) (os.join homePath defaultConfigFileName) then _ else _) = _ ↔ _
  cases hfile : fileExists (env os files) (os.join homePath defaultConfigFileName) with
  | false => simp
  | true =>
    simp only [Bool.not_true, Bool.false_eq_true, ↓reduceIte, bind_eq_ok_iff, orReturn_eq_ok,
      validate_eq_ok_iff, true_and]
    constructor
    · rintro ⟨parsed, hparsed, _, ⟨net, hnet, rfl⟩, hcfg⟩
      cases hcfg
      exact ⟨parsed, net, hparsed, hnet, rfl⟩
    · rintro ⟨parsed, net, hparsed, hnet, rfl⟩
      exact ⟨parsed, hparsed, _, ⟨net, hnet, rfl⟩, rfl⟩

theorem network_of_loaded {files : os.Files} {homePath : String} {cfg : FileConfig}
    (h : loadConfig os files homePath = .ok cfg) :
    networkParams cfg.config.bitcoinNetwork = some cfg.config.btcNetParams := by
  obtain ⟨parsed, net, _, _, hnet, rfl⟩ := loadConfig_eq_ok_iff.mp h
  exact hnet

/-- A configuration with its network's parameters is loaded as it was written. -/
theorem loadConfig_written (hos : Written os) {cfg : FileConfig} (hcfg : RoundTrips os cfg)
    {homePath : String} {files files' : os.Files}
    (h : writeConfig os (os.join homePath defaultConfigFileName) cfg files = (.ok (), files'))
    (hnet : networkParams cfg.config.bitcoinNetwork = some cfg.config.btcNetParams) :
    loadConfig os files' homePath = .ok cfg := by
  obtain ⟨hok, hfiles⟩ := Prod.mk.inj h
  obtain ⟨hread, hstat⟩ := hos.read_create _ _ _ files' (Prod.ext (orReturn_eq_ok.mp hok) hfiles)
  refine loadConfig_eq_ok_iff.mpr ⟨_, cfg.config.btcNetParams, ?_,
    bind_eq_ok_iff.mpr ⟨_, hread, hcfg⟩, hnet, rfl⟩
  unfold fileExists
  simp only [env, hstat]

def defaultOptions : Config :=
  ⟨defaultLogLevel, defaultQueryInterval, defaultDelegationLimit, defaultSigsBatchSize,
    defaultBitcoinNetwork, defaultBTCNetParams⟩

/-- What `init` writes. -/
def initialConfig (os : Os) (homePath : String) : FileConfig where
  config := defaultOptions
  babylonConfig := { defaultBBNConfig os.defaultBabylonConfig with
    key := defaultCovenantKeyName, keyDirectory := homePath }

/-- What `create-key` changes. -/
def noted (cfg : FileConfig) (flags : KeyFlags) : FileConfig :=
  { cfg with babylonConfig := { cfg.babylonConfig with
    key := flags.keyName, keyringBackend := flags.keyringBackend } }

/-- A path that `init` and `start` leave as it is. -/
structure Plain (os : Os) (home : String) : Prop where
  abs_eq : os.abs home = .ok home
  clean_eq : cleanAndExpandPath os home = home

theorem initHome_ok (hos : Written os) {home : String} (hhome : Plain os home)
    (hini : RoundTrips os (initialConfig os home)) {force : Bool} {w w' : World os sdk}
    (h : initHome home force w = (.ok (), w')) :
    w'.keyrings = w.keyrings ∧ loadConfig os w'.files home = .ok (initialConfig os home) := by
  simp only [initHome, onFiles, Cmd.bind_ok_iff, Cmd.lift_ok_iff, Cmd.read_ok_iff, Cmd.on_ok_iff,
    orReturn_eq_ok] at h
  obtain ⟨path, _, ⟨hpath, rfl⟩, _, _, ⟨rfl, rfl⟩, _, _, ⟨_, rfl⟩, _, _, ⟨_, _, rfl⟩, _, _, ⟨_, _, rfl⟩,
    cfg, _, ⟨hcfg, rfl⟩, files, hfiles, rfl⟩ := h
  rw [hhome.abs_eq] at hpath
  cases hpath
  rw [hhome.clean_eq] at hcfg hfiles
  cases hcfg
  exact ⟨rfl, loadConfig_written hos hini hfiles rfl⟩

theorem createKey_ok (hlaw : sdk.Lawful) (hos : Written os) {flags : KeyFlags}
    {entropy : Except GoError Bytes} {cfg : FileConfig} (hini : RoundTrips os (noted cfg flags))
    {w w' : World os sdk} (hcfg : loadConfig os w.files flags.home = .ok cfg)
    (h : createKey lib flags entropy w = (.ok (), w')) :
    loadConfig os w'.files flags.home = .ok (noted cfg flags) ∧
      ∃ loc info, Created lib os.toHomeDir flags.home flags.chainID flags.keyName flags.keyringBackend
        flags.passphrase w.keyrings w'.keyrings loc info := by
  simp only [createKey, print, onFiles, onKeyrings, Cmd.bind_ok_iff, Cmd.lift_ok_iff, Cmd.read_ok_iff,
    Cmd.wrap_ok_iff, Cmd.on_ok_iff, wrapError_eq_ok] at h
  obtain ⟨_, _, ⟨rfl, rfl⟩, cfg', _, ⟨hcfg', rfl⟩, info, _, ⟨ks, hks, rfl⟩, _, _, hprint, files, hfiles,
    rfl⟩ := h
  cases hprint
  rw [hcfg] at hcfg'
  cases hcfg'
  obtain ⟨loc, hcreated⟩ := createCovenantKey_ok hlaw hks
  have hnet := network_of_loaded hcfg
  exact ⟨loadConfig_written hos hini hfiles hnet, loc, info, hcreated⟩

/-- The key that has been created, the only one there is, is found where it was stored. -/
theorem newCovenantEmulator_created_iff (hlaw : sdk.Lawful) {os : HomeDir} {ks ks' : Keyrings sdk}
    (hempty : Known (fun _ => False) ks) {keyringDir chainID passphrase : String}
    {loc : Option sdk.Location} {info : ChainKeyInfo} (config : Config) (opts : KeyOptions)
    (h : Created lib os keyringDir chainID opts.key opts.keyringBackend passphrase ks ks' loc info) :
    (∃ ce, newCovenantEmulator os ks' config opts passphrase = .ok ce) ↔
      ∃ l, loc = some l ∧
        createKeyring sdk os opts.keyDirectory opts.chainID opts.keyringBackend = .ok (some l) := by
  obtain ⟨key, kr, hkey, rfl, _⟩ := h.stored
  simp only [newCovenantEmulator_eq_ok_iff hlaw]
  constructor
  · rintro ⟨_, found, key', hfound, _, hkey', _⟩
    rcases ks.at_put kr loc found with ⟨l, rfl, rfl⟩ | hsame
    · exact ⟨l, rfl, hfound⟩
    · -- a keyring that held no key before
      rw [hsame] at hkey'
      exact (hempty.at hlaw found passphrase opts.key key' hkey').elim
  · rintro ⟨l, rfl, hfound⟩
    refine ⟨_, some l, key, hfound, h.named, ?_, rfl⟩
    rw [Keyrings.at_put_self]
    exact hkey

/-- **The first start.** After `init` and `create-key` on keyrings that were empty, `start`
brings up a daemon exactly when the log file, the client and the interceptor are to be had,
and the chain id of the flags leads to the same stored keyring as the default one. -/
theorem first_start_iff (os : Os) (sdk : Sdk) (lib : Lib) (hlaw : sdk.Lawful) (hos : Written os)
    (flags : KeyFlags) (hhome : Plain os flags.home)
    (hinitial : RoundTrips os (initialConfig os flags.home))
    (hnoted : RoundTrips os (noted (initialConfig os flags.home) flags)) (force : Bool)
    (entropy : Except GoError Bytes)
    (w₀ w₁ w₂ : World os sdk) (hempty : Known (fun _ => False) w₀.keyrings)
    (hinit : initHome flags.home force w₀ = (.ok (), w₁))
    (hkey : createKey lib flags entropy w₁ = (.ok (), w₂)) :
    (∃ d w₃, start flags.home flags.passphrase w₂ = (.ok d, w₃)) ↔
      (∃ logger files, newRootLoggerWithFile os (logFile os flags.home) defaultLogLevel w₂.files =
          (.ok logger, files)) ∧
        (∃ bc, newBabylonController os (noted (initialConfig os flags.home) flags).babylonConfig
          defaultBTCNetParams = .ok bc) ∧
        os.intercept = .ok () ∧
        ∃ loc, createKeyring sdk os.toHomeDir flags.home flags.chainID flags.keyringBackend =
            .ok (some loc) ∧
          createKeyring sdk os.toHomeDir flags.home os.defaultBabylonConfig.chainID
            flags.keyringBackend = .ok (some loc) := by
  obtain ⟨hrings, hcfg₁⟩ := initHome_ok hos hhome hinitial hinit
  obtain ⟨hcfg, loc, info, hcreated⟩ := createKey_ok hlaw hos hnoted hcfg₁ hkey
  rw [hrings] at hcreated
  have hemulator := newCovenantEmulator_created_iff hlaw hempty (initialConfig os flags.home).config
    (keyOptions (noted (initialConfig os flags.home) flags).babylonConfig) hcreated
  constructor
  · rintro ⟨d, w₃, hstart⟩
    obtain ⟨path, cfg, files, hpath, hstarts, _⟩ := start_ok_iff.mp hstart
    rw [hhome.abs_eq] at hpath
    cases hpath
    rw [hhome.clean_eq] at hstarts
    cases hcfg.symm.trans hstarts.loaded
    obtain ⟨l, rfl, hfound⟩ := hemulator.mp ⟨_, hstarts.built⟩
    exact ⟨⟨_, _, hstarts.logging⟩, ⟨_, hstarts.connected⟩, hstarts.intercepted, l, hcreated.located,
      hfound⟩
  · rintro ⟨⟨logger, files, hlog⟩, ⟨bc, hbc⟩, hint, l, hlocated, hfound⟩
    cases hcreated.located.symm.trans hlocated
    obtain ⟨ce, hce⟩ := hemulator.mpr ⟨l, rfl, hfound⟩
    have hstarts : Starts w₂ (cleanAndExpandPath os flags.home) flags.passphrase
        (noted (initialConfig os flags.home) flags) ⟨logger, bc, ce⟩ files := by
      rw [hhome.clean_eq]
      exact ⟨hcfg, hlog, hbc, hce, hint⟩
    exact ⟨_, _, start_ok_iff.mpr ⟨_, _, _, hhome.abs_eq, hstarts, rfl⟩⟩

theorem written_sampleOs : Written sampleOs where
  read_create files name text files' h := by
    cases h
    have hname : Function.update files name (some text) name = some text := Function.update_self ..
    constructor
    · exact congrArg (Option.elim · _ Except.ok) hname
    · exact congrArg (Option.elim · _ fun _ => Except.ok ()) hname

theorem roundTrips_sampleOs (cfg : FileConfig) (h : logLevels.contains cfg.config.logLevel) :
    RoundTrips sampleOs cfg := if_pos h

theorem plain_sampleOs : Plain sampleOs "/covd" := ⟨rfl, rfl⟩

theorem newRootLoggerWithFile_sampleOs (path : String) (files : sampleOs.Files) :
    newRootLoggerWithFile sampleOs path defaultLogLevel files = (.ok ⟨.console, .debug⟩, files) := by
  with_unfolding_all rfl

/-- The sample flags with the keyring of the system, which goes by the chain id. -/
def osFlags (chainID : String) : KeyFlags :=
  { sampleFlags with chainID := chainID, keyringBackend := "os" }

def initialized : World sampleOs sampleSdk := runCommand sampleLib sampleWorld (.init "/covd" false)

def equipped (chainID : String) : World sampleOs sampleSdk :=
  runCommand sampleLib initialized (.createKey (osFlags chainID) (.ok []))

theorem initHome_sampleWorld : initHome "/covd" false sampleWorld = (.ok (), initialized) := by
  with_unfolding_all rfl

theorem createKey_initialized (chainID : String) : createKey sampleLib (osFlags chainID) (.ok []) initialized =
    (.ok (), equipped chainID) := by
  with_unfolding_all rfl

/-- With the keyring of the system, the key is found under the default chain id only. -/
theorem first_start_iff_sample :
    (∃ d w, start "/covd" "" (equipped "chain-test") = (.ok d, w)) ∧
      ¬ ∃ d w, start "/covd" "" (equipped "bbn-test-3") = (.ok d, w) := by
  have hstart := fun chainID => first_start_iff sampleOs sampleSdk sampleLib lawful_sampleSdk
    written_sampleOs (osFlags chainID) plain_sampleOs (roundTrips_sampleOs _ rfl)
    (roundTrips_sampleOs _ rfl) false (.ok []) sampleWorld initialized
    (equipped chainID) known_sampleWorld initHome_sampleWorld (createKey_initialized chainID)
  constructor
  · exact (hstart "chain-test").mpr ⟨⟨_, _, newRootLoggerWithFile_sampleOs _ _⟩, ⟨_, rfl⟩, rfl,
      ["os", "chain-test"], rfl, rfl⟩
  · intro h
    obtain ⟨_, _, _, loc, hloc, hloc'⟩ := (hstart "bbn-test-3").mp h
    have heq : some ["os", "bbn-test-3"] = some ["os", "chain-test"] :=
      Except.ok.inj (hloc.trans hloc'.symm)
    revert heq
    decide

end Covenant.Session
