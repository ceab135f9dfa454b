import Covenant.Configuration
import Covenant.Controller
import Covenant.Keys

/-! The commands of `covd`: `init` writes a configuration, `create-key` adds a key to a
keyring, prints its public key and notes its name in the configuration, `start` loads the
configuration and builds the emulator around the key that it names. The system and the
libraries that only they use are parameters (`Os`). -/

namespace Covenant.Commands
open Outcome Bitcoin Covenant.Types Emulator Controller Covenant.Configuration Keys

/-! ## Options -/

/-- Durations are in nanoseconds; the factor is kept as the bits of its `float64`. -/
structure BBNConfig where
  key : String
  chainID : String
  rpcAddr : String
  grpcAddr : String
  accountPrefix : String
  keyringBackend : String
  gasAdjustment : UInt64
  gasPrices : String
  keyDirectory : String
  debug : Bool
  timeout : Int64
  blockTimeout : Int64
  outputFormat : String
  signModeStr : String
  deriving DecidableEq, Repr

/-- `bbncfg.BabylonConfig`. -/
structure BabylonConfig extends BBNConfig where
  submitterAddress : String
  deriving DecidableEq, Repr

/-- `config.Config` with the group of Babylon client options. -/
structure FileConfig where
  config : Config
  babylonConfig : BBNConfig
  deriving DecidableEq, Repr

/-- `DefaultBBNConfig`, from the defaults of the client. It has no key directory. -/
def defaultBBNConfig (dc : BabylonConfig) : BBNConfig :=
  { dc.toBBNConfig with keyDirectory := "", blockTimeout := 60 * 1000000000 }

/-- The address of the gRPC server is not passed on. -/
def bbnConfigToBabylonConfig (bc : BBNConfig) : BabylonConfig :=
  { bc with grpcAddr := "", submitterAddress := "" }

/-- The value of `var cfg Config`, with the group that the parser allocates. -/
def zeroFileConfig : FileConfig where
  config := zeroConfig
  babylonConfig := ⟨"", "", "", "", "", "", 0, "", "", false, 0, 0, "", ""⟩

/-! ## The system -/

/-- Paths, files, the parser and writer of ini files, the Babylon client, the interceptor
of signals. `join` is that of `path` and of `filepath`. -/
structure Os extends HomeDir where
  Files : Type
  /-- The content of a file. -/
  Text : Type
  abs : String → Except GoError String
  /-- The home directory of `user.Current`. -/
  currentUser : Except GoError String
  getenvHome : String
  expandEnv : String → String
  clean : String → String
  dir : String → String
  stat : Files → String → Except GoError Unit
  isNotExist : GoError → Bool
  mkdirAll : Files → String → Except GoError Unit × Files
  /-- Path and target of the link that `MkdirAll` failed at, if it did so at one. -/
  brokenLink : Files → GoError → Option (String × String)
  readFile : Files → String → Except GoError Text
  /-- `os.Create`, and the text written to it. -/
  create : Files → String → Text → Except GoError Unit × Files
  openAppend : Files → String → Except GoError Unit × Files
  parseIni : Text → FileConfig → Except GoError FileConfig
  writeIni : FileConfig → Text
  defaultBabylonConfig : BabylonConfig
  validateBabylon : BabylonConfig → Except GoError Unit
  /-- `bbnclient.New`: the keyring of the client. -/
  newClient : BabylonConfig → Except GoError (String → Except GoError (Except GoError Bytes))
  mustBech32ifyAddressBytes : String → Bytes → Except Halt String
  intercept : Except GoError Unit

variable (os : Os)

/-- `strings.Replace(path, "~", homeDir, 1)` for a path that begins with the tilde. -/
def cleanAndExpandPath (path : String) : String :=
  if path = "" then ""
  else
    let path :=
      if path.toList.head? = some '~' then
        let homeDir := match os.currentUser with
          | .ok homeDir => homeDir
          | .error _ => os.getenvHome
        homeDir ++ String.ofList path.toList.tail
      else path
    os.clean (os.expandEnv path)

def makeDirectory (dir : String) : Cmd os.Files Unit := fun files =>
  match os.mkdirAll files dir with
  | (.ok (), files) => (.ok (), files)
  | (.error err, files) =>
    let err := match os.brokenLink files err with
      | some (path, link) => s!"is symlink {path} -> {link} mounted?"
      | none => err
    (.error (.error s!"failed to create dir {dir}: {err}"), files)

/-- Opening a file, with what the system did to it. -/
def touch (opens : os.Files → Except GoError Unit × os.Files) : Cmd os.Files Unit := fun files =>
  (orReturn (opens files).1, (opens files).2)

/-! ## Configuration files -/

def parseFile (files : os.Files) (name : String) (cfg : FileConfig) : Except GoError FileConfig := do
  let text ← os.readFile files name
  os.parseIni text cfg

/-- What `LoadConfig` reads, as the environment of the configuration without the group. -/
def env (files : os.Files) : Env where
  join := os.join
  stat := os.stat files
  isNotExist := os.isNotExist
  parseFile name cfg := do
    let cfg ← parseFile os files name { zeroFileConfig with config := cfg }
    return cfg.config

def loadConfig (files : os.Files) (homePath : String) : Go FileConfig :=
  let cfgFile := configFile (env os files) homePath
  if !fileExists (env os files) cfgFile then
    .error (.error s!"specified config file does not exist in {cfgFile}")
  else do
    let cfg ← orReturn (parseFile os files cfgFile zeroFileConfig)
    let config ← orReturn (validate cfg.config)
    return { cfg with config := config }

/-- The configuration without the group is the one that `Configuration.loadConfig` loads. -/
theorem config_loadConfig (files : os.Files) (homePath : String) :
    FileConfig.config <$> loadConfig os files homePath =
      orReturn (Configuration.loadConfig (env os files) homePath) := by
  unfold loadConfig Configuration.loadConfig
  dsimp only
  cases fileExists (env os files) (configFile (env os files) homePath) with
  | false => rfl
  | true =>
    have hparse : (env os files).parseFile (configFile (env os files) homePath) zeroConfig =
        FileConfig.config <$> parseFile os files (configFile (env os files) homePath) zeroFileConfig := rfl
    rw [hparse]
    cases parseFile os files (configFile (env os files) homePath) zeroFileConfig with
    | error err => rfl
    | ok cfg =>
      change FileConfig.config <$> (orReturn (validate cfg.config) >>= _) =
        orReturn (validate cfg.config)
      cases validate cfg.config with
      | error err => rfl
      | ok config => rfl

def writeConfig (name : String) (cfg : FileConfig) : Cmd os.Files Unit :=
  touch os fun files => os.create files name (os.writeIni cfg)

def logDir (homePath : String) : String := os.join homePath "logs"

def logFile (homePath : String) : String := os.join (logDir os homePath) "covd.log"

def defaultCovenantKeyName : String := "covenant-key"

/-- `DefaultConfigWithHomePath`, with the group. -/
def defaultFileConfig (homePath : String) : Go FileConfig :=
  match defaultConfigWithHomePath with
  | .ok config => .ok
      { config := config
        babylonConfig := { defaultBBNConfig os.defaultBabylonConfig with
          key := defaultCovenantKeyName, keyDirectory := homePath } }
  | .error (.panic msg) => .error (.panic msg)
  | .error .diverge => .error (.panic "")

/-! ## Logging -/

inductive Level
  | panic | fatal | error | warn | info | debug
  deriving DecidableEq, Repr

inductive Encoder
  | json | console | logfmt
  deriving DecidableEq, Repr

structure Logger where
  encoder : Encoder
  level : Level
  deriving DecidableEq, Repr

def newRootLogger (format level : String) : Except GoError Logger := do
  let enc ← match format with
    | "json" => .ok .json
    | "auto" => .ok .console
    | "console" => .ok .console
    | "logfmt" => .ok .logfmt
    | _ => .error s!"unrecognized log format {repr format}"
  let lvl ← match level.toLower with
    | "panic" => .ok .panic
    | "fatal" => .ok .fatal
    | "error" => .ok .error
    | "warn" => .ok .warn
    | "warning" => .ok .warn
    | "info" => .ok .info
    | "debug" => .ok .debug
    | _ => .error s!"unsupported log level: {level}"
  return ⟨enc, lvl⟩

def newRootLoggerWithFile (logFile level : String) : Cmd os.Files Logger := do
  makeDirectory os (os.dir logFile)
  touch os fun files => os.openAppend files logFile
  Cmd.lift (orReturn (newRootLogger "console" level))

/-! ## Commands -/

/-- What `create-key` prints. -/
structure CovenantKey where
  name : String
  publicKey : String
  deriving DecidableEq, Repr

/-- Files, keyrings, and what has been printed. -/
structure World (sdk : Sdk) where
  files : os.Files
  keyrings : Keyrings sdk
  stdout : List CovenantKey

variable {sdk : Sdk} {os}

def onFiles {α : Type} (x : Cmd os.Files α) : Cmd (World os sdk) α :=
  Cmd.on World.files (fun files w => { w with files := files }) x

def onKeyrings {α : Type} (x : Cmd (Keyrings sdk) α) : Cmd (World os sdk) α :=
  Cmd.on World.keyrings (fun keyrings w => { w with keyrings := keyrings }) x

def print (line : CovenantKey) : Cmd (World os sdk) Unit :=
  Cmd.modify fun w => { w with stdout := w.stdout ++ [line] }

def initHome (home : String) (force : Bool) : Cmd (World os sdk) Unit := do
  let homePath ← Cmd.lift (orReturn (os.abs home))
  let homePath := cleanAndExpandPath os homePath
  let files ← Cmd.read World.files
  Cmd.lift (rejectIf (fileExists (env os files) homePath && !force)
    s!"home path {homePath} already exists")
  onFiles (makeDirectory os homePath)
  onFiles (makeDirectory os (logDir os homePath))
  let defaultConfig ← Cmd.lift (defaultFileConfig os homePath)
  onFiles (writeConfig os (os.join homePath defaultConfigFileName) defaultConfig)

/-- The flags of `create-key`. -/
structure KeyFlags where
  home : String
  chainID : String
  keyName : String
  keyringBackend : String
  passphrase : String
  hdPath : String

/-- The key goes to the home path as it was given; of the flags only the name and the
backend are written back. -/
def createKey (lib : Lib) (flags : KeyFlags) (entropy : Except GoError Bytes) :
    Cmd (World os sdk) Unit := do
  let files ← Cmd.read World.files
  let cfgFile := os.join flags.home defaultConfigFileName
  let cfg ← Cmd.lift (wrapError s!"failed to load the config from {cfgFile}"
    (loadConfig os files flags.home))
  let keyPair ← Cmd.wrap "failed to create covenant key" (onKeyrings (createCovenantKey lib
    os.toHomeDir flags.home flags.chainID flags.keyName flags.keyringBackend flags.passphrase
    flags.hdPath entropy))
  let bip340Key := lib.newBIP340PubKeyFromBTCPK keyPair.publicKey
  print ⟨flags.keyName, Hex.encodeToString bip340Key⟩
  onFiles (writeConfig os cfgFile { cfg with babylonConfig := { cfg.babylonConfig with
    key := flags.keyName, keyringBackend := flags.keyringBackend } })

def newBabylonController (os : Os) (cfg : BBNConfig) (btcParams : NetParams) : Go BabylonController := do
  let bbnConfig := bbnConfigToBabylonConfig cfg
  orWrap "invalid config for Babylon client" (os.validateBabylon bbnConfig)
  let keyring ← orWrap "failed to create Babylon client" (os.newClient bbnConfig)
  return { key := cfg.key, accountPrefix := cfg.accountPrefix, btcParams, keyring
           mustBech32ifyAddressBytes := os.mustBech32ifyAddressBytes }

/-- The options that `NewCovenantEmulator` reads. -/
def keyOptions (cfg : BBNConfig) : KeyOptions :=
  ⟨cfg.key, cfg.keyDirectory, cfg.chainID, cfg.keyringBackend⟩

/-- A daemon that is about to run until it is told to shut down. -/
structure Daemon where
  logger : Logger
  controller : BabylonController
  emulator : CovenantEmulator

def start (home passphrase : String) : Cmd (World os sdk) Daemon := do
  let homePath ← Cmd.lift (orReturn (os.abs home))
  let homePath := cleanAndExpandPath os homePath
  let files ← Cmd.read World.files
  let cfg ← Cmd.lift (wrapError s!"failed to load config at {homePath}" (loadConfig os files homePath))
  let logger ← Cmd.wrap "failed to load the logger"
    (onFiles (newRootLoggerWithFile os (logFile os homePath) cfg.config.logLevel))
  let bbnClient ← Cmd.lift (wrapError "failed to create rpc client for the consumer chain"
    (newBabylonController os cfg.babylonConfig cfg.config.btcNetParams))
  let keyrings ← Cmd.read World.keyrings
  let ce ← Cmd.lift (wrapError "failed to start the covenant emulator"
    (newCovenantEmulator os.toHomeDir keyrings cfg.config (keyOptions cfg.babylonConfig) passphrase))
  Cmd.lift (orReturn os.intercept)
  return ⟨logger, bbnClient, ce⟩

end Covenant.Commands
