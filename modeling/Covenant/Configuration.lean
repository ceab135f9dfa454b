import Covenant.Reference

/-! The package `config`, and what it lets through to the batching loop. `LoadConfig` parses
the file into a zero value and checks the network only, so an option that the file
leaves out stays zero. The loop of `delegationsToBatches` then ends exactly when the
batch size was set (`loaded_batching_ends_iff`). -/

namespace Covenant.Configuration
open Outcome Batching Bitcoin Covenant.Types Emulator Loop Reference

/-! ## Configurations -/

/-- The file system and the parser of ini files, which writes the options of a file into
the configuration it is given. -/
structure Env where
  join : String → String → String
  stat : String → Except GoError Unit
  isNotExist : GoError → Bool
  parseFile : String → Config → Except GoError Config

def fileExists (env : Env) (name : String) : Bool :=
  match env.stat name with
  | .ok () => true
  | .error err => !env.isNotExist err

def defaultConfigFileName : String := "covd.conf"

def configFile (env : Env) (homePath : String) : String := env.join homePath defaultConfigFileName

/-- The value of `var cfg Config`. -/
def zeroConfig : Config where
  logLevel := ""
  queryInterval := 0
  delegationLimit := 0
  sigsBatchSize := 0
  bitcoinNetwork := ""
  btcNetParams := .zero

/-- The cases of the switch in `Validate`. -/
def networkParams : String → Option NetParams
  | "mainnet" => some .mainNet
  | "testnet" => some .testNet3
  | "regtest" => some .regressionNet
  | "simnet" => some .simNet
  | "signet" => some .sigNet
  | _ => none

/-- The configuration as `Validate` leaves it. -/
def validate (cfg : Config) : Except GoError Config :=
  match networkParams cfg.bitcoinNetwork with
  | some net => .ok { cfg with btcNetParams := net }
  | none => .error ("unsupported Bitcoin network: " ++ cfg.bitcoinNetwork)

def loadConfig (env : Env) (homePath : String) : Except GoError Config :=
  let cfgFile := configFile env homePath
  if !fileExists env cfgFile then
    .error ("specified config file does not exist in " ++ cfgFile)
  else do
    let cfg ← env.parseFile cfgFile zeroConfig
    validate cfg

def defaultLogLevel : String := "debug"

def defaultQueryInterval : Int64 := 15 * 1000000000

def defaultDelegationLimit : UInt64 := 100

def defaultSigsBatchSize : UInt64 := 20

def defaultBitcoinNetwork : String := "simnet"

def defaultBTCNetParams : NetParams := .simNet

/-- The home path only enters the Babylon client options. -/
def defaultConfigWithHomePath : Except Halt Config :=
  let cfg : Config :=
    { logLevel := defaultLogLevel
      queryInterval := defaultQueryInterval
      delegationLimit := defaultDelegationLimit
      sigsBatchSize := defaultSigsBatchSize
      bitcoinNetwork := defaultBitcoinNetwork
      btcNetParams := defaultBTCNetParams }
  match validate cfg with
  | .ok cfg => .ok cfg
  | .error err => .error (.panic err)

theorem validate_eq_ok_iff (cfg cfg' : Config) :
    validate cfg = .ok cfg' ↔
      ∃ net, networkParams cfg.bitcoinNetwork = some net ∧ cfg' = { cfg with btcNetParams := net } := by
  unfold validate
  cases networkParams cfg.bitcoinNetwork with
  | none => simp
  | some net => simp [eq_comm]

/-- The file under `homePath` is accepted: it is there, it leaves `parsed` in the zero
value, and the network it names has the parameters `net`. -/
structure Accepts (env : Env) (homePath : String) (parsed : Config) (net : NetParams) : Prop where
  present : fileExists env (configFile env homePath) = true
  parses : env.parseFile (configFile env homePath) zeroConfig = .ok parsed
  network : networkParams parsed.bitcoinNetwork = some net

/-- Nothing but the network parameters is added to what the parser left. -/
theorem loadConfig_eq_ok_iff (env : Env) (homePath : String) (cfg : Config) :
    loadConfig env homePath = .ok cfg ↔
      ∃ parsed net, Accepts env homePath parsed net ∧ cfg = { parsed with btcNetParams := net } := by
  unfold loadConfig
  constructor
  · intro h
    cases hfile : fileExists env (configFile env homePath) with
    | false => simp [hfile] at h
    | true =>
      simp only [hfile, Bool.not_true, Bool.false_eq_true, ↓reduceIte, bind_eq_ok_iff,
        validate_eq_ok_iff] at h
      obtain ⟨parsed, hparsed, net, hnet, hcfg⟩ := h
      exact ⟨parsed, net, ⟨hfile, hparsed, hnet⟩, hcfg⟩
  · rintro ⟨parsed, net, hacc, hcfg⟩
    simp only [hacc.present, Bool.not_true, Bool.false_eq_true, ↓reduceIte, bind_eq_ok_iff,
      validate_eq_ok_iff]
    exact ⟨parsed, hacc.parses, net, hacc.network, hcfg⟩

/-! ## The batching loop -/

/-- The loop of `delegationsToBatches` ends, after some number of rounds. -/
def BatchingEnds (cfg : Config) (dels : List (Option Delegation)) : Prop :=
  ∃ rounds batches, batchesFrom cfg.sigsBatchSize dels rounds 0 = .ok batches

theorem batchingEnds_iff (cfg : Config) (dels : Slice (Option Delegation)) :
    BatchingEnds cfg dels.elems ↔ (dels.elems = [] ∨ cfg.sigsBatchSize ≠ 0) := by
  constructor
  · rintro ⟨rounds, batches, h⟩
    by_contra hnot
    simp only [not_or, not_not] at hnot
    rw [hnot.2, batchesFrom_zero hnot.1 dels.len_lt] at h
    cases h
  · rintro (hnil | hb)
    · rw [hnil]
      exact ⟨1, [], rfl⟩
    · obtain ⟨batches, h, _, _⟩ := batchesFrom_spec dels.len_lt hb (dels.elems.length + 1) 0
        (Or.inl rfl) (Nat.lt_succ_self _)
      exact ⟨_, batches, h⟩

/-- The rounds that `delegationsToBatches` is given are enough. -/
theorem delegationsToBatches_ok_iff (ce : CovenantEmulator) (dels : Slice (Option Delegation)) :
    (∃ batches, delegationsToBatches ce dels.elems = .ok batches) ↔
      BatchingEnds ce.config dels.elems := by
  constructor
  · rintro ⟨batches, h⟩
    exact ⟨_, batches, h⟩
  · intro h
    rcases (batchingEnds_iff ce.config dels).mp h with hnil | hb
    · rw [hnil]
      exact ⟨[], rfl⟩
    · obtain ⟨batches, hok, _, _⟩ := delegationsToBatches_spec ce dels.len_lt hb
      exact ⟨batches, hok⟩

/-- **Batching under a loaded configuration.** The loop ends under whatever `LoadConfig`
returns exactly when there is nothing to batch, or the file, if it is accepted, does
not leave the batch size at zero. -/
theorem loaded_batching_ends_iff (env : Env) (homePath : String) (dels : Slice (Option Delegation)) :
    (∀ cfg, loadConfig env homePath = .ok cfg → BatchingEnds cfg dels.elems) ↔
      (dels.elems = [] ∨
        ∀ parsed net, Accepts env homePath parsed net → parsed.sigsBatchSize ≠ 0) := by
  constructor
  · intro h
    rw [or_iff_not_imp_left]
    intro hne parsed net hacc
    have hload := (loadConfig_eq_ok_iff env homePath _).mpr ⟨parsed, net, hacc, rfl⟩
    exact ((batchingEnds_iff _ dels).mp (h _ hload)).resolve_left hne
  · intro h cfg hload
    obtain ⟨parsed, net, hacc, rfl⟩ := (loadConfig_eq_ok_iff env homePath cfg).mp hload
    rw [batchingEnds_iff]
    rcases h with hnil | h
    · exact Or.inl hnil
    · exact Or.inr (h parsed net hacc)

/-- The default configuration passes its own check, and under it the loop ends. -/
theorem defaultConfig_batchingEnds (dels : Slice (Option Delegation)) :
    ∃ cfg, defaultConfigWithHomePath = .ok cfg ∧ BatchingEnds cfg dels.elems := by
  refine ⟨_, rfl, ?_⟩
  rw [batchingEnds_iff]
  right
  decide

/-- A file that names the network and a query interval of ten seconds, with which the loop
gets its ticker, and nothing else. -/
def withoutBatchSize : Env where
  join dir name := dir ++ "/" ++ name
  stat _ := .ok ()
  isNotExist _ := false
  parseFile _ cfg := .ok { cfg with bitcoinNetwork := "simnet", queryInterval := 10000000000 }

/-- Such a file is accepted, and then a single delegation keeps the loop running. -/
theorem absent_batch_size_diverges :
    ¬ ∀ cfg, loadConfig withoutBatchSize "/root/.covd" = .ok cfg →
      BatchingEnds cfg [some sampleDelegation] := by
  intro h
  have hends := h { zeroConfig with
    bitcoinNetwork := "simnet", queryInterval := 10000000000, btcNetParams := .simNet } rfl
  rcases (batchingEnds_iff _ ⟨[some sampleDelegation], by decide⟩).mp hends with hnil | hb
  · cases hnil
  · exact hb rfl

end Covenant.Configuration
