import Covenant.Session
import Covenant.Shutdown

/-! Installations that nobody edits. As long as configurations are only written by `init` and
`create-key`, every daemon that comes up has the default options: its loop gets its ticker,
and no tick of it hangs (`unedited_daemon`). -/

namespace Covenant.Unedited
open Outcome Bitcoin Covenant.Types Emulator Loop Covenant.Configuration Keys Commands Session Lifecycle
  Reference Ticks Committee

/-! ## Files -/

variable {os : Os} {sdk : Sdk} {lib : Lib}

/-- Where a text is found after an operation, it was there before, or it is the text that was
written. Names may stand for the same file; no write is cut short. -/
structure Framed (os : Os) : Prop where
  read_mkdirAll : ∀ files dir name text, os.readFile (os.mkdirAll files dir).2 name = .ok text →
    os.readFile files name = .ok text
  read_create : ∀ files name written name' text,
    os.readFile (os.create files name written).2 name' = .ok text →
      os.readFile files name' = .ok text ∨ text = written
  -- no log file is a configuration
  read_openAppend : ∀ files home home' text,
    os.readFile (os.openAppend files (logFile os home)).2 (os.join home' defaultConfigFileName) =
      .ok text → os.readFile files (os.join home' defaultConfigFileName) = .ok text

/-- What is relied on of the ini format: where a configuration with the default options is
parsed, these options are. -/
def KeepsDefaults (os : Os) : Prop :=
  ∀ cfg parsed, cfg.config = defaultOptions → os.parseIni (os.writeIni cfg) zeroFileConfig = .ok parsed →
    parsed.config = { defaultOptions with btcNetParams := .zero }

/-- What is found where a configuration is looked for was written with the default options. -/
def Factory (os : Os) (files : os.Files) : Prop :=
  ∀ home text, os.readFile files (os.join home defaultConfigFileName) = .ok text →
    ∃ cfg, cfg.config = defaultOptions ∧ text = os.writeIni cfg

/-- The network's parameters are not written; they are those of the name that is. -/
theorem defaultOptions_of_loaded (hini : KeepsDefaults os) {files : os.Files} (h : Factory os files)
    {home : String} {cfg : FileConfig} (hcfg : loadConfig os files home = .ok cfg) :
    cfg.config = defaultOptions := by
  obtain ⟨parsed, net, _, hparsed, hnet, rfl⟩ := Session.loadConfig_eq_ok_iff.mp hcfg
  obtain ⟨text, htext, hparse⟩ := bind_eq_ok_iff.mp hparsed
  obtain ⟨written, hwritten, rfl⟩ := h home text htext
  have hconfig := hini written parsed hwritten hparse
  rw [hconfig] at hnet ⊢
  cases hnet
  rfl

section
variable (hframe : Framed os)
include hframe

theorem factory_makeDirectory (dir : String) :
    Cmd.Triple (Factory os) (makeDirectory os dir) (fun _ => Factory os) (Factory os) := by
  refine .of_after fun files h home text htext => h home text ?_
  have hsnd : (makeDirectory os dir files).2 = (os.mkdirAll files dir).2 := by
    unfold makeDirectory
    rcases os.mkdirAll files dir with ⟨_ | _, _⟩ <;> rfl
  rw [hsnd] at htext
  exact hframe.read_mkdirAll _ _ _ _ htext

theorem factory_writeConfig (name : String) {cfg : FileConfig} (hcfg : cfg.config = defaultOptions) :
    Cmd.Triple (Factory os) (writeConfig os name cfg) (fun _ => Factory os) (Factory os) := by
  refine .of_after fun files h home text htext => ?_
  rcases hframe.read_create files name (os.writeIni cfg) _ text htext with hbefore | rfl
  · exact h home text hbefore
  · exact ⟨cfg, hcfg, rfl⟩

theorem factory_newRootLoggerWithFile (home level : String) :
    Cmd.Triple (Factory os) (newRootLoggerWithFile os (logFile os home) level) (fun _ => Factory os)
      (Factory os) := by
  refine .bind (factory_makeDirectory hframe _) fun _ => .bind (R := fun _ => Factory os) ?_ fun _ =>
    .lift_self _
  refine .of_after fun files h home' text htext => h home' text ?_
  exact hframe.read_openAppend _ _ _ _ htext

end

/-! ## Commands -/

def Untouched (w : World os sdk) : Prop := Factory os w.files

section
variable {α : Type}

theorem untouched_onFiles {x : Cmd os.Files α}
    (h : Cmd.Triple (Factory os) x (fun _ => Factory os) (Factory os)) :
    Cmd.Triple (Untouched : World os sdk → Prop) (onFiles x) (fun _ => Untouched) Untouched :=
  h.on (fun _ hw => hw) (fun _ _ _ _ hfiles => hfiles) fun _ _ _ hfiles => hfiles

/-- A value that is known once it is there. -/
theorem untouched_knowing {β : Type} {x : Go α} {f : α → Cmd (World os sdk) β} {p : α → Prop}
    (hp : ∀ a, x = .ok a → p a)
    (hf : ∀ a, p a → Cmd.Triple Untouched (f a) (fun _ => Untouched) Untouched) :
    Cmd.Triple Untouched (Cmd.lift x >>= f) (fun _ => Untouched) Untouched := by
  refine .bind (R := fun a w => p a ∧ Untouched w) (.lift (fun a _ hx h => ⟨hp a hx, h⟩)
    fun _ _ _ h => h) fun a w hw => ?_
  exact hf a hw.1 w hw.2

end

section
variable (hini : KeepsDefaults os) (hframe : Framed os)
include hframe

theorem untouched_initHome (home : String) (force : Bool) :
    Cmd.Triple (Untouched : World os sdk → Prop) (initHome home force) (fun _ => Untouched) Untouched := by
  refine .bind (.lift_self _) fun _ => .bind (.read_self _) fun _ => .bind (.lift_self _)
    fun _ => .bind (untouched_onFiles (factory_makeDirectory hframe _)) fun _ =>
      .bind (untouched_onFiles (factory_makeDirectory hframe _)) fun _ => ?_
  refine untouched_knowing (p := fun cfg => cfg.config = defaultOptions) ?_ fun cfg hcfg =>
    untouched_onFiles (factory_writeConfig hframe _ hcfg)
  intro cfg hcfg
  cases hcfg
  rfl

theorem untouched_start (home passphrase : String) :
    Cmd.Triple (Untouched : World os sdk → Prop) (start home passphrase) (fun _ => Untouched)
      Untouched :=
  .bind (.lift_self _) fun _ => .bind (.read_self _) fun _ => .bind (.lift_self _)
    fun _ => .bind (.wrap (untouched_onFiles (factory_newRootLoggerWithFile hframe _ _))) fun _ =>
      .bind (.lift_self _) fun _ => .bind (.read_self _) fun _ => .bind (.lift_self _)
        fun _ => .bind (.lift_self _) fun _ => .pure fun _ h => h

include hini

/-- The options that `create-key` writes are those that it has read. -/
theorem untouched_createKey (flags : KeyFlags) (entropy : Except GoError Bytes) :
    Cmd.Triple (Untouched : World os sdk → Prop) (createKey lib flags entropy) (fun _ => Untouched)
      Untouched := by
  refine .bind (R := fun files w => Factory os files ∧ Untouched w) (.read fun _ h => ⟨h, h⟩)
    fun files w hw => ?_
  refine untouched_knowing (p := fun cfg => cfg.config = defaultOptions)
    (fun cfg hcfg => defaultOptions_of_loaded hini hw.1 (wrapError_eq_ok.mp hcfg)) (fun cfg hcfg => ?_) w hw.2
  exact .bind (R := fun _ => Untouched) (.wrap (.frame fun _ _ h => h)) fun _ =>
    .bind (R := fun _ => Untouched) (.modify fun _ h => h) fun _ =>
      untouched_onFiles (factory_writeConfig hframe _ hcfg)

theorem untouched_runCommand {w : World os sdk} (h : Untouched w) (c : Command) :
    Untouched (runCommand lib w c) := by
  cases c with
  | init home force => exact (untouched_initHome hframe home force).after h
  | createKey flags entropy => exact (untouched_createKey hini hframe flags entropy).after h
  | start home passphrase => exact (untouched_start hframe home passphrase).after h

end

/-! ## The daemon -/

theorem config_of_newCovenantEmulator {hd : HomeDir} {ks : Keyrings sdk} {config : Config}
    {opts : KeyOptions} {passphrase : String} {ce : CovenantEmulator}
    (h : newCovenantEmulator hd ks config opts passphrase = .ok ce) : ce.config = config := by
  simp only [newCovenantEmulator, bind_eq_ok_iff] at h
  obtain ⟨_, _, _, _, _, _, _, _, h⟩ := h
  cases h
  rfl

/-- **Unedited.** A daemon that is started on files which only the commands have written gets
its ticker, and its loop never hangs. -/
theorem unedited_daemon (os : Os) (sdk : Sdk) (lib : Lib) (hini : KeepsDefaults os) (hframe : Framed os)
    (w₀ : World os sdk)
    (hnone : ∀ home text, os.readFile w₀.files (os.join home defaultConfigFileName) ≠ .ok text)
    (cs : List Command) (home passphrase : String) (d : Daemon) (w : World os sdk)
    (hstart : start home passphrase (session lib w₀ cs) = (.ok d, w)) :
    covenantSigSubmissionLoop (I := clientController) d.emulator = .select d.emulator ∧
      ∀ {τ : Type} [DecidableEq τ] (ls : List (Label τ)) (s : State τ), Run lib d.emulator ls s →
        ∀ ph, .live ph ∈ s.loops → ph ≠ .down .diverge := by
  have hall : Untouched (session lib w₀ cs) := session_keeps (P := Untouched)
    (fun _ c hw => untouched_runCommand hini hframe hw c)
    (fun home text htext => (hnone home text htext).elim) cs
  obtain ⟨_, cfg, _, _, hstarts, _⟩ := start_ok_iff.mp hstart
  have hcfg : d.emulator.config = defaultOptions := by
    rw [config_of_newCovenantEmulator hstarts.built]
    exact defaultOptions_of_loaded hini hall hstarts.loaded
  constructor
  · rcases Loop.covenantSigSubmissionLoop_cases (I := clientController) d.emulator with
      ⟨_, hselect⟩ | ⟨hle, _⟩
    · exact hselect
    · rw [hcfg] at hle
      exact absurd hle (by decide)
  · intro τ _ ls s hrun ph hph
    have hb : d.emulator.config.sigsBatchSize ≠ 0 := by
      rw [hcfg]
      decide
    exact Shutdown.live_ne_diverge hb hrun ph hph

theorem framed_sampleOs : Framed sampleOs where
  read_mkdirAll _ _ _ _ h := h
  read_create files name written name' text h := by
    by_cases hname : name' = name
    · subst hname
      have hself := (written_sampleOs.read_create files name' written _ rfl).1
      exact Or.inr (Except.ok.inj (h.symm.trans hself))
    · have hother : Function.update files name (some written) name' = files name' :=
        Function.update_of_ne hname _ _
      left
      rw [← h]
      exact congrArg (Option.elim · _ Except.ok) hother.symm
  read_openAppend _ _ _ _ h := h

theorem keepsDefaults_sampleOs : KeepsDefaults sampleOs := by
  intro cfg parsed hcfg hparse
  have hlevel : logLevels.contains cfg.config.logLevel = true := by
    rw [hcfg]
    rfl
  cases (roundTrips_sampleOs cfg hlevel).symm.trans hparse
  rw [hcfg]

theorem unedited_daemon_sample :
    covenantSigSubmissionLoop (I := clientController) (startWith (memberKey true)) =
        .select (startWith (memberKey true)) ∧
      ∀ (ls : List (Label Bool)) (s : State Bool), Run sampleLib (startWith (memberKey true)) ls s →
        ∀ ph, .live ph ∈ s.loops → ph ≠ .down .diverge := by
  obtain ⟨hselect, hends⟩ := unedited_daemon sampleOs sampleSdk sampleLib keepsDefaults_sampleOs
    framed_sampleOs sampleWorld (fun _ _ h => by cases h) (sampleCommands sampleFlags) "/covd" "" _ _
    start_sample
  exact ⟨hselect, fun ls s hrun => hends ls s hrun⟩

end Covenant.Unedited
