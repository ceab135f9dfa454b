import Covenant.Batching
import Covenant.Reactor
import Covenant.Signing

/-! The submission loop as programs over the `ClientController` interface: fetching the
parameters, filtering and batching the pending delegations, and submitting. One
iteration of the loop is `tick`; `covenantSigSubmissionLoop` is where it begins. -/

namespace Covenant.Loop
open Outcome Interaction Batching Bitcoin Covenant.Types Emulator

/-! ## The client controller -/

/-- The calls to the consumer chain. `enter` is not one of them: it marks in a trace that
`AddCovenantSignatures` begins, with the parameters and the batch it runs on. -/
inductive ClientCall
  | queryStakingParams
  | queryPendingDelegations (limit : UInt64)
  | submitCovenantSigs (covSigs : List CovenantSigs)
  | enter (params : Option StakingParams) (btcDels : List (Option Delegation))

abbrev ClientCall.Answer : ClientCall → Type
  | .queryStakingParams => Except GoError StakingParams
  | .queryPendingDelegations _ => Except GoError (Slice (Option Delegation))
  | .submitCovenantSigs _ => Except GoError TxResponse
  | .enter _ _ => Unit

abbrev clientController : Interface where
  Call := ClientCall
  Answer := ClientCall.Answer

abbrev Client (α : Type) := Prog clientController Halt α
abbrev ClientTrace := Trace clientController

/-! ## AddCovenantSignatures -/

/-- Everything before step 9. -/
def collectBatch (lib : Lib) (ce : CovenantEmulator) (btcDels : List (Option Delegation)) :
    Go (Option (List CovenantSigs)) :=
  if btcDels.length = 0 then .error (.error "no delegations") else collectSigs lib ce [] btcDels

/-- The result `none` is the response that `return nil, nil` leaves out. -/
def addCovenantSignatures (lib : Lib) (ce : CovenantEmulator) (btcDels : List (Option Delegation)) :
    Client (Except GoError (Option TxResponse)) := do
  let _ ← Prog.ask (I := clientController) (.enter ce.params btcDels)
  match collectBatch lib ce btcDels with
  | .error (.panic msg) => .halt (.panic msg)
  | .error (.error err) => return .error err
  | .ok none => return .ok none
  | .ok (some covenantSigs) =>
    let res ← Prog.ask (I := clientController) (.submitCovenantSigs covenantSigs)
    return res.map some

/-- The lists that a trace submits, in order. -/
def submissionOf : Event clientController → Option (List CovenantSigs)
  | ⟨.submitCovenantSigs covSigs, _⟩ => some covSigs
  | _ => none

def submissions (t : ClientTrace) : List (List CovenantSigs) := t.filterMap submissionOf

/-- The call returns without submitting: a delegation has its quorum, or an error. -/
def Declined (lib : Lib) (ce : CovenantEmulator) (btcDels : List (Option Delegation)) : Prop :=
  collectBatch lib ce btcDels = .ok none ∨ ∃ err, collectBatch lib ce btcDels = .error (.error err)

/-- **Runs of `AddCovenantSignatures`.** After the marker the call panics, returns, or
makes the one submission of step 9, whose answer is the result. -/
theorem steps_addCovenantSignatures {lib : Lib} {ce : CovenantEmulator}
    {btcDels : List (Option Delegation)} {t : ClientTrace}
    {q : Client (Except GoError (Option TxResponse))}
    (h : Prog.Steps (addCovenantSignatures lib ce btcDels) t q) :
    (t = [] ∧ q = addCovenantSignatures lib ce btcDels) ∨
      (t = [⟨.enter ce.params btcDels, ()⟩] ∧
        ((∃ msg, collectBatch lib ce btcDels = .error (.panic msg) ∧ q = .halt (.panic msg)) ∨
          (Declined lib ce btcDels ∧ ∃ r, q = .ret r) ∨
          ∃ covSigs k, collectBatch lib ce btcDels = .ok (some covSigs) ∧
            q = .call (.submitCovenantSigs covSigs) k)) ∨
      ∃ covSigs res, collectBatch lib ce btcDels = .ok (some covSigs) ∧
        t = [⟨.enter ce.params btcDels, ()⟩, ⟨.submitCovenantSigs covSigs, res⟩] ∧
        q = .ret (res.map some) := by
  rcases Prog.steps_call h with ⟨rfl, rfl⟩ | ⟨_, u, rfl, hu⟩
  · exact Or.inl ⟨rfl, rfl⟩
  · right
    rcases hc : collectBatch lib ce btcDels with (msg | err) | _ | covSigs
    · simp only [Prog.ret_bind, hc] at hu
      obtain ⟨rfl, rfl⟩ := Prog.steps_halt hu
      exact Or.inl ⟨rfl, Or.inl ⟨msg, rfl, rfl⟩⟩
    · simp only [Prog.ret_bind, hc] at hu
      obtain ⟨rfl, rfl⟩ := Prog.steps_ret hu
      exact Or.inl ⟨rfl, Or.inr (Or.inl ⟨Or.inr ⟨err, hc⟩, _, rfl⟩)⟩
    · simp only [Prog.ret_bind, hc] at hu
      obtain ⟨rfl, rfl⟩ := Prog.steps_ret hu
      exact Or.inl ⟨rfl, Or.inr (Or.inl ⟨Or.inl hc, _, rfl⟩)⟩
    · simp only [Prog.ret_bind, hc] at hu
      rcases Prog.steps_call hu with ⟨rfl, rfl⟩ | ⟨res, v, rfl, hv⟩
      · exact Or.inl ⟨rfl, Or.inr (Or.inr ⟨covSigs, _, rfl, rfl⟩)⟩
      · obtain ⟨rfl, rfl⟩ := Prog.steps_ret hv
        exact Or.inr ⟨covSigs, res, rfl, rfl, rfl⟩

/-- A batch that gets through the loop is submitted, whatever is answered. -/
theorem steps_of_collectBatch {lib : Lib} {ce : CovenantEmulator} {btcDels : List (Option Delegation)}
    {l : List CovenantSigs} (h : collectBatch lib ce btcDels = .ok (some l))
    (res : Except GoError TxResponse) :
    Prog.Steps (addCovenantSignatures lib ce btcDels)
      [⟨.enter ce.params btcDels, ()⟩, ⟨.submitCovenantSigs l, res⟩] (.ret (res.map some)) := by
  unfold addCovenantSignatures
  rw [h]
  exact .call (I := clientController) (c := .enter ce.params btcDels) ()
    (.call (I := clientController) (c := .submitCovenantSigs l) res (.refl _))

theorem steps_of_declined {lib : Lib} {ce : CovenantEmulator} {btcDels : List (Option Delegation)}
    (h : Declined lib ce btcDels) : ∃ r, Prog.Steps (addCovenantSignatures lib ce btcDels)
      [⟨.enter ce.params btcDels, ()⟩] (.ret r) := by
  unfold addCovenantSignatures
  rcases h with h | ⟨err, h⟩
  · rw [h]
    exact ⟨_, .call (I := clientController) (c := .enter ce.params btcDels) () (.refl _)⟩
  · rw [h]
    exact ⟨_, .call (I := clientController) (c := .enter ce.params btcDels) () (.refl _)⟩

/-! ## Batches -/

/-- One round more than there are delegations is enough for every positive batch size. -/
def delegationsToBatches (ce : CovenantEmulator) (dels : List (Option Delegation)) :
    Except Halt (List (List (Option Delegation))) :=
  batchesFrom ce.config.sigsBatchSize dels (dels.length + 1) 0

/-- The keys of the recorded signatures are compared in their x-only encoding. -/
def alreadySigned (lib : Lib) (ce : CovenantEmulator) (del : Delegation) : Bool :=
  del.covenantSigs.any fun covSig => lib.serializePubKey covSig.pk == lib.serializePubKey ce.pk

def removeAlreadySigned (lib : Lib) (ce : CovenantEmulator) :
    List (Option Delegation) → Except Halt (List (Option Delegation))
  | [] => return []
  | none :: _ => .error (.panic nilDereference)
  | some delCopy :: dels => do
    let sanitized ← removeAlreadySigned lib ce dels
    return if alreadySigned lib ce delCopy then sanitized else some delCopy :: sanitized

/-- What of the queried delegations the member has not signed. -/
def unsigned (lib : Lib) (ce : CovenantEmulator) (dels : List Delegation) : List Delegation :=
  dels.filter fun del => !alreadySigned lib ce del

theorem removeAlreadySigned_eq_ok_iff (lib : Lib) (ce : CovenantEmulator)
    (dels sanitized : List (Option Delegation)) :
    removeAlreadySigned lib ce dels = .ok sanitized ↔
      ∃ ds, dels = ds.map some ∧ sanitized = (unsigned lib ce ds).map some := by
  induction dels generalizing sanitized with
  | nil =>
    constructor
    · intro h
      cases h
      exact ⟨[], rfl, rfl⟩
    · rintro ⟨ds, hds, rfl⟩
      obtain rfl := List.map_eq_nil_iff.mp hds.symm
      rfl
  | cons del dels ih =>
    cases del with
    | none =>
      constructor
      · intro h
        cases h
      · rintro ⟨ds, hds, _⟩
        cases ds <;> cases hds
    | some d =>
      rw [removeAlreadySigned, bind_eq_ok_iff]
      constructor
      · rintro ⟨rest, hrest, h⟩
        obtain ⟨ds, rfl, rfl⟩ := (ih rest).mp hrest
        refine ⟨d :: ds, rfl, ?_⟩
        cases h
        cases hd : alreadySigned lib ce d <;> simp [unsigned, hd]
      · rintro ⟨ds, hds, rfl⟩
        cases ds with
        | nil => cases hds
        | cons d' ds =>
          obtain ⟨hd, rfl⟩ := List.cons.inj hds
          obtain rfl := Option.some.inj hd
          refine ⟨_, (ih _).mpr ⟨ds, rfl, rfl⟩, ?_⟩
          cases hd : alreadySigned lib ce d <;> simp [unsigned, hd, pure, Except.pure]

theorem delegationsToBatches_spec (ce : CovenantEmulator) {dels : List (Option Delegation)}
    (hlen : dels.length < 2 ^ 63) (hb : ce.config.sigsBatchSize ≠ 0) :
    ∃ batches, delegationsToBatches ce dels = .ok batches ∧ batches.flatten = dels ∧
      Chunked ce.config.sigsBatchSize.toNat batches := by
  have h := batchesFrom_spec hlen hb (dels.length + 1) 0 (Or.inl rfl) (Nat.lt_succ_self _)
  simpa [delegationsToBatches] using h

/-- Batches that were made hold the delegations in order, whatever the batch size. -/
theorem delegationsToBatches_flatten {ce : CovenantEmulator} {dels : List (Option Delegation)}
    {batches : List (List (Option Delegation))} (hlen : dels.length < 2 ^ 63)
    (h : delegationsToBatches ce dels = .ok batches) : batches.flatten = dels := by
  by_cases hb : ce.config.sigsBatchSize = 0
  · rw [delegationsToBatches, hb] at h
    rcases dels with _ | ⟨d, dels⟩
    · cases h
      rfl
    · rw [batchesFrom_zero (List.cons_ne_nil _ _) hlen] at h
      cases h
  · obtain ⟨batches', h', hflat, _⟩ := delegationsToBatches_spec ce hlen hb
    rw [h] at h'
    cases h'
    exact hflat

/-! ## Parameters -/

/-- Attempts of `retry.Do`. -/
def rtyAttNum : Nat := 5

/-- The closure given to `retry.Do`: it overwrites the captured `params`. -/
def queryParamsOnce (_params : Option StakingParams) :
    Client (Except GoError Unit × Option StakingParams) := do
  match ← Prog.ask (I := clientController) .queryStakingParams with
  | .ok params => return (.ok (), some params)
  | .error err => return (.error err, none)

def getParamsWithRetry : Client (Except GoError (Option StakingParams)) := do
  let (res, params) ← Prog.retryDo queryParamsOnce (rtyAttNum - 1) none
  match res with
  | .error err => return .error err
  | .ok () => return .ok params

/-- The emulator after `UpdateParams`, and its error. -/
def updateParams (ce : CovenantEmulator) :
    Client (CovenantEmulator × Option GoError) := do
  match ← getParamsWithRetry with
  | .error err => return (ce, some err)
  | .ok params => return ({ ce with params := params }, none)

/-! ## The loop -/

/-- The batches in order; an error of one is logged and the next one follows. -/
def submitBatches (lib : Lib) (ce : CovenantEmulator) :
    List (List (Option Delegation)) → Client Unit
  | [] => return ()
  | delBatch :: batches => do
    let _ ← addCovenantSignatures lib ce delBatch
    submitBatches lib ce batches

/-- The work of a tick on the queried delegations. -/
def processDelegations (lib : Lib) (ce : CovenantEmulator) (dels : List (Option Delegation)) :
    Client Unit := do
  let sanitizedDels ← Prog.ofExcept (removeAlreadySigned lib ce dels)
  let batches ← Prog.ofExcept (delegationsToBatches ce sanitizedDels)
  submitBatches lib ce batches

/-- One tick of `covenantSigSubmissionLoop`; the result is the emulator's state after it. -/
def tick (lib : Lib) (ce : CovenantEmulator) : Client CovenantEmulator := do
  match ← updateParams ce with
  | (ce, some _) => return ce
  | (ce, none) =>
    match ← Prog.ask (I := clientController) (.queryPendingDelegations ce.config.delegationLimit) with
    | .error _ => return ce
    | .ok dels =>
      processDelegations lib ce dels.elems
      return ce

/-- `time.NewTicker`. -/
def newTicker (d : Int64) : Except Halt Unit :=
  if d ≤ 0 then .error (.panic "non-positive interval for NewTicker") else .ok ()

/-- The loop up to its first `select`, which it does not reach without a ticker. -/
def covenantSigSubmissionLoop {I : Interface} (ce : CovenantEmulator) :
    Reactor.Phase I Halt CovenantEmulator :=
  match newTicker ce.config.queryInterval with
  | .error x => .down x
  | .ok () => .select ce

theorem covenantSigSubmissionLoop_cases {I : Interface} (ce : CovenantEmulator) :
    0 < ce.config.queryInterval ∧ covenantSigSubmissionLoop (I := I) ce = .select ce ∨
      ce.config.queryInterval ≤ 0 ∧ ∃ msg, covenantSigSubmissionLoop (I := I) ce = .down (.panic msg) := by
  unfold covenantSigSubmissionLoop newTicker
  by_cases h : ce.config.queryInterval ≤ 0
  · rw [if_pos h]
    exact Or.inr ⟨h, _, rfl⟩
  · rw [if_neg h]
    exact Or.inl ⟨Int64.not_le.mp h, rfl⟩

end Covenant.Loop
