import Covenant.Gate

/-! What the parts of a tick of `covenantSigSubmissionLoop` can do, by inversion of their
runs: the attempts to fetch the parameters (`steps_updateParams`), the batches worked off
from the front (`steps_submitBatches`), and the processing of the queried delegations as
a whole (`steps_processDelegations`). -/

namespace Covenant.Runs
open Outcome Interaction Batching Bitcoin Covenant.Types Emulator Signing Loop Gate

variable {lib : Lib} {ce : CovenantEmulator}

/-! ## Parameters -/

/-- Attempts to fetch the parameters that failed with the given errors. -/
def failures (errs : List GoError) : ClientTrace :=
  errs.map fun err => ⟨.queryStakingParams, .error err⟩

def fetched (p : StakingParams) : Event clientController := ⟨.queryStakingParams, .ok p⟩

/-- The emulator under parameters that were just fetched. -/
def withParams (ce : CovenantEmulator) (p : StakingParams) : CovenantEmulator :=
  { ce with params := some p }

/-- What one attempt returns to `retry.Do`. -/
def attemptError : Except GoError StakingParams → Except GoError Unit
  | .ok _ => .ok ()
  | .error err => .error err

/-- What one attempt leaves in the captured variable. -/
def attemptParams : Except GoError StakingParams → Option StakingParams
  | .ok params => some params
  | .error _ => none

theorem queryParamsOnce_eq : queryParamsOnce = fun _ =>
    .call .queryStakingParams fun a => .ret (attemptError a, attemptParams a) := by
  funext s
  unfold queryParamsOnce
  simp only [Prog.bind_eq, Prog.ask, Prog.call_bind, Prog.ret_bind, Prog.call.injEq, heq_eq_eq,
    true_and]
  funext a
  cases a <;> rfl

theorem exists_failures {answers : List (Except GoError StakingParams)}
    (h : ∀ a ∈ answers, attemptError a ≠ .ok ()) :
    ∃ errs, errs.length = answers.length ∧
      answers.map (Event.mk (I := clientController) .queryStakingParams) = failures errs := by
  induction answers with
  | nil => exact ⟨[], rfl, rfl⟩
  | cons a answers ih =>
    obtain ⟨errs, hlen, heq⟩ := ih fun b hb => h b (List.mem_cons_of_mem _ hb)
    cases a with
    | ok p => exact absurd rfl (h _ (List.mem_cons_self ..))
    | error err =>
      refine ⟨err :: errs, by simp [hlen], ?_⟩
      rw [List.map_cons, heq]
      rfl

/-- What `UpdateParams` makes of the outcome of `retry.Do`. -/
def storeParams (ce : CovenantEmulator) :
    Except GoError Unit × Option StakingParams → CovenantEmulator × Option GoError
  | (.ok (), params) => ({ ce with params := params }, none)
  | (.error err, _) => (ce, some err)

theorem updateParams_eq (ce : CovenantEmulator) : updateParams ce =
    (Prog.retryDo queryParamsOnce (rtyAttNum - 1) none).bind fun r => .ret (storeParams ce r) := by
  unfold updateParams getParamsWithRetry
  simp only [Prog.bind_eq, Prog.bind_assoc]
  congr 1
  funext r
  rcases r with ⟨_ | _, params⟩ <;> rfl

/-- The parameters are being fetched, could not be fetched in any attempt, or were
fetched in an attempt after fewer failures than attempts. -/
theorem steps_updateParams {ce : CovenantEmulator} {t : ClientTrace}
    {q : Client (CovenantEmulator × Option GoError)} (h : Prog.Steps (updateParams ce) t q) :
    ∃ errs, (t = failures errs ∧ errs.length < rtyAttNum ∧ ∃ c k, q = .call c k) ∨
      (t = failures errs ∧ errs.length = rtyAttNum ∧ ∃ err, q = .ret (ce, some err)) ∨
      ∃ p, t = failures errs ++ [fetched p] ∧ errs.length < rtyAttNum ∧
        q = .ret (withParams ce p, none) := by
  rw [updateParams_eq, queryParamsOnce_eq] at h
  rcases Prog.steps_bind h with ⟨p', hp, hne, rfl⟩ | ⟨r, u, v, rfl, hu, hv⟩
  · obtain ⟨answers, hlen, hfail, ⟨rfl, k, rfl⟩ | ⟨a, _, _, rfl⟩⟩ := Prog.steps_retryDo hp
    · obtain ⟨errs, hl, heq⟩ := exists_failures hfail
      exact ⟨errs, Or.inl ⟨heq, hl ▸ Nat.lt_succ_of_le hlen, _, _, rfl⟩⟩
    · exact absurd rfl (hne _)
  · obtain ⟨rfl, rfl⟩ := Prog.steps_ret hv
    rw [List.append_nil]
    obtain ⟨answers, hlen, hfail, ⟨_, _, hr⟩ | ⟨a, rfl, hlast, hr⟩⟩ := Prog.steps_retryDo hu
    · cases hr
    · obtain ⟨errs, hl, heq⟩ := exists_failures hfail
      rw [heq]
      cases hr
      cases a with
      | ok p => exact ⟨errs, Or.inr (Or.inr ⟨p, rfl, hl ▸ Nat.lt_succ_of_le hlen, rfl⟩)⟩
      | error err =>
        have hn : answers.length = rtyAttNum - 1 := hlast.resolve_left fun h => nomatch h
        refine ⟨errs ++ [err], Or.inr (Or.inl ⟨by simp [failures], ?_, err, rfl⟩)⟩
        rw [List.length_append, hl, hn]
        rfl

/-! ## Batches -/

variable {bs batches : List (List (Option Delegation))} {dels : List (Option Delegation)}
  {u : ClientTrace} {q : Client Unit}

/-- The trace of batches that are worked off: every batch is entered, and submitted
unless the call declines it. -/
inductive Sent (lib : Lib) (ce : CovenantEmulator) :
    List (List (Option Delegation)) → ClientTrace → Prop
  | nil : Sent lib ce [] []
  | decline {b : List (Option Delegation)} {bs : List (List (Option Delegation))} {u : ClientTrace} :
      Declined lib ce b → Sent lib ce bs u → Sent lib ce (b :: bs) (⟨.enter ce.params b, ()⟩ :: u)
  | submit {b : List (Option Delegation)} {bs : List (List (Option Delegation))} {u : ClientTrace}
      {l : List CovenantSigs} (res : Except GoError TxResponse) :
      collectBatch lib ce b = .ok (some l) → Sent lib ce bs u →
      Sent lib ce (b :: bs) (⟨.enter ce.params b, ()⟩ :: ⟨.submitCovenantSigs l, res⟩ :: u)

/-- What a run of the batches does after those that are worked off: nothing, or it has
entered the next batch, where it panicked or is about to submit. -/
inductive Current (lib : Lib) (ce : CovenantEmulator) :
    List (List (Option Delegation)) → ClientTrace → Client Unit → Prop
  | idle (bs : List (List (Option Delegation))) : Current lib ce bs [] (submitBatches lib ce bs)
  | panicked {b : List (Option Delegation)} (bs : List (List (Option Delegation))) {msg : String} :
      collectBatch lib ce b = .error (.panic msg) →
      Current lib ce (b :: bs) [⟨.enter ce.params b, ()⟩] (.halt (.panic msg))
  | submitting {b : List (Option Delegation)} (bs : List (List (Option Delegation)))
      {l : List CovenantSigs} (k : Except GoError TxResponse → Client Unit) :
      collectBatch lib ce b = .ok (some l) →
      Current lib ce (b :: bs) [⟨.enter ce.params b, ()⟩] (.call (.submitCovenantSigs l) k)

/-- **Batches in order.** The batches are worked off from the front, whatever the calls
on earlier ones returned. -/
theorem steps_submitBatches (h : Prog.Steps (submitBatches lib ce batches) u q) :
    ∃ pre post u₁ u₂, batches = pre ++ post ∧ u = u₁ ++ u₂ ∧ Sent lib ce pre u₁ ∧
      Current lib ce post u₂ q := by
  induction batches generalizing u with
  | nil =>
    obtain ⟨rfl, rfl⟩ := Prog.steps_ret h
    exact ⟨[], [], [], [], rfl, rfl, .nil, .idle []⟩
  | cons b bs ih =>
    rcases Prog.steps_bind h with ⟨p', hp, hne, rfl⟩ | ⟨r, v, w, rfl, hv, hw⟩
    · refine ⟨[], b :: bs, [], u, rfl, rfl, .nil, ?_⟩
      rcases steps_addCovenantSignatures hp with ⟨rfl, rfl⟩ | ⟨rfl, hq⟩ | ⟨l, res, _, _, rfl⟩
      · exact .idle _
      · rcases hq with ⟨msg, hc, rfl⟩ | ⟨_, r, rfl⟩ | ⟨l, k, hc, rfl⟩
        · exact .panicked bs hc
        · exact absurd rfl (hne r)
        · exact .submitting bs _ hc
      · exact absurd rfl (hne _)
    · obtain ⟨pre, post, u₁, u₂, rfl, rfl, hs, hcur⟩ := ih hw
      rcases steps_addCovenantSignatures hv with ⟨_, hq⟩ | ⟨rfl, hq⟩ | ⟨l, res, hc, rfl, _⟩
      · cases hq
      · rcases hq with ⟨_, _, hq⟩ | ⟨hd, _⟩ | ⟨_, _, _, hq⟩
        · cases hq
        · exact ⟨b :: pre, post, _, u₂, rfl, rfl, .decline hd hs, hcur⟩
        · cases hq
      · exact ⟨b :: pre, post, _, u₂, rfl, rfl, .submit res hc hs, hcur⟩

/-- Conversely, every such trace is a run. -/
theorem Sent.steps (h : Sent lib ce bs u) :
    Prog.Steps (submitBatches lib ce bs) u (.ret ()) := by
  induction h with
  | nil => exact .refl _
  | decline hd _ ih =>
    obtain ⟨r, hr⟩ := steps_of_declined hd
    exact hr.bind ih
  | submit res hc _ ih => exact (steps_of_collectBatch hc res).bind ih

/-- The events of a run over batches: a batch is entered, or its signatures submitted. -/
inductive BatchEvent (lib : Lib) (ce : CovenantEmulator) (batches : List (List (Option Delegation))) :
    Event clientController → Prop
  | enter {b : List (Option Delegation)} :
      b ∈ batches → BatchEvent lib ce batches ⟨.enter ce.params b, ()⟩
  | submit {b : List (Option Delegation)} {l : List CovenantSigs} (res : Except GoError TxResponse) :
      b ∈ batches → collectBatch lib ce b = .ok (some l) →
      BatchEvent lib ce batches ⟨.submitCovenantSigs l, res⟩

theorem BatchEvent.mono
    {batches batches' : List (List (Option Delegation))} {e : Event clientController}
    (h : BatchEvent lib ce batches e) (hsub : ∀ b ∈ batches, b ∈ batches') :
    BatchEvent lib ce batches' e := by
  cases h with
  | enter hb => exact .enter (hsub _ hb)
  | submit res hb hc => exact .submit res (hsub _ hb) hc

theorem Sent.events (h : Sent lib ce bs u) : ∀ e ∈ u, BatchEvent lib ce bs e := by
  induction h with
  | nil =>
    intro e he
    cases he
  | decline _ _ ih =>
    intro e he
    rcases List.mem_cons.mp he with rfl | he
    · exact .enter (List.mem_cons_self ..)
    · exact (ih e he).mono fun b hb => List.mem_cons_of_mem _ hb
  | submit res hc _ ih =>
    intro e he
    rcases List.mem_cons.mp he with rfl | he
    · exact .enter (List.mem_cons_self ..)
    · rcases List.mem_cons.mp he with rfl | he
      · exact .submit res (List.mem_cons_self ..) hc
      · exact (ih e he).mono fun b hb => List.mem_cons_of_mem _ hb

theorem Current.events (h : Current lib ce bs u q) :
    ∀ e ∈ u, BatchEvent lib ce bs e := by
  intro e he
  cases h with
  | idle => cases he
  | panicked => exact List.mem_singleton.mp he ▸ .enter (List.mem_cons_self ..)
  | submitting => exact List.mem_singleton.mp he ▸ .enter (List.mem_cons_self ..)

theorem submitBatches_events
    (h : Prog.Steps (submitBatches lib ce batches) u q) : ∀ e ∈ u, BatchEvent lib ce batches e := by
  obtain ⟨pre, post, u₁, u₂, rfl, rfl, hs, hc⟩ := steps_submitBatches h
  intro e he
  rcases List.mem_append.mp he with he | he
  · exact (hs.events e he).mono fun b hb => List.mem_append_left _ hb
  · exact (hc.events e he).mono fun b hb => List.mem_append_right _ hb

/-- A submission follows the marker of the batch it is made for. -/
theorem Sent.adjacent (h : Sent lib ce bs u) {params : Option StakingParams}
    {b : List (Option Delegation)} {l : List CovenantSigs} {res : Except GoError TxResponse}
    {v w : ClientTrace}
    (hu : u = v ++ ⟨.enter params b, ()⟩ :: ⟨.submitCovenantSigs l, res⟩ :: w) :
    params = ce.params ∧ b ∈ bs ∧ collectBatch lib ce b = .ok (some l) := by
  induction h generalizing v with
  | nil => simp at hu
  | decline _ hs ih =>
    cases v with
    | nil =>
      obtain ⟨_, rfl⟩ := List.cons.inj hu
      cases hs
    | cons e v =>
      obtain ⟨hp, hb, hc⟩ := ih (List.cons.inj hu).2
      exact ⟨hp, List.mem_cons_of_mem _ hb, hc⟩
  | submit res' hc hs ih =>
    cases v with
    | nil =>
      obtain ⟨h1, h2⟩ := List.cons.inj hu
      cases h1
      cases (List.cons.inj h2).1
      exact ⟨rfl, List.mem_cons_self .., hc⟩
    | cons e v =>
      have hu' := (List.cons.inj hu).2
      cases v with
      | nil => cases (List.cons.inj hu').1
      | cons e' v =>
        obtain ⟨hp, hb, hc⟩ := ih (List.cons.inj hu').2
        exact ⟨hp, List.mem_cons_of_mem _ hb, hc⟩

theorem submitBatches_adjacent {params : Option StakingParams}
    {b : List (Option Delegation)} {l : List CovenantSigs} {res : Except GoError TxResponse}
    {v w : ClientTrace}
    (h : Prog.Steps (submitBatches lib ce batches)
      (v ++ ⟨.enter params b, ()⟩ :: ⟨.submitCovenantSigs l, res⟩ :: w) q) :
    params = ce.params ∧ b ∈ batches ∧ collectBatch lib ce b = .ok (some l) := by
  obtain ⟨pre, post, u₁, u₂, rfl, hu, hs, hc⟩ := steps_submitBatches h
  -- the batch that is being worked on has not been submitted yet
  have hsent : ∃ w', u₁ = v ++ ⟨.enter params b, ()⟩ :: ⟨.submitCovenantSigs l, res⟩ :: w' := by
    have hlast : ∀ b', v ++ ⟨.enter params b, ()⟩ :: ⟨.submitCovenantSigs l, res⟩ :: w =
        u₁ ++ [⟨.enter ce.params b', ()⟩] →
        ∃ w', u₁ = v ++ ⟨.enter params b, ()⟩ :: ⟨.submitCovenantSigs l, res⟩ :: w' := by
      intro b' heq
      rcases List.eq_nil_or_concat w with rfl | ⟨w', e, rfl⟩
      · rw [List.append_cons] at heq
        cases (List.append_inj' heq rfl).2
      · have heq' : (v ++ ⟨.enter params b, ()⟩ :: ⟨.submitCovenantSigs l, res⟩ :: w') ++ [e] =
            u₁ ++ [⟨.enter ce.params b', ()⟩] := by simpa using heq
        exact ⟨w', (List.append_inj' heq' rfl).1.symm⟩
    cases hc with
    | idle => exact ⟨w, by simpa using hu.symm⟩
    | panicked => exact hlast _ hu
    | submitting => exact hlast _ hu
  obtain ⟨w', hw'⟩ := hsent
  obtain ⟨hp, hb, hcol⟩ := hs.adjacent hw'
  exact ⟨hp, List.mem_append_left _ hb, hcol⟩

/-- The batches that a tick makes of the queried delegations. -/
def workList (lib : Lib) (ce : CovenantEmulator) (dels : List (Option Delegation)) :
    Except Halt (List (List (Option Delegation))) := do
  let sanitizedDels ← removeAlreadySigned lib ce dels
  delegationsToBatches ce sanitizedDels

/-- With a batch size the filter and the batching come to an end on every list of
delegations. -/
theorem workList_spec (lib : Lib) (ce : CovenantEmulator) {ds : List Delegation}
    (hlen : ds.length < 2 ^ 63) (hb : ce.config.sigsBatchSize ≠ 0) :
    ∃ sanitized batches, removeAlreadySigned lib ce (ds.map some) = .ok sanitized ∧
      delegationsToBatches ce sanitized = .ok batches ∧
      batches.flatten = (unsigned lib ce ds).map some ∧
      Chunked ce.config.sigsBatchSize.toNat batches := by
  have hle : ((unsigned lib ce ds).map some).length < 2 ^ 63 := by
    rw [List.length_map]
    exact Nat.lt_of_le_of_lt (List.length_filter_le _ _) hlen
  obtain ⟨batches, hok, hflat, hchunk⟩ := delegationsToBatches_spec ce hle hb
  exact ⟨_, batches, (removeAlreadySigned_eq_ok_iff lib ce (ds.map some) _).mpr ⟨ds, rfl, rfl⟩, hok,
    hflat, hchunk⟩

/-- The batches of a tick hold, in order, the queried delegations that the member has not
signed. -/
theorem workList_flatten (hlen : dels.length < 2 ^ 63)
    (h : workList lib ce dels = .ok batches) :
    ∃ ds, dels = ds.map some ∧ batches.flatten = (unsigned lib ce ds).map some := by
  obtain ⟨sanitized, hs, hb⟩ := bind_eq_ok_iff.mp h
  obtain ⟨ds, rfl, rfl⟩ := (removeAlreadySigned_eq_ok_iff lib ce dels sanitized).mp hs
  refine ⟨ds, rfl, delegationsToBatches_flatten ?_ hb⟩
  have hle := List.length_filter_le (fun del => !alreadySigned lib ce del) ds
  rw [List.length_map] at hlen ⊢
  exact Nat.lt_of_le_of_lt hle hlen

theorem workList_mem (hlen : dels.length < 2 ^ 63)
    (h : workList lib ce dels = .ok batches) {b : List (Option Delegation)} (hb : b ∈ batches)
    {d : Delegation} (hd : some d ∈ b) : some d ∈ dels ∧ alreadySigned lib ce d = false := by
  obtain ⟨ds, rfl, hflat⟩ := workList_flatten hlen h
  have hmem : some d ∈ batches.flatten := List.mem_flatten.mpr ⟨b, hb, hd⟩
  rw [hflat] at hmem
  obtain ⟨d', hd', heq⟩ := List.mem_map.mp hmem
  obtain rfl := Option.some.inj heq
  obtain ⟨hin, hun⟩ := List.mem_filter.mp hd'
  exact ⟨List.mem_map_of_mem hin, by simpa using hun⟩

theorem processDelegations_eq (lib : Lib) (ce : CovenantEmulator) (dels : List (Option Delegation)) :
    processDelegations lib ce dels =
      (Prog.ofExcept (workList lib ce dels)).bind fun batches => submitBatches lib ce batches := by
  unfold processDelegations workList
  cases removeAlreadySigned lib ce dels <;> rfl

theorem steps_processDelegations (h : Prog.Steps (processDelegations lib ce dels) u q) :
    (∃ x, workList lib ce dels = .error x ∧ u = [] ∧ q = .halt x) ∨
      ∃ batches, workList lib ce dels = .ok batches ∧
        Prog.Steps (submitBatches lib ce batches) u q := by
  rw [processDelegations_eq] at h
  cases hw : workList lib ce dels with
  | error x =>
    rw [hw] at h
    obtain ⟨rfl, rfl⟩ := Prog.steps_halt h
    exact Or.inl ⟨x, rfl, rfl, rfl⟩
  | ok batches =>
    rw [hw] at h
    exact Or.inr ⟨batches, rfl, h⟩

theorem processDelegations_events
    (h : Prog.Steps (processDelegations lib ce dels) u q) {e : Event clientController} (he : e ∈ u) :
    ∃ batches, workList lib ce dels = .ok batches ∧ BatchEvent lib ce batches e := by
  rcases steps_processDelegations h with ⟨_, _, rfl, _⟩ | ⟨batches, hw, hs⟩
  · cases he
  · exact ⟨batches, hw, submitBatches_events hs e he⟩

/-- The queried delegations make the emulator panic, or run forever: in the filter, in
the batching, or while a batch is signed. -/
def Fatal (lib : Lib) (ce : CovenantEmulator) (dels : List (Option Delegation)) (x : Halt) : Prop :=
  workList lib ce dels = .error x ∨
    ∃ batches b msg, workList lib ce dels = .ok batches ∧ b ∈ batches ∧
      collectBatch lib ce b = .error (.panic msg) ∧ x = .panic msg

theorem processDelegations_halt {x : Halt}
    (h : Prog.Steps (processDelegations lib ce dels) u (.halt x)) : Fatal lib ce dels x := by
  rcases steps_processDelegations h with ⟨y, hw, _, hx⟩ | ⟨batches, hw, hs⟩
  · cases hx
    exact Or.inl hw
  · obtain ⟨pre, post, u₁, u₂, rfl, rfl, _, hc⟩ := steps_submitBatches hs
    generalize hq : Prog.halt x = q at hc
    cases hc with
    | idle => cases post <;> cases hq
    | panicked bs hb =>
      cases hq
      exact Or.inr ⟨_, _, _, hw, by simp, hb, rfl⟩
    | submitting bs k hb => cases hq

/-! ## Submissions -/

theorem Sent.signed (h : Sent lib ce bs u) :
    ∃ xs, xs.Sublist bs.flatten ∧
      List.Forall₂ (fun d s => signDelegation lib ce d = .ok (some s)) xs (submissions u).flatten := by
  induction h with
  | nil => exact ⟨[], List.Sublist.refl _, .nil⟩
  | decline _ _ ih =>
    obtain ⟨xs, hsub, hf⟩ := ih
    exact ⟨xs, hsub.trans (List.sublist_append_right _ _), hf⟩
  | @submit b bs u l res hc _ ih =>
    obtain ⟨xs, hsub, hf⟩ := ih
    refine ⟨b ++ xs, List.Sublist.append (List.Sublist.refl _) hsub, ?_⟩
    exact List.rel_append ((collectBatch_eq_some_iff lib ce b l).mp hc).2 hf

theorem Current.submissions_eq (h : Current lib ce bs u q) : submissions u = [] := by
  cases h <;> rfl

/-- The signatures submitted for queried delegations are, in order, those of some of the
delegations that the member has not signed. -/
theorem processDelegations_signed
    (hlen : dels.length < 2 ^ 63) (h : Prog.Steps (processDelegations lib ce dels) u q) :
    submissions u = [] ∨ ∃ ds xs, dels = ds.map some ∧ xs.Sublist (unsigned lib ce ds) ∧
      List.Forall₂ (fun d s => signDelegation lib ce (some d) = .ok (some s)) xs
        (submissions u).flatten := by
  rcases steps_processDelegations h with ⟨_, _, rfl, _⟩ | ⟨batches, hw, hs⟩
  · exact Or.inl rfl
  · obtain ⟨pre, post, u₁, u₂, rfl, rfl, hsent, hcur⟩ := steps_submitBatches hs
    obtain ⟨ds, rfl, hflat⟩ := workList_flatten hlen hw
    obtain ⟨ys, hsub, hf⟩ := hsent.signed
    have hall : ys.Sublist ((unsigned lib ce ds).map some) := by
      rw [← hflat, List.flatten_append]
      exact hsub.trans (List.sublist_append_left _ _)
    obtain ⟨xs, hxs, rfl⟩ := List.sublist_map_iff.mp hall
    refine Or.inr ⟨ds, xs, rfl, hxs, ?_⟩
    have hsubs : submissions (u₁ ++ u₂) = submissions u₁ := by
      have hnil := hcur.submissions_eq
      unfold submissions at hnil ⊢
      rw [List.filterMap_append, hnil, List.append_nil]
    rw [hsubs]
    exact List.forall₂_map_left_iff.mp hf

end Covenant.Runs
